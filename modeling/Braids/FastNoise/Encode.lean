import Braids.FastNoise.Compile
import Braids.Packet.View
import Mathlib.Algebra.GroupWithZero.Nat

/-!
# Encoding Queries and Decoding Samples

`encode_batch`, `decode_batch` and `summarize_samples` of `runtime.rs`.

The encoder writes through raw slices of three buffers. In the model its loop works on the
contents of the buffers, which are written back at the end.

## Main results

* `encodeBatch_loop`: what the encoder does to any packet, as its loop returns.
* `encodeBatch_spec`: what a batch whose sample count fits leaves in a packet.
* `decodeBatch_spec`: the samples of the queries are summarized one after another.
-/

namespace Braids

/-! ### Samples -/

/-- `sample_count_2d`. -/
def sampleCount2d (build : Build) (width height : ℕ) : HookResult ℕ :=
  build.unsigned usizeLimit (width * height)

/-- `sample_count_3d`. -/
def sampleCount3d (build : Build) (width height depth : ℕ) : HookResult ℕ := do
  let area ← build.unsigned usizeLimit (width * height)
  build.unsigned usizeLimit (area * depth)

namespace ChunkQuery

/-- The number of cells of the grid. -/
def samples : ChunkQuery → ℕ
  | .grid2D width height .. => width * height
  | .grid3D width height depth .. => width * height * depth

/-- The number of cells, as the encoder computes it. -/
def sampleCount (build : Build) : ChunkQuery → HookResult ℕ
  | .grid2D width height .. => sampleCount2d build width height
  | .grid3D width height depth .. => sampleCount3d build width height depth

/-- The entries of a query in `SLOT_QUERY_META`. -/
def metas : ChunkQuery → List UInt32
  | .grid2D width height .. => [.ofNat width, .ofNat height, 1]
  | .grid3D width height depth .. => [.ofNat width, .ofNat height, .ofNat depth]

/-- The entries of a query in `SLOT_QUERY_F32`. -/
def floats : ChunkQuery → List F32
  | .grid2D _ _ originX originY stepX stepY =>
      [originX, originY, F32.zero, stepX, stepY, F32.one]
  | .grid3D _ _ _ originX originY originZ stepX stepY stepZ =>
      [originX, originY, originZ, stepX, stepY, stepZ]

@[simp] theorem length_metas (query : ChunkQuery) : query.metas.length = 3 := by
  cases query <;> rfl

@[simp] theorem length_floats (query : ChunkQuery) : query.floats.length = 6 := by
  cases query <;> rfl

end ChunkQuery

/-! ### `encode_batch` -/

/-- The contents of the three buffers, and the number of samples so far. -/
structure EncodeState where
  metaValues : List UInt32
  floatValues : List F32
  offsetValues : List UInt32
  cursor : ℕ

/-- `values[start] = ..; values[start + 1] = ..` and so on. -/
def setMany {α : Type} (values : List α) (start : ℕ) : List α → List α
  | [] => values
  | value :: rest => setMany (values.set start value) (start + 1) rest

/-- The loop of `encode_batch`, from the query with the given index on. A query of the
wrong dimension is unreachable code, that is a panic. -/
def encodeQueries (build : Build) (dimension : GraphDimension) (s : EncodeState) :
    ℕ → List ChunkQuery → HookResult EncodeState
  | _, [] => .ok s
  | index, query :: queries =>
      if query.dimension ≠ dimension then .panicked
      else do
        let count ← query.sampleCount build
        let cursor ← build.unsigned usizeLimit (s.cursor + count)
        encodeQueries build dimension
          { metaValues := setMany s.metaValues (index * 3) query.metas
            floatValues := setMany s.floatValues (index * 6) query.floats
            offsetValues := s.offsetValues.set (index + 1) (.ofNat cursor)
            cursor } (index + 1) queries

/-- `encode_batch`. -/
def encodeBatch (build : Build) (plan : CompiledPlan FastNoisePlannerMeta)
    (queries : List ChunkQuery) : PacketM Unit := do
  let queryCount := queries.length
  .modify fun p => { p with queryCount := queryCount }
  let metaValues ← JobPacket.ensure .u32 slotQueryMeta (queryCount * 3) some
  let floatValues ← JobPacket.ensure .f32 slotQueryF32 (queryCount * 6) some
  let offsetValues ← JobPacket.ensure .u32 slotQueryOffsets (queryCount + 1) some
  let s ← .read fun _ => encodeQueries build plan.plannerMeta.dimension
    { metaValues, floatValues, offsetValues := offsetValues.set 0 0, cursor := 0 } 0 queries
  let _ ← JobPacket.sliceMut .u32 slotQueryMeta fun _ => s.metaValues
  let _ ← JobPacket.sliceMut .f32 slotQueryF32 fun _ => s.floatValues
  let _ ← JobPacket.sliceMut .u32 slotQueryOffsets fun _ => s.offsetValues

/-! ### `decode_batch` -/

/-- `summarize_samples`. -/
def summarizeSamples (num : Numerics) (values : List F32) : ChunkSummary :=
  match values with
  | [] =>
      { samples := 0, min := F32.zero, max := F32.zero, mean := F32.zero, checksum := 0
        taps := List.replicate 8 F32.zero }
  | first :: _ =>
      let sum := values.foldl (fun sum value => num.addF64 sum (num.toF64 value)) ⟨0⟩
      { samples := values.length
        min := values.foldl num.min first
        max := values.foldl num.max first
        mean := num.ofF64 (num.divF64 sum (num.ofUsizeF64 values.length))
        checksum := values.foldl (fun checksum value =>
          (checksum ^^^ (value.bits.toUInt64 + 0x9e3779b9)) * 0x1000000001b3) 0xcbf29ce484222325
        taps := (List.range 8).map fun index =>
          values.getD (if values.length = 1 then 0 else index * (values.length - 1) / 7)
            F32.zero }

/-- The loop of `decode_batch`, from the sample with the given index on. -/
def summarizeAll (num : Numerics) (values : List F32) :
    ℕ → List UInt32 → HookResult (List ChunkSummary)
  | _, [] => .ok []
  | start, offset :: offsets =>
      let stop := offset.toNat
      if start ≤ stop ∧ stop ≤ values.length then do
        let rest ← summarizeAll num values stop offsets
        return summarizeSamples num ((values.drop start).take (stop - start)) :: rest
      else .panicked

/-- `decode_batch`. -/
def decodeBatch (num : Numerics) (plan : CompiledPlan FastNoisePlannerMeta) :
    PacketM (List ChunkSummary) :=
  .read fun p => do
    let values ← p.slice .f32 plan.plannerMeta.finalSlot
    let offsets ← p.slice .u32 slotQueryOffsets
    summarizeAll num values 0 (offsets.drop 1)

/-! ### Batches that fit -/

/-- A batch for a graph of dimension `d` whose sample count fits in a `u32`. -/
structure BatchFits (build : Build) (d : GraphDimension) (queries : List ChunkQuery) : Prop where
  dimension : ∀ query ∈ queries, query.dimension = d
  total : (queries.map ChunkQuery.samples).sum < 2 ^ 32
  /-- Counting the samples of a query does not overflow on the way. -/
  counts : ∀ query ∈ queries, query.sampleCount build = .ok query.samples

/-- Where the samples of each query start, `cursor` for the first. -/
def startOffsets (cursor : ℕ) : List ChunkQuery → List UInt32
  | [] => []
  | query :: queries => .ofNat cursor :: startOffsets (cursor + query.samples) queries

/-- Where the samples of each query end. -/
def endOffsets (cursor : ℕ) : List ChunkQuery → List UInt32
  | [] => []
  | query :: queries =>
      .ofNat (cursor + query.samples) :: endOffsets (cursor + query.samples) queries

@[simp] theorem length_endOffsets (cursor : ℕ) (queries : List ChunkQuery) :
    (endOffsets cursor queries).length = queries.length := by
  induction queries generalizing cursor with
  | nil => rfl
  | cons query queries ih => simp [endOffsets, ih]

/-- Each query starts where the one before ends. -/
theorem take_offsets (cursor : ℕ) (queries : List ChunkQuery) :
    (UInt32.ofNat cursor :: endOffsets cursor queries).take queries.length =
      startOffsets cursor queries := by
  induction queries generalizing cursor with
  | nil => rfl
  | cons query queries ih =>
      rw [List.length_cons, List.take_succ_cons, endOffsets, ih, startOffsets]

/-- The last query ends after all samples. -/
theorem getLast?_offsets (cursor : ℕ) (queries : List ChunkQuery) :
    (UInt32.ofNat cursor :: endOffsets cursor queries).getLast? =
      some (.ofNat (cursor + (queries.map ChunkQuery.samples).sum)) := by
  induction queries generalizing cursor with
  | nil => rfl
  | cons query queries ih =>
      rw [endOffsets, List.getLast?_cons_cons, ih, List.map_cons, List.sum_cons, Nat.add_assoc]

/-- Overwriting the elements after some others. -/
theorem setMany_append {α : Type} (done rest : List α) {new : List α}
    (h : new.length ≤ rest.length) :
    setMany (done ++ rest) done.length new = done ++ new ++ rest.drop new.length := by
  induction new generalizing done rest with
  | nil => simp [setMany]
  | cons value new ih =>
      cases rest with
      | nil => simp at h
      | cons old rest =>
          have hset : (done ++ old :: rest).set done.length value = (done ++ [value]) ++ rest := by
            simp
          have hlen : done.length + 1 = (done ++ [value]).length := by simp
          rw [setMany, hset, hlen, ih (done ++ [value]) rest (by simpa using h)]
          simp

/-- The loop of the encoder, when the entries of `done` were written. -/
theorem encodeQueries_spec {build : Build} {d : GraphDimension} (done : List ChunkQuery)
    {queries : List ChunkQuery} (hdim : ∀ query ∈ queries, query.dimension = d)
    (hcount : ∀ query ∈ queries, query.sampleCount build = .ok query.samples) {cursor : ℕ}
    (htotal : cursor + (queries.map ChunkQuery.samples).sum < 2 ^ 32)
    {metaRest : List UInt32} {floatRest : List F32} {offsetDone offsetRest : List UInt32}
    (hmeta : metaRest.length = queries.length * 3)
    (hfloat : floatRest.length = queries.length * 6)
    (hdone : offsetDone.length = done.length + 1) (hoffset : offsetRest.length = queries.length) :
    encodeQueries build d
      { metaValues := done.flatMap ChunkQuery.metas ++ metaRest
        floatValues := done.flatMap ChunkQuery.floats ++ floatRest
        offsetValues := offsetDone ++ offsetRest
        cursor } done.length queries =
      .ok {
        metaValues := (done ++ queries).flatMap ChunkQuery.metas
        floatValues := (done ++ queries).flatMap ChunkQuery.floats
        offsetValues := offsetDone ++ endOffsets cursor queries
        cursor := cursor + (queries.map ChunkQuery.samples).sum } := by
  induction queries generalizing done cursor metaRest floatRest offsetDone offsetRest with
  | nil =>
      obtain rfl := List.length_eq_zero_iff.mp hmeta
      obtain rfl := List.length_eq_zero_iff.mp hfloat
      obtain rfl := List.length_eq_zero_iff.mp hoffset
      simp [encodeQueries, endOffsets]
  | cons query queries ih =>
      rw [List.length_cons] at hmeta hfloat hoffset
      rw [List.map_cons, List.sum_cons] at htotal
      have hlimit : cursor + query.samples < usizeLimit := by
        rw [usizeLimit]
        omega
      have hm : (done.flatMap ChunkQuery.metas).length = done.length * 3 := by
        simp [List.length_flatMap]
      have hf : (done.flatMap ChunkQuery.floats).length = done.length * 6 := by
        simp [List.length_flatMap]
      have hmetas : setMany (done.flatMap ChunkQuery.metas ++ metaRest) (done.length * 3)
          query.metas = (done ++ [query]).flatMap ChunkQuery.metas ++ metaRest.drop 3 := by
        rw [← hm, setMany_append _ _ (by simp; omega)]
        simp
      have hfloats : setMany (done.flatMap ChunkQuery.floats ++ floatRest) (done.length * 6)
          query.floats = (done ++ [query]).flatMap ChunkQuery.floats ++ floatRest.drop 6 := by
        rw [← hf, setMany_append _ _ (by simp; omega)]
        simp
      obtain ⟨old, offsetRest, rfl⟩ := List.exists_cons_of_length_eq_add_one hoffset
      have hoffsets : (offsetDone ++ old :: offsetRest).set (done.length + 1)
          (.ofNat (cursor + query.samples)) =
          (offsetDone ++ [.ofNat (cursor + query.samples)]) ++ offsetRest := by
        rw [← hdone]
        simp
      have htotal' : cursor + query.samples + (queries.map ChunkQuery.samples).sum < 2 ^ 32 := by
        omega
      have hmeta' : (metaRest.drop 3).length = queries.length * 3 := by simp; omega
      have hfloat' : (floatRest.drop 6).length = queries.length * 6 := by simp; omega
      have hdone' : (offsetDone ++ [UInt32.ofNat (cursor + query.samples)]).length =
          (done ++ [query]).length + 1 := by simp [hdone]
      have hrest := ih (done ++ [query]) (fun q hq => hdim q (List.mem_cons_of_mem _ hq))
        (fun q hq => hcount q (List.mem_cons_of_mem _ hq)) htotal' hmeta' hfloat' hdone'
        (by simpa using hoffset)
      rw [encodeQueries, if_neg (not_not.mpr (hdim query List.mem_cons_self)),
        hcount query List.mem_cons_self, HookResult.ok_bind, build.unsigned_of_lt hlimit,
        HookResult.ok_bind, hmetas, hfloats, hoffsets]
      rw [List.length_append, List.length_singleton] at hrest
      rw [hrest]
      simp [endOffsets, Nat.add_assoc]

/-- What the encoder leaves in a packet. -/
structure Encoded (queries : List ChunkQuery) (p : JobPacket) : Prop where
  wf : p.Wf
  count : p.queryCount = queries.length
  metas : p.view slotQueryMeta = some (.ofList .u32 (queries.flatMap ChunkQuery.metas))
  floats : p.view slotQueryF32 = some (.ofList .f32 (queries.flatMap ChunkQuery.floats))
  offsets : p.view slotQueryOffsets = some (.ofList .u32 (0 :: endOffsets 0 queries))

/-- Overwriting a buffer that is there, with anything. -/
theorem sliceMut_run {p : JobPacket} (h : p.Wf) (kind : ElementKind) {slot : BufferSlot}
    {old : List kind.Elem} (hold : p.view slot = some (.ofList kind old)) (new : List kind.Elem) :
    ∃ p', (JobPacket.sliceMut kind slot fun _ => new).run p = some (.ok old, p') ∧ p'.Wf ∧
      p'.queryCount = p.queryCount ∧
      p'.view = Function.update p.view slot (some (.ofList kind (overwrite old new))) := by
  have hspec := JobPacket.sliceMut_spec h kind slot fun _ => new
  rw [hold] at hspec
  simp only [JobPacket.readView, BufferData.get_ofList] at hspec
  exact hspec

/-- What the encoder leaves, as its loop returns it. -/
structure EncodeState.Stored (s : EncodeState) (metaValues : List UInt32)
    (floatValues : List F32) (offsetValues : List UInt32) (p p' : JobPacket) : Prop where
  wf : p'.Wf
  metas : p'.view slotQueryMeta = some (.ofList .u32 (overwrite metaValues s.metaValues))
  floats : p'.view slotQueryF32 = some (.ofList .f32 (overwrite floatValues s.floatValues))
  offsets : p'.view slotQueryOffsets = some (.ofList .u32 (overwrite offsetValues s.offsetValues))
  others : ∀ slot, slot ≠ slotQueryMeta → slot ≠ slotQueryF32 → slot ≠ slotQueryOffsets →
    p'.view slot = p.view slot

/-- **What the encoder does**, to any packet: it makes three buffers long enough, and its loop
decides the rest. -/
theorem encodeBatch_loop (build : Build) (plan : CompiledPlan FastNoisePlannerMeta)
    (queries : List ChunkQuery) {p : JobPacket} (hp : p.Wf) :
    ∃ (metaValues : List UInt32) (floatValues : List F32) (offsetValues : List UInt32),
      metaValues.length = queries.length * 3 ∧ floatValues.length = queries.length * 6 ∧
      offsetValues.length = queries.length + 1 ∧
      match encodeQueries build plan.plannerMeta.dimension
          { metaValues, floatValues, offsetValues := offsetValues.set 0 0, cursor := 0 } 0
          queries with
      | .ok s => ∃ p', (encodeBatch build plan queries).run p = some (.ok (), p') ∧
          p'.queryCount = queries.length ∧ s.Stored metaValues floatValues offsetValues p p'
      | .err e => ∃ p', (encodeBatch build plan queries).run p = some (.error e, p') ∧ p'.Wf
      | .panicked => (encodeBatch build plan queries).run p = none := by
  have hp₀ : JobPacket.Wf { p with queryCount := queries.length } := ⟨hp.index, hp.clean⟩
  obtain ⟨p₁, hrun₁, hwf₁, hcount₁, hview₁⟩ := JobPacket.ensure_spec hp₀ .u32 slotQueryMeta
    (queries.length * 3) some rfl
  obtain ⟨p₂, hrun₂, hwf₂, hcount₂, hview₂⟩ := JobPacket.ensure_spec hwf₁ .f32 slotQueryF32
    (queries.length * 6) some rfl
  obtain ⟨p₃, hrun₃, hwf₃, hcount₃, hview₃⟩ := JobPacket.ensure_spec hwf₂ .u32 slotQueryOffsets
    (queries.length + 1) some rfl
  generalize hmetas : resize .u32 (queries.length * 3) _ = metaValues at hrun₁ hview₁
  generalize hfloats : resize .f32 (queries.length * 6) _ = floatValues at hrun₂ hview₂
  generalize hoffsets : resize .u32 (queries.length + 1) _ = offsetValues at hrun₃ hview₃
  have hmlen : metaValues.length = queries.length * 3 := by rw [← hmetas, length_resize]
  have hflen : floatValues.length = queries.length * 6 := by rw [← hfloats, length_resize]
  have holen : offsetValues.length = queries.length + 1 := by rw [← hoffsets, length_resize]
  refine ⟨metaValues, floatValues, offsetValues, hmlen, hflen, holen, ?_⟩
  cases hloop : encodeQueries build plan.plannerMeta.dimension
      { metaValues, floatValues, offsetValues := offsetValues.set 0 0, cursor := 0 } 0 queries with
  | panicked =>
      simp only [encodeBatch, PacketM.run_bind, PacketM.run_modify, Option.bind_some, hrun₁, hrun₂,
        hrun₃, PacketM.run_read, hloop, HookResult.result?, Option.map_none, Option.bind_none]
  | err e =>
      refine ⟨p₃, ?_, hwf₃⟩
      simp only [encodeBatch, PacketM.run_bind, PacketM.run_modify, Option.bind_some, hrun₁, hrun₂,
        hrun₃, PacketM.run_read, hloop, HookResult.result?, Option.map_some]
  | ok s =>
      -- the contents are written back
      have hm₃ : p₃.view slotQueryMeta = some (.ofList .u32 metaValues) := by
        rw [hview₃, Function.update_of_ne (by decide), hview₂, Function.update_of_ne (by decide),
          hview₁, Function.update_self]
      obtain ⟨p₄, hrun₄, hwf₄, hcount₄, hview₄⟩ := sliceMut_run hwf₃ .u32 hm₃ s.metaValues
      have hf₄ : p₄.view slotQueryF32 = some (.ofList .f32 floatValues) := by
        rw [hview₄, Function.update_of_ne (by decide), hview₃, Function.update_of_ne (by decide),
          hview₂, Function.update_self]
      obtain ⟨p₅, hrun₅, hwf₅, hcount₅, hview₅⟩ := sliceMut_run hwf₄ .f32 hf₄ s.floatValues
      have ho₅ : p₅.view slotQueryOffsets = some (.ofList .u32 offsetValues) := by
        rw [hview₅, Function.update_of_ne (by decide), hview₄, Function.update_of_ne (by decide),
          hview₃, Function.update_self]
      obtain ⟨p₆, hrun₆, hwf₆, hcount₆, hview₆⟩ := sliceMut_run hwf₅ .u32 ho₅ s.offsetValues
      refine ⟨p₆, ?_, ?_, ⟨hwf₆, ?_, ?_, ?_, fun slot hm hf ho => ?_⟩⟩
      · simp only [encodeBatch, PacketM.run_bind, PacketM.run_modify, Option.bind_some, hrun₁,
          hrun₂, hrun₃, PacketM.run_read, hloop, HookResult.result?, Option.map_some, hrun₄, hrun₅,
          hrun₆, PacketM.run_pure]
      · rw [hcount₆, hcount₅, hcount₄, hcount₃, hcount₂, hcount₁]
      · rw [hview₆, Function.update_of_ne (by decide), hview₅, Function.update_of_ne (by decide),
          hview₄, Function.update_self]
      · rw [hview₆, Function.update_of_ne (by decide), hview₅, Function.update_self]
      · rw [hview₆, Function.update_self]
      · rw [hview₆, Function.update_of_ne ho, hview₅, Function.update_of_ne hf, hview₄,
          Function.update_of_ne hm, hview₃, Function.update_of_ne ho, hview₂,
          Function.update_of_ne hf, hview₁, Function.update_of_ne hm]
        rfl

/-- **Encoding a batch that fits**, into any packet: nothing but the three query buffers
changes. -/
theorem encodeBatch_spec {build : Build} {plan : CompiledPlan FastNoisePlannerMeta}
    {queries : List ChunkQuery} (hfits : BatchFits build plan.plannerMeta.dimension queries)
    {p : JobPacket} (hp : p.Wf) :
    ∃ p', (encodeBatch build plan queries).run p = some (.ok (), p') ∧ Encoded queries p' ∧
      ∀ slot, slot ≠ slotQueryMeta → slot ≠ slotQueryF32 → slot ≠ slotQueryOffsets →
        p'.view slot = p.view slot := by
  obtain ⟨metaValues, floatValues, offsetValues, hmlen, hflen, holen, hloop⟩ :=
    encodeBatch_loop build plan queries hp
  obtain ⟨first, rest, rfl⟩ := List.exists_cons_of_length_eq_add_one holen
  have htotal : 0 + (queries.map ChunkQuery.samples).sum < 2 ^ 32 := by simpa using hfits.total
  have hone : [(0 : UInt32)].length = 1 := List.length_singleton
  have hqueries := encodeQueries_spec [] hfits.dimension hfits.counts htotal hmlen hflen hone
    (by simpa using holen)
  simp only [List.flatMap_nil, List.nil_append, List.length_nil, List.singleton_append] at hqueries
  rw [List.set_cons_zero, hqueries] at hloop
  obtain ⟨p', hrun, hcount, hstored⟩ := hloop
  refine ⟨p', hrun, ⟨hstored.wf, hcount, ?_, ?_, ?_⟩, hstored.others⟩
  · rw [hstored.metas, overwrite_of_length (by simp [List.length_flatMap, hmlen])]
  · rw [hstored.floats, overwrite_of_length (by simp [List.length_flatMap, hflen])]
  · rw [hstored.offsets, overwrite_of_length (by simpa using holen.symm)]

/-! ### Decoding -/

/-- The samples of the queries, cut from the samples of the batch. -/
theorem summarizeAll_spec (num : Numerics) {queries : List ChunkQuery}
    (sampleLists : List (List F32))
    (hlen : List.Forall₂ (fun query l => l.length = query.samples) queries sampleLists)
    (done : List F32) (htotal : (done ++ sampleLists.flatten).length < 2 ^ 32) :
    summarizeAll num (done ++ sampleLists.flatten) done.length (endOffsets done.length queries) =
      .ok (sampleLists.map (summarizeSamples num)) := by
  induction hlen generalizing done with
  | nil => rfl
  | @cons query l queries sampleLists hl _ ih =>
      rw [List.flatten_cons, ← List.append_assoc] at htotal ⊢
      have hrest := ih (done ++ l) htotal
      simp only [List.length_append] at htotal hrest
      have hlt : done.length + query.samples < 2 ^ 32 := by omega
      have hstop : (UInt32.ofNat (done.length + query.samples)).toNat =
          done.length + l.length := by
        rw [UInt32.toNat_ofNat_of_lt' hlt, hl]
      have hle : done.length ≤ done.length + l.length ∧
          done.length + l.length ≤ (done ++ l ++ sampleLists.flatten).length := by
        simp only [List.length_append]
        omega
      have hcut : ((done ++ l ++ sampleLists.flatten).drop done.length).take
          (done.length + l.length - done.length) = l := by
        simp [List.append_assoc]
      rw [endOffsets, summarizeAll]
      simp only [hstop, if_pos hle, hcut]
      rw [← hl, hrest]
      rfl

/-- **Decoding**: each query gets the summary of its samples. -/
theorem decodeBatch_spec (num : Numerics) {plan : CompiledPlan FastNoisePlannerMeta}
    {queries : List ChunkQuery} {p : JobPacket} (hp : p.Wf)
    (hoffsets : p.view slotQueryOffsets = some (.ofList .u32 (0 :: endOffsets 0 queries)))
    {sampleLists : List (List F32)}
    (hlen : List.Forall₂ (fun query l => l.length = query.samples) queries sampleLists)
    (htotal : (queries.map ChunkQuery.samples).sum < 2 ^ 32)
    (hfinal : p.view plan.plannerMeta.finalSlot = some (.ofList .f32 sampleLists.flatten)) :
    (decodeBatch num plan).run p = some (.ok (sampleLists.map (summarizeSamples num)), p) := by
  have hsum : sampleLists.flatten.length = (queries.map ChunkQuery.samples).sum := by
    clear hfinal htotal hoffsets
    induction hlen with
    | nil => rfl
    | cons hl _ ih => simp [hl, ih]
  have hspec := summarizeAll_spec num sampleLists hlen [] (by rwa [List.nil_append, hsum])
  simp only [List.nil_append, List.length_nil] at hspec
  simp only [decodeBatch, PacketM.run_read, JobPacket.slice_of_view hp hfinal,
    JobPacket.slice_of_view hp hoffsets, HookResult.ok_bind, List.drop_one, List.tail_cons,
    hspec, HookResult.result?, Option.map_some]

end Braids
