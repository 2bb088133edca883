import Braids.FastNoise.Cells
import Braids.FastNoise.Compilation
import Braids.FastNoise.Single

/-!
# When Queries Are Encoded Faithfully

The encoder writes sizes and offsets `as u32`, and takes a query of the wrong dimension for
unreachable code. `Faithful queries p` says that the packet holds the true sizes and offsets
of the queries, as natural numbers.

## Main results

* `encodeBatch_run`: the encoder reports no error, and panics on a query of the wrong
  dimension.
* `encoding_faithful_iff`: encoding is faithful precisely for the batches of one dimension
  whose sizes and sample count fit in `u32`, and then every batch that resolves has the true
  sample counts.
-/

namespace Braids

/-! ### Faithful packets -/

/-- The width, height and depth of a query, in the order of `SLOT_QUERY_META`. -/
def ChunkQuery.sizes (query : ChunkQuery) : List ℕ :=
  [query.size.1, query.size.2.1, query.size.2.2]

/-- The packet holds the true sizes and offsets of the queries. -/
structure Faithful (queries : List ChunkQuery) (p : JobPacket) : Prop where
  count : p.queryCount = queries.length
  metas : ∃ metas : List UInt32, p.view slotQueryMeta = some (.ofList .u32 metas) ∧
    metas.map UInt32.toNat = queries.flatMap ChunkQuery.sizes
  offsets : ∃ offsets : List UInt32, p.view slotQueryOffsets = some (.ofList .u32 offsets) ∧
    offsets.length = queries.length + 1 ∧ offsets[0]? = some 0 ∧
    ∀ i query, queries[i]? = some query → ∃ start stop : UInt32,
      offsets[i]? = some start ∧ offsets[i + 1]? = some stop ∧
        stop.toNat = start.toNat + query.samples

/-- A call that encodes the queries does not panic, and fails or is faithful. -/
def EncodesFaithfully (m : PacketM Unit) (queries : List ChunkQuery) (p : JobPacket) : Prop :=
  ∃ r p', m.run p = some (r, p') ∧ (r = .ok () → Faithful queries p')

/-- A batch that is encoded, run and decoded without an error has the true sample counts. -/
def ResolvesFaithfully (build : Build) (num : Numerics)
    (plan : CompiledPlan FastNoisePlannerMeta) (prepared : List (List CpuKernel))
    (queries : List ChunkQuery) (p : JobPacket) : Prop :=
  ∀ p₁ p₂ p₃ summaries, (encodeBatch build plan queries).run p = some (.ok (), p₁) →
    (runAllStages num plan prepared).run p₁ = some (.ok (), p₂) →
    (decodeBatch num plan).run p₂ = some (.ok summaries, p₃) →
    summaries.map ChunkSummary.samples = queries.map ChunkQuery.samples

/-- The next query starts after the samples of this one. -/
theorem startOf_succ {queries : List ChunkQuery} {i : ℕ} (hi : i < queries.length) :
    startOf queries (i + 1) = startOf queries i + queries[i].samples := by
  rw [startOf, startOf, List.take_add_one, List.getElem?_eq_getElem hi, List.map_append,
    List.sum_append]
  rfl

namespace Faithful

variable {queries : List ChunkQuery} {p : JobPacket}

/-- Sizes that were written truly fit in `u32`. -/
theorem size_lt (h : Faithful queries p) {query : ChunkQuery} (hquery : query ∈ queries) :
    query.size.1 < 2 ^ 32 ∧ query.size.2.1 < 2 ^ 32 ∧ query.size.2.2 < 2 ^ 32 := by
  obtain ⟨metas, -, hmetas⟩ := h.metas
  have hlt : ∀ n ∈ query.sizes, n < 2 ^ 32 := by
    intro n hn
    have hmem : n ∈ metas.map UInt32.toNat := hmetas ▸ List.mem_flatMap_of_mem hquery hn
    obtain ⟨value, -, rfl⟩ := List.mem_map.mp hmem
    exact value.toNat_lt
  exact ⟨hlt _ (by simp [ChunkQuery.sizes]), hlt _ (by simp [ChunkQuery.sizes]),
    hlt _ (by simp [ChunkQuery.sizes])⟩

/-- Offsets that were written truly say how many samples there are, so those fit in `u32`. -/
theorem total_lt (h : Faithful queries p) : (queries.map ChunkQuery.samples).sum < 2 ^ 32 := by
  obtain ⟨offsets, -, -, hzero, hnext⟩ := h.offsets
  have hstart : ∀ i ≤ queries.length, ∃ offset : UInt32, offsets[i]? = some offset ∧
      offset.toNat = startOf queries i := by
    intro i hi
    induction i with
    | zero => exact ⟨0, hzero, rfl⟩
    | succ i ih =>
        obtain ⟨start, hget, hstart⟩ := ih (Nat.le_of_succ_le hi)
        obtain ⟨start', stop, hget', hstop, hsum⟩ :=
          hnext i queries[i] (List.getElem?_eq_getElem hi)
        obtain rfl := Option.some.inj (hget.symm.trans hget')
        refine ⟨stop, hstop, ?_⟩
        rw [hsum, hstart, startOf_succ hi]
  obtain ⟨offset, -, htotal⟩ := hstart queries.length (Nat.le_refl _)
  have hlt := offset.toNat_lt
  rwa [htotal, startOf, List.take_length] at hlt

end Faithful

/-- A number that fits in `u32` is written truly. -/
theorem ChunkQuery.map_metas {query : ChunkQuery}
    (h : query.size.1 < 2 ^ 32 ∧ query.size.2.1 < 2 ^ 32 ∧ query.size.2.2 < 2 ^ 32) :
    query.metas.map UInt32.toNat = query.sizes := by
  obtain ⟨hw, hh, hd⟩ := h
  cases query with
  | grid2D width height =>
      have hw' : (UInt32.ofNat width).toNat = width := UInt32.toNat_ofNat_of_lt' hw
      have hh' : (UInt32.ofNat height).toNat = height := UInt32.toNat_ofNat_of_lt' hh
      simp only [metas, List.map_cons, List.map_nil, hw', hh']
      rfl
  | grid3D width height depth =>
      have hw' : (UInt32.ofNat width).toNat = width := UInt32.toNat_ofNat_of_lt' hw
      have hh' : (UInt32.ofNat height).toNat = height := UInt32.toNat_ofNat_of_lt' hh
      have hd' : (UInt32.ofNat depth).toNat = depth := UInt32.toNat_ofNat_of_lt' hd
      simp only [metas, List.map_cons, List.map_nil, hw', hh', hd']
      rfl

/-- **Batches whose numbers fit are encoded faithfully.** -/
theorem Encoded.faithful {queries : List ChunkQuery} {p : JobPacket} (h : Encoded queries p)
    {d : GraphDimension} (hgrid : GridBatch d queries) : Faithful queries p := by
  refine ⟨h.count, ⟨_, h.metas, ?_⟩, ⟨_, h.offsets, by simp, rfl, fun i query hget => ?_⟩⟩
  · rw [List.map_flatMap]
    exact List.flatMap_congr fun query hquery => ChunkQuery.map_metas (hgrid.size query hquery)
  · obtain ⟨hi, rfl⟩ := List.getElem?_eq_some_iff.mp hget
    obtain ⟨start, hstart, hfrom⟩ := getElem?_offsets hgrid.total (Nat.le_of_lt hi)
    obtain ⟨stop, hstop, hto⟩ := getElem?_offsets hgrid.total hi
    refine ⟨start, stop, hstart, hstop, ?_⟩
    rw [hto, hfrom]
    exact startOf_succ hi

/-! ### What the encoder can do -/

/-- Arithmetic reports no error. -/
theorem Build.noErr_unsigned (build : Build) (limit value : ℕ) :
    (build.unsigned limit value).NoErr := by
  rw [Build.unsigned]
  split
  · exact .ok _
  · split
    · exact .panicked
    · exact .ok _

/-- Counting samples reports no error. -/
theorem ChunkQuery.noErr_sampleCount (build : Build) (query : ChunkQuery) :
    (query.sampleCount build).NoErr := by
  cases query with
  | grid2D width height => exact build.noErr_unsigned _ _
  | grid3D width height depth =>
      exact (build.noErr_unsigned _ _).bind fun area => build.noErr_unsigned _ _

/-- The loop of the encoder reports no error, and returns only for queries of the dimension of
the plan. -/
theorem encodeQueries_cases (build : Build) (d : GraphDimension) (s : EncodeState) (index : ℕ)
    (queries : List ChunkQuery) :
    encodeQueries build d s index queries = .panicked ∨
      (∃ s', encodeQueries build d s index queries = .ok s') ∧
        ∀ query ∈ queries, query.dimension = d := by
  induction queries generalizing s index with
  | nil => exact .inr ⟨⟨s, rfl⟩, by simp⟩
  | cons query queries ih =>
      rw [encodeQueries]
      by_cases hdim : query.dimension ≠ d
      · exact .inl (if_pos hdim)
      · rw [if_neg hdim]
        cases hcount : query.sampleCount build with
        | panicked => exact .inl rfl
        | err e => exact absurd hcount (query.noErr_sampleCount build e)
        | ok count =>
            rw [HookResult.ok_bind]
            cases hsum : build.unsigned usizeLimit (s.cursor + count) with
            | panicked => exact .inl rfl
            | err e => exact absurd hsum (build.noErr_unsigned _ _ e)
            | ok cursor =>
                rw [HookResult.ok_bind]
                rcases ih _ (index + 1) with hpanic | ⟨hok, hall⟩
                · exact .inl hpanic
                · refine .inr ⟨hok, ?_⟩
                  rw [List.forall_mem_cons]
                  exact ⟨not_not.mp hdim, hall⟩

/-- **The encoder returns `Ok` or panics**, and panics on a query of the wrong dimension. -/
theorem encodeBatch_run {build : Build} {plan : CompiledPlan FastNoisePlannerMeta}
    {queries : List ChunkQuery} {p p' : JobPacket} {r : BraidResult Unit} (hp : p.Wf)
    (hrun : (encodeBatch build plan queries).run p = some (r, p')) :
    r = .ok () ∧ ∀ query ∈ queries, query.dimension = plan.plannerMeta.dimension := by
  obtain ⟨metaValues, floatValues, offsetValues, -, -, -, hloop⟩ :=
    encodeBatch_loop build plan queries hp
  obtain hpanic | ⟨⟨s, hok⟩, hdim⟩ := encodeQueries_cases build plan.plannerMeta.dimension
    { metaValues, floatValues, offsetValues := offsetValues.set 0 0, cursor := 0 } 0 queries
  · rw [hpanic] at hloop
    exact absurd (hloop.symm.trans hrun) (Option.some_ne_none _).symm
  · rw [hok] at hloop
    obtain ⟨p₁, hrun₁, -, -⟩ := hloop
    rw [hrun₁, Option.some.injEq, Prod.mk.injEq] at hrun
    exact ⟨hrun.1.symm, hdim⟩

/-! ### What decoding can return -/

/-- A call that returned a value. -/
theorem HookResult.result?_eq_ok {α : Type} {x : HookResult α} {a : α} :
    x.result? = some (.ok a) ↔ x = .ok a := by
  cases x <;> simp [HookResult.result?]

/-- Each summary counts the samples between two offsets. -/
theorem samples_of_summarizeAll (num : Numerics) {values : List F32} {queries : List ChunkQuery}
    {cursor : ℕ} (htotal : cursor + (queries.map ChunkQuery.samples).sum < 2 ^ 32)
    {summaries : List ChunkSummary}
    (h : summarizeAll num values cursor (endOffsets cursor queries) = .ok summaries) :
    summaries.map ChunkSummary.samples = queries.map ChunkQuery.samples := by
  induction queries generalizing cursor summaries with
  | nil =>
      obtain rfl := HookResult.ok.inj h
      rfl
  | cons query queries ih =>
      rw [List.map_cons, List.sum_cons, ← Nat.add_assoc] at htotal
      have hlt : cursor + query.samples < 2 ^ 32 := by omega
      have hstop : (UInt32.ofNat (cursor + query.samples)).toNat = cursor + query.samples :=
        UInt32.toNat_ofNat_of_lt' hlt
      rw [endOffsets, summarizeAll, hstop] at h
      split at h
      · next hle =>
          obtain ⟨rest, hrest, heq⟩ := HookResult.bind_eq_ok.mp h
          obtain rfl := HookResult.ok.inj heq
          have hlen : ((values.drop cursor).take (cursor + query.samples - cursor)).length =
              query.samples := by
            rw [List.length_take, List.length_drop]
            omega
          have hsamples : ∀ l : List F32, (summarizeSamples num l).samples = l.length := by
            intro l
            cases l <;> rfl
          rw [List.map_cons, List.map_cons, hsamples, hlen, ih htotal hrest]
      · simp at h

/-- **What resolves has the true sample counts**, if the numbers of the batch fit. -/
theorem GridBatch.resolvesFaithfully {build : Build} {plan : CompiledPlan FastNoisePlannerMeta}
    {queries : List ChunkQuery} (h : GridBatch plan.plannerMeta.dimension queries)
    (num : Numerics) (prepared : List (List CpuKernel)) {p : JobPacket} (hp : p.Wf) :
    ResolvesFaithfully build num plan prepared queries p := by
  intro p₁ p₂ p₃ summaries hencode hstages hdecode
  obtain ⟨p₁', hencode', henc, -⟩ := encodeBatch_spec (h.fits build) hp
  obtain rfl : p₁' = p₁ := by
    rw [hencode', Option.some.injEq, Prod.mk.injEq] at hencode
    exact hencode.2
  simp only [decodeBatch, PacketM.run_read, Option.map_eq_some_iff, Prod.mk.injEq] at hdecode
  obtain ⟨result, hresult, rfl, rfl⟩ := hdecode
  obtain ⟨values, -, hmore⟩ := HookResult.bind_eq_ok.mp (HookResult.result?_eq_ok.mp hresult)
  obtain ⟨offsets, hoffsets, hmore⟩ := HookResult.bind_eq_ok.mp hmore
  -- the kernels did not write the offsets, or they could not be read
  have hkept := (runAllStages_writes num plan prepared).slice_eq henc.wf hstages (by decide)
    hoffsets
  rw [JobPacket.slice_of_view henc.wf henc.offsets, HookResult.ok.injEq] at hkept
  subst hkept
  exact samples_of_summarizeAll num (by simpa using h.total) hmore

/-! ### The condition -/

/-- **Encoding is faithful precisely for batches of one dimension whose numbers fit.** Then,
and only then, `encode_batch` and `encode_one` neither panic nor write other sizes and offsets
than the true ones, and every batch that resolves has the true sample counts. -/
theorem encoding_faithful_iff (build : Build) (plan : CompiledPlan FastNoisePlannerMeta)
    (queries : List ChunkQuery) {p : JobPacket} (hp : p.Wf) :
    (EncodesFaithfully (encodeBatch build plan queries) queries p ∧
      (∀ query, queries = [query] →
        EncodesFaithfully (encodeOne build plan query) queries p) ∧
      ∀ num prepared, ResolvesFaithfully build num plan prepared queries p) ↔
    GridBatch plan.plannerMeta.dimension queries := by
  constructor
  · rintro ⟨⟨r, p', hrun, hfaithful⟩, -, -⟩
    obtain ⟨hok, hdim⟩ := encodeBatch_run hp hrun
    have h := hfaithful hok
    exact ⟨hdim, fun query hquery => h.size_lt hquery, h.total_lt⟩
  · intro h
    obtain ⟨p', hrun, henc, -⟩ := encodeBatch_spec (h.fits build) hp
    have hbatch : EncodesFaithfully (encodeBatch build plan queries) queries p :=
      ⟨.ok (), p', hrun, fun _ => henc.faithful h⟩
    refine ⟨hbatch, fun query hquery => ?_, fun num prepared =>
      h.resolvesFaithfully num prepared hp⟩
    rw [encodeOne_eq, ← hquery]
    exact hbatch

/-- A batch of one grid that fits, in a new packet. -/
theorem encoding_faithful_iff_three :
    EncodesFaithfully (encodeBatch ⟨true⟩ gridPlan gridTriple) gridTriple {} := by
  have hgrid : GridBatch gridPlan.plannerMeta.dimension gridTriple := by
    constructor <;> decide
  exact ((encoding_faithful_iff ⟨true⟩ gridPlan gridTriple JobPacket.wf_default).mpr hgrid).1

/-- **A grid of the wrong dimension panics**, in either encoder; a grid that is too wide is
encoded without an error as one that is empty. -/
theorem encoding_not_faithful :
    (encodeBatch ⟨true⟩ gridPlan [.grid3D 1 1 1 ⟨0⟩ ⟨0⟩ ⟨0⟩ ⟨1⟩ ⟨1⟩ ⟨1⟩]).run {} = none ∧
      (encodeOne ⟨true⟩ gridPlan (.grid3D 1 1 1 ⟨0⟩ ⟨0⟩ ⟨0⟩ ⟨1⟩ ⟨1⟩ ⟨1⟩)).run {} = none ∧
      ¬ EncodesFaithfully (encodeBatch ⟨true⟩ gridPlan [.grid2D (2 ^ 32) 1 ⟨0⟩ ⟨0⟩ ⟨1⟩ ⟨1⟩])
        [.grid2D (2 ^ 32) 1 ⟨0⟩ ⟨0⟩ ⟨1⟩ ⟨1⟩] {} := by
  refine ⟨by decide, by decide, ?_⟩
  rintro ⟨r, p', hrun, hfaithful⟩
  obtain ⟨hok, -⟩ := encodeBatch_run JobPacket.wf_default hrun
  exact absurd ((hfaithful hok).size_lt List.mem_cons_self).1 (Nat.lt_irrefl _)

end Braids
