import Braids.FastNoise.Kernels

/-!
# The Loops of Kernels

What the loops of the FastNoise kernels do to a packet. `Holds p slots vals` says that some
slots hold a list of vectors, one coordinate in each slot.

## Main results

* `runPointwise_spec`: a loop over the elements of its outputs computes its body on every
  vector of its inputs, and changes no other slot.
* `runPointwise_nodup`, `runPointwise_some`: what such a loop needs to succeed.
-/

namespace Braids

/-! ### Columns -/

/-- One coordinate of each vector. -/
def column (vals : List (List F32)) (j : ℕ) : List F32 := vals.map fun v => v.getD j F32.zero

/-- The vectors, transposed. -/
def columns (m : ℕ) (vals : List (List F32)) : List (List F32) :=
  (List.range m).map (column vals)

@[simp] theorem length_column (vals : List (List F32)) (j : ℕ) :
    (column vals j).length = vals.length := List.length_map _

@[simp] theorem length_columns (m : ℕ) (vals : List (List F32)) :
    (columns m vals).length = m := by simp [columns]

/-- A column. -/
theorem getElem?_columns {m j : ℕ} (vals : List (List F32)) (h : j < m) :
    (columns m vals)[j]? = some (column vals j) := by
  simp [columns, h]

/-- A list with the same columns. -/
theorem eq_columns {m : ℕ} {vals l : List (List F32)} (hlen : l.length = m)
    (h : ∀ j col, l[j]? = some col → col = column vals j) : l = columns m vals := by
  refine List.ext_getElem? fun j => ?_
  by_cases hj : j < m
  · have hl : j < l.length := hlen ▸ hj
    rw [getElem?_columns vals hj, List.getElem?_eq_getElem hl,
      h j _ (List.getElem?_eq_getElem hl)]
  · rw [List.getElem?_eq_none (by omega), List.getElem?_eq_none (by simp; omega)]

/-- Reading one index of all columns reads the vector. -/
theorem readAt_columns {m i : ℕ} {vals : List (List F32)} {v : List F32}
    (hv : vals[i]? = some v) (hlen : v.length = m) : readAt i (columns m vals) = some v := by
  obtain ⟨hi, rfl⟩ := List.getElem?_eq_some_iff.mp hv
  have hall : ((columns m vals).all fun input => i < input.length) = true := by
    simp [columns, hi]
  rw [readAt, if_pos hall]
  congr 1
  refine List.ext_getElem (by simp [hlen]) fun j hj _ => ?_
  have hjm : j < m := by simpa using hj
  simp [columns, column, hi, hlen, hjm]

/-! ### Pure loops -/

/-- The values of the rest of a loop over columns, when the indices of `pre` are done. -/
theorem pointwise_append {m : ℕ} {f : List F32 → Option (List F32)}
    (pre : List (List F32)) {vals : List (List F32)} (hlen : ∀ v ∈ vals, v.length = m)
    (writes : List (ℕ × List F32)) :
    pointwise f (columns m (pre ++ vals)) (List.range' pre.length vals.length) = some writes ↔
      ∃ ws, List.Forall₂ (fun v w => f v = some w) vals ws ∧
        writes = (List.range' pre.length vals.length).zip ws := by
  induction vals generalizing pre writes with
  | nil =>
      simp only [List.length_nil, List.range'_zero, pointwise, Option.some.injEq,
        List.forall₂_nil_left_iff, exists_eq_left, List.zip_nil_left]
      exact eq_comm
  | cons v vals ih =>
      have hread : readAt pre.length (columns m (pre ++ v :: vals)) = some v :=
        readAt_columns (by simp) (hlen v List.mem_cons_self)
      have hrest := ih (pre ++ [v]) fun w hw => hlen w (List.mem_cons_of_mem _ hw)
      have happ : pre ++ [v] ++ vals = pre ++ v :: vals := by simp
      have hpre : (pre ++ [v]).length = pre.length + 1 := by simp
      rw [happ, hpre] at hrest
      rw [List.length_cons, List.range'_succ, pointwise, hread]
      simp only [Option.bind_eq_bind, Option.bind_some]
      cases hf : f v with
      | none =>
          simp only [Option.bind_none, reduceCtorEq, false_iff]
          rintro ⟨_, hws, -⟩
          cases hws with
          | cons hw _ => simp [hf] at hw
      | some w =>
          simp only [Option.bind_some, Option.bind_eq_some_iff, hrest, pure, Option.some.injEq]
          constructor
          · rintro ⟨_, ⟨ws, hws, rfl⟩, rfl⟩
            exact ⟨w :: ws, .cons hf hws, rfl⟩
          · rintro ⟨_, hws, rfl⟩
            cases hws with
            | @cons _ w' _ ws hw hws =>
                obtain rfl := Option.some.inj (hf.symm.trans hw)
                exact ⟨_, ⟨ws, hws, rfl⟩, rfl⟩

/-- **The values of a loop over columns** are those of its body on the vectors. -/
theorem pointwise_columns {m : ℕ} {f : List F32 → Option (List F32)} {vals : List (List F32)}
    (hlen : ∀ v ∈ vals, v.length = m) {writes : List (ℕ × List F32)} :
    pointwise f (columns m vals) (List.range vals.length) = some writes ↔
      ∃ ws, List.Forall₂ (fun v w => f v = some w) vals ws ∧
        writes = (List.range vals.length).zip ws := by
  rw [List.range_eq_range']
  exact pointwise_append [] hlen writes

/-- Writing vectors at all indices, when those of `pre` were written before. -/
theorem writeAll_append {m : ℕ} (pre : List (List F32)) {ws outs : List (List F32)}
    (hm : outs.length = m) (hws : ∀ w ∈ ws, w.length = m)
    (houts : ∀ j out, outs[j]? = some out →
      ∃ tail, out = column pre j ++ tail ∧ tail.length = ws.length) :
    writeAll outs ((List.range' pre.length ws.length).zip ws) = some (columns m (pre ++ ws)) := by
  induction ws generalizing pre outs with
  | nil =>
      have heq : outs = columns m pre := by
        refine eq_columns hm fun j col hcol => ?_
        obtain ⟨tail, rfl, htail⟩ := houts j col hcol
        obtain rfl := List.length_eq_zero_iff.mp htail
        simp
      simp [writeAll, heq]
  | cons w ws ih =>
      have hlen : w.length = m := hws w List.mem_cons_self
      have hall : (outs.all fun out => pre.length < out.length) = true := by
        rw [List.all_eq_true]
        intro out hout
        obtain ⟨j, hj⟩ := List.getElem?_of_mem hout
        obtain ⟨tail, rfl, htail⟩ := houts j out hj
        simp [htail]
      have hwrite : writeAt pre.length outs w =
          some (outs.zipWith (fun out value => out.set pre.length value) w) := if_pos hall
      have hm' : (outs.zipWith (fun out value => out.set pre.length value) w).length = m := by
        simp [hm, hlen]
      have hrest := ih (pre ++ [w]) hm' (fun w' hw' => hws w' (List.mem_cons_of_mem _ hw')) ?_
      · have happ : pre ++ [w] ++ ws = pre ++ w :: ws := by simp
        have hpre : (pre ++ [w]).length = pre.length + 1 := by simp
        rw [happ, hpre] at hrest
        rw [List.length_cons, List.range'_succ, List.zip_cons_cons, writeAll, hwrite]
        exact hrest
      · intro j out hout
        rw [List.getElem?_zipWith] at hout
        obtain ⟨old, value, hold, hvalue, rfl⟩ : ∃ old value, outs[j]? = some old ∧
            w[j]? = some value ∧ old.set pre.length value = out := by
          revert hout
          cases outs[j]? <;> cases w[j]? <;> simp
        obtain ⟨tail, rfl, htail⟩ := houts j old hold
        cases tail with
        | nil => simp at htail
        | cons t tail =>
            refine ⟨tail, ?_, by simpa using htail⟩
            have hset := List.set_append_right (s := column pre j) (t := t :: tail) pre.length
              value (by simp)
            rw [hset]
            simp [column, hvalue]

/-- Writing vectors at all indices. -/
theorem writeAll_columns {m : ℕ} {ws : List (List F32)} {outs : List (List F32)}
    (hm : outs.length = m) (hws : ∀ w ∈ ws, w.length = m)
    (houts : ∀ out ∈ outs, out.length = ws.length) :
    writeAll outs ((List.range ws.length).zip ws) = some (columns m ws) := by
  rw [List.range_eq_range']
  refine writeAll_append [] hm hws fun j out hout => ⟨out, rfl, ?_⟩
  exact houts out (List.mem_of_getElem? hout)

/-! ### Slots that hold vectors -/

/-- Some slots hold vectors, one coordinate in each slot. -/
def Holds (p : JobPacket) (slots : List BufferSlot) (vals : List (List F32)) : Prop :=
  ∀ j slot, slots[j]? = some slot → p.view slot = some (.ofList .f32 (column vals j))

namespace Holds

variable {p p' : JobPacket} {slots : List BufferSlot} {vals : List (List F32)}

/-- Slots that were not written hold what they held. -/
theorem of_view (h : Holds p slots vals) (hview : ∀ slot ∈ slots, p'.view slot = p.view slot) :
    Holds p' slots vals := by
  intro j slot hslot
  rw [hview slot (List.mem_of_getElem? hslot)]
  exact h j slot hslot

/-- The buffers of the slots are the columns. -/
theorem forall₂ (h : Holds p slots vals) :
    List.Forall₂ (fun slot (values : List F32) => p.view slot = some (.ofList .f32 values))
      slots (columns slots.length vals) := by
  rw [List.forall₂_iff_get]
  refine ⟨by simp, fun j hj hj' => ?_⟩
  have hslot := h j slots[j] (List.getElem?_eq_getElem hj)
  simpa [columns] using hslot

end Holds

/-! ### `ensure` -/

/-- `ensure` on some slots makes each of them a buffer of that length. -/
theorem ensureAll_spec {p : JobPacket} (h : p.Wf) (total : ℕ) (slots : List BufferSlot) :
    ∃ p', (ensureAll total slots).run p = some (.ok (), p') ∧ p'.Wf ∧
      p'.queryCount = p.queryCount ∧
      (∀ slot ∈ slots, ∃ values : List F32,
        p'.view slot = some (.ofList .f32 values) ∧ values.length = total) ∧
      ∀ slot ∉ slots, p'.view slot = p.view slot := by
  induction slots generalizing p with
  | nil => exact ⟨p, rfl, h, rfl, by simp, by simp⟩
  | cons slot slots ih =>
      obtain ⟨p₁, hrun₁, hwf₁, hcount₁, hview₁⟩ := JobPacket.ensure_spec h .f32 slot total some rfl
      obtain ⟨p', hrun, hwf, hcount, hall, hother⟩ := ih hwf₁
      refine ⟨p', ?_, hwf, hcount.trans hcount₁, fun s hs => ?_, fun s hs => ?_⟩
      · simp only [ensureAll, PacketM.run_bind, hrun₁, Option.bind_some, hrun]
      · by_cases hin : s ∈ slots
        · exact hall s hin
        · obtain rfl := (List.mem_cons.mp hs).resolve_right hin
          refine ⟨_, ?_, length_resize .f32 total (p.contents .f32 s)⟩
          rw [hother s hin, hview₁, Function.update_self]
      · rw [List.mem_cons, not_or] at hs
        rw [hother s hs.2, hview₁, Function.update_of_ne hs.1]

/-- Reading the number of samples. -/
theorem readTotal_run {p : JobPacket} (h : p.Wf) {offsets : List UInt32}
    (hoffsets : p.view slotQueryOffsets = some (.ofList .u32 offsets)) :
    readTotal.run p = some (.ok (totalSamplesFromOffsets offsets), p) := by
  simp [readTotal, JobPacket.slice_of_view h hoffsets, HookResult.result?]

/-! ### Loops on a packet -/

section RunPointwise

variable {p p' : JobPacket} {inputs outputs : List BufferSlot}
  {f : List F32 → Option (List F32)} {vals : List (List F32)}

/-- The buffers that a loop borrows. -/
theorem requestViews_loop {n : ℕ} (hnd : (inputs ++ outputs).Nodup) (hin : Holds p inputs vals)
    (hout : ∀ slot ∈ outputs, ∃ old : List F32,
      p.view slot = some (.ofList .f32 old) ∧ old.length = n) :
    ∃ olds : List (List F32), JobPacket.requestViews p.view .f32 [] (inputs ++ outputs) =
        .ok (columns inputs.length vals ++ olds) ∧
      olds.length = outputs.length ∧ ∀ old ∈ olds, old.length = n := by
  obtain ⟨olds, holds, holdlen⟩ : ∃ olds : List (List F32),
      List.Forall₂ (fun slot (values : List F32) => p.view slot = some (.ofList .f32 values))
        outputs olds ∧ ∀ old ∈ olds, old.length = n := by
    clear hnd
    induction outputs with
    | nil => exact ⟨[], .nil, by simp⟩
    | cons slot outputs ih =>
        obtain ⟨old, hold, hlen⟩ := hout slot List.mem_cons_self
        obtain ⟨olds, holds, hall⟩ := ih fun s hs => hout s (List.mem_cons_of_mem _ hs)
        refine ⟨old :: olds, .cons hold holds, ?_⟩
        rw [List.forall_mem_cons]
        exact ⟨hlen, hall⟩
  exact ⟨olds, JobPacket.requestViews_eq_ok.mpr ⟨hnd, by simp, List.rel_append hin.forall₂ holds⟩,
    holds.length_eq.symm, holdlen⟩

/-- **A closure that leaves its inputs and overwrites its outputs** does just that to the
packet. -/
theorem withSlices_overwrite (h : p.Wf) (hnd : (inputs ++ outputs).Nodup)
    (hin : Holds p inputs vals) {ws : List (List F32)}
    (hout : ∀ slot ∈ outputs, ∃ old : List F32,
      p.view slot = some (.ofList .f32 old) ∧ old.length = ws.length)
    {g : List (List F32) → Option (BraidResult Unit × List (List F32))}
    (hg : ∀ olds : List (List F32), olds.length = outputs.length →
      (∀ old ∈ olds, old.length = ws.length) → g (columns inputs.length vals ++ olds) =
        some (.ok (), columns inputs.length vals ++ columns outputs.length ws)) :
    ∃ p', (JobPacket.withSlices .f32 (inputs ++ outputs) g).run p = some (.ok (), p') ∧ p'.Wf ∧
      p'.queryCount = p.queryCount ∧ Holds p' outputs ws ∧
      ∀ slot ∉ outputs, p'.view slot = p.view slot := by
  obtain ⟨olds, hreq, holds, holdlen⟩ := requestViews_loop hnd hin hout
  have hspec := JobPacket.withSlices_spec h .f32 (inputs ++ outputs) g
  rw [hreq] at hspec
  simp only [hg olds holds holdlen] at hspec
  obtain ⟨p', hrun, hwf, hquery, hview⟩ := hspec
  refine ⟨p', hrun, hwf, hquery, fun j slot hslot => ?_, fun slot hslot => ?_⟩
  · -- an output holds what was written
    have hj : j < outputs.length := (List.getElem?_eq_some_iff.mp hslot).1
    have hold : (columns inputs.length vals ++ olds)[inputs.length + j]? =
        some (olds.getD j []) := by
      rw [List.getElem?_append_right (by simp), length_columns, Nat.add_sub_cancel_left]
      simp [holds, hj]
    have hnew : (columns inputs.length vals ++ columns outputs.length ws)[inputs.length + j]? =
        some (column ws j) := by
      rw [List.getElem?_append_right (by simp), length_columns, Nat.add_sub_cancel_left,
        getElem?_columns ws hj]
    have hpos : (inputs ++ outputs)[inputs.length + j]? = some slot := by
      rw [List.getElem?_append_right (by simp), Nat.add_sub_cancel_left, hslot]
    have hlen' : (column ws j).length = (olds.getD j []).length := by
      have hmem : olds.getD j [] ∈ olds := by simp [holds, hj]
      rw [length_column, holdlen _ hmem]
    rw [hview, JobPacket.overwriteViews_of_getElem? .f32 hnd hpos hold hnew,
      overwrite_of_length hlen']
  · rw [hview]
    by_cases hmem : slot ∈ inputs
    · -- an input holds what it held
      obtain ⟨j, hj⟩ := List.getElem?_of_mem hmem
      have hjlt : j < inputs.length := (List.getElem?_eq_some_iff.mp hj).1
      have hold : ∀ outs : List (List F32), (columns inputs.length vals ++ outs)[j]? =
          some (column vals j) := by
        intro outs
        rw [List.getElem?_append_left (by simpa using hjlt), getElem?_columns vals hjlt]
      have hpos : (inputs ++ outputs)[j]? = some slot := by
        rw [List.getElem?_append_left hjlt, hj]
      rw [JobPacket.overwriteViews_of_getElem? .f32 hnd hpos (hold olds) (hold _),
        overwrite_of_length rfl, hin j slot hj]
    · exact JobPacket.overwriteViews_of_notMem (by simp [hmem, hslot])

/-- The loop on the buffers that it borrows. -/
theorem pointwiseLoop_eq (n : ℕ) (f : List F32 → Option (List F32)) (vals : List (List F32))
    {olds : List (List F32)} (hne : olds ≠ []) (hlen : ∀ old ∈ olds, old.length = vals.length) :
    pointwiseLoop n f (columns n vals ++ olds) =
      (pointwise f (columns n vals) (List.range vals.length)).bind fun writes =>
        (writeAll olds writes).map fun outs => (.ok (), columns n vals ++ outs) := by
  have htake : (columns n vals ++ olds).take n = columns n vals :=
    List.take_left' (length_columns n vals)
  have hdrop : (columns n vals ++ olds).drop n = olds := List.drop_left' (length_columns n vals)
  have hcount : (olds.headD []).length = vals.length := by
    cases olds with
    | nil => exact absurd rfl hne
    | cons old _ => exact hlen old List.mem_cons_self
  simp only [pointwiseLoop, htake, hdrop, hcount, Option.bind_eq_bind, pure]
  congr 1
  funext writes
  cases writeAll olds writes <;> rfl

/-- **A loop over the elements of its outputs** writes to them what its body computes of
the inputs, and nothing else. -/
theorem runPointwise_spec (h : p.Wf) (hnd : (inputs ++ outputs).Nodup)
    (hlen : ∀ v ∈ vals, v.length = inputs.length) (hin : Holds p inputs vals)
    (hne : outputs ≠ [])
    (hout : ∀ slot ∈ outputs, ∃ old : List F32,
      p.view slot = some (.ofList .f32 old) ∧ old.length = vals.length)
    {ws : List (List F32)} (hf : List.Forall₂ (fun v w => f v = some w) vals ws)
    (hws : ∀ w ∈ ws, w.length = outputs.length) :
    ∃ p', (runPointwise inputs outputs f).run p = some (.ok (), p') ∧ p'.Wf ∧
      p'.queryCount = p.queryCount ∧ Holds p' outputs ws ∧
      ∀ slot ∉ outputs, p'.view slot = p.view slot := by
  have hwslen : vals.length = ws.length := hf.length_eq
  rw [hwslen] at hout
  refine withSlices_overwrite h hnd hin hout fun olds holds holdlen => ?_
  have hne' : olds ≠ [] := by
    rintro rfl
    exact hne (List.length_eq_zero_iff.mp holds.symm)
  have hpoint : pointwise f (columns inputs.length vals) (List.range vals.length) =
      some ((List.range ws.length).zip ws) :=
    (pointwise_columns hlen).mpr ⟨ws, hf, by rw [hwslen]⟩
  have hwrite : writeAll olds ((List.range ws.length).zip ws) =
      some (columns outputs.length ws) := writeAll_columns holds hws holdlen
  rw [pointwiseLoop_eq inputs.length f vals hne' fun old hold => by rw [holdlen old hold, hwslen],
    hpoint, Option.bind_some, hwrite]
  rfl

/-- A loop that succeeds has distinct slots, and each has a buffer of floats. -/
theorem runPointwise_nodup (h : p.Wf)
    (hrun : (runPointwise inputs outputs f).run p = some (.ok (), p')) :
    (inputs ++ outputs).Nodup ∧
      ∀ slot ∈ inputs, ∃ values : List F32, p.view slot = some (.ofList .f32 values) := by
  have hspec := JobPacket.withSlices_spec h .f32 (inputs ++ outputs)
    (pointwiseLoop inputs.length f)
  cases hreq : JobPacket.requestViews p.view .f32 [] (inputs ++ outputs) with
  | ok values =>
      obtain ⟨hnd, -, hall⟩ := JobPacket.requestViews_eq_ok.mp hreq
      refine ⟨hnd, fun slot hslot => ?_⟩
      obtain ⟨j, hj⟩ := List.getElem?_of_mem (List.mem_append_left outputs hslot)
      obtain ⟨hlt, rfl⟩ := List.getElem?_eq_some_iff.mp hj
      have hlt' : j < values.length := hall.length_eq ▸ hlt
      exact ⟨_, (List.forall₂_iff_get.mp hall).2 j hlt hlt'⟩
  | err e =>
      rw [hreq] at hspec
      rw [runPointwise, hspec] at hrun
      simp at hrun
  | panicked =>
      rw [hreq] at hspec
      exact hspec.elim

/-- The body of a loop that succeeds is defined on all inputs. -/
theorem runPointwise_some (h : p.Wf) (hlen : ∀ v ∈ vals, v.length = inputs.length)
    (hin : Holds p inputs vals) (hne : outputs ≠ [])
    (hout : ∀ slot ∈ outputs, ∃ old : List F32,
      p.view slot = some (.ofList .f32 old) ∧ old.length = vals.length)
    (hrun : (runPointwise inputs outputs f).run p = some (.ok (), p')) :
    ∀ v ∈ vals, ∃ w, f v = some w := by
  obtain ⟨hnd, -⟩ := runPointwise_nodup h hrun
  obtain ⟨olds, hreq, holds, holdlen⟩ := requestViews_loop hnd hin hout
  have hne' : olds ≠ [] := by
    rintro rfl
    exact hne (List.length_eq_zero_iff.mp holds.symm)
  have hspec := JobPacket.withSlices_spec h .f32 (inputs ++ outputs)
    (pointwiseLoop inputs.length f)
  rw [hreq] at hspec
  simp only [pointwiseLoop_eq inputs.length f vals hne' holdlen] at hspec
  cases hpoint : pointwise f (columns inputs.length vals) (List.range vals.length) with
  | none =>
      simp only [hpoint, Option.bind_none] at hspec
      rw [runPointwise, hspec] at hrun
      simp at hrun
  | some writes =>
      obtain ⟨ws, hall, -⟩ := (pointwise_columns hlen).mp hpoint
      intro v hv
      obtain ⟨i, hi, rfl⟩ := List.getElem_of_mem hv
      have hi' : i < ws.length := hall.length_eq ▸ hi
      exact ⟨ws[i], (List.forall₂_iff_get.mp hall).2 i hi hi'⟩

end RunPointwise

end Braids
