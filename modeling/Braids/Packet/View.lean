import Braids.Packet.Packet

/-!
# A Packet as a Map from Slots to Buffers

`JobPacket` stores its buffers in a vector and finds them through an index by slot.
`JobPacket.Wf` says that the index is exact and that a packet nobody wrote to is empty.
Every operation keeps it, never panics on it, and does to `JobPacket.view` what it would do
to a plain map from slots to buffers.

## Main results

* `ensure_spec`, `sliceMut_spec`, `withSlices_spec`: what the operations do to the map.
* `slice_eq`: reading depends on the map only.
* `validatePacket_iff`: so does the validation of a packet.
* `clearForReuse_view`, `loadStaticBuffer_spec`: what a job finds in a recycled packet.
-/

namespace Braids

/-! ### Lists -/

@[simp] theorem length_resize (kind : ElementKind) (len : ℕ) (values : List kind.Elem) :
    (resize kind len values).length = len := by
  simp only [resize, List.length_append, List.length_take, List.length_replicate]
  omega

/-- An empty vector is filled with default values. -/
theorem resize_nil (kind : ElementKind) (len : ℕ) :
    resize kind len [] = List.replicate len kind.default := by
  simp [resize]

@[simp] theorem length_overwrite {α : Type} (old new : List α) :
    (overwrite old new).length = old.length := by
  simp only [overwrite, List.length_append, List.length_take, List.length_drop]
  omega

/-- Overwriting every element. -/
theorem overwrite_of_length {α : Type} {old new : List α} (h : new.length = old.length) :
    overwrite old new = new := by
  simp [overwrite, ← h]

namespace JobPacket

variable {p : JobPacket}

/-! ### The index -/

/-- The index after one slot was recorded. -/
theorem slotIndex_recordSlotIndex (p : JobPacket) (slot slot' : BufferSlot) (index : ℕ) :
    (p.recordSlotIndex slot index).slotIndex slot' =
      if slot' = slot then some index else p.slotIndex slot' := by
  by_cases hs : slot' = slot
  · subst hs
    simp only [slotIndex, recordSlotIndex, if_true]
    rw [List.getElem?_set_self]
    · rfl
    · split
      · simp only [List.length_append, List.length_replicate]
        omega
      · omega
  · have hne : slot.index ≠ slot'.index := fun h => hs (BufferSlot.index_inj h).symm
    simp only [slotIndex, recordSlotIndex, if_neg hs]
    rw [List.getElem?_set_ne hne]
    split
    · rw [List.getElem?_append]
      split
      · rfl
      · next hlt =>
          rw [List.getElem?_eq_none (Nat.not_lt.mp hlt), List.getElem?_replicate]
          split <;> rfl
    · rfl

/-- The index is exact, and a packet that nobody wrote to is empty. -/
structure Wf (p : JobPacket) : Prop where
  index : ∀ slot i, p.slotIndex slot = some i ↔ (p.buffers[i]?).map (·.slot) = some slot
  clean : p.isDirty = false → ∀ b ∈ p.buffers, b.data.len = 0

/-- The map from slots to buffers that a packet stands for. -/
def view (p : JobPacket) (slot : BufferSlot) : Option BufferData :=
  (p.slotIndex slot).bind fun i => (p.buffers[i]?).map (·.data)

/-- What a slot holds, if it is of that kind. -/
def contents (p : JobPacket) (kind : ElementKind) (slot : BufferSlot) : List kind.Elem :=
  ((p.view slot).bind (BufferData.get kind)).getD []

/-- A fresh packet. -/
theorem wf_default : Wf {} := by
  refine ⟨fun slot i => ?_, fun _ => by simp⟩
  simp [slotIndex]

@[simp] theorem view_default (slot : BufferSlot) : view {} slot = none := rfl

namespace Wf

/-- An indexed slot has its buffer at that position. -/
theorem buffer (h : p.Wf) {slot : BufferSlot} {i : ℕ} (hi : p.slotIndex slot = some i) :
    ∃ data, p.buffers[i]? = some ⟨slot, data⟩ := by
  obtain ⟨b, hb, rfl⟩ := Option.map_eq_some_iff.mp ((h.index slot i).mp hi)
  exact ⟨b.data, hb⟩

/-- A buffer that is there is found through the index. -/
theorem view_of_buffer (h : p.Wf) {i : ℕ} {b : PacketBuffer} (hb : p.buffers[i]? = some b) :
    p.view b.slot = some b.data := by
  have hi : p.slotIndex b.slot = some i := (h.index b.slot i).mpr (by simp [hb])
  simp [view, hi, hb]

/-- The map lists the buffers. -/
theorem view_eq_some (h : p.Wf) {slot : BufferSlot} {data : BufferData} :
    p.view slot = some data ↔ PacketBuffer.mk slot data ∈ p.buffers := by
  constructor
  · intro hv
    obtain ⟨i, hi, hdata⟩ := Option.bind_eq_some_iff.mp hv
    obtain ⟨data', hb⟩ := h.buffer hi
    obtain rfl : data' = data := by simpa [hb] using hdata
    exact List.mem_of_getElem? hb
  · intro hmem
    obtain ⟨i, hb⟩ := List.getElem?_of_mem hmem
    exact h.view_of_buffer hb

/-- A slot has no buffer exactly when it has no index. -/
theorem view_eq_none (h : p.Wf) {slot : BufferSlot} :
    p.view slot = none ↔ p.slotIndex slot = none := by
  cases hi : p.slotIndex slot with
  | none => simp [view, hi]
  | some i =>
      obtain ⟨data, hb⟩ := h.buffer hi
      simp [view, hi, hb]

/-- The data of an indexed slot. -/
theorem view_eq (h : p.Wf) {slot : BufferSlot} {i : ℕ} {data : BufferData}
    (hi : p.slotIndex slot = some i) (hv : p.view slot = some data) :
    p.buffers[i]? = some ⟨slot, data⟩ := by
  obtain ⟨data', hb⟩ := h.buffer hi
  obtain rfl : data' = data := by simpa [view, hi, hb] using hv
  exact hb

/-- Two slots with the same index are the same. -/
theorem slot_inj (h : p.Wf) {slot slot' : BufferSlot} {i : ℕ}
    (hi : p.slotIndex slot = some i) (hi' : p.slotIndex slot' = some i) : slot = slot' := by
  have h₁ := (h.index slot i).mp hi
  have h₂ := (h.index slot' i).mp hi'
  exact Option.some.inj (h₁.symm.trans h₂)

end Wf

/-! ### Writing one buffer -/

@[simp] theorem slotIndex_setData (p : JobPacket) (i : ℕ) (data : BufferData)
    (slot : BufferSlot) : (p.setData i data).slotIndex slot = p.slotIndex slot := rfl

@[simp] theorem queryCount_setData (p : JobPacket) (i : ℕ) (data : BufferData) :
    (p.setData i data).queryCount = p.queryCount := rfl

@[simp] theorem isDirty_setData (p : JobPacket) (i : ℕ) (data : BufferData) :
    (p.setData i data).isDirty = p.isDirty := rfl

/-- The buffers after one was written. -/
theorem buffers_setData (p : JobPacket) (i j : ℕ) (data : BufferData) :
    (p.setData i data).buffers[j]? =
      (p.buffers[j]?).map fun b => if i = j then { b with data } else b := by
  simp only [setData, List.getElem?_modify]
  by_cases hij : i = j <;> simp [hij]

/-- Writing a buffer writes its slot. -/
theorem Wf.view_setData (h : p.Wf) {slot : BufferSlot} {i : ℕ}
    (hi : p.slotIndex slot = some i) (data : BufferData) :
    (p.setData i data).view = Function.update p.view slot (some data) := by
  obtain ⟨old, hb⟩ := h.buffer hi
  funext slot'
  by_cases hs : slot' = slot
  · subst hs
    simp [view, hi, buffers_setData, hb]
  · rw [Function.update_of_ne hs]
    simp only [view, slotIndex_setData]
    cases hi' : p.slotIndex slot' with
    | none => rfl
    | some j =>
        have hne : i ≠ j := by
          rintro rfl
          exact hs (h.slot_inj hi' hi)
        simp [buffers_setData, hne, Function.comp_def]

/-- Writing a buffer keeps the index exact. -/
theorem Wf.index_setData (h : p.Wf) (i : ℕ) (data : BufferData) (slot : BufferSlot) (j : ℕ) :
    (p.setData i data).slotIndex slot = some j ↔
      ((p.setData i data).buffers[j]?).map (·.slot) = some slot := by
  have hslot : ((p.setData i data).buffers[j]?).map (·.slot) =
      (p.buffers[j]?).map (·.slot) := by
    rw [buffers_setData, Option.map_map]
    congr 1
    funext b
    simp only [Function.comp_apply]
    split <;> rfl
  rw [hslot]
  exact h.index slot j

/-- Writing to a packet that is then marked dirty. -/
theorem Wf.setData (h : p.Wf) (i : ℕ) (data : BufferData) :
    Wf { p.setData i data with isDirty := true } :=
  ⟨h.index_setData i data, fun hclean => by simp at hclean⟩

/-- Writing an empty buffer. -/
theorem Wf.setData_empty (h : p.Wf) (i : ℕ) {data : BufferData}
    (hdata : p.isDirty = false → data.len = 0) : (p.setData i data).Wf := by
  refine ⟨h.index_setData i data, fun hclean b hb => ?_⟩
  obtain ⟨j, hj⟩ := List.getElem?_of_mem hb
  rw [buffers_setData] at hj
  obtain ⟨b', hb', rfl⟩ := Option.map_eq_some_iff.mp hj
  split
  · exact hdata hclean
  · exact h.clean hclean b' (List.mem_of_getElem? hb')

/-! ### `ensure` -/

/-- `ensure_slot` makes the slot an empty buffer of the kind, or finds it there. -/
theorem ensureSlot_spec (h : p.Wf) (slot : BufferSlot) (kind : ElementKind) :
    ∃ i p', p.ensureSlot slot kind = .ok (i, p') ∧ p'.Wf ∧ p'.slotIndex slot = some i ∧
      p'.queryCount = p.queryCount ∧
      p'.view = Function.update p.view slot (some (.ofList kind (p.contents kind slot))) := by
  cases hi : p.slotIndex slot with
  | some i =>
      obtain ⟨data, hb⟩ := h.buffer hi
      have hv : p.view slot = some data := h.view_of_buffer hb
      simp only [ensureSlot, hi, hb]
      by_cases hk : data.kind = kind
      · obtain ⟨values, hget⟩ := BufferData.exists_get hk
        refine ⟨i, p, by simp [hk], h, hi, rfl, ?_⟩
        have hcontents : p.contents kind slot = values := by simp [contents, hv, hget]
        rw [hcontents, ← BufferData.eq_ofList_of_get hget, ← hv, Function.update_eq_self]
      · refine ⟨i, p.setData i (.empty kind), by simp [hk], h.setData_empty i (by simp), hi, rfl,
          ?_⟩
        have hcontents : p.contents kind slot = [] := by
          simp [contents, hv, BufferData.get_eq_none hk]
        rw [hcontents]
        exact h.view_setData hi _
  | none =>
      have hv : p.view slot = none := h.view_eq_none.mpr hi
      have hcontents : p.contents kind slot = [] := by simp [contents, hv]
      simp only [ensureSlot, hi, hcontents]
      refine ⟨_, _, rfl, ⟨fun slot' j => ?_, fun hclean b hb => ?_⟩, ?_, rfl, ?_⟩
      · rw [slotIndex_recordSlotIndex]
        simp only [recordSlotIndex, List.length_append, List.length_singleton,
          Nat.add_sub_cancel, List.getElem?_append]
        by_cases hs : slot' = slot
        · subst hs
          rw [if_pos rfl, Option.some.injEq]
          constructor
          · rintro rfl
            simp
          · intro hj
            split at hj
            · have hold := (h.index slot' j).mpr hj
              simp [hi] at hold
            · next hlt =>
                obtain ⟨b, hb, -⟩ := Option.map_eq_some_iff.mp hj
                have hlast := (List.getElem?_eq_some_iff.mp hb).1
                rw [List.length_singleton] at hlast
                omega
        · rw [if_neg hs]
          change p.slotIndex slot' = some j ↔ _
          rw [h.index slot' j]
          split
          · rfl
          · next hlt =>
              rw [List.getElem?_eq_none (Nat.not_lt.mp hlt)]
              constructor
              · simp
              · intro hj
                obtain ⟨b, hb, hslot⟩ := Option.map_eq_some_iff.mp hj
                obtain rfl := List.mem_singleton.mp (List.mem_of_getElem? hb)
                exact absurd hslot.symm hs
      · rcases List.mem_append.mp hb with hb | hb
        · exact h.clean hclean b hb
        · obtain rfl := List.mem_singleton.mp hb
          simp
      · rw [slotIndex_recordSlotIndex, if_pos rfl]
      · funext slot'
        simp only [view]
        rw [slotIndex_recordSlotIndex]
        by_cases hs : slot' = slot
        · subst hs
          simp [recordSlotIndex, BufferData.empty]
        · rw [if_neg hs, Function.update_of_ne hs]
          change ((p.slotIndex slot').bind fun i => _) = _
          cases hi' : p.slotIndex slot' with
          | none => simp [view, hi']
          | some j =>
              obtain ⟨data, hb⟩ := h.buffer hi'
              have hlt := (List.getElem?_eq_some_iff.mp hb).1
              simp [recordSlotIndex, List.getElem?_append_left hlt, view, hi']

/-- **`ensure`**: the slot holds its old values of the kind, resized and then edited; all
other slots are as before. -/
theorem ensure_spec (h : p.Wf) (kind : ElementKind) (slot : BufferSlot) (len : ℕ)
    (edit : List kind.Elem → Option (List kind.Elem)) {edited : List kind.Elem}
    (hedit : edit (resize kind len (p.contents kind slot)) = some edited) :
    ∃ p', (ensure kind slot len edit).run p =
        some (.ok (resize kind len (p.contents kind slot)), p') ∧ p'.Wf ∧
      p'.queryCount = p.queryCount ∧
      p'.view = Function.update p.view slot (some (.ofList kind edited)) := by
  obtain ⟨i, p₁, hslot, hwf, hi, hcount, hview⟩ := ensureSlot_spec h slot kind
  have hv : p₁.view slot = some (.ofList kind (p.contents kind slot)) := by simp [hview]
  have htyped : p₁.typed kind i = .ok (p.contents kind slot) := by
    simp [typed, hwf.view_eq hi hv]
  refine ⟨{ p₁.setData i (.ofList kind edited) with isDirty := true },
    by simp [ensure, hslot, htyped, hedit], hwf.setData i _, hcount, ?_⟩
  change (p₁.setData i _).view = _
  rw [hwf.view_setData hi, hview, Function.update_idem]

/-- `ensure` panics only if the caller does. -/
theorem ensure_panics (h : p.Wf) (kind : ElementKind) (slot : BufferSlot) (len : ℕ)
    {edit : List kind.Elem → Option (List kind.Elem)}
    (hedit : edit (resize kind len (p.contents kind slot)) = none) :
    (ensure kind slot len edit).run p = none := by
  obtain ⟨i, p₁, hslot, hwf, hi, hcount, hview⟩ := ensureSlot_spec h slot kind
  have hv : p₁.view slot = some (.ofList kind (p.contents kind slot)) := by simp [hview]
  have htyped : p₁.typed kind i = .ok (p.contents kind slot) := by
    simp [typed, hwf.view_eq hi hv]
  simp [ensure, hslot, htyped, hedit]

/-! ### Slices -/

/-- What `slice` answers, from the buffer of the slot. -/
def readView (kind : ElementKind) (slot : BufferSlot) : Option BufferData →
    HookResult (List kind.Elem)
  | none => .err (.missingBuffer slot)
  | some data =>
      match BufferData.get kind data with
      | some values => .ok values
      | none => .err (.invalidBufferType slot kind)

/-- A slot that can be read holds a buffer of the kind. -/
theorem readView_eq_ok {kind : ElementKind} {slot : BufferSlot} {buffer : Option BufferData}
    {values : List kind.Elem} (h : readView kind slot buffer = .ok values) :
    ∃ data, buffer = some data ∧ BufferData.get kind data = some values := by
  cases buffer with
  | none => simp [readView] at h
  | some data =>
      rw [readView] at h
      split at h
      · next hget =>
          obtain rfl := HookResult.ok.inj h
          exact ⟨data, rfl, hget⟩
      · simp at h

/-- **Reading a slot depends on the map only.** -/
theorem slice_eq (h : p.Wf) (kind : ElementKind) (slot : BufferSlot) :
    p.slice kind slot = readView kind slot (p.view slot) := by
  cases hi : p.slotIndex slot with
  | none => simp [slice, hi, h.view_eq_none.mpr hi, readView]
  | some i =>
      obtain ⟨data, hb⟩ := h.buffer hi
      cases hget : BufferData.get kind data with
      | none => simp [slice, hi, hb, h.view_of_buffer hb, readView, hget]
      | some values => simp [slice, hi, hb, h.view_of_buffer hb, readView, hget]

/-- Reading a slot of the right kind. -/
theorem slice_of_view (h : p.Wf) {kind : ElementKind} {slot : BufferSlot}
    {values : List kind.Elem} (hv : p.view slot = some (.ofList kind values)) :
    p.slice kind slot = .ok values := by
  rw [slice_eq h, hv]
  simp [readView]

/-- **`slice_mut`** answers as `slice` does, and writes the slot. -/
theorem sliceMut_spec (h : p.Wf) (kind : ElementKind) (slot : BufferSlot)
    (edit : List kind.Elem → List kind.Elem) :
    match readView kind slot (p.view slot) with
    | .ok values => ∃ p', (sliceMut kind slot edit).run p = some (.ok values, p') ∧ p'.Wf ∧
        p'.queryCount = p.queryCount ∧
        p'.view = Function.update p.view slot
          (some (.ofList kind (overwrite values (edit values))))
    | .err e => (sliceMut kind slot edit).run p = some (.error e, p)
    | .panicked => False := by
  cases hi : p.slotIndex slot with
  | none => simp [h.view_eq_none.mpr hi, readView, sliceMut, hi]
  | some i =>
      obtain ⟨data, hb⟩ := h.buffer hi
      simp only [h.view_of_buffer hb, readView]
      cases hget : BufferData.get kind data with
      | none => simp [sliceMut, hi, hb, hget]
      | some values =>
          refine ⟨{ p.setData i (.ofList kind (overwrite values (edit values))) with
            isDirty := true }, by simp [sliceMut, hi, hb, hget], h.setData i _, rfl, ?_⟩
          exact h.view_setData hi _

/-! ### `with_slices` -/

/-- What `with_slices` hands out, from the map: `seen` are the slots before. -/
def requestViews (view : BufferSlot → Option BufferData) (kind : ElementKind)
    (seen : List BufferSlot) : List BufferSlot → HookResult (List (List kind.Elem))
  | [] => .ok []
  | slot :: slots =>
      match view slot with
      | none => .err (.missingBuffer slot)
      | some data =>
          if slot ∈ seen then .err (.message "duplicate typed buffer slot request")
          else
            match BufferData.get kind data with
            | none => .err (.invalidBufferType slot kind)
            | some values => do
                let rest ← requestViews view kind (seen ++ [slot]) slots
                return values :: rest

/-- What `with_slices` does to the map. -/
def overwriteViews (kind : ElementKind) (view : BufferSlot → Option BufferData) :
    List BufferSlot → List (List kind.Elem) → List (List kind.Elem) →
      BufferSlot → Option BufferData
  | slot :: slots, old :: olds, new :: news =>
      overwriteViews kind
        (Function.update view slot (some (.ofList kind (overwrite old new)))) slots olds news
  | _, _, _ => view

/-- The indices that `with_slices` collects are those of the slots that the map has. -/
theorem requestIndices_spec (h : p.Wf) (kind : ElementKind) {seen : List BufferSlot}
    {indices : List ℕ} (hseen : indices.map some = seen.map p.slotIndex)
    (slots : List BufferSlot) :
    match requestViews p.view kind seen slots with
    | .ok values => ∃ more, p.requestIndices kind indices slots = .ok (indices ++ more) ∧
        more.map some = slots.map p.slotIndex ∧ p.views kind more = .ok values
    | .err e => p.requestIndices kind indices slots = .err e
    | .panicked => False := by
  induction slots generalizing seen indices with
  | nil => exact ⟨[], by simp [requestIndices], rfl, rfl⟩
  | cons slot slots ih =>
      rw [requestViews]
      cases hi : p.slotIndex slot with
      | none => simp [h.view_eq_none.mpr hi, requestIndices, hi]
      | some i =>
          obtain ⟨data, hb⟩ := h.buffer hi
          have hmem : slot ∈ seen ↔ i ∈ indices := by
            constructor
            · intro hs
              have hin : p.slotIndex slot ∈ indices.map some := hseen ▸ List.mem_map_of_mem hs
              simpa [hi] using hin
            · intro hs
              have hin : some i ∈ seen.map p.slotIndex := hseen ▸ List.mem_map_of_mem hs
              obtain ⟨slot', hs', hi'⟩ := List.mem_map.mp hin
              exact h.slot_inj hi' hi ▸ hs'
          simp only [h.view_of_buffer hb]
          by_cases hdup : slot ∈ seen
          · simp [if_pos hdup, requestIndices, hi, hmem.mp hdup]
          · rw [if_neg hdup]
            have hnew : i ∉ indices := fun hin => hdup (hmem.mpr hin)
            cases hget : BufferData.get kind data with
            | none =>
                have hk : data.kind ≠ kind := by
                  intro hk
                  simpa [hget] using BufferData.get_isSome.mpr hk
                simp [requestIndices, hi, hnew, hb, hk]
            | some values =>
                have hk : data.kind = kind := BufferData.get_isSome.mp (by simp [hget])
                have hseen' : (indices ++ [i]).map some = (seen ++ [slot]).map p.slotIndex := by
                  simp [hseen, hi]
                have hrest := ih hseen'
                simp only [requestIndices, hi, hnew, hb, hk, if_false, ne_eq, not_true_eq_false]
                cases hreq : requestViews p.view kind (seen ++ [slot]) slots with
                | ok rest =>
                    rw [hreq] at hrest
                    obtain ⟨more, hmore, hmap, hviews⟩ := hrest
                    refine ⟨i :: more, by simp [hmore], by simp [hmap, hi], ?_⟩
                    simp [views, typed, hb, hget, hviews]
                | err e =>
                    rw [hreq] at hrest
                    exact hrest
                | panicked =>
                    rw [hreq] at hrest
                    exact hrest.elim

/-- Views of the buffers of slots, and what is written through them. -/
theorem writeViews_spec (h : p.Wf) (kind : ElementKind) {slots : List BufferSlot}
    {indices : List ℕ} (hidx : indices.map some = slots.map p.slotIndex)
    {olds : List (List kind.Elem)}
    (hclean : p.isDirty = false → ∀ old ∈ olds, old = []) (news : List (List kind.Elem)) :
    (writeViews kind p indices olds news).Wf ∧
      (writeViews kind p indices olds news).queryCount = p.queryCount ∧
      (writeViews kind p indices olds news).view = overwriteViews kind p.view slots olds news := by
  induction slots generalizing p indices olds news with
  | nil =>
      obtain rfl : indices = [] := by simpa using hidx
      simp [writeViews, overwriteViews, h]
  | cons slot slots ih =>
      cases indices with
      | nil => simp at hidx
      | cons i indices =>
          simp only [List.map_cons, List.cons.injEq] at hidx
          obtain ⟨hi, hidx⟩ := hidx
          cases olds with
          | nil => simp [writeViews, overwriteViews, h]
          | cons old olds =>
              cases news with
              | nil => simp [writeViews, overwriteViews, h]
              | cons new news =>
                  have hwf : (p.setData i (.ofList kind (overwrite old new))).Wf := by
                    refine h.setData_empty i fun hd => ?_
                    simp [hclean hd old List.mem_cons_self]
                  have hrest := ih hwf hidx
                    (fun hd o ho => hclean hd o (List.mem_cons_of_mem _ ho)) news
                  rw [h.view_setData hi.symm] at hrest
                  exact hrest

/-- The views of a packet that nobody wrote to are empty. -/
theorem Wf.views_clean (h : p.Wf) (hclean : p.isDirty = false) {kind : ElementKind}
    {indices : List ℕ} {values : List (List kind.Elem)} (hv : p.views kind indices = .ok values) :
    ∀ old ∈ values, old = [] := by
  induction indices generalizing values with
  | nil =>
      obtain rfl : [] = values := by simpa [views] using hv
      simp
  | cons i indices ih =>
      rw [views, HookResult.bind_eq_ok] at hv
      obtain ⟨old, hold, hv⟩ := hv
      rw [HookResult.bind_eq_ok] at hv
      obtain ⟨rest, hrest, hv⟩ := hv
      obtain rfl : old :: rest = values := by simpa using hv
      intro o ho
      rcases List.mem_cons.mp ho with rfl | ho
      · rw [typed] at hold
        split at hold
        · simp at hold
        · next b hb =>
            split at hold
            · next values hget =>
                obtain rfl : values = o := by simpa using hold
                have hlen := h.clean hclean b (List.mem_of_getElem? hb)
                rw [BufferData.eq_ofList_of_get hget, BufferData.len_ofList] at hlen
                exact List.length_eq_zero_iff.mp hlen
            · simp at hold
      · exact ih hrest o ho

/-- **`with_slices`** hands out the requested slots if they exist, are distinct and of the
kind, and writes exactly them; otherwise it changes nothing. -/
theorem withSlices_spec {α : Type} (h : p.Wf) (kind : ElementKind) (slots : List BufferSlot)
    (f : List (List kind.Elem) → Option (BraidResult α × List (List kind.Elem))) :
    match requestViews p.view kind [] slots with
    | .ok old =>
        match f old with
        | none => (withSlices kind slots f).run p = none
        | some (r, new) => ∃ p', (withSlices kind slots f).run p = some (r, p') ∧ p'.Wf ∧
            p'.queryCount = p.queryCount ∧
            p'.view = overwriteViews kind p.view slots old new
    | .err e => (withSlices kind slots f).run p = some (.error e, p)
    | .panicked => False := by
  have hnil : ([] : List ℕ).map some = ([] : List BufferSlot).map p.slotIndex := rfl
  have hspec := requestIndices_spec h kind hnil slots
  cases hreq : requestViews p.view kind [] slots with
  | err e =>
      rw [hreq] at hspec
      simp [withSlices, hspec]
  | panicked =>
      rw [hreq] at hspec
      exact hspec
  | ok old =>
      rw [hreq] at hspec
      obtain ⟨indices, hidx, hmap, hviews⟩ := hspec
      rw [List.nil_append] at hidx
      simp only [withSlices, hidx, hviews]
      cases hf : f old with
      | none => simp
      | some r =>
          exact ⟨_, by simp only [Option.map_some], writeViews_spec h kind hmap
            (fun hd => h.views_clean hd hviews) r.2⟩

/-- **When `with_slices` hands out its slots**: they are distinct, and each has a buffer of
the kind. -/
theorem requestViews_eq_ok {view : BufferSlot → Option BufferData} {kind : ElementKind}
    {seen slots : List BufferSlot} {values : List (List kind.Elem)} :
    requestViews view kind seen slots = .ok values ↔
      slots.Nodup ∧ (∀ slot ∈ slots, slot ∉ seen) ∧
        List.Forall₂ (fun slot value => view slot = some (.ofList kind value)) slots values := by
  induction slots generalizing seen values with
  | nil => simp [requestViews, eq_comm]
  | cons slot slots ih =>
      rw [requestViews, List.nodup_cons, List.forall_mem_cons]
      constructor
      · intro h
        split at h
        · simp at h
        · next data hv =>
            split at h
            · simp at h
            · next hseen =>
                split at h
                · simp at h
                · next value hget =>
                    obtain ⟨rest, hrest, heq⟩ := HookResult.bind_eq_ok.mp h
                    obtain rfl : value :: rest = values := by simpa using heq
                    obtain ⟨hnd, hnew, hall⟩ := ih.mp hrest
                    have hslot : slot ∉ slots := fun hs => hnew slot hs (by simp)
                    refine ⟨⟨hslot, hnd⟩, ⟨hseen, fun s hs => ?_⟩, .cons ?_ hall⟩
                    · exact fun hin => hnew s hs (List.mem_append_left _ hin)
                    · rw [hv, BufferData.eq_ofList_of_get hget]
      · rintro ⟨⟨hslot, hnd⟩, ⟨hseen, hnew⟩, hall⟩
        cases hall with
        | @cons _ value _ rest hv hall =>
            have hrest : requestViews view kind (seen ++ [slot]) slots = .ok rest := by
              refine ih.mpr ⟨hnd, fun s hs hin => ?_, hall⟩
              rcases List.mem_append.mp hin with hin | hin
              · exact hnew s hs hin
              · exact hslot (List.mem_singleton.mp hin ▸ hs)
            simp [hv, hseen, hrest]

/-- Only the slots that are asked for matter. -/
theorem requestViews_congr {view view' : BufferSlot → Option BufferData} {kind : ElementKind}
    {seen slots : List BufferSlot} (h : ∀ slot ∈ slots, view slot = view' slot) :
    requestViews view kind seen slots = requestViews view' kind seen slots := by
  induction slots generalizing seen with
  | nil => rfl
  | cons slot slots ih =>
      rw [List.forall_mem_cons] at h
      simp only [requestViews, h.1, ih h.2]

/-- A slot that holds the same before holds the same afterwards. -/
theorem overwriteViews_congr {kind : ElementKind} {view view' : BufferSlot → Option BufferData}
    {slots : List BufferSlot} {olds news : List (List kind.Elem)} {slot : BufferSlot}
    (h : view slot = view' slot) :
    overwriteViews kind view slots olds news slot =
      overwriteViews kind view' slots olds news slot := by
  induction slots generalizing view view' olds news with
  | nil => simpa [overwriteViews] using h
  | cons s slots ih =>
      cases olds with
      | nil => simpa [overwriteViews] using h
      | cons old olds =>
          cases news with
          | nil => simpa [overwriteViews] using h
          | cons new news =>
              refine ih ?_
              by_cases hs : slot = s
              · rw [hs, Function.update_self, Function.update_self]
              · rw [Function.update_of_ne hs, Function.update_of_ne hs, h]

/-- Slots that are not handed out are as before. -/
theorem overwriteViews_of_notMem {kind : ElementKind} {view : BufferSlot → Option BufferData}
    {slots : List BufferSlot} {olds news : List (List kind.Elem)} {slot : BufferSlot}
    (h : slot ∉ slots) : overwriteViews kind view slots olds news slot = view slot := by
  induction slots generalizing view olds news with
  | nil => simp [overwriteViews]
  | cons s slots ih =>
      rw [List.mem_cons, not_or] at h
      cases olds with
      | nil => simp [overwriteViews]
      | cons old olds =>
          cases news with
          | nil => simp [overwriteViews]
          | cons new news => rw [overwriteViews, ih h.2, Function.update_of_ne h.1]

/-- A slot that is handed out holds what was written to it. -/
theorem overwriteViews_of_getElem? (kind : ElementKind)
    {view : BufferSlot → Option BufferData} {slots : List BufferSlot} (hnd : slots.Nodup)
    {olds news : List (List kind.Elem)} {j : ℕ} {slot : BufferSlot} {old new : List kind.Elem}
    (hslot : slots[j]? = some slot) (hold : olds[j]? = some old) (hnew : news[j]? = some new) :
    overwriteViews kind view slots olds news slot = some (.ofList kind (overwrite old new)) := by
  induction slots generalizing view olds news j with
  | nil => simp at hslot
  | cons s slots ih =>
      rw [List.nodup_cons] at hnd
      cases olds with
      | nil => simp at hold
      | cons o olds =>
          cases news with
          | nil => simp at hnew
          | cons n news =>
              rw [overwriteViews]
              cases j with
              | zero =>
                  obtain rfl : s = slot := by simpa using hslot
                  obtain rfl : o = old := by simpa using hold
                  obtain rfl : n = new := by simpa using hnew
                  rw [overwriteViews_of_notMem hnd.1, Function.update_self]
              | succ j =>
                  exact ih hnd.2 (by simpa using hslot) (by simpa using hold)
                    (by simpa using hnew)

/-- A slot whose view nothing was written through is as before. -/
theorem overwriteViews_of_getElem?_none {kind : ElementKind}
    {view : BufferSlot → Option BufferData} {slots : List BufferSlot} (hnd : slots.Nodup)
    {olds news : List (List kind.Elem)} {j : ℕ} {slot : BufferSlot}
    (hslot : slots[j]? = some slot) (hnew : news[j]? = none) :
    overwriteViews kind view slots olds news slot = view slot := by
  induction slots generalizing view olds news j with
  | nil => simp at hslot
  | cons s slots ih =>
      rw [List.nodup_cons] at hnd
      cases olds with
      | nil => simp [overwriteViews]
      | cons o olds =>
          cases news with
          | nil => simp [overwriteViews]
          | cons n news =>
              cases j with
              | zero => simp at hnew
              | succ j =>
                  rw [List.getElem?_cons_succ] at hslot hnew
                  have hne : slot ≠ s := fun h => hnd.1 (h ▸ List.mem_of_getElem? hslot)
                  rw [overwriteViews, ih hnd.2 hslot hnew, Function.update_of_ne hne]

/-! ### Recycling -/

/-- Clearing leaves a clean packet with the same slots, all empty. -/
theorem clearForReuse_spec (h : p.Wf) :
    p.clearForReuse.Wf ∧ p.clearForReuse.queryCount = 0 ∧
      ∀ slot, p.clearForReuse.view slot = (p.view slot).map BufferData.clear := by
  cases hd : p.isDirty with
  | false =>
      have heq : p.clearForReuse = { p with queryCount := 0 } := by simp [clearForReuse, hd]
      rw [heq]
      refine ⟨⟨h.index, h.clean⟩, rfl, fun slot => ?_⟩
      change p.view slot = _
      cases hv : p.view slot with
      | none => rfl
      | some data =>
          have hlen := h.clean hd _ (h.view_eq_some.mp hv)
          rw [Option.map_some, BufferData.clear_of_len hlen]
  | true =>
      have heq : p.clearForReuse = { p with
          queryCount := 0
          buffers := p.buffers.map fun buffer => { buffer with data := buffer.data.clear }
          isDirty := false } := by simp [clearForReuse, hd]
      rw [heq]
      refine ⟨⟨fun slot i => ?_, fun _ b hb => ?_⟩, rfl, fun slot => ?_⟩
      · change p.slotIndex slot = some i ↔ _
        rw [h.index slot i, List.getElem?_map, Option.map_map]
        rfl
      · obtain ⟨b', -, rfl⟩ := List.mem_map.mp hb
        simp
      · simp only [view, slotIndex, List.getElem?_map, Option.map_map]
        cases (p.slotIndices[slot.index]?).join with
        | none => rfl
        | some i =>
            simp only [Option.bind_some, Option.map_map]
            rfl

/-- **`load_static_buffer`** never panics and makes the slot hold the data. -/
theorem loadStaticBuffer_spec (h : p.Wf) (slot : BufferSlot) (data : BufferData) :
    ∃ p', (loadStaticBuffer slot data).run p = some (.ok (), p') ∧ p'.Wf ∧
      p'.queryCount = p.queryCount ∧ p'.view = Function.update p.view slot (some data) := by
  cases data with
  | u32 values =>
      obtain ⟨p', hrun, hrest⟩ := ensure_spec h .u32 slot values.length
        (copyFromSlice values) (if_pos (length_resize _ _ _))
      exact ⟨p', by simp [loadStaticBuffer, hrun], hrest⟩
  | u64 values =>
      obtain ⟨p', hrun, hrest⟩ := ensure_spec h .u64 slot values.length
        (copyFromSlice values) (if_pos (length_resize _ _ _))
      exact ⟨p', by simp [loadStaticBuffer, hrun], hrest⟩
  | f32 values =>
      obtain ⟨p', hrun, hrest⟩ := ensure_spec h .f32 slot values.length
        (copyFromSlice values) (if_pos (length_resize _ _ _))
      exact ⟨p', by simp [loadStaticBuffer, hrun], hrest⟩

/-- The loop over the static buffers of a plan. -/
def loadStaticBuffers : List StaticBuffer → PacketM Unit
  | [] => pure ()
  | buffer :: rest => do
      loadStaticBuffer buffer.slot buffer.data
      loadStaticBuffers rest

/-- Loading static buffers of distinct slots. -/
theorem loadStaticBuffers_spec (h : p.Wf) {statics : List StaticBuffer}
    (hnd : (statics.map (·.slot)).Nodup) :
    ∃ p', (loadStaticBuffers statics).run p = some (.ok (), p') ∧ p'.Wf ∧
      p'.queryCount = p.queryCount ∧ (∀ b ∈ statics, p'.view b.slot = some b.data) ∧
      ∀ slot ∉ statics.map (·.slot), p'.view slot = p.view slot := by
  induction statics generalizing p with
  | nil => exact ⟨p, rfl, h, rfl, by simp, by simp⟩
  | cons buffer rest ih =>
      rw [List.map_cons, List.nodup_cons] at hnd
      obtain ⟨hnew, hnd⟩ := hnd
      obtain ⟨p₁, hrun₁, hwf₁, hcount₁, hview₁⟩ := loadStaticBuffer_spec h buffer.slot buffer.data
      obtain ⟨p', hrun, hwf, hcount, hstatic, hother⟩ := ih hwf₁ hnd
      refine ⟨p', by simp [loadStaticBuffers, hrun₁, hrun], hwf, hcount.trans hcount₁, ?_, ?_⟩
      · intro b hb
        rcases List.mem_cons.mp hb with rfl | hb
        · rw [hother _ hnew, hview₁, Function.update_self]
        · exact hstatic b hb
      · intro slot hslot
        rw [List.map_cons, List.mem_cons, not_or] at hslot
        rw [hother slot hslot.2, hview₁, Function.update_of_ne hslot.1]

/-- **The validation of a packet depends on the map only.** -/
theorem validatePacket_iff {M : Type} {plan : CompiledPlan M} (h : p.Wf) :
    plan.validatePacket p = .ok () ↔ ∀ slot data, p.view slot = some data →
      validateDescriptor plan.pipeline.buffers p.queryCount (slot, data.kind, data.len) =
        .ok () := by
  rw [CompiledPlan.validatePacket, forM_ok_iff, bufferDescriptors]
  constructor
  · intro hall slot data hv
    exact hall _ (List.mem_map_of_mem (f := fun b => (b.slot, b.data.kind, b.data.len))
      (h.view_eq_some.mp hv))
  · intro hall a ha
    obtain ⟨b, hb, rfl⟩ := List.mem_map.mp ha
    exact hall b.slot b.data (h.view_eq_some.mpr hb)

end JobPacket

end Braids
