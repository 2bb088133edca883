import Braids.Core
import Mathlib.Algebra.Group.Nat.Defs
import Mathlib.Data.List.Nodup

/-!
# Slot Tables

The container behind the state of a planner (`slot_table.rs`): values in slots that are
reused, under keys that carry the generation of their slot.

`SlotTable.Wf` says that the free list has exactly the vacant slots and that `len` counts
the others. Every operation keeps it, and none panics on a table that has it.
-/

namespace Braids

/-- Opaque stable handle into a slot table. -/
structure SlotKey where
  index : UInt32
  generation : UInt32
  deriving DecidableEq, Repr

/-- A slot, with a value unless it is vacant. -/
structure Slot (T : Type) where
  generation : UInt32
  value : Option T
  deriving DecidableEq, Repr

/-- Stable-slot container that reuses holes and invalidates stale keys by generation. The
end of `free` is the top of the stack. -/
structure SlotTable (T : Type) where
  slots : List (Slot T) := []
  free : List ℕ := []
  len : ℕ := 0
  deriving DecidableEq, Repr

namespace SlotTable

variable {T : Type}

/-- `insert`. -/
def insert (t : SlotTable T) (value : T) : HookResult (SlotKey × SlotTable T) :=
  match t.free.getLast? with
  | some index =>
      match t.slots[index]? with
      | none => .panicked
      | some slot =>
          .ok (⟨.ofNat index, slot.generation⟩,
            { slots := t.slots.set index { slot with value := some value }
              free := t.free.dropLast
              len := t.len + 1 })
  | none =>
      .ok (⟨.ofNat t.slots.length, 0⟩,
        { t with slots := t.slots ++ [⟨0, some value⟩], len := t.len + 1 })

/-- The slot that a key names, with its value, unless the key is stale. -/
def live (t : SlotTable T) (key : SlotKey) : Option (Slot T × T) :=
  match t.slots[key.index.toNat]? with
  | none => none
  | some slot =>
      if slot.generation ≠ key.generation then none
      else slot.value.map fun value => (slot, value)

/-- `remove`. It panics if `len` underflows. -/
def remove (t : SlotTable T) (key : SlotKey) : HookResult (Option T × SlotTable T) :=
  match t.live key with
  | none => .ok (none, t)
  | some (slot, value) =>
      if t.len = 0 then .panicked
      else .ok (some value,
        { slots := t.slots.set key.index.toNat ⟨slot.generation + 1, none⟩
          free := t.free ++ [key.index.toNat]
          len := t.len - 1 })

/-- `get_mut`, and the value is then overwritten. -/
def write (t : SlotTable T) (key : SlotKey) (value : T) : Option (SlotTable T) :=
  (t.live key).map fun (slot, _) =>
    { t with slots := t.slots.set key.index.toNat { slot with value := some value } }

/-- What `clear_reuse` makes of a slot. -/
def Slot.vacate (slot : Slot T) : Slot T :=
  if slot.value.isSome then ⟨slot.generation + 1, none⟩ else slot

/-- `clear_reuse`. -/
def clearReuse (t : SlotTable T) : SlotTable T where
  slots := t.slots.map Slot.vacate
  free := List.range t.slots.length
  len := 0

/-- The live values, in the order of `iter`. -/
def values (t : SlotTable T) : List T := t.slots.filterMap (·.value)

/-! ### Well-formed tables -/

/-- The free list has exactly the vacant slots, and `len` counts the others. -/
structure Wf (t : SlotTable T) : Prop where
  nodup : t.free.Nodup
  vacant : ∀ i, i ∈ t.free ↔ ∃ slot, t.slots[i]? = some slot ∧ slot.value = none
  count : t.len = t.slots.countP (·.value.isSome)

/-- An empty table. -/
theorem wf_default : Wf ({} : SlotTable T) := ⟨List.nodup_nil, by simp, rfl⟩

/-- The slot of a key. -/
theorem live_eq_some {t : SlotTable T} {key : SlotKey} {slot : Slot T} {value : T}
    (h : t.live key = some (slot, value)) :
    t.slots[key.index.toNat]? = some slot ∧ slot.value = some value := by
  unfold live at h
  split at h
  · simp at h
  · next slot' hslot =>
      split at h
      · simp at h
      · obtain ⟨value', hvalue, heq⟩ := Option.map_eq_some_iff.mp h
        simp only [Prod.mk.injEq] at heq
        obtain ⟨rfl, rfl⟩ := heq
        exact ⟨hslot, hvalue⟩

/-- Counting after one slot was overwritten. -/
theorem countP_set {p : Slot T → Bool} {slots : List (Slot T)} {i : ℕ} {old : Slot T}
    (h : slots[i]? = some old) (new : Slot T) :
    (slots.set i new).countP p + (if p old then 1 else 0) =
      slots.countP p + if p new then 1 else 0 := by
  induction slots generalizing i with
  | nil => simp at h
  | cons slot slots ih =>
      cases i with
      | zero =>
          obtain rfl : slot = old := by simpa using h
          rw [List.set_cons_zero, List.countP_cons, List.countP_cons]
          omega
      | succ i =>
          have hrest := ih (i := i) (by simpa using h)
          rw [List.set_cons_succ, List.countP_cons, List.countP_cons]
          omega

/-- The slots after one of them was overwritten. -/
theorem getElem?_set_eq {slots : List (Slot T)} {i j : ℕ} {old : Slot T}
    (h : slots[i]? = some old) (new : Slot T) :
    (slots.set i new)[j]? = if i = j then some new else slots[j]? := by
  have hlt := (List.getElem?_eq_some_iff.mp h).1
  by_cases hij : i = j
  · subst hij
    rw [if_pos rfl, List.getElem?_set_self hlt]
  · rw [if_neg hij, List.getElem?_set_ne hij]

/-- `insert` never panics and keeps the table well formed. -/
theorem Wf.insert {t : SlotTable T} (h : t.Wf) (value : T) :
    ∃ key t', t.insert value = .ok (key, t') ∧ t'.Wf := by
  cases hfree : t.free.getLast? with
  | none =>
      have hnil : t.free = [] := List.getLast?_eq_none_iff.mp hfree
      refine ⟨_, _, by simp only [SlotTable.insert, hfree]; rfl, ?_⟩
      refine ⟨h.nodup, fun i => ?_, ?_⟩
      · change i ∈ t.free ↔ _
        rw [h.vacant i]
        simp only [List.getElem?_append]
        split
        · rfl
        · next hlt =>
            rw [List.getElem?_eq_none (Nat.not_lt.mp hlt)]
            constructor
            · rintro ⟨slot, hslot, -⟩
              simp at hslot
            · rintro ⟨slot, hslot, hnone⟩
              obtain rfl := List.mem_singleton.mp (List.mem_of_getElem? hslot)
              simp at hnone
      · simp [h.count]
  | some index =>
      obtain ⟨rest, hrest⟩ := List.getLast?_eq_some_iff.mp hfree
      have hmem : index ∈ t.free := by simp [hrest]
      obtain ⟨slot, hslot, hnone⟩ := (h.vacant index).mp hmem
      have hnd := h.nodup
      rw [hrest, List.nodup_append] at hnd
      obtain ⟨hndr, -, hdisj⟩ := hnd
      refine ⟨_, _, by simp only [SlotTable.insert, hfree, hslot]; rfl, ?_, fun i => ?_, ?_⟩
      · rw [hrest, List.dropLast_concat]
        exact hndr
      · rw [hrest, List.dropLast_concat, getElem?_set_eq hslot]
        have hold := h.vacant i
        rw [hrest, List.mem_append, List.mem_singleton] at hold
        by_cases hi : index = i
        · subst hi
          have hnot : index ∉ rest := fun hin => hdisj index hin index (by simp) rfl
          simp [hnot]
        · rw [if_neg hi, ← hold]
          simp [Ne.symm hi]
      · have hcount := countP_set (p := (·.value.isSome)) hslot { slot with value := some value }
        simp only [hnone, Option.isSome_none, Option.isSome_some, Bool.false_eq_true, if_false,
          if_true, Nat.add_zero] at hcount
        rw [h.count]
        exact hcount.symm

/-- `remove` never panics and keeps the table well formed. -/
theorem Wf.remove {t : SlotTable T} (h : t.Wf) (key : SlotKey) :
    ∃ value t', t.remove key = .ok (value, t') ∧ t'.Wf := by
  cases hlive : t.live key with
  | none => exact ⟨none, t, by simp only [SlotTable.remove, hlive], h⟩
  | some r =>
      obtain ⟨slot, value⟩ := r
      obtain ⟨hslot, hvalue⟩ := live_eq_some hlive
      have hcount := countP_set (p := (·.value.isSome)) hslot ⟨slot.generation + 1, none⟩
      simp only [hvalue, Option.isSome_none, Option.isSome_some, Bool.false_eq_true, if_false,
        if_true, Nat.add_zero] at hcount
      have hpos : t.len ≠ 0 := by
        rw [h.count]
        omega
      have hnew : key.index.toNat ∉ t.free := by
        rw [h.vacant]
        rintro ⟨slot', hslot', hnone⟩
        obtain rfl := Option.some.inj (hslot.symm.trans hslot')
        simp [hvalue] at hnone
      refine ⟨_, _, by simp only [SlotTable.remove, hlive, if_neg hpos]; rfl, ?_, fun i => ?_, ?_⟩
      · rw [List.nodup_append]
        refine ⟨h.nodup, by simp, ?_⟩
        rintro a ha b hb rfl
        obtain rfl := List.mem_singleton.mp hb
        exact hnew ha
      · rw [List.mem_append, List.mem_singleton, h.vacant, getElem?_set_eq hslot]
        by_cases hi : key.index.toNat = i
        · simp [hi]
        · simp [hi, Ne.symm hi]
      · change t.len - 1 = (t.slots.set _ _).countP _
        rw [h.count]
        omega

/-- Overwriting a live value keeps the table well formed. -/
theorem Wf.write {t t' : SlotTable T} (h : t.Wf) {key : SlotKey} {value : T}
    (hw : t.write key value = some t') : t'.Wf := by
  obtain ⟨⟨slot, old⟩, hlive, rfl⟩ := Option.map_eq_some_iff.mp hw
  obtain ⟨hslot, hold⟩ := live_eq_some hlive
  refine ⟨h.nodup, fun i => ?_, ?_⟩
  · rw [h.vacant, getElem?_set_eq hslot]
    by_cases hi : key.index.toNat = i
    · subst hi
      simp [hslot, hold]
    · rw [if_neg hi]
  · have hcount := countP_set (p := (·.value.isSome)) hslot { slot with value := some value }
    simp only [hold, Option.isSome_some, if_true] at hcount
    rw [h.count]
    exact Nat.add_right_cancel hcount.symm

/-- `clear_reuse` leaves no value. -/
theorem Slot.value_vacate (slot : Slot T) : (Slot.vacate slot).value = none := by
  rw [vacate]
  split
  · rfl
  · next hnone => simpa using hnone

/-- Clearing makes any table well formed. -/
theorem wf_clearReuse (t : SlotTable T) : t.clearReuse.Wf := by
  refine ⟨List.nodup_range, fun i => ?_, ?_⟩
  · simp only [clearReuse, List.mem_range, List.getElem?_map]
    constructor
    · intro hlt
      exact ⟨_, by rw [List.getElem?_eq_getElem hlt]; rfl, Slot.value_vacate _⟩
    · rintro ⟨slot, hslot, -⟩
      obtain ⟨old, hold, -⟩ := Option.map_eq_some_iff.mp hslot
      exact (List.getElem?_eq_some_iff.mp hold).1
  · symm
    rw [clearReuse, List.countP_eq_zero]
    intro slot hslot
    obtain ⟨old, -, rfl⟩ := List.mem_map.mp hslot
    simp [Slot.value_vacate]

/-! ### Slots after an operation -/

section Slots

variable {t t' : SlotTable T}

/-- The index in a key, when the slots fit. -/
theorem toNat_index (hfit : t.slots.length ≤ 2 ^ 32) {i : ℕ} {slot : Slot T}
    (h : t.slots[i]? = some slot) : (UInt32.ofNat i).toNat = i :=
  UInt32.toNat_ofNat_of_lt' (Nat.lt_of_lt_of_le (List.getElem?_eq_some_iff.mp h).1 hfit)

/-- The value under a key. -/
theorem live_of_slot (hfit : t.slots.length ≤ 2 ^ 32) {i : ℕ} {g : UInt32} {value : T}
    (h : t.slots[i]? = some ⟨g, some value⟩) :
    t.live ⟨.ofNat i, g⟩ = some (⟨g, some value⟩, value) := by
  simp [live, toNat_index hfit h, h]

/-- What a key stands for is in the slot of its index, under its generation. -/
theorem slot_of_live {key : SlotKey} {slot : Slot T} {value : T}
    (h : t.live key = some (slot, value)) :
    t.slots[key.index.toNat]? = some ⟨key.generation, some value⟩ ∧
      slot = ⟨key.generation, some value⟩ := by
  obtain ⟨hslot, hvalue⟩ := live_eq_some h
  have hgen : slot.generation = key.generation := by
    by_contra hne
    simp [live, hslot, hne] at h
  obtain rfl : slot = ⟨key.generation, some value⟩ := by
    rw [← hgen, ← hvalue]
  exact ⟨hslot, rfl⟩

/-- Overwriting a value writes its slot. -/
theorem write_slots {key : SlotKey} {new : T} (h : t.write key new = some t') :
    (∃ old, t.slots[key.index.toNat]? = some ⟨key.generation, some old⟩) ∧
      t'.slots.length = t.slots.length ∧
      ∀ k, t'.slots[k]? =
        if key.index.toNat = k then some ⟨key.generation, some new⟩ else t.slots[k]? := by
  obtain ⟨⟨slot, old⟩, hlive, rfl⟩ := Option.map_eq_some_iff.mp h
  obtain ⟨hslot, rfl⟩ := slot_of_live hlive
  exact ⟨⟨old, hslot⟩, List.length_set, fun k => getElem?_set_eq hslot _⟩

/-- The index of the slot that the next `insert` takes. -/
def nextIndex (t : SlotTable T) : ℕ := t.free.getLast?.getD t.slots.length

/-- Inserting a value writes the next slot, which was vacant or is new. -/
theorem Wf.insert_next (h : t.Wf) {key : SlotKey} {new : T}
    (hinsert : t.insert new = .ok (key, t')) :
    ∃ g, key = ⟨.ofNat t.nextIndex, g⟩ ∧
      (t.slots[t.nextIndex]? = some ⟨g, none⟩ ∨ t.nextIndex = t.slots.length ∧ g = 0) ∧
      t.slots.length ≤ t'.slots.length ∧
      ∀ k, t'.slots[k]? = if t.nextIndex = k then some ⟨g, some new⟩ else t.slots[k]? := by
  cases hfree : t.free.getLast? with
  | none =>
      have hnext : t.nextIndex = t.slots.length := by rw [nextIndex, hfree, Option.getD_none]
      simp only [SlotTable.insert, hfree, HookResult.ok.injEq, Prod.mk.injEq] at hinsert
      obtain ⟨rfl, rfl⟩ := hinsert
      refine ⟨0, by rw [hnext], .inr ⟨hnext, rfl⟩, by simp, fun k => ?_⟩
      rw [List.getElem?_append, hnext]
      by_cases hlt : k < t.slots.length
      · rw [if_pos hlt, if_neg (Nat.ne_of_gt hlt)]
      · by_cases hk : t.slots.length = k
        · simp [hk]
        · rw [if_neg hlt, if_neg hk, List.getElem?_eq_none (by simp; omega),
            List.getElem?_eq_none (by omega)]
  | some i =>
      have hnext : t.nextIndex = i := by rw [nextIndex, hfree, Option.getD_some]
      obtain ⟨slot, hslot, hnone⟩ := (h.vacant i).mp (List.mem_of_getLast? hfree)
      simp only [SlotTable.insert, hfree, hslot, HookResult.ok.injEq, Prod.mk.injEq] at hinsert
      obtain ⟨rfl, rfl⟩ := hinsert
      rw [hnext]
      refine ⟨slot.generation, rfl, .inl ?_, by simp, fun k => getElem?_set_eq hslot _⟩
      rw [hslot, ← hnone]

/-- Inserting a value writes a slot that was vacant, or a new one. -/
theorem Wf.insert_slots (h : t.Wf) {key : SlotKey} {new : T}
    (hinsert : t.insert new = .ok (key, t')) :
    ∃ i g, key = ⟨.ofNat i, g⟩ ∧ (∀ g' old, t.slots[i]? ≠ some ⟨g', some old⟩) ∧
      t.slots.length ≤ t'.slots.length ∧
      ∀ k, t'.slots[k]? = if i = k then some ⟨g, some new⟩ else t.slots[k]? := by
  obtain ⟨g, hkey, hnext, hlen, hslots⟩ := h.insert_next hinsert
  refine ⟨t.nextIndex, g, hkey, fun g' old hold => ?_, hlen, hslots⟩
  rcases hnext with hvacant | ⟨hnew, -⟩
  · rw [hvacant] at hold
    simp at hold
  · rw [List.getElem?_eq_none (Nat.le_of_eq hnew.symm)] at hold
    simp at hold

/-- Removing a value vacates its slot. -/
theorem remove_slots {key : SlotKey} {value : Option T}
    (hremove : t.remove key = .ok (value, t')) {slot : Slot T} {old : T}
    (hlive : t.live key = some (slot, old)) :
    t'.slots.length = t.slots.length ∧
      ∀ k, t'.slots[k]? =
        if key.index.toNat = k then some ⟨slot.generation + 1, none⟩ else t.slots[k]? := by
  simp only [SlotTable.remove, hlive] at hremove
  split at hremove
  · simp at hremove
  · simp only [HookResult.ok.injEq, Prod.mk.injEq] at hremove
    obtain ⟨-, rfl⟩ := hremove
    exact ⟨List.length_set, fun k => getElem?_set_eq (live_eq_some hlive).1 _⟩

end Slots

end SlotTable

end Braids
