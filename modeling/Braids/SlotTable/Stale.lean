import Braids.SlotTable.Handles
import Mathlib.Data.List.Induction

/-!
# Stale Keys

A slot of a table has a generation, which is counted up whenever the slot is vacated, so
that a key to it goes stale. Both parts of a key are 32 bits wide: after `2 ^ 32` rounds a
generation comes back, and in a table of more than `2 ^ 32` slots an index does.

A `Ledger` records, next to a table, the keys that `insert` has returned, those that were
removed or cleared since, and how often each slot was vacated.

## Main results

* `exact_step`: the keys that were returned and those that are stale, as indices and
  generations that do not wrap around.
* `stale_stays_iff`: in which runs stale keys stay stale.
* `stale_revived`: a run in which one comes back to life.
-/

namespace Braids

namespace SlotTable

variable {T : Type}

/-! ### The ledger -/

/-- The slot at an index has a value. -/
def occupied (t : SlotTable T) (i : ℕ) : Bool := (t.slots[i]?.bind (·.value)).isSome

/-- A table with what was done to it. -/
structure Ledger (T : Type) where
  table : SlotTable T := {}
  /-- The keys that `insert` has returned. -/
  issued : List SlotKey := []
  /-- The keys that were removed or cleared. -/
  retired : List SlotKey := []
  /-- How often the slot at an index was vacated. -/
  vacated : ℕ → ℕ := fun _ => 0

namespace Ledger

/-- Record an operation that returned `ret` and left `table`. -/
def record (s : Ledger T) (table : SlotTable T) : TableOp T → TableReturn T → Ledger T
  | .insert _, .key key => { s with table, issued := key :: s.issued }
  | .remove key, .value (some _) => { s with
      table
      retired := key :: s.retired
      vacated := Function.update s.vacated key.index.toNat (s.vacated key.index.toNat + 1) }
  | .clearReuse, _ => { s with
      table
      retired := s.issued ++ s.retired
      vacated := fun i => s.vacated i + (s.table.occupied i).toNat }
  | _, _ => { s with table }

/-- One operation. -/
def step (s : Ledger T) (op : TableOp T) : HookResult (Ledger T) := do
  let (ret, table) ← s.table.step op
  return s.record table op ret

/-- Some operations. -/
def replay (s : Ledger T) : List (TableOp T) → HookResult (Ledger T)
  | [] => .ok s
  | op :: ops => do
      let s ← s.step op
      s.replay ops

/-- The slot that the next `insert` takes has been vacated fewer than `2 ^ 32` times, and no
slot whose index agrees with it modulo `2 ^ 32` has been vacated more often. -/
def NextFresh (s : Ledger T) : Prop :=
  s.vacated s.table.nextIndex < 2 ^ 32 ∧
    ∀ j, j % 2 ^ 32 = s.table.nextIndex % 2 ^ 32 → s.vacated j ≤ s.vacated s.table.nextIndex

/-- A key is dead: nobody can read, change or delete a value through it. -/
def Dead (t : SlotTable T) (key : SlotKey) : Prop :=
  t.get key = none ∧ (∀ value, t.write key value = none) ∧ t.remove key = .ok (none, t)

end Ledger

/-- Once a key that `insert` returned was removed or cleared, it is dead in every later state,
and no later `insert` returns it. -/
def StaleStays (ops : List (TableOp T)) : Prop :=
  ∀ done more, ops = done ++ more → ∃ s : Ledger T, Ledger.replay {} done = .ok s ∧
    ∀ key ∈ s.issued, key ∈ s.retired → Ledger.Dead s.table key ∧
      ∀ value rest, more = .insert value :: rest →
        ∀ next t', s.table.insert value = .ok (next, t') → next ≠ key

/-- Every `insert` of the run takes a slot whose next key is new. -/
def InsertsFresh (ops : List (TableOp T)) : Prop :=
  ∀ done value more, ops = done ++ .insert value :: more →
    ∀ s : Ledger T, Ledger.replay {} done = .ok s → s.NextFresh

/-! ### Slots after an operation -/

section Slots

variable {t t' : SlotTable T}

/-- A slot with a value is occupied. -/
theorem occupied_iff {i : ℕ} :
    t.occupied i = true ↔ ∃ g value, t.slots[i]? = some ⟨g, some value⟩ := by
  rw [occupied, Option.isSome_iff_exists]
  constructor
  · rintro ⟨value, h⟩
    obtain ⟨⟨g, _⟩, hslot, rfl⟩ := Option.bind_eq_some_iff.mp h
    exact ⟨g, value, hslot⟩
  · rintro ⟨g, value, hslot⟩
    exact ⟨value, by rw [hslot, Option.bind_some]⟩

/-- Which slots are occupied after one of them was written. -/
theorem occupied_of_slots {i : ℕ} {new : Slot T}
    (hslots : ∀ k, t'.slots[k]? = if i = k then some new else t.slots[k]?) (k : ℕ) :
    t'.occupied k = if i = k then new.value.isSome else t.occupied k := by
  rw [occupied, hslots]
  split <;> rfl

/-- No slot is occupied after a clear. -/
theorem occupied_clearReuse (t : SlotTable T) (i : ℕ) : t.clearReuse.occupied i = false := by
  rw [occupied, clearReuse, List.getElem?_map]
  cases t.slots[i]? with
  | none => rfl
  | some slot => simp [Slot.value_vacate]

/-- The same slots are occupied after `iter_mut`. -/
theorem occupied_iterMut (t : SlotTable T) (edit : ℕ → T → T) (i : ℕ) :
    (t.iterMut edit).2.occupied i = t.occupied i := by
  rw [occupied, occupied, getElem?_iterMut]
  cases t.slots[i]? with
  | none => rfl
  | some slot => simp [Slot.edit]

end Slots

/-! ### What the ledger says -/

namespace Ledger

/-- The key of the slot at an index after it was vacated `v` times. -/
def keyAt (i v : ℕ) : SlotKey := ⟨.ofNat i, .ofNat v⟩

/-- Keys wrap around. -/
theorem keyAt_eq_iff {i v j w : ℕ} :
    keyAt i v = keyAt j w ↔ i % 2 ^ 32 = j % 2 ^ 32 ∧ v % 2 ^ 32 = w % 2 ^ 32 := by
  have hword : ∀ m n : ℕ, UInt32.ofNat m = UInt32.ofNat n ↔ m % 2 ^ 32 = n % 2 ^ 32 := by
    intro m n
    rw [← UInt32.toNat_inj, UInt32.toNat_ofNat', UInt32.toNat_ofNat']
  simp only [keyAt, SlotKey.mk.injEq, hword]

/-- `insert` has returned the key of a slot that was vacated `v` times since. -/
def IssuedAt (s : Ledger T) (i v : ℕ) : Prop :=
  v < s.vacated i ∨ v = s.vacated i ∧ s.table.occupied i = true

/-- The ledger is exact. -/
structure Exact (s : Ledger T) : Prop where
  wf : s.table.Wf
  generation : ∀ (i : ℕ) (slot : Slot T), s.table.slots[i]? = some slot →
    slot.generation = .ofNat (s.vacated i)
  unused : ∀ i, s.table.slots.length ≤ i → s.vacated i = 0
  issued : ∀ key, key ∈ s.issued ↔ ∃ i v, key = keyAt i v ∧ s.IssuedAt i v
  retired : ∀ key, key ∈ s.retired ↔ ∃ i v, key = keyAt i v ∧ v < s.vacated i

/-- The ledger of an empty table. -/
theorem exact_empty : Exact ({} : Ledger T) :=
  ⟨wf_default, by simp, by simp, by simp [IssuedAt, occupied], by simp⟩

variable {s s' : Ledger T}

/-- An operation that only overwrites values. -/
theorem Exact.overwrite (h : s.Exact) {table : SlotTable T} (hwf : table.Wf)
    (hlen : s.table.slots.length = table.slots.length)
    (hslots : ∀ (i : ℕ) (slot : Slot T), table.slots[i]? = some slot →
      ∃ old, s.table.slots[i]? = some old ∧ slot.generation = old.generation)
    (hoccupied : ∀ i, table.occupied i = s.table.occupied i) :
    Exact { s with table } := by
  refine ⟨hwf, fun i slot hslot => ?_, fun i hi => ?_, fun key => ?_, h.retired⟩
  · obtain ⟨old, hold, hgen⟩ := hslots i slot hslot
    rw [hgen]
    exact h.generation i old hold
  · exact h.unused i (hlen ▸ hi)
  · rw [h.issued key]
    simp only [IssuedAt, hoccupied]

/-- `insert` issues the key of the next slot. -/
theorem Exact.insert (h : s.Exact) {key : SlotKey} {table : SlotTable T} {value : T}
    (hinsert : s.table.insert value = .ok (key, table)) :
    key = keyAt s.table.nextIndex (s.vacated s.table.nextIndex) ∧
      Exact { s with table, issued := key :: s.issued } := by
  obtain ⟨g, rfl, hnext, hlen, hslots⟩ := h.wf.insert_next hinsert
  obtain ⟨_, _, hinsert', hwf⟩ := h.wf.insert value
  obtain ⟨-, rfl⟩ := Prod.mk.inj (HookResult.ok.inj (hinsert.symm.trans hinsert'))
  have hgen : g = .ofNat (s.vacated s.table.nextIndex) := by
    rcases hnext with hvacant | ⟨hnew, rfl⟩
    · exact h.generation _ _ hvacant
    · rw [h.unused _ (Nat.le_of_eq hnew.symm)]
      rfl
  have hoccupied := occupied_of_slots hslots
  have hvacant : s.table.occupied s.table.nextIndex = false := by
    rw [Bool.eq_false_iff, ne_eq, occupied_iff]
    rintro ⟨g', old, hold⟩
    rcases hnext with hvacant | ⟨hnew, -⟩
    · rw [hvacant] at hold
      simp at hold
    · rw [List.getElem?_eq_none (Nat.le_of_eq hnew.symm)] at hold
      simp at hold
  subst hgen
  refine ⟨rfl, hwf, fun i slot hslot => ?_, fun i hi => h.unused i (Nat.le_trans hlen hi),
    fun key => ?_, h.retired⟩
  · rw [hslots] at hslot
    split at hslot
    · next hi =>
        obtain rfl := Option.some.inj hslot
        rw [← hi]
    · exact h.generation i slot hslot
  · rw [List.mem_cons, h.issued key]
    constructor
    · rintro (rfl | ⟨i, v, rfl, hv⟩)
      · exact ⟨_, _, rfl, .inr ⟨rfl, by rw [hoccupied, if_pos rfl]; rfl⟩⟩
      · refine ⟨i, v, rfl, hv.imp_right fun hv => ⟨hv.1, ?_⟩⟩
        rw [hoccupied]
        split
        · rfl
        · exact hv.2
    · rintro ⟨i, v, rfl, hv | ⟨hv, hocc⟩⟩
      · exact .inr ⟨i, v, rfl, .inl hv⟩
      · rw [hoccupied] at hocc
        split at hocc
        · next hi =>
            subst hi
            subst hv
            exact .inl rfl
        · exact .inr ⟨i, v, rfl, .inr ⟨hv, hocc⟩⟩

/-- `remove` retires the key of the slot that it vacates. -/
theorem Exact.remove (h : s.Exact) {key : SlotKey} {table : SlotTable T} {value : T}
    (hremove : s.table.remove key = .ok (some value, table)) :
    Exact { s with
      table
      retired := key :: s.retired
      vacated := Function.update s.vacated key.index.toNat (s.vacated key.index.toNat + 1) } := by
  obtain ⟨_, _, hremove', hwf⟩ := h.wf.remove key
  obtain ⟨-, rfl⟩ := Prod.mk.inj (HookResult.ok.inj (hremove.symm.trans hremove'))
  obtain ⟨hlen, hvalue, -, -⟩ := remove_effect hremove
  have hslot := get_eq_some.mp hvalue.symm
  have hlive : s.table.live key = some (⟨key.generation, some value⟩, value) := by
    simp [live, hslot]
  obtain ⟨-, hslots⟩ := remove_slots hremove hlive
  have hoccupied := occupied_of_slots hslots
  have hgen : key.generation = .ofNat (s.vacated key.index.toNat) := h.generation _ _ hslot
  have hlt := (List.getElem?_eq_some_iff.mp hslot).1
  have hkey : key = keyAt key.index.toNat (s.vacated key.index.toNat) := by
    rw [keyAt, ← hgen, UInt32.ofNat_toNat]
  have hocc : s.table.occupied key.index.toNat = true := occupied_iff.mpr ⟨_, _, hslot⟩
  generalize key.index.toNat = i at *
  refine ⟨hwf, fun k slot hk => ?_, fun k hk => ?_, fun key' => ?_, fun key' => ?_⟩
  · rw [hslots] at hk
    split at hk
    · next hi =>
        obtain rfl := Option.some.inj hk
        subst hi
        simp [hgen, UInt32.ofNat_add]
    · next hi =>
        dsimp only
        rw [Function.update_of_ne (Ne.symm hi)]
        exact h.generation k slot hk
  · have hk' : s.table.slots.length ≤ k := hlen ▸ hk
    have hne : k ≠ i := by omega
    change Function.update s.vacated i _ k = 0
    rw [Function.update_of_ne hne]
    exact h.unused k hk'
  · change key' ∈ s.issued ↔ _
    rw [h.issued key']
    refine exists_congr fun k => exists_congr fun v => and_congr_right fun _ => ?_
    unfold IssuedAt
    dsimp only
    rw [hoccupied]
    by_cases hk : k = i
    · subst hk
      simp only [Function.update_self, if_true, hocc, Option.isSome_none, Bool.false_eq_true,
        and_false, or_false, and_true]
      omega
    · rw [Function.update_of_ne hk, if_neg (Ne.symm hk)]
  · rw [List.mem_cons, h.retired key']
    constructor
    · rintro (rfl | ⟨k, v, rfl, hv⟩)
      · exact ⟨i, _, hkey, by simp⟩
      · refine ⟨k, v, rfl, ?_⟩
        dsimp only
        rw [Function.update_apply]
        split
        · next hk =>
            subst hk
            omega
        · exact hv
    · rintro ⟨k, v, rfl, hv⟩
      dsimp only at hv
      rw [Function.update_apply] at hv
      split at hv
      · next hk =>
          subst hk
          by_cases hlast : v = s.vacated k
          · subst hlast
            exact .inl hkey.symm
          · exact .inr ⟨k, v, rfl, by omega⟩
      · exact .inr ⟨k, v, rfl, hv⟩

/-- `clear_reuse` retires all keys that were issued. -/
theorem Exact.clear (h : s.Exact) :
    Exact { s with
      table := s.table.clearReuse
      retired := s.issued ++ s.retired
      vacated := fun i => s.vacated i + (s.table.occupied i).toNat } := by
  have hissued : ∀ i v, s.IssuedAt i v ↔ v < s.vacated i + (s.table.occupied i).toNat := by
    intro i v
    unfold IssuedAt
    cases s.table.occupied i <;> simp <;> omega
  refine ⟨wf_clearReuse _, fun i slot hslot => ?_, fun i hi => ?_, fun key => ?_, fun key => ?_⟩
  · obtain ⟨old, hold, rfl⟩ := Option.map_eq_some_iff.mp ((List.getElem?_map ..).symm.trans hslot)
    have hgen := h.generation i old hold
    have hocc : s.table.occupied i = old.value.isSome := by rw [occupied, hold, Option.bind_some]
    dsimp only
    rw [hocc, Slot.vacate]
    cases old.value with
    | none => simpa using hgen
    | some value => simp [hgen, UInt32.ofNat_add]
  · have hi' : s.table.slots.length ≤ i := by simpa [clearReuse] using hi
    have hocc : s.table.occupied i = false := by
      rw [occupied, List.getElem?_eq_none hi']
      rfl
    dsimp only
    rw [h.unused i hi', hocc]
    rfl
  · change key ∈ s.issued ↔ _
    rw [h.issued key]
    refine exists_congr fun i => exists_congr fun v => and_congr_right fun _ => ?_
    rw [hissued]
    simp [IssuedAt, occupied_clearReuse]
  · rw [List.mem_append, h.issued key, h.retired key]
    constructor
    · rintro (⟨i, v, rfl, hv⟩ | ⟨i, v, rfl, hv⟩)
      · exact ⟨i, v, rfl, (hissued i v).mp hv⟩
      · exact ⟨i, v, rfl, Nat.lt_add_right _ hv⟩
    · rintro ⟨i, v, rfl, hv⟩
      exact .inl ⟨i, v, rfl, (hissued i v).mpr hv⟩

/-- **The ledger is exact in every run.** -/
theorem exact_step (h : s.Exact) (op : TableOp T) : ∃ s', s.step op = .ok s' ∧ s'.Exact := by
  cases op with
  | insert value =>
      obtain ⟨key, table, hinsert, -⟩ := h.wf.insert value
      exact ⟨_, by simp only [step, SlotTable.step, hinsert, HookResult.ok_bind,
        HookResult.pure_eq, record], (h.insert hinsert).2⟩
  | remove key =>
      obtain ⟨old, table, hremove, hwf⟩ := h.wf.remove key
      refine ⟨s.record table (.remove key) (.value old), by simp only [step, SlotTable.step,
        hremove, HookResult.ok_bind, HookResult.pure_eq], ?_⟩
      cases old with
      | some value => exact h.remove hremove
      | none =>
          obtain ⟨-, -, hsame, -⟩ := remove_effect hremove
          obtain rfl := hsame rfl
          exact h
  | write key value =>
      cases hwrite : s.table.write key value with
      | none =>
          exact ⟨s, by simp only [step, SlotTable.step, hwrite, HookResult.ok_bind,
            HookResult.pure_eq, record], h⟩
      | some table =>
          obtain ⟨⟨old, hold⟩, hlen, hslots⟩ := write_slots hwrite
          refine ⟨{ s with table }, by simp only [step, SlotTable.step, hwrite,
            HookResult.ok_bind, HookResult.pure_eq, record], ?_⟩
          refine h.overwrite (h.wf.write hwrite) hlen.symm (fun i slot hslot => ?_) fun i => ?_
          · rw [hslots] at hslot
            split at hslot
            · next hi =>
                obtain rfl := Option.some.inj hslot
                exact ⟨⟨key.generation, some old⟩, hi ▸ hold, rfl⟩
            · exact ⟨slot, hslot, rfl⟩
          · rw [occupied_of_slots hslots]
            split
            · next hi => exact (occupied_iff.mpr ⟨_, old, hi ▸ hold⟩).symm
            · rfl
  | iterMut edit =>
      refine ⟨{ s with table := (s.table.iterMut edit).2 }, rfl, ?_⟩
      refine h.overwrite (h.wf.iterMut edit) (by simp [SlotTable.iterMut]) (fun i slot hslot => ?_)
        (occupied_iterMut s.table edit)
      rw [getElem?_iterMut] at hslot
      obtain ⟨old, hold, rfl⟩ := Option.map_eq_some_iff.mp hslot
      exact ⟨old, hold, rfl⟩
  | clearReuse => exact ⟨_, rfl, h.clear⟩

/-! ### Fresh keys -/

/-- The key of a live slot is not among those that went stale. -/
def LiveFresh (s : Ledger T) : Prop :=
  ∀ i < 2 ^ 32, s.table.occupied i = true →
    s.vacated i < 2 ^ 32 ∧ ∀ j, j % 2 ^ 32 = i % 2 ^ 32 → s.vacated j ≤ s.vacated i

/-- The key of the next `insert` is not stale exactly if it is fresh. -/
theorem Exact.nextFresh_iff (h : s.Exact) :
    s.NextFresh ↔ keyAt s.table.nextIndex (s.vacated s.table.nextIndex) ∉ s.retired := by
  rw [h.retired]
  constructor
  · rintro ⟨hlt, hmost⟩ ⟨j, v, hkey, hv⟩
    obtain ⟨hindex, hgen⟩ := keyAt_eq_iff.mp hkey
    have hle := hmost j hindex.symm
    rw [Nat.mod_eq_of_lt hlt, Nat.mod_eq_of_lt (by omega)] at hgen
    omega
  · intro hfresh
    have hmod : ∀ j, j % 2 ^ 32 = s.table.nextIndex % 2 ^ 32 →
        s.vacated j ≤ s.vacated s.table.nextIndex % 2 ^ 32 := by
      intro j hj
      by_contra hlt
      exact hfresh ⟨j, _, keyAt_eq_iff.mpr ⟨hj.symm, (Nat.mod_mod ..).symm⟩, Nat.not_le.mp hlt⟩
    refine ⟨?_, fun j hj => Nat.le_trans (hmod j hj) (Nat.mod_le ..)⟩
    exact Nat.lt_of_le_of_lt (hmod _ rfl) (Nat.mod_lt _ (by decide))

/-- Live keys stay fresh if those that are inserted are. -/
theorem LiveFresh.step (hlive : s.LiveFresh) (h : s.Exact) {op : TableOp T}
    (hop : ∀ value, op = .insert value → s.NextFresh) (hstep : s.step op = .ok s') :
    s'.LiveFresh := by
  cases op with
  | insert value =>
      obtain ⟨key, table, hinsert, -⟩ := h.wf.insert value
      simp only [Ledger.step, SlotTable.step, hinsert, HookResult.ok_bind, HookResult.pure_eq,
        record, HookResult.ok.injEq] at hstep
      subst hstep
      obtain ⟨g, -, -, -, hslots⟩ := h.wf.insert_next hinsert
      intro i hi hocc
      dsimp only at hocc ⊢
      rw [occupied_of_slots hslots] at hocc
      split at hocc
      · next hnext => exact hnext ▸ hop value rfl
      · exact hlive i hi hocc
  | remove key =>
      obtain ⟨old, table, hremove, -⟩ := h.wf.remove key
      simp only [Ledger.step, SlotTable.step, hremove, HookResult.ok_bind, HookResult.pure_eq,
        HookResult.ok.injEq] at hstep
      subst hstep
      obtain ⟨-, hvalue, hsame, -⟩ := remove_effect hremove
      cases old with
      | none =>
          obtain rfl := hsame rfl
          exact hlive
      | some value =>
          have hslot := get_eq_some.mp hvalue.symm
          have hlive' : s.table.live key = some (⟨key.generation, some value⟩, value) := by
            simp [live, hslot]
          obtain ⟨-, hslots⟩ := remove_slots hremove hlive'
          intro i hi hocc
          dsimp only [record] at hocc ⊢
          rw [occupied_of_slots hslots] at hocc
          split at hocc
          · simp at hocc
          · next hne =>
              obtain ⟨hlt, hmost⟩ := hlive i hi hocc
              rw [Function.update_of_ne (Ne.symm hne)]
              refine ⟨hlt, fun j hj => ?_⟩
              -- the slot that was vacated has another index, also modulo `2 ^ 32`
              have hj' : j ≠ key.index.toNat := by
                rintro rfl
                rw [Nat.mod_eq_of_lt hi, Nat.mod_eq_of_lt key.index.toNat_lt] at hj
                exact hne hj
              rw [Function.update_of_ne hj']
              exact hmost j hj
  | write key value =>
      cases hwrite : s.table.write key value with
      | none =>
          simp only [Ledger.step, SlotTable.step, hwrite, HookResult.ok_bind, HookResult.pure_eq,
            record, HookResult.ok.injEq] at hstep
          exact hstep ▸ hlive
      | some table =>
          simp only [Ledger.step, SlotTable.step, hwrite, HookResult.ok_bind, HookResult.pure_eq,
            record, HookResult.ok.injEq] at hstep
          subst hstep
          obtain ⟨⟨old, hold⟩, -, hslots⟩ := write_slots hwrite
          intro i hi hocc
          dsimp only at hocc ⊢
          rw [occupied_of_slots hslots] at hocc
          split at hocc
          · next hkey => exact hlive i hi (occupied_iff.mpr ⟨_, old, hkey ▸ hold⟩)
          · exact hlive i hi hocc
  | iterMut edit =>
      simp only [Ledger.step, SlotTable.step, HookResult.ok_bind, HookResult.pure_eq, record,
        HookResult.ok.injEq] at hstep
      subst hstep
      intro i hi hocc
      exact hlive i hi ((occupied_iterMut s.table edit i).symm.trans hocc)
  | clearReuse =>
      obtain rfl := HookResult.ok.inj hstep
      intro i _ hocc
      simp [record, occupied_clearReuse] at hocc

/-- **A stale key is dead** while the live keys are fresh. -/
theorem Exact.dead (h : s.Exact) (hlive : s.LiveFresh) {key : SlotKey} (hkey : key ∈ s.retired) :
    Dead s.table key := by
  have hget : s.table.get key = none := by
    rw [Option.eq_none_iff_forall_ne_some]
    intro value hget
    have hslot := get_eq_some.mp hget
    have hgen : key.generation = .ofNat (s.vacated key.index.toNat) := h.generation _ _ hslot
    have heq : key = keyAt key.index.toNat (s.vacated key.index.toNat) := by
      rw [keyAt, ← hgen, UInt32.ofNat_toNat]
    obtain ⟨j, v, hkeyAt, hv⟩ := (h.retired key).mp hkey
    obtain ⟨hindex, hmod⟩ := keyAt_eq_iff.mp (heq.symm.trans hkeyAt)
    obtain ⟨hlt, hmost⟩ :=
      hlive _ key.index.toNat_lt (occupied_iff.mpr ⟨_, value, hslot⟩)
    have hle := hmost j hindex.symm
    rw [Nat.mod_eq_of_lt hlt, Nat.mod_eq_of_lt (by omega)] at hmod
    omega
  have hnone := live_eq_none.mpr hget
  exact ⟨hget, fun value => by rw [write, hnone]; rfl,
    by rw [SlotTable.remove, hnone]⟩

/-! ### Whole runs -/

/-- Operations after operations. -/
theorem replay_append (s : Ledger T) (ops more : List (TableOp T)) :
    s.replay (ops ++ more) = s.replay ops >>= fun s' => s'.replay more := by
  induction ops generalizing s with
  | nil => rfl
  | cons op ops ih =>
      rw [List.cons_append, replay, replay]
      cases s.step op with
      | ok s' => simp only [HookResult.ok_bind, ih]
      | err e => rfl
      | panicked => rfl

/-- In a run that inserts fresh keys, the live keys are fresh. -/
theorem exists_replay (ops : List (TableOp T)) :
    ∃ s : Ledger T, replay {} ops = .ok s ∧ s.Exact ∧ (InsertsFresh ops → s.LiveFresh) := by
  induction ops using List.reverseRecOn with
  | nil => exact ⟨{}, rfl, exact_empty, fun _ i _ hocc => by simp [occupied] at hocc⟩
  | append_singleton ops op ih =>
      obtain ⟨s, hrun, hexact, hlive⟩ := ih
      obtain ⟨s', hstep, hexact'⟩ := exact_step hexact op
      have hrun' : replay {} (ops ++ [op]) = .ok s' := by
        simp only [replay_append, hrun, HookResult.ok_bind, replay, hstep]
      refine ⟨s', hrun', hexact', fun hfresh => ?_⟩
      have hbefore : InsertsFresh ops := fun done value more heq =>
        hfresh done value (more ++ [op]) (by rw [heq, List.append_assoc]; rfl)
      refine (hlive hbefore).step hexact (fun value hop => ?_) hstep
      exact hfresh ops value [] (by rw [hop]) s hrun

end Ledger

open Ledger

/-- **Stale keys stay stale precisely in the runs whose inserts take fresh keys**: each takes
a slot that has been vacated fewer than `2 ^ 32` times, and not less often than the slots
whose indices agree with its own modulo `2 ^ 32`. -/
theorem stale_stays_iff (ops : List (TableOp T)) : StaleStays ops ↔ InsertsFresh ops := by
  constructor
  · intro hstays done value more hops s hrun
    obtain ⟨s', hrun', hdead⟩ := hstays done _ hops
    obtain rfl := HookResult.ok.inj (hrun.symm.trans hrun')
    obtain ⟨_, hrun', hexact, -⟩ := Ledger.exists_replay done
    obtain rfl := HookResult.ok.inj (hrun.symm.trans hrun')
    obtain ⟨key, table, hinsert, -⟩ := hexact.wf.insert value
    obtain ⟨rfl, -⟩ := hexact.insert hinsert
    rw [hexact.nextFresh_iff]
    intro hretired
    have hissued := (hexact.issued _).mpr
      (((hexact.retired _).mp hretired).imp fun i => .imp fun v => .imp_right .inl)
    exact (hdead _ hissued hretired).2 value more rfl _ table hinsert rfl
  · rintro hfresh done more rfl
    obtain ⟨s, hrun, hexact, hlive⟩ := Ledger.exists_replay done
    have hbefore : InsertsFresh done := fun d value m heq =>
      hfresh d value (m ++ more) (by rw [heq, List.append_assoc]; rfl)
    refine ⟨s, hrun, fun key hissued hretired => ⟨hexact.dead (hlive hbefore) hretired, ?_⟩⟩
    rintro value rest rfl next table hinsert rfl
    obtain ⟨rfl, -⟩ := hexact.insert hinsert
    exact hexact.nextFresh_iff.mp (hfresh done value rest rfl s hrun) hretired

/-! ### A key that comes back -/

/-- A value is inserted and removed again, `n` times. -/
def rounds : ℕ → List (TableOp ℕ)
  | 0 => []
  | n + 1 => rounds n ++ [.insert n, .remove (Ledger.keyAt 0 n)]

/-- A ledger after some rounds. -/
theorem replay_rounds (n : ℕ) : ∃ s : Ledger ℕ, Ledger.replay {} (rounds (n + 1)) = .ok s ∧
    s.table = ⟨[⟨.ofNat (n + 1), none⟩], [0], 0⟩ ∧ Ledger.keyAt 0 0 ∈ s.issued ∧
      Ledger.keyAt 0 0 ∈ s.retired := by
  induction n with
  | zero => exact ⟨_, rfl, rfl, List.mem_cons_self, List.mem_cons_self⟩
  | succ n ih =>
      obtain ⟨s, hrun, htable, hissued, hretired⟩ := ih
      have hinsert : s.step (.insert (n + 1)) = .ok { s with
          table := ⟨[⟨.ofNat (n + 1), some (n + 1)⟩], [], 1⟩
          issued := Ledger.keyAt 0 (n + 1) :: s.issued } := by
        rw [Ledger.step, htable]
        rfl
      have hremove : ∀ issued : List SlotKey, ({ s with
          table := ⟨[⟨.ofNat (n + 1), some (n + 1)⟩], [], 1⟩, issued } : Ledger ℕ).step
            (.remove (Ledger.keyAt 0 (n + 1))) = .ok { s with
          table := ⟨[⟨.ofNat (n + 1) + 1, none⟩], [0], 0⟩
          issued
          retired := Ledger.keyAt 0 (n + 1) :: s.retired
          vacated := Function.update s.vacated 0 (s.vacated 0 + 1) } := by
        intro issued
        simp [Ledger.step, SlotTable.step, SlotTable.remove, live, Ledger.keyAt, Ledger.record]
      rw [rounds, Ledger.replay_append, hrun, HookResult.ok_bind, Ledger.replay, hinsert,
        HookResult.ok_bind, Ledger.replay, hremove]
      exact ⟨_, rfl, by simp [UInt32.ofNat_add], List.mem_cons_of_mem _ hissued,
        List.mem_cons_of_mem _ hretired⟩

/-- **A stale key comes back to life**: after `2 ^ 32` rounds the first key is returned again,
and reads the value that was inserted then. -/
theorem stale_revived : ¬ StaleStays (rounds (2 ^ 32) ++ [.insert 7]) ∧
    ∃ (s s' : Ledger ℕ), Ledger.replay {} (rounds (2 ^ 32)) = .ok s ∧
      Ledger.keyAt 0 0 ∈ s.retired ∧ s.step (.insert 7) = .ok s' ∧
        s'.table.get (Ledger.keyAt 0 0) = some 7 := by
  obtain ⟨s, hrun, htable, hissued, hretired⟩ := replay_rounds (2 ^ 32 - 1)
  have hwrap : s.table = ⟨[⟨0, none⟩], [0], 0⟩ := htable
  have hinsert : s.table.insert 7 = .ok (Ledger.keyAt 0 0, ⟨[⟨0, some 7⟩], [], 1⟩) := by
    rw [hwrap]
    rfl
  constructor
  · intro hstays
    obtain ⟨s', hrun', hdead⟩ := hstays (rounds (2 ^ 32)) [.insert 7] rfl
    obtain rfl := HookResult.ok.inj (hrun.symm.trans hrun')
    exact (hdead _ hissued hretired).2 7 [] rfl _ _ hinsert rfl
  · refine ⟨s, s.record ⟨[⟨0, some 7⟩], [], 1⟩ (.insert 7) (.key (Ledger.keyAt 0 0)), hrun,
      hretired, ?_, rfl⟩
    rw [Ledger.step, SlotTable.step, hinsert]
    rfl

end SlotTable

end Braids
