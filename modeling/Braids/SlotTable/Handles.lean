import Braids.SlotTable
import Mathlib.Logic.Function.Basic

/-!
# Values under Their Keys

A slot table stands for a map from keys to values, `get`. As long as the slots have indices
that fit in a key, every operation does to the map what its name says, whatever keys it is
called with.

## Main results

* `step_effect`: what an operation does to the map.
* `mem_iter`: iterating visits the map.
* `slot_table_sound`: what holds in every run.
-/

namespace Braids

namespace SlotTable

variable {T : Type} {t t' : SlotTable T}

/-! ### Reading -/

/-- `get`. -/
def get (t : SlotTable T) (key : SlotKey) : Option T := (t.live key).map (·.2)

/-- The item of a slot: its key, and its value unless it is vacant. -/
def Slot.item (slot : Slot T) (index : ℕ) : Option (SlotKey × T) :=
  slot.value.map fun value => (⟨.ofNat index, slot.generation⟩, value)

/-- `iter`. -/
def iter (t : SlotTable T) : List (SlotKey × T) :=
  t.slots.zipIdx.filterMap fun (slot, index) => Slot.item slot index

/-- The slot after its value was overwritten, if it has one. -/
def Slot.edit (slot : Slot T) (f : T → T) : Slot T := { slot with value := slot.value.map f }

/-- `iter_mut`: the items, and the table after the values were overwritten through them. The
value in the slot at `index` becomes what `edit index` makes of it. -/
def iterMut (t : SlotTable T) (edit : ℕ → T → T) : List (SlotKey × T) × SlotTable T :=
  (t.iter, { t with slots := t.slots.mapIdx fun index slot => Slot.edit slot (edit index) })

/-! ### Runs -/

/-- What a caller may do with a table. -/
inductive TableOp (T : Type)
  | insert (value : T)
  | remove (key : SlotKey)
  /-- `get_mut`, to overwrite the value. -/
  | write (key : SlotKey) (value : T)
  | iterMut (edit : ℕ → T → T)
  | clearReuse

/-- What an operation returns. -/
inductive TableReturn (T : Type)
  | key (key : SlotKey)
  | value (value : Option T)
  | found (found : Bool)
  | items (items : List (SlotKey × T))
  | unit

/-- One operation. -/
def step (t : SlotTable T) : TableOp T → HookResult (TableReturn T × SlotTable T)
  | .insert value => do
      let (key, t) ← t.insert value
      return (.key key, t)
  | .remove key => do
      let (value, t) ← t.remove key
      return (.value value, t)
  | .write key value =>
      match t.write key value with
      | some t => .ok (.found true, t)
      | none => .ok (.found false, t)
  | .iterMut edit => .ok (.items (t.iterMut edit).1, (t.iterMut edit).2)
  | .clearReuse => .ok (.unit, t.clearReuse)

/-- Some operations. -/
def replay (t : SlotTable T) : List (TableOp T) → HookResult (SlotTable T)
  | [] => .ok t
  | op :: ops => do
      let (_, t) ← t.step op
      t.replay ops

/-- What an operation that returns `ret` does to the map of the table. -/
def Effect (t : SlotTable T) : TableOp T → TableReturn T → SlotTable T → Prop
  | .insert value, .key key, t' =>
      t.get key = none ∧ t'.get = Function.update t.get key (some value)
  | .remove key, .value old, t' =>
      old = t.get key ∧ (old = none → t' = t) ∧ t'.get = Function.update t.get key none
  | .write key value, .found found, t' =>
      found = (t.get key).isSome ∧
        t'.get = if found then Function.update t.get key (some value) else t.get
  | .iterMut edit, .items items, t' =>
      items = t.iter ∧ t'.get = fun key => (t.get key).map (edit key.index.toNat)
  | .clearReuse, .unit, t' => t'.get = fun _ => none
  | _, _, _ => False

/-- The indices of the slots fit in a key. -/
def Fits (t : SlotTable T) : Prop := t.slots.length ≤ 2 ^ 32

/-- The last value of a key whose value was `value`, if it is neither removed nor cleared. -/
def lastWritten (key : SlotKey) (value : T) : TableOp T → T
  | .write key' new => if key' = key then new else value
  | .iterMut edit => edit key.index.toNat value
  | _ => value

/-- The table is well formed, and iterating visits each live value once, under its key. -/
structure Sound (t : SlotTable T) : Prop where
  wf : t.Wf
  keys : (t.iter.map (·.1)).Nodup
  items : ∀ key value, (key, value) ∈ t.iter ↔ t.get key = some value
  length : t.iter.length = t.len

/-! ### What a key reads -/

/-- A key reads the slot of its index if it has its generation. -/
theorem get_eq (t : SlotTable T) (key : SlotKey) :
    t.get key = (t.slots[key.index.toNat]?).bind fun slot =>
      if slot.generation = key.generation then slot.value else none := by
  unfold get live
  cases t.slots[key.index.toNat]? with
  | none => rfl
  | some slot =>
      by_cases hgen : slot.generation = key.generation
      · simp [hgen, Function.comp_def]
      · simp [hgen]

/-- What a key reads is in the slot of its index, under its generation. -/
theorem get_eq_some {key : SlotKey} {value : T} :
    t.get key = some value ↔
      t.slots[key.index.toNat]? = some ⟨key.generation, some value⟩ := by
  rw [get_eq, Option.bind_eq_some_iff]
  constructor
  · rintro ⟨⟨generation, value'⟩, hslot, hread⟩
    simp only [Option.ite_none_right_eq_some] at hread
    obtain ⟨rfl, rfl⟩ := hread
    exact hslot
  · intro hslot
    exact ⟨_, hslot, by simp⟩

/-- A key that is not live reads nothing. -/
theorem live_eq_none {key : SlotKey} : t.live key = none ↔ t.get key = none := by
  rw [get, Option.map_eq_none_iff]

/-- What keys read after one slot was written. -/
theorem get_of_slots {i : ℕ} {new : Slot T}
    (hslots : ∀ k, t'.slots[k]? = if i = k then some new else t.slots[k]?) (key : SlotKey) :
    t'.get key = if i = key.index.toNat then
        (if new.generation = key.generation then new.value else none)
      else t.get key := by
  rw [get_eq, get_eq, hslots]
  split <;> rfl

/-- Keys with the index of a slot and another generation read nothing. -/
theorem get_of_generation_ne {key : SlotKey} {slot : Slot T}
    (hslot : t.slots[key.index.toNat]? = some slot) (hne : slot.generation ≠ key.generation) :
    t.get key = none := by
  rw [get_eq, hslot, Option.bind_some, if_neg hne]

/-- A key is its index and its generation. -/
theorem key_eq_iff {i : ℕ} {g : UInt32} (hi : (UInt32.ofNat i).toNat = i) {key : SlotKey} :
    key = ⟨.ofNat i, g⟩ ↔ i = key.index.toNat ∧ g = key.generation := by
  constructor
  · rintro rfl
    exact ⟨hi.symm, rfl⟩
  · rintro ⟨rfl, rfl⟩
    cases key
    simp

/-- `insert` takes a key that reads nothing. -/
theorem Wf.get_insert (h : t.Wf) {key : SlotKey} {value : T}
    (hinsert : t.insert value = .ok (key, t')) (hfit : t'.Fits) :
    t.get key = none ∧ t'.get = Function.update t.get key (some value) := by
  obtain ⟨i, g, rfl, hvacant, -, hslots⟩ := h.insert_slots hinsert
  have hi : (UInt32.ofNat i).toNat = i := toNat_index hfit (by rw [hslots, if_pos rfl])
  have hnone : ∀ g' : UInt32, t.get ⟨.ofNat i, g'⟩ = none := by
    intro g'
    rw [Option.eq_none_iff_forall_ne_some]
    intro old hold
    rw [get_eq_some, hi] at hold
    exact hvacant g' old hold
  refine ⟨hnone g, funext fun key => ?_⟩
  rw [get_of_slots hslots, Function.update_apply]
  by_cases hindex : i = key.index.toNat
  · by_cases hgen : g = key.generation
    · rw [if_pos hindex, if_pos hgen, if_pos ((key_eq_iff hi).mpr ⟨hindex, hgen⟩)]
    · have hne : key ≠ ⟨.ofNat i, g⟩ := fun heq => hgen ((key_eq_iff hi).mp heq).2
      have hkey : key = ⟨.ofNat i, key.generation⟩ := (key_eq_iff hi).mpr ⟨hindex, rfl⟩
      rw [if_pos hindex, if_neg hgen, if_neg hne, hkey, hnone]
  · have hne : key ≠ ⟨.ofNat i, g⟩ := fun heq => hindex ((key_eq_iff hi).mp heq).1
    rw [if_neg hindex, if_neg hne]

/-- Keys after the slot of a live key was written. -/
theorem get_write_slot {key : SlotKey} {old : T} {new : Slot T}
    (hold : t.slots[key.index.toNat]? = some ⟨key.generation, some old⟩)
    (hslots : ∀ k, t'.slots[k]? = if key.index.toNat = k then some new else t.slots[k]?)
    (hnew : new.generation = key.generation ∨ new.value = none) :
    t'.get = Function.update t.get key new.value := by
  funext key'
  rw [get_of_slots hslots, Function.update_apply]
  by_cases hindex : key.index.toNat = key'.index.toNat
  · by_cases hgen : key.generation = key'.generation
    · have hkey : key' = key := by
        cases key
        cases key'
        simp_all [UInt32.toNat_inj]
      rw [if_pos hindex, if_pos hkey, ← hgen]
      rcases hnew with hsame | hvacant
      · rw [if_pos hsame]
      · rw [hvacant, ite_self]
    · -- no other generation of the slot reads anything
      have hne : key' ≠ key := fun heq => hgen (heq ▸ rfl)
      rw [if_pos hindex, if_neg hne]
      rw [hindex] at hold
      rw [get_of_generation_ne hold hgen]
      rcases hnew with hsame | hvacant
      · rw [hsame, if_neg hgen]
      · rw [hvacant, ite_self]
  · have hne : key' ≠ key := fun heq => hindex (heq ▸ rfl)
    rw [if_neg hindex, if_neg hne]

/-- What `remove` returns and does. -/
theorem remove_effect {key : SlotKey} {old : Option T}
    (hremove : t.remove key = .ok (old, t')) :
    t.slots.length = t'.slots.length ∧ old = t.get key ∧ (old = none → t' = t) ∧
      t'.get = Function.update t.get key none := by
  cases hlive : t.live key with
  | none =>
      rw [SlotTable.remove, hlive] at hremove
      simp only [HookResult.ok.injEq, Prod.mk.injEq] at hremove
      obtain ⟨rfl, rfl⟩ := hremove
      have hget := live_eq_none.mp hlive
      refine ⟨rfl, hget.symm, fun _ => rfl, ?_⟩
      rw [← hget, Function.update_eq_self]
  | some r =>
      obtain ⟨slot, value⟩ := r
      obtain ⟨hlen, hslots⟩ := remove_slots hremove hlive
      obtain ⟨hslot, -⟩ := slot_of_live hlive
      have hold : old = some value := by
        rw [SlotTable.remove, hlive] at hremove
        dsimp only at hremove
        split at hremove
        · simp at hremove
        · simp only [HookResult.ok.injEq, Prod.mk.injEq] at hremove
          exact hremove.1.symm
      refine ⟨hlen.symm, ?_, ?_, get_write_slot hslot hslots (.inr rfl)⟩
      · rw [hold, get_eq_some.mpr hslot]
      · simp [hold]

/-- What `get_mut` finds, and what overwriting it does. -/
theorem write_effect (t : SlotTable T) (key : SlotKey) (value : T) :
    match t.write key value with
    | some t' => (t.get key).isSome ∧ t.slots.length = t'.slots.length ∧
        t'.get = Function.update t.get key (some value)
    | none => t.get key = none := by
  cases hwrite : t.write key value with
  | none => exact live_eq_none.mp (Option.map_eq_none_iff.mp hwrite)
  | some t' =>
      obtain ⟨⟨old, hold⟩, hlen, hslots⟩ := write_slots hwrite
      exact ⟨by simp [get_eq_some.mpr hold], hlen.symm, get_write_slot hold hslots (.inl rfl)⟩

/-- A slot after `iter_mut`. -/
theorem getElem?_iterMut (t : SlotTable T) (edit : ℕ → T → T) (k : ℕ) :
    (t.iterMut edit).2.slots[k]? = (t.slots[k]?).map fun slot => Slot.edit slot (edit k) :=
  List.getElem?_mapIdx

/-- Overwriting values through `iter_mut` keeps the table well formed. -/
theorem Wf.iterMut (h : t.Wf) (edit : ℕ → T → T) : (t.iterMut edit).2.Wf := by
  refine ⟨h.nodup, fun i => ?_, ?_⟩
  · change i ∈ t.free ↔ _
    rw [h.vacant, getElem?_iterMut]
    cases t.slots[i]? <;> simp [Slot.edit]
  · -- which slots have a value is as before
    have hsame : (t.iterMut edit).2.slots.map (·.value.isSome) =
        t.slots.map (·.value.isSome) := by
      refine List.ext_getElem? fun k => ?_
      rw [List.getElem?_map, getElem?_iterMut, List.getElem?_map, Option.map_map]
      cases t.slots[k]? <;> simp [Slot.edit]
    have hcount : ∀ slots : List (Slot T), slots.countP (·.value.isSome) =
        (slots.map (·.value.isSome)).countP id := by
      intro slots
      rw [List.countP_map]
      rfl
    change t.len = _
    rw [hcount, hsame, ← hcount, h.count]

/-- What `iter_mut` does. -/
theorem get_iterMut (t : SlotTable T) (edit : ℕ → T → T) :
    (t.iterMut edit).2.get = fun key => (t.get key).map (edit key.index.toNat) := by
  funext key
  rw [get_eq, get_eq, getElem?_iterMut]
  cases t.slots[key.index.toNat]? with
  | none => rfl
  | some slot =>
      simp only [Option.map_some, Option.bind_some, Slot.edit]
      split <;> rfl

/-- No key reads anything in a table that was cleared. -/
theorem get_clearReuse (t : SlotTable T) : t.clearReuse.get = fun _ => none := by
  funext key
  rw [Option.eq_none_iff_forall_ne_some]
  intro value hget
  obtain ⟨slot, -, hslot⟩ := Option.map_eq_some_iff.mp
    ((List.getElem?_map ..).symm.trans (get_eq_some.mp hget))
  simpa [hslot] using Slot.value_vacate slot

/-- **What an operation does to the map of a table.** None panics. -/
theorem step_effect (h : t.Wf) (op : TableOp T) :
    ∃ ret t', t.step op = .ok (ret, t') ∧ t'.Wf ∧ t.slots.length ≤ t'.slots.length ∧
      (t'.Fits → t.Effect op ret t') := by
  cases op with
  | insert value =>
      obtain ⟨key, t', hinsert, hwf⟩ := h.insert value
      obtain ⟨-, -, -, -, hlen, -⟩ := h.insert_slots hinsert
      exact ⟨.key key, t', by simp [step, hinsert], hwf, hlen, h.get_insert hinsert⟩
  | remove key =>
      obtain ⟨old, t', hremove, hwf⟩ := h.remove key
      obtain ⟨hlen, heffect⟩ := remove_effect hremove
      exact ⟨.value old, t', by simp [step, hremove], hwf, Nat.le_of_eq hlen, fun _ => heffect⟩
  | write key value =>
      have heffect := t.write_effect key value
      cases hwrite : t.write key value with
      | none =>
          rw [hwrite] at heffect
          exact ⟨.found false, t, by simp [step, hwrite], h, Nat.le_refl _,
            fun _ => ⟨by simp [heffect], rfl⟩⟩
      | some t' =>
          rw [hwrite] at heffect
          obtain ⟨hsome, hlen, hget⟩ := heffect
          exact ⟨.found true, t', by simp [step, hwrite], h.write hwrite, Nat.le_of_eq hlen,
            fun _ => ⟨hsome.symm, hget⟩⟩
  | iterMut edit =>
      exact ⟨.items (t.iterMut edit).1, (t.iterMut edit).2, rfl, h.iterMut edit,
        by simp [SlotTable.iterMut], fun _ => ⟨rfl, t.get_iterMut edit⟩⟩
  | clearReuse =>
      exact ⟨.unit, t.clearReuse, rfl, wf_clearReuse t, by simp [clearReuse],
        fun _ => t.get_clearReuse⟩

/-! ### Iterating -/

/-- **Iterating visits the map.** -/
theorem mem_iter (hfit : t.Fits) {key : SlotKey} {value : T} :
    (key, value) ∈ t.iter ↔ t.get key = some value := by
  rw [iter, List.mem_filterMap, get_eq_some]
  constructor
  · rintro ⟨⟨slot, i⟩, hmem, hitem⟩
    have hslot := List.mk_mem_zipIdx_iff_getElem?.mp hmem
    obtain ⟨value', hvalue, heq⟩ := Option.map_eq_some_iff.mp hitem
    obtain ⟨rfl, rfl⟩ := Prod.mk.inj heq
    rw [toNat_index hfit hslot, hslot, ← hvalue]
  · intro hslot
    exact ⟨(_, key.index.toNat), List.mk_mem_zipIdx_iff_getElem?.mpr hslot, by simp [Slot.item]⟩

/-- Iterating visits each live slot once. -/
theorem length_iter (t : SlotTable T) : t.iter.length = t.slots.countP (·.value.isSome) := by
  have hitem : (fun entry : Slot T × ℕ => (Slot.item entry.1 entry.2).isSome) =
      (fun slot : Slot T => slot.value.isSome) ∘ Prod.fst := by
    funext entry
    simp [Slot.item]
  rw [iter, List.length_filterMap_eq_countP, hitem, ← List.countP_map, List.zipIdx_map_fst]

/-- No key is visited twice. -/
theorem nodup_iter (hfit : t.Fits) : (t.iter.map (·.1)).Nodup := by
  have hindices : t.slots.zipIdx.Pairwise fun a b => a.2 ≠ b.2 := by
    have hnd : (t.slots.zipIdx.map Prod.snd).Nodup := by
      rw [List.zipIdx_map_snd]
      exact List.nodup_range'
    exact List.pairwise_map.mp hnd
  rw [List.Nodup, List.pairwise_map, iter, List.pairwise_filterMap]
  refine hindices.imp_of_mem ?_
  rintro ⟨slot, i⟩ ⟨slot', i'⟩ hmem hmem' hne ⟨key, value⟩ hitem ⟨key', value'⟩ hitem' rfl
  obtain ⟨_, -, heq⟩ := Option.map_eq_some_iff.mp hitem
  obtain ⟨_, -, heq'⟩ := Option.map_eq_some_iff.mp hitem'
  -- the indices fit in the keys
  have hi := toNat_index hfit (List.mk_mem_zipIdx_iff_getElem?.mp hmem)
  have hi' := toNat_index hfit (List.mk_mem_zipIdx_iff_getElem?.mp hmem')
  have hkey : UInt32.ofNat i = UInt32.ofNat i' :=
    (congrArg SlotKey.index (Prod.mk.inj heq).1).trans
      (congrArg SlotKey.index (Prod.mk.inj heq').1).symm
  exact hne (hi.symm.trans ((congrArg UInt32.toNat hkey).trans hi'))

/-- A well-formed table is sound as long as its slots fit. -/
theorem Wf.sound (h : t.Wf) (hfit : t.Fits) : t.Sound :=
  ⟨h, nodup_iter hfit, fun _ _ => mem_iter hfit, by rw [length_iter, h.count]⟩

/-! ### Whole runs -/

/-- Operations never panic, and the table has at least as many slots after them. -/
theorem replay_wf (h : t.Wf) (ops : List (TableOp T)) :
    ∃ t', t.replay ops = .ok t' ∧ t'.Wf ∧ t.slots.length ≤ t'.slots.length := by
  induction ops generalizing t with
  | nil => exact ⟨t, rfl, h, Nat.le_refl _⟩
  | cons op ops ih =>
      obtain ⟨ret, t₁, hstep, hwf₁, hlen₁, -⟩ := step_effect h op
      obtain ⟨t', hrun, hwf, hlen⟩ := ih hwf₁
      exact ⟨t', by simp only [replay, hstep, HookResult.ok_bind, hrun], hwf,
        Nat.le_trans hlen₁ hlen⟩

/-- Operations after operations. -/
theorem replay_append (t : SlotTable T) (ops more : List (TableOp T)) :
    t.replay (ops ++ more) = t.replay ops >>= fun t' => t'.replay more := by
  induction ops generalizing t with
  | nil => rfl
  | cons op ops ih =>
      rw [List.cons_append, replay, replay]
      cases t.step op with
      | ok r => simp only [HookResult.ok_bind, ih]
      | err e => rfl
      | panicked => rfl

/-- What an operation on other keys does to a live key. -/
theorem Effect.get {op : TableOp T} {ret : TableReturn T} (h : t.Effect op ret t')
    {key : SlotKey} {value : T} (hget : t.get key = some value)
    (hremove : op ≠ .remove key) (hclear : op ≠ .clearReuse) :
    t'.get key = some (lastWritten key value op) := by
  cases op with
  | insert new =>
      cases ret with
      | key key' =>
          obtain ⟨hfresh, heq⟩ := h
          have hne : key ≠ key' := by
            rintro rfl
            simp [hfresh] at hget
          rw [heq, Function.update_of_ne hne, hget]
          rfl
      | _ => exact h.elim
  | remove key' =>
      cases ret with
      | value old =>
          obtain ⟨-, -, heq⟩ := h
          have hne : key ≠ key' := by
            rintro rfl
            exact hremove rfl
          rw [heq, Function.update_of_ne hne, hget]
          rfl
      | _ => exact h.elim
  | write key' new =>
      cases ret with
      | found found =>
          obtain ⟨rfl, heq⟩ := h
          rw [heq]
          by_cases hkey : key' = key
          · subst hkey
            simp [hget, lastWritten]
          · rw [lastWritten, if_neg hkey]
            split
            · rw [Function.update_of_ne (Ne.symm hkey), hget]
            · exact hget
      | _ => exact h.elim
  | iterMut edit =>
      cases ret with
      | items items =>
          obtain ⟨-, heq⟩ := h
          rw [heq]
          beta_reduce
          rw [hget]
          rfl
      | _ => exact h.elim
  | clearReuse => exact absurd rfl hclear

/-- **A live key reads back the value that was last written to it**, whatever is done through
other keys. -/
theorem get_replay (h : t.Wf) {ops : List (TableOp T)} (hrun : t.replay ops = .ok t')
    (hfit : t'.Fits) {key : SlotKey} {value : T} (hget : t.get key = some value)
    (hops : ∀ op ∈ ops, op ≠ .remove key ∧ op ≠ .clearReuse) :
    t'.get key = some (ops.foldl (lastWritten key) value) := by
  induction ops generalizing t value with
  | nil =>
      obtain rfl := HookResult.ok.inj hrun
      exact hget
  | cons op ops ih =>
      rw [List.forall_mem_cons] at hops
      obtain ⟨⟨hremove, hclear⟩, hops⟩ := hops
      obtain ⟨ret, t₁, hstep, hwf₁, -, heffect⟩ := step_effect h op
      rw [replay, hstep, HookResult.ok_bind] at hrun
      obtain ⟨t₂, hrun₂, -, hlen⟩ := replay_wf hwf₁ ops
      obtain rfl := HookResult.ok.inj (hrun₂.symm.trans hrun)
      have hget₁ := (heffect (Nat.le_trans hlen hfit)).get hget hremove hclear
      exact ih hwf₁ hrun hget₁ hops

/-- **Every run of a slot table.** No operation panics. While there are at most `2 ^ 32` slots
the table is sound, every operation does to the map what its name says, and a key that
`insert` returned reads back what was inserted or last written until it is removed or the
table is cleared. -/
theorem slot_table_sound (ops : List (TableOp T)) :
    ∃ t : SlotTable T, replay {} ops = .ok t ∧
      (t.Fits → t.Sound) ∧
      (∀ op, ∃ ret t', t.step op = .ok (ret, t') ∧ (t'.Fits → t'.Sound ∧ t.Effect op ret t')) ∧
      (t.Fits → ∀ done value more, ops = done ++ .insert value :: more →
        ∃ s key s', replay {} done = .ok s ∧ s.insert value = .ok (key, s') ∧
          ((∀ op ∈ more, op ≠ .remove key ∧ op ≠ .clearReuse) →
            t.get key = some (more.foldl (lastWritten key) value))) := by
  obtain ⟨t, hrun, hwf, -⟩ := replay_wf (wf_default (T := T)) ops
  refine ⟨t, hrun, hwf.sound, fun op => ?_, ?_⟩
  · obtain ⟨ret, t', hstep, hwf', -, heffect⟩ := step_effect hwf op
    exact ⟨ret, t', hstep, fun hfit => ⟨hwf'.sound hfit, heffect hfit⟩⟩
  · rintro hfit done value more rfl
    obtain ⟨s, hdone, hwfs, -⟩ := replay_wf (wf_default (T := T)) done
    obtain ⟨key, s', hinsert, hwf'⟩ := hwfs.insert value
    refine ⟨s, key, s', hdone, hinsert, fun hmore => ?_⟩
    rw [replay_append, hdone, HookResult.ok_bind, replay, step, hinsert] at hrun
    simp only [HookResult.ok_bind, HookResult.pure_eq] at hrun
    obtain ⟨t₂, hrun₂, -, hlen⟩ := replay_wf hwf' more
    obtain rfl := HookResult.ok.inj (hrun₂.symm.trans hrun)
    have hget : s'.get key = some value := by
      rw [(hwfs.get_insert hinsert (Nat.le_trans hlen hfit)).2, Function.update_self]
    exact get_replay hwf' hrun hfit hget hmore

end SlotTable

end Braids
