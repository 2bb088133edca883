import Braids.FastNoise.Layout
import Mathlib.Data.Set.Function

/-!
# The State as a Map

A planner state keeps its nodes in a slot table, under keys that a hash map has for their
ids. Both are in step: `InStep` says that an id has a key just when the table stores a node
with that id under it. So the state stands for a map from ids to nodes, and every operation
does to the map what its name says.

## Main result

* `state_refines_map`: any sequence of operations replays on a plain map.
-/

namespace Braids

/-! ### The plain map -/

/-- A graph as a map from ids to nodes. -/
structure GraphMap where
  dimension : GraphDimension
  finalField : String
  nodes : String → Option NodeSpec

/-- What is done to a state after `from_spec`. -/
inductive StateOp
  | reset (spec : FastNoiseGraphSpec)
  | change (change : FastNoiseChange)
  deriving Repr

namespace GraphMap

/-- The node takes the place of the one with its id. -/
def upsert (map : GraphMap) (node : NodeSpec) : GraphMap :=
  { map with nodes := Function.update map.nodes node.id (some node) }

/-- The nodes of the specification, the last of those with the same id. -/
def ofSpec (spec : FastNoiseGraphSpec) : GraphMap :=
  spec.nodes.foldl upsert ⟨spec.dimension, spec.finalField, fun _ => none⟩

/-- One operation. -/
def step (map : GraphMap) : StateOp → GraphMap
  | .reset spec => ofSpec spec
  | .change (.upsertNode node) => map.upsert node
  | .change (.removeNode id) => { map with nodes := Function.update map.nodes id none }
  | .change (.setFinalField id) => { map with finalField := id }

/-- Some operations. -/
def replay (map : GraphMap) (ops : List StateOp) : GraphMap := ops.foldl step map

end GraphMap

namespace FastNoiseState

/-- One operation on a state. -/
def step (state : FastNoiseState) : StateOp → HookResult FastNoiseState
  | .reset spec => state.resetFromSpec spec
  | .change change => state.applyChange change

/-- Some operations on a state. -/
def replay (state : FastNoiseState) : List StateOp → HookResult FastNoiseState
  | [] => .ok state
  | op :: ops => do
      let state ← state.step op
      state.replay ops

/-- The node that is read back for an id. -/
def get (state : FastNoiseState) (id : String) : Option NodeSpec :=
  (state.nodeKeys id).bind fun key => (state.nodes.live key).map (·.2)

/-- The map that a state stands for. -/
def toMap (state : FastNoiseState) : GraphMap := ⟨state.dimension, state.finalField, state.get⟩

end FastNoiseState

/-! ### Keys in step with the table -/

namespace FastNoiseState

open SlotTable

variable {state state' : FastNoiseState}

/-- An id has a key just when the table stores a node with that id under it. -/
structure InStep (state : FastNoiseState) : Prop where
  wf : state.nodes.Wf
  keys : ∀ id key, state.nodeKeys id = some key ↔
    ∃ (i : ℕ) (g : UInt32) (node : NodeSpec),
      state.nodes.slots[i]? = some ⟨g, some node⟩ ∧ node.id = id ∧ key = ⟨.ofNat i, g⟩

/-- The slots have indices that fit in a key. -/
def Fits (state : FastNoiseState) : Prop := state.nodes.slots.length ≤ 2 ^ 32

/-- Nodes with the same id are in the same slot. -/
theorem InStep.slot_unique (h : state.InStep) (hfit : state.Fits) {i i' : ℕ} {g g' : UInt32}
    {node node' : NodeSpec} (hi : state.nodes.slots[i]? = some ⟨g, some node⟩)
    (hi' : state.nodes.slots[i']? = some ⟨g', some node'⟩) (hid : node.id = node'.id) :
    i = i' := by
  have hkey := (h.keys node.id _).mpr ⟨i, g, node, hi, rfl, rfl⟩
  have hkey' := (h.keys node.id _).mpr ⟨i', g', node', hi', hid.symm, rfl⟩
  rw [hkey] at hkey'
  simp only [Option.some.injEq, SlotKey.mk.injEq] at hkey'
  rw [← toNat_index hfit hi, hkey'.1, toNat_index hfit hi']

/-- The node that is read back for an id is the one that is stored with that id. -/
theorem InStep.get_eq_some (h : state.InStep) (hfit : state.Fits) {id : String}
    {node : NodeSpec} :
    state.get id = some node ↔
      node.id = id ∧ ∃ (i : ℕ) (g : UInt32), state.nodes.slots[i]? = some ⟨g, some node⟩ := by
  constructor
  · intro hget
    obtain ⟨key, hkey, hlive⟩ := Option.bind_eq_some_iff.mp hget
    obtain ⟨⟨slot, node'⟩, hslot, rfl⟩ := Option.map_eq_some_iff.mp hlive
    obtain ⟨i, g, node₁, hi, hid, rfl⟩ := (h.keys id key).mp hkey
    rw [live_of_slot hfit hi] at hslot
    simp only [Option.some.injEq, Prod.mk.injEq] at hslot
    obtain ⟨-, rfl⟩ := hslot
    exact ⟨hid, i, g, hi⟩
  · rintro ⟨rfl, i, g, hi⟩
    rw [get, (h.keys node.id _).mpr ⟨i, g, node, hi, rfl, rfl⟩, Option.bind_some,
      live_of_slot hfit hi, Option.map_some]

/-- A node is written to a slot: to that of its id, or to a vacant one if its id has none. -/
theorem InStep.put (h : state.InStep) (hfit : state.Fits) (hwf' : state'.nodes.Wf)
    (hfit' : state'.Fits) {i : ℕ} {g : UInt32} {node : NodeSpec}
    (hslots : ∀ k, state'.nodes.slots[k]? =
      if i = k then some ⟨g, some node⟩ else state.nodes.slots[k]?)
    (hkeys : ∀ id, state'.nodeKeys id =
      if id = node.id then some ⟨.ofNat i, g⟩ else state.nodeKeys id)
    (hold : ∀ (g' : UInt32) (old : NodeSpec),
      state.nodes.slots[i]? = some ⟨g', some old⟩ → old.id = node.id)
    (hother : ∀ (k : ℕ) (g' : UInt32) (old : NodeSpec),
      state.nodes.slots[k]? = some ⟨g', some old⟩ → old.id = node.id → k = i) :
    state'.InStep ∧ state'.get = Function.update state.get node.id (some node) := by
  have hstep : state'.InStep := by
    refine ⟨hwf', fun id key => ?_⟩
    rw [hkeys]
    by_cases hid : id = node.id
    · rw [if_pos hid]
      constructor
      · rintro hkey
        obtain rfl := Option.some.inj hkey
        exact ⟨i, g, node, by rw [hslots, if_pos rfl], hid.symm, rfl⟩
      · rintro ⟨k, g', node', hk, hid', rfl⟩
        rw [hslots] at hk
        by_cases hik : i = k
        · rw [if_pos hik] at hk
          simp only [Option.some.injEq, Slot.mk.injEq] at hk
          rw [← hk.1, hik]
        · rw [if_neg hik] at hk
          exact absurd (hother k g' node' hk (hid'.trans hid)).symm hik
    · rw [if_neg hid, h.keys]
      constructor
      · rintro ⟨k, g', node', hk, hid', rfl⟩
        have hik : i ≠ k := by
          rintro rfl
          exact hid (hid'.symm.trans (hold g' node' hk))
        exact ⟨k, g', node', by rw [hslots, if_neg hik, hk], hid', rfl⟩
      · rintro ⟨k, g', node', hk, hid', rfl⟩
        rw [hslots] at hk
        by_cases hik : i = k
        · rw [if_pos hik] at hk
          simp only [Option.some.injEq, Slot.mk.injEq] at hk
          rw [← hk.2] at hid'
          exact absurd hid'.symm hid
        · rw [if_neg hik] at hk
          exact ⟨k, g', node', hk, hid', rfl⟩
  refine ⟨hstep, funext fun id => Option.ext fun node' => ?_⟩
  rw [hstep.get_eq_some hfit']
  by_cases hid : id = node.id
  · subst hid
    rw [Function.update_self, Option.some.injEq]
    constructor
    · rintro ⟨hid', k, g', hk⟩
      rw [hslots] at hk
      by_cases hik : i = k
      · rw [if_pos hik] at hk
        simp only [Option.some.injEq, Slot.mk.injEq] at hk
        exact hk.2
      · rw [if_neg hik] at hk
        exact absurd (hother k g' node' hk hid').symm hik
    · rintro rfl
      exact ⟨rfl, i, g, by rw [hslots, if_pos rfl]⟩
  · rw [Function.update_of_ne hid, h.get_eq_some hfit]
    refine and_congr_right fun hid' => exists_congr fun k => exists_congr fun g' => ?_
    rw [hslots]
    by_cases hik : i = k
    · subst hik
      rw [if_pos rfl]
      constructor
      · intro hk
        simp only [Option.some.injEq, Slot.mk.injEq] at hk
        rw [← hk.2] at hid'
        exact absurd hid'.symm hid
      · intro hk
        exact absurd (hid'.symm.trans (hold g' node' hk)) hid
    · rw [if_neg hik]

/-! ### Operations -/

/-- An upsert does not shrink the table. -/
theorem length_upsertNode (h : state.nodes.Wf) {node : NodeSpec}
    (hok : state.upsertNode node = .ok state') :
    state.nodes.slots.length ≤ state'.nodes.slots.length := by
  rw [FastNoiseState.upsertNode] at hok
  split at hok
  · next nodes hwrite =>
      obtain rfl := HookResult.ok.inj hok
      obtain ⟨key, -, hw⟩ := Option.bind_eq_some_iff.mp hwrite
      exact Nat.le_of_eq (write_slots hw).2.1.symm
  · obtain ⟨⟨key, nodes⟩, hinsert, heq⟩ := HookResult.bind_eq_ok.mp hok
    obtain rfl := HookResult.ok.inj heq
    obtain ⟨-, -, -, -, hlen, -⟩ := h.insert_slots hinsert
    exact hlen

/-- **An upsert** puts the node under its id. -/
theorem InStep.upsertNode (h : state.InStep) {node : NodeSpec}
    (hok : state.upsertNode node = .ok state') (hfit' : state'.Fits) :
    state'.InStep ∧ state'.toMap = state.toMap.upsert node := by
  have hfit : state.Fits := Nat.le_trans (length_upsertNode h.wf hok) hfit'
  obtain ⟨state₁, hok₁, hwf'⟩ := upsertNode_ok h.wf node
  obtain rfl := HookResult.ok.inj (hok₁.symm.trans hok)
  clear hok₁
  rw [FastNoiseState.upsertNode] at hok
  split at hok
  · next nodes hwrite =>
      -- the id has a key, and the node under it is overwritten
      obtain rfl := HookResult.ok.inj hok
      obtain ⟨key, hkey, hw⟩ := Option.bind_eq_some_iff.mp hwrite
      obtain ⟨i, g, old, hi, hid, rfl⟩ := (h.keys _ _).mp hkey
      have hslots := (write_slots hw).2.2
      have hindex := toNat_index hfit hi
      rw [hindex] at hslots
      have hkeys : ∀ id, state.nodeKeys id =
          if id = node.id then some ⟨.ofNat i, g⟩ else state.nodeKeys id := by
        intro id
        by_cases hid' : id = node.id
        · rw [if_pos hid', hid', hkey]
        · rw [if_neg hid']
      have hold : ∀ (g' : UInt32) (old' : NodeSpec),
          state.nodes.slots[i]? = some ⟨g', some old'⟩ → old'.id = node.id := by
        intro g' old' hold
        rw [hi] at hold
        simp only [Option.some.injEq, Slot.mk.injEq] at hold
        rw [← hold.2, hid]
      obtain ⟨hstep, hget⟩ := h.put hfit hwf' hfit' hslots hkeys hold
        fun k g' old' hold hid' => h.slot_unique hfit hold hi (hid'.trans hid.symm)
      exact ⟨hstep, by simp only [toMap, GraphMap.upsert, hget]⟩
  · next hnone =>
      -- the id has no key, and the node gets a slot
      obtain ⟨⟨key, nodes⟩, hinsert, heq⟩ := HookResult.bind_eq_ok.mp hok
      obtain rfl := HookResult.ok.inj heq
      obtain ⟨i, g, rfl, hvacant, -, hslots⟩ := h.wf.insert_slots hinsert
      have hnew : ∀ (k : ℕ) (g' : UInt32) (old : NodeSpec),
          state.nodes.slots[k]? = some ⟨g', some old⟩ → old.id ≠ node.id := by
        intro k g' old hold hid
        have hkey := (h.keys node.id _).mpr ⟨k, g', old, hold, hid, rfl⟩
        have hwrite : state.nodes.write ⟨.ofNat k, g'⟩ node = none := by
          rw [hkey, Option.bind_some] at hnone
          exact hnone
        rw [SlotTable.write, live_of_slot hfit hold] at hwrite
        simp at hwrite
      obtain ⟨hstep, hget⟩ := h.put hfit hwf' hfit' hslots (fun id => rfl)
        (fun g' old hold => absurd hold (hvacant g' old))
        (fun k g' old hold hid => absurd hid (hnew k g' old hold))
      exact ⟨hstep, by simp only [toMap, GraphMap.upsert, hget]⟩

/-- A removal keeps the size of the table. -/
theorem length_removeNode {id : String} (hok : state.removeNode id = .ok state') :
    state'.nodes.slots.length = state.nodes.slots.length := by
  rw [FastNoiseState.removeNode] at hok
  split at hok
  · obtain rfl := HookResult.ok.inj hok
    rfl
  · next key hkey =>
      obtain ⟨⟨value, nodes⟩, hremove, heq⟩ := HookResult.bind_eq_ok.mp hok
      obtain rfl := HookResult.ok.inj heq
      cases hlive : state.nodes.live key with
      | none =>
          simp only [SlotTable.remove, hlive, HookResult.ok.injEq, Prod.mk.injEq] at hremove
          rw [← hremove.2]
      | some r =>
          obtain ⟨slot, old⟩ := r
          exact (remove_slots hremove hlive).1

/-- **A removal** leaves no node under the id. -/
theorem InStep.removeNode (h : state.InStep) {id : String}
    (hok : state.removeNode id = .ok state') (hfit' : state'.Fits) :
    state'.InStep ∧ state'.get = Function.update state.get id none := by
  have hfit : state.Fits := by
    rw [Fits, ← length_removeNode hok]
    exact hfit'
  obtain ⟨state₁, hok₁, hwf'⟩ := removeNode_ok h.wf id
  obtain rfl := HookResult.ok.inj (hok₁.symm.trans hok)
  clear hok₁
  rw [FastNoiseState.removeNode] at hok
  split at hok
  · next hkey =>
      obtain rfl := HookResult.ok.inj hok
      refine ⟨h, (Function.update_eq_self_iff.mpr ?_).symm⟩
      rw [FastNoiseState.get, hkey, Option.bind_none]
  · next key hkey =>
      obtain ⟨⟨value, nodes⟩, hremove, heq⟩ := HookResult.bind_eq_ok.mp hok
      obtain rfl := HookResult.ok.inj heq
      obtain ⟨i, g, old, hi, hid, rfl⟩ := (h.keys id key).mp hkey
      have hslots := (remove_slots hremove (live_of_slot hfit hi)).2
      have hindex := toNat_index hfit hi
      rw [hindex] at hslots
      -- the other ids are those of the other slots
      have hstored : ∀ (id' : String) (k : ℕ) (g' : UInt32) (node : NodeSpec), node.id = id' →
          (nodes.slots[k]? = some ⟨g', some node⟩ ↔
            id' ≠ id ∧ state.nodes.slots[k]? = some ⟨g', some node⟩) := by
        intro id' k g' node hid'
        rw [hslots]
        by_cases hik : i = k
        · subst hik
          simp only [if_true, Option.some.injEq, Slot.mk.injEq, reduceCtorEq, and_false, hi,
            false_iff, not_and]
          rintro hne - rfl
          exact hne (hid'.symm.trans hid)
        · rw [if_neg hik]
          refine ⟨fun hk => ⟨fun heq => hik ?_, hk⟩, fun hk => hk.2⟩
          exact h.slot_unique hfit hi hk (hid.trans (hid'.trans heq).symm)
      have hstep : InStep { state with
          nodes, nodeKeys := fun id' => if id' = id then none else state.nodeKeys id' } := by
        refine ⟨hwf', fun id' key => ?_⟩
        by_cases hne : id' = id
        · simp only [if_pos hne, reduceCtorEq, false_iff]
          rintro ⟨k, g', node, hk, hid', -⟩
          exact ((hstored id' k g' node hid').mp hk).1 hne
        · simp only [if_neg hne]
          rw [h.keys]
          refine exists_congr fun k => exists_congr fun g' => exists_congr fun node => ?_
          constructor
          · rintro ⟨hk, hid', hkey'⟩
            exact ⟨(hstored id' k g' node hid').mpr ⟨hne, hk⟩, hid', hkey'⟩
          · rintro ⟨hk, hid', hkey'⟩
            exact ⟨((hstored id' k g' node hid').mp hk).2, hid', hkey'⟩
      refine ⟨hstep, funext fun id' => Option.ext fun node => ?_⟩
      rw [hstep.get_eq_some hfit']
      by_cases hne : id' = id
      · subst hne
        rw [Function.update_self]
        simp only [reduceCtorEq, iff_false, not_and, not_exists]
        intro hid' k g' hk
        exact ((hstored id' k g' node hid').mp hk).1 rfl
      · rw [Function.update_of_ne hne, h.get_eq_some hfit]
        refine and_congr_right fun hid' => exists_congr fun k => exists_congr fun g' => ?_
        rw [hstored id' k g' node hid']
        exact and_iff_right hne

/-- The loop of `reset_from_spec`. -/
theorem InStep.upsertNodes (nodes : List NodeSpec) (hwf : state.nodes.Wf) :
    ∃ state', state.upsertNodes nodes = .ok state' ∧ state'.nodes.Wf ∧
      state.nodes.slots.length ≤ state'.nodes.slots.length ∧
      (state.InStep → state'.Fits →
        state'.InStep ∧ state'.toMap = nodes.foldl GraphMap.upsert state.toMap) := by
  induction nodes generalizing state with
  | nil => exact ⟨state, rfl, hwf, Nat.le_refl _, fun h _ => ⟨h, rfl⟩⟩
  | cons node nodes ih =>
      obtain ⟨state₁, hfirst, hwf₁⟩ := upsertNode_ok hwf node
      obtain ⟨state', hrest, hwf', hlen, hspec⟩ := ih hwf₁
      refine ⟨state', by rw [FastNoiseState.upsertNodes, hfirst, HookResult.ok_bind, hrest], hwf',
        Nat.le_trans (length_upsertNode hwf hfirst) hlen, fun h hfit' => ?_⟩
      obtain ⟨h₁, hmap₁⟩ := h.upsertNode hfirst (Nat.le_trans hlen hfit')
      obtain ⟨h', hmap'⟩ := hspec h₁ hfit'
      exact ⟨h', by rw [hmap', hmap₁, List.foldl_cons]⟩

/-- **A reset** starts from no nodes, whatever the table holds. -/
theorem resetFromSpec_spec (state : FastNoiseState) (spec : FastNoiseGraphSpec) :
    ∃ state', state.resetFromSpec spec = .ok state' ∧ state'.nodes.Wf ∧
      state.nodes.slots.length ≤ state'.nodes.slots.length ∧
      (state'.Fits → state'.InStep ∧ state'.toMap = .ofSpec spec) := by
  let cleared : FastNoiseState :=
    ⟨spec.dimension, spec.finalField, state.nodes.clearReuse, fun _ => none⟩
  have hwf : cleared.nodes.Wf := wf_clearReuse state.nodes
  obtain ⟨state', hok, hwf', hlen, hspec⟩ := InStep.upsertNodes spec.nodes hwf
  have hcleared : ∀ (i : ℕ) (g : UInt32) (node : NodeSpec),
      state.nodes.clearReuse.slots[i]? ≠ some ⟨g, some node⟩ := by
    intro i g node hi
    have hmem : i ∈ state.nodes.clearReuse.free := by
      have hlt := (List.getElem?_eq_some_iff.mp hi).1
      simpa [clearReuse] using hlt
    obtain ⟨slot, hslot, hnone⟩ := ((wf_clearReuse state.nodes).vacant i).mp hmem
    obtain rfl := Option.some.inj (hi.symm.trans hslot)
    simp at hnone
  refine ⟨state', hok, hwf', by simpa [cleared, clearReuse] using hlen,
    fun hfit' => hspec ?_ hfit'⟩
  refine ⟨wf_clearReuse _, fun id key => ?_⟩
  simp only [reduceCtorEq, false_iff, not_exists, not_and]
  exact fun i g node hi => absurd hi (hcleared i g node)

/-- **One operation** does to the map what it does to the plain map. -/
theorem step_spec (hwf : state.nodes.Wf) (op : StateOp) :
    ∃ state', state.step op = .ok state' ∧ state'.nodes.Wf ∧
      state.nodes.slots.length ≤ state'.nodes.slots.length ∧
      (state.InStep → state'.Fits → state'.InStep ∧ state'.toMap = state.toMap.step op) := by
  cases op with
  | reset spec =>
      obtain ⟨state', hok, hwf', hlen, hspec⟩ := state.resetFromSpec_spec spec
      exact ⟨state', hok, hwf', hlen, fun _ => hspec⟩
  | change change =>
      cases change with
      | upsertNode node =>
          obtain ⟨state', hok, hwf'⟩ := upsertNode_ok hwf node
          exact ⟨state', hok, hwf', length_upsertNode hwf hok, fun h => h.upsertNode hok⟩
      | removeNode id =>
          obtain ⟨state', hok, hwf'⟩ := removeNode_ok hwf id
          refine ⟨state', hok, hwf', Nat.le_of_eq (length_removeNode hok).symm, fun h hfit' => ?_⟩
          obtain ⟨h', hget⟩ := h.removeNode hok hfit'
          refine ⟨h', ?_⟩
          have hsame : state'.dimension = state.dimension ∧
              state'.finalField = state.finalField := by
            rw [FastNoiseState.removeNode] at hok
            split at hok
            · obtain rfl := HookResult.ok.inj hok
              exact ⟨rfl, rfl⟩
            · obtain ⟨r, -, hr⟩ := HookResult.bind_eq_ok.mp hok
              obtain rfl := HookResult.ok.inj hr
              exact ⟨rfl, rfl⟩
          simp only [toMap, GraphMap.step, hget, hsame.1, hsame.2]
      | setFinalField id =>
          exact ⟨_, rfl, hwf, Nat.le_refl _, fun h _ => ⟨⟨h.wf, h.keys⟩, rfl⟩⟩

/-- Any number of operations. -/
theorem replay_spec (ops : List StateOp) (hwf : state.nodes.Wf) :
    ∃ state', state.replay ops = .ok state' ∧ state'.nodes.Wf ∧
      state.nodes.slots.length ≤ state'.nodes.slots.length ∧
      (state.InStep → state'.Fits → state'.InStep ∧ state'.toMap = state.toMap.replay ops) := by
  induction ops generalizing state with
  | nil => exact ⟨state, rfl, hwf, Nat.le_refl _, fun h _ => ⟨h, rfl⟩⟩
  | cons op ops ih =>
      obtain ⟨state₁, hfirst, hwf₁, hlen₁, hspec₁⟩ := step_spec hwf op
      obtain ⟨state', hrest, hwf', hlen, hspec⟩ := ih hwf₁
      refine ⟨state', by rw [replay, hfirst, HookResult.ok_bind, hrest], hwf',
        Nat.le_trans hlen₁ hlen, fun h hfit' => ?_⟩
      obtain ⟨h₁, hmap₁⟩ := hspec₁ h (Nat.le_trans hlen hfit')
      obtain ⟨h', hmap'⟩ := hspec h₁ hfit'
      exact ⟨h', by rw [hmap', hmap₁, GraphMap.replay, GraphMap.replay, List.foldl_cons]⟩

/-! ### What the compiler sees -/

/-- The table has a node among its values when one of its slots has. -/
theorem mem_values {t : SlotTable NodeSpec} {node : NodeSpec} :
    node ∈ t.values ↔ ∃ (i : ℕ) (g : UInt32), t.slots[i]? = some ⟨g, some node⟩ := by
  rw [values, List.mem_filterMap]
  constructor
  · rintro ⟨⟨g, value⟩, hmem, rfl⟩
    obtain ⟨i, hi⟩ := List.getElem?_of_mem hmem
    exact ⟨i, g, hi⟩
  · rintro ⟨i, g, hi⟩
    exact ⟨_, List.mem_of_getElem? hi, rfl⟩

/-- Live nodes have distinct ids. -/
theorem InStep.nodup_ids (h : state.InStep) (hfit : state.Fits) :
    (state.nodes.values.map NodeSpec.id).Nodup := by
  rw [List.Nodup, List.pairwise_map, values, List.pairwise_filterMap, List.pairwise_iff_getElem]
  intro i j hi hj hij node hnode node' hnode' hid
  have hslot : state.nodes.slots[i]? = some ⟨state.nodes.slots[i].generation, some node⟩ := by
    rw [List.getElem?_eq_getElem hi, ← hnode]
  have hslot' : state.nodes.slots[j]? = some ⟨state.nodes.slots[j].generation, some node'⟩ := by
    rw [List.getElem?_eq_getElem hj, ← hnode']
  exact absurd (h.slot_unique hfit hslot hslot' hid) (Nat.ne_of_lt hij)

/-- **An id is resolved** to the node that is stored for it. -/
theorem InStep.node?_eq_get (h : state.InStep) (hfit : state.Fits) (id : String) :
    state.node? id = state.get id := by
  refine Option.ext fun node => ?_
  rw [h.get_eq_some hfit, ← mem_values, node?]
  constructor
  · intro hfind
    have hid := List.find?_some hfind
    exact ⟨by simpa using hid, List.mem_reverse.mp (List.mem_of_find?_eq_some hfind)⟩
  · rintro ⟨rfl, hmem⟩
    obtain ⟨node', hfind⟩ : ∃ node',
        state.nodes.values.reverse.find? (fun other => decide (other.id = node.id)) =
          some node' := by
      rw [← Option.isSome_iff_exists, List.find?_isSome]
      exact ⟨node, List.mem_reverse.mpr hmem, by simp⟩
    have hid : node'.id = node.id := by simpa using List.find?_some hfind
    have hmem' := List.mem_reverse.mp (List.mem_of_find?_eq_some hfind)
    rw [hfind, List.inj_on_of_nodup_map (h.nodup_ids hfit) hmem' hmem hid]

/-- Ids and live keys are in bijection. -/
theorem InStep.bijOn (h : state.InStep) (hfit : state.Fits) :
    Set.BijOn state.nodeKeys {id | (state.nodeKeys id).isSome}
      {key | ∃ k, key = some k ∧ (state.nodes.live k).isSome} := by
  refine ⟨fun id hid => ?_, fun id hid id' hid' heq => ?_, ?_⟩
  · obtain ⟨key, hkey⟩ := Option.isSome_iff_exists.mp hid
    obtain ⟨i, g, node, hi, -, rfl⟩ := (h.keys id key).mp hkey
    exact ⟨_, hkey, by rw [live_of_slot hfit hi]; rfl⟩
  · obtain ⟨key, hkey⟩ := Option.isSome_iff_exists.mp hid
    obtain ⟨i, g, node, hi, rfl, rfl⟩ := (h.keys id key).mp hkey
    obtain ⟨i', g', node', hi', rfl, hkey'⟩ := (h.keys id' _).mp (heq ▸ hkey)
    simp only [SlotKey.mk.injEq] at hkey'
    obtain rfl : i = i' := by
      rw [← toNat_index hfit hi, hkey'.1, toNat_index hfit hi']
    rw [hi] at hi'
    simp only [Option.some.injEq, Slot.mk.injEq] at hi'
    rw [hi'.2]
  · rintro _ ⟨key, rfl, hlive⟩
    obtain ⟨⟨slot, node⟩, hlive⟩ := Option.isSome_iff_exists.mp hlive
    obtain ⟨hslot, -⟩ := slot_of_live hlive
    have hkey := (h.keys node.id key).mpr ⟨key.index.toNat, key.generation, node, hslot, rfl, by
      simp⟩
    exact ⟨node.id, by simp [hkey], hkey⟩

end FastNoiseState

/-- **A planner state is a map from ids to nodes.** Any sequence of operations succeeds, and
unless the table outgrows its keys, ids and live keys are in bijection, a key stands for a
node with its id, and the nodes read back are those of the same operations on a plain map.
The compiler sees each of them once, under its id. -/
theorem state_refines_map (spec : FastNoiseGraphSpec) (ops : List StateOp) :
    ∃ state, (FastNoiseState.fromSpec spec >>= fun state => state.replay ops) = .ok state ∧
      (state.nodes.slots.length ≤ 2 ^ 32 →
        Set.BijOn state.nodeKeys {id | (state.nodeKeys id).isSome}
          {key | ∃ k, key = some k ∧ (state.nodes.live k).isSome} ∧
        (∀ id key, state.nodeKeys id = some key →
          ∃ slot node, state.nodes.live key = some (slot, node) ∧ node.id = id) ∧
        state.toMap = (GraphMap.ofSpec spec).replay ops ∧
        ((CompileNodes.build state).nodes.map NodeSpec.id).Nodup ∧
        ∀ id, ((CompileNodes.build state).resolve id).bind ((CompileNodes.build state).nodes[·]?) =
          ((GraphMap.ofSpec spec).replay ops).nodes id) := by
  obtain ⟨state₀, hok₀, hwf₀, -, hspec₀⟩ := FastNoiseState.resetFromSpec_spec
    ⟨spec.dimension, spec.finalField, {}, fun _ => none⟩ spec
  obtain ⟨state, hok, -, hlen, hspec⟩ := FastNoiseState.replay_spec ops hwf₀
  have hrun : (FastNoiseState.fromSpec spec >>= fun state => state.replay ops) = .ok state := by
    rw [FastNoiseState.fromSpec, hok₀, HookResult.ok_bind, hok]
  refine ⟨state, hrun, fun hfit => ?_⟩
  obtain ⟨h₀, hmap₀⟩ := hspec₀ (Nat.le_trans hlen hfit)
  obtain ⟨h, hmap⟩ := hspec h₀ hfit
  rw [hmap₀] at hmap
  refine ⟨h.bijOn hfit, fun id key hkey => ?_, hmap, h.nodup_ids hfit, fun id => ?_⟩
  · obtain ⟨i, g, node, hi, hid, rfl⟩ := (h.keys id key).mp hkey
    exact ⟨_, node, SlotTable.live_of_slot hfit hi, hid⟩
  · have hget := CompileNodes.node?_eq state id
    rw [h.node?_eq_get hfit] at hget
    rw [← hmap]
    exact hget.symm

/-- A specification with a repeated id. -/
def repeatedSpec : FastNoiseGraphSpec where
  dimension := .d2
  finalField := "a"
  nodes := [.combine ⟨"a", ["b"], .add, []⟩, .combine ⟨"a", [], .mul, []⟩]

/-- A reset to it, and the node is removed and added again. -/
def readded : List StateOp :=
  [.reset repeatedSpec, .change (.removeNode "a"),
    .change (.upsertNode (.combine ⟨"a", [], .max, []⟩)), .change (.removeNode "c")]

/-- The node that was added last is read back. -/
theorem state_refines_map_readded :
    ∃ state, (FastNoiseState.fromSpec repeatedSpec >>= fun state => state.replay readded) =
        .ok state ∧ state.get "a" = some (.combine ⟨"a", [], .max, []⟩) := by
  obtain ⟨state, hrun, hspec⟩ := state_refines_map repeatedSpec readded
  have hlen : state.nodes.slots.length = 1 := by
    obtain rfl := HookResult.ok.inj hrun
    rfl
  obtain ⟨-, -, hmap, -⟩ := hspec (by rw [hlen]; decide)
  refine ⟨state, hrun, ?_⟩
  have hget : state.get "a" = ((GraphMap.ofSpec repeatedSpec).replay readded).nodes "a" := by
    rw [← hmap]
    rfl
  rw [hget]
  rfl

end Braids
