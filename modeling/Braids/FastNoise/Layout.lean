import Braids.FastNoise.Compile
import Mathlib.Algebra.GroupWithZero.Nat
import Mathlib.Data.List.Induction

/-!
# What the Compiler Lays Out

The handles of nodes, the references between nodes, and the slots that nodes get.

## Main results

* `node?_eq`: an id is resolved to the last node with that id.
* `collectDependencies_eq`: the dependencies of a node are what its references resolve to.
* `allocateAll_ok`, `allocateAll_fits`: the slots of the scheduled nodes are numbered one
  after another, and allocation succeeds as long as the counter does not overflow.
-/

namespace Braids

open Toposort

/-! ### Nodes and references -/

/-- The node that an id stands for: the last one in the order of the table. -/
def FastNoiseState.node? (state : FastNoiseState) (id : String) : Option NodeSpec :=
  state.nodes.values.reverse.find? fun node => node.id = id

/-- What a reference needs the node to be. -/
inductive Need
  | position (d : GraphDimension)
  | scalar
  deriving DecidableEq, Repr

/-- A node with that output is what the reference needs. -/
def Need.Met : Need → OutputKind → Prop
  | .position d, .position d' => d = d'
  | .scalar, .scalar _ => True
  | _, _ => False

instance (need : Need) (output : OutputKind) : Decidable (need.Met output) := by
  cases need <;> cases output <;> unfold Need.Met <;> infer_instance

/-- The reference of a position source. -/
def PositionSource.references (d : GraphDimension) : PositionSource → List (String × Need)
  | .base => []
  | .node id => [(id, .position d)]

/-- The references of a node. -/
def NodeSpec.references : NodeSpec → List (String × Need)
  | .warp2D node => node.source.references .d2
  | .warp3D node => node.source.references .d3
  | .sample2D node => node.source.references .d2
  | .sample3D node => node.source.references .d3
  | .combine node => node.inputs.map fun input => (input, .scalar)

namespace FastNoiseState

/-- The node that a reference stands for, if it is of the needed kind. -/
def lookup (state : FastNoiseState) (ref : String × Need) : Option NodeSpec :=
  (state.node? ref.1).filter fun node => ref.2.Met (node.outputKind state.dimension)

/-- A node refers to another by its id. -/
def DependsOn (state : FastNoiseState) (id id' : String) : Prop :=
  ∃ node need, state.node? id' = some node ∧ (id, need) ∈ node.references

/-- A reference stands for a node of the needed kind. -/
theorem lookup_eq_some {state : FastNoiseState} {ref : String × Need} {node : NodeSpec} :
    state.lookup ref = some node ↔
      state.node? ref.1 = some node ∧ ref.2.Met (node.outputKind state.dimension) := by
  simp [lookup, Option.filter_eq_some_iff]

end FastNoiseState

namespace CompileNodes

variable {state : FastNoiseState}

/-- Looking up an id finds the last node that has it. -/
theorem lookup_zipIdx (nodes : List NodeSpec) (id : String) :
    (∀ handle, (nodes.zipIdx.map fun (node, handle) => (node.id, handle)).reverse.lookup id =
        some handle → handle < nodes.length) ∧
      ((nodes.zipIdx.map fun (node, handle) => (node.id, handle)).reverse.lookup id).bind
        (nodes[·]?) = nodes.reverse.find? fun node => node.id = id := by
  induction nodes using List.reverseRecOn with
  | nil => simp
  | append_singleton nodes node ih =>
      obtain ⟨hlt, hfind⟩ := ih
      simp only [List.zipIdx_append, List.map_append, List.reverse_append, Nat.zero_add,
        List.zipIdx_cons, List.zipIdx_nil, List.map_cons, List.map_nil, List.reverse_cons,
        List.reverse_nil, List.nil_append, List.cons_append, List.lookup_cons]
      by_cases hid : node.id = id
      · simp [hid]
      · have hbeq : (id == node.id) = false := beq_eq_false_iff_ne.mpr (Ne.symm hid)
        simp only [hbeq, List.find?_cons, decide_eq_false hid]
        refine ⟨fun handle h => ?_, ?_⟩
        · rw [List.length_append]
          exact Nat.lt_add_right _ (hlt handle h)
        · rw [← hfind]
          cases hl :
              (nodes.zipIdx.map fun (node, handle) => (node.id, handle)).reverse.lookup id with
          | none => rfl
          | some handle => exact List.getElem?_append_left (hlt handle hl)

/-- Handles are positions in the list of nodes. -/
theorem lt_of_resolve {id : String} {handle : ℕ} (h : (build state).resolve id = some handle) :
    handle < (build state).len := (lookup_zipIdx state.nodes.values id).1 handle h

/-- **The node behind an id** is the one that its handle stands for. -/
theorem node?_eq (state : FastNoiseState) (id : String) :
    state.node? id = ((build state).resolve id).bind (state.nodes.values[·]?) :=
  (lookup_zipIdx state.nodes.values id).2.symm

/-- The handle of an id stands for the node that the id names. -/
theorem node?_of_resolve {id : String} {handle : ℕ}
    (hres : (build state).resolve id = some handle) :
    state.node? id = state.nodes.values[handle]? := by
  rw [node?_eq, hres, Option.bind_some]

/-- The node of a handle. -/
theorem node_eq_ok {graph : CompileNodes} {handle : ℕ} {node : NodeSpec} :
    graph.node handle = .ok node ↔ graph.nodes[handle]? = some node := by
  rw [CompileNodes.node]
  split
  · next h => simp [h]
  · next h => simp [h]

/-- The output of a handle is that of its node. -/
theorem output_eq_ok {handle : ℕ} {output : OutputKind} :
    (build state).output handle = .ok output ↔
      ∃ node, state.nodes.values[handle]? = some node ∧
        node.outputKind state.dimension = output := by
  have houtputs : (build state).outputs[handle]? =
      (state.nodes.values[handle]?).map (·.outputKind state.dimension) := List.getElem?_map
  rw [CompileNodes.output]
  rw [houtputs]
  cases state.nodes.values[handle]? <;> simp

/-- Resolving an id that is there. -/
theorem resolveNode_eq_ok {graph : CompileNodes} {id : String} {handle : ℕ} :
    graph.resolveNode id = .ok handle ↔ graph.resolve id = some handle := by
  rw [resolveNode]
  split
  · next h => simp [h]
  · next h => simp [h]

/-- The dependency of a position source. -/
theorem positionSourceDependency_eq (graph : CompileNodes) (d : GraphDimension)
    (source : PositionSource) : graph.positionSourceDependency source =
      HookResult.traverse graph.resolveNode ((source.references d).map (·.1)) := by
  cases source with
  | base => rfl
  | node id => cases h : graph.resolveNode id <;>
      simp [positionSourceDependency, PositionSource.references, HookResult.traverse, h]

/-- **The dependencies of a node** are what its references resolve to. -/
theorem collectDependencies_eq {graph : CompileNodes} {handle : ℕ} {node : NodeSpec}
    (h : graph.nodes[handle]? = some node) : graph.collectDependencies handle =
      HookResult.traverse graph.resolveNode (node.references.map (·.1)) := by
  rw [collectDependencies, node_eq_ok.mpr h, HookResult.ok_bind]
  cases node with
  | warp2D node => exact positionSourceDependency_eq graph .d2 node.source
  | warp3D node => exact positionSourceDependency_eq graph .d3 node.source
  | sample2D node => exact positionSourceDependency_eq graph .d2 node.source
  | sample3D node => exact positionSourceDependency_eq graph .d3 node.source
  | combine node => simp [NodeSpec.references, Function.comp_def]

end CompileNodes

/-! ### Slots -/

/-- The number of slots of an output. -/
def OutputKind.width : OutputKind → ℕ
  | .position d => d.size
  | .scalar _ => 1

/-- `count` slots, numbered from `start` on. -/
def numbered (start count : ℕ) : List BufferSlot :=
  (List.range' start count).map fun i => ⟨.ofNat i⟩

@[simp] theorem length_numbered (start count : ℕ) : (numbered start count).length = count := by
  simp [numbered]

/-- Numbering on. -/
theorem numbered_append (start a b : ℕ) :
    numbered start a ++ numbered (start + a) b = numbered start (a + b) := by
  rw [numbered, numbered, numbered, ← List.map_append, List.range'_append_1]

/-- Slots that were numbered below the end of the range. -/
theorem mem_numbered {start count : ℕ} (hle : start + count ≤ 2 ^ 16) {slot : BufferSlot}
    (h : slot ∈ numbered start count) : start ≤ slot.index := by
  obtain ⟨i, hi, rfl⟩ := List.mem_map.mp h
  obtain ⟨hstart, hlt⟩ := List.mem_range'_1.mp hi
  rw [BufferSlot.index, UInt16.toNat_ofNat_of_lt' (by change i < 2 ^ 16; omega)]
  exact hstart

/-- Slots that were numbered below the end of the range are distinct. -/
theorem nodup_numbered {start count : ℕ} (hle : start + count ≤ 2 ^ 16) :
    (numbered start count).Nodup := by
  refine List.Nodup.map_on ?_ List.nodup_range'
  intro a ha b hb heq
  have hlt : ∀ i ∈ List.range' start count, (UInt16.ofNat i).toNat = i := by
    intro i hi
    obtain ⟨-, hlt⟩ := List.mem_range'_1.mp hi
    exact UInt16.toNat_ofNat_of_lt' (by change i < 2 ^ 16; omega)
  have hnat := congrArg BufferSlot.index heq
  simpa only [BufferSlot.index, hlt a ha, hlt b hb] using hnat

/-- The counter wraps around as the slots do. -/
theorem ofNat_mod (k : ℕ) : UInt16.ofNat (k % 2 ^ 16) = UInt16.ofNat k := by
  rw [← UInt16.toNat_inj, UInt16.toNat_ofNat', UInt16.toNat_ofNat', Nat.mod_mod]

/-- The counter of slots overflows at `k`, and that is checked. -/
def Overflows (build : Build) (k : ℕ) : Prop := build.overflowChecks = true ∧ 2 ^ 16 ≤ k

instance (build : Build) (k : ℕ) : Decidable (Overflows build k) :=
  inferInstanceAs (Decidable (_ ∧ _))

/-- A counter that overflowed stays so. -/
theorem Overflows.mono {build : Build} {k k' : ℕ} (h : Overflows build k) (hle : k ≤ k') :
    Overflows build k' := ⟨h.1, Nat.le_trans h.2 hle⟩

/-- What the counter does when it is increased. -/
theorem unsigned_succ (build : Build) (k : ℕ) (hk : build.overflowChecks = true → k < 2 ^ 16) :
    build.unsigned (2 ^ 16) (k % 2 ^ 16 + 1) =
      if Overflows build (k + 1) then .panicked else .ok ((k + 1) % 2 ^ 16) := by
  rw [Build.unsigned]
  have hlt := Nat.mod_lt k (by decide : 0 < 2 ^ 16)
  cases hb : build.overflowChecks with
  | true =>
      have hmod := Nat.mod_eq_of_lt (hk hb)
      rw [hmod]
      by_cases hnext : k + 1 < 2 ^ 16
      · rw [if_pos hnext,
          if_neg (fun hover : Overflows build (k + 1) => by have := hover.2; omega),
          Nat.mod_eq_of_lt hnext]
      · rw [if_neg hnext, if_pos rfl, if_pos ⟨hb, by omega⟩]
  | false =>
      have hnot : ¬ Overflows build (k + 1) := fun hover => by simp [Overflows, hb] at hover
      rw [if_neg hnot]
      simp only [Bool.false_eq_true, if_false]
      split
      · congr 1
        omega
      · congr 1
        omega

/-- **Allocating slots**: they are numbered on, unless the counter overflows. -/
theorem allocateSlots_eq (build : Build) (n k : ℕ)
    (hk : build.overflowChecks = true → k < 2 ^ 16) :
    if Overflows build (k + n) then
      allocateSlots build n (k % 2 ^ 16) = .panicked
    else ∃ coords, allocateSlots build n (k % 2 ^ 16) = .ok (coords, (k + n) % 2 ^ 16) ∧
      coords.1 = numbered k n := by
  induction n generalizing k with
  | zero =>
      rw [if_neg (by rintro ⟨hb, hle⟩; exact absurd (hk hb) (by omega))]
      exact ⟨⟨[], rfl⟩, rfl, rfl⟩
  | succ n ih =>
      have hstep := unsigned_succ build k hk
      by_cases hover : Overflows build (k + 1)
      · rw [if_pos ⟨hover.1, by have := hover.2; omega⟩]
        rw [if_pos hover] at hstep
        simp [-Nat.reducePow, allocateSlots, allocateSlot, hstep]
      · rw [if_neg hover] at hstep
        have hk' : build.overflowChecks = true → k + 1 < 2 ^ 16 := by
          intro hb
          by_contra hle
          exact hover ⟨hb, by omega⟩
        have hrest := ih (k + 1) hk'
        have hadd : k + 1 + n = k + (n + 1) := by omega
        rw [hadd] at hrest
        by_cases hall : Overflows build (k + (n + 1))
        · rw [if_pos hall] at hrest ⊢
          simp [-Nat.reducePow, allocateSlots, allocateSlot, hstep, hrest]
        · rw [if_neg hall] at hrest ⊢
          obtain ⟨coords, hok, hcoords⟩ := hrest
          refine ⟨_, by simp only [allocateSlots, allocateSlot, hstep, HookResult.ok_bind,
            HookResult.pure_eq, hok]; rfl, ?_⟩
          change BufferSlot.mk (.ofNat (k % 2 ^ 16)) :: coords.1 = _
          rw [ofNat_mod, hcoords, numbered, numbered, List.range'_succ, List.map_cons]

/-- Allocating one slot. -/
theorem allocateSlot_eq (build : Build) (k : ℕ)
    (hk : build.overflowChecks = true → k < 2 ^ 16) :
    allocateSlot build (k % 2 ^ 16) =
      if Overflows build (k + 1) then .panicked else .ok (⟨.ofNat k⟩, (k + 1) % 2 ^ 16) := by
  rw [allocateSlot, unsigned_succ build k hk, ofNat_mod]
  split <;> rfl

/-! ### Allocation -/

namespace CompileSlots

variable {state : FastNoiseState} {slots slots' : CompileSlots}

/-- All slots of a node. -/
def coords (slots : CompileSlots) (handle : ℕ) : List BufferSlot :=
  (slots.positionSlots .d2 handle).elim [] (·.coords) ++
    ((slots.positionSlots .d3 handle).elim [] (·.coords) ++ (slots.scalarSlots handle).toList)

/-- The tables have slots for the nodes of `done`, of the kinds of their outputs. -/
structure Allocated (state : FastNoiseState) (done : List ℕ) (slots : CompileSlots) : Prop where
  position : ∀ d handle, (slots.positionSlots d handle).isSome = true ↔
    handle ∈ done ∧ (CompileNodes.build state).output handle = .ok (.position d)
  scalar : ∀ handle, (slots.scalarSlots handle).isSome = true ↔
    handle ∈ done ∧ ∃ d, (CompileNodes.build state).output handle = .ok (.scalar d)

/-- No node has slots before allocation. -/
theorem allocated_start (state : FastNoiseState) : Allocated state [] (start state.dimension) :=
  ⟨by simp [start], by simp [start]⟩

namespace Allocated

variable {done : List ℕ} {handle : ℕ}

/-- A node without slots. -/
theorem coords_eq_nil (h : Allocated state done slots) (hnot : handle ∉ done) :
    slots.positionSlots .d2 handle = none ∧ slots.positionSlots .d3 handle = none ∧
      slots.scalarSlots handle = none := by
  have hpos : ∀ d, slots.positionSlots d handle = none := by
    intro d
    rw [← Option.not_isSome_iff_eq_none, h.position]
    exact fun hmem => hnot hmem.1
  refine ⟨hpos .d2, hpos .d3, ?_⟩
  rw [← Option.not_isSome_iff_eq_none, h.scalar]
  exact fun hmem => hnot hmem.1

/-- The slots of a position. -/
theorem coords_position (h : Allocated state done slots) {d : GraphDimension}
    {coords : PositionSlots d} (hc : slots.positionSlots d handle = some coords) :
    slots.coords handle = coords.coords := by
  have hout := ((h.position d handle).mp (by simp [hc])).2
  have hscalar : slots.scalarSlots handle = none := by
    rw [← Option.not_isSome_iff_eq_none, h.scalar]
    rintro ⟨-, d', hd'⟩
    simp [hout] at hd'
  have hother : ∀ d', d' ≠ d → slots.positionSlots d' handle = none := by
    intro d' hne
    rw [← Option.not_isSome_iff_eq_none, h.position]
    rintro ⟨-, hd'⟩
    rw [hout] at hd'
    exact hne (OutputKind.position.inj (HookResult.ok.inj hd')).symm
  cases d with
  | d2 => simp [CompileSlots.coords, hc, hscalar, hother .d3 (by decide)]
  | d3 => simp [CompileSlots.coords, hc, hscalar, hother .d2 (by decide)]

/-- The slot of a scalar. -/
theorem coords_scalar (h : Allocated state done slots) {slot : BufferSlot}
    (hs : slots.scalarSlots handle = some slot) : slots.coords handle = [slot] := by
  obtain ⟨-, d, hout⟩ := (h.scalar handle).mp (by simp [hs])
  have hpos : ∀ d', slots.positionSlots d' handle = none := by
    intro d'
    rw [← Option.not_isSome_iff_eq_none, h.position]
    rintro ⟨-, hd'⟩
    simp [hout] at hd'
  simp [CompileSlots.coords, hs, hpos]

end Allocated

/-- The number of slots of a node. -/
def width (state : FastNoiseState) (handle : ℕ) : ℕ :=
  ((state.nodes.values[handle]?).map (·.outputKind state.dimension)).elim 0 OutputKind.width

/-- The number of slots of some nodes. -/
def totalWidth (state : FastNoiseState) (order : List ℕ) : ℕ := (order.map (width state)).sum

/-- The counter has come to `k`, without overflow if that is checked. -/
def Counted (build : Build) (k : ℕ) (slots : CompileSlots) : Prop :=
  slots.nextSlot = k % 2 ^ 16 ∧ (build.overflowChecks = true → k < 2 ^ 16)

/-- A counter that goes on without overflow. -/
theorem Counted.add {build : Build} {k n next : ℕ} (hover : ¬ Overflows build (k + n))
    (hnext : next = (k + n) % 2 ^ 16) {slots : CompileSlots} (hslots : slots.nextSlot = next) :
    Counted build (k + n) slots := by
  refine ⟨hslots.trans hnext, fun hb => ?_⟩
  by_contra hle
  exact hover ⟨hb, by omega⟩

/-- Slots for a position. -/
theorem Allocated.insertPosition {done : List ℕ} {handle : ℕ} {d : GraphDimension}
    (h : Allocated state done slots)
    (hout : (CompileNodes.build state).output handle = .ok (.position d))
    (coords : PositionSlots d) (nextSlot : ℕ) :
    Allocated state (done ++ [handle]) (slots.insertPosition d handle coords nextSlot) where
  position d' other := by
    by_cases hd : d' = d
    · subst hd
      by_cases ho : other = handle
      · simp [CompileSlots.insertPosition, ho, hout]
      · simp [CompileSlots.insertPosition, ho, h.position]
    · by_cases ho : other = handle
      · have hne : ¬ d = d' := fun heq => hd heq.symm
        simp [CompileSlots.insertPosition, ho, hd, hout, hne, h.position]
      · simp [CompileSlots.insertPosition, ho, hd, h.position]
  scalar other := by
    by_cases ho : other = handle
    · simp [CompileSlots.insertPosition, ho, h.scalar, hout]
    · simp [CompileSlots.insertPosition, ho, h.scalar]

/-- A slot for a scalar. -/
theorem Allocated.insertScalar {done : List ℕ} {handle : ℕ} {d : GraphDimension}
    (h : Allocated state done slots)
    (hout : (CompileNodes.build state).output handle = .ok (.scalar d)) (slot : BufferSlot)
    (nextSlot : ℕ) :
    Allocated state (done ++ [handle]) (slots.insertScalar handle slot nextSlot) where
  position d' other := by
    by_cases ho : other = handle
    · simp [CompileSlots.insertScalar, ho, h.position, hout]
    · simp [CompileSlots.insertScalar, ho, h.position]
  scalar other := by
    by_cases ho : other = handle
    · simp [CompileSlots.insertScalar, ho, hout]
    · simp [CompileSlots.insertScalar, ho, h.scalar]

/-- **The slots of one node** are numbered on, and those of other nodes stay. -/
theorem allocate_spec {build : Build} {done : List ℕ} {handle k : ℕ}
    (h : Allocated state done slots) (hk : Counted build k slots) (hnew : handle ∉ done)
    (hlt : handle < (CompileNodes.build state).len) :
    if Overflows build (k + width state handle) then
      slots.allocate build (.build state) handle = .panicked
    else ∃ slots', slots.allocate build (.build state) handle = .ok slots' ∧
      Allocated state (done ++ [handle]) slots' ∧ Counted build (k + width state handle) slots' ∧
      slots'.coords handle = numbered k (width state handle) ∧
      (∀ other ≠ handle, slots'.coords other = slots.coords other) ∧
      slots'.buffers = slots.buffers ++ (slots'.coords handle).map dynamicF32Buffer := by
  obtain ⟨hnext, hchecked⟩ := hk
  have hnode : state.nodes.values[handle]? = some state.nodes.values[handle] :=
    List.getElem?_eq_getElem hlt
  obtain ⟨hnone2, hnone3, hnone⟩ := h.coords_eq_nil hnew
  generalize hout : state.nodes.values[handle].outputKind state.dimension = output
  have houtput : (CompileNodes.build state).output handle = .ok output :=
    CompileNodes.output_eq_ok.mpr ⟨_, hnode, hout⟩
  have hwidth : width state handle = output.width := by simp [width, hnode, hout]
  rw [hwidth]
  cases output with
  | position d =>
      have halloc := allocateSlots_eq build d.size k hchecked
      rw [OutputKind.width]
      by_cases hover : Overflows build (k + d.size)
      · rw [if_pos hover] at halloc ⊢
        simp [-Nat.reducePow, allocate, houtput, allocatePositionSlots, hnext, halloc]
      · rw [if_neg hover] at halloc ⊢
        obtain ⟨coords, hok, hcoords⟩ := halloc
        have hall := h.insertPosition houtput ⟨coords.1, coords.2⟩ ((k + d.size) % 2 ^ 16)
        have hget : (slots.insertPosition d handle ⟨coords.1, coords.2⟩
            ((k + d.size) % 2 ^ 16)).positionSlots d handle = some ⟨coords.1, coords.2⟩ := by
          simp [insertPosition]
        have hat := hall.coords_position hget
        refine ⟨_, by simp only [allocate, houtput, HookResult.ok_bind, allocatePositionSlots,
          hnext, hok, HookResult.pure_eq], hall, .add hover rfl rfl, hat.trans hcoords,
          fun other hne => ?_, ?_⟩
        · cases d <;> simp [CompileSlots.coords, insertPosition, hne]
        · rw [hat]
          rfl
  | scalar d =>
      have halloc := allocateSlot_eq build k hchecked
      rw [OutputKind.width]
      by_cases hover : Overflows build (k + 1)
      · rw [if_pos hover] at halloc ⊢
        simp [-Nat.reducePow, allocate, houtput, hnext, halloc]
      · rw [if_neg hover] at halloc ⊢
        have hall := h.insertScalar houtput ⟨.ofNat k⟩ ((k + 1) % 2 ^ 16)
        have hget : (slots.insertScalar handle ⟨.ofNat k⟩ ((k + 1) % 2 ^ 16)).scalarSlots handle =
            some ⟨.ofNat k⟩ := by simp [insertScalar]
        have hat := hall.coords_scalar hget
        refine ⟨_, by simp only [allocate, houtput, HookResult.ok_bind, hnext, halloc,
          HookResult.pure_eq], hall, .add hover rfl rfl, hat, fun other hne => ?_, ?_⟩
        · simp [CompileSlots.coords, insertScalar, hne]
        · rw [hat]
          rfl

/-- **The slots of some nodes** are numbered one after another. -/
theorem allocateAll_spec {build : Build} {done order : List ℕ} {k : ℕ}
    (h : Allocated state done slots) (hk : Counted build k slots) (hnd : (done ++ order).Nodup)
    (hlt : ∀ handle ∈ order, handle < (CompileNodes.build state).len) :
    if Overflows build (k + totalWidth state order) then
      slots.allocateAll build (.build state) order = .panicked
    else ∃ slots', slots.allocateAll build (.build state) order = .ok slots' ∧
      Allocated state (done ++ order) slots' ∧
      order.flatMap slots'.coords = numbered k (totalWidth state order) ∧
      (∀ other ∉ order, slots'.coords other = slots.coords other) ∧
      slots'.buffers = slots.buffers ++ (order.flatMap slots'.coords).map dynamicF32Buffer := by
  induction order generalizing done slots k with
  | nil =>
      have hnot : ¬ Overflows build (k + totalWidth state []) := by
        rintro ⟨hb, hle⟩
        have hlt := hk.2 hb
        simp only [totalWidth, List.map_nil, List.sum_nil] at hle
        omega
      rw [if_neg hnot]
      exact ⟨slots, rfl, by simpa using h, rfl, fun _ _ => rfl, by simp⟩
  | cons handle order ih =>
      rw [List.append_cons] at hnd ⊢
      have hnew : handle ∉ done := by
        have hdone := hnd.of_append_left
        rw [List.nodup_append] at hdone
        exact fun hmem => hdone.2.2 handle hmem handle (by simp) rfl
      have hrest : handle ∉ order := by
        rw [List.nodup_append] at hnd
        exact fun hmem => hnd.2.2 handle (by simp) handle hmem rfl
      have hsum : k + totalWidth state (handle :: order) =
          k + width state handle + totalWidth state order := by
        simp only [totalWidth, List.map_cons, List.sum_cons]
        omega
      have hstep := allocate_spec h hk hnew (hlt handle List.mem_cons_self)
      rw [hsum]
      by_cases hover : Overflows build (k + width state handle)
      · rw [if_pos hover] at hstep
        rw [if_pos (hover.mono (by omega))]
        simp [allocateAll, hstep]
      · rw [if_neg hover] at hstep
        obtain ⟨slots₁, hok₁, hall₁, hk₁, hcoords₁, hother₁, hbuf₁⟩ := hstep
        have hmore := ih hall₁ hk₁ hnd fun a ha => hlt a (List.mem_cons_of_mem _ ha)
        by_cases hover' : Overflows build (k + width state handle + totalWidth state order)
        · rw [if_pos hover'] at hmore ⊢
          simp [allocateAll, hok₁, hmore]
        · rw [if_neg hover'] at hmore ⊢
          obtain ⟨slots', hok, hall, hcoords, hother, hbuf⟩ := hmore
          have hhandle := hother handle hrest
          refine ⟨slots', by simp [allocateAll, hok₁, hok], hall, ?_, fun other hne => ?_, ?_⟩
          · rw [List.flatMap_cons, hcoords, hhandle, hcoords₁, numbered_append]
            rfl
          · rw [List.mem_cons, not_or] at hne
            rw [hother other hne.2, hother₁ other hne.1]
          · rw [hbuf, hbuf₁, ← hhandle, List.flatMap_cons, List.map_append, List.append_assoc]

end CompileSlots

end Braids
