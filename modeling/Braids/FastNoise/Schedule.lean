import Braids.FastNoise.Compilation
import Mathlib.Algebra.BigOperators.Group.List.Basic
import Mathlib.Data.List.Pairwise

/-!
# Schedules

Which nodes a compilation schedules, which slots they get, and when there is a compilation.

## Main results

* `Collected.mem_toposort`: a node is scheduled unless it is on or behind a cycle.
* `Compilation.emits`: the kernel of a scheduled node, and the nodes that it reads.
* `Compilation.disjoint_coords`: the slots of scheduled nodes are distinct.
* `compileGraph_ok`: a well-formed graph whose slots fit compiles.
-/

namespace Braids

open Toposort CompileSlots

variable {build : Build} {state : FastNoiseState} {plan : CompiledPlan FastNoisePlannerMeta}

/-! ### Dependencies -/

/-- The dependencies of each node are the handles of its references. -/
def Collected (state : FastNoiseState) (deps : ℕ → List ℕ) : Prop :=
  ∀ handle node, state.nodes.values[handle]? = some node →
    List.Forall₂ (fun ref dep => (CompileNodes.build state).resolve ref.1 = some dep)
      node.references (deps handle)

/-- What `collect_dependencies` returns. -/
theorem collected_of_ok {deps : List (List ℕ)}
    (h : HookResult.traverse (CompileNodes.build state).collectDependencies
      (List.range (CompileNodes.build state).len) = .ok deps) :
    Collected state fun handle => deps.getD handle [] := by
  intro handle node hnode
  have hall := List.forall₂_iff_get.mp (HookResult.traverse_eq_ok.mp h)
  have hlt : handle < (CompileNodes.build state).len := (List.getElem?_eq_some_iff.mp hnode).1
  have hlt' : handle < deps.length := by
    rw [← hall.1, List.length_range]
    exact hlt
  have hget := hall.2 handle (by simpa using hlt) hlt'
  rw [List.get_eq_getElem, List.getElem_range, List.get_eq_getElem,
    CompileNodes.collectDependencies_eq hnode, HookResult.traverse_eq_ok,
    List.forall₂_map_left_iff] at hget
  have hdeps : deps.getD handle [] = deps[handle] := by simp [hlt']
  beta_reduce
  rw [hdeps]
  exact hget.imp fun _ _ hres => CompileNodes.resolveNode_eq_ok.mp hres

namespace Collected

variable {deps : ℕ → List ℕ} (h : Collected state deps)
include h

/-- Dependencies are nodes. -/
theorem lt {handle : ℕ} (hlt : handle < (CompileNodes.build state).len) :
    ∀ dep ∈ deps handle, dep < (CompileNodes.build state).len := by
  intro dep hdep
  have hall := h handle _ (List.getElem?_eq_getElem hlt)
  obtain ⟨ref, -, hres⟩ := Dataflow.exists_of_mem_right hall hdep
  exact CompileNodes.lt_of_resolve hres

/-- A node that is named by an accessible id is accessible. -/
theorem acc_of_id {id : String} (hacc : Acc state.DependsOn id) {handle : ℕ}
    (hres : (CompileNodes.build state).resolve id = some handle) : Acc (Dep deps) handle := by
  induction hacc generalizing handle with
  | intro id _ ih =>
      refine ⟨handle, fun dep hdep => ?_⟩
      have hlt := CompileNodes.lt_of_resolve hres
      have hnode := List.getElem?_eq_getElem hlt
      obtain ⟨ref, href, hdepres⟩ := Dataflow.exists_of_mem_right (h handle _ hnode) hdep
      exact ih ref.1 ⟨_, ref.2, (CompileNodes.node?_of_resolve hres).trans hnode, href⟩ hdepres

/-- The ids that an accessible node refers to are accessible. -/
theorem acc_id {handle : ℕ} (hacc : Acc (Dep deps) handle) {node : NodeSpec}
    (hnode : state.nodes.values[handle]? = some node) :
    ∀ ref ∈ node.references, Acc state.DependsOn ref.1 := by
  induction hacc generalizing node with
  | intro handle _ ih =>
      intro ref href
      obtain ⟨dep, hdep, hres⟩ := Dataflow.exists_of_mem_left (h handle node hnode) href
      refine ⟨ref.1, ?_⟩
      rintro id ⟨node', need, hnode', href'⟩
      rw [CompileNodes.node?_of_resolve hres] at hnode'
      exact ih dep hdep hnode' (id, need) href'

/-- **A node is scheduled** unless one of its references is on or behind a cycle. -/
theorem mem_toposort {handle : ℕ} {node : NodeSpec}
    (hnode : state.nodes.values[handle]? = some node) :
    handle ∈ toposort (CompileNodes.build state).len deps ↔
      ∀ ref ∈ node.references, Acc state.DependsOn ref.1 := by
  have hlt : handle < (CompileNodes.build state).len := (List.getElem?_eq_some_iff.mp hnode).1
  rw [Toposort.mem_toposort (fun a ha => h.lt ha) hlt]
  constructor
  · exact fun hacc => h.acc_id hacc hnode
  · intro hids
    refine ⟨handle, fun dep hdep => ?_⟩
    obtain ⟨ref, href, hres⟩ := Dataflow.exists_of_mem_right (h handle node hnode) hdep
    exact h.acc_of_id (hids ref href) hres

end Collected

/-! ### The parts of a compilation -/

namespace Compilation

variable (c : Compilation build state plan)

/-- The dependencies of a node. -/
def depsOf (handle : ℕ) : List ℕ := c.deps.getD handle []

/-- The schedule. -/
def order : List ℕ := toposort (CompileNodes.build state).len c.depsOf

theorem collectedDeps : Collected state c.depsOf := collected_of_ok c.collected

/-- Scheduled nodes are nodes. -/
theorem node_of_mem {handle : ℕ} (h : handle ∈ c.order) :
    ∃ node, state.nodes.values[handle]? = some node :=
  ⟨_, List.getElem?_eq_getElem (lt_of_mem_toposort h)⟩

/-- What allocation did: the slots are numbered from the start of the dynamic slots on. -/
theorem allocation :
    ¬ Overflows build (slotDynamicStart + totalWidth state c.order) ∧
      Allocated state c.order c.slots ∧
      c.order.flatMap c.slots.coords = numbered slotDynamicStart (totalWidth state c.order) ∧
      c.slots.buffers = queryBuffers state.dimension ++
        (c.order.flatMap c.slots.coords).map dynamicF32Buffer := by
  have hcounted : Counted build slotDynamicStart (start state.dimension) :=
    ⟨rfl, fun _ => by decide⟩
  have hnd : ([] ++ c.order).Nodup := nodup_toposort _ _
  have hspec := allocateAll_spec (allocated_start state) hcounted hnd
    fun handle hmem => lt_of_mem_toposort hmem
  have hok : (start state.dimension).allocateAll build (.build state) c.order = .ok c.slots :=
    c.allocated
  by_cases hover : Overflows build (slotDynamicStart + totalWidth state c.order)
  · rw [if_pos hover, hok] at hspec
    simp at hspec
  · rw [if_neg hover, hok] at hspec
    obtain ⟨slots', hslots, hall, hcoords, -, hbuffers⟩ := hspec
    obtain rfl := HookResult.ok.inj hslots
    exact ⟨hover, hall, hcoords, hbuffers⟩

/-- The payloads are those of the scheduled nodes. -/
theorem forall₂_payloads : List.Forall₂ (fun handle payload =>
    c.slots.payload (.build state) handle = .ok payload) c.order c.payloads :=
  HookResult.traverse_eq_ok.mp c.emitted

/-- **The kernel of a scheduled node**, and the nodes that it reads. -/
theorem emits {handle : ℕ} (h : handle ∈ c.order) {node : NodeSpec}
    (hnode : state.nodes.values[handle]? = some node) {payload : KernelPayload}
    (hpayload : c.slots.payload (.build state) handle = .ok payload) :
    Emits node ((c.depsOf handle).map c.slots.coords) (c.slots.coords handle) payload ∧
      List.Forall₂ (Found state c.order) node.references (c.depsOf handle) :=
  (payload_spec c.allocation.2.1 hnode h (c.collectedDeps handle node hnode)).1 payload hpayload

/-- The final field is a scheduled scalar. -/
theorem final_spec : c.final ∈ c.order ∧ c.slots.coords c.final = [c.finalSlot] ∧
    ∃ node, state.nodes.values[c.final]? = some node ∧
      state.lookup (state.finalField, .scalar) = some node := by
  have hslot := expectScalarSlot_eq_ok.mp c.finalized
  have hall := c.allocation.2.1
  obtain ⟨hmem, d, hout⟩ := (hall.scalar c.final).mp (by simp [hslot])
  have hres := CompileNodes.resolveNode_eq_ok.mp c.resolved
  have hfound := (found_iff c.order (state.finalField, .scalar) hres).mpr
    ⟨hmem, _, hout, trivial⟩
  exact ⟨hmem, hall.coords_scalar hslot, hfound.2⟩

/-! #### Slots -/

/-- The slots of the schedule fit the range of slots. -/
def Fits : Prop := slotDynamicStart + totalWidth state c.order ≤ 2 ^ 16

section Fits

variable (hfits : c.Fits)
include hfits

/-- The slots of a node are dynamic slots. -/
theorem le_of_mem_coords {handle : ℕ} (h : handle ∈ c.order) {slot : BufferSlot}
    (hslot : slot ∈ c.slots.coords handle) : slotDynamicStart ≤ slot.index := by
  obtain ⟨-, -, hcoords, -⟩ := c.allocation
  refine mem_numbered hfits ?_
  rw [← hcoords]
  exact List.mem_flatMap_of_mem h hslot

/-- No node has a slot twice. -/
theorem nodup_coords {handle : ℕ} (h : handle ∈ c.order) : (c.slots.coords handle).Nodup := by
  obtain ⟨-, -, hcoords, -⟩ := c.allocation
  have hnd := nodup_numbered hfits
  rw [← hcoords, List.nodup_flatMap] at hnd
  exact hnd.1 handle h

/-- **Different nodes have different slots.** -/
theorem disjoint_coords {a b : ℕ} (ha : a ∈ c.order) (hb : b ∈ c.order) (hne : a ≠ b) :
    List.Disjoint (c.slots.coords a) (c.slots.coords b) := by
  obtain ⟨-, -, hcoords, -⟩ := c.allocation
  have hnd := nodup_numbered hfits
  rw [← hcoords, List.nodup_flatMap] at hnd
  have hsymm : Std.Symm (Function.onFun List.Disjoint c.slots.coords) := 
    ⟨fun _ _ h _ ha hb => h hb ha⟩
  exact hnd.2.forall ha hb hne

end Fits

/-- **A valid plan has slots that fit**: a counter that wraps around comes to a slot that is
declared already. -/
theorem fits_of_validate (h : plan.validate = .ok ()) : c.Fits := by
  obtain ⟨-, -, hcoords, hbuffers⟩ := c.allocation
  have hnd := (CompiledPlan.validate_ok_iff.mp h).buffers
  by_contra hover
  have hover' : 2 ^ 16 < slotDynamicStart + totalWidth state c.order := by
    rw [Fits] at hover
    omega
  rw [c.plan_eq] at hnd
  change (c.slots.buffers.map (·.slot)).Nodup at hnd
  rw [hbuffers, List.map_append, List.nodup_append] at hnd
  have hwrapped : slotQueryMeta ∈
      ((c.order.flatMap c.slots.coords).map dynamicF32Buffer).map (·.slot) := by
    rw [hcoords, List.map_map]
    refine List.mem_map.mpr ⟨slotQueryMeta, ?_, rfl⟩
    refine List.mem_map.mpr ⟨2 ^ 16, ?_, by decide⟩
    rw [List.mem_range'_1]
    rw [slotDynamicStart] at hover' ⊢
    omega
  exact hnd.2.2 slotQueryMeta (by simp [queryBuffers]) slotQueryMeta hwrapped rfl

end Compilation

/-! ### Graphs that compile -/

namespace FastNoiseState

/-- Every reference of every node resolves. -/
def ReferencesResolve (state : FastNoiseState) : Prop :=
  ∀ node ∈ state.nodes.values, ∀ ref ∈ node.references,
    ((CompileNodes.build state).resolve ref.1).isSome

/-- A reference names a node of the needed kind that is not on or behind a cycle. -/
structure Resolves (state : FastNoiseState) (ref : String × Need) : Prop where
  found : ∃ node, state.lookup ref = some node
  acyclic : Acc state.DependsOn ref.1

/-- All references resolve, and the final field is a scalar. -/
structure WellFormed (state : FastNoiseState) : Prop where
  references : ∀ node ∈ state.nodes.values, ∀ ref ∈ node.references, state.Resolves ref
  final : state.Resolves (state.finalField, .scalar)

/-- The number of slots that the nodes need. -/
def slotCount (state : FastNoiseState) : ℕ :=
  (state.nodes.values.map fun node => (node.outputKind state.dimension).width).sum

end FastNoiseState

/-- A loop returns when its calls do. -/
theorem HookResult.exists_traverse {α β : Type} {f : α → HookResult β} {l : List α}
    (h : ∀ a ∈ l, ∃ b, f a = .ok b) : ∃ bs, HookResult.traverse f l = .ok bs := by
  induction l with
  | nil => exact ⟨[], rfl⟩
  | cons a l ih =>
      obtain ⟨b, hb⟩ := h a List.mem_cons_self
      obtain ⟨bs, hbs⟩ := ih fun x hx => h x (List.mem_cons_of_mem _ hx)
      exact ⟨b :: bs, by rw [HookResult.traverse, hb, HookResult.ok_bind, hbs]; rfl⟩

/-- An id that names a node has a handle. -/
theorem CompileNodes.exists_resolve {id : String} {node : NodeSpec}
    (h : state.node? id = some node) :
    ∃ handle, (CompileNodes.build state).resolve id = some handle := by
  rw [CompileNodes.node?_eq] at h
  obtain ⟨handle, hres, -⟩ := Option.bind_eq_some_iff.mp h
  exact ⟨handle, hres⟩

/-- The dependencies of nodes whose references resolve are collected. -/
theorem FastNoiseState.ReferencesResolve.exists_deps (h : state.ReferencesResolve) :
    ∃ deps, HookResult.traverse (CompileNodes.build state).collectDependencies
      (List.range (CompileNodes.build state).len) = .ok deps := by
  refine HookResult.exists_traverse fun handle hhandle => ?_
  have hnode := List.getElem?_eq_getElem (List.mem_range.mp hhandle)
  rw [CompileNodes.collectDependencies_eq hnode]
  refine HookResult.exists_traverse fun id hid => ?_
  obtain ⟨ref, href, rfl⟩ := List.mem_map.mp hid
  obtain ⟨dep, hres⟩ := Option.isSome_iff_exists.mp (h _ (List.getElem_mem _) ref href)
  exact ⟨dep, CompileNodes.resolveNode_eq_ok.mpr hres⟩

namespace FastNoiseState.WellFormed

variable (h : state.WellFormed)
include h

/-- The references of a well-formed graph resolve. -/
theorem referencesResolve : state.ReferencesResolve := by
  intro node hnode ref href
  obtain ⟨target, hlookup⟩ := (h.references node hnode ref href).found
  obtain ⟨dep, hres⟩ := CompileNodes.exists_resolve (lookup_eq_some.mp hlookup).1
  simp [hres]

variable {deps : ℕ → List ℕ} (hdeps : Collected state deps)
include hdeps

/-- All nodes of a well-formed graph are scheduled. -/
theorem mem_toposort {handle : ℕ} (hlt : handle < (CompileNodes.build state).len) :
    handle ∈ toposort (CompileNodes.build state).len deps :=
  (hdeps.mem_toposort (List.getElem?_eq_getElem hlt)).mpr fun ref href =>
    (h.references _ (List.getElem_mem _) ref href).acyclic

/-- The schedule needs the slots of all nodes. -/
theorem totalWidth_eq :
    totalWidth state (toposort (CompileNodes.build state).len deps) = state.slotCount := by
  have hperm : (toposort (CompileNodes.build state).len deps).Perm
      (List.range (CompileNodes.build state).len) := by
    rw [List.perm_ext_iff_of_nodup (nodup_toposort _ _) List.nodup_range]
    intro handle
    rw [List.mem_range]
    exact ⟨lt_of_mem_toposort, h.mem_toposort hdeps⟩
  have hmap : (List.range (CompileNodes.build state).len).map (width state) =
      state.nodes.values.map fun node => (node.outputKind state.dimension).width := by
    refine List.ext_getElem (by simp [CompileNodes.len, CompileNodes.build]) fun i hi hi' => ?_
    have hlt : i < state.nodes.values.length := by simpa using hi'
    simp [width, hlt]
  rw [totalWidth, (hperm.map (width state)).sum_eq, hmap, slotCount]

end FastNoiseState.WellFormed

/-- **A well-formed graph whose slots fit compiles.** -/
theorem compileGraph_ok (h : state.WellFormed)
    (hfits : ¬ Overflows build (slotDynamicStart + state.slotCount)) :
    ∃ plan, compileGraph build state = .ok plan := by
  obtain ⟨deps, hcollect⟩ := h.referencesResolve.exists_deps
  have hdeps := collected_of_ok hcollect
  have hcounted : Counted build slotDynamicStart (start state.dimension) :=
    ⟨rfl, fun _ => by decide⟩
  have hnd : ([] ++ toposort (CompileNodes.build state).len
      fun handle => deps.getD handle []).Nodup := nodup_toposort _ _
  have hspec := allocateAll_spec (allocated_start state) hcounted hnd
    fun handle hmem => lt_of_mem_toposort hmem
  rw [h.totalWidth_eq hdeps, if_neg hfits] at hspec
  obtain ⟨slots, hslots, hall, -, -, -⟩ := hspec
  rw [List.nil_append] at hall
  -- a reference that resolves is found among the scheduled nodes
  have hfound : ∀ ref handle, state.Resolves ref →
      (CompileNodes.build state).resolve ref.1 = some handle →
      Found state (toposort (CompileNodes.build state).len fun handle => deps.getD handle [])
        ref handle := by
    intro ref handle hresolves hres
    obtain ⟨node, hlookup⟩ := hresolves.found
    refine ⟨h.mem_toposort hdeps (CompileNodes.lt_of_resolve hres), node, ?_, hlookup⟩
    rw [← CompileNodes.node?_of_resolve hres]
    exact (FastNoiseState.lookup_eq_some.mp hlookup).1
  have hemitted : ∃ payloads, HookResult.traverse (slots.payload (.build state))
      (toposort (CompileNodes.build state).len fun handle => deps.getD handle []) =
        .ok payloads := by
    refine HookResult.exists_traverse fun handle hmem => ?_
    have hlt : handle < state.nodes.values.length := lt_of_mem_toposort hmem
    have hnode := List.getElem?_eq_getElem hlt
    have hres := hdeps handle _ hnode
    refine (payload_spec hall hnode hmem hres).2 ?_
    rw [List.forall₂_iff_get] at hres ⊢
    exact ⟨hres.1, fun i hi hi' => hfound _ _ (h.references _ (List.getElem_mem _) _
      (List.get_mem _ _)) (hres.2 i hi hi')⟩
  obtain ⟨payloads, hpayloads⟩ := hemitted
  obtain ⟨node, hlookup⟩ := h.final.found
  obtain ⟨final, hfinal⟩ := CompileNodes.exists_resolve (FastNoiseState.lookup_eq_some.mp hlookup).1
  obtain ⟨hmem, output, hout, hmet⟩ := (found_iff _ _ hfinal).mp (hfound _ final h.final hfinal)
  obtain ⟨d, rfl⟩ : ∃ d, output = .scalar d := by
    cases output with
    | position d' => exact hmet.elim
    | scalar d' => exact ⟨d', rfl⟩
  obtain ⟨finalSlot, hslot⟩ := Option.isSome_iff_exists.mp ((hall.scalar final).mpr ⟨hmem, d, hout⟩)
  exact ⟨_, compileGraph_eq_ok.mpr ⟨⟨deps, final, slots, payloads, finalSlot, hcollect,
    CompileNodes.resolveNode_eq_ok.mpr hfinal, hslots, hpayloads, expectScalarSlot_eq_ok.mpr hslot,
    rfl⟩⟩⟩

end Braids
