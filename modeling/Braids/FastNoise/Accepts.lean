import Braids.FastNoise.Declared

/-!
# What the Compiler Accepts

Nodes on or behind a cycle are left out of a plan, so a graph may hold some: they only have to
name nodes that are there. The other nodes, and the final field, need what they refer to, and
their slots must fit.

## Main results

* `Compilation.accepted`: what a compilation with a valid plan says about its graph.
* `Accepted.compiles`: a graph with all that compiles to a valid plan.
* `compiles_iff_accepted`: exactly these graphs do.
-/

namespace Braids

open Toposort CompileSlots

variable {build : Build} {state : FastNoiseState}

/-! ### Accepted graphs -/

namespace FastNoiseState

open Classical in
/-- The number of slots that the scheduled nodes need. -/
noncomputable def scheduledSlots (state : FastNoiseState) : ℕ :=
  (state.nodes.values.map fun node =>
    if state.Scheduled node then (node.outputKind state.dimension).width else 0).sum

/-- What the compiler and the validation of plans ask of a graph. -/
structure Accepted (build : Build) (state : FastNoiseState) : Prop where
  /-- Every id that a node refers to is there, also for nodes that are not scheduled. -/
  named : ∀ node ∈ state.nodes.values, ∀ ref ∈ node.references, ∃ target,
    state.node? ref.1 = some target
  /-- What a scheduled node refers to is of the needed kind. -/
  kinds : ∀ node, state.Scheduled node → ∀ ref ∈ node.references, ∃ target,
    state.lookup ref = some target
  final : state.Resolves (state.finalField, .scalar)
  slots : slotDynamicStart + state.scheduledSlots ≤ 2 ^ 16
  /-- The counter of slots may end behind the last one only where that is not checked. -/
  counter : ¬ Overflows build (slotDynamicStart + state.scheduledSlots)

end FastNoiseState

open Classical in
/-- The sum over some elements of a range, as one over the range. -/
theorem sum_map_of_nodup {l : List ℕ} {n : ℕ} (hnd : l.Nodup) (hlt : ∀ i ∈ l, i < n)
    (f : ℕ → ℕ) : (l.map f).sum = ((List.range n).map fun i => if i ∈ l then f i else 0).sum := by
  have hperm : l.Perm ((List.range n).filter fun i => i ∈ l) := by
    rw [List.perm_ext_iff_of_nodup hnd (List.nodup_range.filter _)]
    intro i
    rw [List.mem_filter, List.mem_range, decide_eq_true_iff]
    exact ⟨fun h => ⟨hlt i h, h⟩, fun h => h.2⟩
  have hfilter : ∀ l' : List ℕ, ((l'.filter fun i => i ∈ l).map f).sum =
      (l'.map fun i => if i ∈ l then f i else 0).sum := by
    intro l'
    induction l' with
    | nil => rfl
    | cons i l' ih =>
        by_cases hi : i ∈ l
        · simp [hi, ih]
        · simp [hi, ih]
  rw [(hperm.map f).sum_eq, hfilter]

open Classical in
/-- **The schedule** needs the slots of the scheduled nodes. -/
theorem Collected.totalWidth_eq {deps : ℕ → List ℕ} (h : Collected state deps) :
    totalWidth state (toposort (CompileNodes.build state).len deps) = state.scheduledSlots := by
  rw [totalWidth, sum_map_of_nodup (nodup_toposort _ _) fun _ hmem => lt_of_mem_toposort hmem,
    FastNoiseState.scheduledSlots]
  refine congrArg List.sum (List.ext_getElem (by simp [CompileNodes.len, CompileNodes.build])
    fun i hi hi' => ?_)
  have hlt : i < state.nodes.values.length := by simpa using hi'
  have hnode : state.nodes.values[i]? = some state.nodes.values[i] :=
    List.getElem?_eq_getElem hlt
  have hscheduled : i ∈ toposort (CompileNodes.build state).len deps ↔
      state.Scheduled state.nodes.values[i] :=
    (h.mem_toposort hnode).trans ⟨fun hacc => ⟨List.getElem_mem hlt, hacc⟩, fun hs => hs.2⟩
  simp [hscheduled, width, hnode]

/-! ### Compilations are of accepted graphs -/

namespace Compilation

variable {plan : CompiledPlan FastNoisePlannerMeta} (c : Compilation build state plan)
include c

/-- What the nodes of a graph that compiles refer to is there. -/
theorem named {node : NodeSpec} (hmem : node ∈ state.nodes.values) {ref : String × Need}
    (href : ref ∈ node.references) : ∃ target, state.node? ref.1 = some target := by
  obtain ⟨handle, hnode⟩ := List.getElem?_of_mem hmem
  obtain ⟨dep, -, hres⟩ := Dataflow.exists_of_mem_left (c.collectedDeps handle node hnode) href
  have hlt : dep < state.nodes.values.length := CompileNodes.lt_of_resolve hres
  exact ⟨_, (CompileNodes.node?_of_resolve hres).trans (List.getElem?_eq_getElem hlt)⟩

/-- What a scheduled node refers to is of the needed kind. -/
theorem kinds {node : NodeSpec} (h : state.Scheduled node) {ref : String × Need}
    (href : ref ∈ node.references) : ∃ target, state.lookup ref = some target := by
  obtain ⟨handle, hmem, hnode⟩ := c.exists_of_scheduled h
  obtain ⟨payload, -, hpayload⟩ := Dataflow.exists_of_mem_left c.forall₂_payloads hmem
  obtain ⟨dep, -, -, target, -, hlookup⟩ :=
    Dataflow.exists_of_mem_left (c.emits hmem hnode hpayload).2 href
  exact ⟨target, hlookup⟩

/-- **A graph that compiles to a valid plan** is accepted. -/
theorem accepted (hvalid : plan.validate = .ok ()) : state.Accepted build := by
  have hwidth : totalWidth state c.order = state.scheduledSlots := c.collectedDeps.totalWidth_eq
  obtain ⟨hmem, -, node, hnode, hlookup⟩ := c.final_spec
  refine ⟨fun node hnode ref => c.named hnode, fun node h ref => c.kinds h, ⟨⟨node, hlookup⟩, ?_⟩,
    ?_, ?_⟩
  · refine ⟨state.finalField, ?_⟩
    rintro id ⟨node', need, hnode', href⟩
    obtain rfl := Option.some.inj
      ((FastNoiseState.lookup_eq_some.mp hlookup).1.symm.trans hnode')
    exact (c.scheduled hmem hnode).2 (id, need) href
  · have hfits := c.fits_of_validate hvalid
    rwa [Fits, hwidth] at hfits
  · have hover := c.allocation.1
    rwa [hwidth] at hover

end Compilation

/-! ### Accepted graphs compile -/

/-- What a reference resolves to is found among the nodes of the schedule. -/
theorem Collected.found {deps : ℕ → List ℕ} (hdeps : Collected state deps) {ref : String × Need}
    (hresolves : state.Resolves ref) {handle : ℕ}
    (hres : (CompileNodes.build state).resolve ref.1 = some handle) :
    Found state (toposort (CompileNodes.build state).len deps) ref handle := by
  obtain ⟨node, hlookup⟩ := hresolves.found
  have hnode : state.nodes.values[handle]? = some node :=
    (CompileNodes.node?_of_resolve hres).symm.trans (FastNoiseState.lookup_eq_some.mp hlookup).1
  refine ⟨(hdeps.mem_toposort hnode).mpr fun ref' href => ?_, node, hnode, hlookup⟩
  exact hresolves.acyclic.inv ⟨node, ref'.2, (FastNoiseState.lookup_eq_some.mp hlookup).1, href⟩

namespace FastNoiseState.Accepted

variable (h : state.Accepted build)
include h

/-- The references of an accepted graph resolve. -/
theorem referencesResolve : state.ReferencesResolve := by
  intro node hnode ref href
  obtain ⟨target, htarget⟩ := h.named node hnode ref href
  obtain ⟨dep, hres⟩ := CompileNodes.exists_resolve htarget
  simp [hres]

/-- **The payloads of an accepted graph** are emitted. -/
theorem exists_payloads {deps : ℕ → List ℕ} (hdeps : Collected state deps)
    {slots : CompileSlots}
    (hall : Allocated state (toposort (CompileNodes.build state).len deps) slots) :
    ∃ payloads, HookResult.traverse (slots.payload (.build state))
      (toposort (CompileNodes.build state).len deps) = .ok payloads := by
  refine HookResult.exists_traverse fun handle hmem => ?_
  have hlt : handle < state.nodes.values.length := lt_of_mem_toposort hmem
  have hnode := List.getElem?_eq_getElem hlt
  have hscheduled : state.Scheduled state.nodes.values[handle] :=
    ⟨List.getElem_mem hlt, (hdeps.mem_toposort hnode).mp hmem⟩
  have hres := hdeps handle _ hnode
  refine (payload_spec hall hnode hmem hres).2 ?_
  rw [List.forall₂_iff_get] at hres ⊢
  refine ⟨hres.1, fun i hi hi' => hdeps.found ⟨?_, ?_⟩ (hres.2 i hi hi')⟩
  · exact h.kinds _ hscheduled _ (List.get_mem _ _)
  · exact hscheduled.2 _ (List.get_mem _ _)

/-- **An accepted graph compiles.** -/
theorem nonempty_compilation : ∃ plan, Nonempty (Compilation build state plan) := by
  obtain ⟨deps, hcollect⟩ := h.referencesResolve.exists_deps
  have hdeps := collected_of_ok hcollect
  have hspec := allocateAll_spec (allocated_start state)
    (⟨rfl, fun _ => by decide⟩ : Counted build slotDynamicStart (start state.dimension))
    (nodup_toposort _ _ : ([] ++ toposort (CompileNodes.build state).len
      fun handle => deps.getD handle []).Nodup) fun handle hmem => lt_of_mem_toposort hmem
  rw [hdeps.totalWidth_eq, if_neg h.counter] at hspec
  obtain ⟨slots, hslots, hall, -, -, -⟩ := hspec
  rw [List.nil_append] at hall
  obtain ⟨payloads, hpayloads⟩ := h.exists_payloads hdeps hall
  -- the final field is a scheduled scalar
  obtain ⟨node, hlookup⟩ := h.final.found
  obtain ⟨final, hfinal⟩ := CompileNodes.exists_resolve (lookup_eq_some.mp hlookup).1
  obtain ⟨hmem, output, hout, hmet⟩ := (found_iff _ _ hfinal).mp (hdeps.found h.final hfinal)
  obtain ⟨d, rfl⟩ : ∃ d, output = .scalar d := by
    cases output with
    | position d' => exact hmet.elim
    | scalar d' => exact ⟨d', rfl⟩
  obtain ⟨finalSlot, hslot⟩ := Option.isSome_iff_exists.mp ((hall.scalar final).mpr ⟨hmem, d, hout⟩)
  exact ⟨_, ⟨⟨deps, final, slots, payloads, finalSlot, hcollect,
    CompileNodes.resolveNode_eq_ok.mpr hfinal, hslots, hpayloads, expectScalarSlot_eq_ok.mpr hslot,
    rfl⟩⟩⟩

end FastNoiseState.Accepted

/-- **A plan whose slots fit is valid.** -/
theorem Compilation.validate_of_fits {plan : CompiledPlan FastNoisePlannerMeta}
    (c : Compilation build state plan) (hfits : c.Fits) : plan.validate = .ok () := by
  have hquery : ∀ d, ((queryBuffers d).map (·.slot)).Nodup ∧
      ∀ spec ∈ queryBuffers d, spec.slot.index < slotDynamicStart := by
    intro d
    cases d <;> decide
  have hinit : ∀ d, ∀ kernel ∈ (initStage d).kernels, ∀ binding ∈ kernel.bindings,
      ∃ spec ∈ queryBuffers d, spec.slot = binding.slot := by
    intro d
    cases d <;> decide
  have hstatics : plan.staticBuffers = [] := congrArg (·.staticBuffers) c.plan_eq
  rw [CompiledPlan.validate_ok_iff]
  refine ⟨?_, ?_, ?_, ?_⟩
  · rw [c.buffers_eq, c.allocation.2.2.1, List.map_append, List.nodup_append, List.map_map]
    refine ⟨(hquery _).1, (List.map_id _).symm ▸ nodup_numbered hfits, ?_⟩
    rintro slot hslot _ hslot' rfl
    obtain ⟨spec, hspec, rfl⟩ := List.mem_map.mp hslot
    obtain ⟨slot, hmem, hsame⟩ := List.mem_map.mp hslot'
    have hlt := (hquery _).2 spec hspec
    rw [← hsame] at hlt
    exact absurd (mem_numbered hfits hmem) (Nat.not_le_of_lt hlt)
  · rw [hstatics]
    exact List.nodup_nil
  · simp [hstatics]
  · rw [c.stages_eq, c.buffers_eq]
    rintro stage hstage kernel hkernel binding hbinding
    rcases List.mem_cons.mp hstage with rfl | hstage
    · obtain ⟨spec, hspec, hslot⟩ := hinit _ kernel hkernel binding hbinding
      exact ⟨spec, List.mem_append_left _ hspec, hslot⟩
    · -- the kernels of nodes bind nothing
      obtain ⟨payload, -, rfl⟩ := List.mem_map.mp hstage
      obtain rfl := List.mem_singleton.mp hkernel
      exact absurd hbinding (List.not_mem_nil)

/-- **An accepted graph compiles to a valid plan.** -/
theorem FastNoiseState.Accepted.compiles (h : state.Accepted build) :
    ∃ plan, compileGraph build state = .ok plan ∧ plan.validate = .ok () := by
  obtain ⟨plan, ⟨c⟩⟩ := h.nonempty_compilation
  refine ⟨plan, compileGraph_eq_ok.mpr ⟨c⟩, c.validate_of_fits ?_⟩
  have hwidth : totalWidth state c.order = state.scheduledSlots := c.collectedDeps.totalWidth_eq
  rw [Compilation.Fits, hwidth]
  exact h.slots

/-- **Exactly the accepted graphs compile** to a valid plan. -/
theorem compiles_iff_accepted (build : Build) (state : FastNoiseState) :
    (∃ plan, compileGraph build state = .ok plan ∧ plan.validate = .ok ()) ↔
      state.Accepted build := by
  constructor
  · rintro ⟨plan, hcompile, hvalid⟩
    obtain ⟨c⟩ := compileGraph_eq_ok.mp hcompile
    exact c.accepted hvalid
  · exact fun h => h.compiles

end Braids
