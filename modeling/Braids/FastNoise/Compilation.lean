import Braids.FastNoise.Semantics

/-!
# Compilations

What a successful `compile_graph` has computed, and when it succeeds.

## Main results

* `compileGraph_eq_ok`: the compiler returns a plan when there is a `Compilation` of it.
* `Compilation.references`: the references of a scheduled node stand for nodes of the
  needed kind, which are scheduled too.
* `Compilation.mem_order`: a node is scheduled unless it is on or behind a cycle.
* `compileGraph_ok`: a well-formed graph whose slots fit compiles.
-/

namespace Braids

open Toposort

/-- What `compile_graph` computes on its way to a plan. -/
structure Compilation (build : Build) (state : FastNoiseState)
    (plan : CompiledPlan FastNoisePlannerMeta) where
  deps : List (List ℕ)
  final : ℕ
  slots : CompileSlots
  payloads : List KernelPayload
  finalSlot : BufferSlot
  collected : HookResult.traverse (CompileNodes.build state).collectDependencies
    (List.range (CompileNodes.build state).len) = .ok deps
  resolved : (CompileNodes.build state).resolveNode state.finalField = .ok final
  allocated : (CompileSlots.start state.dimension).allocateAll build (.build state)
    (toposort (CompileNodes.build state).len fun handle => deps.getD handle []) = .ok slots
  emitted : HookResult.traverse (slots.payload (.build state))
    (toposort (CompileNodes.build state).len fun handle => deps.getD handle []) = .ok payloads
  finalized : slots.expectScalarSlot final = .ok finalSlot
  plan_eq : plan = {
    pipeline := {
      buffers := slots.buffers
      stages := initStage state.dimension :: payloads.map fun payload => ⟨[payload.encode]⟩ }
    staticBuffers := []
    plannerMeta := { dimension := state.dimension, finalSlot } }

/-- **A plan is returned** when all that goes into it is. -/
theorem compileGraph_eq_ok {build : Build} {state : FastNoiseState}
    {plan : CompiledPlan FastNoisePlannerMeta} :
    compileGraph build state = .ok plan ↔ Nonempty (Compilation build state plan) := by
  constructor
  · intro h
    obtain ⟨deps, hdeps, h⟩ := HookResult.bind_eq_ok.mp h
    obtain ⟨final, hfinal, h⟩ := HookResult.bind_eq_ok.mp h
    obtain ⟨slots, hslots, h⟩ := HookResult.bind_eq_ok.mp h
    obtain ⟨payloads, hpayloads, h⟩ := HookResult.bind_eq_ok.mp h
    obtain ⟨finalSlot, hslot, h⟩ := HookResult.bind_eq_ok.mp h
    exact ⟨⟨deps, final, slots, payloads, finalSlot, hdeps, hfinal, hslots, hpayloads, hslot,
      (HookResult.ok.inj h).symm⟩⟩
  · rintro ⟨c⟩
    rw [compileGraph]
    simp only [c.collected, c.resolved, c.allocated, c.emitted, c.finalized, HookResult.ok_bind,
      HookResult.pure_eq, c.plan_eq]

/-! ### Errors -/

/-- A computation that returns or panics, but reports no error. -/
def HookResult.NoErr {α : Type} (x : HookResult α) : Prop := ∀ e, x ≠ .err e

namespace HookResult.NoErr

variable {α β : Type}

/-- A value is no error. -/
theorem ok (a : α) : (HookResult.ok a).NoErr := by
  intro e h
  cases h

/-- A panic is no error. -/
theorem panicked : (HookResult.panicked : HookResult α).NoErr := by
  intro e h
  cases h

/-- A sequence. -/
theorem bind {x : HookResult α} {f : α → HookResult β} (hx : x.NoErr) (hf : ∀ a, (f a).NoErr) :
    (x >>= f).NoErr := by
  cases x with
  | ok a => exact hf a
  | err e => exact absurd rfl (hx e)
  | panicked => exact panicked

/-- A loop. -/
theorem traverse {f : α → HookResult β} (hf : ∀ a, (f a).NoErr) (l : List α) :
    (HookResult.traverse f l).NoErr := by
  induction l with
  | nil => exact ok []
  | cons a l ih => exact (hf a).bind fun b => ih.bind fun bs => ok (b :: bs)

end HookResult.NoErr

section NoErr

open HookResult

variable (build : Build) (state : FastNoiseState) (graph : CompileNodes) (slots : CompileSlots)

theorem noErr_resolveNode (id : String) : (graph.resolveNode id).NoErr := by
  rw [CompileNodes.resolveNode]
  split
  · exact .ok _
  · exact .panicked

theorem noErr_collectDependencies (handle : ℕ) : (graph.collectDependencies handle).NoErr := by
  have hsource : ∀ source, (graph.positionSourceDependency source).NoErr := by
    intro source
    cases source with
    | base => exact .ok []
    | node id => exact (noErr_resolveNode graph id).bind fun handle => .ok [handle]
  rw [CompileNodes.collectDependencies, CompileNodes.node]
  split
  · next node _ =>
      cases node with
      | combine node => exact .traverse (noErr_resolveNode graph) node.inputs
      | warp2D node => exact hsource node.source
      | warp3D node => exact hsource node.source
      | sample2D node => exact hsource node.source
      | sample3D node => exact hsource node.source
  · exact .panicked

theorem noErr_allocateSlot (nextSlot : ℕ) : (allocateSlot build nextSlot).NoErr := by
  have hunsigned : (build.unsigned (2 ^ 16) (nextSlot + 1)).NoErr := by
    rw [Build.unsigned]
    split
    · exact .ok _
    · split
      · exact .panicked
      · exact .ok _
  exact hunsigned.bind fun next => .ok _

theorem noErr_allocateAll (order : List ℕ) : (slots.allocateAll build graph order).NoErr := by
  have hslots : ∀ n nextSlot, (allocateSlots build n nextSlot).NoErr := by
    intro n
    induction n with
    | zero => exact fun nextSlot => .ok _
    | succ n ih =>
        exact fun nextSlot => (noErr_allocateSlot build nextSlot).bind fun r =>
          (ih r.2).bind fun _ => .ok _
  have hone : ∀ slots handle, (CompileSlots.allocate build graph slots handle).NoErr := by
    intro slots handle
    rw [CompileSlots.allocate, CompileNodes.output]
    split
    · next output _ =>
        cases output with
        | position d =>
            exact ((hslots d.size slots.nextSlot).bind fun _ => .ok _).bind fun _ => .ok _
        | scalar d => exact (noErr_allocateSlot build slots.nextSlot).bind fun _ => .ok _
    · exact .panicked
  induction order generalizing slots with
  | nil => exact .ok slots
  | cons handle order ih => exact (hone slots handle).bind ih

theorem noErr_expectScalarSlot (handle : ℕ) : (slots.expectScalarSlot handle).NoErr := by
  rw [CompileSlots.expectScalarSlot]
  split
  · exact .ok _
  · exact .panicked

theorem noErr_payload (handle : ℕ) : (slots.payload graph handle).NoErr := by
  have hposition : ∀ d handle, (slots.expectPositionSlots d handle).NoErr := by
    intro d handle
    rw [CompileSlots.expectPositionSlots]
    split
    · exact .ok _
    · exact .panicked
  have hsource : ∀ d source, (slots.resolvePositionSource graph d source).NoErr := by
    intro d source
    cases source with
    | base => exact .ok _
    | node id => exact (noErr_resolveNode graph id).bind (hposition d)
  have hwarp : ∀ d handle node, (slots.warpPayload graph d handle node).NoErr :=
    fun d handle node => (hsource d node.source).bind fun _ =>
      (hposition d handle).bind fun _ => .ok _
  have hsample : ∀ d handle node, (slots.samplePayload graph d handle node).NoErr :=
    fun d handle node => (hsource d node.source).bind fun _ =>
      (noErr_expectScalarSlot slots handle).bind fun _ => .ok _
  rw [CompileSlots.payload, CompileNodes.node]
  split
  · next node _ =>
      cases node with
      | warp2D node => exact hwarp .d2 handle node
      | warp3D node => exact hwarp .d3 handle node
      | sample2D node => exact hsample .d2 handle node
      | sample3D node => exact hsample .d3 handle node
      | combine node =>
          exact (NoErr.traverse (fun input => (noErr_resolveNode graph input).bind
            (noErr_expectScalarSlot slots)) node.inputs).bind fun _ =>
            (noErr_expectScalarSlot slots handle).bind fun _ => .ok _
  · exact .panicked

/-- **The compiler reports no error**: it returns a plan or panics. -/
theorem noErr_compileGraph : (compileGraph build state).NoErr :=
  (NoErr.traverse (noErr_collectDependencies _) _).bind fun _ =>
    (noErr_resolveNode _ _).bind fun _ =>
      (noErr_allocateAll build _ _ _).bind fun slots =>
        (NoErr.traverse (noErr_payload _ slots) _).bind fun _ =>
          (noErr_expectScalarSlot slots _).bind fun _ => .ok _

end NoErr

/-! ### References and slots -/

namespace CompileSlots

variable {state : FastNoiseState} {slots : CompileSlots} {done : List ℕ}

/-- The coordinates of the base position, of which a 2D node reads two. -/
def baseCoords : List BufferSlot := (basePositionSlots .d3).coords

/-- Position slots are those that were allocated. -/
theorem expectPositionSlots_eq_ok {d : GraphDimension} {handle : ℕ} {coords : PositionSlots d} :
    slots.expectPositionSlots d handle = .ok coords ↔
      slots.positionSlots d handle = some coords := by
  rw [expectPositionSlots]
  split
  · next h => simp [h]
  · next h => simp [h]

/-- Scalar slots are those that were allocated. -/
theorem expectScalarSlot_eq_ok {handle : ℕ} {slot : BufferSlot} :
    slots.expectScalarSlot handle = .ok slot ↔ slots.scalarSlots handle = some slot := by
  rw [expectScalarSlot]
  split
  · next h => simp [h]
  · next h => simp [h]

/-- What a reference needs: a node that is done, with slots of the right kind. -/
def Found (state : FastNoiseState) (done : List ℕ) (ref : String × Need) (handle : ℕ) : Prop :=
  handle ∈ done ∧ ∃ node, state.nodes.values[handle]? = some node ∧
    state.lookup ref = some node

/-- A reference whose id is that of a handle with the right output. -/
theorem found_iff (done : List ℕ) (ref : String × Need) {handle : ℕ}
    (h : (CompileNodes.build state).resolve ref.1 = some handle) :
    Found state done ref handle ↔ handle ∈ done ∧
      ∃ output, (CompileNodes.build state).output handle = .ok output ∧ ref.2.Met output := by
  have hnode := CompileNodes.node?_of_resolve h
  simp only [Found, FastNoiseState.lookup_eq_some, hnode, CompileNodes.output_eq_ok]
  constructor
  · rintro ⟨hdone, node, hn, -, hmet⟩
    exact ⟨hdone, _, ⟨node, hn, rfl⟩, hmet⟩
  · rintro ⟨hdone, _, ⟨node, hn, rfl⟩, hmet⟩
    exact ⟨hdone, node, hn, hn, hmet⟩

/-- **The slots of a source** are those that its ports read, and they are returned when its
reference is found. -/
theorem resolvePositionSource_spec (h : Allocated state done slots) {d : GraphDimension}
    {source : PositionSource} {handles : List ℕ}
    (hres : List.Forall₂ (fun ref handle =>
      (CompileNodes.build state).resolve ref.1 = some handle) (source.references d) handles) :
    (∀ coords, slots.resolvePositionSource (.build state) d source = .ok coords →
        (source.ports d).mapM (Port.read baseCoords (handles.map slots.coords)) =
            some coords.coords ∧
          List.Forall₂ (Found state done) (source.references d) handles) ∧
      (List.Forall₂ (Found state done) (source.references d) handles →
        ∃ coords, slots.resolvePositionSource (.build state) d source = .ok coords) := by
  cases source with
  | base =>
      cases hres
      refine ⟨fun coords hcoords => ?_, fun _ => ⟨_, rfl⟩⟩
      obtain rfl := HookResult.ok.inj hcoords
      exact ⟨by cases d <;> rfl, .nil⟩
  | node id =>
      rcases hres with _ | ⟨hhandle, hnil⟩
      obtain rfl := List.forall₂_nil_left_iff.mp hnil
      rename_i handle
      have hresolve : slots.resolvePositionSource (.build state) d (.node id) =
          slots.expectPositionSlots d handle := by
        rw [resolvePositionSource, CompileNodes.resolveNode_eq_ok.mpr hhandle,
          HookResult.ok_bind]
      simp only [PositionSource.references, List.forall₂_cons, List.Forall₂.nil, and_true,
        found_iff done (_, _) hhandle, hresolve, expectPositionSlots_eq_ok]
      constructor
      · intro coords hcoords
        obtain ⟨hdone, hout⟩ := (h.position d handle).mp (by simp [hcoords])
        refine ⟨?_, hdone, _, hout, rfl⟩
        rw [Dataflow.mapM_eq_some, List.forall₂_iff_get]
        refine ⟨by simp [coords.length_coords], fun i hi hi' => ?_⟩
        simp [PositionSource.ports, Port.read, h.coords_position hcoords, hi']
      · rintro ⟨hdone, output, hout, hmet⟩
        have hd : output = .position d := by
          cases output with
          | position d' => exact congrArg _ (Eq.symm hmet)
          | scalar d' => exact hmet.elim
        exact Option.isSome_iff_exists.mp
          ((h.position d handle).mpr ⟨hdone, by rw [hout, hd]⟩)

/-- **The slots of the inputs of a combine** are those of its references, and they are
returned when these are found. -/
theorem inputs_spec (h : Allocated state done slots) {ids : List String} {handles : List ℕ}
    (hres : List.Forall₂ (fun ref handle =>
      (CompileNodes.build state).resolve ref.1 = some handle)
      (ids.map fun input => (input, Need.scalar)) handles) :
    (∀ inputs, HookResult.traverse (fun input => do
          let inputHandle ← (CompileNodes.build state).resolveNode input
          slots.expectScalarSlot inputHandle) ids = .ok inputs →
        handles.map slots.coords = inputs.map ([·]) ∧
          List.Forall₂ (Found state done) (ids.map fun input => (input, Need.scalar)) handles) ∧
      (List.Forall₂ (Found state done) (ids.map fun input => (input, Need.scalar)) handles →
        ∃ inputs, HookResult.traverse (fun input => do
          let inputHandle ← (CompileNodes.build state).resolveNode input
          slots.expectScalarSlot inputHandle) ids = .ok inputs) := by
  induction ids generalizing handles with
  | nil =>
      obtain rfl : handles = [] := by simpa using hres
      simp [HookResult.traverse]
  | cons id ids ih =>
      rw [List.map_cons] at hres ⊢
      rcases hres with _ | ⟨hhandle, hrest⟩
      rename_i handle handles
      obtain ⟨hread, hfind⟩ := ih hrest
      simp only [HookResult.traverse, CompileNodes.resolveNode_eq_ok.mpr hhandle,
        HookResult.ok_bind, List.forall₂_cons, found_iff done (_, _) hhandle]
      constructor
      · intro inputs hinputs
        obtain ⟨slot, hslot, hmore⟩ := HookResult.bind_eq_ok.mp hinputs
        obtain ⟨inputs', hinputs', heq⟩ := HookResult.bind_eq_ok.mp hmore
        obtain rfl : slot :: inputs' = inputs := by simpa using heq
        rw [expectScalarSlot_eq_ok] at hslot
        obtain ⟨hdone, d, hout⟩ := (h.scalar handle).mp (by simp [hslot])
        obtain ⟨hcoords, hfound⟩ := hread inputs' hinputs'
        exact ⟨by rw [List.map_cons, List.map_cons, hcoords, h.coords_scalar hslot],
          ⟨hdone, _, hout, trivial⟩, hfound⟩
      · rintro ⟨⟨hdone, output, hout, hmet⟩, hfound⟩
        obtain ⟨inputs, hinputs⟩ := hfind hfound
        have hd : ∃ d, output = .scalar d := by
          cases output with
          | position d' => exact hmet.elim
          | scalar d' => exact ⟨d', rfl⟩
        obtain ⟨d, rfl⟩ := hd
        obtain ⟨slot, hslot⟩ := Option.isSome_iff_exists.mp
          ((h.scalar handle).mpr ⟨hdone, d, hout⟩)
        refine ⟨slot :: inputs, ?_⟩
        rw [expectScalarSlot_eq_ok.mpr hslot, HookResult.ok_bind, hinputs]
        rfl

end CompileSlots

/-! ### Kernels -/

/-- What the kernel of a node does: it computes the body of what its ports read. -/
def NodeSpec.run (num : Numerics) (node : NodeSpec) (args : List (List BufferSlot))
    (outputs : List BufferSlot) : PacketM Unit := do
  let total ← readTotal
  ensureAll total outputs
  match node.ports.mapM (Port.read CompileSlots.baseCoords args), node.body num with
  | some inputs, some body => runPointwise inputs outputs body
  | _, _ => .panic

/-- A combine kernel is a loop over its inputs. -/
theorem runCombine_eq (num : Numerics) (node : CombineNode) (inputs : List BufferSlot)
    (output : BufferSlot) :
    KernelLoops.plain.runCombine num { op := node.op, inputs, output, params := node.params } () =
      (NodeSpec.combine node).run num (inputs.map ([·])) [output] := by
  obtain ⟨id, ids, op, params⟩ := node
  rcases inputs with _ | ⟨a, _ | ⟨b, inputs⟩⟩ <;> cases op <;> try rfl
  all_goals
    rcases params with _ | ⟨p₁, _ | ⟨p₂, _ | ⟨p₃, _ | ⟨p₄, params⟩⟩⟩⟩ <;> rfl

/-- A warp kernel is a loop over its source. -/
theorem runWarp_eq (num : Numerics) {d : GraphDimension} {node : NoiseNode} {spec : NodeSpec}
    (hports : spec.ports = node.source.ports d)
    (hbody : spec.body num = some (num.domainWarp node.noise)) {source output : PositionSlots d}
    {args : List (List BufferSlot)}
    (hsource : (node.source.ports d).mapM (Port.read CompileSlots.baseCoords args) =
      some source.coords) :
    KernelLoops.plain.runWarp num { source, output, noise := node.noise } () =
      spec.run num args output.coords := by
  simp only [NodeSpec.run, hports, hsource, hbody]
  rfl

/-- A sample kernel is a loop over its source. -/
theorem runSample_eq (num : Numerics) {d : GraphDimension} {node : NoiseNode} {spec : NodeSpec}
    (hports : spec.ports = node.source.ports d)
    (hbody : spec.body num = some fun point => (num.getNoise node.noise point).map ([·]))
    {source : PositionSlots d} {output : BufferSlot} {args : List (List BufferSlot)}
    (hsource : (node.source.ports d).mapM (Port.read CompileSlots.baseCoords args) =
      some source.coords) :
    KernelLoops.plain.runSample num { source, output, noise := node.noise } () =
      spec.run num args [output] := by
  simp only [NodeSpec.run, hports, hsource, hbody]
  rfl

namespace CompileSlots

variable {state : FastNoiseState} {slots : CompileSlots} {done : List ℕ}

/-- The kernel of a node: what it runs, and whether its inputs fit their encoded count. -/
def Emits (node : NodeSpec) (args : List (List BufferSlot)) (outputs : List BufferSlot)
    (payload : KernelPayload) : Prop :=
  (payload.InputsFit ↔ node.InputsFit) ∧
    ∀ num, payload.prepared.run num = node.wire.run num args outputs

/-- The payload of a warp. -/
theorem warpPayload_spec (h : Allocated state done slots) (spec : NodeSpec) {node : NoiseNode}
    {d : GraphDimension} {handle : ℕ} (hports : spec.ports = node.source.ports d)
    (hbody : ∀ num, spec.body num = some (num.domainWarp node.noise)) (hwire : spec.wire = spec)
    (hfit : spec.InputsFit) {output : PositionSlots d}
    (houtput : slots.positionSlots d handle = some output) {handles : List ℕ}
    (hres : List.Forall₂ (fun ref handle =>
      (CompileNodes.build state).resolve ref.1 = some handle) (node.source.references d) handles) :
    (∀ payload, slots.warpPayload (.build state) d handle node = .ok payload →
        Emits spec (handles.map slots.coords) (slots.coords handle) payload ∧
          List.Forall₂ (Found state done) (node.source.references d) handles) ∧
      (List.Forall₂ (Found state done) (node.source.references d) handles →
        ∃ payload, slots.warpPayload (.build state) d handle node = .ok payload) := by
  obtain ⟨hread, hfind⟩ := resolvePositionSource_spec h hres
  have hexpect := expectPositionSlots_eq_ok.mpr houtput
  constructor
  · intro payload hpayload
    obtain ⟨source, hsource, hmore⟩ := HookResult.bind_eq_ok.mp hpayload
    rw [hexpect, HookResult.ok_bind] at hmore
    obtain rfl := HookResult.ok.inj hmore
    obtain ⟨hslots, hfound⟩ := hread source hsource
    refine ⟨⟨iff_of_true trivial hfit, fun num => ?_⟩, hfound⟩
    rw [hwire, h.coords_position houtput]
    exact runWarp_eq num hports (hbody num) hslots
  · intro hfound
    obtain ⟨source, hsource⟩ := hfind hfound
    exact ⟨_, by rw [warpPayload, hsource, HookResult.ok_bind, hexpect, HookResult.ok_bind]; rfl⟩

/-- The payload of a sample. -/
theorem samplePayload_spec (h : Allocated state done slots) (spec : NodeSpec) {node : NoiseNode}
    {d : GraphDimension} {handle : ℕ} (hports : spec.ports = node.source.ports d)
    (hbody : ∀ num, spec.body num = some fun point => (num.getNoise node.noise point).map ([·]))
    (hwire : spec.wire = spec) (hfit : spec.InputsFit) {output : BufferSlot}
    (houtput : slots.scalarSlots handle = some output) {handles : List ℕ}
    (hres : List.Forall₂ (fun ref handle =>
      (CompileNodes.build state).resolve ref.1 = some handle) (node.source.references d) handles) :
    (∀ payload, slots.samplePayload (.build state) d handle node = .ok payload →
        Emits spec (handles.map slots.coords) (slots.coords handle) payload ∧
          List.Forall₂ (Found state done) (node.source.references d) handles) ∧
      (List.Forall₂ (Found state done) (node.source.references d) handles →
        ∃ payload, slots.samplePayload (.build state) d handle node = .ok payload) := by
  obtain ⟨hread, hfind⟩ := resolvePositionSource_spec h hres
  have hexpect := expectScalarSlot_eq_ok.mpr houtput
  constructor
  · intro payload hpayload
    obtain ⟨source, hsource, hmore⟩ := HookResult.bind_eq_ok.mp hpayload
    rw [hexpect, HookResult.ok_bind] at hmore
    obtain rfl := HookResult.ok.inj hmore
    obtain ⟨hslots, hfound⟩ := hread source hsource
    refine ⟨⟨iff_of_true trivial hfit, fun num => ?_⟩, hfound⟩
    rw [hwire, h.coords_scalar houtput]
    exact runSample_eq num hports (hbody num) hslots
  · intro hfound
    obtain ⟨source, hsource⟩ := hfind hfound
    exact ⟨_, by rw [samplePayload, hsource, HookResult.ok_bind, hexpect, HookResult.ok_bind]; rfl⟩

/-- The payload of a combine. -/
theorem combinePayload_spec (h : Allocated state done slots) {node : CombineNode} {handle : ℕ}
    {output : BufferSlot} (houtput : slots.scalarSlots handle = some output) {handles : List ℕ}
    (hres : List.Forall₂ (fun ref handle =>
      (CompileNodes.build state).resolve ref.1 = some handle)
      (node.inputs.map fun input => (input, Need.scalar)) handles) :
    (∀ payload, slots.combinePayload (.build state) handle node = .ok payload →
        Emits (.combine node) (handles.map slots.coords) (slots.coords handle) payload ∧
          List.Forall₂ (Found state done)
            (node.inputs.map fun input => (input, Need.scalar)) handles) ∧
      (List.Forall₂ (Found state done)
          (node.inputs.map fun input => (input, Need.scalar)) handles →
        ∃ payload, slots.combinePayload (.build state) handle node = .ok payload) := by
  obtain ⟨hread, hfind⟩ := inputs_spec h hres
  have hexpect := expectScalarSlot_eq_ok.mpr houtput
  constructor
  · intro payload hpayload
    obtain ⟨inputs, hinputs, hmore⟩ := HookResult.bind_eq_ok.mp hpayload
    rw [hexpect, HookResult.ok_bind] at hmore
    obtain rfl := HookResult.ok.inj hmore
    obtain ⟨hslots, hfound⟩ := hread inputs hinputs
    have hlen : inputs.length = node.inputs.length := by
      have hmap := congrArg List.length hslots
      have hrefs := hres.length_eq
      simp only [List.length_map] at hmap hrefs
      omega
    refine ⟨⟨?_, fun num => ?_⟩, hfound⟩
    · change inputs.length < 2 ^ 32 ↔ node.inputs.length < 2 ^ 32
      rw [hlen]
    · rw [h.coords_scalar houtput, hslots]
      exact runCombine_eq num { node with params := wireParams node.params } inputs output
  · intro hfound
    obtain ⟨inputs, hinputs⟩ := hfind hfound
    exact ⟨_, by rw [combinePayload, hinputs, HookResult.ok_bind, hexpect, HookResult.ok_bind]; rfl⟩

/-- **A kernel is emitted** when the references of its node are found. -/
theorem payload_spec (h : Allocated state done slots) {handle : ℕ} {node : NodeSpec}
    (hnode : state.nodes.values[handle]? = some node) (hdone : handle ∈ done)
    {handles : List ℕ} (hres : List.Forall₂ (fun ref handle =>
      (CompileNodes.build state).resolve ref.1 = some handle) node.references handles) :
    (∀ payload, slots.payload (.build state) handle = .ok payload →
        Emits node (handles.map slots.coords) (slots.coords handle) payload ∧
          List.Forall₂ (Found state done) node.references handles) ∧
      (List.Forall₂ (Found state done) node.references handles →
        ∃ payload, slots.payload (.build state) handle = .ok payload) := by
  have hgraph : (CompileNodes.build state).node handle = .ok node :=
    CompileNodes.node_eq_ok.mpr hnode
  have hout : (CompileNodes.build state).output handle = .ok (node.outputKind state.dimension) :=
    CompileNodes.output_eq_ok.mpr ⟨node, hnode, rfl⟩
  have hposition : ∀ d, node.outputKind state.dimension = .position d →
      ∃ output, slots.positionSlots d handle = some output := fun d hd =>
    Option.isSome_iff_exists.mp ((h.position d handle).mpr ⟨hdone, by rw [hout, hd]⟩)
  have hscalar : ∀ d, node.outputKind state.dimension = .scalar d →
      ∃ output, slots.scalarSlots handle = some output := fun d hd =>
    Option.isSome_iff_exists.mp ((h.scalar handle).mpr ⟨hdone, d, by rw [hout, hd]⟩)
  rw [payload, hgraph, HookResult.ok_bind]
  cases node with
  | warp2D node =>
      obtain ⟨output, houtput⟩ := hposition .d2 rfl
      exact warpPayload_spec h (.warp2D node) rfl (fun _ => rfl) rfl trivial houtput hres
  | warp3D node =>
      obtain ⟨output, houtput⟩ := hposition .d3 rfl
      exact warpPayload_spec h (.warp3D node) rfl (fun _ => rfl) rfl trivial houtput hres
  | sample2D node =>
      obtain ⟨output, houtput⟩ := hscalar .d2 rfl
      exact samplePayload_spec h (.sample2D node) rfl (fun _ => rfl) rfl trivial houtput hres
  | sample3D node =>
      obtain ⟨output, houtput⟩ := hscalar .d3 rfl
      exact samplePayload_spec h (.sample3D node) rfl (fun _ => rfl) rfl trivial houtput hres
  | combine node =>
      obtain ⟨output, houtput⟩ := hscalar state.dimension rfl
      exact combinePayload_spec h houtput hres

end CompileSlots

end Braids
