import Braids.FastNoise.Codec
import Braids.Lib.Toposort

/-!
# The FastNoise Compiler

`compile_graph` of `runtime.rs`: the nodes of a state are sorted topologically, each gets
packet slots for its output, and each becomes a stage with one kernel, after a stage that
lays out the sample grid. Lookups that fail panic. The compiler never returns an error.

The counter of slots is a `u16`. With overflow checks it panics when it passes the end,
without them it wraps around.
-/

namespace Braids

open Toposort

/-! ### Slots -/

def slotQueryMeta : BufferSlot := ⟨0⟩

def slotQueryF32 : BufferSlot := ⟨1⟩

def slotQueryOffsets : BufferSlot := ⟨2⟩

def slotBaseX : BufferSlot := ⟨10⟩

def slotBaseY : BufferSlot := ⟨11⟩

def slotBaseZ : BufferSlot := ⟨12⟩

/-- `SLOT_DYNAMIC_START`. -/
def slotDynamicStart : ℕ := 32

/-- `base_position_slots_2` and `base_position_slots_3`. -/
def basePositionSlots : (d : GraphDimension) → PositionSlots d
  | .d2 => ⟨[slotBaseX, slotBaseY], rfl⟩
  | .d3 => ⟨[slotBaseX, slotBaseY, slotBaseZ], rfl⟩

structure FastNoisePlannerMeta where
  dimension : GraphDimension
  finalSlot : BufferSlot
  deriving DecidableEq, Repr

/-! ### Nodes -/

/-- The nodes of a state under dense handles. -/
structure CompileNodes where
  nodes : List NodeSpec
  /-- `handles_by_id`, the latest insertion first. -/
  handlesById : List (String × ℕ)
  outputs : List OutputKind
  deriving DecidableEq, Repr

namespace CompileNodes

/-- `build`. -/
def build (state : FastNoiseState) : CompileNodes where
  nodes := state.nodes.values
  handlesById := (state.nodes.values.zipIdx.map fun (node, handle) => (node.id, handle)).reverse
  outputs := state.nodes.values.map (·.outputKind state.dimension)

/-- `len`. -/
def len (graph : CompileNodes) : ℕ := graph.nodes.length

/-- `node`. -/
def node (graph : CompileNodes) (handle : ℕ) : HookResult NodeSpec :=
  match graph.nodes[handle]? with
  | some node => .ok node
  | none => .panicked

/-- `output`. -/
def output (graph : CompileNodes) (handle : ℕ) : HookResult OutputKind :=
  match graph.outputs[handle]? with
  | some output => .ok output
  | none => .panicked

/-- `resolve`. -/
def resolve (graph : CompileNodes) (id : String) : Option ℕ := graph.handlesById.lookup id

/-- `resolve_node`. -/
def resolveNode (graph : CompileNodes) (id : String) : HookResult ℕ :=
  match graph.resolve id with
  | some handle => .ok handle
  | none => .panicked

/-- `position_source_dependency`. -/
def positionSourceDependency (graph : CompileNodes) : PositionSource → HookResult (List ℕ)
  | .base => .ok []
  | .node id => do
      let handle ← graph.resolveNode id
      return [handle]

/-- `collect_dependencies`. -/
def collectDependencies (graph : CompileNodes) (handle : ℕ) : HookResult (List ℕ) := do
  let node ← graph.node handle
  match node with
  | .warp2D node => graph.positionSourceDependency node.source
  | .warp3D node => graph.positionSourceDependency node.source
  | .sample2D node => graph.positionSourceDependency node.source
  | .sample3D node => graph.positionSourceDependency node.source
  | .combine node => HookResult.traverse graph.resolveNode node.inputs

end CompileNodes

/-! ### Allocation -/

/-- The counter of slots, the tables of slots by handle, and the declared buffers. -/
structure CompileSlots where
  nextSlot : ℕ
  /-- `position_slots_2` and `position_slots_3`. -/
  positionSlots : (d : GraphDimension) → ℕ → Option (PositionSlots d)
  scalarSlots : ℕ → Option BufferSlot
  buffers : List BufferSpec

/-- `dynamic_f32_buffer`. -/
def dynamicF32Buffer (slot : BufferSlot) : BufferSpec := ⟨slot, .f32, .dynamic⟩

/-- The buffers that every plan declares. -/
def queryBuffers (dimension : GraphDimension) : List BufferSpec :=
  [⟨slotQueryMeta, .u32, .dynamic⟩, ⟨slotQueryF32, .f32, .dynamic⟩,
    ⟨slotQueryOffsets, .u32, .dynamic⟩, ⟨slotBaseX, .f32, .dynamic⟩,
    ⟨slotBaseY, .f32, .dynamic⟩] ++
  if dimension = .d3 then [⟨slotBaseZ, .f32, .dynamic⟩] else []

/-- `allocate_slot`. -/
def allocateSlot (build : Build) (nextSlot : ℕ) : HookResult (BufferSlot × ℕ) := do
  let next ← build.unsigned (2 ^ 16) (nextSlot + 1)
  return (⟨.ofNat nextSlot⟩, next)

/-- The loop of `allocate_position_slots`. -/
def allocateSlots (build : Build) :
    (n : ℕ) → ℕ → HookResult ({coords : List BufferSlot // coords.length = n} × ℕ)
  | 0, nextSlot => .ok (⟨[], rfl⟩, nextSlot)
  | n + 1, nextSlot => do
      let (slot, next) ← allocateSlot build nextSlot
      let (⟨coords, h⟩, next) ← allocateSlots build n next
      return (⟨slot :: coords, congrArg (· + 1) h⟩, next)

/-- `allocate_position_slots`. -/
def allocatePositionSlots (build : Build) (d : GraphDimension) (nextSlot : ℕ) :
    HookResult (PositionSlots d × ℕ) := do
  let (coords, next) ← allocateSlots build d.size nextSlot
  return (⟨coords.1, coords.2⟩, next)

namespace CompileSlots

/-- Before any node has slots. -/
def start (dimension : GraphDimension) : CompileSlots where
  nextSlot := slotDynamicStart
  positionSlots _ _ := none
  scalarSlots _ := none
  buffers := queryBuffers dimension

/-- The slots of a position: `position_slots[handle] = Some(coords)`, and their buffers. -/
def insertPosition (slots : CompileSlots) (d : GraphDimension) (handle : ℕ)
    (coords : PositionSlots d) (nextSlot : ℕ) : CompileSlots :=
  { slots with
    nextSlot
    positionSlots := Function.update slots.positionSlots d
      (Function.update (slots.positionSlots d) handle (some coords))
    buffers := slots.buffers ++ coords.coords.map dynamicF32Buffer }

/-- The slot of a scalar: `scalar_slots[handle] = Some(slot)`, and its buffer. -/
def insertScalar (slots : CompileSlots) (handle : ℕ) (slot : BufferSlot) (nextSlot : ℕ) :
    CompileSlots :=
  { slots with
    nextSlot
    scalarSlots := Function.update slots.scalarSlots handle (some slot)
    buffers := slots.buffers ++ [dynamicF32Buffer slot] }

/-- The slots of one node. -/
def allocate (build : Build) (graph : CompileNodes) (slots : CompileSlots) (handle : ℕ) :
    HookResult CompileSlots := do
  let output ← graph.output handle
  match output with
  | .position d => do
      let (coords, next) ← allocatePositionSlots build d slots.nextSlot
      return slots.insertPosition d handle coords next
  | .scalar _ => do
      let (slot, next) ← allocateSlot build slots.nextSlot
      return slots.insertScalar handle slot next

/-- The slots of some nodes. -/
def allocateAll (build : Build) (graph : CompileNodes) (slots : CompileSlots) :
    List ℕ → HookResult CompileSlots
  | [] => .ok slots
  | handle :: rest => do
      let slots ← slots.allocate build graph handle
      slots.allocateAll build graph rest

/-- `expect_position_slots`. -/
def expectPositionSlots (slots : CompileSlots) (d : GraphDimension) (handle : ℕ) :
    HookResult (PositionSlots d) :=
  match slots.positionSlots d handle with
  | some coords => .ok coords
  | none => .panicked

/-- `expect_scalar_slot`. -/
def expectScalarSlot (slots : CompileSlots) (handle : ℕ) : HookResult BufferSlot :=
  match slots.scalarSlots handle with
  | some slot => .ok slot
  | none => .panicked

/-- `resolve_position_source`. -/
def resolvePositionSource (slots : CompileSlots) (graph : CompileNodes) (d : GraphDimension) :
    PositionSource → HookResult (PositionSlots d)
  | .base => .ok (basePositionSlots d)
  | .node id => do
      let handle ← graph.resolveNode id
      slots.expectPositionSlots d handle

/-! ### Kernels -/

/-- The payload of a warp node. -/
def warpPayload (slots : CompileSlots) (graph : CompileNodes) (d : GraphDimension)
    (handle : ℕ) (node : NoiseNode) : HookResult KernelPayload := do
  let source ← slots.resolvePositionSource graph d node.source
  let output ← slots.expectPositionSlots d handle
  return .warp d { source, output, noise := node.noise }

/-- The payload of a sample node. -/
def samplePayload (slots : CompileSlots) (graph : CompileNodes) (d : GraphDimension)
    (handle : ℕ) (node : NoiseNode) : HookResult KernelPayload := do
  let source ← slots.resolvePositionSource graph d node.source
  let output ← slots.expectScalarSlot handle
  return .sample d { source, output, noise := node.noise }

/-- The payload of a combine node. -/
def combinePayload (slots : CompileSlots) (graph : CompileNodes) (handle : ℕ)
    (node : CombineNode) : HookResult KernelPayload := do
  let inputs ← HookResult.traverse (fun input => do
    let inputHandle ← graph.resolveNode input
    slots.expectScalarSlot inputHandle) node.inputs
  let output ← slots.expectScalarSlot handle
  return .combine { op := node.op, inputs, output, params := node.params }

/-- The payload of a node. -/
def payload (slots : CompileSlots) (graph : CompileNodes) (handle : ℕ) :
    HookResult KernelPayload := do
  let node ← graph.node handle
  match node with
  | .warp2D node => slots.warpPayload graph .d2 handle node
  | .warp3D node => slots.warpPayload graph .d3 handle node
  | .sample2D node => slots.samplePayload graph .d2 handle node
  | .sample3D node => slots.samplePayload graph .d3 handle node
  | .combine node => slots.combinePayload graph handle node

end CompileSlots

/-- The first stage of every plan. -/
def initStage (dimension : GraphDimension) : StageSpec where
  kernels := [{
    kindId :=
      match dimension with
      | .d2 => FastNoiseKernel.initGrid2d.kind
      | .d3 => FastNoiseKernel.initGrid3d.kind
    payload := []
    bindings := [⟨slotQueryMeta, .read⟩, ⟨slotQueryF32, .read⟩, ⟨slotQueryOffsets, .read⟩]
    dispatch := .wholeBatch }]

/-- `compile_graph`. -/
def compileGraph (build : Build) (state : FastNoiseState) :
    HookResult (CompiledPlan FastNoisePlannerMeta) := do
  let graph := CompileNodes.build state
  let deps ← HookResult.traverse graph.collectDependencies (List.range graph.len)
  let finalHandle ← graph.resolveNode state.finalField
  let sorted := toposort graph.len fun handle => deps.getD handle []
  let slots ← (CompileSlots.start state.dimension).allocateAll build graph sorted
  let payloads ← HookResult.traverse (slots.payload graph) sorted
  let finalSlot ← slots.expectScalarSlot finalHandle
  return {
    pipeline := {
      buffers := slots.buffers
      stages := initStage state.dimension :: payloads.map fun payload => ⟨[payload.encode]⟩ }
    staticBuffers := []
    plannerMeta := { dimension := state.dimension, finalSlot } }

end Braids
