import Braids.SlotTable
import Braids.Packet.Pipeline

/-!
# FastNoise Graphs

The data of the FastNoise planner (`model.rs` of `fastnoise`): node graphs, queries and
summaries, and the planner state with the changes that it takes (`FastNoiseState` of
`runtime.rs`).

## Conventions

* Floats are bit patterns. Comparisons, `abs` and `clamp` are those of the standard. What
  rounds, and what the noise generators compute, is a parameter: a `Numerics`.
* A noise generator is the fifteen values that its setters set.
-/

namespace Braids

/-! ### Floats -/

namespace F32

/-- `0.0`. -/
def zero : F32 := ⟨0⟩

/-- `1.0`. -/
def one : F32 := ⟨0x3F800000⟩

/-- `f32::EPSILON`. -/
def epsilon : F32 := ⟨0x34000000⟩

/-- `abs`. -/
def abs (a : F32) : F32 := ⟨a.bits &&& 0x7FFFFFFF⟩

/-- `is_nan`. -/
def isNan (a : F32) : Bool := 0x7F800000 < a.abs.bits

/-- The position of a number among the others. Both zeros have the same. -/
def order (a : F32) : Int :=
  if a.bits = a.abs.bits then (a.abs.bits.toNat : Int) else -(a.abs.bits.toNat : Int)

/-- `a <= b`. -/
def le (a b : F32) : Bool := !a.isNan && !b.isNan && decide (a.order ≤ b.order)

/-- `a < b`. -/
def lt (a b : F32) : Bool := !a.isNan && !b.isNan && decide (a.order < b.order)

/-- `clamp`, which panics unless the bounds are ordered. -/
def clamp (a min max : F32) : Option F32 :=
  if le min max then
    let a := if a.lt min then min else a
    some (if max.lt a then max else a)
  else none

end F32

/-- An `f64`, as its bit pattern. -/
structure F64 where
  bits : UInt64
  deriving DecidableEq, Repr

/-! ### Graphs -/

inductive GraphDimension
  | d2
  | d3
  deriving DecidableEq, Repr

/-- The number of coordinates. -/
def GraphDimension.size : GraphDimension → ℕ
  | .d2 => 2
  | .d3 => 3

inductive PositionSource
  | base
  | node (id : String)
  deriving DecidableEq, Repr

inductive CombineOp
  | add
  | sub
  | mul
  | min
  | max
  | clamp
  | remap
  | yGradient
  deriving DecidableEq, Repr

inductive NoiseType
  | openSimplex2
  | openSimplex2S
  | cellular
  | perlin
  | valueCubic
  | value
  deriving DecidableEq, Repr

inductive RotationType3D
  | none
  | improveXYPlanes
  | improveXZPlanes
  deriving DecidableEq, Repr

inductive FractalType
  | none
  | fBm
  | ridged
  | pingPong
  | domainWarpProgressive
  | domainWarpIndependent
  deriving DecidableEq, Repr

inductive CellularDistanceFunction
  | euclidean
  | euclideanSq
  | manhattan
  | hybrid
  deriving DecidableEq, Repr

inductive CellularReturnType
  | cellValue
  | distance
  | distance2
  | distance2Add
  | distance2Sub
  | distance2Mul
  | distance2Div
  deriving DecidableEq, Repr

inductive DomainWarpType
  | openSimplex2
  | openSimplex2Reduced
  | basicGrid
  deriving DecidableEq, Repr

/-- A generator of the noise library: the values that its setters set. A value of this type is a
generator that was configured through its setters, which is the only way the library documents. -/
structure FastNoiseLite where
  seed : Int32
  frequency : F32
  noiseType : NoiseType
  rotationType3d : RotationType3D
  fractalType : FractalType
  octaves : Int32
  lacunarity : F32
  gain : F32
  weightedStrength : F32
  pingPongStrength : F32
  cellularDistanceFunction : CellularDistanceFunction
  cellularReturnType : CellularReturnType
  cellularJitterModifier : F32
  domainWarpType : DomainWarpType
  domainWarpAmp : F32
  deriving DecidableEq, Repr

/-- A node that reads positions: the warps move them, the samples turn them into noise. -/
structure NoiseNode where
  id : String
  source : PositionSource
  noise : FastNoiseLite
  deriving DecidableEq, Repr

abbrev Warp2DNode := NoiseNode

abbrev Warp3DNode := NoiseNode

abbrev Sample2DNode := NoiseNode

abbrev Sample3DNode := NoiseNode

structure CombineNode where
  id : String
  inputs : List String
  op : CombineOp
  params : List F32
  deriving DecidableEq, Repr

inductive NodeSpec
  | warp2D (node : Warp2DNode)
  | warp3D (node : Warp3DNode)
  | sample2D (node : Sample2DNode)
  | sample3D (node : Sample3DNode)
  | combine (node : CombineNode)
  deriving DecidableEq, Repr

inductive OutputKind
  | position (dimension : GraphDimension)
  | scalar (dimension : GraphDimension)
  deriving DecidableEq, Repr

namespace NodeSpec

/-- `id`. -/
def id : NodeSpec → String
  | .warp2D node => node.id
  | .warp3D node => node.id
  | .sample2D node => node.id
  | .sample3D node => node.id
  | .combine node => node.id

/-- `output_kind`. -/
def outputKind (graphDimension : GraphDimension) : NodeSpec → OutputKind
  | .warp2D _ => .position .d2
  | .warp3D _ => .position .d3
  | .sample2D _ => .scalar .d2
  | .sample3D _ => .scalar .d3
  | .combine _ => .scalar graphDimension

end NodeSpec

structure FastNoiseGraphSpec where
  dimension : GraphDimension
  nodes : List NodeSpec
  finalField : String
  deriving DecidableEq, Repr

inductive FastNoiseChange
  | upsertNode (node : NodeSpec)
  | removeNode (id : String)
  | setFinalField (id : String)
  deriving DecidableEq, Repr

/-! ### Queries -/

inductive ChunkQuery
  | grid2D (width height : ℕ) (originX originY stepX stepY : F32)
  | grid3D (width height depth : ℕ) (originX originY originZ stepX stepY stepZ : F32)
  deriving DecidableEq, Repr

/-- The dimension of the grid. -/
def ChunkQuery.dimension : ChunkQuery → GraphDimension
  | .grid2D .. => .d2
  | .grid3D .. => .d3

structure ChunkSummary where
  samples : ℕ
  min : F32
  max : F32
  mean : F32
  checksum : UInt64
  taps : List F32
  deriving DecidableEq, Repr

/-- What the hardware and the noise library compute. Each field is a total function: the noise and
warp calls of the library are taken to return, without a panic and with a value that only depends
on the generator and the position. -/
structure Numerics where
  add : F32 → F32 → F32
  sub : F32 → F32 → F32
  mul : F32 → F32 → F32
  div : F32 → F32 → F32
  min : F32 → F32 → F32
  max : F32 → F32 → F32
  /-- `as f32`. -/
  ofUsize : ℕ → F32
  /-- `f64::from`. -/
  toF64 : F32 → F64
  addF64 : F64 → F64 → F64
  divF64 : F64 → F64 → F64
  /-- `as f64`. -/
  ofUsizeF64 : ℕ → F64
  /-- `as f32`, from an `f64`. -/
  ofF64 : F64 → F32
  getNoise2d : FastNoiseLite → F32 → F32 → F32
  getNoise3d : FastNoiseLite → F32 → F32 → F32 → F32
  domainWarp2d : FastNoiseLite → F32 → F32 → F32 × F32
  domainWarp3d : FastNoiseLite → F32 → F32 → F32 → F32 × F32 × F32

/-- The floats of the machine, with noise that is zero everywhere. -/
def Numerics.silent : Numerics where
  add a b := ⟨(Float32.ofBits a.bits + Float32.ofBits b.bits).toBits⟩
  sub a b := ⟨(Float32.ofBits a.bits - Float32.ofBits b.bits).toBits⟩
  mul a b := ⟨(Float32.ofBits a.bits * Float32.ofBits b.bits).toBits⟩
  div a b := ⟨(Float32.ofBits a.bits / Float32.ofBits b.bits).toBits⟩
  min a b := if a.isNan || b.lt a then b else a
  max a b := if a.isNan || a.lt b then b else a
  ofUsize n := ⟨(Float32.ofNat n).toBits⟩
  toF64 a := ⟨(Float32.ofBits a.bits).toFloat.toBits⟩
  addF64 a b := ⟨(Float.ofBits a.bits + Float.ofBits b.bits).toBits⟩
  divF64 a b := ⟨(Float.ofBits a.bits / Float.ofBits b.bits).toBits⟩
  ofUsizeF64 n := ⟨(Float.ofNat n).toBits⟩
  ofF64 a := ⟨(Float.ofBits a.bits).toFloat32.toBits⟩
  getNoise2d _ _ _ := ⟨0⟩
  getNoise3d _ _ _ _ := ⟨0⟩
  domainWarp2d _ x y := (x, y)
  domainWarp3d _ x y z := (x, y, z)

/-! ### The planner state -/

structure FastNoiseState where
  dimension : GraphDimension
  finalField : String
  nodes : SlotTable NodeSpec
  nodeKeys : String → Option SlotKey

namespace FastNoiseState

/-- `upsert_node`. -/
def upsertNode (state : FastNoiseState) (node : NodeSpec) : HookResult FastNoiseState :=
  match (state.nodeKeys node.id).bind fun existing => state.nodes.write existing node with
  | some nodes => .ok { state with nodes }
  | none => do
      let (key, nodes) ← state.nodes.insert node
      return { state with
        nodes
        nodeKeys := fun id => if id = node.id then some key else state.nodeKeys id }

/-- `remove_node`. -/
def removeNode (state : FastNoiseState) (id : String) : HookResult FastNoiseState :=
  match state.nodeKeys id with
  | none => .ok state
  | some key => do
      let (_, nodes) ← state.nodes.remove key
      return { state with
        nodes
        nodeKeys := fun id' => if id' = id then none else state.nodeKeys id' }

/-- The loop of `reset_from_spec`. -/
def upsertNodes (state : FastNoiseState) : List NodeSpec → HookResult FastNoiseState
  | [] => .ok state
  | node :: nodes => do
      let state ← state.upsertNode node
      state.upsertNodes nodes

/-- `reset_from_spec`, which is also `reset_state`. -/
def resetFromSpec (state : FastNoiseState) (spec : FastNoiseGraphSpec) :
    HookResult FastNoiseState :=
  upsertNodes
    { dimension := spec.dimension
      finalField := spec.finalField
      nodes := state.nodes.clearReuse
      nodeKeys := fun _ => none } spec.nodes

/-- `from_spec`, which is also `init_state`. -/
def fromSpec (spec : FastNoiseGraphSpec) : HookResult FastNoiseState :=
  resetFromSpec
    { dimension := spec.dimension
      finalField := spec.finalField
      nodes := {}
      nodeKeys := fun _ => none } spec

/-- One change of `apply`. -/
def applyChange (state : FastNoiseState) : FastNoiseChange → HookResult FastNoiseState
  | .upsertNode node => state.upsertNode node
  | .removeNode id => state.removeNode id
  | .setFinalField id => .ok { state with finalField := id }

/-- `apply`, which is also `updated_state`. -/
def apply (state : FastNoiseState) : List FastNoiseChange → HookResult FastNoiseState
  | [] => .ok state
  | change :: changes => do
      let state ← state.applyChange change
      state.apply changes

/-- The states that a planner can be in. -/
inductive Reachable : FastNoiseState → Prop
  | fromSpec {spec : FastNoiseGraphSpec} {state : FastNoiseState}
      (h : fromSpec spec = .ok state) : Reachable state
  | resetFromSpec {state state' : FastNoiseState} {spec : FastNoiseGraphSpec}
      (hstate : Reachable state) (h : state.resetFromSpec spec = .ok state') : Reachable state'
  | apply {state state' : FastNoiseState} {changes : List FastNoiseChange}
      (hstate : Reachable state) (h : state.apply changes = .ok state') : Reachable state'

/-! #### Changes do not panic -/

/-- `upsert_node` succeeds on a well-formed table. -/
theorem upsertNode_ok {state : FastNoiseState} (h : state.nodes.Wf) (node : NodeSpec) :
    ∃ state', state.upsertNode node = .ok state' ∧ state'.nodes.Wf := by
  rw [upsertNode]
  split
  · next nodes hwrite =>
      obtain ⟨key, -, hw⟩ := Option.bind_eq_some_iff.mp hwrite
      exact ⟨_, rfl, h.write hw⟩
  · obtain ⟨key, nodes, hinsert, hwf⟩ := h.insert node
    exact ⟨_, by rw [hinsert]; rfl, hwf⟩

/-- `remove_node` succeeds on a well-formed table. -/
theorem removeNode_ok {state : FastNoiseState} (h : state.nodes.Wf) (id : String) :
    ∃ state', state.removeNode id = .ok state' ∧ state'.nodes.Wf := by
  rw [removeNode]
  split
  · exact ⟨_, rfl, h⟩
  · next key hkey =>
      obtain ⟨value, nodes, hremove, hwf⟩ := h.remove key
      exact ⟨_, by rw [hremove]; rfl, hwf⟩

/-- **Applying changes succeeds** on a well-formed table. -/
theorem apply_ok {state : FastNoiseState} (h : state.nodes.Wf)
    (changes : List FastNoiseChange) :
    ∃ state', state.apply changes = .ok state' ∧ state'.nodes.Wf := by
  induction changes generalizing state with
  | nil => exact ⟨state, rfl, h⟩
  | cons change changes ih =>
      have hchange : ∃ state', state.applyChange change = .ok state' ∧ state'.nodes.Wf := by
        cases change with
        | upsertNode node => exact upsertNode_ok h node
        | removeNode id => exact removeNode_ok h id
        | setFinalField id => exact ⟨_, rfl, h⟩
      obtain ⟨state₁, hfirst, hwf⟩ := hchange
      obtain ⟨state', hrest, hwf'⟩ := ih hwf
      exact ⟨state', by rw [apply, hfirst, HookResult.ok_bind, hrest], hwf'⟩

end FastNoiseState

end Braids
