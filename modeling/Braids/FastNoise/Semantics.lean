import Braids.FastNoise.Layout
import Braids.FastNoise.Grid
import Braids.Lib.Dataflow

/-!
# What a FastNoise Graph Means

The value of a node at a point of the grid, by recursion over the definitions of the nodes:
the coordinates of a warped position, or one number. A node reads some of the coordinates
of the point and of the values of its references (its ports), and applies its body to them.

## Main results

* `body_wire`: the parameters that survive the encoding are enough.
* `body_total`, `ordered_of_body`: the body of a supported node is defined on all that it
  reads, and a clamp with unordered bounds on nothing.
-/

namespace Braids

open Dataflow

/-! ### Ports -/

/-- A number that a node reads: a coordinate of the point, or of a reference. -/
inductive Port
  | base (i : ℕ)
  | arg (i j : ℕ)
  deriving DecidableEq, Repr

/-- Reading a port. -/
def Port.read {α : Type} (base : List α) (args : List (List α)) : Port → Option α
  | .base i => base[i]?
  | .arg i j => (args[i]?).bind (·[j]?)

/-- The coordinates of a source. -/
def PositionSource.ports (d : GraphDimension) : PositionSource → List Port
  | .base => (List.range d.size).map .base
  | .node _ => (List.range d.size).map (.arg 0)

namespace CombineOp

/-- How many inputs an operation reads. -/
def inputCount : CombineOp → ℕ
  | .add | .sub | .mul | .min | .max => 2
  | .clamp | .remap | .yGradient => 1

/-- How many parameters an operation reads. -/
def paramCount : CombineOp → ℕ
  | .add | .sub | .mul | .min | .max => 0
  | .clamp => 2
  | .remap | .yGradient => 4

/-- The inputs of an operation. The gradient also reads the height of the point. -/
def ports : CombineOp → List Port
  | .add | .sub | .mul | .min | .max => [.arg 0 0, .arg 1 0]
  | .clamp | .remap => [.arg 0 0]
  | .yGradient => [.arg 0 0, .base 1]

end CombineOp

/-- The numbers that a node reads. -/
def NodeSpec.ports : NodeSpec → List Port
  | .warp2D node => node.source.ports .d2
  | .warp3D node => node.source.ports .d3
  | .sample2D node => node.source.ports .d2
  | .sample3D node => node.source.ports .d3
  | .combine node => node.op.ports

/-! ### Bodies -/

/-- An operation on two numbers. -/
def binaryBody (op : F32 → F32 → F32) : List F32 → Option (List F32)
  | [a, b] => some [op a b]
  | _ => none

/-- What an operation computes of its inputs. -/
def CombineOp.body (num : Numerics) (params : List F32) :
    CombineOp → Option (List F32 → Option (List F32))
  | .add => some (binaryBody num.add)
  | .sub => some (binaryBody num.sub)
  | .mul => some (binaryBody num.mul)
  | .min => some (binaryBody num.min)
  | .max => some (binaryBody num.max)
  | .clamp =>
      match params with
      | minValue :: maxValue :: _ => some fun
          | [value] => (value.clamp minValue maxValue).map ([·])
          | _ => none
      | _ => none
  | .remap =>
      match params with
      | srcMin :: srcMax :: dstMin :: dstMax :: _ => some fun
          | [value] => (num.rescale srcMin srcMax dstMin dstMax value).map ([·])
          | _ => none
      | _ => none
  | .yGradient =>
      match params with
      | yMin :: yMax :: outMin :: outMax :: _ => some fun
          | [value, y] => (num.rescale yMin yMax outMin outMax y).map fun gradient =>
              [num.add value gradient]
          | _ => none
      | _ => none

/-- What a node computes of the numbers that it reads. -/
def NodeSpec.body (num : Numerics) : NodeSpec → Option (List F32 → Option (List F32))
  | .warp2D node => some (num.domainWarp node.noise)
  | .warp3D node => some (num.domainWarp node.noise)
  | .sample2D node => some fun point => (num.getNoise node.noise point).map ([·])
  | .sample3D node => some fun point => (num.getNoise node.noise point).map ([·])
  | .combine node => node.op.body num node.params

/-! ### Evaluation -/

namespace FastNoiseState

/-- The graph of a state at a point. -/
def graph (num : Numerics) (state : FastNoiseState) (point : List F32) :
    Graph (String × Need) NodeSpec (List F32) where
  node := state.lookup
  references := NodeSpec.references
  compute node args := do
    let inputs ← node.ports.mapM (Port.read point args)
    let body ← node.body num
    body inputs

/-- `final_field` at a point. -/
def field (num : Numerics) (state : FastNoiseState) (fuel : ℕ) (point : List F32) : Option F32 :=
  ((state.lookup (state.finalField, .scalar)).bind ((state.graph num point).eval fuel)).bind
    List.head?

/-- The lists of samples of a batch: `final_field` at the points of each query. -/
def Samples (num : Numerics) (state : FastNoiseState) (fuel : ℕ) (queries : List ChunkQuery)
    (sampleLists : List (List F32)) : Prop :=
  List.Forall₂ (fun query samples => List.Forall₂
    (fun point sample => state.field num fuel point = some sample) (query.points num) samples)
    queries sampleLists

end FastNoiseState

/-! ### Nodes that run -/

namespace CombineNode

/-- The node has its inputs and parameters, the inputs are distinct, and the bounds of a
clamp are ordered. -/
structure Supported (node : CombineNode) : Prop where
  inputs : node.op.inputCount ≤ node.inputs.length
  distinct : (node.inputs.take node.op.inputCount).Nodup
  params : node.op.paramCount ≤ node.params.length
  ordered : node.op = .clamp →
    F32.le (node.params.getD 0 F32.zero) (node.params.getD 1 F32.zero) = true

end CombineNode

namespace NodeSpec

/-- The node can be evaluated in a graph of that dimension. -/
def Supported (d : GraphDimension) : NodeSpec → Prop
  | .warp2D _ | .sample2D _ => True
  | .warp3D node | .sample3D node => node.source = .base → d = .d3
  | .combine node => node.Supported

/-- The parameters that the operation reads survive the encoding of their count. -/
def ParamsFit : NodeSpec → Prop
  | .combine node => node.op.paramCount ≤ node.params.length % 2 ^ 32
  | _ => True

/-- The inputs are fewer than their encoded count can tell. -/
def InputsFit : NodeSpec → Prop
  | .combine node => node.inputs.length < 2 ^ 32
  | _ => True

/-- The node with the parameters that survive the encoding. -/
def wire : NodeSpec → NodeSpec
  | .combine node => .combine { node with params := wireParams node.params }
  | node => node

end NodeSpec

/-! ### Bodies that are defined -/

/-- The scaled ratio is always defined. -/
theorem Numerics.rescale_isSome (num : Numerics) (srcMin srcMax dstMin dstMax value : F32) :
    ∃ result, num.rescale srcMin srcMax dstMin dstMax value = some result := by
  have hle : F32.le F32.zero F32.one = true := by decide
  rw [Numerics.rescale]
  simp only [F32.clamp, hle, if_true]
  split <;> exact ⟨_, rfl⟩

/-- An operation has a body when it has its parameters. -/
theorem CombineOp.body_isSome (num : Numerics) (op : CombineOp) (params : List F32) :
    (op.body num params).isSome = true ↔ op.paramCount ≤ params.length := by
  rcases params with _ | ⟨a, _ | ⟨b, _ | ⟨c, _ | ⟨d, params⟩⟩⟩⟩ <;> cases op <;>
    simp [CombineOp.body, CombineOp.paramCount]

/-- Only the parameters that the operation reads matter. -/
theorem CombineOp.body_take (num : Numerics) (op : CombineOp) {params : List F32} {n : ℕ}
    (h : op.paramCount ≤ n) : op.body num (params.take n) = op.body num params := by
  rcases n with _ | _ | _ | _ | n <;>
    rcases params with _ | ⟨a, _ | ⟨b, _ | ⟨c, _ | ⟨d, params⟩⟩⟩⟩ <;> cases op <;>
    simp_all [CombineOp.body, CombineOp.paramCount]

namespace NodeSpec

/-- **The parameters that survive** are enough. -/
theorem body_wire (num : Numerics) {node : NodeSpec} (h : node.ParamsFit) :
    node.wire.body num = node.body num := by
  cases node with
  | combine node => exact CombineOp.body_take num node.op h
  | _ => rfl

/-- A node whose parameters did not survive has no body. -/
theorem paramsFit_of_body (num : Numerics) {node : NodeSpec}
    (h : (node.wire.body num).isSome = true) : node.ParamsFit := by
  cases node with
  | combine node =>
      have hlen := (CombineOp.body_isSome num node.op (wireParams node.params)).mp h
      rw [wireParams, List.length_take] at hlen
      exact Nat.le_trans hlen (Nat.min_le_left _ _)
  | _ => trivial

end NodeSpec

/-- The body of a warp is defined on positions. -/
theorem domainWarp_isSome (num : Numerics) (noise : FastNoiseLite) (d : GraphDimension)
    {v : List F32} (h : v.length = d.size) :
    ∃ w, num.domainWarp noise v = some w ∧ w.length = d.size := by
  cases d with
  | d2 =>
      obtain ⟨x, y, rfl⟩ := List.length_eq_two.mp h
      exact ⟨_, rfl, rfl⟩
  | d3 =>
      obtain ⟨x, y, z, rfl⟩ := List.length_eq_three.mp h
      exact ⟨_, rfl, rfl⟩

/-- Noise is defined on positions. -/
theorem getNoise_isSome (num : Numerics) (noise : FastNoiseLite) (d : GraphDimension)
    {v : List F32} (h : v.length = d.size) : ∃ x, num.getNoise noise v = some x := by
  cases d with
  | d2 =>
      obtain ⟨x, y, rfl⟩ := List.length_eq_two.mp h
      exact ⟨_, rfl⟩
  | d3 =>
      obtain ⟨x, y, z, rfl⟩ := List.length_eq_three.mp h
      exact ⟨_, rfl⟩

/-- An operation on two numbers is defined. -/
theorem binaryBody_isSome (op : F32 → F32 → F32) {v : List F32} (h : v.length = 2) :
    ∃ w, binaryBody op v = some w ∧ w.length = 1 := by
  obtain ⟨a, b, rfl⟩ := List.length_eq_two.mp h
  exact ⟨_, rfl, rfl⟩

@[simp] theorem PositionSource.length_ports (d : GraphDimension) (source : PositionSource) :
    (source.ports d).length = d.size := by
  cases source <;> simp [PositionSource.ports]

/-- **The body of a supported combine** is defined on its inputs. -/
theorem CombineNode.body_total (num : Numerics) {node : CombineNode} (h : node.Supported) :
    ∃ f, node.op.body num node.params = some f ∧ ∀ v : List F32,
      v.length = node.op.ports.length → ∃ w, f v = some w ∧ w.length = 1 := by
  obtain ⟨-, -, hparams, hordered⟩ := h
  obtain ⟨id, inputs, op, params⟩ := node
  cases op with
  | add => exact ⟨_, rfl, fun v hv => binaryBody_isSome num.add hv⟩
  | sub => exact ⟨_, rfl, fun v hv => binaryBody_isSome num.sub hv⟩
  | mul => exact ⟨_, rfl, fun v hv => binaryBody_isSome num.mul hv⟩
  | min => exact ⟨_, rfl, fun v hv => binaryBody_isSome num.min hv⟩
  | max => exact ⟨_, rfl, fun v hv => binaryBody_isSome num.max hv⟩
  | clamp =>
      rcases params with _ | ⟨minValue, _ | ⟨maxValue, params⟩⟩ <;>
        simp only [CombineOp.paramCount, List.length_cons, List.length_nil] at hparams
      · omega
      · omega
      · refine ⟨_, rfl, fun v hv => ?_⟩
        obtain ⟨value, rfl⟩ := List.length_eq_one_iff.mp hv
        have hle : F32.le minValue maxValue = true := hordered rfl
        simp only [F32.clamp, hle, if_true]
        exact ⟨_, rfl, rfl⟩
  | remap =>
      rcases params with _ | ⟨srcMin, _ | ⟨srcMax, _ | ⟨dstMin, _ | ⟨dstMax, params⟩⟩⟩⟩ <;>
        simp only [CombineOp.paramCount, List.length_cons, List.length_nil] at hparams
      · omega
      · omega
      · omega
      · omega
      · refine ⟨_, rfl, fun v hv => ?_⟩
        obtain ⟨value, rfl⟩ := List.length_eq_one_iff.mp hv
        obtain ⟨x, hx⟩ := num.rescale_isSome srcMin srcMax dstMin dstMax value
        exact ⟨[x], by simp [hx], rfl⟩
  | yGradient =>
      rcases params with _ | ⟨yMin, _ | ⟨yMax, _ | ⟨outMin, _ | ⟨outMax, params⟩⟩⟩⟩ <;>
        simp only [CombineOp.paramCount, List.length_cons, List.length_nil] at hparams
      · omega
      · omega
      · omega
      · omega
      · refine ⟨_, rfl, fun v hv => ?_⟩
        obtain ⟨value, y, rfl⟩ := List.length_eq_two.mp hv
        obtain ⟨x, hx⟩ := num.rescale_isSome yMin yMax outMin outMax y
        exact ⟨[num.add value x], by simp [hx], rfl⟩

namespace NodeSpec

/-- **The body of a supported node** is defined on what it reads. -/
theorem body_total (num : Numerics) {d : GraphDimension} {node : NodeSpec}
    (h : node.Supported d) :
    ∃ f, node.body num = some f ∧ ∀ v : List F32, v.length = node.ports.length →
      ∃ w, f v = some w ∧ w.length = (node.outputKind d).width := by
  cases node with
  | warp2D node =>
      exact ⟨_, rfl, fun v hv => domainWarp_isSome num node.noise .d2 (by simpa [ports] using hv)⟩
  | warp3D node =>
      exact ⟨_, rfl, fun v hv => domainWarp_isSome num node.noise .d3 (by simpa [ports] using hv)⟩
  | sample2D node =>
      refine ⟨_, rfl, fun v hv => ?_⟩
      obtain ⟨x, hx⟩ := getNoise_isSome num node.noise .d2 (v := v) (by simpa [ports] using hv)
      exact ⟨[x], by simp [hx], rfl⟩
  | sample3D node =>
      refine ⟨_, rfl, fun v hv => ?_⟩
      obtain ⟨x, hx⟩ := getNoise_isSome num node.noise .d3 (v := v) (by simpa [ports] using hv)
      exact ⟨[x], by simp [hx], rfl⟩
  | combine node => exact CombineNode.body_total num h

/-- The bounds of a clamp that is defined somewhere are ordered. -/
theorem ordered_of_body (num : Numerics) {node : CombineNode}
    {f : List F32 → Option (List F32)} (hf : node.op.body num node.params = some f)
    {v w : List F32} (hv : f v = some w) (hop : node.op = .clamp) :
    F32.le (node.params.getD 0 F32.zero) (node.params.getD 1 F32.zero) = true := by
  obtain ⟨id, inputs, op, params⟩ := node
  obtain rfl : op = .clamp := hop
  rcases params with _ | ⟨minValue, _ | ⟨maxValue, params⟩⟩
  · simp [CombineOp.body] at hf
  · simp [CombineOp.body] at hf
  · simp only [CombineOp.body, Option.some.injEq] at hf
    subst hf
    by_contra hle
    change ¬ F32.le minValue maxValue = true at hle
    beta_reduce at hv
    split at hv
    · simp [F32.clamp, hle] at hv
    · simp at hv

end NodeSpec

end Braids
