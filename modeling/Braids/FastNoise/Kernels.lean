import Braids.FastNoise.Compile
import Braids.Packet.View

/-!
# Running FastNoise Kernels

The kernels of `runtime.rs` on a packet, and the loops of the CPU backend over the kernels
of a stage.

A kernel borrows its input and output slots at once with `with_slices`, reads its inputs
and writes its outputs index by index. An index out of bounds panics. The inputs are not
written, so the values are computed first and then written in the order of the loop.

Kernels check the cancel flag in their loops. How the loops run is a parameter of the kernels
(`KernelLoops`): in the loops of this module the flag is not set, so its checks are left out.
-/

namespace Braids

/-- `CANCEL_CHECK_EVERY_2D` and `CANCEL_CHECK_EVERY_3D`. -/
def cancelCheckEvery : GraphDimension → ℕ
  | .d2 => 4096
  | .d3 => 2048

/-- `CANCEL_CHECK_MASK_2D` and `CANCEL_CHECK_MASK_3D`. -/
def cancelCheckMask (d : GraphDimension) : ℕ := cancelCheckEvery d - 1

/-- `total_samples_from_offsets`. -/
def totalSamplesFromOffsets (offsets : List UInt32) : ℕ := (offsets.getLast?.getD 0).toNat

/-! ### Writing outputs -/

/-- One round of a loop: `out[index] = value` for every output. -/
def writeAt (index : ℕ) (outs : List (List F32)) (values : List F32) :
    Option (List (List F32)) :=
  if outs.all fun out => index < out.length then
    some (outs.zipWith (fun out value => out.set index value) values)
  else none

/-- A loop that writes values at indices. -/
def writeAll (outs : List (List F32)) : List (ℕ × List F32) → Option (List (List F32))
  | [] => some outs
  | (index, values) :: rest => do
      let outs ← writeAt index outs values
      writeAll outs rest

/-- `input[index]` for every input. -/
def readAt (index : ℕ) (inputs : List (List F32)) : Option (List F32) :=
  if inputs.all fun input => index < input.length then
    some (inputs.map fun input => input.getD index F32.zero)
  else none

/-- The values that a loop over `indices` computes from its inputs with `f`. -/
def pointwise (f : List F32 → Option (List F32)) (inputs : List (List F32)) :
    List ℕ → Option (List (ℕ × List F32))
  | [] => some []
  | index :: indices => do
      let args ← readAt index inputs
      let values ← f args
      let rest ← pointwise f inputs indices
      return (index, values) :: rest

/-- The loop of a kernel over the elements of its outputs, with `f` as its body. The inputs
are the first of the buffers. -/
def pointwiseLoop (inputCount : ℕ) (f : List F32 → Option (List F32))
    (buffers : List (List F32)) : Option (BraidResult Unit × List (List F32)) := do
  let ins := buffers.take inputCount
  let outs := buffers.drop inputCount
  let writes ← pointwise f ins (List.range (outs.headD []).length)
  let outs ← writeAll outs writes
  return (.ok (), ins ++ outs)

/-- Such a loop on the slots of a packet. -/
def runPointwise (inputs outputs : List BufferSlot) (f : List F32 → Option (List F32)) :
    PacketM Unit :=
  JobPacket.withSlices .f32 (inputs ++ outputs) (pointwiseLoop inputs.length f)

/-- `ensure` for some slots, one after another. -/
def ensureAll (total : ℕ) : List BufferSlot → PacketM Unit
  | [] => pure ()
  | slot :: slots => do
      let _ ← JobPacket.ensure .f32 slot total some
      ensureAll total slots

/-- The number of samples of the batch in a packet. -/
def readTotal : PacketM ℕ := do
  let offsets ← .read (JobPacket.slice .u32 slotQueryOffsets)
  return totalSamplesFromOffsets offsets

/-! ### The sample grid -/

/-- A coordinate of the grid: `origin + (i as f32 * step)`. -/
def Numerics.coordinate (num : Numerics) (origin step : F32) (i : ℕ) : F32 :=
  num.add origin (num.mul (num.ofUsize i) step)

/-- The cells of a grid in the order of the loops, with their indices. -/
def gridCells : GraphDimension → (width height depth : ℕ) → List (List ℕ × ℕ)
  | .d2, width, height, _ =>
      (List.range height).flatMap fun y =>
        (List.range width).map fun x => ([x, y], y * width + x)
  | .d3, width, height, depth =>
      (List.range depth).flatMap fun z =>
        (List.range height).flatMap fun y =>
          (List.range width).map fun x => ([x, y, z], (z * height + y) * width + x)

/-- `values[start]` and the elements after it. -/
def readMany {α : Type} (values : List α) (start count : ℕ) : Option (List α) :=
  if start + count ≤ values.length then some ((values.drop start).take count) else none

/-- The depth of a grid, which a 2D grid does not have. -/
def readDepth (d : GraphDimension) (metas : List UInt32) (metaBase : ℕ) : Option UInt32 :=
  match d with
  | .d2 => some 1
  | .d3 => metas[metaBase + 2]?

/-- The loops of `GridInitKernel`, from the query with the given index on. -/
def gridWrites (num : Numerics) (d : GraphDimension) (metas : List UInt32) (floats : List F32) :
    ℕ → List UInt32 → Option (List (ℕ × List F32))
  | _, [] => some []
  | queryIndex, offset :: offsets => do
      let width ← metas[queryIndex * 3]?
      let height ← metas[queryIndex * 3 + 1]?
      let depth ← readDepth d metas (queryIndex * 3)
      let origin ← readMany floats (queryIndex * 6) d.size
      let step ← readMany floats (queryIndex * 6 + 3) d.size
      let rest ← gridWrites num d metas floats (queryIndex + 1) offsets
      let cells := gridCells d width.toNat height.toNat depth.toNat
      return cells.map (fun cell =>
        (offset.toNat + cell.2,
          (origin.zip step).zipWith (fun axis i => num.coordinate axis.1 axis.2 i) cell.1)) ++ rest

/-! ### Bodies of loops -/

/-- `domain_warp_2d` and `domain_warp_3d`. -/
def Numerics.domainWarp (num : Numerics) (noise : FastNoiseLite) : List F32 → Option (List F32)
  | [x, y] =>
      let (x, y) := num.domainWarp2d noise x y
      some [x, y]
  | [x, y, z] =>
      let (x, y, z) := num.domainWarp3d noise x y z
      some [x, y, z]
  | _ => none

/-- `get_noise_2d` and `get_noise_3d`. -/
def Numerics.getNoise (num : Numerics) (noise : FastNoiseLite) : List F32 → Option F32
  | [x, y] => some (num.getNoise2d noise x y)
  | [x, y, z] => some (num.getNoise3d noise x y z)
  | _ => none

/-- The ratio of `Remap` and `YGradient`, scaled to the output range. -/
def Numerics.rescale (num : Numerics) (srcMin srcMax dstMin dstMax value : F32) : Option F32 := do
  let denom := num.sub srcMax srcMin
  let t ← if denom.abs.le F32.epsilon then some F32.zero
    else (num.div (num.sub value srcMin) denom).clamp F32.zero F32.one
  return num.add dstMin (num.mul (num.sub dstMax dstMin) t)

/-! ### The loops of kernels -/

/-- How the loops of kernels run, with what they know of the cancel flag in `σ`. -/
structure KernelLoops (σ : Type) where
  /-- The loop over the elements of its outputs, with `f` as its body, which checks the flag
  where the bits of `mask` are zero. The inputs are the first of the buffers. -/
  pointwise (mask inputCount : ℕ) (f : List F32 → Option (List F32)) (flag : σ)
    (buffers : List (List F32)) : Option (BraidResult σ × List (List F32))
  /-- The loops of `GridInitKernel` over the cells of all queries. -/
  grid (num : Numerics) (d : GraphDimension) (metas : List UInt32) (floats : List F32)
    (offsets : List UInt32) (flag : σ) (buffers : List (List F32)) :
    Option (BraidResult σ × List (List F32))
  /-- The check before a kernel. -/
  look (flag : σ) : BraidResult σ

/-- The loops if nobody sets the flag. -/
def KernelLoops.plain : KernelLoops Unit where
  pointwise _ inputCount f _ buffers := pointwiseLoop inputCount f buffers
  grid num d metas floats offsets _ buffers := do
    let writes ← gridWrites num d metas floats 0 offsets
    let buffers ← writeAll buffers writes
    return (.ok (), buffers)
  look _ := .ok ()

/-- The loop over the elements of its outputs. -/
@[simp] theorem KernelLoops.plain_pointwise (mask inputCount : ℕ)
    (f : List F32 → Option (List F32)) (buffers : List (List F32)) :
    KernelLoops.plain.pointwise mask inputCount f () buffers = pointwiseLoop inputCount f buffers :=
  rfl

/-- The loops over the cells of all queries. -/
theorem KernelLoops.plain_grid (num : Numerics) (d : GraphDimension) (metas : List UInt32)
    (floats : List F32) (offsets : List UInt32) (buffers : List (List F32)) :
    KernelLoops.plain.grid num d metas floats offsets () buffers =
      ((gridWrites num d metas floats 0 offsets).bind (writeAll buffers)).map (.ok (), ·) := by
  rw [KernelLoops.plain]
  cases hwrites : gridWrites num d metas floats 0 offsets with
  | none => simp [hwrites]
  | some writes => cases hwrite : writeAll buffers writes <;> simp [hwrites, hwrite]

namespace KernelLoops

variable {σ : Type} (loops : KernelLoops σ) (num : Numerics)

/-- A loop over the elements of some slots of a packet. -/
def runPointwise (mask : ℕ) (inputs outputs : List BufferSlot)
    (f : List F32 → Option (List F32)) (flag : σ) : PacketM σ :=
  JobPacket.withSlices .f32 (inputs ++ outputs) (loops.pointwise mask inputs.length f flag)

/-- `run` of `GridInitKernel`. -/
def runGridInit (d : GraphDimension) (flag : σ) : PacketM σ := do
  let metas ← .read (JobPacket.slice .u32 slotQueryMeta)
  let floats ← .read (JobPacket.slice .f32 slotQueryF32)
  let offsets ← .read (JobPacket.slice .u32 slotQueryOffsets)
  let queryCount ← .read fun p => .ok p.queryCount
  let slots := (basePositionSlots d).coords
  ensureAll (totalSamplesFromOffsets offsets) slots
  JobPacket.withSlices .f32 slots
    (loops.grid num d metas floats (offsets.take queryCount) flag)

/-! ### Warps and samples -/

/-- `run` of `WarpKernel`. -/
def runWarp {d : GraphDimension} (kernel : WarpPayload d) (flag : σ) : PacketM σ := do
  let total ← readTotal
  ensureAll total kernel.output.coords
  loops.runPointwise (cancelCheckMask d) kernel.source.coords kernel.output.coords
    (num.domainWarp kernel.noise) flag

/-- `run` of `SampleKernel`. -/
def runSample {d : GraphDimension} (kernel : SamplePayload d) (flag : σ) : PacketM σ := do
  let total ← readTotal
  ensureAll total [kernel.output]
  loops.runPointwise (cancelCheckMask d) kernel.source.coords [kernel.output]
    (fun args => (num.getNoise kernel.noise args).map ([·])) flag

/-! ### Combines -/

/-- `run_binary`, on the first two inputs. -/
def runBinary (kernel : CombinePayload) (op : F32 → F32 → F32) (flag : σ) : PacketM σ :=
  match kernel.inputs with
  | left :: right :: _ =>
      loops.runPointwise (cancelCheckMask .d2) [left, right] [kernel.output] (fun
        | [a, b] => some [op a b]
        | _ => none) flag
  | _ => .panic

/-- `run` of `CombineKernel`. -/
def runCombine (kernel : CombinePayload) (flag : σ) : PacketM σ := do
  let total ← readTotal
  ensureAll total [kernel.output]
  match kernel.op with
  | .add => loops.runBinary kernel num.add flag
  | .sub => loops.runBinary kernel num.sub flag
  | .mul => loops.runBinary kernel num.mul flag
  | .min => loops.runBinary kernel num.min flag
  | .max => loops.runBinary kernel num.max flag
  | .clamp =>
      match kernel.params, kernel.inputs with
      | minValue :: maxValue :: _, input :: _ =>
          loops.runPointwise (cancelCheckMask .d2) [input] [kernel.output] (fun
            | [value] => (value.clamp minValue maxValue).map ([·])
            | _ => none) flag
      | _, _ => .panic
  | .remap =>
      match kernel.params, kernel.inputs with
      | srcMin :: srcMax :: dstMin :: dstMax :: _, input :: _ =>
          loops.runPointwise (cancelCheckMask .d2) [input] [kernel.output] (fun
            | [value] => (num.rescale srcMin srcMax dstMin dstMax value).map ([·])
            | _ => none) flag
      | _, _ => .panic
  | .yGradient =>
      match kernel.params, kernel.inputs with
      | yMin :: yMax :: outMin :: outMax :: _, input :: _ =>
          loops.runPointwise (cancelCheckMask .d3) [input, slotBaseY] [kernel.output] (fun
            | [value, y] => (num.rescale yMin yMax outMin outMax y).map fun gradient =>
                [num.add value gradient]
            | _ => none) flag
      | _, _ => .panic

/-! ### Stages -/

/-- `run` of a prepared kernel. -/
def run (kernel : CpuKernel) (flag : σ) : PacketM σ :=
  match kernel with
  | .gridInit d => loops.runGridInit num d flag
  | .warp _ kernel => loops.runWarp num kernel flag
  | .sample _ kernel => loops.runSample num kernel flag
  | .combine kernel => loops.runCombine num kernel flag

/-- The loop of `run_stage` over the kernels of a stage. -/
def runKernels : List CpuKernel → σ → PacketM σ
  | [], flag => pure flag
  | kernel :: kernels, flag => do
      let flag ← .read fun _ => .ofResult (loops.look flag)
      let flag ← loops.run num kernel flag
      runKernels kernels flag

/-- `run_stage` of `CpuComputeBackend`. -/
def runStage (prepared : List (List CpuKernel)) (stageIndex : ℕ) (flag : σ) : PacketM σ :=
  match prepared[stageIndex]? with
  | none => .read fun _ => .err (.message "prepared stage missing")
  | some kernels => loops.runKernels num kernels flag

end KernelLoops

/-! ### Kernels that nobody cancels -/

/-- `run` of `GridInitKernel`, if nobody sets the flag. -/
def runGridInit (num : Numerics) (d : GraphDimension) : PacketM Unit :=
  KernelLoops.plain.runGridInit num d ()

/-- `run` of a prepared kernel, if nobody sets the flag. -/
def CpuKernel.run (num : Numerics) (kernel : CpuKernel) : PacketM Unit :=
  KernelLoops.plain.run num kernel ()

/-- The loop of `run_stage` over the kernels of a stage, if nobody sets the flag. -/
def runKernels (num : Numerics) (kernels : List CpuKernel) : PacketM Unit :=
  KernelLoops.plain.runKernels num kernels ()

/-- `run_stage` of `CpuComputeBackend`, if nobody sets the flag. -/
def runStage (num : Numerics) (prepared : List (List CpuKernel)) (stageIndex : ℕ) :
    PacketM Unit :=
  KernelLoops.plain.runStage num prepared stageIndex ()

/-- No kernels are left. -/
@[simp] theorem runKernels_nil (num : Numerics) : runKernels num [] = pure () := rfl

/-- One kernel after another. -/
theorem runKernels_cons (num : Numerics) (kernel : CpuKernel) (kernels : List CpuKernel) :
    runKernels num (kernel :: kernels) = kernel.run num >>= fun _ => runKernels num kernels :=
  rfl

/-- A stage is run if it is prepared. -/
theorem runStage_eq (num : Numerics) (prepared : List (List CpuKernel)) (stageIndex : ℕ) :
    runStage num prepared stageIndex = match prepared[stageIndex]? with
      | none => .read fun _ => .err (.message "prepared stage missing")
      | some kernels => runKernels num kernels :=
  rfl

/-- The loop of `run_all_stages`, for the given stages. -/
def runStageList (num : Numerics) (prepared : List (List CpuKernel)) : List ℕ → PacketM Unit
  | [] => pure ()
  | stageIndex :: rest => do
      runStage num prepared stageIndex
      runStageList num prepared rest

/-- All stages of a plan. -/
def runAllStages {M : Type} (num : Numerics) (plan : CompiledPlan M)
    (prepared : List (List CpuKernel)) : PacketM Unit :=
  runStageList num prepared (List.range plan.pipeline.stages.length)

end Braids
