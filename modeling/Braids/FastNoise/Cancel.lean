import Braids.Cpu.Backend
import Braids.FastNoise.Cells
import Braids.FastNoise.Hooks
import Mathlib.Data.Nat.Bitwise

/-!
# Cancelling Kernels

The kernels of `runtime.rs` with their checks of the cancel flag. The flag is set by other
threads, at any time, and never cleared: for the kernels of a stage all that matters is how many
of their checks come before that. A loop is the list of what it does: it writes to its outputs,
and from time to time it looks at the flag.

## Main results

* `runSteps_cut`: a loop that is watched runs to its end, or is cancelled.
* `runSteps_pointwise`: the elements that are written before a loop is cancelled.
* `stage_cancels_cleanly`: a stage that is cancelled at any time.
-/

namespace Braids

open Braids.Runtime

/-! ### Loops with checks -/

/-- What a loop does next. -/
inductive LoopStep
  /-- `out[index] = value` for every output. -/
  | write (index : ℕ) (values : List F32)
  | look
  | panic

/-- A loop on its outputs, and what is left of the watch. -/
def runSteps : Watch → List (List F32) → List LoopStep →
    Option (BraidResult Watch × List (List F32))
  | watch, outs, [] => some (.ok watch, outs)
  | watch, outs, .write index values :: rest =>
      (writeAt index outs values).bind fun outs => runSteps watch outs rest
  | watch, outs, .look :: rest =>
      match watch.look with
      | .ok watch => runSteps watch outs rest
      | .error e => some (.error e, outs)
  | _, _, .panic :: _ => none

/-! ### Kernels -/

/-- What follows a round of a loop if `looks` says that it checks the flag. -/
def lookIf (looks : Bool) : List LoopStep := if looks then [.look] else []

/-- The loop of a kernel over `indices`, with `f` as its body. -/
def pointwiseSteps (mask : ℕ) (f : List F32 → Option (List F32)) (inputs : List (List F32)) :
    List ℕ → List LoopStep
  | [] => []
  | index :: indices =>
      match (readAt index inputs).bind f with
      | none => [.panic]
      | some values =>
          .write index values ::
            (lookIf (index &&& mask = 0) ++ pointwiseSteps mask f inputs indices)

/-- The loop of a kernel over the elements of its outputs. The inputs are the first of the
buffers. -/
def pointwiseLoopWatched (mask inputCount : ℕ) (f : List F32 → Option (List F32)) (watch : Watch)
    (buffers : List (List F32)) : Option (BraidResult Watch × List (List F32)) := do
  let ins := buffers.take inputCount
  let outs := buffers.drop inputCount
  let r ← runSteps watch outs (pointwiseSteps mask f ins (List.range (outs.headD []).length))
  return (r.1, ins ++ r.2)

/-- The rows of a grid, and whether the loop checks the flag after them. -/
def gridRows : GraphDimension → (width height depth : ℕ) → List (List (List ℕ × ℕ) × Bool)
  | .d2, width, height, _ =>
      (List.range height).map fun y =>
        ((List.range width).map fun x => ([x, y], y * width + x), y &&& 31 = 0)
  | .d3, width, height, depth =>
      (List.range depth).flatMap fun z =>
        (List.range height).map fun y =>
          ((List.range width).map fun x => ([x, y, z], (z * height + y) * width + x),
            y &&& 15 = 0)

/-- The size of a query, and its origin and step on each axis. -/
def readGrid (d : GraphDimension) (metas : List UInt32) (floats : List F32) (queryIndex : ℕ) :
    Option ((UInt32 × UInt32 × UInt32) × List (F32 × F32)) := do
  let width ← metas[queryIndex * 3]?
  let height ← metas[queryIndex * 3 + 1]?
  let depth ← readDepth d metas (queryIndex * 3)
  let origin ← readMany floats (queryIndex * 6) d.size
  let step ← readMany floats (queryIndex * 6 + 3) d.size
  return ((width, height, depth), origin.zip step)

/-- The write of one cell. -/
def cellWrite (num : Numerics) (offset : UInt32) (axes : List (F32 × F32))
    (cell : List ℕ × ℕ) : ℕ × List F32 :=
  (offset.toNat + cell.2, axes.zipWith (fun axis i => num.coordinate axis.1 axis.2 i) cell.1)

/-- The loops of `GridInitKernel`, from the query with the given index on. -/
def gridSteps (num : Numerics) (d : GraphDimension) (metas : List UInt32) (floats : List F32) :
    ℕ → List UInt32 → List LoopStep
  | _, [] => []
  | queryIndex, offset :: offsets =>
      match readGrid d metas floats queryIndex with
      | none => [.panic]
      | some ((width, height, depth), axes) =>
          ((gridRows d width.toNat height.toNat depth.toNat).flatMap fun row =>
            row.1.map (fun cell =>
              .write (cellWrite num offset axes cell).1 (cellWrite num offset axes cell).2) ++
              lookIf row.2) ++
            gridSteps num d metas floats (queryIndex + 1) offsets

/-- The loops of kernels with their checks of the cancel flag. -/
def KernelLoops.watched : KernelLoops Watch where
  pointwise := pointwiseLoopWatched
  grid num d metas floats offsets watch buffers :=
    runSteps watch buffers (gridSteps num d metas floats 0 offsets)
  look watch := watch.look

/-- The loop over the elements of its outputs. -/
theorem KernelLoops.watched_pointwise (mask inputCount : ℕ) (f : List F32 → Option (List F32))
    (watch : Watch) (buffers : List (List F32)) :
    KernelLoops.watched.pointwise mask inputCount f watch buffers =
      pointwiseLoopWatched mask inputCount f watch buffers :=
  rfl

/-- The loops over the cells of all queries. -/
theorem KernelLoops.watched_grid (num : Numerics) (d : GraphDimension) (metas : List UInt32)
    (floats : List F32) (offsets : List UInt32) (watch : Watch) (buffers : List (List F32)) :
    KernelLoops.watched.grid num d metas floats offsets watch buffers =
      runSteps watch buffers (gridSteps num d metas floats 0 offsets) :=
  rfl

/-- `run` of a prepared kernel, which checks the cancel flag. -/
def CpuKernel.runWatched (num : Numerics) (kernel : CpuKernel) (watch : Watch) : PacketM Watch :=
  KernelLoops.watched.run num kernel watch

/-- The loop of `run_stage` over the kernels of a stage. -/
def runKernelsWatched (num : Numerics) (kernels : List CpuKernel) (watch : Watch) :
    PacketM Watch :=
  KernelLoops.watched.runKernels num kernels watch

/-- `run_stage` of `CpuComputeBackend`. -/
def runStageWatched (num : Numerics) (prepared : List (List CpuKernel)) (stageIndex : ℕ)
    (watch : Watch) : PacketM Watch :=
  KernelLoops.watched.runStage num prepared stageIndex watch

/-- One kernel after another, with a check before each. -/
theorem runKernelsWatched_cons (num : Numerics) (kernel : CpuKernel) (kernels : List CpuKernel)
    (watch : Watch) :
    runKernelsWatched num (kernel :: kernels) watch =
      (PacketM.read fun _ => .ofResult watch.look) >>= fun watch =>
        kernel.runWatched num watch >>= runKernelsWatched num kernels :=
  rfl

/-- A stage is run if it is prepared. -/
theorem runStageWatched_eq (num : Numerics) (prepared : List (List CpuKernel)) (stageIndex : ℕ)
    (watch : Watch) :
    runStageWatched num prepared stageIndex watch = match prepared[stageIndex]? with
      | none => .read fun _ => .err (.message "prepared stage missing")
      | some kernels => runKernelsWatched num kernels watch :=
  rfl

/-! ### A watched loop is the loop, or is cut -/

/-- What a loop writes if it is not cancelled. -/
def writesOf : List LoopStep → Option (List (ℕ × List F32))
  | [] => some []
  | .write index values :: rest => (writesOf rest).map ((index, values) :: ·)
  | .look :: rest => writesOf rest
  | .panic :: _ => none

/-- One loop after another. -/
theorem writesOf_append (front rest : List LoopStep) :
    writesOf (front ++ rest) =
      (writesOf front).bind fun writes => (writesOf rest).map (writes ++ ·) := by
  induction front with
  | nil => simp [writesOf]
  | cons step front ih =>
      cases step with
      | write index values =>
          rw [List.cons_append, writesOf, writesOf, ih]
          cases writesOf front <;> cases writesOf rest <;> rfl
      | look => exact ih
      | panic => rfl

/-- Checking the flag writes nothing. -/
@[simp] theorem writesOf_lookIf (looks : Bool) : writesOf (lookIf looks) = some [] := by
  cases looks <;> rfl

/-- **A watched loop** computes its values and writes them, or is cancelled on the way. -/
theorem runSteps_cut (watch : Watch) (outs : List (List F32)) (steps : List LoopStep) :
    (∃ left, runSteps watch outs steps =
        ((writesOf steps).bind (writeAll outs)).map (.ok left, ·) ∧
      (watch = .never → left = .never)) ∨
    ∃ outs', runSteps watch outs steps = some (.error .cancelled, outs') ∧ watch ≠ .never := by
  induction steps generalizing watch outs with
  | nil => exact .inl ⟨watch, rfl, id⟩
  | cons step steps ih =>
      cases step with
      | write index values =>
          have hwrites : (writesOf (.write index values :: steps)).bind (writeAll outs) =
              (writeAt index outs values).bind fun outs =>
                (writesOf steps).bind (writeAll outs) := by
            rw [writesOf]
            cases hwrite : writeAt index outs values <;> cases writesOf steps <;>
              simp [writeAll, hwrite]
          rw [runSteps, hwrites]
          cases writeAt index outs values with
          | none => exact .inl ⟨watch, rfl, id⟩
          | some outs' => exact ih watch outs'
      | look =>
          cases watch with
          | never => exact ih .never outs
          | after looks =>
              cases looks with
              | zero => exact .inr ⟨outs, rfl, by simp⟩
              | succ looks =>
                  rcases ih (.after looks) outs with ⟨left, hrun, -⟩ | ⟨outs', hrun, -⟩
                  · exact .inl ⟨left, hrun, by simp⟩
                  · exact .inr ⟨outs', hrun, by simp⟩
      | panic => exact .inl ⟨watch, rfl, id⟩

/-- What the loop over the elements of its outputs writes. -/
theorem writesOf_pointwiseSteps (mask : ℕ) (f : List F32 → Option (List F32))
    (inputs : List (List F32)) (indices : List ℕ) :
    writesOf (pointwiseSteps mask f inputs indices) = pointwise f inputs indices := by
  induction indices with
  | nil => rfl
  | cons index indices ih =>
      rw [pointwiseSteps, pointwise]
      cases hread : readAt index inputs with
      | none => rfl
      | some args =>
          simp only [Option.bind_eq_bind, Option.bind_some]
          cases hf : f args with
          | none => rfl
          | some values =>
              simp only [Option.bind_some, writesOf, writesOf_append, writesOf_lookIf, ih]
              cases pointwise f inputs indices <;> rfl

/-- The cells of the rows of a grid. -/
theorem flatMap_gridRows (d : GraphDimension) (width height depth : ℕ) :
    (gridRows d width height depth).flatMap (·.1) = gridCells d width height depth := by
  cases d with
  | d2 => simp [gridRows, gridCells, List.flatMap_map]
  | d3 => simp [gridRows, gridCells, List.flatMap_assoc, List.flatMap_map]

/-- What the loops over a grid write. -/
theorem writesOf_gridSteps (num : Numerics) (d : GraphDimension) (metas : List UInt32)
    (floats : List F32) (queryIndex : ℕ) (offsets : List UInt32) :
    writesOf (gridSteps num d metas floats queryIndex offsets) =
      gridWrites num d metas floats queryIndex offsets := by
  have hcells : ∀ (offset : UInt32) (axes : List (F32 × F32)) (cells : List (List ℕ × ℕ)),
      writesOf (cells.map fun cell => .write (cellWrite num offset axes cell).1
        (cellWrite num offset axes cell).2) = some (cells.map (cellWrite num offset axes)) := by
    intro offset axes cells
    induction cells with
    | nil => rfl
    | cons cell cells ih => rw [List.map_cons, writesOf, ih]; rfl
  have hrows : ∀ (offset : UInt32) (axes : List (F32 × F32))
      (rows : List (List (List ℕ × ℕ) × Bool)),
      writesOf (rows.flatMap fun row => row.1.map (fun cell =>
          .write (cellWrite num offset axes cell).1 (cellWrite num offset axes cell).2) ++
          lookIf row.2) =
        some ((rows.flatMap (·.1)).map (cellWrite num offset axes)) := by
    intro offset axes rows
    induction rows with
    | nil => rfl
    | cons row rows ih =>
        rw [List.flatMap_cons, writesOf_append, writesOf_append, hcells, writesOf_lookIf, ih]
        simp
  induction offsets generalizing queryIndex with
  | nil => rfl
  | cons offset offsets ih =>
      have hread : gridWrites num d metas floats queryIndex (offset :: offsets) =
          (readGrid d metas floats queryIndex).bind fun grid =>
            (gridWrites num d metas floats (queryIndex + 1) offsets).map fun rest =>
              (gridCells d grid.1.1.toNat grid.1.2.1.toNat grid.1.2.2.toNat).map
                (cellWrite num offset grid.2) ++ rest := by
        rw [gridWrites, readGrid]
        cases metas[queryIndex * 3]? <;> cases metas[queryIndex * 3 + 1]? <;>
          cases readDepth d metas (queryIndex * 3) <;>
          cases readMany floats (queryIndex * 6) d.size <;>
          cases readMany floats (queryIndex * 6 + 3) d.size <;>
          cases gridWrites num d metas floats (queryIndex + 1) offsets <;> rfl
      rw [hread, gridSteps]
      cases readGrid d metas floats queryIndex with
      | none => rfl
      | some grid =>
          obtain ⟨⟨width, height, depth⟩, axes⟩ := grid
          rw [Option.bind_some, writesOf_append, hrows, flatMap_gridRows, ih]
          rfl

namespace PacketM

variable {α : Type} {m k : Watch → PacketM Watch} {m' k' : PacketM Unit}

/-- The watched call does what the call does that is not watched, or is cancelled. -/
def Cut (m : Watch → PacketM Watch) (m' : PacketM Unit) : Prop :=
  ∀ watch p, (∃ left, (m watch).run p = (m'.run p).map (fun r => (r.1.map fun _ => left, r.2)) ∧
      (watch = .never → left = .never)) ∨
    ∃ q, (m watch).run p = some (.error .cancelled, q) ∧ watch ≠ .never

namespace Cut

/-- The same before both. -/
theorem after {r : PacketM α} {m : α → Watch → PacketM Watch} {m' : α → PacketM Unit}
    (h : ∀ a, Cut (m a) (m' a)) : Cut (fun watch => r >>= fun a => m a watch) (r >>= m') := by
  intro watch p
  simp only [run_bind]
  rcases r.run p with _ | ⟨_ | a, q⟩
  · exact .inl ⟨watch, rfl, id⟩
  · exact .inl ⟨watch, rfl, id⟩
  · exact h a watch q

/-- One call after another. -/
theorem bind (hm : Cut m m') (hk : Cut k k') :
    Cut (fun watch => m watch >>= k) (m' >>= fun _ => k') := by
  intro watch p
  simp only [run_bind]
  rcases hm watch p with ⟨left, hrun, hleft⟩ | ⟨q, hrun, hne⟩
  · rw [hrun]
    rcases m'.run p with _ | ⟨_ | _, q⟩
    · exact .inl ⟨watch, rfl, id⟩
    · exact .inl ⟨watch, rfl, id⟩
    · rcases hk left q with ⟨left', hrun', hleft'⟩ | ⟨q', hrun', hne⟩
      · exact .inl ⟨left', hrun', fun hnever => hleft' (hleft hnever)⟩
      · exact .inr ⟨q', hrun', fun hnever => hne (hleft hnever)⟩
  · exact .inr ⟨q, by rw [hrun]; rfl, hne⟩

/-- Both panic. -/
protected theorem panic : Cut (fun _ => panic) panic := fun watch _ => .inl ⟨watch, rfl, id⟩

/-- Watched loops on the buffers that a call borrows. -/
theorem withSlices (slots : List BufferSlot)
    {f : Watch → List (List F32) → Option (BraidResult Watch × List (List F32))}
    {g : List (List F32) → Option (BraidResult Unit × List (List F32))}
    (h : ∀ watch old, (∃ left, f watch old = (g old).map (fun r => (r.1.map fun _ => left, r.2)) ∧
        (watch = .never → left = .never)) ∨
      ∃ new, f watch old = some (.error .cancelled, new) ∧ watch ≠ .never) :
    Cut (fun watch => JobPacket.withSlices .f32 slots (f watch))
      (JobPacket.withSlices .f32 slots g) := by
  intro watch p
  simp only [JobPacket.withSlices]
  cases p.requestIndices .f32 [] slots with
  | err e => exact .inl ⟨watch, rfl, id⟩
  | panicked => exact .inl ⟨watch, rfl, id⟩
  | ok indices =>
      simp only
      cases p.views .f32 indices with
      | err e => exact .inl ⟨watch, rfl, id⟩
      | panicked => exact .inl ⟨watch, rfl, id⟩
      | ok old =>
          rcases h watch old with ⟨left, hrun, hleft⟩ | ⟨new, hrun, hne⟩
          · refine .inl ⟨left, ?_, hleft⟩
            simp only [hrun]
            cases g old <;> rfl
          · refine .inr ⟨JobPacket.writeViews .f32 p indices old new, ?_, hne⟩
            simp only [hrun]
            rfl

end Cut

end PacketM

open PacketM

/-- The loop over the elements of its outputs. -/
theorem cut_runPointwise (mask : ℕ) (inputs outputs : List BufferSlot)
    (f : List F32 → Option (List F32)) :
    Cut (KernelLoops.watched.runPointwise mask inputs outputs f)
      (KernelLoops.plain.runPointwise mask inputs outputs f ()) := by
  refine Cut.withSlices (inputs ++ outputs) fun watch buffers => ?_
  set ins := buffers.take inputs.length with hins
  set outs := buffers.drop inputs.length with houts
  set steps := pointwiseSteps mask f ins (List.range (outs.headD []).length) with hsteps
  have hplain : pointwiseLoop inputs.length f buffers =
      ((writesOf steps).bind (writeAll outs)).map fun outs => (.ok (), ins ++ outs) := by
    rw [hsteps, writesOf_pointwiseSteps, pointwiseLoop, ← hins, ← houts]
    cases pointwise f ins (List.range (outs.headD []).length) with
    | none => rfl
    | some writes =>
        simp only [Option.bind_eq_bind, Option.bind_some]
        cases writeAll outs writes <;> rfl
  have hwatched : pointwiseLoopWatched mask inputs.length f watch buffers =
      (runSteps watch outs steps).map fun r => (r.1, ins ++ r.2) := by
    rw [pointwiseLoopWatched, ← hins, ← houts, ← hsteps]
    cases runSteps watch outs steps <;> rfl
  rw [KernelLoops.plain_pointwise, KernelLoops.watched_pointwise, hwatched, hplain]
  rcases runSteps_cut watch outs steps with ⟨left, hrun, hleft⟩ | ⟨outs', hrun, hne⟩
  · refine .inl ⟨left, ?_, hleft⟩
    rw [hrun]
    cases (writesOf steps).bind (writeAll outs) <;> rfl
  · exact .inr ⟨ins ++ outs', by rw [hrun]; rfl, hne⟩

/-- The sample grid. -/
theorem cut_runGridInit (num : Numerics) (d : GraphDimension) :
    Cut (KernelLoops.watched.runGridInit num d) (KernelLoops.plain.runGridInit num d ()) := by
  refine Cut.after fun metas => Cut.after fun floats => Cut.after fun offsets =>
    Cut.after fun queryCount => Cut.after fun _ => Cut.withSlices _ fun watch buffers => ?_
  set steps := gridSteps num d metas floats 0 (offsets.take queryCount) with hsteps
  rw [KernelLoops.plain_grid, KernelLoops.watched_grid, ← writesOf_gridSteps, ← hsteps]
  rcases runSteps_cut watch buffers steps with ⟨left, hrun, hleft⟩ | ⟨outs', hrun, hne⟩
  · refine .inl ⟨left, ?_, hleft⟩
    rw [hrun]
    cases (writesOf steps).bind (writeAll buffers) <;> rfl
  · exact .inr ⟨outs', hrun, hne⟩

/-- Binary operations. -/
theorem cut_runBinary (kernel : CombinePayload) (op : F32 → F32 → F32) :
    Cut (KernelLoops.watched.runBinary kernel op) (KernelLoops.plain.runBinary kernel op ()) := by
  rcases kernel with ⟨_, _ | ⟨left, _ | ⟨right, inputs⟩⟩, output, params⟩
  · exact Cut.panic
  · exact Cut.panic
  · exact cut_runPointwise _ _ _ _

/-- Combines. -/
theorem cut_runCombine (num : Numerics) (kernel : CombinePayload) :
    Cut (KernelLoops.watched.runCombine num kernel)
      (KernelLoops.plain.runCombine num kernel ()) := by
  refine Cut.after fun total => Cut.after fun _ => ?_
  rcases kernel with ⟨op, inputs, output, params⟩
  cases op with
  | add | sub | mul | min | max => exact cut_runBinary _ _
  | clamp =>
      rcases params with _ | ⟨minValue, _ | ⟨maxValue, params⟩⟩
      · exact Cut.panic
      · exact Cut.panic
      · rcases inputs with _ | ⟨input, inputs⟩
        · exact Cut.panic
        · exact cut_runPointwise _ _ _ _
  | remap | yGradient =>
      rcases params with _ | ⟨_, _ | ⟨_, _ | ⟨_, _ | ⟨_, params⟩⟩⟩⟩
      · exact Cut.panic
      · exact Cut.panic
      · exact Cut.panic
      · exact Cut.panic
      · rcases inputs with _ | ⟨input, inputs⟩
        · exact Cut.panic
        · exact cut_runPointwise _ _ _ _

/-- Kernels. -/
theorem CpuKernel.cut_run (num : Numerics) (kernel : CpuKernel) :
    Cut (kernel.runWatched num) (kernel.run num) := by
  cases kernel with
  | gridInit d => exact cut_runGridInit num d
  | warp d kernel =>
      exact Cut.after fun total => Cut.after fun _ => cut_runPointwise _ _ _ _
  | sample d kernel =>
      exact Cut.after fun total => Cut.after fun _ => cut_runPointwise _ _ _ _
  | combine kernel => exact cut_runCombine num kernel

/-- Checking the flag before a kernel. -/
theorem cut_look : Cut (fun watch => .read fun _ => .ofResult watch.look) (pure ()) := by
  intro watch p
  cases watch with
  | never => exact .inl ⟨.never, rfl, id⟩
  | after looks =>
      cases looks with
      | zero => exact .inr ⟨p, rfl, by simp⟩
      | succ looks => exact .inl ⟨.after looks, rfl, by simp⟩

/-- The kernels of a stage. -/
theorem cut_runKernels (num : Numerics) (kernels : List CpuKernel) :
    Cut (runKernelsWatched num kernels) (runKernels num kernels) := by
  induction kernels with
  | nil => exact fun watch p => .inl ⟨watch, rfl, id⟩
  | cons kernel kernels ih => exact cut_look.bind ((kernel.cut_run num).bind ih)

/-- **A stage** that is watched is the stage, or is cut. -/
theorem cut_runStage (num : Numerics) (prepared : List (List CpuKernel)) (stageIndex : ℕ) :
    Cut (runStageWatched num prepared stageIndex) (runStage num prepared stageIndex) := by
  rcases hstage : prepared[stageIndex]? with _ | kernels
  · intro watch p
    refine .inl ⟨watch, ?_, id⟩
    rw [runStageWatched_eq, runStage_eq, hstage]
    rfl
  · intro watch p
    rw [runStageWatched_eq, runStage_eq, hstage]
    exact cut_runKernels num kernels watch p

/-! ### What a watched stage writes -/

/-- A kernel writes floats. -/
theorem CpuKernel.runWatched_writes (num : Numerics) (kernel : CpuKernel) (watch : Watch) :
    (kernel.runWatched num watch).Writes .f32 :=
  KernelLoops.watched.run_obeys num (fun slot _ => SlotRule.kind_floats slot) watch

/-- **A watched stage** writes floats. -/
theorem runStageWatched_writes (num : Numerics) (prepared : List (List CpuKernel))
    (stageIndex : ℕ) (watch : Watch) :
    (runStageWatched num prepared stageIndex watch).Writes .f32 :=
  KernelLoops.watched.runStage_writes num prepared stageIndex watch

/-! ### How far a loop gets -/

/-- The bits of a mask are those below a power of two. -/
theorem and_mask_eq_zero_iff (k index : ℕ) : index &&& (2 ^ k - 1) = 0 ↔ 2 ^ k ∣ index := by
  rw [Nat.and_two_pow_sub_one_eq_mod, Nat.dvd_iff_mod_eq_zero]

/-- One round of a loop. -/
theorem pointwise_cons (f : List F32 → Option (List F32)) (ins outs : List (List F32))
    (index : ℕ) (indices : List ℕ) :
    (pointwise f ins (index :: indices)).bind (writeAll outs) =
      ((readAt index ins).bind f).bind fun values =>
        (writeAt index outs values).bind fun outs =>
          (pointwise f ins indices).bind (writeAll outs) := by
  rw [pointwise]
  cases hread : readAt index ins with
  | none => rfl
  | some args =>
      simp only [Option.bind_eq_bind, Option.bind_some]
      cases f args with
      | none => rfl
      | some values =>
          cases pointwise f ins indices <;> cases hwrite : writeAt index outs values <;>
            simp [writeAll, hwrite]

/-- **A loop that is cancelled**, from `start` on: `next` is the number of the first check from
there on, and the one that sees the flag comes `looks` checks later. -/
theorem runSteps_pointwise {k : ℕ} (f : List F32 → Option (List F32)) (ins : List (List F32))
    {looks start len next : ℕ} (hle : start ≤ 2 ^ k * next) (hlt : 2 ^ k * next < start + 2 ^ k)
    (outs : List (List F32)) :
    (2 ^ k * (next + looks) < start + len →
      runSteps (.after looks) outs (pointwiseSteps (2 ^ k - 1) f ins (List.range' start len)) =
        ((pointwise f ins (List.range' start (2 ^ k * (next + looks) + 1 - start))).bind
          (writeAll outs)).map (.error .cancelled, ·)) ∧
    (start + len ≤ 2 ^ k * (next + looks) → ∃ left,
      runSteps (.after looks) outs (pointwiseSteps (2 ^ k - 1) f ins (List.range' start len)) =
        ((pointwise f ins (List.range' start len)).bind (writeAll outs)).map
          (.ok (.after left), ·)) := by
  induction len generalizing looks start next outs with
  | zero =>
      have hmono := Nat.mul_le_mul_left (2 ^ k) (Nat.le_add_right next looks)
      exact ⟨fun h => absurd h (by omega), fun _ => ⟨looks, rfl⟩⟩
  | succ len ih =>
      have hmono := Nat.mul_le_mul_left (2 ^ k) (Nat.le_add_right next looks)
      have hround : 2 ^ k * (next + looks) + 1 - start = 2 ^ k * (next + looks) - start + 1 := by
        omega
      rw [hround]
      simp only [List.range'_succ, pointwiseSteps, pointwise_cons]
      cases hval : (readAt start ins).bind f with
      | none => exact ⟨fun _ => rfl, fun _ => ⟨looks, rfl⟩⟩
      | some values =>
          simp only [Option.bind_some, runSteps]
          cases hwrite : writeAt start outs values with
          | none => exact ⟨fun _ => rfl, fun _ => ⟨looks, rfl⟩⟩
          | some outs' =>
              simp only [Option.bind_some]
              by_cases hcheck : 2 ^ k ∣ start
              · -- the flag is checked after this round
                obtain ⟨c, rfl⟩ := hcheck
                have hpos : 0 < 2 ^ k := Nat.two_pow_pos k
                obtain rfl : c = next := by
                  have hge := Nat.le_of_mul_le_mul_left hle hpos
                  rw [← Nat.mul_succ] at hlt
                  have hle' := Nat.lt_of_mul_lt_mul_left hlt
                  omega
                have hlook : lookIf (2 ^ k * c &&& (2 ^ k - 1) = 0) = [.look] := by
                  have hzero := (and_mask_eq_zero_iff k (2 ^ k * c)).mpr (Nat.dvd_mul_right _ _)
                  rw [lookIf, if_pos (decide_eq_true hzero)]
                rw [hlook]
                cases looks with
                | zero =>
                    rw [Nat.add_zero, Nat.sub_self]
                    exact ⟨fun _ => rfl, fun h => absurd h (by omega)⟩
                | succ looks =>
                    have hrest := @ih looks (2 ^ k * c + 1) (c + 1)
                      (by rw [Nat.mul_succ]; omega) (by rw [Nat.mul_succ]; omega) outs'
                    have hsum : c + 1 + looks = c + (looks + 1) := by omega
                    have hlater : 2 ^ k * (c + (looks + 1)) + 1 - (2 ^ k * c + 1) =
                        2 ^ k * (c + (looks + 1)) - 2 ^ k * c := by omega
                    rw [hsum, hlater] at hrest
                    exact ⟨fun h => hrest.1 (by omega), fun h => hrest.2 (by omega)⟩
              · have hlook : lookIf (start &&& (2 ^ k - 1) = 0) = [] := by
                  have hne : ¬ start &&& (2 ^ k - 1) = 0 :=
                    fun h => hcheck ((and_mask_eq_zero_iff k start).mp h)
                  rw [lookIf, if_neg (by simpa using hne)]
                have hne : start ≠ 2 ^ k * next := fun h => hcheck ⟨next, h⟩
                rw [hlook]
                have hrest := @ih looks (start + 1) next (by omega) (by omega) outs'
                have hlater : 2 ^ k * (next + looks) + 1 - (start + 1) =
                    2 ^ k * (next + looks) - start := by omega
                rw [hlater] at hrest
                exact ⟨fun h => hrest.1 (by omega), fun h => hrest.2 (by omega)⟩

/-- The flag is checked every so many elements, which is a power of two. -/
theorem cancelCheckEvery_eq (d : GraphDimension) : ∃ k, cancelCheckEvery d = 2 ^ k := by
  cases d with
  | d2 => exact ⟨12, rfl⟩
  | d3 => exact ⟨11, rfl⟩

/-- What a loop over the elements of its outputs does when the flag is set after `looks` checks
have not seen it. -/
structure StopsInTime (d : GraphDimension) (inputCount : ℕ) (f : List F32 → Option (List F32))
    (looks : ℕ) (ins outs : List (List F32)) : Prop where
  /-- It stops at the next check, and has computed the elements up to there, and no others. -/
  stops : looks * cancelCheckEvery d < (outs.headD []).length →
    pointwiseLoopWatched (cancelCheckMask d) inputCount f (.after looks) (ins ++ outs) =
      ((pointwise f ins (List.range (looks * cancelCheckEvery d + 1))).bind (writeAll outs)).map
        fun outs => (.error .cancelled, ins ++ outs)
  /-- There is no check after that: it computes all elements. -/
  ends : (outs.headD []).length ≤ looks * cancelCheckEvery d → ∃ left,
    pointwiseLoopWatched (cancelCheckMask d) inputCount f (.after looks) (ins ++ outs) =
      ((pointwise f ins (List.range (outs.headD []).length)).bind (writeAll outs)).map
        fun outs => (.ok (.after left), ins ++ outs)

/-- **A loop stops in time**: it goes on for as many elements as there are between two checks. -/
theorem loop_stops_in_time (d : GraphDimension) (f : List F32 → Option (List F32)) (looks : ℕ)
    (ins outs : List (List F32)) : StopsInTime d ins.length f looks ins outs := by
  obtain ⟨k, hevery⟩ := cancelCheckEvery_eq d
  have hloop : pointwiseLoopWatched (cancelCheckMask d) ins.length f (.after looks) (ins ++ outs) =
      (runSteps (.after looks) outs (pointwiseSteps (cancelCheckEvery d - 1) f ins
        (List.range' 0 (outs.headD []).length))).map fun r => (r.1, ins ++ r.2) := by
    rw [pointwiseLoopWatched, List.take_left, List.drop_left, cancelCheckMask,
      List.range_eq_range']
    cases runSteps (.after looks) outs (pointwiseSteps (cancelCheckEvery d - 1) f ins
      (List.range' 0 (outs.headD []).length)) <;> rfl
  have hlt : 2 ^ k * 0 < 0 + 2 ^ k := by
    rw [Nat.mul_zero, Nat.zero_add]
    exact Nat.two_pow_pos k
  obtain ⟨hstops, hends⟩ :=
    @runSteps_pointwise k f ins looks 0 (outs.headD []).length 0 (Nat.zero_le _) hlt outs
  rw [Nat.zero_add, Nat.zero_add, Nat.mul_comm, ← hevery] at hstops hends
  constructor
  · intro h
    rw [hloop, hstops h, List.range_eq_range', Nat.sub_zero]
    cases (pointwise f ins (List.range' 0 (looks * cancelCheckEvery d + 1))).bind
      (writeAll outs) <;> rfl
  · intro h
    obtain ⟨left, hrun⟩ := hends h
    refine ⟨left, ?_⟩
    rw [hloop, hrun, List.range_eq_range']
    cases (pointwise f ins (List.range' 0 (outs.headD []).length)).bind (writeAll outs) <;> rfl

/-- What a stage does that is cancelled at some time. -/
structure CancelsCleanly (num : Numerics) (prepared : List (List CpuKernel)) (stageIndex : ℕ)
    (p : JobPacket) : Prop where
  /-- If nobody cancels it, it does what `run_stage` does. -/
  never : (runStageWatched num prepared stageIndex .never).run p =
    ((runStage num prepared stageIndex).run p).map fun r => (r.1.map fun _ => .never, r.2)
  /-- Otherwise it does so too, panics alike, or it is cancelled. -/
  anytime : ∀ looks, (∃ left, (runStageWatched num prepared stageIndex (.after looks)).run p =
      ((runStage num prepared stageIndex).run p).map fun r => (r.1.map fun _ => left, r.2)) ∨
    ∃ q, (runStageWatched num prepared stageIndex (.after looks)).run p =
      some (.error .cancelled, q)
  /-- It leaves the packet in order, with the slots that it has not written as they were. -/
  packet : ∀ watch r q, (runStageWatched num prepared stageIndex watch).run p = some (r, q) →
    q.Wf ∧ q.queryCount = p.queryCount ∧ ∀ slot, q.view slot = p.view slot ∨
      ∃ values : List F32, q.view slot = some (.ofList .f32 values)
  /-- If the flag was set before, no kernel of the stage runs. -/
  before : ∀ kernel kernels, prepared[stageIndex]? = some (kernel :: kernels) →
    (runStageWatched num prepared stageIndex (.after 0)).run p = some (.error .cancelled, p)

/-- **A stage can be cancelled at any time.** -/
theorem stage_cancels_cleanly (num : Numerics) (prepared : List (List CpuKernel))
    (stageIndex : ℕ) {p : JobPacket} (hp : p.Wf) : CancelsCleanly num prepared stageIndex p := by
  refine ⟨?_, fun looks => ?_, fun watch r q hrun => ?_, fun kernel kernels hstage => ?_⟩
  · rcases cut_runStage num prepared stageIndex .never p with ⟨left, hrun, hleft⟩ | ⟨q, -, hne⟩
    · rw [hrun, hleft rfl]
    · exact absurd rfl hne
  · rcases cut_runStage num prepared stageIndex (.after looks) p with ⟨left, hrun, -⟩ | ⟨q, hrun, -⟩
    · exact .inl ⟨left, hrun⟩
    · exact .inr ⟨q, hrun⟩
  · exact runStageWatched_writes num prepared stageIndex watch p q r hp hrun
  · rw [runStageWatched_eq, hstage]
    rfl

/-! ### A grid that is cancelled halfway -/

/-- How often a loop checks the flag. -/
def looksOf : List LoopStep → ℕ
  | [] => 0
  | .look :: rest => looksOf rest + 1
  | _ :: rest => looksOf rest

/-- **A loop that checks the flag once more than it stays unset** is cancelled. -/
theorem runSteps_cancelled {steps : List LoopStep} {outs news : List (List F32)}
    (h : (writesOf steps).bind (writeAll outs) = some news) {looks : ℕ}
    (hlooks : looks < looksOf steps) :
    ∃ left, runSteps (.after looks) outs steps = some (.error .cancelled, left) := by
  induction steps generalizing outs looks with
  | nil => simp [looksOf] at hlooks
  | cons step steps ih =>
      cases step with
      | write index values =>
          obtain ⟨writes, hwrites, hall⟩ := Option.bind_eq_some_iff.mp h
          obtain ⟨rest, hrest, rfl⟩ := Option.map_eq_some_iff.mp hwrites
          obtain ⟨next, hwrite, hall⟩ := Option.bind_eq_some_iff.mp hall
          rw [runSteps, hwrite, Option.bind_some]
          exact ih (by rw [hrest]; exact hall) hlooks
      | look =>
          cases looks with
          | zero => exact ⟨outs, rfl⟩
          | succ looks => exact ih h (by simpa [looksOf] using hlooks)
      | panic => simp [writesOf] at h

/-- A call that borrows the same slots as one that succeeds, and is cancelled with them. -/
theorem withSlices_cancelled {slots : List BufferSlot} {p p' : JobPacket}
    {f : List (List F32) → Option (BraidResult Watch × List (List F32))}
    {g : List (List F32) → Option (BraidResult Unit × List (List F32))}
    (h : (JobPacket.withSlices .f32 slots g).run p = some (.ok (), p'))
    (hf : ∀ old new, g old = some (.ok (), new) → ∃ left, f old = some (.error .cancelled, left)) :
    ∃ q, (JobPacket.withSlices .f32 slots f).run p = some (.error .cancelled, q) := by
  simp only [JobPacket.withSlices] at h ⊢
  cases hindices : p.requestIndices .f32 [] slots with
  | err e => simp [hindices] at h
  | panicked => simp [hindices] at h
  | ok indices =>
      simp only [hindices] at h ⊢
      cases hviews : p.views .f32 indices with
      | err e => simp [hviews] at h
      | panicked => simp [hviews] at h
      | ok old =>
          simp only [hviews] at h ⊢
          obtain ⟨⟨r, new⟩, hg, heq⟩ := Option.map_eq_some_iff.mp h
          obtain rfl : r = .ok () := (Prod.mk.inj heq).1
          obtain ⟨left, hleft⟩ := hf old new hg
          exact ⟨_, by rw [hleft]; rfl⟩

/-- **`GridInitKernel` is cancelled in its loops** if they check the flag once more than it stays
unset. -/
theorem runGridInit_cancelled (num : Numerics) {d : GraphDimension} {queries : List ChunkQuery}
    (hdim : ∀ query ∈ queries, query.dimension = d)
    (htotal : (queries.map ChunkQuery.samples).sum < 2 ^ 32) {p : JobPacket}
    (hp : Encoded queries p) {looks : ℕ}
    (hlooks : looks < looksOf (gridSteps num d (queries.flatMap ChunkQuery.metas)
      (queries.flatMap ChunkQuery.floats) 0 (startOffsets 0 queries))) :
    ∃ q, (KernelLoops.watched.runGridInit num d (.after looks)).run p =
      some (.error .cancelled, q) := by
  obtain ⟨p', hrun, -⟩ := runGridInit_spec num hdim htotal hp
  obtain ⟨p₁, -, -, -, -, hloops⟩ := runGridInit_run num htotal hp
  rw [runGridInit, hloops] at hrun
  rw [hloops]
  refine withSlices_cancelled hrun fun old new hgrid => ?_
  rw [KernelLoops.plain_grid, ← writesOf_gridSteps] at hgrid
  obtain ⟨news, hnews, -⟩ := Option.map_eq_some_iff.mp hgrid
  exact runSteps_cancelled hnews hlooks

/-- A grid of more elements than a loop handles between two checks, whatever the kernel. -/
def wideGrid : ChunkQuery := .grid2D 64 65 ⟨0⟩ ⟨0⟩ ⟨1⟩ ⟨1⟩

/-- The grid is laid out in a new packet, or cancelled halfway. -/
theorem stage_cancels_cleanly_wide :
    cancelCheckEvery .d2 < wideGrid.samples ∧
      ∃ p, (encodeBatch ⟨true⟩ gridPlan [wideGrid]).run {} = some (.ok (), p) ∧
        CancelsCleanly .silent [[.gridInit .d2]] 0 p ∧
        (∃ q, (runStageWatched .silent [[.gridInit .d2]] 0 .never).run p = some (.ok .never, q)) ∧
        ∃ q, (runStageWatched .silent [[.gridInit .d2]] 0 (.after 2)).run p =
          some (.error .cancelled, q) := by
  have hgrid : GridBatch gridPlan.plannerMeta.dimension [wideGrid] := by
    constructor <;> decide
  obtain ⟨p, hrun, henc, -⟩ := encodeBatch_spec (hgrid.fits ⟨true⟩) JobPacket.wf_default
  have hclean := stage_cancels_cleanly .silent [[.gridInit .d2]] 0 henc.wf
  obtain ⟨q, hq, -⟩ := runGridInit_spec .silent hgrid.dimension hgrid.total henc
  -- the flag is seen after row 32: the checks before the kernel and after row 0 do not see it
  have hlooks : 1 < looksOf (gridSteps .silent .d2 ([wideGrid].flatMap ChunkQuery.metas)
      ([wideGrid].flatMap ChunkQuery.floats) 0 (startOffsets 0 [wideGrid])) := by
    decide +kernel
  obtain ⟨cut, hcut⟩ := runGridInit_cancelled .silent hgrid.dimension hgrid.total henc hlooks
  change (KernelLoops.watched.runGridInit .silent .d2 (.after 1)).run p = _ at hcut
  refine ⟨by decide, p, hrun, hclean, ⟨q, ?_⟩, cut, ?_⟩
  · have hstage : runStage .silent [[.gridInit .d2]] 0 =
        runGridInit .silent .d2 >>= fun _ => pure () := rfl
    have hone : (runStage .silent [[.gridInit .d2]] 0).run p = some (.ok (), q) := by
      rw [hstage, PacketM.run_bind_unit]
      exact hq
    rw [hclean.never, hone]
    rfl
  · have hstage : runStageWatched .silent [[.gridInit .d2]] 0 (.after 2) =
        (PacketM.read fun _ => .ok (.after 1)) >>= fun watch =>
          KernelLoops.watched.runGridInit .silent .d2 watch >>= pure := rfl
    rw [hstage, PacketM.run_bind, PacketM.run_read]
    change ((KernelLoops.watched.runGridInit .silent .d2 (.after 1)) >>= pure).run p = _
    rw [PacketM.run_bind, hcut]
    rfl

end Braids
