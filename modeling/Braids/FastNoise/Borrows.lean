import Braids.FastNoise.Kernels
import Braids.FastNoise.Semantics
import Braids.Packet.Frames

/-!
# What Kernels Borrow

A kernel changes the packet by the slots that it borrows only, and what it writes there is
floats, whatever its loops do and however they end.

## Main results

* `KernelLoops.run_obeys`: what a kernel does is allowed by every rule that lets floats be written
  to the slots that it reads or writes.
* `KernelLoops.runStage_obeys`, `KernelLoops.runStage_writes`: the same for the stages of a plan.
-/

namespace Braids

namespace CpuKernel

/-- The slots that a kernel reads. -/
def reads : CpuKernel → List BufferSlot
  | .gridInit _ => []
  | .warp _ kernel => kernel.source.coords
  | .sample _ kernel => kernel.source.coords
  | .combine kernel =>
      match kernel.op with
      | .yGradient => kernel.inputs.take 1 ++ [slotBaseY]
      | op => kernel.inputs.take op.inputCount

/-- The slots that a kernel writes. -/
def writes : CpuKernel → List BufferSlot
  | .gridInit d => (basePositionSlots d).coords
  | .warp _ kernel => kernel.output.coords
  | .sample _ kernel => [kernel.output]
  | .combine kernel => [kernel.output]

end CpuKernel

section Obeys

open PacketM

variable {σ : Type} (loops : KernelLoops σ) (num : Numerics) {rule : SlotRule}

/-- The rule lets floats be written to the slot. -/
def SlotRule.Floats (rule : SlotRule) (slot : BufferSlot) : Prop :=
  ∀ (old : Option BufferData) (values : List F32),
    rule.Allows slot old (some (.ofList .f32 values))

/-- Buffers of floats may be written anywhere. -/
theorem SlotRule.kind_floats (slot : BufferSlot) : (SlotRule.kind .f32).Floats slot :=
  fun _ values => Or.inr ⟨values, rfl⟩

/-- Floats may be overwritten where they may be written. -/
theorem SlotRule.Floats.overwrites {slot : BufferSlot} (h : rule.Floats slot) :
    rule.Overwrites .f32 slot :=
  fun _ new _ => h _ new

/-- `ensure` on some slots. -/
theorem ensureAll_obeys (total : ℕ) {slots : List BufferSlot}
    (h : ∀ slot ∈ slots, rule.Floats slot) :
    (ensureAll total slots).Obeys rule := by
  induction slots with
  | nil => exact .pure ()
  | cons slot slots ih =>
      rw [List.forall_mem_cons] at h
      exact .bind (.ensure (fun old values => h.1 old values) total some) fun _ => ih h.2

namespace KernelLoops

/-- A loop over the elements of some slots. -/
theorem runPointwise_obeys (mask : ℕ) {inputs outputs : List BufferSlot}
    (h : ∀ slot ∈ inputs ++ outputs, rule.Floats slot) (f : List F32 → Option (List F32))
    (flag : σ) : (loops.runPointwise mask inputs outputs f flag).Obeys rule :=
  .withSlices (fun slot hslot => (h slot hslot).overwrites) _

/-- A kernel that makes its outputs long enough and then does something else. -/
theorem ensures_obeys {α : Type} {outputs : List BufferSlot}
    (h : ∀ slot ∈ outputs, rule.Floats slot)
    {m : PacketM α} (hm : m.Obeys rule) :
    (do
      let total ← readTotal
      ensureAll total outputs
      m).Obeys rule :=
  .bind (.bind (.read _) fun _ => .pure _) fun total =>
    .bind (ensureAll_obeys total h) fun _ => hm

/-- A combine kernel. -/
theorem runCombine_obeys {kernel : CombinePayload}
    (h : ∀ slot ∈ (CpuKernel.combine kernel).reads ++ [kernel.output], rule.Floats slot)
    (flag : σ) : (loops.runCombine num kernel flag).Obeys rule := by
  refine ensures_obeys (fun slot hslot => h slot (List.mem_append_right _ hslot)) ?_
  rcases kernel with ⟨op, inputs, output, params⟩
  have hbinary : ∀ f, op.inputCount = 2 → (∀ slot ∈ inputs.take 2 ++ [output], rule.Floats slot) →
      (loops.runBinary ⟨op, inputs, output, params⟩ f flag).Obeys rule := by
    intro f _ hall
    rcases inputs with _ | ⟨left, _ | ⟨right, inputs⟩⟩
    · exact .panic
    · exact .panic
    · exact loops.runPointwise_obeys _ hall _ _
  cases op with
  | add | sub | mul | min | max => exact hbinary _ rfl h
  | clamp =>
      rcases params with _ | ⟨minValue, _ | ⟨maxValue, params⟩⟩
      · exact .panic
      · exact .panic
      · rcases inputs with _ | ⟨input, inputs⟩
        · exact .panic
        · exact loops.runPointwise_obeys _ h _ _
  | remap | yGradient =>
      rcases params with _ | ⟨_, _ | ⟨_, _ | ⟨_, _ | ⟨_, params⟩⟩⟩⟩
      · exact .panic
      · exact .panic
      · exact .panic
      · exact .panic
      · rcases inputs with _ | ⟨input, inputs⟩
        · exact .panic
        · exact loops.runPointwise_obeys _ h _ _

/-- **A kernel** writes floats to the slots that it reads or writes, and nothing else. -/
theorem run_obeys {kernel : CpuKernel}
    (h : ∀ slot ∈ kernel.reads ++ kernel.writes, rule.Floats slot)
    (flag : σ) : (loops.run num kernel flag).Obeys rule := by
  cases kernel with
  | gridInit d =>
      have hslots : ∀ slot ∈ (basePositionSlots d).coords, rule.Floats slot := h
      refine .bind (.read _) fun metas => .bind (.read _) fun floats => .bind (.read _)
        fun offsets => .bind (.read _) fun queryCount => ?_
      exact .bind (ensureAll_obeys _ hslots) fun _ =>
        .withSlices (fun slot hslot => (hslots slot hslot).overwrites) _
  | warp d kernel | sample d kernel =>
      exact ensures_obeys (fun slot hslot => h slot (List.mem_append_right _ hslot))
        (loops.runPointwise_obeys _ h _ _)
  | combine kernel => exact loops.runCombine_obeys num h flag

/-- The kernels of a stage. -/
theorem runKernels_obeys {kernels : List CpuKernel}
    (h : ∀ kernel ∈ kernels, ∀ slot ∈ kernel.reads ++ kernel.writes, rule.Floats slot)
    (flag : σ) : (loops.runKernels num kernels flag).Obeys rule := by
  induction kernels generalizing flag with
  | nil => exact .pure flag
  | cons kernel kernels ih =>
      rw [List.forall_mem_cons] at h
      exact .bind (.read _) fun flag => .bind (loops.run_obeys num h.1 flag) (ih h.2)

/-- **A stage** writes floats to the slots of its kernels, and nothing else. -/
theorem runStage_obeys {prepared : List (List CpuKernel)} {stageIndex : ℕ}
    (h : ∀ kernels, prepared[stageIndex]? = some kernels → ∀ kernel ∈ kernels,
      ∀ slot ∈ kernel.reads ++ kernel.writes, rule.Floats slot)
    (flag : σ) : (loops.runStage num prepared stageIndex flag).Obeys rule := by
  rw [runStage]
  split
  · exact .read _
  · next kernels hstage => exact loops.runKernels_obeys num (h kernels hstage) flag

/-- A stage writes floats. -/
theorem runStage_writes (prepared : List (List CpuKernel)) (stageIndex : ℕ) (flag : σ) :
    (loops.runStage num prepared stageIndex flag).Writes .f32 :=
  loops.runStage_obeys num (fun _ _ _ _ slot _ => SlotRule.kind_floats slot) flag

end KernelLoops

end Obeys

end Braids
