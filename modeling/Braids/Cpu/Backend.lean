import Braids.Cpu.Scratch
import Braids.Runtime.Hooks

/-!
# The CPU Backend

`CpuComputeBackend`, for any kernels and any factories. `prepare` walks over the stages of a
plan and asks the factory that is registered for the kind of each kernel; `run_stage` runs the
kernels that it prepared for one stage, and looks at the cancel flag before each of them.

## Conventions

* The cancel flag is set by other threads, at any time, and never cleared while a stage runs: all
  that matters is how many of the checks of a stage come before that (`Watch`). A kernel may
  set it, too.
* `choice` resolves what else decides what a factory or a kernel does, by the indices of the stage
  and of the kernel in it.

## Main results

* `CpuComputeBackend.prepare_recycled`: the scratch object that is handed in does not matter.
* `CpuComputeBackend.forall_made`: a prepared plan has one kernel for each that is specified.
* `RunsTo`: the kernels of a plan as a straight-line program, and `runCpuKernels_runsTo`: what
  a stage does is what this program does.
-/

namespace Braids

open Braids.Runtime

/-! ### The cancel flag -/

/-- When the cancel flag is set. -/
inductive Watch
  | never
  /-- When it has been checked that many times. -/
  | after (looks : ℕ)

/-- `if cancel.is_cancelled() { return Err(BraidError::Cancelled) }`. -/
def Watch.look : Watch → BraidResult Watch
  | .never => .ok .never
  | .after 0 => .error .cancelled
  | .after (looks + 1) => .ok (.after looks)

/-- The flag is set, or will be. -/
def Watch.isSet : Watch → Bool
  | .never => false
  | .after _ => true

/-- A flag that is set is not one that is never set. -/
theorem Watch.isSet_iff {watch : Watch} : watch.isSet = true ↔ watch ≠ .never := by
  cases watch <;> simp [isSet]

/-- A flag that is not set is never set. -/
theorem Watch.eq_never {watch : Watch} (h : watch.isSet = false) : watch = .never := by
  cases watch with
  | never => rfl
  | after looks => cases h

/-- A check that returns early has seen the flag. -/
theorem Watch.look_eq_error {watch : Watch} {error : BraidError} (h : watch.look = .error error) :
    error = .cancelled ∧ watch ≠ .never := by
  cases watch with
  | never => cases h
  | after looks =>
      cases looks with
      | zero => exact ⟨(Except.error.inj h).symm, by simp⟩
      | succ looks => cases h

/-! ### Factories -/

/-- `CpuKernelFactory`, for kernels `K`. -/
structure CpuKernelFactory (K : Type) where
  prepare : ℕ → KernelSpec → ScratchM K

/-- `CpuComputeBackend`. -/
structure CpuComputeBackend (K : Type) where
  factories : KernelKind → Option (CpuKernelFactory K)

namespace CpuComputeBackend

variable {K M : Type}

/-- `new`. -/
def new : CpuComputeBackend K := ⟨fun _ => none⟩

/-- `register_factory`. A second factory for a kind replaces the first one. -/
def registerFactory (backend : CpuComputeBackend K) (kindId : KernelKind)
    (factory : CpuKernelFactory K) : CpuComputeBackend K :=
  ⟨Function.update backend.factories kindId (some factory)⟩

/-- The kernel of a specification. -/
def prepareKernel (backend : CpuComputeBackend K) (choice : ℕ) (kernel : KernelSpec) :
    ScratchM K :=
  match backend.factories kernel.kindId with
  | none => .of (.err (.backendRejectedKernel kernel.kindId))
  | some factory => factory.prepare choice kernel

/-- `prepare`: the kernels of all stages. The prepared state to be reused is dropped. -/
def prepare (backend : CpuComputeBackend K) (choice : ℕ → ℕ → ℕ) (plan : CompiledPlan M) :
    ScratchM (List (List K)) := do
  ScratchM.reset
  ScratchM.traverse (fun stageIndex (stage : StageSpec) =>
    ScratchM.traverse (fun i => backend.prepareKernel (choice stageIndex i)) 0 stage.kernels)
    0 plan.pipeline.stages

/-- A factory that is registered for the kind of the specification has made the kernel. -/
def Made (backend : CpuComputeBackend K) (spec : KernelSpec) (kernel : K) : Prop :=
  ∃ factory choice s t, backend.factories spec.kindId = some factory ∧
    (factory.prepare choice spec).run s = some (.ok kernel, t)

/-- **The scratch object does not matter** that is handed in, whatever is in it. -/
theorem prepare_recycled (backend : CpuComputeBackend K) (choice : ℕ → ℕ → ℕ)
    (plan : CompiledPlan M) (scratch : ComputeScratch) :
    (backend.prepare choice plan).result scratch = (backend.prepare choice plan).result {} :=
  ScratchM.result_recycled _ scratch

/-- **A prepared plan** has one kernel for each that is specified, made by a factory that is
registered for its kind. -/
theorem forall_made {backend : CpuComputeBackend K} {choice : ℕ → ℕ → ℕ}
    {plan : CompiledPlan M} {prepared : List (List K)} {s t : ComputeScratch}
    (h : (backend.prepare choice plan).run s = some (.ok prepared, t)) :
    List.Forall₂ (fun stage kernels => List.Forall₂ backend.Made stage.kernels kernels)
      plan.pipeline.stages prepared := by
  obtain ⟨-, s₁, -, hstages⟩ := ScratchM.run_bind_eq_ok.mp h
  refine (ScratchM.forall_of_traverse hstages).imp fun stage kernels hstage => ?_
  obtain ⟨stageIndex, s₂, t₂, hkernels⟩ := hstage
  refine (ScratchM.forall_of_traverse hkernels).imp fun spec kernel hkernel => ?_
  obtain ⟨i, s₃, t₃, hrun⟩ := hkernel
  rw [prepareKernel] at hrun
  split at hrun
  · cases hrun
  · next factory hfactory => exact ⟨factory, choice stageIndex i, s₃, t₃, hfactory, hrun⟩

end CpuComputeBackend

/-! ### Kernels -/

/-- `run` of the kernels `K`: what a kernel returns, what is left of the watch, and the packet
after it. A kernel that sets the cancel flag leaves a watch that sees it. -/
abbrev CpuKernelRun (K : Type) : Type :=
  ℕ → K → Watch → PacketData → HookResult Unit × Watch × PacketData

variable {K : Type} (run : CpuKernelRun K) (choice : ℕ → ℕ)

/-- The loop of `run_stage` over the kernels of a stage, the first of which has the given
index. -/
def runCpuKernels : ℕ → List K → Watch → PacketData → HookResult Unit × Watch × PacketData
  | _, [], watch, p => (.ok (), watch, p)
  | i, kernel :: kernels, watch, p =>
      match watch.look with
      | .error error => (.err error, watch, p)
      | .ok watch =>
          match run (choice i) kernel watch p with
          | (.ok (), watch, p) => runCpuKernels (i + 1) kernels watch p
          | other => other

/-- `run_stage`. -/
def runCpuStage (prepared : List (List K)) (stageIndex : ℕ) (watch : Watch) (p : PacketData) :
    HookResult Unit × Watch × PacketData :=
  match prepared[stageIndex]? with
  | none => (.err (.message "prepared stage missing"), watch, p)
  | some kernels => runCpuKernels run choice 0 kernels watch p

/-- What kernels do one after another, each on the packet that the one before has left, up to
the first that does not return `Ok`. -/
inductive RunsTo (run : CpuKernelRun K) :
    List K → Watch → PacketData → HookResult Unit → Watch → PacketData → Prop
  | done {watch : Watch} {p : PacketData} : RunsTo run [] watch p (.ok ()) watch p
  /-- The flag is set, and a check sees it. -/
  | seen {kernels : List K} {watch : Watch} {p : PacketData} (hset : watch ≠ .never) :
      RunsTo run kernels watch p (.err .cancelled) watch p
  | next {n : ℕ} {kernel : K} {kernels : List K} {watch watch₁ watch₂ watch' : Watch}
      {p p' q : PacketData} {r : HookResult Unit} (hlook : watch.look = .ok watch₁)
      (h : run n kernel watch₁ p = (.ok (), watch₂, p'))
      (hrest : RunsTo run kernels watch₂ p' r watch' q) :
      RunsTo run (kernel :: kernels) watch p r watch' q
  | stop {n : ℕ} {kernel : K} {kernels : List K} {watch watch₁ watch' : Watch}
      {p q : PacketData} {r : HookResult Unit} (hlook : watch.look = .ok watch₁)
      (h : run n kernel watch₁ p = (r, watch', q)) (hr : r ≠ .ok ()) :
      RunsTo run (kernel :: kernels) watch p r watch' q

section Runs

variable {run} {kernels kernels' : List K} {watch watch₁ watch' : Watch} {p q q' : PacketData}
  {r : HookResult Unit}

/-- Kernels that all return `Ok`, and then others. -/
theorem RunsTo.append (h : RunsTo run kernels watch p (.ok ()) watch₁ q)
    (h' : RunsTo run kernels' watch₁ q r watch' q') :
    RunsTo run (kernels ++ kernels') watch p r watch' q' := by
  induction kernels generalizing watch p with
  | nil =>
      cases h with
      | done => exact h'
  | cons kernel kernels ih =>
      cases h with
      | next hlook hkernel hrest => exact .next hlook hkernel (ih hrest)
      | stop _ _ hr => exact (hr rfl).elim

/-- Kernels of which one does not return `Ok`, and others that are not run. -/
theorem RunsTo.append_stop (h : RunsTo run kernels watch p r watch' q) (hr : r ≠ .ok ()) :
    RunsTo run (kernels ++ kernels') watch p r watch' q := by
  induction h with
  | done => exact (hr rfl).elim
  | seen hset => exact .seen hset
  | next hlook hkernel _ ih => exact .next hlook hkernel (ih hr)
  | stop hlook hkernel => exact .stop hlook hkernel hr

/-- **The loop over the kernels** does what they do one after another. -/
theorem runCpuKernels_runsTo (run : CpuKernelRun K) (choice : ℕ → ℕ) (i : ℕ) (kernels : List K)
    (watch : Watch) (p : PacketData) :
    let out := runCpuKernels run choice i kernels watch p
    RunsTo run kernels watch p out.1 out.2.1 out.2.2 := by
  induction kernels generalizing i watch p with
  | nil => exact .done
  | cons kernel kernels ih =>
      rw [runCpuKernels]
      cases hlook : watch.look with
      | error error =>
          obtain ⟨rfl, hset⟩ := Watch.look_eq_error hlook
          exact .seen hset
      | ok watch₁ =>
          rcases hrun : run (choice i) kernel watch₁ p with ⟨r, watch₂, p'⟩
          cases r with
          | ok =>
              simp only [hrun]
              exact .next hlook hrun (ih (i + 1) watch₂ p')
          | err error =>
              simp only [hrun]
              exact .stop hlook hrun (by simp)
          | panicked =>
              simp only [hrun]
              exact .stop hlook hrun (by simp)

/-- What each kernel keeps, the loop over the kernels keeps. -/
theorem runCpuKernels_keeps {I : PacketData → Prop} {choice : ℕ → ℕ}
    (hrun : ∀ n kernel watch p, I p → I (run n kernel watch p).2.2) (i : ℕ) (kernels : List K)
    (watch : Watch) {p : PacketData} (hp : I p) :
    I (runCpuKernels run choice i kernels watch p).2.2 := by
  induction kernels generalizing i watch p with
  | nil => exact hp
  | cons kernel kernels ih =>
      rw [runCpuKernels]
      cases watch.look with
      | error error => exact hp
      | ok watch₁ =>
          have hkernel := hrun (choice i) kernel watch₁ p hp
          rcases hout : run (choice i) kernel watch₁ p with ⟨r, watch₂, p₂⟩
          rw [hout] at hkernel
          cases r with
          | ok =>
              simp only [hout]
              exact ih (i + 1) watch₂ hkernel
          | err error =>
              simp only [hout]
              exact hkernel
          | panicked =>
              simp only [hout]
              exact hkernel

/-- What each kernel keeps, a stage keeps. -/
theorem runCpuStage_keeps {I : PacketData → Prop} {choice : ℕ → ℕ}
    (hrun : ∀ n kernel watch p, I p → I (run n kernel watch p).2.2) (prepared : List (List K))
    (stageIndex : ℕ) (watch : Watch) {p : PacketData} (hp : I p) :
    I (runCpuStage run choice prepared stageIndex watch p).2.2 := by
  rw [runCpuStage]
  cases prepared[stageIndex]? with
  | none => exact hp
  | some kernels => exact runCpuKernels_keeps hrun 0 kernels watch hp

end Runs

end Braids
