import Braids.Cpu.Jobs
import Braids.FastNoise.Jobs

/-!
# FastNoise on the CPU Backend

`make_cpu_backend` of `runtime.rs`: `CpuComputeBackend` with one factory, which is registered for
all kinds of FastNoise kernels. Elsewhere `prepareStages` and `runStageWatched` stand for its
`prepare` and `run_stage`; here they are what the backend does, and a stack that runs on it
answers graphs.

## Main results

* `makeCpuBackend_prepare`: what it prepares.
* `runCpuStage_shows`: what its stages do.
* `jobs_answer_on_cpu`: the jobs of a stack on it are answered with the samples of their graphs.
-/

namespace Braids

open Braids.Runtime

/-! ### The factories -/

/-- `FastNoiseKernelFactory`. -/
def fastNoiseKernelFactory : CpuKernelFactory CpuKernel :=
  ⟨fun _ kernel => .of (.ofResult (prepareKernel kernel))⟩

/-- `make_cpu_backend`. -/
def makeCpuBackend : CpuComputeBackend CpuKernel :=
  [.initGrid2d, .initGrid3d, .warp2d, .warp3d, .sample2d, .sample3d, .combine].foldl
    (fun backend (kernel : FastNoiseKernel) =>
      backend.registerFactory kernel.kind fastNoiseKernelFactory) .new

/-- A factory is registered for the kinds of FastNoise kernels. -/
theorem makeCpuBackend_factories (kind : KernelKind) :
    makeCpuBackend.factories kind =
      (FastNoiseKernel.fromKind kind).map fun _ => fastNoiseKernelFactory := by
  obtain ⟨val⟩ := kind
  simp only [makeCpuBackend, List.foldl, CpuComputeBackend.registerFactory, CpuComputeBackend.new,
    Function.update_apply, FastNoiseKernel.kind, FastNoiseKernel.fromKind, KernelKind.mk.injEq]
  split_ifs with h₁ h₂ h₃ h₄ h₅ h₆ h₇
  iterate 7 · subst val; rfl
  -- of no kind that is registered
  split <;> first | contradiction | rfl

/-- The kernel of a specification, of any kind. -/
theorem makeCpuBackend_prepareKernel (choice : ℕ) (kernel : KernelSpec) :
    makeCpuBackend.prepareKernel choice kernel = .of (.ofResult (prepareKernel kernel)) := by
  rw [CpuComputeBackend.prepareKernel, makeCpuBackend_factories]
  cases hkind : FastNoiseKernel.fromKind kernel.kindId with
  | none =>
      rw [prepareKernel, hkind]
      rfl
  | some kind => rfl

/-- **What the backend prepares**, with any scratch object. -/
theorem makeCpuBackend_prepare {M : Type} (choice : ℕ → ℕ → ℕ) (plan : CompiledPlan M)
    (scratch : ComputeScratch) :
    (makeCpuBackend.prepare choice plan).result scratch =
      prepareStages plan.pipeline.stages := by
  have hkernels : ∀ stageIndex (stage : StageSpec) s,
      (ScratchM.traverse (fun i => makeCpuBackend.prepareKernel (choice stageIndex i)) 0
        stage.kernels).run s =
          some (HookResult.traverse (fun kernel => .ofResult (prepareKernel kernel))
            stage.kernels, s) := by
    intro stageIndex stage s
    refine ScratchM.run_traverse (fun i kernel s => ?_) 0 stage.kernels s
    rw [makeCpuBackend_prepareKernel]
    rfl
  have hrun : (makeCpuBackend.prepare choice plan).run scratch =
      some (prepareStages plan.pipeline.stages, scratch.reset) :=
    ScratchM.run_traverse hkernels 0 plan.pipeline.stages scratch.reset
  rw [ScratchM.result, hrun]
  rfl

/-! ### The kernels -/

/-- `run` of the FastNoise kernels. -/
def fastNoiseRun (num : Numerics) : CpuKernelRun CpuKernel := fun _ kernel watch p =>
  match (kernel.runWatched num watch).call (kernel.runWatched_writes num watch).orderly p with
  | (.ok watch, p) => (.ok (), watch, p)
  | (.err error, p) => (.err error, watch, p)
  | (.panicked, p) => (.panicked, watch, p)

namespace PacketM

/-- What a call of a hook may come to. -/
theorem call_cases {α : Type} {m : PacketM α} (h : m.Orderly) (p : PacketData) :
    (∃ value q, m.run p.1 = some (.ok value, q.1) ∧ m.call h p = (.ok value, q)) ∨
      (∃ error q, m.run p.1 = some (.error error, q.1) ∧ m.call h p = (.err error, q)) ∨
      m.run p.1 = none ∧ m.call h p = (.panicked, p) := by
  rw [call]
  split
  · next value p' hrun => exact .inl ⟨value, ⟨p', h _ _ _ p.2 hrun⟩, hrun, rfl⟩
  · next error p' hrun => exact .inr (.inl ⟨error, ⟨p', h _ _ _ p.2 hrun⟩, hrun, rfl⟩)
  · next hrun => exact .inr (.inr ⟨hrun, rfl⟩)

end PacketM

/-- What a call with the packet returns and leaves is what the backend returns and leaves. After
a panic nobody looks at the packet. -/
def Shows (out : HookResult Unit × Watch × PacketData) :
    Option (BraidResult Watch × JobPacket) → Prop
  | some (.ok watch, q) => out.1 = .ok () ∧ out.2.1 = watch ∧ out.2.2.1 = q
  | some (.error error, q) => out.1 = .err error ∧ out.2.2.1 = q
  | none => out.1 = .panicked

section Stage

variable (num : Numerics) (choice : ℕ → ℕ)

/-- A kernel does what it does. -/
theorem fastNoiseRun_shows (n : ℕ) (kernel : CpuKernel) (watch : Watch) (p : PacketData) :
    Shows (fastNoiseRun num n kernel watch p) ((kernel.runWatched num watch).run p.1) := by
  rw [fastNoiseRun]
  rcases PacketM.call_cases (kernel.runWatched_writes num watch).orderly p with
    ⟨value, q, hrun, hcall⟩ | ⟨error, q, hrun, hcall⟩ | ⟨hrun, hcall⟩
  · rw [hrun, hcall]
    exact ⟨rfl, rfl, rfl⟩
  · rw [hrun, hcall]
    exact ⟨rfl, rfl⟩
  · rw [hrun, hcall]
    rfl

/-- The loop over the kernels of a stage. -/
theorem runCpuKernels_shows (i : ℕ) (kernels : List CpuKernel) (watch : Watch) (p : PacketData) :
    Shows (runCpuKernels (fastNoiseRun num) choice i kernels watch p)
      ((runKernelsWatched num kernels watch).run p.1) := by
  induction kernels generalizing i watch p with
  | nil => exact ⟨rfl, rfl, rfl⟩
  | cons kernel kernels ih =>
      rw [runKernelsWatched_cons, PacketM.run_bind, runCpuKernels]
      cases hlook : watch.look with
      | error error => exact ⟨rfl, rfl⟩
      | ok watch₁ =>
          have hread : (PacketM.read fun _ => HookResult.ofResult (.ok watch₁)).run p.1 =
              some (.ok watch₁, p.1) := rfl
          rw [hread, Option.bind_some]
          dsimp only
          rw [PacketM.run_bind]
          have hkernel := fastNoiseRun_shows num (choice i) kernel watch₁ p
          generalize fastNoiseRun num (choice i) kernel watch₁ p = out at hkernel ⊢
          generalize (kernel.runWatched num watch₁).run p.1 = ran at hkernel ⊢
          obtain ⟨r, watch₂, p₂⟩ := out
          rcases ran with _ | ⟨error | watch₃, q⟩
          · obtain rfl : r = .panicked := hkernel
            rfl
          · obtain ⟨rfl, rfl⟩ := hkernel
            exact ⟨rfl, rfl⟩
          · obtain ⟨rfl, rfl, rfl⟩ := hkernel
            exact ih (i + 1) watch₂ p₂

/-- **A stage of the backend** does what a stage does. -/
theorem runCpuStage_shows (prepared : List (List CpuKernel)) (stageIndex : ℕ) (watch : Watch)
    (p : PacketData) :
    Shows (runCpuStage (fastNoiseRun num) choice prepared stageIndex watch p)
      ((runStageWatched num prepared stageIndex watch).run p.1) := by
  rw [runCpuStage, runStageWatched_eq]
  cases prepared[stageIndex]? with
  | none => exact ⟨rfl, rfl⟩
  | some kernels => exact runCpuKernels_shows num choice 0 kernels watch p

/-- A kernel keeps the kinds of all buffers. -/
theorem fastNoiseRun_floatSlots (n : ℕ) (kernel : CpuKernel) (watch : Watch) (p : PacketData)
    (hp : FloatSlots p.1) : FloatSlots (fastNoiseRun num n kernel watch p).2.2.1 := by
  have hwrites := kernel.runWatched_writes num watch
  rw [fastNoiseRun]
  rcases PacketM.call_cases hwrites.orderly p with
    ⟨value, q, hrun, hcall⟩ | ⟨error, q, hrun, hcall⟩ | ⟨hrun, hcall⟩
  · rw [hcall]
    exact hp.of_writes hwrites p.2 hrun
  · rw [hcall]
    exact hp.of_writes hwrites p.2 hrun
  · rw [hcall]
    exact hp

end Stage

/-! ### A stack on the backend -/

/-- The hooks of `FastNoisePlanner`, and of the backend that `make_cpu_backend` returns. -/
def fastNoiseCpu (build : Build) (num : Numerics) (debugAssertions : Bool)
    (scratch : ℕ → ComputeScratch) : Runtime.Hooks fastNoise :=
  cpuHooks (T := fastNoise) (fastNoiseStack build num debugAssertions) makeCpuBackend
    (fastNoiseRun num) ⟨fun _ _ _ => 0, fun looks => ⟨fun _ => 0, looks⟩⟩ scratch

section Stack

variable {build : Build} {num : Numerics} {debugAssertions : Bool} {scratch : ℕ → ComputeScratch}
  {first state : FastNoiseState} {version : Runtime.Version fastNoise}

/-- What the backend prepares is what was prepared elsewhere. -/
theorem builds_of_cpu (h : (fastNoiseCpu build num debugAssertions scratch).Builds state version) :
    (fastNoiseStack build num debugAssertions).Builds state version := by
  obtain ⟨n, reuse, hprepare⟩ := h.yields
  refine ⟨h.compiles, h.valid, n, reuse, ?_⟩
  exact (makeCpuBackend_prepare _ version.compiled (scratch n)).symm.trans hprepare

/-- **A stage that returns** there returns on the backend. -/
theorem runStage_of_cpu {looks i : ℕ} {prepared : List (List CpuKernel)} (stage : StageSpec)
    {p q : PacketData} (h : (fastNoiseStack build num debugAssertions).runStage looks prepared i
      stage p false = (.ok (), q, false)) :
    (fastNoiseCpu build num debugAssertions scratch).runStage looks prepared i stage p false =
      (.ok (), q, false) := by
  have hstage : runStageAt num looks prepared i p false = (.ok (), q, false) := h
  have hshows := runCpuStage_shows num (fun _ => 0) prepared i .never p
  rw [runStageAt] at hstage
  simp only [Bool.false_eq_true, if_false] at hstage
  rcases PacketM.call_cases (runStageWatched_writes num prepared i .never).orderly p with
    ⟨watch, p', hrun, hcall⟩ | ⟨error, p', hrun, hcall⟩ | ⟨hrun, hcall⟩
  · rw [hcall] at hstage
    obtain rfl : p' = q := congrArg (fun out => out.2.1) hstage
    obtain rfl : watch = .never := by
      rcases cut_runStage num prepared i .never p.1 with ⟨left, hcut, hleft⟩ | ⟨_, -, hne⟩
      · rw [hrun, hleft rfl] at hcut
        obtain ⟨⟨out, p₁⟩, -, hout⟩ := Option.map_eq_some_iff.mp hcut.symm
        have hvalue : out.map (fun _ => Watch.never) = .ok watch := congrArg Prod.fst hout
        cases out with
        | error error => cases hvalue
        | ok => exact (Except.ok.inj hvalue).symm
      · exact absurd rfl hne
    rw [hrun] at hshows
    obtain ⟨hresult, hwatch, hpacket⟩ := hshows
    have hflag : (!false && (runCpuStage (fastNoiseRun num) (fun _ => 0) prepared i .never
        p).2.1.isSet) = false := by
      rw [hwatch]
      rfl
    exact Prod.ext hresult (Prod.ext (Subtype.ext hpacket) hflag)
  · rw [hcall] at hstage
    cases congrArg Prod.fst hstage
  · rw [hcall] at hstage
    cases congrArg Prod.fst hstage

/-- What can be done to the planner state does not depend on the backend. -/
theorem edits_of_cpu {state' : FastNoiseState}
    (h : (fastNoiseCpu build num debugAssertions scratch).Edits state state') :
    (fastNoiseStack build num debugAssertions).Edits state state' := by
  rcases h with ⟨n, changes⟩ | ⟨n, spec⟩ | @⟨n, changes, _, hupdate⟩
  · exact .apply n changes
  · exact .reset n spec
  · have hnext : (fastNoiseStack build num debugAssertions).updatedState n state changes =
        .ok state' := hupdate
    exact .update hnext

/-- **The hooks keep the kinds of all buffers** on the backend. -/
theorem packetRule_cpu (first : FastNoiseState) :
    PacketRule (fastNoiseCpu build num debugAssertions scratch)
      ((fastNoiseCpu build num debugAssertions scratch).Stems first) fun p => FloatSlots p.1 := by
  have rule : PacketRule (fastNoiseStack build num debugAssertions)
      ((fastNoiseStack build num debugAssertions).Stems first) fun p => FloatSlots p.1 :=
    packetRule_floatSlots first
  have hstems : ∀ version, (fastNoiseCpu build num debugAssertions scratch).Stems first version →
      (fastNoiseStack build num debugAssertions).Stems first version := by
    rintro version ⟨state, hchain, hbuilds⟩
    exact ⟨state, hchain.lift id fun _ _ => edits_of_cpu, builds_of_cpu hbuilds⟩
  refine ⟨rule.fresh, rule.clear, fun version h => rule.load version (hstems version h),
    fun version h => rule.encode version (hstems version h), ?_⟩
  intro version _ looks i stage p cancel hp
  exact runCpuStage_keeps (I := fun p => FloatSlots p.1) (fastNoiseRun_floatSlots num)
    version.prepared i _ hp

/-- Every job of a stack on the backend was dispatched for a version of a graph that edits of the
first one lead to. If this graph runs and the batch fits, the job is answered with the samples of
the graph, unless it is cancelled or the executor shuts down. -/
def JobsAnswerOnCpu (build : Build) (num : Numerics) (debugAssertions : Bool)
    (scratch : ℕ → ComputeScratch) (first : FastNoiseState) (s : FastNoiseMachine) : Prop :=
  ∀ j job, s.shared.client.job j = some job → ∃ state,
    Relation.ReflTransGen (fastNoiseCpu build num debugAssertions scratch).Edits first state ∧
    (fastNoiseCpu build num debugAssertions scratch).Builds state job.seen ∧
    (state.InputsFit → state.Runnable → BatchFits build state.dimension job.queries →
      AnswersGraph num state job)

/-- **Jobs on the backend answer graphs**, in every state that a created stack reaches. -/
theorem jobs_answer_on_cpu {s : FastNoiseMachine}
    (h : ReachedFrom (fastNoiseCpu build num debugAssertions scratch) first s) :
    JobsAnswerOnCpu build num debugAssertions scratch first s := by
  intro j job hj
  obtain ⟨state, hchain, hbuilds⟩ := h.chained.jobs j job hj
  rw [((inOrder h.reached).2.job j job hj).sound.snapshot] at hbuilds
  refine ⟨state, hchain, hbuilds, fun hinputs hgood hbatch => ?_⟩
  obtain ⟨values, hanswers, hsucceeds, hencode⟩ :=
    succeeds_of_builds (builds_of_cpu hbuilds) hinputs hgood hbatch
  have hcpu : ∀ choice, Succeeds (fastNoiseCpu build num debugAssertions scratch) job.seen
      ((fastNoiseCpu build num debugAssertions scratch).batchSteps choice job.seen job.queries)
      (fun i p => Staged num job.seen.compiled job.seen.prepared job.queries i p.1) values := by
    intro choice
    refine ⟨fun i stage data hstage hdata => ?_, (hsucceeds choice).valid,
      (hsucceeds choice).decode⟩
    obtain ⟨data', hrun, hnext⟩ := (hsucceeds choice).stage i stage data hstage hdata
    have hreturns : (fastNoiseStack build num debugAssertions).runStage (choice (i + 1))
        job.seen.prepared i stage data false = (.ok (), data', false) := hrun
    have honCpu : (fastNoiseCpu build num debugAssertions scratch).runStage (choice (i + 1))
        job.seen.prepared i stage data false = (.ok (), data', false) :=
      runStage_of_cpu stage hreturns
    exact ⟨data', honCpu, hnext⟩
  exact .of_refines (h.refinesInline (packetRule_cpu first)) hj hanswers fun _ =>
    Inlines.eq_ok hcpu hencode

end Stack

/-- The state of a stack for a sample in three dimensions, after the actions. -/
def caveOnCpu (actions : List (Action (Runtime.Code fastNoise))) : FastNoiseMachine :=
  (Lts.runs (machineStep (Runtime.stackClient (fastNoiseCpu ⟨true⟩ Numerics.silent true
    fun _ => {}))) (fun _ _ => True) (.start caveStack 1) actions).getD (.start caveStack 1)

/-- Actions that can be taken reach the state after them. -/
theorem caveOnCpu_reachedFrom {actions : List (Action (Runtime.Code fastNoise))}
    (h : (Lts.runs (machineStep (Runtime.stackClient (fastNoiseCpu ⟨true⟩ Numerics.silent true
      fun _ => {}))) (fun _ _ => True) (.start caveStack 1) actions).isSome) :
    ReachedFrom (fastNoiseCpu ⟨true⟩ Numerics.silent true fun _ => {}) cave
      (caveOnCpu actions) := by
  obtain ⟨s, hs⟩ := Option.isSome_iff_exists.mp h
  rw [caveOnCpu, hs]
  exact ⟨fun _ => 0, 0, caveStack, rfl, .of_runs actions ⟨1, rfl⟩ hs⟩

/-- The sample is a graph that runs, and its job is answered on the backend. -/
theorem jobs_answer_on_cpu_cave :
    ((caveOnCpu caveJob).shared.client.job 1).map (statusOf ·.record) = some .completed ∧
      cave.InputsFit ∧ cave.Runnable ∧
      JobsAnswerOnCpu ⟨true⟩ Numerics.silent true (fun _ => {}) cave (caveOnCpu caveJob) :=
  ⟨rfl, cave_runs.1, cave_runs.2, jobs_answer_on_cpu (caveOnCpu_reachedFrom rfl)⟩

end Braids
