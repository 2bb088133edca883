import Braids.Cpu.Backend
import Braids.Runtime.Trace

/-!
# Jobs on the CPU Backend

A stack of any planner and `CpuComputeBackend`, with any factories and kernels. The stages of
a job run as tasks of their own, on any worker, with other jobs and updates in between. What
comes out is what a straight-line program does: encode, all kernels of the plan one after
another in the order in which the plan lists them, decode.

## Main results

* `cpuHooks_recycled`: what is in the scratch objects that the pool hands out does not matter.
* `executes_inline`: an inline execution is this program.
* `cpu_jobs_run_plans`: so is a job, in every state that a created stack reaches.
-/

namespace Braids

open Braids.Runtime InlineM

/-- The associated types of a planner and `CpuComputeBackend`. -/
abbrev cpuTypes (T : Types) (K : Type) : Types := { T with Prepared := List (List K) }

/-- What resolves the choices of a stage: those of its kernels, by their index, and how many
checks have not seen the cancel flag if it is set before the stage returns. -/
structure StageChoice where
  kernels : ℕ → ℕ
  looks : ℕ

/-- What resolves the choices of the backend, by the choice of the hook: those of the factories,
by the indices of the stage and of the kernel in it, and those of the stages. -/
structure CpuChoices where
  factories : ℕ → ℕ → ℕ → ℕ
  stage : ℕ → StageChoice

variable {T : Types} {K : Type}

/-- The hooks of a planner, with those of `CpuComputeBackend`. The pool hands out any scratch
object. -/
def cpuHooks (planner : Runtime.Hooks (cpuTypes T K)) (backend : CpuComputeBackend K)
    (run : CpuKernelRun K) (choices : CpuChoices) (scratch : ℕ → ComputeScratch) :
    Runtime.Hooks (cpuTypes T K) :=
  { planner with
    prepare := fun n compiled _ =>
      (backend.prepare (choices.factories n) compiled).result (scratch n)
    runStage := fun n prepared stageIndex _ p cancel =>
      let watch := if cancel then .after (choices.stage n).looks else .never
      let out := runCpuStage run (choices.stage n).kernels prepared stageIndex watch p
      (out.1, out.2.2, !cancel && out.2.1.isSet) }

/-- **Recycled scratch objects make no difference** for a stack. -/
theorem cpuHooks_recycled (planner : Runtime.Hooks (cpuTypes T K)) (backend : CpuComputeBackend K)
    (run : CpuKernelRun K) (choices : CpuChoices) (scratch : ℕ → ComputeScratch) :
    cpuHooks planner backend run choices scratch =
      cpuHooks planner backend run choices fun _ => {} := by
  rw [cpuHooks, cpuHooks]
  simp only [CpuComputeBackend.prepare_recycled _ _ _ (scratch _)]

/-! ### The straight-line program -/

/-- How the kernels of the given stages of a version may end. A kernel may set the cancel flag
of the job it works for. -/
inductive StagesEnd (planner : Runtime.Hooks (cpuTypes T K)) (run : CpuKernelRun K)
    (version : Runtime.Version (cpuTypes T K)) (prepared : List (List K)) (watch : Watch)
    (p : PacketData) : HookResult Unit → PacketData → Prop
  | ran {r : HookResult Unit} {q : PacketData}
      (h : ∃ watch', RunsTo run prepared.flatten watch p r watch' q) :
      StagesEnd planner run version prepared watch p r q
  /-- A debug build has found that some stages leave an invalid packet. -/
  | invalid {n : ℕ} {q : PacketData} {error : BraidError}
      (h : ∃ watch', RunsTo run (prepared.take n).flatten watch p (.ok ()) watch' q)
      (hvalid : planner.validateRuntimePacket version.compiled q = .error error) :
      StagesEnd planner run version prepared watch p (.err error) q

/-- What encoding a batch and running the kernels of a version may return, and leave. -/
inductive Readies (planner : Runtime.Hooks (cpuTypes T K)) (run : CpuKernelRun K)
    (version : Runtime.Version (cpuTypes T K)) (queries : List T.Query) :
    HookResult Unit → PacketData → Prop
  | stopped {n : ℕ} {p q : PacketData} {r : HookResult Unit}
      (h : planner.encodeBatch n version.compiled queries
        (p.start version.compiled.staticBuffers) = (r, q)) (hr : r ≠ .ok ()) :
      Readies planner run version queries r q
  | encoded {n : ℕ} {p data q : PacketData} {r : HookResult Unit}
      (h : planner.encodeBatch n version.compiled queries
        (p.start version.compiled.staticBuffers) = (.ok (), data))
      (hstages : StagesEnd planner run version version.prepared .never data r q) :
      Readies planner run version queries r q

/-- What encoding a batch, running the kernels of a version one after another, and decoding may
return. -/
def Executes (planner : Runtime.Hooks (cpuTypes T K)) (run : CpuKernelRun K)
    (version : Runtime.Version (cpuTypes T K)) (queries : List T.Query)
    (result : HookResult (List T.Resolution)) : Prop :=
  ∃ n r q, Readies planner run version queries r q ∧
    result = r >>= fun _ => planner.decodeBatch n version.compiled q

section Inline

variable {planner : Runtime.Hooks (cpuTypes T K)} {backend : CpuComputeBackend K}
  {run : CpuKernelRun K} {choices : CpuChoices} {scratch : ℕ → ComputeScratch}
  {version : Runtime.Version (cpuTypes T K)} {queries : List T.Query}

/-- One more stage, which returns `Ok` and leaves a valid packet. -/
theorem StagesEnd.cons {kernels : List K} {prepared : List (List K)} {watch watch₁ : Watch}
    {p p' q : PacketData} {r : HookResult Unit}
    (hrun : RunsTo run kernels watch p (.ok ()) watch₁ p')
    (h : StagesEnd planner run version prepared watch₁ p' r q) :
    StagesEnd planner run version (kernels :: prepared) watch p r q := by
  cases h with
  | ran h =>
      obtain ⟨watch', h⟩ := h
      refine .ran ⟨watch', ?_⟩
      rw [List.flatten_cons]
      exact hrun.append h
  | @invalid n q error h hvalid =>
      obtain ⟨watch', h⟩ := h
      refine .invalid (n := n + 1) ⟨watch', ?_⟩ hvalid
      rw [List.take_succ_cons, List.flatten_cons]
      exact hrun.append h

/-- A stage that does not return `Ok` ends all of them. -/
theorem StagesEnd.stop {kernels : List K} {prepared : List (List K)} {watch watch' : Watch}
    {p q : PacketData} {r : HookResult Unit} (hrun : RunsTo run kernels watch p r watch' q)
    (hr : r ≠ .ok ()) : StagesEnd planner run version (kernels :: prepared) watch p r q := by
  refine .ran ⟨watch', ?_⟩
  rw [List.flatten_cons]
  exact hrun.append_stop hr

/-- **A stage** that is not cancelled runs its kernels one after another. -/
theorem runStage_runsTo {n index : ℕ} {stage : StageSpec} {kernels : List K}
    (hkernels : version.prepared[index]? = some kernels) {p q : PacketData}
    {r : HookResult Unit} {flag : Bool}
    (h : (cpuHooks planner backend run choices scratch).runStage n version.prepared index
      stage p false = (r, q, flag)) :
    ∃ watch, RunsTo run kernels .never p r watch q ∧ flag = watch.isSet := by
  simp only [cpuHooks, runCpuStage, hkernels] at h
  obtain ⟨hr, hleft⟩ := Prod.mk.inj h
  obtain ⟨hq, hflag⟩ := Prod.mk.inj hleft
  subst hr hq hflag
  exact ⟨_, runCpuKernels_runsTo run (choices.stage n).kernels 0 kernels .never p, rfl⟩

/-- Validating the packet of the context. -/
theorem validate_run (context : InlineContext) :
    (cpuHooks planner backend run choices scratch).validate version.compiled context =
      (.ofResult (planner.validateRuntimePacket version.compiled context.packet), context) := rfl

/-- Stages that return `Ok` have run. -/
theorem StagesEnd.runsTo {prepared : List (List K)} {p q : PacketData}
    {watch : Watch} (h : StagesEnd planner run version prepared watch p (.ok ()) q) :
    ∃ watch', RunsTo run prepared.flatten watch p (.ok ()) watch' q := by
  cases h with
  | ran h => exact h

/-- **The stages** run their kernels one after another. -/
theorem runInlineStages_end {choice : ℕ → ℕ} {stages : List StageSpec}
    {prepared : List (List K)} {index : ℕ} (hdrop : version.prepared.drop index = prepared)
    (hlen : prepared.length = stages.length) {context context' : InlineContext}
    {watch : Watch} (hcancel : context.cancel = watch.isSet) {r : HookResult Unit}
    (h : runInlineStages (cpuHooks planner backend run choices scratch) version.compiled
      ((cpuHooks planner backend run choices scratch).batchSteps choice version
        queries).runStage index stages context = (r, context')) :
    StagesEnd planner run version prepared watch context.packet r context'.packet := by
  induction stages generalizing index prepared context watch with
  | nil =>
      obtain rfl := List.length_eq_zero_iff.mp hlen
      obtain ⟨rfl, rfl⟩ := Prod.mk.inj h
      exact .ran ⟨watch, .done⟩
  | cons stage stages ih =>
      obtain ⟨kernels, prepared, rfl⟩ := List.exists_cons_of_length_eq_add_one hlen
      have hkernels : version.prepared[index]? = some kernels := by
        rw [← List.head?_drop, hdrop]
        rfl
      have hrest : version.prepared.drop (index + 1) = prepared := by
        rw [← List.tail_drop, hdrop]
        rfl
      rw [runInlineStages] at h
      cases hflag : context.cancel with
      | true =>
          rw [run_bind, checkCancel, InlineM.of, hflag] at h
          obtain ⟨rfl, rfl⟩ := Prod.mk.inj h
          exact .ran ⟨watch, .seen (Watch.isSet_iff.mp (hcancel.symm.trans hflag))⟩
      | false =>
          have hcheck : checkCancel context = (.ok (), context) := by
            rw [checkCancel, InlineM.of, hflag]
            rfl
          rw [run_bind_ok hcheck, run_bind, Runtime.runStageHook, hflag] at h
          rcases hstage : (cpuHooks planner backend run choices scratch).runStage
            (choice (index + 1)) version.prepared index stage context.packet false
            with ⟨r₁, p₁, flag⟩
          simp only [Hooks.batchSteps, hstage] at h
          obtain ⟨watch₁, hran, hset⟩ := runStage_runsTo hkernels hstage
          obtain rfl := Watch.eq_never (hcancel.symm.trans hflag)
          cases r₁ with
          | err error =>
              obtain ⟨rfl, rfl⟩ := Prod.mk.inj h
              exact .stop hran (by simp)
          | panicked =>
              obtain ⟨rfl, rfl⟩ := Prod.mk.inj h
              exact .stop hran (by simp)
          | ok =>
              dsimp only at h
              rw [run_bind, validate_run] at h
              cases hvalid : planner.validateRuntimePacket version.compiled p₁ with
              | error error =>
                  rw [hvalid] at h
                  obtain ⟨rfl, rfl⟩ := Prod.mk.inj h
                  refine .invalid (n := 1) ⟨watch₁, ?_⟩ hvalid
                  simpa using hran
              | ok =>
                  rw [hvalid] at h
                  exact .cons hran (ih hrest (Nat.succ.inj hlen) hset h)

/-- **What comes before the decoding** is encoding the batch and running the kernels. -/
theorem readyPacket_readies (hlen : version.prepared.length = version.stages.length)
    {choice : ℕ → ℕ} {p : PacketData} {r : HookResult Unit} {context : InlineContext}
    (h : readyPacket (cpuHooks planner backend run choices scratch) version
      ((cpuHooks planner backend run choices scratch).batchSteps choice version queries)
      ⟨p, false⟩ = (r, context)) :
    ∃ q, Readies planner run version queries r q ∧ (r = .ok () → q = context.packet) := by
  rcases hencode : planner.encodeBatch (choice 0) version.compiled queries
    (p.start version.compiled.staticBuffers) with ⟨r₁, data⟩
  have hcheck : checkCancel ⟨p, false⟩ = (.ok (), ⟨p, false⟩) := rfl
  have hclear : InlineM.hook (fun packet : PacketData =>
      (.ok (), packet.start version.compiled.staticBuffers)) ⟨p, false⟩ =
        (.ok (), ⟨p.start version.compiled.staticBuffers, false⟩) := rfl
  have hhook : InlineM.hook ((cpuHooks planner backend run choices scratch).batchSteps choice
      version queries).encode ⟨p.start version.compiled.staticBuffers, false⟩ =
        (r₁, ⟨data, false⟩) :=
    congrArg (fun out : HookResult Unit × PacketData => (out.1, InlineContext.mk out.2 false))
      hencode
  rw [readyPacket, run_bind_ok hcheck, run_bind_ok hclear, run_bind, hhook] at h
  cases r₁ with
  | err error =>
      obtain ⟨rfl, -⟩ := Prod.mk.inj h
      exact ⟨data, .stopped hencode (by simp), by simp⟩
  | panicked =>
      obtain ⟨rfl, -⟩ := Prod.mk.inj h
      exact ⟨data, .stopped hencode (by simp), by simp⟩
  | ok =>
      dsimp only at h
      rw [run_bind, validate_run] at h
      cases hvalid : planner.validateRuntimePacket version.compiled data with
      | error error =>
          rw [hvalid] at h
          obtain ⟨rfl, -⟩ := Prod.mk.inj h
          exact ⟨data, .encoded hencode (.invalid (n := 0) ⟨.never, .done⟩ hvalid), by simp⟩
      | ok =>
          rw [hvalid] at h
          dsimp only [HookResult.ofResult] at h
          rw [run_bind, clearOnError] at h
          rcases hstages : runInlineStages (cpuHooks planner backend run choices scratch)
            version.compiled ((cpuHooks planner backend run choices scratch).batchSteps choice
              version queries).runStage 0 version.stages ⟨data, false⟩ with ⟨r₂, context₂⟩
          have hcancel : (InlineContext.mk data false).cancel = Watch.never.isSet := rfl
          have hends := runInlineStages_end List.drop_zero hlen hcancel hstages
          rw [hstages] at h
          cases r₂ with
          | err error =>
              obtain ⟨rfl, -⟩ := Prod.mk.inj h
              exact ⟨context₂.packet, .encoded hencode hends, by simp⟩
          | panicked =>
              obtain ⟨rfl, -⟩ := Prod.mk.inj h
              exact ⟨context₂.packet, .encoded hencode hends, by simp⟩
          | ok =>
              dsimp only at h
              rw [validate_run] at h
              obtain ⟨rfl, rfl⟩ := Prod.mk.inj h
              cases hvalid₂ : planner.validateRuntimePacket version.compiled context₂.packet with
              | ok => exact ⟨context₂.packet, .encoded hencode hends, fun _ => rfl⟩
              | error error =>
                  obtain ⟨watch', hran⟩ := hends.runsTo
                  refine ⟨context₂.packet, .encoded hencode
                    (.invalid (n := version.prepared.length) ⟨watch', ?_⟩ hvalid₂), by simp⟩
                  rwa [List.take_length]

/-- **An inline execution** is the straight-line program. -/
theorem executes_inline (hlen : version.prepared.length = version.stages.length)
    (choice : ℕ → ℕ) (p : PacketData) :
    Executes planner run version queries
      ((executeInline (cpuHooks planner backend run choices scratch) choice version
        queries).result ⟨p, false⟩) := by
  rcases h : readyPacket (cpuHooks planner backend run choices scratch) version
    ((cpuHooks planner backend run choices scratch).batchSteps choice version queries)
    ⟨p, false⟩ with ⟨r, context⟩
  obtain ⟨q, hready, hq⟩ := readyPacket_readies hlen h
  refine ⟨choice (version.stages.length + 1), r, q, hready, ?_⟩
  rw [executeInline, executeWith_result, InlineM.result, h]
  cases r with
  | ok =>
      obtain rfl := hq rfl
      rfl
  | err error => rfl
  | panicked => rfl

end Inline

/-! ### The jobs of a stack -/

section Stack

variable {planner : Runtime.Hooks (cpuTypes T K)} {backend : CpuComputeBackend K}
  {run : CpuKernelRun K} {choices : CpuChoices} {scratch : ℕ → ComputeScratch}
  {first : T.State}
  {s : MachineState (Runtime.Mem (cpuTypes T K)) (Runtime.Code (cpuTypes T K)) Runtime.Task
    Runtime.RejectCode}

/-- The kernels of a version are those that its plan specifies, each made by a factory that is
registered for its kind. -/
def MadeFor (backend : CpuComputeBackend K) (version : Runtime.Version (cpuTypes T K)) : Prop :=
  List.Forall₂ (fun stage kernels => List.Forall₂ backend.Made stage.kernels kernels)
    version.stages version.prepared

/-- Every job has ended as its plan ends that is run from beginning to end, if it has ended. -/
structure RunsPlans (planner : Runtime.Hooks (cpuTypes T K)) (backend : CpuComputeBackend K)
    (run : CpuKernelRun K)
    (s : MachineState (Runtime.Mem (cpuTypes T K)) (Runtime.Code (cpuTypes T K)) Runtime.Task
      Runtime.RejectCode) : Prop where
  made : ∀ j job, s.shared.client.job j = some job → MadeFor backend job.seen
  completed : ∀ j job, s.shared.client.job j = some job →
    Runtime.statusOf job.record = .completed →
      ∃ values, job.decoded = some values ∧ Executes planner run job.seen job.queries (.ok values)
  /-- A late `collect` may be delivered an empty batch. -/
  delivered : ∀ j job, s.shared.client.job j = some job → ∀ values ∈ job.delivered,
    values ≠ [] → Executes planner run job.seen job.queries (.ok values)
  failed : ∀ j job error, s.shared.client.job j = some job →
    job.record.state = .failed (some error) → job.record.cancel = false →
      error = .executorShutdown ∨ Executes planner run job.seen job.queries (.err error) ∨
        error = taskPanicked ∧ Executes planner run job.seen job.queries .panicked
  cancelled : ∀ j job, s.shared.client.job j = some job → job.record.state = .cancelled →
    job.record.cancel = false → Executes planner run job.seen job.queries (.err .cancelled)

/-- The kernels of a version that stems from the planner state are made for it. -/
theorem madeFor_of_stems {version : Runtime.Version (cpuTypes T K)}
    (h : (cpuHooks planner backend run choices scratch).Stems first version) :
    MadeFor backend version := by
  obtain ⟨state, -, hbuilds⟩ := h
  obtain ⟨n, reuse, hprepare⟩ := hbuilds.yields
  obtain ⟨t, hrun⟩ := ScratchM.run_of_result hprepare
  exact CpuComputeBackend.forall_made hrun

/-- **Jobs run plans**, in every state that a created stack reaches: a job that is not cancelled
ends as its plan ends that encodes, runs its kernels one after another, and decodes. The state is
reached as well with any other scratch objects in the pool. -/
theorem cpu_jobs_run_plans
    (h : ReachedFrom (cpuHooks planner backend run choices scratch) first s) :
    RunsPlans planner backend run s ∧
      ∀ scratch', ReachedFrom (cpuHooks planner backend run choices scratch') first s := by
  have hmade : ∀ j job, s.shared.client.job j = some job → MadeFor backend job.seen := by
    intro j job hj
    rw [← ((inOrder h.reached).2.job j job hj).sound.snapshot]
    exact madeFor_of_stems (h.chained.jobs j job hj)
  have hexecutes : ∀ j job result, s.shared.client.job j = some job →
      Inlines (cpuHooks planner backend run choices scratch) (fun _ => True) job.seen
        job.queries result → Executes planner run job.seen job.queries result := by
    rintro j job result hj ⟨choice, p, -, rfl⟩
    exact executes_inline (hmade j job hj).length_eq.symm choice p
  have hrefines := h.refinesInline (I := fun _ => True)
    ⟨trivial, fun _ _ => trivial, fun _ _ _ _ _ _ => trivial, fun _ _ _ _ _ _ => trivial,
      fun _ _ _ _ _ _ _ _ => trivial⟩
  refine ⟨⟨hmade, fun j job hj hstatus => ?_, fun j job hj values hmem hne => ?_,
    fun j job error hj hstate hcancel => ?_, fun j job hj hstate hcancel => ?_⟩,
    fun scratch' => ?_⟩
  · obtain ⟨values, hdecoded, hinline⟩ := hrefines.completed j job hj hstatus
    exact ⟨values, hdecoded, hexecutes j job _ hj hinline⟩
  · exact hexecutes j job _ hj (hrefines.delivered j job hj values hmem hne)
  · rcases hrefines.failed j job error hj hstate hcancel with hshut | hinline | ⟨herror, hinline⟩
    · exact .inl hshut
    · exact .inr (.inl (hexecutes j job _ hj hinline))
    · exact .inr (.inr ⟨herror, hexecutes j job _ hj hinline⟩)
  · exact hexecutes j job _ hj (hrefines.cancelled j job hj hstate hcancel)
  · rw [cpuHooks_recycled planner backend run choices scratch']
    rwa [cpuHooks_recycled planner backend run choices scratch] at h

end Stack

/-! ### A stack to try it on -/

/-- A plan with three kernels in two stages. Each kernel adds the length of its payload. -/
def tallyPlan : CompiledPlan ℕ where
  pipeline := ⟨[], [⟨[⟨⟨7⟩, [0, 0], [], .serial⟩]⟩,
    ⟨[⟨⟨7⟩, [0], [], .serial⟩, ⟨⟨7⟩, [0, 0, 0], [], .serial⟩]⟩]⟩
  staticBuffers := []
  plannerMeta := 0

/-- A planner that counts queries, and decodes what there is. -/
def tallyPlanner : Runtime.Hooks (cpuTypes counter ℕ) where
  apply _ state _ := (.ok (), state)
  resetState _ _ spec := (.ok (), spec)
  updatedState _ state _ := .ok state
  compile _ _ := .ok tallyPlan
  prepare _ _ _ := .panicked
  encodeBatch _ _ queries p :=
    (.ok (), ⟨{ p.1 with queryCount := queries.length }, p.2.index, p.2.clean⟩)
  runStage _ _ _ _ p _ := (.panicked, p, false)
  decodeBatch _ _ p := .ok [p.1.queryCount]
  debugAssertions := true

/-- The factory of the kernels that add. -/
def tallyBackend : CpuComputeBackend ℕ :=
  CpuComputeBackend.new.registerFactory ⟨7⟩ ⟨fun _ spec => .of (.ok spec.payload.length)⟩

/-- The kernels that add. -/
def tallyRun : CpuKernelRun ℕ := fun _ amount watch p =>
  (.ok (), watch, ⟨{ p.1 with queryCount := p.1.queryCount + amount }, p.2.index, p.2.clean⟩)

/-- The hooks of that planner and those kernels. -/
def tallyHooks : Runtime.Hooks (cpuTypes counter ℕ) :=
  cpuHooks tallyPlanner tallyBackend tallyRun ⟨fun _ _ _ => 0, fun n => ⟨fun _ => 0, n⟩⟩
    fun _ => {}

/-- A new stack with these hooks. -/
def tallyStack : Runtime.Mem (cpuTypes counter ℕ) := .create 0 0 tallyPlan [[2], [1, 3]]

/-- The state of that stack after the actions. -/
def tallyAfter (actions : List (Action (Runtime.Code (cpuTypes counter ℕ)))) :
    MachineState (Runtime.Mem (cpuTypes counter ℕ)) (Runtime.Code (cpuTypes counter ℕ))
      Runtime.Task Runtime.RejectCode :=
  (Lts.runs (machineStep (Runtime.stackClient tallyHooks)) (fun _ _ => True)
    (.start tallyStack 1) actions).getD (.start tallyStack 1)

/-- A batch with one query is dispatched, and the worker takes the job to its end. -/
def tallyJob : List (Action (Runtime.Code (cpuTypes counter ℕ))) :=
  [.register 1 1, .spawn (.dispatch [4])] ++ List.replicate 12 (.step 1 0) ++
    List.replicate 57 (.step 0 0)

/-- Actions that can be taken reach the state after them. -/
theorem tallyAfter_reachedFrom {actions : List (Action (Runtime.Code (cpuTypes counter ℕ)))}
    (h : (Lts.runs (machineStep (Runtime.stackClient tallyHooks)) (fun _ _ => True)
      (.start tallyStack 1) actions).isSome) :
    ReachedFrom tallyHooks (0 : ℕ) (tallyAfter actions) := by
  obtain ⟨s, hs⟩ := Option.isSome_iff_exists.mp h
  rw [tallyAfter, hs]
  exact ⟨fun _ => 0, 0, tallyStack, rfl, .of_runs actions ⟨1, rfl⟩ hs⟩

/-- One query, to which three kernels have added two, one and three. -/
theorem cpu_jobs_run_plans_tally :
    ((tallyAfter tallyJob).shared.client.job 1).map (·.decoded) = some (some [7]) ∧
      RunsPlans tallyPlanner tallyBackend tallyRun (tallyAfter tallyJob) :=
  ⟨rfl, (cpu_jobs_run_plans (tallyAfter_reachedFrom rfl)).1⟩

end Braids
