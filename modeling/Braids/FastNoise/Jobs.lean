import Braids.FastNoise.Cancel
import Braids.FastNoise.Declared
import Braids.FastNoise.Faithful
import Braids.FastNoise.Hooks
import Braids.FastNoise.Preservation
import Braids.Runtime.Trace

/-!
# Jobs of FastNoise Graphs

A stack of `FastNoisePlanner` and `CpuComputeBackend`: whatever updates, cancellations and
other jobs run in between, and whatever the packets were used for before, a job is answered
with the summaries of the field of the graph that it was dispatched for.

## Main results

* `packetRule_floatSlots`: the hooks keep the kinds of all buffers.
* `succeeds_of_builds`: the hooks of a graph that runs succeed one after another.
* `jobs_answer_graphs`: what jobs return, in every state that a created stack reaches.
-/

namespace Braids

open Braids.Runtime

/-! ### The hooks of a stack -/

/-- `run_stage` of `CpuComputeBackend`. The cancel flag is set for good, so a call that returns
with the flag unset has not seen it, and another one may have seen it from some look on. -/
def runStageAt (num : Numerics) (looks : ℕ) (prepared : List (List CpuKernel)) (stageIndex : ℕ)
    (p : PacketData) (cancel : Bool) : HookResult Unit × PacketData × Bool :=
  let watch := if cancel then .after looks else .never
  let (result, p) := (runStageWatched num prepared stageIndex watch).call
    (runStageWatched_writes num prepared stageIndex watch).orderly p
  (result >>= fun _ => .ok (), p, false)

/-- The hooks of `FastNoisePlanner` and `CpuComputeBackend`, with stages that are cancelled
while they run. -/
def fastNoiseStack (build : Build) (num : Numerics) (debugAssertions : Bool) :
    Runtime.Hooks fastNoise :=
  { (fastNoiseHooks build num debugAssertions).toHooks with
    runStage := fun looks prepared stageIndex _ p cancel =>
      runStageAt num looks prepared stageIndex p cancel }

namespace PacketM

variable {α : Type} {m : PacketM α}

/-- A call of a hook that returns. -/
theorem call_of_run (h : m.Orderly) {p : PacketData} {value : α} {p' : JobPacket}
    (hrun : m.run p.1 = some (.ok value, p')) :
    ∃ q : PacketData, m.call h p = (.ok value, q) ∧ q.1 = p' := by
  have hok : (m.call h p).1 = .ok value := (call_fst_eq_ok h).mpr ⟨p', hrun⟩
  refine ⟨(m.call h p).2, Prod.ext hok rfl, ?_⟩
  exact (run_unique (run_of_call h hok) hrun).2

/-- The packet that a call leaves is one that it ran to, or the one before. -/
theorem call_leaves (h : m.Orderly) (p : PacketData) :
    (m.call h p).2 = p ∨ ∃ r, m.run p.1 = some (r, (m.call h p).2.1) := by
  rw [call]
  split
  · next hrun => exact .inr ⟨_, hrun⟩
  · next hrun => exact .inr ⟨_, hrun⟩
  · exact .inl rfl

end PacketM

/-! ### The kinds of buffers -/

/-- A call that writes floats keeps floats in their slots. -/
theorem FloatSlots.of_writes {α : Type} {m : PacketM α} (hwrites : m.Writes .f32)
    {p p' : JobPacket} {r : BraidResult α} (hp : p.Wf) (h : FloatSlots p)
    (hrun : m.run p = some (r, p')) : FloatSlots p' := by
  obtain ⟨-, -, hview⟩ := hwrites p p' r hp hrun
  intro slot data hdata hkind
  rcases hview slot with hold | ⟨values, hnew⟩
  · exact h slot data (hold ▸ hdata) hkind
  · obtain rfl := Option.some.inj (hnew.symm.trans hdata)
    exact BufferData.kind_ofList _ _

/-- So does the encoder. -/
theorem FloatSlots.of_encodeBatch {build : Build} {plan : CompiledPlan FastNoisePlannerMeta}
    {queries : List ChunkQuery} {p p' : JobPacket} {r : BraidResult Unit} (hp : p.Wf)
    (h : FloatSlots p) (hrun : (encodeBatch build plan queries).run p = some (r, p')) :
    FloatSlots p' := by
  obtain ⟨rfl, -⟩ := encodeBatch_run hp hrun
  obtain ⟨metaValues, floatValues, offsetValues, -, -, -, hloop⟩ :=
    encodeBatch_loop build plan queries hp
  split at hloop
  · next s hs =>
      obtain ⟨p₁, hrun₁, -, hstored⟩ := hloop
      obtain ⟨-, rfl⟩ := PacketM.run_unique hrun hrun₁
      intro slot data hdata hkind
      by_cases hmeta : slot = slotQueryMeta
      · simp [slotKind, hmeta] at hkind
      by_cases hoffsets : slot = slotQueryOffsets
      · simp [slotKind, hoffsets] at hkind
      by_cases hf32 : slot = slotQueryF32
      · subst hf32
        obtain rfl := Option.some.inj (hstored.floats.symm.trans hdata)
        rfl
      · exact h slot data (hstored.others slot hmeta hf32 hoffsets ▸ hdata) hkind
  · obtain ⟨p₁, hrun₁, -⟩ := hloop
    simp [hrun₁] at hrun
  · simp [hloop] at hrun

/-- Clearing a packet keeps the kinds of its buffers. -/
theorem FloatSlots.clearForReuse {p : PacketData} (h : FloatSlots p.1) :
    FloatSlots p.clearForReuse.1 := by
  obtain ⟨-, -, hview⟩ := JobPacket.clearForReuse_spec p.2
  intro slot data hdata hkind
  obtain ⟨old, hold, rfl⟩ := Option.map_eq_some_iff.mp ((hview slot).symm.trans hdata)
  rw [BufferData.kind_clear]
  exact h slot old hold hkind

section Stack

variable {build : Build} {num : Numerics} {debugAssertions : Bool}

/-- What a graph compiles to has no static buffers. -/
theorem Compilation.staticBuffers_eq {state : FastNoiseState}
    {plan : CompiledPlan FastNoisePlannerMeta} (c : Compilation build state plan) :
    plan.staticBuffers = [] :=
  congrArg (·.staticBuffers) c.plan_eq

/-- **The hooks keep the kinds of all buffers**, whatever graphs a packet is used for. -/
theorem packetRule_floatSlots (first : FastNoiseState) :
    PacketRule (fastNoiseStack build num debugAssertions)
      ((fastNoiseStack build num debugAssertions).Stems first) fun p => FloatSlots p.1 where
  fresh := by simp [FloatSlots, PacketData.fresh]
  clear p hp := hp.clearForReuse
  load := by
    rintro version ⟨state, -, ⟨_, hcompile⟩, -, -⟩ buffer hbuffer p hp
    obtain ⟨c⟩ := compileGraph_eq_ok.mp hcompile
    simp [c.staticBuffers_eq] at hbuffer
  encode version _ n queries p hp := by
    rcases PacketM.call_leaves (orderly_encodeBatch build version.compiled queries) p with
      hsame | ⟨r, hrun⟩
    · exact congrArg (FloatSlots ·.1) hsame ▸ hp
    · exact hp.of_encodeBatch p.2 hrun
  runStage version _ looks i stage p cancel hp := by
    have hwrites := runStageWatched_writes num version.prepared i
      (if cancel then .after looks else .never)
    rcases PacketM.call_leaves hwrites.orderly p with hsame | ⟨r, hrun⟩
    · exact congrArg (FloatSlots ·.1) hsame ▸ hp
    · exact hp.of_writes hwrites p.2 hrun

/-! ### The hooks of a graph that runs -/

/-- A stage that nobody cancels does what `run_stage` does. -/
theorem runStageAt_of_run {prepared : List (List CpuKernel)} {i : ℕ} {p : PacketData}
    {p' : JobPacket} (hrun : (runStage num prepared i).run p.1 = some (.ok (), p')) (looks : ℕ) :
    ∃ q : PacketData, runStageAt num looks prepared i p false = (.ok (), q, false) ∧ q.1 = p' := by
  have hwatched : (runStageWatched num prepared i .never).run p.1 = some (.ok .never, p') := by
    rcases cut_runStage num prepared i .never p.1 with ⟨left, hcut, hleft⟩ | ⟨q, -, hne⟩
    · rw [hcut, hrun, hleft rfl]
      rfl
    · exact absurd rfl hne
  obtain ⟨q, hcall, hq⟩ :=
    PacketM.call_of_run (runStageWatched_writes num prepared i .never).orderly hwatched
  refine ⟨q, ?_, hq⟩
  rw [runStageAt]
  simp only [Bool.false_eq_true, if_false, hcall, HookResult.ok_bind]

/-- Stages that all return return one after another. -/
theorem runStageList_append {prepared : List (List CpuKernel)} {front rest : List ℕ}
    {p p' : JobPacket}
    (h : (runStageList num prepared (front ++ rest)).run p = some (.ok (), p')) :
    ∃ q, (runStageList num prepared front).run p = some (.ok (), q) ∧
      (runStageList num prepared rest).run q = some (.ok (), p') := by
  induction front generalizing p with
  | nil => exact ⟨p, rfl, h⟩
  | cons i front ih =>
      rw [List.cons_append, runStageList, PacketM.run_bind_eq_ok] at h
      obtain ⟨_, p₁, hrun, hrest⟩ := h
      obtain ⟨q, hfront, hq⟩ := ih hrest
      refine ⟨q, ?_, hq⟩
      rw [runStageList, PacketM.run_bind_eq_ok]
      exact ⟨_, p₁, hrun, hfront⟩

/-- The summaries of the samples of a batch. -/
def Answers (num : Numerics) (state : FastNoiseState) (queries : List ChunkQuery)
    (values : List ChunkSummary) : Prop :=
  ∃ fuel sampleLists, state.Samples num fuel queries sampleLists ∧
    values = sampleLists.map (summarizeSamples num)

/-- The packet of a batch after its first `i` stages. -/
structure Staged (num : Numerics) (plan : CompiledPlan FastNoisePlannerMeta)
    (prepared : List (List CpuKernel)) (queries : List ChunkQuery) (i : ℕ) (p : JobPacket) :
    Prop where
  declared : Declared plan.pipeline.buffers p
  runs : ∃ p₀, Encoded queries p₀ ∧
    (runStageList num prepared (List.range i)).run p₀ = some (.ok (), p)

namespace Compilation

variable {state : FastNoiseState} {plan : CompiledPlan FastNoisePlannerMeta}
  (c : Compilation build state plan) {queries : List ChunkQuery}

/-- **The next stage** of a batch returns. -/
theorem staged_succ (hfits : c.Fits) (hgood : state.Runnable)
    (hbatch : BatchFits build state.dimension queries) {i : ℕ}
    (hi : i < plan.pipeline.stages.length) {p : JobPacket}
    (h : Staged num plan ((.gridInit state.dimension :: c.kernels).map ([·])) queries i p) :
    ∃ p', (runStage num ((.gridInit state.dimension :: c.kernels).map ([·])) i).run p =
        some (.ok (), p') ∧
      Staged num plan ((.gridInit state.dimension :: c.kernels).map ([·])) queries (i + 1) p' := by
  obtain ⟨hdeclared, p₀, hencoded, hbefore⟩ := h
  obtain ⟨last, -, hall, -⟩ :=
    c.run_samples num hfits hbatch.dimension hbatch.total hencoded hgood
  obtain ⟨rest, hrest⟩ : ∃ rest, List.range plan.pipeline.stages.length =
      List.range (i + 1) ++ rest :=
    ⟨_, by rw [← List.range_add, Nat.add_sub_of_le hi]⟩
  rw [runAllStages, hrest] at hall
  obtain ⟨p', hnext, -⟩ := runStageList_append hall
  have hsplit := hnext
  rw [List.range_succ] at hsplit
  obtain ⟨q, hfront, hstage⟩ := runStageList_append hsplit
  obtain ⟨-, rfl⟩ := PacketM.run_unique hbefore hfront
  have hrun : (runStage num ((.gridInit state.dimension :: c.kernels).map ([·])) i).run p =
      some (.ok (), p') := by
    rwa [runStageList, runStageList, PacketM.run_bind_unit] at hstage
  exact ⟨p', hrun, c.declared_stage hfits hgood hdeclared hrun, p₀, hencoded, hnext⟩

end Compilation

/-- **The hooks of a graph that runs succeed** one after another, and the batch is answered. -/
theorem succeeds_of_builds {state : FastNoiseState} {version : Runtime.Version fastNoise}
    {queries : List ChunkQuery}
    (hbuilds : (fastNoiseStack build num debugAssertions).Builds state version)
    (hinputs : state.InputsFit) (hgood : state.Runnable)
    (hbatch : BatchFits build state.dimension queries) :
    ∃ values, Answers num state queries values ∧
      (∀ choice, Succeeds (fastNoiseStack build num debugAssertions) version
        ((fastNoiseStack build num debugAssertions).batchSteps choice version queries)
        (fun i p => Staged num version.compiled version.prepared queries i p.1) values) ∧
      ∀ n (p : PacketData), FloatSlots p.1 → ∃ data,
        (fastNoiseStack build num debugAssertions).encodeBatch n version.compiled queries
          (p.start version.compiled.staticBuffers) = (.ok (), data) ∧
        Staged num version.compiled version.prepared queries 0 data.1 := by
  obtain ⟨⟨_, hcompile⟩, hvalid, _, _, hprepare⟩ := hbuilds
  obtain ⟨c⟩ := compileGraph_eq_ok.mp hcompile
  have hfits := c.fits_of_validate hvalid
  have hprepared := HookResult.ok.inj (hprepare.symm.trans (c.prepare_eq hinputs))
  have hbatch' : BatchFits build version.compiled.plannerMeta.dimension queries := by
    rwa [c.plannerMeta_eq]
  obtain ⟨p₀, -, hencoded, -⟩ := encodeBatch_spec hbatch' JobPacket.wf_default
  obtain ⟨-, sampleLists, -, hsamples, -⟩ :=
    c.run_samples num hfits hbatch.dimension hbatch.total hencoded hgood
  refine ⟨_, ⟨_, sampleLists, hsamples, rfl⟩, fun choice => ⟨fun i stage data hstage h => ?_,
    fun i data h => ?_, fun data h => ?_⟩, fun n p hp => ?_⟩
  · -- a stage
    have hi : i < version.compiled.pipeline.stages.length :=
      (List.getElem?_eq_some_iff.mp hstage).1
    rw [hprepared] at h
    obtain ⟨p', hrun, hnext⟩ := c.staged_succ hfits hgood hbatch hi h
    rw [← hprepared] at hrun hnext
    obtain ⟨q, hq, rfl⟩ := runStageAt_of_run hrun (choice (i + 1))
    exact ⟨q, hq, hnext⟩
  · -- the validation
    rw [Hooks.validateRuntimePacket]
    split
    · exact h.declared.valid (c.sorted hfits)
    · rfl
  · -- the decoder
    rw [hprepared] at h
    obtain ⟨-, p₁, hencoded₁, hrun⟩ := h
    obtain ⟨p₂, sampleLists', hall, hsamples', hdecode⟩ :=
      c.run_samples num hfits hbatch.dimension hbatch.total hencoded₁ hgood
    obtain ⟨-, rfl⟩ := PacketM.run_unique hrun hall
    obtain rfl := hsamples.unique hsamples'
    exact (PacketM.call_fst_eq_ok _).mpr ⟨_, hdecode⟩
  · -- the encoder
    rw [c.staticBuffers_eq]
    obtain ⟨p₁, hrun, hencoded₁, -⟩ := encodeBatch_spec hbatch' (p.start []).2
    obtain ⟨q, hcall, rfl⟩ := PacketM.call_of_run (orderly_encodeBatch build _ queries) hrun
    refine ⟨q, hcall, c.declared_encode hbatch' (p.start []).2 ?_ hp.clearForReuse hrun, q.1,
      hencoded₁, rfl⟩
    exact (PacketData.cleared_clearForReuse p).2

/-! ### Over whole runs -/

/-- A stack of FastNoise graphs and the threads that use it. -/
abbrev FastNoiseMachine :=
  MachineState (Mem fastNoise) (Runtime.Code fastNoise) Runtime.Task Runtime.RejectCode

/-- What a job returns that was dispatched for a graph. -/
structure AnswersGraph (num : Numerics) (state : FastNoiseState) (job : Runtime.Job fastNoise) :
    Prop where
  completed : statusOf job.record = .completed →
    ∃ values, job.decoded = some values ∧ Answers num state job.queries values
  /-- A late `collect` may be delivered an empty batch. -/
  delivered : ∀ values ∈ job.delivered, values ≠ [] → Answers num state job.queries values
  failed : ∀ error, job.record.state = .failed (some error) → job.record.cancel = false →
    error = .executorShutdown
  cancelled : job.record.state = .cancelled → job.record.cancel = true

/-- **A job is answered** if all that an inline execution may return is the answer. -/
theorem AnswersGraph.of_refines {H : Runtime.Hooks fastNoise} {I : PacketData → Prop}
    {s : FastNoiseMachine} (hrefines : RefinesInline H I s) {j : ℕ} {job : Runtime.Job fastNoise}
    (hj : s.shared.client.job j = some job) {state : FastNoiseState} {values : List ChunkSummary}
    (hanswers : Answers num state job.queries values)
    (hinlines : ∀ result, Inlines H I job.seen job.queries result → result = .ok values) :
    AnswersGraph num state job := by
  refine ⟨fun hstatus => ?_, fun delivered hmem hne => ?_, fun error hs hcancel => ?_, fun hs => ?_⟩
  · obtain ⟨decoded, hdecoded, hinl⟩ := hrefines.completed j job hj hstatus
    obtain rfl := HookResult.ok.inj (hinlines _ hinl)
    exact ⟨_, hdecoded, hanswers⟩
  · obtain rfl := HookResult.ok.inj (hinlines _ (hrefines.delivered j job hj _ hmem hne))
    exact hanswers
  · rcases hrefines.failed j job error hj hs hcancel with hshut | hinl | ⟨-, hinl⟩
    · exact hshut
    · simpa using hinlines _ hinl
    · simpa using hinlines _ hinl
  · by_contra hcancel
    have hinl := hrefines.cancelled j job hj hs (by simpa using hcancel)
    simpa using hinlines _ hinl

/-- **A job is answered** with the samples of any graph that its version is built from. -/
theorem answersGraph_of_builds {first : FastNoiseState} {s : FastNoiseMachine}
    (h : ReachedFrom (fastNoiseStack build num debugAssertions) first s) {j : ℕ}
    {job : Runtime.Job fastNoise} (hj : s.shared.client.job j = some job) {state : FastNoiseState}
    (hbuilds : (fastNoiseStack build num debugAssertions).Builds state job.seen)
    (hinputs : state.InputsFit) (hgood : state.Runnable)
    (hbatch : BatchFits build state.dimension job.queries) : AnswersGraph num state job := by
  obtain ⟨values, hanswers, hsucceeds, hencode⟩ :=
    succeeds_of_builds hbuilds hinputs hgood hbatch
  exact .of_refines (h.refinesInline (packetRule_floatSlots first)) hj hanswers fun _ =>
    Inlines.eq_ok hsucceeds hencode

/-- **A job of a stack** was dispatched for a version of a graph that edits of the first one
lead to. -/
theorem builds_of_reached {first : FastNoiseState} {s : FastNoiseMachine}
    (h : ReachedFrom (fastNoiseStack build num debugAssertions) first s) {j : ℕ}
    {job : Runtime.Job fastNoise} (hj : s.shared.client.job j = some job) : ∃ state,
      Relation.ReflTransGen (fastNoiseStack build num debugAssertions).Edits first state ∧
      (fastNoiseStack build num debugAssertions).Builds state job.seen := by
  obtain ⟨state, hchain, hbuilds⟩ := h.chained.jobs j job hj
  rw [((inOrder h.reached).2.job j job hj).sound.snapshot] at hbuilds
  exact ⟨state, hchain, hbuilds⟩

/-- **A job of a stack** is answered with the samples of the graph that it was dispatched for. -/
theorem answersGraph_of_reached {first : FastNoiseState} {s : FastNoiseMachine}
    (h : ReachedFrom (fastNoiseStack build num debugAssertions) first s) {j : ℕ}
    {job : Runtime.Job fastNoise} (hj : s.shared.client.job j = some job) : ∃ state,
      Relation.ReflTransGen (fastNoiseStack build num debugAssertions).Edits first state ∧
      (fastNoiseStack build num debugAssertions).Builds state job.seen ∧
      (state.InputsFit → state.Runnable → BatchFits build state.dimension job.queries →
        AnswersGraph num state job) := by
  obtain ⟨state, hchain, hbuilds⟩ := builds_of_reached h hj
  exact ⟨state, hchain, hbuilds, answersGraph_of_builds h hj hbuilds⟩

/-- Every job was dispatched for a version of a graph that edits of the first one lead to. If
this graph runs and the batch fits, the job is answered with the samples of the graph, unless
it is cancelled or the executor shuts down. -/
def JobsAnswerGraphs (build : Build) (num : Numerics) (debugAssertions : Bool)
    (first : FastNoiseState) (s : FastNoiseMachine) : Prop :=
  ∀ j job, s.shared.client.job j = some job → ∃ state,
    Relation.ReflTransGen (fastNoiseStack build num debugAssertions).Edits first state ∧
    (fastNoiseStack build num debugAssertions).Builds state job.seen ∧
    (state.InputsFit → state.Runnable → BatchFits build state.dimension job.queries →
      AnswersGraph num state job)

/-- **Jobs answer graphs**, in every state that a created stack reaches. -/
theorem jobs_answer_graphs {first : FastNoiseState} {s : FastNoiseMachine}
    (h : ReachedFrom (fastNoiseStack build num debugAssertions) first s) :
    JobsAnswerGraphs build num debugAssertions first s :=
  fun _ _ => answersGraph_of_reached h

end Stack

/-- A new stack for a sample in three dimensions. -/
def caveStack : Mem fastNoise := .create 0 cave (accepted cave).1 (accepted cave).2

/-- The state of that stack after the actions. -/
def caveAfter (actions : List (Action (Runtime.Code fastNoise))) : FastNoiseMachine :=
  (Lts.runs (machineStep (Runtime.stackClient (fastNoiseStack ⟨true⟩ Numerics.silent true)))
    (fun _ _ => True) (.start caveStack 1) actions).getD (.start caveStack 1)

/-- A batch with one sample is dispatched, and the worker takes the job to its end. -/
def caveJob : List (Action (Runtime.Code fastNoise)) :=
  [.register 1 1, .spawn (.dispatch [.oneSample .d3])] ++ List.replicate 12 (.step 1 0) ++
    List.replicate 57 (.step 0 0)

/-- Actions that can be taken reach the state after them. -/
theorem caveAfter_reachedFrom {actions : List (Action (Runtime.Code fastNoise))}
    (h : (Lts.runs (machineStep (Runtime.stackClient (fastNoiseStack ⟨true⟩ Numerics.silent true)))
      (fun _ _ => True) (.start caveStack 1) actions).isSome) :
    ReachedFrom (fastNoiseStack ⟨true⟩ Numerics.silent true) cave (caveAfter actions) := by
  obtain ⟨s, hs⟩ := Option.isSome_iff_exists.mp h
  rw [caveAfter, hs]
  exact ⟨fun _ => 0, 0, caveStack, rfl, .of_runs actions ⟨1, rfl⟩ hs⟩

/-- Samples that read the base positions run. -/
theorem samples_run {state : FastNoiseState} (hdim : state.dimension = .d3)
    (h : ∀ node ∈ state.nodes.values, ∃ id, node = .sample3D ⟨id, .base, perlin⟩) :
    state.InputsFit ∧ state.Runnable := by
  constructor <;> rintro node ⟨hmem, -⟩ <;> obtain ⟨id, rfl⟩ := h node hmem
  · trivial
  · exact ⟨fun _ => hdim, trivial⟩

/-- The sample runs. -/
theorem cave_runs : cave.InputsFit ∧ cave.Runnable :=
  samples_run rfl (by simp [cave, SlotTable.values])

/-- A batch with one sample fits. -/
theorem oneSample_fits : BatchFits ⟨true⟩ .d3 [ChunkQuery.oneSample .d3] := by
  refine batchFits_of_areaFits ?_ ?_ ?_
  · simp [ChunkQuery.oneSample]
    rfl
  · decide
  · simp [ChunkQuery.oneSample, ChunkQuery.AreaFits]
    decide

/-- The sample is a graph that runs, and its job is answered. -/
theorem jobs_answer_graphs_cave :
    ((caveAfter caveJob).shared.client.job 1).map (statusOf ·.record) = some .completed ∧
      cave.InputsFit ∧ cave.Runnable ∧
      JobsAnswerGraphs ⟨true⟩ Numerics.silent true cave (caveAfter caveJob) :=
  ⟨rfl, cave_runs.1, cave_runs.2, jobs_answer_graphs (caveAfter_reachedFrom rfl)⟩

end Braids
