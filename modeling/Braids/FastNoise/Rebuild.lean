import Braids.FastNoise.Accepts
import Braids.FastNoise.Jobs
import Braids.FastNoise.Replay

/-!
# Updates and Rebuilds

A stack that is updated in place keeps a slot table with a history: slots are reused, keys are
outdated, and the nodes are listed in the order of their slots. None of it shows. Graphs with the
same nodes are accepted alike and have the same field, so a job on a graph that updates made
returns what it would return on one that is built from any listing of its nodes.

## Main results

* `SameGraph`: graphs with the same nodes, and what they have in common.
* `InStep.sameGraph`: states that stand for the same map are such graphs.
* `jobs_answer_rebuilt`: what jobs return, in every state that a created stack reaches.
-/

namespace Braids

open Braids.Runtime

namespace FastNoiseState

variable {num : Numerics} {build : Build} {state state' : FastNoiseState}

/-! ### Graphs with the same nodes -/

/-- The graphs have the same nodes, maybe in another order. -/
structure SameGraph (state state' : FastNoiseState) : Prop where
  dimension : state.dimension = state'.dimension
  finalField : state.finalField = state'.finalField
  node? : ∀ id, state.node? id = state'.node? id
  values : state.nodes.values.Perm state'.nodes.values

namespace SameGraph

variable (h : SameGraph state state')
include h

theorem symm : SameGraph state' state :=
  ⟨h.dimension.symm, h.finalField.symm, fun id => (h.node? id).symm, h.values.symm⟩

/-- References stand for the same nodes. -/
theorem lookup : state.lookup = state'.lookup := by
  funext ref
  rw [FastNoiseState.lookup, FastNoiseState.lookup, h.node?, h.dimension]

/-- The nodes refer to each other alike. -/
theorem dependsOn : state.DependsOn = state'.DependsOn := by
  funext id id'
  rw [DependsOn, DependsOn, h.node?]

/-- A reference that resolves. -/
theorem resolves {ref : String × Need} (hres : state.Resolves ref) : state'.Resolves ref :=
  ⟨h.lookup ▸ hres.found, h.dependsOn ▸ hres.acyclic⟩

/-- The same nodes are scheduled. -/
theorem scheduled : state.Scheduled = state'.Scheduled := by
  funext node
  rw [Scheduled, Scheduled, h.dependsOn, h.values.mem_iff]

/-- The scheduled nodes need as many slots. -/
theorem scheduledSlots : state.scheduledSlots = state'.scheduledSlots := by
  rw [FastNoiseState.scheduledSlots, FastNoiseState.scheduledSlots, h.scheduled, h.dimension]
  exact (h.values.map _).sum_eq

/-- **The same graphs are accepted.** -/
theorem accepted (haccepted : state.Accepted build) : state'.Accepted build where
  named node hnode ref href := by
    rw [← h.node?]
    exact haccepted.named node (h.values.mem_iff.mpr hnode) ref href
  kinds node hnode ref href := by
    rw [← h.scheduled] at hnode
    rw [← h.lookup]
    exact haccepted.kinds node hnode ref href
  final := h.finalField ▸ h.resolves haccepted.final
  slots := h.scheduledSlots ▸ haccepted.slots
  counter := h.scheduledSlots ▸ haccepted.counter

theorem inputsFit (hinputs : state.InputsFit) : state'.InputsFit := by
  intro node hnode
  rw [← h.scheduled] at hnode
  exact hinputs node hnode

theorem runnable (hgood : state.Runnable) : state'.Runnable := by
  intro node hnode
  rw [← h.scheduled] at hnode
  rw [← h.dimension]
  exact hgood node hnode

/-- **The same field.** -/
theorem field (fuel : ℕ) (point : List F32) :
    state.field num fuel point = state'.field num fuel point := by
  rw [FastNoiseState.field, FastNoiseState.field, graph, graph, h.lookup, h.finalField]

/-- The same answers. -/
theorem answers {queries : List ChunkQuery} {values : List ChunkSummary}
    (hanswers : Answers num state queries values) : Answers num state' queries values := by
  obtain ⟨fuel, sampleLists, hsamples, hvalues⟩ := hanswers
  refine ⟨fuel, sampleLists, hsamples.imp fun query samples hquery => ?_, hvalues⟩
  exact hquery.imp fun point sample hsample => (h.field fuel point).symm.trans hsample

end SameGraph

/-- The nodes of a graph are those that its ids name. -/
theorem InStep.mem_values_iff (h : state.InStep) (hfit : state.Fits) {node : NodeSpec} :
    node ∈ state.nodes.values ↔ state.get node.id = some node := by
  rw [mem_values, h.get_eq_some hfit]
  exact (and_iff_right rfl).symm

/-- **States that stand for the same map** have the same nodes. -/
theorem InStep.sameGraph (h : state.InStep) (hfit : state.Fits) (h' : state'.InStep)
    (hfit' : state'.Fits) (hmap : state.toMap = state'.toMap) : SameGraph state state' := by
  have hget : state.get = state'.get := congrArg GraphMap.nodes hmap
  refine ⟨congrArg GraphMap.dimension hmap, congrArg GraphMap.finalField hmap, fun id => ?_, ?_⟩
  · rw [h.node?_eq_get hfit, h'.node?_eq_get hfit', hget]
  · rw [List.perm_ext_iff_of_nodup (.of_map _ (h.nodup_ids hfit)) (.of_map _ (h'.nodup_ids hfit'))]
    intro node
    rw [h.mem_values_iff hfit, h'.mem_values_iff hfit', hget]

/-! ### Edits replay -/

/-- Changes are operations. -/
theorem apply_eq_replay (state : FastNoiseState) (changes : List FastNoiseChange) :
    state.apply changes = state.replay (changes.map .change) := by
  induction changes generalizing state with
  | nil => rfl
  | cons change changes ih =>
      rw [apply, List.map_cons, replay]
      exact congrArg _ (funext ih)

/-- Operations after others. -/
theorem replay_append {ops ops' : List StateOp} {state₁ : FastNoiseState}
    (h : state.replay ops = .ok state₁) : state.replay (ops ++ ops') = state₁.replay ops' := by
  induction ops generalizing state with
  | nil =>
      obtain rfl := HookResult.ok.inj h
      rfl
  | cons op ops ih =>
      obtain ⟨state₂, hstep, hrest⟩ := HookResult.bind_eq_ok.mp h
      rw [List.cons_append, replay, hstep, HookResult.ok_bind, ih hrest]

variable {debugAssertions : Bool}

/-- **What a call can do to the planner state** are operations. -/
theorem edits_replay (hwf : state.nodes.Wf)
    (h : (fastNoiseStack build num debugAssertions).Edits state state') :
    ∃ ops, state.replay ops = .ok state' := by
  rcases h with ⟨n, changes⟩ | ⟨n, spec⟩ | hupdate
  · obtain ⟨next, hnext, -⟩ := apply_ok hwf changes
    refine ⟨changes.map .change, ?_⟩
    rw [← apply_eq_replay, hnext]
    change _ = HookResult.ok (inPlace state (state.apply changes)).2
    rw [hnext, inPlace]
  · obtain ⟨next, hnext, -⟩ := state.resetFromSpec_spec spec
    refine ⟨[.reset spec], ?_⟩
    rw [replay, step, hnext, HookResult.ok_bind]
    change _ = HookResult.ok (inPlace state (state.resetFromSpec spec)).2
    rw [hnext, inPlace]
    rfl
  · exact ⟨_, (apply_eq_replay state _).symm.trans hupdate⟩

/-- A chain of edits is a replay. -/
theorem chain_replay (hwf : state.nodes.Wf)
    (h : Relation.ReflTransGen (fastNoiseStack build num debugAssertions).Edits state state') :
    state'.nodes.Wf ∧ ∃ ops, state.replay ops = .ok state' := by
  induction h with
  | refl => exact ⟨hwf, [], rfl⟩
  | tail _ hedit ih =>
      obtain ⟨hwf₁, ops₁, hops₁⟩ := ih
      obtain ⟨ops, hops⟩ := edits_replay hwf₁ hedit
      obtain ⟨state₂, hok, hwf₂, -⟩ := replay_spec ops hwf₁
      obtain rfl := HookResult.ok.inj (hok.symm.trans hops)
      exact ⟨hwf₂, ops₁ ++ ops, (replay_append hops₁).trans hops⟩

/-- **A new state** is in step and stands for the nodes of its specification. -/
theorem fromSpec_inStep {spec : FastNoiseGraphSpec} (h : fromSpec spec = .ok state) :
    state.nodes.Wf ∧ (state.Fits → state.InStep ∧ state.toMap = .ofSpec spec) := by
  obtain ⟨state₁, hok, hwf, -, hspec⟩ := resetFromSpec_spec
    ⟨spec.dimension, spec.finalField, {}, fun _ => none⟩ spec
  obtain rfl := HookResult.ok.inj (hok.symm.trans h)
  exact ⟨hwf, hspec⟩

/-- **A state that edits lead to** is in step. -/
theorem chain_inStep {spec : FastNoiseGraphSpec} {first : FastNoiseState}
    (hfirst : fromSpec spec = .ok first)
    (h : Relation.ReflTransGen (fastNoiseStack build num debugAssertions).Edits first state)
    (hfit : state.Fits) : state.InStep := by
  obtain ⟨hwf, hspec⟩ := fromSpec_inStep hfirst
  obtain ⟨-, ops, hops⟩ := chain_replay hwf h
  obtain ⟨state₁, hok, -, hlen, hreplay⟩ := replay_spec ops hwf
  obtain rfl := HookResult.ok.inj (hok.symm.trans hops)
  exact (hreplay (hspec (Nat.le_trans hlen hfit)).1 hfit).1

end FastNoiseState

/-! ### Answers -/

section Stack

variable {build : Build} {num : Numerics} {debugAssertions : Bool} {state : FastNoiseState}

/-- **The answers of a graph** are unique. -/
theorem Answers.unique {queries : List ChunkQuery} {values values' : List ChunkSummary}
    (h : Answers num state queries values) (h' : Answers num state queries values') :
    values = values' := by
  have hmono : ∀ {fuel fuel' : ℕ} {sampleLists : List (List F32)}, fuel ≤ fuel' →
      state.Samples num fuel queries sampleLists → state.Samples num fuel' queries sampleLists := by
    intro fuel fuel' sampleLists hle hsamples
    refine hsamples.imp fun query samples hquery => hquery.imp fun point sample hsample => ?_
    obtain ⟨v, hv, hhead⟩ := Option.bind_eq_some_iff.mp hsample
    obtain ⟨node, hnode, heval⟩ := Option.bind_eq_some_iff.mp hv
    rw [FastNoiseState.field, hnode, Option.bind_some, Dataflow.Graph.eval_mono hle heval,
      Option.bind_some, hhead]
  obtain ⟨fuel, sampleLists, hsamples, rfl⟩ := h
  obtain ⟨fuel', sampleLists', hsamples', rfl⟩ := h'
  rw [FastNoiseState.Samples.unique (hmono (Nat.le_max_left fuel fuel') hsamples)
    (hmono (Nat.le_max_right fuel fuel') hsamples')]

/-- A graph that a version is built from is accepted. -/
theorem accepted_of_builds {version : Runtime.Version fastNoise}
    (h : (fastNoiseStack build num debugAssertions).Builds state version) :
    state.Accepted build := by
  obtain ⟨⟨_, hcompile⟩, hvalid, _⟩ := h
  obtain ⟨c⟩ := compileGraph_eq_ok.mp hcompile
  exact c.accepted hvalid

/-- **A version is built** from an accepted graph whose inputs fit. -/
theorem builds_of_accepted (h : state.Accepted build) (hinputs : state.InputsFit) :
    ∃ version, (fastNoiseStack build num debugAssertions).Builds state version := by
  obtain ⟨plan, hcompile, hvalid⟩ := h.compiles
  obtain ⟨c⟩ := compileGraph_eq_ok.mp hcompile
  exact ⟨⟨1, plan, _⟩, ⟨0, hcompile⟩, hvalid, 0, none, c.prepare_eq hinputs⟩

/-- The job returns what `execute_inline` returns with the version, on any packet that the
hooks may have left. -/
structure AnswersAs (build : Build) (num : Numerics) (debugAssertions : Bool)
    (version : Runtime.Version fastNoise) (job : Runtime.Job fastNoise) : Prop where
  completed : statusOf job.record = .completed → ∃ values, job.decoded = some values ∧
    ∀ choice (p : PacketData), FloatSlots p.1 →
      (executeInline (fastNoiseStack build num debugAssertions) choice version
        job.queries).result ⟨p, false⟩ = .ok values
  delivered : ∀ values ∈ job.delivered, values ≠ [] →
    ∀ choice (p : PacketData), FloatSlots p.1 →
      (executeInline (fastNoiseStack build num debugAssertions) choice version
        job.queries).result ⟨p, false⟩ = .ok values

/-- Jobs return what they would return on a stack that is built anew. -/
structure JobsAnswerRebuilt (build : Build) (num : Numerics) (debugAssertions : Bool)
    (first : FastNoiseState) (s : FastNoiseMachine) : Prop where
  /-- Every job was dispatched for a graph that edits of the first one lead to. -/
  dispatched : ∀ j job, s.shared.client.job j = some job → ∃ state,
    Relation.ReflTransGen (fastNoiseStack build num debugAssertions).Edits first state ∧
      (fastNoiseStack build num debugAssertions).Builds state job.seen
  /-- A stack for any specification with the nodes of such a graph is created, too, and if the
  graph runs and the batch fits, the job returns what this stack returns. -/
  rebuilt : ∀ j job, s.shared.client.job j = some job → ∀ state,
    Relation.ReflTransGen (fastNoiseStack build num debugAssertions).Edits first state →
    (fastNoiseStack build num debugAssertions).Builds state job.seen →
    ∀ spec rebuilt, FastNoiseState.fromSpec spec = .ok rebuilt →
      GraphMap.ofSpec spec = state.toMap → state.Fits → rebuilt.Fits → rebuilt.InputsFit →
        (∃ version, (fastNoiseStack build num debugAssertions).Builds rebuilt version) ∧
        ∀ version, (fastNoiseStack build num debugAssertions).Builds rebuilt version →
          rebuilt.Runnable → BatchFits build rebuilt.dimension job.queries →
            AnswersAs build num debugAssertions version job

/-- **Jobs answer as on a rebuilt stack**, whatever updates came before. -/
theorem jobs_answer_rebuilt {spec : FastNoiseGraphSpec} {first : FastNoiseState}
    {s : FastNoiseMachine} (hfirst : FastNoiseState.fromSpec spec = .ok first)
    (h : ReachedFrom (fastNoiseStack build num debugAssertions) first s) :
    JobsAnswerRebuilt build num debugAssertions first s := by
  refine ⟨fun j job hj => builds_of_reached h hj, fun j job hj state hchain hbuilds spec' rebuilt
    hrebuilt hmap hfit hfit' hinputs => ?_⟩
  obtain ⟨-, hspec⟩ := FastNoiseState.fromSpec_inStep hrebuilt
  obtain ⟨hinstep', hmap'⟩ := hspec hfit'
  have hsame : FastNoiseState.SameGraph state rebuilt :=
    (FastNoiseState.chain_inStep hfirst hchain hfit).sameGraph hfit hinstep' hfit'
      (hmap.symm.trans hmap'.symm)
  refine ⟨builds_of_accepted (hsame.accepted (accepted_of_builds hbuilds)) hinputs,
    fun version hversion hgood hbatch => ?_⟩
  obtain ⟨values, hanswers, hsucceeds, hencode⟩ :=
    succeeds_of_builds hversion hinputs hgood hbatch
  have hexecute : ∀ choice (p : PacketData), FloatSlots p.1 →
      (executeInline (fastNoiseStack build num debugAssertions) choice version
        job.queries).result ⟨p, false⟩ = .ok values := by
    intro choice p hp
    obtain ⟨data, hfirst, hdata⟩ := hencode (choice 0) p hp
    exact (hsucceeds choice).execute hfirst hdata
  have hgraph := answersGraph_of_builds h hj hbuilds (hsame.symm.inputsFit hinputs)
    (hsame.symm.runnable hgood) (hsame.dimension ▸ hbatch)
  constructor
  · intro hstatus
    obtain ⟨values', hdecoded, hanswers'⟩ := hgraph.completed hstatus
    obtain rfl := (hsame.answers hanswers').unique hanswers
    exact ⟨_, hdecoded, hexecute⟩
  · intro values' hmem hne
    obtain rfl := (hsame.answers (hgraph.delivered values' hmem hne)).unique hanswers
    exact hexecute

end Stack

/-- Another sample is added to the graph of the sample in three dimensions, and then a batch
is dispatched and taken to its end. -/
def caveUpdated : List (Action (Runtime.Code fastNoise)) :=
  [.register 1 1,
    .spawn (.planner (.update [.upsertNode (.sample3D ⟨"vein", .base, perlin⟩)]))] ++
    List.replicate 23 (.step 1 0) ++ [.spawn (.dispatch [.oneSample .d3])] ++
    List.replicate 12 (.step 2 0) ++ List.replicate 80 (.step 0 0)

/-- The sample in three dimensions, and another one that the final field does not depend on. -/
def caveVein : FastNoiseState where
  dimension := .d3
  finalField := "cave"
  nodes := {
    slots := [⟨0, some (.sample3D ⟨"cave", .base, perlin⟩)⟩,
      ⟨0, some (.sample3D ⟨"vein", .base, perlin⟩)⟩]
    len := 2 }
  nodeKeys id := if id = "vein" then some ⟨1, 0⟩ else if id = "cave" then some ⟨0, 0⟩ else none

/-- Both samples run. -/
theorem caveVein_runs : caveVein.InputsFit ∧ caveVein.Runnable :=
  samples_run rfl (by simp [caveVein, SlotTable.values])

/-- The same samples, the other way round. -/
def veinCaveSpec : FastNoiseGraphSpec :=
  ⟨.d3, [.sample3D ⟨"vein", .base, perlin⟩, .sample3D ⟨"cave", .base, perlin⟩], "cave"⟩

/-- A new state with these samples. -/
def veinCave : FastNoiseState where
  dimension := .d3
  finalField := "cave"
  nodes := {
    slots := [⟨0, some (.sample3D ⟨"vein", .base, perlin⟩)⟩,
      ⟨0, some (.sample3D ⟨"cave", .base, perlin⟩)⟩]
    len := 2 }
  nodeKeys id := if id = "cave" then some ⟨1, 0⟩ else if id = "vein" then some ⟨0, 0⟩ else none

/-- Both states stand for the same map. -/
theorem toMap_caveVein : GraphMap.ofSpec veinCaveSpec = caveVein.toMap := by
  refine congrArg (GraphMap.mk .d3 "cave") (funext fun id => ?_)
  by_cases hcave : id = "cave"
  · subst hcave
    rfl
  · by_cases hvein : id = "vein"
    · subst hvein
      rfl
    · simp [GraphMap.upsert, NodeSpec.id, FastNoiseState.get, caveVein, hcave, hvein]

set_option maxRecDepth 10000 in
/-- The job of the updated stack completes on the second version, and it returns what a stack
returns that is built with both samples. -/
theorem jobs_answer_rebuilt_cave :
    FastNoiseState.fromSpec veinCaveSpec = .ok veinCave ∧
      ∃ job, (caveAfter caveUpdated).shared.client.job 1 = some job ∧ job.seen.id = 2 ∧
        statusOf job.record = .completed ∧
        ∃ version, (fastNoiseStack ⟨true⟩ Numerics.silent true).Builds veinCave version ∧
          AnswersAs ⟨true⟩ Numerics.silent true version job := by
  have hfirst : FastNoiseState.fromSpec ⟨.d3, [.sample3D ⟨"cave", .base, perlin⟩], "cave"⟩ =
      .ok cave := rfl
  have hupdate : (fastNoiseStack ⟨true⟩ Numerics.silent true).updatedState 0 cave
      [FastNoiseChange.upsertNode (.sample3D ⟨"vein", .base, perlin⟩)] = .ok caveVein := rfl
  have hrebuilt : FastNoiseState.fromSpec veinCaveSpec = .ok veinCave := rfl
  have hjob : ((caveAfter caveUpdated).shared.client.job 1).map
      (fun job => (job.seen, job.queries, statusOf job.record)) =
        some (⟨2, (accepted caveVein).1, (accepted caveVein).2⟩, [.oneSample .d3],
          .completed) := rfl
  obtain ⟨job, hsome, heq⟩ := Option.map_eq_some_iff.mp hjob
  rw [Prod.mk.injEq, Prod.mk.injEq] at heq
  obtain ⟨hseen, hqueries, hstatus⟩ := heq
  have hbuilds : (fastNoiseStack ⟨true⟩ Numerics.silent true).Builds caveVein job.seen :=
    hseen ▸ ⟨⟨0, rfl⟩, rfl, 0, none, rfl⟩
  have hruns : veinCave.InputsFit ∧ veinCave.Runnable :=
    samples_run rfl (by simp [veinCave, SlotTable.values])
  have hreached : ReachedFrom (fastNoiseStack ⟨true⟩ Numerics.silent true) cave
      (caveAfter caveUpdated) := caveAfter_reachedFrom (by decide +kernel)
  have hfits : caveVein.Fits ∧ veinCave.Fits := by
    simp [FastNoiseState.Fits, caveVein, veinCave]
  obtain ⟨⟨version, hversion⟩, hanswers⟩ :=
    (jobs_answer_rebuilt hfirst hreached).rebuilt 1 job hsome
    caveVein (.single (.update hupdate)) hbuilds veinCaveSpec veinCave hrebuilt toMap_caveVein
    hfits.1 hfits.2 hruns.1
  exact ⟨hrebuilt, job, hsome, by rw [hseen], hstatus, version, hversion,
    hanswers version hversion hruns.2 (hqueries ▸ oneSample_fits)⟩

end Braids
