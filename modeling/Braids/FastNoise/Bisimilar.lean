import Braids.FastNoise.Rebuild
import Braids.Lib.Bisimulation

/-!
# Graphs That Do the Same

The ids of a graph are only names, a node that the final field does not depend on has no say in
it, and it makes no difference whether two equal nodes are one node that is used twice. All of
this is one notion: graphs that are bisimilar from their final fields on. Jobs that are
dispatched for such graphs return the same, on one stack or on two, in a debug build or not.

## Main results

* `GraphBisimulation.field_eq`: bisimilar graphs have the same field.
* `SameCone.bisimilar`, `Renames.bisimilar`: graphs that only differ outside of what the final
  field depends on, and graphs with other names.
* `jobs_agree`: what jobs return that are dispatched for such graphs.
-/

namespace Braids

open Braids.Runtime

/-! ### Nodes that do the same -/

/-- The sources are the same, up to the name of the node. -/
def PositionSource.Alike (r : String → String → Prop) : PositionSource → PositionSource → Prop
  | .base, .base => True
  | .node id, .node id' => r id id'
  | _, _ => False

/-- The nodes have the same settings, and their sources are the same up to a name. -/
def NoiseNode.Alike (r : String → String → Prop) (node node' : NoiseNode) : Prop :=
  node.noise = node'.noise ∧ node.source.Alike r node'.source

/-- The nodes do the same with what they read, and read it from nodes with related names. -/
def NodeSpec.Alike (r : String → String → Prop) : NodeSpec → NodeSpec → Prop
  | .warp2D node, .warp2D node' => node.Alike r node'
  | .warp3D node, .warp3D node' => node.Alike r node'
  | .sample2D node, .sample2D node' => node.Alike r node'
  | .sample3D node, .sample3D node' => node.Alike r node'
  | .combine node, .combine node' =>
      node.op = node'.op ∧ node.params = node'.params ∧ List.Forall₂ r node.inputs node'.inputs
  | _, _ => False

section Alike

variable {r : String → String → Prop}

/-- References with related names that need the same. -/
def RefsAlike (r : String → String → Prop) (ref ref' : String × Need) : Prop :=
  r ref.1 ref'.1 ∧ ref.2 = ref'.2

/-- What such sources read and refer to. -/
theorem PositionSource.Alike.ports_eq {source source' : PositionSource}
    (h : source.Alike r source') (d : GraphDimension) :
    source.ports d = source'.ports d ∧
      List.Forall₂ (RefsAlike r) (source.references d) (source'.references d) := by
  cases source with
  | base =>
      cases source' with
      | base => exact ⟨rfl, .nil⟩
      | node id' => exact h.elim
  | node id =>
      cases source' with
      | base => exact h.elim
      | node id' => exact ⟨rfl, .cons ⟨h, rfl⟩ .nil⟩

namespace NodeSpec

/-- What two nodes have in common that do the same. -/
structure Twins (r : String → String → Prop) (node node' : NodeSpec) : Prop where
  ports : node.ports = node'.ports
  body : ∀ num, node.body num = node'.body num
  output : ∀ d, node.outputKind d = node'.outputKind d
  references : List.Forall₂ (RefsAlike r) node.references node'.references

theorem Alike.twins {node node' : NodeSpec} (h : node.Alike r node') : Twins r node node' := by
  cases node <;> cases node' <;> try exact h.elim
  case combine node node' =>
    obtain ⟨hop, hparams, hinputs⟩ := h
    refine ⟨congrArg CombineOp.ports hop, fun num => ?_, fun d => rfl, ?_⟩
    · rw [body, body, hop, hparams]
    · rw [references, references, List.forall₂_map_left_iff, List.forall₂_map_right_iff]
      exact hinputs.imp fun _ _ hr => ⟨hr, rfl⟩
  -- the other kinds read positions
  all_goals
    obtain ⟨hports, hrefs⟩ := h.2.ports_eq _
    exact ⟨hports, fun num => by simp only [body, h.1], fun d => rfl, hrefs⟩

/-- A node does the same as itself, for any relation between its references that keeps ids. -/
theorem Alike.refl {node : NodeSpec} (h : ∀ ref ∈ node.references, r ref.1 ref.1) :
    node.Alike r node := by
  have hsource : ∀ (d : GraphDimension) (source : PositionSource),
      (∀ ref ∈ source.references d, r ref.1 ref.1) → source.Alike r source := by
    intro d source hrefs
    cases source with
    | base => trivial
    | node id => exact hrefs (id, .position d) List.mem_cons_self
  cases node with
  | combine node =>
      refine ⟨rfl, rfl, List.forall₂_same.mpr fun input hinput => ?_⟩
      exact h (input, .scalar) (List.mem_map_of_mem hinput)
  | warp2D node | warp3D node | sample2D node | sample3D node => exact ⟨rfl, hsource _ _ h⟩

end NodeSpec

end Alike

/-! ### Graphs that do the same -/

/-- The graphs do the same from their final fields on, with ids that are related. -/
structure GraphBisimulation (r : String → String → Prop) (state state' : FastNoiseState) :
    Prop where
  dimension : state.dimension = state'.dimension
  final : r state.finalField state'.finalField
  node? : ∀ id id', r id id' → Option.Rel (NodeSpec.Alike r) (state.node? id) (state'.node? id')

/-- The graphs do the same, whatever their nodes are called. -/
def Bisimilar (state state' : FastNoiseState) : Prop := ∃ r, GraphBisimulation r state state'

section Graphs

variable {num : Numerics} {r : String → String → Prop} {state state' : FastNoiseState}

/-- What related references stand for. -/
theorem GraphBisimulation.lookup (h : GraphBisimulation r state state') {ref ref' : String × Need}
    (href : RefsAlike r ref ref') :
    Option.Rel (NodeSpec.Alike r) (state.lookup ref) (state'.lookup ref') := by
  obtain ⟨hid, hneed⟩ := href
  have hnode := h.node? ref.1 ref'.1 hid
  rw [FastNoiseState.lookup, FastNoiseState.lookup, ← h.dimension, ← hneed]
  generalize state.node? ref.1 = node? at hnode
  generalize state'.node? ref'.1 = node?' at hnode
  cases hnode with
  | none => exact .none
  | @some node node' hnode =>
      rw [Option.filter_some, Option.filter_some, hnode.twins.output]
      split
      · exact .some hnode
      · exact .none

/-- **The graphs are bisimilar** at every point. -/
theorem GraphBisimulation.bisimulation (h : GraphBisimulation r state state')
    (point : List F32) :
    Dataflow.Graph.Bisimulation (state.graph num point) (state'.graph num point)
      (NodeSpec.Alike r) where
  compute := by
    intro node node' hnode
    funext args
    simp only [FastNoiseState.graph, hnode.twins.ports, hnode.twins.body]
  references := fun hnode => hnode.twins.references.imp fun _ _ href => h.lookup href

/-- **Bisimilar graphs have the same field.** -/
theorem GraphBisimulation.field_eq (h : GraphBisimulation r state state') (fuel : ℕ)
    (point : List F32) : state.field num fuel point = state'.field num fuel point := by
  have hfinal : Option.Rel (NodeSpec.Alike r) (state.lookup (state.finalField, .scalar))
      (state'.lookup (state'.finalField, .scalar)) := h.lookup ⟨h.final, rfl⟩
  rw [FastNoiseState.field, FastNoiseState.field]
  exact congrArg (·.bind List.head?) <| Dataflow.bind_eq_of_rel hfinal fun _ _ hnode =>
    (h.bisimulation point).eval_eq hnode fuel

/-- The same answers. -/
theorem Bisimilar.answers (h : Bisimilar state state') {queries : List ChunkQuery}
    {values : List ChunkSummary} (hanswers : Answers num state queries values) :
    Answers num state' queries values := by
  obtain ⟨r, hr⟩ := h
  obtain ⟨fuel, sampleLists, hsamples, hvalues⟩ := hanswers
  refine ⟨fuel, sampleLists, hsamples.imp fun query samples hquery => ?_, hvalues⟩
  exact hquery.imp fun point sample hsample => (hr.field_eq fuel point).symm.trans hsample

/-! ### Ways to be bisimilar -/

/-- The graphs have the same final field, and the same nodes under all ids it leads to. -/
def SameCone (state state' : FastNoiseState) : Prop :=
  state.dimension = state'.dimension ∧ state.finalField = state'.finalField ∧
    ∃ cone : String → Prop, cone state.finalField ∧
      (∀ id, cone id → state.node? id = state'.node? id) ∧
      ∀ id node, cone id → state.node? id = some node → ∀ ref ∈ node.references, cone ref.1

/-- **Only the cone of the final field matters.** -/
theorem SameCone.bisimilar (h : SameCone state state') : Bisimilar state state' := by
  obtain ⟨hdim, hfinal, cone, hin, hnode, hclosed⟩ := h
  refine ⟨fun id id' => id = id' ∧ cone id, hdim, ⟨hfinal, hin⟩, ?_⟩
  rintro id _ ⟨rfl, hid⟩
  rw [← hnode id hid]
  cases hsome : state.node? id with
  | none => exact .none
  | some node =>
      exact .some (.refl fun ref href => ⟨rfl, hclosed id node hid hsome ref href⟩)

/-- The source under other names. -/
def PositionSource.rename (f : String → String) : PositionSource → PositionSource
  | .base => .base
  | .node id => .node (f id)

/-- The node under other names. -/
def NodeSpec.rename (f : String → String) : NodeSpec → NodeSpec
  | .warp2D node => .warp2D ⟨f node.id, node.source.rename f, node.noise⟩
  | .warp3D node => .warp3D ⟨f node.id, node.source.rename f, node.noise⟩
  | .sample2D node => .sample2D ⟨f node.id, node.source.rename f, node.noise⟩
  | .sample3D node => .sample3D ⟨f node.id, node.source.rename f, node.noise⟩
  | .combine node => .combine ⟨f node.id, node.inputs.map f, node.op, node.params⟩

/-- A node does the same under other names. -/
theorem NodeSpec.alike_rename (f : String → String) (node : NodeSpec) :
    node.Alike (fun id id' => id' = f id) (node.rename f) := by
  have hsource : ∀ source : PositionSource,
      source.Alike (fun id id' => id' = f id) (source.rename f) := by
    intro source
    cases source with
    | base => trivial
    | node id => rfl
  cases node with
  | combine node =>
      refine ⟨rfl, rfl, ?_⟩
      rw [List.forall₂_map_right_iff, List.forall₂_same]
      exact fun _ _ => rfl
  | warp2D node | warp3D node | sample2D node | sample3D node => exact ⟨rfl, hsource _⟩

/-- The second graph is the first one under other names. Nodes that do the same may get one name:
then they are one node. -/
def Renames (state state' : FastNoiseState) : Prop :=
  state.dimension = state'.dimension ∧ ∃ f : String → String,
    state'.finalField = f state.finalField ∧
      ∀ id, state'.node? (f id) = (state.node? id).map (.rename f)

/-- **Ids are only names.** -/
theorem Renames.bisimilar (h : Renames state state') : Bisimilar state state' := by
  obtain ⟨hdim, f, hfinal, hnode⟩ := h
  refine ⟨fun id id' => id' = f id, hdim, hfinal, ?_⟩
  rintro id _ rfl
  rw [hnode]
  cases state.node? id with
  | none => exact .none
  | some node => exact .some (node.alike_rename f)

end Graphs

/-! ### Jobs -/

/-- The job has these values for the one who collects them, or has delivered them. -/
def Returned (job : Runtime.Job fastNoise) (values : List ChunkSummary) : Prop :=
  (statusOf job.record = .completed ∧ job.decoded = some values) ∨
    (values ∈ job.delivered ∧ values ≠ [])

/-- What a job returns that is answered with the samples of a graph. -/
theorem AnswersGraph.of_returned {num : Numerics} {state : FastNoiseState}
    {job : Runtime.Job fastNoise} (h : AnswersGraph num state job) {values : List ChunkSummary}
    (hvalues : Returned job values) : Answers num state job.queries values := by
  rcases hvalues with ⟨hstatus, hdecoded⟩ | ⟨hmem, hne⟩
  · obtain ⟨values', hdecoded', hanswers⟩ := h.completed hstatus
    obtain rfl := Option.some.inj (hdecoded.symm.trans hdecoded')
    exact hanswers
  · exact h.delivered values hmem hne

/-- The graph runs, and the version of the job was built from it, for a batch that fits. -/
structure RunsOn (build : Build) (num : Numerics) (debugAssertions : Bool)
    (state : FastNoiseState) (job : Runtime.Job fastNoise) : Prop where
  builds : (fastNoiseStack build num debugAssertions).Builds state job.seen
  inputs : state.InputsFit
  runnable : state.Runnable
  batch : BatchFits build state.dimension job.queries

/-- Jobs for the same queries on graphs that run and are related return the same. -/
def JobsAgree (same : FastNoiseState → FastNoiseState → Prop) (build build' : Build)
    (num : Numerics) (debugAssertions debugAssertions' : Bool) (s s' : FastNoiseMachine) : Prop :=
  ∀ j job j' job' state state', s.shared.client.job j = some job →
    s'.shared.client.job j' = some job' → job.queries = job'.queries →
    RunsOn build num debugAssertions state job → RunsOn build' num debugAssertions' state' job' →
    same state state' →
    ∀ values values', Returned job values → Returned job' values' → values = values'

/-- Jobs agree on graphs that do the same, so also on graphs that only differ outside of what the
final field depends on, and on graphs with other names. -/
structure OnlyFieldMatters (build build' : Build) (num : Numerics)
    (debugAssertions debugAssertions' : Bool) (s s' : FastNoiseMachine) : Prop where
  bisimilar : JobsAgree Bisimilar build build' num debugAssertions debugAssertions' s s'
  edited : JobsAgree SameCone build build' num debugAssertions debugAssertions' s s'
  renamed : JobsAgree Renames build build' num debugAssertions debugAssertions' s s'

/-- **Jobs agree** that are dispatched for graphs that do the same, in all states that two
stacks reach, or one. -/
theorem jobs_agree {build build' : Build} {num : Numerics}
    {debugAssertions debugAssertions' : Bool} {first first' : FastNoiseState}
    {s s' : FastNoiseMachine}
    (h : ReachedFrom (fastNoiseStack build num debugAssertions) first s)
    (h' : ReachedFrom (fastNoiseStack build' num debugAssertions') first' s') :
    OnlyFieldMatters build build' num debugAssertions debugAssertions' s s' := by
  have hbisimilar : JobsAgree Bisimilar build build' num debugAssertions debugAssertions' s s' := by
    intro j job j' job' state state' hj hj' hqueries hruns hruns' hsame values values' hv hv'
    have hanswers := (answersGraph_of_builds h hj hruns.builds hruns.inputs hruns.runnable
      hruns.batch).of_returned hv
    have hanswers' := (answersGraph_of_builds h' hj' hruns'.builds hruns'.inputs hruns'.runnable
      hruns'.batch).of_returned hv'
    rw [hqueries] at hanswers
    exact (hsame.answers hanswers).unique hanswers'
  refine ⟨hbisimilar, ?_, ?_⟩
  · intro j job j' job' state state' hj hj' hqueries hruns hruns' hsame
    exact hbisimilar j job j' job' state state' hj hj' hqueries hruns hruns' hsame.bisimilar
  · intro j job j' job' state state' hj hj' hqueries hruns hruns' hsame
    exact hbisimilar j job j' job' state state' hj hj' hqueries hruns hruns' hsame.bisimilar

/-- The other sample is out of the cone of the final field. -/
theorem sameCone_caveVein : SameCone cave caveVein := by
  refine ⟨rfl, rfl, (· = "cave"), rfl, ?_, ?_⟩
  · rintro _ rfl
    rfl
  · rintro _ node rfl hnode ref href
    obtain rfl : NodeSpec.sample3D ⟨"cave", .base, perlin⟩ = node := Option.some.inj hnode
    simp [NodeSpec.references, PositionSource.references] at href

/-- The first job of the stack has completed, and it was dispatched for a graph that runs. -/
def FirstRunsOn (state : FastNoiseState) (s : FastNoiseMachine) : Prop :=
  ∃ job, s.shared.client.job 1 = some job ∧ statusOf job.record = .completed ∧
    RunsOn ⟨true⟩ Numerics.silent true state job

/-- A job for one sample on the version that is compiled from a graph of samples. -/
theorem firstRunsOn_oneSample {state : FastNoiseState} {s : FastNoiseMachine} {id : ℕ}
    (hdim : state.dimension = .d3)
    (hbuilds : (fastNoiseStack ⟨true⟩ Numerics.silent true).Builds state
      ⟨id, (accepted state).1, (accepted state).2⟩)
    (hruns : state.InputsFit ∧ state.Runnable)
    (hjob : (s.shared.client.job 1).map (fun job => (job.seen, job.queries, statusOf job.record)) =
      some (⟨id, (accepted state).1, (accepted state).2⟩, [.oneSample .d3], .completed)) :
    FirstRunsOn state s := by
  obtain ⟨job, hsome, heq⟩ := Option.map_eq_some_iff.mp hjob
  rw [Prod.mk.injEq, Prod.mk.injEq] at heq
  obtain ⟨hseen, hqueries, hstatus⟩ := heq
  refine ⟨job, hsome, hstatus, hseen ▸ hbuilds, hruns.1, hruns.2, ?_⟩
  rw [hqueries, hdim]
  exact oneSample_fits

set_option maxRecDepth 10000 in
/-- The job of the updated stack and that of a stack without the other sample agree. -/
theorem jobs_agree_cave :
    SameCone cave caveVein ∧ Bisimilar cave caveVein ∧ FirstRunsOn cave (caveAfter caveJob) ∧
      FirstRunsOn caveVein (caveAfter caveUpdated) ∧
      OnlyFieldMatters ⟨true⟩ ⟨true⟩ Numerics.silent true true (caveAfter caveJob)
        (caveAfter caveUpdated) :=
  ⟨sameCone_caveVein, sameCone_caveVein.bisimilar,
    firstRunsOn_oneSample rfl ⟨⟨0, rfl⟩, rfl, 0, none, rfl⟩ cave_runs rfl,
    firstRunsOn_oneSample rfl ⟨⟨0, rfl⟩, rfl, 0, none, rfl⟩ caveVein_runs rfl,
    jobs_agree (caveAfter_reachedFrom rfl) (caveAfter_reachedFrom (by decide +kernel))⟩

end Braids
