import Braids.FastNoise.Schedule

/-!
# The Order in Which Nodes Are Compiled

The queue loop of `compile_graph`, on any list of nodes whose references resolve: references
may be repeated, a node may refer to itself, and there may be cycles.

## Main results

* `feeds_eq_dep`: the edges of the loop are the references of the nodes.
* `queue_loop_correct`: the loop ends, and sorts the nodes that are neither on a cycle nor
  behind one.
-/

namespace Braids

open Toposort

namespace FastNoiseState

/-- One node of the state is an input or the source of another. -/
def Feeds (state : FastNoiseState) (dep handle : ℕ) : Prop :=
  ∃ node, state.nodes.values[handle]? = some node ∧
    ∃ ref ∈ node.references, (CompileNodes.build state).resolve ref.1 = some dep

/-- The queue loop of `compile_graph` after some rounds, for the dependencies that were
collected. -/
def queueAfter (state : FastNoiseState) (deps : ℕ → List ℕ) (rounds : ℕ) : Pass :=
  drain (edges (CompileNodes.build state).len deps).adjacency rounds
    (.start (CompileNodes.build state).len (edges (CompileNodes.build state).len deps))

/-- The queue loop does what it is for, and `sorted` is its result. -/
structure QueueLoop (state : FastNoiseState) (deps : ℕ → List ℕ) (sorted : List ℕ) : Prop where
  /-- The loop ends: after as many rounds as there are nodes the queue is empty. -/
  ends : ∀ rounds ≥ (CompileNodes.build state).len,
    (state.queueAfter deps rounds).queue = [] ∧ (state.queueAfter deps rounds).sorted = sorted
  /-- No node is listed twice. -/
  nodup : sorted.Nodup
  /-- A node is listed unless it is on a cycle or behind one. -/
  listed : ∀ handle, handle ∈ sorted ↔
    handle < (CompileNodes.build state).len ∧ ¬ BehindCycle state.Feeds handle
  /-- A node comes after what it depends on. -/
  before : ∀ (i handle : ℕ), sorted[i]? = some handle → ∀ dep, state.Feeds dep handle →
    ∃ j < i, sorted[j]? = some dep
  /-- No indegree is zero when it is counted down, in any round. -/
  counts : ∀ rounds node rest, (state.queueAfter deps rounds).queue = node :: rest →
    ∀ children child more,
      (edges (CompileNodes.build state).len deps).adjacency node = children ++ child :: more →
      0 < ((state.queueAfter deps rounds).partway node rest children).indegree child

variable {state : FastNoiseState}

/-- **The edges of the loop** are the references of the nodes. -/
theorem feeds_eq_dep {deps : List (List ℕ)}
    (h : HookResult.traverse (CompileNodes.build state).collectDependencies
      (List.range (CompileNodes.build state).len) = .ok deps) :
    state.Feeds = Dep fun handle => deps.getD handle [] := by
  have hcollected := collected_of_ok h
  have hlen := (HookResult.traverse_eq_ok.mp h).length_eq
  rw [List.length_range] at hlen
  funext dep handle
  refine propext ⟨?_, fun hdep => ?_⟩
  · rintro ⟨node, hnode, ref, href, hres⟩
    obtain ⟨dep', hdep, hres'⟩ := Dataflow.exists_of_mem_left (hcollected handle node hnode) href
    obtain rfl := Option.some.inj (hres.symm.trans hres')
    exact hdep
  · -- a handle with a dependency is in range
    have hlt : handle < (CompileNodes.build state).len := by
      by_contra hge
      have hnone : deps[handle]? = none := List.getElem?_eq_none (by omega)
      simp [Dep, hnone] at hdep
    have hnode := List.getElem?_eq_getElem hlt
    obtain ⟨ref, href, hres⟩ := Dataflow.exists_of_mem_right (hcollected handle _ hnode) hdep
    exact ⟨_, hnode, ref, href, hres⟩

/-- **The queue loop is a topological sort** of every list of nodes whose references resolve. -/
theorem queue_loop_correct (state : FastNoiseState) (h : state.ReferencesResolve) :
    ∃ deps, HookResult.traverse (CompileNodes.build state).collectDependencies
        (List.range (CompileNodes.build state).len) = .ok deps ∧
      state.QueueLoop (fun handle => deps.getD handle [])
        (toposort (CompileNodes.build state).len fun handle => deps.getD handle []) := by
  obtain ⟨deps, hdeps⟩ := h.exists_deps
  have hfeeds := feeds_eq_dep hdeps
  have hlt (handle : ℕ) (ha : handle < (CompileNodes.build state).len) :=
    (collected_of_ok hdeps).lt ha
  refine ⟨deps, hdeps, ⟨fun rounds hrounds => ?_, nodup_toposort _ _, fun handle => ?_, ?_, ?_⟩⟩
  · have hpass := drain_eq_pass (CompileNodes.build state).len
      (fun handle => deps.getD handle []) hrounds
    exact ⟨by rw [queueAfter, hpass, drain_queue], by rw [queueAfter, hpass, toposort]⟩
  · rw [hfeeds]
    constructor
    · intro hmem
      have hhandle := lt_of_mem_toposort hmem
      exact ⟨hhandle, (acc_iff_not_behindCycle (finite_before hlt hhandle)).mp
        ((Toposort.mem_toposort hlt hhandle).mp hmem)⟩
    · rintro ⟨hhandle, hnot⟩
      exact (Toposort.mem_toposort hlt hhandle).mpr
        ((acc_iff_not_behindCycle (finite_before hlt hhandle)).mpr hnot)
  · intro i handle hi dep hdep
    rw [hfeeds] at hdep
    exact (ready_toposort _ _).before hi hdep
  · intro rounds node rest hqueue children child more hchildren
    exact indegree_pos _ _ rounds hqueue hchildren

/-- A node that is used twice, one that refers to itself, and one behind it. -/
def tangled : FastNoiseState where
  dimension := .d2
  finalField := "b"
  nodes := { slots := [⟨0, some (.combine ⟨"b", ["a", "a"], .add, []⟩)⟩,
    ⟨0, some (.combine ⟨"c", ["c", "a"], .mul, []⟩)⟩, ⟨0, some (.combine ⟨"d", ["c"], .add, []⟩)⟩,
    ⟨0, some (.combine ⟨"a", [], .add, []⟩)⟩], len := 4 }
  nodeKeys _ := none

/-- Of these only the first is listed, after what it uses. -/
theorem queue_loop_correct_tangled :
    ∃ deps, HookResult.traverse (CompileNodes.build tangled).collectDependencies
        (List.range (CompileNodes.build tangled).len) = .ok deps ∧
      tangled.QueueLoop (fun handle => deps.getD handle []) [3, 0] := by
  obtain ⟨deps, hdeps, hloop⟩ := queue_loop_correct tangled (by
    rw [ReferencesResolve]
    decide)
  obtain rfl : [[3, 3], [1, 3], [1], []] = deps := HookResult.ok.inj hdeps
  exact ⟨_, hdeps, hloop⟩

end FastNoiseState

end Braids
