import Mathlib.Data.Fintype.Card
import Mathlib.Data.List.Perm.Subperm
import Mathlib.Data.Set.Finite.Lattice
import Mathlib.Logic.Function.Basic
import Mathlib.Order.Interval.Finset.Nat
import Mathlib.Tactic.Common

/-!
# Topological Sorting with a Queue

The nodes are the numbers below `n`, and `deps` lists what each of them depends on, with
repetitions. The edges are collected first: how many dependencies of a node are missing,
and which nodes wait for it. Then nodes without missing dependencies are taken from a queue,
and each node that is taken releases those that wait for it.

## Main results

* `drain_eq_pass`: the loop ends within `n` rounds.
* `indegree_pos`: it never counts a node down that waits for nothing.
* `ready_toposort`: every node is listed once and after everything it depends on.
* `mem_toposort`: a node is listed exactly when it is accessible in the dependency relation.
* `acc_iff_not_behindCycle`: that is when it is neither on a cycle nor behind one.
-/

namespace Toposort

open Relation

/-! ### Schedules -/

/-- The nodes of a list can be taken one after another when those in `done` were: each is
new, and what it depends on was taken before. -/
def Ready (deps : ℕ → List ℕ) (done : List ℕ) : List ℕ → Prop
  | [] => True
  | node :: rest => node ∉ done ∧ (∀ d ∈ deps node, d ∈ done) ∧ Ready deps (done ++ [node]) rest

variable {n : ℕ} {deps : ℕ → List ℕ}

/-- A schedule that goes on. -/
theorem ready_append {done l r : List ℕ} :
    Ready deps done (l ++ r) ↔ Ready deps done l ∧ Ready deps (done ++ l) r := by
  induction l generalizing done with
  | nil => simp [Ready]
  | cons node l ih => simp [Ready, ih, and_assoc]

/-- A schedule has no node twice, and none that was taken before. -/
theorem Ready.nodup {done l : List ℕ} (h : Ready deps done l) (hd : done.Nodup) :
    (done ++ l).Nodup := by
  induction l generalizing done with
  | nil => simpa using hd
  | cons node l ih =>
      obtain ⟨hnew, -, hrest⟩ := h
      have hdone : (done ++ [node]).Nodup := by
        rw [List.nodup_append]
        refine ⟨hd, by simp, ?_⟩
        rintro a ha b hb rfl
        obtain rfl := List.mem_singleton.mp hb
        exact hnew ha
      simpa using ih hrest hdone

/-- What comes before the nodes of a schedule. -/
theorem Ready.before {l : List ℕ} (h : Ready deps [] l) {i node d : ℕ}
    (hi : l[i]? = some node) (hd : d ∈ deps node) : ∃ j < i, l[j]? = some d := by
  obtain ⟨hlt, rfl⟩ := List.getElem?_eq_some_iff.mp hi
  have hsplit : l.take i ++ l[i] :: l.drop (i + 1) = l := by
    rw [List.getElem_cons_drop, List.take_append_drop]
  rw [← hsplit, ready_append] at h
  obtain ⟨-, -, hdeps, -⟩ := h
  obtain ⟨j, hj⟩ := List.mem_iff_getElem?.mp (hdeps d hd)
  rw [List.nil_append, List.getElem?_take] at hj
  split at hj
  · next hji => exact ⟨j, hji, hj⟩
  · simp at hj

/-- The dependency relation on the nodes: `d` comes before `node`. -/
def Dep (deps : ℕ → List ℕ) (d node : ℕ) : Prop := d ∈ deps node

/-- The nodes of a schedule are accessible if those taken before are. -/
theorem Ready.acc {done l : List ℕ} (h : Ready deps done l) (hd : ∀ a ∈ done, Acc (Dep deps) a) :
    ∀ a ∈ l, Acc (Dep deps) a := by
  induction l generalizing done with
  | nil => simp
  | cons node l ih =>
      obtain ⟨-, hdeps, hrest⟩ := h
      have hnode : Acc (Dep deps) node := ⟨node, fun d hdep => hd d (hdeps d hdep)⟩
      have hdone : ∀ a ∈ done ++ [node], Acc (Dep deps) a := by
        intro a ha
        rcases List.mem_append.mp ha with ha | ha
        · exact hd a ha
        · exact List.mem_singleton.mp ha ▸ hnode
      intro a ha
      rcases List.mem_cons.mp ha with rfl | ha
      · exact hnode
      · exact ih hrest hdone a ha

/-! ### Cycles -/

section Cycles

variable {α : Type} {r : α → α → Prop}

/-- The node is on a cycle, or behind one. -/
def BehindCycle (r : α → α → Prop) (a : α) : Prop := ∃ c, TransGen r c c ∧ ReflTransGen r c a

/-- An accessible node is not on a cycle. -/
theorem not_transGen_of_acc {a : α} (h : Acc r a) : ¬ TransGen r a a := by
  have htrans : Acc (TransGen r) a := h.transGen
  induction htrans with
  | intro a _ ih => exact fun hcycle => ih a hcycle (h.inv_of_transGen hcycle) hcycle

/-- What comes before an accessible node is accessible. -/
theorem acc_of_reflTransGen {a c : α} (h : Acc r a) (hreach : ReflTransGen r c a) : Acc r c := by
  induction hreach using ReflTransGen.head_induction_on with
  | refl => exact h
  | head hstep _ ih => exact ih.inv hstep

/-- **With finitely many nodes before it, a node is accessible exactly when it is neither on a
cycle nor behind one.** -/
theorem acc_iff_not_behindCycle {a : α} (hfin : {d | ReflTransGen r d a}.Finite) :
    Acc r a ↔ ¬ BehindCycle r a := by
  constructor
  · rintro hacc ⟨c, hcycle, hreach⟩
    exact not_transGen_of_acc (acc_of_reflTransGen hacc hreach) hcycle
  · intro hnot
    -- the nodes before `a` are finitely many, and no chain returns to where it started
    let before : {d | ReflTransGen r d a} → {d | ReflTransGen r d a} → Prop :=
      fun x y => TransGen r x y
    have : Finite {d | ReflTransGen r d a} := hfin
    have : IsTrans _ before := ⟨fun _ _ _ => TransGen.trans⟩
    have : Std.Irrefl before := ⟨fun x hx => hnot ⟨x, hx, x.2⟩⟩
    have hwf : WellFounded before := Finite.wellFounded_of_trans_of_irrefl before
    have hall : ∀ x : {d | ReflTransGen r d a}, Acc r x.1 := by
      intro x
      induction x using hwf.induction with
      | h x ih => exact ⟨x.1, fun d hd => ih ⟨d, ReflTransGen.head hd x.2⟩ (.single hd)⟩
    exact hall ⟨a, .refl⟩

end Cycles

/-- Only nodes come before a node. -/
theorem finite_before (hdeps : ∀ a < n, ∀ d ∈ deps a, d < n) {a : ℕ} (ha : a < n) :
    {d | ReflTransGen (Dep deps) d a}.Finite := by
  refine (Set.finite_lt_nat n).subset fun d hd => ?_
  induction hd using ReflTransGen.head_induction_on with
  | refl => exact ha
  | head hstep _ ih => exact hdeps _ ih _ hstep

/-! ### Edges -/

/-- The edges collected so far. -/
structure Edges where
  /-- How many dependencies a node waits for. -/
  indegree : ℕ → ℕ
  /-- The nodes that wait for a node. -/
  adjacency : ℕ → List ℕ

/-- Record that `node` depends on `dep`. -/
def Edges.add (node : ℕ) (e : Edges) (dep : ℕ) : Edges where
  indegree := Function.update e.indegree node (e.indegree node + 1)
  adjacency := Function.update e.adjacency dep (e.adjacency dep ++ [node])

/-- Record the dependencies of a node. -/
def Edges.addAll (deps : ℕ → List ℕ) (e : Edges) (node : ℕ) : Edges :=
  (deps node).foldl (Edges.add node) e

/-- The edges of a graph. -/
def edges (n : ℕ) (deps : ℕ → List ℕ) : Edges :=
  (List.range n).foldl (Edges.addAll deps) ⟨fun _ => 0, fun _ => []⟩

/-- What the dependencies of one node add. -/
theorem foldl_add (e : Edges) (node : ℕ) (l : List ℕ) :
    (∀ a, (l.foldl (Edges.add node) e).indegree a =
        e.indegree a + if a = node then l.length else 0) ∧
      ∀ d c, ((l.foldl (Edges.add node) e).adjacency d).count c =
        (e.adjacency d).count c + if c = node then l.count d else 0 := by
  induction l generalizing e with
  | nil => simp
  | cons x l ih =>
      obtain ⟨hin, hadj⟩ := ih (e.add node x)
      refine ⟨fun a => ?_, fun d c => ?_⟩
      · rw [List.foldl_cons, hin]
        by_cases ha : a = node
        · subst ha
          simp only [Edges.add, Function.update_self, if_true, List.length_cons]
          omega
        · simp [Edges.add, ha]
      · rw [List.foldl_cons, hadj]
        have hnode : ([node] : List ℕ).count c = if c = node then 1 else 0 := by
          by_cases hc : c = node
          · simp [hc]
          · rw [if_neg hc, List.count_eq_zero]
            simpa using hc
        by_cases hd : d = x
        · subst hd
          simp only [Edges.add, Function.update_self, List.count_append, hnode,
            List.count_cons_self]
          split <;> omega
        · rw [List.count_cons_of_ne (Ne.symm hd)]
          simp [Edges.add, Function.update_of_ne hd]

/-- Counting one more node. -/
theorem if_lt_succ_add (n a : ℕ) (f : ℕ → ℕ) :
    ((if a < n then f a else 0) + if a = n then f n else 0) = if a < n + 1 then f a else 0 := by
  by_cases ha : a = n
  · simp [ha]
  · have hlt : a < n + 1 ↔ a < n := by omega
    simp [ha, hlt]

/-- The edges of the first `n` nodes. -/
theorem edges_spec (n : ℕ) (deps : ℕ → List ℕ) :
    (∀ a, (edges n deps).indegree a = if a < n then (deps a).length else 0) ∧
      ∀ d c, ((edges n deps).adjacency d).count c = if c < n then (deps c).count d else 0 := by
  induction n with
  | zero => simp [edges]
  | succ n ih =>
      obtain ⟨hin, hadj⟩ := ih
      have hsucc : edges (n + 1) deps = (deps n).foldl (Edges.add n) (edges n deps) := by
        simp [edges, List.range_succ, Edges.addAll]
      obtain ⟨hin', hadj'⟩ := foldl_add (edges n deps) n (deps n)
      rw [hsucc]
      refine ⟨fun a => ?_, fun d c => ?_⟩
      · rw [hin', hin]
        exact if_lt_succ_add n a fun a => (deps a).length
      · rw [hadj', hadj]
        exact if_lt_succ_add n c fun c => (deps c).count d

/-! ### The queue -/

/-- The state of the queue loop. -/
structure Pass where
  indegree : ℕ → ℕ
  queue : List ℕ
  sorted : List ℕ

/-- One dependency of `child` was taken. -/
def Pass.release (s : Pass) (child : ℕ) : Pass :=
  let entry := s.indegree child - 1
  { s with
    indegree := Function.update s.indegree child entry
    queue := if entry = 0 then s.queue ++ [child] else s.queue }

/-- Take the node at the front of the queue. -/
def Pass.take (adjacency : ℕ → List ℕ) (s : Pass) (node : ℕ) (rest : List ℕ) : Pass :=
  (adjacency node).foldl Pass.release { s with queue := rest, sorted := s.sorted ++ [node] }

/-- The round of a node, after some of its children were released. -/
def Pass.partway (s : Pass) (node : ℕ) (rest children : List ℕ) : Pass :=
  children.foldl Pass.release { s with queue := rest, sorted := s.sorted ++ [node] }

/-- At most `fuel` rounds of the queue loop. -/
def drain (adjacency : ℕ → List ℕ) : ℕ → Pass → Pass
  | 0, s => s
  | fuel + 1, s =>
      match s.queue with
      | [] => s
      | node :: rest => drain adjacency fuel (s.take adjacency node rest)

/-- The loop starts with the nodes that depend on nothing. -/
def Pass.start (n : ℕ) (e : Edges) : Pass where
  indegree := e.indegree
  queue := (List.range n).filter fun node => e.indegree node = 0
  sorted := []

/-- The loop after all its rounds. -/
def pass (n : ℕ) (deps : ℕ → List ℕ) : Pass :=
  drain (edges n deps).adjacency n (.start n (edges n deps))

/-- The nodes in the order in which they are taken. -/
def toposort (n : ℕ) (deps : ℕ → List ℕ) : List ℕ := (pass n deps).sorted

/-- What releasing some children does: each is counted down as often as it occurs, and
queued when nothing is missing. -/
theorem foldl_release {children : List ℕ} {s : Pass}
    (h : ∀ c, children.count c ≤ s.indegree c) :
    (children.foldl Pass.release s).sorted = s.sorted ∧
      (∀ c, (children.foldl Pass.release s).indegree c = s.indegree c - children.count c) ∧
      ∃ more, (children.foldl Pass.release s).queue = s.queue ++ more ∧ more.Nodup ∧
        ∀ c, c ∈ more ↔ c ∈ children ∧ s.indegree c = children.count c := by
  induction children generalizing s with
  | nil => exact ⟨rfl, by simp, [], by simp, by simp, by simp⟩
  | cons x children ih =>
      have hx : children.count x + 1 ≤ s.indegree x := by simpa using h x
      have hnext : ∀ c, children.count c ≤ (s.release x).indegree c := by
        intro c
        by_cases hc : c = x
        · subst hc
          simp only [Pass.release, Function.update_self]
          omega
        · have hcount := h c
          rw [List.count_cons_of_ne (Ne.symm hc)] at hcount
          simpa [Pass.release, Function.update_of_ne hc] using hcount
      obtain ⟨hsorted, hin, more, hqueue, hnd, hmore⟩ := ih hnext
      rw [List.foldl_cons]
      refine ⟨hsorted, fun c => ?_, ?_⟩
      · rw [hin]
        by_cases hc : c = x
        · subst hc
          simp only [Pass.release, Function.update_self, List.count_cons_self]
          omega
        · simp [Pass.release, hc, List.count_cons_of_ne (Ne.symm hc)]
      · have hother : ∀ c, c ≠ x → (c ∈ more ↔
            c ∈ x :: children ∧ s.indegree c = (x :: children).count c) := by
          intro c hc
          rw [hmore, List.count_cons_of_ne (Ne.symm hc)]
          simp [Pass.release, hc]
        by_cases hzero : s.indegree x - 1 = 0
        · have hcount : children.count x = 0 := by omega
          have hxs : x ∉ more := fun hmem =>
            List.count_eq_zero.mp hcount ((hmore x).mp hmem).1
          refine ⟨x :: more, by rw [hqueue]; simp [Pass.release, hzero], ?_, fun c => ?_⟩
          · rw [List.nodup_cons]
            exact ⟨hxs, hnd⟩
          · by_cases hc : c = x
            · subst hc
              simp only [List.mem_cons_self, List.count_cons_self, true_and, true_iff]
              omega
            · rw [List.mem_cons, or_iff_right hc, hother c hc]
        · refine ⟨more, by rw [hqueue]; simp [Pass.release, hzero], hnd, fun c => ?_⟩
          by_cases hc : c = x
          · subst hc
            rw [hmore]
            simp only [Pass.release, Function.update_self, List.mem_cons_self,
              List.count_cons_self, true_and]
            constructor
            · rintro ⟨-, heq⟩
              omega
            · intro heq
              refine ⟨List.count_pos_iff.mp ?_, ?_⟩ <;> omega
          · exact hother c hc

/-- The invariant of the loop. -/
structure Inv (n : ℕ) (deps : ℕ → List ℕ) (s : Pass) : Prop where
  nodup : (s.sorted ++ s.queue).Nodup
  bound : ∀ a ∈ s.sorted ++ s.queue, a < n
  ready : Ready deps [] s.sorted
  /-- A node waits for the dependencies that were not taken yet. -/
  missing : ∀ a, a < n → s.indegree a = (deps a).countP fun d => d ∉ s.sorted
  /-- Exactly the nodes that wait for nothing were taken or are in the queue. -/
  settled : ∀ a, a < n → (a ∈ s.sorted ++ s.queue ↔ s.indegree a = 0)

/-- A node that is taken is no longer missing. -/
theorem countP_not_mem_append {sorted : List ℕ} {node : ℕ} (hnew : node ∉ sorted)
    (l : List ℕ) :
    (l.countP fun d => d ∉ sorted ++ [node]) =
      (l.countP fun d => d ∉ sorted) - l.count node := by
  have hsum : (l.countP fun d => d ∉ sorted) =
      (l.countP fun d => d ∉ sorted ++ [node]) + l.count node := by
    induction l with
    | nil => rfl
    | cons d l ih =>
        rw [List.countP_cons, List.countP_cons, List.count_cons, ih]
        by_cases hd : d = node
        · subst hd
          simp only [hnew, List.mem_append, List.mem_singleton, or_true, not_false_eq_true,
            not_true_eq_false, decide_true, decide_false, if_true, beq_self_eq_true,
            Bool.false_eq_true, if_false]
          omega
        · have hbeq : (d == node) = false := beq_eq_false_iff_ne.mpr hd
          simp only [List.mem_append, List.mem_singleton, hd, or_false, hbeq,
            Bool.false_eq_true, if_false]
          omega
  omega

/-- The invariant holds at the start. -/
theorem inv_start (n : ℕ) (deps : ℕ → List ℕ) : Inv n deps (.start n (edges n deps)) where
  nodup := by
    simp only [Pass.start, List.nil_append]
    exact List.nodup_range.filter _
  bound a ha := by
    have hmem : a ∈ (List.range n).filter fun node => (edges n deps).indegree node = 0 := by
      simpa [Pass.start] using ha
    exact List.mem_range.mp (List.mem_filter.mp hmem).1
  ready := trivial
  missing a ha := by simp [Pass.start, (edges_spec n deps).1, ha]
  settled a ha := by simp [Pass.start, ha]

/-- A node in the queue was not taken before. -/
theorem Inv.not_mem_sorted {s : Pass} (h : Inv n deps s) {node : ℕ} {rest : List ℕ}
    (hqueue : s.queue = node :: rest) : node ∉ s.sorted := by
  have hnd := h.nodup
  rw [hqueue, List.nodup_append] at hnd
  obtain ⟨-, -, hdisj⟩ := hnd
  exact fun hin => hdisj node hin node List.mem_cons_self rfl

/-- What a node waits for includes all its occurrences among the children of the node at the
front of the queue. -/
theorem Inv.count_le {s : Pass} (h : Inv n deps s) {node : ℕ} {rest : List ℕ}
    (hqueue : s.queue = node :: rest) (c : ℕ) :
    ((edges n deps).adjacency node).count c ≤ s.indegree c := by
  have hnew := h.not_mem_sorted hqueue
  rw [(edges_spec n deps).2 node]
  split
  · next hc =>
      rw [h.missing c hc, List.count]
      refine List.countP_mono_left fun d _ hd => ?_
      rw [beq_iff_eq.mp hd]
      simpa using hnew
  · exact Nat.zero_le _

/-- The invariant is kept when a node is taken. -/
theorem Inv.take {s : Pass} (h : Inv n deps s) {node : ℕ} {rest : List ℕ}
    (hqueue : s.queue = node :: rest) :
    Inv n deps (s.take (edges n deps).adjacency node rest) ∧
      (s.take (edges n deps).adjacency node rest).sorted = s.sorted ++ [node] := by
  have hmem : node ∈ s.sorted ++ s.queue := by simp [hqueue]
  have hnode : node < n := h.bound node hmem
  have hnew := h.not_mem_sorted hqueue
  have hadj := (edges_spec n deps).2 node
  have hle := h.count_le hqueue
  obtain ⟨hsorted, hin, more, hq, hmorend, hmore⟩ := foldl_release
    (s := { s with queue := rest, sorted := s.sorted ++ [node] }) hle
  have hmore' : ∀ c, c ∈ more ↔ c < n ∧ node ∈ deps c ∧
      s.indegree c = (deps c).count node := by
    intro c
    rw [hmore, hadj]
    change c ∈ _ ∧ s.indegree c = _ ↔ _
    rw [← List.count_pos_iff, hadj]
    split
    · next hc => simp [hc, List.count_pos_iff]
    · next hc => simp [hc]
  have hmissing : ∀ a, a < n → (s.take (edges n deps).adjacency node rest).indegree a =
      (deps a).countP fun d => d ∉ s.sorted ++ [node] := by
    intro a ha
    change (((edges n deps).adjacency node).foldl Pass.release _).indegree a = _
    rw [hin, countP_not_mem_append hnew, hadj, if_pos ha]
    exact congrArg (· - _) (h.missing a ha)
  -- a node with a missing dependency was neither taken nor queued
  have hfresh : ∀ c ∈ more, c ∉ s.sorted ++ s.queue := by
    intro c hc hcold
    obtain ⟨hcn, hdep, heq⟩ := (hmore' c).mp hc
    have hpos := List.count_pos_iff.mpr hdep
    have hzero := (h.settled c hcn).mp hcold
    omega
  have hlist : (s.sorted ++ [node]) ++ (rest ++ more) = (s.sorted ++ s.queue) ++ more := by
    simp [hqueue]
  change Inv n deps (((edges n deps).adjacency node).foldl Pass.release _) ∧ _
  refine ⟨⟨?_, ?_, ?_, ?_, ?_⟩, hsorted⟩
  · rw [hsorted, hq, hlist, List.nodup_append]
    refine ⟨h.nodup, hmorend, ?_⟩
    rintro a ha b hb rfl
    exact hfresh a hb ha
  · rw [hsorted, hq, hlist]
    intro a ha
    rcases List.mem_append.mp ha with ha | ha
    · exact h.bound a ha
    · exact ((hmore' a).mp ha).1
  · rw [hsorted, ready_append]
    refine ⟨h.ready, hnew, fun d hd => ?_, trivial⟩
    have hzero := (h.settled node hnode).mp hmem
    rw [h.missing node hnode, List.countP_eq_zero] at hzero
    simpa using hzero d hd
  · rw [hsorted]
    exact hmissing
  · rw [hsorted, hq, hlist]
    intro a ha
    rw [List.mem_append, h.settled a ha, hmore', hin]
    change s.indegree a = 0 ∨ _ ↔ s.indegree a - _ = 0
    rw [hadj, if_pos ha]
    have hcount : (deps a).count node ≤ s.indegree a := by simpa [hadj, ha] using hle a
    constructor
    · rintro (h0 | ⟨-, -, heq⟩) <;> omega
    · intro hsub
      by_cases h0 : s.indegree a = 0
      · exact .inl h0
      · refine .inr ⟨ha, List.count_pos_iff.mp ?_, ?_⟩ <;> omega

/-- At most `n` nodes are taken. -/
theorem Inv.length_le {s : Pass} (h : Inv n deps s) :
    s.sorted.length + s.queue.length ≤ n := by
  have hsub : (s.sorted ++ s.queue).length ≤ (List.range n).length :=
    (h.nodup.subperm fun a ha => List.mem_range.mpr (h.bound a ha)).length_le
  simpa using hsub

/-- The loop keeps its invariant, however many rounds it takes. -/
theorem Inv.rounds {s : Pass} (h : Inv n deps s) (fuel : ℕ) :
    Inv n deps (drain (edges n deps).adjacency fuel s) := by
  induction fuel generalizing s with
  | zero => exact h
  | succ fuel ih =>
      rw [drain]
      split
      · exact h
      · next node rest hq => exact ih (h.take hq).1

/-- **No node is counted down that waits for nothing**: after any number of rounds, and after
some children of the node at the front of the queue. -/
theorem indegree_pos (n : ℕ) (deps : ℕ → List ℕ) (fuel : ℕ) {node : ℕ} {rest : List ℕ}
    (hqueue : (drain (edges n deps).adjacency fuel (.start n (edges n deps))).queue =
      node :: rest)
    {l r : List ℕ} {child : ℕ} (hchildren : (edges n deps).adjacency node = l ++ child :: r) :
    0 < ((drain (edges n deps).adjacency fuel (.start n (edges n deps))).partway node rest
      l).indegree child := by
  have h := (inv_start n deps).rounds fuel
  generalize drain (edges n deps).adjacency fuel (.start n (edges n deps)) = s at hqueue h ⊢
  have hle := h.count_le hqueue
  rw [hchildren] at hle
  have hfirst : ∀ c, l.count c ≤ s.indegree c := by
    intro c
    have hc := hle c
    rw [List.count_append] at hc
    omega
  obtain ⟨-, hin, -⟩ := foldl_release
    (s := { s with queue := rest, sorted := s.sorted ++ [node] }) hfirst
  have hchild := hle child
  rw [List.count_append, List.count_cons_self] at hchild
  rw [Pass.partway, hin]
  change 0 < s.indegree child - l.count child
  omega

/-- The loop keeps its invariant and ends with an empty queue. -/
theorem Inv.drain {s : Pass} (h : Inv n deps s) {fuel : ℕ}
    (hfuel : n ≤ s.sorted.length + fuel) :
    Inv n deps (drain (edges n deps).adjacency fuel s) ∧
      (drain (edges n deps).adjacency fuel s).queue = [] := by
  induction fuel generalizing s with
  | zero =>
      refine ⟨h, List.length_eq_zero_iff.mp ?_⟩
      have hlen := h.length_le
      change s.queue.length = 0
      omega
  | succ fuel ih =>
      rw [Toposort.drain]
      split
      · next hq => exact ⟨h, hq⟩
      · next node rest hq =>
          obtain ⟨htake, hsorted⟩ := h.take hq
          refine ih htake ?_
          rw [hsorted, List.length_append, List.length_singleton]
          omega

/-- The loop keeps its invariant. -/
theorem inv_pass (n : ℕ) (deps : ℕ → List ℕ) : Inv n deps (pass n deps) :=
  ((inv_start n deps).drain (Nat.le_add_left _ _)).1

/-- **The loop ends**: after `n` rounds its queue is empty. -/
theorem drain_queue (n : ℕ) (deps : ℕ → List ℕ) : (pass n deps).queue = [] :=
  ((inv_start n deps).drain (Nat.le_add_left _ _)).2

/-- More rounds change nothing once the queue is empty. -/
theorem drain_of_empty (adjacency : ℕ → List ℕ) (fuel : ℕ) {s : Pass} (h : s.queue = []) :
    drain adjacency fuel s = s := by
  cases fuel with
  | zero => rfl
  | succ fuel => simp [drain, h]

/-- Rounds after rounds. -/
theorem drain_add (adjacency : ℕ → List ℕ) (a b : ℕ) (s : Pass) :
    drain adjacency (a + b) s = drain adjacency b (drain adjacency a s) := by
  induction a generalizing s with
  | zero => rw [Nat.zero_add, drain]
  | succ a ih =>
      rw [Nat.succ_add, drain]
      cases hq : s.queue with
      | nil =>
          have hstop : drain adjacency (a + 1) s = s := drain_of_empty adjacency _ hq
          rw [hstop, drain_of_empty adjacency b hq]
      | cons node rest =>
          have hgo : drain adjacency (a + 1) s =
              drain adjacency a (s.take adjacency node rest) := by
            rw [drain, hq]
          rw [hgo, ← ih]

/-- **The loop ends within `n` rounds.** -/
theorem drain_eq_pass (n : ℕ) (deps : ℕ → List ℕ) {fuel : ℕ} (hfuel : n ≤ fuel) :
    drain (edges n deps).adjacency fuel (.start n (edges n deps)) = pass n deps := by
  obtain ⟨more, rfl⟩ := Nat.exists_eq_add_of_le hfuel
  rw [drain_add]
  exact drain_of_empty _ more (drain_queue n deps)

/-! ### The result -/

/-- **Nodes come after what they depend on**, and none comes twice. -/
theorem ready_toposort (n : ℕ) (deps : ℕ → List ℕ) : Ready deps [] (toposort n deps) :=
  (inv_pass n deps).ready

/-- No node is listed twice. -/
theorem nodup_toposort (n : ℕ) (deps : ℕ → List ℕ) : (toposort n deps).Nodup := by
  simpa using (ready_toposort n deps).nodup List.nodup_nil

/-- Only nodes are listed. -/
theorem lt_of_mem_toposort {a : ℕ} (h : a ∈ toposort n deps) : a < n :=
  (inv_pass n deps).bound a (List.mem_append_left _ h)

/-- A node is listed when all that it depends on is. -/
theorem mem_toposort_of_deps {a : ℕ} (ha : a < n) (h : ∀ d ∈ deps a, d ∈ toposort n deps) :
    a ∈ toposort n deps := by
  have hinv := inv_pass n deps
  have hzero : (pass n deps).indegree a = 0 := by
    rw [hinv.missing a ha, List.countP_eq_zero]
    intro d hd
    have hd' : d ∈ (pass n deps).sorted := h d hd
    simpa using hd'
  have hmem := (hinv.settled a ha).mpr hzero
  rwa [drain_queue, List.append_nil] at hmem

/-- **A node is listed exactly when it is neither on a cycle nor behind one.** -/
theorem mem_toposort (hdeps : ∀ a < n, ∀ d ∈ deps a, d < n) {a : ℕ} (ha : a < n) :
    a ∈ toposort n deps ↔ Acc (Dep deps) a := by
  constructor
  · exact (ready_toposort n deps).acc (by simp) a
  · intro hacc
    induction hacc with
    | intro a _ ih => exact mem_toposort_of_deps ha fun d hd => ih d hd (hdeps a ha d hd)

end Toposort
