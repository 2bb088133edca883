import Braids.Lib.Dataflow

/-!
# Bisimilar Dataflow Graphs

Two nodes do the same if they compute alike and their references stand, pair by pair, for nodes
that do the same. What references are called, which other nodes there are, and whether equal
nodes are shared makes no difference to a value.

## Main results

* `Bisimulation.eval_eq`: paired nodes have the same value.
-/

namespace Dataflow

/-- Lists whose elements are mapped alike are mapped alike. -/
theorem mapM_eq_of_forall₂ {α α' β : Type} {f : α → Option β} {f' : α' → Option β} {l : List α}
    {l' : List α'} (h : List.Forall₂ (fun a a' => f a = f' a') l l') : l.mapM f = l'.mapM f' := by
  induction h with
  | nil => rfl
  | cons hab _ ih => rw [List.mapM_cons, List.mapM_cons, hab, ih]

/-- Going on from related values, or from none. -/
theorem bind_eq_of_rel {α α' β : Type} {r : α → α' → Prop} {a : Option α} {a' : Option α'}
    {f : α → Option β} {f' : α' → Option β} (h : Option.Rel r a a')
    (hf : ∀ x x', r x x' → f x = f' x') : a.bind f = a'.bind f' := by
  cases h with
  | none => rfl
  | some hx => exact hf _ _ hx

namespace Graph

variable {R R' N N' V : Type} {g : Graph R N V} {g' : Graph R' N' V} {S : N → N' → Prop}

/-- Paired nodes compute alike, and their references stand for paired nodes, or for none. -/
structure Bisimulation (g : Graph R N V) (g' : Graph R' N' V) (S : N → N' → Prop) : Prop where
  compute : ∀ {n n'}, S n n' → g.compute n = g'.compute n'
  references : ∀ {n n'}, S n n' →
    List.Forall₂ (fun r r' => Option.Rel S (g.node r) (g'.node r'))
      (g.references n) (g'.references n')

/-- **Paired nodes have the same value**, and lack one alike. -/
theorem Bisimulation.eval_eq (h : Bisimulation g g' S) {n : N} {n' : N'} (hn : S n n')
    (fuel : ℕ) : g.eval fuel n = g'.eval fuel n' := by
  induction fuel generalizing n n' with
  | zero => rfl
  | succ fuel ih =>
      have hargs : ((g.references n).mapM fun r => (g.node r).bind (g.eval fuel)) =
          (g'.references n').mapM fun r => (g'.node r).bind (g'.eval fuel) := by
        refine mapM_eq_of_forall₂ ((h.references hn).imp fun r r' hrel => ?_)
        exact bind_eq_of_rel hrel fun _ _ => ih
      rw [eval, eval, hargs, h.compute hn]

end Graph

end Dataflow
