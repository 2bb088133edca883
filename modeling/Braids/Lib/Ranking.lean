import Mathlib.Order.WellFounded

/-!
# Runs That End

A transition system is given by its partial step function, as in `Braids.Lib.Runs`. `EndsIn`
says of a state that every run from it is finite and where these runs end. It is proved from a
rank in a well-founded order that every step decreases.

## Main results

* `EndsIn.of_rank`: the ranking rule.
-/

namespace Lts

variable {St Act V : Type*}

/-- Every run from the state on whose steps meet `ok` is finite, and `P` holds of the state in
which it cannot go on. -/
inductive EndsIn (step : St → Act → Option St) (ok : St → Act → Prop) (P : St → Prop) : St → Prop
  | intro {s : St} (hend : (∀ a, ok s a → step s a = none) → P s)
      (hnext : ∀ a s', ok s a → step s a = some s' → EndsIn step ok P s') : EndsIn step ok P s

/-- **The ranking rule.** When every step keeps an invariant and decreases a rank, and states
with the invariant that cannot be left have `P`, all runs end with `P`. -/
theorem EndsIn.of_rank [Preorder V] [WellFoundedLT V] {step : St → Act → Option St}
    {ok : St → Act → Prop} {P I : St → Prop} (rank : St → V)
    (hstep : ∀ s a s', I s → ok s a → step s a = some s' → I s' ∧ rank s' < rank s)
    (hend : ∀ s, I s → (∀ a, ok s a → step s a = none) → P s) {s : St} (hs : I s) :
    EndsIn step ok P s := by
  induction hv : rank s using WellFoundedLT.induction generalizing s with
  | ind v ih =>
      subst hv
      refine .intro (hend s hs) fun a s' ha hs' => ?_
      obtain ⟨hinv, hlt⟩ := hstep s a s' hs ha hs'
      exact ih _ hlt hinv rfl

end Lts
