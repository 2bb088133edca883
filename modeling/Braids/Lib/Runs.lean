import Mathlib.Data.List.Chain
import Mathlib.Order.Basic

/-!
# Runs of a Transition System

A program that several parties step in any order is given by its initial states and a
partial step function: `step s a = some s'` when action `a` is enabled in `s`. This
module fixes what a run reaches and how a property of all reached states is proved.

A run may be restricted: `ReachBy init step ok` allows an action only where `ok` holds
of the state it is taken in, so `Reach` is the case `ok = True`. Conditional results
("in every run that never does `x`, …") are stated over `ReachBy`.

## Main results

* `ReachBy.invariant`: a property that holds initially and is kept by every step of
  the restricted system holds of every reached state.
* `ReachBy.view`: the same for a property of an abstraction of the state, given that
  every step is matched by the abstract relation.
* `ReachBy.grows`: what every step lets grow has grown in every later state.
* `ReachBy.of_runs`: a computed run is a run.
* `TracedBy.invariant`, `TracedBy.isChain`: the same with the history of a run at hand, and
  what each step does to the view of a state holds along the whole history.
* `runs_le`: a quantity that grows only below another one stays at its high-water mark.
* `InevitableBy.common`: what two properties of final states make inevitable, one state has.
-/

namespace Lts

variable {St Act V : Type*}

/-- The states that a run reaches when each of its steps meets `ok` in the state it is
taken in. -/
inductive ReachBy (init : St → Prop) (step : St → Act → Option St) (ok : St → Act → Prop) :
    St → Prop
  | init {s : St} : init s → ReachBy init step ok s
  | step {s s' : St} {a : Act} :
      ReachBy init step ok s → ok s a → step s a = some s' → ReachBy init step ok s'

/-- The states that a run reaches. -/
abbrev Reach (init : St → Prop) (step : St → Act → Option St) : St → Prop :=
  ReachBy init step fun _ _ => True

variable {init : St → Prop} {step : St → Act → Option St} {ok ok' : St → Act → Prop}

/-- A run meets another restriction if its steps do, from the states that it reaches. -/
theorem ReachBy.meets (hok : ∀ s a s', ReachBy init step ok s → ok s a → step s a = some s' →
    ok' s a) {s : St} (h : ReachBy init step ok s) : ReachBy init step ok' s := by
  induction h with
  | init h0 => exact .init h0
  | step hr ha hs ih => exact .step ih (hok _ _ _ hr ha hs) hs

/-- Restricting a run less reaches at least as much. -/
theorem ReachBy.mono (hok : ∀ s a, ok s a → ok' s a) {s : St} (h : ReachBy init step ok s) :
    ReachBy init step ok' s :=
  h.meets fun s a _ _ ha _ => hok s a ha

/-- A restricted run is a run. -/
theorem ReachBy.reach {s : St} (h : ReachBy init step ok s) : Reach init step s :=
  h.mono fun _ _ _ => trivial

/-- **The invariant rule.** The step may use that the state before it is reached, so
invariants are proved one after the other. -/
theorem ReachBy.invariant {I : St → Prop} (h0 : ∀ s, init s → I s)
    (hstep : ∀ s a s', ReachBy init step ok s → I s → ok s a → step s a = some s' → I s')
    {s : St} (h : ReachBy init step ok s) : I s := by
  induction h with
  | init hi => exact h0 _ hi
  | step hr ha hs ih => exact hstep _ _ _ hr ih ha hs

/-- **The abstraction rule.** When every step is matched by the relation `R` on the
abstracted states, what `R` keeps holds of the abstraction of every reached state. -/
theorem ReachBy.view {view : St → V} {R : V → V → Prop} {P : V → Prop}
    (hstep : ∀ s a s', ReachBy init step ok s → ok s a → step s a = some s' →
      R (view s) (view s'))
    (h0 : ∀ s, init s → P (view s)) (hR : ∀ v v', P v → R v v' → P v')
    {s : St} (h : ReachBy init step ok s) : P (view s) :=
  h.invariant (I := fun s => P (view s)) h0
    fun _ _ _ hr hP ha hs => hR _ _ hP (hstep _ _ _ hr ha hs)

/-- A run goes on where another one has ended. -/
theorem ReachBy.trans {s s' : St} (h : ReachBy init step ok s)
    (h' : ReachBy (· = s) step ok s') : ReachBy init step ok s' := by
  induction h' with
  | init hs => exact hs ▸ h
  | step _ ha hs ih => exact .step ih ha hs

/-- **The rule for what grows.** A reflexive and transitive relation that every step from a
reached state respects relates a reached state to every later one. -/
theorem ReachBy.grows {R : St → St → Prop} (hrefl : ∀ s, R s s)
    (htrans : ∀ s t u, R s t → R t u → R s u)
    (hstep : ∀ s a s', ReachBy init step ok s → ok s a → step s a = some s' → R s s')
    {s s' : St} (h : ReachBy init step ok s) (h' : ReachBy (· = s) step ok s') : R s s' := by
  induction h' with
  | init hs => exact hs ▸ hrefl s
  | step hr ha hs ih => exact htrans _ _ _ ih (hstep _ _ _ (h.trans hr) ha hs)

/-! ### The history of a run -/

/-- A run with its history: what `view` shows of its states, the first one first. -/
inductive TracedBy (init : St → Prop) (step : St → Act → Option St) (ok : St → Act → Prop)
    (view : St → V) : List V → St → Prop
  | init {s : St} : init s → TracedBy init step ok view [view s] s
  | step {history : List V} {s s' : St} {a : Act} :
      TracedBy init step ok view history s → ok s a → step s a = some s' →
      TracedBy init step ok view (history ++ [view s']) s'

section History

variable {view : St → V} {history : List V}

/-- A run with its history is a run. -/
theorem TracedBy.reach {s : St} (h : TracedBy init step ok view history s) :
    ReachBy init step ok s := by
  induction h with
  | init h0 => exact .init h0
  | step _ ha hs ih => exact .step ih ha hs

/-- Every run has a history. -/
theorem ReachBy.traced {s : St} (view : St → V) (h : ReachBy init step ok s) :
    ∃ history, TracedBy init step ok view history s := by
  induction h with
  | init h0 => exact ⟨_, .init h0⟩
  | step _ ha hs ih =>
      obtain ⟨history, ih⟩ := ih
      exact ⟨_, .step ih ha hs⟩

/-- **The invariant rule** for properties of the state and the history. -/
theorem TracedBy.invariant {I : List V → St → Prop} (h0 : ∀ s, init s → I [view s] s)
    (hstep : ∀ history s a s', TracedBy init step ok view history s → I history s → ok s a →
      step s a = some s' → I (history ++ [view s']) s')
    {s : St} (h : TracedBy init step ok view history s) : I history s := by
  induction h with
  | init hi => exact h0 _ hi
  | step hr ha hs ih => exact hstep _ _ _ _ hr ih ha hs

/-- The history begins with an initial state. -/
theorem TracedBy.head {s : St} (h : TracedBy init step ok view history s) :
    ∃ first, init first ∧ history.head? = some (view first) := by
  induction h with
  | @init s hi => exact ⟨s, hi, rfl⟩
  | step _ _ _ ih =>
      obtain ⟨first, hi, hhead⟩ := ih
      exact ⟨first, hi, by rw [List.head?_append, hhead, Option.some_or]⟩

/-- The history ends with the state. -/
theorem TracedBy.getLast {s : St} (h : TracedBy init step ok view history s) :
    history.getLast? = some (view s) := by
  cases h with
  | init => rfl
  | step => exact List.getLast?_concat

/-- The state is in the history. -/
theorem TracedBy.mem {s : St} (h : TracedBy init step ok view history s) :
    view s ∈ history :=
  List.mem_of_getLast? h.getLast

/-- **What every step does to the view** relates each two states in a row of the history. -/
theorem TracedBy.isChain {R : V → V → Prop}
    (hstep : ∀ s a s', ReachBy init step ok s → ok s a → step s a = some s' →
      R (view s) (view s'))
    {s : St} (h : TracedBy init step ok view history s) : history.IsChain R := by
  induction h with
  | init => exact .singleton _
  | @step history s s' a hr ha hs ih =>
      refine List.isChain_append.mpr ⟨ih, .singleton _, fun x hx y hy => ?_⟩
      obtain rfl : view s = x := Option.some.inj (hr.getLast.symm.trans hx)
      obtain rfl : view s' = y := by simpa using hy
      exact hstep s a s' hr.reach ha hs

end History

/-! ### Computed runs -/

/-- The state after a list of actions, `none` when one of them is not enabled or does
not meet `ok`. -/
def runs (step : St → Act → Option St) (ok : St → Act → Prop) [∀ s a, Decidable (ok s a)] :
    St → List Act → Option St
  | s, [] => some s
  | s, a :: as => if ok s a then (step s a).bind fun s' => runs step ok s' as else none

/-- A computed run that starts in a reached state ends in a reached state. -/
theorem ReachBy.runs [∀ s a, Decidable (ok s a)] {as : List Act} {s s' : St}
    (hs : ReachBy init step ok s) (h : runs step ok s as = some s') :
    ReachBy init step ok s' := by
  induction as generalizing s with
  | nil =>
      obtain rfl : s = s' := by simpa [Lts.runs] using h
      exact hs
  | cons a as ih =>
      rw [Lts.runs] at h
      split at h
      · next ha =>
          obtain ⟨t, ht, h⟩ := Option.bind_eq_some_iff.mp h
          exact ih (.step hs ha ht) h
      · simp at h

/-- **The high-water rule.** When every step either lets `f` grow no further or leaves it below
`g`, then `f` after a run is at most what it was at the beginning, or what `g` was after some
part of the run. -/
theorem runs_le [∀ s a, Decidable (ok s a)] [Preorder V] {f g : St → V}
    (hstep : ∀ s a s', step s a = some s' → f s' ≤ f s ∨ f s' ≤ g s')
    {as : List Act} {s s' : St} (h : runs step ok s as = some s') :
    f s' ≤ f s ∨ ∃ i t, runs step ok s (as.take i) = some t ∧ f s' ≤ g t := by
  induction as generalizing s with
  | nil =>
      obtain rfl : s = s' := by simpa [Lts.runs] using h
      exact .inl le_rfl
  | cons a as ih =>
      rw [Lts.runs] at h
      split at h
      · next ha =>
          obtain ⟨t, ht, h⟩ := Option.bind_eq_some_iff.mp h
          have htake : ∀ i, runs step ok s ((a :: as).take (i + 1)) =
              runs step ok t (as.take i) := by
            intro i
            rw [List.take_succ_cons, Lts.runs, if_pos ha, ht, Option.bind_some]
          rcases ih h with hle | ⟨i, u, hu, hle⟩
          · rcases hstep s a t ht with hstep | hstep
            · exact .inl (hle.trans hstep)
            · exact .inr ⟨1, t, by rw [htake, List.take_zero, Lts.runs], hle.trans hstep⟩
          · exact .inr ⟨i + 1, u, by rw [htake, hu], hle⟩
      · simp at h

/-- A computed run from an initial state ends in a reached state. -/
theorem ReachBy.of_runs [∀ s a, Decidable (ok s a)] (as : List Act) {s s' : St}
    (hi : init s) (h : Lts.runs step ok s as = some s') : ReachBy init step ok s' :=
  (ReachBy.init hi).runs h

/-! ### What no choice avoids -/

/-- Whatever actions that meet `ok` are taken from a state on, a state with `P` comes. -/
inductive InevitableBy (step : St → Act → Option St) (ok : St → Act → Prop) (P : St → Prop) :
    St → Prop
  | here {s : St} : P s → InevitableBy step ok P s
  | step {s : St} (next : Act → St) : (∀ a, ok s a → step s a = some (next a)) →
      (∀ a, ok s a → InevitableBy step ok P (next a)) → InevitableBy step ok P s

/-- A step that no choice changes. -/
theorem InevitableBy.goto {P : St → Prop} {s t : St} (h : ∀ a, ok s a → step s a = some t)
    (hrest : InevitableBy step ok P t) : InevitableBy step ok P s :=
  .step (fun _ => t) h fun _ _ => hrest

/-- **What two properties make inevitable, one state has**: if a system cannot go on from the
states of either property, and can be stepped anywhere else, the two meet. -/
theorem InevitableBy.common {P Q : St → Prop} (hlive : ∀ s, ∃ a, ok s a)
    (hP : ∀ s a, P s → step s a = none) (hQ : ∀ s a, Q s → step s a = none) {s : St}
    (h : InevitableBy step ok P s) (h' : InevitableBy step ok Q s) : ∃ t, P t ∧ Q t := by
  induction h with
  | @here s hp =>
      cases h' with
      | here hq => exact ⟨s, hp, hq⟩
      | step next hnext =>
          obtain ⟨a, ha⟩ := hlive s
          exact absurd ((hP s a hp).symm.trans (hnext a ha)) (Option.some_ne_none _).symm
  | @step s next hnext _ ih =>
      obtain ⟨a, ha⟩ := hlive s
      cases h' with
      | here hq => exact absurd ((hQ s a hq).symm.trans (hnext a ha)) (Option.some_ne_none _).symm
      | step next' hnext' hrest' =>
          have heq : next a = next' a := Option.some.inj ((hnext a ha).symm.trans (hnext' a ha))
          exact ih a ha (heq ▸ hrest' a ha)

end Lts
