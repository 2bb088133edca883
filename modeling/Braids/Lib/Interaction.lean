import Mathlib.Tactic.Common

/-!
# Programs that Talk to a State

A program that can touch a state only through a fixed set of operations is a tree: it ends
with a result, or it calls one operation and goes on as the answer tells. `run` carries it
out over any implementation of the operations, which may fail to answer.

Two implementations that answer alike from related states cannot be told apart by any
program: `run_sim`. If they answer alike only to some operations, depending on those before, they
cannot be told apart by a program that keeps to these: `run_sim_admitted`.
-/

namespace Interaction

/-- A program over the operations `Op`, which are answered in `Ans`. -/
inductive Prog (Op : Type) (Ans : Op → Type) (α : Type) : Type
  | done (a : α)
  | call (op : Op) (next : Ans op → Prog Op Ans α)

variable {Op : Type} {Ans : Op → Type} {S T α : Type}

/-- An implementation of the operations on a state. -/
abbrev Impl (Op : Type) (Ans : Op → Type) (S : Type) :=
  (op : Op) → S → Option (Ans op × S)

/-- Carry out a program. -/
def Prog.run (step : Impl Op Ans S) : Prog Op Ans α → S → Option (α × S)
  | .done a, s => some (a, s)
  | .call op next, s => (step op s).bind fun r => (next r.1).run step r.2

/-- One program after another. -/
def Prog.bind {β : Type} : Prog Op Ans α → (α → Prog Op Ans β) → Prog Op Ans β
  | .done a, f => f a
  | .call op next, f => .call op fun answer => (next answer).bind f

/-- The second program starts where the first one ends. -/
theorem Prog.run_bind {β : Type} (step : Impl Op Ans S) (p : Prog Op Ans α)
    (f : α → Prog Op Ans β) (s : S) :
    (p.bind f).run step s = (p.run step s).bind fun r => (f r.1).run step r.2 := by
  induction p generalizing s with
  | done a => rfl
  | call op next ih =>
      rw [Prog.bind, run, run, Option.bind_assoc]
      exact congrArg _ (funext fun r => ih r.1 r.2)

/-! ### Programs that keep to some operations -/

section Admitted

variable {I : Type} {admits : I → Op → Prop} {after : I → Op → I} {ends : I → α → Prop}

/-- The program calls only operations that are admitted, which depends on an index that each
operation changes, and ends only as the index there allows. -/
def Prog.Admitted (admits : I → Op → Prop) (after : I → Op → I) (ends : I → α → Prop) :
    I → Prog Op Ans α → Prop
  | i, .done a => ends i a
  | i, .call op next =>
      admits i op ∧ ∀ answer, (next answer).Admitted admits after ends (after i op)

/-- A program keeps to the operations if all of them are admitted at the indices that it can get
to. -/
theorem Prog.admitted_of_closed {J : I → Prop} (hop : ∀ i op, J i → admits i op ∧ J (after i op))
    (hends : ∀ i a, J i → ends i a) (p : Prog Op Ans α) {i : I} (hi : J i) :
    p.Admitted admits after ends i := by
  induction p generalizing i with
  | done a => exact hends i a hi
  | call op next ih => exact ⟨(hop i op hi).1, fun answer => ih answer (hop i op hi).2⟩

/-- Two implementations answer alike to the operations that are admitted, from states that are
related at the index, and keep them related. -/
def AlikeAt (admits : I → Op → Prop) (after : I → Op → I) (R : I → S → T → Prop)
    (step : Impl Op Ans S) (step' : Impl Op Ans T) : Prop :=
  ∀ i op s t, admits i op → R i s t →
    ∃ a s' t', step op s = some (a, s') ∧ step' op t = some (a, t') ∧ R (after i op) s' t'

/-- **The simulation rule** for a program that keeps to the operations that are admitted. -/
theorem Prog.run_sim_admitted {R : I → S → T → Prop} {step : Impl Op Ans S}
    {step' : Impl Op Ans T} (halike : AlikeAt admits after R step step') {p : Prog Op Ans α}
    {i : I} (hp : p.Admitted admits after ends i) {s : S} {t : T} (h : R i s t) :
    ∃ a s' t' j, p.run step s = some (a, s') ∧ p.run step' t = some (a, t') ∧ R j s' t' ∧
      ends j a := by
  induction p generalizing i s t with
  | done a => exact ⟨a, s, t, i, rfl, rfl, h, hp⟩
  | call op next ih =>
      obtain ⟨hop, hnext⟩ := hp
      obtain ⟨b, s₁, t₁, hs, ht, h₁⟩ := halike i op s t hop h
      obtain ⟨a, s', t', j, hs', ht', h', hend⟩ := ih b (hnext b) h₁
      exact ⟨a, s', t', j, by simp [run, hs, hs'], by simp [run, ht, ht'], h', hend⟩

end Admitted

/-- Two implementations answer alike from states related by `R`, and keep them related. -/
def Alike (R : S → T → Prop) (step : Impl Op Ans S) (step' : Impl Op Ans T) : Prop :=
  ∀ op s t, R s t →
    ∃ a s' t', step op s = some (a, s') ∧ step' op t = some (a, t') ∧ R s' t'

/-- **The simulation rule.** A program does not see the difference between two
implementations that answer alike. -/
theorem Prog.run_sim {R : S → T → Prop} {step : Impl Op Ans S} {step' : Impl Op Ans T}
    (halike : Alike R step step') (p : Prog Op Ans α) {s : S} {t : T} (h : R s t) :
    ∃ a s' t', p.run step s = some (a, s') ∧ p.run step' t = some (a, t') ∧ R s' t' := by
  have hat : AlikeAt (fun (_ : Unit) _ => True) (fun _ _ => ()) (fun _ => R) step step' :=
    fun _ op s t _ hst => halike op s t hst
  have hp : p.Admitted (fun (_ : Unit) _ => True) (fun _ _ => ()) (fun _ _ => True) () :=
    p.admitted_of_closed (J := fun _ => True) (fun _ _ _ => ⟨trivial, trivial⟩)
      (fun _ _ _ => trivial) trivial
  obtain ⟨a, s', t', -, hs, ht, h', -⟩ := Prog.run_sim_admitted hat hp h
  exact ⟨a, s', t', hs, ht, h'⟩

end Interaction
