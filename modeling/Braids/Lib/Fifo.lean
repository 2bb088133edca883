import Mathlib.Data.List.Basic
import Mathlib.Data.List.Sublists

/-!
# First-In First-Out Histories

An admission queue in front of a limited resource is correct when nobody overtakes a
waiting party. `Event` lists what can happen at such a queue and `replay` runs a history
against the queue discipline: it returns the parties still waiting, or `none` as soon as
somebody is served out of turn. A history that replays is legal; `served_sublist` reads
off that in a legal history parties are served in the order in which they arrived.
-/

namespace Fifo

variable {α : Type*}

/-- What happens at an admission queue. -/
inductive Event (α : Type*)
  /-- A party joins the queue. -/
  | arrive (a : α)
  /-- A party is given the resource. -/
  | serve (a : α)
  /-- A party leaves the queue without the resource. -/
  | discard (a : α)
  /-- The resource is given to somebody who never queues. -/
  | bypass
  deriving DecidableEq

/-- One event against the waiting parties: only the head may be served or discarded, and
nobody may bypass a nonempty queue. -/
def advance [DecidableEq α] (waiting : List α) : Event α → Option (List α)
  | .arrive a => some (waiting ++ [a])
  | .serve a | .discard a => if waiting.head? = some a then some waiting.tail else none
  | .bypass => if waiting = [] then some [] else none

/-- The parties still waiting after a history, `none` if the history is not legal. -/
def replay [DecidableEq α] (history : List (Event α)) : Option (List α) :=
  history.foldlM advance []

/-- The parties that joined, in order. -/
def arrivals : List (Event α) → List α
  | [] => []
  | .arrive a :: es => a :: arrivals es
  | _ :: es => arrivals es

/-- The arrivals of two histories in sequence. -/
theorem arrivals_append (h h' : List (Event α)) :
    arrivals (h ++ h') = arrivals h ++ arrivals h' := by
  induction h with
  | nil => rfl
  | cons e h ih => cases e <;> simp [arrivals, ih]

/-- Nobody arrives by being discarded. -/
theorem arrivals_discard (w : List α) : arrivals (w.map .discard) = [] := by
  induction w with
  | nil => rfl
  | cons a w ih => simpa [arrivals] using ih

/-- The parties that were given the resource, in order. -/
def served : List (Event α) → List α
  | [] => []
  | .serve a :: es => a :: served es
  | _ :: es => served es

variable [DecidableEq α]

@[simp] theorem replay_nil : replay ([] : List (Event α)) = some [] := rfl

/-- A history extended by one event. -/
theorem replay_append_one (h : List (Event α)) (e : Event α) :
    replay (h ++ [e]) = (replay h).bind fun w => advance w e := by
  simp [replay, List.foldlM_append]

/-- A history extended by several events. -/
theorem foldlM_advance_append (w : List α) (h h' : List (Event α)) :
    (h ++ h').foldlM advance w = (h.foldlM advance w).bind fun w' => h'.foldlM advance w' := by
  simp [List.foldlM_append]

/-- Discarding the whole queue from its head is legal. -/
theorem replay_discard_all {h : List (Event α)} {w : List α} (hw : replay h = some w) :
    replay (h ++ w.map .discard) = some [] := by
  have key : ∀ v : List α, (v.map Event.discard).foldlM advance v = some [] := by
    intro v
    induction v with
    | nil => rfl
    | cons a v ih => simpa [List.foldlM_cons, advance] using ih
  rw [replay, foldlM_advance_append, show h.foldlM advance [] = some w from hw]
  exact key w

/-- **No overtaking.** From waiting parties `w`, a legal history serves a sublist of `w`
followed by the new arrivals. -/
theorem served_sublist_of_foldlM {h : List (Event α)} :
    ∀ {w w' : List α}, h.foldlM advance w = some w' →
      (served h ++ w').Sublist (w ++ arrivals h) := by
  induction h with
  | nil =>
      intro w w' hw
      obtain rfl : w = w' := by simpa using hw
      simp [served, arrivals]
  | cons e h ih =>
      intro w w' hw
      rw [List.foldlM_cons] at hw
      obtain ⟨v, hv, hw⟩ := Option.bind_eq_some_iff.mp hw
      have hsub := ih hw
      cases e with
      | arrive a =>
          obtain rfl : w ++ [a] = v := by simpa [advance] using hv
          simpa [served, arrivals] using hsub
      | serve a =>
          obtain ⟨hhead, rfl⟩ : w.head? = some a ∧ w.tail = v := by
            simpa [advance] using hv
          obtain ⟨t, rfl⟩ := List.head?_eq_some_iff.mp hhead
          simpa [served, arrivals] using hsub
      | discard a =>
          obtain ⟨hhead, rfl⟩ : w.head? = some a ∧ w.tail = v := by
            simpa [advance] using hv
          obtain ⟨t, rfl⟩ := List.head?_eq_some_iff.mp hhead
          exact hsub.trans (by simp [arrivals])
      | bypass =>
          obtain ⟨rfl, rfl⟩ : w = [] ∧ [] = v := by simpa [advance] using hv
          simpa [served, arrivals] using hsub

/-- **Service in arrival order**: in a legal history those served, followed by those still
waiting, are a sublist of the arrivals. -/
theorem served_sublist {h : List (Event α)} {w : List α} (hw : replay h = some w) :
    (served h ++ w).Sublist (arrivals h) := by
  simpa using served_sublist_of_foldlM (w := []) hw

end Fifo
