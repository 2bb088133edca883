import Braids.Executor.Machine

/-!
# Job Records

The record of a job in `stack.rs`: what the job's own tasks write into it, and the atomic
steps of `Stack::collect`. A record is written under its state lock, so every function
here is one critical section. Each writer also issues `wake.notify_all()` under the lock,
which empties the wait set.
-/

namespace Braids

/-- `JobRecordState`. -/
inductive JobRecordState (ρ : Type)
  | queued
  | running
  | completed (values : Option (List ρ))
  | failed (error : Option BraidError)
  | cancelled

/-- The states in which a job is over. -/
def JobRecordState.terminal {ρ : Type} : JobRecordState ρ → Bool
  | .queued | .running => false
  | .completed _ | .failed _ | .cancelled => true

/-- `JobRecord`, with the wait set of its condition variable `wake`. -/
structure JobRecord (ρ : Type) where
  state : JobRecordState ρ := .queued
  wake : List ThreadId := []
  cancel : Bool := false

namespace JobRecord

variable {ρ : Type}

/-- `mark_running`. -/
def markRunning (r : JobRecord ρ) : JobRecord ρ :=
  { r with state := .running, wake := [] }

/-- `finish_completed`. -/
def finishCompleted (r : JobRecord ρ) (values : List ρ) : JobRecord ρ :=
  { r with state := .completed (some values), wake := [] }

/-- `finish_failed`. -/
def finishFailed (r : JobRecord ρ) (error : BraidError) : JobRecord ρ :=
  { r with state := .failed (some error), wake := [] }

/-- `finish_cancelled`. -/
def finishCancelled (r : JobRecord ρ) : JobRecord ρ :=
  { r with state := .cancelled, wake := [] }

/-- The body of the loop in `collect`: take what the record holds, `none` to wait. -/
def take (r : JobRecord ρ) : JobRecord ρ × Option (BraidResult (List ρ)) :=
  match r.state with
  | .queued | .running => (r, none)
  | .completed values => ({ r with state := .completed none }, some (.ok (values.getD [])))
  | .failed error =>
      ({ r with state := .failed none }, some (.error (error.getD (.message "job failed"))))
  | .cancelled => (r, some (.error .cancelled))

/-- A collector enters the wait set. -/
def park (r : JobRecord ρ) (thread : ThreadId) : JobRecord ρ :=
  { r with wake := r.wake ++ [thread] }

/-- A collector leaves the wait set without a notification. -/
def unpark (r : JobRecord ρ) (thread : ThreadId) : JobRecord ρ :=
  { r with wake := r.wake.erase thread }

end JobRecord

/-- The program points of `Stack::collect`. -/
inductive CollectPoint (ρ : Type)
  /-- Look the record up under the jobs lock and clone it. -/
  | lookup
  /-- Take the payload under the record lock, or wait. -/
  | take
  /-- In `wake.wait`. -/
  | parked
  /-- Remove the id under the jobs lock. -/
  | remove (result : BraidResult (List ρ))
  | done (result : BraidResult (List ρ))

/-- One step of `Stack::collect` in thread `self`: whether the id is in the jobs table, the
record, and where the call goes on. It is `none` while the call is blocked or done. -/
def collectStep {ρ : Type} (self : ThreadId) (present : Bool) (r : JobRecord ρ) :
    CollectPoint ρ → Option (Bool × JobRecord ρ × CollectPoint ρ)
  | .lookup =>
      if present then some (present, r, .take)
      else some (present, r, .done (.error .unknownJob))
  | .take =>
      match r.take with
      | (r', none) => some (present, r'.park self, .parked)
      | (r', some result) => some (present, r', .remove result)
  | .parked => if self ∈ r.wake then none else some (present, r, .take)
  | .remove result => some (false, r, .done result)
  | .done _ => none

end Braids
