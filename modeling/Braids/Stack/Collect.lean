import Mathlib.Tactic.Common
import Braids.Stack.Jobs
import Braids.Lib.Runs

/-!
# Collecting a Job

Any number of `Stack::collect` calls on one job, interleaved with the life of its record.
Lookup, take and removal are three separately locked steps, so a second caller can hold
the record when the first has taken the payload. It then finds `Completed(None)` and
returns the default, an empty batch. `LateTake` is that step; without it the batch is
delivered whole and once.

## Main results

* `PayloadOnce.step`: every step but a late take keeps the payload in one place.
* `delivered_whole`: without late takes the batch is delivered whole or not at all.
* `delivered_whole_in_turn`: calls that do not overlap make no late take.
* `delivered_twice`: a run with a late take in which the second caller gets nothing.
* `lateTake_defaults`: every late take ends in an empty batch.
-/

namespace Braids

/-- One job: whether its id is in the jobs table, its record, the calls of `collect` on
it, and, as a ghost, the batch it completed with. -/
structure Collecting (ρ : Type) where
  present : Bool := true
  record : JobRecord ρ := {}
  callers : List (CollectPoint ρ) := []
  decoded : Option (List ρ) := none

/-- How a job ends. -/
inductive JobEnd (ρ : Type)
  | completed (values : List ρ)
  | failed (error : BraidError)
  | cancelled

/-- What can happen to a job and its collectors. -/
inductive CollectAct (ρ : Type)
  /-- A thread calls `collect`. -/
  | call
  /-- Call `caller` takes a step. -/
  | step (caller : ThreadId)
  /-- A parked caller wakes up unasked. -/
  | spurious (caller : ThreadId)
  /-- The encode task marks the job as running. -/
  | run
  /-- The job ends. It can end again, as when a task is rejected and its submission also
  returns the error, but not after the decode task has completed it. -/
  | finish (how : JobEnd ρ)

variable {ρ : Type}

/-- One step of a job and its collectors. -/
def Collecting.step (s : Collecting ρ) : CollectAct ρ → Option (Collecting ρ)
  | .call => some { s with callers := s.callers ++ [.lookup] }
  | .step i => do
      let point ← s.callers[i]?
      let (present, record, point) ← collectStep i s.present s.record point
      return { s with present, record, callers := s.callers.set i point }
  | .spurious i => some { s with record := s.record.unpark i }
  | .run =>
      match s.record.state with
      | .queued => some { s with record := s.record.markRunning }
      | _ => none
  | .finish how =>
      match s.record.state, how with
      | .completed _, _ => none
      | _, .completed values =>
          some { s with record := s.record.finishCompleted values, decoded := some values }
      | _, .failed error => some { s with record := s.record.finishFailed error }
      | _, .cancelled => some { s with record := s.record.finishCancelled }

/-- A job that was just inserted, and nobody collects yet. -/
def Collecting.Fresh (s : Collecting ρ) : Prop := s = {}

/-- A batch is delivered whole or not at all. -/
structure DeliveredWhole (s : Collecting ρ) : Prop where
  /-- Who returns `Ok` returns the decoded batch. -/
  whole : ∀ (i : ThreadId) (values : List ρ),
    s.callers[i]? = some (.done (.ok values)) → s.decoded = some values
  /-- At most one caller returns `Ok`. -/
  once : ∀ (i j : ThreadId) (values values' : List ρ),
    s.callers[i]? = some (.done (.ok values)) → s.callers[j]? = some (.done (.ok values')) →
      i = j

/-- The step at which a caller takes a payload that was already taken. -/
def LateTake (s : Collecting ρ) : CollectAct ρ → Prop
  | .step i => s.callers[i]?.any (fun p => p matches .take) = true ∧
      (s.record.state matches .completed none) = true
  | _ => False

instance (s : Collecting ρ) (a : CollectAct ρ) : Decidable (LateTake s a) := by
  cases a <;> simp only [LateTake] <;> infer_instance

/-- The batch that a caller has taken. -/
def CollectPoint.taken : CollectPoint ρ → Option (List ρ)
  | .remove (.ok values) | .done (.ok values) => some values
  | _ => none

/-- The payload is in one place: still undecoded, in the record, or with one caller. -/
structure PayloadOnce (s : Collecting ρ) : Prop where
  taken : ∀ (i : ThreadId) (p : CollectPoint ρ) (values : List ρ), s.callers[i]? = some p →
    p.taken = some values → s.decoded = some values ∧ s.record.state = .completed none
  once : ∀ (i j : ThreadId) (p q : CollectPoint ρ), s.callers[i]? = some p →
    s.callers[j]? = some q → p.taken.isSome → q.taken.isSome → i = j
  kept : ∀ values : List ρ, s.record.state = .completed (some values) → s.decoded = some values

/-! ### The steps of a collector -/

/-- What one step of a collector does. -/
inductive CollectStep (self : ThreadId) (present : Bool) (r : JobRecord ρ) :
    CollectPoint ρ → Bool → JobRecord ρ → CollectPoint ρ → Prop
  | found (h : present = true) : CollectStep self present r .lookup present r .take
  | unknown (h : present = false) :
      CollectStep self present r .lookup present r (.done (.error .unknownJob))
  | wait (h : r.state.terminal = false) :
      CollectStep self present r .take present (r.park self) .parked
  | takeOk {values : Option (List ρ)} (h : r.state = .completed values) :
      CollectStep self present r .take present { r with state := .completed none }
        (.remove (.ok (values.getD [])))
  | takeFailed {error : Option BraidError} (h : r.state = .failed error) :
      CollectStep self present r .take present { r with state := .failed none }
        (.remove (.error (error.getD (.message "job failed"))))
  | takeCancelled (h : r.state = .cancelled) :
      CollectStep self present r .take present r (.remove (.error .cancelled))
  | woken (h : self ∉ r.wake) : CollectStep self present r .parked present r .take
  | remove {result : BraidResult (List ρ)} :
      CollectStep self present r (.remove result) false r (.done result)

/-- Every step of a collector is a `CollectStep`. -/
theorem collectStep_cases {self : ThreadId} {present present' : Bool} {r r' : JobRecord ρ}
    {p p' : CollectPoint ρ} (h : collectStep self present r p = some (present', r', p')) :
    CollectStep self present r p present' r' p' := by
  cases p with
  | lookup =>
      simp only [collectStep] at h
      split at h <;> simp only [Option.some.injEq, Prod.mk.injEq] at h <;>
        obtain ⟨rfl, rfl, rfl⟩ := h
      · next hp => exact .found hp
      · next hp => exact .unknown (by simpa using hp)
  | take =>
      simp only [collectStep, JobRecord.take] at h
      cases hs : r.state with
      | queued | running =>
          simp only [hs, Option.some.injEq, Prod.mk.injEq] at h
          obtain ⟨rfl, rfl, rfl⟩ := h
          exact .wait (by simp [hs, JobRecordState.terminal])
      | completed values =>
          simp only [hs, Option.some.injEq, Prod.mk.injEq] at h
          obtain ⟨rfl, rfl, rfl⟩ := h
          exact .takeOk hs
      | failed error =>
          simp only [hs, Option.some.injEq, Prod.mk.injEq] at h
          obtain ⟨rfl, rfl, rfl⟩ := h
          exact .takeFailed hs
      | cancelled =>
          simp only [hs, Option.some.injEq, Prod.mk.injEq] at h
          obtain ⟨rfl, rfl, rfl⟩ := h
          exact .takeCancelled hs
  | parked =>
      simp only [collectStep] at h
      split at h
      · simp at h
      · next hw =>
          simp only [Option.some.injEq, Prod.mk.injEq] at h
          obtain ⟨rfl, rfl, rfl⟩ := h
          exact .woken hw
  | remove result =>
      simp only [collectStep, Option.some.injEq, Prod.mk.injEq] at h
      obtain ⟨rfl, rfl, rfl⟩ := h
      exact .remove
  | done result => simp [collectStep] at h

/-! ### The payload is in one place -/

/-- A caller after one of them moved on to point `p`. -/
theorem callers_set_cases {callers : List (CollectPoint ρ)} {i j : ThreadId}
    {p q : CollectPoint ρ} (h : (callers.set i p)[j]? = some q) :
    (i = j ∧ q = p) ∨ (i ≠ j ∧ callers[j]? = some q) := by
  rw [List.getElem?_set] at h
  by_cases hij : i = j
  · rw [if_pos hij] at h
    obtain ⟨-, hp⟩ := Option.ite_none_right_eq_some.mp h
    exact .inl ⟨hij, (Option.some.inj hp).symm⟩
  · rw [if_neg hij] at h
    exact .inr ⟨hij, h⟩

/-- Replacing a caller who has taken nothing by one who has taken nothing. -/
theorem PayloadOnce.set {s : Collecting ρ} (hs : PayloadOnce s) {i : ThreadId}
    {p : CollectPoint ρ} (hp : p.taken = none) {present : Bool} {record : JobRecord ρ}
    (hstate : record.state = s.record.state) :
    PayloadOnce { s with present, record, callers := s.callers.set i p } := by
  have hother : ∀ (j : ThreadId) (q : CollectPoint ρ),
      (s.callers.set i p)[j]? = some q → q.taken.isSome → s.callers[j]? = some q := by
    intro j q hq hsome
    rcases callers_set_cases hq with ⟨-, rfl⟩ | ⟨-, hq⟩
    · simp [hp] at hsome
    · exact hq
  refine ⟨?_, ?_, ?_⟩
  · intro j q values hq hv
    have h := hs.taken j q values (hother j q hq (by simp [hv])) hv
    exact ⟨h.1, hstate.trans h.2⟩
  · intro j k q q' hq hq' hsome hsome'
    exact hs.once j k q q' (hother j q hq hsome) (hother k q' hq' hsome') hsome hsome'
  · intro values h
    exact hs.kept values (hstate.symm.trans h)

/-- While nobody has taken anything, a caller may take the payload. -/
theorem PayloadOnce.give {s : Collecting ρ} {i : ThreadId} {p : CollectPoint ρ}
    {present : Bool} {record : JobRecord ρ} {values : List ρ}
    (hnone : ∀ (j : ThreadId) (q : CollectPoint ρ), s.callers[j]? = some q → q.taken = none)
    (hp : p.taken = some values) (hdec : s.decoded = some values)
    (hstate : record.state = .completed none) :
    PayloadOnce { s with present, record, callers := s.callers.set i p } := by
  have honly : ∀ (j : ThreadId) (q : CollectPoint ρ),
      (s.callers.set i p)[j]? = some q → q.taken.isSome → j = i ∧ q = p := by
    intro j q hq hsome
    rcases callers_set_cases hq with ⟨rfl, rfl⟩ | ⟨-, hq⟩
    · exact ⟨rfl, rfl⟩
    · simp [hnone j q hq] at hsome
  refine ⟨?_, ?_, ?_⟩
  · intro j q values' hq hv
    obtain ⟨rfl, rfl⟩ := honly j q hq (by simp [hv])
    obtain rfl : values = values' := Option.some.inj (hp.symm.trans hv)
    exact ⟨hdec, hstate⟩
  · intro j k q q' hq hq' hsome hsome'
    rw [(honly j q hq hsome).1, (honly k q' hq' hsome').1]
  · intro values' h
    rw [hstate] at h
    simp at h

/-- Nobody has taken anything while the record is not emptied. -/
theorem PayloadOnce.none_taken {s : Collecting ρ} (hs : PayloadOnce s)
    (h : s.record.state ≠ .completed none) (i : ThreadId) (p : CollectPoint ρ)
    (hi : s.callers[i]? = some p) : p.taken = none := by
  by_contra hne
  obtain ⟨values, hv⟩ := Option.ne_none_iff_exists'.mp hne
  exact h (hs.taken i p values hi hv).2

/-- A change of the record that keeps the payload where it is. -/
theorem PayloadOnce.of_not_emptied {s : Collecting ρ} (hs : PayloadOnce s)
    (h : s.record.state ≠ .completed none) {record : JobRecord ρ} {decoded : Option (List ρ)}
    (hkept : ∀ values, record.state = .completed (some values) → decoded = some values) :
    PayloadOnce { s with record, decoded } := by
  refine ⟨?_, ?_, hkept⟩
  · intro i p values hi hv
    simp [hs.none_taken h i p hi] at hv
  · intro i j p q hi _ hsome
    simp [hs.none_taken h i p hi] at hsome

/-- **Every step but a late take keeps the payload in one place.** -/
theorem PayloadOnce.step {s s' : Collecting ρ} {a : CollectAct ρ} (hs : PayloadOnce s)
    (hlate : ¬ LateTake s a) (h : s.step a = some s') : PayloadOnce s' := by
  cases a with
  | call =>
      obtain rfl := Option.some.inj h
      have hold : ∀ (i : ThreadId) (p : CollectPoint ρ),
          (s.callers ++ [.lookup])[i]? = some p → p.taken.isSome → s.callers[i]? = some p := by
        intro i p hi hsome
        rcases lt_or_ge i s.callers.length with hlt | hge
        · rwa [List.getElem?_append_left hlt] at hi
        · rw [List.getElem?_append_right hge] at hi
          obtain rfl := List.mem_singleton.mp (List.mem_of_getElem? hi)
          simp [CollectPoint.taken] at hsome
      refine ⟨?_, ?_, hs.kept⟩
      · intro i p values hi hv
        exact hs.taken i p values (hold i p hi (by simp [hv])) hv
      · intro i j p q hi hj hp hq
        exact hs.once i j p q (hold i p hi hp) (hold j q hj hq) hp hq
  | spurious i =>
      obtain rfl := Option.some.inj h
      exact ⟨hs.taken, hs.once, hs.kept⟩
  | run =>
      simp only [Collecting.step] at h
      split at h
      · next hq =>
          obtain rfl := Option.some.inj h
          exact hs.of_not_emptied (by simp [hq]) (by simp [JobRecord.markRunning])
      · simp at h
  | finish how =>
      have hne : s.record.state ≠ .completed none := by
        intro hc
        simp [Collecting.step, hc] at h
      simp only [Collecting.step] at h
      split at h
      · simp at h
      · obtain rfl := Option.some.inj h
        exact hs.of_not_emptied hne (by simp [JobRecord.finishCompleted])
      · obtain rfl := Option.some.inj h
        exact hs.of_not_emptied hne (by simp [JobRecord.finishFailed])
      · obtain rfl := Option.some.inj h
        exact hs.of_not_emptied hne (by simp [JobRecord.finishCancelled])
  | step i =>
      simp only [Collecting.step, bind, Option.bind_eq_some_iff, Option.pure_def,
        Option.some.injEq] at h
      obtain ⟨p, hp, ⟨present, record, p'⟩, hstep, rfl⟩ := h
      cases collectStep_cases hstep with
      | found | unknown | wait | takeCancelled | woken => exact hs.set rfl rfl
      | @takeOk values hstate =>
          cases values with
          | none => exact absurd ⟨by simp [hp], by simp [hstate]⟩ hlate
          | some values =>
              have hne : s.record.state ≠ .completed none := by simp [hstate]
              exact PayloadOnce.give (hs.none_taken hne) rfl (hs.kept values hstate) rfl
      | @takeFailed error hstate =>
          have hne : s.record.state ≠ .completed none := by simp [hstate]
          have hnone : PayloadOnce { s with record := { s.record with state := .failed none } } :=
            hs.of_not_emptied hne (by simp)
          exact hnone.set rfl rfl
      | @remove result =>
          have hsame : (CollectPoint.done result).taken = (CollectPoint.remove result).taken := by
            cases result <;> rfl
          have hback : ∀ (j : ThreadId) (q : CollectPoint ρ),
              (s.callers.set i (.done result))[j]? = some q →
                ∃ q', s.callers[j]? = some q' ∧ q'.taken = q.taken := by
            intro j q hq
            rcases callers_set_cases hq with ⟨rfl, rfl⟩ | ⟨-, hq⟩
            · exact ⟨_, hp, hsame.symm⟩
            · exact ⟨q, hq, rfl⟩
          refine ⟨?_, ?_, hs.kept⟩
          · intro j q values hq hv
            obtain ⟨q', hq', htaken⟩ := hback j q hq
            exact hs.taken j q' values hq' (htaken.trans hv)
          · intro j k q r hq hr hsome hsome'
            obtain ⟨q', hq', htaken⟩ := hback j q hq
            obtain ⟨r', hr', htaken'⟩ := hback k r hr
            exact hs.once j k q' r' hq' hr' (htaken ▸ hsome) (htaken' ▸ hsome')

/-- **Without late takes a batch is delivered whole or not at all**, for any number of
callers and any interleaving. -/
theorem delivered_whole {s : Collecting ρ}
    (h : Lts.ReachBy Collecting.Fresh Collecting.step (fun s a => ¬ LateTake s a) s) :
    DeliveredWhole s := by
  have hs : PayloadOnce s := by
    refine h.invariant ?_ fun s a s' _ hs hlate hstep => hs.step hlate hstep
    rintro s rfl
    constructor <;> simp
  refine ⟨?_, ?_⟩
  · intro i values hi
    exact (hs.taken i _ values hi rfl).1
  · intro i j values values' hi hj
    exact hs.once i j _ _ hi hj rfl rfl

/-- A job completes with `[7]` while one caller waits and another comes later. -/
def collectOrderly : List (CollectAct ℕ) :=
  [.call, .step 0, .step 0, .run, .finish (.completed [7]), .call, .step 0, .step 0, .step 0,
    .step 1]

/-- The waiting caller gets the batch, the other one learns that the job is unknown. -/
theorem delivered_whole_orderly :
    ∃ s : Collecting ℕ, s.callers[0]? = some (.done (.ok [7])) ∧
      s.callers[1]? = some (.done (.error .unknownJob)) ∧ DeliveredWhole s :=
  ⟨_, rfl, rfl, delivered_whole (.of_runs collectOrderly (show Collecting.Fresh {} from rfl) rfl)⟩

/-! ### Callers that take turns -/

/-- The call has not returned. -/
def CollectPoint.inside : CollectPoint ρ → Bool
  | .done _ => false
  | _ => true

/-- The caller may still come to take the payload. -/
def CollectPoint.mayTake (present : Bool) : CollectPoint ρ → Bool
  | .lookup => present
  | .take | .parked => true
  | .remove _ | .done _ => false

/-- Whoever may still come to take the payload is inside. -/
theorem CollectPoint.inside_of_mayTake {present : Bool} {p : CollectPoint ρ}
    (h : p.mayTake present = true) : p.inside = true := by
  cases p <;> first | rfl | cases h

/-- A thread calls `collect` while a call of another one has not returned. -/
def Overlaps (s : Collecting ρ) : CollectAct ρ → Prop
  | .call => ∃ p ∈ s.callers, p.inside = true
  | _ => False

/-- The callers take turns: the payload is there for whoever may take it, and whoever has taken it
removes the id before anybody else looks it up. -/
structure TakesTurns (s : Collecting ρ) : Prop where
  alone : ∀ (i j : ThreadId) (p q : CollectPoint ρ), s.callers[i]? = some p →
    s.callers[j]? = some q → p.inside = true → q.inside = true → i = j
  before : ∀ (i : ThreadId) (p : CollectPoint ρ), s.callers[i]? = some p →
    p.mayTake s.present = true → s.record.state ≠ .completed none
  after : s.record.state = .completed none → s.present = true →
    ∃ (i : ThreadId) (result : BraidResult (List ρ)), s.callers[i]? = some (.remove result)

/-- A change of the record that does not take the payload. -/
theorem TakesTurns.of_state {s : Collecting ρ} (h : TakesTurns s) {record : JobRecord ρ}
    {decoded : Option (List ρ)}
    (hstate : record.state ≠ .completed none ∨ record.state = s.record.state) :
    TakesTurns { s with record, decoded } := by
  refine ⟨h.alone, fun i p hi hp => ?_, fun hnone => ?_⟩
  · rcases hstate with hne | hsame
    · exact hne
    · exact hsame ▸ h.before i p hi hp
  · rcases hstate with hne | hsame
    · exact (hne hnone).elim
    · exact h.after (hsame ▸ hnone)

/-- A caller goes on, and the record stays as it is or the caller is the only one inside. -/
theorem TakesTurns.set {s : Collecting ρ} (h : TakesTurns s) {i : ThreadId}
    {p p' : CollectPoint ρ} (hp : s.callers[i]? = some p) (hinside : p.inside = true)
    {present : Bool} {record : JobRecord ρ}
    (hbefore : p'.mayTake present = true → record.state ≠ .completed none)
    (hafter : record.state = .completed none → present = true → ∃ result, p' = .remove result) :
    TakesTurns { s with present, record, callers := s.callers.set i p' } := by
  have hold : ∀ (j : ThreadId) (q : CollectPoint ρ), (s.callers.set i p')[j]? = some q →
      q.inside = true → i = j ∧ q = p' := by
    intro j q hq hin
    rcases callers_set_cases hq with hsame | ⟨hne, hq⟩
    · exact hsame
    · exact (hne (h.alone i j p q hp hq hinside hin)).elim
  refine ⟨fun j k q q' hq hq' hin hin' => ?_, fun j q hq hmay => ?_, fun hnone hpresent => ?_⟩
  · exact (hold j q hq hin).1.symm.trans (hold k q' hq' hin').1
  · obtain ⟨-, rfl⟩ := hold j q hq (CollectPoint.inside_of_mayTake hmay)
    exact hbefore hmay
  · obtain ⟨result, rfl⟩ := hafter hnone hpresent
    have hlt : i < s.callers.length := (List.getElem?_eq_some_iff.mp hp).1
    exact ⟨i, result, by simp [hlt]⟩

/-- **Callers that do not overlap take turns.** -/
theorem TakesTurns.step {s s' : Collecting ρ} {a : CollectAct ρ} (h : TakesTurns s)
    (halone : ¬ Overlaps s a) (hstep : s.step a = some s') : TakesTurns s' := by
  cases a with
  | call =>
      obtain rfl := Option.some.inj hstep
      have hout : ∀ (i : ThreadId) (p : CollectPoint ρ), s.callers[i]? = some p →
          p.inside = false := by
        intro i p hi
        by_contra hin
        exact halone ⟨p, List.mem_of_getElem? hi, by simpa using hin⟩
      have hnew : ∀ (i : ThreadId) (p : CollectPoint ρ), (s.callers ++ [.lookup])[i]? = some p →
          p.inside = true → i = s.callers.length ∧ p = .lookup := by
        intro i p hi hin
        rcases lt_or_ge i s.callers.length with hlt | hge
        · rw [List.getElem?_append_left hlt] at hi
          simp [hout i p hi] at hin
        · rw [List.getElem?_append_right hge, List.getElem?_singleton] at hi
          obtain ⟨hzero, hp⟩ := Option.ite_none_right_eq_some.mp hi
          exact ⟨(Nat.sub_eq_zero_iff_le.mp hzero).antisymm hge, (Option.some.inj hp).symm⟩
      refine ⟨fun i j p q hi hj hp hq => ?_, fun i p hi hmay hnone => ?_, fun hnone hpresent => ?_⟩
      · exact (hnew i p hi hp).1.trans (hnew j q hj hq).1.symm
      · obtain ⟨-, rfl⟩ := hnew i p hi (CollectPoint.inside_of_mayTake hmay)
        obtain ⟨j, result, hj⟩ := h.after hnone hmay
        cases hout j _ hj
      · obtain ⟨j, result, hj⟩ := h.after hnone hpresent
        cases hout j _ hj
  | spurious i =>
      obtain rfl := Option.some.inj hstep
      exact h.of_state (.inr rfl)
  | run =>
      simp only [Collecting.step] at hstep
      split at hstep
      · obtain rfl := Option.some.inj hstep
        exact h.of_state (.inl (by simp [JobRecord.markRunning]))
      · cases hstep
  | finish how =>
      simp only [Collecting.step] at hstep
      split at hstep
      · cases hstep
      · obtain rfl := Option.some.inj hstep
        exact h.of_state (.inl (by simp [JobRecord.finishCompleted]))
      · obtain rfl := Option.some.inj hstep
        exact h.of_state (.inl (by simp [JobRecord.finishFailed]))
      · obtain rfl := Option.some.inj hstep
        exact h.of_state (.inl (by simp [JobRecord.finishCancelled]))
  | step i =>
      simp only [Collecting.step, bind, Option.bind_eq_some_iff, Option.pure_def,
        Option.some.injEq] at hstep
      obtain ⟨p, hp, ⟨present, record, p'⟩, hcollect, rfl⟩ := hstep
      cases collectStep_cases hcollect with
      | found hpresent =>
          have hne := h.before i _ hp hpresent
          exact h.set hp rfl (fun _ => hne) fun hnone => (hne hnone).elim
      | unknown habsent =>
          refine h.set hp rfl (fun hmay => by cases hmay) fun _ hpresent => ?_
          rw [habsent] at hpresent
          cases hpresent
      | wait hlive =>
          have hne : s.record.state ≠ .completed none := by
            intro hnone
            rw [hnone] at hlive
            cases hlive
          exact h.set hp rfl (fun _ => hne) fun hnone => (hne hnone).elim
      | takeOk => exact h.set hp rfl (fun hmay => by cases hmay) fun _ _ => ⟨_, rfl⟩
      | takeFailed => exact h.set hp rfl (fun hmay => by cases hmay) fun hnone => by cases hnone
      | takeCancelled hcancelled =>
          refine h.set hp rfl (fun hmay => by cases hmay) fun hnone => ?_
          rw [hcancelled] at hnone
          cases hnone
      | woken =>
          have hne := h.before i _ hp rfl
          exact h.set hp rfl (fun _ => hne) fun hnone => (hne hnone).elim
      | remove => exact h.set hp rfl (fun hmay => by cases hmay) fun _ hpresent => by cases hpresent

/-- **Callers that do not overlap are delivered a batch whole or not at all.** -/
theorem delivered_whole_in_turn {s : Collecting ρ}
    (h : Lts.ReachBy Collecting.Fresh Collecting.step (fun s a => ¬ Overlaps s a) s) :
    DeliveredWhole s := by
  refine delivered_whole (h.meets fun s a s' hr halone hstep => ?_)
  have hturns : TakesTurns s := by
    refine hr.invariant ?_ fun s a s' _ hs halone hstep => hs.step halone hstep
    rintro s rfl
    constructor <;> simp
  intro hlate
  cases a with
  | step i =>
      obtain ⟨htake, hstate⟩ := hlate
      obtain ⟨p, hi, hp⟩ := (Option.any_eq_true _ _).mp htake
      have hne : s.record.state ≠ .completed none := by
        cases p with
        | take => exact hturns.before i .take hi rfl
        | _ => cases hp
      cases hrecord : s.record.state with
      | completed values =>
          rw [hrecord] at hstate hne
          cases values with
          | none => exact hne rfl
          | some values => cases hstate
      | _ =>
          rw [hrecord] at hstate
          cases hstate
  | _ => exact hlate

/-! ### A batch delivered in part -/

/-- Two callers look the record of a completed job up before either takes the payload. -/
def collectRacing : List (CollectAct ℕ) :=
  [.run, .finish (.completed [7]), .call, .call, .step 0, .step 1, .step 0, .step 1, .step 0,
    .step 1]

/-- **The batch of a job can be delivered a second time, as an empty one.** -/
theorem delivered_twice :
    ∃ s : Collecting ℕ, Lts.Reach Collecting.Fresh Collecting.step s ∧
      s.decoded = some [7] ∧ s.callers[0]? = some (.done (.ok [7])) ∧
      s.callers[1]? = some (.done (.ok [])) ∧ ¬ DeliveredWhole s := by
  refine ⟨_, .of_runs collectRacing (show Collecting.Fresh {} from rfl) rfl, rfl, rfl, rfl,
    fun h => ?_⟩
  have hsame : (0 : ThreadId) = 1 := h.once 0 1 [7] [] rfl rfl
  simp at hsame

/-- Every late take ends in an empty batch. -/
theorem lateTake_defaults {s s' : Collecting ρ} {i : ThreadId}
    (hlate : LateTake s (.step i)) (h : s.step (.step i) = some s') :
    s'.callers[i]? = some (.remove (.ok [])) := by
  obtain ⟨hp, hstate⟩ := hlate
  simp only [Collecting.step, bind, Option.bind_eq_some_iff, Option.pure_def,
    Option.some.injEq] at h
  obtain ⟨p, hi, ⟨present, record, p'⟩, hstep, rfl⟩ := h
  have hlt : i < s.callers.length := (List.getElem?_eq_some_iff.mp hi).1
  rw [hi] at hp
  cases collectStep_cases hstep with
  | @takeOk values hvalues =>
      cases values with
      | none => simp [hlt]
      | some values => simp [hvalues] at hstate
  | wait hwait =>
      cases hst : s.record.state <;> simp_all [JobRecordState.terminal]
  | takeFailed hfail => simp [hfail] at hstate
  | takeCancelled hcancel => simp [hcancel] at hstate
  | found | unknown | woken | remove => simp at hp

end Braids
