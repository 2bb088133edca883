import Braids.Runtime.Isolation
import Braids.Runtime.Lifecycle

/-!
# Cancellation Is Prompt

A task looks at the cancel flag of its job once, before it calls its hook. So a flag that is set
is seen by every task that has not looked yet, and a task that has looked may call one more hook.
The potential of a job counts its hook calls and the tasks that have looked: no step of any
thread increases it once the flag is set.

## Main results

* `JobStep.armed`: what a step of a task does to the potential of its job.
* `potential_step`: no step increases the potential of a cancelled job.
* `cancel_is_prompt`: which hooks a cancelled job may still call.
-/

namespace Braids.Runtime

variable {T : Types} {H : Hooks T}

/-! ### Tasks that have looked -/

/-- One if the task has seen the flag unset and has yet to call its hook. -/
def JobCode.armed : JobCode T → ℕ
  | .mark | .checkout | .scratch _ | .stageLock _ | .take => 1
  | _ => 0

/-- The same for the points of the soup. -/
def StackPoint.armed : StackPoint T → ℕ
  | .code (.task _ code) => code.armed
  | _ => 0

/-- What a task leaves behind when it goes on. -/
def JobCode.armedAfter : ClientAct (JobCode T) JobTask → ℕ
  | .goto next | .submit _ next | .schedule _ _ next | .prepare _ _ next | .shutdown next =>
      next.armed
  | .ret _ => 0

/-- A task that has looked is responsible for its job. -/
theorem StackPoint.armed_le_carries (p : StackPoint T) :
    StackPoint.armed p ≤ StackPoint.carries p := by
  cases p with
  | code code =>
      cases code with
      | task j code => cases code <;> simp [armed, JobCode.armed, carries, Code.carries,
          JobCode.carries]
      | _ => simp [armed]
  | _ => simp [armed]

section Share

variable {rej : List JobId} {P : Soup (Code T) Task RejectCode} {j : JobId} {job : Job T}

/-- At most one task of a job has looked. -/
theorem JobOk.armed_le_one (h : JobOk rej P j job) : share StackPoint.armed j P ≤ 1 := by
  have hsum := h.carried
  have hle : share StackPoint.armed j P ≤ share StackPoint.carries j P :=
    share_mono StackPoint.armed_le_carries
  omega

/-- Points that have not looked do not count. -/
theorem share_armed_eq_zero (h : ∀ code, .code (.task j code) ∈ P → JobCode.armed code = 0) :
    share StackPoint.armed j P = 0 := by
  induction P using Multiset.induction_on with
  | empty => rfl
  | cons p P ih =>
      rw [share_cons, ih fun code hmem => h code (Multiset.mem_cons_of_mem hmem), add_zero]
      split
      · next howner =>
          cases p with
          | code code =>
              cases code with
              | task i code =>
                  obtain rfl : i = j := by simpa [StackPoint.owner, Code.owner] using howner
                  exact h code (Multiset.mem_cons_self _ _)
              | _ => rfl
          | _ => rfl
      · rfl

end Share

/-! ### The potential -/

section Steps

variable {b : BackendId} {pools pools' : Pools} {job job' : Job T} {j : JobId}

/-- **A step of a task** does not increase the potential of its job once the flag is set: the
call of the hook is paid by the task that has looked. -/
theorem JobStep.armed {code : JobCode T} {act : ClientAct (JobCode T) JobTask}
    (h : JobStep H b pools job code pools' job' act) (hcancel : job.record.cancel = true) :
    job'.calls.length + JobCode.armedAfter act ≤ job.calls.length + code.armed := by
  cases h with
  | encode h | stage h | decode h => simp [h] at hcancel
  | scratch | stageLock | take => simp [JobCode.armedAfter, JobCode.armed]
  | recycle h | giveBackOk _ h | giveBackPoisoned _ h | giveBackErr h | cleanup h =>
      rw [giveBackPacket] at h
      split at h <;> simp only [Prod.mk.injEq] at h <;> obtain ⟨-, rfl⟩ := h <;>
        simp [JobCode.armedAfter, JobCode.armed]
  | finish =>
      have hcalls : ∀ error, (job.finishWith error).calls = job.calls := by
        intro error
        by_cases hp : job.recordPoisoned = true
        · simp [Job.finishWith, hp]
        · simp [Job.finishWith, hp]
      simp [hcalls, JobCode.armedAfter, JobCode.armed]
  | leave hcode hact =>
      obtain rfl | rfl := hact <;> simp [JobCode.armedAfter, JobCode.armed]
  | _ => simp [JobCode.armedAfter, JobCode.armed]

/-- What a task leaves of the points that have looked. -/
theorem share_armed_taskPoints (i j : JobId) (act : ClientAct (JobCode T) JobTask) :
    share StackPoint.armed j (taskPoints i act) ≤
      if i = j then JobCode.armedAfter act else 0 := by
  cases act <;> simp [taskPoints, liftAct, StackPoint.owner, Code.owner, StackPoint.armed,
    JobCode.armedAfter]

/-- A job and the tasks that have looked at its flag. -/
def potential (j : JobId) (job : Job T) (P : Soup (Code T) Task RejectCode) : ℕ :=
  job.calls.length + share StackPoint.armed j P

variable {m m' : Mem T} {R : Soup (Code T) Task RejectCode}

/-- A step of the stack does not increase the potential of a cancelled job. -/
theorem StackStep.potential_le {self : ThreadId} {code : Code T} {act : ClientAct (Code T) Task}
    (h : StackStep H self m code m' act) (hj : m.job j = some job)
    (hj' : m'.job j = some job') (hcancel : job.record.cancel = true) :
    potential j job' (act.points + R) ≤ potential j job ({.code code} + R) := by
  have hset : ∀ {i : JobId} {old new : Job T}, m.job i = some old →
      (m.setJob i new).job j = some job' → new.calls = old.calls → job'.calls = job.calls := by
    intro i old new hi hnew hcalls
    rw [Mem.setJob_job] at hnew
    split at hnew
    · next hij =>
        subst hij
        obtain rfl := Option.some.inj hnew
        obtain rfl := Option.some.inj (hi.symm.trans hj)
        exact hcalls
    · rw [← Option.some.inj (hnew.symm.trans hj)]
  have hquiet : ∀ {Q : Soup (Code T) Task RejectCode}, job'.calls.length ≤ job.calls.length →
      share StackPoint.armed j Q = 0 →
      potential j job' (Q + R) ≤ potential j job ({.code code} + R) := by
    intro Q hcalls hQ
    rw [potential, potential, share_add, share_add, hQ]
    omega
  cases h with
  | @task i code old new pools act hi hs =>
      have hafter := share_armed_taskPoints (T := T) i j act
      have hcalls : job'.calls.length + (if i = j then JobCode.armedAfter act else 0) ≤
          job.calls.length + (if i = j then code.armed else 0) := by
        change (m.setJob i new).job j = some job' at hj'
        rw [Mem.setJob_job] at hj'
        by_cases hij : j = i
        · subst hij
          rw [if_pos rfl] at hj'
          obtain rfl := Option.some.inj hj'
          obtain rfl := Option.some.inj (hi.symm.trans hj)
          simpa using hs.armed hcancel
        · rw [if_neg hij] at hj'
          obtain rfl := Option.some.inj (hj'.symm.trans hj)
          rw [if_neg (Ne.symm hij), if_neg (Ne.symm hij)]
      have hbefore : share StackPoint.armed j {(.code (.task i code) : StackPoint T)} =
          if i = j then code.armed else 0 := by
        simp [StackPoint.owner, Code.owner, StackPoint.armed]
      rw [potential, potential, share_add, share_add, hbefore]
      have hpoints : share StackPoint.armed j
          (liftAct (Code.task i) (fun kind => (⟨i, kind⟩ : Task)) act).points ≤
            if i = j then JobCode.armedAfter act else 0 := hafter
      omega
  | planner hp =>
      obtain rfl := Option.some.inj (hj'.symm.trans hj)
      exact hquiet le_rfl (share_of_not_owner fun q hq => by simp [hp.owner q hq])
  | dispatchId =>
      refine hquiet ?_ (share_armed_eq_zero (by simp))
      change (m.setJob m.nextJobId _).job j = some job' at hj'
      rw [Mem.setJob_job] at hj'
      split at hj'
      · rw [← Option.some.inj hj']
        exact Nat.zero_le _
      · rw [Option.some.inj (hj'.symm.trans hj)]
  | insertPoisoned hi | dispatchOk hi | dispatchErr hi | collectTake hi | collectPark hi
  | collectWoken hi | cancel hi =>
      exact hquiet (by rw [hset hi hj' rfl]) (share_armed_eq_zero (by simp))
  | _ =>
      obtain rfl := Option.some.inj (hj'.symm.trans hj)
      exact hquiet le_rfl (share_armed_eq_zero (by simp))

/-- A step of a reject side does not increase it, either. -/
theorem StackReject.potential_le {code : RejectCode} {next : Option RejectCode}
    (h : StackReject m code m' next) (hc : m.pools.Clean) (hj : m.job j = some job)
    (hj' : m'.job j = some job') :
    potential j job' (next.elim 0 (fun next => {.rejecting next}) + R) ≤
      potential j job ({.rejecting code} + R) := by
  have hcalls : job'.calls = job.calls := by
    have hstep : ∀ {point next} {pools : Pools} {old new : Job T} {i : JobId},
        m.job i = some old → RejectStep m.pools old point pools new next →
        (m.setJob i new).job j = some job' → job'.calls = job.calls := by
      intro point next pools old new i hi hs hnew
      have hsame : new.calls = old.calls := by
        cases hs with
        | giveBack h =>
            obtain ⟨-, rfl⟩ := giveBackPacket_spec hc.packets h
            rfl
        | _ => rfl
      rw [Mem.setJob_job] at hnew
      split at hnew
      · next hij =>
          subst hij
          obtain rfl := Option.some.inj hnew
          obtain rfl := Option.some.inj (hi.symm.trans hj)
          exact hsame
      · rw [← Option.some.inj (hnew.symm.trans hj)]
    cases h with
    | on hi hs | done hi hs => exact hstep hi hs hj'
    | gone => rw [Option.some.inj (hj'.symm.trans hj)]
  have hpoints : share StackPoint.armed j
      (next.elim 0 (fun next => {.rejecting next}) : Soup (Code T) Task RejectCode) = 0 :=
    share_armed_eq_zero (by cases next <;> simp)
  rw [potential, potential, share_add, share_add, hcalls, hpoints]
  omega

/-- A call that returns to a point of the stack arms nothing. -/
theorem share_armed_resume (code : Code T) (r : CallResult) :
    share StackPoint.armed j {(.code (resume code r) : StackPoint T)} ≤
      share StackPoint.armed j {(.code code : StackPoint T)} := by
  unfold resume
  split <;> simp [StackPoint.owner, Code.owner, StackPoint.armed, JobCode.armed]

/-- **No step increases the potential** of a cancelled job. -/
theorem potential_step {v v' : SoupView (Mem T) (Code T) Task RejectCode} (h : JobsOk v.1 v.2)
    (hstep : SoupStep (stackContract H) v v') (hj : v.1.job j = some job)
    (hj' : v'.1.job j = some job') (hcancel : job.record.cancel = true) :
    potential j job' v'.2 ≤ potential j job v.2 := by
  have hmove : ∀ {P Q R : Soup (Code T) Task RejectCode}, job' = job →
      share StackPoint.armed j Q ≤ share StackPoint.armed j P →
      potential j job' (Q + R) ≤ potential j job (P + R) := by
    rintro P Q R rfl hQ
    rw [potential, potential, share_add, share_add]
    omega
  cases hstep with
  | idle => rw [Option.some.inj (hj'.symm.trans hj)]
  | step hs =>
      rw [← Multiset.singleton_add]
      exact (stackStep_cases hs).potential_le hj hj' hcancel
  | rejectOn hs =>
      rw [← Multiset.singleton_add, ← Multiset.singleton_add]
      exact (rejectStep_cases hs).potential_le h.pools hj hj'
  | @rejectDone m m' code R hs =>
      have hdone := (rejectStep_cases hs).potential_le (R := R) h.pools hj hj'
      rwa [Option.elim_none, zero_add, Multiset.singleton_add] at hdone
  | @run m t R | @runScheduled m t R =>
      rw [← Multiset.singleton_add, ← Multiset.singleton_add]
      refine hmove (Option.some.inj (hj'.symm.trans hj)) ?_
      have hstart : share StackPoint.armed j
          {(.code ((stackClient H).run t) : StackPoint T)} = 0 := by
        obtain ⟨i, kind⟩ := t
        cases kind <;> simp [stackClient, StackPoint.armed, startOf, JobCode.armed]
      omega
  | @reject m t R =>
      rw [← Multiset.singleton_add, ← Multiset.singleton_add]
      exact hmove (Option.some.inj (hj'.symm.trans hj)) (by simp [StackPoint.armed])
  | @hookRun m hook R =>
      have hown := (singleton_add_points h).hook
      rw [← Multiset.singleton_add, ← Multiset.singleton_add]
      exact hmove (Option.some.inj (hj'.symm.trans hj)) (by simp [StackPoint.owner, hown])
  | @hookDrop m hook R =>
      have hdrop := hmove (P := {.hook hook}) (Q := 0) (R := R)
        (Option.some.inj (hj'.symm.trans hj)) (by simp)
      rwa [zero_add, Multiset.singleton_add] at hdrop
  | @refused m t code R hs =>
      have hresume := share_armed_resume (j := j) code (.err .executorShutdown)
      have hmoved := hmove (P := {.task t, .code code})
        (Q := {.code (resume code (.err .executorShutdown))}) (R := R)
        (Option.some.inj (hj'.symm.trans hj))
        (by rw [Multiset.insert_eq_cons, share_cons]; omega)
      rwa [Multiset.singleton_add, Multiset.insert_eq_cons, Multiset.cons_add,
        Multiset.singleton_add] at hmoved
  | @returned m code r R hr =>
      rw [← Multiset.singleton_add, ← Multiset.singleton_add]
      exact hmove (Option.some.inj (hj'.symm.trans hj)) (share_armed_resume code r)
  | @spawn m code R he =>
      have hentry : share StackPoint.armed j {(.code code : StackPoint T)} ≤
          share StackPoint.armed j (0 : Soup (Code T) Task RejectCode) := by
        cases code <;> simp [StackPoint.owner, Code.owner, stackClient, isEntry] at he ⊢
      have hmoved := hmove (R := R) (Option.some.inj (hj'.symm.trans hj)) hentry
      rwa [zero_add, Multiset.singleton_add] at hmoved

end Steps

/-! ### Over a run -/

/-- What a cancelled job does later: its hook calls go on, with one more at most, and with none
unless its task has looked at the flag before it was set. -/
structure CallsAfterCancel (s s' : MachineState (Mem T) (Code T) Task RejectCode) (j : JobId)
    (job job' : Job T) : Prop where
  cancelled : job'.record.cancel = true
  goesOn : job.calls <+: job'.calls
  atMostOne : job'.calls.length ≤ job.calls.length + 1
  none : (∀ code, .code (.task j code) ∈ s.soup → JobCode.armed code = 0) →
    job'.calls = job.calls

/-- **Cancellation is prompt**, in every state that is reached after it. -/
theorem cancel_is_prompt {s s' : MachineState (Mem T) (Code T) Task RejectCode}
    (h : Reached H s) (h' : Later H s s') {j : JobId} {job : Job T}
    (hj : s.shared.client.job j = some job) (hcancel : job.record.cancel = true) :
    ∃ job', s'.shared.client.job j = some job' ∧ CallsAfterCancel s s' j job job' := by
  obtain ⟨job', hj', hcancel', hpotential⟩ := h.grows (R := fun v v' => ∀ job,
      v.1.job j = some job → job.record.cancel = true → ∃ job', v'.1.job j = some job' ∧
        job'.record.cancel = true ∧ potential j job' v'.2 ≤ potential j job v.2)
    (fun v job hj hc => ⟨job, hj, hc, le_rfl⟩)
    (fun u v w huv hvw job hj hc => by
      obtain ⟨job₁, hj₁, hc₁, hle₁⟩ := huv job hj hc
      obtain ⟨job₂, hj₂, hc₂, hle₂⟩ := hvw job₁ hj₁ hc₁
      exact ⟨job₂, hj₂, hc₂, hle₂.trans hle₁⟩)
    (fun v v' _ hjobs hstep job hj hc => by
      obtain ⟨job', hj', hevolves⟩ := evolves_step hjobs hstep hj
      exact ⟨job', hj', hevolves.cancel hc, potential_step hjobs hstep hj hj' hc⟩) h' job hj hcancel
  obtain ⟨job₁, hj₁, hcontinues⟩ := jobRule_continues.later (fun h => h.trans) h h' hj
  obtain rfl := Option.some.inj (hj₁.symm.trans hj')
  have hle : job₁.calls.length ≤ job.calls.length + share StackPoint.armed j s.soup :=
    (Nat.le_add_right _ _).trans hpotential
  refine ⟨job₁, hj', hcancel', hcontinues.calls, ?_, fun hnone => ?_⟩
  · have hone := ((inOrder h).2.job j job hj).armed_le_one
    omega
  · rw [share_armed_eq_zero hnone, add_zero] at hle
    exact (hcontinues.calls.eq_of_length_le hle).symm

/-- A job is dispatched, and it is cancelled after its first task has looked at the flag. -/
def counterCancelled : List (Action (Code counter)) :=
  [.register 1 1, .spawn (.dispatch [7])] ++ List.replicate 12 (.step 1 0) ++
    List.replicate 3 (.step 0 0) ++ [.spawn (.cancel 1), .step 2 0]

/-- The worker takes the cancelled job to its end. -/
def counterLater : MachineState (Mem counter) (Code counter) Task RejectCode :=
  (Lts.runs (machineStep (stackClient counterHooks)) (fun _ _ => True)
    (counterAfter counterCancelled) (List.replicate 28 (.step 0 0))).getD
      (counterAfter counterCancelled)

/-- The job calls the one hook, and the next task ends it. -/
theorem cancel_is_prompt_counter :
    (counterLater.shared.client.job 1).map (fun job => (statusOf job.record, job.calls.length)) =
      some (.cancelled, 1) ∧
    ∃ job, (counterAfter counterCancelled).shared.client.job 1 = some job ∧ job.calls = [] ∧
      ∃ job', counterLater.shared.client.job 1 = some job' ∧
        CallsAfterCancel (counterAfter counterCancelled) counterLater 1 job job' := by
  have hlater : Later counterHooks (counterAfter counterCancelled) counterLater := by
    obtain ⟨s', hs'⟩ := Option.isSome_iff_exists.mp (show (Lts.runs
      (machineStep (stackClient counterHooks)) (fun _ _ => True)
      (counterAfter counterCancelled) (List.replicate 28 (.step 0 0))).isSome from rfl)
    rw [counterLater, hs', Option.getD_some]
    have hstart : Lts.ReachBy (· = counterAfter counterCancelled)
        (machineStep (stackClient counterHooks)) (fun _ _ => True)
        (counterAfter counterCancelled) := .init rfl
    exact (hstart.runs hs').reach
  exact ⟨rfl, _, rfl, rfl, cancel_is_prompt (counterAfter_reached rfl) hlater rfl rfl⟩

end Braids.Runtime
