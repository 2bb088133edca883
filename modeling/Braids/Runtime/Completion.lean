import Braids.Executor.Termination
import Braids.Runtime.Progress

/-!
# Every Call Returns

Nobody works for ever: a task takes a bounded number of steps for each stage of its job, a call
takes a bounded number of steps beside its job, and waiting takes no steps unless somebody is
woken. So every run without new calls and without wakeups that nobody asked for is finite, for
all hooks that return. Since there is no deadlock, such a run ends with nothing left to do: all
calls have returned and all jobs are over, unless the executor was shut down on the way.

## Main results

* `stackDrains`: every step of a stack leaves less to do.
* `runs_complete`: where every run ends.
-/

namespace Braids.Runtime

variable {T : Types} {H : Hooks T}

/-! ### What is left to do -/

/-- The number of stages that a job runs. -/
def Mem.stages (m : Mem T) (j : JobId) : ℕ :=
  match m.job j with
  | some job => job.version.stages.length
  | none => 0

/-- The steps that are left when a task starts, those of the tasks after it included, in a job
with `n` stages. -/
def taskEffort (n : ℕ) : JobTask → ℕ
  | .encode => 12 * n + 38
  | .stage i => 12 * (n - i) + 22
  | .decode => 10

@[simp] theorem taskEffort_encode (n : ℕ) : taskEffort n .encode = 12 * n + 38 := rfl

@[simp] theorem taskEffort_stage (n i : ℕ) : taskEffort n (.stage i) = 12 * (n - i) + 22 := rfl

@[simp] theorem taskEffort_decode (n : ℕ) : taskEffort n .decode = 10 := rfl

/-- The steps that are left at a program point of a task. -/
def JobCode.effort (n : ℕ) : JobCode T → ℕ
  | .encode => 12 * n + 38
  | .mark => 12 * n + 37
  | .checkout => 12 * n + 36
  | .scratch _ => 12 * n + 35
  | .encodeHook _ => 12 * n + 34
  | .encoded _ _ => 12 * n + 33
  | .store _ => 12 * n + 32
  | .stage i => 12 * (n - i) + 22
  | .stageLock i => 12 * (n - i) + 21
  | .stageHook i _ _ => 12 * (n - i) + 20
  | .schedule next => taskEffort n next + 9
  | .decode => 10
  | .take => 9
  | .decodeHook _ => 8
  | .giveBack _ _ | .await _ => 7
  | .finishCompleted _ | .recycle _ _ | .refused _ _ => 6
  | .caught _ _ => 5
  | .cleanup _ _ _ => 4
  | .finish _ _ => 3
  | .released => 2
  | .ended => 1

/-- The steps that are left at a program point of a reject side. -/
def RejectPoint.effort : RejectPoint → ℕ
  | .take _ => 3
  | .giveBack _ _ => 2
  | .fail _ => 1

/-- The steps that are left in a call on the planner state. -/
def PlannerCode.effort : PlannerCode T → ℕ
  | .update _ => 18
  | .updateHook _ _ | .recompile => 17
  | .scratch _ => 16
  | .compileHook _ => 15
  | .computeScratch _ _ => 14
  | .reuse _ _ => 13
  | .prepare _ _ _ => 12
  | .preparing _ _ _ => 9
  | .prepared _ _ _ _ => 8
  | .giveScratch _ _ _ => 7
  | .drawId _ _ _ => 6
  | .writeLock _ _ => 5
  | .swap _ _ => 4
  | .storeId _ _ => 3
  | .unlock _ _ | .apply _ | .replace _ => 2
  | .applyHook _ | .replaceHook _ | .prepareHook _ _ _ | .commit _ _ | .fail _ _ => 1

/-- The steps that are left in a call of `collect`, beside waiting. -/
def collectEffort : CollectPoint T.Resolution → ℕ
  | .lookup => 4
  | .take | .parked => 3
  | .remove _ => 2
  | .done _ => 1

/-- The steps that are left in a call, beside those of its job. -/
def Code.calls : Code T → ℕ
  | .planner code => code.effort
  | .collect _ point => collectEffort point
  | .dispatch _ => 4
  | .dispatchRead _ _ => 3
  | .dispatchClone _ _ _ | .read | .shutdown => 2
  | .dispatchId _ _ _ _ | .clone | .poll _ | .cancel _ | .retire _ | .ended => 1
  | .dispatchInsert _ | .dispatchSubmit _ | .dispatchWait _ | .dispatchOk _ | .dispatchErr _ _
  | .task _ _ => 0

/-- The steps that are left for a job. -/
def Code.tasks (m : Mem T) : Code T → ℕ
  | .dispatchInsert j => taskEffort (m.stages j) .encode + 5
  | .dispatchSubmit j => taskEffort (m.stages j) .encode + 4
  | .dispatchWait _ => 2
  | .dispatchOk _ | .dispatchErr _ _ => 1
  | .task j code => code.effort (m.stages j)
  | _ => 0

/-- The steps that are left at a point in calls. -/
def StackPoint.calls : StackPoint T → ℕ
  | .code code => code.calls
  | .hook code => code.calls + 1
  | _ => 0

/-- The steps that are left at a point for jobs. -/
def StackPoint.tasks (m : Mem T) : StackPoint T → ℕ
  | .code code => code.tasks m
  | .task t | .scheduled t => taskEffort (m.stages t.job) t.kind + 1
  | .rejecting code => code.point.effort
  | .hook _ => 0

/-- The steps until a collector waits again. -/
def Mem.collectorWaits (m : Mem T) (i : ThreadId) : Code T → ℕ
  | .collect _ .take => 1
  | .collect j .parked => if ∀ job ∈ m.job j, i ∈ job.record.wake then 0 else 2
  | _ => 0

/-- What is left to do in a stack. -/
def stackEffort : Effort (Mem T) (Code T) Task RejectCode where
  calls := StackPoint.calls
  tasks := StackPoint.tasks
  waits := Mem.collectorWaits

attribute [simp] JobCode.effort RejectPoint.effort PlannerCode.effort collectEffort Code.calls
  Code.tasks StackPoint.calls StackPoint.tasks

@[simp] theorem stackEffort_calls (p : StackPoint T) :
    (stackEffort : Effort (Mem T) (Code T) Task RejectCode).calls p = StackPoint.calls p := rfl

@[simp] theorem stackEffort_tasks (m : Mem T) (p : StackPoint T) :
    (stackEffort : Effort (Mem T) (Code T) Task RejectCode).tasks m p = StackPoint.tasks m p := rfl

/-! ### Steps leave less to do -/

section Steps

variable {b : BackendId} {pools pools' : Pools} {job job' : Job T} {m m' : Mem T} {j : JobId}

/-- A task keeps the version of its job. -/
theorem JobStep.version_eq {code : JobCode T} {act : ClientAct (JobCode T) JobTask}
    (h : JobStep H b pools job code pools' job' act) : job'.version = job.version := by
  cases h with
  | recycle h | giveBackOk _ h | giveBackPoisoned _ h | giveBackErr h | cleanup h =>
      rw [giveBackPacket] at h
      split at h <;> simp only [Prod.mk.injEq] at h <;> obtain ⟨-, rfl⟩ := h <;> rfl
  | finish =>
      unfold Job.finishWith
      split <;> rfl
  | _ => rfl

/-- So does a reject side. -/
theorem RejectStep.version_eq {point : RejectPoint} {next : Option RejectPoint}
    (h : RejectStep pools job point pools' job' next) : job'.version = job.version := by
  cases h with
  | giveBack h =>
      rw [giveBackPacket] at h
      split at h <;> simp only [Prod.mk.injEq] at h <;> obtain ⟨-, rfl⟩ := h <;> rfl
  | _ => rfl

/-- Overwriting a job keeps the number of its stages. -/
theorem Mem.stages_setJob (hj : m.job j = some job) (hv : job'.version = job.version) (i : JobId) :
    (m.setJob j job').stages i = m.stages i := by
  rw [Mem.stages, Mem.stages, Mem.setJob_job]
  by_cases hij : i = j
  · subst hij
    simp [hj, hv]
  · rw [if_neg hij]

/-- What is left for jobs depends on the number of their stages. -/
theorem StackPoint.tasks_congr (h : ∀ j, m'.stages j = m.stages j) (p : StackPoint T) :
    StackPoint.tasks m' p = StackPoint.tasks m p := by
  cases p with
  | code code => cases code <;> simp [h]
  | _ => simp [h]

/-- What comes after a task takes fewer steps than the task. -/
theorem taskEffort_next (version : Version T) (i : ℕ) :
    taskEffort version.stages.length version.afterEncode < 12 * version.stages.length + 23 ∧
      taskEffort version.stages.length (version.afterStage i) <
        12 * (version.stages.length - i) + 11 := by
  constructor
  · unfold Version.afterEncode
    split
    · simp
    · simp
  · unfold Version.afterStage
    split
    · simp only [taskEffort]
      omega
    · simp

/-- Less is left for jobs, and no more in calls. -/
theorem drops_of_tasks {P Q : Soup (Code T) Task RejectCode} (hstages : m'.stages = m.stages)
    (hleft : stackEffort.left Q ≤ stackEffort.left P)
    (hlt : stackEffort.leftOf m Q < stackEffort.leftOf m P) : stackEffort.Drops m m' P Q := by
  have hsame : ∀ p : StackPoint T, StackPoint.tasks m' p = StackPoint.tasks m p :=
    StackPoint.tasks_congr fun j => by rw [hstages]
  have hleftOf : stackEffort.leftOf m' Q = stackEffort.leftOf m Q :=
    congrArg Multiset.sum (Multiset.map_congr rfl fun p _ => hsame p)
  refine .tasks ⟨hleft, ?_, fun p => (hsame p).le⟩ ?_
  · exact hleftOf ▸ hlt.le
  · exact hleftOf ▸ hlt

/-- **A step of a task** leaves less to do for its job. -/
theorem jobStep_effort {n : ℕ} {code : JobCode T} {act : ClientAct (JobCode T) JobTask}
    (h : jobStep H b n pools job code = some (pools', job', act))
    (hn : m.stages j = job.version.stages.length) :
    (stackEffort : Effort (Mem T) (Code T) Task RejectCode).leftOf m (taskPoints j act) <
      code.effort (m.stages j) := by
  have hnext := taskEffort_next job.version
  rw [← hn] at hnext
  cases jobStep_cases h with
  | store =>
      have hlt := (hnext 0).1
      simp only [taskPoints, liftAct, ClientAct.points, Effort.leftOf_singleton,
        stackEffort_tasks, StackPoint.tasks, Code.tasks, JobCode.effort]
      omega
  | @stagePassed i =>
      have hlt := (hnext i).2
      simp only [taskPoints, liftAct, ClientAct.points, Effort.leftOf_singleton,
        stackEffort_tasks, StackPoint.tasks, Code.tasks, JobCode.effort]
      omega
  | leave hcode hact =>
      rcases hcode with rfl | rfl
      · rcases hact with rfl | rfl <;> simp [taskPoints, liftAct]
      · simp only [jobStep, Option.some.injEq, Prod.mk.injEq] at h
        obtain ⟨-, -, rfl⟩ := h
        simp [taskPoints, liftAct]
  | _ => simp [taskPoints, liftAct]

/-- **A step of a call on the planner state** leaves less to do. -/
theorem PlannerStep.effort {m m' : PlannerMem T} {code : PlannerCode T}
    {act : ClientAct (PlannerCode T) JobTask} (h : PlannerStep H b m code m' act) :
    (stackEffort : Effort (Mem T) (Code T) Task RejectCode).left
      (liftAct Code.planner (fun kind => (⟨0, kind⟩ : Task)) act).points < code.effort := by
  cases h with
  | poisoned => cases code <;> simp [liftAct]
  | edited hcode | editPanicked hcode =>
      rcases hcode with ⟨_, rfl⟩ | ⟨_, rfl⟩ <;> simp [liftAct]
  | _ => simp [liftAct]

/-- Collectors go on waiting while nobody is woken. -/
theorem Mem.collectorWaits_mono {k : ThreadId}
    (h : ∀ j job', m'.job j = some job' →
      ∃ job, m.job j = some job ∧ (k ∈ job.record.wake → k ∈ job'.record.wake)) (code : Code T) :
    m'.collectorWaits k code ≤ m.collectorWaits k code := by
  unfold Mem.collectorWaits
  split
  · exact le_rfl
  · next j =>
      by_cases hin : ∀ job ∈ m.job j, k ∈ job.record.wake
      · rw [if_pos hin, if_pos]
        intro job' hjob'
        obtain ⟨job, hjob, hmem⟩ := h j job' hjob'
        exact hmem (hin job hjob)
      · rw [if_neg hin]
        split <;> omega
  · exact le_rfl

/-- Overwriting the record of a job that keeps its waiters wakes nobody. -/
theorem Mem.collectorWaits_setJob {k : ThreadId} (hj : m.job j = some job)
    (hwake : k ∈ job.record.wake → k ∈ job'.record.wake) (code : Code T) :
    (m.setJob j job').collectorWaits k code ≤ m.collectorWaits k code := by
  refine Mem.collectorWaits_mono (fun i new hnew => ?_) code
  rw [Mem.setJob_job] at hnew
  split at hnew
  · next hij =>
      obtain rfl := Option.some.inj hnew
      exact ⟨job, hij ▸ hj, hwake⟩
  · exact ⟨new, hnew, id⟩

/-- Taking the payload of a record wakes nobody. -/
theorem JobRecord.wake_take {record taken : JobRecord T.Resolution}
    {result : Option (BraidResult (List T.Resolution))} (h : record.take = (taken, result)) :
    taken.wake = record.wake := by
  rw [JobRecord.take] at h
  split at h <;> simp only [Prod.mk.injEq] at h <;> obtain ⟨rfl, -⟩ := h <;> rfl

/-- Nobody wakes a collector unasked. -/
def askedFor (n : ℕ) (code : Code T) : Prop := (∃ j, code = .collect j .parked) → n % 2 = 0

/-- **A step of `collect`** leaves less to do, or it waits. -/
theorem collectJob_effort {i n : ℕ} {point : CollectPoint T.Resolution}
    {act : ClientAct (Code T) Task} (hj : m.job j = some job)
    (hasked : askedFor n (.collect j point : Code T))
    (h : collectJob i n m j job point = some (m', act)) :
    stackEffort.Drops m m' {.code (.collect j point)} act.points ∨
      ∃ next, act = .goto next ∧ stackEffort.Keeps m m' {.code (.collect j point)} {.code next} ∧
        m'.collectorWaits i next < m.collectorWaits i (.collect j point) ∧
        ∀ k ≠ i, ∀ code, m'.collectorWaits k code ≤ m.collectorWaits k code := by
  have hdrops : ∀ {m' : Mem T} {next : CollectPoint T.Resolution},
      collectEffort (T := T) next < collectEffort (T := T) point →
      stackEffort.Drops m m' {.code (.collect j point)} {.code (.collect j next)} := by
    intro m' next hlt
    refine .calls ?_
    rw [Effort.left_singleton, Effort.left_singleton]
    exact hlt
  have hkeeps : ∀ {next : CollectPoint T.Resolution} {job' : Job T},
      collectEffort (T := T) next = collectEffort (T := T) point → job'.version = job.version →
      stackEffort.Keeps m (m.setJob j job') {.code (.collect j point)}
        {.code (.collect j next)} := by
    intro next job' heq hv
    refine ⟨?_, ?_, fun p => (StackPoint.tasks_congr (Mem.stages_setJob hj hv) p).le⟩
    · rw [Effort.left_singleton, Effort.left_singleton]
      exact heq.le
    · simp
  cases point with
  | done result =>
      simp only [collectJob, Option.some.injEq, Prod.mk.injEq] at h
      obtain ⟨-, rfl⟩ := h
      exact .inl (.calls (by simp))
  | remove result =>
      simp only [collectJob, Option.some.injEq, Prod.mk.injEq] at h
      obtain ⟨-, rfl⟩ := h
      exact .inl (hdrops (by simp))
  | lookup =>
      simp only [collectJob, collectStep] at h
      split at h
      · simp only [Option.some.injEq, Prod.mk.injEq] at h
        obtain ⟨-, rfl⟩ := h
        exact .inl (hdrops (by simp))
      · split at h <;>
          simp only [Option.bind_eq_bind, Option.bind_some, Option.pure_def, Option.some.injEq,
            Prod.mk.injEq] at h <;>
          obtain ⟨-, rfl⟩ := h <;> exact .inl (hdrops (by simp))
  | take =>
      simp only [collectJob, collectStep] at h
      split at h
      · simp only [Option.some.injEq, Prod.mk.injEq] at h
        obtain ⟨-, rfl⟩ := h
        exact .inl (hdrops (by simp))
      · split at h
        · next taken htake =>
            simp only [Option.bind_eq_bind, Option.bind_some, Option.pure_def, Option.some.injEq,
              Prod.mk.injEq] at h
            obtain ⟨rfl, rfl⟩ := h
            refine .inr ⟨_, rfl, hkeeps rfl rfl, ?_, fun k hk => Mem.collectorWaits_setJob hj ?_⟩
            · simp [Mem.collectorWaits, Mem.setJob, JobRecord.park]
            · intro hmem
              refine List.mem_append_left _ ?_
              rw [JobRecord.wake_take htake]
              split
              · exact hmem
              · exact (List.mem_erase_of_ne hk).mpr hmem
        · next taken result htake =>
            simp only [Option.bind_eq_bind, Option.bind_some, Option.pure_def, Option.some.injEq,
              Prod.mk.injEq] at h
            obtain ⟨-, rfl⟩ := h
            exact .inl (hdrops (by simp))
  | parked =>
      have heven := hasked ⟨j, rfl⟩
      by_cases hwake : i ∈ job.record.wake
      · simp only [collectJob, collectStep, heven, if_true, if_pos hwake] at h
        split at h
        · simp only [Option.some.injEq, Prod.mk.injEq] at h
          obtain ⟨-, rfl⟩ := h
          exact .inl (hdrops (by simp))
        · simp at h
      · simp only [collectJob, collectStep, heven, if_true, if_neg hwake] at h
        split at h
        · simp only [Option.some.injEq, Prod.mk.injEq] at h
          obtain ⟨-, rfl⟩ := h
          exact .inl (hdrops (by simp))
        · simp only [Option.bind_eq_bind, Option.bind_some, Option.pure_def, Option.some.injEq,
            Prod.mk.injEq] at h
          obtain ⟨rfl, rfl⟩ := h
          refine .inr ⟨_, rfl, hkeeps rfl rfl, ?_, fun k _ => Mem.collectorWaits_setJob hj id⟩
          simp [Mem.collectorWaits, hj, hwake]

/-- **Every step of a stack** leaves less to do, or a collector waits. -/
theorem stackStep_effort {i n : ℕ} {code : Code T} {act : ClientAct (Code T) Task}
    (hasked : askedFor n code) (h : stackStep H i n m code = some (m', act)) :
    stackEffort.Drops m m' {.code code} act.points ∨
      ∃ next, act = .goto next ∧ stackEffort.Keeps m m' {.code code} {.code next} ∧
        m'.collectorWaits i next < m.collectorWaits i code ∧
        ∀ k ≠ i, ∀ c, m'.collectorWaits k c ≤ m.collectorWaits k c := by
  have htasks : ∀ {m' : Mem T} {act : ClientAct (Code T) Task}, m'.stages = m.stages →
      stackEffort.left act.points = 0 → stackEffort.leftOf m act.points < code.tasks m →
      stackEffort.Drops m m' {.code code} act.points := by
    intro m' act hstages hleft hlt
    refine drops_of_tasks hstages (by omega) ?_
    rw [Effort.leftOf_singleton]
    exact hlt
  by_cases hcollect : ∃ j point, code = .collect j point
  · obtain ⟨j, point, rfl⟩ := hcollect
    simp only [stackStep] at h
    split at h
    · next job hj => exact collectJob_effort hj hasked h
    · simp only [Option.some.injEq, Prod.mk.injEq] at h
      obtain ⟨-, rfl⟩ := h
      exact .inl (.calls (by cases point <;> simp))
  by_cases htask : ∃ j code', code = .task j code'
  · left
    obtain ⟨j, code', rfl⟩ := htask
    simp only [stackStep, Option.bind_eq_bind, Option.bind_eq_some_iff, Option.pure_def,
      Option.some.injEq, Prod.mk.injEq] at h
    obtain ⟨job, hj, ⟨pools, job', act'⟩, hjob, rfl, rfl⟩ := h
    have hs := jobStep_cases hjob
    have hn : m.stages j = job.version.stages.length := by simp [Mem.stages, hj]
    refine htasks (funext (Mem.stages_setJob hj hs.version_eq)) ?_ (jobStep_effort hjob hn)
    cases act' with
    | prepare b hook next => exact (hs.calm.1 b hook next rfl).elim
    | _ => simp [liftAct]
  · left
    cases stackStep_cases h with
    | planner hs => exact .calls (by simpa using hs.effort)
    | task => exact (htask ⟨_, _, rfl⟩).elim
    | collectOn | collectTake | collectPark | collectWoken | collectRemove =>
        exact (hcollect ⟨_, _, rfl⟩).elim
    | insertPoisoned hj | dispatchOk hj | dispatchErr hj =>
        exact htasks (funext (Mem.stages_setJob hj rfl)) rfl (by simp)
    | dispatchInsert hj | dispatchSubmit => exact htasks rfl (by simp) (by simp)
    | leave hleave =>
        refine .calls ?_
        cases code with
        | collect => exact (hcollect ⟨_, _, rfl⟩).elim
        | dispatchRead | read | poll | cancel | retire | ended => simp
        | _ => exact hleave.elim
    | _ => exact .calls (by simp)

/-- **A step of a reject side** leaves less to do for its job. -/
theorem rejectStep_effort {code : RejectCode} {next : Option RejectCode}
    {R : Soup (Code T) Task RejectCode} (hok : JobsOk m ({.rejecting code} + R))
    (h : rejectStep m code = (m', next)) :
    stackEffort.Drops m m' {.rejecting code} (next.elim 0 fun next => {.rejecting next}) := by
  cases rejectStep_cases h with
  | @on j point next job job' pools hj hs =>
      refine drops_of_tasks (funext (Mem.stages_setJob hj hs.version_eq)) (by simp) ?_
      cases hs with
      | @wait error hheld =>
          have hmem : .rejecting ⟨j, .take error⟩ ∈ ({.rejecting ⟨j, .take error⟩} + R) := by simp
          obtain ⟨i, hready⟩ : ∃ i, job.Ready (.stage i) := (hok.job j job hj).fits _ hmem rfl
          simp [hready.slot.1] at hheld
      | _ => simp
  | @done j point job job' pools hj hs =>
      refine drops_of_tasks (funext (Mem.stages_setJob hj hs.version_eq)) (by simp) ?_
      cases hs <;> simp
  | @gone j point =>
      refine drops_of_tasks rfl (by simp) ?_
      cases point <;> simp

end Steps

/-- **A stack leaves less and less to do.** -/
theorem stackDrains : Drains (stackClient H) (stackContract H) (fun v => JobsOk v.1 v.2) askedFor
    stackEffort where
  step := stackStep_effort
  rejectStep := rejectStep_effort
  run m t := by
    refine drops_of_tasks rfl ?_ ?_
    · simp [stackClient]
    · obtain ⟨j, kind⟩ := t
      cases kind <;> simp [stackClient, startOf]
  runScheduled m t := by
    refine drops_of_tasks rfl ?_ ?_
    · simp [stackClient]
    · obtain ⟨j, kind⟩ := t
      cases kind <;> simp [stackClient, startOf]
  reject m t error := by
    refine drops_of_tasks rfl (by simp [stackClient]) ?_
    obtain ⟨j, kind⟩ := t
    cases kind <;> simp [stackClient]
  hookRun m hook := .calls (by simp)
  hookDrop m hook := .calls (by simp)
  refused {m t code} h := by
    have hsubmits : Submits code t := h
    unfold Submits at hsubmits
    split at hsubmits
    · exact ⟨by simp [stackClient, resume], by simp [stackClient, resume], fun _ => le_rfl⟩
    · exact ⟨by simp [stackClient, resume], by simp [stackClient, resume], fun _ => le_rfl⟩
    · exact hsubmits.elim
  returned {m code result} h := by
    have hreturns : Returns m code result := h
    unfold Returns at hreturns
    split at hreturns
    · rcases hreturns with rfl | ⟨rfl, -⟩ <;>
        exact ⟨by simp [stackClient, resume], by simp [stackClient, resume], fun _ => le_rfl⟩
    · obtain rfl := hreturns
      exact ⟨by simp [stackClient, resume], by simp [stackClient, resume], fun _ => le_rfl⟩
    · obtain rfl := hreturns
      exact ⟨by simp [stackClient, resume], by simp [stackClient, resume], fun _ => le_rfl⟩
    · exact ⟨by simp [stackClient, resume], by simp [stackClient, resume], fun _ => le_rfl⟩
    · exact ⟨by simp [stackClient, resume], by simp [stackClient, resume], fun _ => le_rfl⟩
    · exact ⟨by simp [stackClient, resume], by simp [stackClient, resume], fun _ => le_rfl⟩
    · exact hreturns.elim

/-! ### Where runs end -/

section Runs

variable {s s' : MachineState (Mem T) (Code T) Task RejectCode}

/-- The backend of the stack is registered. -/
def Registered (s : MachineState (Mem T) (Code T) Task RejectCode) : Prop :=
  s.shared.client.backend < s.shared.backends.length

/-- A registered backend stays registered. -/
theorem Registered.step {a : Action (Code T)} (h : Registered s)
    (hs : machineStep (stackClient H) s a = some s') : Registered s' := by
  unfold Registered at h ⊢
  cases machineStep_cases hs with
  | frame hi hf => rwa [stackHome.frameStep hf, hf.length_backends]
  | register =>
      rw [List.length_append]
      exact h.trans (Nat.lt_succ_self _)
  | spurious => rwa [List.length_map]
  | _ => exact h

/-- **Every run completes**: a run without new calls and without wakeups that nobody asked for
is finite, and it ends with nothing left to do, unless the executor was shut down. -/
theorem runs_complete (h : Reached H s) (hbackend : Registered s) :
    Lts.EndsIn (machineStep (stackClient H)) (Asked askedFor)
      (fun s' => s'.shared.shutdown = true ∨ AtRest s') s := by
  refine .of_rank (I := fun s => Reached H s ∧ Registered s) (MachineState.rank stackEffort) ?_ ?_
    ⟨h, hbackend⟩
  · rintro s a s' ⟨h, hreg⟩ hasked hs
    obtain ⟨m, hm, hr⟩ := h
    exact ⟨⟨⟨m, hm, .step hr trivial hs⟩, hreg.step hs⟩,
      rank_step stackDrains hr (inOrder ⟨m, hm, hr⟩).2 hasked hs⟩
  · rintro s ⟨h, hreg⟩ hend
    by_cases hflag : s.shared.shutdown = true
    · exact .inl hflag
    · refine .inr (h.atRest_of_stuck (by simpa using hflag) hreg fun i => hend _ ?_)
      exact fun _ _ _ _ => rfl

end Runs

/-- A job is about to be dispatched. -/
def counterCalled : List (Action (Code counter)) :=
  [.register 1 1, .spawn (.dispatch [7])]

/-- However its steps interleave, the job is over in the end. -/
theorem runs_complete_counter :
    (counterAfter counterCalled).shared.client.job 1 = none ∧
      Lts.EndsIn (machineStep (stackClient counterHooks)) (Asked askedFor)
        (fun s => s.shared.shutdown = true ∨ AtRest s) (counterAfter counterCalled) :=
  ⟨rfl, runs_complete (counterAfter_reached rfl) Nat.one_pos⟩

end Braids.Runtime
