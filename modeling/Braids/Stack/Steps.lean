import Mathlib.Tactic.Common
import Braids.Executor.Cascade
import Braids.Stack.Client

/-!
# Anatomy of a Stack Step

`StackStep` lists what one step of `stack.rs` can do, and `stackStep_cases` shows that
nothing else happens. The lemmas before it read the job heap after a write.
-/

namespace Braids

variable {ρ : Type}

/-! ### Reading the job heap -/

/-- The jobs of a stack after one of them was written. -/
theorem StackInner.setJob_job (st : StackInner ρ) (j j' : JobId) (job : Job ρ) :
    (st.setJob j job).job j' = if j' = j then some job else st.job j' := by
  simp [StackInner.setJob, Function.update_apply]

/-- A job of a stack that is there. -/
theorem StackMem.job?_of_some {mem : StackMem ρ} {s : StackId} {st : StackInner ρ}
    (h : mem[s]? = some st) (j : JobId) : mem.job? s j = st.job j := by
  simp [StackMem.job?, h]

/-- The jobs after one stack was written. -/
theorem StackMem.job?_put {mem : StackMem ρ} {s : StackId} {st : StackInner ρ}
    (h : mem[s]? = some st) (st' : StackInner ρ) (s' : StackId) (j : JobId) :
    (mem.put s st').job? s' j = if s' = s then st'.job j else mem.job? s' j := by
  have hlt : s < mem.length := (List.getElem?_eq_some_iff.mp h).1
  by_cases hs : s' = s
  · subst hs
    simp [StackMem.job?, StackMem.put, hlt]
  · have hne : s ≠ s' := fun he => hs he.symm
    simp [StackMem.job?, StackMem.put, List.getElem?_set_ne hne, hs]

/-- The jobs after one job was written, and something else that is no job. -/
theorem StackMem.job?_put_setJob {mem : StackMem ρ} {s : StackId} {st st' : StackInner ρ}
    (h : mem[s]? = some st) (j : JobId) (job : Job ρ) (s' : StackId) (j' : JobId)
    (hst : st'.job = (st.setJob j job).job) :
    (mem.put s st').job? s' j' = if s' = s ∧ j' = j then some job else mem.job? s' j' := by
  rw [StackMem.job?_put h, hst, StackInner.setJob_job]
  by_cases hs : s' = s
  · subst hs
    rw [StackMem.job?_of_some h]
    simp
  · simp [hs]

/-- The jobs after a write that is about no job. -/
theorem StackMem.job?_put_same {mem : StackMem ρ} {s : StackId} {st st' : StackInner ρ}
    (h : mem[s]? = some st) (s' : StackId) (j : JobId) (hst : st'.job = st.job) :
    (mem.put s st').job? s' j = mem.job? s' j := by
  rw [StackMem.job?_put h, hst]
  by_cases hs : s' = s
  · subst hs
    rw [if_pos rfl, StackMem.job?_of_some h]
  · rw [if_neg hs]

/-! ### The steps of a task -/

/-- One while the program point is responsible for its job: it will end the job or pass it
on. -/
def JobCode.carries : JobCode ρ → ℕ
  | .await | .released | .ended => 0
  | _ => 1

/-- Nobody is left waiting for a record that is over. -/
def JobRecord.Quiet (r : JobRecord ρ) : Prop := r.state.terminal = true → r.wake = []

/-- What one step of a task on backend `b` does to its job. -/
inductive JobStep (b : BackendId) (job : Job ρ) :
    JobCode ρ → Job ρ → ClientAct (JobCode ρ) JobTask → Prop
  /-- The task goes on with its job. -/
  | move {code code' : JobCode ρ} {job' : Job ρ} (hcode : code.carries = 1)
      (hcode' : code'.carries = 1) (hd : job'.dispatched = job.dispatched)
      (hquiet : job.record.Quiet → job'.record.Quiet) : JobStep b job code job' (.goto code')
  /-- The task ends its job. -/
  | ends {code : JobCode ρ} {job' : Job ρ} (hcode : code.carries = 1)
      (hd : job'.dispatched = job.dispatched) (hterm : job'.record.state.terminal = true)
      (hquiet : job'.record.Quiet) : JobStep b job code job' (.goto .released)
  | submit {next : JobTask} : JobStep b job (.schedule next) job (.submit next .await)
  | schedule {i : ℕ} :
      JobStep b job (.schedule (.stage i)) job (.schedule b (.stage i) .await)
  /-- The task returns. -/
  | leave {code : JobCode ρ} {act : ClientAct (JobCode ρ) JobTask} (hcode : code.carries = 0)
      (hact : act = .ret .ok ∨ act = .shutdown .ended) : JobStep b job code job act

/-- Every step of a task is a `JobStep`. -/
theorem jobStep_cases {H : Hooks ρ} {b : BackendId} {choice : ℕ} {job job' : Job ρ}
    {code : JobCode ρ} {act : ClientAct (JobCode ρ) JobTask}
    (h : jobStep H b choice job code = some (job', act)) : JobStep b job code job' act := by
  cases code with
  | await => simp [jobStep] at h
  | encode | stage i | decode =>
      simp only [jobStep, Option.some.injEq, Prod.mk.injEq] at h
      obtain ⟨rfl, rfl⟩ := h
      refine .move rfl ?_ rfl id
      split <;> rfl
  | encodeMark =>
      simp only [jobStep, Option.some.injEq, Prod.mk.injEq] at h
      obtain ⟨rfl, rfl⟩ := h
      exact .move rfl rfl rfl fun _ _ => rfl
  | encodeRun | encodeStore | decodeTake | decodeRun =>
      simp only [jobStep] at h
      split at h <;> simp only [Option.some.injEq, Prod.mk.injEq] at h <;>
        obtain ⟨rfl, rfl⟩ := h <;> exact .move rfl rfl rfl id
  | stageRun i =>
      simp only [jobStep] at h
      split at h
      · simp only [Option.some.injEq, Prod.mk.injEq] at h
        obtain ⟨rfl, rfl⟩ := h
        exact .move rfl rfl rfl id
      · simp only [Option.some.injEq, Prod.mk.injEq] at h
        obtain ⟨rfl, rfl⟩ := h
        exact .move rfl rfl rfl id
      · split at h
        · split at h <;> simp only [Option.some.injEq, Prod.mk.injEq] at h <;>
            obtain ⟨rfl, rfl⟩ := h <;> exact .move rfl rfl rfl id
        · simp only [Option.some.injEq, Prod.mk.injEq] at h
          obtain ⟨rfl, rfl⟩ := h
          exact .move rfl rfl rfl id
  | finishCompleted values =>
      simp only [jobStep, Option.some.injEq, Prod.mk.injEq] at h
      obtain ⟨rfl, rfl⟩ := h
      exact .ends rfl rfl rfl fun _ => rfl
  | schedule next =>
      cases next with
      | stage i =>
          simp only [jobStep, Option.some.injEq, Prod.mk.injEq] at h
          obtain ⟨rfl, rfl⟩ := h
          exact .schedule
      | encode | decode =>
          simp only [jobStep, Option.some.injEq, Prod.mk.injEq] at h
          obtain ⟨rfl, rfl⟩ := h
          exact .submit
  | caught error =>
      simp only [jobStep, Option.some.injEq, Prod.mk.injEq] at h
      obtain ⟨rfl, rfl⟩ := h
      exact .move rfl rfl rfl id
  | finish error =>
      cases error <;> simp only [jobStep, Option.some.injEq, Prod.mk.injEq] at h <;>
        obtain ⟨rfl, rfl⟩ := h <;> exact .ends rfl rfl rfl fun _ => rfl
  | released =>
      simp only [jobStep, Option.some.injEq, Prod.mk.injEq] at h
      obtain ⟨rfl, rfl⟩ := h
      refine .leave rfl ?_
      split
      · exact .inl rfl
      · exact .inr rfl
  | ended =>
      simp only [jobStep, Option.some.injEq, Prod.mk.injEq] at h
      obtain ⟨rfl, rfl⟩ := h
      exact .leave rfl (.inl rfl)

/-! ### The steps of the client -/

/-- What one step of `stack.rs` does. -/
inductive StackStep (mem : StackMem ρ) :
    Code ρ → StackMem ρ → ClientAct (Code ρ) Task → Prop
  | dispatch {s : StackId} {version : Version} :
      StackStep mem (.dispatch s) mem (.goto (.dispatchId s version))
  | dispatchId {s : StackId} {version : Version} {st : StackInner ρ} (hst : mem[s]? = some st) :
      StackStep mem (.dispatchId s version)
        (mem.put s { st.setJob st.nextJobId { version } with nextJobId := st.nextJobId + 1 })
        (.goto (.dispatchInsert s st.nextJobId))
  | dispatchInsert {s : StackId} {j : JobId} {st : StackInner ρ} (hst : mem[s]? = some st) :
      StackStep mem (.dispatchInsert s j)
        (mem.put s { st with jobs := st.jobs ++ [j] }) (.goto (.dispatchSubmit s j))
  | dispatchSubmit {s : StackId} {j : JobId} :
      StackStep mem (.dispatchSubmit s j) mem
        (.submit ⟨s, j, .encode⟩ (.dispatchWait s j))
  | dispatchOk {s : StackId} {j : JobId} {st : StackInner ρ} {job : Job ρ}
      (hst : mem[s]? = some st) (hjob : st.job j = some job) :
      StackStep mem (.dispatchOk s j)
        (mem.put s (st.setJob j { job with dispatched := .accepted })) (.ret .ok)
  | dispatchErr {s : StackId} {j : JobId} {error : BraidError} {st : StackInner ρ} {job : Job ρ}
      (hst : mem[s]? = some st) (hjob : st.job j = some job) :
      StackStep mem (.dispatchErr s j error)
        (mem.put s { st.setJob j { job with dispatched := .refused } with
          jobs := st.jobs.erase j }) (.ret (.err error))
  | task {s : StackId} {j : JobId} {code : JobCode ρ} {st : StackInner ρ} {job job' : Job ρ}
      {act : ClientAct (JobCode ρ) JobTask} (hst : mem[s]? = some st)
      (hjob : st.job j = some job) (h : JobStep st.backend job code job' act) :
      StackStep mem (.task s j code) (mem.put s (st.setJob j job'))
        (act.ofJob s j)
  | poisoned {s : StackId} :
      StackStep mem (.recompile s) mem (.ret (.err (.poisoned "stack.state")))
  | lockState {s : StackId} {st : StackInner ρ} (hst : mem[s]? = some st) :
      StackStep mem (.recompile s) (mem.put s { st with stateLock := .held })
        (.goto (.compile s))
  | compiled {s : StackId} {b : BackendId} {stages : ℕ} :
      StackStep mem (.compile s) mem
        (.prepare b .prepareHook (.preparing s stages))
  | compileFailed {s : StackId} {st : StackInner ρ} {lock : StateLock} {r : CallResult}
      (hst : mem[s]? = some st) :
      StackStep mem (.compile s) (mem.put s { st with stateLock := lock })
        (.ret r)
  | prepareHook {r : CallResult} : StackStep mem .prepareHook mem (.ret r)
  | prepared {s : StackId} {stages : ℕ} {version : Version} {st : StackInner ρ}
      (hst : mem[s]? = some st) :
      StackStep mem (.prepared s stages .ok)
        (mem.put s { st with nextVersionId := st.nextVersionId + 1 })
        (.goto (.publish s version))
  | prepareFailed {s : StackId} {stages : ℕ} {st : StackInner ρ} {lock : StateLock}
      {r r' : CallResult} (hst : mem[s]? = some st) :
      StackStep mem (.prepared s stages r)
        (mem.put s { st with stateLock := lock }) (.ret r')
  | publish {s : StackId} {version : Version} {st : StackInner ρ} (hst : mem[s]? = some st) :
      StackStep mem (.publish s version)
        (mem.put s { st with version, stateLock := .free }) (.ret .ok)
  /-- `collect` is done, or the id was never drawn. -/
  | collectEnd {s : StackId} {j : JobId} {p : CollectPoint ρ} {r : CallResult} :
      StackStep mem (.collect s j p) mem (.ret r)
  | collect {s : StackId} {j : JobId} {p p' : CollectPoint ρ} {st : StackInner ρ} {job : Job ρ}
      {record : JobRecord ρ} {jobs : List JobId} (hst : mem[s]? = some st)
      (hjob : st.job j = some job)
      (hrecord : record.state.terminal = job.record.state.terminal)
      (hquiet : job.record.Quiet → record.Quiet) :
      StackStep mem (.collect s j p)
        (mem.put s { st.setJob j { job with record } with jobs }) (.goto (.collect s j p'))
  | cancel {s : StackId} {j : JobId} {st : StackInner ρ} {job : Job ρ}
      (hst : mem[s]? = some st) (hjob : st.job j = some job) :
      StackStep mem (.cancel s j)
        (mem.put s (st.setJob j { job with record := { job.record with cancel := true } }))
        (.ret .ok)
  | cancelUnknown {s : StackId} {j : JobId} :
      StackStep mem (.cancel s j) mem (.ret .ok)
  | shutdown : StackStep mem .shutdown mem (.shutdown .ended)
  | ended : StackStep mem .ended mem (.ret .ok)

/-- A collector keeps a record terminal or not. -/
theorem collectStep_terminal {self : ThreadId} {present present' : Bool} {r r' : JobRecord ρ}
    {p p' : CollectPoint ρ} (h : collectStep self present r p = some (present', r', p')) :
    r'.state.terminal = r.state.terminal := by
  cases p with
  | lookup =>
      simp only [collectStep] at h
      split at h <;> simp only [Option.some.injEq, Prod.mk.injEq] at h <;>
        obtain ⟨-, rfl, -⟩ := h <;> rfl
  | take =>
      simp only [collectStep, JobRecord.take] at h
      cases hs : r.state <;> simp only [hs, Option.some.injEq, Prod.mk.injEq] at h <;>
        obtain ⟨-, rfl, -⟩ := h <;> simp [JobRecord.park, JobRecordState.terminal, hs]
  | parked =>
      simp only [collectStep] at h
      split at h
      · simp at h
      · simp only [Option.some.injEq, Prod.mk.injEq] at h
        obtain ⟨-, rfl, -⟩ := h
        rfl
  | remove result =>
      simp only [collectStep, Option.some.injEq, Prod.mk.injEq] at h
      obtain ⟨-, rfl, -⟩ := h
      rfl
  | done result => simp [collectStep] at h

/-- A collector waits only for a record that is not over. -/
theorem collectStep_quiet {self : ThreadId} {present present' : Bool} {r r' : JobRecord ρ}
    {p p' : CollectPoint ρ} (h : collectStep self present r p = some (present', r', p'))
    (hr : r.Quiet) : r'.Quiet := by
  cases p with
  | lookup =>
      simp only [collectStep] at h
      split at h <;> simp only [Option.some.injEq, Prod.mk.injEq] at h <;>
        obtain ⟨-, rfl, -⟩ := h <;> exact hr
  | take =>
      simp only [collectStep, JobRecord.take] at h
      cases hs : r.state <;> simp only [hs, Option.some.injEq, Prod.mk.injEq] at h <;>
        obtain ⟨-, rfl, -⟩ := h <;> simp_all [JobRecord.Quiet, JobRecord.park,
          JobRecordState.terminal]
  | parked =>
      simp only [collectStep] at h
      split at h
      · simp at h
      · simp only [Option.some.injEq, Prod.mk.injEq] at h
        obtain ⟨-, rfl, -⟩ := h
        exact hr
  | remove result =>
      simp only [collectStep, Option.some.injEq, Prod.mk.injEq] at h
      obtain ⟨-, rfl, -⟩ := h
      exact hr
  | done result => simp [collectStep] at h

/-- Every step of `stack.rs` is a `StackStep`. -/
theorem stackStep_cases {H : Hooks ρ} {self : ThreadId} {choice : ℕ} {mem mem' : StackMem ρ}
    {code : Code ρ} {act : ClientAct (Code ρ) Task}
    (h : stackStep H self choice mem code = some (mem', act)) :
    StackStep mem code mem' act := by
  cases code with
  | dispatchWait s j => simp [stackStep] at h
  | preparing s stages => simp [stackStep] at h
  | dispatch s =>
      simp only [stackStep, bind, Option.bind_eq_some_iff, Option.pure_def, Option.some.injEq,
        Prod.mk.injEq] at h
      obtain ⟨st, -, rfl, rfl⟩ := h
      exact .dispatch
  | dispatchId s version =>
      simp only [stackStep, bind, Option.bind_eq_some_iff, Option.pure_def, Option.some.injEq,
        Prod.mk.injEq] at h
      obtain ⟨st, hst, rfl, rfl⟩ := h
      exact .dispatchId hst
  | dispatchInsert s j =>
      simp only [stackStep, bind, Option.bind_eq_some_iff, Option.pure_def, Option.some.injEq,
        Prod.mk.injEq] at h
      obtain ⟨st, hst, rfl, rfl⟩ := h
      exact .dispatchInsert hst
  | dispatchSubmit s j =>
      simp only [stackStep, Option.some.injEq, Prod.mk.injEq] at h
      obtain ⟨rfl, rfl⟩ := h
      exact .dispatchSubmit
  | dispatchOk s j =>
      simp only [stackStep, bind, Option.bind_eq_some_iff, Option.pure_def, Option.some.injEq,
        Prod.mk.injEq] at h
      obtain ⟨st, hst, job, hjob, rfl, rfl⟩ := h
      exact .dispatchOk hst hjob
  | dispatchErr s j error =>
      simp only [stackStep, bind, Option.bind_eq_some_iff, Option.pure_def, Option.some.injEq,
        Prod.mk.injEq] at h
      obtain ⟨st, hst, job, hjob, rfl, rfl⟩ := h
      exact .dispatchErr hst hjob
  | task s j code =>
      simp only [stackStep, bind, Option.bind_eq_some_iff, Option.pure_def, Option.some.injEq,
        Prod.mk.injEq] at h
      obtain ⟨st, hst, job, hjob, ⟨job', act'⟩, hstep, rfl, rfl⟩ := h
      exact .task hst hjob (jobStep_cases hstep)
  | recompile s =>
      simp only [stackStep, bind, Option.bind_eq_some_iff] at h
      obtain ⟨st, hst, h⟩ := h
      split at h
      · simp only [Option.pure_def, Option.some.injEq, Prod.mk.injEq] at h
        obtain ⟨rfl, rfl⟩ := h
        exact .poisoned
      · simp at h
      · simp only [Option.pure_def, Option.some.injEq, Prod.mk.injEq] at h
        obtain ⟨rfl, rfl⟩ := h
        exact .lockState hst
  | compile s =>
      simp only [stackStep, bind, Option.bind_eq_some_iff] at h
      obtain ⟨st, hst, h⟩ := h
      split at h <;> simp only [Option.pure_def, Option.some.injEq, Prod.mk.injEq] at h <;>
        obtain ⟨rfl, rfl⟩ := h
      · exact .compiled
      · exact .compileFailed hst
      · exact .compileFailed hst
  | prepareHook =>
      simp only [stackStep] at h
      split at h <;> simp only [Option.some.injEq, Prod.mk.injEq] at h <;>
        obtain ⟨rfl, rfl⟩ := h <;> exact .prepareHook
  | prepared s stages result =>
      simp only [stackStep, bind, Option.bind_eq_some_iff] at h
      obtain ⟨st, hst, h⟩ := h
      split at h <;> simp only [Option.pure_def, Option.some.injEq, Prod.mk.injEq] at h <;>
        obtain ⟨rfl, rfl⟩ := h
      · exact .prepared hst
      · exact .prepareFailed hst
      · exact .prepareFailed hst
  | publish s version =>
      simp only [stackStep, bind, Option.bind_eq_some_iff, Option.pure_def, Option.some.injEq,
        Prod.mk.injEq] at h
      obtain ⟨st, hst, rfl, rfl⟩ := h
      exact .publish hst
  | collect s j p =>
      simp only [stackStep, bind, Option.bind_eq_some_iff] at h
      obtain ⟨st, hst, h⟩ := h
      split at h
      · simp only [Option.pure_def, Option.some.injEq, Prod.mk.injEq] at h
        obtain ⟨rfl, rfl⟩ := h
        exact .collectEnd
      · simp only [Option.pure_def, Option.some.injEq, Prod.mk.injEq] at h
        obtain ⟨rfl, rfl⟩ := h
        exact .collectEnd
      · next job hjob _ =>
          simp only [Option.bind_eq_some_iff, Option.pure_def, Option.some.injEq,
            Prod.mk.injEq] at h
          obtain ⟨⟨present, record, p'⟩, hstep, rfl, rfl⟩ := h
          refine .collect hst hjob ?_ fun hr => collectStep_quiet hstep ?_
          · rw [collectStep_terminal hstep]
            split <;> rfl
          · split
            · exact hr
            · intro hterm
              simp [JobRecord.unpark, hr hterm]
  | cancel s j =>
      simp only [stackStep, bind, Option.bind_eq_some_iff] at h
      obtain ⟨st, hst, h⟩ := h
      split at h
      · next job hjob =>
          split at h <;> simp only [Option.pure_def, Option.some.injEq, Prod.mk.injEq] at h <;>
            obtain ⟨rfl, rfl⟩ := h
          · exact .cancel hst hjob
          · exact .cancelUnknown
      · simp only [Option.pure_def, Option.some.injEq, Prod.mk.injEq] at h
        obtain ⟨rfl, rfl⟩ := h
        exact .cancelUnknown
  | shutdown =>
      simp only [stackStep, Option.some.injEq, Prod.mk.injEq] at h
      obtain ⟨rfl, rfl⟩ := h
      exact .shutdown
  | ended =>
      simp only [stackStep, Option.some.injEq, Prod.mk.injEq] at h
      obtain ⟨rfl, rfl⟩ := h
      exact .ended

/-! ### The steps of a rejection -/

/-- What one step of `reject_scheduled_task` does. -/
inductive RejectStep (mem : StackMem ρ) :
    RejectCode → StackMem ρ → Option RejectCode → Prop
  | cleanup {s : StackId} {j : JobId} {error : BraidError} {st : StackInner ρ} {job : Job ρ}
      (hst : mem[s]? = some st) (hjob : st.job j = some job) :
      RejectStep mem (.cleanup s j error)
        (mem.put s (st.setJob j { job with packet := job.packet.cleanup }))
        (some (.fail s j error))
  | cleanupGone {s : StackId} {j : JobId} {error : BraidError} (h : mem.job? s j = none) :
      RejectStep mem (.cleanup s j error) mem (some (.fail s j error))
  | fail {s : StackId} {j : JobId} {error : BraidError} {st : StackInner ρ} {job : Job ρ}
      (hst : mem[s]? = some st) (hjob : st.job j = some job) :
      RejectStep mem (.fail s j error)
        (mem.put s (st.setJob j { job with record := job.record.finishFailed error })) none
  | failGone {s : StackId} {j : JobId} {error : BraidError} (h : mem.job? s j = none) :
      RejectStep mem (.fail s j error) mem none

/-- Every step of `reject_scheduled_task` is a `RejectStep`. -/
theorem rejectStep_cases {mem mem' : StackMem ρ} {code : RejectCode}
    {next : Option RejectCode} (h : rejectStep mem code = (mem', next)) :
    RejectStep mem code mem' next := by
  cases code with
  | cleanup s j error =>
      simp only [rejectStep] at h
      split at h
      · next st job hst hjob =>
          simp only [Prod.mk.injEq] at h
          obtain ⟨rfl, rfl⟩ := h
          exact .cleanup hst (StackMem.job?_of_some hst j ▸ hjob)
      · next hnone =>
          simp only [Prod.mk.injEq] at h
          obtain ⟨rfl, rfl⟩ := h
          refine .cleanupGone (Option.eq_none_iff_forall_ne_some.mpr fun job hjob => ?_)
          obtain ⟨st, hst, -⟩ := Option.bind_eq_some_iff.mp hjob
          exact hnone st job hst hjob
  | fail s j error =>
      simp only [rejectStep] at h
      split at h
      · next st job hst hjob =>
          simp only [Prod.mk.injEq] at h
          obtain ⟨rfl, rfl⟩ := h
          exact .fail hst (StackMem.job?_of_some hst j ▸ hjob)
      · next hnone =>
          simp only [Prod.mk.injEq] at h
          obtain ⟨rfl, rfl⟩ := h
          refine .failGone (Option.eq_none_iff_forall_ne_some.mpr fun job hjob => ?_)
          obtain ⟨st, hst, -⟩ := Option.bind_eq_some_iff.mp hjob
          exact hnone st job hst hjob

/-- The reject side of a task comes to its end in two steps. -/
theorem rejectRuns (H : Hooks ρ) (mem : StackMem ρ) (s : StackId) (j : JobId)
    (error : BraidError) : ∃ mem', RejectRuns (stackClient H) mem (.cleanup s j error) mem' := by
  have hcleanup : ∃ mem₁, rejectStep mem (.cleanup s j error) = (mem₁, some (.fail s j error)) := by
    simp only [rejectStep]
    split <;> exact ⟨_, rfl⟩
  obtain ⟨mem₁, hcleanup⟩ := hcleanup
  have hfail : ∃ mem₂, rejectStep mem₁ (.fail s j error) = (mem₂, none) := by
    simp only [rejectStep]
    split <;> exact ⟨_, rfl⟩
  obtain ⟨mem₂, hfail⟩ := hfail
  exact ⟨mem₂, .next hcleanup (.last hfail)⟩

/-- **The reject sides of tasks of `stack.rs` come to an end**, so a rejection cascade of a stack
does. -/
theorem rejectsRun (H : Hooks ρ) (mem : StackMem ρ) (tasks : List (Scheduled Task)) :
    ∃ mem', RejectsRun (stackClient H) mem tasks mem' := by
  induction tasks generalizing mem with
  | nil => exact ⟨mem, .nil⟩
  | cons task tasks ih =>
      obtain ⟨mem₁, hreject⟩ := rejectRuns H mem task.closure.stack task.closure.job
        .executorShutdown
      obtain ⟨mem', hrest⟩ := ih mem₁
      exact ⟨mem', .cons hreject hrest⟩

/-! ### Ids that were not drawn -/

/-- Ids that were not drawn have no job. -/
def FreshIds (mem : StackMem ρ) : Prop :=
  ∀ (s : StackId) (st : StackInner ρ), mem[s]? = some st → ∀ j, st.nextJobId ≤ j → st.job j = none

/-- Writing a stack keeps ids fresh when the stack keeps them fresh. -/
theorem FreshIds.put {mem : StackMem ρ} (h : FreshIds mem) {s : StackId} {st : StackInner ρ}
    (hst : ∀ j, st.nextJobId ≤ j → st.job j = none) : FreshIds (mem.put s st) := by
  intro s' st' hst' j hj
  rw [StackMem.put, List.getElem?_set] at hst'
  by_cases hs : s = s'
  · rw [if_pos hs] at hst'
    obtain ⟨-, heq⟩ := Option.ite_none_right_eq_some.mp hst'
    obtain rfl := Option.some.inj heq
    exact hst j hj
  · rw [if_neg hs] at hst'
    exact h s' st' hst' j hj

/-- Writing a job that is there keeps ids fresh. -/
theorem FreshIds.setJob {mem : StackMem ρ} (h : FreshIds mem) {s : StackId}
    {st : StackInner ρ} (hst : mem[s]? = some st) {j : JobId} {job : Job ρ}
    (hjob : st.job j = some job) (job' : Job ρ) (j' : JobId) (hj' : st.nextJobId ≤ j') :
    (st.setJob j job').job j' = none := by
  rw [StackInner.setJob_job]
  by_cases hjj : j' = j
  · subst hjj
    simp [h s st hst j' hj'] at hjob
  · rw [if_neg hjj]
    exact h s st hst j' hj'

/-- A step of `stack.rs` draws fresh ids only. -/
theorem StackStep.freshIds {mem mem' : StackMem ρ} {code : Code ρ}
    {act : ClientAct (Code ρ) Task} (h : StackStep mem code mem' act) (hfresh : FreshIds mem) :
    FreshIds mem' := by
  cases h with
  | dispatch | dispatchSubmit | poisoned | compiled | prepareHook | collectEnd | cancelUnknown
  | shutdown | ended => exact hfresh
  | dispatchInsert hst | lockState hst | compileFailed hst | prepared hst | prepareFailed hst
  | publish hst =>
      have hold := hfresh _ _ hst
      exact hfresh.put hold
  | @dispatchId s version st hst =>
      refine hfresh.put fun j hj => ?_
      have hlt : st.nextJobId < j := hj
      change (st.setJob st.nextJobId { version }).job j = none
      rw [StackInner.setJob_job, if_neg (Nat.ne_of_gt hlt)]
      exact hfresh s st hst j (Nat.le_of_lt hlt)
  | dispatchOk hst hjob | dispatchErr hst hjob | task hst hjob | collect hst hjob
  | cancel hst hjob => exact hfresh.put (hfresh.setJob hst hjob _)

/-- A rejection draws no ids. -/
theorem RejectStep.freshIds {mem mem' : StackMem ρ} {code : RejectCode}
    {next : Option RejectCode} (h : RejectStep mem code mem' next) (hfresh : FreshIds mem) :
    FreshIds mem' := by
  cases h with
  | cleanup hst hjob | fail hst hjob => exact hfresh.put (hfresh.setJob hst hjob _)
  | cleanupGone | failGone => exact hfresh

/-! ### Records that are over -/

/-- Nobody is left waiting for a job that is over. -/
def QuietRecords (mem : StackMem ρ) : Prop :=
  ∀ (s : StackId) (j : JobId) (job : Job ρ), mem.job? s j = some job → job.record.Quiet

/-- Writing a job with a quiet record keeps the records quiet. -/
theorem QuietRecords.put {mem : StackMem ρ} (h : QuietRecords mem) {s : StackId}
    {st st' : StackInner ρ} (hst : mem[s]? = some st) (j : JobId) (job : Job ρ)
    (hst' : st'.job = (st.setJob j job).job) (hjob : job.record.Quiet) :
    QuietRecords (mem.put s st') := by
  intro s' j' job' hjob'
  rw [StackMem.job?_put_setJob hst j job s' j' hst'] at hjob'
  by_cases hsj : s' = s ∧ j' = j
  · rw [if_pos hsj] at hjob'
    obtain rfl := Option.some.inj hjob'
    exact hjob
  · rw [if_neg hsj] at hjob'
    exact h s' j' job' hjob'

/-- A write that is about no job keeps the records quiet. -/
theorem QuietRecords.put_same {mem : StackMem ρ} (h : QuietRecords mem) {s : StackId}
    {st st' : StackInner ρ} (hst : mem[s]? = some st) (hst' : st'.job = st.job) :
    QuietRecords (mem.put s st') := by
  intro s' j' job' hjob'
  rw [StackMem.job?_put_same hst s' j' hst'] at hjob'
  exact h s' j' job' hjob'

/-- The record of a job that is there. -/
theorem QuietRecords.job {mem : StackMem ρ} (h : QuietRecords mem) {s : StackId}
    {st : StackInner ρ} (hst : mem[s]? = some st) {j : JobId} {job : Job ρ}
    (hjob : st.job j = some job) : job.record.Quiet :=
  h s j job (by rw [StackMem.job?_of_some hst, hjob])

/-- A step of a task keeps the record of its job quiet. -/
theorem JobStep.quiet {b : BackendId} {job job' : Job ρ} {code : JobCode ρ}
    {act : ClientAct (JobCode ρ) JobTask} (h : JobStep b job code job' act)
    (hq : job.record.Quiet) : job'.record.Quiet := by
  cases h with
  | move _ _ _ hquiet => exact hquiet hq
  | ends _ _ _ hquiet => exact hquiet
  | submit | schedule | leave => exact hq

/-- A step of `stack.rs` keeps the records quiet. -/
theorem StackStep.quietRecords {mem mem' : StackMem ρ} {code : Code ρ}
    {act : ClientAct (Code ρ) Task} (h : StackStep mem code mem' act)
    (hq : QuietRecords mem) : QuietRecords mem' := by
  cases h with
  | dispatch | dispatchSubmit | poisoned | compiled | prepareHook | collectEnd | cancelUnknown
  | shutdown | ended => exact hq
  | dispatchInsert hst | lockState hst | compileFailed hst | prepared hst | prepareFailed hst
  | publish hst => exact hq.put_same hst (by rfl)
  | @dispatchId s version st hst =>
      exact hq.put hst st.nextJobId { version } (by rfl) fun _ => rfl
  | @dispatchOk s j st job hst hjob =>
      have hold := hq.job hst hjob
      exact hq.put hst j { job with dispatched := .accepted } (by rfl) hold
  | @dispatchErr s j error st job hst hjob =>
      have hold := hq.job hst hjob
      exact hq.put hst j { job with dispatched := .refused } (by rfl) hold
  | @task s j code st job job' act hst hjob h =>
      exact hq.put hst j job' (by rfl) (h.quiet (hq.job hst hjob))
  | @collect s j p p' st job record jobs hst hjob hrecord hquiet =>
      exact hq.put hst j { job with record } (by rfl) (hquiet (hq.job hst hjob))
  | @cancel s j st job hst hjob =>
      have hold := hq.job hst hjob
      exact hq.put hst j { job with record := { job.record with cancel := true } } (by rfl) hold

/-- A rejection keeps the records quiet. -/
theorem RejectStep.quietRecords {mem mem' : StackMem ρ} {code : RejectCode}
    {next : Option RejectCode} (h : RejectStep mem code mem' next) (hq : QuietRecords mem) :
    QuietRecords mem' := by
  cases h with
  | @cleanup s j error st job hst hjob =>
      have hold := hq.job hst hjob
      exact hq.put hst j { job with packet := job.packet.cleanup } (by rfl) hold
  | @fail s j error st job hst hjob =>
      exact hq.put hst j { job with record := job.record.finishFailed error } (by rfl)
        fun _ => rfl
  | cleanupGone | failGone => exact hq

end Braids
