import Braids.Runtime.Turns

/-!
# The Coarser Model of `stack.rs`

`Braids.stackClient` models a stack down to who ends a job and who is woken: a version is its id
and the number of its stages, a packet is there or not, and a hook returns whatever the number
of the step picks. `stackClient` has all the data and more program points. Seen through `view`,
each of its steps is one of the coarser model or none, for hooks that return what they returned
here. So what holds of every run of a task there holds of its runs here.

## Main results

* `task_refines`: a step of a task.
* `reject_refines`: a step of its reject side.
* `Reached.refines`: a step of `dispatch`, `collect`, `cancel`, `shutdown` or a task, in every
  reachable state.
-/

namespace Braids.Runtime

variable {T : Types} {H : Hooks T}

/-! ### What the coarser model sees -/

/-- A version is its id and the number of its stages. -/
def Version.view (version : Version T) : Braids.Version := ⟨version.id, version.stages.length⟩

/-- A packet slot is empty, filled or poisoned. -/
def slotView : MutexState → Option Packet → PacketSlot
  | .poisoned, _ => .poisoned
  | _, some _ => .stored
  | _, none => .empty

/-- `JobExecution` without its data. -/
def Job.view (job : Job T) : Braids.Job T.Resolution where
  record := job.record
  version := job.version.view
  packet := slotView job.packetLock job.packet
  dispatched := job.dispatched

/-- The program point that a program point is part of. -/
def JobCode.view : JobCode T → Braids.JobCode T.Resolution
  | .encode => .encode
  | .mark => .encodeMark
  | .checkout | .scratch _ | .encodeHook _ | .encoded _ _ => .encodeRun
  | .store _ => .encodeStore
  | .stage i => .stage i
  | .stageLock i | .stageHook i _ _ => .stageRun i
  | .decode => .decode
  | .take => .decodeTake
  | .decodeHook _ | .giveBack _ _ => .decodeRun
  | .finishCompleted values => .finishCompleted values
  | .schedule next => .schedule next
  | .await _ => .await
  | .recycle _ error | .refused _ error | .caught _ error => .caught error
  | .cleanup _ _ error | .finish _ error => .finish error
  | .released => .released
  | .ended => .ended

/-- What a task asks for. -/
def actView (act : ClientAct (JobCode T) JobTask) :
    ClientAct (Braids.JobCode T.Resolution) JobTask :=
  liftAct JobCode.view id act

/-- Hooks of the coarser model that return the same whenever they are called. -/
def returning {ρ : Type} (encode stage : HookResult Unit) (decode : HookResult (List ρ)) :
    Braids.Hooks ρ where
  compile _ := .panicked
  prepare _ := .panicked
  encode _ := encode
  stage _ := stage
  decode _ := decode

/-- What a task does is a step of the coarser model, or nothing. A stage may set the cancel flag
of its own job, which in the coarser model somebody else does. -/
def TaskRefines (b : BackendId) (job : Job T) (code : JobCode T) (job' : Job T)
    (act : ClientAct (JobCode T) JobTask) : Prop :=
  (∃ next, act = .goto next ∧ next.view = code.view ∧ job'.view = job.view) ∨
    ∃ hooks choice, ∃ job₀ : Braids.Job T.Resolution,
      Braids.jobStep hooks b choice job.view code.view = some (job₀, actView act) ∧
      job'.view = { job₀ with record := { job₀.record with cancel := job'.record.cancel } }

section Tasks

variable {b : BackendId} {n : ℕ} {pools pools' : Pools} {job job' : Job T} {code : JobCode T}
  {act : ClientAct (JobCode T) JobTask}

/-- A step that the coarser model takes in the same way. -/
theorem TaskRefines.same (hooks : Braids.Hooks T.Resolution) (choice : ℕ)
    (h : Braids.jobStep hooks b choice job.view code.view = some (job'.view, actView act)) :
    TaskRefines b job code job' act :=
  .inr ⟨hooks, choice, job'.view, h, rfl⟩

/-- A step that the coarser model does not see. -/
theorem TaskRefines.stays {next : JobCode T} (hview : next.view = code.view)
    (hjob : job'.view = job.view) : TaskRefines b job code job' (.goto next) :=
  .inl ⟨next, rfl, hview, hjob⟩

/-- Giving a packet back does not show. -/
theorem giveBackPacket_view {pkt : Packet} (h : giveBackPacket pools job pkt = (pools', job')) :
    job'.view = job.view := by
  rw [giveBackPacket] at h
  split at h <;> simp only [Prod.mk.injEq] at h <;> obtain ⟨-, rfl⟩ := h <;> rfl

/-- While a stage runs, its packet is in the slot and its version has the stage. -/
theorem JobCode.Fits.stage_view {ended : Prop} {i : ℕ} {stage : StageSpec} {pkt : Packet}
    (h : (JobCode.stageHook i stage pkt).Fits ended job) :
    job.view = { job.view with packet := .stored } ∧ i < job.view.version.stages := by
  obtain ⟨hstage, hat⟩ := h
  obtain ⟨-, hlock, hp, -⟩ := hat.has
  refine ⟨?_, (List.getElem?_eq_some_iff.mp hstage).1⟩
  simp [Job.view, slotView, hlock, hp]

/-- **A step of a task** is a step of the coarser model, or none. -/
theorem task_refines {ended : Prop} (hclean : job.recordPoisoned = false)
    (hfits : code.Fits ended job)
    (h : jobStep H b n pools job code = some (pools', job', act)) :
    TaskRefines b job code job' act := by
  cases jobStep_cases h with
  | encodeCancelled hcancel | encode hcancel | stageCancelled hcancel | stage hcancel
  | decodeCancelled hcancel | decode hcancel =>
      exact .same (returning .panicked .panicked .panicked) 0
        (by simp [JobCode.view, Braids.jobStep, Job.view, hcancel, actView, liftAct])
  | mark => exact .same (returning .panicked .panicked .panicked) 0 rfl
  | markPoisoned hpoisoned | completedPoisoned hpoisoned => simp [hclean] at hpoisoned
  | checkout | scratch | encodeReturned => exact .stays rfl rfl
  | checkoutPoisoned | scratchPoisoned | encodedPoisoned | encodeFailed =>
      exact .same (returning (.err _) .panicked .panicked) 0 rfl
  | encodePanicked => exact .same (returning .panicked .panicked .panicked) 0 rfl
  | encoded => exact .same (returning (.ok ()) .panicked .panicked) 0 rfl
  | recycle hback | cleanup hback => exact .stays rfl (giveBackPacket_view hback)
  | storePoisoned hlock | stagePoisoned hlock | takePoisoned hlock =>
      exact .same (returning .panicked .panicked .panicked) 0
        (by simp [JobCode.view, Braids.jobStep, Job.view, slotView, hlock, actView, liftAct])
  | storeTwice hlock hp | stageNoPacket hlock hp | takeMissing hlock hp =>
      exact .same (returning .panicked .panicked .panicked) 0
        (by simp [JobCode.view, Braids.jobStep, Job.view, slotView, hlock, hp, actView, liftAct])
  | store hlock hp =>
      refine .same (returning .panicked .panicked .panicked) 0 ?_
      simp [JobCode.view, Braids.jobStep, Job.view, Version.view, Version.afterEncode, slotView,
        hlock, hp, actView, liftAct]
  | stageMissing hlock hp hs =>
      refine .same (returning .panicked .panicked .panicked) 0 ?_
      have hle := List.getElem?_eq_none_iff.mp hs
      simp [JobCode.view, Braids.jobStep, Job.view, Version.view, slotView, hlock, hp, hle, actView,
        liftAct]
  | stageLock hlock hp => exact .stays rfl (by simp [Job.view, slotView, hlock, hp])
  | takeInvalid hlock hp | take hlock hp =>
      exact .same (returning .panicked .panicked .panicked) 0
        (by simp [JobCode.view, Braids.jobStep, Job.view, slotView, hlock, hp, actView, liftAct])
  | decoded | decodeFailed => exact .stays rfl rfl
  | decodePanicked => exact .same (returning .panicked .panicked .panicked) 0 rfl
  | @giveBackOk pkt values _ _ _ hback =>
      refine .same (returning .panicked .panicked (.ok values)) 0 ?_
      rw [giveBackPacket_view hback]
      rfl
  | giveBackPoisoned _ hback =>
      refine .same (returning .panicked .panicked (.err (.poisoned "stack.packet_pool"))) 0 ?_
      rw [giveBackPacket_view hback]
      rfl
  | @giveBackErr pkt error _ _ hback =>
      refine .same (returning .panicked .panicked (.err error)) 0 ?_
      rw [giveBackPacket_view hback]
      rfl
  | completed | scheduleStage => exact .same (returning .panicked .panicked .panicked) 0 rfl
  | @submit next hnext =>
      refine .same (returning .panicked .panicked .panicked) 0 ?_
      cases next with
      | stage i => exact (hnext i rfl).elim
      | _ => rfl
  | refusedStage | refused => exact .stays rfl rfl
  | caughtNone hpacket =>
      refine .same (returning .panicked .panicked .panicked) 0 ?_
      rcases hpacket with hlock | ⟨hlock, hp⟩ <;>
        simp [JobCode.view, Braids.jobStep, Job.view, slotView, PacketSlot.cleanup, *, actView,
          liftAct]
  | caught hlock hp =>
      refine .same (returning .panicked .panicked .panicked) 0 ?_
      simp [JobCode.view, Braids.jobStep, Job.view, slotView, PacketSlot.cleanup, hlock, hp,
        actView, liftAct]
  | @finish again error =>
      refine .same (returning .panicked .panicked .panicked) 0 ?_
      cases error <;> simp [JobCode.view, Braids.jobStep, Job.view, Job.finishWith, hclean, actView,
        liftAct]
  | leave hcode =>
      refine .same (returning .panicked .panicked .panicked) n ?_
      rcases hcode with rfl | rfl <;>
        simp only [jobStep, Option.some.injEq, Prod.mk.injEq] at h <;> obtain ⟨-, -, rfl⟩ := h
      · simp only [JobCode.view, Braids.jobStep]
        split <;> rfl
      · rfl
  | stagePanicked =>
      obtain ⟨hstored, hlt⟩ := hfits.stage_view
      refine .inr ⟨returning .panicked .panicked .panicked, 0,
        { job.view with packet := .poisoned }, ?_, rfl⟩
      rw [JobCode.view, Braids.jobStep, hstored, if_pos hlt]
      rfl
  | @stageFailed i stage pkt data cancelled error =>
      obtain ⟨hstored, hlt⟩ := hfits.stage_view
      refine .inr ⟨returning .panicked (.err error) .panicked, 0,
        { job.view with packet := .stored }, ?_, rfl⟩
      rw [JobCode.view, Braids.jobStep, hstored, if_pos hlt]
      rfl
  | stagePassed =>
      obtain ⟨hstored, hlt⟩ := hfits.stage_view
      refine .inr ⟨returning .panicked (.ok ()) .panicked, 0,
        { job.view with packet := .stored }, ?_, rfl⟩
      rw [JobCode.view, Braids.jobStep, hstored, if_pos hlt]
      rfl

end Tasks

/-! ### The whole stack -/

/-- The mutex around the planner state. -/
def MutexState.view : MutexState → StateLock
  | .free => .free
  | .held => .held
  | .poisoned => .poisoned

/-- `StackInner` without its data. -/
def Mem.view (m : Mem T) : StackInner T.Resolution where
  backend := m.backend
  version := m.planner.current.view
  stateLock := m.planner.stateLock.view
  jobs := m.table
  nextJobId := m.nextJobId
  nextVersionId := m.planner.nextVersionId
  job j := (m.job j).map Job.view

/-- The program point that a program point of a stack is part of. The coarser model leaves out
`poll`, the inline entry points and what becomes of prepared state, and it has `recompile` only
of the calls that lock the planner state. -/
def Code.view : Code T → Option (Braids.Code T.Resolution)
  | .dispatch _ | .dispatchRead _ _ | .dispatchClone _ _ _ => some (.dispatch 0)
  | .dispatchId _ _ _ version => some (.dispatchId 0 version.view)
  | .dispatchInsert j => some (.dispatchInsert 0 j)
  | .dispatchSubmit j => some (.dispatchSubmit 0 j)
  | .dispatchWait j => some (.dispatchWait 0 j)
  | .dispatchOk j => some (.dispatchOk 0 j)
  | .dispatchErr j error => some (.dispatchErr 0 j error)
  | .task j code => some (.task 0 j code.view)
  | .collect j point => some (.collect 0 j point)
  | .cancel j => some (.cancel 0 j)
  | .shutdown => some .shutdown
  | .ended => some .ended
  | .planner _ | .read | .clone | .poll _ | .retire _ => none

/-- A task closure of the only stack. -/
def Task.view (t : Task) : Braids.Task := ⟨0, t.job, t.kind⟩

/-- Both models ask for the same. -/
def SameAsk : ClientAct (Code T) Task → ClientAct (Braids.Code T.Resolution) Braids.Task → Prop
  | .goto code, .goto code₀ | .shutdown code, .shutdown code₀ => code.view = some code₀
  | .submit t code, .submit t₀ code₀ => t.view = t₀ ∧ code.view = some code₀
  | .schedule b t code, .schedule b₀ t₀ code₀ => b = b₀ ∧ t.view = t₀ ∧ code.view = some code₀
  | .prepare b hook code, .prepare b₀ hook₀ code₀ =>
      b = b₀ ∧ hook.view = some hook₀ ∧ code.view = some code₀
  | .ret result, .ret result₀ => result = result₀
  | _, _ => False

/-- Two stacks with the same data but for the cancel flag of one job. -/
def SameBut (j : JobId) (st st' : StackInner T.Resolution) : Prop :=
  ∃ job₀ cancel, st'.job j = some job₀ ∧
    st = st'.setJob j { job₀ with record := { job₀.record with cancel } }

section Views

variable {m : Mem T} {j : JobId} {job job' : Job T}

/-- The view of a job. -/
theorem Mem.view_job (hj : m.job j = some job) : m.view.job j = some job.view := by
  simp [Mem.view, hj]

/-- The view after a write to a job. -/
theorem Mem.view_setJob : (m.setJob j job).view = m.view.setJob j job.view := by
  have hjob : (fun i => ((m.setJob j job).job i).map Job.view) =
      Function.update m.view.job j (some job.view) := by
    funext i
    simp only [Mem.setJob_job, Function.update_apply]
    split <;> rfl
  simp only [Mem.view, StackInner.setJob]
  exact congrArg _ hjob

/-- Writing what is there. -/
theorem StackInner.setJob_same {ρ : Type} {st : StackInner ρ} {job : Braids.Job ρ}
    (hj : st.job j = some job) : st.setJob j job = st := by
  simp only [StackInner.setJob, ← hj, Function.update_eq_self]

end Views

/-- What a step of the stack does is a step of the coarser model, or nothing. -/
def StackRefines (self : ThreadId) (m : Mem T) (code₀ : Braids.Code T.Resolution) (m' : Mem T)
    (act : ClientAct (Code T) Task) : Prop :=
  (∃ next, act = .goto next ∧ next.view = some code₀ ∧ m'.view = m.view) ∨
    ∃ hooks choice st act₀, Braids.stackStep hooks self choice [m.view] code₀ = some ([st], act₀) ∧
      SameAsk act act₀ ∧ (m'.view = st ∨ ∃ j, SameBut j m'.view st)

section Refines

variable {self : ThreadId} {n : ℕ} {m m' : Mem T} {j : JobId} {job : Job T}
  {act : ClientAct (Code T) Task}

/-- A step that the coarser model takes in the same way. -/
theorem StackRefines.same {code₀ : Braids.Code T.Resolution} (choice : ℕ)
    (act₀ : ClientAct (Braids.Code T.Resolution) Braids.Task)
    (h : Braids.stackStep (returning .panicked .panicked .panicked) self choice [m.view] code₀ =
      some ([m'.view], act₀)) (hact : SameAsk act act₀) : StackRefines self m code₀ m' act :=
  .inr ⟨_, choice, m'.view, act₀, h, hact, .inl rfl⟩

/-- **A step of a task** in the whole stack. -/
theorem TaskRefines.stack {code : JobCode T} {job' : Job T} {pools : Pools}
    {act : ClientAct (JobCode T) JobTask} (hj : m.job j = some job)
    (h : TaskRefines m.backend job code job' act) :
    StackRefines self m (.task 0 j code.view) { m.setJob j job' with pools }
      (liftAct (.task j) (fun kind => ⟨j, kind⟩) act) := by
  have hview : Mem.view { m.setJob j job' with pools } = m.view.setJob j job'.view := by
    rw [← Mem.view_setJob]
    rfl
  rcases h with ⟨next, rfl, hnext, hsame⟩ | ⟨hooks, choice, job₀, hstep, hjob⟩
  · refine .inl ⟨.task j next, rfl, by rw [Code.view, hnext], ?_⟩
    rw [hview, hsame, StackInner.setJob_same (Mem.view_job hj)]
  · refine .inr ⟨hooks, choice, m.view.setJob j job₀, (actView act).ofJob 0 j, ?_, ?_,
      .inr ⟨j, job₀, job'.record.cancel, ?_, ?_⟩⟩
    · simp only [Braids.stackStep, List.getElem?_cons_zero, Option.bind_eq_bind, Option.bind_some,
        Mem.view_job hj]
      rw [show m.view.backend = m.backend from rfl, hstep]
      rfl
    · cases act <;> simp [liftAct, actView, ClientAct.ofJob, SameAsk, Code.view, Task.view]
    · simp [StackInner.setJob]
    · rw [hview, hjob]
      simp [StackInner.setJob]

/-- A step of `collect` in the coarser model, from the step of its record. -/
theorem collect_view (hj : m.job j = some job) {point next : CollectPoint T.Resolution}
    (hpoint : ∀ result, point ≠ .done result) {choice : ℕ} {present : Bool}
    {record : JobRecord T.Resolution}
    (hstep : collectStep self (j ∈ m.table)
      (if choice % 2 = 0 then job.record else job.record.unpark self) point =
        some (present, record, next)) (hooks : Braids.Hooks T.Resolution) :
    Braids.stackStep hooks self choice [m.view] (.collect 0 j point) =
      some ([{ m.view.setJob j { job.view with record } with
        jobs := if present then m.table else m.table.erase j }], .goto (.collect 0 j next)) := by
  have hstep : collectStep self (j ∈ m.view.jobs)
      (if choice % 2 = 0 then job.view.record else job.view.record.unpark self) point =
        some (present, record, next) := hstep
  cases point with
  | done result => exact (hpoint result rfl).elim
  | _ =>
      simp only [Braids.stackStep, List.getElem?_cons_zero, Option.bind_eq_bind, Option.bind_some,
        Mem.view_job hj, hstep]
      rfl

/-- The table without an id that is not in it. -/
theorem table_of_present (m : Mem T) (j : JobId) :
    (if (decide (j ∈ m.table) : Bool) then m.table else m.table.erase j) = m.table := by
  by_cases hmem : j ∈ m.table
  · simp [hmem]
  · simp [hmem, List.erase_of_not_mem]

/-- **A step of `collect`** in the whole stack. -/
theorem collect_refines {point : CollectPoint T.Resolution} (htable : m.tablePoisoned = false)
    (hclean : job.recordPoisoned = false) (hj : m.job j = some job)
    (h : collectJob self n m j job point = some (m', act)) :
    StackRefines self m (.collect 0 j point) m' act := by
  have hsame : m.view.setJob j { job.view with record := job.record } = m.view :=
    StackInner.setJob_same (Mem.view_job hj)
  -- looking at a record, or taking from it, does not remove the id
  have hkept : ∀ {record : JobRecord T.Resolution} {present : Bool}
      {next : CollectPoint T.Resolution} (choice : ℕ), (∀ result, point ≠ .done result) →
      collectStep self (j ∈ m.table)
        (if choice % 2 = 0 then job.record else job.record.unpark self) point =
          some (present, record, next) → present = decide (j ∈ m.table) →
      m'.view = m.view.setJob j { job.view with record } →
      act = .goto (.collect j next) → StackRefines self m (.collect 0 j point) m' act := by
    rintro record present next choice hpoint hstep rfl hm' rfl
    refine .same choice (.goto (.collect 0 j next)) ?_ rfl
    rw [collect_view hj hpoint hstep, table_of_present, hm']
    rfl
  cases point with
  | done result =>
      simp only [collectJob, Option.some.injEq, Prod.mk.injEq] at h
      obtain ⟨rfl, rfl⟩ := h
      exact .same 0 (.ret (.ofCollect result)) (by simp [Braids.stackStep]) rfl
  | lookup =>
      simp only [collectJob, htable, Bool.false_eq_true, if_false, Option.bind_eq_bind,
        Option.bind_eq_some_iff, Option.pure_def, Option.some.injEq, Prod.mk.injEq] at h
      obtain ⟨⟨present, record, next⟩, hstep, rfl, rfl⟩ := h
      refine hkept 0 (by simp) hstep ?_ ?_ rfl
      · simp only [collectStep] at hstep
        split at hstep <;> simp_all
      · have hrecord : record = job.record := by
          simp only [collectStep] at hstep
          split at hstep <;> simp_all
        rw [hrecord, hsame]
  | remove result =>
      simp only [collectJob, htable, Bool.false_eq_true, if_false, Option.some.injEq,
        Prod.mk.injEq] at h
      obtain ⟨rfl, rfl⟩ := h
      refine .same 0 (.goto (.collect 0 j (.done result))) ?_ rfl
      rw [collect_view hj (by simp) rfl, if_neg Bool.false_ne_true]
      rw [show (if 0 % 2 = 0 then job.record else job.record.unpark self) = job.record from rfl,
        hsame]
      rfl
  | take | parked =>
      simp only [collectJob, hclean, Bool.false_eq_true, if_false, Option.bind_eq_bind,
        Option.bind_eq_some_iff, Option.pure_def, Option.some.injEq, Prod.mk.injEq] at h
      obtain ⟨⟨present, record, next⟩, hstep, rfl, rfl⟩ := h
      refine hkept n (by simp) hstep ?_ Mem.view_setJob rfl
      simp only [collectStep] at hstep
      split at hstep <;> simp_all

/-- `dispatch` creates a job. -/
theorem dispatchId_refines {queries : List T.Query} {since : List ℕ} {seen version : Version T}
    (h : stackStep H self n m (.dispatchId queries since seen version) = some (m', act)) :
    StackRefines self m (.dispatchId 0 version.view) m' act := by
  obtain ⟨rfl, rfl⟩ := Prod.mk.inj (Option.some.inj h)
  refine .same 0 (.goto (.dispatchInsert 0 m.nextJobId)) ?_ rfl
  have hwrite : m.view.setJob m.nextJobId { version := version.view } =
      (m.setJob m.nextJobId { version, queries, seen, since }).view := by
    rw [Mem.view_setJob]
    rfl
  change some ([{ m.view.setJob m.nextJobId { version := version.view } with
    nextJobId := m.nextJobId + 1 }], _) = _
  rw [hwrite]
  rfl

/-- `dispatch` returns an error and takes its job out of the table. -/
theorem dispatchErr_refines {error : BraidError} (htable : m.tablePoisoned = false)
    (h : stackStep H self n m (.dispatchErr j error) = some (m', act)) :
    StackRefines self m (.dispatchErr 0 j error) m' act := by
  simp only [stackStep, htable, Bool.false_eq_true, if_false, bind,
    Option.bind_eq_some_iff, Option.pure_def, Option.some.injEq, Prod.mk.injEq] at h
  obtain ⟨job, hj, rfl, rfl⟩ := h
  refine .same 0 (.ret (.err error)) ?_ rfl
  have hwrite : m.view.setJob j { job.view with dispatched := .refused } =
      (m.setJob j { job with dispatched := .refused }).view := by
    rw [Mem.view_setJob]
    rfl
  simp only [Braids.stackStep, List.getElem?_cons_zero, Option.bind_eq_bind, Option.bind_some,
    Mem.view_job hj, hwrite]
  rfl

/-- `cancel` sets the flag of a job in the table. -/
theorem cancel_refines (htable : m.tablePoisoned = false)
    (h : stackStep H self n m (.cancel j) = some (m', act)) :
    StackRefines self m (.cancel 0 j) m' act := by
  have hmem : m.view.jobs = m.table := rfl
  simp only [stackStep] at h
  split at h
  · next job hj =>
      split at h
      · next hmem' =>
          obtain ⟨rfl, rfl⟩ := Prod.mk.inj (Option.some.inj h)
          refine .same 0 (.ret .ok) ?_ rfl
          rw [Mem.view_setJob]
          simp only [Braids.stackStep, List.getElem?_cons_zero, Option.bind_eq_bind,
            Option.bind_some, Mem.view_job hj, hmem, if_pos hmem'.2]
          rfl
      · next hmem' =>
          obtain ⟨rfl, rfl⟩ := Prod.mk.inj (Option.some.inj h)
          refine .same 0 (.ret .ok) ?_ rfl
          have habsent : j ∉ m.table := fun hj => hmem' ⟨htable, hj⟩
          simp only [Braids.stackStep, List.getElem?_cons_zero, Option.bind_eq_bind,
            Option.bind_some, Mem.view_job hj, hmem, if_neg habsent]
          rfl
  · next hj =>
      obtain ⟨rfl, rfl⟩ := Prod.mk.inj (Option.some.inj h)
      refine .same 0 (.ret .ok) ?_ rfl
      have hnone : m.view.job j = none := by simp [Mem.view, hj]
      simp only [Braids.stackStep, List.getElem?_cons_zero, Option.bind_eq_bind,
        Option.bind_some, hnone]
      rfl

/-- **A step of the stack** is a step of the coarser model, or none. -/
theorem stack_refines {code : Code T} {code₀ : Braids.Code T.Resolution}
    {R : Soup (Code T) Task RejectCode} (hjobs : JobsOk m ({.code code} + R))
    (hlock : m.planner.versionLock ≠ .poisoned)
    (hfound : ∀ j point, code = .collect j point → point ≠ .lookup → m.job j ≠ none)
    (hview : code.view = some code₀) (h : stackStep H self n m code = some (m', act)) :
    StackRefines self m code₀ m' act := by
  cases code with
  | planner | read | clone | poll | retire => cases hview
  | dispatch queries =>
      obtain rfl := Option.some.inj hview
      obtain ⟨rfl, rfl⟩ := Prod.mk.inj (Option.some.inj h)
      exact .inl ⟨_, rfl, rfl, rfl⟩
  | dispatchRead queries since =>
      obtain rfl := Option.some.inj hview
      simp only [stackStep, Mem.readVersion] at h
      split at h
      · cases h
      · next hpoisoned => exact (hlock hpoisoned).elim
      · obtain ⟨rfl, rfl⟩ := Prod.mk.inj (Option.some.inj h)
        exact .inl ⟨_, rfl, rfl, rfl⟩
  | dispatchClone queries since seen =>
      obtain rfl := Option.some.inj hview
      obtain ⟨rfl, rfl⟩ := Prod.mk.inj (Option.some.inj h)
      exact .same 0 (.goto (.dispatchId 0 m.planner.current.view)) rfl rfl
  | dispatchId queries since seen version =>
      obtain rfl := Option.some.inj hview
      exact dispatchId_refines h
  | dispatchInsert j =>
      obtain rfl := Option.some.inj hview
      simp only [stackStep, hjobs.table, Bool.false_eq_true, if_false, bind,
        Option.bind_eq_some_iff, Option.pure_def, Option.some.injEq, Prod.mk.injEq] at h
      obtain ⟨job, -, rfl, rfl⟩ := h
      exact .same 0 (.goto (.dispatchSubmit 0 j)) rfl rfl
  | dispatchSubmit j =>
      obtain rfl := Option.some.inj hview
      obtain ⟨rfl, rfl⟩ := Prod.mk.inj (Option.some.inj h)
      exact .same 0 (.submit ⟨0, j, .encode⟩ (.dispatchWait 0 j)) rfl ⟨rfl, rfl⟩
  | dispatchWait j => cases h
  | dispatchOk j =>
      obtain rfl := Option.some.inj hview
      simp only [stackStep, bind, Option.bind_eq_some_iff, Option.pure_def, Option.some.injEq,
        Prod.mk.injEq] at h
      obtain ⟨job, hj, rfl, rfl⟩ := h
      refine .same 0 (.ret .ok) ?_ rfl
      rw [Mem.view_setJob]
      simp only [Braids.stackStep, List.getElem?_cons_zero, Option.bind_eq_bind, Option.bind_some,
        Mem.view_job hj]
      rfl
  | dispatchErr j error =>
      obtain rfl := Option.some.inj hview
      exact dispatchErr_refines hjobs.table h
  | task j code =>
      obtain rfl := Option.some.inj hview
      simp only [stackStep, bind, Option.bind_eq_some_iff, Option.pure_def, Option.some.injEq,
        Prod.mk.injEq] at h
      obtain ⟨job, hj, ⟨pools, job', act⟩, hstep, rfl, rfl⟩ := h
      have hok := hjobs.job j job hj
      have hfits := hok.fits (.code (.task j code)) (by simp) rfl
      exact (task_refines hok.sound.unpoisoned hfits hstep).stack hj
  | collect j point =>
      obtain rfl := Option.some.inj hview
      cases hj : m.job j with
      | some job =>
          simp only [stackStep, hj] at h
          exact collect_refines hjobs.table (hjobs.job j job hj).sound.unpoisoned hj h
      | none =>
          have hpoint : point = .lookup := by
            by_contra hne
            exact hfound j point rfl hne hj
          subst hpoint
          simp only [stackStep, hj, Option.some.injEq, Prod.mk.injEq] at h
          obtain ⟨rfl, rfl⟩ := h
          have hnone : m.view.job j = none := by simp [Mem.view, hj]
          refine .same 0 (.ret (.err .unknownJob)) ?_ rfl
          simp only [Braids.stackStep, List.getElem?_cons_zero, Option.bind_eq_bind,
            Option.bind_some, hnone]
          rfl
  | cancel j =>
      obtain rfl := Option.some.inj hview
      exact cancel_refines hjobs.table h
  | shutdown =>
      obtain rfl := Option.some.inj hview
      obtain ⟨rfl, rfl⟩ := Prod.mk.inj (Option.some.inj h)
      exact .same 0 (.shutdown .ended) rfl rfl
  | ended =>
      obtain rfl := Option.some.inj hview
      obtain ⟨rfl, rfl⟩ := Prod.mk.inj (Option.some.inj h)
      exact .same 0 (.ret .ok) rfl rfl

/-- The same for a reject side. -/
def RejectCode.view (code : RejectCode) : Braids.RejectCode :=
  match code.point with
  | .take error => .cleanup 0 code.job error
  | .giveBack _ error | .fail error => .fail 0 code.job error

/-- **A step of a reject side** is a step of the coarser model, or none. -/
theorem reject_refines {code : RejectCode} {next : Option RejectCode}
    (hclean : job.recordPoisoned = false) (hj : m.job code.job = some job)
    (h : rejectStep m code = (m', next)) :
    (m'.view = m.view ∧ next.map RejectCode.view = some code.view) ∨
      Braids.rejectStep [m.view] code.view = ([m'.view], next.map RejectCode.view) := by
  have hstays : ∀ {job' : Job T} {pools : Pools}, job'.view = job.view →
      Mem.view { m.setJob code.job job' with pools } = m.view := by
    intro job' pools hsame
    have hset : Mem.view { m.setJob code.job job' with pools } =
        (m.setJob code.job job').view := rfl
    rw [hset, Mem.view_setJob, hsame, StackInner.setJob_same (Mem.view_job hj)]
  have hcleanup : ∀ error, Braids.rejectStep [m.view] (.cleanup 0 code.job error) =
      ([m.view.setJob code.job { job.view with packet := job.view.packet.cleanup }],
        some (.fail 0 code.job error)) := by
    intro error
    simp [Braids.rejectStep, StackMem.job?, Mem.view_job hj, StackMem.put]
  have hfail : ∀ error, Braids.rejectStep [m.view] (.fail 0 code.job error) =
      ([m.view.setJob code.job { job.view with record := job.record.finishFailed error }],
        none) := by
    intro error
    simp [Braids.rejectStep, StackMem.job?, Mem.view_job hj, StackMem.put, Job.view]
  cases rejectStep_cases h with
  | @on j point next other job' pools hj' hs =>
      obtain rfl := Option.some.inj (hj'.symm.trans hj)
      cases hs with
      | wait => exact .inl ⟨hstays rfl, rfl⟩
      | giveBack hback => exact .inl ⟨hstays (giveBackPacket_view hback), rfl⟩
      | takeNone hpacket =>
          refine .inr ((hcleanup _).trans (Prod.ext ?_ rfl))
          have hslot : { other.view with packet := other.view.packet.cleanup } = other.view := by
            rcases hpacket with hlock | ⟨hlock, hp⟩ <;>
              simp [Job.view, slotView, PacketSlot.cleanup, *]
          rw [hslot]
          exact congrArg (fun st => [st]) (Mem.view_setJob (m := m) (j := j)).symm
      | take hlock hp =>
          refine .inr ((hcleanup _).trans (Prod.ext ?_ rfl))
          have hslot : { other.view with packet := other.view.packet.cleanup } =
              Job.view { other with packet := none } := by
            simp [Job.view, slotView, PacketSlot.cleanup, hlock, hp]
          rw [hslot]
          exact congrArg (fun st => [st]) (Mem.view_setJob (m := m) (j := j)).symm
  | @done j point other job' pools hj' hs =>
      obtain rfl := Option.some.inj (hj'.symm.trans hj)
      cases hs with
      | failPoisoned hpoisoned => simp [hclean] at hpoisoned
      | @fail error =>
          refine .inr ((hfail _).trans (Prod.ext ?_ rfl))
          have hwrite :
              m.view.setJob j { other.view with record := other.record.finishFailed error } =
                (m.setJob j { other with record := other.record.finishFailed error }).view := by
            rw [Mem.view_setJob]
            rfl
          exact congrArg (fun st => [st]) hwrite
  | gone hnone => exact (Option.some_ne_none _ (hj.symm.trans hnone)).elim

/-- **What a thread of a reachable state does** next in the code of the stack is a step of the
coarser model, or none. -/
theorem Reached.refines {s : MachineState (Mem T) (Code T) Task RejectCode} (h : Reached H s)
    {code : Code T} {code₀ : Braids.Code T.Resolution} (hcode : .code code ∈ s.soup)
    (hview : code.view = some code₀)
    (hstep : stackStep H self n s.shared.client code = some (m', act)) :
    StackRefines self s.shared.client code₀ m' act := by
  obtain ⟨hversions, hjobs⟩ := inOrder h
  have hfound : ∀ j point, code = .collect j point → point ≠ .lookup →
      s.shared.client.job j ≠ none := by
    rintro j point rfl hne
    exact (listed h).found j point hcode hne
  obtain ⟨R, hR⟩ := Multiset.exists_cons_of_mem hcode
  rw [hR] at hjobs
  exact stack_refines (singleton_add_points hjobs) hversions.planner.unpoisoned hfound hview hstep

end Refines

end Braids.Runtime
