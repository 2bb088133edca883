import Braids.Runtime.Planner

/-!
# A Stack with All Its Data as a Client of the Executor

`Stack` of `stack.rs` on an executor, with the planner state, the versions and the packets
that the tasks of its jobs work on. `Braids.stackClient` models the same code down to who ends a
job and who is woken; here every hook is called with what the source calls it with.
`Braids.Runtime.Refinement` relates the two.

## Conventions

* One stack. Its backend may have any lane counts, and any number of threads call it.
* The jobs table is locked within one step, like the record of a job.
* The inline entry points share with `dispatch` only that they read the current version
  under the read lock: `read` and `clone`.
* `retire` is the drop of the last handle of a version that a job ran on. It may happen
  here more often than it does.
-/

namespace Braids.Runtime

variable {T : Types}

/-- `StackInner`. The jobs table holds ids; `job` is the heap of executions and records,
which outlive their entry in the table. -/
structure Mem (T : Types) where
  backend : BackendId
  planner : PlannerMem T
  pools : Pools := {}
  tablePoisoned : Bool := false
  table : List JobId := []
  job : JobId → Option (Job T) := fun _ => none
  nextJobId : ℕ := 1
  /-- Ghost: the jobs for which the reject side of a task is over. -/
  rejected : List JobId := []

/-- Overwrite one job. -/
def Mem.setJob (m : Mem T) (j : JobId) (job : Job T) : Mem T :=
  { m with job := Function.update m.job j (some job) }

/-- The jobs after one was overwritten. -/
theorem Mem.setJob_job (m : Mem T) (j i : JobId) (job : Job T) :
    (m.setJob j job).job i = if i = j then some job else m.job i := by
  simp [Mem.setJob, Function.update_apply]

/-- A task closure: it captures the execution of one job. -/
structure Task where
  job : JobId
  kind : JobTask
  deriving DecidableEq

/-- The program points of `stack.rs`. -/
inductive Code (T : Types)
  | planner (code : PlannerCode T)
  /-- `dispatch` is called. -/
  | dispatch (queries : List T.Query)
  /-- `dispatch`: take the read lock of the current version. -/
  | dispatchRead (queries : List T.Query) (since : List ℕ)
  /-- `dispatch`: clone the version and drop the read guard. -/
  | dispatchClone (queries : List T.Query) (since : List ℕ) (seen : Version T)
  /-- `dispatch`: draw the job id. -/
  | dispatchId (queries : List T.Query) (since : List ℕ) (seen version : Version T)
  /-- `dispatch`: insert the record into the jobs table. -/
  | dispatchInsert (j : JobId)
  /-- `dispatch`: `schedule_encode`. -/
  | dispatchSubmit (j : JobId)
  /-- `dispatch`: inside `schedule_encode`. -/
  | dispatchWait (j : JobId)
  /-- `dispatch`: return `Ok(job_id)`. -/
  | dispatchOk (j : JobId)
  /-- `dispatch`: remove the record and return the error. -/
  | dispatchErr (j : JobId) (error : BraidError)
  /-- A task of a job. -/
  | task (j : JobId) (code : JobCode T)
  /-- An inline entry point: take the read lock of the current version. -/
  | read
  /-- An inline entry point: clone the version and drop the read guard. -/
  | clone
  | collect (j : JobId) (point : CollectPoint T.Resolution)
  | poll (j : JobId)
  | cancel (j : JobId)
  /-- The version that a job ran on gives its prepared state back. -/
  | retire (j : JobId)
  /-- `BraidExecutor::shutdown`. -/
  | shutdown
  | ended

/-- The program points of the reject side of a task of a job. -/
structure RejectCode where
  job : JobId
  point : RejectPoint

/-- `JobStatus`. -/
inductive JobStatus
  | queued
  | running
  | completed
  | failed
  | cancelled
  deriving DecidableEq

/-- `JobRecord::status`, of a record that is not poisoned. -/
def statusOf {ρ : Type} (record : JobRecord ρ) : JobStatus :=
  match record.state with
  | .queued => .queued
  | .running => .running
  | .completed _ => .completed
  | .failed _ => .failed
  | .cancelled => .cancelled

/-- `Stack::poll`. -/
def Mem.poll (m : Mem T) (j : JobId) : JobStatus :=
  match m.job j with
  | some job =>
      if m.tablePoisoned = false ∧ j ∈ m.table ∧ job.recordPoisoned = false then
        statusOf job.record
      else .failed
  | none => .failed

/-- What a part of the stack asks for, as the stack asks for it. -/
def liftAct {κ τ κ' τ' : Type} (code : κ → κ') (task : τ → τ') :
    ClientAct κ τ → ClientAct κ' τ'
  | .goto next => .goto (code next)
  | .submit t next => .submit (task t) (code next)
  | .schedule b t next => .schedule b (task t) (code next)
  | .prepare b hook next => .prepare b (code hook) (code next)
  | .shutdown next => .shutdown (code next)
  | .ret result => .ret result

/-- `RwLock::read` on the current version: go on at `next`, or return the error. -/
def Mem.readVersion (m : Mem T) (next : Code T) :
    Option (Mem T × ClientAct (Code T) Task) :=
  match m.planner.versionLock with
  | .held => none
  | .poisoned => some (m, .ret (.err (.poisoned "stack.current_version")))
  | .free =>
      some ({ m with planner := { m.planner with readers := m.planner.readers + 1 } },
        .goto next)

/-- The read guard of the current version is dropped. -/
def Mem.dropRead (m : Mem T) : Mem T :=
  { m with planner := { m.planner with readers := m.planner.readers - 1 } }

/-- One step of `Stack::collect` on a job. -/
def collectJob (self : ThreadId) (choice : ℕ) (m : Mem T) (j : JobId) (job : Job T)
    (point : CollectPoint T.Resolution) :
    Option (Mem T × ClientAct (Code T) Task) :=
  match point with
  | .done result => some (m, .ret (.ofCollect result))
  | .lookup =>
      if m.tablePoisoned then
        some (m, .goto (.collect j (.done (.error (.poisoned "stack.jobs")))))
      else do
        let (_, _, point) ← collectStep self (j ∈ m.table) job.record point
        return (m, .goto (.collect j point))
  | .remove result =>
      -- a poisoned table keeps the record
      some ({ m with table := if m.tablePoisoned then m.table else m.table.erase j },
        .goto (.collect j (.done result)))
  | .take | .parked =>
      if job.recordPoisoned then
        some (m, .goto (.collect j (.done (.error (.poisoned "stack.job_state")))))
      else do
        -- an odd choice is a wakeup nobody asked for
        let record := if choice % 2 = 0 then job.record else job.record.unpark self
        let (_, record, point) ← collectStep self (j ∈ m.table) record point
        let delivered := match point with
          | .remove (.ok values) => job.delivered ++ [values]
          | _ => job.delivered
        return (m.setJob j { job with record, delivered }, .goto (.collect j point))

/-- One step of `stack.rs` in thread `self`. -/
def stackStep (H : Hooks T) (self : ThreadId) (choice : ℕ) (m : Mem T) :
    Code T → Option (Mem T × ClientAct (Code T) Task)
  | .planner code => do
      let (planner, act) ← plannerStep H m.backend choice m.planner code
      return ({ m with planner }, liftAct .planner (fun kind => ⟨0, kind⟩) act)
  | .dispatch queries => some (m, .goto (.dispatchRead queries m.planner.returnedIds))
  | .dispatchRead queries since =>
      m.readVersion (.dispatchClone queries since m.planner.current)
  | .dispatchClone queries since seen =>
      some (m.dropRead, .goto (.dispatchId queries since seen m.planner.current))
  | .dispatchId queries since seen version =>
      some ({ m.setJob m.nextJobId { version, queries, seen, since } with
        nextJobId := m.nextJobId + 1 }, .goto (.dispatchInsert m.nextJobId))
  | .dispatchInsert j => do
      let job ← m.job j
      if m.tablePoisoned then
        return (m.setJob j { job with dispatched := .refused },
          .ret (.err (.poisoned "stack.jobs")))
      else return ({ m with table := m.table ++ [j] }, .goto (.dispatchSubmit j))
  | .dispatchSubmit j => some (m, .submit ⟨j, .encode⟩ (.dispatchWait j))
  | .dispatchWait _ => none
  | .dispatchOk j => do
      let job ← m.job j
      return (m.setJob j { job with dispatched := .accepted }, .ret .ok)
  | .dispatchErr j error => do
      let job ← m.job j
      return ({ m.setJob j { job with dispatched := .refused } with
        table := if m.tablePoisoned then m.table else m.table.erase j }, .ret (.err error))
  | .task j code => do
      let job ← m.job j
      let (pools, job, act) ← jobStep H m.backend choice m.pools job code
      return ({ m.setJob j job with pools }, liftAct (.task j) (fun kind => ⟨j, kind⟩) act)
  | .read => m.readVersion .clone
  | .clone => some (m.dropRead, .ret .ok)
  | .collect j point =>
      match m.job j with
      | some job => collectJob self choice m j job point
      | none => some (m, .ret (.err .unknownJob))
  | .poll _ => some (m, .ret .ok)
  | .cancel j =>
      match m.job j with
      | some job =>
          if m.tablePoisoned = false ∧ j ∈ m.table then
            some (m.setJob j { job with record := { job.record with cancel := true } },
              .ret .ok)
          else some (m, .ret .ok)
      | none => some (m, .ret .ok)
  | .retire j =>
      match m.job j with
      | some job =>
          if m.planner.preparedPoolPoisoned then some (m, .ret .ok)
          else some ({ m with planner := { m.planner with
            preparedPool := job.version.prepared :: m.planner.preparedPool } }, .ret .ok)
      | none => some (m, .ret .ok)
  | .shutdown => some (m, .shutdown .ended)
  | .ended => some (m, .ret .ok)

/-- One step of `reject_scheduled_task`. -/
def rejectStep (m : Mem T) (code : RejectCode) : Mem T × Option RejectCode :=
  match m.job code.job with
  | some job =>
      let (pools, job, next) := rejectJob m.pools job code.point
      ({ m.setJob code.job job with
        pools
        rejected := if next.isNone then code.job :: m.rejected else m.rejected },
        next.map (⟨code.job, ·⟩))
  | none => ({ m with rejected := code.job :: m.rejected }, none)

/-- A call returns to a point of the stack. -/
def resume : Code T → CallResult → Code T
  | .dispatchWait j, .ok => .dispatchOk j
  | .dispatchWait j, .err error => .dispatchErr j error
  | .task j (.await _), .ok => .task j .released
  | .task j (.await next), .err error => .task j (.refused next error)
  | .planner (.preparing number call compiled), result =>
      .planner (.prepared number call compiled result)
  | code, _ => code

/-- The calls of a stack that a thread can make. -/
def isEntry : Code T → Bool
  | .planner (.apply _) | .planner (.replace _) | .planner .recompile | .planner (.update _)
  | .dispatch _ | .read | .collect _ .lookup | .poll _ | .cancel _ | .retire _ | .shutdown => true
  | _ => false

/-- `stack.rs`, for given hooks. -/
def stackClient (H : Hooks T) : Client (Mem T) (Code T) Task RejectCode where
  step := stackStep H
  resume := resume
  run t := .task t.job (startOf t.kind)
  reject t error := ⟨t.job, .take error⟩
  rejectStep := rejectStep
  entry := isEntry

/-- The memory of a freshly created stack on backend `b`. -/
def Mem.create (b : BackendId) (state : T.State) (compiled : CompiledPlan T.PlannerMeta)
    (prepared : T.Prepared) : Mem T where
  backend := b
  planner := { state, current := ⟨1, compiled, prepared⟩ }

/-- The initial memories: a freshly created stack on any backend. -/
def Mem.Created (m : Mem T) : Prop :=
  ∃ b state compiled prepared, m = Mem.create b state compiled prepared

end Braids.Runtime
