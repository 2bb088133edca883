import Mathlib.Logic.Function.Basic
import Braids.Stack.Jobs

/-!
# `stack.rs` as a Client of the Executor

The asynchronous half of `stack.rs`: `dispatch`, `recompile`, `collect`, `cancel`, and the
tasks that a job runs on the workers of the executor (`encode_step`, `stage_step`,
`decode_step` inside `run_caught`, and `reject_scheduled_task`). Any number of stacks
share one executor; a stack is named by its index in the memory.

## Conventions

* One step is one critical section of a lock, one atomic operation, or one hook call.
* Planner and backend hooks are parameters (`Hooks`). They may succeed, fail or panic,
  whichever the number of the step picks. A debug check (`validate_packet`, `validate`)
  that follows a hook counts as part of it, since it only adds failures.
* A frozen version is its id and the number of its stages: nothing else of a compiled
  plan decides what a task does next.
* The lock of the planner state is explicit, since `recompile` holds it while its hooks
  run and a panic there poisons it. The packet slot of a job is poisoned by a panic in
  `run_stage`. All other locks of the stack guard no hook.
* When a task has run, the handles it captured are dropped. If they were the last ones,
  this drops the executor, which shuts it down: `JobCode.released`.
-/

namespace Braids

/-- A stack is named by its index in the memory. -/
abbrev StackId := ℕ

/-- `JobId`, local to a stack. -/
abbrev JobId := ℕ

/-- The hooks that run on behalf of stacks. -/
structure Hooks (ρ : Type) where
  /-- `PlannerBackend::compile` and `CompiledPlan::validate`: the number of stages. -/
  compile : ℕ → HookResult ℕ
  /-- `ComputeBackend::prepare`. -/
  prepare : ℕ → HookResult Unit
  /-- `PlannerBackend::encode_batch`. -/
  encode : ℕ → HookResult Unit
  /-- `ComputeBackend::run_stage`. -/
  stage : ℕ → HookResult Unit
  /-- `PlannerBackend::decode_batch`. -/
  decode : ℕ → HookResult (List ρ)

/-- `FrozenStackVersion`. -/
structure Version where
  id : ℕ
  stages : ℕ
  deriving DecidableEq

/-- `JobExecution::packet`, a mutex around an optional packet. -/
inductive PacketSlot
  | empty
  | stored
  | poisoned
  deriving DecidableEq

/-- `cleanup_packet` takes the packet, unless the slot is poisoned. -/
def PacketSlot.cleanup : PacketSlot → PacketSlot
  | .poisoned => .poisoned
  | _ => .empty

/-- What the caller of `dispatch` has been told about a job. -/
inductive Dispatched
  | pending
  | accepted
  | refused
  deriving DecidableEq

/-- `JobExecution` with the `JobRecord` it shares with the jobs table. -/
structure Job (ρ : Type) where
  record : JobRecord ρ := {}
  version : Version
  packet : PacketSlot := .empty
  /-- Ghost: the result of `dispatch`. -/
  dispatched : Dispatched := .pending

/-- The mutex around the planner state. -/
inductive StateLock
  | free
  | held
  | poisoned
  deriving DecidableEq

/-- `StackInner`. The jobs table holds ids; `job` is the heap of executions and records,
which outlive their entry in the table. -/
structure StackInner (ρ : Type) where
  backend : BackendId
  version : Version
  stateLock : StateLock := .free
  jobs : List JobId := []
  nextJobId : ℕ := 1
  nextVersionId : ℕ := 2
  job : JobId → Option (Job ρ) := fun _ => none

/-- The memory of all stacks. -/
abbrev StackMem (ρ : Type) := List (StackInner ρ)

/-- Overwrite one job of a stack. -/
def StackInner.setJob {ρ : Type} (st : StackInner ρ) (j : JobId) (job : Job ρ) : StackInner ρ :=
  { st with job := Function.update st.job j (some job) }

/-- Overwrite one stack. -/
def StackMem.put {ρ : Type} (mem : StackMem ρ) (s : StackId) (st : StackInner ρ) : StackMem ρ :=
  mem.set s st

/-- A job of a stack. -/
def StackMem.job? {ρ : Type} (mem : StackMem ρ) (s : StackId) (j : JobId) : Option (Job ρ) :=
  mem[s]?.bind fun st => st.job j

/-! ### Program points -/

/-- The three kinds of tasks of a job. -/
inductive JobTask
  | encode
  | stage (index : ℕ)
  | decode
  deriving DecidableEq

/-- A task closure: it captures the execution of one job. -/
structure Task where
  stack : StackId
  job : JobId
  kind : JobTask
  deriving DecidableEq

/-- The program points of the tasks of a job. -/
inductive JobCode (ρ : Type)
  /-- `encode_step`: look at the cancel flag. -/
  | encode
  /-- `encode_step`: `mark_running`. -/
  | encodeMark
  /-- `encode_step`: `encode_packet`. -/
  | encodeRun
  /-- `encode_step`: `store_packet`. -/
  | encodeStore
  /-- `stage_step`: look at the cancel flag. -/
  | stage (index : ℕ)
  /-- `stage_step`: `run_stage_once`, under the lock of the packet slot. -/
  | stageRun (index : ℕ)
  /-- `decode_step`: look at the cancel flag. -/
  | decode
  /-- `decode_step`: `take_packet`. -/
  | decodeTake
  /-- `decode_step`: `decode_packet`. -/
  | decodeRun
  /-- `decode_step`: `finish_completed`. -/
  | finishCompleted (values : List ρ)
  /-- `schedule_encode`, `schedule_stage` or `schedule_decode`. -/
  | schedule (next : JobTask)
  /-- Inside the call that schedules the next task. -/
  | await
  /-- `run_caught` with an error or a panic: `cleanup_packet`. -/
  | caught (error : BraidError)
  /-- `run_caught` with an error or a panic: `finish_failed` or `finish_cancelled`. -/
  | finish (error : BraidError)
  /-- The closure is done and drops the handles it captured. -/
  | released
  | ended

/-- The program points of `stack.rs`. -/
inductive Code (ρ : Type)
  /-- `dispatch`: read the current version. -/
  | dispatch (s : StackId)
  /-- `dispatch`: draw the job id. -/
  | dispatchId (s : StackId) (version : Version)
  /-- `dispatch`: insert the record into the jobs table. -/
  | dispatchInsert (s : StackId) (j : JobId)
  /-- `dispatch`: `schedule_encode`. -/
  | dispatchSubmit (s : StackId) (j : JobId)
  /-- `dispatch`: inside `schedule_encode`. -/
  | dispatchWait (s : StackId) (j : JobId)
  /-- `dispatch`: return `Ok(job_id)`. -/
  | dispatchOk (s : StackId) (j : JobId)
  /-- `dispatch`: remove the record and return the error. -/
  | dispatchErr (s : StackId) (j : JobId) (error : BraidError)
  /-- A task of a job. -/
  | task (s : StackId) (j : JobId) (code : JobCode ρ)
  /-- `recompile`: lock the planner state. -/
  | recompile (s : StackId)
  /-- `compile_from_state`: the `compile` hook. -/
  | compile (s : StackId)
  /-- `BackendHandle::prepare_blocking`: the `prepare` hook. -/
  | prepareHook
  /-- `compile_from_state`: inside `prepare_blocking`. -/
  | preparing (s : StackId) (stages : ℕ)
  /-- `compile_from_state`: `prepare_blocking` has returned. -/
  | prepared (s : StackId) (stages : ℕ) (result : CallResult)
  /-- `compile_from_state`: swap the new version in. -/
  | publish (s : StackId) (version : Version)
  | collect (s : StackId) (j : JobId) (point : CollectPoint ρ)
  | cancel (s : StackId) (j : JobId)
  /-- `BraidExecutor::shutdown`. -/
  | shutdown
  | ended

/-- The program points of `reject_scheduled_task`. -/
inductive RejectCode
  | cleanup (s : StackId) (j : JobId) (error : BraidError)
  | fail (s : StackId) (j : JobId) (error : BraidError)

/-! ### The tasks of a job -/

section Tasks

variable {ρ : Type}

/-- The error of a task that panicked. -/
def taskPanicked : BraidError := .message "executor task panicked"

/-- The error of a task whose packet slot is poisoned. -/
def packetPoisoned : BraidError := .poisoned "job_execution.packet"

/-- The error of a task that finds no packet. -/
def packetMissing : BraidError := .message "missing job packet"

/-- One step of a task of a job on backend `b`: the job after it and what comes next. A
task never blocks; at `await` the call above it steps. -/
def jobStep (H : Hooks ρ) (b : BackendId) (choice : ℕ) (job : Job ρ) :
    JobCode ρ → Option (Job ρ × ClientAct (JobCode ρ) JobTask)
  | .encode =>
      some (job, .goto (if job.record.cancel then .caught .cancelled else .encodeMark))
  | .encodeMark => some ({ job with record := job.record.markRunning }, .goto .encodeRun)
  | .encodeRun =>
      match H.encode choice with
      | .ok _ => some (job, .goto .encodeStore)
      | .err error => some (job, .goto (.caught error))
      | .panicked => some (job, .goto (.caught taskPanicked))
  | .encodeStore =>
      match job.packet with
      | .empty =>
          some ({ job with packet := .stored },
            .goto (.schedule (if job.version.stages = 0 then .decode else .stage 0)))
      | .stored => some (job, .goto (.caught (.message "job packet already stored")))
      | .poisoned => some (job, .goto (.caught packetPoisoned))
  | .stage i =>
      some (job, .goto (if job.record.cancel then .caught .cancelled else .stageRun i))
  | .stageRun i =>
      match job.packet with
      | .poisoned => some (job, .goto (.caught packetPoisoned))
      | .empty => some (job, .goto (.caught packetMissing))
      | .stored =>
          if i < job.version.stages then
            match H.stage choice with
            | .ok _ =>
                some (job, .goto (.schedule
                  (if i + 1 < job.version.stages then .stage (i + 1) else .decode)))
            | .err error => some (job, .goto (.caught error))
            | .panicked => some ({ job with packet := .poisoned }, .goto (.caught taskPanicked))
          else some (job, .goto (.caught (.message "missing stage")))
  | .decode =>
      some (job, .goto (if job.record.cancel then .caught .cancelled else .decodeTake))
  | .decodeTake =>
      match job.packet with
      | .poisoned => some (job, .goto (.caught packetPoisoned))
      | .empty => some (job, .goto (.caught packetMissing))
      | .stored => some ({ job with packet := .empty }, .goto .decodeRun)
  | .decodeRun =>
      match H.decode choice with
      | .ok values => some (job, .goto (.finishCompleted values))
      | .err error => some (job, .goto (.caught error))
      | .panicked => some (job, .goto (.caught taskPanicked))
  | .finishCompleted values =>
      some ({ job with record := job.record.finishCompleted values }, .goto .released)
  | .schedule (.stage i) => some (job, .schedule b (.stage i) .await)
  | .schedule next => some (job, .submit next .await)
  | .await => none
  | .caught error => some ({ job with packet := job.packet.cleanup }, .goto (.finish error))
  | .finish .cancelled => some ({ job with record := job.record.finishCancelled }, .goto .released)
  | .finish error =>
      some ({ job with record := job.record.finishFailed error }, .goto .released)
  | .released => some (job, if choice % 2 = 0 then .ret .ok else .shutdown .ended)
  | .ended => some (job, .ret .ok)

/-- What a task of job `j` of stack `s` asks for, as the stack asks for it. -/
def ClientAct.ofJob (s : StackId) (j : JobId) :
    ClientAct (JobCode ρ) JobTask → ClientAct (Code ρ) Task
  | .goto code => .goto (.task s j code)
  | .submit kind code => .submit ⟨s, j, kind⟩ (.task s j code)
  | .schedule b kind code => .schedule b ⟨s, j, kind⟩ (.task s j code)
  | .prepare b hook code => .prepare b (.task s j hook) (.task s j code)
  | .shutdown code => .shutdown (.task s j code)
  | .ret result => .ret result

/-- Where a task starts. -/
def JobTask.start : JobTask → JobCode ρ
  | .encode => .encode
  | .stage i => .stage i
  | .decode => .decode

end Tasks

/-! ### The client -/

section Client

variable {ρ : Type}

/-- A collect result as its caller sees it, without the batch. -/
def CallResult.ofCollect : BraidResult (List ρ) → CallResult
  | .ok _ => .ok
  | .error error => .err error

/-- One step of `stack.rs` in thread `self`. -/
def stackStep (H : Hooks ρ) (self : ThreadId) (choice : ℕ) (mem : StackMem ρ) :
    Code ρ → Option (StackMem ρ × ClientAct (Code ρ) Task)
  | .dispatch s => do
      let st ← mem[s]?
      return (mem, .goto (.dispatchId s st.version))
  | .dispatchId s version => do
      let st ← mem[s]?
      return (mem.put s { st.setJob st.nextJobId { version } with nextJobId := st.nextJobId + 1 },
        .goto (.dispatchInsert s st.nextJobId))
  | .dispatchInsert s j => do
      let st ← mem[s]?
      return (mem.put s { st with jobs := st.jobs ++ [j] }, .goto (.dispatchSubmit s j))
  | .dispatchSubmit s j => some (mem, .submit ⟨s, j, .encode⟩ (.dispatchWait s j))
  | .dispatchWait _ _ => none
  | .dispatchOk s j => do
      let st ← mem[s]?
      let job ← st.job j
      return (mem.put s (st.setJob j { job with dispatched := .accepted }), .ret .ok)
  | .dispatchErr s j error => do
      let st ← mem[s]?
      let job ← st.job j
      return (mem.put s { st.setJob j { job with dispatched := .refused } with
        jobs := st.jobs.erase j }, .ret (.err error))
  | .task s j code => do
      let st ← mem[s]?
      let job ← st.job j
      let (job, act) ← jobStep H st.backend choice job code
      return (mem.put s (st.setJob j job), act.ofJob s j)
  | .recompile s => do
      let st ← mem[s]?
      match st.stateLock with
      | .poisoned => return (mem, .ret (.err (.poisoned "stack.state")))
      | .held => none
      | .free => return (mem.put s { st with stateLock := .held }, .goto (.compile s))
  | .compile s => do
      let st ← mem[s]?
      match H.compile choice with
      | .ok stages => return (mem, .prepare st.backend .prepareHook (.preparing s stages))
      | .err error => return (mem.put s { st with stateLock := .free }, .ret (.err error))
      | .panicked => return (mem.put s { st with stateLock := .poisoned }, .ret .panicked)
  | .prepareHook =>
      match H.prepare choice with
      | .ok _ => some (mem, .ret .ok)
      | .err error => some (mem, .ret (.err error))
      | .panicked => some (mem, .ret .panicked)
  | .preparing _ _ => none
  | .prepared s stages result => do
      let st ← mem[s]?
      match result with
      | .ok =>
          return (mem.put s { st with nextVersionId := st.nextVersionId + 1 },
            .goto (.publish s ⟨st.nextVersionId, stages⟩))
      | .err error => return (mem.put s { st with stateLock := .free }, .ret (.err error))
      | .panicked => return (mem.put s { st with stateLock := .poisoned }, .ret .panicked)
  | .publish s version => do
      let st ← mem[s]?
      return (mem.put s { st with version, stateLock := .free }, .ret .ok)
  | .collect s j point => do
      let st ← mem[s]?
      match st.job j, point with
      | _, .done result => return (mem, .ret (.ofCollect result))
      | none, _ => return (mem, .ret (.err .unknownJob))
      | some job, point =>
          -- an odd choice is a wakeup nobody asked for
          let record := if choice % 2 = 0 then job.record else job.record.unpark self
          let (present, record, point) ← collectStep self (j ∈ st.jobs) record point
          return (mem.put s { st.setJob j { job with record } with
            jobs := if present then st.jobs else st.jobs.erase j }, .goto (.collect s j point))
  | .cancel s j => do
      let st ← mem[s]?
      match st.job j with
      | some job =>
          if j ∈ st.jobs then
            return (mem.put s (st.setJob j { job with
              record := { job.record with cancel := true } }), .ret .ok)
          else return (mem, .ret .ok)
      | none => return (mem, .ret .ok)
  | .shutdown => some (mem, .shutdown .ended)
  | .ended => some (mem, .ret .ok)

/-- One step of `reject_scheduled_task`. -/
def rejectStep (mem : StackMem ρ) : RejectCode → StackMem ρ × Option RejectCode
  | .cleanup s j error =>
      match mem[s]?, mem.job? s j with
      | some st, some job =>
          (mem.put s (st.setJob j { job with packet := job.packet.cleanup }),
            some (.fail s j error))
      | _, _ => (mem, some (.fail s j error))
  | .fail s j error =>
      match mem[s]?, mem.job? s j with
      | some st, some job =>
          (mem.put s (st.setJob j { job with record := job.record.finishFailed error }), none)
      | _, _ => (mem, none)

/-- `stack.rs`, for given hooks. -/
def stackClient (H : Hooks ρ) : Client (StackMem ρ) (Code ρ) Task RejectCode where
  step := stackStep H
  resume
    | .dispatchWait s j, .ok => .dispatchOk s j
    | .dispatchWait s j, .err error => .dispatchErr s j error
    | .task s j .await, .ok => .task s j .released
    | .task s j .await, .err error => .task s j (.caught error)
    | .preparing s stages, result => .prepared s stages result
    | code, _ => code
  run t := .task t.stack t.job t.kind.start
  reject t error := .cleanup t.stack t.job error
  rejectStep := rejectStep
  entry
    | .dispatch _ | .recompile _ | .collect _ _ .lookup | .cancel _ _ | .shutdown => true
    | _ => false

/-- A freshly created stack on backend `b`. -/
def StackInner.create (b : BackendId) (stages : ℕ) : StackInner ρ where
  backend := b
  version := ⟨1, stages⟩

end Client

end Braids
