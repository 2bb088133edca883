import Braids.Runtime.Hooks
import Braids.Stack.Client

/-!
# The Tasks of a Job

`JobExecution` of `stack.rs` with everything it touches: the packet pools, the job's own
packet slot and its record. `jobStep` is one atomic step of a task of the job and
`rejectJob` one of its reject side. Both work on the pools and on this one job, so neither
can touch another job or a version.

## Conventions

* A hook runs while the task is at the program point named after it: the step to that
  point is the call, the step away from it the return.
* The packet slot is locked while `run_stage` runs, so its lock is explicit. The other
  mutexes are locked within one step and by no user code, so all that shows of them is
  whether they are poisoned.
* A panic poisons the mutexes whose guards the unwinding task holds: the packet slot in
  `run_stage`, none in `encode_batch` and `decode_batch`.
* A local packet that a panic or an early return drops is gone.
* Fields marked as ghost record what happened and decide no step.
-/

namespace Braids.Runtime

variable {T : Types}

/-- A mutex that may be held across steps. -/
inductive MutexState
  | free
  | held
  | poisoned
  deriving DecidableEq

/-- A call of a hook for a job, with the packet it was given. -/
inductive Call (T : Types)
  | encodeBatch (plan : CompiledPlan T.PlannerMeta) (queries : List T.Query) (packet : ℕ)
  | runStage (prepared : T.Prepared) (index : ℕ) (stage : StageSpec) (packet : ℕ)
  | decodeBatch (plan : CompiledPlan T.PlannerMeta) (packet : ℕ)

/-- The calls of `run_stage` for the stages from `index` on. -/
def stageCalls (prepared : T.Prepared) (packet : ℕ) : ℕ → List StageSpec → List (Call T)
  | _, [] => []
  | index, stage :: stages =>
      .runStage prepared index stage packet :: stageCalls prepared packet (index + 1) stages

/-- The hook calls of a job that runs on a version from beginning to end. -/
def Version.script (version : Version T) (queries : List T.Query) (packet : ℕ) :
    List (Call T) :=
  .encodeBatch version.compiled queries packet ::
    (stageCalls version.prepared packet 0 version.stages ++
      [.decodeBatch version.compiled packet])

/-- The packet pool and the batch scratch pool of a stack. -/
structure Pools where
  packetsPoisoned : Bool := false
  packets : List Packet := []
  /-- Ghost: the serial of the next new packet. -/
  nextSerial : ℕ := 0
  scratchPoisoned : Bool := false

/-- `JobExecution` with the `JobRecord` it shares with the jobs table. -/
structure Job (T : Types) where
  record : JobRecord T.Resolution := {}
  recordPoisoned : Bool := false
  version : Version T
  queries : List T.Query
  packet : Option Packet := none
  packetLock : MutexState := .free
  /-- Ghost: the version that was current when `dispatch` took the read lock. -/
  seen : Version T
  /-- Ghost: the ids that updates had returned when `dispatch` started. -/
  since : List ℕ := []
  /-- Ghost: what `dispatch` returned. -/
  dispatched : Dispatched := .pending
  /-- Ghost: the hook calls so far. -/
  calls : List (Call T) := []
  /-- Ghost: the steps that have succeeded, validation included. -/
  passed : List JobTask := []
  /-- Ghost: what `decode_batch` returned. -/
  decoded : Option (List T.Resolution) := none
  /-- Ghost: what calls of `collect` took from the record, in order. -/
  delivered : List (List T.Resolution) := []
  /-- Ghost: the packet that the job holds, in its slot or in its task. -/
  holding : Option ℕ := none
  /-- Ghost: the packets it checked out. -/
  checkedOut : List ℕ := []
  /-- Ghost: the packets it gave back. -/
  givenBack : List Packet := []
  /-- Ghost: what `decode_step` read from the cancel flag. -/
  decodeRead : Option Bool := none
  /-- Ghost: a hook of the job panicked. -/
  panicked : Bool := false
  /-- Ghost: a hook of the job, or a validation of its packet, failed. -/
  failed : Bool := false
  /-- Ghost: the executor refused a task of the job. -/
  unsent : Bool := false

/-- The hook calls of the job if it runs to its end on one packet. -/
def Job.script (job : Job T) (packet : ℕ) : List (Call T) :=
  job.version.script job.queries packet

/-- The program points of the tasks of a job. -/
inductive JobCode (T : Types)
  /-- `encode_step`: look at the cancel flag. -/
  | encode
  /-- `encode_step`: `mark_running`. -/
  | mark
  /-- `checkout_packet`. -/
  | checkout
  /-- `encode_packet`: check the batch scratch out. -/
  | scratch (pkt : Packet)
  /-- `encode_packet`: inside `encode_batch`. -/
  | encodeHook (pkt : Packet)
  /-- `encode_packet`: give the batch scratch back and validate the packet. -/
  | encoded (pkt : Packet) (result : BraidResult Unit)
  /-- `encode_packet`: recycle the packet of a failed encode. -/
  | recycle (pkt : Packet) (error : BraidError)
  /-- `store_packet`. -/
  | store (pkt : Packet)
  /-- `stage_step`: look at the cancel flag. -/
  | stage (index : ℕ)
  /-- `stage_step`: lock the packet slot. -/
  | stageLock (index : ℕ)
  /-- `run_stage_once`: inside `run_stage`. -/
  | stageHook (index : ℕ) (stage : StageSpec) (pkt : Packet)
  /-- `decode_step`: look at the cancel flag. -/
  | decode
  /-- `take_packet` and the validation in `decode_packet`. -/
  | take
  /-- `decode_packet`: inside `decode_batch`. -/
  | decodeHook (pkt : Packet)
  /-- `decode_packet`: recycle the packet. -/
  | giveBack (pkt : Packet) (result : BraidResult (List T.Resolution))
  /-- `decode_step`: `finish_completed`. -/
  | finishCompleted (values : List T.Resolution)
  /-- `schedule_encode`, `schedule_stage` or `schedule_decode`. -/
  | schedule (next : JobTask)
  /-- Inside the call that schedules the next task. -/
  | await (next : JobTask)
  /-- The call that schedules the next task returned an error. -/
  | refused (next : JobTask) (error : BraidError)
  /-- `run_caught` with an error or a panic: `cleanup_packet` takes the packet. `again` tells
  that the reject side of a task of the job has ended the job before. -/
  | caught (again : Bool) (error : BraidError)
  /-- `cleanup_packet`: give the packet back. -/
  | cleanup (again : Bool) (pkt : Packet) (error : BraidError)
  /-- `run_caught`: `finish_failed` or `finish_cancelled`. -/
  | finish (again : Bool) (error : BraidError)
  /-- The closure is done and drops the handles it captured. -/
  | released
  | ended

/-- The program points of `reject_scheduled_task`. -/
inductive RejectPoint
  /-- `cleanup_packet` takes the packet. -/
  | take (error : BraidError)
  /-- `cleanup_packet` gives the packet back. -/
  | giveBack (pkt : Packet) (error : BraidError)
  /-- `finish_failed`. -/
  | fail (error : BraidError)

/-! ### The pools -/

/-- `ReusablePool::checkout` of the packet pool, and what `checkout_packet` does to the
packet. -/
def Pools.checkout (pools : Pools) (statics : List StaticBuffer) : Pools × Packet :=
  match pools.packets with
  | pkt :: packets => ({ pools with packets }, { pkt with data := pkt.data.start statics })
  | [] =>
      ({ pools with nextSerial := pools.nextSerial + 1 },
        ⟨pools.nextSerial, PacketData.fresh.start statics⟩)

/-- The job clears a packet and gives it back to the pool, `ReusablePool::give_back`. A
poisoned pool drops it. -/
def giveBackPacket (pools : Pools) (job : Job T) (pkt : Packet) : Pools × Job T :=
  if pools.packetsPoisoned then (pools, { job with holding := none })
  else ({ pools with packets := pkt.cleared :: pools.packets },
    { job with holding := none, givenBack := job.givenBack ++ [pkt.cleared] })

/-! ### One step of a task -/

/-- What comes after `encode_step`. -/
def Version.afterEncode (version : Version T) : JobTask :=
  if version.stages.isEmpty then .decode else .stage 0

/-- What comes after `stage_step`. -/
def Version.afterStage (version : Version T) (index : ℕ) : JobTask :=
  if index + 1 < version.stages.length then .stage (index + 1) else .decode

/-- Where a task starts. -/
def startOf : JobTask → JobCode T
  | .encode => .encode
  | .stage i => .stage i
  | .decode => .decode

/-- The record after `run_caught` has seen an error. -/
def Job.finishWith (job : Job T) (error : BraidError) : Job T :=
  if job.recordPoisoned then job
  else { job with
    record := match error with
      | .cancelled => job.record.finishCancelled
      | error => job.record.finishFailed error }

/-- One step of a task of a job on backend `b`: the pools and the job after it, and what
comes next. It is `none` while the task is blocked; at `await` the call above it steps. -/
def jobStep (H : Hooks T) (b : BackendId) (choice : ℕ) (pools : Pools) (job : Job T) :
    JobCode T → Option (Pools × Job T × ClientAct (JobCode T) JobTask)
  | .encode =>
      some (pools, job, .goto (if job.record.cancel then .caught false .cancelled else .mark))
  | .mark =>
      if job.recordPoisoned then
        some (pools, job, .goto (.caught false (.poisoned "stack.job_state")))
      else some (pools, { job with record := job.record.markRunning }, .goto .checkout)
  | .checkout =>
      if pools.packetsPoisoned then
        some (pools, job, .goto (.caught false (.poisoned "stack.packet_pool")))
      else
        let (pools, pkt) := pools.checkout job.version.compiled.staticBuffers
        some (pools, { job with
          holding := some pkt.serial
          checkedOut := job.checkedOut ++ [pkt.serial] }, .goto (.scratch pkt))
  | .scratch pkt =>
      if pools.scratchPoisoned then
        some (pools, { job with holding := none },
          .goto (.caught false (.poisoned "stack.batch_scratch")))
      else
        some (pools, { job with
          calls := job.calls ++ [.encodeBatch job.version.compiled job.queries pkt.serial] },
          .goto (.encodeHook pkt))
  | .encodeHook pkt =>
      match H.encodeBatch choice job.version.compiled job.queries pkt.data with
      | (.ok _, data) => some (pools, job, .goto (.encoded { pkt with data } (.ok ())))
      | (.err error, data) => some (pools, job, .goto (.encoded { pkt with data } (.error error)))
      | (.panicked, _) =>
          some (pools, { job with holding := none, panicked := true },
            .goto (.caught false taskPanicked))
  | .encoded pkt result =>
      if pools.scratchPoisoned then
        some (pools, { job with holding := none },
          .goto (.caught false (.poisoned "stack.batch_scratch")))
      else
        match result.bind fun _ => H.validateRuntimePacket job.version.compiled pkt.data with
        | .ok _ =>
            some (pools, { job with passed := job.passed ++ [.encode] }, .goto (.store pkt))
        | .error error => some (pools, { job with failed := true }, .goto (.recycle pkt error))
  | .recycle pkt error =>
      let (pools, job) := giveBackPacket pools job pkt
      some (pools, job, .goto (.caught false error))
  | .store pkt =>
      match job.packetLock, job.packet with
      | .held, _ => none
      | .poisoned, _ => some (pools, { job with holding := none },
          .goto (.caught false packetPoisoned))
      | .free, some _ => some (pools, job,
          .goto (.caught false (.message "job packet already stored")))
      | .free, none => some (pools, { job with packet := some pkt },
          .goto (.schedule job.version.afterEncode))
  | .stage i =>
      some (pools, job,
        .goto (if job.record.cancel then .caught false .cancelled else .stageLock i))
  | .stageLock i =>
      match job.packetLock, job.packet, job.version.stages[i]? with
      | .held, _, _ => none
      | .poisoned, _, _ => some (pools, job, .goto (.caught false packetPoisoned))
      | .free, none, _ => some (pools, job, .goto (.caught false packetMissing))
      | .free, some _, none => some (pools, job,
          .goto (.caught false (.message "missing stage")))
      | .free, some pkt, some stage =>
          some (pools, { job with
            packetLock := .held
            calls := job.calls ++ [.runStage job.version.prepared i stage pkt.serial] },
            .goto (.stageHook i stage pkt))
  | .stageHook i stage pkt =>
      match H.runStage choice job.version.prepared i stage pkt.data job.record.cancel with
      | (result, data, cancelled) =>
          let job := { job with
            packet := some { pkt with data }
            packetLock := .free
            record := { job.record with cancel := job.record.cancel || cancelled } }
          match result with
          -- the unwinding task holds the guard of its packet slot
          | .panicked => some (pools, { job with packetLock := .poisoned, panicked := true },
              .goto (.caught false taskPanicked))
          | .err error => some (pools, { job with failed := true }, .goto (.caught false error))
          | .ok _ =>
              match H.validateRuntimePacket job.version.compiled data with
              | .error error =>
                  some (pools, { job with failed := true }, .goto (.caught false error))
              | .ok _ => some (pools, { job with passed := job.passed ++ [.stage i] },
                  .goto (.schedule (job.version.afterStage i)))
  | .decode =>
      some (pools, { job with decodeRead := some job.record.cancel },
        .goto (if job.record.cancel then .caught false .cancelled else .take))
  | .take =>
      match job.packetLock, job.packet with
      | .held, _ => none
      | .poisoned, _ => some (pools, job, .goto (.caught false packetPoisoned))
      | .free, none => some (pools, job, .goto (.caught false packetMissing))
      | .free, some pkt =>
          match H.validateRuntimePacket job.version.compiled pkt.data with
          | .error error => some (pools, { job with packet := none, failed := true },
              .goto (.giveBack pkt (.error error)))
          | .ok _ => some (pools, { job with
              packet := none
              calls := job.calls ++ [.decodeBatch job.version.compiled pkt.serial] },
              .goto (.decodeHook pkt))
  | .decodeHook pkt =>
      match H.decodeBatch choice job.version.compiled pkt.data with
      | .ok values => some (pools, { job with
          decoded := some values, passed := job.passed ++ [.decode] },
          .goto (.giveBack pkt (.ok values)))
      | .err error => some (pools, { job with failed := true },
          .goto (.giveBack pkt (.error error)))
      | .panicked => some (pools, { job with holding := none, panicked := true },
          .goto (.caught false taskPanicked))
  | .giveBack pkt result =>
      let poisoned := pools.packetsPoisoned
      let (pools, job) := giveBackPacket pools job pkt
      match result with
      | .ok values =>
          some (pools, job, .goto (if poisoned then
            .caught false (.poisoned "stack.packet_pool") else .finishCompleted values))
      | .error error => some (pools, job, .goto (.caught false error))
  | .finishCompleted values =>
      if job.recordPoisoned then
        some (pools, job, .goto (.caught false (.poisoned "stack.job_state")))
      else some (pools, { job with record := job.record.finishCompleted values },
        .goto .released)
  | .schedule (.stage i) => some (pools, job, .schedule b (.stage i) (.await (.stage i)))
  | .schedule next => some (pools, job, .submit next (.await next))
  | .await _ => none
  -- `schedule_with_rejection` has rejected the task, `submit` has dropped it
  | .refused (.stage _) error => some (pools, job, .goto (.caught true error))
  | .refused _ error => some (pools, { job with unsent := true }, .goto (.caught false error))
  | .caught again error =>
      match job.packetLock, job.packet with
      | .held, _ => none
      | .poisoned, _ | .free, none => some (pools, job, .goto (.finish again error))
      | .free, some pkt => some (pools, { job with packet := none },
          .goto (.cleanup again pkt error))
  | .cleanup again pkt error =>
      let (pools, job) := giveBackPacket pools job pkt
      some (pools, job, .goto (.finish again error))
  | .finish _ error => some (pools, job.finishWith error, .goto .released)
  | .released =>
      some (pools, job, if choice % 2 = 0 then .ret .ok else .shutdown .ended)
  | .ended => some (pools, job, .ret .ok)

/-- One step of `reject_scheduled_task`, and where it goes on unless it is done. -/
def rejectJob (pools : Pools) (job : Job T) :
    RejectPoint → Pools × Job T × Option RejectPoint
  | .take error =>
      match job.packetLock, job.packet with
      -- wait for the lock
      | .held, _ => (pools, job, some (.take error))
      | .poisoned, _ | .free, none => (pools, job, some (.fail error))
      | .free, some pkt => (pools, { job with packet := none }, some (.giveBack pkt error))
  | .giveBack pkt error =>
      let (pools, job) := giveBackPacket pools job pkt
      (pools, job, some (.fail error))
  | .fail error =>
      (pools, if job.recordPoisoned then job
        else { job with record := job.record.finishFailed error }, none)

end Braids.Runtime
