import Braids.Core
import Braids.Lib.Fifo
import Braids.Lib.Runs

/-!
# The Executor as a Machine of Interleaved Threads

`executor.rs` is modelled as a set of threads, each a call stack of `Frame`s, over the
memory they share. A frame is a program point of one function of the source together
with its local data; the top frame of a thread takes the next step, and one step is one
atomic action: a critical section of a lock, a load or swap of the shutdown flag, one
`notify`, one `wait`. Returning a value pops a frame and hands an `Outcome` to the frame
below.

The code that the executor runs for others (task closures, prepare hooks, callers of its
API) is a parameter, a `Client`: any program that computes on its own memory and calls
`submit`, `schedule_with_rejection`, `prepare_blocking` and `shutdown`. Results about the
executor therefore hold for every client; `Braids.Stack` supplies the one of `stack.rs`.

## Conventions

* A condition variable is the list of threads in its wait set. `notify` removes threads
  from it, and a parked thread may go on once it is no longer listed. `Action.spurious`
  is a wakeup nobody asked for.
* The state lock of a backend guards no blocking code, so each of its critical sections
  is one step. The queue lock of the executor is held by a worker across several steps,
  so it is explicit (`queueLocked`).
* A mutex is poisoned by a panic under its guard. No client code runs under the locks of
  this file, so their error branches are unreachable and left out.
* Fields marked as ghost (`admitted`, `history`, `settled`, `closed`) record what
  happened and are never read by a step.
-/

namespace Braids

/-- A thread is named by its index in the list of threads. -/
abbrev ThreadId := ℕ

/-- A registered backend is named by its index in the list of runtimes. -/
abbrev BackendId := ℕ

/-- What a call hands back to client code. -/
inductive CallResult
  | ok
  | err (error : BraidError)
  | panicked
  deriving DecidableEq

/-- A `TaskFn` with both sides that `schedule` has admitted. The ghost `ticket` numbers
the admissions of one backend. -/
structure Scheduled (τ : Type) where
  ticket : ℕ
  closure : τ

/-- `Box<dyn RunnableTask>` as it lies in the executor queue: a `TaskFn::new` of
`BraidExecutor::submit`, or a `BackendWrappedTask`. -/
inductive Runnable (τ : Type)
  | plain (closure : τ)
  | wrapped (backend : BackendId) (inner : Scheduled τ)

/-- The side of a task that was invoked. -/
inductive Side
  | run
  | reject
  deriving DecidableEq

/-! ### The backend runtime -/

/-- `BackendRuntime` with its `BackendQueueState`, the wait set of `prepare_wake`, and
the ghost record of what happened to it. -/
structure BackendRuntime (τ : Type) where
  laneCount : ℕ
  prepareLaneCount : ℕ
  lanesInUse : ℕ := 0
  preparesInUse : ℕ := 0
  waiting : List (Scheduled τ) := []
  prepareWake : List ThreadId := []
  /-- Ghost: how many tasks `schedule` has admitted. -/
  admitted : ℕ := 0
  /-- Ghost: admissions, grants, drains and prepare permits in order. -/
  history : List (Fifo.Event ℕ) := []
  /-- Ghost: the sides invoked so far, by ticket. -/
  settled : List (ℕ × Side) := []
  /-- Ghost: `BackendRuntime::shutdown` has issued its `notify_all`. -/
  closed : Bool := false

namespace BackendRuntime

variable {τ : Type}

/-- The runtime that `register_backend_with_prepare_lanes` builds, with its clamping. -/
def register (laneCount prepareLaneCount : ℕ) : BackendRuntime τ where
  laneCount := max laneCount 1
  prepareLaneCount := min (max prepareLaneCount 1) (max laneCount 1)

/-- The critical section of `schedule`: take a free lane, or wait. -/
def schedule (rt : BackendRuntime τ) (closure : τ) : BackendRuntime τ × Option (Scheduled τ) :=
  let task : Scheduled τ := ⟨rt.admitted, closure⟩
  if rt.lanesInUse < rt.laneCount then
    ({ rt with
        lanesInUse := rt.lanesInUse + 1
        admitted := rt.admitted + 1
        history := rt.history ++ [.arrive rt.admitted] ++ [.serve rt.admitted] }, some task)
  else
    ({ rt with
        waiting := rt.waiting ++ [task]
        admitted := rt.admitted + 1
        history := rt.history ++ [.arrive rt.admitted] }, none)

/-- The admission test of `acquire_prepare`. -/
def Admits (rt : BackendRuntime τ) : Prop :=
  rt.waiting = [] ∧ rt.lanesInUse < rt.laneCount ∧ rt.preparesInUse < rt.prepareLaneCount

instance (rt : BackendRuntime τ) : Decidable rt.Admits :=
  match h : rt.waiting with
  | [] => decidable_of_iff
      (rt.lanesInUse < rt.laneCount ∧ rt.preparesInUse < rt.prepareLaneCount)
      (by simp [Admits, h])
  | _ :: _ => isFalse (by simp [Admits, h])

/-- `acquire_prepare` takes a permit. -/
def permit (rt : BackendRuntime τ) : BackendRuntime τ :=
  { rt with
    lanesInUse := rt.lanesInUse + 1
    preparesInUse := rt.preparesInUse + 1
    history := rt.history ++ [.bypass] }

/-- The critical section of `finish_lane`: pass the lane to the first waiting task, or
free it. -/
def finishLane (rt : BackendRuntime τ) : BackendRuntime τ × Option (Scheduled τ) :=
  match rt.waiting with
  | task :: waiting =>
      ({ rt with waiting, history := rt.history ++ [.serve task.ticket] }, some task)
  | [] => ({ rt with lanesInUse := rt.lanesInUse - 1 }, none)

/-- The critical section of `finish_prepare`: free the permit and its lane, then give the
lane to the first waiting task, if any. -/
def finishPrepare (rt : BackendRuntime τ) : BackendRuntime τ × Option (Scheduled τ) :=
  let rt := { rt with
    preparesInUse := rt.preparesInUse - 1
    lanesInUse := rt.lanesInUse - 1 }
  match rt.waiting with
  | task :: waiting =>
      ({ rt with
          waiting
          lanesInUse := rt.lanesInUse + 1
          history := rt.history ++ [.serve task.ticket] }, some task)
  | [] => (rt, none)

/-- The critical section of `BackendRuntime::shutdown`: drain the waiting queue. -/
def drain (rt : BackendRuntime τ) : BackendRuntime τ × List (Scheduled τ) :=
  ({ rt with
      waiting := []
      history := rt.history ++ (rt.waiting.map Scheduled.ticket).map .discard }, rt.waiting)

/-- Ghost: one side of an admitted task is invoked. -/
def settle (rt : BackendRuntime τ) (task : Scheduled τ) (side : Side) : BackendRuntime τ :=
  { rt with settled := rt.settled ++ [(task.ticket, side)] }

/-- A caller of `acquire_prepare` enters the wait set of `prepare_wake`. -/
def park (rt : BackendRuntime τ) (thread : ThreadId) : BackendRuntime τ :=
  { rt with prepareWake := rt.prepareWake ++ [thread] }

/-- One thread leaves the wait set of `prepare_wake`. -/
def unpark (rt : BackendRuntime τ) (thread : ThreadId) : BackendRuntime τ :=
  { rt with prepareWake := rt.prepareWake.erase thread }

/-- `prepare_wake.notify_all()`. -/
def notifyPrepare (rt : BackendRuntime τ) : BackendRuntime τ :=
  { rt with prepareWake := [] }

/-- The `notify_all` at the end of `BackendRuntime::shutdown`. -/
def close (rt : BackendRuntime τ) : BackendRuntime τ :=
  { rt with prepareWake := [], closed := true }

end BackendRuntime

/-! ### Clients and frames -/

/-- What client code does in one step. -/
inductive ClientAct (κ τ : Type)
  /-- Go on at another program point. -/
  | goto (code : κ)
  /-- Call `BraidExecutor::submit`, to go on at `code` with its result. -/
  | submit (task : τ) (code : κ)
  /-- Call `schedule_with_rejection` of a backend handle. -/
  | schedule (backend : BackendId) (task : τ) (code : κ)
  /-- Call `prepare_blocking`, which runs `hook` under a permit. -/
  | prepare (backend : BackendId) (hook code : κ)
  /-- Call `BraidExecutor::shutdown` (or drop the last handle of the executor). -/
  | shutdown (code : κ)
  /-- Return to the caller. -/
  | ret (result : CallResult)

/-- A program that uses the executor. `σ` is its memory, `κ` its program points, `τ` its
task closures and `ν` the program points of their reject sides. A reject side is
bookkeeping under the client's own locks: it runs to its end without calling the
executor and without panicking, as the one of `stack.rs` does. -/
structure Client (σ κ τ ν : Type) where
  /-- One atomic step of a thread at a program point, `none` while it is blocked. The
  number resolves its nondeterminism. -/
  step : ThreadId → ℕ → σ → κ → Option (σ × ClientAct κ τ)
  /-- Receive the result of a call. -/
  resume : κ → CallResult → κ
  /-- Where the run side of a task starts. -/
  run : τ → κ
  /-- Where the reject side of a task starts. -/
  reject : τ → BraidError → ν
  /-- One atomic step of a reject side, and where it goes on unless it is done. -/
  rejectStep : σ → ν → σ × Option ν
  /-- The program points at which a caller's thread starts. -/
  entry : κ → Bool

/-- What a frame returns to the one below it. -/
inductive Outcome (τ : Type)
  | call (result : CallResult)
  /-- `Err((error, task))` of `submit_boxed` to `BraidExecutor::submit`. -/
  | refused (error : BraidError) (task : τ)

/-- The outcome as client code sees it: `BraidExecutor::submit` drops a refused task and
keeps the error. -/
def Outcome.result {τ : Type} : Outcome τ → CallResult
  | .call result => result
  | .refused error _ => .err error

/-- A program point of `executor.rs`, or of the client code it runs, with its locals. -/
inductive Frame (κ τ ν : Type)
  /-- The frame above has just returned `outcome`. -/
  | ret (outcome : Outcome τ)
  /-- Return `result` once the frame above is done. -/
  | returning (result : CallResult)
  | client (code : κ)
  /-- The reject side of a task. -/
  | rejecting (code : ν)
  /-- `submit_boxed`: load the shutdown flag. -/
  | submitLoad (task : Runnable τ)
  /-- `submit_boxed`: lock the queue, push, unlock. -/
  | submitPush (task : Runnable τ)
  /-- `submit_boxed`: `wake.notify_one()`. -/
  | submitNotify
  /-- `BackendRuntime::schedule`: its critical section. -/
  | schedule (backend : BackendId) (closure : τ)
  /-- `submit_ready`: wrap the task and upgrade the executor handle. -/
  | submitReady (backend : BackendId) (task : Scheduled τ)
  /-- `BackendWrappedTask::reject`. -/
  | wrappedReject (backend : BackendId) (task : Scheduled τ) (error : BraidError)
  /-- `finish_lane`: its critical section. -/
  | finishLane (backend : BackendId)
  /-- `finish_lane`: look at the result of `submit_ready`. -/
  | finishLaneCheck (backend : BackendId)
  /-- `prepare_wake.notify_all()`. -/
  | notifyPrepare (backend : BackendId)
  /-- `acquire_prepare` for a `prepare_blocking` that will run `hook`: the loop body,
  under the state lock. -/
  | acquirePrepare (backend : BackendId) (hook : κ)
  /-- `acquire_prepare`: in `prepare_wake.wait`. -/
  | acquireParked (backend : BackendId) (hook : κ)
  /-- `prepare_blocking`: the permit lives while the hook runs above. -/
  | permitHeld (backend : BackendId)
  /-- Drop of the permit: the critical section of `finish_prepare`. -/
  | finishPrepare (backend : BackendId) (result : CallResult)
  /-- `finish_prepare`: look at the result of `submit_ready`. -/
  | finishPrepareCheck (backend : BackendId) (result : CallResult)
  /-- `BackendRuntime::shutdown`: its critical section. -/
  | backendShutdown (backend : BackendId)
  /-- `BackendRuntime::shutdown`: reject the drained tasks one by one. -/
  | backendReject (backend : BackendId) (drained : List (Scheduled τ))
  /-- `BackendRuntime::shutdown`: `prepare_wake.notify_all()`. -/
  | backendNotify (backend : BackendId)
  /-- `BraidExecutor::shutdown`: swap the flag. -/
  | shutdownSwap
  /-- `BraidExecutor::shutdown`: collect the registered runtimes. -/
  | shutdownCollect
  /-- `BraidExecutor::shutdown`: shut the collected runtimes down. -/
  | shutdownBackends (runtimes : List BackendId)
  /-- `BraidExecutor::shutdown`: `wake.notify_all()`. -/
  | shutdownNotify
  /-- `BraidExecutor::shutdown`: join the workers. -/
  | shutdownJoin (handles : List ThreadId)
  /-- `worker_loop`: lock the queue. -/
  | workerLock
  /-- `worker_loop`: pop, with the queue locked. -/
  | workerPop
  /-- `worker_loop`: load the shutdown flag, with the queue locked and seen empty. -/
  | workerLoad
  /-- `worker_loop`: about to call `wake.wait`, with the queue locked and seen empty. -/
  | workerWait
  /-- `worker_loop`: inside `wake.wait`. -/
  | workerParked

/-- The memory that all threads share. -/
structure Shared (σ τ : Type) where
  queue : List (Runnable τ) := []
  queueLocked : Bool := false
  shutdown : Bool := false
  /-- The wait set of the condition variable of the queue. -/
  wake : List ThreadId := []
  /-- No `Arc<ExecutorInner>` is left, so `Weak::upgrade` fails. -/
  gone : Bool := false
  backends : List (BackendRuntime τ) := []
  /-- The memory of the client. -/
  client : σ

/-- Overwrite one backend runtime. -/
def Shared.setBackend {σ τ : Type} (sh : Shared σ τ) (b : BackendId) (rt : BackendRuntime τ) :
    Shared σ τ :=
  { sh with backends := sh.backends.set b rt }

/-- Ghost: one side of a task that backend `b` admitted is invoked. -/
def Shared.settled {σ τ : Type} (sh : Shared σ τ) (b : BackendId) (t : Scheduled τ)
    (side : Side) : Shared σ τ :=
  match sh.backends[b]? with
  | some rt => sh.setBackend b (rt.settle t side)
  | none => sh

/-- The whole state: the shared memory and the call stack of every thread. The first
`workers` threads run `worker_loop`; a thread with the empty stack has ended. -/
structure MachineState (σ κ τ ν : Type) where
  shared : Shared σ τ
  workers : ℕ
  threads : List (List (Frame κ τ ν))

/-- What happens next. -/
inductive Action (κ : Type)
  /-- Thread `thread` takes a step. -/
  | step (thread : ThreadId) (choice : ℕ)
  /-- A caller's thread starts. -/
  | spawn (code : κ)
  /-- `register_backend_with_prepare_lanes`. -/
  | register (laneCount prepareLaneCount : ℕ)
  /-- A thread leaves the wait sets without a notification. -/
  | spurious (thread : ThreadId)
  /-- The last `Arc<ExecutorInner>` is dropped. -/
  | release

/-! ### Steps -/

section Step

variable {σ κ τ ν : Type} (C : Client σ κ τ ν)

/-- `notify_one`: one thread of a nonempty wait set leaves it, whichever. -/
def notifyOne (waiters : List ThreadId) (choice : ℕ) : List ThreadId :=
  waiters.eraseIdx (choice % waiters.length)

/-- A frame receives the outcome of the frame above it. -/
def Frame.resume : Frame κ τ ν → Outcome τ → List (Frame κ τ ν)
  | .client code, o => [.client (C.resume code o.result)]
  | .returning r, _ => [.ret (.call r)]
  | .finishLaneCheck _, .call .ok => [.ret (.call .ok)]
  | .finishLaneCheck b, _ => [.notifyPrepare b]
  | .finishPrepareCheck b r, .call .ok => [.notifyPrepare b, .returning r]
  | .finishPrepareCheck b r, _ => [.notifyPrepare b, .notifyPrepare b, .returning r]
  | .permitHeld b, o => [.finishPrepare b o.result]
  -- a panic that leaves `task.run()` unwinds `worker_loop`
  | .workerLock, .call .panicked => []
  | f, _ => [f]

/-- `submit_boxed` hands a task back with an error: `submit_ready` calls its reject side
and returns the error, `BraidExecutor::submit` drops it. -/
def refuse (error : BraidError) : Runnable τ → List (Frame κ τ ν)
  | .wrapped b t => [.wrappedReject b t error, .returning (.err error)]
  | .plain t => [.ret (.refused error t)]

/-- What client code asked for, on top of the stack it ran on. -/
def callFrames : ClientAct κ τ → List (Frame κ τ ν)
  | .goto code => [.client code]
  | .submit task code => [.submitLoad (.plain task), .client code]
  | .schedule b task code => [.schedule b task, .client code]
  | .prepare b hook code => [.acquirePrepare b hook, .client code]
  | .shutdown code => [.shutdownSwap, .client code]
  | .ret result => [.ret (.call result)]

/-- One step of the top frame of thread `self`: the memory after it and the frames that
replace the top frame, `none` while it is blocked. `ended` tells which threads have
ended. -/
def Frame.step (sh : Shared σ τ) (workers : ℕ) (ended : ThreadId → Bool) (self : ThreadId)
    (choice : ℕ) : Frame κ τ ν → Option (Shared σ τ × List (Frame κ τ ν))
  | .client code => do
      let (mem, act) ← C.step self choice sh.client code
      return ({ sh with client := mem }, callFrames act)
  | .rejecting code =>
      let (mem, next) := C.rejectStep sh.client code
      some ({ sh with client := mem },
        match next with
        | some code => [.rejecting code]
        | none => [.ret (.call .ok)])
  | .submitLoad task =>
      if sh.shutdown then some (sh, refuse .executorShutdown task)
      else some (sh, [.submitPush task])
  | .submitPush task =>
      if sh.queueLocked then none
      else some ({ sh with queue := sh.queue ++ [task] }, [.submitNotify])
  | .submitNotify => some ({ sh with wake := notifyOne sh.wake choice }, [.ret (.call .ok)])
  | .schedule b closure => do
      let rt ← sh.backends[b]?
      match rt.schedule closure with
      | (rt', some task) => return (sh.setBackend b rt', [.submitReady b task])
      | (rt', none) => return (sh.setBackend b rt', [.ret (.call .ok)])
  | .submitReady b task =>
      if sh.gone then
        some (sh, [.wrappedReject b task .executorShutdown, .returning (.err .executorShutdown)])
      else some (sh, [.submitLoad (.wrapped b task)])
  | .wrappedReject b task error =>
      some (sh.settled b task .reject,
        [.rejecting (C.reject task.closure error), .finishLane b])
  | .finishLane b => do
      let rt ← sh.backends[b]?
      match rt.finishLane with
      | (rt', some task) => return (sh.setBackend b rt', [.submitReady b task, .finishLaneCheck b])
      | (rt', none) => return (sh.setBackend b rt', [.notifyPrepare b])
  | .notifyPrepare b => do
      let rt ← sh.backends[b]?
      return (sh.setBackend b rt.notifyPrepare, [.ret (.call .ok)])
  | .acquirePrepare b hook => do
      let rt ← sh.backends[b]?
      if sh.gone || sh.shutdown then return (sh, [.ret (.call (.err .executorShutdown))])
      else if rt.Admits then
        return (sh.setBackend b rt.permit, [.client hook, .permitHeld b])
      else return (sh.setBackend b (rt.park self), [.acquireParked b hook])
  | .acquireParked b hook => do
      let rt ← sh.backends[b]?
      if self ∈ rt.prepareWake then none else return (sh, [.acquirePrepare b hook])
  | .finishPrepare b result => do
      let rt ← sh.backends[b]?
      match rt.finishPrepare with
      | (rt', some task) =>
          return (sh.setBackend b rt', [.submitReady b task, .finishPrepareCheck b result])
      | (rt', none) => return (sh.setBackend b rt', [.notifyPrepare b, .returning result])
  | .backendShutdown b => do
      let rt ← sh.backends[b]?
      return (sh.setBackend b rt.drain.1, [.backendReject b rt.drain.2])
  | .backendReject b (task :: drained) =>
      some (sh.settled b task .reject,
        [.rejecting (C.reject task.closure .executorShutdown), .backendReject b drained])
  | .backendReject b [] => some (sh, [.backendNotify b])
  | .backendNotify b => do
      let rt ← sh.backends[b]?
      return (sh.setBackend b rt.close, [.ret (.call .ok)])
  | .shutdownSwap =>
      if sh.shutdown then some (sh, [.ret (.call .ok)])
      else some ({ sh with shutdown := true }, [.shutdownCollect])
  | .shutdownCollect => some (sh, [.shutdownBackends (List.range sh.backends.length)])
  | .shutdownBackends (b :: runtimes) =>
      some (sh, [.backendShutdown b, .shutdownBackends runtimes])
  | .shutdownBackends [] => some (sh, [.shutdownNotify])
  | .shutdownNotify =>
      some ({ sh with wake := [] }, [.shutdownJoin (List.range workers)])
  | .shutdownJoin (handle :: handles) =>
      if handle = self ∨ ended handle then some (sh, [.shutdownJoin handles]) else none
  | .shutdownJoin [] => some (sh, [.ret (.call .ok)])
  | .workerLock =>
      if sh.queueLocked then none else some ({ sh with queueLocked := true }, [.workerPop])
  | .workerPop =>
      match sh.queue with
      | .plain task :: queue =>
          some ({ sh with queue, queueLocked := false }, [.client (C.run task), .workerLock])
      | .wrapped b task :: queue =>
          some ({ sh with queue, queueLocked := false }.settled b task .run,
            [.client (C.run task.closure), .finishLane b, .workerLock])
      | [] => some (sh, [.workerLoad])
  | .workerLoad =>
      if sh.shutdown then some ({ sh with queueLocked := false }, [])
      else some (sh, [.workerWait])
  | .workerWait =>
      some ({ sh with queueLocked := false, wake := sh.wake ++ [self] }, [.workerParked])
  | .workerParked =>
      if self ∈ sh.wake ∨ sh.queueLocked then none
      else some ({ sh with queueLocked := true }, [.workerPop])
  -- these frames only wait for the one above them
  | .ret _ | .returning _ | .finishLaneCheck _ | .permitHeld _ | .finishPrepareCheck _ _ =>
      none

/-- One step of a thread: a returned outcome goes to the frame below, any other top frame
takes its own step. -/
def stepStack (sh : Shared σ τ) (workers : ℕ) (ended : ThreadId → Bool) (self : ThreadId)
    (choice : ℕ) : List (Frame κ τ ν) → Option (Shared σ τ × List (Frame κ τ ν))
  | [] => none
  | [.ret _] => some (sh, [])
  | .ret o :: f :: rest => some (sh, f.resume C o ++ rest)
  | f :: rest => (f.step C sh workers ended self choice).map fun r => (r.1, r.2 ++ rest)

/-- The frame owns an `Arc<ExecutorInner>` or borrows the executor. -/
def Frame.holdsExecutor : Frame κ τ ν → Bool
  | .submitLoad _ | .submitPush _ | .submitNotify | .workerLock | .workerPop | .workerLoad
  | .workerWait | .workerParked | .shutdownSwap | .shutdownCollect | .shutdownBackends _
  | .shutdownNotify | .shutdownJoin _ => true
  | _ => false

/-- One step of the machine. -/
def machineStep (s : MachineState σ κ τ ν) : Action κ → Option (MachineState σ κ τ ν)
  | .step i choice => do
      let stack ← s.threads[i]?
      let (sh, stack) ← stepStack C s.shared s.workers
        (fun h => (s.threads[h]?.getD []).isEmpty) i choice stack
      return { s with shared := sh, threads := s.threads.set i stack }
  | .spawn code =>
      if C.entry code then some { s with threads := s.threads ++ [[.client code]] } else none
  | .register lanes prepares =>
      some { s with shared := { s.shared with
        backends := s.shared.backends ++ [.register lanes prepares] } }
  | .spurious t =>
      some { s with shared := { s.shared with
        wake := s.shared.wake.erase t
        backends := s.shared.backends.map (·.unpark t) } }
  -- queued tasks hold the stack and so the executor
  | .release =>
      if s.shared.shutdown ∧ s.shared.queue.isEmpty ∧
          ∀ st ∈ s.threads, ∀ f ∈ st, f.holdsExecutor = false then
        some { s with shared := { s.shared with gone := true } }
      else none

/-- `BraidExecutor::new(worker_count)` over the initial memory `mem` of the client. -/
def MachineState.start (mem : σ) (workerCount : ℕ) : MachineState σ κ τ ν where
  shared := { client := mem }
  workers := max workerCount 1
  threads := List.replicate (max workerCount 1) [.workerLock]

/-- The initial states: any number of workers, over a given memory of the client. -/
def Started (mem : σ) (s : MachineState σ κ τ ν) : Prop :=
  ∃ workerCount, s = MachineState.start mem workerCount

end Step

end Braids
