import Mathlib.Tactic.Common
import Braids.Executor.Machine

/-!
# Anatomy of a Machine Step

The inversion lemmas of the executor machine. `FrameStep` lists what the top frame of a
thread can do, guards included, and `machineStep_cases` reduces a step of the machine to
one of: a thread ends, an outcome is returned into a frame, a `FrameStep`, or one of the
four actions that belong to no thread. Later proofs split on these cases and never unfold
the step function.
-/

namespace Braids

variable {σ κ τ ν : Type}

/-! ### The critical sections of a backend -/

namespace BackendRuntime

variable {rt rt' : BackendRuntime τ} {closure : τ} {task : Scheduled τ}

/-- `schedule` grants a lane only if one is free. -/
theorem schedule_some (h : rt.schedule closure = (rt', some task)) :
    rt.lanesInUse < rt.laneCount ∧ task = ⟨rt.admitted, closure⟩ ∧
      rt' = { rt with
        lanesInUse := rt.lanesInUse + 1
        admitted := rt.admitted + 1
        history := rt.history ++ [.arrive rt.admitted] ++ [.serve rt.admitted] } := by
  rw [schedule] at h
  split at h
  · next hlt =>
      simp only [Prod.mk.injEq, Option.some.injEq] at h
      obtain ⟨rfl, rfl⟩ := h
      exact ⟨hlt, rfl, rfl⟩
  · simp at h

/-- `schedule` queues the task only if no lane is free. -/
theorem schedule_none (h : rt.schedule closure = (rt', none)) :
    rt.laneCount ≤ rt.lanesInUse ∧
      rt' = { rt with
        waiting := rt.waiting ++ [⟨rt.admitted, closure⟩]
        admitted := rt.admitted + 1
        history := rt.history ++ [.arrive rt.admitted] } := by
  rw [schedule] at h
  split at h
  · simp at h
  · next hlt =>
      simp only [Prod.mk.injEq, and_true] at h
      exact ⟨not_lt.mp hlt, h.symm⟩

/-- `finish_lane` passes its lane to the first waiting task. -/
theorem finishLane_some (h : rt.finishLane = (rt', some task)) :
    ∃ waiting, rt.waiting = task :: waiting ∧
      rt' = { rt with waiting, history := rt.history ++ [.serve task.ticket] } := by
  rw [finishLane] at h
  split at h
  · next t waiting hw =>
      simp only [Prod.mk.injEq, Option.some.injEq] at h
      obtain ⟨rfl, rfl⟩ := h
      exact ⟨waiting, hw, rfl⟩
  · simp at h

/-- `finish_lane` frees its lane only if no task waits. -/
theorem finishLane_none (h : rt.finishLane = (rt', none)) :
    rt.waiting = [] ∧ rt' = { rt with lanesInUse := rt.lanesInUse - 1 } := by
  rw [finishLane] at h
  split at h
  · simp at h
  · next hw =>
      simp only [Prod.mk.injEq, and_true] at h
      exact ⟨hw, h.symm⟩

/-- `finish_prepare` gives its lane to the first waiting task. -/
theorem finishPrepare_some (h : rt.finishPrepare = (rt', some task)) :
    ∃ waiting, rt.waiting = task :: waiting ∧
      rt' = { rt with
        preparesInUse := rt.preparesInUse - 1
        lanesInUse := rt.lanesInUse - 1 + 1
        waiting
        history := rt.history ++ [.serve task.ticket] } := by
  simp only [finishPrepare] at h
  split at h
  · next t waiting hw =>
      simp only [Prod.mk.injEq, Option.some.injEq] at h
      obtain ⟨rfl, rfl⟩ := h
      exact ⟨waiting, hw, rfl⟩
  · simp at h

/-- `finish_prepare` frees its lane only if no task waits. -/
theorem finishPrepare_none (h : rt.finishPrepare = (rt', none)) :
    rt.waiting = [] ∧
      rt' = { rt with
        preparesInUse := rt.preparesInUse - 1
        lanesInUse := rt.lanesInUse - 1 } := by
  simp only [finishPrepare] at h
  split at h
  · simp at h
  · next hw =>
      simp only [Prod.mk.injEq, and_true] at h
      exact ⟨hw, h.symm⟩

end BackendRuntime

/-! ### Reading and writing one backend -/

@[simp] theorem Shared.setBackend_queue (sh : Shared σ τ) (b : BackendId)
    (rt : BackendRuntime τ) : (sh.setBackend b rt).queue = sh.queue := rfl

@[simp] theorem Shared.setBackend_queueLocked (sh : Shared σ τ) (b : BackendId)
    (rt : BackendRuntime τ) : (sh.setBackend b rt).queueLocked = sh.queueLocked := rfl

@[simp] theorem Shared.setBackend_shutdown (sh : Shared σ τ) (b : BackendId)
    (rt : BackendRuntime τ) : (sh.setBackend b rt).shutdown = sh.shutdown := rfl

@[simp] theorem Shared.setBackend_wake (sh : Shared σ τ) (b : BackendId)
    (rt : BackendRuntime τ) : (sh.setBackend b rt).wake = sh.wake := rfl

@[simp] theorem Shared.setBackend_gone (sh : Shared σ τ) (b : BackendId)
    (rt : BackendRuntime τ) : (sh.setBackend b rt).gone = sh.gone := rfl

@[simp] theorem Shared.setBackend_client (sh : Shared σ τ) (b : BackendId)
    (rt : BackendRuntime τ) : (sh.setBackend b rt).client = sh.client := rfl

/-- Writing one backend leaves the others alone. -/
theorem Shared.setBackend_ne (sh : Shared σ τ) {b b' : BackendId} (rt : BackendRuntime τ)
    (h : b' ≠ b) : (sh.setBackend b' rt).backends[b]? = sh.backends[b]? := by
  simp [Shared.setBackend, List.getElem?_set_ne h]

/-- Reading back the backend that was written. -/
theorem Shared.setBackend_self (sh : Shared σ τ) {b : BackendId} {rt : BackendRuntime τ}
    (rt' : BackendRuntime τ) (h : sh.backends[b]? = some rt) :
    (sh.setBackend b rt').backends[b]? = some rt' := by
  have hlt : b < sh.backends.length := (List.getElem?_eq_some_iff.mp h).1
  simp [Shared.setBackend, hlt]

/-- Two readings name the same runtime or different backends. -/
theorem Shared.same_or_ne {sh : Shared σ τ} {b b' : BackendId} {rt rt' : BackendRuntime τ}
    (hb' : sh.backends[b']? = some rt') (hb : sh.backends[b]? = some rt) :
    (b' = b ∧ rt' = rt) ∨ b' ≠ b := by
  by_cases h : b' = b
  · subst h
    exact .inl ⟨rfl, Option.some.inj (hb'.symm.trans hb)⟩
  · exact .inr h

/-- The runtimes after one side of a task was invoked. -/
theorem Shared.settled_backends {sh : Shared σ τ} {b b' : BackendId} {rt : BackendRuntime τ}
    (hb : sh.backends[b]? = some rt) (t : Scheduled τ) (side : Side) :
    (sh.settled b' t side).backends[b]? =
      some (if b' = b then rt.settle t side else rt) := by
  rw [Shared.settled]
  split
  · next rt' hb' =>
      rcases Shared.same_or_ne hb' hb with ⟨rfl, rfl⟩ | hne
      · rw [sh.setBackend_self _ hb, if_pos rfl]
      · rw [sh.setBackend_ne _ hne, if_neg hne, hb]
  · next hb' =>
      have hne : b' ≠ b := by
        rintro rfl
        simp [hb] at hb'
      rw [if_neg hne, hb]

@[simp] theorem Shared.settled_queue (sh : Shared σ τ) (b : BackendId) (t : Scheduled τ)
    (side : Side) : (sh.settled b t side).queue = sh.queue := by
  rw [Shared.settled]
  split <;> rfl

@[simp] theorem Shared.settled_queueLocked (sh : Shared σ τ) (b : BackendId)
    (t : Scheduled τ) (side : Side) :
    (sh.settled b t side).queueLocked = sh.queueLocked := by
  rw [Shared.settled]
  split <;> rfl

@[simp] theorem Shared.settled_shutdown (sh : Shared σ τ) (b : BackendId) (t : Scheduled τ)
    (side : Side) : (sh.settled b t side).shutdown = sh.shutdown := by
  rw [Shared.settled]
  split <;> rfl

@[simp] theorem Shared.settled_wake (sh : Shared σ τ) (b : BackendId) (t : Scheduled τ)
    (side : Side) : (sh.settled b t side).wake = sh.wake := by
  rw [Shared.settled]
  split <;> rfl

@[simp] theorem Shared.settled_client (sh : Shared σ τ) (b : BackendId) (t : Scheduled τ)
    (side : Side) : (sh.settled b t side).client = sh.client := by
  rw [Shared.settled]
  split <;> rfl

/-! ### The steps of a frame -/

/-- What the top frame `f` of thread `i` can do: the memory after the step and the frames
that replace it. -/
inductive FrameStep (C : Client σ κ τ ν) (sh : Shared σ τ) (workers : ℕ)
    (ended : ThreadId → Bool) (i : ThreadId) :
    Frame κ τ ν → Shared σ τ → List (Frame κ τ ν) → Prop
  | client {code : κ} {choice : ℕ} {mem : σ} {act : ClientAct κ τ}
      (h : C.step i choice sh.client code = some (mem, act)) :
      FrameStep C sh workers ended i (.client code) { sh with client := mem } (callFrames act)
  | rejectOn {code next : ν} {mem : σ} (h : C.rejectStep sh.client code = (mem, some next)) :
      FrameStep C sh workers ended i (.rejecting code) { sh with client := mem }
        [.rejecting next]
  | rejectDone {code : ν} {mem : σ} (h : C.rejectStep sh.client code = (mem, none)) :
      FrameStep C sh workers ended i (.rejecting code) { sh with client := mem }
        [.ret (.call .ok)]
  | submitRefused {task : Runnable τ} (h : sh.shutdown = true) :
      FrameStep C sh workers ended i (.submitLoad task) sh (refuse .executorShutdown task)
  | submitLoad {task : Runnable τ} (h : sh.shutdown = false) :
      FrameStep C sh workers ended i (.submitLoad task) sh [.submitPush task]
  | submitPush {task : Runnable τ} (h : sh.queueLocked = false) :
      FrameStep C sh workers ended i (.submitPush task)
        { sh with queue := sh.queue ++ [task] } [.submitNotify]
  | submitNotify (choice : ℕ) :
      FrameStep C sh workers ended i .submitNotify
        { sh with wake := notifyOne sh.wake choice } [.ret (.call .ok)]
  | grant {b : BackendId} {closure : τ} {rt rt' : BackendRuntime τ} {task : Scheduled τ}
      (hb : sh.backends[b]? = some rt) (h : rt.schedule closure = (rt', some task)) :
      FrameStep C sh workers ended i (.schedule b closure) (sh.setBackend b rt')
        [.submitReady b task]
  | enqueue {b : BackendId} {closure : τ} {rt rt' : BackendRuntime τ}
      (hb : sh.backends[b]? = some rt) (h : rt.schedule closure = (rt', none)) :
      FrameStep C sh workers ended i (.schedule b closure) (sh.setBackend b rt')
        [.ret (.call .ok)]
  | submitGone {b : BackendId} {task : Scheduled τ} (h : sh.gone = true) :
      FrameStep C sh workers ended i (.submitReady b task) sh
        [.wrappedReject b task .executorShutdown, .returning (.err .executorShutdown)]
  | submitReady {b : BackendId} {task : Scheduled τ} (h : sh.gone = false) :
      FrameStep C sh workers ended i (.submitReady b task) sh [.submitLoad (.wrapped b task)]
  | wrappedReject {b : BackendId} {task : Scheduled τ} {error : BraidError} :
      FrameStep C sh workers ended i (.wrappedReject b task error)
        (sh.settled b task .reject)
        [.rejecting (C.reject task.closure error), .finishLane b]
  | handOver {b : BackendId} {rt rt' : BackendRuntime τ} {task : Scheduled τ}
      (hb : sh.backends[b]? = some rt) (h : rt.finishLane = (rt', some task)) :
      FrameStep C sh workers ended i (.finishLane b) (sh.setBackend b rt')
        [.submitReady b task, .finishLaneCheck b]
  | free {b : BackendId} {rt rt' : BackendRuntime τ}
      (hb : sh.backends[b]? = some rt) (h : rt.finishLane = (rt', none)) :
      FrameStep C sh workers ended i (.finishLane b) (sh.setBackend b rt') [.notifyPrepare b]
  | notifyPrepare {b : BackendId} {rt : BackendRuntime τ} (hb : sh.backends[b]? = some rt) :
      FrameStep C sh workers ended i (.notifyPrepare b) (sh.setBackend b rt.notifyPrepare)
        [.ret (.call .ok)]
  | prepareRefused {b : BackendId} {hook : κ} (h : sh.gone = true ∨ sh.shutdown = true) :
      FrameStep C sh workers ended i (.acquirePrepare b hook) sh
        [.ret (.call (.err .executorShutdown))]
  | permit {b : BackendId} {hook : κ} {rt : BackendRuntime τ}
      (hb : sh.backends[b]? = some rt) (hg : sh.gone = false) (hs : sh.shutdown = false)
      (h : rt.Admits) :
      FrameStep C sh workers ended i (.acquirePrepare b hook) (sh.setBackend b rt.permit)
        [.client hook, .permitHeld b]
  | park {b : BackendId} {hook : κ} {rt : BackendRuntime τ}
      (hb : sh.backends[b]? = some rt) (hg : sh.gone = false) (hs : sh.shutdown = false)
      (h : ¬ rt.Admits) :
      FrameStep C sh workers ended i (.acquirePrepare b hook) (sh.setBackend b (rt.park i))
        [.acquireParked b hook]
  | unparked {b : BackendId} {hook : κ} {rt : BackendRuntime τ}
      (hb : sh.backends[b]? = some rt) (h : i ∉ rt.prepareWake) :
      FrameStep C sh workers ended i (.acquireParked b hook) sh [.acquirePrepare b hook]
  | permitHandOver {b : BackendId} {result : CallResult} {rt rt' : BackendRuntime τ}
      {task : Scheduled τ} (hb : sh.backends[b]? = some rt)
      (h : rt.finishPrepare = (rt', some task)) :
      FrameStep C sh workers ended i (.finishPrepare b result) (sh.setBackend b rt')
        [.submitReady b task, .finishPrepareCheck b result]
  | permitFree {b : BackendId} {result : CallResult} {rt rt' : BackendRuntime τ}
      (hb : sh.backends[b]? = some rt) (h : rt.finishPrepare = (rt', none)) :
      FrameStep C sh workers ended i (.finishPrepare b result) (sh.setBackend b rt')
        [.notifyPrepare b, .returning result]
  | drain {b : BackendId} {rt : BackendRuntime τ} (hb : sh.backends[b]? = some rt) :
      FrameStep C sh workers ended i (.backendShutdown b) (sh.setBackend b rt.drain.1)
        [.backendReject b rt.waiting]
  | rejectDrained {b : BackendId} {task : Scheduled τ} {drained : List (Scheduled τ)} :
      FrameStep C sh workers ended i (.backendReject b (task :: drained))
        (sh.settled b task .reject)
        [.rejecting (C.reject task.closure .executorShutdown), .backendReject b drained]
  | rejectEnd {b : BackendId} :
      FrameStep C sh workers ended i (.backendReject b []) sh [.backendNotify b]
  | close {b : BackendId} {rt : BackendRuntime τ} (hb : sh.backends[b]? = some rt) :
      FrameStep C sh workers ended i (.backendNotify b) (sh.setBackend b rt.close)
        [.ret (.call .ok)]
  | swapAgain (h : sh.shutdown = true) :
      FrameStep C sh workers ended i .shutdownSwap sh [.ret (.call .ok)]
  | swap (h : sh.shutdown = false) :
      FrameStep C sh workers ended i .shutdownSwap { sh with shutdown := true }
        [.shutdownCollect]
  | collect :
      FrameStep C sh workers ended i .shutdownCollect sh
        [.shutdownBackends (List.range sh.backends.length)]
  | shutNext {b : BackendId} {runtimes : List BackendId} :
      FrameStep C sh workers ended i (.shutdownBackends (b :: runtimes)) sh
        [.backendShutdown b, .shutdownBackends runtimes]
  | shutEnd : FrameStep C sh workers ended i (.shutdownBackends []) sh [.shutdownNotify]
  | wakeAll :
      FrameStep C sh workers ended i .shutdownNotify { sh with wake := [] }
        [.shutdownJoin (List.range workers)]
  | join {handle : ThreadId} {handles : List ThreadId} (h : handle = i ∨ ended handle) :
      FrameStep C sh workers ended i (.shutdownJoin (handle :: handles)) sh
        [.shutdownJoin handles]
  | joinEnd : FrameStep C sh workers ended i (.shutdownJoin []) sh [.ret (.call .ok)]
  | lock (h : sh.queueLocked = false) :
      FrameStep C sh workers ended i .workerLock { sh with queueLocked := true } [.workerPop]
  | popPlain {task : τ} {queue : List (Runnable τ)} (h : sh.queue = .plain task :: queue) :
      FrameStep C sh workers ended i .workerPop
        { sh with queue := queue, queueLocked := false } [.client (C.run task), .workerLock]
  | popWrapped {b : BackendId} {task : Scheduled τ} {queue : List (Runnable τ)}
      (h : sh.queue = .wrapped b task :: queue) :
      FrameStep C sh workers ended i .workerPop
        ({ sh with queue := queue, queueLocked := false }.settled b task .run)
        [.client (C.run task.closure), .finishLane b, .workerLock]
  | popEmpty (h : sh.queue = []) : FrameStep C sh workers ended i .workerPop sh [.workerLoad]
  | exit (h : sh.shutdown = true) :
      FrameStep C sh workers ended i .workerLoad { sh with queueLocked := false } []
  | load (h : sh.shutdown = false) :
      FrameStep C sh workers ended i .workerLoad sh [.workerWait]
  | wait :
      FrameStep C sh workers ended i .workerWait
        { sh with queueLocked := false, wake := sh.wake ++ [i] } [.workerParked]
  | relock (hw : i ∉ sh.wake) (h : sh.queueLocked = false) :
      FrameStep C sh workers ended i .workerParked { sh with queueLocked := true }
        [.workerPop]

section Anatomy

variable {C : Client σ κ τ ν} {sh sh' : Shared σ τ} {w c : ℕ} {e : ThreadId → Bool}
  {i : ThreadId} {f : Frame κ τ ν} {fs st st' : List (Frame κ τ ν)}

/-- A reject side takes one step. -/
theorem Frame.step_rejecting {code : ν}
    (h : Frame.step C sh w e i c (.rejecting code) = some (sh', fs)) :
    FrameStep C sh w e i (.rejecting code) sh' fs := by
  unfold Frame.step at h
  rcases hr : C.rejectStep sh.client code with ⟨mem, _ | next⟩ <;>
    simp only [hr, Option.some.injEq, Prod.mk.injEq] at h <;>
    obtain ⟨rfl, rfl⟩ := h
  · exact .rejectDone hr
  · exact .rejectOn hr

/-- `submit` looks at the shutdown flag. -/
theorem Frame.step_submitLoad {task : Runnable τ}
    (h : Frame.step C sh w e i c (.submitLoad task) = some (sh', fs)) :
    FrameStep C sh w e i (.submitLoad task) sh' fs := by
  unfold Frame.step at h
  simp only at h
  split at h
  · next hs =>
      simp only [Option.some.injEq, Prod.mk.injEq] at h
      obtain ⟨rfl, rfl⟩ := h
      exact .submitRefused hs
  · next hs =>
      simp only [Option.some.injEq, Prod.mk.injEq] at h
      obtain ⟨rfl, rfl⟩ := h
      exact .submitLoad (by simpa using hs)

/-- `submit_boxed` pushes the task. -/
theorem Frame.step_submitPush {task : Runnable τ}
    (h : Frame.step C sh w e i c (.submitPush task) = some (sh', fs)) :
    FrameStep C sh w e i (.submitPush task) sh' fs := by
  unfold Frame.step at h
  simp only at h
  split at h
  · simp at h
  · next hq =>
      simp only [Option.some.injEq, Prod.mk.injEq] at h
      obtain ⟨rfl, rfl⟩ := h
      exact .submitPush (by simpa using hq)

/-- `schedule` queues the task or takes the lane for it. -/
theorem Frame.step_schedule {b : BackendId} {closure : τ}
    (h : Frame.step C sh w e i c (.schedule b closure) = some (sh', fs)) :
    FrameStep C sh w e i (.schedule b closure) sh' fs := by
  unfold Frame.step at h
  simp only [bind, Option.bind_eq_some_iff] at h
  obtain ⟨rt, hb, h⟩ := h
  rcases hr : rt.schedule closure with ⟨rt', _ | task⟩ <;>
    simp only [hr, Option.pure_def, Option.some.injEq, Prod.mk.injEq] at h <;>
    obtain ⟨rfl, rfl⟩ := h
  · exact .enqueue hb hr
  · exact .grant hb hr

/-- `submit_ready` passes the task to the queue, if the executor lives. -/
theorem Frame.step_submitReady {b : BackendId} {task : Scheduled τ}
    (h : Frame.step C sh w e i c (.submitReady b task) = some (sh', fs)) :
    FrameStep C sh w e i (.submitReady b task) sh' fs := by
  unfold Frame.step at h
  simp only at h
  split at h <;> simp only [Option.some.injEq, Prod.mk.injEq] at h <;>
    obtain ⟨rfl, rfl⟩ := h
  · next hg => exact .submitGone hg
  · next hg => exact .submitReady (by simpa using hg)

/-- `finish_lane` frees the lane or hands it over. -/
theorem Frame.step_finishLane {b : BackendId}
    (h : Frame.step C sh w e i c (.finishLane b) = some (sh', fs)) :
    FrameStep C sh w e i (.finishLane b) sh' fs := by
  unfold Frame.step at h
  simp only [bind, Option.bind_eq_some_iff] at h
  obtain ⟨rt, hb, h⟩ := h
  rcases hr : rt.finishLane with ⟨rt', _ | task⟩ <;>
    simp only [hr, Option.pure_def, Option.some.injEq, Prod.mk.injEq] at h <;>
    obtain ⟨rfl, rfl⟩ := h
  · exact .free hb hr
  · exact .handOver hb hr

/-- `acquire_prepare` is refused, takes the permit or parks. -/
theorem Frame.step_acquirePrepare {b : BackendId} {hook : κ}
    (h : Frame.step C sh w e i c (.acquirePrepare b hook) = some (sh', fs)) :
    FrameStep C sh w e i (.acquirePrepare b hook) sh' fs := by
  unfold Frame.step at h
  simp only [bind, Option.bind_eq_some_iff] at h
  obtain ⟨rt, hb, h⟩ := h
  split at h
  · next hg =>
      simp only [Option.pure_def, Option.some.injEq, Prod.mk.injEq] at h
      obtain ⟨rfl, rfl⟩ := h
      exact .prepareRefused (by simpa using hg)
  · next hg =>
      simp only [Bool.or_eq_true, not_or, Bool.not_eq_true] at hg
      split at h <;> simp only [Option.pure_def, Option.some.injEq, Prod.mk.injEq] at h <;>
        obtain ⟨rfl, rfl⟩ := h
      · next ha => exact .permit hb hg.1 hg.2 ha
      · next ha => exact .park hb hg.1 hg.2 ha

/-- A parked `acquire_prepare` wakes up. -/
theorem Frame.step_acquireParked {b : BackendId} {hook : κ}
    (h : Frame.step C sh w e i c (.acquireParked b hook) = some (sh', fs)) :
    FrameStep C sh w e i (.acquireParked b hook) sh' fs := by
  unfold Frame.step at h
  simp only [bind, Option.bind_eq_some_iff] at h
  obtain ⟨rt, hb, h⟩ := h
  split at h
  · simp at h
  · next hw =>
      simp only [Option.pure_def, Option.some.injEq, Prod.mk.injEq] at h
      obtain ⟨rfl, rfl⟩ := h
      exact .unparked hb hw

/-- `finish_prepare` frees the lanes or hands one over. -/
theorem Frame.step_finishPrepare {b : BackendId} {result : CallResult}
    (h : Frame.step C sh w e i c (.finishPrepare b result) = some (sh', fs)) :
    FrameStep C sh w e i (.finishPrepare b result) sh' fs := by
  unfold Frame.step at h
  simp only [bind, Option.bind_eq_some_iff] at h
  obtain ⟨rt, hb, h⟩ := h
  rcases hr : rt.finishPrepare with ⟨rt', _ | task⟩ <;>
    simp only [hr, Option.pure_def, Option.some.injEq, Prod.mk.injEq] at h <;>
    obtain ⟨rfl, rfl⟩ := h
  · exact .permitFree hb hr
  · exact .permitHandOver hb hr

/-- `shutdown` joins the workers. -/
theorem Frame.step_shutdownJoin {handles : List ThreadId}
    (h : Frame.step C sh w e i c (.shutdownJoin handles) = some (sh', fs)) :
    FrameStep C sh w e i (.shutdownJoin handles) sh' fs := by
  cases handles with
  | nil =>
      simp only [Frame.step, Option.some.injEq, Prod.mk.injEq] at h
      obtain ⟨rfl, rfl⟩ := h
      exact .joinEnd
  | cons handle handles =>
      simp only [Frame.step] at h
      split at h
      · next hj =>
          simp only [Option.some.injEq, Prod.mk.injEq] at h
          obtain ⟨rfl, rfl⟩ := h
          exact .join hj
      · simp at h

/-- A worker takes the first task of the queue. -/
theorem Frame.step_workerPop (h : Frame.step C sh w e i c .workerPop = some (sh', fs)) :
    FrameStep C sh w e i .workerPop sh' fs := by
  unfold Frame.step at h
  simp only at h
  split at h <;> simp only [Option.some.injEq, Prod.mk.injEq] at h <;>
    obtain ⟨rfl, rfl⟩ := h
  · next hq => exact .popPlain hq
  · next hq => exact .popWrapped hq
  · next hq => exact .popEmpty hq

/-- A worker with nothing to do looks at the shutdown flag. -/
theorem Frame.step_workerLoad (h : Frame.step C sh w e i c .workerLoad = some (sh', fs)) :
    FrameStep C sh w e i .workerLoad sh' fs := by
  unfold Frame.step at h
  simp only at h
  split at h <;> simp only [Option.some.injEq, Prod.mk.injEq] at h <;>
    obtain ⟨rfl, rfl⟩ := h
  · next hs => exact .exit hs
  · next hs => exact .load (by simpa using hs)

/-- A parked worker wakes up. -/
theorem Frame.step_workerParked (h : Frame.step C sh w e i c .workerParked = some (sh', fs)) :
    FrameStep C sh w e i .workerParked sh' fs := by
  unfold Frame.step at h
  simp only at h
  split at h
  · simp at h
  · next hw =>
      simp only [Option.some.injEq, Prod.mk.injEq] at h
      obtain ⟨rfl, rfl⟩ := h
      simp only [not_or, Bool.not_eq_true] at hw
      exact .relock hw.1 hw.2

/-- Every step of a frame is a `FrameStep`. -/
theorem Frame.step_cases (h : f.step C sh w e i c = some (sh', fs)) :
    FrameStep C sh w e i f sh' fs := by
  cases f with
  | ret o => simp [Frame.step] at h
  | returning o => simp [Frame.step] at h
  | finishLaneCheck b => simp [Frame.step] at h
  | permitHeld b => simp [Frame.step] at h
  | finishPrepareCheck b o => simp [Frame.step] at h
  | client code =>
      simp only [Frame.step, bind, Option.bind_eq_some_iff, Option.pure_def, Option.some.injEq,
        Prod.mk.injEq] at h
      obtain ⟨⟨mem, act⟩, hstep, rfl, rfl⟩ := h
      exact .client hstep
  | rejecting code => exact Frame.step_rejecting h
  | submitLoad task => exact Frame.step_submitLoad h
  | submitPush task => exact Frame.step_submitPush h
  | submitNotify =>
      simp only [Frame.step, Option.some.injEq, Prod.mk.injEq] at h
      obtain ⟨rfl, rfl⟩ := h
      exact .submitNotify c
  | schedule b closure => exact Frame.step_schedule h
  | submitReady b task => exact Frame.step_submitReady h
  | wrappedReject b task error =>
      simp only [Frame.step, Option.some.injEq, Prod.mk.injEq] at h
      obtain ⟨rfl, rfl⟩ := h
      exact .wrappedReject
  | finishLane b => exact Frame.step_finishLane h
  | notifyPrepare b =>
      simp only [Frame.step, bind, Option.bind_eq_some_iff, Option.pure_def, Option.some.injEq,
        Prod.mk.injEq] at h
      obtain ⟨rt, hb, rfl, rfl⟩ := h
      exact .notifyPrepare hb
  | acquirePrepare b hook => exact Frame.step_acquirePrepare h
  | acquireParked b hook => exact Frame.step_acquireParked h
  | finishPrepare b result => exact Frame.step_finishPrepare h
  | backendShutdown b =>
      simp only [Frame.step, bind, Option.bind_eq_some_iff, Option.pure_def, Option.some.injEq,
        Prod.mk.injEq] at h
      obtain ⟨rt, hb, rfl, rfl⟩ := h
      exact .drain hb
  | backendReject b drained =>
      cases drained with
      | nil =>
          simp only [Frame.step, Option.some.injEq, Prod.mk.injEq] at h
          obtain ⟨rfl, rfl⟩ := h
          exact .rejectEnd
      | cons task drained =>
          simp only [Frame.step, Option.some.injEq, Prod.mk.injEq] at h
          obtain ⟨rfl, rfl⟩ := h
          exact .rejectDrained
  | backendNotify b =>
      simp only [Frame.step, bind, Option.bind_eq_some_iff, Option.pure_def, Option.some.injEq,
        Prod.mk.injEq] at h
      obtain ⟨rt, hb, rfl, rfl⟩ := h
      exact .close hb
  | shutdownSwap =>
      simp only [Frame.step] at h
      split at h <;> simp only [Option.some.injEq, Prod.mk.injEq] at h <;>
        obtain ⟨rfl, rfl⟩ := h
      · next hs => exact .swapAgain hs
      · next hs => exact .swap (by simpa using hs)
  | shutdownCollect =>
      simp only [Frame.step, Option.some.injEq, Prod.mk.injEq] at h
      obtain ⟨rfl, rfl⟩ := h
      exact .collect
  | shutdownBackends runtimes =>
      cases runtimes with
      | nil =>
          simp only [Frame.step, Option.some.injEq, Prod.mk.injEq] at h
          obtain ⟨rfl, rfl⟩ := h
          exact .shutEnd
      | cons b runtimes =>
          simp only [Frame.step, Option.some.injEq, Prod.mk.injEq] at h
          obtain ⟨rfl, rfl⟩ := h
          exact .shutNext
  | shutdownNotify =>
      simp only [Frame.step, Option.some.injEq, Prod.mk.injEq] at h
      obtain ⟨rfl, rfl⟩ := h
      exact .wakeAll
  | shutdownJoin handles => exact Frame.step_shutdownJoin h
  | workerLock =>
      simp only [Frame.step] at h
      split at h
      · simp at h
      · next hq =>
          simp only [Option.some.injEq, Prod.mk.injEq] at h
          obtain ⟨rfl, rfl⟩ := h
          exact .lock (by simpa using hq)
  | workerPop => exact Frame.step_workerPop h
  | workerLoad => exact Frame.step_workerLoad h
  | workerWait =>
      simp only [Frame.step, Option.some.injEq, Prod.mk.injEq] at h
      obtain ⟨rfl, rfl⟩ := h
      exact .wait
  | workerParked => exact Frame.step_workerParked h

/-- A thread ends, returns into a frame, or its top frame takes a step. -/
theorem stepStack_cases (h : stepStack C sh w e i c st = some (sh', st')) :
    (∃ o, st = [.ret o] ∧ sh' = sh ∧ st' = []) ∨
    (∃ o f rest, st = .ret o :: f :: rest ∧ sh' = sh ∧ st' = f.resume C o ++ rest) ∨
    (∃ f rest fs, st = f :: rest ∧ FrameStep C sh w e i f sh' fs ∧ st' = fs ++ rest) := by
  unfold stepStack at h
  split at h
  · simp at h
  · simp only [Option.some.injEq, Prod.mk.injEq] at h
    exact .inl ⟨_, rfl, h.1.symm, h.2.symm⟩
  · simp only [Option.some.injEq, Prod.mk.injEq] at h
    exact .inr (.inl ⟨_, _, _, rfl, h.1.symm, h.2.symm⟩)
  · obtain ⟨r, hr, hst⟩ := Option.map_eq_some_iff.mp h
    simp only [Prod.mk.injEq] at hst
    obtain ⟨rfl, rfl⟩ := hst
    exact .inr (.inr ⟨_, _, r.2, rfl, Frame.step_cases hr, rfl⟩)

end Anatomy

/-- What one step of the machine is. -/
inductive MachineStep (C : Client σ κ τ ν) (s : MachineState σ κ τ ν) :
    Action κ → MachineState σ κ τ ν → Prop
  | exit {i : ThreadId} {c : ℕ} {o : Outcome τ} (hi : s.threads[i]? = some [.ret o]) :
      MachineStep C s (.step i c) { s with threads := s.threads.set i [] }
  | resume {i : ThreadId} {c : ℕ} {o : Outcome τ} {f : Frame κ τ ν}
      {rest : List (Frame κ τ ν)} (hi : s.threads[i]? = some (.ret o :: f :: rest)) :
      MachineStep C s (.step i c)
        { s with threads := s.threads.set i (f.resume C o ++ rest) }
  | frame {i : ThreadId} {c : ℕ} {f : Frame κ τ ν} {rest fs : List (Frame κ τ ν)}
      {sh : Shared σ τ} (hi : s.threads[i]? = some (f :: rest))
      (h : FrameStep C s.shared s.workers (fun h => (s.threads[h]?.getD []).isEmpty) i f sh fs) :
      MachineStep C s (.step i c)
        { s with shared := sh, threads := s.threads.set i (fs ++ rest) }
  | spawn {code : κ} (h : C.entry code = true) :
      MachineStep C s (.spawn code) { s with threads := s.threads ++ [[.client code]] }
  | register {lanes prepares : ℕ} :
      MachineStep C s (.register lanes prepares) { s with shared := { s.shared with
        backends := s.shared.backends ++ [.register lanes prepares] } }
  | spurious {t : ThreadId} :
      MachineStep C s (.spurious t) { s with shared := { s.shared with
        wake := s.shared.wake.erase t
        backends := s.shared.backends.map (·.unpark t) } }
  | release (hs : s.shared.shutdown = true) (hq : s.shared.queue = [])
      (h : ∀ st ∈ s.threads, ∀ f ∈ st, f.holdsExecutor = false) :
      MachineStep C s .release { s with shared := { s.shared with gone := true } }

/-- Every step of the machine is a `MachineStep`. -/
theorem machineStep_cases {C : Client σ κ τ ν} {s s' : MachineState σ κ τ ν} {a : Action κ}
    (h : machineStep C s a = some s') : MachineStep C s a s' := by
  cases a with
  | step i c =>
      simp only [machineStep, bind, Option.bind_eq_some_iff, Option.pure_def,
        Option.some.injEq] at h
      obtain ⟨st, hst, ⟨sh', st'⟩, hstep, rfl⟩ := h
      obtain ⟨o, rfl, rfl, rfl⟩ | ⟨o, f, rest, rfl, rfl, rfl⟩ | ⟨f, rest, fs, rfl, hf, rfl⟩ :=
        stepStack_cases hstep
      · exact .exit hst
      · exact .resume hst
      · exact .frame hst hf
  | spawn code =>
      simp only [machineStep, Option.ite_none_right_eq_some, Option.some.injEq] at h
      obtain ⟨he, rfl⟩ := h
      exact .spawn he
  | register lanes prepares =>
      simp only [machineStep, Option.some.injEq] at h
      subst h
      exact .register
  | spurious t =>
      simp only [machineStep, Option.some.injEq] at h
      subst h
      exact .spurious
  | release =>
      simp only [machineStep, Option.ite_none_right_eq_some, Option.some.injEq,
        List.isEmpty_iff] at h
      obtain ⟨⟨hs, hq, hf⟩, rfl⟩ := h
      exact .release hs hq hf

/-- **The stack rule.** A property of the client's memory and a stack that the starting
stacks have, that every step of a thread keeps for its own stack and for the others, holds
of every stack in every reachable state. -/
theorem stack_invariant_of {C : Client σ κ τ ν} {mem : σ}
    {P : σ → List (Frame κ τ ν) → Prop}
    (hnil : ∀ m, P m []) (hworker : ∀ m, P m [.workerLock])
    (hspawn : ∀ m code, C.entry code = true → P m [.client code])
    (hresume : ∀ m o f rest, P m (.ret o :: f :: rest) → P m (f.resume C o ++ rest))
    (hstep : ∀ {sh sh' : Shared σ τ} {w : ℕ} {e : ThreadId → Bool} {i : ThreadId}
      {f : Frame κ τ ν} {fs rest : List (Frame κ τ ν)},
      FrameStep C sh w e i f sh' fs → P sh.client (f :: rest) → P sh'.client (fs ++ rest))
    (hothers : ∀ {sh sh' : Shared σ τ} {w : ℕ} {e : ThreadId → Bool} {i : ThreadId}
      {f : Frame κ τ ν} {fs st : List (Frame κ τ ν)},
      FrameStep C sh w e i f sh' fs → P sh.client st → P sh'.client st)
    {s : MachineState σ κ τ ν} (h : Lts.Reach (Started mem) (machineStep C) s) :
    ∀ st ∈ s.threads, P s.shared.client st := by
  refine h.invariant (I := fun s => ∀ st ∈ s.threads, P s.shared.client st) ?_ ?_
  · rintro s ⟨n, rfl⟩ st hst
    obtain rfl := (List.mem_replicate.mp hst).2
    exact hworker _
  · intro s a s' _ ih _ hs
    cases machineStep_cases hs with
    | exit hi =>
        intro st hst
        rcases List.mem_or_eq_of_mem_set hst with hst | rfl
        · exact ih st hst
        · exact hnil _
    | resume hi =>
        intro st hst
        rcases List.mem_or_eq_of_mem_set hst with hst | rfl
        · exact ih st hst
        · exact hresume _ _ _ _ (ih _ (List.mem_of_getElem? hi))
    | frame hi h =>
        intro st hst
        rcases List.mem_or_eq_of_mem_set hst with hst | rfl
        · exact hothers h (ih st hst)
        · exact hstep h (ih _ (List.mem_of_getElem? hi))
    | spawn he =>
        intro st hst
        rcases List.mem_append.mp hst with hst | hst
        · exact ih st hst
        · obtain rfl := List.mem_singleton.mp hst
          exact hspawn _ _ he
    | register => exact ih
    | spurious => exact ih
    | release => exact ih

/-- The stack rule for a property of the stack alone. -/
theorem stack_invariant {C : Client σ κ τ ν} {mem : σ} {P : List (Frame κ τ ν) → Prop}
    (hnil : P []) (hworker : P [.workerLock])
    (hspawn : ∀ code, C.entry code = true → P [.client code])
    (hresume : ∀ o f rest, P (.ret o :: f :: rest) → P (f.resume C o ++ rest))
    (hstep : ∀ {sh sh' : Shared σ τ} {w : ℕ} {e : ThreadId → Bool} {i : ThreadId}
      {f : Frame κ τ ν} {fs rest : List (Frame κ τ ν)},
      FrameStep C sh w e i f sh' fs → P (f :: rest) → P (fs ++ rest))
    {s : MachineState σ κ τ ν} (h : Lts.Reach (Started mem) (machineStep C) s) :
    ∀ st ∈ s.threads, P st :=
  stack_invariant_of (fun _ => hnil) (fun _ => hworker) (fun _ => hspawn) (fun _ => hresume)
    (fun hf => hstep hf) (fun _ hst => hst) h

end Braids
