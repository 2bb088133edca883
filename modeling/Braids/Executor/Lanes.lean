import Mathlib.Tactic.Common
import Braids.Executor.Steps
import Braids.Lib.Census

/-!
# What One Step Does to a Backend

The state of a backend is its `BackendRuntime` together with the obligations that threads
and the executor queue carry on its behalf: lanes and permits not yet given back, tasks
not yet settled, notifications not yet issued. `LaneView` collects those numbers and
`LaneStep` lists everything that can happen to them, one constructor for each critical
section of `executor.rs`. `laneStep_of_machineStep` shows that every step of the machine,
seen from one backend, is a `LaneStep`; invariants of a backend are then proved from the
fourteen constructors instead of from the program points.
-/

namespace Braids

open Census

variable {σ κ τ ν : Type}

/-! ### Weights -/

/-- A queued task that holds a lane of backend `b`. -/
def Runnable.holds (b : BackendId) : Runnable τ → ℕ
  | .plain _ => 0
  | .wrapped b' _ => if b' = b then 1 else 0

/-- A queued task that carries ticket `k` of backend `b`. -/
def Runnable.carries (b : BackendId) (k : ℕ) : Runnable τ → ℕ
  | .plain _ => 0
  | .wrapped b' t => if b' = b ∧ t.ticket = k then 1 else 0

/-- How often ticket `k` occurs among some tasks. -/
def ticketCount (k : ℕ) (tasks : List (Scheduled τ)) : ℕ :=
  (tasks.map Scheduled.ticket).count k

namespace Frame

/-- The frame is a granted and unfinished stage task of backend `b`: about to be wrapped
or submitted, about to be rejected, or running (the `finishLane` frame below the task). -/
def holds (b : BackendId) : Frame κ τ ν → ℕ
  | .submitLoad t | .submitPush t => t.holds b
  | .submitReady b' _ | .wrappedReject b' _ _ | .finishLane b' => if b' = b then 1 else 0
  | _ => 0

/-- The frame owns a live `PreparePermit` of backend `b`. -/
def permits (b : BackendId) : Frame κ τ ν → ℕ
  | .permitHeld b' | .finishPrepare b' _ => if b' = b then 1 else 0
  | _ => 0

/-- How often the frame carries ticket `k` of backend `b` with neither side invoked. -/
def carries (b : BackendId) (k : ℕ) : Frame κ τ ν → ℕ
  | .submitLoad t | .submitPush t => t.carries b k
  | .submitReady b' t | .wrappedReject b' t _ => if b' = b ∧ t.ticket = k then 1 else 0
  | .backendReject b' ts => if b' = b then ticketCount k ts else 0
  | _ => 0

/-- The frame still has a `notify_all` on `prepare_wake` of backend `b` to issue. -/
def notifies (b : BackendId) : Frame κ τ ν → ℕ
  | .notifyPrepare b' | .finishPrepareCheck b' _ | .backendReject b' _ | .backendNotify b' =>
      if b' = b then 1 else 0
  | _ => 0

/-- The frame belongs to a `BraidExecutor::shutdown` that has swapped the flag. -/
def closing : Frame κ τ ν → ℕ
  | .backendShutdown _ | .backendReject _ _ | .backendNotify _ | .shutdownCollect
  | .shutdownBackends _ | .shutdownNotify | .shutdownJoin _ => 1
  | _ => 0

end Frame

/-! ### The view of one backend -/

/-- A backend together with what is outstanding on its behalf. -/
structure LaneView (τ : Type) where
  rt : BackendRuntime τ
  /-- The shutdown flag of the executor. -/
  shutdown : Bool
  /-- Granted and unfinished stage tasks. -/
  held : ℕ
  /-- Live prepare permits. -/
  permits : ℕ
  /-- Occurrences of one ticket outside the waiting queue, with neither side invoked. -/
  carried : ℕ
  /-- `notify_all` calls on `prepare_wake` still to be issued. -/
  notifies : ℕ

/-- Backend `b` with runtime `rt`, as the machine state `s` shows it for ticket `k`. -/
def laneView (b : BackendId) (k : ℕ) (rt : BackendRuntime τ) (s : MachineState σ κ τ ν) :
    LaneView τ where
  rt := rt
  shutdown := s.shared.shutdown
  held := census (Frame.holds b) s.threads + weight (Runnable.holds b) s.shared.queue
  permits := census (Frame.permits b) s.threads
  carried := census (Frame.carries b k) s.threads + weight (Runnable.carries b k) s.shared.queue
  notifies := census (Frame.notifies b) s.threads

/-- One if the task has ticket `k`. -/
def Scheduled.is (k : ℕ) (t : Scheduled τ) : ℕ := if t.ticket = k then 1 else 0

/-- **Everything that can happen to a backend**, for a fixed ticket `k`. -/
inductive LaneStep (k : ℕ) : LaneView τ → LaneView τ → Prop
  /-- Obligations move, or the executor begins to shut down. -/
  | quiet {v : LaneView τ} {f : Bool} {n : ℕ} (hf : v.shutdown = true → f = true)
      (hn : v.notifies ≤ n) : LaneStep k v { v with shutdown := f, notifies := n }
  /-- A prepare caller leaves the wait set unasked. -/
  | unpark {v : LaneView τ} (t : ThreadId) : LaneStep k v { v with rt := v.rt.unpark t }
  /-- `schedule` grants a free lane. -/
  | grant {v : LaneView τ} {closure : τ} {rt : BackendRuntime τ} {task : Scheduled τ}
      (h : v.rt.schedule closure = (rt, some task)) :
      LaneStep k v { v with rt := rt, held := v.held + 1, carried := v.carried + task.is k }
  /-- `schedule` queues the task. -/
  | enqueue {v : LaneView τ} {closure : τ} {rt : BackendRuntime τ}
      (h : v.rt.schedule closure = (rt, none)) : LaneStep k v { v with rt := rt }
  /-- `acquire_prepare` takes a permit. -/
  | permit {v : LaneView τ} (h : v.rt.Admits) :
      LaneStep k v { v with rt := v.rt.permit, permits := v.permits + 1 }
  /-- `acquire_prepare` waits. -/
  | park {v : LaneView τ} (t : ThreadId) (h : ¬ v.rt.Admits) (hf : v.shutdown = false) :
      LaneStep k v { v with rt := v.rt.park t }
  /-- `finish_lane` passes its lane to a waiting task. -/
  | handOver {v : LaneView τ} {rt : BackendRuntime τ} {task : Scheduled τ}
      (h : v.rt.finishLane = (rt, some task)) :
      LaneStep k v { v with rt := rt, carried := v.carried + task.is k }
  /-- `finish_lane` frees its lane. -/
  | free {v : LaneView τ} {rt : BackendRuntime τ} {n : ℕ}
      (h : v.rt.finishLane = (rt, none)) (hh : v.held = n + 1) :
      LaneStep k v { v with rt := rt, held := n, notifies := v.notifies + 1 }
  /-- `finish_prepare` passes its lane to a waiting task. -/
  | permitHandOver {v : LaneView τ} {rt : BackendRuntime τ} {task : Scheduled τ} {p : ℕ}
      (h : v.rt.finishPrepare = (rt, some task)) (hp : v.permits = p + 1) :
      LaneStep k v { v with
        rt := rt, permits := p, held := v.held + 1, carried := v.carried + task.is k,
        notifies := v.notifies + 1 }
  /-- `finish_prepare` frees its lane. -/
  | permitFree {v : LaneView τ} {rt : BackendRuntime τ} {p : ℕ}
      (h : v.rt.finishPrepare = (rt, none)) (hp : v.permits = p + 1) :
      LaneStep k v { v with rt := rt, permits := p, notifies := v.notifies + 1 }
  /-- `BackendRuntime::shutdown` takes the waiting queue. -/
  | drain {v : LaneView τ} (hf : v.shutdown = true) :
      LaneStep k v { v with
        rt := v.rt.drain.1, carried := v.carried + ticketCount k v.rt.waiting,
        notifies := v.notifies + 1 }
  /-- One side of a task is invoked. -/
  | settle {v : LaneView τ} {n : ℕ} (task : Scheduled τ) (side : Side)
      (h : v.carried = n + task.is k) :
      LaneStep k v { v with rt := v.rt.settle task side, carried := n }
  /-- `prepare_wake.notify_all()`. -/
  | notify {v : LaneView τ} {n : ℕ} (h : v.notifies = n + 1) :
      LaneStep k v { v with rt := v.rt.notifyPrepare, notifies := n }
  /-- The `notify_all` of `BackendRuntime::shutdown`. -/
  | close {v : LaneView τ} {n : ℕ} (hf : v.shutdown = true) (h : v.notifies = n + 1) :
      LaneStep k v { v with rt := v.rt.close, notifies := n }

/-! ### Every step of the machine is a lane step -/

/-- The view of a backend when the obligations outside the stepping frames are given. -/
def LaneView.around (b : BackendId) (k : ℕ) (rt : BackendRuntime τ) (sh : Shared σ τ)
    (fs : List (Frame κ τ ν)) (H P K N : ℕ) : LaneView τ where
  rt := rt
  shutdown := sh.shutdown
  held := H + weight (Frame.holds b) fs + weight (Runnable.holds b) sh.queue
  permits := P + weight (Frame.permits b) fs
  carried := K + weight (Frame.carries b k) fs + weight (Runnable.carries b k) sh.queue
  notifies := N + weight (Frame.notifies b) fs

/-- A step after which the backend looks the same, but for notifications that became
due. -/
theorem LaneStep.stay {k : ℕ} {v v' : LaneView τ} (hrt : v'.rt = v.rt)
    (hf : v.shutdown = true → v'.shutdown = true) (hh : v'.held = v.held)
    (hp : v'.permits = v.permits) (hk : v'.carried = v.carried)
    (hn : v.notifies ≤ v'.notifies) : LaneStep k v v' := by
  obtain ⟨rt', f', h', p', k', n'⟩ := v'
  obtain rfl : rt' = v.rt := hrt
  obtain rfl : h' = v.held := hh
  obtain rfl : p' = v.permits := hp
  obtain rfl : k' = v.carried := hk
  exact .quiet hf hn

/-- A lane step whose result is given by its parts. -/
theorem LaneStep.cast {k : ℕ} {v u v' : LaneView τ} (h : LaneStep k v u)
    (hrt : u.rt = v'.rt) (hf : u.shutdown = v'.shutdown) (hh : u.held = v'.held)
    (hp : u.permits = v'.permits) (hk : u.carried = v'.carried)
    (hn : u.notifies = v'.notifies) : LaneStep k v v' := by
  obtain ⟨rt', f', h', p', k', n'⟩ := v'
  obtain ⟨urt, uf, uh, up, uk, un⟩ := u
  obtain rfl : urt = rt' := hrt
  obtain rfl : uf = f' := hf
  obtain rfl : uh = h' := hh
  obtain rfl : up = p' := hp
  obtain rfl : uk = k' := hk
  obtain rfl : un = n' := hn
  exact h

attribute [simp] Frame.holds Frame.permits Frame.carries Frame.notifies Frame.closing
  Runnable.holds Runnable.carries

@[simp] theorem ticketCount_nil (k : ℕ) : ticketCount k ([] : List (Scheduled τ)) = 0 := rfl

/-- The head task of a list counted apart. -/
theorem ticketCount_cons (k : ℕ) (t : Scheduled τ) (ts : List (Scheduled τ)) :
    ticketCount k (t :: ts) = ticketCount k ts + t.is k := by
  simp [ticketCount, Scheduled.is, List.count_cons]

/-- A step writes the runtime of one backend. Seen from this backend it is a lane step; another
one sees only what the frames owe to it. -/
theorem laneStep_setBackend {sh : Shared σ τ} {f : Frame κ τ ν} {fs : List (Frame κ τ ν)}
    {b b' : BackendId} {k H P K N : ℕ} {rt rtb rtn : BackendRuntime τ}
    (hb : sh.backends[b]? = some rt) (hb' : sh.backends[b']? = some rtb)
    (hother : b' ≠ b → weight (Frame.holds b) fs = f.holds b ∧
      weight (Frame.permits b) fs = f.permits b ∧ weight (Frame.carries b k) fs = f.carries b k ∧
      f.notifies b ≤ weight (Frame.notifies b) fs)
    (hself : b' = b → LaneStep k (LaneView.around b k rtb sh [f] H P K N)
      (LaneView.around b k rtn sh fs H P K N)) :
    ∃ rt', (sh.setBackend b' rtn).backends[b]? = some rt' ∧
      LaneStep k (LaneView.around b k rt sh [f] H P K N)
        (LaneView.around b k rt' (sh.setBackend b' rtn) fs H P K N) := by
  rcases Shared.same_or_ne hb' hb with ⟨rfl, rfl⟩ | hbb
  · exact ⟨rtn, sh.setBackend_self _ hb, hself rfl⟩
  · obtain ⟨hholds, hpermits, hcarries, hnotifies⟩ := hother hbb
    refine ⟨rt, (sh.setBackend_ne _ hbb).trans hb, .stay rfl id ?_ ?_ ?_ ?_⟩
    · simp [LaneView.around, hholds]
    · simp [LaneView.around, hpermits]
    · simp [LaneView.around, hcarries]
    · simpa [LaneView.around] using hnotifies

/-- A step of a frame, seen from a registered backend. -/
theorem FrameStep.laneStep {C : Client σ κ τ ν} {sh sh' : Shared σ τ} {w : ℕ}
    {e : ThreadId → Bool} {i : ThreadId} {f : Frame κ τ ν} {fs : List (Frame κ τ ν)}
    {b : BackendId} {k : ℕ} {rt : BackendRuntime τ} (h : FrameStep C sh w e i f sh' fs)
    (hb : sh.backends[b]? = some rt) (hclose : f.closing = 1 → sh.shutdown = true)
    (H P K N : ℕ) :
    ∃ rt', sh'.backends[b]? = some rt' ∧
      LaneStep k (LaneView.around b k rt sh [f] H P K N)
        (LaneView.around b k rt' sh' fs H P K N) := by
  cases h with
  | @client code choice mem act =>
      refine ⟨rt, hb, .stay rfl id ?_ ?_ ?_ ?_⟩ <;> cases act <;>
        simp [LaneView.around, callFrames]
  | rejectOn | rejectDone | submitLoad | submitNotify | prepareRefused | unparked | popEmpty =>
      exact ⟨rt, hb, .stay rfl id rfl rfl rfl le_rfl⟩
  | @submitRefused task =>
      refine ⟨rt, hb, .stay rfl id ?_ ?_ ?_ ?_⟩ <;> cases task <;> simp [LaneView.around, refuse]
  | submitPush =>
      refine ⟨rt, hb, .stay rfl id ?_ ?_ ?_ ?_⟩ <;> simp [LaneView.around] <;> omega
  | @grant b' closure rtb rt' task hb' hs =>
      refine laneStep_setBackend hb hb' (fun hbb => by simp [hbb]) ?_
      rintro rfl
      refine (LaneStep.grant hs).cast rfl rfl ?_ rfl ?_ rfl <;>
        simp [LaneView.around, Scheduled.is] <;> omega
  | @enqueue b' closure rtb rt' hb' hs =>
      refine laneStep_setBackend hb hb' (fun _ => by simp) ?_
      rintro rfl
      exact (LaneStep.enqueue hs).cast rfl rfl rfl rfl rfl rfl
  | @submitGone b' task =>
      refine ⟨rt, hb, .stay rfl id ?_ ?_ ?_ ?_⟩ <;> simp [LaneView.around]
  | submitReady => exact ⟨rt, hb, .stay rfl id rfl rfl rfl le_rfl⟩
  | @wrappedReject b' task error =>
      refine ⟨_, Shared.settled_backends hb task .reject, ?_⟩
      by_cases hbb : b' = b
      · subst hbb
        rw [if_pos rfl]
        refine (LaneStep.settle (n := K + weight (Runnable.carries b' k) sh.queue) task .reject
          ?_).cast rfl ?_ ?_ ?_ ?_ ?_ <;>
          simp [LaneView.around, Scheduled.is]
        omega
      · rw [if_neg hbb]
        refine .stay rfl ?_ ?_ ?_ ?_ ?_ <;> simp [LaneView.around, hbb]
  | @handOver b' rtb rt' task hb' hs =>
      refine laneStep_setBackend hb hb' (fun hbb => by simp [hbb]) ?_
      rintro rfl
      refine (LaneStep.handOver hs).cast rfl rfl ?_ rfl ?_ rfl <;>
        simp [LaneView.around, Scheduled.is]
      omega
  | @free b' rtb rt' hb' hs =>
      refine laneStep_setBackend hb hb' (fun hbb => by simp [hbb]) ?_
      rintro rfl
      refine (LaneStep.free (n := H + weight (Runnable.holds b') sh.queue) hs ?_).cast rfl rfl
        ?_ rfl ?_ ?_ <;> simp [LaneView.around]
      omega
  | @notifyPrepare b' rtb hb' =>
      refine laneStep_setBackend hb hb' (fun hbb => by simp [hbb]) ?_
      rintro rfl
      refine (LaneStep.notify (n := N) ?_).cast rfl rfl ?_ ?_ ?_ ?_ <;> simp [LaneView.around]
  | @permit b' hook rtb hb' hg hs ha =>
      refine laneStep_setBackend hb hb' (fun hbb => by simp [hbb]) ?_
      rintro rfl
      refine (LaneStep.permit ha).cast rfl rfl ?_ ?_ ?_ ?_ <;> simp [LaneView.around]
  | @park b' hook rtb hb' hg hs ha =>
      refine laneStep_setBackend hb hb' (fun _ => by simp) ?_
      rintro rfl
      exact (LaneStep.park i ha hs).cast rfl rfl rfl rfl rfl rfl
  | @permitHandOver b' result rtb rt' task hb' hs =>
      refine laneStep_setBackend hb hb' (fun hbb => by simp [hbb]) ?_
      rintro rfl
      refine (LaneStep.permitHandOver (p := P) hs ?_).cast rfl rfl ?_ ?_ ?_ ?_ <;>
        simp [LaneView.around, Scheduled.is] <;> omega
  | @permitFree b' result rtb rt' hb' hs =>
      refine laneStep_setBackend hb hb' (fun hbb => by simp [hbb]) ?_
      rintro rfl
      refine (LaneStep.permitFree (p := P) hs ?_).cast rfl rfl ?_ ?_ ?_ ?_ <;>
        simp [LaneView.around]
  | @drain b' rtb hb' =>
      refine laneStep_setBackend hb hb' (fun hbb => by simp [hbb]) ?_
      rintro rfl
      refine (LaneStep.drain (hclose rfl)).cast rfl rfl ?_ ?_ ?_ ?_ <;> simp [LaneView.around]
      omega
  | @rejectDrained b' task drained =>
      refine ⟨_, Shared.settled_backends hb task .reject, ?_⟩
      by_cases hbb : b' = b
      · subst hbb
        rw [if_pos rfl]
        refine (LaneStep.settle
          (n := K + ticketCount k drained + weight (Runnable.carries b' k) sh.queue) task .reject
          ?_).cast rfl ?_ ?_ ?_ ?_ ?_ <;>
          simp [LaneView.around, ticketCount_cons]
        omega
      · rw [if_neg hbb]
        refine .stay rfl ?_ ?_ ?_ ?_ ?_ <;> simp [LaneView.around, hbb]
  | rejectEnd =>
      refine ⟨rt, hb, .stay rfl id ?_ ?_ ?_ ?_⟩ <;> simp [LaneView.around]
  | @close b' rtb hb' =>
      refine laneStep_setBackend hb hb' (fun hbb => by simp [hbb]) ?_
      rintro rfl
      refine (LaneStep.close (n := N) (hclose rfl) ?_).cast rfl rfl ?_ ?_ ?_ ?_ <;>
        simp [LaneView.around]
  | swapAgain | collect | shutEnd | shutNext | wakeAll | join | joinEnd | lock | exit | load
  | wait | relock =>
      exact ⟨rt, hb, .stay rfl id rfl rfl rfl le_rfl⟩
  | swap => exact ⟨rt, hb, .stay rfl (fun _ => rfl) rfl rfl rfl le_rfl⟩
  | @popPlain task queue hq =>
      refine ⟨rt, hb, .stay rfl id ?_ ?_ ?_ ?_⟩ <;> simp [LaneView.around, hq]
  | @popWrapped b' task queue hq =>
      have hb' : ({ sh with queue := queue, queueLocked := false } : Shared σ τ).backends[b]? =
        some rt := hb
      refine ⟨_, Shared.settled_backends hb' task .run, ?_⟩
      by_cases hbb : b' = b
      · subst hbb
        rw [if_pos rfl]
        refine (LaneStep.settle (n := K + weight (Runnable.carries b' k) queue) task .run
          ?_).cast rfl ?_ ?_ ?_ ?_ ?_ <;>
          simp [LaneView.around, hq, Scheduled.is] <;> omega
      · rw [if_neg hbb]
        refine .stay rfl ?_ ?_ ?_ ?_ ?_ <;> simp [LaneView.around, hq, hbb]

/-- A returned outcome, seen from a backend. -/
theorem LaneStep.of_resume (C : Client σ κ τ ν) (b : BackendId) (k : ℕ)
    (rt : BackendRuntime τ) (sh : Shared σ τ) (o : Outcome τ) (f : Frame κ τ ν)
    (H P K N : ℕ) :
    LaneStep k (LaneView.around b k rt sh [.ret o, f] H P K N)
      (LaneView.around b k rt sh (f.resume C o) H P K N) := by
  have hw : weight (Frame.holds b) (f.resume C o) = f.holds b ∧
      weight (Frame.permits b) (f.resume C o) = f.permits b ∧
      weight (Frame.carries b k) (f.resume C o) = f.carries b k ∧
      f.notifies b ≤ weight (Frame.notifies b) (f.resume C o) := by
    unfold Frame.resume
    split <;> simp
  refine .stay rfl id ?_ ?_ ?_ ?_ <;>
    simp only [LaneView.around, weight_cons, weight_nil, hw]
  · simp
  · simp
  · simp
  · simpa using hw.2.2.2

/-- The view of a backend around the top `fs` of one stack. -/
theorem laneView_eq_around {s : MachineState σ κ τ ν} {i : ThreadId}
    (fs rest : List (Frame κ τ ν)) (hi : s.threads[i]? = some (fs ++ rest)) (b : BackendId)
    (k : ℕ) (rt : BackendRuntime τ) :
    laneView b k rt s = LaneView.around b k rt s.shared fs
      (census (Frame.holds b) (s.threads.set i rest))
      (census (Frame.permits b) (s.threads.set i rest))
      (census (Frame.carries b k) (s.threads.set i rest))
      (census (Frame.notifies b) (s.threads.set i rest)) := by
  simp [laneView, LaneView.around, census_split _ fs rest hi]

/-- The view of a backend after the top of one stack was replaced by `fs`. -/
theorem laneView_replace {s : MachineState σ κ τ ν} {i : ThreadId} {st : List (Frame κ τ ν)}
    (hi : s.threads[i]? = some st) (sh : Shared σ τ) (fs rest : List (Frame κ τ ν))
    (b : BackendId) (k : ℕ) (rt : BackendRuntime τ) :
    laneView b k rt { s with shared := sh, threads := s.threads.set i (fs ++ rest) } =
      LaneView.around b k rt sh fs
        (census (Frame.holds b) (s.threads.set i rest))
        (census (Frame.permits b) (s.threads.set i rest))
        (census (Frame.carries b k) (s.threads.set i rest))
        (census (Frame.notifies b) (s.threads.set i rest)) := by
  simp [laneView, LaneView.around, census_replace _ hi]

/-- Frames of a `BraidExecutor::shutdown` in progress exist only once the flag is set. -/
def ClosingFlagged (s : MachineState σ κ τ ν) : Prop :=
  s.shared.shutdown = false → census Frame.closing s.threads = 0

/-- **Every step of the machine is a lane step** of every backend registered before it. -/
theorem laneStep_of_machineStep {C : Client σ κ τ ν} {s s' : MachineState σ κ τ ν}
    {a : Action κ} (hs : machineStep C s a = some s') (hclose : ClosingFlagged s)
    {b : BackendId} {rt : BackendRuntime τ} (hb : s.shared.backends[b]? = some rt) (k : ℕ) :
    ∃ rt', s'.shared.backends[b]? = some rt' ∧
      LaneStep k (laneView b k rt s) (laneView b k rt' s') := by
  cases machineStep_cases hs with
  | @exit i c o hi =>
      refine ⟨rt, hb, ?_⟩
      rw [laneView_eq_around [.ret o] [] hi]
      have h := laneView_replace hi s.shared [] [] b k rt
      rw [List.nil_append] at h
      rw [h]
      exact .stay rfl id rfl rfl rfl le_rfl
  | @resume i c o f rest hi =>
      refine ⟨rt, hb, ?_⟩
      rw [laneView_eq_around [.ret o, f] rest hi, laneView_replace hi s.shared]
      exact .of_resume C b k rt s.shared o f _ _ _ _
  | @frame i c f rest fs sh hi h =>
      have hflag : f.closing = 1 → s.shared.shutdown = true := by
        intro hf
        by_contra hs
        have hz := hclose (by simpa using hs)
        rw [census_split _ [f] rest hi, weight_cons, hf] at hz
        omega
      obtain ⟨rt', hb', hlane⟩ := h.laneStep (k := k) hb hflag
        (census (Frame.holds b) (s.threads.set i rest))
        (census (Frame.permits b) (s.threads.set i rest))
        (census (Frame.carries b k) (s.threads.set i rest))
        (census (Frame.notifies b) (s.threads.set i rest))
      refine ⟨rt', hb', ?_⟩
      rw [laneView_eq_around [f] rest hi, laneView_replace hi sh]
      exact hlane
  | spawn =>
      refine ⟨rt, hb, .stay rfl id ?_ ?_ ?_ ?_⟩ <;> simp [laneView]
  | register =>
      refine ⟨rt, ?_, .stay rfl id rfl rfl rfl le_rfl⟩
      have hlt : b < s.shared.backends.length := (List.getElem?_eq_some_iff.mp hb).1
      simp [List.getElem?_append_left hlt, hb]
  | @spurious t => exact ⟨rt.unpark t, by simp [hb], .unpark t⟩
  | release => exact ⟨rt, hb, .stay rfl id rfl rfl rfl le_rfl⟩

/-! ### Flag before closing -/

/-- A step of a frame keeps a set shutdown flag set. -/
theorem FrameStep.shutdown_mono {C : Client σ κ τ ν} {sh sh' : Shared σ τ} {w : ℕ}
    {e : ThreadId → Bool} {i : ThreadId} {f : Frame κ τ ν} {fs : List (Frame κ τ ν)}
    (h : FrameStep C sh w e i f sh' fs) (hs : sh.shutdown = true) : sh'.shutdown = true := by
  cases h <;> simp_all

/-- While the flag is unset, no frame becomes part of a shutdown in progress. -/
theorem FrameStep.closing {C : Client σ κ τ ν} {sh sh' : Shared σ τ} {w : ℕ}
    {e : ThreadId → Bool} {i : ThreadId} {f : Frame κ τ ν} {fs : List (Frame κ τ ν)}
    (h : FrameStep C sh w e i f sh' fs) (hs : sh'.shutdown = false) (hf : f.closing = 0) :
    weight Frame.closing fs = 0 := by
  cases h with
  | @client code choice mem act => cases act <;> simp [callFrames]
  | @submitRefused task => cases task <;> simp [refuse]
  | swap => simp at hs
  | _ => simp_all

/-- Returning an outcome keeps a frame of a shutdown in progress one. -/
@[simp] theorem Frame.closing_resume (C : Client σ κ τ ν) (f : Frame κ τ ν) (o : Outcome τ) :
    weight Frame.closing (f.resume C o) = f.closing := by
  unfold Frame.resume
  split <;> simp

/-- Some thread is inside a shutdown only after the flag was set. -/
theorem closingFlagged {C : Client σ κ τ ν} {mem : σ} {s : MachineState σ κ τ ν}
    (h : Lts.Reach (Started mem) (machineStep C) s) : ClosingFlagged s := by
  refine h.invariant ?_ ?_
  · rintro s ⟨n, rfl⟩ -
    simp [MachineState.start, census]
  · intro s a s' _ ih _ hs hflag
    cases machineStep_cases hs with
    | @exit i c o hi =>
        have h := ih hflag
        rw [census_split _ [.ret o] [] hi] at h
        simpa using h
    | @resume i c o f rest hi =>
        have h := ih hflag
        rw [census_split _ [.ret o, f] rest hi] at h
        simpa [census_replace _ hi] using h
    | @frame i c f rest fs sh hi h =>
        have hs : s.shared.shutdown = false := by
          by_contra hs
          simp [h.shutdown_mono (by simpa using hs)] at hflag
        have hz := ih hs
        rw [census_split _ [f] rest hi] at hz
        simp only [weight_cons, weight_nil, Nat.add_eq_zero_iff, and_true] at hz
        rw [census_replace _ hi, hz.1, h.closing hflag hz.2]
    | spawn => simpa using ih hflag
    | register => exact ih hflag
    | spurious => exact ih hflag
    | release hset => exact absurd (hset.symm.trans hflag) (by simp)

/-! ### Before a backend is registered -/

/-- How often a frame names backend `b`, apart from callers that have not read it yet. -/
@[simp] def Frame.mentions (b : BackendId) : Frame κ τ ν → ℕ
  | .submitLoad t | .submitPush t => t.holds b
  | .submitReady b' _ | .wrappedReject b' _ _ | .finishLane b' | .finishLaneCheck b'
  | .notifyPrepare b' | .permitHeld b' | .finishPrepare b' _ | .finishPrepareCheck b' _
  | .backendShutdown b' | .backendReject b' _ | .backendNotify b' => if b' = b then 1 else 0
  | .shutdownBackends bs => bs.count b
  | _ => 0

/-- Nothing in the state is about backend `b`. -/
def Unmentioned (b : BackendId) (s : MachineState σ κ τ ν) : Prop :=
  census (Frame.mentions b) s.threads + weight (Runnable.holds b) s.shared.queue = 0

/-- A frame that does not mention a backend owes it nothing. -/
theorem Frame.owes_nothing {f : Frame κ τ ν} {b : BackendId} (h : f.mentions b = 0) (k : ℕ) :
    f.holds b = 0 ∧ f.permits b = 0 ∧ f.carries b k = 0 ∧ f.notifies b = 0 := by
  cases f with
  | submitLoad t | submitPush t => cases t <;> simp_all
  | _ => simp_all

/-- A queued task that does not hold a lane of a backend carries none of its tickets. -/
theorem Runnable.carries_eq_zero {t : Runnable τ} {b : BackendId} (h : t.holds b = 0)
    (k : ℕ) : t.carries b k = 0 := by
  cases t <;> simp_all

/-- The view of a backend that nothing is about. -/
theorem Unmentioned.laneView {s : MachineState σ κ τ ν} {b : BackendId}
    (h : Unmentioned b s) (k : ℕ) (rt : BackendRuntime τ) :
    laneView b k rt s =
      { rt := rt, shutdown := s.shared.shutdown, held := 0, permits := 0, carried := 0,
        notifies := 0 } := by
  obtain ⟨hf, hq⟩ := Nat.add_eq_zero_iff.mp h
  have hf := census_eq_zero_iff.mp hf
  have hq : ∀ t ∈ s.shared.queue, t.holds b = 0 := by
    simpa [weight, List.sum_eq_zero_iff] using hq
  have hholds : census (Frame.holds b) s.threads = 0 :=
    census_eq_zero_iff.mpr fun st hst f hmem => (Frame.owes_nothing (hf st hst f hmem) k).1
  have hpermits : census (Frame.permits b) s.threads = 0 :=
    census_eq_zero_iff.mpr fun st hst f hmem => (Frame.owes_nothing (hf st hst f hmem) k).2.1
  have hcarries : census (Frame.carries b k) s.threads = 0 :=
    census_eq_zero_iff.mpr fun st hst f hmem =>
      (Frame.owes_nothing (hf st hst f hmem) k).2.2.1
  have hnotifies : census (Frame.notifies b) s.threads = 0 :=
    census_eq_zero_iff.mpr fun st hst f hmem =>
      (Frame.owes_nothing (hf st hst f hmem) k).2.2.2
  have hqh : weight (Runnable.holds b) s.shared.queue = 0 := by
    simpa [weight, List.sum_eq_zero_iff] using hq
  have hqc : weight (Runnable.carries b k) s.shared.queue = 0 := by
    simpa [weight, List.sum_eq_zero_iff] using
      fun t ht => Runnable.carries_eq_zero (hq t ht) k
  simp [Braids.laneView, hholds, hpermits, hcarries, hnotifies, hqh, hqc]

/-- A frame does not begin to mention a backend that is not registered. -/
theorem FrameStep.mentions {C : Client σ κ τ ν} {sh sh' : Shared σ τ} {w : ℕ}
    {e : ThreadId → Bool} {i : ThreadId} {f : Frame κ τ ν} {fs : List (Frame κ τ ν)}
    {b : BackendId} (h : FrameStep C sh w e i f sh' fs) (hb : sh.backends[b]? = none) :
    weight (Frame.mentions b) fs + weight (Runnable.holds b) sh'.queue ≤
      f.mentions b + weight (Runnable.holds b) sh.queue := by
  have hne : ∀ {b' : BackendId} {rt}, sh.backends[b']? = some rt → b' ≠ b := by
    rintro b' rt hb' rfl
    simp [hb] at hb'
  cases h with
  | @client code choice mem act => cases act <;> simp [callFrames]
  | @submitRefused task => cases task <;> simp [refuse]
  | submitPush => simp [Nat.add_comm]
  | grant hb' | enqueue hb' | handOver hb' | free hb' | notifyPrepare hb' | permit hb'
  | park hb' | permitHandOver hb' | permitFree hb' | drain hb' | close hb' =>
      simp [hne hb']
  | collect =>
      have hlen : sh.backends.length ≤ b := List.getElem?_eq_none_iff.mp hb
      have hcount : (List.range sh.backends.length).count b = 0 :=
        List.count_eq_zero.mpr (by simp [hlen])
      simp [hcount]
  | @shutNext b' bs => simp [List.count_cons, Nat.add_comm]
  | @popPlain task queue hq => simp [hq]
  | @popWrapped b' task queue hq => simp [hq]
  | _ => simp

/-- Returning an outcome into a frame that does not mention a backend does not begin to
mention it. -/
theorem Frame.mentions_resume (C : Client σ κ τ ν) (b : BackendId) (f : Frame κ τ ν)
    (o : Outcome τ) : weight (Frame.mentions b) (f.resume C o) ≤ 2 * f.mentions b := by
  unfold Frame.resume
  split <;> simp only [weight_cons, weight_nil, Frame.mentions] <;> grind

/-- The runtimes that exist are the ones registered, whatever a frame does. -/
theorem FrameStep.length_backends {C : Client σ κ τ ν} {sh sh' : Shared σ τ} {w : ℕ}
    {e : ThreadId → Bool} {i : ThreadId} {f : Frame κ τ ν} {fs : List (Frame κ τ ν)}
    (h : FrameStep C sh w e i f sh' fs) : sh'.backends.length = sh.backends.length := by
  cases h with
  | wrappedReject | rejectDrained | popWrapped =>
      rw [Shared.settled]
      split <;> simp [Shared.setBackend]
  | _ => simp [Shared.setBackend]

/-- Nothing is about a backend before it is registered. -/
theorem unmentioned {C : Client σ κ τ ν} {mem : σ} {s : MachineState σ κ τ ν}
    (h : Lts.Reach (Started mem) (machineStep C) s) {b : BackendId}
    (hb : s.shared.backends[b]? = none) : Unmentioned b s := by
  revert hb
  refine h.invariant (I := fun s => s.shared.backends[b]? = none → Unmentioned b s) ?_ ?_
  · rintro s ⟨n, rfl⟩ -
    simp [Unmentioned, MachineState.start, census]
  · intro s a s' _ ih _ hs hb
    cases machineStep_cases hs with
    | @exit i c o hi =>
        have h := ih hb
        rw [Unmentioned, census_split _ [.ret o] [] hi] at h
        simpa [Unmentioned] using h
    | @resume i c o f rest hi =>
        have h := ih hb
        rw [Unmentioned, census_split _ [.ret o, f] rest hi] at h
        rw [Unmentioned, census_replace _ hi]
        have hf := Frame.mentions_resume C b f o
        simp only [weight_cons, weight_nil] at h ⊢
        omega
    | @frame i c f rest fs sh hi h =>
        have hb : s.shared.backends[b]? = none := by
          rw [List.getElem?_eq_none_iff] at hb ⊢
          exact h.length_backends ▸ hb
        have hm := h.mentions hb
        have ih := ih hb
        rw [Unmentioned, census_split _ [f] rest hi] at ih
        rw [Unmentioned, census_replace _ hi]
        simp only [weight_cons, weight_nil] at ih
        simp only
        omega
    | spawn => simpa [Unmentioned] using ih hb
    | register =>
        have hb : s.shared.backends[b]? = none := by
          simp only [List.getElem?_eq_none_iff, List.length_append, List.length_singleton] at hb
          exact List.getElem?_eq_none_iff.mpr (by omega)
        exact ih hb
    | spurious => exact ih (by simpa using hb)
    | release => exact ih hb

/-- **The lane rule.** What holds of a freshly registered backend and is kept by every
lane step holds of every backend in every reachable state. -/
theorem lane_invariant {C : Client σ κ τ ν} {mem : σ} {k : ℕ} {I : LaneView τ → Prop}
    (h0 : ∀ lanes prepares f, I ⟨.register lanes prepares, f, 0, 0, 0, 0⟩)
    (hstep : ∀ v v', I v → LaneStep k v v' → I v') {s : MachineState σ κ τ ν}
    (h : Lts.Reach (Started mem) (machineStep C) s) {b : BackendId} {rt : BackendRuntime τ}
    (hb : s.shared.backends[b]? = some rt) : I (laneView b k rt s) := by
  suffices hall : ∀ rt, s.shared.backends[b]? = some rt → I (laneView b k rt s) from hall rt hb
  refine h.invariant
    (I := fun s => ∀ rt, s.shared.backends[b]? = some rt → I (laneView b k rt s)) ?_ ?_
  · rintro s ⟨n, rfl⟩ rt hb
    simp [MachineState.start] at hb
  · intro s a s' hr ih _ hs rt' hb'
    cases hb : s.shared.backends[b]? with
    | some rt =>
        obtain ⟨rt'', hb'', hlane⟩ := laneStep_of_machineStep hs (closingFlagged hr) hb k
        obtain rfl : rt'' = rt' := Option.some.inj (hb''.symm.trans hb')
        exact hstep _ _ (ih rt hb) hlane
    | none =>
        have hlen : s.shared.backends.length ≤ b := List.getElem?_eq_none_iff.mp hb
        have hlt : b < s'.shared.backends.length := (List.getElem?_eq_some_iff.mp hb').1
        cases machineStep_cases hs with
        | exit | resume | spawn | release => exact absurd hlt (by simpa using hlen)
        | frame hi h => exact absurd hlt (by simpa [h.length_backends] using hlen)
        | spurious => exact absurd hlt (by simpa using hlen)
        | @register lanes prepares =>
            have hle : b ≤ s.shared.backends.length := Nat.lt_succ_iff.mp (by simpa using hlt)
            obtain rfl : b = s.shared.backends.length := le_antisymm hle hlen
            obtain rfl : BackendRuntime.register lanes prepares = rt' := by simpa using hb'
            have hview := (unmentioned hr hb).laneView k (.register lanes prepares)
            exact hview ▸ h0 lanes prepares s.shared.shutdown

end Braids
