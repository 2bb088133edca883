import Braids.Executor.Accounting
import Braids.Executor.Workers

/-!
# Wakeups of Workers

A worker that finds the queue empty loads the shutdown flag and then parks, all with the
queue locked; a submitter pushes with the queue locked and then notifies. So a queued task
is always matched by a notification that is due or by a worker on its way to the queue.

`shutdown` sets the flag and notifies without the queue lock, so its `notify_all` can come
between the load and the park of a worker, which then sleeps on. `LateWait` is that step,
and it is the only way to lose the wakeup.

## Main results

* `WorkStep.queueServed`: every step keeps the queue matched by wakeups.
* `WorkStep.flagAnnounced`: every step but a late wait keeps a set flag announced.
* `workers_watched`: without late waits no parked worker is forgotten.
* `wakeup_lost`: a run with a late wait in which `shutdown` joins a worker for ever.
* `lateWait_loses`: every late wait loses a wakeup.
-/

namespace Braids

open Census

variable {σ κ τ ν : Type}

namespace Frame

/-- The frame has a `notify_one` to issue for a task it pushed. -/
def notifiesOne : Frame κ τ ν → ℕ
  | .submitNotify => 1
  | _ => 0

/-- The frame is of a shutdown that has swapped the flag and has its `notify_all` still to
issue. -/
def notifiesAll : Frame κ τ ν → ℕ
  | .shutdownCollect | .shutdownBackends _ | .shutdownNotify => 1
  | _ => 0

/-- The frame joins workers. -/
def joining : Frame κ τ ν → ℕ
  | .shutdownJoin _ => 1
  | _ => 0

/-- The frame holds the lock of the queue. -/
def locksQueue : Frame κ τ ν → ℕ
  | .workerPop | .workerLoad | .workerWait => 1
  | _ => 0

/-- The frame holds the lock of the queue and is about to pop. -/
def popping : Frame κ τ ν → ℕ
  | .workerPop => 1
  | _ => 0

end Frame

attribute [simp] Frame.notifiesOne Frame.notifiesAll Frame.joining Frame.locksQueue
  Frame.popping

/-! ### The view of the queue -/

/-- The queue and the flag together with where the threads are. -/
structure WorkView where
  /-- The length of the queue. -/
  queue : ℕ
  locked : Bool
  shutdown : Bool
  wake : List ThreadId
  notifiesOne : ℕ
  notifiesAll : ℕ
  joining : ℕ
  locks : ℕ
  popping : ℕ
  parked : ℕ

/-- The view of some shared memory, where `count` counts the frames of all threads. -/
def workView (sh : Shared σ τ) (count : (Frame κ τ ν → ℕ) → ℕ) : WorkView where
  queue := sh.queue.length
  locked := sh.queueLocked
  shutdown := sh.shutdown
  wake := sh.wake
  notifiesOne := count Frame.notifiesOne
  notifiesAll := count Frame.notifiesAll
  joining := count Frame.joining
  locks := count Frame.locksQueue
  popping := count Frame.popping
  parked := count Frame.parked

/-- The view of a state. -/
def MachineState.workView (s : MachineState σ κ τ ν) : WorkView :=
  Braids.workView s.shared fun w => census w s.threads

/-- **Everything that can happen to the queue and its workers.** `late` tells whether the
step is a wait for which no `notify_all` will come. -/
inductive WorkStep (late : Prop) : WorkView → WorkView → Prop
  | stay {v : WorkView} : WorkStep late v v
  /-- `submit_boxed` pushes a task. -/
  | push {v : WorkView} (h : v.locked = false) :
      WorkStep late v { v with queue := v.queue + 1, notifiesOne := v.notifiesOne + 1 }
  /-- `submit_boxed` notifies. -/
  | notify {v : WorkView} {n : ℕ} (h : v.notifiesOne = n + 1) (choice : ℕ) :
      WorkStep late v { v with notifiesOne := n, wake := notifyOne v.wake choice }
  /-- `shutdown` swaps the flag. -/
  | swap {v : WorkView} (h : v.shutdown = false) :
      WorkStep late v { v with shutdown := true, notifiesAll := v.notifiesAll + 1 }
  /-- `shutdown` notifies. -/
  | wakeAll {v : WorkView} {n : ℕ} (h : v.notifiesAll = n + 1) :
      WorkStep late v { v with wake := [], notifiesAll := n, joining := v.joining + 1 }
  /-- `shutdown` has joined the workers. -/
  | joined {v : WorkView} {n : ℕ} (h : v.joining = n + 1) :
      WorkStep late v { v with joining := n }
  /-- A worker locks the queue. -/
  | lock {v : WorkView} (h : v.locked = false) :
      WorkStep late v { v with
        locked := true, locks := v.locks + 1, popping := v.popping + 1 }
  /-- A worker pops a task. -/
  | pop {v : WorkView} {q l p : ℕ} (hq : v.queue = q + 1) (hl : v.locks = l + 1)
      (hp : v.popping = p + 1) :
      WorkStep late v { v with queue := q, locked := false, locks := l, popping := p }
  /-- A worker finds the queue empty. -/
  | popEmpty {v : WorkView} {p : ℕ} (hq : v.queue = 0) (hp : v.popping = p + 1) :
      WorkStep late v { v with popping := p }
  /-- A worker leaves its loop. -/
  | exit {v : WorkView} {l : ℕ} (hl : v.locks = l + 1) :
      WorkStep late v { v with locked := false, locks := l }
  /-- A worker enters the wait set. -/
  | wait {v : WorkView} {l : ℕ} (t : ThreadId) (hl : v.locks = l + 1) (hp : v.popping ≤ l)
      (hlate : v.shutdown = true → v.notifiesAll = 0 → late) :
      WorkStep late v { v with
        locked := false, locks := l, parked := v.parked + 1, wake := v.wake ++ [t] }
  /-- A worker that was notified locks the queue again. -/
  | relock {v : WorkView} {p : ℕ} (h : v.locked = false) (hp : v.parked = p + 1) :
      WorkStep late v { v with
        locked := true, locks := v.locks + 1, popping := v.popping + 1, parked := p }
  /-- A worker leaves the wait set unasked. -/
  | unpark {v : WorkView} (t : ThreadId) : WorkStep late v { v with wake := v.wake.erase t }

/-- A step whose result is given in another form. -/
theorem WorkStep.to {late : Prop} {v u v' : WorkView} (h : WorkStep late v u) (he : u = v') :
    WorkStep late v v' := he ▸ h

/-- The step at which a worker enters the wait set although the flag is set and no
`notify_all` of `shutdown` is still to come. -/
def LateWait (s : MachineState σ κ τ ν) : Action κ → Prop
  | .step i _ => ((s.threads[i]?.getD []).head?.any fun f => f matches .workerWait) = true ∧
      s.shared.shutdown = true ∧ census Frame.notifiesAll s.threads = 0
  | _ => False

instance (s : MachineState σ κ τ ν) (a : Action κ) : Decidable (LateWait s a) := by
  cases a <;> simp only [LateWait] <;> infer_instance

/-- A step of a frame, seen from the queue: `base` counts the frames that stay. -/
theorem FrameStep.workStep {C : Client σ κ τ ν} {sh sh' : Shared σ τ} {w : ℕ}
    {e : ThreadId → Bool} {i : ThreadId} {f : Frame κ τ ν} {fs : List (Frame κ τ ν)}
    (h : FrameStep C sh w e i f sh' fs) (base : (Frame κ τ ν → ℕ) → ℕ)
    (hbase : base Frame.popping ≤ base Frame.locksQueue) {late : Prop}
    (hlate : f = .workerWait → sh.shutdown = true → base Frame.notifiesAll = 0 → late) :
    WorkStep late (workView sh fun g => base g + g f)
      (workView sh' fun g => base g + weight g fs) := by
  cases h with
  | @client code choice mem act =>
      refine WorkStep.stay.to ?_
      cases act <;> simp [workView, callFrames]
  | @submitRefused task =>
      refine WorkStep.stay.to ?_
      cases task <;> simp [workView, refuse]
  | submitPush h => exact (WorkStep.push h).to (by simp [workView])
  | submitNotify c =>
      exact (WorkStep.notify (n := base Frame.notifiesOne) rfl c).to (by simp [workView])
  | swap h => exact (WorkStep.swap h).to (by simp [workView])
  | wakeAll =>
      exact (WorkStep.wakeAll (n := base Frame.notifiesAll) rfl).to (by simp [workView])
  | joinEnd => exact (WorkStep.joined (n := base Frame.joining) rfl).to (by simp [workView])
  | lock h => exact (WorkStep.lock h).to (by simp [workView])
  | @popPlain task queue h =>
      have hq : sh.queue.length = queue.length + 1 := congrArg List.length h
      exact (WorkStep.pop (l := base Frame.locksQueue) (p := base Frame.popping) hq rfl
        rfl).to (by simp [workView])
  | @popWrapped b task queue h =>
      have hq : sh.queue.length = queue.length + 1 := congrArg List.length h
      exact (WorkStep.pop (l := base Frame.locksQueue) (p := base Frame.popping) hq rfl
        rfl).to (by simp [workView])
  | popEmpty h =>
      refine (WorkStep.popEmpty (p := base Frame.popping) ?_ rfl).to ?_
      · exact congrArg List.length h
      · simp [workView]
  | exit h => exact (WorkStep.exit (l := base Frame.locksQueue) rfl).to (by simp [workView])
  | wait =>
      exact (WorkStep.wait (l := base Frame.locksQueue) i rfl hbase (hlate rfl)).to
        (by simp [workView])
  | relock hw h =>
      exact (WorkStep.relock (p := base Frame.parked) h rfl).to (by simp [workView])
  | _ => exact WorkStep.stay.to (by simp [workView])

/-- **Every step of the machine is a step of the view.** -/
theorem workStep_of_machineStep {C : Client σ κ τ ν} {s s' : MachineState σ κ τ ν}
    {a : Action κ} (hs : machineStep C s a = some s') :
    WorkStep (LateWait s a) s.workView s'.workView := by
  cases machineStep_cases hs with
  | @exit i c o hi =>
      have hold := fun w : Frame κ τ ν → ℕ => census_split w [.ret o] [] hi
      refine WorkStep.stay.to ?_
      simp [MachineState.workView, workView, hold]
  | @resume i c o f rest hi =>
      have hold := fun w : Frame κ τ ν → ℕ => census_split w [.ret o, f] rest hi
      have hnew := fun w : Frame κ τ ν → ℕ => census_replace w hi (f.resume C o) rest
      refine WorkStep.stay.to ?_
      simp only [MachineState.workView, workView, hold, hnew, WorkView.mk.injEq, true_and,
        Nat.add_left_cancel_iff]
      unfold Frame.resume
      split <;> simp
  | @frame i c f rest fs sh hi h =>
      have hold := fun w : Frame κ τ ν → ℕ => census_split w [f] rest hi
      have hnew := fun w : Frame κ τ ν → ℕ => census_replace w hi fs rest
      simp only [weight_cons, weight_nil, Nat.add_zero] at hold
      simp only [MachineState.workView, hold, hnew]
      refine h.workStep (fun w => census w (s.threads.set i rest)) ?_ ?_
      · exact census_mono (fun f => by cases f <;> simp) _
      · rintro rfl hflag hz
        exact ⟨by simp [hi], hflag, by simpa [hold] using hz⟩
  | spawn => exact WorkStep.stay.to (by simp [MachineState.workView, workView])
  | register => exact .stay
  | spurious => exact .unpark _
  | release => exact .stay

/-! ### No task without a wakeup -/

/-- The lock of the queue is taken by exactly the worker that holds it, a worker past its
pop has seen the queue empty, and while somebody is parked each queued task is matched by
a due `notify_one`, a notified worker, or a worker about to pop. -/
structure QueueServed (v : WorkView) : Prop where
  lock : v.locks = if v.locked then 1 else 0
  empty : v.popping < v.locks → v.queue = 0
  served : v.wake ≠ [] → v.queue + v.wake.length ≤ v.notifiesOne + v.parked + v.popping

/-- `notify_one` takes a thread off a nonempty wait set. -/
theorem length_notifyOne {wake : List ThreadId} (h : wake ≠ []) (choice : ℕ) :
    (notifyOne wake choice).length + 1 = wake.length := by
  have hpos : 0 < wake.length := List.length_pos_iff.mpr h
  rw [notifyOne, List.length_eraseIdx_of_lt (Nat.mod_lt _ hpos)]
  omega

/-- Without waiters there is nobody to notify. -/
theorem notifyOne_nil (choice : ℕ) : notifyOne [] choice = [] := rfl

/-- **Every step keeps the queue served.** -/
theorem QueueServed.step {late : Prop} {v v' : WorkView} (hv : QueueServed v)
    (hle : v.wake.length ≤ v.parked) (hle' : v'.wake.length ≤ v'.parked)
    (h : WorkStep late v v') : QueueServed v' := by
  obtain ⟨hlock, hempty, hserved⟩ := hv
  cases h with
  | stay | swap | joined => exact ⟨hlock, hempty, hserved⟩
  | push h =>
      rw [if_neg (by simp [h])] at hlock
      refine ⟨by simp [hlock, h], fun hlt => ?_, fun hw => ?_⟩
      · simp only at hlt
        omega
      · have hs := hserved hw
        simp only
        omega
  | notify h c =>
      refine ⟨hlock, hempty, fun hw => ?_⟩
      have hne : v.wake ≠ [] := by
        intro hnil
        simp [hnil, notifyOne_nil] at hw
      have hs := hserved hne
      have hl := length_notifyOne hne c
      simp only
      omega
  | wakeAll => exact ⟨hlock, hempty, fun hw => absurd rfl hw⟩
  | lock h =>
      rw [if_neg (by simp [h])] at hlock
      refine ⟨by simp [hlock], fun hlt => ?_, fun hw => ?_⟩
      · simp only at hlt
        omega
      · have hs := hserved hw
        simp only
        omega
  | pop hq hl hp =>
      have hone : v.locks ≤ 1 := by
        rw [hlock]
        split <;> omega
      refine ⟨by simp; omega, fun hlt => ?_, fun hw => ?_⟩
      · simp only at hlt
        omega
      · have hs := hserved hw
        simp only
        omega
  | popEmpty hq hp =>
      refine ⟨hlock, fun _ => hq, fun _ => ?_⟩
      simp only
      omega
  | exit hl =>
      have hone : v.locks ≤ 1 := by
        rw [hlock]
        split <;> omega
      refine ⟨by simp; omega, fun hlt => ?_, hserved⟩
      simp only at hlt
      omega
  | wait t hl hp =>
      have hone : v.locks ≤ 1 := by
        rw [hlock]
        split <;> omega
      have hq : v.queue = 0 := hempty (by omega)
      refine ⟨by simp; omega, fun hlt => ?_, fun _ => ?_⟩
      · simp only at hlt
        omega
      · simp only at hle' ⊢
        omega
  | relock h hp =>
      rw [if_neg (by simp [h])] at hlock
      refine ⟨by simp [hlock], fun hlt => ?_, fun hw => ?_⟩
      · simp only at hlt
        omega
      · have hs := hserved hw
        simp only
        omega
  | unpark t =>
      refine ⟨hlock, hempty, fun hw => ?_⟩
      have hne : v.wake ≠ [] := by
        intro hnil
        simp [hnil] at hw
      have hs := hserved hne
      have hl : (v.wake.erase t).length ≤ v.wake.length := List.length_erase_le
      simp only
      omega

/-- In every reachable state the queue is served. -/
theorem queueServed {C : Client σ κ τ ν} {mem : σ} {s : MachineState σ κ τ ν}
    (h : Lts.Reach (Started mem) (machineStep C) s) : QueueServed s.workView := by
  refine h.invariant (I := fun s => QueueServed s.workView) ?_ ?_
  · rintro s ⟨n, rfl⟩
    constructor <;> simp [MachineState.start, MachineState.workView, workView, census]
  · intro s a s' hr hv _ hs
    exact hv.step (waitSetParked hr).length_le (waitSetParked (.step hr trivial hs)).length_le
      (workStep_of_machineStep hs)

/-! ### No flag without an announcement -/

/-- A set flag is followed by a `notify_all`, and after it nobody is parked. -/
structure FlagAnnounced (v : WorkView) : Prop where
  announced : v.shutdown = true → 0 < v.notifiesAll ∨ v.wake = []
  once : v.notifiesAll + v.joining ≤ if v.shutdown then 1 else 0

/-- **Every step but a late wait keeps a set flag announced.** -/
theorem FlagAnnounced.step {late : Prop} {v v' : WorkView} (hv : FlagAnnounced v)
    (hlate : ¬ late) (h : WorkStep late v v') : FlagAnnounced v' := by
  obtain ⟨hann, honce⟩ := hv
  cases h with
  | stay | push | lock | pop | popEmpty | exit | relock => exact ⟨hann, honce⟩
  | notify h c =>
      refine ⟨fun hf => ?_, honce⟩
      rcases hann hf with hn | hw
      · exact .inl hn
      · exact .inr (by simp [hw, notifyOne_nil])
  | swap h =>
      rw [if_neg (by simp [h])] at honce
      refine ⟨fun _ => .inl (Nat.succ_pos _), ?_⟩
      simp only [if_true]
      omega
  | wakeAll h =>
      refine ⟨fun _ => .inr rfl, ?_⟩
      simp only
      omega
  | joined h =>
      refine ⟨hann, ?_⟩
      simp only
      omega
  | wait t hl hp hwait =>
      refine ⟨fun hf => .inl ?_, honce⟩
      by_contra hz
      exact hlate (hwait hf (by simpa using hz))
  | unpark t =>
      refine ⟨fun hf => ?_, honce⟩
      rcases hann hf with hn | hw
      · exact .inl hn
      · exact .inr (by simp [hw])

/-- In every run without late waits a set flag is announced. -/
theorem flagAnnounced {C : Client σ κ τ ν} {mem : σ} {s : MachineState σ κ τ ν}
    (h : Lts.ReachBy (Started mem) (machineStep C) (fun s a => ¬ LateWait s a) s) :
    FlagAnnounced s.workView := by
  refine h.invariant (I := fun s => FlagAnnounced s.workView) ?_ ?_
  · rintro s ⟨n, rfl⟩
    constructor <;> simp [MachineState.start, MachineState.workView, workView, census]
  · intro s a s' _ hv hlate hs
    exact hv.step hlate (workStep_of_machineStep hs)

/-! ### Parked workers -/

/-- Some thread has pushed a task and not yet notified. -/
def NotifyDue (s : MachineState σ κ τ ν) : Prop :=
  0 < census Frame.notifiesOne s.threads

/-- Some thread has set the flag and not yet notified all workers. -/
def NotifyAllDue (s : MachineState σ κ τ ν) : Prop :=
  0 < census Frame.notifiesAll s.threads

/-- A worker was notified and waits for the lock of the queue, or it has the lock and is
about to pop: a notification that is not used up yet. -/
def WakeupUnderWay (s : MachineState σ κ τ ν) : Prop :=
  (∃ i, s.threads[i]? = some [.workerParked] ∧ i ∉ s.shared.wake) ∨
    0 < census Frame.popping s.threads

/-- No worker that is parked on `wake` is forgotten. -/
structure WorkersWatched (s : MachineState σ κ τ ν) : Prop where
  /-- While a task is queued, a notification is due or under way. -/
  queue : ∀ t ∈ s.shared.wake, s.shared.queue ≠ [] → NotifyDue s ∨ WakeupUnderWay s
  /-- While the flag is set, the `notify_all` of `shutdown` is due. -/
  shutdown : ∀ t ∈ s.shared.wake, s.shared.shutdown = true → NotifyAllDue s
  /-- `shutdown` never joins a parked worker. -/
  join : ∀ (i : ThreadId) (handles : List ThreadId) (rest : List (Frame κ τ ν)),
    s.threads[i]? = some (.shutdownJoin handles :: rest) → ∀ t ∈ handles, t ∉ s.shared.wake

/-- While a worker is parked and a task is queued, a wakeup is due or under way. -/
theorem wakeup_of_queue {C : Client σ κ τ ν} {mem : σ} {s : MachineState σ κ τ ν}
    (h : Lts.Reach (Started mem) (machineStep C) s) (hw : s.shared.wake ≠ [])
    (hq : s.shared.queue ≠ []) : NotifyDue s ∨ WakeupUnderWay s := by
  have hserved : s.shared.queue.length + s.shared.wake.length ≤
      census Frame.notifiesOne s.threads + census Frame.parked s.threads +
        census Frame.popping s.threads := (queueServed h).served hw
  have hpos : 0 < s.shared.queue.length := List.length_pos_iff.mpr hq
  by_cases hdue : NotifyDue s
  · exact .inl hdue
  refine .inr ?_
  by_cases hpop : 0 < census Frame.popping s.threads
  · exact .inr hpop
  rw [NotifyDue] at hdue
  have hshape := workerStack h
  obtain ⟨i, st, hi, hst, hnot⟩ := exists_not_mem_of_length_lt (w := Frame.parked)
    s.shared.wake (fun st hst => (hshape st hst).parked_le_one) (by omega)
  rw [(hshape st (List.mem_of_getElem? hi)).eq_parked hst] at hi
  exact .inl ⟨i, hi, hnot⟩

/-- **Without late waits no parked worker is forgotten**, for any client of the executor,
any number of workers and any interleaving. -/
theorem workers_watched {C : Client σ κ τ ν} {mem : σ} {s : MachineState σ κ τ ν}
    (h : Lts.ReachBy (Started mem) (machineStep C) (fun s a => ¬ LateWait s a) s) :
    WorkersWatched s := by
  have hflag := flagAnnounced h
  refine ⟨?_, ?_, ?_⟩
  · intro t ht hq
    exact wakeup_of_queue h.reach (List.ne_nil_of_mem ht) hq
  · intro t ht hf
    rcases hflag.announced hf with hn | hw
    · exact hn
    · exact absurd hw (List.ne_nil_of_mem ht)
  · intro i handles rest hi t _ ht
    -- the joining thread has issued the only `notify_all` there is
    have hjoin : 0 < census Frame.joining s.threads :=
      le_census (w := Frame.joining) (List.mem_of_getElem? hi) List.mem_cons_self
    have honce : census Frame.notifiesAll s.threads + census Frame.joining s.threads ≤
        if s.shared.shutdown then 1 else 0 := hflag.once
    split at honce
    · next hf =>
        rcases hflag.announced hf with hn | hw
        · change 0 < census Frame.notifiesAll s.threads at hn
          omega
        · exact absurd hw (List.ne_nil_of_mem ht)
    · omega

/-- A worker is parked when a task has just been pushed. -/
def probePushed : List (Action ℕ) :=
  [.register 1 1, .spawn 0, .step 0 0, .step 0 0, .step 0 0, .step 0 0, .step 1 0, .step 1 0,
    .step 1 0, .step 1 0, .step 1 0]

/-- The notification for the pushed task is due. -/
theorem workers_watched_probe :
    (probeAfter probePushed).shared.wake = [0] ∧
      (probeAfter probePushed).shared.queue.length = 1 ∧ WorkersWatched (probeAfter probePushed) :=
  ⟨rfl, rfl, workers_watched (C := probe) (.of_runs probePushed ⟨1, rfl⟩ rfl)⟩

/-! ### The lost wakeup -/

/-- One worker loads the flag, a shutdown sets it and notifies, the worker parks. -/
def probeLate : List (Action ℕ) :=
  [.spawn 2, .step 0 0, .step 0 0, .step 0 0, .step 1 0, .step 1 0, .step 1 0, .step 1 0,
    .step 1 0, .step 0 0]

/-- **The wakeup of a worker can be lost**: the flag is set, the only worker is parked, no
notification is due, and `shutdown` joins that worker. No thread can take a step. -/
theorem wakeup_lost :
    Lts.Reach (Started ()) (machineStep probe) (probeAfter probeLate) ∧
      ¬ WorkersWatched (probeAfter probeLate) ∧
      (∀ i c, machineStep probe (probeAfter probeLate) (.step i c) = none) := by
  refine ⟨probeAfter_reach rfl, fun h => ?_, fun i c => ?_⟩
  · have hdue : 0 < census Frame.notifiesAll (probeAfter probeLate).threads :=
      h.shutdown 0 (by decide) rfl
    exact absurd hdue (by decide)
  · rcases i with _ | _ | i <;> rfl

/-- Every late wait loses a wakeup. -/
theorem lateWait_loses {C : Client σ κ τ ν} {s s' : MachineState σ κ τ ν}
    {a : Action κ} (hs : machineStep C s a = some s') (hlate : LateWait s a) :
    ¬ WorkersWatched s' := by
  cases machineStep_cases hs with
  | spawn | register | spurious | release => exact absurd hlate (by simp [LateWait])
  | exit hi => exact absurd hlate (by simp [LateWait, hi])
  | resume hi => exact absurd hlate (by simp [LateWait, hi])
  | @frame i c f rest fs sh hi h =>
      obtain ⟨hf, hflag, hz⟩ := hlate
      have hf : f = .workerWait := by
        cases f <;> simp_all
      subst hf
      cases h with
      | wait =>
          intro hw
          have hdue := hw.shutdown i (by simp) hflag
          rw [census_split _ [.workerWait] rest hi] at hz
          rw [NotifyAllDue] at hdue
          rw [census_replace _ hi] at hdue
          simp at hz hdue
          omega

end Braids
