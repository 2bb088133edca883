import Braids.Executor.Accounting

/-!
# Settlement of Stage Tasks

Every task that `schedule` admits carries a ticket, and at any time each ticket is in
exactly one place: the waiting queue, the hands of a thread or the executor queue, or the
list of tickets of which one side was invoked. Together with lane accounting this shows
that no task is lost, whichever of the three rejection paths it takes.

The order of grants is a replayed first-in first-out history, so no task and no prepare
overtakes a waiting task.

## Main results

* `TicketPlaced.step`: every lane step keeps each ticket in one place.
* `HistoryLegal.step`: every lane step extends a legal history.
* `tasks_settled`: exactly-once settlement, in order, in every reachable state.
-/

namespace Braids

open Census

variable {σ κ τ ν : Type}

/-! ### One place for each ticket -/

/-- How often a side of the task with ticket `k` was invoked. -/
def settledCount (k : ℕ) (rt : BackendRuntime τ) : ℕ :=
  (rt.settled.map Prod.fst).count k

/-- Ticket `k` is in exactly one place once it is admitted, and nowhere before. -/
def TicketPlaced (k : ℕ) (v : LaneView τ) : Prop :=
  ticketCount k v.rt.waiting + v.carried + settledCount k v.rt =
    if k < v.rt.admitted then 1 else 0

/-- The last task of a list counted apart. -/
theorem ticketCount_append_one (k : ℕ) (ts : List (Scheduled τ)) (t : Scheduled τ) :
    ticketCount k (ts ++ [t]) = ticketCount k ts + t.is k := by
  simp [ticketCount, Scheduled.is, List.count_singleton]

/-- Invoking a side of a task counts for its ticket only. -/
theorem settledCount_settle (k : ℕ) (rt : BackendRuntime τ) (t : Scheduled τ) (side : Side) :
    settledCount k (rt.settle t side) = settledCount k rt + t.is k := by
  simp [settledCount, BackendRuntime.settle, Scheduled.is, List.count_singleton]

/-- The next ticket is the number of admissions. -/
theorem ite_lt_succ (k n : ℕ) :
    (if k < n + 1 then 1 else 0) = (if k < n then 1 else 0) + if n = k then 1 else 0 := by
  split <;> split <;> split <;> omega

/-- **Every lane step keeps each ticket in one place.** -/
theorem TicketPlaced.step {k : ℕ} {v v' : LaneView τ} (hv : TicketPlaced k v)
    (h : LaneStep k v v') : TicketPlaced k v' := by
  rw [TicketPlaced] at hv ⊢
  cases h with
  | quiet | unpark | park | permit | notify | close => exact hv
  | grant h =>
      obtain ⟨-, rfl, rfl⟩ := BackendRuntime.schedule_some h
      have hs := ite_lt_succ k v.rt.admitted
      simp only [settledCount, Scheduled.is] at hv ⊢
      omega
  | enqueue h =>
      obtain ⟨-, rfl⟩ := BackendRuntime.schedule_none h
      have hs := ite_lt_succ k v.rt.admitted
      simp only [settledCount, ticketCount_append_one, Scheduled.is] at hv ⊢
      omega
  | handOver h =>
      obtain ⟨waiting, hw, rfl⟩ := BackendRuntime.finishLane_some h
      simp only [settledCount, hw, ticketCount_cons] at hv ⊢
      omega
  | free h =>
      obtain ⟨-, rfl⟩ := BackendRuntime.finishLane_none h
      exact hv
  | permitHandOver h =>
      obtain ⟨waiting, hw, rfl⟩ := BackendRuntime.finishPrepare_some h
      simp only [settledCount, hw, ticketCount_cons] at hv ⊢
      omega
  | permitFree h =>
      obtain ⟨-, rfl⟩ := BackendRuntime.finishPrepare_none h
      exact hv
  | drain =>
      change ticketCount k [] + (v.carried + ticketCount k v.rt.waiting) + settledCount k v.rt =
        if k < v.rt.admitted then 1 else 0
      rw [← hv, ticketCount_nil]
      omega
  | @settle n t side h =>
      change ticketCount k v.rt.waiting + n + settledCount k (v.rt.settle t side) =
        if k < v.rt.admitted then 1 else 0
      rw [← hv, settledCount_settle, h]
      omega

/-! ### The order of grants -/

/-- The history replays to the waiting queue and admits the tickets in order. -/
def HistoryLegal (v : LaneView τ) : Prop :=
  Fifo.replay v.rt.history = some (v.rt.waiting.map Scheduled.ticket) ∧
    Fifo.arrivals v.rt.history = List.range v.rt.admitted

/-- **Every lane step extends a legal history.** -/
theorem HistoryLegal.step {k : ℕ} {v v' : LaneView τ} (hbal : LanesBalanced v)
    (hv : HistoryLegal v) (h : LaneStep k v v') : HistoryLegal v' := by
  obtain ⟨hr, ha⟩ := hv
  cases h with
  | quiet | unpark | park | settle | notify | close => exact ⟨hr, ha⟩
  | grant h =>
      obtain ⟨hlt, -, rfl⟩ := BackendRuntime.schedule_some h
      have hw : v.rt.waiting = [] := by
        by_contra hne
        exact absurd (hbal.full hne) (Nat.ne_of_lt hlt)
      rw [hw, List.map_nil] at hr
      constructor
      · rw [Fifo.replay_append_one, Fifo.replay_append_one, hr]
        simp [hw, Fifo.advance]
      · simp [Fifo.arrivals_append, Fifo.arrivals, ha, List.range_succ]
  | enqueue h =>
      obtain ⟨-, rfl⟩ := BackendRuntime.schedule_none h
      constructor
      · simp [Fifo.replay_append_one, hr, Fifo.advance]
      · simp [Fifo.arrivals_append, Fifo.arrivals, ha, List.range_succ]
  | permit h =>
      obtain ⟨hw, -, -⟩ := h
      rw [hw, List.map_nil] at hr
      constructor
      · simp [BackendRuntime.permit, Fifo.replay_append_one, hr, hw, Fifo.advance]
      · simp [BackendRuntime.permit, Fifo.arrivals_append, Fifo.arrivals, ha]
  | handOver h =>
      obtain ⟨waiting, hw, rfl⟩ := BackendRuntime.finishLane_some h
      rw [hw] at hr
      constructor
      · simp [Fifo.replay_append_one, hr, Fifo.advance]
      · simp [Fifo.arrivals_append, Fifo.arrivals, ha]
  | free h =>
      obtain ⟨-, rfl⟩ := BackendRuntime.finishLane_none h
      exact ⟨hr, ha⟩
  | permitHandOver h =>
      obtain ⟨waiting, hw, rfl⟩ := BackendRuntime.finishPrepare_some h
      rw [hw] at hr
      constructor
      · simp [Fifo.replay_append_one, hr, Fifo.advance]
      · simp [Fifo.arrivals_append, Fifo.arrivals, ha]
  | permitFree h =>
      obtain ⟨-, rfl⟩ := BackendRuntime.finishPrepare_none h
      exact ⟨hr, ha⟩
  | drain =>
      constructor
      · exact Fifo.replay_discard_all hr
      · simp only [BackendRuntime.drain, Fifo.arrivals_append, Fifo.arrivals_discard, ha,
          List.append_nil]

/-- In every reachable state the history of a backend is legal. -/
theorem historyLegal {C : Client σ κ τ ν} {mem : σ} {s : MachineState σ κ τ ν}
    (h : Lts.Reach (Started mem) (machineStep C) s) {b : BackendId} {rt : BackendRuntime τ}
    (hb : s.shared.backends[b]? = some rt) : HistoryLegal (laneView b 0 rt s) := by
  have hinv := lane_invariant (k := 0) (I := fun v => LanesBalanced v ∧ HistoryLegal v)
    (fun lanes prepares f => ⟨.register lanes prepares f, by
      simp [HistoryLegal, BackendRuntime.register, Fifo.arrivals]⟩)
    (fun _ _ hv hstep => ⟨hv.1.step hstep, hv.2.step hv.1 hstep⟩) h hb
  exact hinv.2

/-! ### Settlement -/

/-- Some thread is inside `BackendRuntime::shutdown` of backend `b`, rejecting what it has
drained. -/
def Frame.draining (b : BackendId) : Frame κ τ ν → ℕ
  | .backendReject b' _ => if b' = b then 1 else 0
  | _ => 0

/-- Nobody holds a lane of backend `b` and no thread is inside its shutdown. -/
def LanesIdle (b : BackendId) (s : MachineState σ κ τ ν) : Prop :=
  grantedTasks b s = 0 ∧ livePermits b s = 0 ∧ census (Frame.draining b) s.threads = 0

/-- How often ticket `k` is carried by a thread or the executor queue, unsettled. -/
def carriedCount (b : BackendId) (k : ℕ) (s : MachineState σ κ τ ν) : ℕ :=
  census (Frame.carries b k) s.threads + weight (Runnable.carries b k) s.shared.queue

/-- The side of a task of backend `b` that the next step of a frame invokes. -/
def Frame.invokes (b : BackendId) (queue : List (Runnable τ)) :
    Frame κ τ ν → Option (Scheduled τ × Side)
  | .wrappedReject b' task _ | .backendReject b' (task :: _) =>
      if b' = b then some (task, .reject) else none
  | .workerPop =>
      match queue with
      | .wrapped b' task :: _ => if b' = b then some (task, .run) else none
      | _ => none
  | _ => none

/-- The frame at which one side of a task begins to change the memory of the client. -/
def Side.Begins (C : Client σ κ τ ν) (task : Scheduled τ) : Side → Frame κ τ ν → Prop
  | .run, f => f = .client (C.run task.closure)
  | .reject, f => ∃ error, f = .rejecting (C.reject task.closure error)

/-- What a step has invoked is what it has counted. -/
def CountedBy (C : Client σ κ τ ν) (rt rt' : BackendRuntime τ) (stack : List (Frame κ τ ν)) :
    Option (Scheduled τ × Side) → Prop
  | none => rt'.settled = rt.settled
  | some (task, side) => rt'.settled = rt.settled ++ [(task.ticket, side)] ∧
      ∃ f rest, stack = f :: rest ∧ side.Begins C task f

section Counting

variable {C : Client σ κ τ ν} {sh sh' : Shared σ τ} {rt : BackendRuntime τ} {b : BackendId}

/-- A write to a backend that invokes nothing. -/
theorem CountedBy.setBackend {b' : BackendId} {rt₀ rt₁ : BackendRuntime τ}
    (hb : sh.backends[b]? = some rt) (hb' : sh.backends[b']? = some rt₀)
    (hsame : rt₁.settled = rt₀.settled) (stack : List (Frame κ τ ν)) :
    ∃ rt', (sh.setBackend b' rt₁).backends[b]? = some rt' ∧ CountedBy C rt rt' stack none := by
  rcases Shared.same_or_ne hb' hb with ⟨rfl, rfl⟩ | hne
  · exact ⟨rt₁, sh.setBackend_self _ hb, hsame⟩
  · exact ⟨rt, (sh.setBackend_ne _ hne).trans hb, rfl⟩

/-- A step that invokes one side of a task. -/
theorem CountedBy.settled {b' : BackendId} {task : Scheduled τ} {side : Side}
    (hb : sh.backends[b]? = some rt) {f : Frame κ τ ν} (hf : side.Begins C task f)
    (rest : List (Frame κ τ ν)) :
    ∃ rt', (sh.settled b' task side).backends[b]? = some rt' ∧
      CountedBy C rt rt' (f :: rest) (if b' = b then some (task, side) else none) := by
  refine ⟨_, Shared.settled_backends hb task side, ?_⟩
  split
  · exact ⟨rfl, f, rest, rfl, hf⟩
  · exact rfl

/-- **What a frame invokes is what its step counts.** -/
theorem FrameStep.counted {workers : ℕ} {ended : ThreadId → Bool} {i : ThreadId}
    {f : Frame κ τ ν} {fs : List (Frame κ τ ν)} (h : FrameStep C sh workers ended i f sh' fs)
    (hb : sh.backends[b]? = some rt) (rest : List (Frame κ τ ν)) :
    ∃ rt', sh'.backends[b]? = some rt' ∧
      CountedBy C rt rt' (fs ++ rest) (f.invokes b sh.queue) := by
  cases h with
  | grant hb' hs =>
      obtain ⟨-, rfl, rfl⟩ := BackendRuntime.schedule_some hs
      exact CountedBy.setBackend hb hb' (by rfl) _
  | enqueue hb' hs =>
      obtain ⟨-, rfl⟩ := BackendRuntime.schedule_none hs
      exact CountedBy.setBackend hb hb' (by rfl) _
  | handOver hb' hs =>
      obtain ⟨waiting, -, rfl⟩ := BackendRuntime.finishLane_some hs
      exact CountedBy.setBackend hb hb' (by rfl) _
  | free hb' hs =>
      obtain ⟨-, rfl⟩ := BackendRuntime.finishLane_none hs
      exact CountedBy.setBackend hb hb' (by rfl) _
  | permitHandOver hb' hs =>
      obtain ⟨waiting, -, rfl⟩ := BackendRuntime.finishPrepare_some hs
      exact CountedBy.setBackend hb hb' (by rfl) _
  | permitFree hb' hs =>
      obtain ⟨-, rfl⟩ := BackendRuntime.finishPrepare_none hs
      exact CountedBy.setBackend hb hb' (by rfl) _
  | notifyPrepare hb' | permit hb' | park hb' | drain hb' | close hb' =>
      exact CountedBy.setBackend hb hb' (by rfl) _
  | wrappedReject | rejectDrained =>
      exact CountedBy.settled hb (show Side.reject.Begins C _ _ from ⟨_, rfl⟩) _
  | @popWrapped b' task queue hq =>
      have hinvokes : (Frame.workerPop : Frame κ τ ν).invokes b sh.queue =
          if b' = b then some (task, .run) else none := by
        simp only [Frame.invokes, hq]
      rw [hinvokes]
      have hb' : { sh with queue := queue, queueLocked := false }.backends[b]? = some rt := hb
      exact CountedBy.settled hb' (show Side.run.Begins C task _ from rfl) _
  | popPlain hq | popEmpty hq =>
      refine ⟨rt, hb, ?_⟩
      simp only [Frame.invokes, hq]
      exact rfl
  | _ => exact ⟨rt, hb, rfl⟩

/-- **What a thread invokes is what its step counts.** -/
theorem counted_step {s s' : MachineState σ κ τ ν} (hb : s.shared.backends[b]? = some rt)
    {i : ThreadId} {c : ℕ} {f : Frame κ τ ν} {rest : List (Frame κ τ ν)}
    (hi : s.threads[i]? = some (f :: rest)) (h : machineStep C s (.step i c) = some s') :
    ∃ rt' stack, s'.shared.backends[b]? = some rt' ∧ s'.threads[i]? = some stack ∧
      CountedBy C rt rt' stack (f.invokes b s.shared.queue) := by
  have hlt := (List.getElem?_eq_some_iff.mp hi).1
  cases machineStep_cases h with
  | exit hi' =>
      obtain ⟨rfl, rfl⟩ := List.cons.inj (Option.some.inj (hi.symm.trans hi'))
      exact ⟨rt, [], hb, List.getElem?_set_self hlt, rfl⟩
  | resume hi' =>
      obtain ⟨rfl, rfl⟩ := List.cons.inj (Option.some.inj (hi.symm.trans hi'))
      exact ⟨rt, _, hb, List.getElem?_set_self hlt, rfl⟩
  | @frame _ _ f' rest' fs sh hi' hf =>
      obtain ⟨rfl, rfl⟩ := List.cons.inj (Option.some.inj (hi.symm.trans hi'))
      obtain ⟨rt', hb', hcounted⟩ := hf.counted hb rest
      exact ⟨rt', _, hb', List.getElem?_set_self hlt, hcounted⟩

end Counting

/-- Settlement of the tasks that backend `b`, whose runtime is `rt`, has admitted up to
the state `s` of a machine that runs the client. -/
structure TasksSettled (C : Client σ κ τ ν) (b : BackendId) (rt : BackendRuntime τ)
    (s : MachineState σ κ τ ν) : Prop where
  /-- A task waits, is carried, or has had one side invoked: exactly one of them, once. -/
  one_place : ∀ k < rt.admitted,
    ticketCount k rt.waiting + carriedCount b k s + settledCount k rt = 1
  /-- At most one side of a task is invoked, at most once. -/
  at_most_once : ∀ k, settledCount k rt ≤ 1
  /-- Without lane holders nothing waits and every task was run or rejected. -/
  settled_of_idle : LanesIdle b s →
    rt.waiting = [] ∧ ∀ k < rt.admitted, settledCount k rt = 1
  /-- Neither a task nor a prepare overtakes a waiting task. -/
  fifo : Fifo.replay rt.history = some (rt.waiting.map Scheduled.ticket)
  /-- Lanes are granted in the order of admission. -/
  in_order : (Fifo.served rt.history ++ rt.waiting.map Scheduled.ticket).Sublist
    (List.range rt.admitted)
  /-- The sides that are counted are the ones that begin to run on the stack of a thread. -/
  counted : ∀ i c f rest s', s.threads[i]? = some (f :: rest) →
    machineStep C s (.step i c) = some s' → ∃ rt' stack, s'.shared.backends[b]? = some rt' ∧
      s'.threads[i]? = some stack ∧ CountedBy C rt rt' stack (f.invokes b s.shared.queue)

/-- A frame that carries a ticket holds a lane or is draining. -/
theorem Frame.carries_eq_zero {f : Frame κ τ ν} {b : BackendId} (hh : f.holds b = 0)
    (hd : f.draining b = 0) (k : ℕ) : f.carries b k = 0 := by
  cases f with
  | submitLoad t | submitPush t => exact Runnable.carries_eq_zero hh k
  | _ => simp_all [Frame.draining]

/-- Without lane holders no ticket is carried. -/
theorem LanesIdle.carriedCount {b : BackendId} {s : MachineState σ κ τ ν}
    (h : LanesIdle b s) (k : ℕ) : carriedCount b k s = 0 := by
  obtain ⟨hg, -, hd⟩ := h
  obtain ⟨hh, hq⟩ := Nat.add_eq_zero_iff.mp hg
  have hh := census_eq_zero_iff.mp hh
  have hd := census_eq_zero_iff.mp hd
  have hthreads : census (Frame.carries b k) s.threads = 0 :=
    census_eq_zero_iff.mpr fun st hst f hf =>
      Frame.carries_eq_zero (hh st hst f hf) (hd st hst f hf) k
  have hqueue : weight (Runnable.carries b k) s.shared.queue = 0 := by
    have hq : ∀ t ∈ s.shared.queue, t.holds b = 0 := by
      simpa [weight, List.sum_eq_zero_iff] using hq
    simpa [weight, List.sum_eq_zero_iff] using
      fun t ht => Runnable.carries_eq_zero (hq t ht) k
  rw [Braids.carriedCount, hthreads, hqueue]

/-- **Every stage task is settled exactly once, in order**: for any client of the executor
and any interleaving with any number of shutdowns. -/
theorem tasks_settled {C : Client σ κ τ ν} {mem : σ} {s : MachineState σ κ τ ν}
    (h : Lts.Reach (Started mem) (machineStep C) s) {b : BackendId} {rt : BackendRuntime τ}
    (hb : s.shared.backends[b]? = some rt) : TasksSettled C b rt s := by
  have hplaced : ∀ k, TicketPlaced k (laneView b k rt s) := fun k =>
    lane_invariant (I := TicketPlaced k)
      (fun lanes prepares f => by
        simp [TicketPlaced, BackendRuntime.register, settledCount])
      (fun _ _ hv hstep => hv.step hstep) h hb
  have hplace : ∀ k, ticketCount k rt.waiting + carriedCount b k s + settledCount k rt =
      if k < rt.admitted then 1 else 0 := hplaced
  have hbal := lanesBalanced h hb 0
  obtain ⟨hreplay, harrive⟩ := historyLegal h hb
  refine ⟨?_, ?_, ?_, hreplay, ?_, fun i c f rest s' hi hstep => counted_step hb hi hstep⟩
  · intro k hk
    rw [hplace k, if_pos hk]
  · intro k
    have hk := hplace k
    split at hk <;> omega
  · intro hidle
    have hlanes : rt.lanesInUse = grantedTasks b s + livePermits b s := hbal.lanes
    have hw : rt.waiting = [] := by
      by_contra hne
      have hfull : rt.lanesInUse = rt.laneCount := hbal.full hne
      have hpos : 0 < rt.prepareLaneCount := hbal.prepareLanes_pos
      have hle : rt.prepareLaneCount ≤ rt.laneCount := hbal.prepareLanes_le
      obtain ⟨hg, hp, -⟩ := hidle
      omega
    refine ⟨hw, fun k hk => ?_⟩
    have hk' := hplace k
    rw [hw, ticketCount_nil, hidle.carriedCount, if_pos hk] at hk'
    omega
  · have hsub := Fifo.served_sublist hreplay
    rw [harrive] at hsub
    exact hsub

/-- Settlement with one task granted and one waiting. -/
theorem tasks_settled_probe :
    ∃ rt, (probeAfter probeContended).shared.backends[0]? = some rt ∧
      rt.admitted = 2 ∧ TasksSettled probe 0 rt (probeAfter probeContended) :=
  ⟨_, rfl, rfl, tasks_settled (probeAfter_reach rfl) rfl⟩

end Braids
