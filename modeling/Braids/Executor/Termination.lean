import Mathlib.Algebra.Order.BigOperators.Group.Finset
import Mathlib.Data.Prod.Lex
import Braids.Executor.Loop
import Braids.Executor.Soup
import Braids.Lib.Ranking

/-!
# Runs of the Executor End

The executor adds no endless work to what its client does: when every step of the client
leaves less to do, every run without new calls is finite. The rank of a state is what is left
for the client, then what is left for the executor in the frames of the threads, then the steps
of those who wait and have been woken. A step of the client may make the executor work, and
both may wake threads, so the order is lexicographic.

`Drains` lists what has to be known of the client. It has to say how much is left at each of its
program points (`Effort`), in two parts, since a call may begin with a task whose length nobody
knows yet.

## Main results

* `rank_step`: every step without a wakeup that nobody asked for decreases the rank.
-/

namespace Braids

open Census

variable {σ κ τ ν : Type}

/-! ### What is left for the client -/

/-- What is left to do at a program point: `calls` until a call has made its tasks, `tasks`
for the tasks, and `waits` for a thread that waits there to wait again. -/
structure Effort (σ κ τ ν : Type) where
  calls : Point κ τ ν → ℕ
  tasks : σ → Point κ τ ν → ℕ
  waits : σ → ThreadId → κ → ℕ

namespace Effort

variable {r : Effort σ κ τ ν} {m m' : σ} {P Q R : Soup κ τ ν}

/-- What is left of calls at some points. -/
def left (r : Effort σ κ τ ν) (P : Soup κ τ ν) : ℕ := (P.map r.calls).sum

/-- What is left of tasks at some points. -/
def leftOf (r : Effort σ κ τ ν) (m : σ) (P : Soup κ τ ν) : ℕ := (P.map (r.tasks m)).sum

@[simp] theorem left_zero : r.left 0 = 0 := rfl

@[simp] theorem left_singleton (p : Point κ τ ν) : r.left {p} = r.calls p := by simp [left]

@[simp] theorem left_cons (p : Point κ τ ν) : r.left (p ::ₘ P) = r.calls p + r.left P := by
  simp [left]

@[simp] theorem left_add : r.left (P + Q) = r.left P + r.left Q := by simp [left]

@[simp] theorem leftOf_zero : r.leftOf m 0 = 0 := rfl

@[simp] theorem leftOf_singleton (p : Point κ τ ν) : r.leftOf m {p} = r.tasks m p := by
  simp [leftOf]

@[simp] theorem leftOf_cons (p : Point κ τ ν) :
    r.leftOf m (p ::ₘ P) = r.tasks m p + r.leftOf m P := by
  simp [leftOf]

@[simp] theorem leftOf_add : r.leftOf m (P + Q) = r.leftOf m P + r.leftOf m Q := by
  simp [leftOf]

/-- What is left for the client. -/
def total (r : Effort σ κ τ ν) (v : SoupView σ κ τ ν) : ℕ ×ₗ ℕ :=
  toLex (r.left v.2, r.leftOf v.1 v.2)

/-- A step from the points `P` to `Q` leaves no more to do. -/
structure Keeps (r : Effort σ κ τ ν) (m m' : σ) (P Q : Soup κ τ ν) : Prop where
  calls : r.left Q ≤ r.left P
  tasks : r.leftOf m' Q ≤ r.leftOf m P
  others : ∀ p, r.tasks m' p ≤ r.tasks m p

/-- A step from the points `P` to `Q` leaves less to do. -/
inductive Drops (r : Effort σ κ τ ν) (m m' : σ) (P Q : Soup κ τ ν) : Prop
  | calls (h : r.left Q < r.left P)
  | tasks (hkeeps : r.Keeps m m' P Q) (h : r.leftOf m' Q < r.leftOf m P)

/-- What is left for other points does not grow. -/
theorem Keeps.rest (h : r.Keeps m m' P Q) (R : Soup κ τ ν) : r.leftOf m' R ≤ r.leftOf m R :=
  Multiset.sum_map_le_sum_map _ _ fun p _ => h.others p

/-- A step that leaves no more to do. -/
theorem Keeps.total_le (h : r.Keeps m m' P Q) (R : Soup κ τ ν) :
    r.total (m', Q + R) ≤ r.total (m, P + R) := by
  have hcalls := h.calls
  have htasks := h.tasks
  have hrest := h.rest R
  simp only [total, Prod.Lex.toLex_le_toLex, left_add, leftOf_add]
  omega

/-- A step that leaves less to do. -/
theorem Drops.total_lt (h : r.Drops m m' P Q) (R : Soup κ τ ν) :
    r.total (m', Q + R) < r.total (m, P + R) := by
  simp only [total, Prod.Lex.toLex_lt_toLex, left_add, leftOf_add]
  cases h with
  | calls h => omega
  | tasks hkeeps h =>
      have hcalls := hkeeps.calls
      have hrest := hkeeps.rest R
      omega

end Effort

/-- **What has to be known of the client**: every step leaves less to do, and returning from a
call leaves no more. `I` is an invariant of the client, and `asked` excludes wakeups that nobody
asked for. -/
structure Drains (C : Client σ κ τ ν) (K : Contract C) (I : SoupView σ κ τ ν → Prop)
    (asked : ℕ → κ → Prop) (r : Effort σ κ τ ν) : Prop where
  step : ∀ {i n m m' code act}, asked n code → C.step i n m code = some (m', act) →
    r.Drops m m' {.code code} act.points ∨
      ∃ next, act = .goto next ∧ r.Keeps m m' {.code code} {.code next} ∧
        r.waits m' i next < r.waits m i code ∧ ∀ k ≠ i, ∀ c, r.waits m' k c ≤ r.waits m k c
  rejectStep : ∀ {m m' code next R}, I (m, {.rejecting code} + R) →
    C.rejectStep m code = (m', next) →
      r.Drops m m' {.rejecting code} (next.elim 0 fun next => {.rejecting next})
  run : ∀ m t, r.Drops m m {.task t} {.code (C.run t)}
  runScheduled : ∀ m t, r.Drops m m {.scheduled t} {.code (C.run t)}
  reject : ∀ m t error, r.Drops m m {.scheduled t} {.rejecting (C.reject t error)}
  hookRun : ∀ m hook, r.Drops m m {.hook hook} {.code hook}
  hookDrop : ∀ m hook, r.Drops m m {.hook hook} 0
  refused : ∀ {m t code}, K.Submits code t →
    r.Keeps m m {.task t, .code code} {.code (C.resume code (.err .executorShutdown))}
  returned : ∀ {m code result}, K.Returns m code result →
    r.Keeps m m {.code code} {.code (C.resume code result)}

/-! ### What is left for the executor -/

/-- What is left for the executor to do in a frame, for some number of backends and workers.
The loop of a worker and a caller that asks for a permit wait or make the client work. -/
def Frame.work (backends workers : ℕ) : Frame κ τ ν → ℕ
  | .ret _ | .returning _ => 1
  | .client _ | .rejecting _ | .wrappedReject _ _ _ | .acquirePrepare _ _ | .acquireParked _ _
  | .workerLock | .workerPop | .workerLoad | .workerWait | .workerParked => 0
  | .submitNotify | .notifyPrepare _ | .backendNotify _ | .finishLaneCheck _ => 2
  | .submitPush _ | .backendReject _ _ => 3
  | .submitLoad _ | .backendShutdown _ => 4
  | .submitReady _ _ | .finishPrepareCheck _ _ => 5
  | .schedule _ _ => 6
  | .finishLane _ => 8
  | .finishPrepare _ _ | .permitHeld _ => 11
  | .shutdownJoin handles => handles.length + 2
  | .shutdownNotify => workers + 3
  | .shutdownBackends runtimes => 5 * runtimes.length + workers + 4
  | .shutdownCollect => 5 * backends + workers + 5
  | .shutdownSwap => 5 * backends + workers + 6

attribute [simp] Frame.work

/-- The steps that a thread can take until it waits, if nobody wakes it again. -/
def Shared.waits (sh : Shared σ τ) (r : Effort σ κ τ ν) (i : ThreadId) :
    List (Frame κ τ ν) → ℕ
  | .client code :: _ => r.waits sh.client i code
  | .acquirePrepare _ _ :: _ | .workerWait :: _ => 1
  | .acquireParked b _ :: _ => if ∀ rt ∈ sh.backends[b]?, i ∈ rt.prepareWake then 0 else 2
  | .workerLock :: _ => 4
  | .workerPop :: _ => 3
  | .workerLoad :: _ => 2
  | .workerParked :: _ => if i ∈ sh.wake then 0 else 4
  | _ => 0

section Executor

variable {C : Client σ κ τ ν} {K : Contract C} {I : SoupView σ κ τ ν → Prop}
  {asked : ℕ → κ → Prop} {r : Effort σ κ τ ν} {sh sh' : Shared σ τ} {w nb : ℕ}
  {e : ThreadId → Bool} {i : ThreadId} {f : Frame κ τ ν} {fs rest : List (Frame κ τ ν)}
  {s s' : MachineState σ κ τ ν}

/-- Who waits goes on waiting while nobody is woken. -/
theorem Shared.waits_mono {k : ThreadId}
    (hclient : ∀ code, r.waits sh'.client k code ≤ r.waits sh.client k code)
    (hwake : k ∈ sh.wake → k ∈ sh'.wake)
    (hbackends : ∀ (b : BackendId) (rt' : BackendRuntime τ), sh'.backends[b]? = some rt' →
      ∃ rt, sh.backends[b]? = some rt ∧ (k ∈ rt.prepareWake → k ∈ rt'.prepareWake))
    (st : List (Frame κ τ ν)) : sh'.waits r k st ≤ sh.waits r k st := by
  unfold Shared.waits
  split
  · exact hclient _
  · exact le_rfl
  · exact le_rfl
  · next b _ _ =>
      by_cases hin : ∀ rt ∈ sh.backends[b]?, k ∈ rt.prepareWake
      · rw [if_pos hin, if_pos]
        intro rt' hrt'
        obtain ⟨rt, hrt, hmem⟩ := hbackends b rt' hrt'
        exact hmem (hin rt hrt)
      · rw [if_neg hin]
        split <;> omega
  · exact le_rfl
  · exact le_rfl
  · exact le_rfl
  · split <;> split <;> simp_all
  · exact le_rfl

/-- What the step of a frame spends: of what is left for the client, or of what is left for the
executor in the frame, or of the steps until its thread waits. -/
inductive Spends (r : Effort σ κ τ ν) (nb w : ℕ) (i : ThreadId) (sh sh' : Shared σ τ)
    (rest : List (Frame κ τ ν)) (f : Frame κ τ ν) (fs : List (Frame κ τ ν))
    (R : Soup κ τ ν) : Prop
  | client (h : r.total (sh'.client, weight Frame.points fs + (sh'.points + R)) <
      r.total (sh.client, f.points + (sh.points + R)))
  | work (hclient : r.total (sh'.client, weight Frame.points fs + (sh'.points + R)) ≤
      r.total (sh.client, f.points + (sh.points + R)))
      (h : weight (Frame.work nb w) fs < f.work nb w)
  | waits (hclient : r.total (sh'.client, weight Frame.points fs + (sh'.points + R)) ≤
      r.total (sh.client, f.points + (sh.points + R)))
      (hwork : weight (Frame.work nb w) fs ≤ f.work nb w)
      (h : sh'.waits r i (fs ++ rest) < sh.waits r i (f :: rest))
      (hothers : ∀ k ≠ i, ∀ st : List (Frame κ τ ν), sh'.waits r k st ≤ sh.waits r k st)

/-- A step that leaves the client less to do. -/
theorem Spends.of_drops {m : σ} {P Q R S : Soup κ τ ν} (h : r.Drops sh.client m P Q)
    (hm : sh'.client = m) (hP : f.points + sh.points = P + S)
    (hQ : weight Frame.points fs + sh'.points = Q + S) :
    Spends r nb w i sh sh' rest f fs R := by
  refine .client ?_
  rw [hm, ← add_assoc, ← add_assoc, hP, hQ, add_assoc, add_assoc]
  exact h.total_lt _

/-- A step that the client does not notice leaves it as much to do. -/
theorem total_eq_of_points {R : Soup κ τ ν} (hclient : sh'.client = sh.client)
    (hpoints : weight Frame.points fs + sh'.points = f.points + sh.points) :
    r.total (sh'.client, weight Frame.points fs + (sh'.points + R)) =
      r.total (sh.client, f.points + (sh.points + R)) := by
  rw [hclient, ← add_assoc, ← add_assoc, hpoints]

/-- A step of the executor that the client does not notice. -/
theorem Spends.of_work {R : Soup κ τ ν} (hclient : sh'.client = sh.client)
    (hpoints : weight Frame.points fs + sh'.points = f.points + sh.points)
    (h : weight (Frame.work nb w) fs < f.work nb w) : Spends r nb w i sh sh' rest f fs R :=
  .work (total_eq_of_points hclient hpoints).le h

/-- A step of the executor that writes the runtime of a backend with the same waiting queue. -/
theorem Spends.of_backend {R : Soup κ τ ν} {b : BackendId} {rt rt' : BackendRuntime τ}
    (hb : sh.backends[b]? = some rt) (hwaiting : rt'.waiting = rt.waiting)
    (hpoints : weight Frame.points fs = f.points)
    (h : weight (Frame.work nb w) fs < f.work nb w) :
    Spends r nb w i sh (sh.setBackend b rt') rest f fs R := by
  refine .of_work rfl ?_ h
  rw [Shared.points_setBackend_same hb hwaiting, hpoints]

/-- A step of waiting that the client does not notice. -/
theorem Spends.of_waits {R : Soup κ τ ν} (hclient : sh'.client = sh.client)
    (hpoints : weight Frame.points fs + sh'.points = f.points + sh.points)
    (hwork : weight (Frame.work nb w) fs ≤ f.work nb w)
    (h : sh'.waits r i (fs ++ rest) < sh.waits r i (f :: rest))
    (hothers : ∀ k ≠ i, ∀ st : List (Frame κ τ ν), sh'.waits r k st ≤ sh.waits r k st) :
    Spends r nb w i sh sh' rest f fs R :=
  .waits (total_eq_of_points hclient hpoints).le hwork h hothers

/-- **A step of a frame of the executor** spends something. -/
theorem FrameStep.spends (hd : Drains C K I asked r) (h : FrameStep C sh w e i f sh' fs)
    (hf : ∀ code, f ≠ .client code) (hst : WorkerStack (f :: rest)) (R : Soup κ τ ν)
    (hI : I (sh.client, f.points + (sh.points + R))) :
    Spends r sh.backends.length w i sh sh' rest f fs R := by
  cases h with
  | client => exact (hf _ rfl).elim
  | rejectOn h | rejectDone h =>
      exact .of_drops (S := sh.points) (hd.rejectStep hI h) rfl rfl (by simp; rfl)
  | @wrappedReject b task error =>
      exact .of_drops (S := sh.points) (hd.reject _ task.closure error) (by simp) (by simp)
        (by simp [Shared.points_settled])
  | @rejectDrained b task drained =>
      exact .of_drops (S := weight Scheduled.points drained + sh.points)
        (hd.reject _ task.closure .executorShutdown) (by simp) (by simp)
        (by simp [Shared.points_settled])
  | @popPlain task queue h =>
      refine .of_drops (S := { sh with queue := queue, queueLocked := false }.points)
        (hd.run _ task) rfl ?_ (by simp)
      rw [Shared.points_pop h]
      simp
  | @popWrapped b task queue h =>
      refine .of_drops (S := { sh with queue := queue, queueLocked := false }.points)
        (hd.runScheduled _ task.closure) (by simp) ?_ (by simp [Shared.points_settled])
      rw [Shared.points_pop h]
      simp
  | @prepareRefused b hook h =>
      exact .of_drops (S := sh.points) (hd.hookDrop _ hook) rfl (by simp) (by simp)
  | @permit b hook rt hb =>
      refine .of_drops (S := sh.points) (hd.hookRun _ hook) rfl (by simp) ?_
      rw [Shared.points_setBackend_same hb]
      · simp
      · rfl
  | @submitRefused task => cases task <;> exact .of_work rfl (by simp [refuse]) (by simp [refuse])
  | submitPush =>
      refine .of_work rfl ?_ (by simp)
      simp only [Shared.points, weight_append, weight_cons, weight_nil, Frame.points]
      abel
  | grant hb hs =>
      obtain ⟨-, rfl, rfl⟩ := BackendRuntime.schedule_some hs
      exact .of_backend hb rfl (by simp) (by simp)
  | @enqueue b closure rt rt' hb hs =>
      obtain ⟨-, hrt⟩ := BackendRuntime.schedule_none hs
      have hw : rt'.waiting = rt.waiting ++ [⟨rt.admitted, closure⟩] := by rw [hrt]
      refine .of_work rfl ?_ (by simp)
      rw [Shared.points_enqueue hb hw]
      simp only [weight_cons, weight_nil, Frame.points, Scheduled.points]
      abel
  | @handOver b rt rt' task hb hs =>
      obtain ⟨waiting, hw, hrt⟩ := BackendRuntime.finishLane_some hs
      have hw' : rt.waiting = task :: rt'.waiting := by rw [hw, hrt]
      refine .of_work rfl ?_ (by simp)
      rw [← Shared.points_dequeue hb hw']
      simp only [weight_cons, weight_nil, Frame.points, Scheduled.points]
      abel
  | @permitHandOver b result rt rt' task hb hs =>
      obtain ⟨waiting, hw, hrt⟩ := BackendRuntime.finishPrepare_some hs
      have hw' : rt.waiting = task :: rt'.waiting := by rw [hw, hrt]
      refine .of_work rfl ?_ (by simp)
      rw [← Shared.points_dequeue hb hw']
      simp only [weight_cons, weight_nil, Frame.points, Scheduled.points]
      abel
  | free hb hs =>
      obtain ⟨-, rfl⟩ := BackendRuntime.finishLane_none hs
      exact .of_backend hb rfl (by simp) (by simp)
  | permitFree hb hs =>
      obtain ⟨-, rfl⟩ := BackendRuntime.finishPrepare_none hs
      exact .of_backend hb rfl (by simp) (by simp)
  | @drain b rt hb =>
      refine .of_work rfl ?_ (by simp)
      have hw : rt.drain.1.waiting = [] := rfl
      rw [← Shared.points_drain hb hw]
      simp only [weight_cons, weight_nil, Frame.points]
      abel
  | notifyPrepare hb | close hb => exact .of_backend hb rfl (by simp) (by simp)
  | @park b hook rt hb =>
      have hlt := (List.getElem?_eq_some_iff.mp hb).1
      refine .of_waits rfl ?_ (by simp) ?_ fun k _ => Shared.waits_mono (fun _ => le_rfl) id ?_
      · rw [Shared.points_setBackend_same hb]
        · simp
        · rfl
      · simp [Shared.waits, Shared.setBackend, hlt, BackendRuntime.park]
      · intro b' rt' hrt'
        by_cases hbb : b = b'
        · subst hbb
          obtain rfl : rt.park i = rt' := by simpa [Shared.setBackend, hlt] using hrt'
          exact ⟨rt, hb, fun hmem => List.mem_append_left _ hmem⟩
        · rw [Shared.setBackend, List.getElem?_set_ne hbb] at hrt'
          exact ⟨rt', hrt', id⟩
  | unparked hb hnot =>
      exact .of_waits rfl (by simp) (by simp) (by simp [Shared.waits, hb, hnot]) fun _ _ _ => le_rfl
  | lock | load | popEmpty =>
      exact .of_waits rfl (by simp [Shared.points]) (by simp) (by simp [Shared.waits])
        fun k _ => Shared.waits_mono (fun _ => le_rfl) id fun _ rt hrt => ⟨rt, hrt, id⟩
  | relock hnot =>
      exact .of_waits rfl (by simp [Shared.points]) (by simp) (by simp [Shared.waits, hnot])
        fun k _ => Shared.waits_mono (fun _ => le_rfl) id fun _ rt hrt => ⟨rt, hrt, id⟩
  | exit =>
      obtain rfl := hst.worker_only rfl
      exact .of_waits rfl (by simp [Shared.points]) (by simp) (by simp [Shared.waits])
        fun k _ => Shared.waits_mono (fun _ => le_rfl) id fun _ rt hrt => ⟨rt, hrt, id⟩
  | wait =>
      exact .of_waits rfl (by simp [Shared.points]) (by simp) (by simp [Shared.waits])
        fun k _ => Shared.waits_mono (fun _ => le_rfl) (fun hmem => List.mem_append_left _ hmem)
          fun _ rt hrt => ⟨rt, hrt, id⟩
  | collect | shutNext | shutEnd | wakeAll | join =>
      exact .of_work rfl (by simp [Shared.points]) (by simp; try omega)
  | _ => exact .of_work rfl (by simp [Shared.points]) (by simp)

/-! ### The rank of a state -/

/-- The steps that threads can take until they wait, if nobody wakes them again. -/
def restless (r : Effort σ κ τ ν) (sh : Shared σ τ) (threads : List (List (Frame κ τ ν))) : ℕ :=
  ∑ i ∈ Finset.range threads.length, sh.waits r i (threads[i]?.getD [])

/-- One thread comes closer to waiting, and nobody is woken. -/
theorem restless_lt {threads : List (List (Frame κ τ ν))} {st st' : List (Frame κ τ ν)}
    (hi : threads[i]? = some st) (hlt : sh'.waits r i st' < sh.waits r i st)
    (hothers : ∀ k ≠ i, ∀ st : List (Frame κ τ ν), sh'.waits r k st ≤ sh.waits r k st) :
    restless r sh' (threads.set i st') < restless r sh threads := by
  have hlen := (List.getElem?_eq_some_iff.mp hi).1
  rw [restless, restless, List.length_set]
  refine Finset.sum_lt_sum (fun k _ => ?_) ⟨i, Finset.mem_range.mpr hlen, ?_⟩
  · by_cases hk : k = i
    · subst hk
      rw [List.getElem?_set_self hlen, hi]
      exact hlt.le
    · rw [List.getElem?_set_ne (Ne.symm hk)]
      exact hothers k hk _
  · rw [List.getElem?_set_self hlen, hi]
    exact hlt

/-- The rank of a state: what is left for the client, what is left for the executor, and the
steps of those who wait. -/
def MachineState.rank (r : Effort σ κ τ ν) (s : MachineState σ κ τ ν) : (ℕ ×ₗ ℕ) ×ₗ ℕ ×ₗ ℕ :=
  toLex (r.total (s.shared.client, s.soup),
    toLex (census (Frame.work s.shared.backends.length s.workers) s.threads,
      restless r s.shared s.threads))

/-- Less is left for the client. -/
theorem rank_lt_of_client (h : r.total (s'.shared.client, s'.soup) <
    r.total (s.shared.client, s.soup)) : s'.rank r < s.rank r :=
  Prod.Lex.toLex_lt_toLex.mpr (.inl h)

/-- No more is left for the client, and less for the executor. -/
theorem rank_lt_of_executor (h : r.total (s'.shared.client, s'.soup) ≤
      r.total (s.shared.client, s.soup))
    (hlt : toLex (census (Frame.work s'.shared.backends.length s'.workers) s'.threads,
        restless r s'.shared s'.threads) <
      toLex (census (Frame.work s.shared.backends.length s.workers) s.threads,
        restless r s.shared s.threads)) : s'.rank r < s.rank r := by
  rcases h.lt_or_eq with hclient | hsame
  · exact rank_lt_of_client hclient
  · exact Prod.Lex.toLex_lt_toLex.mpr (.inr ⟨hsame, hlt⟩)

/-- Nobody is woken unasked: threads take steps, and client code does so by choices that are
asked for. -/
def Asked (asked : ℕ → κ → Prop) (s : MachineState σ κ τ ν) : Action κ → Prop
  | .step i n => ∀ code rest, s.threads[i]? = some (.client code :: rest) → asked n code
  | _ => False

/-- The points of a state around the top of one stack. -/
theorem soup_split {f : Frame κ τ ν} (hi : s.threads[i]? = some (f :: rest)) :
    s.soup = f.points + (s.shared.points + census Frame.points (s.threads.set i rest)) := by
  have hold : census Frame.points s.threads = _ := census_split Frame.points [f] rest hi
  rw [MachineState.soup, hold, weight_cons, weight_nil]
  abel

/-- The points of a state after the top of one stack was replaced. -/
theorem soup_replace {st : List (Frame κ τ ν)} (hi : s.threads[i]? = some st)
    (fs rest : List (Frame κ τ ν)) :
    ({ s with shared := sh', threads := s.threads.set i (fs ++ rest) } :
        MachineState σ κ τ ν).soup =
      weight Frame.points fs +
        (sh'.points + census Frame.points (s.threads.set i rest)) := by
  rw [MachineState.soup, census_replace Frame.points hi fs rest]
  abel

/-- Returning an outcome takes the executor less than a step of the frame above. -/
theorem Frame.work_resume (C : Client σ κ τ ν) (nb w : ℕ) (f : Frame κ τ ν) (o : Outcome τ) :
    weight (Frame.work nb w) (f.resume C o) < 1 + f.work nb w := by
  unfold Frame.resume
  split <;> simp

/-- **Returning an outcome** decreases the rank. -/
theorem rank_resume (hd : Drains C K I asked r) {o : Outcome τ}
    (hi : s.threads[i]? = some (.ret o :: f :: rest))
    (hk : Keeps K s.shared.client (.ret o :: f :: rest)) :
    ({ s with threads := s.threads.set i (f.resume C o ++ rest) } :
      MachineState σ κ τ ν).rank r < s.rank r := by
  have hold : s.soup = (Frame.ret o : Frame κ τ ν).points + f.points +
      (s.shared.points + census Frame.points (s.threads.set i rest)) := by
    have hsplit : census Frame.points s.threads = _ := census_split Frame.points [.ret o, f] rest hi
    rw [MachineState.soup, hsplit]
    simp only [weight_cons, weight_nil]
    abel
  refine rank_lt_of_executor ?_ (Prod.Lex.toLex_lt_toLex.mpr (.inl ?_))
  · rw [soup_replace hi, hold]
    by_cases hf : ∃ code, f = .client code
    · obtain ⟨code, rfl⟩ := hf
      rcases hk.returned with ⟨task, rfl, hs⟩ | ⟨result, rfl, hr⟩
      · exact (hd.refused hs).total_le _
      · simpa [Frame.resume, Outcome.result] using (hd.returned hr).total_le _
    · simp only [not_exists] at hf
      rw [Frame.points_resume hf]
      cases o with
      | call result => simp
      | refused error task =>
          obtain ⟨code, rest', hrest⟩ := hk.refusedTo
          simp only [List.cons.injEq] at hrest
          exact (hf _ hrest.1).elim
  · change census (Frame.work s.shared.backends.length s.workers) (s.threads.set i _) <
      census (Frame.work s.shared.backends.length s.workers) s.threads
    have hret : (Frame.ret o : Frame κ τ ν).work s.shared.backends.length s.workers = 1 := rfl
    have hlt := Frame.work_resume C s.shared.backends.length s.workers f o
    rw [census_replace _ hi, census_split _ [.ret o, f] rest hi, weight_cons, weight_cons,
      weight_nil, hret]
    omega

/-- **A step of client code** decreases the rank. -/
theorem rank_client (hd : Drains C K I asked r) {code : κ} {n : ℕ} {m : σ} {act : ClientAct κ τ}
    (hi : s.threads[i]? = some (.client code :: rest)) (hasked : asked n code)
    (h : C.step i n s.shared.client code = some (m, act)) :
    ({ s with
      shared := { s.shared with client := m }
      threads := s.threads.set i (callFrames act ++ rest) } : MachineState σ κ τ ν).rank r <
        s.rank r := by
  have hpoints : ({ s.shared with client := m } : Shared σ τ).points =
      (s.shared.points : Soup κ τ ν) := rfl
  rcases hd.step hasked h with hdrops | ⟨next, rfl, hkeeps, hlt, hothers⟩
  · refine rank_lt_of_client ?_
    rw [soup_replace hi, soup_split hi, weight_callFrames, hpoints]
    exact hdrops.total_lt _
  · refine rank_lt_of_executor ?_ (Prod.Lex.toLex_lt_toLex.mpr (.inr ⟨?_, ?_⟩))
    · rw [soup_replace hi, soup_split hi, weight_callFrames, hpoints]
      exact hkeeps.total_le _
    · rw [census_replace _ hi, census_split _ [.client code] rest hi]
      simp [callFrames]
    · exact restless_lt hi hlt fun k hk =>
        Shared.waits_mono (hothers k hk) id fun _ rt hrt => ⟨rt, hrt, id⟩

/-- **A step of a frame of the executor** decreases the rank. -/
theorem rank_frame {f : Frame κ τ ν} (hi : s.threads[i]? = some (f :: rest))
    (hlen : sh.backends.length = s.shared.backends.length)
    (h : Spends r s.shared.backends.length s.workers i s.shared sh rest f fs
      (census Frame.points (s.threads.set i rest))) :
    ({ s with shared := sh, threads := s.threads.set i (fs ++ rest) } :
      MachineState σ κ τ ν).rank r < s.rank r := by
  have hsplit := census_split (Frame.work s.shared.backends.length s.workers) [f] rest hi
  rw [weight_cons, weight_nil, add_zero] at hsplit
  cases h with
  | client h =>
      refine rank_lt_of_client ?_
      rw [soup_replace hi, soup_split hi]
      exact h
  | work hclient h =>
      refine rank_lt_of_executor ?_ (Prod.Lex.toLex_lt_toLex.mpr (.inl ?_))
      · rw [soup_replace hi, soup_split hi]
        exact hclient
      · dsimp only
        rw [hlen, census_replace _ hi, hsplit]
        omega
  | waits hclient hwork h hothers =>
      refine rank_lt_of_executor ?_ (Prod.Lex.toLex_lt_toLex.mpr ?_)
      · rw [soup_replace hi, soup_split hi]
        exact hclient
      · dsimp only
        rw [hlen, census_replace _ hi, hsplit]
        have hlt := restless_lt hi h hothers
        omega

/-- The step of a thread that is in client code. -/
theorem machineStep_client {code : κ} {n : ℕ} (hi : s.threads[i]? = some (.client code :: rest))
    (h : machineStep C s (.step i n) = some s') :
    ∃ m act, C.step i n s.shared.client code = some (m, act) ∧
      s' = { s with
        shared := { s.shared with client := m }
        threads := s.threads.set i (callFrames act ++ rest) } := by
  simp only [machineStep, hi, stepStack, Frame.step, Option.bind_eq_bind, Option.bind_some,
    Option.bind_eq_some_iff, Option.map_eq_some_iff, Option.pure_def, Option.some.injEq] at h
  obtain ⟨_, ⟨_, ⟨⟨m, act⟩, hstep, rfl⟩, rfl⟩, rfl⟩ := h
  exact ⟨m, act, hstep, rfl⟩

/-- **Every step decreases the rank**, unless it wakes somebody unasked. -/
theorem rank_step (hd : Drains C K I asked r) {mem : σ}
    (hr : Lts.Reach (Started mem) (machineStep C) s) (hI : I (s.shared.client, s.soup))
    {a : Action κ} (hasked : Asked asked s a) (hs : machineStep C s a = some s') :
    s'.rank r < s.rank r := by
  have hkept := kept K hr
  cases machineStep_cases hs with
  | @exit i n o hi =>
      have hold : census Frame.points s.threads = _ := census_split Frame.points [.ret o] [] hi
      refine rank_lt_of_executor (le_of_eq ?_) (Prod.Lex.toLex_lt_toLex.mpr (.inl ?_))
      · simp only [MachineState.soup, hold]
        cases o with
        | call result => simp
        | refused error task =>
            obtain ⟨code, rest', hnil⟩ := (hkept _ (List.mem_of_getElem? hi)).refusedTo
            simp at hnil
      · change census (Frame.work s.shared.backends.length s.workers) (s.threads.set i []) <
          census (Frame.work s.shared.backends.length s.workers) s.threads
        have hsplit := census_split (Frame.work s.shared.backends.length s.workers) [.ret o] [] hi
        rw [hsplit]
        simp
  | resume hi => exact rank_resume hd hi (hkept _ (List.mem_of_getElem? hi))
  | @frame i n f rest fs sh hi hf =>
      by_cases hclient : ∃ code, f = .client code
      · obtain ⟨code, rfl⟩ := hclient
        obtain ⟨m, act, hstep, heq⟩ := machineStep_client hi hs
        rw [heq]
        exact rank_client hd hi (hasked code rest hi) hstep
      · simp only [not_exists] at hclient
        rw [soup_split hi] at hI
        exact rank_frame hi hf.length_backends
          (hf.spends hd hclient (workerStack hr _ (List.mem_of_getElem? hi)) _ hI)
  | spawn | register | spurious | release => exact hasked.elim

end Executor

end Braids
