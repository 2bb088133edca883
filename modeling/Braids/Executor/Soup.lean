import Mathlib.Algebra.BigOperators.Group.Multiset.Basic
import Mathlib.Tactic.Abel
import Braids.Executor.Contract
import Braids.Lib.Census

/-!
# The Executor as a Soup of Program Points

For the client, most of what the executor does is bookkeeping: a task wanders from the
submitter to a waiting queue, to the executor queue and to a worker before it runs. What
matters is which program points of the client exist and which of them moves next. The soup
of a state is the multiset of these points, wherever they lie: on the stacks of threads, in
the executor queue, and in the waiting queues of the backends.

`SoupStep` lists what can happen to the soup: a point takes a step of the client, a task
starts to run or to be rejected, a prepare hook starts or is dropped, a call returns.
`soup_step` shows that every step of the machine is one of these. Invariants of a client are
then proved against a dozen cases that speak of the client only.

## Main results

* `soup_step`: every step of the machine is a step of the soup.
* `soup_invariant`: what every step of the soup keeps holds in every reachable state.
-/

namespace Braids

open Census

variable {σ κ τ ν : Type}

/-- A program point of the client, or what will become one. -/
inductive Point (κ τ ν : Type)
  | code (code : κ)
  /-- A submitted task that has not started to run. -/
  | task (task : τ)
  /-- A scheduled task that has neither started to run nor to be rejected. -/
  | scheduled (task : τ)
  | rejecting (code : ν)
  /-- A hook that waits for its prepare permit. -/
  | hook (code : κ)

/-- The program points that a client is at. -/
abbrev Soup (κ τ ν : Type) := Multiset (Point κ τ ν)

/-- The points of a task that waits for a lane. -/
def Scheduled.points (task : Scheduled τ) : Soup κ τ ν := {.scheduled task.closure}

/-- The points of a task in the executor queue. -/
def Runnable.points : Runnable τ → Soup κ τ ν
  | .plain task => {.task task}
  | .wrapped _ task => task.points

/-- The points of a frame. -/
def Frame.points : Frame κ τ ν → Soup κ τ ν
  | .client code => {.code code}
  | .rejecting code => {.rejecting code}
  | .submitLoad task | .submitPush task => task.points
  | .schedule _ task => {.scheduled task}
  | .ret (.refused _ task) => {.task task}
  | .submitReady _ task | .wrappedReject _ task _ => task.points
  | .backendReject _ tasks => weight Scheduled.points tasks
  | .acquirePrepare _ hook | .acquireParked _ hook => {.hook hook}
  | _ => 0

/-- The points of what client code does next. -/
def ClientAct.points : ClientAct κ τ → Soup κ τ ν
  | .goto code | .shutdown code => {.code code}
  | .submit task code => {.task task, .code code}
  | .schedule _ task code => {.scheduled task, .code code}
  | .prepare _ hook code => {.hook hook, .code code}
  | .ret _ => 0

/-- The points in the queues of the executor and of the backends. -/
def Shared.points (sh : Shared σ τ) : Soup κ τ ν :=
  weight Runnable.points sh.queue + census Scheduled.points (sh.backends.map (·.waiting))

/-- The points of a state. -/
def MachineState.soup (s : MachineState σ κ τ ν) : Soup κ τ ν :=
  census Frame.points s.threads + s.shared.points

attribute [simp] Runnable.points Scheduled.points Frame.points ClientAct.points

/-- The memory of the client and the points it is at. -/
abbrev SoupView (σ κ τ ν : Type) := σ × Soup κ τ ν

/-- What one step of the machine is to the client, where only some calls are new ones. -/
inductive SoupStepBy {C : Client σ κ τ ν} (K : Contract C) (new : κ → Prop) :
    SoupView σ κ τ ν → SoupView σ κ τ ν → Prop
  | idle {v : SoupView σ κ τ ν} : SoupStepBy K new v v
  | step {m m' : σ} {code : κ} {act : ClientAct κ τ} {i n : ℕ} {R : Soup κ τ ν}
      (h : C.step i n m code = some (m', act)) :
      SoupStepBy K new (m, .code code ::ₘ R) (m', act.points + R)
  | rejectOn {m m' : σ} {code next : ν} {R : Soup κ τ ν}
      (h : C.rejectStep m code = (m', some next)) :
      SoupStepBy K new (m, .rejecting code ::ₘ R) (m', .rejecting next ::ₘ R)
  | rejectDone {m m' : σ} {code : ν} {R : Soup κ τ ν} (h : C.rejectStep m code = (m', none)) :
      SoupStepBy K new (m, .rejecting code ::ₘ R) (m', R)
  | run {m : σ} {task : τ} {R : Soup κ τ ν} :
      SoupStepBy K new (m, .task task ::ₘ R) (m, .code (C.run task) ::ₘ R)
  | runScheduled {m : σ} {task : τ} {R : Soup κ τ ν} :
      SoupStepBy K new (m, .scheduled task ::ₘ R) (m, .code (C.run task) ::ₘ R)
  | reject {m : σ} {task : τ} {R : Soup κ τ ν} :
      SoupStepBy K new (m, .scheduled task ::ₘ R)
        (m, .rejecting (C.reject task .executorShutdown) ::ₘ R)
  | hookRun {m : σ} {hook : κ} {R : Soup κ τ ν} :
      SoupStepBy K new (m, .hook hook ::ₘ R) (m, .code hook ::ₘ R)
  | hookDrop {m : σ} {hook : κ} {R : Soup κ τ ν} : SoupStepBy K new (m, .hook hook ::ₘ R) (m, R)
  | refused {m : σ} {task : τ} {code : κ} {R : Soup κ τ ν} (h : K.Submits code task) :
      SoupStepBy K new (m, .task task ::ₘ .code code ::ₘ R)
        (m, .code (C.resume code (.err .executorShutdown)) ::ₘ R)
  | returned {m : σ} {code : κ} {r : CallResult} {R : Soup κ τ ν} (h : K.Returns m code r) :
      SoupStepBy K new (m, .code code ::ₘ R) (m, .code (C.resume code r) ::ₘ R)
  | spawn {m : σ} {code : κ} {R : Soup κ τ ν} (h : new code) :
      SoupStepBy K new (m, R) (m, .code code ::ₘ R)

/-- What one step of the machine is to the client. -/
abbrev SoupStep {C : Client σ κ τ ν} (K : Contract C) :
    SoupView σ κ τ ν → SoupView σ κ τ ν → Prop :=
  SoupStepBy K fun code => C.entry code = true

/-! ### The points of the queues -/

section Queues

variable {sh : Shared σ τ} {b : BackendId} {rt rt' : BackendRuntime τ}

/-- The queued points around a write to one backend. -/
theorem Shared.points_setBackend (hb : sh.backends[b]? = some rt) (rt' : BackendRuntime τ) :
    (sh.setBackend b rt').points + weight Scheduled.points rt.waiting =
      (sh.points + weight Scheduled.points rt'.waiting : Soup κ τ ν) := by
  have hw : (sh.backends.map (·.waiting))[b]? = some rt.waiting := by simp [hb]
  have hset := census_set (Scheduled.points (κ := κ) (ν := ν)) hw rt'.waiting
  simp only [Shared.points, Shared.setBackend, List.map_set]
  rw [add_assoc, hset, add_assoc]

/-- A write that keeps the waiting tasks keeps the queued points. -/
theorem Shared.points_setBackend_same (hb : sh.backends[b]? = some rt)
    (hw : rt'.waiting = rt.waiting) :
    (sh.setBackend b rt').points = (sh.points : Soup κ τ ν) := by
  have h := Shared.points_setBackend (κ := κ) (ν := ν) hb rt'
  rw [hw] at h
  exact add_right_cancel h

/-- A task joins the waiting tasks. -/
theorem Shared.points_enqueue (hb : sh.backends[b]? = some rt) {task : Scheduled τ}
    (hw : rt'.waiting = rt.waiting ++ [task]) :
    (sh.setBackend b rt').points = (sh.points + task.points : Soup κ τ ν) := by
  have h := Shared.points_setBackend (κ := κ) (ν := ν) hb rt'
  rw [hw, weight_append, weight_cons, weight_nil, add_zero, add_comm (weight _ _),
    ← add_assoc] at h
  exact add_right_cancel h

/-- A task leaves the waiting tasks. -/
theorem Shared.points_dequeue (hb : sh.backends[b]? = some rt) {task : Scheduled τ}
    (hw : rt.waiting = task :: rt'.waiting) :
    (sh.setBackend b rt').points + task.points = (sh.points : Soup κ τ ν) := by
  have h := Shared.points_setBackend (κ := κ) (ν := ν) hb rt'
  rw [hw, weight_cons, ← add_assoc] at h
  exact add_right_cancel h

/-- All tasks leave the waiting tasks. -/
theorem Shared.points_drain (hb : sh.backends[b]? = some rt) (hw : rt'.waiting = []) :
    (sh.setBackend b rt').points + weight Scheduled.points rt.waiting =
      (sh.points : Soup κ τ ν) := by
  rw [Shared.points_setBackend hb rt', hw, weight_nil, add_zero]

/-- A task leaves the executor queue. -/
theorem Shared.points_pop {task : Runnable τ} {queue : List (Runnable τ)}
    (h : sh.queue = task :: queue) :
    (sh.points : Soup κ τ ν) =
      task.points + { sh with queue := queue, queueLocked := false }.points := by
  simp only [Shared.points, h, weight_cons, add_assoc]

/-- Invoking a side of a task leaves the queues alone. -/
theorem Shared.points_settled (task : Scheduled τ) (side : Side) :
    (sh.settled b task side).points = (sh.points : Soup κ τ ν) := by
  rw [Shared.settled]
  split
  · next rt hb => exact Shared.points_setBackend_same hb rfl
  · rfl

end Queues

/-! ### Points of frames -/

/-- A point of a list is a point of one of its entries. -/
theorem mem_weight {F α : Type*} {w : F → Multiset α} {fs : List F} {p : α} :
    p ∈ weight w fs ↔ ∃ f ∈ fs, p ∈ w f := by
  induction fs with
  | nil => simp
  | cons f fs ih => simp [ih]

/-- A point of the threads is a point of a frame. -/
theorem mem_census {F α : Type*} {w : F → Multiset α} {threads : List (List F)} {p : α} :
    p ∈ census w threads ↔ ∃ st ∈ threads, ∃ f ∈ st, p ∈ w f := by
  induction threads with
  | nil => simp
  | cons st threads ih => simp [ih, mem_weight]

/-- Only client code has client code as its point. -/
theorem Frame.code_mem_points {f : Frame κ τ ν} {code : κ} (h : .code code ∈ f.points) :
    f = .client code := by
  cases f with
  | client c => simpa [eq_comm] using h
  | submitLoad t | submitPush t => cases t <;> simp at h
  | wrappedReject | submitReady => simp at h
  | ret o => cases o <;> simp at h
  | backendReject b tasks =>
      obtain ⟨t, -, ht⟩ := mem_weight.mp h
      simp at ht
  | _ => simp at h

/-- Client code among the points is on a stack. -/
theorem client_of_mem_soup {s : MachineState σ κ τ ν} {code : κ} (h : .code code ∈ s.soup) :
    ∃ st ∈ s.threads, .client code ∈ st := by
  rcases Multiset.mem_add.mp h with hmem | hmem
  · obtain ⟨st, hst, f, hf, hp⟩ := mem_census.mp hmem
    exact ⟨st, hst, Frame.code_mem_points hp ▸ hf⟩
  · rcases Multiset.mem_add.mp hmem with hmem | hmem
    · obtain ⟨t, -, ht⟩ := mem_weight.mp hmem
      cases t <;> simp at ht
    · obtain ⟨_, -, t, -, ht⟩ := mem_census.mp hmem
      simp at ht

/-! ### Every step is a step of the soup -/

section Abstraction

variable {C : Client σ κ τ ν} {K : Contract C} {new : κ → Prop}

/-- A step that moves points around. -/
theorem SoupStepBy.of_eq {m m' : σ} {P P' : Soup κ τ ν} (hm : m' = m) (hP : P' = P) :
    SoupStepBy K new (m, P) (m', P') := by
  subst hm hP
  exact .idle

/-- The same step with the points listed in another order. -/
theorem SoupStepBy.cast {m m' : σ} {P P' Q Q' : Soup κ τ ν}
    (h : SoupStepBy K new (m, P) (m', P')) (hP : Q = P) (hP' : Q' = P') :
    SoupStepBy K new (m, Q) (m', Q') := by
  subst hP hP'
  exact h

/-- What client code asks for lies on its stack. -/
theorem weight_callFrames (act : ClientAct κ τ) :
    weight Frame.points (callFrames act : List (Frame κ τ ν)) = act.points := by
  cases act <;> simp [callFrames]

/-- **A step of a frame** is a step of the soup. -/
theorem FrameStep.soup {sh sh' : Shared σ τ} {w : ℕ} {e : ThreadId → Bool} {i : ThreadId}
    {f : Frame κ τ ν} {fs rest : List (Frame κ τ ν)} (h : FrameStep C sh w e i f sh' fs)
    (hst : Keeps K sh.client (f :: rest)) (R : Soup κ τ ν) :
    SoupStepBy K new (sh.client, f.points + (sh.points + R))
      (sh'.client, weight Frame.points fs + (sh'.points + R)) := by
  cases h with
  | client h =>
      rw [weight_callFrames]
      exact .step h
  | rejectOn h => exact .rejectOn h
  | rejectDone h =>
      simp only [weight_cons, weight_nil, Frame.points, zero_add]
      exact .rejectDone h
  | wrappedReject =>
      obtain rfl := hst.wrappedReject
      simp only [Shared.settled_client, Shared.points_settled]
      exact .reject
  | @rejectDrained b task drained =>
      simp only [Shared.settled_client, Shared.points_settled, Frame.points, weight_cons,
        weight_nil, Scheduled.points, add_zero, add_assoc]
      exact .reject
  | @popPlain task queue h =>
      rw [Shared.points_pop h]
      simp only [weight_cons, weight_nil, Frame.points, zero_add, add_zero, add_assoc]
      exact .run
  | @popWrapped b task queue h =>
      rw [Shared.points_pop h]
      simp only [Shared.settled_client, Shared.points_settled, weight_cons, weight_nil,
        Frame.points, zero_add, add_zero, add_assoc]
      exact .runScheduled
  | prepareRefused =>
      simp only [weight_cons, weight_nil, Frame.points, zero_add]
      exact .hookDrop
  | permit hb =>
      rw [Shared.points_setBackend_same hb]
      · exact .hookRun
      · rfl
  | @submitRefused task => cases task <;> exact .of_eq rfl (by simp [refuse])
  | submitPush =>
      refine .of_eq rfl ?_
      simp only [Shared.points, weight_append, weight_cons, weight_nil, Frame.points]
      abel
  | grant hb hs =>
      obtain ⟨-, rfl, rfl⟩ := BackendRuntime.schedule_some hs
      refine .of_eq rfl ?_
      rw [Shared.points_setBackend_same hb]
      · simp
      · rfl
  | @enqueue b closure rt rt' hb hs =>
      obtain ⟨-, hrt⟩ := BackendRuntime.schedule_none hs
      have hw : rt'.waiting = rt.waiting ++ [⟨rt.admitted, closure⟩] := by rw [hrt]
      refine .of_eq rfl ?_
      rw [Shared.points_enqueue hb hw]
      simp only [weight_cons, weight_nil, Frame.points, Scheduled.points]
      abel
  | @handOver b rt rt' task hb hs =>
      obtain ⟨waiting, hw, hrt⟩ := BackendRuntime.finishLane_some hs
      have hw' : rt.waiting = task :: rt'.waiting := by rw [hw, hrt]
      refine .of_eq rfl ?_
      rw [← Shared.points_dequeue hb hw']
      simp only [weight_cons, weight_nil, Frame.points, Scheduled.points]
      abel
  | @permitHandOver b r rt rt' task hb hs =>
      obtain ⟨waiting, hw, hrt⟩ := BackendRuntime.finishPrepare_some hs
      have hw' : rt.waiting = task :: rt'.waiting := by rw [hw, hrt]
      refine .of_eq rfl ?_
      rw [← Shared.points_dequeue hb hw']
      simp only [weight_cons, weight_nil, Frame.points, Scheduled.points]
      abel
  | free hb hs =>
      obtain ⟨-, rfl⟩ := BackendRuntime.finishLane_none hs
      refine .of_eq rfl ?_
      rw [Shared.points_setBackend_same hb]
      · simp
      · rfl
  | permitFree hb hs =>
      obtain ⟨-, rfl⟩ := BackendRuntime.finishPrepare_none hs
      refine .of_eq rfl ?_
      rw [Shared.points_setBackend_same hb]
      · simp
      · rfl
  | @drain b rt hb =>
      refine .of_eq rfl ?_
      have hw : rt.drain.1.waiting = [] := rfl
      rw [← Shared.points_drain hb hw]
      simp only [weight_cons, weight_nil, Frame.points]
      abel
  | notifyPrepare hb | close hb | park hb =>
      refine .of_eq rfl ?_
      rw [Shared.points_setBackend_same hb]
      · simp
      · rfl
  | _ => exact .of_eq rfl (by simp [Shared.points])

/-- A frame that is no client code receives an outcome without a trace in the soup. -/
theorem Frame.points_resume {f : Frame κ τ ν} (hf : ∀ code, f ≠ .client code) (o : Outcome τ) :
    weight Frame.points (f.resume C o) = f.points := by
  cases f with
  | client code => exact (hf code rfl).elim
  | _ =>
      unfold Frame.resume
      split <;> simp_all

/-- **Returning an outcome** is a step of the soup. -/
theorem Keeps.soup_resume {m : σ} {o : Outcome τ} {f : Frame κ τ ν}
    {rest : List (Frame κ τ ν)} (hst : Keeps K m (.ret o :: f :: rest)) (R : Soup κ τ ν) :
    SoupStepBy K new (m, (Frame.ret o : Frame κ τ ν).points + (f.points + R))
      (m, weight Frame.points (f.resume C o) + R) := by
  by_cases hf : ∃ code, f = .client code
  · obtain ⟨code, rfl⟩ := hf
    rcases hst.returned with ⟨task, rfl, hs⟩ | ⟨r, rfl, hr⟩
    · exact .refused hs
    · simp only [Frame.points, zero_add]
      exact .returned hr
  · simp only [not_exists] at hf
    rw [Frame.points_resume hf]
    cases o with
    | call r => exact .of_eq rfl (by simp)
    | refused e task =>
        obtain ⟨code, rest', hrest⟩ := hst.refusedTo
        simp only [List.cons.injEq] at hrest
        exact (hf _ hrest.1).elim

/-- **Every step of the machine is a step of the soup**, in which only the action makes a new
call. -/
theorem soup_step_by {mem : σ} {s s' : MachineState σ κ τ ν} {a : Action κ}
    (hr : Lts.Reach (Started mem) (machineStep C) s) (h : machineStep C s a = some s') :
    SoupStepBy K (fun code => a = .spawn code ∧ C.entry code = true)
      (s.shared.client, s.soup) (s'.shared.client, s'.soup) := by
  have hkept := kept K hr
  cases machineStep_cases h with
  | @exit i c o hi =>
      have hstack := hkept _ (List.mem_of_getElem? hi)
      have hold : census Frame.points s.threads = _ := census_split Frame.points [.ret o] [] hi
      refine .of_eq rfl ?_
      simp only [MachineState.soup, hold]
      cases o with
      | call r => simp
      | refused e task =>
          obtain ⟨code, rest', hnil⟩ := hstack.refusedTo
          simp at hnil
  | @resume i c o f rest hi =>
      have hstack := hkept _ (List.mem_of_getElem? hi)
      have hold : census Frame.points s.threads = _ := census_split Frame.points [.ret o, f] rest hi
      have hnew := census_replace Frame.points hi (f.resume C o) rest
      simp only [MachineState.soup, hold, hnew]
      refine .cast (hstack.soup_resume
        (census Frame.points (s.threads.set i rest) + s.shared.points)) ?_ ?_
      · simp only [weight_cons, weight_nil]
        abel
      · abel
  | @frame i c f rest fs sh hi hf =>
      have hstack := hkept _ (List.mem_of_getElem? hi)
      have hold : census Frame.points s.threads = _ := census_split Frame.points [f] rest hi
      have hnew := census_replace Frame.points hi fs rest
      simp only [MachineState.soup, hold, hnew]
      refine .cast (hf.soup hstack (census Frame.points (s.threads.set i rest))) ?_ ?_
      · simp only [weight_cons, weight_nil]
        abel
      · abel
  | @spawn code he =>
      refine .cast (.spawn ⟨rfl, he⟩) rfl ?_
      simp only [MachineState.soup, census_append, weight_cons, weight_nil, Frame.points,
        add_zero, ← Multiset.singleton_add]
      abel
  | @register lanes prepares =>
      refine .of_eq rfl ?_
      simp [MachineState.soup, Shared.points, BackendRuntime.register]
  | @spurious t =>
      refine .of_eq rfl ?_
      simp [MachineState.soup, Shared.points, BackendRuntime.unpark, Function.comp_def]
  | release => exact .of_eq rfl rfl

/-- Fewer calls are new ones. -/
theorem SoupStepBy.mono {new' : κ → Prop} (hnew : ∀ code, new code → new' code)
    {v v' : SoupView σ κ τ ν} (h : SoupStepBy K new v v') : SoupStepBy K new' v v' := by
  cases h with
  | idle => exact .idle
  | step h => exact .step h
  | rejectOn h => exact .rejectOn h
  | rejectDone h => exact .rejectDone h
  | run => exact .run
  | runScheduled => exact .runScheduled
  | reject => exact .reject
  | hookRun => exact .hookRun
  | hookDrop => exact .hookDrop
  | refused h => exact .refused h
  | returned h => exact .returned h
  | spawn h => exact .spawn (hnew _ h)

/-- **Every step of the machine is a step of the soup.** -/
theorem soup_step {mem : σ} {s s' : MachineState σ κ τ ν} {a : Action κ}
    (hr : Lts.Reach (Started mem) (machineStep C) s) (h : machineStep C s a = some s') :
    SoupStep K (s.shared.client, s.soup) (s'.shared.client, s'.soup) :=
  (soup_step_by hr h).mono fun _ hnew => hnew.2

/-- Before anything has happened no point exists. -/
theorem soup_start (mem : σ) (workerCount : ℕ) :
    (MachineState.start mem workerCount : MachineState σ κ τ ν).soup = 0 := by
  have hworkers : ∀ n, census Frame.points
      (List.replicate n [(Frame.workerLock : Frame κ τ ν)]) = 0 := by
    intro n
    induction n with
    | zero => rfl
    | succ n ih => simp [List.replicate_succ, ih]
  simp [MachineState.soup, MachineState.start, Shared.points, hworkers]

/-- **The soup rule.** What holds of the initial memory and is kept by every step of the soup
holds in every reachable state. -/
theorem soup_invariant (K : Contract C) {mem : σ} {P : SoupView σ κ τ ν → Prop}
    (h0 : P (mem, 0)) (hstep : ∀ v v', P v → SoupStep K v v' → P v')
    {s : MachineState σ κ τ ν} (h : Lts.Reach (Started mem) (machineStep C) s) :
    P (s.shared.client, s.soup) := by
  refine h.view (P := P) (R := SoupStep K)
    (fun s a s' hr _ hs => soup_step (K := K) hr hs) ?_ hstep
  rintro s ⟨n, rfl⟩
  rw [soup_start]
  exact h0

end Abstraction

end Braids
