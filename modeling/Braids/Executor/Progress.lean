import Braids.Executor.Contract
import Braids.Executor.Loop
import Braids.Executor.Prepares
import Braids.Executor.Wakeups

/-!
# The Executor Does Not Get Stuck

When no thread can take a step and the executor is not shutting down, nobody waits for the
executor: the workers are parked, nothing is queued, every lane is free, and nobody waits for
a permit. What is left are calls that wait for the client's own memory.

`CallCode` lists what has to be known of the client: its tasks catch their panics and prepare
nothing, and its prepare hooks call nobody. That tasks and hooks are never blocked is asked of
the state alone.

## Main results

* `Sitting`: what lies below client code and below the callers of `acquire_prepare`.
* `worker_stays`: the first worker is there until the executor shuts down.
* `Stuck.resting`: a state in which no thread can take a step is at rest.
-/

namespace Braids

open Census

variable {σ κ τ ν : Type}

namespace Frame

/-- The frame waits for the one above it, and is never on top. -/
def passive : Frame κ τ ν → Bool
  | .returning _ | .finishLaneCheck _ | .permitHeld _ | .finishPrepareCheck _ _ => true
  | _ => false

/-- The backend that the frame of a caller asks for. -/
def asks : Frame κ τ ν → Option BackendId
  | .schedule b _ | .acquirePrepare b _ | .acquireParked b _ => some b
  | _ => none

/-- One if the frame of a caller asks for another backend than `home`. -/
def strays (home : BackendId) : Frame κ τ ν → ℕ
  | .schedule b _ | .acquirePrepare b _ | .acquireParked b _ => if b = home then 0 else 1
  | _ => 0

end Frame

attribute [simp] Frame.passive Frame.asks Frame.strays

/-- What is known of the code of tasks and of prepare hooks. -/
structure CallCode (C : Client σ κ τ ν) (task isHook : κ → Bool) : Prop extends
    TaskCode C task where
  prepares : ∀ {i n mem mem' code b next after},
    C.step i n mem code = some (mem', .prepare b next after) →
      isHook code = false ∧ isHook next = true
  /-- A hook goes on or returns. -/
  hooks : ∀ {i n mem mem' code act}, isHook code = true →
    C.step i n mem code = some (mem', act) →
      (∃ next, act = .goto next ∧ isHook next = true) ∨ ∃ r, act = .ret r
  hook_resume : ∀ {code r}, isHook code = true → isHook (C.resume code r) = true

section Shape

variable {C : Client σ κ τ ν} {task isHook : κ → Bool} {sh sh' : Shared σ τ} {w : ℕ}
  {e : ThreadId → Bool} {i : ThreadId} {f : Frame κ τ ν} {fs rest : List (Frame κ τ ν)}
  {s s' : MachineState σ κ τ ν}

/-! ### What lies below a frame -/

/-- What lies below the frame if it is of a client or waits for a permit. -/
def Frame.Sits (task isHook : κ → Bool) (rest : List (Frame κ τ ν)) : Frame κ τ ν → Prop
  | .client code => task code = true ∨ rest = [] ∨
      (isHook code = true ∧ ∃ b caller, rest = [.permitHeld b, .client caller])
  | .acquirePrepare _ next | .acquireParked _ next =>
      isHook next = true ∧ ∃ caller, rest = [.client caller]
  | .permitHeld _ => ∃ caller, rest = [.client caller]
  | _ => True

/-- Every frame of the stack sits on what belongs below it. -/
def Sitting (task isHook : κ → Bool) : List (Frame κ τ ν) → Prop
  | [] => True
  | f :: rest => f.Sits task isHook rest ∧ Sitting task isHook rest

/-- What client code asks for sits where the client code sat. -/
theorem CallCode.sitting (hc : CallCode C task isHook) {n : ℕ} {mem mem' : σ} {code : κ}
    {act : ClientAct κ τ} (h : C.step i n mem code = some (mem', act))
    (hst : Sitting task isHook (.client code :: rest)) :
    Sitting task isHook (callFrames act ++ rest) := by
  obtain ⟨hcode, hrest⟩ := hst
  -- a call is made by a task or by a thread of its own, never by a hook
  have hcall : ∀ next, act.next? = some next → (∀ next, act ≠ .goto next) →
      (Frame.client next : Frame κ τ ν).Sits task isHook rest := by
    intro next hnext hgoto
    rcases hcode with htask | hnil | ⟨hhook, -⟩
    · exact .inl (hc.next h next hnext ▸ htask)
    · exact .inr (.inl hnil)
    · rcases hc.hooks hhook h with ⟨next', hact, -⟩ | ⟨r, rfl⟩
      · exact (hgoto next' hact).elim
      · simp [ClientAct.next?] at hnext
  cases act with
  | goto next =>
      refine ⟨?_, hrest⟩
      rcases hcode with htask | hnil | ⟨hhook, hbelow⟩
      · exact .inl (hc.next h next rfl ▸ htask)
      · exact .inr (.inl hnil)
      · rcases hc.hooks hhook h with ⟨next', hact, hnext⟩ | ⟨r, hact⟩
        · obtain rfl : next = next' := by simpa using hact
          exact .inr (.inr ⟨hnext, hbelow⟩)
        · simp at hact
  | submit t next => exact ⟨trivial, hcall next rfl (by simp), hrest⟩
  | schedule b t next => exact ⟨trivial, hcall next rfl (by simp), hrest⟩
  | shutdown next => exact ⟨trivial, hcall next rfl (by simp), hrest⟩
  | prepare b next after =>
      obtain ⟨hcaller, hnext⟩ := hc.prepares h
      have hnil : rest = [] := by
        rcases hcode with htask | hnil | ⟨hhook, -⟩
        · simp [(hc.hook h).1] at htask
        · exact hnil
        · simp [hcaller] at hhook
      subst hnil
      exact ⟨⟨hnext, _, rfl⟩, hcall after rfl (by simp), trivial⟩
  | ret r => exact ⟨trivial, hrest⟩

/-- A step of the top frame leaves everything where it belongs. -/
theorem FrameStep.sitting (hc : CallCode C task isHook) (h : FrameStep C sh w e i f sh' fs)
    (hst : Sitting task isHook (f :: rest)) : Sitting task isHook (fs ++ rest) := by
  have hrest := hst.2
  cases h with
  | client h => exact hc.sitting h hst
  | popPlain => exact ⟨.inl (hc.run _), trivial, hrest⟩
  | popWrapped => exact ⟨.inl (hc.run _), trivial, trivial, hrest⟩
  | @submitRefused t =>
      cases t with
      | plain => exact ⟨trivial, hrest⟩
      | wrapped => exact ⟨trivial, trivial, hrest⟩
  | permit =>
      obtain ⟨hnext, caller, rfl⟩ := hst.1
      exact ⟨.inr (.inr ⟨hnext, _, _, rfl⟩), ⟨_, rfl⟩, hrest⟩
  | park | unparked => exact ⟨hst.1, hrest⟩
  | exit => exact hrest
  | wrappedReject | handOver | permitHandOver | permitFree | rejectDrained | shutNext
  | submitGone => exact ⟨trivial, trivial, hrest⟩
  | _ => exact ⟨trivial, hrest⟩

/-- Returning an outcome leaves everything where it belongs. -/
theorem Sitting.resume (hc : CallCode C task isHook) {o : Outcome τ}
    (hst : Sitting task isHook (.ret o :: f :: rest)) :
    Sitting task isHook (f.resume C o ++ rest) := by
  obtain ⟨-, hf, hrest⟩ := hst
  unfold Frame.resume
  split
  · refine ⟨?_, hrest⟩
    rcases hf with htask | hnil | ⟨hhook, hbelow⟩
    · exact .inl ((hc.resume _ _).trans htask)
    · exact .inr (.inl hnil)
    · exact .inr (.inr ⟨hc.hook_resume hhook, hbelow⟩)
  · exact ⟨trivial, hrest⟩
  · exact ⟨trivial, hrest⟩
  · exact ⟨trivial, hrest⟩
  · exact ⟨trivial, trivial, hrest⟩
  · exact ⟨trivial, trivial, trivial, hrest⟩
  · exact ⟨trivial, hrest⟩
  · exact hrest
  · exact ⟨hf, hrest⟩

/-- **Every frame sits on what belongs below it**, in every reachable state. -/
theorem sitting (hc : CallCode C task isHook) {mem : σ}
    (h : Lts.Reach (Started mem) (machineStep C) s) :
    ∀ st ∈ s.threads, Sitting task isHook st :=
  stack_invariant (P := Sitting task isHook) trivial ⟨trivial, trivial⟩
    (fun _ _ => ⟨.inr (.inl rfl), trivial⟩) (fun _ _ _ hst => hst.resume hc)
    (fun hf hst => hf.sitting hc hst) h

/-- Who asks for a permit has a hook to run under it. -/
theorem Keeps.acquires {K : Contract C} {m : σ} {b : BackendId} {next : κ}
    (h : Keeps K m (.acquirePrepare b next :: rest)) : ∃ caller, K.Prepares caller next := by
  cases h with
  | fitting h =>
      obtain ⟨caller, _, -, hp⟩ := h.1.above (by simp) (by simp)
      exact ⟨caller, hp⟩

/-! ### What is on top -/

/-- The top frame does not wait for a frame above it. -/
def TopActive (st : List (Frame κ τ ν)) : Prop := ∀ f ∈ st.head?, f.passive = false

/-- The top frame is replaced by one that can go on. -/
theorem FrameStep.topActive (h : FrameStep C sh w e i f sh' fs) (hst : WorkerStack (f :: rest)) :
    TopActive (fs ++ rest) := by
  cases h with
  | @client code choice mem act => cases act <;> simp [TopActive, callFrames]
  | @submitRefused t => cases t <;> simp [TopActive, refuse]
  | exit =>
      obtain rfl := hst.worker_only rfl
      simp [TopActive]
  | _ => simp [TopActive]

/-- The loop of a worker has nothing below. -/
theorem WorkerStack.nil_of_loop {o : Outcome τ}
    (hst : WorkerStack (.ret o :: .workerLock :: rest)) : rest = [] := by
  generalize hs : (.ret o :: .workerLock :: rest : List (Frame κ τ ν)) = st at hst
  cases hst with
  | none hz =>
      subst hs
      simp at hz
  | outside fs hz =>
      rcases fs with _ | ⟨f, _ | ⟨g, fs⟩⟩ <;>
        simp only [List.nil_append, List.cons_append, List.cons.injEq] at hs
      · simp at hs
      · exact hs.2.2
      · obtain ⟨-, rfl, -⟩ := hs
        simp at hz
  | pop | load | wait | parked => simp at hs

/-- The frame that is returned to goes on. -/
theorem TopActive.resume {o : Outcome τ} (hst : WorkerStack (.ret o :: f :: rest)) :
    TopActive (f.resume C o ++ rest) := by
  cases f with
  | workerLock =>
      obtain rfl := hst.nil_of_loop
      rcases Frame.resume_workerLock (C := C) o with hr | hr <;> simp [hr, TopActive]
  | finishLaneCheck b => obtain (_ | _ | _) | _ := o <;> simp [TopActive, Frame.resume]
  | finishPrepareCheck b r => obtain (_ | _ | _) | _ := o <;> simp [TopActive, Frame.resume]
  | _ => simp [TopActive, Frame.resume]

/-- **The top frame does not wait for a frame above it**, in every reachable state. -/
theorem topActive {mem : σ} (h : Lts.Reach (Started mem) (machineStep C) s) :
    ∀ st ∈ s.threads, TopActive st := by
  have hboth : ∀ st ∈ s.threads, WorkerStack st ∧ TopActive st :=
    stack_invariant (P := fun st => WorkerStack st ∧ TopActive st)
      ⟨.none (by simp), by simp [TopActive]⟩ ⟨.outside [] (by simp), by simp [TopActive]⟩
      (fun _ _ => ⟨.none (by simp), by simp [TopActive]⟩)
      (fun _ _ _ hst => ⟨hst.1.resume, .resume hst.1⟩)
      (fun hf hst => ⟨hf.workerStack hst.1, hf.topActive hst.1⟩) h
  exact fun st hst => (hboth st hst).2

/-! ### Whom callers ask -/

/-- The backend that client code asks for. -/
def ClientAct.asks : ClientAct κ τ → Option BackendId
  | .schedule b _ _ | .prepare b _ _ => some b
  | _ => none

/-- The client asks for one backend only, which its memory names. -/
structure AsksHome (C : Client σ κ τ ν) (home : σ → BackendId) : Prop where
  step : ∀ {i n mem mem' code act}, C.step i n mem code = some (mem', act) →
    home mem' = home mem ∧ ∀ b, act.asks = some b → b = home mem
  reject : ∀ {mem mem' n next}, C.rejectStep mem n = (mem', next) → home mem' = home mem

/-- No step changes which backend the client asks for. -/
theorem AsksHome.frameStep {home : σ → BackendId} (hc : AsksHome C home)
    (h : FrameStep C sh w e i f sh' fs) : home sh'.client = home sh.client := by
  cases h with
  | client h => exact (hc.step h).1
  | rejectOn h | rejectDone h => exact hc.reject h
  | _ => simp

/-- A step of a frame makes no frame that asks for another backend. -/
theorem AsksHome.strays {home : σ → BackendId} (hc : AsksHome C home)
    (h : FrameStep C sh w e i f sh' fs) :
    weight (Frame.strays (home sh.client)) fs ≤ f.strays (home sh.client) := by
  cases h with
  | @client code n mem act h =>
      have hasks := (hc.step h).2
      cases act with
      | schedule b t next | prepare b t next => simp [callFrames, hasks b rfl]
      | _ => simp [callFrames]
  | @submitRefused task => cases task <;> simp [refuse]
  | _ => simp

/-- Returning an outcome makes no frame that asks for a backend. -/
theorem Frame.strays_resume (home : BackendId) (o : Outcome τ) :
    weight (Frame.strays home) (f.resume C o) ≤ f.strays home := by
  unfold Frame.resume
  split <;> simp

/-- **Callers ask for the backend that the client names**, in every reachable state. -/
theorem asks_home {home : σ → BackendId} (hc : AsksHome C home) {mem : σ}
    (h : Lts.Reach (Started mem) (machineStep C) s) :
    ∀ st ∈ s.threads, weight (Frame.strays (home s.shared.client)) st = 0 := by
  refine stack_invariant_of (P := fun m st => weight (Frame.strays (home m)) st = 0)
    (fun _ => rfl) (fun _ => rfl) (fun _ _ _ => by simp) ?_ ?_ ?_ h
  · intro m o f rest hst
    have hle := Frame.strays_resume (C := C) (f := f) (home m) o
    simp only [weight_cons] at hst
    rw [weight_append]
    omega
  · intro sh sh' w e i f fs rest hf hst
    have hle := hc.strays hf
    simp only [weight_cons] at hst
    rw [hc.frameStep hf, weight_append]
    omega
  · intro sh sh' w e i f fs st hf hst
    rwa [hc.frameStep hf]

/-! ### Blocked threads -/

/-- The backends that the frames of callers ask for are registered. -/
def AsksRegistered (s : MachineState σ κ τ ν) : Prop :=
  ∀ st ∈ s.threads, ∀ f ∈ st, ∀ b, f.asks = some b → b < s.shared.backends.length

/-- A client whose backend is registered asks registered backends only. -/
theorem asksRegistered {home : σ → BackendId} (hc : AsksHome C home) {mem : σ}
    (h : Lts.Reach (Started mem) (machineStep C) s)
    (hhome : home s.shared.client < s.shared.backends.length) : AsksRegistered s := by
  intro st hst f hf b hb
  have hzero := List.sum_eq_zero_iff.mp (asks_home hc h st hst) _
    (List.mem_map_of_mem (f := Frame.strays (home s.shared.client)) hf)
  obtain rfl : b = home s.shared.client := by
    cases f <;> simp_all
  exact hhome

/-- A backend that a frame is about is registered. -/
theorem registered_of_mentions {mem : σ} (h : Lts.Reach (Started mem) (machineStep C) s)
    {b : BackendId} {st : List (Frame κ τ ν)} (hst : st ∈ s.threads) (hf : f ∈ st)
    (hm : f.mentions b = 1) : ∃ rt, s.shared.backends[b]? = some rt := by
  refine Option.ne_none_iff_exists'.mp fun hnone => ?_
  have hzero := unmentioned h hnone
  have hone := le_census (w := Frame.mentions b) hst hf
  rw [hm] at hone
  rw [Unmentioned] at hzero
  omega

/-- The backend whose state the step of the frame reads. -/
def Frame.reads : Frame κ τ ν → Option BackendId
  | .schedule b _ | .acquirePrepare b _ | .acquireParked b _ | .finishLane b | .notifyPrepare b
  | .finishPrepare b _ => some b
  | _ => none

/-- What a frame that cannot take a step waits for. -/
inductive Blocked (C : Client σ κ τ ν) (sh : Shared σ τ) (i : ThreadId) : Frame κ τ ν → Prop
  | client {code : κ} (h : C.step i 0 sh.client code = none) : Blocked C sh i (.client code)
  | permit {b : BackendId} {next : κ} {rt : BackendRuntime τ} (hb : sh.backends[b]? = some rt)
      (h : i ∈ rt.prepareWake) : Blocked C sh i (.acquireParked b next)
  | work (h : i ∈ sh.wake) : Blocked C sh i .workerParked

/-- **A frame that cannot take a step** waits for the client's memory, for a permit or for
work, unless the executor shuts down or the queue is locked. -/
theorem Frame.blocked (h : f.step C sh w e i 0 = none) (hlock : sh.queueLocked = false)
    (hclosing : f.closing = 0) (hactive : f.passive = false) (hret : ∀ o, f ≠ .ret o)
    (hreads : ∀ b, f.reads = some b → ∃ rt, sh.backends[b]? = some rt) : Blocked C sh i f := by
  cases f with
  | client code =>
      cases hs : C.step i 0 sh.client code with
      | none => exact .client hs
      | some r => simp [Frame.step, hs] at h
  | acquireParked b next =>
      obtain ⟨rt, hb⟩ := hreads b rfl
      simp only [Frame.step, hb, Option.bind_eq_bind, Option.bind_some] at h
      split at h
      · next hw => exact .permit hb hw
      · simp at h
  | workerParked =>
      simp only [Frame.step, hlock] at h
      split at h
      · next hw => exact .work (by simpa using hw)
      · simp at h
  | ret o => exact (hret o rfl).elim
  | returning | finishLaneCheck | permitHeld | finishPrepareCheck => simp at hactive
  | backendShutdown | backendReject | backendNotify | shutdownCollect | shutdownBackends
  | shutdownNotify | shutdownJoin => simp at hclosing
  | acquirePrepare b =>
      obtain ⟨rt, hb⟩ := hreads b rfl
      simp only [Frame.step, hb, Option.bind_eq_bind, Option.bind_some] at h
      split_ifs at h
  | schedule b | finishLane b | finishPrepare b =>
      obtain ⟨rt, hb⟩ := hreads b rfl
      simp only [Frame.step, hb, Option.bind_eq_bind, Option.bind_some] at h
      split at h <;> simp at h
  | notifyPrepare b =>
      obtain ⟨rt, hb⟩ := hreads b rfl
      simp [Frame.step, hb] at h
  | submitLoad | submitReady | shutdownSwap | workerLoad =>
      simp only [Frame.step] at h
      split_ifs at h
  | workerPop =>
      simp only [Frame.step] at h
      split at h <;> simp at h
  | _ => simp [Frame.step, hlock] at h

/-- A thread that cannot take a step has ended, or its top frame cannot. -/
theorem stepStack_eq_none {st : List (Frame κ τ ν)} (h : stepStack C sh w e i 0 st = none) :
    st = [] ∨ ∃ f rest, st = f :: rest ∧ (∀ o, f ≠ .ret o) ∧ f.step C sh w e i 0 = none := by
  unfold stepStack at h
  split at h
  · exact .inl rfl
  · simp at h
  · simp at h
  · next f rest hone htwo =>
      refine .inr ⟨f, rest, rfl, ?_, Option.map_eq_none_iff.mp h⟩
      rintro o rfl
      cases rest with
      | nil => exact hone o rfl rfl
      | cons g rest => exact htwo o g rest rfl rfl

/-- A worker that has locked the queue can go on. -/
theorem Frame.locksQueue_step (hf : 0 < f.locksQueue) : f.step C sh w e i 0 ≠ none := by
  cases f with
  | workerPop =>
      simp only [Frame.step]
      split <;> simp
  | workerLoad =>
      simp only [Frame.step]
      split <;> simp
  | workerWait => simp [Frame.step]
  | _ => simp at hf

/-- No thread can take a step, unless somebody is woken unasked. -/
def Stuck (C : Client σ κ τ ν) (s : MachineState σ κ τ ν) : Prop :=
  ∀ i, machineStep C s (.step i 0) = none

/-- No thread of a stuck state can take a step. -/
theorem Stuck.stack (h : Stuck C s) {st : List (Frame κ τ ν)} (hi : s.threads[i]? = some st) :
    st = [] ∨ ∃ f rest, st = f :: rest ∧ (∀ o, f ≠ .ret o) ∧
      f.step C s.shared s.workers (fun t => (s.threads[t]?.getD []).isEmpty) i 0 = none := by
  refine stepStack_eq_none ?_
  have hnone := h i
  simp only [machineStep, hi, Option.bind_eq_bind, Option.bind_some,
    Option.bind_eq_none_iff] at hnone
  by_contra hsome
  obtain ⟨r, hr⟩ := Option.ne_none_iff_exists'.mp hsome
  simpa using hnone r hr

/-- Nobody holds the lock of the queue in a stuck state. -/
theorem Stuck.unlocked {mem : σ} (h : Stuck C s)
    (hr : Lts.Reach (Started mem) (machineStep C) s) : s.shared.queueLocked = false := by
  by_contra hlocked
  have hlock : census Frame.locksQueue s.threads = if s.shared.queueLocked then 1 else 0 :=
    (queueServed hr).lock
  rw [if_pos (by simpa using hlocked)] at hlock
  obtain ⟨st, hst, f, hf, hpos⟩ := exists_of_census_pos (hlock ▸ Nat.one_pos)
  obtain ⟨i, hi⟩ := List.getElem?_of_mem hst
  have hshape := workerStack hr st hst
  have honly : st = [f] := by
    cases hshape with
    | none hz =>
        have hzero := List.sum_eq_zero_iff.mp hz _ (List.mem_map_of_mem (f := Frame.worker) hf)
        cases f <;> simp_all
    | outside fs hz =>
        rcases List.mem_append.mp hf with hmem | hmem
        · have hzero := List.sum_eq_zero_iff.mp hz _ (List.mem_map_of_mem (f := Frame.worker) hmem)
          cases f <;> simp_all
        · obtain rfl := List.mem_singleton.mp hmem
          simp at hpos
    | pop | load | wait | parked => rw [List.mem_singleton.mp hf]
  subst honly
  rcases h.stack hi with hnil | ⟨g, rest, heq, -, hnone⟩
  · simp at hnil
  · obtain ⟨rfl, -⟩ := List.cons.inj heq
    exact Frame.locksQueue_step hpos hnone

/-! ### Workers stay -/

/-- **The first worker is there** until the executor shuts down. -/
theorem worker_stays (hc : TaskCode C task) {mem : σ}
    (h : Lts.Reach (Started mem) (machineStep C) s) (hflag : s.shared.shutdown = false) :
    ∃ st, s.threads[0]? = some st ∧ weight Frame.worker st = 1 := by
  revert hflag
  refine h.invariant (I := fun s => s.shared.shutdown = false →
    ∃ st, s.threads[0]? = some st ∧ weight Frame.worker st = 1) ?_ ?_
  · rintro s ⟨n, rfl⟩ -
    exact ⟨[.workerLock], by simp [MachineState.start], by simp⟩
  · intro s a s' hr ih _ hs hflag
    have hbefore : s.shared.shutdown = false := by
      by_contra hset
      have hset : s.shared.shutdown = true := by simpa using hset
      cases machineStep_cases hs with
      | frame hi hf => simp [hf.shutdown_mono hset] at hflag
      | _ => simp [hset] at hflag
    obtain ⟨st, hi, hworker⟩ := ih hbefore
    obtain ⟨st', hi', hone | ⟨-, hset, -⟩⟩ := worker_goes_on hc hr hs hi hworker
    · exact ⟨st', hi', hone⟩
    · simp [hbefore] at hset

/-! ### A stuck state is at rest -/

/-- The promise to the parked callers of `acquire_prepare`, for every backend. -/
theorem preparesWatched {mem : σ} (h : Lts.Reach (Started mem) (machineStep C) s)
    {b : BackendId} {rt : BackendRuntime τ} (hb : s.shared.backends[b]? = some rt) :
    PreparesWatched (laneView b 0 rt s) :=
  (lane_invariant (k := 0) (I := fun v => LanesBalanced v ∧ PreparesWatched v)
    (fun lanes prepares f => ⟨.register lanes prepares f, by
      constructor <;> simp [BackendRuntime.register]⟩)
    (fun _ _ hv hstep => ⟨hv.1.step hstep, hv.2.step hv.1 hstep⟩) h hb).2

/-- Nobody uses the backend or waits for it. -/
structure BackendRuntime.Idle (rt : BackendRuntime τ) : Prop where
  waiting : rt.waiting = []
  lanes : rt.lanesInUse = 0
  prepares : rt.preparesInUse = 0
  prepareWake : rt.prepareWake = []

/-- A backend that nobody uses has room, so nobody waits for it. -/
theorem LanesBalanced.idle {v : LaneView τ} (h : LanesBalanced v) (hwatch : PreparesWatched v)
    (hheld : v.held = 0) (hpermits : v.permits = 0) (hnotifies : v.notifies = 0) :
    v.rt.Idle := by
  have hlanes := h.lanes
  have hprepares := h.prepares
  have hpos := h.prepareLanes_pos
  have hle := h.prepareLanes_le
  have hwaiting : v.rt.waiting = [] := by
    by_contra hne
    have hfull := h.full hne
    omega
  have hroom : v.rt.Admits := ⟨hwaiting, by omega, by omega⟩
  refine ⟨hwaiting, by omega, by omega, ?_⟩
  by_contra hne
  exact hwatch.no_room hne hnotifies hroom

/-- Nothing is left to do for the executor: who has not ended is a parked worker, or a call
that waits for the memory of the client. -/
structure Resting (C : Client σ κ τ ν) (s : MachineState σ κ τ ν) : Prop where
  threads : ∀ i st, s.threads[i]? = some st → st = [] ∨ st = [.workerParked] ∨
    ∃ code, st = [.client code] ∧ C.step i 0 s.shared.client code = none
  queue : s.shared.queue = []
  backends : ∀ (b : BackendId) (rt : BackendRuntime τ), s.shared.backends[b]? = some rt → rt.Idle

/-- The frames that threads of a stuck state have. -/
def Frame.stays : Frame κ τ ν → Bool
  | .client _ | .acquireParked _ _ | .workerParked => true
  | _ => false

/-- They owe nothing to anybody. -/
theorem Frame.owes_nothing_of_stays (hf : f.stays = true) (b : BackendId) :
    f.holds b = 0 ∧ f.permits b = 0 ∧ f.notifies b = 0 ∧ f.notifiesOne = 0 ∧ f.popping = 0 := by
  cases f with
  | client | acquireParked | workerParked => simp
  | _ => simp [Frame.stays] at hf

/-- Tasks and prepare hooks that are on top can take a step. -/
def TasksGoOn (C : Client σ κ τ ν) (task isHook : κ → Bool) (s : MachineState σ κ τ ν) : Prop :=
  ∀ i code rest, s.threads[i]? = some (.client code :: rest) →
    task code = true ∨ isHook code = true → C.step i 0 s.shared.client code ≠ none

/-- **The threads of a stuck state** have ended, are parked, or wait for the client. -/
theorem Stuck.shape (h : Stuck C s) (hc : CallCode C task isHook) {mem : σ}
    (hr : Lts.Reach (Started mem) (machineStep C) s) (hflag : s.shared.shutdown = false)
    (hasks : AsksRegistered s) (hgoes : TasksGoOn C task isHook s) {st : List (Frame κ τ ν)}
    (hi : s.threads[i]? = some st) :
    st = [] ∨ (st = [.workerParked] ∧ i ∈ s.shared.wake) ∨
      (∃ code, st = [.client code] ∧ C.step i 0 s.shared.client code = none) ∨
      ∃ b next caller rt, st = [.acquireParked b next, .client caller] ∧
        s.shared.backends[b]? = some rt ∧ i ∈ rt.prepareWake := by
  have hst := List.mem_of_getElem? hi
  rcases h.stack hi with rfl | ⟨f, rest, rfl, hret, hnone⟩
  · exact .inl rfl
  have hsits := (sitting hc hr _ hst).1
  have hclosing : f.closing = 0 :=
    census_eq_zero_iff.mp (closingFlagged hr hflag) _ hst f List.mem_cons_self
  have hreads : ∀ b, f.reads = some b → ∃ rt, s.shared.backends[b]? = some rt := by
    intro b hb
    by_cases hask : f.asks = some b
    · have hlt := hasks _ hst f List.mem_cons_self b hask
      exact ⟨_, List.getElem?_eq_getElem hlt⟩
    · refine registered_of_mentions hr hst List.mem_cons_self ?_
      cases f <;> simp_all [Frame.reads]
  have hactive : f.passive = false := topActive hr _ hst f rfl
  refine .inr ?_
  cases Frame.blocked hnone (h.unlocked hr) hclosing hactive hret hreads with
  | work hw =>
      obtain rfl := (workerStack hr _ hst).worker_only rfl
      exact .inl ⟨rfl, hw⟩
  | @client code hblocked =>
      refine .inr (.inl ⟨code, ?_, hblocked⟩)
      rcases hsits with htask | rfl | ⟨hhook, -⟩
      · exact (hgoes i code rest hi (.inl htask) hblocked).elim
      · rfl
      · exact (hgoes i code rest hi (.inr hhook) hblocked).elim
  | @permit b next rt hb hw =>
      obtain ⟨-, caller, rfl⟩ := hsits
      exact .inr (.inr ⟨b, next, caller, rt, rfl, hb, hw⟩)

/-- The threads of a stuck state owe nothing to anybody. -/
theorem Stuck.owes_nothing (h : Stuck C s) (hc : CallCode C task isHook) {mem : σ}
    (hr : Lts.Reach (Started mem) (machineStep C) s) (hflag : s.shared.shutdown = false)
    (hasks : AsksRegistered s) (hgoes : TasksGoOn C task isHook s) {w : Frame κ τ ν → ℕ}
    (hw : ∀ f, f.stays = true → w f = 0) : census w s.threads = 0 := by
  refine census_eq_zero_iff.mpr fun st hst f hf => hw f ?_
  obtain ⟨i, hi⟩ := List.getElem?_of_mem hst
  rcases h.shape hc hr hflag hasks hgoes hi with
    rfl | ⟨rfl, -⟩ | ⟨code, rfl, -⟩ | ⟨b, next, caller, rt, rfl, -⟩
  · simp at hf
  · rw [List.mem_singleton.mp hf]
    rfl
  · rw [List.mem_singleton.mp hf]
    rfl
  · rcases List.mem_cons.mp hf with rfl | hf
    · rfl
    · rw [List.mem_singleton.mp hf]
      rfl

/-- The first worker of a stuck state is parked, so nothing is queued. -/
theorem Stuck.queue_eq_nil (h : Stuck C s) (hc : CallCode C task isHook) {mem : σ}
    (hr : Lts.Reach (Started mem) (machineStep C) s) (hflag : s.shared.shutdown = false)
    (hasks : AsksRegistered s) (hgoes : TasksGoOn C task isHook s) : s.shared.queue = [] := by
  have hparked : ∀ i st, s.threads[i]? = some st → weight Frame.worker st = 1 →
      i ∈ s.shared.wake := by
    intro i st hi hworker
    rcases h.shape hc hr hflag hasks hgoes hi with
      rfl | ⟨rfl, hw⟩ | ⟨code, rfl, -⟩ | ⟨b, next, caller, rt, rfl, -⟩
    · simp at hworker
    · exact hw
    · simp at hworker
    · simp at hworker
  obtain ⟨st, hi, hworker⟩ := worker_stays hc.toTaskCode hr hflag
  by_contra hq
  rcases wakeup_of_queue hr (List.ne_nil_of_mem (hparked 0 st hi hworker)) hq with
    hdue | ⟨i, hpark, hnot⟩ | hpop
  · have hnone := h.owes_nothing hc hr hflag hasks hgoes (w := Frame.notifiesOne)
      fun f hf => (Frame.owes_nothing_of_stays hf 0).2.2.2.1
    rw [NotifyDue] at hdue
    omega
  · exact hnot (hparked i _ hpark (by simp))
  · have hnone := h.owes_nothing hc hr hflag hasks hgoes (w := Frame.popping)
      fun f hf => (Frame.owes_nothing_of_stays hf 0).2.2.2.2
    omega

/-- **A stuck state is at rest**, for any client whose tasks and hooks go on, any number of
workers and any backends. -/
theorem Stuck.resting (h : Stuck C s) (hc : CallCode C task isHook) {mem : σ}
    (hr : Lts.Reach (Started mem) (machineStep C) s) (hflag : s.shared.shutdown = false)
    (hasks : AsksRegistered s) (hgoes : TasksGoOn C task isHook s) : Resting C s := by
  have hqueue := h.queue_eq_nil hc hr hflag hasks hgoes
  have hbackends : ∀ (b : BackendId) (rt : BackendRuntime τ),
      s.shared.backends[b]? = some rt → rt.Idle := by
    intro b rt hb
    have howes : ∀ w : Frame κ τ ν → ℕ, (∀ f, f.stays = true → w f = 0) →
        census w s.threads = 0 := fun _ => h.owes_nothing hc hr hflag hasks hgoes
    refine (lanesBalanced hr hb 0).idle (preparesWatched hr hb) ?_ ?_ ?_
    · simp [laneView, hqueue, howes (Frame.holds b) fun f hf => (f.owes_nothing_of_stays hf b).1]
    · exact howes (Frame.permits b) fun f hf => (f.owes_nothing_of_stays hf b).2.1
    · exact howes (Frame.notifies b) fun f hf => (f.owes_nothing_of_stays hf b).2.2.1
  refine ⟨fun i st hi => ?_, hqueue, hbackends⟩
  rcases h.shape hc hr hflag hasks hgoes hi with
    rfl | ⟨rfl, -⟩ | hclient | ⟨b, next, caller, rt, rfl, hb, hw⟩
  · exact .inl rfl
  · exact .inr (.inl rfl)
  · exact .inr (.inr hclient)
  · simp [(hbackends b rt hb).prepareWake] at hw

end Shape

end Braids
