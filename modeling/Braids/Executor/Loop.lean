import Braids.Executor.Accounting
import Braids.Executor.Workers

/-!
# The Loop of a Worker

A worker calls one task after the other. `TaskCode` lists what a client knows of the code
that its tasks run: they catch their panics and call no `prepare`. Then a task always runs
directly on the loop of its worker, or on the end of its lane and the loop below, and the
worker is back in its loop when the task is over, however it went.

## Main results

* `tasksBased`: tasks run on the loop of a worker.
* `worker_goes_on`: a worker leaves its loop only by itself.
* `lane_given`: the end of a lane hands the lane on or frees it.
* `client_on_top`: client code that does not wait is on top of its stack.
-/

namespace Braids

open Census

variable {σ κ τ ν : Type}

/-- The program point at which the client code waits or goes on. -/
def ClientAct.next? : ClientAct κ τ → Option κ
  | .goto next | .submit _ next | .schedule _ _ next | .prepare _ _ next | .shutdown next =>
      some next
  | .ret _ => none

/-- What is known of the code that tasks run. -/
structure TaskCode (C : Client σ κ τ ν) (task : κ → Bool) : Prop where
  run : ∀ t, task (C.run t) = true
  entry : ∀ code, C.entry code = true → task code = false
  resume : ∀ code r, task (C.resume code r) = task code
  next : ∀ {i n mem mem' code act}, C.step i n mem code = some (mem', act) →
    ∀ next, act.next? = some next → task next = task code
  hook : ∀ {i n mem mem' code b hook next},
    C.step i n mem code = some (mem', .prepare b hook next) →
      task code = false ∧ task hook = false
  /-- A task catches its panics. -/
  calm : ∀ {i n mem mem' code}, task code = true →
    C.step i n mem code ≠ some (mem', .ret .panicked)

section Tasks

variable {C : Client σ κ τ ν} {task : κ → Bool} {sh sh' : Shared σ τ} {w : ℕ}
  {e : ThreadId → Bool} {i : ThreadId} {f : Frame κ τ ν} {fs rest : List (Frame κ τ ν)}
  {s s' : MachineState σ κ τ ν}

/-- The loop of a worker that called a task. -/
def AtLoop (st : List (Frame κ τ ν)) : Prop :=
  st = [.workerLock] ∨ ∃ b, st = [.finishLane b, .workerLock]

/-- What lies below the frame if it runs a task. -/
def Frame.Based (task : κ → Bool) (rest : List (Frame κ τ ν)) : Frame κ τ ν → Prop
  | .client code => task code = true → AtLoop rest
  | .acquirePrepare _ hook | .acquireParked _ hook => task hook = false
  | _ => True

/-- Every task of the stack runs on the loop of a worker. -/
def TasksBased (task : κ → Bool) : List (Frame κ τ ν) → Prop
  | [] => True
  | f :: rest => f.Based task rest ∧ TasksBased task rest

/-- What client code asks for is based as the client code was. -/
theorem TaskCode.callFrames (hc : TaskCode C task) {n : ℕ} {mem mem' : σ} {code : κ}
    {act : ClientAct κ τ} (h : C.step i n mem code = some (mem', act))
    (hst : TasksBased task (.client code :: rest)) :
    TasksBased task (callFrames act ++ rest) := by
  obtain ⟨hcode, hrest⟩ := hst
  have hnext : ∀ next, act.next? = some next → task next = true → AtLoop rest :=
    fun next hn ht => hcode (hc.next h next hn ▸ ht)
  cases act with
  | goto next => exact ⟨hnext next rfl, hrest⟩
  | submit t next => exact ⟨trivial, hnext next rfl, hrest⟩
  | schedule b t next => exact ⟨trivial, hnext next rfl, hrest⟩
  | prepare b hook next => exact ⟨(hc.hook h).2, hnext next rfl, hrest⟩
  | shutdown next => exact ⟨trivial, hnext next rfl, hrest⟩
  | ret r => exact ⟨trivial, hrest⟩

/-- A step of the top frame keeps the tasks on the loop. -/
theorem FrameStep.tasksBased (hc : TaskCode C task) (h : FrameStep C sh w e i f sh' fs)
    (hws : WorkerStack (f :: rest)) (hst : TasksBased task (f :: rest)) :
    TasksBased task (fs ++ rest) := by
  have hrest := hst.2
  cases h with
  | client h => exact hc.callFrames h hst
  | popPlain =>
      obtain rfl := hws.worker_only rfl
      exact ⟨fun _ => .inl rfl, trivial, trivial⟩
  | popWrapped =>
      obtain rfl := hws.worker_only rfl
      exact ⟨fun _ => .inr ⟨_, rfl⟩, trivial, trivial, trivial⟩
  | @submitRefused t =>
      cases t with
      | plain => exact ⟨trivial, hrest⟩
      | wrapped => exact ⟨trivial, trivial, hrest⟩
  | permit =>
      have hhook : task _ = false := hst.1
      exact ⟨fun ht => by simp [hhook] at ht, trivial, hrest⟩
  | park | unparked => exact ⟨hst.1, hrest⟩
  | exit => exact hrest
  | wrappedReject | handOver | permitHandOver | permitFree | rejectDrained | shutNext
  | submitGone => exact ⟨trivial, trivial, hrest⟩
  | _ => exact ⟨trivial, hrest⟩

/-- Returning an outcome keeps the tasks on the loop. -/
theorem TasksBased.resume (hc : TaskCode C task) {o : Outcome τ}
    (hst : TasksBased task (.ret o :: f :: rest)) :
    TasksBased task (f.resume C o ++ rest) := by
  obtain ⟨-, hf, hrest⟩ := hst
  unfold Frame.resume
  split
  · exact ⟨fun ht => hf (hc.resume _ _ ▸ ht), hrest⟩
  · exact ⟨trivial, hrest⟩
  · exact ⟨trivial, hrest⟩
  · exact ⟨trivial, hrest⟩
  · exact ⟨trivial, trivial, hrest⟩
  · exact ⟨trivial, trivial, trivial, hrest⟩
  · exact ⟨trivial, hrest⟩
  · exact hrest
  · exact ⟨hf, hrest⟩

/-- **Tasks run on the loop of a worker**, in every reachable state. -/
theorem tasksBased (hc : TaskCode C task) {mem : σ}
    (h : Lts.Reach (Started mem) (machineStep C) s) :
    ∀ st ∈ s.threads, TasksBased task st := by
  have hboth : ∀ st ∈ s.threads, WorkerStack st ∧ TasksBased task st := by
    refine stack_invariant (P := fun st => WorkerStack st ∧ TasksBased task st)
      ⟨.none (by simp), trivial⟩ ⟨.outside [] (by simp), trivial, trivial⟩ ?_ ?_ ?_ h
    · refine fun code he => ⟨.none (by simp), fun ht => ?_, trivial⟩
      simp [hc.entry code he] at ht
    · exact fun _ _ _ hst => ⟨hst.1.resume, hst.2.resume hc⟩
    · exact fun hf hst => ⟨hf.workerStack hst.1, hf.tasksBased hc hst.1 hst.2⟩
  exact fun st hst => (hboth st hst).2

/-! ### Workers do not unwind -/

/-- The frame may lie on the stack of a worker: it lets no panic through. -/
def Frame.holdsPanics (task : κ → Bool) : Frame κ τ ν → Bool
  | .client code => task code
  | .ret (.call .panicked) | .returning .panicked | .acquirePrepare _ _ | .acquireParked _ _
  | .permitHeld _ | .finishPrepare _ _ | .finishPrepareCheck _ _ => false
  | _ => true

attribute [simp] Frame.holdsPanics

/-- No panic gets through what a task asks for. -/
theorem TaskCode.holdsPanics (hc : TaskCode C task) {n : ℕ} {mem mem' : σ} {code : κ}
    {act : ClientAct κ τ} (h : C.step i n mem code = some (mem', act))
    (hcode : task code = true) :
    ∀ g ∈ (Braids.callFrames act : List (Frame κ τ ν)), g.holdsPanics task = true := by
  have hnext := hc.next h
  cases act with
  | prepare b hook next => simp [(hc.hook h).1] at hcode
  | ret r =>
      cases r with
      | panicked => exact (hc.calm hcode h).elim
      | _ => simp [Braids.callFrames]
  | _ => simp [Braids.callFrames, hnext _ rfl, hcode]

/-- A step of a frame that lets no panic through makes more of them. -/
theorem FrameStep.holdsPanics (hc : TaskCode C task) (h : FrameStep C sh w e i f sh' fs)
    (hf : f.holdsPanics task = true) : ∀ g ∈ fs, g.holdsPanics task = true := by
  cases h with
  | client h => exact hc.holdsPanics h hf
  | @submitRefused t => cases t <;> simp [refuse]
  | permit | park | unparked | permitHandOver | permitFree | prepareRefused =>
      simp at hf
  | _ => simp [hc.run]

/-- So does returning an outcome that is no panic. -/
theorem Frame.holdsPanics_resume (hc : TaskCode C task) {o : Outcome τ}
    (hf : f.holdsPanics task = true)
    (ho : Frame.holdsPanics task (.ret o : Frame κ τ ν) = true) :
    ∀ g ∈ f.resume C o, g.holdsPanics task = true := by
  cases f with
  | client code => simpa [Frame.resume, hc.resume] using hf
  | returning r => cases r <;> simp_all [Frame.resume]
  | finishLaneCheck b => obtain (_ | _ | _) | _ := o <;> simp [Frame.resume]
  | workerLock =>
      rcases Frame.resume_workerLock (C := C) o with hr | hr <;>
        simp [hr]
  | permitHeld | finishPrepareCheck => simp at hf
  | _ =>
      intro g hg
      obtain rfl := List.mem_singleton.mp hg
      exact hf

/-- A stack with a frame of `worker_loop` lets no panic through. -/
def HoldsPanics (task : κ → Bool) (st : List (Frame κ τ ν)) : Prop :=
  weight Frame.worker st = 0 ∨ ∀ f ∈ st, f.holdsPanics task = true

/-- **No panic reaches the loop of a worker**, in every reachable state. -/
theorem holdsPanics (hc : TaskCode C task) {mem : σ}
    (h : Lts.Reach (Started mem) (machineStep C) s) :
    ∀ st ∈ s.threads, HoldsPanics task st := by
  refine stack_invariant (.inl rfl) (.inr (by simp))
    (fun _ _ => .inl (by simp)) ?_ ?_ h
  · rintro o f rest (hz | hall)
    · simp only [weight_cons, Nat.add_eq_zero_iff] at hz
      exact .inl (by rw [weight_append, Frame.worker_resume hz.2.1, hz.2.2])
    · refine .inr fun g hg => ?_
      rcases List.mem_append.mp hg with hg | hg
      · exact Frame.holdsPanics_resume hc (hall f (by simp)) (hall _ List.mem_cons_self) g hg
      · exact hall g (by simp [hg])
  · rintro sh sh' w e i f fs rest hf (hz | hall)
    · simp only [weight_cons, Nat.add_eq_zero_iff] at hz
      exact .inl (by rw [weight_append, hf.worker_eq_zero hz.1, hz.2])
    · refine .inr fun g hg => ?_
      rcases List.mem_append.mp hg with hg | hg
      · exact hf.holdsPanics hc (hall f List.mem_cons_self) g hg
      · exact hall g (by simp [hg])

/-- Only leaving the loop takes a frame of `worker_loop` off a stack. -/
theorem FrameStep.worker_stays (h : FrameStep C sh w e i f sh' fs) :
    weight Frame.worker fs = f.worker ∨ (f = .workerLoad ∧ fs = [] ∧ sh.shutdown = true ∧
      sh' = { sh with queueLocked := false }) := by
  cases h with
  | exit h => exact .inr ⟨rfl, rfl, h, rfl⟩
  | @client code choice mem act => exact .inl (by cases act <;> simp [Braids.callFrames])
  | @submitRefused t => exact .inl (by cases t <;> simp [refuse])
  | _ => exact .inl (by simp)

/-- The loop goes on after a call that did not panic. -/
theorem Frame.worker_resume_of_holds {o : Outcome τ} (f : Frame κ τ ν)
    (ho : Frame.holdsPanics task (.ret o : Frame κ τ ν) = true) :
    weight Frame.worker (f.resume C o) = f.worker := by
  cases f with
  | workerLock => obtain (_ | _ | _) | _ := o <;> simp_all [Frame.resume]
  | workerPop | workerLoad | workerWait | workerParked => rfl
  | _ => exact Frame.worker_resume rfl o

/-- **A worker goes on** after whatever its tasks do, and ends only by leaving its loop when
the executor shuts down. -/
theorem worker_goes_on (hc : TaskCode C task) {mem : σ}
    (h : Lts.Reach (Started mem) (machineStep C) s) {a : Action κ}
    (hstep : machineStep C s a = some s') {st : List (Frame κ τ ν)}
    (hi : s.threads[i]? = some st) (hworker : weight Frame.worker st = 1) :
    ∃ st', s'.threads[i]? = some st' ∧ (weight Frame.worker st' = 1 ∨
      (st = [.workerLoad] ∧ s.shared.shutdown = true ∧ st' = [])) := by
  have hset : ∀ {k : ThreadId} {old new : List (Frame κ τ ν)}, s.threads[k]? = some old →
      (k = i → weight Frame.worker new = 1 ∨
        (st = [.workerLoad] ∧ s.shared.shutdown = true ∧ new = [])) →
      ∃ st', (s.threads.set k new)[i]? = some st' ∧ (weight Frame.worker st' = 1 ∨
        (st = [.workerLoad] ∧ s.shared.shutdown = true ∧ st' = [])) := by
    intro k old new hk hnew
    by_cases hik : k = i
    · subst hik
      have hlt := (List.getElem?_eq_some_iff.mp hk).1
      exact ⟨new, by simp [hlt], hnew rfl⟩
    · exact ⟨st, by rw [List.getElem?_set_ne hik, hi], .inl hworker⟩
  cases machineStep_cases hstep with
  | @exit k c o hk =>
      refine hset hk ?_
      rintro rfl
      obtain rfl := Option.some.inj (hk.symm.trans hi)
      simp at hworker
  | @resume k c o f rest hk =>
      refine hset hk ?_
      rintro rfl
      obtain rfl := Option.some.inj (hk.symm.trans hi)
      rcases holdsPanics hc h _ (List.mem_of_getElem? hi) with hz | hall
      · omega
      · left
        rw [weight_append, Frame.worker_resume_of_holds f (hall _ List.mem_cons_self)]
        simpa using hworker
  | @frame k c f rest fs sh hk hf =>
      refine hset hk ?_
      rintro rfl
      obtain rfl := Option.some.inj (hk.symm.trans hi)
      rcases hf.worker_stays with heq | ⟨rfl, rfl, hshut, -⟩
      · exact .inl (by rw [weight_append, heq, ← weight_cons, hworker])
      · obtain rfl := (workerStack h _ (List.mem_of_getElem? hi)).worker_only rfl
        exact .inr ⟨rfl, hshut, rfl⟩
  | spawn =>
      have hlt := (List.getElem?_eq_some_iff.mp hi).1
      exact ⟨st, by rw [List.getElem?_append_left hlt, hi], .inl hworker⟩
  | register | spurious | release => exact ⟨st, hi, .inl hworker⟩

/-! ### The end of a lane -/

/-- A backend that a frame ends a lane of is registered. -/
theorem registered_of_finishLane {mem : σ} (h : Lts.Reach (Started mem) (machineStep C) s)
    {b : BackendId} (hi : s.threads[i]? = some (.finishLane b :: rest)) :
    ∃ rt, s.shared.backends[b]? = some rt := by
  refine Option.ne_none_iff_exists'.mp fun hnone => ?_
  have hzero := unmentioned h hnone
  have hone := le_census (w := Frame.mentions b) (List.mem_of_getElem? hi) List.mem_cons_self
  simp only [Frame.mentions, if_true] at hone
  rw [Unmentioned] at hzero
  omega

/-- **The end of a lane** hands it on to the first task that waits for one, or frees it. -/
theorem lane_given {mem : σ} (h : Lts.Reach (Started mem) (machineStep C) s) {b : BackendId}
    (hi : s.threads[i]? = some (.finishLane b :: rest)) (n : ℕ) :
    ∃ rt rt' s', s.shared.backends[b]? = some rt ∧ machineStep C s (.step i n) = some s' ∧
      s'.shared.backends[b]? = some rt' ∧
      ((∃ t, rt.waiting = t :: rt'.waiting ∧ rt'.lanesInUse = rt.lanesInUse ∧
          s'.threads[i]? = some (.submitReady b t :: .finishLaneCheck b :: rest)) ∨
        (rt.waiting = [] ∧ rt'.lanesInUse + 1 = rt.lanesInUse ∧
          s'.threads[i]? = some (.notifyPrepare b :: rest))) := by
  obtain ⟨rt, hb⟩ := registered_of_finishLane h hi
  have hlt := (List.getElem?_eq_some_iff.mp hi).1
  have hblt := (List.getElem?_eq_some_iff.mp hb).1
  have hbal := lanesBalanced h hb 0
  have hcovered := Frame.covered hbal.lanes hbal.prepares (List.mem_of_getElem? hi)
    List.mem_cons_self
  have hpos : 0 < rt.lanesInUse := hcovered rfl
  cases hw : rt.waiting with
  | nil =>
      refine ⟨rt, { rt with lanesInUse := rt.lanesInUse - 1 },
        { s with
          shared := s.shared.setBackend b { rt with lanesInUse := rt.lanesInUse - 1 }
          threads := s.threads.set i (.notifyPrepare b :: rest) }, hb, ?_, ?_, .inr ⟨hw, ?_, ?_⟩⟩
      · simp [machineStep, hi, stepStack, Frame.step, hb, BackendRuntime.finishLane, hw]
      · simp [Shared.setBackend, hblt]
      · exact Nat.sub_add_cancel hpos
      · simp [hlt]
  | cons t waiting =>
      refine ⟨rt, { rt with waiting, history := rt.history ++ [.serve t.ticket] },
        { s with
          shared := s.shared.setBackend b
            { rt with waiting, history := rt.history ++ [.serve t.ticket] }
          threads := s.threads.set i (.submitReady b t :: .finishLaneCheck b :: rest) },
        hb, ?_, ?_, .inl ⟨t, hw, rfl, ?_⟩⟩
      · simp [machineStep, hi, stepStack, Frame.step, hb, BackendRuntime.finishLane, hw]
      · simp [Shared.setBackend, hblt]
      · simp [hlt]

/-! ### Calls wait below what they call -/

/-- What is known of the code that waits for a call of the executor. -/
def WaitCode (C : Client σ κ τ ν) (waits : κ → Bool) : Prop :=
  ∀ {i n mem mem' code act}, C.step i n mem code = some (mem', act) →
    (∀ next, act ≠ .goto next) → ∀ next, act.next? = some next → waits next = true

/-- Below its top frame the stack only waits. -/
def BelowWaits (waits : κ → Bool) (st : List (Frame κ τ ν)) : Prop :=
  ∀ code, .client code ∈ st.tail → waits code = true

/-- Client code takes the place of client code, or waits below the call it makes. -/
theorem WaitCode.callFrames {waits : κ → Bool} (hw : WaitCode C waits) {n : ℕ} {mem mem' : σ}
    {code : κ} {act : ClientAct κ τ} (h : C.step i n mem code = some (mem', act)) :
    BelowWaits waits (Braids.callFrames act : List (Frame κ τ ν)) := by
  have hcall := hw h
  intro next hnext
  cases act with
  | goto | ret => simp [Braids.callFrames] at hnext
  | _ =>
      simp only [Braids.callFrames, List.tail_cons, List.mem_singleton, Frame.client.injEq] at hnext
      obtain rfl := hnext
      exact hcall (by simp) _ rfl

/-- A stack that waits below its top may be topped with others that do. -/
theorem BelowWaits.append {waits : κ → Bool} (hfs : BelowWaits waits fs)
    (hrest : ∀ code, .client code ∈ rest → waits code = true) :
    BelowWaits waits (fs ++ rest) := by
  intro code hcode
  cases fs with
  | nil => exact hrest code (List.mem_of_mem_tail hcode)
  | cons f fs =>
      rcases List.mem_append.mp hcode with hcode | hcode
      · exact hfs code hcode
      · exact hrest code hcode

/-- **Client code that does not wait is on top**, in every reachable state. -/
theorem client_on_top {waits : κ → Bool} (hw : WaitCode C waits) {mem : σ}
    (h : Lts.Reach (Started mem) (machineStep C) s) {st : List (Frame κ τ ν)}
    (hst : st ∈ s.threads) {code : κ} (hcode : .client code ∈ st) (hgoes : waits code = false) :
    ∃ rest, st = .client code :: rest := by
  have hbelow : ∀ st ∈ s.threads, BelowWaits waits st := by
    refine stack_invariant (P := BelowWaits waits) (by simp [BelowWaits])
      (by simp [BelowWaits]) (fun _ _ => by simp [BelowWaits]) ?_ ?_ h
    · intro o f rest hst
      refine BelowWaits.append ?_ fun code hcode => hst code (by simp [hcode])
      unfold Frame.resume
      split <;> simp [BelowWaits]
    · intro sh sh' w e i f fs rest hf hst
      refine BelowWaits.append ?_ hst
      cases hf with
      | client h => exact hw.callFrames h
      | @submitRefused t => cases t <;> simp [refuse, BelowWaits]
      | _ => simp [BelowWaits]
  cases st with
  | nil => simp at hcode
  | cons f rest =>
      rcases List.mem_cons.mp hcode with rfl | hmem
      · exact ⟨rest, rfl⟩
      · simp [hbelow _ hst code hmem] at hgoes

end Tasks

end Braids
