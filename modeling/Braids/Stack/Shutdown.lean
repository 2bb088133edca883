import Braids.Executor.Loop
import Braids.Executor.Wakeups
import Braids.Stack.Carriers

/-!
# Shutdown and Accepted Jobs

`submit_boxed` loads the shutdown flag and pushes in two steps, and a worker leaves its
loop when it finds the queue empty and the flag set. A task pushed after the last worker
has left is never run and never rejected, although `dispatch` returns `Ok`. `LatePush` is
that step. In a run without it a shutdown leaves no accepted job behind.

## Main results

* `workersRun`: a worker leaves its loop only by itself, no panic unwinds it.
* `queue_empty`: without late pushes the workers leave an empty queue.
* `none_stranded`: without late pushes every accepted job is over after a shutdown.
* `job_stranded`: a run with a late push that strands a job.
* `latePush_strands`: every late push leaves a task in the queue for ever.
-/

namespace Braids

open Census

variable {ρ : Type}

/-! ### Calls that are under way -/

/-- The frame belongs to a `dispatch`, a `prepare_blocking` or a `shutdown`. -/
def Frame.inCall : StackFrame ρ → Bool
  | .client (.dispatch _) | .client (.dispatchId _ _) | .client (.dispatchInsert _ _)
  | .client (.dispatchSubmit _ _) | .client (.dispatchWait _ _) | .client (.dispatchOk _ _)
  | .client (.dispatchErr _ _ _) | .client (.preparing _ _) | .client .shutdown
  | .shutdownSwap | .shutdownCollect | .shutdownBackends _ | .shutdownNotify
  | .shutdownJoin _ => true
  | _ => false

/-- The frame runs no task, submits nothing and holds nothing. -/
def Frame.idle : StackFrame ρ → Bool
  | .client (.recompile _) | .client (.compile _) | .client .prepareHook
  | .client (.prepared _ _ _) | .client (.publish _ _) | .client (.collect _ _ _)
  | .client (.cancel _ _) | .client .ended | .ret (.call _) => true
  | _ => false

/-- The frame accounts for what the frames above it do. -/
def Frame.Anchor (f : StackFrame ρ) : Prop := f.inCall = true ∨ f.worker = 1

/-- Work is done on behalf of a worker, a `dispatch`, a `prepare_blocking` or a
`shutdown`: below every frame that is not idle lies one of theirs. -/
def Anchored : List (StackFrame ρ) → Prop
  | [] => True
  | f :: st => (f.idle = true ∨ f.Anchor ∨ ∃ g ∈ st, g.Anchor) ∧ Anchored st

/-- Anchored stacks may be put on each other. -/
theorem Anchored.append {fs rest : List (StackFrame ρ)} (hfs : Anchored fs)
    (h : Anchored rest) : Anchored (fs ++ rest) := by
  induction fs with
  | nil => exact h
  | cons f fs ih =>
      obtain ⟨hf, hfs⟩ := hfs
      refine ⟨?_, ih hfs⟩
      rcases hf with hi | ha | ⟨g, hg, ha⟩
      · exact .inl hi
      · exact .inr (.inl ha)
      · exact .inr (.inr ⟨g, List.mem_append_left _ hg, ha⟩)

/-- Anything may be put on a stack with an anchor. -/
theorem Anchored.append_of_anchor {fs rest : List (StackFrame ρ)} (h : Anchored rest)
    {g : StackFrame ρ} (hg : g ∈ rest) (ha : g.Anchor) : Anchored (fs ++ rest) := by
  induction fs with
  | nil => exact h
  | cons f fs ih => exact ⟨.inr (.inr ⟨g, List.mem_append_right _ hg, ha⟩), ih⟩

/-- Other frames need an anchor below them. -/
theorem Frame.not_idle_or_anchor {f : StackFrame ρ} (hidle : f.idle = false)
    (hcall : f.inCall = false) (hworker : f.worker = 0) : ¬ (f.idle = true ∨ f.Anchor) := by
  rw [Frame.Anchor, hidle, hcall, hworker]
  decide

/-- What a step of `stack.rs` outside a task asks for is anchored. -/
theorem StackStep.anchored {mem mem' : StackMem ρ} {code : Code ρ}
    {act : ClientAct (Code ρ) Task} (h : StackStep mem code mem' act)
    (hf : Frame.idle (.client code : StackFrame ρ) = true ∨
      Frame.Anchor (.client code : StackFrame ρ)) :
    Anchored (callFrames act : List (StackFrame ρ)) := by
  cases h with
  | task => exact absurd hf (Frame.not_idle_or_anchor rfl rfl rfl)
  | _ => simp [callFrames, Anchored, Frame.idle, Frame.Anchor, Frame.inCall]

/-- A step of an anchored frame keeps its stack anchored. -/
theorem FrameStep.anchored {H : Hooks ρ} {sh sh' : Shared (StackMem ρ) Task} {w : ℕ}
    {e : ThreadId → Bool} {i : ThreadId} {f : StackFrame ρ} {fs rest : List (StackFrame ρ)}
    (h : FrameStep (stackClient H) sh w e i f sh' fs) (hst : Anchored (f :: rest)) :
    Anchored (fs ++ rest) := by
  obtain ⟨hf, hrest⟩ := hst
  rcases or_assoc.mpr hf with hf | ⟨g, hg, ha⟩
  rotate_left
  · exact hrest.append_of_anchor hg ha
  refine Anchored.append ?_ hrest
  cases h with
  | client h => exact (stackStep_cases h).anchored hf
  | swapAgain | swap | collect | shutNext | shutEnd | wakeAll | join | joinEnd | lock | popPlain
  | popWrapped | popEmpty | exit | load | wait | relock =>
      simp [Anchored, Frame.idle, Frame.Anchor, Frame.inCall]
  | _ => exact absurd hf (Frame.not_idle_or_anchor rfl rfl rfl)

/-- Code outside a task that a call returns to is idle or an anchor. -/
theorem Code.resume_anchored (H : Hooks ρ) (code : Code ρ) (r : CallResult)
    (h : Frame.idle (.client code : StackFrame ρ) = true ∨
      Frame.Anchor (.client code : StackFrame ρ)) :
    Frame.idle (.client ((stackClient H).resume code r) : StackFrame ρ) = true ∨
      Frame.Anchor (.client ((stackClient H).resume code r) : StackFrame ρ) := by
  simp only [stackClient]
  split
  · exact .inr (.inl rfl)
  · exact .inr (.inl rfl)
  · exact absurd h (Frame.not_idle_or_anchor rfl rfl rfl)
  · exact absurd h (Frame.not_idle_or_anchor rfl rfl rfl)
  · exact .inl rfl
  · exact h

/-- Returning an outcome keeps a stack anchored. -/
theorem Anchored.resume {H : Hooks ρ} {o : Outcome Task} {f : StackFrame ρ}
    {rest : List (StackFrame ρ)} (hst : Anchored (.ret o :: f :: rest)) :
    Anchored (f.resume (stackClient H) o ++ rest) := by
  obtain ⟨-, hf, hrest⟩ := hst
  rcases or_assoc.mpr hf with hf | ⟨g, hg, ha⟩
  rotate_left
  · exact hrest.append_of_anchor hg ha
  refine Anchored.append ?_ hrest
  cases f with
  | client code => exact ⟨or_assoc.mp (.inl (Code.resume_anchored H code o.result hf)), trivial⟩
  | workerLock =>
      rcases Frame.resume_workerLock (C := stackClient H) o with hr | hr
      · rw [hr]
        exact trivial
      · rw [hr]
        exact ⟨or_assoc.mp (.inl hf), trivial⟩
  | returning | finishLaneCheck | permitHeld | finishPrepareCheck =>
      exact absurd hf (Frame.not_idle_or_anchor rfl rfl rfl)
  | _ => exact ⟨or_assoc.mp (.inl hf), trivial⟩

/-- In every reachable state all work is anchored. -/
theorem anchored {H : Hooks ρ} {mem : StackMem ρ} {s : StackState ρ}
    (h : Lts.Reach (Started mem) (machineStep (stackClient H)) s) :
    ∀ st ∈ s.threads, Anchored st := by
  refine stack_invariant trivial ?_ ?_ (fun _ _ _ hst => hst.resume)
    (fun hf hst => hf.anchored hst) h
  · simp [Anchored, Frame.Anchor]
  · intro code hcode
    cases code <;> simp_all [stackClient, Anchored, Frame.idle, Frame.Anchor, Frame.inCall]

/-- An anchored stack without anchors is idle. -/
theorem Anchored.idle {st : List (StackFrame ρ)} (h : Anchored st)
    (hst : ∀ f ∈ st, ¬ f.Anchor) : ∀ f ∈ st, f.idle = true := by
  induction st with
  | nil => simp
  | cons f st ih =>
      obtain ⟨hf, hrest⟩ := h
      have hst' : ∀ g ∈ st, ¬ g.Anchor := fun g hg => hst g (List.mem_cons_of_mem _ hg)
      intro g hg
      rcases List.mem_cons.mp hg with rfl | hg
      · rcases hf with hi | ha | ⟨g', hg', ha⟩
        · exact hi
        · exact absurd ha (hst g List.mem_cons_self)
        · exact absurd ha (hst' g' hg')
      · exact ih hrest hst' g hg

/-! ### Workers do not unwind -/

/-- The frame may lie on the stack of a worker: it passes no panic on. -/
def Frame.calm : StackFrame ρ → Bool
  | .client (.task _ _ _) => true
  | .client _ | .ret (.call .panicked) | .returning .panicked | .acquirePrepare _ _
  | .acquireParked _ _ | .permitHeld _ | .finishPrepare _ _ | .finishPrepareCheck _ _ => false
  | _ => true

/-- The code of a task. -/
def Code.isTask : Code ρ → Bool
  | .task _ _ _ => true
  | _ => false

/-- The frame lets no panic of a task through. -/
theorem Frame.calm_eq (f : StackFrame ρ) : f.calm = f.holdsPanics Code.isTask := by
  cases f with
  | client code => cases code <;> rfl
  | ret o => obtain (_ | _ | _) | _ := o <;> rfl
  | returning r => cases r <;> rfl
  | _ => rfl

/-- A task prepares nothing, and `run_caught` catches its panics. -/
theorem JobStep.calm {b : BackendId} {job job' : Job ρ} {code : JobCode ρ}
    {act : ClientAct (JobCode ρ) JobTask} (h : JobStep b job code job' act) :
    (∀ b hook next, act ≠ .prepare b hook next) ∧ act ≠ .ret .panicked := by
  cases h with
  | leave _ hact => obtain rfl | rfl := hact <;> simp
  | _ => simp

/-- The tasks of a stack catch their panics and prepare nothing. -/
theorem stackTasks {H : Hooks ρ} : TaskCode (stackClient H) Code.isTask where
  run _ := rfl
  entry code he := by
    cases code with
    | task => simp [stackClient] at he
    | _ => rfl
  resume code r := by
    simp only [stackClient]
    split <;> rfl
  next h next hnext := by
    cases stackStep_cases h with
    | @task s j code st job job' act hst hjob hs =>
        cases act with
        | ret r => cases hnext
        | _ =>
            obtain rfl := Option.some.inj hnext
            rfl
    | _ =>
        simp only [ClientAct.next?, Option.some.injEq, reduceCtorEq] at hnext
        try subst hnext
        try rfl
  hook {i n mem mem' code b hook next} h := by
    generalize hact : ClientAct.prepare b hook next = act at h
    cases stackStep_cases h with
    | compiled =>
        obtain ⟨-, rfl, -⟩ := ClientAct.prepare.inj hact
        exact ⟨rfl, rfl⟩
    | @task s j code st job job' act hst hjob hs =>
        cases act with
        | prepare b hook next => exact (hs.calm.1 _ _ _ rfl).elim
        | _ => cases hact
    | _ => cases hact
  calm {i n mem mem' code} hcode h := by
    generalize hact : ClientAct.ret CallResult.panicked = act at h
    cases stackStep_cases h with
    | @task s j code st job job' act hst hjob hs =>
        cases act with
        | ret r =>
            obtain rfl := ClientAct.ret.inj hact
            exact hs.calm.2 rfl
        | _ => cases hact
    | _ => cases hcode

/-- A stack with a frame of `worker_loop` passes no panic on. -/
def WorkerCalm (st : List (StackFrame ρ)) : Prop :=
  weight Frame.worker st = 0 ∨ ∀ f ∈ st, f.calm = true

/-- In every reachable state the stacks of workers pass no panic on: `run_caught` catches
the panics of a job, and a worker makes no other call that could panic. -/
theorem workerCalm {H : Hooks ρ} {mem : StackMem ρ} {s : StackState ρ}
    (h : Lts.Reach (Started mem) (machineStep (stackClient H)) s) :
    ∀ st ∈ s.threads, WorkerCalm st := by
  intro st hst
  refine (holdsPanics stackTasks h st hst).imp_right fun hall f hf => ?_
  rw [Frame.calm_eq]
  exact hall f hf

/-- The first `workers` threads run `worker_loop` until they end, and no other thread
does. -/
structure WorkersRun (s : StackState ρ) : Prop where
  started : s.workers ≤ s.threads.length
  worker : ∀ i st, s.threads[i]? = some st → i < s.workers → st = [] ∨ weight Frame.worker st = 1
  other : ∀ i st, s.threads[i]? = some st → s.workers ≤ i → weight Frame.worker st = 0

/-- Threads run `worker_loop` as before when one stack changes but not its part of the
loop. -/
theorem WorkersRun.set {s : StackState ρ} (h : WorkersRun s) {i : ThreadId}
    {st : List (StackFrame ρ)} (hi : s.threads[i]? = some st) {st' : List (StackFrame ρ)}
    (sh : Shared (StackMem ρ) Task)
    (hst : st' = [] ∨ st ≠ [] ∧ weight Frame.worker st' = weight Frame.worker st) :
    WorkersRun { s with shared := sh, threads := s.threads.set i st' } := by
  obtain ⟨hstarted, hworker, hother⟩ := h
  refine ⟨by simpa using hstarted, ?_, ?_⟩
  · intro k st'' hk hlt
    rw [List.getElem?_set] at hk
    by_cases hik : i = k
    · subst hik
      rw [if_pos rfl] at hk
      obtain ⟨-, hk⟩ := Option.ite_none_right_eq_some.mp hk
      obtain rfl := Option.some.inj hk
      rcases hst with rfl | ⟨hne, hw⟩
      · exact .inl rfl
      · exact .inr (hw.trans ((hworker i st hi hlt).resolve_left hne))
    · rw [if_neg hik] at hk
      exact hworker k st'' hk hlt
  · intro k st'' hk hle
    rw [List.getElem?_set] at hk
    by_cases hik : i = k
    · subst hik
      rw [if_pos rfl] at hk
      obtain ⟨-, hk⟩ := Option.ite_none_right_eq_some.mp hk
      obtain rfl := Option.some.inj hk
      rcases hst with rfl | ⟨-, hw⟩
      · rfl
      · exact hw.trans (hother i st hi hle)
    · rw [if_neg hik] at hk
      exact hother k st'' hk hle

/-- A worker goes on after a task that did not panic. -/
theorem Frame.worker_resume_calm {H : Hooks ρ} {o : Outcome Task} (f : StackFrame ρ)
    (ho : Frame.calm (.ret o : StackFrame ρ) = true) :
    weight Frame.worker (f.resume (stackClient H) o) = f.worker := by
  rw [Frame.calm_eq] at ho
  exact Frame.worker_resume_of_holds f ho

/-- Returning an outcome keeps the part of a stack in `worker_loop`. -/
theorem WorkerCalm.worker_resume {H : Hooks ρ} {o : Outcome Task} {f : StackFrame ρ}
    {rest : List (StackFrame ρ)} (h : WorkerCalm (.ret o :: f :: rest)) :
    weight Frame.worker (f.resume (stackClient H) o ++ rest) =
      weight Frame.worker (.ret o :: f :: rest) := by
  rw [weight_append, weight_cons, weight_cons]
  rcases h with hz | hc
  · simp only [weight_cons, Nat.add_eq_zero_iff] at hz
    rw [Frame.worker_resume hz.2.1, hz.1, hz.2.1]
    omega
  · rw [Frame.worker_resume_calm f (hc _ List.mem_cons_self)]
    exact (Nat.zero_add _).symm

/-- **A worker ends only by leaving its loop**, in every reachable state. -/
theorem workersRun {H : Hooks ρ} {mem : StackMem ρ} {s : StackState ρ}
    (h : Lts.Reach (Started mem) (machineStep (stackClient H)) s) : WorkersRun s := by
  refine h.invariant ?_ ?_
  · rintro s ⟨n, rfl⟩
    refine ⟨by simp [MachineState.start], fun i st hi _ => .inr ?_, fun i st hi hle => ?_⟩
    · obtain rfl := (List.mem_replicate.mp (List.mem_of_getElem? hi)).2
      rfl
    · have hlt := (List.getElem?_eq_some_iff.mp hi).1
      rw [MachineState.start, List.length_replicate] at hlt
      exact absurd hle (not_le.mpr hlt)
  · intro s a s' hr hw _ hs
    cases machineStep_cases hs with
    | exit hi => exact hw.set hi s.shared (.inl rfl)
    | @resume i c o f rest hi =>
        have hcalm := workerCalm hr _ (List.mem_of_getElem? hi)
        exact hw.set hi s.shared (.inr ⟨by simp, hcalm.worker_resume⟩)
    | @frame i c f rest fs sh hi h =>
        rcases h.worker_stays with heq | ⟨rfl, rfl, -⟩
        · exact hw.set hi sh (.inr ⟨by simp, by rw [weight_append, weight_cons, heq]⟩)
        · have hrest := (workerStack hr _ (List.mem_of_getElem? hi)).worker_only rfl
          subst hrest
          exact hw.set hi sh (.inl rfl)
    | @spawn code he =>
        obtain ⟨hstarted, hworker, hother⟩ := hw
        refine ⟨by simp; omega, fun i st hi hlt => ?_, fun i st hi hle => ?_⟩
        · have hlen : i < s.threads.length := lt_of_lt_of_le hlt hstarted
          rw [List.getElem?_append_left hlen] at hi
          exact hworker i st hi hlt
        · rw [List.getElem?_append] at hi
          split at hi
          · exact hother i st hi hle
          · obtain rfl := List.mem_singleton.mp (List.mem_of_getElem? hi)
            rfl
    | register => exact ⟨hw.started, hw.worker, hw.other⟩
    | spurious => exact ⟨hw.started, hw.worker, hw.other⟩
    | release => exact ⟨hw.started, hw.worker, hw.other⟩

/-! ### The queue when the workers have left -/

/-- All workers have left their loop. -/
def WorkersEnded (s : StackState ρ) : Prop := ∀ i < s.workers, s.threads[i]? = some []

instance (s : StackState ρ) : Decidable (WorkersEnded s) :=
  decidable_of_iff (∀ i < s.workers, (s.threads[i]?.map (·.isEmpty)) = some true) <| by
    simp [WorkersEnded, Option.map_eq_some_iff, List.isEmpty_iff]

/-- The step at which `submit_boxed` pushes a task although all workers have left. -/
def LatePush (s : StackState ρ) : Action (Code ρ) → Prop
  | .step i _ => ((s.threads[i]?.getD []).head?.any fun f => f matches .submitPush _) = true ∧
      WorkersEnded s
  | _ => False

instance (s : StackState ρ) (a : Action (Code ρ)) : Decidable (LatePush s a) := by
  cases a <;> simp only [LatePush] <;> infer_instance

/-- Only a push makes the queue longer. -/
theorem FrameStep.queue_nil {C : Client (StackMem ρ) (Code ρ) Task RejectCode}
    {sh sh' : Shared (StackMem ρ) Task} {w : ℕ} {e : ThreadId → Bool} {i : ThreadId}
    {f : StackFrame ρ} {fs : List (StackFrame ρ)} (h : FrameStep C sh w e i f sh' fs)
    (hf : ∀ t, f ≠ .submitPush t) (hq : sh.queue = []) : sh'.queue = [] := by
  cases h with
  | @submitPush task => exact absurd rfl (hf task)
  | popPlain h | popWrapped h => simp [h] at hq
  | _ => simpa using hq

/-- The workers have left after one stack changed only if they had left before, or the
stack is the empty one of a worker. -/
theorem WorkersEnded.of_set {s : StackState ρ} {i : ThreadId} {st' : List (StackFrame ρ)}
    {sh : Shared (StackMem ρ) Task} (hlen : s.workers ≤ s.threads.length)
    (h : WorkersEnded { s with shared := sh, threads := s.threads.set i st' }) :
    WorkersEnded s ∨ (i < s.workers ∧ st' = []) := by
  by_cases hi : i < s.workers
  · refine .inr ⟨hi, ?_⟩
    have hnew := h i hi
    simpa [lt_of_lt_of_le hi hlen] using hnew
  · refine .inl fun k hk => ?_
    have hne : i ≠ k := by
      rintro rfl
      exact hi hk
    simpa [List.getElem?_set_ne hne] using h k hk

/-- A worker that has seen the queue empty still finds it empty: it holds the lock. -/
theorem queue_nil_of_workerLoad {C : Client (StackMem ρ) (Code ρ) Task RejectCode}
    {mem : StackMem ρ} {s : StackState ρ} (h : Lts.Reach (Started mem) (machineStep C) s)
    {i : ThreadId} {rest : List (StackFrame ρ)}
    (hi : s.threads[i]? = some (.workerLoad :: rest)) : s.shared.queue = [] := by
  have hempty := (queueServed h).empty
  simp only [MachineState.workView, workView, census_split _ [.workerLoad] rest hi] at hempty
  have hle : census Frame.popping (s.threads.set i rest) ≤
      census Frame.locksQueue (s.threads.set i rest) :=
    census_mono (fun f => by cases f <;> simp) _
  refine List.length_eq_zero_iff.mp (hempty ?_)
  simp only [weight_cons, weight_nil, Frame.popping, Frame.locksQueue]
  omega

/-- **Without late pushes the workers leave an empty queue.** -/
theorem queue_empty {H : Hooks ρ} {mem : StackMem ρ} {s : StackState ρ}
    (h : Lts.ReachBy (Started mem) (machineStep (stackClient H)) (fun s a => ¬ LatePush s a) s)
    (hend : WorkersEnded s) : s.shared.queue = [] := by
  refine h.invariant (I := fun s => WorkersEnded s → s.shared.queue = []) ?_ ?_ hend
  · rintro s ⟨n, rfl⟩ -
    rfl
  · intro s a s' hr ih hlate hs hend'
    have hrun := workersRun hr.reach
    cases machineStep_cases hs with
    | @exit i c o hi =>
        rcases WorkersEnded.of_set hrun.started hend' with hbefore | ⟨hlt, -⟩
        · exact ih hbefore
        · have hworker := hrun.worker i _ hi hlt
          simp at hworker
    | @resume i c o f rest hi =>
        rcases WorkersEnded.of_set hrun.started hend' with hbefore | ⟨hlt, hnil⟩
        · exact ih hbefore
        · have hworker := (hrun.worker i _ hi hlt).resolve_left (by simp)
          have hkeep := (workerCalm hr.reach _ (List.mem_of_getElem? hi)).worker_resume (H := H)
          rw [hnil, hworker] at hkeep
          simp at hkeep
    | @frame i c f rest fs sh hi h =>
        rcases WorkersEnded.of_set hrun.started hend' with hbefore | ⟨hlt, hnil⟩
        · refine h.queue_nil ?_ (ih hbefore)
          rintro t rfl
          exact hlate ⟨by simp [hi], hbefore⟩
        · rcases h.worker_stays with heq | ⟨rfl, rfl, -, rfl⟩
          · have hworker := (hrun.worker i _ hi hlt).resolve_left (by simp)
            have hzero := congrArg (weight Frame.worker) hnil
            rw [weight_append, heq] at hzero
            rw [weight_cons, hzero] at hworker
            simp at hworker
          · have hqueue : s.shared.queue = [] := queue_nil_of_workerLoad hr.reach hi
            exact hqueue
    | @spawn code he =>
        refine ih fun k hk => ?_
        have hlen : k < s.threads.length := lt_of_lt_of_le hk hrun.started
        simpa [List.getElem?_append_left hlen] using hend' k hk
    | register => exact ih hend'
    | spurious => exact ih hend'
    | release => exact ih hend'

/-! ### After the shutdown -/

/-- The shutdown is over: the flag is set, all workers have left, and no thread is inside
`dispatch`, `shutdown` or a `prepare_blocking`. -/
structure Quiescent (s : StackState ρ) : Prop where
  shutdown : s.shared.shutdown = true
  workers : WorkersEnded s
  calls : ∀ st ∈ s.threads, ∀ f ∈ st, f.inCall = false

/-- No accepted job is left behind: no task is queued, every job whose `dispatch` returned
`Ok` is over, and nobody waits for its end. -/
structure NoneStranded (s : StackState ρ) : Prop where
  queue : s.shared.queue = []
  finished : ∀ k j job, s.shared.client.job? k j = some job → job.dispatched = .accepted →
    job.record.state.terminal = true ∧ job.record.wake = []

/-- After the shutdown all threads are idle. -/
theorem Quiescent.idle {H : Hooks ρ} {mem : StackMem ρ} {s : StackState ρ} (hq : Quiescent s)
    (h : Lts.Reach (Started mem) (machineStep (stackClient H)) s) :
    ∀ st ∈ s.threads, ∀ f ∈ st, f.idle = true := by
  intro st hst
  refine (anchored h st hst).idle fun f hf => ?_
  rintro (hcall | hworker)
  · simp [hq.calls st hst f hf] at hcall
  · obtain ⟨i, hi⟩ := List.getElem?_of_mem hst
    by_cases hlt : i < s.workers
    · have hnil := hq.workers i hlt
      rw [hi, Option.some.injEq] at hnil
      simp [hnil] at hf
    · have hz := (workersRun h).other i st hi (Nat.le_of_not_lt hlt)
      have hfz : f.worker = 0 := (List.sum_eq_zero_iff.mp hz) _ (List.mem_map_of_mem hf)
      omega

/-- An idle frame is code of `stack.rs`, or the result of a call. -/
theorem Frame.idle_cases {f : StackFrame ρ} (h : f.idle = true) :
    (∃ code, f = .client code) ∨ ∃ r, f = .ret (.call r) := by
  cases f with
  | client code => exact .inl ⟨code, rfl⟩
  | ret o =>
      cases o with
      | call r => exact .inr ⟨r, rfl⟩
      | _ => exact absurd h Bool.false_ne_true
  | _ => exact absurd h Bool.false_ne_true

/-- Idle threads with an empty queue hold no lane. -/
theorem waiting_nil {H : Hooks ρ} {mem : StackMem ρ} {s : StackState ρ}
    (h : Lts.Reach (Started mem) (machineStep (stackClient H)) s)
    (hidle : ∀ st ∈ s.threads, ∀ f ∈ st, f.idle = true) (hqueue : s.shared.queue = [])
    {b : BackendId} {rt : BackendRuntime Task} (hb : s.shared.backends[b]? = some rt) :
    rt.waiting = [] := by
  have hbal := lanesBalanced h hb 0
  have hholds : census (Frame.holds b) s.threads = 0 :=
    census_eq_zero_iff.mpr fun st hst f hf => by
      rcases Frame.idle_cases (hidle st hst f hf) with ⟨code, rfl⟩ | ⟨r, rfl⟩ <;> rfl
  have hpermits : census (Frame.permits b) s.threads = 0 :=
    census_eq_zero_iff.mpr fun st hst f hf => by
      rcases Frame.idle_cases (hidle st hst f hf) with ⟨code, rfl⟩ | ⟨r, rfl⟩ <;> rfl
  have hlanes : rt.lanesInUse = 0 := by
    have heq := hbal.lanes
    simpa [laneView, hholds, hpermits, hqueue] using heq
  have hpos : 0 < rt.laneCount := hbal.prepareLanes_pos.trans_le hbal.prepareLanes_le
  by_contra hne
  have hfull : rt.lanesInUse = rt.laneCount := hbal.full hne
  omega

/-- An idle frame carries nothing. -/
theorem Frame.ofJob_idle {f : StackFrame ρ} (h : f.idle = true) (s : StackId) (j : JobId) :
    f.ofJob s j = 0 := by
  rcases Frame.idle_cases h with ⟨code, rfl⟩ | ⟨r, rfl⟩
  · cases code with
    | task | dispatchInsert | dispatchSubmit | dispatchErr => exact absurd h Bool.false_ne_true
    | _ => rfl
  · rfl

/-- After the shutdown nothing carries a job. -/
theorem carriers_eq_zero {H : Hooks ρ} {mem : StackMem ρ} {s : StackState ρ}
    (h : Lts.Reach (Started mem) (machineStep (stackClient H)) s)
    (hidle : ∀ st ∈ s.threads, ∀ f ∈ st, f.idle = true) (hqueue : s.shared.queue = [])
    (k : StackId) (j : JobId) : carriers k j s = 0 := by
  have hframes : census (Frame.ofJob k j) s.threads = 0 :=
    census_eq_zero_iff.mpr fun st hst f hf => Frame.ofJob_idle (hidle st hst f hf) k j
  have hwaiting : census (Scheduled.ofJob k j) (s.shared.backends.map (·.waiting)) = 0 := by
    refine census_eq_zero_iff.mpr fun ts hts t ht => ?_
    obtain ⟨rt, hrt, rfl⟩ := List.mem_map.mp hts
    obtain ⟨b, hb⟩ := List.getElem?_of_mem hrt
    simp [waiting_nil h hidle hqueue hb] at ht
  simp [carriers, queuedCarriers, hframes, hwaiting, hqueue]

/-- In every reachable state nobody is left waiting for a job that is over. -/
theorem quietRecords {H : Hooks ρ} {specs : List (BackendId × ℕ)} {s : StackState ρ}
    (h : Lts.Reach (Started (createStacks specs)) (machineStep (stackClient H)) s) :
    QuietRecords s.shared.client := by
  refine h.invariant (I := fun s => QuietRecords s.shared.client) ?_ ?_
  · rintro s ⟨n, rfl⟩ k j job hjob
    simp [MachineState.start, job?_createStacks] at hjob
  · intro s a s' _ hquiet _ hs
    cases machineStep_cases hs with
    | frame _ h =>
        cases h with
        | client h => exact (stackStep_cases h).quietRecords hquiet
        | rejectOn h | rejectDone h => exact (rejectStep_cases h).quietRecords hquiet
        | _ => simpa using hquiet
    | _ => exact hquiet

/-- **A shutdown strands no accepted job in a run without late pushes**, for any hooks,
stacks, number of workers and interleaving. -/
theorem none_stranded {H : Hooks ρ} {specs : List (BackendId × ℕ)} {s : StackState ρ}
    (h : Lts.ReachBy (Started (createStacks specs)) (machineStep (stackClient H))
      (fun s a => ¬ LatePush s a) s) (hq : Quiescent s) : NoneStranded s := by
  have hqueue := queue_empty h hq.workers
  have hidle := hq.idle h.reach
  refine ⟨hqueue, fun k j job hjob hacc => ?_⟩
  have hover : job.record.state.terminal = true := by
    by_contra hterm
    have howed : Owed s.shared.client k j :=
      ⟨job, hjob, by simpa using hterm, by simp [hacc]⟩
    have hpos := carried h.reach k j howed
    have hzero := carriers_eq_zero h.reach hidle hqueue k j
    omega
  exact ⟨hover, quietRecords h.reach k j job hjob hover⟩

/-! ### The stranded job -/

/-- Hooks that always succeed. -/
def steadyHooks : Hooks ℕ where
  compile _ := .ok 0
  prepare _ := .ok ()
  encode _ := .ok ()
  stage _ := .ok ()
  decode _ := .ok [7]

/-- The state after some actions, from an executor with one worker and one stack whose
plan has no stages. -/
def stackAfter (actions : List (Action (Code ℕ))) : StackState ℕ :=
  (Lts.runs (machineStep (stackClient steadyHooks)) (fun _ _ => True)
    (.start (createStacks [(0, 0)]) 1) actions).getD (.start (createStacks [(0, 0)]) 1)

/-- A job is dispatched, encoded and decoded, and the executor is shut down. -/
def orderlyShutdown : List (Action (Code ℕ)) :=
  [.register 1 1, .spawn (.dispatch 0), .spawn .shutdown] ++ List.replicate 10 (.step 1 0) ++
    List.replicate 21 (.step 0 0) ++ List.replicate 10 (.step 2 0) ++
    List.replicate 3 (.step 0 0) ++ List.replicate 5 (.step 2 0)

/-- A `dispatch` loads the flag, the executor is shut down, and then it pushes. -/
def lateShutdown : List (Action (Code ℕ)) :=
  [.register 1 1, .spawn (.dispatch 0), .spawn .shutdown] ++ List.replicate 5 (.step 1 0) ++
    List.replicate 10 (.step 2 0) ++ List.replicate 3 (.step 0 0) ++
    List.replicate 5 (.step 2 0) ++ List.replicate 5 (.step 1 0)

/-- After an orderly shutdown nothing is left behind. -/
theorem none_stranded_orderly :
    (stackAfter orderlyShutdown).shared.client.job? 0 1 ≠ none ∧
      NoneStranded (stackAfter orderlyShutdown) := by
  have hquiet : Quiescent (stackAfter orderlyShutdown) := ⟨rfl, by decide, by decide⟩
  have hrun : Lts.ReachBy (Started (createStacks [(0, 0)]))
      (machineStep (stackClient steadyHooks)) (fun s a => ¬ LatePush s a)
      (stackAfter orderlyShutdown) := .of_runs orderlyShutdown ⟨1, rfl⟩ rfl
  exact ⟨Option.some_ne_none _, none_stranded hrun hquiet⟩

/-- **A job can be stranded**: the shutdown is over, yet the task of an accepted job is
queued, the job is not over, and no thread is left to run or reject it. -/
theorem job_stranded :
    Lts.Reach (Started (createStacks [(0, 0)])) (machineStep (stackClient steadyHooks))
        (stackAfter lateShutdown) ∧
      Quiescent (stackAfter lateShutdown) ∧ ¬ NoneStranded (stackAfter lateShutdown) := by
  refine ⟨.of_runs lateShutdown ⟨1, rfl⟩ rfl, ⟨rfl, by decide, by decide⟩, fun h => ?_⟩
  exact absurd h.queue (List.cons_ne_nil _ _)

/-- Every late push leaves a task that no worker will pop. -/
theorem latePush_strands {H : Hooks ρ} {s s' : StackState ρ} {a : Action (Code ρ)}
    (hs : machineStep (stackClient H) s a = some s') (hlate : LatePush s a) :
    WorkersEnded s' ∧ s'.shared.queue ≠ [] := by
  cases machineStep_cases hs with
  | spawn | register | spurious | release => exact absurd hlate (by simp [LatePush])
  | exit hi => exact absurd hlate (by simp [LatePush, hi])
  | resume hi => exact absurd hlate (by simp [LatePush, hi])
  | @frame i c f rest fs sh hi hf =>
      obtain ⟨htop, hend⟩ := hlate
      cases hf with
      | submitPush =>
          refine ⟨fun k hk => ?_, by simp⟩
          have hne : i ≠ k := by
            rintro rfl
            simp [hend i hk] at hi
          simpa [List.getElem?_set_ne hne] using hend k hk
      | _ => simp [hi] at htop

end Braids
