import Braids.Executor.Progress
import Braids.Runtime.Isolation
import Braids.Runtime.Panics

/-!
# Nobody Waits for Ever

The calls of a stack wait for its locks, for the condition variable of a job, for a permit and
for a lane. The order in which they do is what keeps them going: tasks and prepare hooks wait
for nobody, the write lock and the read guards of the current version are held across steps
that wait for nobody, a call that holds the planner state waits for these and for a permit,
and a collector waits for a job that some task carries.

So as long as the executor is not shut down, a state in which no thread can take a step has
nothing left to do: every call has returned, every worker is parked, and every job is over.

## Main results

* `stackCalls`: what the executor has to know of the stack.
* `topReady`: the code on top of a stack waits for no call of the executor.
* `JobCode.Fits.goes_on`: tasks are never blocked.
* `no_deadlock`: some thread can take a step, or nothing is left to do.
-/

namespace Braids.Runtime

open Census

variable {T : Types} {H : Hooks T}

/-! ### The stack as a client -/

/-- The code that runs under a prepare permit. -/
def Code.isHook : Code T → Bool
  | .planner (.prepareHook ..) => true
  | _ => false

/-- **What the executor has to know of the stack**: its hooks call nobody. -/
theorem stackCalls : CallCode (stackClient H) Code.isTask Code.isHook where
  toTaskCode := stackTasks
  prepares {i n mem mem' code b next after} h := by
    have hcalls := (stackStep_cases h).calls
    generalize hact : ClientAct.prepare b next after = act at h
    cases stackStep_cases h with
    | planner hs =>
        cases hs with
        | prepare =>
            simp only [liftAct, ClientAct.prepare.injEq] at hact
            obtain ⟨-, rfl, -⟩ := hact
            exact ⟨rfl, rfl⟩
        | _ => simp [liftAct] at hact
    | @task j code job job' pools act hj hs =>
        cases act <;> simp only [liftAct, reduceCtorEq] at hact
        exact (hs.calm.1 _ _ _ rfl).elim
    | _ => simp at hact
  hooks {i n mem mem' code act} hcode h := by
    have hs := stackStep_cases h
    unfold Code.isHook at hcode
    split at hcode
    · cases hs with
      | planner hs => cases hs <;> exact .inr ⟨_, rfl⟩
      | leave hleave => exact hleave.elim
    · simp at hcode
  hook_resume {code r} hcode := by
    unfold Code.isHook at hcode
    split at hcode
    · rfl
    · simp at hcode

/-- What runs under a permit is a prepare hook. -/
theorem Prepares.isHook {caller hook : Code T} (h : Prepares caller hook) :
    ∃ number compiled reuse, hook = .planner (.prepareHook number compiled reuse) := by
  unfold Prepares at h
  split at h
  · exact ⟨_, _, _, rfl⟩
  · exact h.elim

/-! ### Whom calls ask -/

/-- A stack asks its own backend. -/
theorem stackHome : AsksHome (stackClient H) Mem.backend where
  step {i n mem mem' code act} h := by
    have hs := stackStep_cases h
    refine ⟨?_, fun b hb => ?_⟩
    · cases hs <;> rfl
    · cases hs with
      | planner hs => cases hs <;> simp_all [liftAct, ClientAct.asks]
      | task hj hs =>
          cases hs with
          | leave hcode hact => rcases hact with rfl | rfl <;> simp [liftAct, ClientAct.asks] at hb
          | _ => simp_all [liftAct, ClientAct.asks]
      | _ => simp [ClientAct.asks] at hb
  reject h := by cases rejectStep_cases h <;> rfl

/-! ### What is on top -/

/-- A prepare hook that returned `Ok` has left a prepared state. -/
def Code.Prepared (m : Mem T) : Code T → CallResult → Prop
  | .planner (.preparing number _ _), .ok => m.planner.results number ≠ none
  | _, _ => True

/-- What `prepare_blocking` returns stays there. -/
theorem StackStep.results {self : ThreadId} {m m' : Mem T} {code : Code T}
    {act : ClientAct (Code T) Task} (h : StackStep H self m code m' act) {n : ℕ}
    (hn : m.planner.results n ≠ none) : m'.planner.results n ≠ none := by
  cases h with
  | planner hs =>
      cases hs with
      | @prepareOk number k compiled reuse prepared =>
          simp only [Function.update_apply]
          split <;> simp_all
      | _ => exact hn
  | _ => exact hn

/-- What was prepared stays prepared. -/
theorem Code.Prepared.mono {m m' : Mem T}
    (hm : ∀ n, m.planner.results n ≠ none → m'.planner.results n ≠ none) {code : Code T}
    {r : CallResult} (h : code.Prepared m r) : code.Prepared m' r := by
  unfold Code.Prepared at h ⊢
  split
  · exact hm _ h
  · trivial

/-- A prepare hook that returns `Ok` leaves what it has prepared. -/
theorem StackStep.prepared {self : ThreadId} {m m' : Mem T} {code hook : Code T} {r : CallResult}
    (hp : Prepares code hook) (h : StackStep H self m hook m' (.ret r)) :
    code.Prepared m' r := by
  unfold Prepares at hp
  split at hp
  · obtain ⟨rfl, rfl⟩ := hp
    generalize hact : ClientAct.ret r = act at h
    cases h with
    | planner hs =>
        cases hs with
        | prepareOk =>
            obtain rfl : r = .ok := by simpa [liftAct] using hact
            simp [Code.Prepared]
        | poisoned | prepareFailed | preparePanicked =>
            obtain rfl := by simpa [liftAct] using hact
            trivial
        | _ => simp_all
    | leave hleave => exact hleave.elim
  · exact hp.elim

/-- The contract of a stack, with what a prepare hook leaves. -/
def preparedContract (H : Hooks T) : Contract (stackClient H) where
  Submits := Submits
  Schedules := Schedules
  Prepares := Prepares
  Rejects := (stackContract H).Rejects
  Returns m code r := Returns m code r ∧ code.Prepared m r
  submit := (stackContract H).submit
  schedule := (stackContract H).schedule
  prepare := (stackContract H).prepare
  shutdown h := by
    refine ⟨(stackContract H).shutdown h, ?_⟩
    rcases (stackStep_cases h).calls with rfl | ⟨j, rfl⟩ <;> trivial
  submit_ok {code task} h m := by
    refine ⟨(stackContract H).submit_ok h m, ?_⟩
    unfold Submits at h
    split at h
    · trivial
    · trivial
    · exact h.elim
  schedule_ok {code task} h m := by
    refine ⟨(stackContract H).schedule_ok h m, ?_⟩
    unfold Schedules at h
    split at h
    · trivial
    · exact h.elim
  prepare_refused {code hook} h m := by
    refine ⟨(stackContract H).prepare_refused h m, ?_⟩
    unfold Code.Prepared
    split <;> simp_all
  hook {code hook i n m m' act} hp h := by
    obtain ⟨r, rfl, hr⟩ := (stackStep_cases h).hook hp
    exact .inr ⟨r, rfl, hr, (stackStep_cases h).prepared hp⟩
  hook_resume := (stackContract H).hook_resume
  reject := (stackContract H).reject
  reject_on := (stackContract H).reject_on
  reject_done {code n m m'} hr h := by
    refine ⟨(stackContract H).reject_done hr h, ?_⟩
    obtain ⟨i, rfl⟩ := hr
    trivial
  stable h hr := ⟨(stackContract H).stable h hr.1,
    hr.2.mono fun _ => (stackStep_cases h).results⟩
  stable_reject h hr := ⟨(stackContract H).stable_reject h hr.1,
    hr.2.mono fun _ hn => by cases rejectStep_cases h <;> exact hn⟩

/-- The code waits for a call below which it lies, or for a prepared state that is not there. -/
def Code.Stalls (m : Mem T) : Code T → Prop
  | .planner (.preparing ..) | .dispatchWait _ | .task _ (.await _) => True
  | .planner (.prepared number _ _ .ok) => m.planner.results number = none
  | _ => False

/-- Code that has stopped waiting does not begin to. -/
theorem Code.Stalls.anti {m m' : Mem T}
    (hm : ∀ n, m.planner.results n ≠ none → m'.planner.results n ≠ none) {code : Code T}
    (h : code.Stalls m') : code.Stalls m := by
  unfold Code.Stalls at h
  split at h
  · trivial
  · trivial
  · trivial
  · by_contra hn
    exact hm _ hn h
  · exact h.elim

/-- The stack goes on at code that waits for no call. -/
theorem StackStep.goto_ready {self : ThreadId} {m m' : Mem T} {code next : Code T}
    (h : StackStep H self m code m' (.goto next)) : ¬ next.Stalls m' := by
  generalize hact : ClientAct.goto next = act at h
  cases h with
  | planner hs =>
      cases hs <;> simp only [liftAct, ClientAct.goto.injEq, reduceCtorEq] at hact <;>
        subst hact <;> exact id
  | task hj hs =>
      cases hs with
      | leave hcode hact' => rcases hact' with rfl | rfl <;> simp [liftAct] at hact
      | _ =>
        simp only [liftAct, ClientAct.goto.injEq, reduceCtorEq] at hact
        try subst hact
        try exact id
  | _ =>
      simp only [ClientAct.goto.injEq, reduceCtorEq] at hact
      try subst hact
      try exact id

/-- What a call returns to goes on. -/
theorem resume_ready {m : Mem T} {code : Code T} {r : CallResult} (h : Returns m code r)
    (hp : code.Prepared m r) : ¬ (resume code r).Stalls m := by
  unfold Returns at h
  split at h
  · rcases h with rfl | ⟨rfl, -⟩ <;> exact id
  · obtain rfl := h
    exact id
  · obtain rfl := h
    exact id
  · cases r with
    | ok => exact hp
    | _ => exact id
  · exact id
  · exact id
  · exact h.elim

/-- So does what a refused task is returned to. -/
theorem resume_refused_ready {m : Mem T} {code : Code T} {task : Task} {error : BraidError}
    (h : Submits code task) : ¬ (resume code (.err error)).Stalls m := by
  unfold Submits at h
  split at h
  · exact id
  · exact id
  · exact h.elim

/-- A task begins with code that waits for no call. -/
theorem run_ready {m : Mem T} (task : Task) : ¬ ((stackClient H).run task).Stalls m := by
  obtain ⟨j, kind⟩ := task
  cases kind <;> exact id

/-- The code on top of the stack waits for no call of the executor. -/
def TopReady (m : Mem T) (st : List (Frame (Code T) Task RejectCode)) : Prop :=
  ∀ code rest, st = .client code :: rest → ¬ code.Stalls m

/-- A step of the top frame leads to code that goes on. -/
theorem TopReady.step {sh sh' : Shared (Mem T) Task} {w : ℕ} {e : ThreadId → Bool}
    {i : ThreadId} {f : Frame (Code T) Task RejectCode}
    {fs rest : List (Frame (Code T) Task RejectCode)}
    (h : FrameStep (stackClient H) sh w e i f sh' fs) (hst : WorkerStack (f :: rest))
    (hk : Braids.Keeps (preparedContract H) sh.client (f :: rest)) :
    TopReady sh'.client (fs ++ rest) := by
  intro code rest' heq
  cases h with
  | @client code' n mem act h =>
      cases act with
      | goto next =>
          obtain ⟨hcode, -⟩ := List.cons.inj heq
          obtain rfl : next = code := by simpa using hcode
          exact (stackStep_cases h).goto_ready
      | _ => simp [callFrames] at heq
  | @submitRefused task => cases task <;> simp [refuse] at heq
  | permit =>
      obtain ⟨caller, hp⟩ := hk.acquires
      obtain ⟨number, compiled, reuse, rfl⟩ := Prepares.isHook hp
      obtain rfl : Code.planner (.prepareHook number compiled reuse) = code := by
        simpa using (List.cons.inj heq).1
      exact id
  | @popPlain task =>
      obtain rfl : (stackClient H).run task = code := by simpa using (List.cons.inj heq).1
      exact run_ready task
  | @popWrapped b task =>
      obtain rfl : (stackClient H).run task.closure = code := by simpa using (List.cons.inj heq).1
      exact run_ready task.closure
  | exit =>
      obtain rfl := hst.worker_only rfl
      simp at heq
  | _ => simp at heq

/-- What an outcome is returned to goes on. -/
theorem TopReady.resume {m : Mem T} {o : Outcome Task} {f : Frame (Code T) Task RejectCode}
    {rest : List (Frame (Code T) Task RejectCode)} (hst : WorkerStack (.ret o :: f :: rest))
    (hk : Braids.Keeps (preparedContract H) m (.ret o :: f :: rest)) :
    TopReady m (f.resume (stackClient H) o ++ rest) := by
  intro code rest' heq
  cases f with
  | client caller =>
      obtain rfl : (stackClient H).resume caller o.result = code := by
        simpa using (List.cons.inj heq).1
      rcases hk.returned with ⟨task, rfl, hs⟩ | ⟨r, rfl, hr, hp⟩
      · exact resume_refused_ready hs
      · exact resume_ready hr hp
  | workerLock =>
      obtain rfl := hst.nil_of_loop
      rcases Frame.resume_workerLock (C := stackClient H) o with hres | hres <;>
        simp [hres] at heq
  | finishLaneCheck b => obtain (_ | _ | _) | _ := o <;> simp [Frame.resume] at heq
  | finishPrepareCheck b r => obtain (_ | _ | _) | _ := o <;> simp [Frame.resume] at heq
  | _ => simp [Frame.resume] at heq

/-- **The code on top of every stack waits for no call**, in every reachable state. -/
theorem topReady {s : MachineState (Mem T) (Code T) Task RejectCode} (h : Reached H s) :
    ∀ st ∈ s.threads, TopReady s.shared.client st := by
  obtain ⟨m, -, hr⟩ := h
  have hall : ∀ st ∈ s.threads, WorkerStack st ∧
      Braids.Keeps (preparedContract H) s.shared.client st ∧ TopReady s.shared.client st := by
    refine stack_invariant_of (P := fun m st => WorkerStack st ∧
      Braids.Keeps (preparedContract H) m st ∧ TopReady m st) ?_ ?_ ?_ ?_ ?_ ?_ hr
    · exact fun _ => ⟨.none (by simp), .fitting trivial, fun _ _ heq => by simp at heq⟩
    · exact fun _ => ⟨.outside [] (by simp), .fitting ⟨trivial, trivial⟩,
        fun _ _ heq => by simp at heq⟩
    · rintro m code he
      refine ⟨.none (by simp), .fitting ⟨trivial, trivial⟩, fun code' rest heq => ?_⟩
      obtain rfl : code = code' := by simpa using (List.cons.inj heq).1
      cases code with
      | planner code => cases code <;> first | exact id | simp [stackClient, isEntry] at he
      | task => simp [stackClient, isEntry] at he
      | dispatchWait => simp [stackClient, isEntry] at he
      | _ => exact id
    · exact fun m o f rest hst => ⟨hst.1.resume, hst.2.1.resume, .resume hst.1 hst.2.1⟩
    · exact fun hf hst => ⟨hf.workerStack hst.1, hf.keeps hst.2.1, .step hf hst.1 hst.2.1⟩
    · rintro sh sh' w e i f fs st hf ⟨hws, hk, hready⟩
      refine ⟨hws, hk.mono fun _ _ => hf.returns, fun code rest heq hstalls => ?_⟩
      refine hready code rest heq (hstalls.anti fun n hn => ?_)
      cases hf with
      | client h => exact (stackStep_cases h).results hn
      | rejectOn h | rejectDone h => cases rejectStep_cases h <;> exact hn
      | _ => simpa using hn
  exact fun st hst => (hall st hst).2.2

/-! ### Tasks are never blocked -/

/-- Only `run_stage` locks the packet slot. -/
theorem Job.Has.unlocked {job : Job T} {custody : Custody} (h : job.Has custody)
    (hlent : ∀ pkt, custody ≠ .lent pkt) : job.packetLock ≠ .held := by
  cases custody with
  | lent pkt => exact (hlent pkt rfl).elim
  | buried => simp [h.2.1]
  | _ => simp [h.2.1]

/-- A job that is given up has given its packet away. -/
theorem Custody.Closed.not_lent {custody : Custody} (h : custody.Closed) (pkt : Packet) :
    custody ≠ .lent pkt := by
  rintro rfl
  exact h

/-- **A task is never blocked**: nobody else locks the packet slot of its job. -/
theorem JobCode.Fits.goes_on {code : JobCode T} {job : Job T} {ended : Prop}
    (h : code.Fits ended job) (hrej : ended → job.Rejected) (hawait : ∀ next, code ≠ .await next)
    (b : BackendId) (n : ℕ) (pools : Pools) : jobStep H b n pools job code ≠ none := by
  have hslot : ∀ {next}, job.Ready next → job.packetLock ≠ .held := by
    intro next hready
    rw [hready.slot.1]
    simp
  cases code with
  | await next => exact (hawait next rfl).elim
  | store pkt =>
      have hat : job.At .running (.inTask pkt) ((job.script pkt.serial).take 1)
        (job.version.steps.take 1) := h
      have hlock := hat.has.unlocked (by simp)
      simp only [jobStep]
      split <;> simp_all
  | stageLock i =>
      have hready : job.Ready (.stage i) := h
      have hlock := hslot hready
      simp only [jobStep]
      split <;> simp_all
  | take =>
      have hlock := hslot h.1
      simp only [jobStep]
      split <;> try simp_all
      split <;> simp
  | caught again error =>
      have hlock : job.packetLock ≠ .held := by
        cases again with
        | true =>
            obtain ⟨-, custody, hclosed, hhas⟩ := hrej h.2
            exact hhas.unlocked hclosed.not_lent
        | false =>
            obtain ⟨custody, hfails, hclosed | ⟨pkt, rfl⟩⟩ := h
            · exact hfails.2.1.unlocked hclosed.not_lent
            · exact hfails.2.1.unlocked (by simp)
      simp only [jobStep]
      split <;> simp_all
  | giveBack pkt result =>
      simp only [jobStep]
      split <;> simp
  | encodeHook pkt | stageHook i stage pkt | decodeHook pkt =>
      simp only [jobStep]
      repeat' split
      all_goals simp
  | mark | checkout | scratch | encoded | finishCompleted =>
      simp only [jobStep]
      repeat' split
      all_goals simp
  | schedule next | refused next => cases next <;> simp [jobStep]
  | _ => simp [jobStep]

/-! ### Who holds the planner scratch -/

/-- The planner scratch is locked only while some call compiles. -/
def ScratchUsed (v : SoupView (Mem T) (Code T) Task RejectCode) : Prop :=
  v.1.planner.scratchLock = .held → ∃ call, .code (.planner (.compileHook call)) ∈ v.2

/-- A call locks the planner scratch when it begins to compile, and unlocks it at the end. -/
theorem PlannerStep.scratch_used {b : BackendId} {m m' : PlannerMem T} {code : PlannerCode T}
    {act : ClientAct (PlannerCode T) JobTask} (h : PlannerStep H b m code m' act)
    (hlocks : code.locks = 1 → m.stateLock = .held) (hheld : m'.scratchLock = .held) :
    (∃ call, act = .goto (.compileHook call)) ∨
      (m.scratchLock = .held ∧ ∀ call, code ≠ .compileHook call) := by
  cases h with
  | scratch => exact .inl ⟨_, rfl⟩
  | compiled | compileFailed | compilePanicked => simp at hheld
  | poisoned h =>
      refine .inr ⟨hheld, ?_⟩
      rintro call rfl
      simp [hlocks rfl] at h
  | edited hcode | editPanicked hcode =>
      refine .inr ⟨hheld, ?_⟩
      rcases hcode with ⟨_, rfl⟩ | ⟨_, rfl⟩ <;> simp
  | _ => exact .inr ⟨hheld, by simp⟩

/-- A reject side does not lock the planner scratch. -/
theorem StackReject.scratchLock {m m' : Mem T} {code : RejectCode} {next : Option RejectCode}
    (h : StackReject m code m' next) : m'.planner.scratchLock = m.planner.scratchLock := by
  cases h <;> rfl

/-- **Whoever holds the planner scratch compiles**, in every reachable state. -/
theorem Reached.scratch_used {s : MachineState (Mem T) (Code T) Task RejectCode}
    (h : Reached H s) : ScratchUsed (s.shared.client, s.soup) := by
  refine h.invariant (I := ScratchUsed) ?_ ?_
  · intro b state compiled prepared hheld
    simp [Mem.create] at hheld
  · intro v v' hversions _ hused hstep hheld
    -- a step of another point leaves the one that compiles
    have hrest : ∀ {p : StackPoint T} {R : Soup (Code T) Task RejectCode},
        (∀ call, p ≠ .code (.planner (.compileHook call))) →
        (∃ call, .code (.planner (.compileHook call)) ∈ p ::ₘ R) →
        ∃ call, .code (.planner (.compileHook call)) ∈ R := by
      rintro p R hp ⟨call, hmem⟩
      rcases Multiset.mem_cons.mp hmem with heq | hmem
      · exact (hp call heq.symm).elim
      · exact ⟨call, hmem⟩
    have hmore : ∀ {Q R : Soup (Code T) Task RejectCode},
        (∃ call, .code (.planner (.compileHook call)) ∈ R) →
        ∃ call, .code (.planner (.compileHook call)) ∈ Q + R := by
      rintro Q R ⟨call, hmem⟩
      exact ⟨call, Multiset.mem_add.mpr (.inr hmem)⟩
    cases hstep with
    | idle => exact hused hheld
    | @step m m' code act i n R hs =>
        have hquiet : m'.planner.scratchLock = m.planner.scratchLock →
            (∀ call, code ≠ .planner (.compileHook call)) →
            ∃ call, .code (.planner (.compileHook call)) ∈ act.points + R := by
          intro hsame hcode
          exact hmore (hrest (by simpa using hcode) (hused (hsame ▸ hheld)))
        cases stackStep_cases hs with
        | @planner code planner act hplanner =>
            have hlocks : code.locks = 1 → m.planner.stateLock = .held := fun hone =>
              (hversions.singleton_add.planner.holder (by simp [StackPoint.ofPlanner, hone])).1
            rcases hplanner.scratch_used hlocks hheld with ⟨call, rfl⟩ | ⟨hold, hcode⟩
            · exact ⟨call, by simp [liftAct]⟩
            · exact hmore (hrest (by simpa using hcode) (hused hold))
        | leave hleave =>
            refine hquiet rfl ?_
            rintro call rfl
            exact hleave
        | _ => exact hquiet rfl (by simp)
    | rejectOn hs =>
        have hsame := (rejectStep_cases hs).scratchLock
        obtain ⟨call, hmem⟩ := hrest (by simp) (hused (hsame ▸ hheld))
        exact ⟨call, Multiset.mem_cons_of_mem hmem⟩
    | rejectDone hs =>
        exact hrest (by simp) (hused ((rejectStep_cases hs).scratchLock ▸ hheld))
    | run | runScheduled | reject | hookRun =>
        obtain ⟨call, hmem⟩ := hrest (by simp) (hused hheld)
        exact ⟨call, Multiset.mem_cons_of_mem hmem⟩
    | hookDrop => exact hrest (by simp) (hused hheld)
    | @refused m task code R hs =>
        have hcode : ∀ call, code ≠ .planner (.compileHook call) := by
          rintro call rfl
          exact hs
        obtain ⟨call, hmem⟩ := hrest (by simpa using hcode) (hrest (by simp) (hused hheld))
        exact ⟨call, Multiset.mem_cons_of_mem hmem⟩
    | @returned m code r R hr =>
        have hcode : ∀ call, code ≠ .planner (.compileHook call) := by
          rintro call rfl
          exact hr
        obtain ⟨call, hmem⟩ := hrest (by simpa using hcode) (hused hheld)
        exact ⟨call, Multiset.mem_cons_of_mem hmem⟩
    | spawn =>
        obtain ⟨call, hmem⟩ := hused hheld
        exact ⟨call, Multiset.mem_cons_of_mem hmem⟩

/-! ### Nothing is refused before the shutdown -/

/-- The frame hands back a refused task, or is of a `dispatch` that has learned of it. -/
def refusal : Frame (Code T) Task RejectCode → ℕ
  | .ret (.refused _ _) | .client (.dispatchErr _ _) => 1
  | _ => 0

/-- No task was refused, and no `dispatch` has failed. -/
structure NothingRefused (s : MachineState (Mem T) (Code T) Task RejectCode) : Prop where
  frames : census refusal s.threads = 0
  jobs : ∀ j job, s.shared.client.job j = some job → job.dispatched ≠ .refused

attribute [simp] refusal

/-- Only a call that fails leads to the end of a `dispatch` that fails. -/
theorem StackStep.no_refusal {self : ThreadId} {m m' : Mem T} {code : Code T}
    {act : ClientAct (Code T) Task} (h : StackStep H self m code m' act) :
    weight refusal (callFrames act) = 0 := by
  cases h with
  | planner hs => cases hs <;> simp [liftAct, callFrames]
  | task hj hs =>
      cases hs with
      | leave hcode hact => rcases hact with rfl | rfl <;> simp [liftAct, callFrames]
      | _ => simp [liftAct, callFrames]
  | _ => simp [callFrames]

/-- A `dispatch` that does not fail refuses no job. -/
theorem StackStep.not_refused {self : ThreadId} {m m' : Mem T} {code : Code T}
    {act : ClientAct (Code T) Task} (h : StackStep H self m code m' act)
    (hcode : refusal (.client code : Frame (Code T) Task RejectCode) = 0)
    (hclean : m.pools.Clean) (htable : m.tablePoisoned = false)
    (hjobs : ∀ j job, m.job j = some job → job.dispatched ≠ .refused) :
    ∀ j job, m'.job j = some job → job.dispatched ≠ .refused := by
  have hset : ∀ {i : JobId} {old new : Job T}, m.job i = some old →
      new.dispatched = old.dispatched ∨ new.dispatched = .accepted →
      ∀ j job, (m.setJob i new).job j = some job → job.dispatched ≠ .refused := by
    intro i old new hi hnew j job hj
    rw [Mem.setJob_job] at hj
    split at hj
    · obtain rfl := Option.some.inj hj
      rcases hnew with hsame | hacc
      · rw [hsame]
        exact hjobs i old hi
      · simp [hacc]
    · exact hjobs j job hj
  cases h with
  | dispatchId =>
      intro j job hj
      change (m.setJob m.nextJobId _).job j = some job at hj
      rw [Mem.setJob_job] at hj
      split at hj
      · obtain rfl := Option.some.inj hj
        simp
      · exact hjobs j job hj
  | insertPoisoned hi hp => simp [htable] at hp
  | dispatchErr => simp at hcode
  | dispatchOk hi => exact hset hi (.inr rfl)
  | task hi hs => exact hset hi (.inl (hs.dispatched hclean))
  | collectTake hi | collectPark hi | collectWoken hi | cancel hi => exact hset hi (.inl rfl)
  | _ => exact hjobs

/-- Nor does a reject side. -/
theorem StackReject.not_refused {m m' : Mem T} {code : RejectCode} {next : Option RejectCode}
    (h : StackReject m code m' next) (hclean : m.pools.Clean)
    (hjobs : ∀ j job, m.job j = some job → job.dispatched ≠ .refused) :
    ∀ j job, m'.job j = some job → job.dispatched ≠ .refused := by
  intro j job hj
  cases h with
  | @on i point next old new pools hi hs | @done i point old new pools hi hs =>
      change (m.setJob i new).job j = some job at hj
      rw [Mem.setJob_job] at hj
      split at hj
      · obtain rfl := Option.some.inj hj
        rw [hs.dispatched hclean]
        exact hjobs i old hi
      · exact hjobs j job hj
  | gone => exact hjobs j job hj

section Refusals

variable {sh sh' : Shared (Mem T) Task} {w : ℕ} {e : ThreadId → Bool} {i : ThreadId}
  {f : Frame (Code T) Task RejectCode} {fs rest : List (Frame (Code T) Task RejectCode)}
  {s : MachineState (Mem T) (Code T) Task RejectCode}

/-- A frame refuses nothing while the flag is unset. -/
theorem refusal_step (h : FrameStep (stackClient H) sh w e i f sh' fs)
    (hk : Braids.Keeps (stackContract H) sh.client (f :: rest)) (hflag : sh.shutdown = false) :
    weight refusal fs ≤ refusal f := by
  cases h with
  | client hs => rw [(stackStep_cases hs).no_refusal]; exact Nat.zero_le _
  | submitRefused hset => simp [hflag] at hset
  | permit =>
      obtain ⟨caller, hp⟩ := hk.acquires
      obtain ⟨number, compiled, reuse, rfl⟩ := Prepares.isHook hp
      simp
  | popPlain | popWrapped => simp [stackClient]
  | _ => simp

/-- Nothing refused is returned to a call. -/
theorem refusal_resume {m : Mem T} {o : Outcome Task}
    (hk : Braids.Keeps (stackContract H) m (.ret o :: f :: rest))
    (ho : refusal (.ret o : Frame (Code T) Task RejectCode) = 0) (hf : refusal f = 0) :
    weight refusal (f.resume (stackClient H) o) = 0 := by
  cases f with
  | client caller =>
      rcases hk.returned with ⟨task, rfl, -⟩ | ⟨r, rfl, hr⟩
      · simp at ho
      · have hreturns : Returns m caller r := hr
        have hresume :
            refusal (.client (resume caller r) : Frame (Code T) Task RejectCode) = 0 := by
          unfold Returns at hreturns
          split at hreturns
          · rcases hreturns with rfl | ⟨rfl, -⟩ <;> rfl
          · obtain rfl := hreturns
            rfl
          · obtain rfl := hreturns
            rfl
          · rfl
          · rfl
          · rfl
          · exact hreturns.elim
        simp only [Frame.resume, weight_cons, weight_nil, Nat.add_zero]
        exact hresume
  | workerLock => rcases Frame.resume_workerLock (C := stackClient H) o with hr | hr <;> simp [hr]
  | finishLaneCheck b => obtain (_ | _ | _) | _ := o <;> simp [Frame.resume]
  | finishPrepareCheck b r => obtain (_ | _ | _) | _ := o <;> simp [Frame.resume]
  | ret o' => simpa [Frame.resume] using hf
  | _ => simp [Frame.resume]

/-- **Nothing is refused before the shutdown**, in every reachable state. -/
theorem Reached.nothingRefused (h : Reached H s) (hflag : s.shared.shutdown = false) :
    NothingRefused s := by
  obtain ⟨m, hm, hr⟩ := h
  revert hflag
  refine hr.invariant (I := fun s => s.shared.shutdown = false → NothingRefused s) ?_ ?_
  · rintro s ⟨n, rfl⟩ -
    obtain ⟨b, state, compiled, prepared, rfl⟩ := hm
    exact ⟨by simp [MachineState.start, census], by simp [MachineState.start, Mem.create]⟩
  · intro s a s' hreach ih _ hs hflag
    have hjobs := (inOrder ⟨m, hm, hreach⟩).2
    have hkept := kept (stackContract H) hreach
    cases machineStep_cases hs with
    | @exit i c o hi =>
        obtain ⟨hframes, hdispatched⟩ := ih hflag
        rw [census_split _ [.ret o] [] hi] at hframes
        exact ⟨by simpa using (Nat.add_eq_zero_iff.mp hframes).1, hdispatched⟩
    | @resume i c o f rest hi =>
        obtain ⟨hframes, hdispatched⟩ := ih hflag
        rw [census_split _ [.ret o, f] rest hi] at hframes
        simp only [weight_cons, weight_nil, Nat.add_eq_zero_iff] at hframes
        obtain ⟨hothers, ho, hf, -⟩ := hframes
        refine ⟨?_, hdispatched⟩
        rw [census_replace _ hi, hothers,
          refusal_resume (hkept _ (List.mem_of_getElem? hi)) ho hf]
    | @frame i c f rest fs sh hi hf =>
        have hbefore : s.shared.shutdown = false := by
          by_contra hset
          simp [hf.shutdown_mono (by simpa using hset)] at hflag
        obtain ⟨hframes, hdispatched⟩ := ih hbefore
        rw [census_split _ [f] rest hi] at hframes
        simp only [weight_cons, weight_nil, Nat.add_eq_zero_iff, and_true] at hframes
        have hle := refusal_step hf (hkept _ (List.mem_of_getElem? hi)) hbefore
        refine ⟨?_, ?_⟩
        · rw [census_replace _ hi, hframes.1]
          omega
        · cases hf with
          | client hstep =>
              exact (stackStep_cases hstep).not_refused hframes.2 hjobs.pools hjobs.table
                hdispatched
          | rejectOn hstep | rejectDone hstep =>
              exact (rejectStep_cases hstep).not_refused hjobs.pools hdispatched
          | _ => simpa using hdispatched
    | @spawn code he =>
        obtain ⟨hframes, hdispatched⟩ := ih hflag
        refine ⟨?_, hdispatched⟩
        cases code with
        | dispatchErr => simp [stackClient, isEntry] at he
        | _ => simpa using hframes
    | register | spurious => exact ⟨(ih hflag).frames, (ih hflag).jobs⟩
    | release hset => simp [hset] at hflag

end Refusals

/-! ### Whom a call waits for -/

/-- What a call that cannot take a step waits for. -/
inductive Waits (m : Mem T) (self : ThreadId) : Code T → Prop
  /-- A call waits for the planner state. -/
  | state {code : PlannerCode T} (hcode : code.locks = 0) (h : m.planner.stateLock = .held) :
      Waits m self (.planner code)
  /-- `compile_from_state` waits for the planner scratch. -/
  | scratch {call : Transaction T} (h : m.planner.scratchLock = .held) :
      Waits m self (.planner (.scratch call))
  /-- `compile_from_state` waits for the current version. -/
  | write {call : Transaction T} {version : Version T}
      (h : m.planner.versionLock = .held ∨ m.planner.readers ≠ 0) :
      Waits m self (.planner (.writeLock call version))
  /-- `dispatch` waits for the current version. -/
  | dispatch {queries : List T.Query} {since : List ℕ} (h : m.planner.versionLock = .held) :
      Waits m self (.dispatchRead queries since)
  /-- An inline entry point waits for the current version. -/
  | read (h : m.planner.versionLock = .held) : Waits m self .read
  /-- `collect` waits for its job. -/
  | collect {j : JobId} {job : Job T} (hj : m.job j = some job) (h : self ∈ job.record.wake) :
      Waits m self (.collect j .parked)

/-- A call on the planner state that cannot take a step waits for a lock. -/
theorem plannerStep_waits {self : ThreadId} {m : Mem T} {code : PlannerCode T}
    (h : plannerStep H m.backend 0 m.planner code = none)
    (hready : ¬ (Code.planner code).Stalls m) : Waits m self (.planner code) := by
  cases code with
  | apply | replace | recompile | update =>
      simp only [plannerStep, PlannerMem.lockState] at h
      split at h
      · next hheld => exact .state rfl hheld
      · simp at h
      · simp at h
  | scratch call =>
      simp only [plannerStep] at h
      split at h
      · next hheld => exact .scratch hheld
      · simp at h
      · simp at h
  | writeLock call version =>
      simp only [plannerStep] at h
      split at h
      · next hheld => exact .write (.inl hheld)
      · simp at h
      · split at h
        · simp at h
        · next hreaders => exact .write (.inr hreaders)
  | preparing => exact (hready trivial).elim
  | prepared number call compiled result =>
      simp only [plannerStep] at h
      split at h
      · simp at h
      · next hnone => exact (hready hnone).elim
      · simp at h
      · simp at h
  | reuse =>
      simp only [plannerStep] at h
      split at h <;> simp at h
  | compileHook =>
      simp only [plannerStep] at h
      split at h <;> try simp at h
      split at h <;> simp at h
  | applyHook | replaceHook | updateHook | prepareHook =>
      simp only [plannerStep] at h
      split at h <;> simp at h
  | _ => simp [plannerStep] at h

/-- **Code that cannot take a step** waits for a lock or for a job. -/
theorem stackStep_waits {self : ThreadId} {m : Mem T} {code : Code T}
    (h : stackStep H self 0 m code = none) (hready : ¬ code.Stalls m)
    (hcode : code.isTask = false) (howned : ∀ j, code.owner = some j → m.job j ≠ none) :
    Waits m self code := by
  cases code with
  | planner code =>
      refine plannerStep_waits (H := H) (Option.eq_none_iff_forall_ne_some.mpr ?_) hready
      simpa [stackStep] using h
  | dispatchRead | read =>
      simp only [stackStep, Mem.readVersion] at h
      split at h
      · next hheld => first | exact .dispatch hheld | exact .read hheld
      · simp at h
      · simp at h
  | dispatchWait => exact (hready trivial).elim
  | task => simp [Code.isTask] at hcode
  | dispatchInsert j | dispatchOk j | dispatchErr j =>
      obtain ⟨job, hj⟩ := Option.ne_none_iff_exists'.mp (howned j rfl)
      simp only [stackStep, hj, Option.bind_eq_bind, Option.bind_some] at h
      try split at h
      all_goals simp at h
  | collect j point =>
      simp only [stackStep] at h
      split at h
      · next job hj =>
          cases point with
          | done => simp [collectJob] at h
          | remove => simp [collectJob] at h
          | lookup =>
              simp only [collectJob, collectStep] at h
              split at h
              · simp at h
              · split at h <;> simp at h
          | take =>
              simp only [collectJob, collectStep] at h
              split at h
              · simp at h
              · split at h <;> simp at h
          | parked =>
              simp only [collectJob, collectStep] at h
              split at h
              · simp at h
              · by_cases hwake : self ∈ job.record.wake
                · exact .collect hj hwake
                · simp [hwake] at h
      · simp at h
  | cancel | retire =>
      simp only [stackStep] at h
      split at h <;> try simp at h
      split at h <;> simp at h
  | _ => simp [stackStep] at h

/-! ### Nothing is left to do -/

section Rest

variable {s : MachineState (Mem T) (Code T) Task RejectCode}

/-- **Tasks and hooks on top go on**, in every reachable state. -/
theorem Reached.tasksGoOn (h : Reached H s) :
    TasksGoOn (stackClient H) Code.isTask Code.isHook s := by
  intro i code rest hi hcode
  have htop := topReady h _ (List.mem_of_getElem? hi) code rest rfl
  have hmem : .code code ∈ s.soup := points_of_top hi (Multiset.mem_singleton_self _)
  have hjobs := (inOrder h).2
  cases code with
  | task j code =>
      obtain ⟨job, hj⟩ := Option.ne_none_iff_exists'.mp (hjobs.owned _ hmem j rfl)
      have hjob := hjobs.job j job hj
      have hfits : code.Fits (j ∈ s.shared.client.rejected) job := hjob.fits _ hmem rfl
      have hgoes := hfits.goes_on (H := H) hjob.rejected
        (fun next heq => htop (by simp [heq, Code.Stalls])) s.shared.client.backend 0
        s.shared.client.pools
      obtain ⟨r, hr⟩ := Option.ne_none_iff_exists'.mp hgoes
      simp [stackClient, stackStep, hj, hr]
  | planner code =>
      cases code with
      | prepareHook number compiled reuse =>
          simp only [stackClient, stackStep, plannerStep]
          split <;> simp
      | _ => simp [Code.isTask, Code.isHook] at hcode
  | _ => simp [Code.isTask, Code.isHook] at hcode

/-- Nothing is left to do: nobody works, nobody waits for anything but new work, and every
job is over. -/
structure AtRest (s : MachineState (Mem T) (Code T) Task RejectCode) : Prop where
  threads : ∀ st ∈ s.threads, st = [] ∨ st = [.workerParked]
  queue : s.shared.queue = []
  backends : ∀ (b : BackendId) (rt : BackendRuntime Task), s.shared.backends[b]? = some rt →
    rt.Idle
  unlocked : s.shared.client.planner.stateLock ≠ .held ∧
    s.shared.client.planner.scratchLock ≠ .held ∧
    s.shared.client.planner.versionLock = .free ∧ s.shared.client.planner.readers = 0
  jobs : ∀ j job, s.shared.client.job j = some job →
    (statusOf job.record).terminal = true ∧ job.dispatched = .accepted

/-- What is left in a state at rest are calls that wait. -/
theorem Reached.waits (h : Reached H s) (hrest : Resting (stackClient H) s) {p : StackPoint T}
    (hp : p ∈ s.soup) : ∃ i code, p = .code code ∧ Waits s.shared.client i code := by
  rcases Multiset.mem_add.mp hp with hthread | hqueued
  · obtain ⟨st, hst, f, hf, hpoint⟩ := mem_census.mp hthread
    obtain ⟨i, hi⟩ := List.getElem?_of_mem hst
    rcases hrest.threads i st hi with rfl | rfl | ⟨code, rfl, hnone⟩
    · simp at hf
    · obtain rfl := List.mem_singleton.mp hf
      simp at hpoint
    · obtain rfl := List.mem_singleton.mp hf
      obtain rfl : p = .code code := Multiset.mem_singleton.mp hpoint
      refine ⟨i, code, rfl, stackStep_waits hnone (topReady h _ hst code [] rfl) ?_
        fun j => (inOrder h).2.owned _ hp j⟩
      by_contra htask
      exact h.tasksGoOn i code [] hi (.inl (by simpa using htask)) hnone
  · rcases Multiset.mem_add.mp hqueued with hmem | hmem
    · simp [hrest.queue] at hmem
    · obtain ⟨waiting, hwaiting, t, ht, -⟩ := mem_census.mp hmem
      obtain ⟨rt, hrt, rfl⟩ := List.mem_map.mp hwaiting
      obtain ⟨b, hb⟩ := List.getElem?_of_mem hrt
      simp [(hrest.backends b rt hb).waiting] at ht

/-- A lock that nobody waits with is free. -/
theorem Reached.no_holder (h : Reached H s) (hrest : Resting (stackClient H) s)
    {w : PlannerCode T → ℕ}
    (hw : ∀ i code, Waits s.shared.client i (.planner code) → w code = 0) :
    (s.soup.map (StackPoint.ofPlanner w)).sum = 0 := by
  refine Multiset.sum_eq_zero fun n hn => ?_
  obtain ⟨p, hp, rfl⟩ := Multiset.mem_map.mp hn
  obtain ⟨i, code, rfl, hwaits⟩ := h.waits hrest hp
  unfold StackPoint.ofPlanner
  split
  · next code' heq =>
      cases heq
      exact hw i _ hwaits
  · rfl

/-- **No lock is held** in a state at rest: who holds one waits for nobody, or for a lock whose
holder waits for nobody. -/
theorem Reached.unheld (h : Reached H s) (hrest : Resting (stackClient H) s) :
    s.shared.client.planner.stateLock ≠ .held ∧ s.shared.client.planner.scratchLock ≠ .held ∧
      s.shared.client.planner.versionLock = .free ∧ s.shared.client.planner.readers = 0 := by
  have hplanner := (inOrder h).1.planner
  -- nobody waits while writing the current version
  have hversion : s.shared.client.planner.versionLock ≠ .held := by
    intro hheld
    have hone := hplanner.writing
    rw [if_pos hheld, h.no_holder hrest] at hone
    · simp at hone
    · intro i code hwaits
      cases hwaits with
      | state hcode =>
          have hle := code.stores_le
          omega
      | _ => rfl
  -- nor while reading it
  have hreaders : s.shared.client.planner.readers = 0 := by
    rw [← hplanner.reading]
    refine Multiset.sum_eq_zero fun n hn => ?_
    obtain ⟨p, hp, rfl⟩ := Multiset.mem_map.mp hn
    obtain ⟨i, code, rfl, hwaits⟩ := h.waits hrest hp
    cases hwaits <;> rfl
  -- nor while compiling
  have hscratch : s.shared.client.planner.scratchLock ≠ .held := by
    intro hheld
    obtain ⟨call, hmem⟩ := h.scratch_used hheld
    obtain ⟨i, code, heq, hwaits⟩ := h.waits hrest hmem
    cases heq
    cases hwaits with
    | state hcode => simp [PlannerCode.locks] at hcode
  -- who holds the planner state would wait for one of these
  have hstate : s.shared.client.planner.stateLock ≠ .held := by
    intro hheld
    have hone := hplanner.locked
    rw [if_pos hheld, h.no_holder hrest] at hone
    · simp at hone
    · intro i code hwaits
      cases hwaits with
      | state hcode => exact hcode
      | scratch hlock => exact (hscratch hlock).elim
      | write hlock => exact (hlock.elim hversion (· hreaders)).elim
  refine ⟨hstate, hscratch, ?_, hreaders⟩
  cases hlock : s.shared.client.planner.versionLock with
  | free => rfl
  | held => exact (hversion hlock).elim
  | poisoned => exact (hplanner.unpoisoned hlock).elim

/-- What is left waits for jobs. -/
theorem Reached.collects (h : Reached H s) (hrest : Resting (stackClient H) s) {p : StackPoint T}
    (hp : p ∈ s.soup) : ∃ i j job, p = .code (.collect j .parked) ∧
      s.shared.client.job j = some job ∧ i ∈ job.record.wake := by
  obtain ⟨hstate, hscratch, hversion, hreaders⟩ := h.unheld hrest
  obtain ⟨i, code, rfl, hwaits⟩ := h.waits hrest hp
  cases hwaits with
  | state _ hlock => exact (hstate hlock).elim
  | scratch hlock => exact (hscratch hlock).elim
  | write hlock => simp [hversion, hreaders] at hlock
  | dispatch hlock | read hlock => simp [hversion] at hlock
  | collect hj hwake => exact ⟨i, _, _, rfl, hj, hwake⟩

/-- **Every job is over** in a state at rest: who would carry it would wait for it. -/
theorem Reached.all_over (h : Reached H s) (hrest : Resting (stackClient H) s)
    (hflag : s.shared.shutdown = false) {j : JobId} {job : Job T}
    (hj : s.shared.client.job j = some job) :
    (statusOf job.record).terminal = true ∧ job.dispatched = .accepted := by
  have hok := (inOrder h).2.job j job hj
  have hshare : ∀ w : StackPoint T → ℕ, (∀ i, w (.code (.collect i .parked)) = 0) →
      share w j s.soup = 0 := by
    intro w hw
    by_contra hne
    obtain ⟨p, hp, -, hpos⟩ := exists_of_share_pos (Nat.pos_of_ne_zero hne)
    obtain ⟨i, k, job', rfl, -⟩ := h.collects hrest hp
    simp [hw] at hpos
  have hcarried := hok.carried
  have hdispatching := hok.dispatching
  rw [hshare StackPoint.carries fun _ => rfl, zero_add] at hcarried
  rw [hshare StackPoint.dispatches fun _ => rfl] at hdispatching
  have hrefused := (h.nothingRefused hflag).jobs j job hj
  have hover : job.Over := by
    by_contra hover
    simp [hover] at hcarried
  refine ⟨?_, ?_⟩
  · rw [statusOf_terminal]
    exact hover.resolve_right hrefused
  · cases hd : job.dispatched with
    | accepted => rfl
    | pending => simp [hd] at hdispatching
    | refused => exact (hrefused hd).elim

/-- **A state at rest** has nothing left to do: nobody is left to wait for a job. -/
theorem Reached.atRest (h : Reached H s) (hrest : Resting (stackClient H) s)
    (hflag : s.shared.shutdown = false) : AtRest s := by
  refine ⟨?_, hrest.queue, hrest.backends, h.unheld hrest,
    fun j job hj => h.all_over hrest hflag hj⟩
  intro st hst
  obtain ⟨i, hi⟩ := List.getElem?_of_mem hst
  rcases hrest.threads i st hi with rfl | rfl | ⟨code, rfl, -⟩
  · exact .inl rfl
  · exact .inr rfl
  · have hmem : .code code ∈ s.soup := points_of_top hi (Multiset.mem_singleton_self _)
    obtain ⟨k, j, job, -, hj, hwake⟩ := h.collects hrest hmem
    have hterm := (h.all_over hrest hflag hj).1
    rw [statusOf_terminal] at hterm
    simp [wake_eq_nil h hj hterm] at hwake

/-- **A stuck state** has nothing left to do. -/
theorem Reached.atRest_of_stuck (h : Reached H s) (hflag : s.shared.shutdown = false)
    (hbackend : s.shared.client.backend < s.shared.backends.length)
    (hstuck : Stuck (stackClient H) s) : AtRest s := by
  refine h.atRest ?_ hflag
  obtain ⟨m, -, hr⟩ := id h
  exact hstuck.resting stackCalls hr hflag (asksRegistered stackHome hr hbackend) h.tasksGoOn

/-- **No deadlock**: while the executor is not shut down, some thread can take a step, or
nothing is left to do. -/
theorem no_deadlock (h : Reached H s) (hflag : s.shared.shutdown = false)
    (hbackend : s.shared.client.backend < s.shared.backends.length) :
    (∃ i s', machineStep (stackClient H) s (.step i 0) = some s') ∨ AtRest s := by
  by_cases hstuck : Stuck (stackClient H) s
  · exact .inr (h.atRest_of_stuck hflag hbackend hstuck)
  · left
    simp only [Stuck, not_forall] at hstuck
    obtain ⟨i, hi⟩ := hstuck
    exact ⟨i, Option.ne_none_iff_exists'.mp hi⟩

end Rest

/-- A job is dispatched, and the worker runs it and parks. -/
def counterParked : List (Action (Code counter)) :=
  counterJob ++ [.step 0 0, .step 0 0]

/-- No thread can take a step then, so everything is done. -/
theorem no_deadlock_counter :
    (counterAfter counterParked).shared.wake = [0] ∧ AtRest (counterAfter counterParked) := by
  refine ⟨rfl, ?_⟩
  have hreached : Reached counterHooks (counterAfter counterParked) := counterAfter_reached rfl
  rcases no_deadlock hreached rfl Nat.one_pos with ⟨i, s', hs⟩ | hrest
  · match i with
    | 0 | 1 => exact (Option.some_ne_none s' hs.symm).elim
    | n + 2 => exact (Option.some_ne_none s' hs.symm).elim
  · exact hrest

end Braids.Runtime
