import Braids.Executor.Loop
import Braids.Runtime.Isolation

/-!
# Panics Are Contained

A hook that panics unwinds the task that called it as far as `run_caught`, which takes the
job to its end. What the task held then is the guard of its own packet slot at most, and what
it does from there on touches its own job only.

## Main results

* `panics_contained`: what a panic in a hook of a job can do, in every reachable state.
-/

namespace Braids.Runtime

open Census

variable {T : Types} {H : Hooks T}

/-! ### Tasks and workers -/

/-- The code of a task. -/
def Code.isTask : Code T → Bool
  | .task _ _ => true
  | _ => false

/-- The code that waits for a call of the executor. -/
def Code.waits : Code T → Bool
  | .planner (.preparing ..) | .dispatchWait _ | .task _ (.await _) | .task _ .ended | .ended =>
      true
  | _ => false

/-- What a planner call asks for is planner code. -/
theorem next_liftAct {κ κ' τ τ' : Type} {code : κ → κ'} {task : τ → τ'} {act : ClientAct κ τ}
    {next : κ'} (h : (liftAct code task act).next? = some next) :
    ∃ old, act.next? = some old ∧ next = code old := by
  cases act <;> simp_all [liftAct, ClientAct.next?]

/-- A task prepares nothing, and `run_caught` catches its panics. -/
theorem JobStep.calm {b : BackendId} {pools pools' : Pools} {job job' : Job T}
    {code : JobCode T} {act : ClientAct (JobCode T) JobTask}
    (h : JobStep H b pools job code pools' job' act) :
    (∀ b hook next, act ≠ .prepare b hook next) ∧ act ≠ .ret .panicked := by
  cases h with
  | leave _ hact => obtain rfl | rfl := hact <;> simp
  | _ => simp

/-- The tasks of a stack catch their panics and prepare nothing. -/
theorem stackTasks : TaskCode (stackClient H) Code.isTask where
  run _ := rfl
  entry code he := by
    cases code with
    | task => simp [stackClient, isEntry] at he
    | _ => rfl
  resume code r := by
    simp only [stackClient, resume]
    split <;> rfl
  next h next hnext := by
    cases stackStep_cases h with
    | planner | task =>
        obtain ⟨_, -, rfl⟩ := next_liftAct hnext
        rfl
    | _ =>
        simp only [ClientAct.next?, Option.some.injEq, reduceCtorEq] at hnext
        try subst hnext
        try rfl
  hook {i n mem mem' code b hook next} h := by
    generalize hact : ClientAct.prepare b hook next = act at h
    cases stackStep_cases h with
    | @planner code planner act hs =>
        cases act <;> simp only [liftAct, reduceCtorEq, ClientAct.prepare.injEq] at hact
        obtain ⟨-, rfl, -⟩ := hact
        exact ⟨rfl, rfl⟩
    | @task j code job job' pools act hj hs =>
        cases act <;> simp only [liftAct, reduceCtorEq] at hact
        exact (hs.calm.1 _ _ _ rfl).elim
    | _ => simp at hact
  calm {i n mem mem' code} hcode h := by
    generalize hact : ClientAct.ret CallResult.panicked = act at h
    cases stackStep_cases h with
    | @task j code job job' pools act hj hs =>
        cases act <;> simp only [liftAct, reduceCtorEq, ClientAct.ret.injEq] at hact
        subst hact
        exact hs.calm.2 rfl
    | leave hleave =>
        unfold Code.isTask at hcode
        split at hcode <;> simp_all
    | _ => simp [Code.isTask] at hcode

/-- The code of a stack waits for the calls that it makes. -/
theorem stackWaits : WaitCode (stackClient H) Code.waits := by
  intro i n mem mem' code act h hgoto next hnext
  cases stackStep_cases h with
  | planner hs =>
      cases hs with
      | prepare =>
          obtain rfl := Option.some.inj hnext
          rfl
      | _ => simp_all [liftAct, ClientAct.next?]
  | task hj hs =>
      cases hs with
      | scheduleStage | submit =>
          obtain rfl := Option.some.inj hnext
          rfl
      | leave _ hact =>
          rcases hact with rfl | rfl
          · simp [liftAct, ClientAct.next?] at hnext
          · obtain rfl := Option.some.inj hnext
            rfl
      | _ => simp [liftAct] at hgoto
  | dispatchSubmit | shutdown =>
      obtain rfl := Option.some.inj hnext
      rfl
  | _ => simp_all [ClientAct.next?]

/-! ### The way to the end -/

/-- Thread `i` takes job `j` to its end after a panic: in its next step if `steps` is one,
in the one after that if it is two. -/
inductive Unwinds (s : MachineState (Mem T) (Code T) Task RejectCode) (i : ThreadId)
    (j : JobId) : ℕ → Prop
  | caught {rest : List (Frame (Code T) Task RejectCode)}
      (hi : s.threads[i]? = some (.client (.task j (.caught false taskPanicked)) :: rest)) :
      Unwinds s i j 2
  | finish {rest : List (Frame (Code T) Task RejectCode)}
      (hi : s.threads[i]? = some (.client (.task j (.finish false taskPanicked)) :: rest)) :
      Unwinds s i j 1

section Unwinding

variable {s s' : MachineState (Mem T) (Code T) Task RejectCode} {i j : ℕ} {job : Job T}
  {ended : Prop}

/-- A packet that a panic has spoiled. -/
theorem Job.Has.of_panicked {custody : Custody} (h : job.Has custody)
    (hpanic : job.panicked = true) : custody = .lost ∨ custody = .buried := by
  cases custody with
  | lost => exact .inl rfl
  | buried => exact .inr rfl
  | _ => simp [h.1] at hpanic

/-- A job whose hook panicked is nowhere else on its way. -/
theorem JobCode.Fits.panicked {code : JobCode T} (h : code.Fits ended job)
    (hpanic : job.panicked = true) (hw : code.carries = 1) :
    code = .caught false taskPanicked ∨ code = .finish false taskPanicked := by
  have hat : ∀ {state custody calls passed}, job.At state custody calls passed →
      custody = .lost ∨ custody = .buried := fun hat => hat.has.of_panicked hpanic
  have hready : ∀ {next}, ¬ job.Ready next := by
    intro next hnext
    obtain ⟨pkt, hhas⟩ := hnext.inSlot
    simpa using hhas.of_panicked hpanic
  have hfails : ∀ {error custody}, job.Fails error custody →
      error = taskPanicked ∧ (custody = .lost ∨ custody = .buried) := by
    rintro error custody ⟨⟨-, rfl⟩ | ⟨hno, -⟩, hhas, -⟩
    · exact ⟨rfl, hhas.of_panicked hpanic⟩
    · simp [hno] at hpanic
  cases code with
  | encode | mark | checkout | scratch | encodeHook | encoded | store =>
      have hf : job.At _ _ _ _ := h
      simpa using hat hf
  | recycle => simpa using (hfails h).2
  | giveBack pkt result =>
      cases result with
      | error => simpa using (hfails h).2
      | ok => simpa using hat h.2.2
  | schedule next => exact (hready (show job.Ready next from h)).elim
  | stage i | stageLock i => exact (hready (show job.Ready (.stage i) from h)).elim
  | decode => exact (hready (show job.Ready .decode from h)).elim
  | take => exact (hready h.1).elim
  | stageHook | decodeHook => simpa using hat h.2
  | finishCompleted =>
      obtain ⟨-, -, n, -, hf⟩ := h
      simpa using hat hf
  | refused next =>
      cases next with
      | stage i => simp [JobCode.carries] at hw
      | encode => exact h.2.elim
      | decode => exact (hready h.2).elim
  | caught again error =>
      cases again with
      | true => simp [JobCode.carries] at hw
      | false =>
          obtain ⟨custody, hf, -⟩ := h
          exact .inl (by rw [(hfails hf).1])
  | finish again error =>
      cases again with
      | true => simp [JobCode.carries] at hw
      | false =>
          obtain ⟨custody, -, hf⟩ := h
          exact .inr (by rw [(hfails hf).1])
  | cleanup again =>
      cases again with
      | true => exact h.elim
      | false => simpa using (hfails h).2
  | await | released | ended => simp [JobCode.carries] at hw

/-- The task of a job whose hook panicked is on its way to the end. -/
theorem StackPoint.Fits.panicked {p : StackPoint T} (h : StackPoint.Fits ended job p)
    (hown : StackPoint.owner p = some j) (hpanic : job.panicked = true)
    (hw : 0 < StackPoint.carries p) :
    p = .code (.task j (.caught false taskPanicked)) ∨
      p = .code (.task j (.finish false taskPanicked)) := by
  have hwaits : ¬ job.Waits := fun hwaits => by simpa using hwaits.has.of_panicked hpanic
  have hready : ∀ {next}, ¬ job.Ready next := by
    intro next hnext
    obtain ⟨pkt, hhas⟩ := hnext.inSlot
    simpa using hhas.of_panicked hpanic
  cases p with
  | code code =>
      cases code with
      | dispatchInsert | dispatchSubmit | dispatchErr => exact (hwaits h).elim
      | task k code =>
          obtain rfl : k = j := by simpa [StackPoint.owner, Code.owner] using hown
          have hpos : 0 < code.carries := hw
          have hone : code.carries = 1 := by
            unfold JobCode.carries at hpos ⊢
            split <;> simp_all
          have hf : code.Fits ended job := h
          rcases hf.panicked hpanic hone with rfl | rfl
          · exact .inl rfl
          · exact .inr rfl
      | _ => simp [StackPoint.carries, Code.carries] at hw
  | task t =>
      obtain ⟨k, kind⟩ := t
      cases kind with
      | encode => exact (hwaits h).elim
      | stage i => exact h.elim
      | decode => exact (hready (show job.Ready .decode from h)).elim
  | scheduled t =>
      obtain ⟨i, -, hf⟩ := h
      exact (hready hf).elim
  | rejecting code =>
      obtain ⟨k, point⟩ := code
      cases point with
      | take =>
          obtain ⟨i, hf⟩ := h
          exact (hready hf).elim
      | giveBack | fail => simpa using h.2.of_panicked hpanic
  | hook => exact h.elim

/-- A thread is at the program point of a task. -/
theorem Reached.thread_at (h : Reached H s) {code : JobCode T}
    (hp : .code (.task j code) ∈ s.soup) (hgoes : (Code.task j code).waits = false) :
    ∃ (i : ThreadId) (rest : List (Frame (Code T) Task RejectCode)),
      s.threads[i]? = some (.client (.task j code) :: rest) := by
  obtain ⟨m, -, hr⟩ := h
  obtain ⟨st, hst, hmem⟩ := client_of_mem_soup hp
  obtain ⟨rest, rfl⟩ := client_on_top stackWaits hr hst hmem hgoes
  obtain ⟨i, hi⟩ := List.mem_iff_getElem?.mp hst
  exact ⟨i, rest, hi⟩

/-- **A job whose hook panicked** has failed, or a thread is about to fail it. -/
theorem Reached.failing (h : Reached H s) (hj : s.shared.client.job j = some job)
    (hpanic : job.panicked = true) :
    statusOf job.record = .failed ∨ ∃ i steps, Unwinds s i j steps := by
  have hok := (inOrder h).2.job j job hj
  by_cases hover : job.Over
  · have hset := hok.settled hover
    rw [Job.Settled] at hset
    left
    rw [statusOf]
    split at hset
    · simpa using hset.has.of_panicked hpanic
    · exact hset.elim
    · simpa using hset.1.of_panicked hpanic
    · next hs => rw [hs]
    · simp [hset.2.1] at hpanic
  · right
    have hsum := hok.carried
    rw [if_neg hover] at hsum
    have hpos : 0 < share StackPoint.carries j s.soup := by omega
    obtain ⟨p, hp, hown, hw⟩ := exists_of_share_pos hpos
    rcases (hok.fits p hp hown).panicked hown hpanic hw with rfl | rfl
    · obtain ⟨i, rest, hi⟩ := h.thread_at hp rfl
      exact ⟨i, 2, .caught hi⟩
    · obtain ⟨i, rest, hi⟩ := h.thread_at hp rfl
      exact ⟨i, 1, .finish hi⟩

/-- A step of a thread at client code that can go on. -/
theorem machineStep_goto {n : ℕ} {m' : Mem T} {code next : Code T}
    {rest : List (Frame (Code T) Task RejectCode)}
    (hi : s.threads[i]? = some (.client code :: rest))
    (h : stackStep H i n s.shared.client code = some (m', .goto next)) :
    machineStep (stackClient H) s (.step i n) =
      some { s with
        shared := { s.shared with client := m' }
        threads := s.threads.set i (.client next :: rest) } := by
  simp [machineStep, hi, stepStack, Frame.step, stackClient, h, callFrames]

/-- **The way to the end is never blocked.** -/
theorem Reached.unwinding (h : Reached H s) {steps : ℕ} (hu : Unwinds s i j steps)
    (hj : s.shared.client.job j = some job) (hpanic : job.panicked = true) (n : ℕ) :
    ∃ s', machineStep (stackClient H) s (.step i n) = some s' ∧
      ((steps = 2 ∧ Unwinds s' i j 1) ∨
        ∃ job', s'.shared.client.job j = some job' ∧ statusOf job'.record = .failed) := by
  have hok := (inOrder h).2.job j job hj
  cases hu with
  | @caught rest hi =>
      obtain ⟨custody, hhas⟩ := hok.has
      have hstep : stackStep H i n s.shared.client (.task j (.caught false taskPanicked)) =
          some ({ s.shared.client.setJob j job with pools := s.shared.client.pools },
            .goto (.task j (.finish false taskPanicked))) := by
        rcases hhas.of_panicked hpanic with rfl | rfl
        · obtain ⟨-, hlock, hpkt, -⟩ := hhas
          simp [stackStep, hj, jobStep, hlock, hpkt, liftAct]
        · obtain ⟨-, hlock, -⟩ := hhas
          simp [stackStep, hj, jobStep, hlock, liftAct]
      have hlt := (List.getElem?_eq_some_iff.mp hi).1
      exact ⟨_, machineStep_goto hi hstep, .inl ⟨rfl, .finish (List.getElem?_set_self hlt)⟩⟩
  | @finish rest hi =>
      have hstep : stackStep H i n s.shared.client (.task j (.finish false taskPanicked)) =
          some ({ s.shared.client.setJob j (job.finishWith taskPanicked) with
            pools := s.shared.client.pools }, .goto (.task j .released)) := by
        simp [stackStep, hj, jobStep, liftAct]
      refine ⟨_, machineStep_goto hi hstep, .inr ⟨job.finishWith taskPanicked, ?_, ?_⟩⟩
      · simp [Mem.setJob]
      · simp [Job.finishWith, hok.sound.unpoisoned, taskPanicked, JobRecord.finishFailed, statusOf]

/-- What other threads do leaves a thread where it is. -/
theorem getElem?_threads {a : Action (Code T)} {st : List (Frame (Code T) Task RejectCode)}
    (hi : s.threads[i]? = some st) (hstep : machineStep (stackClient H) s a = some s')
    (ha : ∀ n, a ≠ .step i n) : s'.threads[i]? = some st := by
  cases machineStep_cases hstep with
  | @exit k c | @resume k c | @frame k c =>
      have hne : k ≠ i := by
        rintro rfl
        exact ha c rfl
      rw [← hi]
      exact List.getElem?_set_ne hne
  | spawn =>
      have hlt := (List.getElem?_eq_some_iff.mp hi).1
      rw [← hi]
      exact List.getElem?_append_left hlt
  | register | spurious | release => exact hi

/-- What other threads do leaves the way to the end as it is. -/
theorem Unwinds.stays {steps : ℕ} (hu : Unwinds s i j steps) {a : Action (Code T)}
    (hstep : machineStep (stackClient H) s a = some s') (ha : ∀ n, a ≠ .step i n) :
    Unwinds s' i j steps := by
  cases hu with
  | caught hi => exact .caught (getElem?_threads hi hstep ha)
  | finish hi => exact .finish (getElem?_threads hi hstep ha)

end Unwinding

/-! ### What a panic leaves alone -/

/-- No mutex that jobs share is poisoned. -/
structure Unpoisoned (m : Mem T) : Prop where
  packets : m.pools.packetsPoisoned = false
  batchScratch : m.pools.scratchPoisoned = false
  table : m.tablePoisoned = false
  version : m.planner.versionLock ≠ .poisoned
  computeScratch : m.planner.computeScratchPoisoned = false
  prepared : m.planner.preparedPoolPoisoned = false
  record : ∀ j job, m.job j = some job → job.recordPoisoned = false
  /-- Only a hook of the planner state can poison its locks. -/
  planner : m.planner.panicked = false →
    m.planner.stateLock ≠ .poisoned ∧ m.planner.scratchLock ≠ .poisoned

/-- The part of it that is about the planner state. -/
structure PlannerMem.Unpoisoned (m : PlannerMem T) : Prop where
  computeScratch : m.computeScratchPoisoned = false
  prepared : m.preparedPoolPoisoned = false
  planner : m.panicked = false → m.stateLock ≠ .poisoned ∧ m.scratchLock ≠ .poisoned

/-- A call on the planner state poisons its locks only when its hook panics. -/
theorem PlannerStep.unpoisoned {b : BackendId} {m m' : PlannerMem T} {code : PlannerCode T}
    {act : ClientAct (PlannerCode T) JobTask} (h : PlannerStep H b m code m' act)
    (hm : m.Unpoisoned) : m'.Unpoisoned := by
  obtain ⟨hcompute, hprepared, hlocks⟩ := hm
  cases h with
  | editPanicked | updatePanicked | compilePanicked | preparedPanicked =>
      exact ⟨hcompute, hprepared, fun hno => by simp [PlannerMem.unwind] at hno⟩
  | preparePanicked => exact ⟨hcompute, hprepared, fun hno => by simp at hno⟩
  | apply | replace | recompile | update | edited =>
      exact ⟨hcompute, hprepared, fun hno => ⟨by simp, (hlocks hno).2⟩⟩
  | commit | fail =>
      exact ⟨hcompute, hprepared, fun hno => ⟨by simp [PlannerMem.finish], (hlocks hno).2⟩⟩
  | scratch | compiled | compileFailed =>
      exact ⟨hcompute, hprepared, fun hno => ⟨(hlocks hno).1, by simp⟩⟩
  | _ => exact ⟨hcompute, hprepared, hlocks⟩

/-- A step of the stack poisons the locks of the planner state only when their hook panics. -/
theorem StackStep.unpoisoned {self : ThreadId} {m m' : Mem T} {code : Code T}
    {act : ClientAct (Code T) Task} (h : StackStep H self m code m' act)
    (hm : m.planner.Unpoisoned) : m'.planner.Unpoisoned := by
  cases h with
  | planner h => exact h.unpoisoned hm
  | _ => exact ⟨hm.computeScratch, hm.prepared, hm.planner⟩

/-- The frame holds the lock of the executor queue. -/
def Frame.locksQueue : Frame (Code T) Task RejectCode → Bool
  | .workerPop | .workerLoad | .workerWait => true
  | _ => false

/-- The frame runs a task of the job, or the reject side of one. -/
def Frame.worksFor (j : JobId) : Frame (Code T) Task RejectCode → Prop
  | .client (.task k _) => k = j
  | .rejecting code => code.job = j
  | _ => False

/-- What a step of thread `i` for job `j` leaves alone. -/
structure Apart (s s' : MachineState (Mem T) (Code T) Task RejectCode) (i : ThreadId)
    (j : JobId) : Prop where
  jobs : ∀ k, k ≠ j → s'.shared.client.job k = s.shared.client.job k
  planner : s'.shared.client.planner = s.shared.client.planner
  table : s'.shared.client.table = s.shared.client.table
  /-- The packets of the pool stay, except one that the job itself takes. -/
  packets : ∀ pkt ∈ s.shared.client.pools.packets, pkt ∈ s'.shared.client.pools.packets ∨
    ∃ job', s'.shared.client.job j = some job' ∧ job'.holding = some pkt.serial
  executor : s'.shared = { s.shared with client := s'.shared.client }
  threads : ∀ k, k ≠ i → s'.threads[k]? = s.threads[k]?

section Contained

variable {s s' : MachineState (Mem T) (Code T) Task RejectCode} {i : ThreadId} {j : JobId}
  {job : Job T}

/-- **No shared mutex is poisoned**, in every reachable state. -/
theorem Reached.unpoisoned (h : Reached H s) : Unpoisoned s.shared.client := by
  have hplanner : s.shared.client.planner.Unpoisoned := by
    refine h.invariant (I := fun v => v.1.planner.Unpoisoned) ?_ ?_
    · exact fun b state compiled prepared => ⟨rfl, rfl, fun _ => ⟨by simp [Mem.create],
        by simp [Mem.create]⟩⟩
    · intro v v' _ _ hm hstep
      cases hstep with
      | step hs => exact (stackStep_cases hs).unpoisoned hm
      | rejectOn hs | rejectDone hs => cases rejectStep_cases hs <;> exact hm
      | _ => exact hm
  obtain ⟨hversions, hjobs⟩ := inOrder h
  exact ⟨hjobs.pools.packets, hjobs.pools.scratch, hjobs.table, hversions.planner.unpoisoned,
    hplanner.computeScratch, hplanner.prepared,
    fun j job hj => (hjobs.job j job hj).sound.unpoisoned,
    hplanner.planner⟩

/-- Client code never lies above the lock of the executor queue. -/
theorem Reached.unlocked (h : Reached H s) {st : List (Frame (Code T) Task RejectCode)}
    (hst : st ∈ s.threads) {code : Code T} (hcode : .client code ∈ st) :
    ∀ f ∈ st, Frame.locksQueue f = false := by
  obtain ⟨m, -, hr⟩ := h
  have hweight : ∀ fs : List (Frame (Code T) Task RejectCode), weight Frame.worker fs = 0 →
      ∀ f ∈ fs, Frame.locksQueue f = false := by
    intro fs hz f hf
    have hzero : f.worker = 0 := by
      by_contra hne
      have hle := List.single_le_sum (l := fs.map Frame.worker) (fun _ _ => Nat.zero_le _) _
        (List.mem_map_of_mem hf)
      rw [weight] at hz
      omega
    cases f <;> simp_all [Frame.locksQueue]
  cases workerStack hr st hst with
  | none hz => exact hweight st hz
  | outside fs hz =>
      intro f hf
      rcases List.mem_append.mp hf with hf | hf
      · exact hweight fs hz f hf
      · obtain rfl := List.mem_singleton.mp hf
        rfl
  | pop | load | wait | parked => simp at hcode

/-- A packet in the pool stays there, unless the job takes it. -/
theorem PacketMove.mem {pools pools' : Pools} {held held' : Option ℕ}
    (h : PacketMove pools held pools' held') {pkt : Packet} (hpkt : pkt ∈ pools.packets) :
    pkt ∈ pools'.packets ∨ held' = some pkt.serial := by
  cases h with
  | keep | drop | create => exact .inl hpkt
  | pop hp =>
      rw [hp] at hpkt
      rcases List.mem_cons.mp hpkt with rfl | hpkt
      · exact .inr rfl
      · exact .inl hpkt
  | push => exact .inl (List.mem_cons_of_mem _ hpkt)

/-- What is on top of a stack is among the points. -/
theorem points_of_top {f : Frame (Code T) Task RejectCode}
    {rest : List (Frame (Code T) Task RejectCode)} (hi : s.threads[i]? = some (f :: rest))
    {p : StackPoint T} (hp : p ∈ f.points) : p ∈ s.soup :=
  Multiset.mem_add.mpr (.inl (mem_census.mpr
    ⟨_, List.mem_of_getElem? hi, f, List.mem_cons_self, hp⟩))

/-- Overwriting a job leaves the others alone. -/
theorem Mem.setJob_job_of_ne {m : Mem T} {k : JobId} (hk : k ≠ j) (job : Job T) :
    (m.setJob j job).job k = m.job k := by
  rw [Mem.setJob_job, if_neg hk]

/-- **A step for one job** leaves everything of the others alone. -/
theorem Reached.apart (h : Reached H s) {f : Frame (Code T) Task RejectCode}
    {rest : List (Frame (Code T) Task RejectCode)} (hi : s.threads[i]? = some (f :: rest))
    (hf : Frame.worksFor j f) {n : ℕ}
    (hstep : machineStep (stackClient H) s (.step i n) = some s') : Apart s s' i j := by
  have hjobs := (inOrder h).2
  have hmem : ∀ {p : StackPoint T}, p ∈ f.points → p ∈ s.soup := fun hp => points_of_top hi hp
  cases machineStep_cases hstep with
  | exit hi' =>
      obtain ⟨rfl, -⟩ := List.cons.inj (Option.some.inj (hi.symm.trans hi'))
      exact hf.elim
  | resume hi' =>
      obtain ⟨rfl, -⟩ := List.cons.inj (Option.some.inj (hi.symm.trans hi'))
      exact hf.elim
  | frame hi' hframe =>
      obtain ⟨rfl, rfl⟩ := List.cons.inj (Option.some.inj (hi.symm.trans hi'))
      have hreject : ∀ {k : JobId} {point : RejectPoint} {next : Option RejectPoint}
          {old new : Job T} {pools : Pools} {table : JobId → Option (Job T)},
          s.shared.client.job k = some old → table k = some new →
          RejectStep s.shared.client.pools old point pools new next →
          .rejecting ⟨k, point⟩ ∈ s.soup → ∀ {pkt}, pkt ∈ s.shared.client.pools.packets →
          pkt ∈ pools.packets ∨ ∃ job', table k = some job' ∧ job'.holding = some pkt.serial := by
        intro k point next old new pools table hold hnew hjob hp pkt hpkt
        have hfits : point.Fits old := (hjobs.job k old hold).fits _ hp rfl
        rcases (hjob.moves hjobs.pools hfits).mem hpkt with hstays | hheld
        · exact .inl hstays
        · exact .inr ⟨new, hnew, hheld⟩
      have hthreads : ∀ k, k ≠ i → ∀ st, (s.threads.set i st)[k]? = s.threads[k]? :=
        fun k hk _ => List.getElem?_set_ne (Ne.symm hk)
      cases hframe with
      | @client code mem act n hs =>
          cases stackStep_cases hs with
          | @task k code job job' pools act hj hjob =>
              obtain rfl : k = j := hf
              have hok := hjobs.job k job hj
              have hfits := hok.fits (.code (.task k code)) (hmem (by simp)) rfl
              refine ⟨fun _ hk => Mem.setJob_job_of_ne hk job', rfl, rfl, fun pkt hpkt => ?_, rfl,
                fun k hk => hthreads k hk _⟩
              rcases (hjob.moves hjobs.pools hok.sound hfits).mem hpkt with hstays | hheld
              · exact .inl hstays
              · exact .inr ⟨job', by simp [Mem.setJob], hheld⟩
          | @leave code r hleave =>
              cases code with
              | task => exact hleave.elim
              | _ => exact hf.elim
          | _ => exact hf.elim
      | @rejectOn code mem next hs =>
          cases rejectStep_cases hs with
          | @on k point next job job' pools hj hjob =>
              obtain rfl : k = j := hf
              exact ⟨fun _ hk => Mem.setJob_job_of_ne hk job', rfl, rfl,
                fun pkt hpkt => hreject hj (by simp [Mem.setJob]) hjob (hmem (by simp)) hpkt, rfl,
                fun k hk => hthreads k hk _⟩
      | @rejectDone code mem hs =>
          cases rejectStep_cases hs with
          | @done k point job job' pools hj hjob =>
              obtain rfl : k = j := hf
              exact ⟨fun _ hk => Mem.setJob_job_of_ne hk job', rfl, rfl,
                fun pkt hpkt => hreject hj (by simp [Mem.setJob]) hjob (hmem (by simp)) hpkt, rfl,
                fun k hk => hthreads k hk _⟩
          | gone => exact ⟨fun _ _ => rfl, rfl, rfl, fun _ hpkt => .inl hpkt, rfl,
              fun k hk => hthreads k hk _⟩
      | _ => exact hf.elim

/-- A packet slot is poisoned only by a hook of its job. -/
theorem Reached.slot (h : Reached H s) (hj : s.shared.client.job j = some job)
    (hlock : job.packetLock = .poisoned) : job.panicked = true := by
  obtain ⟨custody, hhas⟩ := ((inOrder h).2.job j job hj).has
  cases custody with
  | buried => exact hhas.1
  | _ =>
      have hfree := hhas.2.1
      simp [hlock] at hfree

/-- The job that a task belongs to, wherever the task is. -/
def StackPoint.taskOf : StackPoint T → Option JobId
  | .code (.task j _) => some j
  | .task t | .scheduled t => some t.job
  | .rejecting code => some code.job
  | _ => none

/-- Its own hooks and validations have succeeded, and nobody cancelled or refused it. -/
structure Job.Unhurt (rejected : List JobId) (j : JobId) (job : Job T) : Prop where
  accepted : job.dispatched = .accepted
  panicked : job.panicked = false
  failed : job.failed = false
  cancel : job.record.cancel = false
  unsent : job.unsent = false
  rejected : j ∉ rejected

/-- A job whose hook panicked has failed when no task of it is left. -/
theorem Reached.failed (h : Reached H s) (hj : s.shared.client.job j = some job)
    (hpanic : job.panicked = true) (hidle : ∀ p ∈ s.soup, StackPoint.taskOf p ≠ some j) :
    statusOf job.record = .failed := by
  rcases h.failing hj hpanic with hfailed | ⟨i, steps, hu⟩
  · exact hfailed
  · cases hu with
    | caught hi | finish hi =>
        exact (hidle _ (points_of_top hi (Multiset.mem_singleton_self _)) rfl).elim

/-- **A job that nothing happened to** is completed when no task of it is left. -/
theorem Reached.completes (h : Reached H s) (hj : s.shared.client.job j = some job)
    (hunhurt : Job.Unhurt s.shared.client.rejected j job)
    (hidle : ∀ p ∈ s.soup, StackPoint.taskOf p ≠ some j) :
    statusOf job.record = .completed := by
  have hok := (inOrder h).2.job j job hj
  have hdispatch : share StackPoint.dispatches j s.soup = 0 := by
    rw [hok.dispatching, hunhurt.accepted]
    rfl
  have hcarried : share StackPoint.carries j s.soup = 0 := by
    by_contra hne
    obtain ⟨p, hp, hown, hw⟩ := exists_of_share_pos (Nat.pos_of_ne_zero hne)
    have hle := le_share (w := StackPoint.dispatches) hp hown
    have hnone := hidle p hp
    cases p with
    | code code =>
        cases code with
        | task k code => exact hnone hown
        | dispatchInsert | dispatchSubmit | dispatchErr =>
            simp only [StackPoint.dispatches, Code.dispatches] at hle
            omega
        | _ => simp [StackPoint.carries, Code.carries] at hw
    | hook => simp [StackPoint.carries] at hw
    | _ => exact hnone hown
  have hover : job.Over := by
    by_contra hover
    have hsum := hok.carried
    rw [if_neg hover, hcarried] at hsum
    omega
  have hset := hok.settled hover
  rw [Job.Settled] at hset
  rw [statusOf]
  split at hset
  · next hs =>
      rcases hover with hterm | hrefused
      · simp [hs, JobRecordState.terminal] at hterm
      · simp [hunhurt.accepted] at hrefused
  · exact hset.elim
  · next hs => rw [hs]
  · simp [hunhurt.panicked, hunhurt.failed, hunhurt.unsent, hunhurt.rejected] at hset
  · simp [hunhurt.failed, hunhurt.cancel] at hset

end Contained

/-- A panic in a hook of a job stays with the job. -/
structure PanicsContained (H : Hooks T) (s : MachineState (Mem T) (Code T) Task RejectCode) :
    Prop where
  /-- A job whose hook panicked has failed, or a thread is about to fail it. -/
  failing : ∀ j job, s.shared.client.job j = some job → job.panicked = true →
    statusOf job.record = .failed ∨ ∃ i steps, Unwinds s i j steps
  /-- So it has failed when no task of it is left. -/
  failed : ∀ j job, s.shared.client.job j = some job → job.panicked = true →
    (∀ p ∈ s.soup, StackPoint.taskOf p ≠ some j) → statusOf job.record = .failed
  /-- The thread that is about to fail it is never blocked, -/
  unwinding : ∀ i j steps, Unwinds s i j steps → ∀ job, s.shared.client.job j = some job →
    job.panicked = true → ∀ n, ∃ s', machineStep (stackClient H) s (.step i n) = some s' ∧
      ((steps = 2 ∧ Unwinds s' i j 1) ∨
        ∃ job', s'.shared.client.job j = some job' ∧ statusOf job'.record = .failed)
  /-- and nobody else disturbs it. -/
  undisturbed : ∀ i j steps, Unwinds s i j steps → ∀ a s',
    machineStep (stackClient H) s a = some s' → (∀ n, a ≠ .step i n) → Unwinds s' i j steps
  /-- A task runs on the loop of its worker, above the end of its lane if it has one. -/
  based : ∀ (i : ThreadId) (j : JobId) (code : JobCode T)
    (rest : List (Frame (Code T) Task RejectCode)),
    s.threads[i]? = some (.client (.task j code) :: rest) → AtLoop rest
  /-- The end of a lane is never blocked, and hands the lane on or frees it. -/
  lane : ∀ (i : ThreadId) (b : BackendId) (rest : List (Frame (Code T) Task RejectCode)),
    s.threads[i]? = some (.finishLane b :: rest) → ∀ n, ∃ rt rt' s',
    s.shared.backends[b]? = some rt ∧ machineStep (stackClient H) s (.step i n) = some s' ∧
      s'.shared.backends[b]? = some rt' ∧
      ((∃ t, rt.waiting = t :: rt'.waiting ∧ rt'.lanesInUse = rt.lanesInUse ∧
          s'.threads[i]? = some (.submitReady b t :: .finishLaneCheck b :: rest)) ∨
        (rt.waiting = [] ∧ rt'.lanesInUse + 1 = rt.lanesInUse ∧
          s'.threads[i]? = some (.notifyPrepare b :: rest)))
  /-- No lane is in use but for those who hold one. -/
  lanes : ∀ b rt, s.shared.backends[b]? = some rt → LanesAccounted b rt s
  /-- A worker goes on, and leaves its loop only by itself. -/
  worker : ∀ (i : ThreadId) st, s.threads[i]? = some st → weight Frame.worker st = 1 → ∀ a s',
    machineStep (stackClient H) s a = some s' →
      ∃ st', s'.threads[i]? = some st' ∧ (weight Frame.worker st' = 1 ∨
        (st = [.workerLoad] ∧ s.shared.shutdown = true ∧ st' = []))
  unpoisoned : Unpoisoned s.shared.client
  /-- No user code runs under the lock of the executor queue. -/
  unlocked : ∀ st ∈ s.threads, ∀ code, .client code ∈ st → ∀ f ∈ st, Frame.locksQueue f = false
  /-- Only the packet slot of the job itself is poisoned. -/
  slot : ∀ j job, s.shared.client.job j = some job → job.packetLock = .poisoned →
    job.panicked = true
  /-- Whatever a task does, it does to its own job. -/
  apart : ∀ (i : ThreadId) (j : JobId) f rest, s.threads[i]? = some (f :: rest) →
    Frame.worksFor j f → ∀ n s',
    machineStep (stackClient H) s (.step i n) = some s' → Apart s s' i j
  /-- A job that nothing happened to is completed when no task of it is left. -/
  completes : ∀ j job, s.shared.client.job j = some job →
    Job.Unhurt s.shared.client.rejected j job →
      (∀ p ∈ s.soup, StackPoint.taskOf p ≠ some j) → statusOf job.record = .completed

/-- **A panic in a hook of a job stays with the job**, in every reachable state. -/
theorem panics_contained {s : MachineState (Mem T) (Code T) Task RejectCode}
    (h : Reached H s) : PanicsContained H s := by
  obtain ⟨m, hm, hr⟩ := id h
  exact {
    failing := fun j job hj => h.failing hj
    failed := fun j job hj hpanic hidle => h.failed hj hpanic hidle
    unwinding := fun i j steps hu job hj hpanic n => h.unwinding hu hj hpanic n
    undisturbed := fun i j steps hu a s' hstep ha => hu.stays hstep ha
    based := fun i j code rest hi =>
      (tasksBased stackTasks hr _ (List.mem_of_getElem? hi)).1 rfl
    lane := fun i b rest hi n => lane_given hr hi n
    lanes := fun b rt hb => lanes_accounted hr hb
    worker := fun i st hi hworker a s' hstep => worker_goes_on stackTasks hr hstep hi hworker
    unpoisoned := h.unpoisoned
    unlocked := fun st hst code hcode => h.unlocked hst hcode
    slot := fun j job hj => h.slot hj
    apart := fun i j f rest hi hf n s' hstep => h.apart hi hf hstep
    completes := fun j job hj hunhurt hidle => h.completes hj hunhurt hidle }

/-- Two jobs, one worker: the stage of the first job panics, and the second completes. -/
def counterPanic : List (Action (Code counter)) :=
  [.register 1 1, .spawn (.dispatch [7]), .spawn (.dispatch [8])] ++
    List.replicate 12 (.step 1 0) ++ List.replicate 12 (.step 2 0) ++
    List.replicate 36 (.step 0 0) ++ [.step 0 1] ++ List.replicate 34 (.step 0 0)

/-- The first job has failed, the second has completed, and the panic is contained. -/
theorem panics_contained_counter :
    ((counterAfter counterPanic).shared.client.job 1).map (statusOf ·.record) = some .failed ∧
      ((counterAfter counterPanic).shared.client.job 2).map (statusOf ·.record) =
        some .completed ∧
      PanicsContained counterHooks (counterAfter counterPanic) :=
  ⟨rfl, rfl, panics_contained (counterAfter_reached rfl)⟩

end Braids.Runtime
