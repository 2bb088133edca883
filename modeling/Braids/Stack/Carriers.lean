import Braids.Executor.Accounting
import Braids.Executor.Workers
import Braids.Stack.Steps

/-!
# Who Carries a Job

A job that is not over is carried by something that will end it: a task in the executor
queue or in the waiting queue of a backend, a task that runs or is being rejected, or the
`dispatch` that is about to submit it. No step may drop the last carrier of a job without
ending it; the one place that looks as if it did, a refused `submit`, hands the error to
the frame below, which then carries the job.

## Main results

* `awaited`: a refused task is always waited for by code of its job.
* `dispatchedOnce`: one `dispatch` per job, so a job is accepted or refused but not both.
* `carried`: a job that was not refused is over or carried, in every reachable state.
-/

namespace Braids

open Census

variable {ρ : Type}

/-- A frame of the executor that runs `stack.rs`. -/
abbrev StackFrame (ρ : Type) := Frame (Code ρ) Task RejectCode

/-- A state of the executor that runs `stack.rs`. -/
abbrev StackState (ρ : Type) := MachineState (StackMem ρ) (Code ρ) Task RejectCode

/-! ### Who waits for a submission -/

/-- The task that the frame is about to submit, or was refused. -/
def Frame.pendingTask : StackFrame ρ → Option Task
  | .submitLoad (.plain t) | .submitPush (.plain t) | .ret (.refused _ t) => some t
  | _ => none

/-- The program point waits for the submission of a task. -/
def Code.Awaits (t : Task) : Code ρ → Prop
  | .dispatchWait s j | .task s j .await => s = t.stack ∧ j = t.job
  | _ => False

/-- Below every frame that submits a task waits code of the job of the task. -/
def Awaited : List (StackFrame ρ) → Prop
  | [] => True
  | f :: st => (∀ t, f.pendingTask = some t →
      ∃ code rest, st = .client code :: rest ∧ code.Awaits t) ∧ Awaited st

/-- Frames that submit nothing may be put on any stack. -/
theorem Awaited.append {fs rest : List (StackFrame ρ)} (h : Awaited rest)
    (hfs : ∀ f ∈ fs, f.pendingTask = none) : Awaited (fs ++ rest) := by
  induction fs with
  | nil => exact h
  | cons f fs ih =>
      refine ⟨fun t ht => ?_, ih fun g hg => hfs g (List.mem_cons_of_mem _ hg)⟩
      rw [hfs f List.mem_cons_self] at ht
      simp at ht

/-- A task of a job submits only tasks of its job, and waits for them. -/
theorem JobStep.awaits {b : BackendId} {job job' : Job ρ} {code : JobCode ρ}
    {act : ClientAct (JobCode ρ) JobTask} (h : JobStep b job code job' act) (s : StackId)
    (j : JobId) {rest : List (StackFrame ρ)} (hrest : Awaited rest) :
    Awaited (callFrames (act.ofJob s j) ++ rest) := by
  cases h with
  | submit =>
      refine ⟨fun t ht => ?_, ?_, hrest⟩
      · simp only [Frame.pendingTask, Option.some.injEq] at ht
        subst ht
        exact ⟨_, _, rfl, rfl, rfl⟩
      · simp [Frame.pendingTask]
  | leave _ hact =>
      rcases hact with rfl | rfl <;>
        exact hrest.append (by simp [ClientAct.ofJob, callFrames, Frame.pendingTask])
  | _ => exact hrest.append (by simp [ClientAct.ofJob, callFrames, Frame.pendingTask])

/-- A step of `stack.rs` submits only what it then waits for. -/
theorem StackStep.awaits {mem mem' : StackMem ρ} {code : Code ρ}
    {act : ClientAct (Code ρ) Task} (h : StackStep mem code mem' act)
    {rest : List (StackFrame ρ)} (hrest : Awaited rest) : Awaited (callFrames act ++ rest) := by
  cases h with
  | dispatchSubmit =>
      refine ⟨fun t ht => ?_, ?_, hrest⟩
      · simp only [Frame.pendingTask, Option.some.injEq] at ht
        subst ht
        exact ⟨_, _, rfl, rfl, rfl⟩
      · simp [Frame.pendingTask]
  | task _ _ h => exact h.awaits _ _ hrest
  | _ => exact hrest.append (by simp [callFrames, Frame.pendingTask])

/-- A step of the top frame keeps submissions awaited. -/
theorem FrameStep.awaited {H : Hooks ρ} {sh sh' : Shared (StackMem ρ) Task} {w : ℕ}
    {e : ThreadId → Bool} {i : ThreadId} {f : StackFrame ρ} {fs rest : List (StackFrame ρ)}
    (h : FrameStep (stackClient H) sh w e i f sh' fs) (hst : Awaited (f :: rest)) :
    Awaited (fs ++ rest) := by
  obtain ⟨htop, hrest⟩ := hst
  cases h with
  | client h => exact (stackStep_cases h).awaits hrest
  | @submitRefused task =>
      cases task with
      | plain t => exact ⟨fun t' ht => htop t' ht, hrest⟩
      | wrapped b t => exact hrest.append (by simp [refuse, Frame.pendingTask])
  | @submitLoad task =>
      cases task with
      | plain t => exact ⟨fun t' ht => htop t' ht, hrest⟩
      | wrapped b t => exact hrest.append (by simp [Frame.pendingTask])
  | _ => exact hrest.append (by simp [Frame.pendingTask])

/-- Returning an outcome keeps submissions awaited. -/
theorem Awaited.resume {H : Hooks ρ} {o : Outcome Task} {f : StackFrame ρ}
    {rest : List (StackFrame ρ)} (hst : Awaited (.ret o :: f :: rest)) :
    Awaited (f.resume (stackClient H) o ++ rest) := by
  obtain ⟨-, htop, hrest⟩ := hst
  unfold Frame.resume
  split <;> first
    | exact ⟨htop, hrest⟩
    | exact hrest.append (by simp [Frame.pendingTask])

/-- In every reachable state every submission is awaited. -/
theorem awaited {H : Hooks ρ} {mem : StackMem ρ} {s : StackState ρ}
    (h : Lts.Reach (Started mem) (machineStep (stackClient H)) s) :
    ∀ st ∈ s.threads, Awaited st :=
  stack_invariant trivial ⟨by simp [Frame.pendingTask], trivial⟩
    (fun _ _ => ⟨by simp [Frame.pendingTask], trivial⟩) (fun _ _ _ hst => hst.resume)
    (fun hf hst => hf.awaited hst) h

/-! ### What runs under a permit -/

/-- The hook that a caller of `acquire_prepare` will run. -/
def Frame.hook : StackFrame ρ → Option (Code ρ)
  | .acquirePrepare _ hook | .acquireParked _ hook => some hook
  | _ => none

/-- Only the `prepare` hook of a backend runs under a permit. -/
def HooksPrepare (st : List (StackFrame ρ)) : Prop :=
  ∀ f ∈ st, ∀ code, f.hook = some code → code = .prepareHook

/-- Frames that run no hook may be put on any stack. -/
theorem HooksPrepare.append {fs rest : List (StackFrame ρ)} (h : HooksPrepare rest)
    (hfs : ∀ f ∈ fs, ∀ code, f.hook = some code → code = .prepareHook) :
    HooksPrepare (fs ++ rest) := by
  intro f hf
  rcases List.mem_append.mp hf with hf | hf
  · exact hfs f hf
  · exact h f hf

/-- A step of `stack.rs` prepares with the `prepare` hook only. -/
theorem StackStep.hooksPrepare {mem mem' : StackMem ρ} {code : Code ρ}
    {act : ClientAct (Code ρ) Task} (h : StackStep mem code mem' act) :
    HooksPrepare (callFrames act : List (StackFrame ρ)) := by
  cases h with
  | task _ _ h =>
      cases h with
      | leave _ hact =>
          rcases hact with rfl | rfl <;>
            simp [HooksPrepare, ClientAct.ofJob, callFrames, Frame.hook]
      | _ => simp [HooksPrepare, ClientAct.ofJob, callFrames, Frame.hook]
  | _ => simp [HooksPrepare, callFrames, Frame.hook]

/-- In every reachable state only the `prepare` hook runs under a permit. -/
theorem hooksPrepare {H : Hooks ρ} {mem : StackMem ρ} {s : StackState ρ}
    (h : Lts.Reach (Started mem) (machineStep (stackClient H)) s) :
    ∀ st ∈ s.threads, HooksPrepare st := by
  refine stack_invariant (by simp [HooksPrepare]) (by simp [HooksPrepare, Frame.hook])
    (fun _ _ => by simp [HooksPrepare, Frame.hook]) ?_ ?_ h
  · intro o f rest hst
    have hf := hst f (by simp)
    have hrest : HooksPrepare rest := fun g hg => hst g (by simp [hg])
    refine hrest.append ?_
    unfold Frame.resume
    split <;> simp_all [Frame.hook]
  · intro sh sh' w e i f fs rest h hst
    have hf := hst f (by simp)
    have hrest : HooksPrepare rest := fun g hg => hst g (by simp [hg])
    refine hrest.append ?_
    cases h with
    | client h => exact (stackStep_cases h).hooksPrepare
    | @submitRefused task => cases task <;> simp [refuse, Frame.hook]
    | _ => simp_all [Frame.hook]

/-! ### One dispatch for each job -/

/-- The program point belongs to the `dispatch` of job `j` of stack `s`, after its id was
drawn. -/
def Code.dispatches (s : StackId) (j : JobId) : Code ρ → ℕ
  | .dispatchInsert s' j' | .dispatchSubmit s' j' | .dispatchWait s' j' | .dispatchOk s' j'
  | .dispatchErr s' j' _ => if s' = s ∧ j' = j then 1 else 0
  | _ => 0

/-- The same for frames. -/
def Frame.dispatches (s : StackId) (j : JobId) : StackFrame ρ → ℕ
  | .client code => code.dispatches s j
  | _ => 0

/-- One while the result of `dispatch` for a job is pending. -/
def pendingDispatch (mem : StackMem ρ) (s : StackId) (j : JobId) : ℕ :=
  match mem.job? s j with
  | some job => if job.dispatched = .pending then 1 else 0
  | none => 0

attribute [simp] Code.dispatches Frame.dispatches

/-- The pending result of a job that is there. -/
theorem pendingDispatch_of_some {mem : StackMem ρ} {s : StackId} {st : StackInner ρ}
    {j : JobId} {job : Job ρ} (hst : mem[s]? = some st) (hjob : st.job j = some job) :
    pendingDispatch mem s j = if job.dispatched = .pending then 1 else 0 := by
  simp [pendingDispatch, StackMem.job?_of_some hst, hjob]

/-- The pending results after one job was written. -/
theorem pendingDispatch_put_setJob {mem : StackMem ρ} {s : StackId} {st st' : StackInner ρ}
    (hst : mem[s]? = some st) (j : JobId) (job : Job ρ) (s' : StackId) (j' : JobId)
    (hst' : st'.job = (st.setJob j job).job) :
    pendingDispatch (mem.put s st') s' j' =
      if s' = s ∧ j' = j then (if job.dispatched = .pending then 1 else 0)
      else pendingDispatch mem s' j' := by
  unfold pendingDispatch
  rw [StackMem.job?_put_setJob hst j job s' j' hst']
  by_cases h : s' = s ∧ j' = j
  · simp only [if_pos h]
  · simp only [if_neg h]

/-- The pending results after a job was written that keeps its result. -/
theorem pendingDispatch_put_keep {mem : StackMem ρ} {s : StackId} {st st' : StackInner ρ}
    (hst : mem[s]? = some st) {j : JobId} {job : Job ρ} (hjob : st.job j = some job)
    (job' : Job ρ) (hd : job'.dispatched = job.dispatched) (s' : StackId) (j' : JobId)
    (hst' : st'.job = (st.setJob j job').job) :
    pendingDispatch (mem.put s st') s' j' = pendingDispatch mem s' j' := by
  rw [pendingDispatch_put_setJob hst j job' s' j' hst', hd]
  by_cases h : s' = s ∧ j' = j
  · obtain ⟨rfl, rfl⟩ := h
    rw [if_pos ⟨rfl, rfl⟩, pendingDispatch_of_some hst hjob]
  · rw [if_neg h]

/-- The pending results after a write that is about no job. -/
theorem pendingDispatch_put_same {mem : StackMem ρ} {s : StackId} {st st' : StackInner ρ}
    (hst : mem[s]? = some st) (s' : StackId) (j : JobId) (hst' : st'.job = st.job) :
    pendingDispatch (mem.put s st') s' j = pendingDispatch mem s' j := by
  simp only [pendingDispatch, StackMem.job?_put_same hst s' j hst']

/-- What a task asks for is no part of a `dispatch`. -/
theorem JobStep.dispatches {b : BackendId} {job job' : Job ρ} {code : JobCode ρ}
    {act : ClientAct (JobCode ρ) JobTask} (h : JobStep b job code job' act)
    (s s' : StackId) (j j' : JobId) :
    weight (Frame.dispatches s' j') (callFrames (act.ofJob s j)) = 0 := by
  cases h with
  | leave _ hact => obtain rfl | rfl := hact <;> simp [ClientAct.ofJob, callFrames]
  | _ => simp [ClientAct.ofJob, callFrames]

/-- A task keeps what `dispatch` has returned. -/
theorem JobStep.dispatched {b : BackendId} {job job' : Job ρ} {code : JobCode ρ}
    {act : ClientAct (JobCode ρ) JobTask} (h : JobStep b job code job' act) :
    job'.dispatched = job.dispatched := by
  cases h with
  | move _ _ hd => exact hd
  | ends _ hd => exact hd
  | submit | schedule | leave => rfl

/-- `dispatch` returns a result that was pending. -/
theorem resolved {mem : StackMem ρ} {s s₀ : StackId} {j j₀ : JobId} {st : StackInner ρ}
    {job : Job ρ} {n m : ℕ} (hst : mem[s₀]? = some st) (hjob : st.job j₀ = some job)
    (hle : (if s₀ = s ∧ j₀ = j then 1 else 0) ≤ pendingDispatch mem s j) (hm : m = 0)
    (hn : n = 0) :
    n + pendingDispatch mem s j = (if s₀ = s ∧ j₀ = j then 1 else 0) +
      if s = s₀ ∧ j = j₀ then m else pendingDispatch mem s j := by
  subst hm hn
  by_cases hsj : s = s₀ ∧ j = j₀
  · obtain ⟨rfl, rfl⟩ := hsj
    have hpend : pendingDispatch mem s j = 1 := by
      rw [pendingDispatch_of_some hst hjob] at hle ⊢
      by_contra hne
      simp_all
    simp [hpend]
  · have hne : ¬ (s₀ = s ∧ j₀ = j) := fun h => hsj ⟨h.1.symm, h.2.symm⟩
    simp [hsj, hne]

/-- What `dispatch` has still to do about a job, around one step of `stack.rs`. -/
theorem StackStep.pendingDispatch {mem mem' : StackMem ρ} {code : Code ρ}
    {act : ClientAct (Code ρ) Task} (h : StackStep mem code mem' act) (hfresh : FreshIds mem)
    {s : StackId} {j : JobId} (hle : code.dispatches s j ≤ Braids.pendingDispatch mem s j) :
    weight (Frame.dispatches s j) (callFrames act) + Braids.pendingDispatch mem s j =
      code.dispatches s j + Braids.pendingDispatch mem' s j := by
  cases h with
  | dispatch | dispatchSubmit | poisoned | compiled | prepareHook | collectEnd | cancelUnknown
  | shutdown | ended => simp [callFrames]
  | dispatchInsert hst | lockState hst | compileFailed hst | prepared hst | prepareFailed hst
  | publish hst =>
      rw [pendingDispatch_put_same hst s j]
      · simp [callFrames]
      · rfl
  | @dispatchId s₀ version st hst =>
      rw [pendingDispatch_put_setJob hst st.nextJobId { version } s j]
      · by_cases hsj : s = s₀ ∧ j = st.nextJobId
        · obtain ⟨rfl, rfl⟩ := hsj
          have hnone : Braids.pendingDispatch mem s st.nextJobId = 0 := by
            simp [Braids.pendingDispatch, StackMem.job?_of_some hst, hfresh s st hst _ le_rfl]
          simp [callFrames, hnone]
        · have hne : ¬ (s₀ = s ∧ st.nextJobId = j) := fun h => hsj ⟨h.1.symm, h.2.symm⟩
          simp [callFrames, hsj, hne]
      · rfl
  | @dispatchOk s₀ j₀ st job hst hjob =>
      rw [pendingDispatch_put_setJob hst j₀ { job with dispatched := .accepted } s j]
      · exact resolved hst hjob hle (by simp) (by simp [callFrames])
      · rfl
  | @dispatchErr s₀ j₀ error st job hst hjob =>
      rw [pendingDispatch_put_setJob hst j₀ { job with dispatched := .refused } s j]
      · exact resolved hst hjob hle (by simp) (by simp [callFrames])
      · rfl
  | @task s₀ j₀ code st job job' act hst hjob h =>
      rw [pendingDispatch_put_keep hst hjob job' h.dispatched s j rfl, h.dispatches]
      simp
  | @collect s₀ j₀ p p' st job record jobs hst hjob =>
      rw [pendingDispatch_put_keep hst hjob { job with record } rfl s j]
      · simp [callFrames]
      · rfl
  | @cancel s₀ j₀ st job hst hjob =>
      rw [pendingDispatch_put_keep hst hjob
        { job with record := { job.record with cancel := true } } rfl s j]
      · simp [callFrames]
      · rfl

/-- A rejection keeps what `dispatch` has returned. -/
theorem RejectStep.pendingDispatch {mem mem' : StackMem ρ} {code : RejectCode}
    {next : Option RejectCode} (h : RejectStep mem code mem' next) (s : StackId) (j : JobId) :
    Braids.pendingDispatch mem' s j = Braids.pendingDispatch mem s j := by
  cases h with
  | @cleanup s₀ j₀ error st job hst hjob =>
      exact pendingDispatch_put_keep hst hjob { job with packet := job.packet.cleanup } rfl s j
        rfl
  | @fail s₀ j₀ error st job hst hjob =>
      exact pendingDispatch_put_keep hst hjob
        { job with record := job.record.finishFailed error } rfl s j rfl
  | cleanupGone | failGone => rfl

/-- The memory of the stacks draws fresh ids only, whatever a frame does. -/
theorem FrameStep.freshIds {H : Hooks ρ} {sh sh' : Shared (StackMem ρ) Task} {w : ℕ}
    {e : ThreadId → Bool} {i : ThreadId} {f : StackFrame ρ} {fs : List (StackFrame ρ)}
    (h : FrameStep (stackClient H) sh w e i f sh' fs) (hfresh : FreshIds sh.client) :
    FreshIds sh'.client := by
  cases h with
  | client h => exact (stackStep_cases h).freshIds hfresh
  | rejectOn h | rejectDone h => exact (rejectStep_cases h).freshIds hfresh
  | _ => simpa using hfresh

/-- What `dispatch` has still to do about a job, around one step of a frame. -/
theorem FrameStep.pendingDispatch {H : Hooks ρ} {sh sh' : Shared (StackMem ρ) Task} {w : ℕ}
    {e : ThreadId → Bool} {i : ThreadId} {f : StackFrame ρ} {fs : List (StackFrame ρ)}
    (h : FrameStep (stackClient H) sh w e i f sh' fs) (hfresh : FreshIds sh.client)
    (hhook : ∀ code, f.hook = some code → code = .prepareHook) {s : StackId} {j : JobId}
    (hle : f.dispatches s j ≤ Braids.pendingDispatch sh.client s j) :
    weight (Frame.dispatches s j) fs + Braids.pendingDispatch sh.client s j =
      f.dispatches s j + Braids.pendingDispatch sh'.client s j := by
  cases h with
  | client h => exact (stackStep_cases h).pendingDispatch hfresh hle
  | rejectOn h | rejectDone h =>
      rw [(rejectStep_cases h).pendingDispatch s j]
      simp
  | @submitRefused task => cases task <;> simp [refuse]
  | popPlain => simp [stackClient]
  | popWrapped => simp [stackClient]
  | permit =>
      obtain rfl := hhook _ rfl
      simp
  | _ => simp

/-- Returning an outcome keeps a `dispatch` what it is. -/
theorem Frame.dispatches_resume (H : Hooks ρ) (f : StackFrame ρ) (o : Outcome Task)
    (s : StackId) (j : JobId) :
    weight (Frame.dispatches s j) (f.resume (stackClient H) o) = f.dispatches s j := by
  cases f with
  | client code =>
      simp only [Frame.resume, stackClient, weight_cons, weight_nil, Frame.dispatches]
      split <;> simp_all
  | _ =>
      unfold Frame.resume
      split <;> simp_all

/-- No call starts inside a `dispatch`. -/
theorem Code.dispatches_entry {H : Hooks ρ} {code : Code ρ}
    (h : (stackClient H).entry code = true) (s : StackId) (j : JobId) :
    Frame.dispatches s j (.client code) = 0 := by
  cases code <;> simp_all [stackClient]

/-- A stack draws every id once, and each drawn id has one `dispatch` until it returns. -/
structure DispatchedOnce (s : StackState ρ) : Prop where
  fresh : FreshIds s.shared.client
  once : ∀ k j, census (Frame.dispatches k j) s.threads = pendingDispatch s.shared.client k j

/-- Freshly created stacks on some backends. -/
def createStacks (specs : List (BackendId × ℕ)) : StackMem ρ :=
  specs.map fun spec => .create spec.1 spec.2

/-- A freshly created stack has no jobs. -/
theorem job?_createStacks (specs : List (BackendId × ℕ)) (s : StackId) (j : JobId) :
    (createStacks specs : StackMem ρ).job? s j = none := by
  simp only [StackMem.job?, createStacks, List.getElem?_map]
  cases specs[s]? <;> rfl

/-- **One dispatch for each job**, in every reachable state. -/
theorem dispatchedOnce {H : Hooks ρ} {specs : List (BackendId × ℕ)} {s : StackState ρ}
    (h : Lts.Reach (Started (createStacks specs)) (machineStep (stackClient H)) s) :
    DispatchedOnce s := by
  refine h.invariant ?_ ?_
  · rintro s ⟨n, rfl⟩
    refine ⟨fun k st hst j _ => ?_, fun k j => ?_⟩
    · exact (StackMem.job?_of_some hst j).symm.trans (job?_createStacks specs k j)
    · simp [MachineState.start, pendingDispatch, job?_createStacks, census]
  · rintro s a s' hr ⟨hfresh, honce⟩ - hs
    cases machineStep_cases hs with
    | @exit i c o hi =>
        refine ⟨hfresh, fun k j => ?_⟩
        have hold := honce k j
        rw [census_split _ [.ret o] [] hi] at hold
        simpa using hold
    | @resume i c o f rest hi =>
        refine ⟨hfresh, fun k j => ?_⟩
        have hold := honce k j
        rw [census_split _ [.ret o, f] rest hi] at hold
        rw [census_replace _ hi, Frame.dispatches_resume]
        simpa using hold
    | @frame i c f rest fs sh hi h =>
        refine ⟨h.freshIds hfresh, fun k j => ?_⟩
        have hold := honce k j
        rw [census_split _ [f] rest hi] at hold
        simp only [weight_cons, weight_nil, Nat.add_zero] at hold
        have hhook := hooksPrepare hr _ (List.mem_of_getElem? hi) f List.mem_cons_self
        have hstep := h.pendingDispatch hfresh hhook (s := k) (j := j) (by omega)
        rw [census_replace _ hi]
        simp only
        omega
    | spawn he =>
        refine ⟨hfresh, fun k j => ?_⟩
        rw [census_append, weight_cons, Code.dispatches_entry he]
        exact honce k j
    | register => exact ⟨hfresh, honce⟩
    | spurious => exact ⟨hfresh, honce⟩
    | release => exact ⟨hfresh, honce⟩

/-! ### Carriers -/

/-- One if the task is of job `j` of stack `s`. -/
def Task.carries (s : StackId) (j : JobId) (t : Task) : ℕ :=
  if t.stack = s ∧ t.job = j then 1 else 0

/-- One if the program point will end job `j` of stack `s` or pass it on. -/
def Code.carries (s : StackId) (j : JobId) : Code ρ → ℕ
  | .dispatchInsert s' j' | .dispatchSubmit s' j' | .dispatchErr s' j' _ =>
      if s' = s ∧ j' = j then 1 else 0
  | .task s' j' code => if s' = s ∧ j' = j then code.carries else 0
  | _ => 0

/-- A task that starts is responsible for its job. -/
theorem JobTask.start_carries (kind : JobTask) : (kind.start : JobCode ρ).carries = 1 := by
  cases kind <;> rfl

/-- The same for a rejection. -/
def RejectCode.carries (s : StackId) (j : JobId) : RejectCode → ℕ
  | .cleanup s' j' _ | .fail s' j' _ => if s' = s ∧ j' = j then 1 else 0

/-- The same for a task in the executor queue. -/
def Runnable.ofJob (s : StackId) (j : JobId) : Runnable Task → ℕ
  | .plain t => t.carries s j
  | .wrapped _ t => t.closure.carries s j

/-- The same for a task that waits for a lane. -/
def Scheduled.ofJob (s : StackId) (j : JobId) (t : Scheduled Task) : ℕ :=
  t.closure.carries s j

/-- The same for a frame. -/
def Frame.ofJob (s : StackId) (j : JobId) : StackFrame ρ → ℕ
  | .client code => code.carries s j
  | .rejecting code => code.carries s j
  | .submitLoad t | .submitPush t => t.ofJob s j
  | .schedule _ t | .ret (.refused _ t) => t.carries s j
  | .submitReady _ t | .wrappedReject _ t _ => t.ofJob s j
  | .backendReject _ ts => weight (Scheduled.ofJob s j) ts
  | _ => 0

attribute [simp] Code.carries RejectCode.carries Runnable.ofJob Scheduled.ofJob Frame.ofJob

/-- The carriers of a job in the queues of the executor and the backends. -/
def queuedCarriers (s : StackId) (j : JobId) (sh : Shared (StackMem ρ) Task) : ℕ :=
  weight (Runnable.ofJob s j) sh.queue +
    census (Scheduled.ofJob s j) (sh.backends.map (·.waiting))

/-- The carriers of a job. -/
def carriers (k : StackId) (j : JobId) (s : StackState ρ) : ℕ :=
  census (Frame.ofJob k j) s.threads + queuedCarriers k j s.shared

/-- Somebody is still waiting for the job to end: it is not over and its `dispatch` has not
returned an error. -/
def Owed (mem : StackMem ρ) (s : StackId) (j : JobId) : Prop :=
  ∃ job, mem.job? s j = some job ∧ job.record.state.terminal = false ∧
    job.dispatched ≠ .refused

/-- The waiting carriers after one backend was written. -/
theorem queuedCarriers_setBackend {sh : Shared (StackMem ρ) Task} {b : BackendId}
    {rt : BackendRuntime Task} (hb : sh.backends[b]? = some rt) (rt' : BackendRuntime Task)
    (s : StackId) (j : JobId) :
    queuedCarriers s j (sh.setBackend b rt') + weight (Scheduled.ofJob s j) rt.waiting =
      queuedCarriers s j sh + weight (Scheduled.ofJob s j) rt'.waiting := by
  have hw : (sh.backends.map (·.waiting))[b]? = some rt.waiting := by simp [hb]
  have hset := census_set (Scheduled.ofJob s j) hw rt'.waiting
  simp only [queuedCarriers, Shared.setBackend, List.map_set] at hset ⊢
  omega

/-- Writing a backend with the same waiting queue leaves the waiting carriers alone. -/
theorem queuedCarriers_of_backend {sh : Shared (StackMem ρ) Task} {b : BackendId}
    {rt rt' : BackendRuntime Task} {s : StackId} {j : JobId} {m n : ℕ}
    (hb : sh.backends[b]? = some rt) (hwaiting : rt'.waiting = rt.waiting) (h : m ≤ n) :
    m + queuedCarriers s j sh ≤ n + queuedCarriers s j (sh.setBackend b rt') := by
  have hq := queuedCarriers_setBackend hb rt' s j
  rw [hwaiting] at hq
  omega

/-- Invoking a side of a task leaves the queues alone. -/
theorem queuedCarriers_settled (sh : Shared (StackMem ρ) Task) (b : BackendId)
    (t : Scheduled Task) (side : Side) (s : StackId) (j : JobId) :
    queuedCarriers s j (sh.settled b t side) = queuedCarriers s j sh := by
  unfold Shared.settled
  split
  · next rt hb =>
      have h := queuedCarriers_setBackend hb (rt.settle t side) s j
      exact Nat.add_right_cancel h
  · rfl

/-- A task passes its job on, ends it, or has nothing to do with it any more. -/
theorem JobStep.ofJob {b : BackendId} {job job' : Job ρ} {code : JobCode ρ}
    {act : ClientAct (JobCode ρ) JobTask} (h : JobStep b job code job' act) (s : StackId)
    (j : JobId) :
    0 < weight (Frame.ofJob s j) (callFrames (act.ofJob s j)) ∨
      job'.record.state.terminal = true ∨ (job' = job ∧ code.carries = 0) := by
  cases h with
  | move _ hcode' =>
      refine .inl ?_
      simp only [ClientAct.ofJob, callFrames, weight_cons, weight_nil, Frame.ofJob, Code.carries,
        and_self, if_true, hcode']
      omega
  | ends _ _ hterm _ => exact .inr (.inl hterm)
  | submit => exact .inl (by simp [ClientAct.ofJob, callFrames, Task.carries])
  | schedule => exact .inl (by simp [ClientAct.ofJob, callFrames, Task.carries])
  | leave hcode => exact .inr (.inr ⟨rfl, hcode⟩)

/-- The jobs after one job was written: the others are the same. -/
theorem Owed.of_put {mem : StackMem ρ} {s : StackId} {st st' : StackInner ρ}
    (hst : mem[s]? = some st) (j : JobId) (job : Job ρ) {s' : StackId} {j' : JobId}
    (hst' : st'.job = (st.setJob j job).job) (h : Owed (mem.put s st') s' j') :
    (s' = s ∧ j' = j ∧ job.record.state.terminal = false ∧ job.dispatched ≠ .refused) ∨
      (¬ (s' = s ∧ j' = j) ∧ Owed mem s' j') := by
  obtain ⟨job', hjob', hrest⟩ := h
  rw [StackMem.job?_put_setJob hst j job s' j' hst'] at hjob'
  by_cases hsj : s' = s ∧ j' = j
  · rw [if_pos hsj] at hjob'
    obtain rfl := Option.some.inj hjob'
    exact .inl ⟨hsj.1, hsj.2, hrest⟩
  · rw [if_neg hsj] at hjob'
    exact .inr ⟨hsj, job', hjob', hrest⟩

/-- A job that is there is owed. -/
theorem Owed.of_some {mem : StackMem ρ} {s : StackId} {st : StackInner ρ} {j : JobId}
    {job : Job ρ} (hst : mem[s]? = some st) (hjob : st.job j = some job)
    (hterm : job.record.state.terminal = false) (hd : job.dispatched ≠ .refused) :
    Owed mem s j :=
  ⟨job, by rw [StackMem.job?_of_some hst, hjob], hterm, hd⟩

/-- A job whose record was changed without ending it was owed before. -/
theorem Owed.before {mem : StackMem ρ} {s : StackId} {st st' : StackInner ρ}
    (hst : mem[s]? = some st) {j : JobId} {job : Job ρ} (hjob : st.job j = some job)
    (job' : Job ρ) (hterm : job'.record.state.terminal = job.record.state.terminal)
    (hd : job'.dispatched = job.dispatched) {s' : StackId} {j' : JobId}
    (hst' : st'.job = (st.setJob j job').job) (h : Owed (mem.put s st') s' j') :
    Owed mem s' j' := by
  rcases Owed.of_put hst j job' hst' h with ⟨rfl, rfl, hterm', hd'⟩ | ⟨-, h⟩
  · exact .of_some hst hjob (hterm ▸ hterm') (hd ▸ hd')
  · exact h

/-- A write that is about no job owes nothing new. -/
theorem Owed.before_same {mem : StackMem ρ} {s : StackId} {st st' : StackInner ρ}
    (hst : mem[s]? = some st) {s' : StackId} {j : JobId} (hst' : st'.job = st.job)
    (h : Owed (mem.put s st') s' j) : Owed mem s' j := by
  obtain ⟨job, hjob, hrest⟩ := h
  rw [StackMem.job?_put_same hst s' j hst'] at hjob
  exact ⟨job, hjob, hrest⟩

/-- **No step of `stack.rs` drops a job**: a job owed after it is carried by what comes
next, or it was owed before and this step has nothing to do with it. -/
theorem StackStep.carried {mem mem' : StackMem ρ} {code : Code ρ}
    {act : ClientAct (Code ρ) Task} (h : StackStep mem code mem' act) {s : StackId} {j : JobId}
    (hpend : code = .dispatchOk s j → Braids.pendingDispatch mem s j = 1) (how : Owed mem' s j) :
    0 < weight (Frame.ofJob s j) (callFrames act) ∨
      (Owed mem s j ∧ code.carries s j = 0) := by
  cases h with
  | dispatch | poisoned | compiled | prepareHook | collectEnd | cancelUnknown | shutdown
  | ended => exact .inr ⟨how, rfl⟩
  | lockState hst | compileFailed hst | prepared hst | prepareFailed hst | publish hst =>
      have hbefore := Owed.before_same hst (by rfl) how
      exact .inr ⟨hbefore, rfl⟩
  | @dispatchInsert s₀ j₀ st hst =>
      have hbefore := Owed.before_same hst (by rfl) how
      by_cases hsj : s₀ = s ∧ j₀ = j
      · exact .inl (by simp [callFrames, hsj])
      · exact .inr ⟨hbefore, by simp [hsj]⟩
  | @dispatchSubmit s₀ j₀ =>
      by_cases hsj : s₀ = s ∧ j₀ = j
      · exact .inl (by simp [callFrames, hsj, Task.carries])
      · exact .inr ⟨how, by simp [hsj]⟩
  | @dispatchId s₀ version st hst =>
      obtain ⟨rfl, rfl, -⟩ | ⟨-, hbefore⟩ :=
        Owed.of_put hst st.nextJobId { version } (by rfl) how
      · exact .inl (by simp [callFrames])
      · exact .inr ⟨hbefore, rfl⟩
  | @dispatchOk s₀ j₀ st job hst hjob =>
      refine .inr ⟨?_, rfl⟩
      obtain ⟨rfl, rfl, hterm, -⟩ | ⟨-, hbefore⟩ :=
        Owed.of_put hst j₀ { job with dispatched := .accepted } (by rfl) how
      · have hp := hpend rfl
        rw [pendingDispatch_of_some hst hjob] at hp
        refine .of_some hst hjob hterm fun hd => ?_
        simp [hd] at hp
      · exact hbefore
  | @dispatchErr s₀ j₀ error st job hst hjob =>
      obtain ⟨-, -, -, hd⟩ | ⟨hsj, hbefore⟩ :=
        Owed.of_put hst j₀ { job with dispatched := .refused } (by rfl) how
      · exact absurd rfl hd
      · have hne : ¬ (s₀ = s ∧ j₀ = j) := fun h => hsj ⟨h.1.symm, h.2.symm⟩
        exact .inr ⟨hbefore, by simp [hne]⟩
  | @task s₀ j₀ code st job job' act hst hjob h =>
      rcases Owed.of_put hst j₀ job' (by rfl) how with ⟨rfl, rfl, hterm, hd⟩ | ⟨hsj, hbefore⟩
      · rcases h.ofJob s j with hpos | hover | ⟨rfl, hcode⟩
        · exact .inl hpos
        · simp [hover] at hterm
        · refine .inr ⟨.of_some hst hjob hterm hd, ?_⟩
          rw [Code.carries, if_pos ⟨rfl, rfl⟩, hcode]
      · have hne : ¬ (s₀ = s ∧ j₀ = j) := fun h => hsj ⟨h.1.symm, h.2.symm⟩
        exact .inr ⟨hbefore, by simp only [Code.carries, if_neg hne]⟩
  | @collect s₀ j₀ p p' st job record jobs hst hjob hrecord _ =>
      have hbefore := Owed.before hst hjob { job with record } hrecord rfl (by rfl) how
      exact .inr ⟨hbefore, rfl⟩
  | @cancel s₀ j₀ st job hst hjob =>
      have hbefore := Owed.before hst hjob
        { job with record := { job.record with cancel := true } } rfl rfl (by rfl) how
      exact .inr ⟨hbefore, rfl⟩

/-- **No rejection drops a job.** -/
theorem RejectStep.carried {mem mem' : StackMem ρ} {code : RejectCode}
    {next : Option RejectCode} (h : RejectStep mem code mem' next) {s : StackId} {j : JobId}
    (how : Owed mem' s j) :
    (∃ code', next = some code' ∧ code'.carries s j = 1) ∨
      (Owed mem s j ∧ code.carries s j = 0) := by
  cases h with
  | @cleanup s₀ j₀ error st job hst hjob =>
      by_cases hsj : s₀ = s ∧ j₀ = j
      · exact .inl ⟨_, rfl, by simp [hsj]⟩
      · have hbefore := Owed.before hst hjob { job with packet := job.packet.cleanup } rfl rfl
          (by rfl) how
        exact .inr ⟨hbefore, by simp [hsj]⟩
  | @fail s₀ j₀ error st job hst hjob =>
      obtain ⟨-, -, hterm, -⟩ | ⟨hsj, hbefore⟩ :=
        Owed.of_put hst j₀ { job with record := job.record.finishFailed error } (by rfl) how
      · simp [JobRecord.finishFailed, JobRecordState.terminal] at hterm
      · have hne : ¬ (s₀ = s ∧ j₀ = j) := fun h => hsj ⟨h.1.symm, h.2.symm⟩
        exact .inr ⟨hbefore, by simp [hne]⟩
  | @cleanupGone s₀ j₀ error hnone | @failGone s₀ j₀ error hnone =>
      have hne : ¬ (s₀ = s ∧ j₀ = j) := by
        rintro ⟨rfl, rfl⟩
        obtain ⟨job, hjob, -⟩ := how
        simp [hnone] at hjob
      exact .inr ⟨how, by simp [hne]⟩

/-- **No step of a frame drops a job.** -/
theorem FrameStep.carried {H : Hooks ρ} {sh sh' : Shared (StackMem ρ) Task} {w : ℕ}
    {e : ThreadId → Bool} {i : ThreadId} {f : StackFrame ρ} {fs : List (StackFrame ρ)}
    (h : FrameStep (stackClient H) sh w e i f sh' fs) {s : StackId} {j : JobId}
    (hhook : ∀ code, f.hook = some code → code = .prepareHook)
    (hpend : f.dispatches s j = 1 → Braids.pendingDispatch sh.client s j = 1)
    (how : Owed sh'.client s j) :
    0 < weight (Frame.ofJob s j) fs ∨ (Owed sh.client s j ∧
      f.ofJob s j + queuedCarriers s j sh ≤
        weight (Frame.ofJob s j) fs + queuedCarriers s j sh') := by
  cases h with
  | client h =>
      have hcode := (stackStep_cases h).carried (s := s) (j := j)
        (fun hok => hpend (by subst hok; simp)) how
      rcases hcode with hpos | ⟨hbefore, hz⟩
      · exact .inl hpos
      · refine .inr ⟨hbefore, ?_⟩
        rw [Frame.ofJob, hz]
        exact Nat.add_le_add_right (Nat.zero_le _) _
  | rejectOn h =>
      rcases (rejectStep_cases h).carried how with ⟨code', hnext, hpos⟩ | ⟨hbefore, hz⟩
      · obtain rfl := Option.some.inj hnext
        exact .inl (by simp only [weight_cons, weight_nil, Frame.ofJob, hpos]; omega)
      · refine .inr ⟨hbefore, ?_⟩
        rw [Frame.ofJob, hz]
        exact Nat.add_le_add_right (Nat.zero_le _) _
  | rejectDone h =>
      rcases (rejectStep_cases h).carried how with ⟨code', hnext, -⟩ | ⟨hbefore, hz⟩
      · simp at hnext
      · refine .inr ⟨hbefore, ?_⟩
        rw [Frame.ofJob, hz]
        exact Nat.add_le_add_right (Nat.zero_le _) _
  | @submitRefused task =>
      refine .inr ⟨how, ?_⟩
      cases task <;> simp [refuse]
  | submitPush =>
      refine .inr ⟨how, ?_⟩
      simp only [weight_cons, weight_nil, weight_append, Frame.ofJob, queuedCarriers]
      omega
  | @grant b closure rt rt' task hb hs =>
      have hq := queuedCarriers_setBackend hb rt' s j
      obtain ⟨-, rfl, rfl⟩ := BackendRuntime.schedule_some hs
      refine .inr ⟨how, ?_⟩
      simp only [weight_cons, weight_nil, Frame.ofJob, Scheduled.ofJob] at hq ⊢
      omega
  | @enqueue b closure rt rt' hb hs =>
      have hq := queuedCarriers_setBackend hb rt' s j
      obtain ⟨-, rfl⟩ := BackendRuntime.schedule_none hs
      refine .inr ⟨how, ?_⟩
      simp only [weight_cons, weight_nil, weight_append, Frame.ofJob, Scheduled.ofJob] at hq ⊢
      omega
  | @handOver b rt rt' task hb hs =>
      have hq := queuedCarriers_setBackend hb rt' s j
      obtain ⟨waiting, hw, rfl⟩ := BackendRuntime.finishLane_some hs
      refine .inr ⟨how, ?_⟩
      simp only [hw, weight_cons, weight_nil, Frame.ofJob] at hq ⊢
      omega
  | free hb hs =>
      obtain ⟨-, rfl⟩ := BackendRuntime.finishLane_none hs
      exact .inr ⟨how, queuedCarriers_of_backend hb rfl (by simp)⟩
  | @permitHandOver b r rt rt' task hb hs =>
      have hq := queuedCarriers_setBackend hb rt' s j
      obtain ⟨waiting, hw, rfl⟩ := BackendRuntime.finishPrepare_some hs
      refine .inr ⟨how, ?_⟩
      simp only [hw, weight_cons, weight_nil, Frame.ofJob] at hq ⊢
      omega
  | permitFree hb hs =>
      obtain ⟨-, rfl⟩ := BackendRuntime.finishPrepare_none hs
      exact .inr ⟨how, queuedCarriers_of_backend hb rfl (by simp)⟩
  | @drain b rt hb =>
      have hq := queuedCarriers_setBackend hb rt.drain.1 s j
      refine .inr ⟨how, ?_⟩
      simp only [BackendRuntime.drain, weight_cons, weight_nil, Frame.ofJob] at hq ⊢
      omega
  | permit hb =>
      obtain rfl := hhook _ rfl
      exact .inr ⟨how, queuedCarriers_of_backend hb rfl (by simp)⟩
  | notifyPrepare hb | park hb | close hb =>
      exact .inr ⟨how, queuedCarriers_of_backend hb rfl (by simp)⟩
  | wrappedReject | rejectDrained =>
      refine .inr ⟨by simpa using how, ?_⟩
      rw [queuedCarriers_settled]
      simp [stackClient, Task.carries]
  | popPlain hq =>
      refine .inr ⟨how, ?_⟩
      simp [hq, queuedCarriers, stackClient, Task.carries, JobTask.start_carries, Nat.add_assoc]
  | popWrapped hq =>
      refine .inr ⟨by simpa using how, ?_⟩
      rw [queuedCarriers_settled]
      simp [hq, queuedCarriers, stackClient, Task.carries, JobTask.start_carries, Nat.add_assoc]
  | _ => exact .inr ⟨how, by simp [queuedCarriers]⟩

/-- **A refused submission is not lost**: the error that it returns makes the code that
waits for it carry the job. -/
theorem Awaited.ofJob_resume {H : Hooks ρ} {o : Outcome Task} {f : StackFrame ρ}
    {rest : List (StackFrame ρ)} (hst : Awaited (.ret o :: f :: rest)) (s : StackId)
    (j : JobId) :
    weight (Frame.ofJob s j) [.ret o, f] ≤
      weight (Frame.ofJob s j) (f.resume (stackClient H) o) := by
  cases o with
  | refused error t =>
      obtain ⟨code, rest', heq, hcode⟩ := hst.1 t rfl
      simp only [List.cons.injEq] at heq
      obtain ⟨rfl, rfl⟩ := heq
      unfold Code.Awaits at hcode
      split at hcode
      · obtain ⟨rfl, rfl⟩ := hcode
        simp [Frame.resume, stackClient, Outcome.result, Task.carries]
      · obtain ⟨rfl, rfl⟩ := hcode
        simp [Frame.resume, stackClient, Outcome.result, Task.carries, JobCode.carries]
      · exact hcode.elim
  | call r =>
      cases f with
      | client code =>
          simp only [Frame.resume, stackClient, weight_cons, weight_nil, Frame.ofJob]
          split <;> simp_all [JobCode.carries]
      | _ =>
          unfold Frame.resume
          split <;> simp_all

/-- A thread that ends carries nothing. -/
theorem Awaited.ofJob_exit {o : Outcome Task} (hst : Awaited ([.ret o] : List (StackFrame ρ)))
    (s : StackId) (j : JobId) : weight (Frame.ofJob s j) [(.ret o : StackFrame ρ)] = 0 := by
  cases o with
  | refused error t =>
      obtain ⟨code, rest, heq, -⟩ := hst.1 t rfl
      simp at heq
  | call r => simp

/-- **No accepted job is dropped**: in every reachable state a job that was not refused is
over, or something carries it. -/
theorem carried {H : Hooks ρ} {specs : List (BackendId × ℕ)} {s : StackState ρ}
    (h : Lts.Reach (Started (createStacks specs)) (machineStep (stackClient H)) s) :
    ∀ k j, Owed s.shared.client k j → 0 < carriers k j s := by
  refine h.invariant (I := fun s => ∀ k j, Owed s.shared.client k j → 0 < carriers k j s) ?_ ?_
  · rintro s ⟨n, rfl⟩ k j ⟨job, hjob, -⟩
    simp [MachineState.start, job?_createStacks] at hjob
  · intro s a s' hr ih _ hs k j how
    have haw := awaited hr
    cases machineStep_cases hs with
    | @exit i c o hi =>
        have hold := ih k j how
        have hz := (haw _ (List.mem_of_getElem? hi)).ofJob_exit k j
        rw [carriers, census_split _ [.ret o] [] hi, hz] at hold
        simpa [carriers] using hold
    | @resume i c o f rest hi =>
        have hold := ih k j how
        have hle := (haw _ (List.mem_of_getElem? hi)).ofJob_resume (H := H) k j
        rw [carriers, census_split _ [.ret o, f] rest hi] at hold
        rw [carriers, census_replace _ hi]
        simp only
        omega
    | @frame i c f rest fs sh hi h =>
        have hmem := List.mem_of_getElem? hi
        have hhook := hooksPrepare hr _ hmem f List.mem_cons_self
        have hpend : f.dispatches k j = 1 → pendingDispatch s.shared.client k j = 1 := by
          intro hd
          have honce := (dispatchedOnce hr).once k j
          rw [census_split _ [f] rest hi] at honce
          simp only [weight_cons, weight_nil] at honce
          have hle : pendingDispatch s.shared.client k j ≤ 1 := by
            unfold pendingDispatch
            split
            · split <;> omega
            · omega
          omega
        rw [carriers, census_replace _ hi]
        rcases h.carried hhook hpend how with hpos | ⟨hbefore, hle⟩
        · simp only
          omega
        · have hold := ih k j hbefore
          rw [carriers, census_split _ [f] rest hi] at hold
          simp only [weight_cons, weight_nil] at hold ⊢
          omega
    | spawn =>
        have hold := ih k j how
        simp only [carriers, census_append] at hold ⊢
        omega
    | register =>
        have hold := ih k j how
        simp only [carriers, queuedCarriers, List.map_append, List.map_cons, List.map_nil,
          census_append] at hold ⊢
        omega
    | @spurious t =>
        have hold := ih k j how
        have hw : (s.shared.backends.map (·.unpark t)).map (·.waiting) =
            s.shared.backends.map (·.waiting) := by
          rw [List.map_map]
          rfl
        simpa only [carriers, queuedCarriers, hw] using hold
    | release => exact ih k j how

end Braids
