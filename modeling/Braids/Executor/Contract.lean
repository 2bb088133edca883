import Mathlib.Tactic.Common
import Braids.Executor.Steps

/-!
# What a Call of the Executor Promises

Client code calls the executor and is resumed with a result. What it may conclude from the
result is a `Contract`: which program points wait for the submission of which task, for the
run of which prepare hook, and what holds of the memory when a call returns. The contract
lists what the client has to respect, and this module proves from it, once for every client,
that each call returns only when what it promises holds.

The one delicate case is a call of `schedule_with_rejection` that fails. `submit_ready`
rejects the task before it returns the error, so when the caller learns of the error the
reject side of its own task is over.

## Main results

* `kept`: in every reachable state every stack keeps the contract.
-/

namespace Braids

variable {σ κ τ ν : Type}

/-- What the program points of a client may rely on when a call returns, and what its steps
have to respect for that. -/
structure Contract (C : Client σ κ τ ν) where
  /-- The point waits for `BraidExecutor::submit` of the task. -/
  Submits : κ → τ → Prop
  /-- The point waits for `schedule_with_rejection` of the task. -/
  Schedules : κ → τ → Prop
  /-- The point waits for a `prepare_blocking` that runs the hook. -/
  Prepares : κ → κ → Prop
  /-- The point waits for a `schedule_with_rejection` whose task is being rejected. -/
  Rejects : κ → ν → Prop
  /-- A call may return the result to the point. -/
  Returns : σ → κ → CallResult → Prop
  submit : ∀ {i n mem mem' code task next},
    C.step i n mem code = some (mem', .submit task next) → Submits next task
  schedule : ∀ {i n mem mem' code b task next},
    C.step i n mem code = some (mem', .schedule b task next) → Schedules next task
  prepare : ∀ {i n mem mem' code b hook next},
    C.step i n mem code = some (mem', .prepare b hook next) → Prepares next hook
  shutdown : ∀ {i n mem mem' code next},
    C.step i n mem code = some (mem', .shutdown next) → Returns mem' next .ok
  submit_ok : ∀ {code task}, Submits code task → ∀ mem, Returns mem code .ok
  schedule_ok : ∀ {code task}, Schedules code task → ∀ mem, Returns mem code .ok
  prepare_refused : ∀ {code hook}, Prepares code hook →
    ∀ mem, Returns mem code (.err .executorShutdown)
  /-- A hook runs to its end without calling the executor. -/
  hook : ∀ {code hook i n mem mem' act}, Prepares code hook →
    C.step i n mem hook = some (mem', act) →
      (∃ hook', act = .goto hook' ∧ Prepares code hook') ∨
        ∃ result, act = .ret result ∧ Returns mem' code result
  hook_resume : ∀ {code hook}, Prepares code hook → ∀ r, Prepares code (C.resume hook r)
  reject : ∀ {code task}, Schedules code task → ∀ e, Rejects code (C.reject task e)
  reject_on : ∀ {code n mem mem' n'}, Rejects code n →
    C.rejectStep mem n = (mem', some n') → Rejects code n'
  reject_done : ∀ {code n mem mem'}, Rejects code n → C.rejectStep mem n = (mem', none) →
    Returns mem' code (.err .executorShutdown)
  stable : ∀ {i n mem mem' code code' act r}, C.step i n mem code = some (mem', act) →
    Returns mem code' r → Returns mem' code' r
  stable_reject : ∀ {mem mem' n next code r}, C.rejectStep mem n = (mem', next) →
    Returns mem code r → Returns mem' code r

section Kept

variable {C : Client σ κ τ ν} (K : Contract C)

/-- What the frame owes to the client code that it sits on. -/
def Frame.Above (m : σ) (code : κ) : Frame κ τ ν → Prop
  | .ret (.call r) | .returning r | .finishPrepare _ r | .finishPrepareCheck _ r =>
      K.Returns m code r
  | .ret (.refused e task) => e = .executorShutdown ∧ K.Submits code task
  | .submitLoad (.plain task) | .submitPush (.plain task) => K.Submits code task
  | .submitLoad (.wrapped _ task) | .submitPush (.wrapped _ task) | .submitReady _ task =>
      K.Schedules code task.closure
  | .schedule _ task => K.Schedules code task
  | .submitNotify | .shutdownSwap | .shutdownCollect | .shutdownBackends _ | .shutdownNotify
  | .shutdownJoin _ => K.Returns m code .ok
  | .acquirePrepare _ hook | .acquireParked _ hook => K.Prepares code hook
  | .permitHeld _ => True
  | _ => False

/-- What the frame owes to the client code that sits below the permit it sits on. -/
def Frame.Under (m : σ) (code : κ) : Frame κ τ ν → Prop
  | .client hook => K.Prepares code hook
  | .ret (.call r) => K.Returns m code r
  | _ => False

/-- The frame may sit on frames of the executor. -/
def Frame.Free : Frame κ τ ν → Prop
  | .ret (.refused _ _) | .submitLoad (.plain _) | .submitPush (.plain _)
  | .acquirePrepare _ _ | .acquireParked _ _ | .permitHeld _ => False
  | .wrappedReject _ _ e => e = .executorShutdown
  | _ => True

attribute [simp] Frame.Above Frame.Under Frame.Free

/-- What the frame owes to the frames below it. -/
def Frame.Fits (m : σ) (f : Frame κ τ ν) : List (Frame κ τ ν) → Prop
  | .client code :: _ => f.Above K m code
  | .permitHeld _ :: .client code :: _ => f.Under K m code
  | _ => f.Free

/-- Every frame of the stack fits the frames below it. -/
def Fitting (m : σ) : List (Frame κ τ ν) → Prop
  | [] => True
  | f :: st => f.Fits K m st ∧ Fitting m st

/-- The stack keeps the contract. While the task of a failed call is being rejected, the
call does not return yet. -/
inductive Keeps (m : σ) : List (Frame κ τ ν) → Prop
  | fitting {st : List (Frame κ τ ν)} (h : Fitting K m st) : Keeps m st
  | refused {b : BackendId} {task : Scheduled τ} {code : κ} {rest : List (Frame κ τ ν)}
      (hs : K.Schedules code task.closure) (h : Fitting K m (.client code :: rest)) :
      Keeps m (.wrappedReject b task .executorShutdown ::
        .returning (.err .executorShutdown) :: .client code :: rest)
  | rejecting {b : BackendId} {n : ν} {code : κ} {rest : List (Frame κ τ ν)}
      (hr : K.Rejects code n) (h : Fitting K m (.client code :: rest)) :
      Keeps m (.rejecting n :: .finishLane b :: .returning (.err .executorShutdown) ::
        .client code :: rest)

variable {K}

/-- A frame that owes no more than another one may take its place. -/
theorem Frame.Fits.imp {m m' : σ} {f g : Frame κ τ ν} {rest : List (Frame κ τ ν)}
    (h : f.Fits K m rest) (habove : ∀ code, f.Above K m code → g.Above K m' code)
    (hunder : ∀ code, f.Under K m code → g.Under K m' code)
    (hfree : f.Free → g.Free) : g.Fits K m' rest := by
  unfold Frame.Fits at h ⊢
  split at h
  · exact habove _ h
  · exact hunder _ h
  · exact hfree h

/-- What a frame owes stays paid. -/
theorem Frame.Fits.mono {m m' : σ} (hm : ∀ code r, K.Returns m code r → K.Returns m' code r)
    {f : Frame κ τ ν} {rest : List (Frame κ τ ν)} (h : f.Fits K m rest) : f.Fits K m' rest := by
  refine h.imp (fun code => ?_) (fun code => ?_) id
  · cases f with
    | ret o => cases o <;> simp_all
    | submitLoad task => cases task <;> simp
    | submitPush task => cases task <;> simp
    | _ => simp_all
  · cases f with
    | ret o => cases o <;> simp_all
    | _ => simp_all

/-- What the frames owe stays paid. -/
theorem Fitting.mono {m m' : σ} (hm : ∀ code r, K.Returns m code r → K.Returns m' code r)
    {st : List (Frame κ τ ν)} (h : Fitting K m st) : Fitting K m' st := by
  induction st with
  | nil => trivial
  | cons f st ih => exact ⟨h.1.mono hm, ih h.2⟩

/-- The contract stays kept. -/
theorem Keeps.mono {m m' : σ} (hm : ∀ code r, K.Returns m code r → K.Returns m' code r)
    {st : List (Frame κ τ ν)} (h : Keeps K m st) : Keeps K m' st := by
  cases h with
  | fitting h => exact .fitting (h.mono hm)
  | refused hs h => exact .refused hs (h.mono hm)
  | rejecting hr h => exact .rejecting hr (h.mono hm)

/-- A step of the machine keeps what has been promised. -/
theorem FrameStep.returns {sh sh' : Shared σ τ} {w : ℕ} {e : ThreadId → Bool} {i : ThreadId}
    {f : Frame κ τ ν} {fs : List (Frame κ τ ν)} (h : FrameStep C sh w e i f sh' fs) {code : κ}
    {r : CallResult} (hr : K.Returns sh.client code r) : K.Returns sh'.client code r := by
  cases h with
  | client h => exact K.stable h hr
  | rejectOn h | rejectDone h => exact K.stable_reject h hr
  | _ => simpa using hr

/-- A frame that a client code may not sit under does not sit on one. -/
theorem Frame.Fits.free {m m' : σ} {f : Frame κ τ ν} {rest : List (Frame κ τ ν)}
    (h : f.Fits K m rest) (habove : ∀ code, ¬ f.Above K m code)
    (hunder : ∀ code, ¬ f.Under K m code) (g : Frame κ τ ν) (hg : g.Free) :
    g.Fits K m' rest := by
  unfold Frame.Fits at h ⊢
  split at h
  · exact (habove _ h).elim
  · exact (hunder _ h).elim
  · exact hg

/-- A frame that needs client code below it sits on client code. -/
theorem Frame.Fits.above {m : σ} {f : Frame κ τ ν} {rest : List (Frame κ τ ν)}
    (h : f.Fits K m rest) (hunder : ∀ code, ¬ f.Under K m code) (hfree : ¬ f.Free) :
    ∃ code rest', rest = .client code :: rest' ∧ f.Above K m code := by
  unfold Frame.Fits at h
  split at h
  · exact ⟨_, _, rfl, h⟩
  · exact (hunder _ h).elim
  · exact (hfree h).elim

/-- What client code asked for fits where the client code was. -/
theorem Contract.fits_callFrames {i n : ℕ} {mem mem' : σ} {code : κ} {act : ClientAct κ τ}
    (h : C.step i n mem code = some (mem', act)) {rest : List (Frame κ τ ν)}
    (hfits : (Frame.client code : Frame κ τ ν).Fits K mem rest) (hrest : Fitting K mem rest) :
    Fitting K mem' (callFrames act ++ rest) := by
  have hrest' := hrest.mono fun _ _ => K.stable h
  -- below a hook lies its permit, and the hook goes on or returns
  have hunder : ∀ caller, (Frame.client code : Frame κ τ ν).Under K mem caller →
      (∃ hook', act = .goto hook' ∧ K.Prepares caller hook') ∨
        ∃ result, act = .ret result ∧ K.Returns mem' caller result :=
    fun caller hc => K.hook hc h
  have hclient : ∀ next, (∀ next', act = .goto next' → next' = next) →
      (∀ r, act ≠ .ret r) → (Frame.client next : Frame κ τ ν).Fits K mem' rest := by
    intro next hgoto hret
    refine hfits.imp (fun _ hc => hc) (fun caller hc => ?_) id
    rcases hunder caller hc with ⟨hook', hact, hp⟩ | ⟨r, hact, -⟩
    · rwa [← hgoto hook' hact]
    · exact (hret r hact).elim
  cases act with
  | goto next => exact ⟨hclient next (by simp) (by simp), hrest'⟩
  | submit task next => exact ⟨K.submit h, hclient next (by simp) (by simp), hrest'⟩
  | schedule b task next => exact ⟨K.schedule h, hclient next (by simp) (by simp), hrest'⟩
  | prepare b hook next => exact ⟨K.prepare h, hclient next (by simp) (by simp), hrest'⟩
  | shutdown next => exact ⟨K.shutdown h, hclient next (by simp) (by simp), hrest'⟩
  | ret result =>
      refine ⟨hfits.imp (fun _ hc => hc.elim) (fun caller hc => ?_) fun _ => trivial, hrest'⟩
      rcases hunder caller hc with ⟨hook', hact, -⟩ | ⟨r, hact, hr⟩
      · simp at hact
      · obtain rfl : result = r := by simpa using hact
        exact hr

/-- **A step of a frame keeps the contract.** -/
theorem FrameStep.keeps {sh sh' : Shared σ τ} {w : ℕ} {e : ThreadId → Bool} {i : ThreadId}
    {f : Frame κ τ ν} {fs rest : List (Frame κ τ ν)} (h : FrameStep C sh w e i f sh' fs)
    (hst : Keeps K sh.client (f :: rest)) : Keeps K sh'.client (fs ++ rest) := by
  have hmono : ∀ code r, K.Returns sh.client code r → K.Returns sh'.client code r :=
    fun _ _ => h.returns
  cases hst with
  | refused hs hrest =>
      cases h with
      | wrappedReject => exact .rejecting (K.reject hs _) (hrest.mono hmono)
  | rejecting hr hrest =>
      cases h with
      | rejectOn h => exact .rejecting (K.reject_on hr h) (hrest.mono hmono)
      | rejectDone h => exact .fitting ⟨trivial, trivial, K.reject_done hr h, hrest.mono hmono⟩
  | fitting hst =>
      obtain ⟨hf, hrest⟩ := hst
      have hrest' := hrest.mono hmono
      cases h with
      | client h => exact .fitting (K.fits_callFrames h hf hrest)
      | rejectOn | rejectDone =>
          exact .fitting ⟨hf.imp (by simp) (by simp) (by simp), hrest'⟩
      | @submitRefused task =>
          cases task with
          | plain task =>
              obtain ⟨code, rest', rfl, hs⟩ := hf.above (by simp) (by simp)
              exact .fitting ⟨⟨rfl, hs⟩, hrest'⟩
          | wrapped b task =>
              unfold Frame.Fits at hf
              split at hf
              · exact .refused hf hrest'
              · exact hf.elim
              · exact .fitting ⟨rfl, by unfold Frame.Fits; split <;> simp_all, hrest'⟩
      | @submitLoad task =>
          cases task with
          | plain task =>
              obtain ⟨code, rest', rfl, hs⟩ := hf.above (by simp) (by simp)
              exact .fitting ⟨hs, hrest'⟩
          | wrapped b task => exact .fitting ⟨hf.imp (by simp) (by simp) (by simp), hrest'⟩
      | @submitPush task =>
          cases task with
          | plain task =>
              obtain ⟨code, rest', rfl, hs⟩ := hf.above (by simp) (by simp)
              exact .fitting ⟨K.submit_ok hs _, hrest'⟩
          | wrapped b task =>
              exact .fitting ⟨hf.imp (fun _ hs => K.schedule_ok hs _) (by simp) (by simp), hrest'⟩
      | submitNotify | swapAgain | swap | collect | shutEnd | wakeAll | join | joinEnd =>
          exact .fitting ⟨hf.imp (fun _ => hmono _ _) (by simp) (by simp), hrest'⟩
      | shutNext =>
          exact .fitting ⟨trivial, hf.imp (fun _ => hmono _ _) (by simp) (by simp), hrest'⟩
      | grant _ h =>
          obtain ⟨-, rfl, -⟩ := BackendRuntime.schedule_some h
          exact .fitting ⟨hf.imp (by simp) (by simp) (by simp), hrest'⟩
      | enqueue =>
          exact .fitting ⟨hf.imp (fun _ hs => K.schedule_ok hs _) (by simp) (by simp), hrest'⟩
      | submitGone =>
          unfold Frame.Fits at hf
          split at hf
          · exact .refused hf hrest'
          · exact hf.elim
          · exact .fitting ⟨rfl, by unfold Frame.Fits; split <;> simp_all, hrest'⟩
      | submitReady => exact .fitting ⟨hf.imp (by simp) (by simp) (by simp), hrest'⟩
      | prepareRefused =>
          exact .fitting
            ⟨hf.imp (fun _ hp => K.prepare_refused hp _) (by simp) (by simp), hrest'⟩
      | permit =>
          obtain ⟨code, rest', rfl, hp⟩ := hf.above (by simp) (by simp)
          exact .fitting ⟨hp, trivial, hrest'⟩
      | park | unparked => exact .fitting ⟨hf.imp (by simp) (by simp) (by simp), hrest'⟩
      | permitHandOver | permitFree =>
          exact .fitting ⟨trivial, hf.imp (fun _ => hmono _ _) (by simp) (by simp), hrest'⟩
      | free | notifyPrepare | drain | rejectEnd | close | lock | popEmpty | load | wait
      | relock => exact .fitting ⟨hf.free (by simp) (by simp) _ (by simp), hrest'⟩
      | wrappedReject | handOver | rejectDrained | popPlain =>
          exact .fitting ⟨trivial, hf.free (by simp) (by simp) _ (by simp), hrest'⟩
      | popWrapped =>
          exact .fitting ⟨trivial, trivial, hf.free (by simp) (by simp) _ (by simp), hrest'⟩
      | exit => exact .fitting hrest'

/-- **Returning an outcome keeps the contract.** -/
theorem Keeps.resume {m : σ} {o : Outcome τ} {f : Frame κ τ ν} {rest : List (Frame κ τ ν)}
    (h : Keeps K m (.ret o :: f :: rest)) : Keeps K m (f.resume C o ++ rest) := by
  cases h with
  | fitting h =>
      obtain ⟨ho, hf, hrest⟩ := h
      cases f with
      | client code =>
          exact .fitting ⟨hf.imp (by simp) (fun _ hp => K.hook_resume hp _) (by simp), hrest⟩
      | returning r => exact .fitting ⟨hf.imp (by simp) (by simp) (by simp), hrest⟩
      | finishLaneCheck b =>
          have hfree : ∀ g : Frame κ τ ν, g.Free → g.Fits K m rest :=
            hf.free (by simp) (by simp)
          cases o with
          | call r => cases r <;> exact .fitting ⟨hfree _ (by simp), hrest⟩
          | refused e task => exact .fitting ⟨hfree _ (by simp), hrest⟩
      | finishPrepareCheck b r =>
          have hret : (Frame.returning r : Frame κ τ ν).Fits K m rest :=
            hf.imp (by simp) (by simp) (by simp)
          cases o with
          | call result =>
              cases result with
              | ok => exact .fitting ⟨trivial, hret, hrest⟩
              | _ => exact .fitting ⟨trivial, trivial, hret, hrest⟩
          | refused e task => exact .fitting ⟨trivial, trivial, hret, hrest⟩
      | permitHeld b =>
          obtain ⟨code, rest', rfl, -⟩ := hf.above (by simp) (by simp)
          cases o with
          | call r => exact .fitting ⟨ho, hrest⟩
          | refused e task => exact ho.elim
      | workerLock =>
          cases o with
          | call r =>
              cases r with
              | panicked => exact .fitting hrest
              | _ => exact .fitting ⟨hf, hrest⟩
          | refused e task => exact .fitting ⟨hf, hrest⟩
      | _ => exact .fitting ⟨hf, hrest⟩

/-- A task is rejected because the executor shuts down. -/
theorem Keeps.wrappedReject {m : σ} {b : BackendId} {task : Scheduled τ} {e : BraidError}
    {rest : List (Frame κ τ ν)} (h : Keeps K m (.wrappedReject b task e :: rest)) :
    e = .executorShutdown := by
  cases h with
  | refused => rfl
  | fitting h =>
      have hf := h.1
      unfold Frame.Fits at hf
      split at hf
      · exact hf.elim
      · exact hf.elim
      · exact hf

/-- What a returned outcome says to client code. -/
theorem Keeps.returned {m : σ} {o : Outcome τ} {code : κ} {rest : List (Frame κ τ ν)}
    (h : Keeps K m (.ret o :: .client code :: rest)) :
    (∃ task, o = .refused .executorShutdown task ∧ K.Submits code task) ∨
      ∃ r, o = .call r ∧ K.Returns m code r := by
  cases h with
  | fitting h =>
      obtain ⟨ho, -⟩ := h
      cases o with
      | call r => exact .inr ⟨r, rfl, ho⟩
      | refused e task =>
          obtain ⟨rfl, hs⟩ := ho
          exact .inl ⟨task, rfl, hs⟩

/-- A refused task is returned to client code only. -/
theorem Keeps.refusedTo {m : σ} {e : BraidError} {task : τ} {rest : List (Frame κ τ ν)}
    (h : Keeps K m (.ret (.refused e task) :: rest)) :
    ∃ code rest', rest = .client code :: rest' := by
  cases h with
  | fitting h =>
      obtain ⟨code, rest', hrest, -⟩ := h.1.above (by simp) (by simp)
      exact ⟨code, rest', hrest⟩

/-- In every reachable state every stack keeps the contract. -/
theorem kept (K : Contract C) {mem : σ} {s : MachineState σ κ τ ν}
    (h : Lts.Reach (Started mem) (machineStep C) s) :
    ∀ st ∈ s.threads, Keeps K s.shared.client st :=
  stack_invariant_of (fun _ => .fitting trivial) (fun _ => .fitting ⟨trivial, trivial⟩)
    (fun _ _ _ => .fitting ⟨trivial, trivial⟩) (fun _ _ _ _ hst => hst.resume)
    (fun hf hst => hf.keeps hst) (fun hf hst => hst.mono fun _ _ => hf.returns) h

end Kept

end Braids
