import Braids.Executor.Accounting

/-!
# The Rejection Cascade

After a shutdown the end of a lane hands the lane on to a waiting task that nobody can queue
any more. So `submit_ready` rejects the task, the reject side ends the lane again, and the next
waiting task is rejected from within: `finish_lane`, `submit_ready` and
`BackendWrappedTask::reject` call each other until nobody waits, and only the innermost call
frees the lane. The induction is on the waiting queue.

## Conventions

* A thread steps alone when nothing else happens; its steps are then determined.
* The reject side of a task is client code. That those of the waiting tasks come to an end, one
  after the other, is `RejectsRun`.

## Main results

* `finishLane_cascade`, `finishPrepare_cascade`: what a whole call does.
* `rejection_cascade`: it ends, and rejects every waiting task exactly once, in order.
-/

namespace Braids

variable {σ κ τ ν : Type} {C : Client σ κ τ ν}

/-! ### Reject sides -/

/-- A reject side comes to an end. -/
inductive RejectRuns (C : Client σ κ τ ν) : σ → ν → σ → Prop
  | last {mem mem' : σ} {code : ν} (h : C.rejectStep mem code = (mem', none)) :
      RejectRuns C mem code mem'
  | next {mem mem₁ mem' : σ} {code code₁ : ν} (h : C.rejectStep mem code = (mem₁, some code₁))
      (hrest : RejectRuns C mem₁ code₁ mem') : RejectRuns C mem code mem'

/-- The reject sides of some tasks come to an end, one after the other. -/
inductive RejectsRun (C : Client σ κ τ ν) : σ → List (Scheduled τ) → σ → Prop
  | nil {mem : σ} : RejectsRun C mem [] mem
  | cons {mem mem₁ mem' : σ} {task : Scheduled τ} {tasks : List (Scheduled τ)}
      (h : RejectRuns C mem (C.reject task.closure .executorShutdown) mem₁)
      (hrest : RejectsRun C mem₁ tasks mem') : RejectsRun C mem (task :: tasks) mem'

/-! ### A thread that steps alone -/

/-- The reject side that the next step of a thread invokes, with its error. -/
def invokes : List (Frame κ τ ν) → List (Scheduled τ × BraidError)
  | .wrappedReject _ task error :: _ => [(task, error)]
  | .backendReject _ (task :: _) :: _ => [(task, .executorShutdown)]
  | _ => []

/-- Thread `i` goes from one memory and stack to another, whatever its choices are, and invokes
the listed reject sides on the way. -/
inductive StackRun (C : Client σ κ τ ν) (i : ThreadId) : Shared σ τ → List (Frame κ τ ν) →
    List (Scheduled τ × BraidError) → Shared σ τ → List (Frame κ τ ν) → Prop
  | done {sh : Shared σ τ} {st : List (Frame κ τ ν)} : StackRun C i sh st [] sh st
  | step {sh m sh' : Shared σ τ} {st t st' : List (Frame κ τ ν)}
      {log : List (Scheduled τ × BraidError)}
      (h : ∀ workers ended choice, stepStack C sh workers ended i choice st = some (m, t))
      (hrest : StackRun C i m t log sh' st') : StackRun C i sh st (invokes st ++ log) sh' st'

/-- Thread `i` of the machine steps alone, whatever its choices are, and invokes the listed
reject sides on the way. -/
inductive Alone (C : Client σ κ τ ν) (i : ThreadId) : MachineState σ κ τ ν →
    List (Scheduled τ × BraidError) → MachineState σ κ τ ν → Prop
  | done {s : MachineState σ κ τ ν} : Alone C i s [] s
  | step {s m s' : MachineState σ κ τ ν} {st : List (Frame κ τ ν)}
      {log : List (Scheduled τ × BraidError)} (hst : s.threads[i]? = some st)
      (h : ∀ choice, machineStep C s (.step i choice) = some m)
      (hrest : Alone C i m log s') : Alone C i s (invokes st ++ log) s'

namespace StackRun

variable {i : ThreadId} {sh m sh' : Shared σ τ} {st t st' : List (Frame κ τ ν)}
  {log log' : List (Scheduled τ × BraidError)}

/-- One run after another. -/
theorem trans (h : StackRun C i sh st log m t) (h' : StackRun C i m t log' sh' st') :
    StackRun C i sh st (log ++ log') sh' st' := by
  induction h with
  | done => exact h'
  | step hstep _ ih =>
      rw [List.append_assoc]
      exact .step hstep (ih h')

/-- A step that invokes nothing. -/
theorem quiet (h : ∀ workers ended choice,
      stepStack C sh workers ended i choice st = some (m, t)) (hst : invokes st = [])
    (hrest : StackRun C i m t log sh' st') : StackRun C i sh st log sh' st' := by
  have hstep := StackRun.step h hrest
  rwa [hst, List.nil_append] at hstep

/-- The machine does what the stack of the thread does. -/
theorem alone (h : StackRun C i sh st log sh' st') {s : MachineState σ κ τ ν}
    (hsh : s.shared = sh) (hst : s.threads[i]? = some st) :
    Alone C i s log { s with shared := sh', threads := s.threads.set i st' } := by
  induction h generalizing s with
  | @done sh st =>
      have hthreads : s.threads.set i st = s.threads := by
        obtain ⟨hlt, rfl⟩ := List.getElem?_eq_some_iff.mp hst
        exact List.set_getElem_self hlt
      rw [hthreads, ← hsh]
      exact .done
  | @step sh sh₁ sh' st st₁ st' log hstep _ ih =>
      have hlt := (List.getElem?_eq_some_iff.mp hst).1
      refine .step (m := { s with shared := sh₁, threads := s.threads.set i st₁ }) hst
        (fun choice => ?_) ?_
      · simp only [machineStep, hst, hsh, hstep, Option.bind_eq_bind, Option.bind_some,
          Option.pure_def]
      · have hrest := ih (s := { s with shared := sh₁, threads := s.threads.set i st₁ }) rfl
          (by simp [hlt])
        simpa only [List.set_set] using hrest

/-- The reject side of a task comes to its end. -/
theorem rejecting {code : ν} {mem' : σ} (h : RejectRuns C sh.client code mem')
    (rest : List (Frame κ τ ν)) : StackRun C i sh (.rejecting code :: rest) []
      { sh with client := mem' } (.ret (.call .ok) :: rest) := by
  generalize hmem : sh.client = mem at h
  induction h generalizing sh with
  | last hstep =>
      subst hmem
      refine .quiet (fun _ _ _ => ?_) rfl .done
      simp [stepStack, Frame.step, hstep]
  | @next mem mem₁ mem' code code₁ hstep _ ih =>
      subst hmem
      refine .quiet (m := { sh with client := mem₁ }) (t := .rejecting code₁ :: rest)
        (fun _ _ _ => ?_) rfl (ih rfl)
      simp [stepStack, Frame.step, hstep]

/-- `notify_all` on `prepare_wake`. -/
theorem notifyPrepare {b : BackendId} {rt : BackendRuntime τ} (hb : sh.backends[b]? = some rt)
    (rest : List (Frame κ τ ν)) : StackRun C i sh (.notifyPrepare b :: rest) []
      (sh.setBackend b rt.notifyPrepare) (.ret (.call .ok) :: rest) := by
  refine .quiet (fun _ _ _ => ?_) rfl .done
  simp [stepStack, Frame.step, hb]

/-- After a shutdown `submit_ready` rejects its task, and the end of the lane that comes with
it decides how it goes on. -/
theorem submitReady {b : BackendId} {task : Scheduled τ}
    (hdown : sh.gone = true ∨ sh.shutdown = true) {mem₁ : σ}
    (hreject : RejectRuns C sh.client (C.reject task.closure .executorShutdown) mem₁)
    (rest : List (Frame κ τ ν))
    (hlane : StackRun C i { sh.settled b task .reject with client := mem₁ }
      (.finishLane b :: .returning (.err .executorShutdown) :: rest) log sh'
      (.ret (.call .ok) :: .returning (.err .executorShutdown) :: rest)) :
    StackRun C i sh (.submitReady b task :: rest) ((task, .executorShutdown) :: log) sh'
      (.ret (.call (.err .executorShutdown)) :: rest) := by
  have hwrapped : StackRun C i sh
      (.wrappedReject b task .executorShutdown :: .returning (.err .executorShutdown) :: rest)
      ((task, .executorShutdown) :: log) sh' (.ret (.call (.err .executorShutdown)) :: rest) := by
    refine .step (m := sh.settled b task .reject)
      (t := .rejecting (C.reject task.closure .executorShutdown) :: .finishLane b ::
        .returning (.err .executorShutdown) :: rest) (fun _ _ _ => ?_) ?_
    · simp [stepStack, Frame.step]
    · rw [← Shared.settled_client sh b task .reject] at hreject
      refine (rejecting hreject _).trans (.quiet (fun _ _ _ => rfl) rfl ?_)
      rw [← List.append_nil log]
      exact hlane.trans (.quiet (fun _ _ _ => rfl) rfl .done)
  by_cases hgone : sh.gone = true
  · refine .quiet (fun _ _ _ => ?_) rfl hwrapped
    simp [stepStack, Frame.step, hgone]
  · have hshut : sh.shutdown = true := hdown.resolve_left hgone
    refine .quiet (m := sh) (t := .submitLoad (.wrapped b task) :: rest) (fun _ _ _ => ?_) rfl
      (.quiet (fun _ _ _ => ?_) rfl hwrapped)
    · simp [stepStack, Frame.step, hgone]
    · simp [stepStack, Frame.step, hshut, refuse]

end StackRun

/-! ### The cascade -/

/-- The runtime after every waiting task was rejected and the lane is free. -/
def BackendRuntime.rejectAll (rt : BackendRuntime τ) : BackendRuntime τ :=
  { rt with
    waiting := []
    lanesInUse := rt.lanesInUse - 1
    prepareWake := []
    history := rt.history ++ rt.waiting.map fun task => .serve task.ticket
    settled := rt.settled ++ rt.waiting.map fun task => (task.ticket, .reject) }

/-- Writing a backend twice. -/
theorem Shared.setBackend_setBackend (sh : Shared σ τ) (b : BackendId)
    (rt rt' : BackendRuntime τ) : (sh.setBackend b rt).setBackend b rt' = sh.setBackend b rt' := by
  simp [Shared.setBackend]

/-- The memory after the reject side of a task was invoked. -/
theorem Shared.settled_eq {sh : Shared σ τ} {b : BackendId} {rt : BackendRuntime τ}
    (hb : sh.backends[b]? = some rt) (task : Scheduled τ) (side : Side) :
    sh.settled b task side = sh.setBackend b (rt.settle task side) := by
  simp [Shared.settled, hb]

/-- A lane is handed on to a task that is rejected, and the end of the lane that comes with it
rejects the others. -/
theorem StackRun.handOn {i : ThreadId} {sh : Shared σ τ} {b : BackendId} {rt : BackendRuntime τ}
    (hb : sh.backends[b]? = some rt) (hdown : sh.gone = true ∨ sh.shutdown = true)
    {task : Scheduled τ} {mem₁ mem' : σ}
    (hreject : RejectRuns C sh.client (C.reject task.closure .executorShutdown) mem₁)
    (hlane : ∀ (sh₁ : Shared σ τ) (rt₁ : BackendRuntime τ) (rest : List (Frame κ τ ν)),
      sh₁.backends[b]? = some rt₁ → sh₁.gone = true ∨ sh₁.shutdown = true →
      rt₁.waiting = rt.waiting → sh₁.client = mem₁ →
      StackRun C i sh₁ (.finishLane b :: rest)
        (rt.waiting.map fun task => (task, .executorShutdown))
        ({ sh₁ with client := mem' }.setBackend b rt₁.rejectAll) (.ret (.call .ok) :: rest))
    (rest : List (Frame κ τ ν)) :
    StackRun C i sh (.submitReady b task :: rest)
      ((task, .executorShutdown) :: rt.waiting.map fun task => (task, .executorShutdown))
      ({ sh with client := mem' }.setBackend b (rt.settle task .reject).rejectAll)
      (.ret (.call (.err .executorShutdown)) :: rest) := by
  have hat : { sh.settled b task .reject with client := mem₁ }.backends[b]? =
      some (rt.settle task .reject) := by
    rw [Shared.settled_eq hb]
    exact sh.setBackend_self _ hb
  have hrun := hlane { sh.settled b task .reject with client := mem₁ } _
    (.returning (.err .executorShutdown) :: rest) hat
    (by rw [Shared.settled_eq hb]; exact hdown) rfl rfl
  have hend : ({ sh.settled b task .reject with client := mem' } : Shared σ τ).setBackend b
      (rt.settle task .reject).rejectAll =
        { sh with client := mem' }.setBackend b (rt.settle task .reject).rejectAll := by
    rw [Shared.settled_eq hb]
    simp [Shared.setBackend]
  rw [← hend]
  exact .submitReady hdown hreject rest hrun

/-- **`finish_lane` after a shutdown** rejects the waiting tasks in order and frees the lane. -/
theorem finishLane_cascade {i : ThreadId} {sh : Shared σ τ} {b : BackendId}
    {rt : BackendRuntime τ} (hb : sh.backends[b]? = some rt)
    (hdown : sh.gone = true ∨ sh.shutdown = true) {mem' : σ}
    (hrejects : RejectsRun C sh.client rt.waiting mem') (rest : List (Frame κ τ ν)) :
    StackRun C i sh (.finishLane b :: rest)
      (rt.waiting.map fun task => (task, .executorShutdown))
      ({ sh with client := mem' }.setBackend b rt.rejectAll) (.ret (.call .ok) :: rest) := by
  generalize hw : rt.waiting = waiting at hrejects
  generalize hmem : sh.client = mem at hrejects
  induction hrejects generalizing sh rt rest with
  | nil =>
      subst hmem
      have hfinish : rt.finishLane = ({ rt with lanesInUse := rt.lanesInUse - 1 }, none) := by
        simp [BackendRuntime.finishLane, hw]
      have hall : { rt with lanesInUse := rt.lanesInUse - 1 }.notifyPrepare = rt.rejectAll := by
        simp [BackendRuntime.rejectAll, BackendRuntime.notifyPrepare, hw]
      refine .quiet (m := sh.setBackend b { rt with lanesInUse := rt.lanesInUse - 1 })
        (t := .notifyPrepare b :: rest) (fun _ _ _ => ?_) rfl ?_
      · simp [stepStack, Frame.step, hb, hfinish]
      · have hnotify := StackRun.notifyPrepare (C := C) (i := i)
          (sh.setBackend_self { rt with lanesInUse := rt.lanesInUse - 1 } hb) rest
        rwa [hall, Shared.setBackend_setBackend] at hnotify
  | @cons mem mem₁ mem' task tasks hreject _ ih =>
      subst hmem
      have hfinish : rt.finishLane = ({ rt with
          waiting := tasks, history := rt.history ++ [.serve task.ticket] }, some task) := by
        simp [BackendRuntime.finishLane, hw]
      set rt₁ : BackendRuntime τ := { rt with
        waiting := tasks, history := rt.history ++ [.serve task.ticket] } with hrt₁
      have hall : (rt₁.settle task .reject).rejectAll = rt.rejectAll := by
        simp [hrt₁, BackendRuntime.rejectAll, BackendRuntime.settle, hw]
      have hhand := StackRun.handOn (C := C) (i := i)
        (sh.setBackend_self rt₁ hb) (by simpa using hdown) hreject
        (fun sh₁ rt' rest hb₁ hdown₁ hw₁ hmem₁ => ih hb₁ hdown₁ rest hw₁ hmem₁)
        (.finishLaneCheck b :: rest)
      rw [hall] at hhand
      refine .quiet (m := sh.setBackend b rt₁)
        (t := .submitReady b task :: .finishLaneCheck b :: rest) (fun _ _ _ => ?_) rfl ?_
      · simp [stepStack, Frame.step, hb, hfinish]
      · have hend : ({ sh.setBackend b rt₁ with client := mem' } : Shared σ τ).setBackend b
            rt.rejectAll = { sh with client := mem' }.setBackend b rt.rejectAll := by
          simp [Shared.setBackend]
        rw [hend] at hhand
        have hat := ({ sh with client := mem' } : Shared σ τ).setBackend_self rt.rejectAll hb
        have hnotify := StackRun.notifyPrepare (C := C) (i := i) hat rest
        rw [Shared.setBackend_setBackend] at hnotify
        have htail := hhand.trans (.quiet (fun _ _ _ => rfl) rfl hnotify)
        rwa [List.append_nil] at htail

/-- The runtime after `finish_prepare` has rejected every waiting task. -/
def BackendRuntime.rejectAllPrepare (rt : BackendRuntime τ) : BackendRuntime τ :=
  { rt.rejectAll with preparesInUse := rt.preparesInUse - 1 }

/-- **`finish_prepare` after a shutdown** rejects the waiting tasks in order and frees the
permit with its lane. -/
theorem finishPrepare_cascade {i : ThreadId} {sh : Shared σ τ} {b : BackendId}
    {rt : BackendRuntime τ} (hb : sh.backends[b]? = some rt)
    (hdown : sh.gone = true ∨ sh.shutdown = true) {mem' : σ}
    (hrejects : RejectsRun C sh.client rt.waiting mem') (result : CallResult)
    (rest : List (Frame κ τ ν)) :
    StackRun C i sh (.finishPrepare b result :: rest)
      (rt.waiting.map fun task => (task, .executorShutdown))
      ({ sh with client := mem' }.setBackend b rt.rejectAllPrepare)
      (.ret (.call result) :: rest) := by
  have hnotify : ∀ rest : List (Frame κ τ ν), StackRun C i
      ({ sh with client := mem' }.setBackend b rt.rejectAllPrepare) (.notifyPrepare b :: rest) []
      ({ sh with client := mem' }.setBackend b rt.rejectAllPrepare)
      (.ret (.call .ok) :: rest) := by
    intro rest
    have hat := ({ sh with client := mem' } : Shared σ τ).setBackend_self rt.rejectAllPrepare hb
    have hnotify := StackRun.notifyPrepare (C := C) (i := i) hat rest
    rwa [Shared.setBackend_setBackend] at hnotify
  cases hw : rt.waiting with
  | nil =>
      rw [hw] at hrejects
      cases hrejects
      have hfinish : rt.finishPrepare = ({ rt with
          preparesInUse := rt.preparesInUse - 1, lanesInUse := rt.lanesInUse - 1 }, none) := by
        simp [BackendRuntime.finishPrepare, hw]
      set rt₁ : BackendRuntime τ := { rt with
        preparesInUse := rt.preparesInUse - 1, lanesInUse := rt.lanesInUse - 1 } with hrt₁
      have hall : rt₁.notifyPrepare = rt.rejectAllPrepare := by
        simp [hrt₁, BackendRuntime.rejectAllPrepare, BackendRuntime.rejectAll,
          BackendRuntime.notifyPrepare, hw]
      have hfirst := StackRun.notifyPrepare (C := C) (i := i) (sh.setBackend_self rt₁ hb)
        (.returning result :: rest)
      rw [hall, Shared.setBackend_setBackend] at hfirst
      refine .quiet (m := sh.setBackend b rt₁)
        (t := .notifyPrepare b :: .returning result :: rest) (fun _ _ _ => ?_) rfl
        (hfirst.trans (.quiet (fun _ _ _ => rfl) rfl .done))
      simp [stepStack, Frame.step, hb, hfinish]
  | cons task tasks =>
      rw [hw] at hrejects
      cases hrejects with
      | cons hreject hrest =>
          have hfinish : rt.finishPrepare = ({ rt with
              preparesInUse := rt.preparesInUse - 1
              lanesInUse := rt.lanesInUse - 1 + 1
              waiting := tasks
              history := rt.history ++ [.serve task.ticket] }, some task) := by
            simp [BackendRuntime.finishPrepare, hw]
          set rt₁ : BackendRuntime τ := { rt with
            preparesInUse := rt.preparesInUse - 1
            lanesInUse := rt.lanesInUse - 1 + 1
            waiting := tasks
            history := rt.history ++ [.serve task.ticket] } with hrt₁
          have hall : (rt₁.settle task .reject).rejectAll = rt.rejectAllPrepare := by
            simp [hrt₁, BackendRuntime.rejectAllPrepare, BackendRuntime.rejectAll,
              BackendRuntime.settle, hw]
          have hhand := StackRun.handOn (C := C) (i := i)
            (sh.setBackend_self rt₁ hb) (by simpa using hdown) hreject
            (fun sh₁ rt' rest hb₁ hdown₁ hw₁ hmem₁ => by
              rw [← hw₁]
              exact finishLane_cascade hb₁ hdown₁ (by rw [hw₁, hmem₁]; exact hrest) rest)
            (.finishPrepareCheck b result :: rest)
          have hend : ({ sh.setBackend b rt₁ with client := mem' } : Shared σ τ).setBackend b
              rt.rejectAllPrepare =
                { sh with client := mem' }.setBackend b rt.rejectAllPrepare := by
            simp [Shared.setBackend]
          rw [hall, hend] at hhand
          refine .quiet (m := sh.setBackend b rt₁)
            (t := .submitReady b task :: .finishPrepareCheck b result :: rest)
            (fun _ _ _ => ?_) rfl ?_
          · simp [stepStack, Frame.step, hb, hfinish]
          · -- `finish_prepare` notifies twice when the hand-over fails
            have htail := hhand.trans (.quiet (fun _ _ _ => rfl) rfl
              ((hnotify (.notifyPrepare b :: .returning result :: rest)).trans
                (.quiet (fun _ _ _ => rfl) rfl ((hnotify (.returning result :: rest)).trans
                  (.quiet (fun _ _ _ => rfl) rfl .done)))))
            simp only [List.append_nil] at htail
            exact htail

/-! ### The whole call -/

/-- What a call that ends a lane of backend `b` in thread `i` has done when it returns: it has
rejected the waiting tasks, each once and in order, and has freed one lane. What their reject
sides do in this order is all that has happened to the memory of the client. -/
structure LaneClosed (C : Client σ κ τ ν) (i : ThreadId) (b : BackendId) (rt rt' : BackendRuntime τ)
    (s s' : MachineState σ κ τ ν) : Prop where
  run : Alone C i s (rt.waiting.map fun task => (task, .executorShutdown)) s'
  effect : RejectsRun C s.shared.client rt.waiting s'.shared.client
  runtime : s'.shared.backends[b]? = some rt'
  waiting : rt'.waiting = []
  lanes : rt'.lanesInUse = rt.lanesInUse - 1
  settled : rt'.settled = rt.settled ++ rt.waiting.map fun task => (task.ticket, .reject)

/-- **The rejection cascade**: in every state in which the executor is shut down or gone, a call
of `finish_lane` or `finish_prepare` that nobody interferes with returns after it has rejected
the whole waiting queue and freed exactly one lane. In a reachable state there is one to free. -/
theorem rejection_cascade {s : MachineState σ κ τ ν} {b : BackendId} {rt : BackendRuntime τ}
    (hb : s.shared.backends[b]? = some rt)
    (hdown : s.shared.gone = true ∨ s.shared.shutdown = true) {mem' : σ}
    (hrejects : RejectsRun C s.shared.client rt.waiting mem') :
    (∀ i rest, s.threads[i]? = some (.finishLane b :: rest) →
      ∃ s' rt', LaneClosed C i b rt rt' s s' ∧ rt'.preparesInUse = rt.preparesInUse ∧
        s'.threads = s.threads.set i (.ret (.call .ok) :: rest)) ∧
    (∀ i result rest, s.threads[i]? = some (.finishPrepare b result :: rest) →
      ∃ s' rt', LaneClosed C i b rt rt' s s' ∧ rt'.preparesInUse = rt.preparesInUse - 1 ∧
        s'.threads = s.threads.set i (.ret (.call result) :: rest)) ∧
    ∀ mem, Lts.Reach (Started mem) (machineStep C) s →
      ∀ st ∈ s.threads, ∀ f ∈ st, f.Covered b rt := by
  refine ⟨fun i rest hst => ?_, fun i result rest hst => ?_, fun mem hreach st hst f hf => ?_⟩
  · have hrun := (finishLane_cascade hb hdown hrejects rest).alone rfl hst
    exact ⟨_, rt.rejectAll,
      ⟨hrun, hrejects, Shared.setBackend_self _ rt.rejectAll hb, rfl, rfl, rfl⟩, rfl, rfl⟩
  · have hrun := (finishPrepare_cascade hb hdown hrejects result rest).alone rfl hst
    exact ⟨_, rt.rejectAllPrepare,
      ⟨hrun, hrejects, Shared.setBackend_self _ rt.rejectAllPrepare hb, rfl, rfl, rfl⟩, rfl, rfl⟩
  · have hbalanced := lanesBalanced hreach hb 0
    exact Frame.covered hbalanced.lanes hbalanced.prepares hst hf

/-- A worker that ends its lane after the shutdown, while two tasks wait. -/
def probeClosing : MachineState Unit ℕ Unit Unit where
  shared := {
    shutdown := true
    backends := [{ laneCount := 1, prepareLaneCount := 1, lanesInUse := 1,
                   waiting := [⟨1, ()⟩, ⟨2, ()⟩] }]
    client := () }
  workers := 1
  threads := [[.finishLane 0, .workerLock]]

/-- It rejects both and frees its lane. -/
theorem rejection_cascade_probe : ∃ rt s' rt',
    probeClosing.shared.backends[0]? = some rt ∧ rt.waiting.length = 2 ∧
      LaneClosed probe 0 0 rt rt' probeClosing s' ∧ rt'.lanesInUse = 0 := by
  obtain ⟨s', rt', hclosed, -⟩ := (rejection_cascade (C := probe) (s := probeClosing) (b := 0) rfl
    (.inr rfl) (.cons (.last rfl) (.cons (.last rfl) .nil))).1 0 [.workerLock] rfl
  exact ⟨_, s', rt', rfl, rfl, hclosed, hclosed.lanes⟩

end Braids
