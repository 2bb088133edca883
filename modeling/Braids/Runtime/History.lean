import Mathlib.Logic.Relation
import Braids.Runtime.Lifecycle

/-!
# The History of the Planner State

Calls on the planner state may come from any number of threads. Each of them edits the state
that it finds: the states that a stack goes through form one chain of edits, whatever the
interleaving, so no update is lost. Every version that a job runs on was compiled from a state
of that chain. There is one exception for as long as an `update` has swapped its version in and
not stored its state yet: this state is an edit of the planner state, and joins the chain when
the `update` goes on.

## Main results

* `plannerStep_edits`: a step of a call edits the planner state at most once.
* `inUse_step`: where a version in use comes from.
* `planner_history`: the one history of a run, its chain of edits, and its versions.
-/

namespace Braids.Runtime

variable {T : Types} {H : Hooks T}

/-! ### Edits and builds -/

/-- What a call can do to the planner state. -/
inductive Hooks.Edits (H : Hooks T) (state : T.State) : T.State → Prop
  | apply (n : ℕ) (changes : List T.Change) : H.Edits state (H.apply n state changes).2
  | reset (n : ℕ) (spec : T.Spec) : H.Edits state (H.resetState n state spec).2
  | update {n : ℕ} {changes : List T.Change} {next : T.State}
      (h : H.updatedState n state changes = .ok next) : H.Edits state next

/-- The version is a valid compilation of the state, and the backend has prepared it. -/
structure Hooks.Builds (H : Hooks T) (state : T.State) (version : Version T) : Prop where
  compiles : ∃ n, H.compile n state = .ok version.compiled
  valid : version.compiled.validate = .ok ()
  yields : H.Yields version.compiled version.prepared

/-- A state, or an edit of it. -/
def Hooks.Edited (H : Hooks T) (state next : T.State) : Prop :=
  next = state ∨ H.Edits state next

/-- The version is built from a state that edits of the first one lead to. -/
def Hooks.Stems (H : Hooks T) (first : T.State) (version : Version T) : Prop :=
  ∃ state, Relation.ReflTransGen H.Edits first state ∧ H.Builds state version

/-- `Stack::create` on backend `b`, with what `init_state` returns. The permit of
`prepare_blocking` is the executor's. -/
def createStack (H : Hooks T) (choice : ℕ → ℕ) (b : BackendId) (init : HookResult T.State) :
    HookResult (Mem T) := do
  let state ← init
  let compiled ← H.compile (choice 0) state
  .ofResult compiled.validate
  let prepared ← H.prepare (choice 1) compiled none
  return Mem.create b state compiled prepared

/-- What `Stack::create` returns. -/
theorem createStack_eq_ok {choice : ℕ → ℕ} {b : BackendId} {first : T.State} {m : Mem T}
    (h : createStack H choice b (.ok first) = .ok m) :
    ∃ compiled prepared, m = Mem.create b first compiled prepared ∧
      H.Builds first ⟨1, compiled, prepared⟩ := by
  obtain ⟨state, hstate, h⟩ := HookResult.bind_eq_ok.mp h
  obtain rfl := HookResult.ok.inj hstate
  obtain ⟨compiled, hcompile, h⟩ := HookResult.bind_eq_ok.mp h
  obtain ⟨_, hvalid, h⟩ := HookResult.bind_eq_ok.mp h
  obtain ⟨prepared, hprepare, h⟩ := HookResult.bind_eq_ok.mp h
  refine ⟨compiled, prepared, (HookResult.ok.inj h).symm, ⟨_, hcompile⟩, ?_, _, _, hprepare⟩
  cases hv : compiled.validate with
  | ok => rfl
  | error error => simp [hv, HookResult.ofResult] at hvalid

/-- The planner state of a stack. -/
def plannerState (s : MachineState (Mem T) (Code T) Task RejectCode) : T.State :=
  s.shared.client.planner.state

/-- A run of a stack that was created with the planner state goes through the planner states and
ends in the state. -/
def TracedFrom (H : Hooks T) (first : T.State) (states : List T.State)
    (s : MachineState (Mem T) (Code T) Task RejectCode) : Prop :=
  ∃ choice b m, createStack H choice b (.ok first) = .ok m ∧
    Lts.TracedBy (Started m) (machineStep (stackClient H)) (fun _ _ => True) plannerState states s

/-- A state that a run reaches of a stack that was created with the planner state. -/
def ReachedFrom (H : Hooks T) (first : T.State)
    (s : MachineState (Mem T) (Code T) Task RejectCode) : Prop :=
  ∃ choice b m, createStack H choice b (.ok first) = .ok m ∧
    Lts.Reach (Started m) (machineStep (stackClient H)) s

/-- A stack that was created is a stack. -/
theorem ReachedFrom.reached {first : T.State}
    {s : MachineState (Mem T) (Code T) Task RejectCode} (h : ReachedFrom H first s) :
    Reached H s := by
  obtain ⟨choice, b, m, hm, hr⟩ := h
  obtain ⟨compiled, prepared, rfl, -⟩ := createStack_eq_ok hm
  exact ⟨_, ⟨b, first, compiled, prepared, rfl⟩, hr⟩

/-- What every step of the soup between states in order keeps holds in every state that a
created stack reaches. -/
theorem ReachedFrom.invariant {first : T.State}
    {I : SoupView (Mem T) (Code T) Task RejectCode → Prop}
    (h0 : ∀ b compiled prepared, H.Builds first ⟨1, compiled, prepared⟩ →
      I (Mem.create b first compiled prepared, 0))
    (hstep : ∀ v v', VersionsOk H v.1 v.2 → JobsOk v.1 v.2 → I v →
      SoupStep (stackContract H) v v' → I v')
    {s : MachineState (Mem T) (Code T) Task RejectCode} (h : ReachedFrom H first s) :
    I (s.shared.client, s.soup) := by
  obtain ⟨choice, b, m, hm, hr⟩ := h
  obtain ⟨compiled, prepared, rfl, hbuilds⟩ := createStack_eq_ok hm
  have hall := soup_invariant (stackContract H)
    (P := fun v => (VersionsOk H v.1 v.2 ∧ JobsOk v.1 v.2) ∧ I v)
    ⟨⟨versionsOk_create b first compiled prepared, jobsOk_create b first compiled prepared⟩,
      h0 b compiled prepared hbuilds⟩
    (fun v v' hv hs => ⟨⟨versionsOk_step hv.1.1 hs, jobsOk_step hv.1.2
      (fun queries since seen version hp => (hv.1.1.planner.sees _ hp).1) hs⟩,
      hstep v v' hv.1.1 hv.1.2 hv.2 hs⟩) hr
  exact hall.2

/-! ### One step -/

section Steps

variable {b : BackendId} {m m' : PlannerMem T} {code : PlannerCode T}
  {act : ClientAct (PlannerCode T) JobTask}

/-- The next state of a call is the state that it held, or an edit of it. -/
theorem Transaction.Begun.edits {call : Transaction T} (h : call.Begun H) :
    H.Edited call.before.state call.next := by
  rw [Transaction.Begun] at h
  split at h
  · obtain ⟨n, hn⟩ := h
    exact .inr (.update hn)
  · exact .inl h

/-- **A step of a call** leaves the planner state as it is, or edits it. -/
theorem plannerStep_edits {n : ℕ} (h : plannerStep H b n m code = some (m', act))
    (hf : code.Fits H m) : H.Edited m.state m'.state := by
  cases code with
  | applyHook changes =>
      have hedit : m'.state = (H.apply n m.state changes).2 := by
        simp only [plannerStep] at h
        split at h <;> simp only [Option.some.injEq, Prod.mk.injEq] at h <;>
          obtain ⟨rfl, -⟩ := h <;> simp_all [PlannerMem.unwind]
      exact .inr (hedit ▸ .apply n changes)
  | replaceHook spec =>
      have hedit : m'.state = (H.resetState n m.state spec).2 := by
        simp only [plannerStep] at h
        split at h <;> simp only [Option.some.injEq, Prod.mk.injEq] at h <;>
          obtain ⟨rfl, -⟩ := h <;> simp_all [PlannerMem.unwind]
      exact .inr (hedit ▸ .reset n spec)
  | commit call version =>
      obtain ⟨hmakes, -, hkept, -⟩ := hf
      cases plannerStep_cases h with
      | poisoned => exact .inl rfl
      | edited hcode | editPanicked hcode => simp at hcode
      | @commit _ _ state hstate =>
          change H.Edited m.state state
          by_cases hchanges : call.changes.isSome
          · obtain rfl : state = call.next := by rw [hstate, if_pos hchanges]
            rw [hkept]
            exact hmakes.begun.edits
          · exact .inl (by rw [hstate, if_neg hchanges])
  | _ =>
      refine .inl ?_
      cases plannerStep_cases h <;> first | rfl | simp_all

/-- What a call publishes is built from the state that it is about to put. -/
theorem PlannerStep.builds (h : PlannerStep H b m code m' act) (hf : code.Fits H m) :
    m'.current = m.current ∨ ∃ call version, act = .goto (.storeId call version) ∧
      H.Edited m.state call.next ∧ H.Builds call.next m'.current := by
  cases h with
  | @swap call version =>
      obtain ⟨hbefore, ⟨hbegun, ⟨n, hcompile, hvalid⟩, hyields⟩, -⟩ := hf
      refine .inr ⟨call, version, rfl, ?_, ⟨n, hcompile⟩, hvalid, hyields⟩
      have hedits := hbegun.edits
      rwa [hbefore] at hedits
  | _ => exact .inl rfl

/-- A step of the stack leaves the planner state as it is, or edits it. -/
theorem stackStep_edits {self : ThreadId} {n : ℕ} {m m' : Mem T} {code : Code T}
    {act : ClientAct (Code T) Task} (h : stackStep H self n m code = some (m', act))
    (hsees : code.Sees H m.planner) : H.Edited m.planner.state m'.planner.state := by
  cases code with
  | planner code =>
      simp only [stackStep, bind, Option.bind_eq_some_iff, Option.pure_def, Option.some.injEq,
        Prod.mk.injEq] at h
      obtain ⟨⟨planner, act'⟩, hstep, rfl, -⟩ := h
      exact plannerStep_edits hstep hsees
  | _ =>
      refine .inl ?_
      cases stackStep_cases h <;> rfl

/-- What `dispatch` clones is the current version. -/
theorem StackStep.clones {self : ThreadId} {m m' : Mem T} {code : Code T}
    {act : ClientAct (Code T) Task} (h : StackStep H self m code m' act)
    {queries : List T.Query} {since : List ℕ} {seen version : Version T}
    (hp : (.code (.dispatchId queries since seen version) : StackPoint T) ∈ act.points) :
    m.planner.current = version := by
  cases h with
  | planner hstep => cases hstep <;> simp [liftAct] at hp
  | task hj hstep =>
      have hplain := hstep.plain _ hp
      simp [StackPoint.plain, Code.plain] at hplain
  | _ => simp_all

end Steps

/-- **Every step of the soup** leaves the planner state as it is, or edits it. -/
theorem edits_step {v v' : SoupView (Mem T) (Code T) Task RejectCode}
    (hv : VersionsOk H v.1 v.2) (hstep : SoupStep (stackContract H) v v') :
    H.Edited v.1.planner.state v'.1.planner.state := by
  cases hstep with
  | step hs => exact stackStep_edits hs (hv.planner.sees _ (Multiset.mem_cons_self _ _))
  | rejectOn hs | rejectDone hs =>
      refine .inl ?_
      cases rejectStep_cases hs <;> rfl
  | _ => exact .inl rfl

/-! ### Versions in use -/

/-- The state that a call is about to put, whose version it has swapped in. -/
def Code.proposal? : Code T → Option T.State
  | .planner (.storeId call _) | .planner (.unlock call _) | .planner (.commit call _) =>
      some call.next
  | _ => none

/-- A call has swapped in a version of the state, and has not put the state yet. -/
def Proposed (P : Soup (Code T) Task RejectCode) (state : T.State) : Prop :=
  ∃ code, .code code ∈ P ∧ code.proposal? = some state

/-- The versions that a stack works with: the current one, those of its jobs, and those that
`dispatch` has cloned. -/
inductive InUse (m : Mem T) (P : Soup (Code T) Task RejectCode) : Version T → Prop
  | current : InUse m P m.planner.current
  | job {j : JobId} {job : Job T} (h : m.job j = some job) : InUse m P job.version
  | cloned {queries : List T.Query} {since : List ℕ} {seen version : Version T}
      (h : .code (.dispatchId queries since seen version) ∈ P) : InUse m P version

section Exchange

variable {m m' : Mem T} {P Q R : Soup (Code T) Task RejectCode}

/-- A point of a step is one of those it leaves, or it was there before. -/
theorem Proposed.exchange {state : T.State} (h : Proposed (P + R) state)
    (hP : Proposed P state → Proposed Q state) : Proposed (Q + R) state := by
  obtain ⟨code, hcode, hprop⟩ := h
  rcases Multiset.mem_add.mp hcode with hcode | hcode
  · obtain ⟨next, hnext, hprop⟩ := hP ⟨code, hcode, hprop⟩
    exact ⟨next, Multiset.mem_add.mpr (.inl hnext), hprop⟩
  · exact ⟨code, Multiset.mem_add.mpr (.inr hcode), hprop⟩

/-- Points that have not cloned a version come and go. -/
theorem InUse.exchange {version : Version T} (h : InUse m' (Q + R) version)
    (hcurrent : m'.planner.current = m.planner.current)
    (hjobs : ∀ j job', m'.job j = some job' → ∃ job, m.job j = some job ∧ job.Based job')
    (hQ : ∀ queries since seen version,
      .code (.dispatchId queries since seen version) ∉ Q) : InUse m (P + R) version := by
  cases h with
  | current => exact hcurrent ▸ .current
  | job hj =>
      obtain ⟨job, hold, hbased⟩ := hjobs _ _ hj
      exact hbased.version ▸ .job hold
  | cloned hp =>
      have hR := (Multiset.mem_add.mp hp).resolve_left (hQ _ _ _ _)
      exact .cloned (Multiset.mem_add.mpr (.inr hR))

/-- A call returns to a point that has cloned a version only if it was there before. -/
theorem clones_of_resume {queries : List T.Query} {since : List ℕ} {seen version : Version T}
    {code : Code T} {r : CallResult}
    (h : .dispatchId queries since seen version = resume code r) :
    code = .dispatchId queries since seen version := by
  rw [resume.eq_def] at h
  split at h
  case h_6 => exact h.symm
  all_goals cases h

/-- A call that returns proposes what it has proposed before. -/
theorem proposal_resume (code : Code T) (r : CallResult) :
    (resume code r).proposal? = code.proposal? := by
  rw [resume.eq_def]
  split <;> rfl

/-- One point that proposes a state makes way for one that proposes it too. -/
theorem Proposed.become {code next : Code T} {state : T.State}
    (h : Proposed ({.code code} + R) state) (hnext : next.proposal? = code.proposal?) :
    Proposed ({.code next} + R) state := by
  refine h.exchange ?_
  rintro ⟨c, hc, hprop⟩
  obtain rfl : c = code := Point.code.inj (Multiset.mem_singleton.mp hc)
  exact ⟨next, Multiset.mem_singleton_self _, hnext.trans hprop⟩

/-- A step of a call that proposes a state goes on to propose it, or puts it. -/
theorem PlannerStep.proposal {b : BackendId} {m m' : PlannerMem T} {code : PlannerCode T}
    {act : ClientAct (PlannerCode T) JobTask} (h : PlannerStep H b m code m' act)
    (hf : code.Fits H m) (hlock : m.stateLock = .held) {state : T.State}
    (hprop : (Code.planner code).proposal? = some state) :
    m'.state = state ∨
      ∃ next, act = .goto next ∧ (Code.planner next).proposal? = some state := by
  cases h with
  | poisoned hpoisoned => simp [hlock] at hpoisoned
  | edited hcode | editPanicked hcode =>
      rcases hcode with ⟨_, rfl⟩ | ⟨_, rfl⟩ <;> simp [Code.proposal?] at hprop
  | storeId | unlock => exact .inr ⟨_, rfl, hprop⟩
  | @commit call version put hput =>
      obtain ⟨hmakes, -, hkept, -⟩ := hf
      obtain rfl := Option.some.inj hprop
      refine .inl ?_
      change put = call.next
      rw [hput]
      -- a `recompile` has compiled the state that there is
      cases hchanges : call.changes with
      | some changes => rfl
      | none =>
          have hbegun := hmakes.begun
          rw [Transaction.Begun, hchanges] at hbegun
          exact hkept.trans hbegun.symm
  | _ => simp [Code.proposal?] at hprop

/-- The call that proposes a state holds the planner state. -/
theorem Code.locks_of_proposal {code : Code T} {state : T.State}
    (h : code.proposal? = some state) :
    (({.code code} : Soup (Code T) Task RejectCode).map
      (StackPoint.ofPlanner PlannerCode.locks)).sum = 1 := by
  cases code with
  | planner code =>
      cases code <;> simp [Code.proposal?] at h <;> simp [StackPoint.ofPlanner, PlannerCode.locks]
  | _ => simp [Code.proposal?] at h

/-- A call that proposes a state holds the planner state, and the state is an edit of it. -/
theorem Proposed.edited {state : T.State} (hv : VersionsOk H m P) (h : Proposed P state) :
    m.planner.stateLock = .held ∧ H.Edited m.planner.state state := by
  obtain ⟨code, hcode, hprop⟩ := h
  have hsees : code.Sees H m.planner := hv.planner.sees (.code code) hcode
  obtain ⟨R, rfl⟩ := Multiset.exists_cons_of_mem hcode
  have hplanner := hv.planner
  rw [← Multiset.singleton_add] at hplanner
  refine ⟨(hplanner.holder (Code.locks_of_proposal hprop)).1, ?_⟩
  rw [Code.proposal?.eq_def] at hprop
  split at hprop
  case h_4 => simp at hprop
  all_goals
    obtain rfl := Option.some.inj hprop
    obtain ⟨hmakes, -, hkept, -⟩ := hsees
    exact hkept ▸ hmakes.begun.edits

/-- There is one proposed state at a time. -/
theorem Proposed.unique {state state' : T.State} (hv : VersionsOk H m P)
    (h : Proposed P state) (h' : Proposed P state') : state = state' := by
  obtain ⟨code, hcode, hprop⟩ := h
  obtain ⟨code', hcode', hprop'⟩ := h'
  obtain ⟨R, rfl⟩ := Multiset.exists_cons_of_mem hcode
  have hplanner := hv.planner
  rw [← Multiset.singleton_add] at hplanner
  rcases Multiset.mem_cons.mp hcode' with hsame | hR
  · obtain rfl := Point.code.inj hsame
    exact Option.some.inj (hprop.symm.trans hprop')
  · have hzero := (hplanner.holder (Code.locks_of_proposal hprop)).2 _ hR
    have hone := Code.locks_of_proposal hprop'
    simp only [Multiset.map_singleton, Multiset.sum_singleton] at hone
    omega

/-- A version is swapped in by a call that goes on to propose its state. -/
theorem StackStep.builds {self : ThreadId} {code : Code T} {act : ClientAct (Code T) Task}
    (h : StackStep H self m code m' act) (hsees : code.Sees H m.planner) :
    m'.planner.current = m.planner.current ∨ ∃ state, Proposed act.points state ∧
      H.Edited m.planner.state state ∧ H.Builds state m'.planner.current := by
  cases h with
  | planner hp =>
      rcases hp.builds hsees with hsame | ⟨call, version, rfl, hedit, hbuilds⟩
      · exact .inl hsame
      · exact .inr ⟨call.next, ⟨_, Multiset.mem_singleton_self _, rfl⟩, hedit, hbuilds⟩
  | _ => exact .inl rfl

/-- **Where a version in use comes from**: a step of the stack has found it, or has swapped it in
and proposes its state. -/
theorem StackStep.inUse {self : ThreadId} {code : Code T} {act : ClientAct (Code T) Task}
    (h : StackStep H self m code m' act) (hsees : code.Sees H m.planner) {version : Version T}
    (hversion : InUse m' (act.points + R) version) :
    InUse m ({.code code} + R) version ∨ ∃ state, Proposed (act.points + R) state ∧
      H.Edited m.planner.state state ∧ H.Builds state version := by
  cases hversion with
  | current =>
      rcases h.builds hsees with hsame | ⟨state, ⟨next, hnext, hprop⟩, hedit, hbuilds⟩
      · exact .inl (hsame ▸ .current)
      · exact .inr ⟨state, ⟨next, Multiset.mem_add.mpr (.inl hnext), hprop⟩, hedit, hbuilds⟩
  | job hj =>
      refine .inl ?_
      rcases h.job hj with ⟨job, hold, hbased⟩ | ⟨queries, since, seen, version, rfl, rfl⟩
      · exact hbased.version ▸ .job hold
      · exact .cloned (Multiset.mem_add.mpr (.inl (Multiset.mem_singleton_self _)))
  | cloned hp =>
      refine .inl ?_
      rcases Multiset.mem_add.mp hp with hp | hp
      · exact h.clones hp ▸ .current
      · exact .cloned (Multiset.mem_add.mpr (.inr hp))

/-- A step of the stack goes on to propose a state, or puts it. -/
theorem StackStep.proposal {self : ThreadId} {code : Code T} {act : ClientAct (Code T) Task}
    (hv : VersionsOk H m ({.code code} + R)) (h : StackStep H self m code m' act)
    {state : T.State} (hprop : code.proposal? = some state) :
    m'.planner.state = state ∨ Proposed act.points state := by
  have hsees : code.Sees H m.planner := hv.planner.sees (.code code) (by simp)
  have hlock := (hv.planner.holder (Code.locks_of_proposal hprop)).1
  cases h with
  | planner hp =>
      rcases hp.proposal hsees hlock hprop with hput | ⟨next, rfl, hnext⟩
      · exact .inl hput
      · exact .inr ⟨_, Multiset.mem_singleton_self _, hnext⟩
  | leave hleave => cases code <;> first | exact hleave.elim | simp [Code.proposal?] at hprop
  | _ => simp [Code.proposal?] at hprop

end Exchange

section Soup

variable {v v' : SoupView (Mem T) (Code T) Task RejectCode}

/-- **Where a version in use comes from**, for every step of the soup. -/
theorem inUse_step (hv : VersionsOk H v.1 v.2) (hstep : SoupStep (stackContract H) v v')
    {version : Version T} (h : InUse v'.1 v'.2 version) :
    InUse v.1 v.2 version ∨ ∃ state, Proposed v'.2 state ∧
      H.Edited v.1.planner.state state ∧ H.Builds state version := by
  have hsame : ∀ {m : Mem T} (j : JobId) (job' : Job T), m.job j = some job' →
      ∃ job, m.job j = some job ∧ job.Based job' :=
    fun j job' hj => ⟨job', hj, rfl, rfl, rfl, rfl⟩
  cases hstep with
  | idle => exact .inl h
  | @step m m' code act i n R hs =>
      have hsees : code.Sees H m.planner :=
        hv.planner.sees (.code code) (Multiset.mem_cons_self _ _)
      rw [← Multiset.singleton_add]
      exact (stackStep_cases hs).inUse hsees h
  | @rejectOn m m' code next R hs =>
      rw [← Multiset.singleton_add] at h ⊢
      have hcases := rejectStep_cases hs
      exact .inl (h.exchange (by cases hcases; rfl) (fun j job' hj => hcases.job hj) (by simp))
  | @rejectDone m m' code R hs =>
      rw [← zero_add R] at h
      rw [← Multiset.singleton_add]
      have hcases := rejectStep_cases hs
      exact .inl (h.exchange (by cases hcases <;> rfl) (fun j job' hj => hcases.job hj) (by simp))
  | run | runScheduled | reject =>
      rw [← Multiset.singleton_add] at h ⊢
      exact .inl (h.exchange rfl hsame (by simp [stackClient]))
  | @hookRun m hook R =>
      have hsees := hv.planner.sees (.hook hook) (Multiset.mem_cons_self _ _)
      rw [← Multiset.singleton_add] at h ⊢
      refine .inl (h.exchange rfl hsame fun queries since seen version hp => ?_)
      obtain rfl : _ = hook := by simpa using hp
      exact hsees
  | @hookDrop m hook R =>
      rw [← zero_add R] at h
      rw [← Multiset.singleton_add]
      exact .inl (h.exchange rfl hsame (by simp))
  | @refused m t code R hs =>
      rw [← Multiset.singleton_add] at h
      rw [← Multiset.singleton_add, ← Multiset.singleton_add, ← add_assoc]
      refine .inl (h.exchange rfl hsame fun queries since seen version hp => ?_)
      obtain rfl := clones_of_resume (Point.code.inj (Multiset.mem_singleton.mp hp))
      exact hs
  | @returned m code r R hr =>
      rw [← Multiset.singleton_add] at h ⊢
      refine .inl (h.exchange rfl hsame fun queries since seen version hp => ?_)
      obtain rfl := clones_of_resume (Point.code.inj (Multiset.mem_singleton.mp hp))
      exact hr
  | @spawn m code R he =>
      rw [← Multiset.singleton_add] at h
      rw [← zero_add R]
      refine .inl (h.exchange rfl hsame fun queries since seen version hp => ?_)
      obtain rfl : _ = code := by simpa using hp
      simp [stackClient, isEntry] at he

/-- **A proposed state** stays proposed until it is the planner state. -/
theorem proposed_step (hv : VersionsOk H v.1 v.2) (hstep : SoupStep (stackContract H) v v')
    {state : T.State} (h : Proposed v.2 state) :
    v'.1.planner.state = state ∨ Proposed v'.2 state := by
  cases hstep with
  | idle => exact .inr h
  | @step m m' code act i n R hs =>
      have hversions := hv.singleton_add
      obtain ⟨c, hc, hprop⟩ := h
      rcases Multiset.mem_cons.mp hc with hsame | hR
      · obtain rfl := Point.code.inj hsame
        refine ((stackStep_cases hs).proposal hversions hprop).imp_right ?_
        rintro ⟨next, hnext, hprop⟩
        exact ⟨next, Multiset.mem_add.mpr (.inl hnext), hprop⟩
      · exact .inr ⟨c, Multiset.mem_add.mpr (.inr hR), hprop⟩
  | hookRun | hookDrop | run | runScheduled | reject | rejectOn | rejectDone | spawn =>
      obtain ⟨c, hc, hprop⟩ := h
      exact .inr ⟨c, by simp_all, hprop⟩
  | @refused m t code R hs =>
      refine .inr ?_
      rw [← Multiset.singleton_add]
      refine Proposed.become ?_ (proposal_resume code _)
      rw [← zero_add ({.code code} + R)]
      rw [← Multiset.singleton_add, ← Multiset.singleton_add] at h
      refine h.exchange ?_
      rintro ⟨c, hc, -⟩
      simp at hc
  | returned =>
      refine .inr ?_
      rw [← Multiset.singleton_add] at h ⊢
      exact h.become (proposal_resume _ _)

end Soup

/-! ### Over whole runs -/

/-- The planner state is an edit of an edit … of the first one, and all versions in use stem from
it. -/
structure Chained (H : Hooks T) (first : T.State) (m : Mem T)
    (P : Soup (Code T) Task RejectCode) : Prop where
  state : Relation.ReflTransGen H.Edits first m.planner.state
  versions : ∀ version, InUse m P version → H.Stems first version

section Runs

variable {first : T.State} {m : Mem T} {P : Soup (Code T) Task RejectCode}

/-- The versions in use of a stack that has just been created. -/
theorem inUse_create {b : BackendId} {compiled : CompiledPlan T.PlannerMeta}
    {prepared : T.Prepared} {version : Version T}
    (h : InUse (Mem.create b first compiled prepared) 0 version) :
    version = ⟨1, compiled, prepared⟩ := by
  cases h with
  | current => rfl
  | job hj => simp [Mem.create] at hj
  | cloned hp => simp at hp

/-- The chain of a stack that has just been created. -/
theorem chained_create {b : BackendId} {compiled : CompiledPlan T.PlannerMeta}
    {prepared : T.Prepared} (h : H.Builds first ⟨1, compiled, prepared⟩) :
    Chained H first (Mem.create b first compiled prepared) 0 :=
  ⟨.refl, fun _ hversion => inUse_create hversion ▸ ⟨first, .refl, h⟩⟩

/-- The versions of jobs. -/
theorem Chained.jobs (h : Chained H first m P) (j : JobId) (job : Job T)
    (hj : m.job j = some job) : H.Stems first job.version :=
  h.versions _ (.job hj)

/-- Edits of the planner state go on with the chain. -/
theorem Chained.edit (h : Chained H first m P) {state : T.State}
    (hedit : H.Edited m.planner.state state) : Relation.ReflTransGen H.Edits first state := by
  rcases hedit with rfl | hedit
  · exact h.state
  · exact h.state.tail hedit

/-- **Every step of the soup** goes on with the chain. -/
theorem chained_step {v v' : SoupView (Mem T) (Code T) Task RejectCode}
    (hv : VersionsOk H v.1 v.2) (h : Chained H first v.1 v.2)
    (hstep : SoupStep (stackContract H) v v') : Chained H first v'.1 v'.2 := by
  refine ⟨h.edit (edits_step hv hstep), fun version hversion => ?_⟩
  rcases inUse_step hv hstep hversion with hold | ⟨state, -, hedit, hbuilds⟩
  · exact h.versions version hold
  · exact ⟨state, h.edit hedit, hbuilds⟩

/-- The states of a created stack are a chain, and all versions stem from it. -/
theorem ReachedFrom.chained {first : T.State}
    {s : MachineState (Mem T) (Code T) Task RejectCode} (h : ReachedFrom H first s) :
    Chained H first s.shared.client s.soup := by
  refine h.invariant (I := fun v => Chained H first v.1 v.2) ?_ ?_
  · exact fun b compiled prepared => chained_create
  · exact fun v v' hv _ hc hstep => chained_step hv hc hstep

end Runs

/-! ### The one history of a run -/

/-- The version was built from a state of the history, or from the one that a call is about to
put. -/
def Hooks.Recalls (H : Hooks T) (states : List T.State) (P : Soup (Code T) Task RejectCode)
    (version : Version T) : Prop :=
  ∃ state, (state ∈ states ∨ Proposed P state) ∧ H.Builds state version

/-- The planner states that a run of a created stack has gone through are one chain of edits, and
all versions in use were built from states of this chain. -/
structure PlannerHistory (H : Hooks T) (first : T.State) (states : List T.State)
    (s : MachineState (Mem T) (Code T) Task RejectCode) : Prop where
  first : states.head? = some first
  last : states.getLast? = some (plannerState s)
  chain : states.IsChain H.Edited
  /-- Whoever takes the next step edits the state that there is. -/
  edits : ∀ a s', machineStep (stackClient H) s a = some s' →
    H.Edited (plannerState s) (plannerState s')
  current : H.Recalls states s.soup s.shared.client.planner.current
  jobs : ∀ j job, s.shared.client.job j = some job → H.Recalls states s.soup job.version
  /-- An `update` between the swap of its version and its last write, which holds the planner
  state, is about to put an edit of it. -/
  proposed : ∀ state, Proposed s.soup state →
    s.shared.client.planner.stateLock = .held ∧ H.Edited (plannerState s) state ∧
      ∀ state', Proposed s.soup state' → state' = state

section History

variable {first : T.State} {states : List T.State}
  {s : MachineState (Mem T) (Code T) Task RejectCode}

/-- A run with its history is a run. -/
theorem TracedFrom.reached (h : TracedFrom H first states s) : ReachedFrom H first s := by
  obtain ⟨choice, b, m, hm, ht⟩ := h
  exact ⟨choice, b, m, hm, ht.reach⟩

/-- Every run of a created stack has a history. -/
theorem ReachedFrom.traced (h : ReachedFrom H first s) :
    ∃ states, TracedFrom H first states s := by
  obtain ⟨choice, b, m, hm, hr⟩ := h
  obtain ⟨states, ht⟩ := hr.traced plannerState
  exact ⟨states, choice, b, m, hm, ht⟩

/-- **All versions in use were built from states of the history**, or from the state that a call
is about to put. -/
theorem TracedFrom.recalls (h : TracedFrom H first states s) (version : Version T)
    (hversion : InUse s.shared.client s.soup version) : H.Recalls states s.soup version := by
  obtain ⟨choice, b, m, hm, ht⟩ := h
  refine ht.invariant (I := fun states s => ∀ version, InUse s.shared.client s.soup version →
    H.Recalls states s.soup version) ?_ ?_ version hversion
  · rintro s ⟨workers, rfl⟩ version hversion
    obtain ⟨compiled, prepared, rfl, hbuilds⟩ := createStack_eq_ok hm
    rw [soup_start] at hversion
    obtain rfl := inUse_create hversion
    exact ⟨first, .inl (List.mem_singleton_self _), hbuilds⟩
  · intro states s a s' ht ih _ hs version hversion
    have hreached : Reached H s := ReachedFrom.reached ⟨choice, b, m, hm, ht.reach⟩
    have hstep := hreached.soup_step hs
    obtain ⟨hversions, -⟩ := inOrder hreached
    rcases inUse_step hversions hstep hversion with hold | ⟨state, hprop, -, hbuilds⟩
    · obtain ⟨state, hstate, hbuilds⟩ := ih version hold
      refine ⟨state, ?_, hbuilds⟩
      rcases hstate with hmem | hprop
      · exact .inl (List.mem_append_left _ hmem)
      · rcases proposed_step hversions hstep hprop with hput | hprop
        · exact .inl (List.mem_append_right _ (by simp [plannerState, ← hput]))
        · exact .inr hprop
    · exact ⟨state, .inr hprop, hbuilds⟩

/-- **No update is lost, and every version was built from a state of the one history**, in every
run of a created stack. -/
theorem planner_history (h : TracedFrom H first states s) : PlannerHistory H first states s := by
  have hreached := h.reached.reached
  obtain ⟨hversions, -⟩ := inOrder hreached
  have hrecalls := h.recalls
  obtain ⟨choice, b, m, hm, ht⟩ := h
  refine ⟨?_, ht.getLast, ht.isChain fun s a s' hr _ hs => ?_, fun a s' hs => ?_,
    hrecalls _ .current, fun j job hj => hrecalls _ (.job hj), fun state hprop => ?_⟩
  · obtain ⟨s, ⟨workers, rfl⟩, hhead⟩ := ht.head
    obtain ⟨compiled, prepared, rfl, -⟩ := createStack_eq_ok hm
    exact hhead
  · have hr : Reached H s := ReachedFrom.reached ⟨choice, b, m, hm, hr⟩
    exact edits_step (inOrder hr).1 (hr.soup_step hs)
  · exact edits_step hversions (hreached.soup_step hs)
  · obtain ⟨hlock, hedit⟩ := hprop.edited hversions
    exact ⟨hlock, hedit, fun state' hprop' => hprop'.unique hversions hprop⟩

end History

/-- The stack to try it on is created. -/
theorem counterAfter_reachedFrom {actions : List (Action (Code counter))}
    (h : (Lts.runs (machineStep (stackClient counterHooks)) (fun _ _ => True)
      (.start (.create 0 5 (counterPlan 5) 5) 1) actions).isSome) :
    ReachedFrom counterHooks 5 (counterAfter actions) := by
  obtain ⟨s, hs⟩ := Option.isSome_iff_exists.mp h
  rw [counterAfter, hs]
  exact ⟨fun _ => 0, 0, _, rfl, .of_runs actions ⟨1, rfl⟩ hs⟩

/-- The state after two updates, one of which fails: every history of the run begins with 5 and
ends with 8. -/
theorem planner_history_counter :
    ∃ states, TracedFrom counterHooks 5 states (counterAfter counterUpdates) ∧
      plannerState (counterAfter counterUpdates) = 8 ∧
      PlannerHistory counterHooks 5 states (counterAfter counterUpdates) := by
  have hreached : ReachedFrom counterHooks 5 (counterAfter counterUpdates) :=
    counterAfter_reachedFrom rfl
  obtain ⟨states, h⟩ := hreached.traced
  exact ⟨states, h, rfl, planner_history h⟩

end Braids.Runtime
