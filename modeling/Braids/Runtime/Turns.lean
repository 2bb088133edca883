import Braids.Runtime.Isolation
import Braids.Stack.Collect

/-!
# Callers of `collect` That Take Turns

`collect` looks up a record, takes its payload and removes the id in three critical sections,
so a second call can come between them. When the calls for one job do not overlap, whoever
takes the payload removes the id before anybody else looks it up: no take is late. Calls for
other jobs do not matter.

## Main results

* `listed`: in every reachable state the jobs table holds an id at most once.
* `in_time_of_turns`: calls for one job that do not overlap make no late take of it.
-/

namespace Braids.Runtime

variable {T : Types} {H : Hooks T} {m m' : Mem T} {P P' R : Soup (Code T) Task RejectCode}
  {j : JobId}

/-! ### Where a program point comes from -/

/-- Client code that a part of the stack asks for is of that part. -/
theorem code_of_mem_liftAct {κ τ : Type} {code : κ → Code T} {task : τ → Task}
    {act : ClientAct κ τ} {c : Code T}
    (h : (.code c : StackPoint T) ∈ (liftAct code task act).points) : ∃ k, c = code k := by
  cases act with
  | ret => simp [liftAct] at h
  | _ =>
      simp [liftAct] at h
      exact ⟨_, h⟩

/-- A step comes to `dispatchInsert` with a new id, and to a point of `collect` from another one,
whose job exists. -/
theorem StackStep.leads {self : ThreadId} {code c : Code T} {act : ClientAct (Code T) Task}
    (h : StackStep H self m code m' act) (hfresh : m.job m.nextJobId = none)
    (hc : (.code c : StackPoint T) ∈ act.points) :
    (∀ i, c = .dispatchInsert i → m.job i = none) ∧
      ∀ i q, c = .collect i q → m.job i ≠ none ∧ ∃ q', code = .collect i q' := by
  cases h with
  | planner | task =>
      obtain ⟨k, rfl⟩ := code_of_mem_liftAct hc
      simp
  | dispatchId =>
      simp only [ClientAct.points, Multiset.mem_singleton, Point.code.injEq] at hc
      subst hc
      simpa using hfresh
  | collectOn hj | collectTake hj | collectPark hj | collectWoken hj | collectRemove hj =>
      simp only [ClientAct.points, Multiset.mem_singleton, Point.code.injEq] at hc
      subst hc
      simp [hj]
  | insertPoisoned | dispatchOk | dispatchErr | clone | cancel | retire | leave => simp at hc
  | _ =>
      simp at hc
      subst hc
      simp

/-- Nobody waits for a permit but `prepare` hooks. -/
theorem VersionsOk.prepares (h : VersionsOk H m P) {hook : Code T} (hp : .hook hook ∈ P) :
    ∃ code, hook = .planner code := by
  have hsees := h.planner.sees _ hp
  cases hook with
  | planner code => exact ⟨code, rfl⟩
  | _ => exact hsees.elim

/-- A call comes back to a point of its own kind. -/
theorem resume_leads {code : Code T} {r : CallResult} (h : Returns m code r) :
    (∀ i, resume code r ≠ .dispatchInsert i) ∧ ∀ i q, resume code r ≠ .collect i q := by
  cases code with
  | task j code => cases code <;> cases r <;> simp_all [resume, Returns]
  | dispatchWait => cases r <;> simp_all [resume, Returns]
  | planner code => cases code <;> simp_all [resume, Returns]
  | _ => simp_all [resume, Returns]

/-- A refused call comes back to a point of its own kind. -/
theorem refused_leads {code : Code T} {t : Task} {e : BraidError} (h : Submits code t) :
    (∀ i, resume code (.err e) ≠ .dispatchInsert i) ∧
      ∀ i q, resume code (.err e) ≠ .collect i q := by
  cases code with
  | task j code => cases code <;> simp_all [resume, Submits]
  | dispatchWait => simp [resume]
  | _ => simp [Submits] at h

/-- **A program point** was there before the step, begins a call, or is no `dispatchInsert` of a
job that existed and no `collect` of one that did not. -/
theorem code_step {v v' : SoupView (Mem T) (Code T) Task RejectCode} (hv : VersionsOk H v.1 v.2)
    (hjobs : JobsOk v.1 v.2) (hstep : SoupStep (stackContract H) v v') {c : Code T}
    (hc : .code c ∈ v'.2) :
    .code c ∈ v.2 ∨ isEntry c = true ∨
      (∀ i, c = .dispatchInsert i → v.1.job i = none) ∧
        ∀ i q, c = .collect i q → v.1.job i ≠ none := by
  have hother : (∀ i, c ≠ .dispatchInsert i) ∧ (∀ i q, c ≠ .collect i q) →
      (∀ i, c = .dispatchInsert i → v.1.job i = none) ∧
        ∀ i q, c = .collect i q → v.1.job i ≠ none := fun hne =>
    ⟨fun i hi => (hne.1 i hi).elim, fun i q hi => (hne.2 i q hi).elim⟩
  cases hstep with
  | idle => exact .inl hc
  | step hs =>
      rcases Multiset.mem_add.mp hc with hc | hc
      · have hleads := (stackStep_cases hs).leads (hjobs.fresh _ le_rfl) hc
        exact .inr (.inr ⟨hleads.1, fun i q hi => (hleads.2 i q hi).1⟩)
      · exact .inl (Multiset.mem_cons_of_mem hc)
  | rejectOn | rejectDone => exact .inl (by simpa using hc)
  | hookRun =>
      rcases Multiset.mem_cons.mp hc with hnew | hc
      · obtain ⟨code, hhook⟩ := hv.prepares (Multiset.mem_cons_self _ _)
        rw [(Point.code.inj hnew).trans hhook]
        exact .inr (.inr (by simp))
      · exact .inl (Multiset.mem_cons_of_mem hc)
  | hookDrop => exact .inl (Multiset.mem_cons_of_mem hc)
  | run | runScheduled =>
      rcases Multiset.mem_cons.mp hc with hnew | hc
      · rw [Point.code.inj hnew]
        exact .inr (.inr (by simp [stackClient]))
      · exact .inl (Multiset.mem_cons_of_mem hc)
  | reject => exact .inl (by simpa using hc)
  | refused hs =>
      rcases Multiset.mem_cons.mp hc with hnew | hc
      · rw [Point.code.inj hnew] at hother ⊢
        exact .inr (.inr (hother (refused_leads hs)))
      · exact .inl (Multiset.mem_cons_of_mem (Multiset.mem_cons_of_mem hc))
  | returned hr =>
      rcases Multiset.mem_cons.mp hc with hnew | hc
      · rw [Point.code.inj hnew] at hother ⊢
        exact .inr (.inr (hother (resume_leads hr)))
      · exact .inl (Multiset.mem_cons_of_mem hc)
  | spawn he =>
      rcases Multiset.mem_cons.mp hc with hnew | hc
      · rw [Point.code.inj hnew]
        exact .inr (.inl he)
      · exact .inl hc

/-! ### The jobs table -/

/-- The jobs table holds each id at most once, after its record was made and inserted, and who
has found a record in it finds the job. -/
structure Listed (m : Mem T) (P : Soup (Code T) Task RejectCode) : Prop where
  made : ∀ i ∈ m.table, m.job i ≠ none
  once : m.table.Nodup
  inserted : ∀ i, .code (.dispatchInsert i) ∈ P → i ∉ m.table
  found : ∀ i q, .code (.collect i q) ∈ P → q ≠ .lookup → m.job i ≠ none

/-- The table without one id. -/
theorem tableWithout_sublist (m : Mem T) (j : JobId) : (m.tableWithout j).Sublist m.table := by
  unfold Mem.tableWithout
  split
  · exact .refl _
  · exact List.erase_sublist

/-- What a step does to the jobs table. -/
theorem StackStep.table {self : ThreadId} {code : Code T} {act : ClientAct (Code T) Task}
    (h : StackStep H self m code m' act) :
    m'.table.Sublist m.table ∨ ∃ i, code = .dispatchInsert i ∧ m'.table = m.table ++ [i] := by
  cases h with
  | dispatchInsert => exact .inr ⟨_, rfl, rfl⟩
  | dispatchErr | collectRemove => exact .inl (tableWithout_sublist m _)
  | _ => exact .inl (.refl _)

/-- A reject side leaves the jobs table alone. -/
theorem StackReject.table {code : RejectCode} {next : Option RejectCode}
    (h : StackReject m code m' next) : m'.table = m.table := by
  cases h <;> rfl

/-- A job is inserted once. -/
theorem JobsOk.inserts_once (h : JobsOk m (.code (.dispatchInsert j) ::ₘ R)) :
    m.job j ≠ none ∧ .code (.dispatchInsert j) ∉ R := by
  have hmade : m.job j ≠ none := h.owned _ (Multiset.mem_cons_self _ _) j rfl
  refine ⟨hmade, fun hR => ?_⟩
  obtain ⟨job, hj⟩ := Option.ne_none_iff_exists'.mp hmade
  have hle := le_share (w := StackPoint.carries) (j := j) hR rfl
  obtain ⟨-, hzero⟩ := ((singleton_add_points h).job j job hj).carrier
    (by simp [StackPoint.owner, Code.owner, StackPoint.carries, Code.carries])
  rw [hzero] at hle
  simp [StackPoint.carries, Code.carries] at hle

/-- **The jobs table stays in order.** -/
theorem listed_step {v v' : SoupView (Mem T) (Code T) Task RejectCode}
    (hv : VersionsOk H v.1 v.2) (hjobs : JobsOk v.1 v.2) (h : Listed v.1 v.2)
    (hstep : SoupStep (stackContract H) v v') : Listed v'.1 v'.2 := by
  have hjob : ∀ i, v.1.job i ≠ none → v'.1.job i ≠ none := by
    intro i hi
    obtain ⟨old, hold⟩ := Option.ne_none_iff_exists'.mp hi
    obtain ⟨new, hnew, -⟩ := evolves_step hjobs hstep hold
    simp [hnew]
  have hinserts : ∀ i, .code (.dispatchInsert i) ∈ v'.2 →
      .code (.dispatchInsert i) ∈ v.2 ∨ v.1.job i = none := by
    intro i hp
    rcases code_step hv hjobs hstep hp with hold | hentry | hnew
    · exact .inl hold
    · cases hentry
    · exact .inr (hnew.1 i rfl)
  have hfound : ∀ i q, .code (.collect i q) ∈ v'.2 → q ≠ .lookup → v'.1.job i ≠ none := by
    intro i q hp hq
    rcases code_step hv hjobs hstep hp with hold | hentry | hnew
    · exact hjob i (h.found i q hold hq)
    · cases q with
      | lookup => exact (hq rfl).elim
      | _ => cases hentry
    · exact hjob i (hnew.2 i q rfl)
  -- without an insertion the table only shrinks
  have hshrinks : v'.1.table.Sublist v.1.table → Listed v'.1 v'.2 := fun hsub =>
    ⟨fun i hi => hjob i (h.made i (hsub.subset hi)), h.once.sublist hsub,
      fun i hp hi => (hinserts i hp).elim (fun hold => h.inserted i hold (hsub.subset hi))
        fun hnone => h.made i (hsub.subset hi) hnone, hfound⟩
  cases hstep with
  | @step m m' code act self n R hs =>
      have hcases := stackStep_cases hs
      rcases hcases.table with hsub | ⟨i, rfl, htable⟩
      · exact hshrinks hsub
      · obtain ⟨hmade, hrest⟩ := hjobs.inserts_once
        have hi := h.inserted i (Multiset.mem_cons_self _ _)
        refine ⟨fun k hk => ?_, ?_, fun k hp hk => ?_, hfound⟩
        · rw [htable] at hk
          rcases List.mem_append.mp hk with hk | hk
          · exact hjob k (h.made k hk)
          · exact List.mem_singleton.mp hk ▸ hjob i hmade
        · rw [htable]
          exact List.nodup_append.mpr ⟨h.once, List.nodup_singleton i,
            by simpa using fun k hk (hki : k = i) => hi (hki ▸ hk)⟩
        · rw [htable] at hk
          rcases hinserts k hp with hold | hnone
          · rcases List.mem_append.mp hk with hk | hk
            · exact h.inserted k hold hk
            · obtain rfl := List.mem_singleton.mp hk
              rcases Multiset.mem_add.mp hp with hp | hp
              · exact hmade ((hcases.leads (hjobs.fresh _ le_rfl) hp).1 k rfl)
              · exact hrest hp
          · rcases List.mem_append.mp hk with hk | hk
            · exact h.made k hk hnone
            · exact hmade (List.mem_singleton.mp hk ▸ hnone)
  | rejectOn hs | rejectDone hs => exact hshrinks ((rejectStep_cases hs).table ▸ .refl _)
  | _ => exact hshrinks (.refl _)

/-- **The jobs table holds an id at most once** in every reachable state. -/
theorem listed {s : MachineState (Mem T) (Code T) Task RejectCode} (h : Reached H s) :
    Listed s.shared.client s.soup :=
  h.invariant (I := fun v => Listed v.1 v.2)
    (fun _ _ _ _ => ⟨by simp [Mem.create], by simp [Mem.create], by simp [Mem.create], by simp⟩)
    fun _ _ hv hjobs hlisted hstep => listed_step hv hjobs hlisted hstep

/-! ### The calls for one job -/

/-- Where the program point is in a call of `collect` on the job. -/
def StackPoint.collects (j : JobId) : StackPoint T → Option (CollectPoint T.Resolution)
  | .code (.collect k q) => if k = j then some q else none
  | _ => none

/-- The calls of `collect` on the job. -/
def callers (j : JobId) (P : Soup (Code T) Task RejectCode) :
    Multiset (CollectPoint T.Resolution) :=
  P.filterMap (StackPoint.collects j)

/-- The calls that have not returned. -/
def inside (j : JobId) (P : Soup (Code T) Task RejectCode) : ℕ :=
  (callers j P).countP fun q => q.inside = true

/-- The payload of the job has been taken. -/
def Taken (m : Mem T) (j : JobId) : Prop :=
  ∃ job, m.job j = some job ∧ job.record.state = .completed none

/-- Any other code makes no call on the job. -/
theorem collects_eq_none {code : Code T} (h : ∀ q, code ≠ .collect j q) :
    StackPoint.collects j (.code code) = none := by
  cases code with
  | collect k q =>
      refine if_neg ?_
      rintro rfl
      exact h q rfl
  | _ => rfl

/-- A call on the job comes first. -/
theorem callers_cons (q : CollectPoint T.Resolution) :
    callers j (.code (.collect j q) ::ₘ R) = q ::ₘ callers j R :=
  Multiset.filterMap_cons_some _ _ _ (if_pos rfl)

/-- Points that make no call on the job. -/
theorem callers_eq_zero (h : ∀ i q, .code (.collect i q) ∈ P → i ≠ j) : callers j P = 0 := by
  refine Multiset.eq_zero_of_forall_notMem fun q hq => ?_
  obtain ⟨p, hp, hcollects⟩ := (Multiset.mem_filterMap _ _).mp hq
  unfold StackPoint.collects at hcollects
  split at hcollects
  · next k q' =>
      obtain ⟨hkj, -⟩ := Option.ite_none_right_eq_some.mp hcollects
      exact h k q' hp hkj
  · simp at hcollects

/-- A thread calls `collect` on the job while a call of another thread has not returned. -/
def CollectsOverlap (j : JobId) (s : MachineState (Mem T) (Code T) Task RejectCode)
    (a : Action (Code T)) : Prop :=
  a = .spawn (.collect j .lookup) ∧ ∃ q ∈ callers j s.soup, q.inside = true

/-- A state that a run reaches in which the calls of `collect` on the job do not overlap. -/
abbrev ReachedInTurn (H : Hooks T) (j : JobId)
    (s : MachineState (Mem T) (Code T) Task RejectCode) : Prop :=
  ∃ m, m.Created ∧
    Lts.ReachBy (Started m) (machineStep (stackClient H)) (fun s a => ¬ CollectsOverlap j s a) s

/-- The callers take turns: the payload is there for whoever may take it, and whoever has taken
it removes the id before anybody else looks it up. -/
structure InTurn (j : JobId) (m : Mem T) (P : Soup (Code T) Task RejectCode) : Prop where
  alone : inside j P ≤ 1
  before : ∀ q ∈ callers j P, q.mayTake (j ∈ m.table) = true → ¬ Taken m j
  after : Taken m j → j ∈ m.table → ∃ result, .remove result ∈ callers j P

/-- What does not touch the calls on the job and does not take its payload. -/
theorem InTurn.others (h : InTurn j m P) (hcallers : callers j P' = callers j P)
    (hkeeps : (Taken m' j → Taken m j) ∧ (j ∈ m'.table → j ∈ m.table) ∨ ¬ Taken m' j) :
    InTurn j m' P' := by
  refine ⟨by rw [inside, hcallers]; exact h.alone, fun q hq hmay htaken => ?_,
    fun htaken hmem => ?_⟩
  · rw [hcallers] at hq
    rcases hkeeps with ⟨htake, htable⟩ | hnot
    · refine h.before q hq ?_ (htake htaken)
      cases q with
      | lookup => exact decide_eq_true (htable (of_decide_eq_true hmay))
      | _ => exact hmay
    · exact hnot htaken
  · rcases hkeeps with ⟨htake, htable⟩ | hnot
    · rw [hcallers]
      exact h.after (htake htaken) (htable hmem)
    · exact (hnot htaken).elim

/-- The only caller inside goes on. -/
theorem InTurn.move {q next : CollectPoint T.Resolution}
    (h : InTurn j m (.code (.collect j q) ::ₘ R)) (hq : q.inside = true)
    (hbefore : next.mayTake (j ∈ m'.table) = true → ¬ Taken m' j)
    (hafter : Taken m' j → j ∈ m'.table → ∃ result, next = .remove result) :
    InTurn j m' (.code (.collect j next) ::ₘ R) := by
  have hrest : (callers j R).countP (fun p => p.inside = true) = 0 := by
    have halone := h.alone
    rw [inside, callers_cons, Multiset.countP_cons, if_pos hq] at halone
    omega
  have hout : ∀ p ∈ callers j R, p.inside ≠ true := Multiset.countP_eq_zero.mp hrest
  refine ⟨?_, fun p hp hmay => ?_, fun htaken hmem => ?_⟩
  · rw [inside, callers_cons, Multiset.countP_cons, hrest]
    split <;> omega
  · rw [callers_cons] at hp
    rcases Multiset.mem_cons.mp hp with rfl | hp
    · exact hbefore hmay
    · exact (hout p hp (CollectPoint.inside_of_mayTake hmay)).elim
  · obtain ⟨result, rfl⟩ := hafter htaken hmem
    exact ⟨result, by rw [callers_cons]; exact Multiset.mem_cons_self _ _⟩

/-- The payload of a job after a write to it. -/
theorem taken_setJob {job' : Job T} (h : Taken (m.setJob j job') j) :
    job'.record.state = .completed none := by
  obtain ⟨job, hj, hstate⟩ := h
  rw [Mem.setJob_job, if_pos rfl] at hj
  rwa [Option.some.inj hj]

/-- A write that does not take the payload of its job takes no payload. -/
theorem Taken.of_setJob {i : JobId} {job job' : Job T} (h : Taken (m.setJob i job') j)
    (hi : m.job i = some job)
    (hstate : job'.record.state = .completed none → job.record.state = .completed none) :
    Taken m j := by
  obtain ⟨other, hj, htaken⟩ := h
  rw [Mem.setJob_job] at hj
  split at hj
  · next hji =>
      obtain rfl := Option.some.inj hj
      exact ⟨job, hji ▸ hi, hstate htaken⟩
  · exact ⟨other, hj, htaken⟩

/-- A task takes no payload. -/
theorem JobStep.taken {b : BackendId} {pools pools' : Pools} {job job' : Job T}
    {code : JobCode T} {act : ClientAct (JobCode T) JobTask}
    (h : JobStep H b pools job code pools' job' act)
    (hstate : job'.record.state = .completed none) : job.record.state = .completed none := by
  cases h with
  | recycle h | giveBackOk _ h | giveBackPoisoned _ h | giveBackErr h | cleanup h =>
      rw [giveBackPacket] at h
      split at h <;> simp only [Prod.mk.injEq] at h <;> obtain ⟨-, rfl⟩ := h <;> exact hstate
  | mark | completed => cases hstate
  | finish =>
      unfold Job.finishWith at hstate
      split at hstate
      · exact hstate
      · split at hstate <;> cases hstate
  | _ => exact hstate

/-- A reject side takes no payload. -/
theorem RejectStep.taken {pools pools' : Pools} {job job' : Job T} {point : RejectPoint}
    {next : Option RejectPoint} (h : RejectStep pools job point pools' job' next)
    (hstate : job'.record.state = .completed none) : job.record.state = .completed none := by
  cases h with
  | giveBack h =>
      rw [giveBackPacket] at h
      split at h <;> simp only [Prod.mk.injEq] at h <;> obtain ⟨-, rfl⟩ := h <;> exact hstate
  | fail => cases hstate
  | _ => exact hstate

/-- Only a call of `collect` on the job takes its payload. -/
theorem StackStep.taken {self : ThreadId} {code : Code T} {act : ClientAct (Code T) Task}
    (h : StackStep H self m code m' act) (hcode : ∀ q, code ≠ .collect j q)
    (htaken : Taken m' j) : Taken m j := by
  cases h with
  | dispatchId =>
      obtain ⟨job, hj, hstate⟩ := htaken
      change (m.setJob _ _).job j = some job at hj
      rw [Mem.setJob_job] at hj
      split at hj
      · obtain rfl := Option.some.inj hj
        cases hstate
      · exact ⟨job, hj, hstate⟩
  | @task i code job job' pools act hi hs =>
      have htaken : Taken (m.setJob i job') j := htaken
      exact htaken.of_setJob hi hs.taken
  | @dispatchErr i error job hi =>
      have htaken : Taken (m.setJob i { job with dispatched := .refused }) j := htaken
      exact htaken.of_setJob hi id
  | insertPoisoned hi | dispatchOk hi | cancel hi => exact htaken.of_setJob hi id
  | @collectTake i job record taken result hi | @collectPark i job record taken hi
  | @collectWoken i job record hi =>
      obtain ⟨other, hj, hstate⟩ := htaken
      rw [Mem.setJob_job] at hj
      split at hj
      · next hji =>
          subst hji
          exact (hcode _ rfl).elim
      · exact ⟨other, hj, hstate⟩
  | _ => exact htaken

/-- A reject side takes no payload of any job. -/
theorem StackReject.taken {code : RejectCode} {next : Option RejectCode}
    (h : StackReject m code m' next) (htaken : Taken m' j) : Taken m j := by
  cases h with
  | @on i point next job job' pools hi hs | @done i point job job' pools hi hs =>
      have htaken : Taken (m.setJob i job') j := htaken
      exact htaken.of_setJob hi hs.taken
  | gone => exact htaken

/-- The caller that is inside goes on. -/
theorem InTurn.collect {self : ThreadId} {q : CollectPoint T.Resolution}
    {act : ClientAct (Code T) Task} (h : InTurn j m (.code (.collect j q) ::ₘ R))
    (honce : m.table.Nodup) (hclean : m.tablePoisoned = false)
    (hstep : StackStep H self m (.collect j q) m' act) : InTurn j m' (act.points + R) := by
  have hq : q ∈ callers j (.code (.collect j q) ::ₘ R) := by
    rw [callers_cons]
    exact Multiset.mem_cons_self _ _
  cases hstep with
  | collectOn _ hon =>
      rw [ClientAct.points, Multiset.singleton_add]
      rcases hon with ⟨rfl, hmem, rfl⟩ | ⟨hpoint, error, rfl⟩
      · have hnot := h.before .lookup hq (decide_eq_true hmem)
        exact h.move rfl (fun _ => hnot) fun htaken => (hnot htaken).elim
      · have hnot : j ∈ m.table → ¬ Taken m j := by
          intro hmem
          rcases hpoint with rfl | rfl | rfl
          · exact h.before _ hq (decide_eq_true hmem)
          · exact h.before _ hq rfl
          · exact h.before _ hq rfl
        have hin : q.inside = true := by rcases hpoint with rfl | rfl | rfl <;> rfl
        refine h.move hin (fun hmay => by cases hmay) fun htaken hmem => ?_
        exact (hnot hmem htaken).elim
  | collectTake =>
      rw [ClientAct.points, Multiset.singleton_add]
      exact h.move rfl (fun hmay => by cases hmay) fun _ _ => ⟨_, rfl⟩
  | @collectPark _ job record taken hj hrec ht =>
      rw [ClientAct.points, Multiset.singleton_add]
      have hnot : ¬ Taken (m.setJob j { job with record := taken.park self }) j := by
        intro htaken
        have hstate : taken.state = .completed none := taken_setJob htaken
        rw [JobRecord.take] at ht
        split at ht <;> simp only [Prod.mk.injEq, reduceCtorEq, and_false, and_true] at ht <;>
          obtain rfl := ht <;> simp_all
      exact h.move rfl (fun _ => hnot) fun htaken => (hnot htaken).elim
  | @collectWoken _ job record hj hrec =>
      rw [ClientAct.points, Multiset.singleton_add]
      have hstate : record.state = job.record.state := by obtain rfl | rfl := hrec <;> rfl
      have hnot : ¬ Taken (m.setJob j { job with record }) j := fun htaken =>
        h.before _ hq rfl (htaken.of_setJob hj fun hnone => hstate ▸ hnone)
      exact h.move rfl (fun _ => hnot) fun htaken => (hnot htaken).elim
  | collectRemove =>
      rw [ClientAct.points, Multiset.singleton_add]
      refine h.move rfl (fun hmay => by cases hmay) fun _ hmem => ?_
      change j ∈ m.tableWithout j at hmem
      rw [Mem.tableWithout, hclean, if_neg Bool.false_ne_true] at hmem
      exact (honce.not_mem_erase hmem).elim
  | leave hleave =>
      rw [ClientAct.points, zero_add]
      have hle : callers j R ≤ callers j (.code (.collect j q) ::ₘ R) := by
        rw [callers_cons]
        exact Multiset.le_cons_self _ _
      refine ⟨(Multiset.countP_le_of_le _ hle).trans h.alone,
        fun p hp => h.before p (Multiset.mem_of_le hle hp), fun htaken hmem => ?_⟩
      rcases hleave with ⟨result, rfl⟩ | hnone
      · obtain ⟨taken, hp⟩ := h.after htaken hmem
        rw [callers_cons] at hp
        exact ⟨taken, (Multiset.mem_cons.mp hp).resolve_left (by simp)⟩
      · obtain ⟨job, hj, -⟩ := htaken
        exact (Option.some_ne_none _ (hj.symm.trans hnone)).elim

/-- **Callers that do not overlap take turns.** -/
theorem inTurn_step {new : Code T → Prop} {v v' : SoupView (Mem T) (Code T) Task RejectCode}
    (hv : VersionsOk H v.1 v.2) (hjobs : JobsOk v.1 v.2) (hlisted : Listed v.1 v.2)
    (h : InTurn j v.1 v.2) (hnew : ∀ q, new (.collect j q) → q = .lookup ∧ inside j v.2 = 0)
    (hstep : SoupStepBy (stackContract H) new v v') : InTurn j v'.1 v'.2 := by
  have hskip : ∀ {p : StackPoint T} {R}, StackPoint.collects j p = none →
      callers j (p ::ₘ R) = callers j R := fun hp => Multiset.filterMap_cons_none _ _ hp
  cases hstep with
  | idle => exact h
  | @step m m' code act self n R hs =>
      have hcases := stackStep_cases hs
      by_cases hcode : ∃ q, code = .collect j q
      · obtain ⟨q, rfl⟩ := hcode
        exact h.collect hlisted.once hjobs.table hcases
      · have hother : ∀ q, code ≠ .collect j q := fun q hq => hcode ⟨q, hq⟩
        refine h.others ?_ ?_
        · have hpoints : callers j act.points = 0 := callers_eq_zero fun i q hp hij => by
            subst hij
            obtain ⟨-, q', hq'⟩ := (hcases.leads (hjobs.fresh _ le_rfl) hp).2 i q rfl
            exact hother q' hq'
          rw [hskip (collects_eq_none hother), callers, Multiset.filterMap_add]
          exact (congrArg (· + callers j R) hpoints).trans (zero_add _)
        · rcases hcases.table with hsub | ⟨i, rfl, htable⟩
          · exact .inl ⟨hcases.taken hother, fun hmem => hsub.subset hmem⟩
          · by_cases hij : i = j
            · -- the record of a job is queued until its id is in the table
              subst hij
              refine .inr fun htaken => ?_
              obtain ⟨job, hj, hstate⟩ := hcases.taken hother htaken
              have hwaits : job.Waits := (hjobs.job i job hj).fits
                (.code (.dispatchInsert i)) (Multiset.mem_cons_self _ _) rfl
              exact absurd (hwaits.state_eq.symm.trans hstate) (by simp)
            · refine .inl ⟨hcases.taken hother, fun hmem => ?_⟩
              rw [htable] at hmem
              exact (List.mem_append.mp hmem).resolve_right (by simpa using Ne.symm hij)
  | @rejectOn m m' code next R hs =>
      exact h.others (by rw [hskip rfl, hskip rfl]) (.inl ⟨(rejectStep_cases hs).taken,
        fun hmem => (rejectStep_cases hs).table ▸ hmem⟩)
  | @rejectDone m m' code R hs =>
      exact h.others (hskip rfl).symm (.inl ⟨(rejectStep_cases hs).taken,
        fun hmem => (rejectStep_cases hs).table ▸ hmem⟩)
  | @hookRun m hook R =>
      obtain ⟨code, rfl⟩ := hv.prepares (Multiset.mem_cons_self _ _)
      exact h.others (by rw [hskip rfl, hskip rfl]) (.inl ⟨id, id⟩)
  | hookDrop => exact h.others (hskip rfl).symm (.inl ⟨id, id⟩)
  | run | runScheduled | reject =>
      exact h.others (by rw [hskip rfl, hskip rfl]) (.inl ⟨id, id⟩)
  | @refused m t code R hs =>
      have hcode : ∀ q, code ≠ .collect j q := by
        rintro q rfl
        exact hs
      refine h.others ?_ (.inl ⟨id, id⟩)
      rw [hskip (p := .task t) rfl, hskip (collects_eq_none hcode)]
      exact hskip (collects_eq_none ((refused_leads hs).2 j))
  | @returned m code r R hr =>
      have hcode : ∀ q, code ≠ .collect j q := by
        rintro q rfl
        exact hr
      refine h.others ?_ (.inl ⟨id, id⟩)
      rw [hskip (collects_eq_none hcode)]
      exact hskip (collects_eq_none ((resume_leads hr).2 j))
  | @spawn m code R he =>
      by_cases hcode : ∃ q, code = .collect j q
      · obtain ⟨q, rfl⟩ := hcode
        obtain ⟨rfl, hinside⟩ := hnew q he
        have hout : ∀ p ∈ callers j R, p.inside ≠ true := Multiset.countP_eq_zero.mp hinside
        have hnot : Taken m j → j ∉ m.table := by
          intro htaken hmem
          obtain ⟨result, hp⟩ := h.after htaken hmem
          exact hout _ hp rfl
        refine ⟨?_, fun p hp hmay htaken => ?_, fun htaken hmem => (hnot htaken hmem).elim⟩
        · have hzero : (callers j R).countP (fun p => p.inside = true) = 0 := hinside
          rw [inside, callers_cons, Multiset.countP_cons, hzero]
          split <;> omega
        · rw [callers_cons] at hp
          rcases Multiset.mem_cons.mp hp with rfl | hp
          · exact hnot htaken (of_decide_eq_true hmay)
          · exact hout p hp (CollectPoint.inside_of_mayTake hmay)
      · exact h.others (hskip (collects_eq_none fun q hq => hcode ⟨q, hq⟩)) (.inl ⟨id, id⟩)

section InTime

variable {s : MachineState (Mem T) (Code T) Task RejectCode}

/-- **Calls that do not overlap take turns** in every state that they reach. -/
theorem inTurn (h : ReachedInTurn H j s) : InTurn j s.shared.client s.soup := by
  obtain ⟨m, hm, hr⟩ := h
  refine hr.invariant (I := fun s => InTurn j s.shared.client s.soup) ?_ ?_
  · rintro s ⟨n, rfl⟩
    obtain ⟨b, state, compiled, prepared, rfl⟩ := hm
    rw [soup_start]
    refine ⟨by simp [inside, callers], by simp [callers], ?_⟩
    rintro ⟨job, hj, -⟩
    simp [MachineState.start, Mem.create] at hj
  · intro s a s' hr hturn halone hstep
    have hreached : Reached H s := ⟨m, hm, hr.reach⟩
    obtain ⟨hversions, hjobs⟩ := inOrder hreached
    refine inTurn_step (v := (s.shared.client, s.soup)) hversions hjobs (listed hreached) hturn ?_
      (soup_step_by (K := stackContract H) hr.reach hstep)
    rintro q ⟨rfl, hentry⟩
    cases q with
    | lookup =>
        refine ⟨rfl, Multiset.countP_eq_zero.mpr fun q hq hin => halone ⟨rfl, q, hq, hin⟩⟩
    | _ => simp [stackClient, isEntry] at hentry

/-- **Calls of `collect` on a job that do not overlap make no late take of it.** -/
theorem in_time_of_turns (h : ReachedInTurn H j s) : ReachedInTime H j s := by
  obtain ⟨m, hm, hr⟩ := h
  refine ⟨m, hm, hr.meets fun s a s' hr _ hstep => ?_⟩
  have hturn : InTurn j s.shared.client s.soup := inTurn ⟨m, hm, hr⟩
  cases a with
  | step i n =>
      simp only [lateTake]
      split
      · next k rest hi =>
          split
          · next job hk =>
              split
              · next hstate =>
                  refine beq_eq_false_iff_ne.mpr ?_
                  rintro rfl
                  have hpoint : .code (.collect k .take) ∈ s.soup :=
                    Multiset.mem_add.mpr (.inl (mem_census.mpr ⟨_, List.mem_of_getElem? hi,
                      .client (.collect k .take), List.mem_cons_self, by simp⟩))
                  have hcaller : .take ∈ callers k s.soup :=
                    (Multiset.mem_filterMap _ _).mpr ⟨_, hpoint, if_pos rfl⟩
                  exact hturn.before .take hcaller rfl ⟨job, hk, hstate⟩
              · rfl
          · rfl
      · rfl
  | _ => rfl

end InTime

end Braids.Runtime
