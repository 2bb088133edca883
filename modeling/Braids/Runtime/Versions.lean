import Mathlib.Algebra.Order.BigOperators.Group.Multiset
import Mathlib.Algebra.Order.Group.Nat
import Braids.Runtime.Jobs

/-!
# Updates as Transactions

`update` and `recompile` hold the planner state from the moment they begin until they return,
so nobody changes the state, the current version or its id in between, and the call itself
changes them only when nothing can fail any more. The invariant (`PlannerOk`) says for every
program point of a call what it has achieved so far (`PlannerCode.Fits`), and that the three
locks are held by as many points as they may be.

## Main results

* `plannerOk_step`: every step of the soup keeps the planner state in order.
* `current_mono`: the id of the current version never decreases.
-/

namespace Braids.Runtime

variable {T : Types}

/-! ### What a call has achieved -/

/-- The state to compile is what the call is about: the updated state, or the state itself. -/
def Transaction.Begun (H : Hooks T) (call : Transaction T) : Prop :=
  match call.changes with
  | some changes => ∃ n, H.updatedState n call.before.state changes = .ok call.next
  | none => call.next = call.before.state

/-- The plan is a valid compilation of the state. -/
def Transaction.Compiles (H : Hooks T) (call : Transaction T)
    (compiled : CompiledPlan T.PlannerMeta) : Prop :=
  ∃ n, H.compile n call.next = .ok compiled ∧ compiled.validate = .ok ()

/-- The backend has prepared the plan. -/
def Hooks.Yields (H : Hooks T) (compiled : CompiledPlan T.PlannerMeta) (prepared : T.Prepared) :
    Prop :=
  ∃ n reuse, H.prepare n compiled reuse = .ok prepared

/-- The version is what the call has made of the state that it held. -/
structure Transaction.Makes (H : Hooks T) (call : Transaction T) (version : Version T) :
    Prop where
  begun : call.Begun H
  compiles : call.Compiles H version.compiled
  yields : H.Yields version.compiled version.prepared

/-- The id is newer than every published one, and no other call will draw it. -/
def PlannerMem.New (m : PlannerMem T) (id : ℕ) : Prop :=
  (∀ old ∈ m.published, old < id) ∧ id < m.nextVersionId

/-- What is true while a call is at the program point. -/
def PlannerCode.Fits (H : Hooks T) (m : PlannerMem T) : PlannerCode T → Prop
  | .updateHook _ before => before = m.snapshot
  | .scratch call | .compileHook call => call.before = m.snapshot ∧ call.Begun H
  | .computeScratch call compiled | .reuse call compiled | .prepare call compiled _ =>
      call.before = m.snapshot ∧ call.Begun H ∧ call.Compiles H compiled
  | .prepareHook number compiled _ => m.asked[number]? = some compiled
  | .preparing number call compiled | .prepared number call compiled _ =>
      m.asked[number]? = some compiled ∧
        call.before = m.snapshot ∧ call.Begun H ∧ call.Compiles H compiled
  | .giveScratch call compiled output | .drawId call compiled output =>
      call.before = m.snapshot ∧ call.Begun H ∧ call.Compiles H compiled ∧
        H.Yields compiled output
  | .writeLock call version | .swap call version =>
      call.before = m.snapshot ∧ call.Makes H version ∧ m.New version.id
  | .storeId call version => call.Makes H version ∧ m.current = version ∧
      m.state = call.before.state ∧ m.currentVersionId ≤ version.id
  | .unlock call version | .commit call version => call.Makes H version ∧
      m.current = version ∧ m.state = call.before.state ∧ m.currentVersionId = version.id
  | .fail call _ => call.before = m.snapshot
  | .apply _ | .applyHook _ | .replace _ | .replaceHook _ | .recompile | .update _ => True

/-- The same for all program points of the stack. -/
def Code.Sees (H : Hooks T) (m : PlannerMem T) : Code T → Prop
  | .planner code => code.Fits H m
  | .dispatchRead _ since => ∀ id ∈ since, id ≤ m.current.id
  | .dispatchClone _ since seen => seen = m.current ∧ ∀ id ∈ since, id ≤ seen.id
  | .dispatchId _ since seen version => version = seen ∧ ∀ id ∈ since, id ≤ seen.id
  | _ => True

/-- The same for the points of the soup. Only `prepare` hooks wait for a permit. -/
def StackPoint.Sees (H : Hooks T) (m : PlannerMem T) : StackPoint T → Prop
  | .code code => code.Sees H m
  | .hook (.planner (.prepareHook number compiled _)) => m.asked[number]? = some compiled
  | .hook _ => False
  | _ => True

/-- One if the point holds the planner state. -/
def PlannerCode.locks : PlannerCode T → ℕ
  | .apply _ | .replace _ | .recompile | .update _ | .prepareHook _ _ _ => 0
  | _ => 1

/-- One if the point holds the current version for writing. -/
def PlannerCode.writes : PlannerCode T → ℕ
  | .swap _ _ | .storeId _ _ | .unlock _ _ => 1
  | _ => 0

/-- One if the version is swapped in and its id is not stored yet. -/
def PlannerCode.stores : PlannerCode T → ℕ
  | .storeId _ _ => 1
  | _ => 0

/-- What a point of a call on the planner state counts. -/
def StackPoint.ofPlanner (w : PlannerCode T → ℕ) : StackPoint T → ℕ
  | .code (.planner code) => w code
  | _ => 0

/-- One if the point holds the current version for reading. -/
def StackPoint.reads : StackPoint T → ℕ
  | .code (.dispatchClone _ _ _) | .code .clone => 1
  | _ => 0

/-- What a call that returned has done. -/
def Returned.Ok (H : Hooks T) (r : Returned T) : Prop :=
  match r.result with
  | .ok id => r.call.Makes H r.after.current ∧ r.after.current.id = id ∧
      r.after.currentVersionId = id ∧ r.after.state = r.call.next
  | .error _ => r.after = r.call.before

/-! ### The planner state in order -/

/-- The planner state, the versions and the calls that work on them are in order. -/
structure PlannerOk (H : Hooks T) (m : PlannerMem T) (P : Soup (Code T) Task RejectCode) :
    Prop where
  locked : (P.map (StackPoint.ofPlanner PlannerCode.locks)).sum =
    if m.stateLock = .held then 1 else 0
  writing : (P.map (StackPoint.ofPlanner PlannerCode.writes)).sum =
    if m.versionLock = .held then 1 else 0
  reading : (P.map StackPoint.reads).sum = m.readers
  exclusive : m.versionLock = .held → m.readers = 0
  unpoisoned : m.versionLock ≠ .poisoned
  sees : ∀ p ∈ P, StackPoint.Sees H m p
  agrees : (P.map (StackPoint.ofPlanner PlannerCode.stores)).sum = 0 →
    m.currentVersionId = m.current.id
  results : ∀ n prepared, m.results n = some prepared →
    ∃ compiled, m.asked[n]? = some compiled ∧ H.Yields compiled prepared
  increasing : m.published.Pairwise (· < ·)
  latest : m.published.getLast? = some m.current.id
  issued : ∀ id ∈ m.published, id < m.nextVersionId
  returned : ∀ r ∈ m.returned, r.Ok H
  ids : ∀ id ∈ m.returnedIds, id ∈ m.published

section Ok

variable {H : Hooks T} {m m' : PlannerMem T} {p q : StackPoint T}
  {P Q R : Soup (Code T) Task RejectCode}

/-- A point that writes the current version holds the planner state. -/
theorem PlannerCode.stores_le (code : PlannerCode T) :
    code.stores ≤ code.writes ∧ code.writes ≤ code.locks ∧ code.locks ≤ 1 := by
  cases code <;> simp [PlannerCode.stores, PlannerCode.writes, PlannerCode.locks]

/-- Points count no more where codes do. -/
theorem StackPoint.ofPlanner_mono {w w' : PlannerCode T → ℕ} (h : ∀ code, w code ≤ w' code)
    (q : StackPoint T) : StackPoint.ofPlanner w q ≤ StackPoint.ofPlanner w' q := by
  unfold StackPoint.ofPlanner
  split
  · exact h _
  · exact le_rfl

/-- Published ids are no newer than the current version. -/
theorem PlannerOk.le_current (h : PlannerOk H m P) {id : ℕ} (hid : id ∈ m.published) :
    id ≤ m.current.id := by
  obtain ⟨older, hlast⟩ := List.getLast?_eq_some_iff.mp h.latest
  have hinc := h.increasing
  rw [hlast] at hid hinc
  rcases List.mem_append.mp hid with hid | hid
  · exact le_of_lt ((List.pairwise_append.mp hinc).2.2 id hid _ (List.mem_singleton_self _))
  · exact le_of_eq (List.mem_singleton.mp hid)

/-- Ids that updates returned are no newer than the current version. -/
theorem PlannerOk.returned_le (h : PlannerOk H m P) {id : ℕ} (hid : id ∈ m.returnedIds) :
    id ≤ m.current.id :=
  h.le_current (h.ids id hid)

/-- Nobody reads while the current version is swapped. -/
theorem PlannerOk.agrees_of_reader (h : PlannerOk H m P) (hr : 0 < m.readers) :
    m.currentVersionId = m.current.id := by
  refine h.agrees ?_
  have hfree : m.versionLock ≠ .held := fun hv => by
    have := h.exclusive hv
    omega
  have hwrites := h.writing
  rw [if_neg hfree, Multiset.sum_eq_zero_iff] at hwrites
  refine Multiset.sum_eq_zero fun n hn => ?_
  obtain ⟨p, hp, rfl⟩ := Multiset.mem_map.mp hn
  have hzero := hwrites _ (Multiset.mem_map_of_mem _ hp)
  have hle := StackPoint.ofPlanner_mono (fun code : PlannerCode T => code.stores_le.1) p
  omega

/-- What a point that does not hold the planner state relies on stays true. -/
theorem StackPoint.Sees.mono (h : StackPoint.Sees H m q)
    (hlocks : StackPoint.ofPlanner PlannerCode.locks q = 0)
    (hasked : ∀ (n : ℕ) compiled, m.asked[n]? = some compiled → m'.asked[n]? = some compiled)
    (hcurrent : m.current.id ≤ m'.current.id)
    (hreads : StackPoint.reads q = 0 ∨ m'.current = m.current) : StackPoint.Sees H m' q := by
  cases q with
  | code code =>
      cases code with
      | planner code =>
          cases code with
          | prepareHook => exact hasked _ _ h
          | apply | replace | recompile | update => exact trivial
          | _ => simp [StackPoint.ofPlanner, PlannerCode.locks] at hlocks
      | dispatchRead => exact fun id hid => (h id hid).trans hcurrent
      | dispatchClone =>
          rcases hreads with hzero | hsame
          · simp [StackPoint.reads] at hzero
          · exact ⟨h.1.trans hsame.symm, h.2⟩
      | dispatchId => exact h
      | _ => exact trivial
  | hook code =>
      cases code with
      | planner code =>
          cases code with
          | prepareHook => exact hasked _ _ h
          | _ => exact h.elim
      | _ => exact h.elim
  | _ => exact trivial

/-- What a point relies on stays true while nobody changes it. -/
theorem StackPoint.Sees.congr (h : StackPoint.Sees H m q) (hsnap : m'.snapshot = m.snapshot)
    (hpublished : m'.published = m.published) (hnext : m'.nextVersionId = m.nextVersionId)
    (hasked : m'.asked = m.asked) : StackPoint.Sees H m' q := by
  have hcore := hsnap
  simp only [PlannerMem.snapshot, Snapshot.mk.injEq] at hcore
  obtain ⟨hstate, hcurrent, hid⟩ := hcore
  cases q with
  | code code =>
      cases code with
      | planner code =>
          cases code <;> simp_all [StackPoint.Sees, Code.Sees, PlannerCode.Fits, PlannerMem.New]
      | dispatchRead | dispatchClone => simpa [StackPoint.Sees, Code.Sees, hcurrent] using h
      | dispatchId => exact h
      | _ => exact trivial
  | hook code =>
      cases code with
      | planner code =>
          cases code with
          | prepareHook => simpa [StackPoint.Sees, hasked] using h
          | _ => exact h.elim
      | _ => exact h.elim
  | _ => exact trivial

/-- **The rule for one step.** A step that accounts for the locks that it takes and drops, and
that the other points do not notice, keeps the planner state in order. -/
theorem PlannerOk.account (h : PlannerOk H m (P + R))
    (hlocks : (Q.map (StackPoint.ofPlanner PlannerCode.locks)).sum +
        (if m.stateLock = .held then 1 else 0) =
      (P.map (StackPoint.ofPlanner PlannerCode.locks)).sum +
        if m'.stateLock = .held then 1 else 0)
    (hwrites : (Q.map (StackPoint.ofPlanner PlannerCode.writes)).sum +
        (if m.versionLock = .held then 1 else 0) =
      (P.map (StackPoint.ofPlanner PlannerCode.writes)).sum +
        if m'.versionLock = .held then 1 else 0)
    (hreads : (Q.map StackPoint.reads).sum + m.readers =
      (P.map StackPoint.reads).sum + m'.readers)
    (hexclusive : m'.versionLock = .held → m'.readers = 0) (hunp : m'.versionLock ≠ .poisoned)
    (hQ : ∀ q ∈ Q, StackPoint.Sees H m' q)
    (hR : ∀ q ∈ R, StackPoint.Sees H m q → StackPoint.Sees H m' q)
    (hagrees : (Q.map (StackPoint.ofPlanner PlannerCode.stores)).sum +
      (R.map (StackPoint.ofPlanner PlannerCode.stores)).sum = 0 →
        m'.currentVersionId = m'.current.id)
    (hresults : ∀ n output, m'.results n = some output →
      ∃ compiled, m'.asked[n]? = some compiled ∧ H.Yields compiled output)
    (hincreasing : m'.published.Pairwise (· < ·))
    (hlatest : m'.published.getLast? = some m'.current.id)
    (hissued : ∀ id ∈ m'.published, id < m'.nextVersionId)
    (hreturned : ∀ r ∈ m'.returned, r.Ok H) (hids : ∀ id ∈ m'.returnedIds, id ∈ m'.published) :
    PlannerOk H m' (Q + R) := by
  have hl := h.locked
  have hw := h.writing
  have hr := h.reading
  simp only [Multiset.map_add, Multiset.sum_add] at hl hw hr
  refine ⟨?_, ?_, ?_, hexclusive, hunp, ?_, ?_, hresults, hincreasing, hlatest, hissued,
    hreturned, hids⟩
  · simp only [Multiset.map_add, Multiset.sum_add]
    omega
  · simp only [Multiset.map_add, Multiset.sum_add]
    omega
  · simp only [Multiset.map_add, Multiset.sum_add]
    omega
  · intro q hq
    rcases Multiset.mem_add.mp hq with hq | hq
    · exact hQ q hq
    · exact hR q hq (h.sees q (Multiset.mem_add.mpr (.inr hq)))
  · simpa only [Multiset.map_add, Multiset.sum_add] using hagrees

/-- A point that holds the planner state is the only one. -/
theorem PlannerOk.holder (h : PlannerOk H m (P + R))
    (hP : (P.map (StackPoint.ofPlanner PlannerCode.locks)).sum = 1) :
    m.stateLock = .held ∧ ∀ q ∈ R, StackPoint.ofPlanner PlannerCode.locks q = 0 := by
  have hl := h.locked
  rw [Multiset.map_add, Multiset.sum_add, hP] at hl
  by_cases hheld : m.stateLock = .held
  · rw [if_pos hheld] at hl
    refine ⟨hheld, fun q hq => ?_⟩
    have hzero : (R.map (StackPoint.ofPlanner PlannerCode.locks)).sum = 0 := by omega
    exact Multiset.sum_eq_zero_iff.mp hzero _ (Multiset.mem_map_of_mem _ hq)
  · rw [if_neg hheld] at hl
    omega

/-- **The rule for most steps.** A step that keeps the current version keeps the planner state
in order if it accounts for the planner state and for the readers. What other points rely on
it changes only while it holds the planner state. -/
theorem PlannerOk.advance (h : PlannerOk H m (P + R)) (hcurrent : m'.current = m.current)
    (hid : m'.currentVersionId = m.currentVersionId) (hpublished : m'.published = m.published)
    (hlock : m'.versionLock = m.versionLock) (hreturned : m'.returned = m.returned)
    (hlocks : (Q.map (StackPoint.ofPlanner PlannerCode.locks)).sum +
        (if m.stateLock = .held then 1 else 0) =
      (P.map (StackPoint.ofPlanner PlannerCode.locks)).sum +
        if m'.stateLock = .held then 1 else 0)
    (hwrites : (Q.map (StackPoint.ofPlanner PlannerCode.writes)).sum =
      (P.map (StackPoint.ofPlanner PlannerCode.writes)).sum)
    (hstores : (Q.map (StackPoint.ofPlanner PlannerCode.stores)).sum =
      (P.map (StackPoint.ofPlanner PlannerCode.stores)).sum)
    (hreads : (Q.map StackPoint.reads).sum + m.readers =
      (P.map StackPoint.reads).sum + m'.readers)
    (hexclusive : m.versionLock = .held → m'.readers = 0)
    (hnext : m.nextVersionId ≤ m'.nextVersionId)
    (hasked : ∀ (n : ℕ) compiled, m.asked[n]? = some compiled → m'.asked[n]? = some compiled)
    (hresults : ∀ n output, m'.results n = some output → m.results n = some output ∨
      ∃ compiled, m'.asked[n]? = some compiled ∧ H.Yields compiled output)
    (hquiet : m'.state = m.state ∧ m'.nextVersionId = m.nextVersionId ∧ m'.asked = m.asked ∨
      (P.map (StackPoint.ofPlanner PlannerCode.locks)).sum = 1)
    (hQ : ∀ q ∈ Q, StackPoint.Sees H m' q) : PlannerOk H m' (Q + R) := by
  refine h.account hlocks (by rw [hwrites, hlock]) hreads (fun hv => hexclusive (hlock ▸ hv))
    (hlock ▸ h.unpoisoned) hQ ?_ ?_ ?_ ?_ ?_ ?_ ?_ ?_
  · intro q hq hsees
    rcases hquiet with ⟨hstate, hdrawn, hsame⟩ | hheld
    · exact hsees.congr (by simp [PlannerMem.snapshot, *]) hpublished hdrawn hsame
    · exact hsees.mono ((h.holder hheld).2 q hq) hasked (by rw [hcurrent]) (.inr hcurrent)
  · intro hzero
    rw [hid, hcurrent]
    refine h.agrees ?_
    rw [Multiset.map_add, Multiset.sum_add]
    omega
  · intro n output hout
    rcases hresults n output hout with hold | hnew
    · obtain ⟨compiled, hc, hy⟩ := h.results n output hold
      exact ⟨compiled, hasked n compiled hc, hy⟩
    · exact hnew
  · rw [hpublished]
    exact h.increasing
  · rw [hpublished, hcurrent]
    exact h.latest
  · rw [hpublished]
    exact fun id hm => (h.issued id hm).trans_le hnext
  · rw [hreturned]
    exact h.returned
  · rw [PlannerMem.returnedIds, hreturned, hpublished]
    exact h.ids

/-- The points that a call on the planner state is at after a step. -/
def plannerPoints (act : ClientAct (PlannerCode T) JobTask) : Soup (Code T) Task RejectCode :=
  (liftAct Code.planner (fun kind => (⟨0, kind⟩ : Task)) act).points

/-- A call that holds the planner state moves on and changes nothing that others see. -/
theorem PlannerOk.goOn {code next : PlannerCode T} (h : PlannerOk H m ({.code (.planner code)} + R))
    (hstate : m'.state = m.state) (hlocked : m'.stateLock = m.stateLock)
    (hcurrent : m'.current = m.current) (hid : m'.currentVersionId = m.currentVersionId)
    (hpublished : m'.published = m.published) (hlock : m'.versionLock = m.versionLock)
    (hreaders : m'.readers = m.readers) (hreturned : m'.returned = m.returned)
    (hresults : m'.results = m.results) (hasked : m'.asked = m.asked)
    (hnext : m'.nextVersionId = m.nextVersionId) (hcode : code.locks = 1) (hnlocks : next.locks = 1)
    (hwrites : next.writes = code.writes) (hstores : next.stores = code.stores)
    (hfits : next.Fits H m) :
    PlannerOk H m' ({.code (.planner next)} + R) := by
  have hsees : StackPoint.Sees H m (.code (.planner next)) := hfits
  refine h.advance hcurrent hid hpublished hlock hreturned ?_ ?_ ?_ ?_ ?_ (by rw [hnext]) ?_ ?_
    (.inl ⟨hstate, hnext, hasked⟩) ?_
  · simp [StackPoint.ofPlanner, hcode, hnlocks, hlocked]
  · simp [StackPoint.ofPlanner, hwrites]
  · simp [StackPoint.ofPlanner, hstores]
  · simp [StackPoint.reads, hreaders]
  · rw [hreaders]
    exact h.exclusive
  · rw [hasked]
    exact fun _ _ => id
  · rw [hresults]
    exact fun _ _ => .inl
  · intro q hq
    obtain rfl := Multiset.mem_singleton.mp hq
    exact hsees.congr (by simp [PlannerMem.snapshot, *]) hpublished hnext hasked

/-- A call drops the planner state without having touched the current version. -/
theorem PlannerOk.dropState {code : PlannerCode T}
    (h : PlannerOk H m ({.code (.planner code)} + R)) (hcode : code.locks = 1)
    (hwrites : code.writes = 0) (hlocked : m'.stateLock ≠ .held)
    (hcurrent : m'.current = m.current) (hid : m'.currentVersionId = m.currentVersionId)
    (hpublished : m'.published = m.published) (hlock : m'.versionLock = m.versionLock)
    (hreaders : m'.readers = m.readers) (hreturned : m'.returned = m.returned)
    (hresults : m'.results = m.results) (hasked : m'.asked = m.asked)
    (hnext : m'.nextVersionId = m.nextVersionId) : PlannerOk H m' (0 + R) := by
  obtain ⟨hheld, -⟩ := h.holder (by simp [StackPoint.ofPlanner, hcode])
  obtain ⟨hstores, -⟩ := code.stores_le
  refine h.advance hcurrent hid hpublished hlock hreturned ?_ ?_ ?_ ?_ ?_ (by rw [hnext]) ?_ ?_
    (.inr (by simp [StackPoint.ofPlanner, hcode])) (by simp)
  · simp [StackPoint.ofPlanner, hcode, hheld, hlocked]
  · simp [StackPoint.ofPlanner, hwrites]
  · simp only [Multiset.map_zero, Multiset.sum_zero, Multiset.map_singleton,
      Multiset.sum_singleton, StackPoint.ofPlanner]
    omega
  · simp [StackPoint.reads, hreaders]
  · rw [hreaders]
    exact h.exclusive
  · rw [hasked]
    exact fun _ _ => id
  · rw [hresults]
    exact fun _ _ => .inl

/-- A call locks the planner state. -/
theorem PlannerOk.lock {code next : PlannerCode T} (h : PlannerOk H m ({.code (.planner code)} + R))
    (hfree : m.stateLock = .free) (hcode : code.locks = 0) (hnlocks : next.locks = 1)
    (hnwrites : next.writes = 0) (hfits : next.Fits H { m with stateLock := .held }) :
    PlannerOk H { m with stateLock := .held } ({.code (.planner next)} + R) := by
  obtain ⟨hstores, hwrites, -⟩ := code.stores_le
  obtain ⟨hnstores, -⟩ := next.stores_le
  refine h.advance rfl rfl rfl rfl rfl ?_ ?_ ?_ ?_ h.exclusive le_rfl (fun _ _ => id)
    (fun _ _ => .inl) (.inl ⟨rfl, rfl, rfl⟩) ?_
  · simp [StackPoint.ofPlanner, hcode, hnlocks, hfree]
  · simp only [Multiset.map_singleton, Multiset.sum_singleton, StackPoint.ofPlanner]
    omega
  · simp only [Multiset.map_singleton, Multiset.sum_singleton, StackPoint.ofPlanner]
    omega
  · simp [StackPoint.reads]
  · intro q hq
    obtain rfl := Multiset.mem_singleton.mp hq
    exact hfits

/-- A call returns, and the log of returned calls with it. -/
theorem PlannerOk.finish {code : PlannerCode T} {state : T.State} {call : Transaction T}
    {result : BraidResult ℕ} (h : PlannerOk H m ({.code (.planner code)} + R))
    (hcode : code.locks = 1) (hwrites : code.writes = 0)
    (hok : Returned.Ok H ⟨call, { m with state }.snapshot, result⟩)
    (hid : ∀ id, result = .ok id → id = m.current.id) :
    PlannerOk H ({ m with state }.finish call result) (0 + R) := by
  have hfree : PlannerOk H { m with state, stateLock := .free } (0 + R) :=
    h.dropState hcode hwrites (by simp) rfl rfl rfl rfl rfl rfl rfl rfl rfl
  refine hfree.account rfl rfl rfl hfree.exclusive hfree.unpoisoned (by simp) ?_ ?_ hfree.results
    hfree.increasing hfree.latest hfree.issued ?_ ?_
  · exact fun q _ hsees => hsees.congr rfl rfl rfl rfl
  · intro hzero
    refine hfree.agrees ?_
    rw [Multiset.map_add, Multiset.sum_add]
    exact hzero
  · intro r hr
    rcases List.mem_append.mp hr with hr | hr
    · exact h.returned r hr
    · obtain rfl := List.mem_singleton.mp hr
      exact hok
  · intro id hmem
    simp only [PlannerMem.finish, PlannerMem.returnedIds, List.filterMap_append,
      List.mem_append] at hmem
    rcases hmem with hmem | hmem
    · exact h.ids id hmem
    · have hres : result = .ok id := by
        cases result with
        | error e => simp [Returned.id?, Except.toOption] at hmem
        | ok id' => simpa [Returned.id?, Except.toOption, eq_comm] using hmem
      rw [hid id hres]
      exact List.mem_of_getLast? h.latest

/-- What the program point of a call says. -/
theorem PlannerOk.fits {code : PlannerCode T} (h : PlannerOk H m ({.code (.planner code)} + R)) :
    code.Fits H m :=
  h.sees (.code (.planner code)) (by simp)

/-- The call that writes the current version holds its lock. -/
theorem PlannerOk.holdsVersion {code : PlannerCode T}
    (h : PlannerOk H m ({.code (.planner code)} + R)) (hcode : code.writes = 1) :
    m.versionLock = .held := by
  have hw := h.writing
  by_contra hne
  simp [if_neg hne, StackPoint.ofPlanner, hcode] at hw

/-- A call on a poisoned planner state returns an error. -/
theorem PlannerOk.poisoned {code : PlannerCode T} {r : CallResult}
    (h : PlannerOk H m ({.code (.planner code)} + R)) (hp : m.stateLock = .poisoned) :
    PlannerOk H m (plannerPoints (.ret r) + R) := by
  have hlocks : code.locks = 0 := by
    by_contra hne
    have hone : code.locks = 1 := by
      obtain ⟨-, -, hle⟩ := code.stores_le
      omega
    have hheld := (h.holder (by simp [StackPoint.ofPlanner, hone])).1
    simp [hp] at hheld
  obtain ⟨hstores, hwrites, -⟩ := code.stores_le
  refine h.advance rfl rfl rfl rfl rfl ?_ ?_ ?_ ?_ h.exclusive le_rfl (fun _ _ => id)
    (fun _ _ => .inl) (.inl ⟨rfl, rfl, rfl⟩) (by simp [plannerPoints, liftAct])
  · simp [plannerPoints, liftAct, StackPoint.ofPlanner, hlocks]
  · simp only [plannerPoints, liftAct, ClientAct.points, Multiset.map_zero,
      Multiset.sum_zero, Multiset.map_singleton, Multiset.sum_singleton, StackPoint.ofPlanner]
    omega
  · simp only [plannerPoints, liftAct, ClientAct.points, Multiset.map_zero,
      Multiset.sum_zero, Multiset.map_singleton, Multiset.sum_singleton, StackPoint.ofPlanner]
    omega
  · simp [plannerPoints, liftAct, StackPoint.reads]

/-- A call asks the backend to prepare a plan. -/
theorem PlannerOk.asks {b : BackendId} {call : Transaction T}
    {compiled : CompiledPlan T.PlannerMeta} {reuse : Option T.Prepared}
    (h : PlannerOk H m ({.code (.planner (.prepare call compiled reuse))} + R)) :
    PlannerOk H { m with asked := m.asked ++ [compiled] }
      (plannerPoints (.prepare b (.prepareHook m.asked.length compiled reuse)
        (.preparing m.asked.length call compiled)) + R) := by
  have hf := h.fits
  have hasked : ∀ (n : ℕ) plan, m.asked[n]? = some plan →
      (m.asked ++ [compiled])[n]? = some plan := by
    intro n plan hn
    rw [List.getElem?_append_left (List.getElem?_eq_some_iff.mp hn).1, hn]
  refine h.advance rfl rfl rfl rfl rfl ?_ ?_ ?_ ?_ h.exclusive le_rfl hasked
    (fun _ _ => .inl) (.inr rfl) ?_
  · simp [plannerPoints, liftAct, StackPoint.ofPlanner, PlannerCode.locks]
  · simp [plannerPoints, liftAct, StackPoint.ofPlanner, PlannerCode.writes]
  · simp [plannerPoints, liftAct, StackPoint.ofPlanner, PlannerCode.stores]
  · simp [plannerPoints, liftAct, StackPoint.reads]
  · intro q hq
    have hnew : (m.asked ++ [compiled])[m.asked.length]? = some compiled := by simp
    simp only [plannerPoints, liftAct, ClientAct.points, Multiset.insert_eq_cons,
      Multiset.mem_cons, Multiset.mem_singleton] at hq
    rcases hq with rfl | rfl
    · exact hnew
    · exact ⟨hnew, hf⟩

/-- `prepare` returns what it made of the plan. -/
theorem PlannerOk.hookReturns {number n : ℕ} {compiled : CompiledPlan T.PlannerMeta}
    {reuse : Option T.Prepared} {output : T.Prepared}
    (h : PlannerOk H m ({.code (.planner (.prepareHook number compiled reuse))} + R))
    (hp : H.prepare n compiled reuse = .ok output) :
    PlannerOk H { m with results := Function.update m.results number (some output) }
      (plannerPoints (.ret .ok) + R) := by
  have hf := h.fits
  refine h.advance rfl rfl rfl rfl rfl ?_ ?_ ?_ ?_ h.exclusive le_rfl (fun _ _ => id) ?_
    (.inl ⟨rfl, rfl, rfl⟩) (by simp [plannerPoints, liftAct])
  · simp [plannerPoints, liftAct, StackPoint.ofPlanner, PlannerCode.locks]
  · simp [plannerPoints, liftAct, StackPoint.ofPlanner, PlannerCode.writes]
  · simp [plannerPoints, liftAct, StackPoint.ofPlanner, PlannerCode.stores]
  · simp [plannerPoints, liftAct, StackPoint.reads]
  · intro k value hk
    change Function.update m.results number (some output) k = some value at hk
    by_cases hkn : k = number
    · subst hkn
      rw [Function.update_self] at hk
      obtain rfl := Option.some.inj hk
      exact .inr ⟨compiled, hf, n, reuse, hp⟩
    · rw [Function.update_of_ne hkn] at hk
      exact .inl hk

/-- `prepare` fails or panics. -/
theorem PlannerOk.hookFails {number : ℕ} {compiled : CompiledPlan T.PlannerMeta}
    {reuse : Option T.Prepared} {panicked : Bool} {r : CallResult}
    (h : PlannerOk H m ({.code (.planner (.prepareHook number compiled reuse))} + R)) :
    PlannerOk H { m with panicked } (plannerPoints (.ret r) + R) := by
  refine h.advance rfl rfl rfl rfl rfl ?_ ?_ ?_ ?_ h.exclusive le_rfl (fun _ _ => id)
    (fun _ _ => .inl) (.inl ⟨rfl, rfl, rfl⟩) (by simp [plannerPoints, liftAct])
  · simp [plannerPoints, liftAct, StackPoint.ofPlanner, PlannerCode.locks]
  · simp [plannerPoints, liftAct, StackPoint.ofPlanner, PlannerCode.writes]
  · simp [plannerPoints, liftAct, StackPoint.ofPlanner, PlannerCode.stores]
  · simp [plannerPoints, liftAct, StackPoint.reads]

/-- A call draws the id of the version it makes. -/
theorem PlannerOk.drawId {call : Transaction T} {compiled : CompiledPlan T.PlannerMeta}
    {prepared : T.Prepared}
    (h : PlannerOk H m ({.code (.planner (.drawId call compiled prepared))} + R)) :
    PlannerOk H { m with nextVersionId := m.nextVersionId + 1 } (plannerPoints (.goto
      (.writeLock call ⟨m.nextVersionId, compiled, prepared⟩)) + R) := by
  have hf := h.fits
  obtain ⟨hbefore, hbegun, hcompiles, hyields⟩ := hf
  refine h.advance rfl rfl rfl rfl rfl ?_ ?_ ?_ ?_ h.exclusive (Nat.le_succ _)
    (fun _ _ => id) (fun _ _ => .inl) (.inr rfl) ?_
  · simp [plannerPoints, liftAct, StackPoint.ofPlanner, PlannerCode.locks]
  · simp [plannerPoints, liftAct, StackPoint.ofPlanner, PlannerCode.writes]
  · simp [plannerPoints, liftAct, StackPoint.ofPlanner, PlannerCode.stores]
  · simp [plannerPoints, liftAct, StackPoint.reads]
  · intro q hq
    obtain rfl := Multiset.mem_singleton.mp hq
    exact ⟨hbefore, ⟨hbegun, hcompiles, hyields⟩, h.issued, Nat.lt_succ_self _⟩

/-- A call locks the current version, which nobody reads. -/
theorem PlannerOk.writeLock {call : Transaction T} {version : Version T}
    (h : PlannerOk H m ({.code (.planner (.writeLock call version))} + R))
    (hl : m.versionLock = .free) (hr : m.readers = 0) :
    PlannerOk H { m with versionLock := .held }
      (plannerPoints (.goto (.swap call version)) + R) := by
  have hf := h.fits
  have hrest := (h.holder (by simp [StackPoint.ofPlanner, PlannerCode.locks])).2
  refine h.account (by simp [plannerPoints, liftAct, StackPoint.ofPlanner, PlannerCode.locks])
    ?_ ?_ (fun _ => hr) (by simp) ?_ ?_ ?_ h.results h.increasing h.latest h.issued
    h.returned h.ids
  · simp [plannerPoints, liftAct, StackPoint.ofPlanner, PlannerCode.writes, hl]
  · simp [plannerPoints, liftAct, StackPoint.reads]
  · intro q hq
    obtain rfl := Multiset.mem_singleton.mp hq
    exact hf
  · exact fun q hq hsees => hsees.mono (hrest q hq) (fun _ _ => id) le_rfl (.inr rfl)
  · intro hzero
    refine h.agrees ?_
    simpa [plannerPoints, liftAct, StackPoint.ofPlanner, PlannerCode.stores] using hzero

/-- **The new version becomes the current one.** -/
theorem PlannerOk.swap {call : Transaction T} {version : Version T} {preparedPool : List T.Prepared}
    (h : PlannerOk H m ({.code (.planner (.swap call version))} + R)) :
    PlannerOk H { m with
      current := version, preparedPool, published := m.published ++ [version.id] } (plannerPoints
      (.goto (.storeId call version)) + R) := by
  have hf := h.fits
  obtain ⟨hbefore, hmakes, hnew, hdrawn⟩ := hf
  obtain ⟨hheld, hrest⟩ := h.holder (by simp [StackPoint.ofPlanner, PlannerCode.locks])
  have hwriting : m.versionLock = .held := h.holdsVersion rfl
  have hnobody : ∀ q ∈ R, StackPoint.reads q = 0 := by
    intro q hq
    have hr := h.reading
    rw [h.exclusive hwriting, Multiset.sum_eq_zero_iff] at hr
    exact hr _ (Multiset.mem_map_of_mem _ (by simp [hq]))
  have hnewer : m.current.id < version.id := hnew _ (List.mem_of_getLast? h.latest)
  have hagreed : m.currentVersionId = m.current.id := by
    refine h.agrees (Multiset.sum_eq_zero fun n hn => ?_)
    obtain ⟨q, hq, rfl⟩ := Multiset.mem_map.mp hn
    rcases Multiset.mem_add.mp hq with hq | hq
    · obtain rfl := Multiset.mem_singleton.mp hq
      rfl
    · have hle := StackPoint.ofPlanner_mono
        (fun code : PlannerCode T => code.stores_le.1.trans code.stores_le.2.1) q
      have hzero := hrest q hq
      omega
  refine h.account (by simp [plannerPoints, liftAct, StackPoint.ofPlanner, PlannerCode.locks])
    (by simp [plannerPoints, liftAct, StackPoint.ofPlanner, PlannerCode.writes])
    (by simp [plannerPoints, liftAct, StackPoint.reads]) h.exclusive h.unpoisoned
    ?_ ?_ ?_ h.results ?_ ?_ ?_ h.returned ?_
  · intro q hq
    obtain rfl := Multiset.mem_singleton.mp hq
    refine ⟨hmakes, rfl, ?_, ?_⟩
    · rw [hbefore]
      rfl
    · change m.currentVersionId ≤ version.id
      omega
  · exact fun q hq hsees =>
      hsees.mono (hrest q hq) (fun _ _ => id) hnewer.le (.inl (hnobody q hq))
  · intro hzero
    simp [plannerPoints, liftAct, StackPoint.ofPlanner, PlannerCode.stores] at hzero
  · exact List.pairwise_append.mpr ⟨h.increasing, List.pairwise_singleton _ _,
      fun old hold id hid => List.mem_singleton.mp hid ▸ hnew old hold⟩
  · simp
  · intro id hid
    rcases List.mem_append.mp hid with hid | hid
    · exact h.issued id hid
    · exact List.mem_singleton.mp hid ▸ hdrawn
  · exact fun id hid => List.mem_append_left _ (h.ids id hid)

/-- A call stores the id of the version it made. -/
theorem PlannerOk.storeId {call : Transaction T} {version : Version T}
    (h : PlannerOk H m ({.code (.planner (.storeId call version))} + R)) :
    PlannerOk H { m with currentVersionId := version.id }
      (plannerPoints (.goto (.unlock call version)) + R) := by
  have hf := h.fits
  obtain ⟨hmakes, hcurrent, hkept, -⟩ := hf
  have hrest := (h.holder (by simp [StackPoint.ofPlanner, PlannerCode.locks])).2
  refine h.account (by simp [plannerPoints, liftAct, StackPoint.ofPlanner, PlannerCode.locks])
    (by simp [plannerPoints, liftAct, StackPoint.ofPlanner, PlannerCode.writes])
    (by simp [plannerPoints, liftAct, StackPoint.reads]) h.exclusive h.unpoisoned
    ?_ ?_ ?_ h.results h.increasing h.latest h.issued h.returned h.ids
  · intro q hq
    obtain rfl := Multiset.mem_singleton.mp hq
    exact ⟨hmakes, hcurrent, hkept, rfl⟩
  · exact fun q hq hsees => hsees.mono (hrest q hq) (fun _ _ => id) le_rfl (.inr rfl)
  · exact fun _ => congrArg Version.id hcurrent.symm

/-- A call unlocks the current version. -/
theorem PlannerOk.unlock {call : Transaction T} {version : Version T}
    (h : PlannerOk H m ({.code (.planner (.unlock call version))} + R)) :
    PlannerOk H { m with versionLock := .free }
      (plannerPoints (.goto (.commit call version)) + R) := by
  have hf := h.fits
  obtain ⟨hmakes, hcurrent, hkept, hid⟩ := hf
  have hrest := (h.holder (by simp [StackPoint.ofPlanner, PlannerCode.locks])).2
  have hwriting : m.versionLock = .held := h.holdsVersion rfl
  refine h.account (by simp [plannerPoints, liftAct, StackPoint.ofPlanner, PlannerCode.locks])
    ?_ (by simp [plannerPoints, liftAct, StackPoint.reads]) (by simp) (by simp)
    ?_ ?_ ?_ h.results h.increasing h.latest h.issued h.returned h.ids
  · simp [plannerPoints, liftAct, StackPoint.ofPlanner, PlannerCode.writes, hwriting]
  · intro q hq
    obtain rfl := Multiset.mem_singleton.mp hq
    exact ⟨hmakes, hcurrent, hkept, hid⟩
  · exact fun q hq hsees => hsees.mono (hrest q hq) (fun _ _ => id) le_rfl (.inr rfl)
  · intro _
    rw [hid, hcurrent]

/-- A call commits the planner state of the version it made. -/
theorem PlannerOk.commit {call : Transaction T} {version : Version T} {state : T.State}
    (h : PlannerOk H m ({.code (.planner (.commit call version))} + R))
    (hstate : state = if call.changes.isSome then call.next else m.state) :
    PlannerOk H ({ m with state }.finish call (.ok version.id)) (plannerPoints (.ret .ok) + R) := by
  have hf := h.fits
  obtain ⟨hmakes, hcurrent, hkept, hid⟩ := hf
  have hnext : state = call.next := by
    have hbegun := hmakes.begun
    unfold Transaction.Begun at hbegun
    cases hc : call.changes with
    | none =>
        rw [hc] at hbegun
        simpa [hc, hkept, hbegun] using hstate
    | some changes => simpa [hc] using hstate
  refine h.finish rfl rfl ⟨hcurrent ▸ hmakes, hcurrent ▸ rfl, hid, hnext⟩ ?_
  rintro id ⟨⟩
  rw [hcurrent]

/-- **A step of a call on the planner state** keeps it in order. -/
theorem PlannerOk.planner {b : BackendId} {code : PlannerCode T}
    {act : ClientAct (PlannerCode T) JobTask} (h : PlannerOk H m ({.code (.planner code)} + R))
    (hstep : PlannerStep H b m code m' act) : PlannerOk H m' (plannerPoints act + R) := by
  have hf : code.Fits H m := h.fits
  cases hstep with
  | poisoned hp => exact h.poisoned hp
  | apply hl | replace hl => exact h.lock hl rfl rfl rfl trivial
  | recompile hl => exact h.lock hl rfl rfl rfl ⟨rfl, rfl⟩
  | update hl => exact h.lock hl rfl rfl rfl rfl
  | edited hcode | editPanicked hcode =>
      refine h.dropState ?_ ?_ (by simp [PlannerMem.unwind]) rfl rfl rfl rfl rfl rfl rfl rfl rfl
      all_goals obtain ⟨changes, rfl⟩ | ⟨spec, rfl⟩ := hcode <;> rfl
  | updated hu =>
      obtain rfl := hf
      exact h.goOn rfl rfl rfl rfl rfl rfl rfl rfl rfl rfl rfl rfl rfl rfl rfl ⟨rfl, _, hu⟩
  | updateFailed =>
      obtain rfl := hf
      exact h.goOn rfl rfl rfl rfl rfl rfl rfl rfl rfl rfl rfl rfl rfl rfl rfl rfl
  | updatePanicked | compilePanicked | preparedPanicked =>
      exact h.dropState rfl rfl (by simp [PlannerMem.unwind]) rfl rfl rfl rfl rfl rfl rfl rfl rfl
  | scratchPoisoned | compileFailed =>
      exact h.goOn rfl rfl rfl rfl rfl rfl rfl rfl rfl rfl rfl rfl rfl rfl rfl hf.1
  | scratch =>
      exact h.goOn rfl rfl rfl rfl rfl rfl rfl rfl rfl rfl rfl rfl rfl rfl rfl hf
  | compiled hc hval =>
      exact h.goOn rfl rfl rfl rfl rfl rfl rfl rfl rfl rfl rfl rfl rfl rfl rfl
        ⟨hf.1, hf.2, _, hc, hval⟩
  | computeScratch =>
      exact h.goOn rfl rfl rfl rfl rfl rfl rfl rfl rfl rfl rfl rfl rfl rfl rfl hf
  | computeScratchPoisoned | reusePoisoned =>
      exact h.goOn rfl rfl rfl rfl rfl rfl rfl rfl rfl rfl rfl rfl rfl rfl rfl hf.1
  | reuse =>
      exact h.goOn rfl rfl rfl rfl rfl rfl rfl rfl rfl rfl rfl rfl rfl rfl rfl hf
  | prepare => exact h.asks
  | prepareOk hp => exact h.hookReturns hp
  | prepareFailed | preparePanicked => exact h.hookFails
  | prepared hr =>
      obtain ⟨hasked, hcall⟩ := hf
      obtain ⟨compiled, hc, hyields⟩ := h.results _ _ hr
      obtain rfl := Option.some.inj (hasked.symm.trans hc)
      exact h.goOn rfl rfl rfl rfl rfl rfl rfl rfl rfl rfl rfl rfl rfl rfl rfl
        ⟨hcall.1, hcall.2.1, hcall.2.2, hyields⟩
  | preparedErr =>
      exact h.goOn rfl rfl rfl rfl rfl rfl rfl rfl rfl rfl rfl rfl rfl rfl rfl hf.2.1
  | giveScratch =>
      exact h.goOn rfl rfl rfl rfl rfl rfl rfl rfl rfl rfl rfl rfl rfl rfl rfl hf
  | giveScratchPoisoned | writePoisoned =>
      exact h.goOn rfl rfl rfl rfl rfl rfl rfl rfl rfl rfl rfl rfl rfl rfl rfl hf.1
  | drawId => exact h.drawId
  | writeLock hl hr => exact h.writeLock hl hr
  | swap => exact h.swap
  | storeId => exact h.storeId
  | unlock => exact h.unlock
  | commit hstate => exact h.commit hstate
  | @fail call error =>
      have hok : Returned.Ok H ⟨call, m.snapshot, .error error⟩ := Eq.symm hf
      exact h.finish rfl rfl hok (by simp)

end Ok

/-! ### The whole stack -/

/-- What is fixed when a job is created. -/
structure Job.Based (job job' : Job T) : Prop where
  version : job'.version = job.version
  queries : job'.queries = job.queries
  seen : job'.seen = job.seen
  since : job'.since = job.since

/-- A task does not change what its job is about. -/
theorem JobStep.based {H : Hooks T} {b : BackendId} {pools pools' : Pools} {job job' : Job T}
    {code : JobCode T} {act : ClientAct (JobCode T) JobTask}
    (h : JobStep H b pools job code pools' job' act) : job.Based job' := by
  cases h with
  | recycle h | giveBackOk _ h | giveBackPoisoned _ h | giveBackErr h | cleanup h =>
      unfold giveBackPacket at h
      split at h <;> simp only [Prod.mk.injEq] at h <;> obtain ⟨-, rfl⟩ := h <;>
        exact ⟨rfl, rfl, rfl, rfl⟩
  | finish =>
      unfold Job.finishWith
      split <;> exact ⟨rfl, rfl, rfl, rfl⟩
  | _ => exact ⟨rfl, rfl, rfl, rfl⟩

/-- A reject side does not change what its job is about. -/
theorem RejectStep.based {pools pools' : Pools} {job job' : Job T} {point : RejectPoint}
    {next : Option RejectPoint} (h : RejectStep pools job point pools' job' next) :
    job.Based job' := by
  cases h with
  | giveBack h =>
      unfold giveBackPacket at h
      split at h <;> simp only [Prod.mk.injEq] at h <;> obtain ⟨-, rfl⟩ := h <;>
        exact ⟨rfl, rfl, rfl, rfl⟩
  | _ => exact ⟨rfl, rfl, rfl, rfl⟩

section Stack

variable {H : Hooks T} {m m' : Mem T} {P Q R : Soup (Code T) Task RejectCode}

/-- A job after a step was there before, or `dispatch` has just created it. -/
theorem StackStep.job {self : ThreadId} {code : Code T} {act : ClientAct (Code T) Task}
    (h : StackStep H self m code m' act) {i : JobId} {job' : Job T} (hi : m'.job i = some job') :
    (∃ job, m.job i = some job ∧ job.Based job') ∨
      ∃ queries since seen version, code = .dispatchId queries since seen version ∧
        job' = { version, queries, seen, since } := by
  have hset : ∀ {j job job₁}, m.job j = some job → (m.setJob j job₁).job i = some job' →
      job.Based job₁ → ∃ job, m.job i = some job ∧ job.Based job' := by
    intro j job job₁ hj hi hbased
    rw [Mem.setJob_job] at hi
    split at hi
    · next hij =>
        obtain rfl := Option.some.inj hi
        exact ⟨job, hij ▸ hj, hbased⟩
    · exact ⟨job', hi, rfl, rfl, rfl, rfl⟩
  cases h with
  | dispatchId =>
      change (m.setJob _ _).job i = some job' at hi
      rw [Mem.setJob_job] at hi
      split at hi
      · obtain rfl := Option.some.inj hi
        exact .inr ⟨_, _, _, _, rfl, rfl⟩
      · exact .inl ⟨job', hi, rfl, rfl, rfl, rfl⟩
  | insertPoisoned hj | dispatchOk hj | dispatchErr hj | collectTake hj | collectPark hj
  | collectWoken hj | cancel hj => exact .inl (hset hj hi ⟨rfl, rfl, rfl, rfl⟩)
  | task hj h => exact .inl (hset hj hi h.based)
  | _ => exact .inl ⟨job', hi, rfl, rfl, rfl, rfl⟩

/-- The same for a step of a reject side. -/
theorem StackReject.job {code : RejectCode} {next : Option RejectCode}
    (h : StackReject m code m' next) {i : JobId} {job' : Job T} (hi : m'.job i = some job') :
    ∃ job, m.job i = some job ∧ job.Based job' := by
  cases h with
  | on hj h | done hj h =>
      change (m.setJob _ _).job i = some job' at hi
      rw [Mem.setJob_job] at hi
      split at hi
      · next hij =>
          obtain rfl := Option.some.inj hi
          exact ⟨_, hij ▸ hj, h.based⟩
      · exact ⟨job', hi, rfl, rfl, rfl, rfl⟩
  | gone => exact ⟨job', hi, rfl, rfl, rfl, rfl⟩

/-- The point holds no lock. -/
def StackPoint.Idle (q : StackPoint T) : Prop :=
  StackPoint.ofPlanner PlannerCode.locks q = 0 ∧ StackPoint.reads q = 0

/-- The program point neither works on the planner state nor knows a version. -/
def Code.plain : Code T → Bool
  | .planner _ | .dispatchRead _ _ | .dispatchClone _ _ _ | .dispatchId _ _ _ _ | .clone => false
  | _ => true

/-- The same for the points of the soup. -/
def StackPoint.plain : StackPoint T → Bool
  | .code code => code.plain
  | .hook _ => false
  | _ => true

/-- A plain point holds nothing and relies on nothing. -/
theorem StackPoint.of_plain {q : StackPoint T} (hq : StackPoint.plain q = true)
    (pm : PlannerMem T) : StackPoint.Idle q ∧ StackPoint.Sees H pm q := by
  cases q with
  | code code =>
      cases code <;> first | exact ⟨⟨rfl, rfl⟩, trivial⟩
                           | simp [StackPoint.plain, Code.plain] at hq
  | hook => simp [StackPoint.plain] at hq
  | _ => exact ⟨⟨rfl, rfl⟩, trivial⟩

/-- The points that a task leaves are plain. -/
theorem JobStep.plain {b : BackendId} {pools pools' : Pools} {job job' : Job T}
    {code : JobCode T} {act : ClientAct (JobCode T) JobTask} {j : JobId}
    (h : JobStep H b pools job code pools' job' act) :
    ∀ q ∈ taskPoints j act, StackPoint.plain q = true := by
  intro q hq
  cases h
  case leave hact =>
    rcases hact with rfl | rfl
    · simp [taskPoints, liftAct] at hq
    · obtain rfl := Multiset.mem_singleton.mp hq
      rfl
  all_goals
    simp only [taskPoints, liftAct, ClientAct.points, Multiset.insert_eq_cons,
      Multiset.mem_cons, Multiset.mem_singleton] at hq
    try obtain rfl | rfl := hq
    all_goals rfl

/-- Points that hold nothing come and go. -/
theorem PlannerOk.exchange {pm pm' : PlannerMem T} (h : PlannerOk H pm (P + R))
    (hP : ∀ p ∈ P, StackPoint.Idle p)
    (hQ : ∀ q ∈ Q, StackPoint.Idle q ∧ StackPoint.Sees H pm q)
    (hpm : ∃ preparedPool, pm' = { pm with preparedPool }) : PlannerOk H pm' (Q + R) := by
  obtain ⟨preparedPool, rfl⟩ := hpm
  have hzero : ∀ {w : StackPoint T → ℕ} {S : Soup (Code T) Task RejectCode},
      (∀ q ∈ S, w q = 0) → (S.map w).sum = 0 := by
    intro w S hS
    refine Multiset.sum_eq_zero fun n hn => ?_
    obtain ⟨q, hq, rfl⟩ := Multiset.mem_map.mp hn
    exact hS q hq
  have hle : ∀ {w : PlannerCode T → ℕ} {q : StackPoint T}, (∀ code, w code ≤ code.locks) →
      StackPoint.Idle q → StackPoint.ofPlanner w q = 0 := by
    intro w q hw hq
    have hmono := StackPoint.ofPlanner_mono hw q
    have hlocks := hq.1
    omega
  have hwrites : ∀ code : PlannerCode T, code.writes ≤ code.locks := fun code => code.stores_le.2.1
  have hstores : ∀ code : PlannerCode T, code.stores ≤ code.locks :=
    fun code => code.stores_le.1.trans (hwrites code)
  refine h.advance rfl rfl rfl rfl rfl ?_ ?_ ?_ ?_ h.exclusive le_rfl (fun _ _ => id)
    (fun _ _ => .inl) (.inl ⟨rfl, rfl, rfl⟩) fun q hq => (hQ q hq).2.congr rfl rfl rfl rfl
  · rw [hzero fun q hq => (hQ q hq).1.1, hzero fun q hq => (hP q hq).1]
  · rw [hzero fun q hq => hle hwrites (hQ q hq).1, hzero fun q hq => hle hwrites (hP q hq)]
  · rw [hzero fun q hq => hle hstores (hQ q hq).1, hzero fun q hq => hle hstores (hP q hq)]
  · rw [hzero fun q hq => (hQ q hq).1.2, hzero fun q hq => (hP q hq).2]

/-- The planner state is in order, and every job runs on a version that is no older than the
updates that had returned before its dispatch. -/
structure VersionsOk (H : Hooks T) (m : Mem T) (P : Soup (Code T) Task RejectCode) : Prop where
  planner : PlannerOk H m.planner P
  since : ∀ j job, m.job j = some job → ∀ id ∈ job.since, id ≤ job.version.id

/-- Points that hold nothing come and go, and jobs go on. -/
theorem VersionsOk.exchange (h : VersionsOk H m (P + R)) (hP : ∀ p ∈ P, StackPoint.Idle p)
    (hQ : ∀ q ∈ Q, StackPoint.Idle q ∧ StackPoint.Sees H m.planner q)
    (hpm : ∃ preparedPool, m'.planner = { m.planner with preparedPool })
    (hjob : ∀ i job', m'.job i = some job' → ∃ job, m.job i = some job ∧ job.Based job') :
    VersionsOk H m' (Q + R) := by
  refine ⟨h.planner.exchange hP hQ hpm, fun j job' hj id hid => ?_⟩
  obtain ⟨job, hold, hbased⟩ := hjob j job' hj
  rw [hbased.version]
  exact h.since j job hold id (hbased.since ▸ hid)

/-- **A step of the stack** keeps the versions in order. -/
theorem VersionsOk.step {self : ThreadId} {code : Code T} {act : ClientAct (Code T) Task}
    (h : VersionsOk H m ({.code code} + R)) (hstep : StackStep H self m code m' act) :
    VersionsOk H m' (act.points + R) := by
  have hsees : StackPoint.Sees H m.planner (.code code) := h.planner.sees _ (by simp)
  have hjob := fun i job' (hi : m'.job i = some job') => hstep.job hi
  have hplain : code.plain = true → (∀ q ∈ act.points, StackPoint.plain q = true) →
      (∃ preparedPool, m'.planner = { m.planner with preparedPool }) →
      VersionsOk H m' (act.points + R) := by
    intro hcode hact hpm
    refine h.exchange ?_ (fun q hq => StackPoint.of_plain (hact q hq) _) hpm fun i job' hi => ?_
    · intro q hq
      obtain rfl := Multiset.mem_singleton.mp hq
      have hp : StackPoint.plain (.code code : StackPoint T) = true := hcode
      exact (StackPoint.of_plain (H := H) hp m.planner).1
    · refine (hjob i job' hi).resolve_right ?_
      rintro ⟨queries, since, seen, version, rfl, -⟩
      simp [Code.plain] at hcode
  cases hstep with
  | planner hp => exact ⟨h.planner.planner hp, h.since⟩
  | dispatch =>
      refine h.exchange ?_ ?_ ⟨_, rfl⟩ fun i job' hi => ⟨job', hi, rfl, rfl, rfl, rfl⟩ <;>
        intro q hq <;> obtain rfl := Multiset.mem_singleton.mp hq
      · exact ⟨rfl, rfl⟩
      · exact ⟨⟨rfl, rfl⟩, fun id hid => h.planner.returned_le hid⟩
  | dispatchRead hl =>
      refine ⟨h.planner.advance rfl rfl rfl rfl rfl rfl rfl rfl ?_ (by simp [hl]) le_rfl
        (fun _ _ => id) (fun _ _ => .inl) (.inl ⟨rfl, rfl, rfl⟩) ?_, h.since⟩
      · simp [StackPoint.reads, Nat.add_comm]
      · intro q hq
        obtain rfl := Multiset.mem_singleton.mp hq
        exact ⟨rfl, hsees⟩
  | read hl =>
      refine ⟨h.planner.advance rfl rfl rfl rfl rfl rfl rfl rfl ?_ (by simp [hl]) le_rfl
        (fun _ _ => id) (fun _ _ => .inl) (.inl ⟨rfl, rfl, rfl⟩) ?_, h.since⟩
      · simp [StackPoint.reads, Nat.add_comm]
      · intro q hq
        obtain rfl := Multiset.mem_singleton.mp hq
        exact trivial
  | @dispatchClone queries since seen =>
      have hreaders : 1 ≤ m.planner.readers := by
        rw [← h.planner.reading, Multiset.map_add, Multiset.sum_add]
        simp [StackPoint.reads]
      refine ⟨h.planner.advance rfl rfl rfl rfl rfl rfl rfl rfl ?_ ?_ le_rfl (fun _ _ => id)
        (fun _ _ => .inl) (.inl ⟨rfl, rfl, rfl⟩) ?_, h.since⟩
      · simp only [ClientAct.points, Multiset.map_singleton, Multiset.sum_singleton,
          StackPoint.reads, Mem.dropRead]
        omega
      · intro hv
        have hzero := h.planner.exclusive hv
        omega
      · intro q hq
        obtain rfl := Multiset.mem_singleton.mp hq
        exact ⟨hsees.1.symm, hsees.2⟩
  | clone =>
      have hreaders : 1 ≤ m.planner.readers := by
        rw [← h.planner.reading, Multiset.map_add, Multiset.sum_add]
        simp [StackPoint.reads]
      refine ⟨h.planner.advance rfl rfl rfl rfl rfl rfl rfl rfl ?_ ?_ le_rfl (fun _ _ => id)
        (fun _ _ => .inl) (.inl ⟨rfl, rfl, rfl⟩) (by simp), h.since⟩
      · simp only [ClientAct.points, Multiset.map_singleton, Multiset.sum_singleton,
          Multiset.map_zero, Multiset.sum_zero, StackPoint.reads, Mem.dropRead]
        omega
      · intro hv
        have hzero := h.planner.exclusive hv
        omega
  | @dispatchId queries since seen version =>
      obtain ⟨rfl, hsince⟩ := hsees
      refine ⟨h.planner.exchange ?_ ?_ ⟨_, rfl⟩, ?_⟩
      · intro q hq
        obtain rfl := Multiset.mem_singleton.mp hq
        exact ⟨rfl, rfl⟩
      · intro q hq
        obtain rfl := Multiset.mem_singleton.mp hq
        exact ⟨⟨rfl, rfl⟩, trivial⟩
      · intro j job hj
        change (m.setJob _ _).job j = some job at hj
        rw [Mem.setJob_job] at hj
        split at hj
        · obtain rfl := Option.some.inj hj
          exact hsince
        · exact h.since j job hj
  | leave hcode =>
      refine h.exchange ?_ (by simp) ⟨_, rfl⟩ fun i job' hi => ⟨job', hi, rfl, rfl, rfl, rfl⟩
      intro q hq
      obtain rfl := Multiset.mem_singleton.mp hq
      cases code <;> first | exact hcode.elim | exact ⟨rfl, rfl⟩
  | task hj hstep => exact hplain rfl hstep.plain ⟨_, rfl⟩
  | _ => exact hplain rfl (by simp [StackPoint.plain, Code.plain]) ⟨_, rfl⟩

/-- A point without a lock becomes another one. -/
theorem VersionsOk.become {p q : StackPoint T} (h : VersionsOk H m (p ::ₘ R))
    (hp : StackPoint.Idle p) (hq : StackPoint.Idle q) (hsees : StackPoint.Sees H m.planner q) :
    VersionsOk H m (q ::ₘ R) := by
  rw [← Multiset.singleton_add] at h ⊢
  refine h.exchange ?_ ?_ ⟨_, rfl⟩ fun _ job' hi => ⟨job', hi, rfl, rfl, rfl, rfl⟩
  · intro p' hp'
    obtain rfl := Multiset.mem_singleton.mp hp'
    exact hp
  · intro q' hq'
    obtain rfl := Multiset.mem_singleton.mp hq'
    exact ⟨hq, hsees⟩

/-- A point without a lock goes. -/
theorem VersionsOk.leave {p : StackPoint T} (h : VersionsOk H m (p ::ₘ R))
    (hp : StackPoint.Idle p) : VersionsOk H m R := by
  rw [← Multiset.singleton_add] at h
  have hgone : VersionsOk H m (0 + R) := by
    refine h.exchange ?_ (by simp) ⟨_, rfl⟩ fun _ job' hi => ⟨job', hi, rfl, rfl, rfl, rfl⟩
    intro p' hp'
    obtain rfl := Multiset.mem_singleton.mp hp'
    exact hp
  rwa [zero_add] at hgone

/-- The versions are in order with the points of a step listed first. -/
theorem VersionsOk.singleton_add {p : StackPoint T} (h : VersionsOk H m (p ::ₘ P)) :
    VersionsOk H m ({p} + P) := by
  rwa [Multiset.singleton_add]

/-- A step of a reject side keeps the versions in order. -/
theorem VersionsOk.reject {code : RejectCode} {next : Option RejectCode}
    (h : VersionsOk H m ({.rejecting code} + R)) (hstep : StackReject m code m' next) :
    VersionsOk H m' (next.elim 0 (fun next => {.rejecting next}) + R) := by
  have hjob := fun i job' (hi : m'.job i = some job') => hstep.job hi
  have hplanner : m'.planner = m.planner := by cases hstep <;> rfl
  refine h.exchange ?_ ?_ ⟨m.planner.preparedPool, hplanner⟩ hjob
  · intro q hq
    obtain rfl := Multiset.mem_singleton.mp hq
    exact ⟨rfl, rfl⟩
  · intro q hq
    cases next with
    | none => simp at hq
    | some next =>
        obtain rfl := Multiset.mem_singleton.mp hq
        exact ⟨⟨rfl, rfl⟩, trivial⟩

/-- **Every step of the soup** keeps the versions in order. -/
theorem versionsOk_step {v v' : SoupView (Mem T) (Code T) Task RejectCode}
    (h : VersionsOk H v.1 v.2) (hstep : SoupStep (stackContract H) v v') :
    VersionsOk H v'.1 v'.2 := by
  cases hstep with
  | idle => exact h
  | step hs => exact h.singleton_add.step (stackStep_cases hs)
  | rejectOn hs => exact h.singleton_add.reject (rejectStep_cases hs)
  | rejectDone hs =>
      have hdone := h.singleton_add.reject (rejectStep_cases hs)
      rwa [Option.elim_none, zero_add] at hdone
  | run | runScheduled | reject => exact h.become ⟨rfl, rfl⟩ ⟨rfl, rfl⟩ trivial
  | @hookRun m hook R =>
      have hsees := h.planner.sees (.hook hook) (Multiset.mem_cons_self _ _)
      cases hook with
      | planner code =>
          cases code with
          | prepareHook => exact h.become ⟨rfl, rfl⟩ ⟨rfl, rfl⟩ hsees
          | _ => exact hsees.elim
      | _ => exact hsees.elim
  | hookDrop => exact h.leave ⟨rfl, rfl⟩
  | @refused m t code R hs =>
      have hcode : VersionsOk H m (.code code ::ₘ R) := h.leave ⟨rfl, rfl⟩
      have hs : Submits code t := hs
      unfold Submits at hs
      split at hs
      · exact hcode.become ⟨rfl, rfl⟩ ⟨rfl, rfl⟩ trivial
      · exact hcode.become ⟨rfl, rfl⟩ ⟨rfl, rfl⟩ trivial
      · exact hs.elim
  | @returned m code r R hr =>
      have hr : Returns m code r := hr
      unfold Returns at hr
      split at hr
      · rcases hr with rfl | ⟨rfl, -⟩ <;> exact h.become ⟨rfl, rfl⟩ ⟨rfl, rfl⟩ trivial
      · obtain rfl := hr
        exact h.become ⟨rfl, rfl⟩ ⟨rfl, rfl⟩ trivial
      · obtain rfl := hr
        exact h.become ⟨rfl, rfl⟩ ⟨rfl, rfl⟩ trivial
      · next number call compiled _ =>
          have hsees := h.planner.sees _ (Multiset.mem_cons_self _ _)
          have hon : PlannerOk H m.planner
              ({.code (.planner (.prepared number call compiled r))} + R) :=
            h.singleton_add.planner.goOn rfl rfl rfl rfl rfl rfl rfl rfl rfl rfl rfl rfl rfl rfl
              rfl hsees
          exact ⟨by rwa [Multiset.singleton_add] at hon, h.since⟩
      · exact h
      · exact h
      · exact hr.elim
  | @spawn m code R he =>
      have hidle : StackPoint.Idle (.code code : StackPoint T) ∧
          StackPoint.Sees H m.planner (.code code) := by
        cases code with
        | planner code =>
            cases code <;> first | exact ⟨⟨rfl, rfl⟩, trivial⟩ | simp [stackClient, isEntry] at he
        | _ => first | exact ⟨⟨rfl, rfl⟩, trivial⟩ | simp [stackClient, isEntry] at he
      have h0 : VersionsOk H m (0 + R) := by rwa [zero_add]
      have hspawn : VersionsOk H m ({.code code} + R) := by
        refine h0.exchange (by simp) ?_ ⟨_, rfl⟩ fun _ job' hi => ⟨job', hi, rfl, rfl, rfl, rfl⟩
        intro q hq
        obtain rfl := Multiset.mem_singleton.mp hq
        exact hidle
      rwa [Multiset.singleton_add] at hspawn

/-- The versions of a new stack are in order. -/
theorem versionsOk_create (b : BackendId) (state : T.State) (compiled : CompiledPlan T.PlannerMeta)
    (prepared : T.Prepared) : VersionsOk H (Mem.create b state compiled prepared) 0 where
  planner :=
    { locked := rfl
      writing := rfl
      reading := rfl
      exclusive := fun _ => rfl
      unpoisoned := MutexState.noConfusion
      sees := by simp
      agrees := fun _ => rfl
      results := fun _ _ h => by simp [Mem.create] at h
      increasing := List.pairwise_singleton _ _
      latest := rfl
      issued := fun id hid => by
        obtain rfl := List.mem_singleton.mp hid
        exact Nat.lt_succ_self _
      returned := fun r hr => by simp [Mem.create] at hr
      ids := fun id hid => by simp [Mem.create, PlannerMem.returnedIds] at hid }
  since := fun j job hj => by simp [Mem.create] at hj

end Stack

end Braids.Runtime
