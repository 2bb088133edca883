import Mathlib.Data.Finset.Card
import Mathlib.Data.Finset.Dedup
import Braids.Lib.Runs
import Braids.Runtime.Updates

/-!
# Prepared State at Its High-Water Mark

A version that nobody holds any more gives its prepared state back to the pool of its stack
(`FrozenStackVersion::drop`), and `compile_from_state` takes one out before it prepares the
next version. Here is a stack with everybody who may hold a version: the calls of `recompile`
and `update`, the current version, and the jobs and inline calls that run on a version. The
steps of a call are those of `plannerStep`.

## Conventions

* A handle is a clone of the `Arc` of a version. A job has one, from the read lock in
  `dispatch` until the last of its tasks is done, and so has an inline call. Handles are
  dropped in any order and at any time.
* A version is told by its id, as no id is drawn twice.
* `prepare_blocking` may return an error without running the hook.

## Main results

* `reuseStep_le`: a step lets the pool and the live versions grow only to the number of live
  versions.
* `pool_high_water`: so together they stay at the high-water mark of the live versions.
-/

namespace Braids.Runtime

open Lts

variable {T : Types}

/-- A stack, with the calls that work on its planner state and the handles of its versions. -/
structure ReuseMem (T : Types) where
  planner : PlannerMem T
  /-- The frames of the calls of `apply`, `replace`, `recompile` and `update`. -/
  calls : List (List (PlannerCode T)) := []
  /-- The clones of versions that jobs and inline calls hold. -/
  handles : List (Version T) := []

/-- What happens to a stack. -/
inductive ReuseAct (T : Types)
  /-- `apply`, `replace`, `recompile` or `update` is called. -/
  | call (code : PlannerCode T)
  /-- A step of a call. -/
  | run (call choice : ℕ)
  /-- `prepare_blocking` returns an error to a call without running the hook. -/
  | refuse (call : ℕ) (error : BraidError)
  /-- `dispatch` or an inline entry point: take the read lock of the current version. -/
  | read
  /-- `dispatch` or an inline entry point: clone the version and drop the read guard. -/
  | clone
  /-- A job or an inline call is over and drops its handle. -/
  | release (handle : ℕ)

/-- `FrozenStackVersion::drop`. -/
def PlannerMem.dropVersion (m : PlannerMem T) (version : Version T) : PlannerMem T :=
  if m.preparedPoolPoisoned then m
  else { m with preparedPool := version.prepared :: m.preparedPool }

/-- A call returns to the frame below. -/
def returnTo : List (PlannerCode T) → CallResult → List (PlannerCode T)
  | .preparing number call compiled :: rest, result =>
      .prepared number call compiled result :: rest
  | rest, _ => rest

/-- The frames of a call after a step of the top one. -/
def nextFrames (rest : List (PlannerCode T)) :
    ClientAct (PlannerCode T) JobTask → Option (List (PlannerCode T))
  | .goto code => some (code :: rest)
  | .prepare _ hook code => some (hook :: code :: rest)
  | .ret result => some (returnTo rest result)
  | _ => none

/-- The calls of a stack that work on its planner state. -/
def PlannerCode.isEntry : PlannerCode T → Bool
  | .apply _ | .replace _ | .recompile | .update _ => true
  | _ => false

/-- The version that a step of a call drops, because the write lock is poisoned. -/
def dropsVersion : PlannerCode T → ClientAct (PlannerCode T) JobTask → Option (Version T)
  | .writeLock _ version, .goto (.fail _ _) => some version
  | _, _ => none

namespace ReuseMem

/-- Somebody other than `current_version` holds the current version. -/
def CurrentHeld (s : ReuseMem T) : Prop := s.planner.current.id ∈ s.handles.map (·.id)

instance (s : ReuseMem T) : Decidable s.CurrentHeld :=
  inferInstanceAs (Decidable (s.planner.current.id ∈ s.handles.map (·.id)))

/-- The choice of `plannerStep` at `swap` tells whether the version that is swapped out had no
other handle. -/
def Chooses (s : ReuseMem T) (choice : ℕ) : PlannerCode T → Bool
  | .swap _ _ => choice % 2 = 0 ↔ ¬ s.CurrentHeld
  | _ => true

/-- The versions that `current_version`, jobs and inline calls hold. -/
def versions (s : ReuseMem T) : Finset ℕ := ((s.planner.current :: s.handles).map (·.id)).toFinset

end ReuseMem

/-- One step of a stack. -/
def reuseStep (H : Hooks T) (b : BackendId) (s : ReuseMem T) : ReuseAct T → Option (ReuseMem T)
  | .call code => if code.isEntry then some { s with calls := s.calls ++ [[code]] } else none
  | .run i choice =>
      match s.calls[i]? with
      | some (code :: rest) =>
          if s.Chooses choice code then do
            let (planner, act) ← plannerStep H b choice s.planner code
            let frames ← nextFrames rest act
            return { s with
              planner := ((dropsVersion code act).map planner.dropVersion).getD planner
              calls := s.calls.set i frames }
          else none
      | _ => none
  | .refuse i error =>
      match s.calls[i]? with
      | some (.prepareHook _ _ _ :: rest) =>
          some { s with calls := s.calls.set i (returnTo rest (.err error)) }
      | _ => none
  | .read =>
      match s.planner.versionLock with
      | .free => some { s with planner := { s.planner with readers := s.planner.readers + 1 } }
      | _ => none
  | .clone =>
      if s.planner.readers = 0 then none
      else some { s with
        planner := { s.planner with readers := s.planner.readers - 1 }
        handles := s.planner.current :: s.handles }
  | .release i => do
      let version ← s.handles[i]?
      let s := { s with handles := s.handles.eraseIdx i }
      if version.id ∈ s.versions then return s
      else return { s with planner := s.planner.dropVersion version }

/-! ### Live versions -/

/-- One if the call has taken from the pool for a version that is not the current one yet. -/
def PlannerCode.live : PlannerCode T → ℕ
  | .prepare _ _ _ | .preparing _ _ _ | .prepared _ _ _ _ | .giveScratch _ _ _ | .drawId _ _ _
  | .writeLock _ _ | .swap _ _ => 1
  | _ => 0

/-- The versions that the frames of a call are about to make. -/
def framesLive (frames : List (PlannerCode T)) : ℕ := (frames.map PlannerCode.live).sum

/-- The number of live versions: those that are being prepared and those that are held. -/
def ReuseMem.live (s : ReuseMem T) : ℕ := (s.calls.map framesLive).sum + s.versions.card

/-- The pool and the live versions together. -/
def ReuseMem.kept (s : ReuseMem T) : ℕ := s.planner.preparedPool.length + s.live

/-- A freshly created stack: its first version is live, its pool is empty. -/
def ReuseMem.Created (s : ReuseMem T) : Prop :=
  ∃ state compiled prepared, s = { planner := { state, current := ⟨1, compiled, prepared⟩ } }

/-- A freshly created stack keeps its first version only. -/
theorem ReuseMem.Created.kept_eq {s : ReuseMem T} (h : s.Created) : s.kept = s.live := by
  obtain ⟨state, compiled, prepared, rfl⟩ := h
  simp [kept]

/-- A sum after one element was overwritten. -/
theorem sum_map_set {α : Type} {w : α → ℕ} {l : List α} {i : ℕ} {a : α} (h : l[i]? = some a)
    (b : α) : ((l.set i b).map w).sum + w a = (l.map w).sum + w b := by
  induction l generalizing i with
  | nil => simp at h
  | cons c l ih =>
      cases i with
      | zero =>
          obtain rfl : c = a := by simpa using h
          simp only [List.set_cons_zero, List.map_cons, List.sum_cons]
          omega
      | succ i =>
          have hrest := ih (i := i) (by simpa using h)
          simp only [List.set_cons_succ, List.map_cons, List.sum_cons]
          omega

/-- Returning to a frame changes nothing about what it is about to make. -/
@[simp] theorem framesLive_returnTo (rest : List (PlannerCode T)) (result : CallResult) :
    framesLive (returnTo rest result) = framesLive rest := by
  cases rest with
  | nil => rfl
  | cons code rest => cases code <;> rfl

/-- What a step of a call asks for is about to make. -/
def actLive : ClientAct (PlannerCode T) JobTask → ℕ
  | .goto code => code.live
  | .prepare _ hook code => hook.live + code.live
  | _ => 0

/-- The frames of a call after a step. -/
theorem framesLive_nextFrames {rest frames : List (PlannerCode T)}
    {act : ClientAct (PlannerCode T) JobTask} (h : nextFrames rest act = some frames) :
    framesLive frames = actLive act + framesLive rest := by
  cases act with
  | goto code =>
      obtain rfl : code :: rest = frames := by simpa [nextFrames] using h
      rfl
  | prepare b hook code =>
      obtain rfl : hook :: code :: rest = frames := by simpa [nextFrames] using h
      simp [framesLive, actLive, Nat.add_assoc]
  | ret result =>
      obtain rfl : returnTo rest result = frames := by simpa [nextFrames] using h
      simp [actLive]
  | submit task code => simp [nextFrames] at h
  | schedule b task code => simp [nextFrames] at h
  | shutdown code => simp [nextFrames] at h

/-! ### Steps -/

/-- What a step of a call does to the pool, the current version, and what the call is about to
make: it takes from the pool for a new version, or it swaps its version in, or it drops it, or
it does none of this. -/
theorem PlannerStep.reuses {H : Hooks T} {b : BackendId} {m m' : PlannerMem T}
    {code : PlannerCode T} {act : ClientAct (PlannerCode T) JobTask}
    (h : PlannerStep H b m code m' act) :
    (m'.preparedPool = m.preparedPool ∧ m'.current = m.current ∧
      actLive act ≤ code.live ∧
      (∀ version, dropsVersion code act = some version → actLive act < code.live)) ∨
    (m'.preparedPool = m.preparedPool.tail ∧ m'.current = m.current ∧ code.live = 0 ∧
      actLive act = 1 ∧ dropsVersion code act = none) ∨
    ∃ call version, code = .swap call version := by
  cases h with
  | swap => exact .inr (.inr ⟨_, _, rfl⟩)
  | reuse => exact .inr (.inl ⟨rfl, rfl, rfl, rfl, rfl⟩)
  | poisoned h => exact .inl ⟨rfl, rfl, Nat.zero_le _, by simp [dropsVersion]⟩
  | edited hcode => exact .inl ⟨rfl, rfl, Nat.zero_le _, by simp [dropsVersion]⟩
  | editPanicked hcode => exact .inl ⟨rfl, rfl, Nat.zero_le _, by simp [dropsVersion]⟩
  | writePoisoned h => exact .inl ⟨rfl, rfl, Nat.zero_le _, fun _ _ => Nat.one_pos⟩
  | _ => exact .inl ⟨rfl, rfl, by simp [actLive, PlannerCode.live], by simp [dropsVersion]⟩

/-- Swapping a version in. -/
theorem plannerStep_swap {H : Hooks T} {b : BackendId} {choice : ℕ} {m m' : PlannerMem T}
    {call : Transaction T} {version : Version T} {act : ClientAct (PlannerCode T) JobTask}
    (h : plannerStep H b choice m (.swap call version) = some (m', act)) :
    m'.current = version ∧ act = .goto (.storeId call version) ∧
      m'.preparedPool.length ≤ m.preparedPool.length + if choice % 2 = 0 then 1 else 0 := by
  simp only [plannerStep, Option.some.injEq, Prod.mk.injEq] at h
  obtain ⟨rfl, rfl⟩ := h
  refine ⟨rfl, rfl, ?_⟩
  by_cases hchoice : choice % 2 = 0 <;> by_cases hpoisoned : m.preparedPoolPoisoned = true <;>
    simp [hchoice, hpoisoned]

/-- A version that is dropped gives at most its prepared state back. -/
theorem PlannerMem.length_dropVersion (m : PlannerMem T) (version : Version T) :
    (m.dropVersion version).preparedPool.length ≤ m.preparedPool.length + 1 := by
  rw [dropVersion]
  split <;> simp

@[simp] theorem PlannerMem.current_dropVersion (m : PlannerMem T) (version : Version T) :
    (m.dropVersion version).current = m.current := by
  rw [dropVersion]
  split <;> rfl

/-- The versions that somebody holds. -/
theorem ReuseMem.versions_eq (s : ReuseMem T) :
    s.versions = insert s.planner.current.id (s.handles.map (·.id)).toFinset := by
  simp [versions]

/-- The versions after another one was swapped in. -/
theorem ReuseMem.card_versions_swap {s t : ReuseMem T} (hhandles : t.handles = s.handles) :
    t.versions.card + (if s.CurrentHeld then 0 else 1) ≤ s.versions.card + 1 := by
  rw [versions_eq, versions_eq, hhandles]
  have hnew := Finset.card_insert_le t.planner.current.id (s.handles.map (·.id)).toFinset
  split
  · next hheld =>
      rw [Finset.insert_eq_of_mem (List.mem_toFinset.mpr hheld)]
      exact hnew
  · next hheld =>
      rw [Finset.card_insert_of_notMem fun hin => hheld (List.mem_toFinset.mp hin)]
      omega

/-- The versions after a handle was dropped. -/
theorem ReuseMem.versions_eraseIdx {s : ReuseMem T} {i : ℕ} {version : Version T}
    (h : s.handles[i]? = some version) :
    s.versions = insert version.id { s with handles := s.handles.eraseIdx i }.versions := by
  obtain ⟨hlt, rfl⟩ := List.getElem?_eq_some_iff.mp h
  have hperm := (List.getElem_cons_eraseIdx_perm hlt).map (·.id)
  rw [versions_eq, versions_eq, ← List.toFinset_eq_of_perm _ _ hperm, List.map_cons,
    List.toFinset_cons, Finset.insert_comm]

/-- A step of a call. -/
theorem run_le {H : Hooks T} {b : BackendId} {s s' : ReuseMem T} {i choice : ℕ}
    (h : reuseStep H b s (.run i choice) = some s') : s'.kept ≤ s.kept ∨ s'.kept ≤ s'.live := by
  simp only [reuseStep] at h
  split at h
  · next code rest hcall =>
      split at h
      · next hchoice =>
          simp only [Option.bind_eq_bind, Option.bind_eq_some_iff, Option.pure_def,
            Option.some.injEq] at h
          obtain ⟨⟨planner, act⟩, hstep, frames, hframes, rfl⟩ := h
          dsimp only at hframes
          have hset := sum_map_set (w := framesLive) hcall frames
          have hlive : framesLive (code :: rest) = code.live + framesLive rest := by
            simp [framesLive]
          rw [framesLive_nextFrames hframes, hlive] at hset
          obtain ⟨hpool, hcurrent, hle, hdrop⟩ | ⟨hpool, hcurrent, hzero, hone, hdrop⟩ |
            ⟨call, version, rfl⟩ := (plannerStep_cases hstep).reuses
          · left
            cases hdropped : dropsVersion code act with
            | none =>
                simp only [ReuseMem.kept, ReuseMem.live, ReuseMem.versions, Option.map_none,
                  Option.getD_none, hpool, hcurrent]
                omega
            | some version =>
                have hpush := planner.length_dropVersion version
                have hless := hdrop version hdropped
                rw [hpool] at hpush
                simp only [ReuseMem.kept, ReuseMem.live, ReuseMem.versions, Option.map_some,
                  Option.getD_some, PlannerMem.current_dropVersion, hcurrent]
                omega
          · simp only [ReuseMem.kept, ReuseMem.live, ReuseMem.versions, hdrop, Option.map_none,
              Option.getD_none, hpool, hcurrent, List.length_tail]
            -- a pool that is empty leaves only the versions that are live now
            omega
          · left
            obtain ⟨hcurrent, rfl, hpool⟩ := plannerStep_swap hstep
            have hparity : choice % 2 = 0 ↔ ¬ s.CurrentHeld := of_decide_eq_true hchoice
            have hcard := ReuseMem.card_versions_swap (s := s)
              (t := { s with planner, calls := s.calls.set i frames }) rfl
            simp only [ReuseMem.kept, ReuseMem.live, dropsVersion, Option.map_none,
              Option.getD_none]
            simp only [actLive, PlannerCode.live] at hset
            by_cases hheld : s.CurrentHeld
            · rw [if_neg fun heven => hparity.mp heven hheld] at hpool
              rw [if_pos hheld] at hcard
              omega
            · rw [if_pos (hparity.mpr hheld)] at hpool
              rw [if_neg hheld] at hcard
              omega
      · simp at h
  · simp at h

/-- **A step lets the pool and the live versions grow only to the number of live versions.** -/
theorem reuseStep_le {H : Hooks T} {b : BackendId} {s s' : ReuseMem T} {act : ReuseAct T}
    (h : reuseStep H b s act = some s') : s'.kept ≤ s.kept ∨ s'.kept ≤ s'.live := by
  cases act with
  | run i choice => exact run_le h
  | call code =>
      simp only [reuseStep] at h
      split at h
      · next hentry =>
          obtain rfl := Option.some.inj h
          have hlive : code.live = 0 := by
            cases code <;> simp_all [PlannerCode.isEntry, PlannerCode.live]
          left
          simp [ReuseMem.kept, ReuseMem.live, ReuseMem.versions, framesLive, hlive]
      · simp at h
  | refuse i error =>
      simp only [reuseStep] at h
      split at h
      · next number compiled reuse rest hcall =>
          obtain rfl := Option.some.inj h
          have hset := sum_map_set (w := framesLive) hcall (returnTo rest (.err error))
          have hlive : framesLive (.prepareHook number compiled reuse :: rest) =
              framesLive rest := by
            simp [framesLive, PlannerCode.live]
          rw [framesLive_returnTo, hlive] at hset
          left
          simp only [ReuseMem.kept, ReuseMem.live, ReuseMem.versions]
          omega
      · simp at h
  | read =>
      simp only [reuseStep] at h
      split at h
      · obtain rfl := Option.some.inj h
        exact .inl le_rfl
      · simp at h
  | clone =>
      simp only [reuseStep] at h
      split at h
      · simp at h
      · obtain rfl := Option.some.inj h
        left
        simp [ReuseMem.kept, ReuseMem.live, ReuseMem.versions]
  | release i =>
      simp only [reuseStep, Option.bind_eq_bind, Option.bind_eq_some_iff] at h
      obtain ⟨version, hat, h⟩ := h
      have hversions := ReuseMem.versions_eraseIdx hat
      left
      split at h
      · next hheld =>
          obtain rfl := Option.some.inj h
          rw [Finset.insert_eq_of_mem hheld] at hversions
          exact (congrArg (fun n => s.planner.preparedPool.length +
            ((s.calls.map framesLive).sum + Finset.card n)) hversions).ge
      · next hheld =>
          obtain rfl := Option.some.inj h
          have hpush := s.planner.length_dropVersion version
          have hcard := congrArg Finset.card hversions
          rw [Finset.card_insert_of_notMem hheld] at hcard
          simp only [ReuseMem.kept, ReuseMem.live]
          simp only [ReuseMem.versions, PlannerMem.current_dropVersion] at hcard ⊢
          omega

/-! ### Runs -/

/-- The state after some actions. -/
abbrev reuseRun (H : Hooks T) (b : BackendId) (s : ReuseMem T) (acts : List (ReuseAct T)) :
    Option (ReuseMem T) :=
  runs (reuseStep H b) (fun _ _ => True) s acts

/-- **Prepared states stay at the high-water mark of the live versions**: after some part of a
run as many versions were live as there are now live ones and pooled prepared states. So a
bound on the live versions bounds the pool. -/
theorem pool_high_water (H : Hooks T) (b : BackendId) {s s' : ReuseMem T} (hcreated : s.Created)
    {acts : List (ReuseAct T)} (h : reuseRun H b s acts = some s') :
    (∃ i t, reuseRun H b s (acts.take i) = some t ∧
      s'.planner.preparedPool.length + s'.live ≤ t.live) ∧
    ∀ bound, (∀ i t, reuseRun H b s (acts.take i) = some t → t.live ≤ bound) →
      s'.planner.preparedPool.length ≤ bound := by
  have hpeak : ∃ i t, reuseRun H b s (acts.take i) = some t ∧ s'.kept ≤ t.live := by
    obtain hle | hpeak := runs_le (f := ReuseMem.kept) (g := ReuseMem.live)
      (fun _ _ _ => reuseStep_le) h
    · exact ⟨0, s, rfl, hle.trans hcreated.kept_eq.le⟩
    · exact hpeak
  refine ⟨hpeak, fun bound hbound => ?_⟩
  obtain ⟨i, t, ht, hle⟩ := hpeak
  have hlive := hbound i t ht
  simp only [ReuseMem.kept] at hle
  omega

/-- A job runs on the first version while the second is made. -/
def counterReuse : List (ReuseAct counter) :=
  [.read, .clone, .call .recompile] ++ List.replicate 11 (.run 0 0) ++
    [.run 0 1, .run 0 0, .run 0 0, .run 0 0, .release 0]

/-- The job gives its prepared state back when it is done. -/
theorem pool_high_water_counter :
    let first : ReuseMem counter := { planner := { state := 5, current := ⟨1, counterPlan 5, 5⟩ } }
    ∃ s', reuseRun counterHooks 0 first counterReuse = some s' ∧
      s'.planner.preparedPool = [5] ∧ s'.live = 1 ∧
      ∃ i t, reuseRun counterHooks 0 first (counterReuse.take i) = some t ∧
        s'.planner.preparedPool.length + s'.live ≤ t.live :=
  ⟨_, rfl, rfl, rfl, (pool_high_water counterHooks 0 ⟨_, _, _, rfl⟩ rfl).1⟩

end Braids.Runtime
