import Braids.Executor.Accounting

/-!
# Blocked Prepares

A caller of `acquire_prepare` that finds no room parks on `prepare_wake`. The wakeups are
issued outside the state lock and only on some paths, so the invariant is a promise: as
long as somebody is parked, either a `notify_all` is still to be issued or there is indeed
no room. Lane accounting then names who will make room.

## Main results

* `PreparesWatched.step`: every lane step keeps the promise.
* `blocked_prepare_watched`: no parked caller is forgotten, in every reachable state.
-/

namespace Braids

open Census

variable {σ κ τ ν : Type}

/-- The promise to the parked callers of `acquire_prepare`. -/
structure PreparesWatched (v : LaneView τ) : Prop where
  no_room : v.rt.prepareWake ≠ [] → v.notifies = 0 → ¬ v.rt.Admits
  closed : v.rt.closed = true → v.shutdown = true ∧ v.rt.prepareWake = []

/-- **Every lane step keeps the promise.** -/
theorem PreparesWatched.step {k : ℕ} {v v' : LaneView τ} (hbal : LanesBalanced v)
    (hv : PreparesWatched v) (h : LaneStep k v v') : PreparesWatched v' := by
  obtain ⟨hroom, hclosed⟩ := hv
  cases h with
  | quiet hf hn =>
      refine ⟨fun hw hz => hroom hw ?_, fun hc => ⟨hf (hclosed hc).1, (hclosed hc).2⟩⟩
      simp only at hz
      omega
  | unpark t =>
      have hsub : v.rt.prepareWake.erase t ≠ [] → v.rt.prepareWake ≠ [] := by
        intro hne hnil
        simp [hnil] at hne
      refine ⟨fun hw => hroom (hsub hw), fun hc => ⟨(hclosed hc).1, ?_⟩⟩
      simp [BackendRuntime.unpark, (hclosed hc).2]
  | grant h =>
      obtain ⟨hlt, -, rfl⟩ := BackendRuntime.schedule_some h
      refine ⟨fun hw hz ha => hroom hw hz ?_, hclosed⟩
      obtain ⟨hwait, hlanes, hprepares⟩ := ha
      exact ⟨hwait, hlt, hprepares⟩
  | enqueue h =>
      obtain ⟨-, rfl⟩ := BackendRuntime.schedule_none h
      refine ⟨fun _ _ ha => ?_, hclosed⟩
      simpa using ha.1
  | permit h => exact ⟨fun hw hz => absurd h (hroom hw hz), hclosed⟩
  | park t h hf =>
      refine ⟨fun _ _ => h, fun hc => ?_⟩
      exact absurd (hclosed hc).1 (by simp [hf])
  | handOver h =>
      -- the lane stays taken, and it was the last one since a task was waiting
      obtain ⟨waiting, hw, rfl⟩ := BackendRuntime.finishLane_some h
      have hfull : v.rt.lanesInUse = v.rt.laneCount := hbal.full (by simp [hw])
      refine ⟨fun _ _ ha => ?_, hclosed⟩
      exact absurd ha.2.1 (by simp [hfull])
  | free h =>
      obtain ⟨-, rfl⟩ := BackendRuntime.finishLane_none h
      exact ⟨fun _ hz => absurd hz (Nat.succ_ne_zero _), hclosed⟩
  | permitHandOver h =>
      obtain ⟨waiting, -, rfl⟩ := BackendRuntime.finishPrepare_some h
      exact ⟨fun _ hz => absurd hz (Nat.succ_ne_zero _), hclosed⟩
  | permitFree h =>
      obtain ⟨-, rfl⟩ := BackendRuntime.finishPrepare_none h
      exact ⟨fun _ hz => absurd hz (Nat.succ_ne_zero _), hclosed⟩
  | drain => exact ⟨fun _ hz => absurd hz (Nat.succ_ne_zero _), hclosed⟩
  | settle => exact ⟨hroom, hclosed⟩
  | notify => exact ⟨fun hw => absurd rfl hw, fun hc => ⟨(hclosed hc).1, rfl⟩⟩
  | close hf => exact ⟨fun hw => absurd rfl hw, fun _ => ⟨hf, rfl⟩⟩

/-- The `notify_all` calls on `prepare_wake` of backend `b` that some thread has still to
issue. -/
def pendingNotifies (b : BackendId) (s : MachineState σ κ τ ν) : ℕ :=
  census (Frame.notifies b) s.threads

/-- Nobody who is parked on `prepare_wake` of backend `b`, whose runtime is `rt`, is
forgotten in the state `s`. -/
structure BlockedPreparesWatched (b : BackendId) (rt : BackendRuntime τ)
    (s : MachineState σ κ τ ν) : Prop where
  /-- A parked caller that nobody is about to notify finds no room. -/
  no_room : ∀ t ∈ rt.prepareWake, pendingNotifies b s = 0 → ¬ rt.Admits
  /-- Somebody holds a lane, and will make room. -/
  holder : ∀ t ∈ rt.prepareWake, pendingNotifies b s = 0 →
    0 < grantedTasks b s + livePermits b s
  /-- After the shutdown of the runtime nobody is parked. -/
  none_after_shutdown : rt.closed = true → rt.prepareWake = []

/-- Without room somebody holds a lane. -/
theorem LanesBalanced.holder_of_full {v : LaneView τ} (hv : LanesBalanced v)
    (h : ¬ v.rt.Admits) : 0 < v.held + v.permits := by
  by_contra hz
  refine h ⟨?_, ?_, ?_⟩
  · by_contra hne
    have hfull := hv.full hne
    have hlanes := hv.lanes
    have hpos := hv.prepareLanes_pos
    have hle := hv.prepareLanes_le
    omega
  · have hlanes := hv.lanes
    have hpos := hv.prepareLanes_pos
    have hle := hv.prepareLanes_le
    omega
  · have hprepares := hv.prepares
    have hpos := hv.prepareLanes_pos
    omega

/-- **A blocked prepare is never forgotten**: for any client of the executor and any
interleaving. -/
theorem blocked_prepare_watched {C : Client σ κ τ ν} {mem : σ} {s : MachineState σ κ τ ν}
    (h : Lts.Reach (Started mem) (machineStep C) s) {b : BackendId} {rt : BackendRuntime τ}
    (hb : s.shared.backends[b]? = some rt) : BlockedPreparesWatched b rt s := by
  obtain ⟨hbal, hwatch⟩ := lane_invariant (k := 0)
    (I := fun v => LanesBalanced v ∧ PreparesWatched v)
    (fun lanes prepares f => ⟨.register lanes prepares f, by
      constructor <;> simp [BackendRuntime.register]⟩)
    (fun _ _ hv hstep => ⟨hv.1.step hstep, hv.2.step hv.1 hstep⟩) h hb
  have hroom : ∀ t ∈ rt.prepareWake, pendingNotifies b s = 0 → ¬ rt.Admits :=
    fun t ht hz => hwatch.no_room (List.ne_nil_of_mem ht) hz
  exact {
    no_room := hroom
    holder := fun t ht hz => hbal.holder_of_full (hroom t ht hz)
    none_after_shutdown := fun hc => (hwatch.closed hc).2 }

/-- A backend whose only lane is taken, with one caller parked in `acquire_prepare`. -/
def probeParked : List (Action ℕ) :=
  [.register 1 1, .spawn 0, .spawn 1, .step 1 0, .step 1 0, .step 2 0, .step 2 0]

/-- The parked caller is watched. -/
theorem blocked_prepare_watched_probe :
    ∃ rt, (probeAfter probeParked).shared.backends[0]? = some rt ∧
      rt.prepareWake = [2] ∧ BlockedPreparesWatched 0 rt (probeAfter probeParked) :=
  ⟨_, rfl, rfl, blocked_prepare_watched (probeAfter_reach rfl) rfl⟩

end Braids
