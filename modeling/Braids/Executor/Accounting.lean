import Braids.Executor.Lanes

/-!
# Lane Accounting

The counters of a backend mean what their names say: in every reachable state
`lanes_in_use` is the number of granted and unfinished stage tasks plus the number of live
prepare permits, and `prepares_in_use` is the number of live permits. Both stay within
their limits, so the saturating subtractions of `executor.rs` never saturate.

## Main results

* `LanesBalanced.step`: every lane step keeps the accounting.
* `lanes_accounted`: it holds of every backend in every reachable state.
* `running_le_laneCount`: at most `lane_count` stages and prepares run at once.
-/

namespace Braids

open Census

variable {σ κ τ ν : Type}

/-- The accounting of one backend. -/
structure LanesBalanced (v : LaneView τ) : Prop where
  lanes : v.rt.lanesInUse = v.held + v.permits
  prepares : v.rt.preparesInUse = v.permits
  lanes_le : v.rt.lanesInUse ≤ v.rt.laneCount
  prepares_le : v.rt.preparesInUse ≤ v.rt.prepareLaneCount
  prepareLanes_le : v.rt.prepareLaneCount ≤ v.rt.laneCount
  prepareLanes_pos : 0 < v.rt.prepareLaneCount
  full : v.rt.waiting ≠ [] → v.rt.lanesInUse = v.rt.laneCount

/-- Registration clamps both limits and starts with nothing outstanding. -/
theorem LanesBalanced.register (lanes prepares : ℕ) (f : Bool) :
    LanesBalanced (τ := τ) ⟨.register lanes prepares, f, 0, 0, 0, 0⟩ := by
  constructor <;> simp only [BackendRuntime.register] <;> first | omega | simp

/-- **Every lane step keeps the accounting.** -/
theorem LanesBalanced.step {k : ℕ} {v v' : LaneView τ} (hv : LanesBalanced v)
    (h : LaneStep k v v') : LanesBalanced v' := by
  obtain ⟨hl, hp, hll, hpl, hpp, hpos, hfull⟩ := hv
  cases h with
  | quiet | unpark | settle | park | notify | close =>
      exact ⟨hl, hp, hll, hpl, hpp, hpos, hfull⟩
  | grant h =>
      obtain ⟨hlt, -, rfl⟩ := BackendRuntime.schedule_some h
      have hw : v.rt.waiting = [] := by
        by_contra hne
        exact absurd (hfull hne) (Nat.ne_of_lt hlt)
      constructor <;> simp only [hw] <;> first | omega | simp
  | enqueue h =>
      obtain ⟨hle, rfl⟩ := BackendRuntime.schedule_none h
      exact ⟨hl, hp, hll, hpl, hpp, hpos, fun _ => le_antisymm hll hle⟩
  | permit h =>
      obtain ⟨hw, hlt, hplt⟩ := h
      constructor <;> simp only [BackendRuntime.permit, hw] <;> first | omega | simp
  | handOver h =>
      obtain ⟨waiting, hw, rfl⟩ := BackendRuntime.finishLane_some h
      have heq : v.rt.lanesInUse = v.rt.laneCount := hfull (by simp [hw])
      exact ⟨hl, hp, hll, hpl, hpp, hpos, fun _ => heq⟩
  | free h hh =>
      obtain ⟨hw, rfl⟩ := BackendRuntime.finishLane_none h
      constructor <;> simp only [hw] <;> first | omega | simp
  | permitHandOver h hh =>
      obtain ⟨waiting, hw, rfl⟩ := BackendRuntime.finishPrepare_some h
      have heq : v.rt.lanesInUse = v.rt.laneCount := hfull (by simp [hw])
      constructor <;> simp only <;> omega
  | permitFree h hh =>
      obtain ⟨hw, rfl⟩ := BackendRuntime.finishPrepare_none h
      constructor <;> simp only [hw] <;> first | omega | simp
  | drain =>
      constructor <;> simp only [BackendRuntime.drain] <;> first | assumption | simp

/-- The accounting holds of every backend in every reachable state. -/
theorem lanesBalanced {C : Client σ κ τ ν} {mem : σ} {s : MachineState σ κ τ ν}
    (h : Lts.Reach (Started mem) (machineStep C) s) {b : BackendId} {rt : BackendRuntime τ}
    (hb : s.shared.backends[b]? = some rt) (k : ℕ) : LanesBalanced (laneView b k rt s) :=
  lane_invariant LanesBalanced.register (fun _ _ => LanesBalanced.step) h hb

/-! ### What the accounting says of a state -/

/-- The granted and unfinished stage tasks of backend `b`: not yet wrapped or submitted,
queued in the executor, running, or about to be rejected. -/
def grantedTasks (b : BackendId) (s : MachineState σ κ τ ν) : ℕ :=
  census (Frame.holds b) s.threads + weight (Runnable.holds b) s.shared.queue

/-- The live `PreparePermit`s of backend `b`. -/
def livePermits (b : BackendId) (s : MachineState σ κ τ ν) : ℕ :=
  census (Frame.permits b) s.threads

/-- The frame waits for a stage task of backend `b`, or for its `prepare`, to end. -/
def Frame.runs (b : BackendId) : Frame κ τ ν → ℕ
  | .finishLane b' | .permitHeld b' => if b' = b then 1 else 0
  | _ => 0

/-- The stages and prepares that run on backend `b` right now. -/
def running (b : BackendId) (s : MachineState σ κ τ ν) : ℕ :=
  census (Frame.runs b) s.threads

/-- The subtractions that a thread at frame `f` is about to make on the counters of
backend `b` do not saturate. -/
def Frame.Covered (b : BackendId) (rt : BackendRuntime τ) : Frame κ τ ν → Prop
  | .finishLane b' => b' = b → 0 < rt.lanesInUse
  | .finishPrepare b' _ => b' = b → 0 < rt.lanesInUse ∧ 0 < rt.preparesInUse
  | _ => True

/-- Lane accounting of backend `b`, whose runtime is `rt`, in the state `s`. -/
structure LanesAccounted (b : BackendId) (rt : BackendRuntime τ) (s : MachineState σ κ τ ν) :
    Prop where
  lanesInUse_eq : rt.lanesInUse = grantedTasks b s + livePermits b s
  preparesInUse_eq : rt.preparesInUse = livePermits b s
  lanesInUse_le : rt.lanesInUse ≤ rt.laneCount
  preparesInUse_le : rt.preparesInUse ≤ rt.prepareLaneCount
  prepareLaneCount_le : rt.prepareLaneCount ≤ rt.laneCount
  full_of_waiting : rt.waiting ≠ [] → rt.lanesInUse = rt.laneCount
  never_saturates : ∀ st ∈ s.threads, ∀ f ∈ st, f.Covered b rt
  running_le : running b s ≤ rt.laneCount

/-- What runs holds a lane. -/
theorem running_le_holders (b : BackendId) (s : MachineState σ κ τ ν) :
    running b s ≤ grantedTasks b s + livePermits b s := by
  have hframe : ∀ f : Frame κ τ ν, f.runs b ≤ f.holds b + f.permits b := by
    intro f
    cases f <;> simp [Frame.runs]
  have hthreads := census_mono hframe s.threads
  rw [census_add] at hthreads
  rw [running, grantedTasks, livePermits]
  omega

/-- A frame that is about to give back a lane or a permit is counted. -/
theorem Frame.covered {b : BackendId} {rt : BackendRuntime τ} {s : MachineState σ κ τ ν}
    (hl : rt.lanesInUse = grantedTasks b s + livePermits b s)
    (hp : rt.preparesInUse = livePermits b s) {st : List (Frame κ τ ν)} (hst : st ∈ s.threads)
    {f : Frame κ τ ν} (hf : f ∈ st) : f.Covered b rt := by
  have hheld := le_census (w := Frame.holds b) hst hf
  have hpermits := le_census (w := Frame.permits b) hst hf
  rw [grantedTasks, livePermits] at hl
  rw [livePermits] at hp
  cases f with
  | finishLane b' =>
      rintro rfl
      simp only [Frame.holds, if_pos] at hheld
      omega
  | finishPrepare b' result =>
      rintro rfl
      simp only [Frame.permits, if_pos] at hpermits
      omega
  | _ => trivial

/-- **Lane accounting**: for any client of the executor and any interleaving, the counters
of every registered backend are exact and within their limits. -/
theorem lanes_accounted {C : Client σ κ τ ν} {mem : σ} {s : MachineState σ κ τ ν}
    (h : Lts.Reach (Started mem) (machineStep C) s) {b : BackendId} {rt : BackendRuntime τ}
    (hb : s.shared.backends[b]? = some rt) : LanesAccounted b rt s := by
  have hbal := lanesBalanced h hb 0
  have hlanes : rt.lanesInUse = grantedTasks b s + livePermits b s := hbal.lanes
  have hprepares : rt.preparesInUse = livePermits b s := hbal.prepares
  have hrunning := running_le_holders b s
  have hle : rt.lanesInUse ≤ rt.laneCount := hbal.lanes_le
  exact {
    lanesInUse_eq := hlanes
    preparesInUse_eq := hprepares
    lanesInUse_le := hle
    preparesInUse_le := hbal.prepares_le
    prepareLaneCount_le := hbal.prepareLanes_le
    full_of_waiting := hbal.full
    never_saturates := fun st hst f hf => Frame.covered hlanes hprepares hst hf
    running_le := by omega }

/-! ### A caller to try it on -/

/-- A caller that schedules a task, prepares, and shuts the executor down. -/
def probe : Client Unit ℕ Unit Unit where
  step _ _ _ code :=
    match code with
    | 0 => some ((), .schedule 0 () 1)
    | 1 => some ((), .prepare 0 3 2)
    | 2 => some ((), .shutdown 3)
    | _ => some ((), .ret .ok)
  resume code _ := code
  run _ := 3
  reject _ _ := ()
  rejectStep _ _ := ((), none)
  entry _ := true

/-- The state after some actions, from an executor with one worker. -/
def probeAfter (actions : List (Action ℕ)) : MachineState Unit ℕ Unit Unit :=
  (Lts.runs (machineStep probe) (fun _ _ => True) (.start () 1) actions).getD (.start () 1)

/-- Actions that can be taken reach the state after them. -/
theorem probeAfter_reach {actions : List (Action ℕ)}
    (h : (Lts.runs (machineStep probe) (fun _ _ => True) (.start () 1) actions).isSome) :
    Lts.Reach (Started ()) (machineStep probe) (probeAfter actions) := by
  obtain ⟨s, hs⟩ := Option.isSome_iff_exists.mp h
  rw [probeAfter, hs]
  exact .of_runs actions ⟨1, rfl⟩ hs

/-- A backend with one lane, one granted task and one waiting task. -/
def probeContended : List (Action ℕ) :=
  [.register 1 1, .spawn 0, .spawn 0, .step 1 0, .step 1 0, .step 2 0, .step 2 0]

/-- Lane accounting with one task granted and one waiting. -/
theorem lanes_accounted_probe :
    ∃ rt, (probeAfter probeContended).shared.backends[0]? = some rt ∧
      rt.waiting.length = 1 ∧ LanesAccounted 0 rt (probeAfter probeContended) :=
  ⟨_, rfl, rfl, lanes_accounted (probeAfter_reach rfl) rfl⟩

end Braids
