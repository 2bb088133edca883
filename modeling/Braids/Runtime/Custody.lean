import Mathlib.Data.List.Nodup
import Braids.Runtime.Lifecycle

/-!
# Packets Have One Owner

A packet is in the pool, or one job holds it. `PacketMove` lists what a step of a job can do
with packets, so that no packet is ever in two places (`PacketsOk`). What the job holds on
its account is what lies in its slot or in a local of its task (`Keeps`).

## Main results

* `packetsOk`: packets are never shared, in every reachable state.
* `PacketsOk.isolated`: the packet on the account of a job is its own.
-/

namespace Braids.Runtime

variable {T : Types} {H : Hooks T}

/-! ### Packets -/

/-- What a step of a job can do with packets: the pools and the packet the job holds, before
and after. -/
inductive PacketMove (pools : Pools) (held : Option ℕ) : Pools → Option ℕ → Prop
  | keep : PacketMove pools held pools held
  | drop : PacketMove pools held pools none
  | pop {pkt : Packet} {packets : List Packet} (h : pools.packets = pkt :: packets) :
      PacketMove pools held { pools with packets } (some pkt.serial)
  | create : PacketMove pools held { pools with nextSerial := pools.nextSerial + 1 }
      (some pools.nextSerial)
  | push {pkt : Packet} (h : held = some pkt.serial) :
      PacketMove pools held { pools with packets := pkt.cleared :: pools.packets } none

section Steps

variable {b : BackendId} {pools pools' : Pools} {job job' : Job T} {code : JobCode T}
  {act : ClientAct (JobCode T) JobTask} {ended : Prop}

/-- Checking a packet out moves one. -/
theorem Pools.checkout_moves {statics : List StaticBuffer} {pkt : Packet} {held : Option ℕ}
    (h : pools.checkout statics = (pools', pkt)) :
    PacketMove pools held pools' (some pkt.serial) := by
  rw [Pools.checkout] at h
  split at h
  · next old packets hp =>
      simp only [Prod.mk.injEq] at h
      obtain ⟨rfl, rfl⟩ := h
      change PacketMove pools held _ (some old.serial)
      exact .pop hp
  · simp only [Prod.mk.injEq] at h
    obtain ⟨rfl, rfl⟩ := h
    exact .create

/-- Giving a packet back moves it. -/
theorem giveBackPacket_moves {pkt : Packet} (hc : pools.Clean)
    (hhas : job.Has (.inTask pkt)) (h : giveBackPacket pools job pkt = (pools', job')) :
    PacketMove pools job.holding pools' job'.holding := by
  obtain ⟨rfl, rfl⟩ := giveBackPacket_spec hc.packets h
  exact .push hhas.2.2.2.1

/-- **What a task does with packets.** -/
theorem JobStep.moves (h : JobStep H b pools job code pools' job' act) (hc : pools.Clean)
    (hs : job.Sound) (hf : code.Fits ended job) :
    PacketMove pools job.holding pools' job'.holding := by
  cases h with
  | checkout _ h => exact Pools.checkout_moves h
  | recycle h | giveBackErr h => exact giveBackPacket_moves hc hf.2.1 h
  | giveBackOk _ h | giveBackPoisoned _ h => exact giveBackPacket_moves hc hf.2.2.has h
  | @cleanup again _ _ _ _ h =>
      cases again with
      | true => exact hf.elim
      | false => exact giveBackPacket_moves hc hf.2.1 h
  | finish =>
      unfold Job.finishWith
      rw [if_neg (by simp [hs.unpoisoned])]
      exact .keep
  | scratchPoisoned | encodePanicked | encodedPoisoned | storePoisoned | decodePanicked =>
      exact .drop
  | _ => exact .keep

/-- **What a reject side does with packets.** -/
theorem RejectStep.moves {point : RejectPoint} {next : Option RejectPoint}
    (h : RejectStep pools job point pools' job' next) (hc : pools.Clean) (hf : point.Fits job) :
    PacketMove pools job.holding pools' job'.holding := by
  cases h with
  | giveBack h => exact giveBackPacket_moves hc hf.2 h
  | _ => exact .keep

/-- A job that has called a hook and holds no packet calls no hook any more. -/
theorem JobStep.retired (h : JobStep H b pools job code pools' job' act) (hc : pools.Clean)
    (hs : job.Sound) (hf : code.Fits ended job) (hcalls : job.calls ≠ [])
    (hheld : job.holding = none) : job'.calls = job.calls ∧ job'.holding = none := by
  cases h with
  | checkout => exact (hcalls hf.calls_eq).elim
  | scratch => exact (hcalls hf.calls_eq).elim
  | stageLock h hp =>
      obtain ⟨-, pkt', hat⟩ := hf
      exact (Option.some_ne_none _ (hat.has.2.2.2.1.symm.trans hheld)).elim
  | take h hp =>
      obtain ⟨⟨pkt', hat⟩, -⟩ := hf
      exact (Option.some_ne_none _ (hat.has.2.2.2.1.symm.trans hheld)).elim
  | recycle h | giveBackOk _ h | giveBackPoisoned _ h | giveBackErr h | cleanup h =>
      obtain ⟨-, rfl⟩ := giveBackPacket_spec hc.packets h
      exact ⟨rfl, rfl⟩
  | finish =>
      unfold Job.finishWith
      rw [if_neg (by simp [hs.unpoisoned])]
      exact ⟨rfl, hheld⟩
  | scratchPoisoned | encodePanicked | encodedPoisoned | storePoisoned | decodePanicked =>
      exact ⟨rfl, rfl⟩
  | _ => exact ⟨rfl, hheld⟩

/-- The same for its reject side. -/
theorem RejectStep.retired {point : RejectPoint} {next : Option RejectPoint}
    (h : RejectStep pools job point pools' job' next) (hc : pools.Clean)
    (hheld : job.holding = none) : job'.calls = job.calls ∧ job'.holding = none := by
  cases h with
  | giveBack h =>
      obtain ⟨-, rfl⟩ := giveBackPacket_spec hc.packets h
      exact ⟨rfl, rfl⟩
  | _ => exact ⟨rfl, hheld⟩

end Steps

/-- No packet is in two places. -/
structure PacketsOk (m : Mem T) : Prop where
  nodup : (m.pools.packets.map Packet.serial).Nodup
  old : ∀ pkt ∈ m.pools.packets, pkt.serial < m.pools.nextSerial
  held : ∀ j job n, m.job j = some job → job.holding = some n →
    n < m.pools.nextSerial ∧ n ∉ m.pools.packets.map Packet.serial
  exclusive : ∀ i j job job' n, m.job i = some job → m.job j = some job' →
    job.holding = some n → job'.holding = some n → i = j

section Stack

variable {m m' : Mem T} {R : Soup (Code T) Task RejectCode}

/-- A step of a job keeps packets apart. -/
theorem PacketsOk.move (h : PacketsOk m) {j : JobId} {job job' : Job T} {pools : Pools}
    (hj : m.job j = some job) (hmove : PacketMove m.pools job.holding pools job'.holding) :
    PacketsOk { m.setJob j job' with pools } := by
  have hjobs : ∀ {i : JobId} {other : Job T}, (m.setJob j job').job i = some other →
      (i = j ∧ other = job') ∨ (i ≠ j ∧ m.job i = some other) := by
    intro i other hi
    rw [Mem.setJob_job] at hi
    split at hi
    · next hij => exact .inl ⟨hij, (Option.some.inj hi).symm⟩
    · next hij => exact .inr ⟨hij, hi⟩
  obtain ⟨held', hheld'⟩ : ∃ held', job'.holding = held' := ⟨_, rfl⟩
  rw [hheld'] at hmove
  -- what the job holds now is neither in the pool nor with anybody else
  have hown : ∀ n, job'.holding = some n → n < pools.nextSerial ∧
      n ∉ pools.packets.map Packet.serial ∧
      ∀ i other, i ≠ j → m.job i = some other → other.holding ≠ some n := by
    intro n hn
    rw [hheld'] at hn
    have hkept : job.holding = some n → ∀ i other, i ≠ j → m.job i = some other →
        other.holding ≠ some n :=
      fun hold i other hij hi ho => hij (h.exclusive i j other job n hi hj ho hold)
    cases hmove with
    | keep => exact ⟨(h.held j job n hj hn).1, (h.held j job n hj hn).2, hkept hn⟩
    | drop | push => simp at hn
    | @pop pkt packets hp =>
        obtain rfl := Option.some.inj hn
        have hnodup := h.nodup
        rw [hp, List.map_cons, List.nodup_cons] at hnodup
        refine ⟨h.old pkt (by simp [hp]), hnodup.1, fun i other _ hi ho => ?_⟩
        exact (h.held i other _ hi ho).2 (by simp [hp])
    | create =>
        obtain rfl := Option.some.inj hn
        refine ⟨Nat.lt_succ_self _, fun hmem => ?_, fun i other _ hi ho => ?_⟩
        · obtain ⟨pkt, hpkt, hserial⟩ := List.mem_map.mp hmem
          have hlt := h.old pkt hpkt
          omega
        · have hlt := (h.held i other _ hi ho).1
          omega
  -- what others hold is not touched
  have hothers : ∀ i other n, i ≠ j → m.job i = some other → other.holding = some n →
      n < pools.nextSerial ∧ n ∉ pools.packets.map Packet.serial := by
    intro i other n hij hi hn
    obtain ⟨hlt, hout⟩ := h.held i other n hi hn
    cases hmove with
    | keep | drop => exact ⟨hlt, hout⟩
    | pop hp =>
        rw [hp, List.map_cons, List.mem_cons, not_or] at hout
        exact ⟨hlt, hout.2⟩
    | create => exact ⟨hlt.trans (Nat.lt_succ_self _), hout⟩
    | @push pkt hheld =>
        refine ⟨hlt, fun hmem => ?_⟩
        simp only [List.map_cons, List.mem_cons] at hmem
        rcases hmem with rfl | hmem
        · exact hij (h.exclusive i j other job _ hi hj hn hheld)
        · exact hout hmem
  refine ⟨?_, ?_, ?_, ?_⟩
  · cases hmove with
    | keep | drop | create => exact h.nodup
    | pop hp =>
        have hnodup := h.nodup
        rw [hp, List.map_cons, List.nodup_cons] at hnodup
        exact hnodup.2
    | push hheld =>
        rw [List.map_cons, List.nodup_cons]
        exact ⟨(h.held j job _ hj hheld).2, h.nodup⟩
  · intro pkt hpkt
    cases hmove with
    | keep | drop => exact h.old pkt hpkt
    | create => exact (h.old pkt hpkt).trans (Nat.lt_succ_self _)
    | pop hp => exact h.old pkt (by simp [hp, hpkt])
    | push hheld =>
        rcases List.mem_cons.mp hpkt with rfl | hpkt
        · exact (h.held j job _ hj hheld).1
        · exact h.old pkt hpkt
  · intro i other n hi hn
    rcases hjobs hi with ⟨rfl, rfl⟩ | ⟨hij, hi⟩
    · exact ⟨(hown n hn).1, (hown n hn).2.1⟩
    · exact hothers i other n hij hi hn
  · intro i k job₁ job₂ n hi hk hin hkn
    rcases hjobs hi with ⟨hij, hjob₁⟩ | ⟨hij, hi'⟩ <;>
      rcases hjobs hk with ⟨hkj, hjob₂⟩ | ⟨hkj, hk'⟩
    · rw [hij, hkj]
    · exact ((hown n (hjob₁ ▸ hin)).2.2 k job₂ hkj hk' hkn).elim
    · exact ((hown n (hjob₂ ▸ hkn)).2.2 i job₁ hij hi' hin).elim
    · exact h.exclusive i k job₁ job₂ n hi' hk' hin hkn

/-- Jobs that hold what they held, or nothing, keep packets apart. -/
theorem PacketsOk.of_jobs (h : PacketsOk m) (hpools : m'.pools = m.pools)
    (hjobs : ∀ i other, m'.job i = some other → other.holding = none ∨
      ∃ old, m.job i = some old ∧ other.holding = old.holding) : PacketsOk m' := by
  have hback : ∀ i other n, m'.job i = some other → other.holding = some n →
      ∃ old, m.job i = some old ∧ old.holding = some n := by
    intro i other n hi hn
    rcases hjobs i other hi with hnone | ⟨old, hold, hsame⟩
    · simp [hn] at hnone
    · exact ⟨old, hold, hsame ▸ hn⟩
  refine ⟨hpools ▸ h.nodup, hpools ▸ h.old, ?_, ?_⟩
  · intro i other n hi hn
    obtain ⟨old, hold, hheld⟩ := hback i other n hi hn
    rw [hpools]
    exact h.held i old n hold hheld
  · intro i k job₁ job₂ n hi hk hin hkn
    obtain ⟨old₁, hold₁, hheld₁⟩ := hback i job₁ n hi hin
    obtain ⟨old₂, hold₂, hheld₂⟩ := hback k job₂ n hk hkn
    exact h.exclusive i k old₁ old₂ n hold₁ hold₂ hheld₁ hheld₂

/-- Overwriting a job that holds what it held keeps packets apart. -/
theorem PacketsOk.setJob (h : PacketsOk m) {j : JobId} {job job' : Job T}
    (hj : m.job j = some job) (hjob : m'.job = (m.setJob j job').job)
    (hpools : m'.pools = m.pools) (hheld : job'.holding = job.holding) : PacketsOk m' := by
  refine h.of_jobs hpools fun i other hi => .inr ?_
  rw [hjob, Mem.setJob_job] at hi
  split at hi
  · next hij =>
      obtain rfl := Option.some.inj hi
      exact ⟨job, hij ▸ hj, hheld⟩
  · exact ⟨other, hi, rfl⟩

/-- **A step of the stack** keeps packets apart. -/
theorem StackStep.packets {self : ThreadId} {code : Code T} {act : ClientAct (Code T) Task}
    (hok : JobsOk m ({.code code} + R)) (hp : PacketsOk m)
    (h : StackStep H self m code m' act) : PacketsOk m' := by
  cases h with
  | dispatchId =>
      refine hp.of_jobs rfl fun i other hi => ?_
      change (m.setJob _ _).job i = some other at hi
      rw [Mem.setJob_job] at hi
      split at hi
      · obtain rfl := Option.some.inj hi
        exact .inl rfl
      · exact .inr ⟨other, hi, rfl⟩
  | @task j code job job' pools act hj hstep =>
      have hjob := hok.job j job hj
      have hf := hjob.fits (.code (.task j code)) (by simp) rfl
      exact hp.move hj (hstep.moves hok.pools hjob.sound hf)
  | insertPoisoned hj | dispatchOk hj | dispatchErr hj | collectTake hj | collectPark hj
  | collectWoken hj | cancel hj => exact hp.setJob hj rfl rfl rfl
  | _ => exact hp.of_jobs rfl fun i other hi => .inr ⟨other, hi, rfl⟩

/-- **A step of a reject side** keeps packets apart. -/
theorem StackReject.packets {code : RejectCode} {next : Option RejectCode}
    (hok : JobsOk m ({.rejecting code} + R)) (hp : PacketsOk m)
    (h : StackReject m code m' next) : PacketsOk m' := by
  cases h with
  | @on j point next job job' pools hj hstep =>
      have hf : point.Fits job := (hok.job j job hj).fits (.rejecting ⟨j, point⟩) (by simp) rfl
      exact hp.move hj (hstep.moves hok.pools hf)
  | @done j point job job' pools hj hstep =>
      have hf : point.Fits job := (hok.job j job hj).fits (.rejecting ⟨j, point⟩) (by simp) rfl
      have hmoved := hp.move hj (hstep.moves hok.pools hf)
      exact ⟨hmoved.nodup, hmoved.old, hmoved.held, hmoved.exclusive⟩
  | gone => exact ⟨hp.nodup, hp.old, hp.held, hp.exclusive⟩

/-- **Packets are never shared**, in every reachable state. -/
theorem packetsOk {s : MachineState (Mem T) (Code T) Task RejectCode} (h : Reached H s) :
    PacketsOk s.shared.client := by
  refine h.invariant (I := fun v => PacketsOk v.1) ?_ ?_
  · intro b state compiled prepared
    exact ⟨List.nodup_nil, by simp [Mem.create], by simp [Mem.create], by simp [Mem.create]⟩
  · intro v v' _ hjobs hp hstep
    cases hstep with
    | step hs => exact (stackStep_cases hs).packets (singleton_add_points hjobs) hp
    | rejectOn hs | rejectDone hs =>
        exact (rejectStep_cases hs).packets (singleton_add_points hjobs) hp
    | _ => exact hp

end Stack

/-! ### What jobs hold -/

/-- The packet in a local of the task at the program point, or borrowed by it. -/
def JobCode.packet? : JobCode T → Option Packet
  | .scratch pkt | .encodeHook pkt | .encoded pkt _ | .recycle pkt _ | .store pkt
  | .stageHook _ _ pkt | .decodeHook pkt | .giveBack pkt _ | .cleanup _ pkt _ => some pkt
  | _ => none

/-- The same for the points of the soup. -/
def StackPoint.packet? : StackPoint T → Option Packet
  | .code (.task _ code) => code.packet?
  | .rejecting ⟨_, .giveBack pkt _⟩ => some pkt
  | _ => none

/-- Job `j` holds the packet: in its slot, or in one of its tasks. -/
def Keeps (m : Mem T) (P : Soup (Code T) Task RejectCode) (j : JobId) (n : ℕ) : Prop :=
  (∃ job pkt, m.job j = some job ∧ job.packet = some pkt ∧ pkt.serial = n) ∨
    ∃ p ∈ P, StackPoint.owner p = some j ∧ ∃ pkt, StackPoint.packet? p = some pkt ∧
      pkt.serial = n

/-- Neither the pool nor any job but `j` holds the packet. -/
def Exclusive (m : Mem T) (P : Soup (Code T) Task RejectCode) (j : JobId) (n : ℕ) : Prop :=
  (∀ pkt ∈ m.pools.packets, pkt.serial ≠ n) ∧ ∀ i, Keeps m P i n → i = j

section Holding

variable {job : Job T} {ended : Prop} {custody : Custody} {pkt : Packet}

/-- The packet in its slot is the one that the job holds. -/
theorem Job.Has.holding_of_slot (h : job.Has custody) (hpkt : job.packet = some pkt) :
    job.holding = some pkt.serial := by
  cases custody with
  | inSlot p | lent p =>
      obtain ⟨-, -, hp, hheld, -⟩ := h
      rw [hheld, Option.some.inj (hp.symm.trans hpkt)]
  | buried =>
      obtain ⟨-, -, p, hp, hheld, -⟩ := h
      rw [hheld, Option.some.inj (hp.symm.trans hpkt)]
  | untouched | inTask | givenBack | lost =>
      obtain ⟨-, -, hp, -⟩ := h
      simp [hp] at hpkt

/-- The packet that the job holds is the only one that it has checked out. -/
theorem Job.Has.checkedOut {n : ℕ} (h : job.Has custody) (hheld : job.holding = some n) :
    job.checkedOut = [n] := by
  cases custody with
  | inSlot p | lent p | inTask p =>
      obtain ⟨-, -, -, hp, hout, -⟩ := h
      rw [hout, Option.some.inj (hp.symm.trans hheld)]
  | buried =>
      obtain ⟨-, -, p, -, hp, hout, -⟩ := h
      rw [hout, Option.some.inj (hp.symm.trans hheld)]
  | untouched | givenBack | lost =>
      obtain ⟨-, -, -, hp, -⟩ := h
      simp [hp] at hheld

/-- The packet of a job is somewhere while its task is under way. -/
theorem JobCode.Fits.has {code : JobCode T} (h : code.Fits ended job) (hw : code.carries = 1) :
    ∃ custody : Custody, job.Has custody := by
  have hready : ∀ {next}, job.Ready next → ∃ custody : Custody, job.Has custody := by
    intro next hnext
    obtain ⟨pkt, hhas⟩ := hnext.inSlot
    exact ⟨_, hhas⟩
  cases code with
  | encode | mark | checkout | scratch | encodeHook | encoded | store =>
      have hat : job.At _ _ _ _ := h
      exact ⟨_, hat.has⟩
  | recycle => exact ⟨_, h.2.1⟩
  | schedule next => exact hready (show job.Ready next from h)
  | stage i | stageLock i => exact hready (show job.Ready (.stage i) from h)
  | stageHook => exact ⟨_, h.2.has⟩
  | decode => exact hready (show job.Ready .decode from h)
  | take => exact hready h.1
  | decodeHook => exact ⟨_, h.2.has⟩
  | giveBack pkt result =>
      cases result with
      | error => exact ⟨_, h.2.1⟩
      | ok => exact ⟨_, h.2.2.has⟩
  | finishCompleted =>
      obtain ⟨-, -, n, -, hat⟩ := h
      exact ⟨_, hat.has⟩
  | refused next =>
      cases next with
      | stage i => simp [JobCode.carries] at hw
      | encode => exact h.2.elim
      | decode => exact hready h.2
  | caught again | finish again =>
      cases again with
      | true => simp [JobCode.carries] at hw
      | false =>
          obtain ⟨custody, hrest⟩ := h
          first
            | exact ⟨custody, hrest.1.2.1⟩
            | exact ⟨custody, hrest.2.2.1⟩
  | cleanup again =>
      cases again with
      | true => exact h.elim
      | false => exact ⟨_, h.2.1⟩
  | await | released | ended => simp [JobCode.carries] at hw

/-- The packet of a job is somewhere while the point is responsible for it. -/
theorem StackPoint.Fits.has {p : StackPoint T} (h : StackPoint.Fits ended job p)
    (hw : 0 < StackPoint.carries p) : ∃ custody : Custody, job.Has custody := by
  cases p with
  | code code =>
      cases code with
      | dispatchInsert | dispatchSubmit | dispatchErr => exact ⟨_, Job.At.has h⟩
      | task j code =>
          have hf : code.Fits ended job := h
          refine hf.has ?_
          have hpos : 0 < code.carries := hw
          unfold JobCode.carries at hpos ⊢
          split <;> simp_all
      | _ => simp [StackPoint.carries, Code.carries] at hw
  | task t =>
      obtain ⟨j, kind⟩ := t
      cases kind with
      | encode => exact ⟨_, Job.At.has h⟩
      | stage i => exact h.elim
      | decode =>
          obtain ⟨pkt, hhas⟩ := Job.Ready.inSlot (show job.Ready .decode from h)
          exact ⟨_, hhas⟩
  | scheduled t =>
      obtain ⟨i, -, hready⟩ := h
      obtain ⟨pkt, hhas⟩ := hready.inSlot
      exact ⟨_, hhas⟩
  | rejecting code =>
      obtain ⟨j, point⟩ := code
      cases point with
      | take =>
          obtain ⟨i, hready⟩ := h
          obtain ⟨pkt, hhas⟩ := hready.inSlot
          exact ⟨_, hhas⟩
      | giveBack | fail => exact ⟨_, h.2⟩
  | hook => exact h.elim

/-- The packet at a point of a job is the one that the job holds. -/
theorem StackPoint.Fits.holding {p : StackPoint T} (h : StackPoint.Fits ended job p)
    (hpkt : StackPoint.packet? p = some pkt) : job.holding = some pkt.serial := by
  unfold StackPoint.packet? at hpkt
  split at hpkt
  · next j code =>
      have hf : code.Fits ended job := h
      cases code with
      | cleanup again =>
          obtain rfl := Option.some.inj hpkt
          cases again with
          | true => exact hf.elim
          | false => exact hf.2.1.2.2.2.1
      | giveBack p result =>
          obtain rfl := Option.some.inj hpkt
          cases result with
          | error => exact hf.2.1.2.2.2.1
          | ok => exact hf.2.2.has.2.2.2.1
      | recycle =>
          obtain rfl := Option.some.inj hpkt
          exact hf.2.1.2.2.2.1
      | stageHook | decodeHook =>
          obtain rfl := Option.some.inj hpkt
          exact hf.2.has.2.2.2.1
      | scratch | encodeHook | encoded | store =>
          obtain rfl := Option.some.inj hpkt
          have hat : job.At _ _ _ _ := hf
          exact hat.has.2.2.2.1
      | _ => simp [JobCode.packet?] at hpkt
  · next j p error =>
      obtain rfl := Option.some.inj hpkt
      exact h.2.2.2.2.1
  · simp at hpkt

end Holding

section Exclusive

variable {m : Mem T} {P : Soup (Code T) Task RejectCode} {rej : List JobId} {i j : JobId}
  {job : Job T} {n : ℕ}

/-- The packet of a job in order is somewhere. -/
theorem JobOk.has (h : JobOk rej P j job) : ∃ custody : Custody, job.Has custody := by
  by_cases hover : job.Over
  · have hset := h.settled hover
    rw [Job.Settled] at hset
    split at hset
    · exact ⟨_, hset.has⟩
    · exact hset.elim
    · exact ⟨_, hset.1⟩
    · obtain ⟨⟨custody, -, hhas⟩, -⟩ := hset
      exact ⟨custody, hhas⟩
    · obtain ⟨⟨custody, -, hhas⟩, -⟩ := hset
      exact ⟨custody, hhas⟩
  · have hsum := h.carried
    rw [if_neg hover] at hsum
    have hpos : 0 < share StackPoint.carries j P := by omega
    obtain ⟨p, hp, hown, hw⟩ := exists_of_share_pos hpos
    exact (h.fits p hp hown).has hw

/-- What a job holds is on its account. -/
theorem Keeps.holding (hk : Keeps m P i n) (hok : JobsOk m P) :
    ∃ job, m.job i = some job ∧ job.holding = some n := by
  rcases hk with ⟨job, pkt, hi, hpkt, rfl⟩ | ⟨p, hp, hown, pkt, hpkt, rfl⟩
  · obtain ⟨custody, hhas⟩ := (hok.job i job hi).has
    exact ⟨job, hi, hhas.holding_of_slot hpkt⟩
  · obtain ⟨job, hi⟩ := Option.ne_none_iff_exists'.mp (hok.owned p hp i hown)
    exact ⟨job, hi, ((hok.job i job hi).fits p hp hown).holding hpkt⟩

/-- The packet on the account of a job is its own. -/
theorem PacketsOk.isolated (h : PacketsOk m) (hok : JobsOk m P) (hj : m.job j = some job)
    (hheld : job.holding = some n) : Exclusive m P j n := by
  refine ⟨fun pkt hpkt hn => ?_, fun i hk => ?_⟩
  · exact (h.held j job n hj hheld).2 (List.mem_map.mpr ⟨pkt, hpkt, hn⟩)
  · obtain ⟨other, hi, hother⟩ := hk.holding hok
    exact h.exclusive i j other job n hi hj hother hheld

end Exclusive

end Braids.Runtime
