import Braids.Runtime.History
import Braids.Runtime.Custody

/-!
# What Holds of Every Packet

Packets are recycled: a job may be handed a packet that jobs of other versions have used. A
property that new packets have, and that clearing a packet, loading static buffers and the
hooks keep (`PacketRule`), holds of every packet, wherever it is.

## Main results

* `JobStep.keeps`: what a task does with the packets it can reach.
* `packetsHold_step`: every step of the soup keeps a rule of all packets.
-/

namespace Braids.Runtime

variable {T : Types} {H : Hooks T}

/-- A property of packets that every call on them keeps, for versions with property `V`. -/
structure PacketRule (H : Hooks T) (V : Version T → Prop) (I : PacketData → Prop) : Prop where
  fresh : I .fresh
  clear : ∀ p, I p → I p.clearForReuse
  load : ∀ version, V version → ∀ buffer ∈ version.compiled.staticBuffers, ∀ p, I p →
    I (p.loadStaticBuffer buffer)
  encode : ∀ version, V version → ∀ n queries p, I p →
    I (H.encodeBatch n version.compiled queries p).2
  runStage : ∀ version, V version → ∀ n i stage p cancel, I p →
    I (H.runStage n version.prepared i stage p cancel).2.1

section Rule

variable {V : Version T → Prop} {I : PacketData → Prop} (rule : PacketRule H V I)
include rule

/-- What a job starts with. -/
theorem PacketRule.start {version : Version T} (hV : V version) {p : PacketData} (hp : I p) :
    I (p.start version.compiled.staticBuffers) := by
  have hload : ∀ statics : List StaticBuffer,
      (∀ buffer ∈ statics, buffer ∈ version.compiled.staticBuffers) →
        ∀ q, I q → I (statics.foldl PacketData.loadStaticBuffer q) := by
    intro statics hstatics
    induction statics with
    | nil => exact fun q hq => hq
    | cons buffer rest ih =>
        intro q hq
        exact ih (fun other ho => hstatics other (List.mem_cons_of_mem _ ho)) _
          (rule.load version hV buffer (hstatics buffer List.mem_cons_self) q hq)
  exact hload _ (fun _ => id) _ (rule.clear p hp)

/-- Giving a packet back. -/
theorem PacketRule.giveBack {pools pools' : Pools} {job job' : Job T} {pkt : Packet}
    (hpool : ∀ old ∈ pools.packets, I old.data) (hpkt : I pkt.data)
    (h : giveBackPacket pools job pkt = (pools', job')) :
    (∀ old ∈ pools'.packets, I old.data) ∧ job'.packet = job.packet := by
  rw [giveBackPacket] at h
  split at h <;> simp only [Prod.mk.injEq] at h <;> obtain ⟨rfl, rfl⟩ := h
  · exact ⟨hpool, rfl⟩
  · refine ⟨fun old hold => ?_, rfl⟩
    rcases List.mem_cons.mp hold with rfl | hold
    · exact rule.clear _ hpkt
    · exact hpool old hold

/-- Checking a packet out. -/
theorem PacketRule.checkout {pools pools' : Pools} {version : Version T} (hV : V version)
    {pkt : Packet} (hpool : ∀ old ∈ pools.packets, I old.data)
    (h : pools.checkout version.compiled.staticBuffers = (pools', pkt)) :
    (∀ old ∈ pools'.packets, I old.data) ∧ I pkt.data := by
  rw [Pools.checkout] at h
  split at h
  · next first packets hfirst =>
      rw [Prod.mk.injEq] at h
      obtain ⟨rfl, rfl⟩ := h
      rw [hfirst] at hpool
      exact ⟨fun old hold => hpool old (List.mem_cons_of_mem _ hold),
        rule.start hV (hpool first List.mem_cons_self)⟩
  · rw [Prod.mk.injEq] at h
    obtain ⟨rfl, rfl⟩ := h
    exact ⟨hpool, rule.start hV rule.fresh⟩

end Rule

/-! ### One step -/

section Steps

variable {V : Version T → Prop} {I : PacketData → Prop} {b : BackendId} {n : ℕ}
  {pools pools' : Pools} {job job' : Job T} {code : JobCode T}
  {act : ClientAct (JobCode T) JobTask}

/-- What `run_stage_once` leaves in the slot. -/
theorem stage_leaves {i : ℕ} {stage : StageSpec} {pkt : Packet}
    (h : jobStep H b n pools job (.stageHook i stage pkt) = some (pools', job', act)) :
    pools' = pools ∧ job'.packet = some { pkt with
      data := (H.runStage n job.version.prepared i stage pkt.data job.record.cancel).2.1 } := by
  simp only [jobStep] at h
  split at h
  · simp only [Option.some.injEq, Prod.mk.injEq] at h
    obtain ⟨rfl, rfl, -⟩ := h
    exact ⟨rfl, rfl⟩
  · simp only [Option.some.injEq, Prod.mk.injEq] at h
    obtain ⟨rfl, rfl, -⟩ := h
    exact ⟨rfl, rfl⟩
  · split at h <;> simp only [Option.some.injEq, Prod.mk.injEq] at h <;>
      obtain ⟨rfl, rfl, -⟩ := h <;> exact ⟨rfl, rfl⟩

/-- The packets that are left after a step of a task of job `j`, and where it goes on. -/
structure Kept (I : PacketData → Prop) (pools : Pools) (job : Job T) (j : JobId)
    (act : ClientAct (JobCode T) JobTask) : Prop where
  pool : ∀ pkt ∈ pools.packets, I pkt.data
  slot : ∀ pkt, job.packet = some pkt → I pkt.data
  next : ∀ q ∈ taskPoints j act, ∀ pkt, StackPoint.packet? q = some pkt → I pkt.data

/-- A step that goes on without a packet. -/
theorem Kept.drop {j : JobId} (hpool : ∀ pkt ∈ pools.packets, I pkt.data)
    (hslot : ∀ pkt, job.packet = some pkt → I pkt.data) (hcode : code.packet? = none) :
    Kept I pools job j (.goto code) := by
  refine ⟨hpool, hslot, fun q hq pkt hpkt => ?_⟩
  obtain rfl := Multiset.mem_singleton.mp hq
  simp [StackPoint.packet?, hcode] at hpkt

/-- A step that goes on with a packet. -/
theorem Kept.hand {j : JobId} {pkt : Packet} (hpool : ∀ pkt ∈ pools.packets, I pkt.data)
    (hslot : ∀ pkt, job.packet = some pkt → I pkt.data) (hcode : code.packet? = some pkt)
    (hpkt : I pkt.data) : Kept I pools job j (.goto code) := by
  refine ⟨hpool, hslot, fun q hq other hother => ?_⟩
  obtain rfl := Multiset.mem_singleton.mp hq
  obtain rfl : pkt = other := by simpa [StackPoint.packet?, hcode] using hother
  exact hpkt

/-- **A step of a task** keeps the rule for the packets that it can reach. -/
theorem JobStep.keeps {j : JobId} (rule : PacketRule H V I) (hV : V job.version)
    (hpool : ∀ pkt ∈ pools.packets, I pkt.data)
    (hslot : ∀ pkt, job.packet = some pkt → I pkt.data)
    (hcode : ∀ pkt, code.packet? = some pkt → I pkt.data)
    (hstep : jobStep H b n pools job code = some (pools', job', act)) :
    Kept I pools' job' j act := by
  have hstage : ∀ {i stage pkt pools'} {job' : Job T} {act}, code = .stageHook i stage pkt →
      jobStep H b n pools job code = some (pools', job', act) →
        ∀ other, job'.packet = some other → I other.data := by
    rintro i stage pkt pools' job' act rfl hstep other hother
    obtain ⟨-, hpkt⟩ := stage_leaves hstep
    obtain rfl := Option.some.inj (hpkt.symm.trans hother)
    exact rule.runStage _ hV n i stage pkt.data _ (hcode pkt rfl)
  cases jobStep_cases hstep with
  | checkout _ h =>
      obtain ⟨hpools, hpkt⟩ := rule.checkout hV hpool h
      exact .hand hpools hslot rfl hpkt
  | scratch => exact .hand hpool hslot rfl (hcode _ rfl)
  | @encodeReturned pkt data result n r h =>
      have hkept := rule.encode _ hV n job.queries pkt.data (hcode pkt rfl)
      rw [h] at hkept
      exact .hand hpool hslot rfl hkept
  | encoded | encodeFailed => exact .hand hpool hslot rfl (hcode _ rfl)
  | recycle h | giveBackErr h | giveBackOk _ h | giveBackPoisoned _ h | cleanup h =>
      obtain ⟨hpools, hsame⟩ := rule.giveBack hpool (hcode _ rfl) h
      exact .drop hpools (hsame ▸ hslot) rfl
  | @store pkt h hp =>
      refine .drop hpool ?_ rfl
      rintro _ ⟨⟩
      exact hcode pkt rfl
  | stageLock h hp => exact .hand hpool hslot rfl (hslot _ hp)
  | stagePanicked | stageFailed | stagePassed => exact .drop hpool (hstage rfl hstep) rfl
  | takeInvalid h hp | take h hp | caught h hp => exact .hand hpool (by simp) rfl (hslot _ hp)
  | decoded | decodeFailed => exact .hand hpool hslot rfl (hcode _ rfl)
  | scheduleStage | submit =>
      refine ⟨hpool, hslot, fun q hq pkt hpkt => ?_⟩
      simp only [taskPoints, liftAct, ClientAct.points, Multiset.insert_eq_cons,
        Multiset.mem_cons, Multiset.mem_singleton] at hq
      rcases hq with rfl | rfl <;> simp [StackPoint.packet?, JobCode.packet?] at hpkt
  | finish =>
      refine .drop hpool ?_ rfl
      rw [Job.finishWith.eq_def]
      split <;> exact hslot
  | leave hleave hact =>
      refine ⟨hpool, hslot, fun q hq pkt hpkt => ?_⟩
      rcases hact with rfl | rfl
      · simp [taskPoints, liftAct] at hq
      · obtain rfl := Multiset.mem_singleton.mp hq
        simp [StackPoint.packet?, JobCode.packet?] at hpkt
  | _ => exact .drop hpool hslot rfl

end Steps

/-! ### Over whole runs -/

/-- The property holds of every packet: in the pool, in the slots and in the tasks. -/
structure PacketsHold (I : PacketData → Prop) (m : Mem T) (P : Soup (Code T) Task RejectCode) :
    Prop where
  pool : ∀ pkt ∈ m.pools.packets, I pkt.data
  slot : ∀ j job pkt, m.job j = some job → job.packet = some pkt → I pkt.data
  point : ∀ p ∈ P, ∀ pkt, StackPoint.packet? p = some pkt → I pkt.data

section Runs

variable {V : Version T → Prop} {I : PacketData → Prop} {m m' : Mem T}
  {P Q R : Soup (Code T) Task RejectCode} {j : JobId} {job job' : Job T}

/-- Points without packets come and go. -/
theorem PacketsHold.exchange (h : PacketsHold I m (P + R)) (hpools : m'.pools = m.pools)
    (hslot : ∀ j job', m'.job j = some job' →
      job'.packet = none ∨ ∃ job, m.job j = some job ∧ job'.packet = job.packet)
    (hQ : ∀ q ∈ Q, StackPoint.packet? q = none) : PacketsHold I m' (Q + R) := by
  refine ⟨hpools ▸ h.pool, fun j job' pkt hj hpkt => ?_, fun q hq pkt hpkt => ?_⟩
  · rcases hslot j job' hj with hnone | ⟨job, hold, hsame⟩
    · simp [hpkt] at hnone
    · exact h.slot j job pkt hold (hsame ▸ hpkt)
  · rcases Multiset.mem_add.mp hq with hq | hq
    · simp [hQ q hq] at hpkt
    · exact h.point q (Multiset.mem_add.mpr (.inr hq)) pkt hpkt

/-- A point becomes another one with the same packet. -/
theorem PacketsHold.become {p q : StackPoint T} (h : PacketsHold I m ({p} + R))
    (hsame : StackPoint.packet? q = StackPoint.packet? p) : PacketsHold I m ({q} + R) := by
  refine ⟨h.pool, h.slot, fun q' hq' pkt hpkt => ?_⟩
  rcases Multiset.mem_add.mp hq' with hq' | hq'
  · obtain rfl := Multiset.mem_singleton.mp hq'
    exact h.point p (by simp) pkt (hsame ▸ hpkt)
  · exact h.point q' (Multiset.mem_add.mpr (.inr hq')) pkt hpkt

/-- A point of a job moves on, with the packets that it can reach. -/
theorem PacketsHold.move (h : PacketsHold I m (P + R)) {pools : Pools}
    (hm : m'.pools = pools ∧ m'.job = (m.setJob j job').job)
    (hpool : ∀ pkt ∈ pools.packets, I pkt.data)
    (hslot : ∀ pkt, job'.packet = some pkt → I pkt.data)
    (hQ : ∀ q ∈ Q, ∀ pkt, StackPoint.packet? q = some pkt → I pkt.data) :
    PacketsHold I m' (Q + R) := by
  refine ⟨hm.1 ▸ hpool, fun i other pkt hi hpkt => ?_, fun q hq pkt hpkt => ?_⟩
  · rw [hm.2, Mem.setJob_job] at hi
    split at hi
    · obtain rfl := Option.some.inj hi
      exact hslot pkt hpkt
    · exact h.slot i other pkt hi hpkt
  · rcases Multiset.mem_add.mp hq with hq | hq
    · exact hQ q hq pkt hpkt
    · exact h.point q (Multiset.mem_add.mpr (.inr hq)) pkt hpkt

/-- Overwriting a job that keeps its packet. -/
theorem Mem.setJob_packet (hj : m.job j = some job) (hsame : job'.packet = job.packet)
    (i : JobId) (other : Job T) (hi : (m.setJob j job').job i = some other) :
    other.packet = none ∨ ∃ old, m.job i = some old ∧ other.packet = old.packet := by
  rw [Mem.setJob_job] at hi
  split at hi
  · next hij =>
      obtain rfl := Option.some.inj hi
      exact .inr ⟨job, hij ▸ hj, hsame⟩
  · exact .inr ⟨other, hi, rfl⟩

/-- Only the points of jobs have packets. -/
theorem packet_of_owner {p : StackPoint T} (h : StackPoint.owner p = none) :
    StackPoint.packet? p = none := by
  rw [StackPoint.packet?.eq_def]
  split
  · simp [StackPoint.owner, Code.owner] at h
  · simp [StackPoint.owner] at h
  · rfl

/-- **A step of the stack** keeps the rule. -/
theorem PacketsHold.step {self : ThreadId} {n : ℕ} {code : Code T} {act : ClientAct (Code T) Task}
    (rule : PacketRule H V I) (hV : ∀ j job, m.job j = some job → V job.version)
    (h : PacketsHold I m ({.code code} + R)) (hs : stackStep H self n m code = some (m', act)) :
    PacketsHold I m' (act.points + R) := by
  by_cases htask : ∃ j c, code = .task j c
  · obtain ⟨j, code, rfl⟩ := htask
    simp only [stackStep, bind, Option.bind_eq_some_iff, Option.pure_def, Option.some.injEq,
      Prod.mk.injEq] at hs
    obtain ⟨job, hj, ⟨pools, job', act⟩, hstep, rfl, rfl⟩ := hs
    have hkept := JobStep.keeps (j := j) rule (hV j job hj) h.pool (fun pkt => h.slot j job pkt hj)
      (fun pkt hpkt => h.point (.code (.task j code)) (by simp) pkt hpkt) hstep
    exact h.move ⟨rfl, rfl⟩ hkept.pool hkept.slot hkept.next
  · have hsame : ∀ {m : Mem T} (i : JobId) (other : Job T), m.job i = some other →
        other.packet = none ∨ ∃ old, m.job i = some old ∧ other.packet = old.packet :=
      fun i other hi => .inr ⟨other, hi, rfl⟩
    cases stackStep_cases hs with
    | task => exact (htask ⟨_, _, rfl⟩).elim
    | planner hp =>
        exact h.exchange rfl hsame fun q hq => packet_of_owner (hp.owner q hq)
    | dispatchId =>
        refine h.exchange rfl (fun i other hi => ?_) (by simp [StackPoint.packet?])
        change (m.setJob _ _).job i = some other at hi
        rw [Mem.setJob_job] at hi
        split at hi
        · obtain rfl := Option.some.inj hi
          exact .inl rfl
        · exact hsame i other hi
    | insertPoisoned hj | dispatchOk hj | dispatchErr hj | collectTake hj | collectPark hj
    | collectWoken hj | cancel hj =>
        exact h.exchange rfl (Mem.setJob_packet hj rfl) (by simp [StackPoint.packet?])
    | _ => exact h.exchange rfl hsame (by simp [StackPoint.packet?])

/-- **A step of a reject side** keeps the rule. -/
theorem PacketsHold.reject {code : RejectCode} {next : Option RejectCode}
    (rule : PacketRule H V I) (h : PacketsHold I m ({.rejecting code} + R))
    (hs : StackReject m code m' next) :
    PacketsHold I m' (next.elim 0 (fun next => {.rejecting next}) + R) := by
  cases hs with
  | @on j point next job job' pools hj hstep =>
      have hslot := fun pkt => h.slot j job pkt hj
      have hpoint := h.point (.rejecting ⟨j, point⟩) (by simp)
      cases hstep with
      | take hlock hp =>
          refine h.move ⟨rfl, rfl⟩ h.pool (by simp) fun q hq pkt hpkt => ?_
          obtain rfl := Multiset.mem_singleton.mp hq
          obtain rfl := Option.some.inj hpkt
          exact hslot _ hp
      | giveBack hg =>
          obtain ⟨hpools, hsame⟩ := rule.giveBack h.pool (hpoint _ rfl) hg
          exact h.move ⟨rfl, rfl⟩ hpools (hsame ▸ hslot) (by simp [StackPoint.packet?])
      | _ => exact h.move ⟨rfl, rfl⟩ h.pool hslot (by simp [StackPoint.packet?])
  | @done j point job job' pools hj hstep =>
      have hslot := fun pkt => h.slot j job pkt hj
      cases hstep <;> exact h.move ⟨rfl, rfl⟩ h.pool hslot (by simp)
  | gone => exact h.exchange rfl (fun i other hi => .inr ⟨other, hi, rfl⟩) (by simp)

/-- A call returns to a point with the packet of the point it was made at. -/
theorem packet_resume {code : Code T} {r : CallResult} :
    StackPoint.packet? (.code (resume code r) : StackPoint T) =
      StackPoint.packet? (.code code : StackPoint T) := by
  rw [resume.eq_def]
  split <;> rfl

/-- **Every step of the soup** keeps the rule. -/
theorem packetsHold_step {v v' : SoupView (Mem T) (Code T) Task RejectCode}
    (rule : PacketRule H V I) (hV : ∀ j job, v.1.job j = some job → V job.version)
    (hok : JobsOk v.1 v.2) (h : PacketsHold I v.1 v.2) (hstep : SoupStep (stackContract H) v v') :
    PacketsHold I v'.1 v'.2 := by
  have hsame : ∀ {m : Mem T} (i : JobId) (other : Job T), m.job i = some other →
      other.packet = none ∨ ∃ old, m.job i = some old ∧ other.packet = old.packet :=
    fun i other hi => .inr ⟨other, hi, rfl⟩
  have hstart : ∀ task : Task, StackPoint.packet?
      (.code (.task task.job (startOf task.kind)) : StackPoint T) = none := by
    rintro ⟨j, kind⟩
    cases kind <;> rfl
  cases hstep with
  | idle => exact h
  | @step m m' code act i n R hs =>
      rw [← Multiset.singleton_add] at h
      exact h.step rule hV hs
  | @rejectOn m m' code next R hs =>
      rw [← Multiset.singleton_add] at h ⊢
      exact h.reject rule (rejectStep_cases hs)
  | @rejectDone m m' code R hs =>
      rw [← Multiset.singleton_add] at h
      rw [← zero_add R]
      exact h.reject rule (rejectStep_cases hs)
  | @run m t R | @runScheduled m t R =>
      rw [← Multiset.singleton_add] at h ⊢
      exact h.become (hstart t)
  | reject | returned =>
      rw [← Multiset.singleton_add] at h ⊢
      exact h.become (by first | rfl | exact packet_resume)
  | @hookRun m hook R =>
      have hown := (singleton_add_points hok).hook
      rw [← Multiset.singleton_add] at h ⊢
      refine h.exchange rfl hsame fun q hq => ?_
      obtain rfl := Multiset.mem_singleton.mp hq
      exact packet_of_owner hown
  | @hookDrop m hook R =>
      rw [← Multiset.singleton_add] at h
      rw [← zero_add R]
      exact h.exchange rfl hsame (by simp)
  | @refused m t code R hs =>
      have hcode : PacketsHold I m ({.code code} + R) := by
        rw [← Multiset.singleton_add] at h
        have hgone := h.exchange (Q := 0) rfl hsame (by simp)
        rwa [zero_add, ← Multiset.singleton_add] at hgone
      rw [← Multiset.singleton_add]
      exact hcode.become packet_resume
  | @spawn m code R he =>
      rw [← zero_add R] at h
      rw [← Multiset.singleton_add]
      refine h.exchange rfl hsame fun q hq => ?_
      obtain rfl := Multiset.mem_singleton.mp hq
      cases code <;> first | rfl | simp [stackClient, isEntry] at he

/-- There is no packet yet. -/
theorem packetsHold_create {b : BackendId} {state : T.State} {compiled : CompiledPlan T.PlannerMeta}
    {prepared : T.Prepared} : PacketsHold I (Mem.create b state compiled prepared) 0 :=
  ⟨by simp [Mem.create], by simp [Mem.create], by simp⟩

end Runs

end Braids.Runtime
