import Braids.Runtime.Steps

/-!
# The Phases of a Job

What is true of a job while its task is at a given program point: where its packet is, which
hooks have been called, and what its record says (`JobCode.Fits`). One step of the task leads
from a point that fits to one that fits, or ends the job (`JobStep.fits`).

## Main results

* `JobStep.sound`: a task keeps what holds of a job at all times.
* `JobStep.fits`, `RejectStep.fits`: tasks and rejections lead from phase to phase.
* `JobStep.settled`: a job that ends is settled.
-/

namespace Braids.Runtime

variable {T : Types}

/-! ### Scripts -/

/-- The steps of a job that runs on the version from beginning to end. -/
def Version.steps (version : Version T) : List JobTask :=
  .encode :: ((List.range version.stages.length).map .stage ++ [.decode])

@[simp] theorem length_stageCalls (prepared : T.Prepared) (packet index : ℕ)
    (stages : List StageSpec) :
    (stageCalls (T := T) prepared packet index stages).length = stages.length := by
  induction stages generalizing index with
  | nil => rfl
  | cons stage stages ih => rw [stageCalls, List.length_cons, List.length_cons, ih]

/-- The calls of `run_stage` in order. -/
theorem getElem?_stageCalls (prepared : T.Prepared) (packet index : ℕ)
    (stages : List StageSpec) (i : ℕ) :
    (stageCalls (T := T) prepared packet index stages)[i]? =
      stages[i]?.map fun stage => .runStage prepared (index + i) stage packet := by
  induction stages generalizing index i with
  | nil => simp [stageCalls]
  | cons stage stages ih =>
      cases i with
      | zero => simp [stageCalls]
      | succ i =>
          rw [stageCalls, List.getElem?_cons_succ, ih, List.getElem?_cons_succ]
          simp only [Nat.add_right_comm, Nat.add_assoc]

namespace Version

variable (version : Version T) (queries : List T.Query) (packet : ℕ)

@[simp] theorem length_script :
    (version.script queries packet).length = version.stages.length + 2 := by
  simp [script]

@[simp] theorem length_steps : version.steps.length = version.stages.length + 2 := by
  simp [steps]

/-- The script begins with the encode. -/
theorem take_script_encode : (version.script queries packet).take 1 =
    [.encodeBatch version.compiled queries packet] := by
  simp [script]

/-- The script goes on with the stages. -/
theorem take_script_stage {i : ℕ} {stage : StageSpec} (h : version.stages[i]? = some stage) :
    (version.script queries packet).take (i + 2) =
      (version.script queries packet).take (i + 1) ++
        [.runStage version.prepared i stage packet] := by
  have hlt : i < version.stages.length := (List.getElem?_eq_some_iff.mp h).1
  have hcall : (stageCalls version.prepared packet 0 version.stages)[i]? =
      some (.runStage version.prepared i stage packet) := by
    rw [getElem?_stageCalls, h, Option.map_some, Nat.zero_add]
  have hnext : (version.script queries packet)[i + 1]? =
      some (.runStage version.prepared i stage packet) := by
    rw [script, List.getElem?_cons_succ, List.getElem?_append_left (by simpa using hlt), hcall]
  rw [List.take_add_one, hnext, Option.toList_some]

/-- The script ends with the decode. -/
theorem script_eq : version.script queries packet =
    (version.script queries packet).take (version.stages.length + 1) ++
      [.decodeBatch version.compiled packet] := by
  conv_lhs => rw [← List.take_append_drop (version.stages.length + 1)
    (version.script queries packet)]
  congr 1
  simp [script]

/-- The steps go on with the stages. -/
theorem take_steps_stage {i : ℕ} (h : i < version.stages.length) :
    version.steps.take (i + 2) = version.steps.take (i + 1) ++ [.stage i] := by
  have hnext : version.steps[i + 1]? = some (.stage i) := by
    simp [steps, List.getElem?_append_left, h]
  rw [List.take_add_one, hnext, Option.toList_some]

/-- The steps end with the decode. -/
theorem steps_eq :
    version.steps = version.steps.take (version.stages.length + 1) ++ [.decode] := by
  conv_lhs => rw [← List.take_append_drop (version.stages.length + 1) version.steps]
  congr 1
  simp [steps]

end Version

/-! ### Where the packet is -/

/-- Where the packet of a job is. -/
inductive Custody
  /-- It was not checked out yet. -/
  | untouched
  /-- Its task holds it. -/
  | inTask (pkt : Packet)
  | inSlot (pkt : Packet)
  /-- `run_stage` borrows it from the locked slot. -/
  | lent (pkt : Packet)
  | givenBack
  /-- A panic dropped it. -/
  | lost
  /-- A panic in `run_stage` left it in the poisoned slot. -/
  | buried

/-- The fields of a job say where its packet is. -/
def Job.Has (job : Job T) : Custody → Prop
  | .untouched => job.panicked = false ∧ job.packetLock = .free ∧ job.packet = none ∧
      job.holding = none ∧ job.checkedOut = [] ∧ job.givenBack = []
  | .inTask pkt => job.panicked = false ∧ job.packetLock = .free ∧ job.packet = none ∧
      job.holding = some pkt.serial ∧ job.checkedOut = [pkt.serial] ∧ job.givenBack = []
  | .inSlot pkt => job.panicked = false ∧ job.packetLock = .free ∧ job.packet = some pkt ∧
      job.holding = some pkt.serial ∧ job.checkedOut = [pkt.serial] ∧ job.givenBack = []
  | .lent pkt => job.panicked = false ∧ job.packetLock = .held ∧ job.packet = some pkt ∧
      job.holding = some pkt.serial ∧ job.checkedOut = [pkt.serial] ∧ job.givenBack = []
  | .givenBack => job.panicked = false ∧ job.packetLock = .free ∧ job.packet = none ∧
      job.holding = none ∧
      ∃ pkt : Packet, job.checkedOut = [pkt.serial] ∧ job.givenBack = [pkt.cleared]
  | .lost => job.panicked = true ∧ job.packetLock = .free ∧ job.packet = none ∧
      job.holding = none ∧ ∃ n, job.checkedOut = [n] ∧ job.givenBack = []
  | .buried => job.panicked = true ∧ job.packetLock = .poisoned ∧
      ∃ pkt : Packet, job.packet = some pkt ∧ job.holding = some pkt.serial ∧
        job.checkedOut = [pkt.serial] ∧ job.givenBack = []

/-- The job has no packet to give back any more. -/
def Custody.Closed : Custody → Prop
  | .untouched | .givenBack | .lost | .buried => True
  | _ => False

/-- Something of the job's own, a cancel or a refused task accounts for the error. -/
def Job.Blames (job : Job T) (error : BraidError) : Prop :=
  (job.panicked = true ∧ error = taskPanicked) ∨
    (job.panicked = false ∧ (job.failed = true ∨
      (job.unsent = true ∧ error = .executorShutdown) ∨
      (error = .cancelled ∧ job.record.cancel = true)))

/-! ### Program points -/

/-- The job is on its way: its record, its packet, its hook calls and its passed steps. -/
structure Job.At (job : Job T) (state : JobRecordState T.Resolution) (custody : Custody)
    (calls : List (Call T)) (passed : List JobTask) : Prop where
  state_eq : job.record.state = state
  has : job.Has custody
  calls_eq : job.calls = calls
  passed_eq : job.passed = passed

/-- The job has done everything before the step `next`, which is not the encode. -/
def Job.Ready (job : Job T) : JobTask → Prop
  | .encode => False
  | .stage i => i < job.version.stages.length ∧ ∃ pkt : Packet,
      job.At .running (.inSlot pkt) ((job.script pkt.serial).take (i + 1))
        (job.version.steps.take (i + 1))
  | .decode => ∃ pkt : Packet,
      job.At .running (.inSlot pkt)
        ((job.script pkt.serial).take (job.version.stages.length + 1))
        (job.version.steps.take (job.version.stages.length + 1))

/-- The job has not begun. -/
def Job.Waits (job : Job T) : Prop := job.At .queued .untouched [] []

/-- The job may be ended with the error: it runs, or it was cancelled before it began. -/
def Job.Fails (job : Job T) (error : BraidError) (custody : Custody) : Prop :=
  job.Blames error ∧ job.Has custody ∧ (job.record.state = .running ∨
    (job.record.state = .queued ∧ error = .cancelled ∧ custody = .untouched))

/-- What is true of the job while its task is at the program point. `ended` tells that the
reject side of a task of the job is over. -/
def JobCode.Fits (ended : Prop) (job : Job T) : JobCode T → Prop
  | .encode | .mark => job.Waits
  | .checkout => job.At .running .untouched [] []
  | .scratch pkt => job.At .running (.inTask pkt) [] []
  | .encodeHook pkt | .encoded pkt _ =>
      job.At .running (.inTask pkt) ((job.script pkt.serial).take 1) []
  | .recycle pkt error | .giveBack pkt (.error error) => job.Fails error (.inTask pkt)
  | .store pkt =>
      job.At .running (.inTask pkt) ((job.script pkt.serial).take 1)
        (job.version.steps.take 1)
  | .schedule next => job.Ready next
  | .stage i | .stageLock i => job.Ready (.stage i)
  | .stageHook i spec pkt => job.version.stages[i]? = some spec ∧
      job.At .running (.lent pkt) ((job.script pkt.serial).take (i + 2))
        (job.version.steps.take (i + 1))
  | .decode => job.Ready .decode
  | .take => job.Ready .decode ∧ job.decodeRead = some false
  | .decodeHook pkt => job.decodeRead = some false ∧
      job.At .running (.inTask pkt) (job.script pkt.serial)
        (job.version.steps.take (job.version.stages.length + 1))
  | .giveBack pkt (.ok values) => job.decodeRead = some false ∧ job.decoded = some values ∧
      job.At .running (.inTask pkt) (job.script pkt.serial) job.version.steps
  | .finishCompleted values => job.decodeRead = some false ∧ job.decoded = some values ∧
      ∃ n, job.checkedOut = [n] ∧
        job.At .running .givenBack (job.script n) job.version.steps
  | .await next => next ≠ .encode
  | .released | .ended => True
  | .refused (.stage _) error => error = .executorShutdown ∧ ended
  | .refused next error => error = .executorShutdown ∧ job.Ready next
  | .caught true error => error = .executorShutdown ∧ ended
  | .caught false error => ∃ custody, job.Fails error custody ∧
      (custody.Closed ∨ ∃ pkt, custody = .inSlot pkt)
  | .cleanup true _ _ => False
  | .cleanup false pkt error => job.Fails error (.inTask pkt)
  | .finish true error => error = .executorShutdown ∧ ended
  | .finish false error => ∃ custody, custody.Closed ∧ job.Fails error custody

/-- The same for a reject side. -/
def RejectPoint.Fits (job : Job T) : RejectPoint → Prop
  | .take _ => ∃ i, job.Ready (.stage i)
  | .giveBack pkt _ => job.record.state = .running ∧ job.Has (.inTask pkt)
  | .fail _ => job.record.state = .running ∧ job.Has .givenBack

/-- One if the task ends its job or passes it on, zero if somebody else does. -/
def JobCode.carries : JobCode T → ℕ
  | .await _ | .refused (.stage _) _ | .caught true _ | .cleanup true _ _ | .finish true _
  | .released | .ended => 0
  | _ => 1

/-! ### Jobs that are over -/

/-- Nothing will happen to the job any more: it ended, or `dispatch` returned an error. -/
def Job.Over (job : Job T) : Prop :=
  job.record.state.terminal = true ∨ job.dispatched = .refused

instance (job : Job T) : Decidable job.Over := inferInstanceAs (Decidable (_ ∨ _))

/-- What is true of a job that is over, by its state. -/
def Job.Settled (ended : Prop) (job : Job T) : Prop :=
  match job.record.state with
  | .queued => job.Waits
  | .running => False
  | .completed _ => job.Has .givenBack ∧ job.decodeRead = some false ∧
      job.passed = job.version.steps ∧ ∃ n, job.checkedOut = [n] ∧ job.calls = job.script n
  | .failed _ => (∃ custody, custody.Closed ∧ job.Has custody) ∧
      (job.panicked = true ∨ job.failed = true ∨ job.unsent = true ∨ ended)
  | .cancelled => (∃ custody, custody.Closed ∧ job.Has custody) ∧ job.panicked = false ∧
      (job.failed = true ∨ job.record.cancel = true)

/-- What was delivered, by the state of the record. -/
def Job.Delivers (job : Job T) : Prop :=
  match job.record.state with
  | .completed (some values) => job.decoded = some values ∧ job.delivered = []
  | .completed none => ∃ values n, job.decoded = some values ∧
      job.delivered = values :: List.replicate n []
  | _ => job.delivered = []

/-- What is true of a job at all times. -/
structure Job.Sound (job : Job T) : Prop where
  snapshot : job.version = job.seen
  unpoisoned : job.recordPoisoned = false
  orderly : ∃ n, job.calls <+: job.script n ∧ (job.calls = [] ∨ job.checkedOut = [n])
  delivers : job.Delivers

/-- The reject side of a task of the job is over, so the job has failed. -/
def Job.Rejected (job : Job T) : Prop :=
  (∃ error, job.record.state = .failed error) ∧ ∃ custody, custody.Closed ∧ job.Has custody

/-- What a step of a task that is responsible for its job leads to. -/
inductive JobOutcome (ended : Prop) (job : Job T) : ClientAct (JobCode T) JobTask → Prop
  | on {code : JobCode T} (hcode : code.carries = 1) (hfits : code.Fits ended job)
      (hlive : job.record.state.terminal = false) : JobOutcome ended job (.goto code)
  | submit {next : JobTask} (hnext : ∀ i, next ≠ .stage i) (hready : job.Ready next)
      (hlive : job.record.state.terminal = false) :
      JobOutcome ended job (.submit next (.await next))
  | schedule {b : BackendId} {i : ℕ} (hready : job.Ready (.stage i))
      (hlive : job.record.state.terminal = false) :
      JobOutcome ended job (.schedule b (.stage i) (.await (.stage i)))
  | ends (hover : job.record.state.terminal = true) (hsettled : job.Settled ended) :
      JobOutcome ended job (.goto .released)

section Jobs

variable {H : Hooks T} {b : BackendId} {pools pools' : Pools} {job job' : Job T}
  {code : JobCode T} {act : ClientAct (JobCode T) JobTask} {ended : Prop}

/-- A job that is on its way is not over. -/
theorem Job.At.live {state : JobRecordState T.Resolution} {custody : Custody}
    {calls : List (Call T)} {passed : List JobTask} (h : job.At state custody calls passed)
    (hstate : state.terminal = false) : job.record.state.terminal = false := by
  rw [h.state_eq, hstate]

/-- A job that is ready for a step runs. -/
theorem Job.Ready.running {next : JobTask} (h : job.Ready next) :
    job.record.state = .running := by
  cases next with
  | encode => exact h.elim
  | stage i =>
      obtain ⟨-, pkt, hat⟩ := h
      exact hat.state_eq
  | decode =>
      obtain ⟨pkt, hat⟩ := h
      exact hat.state_eq

/-- A job that is ready for a step has not ended. -/
theorem Job.Ready.live {next : JobTask} (h : job.Ready next) :
    job.record.state.terminal = false := by
  rw [h.running]
  rfl

/-- A job that is ready for a step has its packet in its slot. -/
theorem Job.Ready.inSlot {next : JobTask} (h : job.Ready next) :
    ∃ pkt, job.Has (.inSlot pkt) := by
  cases next with
  | encode => exact h.elim
  | stage i =>
      obtain ⟨-, pkt, hat⟩ := h
      exact ⟨pkt, hat.has⟩
  | decode =>
      obtain ⟨pkt, hat⟩ := h
      exact ⟨pkt, hat.has⟩

/-- A job that is to fail has not ended. -/
theorem Job.Fails.live {error : BraidError} {custody : Custody}
    (h : job.Fails error custody) : job.record.state.terminal = false := by
  obtain ⟨-, -, hs | ⟨hs, -⟩⟩ := h <;> rw [hs] <;> rfl

/-- Giving the packet back closes the custody. -/
theorem giveBackPacket_spec {pkt : Packet} (hp : pools.packetsPoisoned = false)
    (h : giveBackPacket pools job pkt = (pools', job')) :
    pools' = { pools with packets := pkt.cleared :: pools.packets } ∧
      job' = { job with holding := none, givenBack := job.givenBack ++ [pkt.cleared] } := by
  rw [giveBackPacket, if_neg (by simp [hp]), Prod.mk.injEq] at h
  exact ⟨h.1.symm, h.2.symm⟩

/-- A packet in the task of its job is given back. -/
theorem Job.Has.giveBack {pkt : Packet} (h : job.Has (.inTask pkt)) :
    { job with holding := none, givenBack := job.givenBack ++ [pkt.cleared] }.Has
      .givenBack := by
  obtain ⟨hpan, hlock, hpkt, -, hout, hback⟩ := h
  exact ⟨hpan, hlock, hpkt, rfl, pkt, hout, by simp [hback]⟩

/-- A packet that was given back is no longer blamed on anybody else. -/
theorem Job.Fails.giveBack {error : BraidError} {pkt : Packet}
    (h : job.Fails error (.inTask pkt)) :
    { job with holding := none, givenBack := job.givenBack ++ [pkt.cleared] }.Fails error
      .givenBack := by
  obtain ⟨hblame, hhas, hstate⟩ := h
  refine ⟨hblame, hhas.giveBack, .inl ?_⟩
  rcases hstate with hs | ⟨-, -, hc⟩
  · exact hs
  · simp at hc

/-- After the encode the job is ready for what comes next. -/
theorem Job.At.afterEncode {pkt : Packet}
    (h : job.At .running (.inSlot pkt) ((job.script pkt.serial).take 1)
      (job.version.steps.take 1)) : job.Ready job.version.afterEncode := by
  rw [Version.afterEncode]
  split
  · next hempty =>
      refine ⟨pkt, ?_⟩
      rwa [List.isEmpty_iff.mp hempty]
  · next hne =>
      exact ⟨List.length_pos_iff.mpr (by simpa using hne), pkt, h⟩

/-- After a stage the job is ready for what comes next. -/
theorem Job.At.afterStage {pkt : Packet} {i : ℕ} (hi : i < job.version.stages.length)
    (h : job.At .running (.inSlot pkt) ((job.script pkt.serial).take (i + 2))
      (job.version.steps.take (i + 2))) : job.Ready (job.version.afterStage i) := by
  rw [Version.afterStage]
  split
  · next hlt => exact ⟨hlt, pkt, h⟩
  · next hle =>
      have heq : job.version.stages.length = i + 1 := by omega
      refine ⟨pkt, ?_⟩
      rwa [heq]

/-- The packet slot of a job that is ready for a step is filled and free. -/
theorem Job.Ready.slot {next : JobTask} (h : job.Ready next) :
    job.packetLock = .free ∧ ∃ pkt, job.packet = some pkt := by
  obtain ⟨pkt, -, hlock, hpkt, -⟩ := h.inSlot
  exact ⟨hlock, pkt, hpkt⟩

/-- Hands off a packet in the slot. -/
theorem Job.Has.take {pkt : Packet} (h : job.Has (.inSlot pkt)) :
    { job with packet := none }.Has (.inTask pkt) := by
  obtain ⟨hpan, hlock, -, hhold, hout, hback⟩ := h
  exact ⟨hpan, hlock, rfl, hhold, hout, hback⟩

/-- Whoever closed the custody left nothing in a free slot. -/
theorem Custody.Closed.slot {custody : Custody} (hclosed : custody.Closed)
    (h : job.Has custody) (hlock : job.packetLock = .free) {pkt : Packet}
    (hpkt : job.packet = some pkt) : False := by
  cases custody with
  | untouched =>
      obtain ⟨-, -, hnone, -⟩ := h
      simp [hpkt] at hnone
  | givenBack =>
      obtain ⟨-, -, hnone, -⟩ := h
      simp [hpkt] at hnone
  | lost =>
      obtain ⟨-, -, hnone, -⟩ := h
      simp [hpkt] at hnone
  | buried =>
      obtain ⟨-, hpoisoned, -⟩ := h
      simp [hlock] at hpoisoned
  | _ => exact hclosed

/-- A job that `run_caught` ends is settled. -/
theorem Job.Fails.finishWith {error : BraidError} {custody : Custody}
    (h : job.Fails error custody) (hclosed : custody.Closed)
    (hrecord : job.recordPoisoned = false) (ended : Prop) :
    (job.finishWith error).record.state.terminal = true ∧
      (job.finishWith error).Settled ended := by
  obtain ⟨hblame, hhas, -⟩ := h
  by_cases herror : error = .cancelled
  · subst herror
    have heq : job.finishWith .cancelled =
        { job with record := job.record.finishCancelled } := by
      simp [Job.finishWith, hrecord]
    rw [heq]
    refine ⟨rfl, ⟨custody, hclosed, hhas⟩, ?_⟩
    rcases hblame with ⟨-, hpanic⟩ | ⟨hpanic, hfailed | ⟨-, hshut⟩ | ⟨-, hcancel⟩⟩
    · simp [taskPanicked] at hpanic
    · exact ⟨hpanic, .inl hfailed⟩
    · simp at hshut
    · exact ⟨hpanic, .inr hcancel⟩
  · have heq : job.finishWith error =
        { job with record := job.record.finishFailed error } := by
      simp only [Job.finishWith, hrecord]
      split
      · simp_all
      · rfl
    rw [heq]
    refine ⟨rfl, ⟨custody, hclosed, hhas⟩, ?_⟩
    rcases hblame with ⟨hpanic, -⟩ | ⟨-, hfailed | ⟨hunsent, -⟩ | ⟨hcancel, -⟩⟩
    · exact .inl hpanic
    · exact .inr (.inl hfailed)
    · exact .inr (.inr (.inl hunsent))
    · exact (herror hcancel).elim

/-! ### One step of a task, by program point -/

/-- `encode_step` looks at the cancel flag. -/
theorem JobStep.fits_encode (h : JobStep H b pools job .encode pools' job' act)
    (hf : JobCode.Fits ended job .encode) : JobOutcome ended job' act := by
  cases h with
  | encodeCancelled h =>
      refine .on rfl ⟨.untouched, ⟨?_, hf.has, .inr ⟨hf.state_eq, rfl, rfl⟩⟩, .inl trivial⟩
        (hf.live rfl)
      exact .inr ⟨hf.has.1, .inr (.inr ⟨rfl, h⟩)⟩
  | encode => exact .on rfl hf (hf.live rfl)
  | leave hleave => simp at hleave

/-- `mark_running` starts the job. -/
theorem JobStep.fits_mark (h : JobStep H b pools job .mark pools' job' act)
    (hs : job.Sound) (hf : JobCode.Fits ended job .mark) :
    JobOutcome ended job' act := by
  cases h with
  | markPoisoned h => simp [hs.unpoisoned] at h
  | mark => exact .on rfl ⟨rfl, hf.has, hf.calls_eq, hf.passed_eq⟩ rfl
  | leave hleave => simp at hleave

/-- `checkout_packet` gives the job its packet. -/
theorem JobStep.fits_checkout (h : JobStep H b pools job .checkout pools' job' act)
    (hpackets : pools.packetsPoisoned = false) (hf : JobCode.Fits ended job .checkout) :
    JobOutcome ended job' act := by
  cases h with
  | checkoutPoisoned h => simp [hpackets] at h
  | checkout =>
      obtain ⟨hpan, hlock, hpkt, -, hout, hback⟩ := hf.has
      exact .on rfl ⟨hf.state_eq, ⟨hpan, hlock, hpkt, rfl, by simp [hout], hback⟩, hf.calls_eq,
        hf.passed_eq⟩ (hf.live rfl)
  | leave hleave => simp at hleave

/-- `encode_packet` calls `encode_batch`. -/
theorem JobStep.fits_scratch {pkt : Packet}
    (h : JobStep H b pools job (.scratch pkt) pools' job' act)
    (hscratch : pools.scratchPoisoned = false) (hf : JobCode.Fits ended job (.scratch pkt)) :
    JobOutcome ended job' act := by
  cases h with
  | scratchPoisoned h => simp [hscratch] at h
  | scratch =>
      refine .on rfl ⟨hf.state_eq, hf.has, ?_, hf.passed_eq⟩ (hf.live rfl)
      simp [hf.calls_eq, Job.script, Version.take_script_encode]
  | leave hleave => simp at hleave

/-- `encode_batch` returns or panics. -/
theorem JobStep.fits_encodeHook {pkt : Packet}
    (h : JobStep H b pools job (.encodeHook pkt) pools' job' act)
    (hf : JobCode.Fits ended job (.encodeHook pkt)) : JobOutcome ended job' act := by
  cases h with
  | encodeReturned =>
      have hat : job.At _ _ _ _ := hf
      exact .on rfl ⟨hat.state_eq, hat.has, hat.calls_eq, hat.passed_eq⟩ (hat.live rfl)
  | encodePanicked =>
      obtain ⟨-, hlock, hpkt, -, hout, hback⟩ := hf.has
      exact .on rfl ⟨.lost, ⟨.inl ⟨rfl, rfl⟩, ⟨rfl, hlock, hpkt, rfl, _, hout, hback⟩,
        .inl hf.state_eq⟩, .inl trivial⟩ (hf.live rfl)
  | leave hleave => simp at hleave

/-- `encode_packet` validates what `encode_batch` left. -/
theorem JobStep.fits_encoded {pkt : Packet} {result : BraidResult Unit}
    (h : JobStep H b pools job (.encoded pkt result) pools' job' act)
    (hscratch : pools.scratchPoisoned = false) (hf : JobCode.Fits ended job (.encoded pkt result)) :
    JobOutcome ended job' act := by
  cases h with
  | encodedPoisoned h => simp [hscratch] at h
  | encoded =>
      refine .on rfl ⟨hf.state_eq, hf.has, hf.calls_eq, ?_⟩ (hf.live rfl)
      simp [hf.passed_eq, Version.steps]
  | encodeFailed =>
      exact .on rfl ⟨.inr ⟨hf.has.1, .inl rfl⟩, hf.has, .inl hf.state_eq⟩ (hf.live rfl)
  | leave hleave => simp at hleave

/-- `encode_packet` recycles the packet of a failed encode. -/
theorem JobStep.fits_recycle {pkt : Packet} {error : BraidError}
    (h : JobStep H b pools job (.recycle pkt error) pools' job' act)
    (hpackets : pools.packetsPoisoned = false) (hf : JobCode.Fits ended job (.recycle pkt error)) :
    JobOutcome ended job' act := by
  cases h with
  | recycle h =>
      obtain ⟨-, rfl⟩ := giveBackPacket_spec hpackets h
      have hfails := Job.Fails.giveBack hf
      exact .on rfl ⟨.givenBack, hfails, .inl trivial⟩ hfails.live
  | leave hleave => simp at hleave

/-- `store_packet` puts the packet into the slot of the job. -/
theorem JobStep.fits_store {pkt : Packet} (h : JobStep H b pools job (.store pkt) pools' job' act)
    (hf : JobCode.Fits ended job (.store pkt)) : JobOutcome ended job' act := by
  cases h with
  | storePoisoned h =>
      have hlock := hf.has.2.1
      simp [h] at hlock
  | storeTwice h hp =>
      have hpkt := hf.has.2.2.1
      simp [hp] at hpkt
  | @store pkt h hp =>
      obtain ⟨hpan, hlock, -, hhold, hout, hback⟩ := hf.has
      have hat : { job with packet := some pkt }.At .running (.inSlot pkt)
          ((job.script pkt.serial).take 1) (job.version.steps.take 1) :=
        ⟨hf.state_eq, ⟨hpan, hlock, rfl, hhold, hout, hback⟩, hf.calls_eq, hf.passed_eq⟩
      exact .on rfl (Job.At.afterEncode hat) (hat.live rfl)
  | leave hleave => simp at hleave

/-- `stage_step` looks at the cancel flag. -/
theorem JobStep.fits_stage {i : ℕ} (h : JobStep H b pools job (.stage i) pools' job' act)
    (hf : JobCode.Fits ended job (.stage i)) : JobOutcome ended job' act := by
  cases h with
  | stageCancelled h =>
      obtain ⟨-, pkt, hat⟩ := hf
      exact .on rfl ⟨.inSlot pkt, ⟨.inr ⟨hat.has.1, .inr (.inr ⟨rfl, h⟩)⟩, hat.has,
        .inl hat.state_eq⟩, .inr ⟨pkt, rfl⟩⟩ (hat.live rfl)
  | @stage i _ =>
      have hready : job.Ready (.stage i) := hf
      exact .on rfl hready hready.live
  | leave hleave => simp at hleave

/-- `stage_step` locks the packet slot. -/
theorem JobStep.fits_stageLock {i : ℕ} (h : JobStep H b pools job (.stageLock i) pools' job' act)
    (hf : JobCode.Fits ended job (.stageLock i)) : JobOutcome ended job' act := by
  cases h with
  | @stagePoisoned i h =>
      have hready : job.Ready (.stage i) := hf
      have hslot := hready.slot
      simp [h] at hslot
  | @stageNoPacket i h hp =>
      have hready : job.Ready (.stage i) := hf
      have hslot := hready.slot
      simp [hp] at hslot
  | stageMissing h hp hmissing =>
      obtain ⟨hlt, -⟩ := hf
      rw [List.getElem?_eq_none_iff] at hmissing
      omega
  | @stageLock i pkt spec h hp hspec =>
      obtain ⟨hlt, pkt', hat⟩ := hf
      obtain ⟨hpan, hlock, hpkt, hhold, hout, hback⟩ := hat.has
      obtain rfl := Option.some.inj (hp.symm.trans hpkt)
      refine .on rfl ⟨hspec, hat.state_eq, ⟨hpan, rfl, hpkt, hhold, hout, hback⟩, ?_,
        hat.passed_eq⟩ (hat.live rfl)
      change job.calls ++ _ = (job.version.script _ _).take _
      rw [hat.calls_eq, Version.take_script_stage _ _ _ hspec]
      rfl
  | leave hleave => simp at hleave

/-- `run_stage` returns or panics, with the packet slot locked. -/
theorem JobStep.fits_stageHook {i : ℕ} {stage : StageSpec} {pkt : Packet}
    (h : JobStep H b pools job (.stageHook i stage pkt) pools' job' act)
    (hf : JobCode.Fits ended job (.stageHook i stage pkt)) : JobOutcome ended job' act := by
  cases h with
  | @stagePanicked i spec pkt data cancelled n h =>
      obtain ⟨-, hat⟩ := hf
      obtain ⟨-, -, -, hhold, hout, hback⟩ := hat.has
      exact .on rfl ⟨.buried, ⟨.inl ⟨rfl, rfl⟩, ⟨rfl, rfl, _, rfl, hhold, hout, hback⟩,
        .inl hat.state_eq⟩, .inl trivial⟩ (hat.live rfl)
  | @stageFailed i spec pkt data cancelled error =>
      obtain ⟨-, hat⟩ := hf
      obtain ⟨hpan, -, -, hhold, hout, hback⟩ := hat.has
      exact .on rfl ⟨.inSlot { pkt with data }, ⟨.inr ⟨hpan, .inl rfl⟩,
        ⟨hpan, rfl, rfl, hhold, hout, hback⟩, .inl hat.state_eq⟩, .inr ⟨_, rfl⟩⟩ (hat.live rfl)
  | @stagePassed i spec pkt data cancelled n h hval =>
      obtain ⟨hspec, hat⟩ := hf
      have hlt : i < job.version.stages.length := (List.getElem?_eq_some_iff.mp hspec).1
      obtain ⟨hpan, -, -, hhold, hout, hback⟩ := hat.has
      have hpassed : job.passed ++ [.stage i] = job.version.steps.take (i + 2) := by
        rw [hat.passed_eq, Version.take_steps_stage _ hlt]
      have hready : Job.Ready { job with
          packet := some { pkt with data }
          packetLock := .free
          record := { job.record with cancel := job.record.cancel || cancelled }
          passed := job.passed ++ [.stage i] } (job.version.afterStage i) :=
        Job.At.afterStage hlt
          ⟨hat.state_eq, ⟨hpan, rfl, rfl, hhold, hout, hback⟩, hat.calls_eq, hpassed⟩
      exact .on rfl hready (hat.live rfl)
  | leave hleave => simp at hleave

/-- `decode_step` looks at the cancel flag. -/
theorem JobStep.fits_decode (h : JobStep H b pools job .decode pools' job' act)
    (hf : JobCode.Fits ended job .decode) : JobOutcome ended job' act := by
  cases h with
  | decodeCancelled h =>
      obtain ⟨pkt, hat⟩ := hf
      exact .on rfl ⟨.inSlot pkt, ⟨.inr ⟨hat.has.1, .inr (.inr ⟨rfl, h⟩)⟩, hat.has,
        .inl hat.state_eq⟩, .inr ⟨pkt, rfl⟩⟩ (hat.live rfl)
  | decode =>
      obtain ⟨pkt, hat⟩ := hf
      exact .on rfl ⟨⟨pkt, hat.state_eq, hat.has, hat.calls_eq, hat.passed_eq⟩, rfl⟩
        (hat.live rfl)
  | leave hleave => simp at hleave

/-- `decode_packet` takes the packet and validates it. -/
theorem JobStep.fits_take (h : JobStep H b pools job .take pools' job' act)
    (hf : JobCode.Fits ended job .take) : JobOutcome ended job' act := by
  cases h with
  | takePoisoned h =>
      have hslot := hf.1.slot
      simp [h] at hslot
  | takeMissing h hp =>
      have hslot := hf.1.slot
      simp [hp] at hslot
  | takeInvalid h hp =>
      obtain ⟨⟨pkt', hat⟩, -⟩ := hf
      obtain rfl := Option.some.inj (hp.symm.trans hat.has.2.2.1)
      exact .on rfl ⟨.inr ⟨hat.has.1, .inl rfl⟩, hat.has.take, .inl hat.state_eq⟩
        (hat.live rfl)
  | take h hp =>
      obtain ⟨⟨pkt', hat⟩, hread⟩ := hf
      obtain rfl := Option.some.inj (hp.symm.trans hat.has.2.2.1)
      refine .on rfl ⟨hread, hat.state_eq, hat.has.take, ?_, hat.passed_eq⟩ (hat.live rfl)
      change job.calls ++ _ = job.version.script _ _
      rw [hat.calls_eq, Version.script_eq]
      rfl
  | leave hleave => simp at hleave

/-- `decode_batch` returns or panics. -/
theorem JobStep.fits_decodeHook {pkt : Packet}
    (h : JobStep H b pools job (.decodeHook pkt) pools' job' act)
    (hf : JobCode.Fits ended job (.decodeHook pkt)) : JobOutcome ended job' act := by
  cases h with
  | decoded =>
      obtain ⟨hread, hat⟩ := hf
      refine .on rfl ⟨hread, rfl, hat.state_eq, hat.has, hat.calls_eq, ?_⟩ (hat.live rfl)
      change job.passed ++ _ = job.version.steps
      rw [hat.passed_eq, ← Version.steps_eq]
  | decodeFailed =>
      obtain ⟨-, hat⟩ := hf
      exact .on rfl ⟨.inr ⟨hat.has.1, .inl rfl⟩, hat.has, .inl hat.state_eq⟩ (hat.live rfl)
  | decodePanicked =>
      obtain ⟨-, hat⟩ := hf
      obtain ⟨-, hlock, hpkt, -, hout, hback⟩ := hat.has
      exact .on rfl ⟨.lost, ⟨.inl ⟨rfl, rfl⟩, ⟨rfl, hlock, hpkt, rfl, _, hout, hback⟩,
        .inl hat.state_eq⟩, .inl trivial⟩ (hat.live rfl)
  | leave hleave => simp at hleave

/-- `decode_packet` recycles the packet. -/
theorem JobStep.fits_giveBack {pkt : Packet} {result : BraidResult (List T.Resolution)}
    (h : JobStep H b pools job (.giveBack pkt result) pools' job' act)
    (hpackets : pools.packetsPoisoned = false)
    (hf : JobCode.Fits ended job (.giveBack pkt result)) : JobOutcome ended job' act := by
  cases h with
  | giveBackOk hp h =>
      obtain ⟨hread, hdec, hat⟩ := hf
      obtain ⟨-, rfl⟩ := giveBackPacket_spec hpackets h
      exact .on rfl ⟨hread, hdec, _, hat.has.2.2.2.2.1, hat.state_eq, hat.has.giveBack,
        hat.calls_eq, hat.passed_eq⟩ (hat.live rfl)
  | giveBackPoisoned h => simp [hpackets] at h
  | giveBackErr h =>
      obtain ⟨-, rfl⟩ := giveBackPacket_spec hpackets h
      have hfails := Job.Fails.giveBack hf
      exact .on rfl ⟨.givenBack, hfails, .inl trivial⟩ hfails.live
  | leave hleave => simp at hleave

/-- `finish_completed` ends the job. -/
theorem JobStep.fits_finishCompleted {values : List T.Resolution}
    (h : JobStep H b pools job (.finishCompleted values) pools' job' act)
    (hs : job.Sound) (hf : JobCode.Fits ended job (.finishCompleted values)) :
    JobOutcome ended job' act := by
  cases h with
  | completedPoisoned h => simp [hs.unpoisoned] at h
  | completed =>
      obtain ⟨hread, hdec, n, hout, hat⟩ := hf
      exact .ends rfl ⟨hat.has, hread, hat.passed_eq, n, hout, hat.calls_eq⟩
  | leave hleave => simp at hleave

/-- The next task is scheduled. -/
theorem JobStep.fits_schedule {next : JobTask}
    (h : JobStep H b pools job (.schedule next) pools' job' act)
    (hf : JobCode.Fits ended job (.schedule next)) : JobOutcome ended job' act := by
  cases h with
  | @scheduleStage i =>
      have hready : job.Ready (.stage i) := hf
      exact .schedule hready hready.live
  | submit hnext => exact .submit hnext hf (Job.Ready.live hf)
  | leave hleave => simp at hleave

/-- The next task was not taken. -/
theorem JobStep.fits_refused {next : JobTask} {error : BraidError}
    (h : JobStep H b pools job (.refused next error) pools' job' act)
    (hcode : (JobCode.refused next error : JobCode T).carries = 1)
    (hf : JobCode.Fits ended job (.refused next error)) : JobOutcome ended job' act := by
  cases h with
  | refusedStage => simp [JobCode.carries] at hcode
  | @refused next error hnext =>
      have hready : error = .executorShutdown ∧ job.Ready next := by
        cases next with
        | stage i => exact (hnext i rfl).elim
        | _ => exact hf
      obtain ⟨rfl, hready⟩ := hready
      obtain ⟨pkt, hhas⟩ := hready.inSlot
      exact .on rfl ⟨.inSlot pkt, ⟨.inr ⟨hhas.1, .inr (.inl ⟨rfl, rfl⟩)⟩, hhas,
        .inl hready.running⟩, .inr ⟨pkt, rfl⟩⟩ hready.live
  | leave hleave => simp at hleave

/-- `cleanup_packet` takes the packet of a task that failed. -/
theorem JobStep.fits_caught {error : BraidError}
    (h : JobStep H b pools job (.caught false error) pools' job' act)
    (hf : JobCode.Fits ended job (.caught false error)) : JobOutcome ended job' act := by
  cases h with
  | @caughtNone again error h =>
      obtain ⟨custody, hfails, hclosed | ⟨pkt, rfl⟩⟩ := hf
      · exact .on rfl ⟨custody, hclosed, hfails⟩ hfails.live
      · obtain ⟨-, ⟨-, hlock, hpkt, -⟩, -⟩ := hfails
        simp [hlock, hpkt] at h
  | @caught again error pkt h hp =>
      obtain ⟨custody, hfails, hclosed | ⟨pkt', rfl⟩⟩ := hf
      · exact (hclosed.slot hfails.2.1 h hp).elim
      · obtain ⟨hblame, hhas, hstate⟩ := hfails
        obtain rfl := Option.some.inj (hp.symm.trans hhas.2.2.1)
        rcases hstate with hrun | ⟨-, -, hc⟩
        · exact .on rfl ⟨hblame, hhas.take, .inl hrun⟩ (by rw [hrun]; rfl)
        · simp at hc
  | leave hleave => simp at hleave

/-- `cleanup_packet` gives the packet back. -/
theorem JobStep.fits_cleanup {pkt : Packet} {error : BraidError}
    (h : JobStep H b pools job (.cleanup false pkt error) pools' job' act)
    (hpackets : pools.packetsPoisoned = false)
    (hf : JobCode.Fits ended job (.cleanup false pkt error)) : JobOutcome ended job' act := by
  cases h with
  | @cleanup again error pkt pools' job' h =>
      obtain ⟨-, rfl⟩ := giveBackPacket_spec hpackets h
      have hfails := Job.Fails.giveBack hf
      exact .on rfl ⟨.givenBack, trivial, hfails⟩ hfails.live
  | leave hleave => simp at hleave

/-- `run_caught` ends the job. -/
theorem JobStep.fits_finish {error : BraidError}
    (h : JobStep H b pools job (.finish false error) pools' job' act)
    (hs : job.Sound) (hf : JobCode.Fits ended job (.finish false error)) :
    JobOutcome ended job' act := by
  cases h with
  | @finish again error =>
      obtain ⟨custody, hclosed, hfails⟩ := hf
      obtain ⟨hover, hsettled⟩ := hfails.finishWith hclosed hs.unpoisoned ended
      exact .ends hover hsettled
  | leave hleave => simp at hleave

/-- **A task that is responsible for its job** passes the job on or ends it. -/
theorem JobStep.fits (h : JobStep H b pools job code pools' job' act)
    (hpackets : pools.packetsPoisoned = false) (hscratch : pools.scratchPoisoned = false)
    (hs : job.Sound) (hcode : code.carries = 1) (hf : code.Fits ended job) :
    JobOutcome ended job' act := by
  cases code with
  | encode => exact h.fits_encode hf
  | mark => exact h.fits_mark hs hf
  | checkout => exact h.fits_checkout hpackets hf
  | scratch pkt => exact h.fits_scratch hscratch hf
  | encodeHook pkt => exact h.fits_encodeHook hf
  | encoded pkt result => exact h.fits_encoded hscratch hf
  | recycle pkt error => exact h.fits_recycle hpackets hf
  | store pkt => exact h.fits_store hf
  | stage i => exact h.fits_stage hf
  | stageLock i => exact h.fits_stageLock hf
  | stageHook i stage pkt => exact h.fits_stageHook hf
  | decode => exact h.fits_decode hf
  | take => exact h.fits_take hf
  | decodeHook pkt => exact h.fits_decodeHook hf
  | giveBack pkt result => exact h.fits_giveBack hpackets hf
  | finishCompleted values => exact h.fits_finishCompleted hs hf
  | schedule next => exact h.fits_schedule hf
  | refused next error => exact h.fits_refused hcode hf
  | caught again error =>
      cases again with
      | true => simp [JobCode.carries] at hcode
      | false => exact h.fits_caught hf
  | cleanup again pkt error =>
      cases again with
      | true => exact hf.elim
      | false => exact h.fits_cleanup hpackets hf
  | finish again error =>
      cases again with
      | true => simp [JobCode.carries] at hcode
      | false => exact h.fits_finish hs hf
  | await | released | ended => simp [JobCode.carries] at hcode

/-- The hook calls of a job go on with the script. -/
theorem Job.orderly_of_take {calls : List (Call T)} {n k : ℕ}
    (hcalls : calls = (job.script n).take k) (hout : job.checkedOut = [n]) :
    ∃ n, calls <+: job.script n ∧ (calls = [] ∨ job.checkedOut = [n]) :=
  ⟨n, hcalls ▸ List.take_prefix _ _, .inr hout⟩

/-- Nothing was delivered from a job that has not ended. -/
theorem Job.Sound.delivered (h : job.Sound) (hlive : job.record.state.terminal = false) :
    job.delivered = [] := by
  have hdel := h.delivers
  rw [Job.Delivers] at hdel
  split at hdel
  · next hs => simp [hs, JobRecordState.terminal] at hlive
  · next hs => simp [hs, JobRecordState.terminal] at hlive
  · exact hdel

/-- What was delivered stays in order while the record does. -/
theorem Job.Sound.of_fields (h : job.Sound) (hversion : job'.version = job.version)
    (hseen : job'.seen = job.seen) (hpoison : job'.recordPoisoned = job.recordPoisoned)
    (horder : ∃ n, job'.calls <+: job'.script n ∧ (job'.calls = [] ∨ job'.checkedOut = [n]))
    (hdel : job'.Delivers) : job'.Sound where
  snapshot := by rw [hversion, hseen, h.snapshot]
  unpoisoned := by rw [hpoison, h.unpoisoned]
  orderly := horder
  delivers := hdel

/-- What has not ended has delivered nothing, whatever its state. -/
theorem Job.Delivers.of_live (hdel : job.delivered = [])
    (hstate : ∀ values, job.record.state ≠ .completed values) : job.Delivers := by
  rw [Job.Delivers]
  split
  · next hs => exact (hstate _ hs).elim
  · next hs => exact (hstate _ hs).elim
  · exact hdel

/-- **A task that is responsible for its job** keeps what holds of it at all times. -/
theorem JobStep.sound (h : JobStep H b pools job code pools' job' act)
    (hpackets : pools.packetsPoisoned = false) (hs : job.Sound) (hcode : code.carries = 1)
    (hf : code.Fits ended job) : job'.Sound := by
  have hstill : ∀ {state}, job.record.state = state → state.terminal = false →
      job.delivered = [] := by
    rintro state rfl hlive
    exact hs.delivered hlive
  cases h with
  | mark =>
      refine hs.of_fields rfl rfl rfl hs.orderly (.of_live (hstill hf.state_eq rfl) ?_)
      simp [JobRecord.markRunning]
  | checkout => exact hs.of_fields rfl rfl rfl ⟨0, by simp [hf.calls_eq]⟩ hs.delivers
  | @scratch pkt =>
      refine hs.of_fields rfl rfl rfl ?_ hs.delivers
      refine Job.orderly_of_take (k := 1) ?_ hf.has.2.2.2.2.1
      simp [hf.calls_eq, Job.script, Version.take_script_encode]
  | @stageLock i pkt spec h hp hspec =>
      obtain ⟨hlt, pkt', hat⟩ := hf
      obtain rfl := Option.some.inj (hp.symm.trans hat.has.2.2.1)
      refine hs.of_fields rfl rfl rfl ?_ hs.delivers
      refine Job.orderly_of_take (k := i + 2) ?_ hat.has.2.2.2.2.1
      change job.calls ++ _ = (job.version.script _ _).take _
      rw [hat.calls_eq, Version.take_script_stage _ _ _ hspec]
      rfl
  | @take pkt h hp =>
      obtain ⟨⟨pkt', hat⟩, -⟩ := hf
      obtain rfl := Option.some.inj (hp.symm.trans hat.has.2.2.1)
      refine hs.of_fields rfl rfl rfl ⟨pkt.serial, ?_, .inr hat.has.2.2.2.2.1⟩ hs.delivers
      change job.calls ++ _ <+: job.version.script _ _
      rw [hat.calls_eq, Version.script_eq _ _ pkt.serial]
      exact List.prefix_rfl
  | encodePanicked | encodeFailed | encodedPoisoned | encoded | store | storePoisoned =>
      exact hs.of_fields rfl rfl rfl hs.orderly hs.delivers
  | stagePanicked | stageFailed | stagePassed =>
      exact hs.of_fields rfl rfl rfl hs.orderly hs.delivers
  | decodeCancelled | decode | takeInvalid | decodeFailed | decodePanicked | refused =>
      exact hs.of_fields rfl rfl rfl hs.orderly hs.delivers
  | scratchPoisoned | caught => exact hs.of_fields rfl rfl rfl hs.orderly hs.delivers
  | decoded =>
      obtain ⟨-, hat⟩ := hf
      refine hs.of_fields rfl rfl rfl hs.orderly (.of_live (hstill hat.state_eq rfl) ?_)
      simp [hat.state_eq]
  | recycle h | giveBackOk _ h | giveBackPoisoned _ h | giveBackErr h | cleanup h =>
      obtain ⟨-, rfl⟩ := giveBackPacket_spec hpackets h
      exact hs.of_fields rfl rfl rfl hs.orderly hs.delivers
  | completed =>
      obtain ⟨-, hdec, n, -, hat⟩ := hf
      exact hs.of_fields rfl rfl rfl hs.orderly ⟨hdec, hstill hat.state_eq rfl⟩
  | @finish again error =>
      cases again with
      | true => simp [JobCode.carries] at hcode
      | false =>
          obtain ⟨custody, -, hfails⟩ := hf
          have hdel := hs.delivered hfails.live
          unfold Job.finishWith
          rw [if_neg (by simp [hs.unpoisoned])]
          refine hs.of_fields rfl rfl rfl hs.orderly (.of_live hdel ?_)
          cases error <;> simp [JobRecord.finishCancelled, JobRecord.finishFailed]
  | _ => exact hs

/-! ### Tasks and rejections that are late -/

/-- A task whose job somebody else ends, or has ended, changes nothing but the error of a job
that has failed. -/
theorem JobStep.late (h : JobStep H b pools job code pools' job' act)
    (hcode : code.carries = 0) (hf : code.Fits ended job) (hrej : ended → job.Rejected) :
    pools' = pools ∧ (job' = job ∨ ended ∧ job' = job.finishWith .executorShutdown) ∧
      ((∃ r, act = .ret r) ∨ ∃ next, (act = .goto next ∨ act = .shutdown next) ∧
        next.carries = 0 ∧ ∀ job, next.Fits ended job) := by
  cases h with
  | refusedStage =>
      exact ⟨rfl, .inl rfl, .inr ⟨_, .inl rfl, rfl, fun _ => ⟨hf.1, hf.2⟩⟩⟩
  | @caughtNone again error h =>
      cases again with
      | true => exact ⟨rfl, .inl rfl, .inr ⟨_, .inl rfl, rfl, fun _ => ⟨hf.1, hf.2⟩⟩⟩
      | false => simp [JobCode.carries] at hcode
  | @caught again error pkt h hp =>
      cases again with
      | true =>
          obtain ⟨-, custody, hclosed, hhas⟩ := hrej hf.2
          exact (hclosed.slot hhas h hp).elim
      | false => simp [JobCode.carries] at hcode
  | @cleanup again error =>
      cases again with
      | true => exact hf.elim
      | false => simp [JobCode.carries] at hcode
  | @finish again error =>
      cases again with
      | true =>
          obtain ⟨rfl, hover⟩ := hf
          exact ⟨rfl, .inr ⟨hover, rfl⟩, .inr ⟨_, .inl rfl, rfl, fun _ => trivial⟩⟩
      | false => simp [JobCode.carries] at hcode
  | leave hleave hact =>
      rcases hact with rfl | rfl
      · exact ⟨rfl, .inl rfl, .inl ⟨_, rfl⟩⟩
      · exact ⟨rfl, .inl rfl, .inr ⟨_, .inr rfl, rfl, fun _ => trivial⟩⟩
  | @refused next _ hnext =>
      cases next with
      | stage i => exact (hnext i rfl).elim
      | _ => simp [JobCode.carries] at hcode
  | _ => simp [JobCode.carries] at hcode

/-- What a step of a reject side leads to. -/
inductive RejectOutcome (job : Job T) : Option RejectPoint → Prop
  | on {point : RejectPoint} (hfits : point.Fits job)
      (hlive : job.record.state.terminal = false) : RejectOutcome job (some point)
  | done (hrejected : job.Rejected) : RejectOutcome job none

/-- **A reject side** leads its job to its end. -/
theorem RejectStep.fits {point : RejectPoint} {next : Option RejectPoint}
    (h : RejectStep pools job point pools' job' next) (hpackets : pools.packetsPoisoned = false)
    (hs : job.Sound) (hf : point.Fits job) : RejectOutcome job' next := by
  cases h with
  | wait h =>
      obtain ⟨i, hready⟩ := hf
      exact .on ⟨i, hready⟩ hready.live
  | takeNone h =>
      obtain ⟨i, hready⟩ := hf
      have hslot := hready.slot
      rcases h with h | ⟨-, h⟩ <;> simp [h] at hslot
  | @take error pkt h hp =>
      obtain ⟨i, hready⟩ := hf
      obtain ⟨pkt', hhas⟩ := hready.inSlot
      obtain rfl := Option.some.inj (hp.symm.trans hhas.2.2.1)
      exact .on ⟨hready.running, hhas.take⟩ hready.live
  | giveBack h =>
      obtain ⟨hrun, hhas⟩ := hf
      obtain ⟨-, rfl⟩ := giveBackPacket_spec hpackets h
      refine .on ⟨hrun, hhas.giveBack⟩ ?_
      change job.record.state.terminal = false
      rw [hrun]
      rfl
  | failPoisoned h => simp [hs.unpoisoned] at h
  | fail => exact .done ⟨⟨_, rfl⟩, .givenBack, trivial, hf.2⟩

/-- A reject side keeps what holds of the job at all times. -/
theorem RejectStep.sound {point : RejectPoint} {next : Option RejectPoint}
    (h : RejectStep pools job point pools' job' next) (hpackets : pools.packetsPoisoned = false)
    (hs : job.Sound) (hf : point.Fits job) : job'.Sound := by
  cases h with
  | take => exact hs.of_fields rfl rfl rfl hs.orderly hs.delivers
  | giveBack h =>
      obtain ⟨-, rfl⟩ := giveBackPacket_spec hpackets h
      exact hs.of_fields rfl rfl rfl hs.orderly hs.delivers
  | fail =>
      have hdel : job.delivered = [] := hs.delivered (by rw [hf.1]; rfl)
      refine hs.of_fields rfl rfl rfl hs.orderly (.of_live hdel ?_)
      simp [JobRecord.finishFailed]
  | _ => exact hs

/-- A job that was rejected is settled. -/
theorem Job.Rejected.settled (h : job.Rejected) (hover : ended) : job.Settled ended := by
  obtain ⟨⟨error, hs⟩, hclosed⟩ := h
  rw [Job.Settled]
  rw [hs]
  exact ⟨hclosed, .inr (.inr (.inr hover))⟩

/-- A job that was rejected is over. -/
theorem Job.Rejected.isOver (h : job.Rejected) : job.Over := by
  obtain ⟨⟨error, hs⟩, -⟩ := h
  exact .inl (by rw [hs]; rfl)

/-- Ending a rejected job once more replaces the error at most. -/
theorem Job.Rejected.finishWith (h : job.Rejected) (hs : job.Sound) :
    (job.finishWith .executorShutdown).Rejected ∧
      (job.finishWith .executorShutdown).Sound := by
  have heq : job.finishWith .executorShutdown =
      { job with record := job.record.finishFailed .executorShutdown } := by
    simp [Job.finishWith, hs.unpoisoned]
  obtain ⟨⟨error, hstate⟩, hclosed⟩ := h
  have hdel := hs.delivers
  simp only [Job.Delivers, hstate] at hdel
  rw [heq]
  refine ⟨⟨⟨_, rfl⟩, hclosed⟩, hs.of_fields rfl rfl rfl hs.orderly (.of_live hdel ?_)⟩
  simp [JobRecord.finishFailed]

end Jobs

end Braids.Runtime
