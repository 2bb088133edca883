import Mathlib.Tactic.Common
import Braids.Executor.Contract
import Braids.Runtime.Client

/-!
# Anatomy of a Step of the Stack

The inversion lemmas of `Braids.Runtime`: `JobStep` lists what a task of a job can do,
guards included, `RejectStep` its reject side, `PlannerStep` a call on the planner state,
and `StackStep` the whole stack. Later proofs split on these cases and never unfold the step
functions. `stackContract` is what `stack.rs` may conclude from the results of its calls.
-/

namespace Braids.Runtime

variable {T : Types} {H : Hooks T}

/-! ### Tasks of a job -/

/-- What a task of a job can do. -/
inductive JobStep (H : Hooks T) (b : BackendId) (pools : Pools) (job : Job T) :
    JobCode T → Pools → Job T → ClientAct (JobCode T) JobTask → Prop
  | encodeCancelled (h : job.record.cancel = true) :
      JobStep H b pools job .encode pools job (.goto (.caught false .cancelled))
  | encode (h : job.record.cancel = false) :
      JobStep H b pools job .encode pools job (.goto .mark)
  | markPoisoned (h : job.recordPoisoned = true) :
      JobStep H b pools job .mark pools job
        (.goto (.caught false (.poisoned "stack.job_state")))
  | mark (h : job.recordPoisoned = false) :
      JobStep H b pools job .mark pools { job with record := job.record.markRunning }
        (.goto .checkout)
  | checkoutPoisoned (h : pools.packetsPoisoned = true) :
      JobStep H b pools job .checkout pools job
        (.goto (.caught false (.poisoned "stack.packet_pool")))
  | checkout {pools' : Pools} {pkt : Packet} (h : pools.packetsPoisoned = false)
      (hpkt : pools.checkout job.version.compiled.staticBuffers = (pools', pkt)) :
      JobStep H b pools job .checkout pools'
        { job with
          holding := some pkt.serial
          checkedOut := job.checkedOut ++ [pkt.serial] } (.goto (.scratch pkt))
  | scratchPoisoned {pkt : Packet} (h : pools.scratchPoisoned = true) :
      JobStep H b pools job (.scratch pkt) pools { job with holding := none }
        (.goto (.caught false (.poisoned "stack.batch_scratch")))
  | scratch {pkt : Packet} (h : pools.scratchPoisoned = false) :
      JobStep H b pools job (.scratch pkt) pools
        { job with
          calls := job.calls ++ [.encodeBatch job.version.compiled job.queries pkt.serial] }
        (.goto (.encodeHook pkt))
  | encodeReturned {pkt : Packet} {data : PacketData} {result : BraidResult Unit} {n : ℕ}
      {r : HookResult Unit}
      (h : H.encodeBatch n job.version.compiled job.queries pkt.data = (r, data))
      (hr : r.result? = some result) :
      JobStep H b pools job (.encodeHook pkt) pools job
        (.goto (.encoded { pkt with data } result))
  | encodePanicked {pkt : Packet} {data : PacketData} {n : ℕ}
      (h : H.encodeBatch n job.version.compiled job.queries pkt.data = (.panicked, data)) :
      JobStep H b pools job (.encodeHook pkt) pools
        { job with holding := none, panicked := true } (.goto (.caught false taskPanicked))
  | encodedPoisoned {pkt : Packet} {result : BraidResult Unit}
      (h : pools.scratchPoisoned = true) :
      JobStep H b pools job (.encoded pkt result) pools { job with holding := none }
        (.goto (.caught false (.poisoned "stack.batch_scratch")))
  | encoded {pkt : Packet} {result : BraidResult Unit} (h : pools.scratchPoisoned = false)
      (hok : result = .ok ())
      (hval : H.validateRuntimePacket job.version.compiled pkt.data = .ok ()) :
      JobStep H b pools job (.encoded pkt result) pools
        { job with passed := job.passed ++ [.encode] } (.goto (.store pkt))
  | encodeFailed {pkt : Packet} {result : BraidResult Unit} {error : BraidError}
      (h : pools.scratchPoisoned = false) :
      JobStep H b pools job (.encoded pkt result) pools { job with failed := true }
        (.goto (.recycle pkt error))
  | recycle {pkt : Packet} {error : BraidError} {pools' : Pools} {job' : Job T}
      (h : giveBackPacket pools job pkt = (pools', job')) :
      JobStep H b pools job (.recycle pkt error) pools' job' (.goto (.caught false error))
  | storePoisoned {pkt : Packet} (h : job.packetLock = .poisoned) :
      JobStep H b pools job (.store pkt) pools { job with holding := none }
        (.goto (.caught false packetPoisoned))
  | storeTwice {pkt old : Packet} (h : job.packetLock = .free) (hp : job.packet = some old) :
      JobStep H b pools job (.store pkt) pools job
        (.goto (.caught false (.message "job packet already stored")))
  | store {pkt : Packet} (h : job.packetLock = .free) (hp : job.packet = none) :
      JobStep H b pools job (.store pkt) pools { job with packet := some pkt }
        (.goto (.schedule job.version.afterEncode))
  | stageCancelled {i : ℕ} (h : job.record.cancel = true) :
      JobStep H b pools job (.stage i) pools job (.goto (.caught false .cancelled))
  | stage {i : ℕ} (h : job.record.cancel = false) :
      JobStep H b pools job (.stage i) pools job (.goto (.stageLock i))
  | stagePoisoned {i : ℕ} (h : job.packetLock = .poisoned) :
      JobStep H b pools job (.stageLock i) pools job (.goto (.caught false packetPoisoned))
  | stageNoPacket {i : ℕ} (h : job.packetLock = .free) (hp : job.packet = none) :
      JobStep H b pools job (.stageLock i) pools job (.goto (.caught false packetMissing))
  | stageMissing {i : ℕ} {pkt : Packet} (h : job.packetLock = .free)
      (hp : job.packet = some pkt) (hs : job.version.stages[i]? = none) :
      JobStep H b pools job (.stageLock i) pools job
        (.goto (.caught false (.message "missing stage")))
  | stageLock {i : ℕ} {pkt : Packet} {stage : StageSpec} (h : job.packetLock = .free)
      (hp : job.packet = some pkt) (hs : job.version.stages[i]? = some stage) :
      JobStep H b pools job (.stageLock i) pools
        { job with
          packetLock := .held
          calls := job.calls ++ [.runStage job.version.prepared i stage pkt.serial] }
        (.goto (.stageHook i stage pkt))
  | stagePanicked {i : ℕ} {stage : StageSpec} {pkt : Packet} {data : PacketData}
      {cancelled : Bool} {n : ℕ}
      (h : H.runStage n job.version.prepared i stage pkt.data job.record.cancel =
        (.panicked, data, cancelled)) :
      JobStep H b pools job (.stageHook i stage pkt) pools
        { job with
          packet := some { pkt with data }
          packetLock := .poisoned
          record := { job.record with cancel := job.record.cancel || cancelled }
          panicked := true } (.goto (.caught false taskPanicked))
  | stageFailed {i : ℕ} {stage : StageSpec} {pkt : Packet} {data : PacketData}
      {cancelled : Bool} {error : BraidError} :
      JobStep H b pools job (.stageHook i stage pkt) pools
        { job with
          packet := some { pkt with data }
          packetLock := .free
          record := { job.record with cancel := job.record.cancel || cancelled }
          failed := true } (.goto (.caught false error))
  | stagePassed {i : ℕ} {stage : StageSpec} {pkt : Packet} {data : PacketData}
      {cancelled : Bool} {n : ℕ}
      (h : H.runStage n job.version.prepared i stage pkt.data job.record.cancel =
        (.ok (), data, cancelled))
      (hval : H.validateRuntimePacket job.version.compiled data = .ok ()) :
      JobStep H b pools job (.stageHook i stage pkt) pools
        { job with
          packet := some { pkt with data }
          packetLock := .free
          record := { job.record with cancel := job.record.cancel || cancelled }
          passed := job.passed ++ [.stage i] } (.goto (.schedule (job.version.afterStage i)))
  | decodeCancelled (h : job.record.cancel = true) :
      JobStep H b pools job .decode pools { job with decodeRead := some true }
        (.goto (.caught false .cancelled))
  | decode (h : job.record.cancel = false) :
      JobStep H b pools job .decode pools { job with decodeRead := some false } (.goto .take)
  | takePoisoned (h : job.packetLock = .poisoned) :
      JobStep H b pools job .take pools job (.goto (.caught false packetPoisoned))
  | takeMissing (h : job.packetLock = .free) (hp : job.packet = none) :
      JobStep H b pools job .take pools job (.goto (.caught false packetMissing))
  | takeInvalid {pkt : Packet} {error : BraidError} (h : job.packetLock = .free)
      (hp : job.packet = some pkt)
      (hval : H.validateRuntimePacket job.version.compiled pkt.data = .error error) :
      JobStep H b pools job .take pools { job with packet := none, failed := true }
        (.goto (.giveBack pkt (.error error)))
  | take {pkt : Packet} (h : job.packetLock = .free) (hp : job.packet = some pkt)
      (hval : H.validateRuntimePacket job.version.compiled pkt.data = .ok ()) :
      JobStep H b pools job .take pools
        { job with
          packet := none
          calls := job.calls ++ [.decodeBatch job.version.compiled pkt.serial] }
        (.goto (.decodeHook pkt))
  | decoded {pkt : Packet} {values : List T.Resolution} {n : ℕ}
      (h : H.decodeBatch n job.version.compiled pkt.data = .ok values) :
      JobStep H b pools job (.decodeHook pkt) pools
        { job with decoded := some values, passed := job.passed ++ [.decode] }
        (.goto (.giveBack pkt (.ok values)))
  | decodeFailed {pkt : Packet} {error : BraidError} {n : ℕ}
      (h : H.decodeBatch n job.version.compiled pkt.data = .err error) :
      JobStep H b pools job (.decodeHook pkt) pools { job with failed := true }
        (.goto (.giveBack pkt (.error error)))
  | decodePanicked {pkt : Packet} {n : ℕ}
      (h : H.decodeBatch n job.version.compiled pkt.data = .panicked) :
      JobStep H b pools job (.decodeHook pkt) pools
        { job with holding := none, panicked := true } (.goto (.caught false taskPanicked))
  | giveBackOk {pkt : Packet} {values : List T.Resolution} {pools' : Pools} {job' : Job T}
      (hp : pools.packetsPoisoned = false)
      (h : giveBackPacket pools job pkt = (pools', job')) :
      JobStep H b pools job (.giveBack pkt (.ok values)) pools' job'
        (.goto (.finishCompleted values))
  | giveBackPoisoned {pkt : Packet} {values : List T.Resolution} {pools' : Pools}
      {job' : Job T} (hp : pools.packetsPoisoned = true)
      (h : giveBackPacket pools job pkt = (pools', job')) :
      JobStep H b pools job (.giveBack pkt (.ok values)) pools' job'
        (.goto (.caught false (.poisoned "stack.packet_pool")))
  | giveBackErr {pkt : Packet} {error : BraidError} {pools' : Pools} {job' : Job T}
      (h : giveBackPacket pools job pkt = (pools', job')) :
      JobStep H b pools job (.giveBack pkt (.error error)) pools' job'
        (.goto (.caught false error))
  | completedPoisoned {values : List T.Resolution} (h : job.recordPoisoned = true) :
      JobStep H b pools job (.finishCompleted values) pools job
        (.goto (.caught false (.poisoned "stack.job_state")))
  | completed {values : List T.Resolution} (h : job.recordPoisoned = false) :
      JobStep H b pools job (.finishCompleted values) pools
        { job with record := job.record.finishCompleted values } (.goto .released)
  | scheduleStage {i : ℕ} :
      JobStep H b pools job (.schedule (.stage i)) pools job
        (.schedule b (.stage i) (.await (.stage i)))
  | submit {next : JobTask} (h : ∀ i, next ≠ .stage i) :
      JobStep H b pools job (.schedule next) pools job (.submit next (.await next))
  | refusedStage {i : ℕ} {error : BraidError} :
      JobStep H b pools job (.refused (.stage i) error) pools job (.goto (.caught true error))
  | refused {next : JobTask} {error : BraidError} (h : ∀ i, next ≠ .stage i) :
      JobStep H b pools job (.refused next error) pools { job with unsent := true }
        (.goto (.caught false error))
  | caughtNone {again : Bool} {error : BraidError}
      (h : job.packetLock = .poisoned ∨ job.packetLock = .free ∧ job.packet = none) :
      JobStep H b pools job (.caught again error) pools job (.goto (.finish again error))
  | caught {again : Bool} {error : BraidError} {pkt : Packet} (h : job.packetLock = .free)
      (hp : job.packet = some pkt) :
      JobStep H b pools job (.caught again error) pools { job with packet := none }
        (.goto (.cleanup again pkt error))
  | cleanup {again : Bool} {error : BraidError} {pkt : Packet} {pools' : Pools}
      {job' : Job T} (h : giveBackPacket pools job pkt = (pools', job')) :
      JobStep H b pools job (.cleanup again pkt error) pools' job' (.goto (.finish again error))
  | finish {again : Bool} {error : BraidError} :
      JobStep H b pools job (.finish again error) pools (job.finishWith error) (.goto .released)
  | leave {code : JobCode T} {act : ClientAct (JobCode T) JobTask}
      (hcode : code = .released ∨ code = .ended) (hact : act = .ret .ok ∨ act = .shutdown .ended) :
      JobStep H b pools job code pools job act

section Points

variable {b : BackendId} {n : ℕ} {pools pools' : Pools} {job job' : Job T}
  {act : ClientAct (JobCode T) JobTask}

/-- `encode_batch` returns or panics. -/
theorem jobStep_encodeHook {pkt : Packet}
    (h : jobStep H b n pools job (.encodeHook pkt) = some (pools', job', act)) :
    JobStep H b pools job (.encodeHook pkt) pools' job' act := by
  unfold jobStep at h
  simp only at h
  split at h <;> simp only [Option.some.injEq, Prod.mk.injEq] at h <;>
    obtain ⟨rfl, rfl, rfl⟩ := h
  · next hr => exact .encodeReturned hr rfl
  · next hr => exact .encodeReturned hr rfl
  · next hr => exact .encodePanicked hr

/-- `encode_packet` validates what `encode_batch` left. -/
theorem jobStep_encoded {pkt : Packet} {result : BraidResult Unit}
    (h : jobStep H b n pools job (.encoded pkt result) = some (pools', job', act)) :
    JobStep H b pools job (.encoded pkt result) pools' job' act := by
  unfold jobStep at h
  simp only at h
  split at h
  · next hc =>
      simp only [Option.some.injEq, Prod.mk.injEq] at h
      obtain ⟨rfl, rfl, rfl⟩ := h
      exact .encodedPoisoned hc
  · next hc =>
      split at h <;> simp only [Option.some.injEq, Prod.mk.injEq] at h <;>
        obtain ⟨rfl, rfl, rfl⟩ := h
      · next hval =>
          cases result with
          | ok => exact .encoded (by simpa using hc) rfl hval
          | error e => simp [Except.bind] at hval
      · exact .encodeFailed (by simpa using hc)

/-- `store_packet` puts the packet into the slot of the job. -/
theorem jobStep_store {pkt : Packet}
    (h : jobStep H b n pools job (.store pkt) = some (pools', job', act)) :
    JobStep H b pools job (.store pkt) pools' job' act := by
  unfold jobStep at h
  simp only at h
  split at h <;> simp only [Option.some.injEq, Prod.mk.injEq, reduceCtorEq] at h <;>
    obtain ⟨rfl, rfl, rfl⟩ := h
  · next hl => exact .storePoisoned hl
  · next hl hp => exact .storeTwice hl hp
  · next hl hp => exact .store hl hp

/-- `stage_step` locks the packet slot. -/
theorem jobStep_stageLock {i : ℕ}
    (h : jobStep H b n pools job (.stageLock i) = some (pools', job', act)) :
    JobStep H b pools job (.stageLock i) pools' job' act := by
  unfold jobStep at h
  simp only at h
  split at h <;> simp only [Option.some.injEq, Prod.mk.injEq, reduceCtorEq] at h <;>
    obtain ⟨rfl, rfl, rfl⟩ := h
  · next hl => exact .stagePoisoned hl
  · next hl hp => exact .stageNoPacket hl hp
  · next hl hp hs => exact .stageMissing hl hp hs
  · next hl hp hs => exact .stageLock hl hp hs

/-- `run_stage` returns or panics, with the packet slot locked. -/
theorem jobStep_stageHook {i : ℕ} {stage : StageSpec} {pkt : Packet}
    (h : jobStep H b n pools job (.stageHook i stage pkt) = some (pools', job', act)) :
    JobStep H b pools job (.stageHook i stage pkt) pools' job' act := by
  rcases hr : H.runStage n job.version.prepared i stage pkt.data job.record.cancel with
    ⟨result, data, cancelled⟩
  cases result with
  | panicked =>
      unfold jobStep at h
      simp only [hr, Option.some.injEq, Prod.mk.injEq] at h
      obtain ⟨rfl, rfl, rfl⟩ := h
      exact .stagePanicked hr
  | err error =>
      unfold jobStep at h
      simp only [hr, Option.some.injEq, Prod.mk.injEq] at h
      obtain ⟨rfl, rfl, rfl⟩ := h
      exact .stageFailed
  | ok =>
      unfold jobStep at h
      simp only [hr] at h
      split at h <;> simp only [Option.some.injEq, Prod.mk.injEq] at h <;>
        obtain ⟨rfl, rfl, rfl⟩ := h
      · exact .stageFailed
      · next hval => exact .stagePassed hr hval

/-- `decode_step` looks at the cancel flag. -/
theorem jobStep_decode (h : jobStep H b n pools job .decode = some (pools', job', act)) :
    JobStep H b pools job .decode pools' job' act := by
  unfold jobStep at h
  simp only [Option.some.injEq, Prod.mk.injEq] at h
  obtain ⟨rfl, rfl, rfl⟩ := h
  split
  · next hc =>
      rw [hc]
      exact .decodeCancelled hc
  · next hc =>
      have hc : job.record.cancel = false := by simpa using hc
      rw [hc]
      exact .decode hc

/-- `decode_packet` takes the packet and validates it. -/
theorem jobStep_take (h : jobStep H b n pools job .take = some (pools', job', act)) :
    JobStep H b pools job .take pools' job' act := by
  unfold jobStep at h
  simp only at h
  split at h
  · simp at h
  · next hl =>
      simp only [Option.some.injEq, Prod.mk.injEq] at h
      obtain ⟨rfl, rfl, rfl⟩ := h
      exact .takePoisoned hl
  · next hl hp =>
      simp only [Option.some.injEq, Prod.mk.injEq] at h
      obtain ⟨rfl, rfl, rfl⟩ := h
      exact .takeMissing hl hp
  · next hl hp =>
      split at h <;> simp only [Option.some.injEq, Prod.mk.injEq] at h <;>
        obtain ⟨rfl, rfl, rfl⟩ := h
      · next hval => exact .takeInvalid hl hp hval
      · next hval => exact .take hl hp hval

/-- `decode_batch` returns or panics. -/
theorem jobStep_decodeHook {pkt : Packet}
    (h : jobStep H b n pools job (.decodeHook pkt) = some (pools', job', act)) :
    JobStep H b pools job (.decodeHook pkt) pools' job' act := by
  unfold jobStep at h
  simp only at h
  split at h <;> simp only [Option.some.injEq, Prod.mk.injEq] at h <;>
    obtain ⟨rfl, rfl, rfl⟩ := h
  · next hr => exact .decoded hr
  · next hr => exact .decodeFailed hr
  · next hr => exact .decodePanicked hr

/-- `decode_packet` recycles the packet. -/
theorem jobStep_giveBack {pkt : Packet} {result : BraidResult (List T.Resolution)}
    (h : jobStep H b n pools job (.giveBack pkt result) = some (pools', job', act)) :
    JobStep H b pools job (.giveBack pkt result) pools' job' act := by
  cases result with
  | error e =>
      unfold jobStep at h
      simp only [Option.some.injEq, Prod.mk.injEq] at h
      obtain ⟨rfl, rfl, rfl⟩ := h
      exact .giveBackErr rfl
  | ok values =>
      unfold jobStep at h
      simp only [Option.some.injEq, Prod.mk.injEq] at h
      obtain ⟨rfl, rfl, rfl⟩ := h
      split
      · next hp => exact .giveBackPoisoned hp rfl
      · next hp => exact .giveBackOk (by simpa using hp) rfl

/-- `cleanup_packet` takes the packet of a task that failed. -/
theorem jobStep_caught {again : Bool} {error : BraidError}
    (h : jobStep H b n pools job (.caught again error) = some (pools', job', act)) :
    JobStep H b pools job (.caught again error) pools' job' act := by
  unfold jobStep at h
  simp only at h
  split at h <;> simp only [Option.some.injEq, Prod.mk.injEq, reduceCtorEq] at h <;>
    obtain ⟨rfl, rfl, rfl⟩ := h
  · next hl => exact .caughtNone (.inl hl)
  · next hl hp => exact .caughtNone (.inr ⟨hl, hp⟩)
  · next hl hp => exact .caught hl hp

end Points

/-- Every step of a task is a `JobStep`. -/
theorem jobStep_cases {b : BackendId} {n : ℕ} {pools pools' : Pools} {job job' : Job T}
    {code : JobCode T} {act : ClientAct (JobCode T) JobTask}
    (h : jobStep H b n pools job code = some (pools', job', act)) :
    JobStep H b pools job code pools' job' act := by
  cases code with
  | encode =>
      simp only [jobStep, Option.some.injEq, Prod.mk.injEq] at h
      obtain ⟨rfl, rfl, rfl⟩ := h
      split
      · next hc => exact .encodeCancelled hc
      · next hc => exact .encode (by simpa using hc)
  | mark =>
      simp only [jobStep] at h
      split at h <;> simp only [Option.some.injEq, Prod.mk.injEq] at h <;>
        obtain ⟨rfl, rfl, rfl⟩ := h
      · next hc => exact .markPoisoned hc
      · next hc => exact .mark (by simpa using hc)
  | checkout =>
      simp only [jobStep] at h
      split at h <;> simp only [Option.some.injEq, Prod.mk.injEq] at h <;>
        obtain ⟨rfl, rfl, rfl⟩ := h
      · next hc => exact .checkoutPoisoned hc
      · next hc => exact .checkout (by simpa using hc) rfl
  | scratch pkt =>
      simp only [jobStep] at h
      split at h <;> simp only [Option.some.injEq, Prod.mk.injEq] at h <;>
        obtain ⟨rfl, rfl, rfl⟩ := h
      · next hc => exact .scratchPoisoned hc
      · next hc => exact .scratch (by simpa using hc)
  | encodeHook pkt => exact jobStep_encodeHook h
  | encoded pkt result => exact jobStep_encoded h
  | recycle pkt error =>
      simp only [jobStep, Option.some.injEq, Prod.mk.injEq] at h
      obtain ⟨rfl, rfl, rfl⟩ := h
      exact .recycle rfl
  | store pkt => exact jobStep_store h
  | stage i =>
      simp only [jobStep, Option.some.injEq, Prod.mk.injEq] at h
      obtain ⟨rfl, rfl, rfl⟩ := h
      split
      · next hc => exact .stageCancelled hc
      · next hc => exact .stage (by simpa using hc)
  | stageLock i => exact jobStep_stageLock h
  | stageHook i stage pkt => exact jobStep_stageHook h
  | decode => exact jobStep_decode h
  | take => exact jobStep_take h
  | decodeHook pkt => exact jobStep_decodeHook h
  | giveBack pkt result => exact jobStep_giveBack h
  | finishCompleted values =>
      simp only [jobStep] at h
      split at h <;> simp only [Option.some.injEq, Prod.mk.injEq] at h <;>
        obtain ⟨rfl, rfl, rfl⟩ := h
      · next hc => exact .completedPoisoned hc
      · next hc => exact .completed (by simpa using hc)
  | schedule next =>
      cases next <;> simp only [jobStep, Option.some.injEq, Prod.mk.injEq] at h <;>
        obtain ⟨rfl, rfl, rfl⟩ := h
      · exact .submit (by simp)
      · exact .scheduleStage
      · exact .submit (by simp)
  | await next => simp [jobStep] at h
  | refused next error =>
      cases next <;> simp only [jobStep, Option.some.injEq, Prod.mk.injEq] at h <;>
        obtain ⟨rfl, rfl, rfl⟩ := h
      · exact .refused (by simp)
      · exact .refusedStage
      · exact .refused (by simp)
  | caught again error => exact jobStep_caught h
  | cleanup again pkt error =>
      simp only [jobStep, Option.some.injEq, Prod.mk.injEq] at h
      obtain ⟨rfl, rfl, rfl⟩ := h
      exact .cleanup rfl
  | finish again error =>
      simp only [jobStep, Option.some.injEq, Prod.mk.injEq] at h
      obtain ⟨rfl, rfl, rfl⟩ := h
      exact .finish
  | released =>
      simp only [jobStep, Option.some.injEq, Prod.mk.injEq] at h
      obtain ⟨rfl, rfl, rfl⟩ := h
      split <;> exact .leave (.inl rfl) (by simp)
  | ended =>
      simp only [jobStep, Option.some.injEq, Prod.mk.injEq] at h
      obtain ⟨rfl, rfl, rfl⟩ := h
      exact .leave (.inr rfl) (.inl rfl)

/-- What the reject side of a task can do. -/
inductive RejectStep (pools : Pools) (job : Job T) :
    RejectPoint → Pools → Job T → Option RejectPoint → Prop
  | wait {error : BraidError} (h : job.packetLock = .held) :
      RejectStep pools job (.take error) pools job (some (.take error))
  | takeNone {error : BraidError}
      (h : job.packetLock = .poisoned ∨ job.packetLock = .free ∧ job.packet = none) :
      RejectStep pools job (.take error) pools job (some (.fail error))
  | take {error : BraidError} {pkt : Packet} (h : job.packetLock = .free)
      (hp : job.packet = some pkt) :
      RejectStep pools job (.take error) pools { job with packet := none }
        (some (.giveBack pkt error))
  | giveBack {error : BraidError} {pkt : Packet} {pools' : Pools} {job' : Job T}
      (h : giveBackPacket pools job pkt = (pools', job')) :
      RejectStep pools job (.giveBack pkt error) pools' job' (some (.fail error))
  | failPoisoned {error : BraidError} (h : job.recordPoisoned = true) :
      RejectStep pools job (.fail error) pools job none
  | fail {error : BraidError} (h : job.recordPoisoned = false) :
      RejectStep pools job (.fail error) pools
        { job with record := job.record.finishFailed error } none

/-- Every step of a reject side is a `RejectStep`. -/
theorem rejectJob_cases {pools pools' : Pools} {job job' : Job T} {point : RejectPoint}
    {next : Option RejectPoint} (h : rejectJob pools job point = (pools', job', next)) :
    RejectStep pools job point pools' job' next := by
  cases point with
  | take error =>
      simp only [rejectJob] at h
      split at h <;> simp only [Prod.mk.injEq] at h <;> obtain ⟨rfl, rfl, rfl⟩ := h
      · next hl => exact .wait hl
      · next hl => exact .takeNone (.inl hl)
      · next hl hp => exact .takeNone (.inr ⟨hl, hp⟩)
      · next hl hp => exact .take hl hp
  | giveBack pkt error =>
      simp only [rejectJob, Prod.mk.injEq] at h
      obtain ⟨rfl, rfl, rfl⟩ := h
      exact .giveBack rfl
  | fail error =>
      simp only [rejectJob, Prod.mk.injEq] at h
      obtain ⟨rfl, rfl, rfl⟩ := h
      split
      · next hp => exact .failPoisoned hp
      · next hp => exact .fail (by simpa using hp)

/-! ### Calls on the planner state -/

/-- What a call on the planner state can do. -/
inductive PlannerStep (H : Hooks T) (b : BackendId) (m : PlannerMem T) :
    PlannerCode T → PlannerMem T → ClientAct (PlannerCode T) JobTask → Prop
  | poisoned {code : PlannerCode T} (h : m.stateLock = .poisoned) :
      PlannerStep H b m code m (.ret (.err (.poisoned "stack.state")))
  | apply {changes : List T.Change} (h : m.stateLock = .free) :
      PlannerStep H b m (.apply changes) { m with stateLock := .held }
        (.goto (.applyHook changes))
  | replace {spec : T.Spec} (h : m.stateLock = .free) :
      PlannerStep H b m (.replace spec) { m with stateLock := .held } (.goto (.replaceHook spec))
  | recompile (h : m.stateLock = .free) :
      PlannerStep H b m .recompile { m with stateLock := .held }
        (.goto (.scratch ⟨none, m.state, m.snapshot⟩))
  | update {changes : List T.Change} (h : m.stateLock = .free) :
      PlannerStep H b m (.update changes) { m with stateLock := .held }
        (.goto (.updateHook changes m.snapshot))
  | edited {code : PlannerCode T} {state : T.State} {r : CallResult}
      (hcode : (∃ changes, code = .applyHook changes) ∨ ∃ spec, code = .replaceHook spec) :
      PlannerStep H b m code { m with state, stateLock := .free } (.ret r)
  | editPanicked {code : PlannerCode T} {state : T.State}
      (hcode : (∃ changes, code = .applyHook changes) ∨ ∃ spec, code = .replaceHook spec) :
      PlannerStep H b m code { m with state }.unwind (.ret .panicked)
  | updated {changes : List T.Change} {before : Snapshot T} {next : T.State} {n : ℕ}
      (h : H.updatedState n m.state changes = .ok next) :
      PlannerStep H b m (.updateHook changes before) m
        (.goto (.scratch ⟨some changes, next, before⟩))
  | updateFailed {changes : List T.Change} {before : Snapshot T} {error : BraidError} :
      PlannerStep H b m (.updateHook changes before) m
        (.goto (.fail ⟨some changes, m.state, before⟩ error))
  | updatePanicked {changes : List T.Change} {before : Snapshot T} :
      PlannerStep H b m (.updateHook changes before) m.unwind (.ret .panicked)
  | scratchPoisoned {call : Transaction T} (h : m.scratchLock = .poisoned) :
      PlannerStep H b m (.scratch call) m
        (.goto (.fail call (.poisoned "stack.planner_scratch")))
  | scratch {call : Transaction T} (h : m.scratchLock = .free) :
      PlannerStep H b m (.scratch call) { m with scratchLock := .held }
        (.goto (.compileHook call))
  | compiled {call : Transaction T} {compiled : CompiledPlan T.PlannerMeta} {n : ℕ}
      (h : H.compile n call.next = .ok compiled) (hval : compiled.validate = .ok ()) :
      PlannerStep H b m (.compileHook call) { m with scratchLock := .free }
        (.goto (.computeScratch call compiled))
  | compileFailed {call : Transaction T} {error : BraidError} :
      PlannerStep H b m (.compileHook call) { m with scratchLock := .free }
        (.goto (.fail call error))
  | compilePanicked {call : Transaction T} :
      PlannerStep H b m (.compileHook call) { m.unwind with scratchLock := .poisoned }
        (.ret .panicked)
  | computeScratch {call : Transaction T} {compiled : CompiledPlan T.PlannerMeta} :
      PlannerStep H b m (.computeScratch call compiled) m (.goto (.reuse call compiled))
  | computeScratchPoisoned {call : Transaction T} {compiled : CompiledPlan T.PlannerMeta}
      (h : m.computeScratchPoisoned = true) :
      PlannerStep H b m (.computeScratch call compiled) m
        (.goto (.fail call (.poisoned "stack.compute_scratch")))
  | reusePoisoned {call : Transaction T} {compiled : CompiledPlan T.PlannerMeta}
      (h : m.preparedPoolPoisoned = true) :
      PlannerStep H b m (.reuse call compiled) m
        (.goto (.fail call (.poisoned "stack.prepared_pool")))
  | reuse {call : Transaction T} {compiled : CompiledPlan T.PlannerMeta} :
      PlannerStep H b m (.reuse call compiled) { m with preparedPool := m.preparedPool.tail }
        (.goto (.prepare call compiled m.preparedPool.head?))
  | prepare {call : Transaction T} {compiled : CompiledPlan T.PlannerMeta}
      {reuse : Option T.Prepared} :
      PlannerStep H b m (.prepare call compiled reuse) { m with asked := m.asked ++ [compiled] }
        (.prepare b (.prepareHook m.asked.length compiled reuse)
          (.preparing m.asked.length call compiled))
  | prepareOk {number n : ℕ} {compiled : CompiledPlan T.PlannerMeta}
      {reuse : Option T.Prepared} {prepared : T.Prepared}
      (h : H.prepare n compiled reuse = .ok prepared) :
      PlannerStep H b m (.prepareHook number compiled reuse)
        { m with results := Function.update m.results number (some prepared) } (.ret .ok)
  | prepareFailed {number : ℕ} {compiled : CompiledPlan T.PlannerMeta}
      {reuse : Option T.Prepared} {error : BraidError} :
      PlannerStep H b m (.prepareHook number compiled reuse) m (.ret (.err error))
  | preparePanicked {number : ℕ} {compiled : CompiledPlan T.PlannerMeta}
      {reuse : Option T.Prepared} :
      PlannerStep H b m (.prepareHook number compiled reuse) { m with panicked := true }
        (.ret .panicked)
  | prepared {number : ℕ} {call : Transaction T} {compiled : CompiledPlan T.PlannerMeta}
      {prepared : T.Prepared} (h : m.results number = some prepared) :
      PlannerStep H b m (.prepared number call compiled .ok) m
        (.goto (.giveScratch call compiled prepared))
  | preparedErr {number : ℕ} {call : Transaction T} {compiled : CompiledPlan T.PlannerMeta}
      {error : BraidError} :
      PlannerStep H b m (.prepared number call compiled (.err error)) m
        (.goto (.fail call error))
  | preparedPanicked {number : ℕ} {call : Transaction T}
      {compiled : CompiledPlan T.PlannerMeta} :
      PlannerStep H b m (.prepared number call compiled .panicked) m.unwind (.ret .panicked)
  | giveScratchPoisoned {call : Transaction T} {compiled : CompiledPlan T.PlannerMeta}
      {prepared : T.Prepared} (h : m.computeScratchPoisoned = true) :
      PlannerStep H b m (.giveScratch call compiled prepared) m
        (.goto (.fail call (.poisoned "stack.compute_scratch")))
  | giveScratch {call : Transaction T} {compiled : CompiledPlan T.PlannerMeta}
      {prepared : T.Prepared} :
      PlannerStep H b m (.giveScratch call compiled prepared) m
        (.goto (.drawId call compiled prepared))
  | drawId {call : Transaction T} {compiled : CompiledPlan T.PlannerMeta}
      {prepared : T.Prepared} :
      PlannerStep H b m (.drawId call compiled prepared)
        { m with nextVersionId := m.nextVersionId + 1 }
        (.goto (.writeLock call ⟨m.nextVersionId, compiled, prepared⟩))
  | writePoisoned {call : Transaction T} {version : Version T} (h : m.versionLock = .poisoned) :
      PlannerStep H b m (.writeLock call version) m
        (.goto (.fail call (.poisoned "stack.current_version")))
  | writeLock {call : Transaction T} {version : Version T} (h : m.versionLock = .free)
      (hr : m.readers = 0) :
      PlannerStep H b m (.writeLock call version) { m with versionLock := .held }
        (.goto (.swap call version))
  | swap {call : Transaction T} {version : Version T} {preparedPool : List T.Prepared} :
      PlannerStep H b m (.swap call version)
        { m with
          current := version, preparedPool, published := m.published ++ [version.id] }
        (.goto (.storeId call version))
  | storeId {call : Transaction T} {version : Version T} :
      PlannerStep H b m (.storeId call version) { m with currentVersionId := version.id }
        (.goto (.unlock call version))
  | unlock {call : Transaction T} {version : Version T} :
      PlannerStep H b m (.unlock call version) { m with versionLock := .free }
        (.goto (.commit call version))
  | commit {call : Transaction T} {version : Version T} {state : T.State}
      (h : state = if call.changes.isSome then call.next else m.state) :
      PlannerStep H b m (.commit call version)
        ({ m with state }.finish call (.ok version.id)) (.ret .ok)
  | fail {call : Transaction T} {error : BraidError} :
      PlannerStep H b m (.fail call error) (m.finish call (.error error)) (.ret (.err error))

/-- What `Mutex::lock` on the planner state can do. -/
theorem lockState_cases {m m' : PlannerMem T} {next : PlannerCode T}
    {act : ClientAct (PlannerCode T) JobTask} (h : m.lockState next = some (m', act)) :
    (m.stateLock = .poisoned ∧ m' = m ∧ act = .ret (.err (.poisoned "stack.state"))) ∨
      (m.stateLock = .free ∧ m' = { m with stateLock := .held } ∧ act = .goto next) := by
  unfold PlannerMem.lockState at h
  split at h
  · simp at h
  · next hl =>
      simp only [Option.some.injEq, Prod.mk.injEq] at h
      exact .inl ⟨hl, h.1.symm, h.2.symm⟩
  · next hl =>
      simp only [Option.some.injEq, Prod.mk.injEq] at h
      exact .inr ⟨hl, h.1.symm, h.2.symm⟩

section Points

variable {b : BackendId} {n : ℕ} {m m' : PlannerMem T} {act : ClientAct (PlannerCode T) JobTask}

/-- `updated_state` returns a state, fails or panics. -/
theorem plannerStep_updateHook {changes : List T.Change} {before : Snapshot T}
    (h : plannerStep H b n m (.updateHook changes before) = some (m', act)) :
    PlannerStep H b m (.updateHook changes before) m' act := by
  unfold plannerStep at h
  simp only at h
  split at h <;> simp only [Option.some.injEq, Prod.mk.injEq] at h <;>
    obtain ⟨rfl, rfl⟩ := h
  · next hr => exact .updated hr
  · exact .updateFailed
  · exact .updatePanicked

/-- A call locks the planner scratch. -/
theorem plannerStep_scratch {call : Transaction T}
    (h : plannerStep H b n m (.scratch call) = some (m', act)) :
    PlannerStep H b m (.scratch call) m' act := by
  unfold plannerStep at h
  simp only at h
  split at h <;> simp only [Option.some.injEq, Prod.mk.injEq, reduceCtorEq] at h <;>
    obtain ⟨rfl, rfl⟩ := h
  · next hl => exact .scratchPoisoned hl
  · next hl => exact .scratch hl

/-- `compile` returns a plan that is validated, fails or panics. -/
theorem plannerStep_compileHook {call : Transaction T}
    (h : plannerStep H b n m (.compileHook call) = some (m', act)) :
    PlannerStep H b m (.compileHook call) m' act := by
  unfold plannerStep at h
  simp only at h
  split at h
  · simp only [Option.some.injEq, Prod.mk.injEq] at h
    obtain ⟨rfl, rfl⟩ := h
    exact .compilePanicked
  · simp only [Option.some.injEq, Prod.mk.injEq] at h
    obtain ⟨rfl, rfl⟩ := h
    exact .compileFailed
  · next hr =>
      split at h <;> simp only [Option.some.injEq, Prod.mk.injEq] at h <;>
        obtain ⟨rfl, rfl⟩ := h
      · exact .compileFailed
      · next hval => exact .compiled hr hval

/-- `prepare` returns what it made of the plan, fails or panics. -/
theorem plannerStep_prepareHook {number : ℕ} {compiled : CompiledPlan T.PlannerMeta}
    {reuse : Option T.Prepared}
    (h : plannerStep H b n m (.prepareHook number compiled reuse) = some (m', act)) :
    PlannerStep H b m (.prepareHook number compiled reuse) m' act := by
  unfold plannerStep at h
  simp only at h
  split at h <;> simp only [Option.some.injEq, Prod.mk.injEq] at h <;>
    obtain ⟨rfl, rfl⟩ := h
  · next hr => exact .prepareOk hr
  · exact .prepareFailed
  · exact .preparePanicked

/-- A call goes on with what `prepare` returned. -/
theorem plannerStep_prepared {number : ℕ} {call : Transaction T}
    {compiled : CompiledPlan T.PlannerMeta} {result : CallResult}
    (h : plannerStep H b n m (.prepared number call compiled result) = some (m', act)) :
    PlannerStep H b m (.prepared number call compiled result) m' act := by
  unfold plannerStep at h
  simp only at h
  split at h <;> simp only [Option.some.injEq, Prod.mk.injEq, reduceCtorEq] at h <;>
    obtain ⟨rfl, rfl⟩ := h
  · next hr => exact .prepared hr
  · exact .preparedErr
  · exact .preparedPanicked

/-- A call locks the current version. -/
theorem plannerStep_writeLock {call : Transaction T} {version : Version T}
    (h : plannerStep H b n m (.writeLock call version) = some (m', act)) :
    PlannerStep H b m (.writeLock call version) m' act := by
  unfold plannerStep at h
  simp only at h
  split at h
  · simp at h
  · next hl =>
      simp only [Option.some.injEq, Prod.mk.injEq] at h
      obtain ⟨rfl, rfl⟩ := h
      exact .writePoisoned hl
  · next hl =>
      simp only [Option.ite_none_right_eq_some, Option.some.injEq, Prod.mk.injEq] at h
      obtain ⟨hr, rfl, rfl⟩ := h
      exact .writeLock hl hr

/-- A call commits the planner state of the version it made. -/
theorem plannerStep_commit {call : Transaction T} {version : Version T}
    (h : plannerStep H b n m (.commit call version) = some (m', act)) :
    PlannerStep H b m (.commit call version) m' act := by
  unfold plannerStep at h
  simp only [Option.some.injEq, Prod.mk.injEq] at h
  obtain ⟨rfl, rfl⟩ := h
  cases hc : call.changes with
  | none =>
      have hstate : m.state = if call.changes.isSome then call.next else m.state := by
        simp [hc]
      exact .commit hstate
  | some changes => exact .commit (by simp [hc])

end Points

/-- Every step of a call on the planner state is a `PlannerStep`. -/
theorem plannerStep_cases {b : BackendId} {n : ℕ} {m m' : PlannerMem T} {code : PlannerCode T}
    {act : ClientAct (PlannerCode T) JobTask} (h : plannerStep H b n m code = some (m', act)) :
    PlannerStep H b m code m' act := by
  cases code with
  | apply changes =>
      rcases lockState_cases h with ⟨hl, rfl, rfl⟩ | ⟨hl, rfl, rfl⟩
      · exact .poisoned hl
      · exact .apply hl
  | replace spec =>
      rcases lockState_cases h with ⟨hl, rfl, rfl⟩ | ⟨hl, rfl, rfl⟩
      · exact .poisoned hl
      · exact .replace hl
  | recompile =>
      rcases lockState_cases h with ⟨hl, rfl, rfl⟩ | ⟨hl, rfl, rfl⟩
      · exact .poisoned hl
      · exact .recompile hl
  | update changes =>
      rcases lockState_cases h with ⟨hl, rfl, rfl⟩ | ⟨hl, rfl, rfl⟩
      · exact .poisoned hl
      · exact .update hl
  | applyHook changes =>
      simp only [plannerStep] at h
      split at h <;> simp only [Option.some.injEq, Prod.mk.injEq] at h <;>
        obtain ⟨rfl, rfl⟩ := h
      · exact .editPanicked (.inl ⟨_, rfl⟩)
      · exact .edited (.inl ⟨_, rfl⟩)
  | replaceHook spec =>
      simp only [plannerStep] at h
      split at h <;> simp only [Option.some.injEq, Prod.mk.injEq] at h <;>
        obtain ⟨rfl, rfl⟩ := h
      · exact .editPanicked (.inr ⟨_, rfl⟩)
      · exact .edited (.inr ⟨_, rfl⟩)
  | updateHook changes before => exact plannerStep_updateHook h
  | scratch call => exact plannerStep_scratch h
  | compileHook call => exact plannerStep_compileHook h
  | computeScratch call compiled =>
      simp only [plannerStep, Option.some.injEq, Prod.mk.injEq] at h
      obtain ⟨rfl, rfl⟩ := h
      split
      · next hp => exact .computeScratchPoisoned hp
      · exact .computeScratch
  | reuse call compiled =>
      simp only [plannerStep] at h
      split at h <;> simp only [Option.some.injEq, Prod.mk.injEq] at h <;>
        obtain ⟨rfl, rfl⟩ := h
      · next hp => exact .reusePoisoned hp
      · exact .reuse
  | prepare call compiled reuse =>
      simp only [plannerStep, Option.some.injEq, Prod.mk.injEq] at h
      obtain ⟨rfl, rfl⟩ := h
      exact .prepare
  | prepareHook number compiled reuse => exact plannerStep_prepareHook h
  | preparing number call compiled => simp [plannerStep] at h
  | prepared number call compiled result => exact plannerStep_prepared h
  | giveScratch call compiled prepared =>
      simp only [plannerStep, Option.some.injEq, Prod.mk.injEq] at h
      obtain ⟨rfl, rfl⟩ := h
      split
      · next hp => exact .giveScratchPoisoned hp
      · exact .giveScratch
  | drawId call compiled prepared =>
      simp only [plannerStep, Option.some.injEq, Prod.mk.injEq] at h
      obtain ⟨rfl, rfl⟩ := h
      exact .drawId
  | writeLock call version => exact plannerStep_writeLock h
  | swap call version =>
      simp only [plannerStep, Option.some.injEq, Prod.mk.injEq] at h
      obtain ⟨rfl, rfl⟩ := h
      exact .swap
  | storeId call version =>
      simp only [plannerStep, Option.some.injEq, Prod.mk.injEq] at h
      obtain ⟨rfl, rfl⟩ := h
      exact .storeId
  | unlock call version =>
      simp only [plannerStep, Option.some.injEq, Prod.mk.injEq] at h
      obtain ⟨rfl, rfl⟩ := h
      exact .unlock
  | commit call version => exact plannerStep_commit h
  | fail call error =>
      simp only [plannerStep, Option.some.injEq, Prod.mk.injEq] at h
      obtain ⟨rfl, rfl⟩ := h
      exact .fail

/-! ### The whole stack -/

/-- What a call of `collect` that took `result` adds to what was delivered. -/
def deliver (delivered : List (List T.Resolution)) :
    BraidResult (List T.Resolution) → List (List T.Resolution)
  | .ok values => delivered ++ [values]
  | .error _ => delivered

/-- The jobs table without one id. A poisoned table keeps it. -/
abbrev Mem.tableWithout (m : Mem T) (j : JobId) : List JobId :=
  if m.tablePoisoned then m.table else m.table.erase j

/-- What the stack can do in one step of thread `self`. -/
inductive StackStep (H : Hooks T) (self : ThreadId) (m : Mem T) :
    Code T → Mem T → ClientAct (Code T) Task → Prop
  | planner {code : PlannerCode T} {planner : PlannerMem T}
      {act : ClientAct (PlannerCode T) JobTask}
      (h : PlannerStep H m.backend m.planner code planner act) :
      StackStep H self m (.planner code) { m with planner }
        (liftAct .planner (fun kind => ⟨0, kind⟩) act)
  | dispatch {queries : List T.Query} :
      StackStep H self m (.dispatch queries) m
        (.goto (.dispatchRead queries m.planner.returnedIds))
  | dispatchRead {queries : List T.Query} {since : List ℕ}
      (h : m.planner.versionLock = .free) :
      StackStep H self m (.dispatchRead queries since)
        { m with planner := { m.planner with readers := m.planner.readers + 1 } }
        (.goto (.dispatchClone queries since m.planner.current))
  | read (h : m.planner.versionLock = .free) :
      StackStep H self m .read
        { m with planner := { m.planner with readers := m.planner.readers + 1 } } (.goto .clone)
  | dispatchClone {queries : List T.Query} {since : List ℕ} {seen : Version T} :
      StackStep H self m (.dispatchClone queries since seen) m.dropRead
        (.goto (.dispatchId queries since seen m.planner.current))
  | clone : StackStep H self m .clone m.dropRead (.ret .ok)
  | dispatchId {queries : List T.Query} {since : List ℕ} {seen version : Version T} :
      StackStep H self m (.dispatchId queries since seen version)
        { m.setJob m.nextJobId { version, queries, seen, since } with
          nextJobId := m.nextJobId + 1 } (.goto (.dispatchInsert m.nextJobId))
  | insertPoisoned {j : JobId} {job : Job T} (hj : m.job j = some job)
      (h : m.tablePoisoned = true) :
      StackStep H self m (.dispatchInsert j)
        (m.setJob j { job with dispatched := .refused })
        (.ret (.err (.poisoned "stack.jobs")))
  | dispatchInsert {j : JobId} {job : Job T} (hj : m.job j = some job)
      (h : m.tablePoisoned = false) :
      StackStep H self m (.dispatchInsert j) { m with table := m.table ++ [j] }
        (.goto (.dispatchSubmit j))
  | dispatchSubmit {j : JobId} :
      StackStep H self m (.dispatchSubmit j) m (.submit ⟨j, .encode⟩ (.dispatchWait j))
  | dispatchOk {j : JobId} {job : Job T} (hj : m.job j = some job) :
      StackStep H self m (.dispatchOk j) (m.setJob j { job with dispatched := .accepted })
        (.ret .ok)
  | dispatchErr {j : JobId} {error : BraidError} {job : Job T} (hj : m.job j = some job) :
      StackStep H self m (.dispatchErr j error)
        { m.setJob j { job with dispatched := .refused } with table := m.tableWithout j }
        (.ret (.err error))
  | task {j : JobId} {code : JobCode T} {job job' : Job T} {pools : Pools}
      {act : ClientAct (JobCode T) JobTask} (hj : m.job j = some job)
      (h : JobStep H m.backend m.pools job code pools job' act) :
      StackStep H self m (.task j code) { m.setJob j job' with pools }
        (liftAct (.task j) (fun kind => ⟨j, kind⟩) act)
  | collectOn {j : JobId} {job : Job T} {point next : CollectPoint T.Resolution}
      (hj : m.job j = some job)
      (h : (point = .lookup ∧ j ∈ m.table ∧ next = .take) ∨ (point = .lookup ∨ point = .take ∨
        point = .parked) ∧ ∃ error, next = .done (.error error)) :
      StackStep H self m (.collect j point) m (.goto (.collect j next))
  | collectTake {j : JobId} {job : Job T} {record taken : JobRecord T.Resolution}
      {result : BraidResult (List T.Resolution)} (hj : m.job j = some job)
      (hrec : record = job.record ∨ record = job.record.unpark self)
      (h : record.take = (taken, some result)) :
      StackStep H self m (.collect j .take)
        (m.setJob j { job with record := taken, delivered := deliver job.delivered result })
        (.goto (.collect j (.remove result)))
  | collectPark {j : JobId} {job : Job T} {record taken : JobRecord T.Resolution}
      (hj : m.job j = some job)
      (hrec : record = job.record ∨ record = job.record.unpark self)
      (h : record.take = (taken, none)) :
      StackStep H self m (.collect j .take)
        (m.setJob j { job with record := taken.park self }) (.goto (.collect j .parked))
  | collectWoken {j : JobId} {job : Job T} {record : JobRecord T.Resolution}
      (hj : m.job j = some job)
      (hrec : record = job.record ∨ record = job.record.unpark self)
      (h : self ∉ record.wake) :
      StackStep H self m (.collect j .parked) (m.setJob j { job with record })
        (.goto (.collect j .take))
  | collectRemove {j : JobId} {job : Job T} {result : BraidResult (List T.Resolution)}
      (hj : m.job j = some job) :
      StackStep H self m (.collect j (.remove result)) { m with table := m.tableWithout j }
        (.goto (.collect j (.done result)))
  | cancel {j : JobId} {job : Job T} (hj : m.job j = some job) :
      StackStep H self m (.cancel j)
        (m.setJob j { job with record := { job.record with cancel := true } }) (.ret .ok)
  | retire {j : JobId} {preparedPool : List T.Prepared} :
      StackStep H self m (.retire j)
        { m with planner := { m.planner with preparedPool } } (.ret .ok)
  | shutdown : StackStep H self m .shutdown m (.shutdown .ended)
  /-- The call returns and has left everything as it was. -/
  | leave {code : Code T} {r : CallResult}
      (h : match code with
        | .dispatchRead _ _ | .read | .poll _ | .cancel _ | .retire _ | .ended => True
        | .collect j point => (∃ result, point = .done result) ∨ m.job j = none
        | _ => False) :
      StackStep H self m code m (.ret r)

/-- What taking the read lock can do. -/
theorem readVersion_cases {m m' : Mem T} {next : Code T} {act : ClientAct (Code T) Task}
    (h : m.readVersion next = some (m', act)) :
    (∃ r, m' = m ∧ act = .ret r) ∨ (m.planner.versionLock = .free ∧
      m' = { m with planner := { m.planner with readers := m.planner.readers + 1 } } ∧
      act = .goto next) := by
  unfold Mem.readVersion at h
  split at h
  · simp at h
  · simp only [Option.some.injEq, Prod.mk.injEq] at h
    exact .inl ⟨_, h.1.symm, h.2.symm⟩
  · next hl =>
      simp only [Option.some.injEq, Prod.mk.injEq] at h
      exact .inr ⟨hl, h.1.symm, h.2.symm⟩

/-- Every step of `collect` is a `StackStep`. -/
theorem collectJob_cases {self n : ℕ} {m m' : Mem T} {j : JobId} {job : Job T}
    {point : CollectPoint T.Resolution} {act : ClientAct (Code T) Task}
    (hj : m.job j = some job) (h : collectJob self n m j job point = some (m', act)) :
    StackStep H self m (.collect j point) m' act := by
  have hrec : (if n % 2 = 0 then job.record else job.record.unpark self) = job.record ∨
      (if n % 2 = 0 then job.record else job.record.unpark self) = job.record.unpark self := by
    split <;> simp
  cases point with
  | lookup =>
      simp only [collectJob] at h
      split at h
      · simp only [Option.some.injEq, Prod.mk.injEq] at h
        obtain ⟨rfl, rfl⟩ := h
        exact .collectOn hj (.inr ⟨.inl rfl, _, rfl⟩)
      · simp only [collectStep] at h
        split at h <;> simp only [Option.bind_eq_bind, Option.bind_some, Option.pure_def,
          Option.some.injEq, Prod.mk.injEq] at h <;> obtain ⟨rfl, rfl⟩ := h
        · next hmem => exact .collectOn hj (.inl ⟨rfl, of_decide_eq_true hmem, rfl⟩)
        · exact .collectOn hj (.inr ⟨.inl rfl, _, rfl⟩)
  | done result =>
      simp only [collectJob, Option.some.injEq, Prod.mk.injEq] at h
      obtain ⟨rfl, rfl⟩ := h
      exact .leave (.inl ⟨_, rfl⟩)
  | remove result =>
      simp only [collectJob, Option.some.injEq, Prod.mk.injEq] at h
      obtain ⟨rfl, rfl⟩ := h
      exact .collectRemove hj
  | take =>
      simp only [collectJob] at h
      split at h
      · simp only [Option.some.injEq, Prod.mk.injEq] at h
        obtain ⟨rfl, rfl⟩ := h
        exact .collectOn hj (.inr ⟨.inr (.inl rfl), _, rfl⟩)
      · generalize hr : (if n % 2 = 0 then job.record else job.record.unpark self) = record
          at h hrec
        rcases ht : record.take with ⟨taken, _ | result⟩
        · simp only [collectStep, ht, Option.bind_eq_bind, Option.bind_some, Option.pure_def,
            Option.some.injEq, Prod.mk.injEq] at h
          obtain ⟨rfl, rfl⟩ := h
          exact .collectPark hj hrec ht
        · simp only [collectStep, ht, Option.bind_eq_bind, Option.bind_some, Option.pure_def,
            Option.some.injEq, Prod.mk.injEq] at h
          obtain ⟨rfl, rfl⟩ := h
          have hstep := StackStep.collectTake (H := H) hj hrec ht
          cases result <;> exact hstep
  | parked =>
      simp only [collectJob] at h
      split at h
      · simp only [Option.some.injEq, Prod.mk.injEq] at h
        obtain ⟨rfl, rfl⟩ := h
        exact .collectOn hj (.inr ⟨.inr (.inr rfl), _, rfl⟩)
      · generalize hr : (if n % 2 = 0 then job.record else job.record.unpark self) = record
          at h hrec
        simp only [collectStep] at h
        split at h
        · simp at h
        · next hw =>
            simp only [Option.bind_eq_bind, Option.bind_some, Option.pure_def,
              Option.some.injEq, Prod.mk.injEq] at h
            obtain ⟨rfl, rfl⟩ := h
            exact .collectWoken hj hrec hw

/-- Every step of the stack is a `StackStep`. -/
theorem stackStep_cases {self n : ℕ} {m m' : Mem T} {code : Code T}
    {act : ClientAct (Code T) Task} (h : stackStep H self n m code = some (m', act)) :
    StackStep H self m code m' act := by
  cases code with
  | planner code =>
      simp only [stackStep, bind, Option.bind_eq_some_iff, Option.pure_def, Option.some.injEq,
        Prod.mk.injEq] at h
      obtain ⟨⟨planner, act⟩, hstep, rfl, rfl⟩ := h
      exact .planner (plannerStep_cases hstep)
  | dispatch queries =>
      simp only [stackStep, Option.some.injEq, Prod.mk.injEq] at h
      obtain ⟨rfl, rfl⟩ := h
      exact .dispatch
  | dispatchRead queries since =>
      rcases readVersion_cases h with ⟨r, rfl, rfl⟩ | ⟨hl, rfl, rfl⟩
      · exact .leave trivial
      · exact .dispatchRead hl
  | read =>
      rcases readVersion_cases h with ⟨r, rfl, rfl⟩ | ⟨hl, rfl, rfl⟩
      · exact .leave trivial
      · exact .read hl
  | dispatchClone queries since seen =>
      simp only [stackStep, Option.some.injEq, Prod.mk.injEq] at h
      obtain ⟨rfl, rfl⟩ := h
      exact .dispatchClone
  | clone =>
      simp only [stackStep, Option.some.injEq, Prod.mk.injEq] at h
      obtain ⟨rfl, rfl⟩ := h
      exact .clone
  | dispatchId queries since seen version =>
      simp only [stackStep, Option.some.injEq, Prod.mk.injEq] at h
      obtain ⟨rfl, rfl⟩ := h
      exact .dispatchId
  | dispatchInsert j =>
      simp only [stackStep, bind, Option.bind_eq_some_iff] at h
      obtain ⟨job, hj, h⟩ := h
      split at h <;> simp only [Option.pure_def, Option.some.injEq, Prod.mk.injEq] at h <;>
        obtain ⟨rfl, rfl⟩ := h
      · next hp => exact .insertPoisoned hj hp
      · next hp => exact .dispatchInsert hj (by simpa using hp)
  | dispatchSubmit j =>
      simp only [stackStep, Option.some.injEq, Prod.mk.injEq] at h
      obtain ⟨rfl, rfl⟩ := h
      exact .dispatchSubmit
  | dispatchWait j => simp [stackStep] at h
  | dispatchOk j =>
      simp only [stackStep, bind, Option.bind_eq_some_iff, Option.pure_def, Option.some.injEq,
        Prod.mk.injEq] at h
      obtain ⟨job, hj, rfl, rfl⟩ := h
      exact .dispatchOk hj
  | dispatchErr j error =>
      simp only [stackStep, bind, Option.bind_eq_some_iff, Option.pure_def, Option.some.injEq,
        Prod.mk.injEq] at h
      obtain ⟨job, hj, rfl, rfl⟩ := h
      exact .dispatchErr hj
  | task j code =>
      simp only [stackStep, bind, Option.bind_eq_some_iff, Option.pure_def, Option.some.injEq,
        Prod.mk.injEq] at h
      obtain ⟨job, hj, ⟨pools, job', act⟩, hstep, rfl, rfl⟩ := h
      exact .task hj (jobStep_cases hstep)
  | collect j point =>
      simp only [stackStep] at h
      split at h
      · next job hj => exact collectJob_cases hj h
      · next hj =>
          simp only [Option.some.injEq, Prod.mk.injEq] at h
          obtain ⟨rfl, rfl⟩ := h
          exact .leave (.inr hj)
  | poll j =>
      simp only [stackStep, Option.some.injEq, Prod.mk.injEq] at h
      obtain ⟨rfl, rfl⟩ := h
      exact .leave trivial
  | cancel j =>
      simp only [stackStep] at h
      split at h
      · next job hj =>
          split at h <;> simp only [Option.some.injEq, Prod.mk.injEq] at h <;>
            obtain ⟨rfl, rfl⟩ := h
          · exact .cancel hj
          · exact .leave trivial
      · simp only [Option.some.injEq, Prod.mk.injEq] at h
        obtain ⟨rfl, rfl⟩ := h
        exact .leave trivial
  | retire j =>
      simp only [stackStep] at h
      split at h
      · split at h <;> simp only [Option.some.injEq, Prod.mk.injEq] at h <;>
          obtain ⟨rfl, rfl⟩ := h
        · exact .leave trivial
        · exact .retire
      · simp only [Option.some.injEq, Prod.mk.injEq] at h
        obtain ⟨rfl, rfl⟩ := h
        exact .leave trivial
  | shutdown =>
      simp only [stackStep, Option.some.injEq, Prod.mk.injEq] at h
      obtain ⟨rfl, rfl⟩ := h
      exact .shutdown
  | ended =>
      simp only [stackStep, Option.some.injEq, Prod.mk.injEq] at h
      obtain ⟨rfl, rfl⟩ := h
      exact .leave trivial

/-- What the reject side of a task can do to the stack. -/
inductive StackReject (m : Mem T) : RejectCode → Mem T → Option RejectCode → Prop
  | on {j : JobId} {point next : RejectPoint} {job job' : Job T} {pools : Pools}
      (hj : m.job j = some job) (h : RejectStep m.pools job point pools job' (some next)) :
      StackReject m ⟨j, point⟩ { m.setJob j job' with pools } (some ⟨j, next⟩)
  | done {j : JobId} {point : RejectPoint} {job job' : Job T} {pools : Pools}
      (hj : m.job j = some job) (h : RejectStep m.pools job point pools job' none) :
      StackReject m ⟨j, point⟩
        { m.setJob j job' with pools, rejected := j :: m.rejected } none
  | gone {j : JobId} {point : RejectPoint} (hj : m.job j = none) :
      StackReject m ⟨j, point⟩ { m with rejected := j :: m.rejected } none

/-- Every step of a reject side is a `StackReject`. -/
theorem rejectStep_cases {m m' : Mem T} {code : RejectCode} {next : Option RejectCode}
    (h : rejectStep m code = (m', next)) : StackReject m code m' next := by
  unfold rejectStep at h
  split at h
  · next job hj =>
      rcases hstep : rejectJob m.pools job code.point with ⟨pools, job', next'⟩
      rw [hstep] at h
      simp only [Prod.mk.injEq] at h
      obtain ⟨rfl, rfl⟩ := h
      cases next' with
      | none => exact .done hj (rejectJob_cases hstep)
      | some point => exact .on hj (rejectJob_cases hstep)
  · next hj =>
      simp only [Prod.mk.injEq] at h
      obtain ⟨rfl, rfl⟩ := h
      exact .gone hj

/-! ### What the results of calls tell the stack -/

/-- The point waits for `BraidExecutor::submit` of the task. -/
def Submits : Code T → Task → Prop
  | .dispatchWait j, t => t = ⟨j, .encode⟩
  | .task j (.await next), t => t = ⟨j, next⟩ ∧ ∀ i, next ≠ .stage i
  | _, _ => False

/-- The point waits for `schedule_with_rejection` of the task. -/
def Schedules : Code T → Task → Prop
  | .task j (.await (.stage i)), t => t = ⟨j, .stage i⟩
  | _, _ => False

/-- The point waits for a `prepare_blocking` that runs the hook. -/
def Prepares : Code T → Code T → Prop
  | .planner (.preparing number _ compiled), .planner (.prepareHook number' compiled' _) =>
      number' = number ∧ compiled' = compiled
  | _, _ => False

/-- A call may return the result to the point. A stage that could not be scheduled has been
rejected. -/
def Returns (m : Mem T) : Code T → CallResult → Prop
  | .task j (.await (.stage _)), r =>
      r = .ok ∨ (r = .err .executorShutdown ∧ j ∈ m.rejected)
  | .task _ (.await _), r | .dispatchWait _, r => r = .ok
  | .planner (.preparing _ _ _), _ | .task _ .ended, _ | .ended, _ => True
  | _, _ => False

/-- A step keeps the jobs whose reject side is over. -/
theorem StackStep.rejected {self : ThreadId} {m m' : Mem T} {code : Code T}
    {act : ClientAct (Code T) Task} (h : StackStep H self m code m' act) :
    m'.rejected = m.rejected := by
  cases h <;> rfl

/-- A rejection adds to the jobs whose reject side is over. -/
theorem StackReject.rejected {m m' : Mem T} {code : RejectCode} {next : Option RejectCode}
    (h : StackReject m code m' next) {j : JobId} (hj : j ∈ m.rejected) : j ∈ m'.rejected := by
  cases h with
  | on => exact hj
  | done => exact List.mem_cons_of_mem _ hj
  | gone => exact List.mem_cons_of_mem _ hj

/-- What may be returned stays so while jobs are rejected. -/
theorem Returns.mono {m m' : Mem T} (hm : ∀ j, j ∈ m.rejected → j ∈ m'.rejected)
    {code : Code T} {r : CallResult} (h : Returns m code r) : Returns m' code r := by
  unfold Returns at h ⊢
  split at h
  · rcases h with rfl | ⟨rfl, hj⟩
    · exact .inl rfl
    · exact .inr ⟨rfl, hm _ hj⟩
  all_goals simp_all

/-- What a task of a job asks for, when it is a call. -/
theorem StackStep.calls {self : ThreadId} {m m' : Mem T} {code : Code T}
    {act : ClientAct (Code T) Task} (h : StackStep H self m code m' act) :
    match act with
    | .submit t on => Submits on t
    | .schedule _ t on => Schedules on t
    | .prepare _ hook on => Prepares on hook
    | .shutdown on => on = .ended ∨ ∃ j, on = .task j .ended
    | _ => True := by
  cases h with
  | planner h => cases h <;> simp [liftAct, Prepares]
  | task hj h =>
      cases h with
      | submit hs => exact ⟨rfl, hs⟩
      | leave _ hact => obtain rfl | rfl := hact <;> simp [liftAct]
      | _ => simp [liftAct, Schedules]
  | dispatchSubmit => exact rfl
  | shutdown => exact .inl rfl
  | _ => trivial

/-- The `prepare` hook of a backend calls nobody. -/
theorem StackStep.hook {self : ThreadId} {m m' : Mem T} {code hook : Code T}
    {act : ClientAct (Code T) Task} (hp : Prepares code hook)
    (h : StackStep H self m hook m' act) : ∃ r, act = .ret r ∧ Returns m' code r := by
  unfold Prepares at hp
  split at hp
  · cases h with
    | planner h => cases h <;> exact ⟨_, rfl, trivial⟩
    | leave h => exact h.elim
  · exact hp.elim

/-- What `stack.rs` may rely on when a call of the executor returns. -/
def stackContract (H : Hooks T) : Contract (stackClient H) where
  Submits := Submits
  Schedules := Schedules
  Prepares := Prepares
  Rejects code n := ∃ i, code = .task n.job (.await (.stage i))
  Returns := Returns
  submit h := (stackStep_cases h).calls
  schedule h := (stackStep_cases h).calls
  prepare h := (stackStep_cases h).calls
  shutdown h := by
    rcases (stackStep_cases h).calls with rfl | ⟨j, rfl⟩ <;> trivial
  submit_ok h _ := by
    unfold Submits at h
    split at h
    · rfl
    · next j t on =>
        obtain ⟨-, hs⟩ := h
        cases on with
        | stage i => exact (hs i rfl).elim
        | _ => rfl
    · exact h.elim
  schedule_ok h _ := by
    unfold Schedules at h
    split at h
    · exact .inl rfl
    · exact h.elim
  prepare_refused h _ := by
    unfold Prepares at h
    split at h
    · trivial
    · exact h.elim
  hook hp h := .inr ((stackStep_cases h).hook hp)
  hook_resume hp r := by
    unfold Prepares at hp
    split at hp
    · exact hp
    · exact hp.elim
  reject h e := by
    unfold Schedules at h
    split at h
    · obtain rfl := h
      exact ⟨_, rfl⟩
    · exact h.elim
  reject_on hr h := by
    obtain ⟨i, rfl⟩ := hr
    cases rejectStep_cases h with
    | on => exact ⟨i, rfl⟩
  reject_done hr h := by
    obtain ⟨i, rfl⟩ := hr
    cases rejectStep_cases h with
    | done => exact .inr ⟨rfl, by simp⟩
    | gone => exact .inr ⟨rfl, by simp⟩
  stable h hr := hr.mono fun j hj => by rwa [(stackStep_cases h).rejected]
  stable_reject h hr := hr.mono fun _ hj => (rejectStep_cases h).rejected hj

end Braids.Runtime
