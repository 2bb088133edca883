import Braids.Runtime.Inline
import Braids.Runtime.Updates

/-!
# Inline and Asynchronous Execution Agree

The tasks of one job, one after the other: `encode_step`, a `stage_step` for each stage, and
`decode_step`. The executor accepts every task, nobody cancels the job, and between two steps
other jobs may take packets from the pools and give packets back.

## Main results

* `chain_ends`: whatever the pools are on the way, the tasks come to their end, with the record
  that the result of `execute_inline` stands for.
* `inline_agrees`: each entry point returns what the tasks of the job end with.
-/

namespace Braids.Runtime

open Lts InlineM

variable {T : Types}

/-! ### The chain of tasks -/

/-- No pool is poisoned. -/
def Pools.Open (pools : Pools) : Prop :=
  pools.packetsPoisoned = false ∧ pools.scratchPoisoned = false

/-- The packet that `ReusablePool::checkout` hands out. -/
def Pools.nextPacket (pools : Pools) : PacketData :=
  match pools.packets with
  | pkt :: _ => pkt.data
  | [] => .fresh

/-- Where a chain goes on: the executor accepts every task. -/
def chainNext : ClientAct (JobCode T) JobTask → Option (JobCode T)
  | .goto code => some code
  | .submit next _ => some (startOf next)
  | .schedule _ next _ => some (startOf next)
  | .prepare _ _ _ | .shutdown _ | .ret _ => none

/-- One step of the chain, with the pools and the choice that it meets. -/
def chainStep (H : Hooks T) (b : BackendId) (s : Job T × JobCode T) (a : Pools × ℕ) :
    Option (Job T × JobCode T) := do
  let (_, job, act) ← jobStep H b a.2 a.1 s.1 s.2
  let code ← chainNext act
  return (job, code)

/-- What a step may meet: open pools, and a packet with the given contents at checkout. -/
def Meets (data : PacketData) (s : Job T × JobCode T) (a : Pools × ℕ) : Prop :=
  a.1.Open ∧ (s.2 = .checkout → a.1.nextPacket = data)

/-- The last task of the job is done, with the given state in its record. -/
def EndsIn (state : JobRecordState T.Resolution) (s : Job T × JobCode T) : Prop :=
  s.2 = .released ∧ s.1.record.state = state

/-- The execution that `dispatch` creates. -/
def Job.new (version : Version T) (queries : List T.Query) : Job T where
  version
  queries
  seen := version

/-- Whatever the tasks of a job meet, they end with the given state in its record. -/
def ChainEnds (H : Hooks T) (b : BackendId) (version : Version T) (queries : List T.Query)
    (data : PacketData) (state : JobRecordState T.Resolution) : Prop :=
  InevitableBy (chainStep H b) (Meets data) (EndsIn state) (.new version queries, .encode)

/-- A job ends in one way only. -/
theorem ChainEnds.unique {H : Hooks T} {b : BackendId} {version : Version T}
    {queries : List T.Query} {data : PacketData} {state state' : JobRecordState T.Resolution}
    (h : ChainEnds H b version queries data state)
    (h' : ChainEnds H b version queries data state') : state = state' := by
  have hlive : ∀ s : Job T × JobCode T, ∃ a, Meets data s a := fun s =>
    ⟨({ packets := [⟨0, data⟩] }, 0), ⟨rfl, rfl⟩, fun _ => rfl⟩
  have hlast : ∀ state (s : Job T × JobCode T) a, EndsIn state s → chainStep H b s a = none := by
    rintro state ⟨job, code⟩ a ⟨hcode, -⟩
    obtain rfl : code = .released := hcode
    by_cases heven : a.2 % 2 = 0 <;> simp [chainStep, jobStep, heven, chainNext]
  obtain ⟨s, hs, hs'⟩ := h.common hlive (hlast state) (hlast state') h'
  exact hs.2.symm.trans hs'.2

/-! ### Hooks -/

/-- The hooks of a batch are deterministic and never call `CancelFlag::cancel`. -/
structure Hooks.Deterministic (H : Hooks T) : Prop where
  encodeBatch : ∀ choice, H.encodeBatch choice = H.encodeBatch 0
  runStage : ∀ choice, H.runStage choice = H.runStage 0
  decodeBatch : ∀ choice, H.decodeBatch choice = H.decodeBatch 0
  keepsFlag : ∀ choice prepared i stage p cancel,
    (H.runStage choice prepared i stage p cancel).2.2 = false

/-- The state of the record that a result stands for. -/
def stateOf {ρ : Type} : HookResult (List ρ) → JobRecordState ρ
  | .ok values => .completed (some values)
  | .err .cancelled => .cancelled
  | .err error => .failed (some error)
  | .panicked => .failed (some taskPanicked)

/-- The validation before the decoding, and the decoding. -/
def decodeFrom (H : Hooks T) (version : Version T) : InlineM (List T.Resolution) := do
  H.validate version.compiled
  .of fun context => H.decodeBatch 0 version.compiled context.packet

/-- The stages from the given one on, and what follows them. -/
def stagesFrom (H : Hooks T) (version : Version T) (i : ℕ) (stages : List StageSpec) :
    InlineM (List T.Resolution) := do
  runInlineStages H version.compiled (H.runStage 0 version.prepared) i stages
  decodeFrom H version

/-! ### The tasks -/

/-- A job between two of its tasks, or in one that holds no lock. -/
structure Job.OnTrack (job : Job T) (version : Version T) (queries : List T.Query) : Prop where
  version_eq : job.version = version
  queries_eq : job.queries = queries
  cancel : job.record.cancel = false
  record : job.recordPoisoned = false
  lock : job.packetLock = .free

section Chain

variable {H : Hooks T} {b : BackendId} {version : Version T} {queries : List T.Query}
  {data : PacketData} {job : Job T}

/-- Scheduling the next task, which the executor accepts. -/
theorem chain_schedule {P : Job T × JobCode T → Prop} {task : JobTask}
    (h : InevitableBy (chainStep H b) (Meets data) P (job, startOf task)) :
    InevitableBy (chainStep H b) (Meets data) P (job, .schedule task) := by
  refine .goto (fun a ha => ?_) h
  cases task <;> rfl

/-- `run_caught` with an error or a panic ends the job. -/
theorem chain_caught (hrecord : job.recordPoisoned = false) (hlock : job.packetLock ≠ .held)
    (error : BraidError) :
    InevitableBy (chainStep H b) (Meets data) (EndsIn (stateOf (.err error)))
      (job, .caught false error) := by
  have hfinish : ∀ job : Job T, job.recordPoisoned = false →
      InevitableBy (chainStep H b) (Meets data) (EndsIn (stateOf (.err error)))
        (job, .finish false error) := by
    intro job hrecord
    refine .goto (fun a ha => rfl) (.here ⟨rfl, ?_⟩)
    simp only [Job.finishWith, hrecord, Bool.false_eq_true, if_false]
    cases error <;> rfl
  cases hl : job.packetLock with
  | held => exact absurd hl hlock
  | poisoned =>
      refine .goto (t := (job, .finish false error)) (fun a ha => ?_) (hfinish job hrecord)
      simp [chainStep, jobStep, hl, chainNext]
  | free =>
      cases hp : job.packet with
      | none =>
          refine .goto (t := (job, .finish false error)) (fun a ha => ?_) (hfinish job hrecord)
          simp [chainStep, jobStep, hl, hp, chainNext]
      | some pkt =>
          refine .goto (t := ({ job with packet := none }, .cleanup false pkt error))
            (fun a ha => ?_) (.goto (fun a ha => ?_) (hfinish { job with
              packet := none
              holding := none
              givenBack := job.givenBack ++ [pkt.cleared] } hrecord))
          · simp [chainStep, jobStep, hl, hp, chainNext]
          · simp [chainStep, jobStep, giveBackPacket, ha.1.1, chainNext]

/-- `decode_packet` gives the packet back and returns an error. -/
theorem chain_giveBack_error (hrecord : job.recordPoisoned = false)
    (hlock : job.packetLock ≠ .held) (pkt : Packet) (error : BraidError) :
    InevitableBy (chainStep H b) (Meets data) (EndsIn (stateOf (.err error)))
      (job, .giveBack pkt (.error error)) := by
  refine .goto (t := ({ job with
      holding := none
      givenBack := job.givenBack ++ [pkt.cleared] }, .caught false error)) (fun a ha => ?_)
    (chain_caught ?_ ?_ error)
  · simp [chainStep, jobStep, giveBackPacket, ha.1.1, chainNext]
  · exact hrecord
  · exact hlock

/-- `decode_packet` gives the packet back and returns the values. -/
theorem chain_giveBack_ok (hrecord : job.recordPoisoned = false) (pkt : Packet)
    (values : List T.Resolution) :
    InevitableBy (chainStep H b) (Meets data) (EndsIn (.completed (some values)))
      (job, .giveBack pkt (.ok values)) := by
  set job₁ : Job T := { job with
    holding := none
    givenBack := job.givenBack ++ [pkt.cleared] } with hjob₁
  refine .goto (t := (job₁, .finishCompleted values)) (fun a ha => ?_)
    (.goto (t := ({ job₁ with record := job₁.record.finishCompleted values }, .released))
      (fun a ha => ?_) (.here ⟨rfl, rfl⟩))
  · simp [chainStep, jobStep, giveBackPacket, ha.1.1, chainNext, hjob₁]
  · simp [chainStep, jobStep, hjob₁, hrecord, chainNext]

/-- `decode_step`. -/
theorem chain_decode (hdet : H.Deterministic) (h : job.OnTrack version queries) {pkt : Packet}
    (hpkt : job.packet = some pkt) :
    InevitableBy (chainStep H b) (Meets data)
      (EndsIn (stateOf ((decodeFrom H version).result ⟨pkt.data, false⟩))) (job, .decode) := by
  set job₁ : Job T := { job with decodeRead := some job.record.cancel } with hjob₁
  refine .goto (t := (job₁, .take)) (fun a ha => ?_) ?_
  · simp [chainStep, jobStep, h.cancel, chainNext, hjob₁]
  have hversion : job₁.version = version := h.version_eq
  have hlock : job₁.packetLock = .free := h.lock
  have hpkt₁ : job₁.packet = some pkt := hpkt
  have hresult : (decodeFrom H version).result ⟨pkt.data, false⟩ =
      HookResult.ofResult (H.validateRuntimePacket version.compiled pkt.data) >>= fun _ =>
        H.decodeBatch 0 version.compiled pkt.data := InlineM.result_bind_of _ _ _
  rw [hresult]
  cases hvalid : H.validateRuntimePacket version.compiled pkt.data with
  | error error =>
      refine .goto (t := ({ job₁ with packet := none, failed := true },
        .giveBack pkt (.error error))) (fun a ha => ?_) (chain_giveBack_error ?_ ?_ pkt error)
      · simp [chainStep, jobStep, hlock, hpkt₁, hversion, hvalid, chainNext]
      · exact h.record
      · simp [hlock]
  | ok =>
      set job₂ : Job T := { job₁ with
        packet := none
        calls := job₁.calls ++ [.decodeBatch version.compiled pkt.serial] } with hjob₂
      have hon : job₂.OnTrack version queries :=
        ⟨h.version_eq, h.queries_eq, h.cancel, h.record, h.lock⟩
      refine .goto (t := (job₂, .decodeHook pkt)) (fun a ha => ?_) ?_
      · simp [chainStep, jobStep, hlock, hpkt₁, hversion, hvalid, chainNext, hjob₂]
      have hhook : HookResult.ofResult (.ok ()) >>= (fun _ : Unit =>
          H.decodeBatch 0 version.compiled pkt.data) =
            H.decodeBatch 0 version.compiled pkt.data := rfl
      rw [hhook]
      cases hdecode : H.decodeBatch 0 version.compiled pkt.data with
      | ok values =>
          refine .goto (t := ({ job₂ with
              decoded := some values, passed := job₂.passed ++ [.decode] },
            .giveBack pkt (.ok values))) (fun a ha => ?_)
            (chain_giveBack_ok ?_ pkt values)
          · simp [chainStep, jobStep, hon.version_eq, hdet.decodeBatch a.2, hdecode, chainNext]
          · exact hon.record
      | err error =>
          refine .goto (t := ({ job₂ with failed := true }, .giveBack pkt (.error error)))
            (fun a ha => ?_) (chain_giveBack_error ?_ ?_ pkt error)
          · simp [chainStep, jobStep, hon.version_eq, hdet.decodeBatch a.2, hdecode, chainNext]
          · exact hon.record
          · simp [hon.lock]
      | panicked =>
          refine .goto (t := ({ job₂ with holding := none, panicked := true },
            .caught false taskPanicked)) (fun a ha => ?_) (chain_caught ?_ ?_ taskPanicked)
          · simp [chainStep, jobStep, hon.version_eq, hdet.decodeBatch a.2, hdecode, chainNext]
          · exact hon.record
          · simp [hon.lock]

/-- The task for the stage with the given index, or the last one. -/
def Version.taskAt (version : Version T) (i : ℕ) : JobTask :=
  if i < version.stages.length then .stage i else .decode

/-- What comes after `encode_step`. -/
theorem Version.afterEncode_eq (version : Version T) : version.afterEncode = version.taskAt 0 := by
  rw [afterEncode, taskAt]
  cases version.stages <;> simp

/-- The result of some stages, from the first of them on. -/
theorem result_stagesFrom_cons (hdet : H.Deterministic) (i : ℕ) (stage : StageSpec)
    (stages : List StageSpec) (p : PacketData) :
    (stagesFrom H version i (stage :: stages)).result ⟨p, false⟩ =
      (H.runStage 0 version.prepared i stage p false).1 >>= fun _ =>
        HookResult.ofResult (H.validateRuntimePacket version.compiled
          (H.runStage 0 version.prepared i stage p false).2.1) >>= fun _ =>
        (stagesFrom H version (i + 1) stages).result
          ⟨(H.runStage 0 version.prepared i stage p false).2.1, false⟩ := by
  have hflag := hdet.keepsFlag 0 version.prepared i stage p false
  have hrest : stagesFrom H version i (stage :: stages) = checkCancel >>= fun _ =>
      runStageHook (H.runStage 0 version.prepared i stage) >>= fun _ =>
        H.validate version.compiled >>= fun _ => stagesFrom H version (i + 1) stages := by
    simp only [stagesFrom, runInlineStages, InlineM.bind_assoc]
  have hcheck : ∀ g : Unit → InlineM (List T.Resolution),
      (checkCancel >>= g).result ⟨p, false⟩ = (g ()).result ⟨p, false⟩ := fun g => rfl
  rw [hrest, hcheck, InlineM.result, InlineM.run_bind, runStageHook]
  rcases hrun : H.runStage 0 version.prepared i stage p false with ⟨r, p', flag⟩
  obtain rfl : flag = false := by rwa [hrun] at hflag
  cases r with
  | ok => exact InlineM.result_of_bind _ _ _
  | err error => rfl
  | panicked => rfl

/-- `stage_step`, for each of the stages from the given one on. -/
theorem chain_stages (hdet : H.Deterministic) {stages : List StageSpec} {i : ℕ}
    (hstages : version.stages.drop i = stages) (h : job.OnTrack version queries) {pkt : Packet}
    (hpkt : job.packet = some pkt) :
    InevitableBy (chainStep H b) (Meets data)
      (EndsIn (stateOf ((stagesFrom H version i stages).result ⟨pkt.data, false⟩)))
      (job, startOf (version.taskAt i)) := by
  induction stages generalizing i job pkt with
  | nil =>
      have hdone : ¬ i < version.stages.length := by simpa using hstages
      rw [Version.taskAt, if_neg hdone]
      exact chain_decode hdet h hpkt
  | cons stage stages ih =>
      have hi : i < version.stages.length := by
        by_contra hge
        simp [List.drop_eq_nil_of_le (Nat.le_of_not_lt hge)] at hstages
      have hstage : version.stages[i]? = some stage := by
        rw [← List.head?_drop, hstages, List.head?_cons]
      have hrest : version.stages.drop (i + 1) = stages := by
        rw [← List.tail_drop, hstages, List.tail_cons]
      rw [Version.taskAt, if_pos hi, result_stagesFrom_cons hdet]
      refine .goto (t := (job, .stageLock i)) (fun a ha => ?_) ?_
      · simp [chainStep, jobStep, startOf, h.cancel, chainNext]
      set job₁ : Job T := { job with
        packetLock := .held
        calls := job.calls ++ [.runStage version.prepared i stage pkt.serial] } with hjob₁
      refine .goto (t := (job₁, .stageHook i stage pkt)) (fun a ha => ?_) ?_
      · simp [chainStep, jobStep, h.lock, hpkt, h.version_eq, hstage, chainNext, hjob₁]
      have hversion : job₁.version = version := h.version_eq
      have hcancel : job₁.record.cancel = false := h.cancel
      have hflag := hdet.keepsFlag 0 version.prepared i stage pkt.data false
      rcases hrun : H.runStage 0 version.prepared i stage pkt.data false with ⟨r, p, flag⟩
      obtain rfl : flag = false := by rwa [hrun] at hflag
      set job₂ : Job T := { job₁ with
        packet := some { pkt with data := p }
        packetLock := .free
        record := { job₁.record with cancel := job₁.record.cancel || false } } with hjob₂
      have hon : job₂.OnTrack version queries :=
        ⟨h.version_eq, h.queries_eq, by simp [hjob₂, hcancel], h.record, rfl⟩
      have hhook : ∀ choice, H.runStage choice version.prepared i stage pkt.data
          job₁.record.cancel = (r, p, false) := by
        intro choice
        rw [hcancel, hdet.runStage choice, hrun]
      cases r with
      | panicked =>
          refine .goto (t := ({ job₂ with packetLock := .poisoned, panicked := true },
            .caught false taskPanicked)) (fun a ha => ?_) (chain_caught ?_ ?_ taskPanicked)
          · simp [chainStep, jobStep, hversion, hhook, chainNext, hjob₂]
          · exact hon.record
          · simp
      | err error =>
          refine .goto (t := ({ job₂ with failed := true }, .caught false error))
            (fun a ha => ?_) (chain_caught ?_ ?_ error)
          · simp [chainStep, jobStep, hversion, hhook, chainNext, hjob₂]
          · exact hon.record
          · simp [hon.lock]
      | ok =>
          rw [HookResult.ok_bind]
          cases hvalid : H.validateRuntimePacket version.compiled p with
          | error error =>
              refine .goto (t := ({ job₂ with failed := true }, .caught false error))
                (fun a ha => ?_) (chain_caught ?_ ?_ error)
              · simp [chainStep, jobStep, hversion, hhook, hvalid, chainNext, hjob₂]
              · exact hon.record
              · simp [hon.lock]
          | ok =>
              set job₃ : Job T := { job₂ with passed := job₂.passed ++ [.stage i] } with hjob₃
              have hon₃ : job₃.OnTrack version queries :=
                ⟨hon.version_eq, hon.queries_eq, hon.cancel, hon.record, hon.lock⟩
              have hpkt₃ : job₃.packet = some { pkt with data := p } := rfl
              refine .goto (t := (job₃, .schedule (version.taskAt (i + 1)))) (fun a ha => ?_)
                (chain_schedule (ih hrest hon₃ hpkt₃))
              simp [chainStep, jobStep, hversion, hhook, hvalid, chainNext, hjob₂, hjob₃]
              rfl

/-- What follows once a packet is checked out. -/
def encodeFrom (H : Hooks T) (version : Version T) (queries : List T.Query) (p : PacketData) :
    HookResult (List T.Resolution) := do
  (H.encodeBatch 0 version.compiled queries p).1
  .ofResult (H.validateRuntimePacket version.compiled
    (H.encodeBatch 0 version.compiled queries p).2)
  (stagesFrom H version 0 version.stages).result
    ⟨(H.encodeBatch 0 version.compiled queries p).2, false⟩

/-- `encode_packet` with the packet checked out, and the rest of the chain. -/
theorem chain_encode (hdet : H.Deterministic) (h : job.OnTrack version queries)
    (hnone : job.packet = none) (pkt : Packet) :
    InevitableBy (chainStep H b) (Meets data)
      (EndsIn (stateOf (encodeFrom H version queries pkt.data))) (job, .scratch pkt) := by
  set job₁ : Job T := { job with
    calls := job.calls ++ [.encodeBatch version.compiled queries pkt.serial] } with hjob₁
  have hon : job₁.OnTrack version queries :=
    ⟨h.version_eq, h.queries_eq, h.cancel, h.record, h.lock⟩
  have hnone₁ : job₁.packet = none := hnone
  refine .goto (t := (job₁, .encodeHook pkt)) (fun a ha => ?_) ?_
  · simp [chainStep, jobStep, ha.1.2, h.version_eq, h.queries_eq, chainNext, hjob₁]
  have hhook : ∀ choice, H.encodeBatch choice job₁.version.compiled job₁.queries pkt.data =
      H.encodeBatch 0 version.compiled queries pkt.data := by
    intro choice
    rw [hon.version_eq, hon.queries_eq, hdet.encodeBatch choice]
  rw [encodeFrom]
  rcases hrun : H.encodeBatch 0 version.compiled queries pkt.data with ⟨r, p⟩
  have hrecycle : ∀ (job : Job T) (error : BraidError), job.recordPoisoned = false →
      job.packetLock ≠ .held → InevitableBy (chainStep H b) (Meets data)
        (EndsIn (stateOf (.err error))) (job, .recycle { pkt with data := p } error) := by
    intro job error hrecord hlock
    refine .goto (t := ({ job with
      holding := none
      givenBack := job.givenBack ++ [Packet.cleared { pkt with data := p }] },
        .caught false error)) (fun a ha => ?_) (chain_caught ?_ ?_ error)
    · simp [chainStep, jobStep, giveBackPacket, ha.1.1, chainNext]
    · exact hrecord
    · exact hlock
  cases r with
  | panicked =>
      refine .goto (t := ({ job₁ with holding := none, panicked := true },
        .caught false taskPanicked)) (fun a ha => ?_) (chain_caught ?_ ?_ taskPanicked)
      · simp [chainStep, jobStep, hhook, hrun, chainNext]
      · exact hon.record
      · simp [hon.lock]
  | err error =>
      refine .goto (t := (job₁, .encoded { pkt with data := p } (.error error)))
        (fun a ha => ?_) (.goto (t := ({ job₁ with failed := true },
          .recycle { pkt with data := p } error)) (fun a ha => ?_) (hrecycle _ _ ?_ ?_))
      · simp [chainStep, jobStep, hhook, hrun, chainNext]
      · simp [chainStep, jobStep, ha.1.2, chainNext, Except.bind]
      · exact hon.record
      · simp [hon.lock]
  | ok =>
      refine .goto (t := (job₁, .encoded { pkt with data := p } (.ok ()))) (fun a ha => ?_) ?_
      · simp [chainStep, jobStep, hhook, hrun, chainNext]
      rw [HookResult.ok_bind]
      cases hvalid : H.validateRuntimePacket version.compiled p with
      | error error =>
          refine .goto (t := ({ job₁ with failed := true },
            .recycle { pkt with data := p } error)) (fun a ha => ?_) (hrecycle _ _ ?_ ?_)
          · simp [chainStep, jobStep, ha.1.2, hon.version_eq, hvalid, chainNext, Except.bind]
          · exact hon.record
          · simp [hon.lock]
      | ok =>
          set job₂ : Job T := { job₁ with passed := job₁.passed ++ [.encode] } with hjob₂
          set job₃ : Job T := { job₂ with packet := some { pkt with data := p } } with hjob₃
          have hon₃ : job₃.OnTrack version queries :=
            ⟨hon.version_eq, hon.queries_eq, hon.cancel, hon.record, hon.lock⟩
          have hpkt₃ : job₃.packet = some { pkt with data := p } := rfl
          refine .goto (t := (job₂, .store { pkt with data := p })) (fun a ha => ?_)
            (.goto (t := (job₃, .schedule (version.taskAt 0))) (fun a ha => ?_)
              (chain_schedule (chain_stages hdet List.drop_zero hon₃ hpkt₃)))
          · simp [chainStep, jobStep, ha.1.2, hon.version_eq, hvalid, chainNext, Except.bind, hjob₂]
          · simp [chainStep, jobStep, hjob₂, hon.lock, hnone₁, hon.version_eq,
              Version.afterEncode_eq, chainNext, hjob₃]

/-- What `execute_inline` returns, for deterministic hooks. -/
theorem result_executeInline (hdet : H.Deterministic) (choice : ℕ → ℕ) (p : PacketData) :
    (executeInline H choice version queries).result ⟨p, false⟩ =
      encodeFrom H version queries (p.start version.compiled.staticBuffers) := by
  have hstages : (fun index => H.runStage (choice (index + 1)) version.prepared index) =
      H.runStage 0 version.prepared := by
    funext index
    rw [hdet.runStage]
  simp only [executeInline, executeWith, readyPacket, Hooks.batchSteps, hdet.encodeBatch,
    hdet.decodeBatch, hstages, InlineM.bind_assoc]
  have hcheck : ∀ g : Unit → InlineM (List T.Resolution),
      (checkCancel >>= g).result ⟨p, false⟩ = (g ()).result ⟨p, false⟩ := fun g => rfl
  rw [hcheck, result_hook_bind, HookResult.ok_bind, result_hook_bind]
  congr 1
  funext _
  rw [Hooks.validate, result_of_bind]
  congr 1
  funext _
  exact result_clearOnError_bind _ _ _

/-- **The tasks of a job end as `execute_inline` returns**, whatever the pools are on the
way. -/
theorem chain_ends (hdet : H.Deterministic) (b : BackendId) (choice : ℕ → ℕ)
    (version : Version T) (queries : List T.Query) (data : PacketData) :
    ChainEnds H b version queries data
      (stateOf ((executeInline H choice version queries).result ⟨data, false⟩)) := by
  rw [result_executeInline hdet, ChainEnds]
  set job : Job T := .new version queries with hjob
  set job₁ : Job T := { job with record := job.record.markRunning } with hjob₁
  refine .goto (t := (job, .mark)) (fun a ha => ?_)
    (.goto (t := (job₁, .checkout)) (fun a ha => ?_) ?_)
  · simp [chainStep, jobStep, chainNext, hjob, Job.new]
  · simp [chainStep, jobStep, chainNext, hjob₁, hjob, Job.new]
  -- the packet that the job checks out is the only thing it learns about the pools
  refine .step (fun a => ({ job₁ with
      holding := some (a.1.checkout version.compiled.staticBuffers).2.serial
      checkedOut := [(a.1.checkout version.compiled.staticBuffers).2.serial] },
    .scratch (a.1.checkout version.compiled.staticBuffers).2)) (fun a ha => ?_) fun a ha => ?_
  · simp [chainStep, jobStep, chainNext, hjob₁, hjob, Job.new, ha.1.1]
  have hdata : (a.1.checkout version.compiled.staticBuffers).2.data =
      data.start version.compiled.staticBuffers := by
    rw [← ha.2 rfl, Pools.nextPacket, Pools.checkout]
    cases a.1.packets <;> rfl
  rw [← hdata]
  refine chain_encode hdet ?_ ?_ _
  · exact ⟨rfl, rfl, rfl, rfl, rfl⟩
  · rfl

end Chain

/-! ### Agreement -/

/-- The hooks of a batch are deterministic, never call `CancelFlag::cancel` and never panic. -/
structure Hooks.Tame (H : Hooks T) : Prop extends H.Deterministic where
  encodes : ∀ choice plan queries p, (H.encodeBatch choice plan queries p).1 ≠ .panicked
  runs : ∀ choice prepared i stage p cancel,
    (H.runStage choice prepared i stage p cancel).1 ≠ .panicked
  decodes : ∀ choice plan p, H.decodeBatch choice plan p ≠ .panicked

/-- Going on after a call that does not panic. -/
theorem bind_ne_panicked {α β : Type} {x : HookResult α} {f : α → HookResult β}
    (hx : x ≠ .panicked) (hf : ∀ a, f a ≠ .panicked) : (x >>= f) ≠ .panicked := by
  cases x with
  | ok a => exact hf a
  | err e => simp
  | panicked => exact absurd rfl hx

/-- A `Result` is no panic. -/
theorem ofResult_ne_panicked {α : Type} (r : BraidResult α) :
    HookResult.ofResult r ≠ .panicked := by
  cases r <;> simp [HookResult.ofResult]

namespace Hooks.Tame

variable {H : Hooks T} {version : Version T} {queries : List T.Query}

/-- The stages and the decoding do not panic. -/
theorem stagesFrom (hH : H.Tame) (i : ℕ) (stages : List StageSpec) (p : PacketData) :
    (stagesFrom H version i stages).result ⟨p, false⟩ ≠ .panicked := by
  induction stages generalizing i p with
  | nil =>
      have hdecode : (Runtime.stagesFrom H version i []).result ⟨p, false⟩ =
          HookResult.ofResult (H.validateRuntimePacket version.compiled p) >>= fun _ =>
            H.decodeBatch 0 version.compiled p := InlineM.result_bind_of _ _ _
      rw [hdecode]
      exact bind_ne_panicked (ofResult_ne_panicked _) fun _ => hH.decodes _ _ _
  | cons stage stages ih =>
      rw [result_stagesFrom_cons hH.toDeterministic]
      exact bind_ne_panicked (hH.runs _ _ _ _ _ _) fun _ =>
        bind_ne_panicked (ofResult_ne_panicked _) fun _ => ih _ _

/-- `execute_inline` does not panic. -/
theorem executeInline (hH : H.Tame) (choice : ℕ → ℕ) (p : PacketData) :
    (executeInline H choice version queries).result ⟨p, false⟩ ≠ .panicked := by
  rw [result_executeInline hH.toDeterministic]
  exact bind_ne_panicked (hH.encodes _ _ _ _) fun _ =>
    bind_ne_panicked (ofResult_ne_panicked _) fun _ => hH.stagesFrom _ _ _

end Hooks.Tame

/-- What a call returned is what the tasks of a job of the same batch end with. -/
structure BatchAgrees (H : Hooks T) (version : Version T) (queries : List T.Query)
    (data : PacketData) (result : HookResult (List T.Resolution)) : Prop where
  completed : ∀ b values,
    ChainEnds H b version queries data (.completed (some values)) ↔ result = .ok values
  failed : ∀ b error, ChainEnds H b version queries data (.failed (some error)) ↔
    result = .err error ∧ error ≠ .cancelled
  cancelled : ∀ b, ChainEnds H b version queries data .cancelled ↔ result = .err .cancelled

/-- What a call for one query returned is what the tasks of a job of a batch of one end with. -/
structure OneAgrees (H : Hooks T) (version : Version T) (query : T.Query) (data : PacketData)
    (result : HookResult T.Resolution) : Prop where
  completed : ∀ b value, result = .ok value ↔
    ChainEnds H b version [query] data (.completed (some [value]))
  failed : ∀ b, (∃ error, result = .err error) ↔
    (∃ error, ChainEnds H b version [query] data (.failed (some error))) ∨
      ChainEnds H b version [query] data .cancelled ∨
      ∃ values, values.length ≠ 1 ∧
        ChainEnds H b version [query] data (.completed (some values))

/-- The tasks of a job end with one state only. -/
theorem chainEnds_iff {H : Hooks T} (hdet : H.Deterministic) (b : BackendId) (choice : ℕ → ℕ)
    (version : Version T) (queries : List T.Query) (data : PacketData)
    (state : JobRecordState T.Resolution) :
    ChainEnds H b version queries data state ↔
      stateOf ((executeInline H choice version queries).result ⟨data, false⟩) = state := by
  have hends := chain_ends hdet b choice version queries data
  constructor
  · exact fun h => hends.unique h
  · rintro rfl
    exact hends

/-- What `collect` returns for a job once its tasks are over. -/
def Collects (H : Hooks T) (b : BackendId) (version : Version T) (queries : List T.Query)
    (data : PacketData) (result : BraidResult (List T.Resolution)) : Prop :=
  ∃ record : JobRecord T.Resolution,
    ChainEnds H b version queries data record.state ∧ record.take.2 = some result

/-- `collect` returns the values that `execute_inline` returns. -/
theorem collects_ok_iff {H : Hooks T} (hdet : H.Deterministic) (b : BackendId) (choice : ℕ → ℕ)
    (version : Version T) (queries : List T.Query) (data : PacketData)
    (values : List T.Resolution) :
    Collects H b version queries data (.ok values) ↔
      (executeInline H choice version queries).result ⟨data, false⟩ = .ok values := by
  constructor
  · rintro ⟨record, hends, htake⟩
    have hstate := (chainEnds_iff hdet b choice version queries data _).mp hends
    cases hresult : (executeInline H choice version queries).result ⟨data, false⟩ with
    | ok values' =>
        rw [hresult] at hstate
        simp only [JobRecord.take, ← hstate, stateOf, Option.getD_some, Option.some.injEq,
          Except.ok.injEq] at htake
        rw [htake]
    | err error =>
        rw [hresult] at hstate
        cases error <;> simp [JobRecord.take, ← hstate, stateOf] at htake
    | panicked =>
        rw [hresult] at hstate
        simp [JobRecord.take, ← hstate, stateOf] at htake
  · intro hresult
    refine ⟨{ state := .completed (some values) }, ?_, rfl⟩
    rw [chainEnds_iff hdet b choice, hresult]
    rfl

/-- A result that is no panic is what its state stands for. -/
theorem batchAgrees_of_execute {H : Hooks T} (hdet : H.Deterministic) (choice : ℕ → ℕ)
    (version : Version T) (queries : List T.Query) (data : PacketData)
    (hpanic : (executeInline H choice version queries).result ⟨data, false⟩ ≠ .panicked) :
    BatchAgrees H version queries data
      ((executeInline H choice version queries).result ⟨data, false⟩) := by
  have hiff := fun b => chainEnds_iff hdet b choice version queries data
  cases hresult : (executeInline H choice version queries).result ⟨data, false⟩ with
  | panicked => exact absurd hresult hpanic
  | ok values => constructor <;> simp [hiff, hresult, stateOf]
  | err error => constructor <;> cases error <;> simp [hiff, hresult, stateOf]

/-- The only value of a batch is what the tasks of its job end with. -/
theorem oneAgrees_of_execute {H : Hooks T} (hdet : H.Deterministic) (choice : ℕ → ℕ)
    (version : Version T) (query : T.Query) (data : PacketData)
    (hpanic : (executeInline H choice version [query]).result ⟨data, false⟩ ≠ .panicked) :
    OneAgrees H version query data
      ((executeInline H choice version [query]).result ⟨data, false⟩ >>= singleValue) := by
  have hiff := fun b => chainEnds_iff hdet b choice version [query] data
  cases hresult : (executeInline H choice version [query]).result ⟨data, false⟩ with
  | panicked => exact absurd hresult hpanic
  | err error => constructor <;> cases error <;> simp [hiff, hresult, stateOf]
  | ok values =>
      rw [HookResult.ok_bind]
      rcases values with _ | ⟨value, _ | ⟨second, rest⟩⟩ <;>
        constructor <;> simp [hiff, hresult, stateOf, singleValue]

/-! ### Entry points -/

/-- No lock that an inline call takes is poisoned. -/
structure InlineMem.Open (mem : InlineMem T) : Prop where
  current : mem.currentPoisoned = false
  contexts : mem.contextsPoisoned = false

/-- What a call with a pooled context returns. -/
theorem InlineMem.withPooled_result {α : Type} {mem : InlineMem T} (h : mem.Open)
    (m : InlineM α) : (mem.withPooled m).1 = m.result mem.nextContext := by
  rw [withPooled, h.contexts, if_neg Bool.false_ne_true, result]
  rcases m mem.nextContext with ⟨_ | _ | _, context⟩ <;> rfl

/-- `catch_unwind` around a call that does not panic. -/
theorem result_catchUnwind {α : Type} (H : Hooks T) {m : InlineM α} {context : InlineContext}
    (h : m.result context ≠ .panicked) : (H.catchUnwind m).result context = m.result context := by
  rw [result] at h
  rw [result, result, Hooks.catchUnwind]
  rcases hm : m context with ⟨_ | _ | _, context'⟩
  · rfl
  · rfl
  · exact absurd (congrArg Prod.fst hm) h

/-- `catch_unwind` adds no value. -/
theorem result_catchUnwind_eq_ok {α : Type} (H : Hooks T) {m : InlineM α}
    {context : InlineContext} {value : α} :
    (H.catchUnwind m).result context = .ok value ↔ m.result context = .ok value := by
  rw [result, result, Hooks.catchUnwind]
  rcases m context with ⟨_ | _ | _, context'⟩
  · exact Iff.rfl
  · exact Iff.rfl
  · by_cases hdebug : H.debugAssertions <;> simp [hdebug]

/-- A call that reads the current version and resets the cancel flag first. -/
theorem result_readVersion_bind {α : Type} {mem : InlineMem T} (h : mem.Open)
    (f : Version T → InlineM α) (context : InlineContext) :
    (InlineM.of (fun _ => mem.readVersion) >>= fun version =>
      resetCancel >>= fun _ => f version).result context =
        (f mem.current).result ⟨context.packet, false⟩ := by
  rw [result_of_bind, InlineMem.readVersion, h.current, if_neg Bool.false_ne_true]
  rfl

section Entry

variable {H : InlineHooks T} {mem : InlineMem T}

/-- `resolve_inline_with` runs `execute_inline` if the planner prefers nothing else. -/
theorem result_resolveInlineWith (hmem : mem.Open) (hdirect : H.preferDirectOneQueryInline = false)
    (hone : H.preferOneQueryInline = false) (choice : ℕ → ℕ) (queries : List T.Query)
    (context : InlineContext) :
    (resolveInlineWith H choice mem queries).result context =
      (H.catchUnwind (executeInline H.toHooks choice mem.current queries)).result
        ⟨context.packet, false⟩ := by
  rw [resolveInlineWith, result_readVersion_bind hmem]
  simp only [executePreferred, hdirect, hone]

/-- `dispatch_collect` runs `execute_inline` if the planner prefers nothing else. -/
theorem dispatchCollect_result (hmem : mem.Open) (hdirect : H.preferDirectOneQueryInline = false)
    (hone : H.preferOneQueryInline = false) (choice : ℕ → ℕ) (queries : List T.Query) :
    (dispatchCollect H choice mem queries).1 =
      (executeInline H.toHooks choice mem.current queries).result
        ⟨mem.nextContext.packet, false⟩ := by
  rw [dispatchCollect, InlineMem.readVersion, hmem.current, if_neg Bool.false_ne_true]
  simp only [executePreferred, hdirect, hone, InlineMem.withPooled_result hmem]
  rfl

/-- `resolve_one_inline_ref_with` runs `execute_one_inline` unless the planner answers
directly. -/
theorem result_resolveOneInlineRefWith (hmem : mem.Open)
    (hdirect : H.preferDirectOneQueryInline = false) (choice : ℕ → ℕ) (query : T.Query)
    (context : InlineContext) :
    (resolveOneInlineRefWith H choice mem query).result context =
      (H.catchUnwind (executeOneInline H choice mem.current query)).result
        ⟨context.packet, false⟩ := by
  rw [resolveOneInlineRefWith, result_readVersion_bind hmem]
  simp only [hdirect, Bool.false_eq_true, if_false]

end Entry

/-- What the entry points return, next to what the tasks of a job end with. -/
structure InlineAgrees (H : InlineHooks T) (choice : ℕ → ℕ) (mem : InlineMem T)
    (context : InlineContext) : Prop where
  resolveInlineWith : ∀ queries, BatchAgrees H.toHooks mem.current queries context.packet
    ((resolveInlineWith H choice mem queries).result context)
  resolveInline : ∀ queries, BatchAgrees H.toHooks mem.current queries context.packet
    (resolveInline H choice mem queries).1
  dispatchCollect : ∀ queries, BatchAgrees H.toHooks mem.current queries context.packet
    (dispatchCollect H choice mem queries).1
  resolveOneInlineRefWith : H.OneQueryDefaults → ∀ query,
    OneAgrees H.toHooks mem.current query context.packet
      ((resolveOneInlineRefWith H choice mem query).result context)
  resolveOneInlineWith : H.OneQueryDefaults → ∀ query,
    OneAgrees H.toHooks mem.current query context.packet
      ((resolveOneInlineWith H choice mem query).result context)
  resolveOneInlineRef : H.OneQueryDefaults → ∀ query,
    OneAgrees H.toHooks mem.current query context.packet
      (resolveOneInlineRef H choice mem query).1
  resolveOneInline : H.OneQueryDefaults → ∀ query,
    OneAgrees H.toHooks mem.current query context.packet
      (resolveOneInline H choice mem query).1

/-- **Inline and asynchronous execution agree**, for every version, every batch and all tame
hooks, when the context of the caller, the context of the pool and the packet of the job have
the same contents. -/
theorem inline_agrees {H : InlineHooks T} (hH : H.Tame)
    (hdirect : H.preferDirectOneQueryInline = false) (hone : H.preferOneQueryInline = false)
    (choice : ℕ → ℕ) {mem : InlineMem T} (hmem : mem.Open) (context : InlineContext)
    (hsame : mem.nextContext.packet = context.packet) : InlineAgrees H choice mem context := by
  have hbatch : ∀ queries, BatchAgrees H.toHooks mem.current queries context.packet
      ((executeInline H.toHooks choice mem.current queries).result ⟨context.packet, false⟩) :=
    fun queries => batchAgrees_of_execute hH.toDeterministic choice _ _ _ (hH.executeInline _ _)
  have hwith : ∀ context' : InlineContext, context'.packet = context.packet → ∀ queries,
      BatchAgrees H.toHooks mem.current queries context.packet
        ((Runtime.resolveInlineWith H choice mem queries).result context') := by
    intro context' hpacket queries
    rw [result_resolveInlineWith hmem hdirect hone, hpacket,
      result_catchUnwind _ (hH.executeInline _ _)]
    exact hbatch queries
  have hrefWith : H.OneQueryDefaults → ∀ context' : InlineContext,
      context'.packet = context.packet → ∀ query,
      OneAgrees H.toHooks mem.current query context.packet
        ((Runtime.resolveOneInlineRefWith H choice mem query).result context') := by
    intro hdefault context' hpacket query
    have hresult := executeOneInline_defaults hdefault choice mem.current query
      ⟨context.packet, false⟩
    have hsingle : ∀ values : List T.Resolution, singleValue values ≠ .panicked := by
      intro values
      rcases values with _ | ⟨value, _ | ⟨second, rest⟩⟩ <;> simp [singleValue]
    have hpanic : (executeOneInline H choice mem.current query).result ⟨context.packet, false⟩ ≠
        .panicked := by
      rw [hresult]
      exact bind_ne_panicked (hH.executeInline _ _) hsingle
    rw [result_resolveOneInlineRefWith hmem hdirect, hpacket, result_catchUnwind _ hpanic, hresult]
    exact oneAgrees_of_execute hH.toDeterministic choice _ _ _ (hH.executeInline _ _)
  refine ⟨hwith context rfl, fun queries => ?_, fun queries => ?_, fun h => hrefWith h context rfl,
    fun h => hrefWith h context rfl, fun h query => ?_, fun h query => ?_⟩
  · rw [Runtime.resolveInline, InlineMem.withPooled_result hmem]
    exact hwith _ hsame queries
  · rw [dispatchCollect_result hmem hdirect hone, hsame]
    exact hbatch queries
  · rw [Runtime.resolveOneInlineRef, InlineMem.withPooled_result hmem]
    exact hrefWith h _ hsame query
  · rw [Runtime.resolveOneInline, InlineMem.withPooled_result hmem]
    exact hrefWith h _ hsame query

/-- Hooks that encode how many queries there are and decode as many numbers. -/
def countingHooks : InlineHooks counter where
  toHooks := { counterHooks with
    encodeBatch := fun _ _ queries p =>
      (.ok (), ⟨{ p.1 with queryCount := queries.length }, ⟨p.2.index, p.2.clean⟩⟩)
    runStage := fun _ _ _ _ p _ => (.ok (), p, false)
    decodeBatch := fun _ compiled p => .ok (List.replicate p.1.queryCount compiled.plannerMeta) }

/-- A batch of two and a single query, next to the jobs of the same batches. -/
theorem inline_agrees_counting :
    ChainEnds countingHooks.toHooks 0 ⟨1, counterPlan 5, 5⟩ [3, 4] .fresh
        (.completed (some [5, 5])) ∧
      ChainEnds countingHooks.toHooks 0 ⟨1, counterPlan 5, 5⟩ [3] .fresh
        (.completed (some [5])) := by
  have hagrees : InlineAgrees countingHooks (fun _ => 0) { current := ⟨1, counterPlan 5, 5⟩ } {} :=
    inline_agrees
      ⟨⟨fun _ => rfl, fun _ => rfl, fun _ => rfl, fun _ _ _ _ _ _ => rfl⟩,
        fun _ _ _ _ => by simp [countingHooks], fun _ _ _ _ _ _ => by simp [countingHooks],
        fun _ _ _ => by simp [countingHooks]⟩
      rfl rfl _ ⟨rfl, rfl⟩ _ rfl
  exact ⟨((hagrees.resolveInline [3, 4]).completed 0 [5, 5]).mpr rfl,
    ((hagrees.resolveOneInline ⟨rfl, rfl, rfl⟩ 3).completed 0 5).mp rfl⟩

end Braids.Runtime
