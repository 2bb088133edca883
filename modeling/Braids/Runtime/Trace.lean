import Braids.Runtime.Packets
import Braids.Runtime.Agreement

/-!
# Jobs Refine Inline Execution

Whatever runs in between, the tasks of a job do to their packet what one call of
`execute_inline` may do to it. So a job that nobody cancels ends as such a call ends, values,
errors and panics alike, unless the executor shuts down on the way. The hooks need not be
deterministic: the call is one that resolves their choices as they were resolved for the job.

## Main results

* `Ran.begins`: what has been run so far is the beginning of an inline execution.
* `JobStep.traces`: every step of a task goes on with it.
* `jobs_refine_inline`: every job ends as an inline execution ends, in every reachable state.
* `ReachedFrom.refinesInline`: the same on packets with a property that all calls keep.
-/

namespace Braids.Runtime

open InlineM

variable {T : Types} {H : Hooks T} {I : PacketData → Prop} {version : Version T}
  {queries : List T.Query}

/-! ### The beginning of an inline execution -/

/-- The packet after the encode and `i` stages of an execution that was not cancelled, on a
packet with property `I`. -/
inductive Ran (H : Hooks T) (I : PacketData → Prop) (version : Version T)
    (queries : List T.Query) : ℕ → PacketData → Prop
  | encode {n : ℕ} {p data : PacketData} (hp : I p)
      (h : H.encodeBatch n version.compiled queries (p.start version.compiled.staticBuffers) =
        (.ok (), data))
      (hvalid : H.validateRuntimePacket version.compiled data = .ok ()) :
      Ran H I version queries 0 data
  | stage {i n : ℕ} {stage : StageSpec} {data data' : PacketData}
      (h : Ran H I version queries i data) (hstage : version.stages[i]? = some stage)
      (hrun : H.runStage n version.prepared i stage data false = (.ok (), data', false))
      (hvalid : H.validateRuntimePacket version.compiled data' = .ok ()) :
      Ran H I version queries (i + 1) data'

/-- `execute_inline` may return the result, on some packet that is in order and has
property `I`. -/
def Inlines (H : Hooks T) (I : PacketData → Prop) (version : Version T) (queries : List T.Query)
    (result : HookResult (List T.Resolution)) : Prop :=
  ∃ choice p, I p ∧ (executeInline H choice version queries).result ⟨p, false⟩ = result

/-- `execute_inline` up to the stage with the given index. -/
def beginInline (H : Hooks T) (choice : ℕ → ℕ) (version : Version T) (queries : List T.Query)
    (i : ℕ) : InlineM Unit := do
  checkCancel
  .hook fun packet => (.ok (), packet.start version.compiled.staticBuffers)
  .hook (H.batchSteps choice version queries).encode
  H.validate version.compiled
  runInlineStages H version.compiled (H.batchSteps choice version queries).runStage 0
    (version.stages.take i)

/-- `execute_inline` from the stage with the given index on. -/
def endInline (H : Hooks T) (choice : ℕ → ℕ) (version : Version T) (queries : List T.Query)
    (i : ℕ) : InlineM (List T.Resolution) := do
  runInlineStages H version.compiled (H.batchSteps choice version queries).runStage i
    (version.stages.drop i)
  H.validate version.compiled
  .of fun context => (H.batchSteps choice version queries).decode context.packet

namespace InlineM

variable {α β : Type}

/-- What a call returns depends on what follows it only through its result. -/
theorem result_bind_congr (m : InlineM α) {f g : α → InlineM β}
    (h : ∀ value context, (f value).result context = (g value).result context)
    (context : InlineContext) : (m >>= f).result context = (m >>= g).result context := by
  rw [result, result, run_bind, run_bind]
  rcases m context with ⟨_ | _ | _, context'⟩
  · exact h _ _
  · rfl
  · rfl

/-- What a call returns after another one that returned a value. -/
theorem result_bind_ok {m : InlineM α} {context context' : InlineContext} {value : α}
    (h : m context = (.ok value, context')) (f : α → InlineM β) :
    (m >>= f).result context = (f value).result context' := by
  rw [result, result, run_bind_ok h]

end InlineM

/-- Nobody has cancelled the execution. -/
theorem checkCancel_run (p : PacketData) : checkCancel ⟨p, false⟩ = (.ok (), ⟨p, false⟩) := rfl

/-- The packet is cleared, and the static buffers are loaded. -/
theorem hook_start_run (statics : List StaticBuffer) (p : PacketData) :
    InlineM.hook (fun packet => (.ok (), packet.start statics)) ⟨p, false⟩ =
      (.ok (), ⟨p.start statics, false⟩) := rfl

/-- A valid packet. -/
theorem Hooks.validate_run {compiled : CompiledPlan T.PlannerMeta} {p : PacketData}
    (h : H.validateRuntimePacket compiled p = .ok ()) :
    H.validate compiled ⟨p, false⟩ = (.ok (), ⟨p, false⟩) := by
  rw [Hooks.validate, InlineM.of, h]
  rfl

/-- The stages, the first of them first. -/
theorem runInlineStages_append (compiled : CompiledPlan T.PlannerMeta)
    (run : ℕ → StageSpec → PacketData → (cancel : Bool) → HookResult Unit × PacketData × Bool)
    (i : ℕ) (front rest : List StageSpec) :
    runInlineStages H compiled run i (front ++ rest) =
      (runInlineStages H compiled run i front >>= fun _ =>
        runInlineStages H compiled run (i + front.length) rest) := by
  induction front generalizing i with
  | nil => rfl
  | cons stage front ih =>
      rw [List.cons_append, runInlineStages, runInlineStages, ih]
      simp only [InlineM.bind_assoc, List.length_cons, Nat.add_assoc, Nat.add_comm 1]

/-- An inline execution is its beginning and its end. -/
theorem result_executeInline_split (choice : ℕ → ℕ) {i : ℕ} (hi : i ≤ version.stages.length)
    (context : InlineContext) :
    (executeInline H choice version queries).result context =
      (beginInline H choice version queries i >>= fun _ =>
        endInline H choice version queries i).result context := by
  have hstages := runInlineStages_append (H := H) version.compiled
    (H.batchSteps choice version queries).runStage 0 (version.stages.take i)
    (version.stages.drop i)
  rw [List.take_append_drop, List.length_take, Nat.min_eq_left hi, Nat.zero_add] at hstages
  simp only [executeInline, executeWith, readyPacket, beginInline, endInline, InlineM.bind_assoc]
  refine result_bind_congr _ (fun _ _ => result_bind_congr _ (fun _ _ =>
    result_bind_congr _ (fun _ _ => result_bind_congr _ (fun _ context => ?_) _) _) _) _
  rw [result_clearOnError_bind, hstages, InlineM.bind_assoc]

/-- One more stage. -/
theorem beginInline_succ (choice : ℕ → ℕ) {i : ℕ} {stage : StageSpec}
    (hstage : version.stages[i]? = some stage) :
    beginInline H choice version queries (i + 1) =
      beginInline H choice version queries i >>= fun _ =>
        runInlineStages H version.compiled (H.batchSteps choice version queries).runStage i
          [stage] := by
  have hlt : i < version.stages.length := (List.getElem?_eq_some_iff.mp hstage).1
  have htake : version.stages.take (i + 1) = version.stages.take i ++ [stage] := by
    rw [List.take_add_one, hstage, Option.toList_some]
  rw [beginInline, htake, runInlineStages_append, List.length_take,
    Nat.min_eq_left (Nat.le_of_lt hlt), Nat.zero_add]
  simp only [beginInline, InlineM.bind_assoc]

/-- **What has been run so far is the beginning of an inline execution.** -/
theorem Ran.begins {i : ℕ} {data : PacketData} (h : Ran H I version queries i data) :
    i ≤ version.stages.length ∧ ∃ (made : ℕ → ℕ) (p : PacketData), I p ∧ ∀ choice : ℕ → ℕ,
      (∀ k ≤ i, choice k = made k) →
        beginInline H choice version queries i ⟨p, false⟩ = (.ok (), ⟨data, false⟩) := by
  induction h with
  | @encode n p data hp h hvalid =>
      refine ⟨Nat.zero_le _, fun _ => n, p, hp, fun choice hchoice => ?_⟩
      have hencode : (H.batchSteps choice version queries).encode
          (p.start version.compiled.staticBuffers) = (.ok (), data) := by
        rw [Hooks.batchSteps, hchoice 0 le_rfl]
        exact h
      have hhook : InlineM.hook (H.batchSteps choice version queries).encode
          ⟨p.start version.compiled.staticBuffers, false⟩ = (.ok (), ⟨data, false⟩) := by
        rw [InlineM.hook, hencode]
      rw [beginInline, run_bind_ok (checkCancel_run p), run_bind_ok (hook_start_run _ p),
        run_bind_ok hhook, run_bind_ok (Hooks.validate_run hvalid)]
      rfl
  | @stage i n stage data data' _ hstage hrun hvalid ih =>
      obtain ⟨-, made, p, hp, hbegin⟩ := ih
      have hlt : i < version.stages.length := (List.getElem?_eq_some_iff.mp hstage).1
      refine ⟨hlt, Function.update made (i + 1) n, p, hp, fun choice hchoice => ?_⟩
      have hbefore := hbegin choice fun k hk => by
        rw [hchoice k (by omega), Function.update_of_ne (by omega)]
      have hhook : runStageHook ((H.batchSteps choice version queries).runStage i stage)
          ⟨data, false⟩ = (.ok (), ⟨data', false⟩) := by
        simp only [Hooks.batchSteps, hchoice (i + 1) le_rfl, Function.update_self, runStageHook,
          hrun, Bool.or_false]
      rw [beginInline_succ choice hstage, run_bind_ok hbefore, runInlineStages,
        run_bind_ok (checkCancel_run data), run_bind_ok hhook,
        run_bind_ok (Hooks.validate_run hvalid)]
      rfl

/-! ### Its end -/

/-- An execution whose encode returned this. -/
theorem inlines_encode {n : ℕ} {p data : PacketData} {r : HookResult Unit} (hp : I p)
    (h : H.encodeBatch n version.compiled queries (p.start version.compiled.staticBuffers) =
      (r, data)) :
    ∃ rest, Inlines H I version queries ((r >>= fun _ =>
      .ofResult (H.validateRuntimePacket version.compiled data)) >>= fun _ => rest) := by
  refine ⟨(endInline H (fun _ => n) version queries 0).result ⟨data, false⟩, fun _ => n, p, hp,
    ?_⟩
  rw [result_executeInline_split _ (Nat.zero_le _), beginInline, List.take_zero]
  simp only [InlineM.bind_assoc]
  have hencode : (H.batchSteps (fun _ => n) version queries).encode
      (p.start version.compiled.staticBuffers) = (r, data) := h
  rw [result_bind_ok (checkCancel_run p), result_bind_ok (hook_start_run _ p), result_hook_bind,
    hencode]
  cases r with
  | ok => exact result_of_bind _ _ _
  | err error => rfl
  | panicked => rfl

/-- An execution whose next stage returned this. -/
theorem Ran.inlines_stage {i n : ℕ} {stage : StageSpec} {data data' : PacketData}
    {r : HookResult Unit} {cancelled : Bool} (h : Ran H I version queries i data)
    (hstage : version.stages[i]? = some stage)
    (hrun : H.runStage n version.prepared i stage data false = (r, data', cancelled)) :
    ∃ rest, Inlines H I version queries ((r >>= fun _ =>
      .ofResult (H.validateRuntimePacket version.compiled data')) >>= fun _ => rest) := by
  obtain ⟨hi, made, p, hp, hbegin⟩ := h.begins
  set choice := Function.update made (i + 1) n with hchoice
  have hbefore := hbegin choice fun k hk => by
    rw [hchoice, Function.update_of_ne (by omega)]
  have hhook : (H.batchSteps choice version queries).runStage i stage data false =
      (r, data', cancelled) := by
    simp only [Hooks.batchSteps, hchoice, Function.update_self, hrun]
  have hdrop : version.stages.drop i = stage :: version.stages.drop (i + 1) := by
    obtain ⟨hlt, rfl⟩ := List.getElem?_eq_some_iff.mp hstage
    exact List.drop_eq_getElem_cons hlt
  refine ⟨(endInline H choice version queries (i + 1)).result ⟨data', cancelled⟩, choice, p, hp,
    ?_⟩
  rw [result_executeInline_split _ hi, result_bind_ok hbefore, endInline, hdrop, runInlineStages]
  simp only [InlineM.bind_assoc]
  rw [result_bind_ok (checkCancel_run data), result, run_bind, runStageHook, hhook]
  cases r with
  | ok => exact result_of_bind _ _ _
  | err error => rfl
  | panicked => rfl

/-- An execution that has run all stages ends with what the decode returns. -/
theorem Ran.inlines_decode {data : PacketData}
    (h : Ran H I version queries version.stages.length data) (n : ℕ) :
    Inlines H I version queries (.ofResult (H.validateRuntimePacket version.compiled data) >>=
      fun _ => H.decodeBatch n version.compiled data) := by
  obtain ⟨hi, made, p, hp, hbegin⟩ := h.begins
  set choice := Function.update made (version.stages.length + 1) n with hchoice
  have hbefore := hbegin choice fun k hk => by
    rw [hchoice, Function.update_of_ne (by omega)]
  refine ⟨choice, p, hp, ?_⟩
  rw [result_executeInline_split _ hi, result_bind_ok hbefore, endInline, List.drop_length,
    runInlineStages]
  have hdecode : (H.batchSteps choice version queries).decode =
      H.decodeBatch n version.compiled := by
    simp only [Hooks.batchSteps, hchoice, Function.update_self]
  rw [result_bind_ok (show (pure () : InlineM Unit) ⟨data, false⟩ = _ from rfl), hdecode]
  exact result_of_bind _ _ _

/-! ### An execution whose hooks succeed -/

/-- Packets on which an execution goes on: a stage with the given index comes next, the packet
is valid, and after the last stage it decodes to the value. -/
structure Succeeds {α : Type} (H : Hooks T) (version : Version T) (steps : InlineSteps α)
    (Q : ℕ → PacketData → Prop) (value : α) : Prop where
  stage : ∀ i stage data, version.stages[i]? = some stage → Q i data →
    ∃ data', steps.runStage i stage data false = (.ok (), data', false) ∧ Q (i + 1) data'
  valid : ∀ i data, Q i data → H.validateRuntimePacket version.compiled data = .ok ()
  decode : ∀ data, Q version.stages.length data → steps.decode data = .ok value

namespace Succeeds

variable {α : Type} {steps : InlineSteps α} {Q : ℕ → PacketData → Prop} {value : α}
  (h : Succeeds H version steps Q value)
include h

/-- Such an execution runs its last stages. -/
theorem stages {n i : ℕ} (hn : i + n = version.stages.length) {data : PacketData}
    (hdata : Q i data) :
    ∃ last, runInlineStages H version.compiled steps.runStage i (version.stages.drop i)
        ⟨data, false⟩ = (.ok (), ⟨last, false⟩) ∧ Q version.stages.length last := by
  induction n generalizing i data with
  | zero =>
      obtain rfl : i = version.stages.length := hn
      exact ⟨data, by rw [List.drop_length]; rfl, hdata⟩
  | succ n ih =>
      have hlt : i < version.stages.length := by omega
      obtain ⟨data', hrun, hnext⟩ :=
        h.stage i version.stages[i] data (List.getElem?_eq_getElem hlt) hdata
      have hhook : runStageHook (steps.runStage i version.stages[i]) ⟨data, false⟩ =
          (.ok (), ⟨data', false⟩) := by
        simp only [runStageHook, hrun, Bool.or_false]
      obtain ⟨last, hrest, hlast⟩ := ih (by omega) hnext
      refine ⟨last, ?_, hlast⟩
      rw [List.drop_eq_getElem_cons hlt, runInlineStages, run_bind_ok (checkCancel_run data),
        run_bind_ok hhook, run_bind_ok (Hooks.validate_run (h.valid (i + 1) data' hnext)), hrest]

/-- **An execution whose hooks succeed** returns the value. -/
theorem execute {p data : PacketData}
    (hencode : steps.encode (p.start version.compiled.staticBuffers) = (.ok (), data))
    (hdata : Q 0 data) : (executeWith H version steps).result ⟨p, false⟩ = .ok value := by
  obtain ⟨last, hstages, hlast⟩ := h.stages (Nat.zero_add _) hdata
  rw [List.drop_zero] at hstages
  have hhook : InlineM.hook steps.encode ⟨p.start version.compiled.staticBuffers, false⟩ =
      (.ok (), ⟨data, false⟩) := by
    rw [InlineM.hook, hencode]
  have hready : readyPacket H version steps ⟨p, false⟩ = (.ok (), ⟨last, false⟩) := by
    rw [readyPacket, run_bind_ok (checkCancel_run p), run_bind_ok (hook_start_run _ p),
      run_bind_ok hhook, run_bind_ok (Hooks.validate_run (h.valid 0 data hdata)),
      run_bind_ok (clearOnError_eq_ok.mpr hstages), Hooks.validate_run (h.valid _ last hlast)]
  rw [executeWith_result, InlineM.result, hready]
  exact h.decode last hlast

end Succeeds

/-- **Inline executions whose hooks succeed** return the values. -/
theorem Inlines.eq_ok {Q : ℕ → PacketData → Prop} {values : List T.Resolution}
    (h : ∀ choice, Succeeds H version (H.batchSteps choice version queries) Q values)
    (hencode : ∀ n p, I p → ∃ data, H.encodeBatch n version.compiled queries
      (p.start version.compiled.staticBuffers) = (.ok (), data) ∧ Q 0 data)
    {result : HookResult (List T.Resolution)} (hresult : Inlines H I version queries result) :
    result = .ok values := by
  obtain ⟨choice, p, hp, rfl⟩ := hresult
  obtain ⟨data, hfirst, hdata⟩ := hencode (choice 0) p hp
  exact (h choice).execute hfirst hdata

/-! ### What a program point says about the run so far -/

section Points

variable {b : BackendId} {n : ℕ} {pools pools' : Pools} {job job' : Job T} {code : JobCode T}
  {act : ClientAct (JobCode T) JobTask} {ended : Prop}

/-- Unless the job was cancelled, an inline execution of its batch may end with the error, or
with a panic that the error stands for, or the executor has shut down. -/
def Job.Excuses (H : Hooks T) (I : PacketData → Prop) (job : Job T) (error : BraidError) : Prop :=
  job.record.cancel = false → error = .executorShutdown ∨
    ∃ result, Inlines H I job.version job.queries result ∧ stateOf result = stateOf (.err error)

/-- Unless the job was cancelled, the packet in its slot is the one after `i` stages. -/
def Job.Holds (H : Hooks T) (I : PacketData → Prop) (job : Job T) (i : ℕ) : Prop :=
  ∀ pkt, job.packet = some pkt → job.record.cancel = false →
    Ran H I job.version job.queries i pkt.data

/-- The packet is the one that the step needs. -/
def Job.Prepared (H : Hooks T) (I : PacketData → Prop) (job : Job T) : JobTask → Prop
  | .encode => True
  | .stage i => job.Holds H I i
  | .decode => job.Holds H I job.version.stages.length

/-- What a program point of a task says about the run so far. -/
def JobCode.Traces (H : Hooks T) (I : PacketData → Prop) (job : Job T) : JobCode T → Prop
  | .scratch pkt | .encodeHook pkt =>
      ∃ p : PacketData, I p ∧ pkt.data = p.start job.version.compiled.staticBuffers
  | .encoded pkt result => ∃ (n : ℕ) (p : PacketData) (r : HookResult Unit), I p ∧
      H.encodeBatch n job.version.compiled job.queries
        (p.start job.version.compiled.staticBuffers) = (r, pkt.data) ∧ r.result? = some result
  | .recycle _ error | .giveBack _ (.error error) | .caught false error
  | .cleanup false _ error | .finish false error => job.Excuses H I error
  | .store pkt => Ran H I job.version job.queries 0 pkt.data
  | .schedule next => job.Prepared H I next
  | .stage i | .stageLock i => job.Holds H I i
  | .stageHook i _ pkt =>
      job.record.cancel = false → Ran H I job.version job.queries i pkt.data
  | .decode => job.Holds H I job.version.stages.length
  | .take => ∀ pkt, job.packet = some pkt →
      Ran H I job.version job.queries job.version.stages.length pkt.data
  | .decodeHook pkt => Ran H I job.version job.queries job.version.stages.length pkt.data ∧
      H.validateRuntimePacket job.version.compiled pkt.data = .ok ()
  | .giveBack _ (.ok values) | .finishCompleted values =>
      Inlines H I job.version job.queries (.ok values)
  | _ => True

/-- What the task does next says so too. -/
def Job.GoesOn (H : Hooks T) (I : PacketData → Prop) (job : Job T) :
    ClientAct (JobCode T) JobTask → Prop
  | .goto code | .shutdown code => code.Traces H I job
  | .submit task code | .schedule _ task code => job.Prepared H I task ∧ code.Traces H I job
  | .prepare _ _ _ => False
  | .ret _ => True

/-- The job has decoded, and ends, as an inline execution does. -/
structure Job.Refines (H : Hooks T) (I : PacketData → Prop) (job : Job T) : Prop where
  decoded : ∀ values, job.decoded = some values →
    Inlines H I job.version job.queries (.ok values)
  failed : ∀ error, job.record.state = .failed (some error) → job.Excuses H I error
  cancelled : job.record.state = .cancelled → job.Excuses H I .cancelled

/-- A failed call of a hook or of the validation is the end of an inline execution. -/
theorem Job.Excuses.of_inlines {r : HookResult Unit} {error : BraidError}
    {rest : HookResult (List T.Resolution)}
    (h : Inlines H I job.version job.queries (r >>= fun _ => rest))
    (hr : r = .err error ∨ r = .panicked ∧ error = taskPanicked) : job.Excuses H I error := by
  intro _
  rcases hr with rfl | ⟨rfl, rfl⟩
  · exact .inr ⟨_, h, rfl⟩
  · exact .inr ⟨_, h, rfl⟩

/-- A job that was cancelled has an excuse. -/
theorem Job.Excuses.of_cancel {error : BraidError} (h : job.record.cancel = true) :
    job.Excuses H I error := by
  intro hcancel
  simp [h] at hcancel

/-- So has one whose executor shut down. -/
theorem Job.Excuses.shutdown : job.Excuses H I .executorShutdown := fun _ => .inl rfl

/-- The excuse of a job does not depend on its packet. -/
theorem Job.Excuses.congr {error : BraidError} (h : job.Excuses H I error)
    (hversion : job'.version = job.version) (hqueries : job'.queries = job.queries)
    (hcancel : job'.record.cancel = false → job.record.cancel = false) :
    job'.Excuses H I error := by
  rw [Job.Excuses, hversion, hqueries]
  exact fun hc => h (hcancel hc)

/-- What has been refined so far, while the record is not written. -/
theorem Job.Refines.congr (h : job.Refines H I) (hversion : job'.version = job.version)
    (hqueries : job'.queries = job.queries) (hdecoded : job'.decoded = job.decoded)
    (hstate : job'.record.state = job.record.state)
    (hcancel : job'.record.cancel = false → job.record.cancel = false) : job'.Refines H I where
  decoded := by
    rw [hversion, hqueries, hdecoded]
    exact h.decoded
  failed error hs := (h.failed error (hstate ▸ hs)).congr hversion hqueries hcancel
  cancelled hs := (h.cancelled (hstate ▸ hs)).congr hversion hqueries hcancel

/-- A job that has not ended has decoded as an inline execution does. -/
theorem Job.Refines.of_live (hlive : job.record.state.terminal = false)
    (hdecoded : ∀ values, job.decoded = some values →
      Inlines H I job.version job.queries (.ok values)) : job.Refines H I where
  decoded := hdecoded
  failed error hs := by simp [hs, JobRecordState.terminal] at hlive
  cancelled hs := by simp [hs, JobRecordState.terminal] at hlive

/-- A job that `run_caught` ends with an excuse. -/
theorem Job.Refines.finishWith (h : job.Refines H I) {error : BraidError}
    (hex : job.Excuses H I error) : (job.finishWith error).Refines H I := by
  rw [Job.finishWith.eq_def]
  split
  · exact h
  · cases error with
    | cancelled =>
        exact ⟨h.decoded, fun error hs => by simp [JobRecord.finishCancelled] at hs, fun _ => hex⟩
    | _ =>
        refine ⟨h.decoded, fun error' hs => ?_, fun hs => by simp [JobRecord.finishFailed] at hs⟩
        obtain rfl : _ = error' := by simpa [JobRecord.finishFailed] using hs
        exact hex

/-- After the encode the job is prepared for what comes next. -/
theorem Job.Holds.afterEncode (h : job.Holds H I 0) : job.Prepared H I job.version.afterEncode := by
  rw [Version.afterEncode]
  split
  · next hempty =>
      have hlen : job.version.stages.length = 0 := by
        rw [List.isEmpty_iff.mp hempty, List.length_nil]
      rw [Job.Prepared, hlen]
      exact h
  · exact h

/-- After a stage the job is prepared for what comes next. -/
theorem Job.Holds.afterStage {i : ℕ} (h : job.Holds H I (i + 1))
    (hi : i < job.version.stages.length) : job.Prepared H I (job.version.afterStage i) := by
  rw [Version.afterStage]
  split
  · exact h
  · next hle =>
      have hlen : job.version.stages.length = i + 1 := by omega
      rw [Job.Prepared, hlen]
      exact h

/-- A task for which somebody else ends the job says nothing. -/
theorem JobCode.Traces.of_late (hw : code.carries = 0) : code.Traces H I job := by
  cases code with
  | refused next => exact trivial
  | caught again | cleanup again | finish again =>
      cases again with
      | true => exact trivial
      | false => simp [JobCode.carries] at hw
  | await | released | ended => exact trivial
  | _ => simp [JobCode.carries] at hw

/-- A program point still says so after a touch. -/
theorem JobCode.Traces.touch {record : JobRecord T.Resolution}
    {delivered : List (List T.Resolution)} {dispatched : Dispatched}
    (h : Alike job.record record) (ht : code.Traces H I job) :
    code.Traces H I { job with record, delivered, dispatched } := by
  have hcancel : record.cancel = false → job.record.cancel = false := by
    intro hc
    by_contra hne
    simp [h.cancel (by simpa using hne)] at hc
  have hholds : ∀ i, job.Holds H I i → { job with record, delivered, dispatched }.Holds H I i :=
    fun i hi pkt hpkt hc => hi pkt hpkt (hcancel hc)
  have hexcuses : ∀ error, job.Excuses H I error →
      { job with record, delivered, dispatched }.Excuses H I error :=
    fun error he hc => he (hcancel hc)
  cases code with
  | recycle => exact hexcuses _ ht
  | giveBack pkt result =>
      cases result with
      | ok => exact ht
      | error => exact hexcuses _ ht
  | caught again | cleanup again | finish again =>
      cases again with
      | true => exact trivial
      | false => exact hexcuses _ ht
  | schedule next =>
      cases next with
      | encode => exact trivial
      | stage i => exact hholds i ht
      | decode => exact hholds _ ht
  | stage | stageLock | decode => exact hholds _ ht
  | stageHook => exact fun hc => ht (hcancel hc)
  | _ => exact ht

/-- What `encode_packet` makes of a hook that fails, or of an invalid packet. -/
theorem encoded_fails {pkt : Packet} {result : BraidResult Unit} {error : BraidError}
    (h : jobStep H b n pools job (.encoded pkt result) =
      some (pools', job', .goto (.recycle pkt error))) {r : HookResult Unit}
    (hr : r.result? = some result) :
    (r >>= fun _ => .ofResult (H.validateRuntimePacket job.version.compiled pkt.data)) =
        .err error := by
  simp only [jobStep] at h
  split at h
  · simp at h
  · split at h
    · simp at h
    · next error' herror =>
        obtain ⟨rfl, rfl, rfl⟩ : pools = pools' ∧ _ = job' ∧ error' = error := by simpa using h
        cases r with
        | ok =>
            obtain rfl : .ok () = result := by simpa [HookResult.result?] using hr
            change HookResult.ofResult (H.validateRuntimePacket job.version.compiled pkt.data) = _
            rw [show H.validateRuntimePacket job.version.compiled pkt.data = .error error' from
              herror]
            rfl
        | err error =>
            obtain rfl : .error error = result := by simpa [HookResult.result?] using hr
            obtain rfl : error = error' := by simpa [Except.bind] using herror
            rfl
        | panicked => simp [HookResult.result?] at hr

/-- What `run_stage_once` makes of a hook that fails or panics, or of an invalid packet. -/
theorem stage_fails {i : ℕ} {stage : StageSpec} {pkt : Packet} {error : BraidError}
    (h : jobStep H b n pools job (.stageHook i stage pkt) =
      some (pools', job', .goto (.caught false error))) :
    ∃ r data cancelled, H.runStage n job.version.prepared i stage pkt.data job.record.cancel =
        (r, data, cancelled) ∧
      ((r >>= fun _ => .ofResult (H.validateRuntimePacket job.version.compiled data)) =
          .err error ∨
        (r >>= fun _ => .ofResult (H.validateRuntimePacket job.version.compiled data)) =
          .panicked ∧ error = taskPanicked) := by
  rcases hrun : H.runStage n job.version.prepared i stage pkt.data job.record.cancel with
    ⟨r, data, cancelled⟩
  refine ⟨r, data, cancelled, rfl, ?_⟩
  simp only [jobStep, hrun] at h
  cases r with
  | panicked =>
      simp only [Option.some.injEq, Prod.mk.injEq, ClientAct.goto.injEq, JobCode.caught.injEq] at h
      exact .inr ⟨rfl, h.2.2.2.symm⟩
  | err error' =>
      simp only [Option.some.injEq, Prod.mk.injEq, ClientAct.goto.injEq, JobCode.caught.injEq] at h
      obtain ⟨-, -, -, rfl⟩ := h
      exact .inl rfl
  | ok =>
      cases hval : H.validateRuntimePacket job.version.compiled data with
      | ok => simp [hval] at h
      | error error' =>
          simp only [hval, Option.some.injEq, Prod.mk.injEq, ClientAct.goto.injEq,
            JobCode.caught.injEq] at h
          obtain ⟨-, -, -, rfl⟩ := h
          exact .inl rfl

/-- `checkout_packet` takes a packet of the pool or a fresh one. -/
theorem JobStep.traces_checkout (h : JobStep H b pools job .checkout pools' job' act)
    (hfresh : I .fresh) (hpool : ∀ pkt ∈ pools.packets, I pkt.data) (hc : pools.Clean)
    (hr : job.Refines H I) :
    job'.Refines H I ∧ job'.GoesOn H I act := by
  cases h with
  | checkoutPoisoned h => simp [hc.packets] at h
  | checkout _ hpkt =>
      refine ⟨hr.congr rfl rfl rfl rfl id, ?_⟩
      rw [Pools.checkout] at hpkt
      split at hpkt
      · next first packets hfirst =>
          obtain ⟨-, rfl⟩ := Prod.mk.inj hpkt
          exact ⟨first.data, hpool first (by simp [hfirst]), rfl⟩
      · obtain ⟨-, rfl⟩ := Prod.mk.inj hpkt
        exact ⟨_, hfresh, rfl⟩
  | leave hleave => simp at hleave

/-- `encode_batch` returns or panics, as it does inline. -/
theorem JobStep.traces_encodeHook {pkt : Packet}
    (h : JobStep H b pools job (.encodeHook pkt) pools' job' act)
    (ht : JobCode.Traces H I job (.encodeHook pkt)) (hr : job.Refines H I) :
    job'.Refines H I ∧ job'.GoesOn H I act := by
  cases h with
  | encodeReturned h hresult =>
      obtain ⟨p, hI, hp⟩ := ht
      rw [hp] at h
      exact ⟨hr, _, p, _, hI, h, hresult⟩
  | encodePanicked h =>
      obtain ⟨p, hI, hp⟩ := ht
      rw [hp] at h
      obtain ⟨rest, hinl⟩ := inlines_encode hI h
      exact ⟨hr.congr rfl rfl rfl rfl id, Job.Excuses.of_inlines hinl (.inr ⟨rfl, rfl⟩)⟩
  | leave hleave => simp at hleave

/-- `encode_packet` goes on with a valid packet, or fails as it does inline. -/
theorem jobStep_traces_encoded {pkt : Packet} {result : BraidResult Unit}
    (hstep : jobStep H b n pools job (.encoded pkt result) = some (pools', job', act))
    (hc : pools.Clean) (ht : JobCode.Traces H I job (.encoded pkt result)) (hr : job.Refines H I) :
    job'.Refines H I ∧ job'.GoesOn H I act := by
  cases jobStep_cases hstep with
  | encodedPoisoned h => simp [hc.scratch] at h
  | @encoded pkt _ _ hok hval =>
      obtain ⟨n, p, r, hI, h, hresult⟩ := ht
      obtain rfl : r = .ok () := by
        subst hok
        cases r <;> simp_all [HookResult.result?]
      exact ⟨hr.congr rfl rfl rfl rfl id, .encode hI h hval⟩
  | @encodeFailed pkt result error =>
      obtain ⟨n, p, r, hI, h, hresult⟩ := ht
      obtain ⟨rest, hinl⟩ := inlines_encode hI h
      exact ⟨hr.congr rfl rfl rfl rfl id,
        Job.Excuses.of_inlines hinl (.inl (encoded_fails hstep hresult))⟩
  | leave hleave => simp at hleave

/-- `store_packet` stores the packet that the first stage reads. -/
theorem JobStep.traces_store {pkt : Packet} (h : JobStep H b pools job (.store pkt) pools' job' act)
    (hf : JobCode.Fits ended job (.store pkt)) (ht : JobCode.Traces H I job (.store pkt))
    (hr : job.Refines H I) : job'.Refines H I ∧ job'.GoesOn H I act := by
  cases h with
  | storePoisoned h =>
      have hat : job.At _ _ _ _ := hf
      have hlock := hat.has.2.1
      simp [h] at hlock
  | storeTwice h hp =>
      have hat : job.At _ _ _ _ := hf
      have hpkt := hat.has.2.2.1
      simp [hp] at hpkt
  | @store pkt h hp =>
      have hholds : { job with packet := some pkt }.Holds H I 0 := by
        rintro _ ⟨⟩ -
        exact ht
      exact ⟨hr.congr rfl rfl rfl rfl id, Job.Holds.afterEncode hholds⟩
  | leave hleave => simp at hleave

/-- `stage_step` locks the packet that the stage reads. -/
theorem JobStep.traces_stageLock {i : ℕ} (h : JobStep H b pools job (.stageLock i) pools' job' act)
    (hf : JobCode.Fits ended job (.stageLock i)) (ht : JobCode.Traces H I job (.stageLock i))
    (hr : job.Refines H I) : job'.Refines H I ∧ job'.GoesOn H I act := by
  cases h with
  | @stagePoisoned i h =>
      have hready : job.Ready (.stage i) := hf
      have hslot := hready.slot
      simp [h] at hslot
  | @stageNoPacket i h hp =>
      have hready : job.Ready (.stage i) := hf
      have hslot := hready.slot
      simp [hp] at hslot
  | stageMissing h hp hmissing =>
      obtain ⟨hlt, -⟩ := hf
      rw [List.getElem?_eq_none_iff] at hmissing
      omega
  | stageLock h hp => exact ⟨hr.congr rfl rfl rfl rfl id, fun hcancel => ht _ hp hcancel⟩
  | leave hleave => simp at hleave

/-- `run_stage` returns or panics, as it does inline. -/
theorem jobStep_traces_stageHook {i : ℕ} {stage : StageSpec} {pkt : Packet}
    (hstep : jobStep H b n pools job (.stageHook i stage pkt) = some (pools', job', act))
    (hf : JobCode.Fits ended job (.stageHook i stage pkt))
    (ht : JobCode.Traces H I job (.stageHook i stage pkt)) (hr : job.Refines H I) :
    job'.Refines H I ∧ job'.GoesOn H I act := by
  cases jobStep_cases hstep with
  | @stagePanicked i spec pkt data cancelled n h =>
      refine ⟨hr.congr rfl rfl rfl rfl fun hcancel => (Bool.or_eq_false_iff.mp hcancel).1, ?_⟩
      intro hcancel
      obtain ⟨hold, rfl⟩ := Bool.or_eq_false_iff.mp hcancel
      rw [hold] at h
      obtain ⟨rest, hinl⟩ := (ht hold).inlines_stage hf.1 h
      exact .inr ⟨_, hinl, rfl⟩
  | @stageFailed i spec pkt data cancelled error =>
      refine ⟨hr.congr rfl rfl rfl rfl fun hcancel => (Bool.or_eq_false_iff.mp hcancel).1, ?_⟩
      intro hcancel
      obtain ⟨hold, -⟩ := Bool.or_eq_false_iff.mp hcancel
      obtain ⟨r, data', cancelled', h, hfails⟩ := stage_fails hstep
      rw [hold] at h
      obtain ⟨rest, hinl⟩ := (ht hold).inlines_stage hf.1 h
      have hexcuses : job.Excuses H I error := .of_inlines hinl hfails
      exact hexcuses hold
  | @stagePassed i spec pkt data cancelled n h hval =>
      refine ⟨hr.congr rfl rfl rfl rfl fun hcancel => (Bool.or_eq_false_iff.mp hcancel).1, ?_⟩
      have hholds : Job.Holds H I { job with
          packet := some { pkt with data }
          packetLock := .free
          record := { job.record with cancel := job.record.cancel || cancelled }
          passed := job.passed ++ [.stage i] } (i + 1) := by
        rintro _ ⟨⟩ hcancel
        obtain ⟨hold, rfl⟩ := Bool.or_eq_false_iff.mp hcancel
        rw [hold] at h
        exact (ht hold).stage hf.1 h hval
      exact hholds.afterStage (List.getElem?_eq_some_iff.mp hf.1).1
  | leave hleave => simp at hleave

/-- `decode_packet` takes the packet that the last stage left. -/
theorem JobStep.traces_take (h : JobStep H b pools job .take pools' job' act)
    (hf : JobCode.Fits ended job .take) (ht : JobCode.Traces H I job .take) (hr : job.Refines H I) :
    job'.Refines H I ∧ job'.GoesOn H I act := by
  cases h with
  | takePoisoned h =>
      have hslot := hf.1.slot
      simp [h] at hslot
  | takeMissing h hp =>
      have hslot := hf.1.slot
      simp [hp] at hslot
  | takeInvalid h hp hval =>
      refine ⟨hr.congr rfl rfl rfl rfl id, ?_⟩
      have hinl := (ht _ hp).inlines_decode 0
      rw [hval] at hinl
      exact fun _ => .inr ⟨_, hinl, rfl⟩
  | take h hp hval => exact ⟨hr.congr rfl rfl rfl rfl id, ht _ hp, hval⟩
  | leave hleave => simp at hleave

/-- `decode_batch` returns or panics, as it does inline. -/
theorem JobStep.traces_decodeHook {pkt : Packet}
    (h : JobStep H b pools job (.decodeHook pkt) pools' job' act)
    (hf : JobCode.Fits ended job (.decodeHook pkt)) (ht : JobCode.Traces H I job (.decodeHook pkt))
    (hr : job.Refines H I) : job'.Refines H I ∧ job'.GoesOn H I act := by
  cases h with
  | @decoded pkt values n h =>
      have hinl := ht.1.inlines_decode n
      rw [ht.2, h] at hinl
      refine ⟨.of_live (hf.2.live rfl) ?_, hinl⟩
      rintro _ ⟨⟩
      exact hinl
  | @decodeFailed pkt error n h =>
      have hinl := ht.1.inlines_decode n
      rw [ht.2, h] at hinl
      exact ⟨hr.congr rfl rfl rfl rfl id, fun _ => .inr ⟨_, hinl, rfl⟩⟩
  | @decodePanicked pkt n h =>
      have hinl := ht.1.inlines_decode n
      rw [ht.2, h] at hinl
      exact ⟨hr.congr rfl rfl rfl rfl id, fun _ => .inr ⟨_, hinl, rfl⟩⟩
  | leave hleave => simp at hleave

/-- **A step of a task that is responsible for its job** goes on with the inline execution. -/
theorem JobStep.traces (hstep : jobStep H b n pools job code = some (pools', job', act))
    (hfresh : I .fresh) (hpool : ∀ pkt ∈ pools.packets, I pkt.data) (hc : pools.Clean)
    (hs : job.Sound) (hcode : code.carries = 1) (hf : code.Fits ended job)
    (ht : code.Traces H I job) (hr : job.Refines H I) :
    job'.Refines H I ∧ job'.GoesOn H I act := by
  have h := jobStep_cases hstep
  cases code with
  | checkout => exact h.traces_checkout hfresh hpool hc hr
  | encodeHook pkt => exact h.traces_encodeHook ht hr
  | encoded pkt result => exact jobStep_traces_encoded hstep hc ht hr
  | store pkt => exact h.traces_store hf ht hr
  | stageLock i => exact h.traces_stageLock hf ht hr
  | stageHook i stage pkt => exact jobStep_traces_stageHook hstep hf ht hr
  | take => exact h.traces_take hf ht hr
  | decodeHook pkt => exact h.traces_decodeHook hf ht hr
  | encode =>
      cases h with
      | encodeCancelled h => exact ⟨hr, .of_cancel h⟩
      | encode => exact ⟨hr, trivial⟩
      | leave hleave => simp at hleave
  | mark =>
      cases h with
      | markPoisoned h => simp [hs.unpoisoned] at h
      | mark => exact ⟨.of_live rfl hr.decoded, trivial⟩
      | leave hleave => simp at hleave
  | scratch pkt =>
      cases h with
      | scratchPoisoned h => simp [hc.scratch] at h
      | scratch => exact ⟨hr.congr rfl rfl rfl rfl id, ht⟩
      | leave hleave => simp at hleave
  | recycle pkt error =>
      cases h with
      | recycle h =>
          obtain ⟨-, rfl⟩ := giveBackPacket_spec hc.packets h
          exact ⟨hr.congr rfl rfl rfl rfl id, ht⟩
      | leave hleave => simp at hleave
  | stage i =>
      cases h with
      | stageCancelled h => exact ⟨hr, .of_cancel h⟩
      | stage => exact ⟨hr, ht⟩
      | leave hleave => simp at hleave
  | decode =>
      cases h with
      | decodeCancelled h => exact ⟨hr.congr rfl rfl rfl rfl id, .of_cancel h⟩
      | decode h => exact ⟨hr.congr rfl rfl rfl rfl id, fun pkt hpkt => ht pkt hpkt h⟩
      | leave hleave => simp at hleave
  | giveBack pkt result =>
      cases h with
      | giveBackOk _ h =>
          obtain ⟨-, rfl⟩ := giveBackPacket_spec hc.packets h
          exact ⟨hr.congr rfl rfl rfl rfl id, ht⟩
      | giveBackPoisoned h => simp [hc.packets] at h
      | giveBackErr h =>
          obtain ⟨-, rfl⟩ := giveBackPacket_spec hc.packets h
          exact ⟨hr.congr rfl rfl rfl rfl id, ht⟩
      | leave hleave => simp at hleave
  | finishCompleted values =>
      cases h with
      | completedPoisoned h => simp [hs.unpoisoned] at h
      | completed =>
          refine ⟨⟨hr.decoded, fun error hs => ?_, fun hs => ?_⟩, trivial⟩
          · simp [JobRecord.finishCompleted] at hs
          · simp [JobRecord.finishCompleted] at hs
      | leave hleave => simp at hleave
  | schedule next =>
      cases h with
      | scheduleStage => exact ⟨hr, ht, trivial⟩
      | submit => exact ⟨hr, ht, trivial⟩
      | leave hleave => simp at hleave
  | refused next error =>
      cases h with
      | refusedStage => simp [JobCode.carries] at hcode
      | @refused next error hnext =>
          obtain rfl : error = .executorShutdown := by
            cases next with
            | stage i => exact (hnext i rfl).elim
            | _ => exact hf.1
          exact ⟨hr.congr rfl rfl rfl rfl id, Job.Excuses.shutdown⟩
      | leave hleave => simp at hleave
  | caught again error =>
      cases again with
      | true => simp [JobCode.carries] at hcode
      | false =>
          cases h with
          | @caughtNone again error h => exact ⟨hr, ht⟩
          | @caught again error pkt h hp => exact ⟨hr.congr rfl rfl rfl rfl id, ht⟩
          | leave hleave => simp at hleave
  | cleanup again pkt error =>
      cases again with
      | true => exact hf.elim
      | false =>
          cases h with
          | @cleanup again error pkt pools' job' h =>
              obtain ⟨-, rfl⟩ := giveBackPacket_spec hc.packets h
              exact ⟨hr.congr rfl rfl rfl rfl id, ht⟩
          | leave hleave => simp at hleave
  | finish again error =>
      cases again with
      | true => simp [JobCode.carries] at hcode
      | false =>
          cases h with
          | @finish again error => exact ⟨hr.finishWith ht, trivial⟩
          | leave hleave => simp at hleave
  | await | released | ended => simp [JobCode.carries] at hcode

end Points

/-! ### All jobs -/

/-- The error that a reject side ends its job with. -/
def RejectPoint.error : RejectPoint → BraidError
  | .take error | .giveBack _ error | .fail error => error

/-- What a point of a job says about the run so far. -/
def StackPoint.Traces (H : Hooks T) (I : PacketData → Prop) (job : Job T) : StackPoint T → Prop
  | .code (.task _ code) => code.Traces H I job
  | .task task | .scheduled task => job.Prepared H I task.kind
  | .rejecting code => code.point.error = .executorShutdown
  | _ => True

/-- Every job refines inline execution. -/
structure Traced (H : Hooks T) (I : PacketData → Prop) (m : Mem T)
    (P : Soup (Code T) Task RejectCode) : Prop where
  refines : ∀ j job, m.job j = some job → job.Refines H I
  points : ∀ p ∈ P, ∀ j job, StackPoint.owner p = some j → m.job j = some job →
    StackPoint.Traces H I job p

section Soup

variable {m m' : Mem T} {P Q R : Soup (Code T) Task RejectCode} {j : JobId} {job job' : Job T}
  {p : StackPoint T} {code : Code T} {act : ClientAct (Code T) Task}

/-- A point that is not responsible for its job says nothing. -/
theorem StackPoint.Traces.of_late (hw : StackPoint.carries p = 0) :
    StackPoint.Traces H I job p := by
  cases p with
  | code code =>
      cases code with
      | task j code => exact JobCode.Traces.of_late hw
      | _ => exact trivial
  | hook => exact trivial
  | _ => simp [StackPoint.carries] at hw

/-- A point still says so after a touch. -/
theorem StackPoint.Traces.touch {record : JobRecord T.Resolution}
    {delivered : List (List T.Resolution)} {dispatched : Dispatched}
    (h : Alike job.record record) (ht : StackPoint.Traces H I job p) :
    StackPoint.Traces H I { job with record, delivered, dispatched } p := by
  have hprepared : ∀ kind, job.Prepared H I kind →
      { job with record, delivered, dispatched }.Prepared H I kind := by
    intro kind hkind
    have hschedule : (JobCode.schedule kind).Traces H I job := hkind
    exact hschedule.touch h
  cases p with
  | code code =>
      cases code with
      | task j code => exact JobCode.Traces.touch h ht
      | _ => exact trivial
  | task task | scheduled task => exact hprepared _ ht
  | _ => exact ht

/-- A touch that puts no error into the record. -/
theorem Job.Refines.touch {record : JobRecord T.Resolution}
    {delivered : List (List T.Resolution)} {dispatched : Dispatched} (hr : job.Refines H I)
    (h : Alike job.record record)
    (hfailed : ∀ error, record.state = .failed (some error) →
      job.record.state = .failed (some error)) :
    { job with record, delivered, dispatched }.Refines H I := by
  have hcancel : record.cancel = false → job.record.cancel = false := by
    intro hc
    by_contra hne
    simp [h.cancel (by simpa using hne)] at hc
  refine ⟨hr.decoded, fun error hs => (hr.failed error (hfailed error hs)).congr rfl rfl hcancel,
    fun hs => (hr.cancelled ?_).congr rfl rfl hcancel⟩
  have hstatus := h.status
  have hs : record.state = .cancelled := hs
  simp only [statusOf, hs] at hstatus
  cases hold : job.record.state <;> simp_all

/-- Points come and go, and the jobs stay as they are. -/
theorem Traced.exchange (h : Traced H I m (P + R)) (hjob : m'.job = m.job)
    (hQ : ∀ q ∈ Q, ∀ j job, StackPoint.owner q = some j → m.job j = some job →
      StackPoint.Traces H I job q) : Traced H I m' (Q + R) := by
  refine ⟨hjob ▸ h.refines, fun q hq j job hown hj => ?_⟩
  rw [hjob] at hj
  rcases Multiset.mem_add.mp hq with hq | hq
  · exact hQ q hq j job hown hj
  · exact h.points q (Multiset.mem_add.mpr (.inr hq)) j job hown hj

/-- A point becomes another one of the same job. -/
theorem Traced.become {q : StackPoint T} (h : Traced H I m ({p} + R))
    (howner : StackPoint.owner q = StackPoint.owner p)
    (htraces : ∀ job, StackPoint.Traces H I job p → StackPoint.Traces H I job q) :
    Traced H I m ({q} + R) := by
  refine h.exchange rfl fun q' hq' j job hown hj => ?_
  obtain rfl := Multiset.mem_singleton.mp hq'
  exact htraces job (h.points p (by simp) j job (howner ▸ hown) hj)

/-- A point of a job moves on and writes to its job. -/
theorem Traced.carry (h : Traced H I m (P + R))
    (hjob : m'.job = Function.update m.job j (some job')) (hr : job'.Refines H I)
    (hQ : ∀ q ∈ Q, StackPoint.owner q = some j ∧ StackPoint.Traces H I job' q)
    (hR : ∀ p ∈ R, StackPoint.owner p = some j → StackPoint.Traces H I job' p) :
    Traced H I m' (Q + R) := by
  refine ⟨fun i other hi => ?_, fun q hq i other hown hi => ?_⟩
  · rw [hjob, Function.update_apply] at hi
    split at hi
    · obtain rfl := Option.some.inj hi
      exact hr
    · exact h.refines i other hi
  · rw [hjob, Function.update_apply] at hi
    split at hi
    · next hij =>
        subst hij
        obtain rfl := Option.some.inj hi
        rcases Multiset.mem_add.mp hq with hq | hq
        · exact (hQ q hq).2
        · exact hR q hq hown
    · next hij =>
        rcases Multiset.mem_add.mp hq with hq | hq
        · rw [(hQ q hq).1] at hown
          exact (hij (Option.some.inj hown).symm).elim
        · exact h.points q (Multiset.mem_add.mpr (.inr hq)) i other hown hi

/-- What `dispatch`, `collect` and `cancel` write to a job. -/
theorem Traced.touch (h : Traced H I m (P + R)) (hj : m.job j = some job)
    {record : JobRecord T.Resolution} {delivered : List (List T.Resolution)}
    {dispatched : Dispatched}
    (hjob : m'.job = Function.update m.job j (some { job with record, delivered, dispatched }))
    (hlike : Alike job.record record)
    (hfailed : ∀ error, record.state = .failed (some error) →
      job.record.state = .failed (some error))
    (hQ : ∀ q ∈ Q, StackPoint.owner q = none) : Traced H I m' (Q + R) := by
  have hgone : Traced H I m (0 + R) := h.exchange rfl (by simp)
  have htouched : Traced H I m' (0 + R) := by
    refine hgone.carry hjob ((h.refines j job hj).touch hlike hfailed) (by simp)
      fun p hp hown => ?_
    exact (h.points p (Multiset.mem_add.mpr (.inr hp)) j job hown hj).touch hlike
  exact htouched.exchange rfl fun q hq j job hown => by simp [hQ q hq] at hown

/-- What a task of a job does next belongs to the job, and says so. -/
theorem Job.GoesOn.points {act : ClientAct (JobCode T) JobTask} (h : job'.GoesOn H I act)
    {q : StackPoint T} (hq : q ∈ taskPoints j act) :
    StackPoint.owner q = some j ∧ StackPoint.Traces H I job' q := by
  cases act with
  | goto code | shutdown code =>
      obtain rfl := Multiset.mem_singleton.mp hq
      exact ⟨rfl, h⟩
  | submit task code | schedule b task code =>
      simp only [taskPoints, liftAct, ClientAct.points, Multiset.insert_eq_cons,
        Multiset.mem_cons, Multiset.mem_singleton] at hq
      rcases hq with rfl | rfl
      · exact ⟨rfl, h.1⟩
      · exact ⟨rfl, h.2⟩
  | prepare => exact h.elim
  | ret => simp [taskPoints, liftAct] at hq

/-- **A step of a task** keeps all jobs refined. -/
theorem Traced.task {b : BackendId} {n : ℕ} {code : JobCode T} {pools : Pools}
    {act : ClientAct (JobCode T) JobTask} (hfresh : I .fresh)
    (hpool : ∀ pkt ∈ m.pools.packets, I pkt.data) (h : Traced H I m ({.code (.task j code)} + R))
    (hok : JobsOk m ({.code (.task j code)} + R)) (hj : m.job j = some job)
    (hstep : jobStep H b n m.pools job code = some (pools, job', act)) :
    Traced H I { m.setJob j job' with pools } (taskPoints j act + R) := by
  have hjob := hok.job j job hj
  have hf : code.Fits (j ∈ m.rejected) job := hjob.fits (.code (.task j code)) (by simp) rfl
  have ht : code.Traces H I job := h.points (.code (.task j code)) (by simp) j job rfl hj
  have hr := h.refines j job hj
  have hlate : share StackPoint.carries j R = 0 → ∀ p ∈ R, StackPoint.owner p = some j →
      StackPoint.Traces H I job' p := by
    intro hzero p hp hown
    have hle := le_share (w := StackPoint.carries) hp hown
    exact .of_late (by omega)
  obtain hw | hw : code.carries = 1 ∨ code.carries = 0 := by
    rw [JobCode.carries.eq_def]
    split <;> simp
  · have hshare : share StackPoint.carries j {(.code (.task j code) : StackPoint T)} = 1 := by
      simpa [StackPoint.owner, Code.owner, StackPoint.carries, Code.carries] using hw
    obtain ⟨hr', hon⟩ := JobStep.traces hstep hfresh hpool hok.pools hjob.sound hw hf ht hr
    exact h.carry rfl hr' (fun q hq => hon.points hq) (hlate (hjob.carrier hshare).2)
  · obtain ⟨-, hsame, hact⟩ := (jobStep_cases hstep).late hw hf hjob.rejected
    have hon : job'.GoesOn H I act := by
      rcases hact with ⟨r, rfl⟩ | ⟨next, rfl | rfl, hnext, -⟩
      · exact trivial
      · exact JobCode.Traces.of_late hnext
      · exact JobCode.Traces.of_late hnext
    rcases hsame with rfl | ⟨hrej, rfl⟩
    · exact h.carry rfl hr (fun q hq => hon.points hq) fun p hp hown =>
        h.points p (Multiset.mem_add.mpr (.inr hp)) j job' hown hj
    · have hsum := hjob.carried
      rw [if_pos (hjob.rejected hrej).isOver, share_add] at hsum
      exact h.carry rfl (hr.finishWith .shutdown) (fun q hq => hon.points hq)
        (hlate (by omega))

/-- **A step of a reject side** keeps all jobs refined. -/
theorem Traced.reject {code : RejectCode} {next : Option RejectCode}
    (h : Traced H I m ({.rejecting code} + R)) (hok : JobsOk m ({.rejecting code} + R))
    (hstep : StackReject m code m' next) :
    Traced H I m' (next.elim 0 (fun next => {.rejecting next}) + R) := by
  have hlate : ∀ {j point} {job job' : Job T}, code = ⟨j, point⟩ → m.job j = some job →
      ∀ p ∈ R, StackPoint.owner p = some j → StackPoint.Traces H I job' p := by
    rintro j point job job' rfl hj p hp hown
    have hzero := ((hok.job j job hj).carrier
      (by simp [StackPoint.owner, StackPoint.carries])).2
    have hle := le_share (w := StackPoint.carries) hp hown
    exact .of_late (by omega)
  cases hstep with
  | @on j point next job job' pools hj hs =>
      have herror : point.error = .executorShutdown :=
        h.points (.rejecting ⟨j, point⟩) (by simp) j job rfl hj
      have hr := h.refines j job hj
      refine h.carry rfl ?_ (fun q hq => ?_) (hlate rfl hj)
      · cases hs with
        | giveBack hg =>
            obtain ⟨-, rfl⟩ := giveBackPacket_spec hok.pools.packets hg
            exact hr.congr rfl rfl rfl rfl id
        | take => exact hr.congr rfl rfl rfl rfl id
        | _ => exact hr
      · obtain rfl := Multiset.mem_singleton.mp hq
        refine ⟨rfl, ?_⟩
        cases hs <;> exact herror
  | @done j point job job' pools hj hs =>
      have herror : point.error = .executorShutdown :=
        h.points (.rejecting ⟨j, point⟩) (by simp) j job rfl hj
      have hr := h.refines j job hj
      refine h.carry rfl ?_ (by simp) (hlate rfl hj)
      cases hs with
      | failPoisoned => exact hr
      | @fail error =>
          obtain rfl : error = .executorShutdown := herror
          refine ⟨hr.decoded, fun error hs => ?_, fun hs => by simp [JobRecord.finishFailed] at hs⟩
          obtain rfl : _ = error := by simpa [JobRecord.finishFailed] using hs
          exact .shutdown
  | gone => exact h.exchange rfl (by simp)

/-- What `collect` leaves in a record. -/
theorem failed_of_take {record taken : JobRecord T.Resolution} {self : ThreadId}
    {result : Option (BraidResult (List T.Resolution))}
    (hrec : record = job.record ∨ record = job.record.unpark self)
    (h : record.take = (taken, result)) (error : BraidError)
    (hs : taken.state = .failed (some error)) : job.record.state = .failed (some error) := by
  have hstate : record.state = job.record.state := by obtain rfl | rfl := hrec <;> rfl
  rw [JobRecord.take] at h
  split at h <;> simp only [Prod.mk.injEq] at h <;> obtain ⟨rfl, -⟩ := h
  · exact hstate ▸ hs
  · exact hstate ▸ hs
  · simp at hs
  · simp at hs
  · exact hstate ▸ hs

/-- **A step of the stack** keeps all jobs refined. -/
theorem Traced.step {self : ThreadId} {n : ℕ} (hfresh : I .fresh)
    (hpool : ∀ pkt ∈ m.pools.packets, I pkt.data) (h : Traced H I m ({.code code} + R))
    (hok : JobsOk m ({.code code} + R))
    (hstep : stackStep H self n m code = some (m', act)) : Traced H I m' (act.points + R) := by
  have hnone : ∀ {P : Soup (Code T) Task RejectCode},
      (∀ q ∈ P, StackPoint.owner q = none) → ∀ q ∈ P, ∀ j job,
        StackPoint.owner q = some j → m.job j = some job → StackPoint.Traces H I job q := by
    intro P hP q hq j job hown
    simp [hP q hq] at hown
  by_cases htask : ∃ j c, code = .task j c
  · obtain ⟨j, code, rfl⟩ := htask
    simp only [stackStep, Bind.bind, Option.bind_eq_some_iff, Option.pure_def, Option.some.injEq,
      Prod.mk.injEq] at hstep
    obtain ⟨job, hj, ⟨pools, job', act⟩, hs, rfl, rfl⟩ := hstep
    exact h.task hfresh hpool hok hj hs
  · cases stackStep_cases hstep with
    | task => exact (htask ⟨_, _, rfl⟩).elim
    | planner hp => exact h.exchange rfl (hnone hp.owner)
    | dispatch | dispatchRead | read | dispatchClone | clone | collectRemove | retire
    | shutdown | collectOn => exact h.exchange rfl (hnone (by simp [StackPoint.owner, Code.owner]))
    | leave hcode => exact h.exchange rfl (by simp)
    | @dispatchId queries since seen version =>
        refine h.carry rfl ?_ (by simp [StackPoint.owner, Code.owner, StackPoint.Traces])
          fun p hp hown => ?_
        · exact .of_live rfl (by simp)
        · exact (hok.owned p (by simp [hp]) _ hown (hok.fresh _ le_rfl)).elim
    | insertPoisoned hj hp => simp [hok.table] at hp
    | dispatchInsert =>
        refine h.exchange rfl fun q hq _ _ _ _ => ?_
        obtain rfl := Multiset.mem_singleton.mp hq
        exact trivial
    | dispatchSubmit =>
        refine h.exchange rfl fun q hq _ _ _ _ => ?_
        simp only [ClientAct.points, Multiset.insert_eq_cons, Multiset.mem_cons,
          Multiset.mem_singleton] at hq
        rcases hq with rfl | rfl <;> exact trivial
    | dispatchOk hj | dispatchErr hj => exact h.touch hj rfl ⟨rfl, id⟩ (fun _ => id) (by simp)
    | @collectTake j job record taken result hj hrec ht =>
        have hlike : Alike job.record taken := by
          have hlike := Alike.take ht
          rcases hrec with rfl | rfl
          · exact hlike
          · exact ⟨hlike.status, hlike.cancel⟩
        exact h.touch hj rfl hlike (failed_of_take hrec ht)
          (by simp [StackPoint.owner, Code.owner])
    | @collectPark j job record taken hj hrec ht =>
        have hlike := Alike.take ht
        have hlike' : Alike job.record (taken.park self) := by
          rcases hrec with rfl | rfl <;> exact ⟨hlike.status, hlike.cancel⟩
        exact h.touch hj rfl hlike' (fun error hs => failed_of_take hrec ht error hs)
          (by simp [StackPoint.owner, Code.owner])
    | @collectWoken j job record hj hrec =>
        have hlike : Alike job.record record := by
          rcases hrec with rfl | rfl <;> exact ⟨rfl, id⟩
        have hstate : record.state = job.record.state := by obtain rfl | rfl := hrec <;> rfl
        exact h.touch hj rfl hlike (fun error hs => hstate ▸ hs)
          (by simp [StackPoint.owner, Code.owner])
    | @cancel j job hj =>
        exact h.touch hj rfl ⟨rfl, fun _ => rfl⟩ (fun _ => id) (by simp)

/-- A call returns to a point that says no more than before. -/
theorem traces_resume {r : CallResult} (h : StackPoint.Traces H I job (.code code)) :
    StackPoint.Traces H I job (.code (resume code r)) := by
  rw [resume.eq_def]
  split
  case h_6 => exact h
  all_goals exact trivial

/-- It returns to a point of the same job. -/
theorem owner_resume {r : CallResult} : (resume code r).owner = code.owner := by
  rw [resume.eq_def]
  split <;> rfl

/-- **Every step of the soup** keeps all jobs refined. -/
theorem traced_step {v v' : SoupView (Mem T) (Code T) Task RejectCode} (hfresh : I .fresh)
    (hpool : ∀ pkt ∈ v.1.pools.packets, I pkt.data) (hok : JobsOk v.1 v.2)
    (h : Traced H I v.1 v.2) (hstep : SoupStep (stackContract H) v v') : Traced H I v'.1 v'.2 := by
  have hstart : ∀ (job : Job T) (task : Task), job.Prepared H I task.kind →
      (startOf task.kind).Traces H I job := by
    rintro job ⟨j, kind⟩ hp
    cases kind <;> exact hp
  cases hstep with
  | idle => exact h
  | @step m m' code act i n R hs =>
      rw [← Multiset.singleton_add] at h hok
      exact h.step hfresh hpool hok hs
  | @rejectOn m m' code next R hs =>
      rw [← Multiset.singleton_add] at h hok ⊢
      exact h.reject hok (rejectStep_cases hs)
  | @rejectDone m m' code R hs =>
      rw [← Multiset.singleton_add] at h hok
      rw [← zero_add R]
      exact h.reject hok (rejectStep_cases hs)
  | @run m t R =>
      rw [← Multiset.singleton_add] at h ⊢
      exact h.become rfl fun job hp => hstart job t hp
  | @runScheduled m t R =>
      rw [← Multiset.singleton_add] at h ⊢
      exact h.become rfl fun job hp => hstart job t hp
  | reject =>
      rw [← Multiset.singleton_add] at h ⊢
      exact h.become rfl fun job _ => rfl
  | @hookRun m hook R =>
      have hown := (singleton_add_points hok).hook
      rw [← Multiset.singleton_add] at h ⊢
      refine h.exchange rfl fun q hq j job hq' => ?_
      obtain rfl := Multiset.mem_singleton.mp hq
      simp [StackPoint.owner, hown] at hq'
  | @hookDrop m hook R =>
      rw [← Multiset.singleton_add] at h
      rw [← zero_add R]
      exact h.exchange rfl (by simp)
  | @refused m t code R hs =>
      have hcode : Traced H I m ({.code code} + R) := by
        rw [← Multiset.singleton_add] at h
        have hgone := h.exchange (Q := 0) rfl (by simp)
        rwa [zero_add, ← Multiset.singleton_add] at hgone
      rw [← Multiset.singleton_add]
      exact hcode.become owner_resume fun job => traces_resume
  | returned =>
      rw [← Multiset.singleton_add] at h ⊢
      exact h.become owner_resume fun job => traces_resume
  | @spawn m code R he =>
      rw [← zero_add R] at h
      rw [← Multiset.singleton_add]
      refine h.exchange rfl fun q hq j job _ _ => ?_
      obtain rfl := Multiset.mem_singleton.mp hq
      cases code <;> first | exact trivial | simp [stackClient, isEntry] at he

end Soup

/-! ### Over whole runs -/

/-- Every job has ended as an inline execution ends, if it has ended. -/
structure RefinesInline (H : Hooks T) (I : PacketData → Prop)
    (s : MachineState (Mem T) (Code T) Task RejectCode) : Prop where
  completed : ∀ j job, s.shared.client.job j = some job → statusOf job.record = .completed →
    ∃ values, job.decoded = some values ∧ Inlines H I job.seen job.queries (.ok values)
  /-- A late `collect` may be delivered an empty batch. -/
  delivered : ∀ j job, s.shared.client.job j = some job → ∀ values ∈ job.delivered,
    values ≠ [] → Inlines H I job.seen job.queries (.ok values)
  failed : ∀ j job error, s.shared.client.job j = some job →
    job.record.state = .failed (some error) → job.record.cancel = false →
      error = .executorShutdown ∨ Inlines H I job.seen job.queries (.err error) ∨
        error = taskPanicked ∧ Inlines H I job.seen job.queries .panicked
  cancelled : ∀ j job, s.shared.client.job j = some job → job.record.state = .cancelled →
    job.record.cancel = false → Inlines H I job.seen job.queries (.err .cancelled)

/-- A result that stands for the same state as an error is this error, or a panic. -/
theorem eq_of_stateOf {ρ : Type} {result : HookResult (List ρ)} {error : BraidError}
    (h : stateOf result = stateOf (.err error)) :
    result = .err error ∨ error = taskPanicked ∧ result = .panicked := by
  rcases result with values | error' | _
  · cases error <;> simp [stateOf] at h
  · cases error <;> cases error' <;> simp_all [stateOf]
  · cases error <;> simp_all [stateOf]

/-- Jobs that are in order and refined have ended as inline executions end. -/
theorem Traced.refinesInline {s : MachineState (Mem T) (Code T) Task RejectCode}
    (hok : JobsOk s.shared.client s.soup) (h : Traced H I s.shared.client s.soup) :
    RefinesInline H I s := by
  have hrefines : ∀ j job, s.shared.client.job j = some job → job.Refines H I := h.refines
  have hsound : ∀ j job, s.shared.client.job j = some job → job.Sound :=
    fun j job hj => (hok.job j job hj).sound
  refine ⟨fun j job hj hstatus => ?_, fun j job hj values hmem hne => ?_,
    fun j job error hj hs hcancel => ?_, fun j job hj hs hcancel => ?_⟩
  · rw [← (hsound j job hj).snapshot]
    have hdel := (hsound j job hj).delivers
    rw [statusOf] at hstatus
    rw [Job.Delivers] at hdel
    split at hdel
    · exact ⟨_, hdel.1, (hrefines j job hj).decoded _ hdel.1⟩
    · obtain ⟨values, n, hdec, -⟩ := hdel
      exact ⟨values, hdec, (hrefines j job hj).decoded _ hdec⟩
    · next hnone hsome =>
        split at hstatus <;> simp_all
        next values _ => cases values <;> simp_all
  · rw [← (hsound j job hj).snapshot]
    have hdel := (hsound j job hj).delivers
    rw [Job.Delivers] at hdel
    split at hdel
    · simp [hdel.2] at hmem
    · obtain ⟨kept, n, hdec, hdelivered⟩ := hdel
      rw [hdelivered] at hmem
      rcases List.mem_cons.mp hmem with rfl | hmem
      · exact (hrefines j job hj).decoded _ hdec
      · exact (hne (List.eq_of_mem_replicate hmem)).elim
    · simp [hdel] at hmem
  · rw [← (hsound j job hj).snapshot]
    refine ((hrefines j job hj).failed error hs hcancel).imp_right ?_
    rintro ⟨result, hinl, hstate⟩
    rcases eq_of_stateOf hstate with rfl | ⟨rfl, rfl⟩
    · exact .inl hinl
    · exact .inr ⟨rfl, hinl⟩
  · rw [← (hsound j job hj).snapshot]
    rcases (hrefines j job hj).cancelled hs hcancel with hshut | ⟨result, hinl, hstate⟩
    · simp at hshut
    · rcases eq_of_stateOf hstate with rfl | ⟨hpanic, -⟩
      · exact hinl
      · simp [taskPanicked] at hpanic

/-- **Jobs refine inline execution**, in every reachable state, for all hooks. -/
theorem jobs_refine_inline {s : MachineState (Mem T) (Code T) Task RejectCode}
    (h : Reached H s) : RefinesInline H (fun _ => True) s := by
  refine Traced.refinesInline (inOrder h).2 (h.invariant (I := fun v => Traced H _ v.1 v.2) ?_ ?_)
  · exact fun b state compiled prepared => ⟨by simp [Mem.create], by simp⟩
  · exact fun v v' _ hjobs ht hstep => traced_step trivial (fun _ _ => trivial) hjobs ht hstep

/-- The same on packets for which there is a rule, if the stack was created. -/
theorem ReachedFrom.refinesInline {first : T.State}
    (rule : PacketRule H (H.Stems first) I)
    {s : MachineState (Mem T) (Code T) Task RejectCode} (h : ReachedFrom H first s) :
    RefinesInline H I s := by
  refine Traced.refinesInline (inOrder h.reached).2 (h.invariant (I := fun v =>
    (Chained H first v.1 v.2 ∧ PacketsHold I v.1 v.2) ∧ Traced H I v.1 v.2) ?_ ?_).2
  · intro b compiled prepared hbuilds
    exact ⟨⟨chained_create hbuilds, packetsHold_create⟩, by simp [Mem.create], by simp⟩
  · rintro v v' hversions hjobs ⟨⟨hchain, hpackets⟩, ht⟩ hstep
    exact ⟨⟨chained_step hversions hchain hstep,
      packetsHold_step rule hchain.jobs hjobs hpackets hstep⟩,
      traced_step rule.fresh hpackets.pool hjobs ht hstep⟩

/-- The job of a batch that a worker takes to its end. -/
theorem jobs_refine_inline_counter :
    ((counterAfter counterJob).shared.client.job 1).map (·.decoded) = some (some [5]) ∧
      RefinesInline counterHooks (fun _ => True) (counterAfter counterJob) :=
  ⟨rfl, jobs_refine_inline (counterAfter_reached rfl)⟩

end Braids.Runtime
