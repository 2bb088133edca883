import Mathlib.Data.List.Nodup
import Braids.Runtime.Custody

/-!
# Jobs Are Isolated

A job runs on the version that `dispatch` saw and on one packet of its own, whatever other
calls do in the meantime. Its hook calls follow the script of that version, and what it
delivers is what the last of them returned. The one way out is a late `collect`: two of them
clone the record of a job, one takes the payload, and the other takes the default.

## Main results

* `JobRule.step`, `JobRule.later`: what holds between a job and the same job later.
* `job_isolated`: a job is isolated, in every run without a late take.
* `job_delivers_default`: with one, a job may deliver an empty batch.
-/

namespace Braids.Runtime

variable {T : Types} {H : Hooks T}

/-! ### Hook calls -/

/-- The step of a job that a hook call belongs to. -/
def Call.task : Call T → JobTask
  | .encodeBatch .. => .encode
  | .runStage _ i _ _ => .stage i
  | .decodeBatch .. => .decode

/-- The packet that a hook call is given. -/
def Call.packet : Call T → ℕ
  | .encodeBatch _ _ packet | .runStage _ _ _ packet | .decodeBatch _ packet => packet

/-- The steps of the calls of `run_stage`. -/
theorem map_task_stageCalls (prepared : T.Prepared) (packet index : ℕ)
    (stages : List StageSpec) :
    (stageCalls (T := T) prepared packet index stages).map Call.task =
      (List.range' index stages.length).map .stage := by
  induction stages generalizing index with
  | nil => rfl
  | cons stage stages ih =>
      rw [stageCalls, List.map_cons, ih, List.length_cons, List.range'_succ, List.map_cons]
      rfl

/-- The script follows the steps of the version. -/
theorem Version.map_task_script (version : Version T) (queries : List T.Query) (packet : ℕ) :
    (version.script queries packet).map Call.task = version.steps := by
  simp [script, steps, map_task_stageCalls, List.range_eq_range', Call.task]

/-- No step comes twice. -/
theorem Version.nodup_steps (version : Version T) : version.steps.Nodup := by
  have hstages : ((List.range version.stages.length).map JobTask.stage).Nodup :=
    List.nodup_range.map fun i j hij => by simpa using hij
  rw [steps, List.nodup_cons, List.nodup_append]
  refine ⟨by simp, hstages, by simp, ?_⟩
  rintro a ha b hb rfl
  obtain ⟨i, -, rfl⟩ := List.mem_map.mp ha
  simp at hb

/-- No hook call comes twice. -/
theorem Version.nodup_script (version : Version T) (queries : List T.Query) (packet : ℕ) :
    (version.script queries packet).Nodup :=
  .of_map Call.task (version.map_task_script queries packet ▸ version.nodup_steps)

/-- All hook calls are on one packet. -/
theorem Version.packet_of_mem_script {version : Version T} {queries : List T.Query}
    {packet : ℕ} {call : Call T} (h : call ∈ version.script queries packet) :
    call.packet = packet := by
  have hstages : ∀ index stages, call ∈ stageCalls version.prepared packet index stages →
      call.packet = packet := by
    intro index stages hmem
    induction stages generalizing index with
    | nil => simp [stageCalls] at hmem
    | cons stage stages ih =>
        rcases List.mem_cons.mp hmem with rfl | hmem
        · rfl
        · exact ih _ hmem
  simp only [script, List.mem_cons, List.mem_append, List.not_mem_nil, or_false] at h
  rcases h with rfl | hmem | rfl
  · rfl
  · exact hstages 0 _ hmem
  · rfl

/-- The script tells the packet. -/
theorem Version.script_inj {version : Version T} {queries : List T.Query} {packet packet' : ℕ}
    (h : version.script queries packet = version.script queries packet') : packet = packet' := by
  have hmem : Call.encodeBatch version.compiled queries packet ∈
      version.script queries packet' := by
    rw [← h]
    exact List.mem_cons_self
  exact Version.packet_of_mem_script hmem

/-- The step of the job whose hook runs at the program point. -/
def JobCode.hook? : JobCode T → Option JobTask
  | .encodeHook _ => some .encode
  | .stageHook i _ _ => some (.stage i)
  | .decodeHook _ => some .decode
  | _ => none

/-- The same for the points of the soup. -/
def StackPoint.hook? : StackPoint T → Option JobTask
  | .code (.task _ code) => code.hook?
  | _ => none

/-- One if a hook of a job runs at the point. -/
def StackPoint.hooks (p : StackPoint T) : ℕ := if (StackPoint.hook? p).isSome then 1 else 0

section Hooks

variable {rej : List JobId} {P : Soup (Code T) Task RejectCode} {j : JobId} {job : Job T}
  {ended : Prop}

/-- A point at which a hook runs is responsible for its job. -/
theorem StackPoint.hooks_le_carries (p : StackPoint T) :
    StackPoint.hooks p ≤ StackPoint.carries p := by
  cases p with
  | code code =>
      cases code with
      | task j code => cases code <;> simp [hooks, hook?, JobCode.hook?, carries, Code.carries,
          JobCode.carries]
      | _ => simp [hooks, hook?]
  | _ => simp [hooks, hook?]

/-- A smaller share of every point is a smaller share. -/
theorem share_mono {w w' : StackPoint T → ℕ} (h : ∀ p, w p ≤ w' p) :
    share w j P ≤ share w' j P := by
  induction P using Multiset.induction_on with
  | empty => exact le_rfl
  | cons p P ih =>
      rw [share_cons, share_cons]
      have hp := h p
      split <;> omega

/-- A job runs one hook at a time. -/
theorem JobOk.one_hook (h : JobOk rej P j job) : share StackPoint.hooks j P ≤ 1 := by
  have hsum := h.carried
  have hle : share StackPoint.hooks j P ≤ share StackPoint.carries j P :=
    share_mono StackPoint.hooks_le_carries
  omega

/-- The hook that runs is the one that was called last, on the packet that its task holds. -/
theorem StackPoint.Fits.running {p : StackPoint T} {task : JobTask}
    (h : StackPoint.Fits ended job p) (hp : StackPoint.hook? p = some task) :
    ∃ before call, job.calls = before ++ [call] ∧ call.task = task ∧
      job.holding = some call.packet := by
  unfold StackPoint.hook? at hp
  split at hp
  · next j code =>
      have hf : code.Fits ended job := h
      cases code with
      | encodeHook pkt =>
          obtain rfl := Option.some.inj hp
          have hat : job.At _ _ _ _ := hf
          refine ⟨[], .encodeBatch job.version.compiled job.queries pkt.serial, ?_, rfl,
            hat.has.2.2.2.1⟩
          rw [hat.calls_eq, Job.script, Version.take_script_encode, List.nil_append]
      | stageHook i spec pkt =>
          obtain rfl := Option.some.inj hp
          obtain ⟨hspec, hat⟩ := hf
          refine ⟨(job.script pkt.serial).take (i + 1),
            .runStage job.version.prepared i spec pkt.serial, ?_, rfl, hat.has.2.2.2.1⟩
          rw [hat.calls_eq, Job.script, Version.take_script_stage _ _ _ hspec]
      | decodeHook pkt =>
          obtain rfl := Option.some.inj hp
          obtain ⟨-, hat⟩ := hf
          refine ⟨(job.script pkt.serial).take (job.version.stages.length + 1),
            .decodeBatch job.version.compiled pkt.serial, ?_, rfl, hat.has.2.2.2.1⟩
          rw [hat.calls_eq, Job.script, Version.script_eq]
          simp
      | _ => simp [JobCode.hook?] at hp
  · simp at hp

end Hooks

/-! ### What jobs do later -/

/-- What a relation between a job before and after a step has to allow. -/
structure JobRule (H : Hooks T) (Q : Job T → Job T → Prop) : Prop where
  /-- What `dispatch`, `collect` and `cancel` write. -/
  touch : ∀ (job : Job T) record delivered dispatched,
    Q job { job with record, delivered, dispatched }
  task : ∀ {b pools pools'} {job job' : Job T} {code act} {ended : Prop},
    JobStep H b pools job code pools' job' act → pools.Clean → job.Sound →
      code.Fits ended job → (ended → job.Rejected) → Q job job'
  reject : ∀ {pools pools'} {job job' : Job T} {point next},
    RejectStep pools job point pools' job' next → pools.Clean → point.Fits job → Q job job'

section Rule

variable {Q : Job T → Job T → Prop} {m m' : Mem T}

/-- A job after a write to one of them. -/
theorem JobRule.setJob (hrule : JobRule H Q) {j i : JobId} {job job' old : Job T}
    (hj : m.job j = some job) (h : Q job job') (hi : m.job i = some old) :
    ∃ new, (m.setJob j job').job i = some new ∧ Q old new := by
  rw [Mem.setJob_job]
  by_cases hij : i = j
  · subst hij
    obtain rfl := Option.some.inj (hi.symm.trans hj)
    exact ⟨job', if_pos rfl, h⟩
  · exact ⟨old, by rw [if_neg hij, hi], hrule.touch old old.record old.delivered old.dispatched⟩

/-- A step of the stack relates every job to itself. -/
theorem JobRule.stack (hrule : JobRule H Q) {self : ThreadId} {code : Code T}
    {act : ClientAct (Code T) Task} {R : Soup (Code T) Task RejectCode}
    (hok : JobsOk m ({.code code} + R)) (h : StackStep H self m code m' act) {i : JobId}
    {old : Job T} (hi : m.job i = some old) : ∃ new, m'.job i = some new ∧ Q old new := by
  have hsame := hrule.touch old old.record old.delivered old.dispatched
  cases h with
  | dispatchId =>
      have hne : i ≠ m.nextJobId := by
        rintro rfl
        simp [hok.fresh _ le_rfl] at hi
      refine ⟨old, ?_, hsame⟩
      change (m.setJob _ _).job i = some old
      rw [Mem.setJob_job, if_neg hne, hi]
  | @task j code job job' pools act hj hs =>
      have hjob := hok.job j job hj
      have hf := hjob.fits (.code (.task j code)) (by simp) rfl
      exact hrule.setJob hj (hrule.task hs hok.pools hjob.sound hf hjob.rejected) hi
  | insertPoisoned hj | dispatchOk hj | dispatchErr hj | collectTake hj | collectPark hj
  | collectWoken hj | cancel hj => exact hrule.setJob hj (hrule.touch _ _ _ _) hi
  | _ => exact ⟨old, hi, hsame⟩

/-- So does a step of a reject side. -/
theorem JobRule.rejects (hrule : JobRule H Q) {code : RejectCode} {next : Option RejectCode}
    {R : Soup (Code T) Task RejectCode} (hok : JobsOk m ({.rejecting code} + R))
    (h : StackReject m code m' next) {i : JobId} {old : Job T} (hi : m.job i = some old) :
    ∃ new, m'.job i = some new ∧ Q old new := by
  cases h with
  | @on j point next job job' pools hj hs | @done j point job job' pools hj hs =>
      have hf : point.Fits job := (hok.job j job hj).fits (.rejecting ⟨j, point⟩) (by simp) rfl
      exact hrule.setJob hj (hrule.reject hs hok.pools hf) hi
  | gone => exact ⟨old, hi, hrule.touch old old.record old.delivered old.dispatched⟩

/-- **The rule for jobs.** What the tasks and the reject sides of a job allow relates every
job before a step of the soup to the same job after it. -/
theorem JobRule.step (hrule : JobRule H Q) {v v' : SoupView (Mem T) (Code T) Task RejectCode}
    (h : JobsOk v.1 v.2) (hstep : SoupStep (stackContract H) v v') {i : JobId} {old : Job T}
    (hi : v.1.job i = some old) : ∃ new, v'.1.job i = some new ∧ Q old new := by
  cases hstep with
  | step hs => exact hrule.stack (singleton_add_points h) (stackStep_cases hs) hi
  | rejectOn hs | rejectDone hs =>
      exact hrule.rejects (singleton_add_points h) (rejectStep_cases hs) hi
  | _ => exact ⟨old, hi, hrule.touch old old.record old.delivered old.dispatched⟩

end Rule

section Later

variable {s s' : MachineState (Mem T) (Code T) Task RejectCode} {Q : Job T → Job T → Prop}

/-- The rule for jobs over a run. -/
theorem JobRule.later (hrule : JobRule H Q) (htrans : ∀ {x y z}, Q x y → Q y z → Q x z)
    (h : Reached H s) (h' : Later H s s') {j : JobId} {job : Job T}
    (hj : s.shared.client.job j = some job) :
    ∃ job', s'.shared.client.job j = some job' ∧ Q job job' := by
  refine h.grows (R := fun v v' => ∀ job, v.1.job j = some job →
    ∃ job', v'.1.job j = some job' ∧ Q job job') ?_ ?_ ?_ h' job hj
  · exact fun v job hj => ⟨job, hj, hrule.touch job job.record job.delivered job.dispatched⟩
  · intro u v w huv hvw job hj
    obtain ⟨job', hj', hq⟩ := huv job hj
    obtain ⟨job'', hj'', hq'⟩ := hvw job' hj'
    exact ⟨job'', hj'', htrans hq hq'⟩
  · exact fun v v' _ hjobs hstep job hj => hrule.step hjobs hstep hj

/-- What does not change about a job, and what only grows. -/
structure Job.Continues (job job' : Job T) : Prop where
  based : job.Based job'
  calls : job.calls <+: job'.calls
  /-- A job that has given its packet away after its first hook calls no hook any more. -/
  retired : job.calls ≠ [] → job.holding = none →
    job'.calls = job.calls ∧ job'.holding = none

/-- Going on and on is going on. -/
theorem Job.Continues.trans {job job' job'' : Job T} (h : job.Continues job')
    (h' : job'.Continues job'') : job.Continues job'' where
  based := ⟨h'.based.version.trans h.based.version, h'.based.queries.trans h.based.queries,
    h'.based.seen.trans h.based.seen, h'.based.since.trans h.based.since⟩
  calls := h.calls.trans h'.calls
  retired hcalls hheld := by
    obtain ⟨hsame, hnone⟩ := h.retired hcalls hheld
    obtain ⟨hsame', hnone'⟩ := h'.retired (hsame ▸ hcalls) hnone
    exact ⟨hsame'.trans hsame, hnone'⟩

/-- A task adds to the hook calls of its job. -/
theorem JobStep.calls {b : BackendId} {pools pools' : Pools} {job job' : Job T}
    {code : JobCode T} {act : ClientAct (JobCode T) JobTask}
    (h : JobStep H b pools job code pools' job' act) : job.calls <+: job'.calls := by
  cases h with
  | scratch | stageLock | take => exact List.prefix_append _ _
  | recycle h | giveBackOk _ h | giveBackPoisoned _ h | giveBackErr h | cleanup h =>
      rw [giveBackPacket] at h
      split at h <;> simp only [Prod.mk.injEq] at h <;> obtain ⟨-, rfl⟩ := h <;>
        exact List.prefix_rfl
  | finish =>
      unfold Job.finishWith
      split <;> exact List.prefix_rfl
  | _ => exact List.prefix_rfl

/-- Every step lets every job go on. -/
theorem jobRule_continues : JobRule H Job.Continues where
  touch _ _ _ _ := ⟨⟨rfl, rfl, rfl, rfl⟩, List.prefix_rfl, fun _ hheld => ⟨rfl, hheld⟩⟩
  task h hc hs hf _ := ⟨h.based, h.calls, h.retired hc hs hf⟩
  reject h hc _ := by
    refine ⟨h.based, ?_, fun _ => h.retired hc⟩
    cases h with
    | giveBack h =>
        obtain ⟨-, rfl⟩ := giveBackPacket_spec hc.packets h
        exact List.prefix_rfl
    | _ => exact List.prefix_rfl

/-- What was decoded is what the last hook call returned, on the packet of all of them. -/
def Job.Decodes (H : Hooks T) (job : Job T) : Prop :=
  ∀ values, job.decoded = some values → ∃ n, ∃ pkt : Packet,
    job.calls = job.script pkt.serial ∧ H.decodeBatch n job.version.compiled pkt.data = .ok values

/-- A job that has not called all hooks has decoded nothing. -/
theorem Job.Decodes.decoded_eq_none {job : Job T} (h : job.Decodes H)
    (hlen : job.calls.length < job.version.stages.length + 2) : job.decoded = none := by
  by_contra hne
  obtain ⟨values, hvalues⟩ := Option.ne_none_iff_exists'.mp hne
  obtain ⟨n, pkt, hcalls, -⟩ := h values hvalues
  rw [hcalls, Job.script, Version.length_script] at hlen
  exact hlen.false

/-- A job that has decoded nothing. -/
theorem Job.decodes_of_none {job : Job T} (h : job.decoded = none) : job.Decodes H := by
  intro values hvalues
  rw [h] at hvalues
  cases hvalues

/-- Every step keeps what was decoded. -/
theorem jobRule_decodes : JobRule H fun job job' => job.Decodes H → job'.Decodes H where
  touch _ _ _ _ := id
  task h hc hs hf _ hdec := by
    cases h with
    | @decoded pkt values n h =>
        rintro _ ⟨⟩
        obtain ⟨-, hat⟩ := hf
        exact ⟨n, pkt, hat.calls_eq, h⟩
    | scratch =>
        have hat : Job.At _ _ _ _ _ := hf
        refine Job.decodes_of_none (hdec.decoded_eq_none ?_)
        simp [hat.calls_eq]
    | stageLock =>
        obtain ⟨hi, pkt, hat⟩ := hf
        refine Job.decodes_of_none (hdec.decoded_eq_none ?_)
        rw [hat.calls_eq]
        exact (List.length_take_le _ _).trans_lt (by omega)
    | take =>
        obtain ⟨⟨pkt, hat⟩, -⟩ := hf
        refine Job.decodes_of_none (hdec.decoded_eq_none ?_)
        rw [hat.calls_eq]
        exact (List.length_take_le _ _).trans_lt (by omega)
    | recycle h | giveBackOk _ h | giveBackPoisoned _ h | giveBackErr h | cleanup h =>
        obtain ⟨-, rfl⟩ := giveBackPacket_spec hc.packets h
        exact hdec
    | finish =>
        unfold Job.finishWith
        rw [if_neg (by simp [hs.unpoisoned])]
        exact hdec
    | _ => exact hdec
  reject h hc _ hdec := by
    cases h with
    | giveBack h =>
        obtain ⟨-, rfl⟩ := giveBackPacket_spec hc.packets h
        exact hdec
    | _ => exact hdec

/-- What a job has decoded is what `decode_batch` returned for it. -/
theorem Reached.decodes (h : Reached H s) {j : JobId} {job : Job T}
    (hj : s.shared.client.job j = some job) : job.Decodes H := by
  refine h.invariant (I := fun v => ∀ j job, v.1.job j = some job → job.Decodes H) ?_ ?_ j job hj
  · simp [Mem.create]
  · intro v v' _ hjobs hdec hstep j job' hj'
    cases hold : v.1.job j with
    | none =>
        obtain ⟨_, _, _, _, rfl⟩ := fresh_step hstep hold hj'
        simp [Job.Decodes]
    | some job =>
        obtain ⟨new, hnew, hq⟩ := jobRule_decodes.step hjobs hstep hold
        obtain rfl := Option.some.inj (hj'.symm.trans hnew)
        exact hq (hdec j job hold)

/-- A task decodes only with `decode_batch`. -/
theorem JobStep.decoded_eq {b : BackendId} {pools pools' : Pools} {job job' : Job T}
    {code : JobCode T} {act : ClientAct (JobCode T) JobTask}
    (h : JobStep H b pools job code pools' job' act) :
    job'.decoded = job.decoded ∨ ∃ n values, ∃ pkt : Packet, code = .decodeHook pkt ∧
      H.decodeBatch n job.version.compiled pkt.data = .ok values ∧
      job'.decoded = some values := by
  cases h with
  | @decoded pkt values n h => exact .inr ⟨n, values, pkt, rfl, h, rfl⟩
  | recycle h | giveBackOk _ h | giveBackPoisoned _ h | giveBackErr h | cleanup h =>
      rw [giveBackPacket] at h
      split at h <;> simp only [Prod.mk.injEq] at h <;> obtain ⟨-, rfl⟩ := h <;> exact .inl rfl
  | finish =>
      unfold Job.finishWith
      split <;> exact .inl rfl
  | _ => exact .inl rfl

/-- A reject side decodes nothing. -/
theorem RejectStep.decoded_eq {pools pools' : Pools} {job job' : Job T} {point : RejectPoint}
    {next : Option RejectPoint} (h : RejectStep pools job point pools' job' next) :
    job'.decoded = job.decoded := by
  cases h with
  | giveBack h =>
      rw [giveBackPacket] at h
      split at h <;> simp only [Prod.mk.injEq] at h <;> obtain ⟨-, rfl⟩ := h <;> rfl
  | _ => rfl

/-- A write to a job that decodes nothing. -/
theorem Mem.setJob_decoded {m : Mem T} {i j : JobId} {job job' old new : Job T}
    (hj : m.job j = some job) (hj' : (m.setJob i new).job j = some job')
    (hi : m.job i = some old) (hsame : new.decoded = old.decoded) :
    job'.decoded = job.decoded := by
  rw [Mem.setJob_job] at hj'
  split at hj'
  · next hij =>
      subst hij
      obtain rfl := Option.some.inj hj'
      obtain rfl := Option.some.inj (hi.symm.trans hj)
      exact hsame
  · obtain rfl := Option.some.inj (hj'.symm.trans hj)
    rfl

/-- **A job decodes** with its last hook call, on the data of the packet that its task holds. -/
theorem decoded_step {v v' : SoupView (Mem T) (Code T) Task RejectCode} (h : JobsOk v.1 v.2)
    (hstep : SoupStep (stackContract H) v v') {j : JobId} {job job' : Job T}
    (hj : v.1.job j = some job) (hj' : v'.1.job j = some job') (hne : job'.decoded ≠ job.decoded) :
    ∃ n values, ∃ pkt : Packet, .code (.task j (.decodeHook pkt)) ∈ v.2 ∧
      job.calls = job.script pkt.serial ∧
      H.decodeBatch n job.version.compiled pkt.data = .ok values ∧ job'.decoded = some values := by
  have hstays : v'.1.job j = v.1.job j → False := fun hsame => by
    obtain rfl := Option.some.inj (hj'.symm.trans (hsame.trans hj))
    exact hne rfl
  cases hstep with
  | @step m m' code act i k R hs =>
      cases stackStep_cases hs with
      | dispatchId =>
          change (m.setJob _ _).job j = some job' at hj'
          rw [Mem.setJob_job, if_neg] at hj'
          · obtain rfl := Option.some.inj (hj'.symm.trans hj)
            exact (hne rfl).elim
          · rintro rfl
            have hfresh := h.fresh _ le_rfl
            rw [hj] at hfresh
            cases hfresh
      | @task i code old new pools act hi hjob =>
          rcases hjob.decoded_eq with hsame | ⟨n, values, pkt, rfl, hdata, hdec⟩
          · exact (hne (Mem.setJob_decoded hj hj' hi hsame)).elim
          · change (m.setJob _ _).job j = some job' at hj'
            rw [Mem.setJob_job] at hj'
            split at hj'
            · next hij =>
                subst hij
                obtain rfl := Option.some.inj hj'
                obtain rfl := Option.some.inj (hi.symm.trans hj)
                have hmem : .code (.task j (.decodeHook pkt)) ∈
                    .code (.task j (.decodeHook pkt)) ::ₘ R := Multiset.mem_cons_self _ _
                obtain ⟨-, hat⟩ := (h.job j old hj).fits _ hmem rfl
                exact ⟨n, values, pkt, hmem, hat.calls_eq, hdata, hdec⟩
            · obtain rfl := Option.some.inj (hj'.symm.trans hj)
              exact (hne rfl).elim
      | insertPoisoned hi | dispatchOk hi | dispatchErr hi | collectTake hi | collectPark hi
      | collectWoken hi | cancel hi => exact (hne (Mem.setJob_decoded hj hj' hi rfl)).elim
      | _ => exact (hstays rfl).elim
  | rejectOn hs =>
      cases rejectStep_cases hs with
      | on hi hjob => exact (hne (Mem.setJob_decoded hj hj' hi hjob.decoded_eq)).elim
  | rejectDone hs =>
      cases rejectStep_cases hs with
      | done hi hjob => exact (hne (Mem.setJob_decoded hj hj' hi hjob.decoded_eq)).elim
      | gone => exact (hstays rfl).elim
  | _ => exact (hstays rfl).elim

end Later

/-! ### What collect delivers -/

/-- A call of `collect` is about to take the payload of the job from its record, which was taken
before. -/
def lateTake (j : JobId) (s : MachineState (Mem T) (Code T) Task RejectCode) :
    Action (Code T) → Bool
  | .step i _ =>
      match s.threads[i]? with
      | some (.client (.collect k .take) :: _) =>
          match s.shared.client.job k with
          | some job =>
              match job.record.state with
              | .completed none => k == j
              | _ => false
          | none => false
      | _ => false
  | _ => false

/-- A state that a run without a late take of the job reaches. -/
abbrev ReachedInTime (H : Hooks T) (j : JobId)
    (s : MachineState (Mem T) (Code T) Task RejectCode) : Prop :=
  ∃ m, m.Created ∧
    Lts.ReachBy (Started m) (machineStep (stackClient H)) (fun s a => lateTake j s a = false) s

section Deliveries

variable {s s' : MachineState (Mem T) (Code T) Task RejectCode} {m m' : Mem T} {j : JobId}

/-- Such a state is reached. -/
theorem ReachedInTime.reached (h : ReachedInTime H j s) : Reached H s := by
  obtain ⟨m, hm, hr⟩ := h
  exact ⟨m, hm, hr.reach⟩

/-- A task delivers nothing. -/
theorem JobStep.delivered {b : BackendId} {pools pools' : Pools} {job job' : Job T}
    {code : JobCode T} {act : ClientAct (JobCode T) JobTask}
    (h : JobStep H b pools job code pools' job' act) : job'.delivered = job.delivered := by
  cases h with
  | recycle h | giveBackOk _ h | giveBackPoisoned _ h | giveBackErr h | cleanup h =>
      rw [giveBackPacket] at h
      split at h <;> simp only [Prod.mk.injEq] at h <;> obtain ⟨-, rfl⟩ := h <;> rfl
  | finish =>
      unfold Job.finishWith
      split <;> rfl
  | _ => rfl

/-- A reject side delivers nothing. -/
theorem RejectStep.delivered {pools pools' : Pools} {job job' : Job T} {point : RejectPoint}
    {next : Option RejectPoint} (h : RejectStep pools job point pools' job' next) :
    job'.delivered = job.delivered := by
  cases h with
  | giveBack h =>
      rw [giveBackPacket] at h
      split at h <;> simp only [Prod.mk.injEq] at h <;> obtain ⟨-, rfl⟩ := h <;> rfl
  | _ => rfl

/-- The job has not been delivered twice. -/
def DeliveredOnce (m : Mem T) (j : JobId) : Prop :=
  ∀ job, m.job j = some job → job.delivered.length ≤ 1

/-- A write that delivers nothing. -/
theorem DeliveredOnce.setJob (h : DeliveredOnce m j) {i : JobId} {job job' : Job T}
    (hi : m.job i = some job) (hdel : job'.delivered = job.delivered) :
    DeliveredOnce (m.setJob i job') j := by
  intro other hj
  rw [Mem.setJob_job] at hj
  split at hj
  · next hji =>
      obtain rfl := Option.some.inj hj
      rw [hdel]
      exact h job (hji ▸ hi)
  · exact h other hj

/-- A step of the stack that is no late take of the job does not deliver it twice. -/
theorem StackStep.deliveredOnce {self : ThreadId} {code : Code T}
    {act : ClientAct (Code T) Task} (hs : ∀ i job, m.job i = some job → job.Sound)
    (h : DeliveredOnce m j) (hstep : StackStep H self m code m' act)
    (hlate : ∀ job, code = .collect j .take → m.job j = some job →
      job.record.state ≠ .completed none) : DeliveredOnce m' j := by
  cases hstep with
  | dispatchId =>
      intro other hj
      change (m.setJob _ _).job j = some other at hj
      rw [Mem.setJob_job] at hj
      split at hj
      · obtain rfl := Option.some.inj hj
        simp
      · exact h other hj
  | task hi hstep => exact h.setJob hi hstep.delivered
  | insertPoisoned hi | dispatchOk hi | dispatchErr hi | collectPark hi | collectWoken hi
  | cancel hi => exact h.setJob hi rfl
  | @collectTake i job record taken result hi hrec ht =>
      have hstate : record.state = job.record.state := by obtain rfl | rfl := hrec <;> rfl
      have hdel := (hs i job hi).delivers
      rw [Job.Delivers] at hdel
      rw [JobRecord.take] at ht
      split at ht <;> simp only [Prod.mk.injEq, reduceCtorEq, and_false, Option.some.injEq] at ht
      · next values hrecord =>
          rw [hstate] at hrecord
          obtain ⟨-, rfl⟩ := ht
          intro other hj
          rw [Mem.setJob_job] at hj
          split at hj
          · next hji =>
              subst hji
              obtain rfl := Option.some.inj hj
              cases values with
              | none => exact (hlate job rfl hi hrecord).elim
              | some values =>
                  rw [hrecord] at hdel
                  simp [deliver, hdel.2]
          · exact h other hj
      all_goals
        obtain ⟨-, rfl⟩ := ht
        exact h.setJob hi rfl
  | _ => exact h

/-- A step of a reject side delivers nothing. -/
theorem StackReject.deliveredOnce {code : RejectCode} {next : Option RejectCode}
    (h : DeliveredOnce m j) (hstep : StackReject m code m' next) : DeliveredOnce m' j := by
  cases hstep with
  | on hi hs | done hi hs => exact h.setJob hi hs.delivered
  | gone => exact h

/-- **The job is not delivered twice** in a run without a late take of it. -/
theorem deliveredOnce (h : ReachedInTime H j s) : DeliveredOnce s.shared.client j := by
  obtain ⟨m, ⟨b, state, compiled, prepared, rfl⟩, hr⟩ := h
  refine hr.invariant (I := fun s => DeliveredOnce s.shared.client j) ?_ ?_
  · rintro s ⟨n, rfl⟩
    simp [DeliveredOnce, MachineState.start, Mem.create]
  · intro s a s' hr hone hlate hstep
    have hjobs := (inOrder ⟨_, ⟨b, state, compiled, prepared, rfl⟩, hr.reach⟩).2
    cases machineStep_cases hstep with
    | @frame i c f rest fs sh hi hf =>
        cases hf with
        | @client code mem act n hs =>
            refine (stackStep_cases hs).deliveredOnce (fun i job hi => (hjobs.job i job hi).sound)
              hone ?_
            rintro job rfl hj hstate
            simp [lateTake, hi, hj, hstate] at hlate
        | rejectOn hs | rejectDone hs => exact (rejectStep_cases hs).deliveredOnce hone
        | _ => simpa using hone
    | _ => exact hone

end Deliveries

/-! ### Isolation -/

/-- A job is isolated from everything that happens while it is under way. -/
structure JobIsolated (H : Hooks T) (s : MachineState (Mem T) (Code T) Task RejectCode)
    (j : JobId) (job : Job T) : Prop where
  /-- Its hook calls follow the version that was current when `dispatch` took the read lock,
  on one packet. -/
  script : ∃ n, job.calls <+: job.seen.script job.queries n
  /-- Each of them happens at most once. -/
  once : job.calls.Nodup
  /-- At most one of them is under way. -/
  alone : share StackPoint.hooks j s.soup ≤ 1
  /-- It is the last one, and nobody else holds its packet. -/
  running : ∀ p ∈ s.soup, StackPoint.owner p = some j → ∀ task, StackPoint.hook? p = some task →
    ∃ before call, job.calls = before ++ [call] ∧ call.task = task ∧
      Exclusive s.shared.client s.soup j call.packet
  /-- What comes later goes on from here, and until the next hook call nobody else holds the
  packet. -/
  between : ∀ s', Later H s s' → ∃ job', s'.shared.client.job j = some job' ∧
    job.seen = job'.seen ∧ job.queries = job'.queries ∧ job.calls <+: job'.calls ∧
      (job'.calls ≠ job.calls → ∀ call ∈ job.calls,
        Exclusive s.shared.client s.soup j call.packet)
  /-- What it decodes is what the last one returns, on the data of the packet in its task. -/
  decodes : ∀ a s', machineStep (stackClient H) s a = some s' →
    ∀ job', s'.shared.client.job j = some job' → job'.decoded ≠ job.decoded →
      ∃ n values, ∃ pkt : Packet, .code (.task j (.decodeHook pkt)) ∈ s.soup ∧
        job.calls = job.seen.script job.queries pkt.serial ∧
        H.decodeBatch n job.seen.compiled pkt.data = .ok values ∧ job'.decoded = some values
  /-- A job that completes has called all of them on the one packet that it checked out, and
  delivers what the last one returned. -/
  completed : statusOf job.record = .completed → ∃ values n, ∃ pkt : Packet,
    job.calls = job.seen.script job.queries pkt.serial ∧ job.checkedOut = [pkt.serial] ∧
      job.decoded = some values ∧ H.decodeBatch n job.seen.compiled pkt.data = .ok values ∧
      (∀ kept, job.record.state = .completed (some kept) → kept = values) ∧
      ∀ delivered ∈ job.delivered, delivered = values

section Isolated

variable {s : MachineState (Mem T) (Code T) Task RejectCode} {j : JobId} {job : Job T}

/-- The hook calls of a job follow the version that it saw. -/
theorem Reached.script (h : Reached H s) (hj : s.shared.client.job j = some job) :
    ∃ n, job.calls <+: job.seen.script job.queries n := by
  have hsound := ((inOrder h).2.job j job hj).sound
  obtain ⟨n, hcalls, -⟩ := hsound.orderly
  exact ⟨n, by rwa [Job.script, hsound.snapshot] at hcalls⟩

/-- A job that still holds a packet after its first hook call holds the packet of its hook
calls, alone. -/
theorem Reached.isolated (h : Reached H s) (hj : s.shared.client.job j = some job)
    (hheld : job.holding ≠ none) {call : Call T} (hcall : call ∈ job.calls) :
    Exclusive s.shared.client s.soup j call.packet := by
  obtain ⟨-, hjobs⟩ := inOrder h
  have hok := hjobs.job j job hj
  obtain ⟨n, hn⟩ := Option.ne_none_iff_exists'.mp hheld
  obtain ⟨custody, hhas⟩ := hok.has
  obtain ⟨k, hcalls, hnil | hout⟩ := hok.sound.orderly
  · simp [hnil] at hcall
  · have hpacket : call.packet = k := Version.packet_of_mem_script (hcalls.subset hcall)
    have hk : [n] = [k] := (hhas.checkedOut hn).symm.trans hout
    obtain rfl : n = k := by simpa using hk
    rw [hpacket]
    exact (packetsOk h).isolated hjobs hj hn

/-- The hook that runs has its packet to itself. -/
theorem Reached.running (h : Reached H s) (hj : s.shared.client.job j = some job)
    {p : StackPoint T} (hp : p ∈ s.soup) (hown : StackPoint.owner p = some j) {task : JobTask}
    (htask : StackPoint.hook? p = some task) :
    ∃ before call, job.calls = before ++ [call] ∧ call.task = task ∧
      Exclusive s.shared.client s.soup j call.packet := by
  have hfits := ((inOrder h).2.job j job hj).fits p hp hown
  obtain ⟨before, call, hcalls, hsame, hheld⟩ := hfits.running htask
  exact ⟨before, call, hcalls, hsame, h.isolated hj (by simp [hheld]) (by simp [hcalls])⟩

/-- Between two hook calls a job has its packet to itself. -/
theorem Reached.between (h : Reached H s) (hj : s.shared.client.job j = some job)
    {s' : MachineState (Mem T) (Code T) Task RejectCode} (h' : Later H s s') :
    ∃ job', s'.shared.client.job j = some job' ∧ job.seen = job'.seen ∧
      job.queries = job'.queries ∧ job.calls <+: job'.calls ∧
      (job'.calls ≠ job.calls → ∀ call ∈ job.calls,
        Exclusive s.shared.client s.soup j call.packet) := by
  obtain ⟨job', hj', hgoes⟩ := jobRule_continues.later .trans h h' hj
  refine ⟨job', hj', hgoes.based.seen.symm, hgoes.based.queries.symm, hgoes.calls, ?_⟩
  intro hmore call hcall
  refine h.isolated hj (fun hheld => hmore ?_) hcall
  exact (hgoes.retired (List.ne_nil_of_mem hcall) hheld).1

/-- **A job is isolated** in every run without a late take of it. -/
theorem job_isolated (h : ReachedInTime H j s) (hj : s.shared.client.job j = some job) :
    JobIsolated H s j job where
  script := h.reached.script hj
  once := by
    obtain ⟨n, hcalls⟩ := h.reached.script hj
    exact (Version.nodup_script _ _ n).sublist hcalls.sublist
  alone := ((inOrder h.reached).2.job j job hj).one_hook
  running p hp hown task htask := h.reached.running hj hp hown htask
  between s' h' := h.reached.between hj h'
  decodes a s' hstep job' hj' hne := by
    obtain ⟨-, hjobs⟩ := inOrder h.reached
    obtain ⟨n, values, pkt, hmem, hcalls, hdata, hdec⟩ :=
      decoded_step hjobs (h.reached.soup_step hstep) hj hj' hne
    rw [Job.script, (hjobs.job j job hj).sound.snapshot] at hcalls
    rw [(hjobs.job j job hj).sound.snapshot] at hdata
    exact ⟨n, values, pkt, hmem, hcalls, hdata, hdec⟩
  completed hstatus := by
    obtain ⟨-, -, -, serial, hout, hscript⟩ := h.reached.completed hj hstatus
    have hsound := ((inOrder h.reached).2.job j job hj).sound
    have hdecodes : ∀ values, job.decoded = some values → ∃ n, ∃ pkt : Packet,
        job.calls = job.seen.script job.queries pkt.serial ∧ job.checkedOut = [pkt.serial] ∧
          H.decodeBatch n job.seen.compiled pkt.data = .ok values := by
      intro values hvalues
      obtain ⟨n, pkt, hcalls, hdata⟩ := h.reached.decodes hj values hvalues
      have hserial : serial = pkt.serial :=
        Version.script_inj (hscript.symm.trans hcalls)
      rw [Job.script, hsound.snapshot] at hcalls
      exact ⟨n, pkt, hcalls, hserial ▸ hout, hsound.snapshot ▸ hdata⟩
    have hdel := hsound.delivers
    rw [Job.Delivers] at hdel
    rw [statusOf] at hstatus
    split at hdel
    · next kept hstate =>
        obtain ⟨hdec, hnone⟩ := hdel
        obtain ⟨n, pkt, hcalls, hout, hdata⟩ := hdecodes kept hdec
        refine ⟨kept, n, pkt, hcalls, hout, hdec, hdata, fun other hother => ?_, by simp [hnone]⟩
        simpa [hstate] using hother.symm
    · next hstate =>
        obtain ⟨values, k, hdec, hdelivered⟩ := hdel
        obtain ⟨n, pkt, hcalls, hout, hdata⟩ := hdecodes values hdec
        refine ⟨values, n, pkt, hcalls, hout, hdec, hdata, by simp [hstate], ?_⟩
        have hone := deliveredOnce h job hj
        rw [hdelivered, List.length_cons, List.length_replicate] at hone
        obtain rfl : k = 0 := by omega
        simp [hdelivered]
    · next hnone hsome =>
        split at hstatus <;> simp_all
        next values _ => cases values <;> simp_all

end Isolated

/-- A job is dispatched and run, and then it is collected. -/
def counterCollected : List (Action (Code counter)) :=
  counterJob ++ [.spawn (.collect 1 .lookup)] ++ List.replicate 5 (.step 2 0)

/-- The state after some actions none of which is a late take of job 1. -/
def counterInTime (actions : List (Action (Code counter))) :
    MachineState (Mem counter) (Code counter) Task RejectCode :=
  (Lts.runs (machineStep (stackClient counterHooks)) (fun s a => lateTake 1 s a = false)
    (.start (.create 0 5 (counterPlan 5) 5) 1) actions).getD
      (.start (.create 0 5 (counterPlan 5) 5) 1)

/-- Such actions reach the state after them. -/
theorem counterInTime_reached {actions : List (Action (Code counter))}
    (h : (Lts.runs (machineStep (stackClient counterHooks)) (fun s a => lateTake 1 s a = false)
      (.start (.create 0 5 (counterPlan 5) 5) 1) actions).isSome) :
    ReachedInTime counterHooks 1 (counterInTime actions) := by
  obtain ⟨s, hs⟩ := Option.isSome_iff_exists.mp h
  rw [counterInTime, hs]
  exact ⟨_, ⟨_, _, _, _, rfl⟩, .of_runs actions ⟨1, rfl⟩ hs⟩

/-- The job delivers what it has decoded. -/
theorem job_isolated_counter :
    ∃ job, (counterInTime counterCollected).shared.client.job 1 = some job ∧
      job.delivered = [[5]] ∧ JobIsolated counterHooks (counterInTime counterCollected) 1 job :=
  ⟨_, rfl, rfl, job_isolated (counterInTime_reached rfl) rfl⟩

/-- The same job, collected by two threads that both look it up before one of them takes the
payload. -/
def counterRacing : List (Action (Code counter)) :=
  counterJob ++ [.spawn (.collect 1 .lookup), .spawn (.collect 1 .lookup), .step 2 0,
    .step 3 0, .step 2 0, .step 3 0]

/-- The second thread is delivered an empty batch, which is not what was decoded. -/
theorem job_delivers_default :
    ¬ ∀ s, Reached counterHooks s → ∀ j job, s.shared.client.job j = some job →
      JobIsolated counterHooks s j job := by
  intro h
  have hiso := h (counterAfter counterRacing) (counterAfter_reached rfl) 1 _ rfl
  obtain ⟨values, n, pkt, -, -, hdec, -, -, hall⟩ := hiso.completed rfl
  have hfive : some [5] = some values := hdec
  have hempty : [] = values := hall [] (.tail _ (.head _))
  rw [← hempty] at hfive
  simp at hfive

end Braids.Runtime
