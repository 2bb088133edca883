import Braids.Runtime.Phases
import Braids.Executor.Soup

/-!
# Every Job Is in One Place

A job has one task at a time. Its carrier is that task wherever it is: running, in a queue,
waiting for a lane, or being rejected; before the first task it is the call of `dispatch`.
Every job has exactly one carrier until it is over and none from then on, and the carrier is
at a program point that fits the job (`JobOk`).

## Main results

* `jobsOk_step`: every step of the soup keeps all jobs in order.
* `jobsOk`: so they are in order in every reachable state.
-/

namespace Braids.Runtime

variable {T : Types}

/-! ### What collect and cancel write -/

/-- The record is in a state of the same kind, and `cancel` is not taken back. -/
structure Alike (r r' : JobRecord T.Resolution) : Prop where
  status : statusOf r' = statusOf r
  cancel : r.cancel = true → r'.cancel = true

section Touch

variable {job : Job T} {r record : JobRecord T.Resolution}
  {delivered : List (List T.Resolution)} {dispatched : Dispatched} {ended : Prop}

/-- The state behind the status of a queued job. -/
theorem statusOf_eq_queued : statusOf r = .queued ↔ r.state = .queued := by
  rw [statusOf]
  split <;> simp_all

/-- The state behind the status of a running job. -/
theorem statusOf_eq_running : statusOf r = .running ↔ r.state = .running := by
  rw [statusOf]
  split <;> simp_all

/-- Records of the same kind are queued together. -/
theorem Alike.queued (h : Alike r record) (hs : r.state = .queued) :
    record.state = .queued := by
  rwa [← statusOf_eq_queued, h.status, statusOf_eq_queued]

/-- Records of the same kind run together. -/
theorem Alike.running (h : Alike r record) (hs : r.state = .running) :
    record.state = .running := by
  rwa [← statusOf_eq_running, h.status, statusOf_eq_running]

/-- Records of the same kind end together. -/
theorem Alike.terminal (h : Alike r record) :
    record.state.terminal = r.state.terminal := by
  have hstatus := h.status
  unfold statusOf at hstatus
  split at hstatus <;> split at hstatus <;> simp_all [JobRecordState.terminal]

/-- The record that a step of `collect` takes the payload from. -/
theorem Alike.take {taken : JobRecord T.Resolution}
    {result : Option (BraidResult (List T.Resolution))} (h : r.take = (taken, result)) :
    Alike r taken := by
  rw [JobRecord.take] at h
  split at h <;> simp only [Prod.mk.injEq] at h <;> obtain ⟨rfl, rfl⟩ := h
  all_goals exact ⟨by simp_all [statusOf], id⟩

variable (h : Alike job.record record)
include h

/-- A job on its way stays where it is. -/
theorem Job.At.touch {state : JobRecordState T.Resolution} {custody : Custody}
    {calls : List (Call T)} {passed : List JobTask} (hat : job.At state custody calls passed)
    (hs : state = .queued ∨ state = .running) :
    { job with record, delivered, dispatched }.At state custody calls passed := by
  refine ⟨?_, hat.has, hat.calls_eq, hat.passed_eq⟩
  rcases hs with rfl | rfl
  · exact h.queued hat.state_eq
  · exact h.running hat.state_eq

/-- A job that is ready stays ready. -/
theorem Job.Ready.touch {next : JobTask} (hready : job.Ready next) :
    { job with record, delivered, dispatched }.Ready next := by
  cases next with
  | encode => exact hready
  | stage i =>
      obtain ⟨hlt, pkt, hat⟩ := hready
      exact ⟨hlt, pkt, hat.touch h (.inr rfl)⟩
  | decode =>
      obtain ⟨pkt, hat⟩ := hready
      exact ⟨pkt, hat.touch h (.inr rfl)⟩

/-- A job that is to fail still is. -/
theorem Job.Fails.touch {error : BraidError} {custody : Custody}
    (hfails : job.Fails error custody) :
    { job with record, delivered, dispatched }.Fails error custody := by
  obtain ⟨hblame, hhas, hstate⟩ := hfails
  refine ⟨?_, hhas, ?_⟩
  · rcases hblame with hpanic | ⟨hpanic, hfailed | hunsent | ⟨herror, hcancel⟩⟩
    · exact .inl hpanic
    · exact .inr ⟨hpanic, .inl hfailed⟩
    · exact .inr ⟨hpanic, .inr (.inl hunsent)⟩
    · exact .inr ⟨hpanic, .inr (.inr ⟨herror, h.cancel hcancel⟩)⟩
  · rcases hstate with hs | ⟨hs, hrest⟩
    · exact .inl (h.running hs)
    · exact .inr ⟨h.queued hs, hrest⟩

/-- A program point of a task that fits still does. -/
theorem JobCode.Fits.touch {code : JobCode T} (hf : code.Fits ended job) :
    code.Fits ended { job with record, delivered, dispatched } := by
  cases code with
  | encode | mark => exact Job.At.touch h hf (.inl rfl)
  | checkout | scratch | encodeHook | encoded | store => exact Job.At.touch h hf (.inr rfl)
  | recycle => exact Job.Fails.touch h hf
  | giveBack pkt result =>
      cases result with
      | error => exact Job.Fails.touch h hf
      | ok =>
          obtain ⟨hread, hdec, hat⟩ := hf
          exact ⟨hread, hdec, hat.touch h (.inr rfl)⟩
  | schedule next => exact Job.Ready.touch h (show job.Ready next from hf)
  | stage i | stageLock i => exact Job.Ready.touch h (show job.Ready (.stage i) from hf)
  | stageHook => exact ⟨hf.1, hf.2.touch h (.inr rfl)⟩
  | decode => exact Job.Ready.touch h (show job.Ready .decode from hf)
  | take => exact ⟨hf.1.touch h, hf.2⟩
  | decodeHook => exact ⟨hf.1, hf.2.touch h (.inr rfl)⟩
  | finishCompleted =>
      obtain ⟨hread, hdec, n, hout, hat⟩ := hf
      exact ⟨hread, hdec, n, hout, hat.touch h (.inr rfl)⟩
  | await => exact hf
  | released | ended => exact trivial
  | refused next =>
      cases next with
      | stage i => exact hf
      | _ => exact ⟨hf.1, hf.2.touch h⟩
  | caught again error =>
      cases again with
      | true => exact hf
      | false =>
          obtain ⟨custody, hfails, hplace⟩ := hf
          exact ⟨custody, hfails.touch h, hplace⟩
  | cleanup again =>
      cases again with
      | true => exact hf
      | false => exact Job.Fails.touch h hf
  | finish again =>
      cases again with
      | true => exact hf
      | false =>
          obtain ⟨custody, hclosed, hfails⟩ := hf
          exact ⟨custody, hclosed, hfails.touch h⟩

/-- A program point of a reject side that fits still does. -/
theorem RejectPoint.Fits.touch {point : RejectPoint} (hf : point.Fits job) :
    point.Fits { job with record, delivered, dispatched } := by
  cases point with
  | take =>
      obtain ⟨i, hready⟩ := hf
      exact ⟨i, hready.touch h⟩
  | giveBack | fail => exact ⟨h.running hf.1, hf.2⟩

/-- A settled job stays settled. -/
theorem Job.Settled.touch (hset : job.Settled ended) :
    { job with record, delivered, dispatched }.Settled ended := by
  have hstatus := h.status
  rw [Job.Settled] at hset ⊢
  cases hs : job.record.state <;> cases hs' : record.state <;>
    simp only [statusOf, hs, hs', reduceCtorEq] at hset hstatus ⊢
  case queued.queued => exact hset.touch h (.inl rfl)
  case cancelled.cancelled =>
    obtain ⟨hclosed, hpanic, hcause⟩ := hset
    exact ⟨hclosed, hpanic, hcause.imp_right h.cancel⟩
  all_goals exact hset

/-- A rejected job stays rejected. -/
theorem Job.Rejected.touch (hrej : job.Rejected) :
    { job with record, delivered, dispatched }.Rejected := by
  obtain ⟨⟨error, hs⟩, hclosed⟩ := hrej
  have hstatus := h.status
  simp only [statusOf, hs] at hstatus
  refine ⟨?_, hclosed⟩
  cases hs' : record.state <;> simp_all

/-- A job that is over stays over, and one that is not stays so. -/
theorem Job.over_touch : { job with record, delivered }.Over ↔ job.Over := by
  unfold Job.Over
  rw [show ({ job with record, delivered } : Job T).record.state.terminal = _ from h.terminal]

end Touch

/-! ### Points of jobs -/

/-- A program point of the stack, or what will become one. -/
abbrev StackPoint (T : Types) := Point (Code T) Task RejectCode

/-- The job that a program point belongs to. -/
def Code.owner : Code T → Option JobId
  | .dispatchInsert j | .dispatchSubmit j | .dispatchWait j | .dispatchOk j
  | .dispatchErr j _ | .task j _ => some j
  | _ => none

/-- One if the program point is responsible for its job. -/
def Code.carries : Code T → ℕ
  | .dispatchInsert _ | .dispatchSubmit _ | .dispatchErr _ _ => 1
  | .task _ code => code.carries
  | _ => 0

/-- One if the program point is the call of `dispatch` that created its job. -/
def Code.dispatches : Code T → ℕ
  | .dispatchInsert _ | .dispatchSubmit _ | .dispatchWait _ | .dispatchOk _
  | .dispatchErr _ _ => 1
  | _ => 0

/-- What is true of its job at the program point. -/
def Code.Fits (ended : Prop) (job : Job T) : Code T → Prop
  | .dispatchInsert _ | .dispatchSubmit _ | .dispatchErr _ _ => job.Waits
  | .task _ code => code.Fits ended job
  | _ => True

/-- What is true of its job while a task is in the executor queue. -/
def TaskFits (job : Job T) : JobTask → Prop
  | .encode => job.Waits
  | .stage _ => False
  | .decode => job.Ready .decode

namespace StackPoint

/-- The job that a point belongs to. -/
def owner : StackPoint T → Option JobId
  | .code code | .hook code => code.owner
  | .task t | .scheduled t => some t.job
  | .rejecting code => some code.job

/-- One if the point is responsible for its job. -/
def carries : StackPoint T → ℕ
  | .code code => code.carries
  | .task _ | .scheduled _ | .rejecting _ => 1
  | .hook _ => 0

/-- One if the point is the call of `dispatch` that created its job. -/
def dispatches : StackPoint T → ℕ
  | .code code => code.dispatches
  | _ => 0

/-- What is true of its job at the point. -/
def Fits (ended : Prop) (job : Job T) : StackPoint T → Prop
  | .code code => code.Fits ended job
  | .task t => TaskFits job t.kind
  | .scheduled t => ∃ i, t.kind = .stage i ∧ job.Ready (.stage i)
  | .rejecting code => code.point.Fits job
  | .hook _ => False

end StackPoint

/-- What the points of a job have of `w` together. -/
def share (w : StackPoint T → ℕ) (j : JobId) (P : Soup (Code T) Task RejectCode) : ℕ :=
  (P.map fun p => if StackPoint.owner p = some j then w p else 0).sum

section Share

variable {w : StackPoint T → ℕ} {j : JobId} {p : StackPoint T}
  {P Q : Soup (Code T) Task RejectCode}

@[simp] theorem share_zero : share w j 0 = 0 := rfl

@[simp] theorem share_cons :
    share w j (p ::ₘ P) = (if StackPoint.owner p = some j then w p else 0) + share w j P := by
  simp [share]

@[simp] theorem share_add : share w j (P + Q) = share w j P + share w j Q := by
  simp [share]

@[simp] theorem share_singleton :
    share w j {p} = if StackPoint.owner p = some j then w p else 0 := by
  simp [share]

/-- Points of other jobs have no share. -/
theorem share_of_not_owner (h : ∀ p ∈ P, StackPoint.owner p ≠ some j) : share w j P = 0 := by
  induction P using Multiset.induction_on with
  | empty => rfl
  | cons p P ih =>
      rw [share_cons, if_neg (h p (Multiset.mem_cons_self _ _)), zero_add]
      exact ih fun q hq => h q (Multiset.mem_cons_of_mem hq)

/-- Every point of a job has part of its share. -/
theorem le_share (hp : p ∈ P) (howner : StackPoint.owner p = some j) : w p ≤ share w j P := by
  obtain ⟨P, rfl⟩ := Multiset.exists_cons_of_mem hp
  rw [share_cons, if_pos howner]
  omega

/-- A share belongs to some point. -/
theorem exists_of_share_pos (h : 0 < share w j P) :
    ∃ p ∈ P, StackPoint.owner p = some j ∧ 0 < w p := by
  by_contra hnone
  have hzero : share w j P = 0 := by
    refine Multiset.sum_eq_zero fun n hn => ?_
    obtain ⟨p, hp, rfl⟩ := Multiset.mem_map.mp hn
    split
    · next howner => exact Nat.eq_zero_of_not_pos fun hw => hnone ⟨p, hp, howner, hw⟩
    · rfl
  omega

end Share

/-! ### One job in order -/

/-- The job is in order among the points of the soup. -/
structure JobOk (rejected : List JobId) (P : Soup (Code T) Task RejectCode) (j : JobId)
    (job : Job T) : Prop where
  carried : share StackPoint.carries j P + (if job.Over then 1 else 0) = 1
  dispatching : share StackPoint.dispatches j P = if job.dispatched = .pending then 1 else 0
  fits : ∀ p ∈ P, StackPoint.owner p = some j → StackPoint.Fits (j ∈ rejected) job p
  sound : job.Sound
  settled : job.Over → job.Settled (j ∈ rejected)
  rejected : j ∈ rejected → job.Rejected

section JobOk

variable {rej rej' : List JobId} {p : StackPoint T} {P Q R : Soup (Code T) Task RejectCode}
  {j : JobId} {job job' : Job T} {ended ended' : Prop}

/-- A task that is not responsible for its job relies on nothing that changes. -/
theorem JobCode.Fits.of_late {code : JobCode T} (hw : code.carries = 0)
    (h : code.Fits ended job) (hover : ended → ended') : code.Fits ended' job' := by
  cases code with
  | refused next =>
      cases next with
      | stage i => exact ⟨h.1, hover h.2⟩
      | _ => simp [JobCode.carries] at hw
  | caught again | cleanup again | finish again =>
      cases again with
      | true => first | exact h.elim | exact ⟨h.1, hover h.2⟩
      | false => simp [JobCode.carries] at hw
  | await => exact h
  | released | ended => exact trivial
  | _ => simp [JobCode.carries] at hw

/-- A point that is not responsible for its job relies on nothing that changes. -/
theorem StackPoint.Fits.of_late (hw : StackPoint.carries p = 0)
    (h : StackPoint.Fits ended job p) (hover : ended → ended') : StackPoint.Fits ended' job' p := by
  cases p with
  | code code =>
      cases code with
      | task j code => exact JobCode.Fits.of_late hw h hover
      | dispatchInsert | dispatchSubmit | dispatchErr =>
          simp [StackPoint.carries, Code.carries] at hw
      | _ => exact trivial
  | hook => exact h.elim
  | _ => simp [StackPoint.carries] at hw

/-- A point that fits still does after a touch. -/
theorem StackPoint.Fits.touch {record : JobRecord T.Resolution}
    {delivered : List (List T.Resolution)} {dispatched : Dispatched}
    (h : Alike job.record record) (hf : StackPoint.Fits ended job p) :
    StackPoint.Fits ended { job with record, delivered, dispatched } p := by
  cases p with
  | code code =>
      cases code with
      | task j code => exact JobCode.Fits.touch h hf
      | dispatchInsert | dispatchSubmit | dispatchErr => exact Job.At.touch h hf (.inl rfl)
      | _ => exact trivial
  | task t =>
      obtain ⟨j, kind⟩ := t
      cases kind with
      | encode => exact Job.At.touch h hf (.inl rfl)
      | stage i => exact hf
      | decode => exact Job.Ready.touch h (show job.Ready .decode from hf)
  | scheduled t =>
      obtain ⟨i, hkind, hready⟩ := hf
      exact ⟨i, hkind, hready.touch h⟩
  | rejecting code => exact RejectPoint.Fits.touch h hf
  | hook => exact hf

/-- The carrier of a job is the only one, and the job is not over. -/
theorem JobOk.carrier (h : JobOk rej (P + R) j job) (hw : share StackPoint.carries j P = 1) :
    ¬ job.Over ∧ share StackPoint.carries j R = 0 := by
  have hsum := h.carried
  rw [share_add, hw] at hsum
  by_cases hover : job.Over
  · rw [if_pos hover] at hsum
    omega
  · exact ⟨hover, by omega⟩

/-- **The carrier moves.** What the carrier of a job does with it keeps the job in order. -/
theorem JobOk.carry (h : JobOk rej (P + R) j job) (hw : share StackPoint.carries j P = 1)
    (hrej : j ∈ rej → j ∈ rej')
    (hcarried : share StackPoint.carries j Q + (if job'.Over then 1 else 0) = 1)
    (hdispatch : share StackPoint.dispatches j Q + (if job.dispatched = .pending then 1 else 0) =
      share StackPoint.dispatches j P + if job'.dispatched = .pending then 1 else 0)
    (hfits : ∀ q ∈ Q, StackPoint.Fits (j ∈ rej') job' q) (hsound : job'.Sound)
    (hsettled : job'.Over → job'.Settled (j ∈ rej'))
    (hrejected : j ∈ rej' → job'.Rejected) : JobOk rej' (Q + R) j job' := by
  obtain ⟨-, hrest⟩ := h.carrier hw
  have hdis := h.dispatching
  rw [share_add] at hdis
  refine ⟨?_, ?_, ?_, hsound, hsettled, hrejected⟩
  · rw [share_add, hrest]
    omega
  · rw [share_add]
    omega
  · intro q hq hown
    rcases Multiset.mem_add.mp hq with hq | hq
    · exact hfits q hq
    · have hlate := le_share (w := StackPoint.carries) hq hown
      have hfit := h.fits q (Multiset.mem_add.mpr (.inr hq)) hown
      exact hfit.of_late (by omega) hrej

/-- Points that are not responsible for their job move. -/
theorem JobOk.late (h : JobOk rej (P + R) j job)
    (hcarried : share StackPoint.carries j Q = share StackPoint.carries j P)
    (hdispatch : share StackPoint.dispatches j Q = share StackPoint.dispatches j P)
    (hfits : ∀ q ∈ Q, StackPoint.Fits (j ∈ rej) job q) : JobOk rej (Q + R) j job := by
  have hsum := h.carried
  have hdis := h.dispatching
  rw [share_add] at hsum hdis
  refine ⟨?_, ?_, ?_, h.sound, h.settled, h.rejected⟩
  · rw [share_add]
    omega
  · rw [share_add]
    omega
  · intro q hq hown
    rcases Multiset.mem_add.mp hq with hq | hq
    · exact hfits q hq
    · exact h.fits q (Multiset.mem_add.mpr (.inr hq)) hown

/-- Points of others come and go. -/
theorem JobOk.others (h : JobOk rej (P + R) j job) (hrej : j ∈ rej' ↔ j ∈ rej)
    (hP : ∀ p ∈ P, StackPoint.owner p ≠ some j) (hQ : ∀ q ∈ Q, StackPoint.owner q ≠ some j) :
    JobOk rej' (Q + R) j job := by
  have hsum := h.carried
  have hdis := h.dispatching
  rw [share_add, share_of_not_owner hP, zero_add] at hsum hdis
  refine ⟨?_, ?_, ?_, h.sound, ?_, ?_⟩
  · rw [share_add, share_of_not_owner hQ, zero_add, hsum]
  · rw [share_add, share_of_not_owner hQ, zero_add, hdis]
  · intro q hq hown
    rcases Multiset.mem_add.mp hq with hq | hq
    · exact (hQ q hq hown).elim
    · rw [hrej]
      exact h.fits q (Multiset.mem_add.mpr (.inr hq)) hown
  · rw [hrej]
    exact h.settled
  · rw [hrej]
    exact h.rejected

/-- What collect and cancel write keeps a job in order. -/
theorem JobOk.touch {record : JobRecord T.Resolution} {delivered : List (List T.Resolution)}
    (hok : JobOk rej P j job) (h : Alike job.record record)
    (hdel : { job with record, delivered }.Delivers) :
    JobOk rej P j { job with record, delivered } := by
  have hover : { job with record, delivered }.Over ↔ job.Over := Job.over_touch h
  refine ⟨?_, hok.dispatching, fun p hp hown => (hok.fits p hp hown).touch h, ?_, ?_, ?_⟩
  · simp only [hover, hok.carried]
  · exact hok.sound.of_fields rfl rfl rfl hok.sound.orderly hdel
  · exact fun ho => (hok.settled (hover.mp ho)).touch h
  · exact fun hr => (hok.rejected hr).touch h

end JobOk

/-! ### Steps of a job in order -/

/-- No panic has poisoned a pool. -/
structure Pools.Clean (pools : Pools) : Prop where
  packets : pools.packetsPoisoned = false
  scratch : pools.scratchPoisoned = false

section Steps

variable {H : Hooks T} {b : BackendId} {pools pools' : Pools} {job job' : Job T}
  {code : JobCode T} {act : ClientAct (JobCode T) JobTask} {rej rej' : List JobId}
  {P R : Soup (Code T) Task RejectCode} {j : JobId}

/-- Giving a packet back poisons no pool. -/
theorem Pools.Clean.giveBack {pkt : Packet} (hc : pools.Clean)
    (h : giveBackPacket pools job pkt = (pools', job')) : pools'.Clean := by
  obtain ⟨rfl, -⟩ := giveBackPacket_spec hc.packets h
  exact ⟨hc.packets, hc.scratch⟩

/-- Checking a packet out poisons no pool. -/
theorem Pools.Clean.checkout {pkt : Packet} {statics : List StaticBuffer} (hc : pools.Clean)
    (h : pools.checkout statics = (pools', pkt)) : pools'.Clean := by
  rw [Pools.checkout] at h
  split at h <;> simp only [Prod.mk.injEq] at h <;> obtain ⟨rfl, -⟩ := h
  · exact ⟨hc.packets, hc.scratch⟩
  · exact ⟨hc.packets, hc.scratch⟩

/-- A task poisons no pool. -/
theorem JobStep.clean (h : JobStep H b pools job code pools' job' act) (hc : pools.Clean) :
    pools'.Clean := by
  cases h with
  | checkout _ h => exact hc.checkout h
  | recycle h | giveBackOk _ h | giveBackPoisoned _ h | giveBackErr h | cleanup h =>
      exact hc.giveBack h
  | _ => exact hc

/-- A reject side poisons no pool. -/
theorem RejectStep.clean {point : RejectPoint} {next : Option RejectPoint}
    (h : RejectStep pools job point pools' job' next) (hc : pools.Clean) : pools'.Clean := by
  cases h with
  | giveBack h => exact hc.giveBack h
  | _ => exact hc

/-- A task does not decide what `dispatch` returns. -/
theorem JobStep.dispatched (h : JobStep H b pools job code pools' job' act)
    (hc : pools.Clean) : job'.dispatched = job.dispatched := by
  cases h with
  | recycle h | giveBackOk _ h | giveBackPoisoned _ h | giveBackErr h | cleanup h =>
      obtain ⟨-, rfl⟩ := giveBackPacket_spec hc.packets h
      rfl
  | finish =>
      unfold Job.finishWith
      split <;> rfl
  | _ => rfl

/-- A reject side does not decide what `dispatch` returns. -/
theorem RejectStep.dispatched {point : RejectPoint} {next : Option RejectPoint}
    (h : RejectStep pools job point pools' job' next) (hc : pools.Clean) :
    job'.dispatched = job.dispatched := by
  cases h with
  | giveBack h =>
      obtain ⟨-, rfl⟩ := giveBackPacket_spec hc.packets h
      rfl
  | _ => rfl

/-- The program points that an act of a task of the job leaves. -/
def taskPoints (j : JobId) (act : ClientAct (JobCode T) JobTask) :
    Soup (Code T) Task RejectCode :=
  (liftAct (Code.task j) (fun kind => (⟨j, kind⟩ : Task)) act).points

/-- The points that an act of a task leaves belong to its job. -/
theorem owner_of_mem_taskPoints (hact : ∀ b hook next, act ≠ .prepare b hook next)
    {q : StackPoint T} (hq : q ∈ taskPoints j act) : StackPoint.owner q = some j := by
  cases act with
  | prepare b hook next => exact (hact b hook next rfl).elim
  | _ =>
      simp only [taskPoints, liftAct, ClientAct.points, Multiset.insert_eq_cons,
        Multiset.mem_cons, Multiset.mem_singleton, Multiset.notMem_zero] at hq
      try obtain rfl | rfl := hq
      all_goals rfl

/-- A job that is not over is over after a step only if its record has ended. -/
theorem Job.over_iff_of_dispatched (hover : ¬ job.Over) (hd : job'.dispatched = job.dispatched) :
    job'.Over ↔ job'.record.state.terminal = true := by
  rw [Job.Over] at hover ⊢
  rw [hd]
  simp only [not_or] at hover
  simp [hover.2]

/-- **A task step** keeps its job in order. -/
theorem JobOk.task (hok : JobOk rej ({.code (.task j code)} + R) j job) (hc : pools.Clean)
    (h : JobStep H b pools job code pools' job' act) :
    JobOk rej (taskPoints j act + R) j job' := by
  have hf : code.Fits (j ∈ rej) job :=
    hok.fits (.code (.task j code)) (by simp) rfl
  have hcarries : share StackPoint.carries j {.code (.task j code)} = code.carries := by
    simp [StackPoint.owner, Code.owner, StackPoint.carries, Code.carries]
  have hdispatches : share StackPoint.dispatches j {.code (.task j code)} = 0 := by
    simp [StackPoint.dispatches, Code.dispatches]
  obtain hw | hw : code.carries = 1 ∨ code.carries = 0 := by
    unfold JobCode.carries
    split <;> simp
  · have hout := h.fits hc.packets hc.scratch hok.sound hw hf
    have hsound := h.sound hc.packets hok.sound hw hf
    have hd := h.dispatched hc
    obtain ⟨hover, -⟩ := hok.carrier (hcarries.trans hw)
    have hrej : j ∉ rej := fun hr => hover (hok.rejected hr).isOver
    have hover' := Job.over_iff_of_dispatched hover hd
    have hcarry : ∀ {Q}, share StackPoint.carries j Q +
          (if job'.record.state.terminal = true then 1 else 0) = 1 →
        share StackPoint.dispatches j Q = 0 →
        (∀ q ∈ Q, StackPoint.Fits (j ∈ rej) job' q) →
        (job'.record.state.terminal = true → job'.Settled (j ∈ rej)) →
        JobOk rej (Q + R) j job' := by
      intro Q hcarried hdis hfits hset
      refine hok.carry (hcarries.trans hw) id ?_ ?_ hfits hsound
        (fun ho => hset (hover'.mp ho)) fun hr => (hrej hr).elim
      · simpa only [hover'] using hcarried
      · rw [hdis, hd, hdispatches]
    cases hout with
    | on hcode hfits hlive =>
        refine hcarry ?_ ?_ ?_ ?_
        · simp [taskPoints, liftAct, StackPoint.owner, Code.owner, StackPoint.carries,
            Code.carries, hcode, hlive]
        · simp [taskPoints, liftAct, StackPoint.dispatches, Code.dispatches]
        · intro q hq
          obtain rfl := Multiset.mem_singleton.mp hq
          exact hfits
        · simp [hlive]
    | @submit next hnext hready hlive =>
        refine hcarry ?_ ?_ ?_ ?_
        · simp [taskPoints, liftAct, StackPoint.owner, Code.owner, StackPoint.carries,
            Code.carries, JobCode.carries, hlive]
        · simp [taskPoints, liftAct, StackPoint.dispatches, Code.dispatches]
        · intro q hq
          simp only [taskPoints, liftAct, ClientAct.points, Multiset.insert_eq_cons,
            Multiset.mem_cons, Multiset.mem_singleton] at hq
          rcases hq with rfl | rfl
          · cases next with
            | encode => exact hready.elim
            | stage i => exact (hnext i rfl).elim
            | decode => exact hready
          · rintro rfl
            exact hready
        · simp [hlive]
    | schedule hready hlive =>
        refine hcarry ?_ ?_ ?_ ?_
        · simp [taskPoints, liftAct, StackPoint.owner, Code.owner, StackPoint.carries,
            Code.carries, JobCode.carries, hlive]
        · simp [taskPoints, liftAct, StackPoint.dispatches, Code.dispatches]
        · intro q hq
          simp only [taskPoints, liftAct, ClientAct.points, Multiset.insert_eq_cons,
            Multiset.mem_cons, Multiset.mem_singleton] at hq
          rcases hq with rfl | rfl
          · exact ⟨_, rfl, hready⟩
          · exact JobTask.noConfusion
        · simp [hlive]
    | ends hend hset =>
        refine hcarry ?_ ?_ ?_ fun _ => hset
        · simp [taskPoints, liftAct, StackPoint.carries, Code.carries, JobCode.carries, hend]
        · simp [taskPoints, liftAct, StackPoint.dispatches, Code.dispatches]
        · intro q hq
          obtain rfl := Multiset.mem_singleton.mp hq
          exact trivial
  · obtain ⟨-, hjob, hact⟩ := h.late hw hf hok.rejected
    have hlate : JobOk rej (taskPoints j act + R) j job := by
      refine hok.late ?_ ?_ ?_
      · rw [hcarries, hw]
        rcases hact with ⟨r, rfl⟩ | ⟨next, rfl | rfl, hnext, -⟩ <;>
          simp [taskPoints, liftAct, StackPoint.carries, Code.carries, *]
      · rw [hdispatches]
        rcases hact with ⟨r, rfl⟩ | ⟨next, rfl | rfl, -⟩ <;>
          simp [taskPoints, liftAct, StackPoint.dispatches, Code.dispatches]
      · intro q hq
        rcases hact with ⟨r, rfl⟩ | ⟨next, rfl | rfl, -, hfits⟩
        · simp [taskPoints, liftAct] at hq
        · obtain rfl := Multiset.mem_singleton.mp hq
          exact hfits job
        · obtain rfl := Multiset.mem_singleton.mp hq
          exact hfits job
    rcases hjob with rfl | ⟨hr, rfl⟩
    · exact hlate
    · have hrejected := hlate.rejected hr
      obtain ⟨hrejected', hsound⟩ := hrejected.finishWith hlate.sound
      have hsum := hlate.carried
      rw [if_pos hrejected.isOver] at hsum
      refine ⟨?_, ?_, ?_, hsound, fun _ => hrejected'.settled hr, fun _ => hrejected'⟩
      · rw [if_pos hrejected'.isOver, hsum]
      · rw [hlate.dispatching, h.dispatched hc]
      · intro q hq hown
        have hle := le_share (w := StackPoint.carries) hq hown
        exact (hlate.fits q hq hown).of_late (by omega) id

/-- **A step of a reject side** keeps its job in order. -/
theorem JobOk.reject {point : RejectPoint} {next : Option RejectPoint}
    (hok : JobOk rej ({.rejecting ⟨j, point⟩} + R) j job) (hc : pools.Clean)
    (h : RejectStep pools job point pools' job' next)
    (hrej' : rej' = if next.isNone then j :: rej else rej) :
    JobOk rej' (next.elim 0 (fun next => {.rejecting ⟨j, next⟩}) + R) j job' := by
  have hf : point.Fits job :=
    hok.fits (.rejecting ⟨j, point⟩) (by simp) rfl
  have hcarries : share StackPoint.carries j {(.rejecting ⟨j, point⟩ : StackPoint T)} = 1 := by
    simp [StackPoint.owner, StackPoint.carries]
  have hsound := h.sound hc.packets hok.sound hf
  have hd := h.dispatched hc
  obtain ⟨hover, -⟩ := hok.carrier hcarries
  have hrej : j ∉ rej := fun hr => hover (hok.rejected hr).isOver
  have hover' := Job.over_iff_of_dispatched hover hd
  cases h.fits hc.packets hok.sound hf with
  | @on point' hfits hlive =>
      obtain rfl : rej' = rej := by simpa using hrej'
      refine hok.carry hcarries id ?_ ?_ ?_ hsound ?_ fun hr => (hrej hr).elim
      · simp [hover', hlive, StackPoint.owner, StackPoint.carries]
      · simp [hd, StackPoint.dispatches]
      · intro q hq
        obtain rfl := Multiset.mem_singleton.mp hq
        exact hfits
      · simp [hover', hlive]
  | done hrejected =>
      obtain rfl : rej' = j :: rej := by simpa using hrej'
      have hmem : j ∈ j :: rej := List.mem_cons_self
      refine hok.carry hcarries (fun _ => hmem) ?_ ?_ ?_ hsound
        (fun _ => hrejected.settled hmem) fun _ => hrejected
      · simp [hrejected.isOver]
      · simp [hd, StackPoint.dispatches]
      · simp

end Steps

/-! ### All jobs in order -/

/-- Every job is in order, and no panic has poisoned what jobs share. -/
structure JobsOk (m : Mem T) (P : Soup (Code T) Task RejectCode) : Prop where
  pools : m.pools.Clean
  table : m.tablePoisoned = false
  fresh : ∀ j, m.nextJobId ≤ j → m.job j = none
  owned : ∀ p ∈ P, ∀ j, StackPoint.owner p = some j → m.job j ≠ none
  rejected : ∀ j ∈ m.rejected, m.job j ≠ none
  job : ∀ j job, m.job j = some job → JobOk m.rejected P j job

section JobsOk

variable {H : Hooks T} {m m' : Mem T} {p : StackPoint T} {rej : List JobId}
  {P Q R : Soup (Code T) Task RejectCode} {j : JobId} {job job' : Job T}

/-- Points that belong to no job come and go, and so does everything else in the memory. -/
theorem JobsOk.others (h : JobsOk m (P + R)) (hP : ∀ p ∈ P, StackPoint.owner p = none)
    (hQ : ∀ q ∈ Q, StackPoint.owner q = none) (hpools : m'.pools = m.pools)
    (htable : m'.tablePoisoned = m.tablePoisoned) (hnext : m'.nextJobId = m.nextJobId)
    (hjob : m'.job = m.job) (hrej : m'.rejected = m.rejected) : JobsOk m' (Q + R) := by
  refine ⟨hpools ▸ h.pools, htable ▸ h.table, ?_, ?_, ?_, ?_⟩
  · rw [hnext, hjob]
    exact h.fresh
  · intro q hq i hown
    rw [hjob]
    rcases Multiset.mem_add.mp hq with hq | hq
    · simp [hQ q hq] at hown
    · exact h.owned q (Multiset.mem_add.mpr (.inr hq)) i hown
  · rw [hrej, hjob]
    exact h.rejected
  · intro i job hi
    rw [hjob] at hi
    refine (h.job i job hi).others (by rw [hrej]) (fun p hp => ?_) fun q hq => ?_
    · simp [hP p hp]
    · simp [hQ q hq]

/-- A point moves on with the job that it belongs to. -/
theorem JobsOk.carry (h : JobsOk m (P + R)) (hj : m.job j = some job)
    (hP : ∀ p ∈ P, StackPoint.owner p = some j) (hQ : ∀ q ∈ Q, StackPoint.owner q = some j)
    (hpools : m'.pools.Clean) (htable : m'.tablePoisoned = m.tablePoisoned)
    (hnext : m'.nextJobId = m.nextJobId) (hjob : m'.job = Function.update m.job j (some job'))
    (hrej : ∀ i, i ≠ j → (i ∈ m'.rejected ↔ i ∈ m.rejected))
    (hok : JobOk m'.rejected (Q + R) j job') : JobsOk m' (Q + R) := by
  have hsome : ∀ i, m.job i ≠ none → m'.job i ≠ none := by
    intro i hi
    rw [hjob]
    by_cases hij : i = j
    · simp [hij]
    · rwa [Function.update_of_ne hij]
  refine ⟨hpools, htable ▸ h.table, ?_, ?_, ?_, ?_⟩
  · intro i hi
    rw [hnext] at hi
    have hnone := h.fresh i hi
    have hij : i ≠ j := by
      rintro rfl
      simp [hj] at hnone
    rw [hjob, Function.update_of_ne hij, hnone]
  · intro q hq i hown
    rcases Multiset.mem_add.mp hq with hq | hq
    · obtain rfl : j = i := by simpa [hQ q hq] using hown
      exact hsome _ (by simp [hj])
    · exact hsome i (h.owned q (Multiset.mem_add.mpr (.inr hq)) i hown)
  · intro i hi
    by_cases hij : i = j
    · rw [hij]
      exact hsome _ (by simp [hj])
    · exact hsome i (h.rejected i ((hrej i hij).mp hi))
  · intro i job₀ hi
    rw [hjob] at hi
    by_cases hij : i = j
    · subst hij
      rw [Function.update_self] at hi
      obtain rfl := Option.some.inj hi
      exact hok
    · rw [Function.update_of_ne hij] at hi
      refine (h.job i job₀ hi).others (hrej i hij) (fun p hp => ?_) fun q hq => ?_
      · simpa [hP p hp] using Ne.symm hij
      · simpa [hQ q hq] using Ne.symm hij

/-- What collect and cancel write keeps all jobs in order. -/
theorem JobsOk.touch (h : JobsOk m P) (hj : m.job j = some job)
    {record : JobRecord T.Resolution} {delivered : List (List T.Resolution)}
    (hlike : Alike job.record record) (hdel : { job with record, delivered }.Delivers) :
    JobsOk (m.setJob j { job with record, delivered }) P := by
  have h0 : JobsOk m (0 + P) := by rwa [zero_add]
  have hok : JobOk m.rejected (0 + P) j { job with record, delivered } := by
    rw [zero_add]
    exact (h.job j job hj).touch hlike hdel
  have hcarry : JobsOk (m.setJob j { job with record, delivered }) (0 + P) :=
    h0.carry hj (by simp) (by simp) h.pools rfl rfl rfl (fun _ _ => Iff.rfl) hok
  rwa [zero_add] at hcarry

/-- A task step keeps all jobs in order. -/
theorem JobsOk.task {b : BackendId} {code : JobCode T} {pools : Pools}
    {act : ClientAct (JobCode T) JobTask} (h : JobsOk m ({.code (.task j code)} + R))
    (hj : m.job j = some job) (hstep : JobStep H b m.pools job code pools job' act) :
    JobsOk { m.setJob j job' with pools } (taskPoints j act + R) := by
  refine h.carry hj ?_ ?_ (hstep.clean h.pools) rfl rfl rfl (fun _ _ => Iff.rfl)
    ((h.job j job hj).task h.pools hstep)
  · intro p hp
    obtain rfl := Multiset.mem_singleton.mp hp
    rfl
  · refine fun q hq => owner_of_mem_taskPoints ?_ hq
    rintro b hook next rfl
    cases hstep with
    | leave _ hact => simp at hact

/-- A new job is in order. -/
theorem JobOk.fresh {version seen : Version T} {queries : List T.Query} {since : List ℕ}
    (hversion : version = seen) (hown : ∀ p ∈ R, StackPoint.owner p ≠ some j) (hrej : j ∉ rej) :
    JobOk rej (.code (.dispatchInsert j) ::ₘ R) j { version, queries, seen, since } := by
  have hover : ¬ ({ version, queries, seen, since } : Job T).Over := by
    simp [Job.Over, JobRecordState.terminal]
  refine ⟨?_, ?_, ?_, ?_, fun ho => (hover ho).elim, fun hr => (hrej hr).elim⟩
  · simp [share_of_not_owner hown, hover, StackPoint.owner, Code.owner, StackPoint.carries,
      Code.carries]
  · simp [share_of_not_owner hown, StackPoint.owner, Code.owner, StackPoint.dispatches,
      Code.dispatches]
  · intro p hp hpown
    rcases Multiset.mem_cons.mp hp with rfl | hp
    · exact ⟨rfl, ⟨rfl, rfl, rfl, rfl, rfl, rfl⟩, rfl, rfl⟩
    · exact (hown p hp hpown).elim
  · exact ⟨hversion, rfl, ⟨0, List.nil_prefix, .inl rfl⟩, rfl⟩

/-- What `collect` takes from a record is delivered. -/
theorem Job.Sound.take (hs : job.Sound) {record taken : JobRecord T.Resolution} {self : ThreadId}
    {result : BraidResult (List T.Resolution)}
    (hrec : record = job.record ∨ record = job.record.unpark self)
    (h : record.take = (taken, some result)) :
    { job with record := taken, delivered := deliver job.delivered result }.Delivers := by
  have hdel := hs.delivers
  have hstate : record.state = job.record.state := by obtain rfl | rfl := hrec <;> rfl
  rw [Job.Delivers] at hdel
  rw [← hstate] at hdel
  rw [JobRecord.take] at h
  split at h <;> simp only [Prod.mk.injEq, reduceCtorEq, and_false, Option.some.injEq] at h <;>
    obtain ⟨rfl, rfl⟩ := h
  · next values hs =>
      rw [hs] at hdel
      cases values with
      | none =>
          obtain ⟨values, n, hdec, hdel⟩ := hdel
          refine ⟨values, n + 1, hdec, ?_⟩
          simp [deliver, hdel, List.replicate_succ']
      | some values => exact ⟨values, 0, hdel.1, by simp [deliver, hdel.2]⟩
  · next error hs =>
      rw [hs] at hdel
      exact hdel
  · next hs =>
      rw [hs] at hdel
      rw [Job.Delivers]
      simp only [hs]
      exact hdel

/-- A point of a job moves on and leaves the memory alone. -/
theorem JobsOk.move (h : JobsOk m (P + R)) (hj : m.job j = some job)
    (hP : ∀ p ∈ P, StackPoint.owner p = some j) (hQ : ∀ q ∈ Q, StackPoint.owner q = some j)
    (hok : JobOk m.rejected (Q + R) j job) : JobsOk m (Q + R) :=
  h.carry hj hP hQ h.pools rfl rfl (by rw [← hj, Function.update_eq_self])
    (fun _ _ => Iff.rfl) hok

/-- The carrier of a job becomes another point, with the job as it is. -/
theorem JobsOk.become {q : StackPoint T} (h : JobsOk m ({p} + R))
    (hp : StackPoint.owner p = some j) (hq : StackPoint.owner q = some j)
    (hcarries : StackPoint.carries q = StackPoint.carries p)
    (hdispatches : StackPoint.dispatches q = StackPoint.dispatches p)
    (hfits : ∀ job, m.job j = some job → StackPoint.Fits (j ∈ m.rejected) job p →
      StackPoint.Fits (j ∈ m.rejected) job q) : JobsOk m ({q} + R) := by
  obtain ⟨job, hj⟩ := Option.ne_none_iff_exists'.mp (h.owned p (by simp) j hp)
  refine h.move hj (by simpa using hp) (by simpa using hq) ?_
  refine (h.job j job hj).late ?_ ?_ ?_
  · simp [hp, hq, hcarries]
  · simp [hp, hq, hdispatches]
  · intro q' hq'
    obtain rfl := Multiset.mem_singleton.mp hq'
    exact hfits job hj ((h.job j job hj).fits p (by simp) hp)

/-- Points that belong to no job come and go. -/
theorem JobsOk.exchange (h : JobsOk m (P + R)) (hP : ∀ p ∈ P, StackPoint.owner p = none)
    (hQ : ∀ q ∈ Q, StackPoint.owner q = none) : JobsOk m (Q + R) :=
  h.others hP hQ rfl rfl rfl rfl rfl

/-- A step of a call on the planner state leaves no point of a job. -/
theorem PlannerStep.owner {b : BackendId} {pm pm' : PlannerMem T} {code : PlannerCode T}
    {act : ClientAct (PlannerCode T) JobTask} (h : PlannerStep H b pm code pm' act) :
    ∀ q ∈ ((liftAct Code.planner (fun kind => (⟨0, kind⟩ : Task)) act).points :
      Soup (Code T) Task RejectCode), StackPoint.owner q = none := by
  intro q hq
  cases h <;> simp only [liftAct, ClientAct.points, Multiset.insert_eq_cons, Multiset.mem_cons,
    Multiset.mem_singleton, Multiset.notMem_zero] at hq
  case prepare => obtain rfl | rfl := hq <;> rfl
  all_goals subst hq
  all_goals rfl

/-- The points of a step, listed first. -/
theorem singleton_add_points {m : Mem T} {P : Soup (Code T) Task RejectCode}
    (h : JobsOk m (p ::ₘ P)) : JobsOk m ({p} + P) := by
  rwa [Multiset.singleton_add]

/-- `dispatch` returns an error, and its job never begins. -/
theorem JobsOk.refuse {code : Code T} {table : List JobId} (h : JobsOk m ({.code code} + R))
    (hcode : code = .dispatchInsert j ∨ ∃ error, code = .dispatchErr j error)
    (hj : m.job j = some job) :
    JobsOk { m.setJob j { job with dispatched := .refused } with table } (0 + R) := by
  have hok := h.job j job hj
  have hown : StackPoint.owner (.code code : StackPoint T) = some j := by
    rcases hcode with rfl | ⟨error, rfl⟩ <;> rfl
  have hw : StackPoint.carries (.code code : StackPoint T) = 1 := by
    rcases hcode with rfl | ⟨error, rfl⟩ <;> rfl
  have hd : StackPoint.dispatches (.code code : StackPoint T) = 1 := by
    rcases hcode with rfl | ⟨error, rfl⟩ <;> rfl
  have hwaits : job.Waits := by
    have hfits := hok.fits (.code code) (by simp) hown
    rcases hcode with rfl | ⟨error, rfl⟩ <;> exact hfits
  have hshare : share StackPoint.carries j {(.code code : StackPoint T)} = 1 := by
    simp [hown, hw]
  obtain ⟨hover, -⟩ := hok.carrier hshare
  have hpending : job.dispatched = .pending := by
    have hdis := hok.dispatching
    rw [share_add, share_singleton, if_pos hown, hd] at hdis
    by_contra hne
    rw [if_neg hne] at hdis
    omega
  have hset : { job with dispatched := .refused }.Settled (j ∈ m.rejected) := by
    rw [Job.Settled]
    simp only [hwaits.state_eq]
    exact ⟨hwaits.state_eq, hwaits.has, hwaits.calls_eq, hwaits.passed_eq⟩
  refine h.carry hj (by simpa using hown) (by simp) h.pools rfl rfl rfl (fun _ _ => Iff.rfl) ?_
  refine hok.carry hshare id ?_ ?_ (by simp) ?_ (fun _ => hset) fun hr => ?_
  · simp [Job.Over]
  · simp [hown, hd, hpending]
  · exact hok.sound.of_fields rfl rfl rfl hok.sound.orderly hok.sound.delivers
  · exact (hover (hok.rejected hr).isOver).elim

/-- `dispatch` creates a job. -/
theorem JobsOk.dispatchId {queries : List T.Query} {since : List ℕ} {seen version : Version T}
    (h : JobsOk m ({.code (.dispatchId queries since seen version)} + R)) (hseen : version = seen) :
    JobsOk { m.setJob m.nextJobId { version, queries, seen, since } with
      nextJobId := m.nextJobId + 1 } ({.code (.dispatchInsert m.nextJobId)} + R) := by
  have hnone := h.fresh m.nextJobId le_rfl
  have hown : ∀ p ∈ R, StackPoint.owner p ≠ some m.nextJobId := fun p hp ho =>
    h.owned p (by simp [hp]) _ ho hnone
  have hrej : m.nextJobId ∉ m.rejected := fun hr => h.rejected _ hr hnone
  refine ⟨h.pools, h.table, ?_, ?_, ?_, ?_⟩
  · intro i hi
    have hi : m.nextJobId + 1 ≤ i := hi
    have hne : i ≠ m.nextJobId := by omega
    rw [Mem.setJob_job, if_neg hne]
    exact h.fresh i (by omega)
  · intro p hp i ho
    rw [Mem.setJob_job]
    rcases Multiset.mem_add.mp hp with hp | hp
    · obtain rfl := Multiset.mem_singleton.mp hp
      obtain rfl : m.nextJobId = i := by simpa [StackPoint.owner, Code.owner] using ho
      simp
    · have hne : i ≠ m.nextJobId := fun he => hown p hp (he ▸ ho)
      rw [if_neg hne]
      exact h.owned p (by simp [hp]) i ho
  · intro i hi
    have hne : i ≠ m.nextJobId := fun he => hrej (he ▸ hi)
    rw [Mem.setJob_job, if_neg hne]
    exact h.rejected i hi
  · intro i job hi
    rw [Mem.setJob_job] at hi
    by_cases hij : i = m.nextJobId
    · subst hij
      rw [if_pos rfl] at hi
      obtain rfl := Option.some.inj hi
      exact .fresh hseen hown hrej
    · rw [if_neg hij] at hi
      refine (h.job i job hi).others Iff.rfl (by simp [StackPoint.owner, Code.owner]) ?_
      simpa [StackPoint.owner, Code.owner] using Ne.symm hij

/-- `dispatch` inserts its job into the table. -/
theorem JobsOk.dispatchInsert {table : List JobId} (h : JobsOk m ({.code (.dispatchInsert j)} + R))
    (hj : m.job j = some job) : JobsOk { m with table } ({.code (.dispatchSubmit j)} + R) := by
  have hbecome : JobsOk m ({.code (.dispatchSubmit j)} + R) :=
    h.become rfl rfl rfl rfl fun _ _ hf => hf
  exact hbecome.carry hj (by simp [StackPoint.owner, Code.owner])
    (by simp [StackPoint.owner, Code.owner]) h.pools rfl rfl
    (by rw [← hj, Function.update_eq_self]) (fun _ _ => Iff.rfl) (hbecome.job j job hj)

/-- `dispatch` submits the first task of its job. -/
theorem JobsOk.dispatchSubmit (h : JobsOk m ({.code (.dispatchSubmit j)} + R)) :
    JobsOk m
      ((ClientAct.submit (⟨j, .encode⟩ : Task) (Code.dispatchWait j : Code T)).points + R) := by
  obtain ⟨job, hj⟩ := Option.ne_none_iff_exists'.mp
    (h.owned (.code (.dispatchSubmit j)) (by simp) j rfl)
  refine h.move hj (by simp [StackPoint.owner, Code.owner])
    (by simp [StackPoint.owner, Code.owner]) ?_
  refine (h.job j job hj).late ?_ ?_ ?_
  · simp [StackPoint.owner, Code.owner, StackPoint.carries, Code.carries]
  · simp [StackPoint.owner, Code.owner, StackPoint.dispatches, Code.dispatches]
  · intro q hq
    have hf : job.Waits := (h.job j job hj).fits (.code (.dispatchSubmit j)) (by simp) rfl
    simp only [ClientAct.points, Multiset.insert_eq_cons, Multiset.mem_cons,
      Multiset.mem_singleton] at hq
    rcases hq with rfl | rfl
    · exact hf
    · exact trivial

/-- `dispatch` returns, and its job is on its way. -/
theorem JobsOk.dispatchOk (h : JobsOk m ({.code (.dispatchOk j)} + R)) (hj : m.job j = some job) :
    JobsOk (m.setJob j { job with dispatched := .accepted }) (0 + R) := by
  have hok := h.job j job hj
  have hpending : job.dispatched = .pending := by
    have hdis := hok.dispatching
    by_contra hne
    rw [if_neg hne] at hdis
    simp [StackPoint.owner, Code.owner, StackPoint.dispatches, Code.dispatches] at hdis
  have hover : { job with dispatched := .accepted }.Over ↔ job.Over := by
    simp [Job.Over, hpending]
  refine h.carry hj (by simp [StackPoint.owner, Code.owner]) (by simp) h.pools rfl rfl rfl
    (fun _ _ => Iff.rfl) ⟨?_, ?_, ?_, ?_, ?_, hok.rejected⟩
  · have hsum := hok.carried
    simpa [hover, StackPoint.carries, Code.carries] using hsum
  · have hdis := hok.dispatching
    simp only [share_add, share_singleton, hpending, StackPoint.owner, Code.owner,
      StackPoint.dispatches, Code.dispatches, if_true] at hdis
    simp only [share_add, share_zero, reduceCtorEq, if_false]
    omega
  · intro q hq
    rw [zero_add] at hq
    exact fun hown => (hok.fits q (by simp [hq]) hown).touch ⟨rfl, id⟩
  · exact hok.sound.of_fields rfl rfl rfl hok.sound.orderly hok.sound.delivers
  · exact fun ho => (hok.settled (hover.mp ho)).touch ⟨rfl, id⟩

/-- `collect` takes the result of the job. -/
theorem JobsOk.collectTake {self : ThreadId} {record taken : JobRecord T.Resolution}
    {result : BraidResult (List T.Resolution)} (h : JobsOk m ({.code (.collect j .take)} + R))
    (hj : m.job j = some job) (hrec : record = job.record ∨ record = job.record.unpark self)
    (ht : record.take = (taken, some result)) :
    JobsOk (m.setJob j
        { job with record := taken, delivered := deliver job.delivered result })
    ({.code (.collect j (.remove result))} + R) := by
  have hlike : Alike job.record taken := by
    have hlike := Alike.take ht
    rcases hrec with rfl | rfl
    · exact hlike
    · exact ⟨hlike.status, hlike.cancel⟩
  refine (h.touch hj hlike ((h.job j job hj).sound.take hrec ht)).exchange ?_ ?_ <;>
    simp [StackPoint.owner, Code.owner]

/-- `collect` parks, since the job has not ended. -/
theorem JobsOk.collectPark {self : ThreadId} {record taken : JobRecord T.Resolution}
    (h : JobsOk m ({.code (.collect j .take)} + R)) (hj : m.job j = some job)
    (hrec : record = job.record ∨ record = job.record.unpark self)
    (ht : record.take = (taken, none)) : JobsOk (m.setJob j { job with record := taken.park self })
    ({.code (.collect j .parked)} + R) := by
  have hlike := Alike.take ht
  have hlike' : Alike job.record (taken.park self) := by
    rcases hrec with rfl | rfl <;> exact ⟨hlike.status, hlike.cancel⟩
  have hstate : (taken.park self).state = job.record.state := by
    rw [JobRecord.take] at ht
    split at ht <;> simp only [Prod.mk.injEq, reduceCtorEq, and_false, and_true] at ht <;>
      obtain rfl := ht <;> obtain rfl | rfl := hrec <;> rfl
  refine (h.touch hj hlike' ?_).exchange ?_ ?_
  · have hdel := (h.job j job hj).sound.delivers
    rw [Job.Delivers] at hdel ⊢
    simpa only [hstate] using hdel
  all_goals simp [StackPoint.owner, Code.owner]

/-- A parked `collect` wakes up. -/
theorem JobsOk.collectWoken {self : ThreadId} {record : JobRecord T.Resolution}
    (h : JobsOk m ({.code (.collect j .parked)} + R)) (hj : m.job j = some job)
    (hrec : record = job.record ∨ record = job.record.unpark self) :
    JobsOk (m.setJob j { job with record }) ({.code (.collect j .take)} + R) := by
  have hstate : record.state = job.record.state := by obtain rfl | rfl := hrec <;> rfl
  have hlike : Alike job.record record := by
    rcases hrec with rfl | rfl <;> exact ⟨rfl, id⟩
  refine (h.touch hj hlike ?_).exchange ?_ ?_
  · have hdel := (h.job j job hj).sound.delivers
    rw [Job.Delivers] at hdel ⊢
    simpa only [hstate] using hdel
  all_goals simp [StackPoint.owner, Code.owner]

/-- **A step of the stack** keeps all jobs in order. -/
theorem JobsOk.step {self : ThreadId} {code : Code T} {act : ClientAct (Code T) Task}
    (h : JobsOk m ({.code code} + R)) (hstep : StackStep H self m code m' act)
    (hseen : ∀ queries since seen version,
      code = .dispatchId queries since seen version → version = seen) :
    JobsOk m' (act.points + R) := by
  cases hstep with
  | planner hp =>
      exact h.others (by simp [StackPoint.owner, Code.owner]) hp.owner rfl rfl rfl rfl rfl
  | dispatch | dispatchRead | read | dispatchClone | clone | collectRemove | retire | shutdown =>
      exact h.others (by simp [StackPoint.owner, Code.owner])
        (by simp [StackPoint.owner, Code.owner]) rfl rfl rfl rfl rfl
  | collectOn =>
      exact h.exchange (by simp [StackPoint.owner, Code.owner])
        (by simp [StackPoint.owner, Code.owner])
  | leave hcode =>
      refine h.exchange ?_ (by simp)
      cases code <;> first | exact hcode.elim | simp [StackPoint.owner, Code.owner]
  | dispatchId => exact h.dispatchId (hseen _ _ _ _ rfl)
  | insertPoisoned hj hp => simp [h.table] at hp
  | dispatchInsert hj => exact h.dispatchInsert hj
  | dispatchSubmit => exact h.dispatchSubmit
  | dispatchOk hj => exact h.dispatchOk hj
  | dispatchErr hj => exact h.refuse (.inr ⟨_, rfl⟩) hj
  | task hj hstep => exact h.task hj hstep
  | collectTake hj hrec ht => exact h.collectTake hj hrec ht
  | collectPark hj hrec ht => exact h.collectPark hj hrec ht
  | collectWoken hj hrec => exact h.collectWoken hj hrec
  | @cancel j job hj =>
      have hlike : Alike job.record { job.record with cancel := true } := ⟨rfl, fun _ => rfl⟩
      refine (h.touch hj hlike ?_).exchange ?_ ?_
      · exact (h.job j job hj).sound.delivers
      all_goals simp [StackPoint.owner, Code.owner]

/-- A step of a reject side keeps all jobs in order. -/
theorem JobsOk.reject {code : RejectCode} {next : Option RejectCode}
    (h : JobsOk m ({.rejecting code} + R)) (hstep : StackReject m code m' next) :
    JobsOk m' (next.elim 0 (fun next => {.rejecting next}) + R) := by
  cases hstep with
  | @on j point point' job job' pools hj hstep =>
      refine h.carry hj (by simp [StackPoint.owner]) (by simp [StackPoint.owner])
        (hstep.clean h.pools) rfl rfl rfl (fun _ _ => Iff.rfl) ?_
      exact (h.job j job hj).reject h.pools hstep rfl
  | @done j point job job' pools hj hstep =>
      refine h.carry hj (by simp [StackPoint.owner]) (by simp) (hstep.clean h.pools) rfl rfl rfl
        (fun i hij => by simp [hij]) ?_
      exact (h.job j job hj).reject h.pools hstep rfl
  | @gone j point hj => exact (h.owned (.rejecting ⟨j, point⟩) (by simp) j rfl hj).elim

/-- The executor refuses a task, and the call that submitted it returns the error. -/
theorem JobsOk.refused {code : Code T} {t : Task} (h : JobsOk m ({.task t, .code code} + R))
    (hs : Submits code t) :
    JobsOk m ({.code (resume code (.err .executorShutdown))} + R) := by
  have hmem : (.task t : StackPoint T) ∈ ({.task t, .code code} + R :
      Soup (Code T) Task RejectCode) := by simp
  obtain ⟨job, hj⟩ := Option.ne_none_iff_exists'.mp (h.owned (.task t) hmem t.job rfl)
  have hf := (h.job t.job job hj).fits (.task t) hmem rfl
  unfold Submits at hs
  split at hs
  · obtain rfl := hs
    refine h.move hj (by simp [StackPoint.owner, Code.owner])
      (by simp [StackPoint.owner, Code.owner, resume]) ((h.job _ job hj).late ?_ ?_ ?_)
    · simp [StackPoint.owner, Code.owner, StackPoint.carries, Code.carries, resume]
    · simp [StackPoint.owner, Code.owner, StackPoint.dispatches, Code.dispatches, resume]
    · intro q hq
      obtain rfl := Multiset.mem_singleton.mp hq
      exact hf
  · next t j next =>
      obtain ⟨rfl, hnext⟩ := hs
      refine h.move hj (by simp [StackPoint.owner, Code.owner])
        (by simp [StackPoint.owner, Code.owner, resume]) ((h.job _ job hj).late ?_ ?_ ?_)
      · cases next with
        | stage i => exact (hnext i rfl).elim
        | _ => simp [StackPoint.owner, Code.owner, StackPoint.carries, Code.carries, resume,
            JobCode.carries]
      · simp [StackPoint.owner, Code.owner, StackPoint.dispatches, Code.dispatches, resume]
      · intro q hq
        obtain rfl := Multiset.mem_singleton.mp hq
        cases next with
        | encode =>
            have hawait : JobTask.encode ≠ .encode :=
              (h.job j job hj).fits (.code (.task j (.await .encode))) (by simp) rfl
            exact (hawait rfl).elim
        | stage i => exact (hnext i rfl).elim
        | decode => exact ⟨rfl, hf⟩
  · exact hs.elim

/-- A call returns to the point that waits for it. -/
theorem JobsOk.returned {code : Code T} {r : CallResult} (h : JobsOk m ({.code code} + R))
    (hr : Returns m code r) : JobsOk m ({.code (resume code r)} + R) := by
  unfold Returns at hr
  split at hr
  · rcases hr with rfl | ⟨rfl, hj⟩
    · exact h.become rfl rfl rfl rfl fun _ _ _ => trivial
    · exact h.become rfl rfl rfl rfl fun _ _ _ => ⟨rfl, hj⟩
  · obtain rfl := hr
    exact h.become rfl rfl rfl rfl fun _ _ _ => trivial
  · obtain rfl := hr
    exact h.become rfl rfl rfl rfl fun _ _ _ => trivial
  · exact h.exchange (by simp [StackPoint.owner, Code.owner])
      (by simp [StackPoint.owner, Code.owner, resume])
  · exact h
  · exact h
  · exact hr.elim

/-- A hook belongs to no job. -/
theorem JobsOk.hook {code : Code T} (h : JobsOk m ({.hook code} + R)) : code.owner = none := by
  by_contra hne
  obtain ⟨j, hj⟩ := Option.ne_none_iff_exists'.mp hne
  obtain ⟨job, hjob⟩ := Option.ne_none_iff_exists'.mp (h.owned (.hook code) (by simp) j hj)
  exact (h.job j job hjob).fits (.hook code) (by simp) hj

/-- What `dispatch` has read is what it saw when it took the lock. -/
def Snapshots (P : Soup (Code T) Task RejectCode) : Prop :=
  ∀ queries since seen version,
    .code (.dispatchId queries since seen version) ∈ P → version = seen

/-- **Every step of the soup** keeps all jobs in order. -/
theorem jobsOk_step {v v' : SoupView (Mem T) (Code T) Task RejectCode} (h : JobsOk v.1 v.2)
    (hseen : Snapshots v.2) (hstep : SoupStep (stackContract H) v v') : JobsOk v'.1 v'.2 := by
  cases hstep with
  | idle => exact h
  | @step m m' code act i n R hs =>
      refine (singleton_add_points h).step (stackStep_cases hs) fun queries since seen version hc =>
        hseen queries since seen version ?_
      simp [hc]
  | rejectOn hs => exact (singleton_add_points h).reject (rejectStep_cases hs)
  | rejectDone hs =>
      have hdone := (singleton_add_points h).reject (rejectStep_cases hs)
      rwa [Option.elim_none, zero_add] at hdone
  | @run m t R =>
      obtain ⟨j, kind⟩ := t
      refine (singleton_add_points h).become rfl rfl ?_ rfl fun job _ hf => ?_
      · cases kind <;> rfl
      · cases kind with
        | stage i => exact hf.elim
        | _ => exact hf
  | @runScheduled m t R =>
      obtain ⟨j, kind⟩ := t
      refine (singleton_add_points h).become rfl rfl ?_ rfl fun job _ hf => ?_
      · cases kind <;> rfl
      · obtain ⟨i, rfl, hready⟩ := hf
        exact hready
  | @reject m t R =>
      obtain ⟨j, kind⟩ := t
      refine (singleton_add_points h).become rfl rfl rfl rfl fun job _ hf => ?_
      obtain ⟨i, rfl, hready⟩ := hf
      exact ⟨i, hready⟩
  | @hookRun m hook R =>
      have hown := (singleton_add_points h).hook
      have hrun := (singleton_add_points h).exchange (Q := {.code hook})
        (by simpa [StackPoint.owner] using hown) (by simpa [StackPoint.owner] using hown)
      rwa [Multiset.singleton_add] at hrun
  | @hookDrop m hook R =>
      have hown := (singleton_add_points h).hook
      have hdrop := (singleton_add_points h).exchange (Q := 0)
        (by simpa [StackPoint.owner] using hown) (by simp)
      rwa [zero_add] at hdrop
  | @refused m t code R hs =>
      refine JobsOk.refused ?_ hs
      rwa [Multiset.insert_eq_cons, Multiset.cons_add, Multiset.singleton_add]
  | returned hr => exact (singleton_add_points h).returned hr
  | @spawn m code R he =>
      have h0 : JobsOk m (0 + R) := by rwa [zero_add]
      have hcode : code.owner = none := by
        cases code <;> first | rfl | simp [stackClient, isEntry] at he
      have hspawn := h0.exchange (Q := {.code code}) (by simp)
        (by simpa [StackPoint.owner] using hcode)
      rwa [Multiset.singleton_add] at hspawn

/-- All jobs of a new stack are in order: there are none. -/
theorem jobsOk_create (b : BackendId) (state : T.State) (compiled : CompiledPlan T.PlannerMeta)
    (prepared : T.Prepared) : JobsOk (Mem.create b state compiled prepared) 0 :=
  ⟨⟨rfl, rfl⟩, rfl, fun _ _ => rfl, by simp, by simp [Mem.create], by simp [Mem.create]⟩

end JobsOk

end Braids.Runtime
