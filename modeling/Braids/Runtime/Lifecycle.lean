import Braids.Runtime.Updates

/-!
# The Life of a Job

The record of a job is written by its tasks, by the reject side of a task, by `cancel` and by
`collect`, in any order. Still it takes at most one way: queued, running, and one of the
three ends, or queued and cancelled (`Moves`). What is left of a job at its end is said by its
state.

## Main results

* `evolves_step`: every step lets every job evolve.
* `job_lifecycle`: the lifecycle of a job over every run.
-/

namespace Braids.Runtime

variable {T : Types} {H : Hooks T}

/-- The statuses in which a job is over. -/
def JobStatus.terminal : JobStatus → Bool
  | .queued | .running => false
  | .completed | .failed | .cancelled => true

/-- What may happen to the status of a job in one step. -/
inductive Moves : JobStatus → JobStatus → Prop
  | stay {status : JobStatus} : Moves status status
  | start : Moves .queued .running
  | cancel : Moves .queued .cancelled
  | finish {status : JobStatus} (h : status.terminal = true) : Moves .running status

/-- A status in which a job is over stays. -/
theorem Moves.terminal {status status' : JobStatus} (h : Moves status status')
    (hterm : status.terminal = true) : status' = status := by
  cases h with
  | stay => rfl
  | _ => simp [JobStatus.terminal] at hterm

/-- A record and its status end together. -/
theorem statusOf_terminal {ρ : Type} (r : JobRecord ρ) :
    (statusOf r).terminal = r.state.terminal := by
  rw [statusOf]
  split <;> simp_all [JobStatus.terminal, JobRecordState.terminal]

/-- What a job gives back, the pool receives. -/
def Job.Pooled (pools pools' : Pools) (job job' : Job T) : Prop :=
  job'.givenBack = job.givenBack ∨
    ∃ pkt, job'.givenBack = job.givenBack ++ [pkt] ∧ pools'.packets = pkt :: pools.packets

/-- Giving a packet back. A poisoned pool drops it. -/
theorem giveBackPacket_pooled {pools pools' : Pools} {job job' : Job T} {pkt : Packet}
    (h : giveBackPacket pools job pkt = (pools', job')) : job.Pooled pools pools' job' := by
  rw [giveBackPacket] at h
  split at h <;> rw [Prod.mk.injEq] at h <;> obtain ⟨rfl, rfl⟩ := h
  · exact .inl rfl
  · exact .inr ⟨pkt.cleared, rfl, rfl⟩

/-- What may happen to a job in one step. -/
structure Job.Evolves (pools pools' : Pools) (job job' : Job T) : Prop where
  moves : Moves (statusOf job.record) (statusOf job'.record)
  cancel : job.record.cancel = true → job'.record.cancel = true
  read : job.record.cancel = true → job.decodeRead ≠ some false → job'.decodeRead ≠ some false
  quiet : (job.record.state.terminal = true → job.record.wake = []) →
    (job'.record.state.terminal = true → job'.record.wake = [])
  pooled : job.Pooled pools pools' job'

section Steps

variable {b : BackendId} {pools pools' : Pools} {job job' : Job T} {code : JobCode T}
  {act : ClientAct (JobCode T) JobTask} {ended : Prop}

/-- A job whose record does not change evolves. -/
theorem Job.Evolves.of_record (hrecord : job'.record = job.record)
    (hread : job'.decodeRead = job.decodeRead) (hpooled : job.Pooled pools pools' job') :
    job.Evolves pools pools' job' :=
  ⟨by rw [hrecord]; exact .stay, by rw [hrecord]; exact id, by rw [hread]; exact fun _ => id,
    by rw [hrecord]; exact id, hpooled⟩

/-- Whoever finishes a job wakes its collectors. -/
theorem Job.Evolves.of_finish {record : JobRecord T.Resolution}
    (hmoves : Moves (statusOf job.record) (statusOf record)) (hwake : record.wake = [])
    (hcancel : record.cancel = job.record.cancel) : job.Evolves pools pools' { job with record } :=
  ⟨hmoves, by rw [hcancel]; exact id, fun _ => id, fun _ _ => hwake, .inl rfl⟩

/-- `run_caught` with an error ends a job that may fail. -/
theorem Job.Fails.evolves {error : BraidError} {custody : Custody}
    (h : job.Fails error custody) (hs : job.Sound) :
    job.Evolves pools pools' (job.finishWith error) := by
  unfold Job.finishWith
  rw [if_neg (by simp [hs.unpoisoned])]
  obtain ⟨-, -, hstate | ⟨hstate, rfl, -⟩⟩ := h
  · have hrun : statusOf job.record = .running := statusOf_eq_running.mpr hstate
    cases error <;> exact .of_finish (hrun ▸ .finish rfl) rfl rfl
  · have hqueued : statusOf job.record = .queued := statusOf_eq_queued.mpr hstate
    exact .of_finish (hqueued ▸ .cancel) rfl rfl

/-- A second end leaves a rejected job failed. -/
theorem Job.Rejected.evolves (h : job.Rejected) (hs : job.Sound) :
    job.Evolves pools pools' (job.finishWith .executorShutdown) := by
  unfold Job.finishWith
  rw [if_neg (by simp [hs.unpoisoned])]
  obtain ⟨⟨error, hstate⟩, -⟩ := h
  have hfailed : statusOf job.record = .failed := by simp [statusOf, hstate]
  exact .of_finish (hfailed ▸ .stay) rfl rfl

/-- **A task step** lets its job evolve. -/
theorem JobStep.evolves (h : JobStep H b pools job code pools' job' act) (hc : pools.Clean)
    (hs : job.Sound) (hf : code.Fits ended job) (hrej : ended → job.Rejected) :
    job.Evolves pools pools' job' := by
  cases h with
  | mark =>
      have hqueued : statusOf job.record = .queued := statusOf_eq_queued.mpr hf.state_eq
      exact .of_finish (hqueued ▸ .start) rfl rfl
  | completed =>
      obtain ⟨-, -, n, -, hat⟩ := hf
      have hrun : statusOf job.record = .running := statusOf_eq_running.mpr hat.state_eq
      exact .of_finish (hrun ▸ .finish rfl) rfl rfl
  | stagePanicked | stageFailed | stagePassed =>
      exact ⟨.stay, fun hcancel => by simp [hcancel], fun _ => id, id, .inl rfl⟩
  | decodeCancelled => exact ⟨.stay, id, fun _ _ => by simp, id, .inl rfl⟩
  | decode h =>
      refine ⟨.stay, id, fun hcancel => ?_, id, .inl rfl⟩
      simp [h] at hcancel
  | recycle h | giveBackOk _ h | giveBackPoisoned _ h | giveBackErr h | cleanup h =>
      have hpooled := giveBackPacket_pooled h
      obtain ⟨-, rfl⟩ := giveBackPacket_spec hc.packets h
      exact .of_record rfl rfl hpooled
  | @finish again error =>
      cases again with
      | true =>
          obtain ⟨rfl, hover⟩ := hf
          exact (hrej hover).evolves hs
      | false =>
          obtain ⟨custody, -, hfails⟩ := hf
          exact hfails.evolves hs
  | _ => exact .of_record rfl rfl (.inl rfl)

/-- **A step of a reject side** lets its job evolve. -/
theorem RejectStep.evolves {point : RejectPoint} {next : Option RejectPoint}
    (h : RejectStep pools job point pools' job' next) (hc : pools.Clean) (hf : point.Fits job) :
    job.Evolves pools pools' job' := by
  cases h with
  | giveBack h =>
      have hpooled := giveBackPacket_pooled h
      obtain ⟨-, rfl⟩ := giveBackPacket_spec hc.packets h
      exact .of_record rfl rfl hpooled
  | fail =>
      have hrun : statusOf job.record = .running := statusOf_eq_running.mpr hf.1
      exact .of_finish (hrun ▸ .finish rfl) rfl rfl
  | _ => exact .of_record rfl rfl (.inl rfl)

end Steps

section Stack

variable {m m' : Mem T} {R : Soup (Code T) Task RejectCode}

/-- The jobs after one of them evolved. -/
theorem Mem.evolves_setJob {j i : JobId} {job job' old : Job T} {pools pools' : Pools}
    (hj : m.job j = some job) (h : job.Evolves pools pools' job') (hi : m.job i = some old) :
    ∃ new, (m.setJob j job').job i = some new ∧ old.Evolves pools pools' new := by
  rw [Mem.setJob_job]
  by_cases hij : i = j
  · subst hij
    obtain rfl := Option.some.inj (hi.symm.trans hj)
    exact ⟨job', if_pos rfl, h⟩
  · exact ⟨old, by rw [if_neg hij, hi], .of_record rfl rfl (.inl rfl)⟩

/-- Taking from a record lets the job evolve. -/
theorem Job.Evolves.of_take {job : Job T} {record taken : JobRecord T.Resolution}
    {self : ThreadId} {result : Option (BraidResult (List T.Resolution))}
    {delivered : List (List T.Resolution)} {pools pools' : Pools}
    (hrec : record = job.record ∨ record = job.record.unpark self)
    (h : record.take = (taken, result)) :
    job.Evolves pools pools' { job with record := taken, delivered } := by
  have hlike : Alike job.record taken := by
    have hlike := Alike.take h
    rcases hrec with rfl | rfl
    · exact hlike
    · exact ⟨hlike.status, hlike.cancel⟩
  have hwake : taken.wake = record.wake := by
    rw [JobRecord.take] at h
    split at h <;> simp only [Prod.mk.injEq] at h <;> obtain ⟨rfl, -⟩ := h <;> rfl
  refine ⟨by rw [hlike.status]; exact .stay, hlike.cancel, fun _ => id, fun hquiet hterm => ?_,
    .inl rfl⟩
  have hempty := hquiet (hlike.terminal ▸ hterm)
  change taken.wake = []
  rw [hwake]
  rcases hrec with rfl | rfl
  · exact hempty
  · simp [JobRecord.unpark, hempty]

/-- Only a job that is not over makes a collector wait. -/
theorem Job.Evolves.of_park {job : Job T} {record taken : JobRecord T.Resolution}
    {self : ThreadId} {pools pools' : Pools}
    (hrec : record = job.record ∨ record = job.record.unpark self)
    (h : record.take = (taken, none)) :
    job.Evolves pools pools' { job with record := taken.park self } := by
  have hlive : taken.state.terminal = false := by
    rw [JobRecord.take] at h
    split at h <;> simp only [Prod.mk.injEq, reduceCtorEq, and_false, and_true] at h <;>
      obtain rfl := h <;> simp_all [JobRecordState.terminal]
  have htake : job.Evolves pools pools' { job with record := taken } := .of_take hrec h
  refine ⟨htake.moves, htake.cancel, fun _ => id, fun _ hterm => ?_, .inl rfl⟩
  have hterm : taken.state.terminal = true := hterm
  simp [hlive] at hterm

/-- **A step of the stack** lets every job evolve. -/
theorem StackStep.evolves {self : ThreadId} {code : Code T} {act : ClientAct (Code T) Task}
    (hok : JobsOk m ({.code code} + R)) (h : StackStep H self m code m' act) {i : JobId}
    {old : Job T} (hi : m.job i = some old) :
    ∃ new, m'.job i = some new ∧ old.Evolves m.pools m'.pools new := by
  have hsame : ∃ new, m.job i = some new ∧ old.Evolves m.pools m.pools new :=
    ⟨old, hi, .of_record rfl rfl (.inl rfl)⟩
  cases h with
  | dispatchId =>
      have hne : i ≠ m.nextJobId := by
        rintro rfl
        simp [hok.fresh _ le_rfl] at hi
      refine ⟨old, ?_, .of_record rfl rfl (.inl rfl)⟩
      change (m.setJob _ _).job i = some old
      rw [Mem.setJob_job, if_neg hne, hi]
  | insertPoisoned hj | dispatchOk hj | dispatchErr hj =>
      exact Mem.evolves_setJob hj (.of_record rfl rfl (.inl rfl)) hi
  | @task j code job job' pools act hj hstep =>
      have hjob := hok.job j job hj
      have hf := hjob.fits (.code (.task j code)) (by simp) rfl
      exact Mem.evolves_setJob hj (hstep.evolves hok.pools hjob.sound hf hjob.rejected) hi
  | collectTake hj hrec ht => exact Mem.evolves_setJob hj (.of_take hrec ht) hi
  | collectPark hj hrec ht => exact Mem.evolves_setJob hj (.of_park hrec ht) hi
  | collectWoken hj hrec hw =>
      refine Mem.evolves_setJob hj ?_ hi
      rcases hrec with rfl | rfl
      · exact .of_record rfl rfl (.inl rfl)
      · refine ⟨.stay, id, fun _ => id, fun hquiet hterm => ?_, .inl rfl⟩
        simp [JobRecord.unpark, hquiet hterm]
  | cancel hj =>
      exact Mem.evolves_setJob hj ⟨.stay, fun _ => rfl, fun _ => id, id, .inl rfl⟩ hi
  | _ => exact hsame

/-- **A step of a reject side** lets every job evolve. -/
theorem StackReject.evolves {code : RejectCode} {next : Option RejectCode}
    (hok : JobsOk m ({.rejecting code} + R)) (h : StackReject m code m' next) {i : JobId}
    {old : Job T} (hi : m.job i = some old) :
    ∃ new, m'.job i = some new ∧ old.Evolves m.pools m'.pools new := by
  cases h with
  | @on j point next job job' pools hj hstep | @done j point job job' pools hj hstep =>
      have hf : point.Fits job := (hok.job j job hj).fits (.rejecting ⟨j, point⟩) (by simp) rfl
      exact Mem.evolves_setJob hj (hstep.evolves hok.pools hf) hi
  | gone => exact ⟨old, hi, .of_record rfl rfl (.inl rfl)⟩

/-- **Every step of the soup** lets every job evolve. -/
theorem evolves_step {v v' : SoupView (Mem T) (Code T) Task RejectCode} (h : JobsOk v.1 v.2)
    (hstep : SoupStep (stackContract H) v v') {i : JobId} {old : Job T}
    (hi : v.1.job i = some old) :
    ∃ new, v'.1.job i = some new ∧ old.Evolves v.1.pools v'.1.pools new := by
  cases hstep with
  | step hs => exact (stackStep_cases hs).evolves (singleton_add_points h) hi
  | rejectOn hs | rejectDone hs =>
      exact (rejectStep_cases hs).evolves (singleton_add_points h) hi
  | _ => exact ⟨old, hi, .of_record rfl rfl (.inl rfl)⟩

/-- **A new job** is the one that `dispatch` creates. -/
theorem fresh_step {v v' : SoupView (Mem T) (Code T) Task RejectCode}
    (hstep : SoupStep (stackContract H) v v') {i : JobId} {job' : Job T}
    (hnone : v.1.job i = none) (hi : v'.1.job i = some job') :
    ∃ version queries seen since, job' = { version, queries, seen, since } := by
  cases hstep with
  | step hs =>
      obtain ⟨job, hold, -⟩ | ⟨queries, since, seen, version, -, rfl⟩ := (stackStep_cases hs).job hi
      · exact (Option.some_ne_none _ (hold.symm.trans hnone)).elim
      · exact ⟨version, queries, seen, since, rfl⟩
  | rejectOn hs | rejectDone hs =>
      obtain ⟨job, hold, -⟩ := (rejectStep_cases hs).job hi
      exact (Option.some_ne_none _ (hold.symm.trans hnone)).elim
  | _ => exact (Option.some_ne_none _ (hi.symm.trans hnone)).elim

end Stack

/-! ### Over whole runs -/

section Runs

variable {s : MachineState (Mem T) (Code T) Task RejectCode}

/-- Nobody waits for a job that is over. -/
theorem wake_eq_nil (h : Reached H s) {j : JobId} {job : Job T}
    (hj : s.shared.client.job j = some job) (hterm : job.record.state.terminal = true) :
    job.record.wake = [] := by
  refine h.invariant (I := fun v => ∀ j job, v.1.job j = some job →
    job.record.state.terminal = true → job.record.wake = []) ?_ ?_ j job hj hterm
  · simp [Mem.create]
  · intro v v' _ hjobs hquiet hstep j job' hj' hterm
    cases hold : v.1.job j with
    | none =>
        obtain ⟨_, _, _, _, rfl⟩ := fresh_step hstep hold hj'
        rfl
    | some job =>
        obtain ⟨new, hnew, hevolves⟩ := evolves_step hjobs hstep hold
        obtain rfl := Option.some.inj (hj'.symm.trans hnew)
        exact hevolves.quiet (hquiet j job hold) hterm

/-- A job that is over stays as it ended. -/
theorem status_stays (h : Reached H s) {s' : MachineState (Mem T) (Code T) Task RejectCode}
    (h' : Later H s s') {j : JobId} {job : Job T} (hj : s.shared.client.job j = some job)
    (hterm : (statusOf job.record).terminal = true) :
    ∃ job', s'.shared.client.job j = some job' ∧ statusOf job'.record = statusOf job.record := by
  refine h.grows (R := fun v v' => ∀ job, v.1.job j = some job →
    (statusOf job.record).terminal = true →
      ∃ job', v'.1.job j = some job' ∧ statusOf job'.record = statusOf job.record)
    (fun v job hj _ => ⟨job, hj, rfl⟩) ?_ ?_ h' job hj hterm
  · intro u v w huv hvw job hj hterm
    obtain ⟨job', hj', hsame⟩ := huv job hj hterm
    obtain ⟨job'', hj'', hsame'⟩ := hvw job' hj' (hsame ▸ hterm)
    exact ⟨job'', hj'', hsame'.trans hsame⟩
  · intro v v' _ hjobs hstep job hj hterm
    obtain ⟨job', hj', hevolves⟩ := evolves_step hjobs hstep hj
    exact ⟨job', hj', hevolves.moves.terminal hterm⟩

/-- A cancel that `decode_step` has not missed stays so. -/
theorem cancel_stays (h : Reached H s) {s' : MachineState (Mem T) (Code T) Task RejectCode}
    (h' : Later H s s') {j : JobId} {job : Job T} (hj : s.shared.client.job j = some job)
    (hcancel : job.record.cancel = true) (hread : job.decodeRead ≠ some false) :
    ∃ job', s'.shared.client.job j = some job' ∧ job'.record.cancel = true ∧
      job'.decodeRead ≠ some false := by
  refine h.grows (R := fun v v' => ∀ job, v.1.job j = some job → job.record.cancel = true →
    job.decodeRead ≠ some false → ∃ job', v'.1.job j = some job' ∧
      job'.record.cancel = true ∧ job'.decodeRead ≠ some false)
    (fun v job hj hc hr => ⟨job, hj, hc, hr⟩) ?_ ?_ h' job hj hcancel hread
  · intro u v w huv hvw job hj hc hr
    obtain ⟨job', hj', hc', hr'⟩ := huv job hj hc hr
    exact hvw job' hj' hc' hr'
  · intro v v' _ hjobs hstep job hj hc hr
    obtain ⟨job', hj', hevolves⟩ := evolves_step hjobs hstep hj
    exact ⟨job', hj', hevolves.cancel hc, hevolves.read hc hr⟩

/-- A completed job has passed all its steps and was not cancelled in time. -/
theorem Reached.completed (h : Reached H s) {j : JobId} {job : Job T}
    (hj : s.shared.client.job j = some job) (hstatus : statusOf job.record = .completed) :
    job.Has .givenBack ∧ job.decodeRead = some false ∧ job.passed = job.version.steps ∧
      ∃ n, job.checkedOut = [n] ∧ job.calls = job.script n := by
  have hok := (inOrder h).2.job j job hj
  have hset : job.Settled (j ∈ s.shared.client.rejected) :=
    hok.settled (.inl (by rw [← statusOf_terminal, hstatus]; rfl))
  rw [Job.Settled] at hset
  rw [statusOf] at hstatus
  split at hstatus <;> simp_all

/-- A closed custody without a panic: the packet was never there, or it is back in the pool. -/
theorem Custody.Closed.returned {job : Job T} {custody : Custody} (hclosed : custody.Closed)
    (hhas : job.Has custody) (hpanic : job.panicked = false) :
    job.packet = none ∧ job.packetLock = .free ∧ job.holding = none ∧
      ((job.checkedOut = [] ∧ job.givenBack = []) ∨
        ∃ pkt : Packet, job.checkedOut = [pkt.serial] ∧ job.givenBack = [pkt.cleared] ∧
          pkt.cleared.data.Cleared) := by
  cases custody with
  | untouched =>
      obtain ⟨-, hlock, hpkt, hhold, hout, hback⟩ := hhas
      exact ⟨hpkt, hlock, hhold, .inl ⟨hout, hback⟩⟩
  | givenBack =>
      obtain ⟨-, hlock, hpkt, hhold, pkt, hout, hback⟩ := hhas
      exact ⟨hpkt, hlock, hhold, .inr ⟨pkt, hout, hback, pkt.data.cleared_clearForReuse⟩⟩
  | lost | buried => simp [hhas.1] at hpanic
  | _ => exact hclosed.elim

/-- A job that is over has no packet to give back any more. -/
theorem Reached.packet (h : Reached H s) {j : JobId} {job : Job T}
    (hj : s.shared.client.job j = some job) (hterm : (statusOf job.record).terminal = true) :
    ∃ custody : Custody, custody.Closed ∧ job.Has custody := by
  have hok := (inOrder h).2.job j job hj
  rw [statusOf_terminal] at hterm
  have hset : job.Settled (j ∈ s.shared.client.rejected) := hok.settled (.inl hterm)
  rw [Job.Settled] at hset
  split at hset
  · next hs => simp [hs, JobRecordState.terminal] at hterm
  · exact hset.elim
  · exact ⟨.givenBack, trivial, hset.1⟩
  · exact hset.1
  · exact hset.1

/-- A collector that waits for a job that is over can go on. -/
theorem Reached.unparked (h : Reached H s) {j : JobId} {job : Job T}
    (hj : s.shared.client.job j = some job) (hterm : (statusOf job.record).terminal = true)
    (self : ThreadId) (n : ℕ) :
    ∃ m', stackStep H self n s.shared.client (.collect j .parked) =
      some (m', .goto (.collect j .take)) := by
  rw [statusOf_terminal] at hterm
  have hwake := wake_eq_nil h hj hterm
  have hpoison := ((inOrder h).2.job j job hj).sound.unpoisoned
  have hout : self ∉ (if n % 2 = 0 then job.record else job.record.unpark self).wake := by
    split <;> simp [JobRecord.unpark, hwake]
  simp only [stackStep, hj, collectJob, hpoison, collectStep, if_neg hout]
  exact ⟨_, rfl⟩

end Runs

/-- The lifecycle of the jobs of a stack in a state. -/
structure JobLifecycle (H : Hooks T)
    (s : MachineState (Mem T) (Code T) Task RejectCode) : Prop where
  /-- The status of a job moves one way. -/
  moves : ∀ a s', machineStep (stackClient H) s a = some s' →
    ∀ j job, s.shared.client.job j = some job →
      ∃ job', s'.shared.client.job j = some job' ∧
        Moves (statusOf job.record) (statusOf job'.record)
  /-- A new job is queued. -/
  starts : ∀ a s', machineStep (stackClient H) s a = some s' →
    ∀ j job', s.shared.client.job j = none → s'.shared.client.job j = some job' →
      statusOf job'.record = .queued
  /-- A job that is over stays as it ended. -/
  stays : ∀ s', Later H s s' → ∀ j job, s.shared.client.job j = some job →
    (statusOf job.record).terminal = true →
      ∃ job', s'.shared.client.job j = some job' ∧ statusOf job'.record = statusOf job.record
  /-- A completed job has passed the encode, all stages and the decode. -/
  completed : ∀ j job, s.shared.client.job j = some job → statusOf job.record = .completed →
    job.passed = job.version.steps
  /-- A job that is cancelled before `decode_step` looks never completes. -/
  cancelled : ∀ j job, s.shared.client.job j = some job → job.record.cancel = true →
    job.decodeRead ≠ some false → ∀ s', Later H s s' →
      ∀ job', s'.shared.client.job j = some job' → statusOf job'.record ≠ .completed
  /-- Nobody waits for a job that is over. -/
  unparked : ∀ j job, s.shared.client.job j = some job →
    (statusOf job.record).terminal = true → job.record.wake = [] ∧
      ∀ self n, ∃ m', stackStep H self n s.shared.client (.collect j .parked) =
        some (m', .goto (.collect j .take))
  /-- Whatever a job gives back, the pool receives in the same step. -/
  pooled : ∀ a s', machineStep (stackClient H) s a = some s' →
    ∀ j job job', s.shared.client.job j = some job → s'.shared.client.job j = some job' →
      job'.givenBack ≠ job.givenBack → ∃ pkt, job'.givenBack = job.givenBack ++ [pkt] ∧
        s'.shared.client.pools.packets = pkt :: s.shared.client.pools.packets
  /-- The packet of a job that is over is cleared and back in the pool. -/
  packet : ∀ j job, s.shared.client.job j = some job → (statusOf job.record).terminal = true →
    job.panicked = false → job.packet = none ∧ job.packetLock = .free ∧ job.holding = none ∧
      ((job.checkedOut = [] ∧ job.givenBack = []) ∨
        ∃ pkt : Packet, job.checkedOut = [pkt.serial] ∧ job.givenBack = [pkt.cleared] ∧
          pkt.cleared.data.Cleared)

/-- **The lifecycle of a job** over every run. -/
theorem job_lifecycle {s : MachineState (Mem T) (Code T) Task RejectCode} (h : Reached H s) :
    JobLifecycle H s where
  moves a s' hstep j job hj := by
    obtain ⟨job', hj', hevolves⟩ := evolves_step (inOrder h).2 (h.soup_step hstep) hj
    exact ⟨job', hj', hevolves.moves⟩
  starts a s' hstep j job' hnone hj' := by
    obtain ⟨_, _, _, _, rfl⟩ := fresh_step (h.soup_step hstep) hnone hj'
    rfl
  stays s' h' j job hj hterm := status_stays h h' hj hterm
  completed j job hj hstatus := (h.completed hj hstatus).2.2.1
  cancelled j job hj hcancel hread s' h' job' hj' hstatus := by
    obtain ⟨new, hnew, -, hmissed⟩ := cancel_stays h h' hj hcancel hread
    obtain rfl := Option.some.inj (hj'.symm.trans hnew)
    exact hmissed ((h.later h').completed hj' hstatus).2.1
  unparked j job hj hterm :=
    ⟨wake_eq_nil h hj (statusOf_terminal job.record ▸ hterm), h.unparked hj hterm⟩
  pooled a s' hstep j job job' hj hj' hne := by
    obtain ⟨new, hnew, hevolves⟩ := evolves_step (inOrder h).2 (h.soup_step hstep) hj
    obtain rfl := Option.some.inj (hj'.symm.trans hnew)
    exact hevolves.pooled.resolve_left hne
  packet j job hj hterm hpanic := by
    obtain ⟨custody, hclosed, hhas⟩ := h.packet hj hterm
    exact hclosed.returned hhas hpanic

/-- A job is dispatched, and the worker takes it to its end. -/
def counterJob : List (Action (Code counter)) :=
  [.register 1 1, .spawn (.dispatch [7])] ++ List.replicate 12 (.step 1 0) ++
    List.replicate 44 (.step 0 0)

/-- The job has completed, and its lifecycle is as it should be. -/
theorem job_lifecycle_counter :
    ((counterAfter counterJob).shared.client.job 1).map (statusOf ·.record) = some .completed ∧
      JobLifecycle counterHooks (counterAfter counterJob) :=
  ⟨rfl, job_lifecycle (counterAfter_reached rfl)⟩

end Braids.Runtime
