import Braids.Runtime.Versions

/-!
# Updates Are Transactions

The properties of `update` and `recompile` over whole runs of a stack: a call that fails
leaves everything as it was, one that succeeds publishes the compilation of the state it
held, and versions are published in order.

## Main results

* `inOrder`: in every reachable state all jobs and all versions are in order.
* `ids_exact`: while the counters have not wrapped around, ids are what they are in 64 bits.
* `updates_transactional`: updates are transactions, and versions are published in order.
-/

namespace Braids.Runtime

variable {T : Types} {H : Hooks T}

/-- A state that a run of a stack with the hooks reaches. -/
abbrev Reached (H : Hooks T) (s : MachineState (Mem T) (Code T) Task RejectCode) : Prop :=
  ∃ m, m.Created ∧ Lts.Reach (Started m) (machineStep (stackClient H)) s

/-- A state that a run reaches from another one. -/
abbrev Later (H : Hooks T) (s : MachineState (Mem T) (Code T) Task RejectCode) :
    MachineState (Mem T) (Code T) Task RejectCode → Prop :=
  Lts.Reach (· = s) (machineStep (stackClient H))

/-- What is reached later is reached. -/
theorem Reached.later {s s' : MachineState (Mem T) (Code T) Task RejectCode}
    (h : Reached H s) (h' : Later H s s') : Reached H s' := by
  obtain ⟨m, hm, hr⟩ := h
  exact ⟨m, hm, hr.trans h'⟩

/-- **All jobs and all versions are in order** in every reachable state. -/
theorem inOrder {s : MachineState (Mem T) (Code T) Task RejectCode} (h : Reached H s) :
    VersionsOk H s.shared.client s.soup ∧ JobsOk s.shared.client s.soup := by
  obtain ⟨m, ⟨b, state, compiled, prepared, rfl⟩, hr⟩ := h
  refine soup_invariant (stackContract H)
    (P := fun v => VersionsOk H v.1 v.2 ∧ JobsOk v.1 v.2)
    ⟨versionsOk_create b state compiled prepared, jobsOk_create b state compiled prepared⟩
    (fun v v' hv hstep => ⟨versionsOk_step hv.1 hstep, jobsOk_step hv.2 ?_ hstep⟩) hr
  exact fun queries since seen version hp => (hv.1.planner.sees _ hp).1

/-- A step between reachable states is a step of the soup. -/
theorem Reached.soup_step {s s' : MachineState (Mem T) (Code T) Task RejectCode}
    {a : Action (Code T)} (h : Reached H s)
    (hstep : machineStep (stackClient H) s a = some s') :
    SoupStep (stackContract H) (s.shared.client, s.soup) (s'.shared.client, s'.soup) := by
  obtain ⟨m, -, hr⟩ := h
  exact Braids.soup_step hr hstep

/-- What every step of the soup between states in order keeps holds in every reachable
state. -/
theorem Reached.invariant {I : SoupView (Mem T) (Code T) Task RejectCode → Prop}
    (h0 : ∀ b state compiled prepared, I (Mem.create b state compiled prepared, 0))
    (hstep : ∀ v v', VersionsOk H v.1 v.2 → JobsOk v.1 v.2 → I v →
      SoupStep (stackContract H) v v' → I v')
    {s : MachineState (Mem T) (Code T) Task RejectCode} (h : Reached H s) :
    I (s.shared.client, s.soup) := by
  obtain ⟨m, ⟨b, state, compiled, prepared, rfl⟩, hr⟩ := h
  have hall := soup_invariant (stackContract H)
    (P := fun v => (VersionsOk H v.1 v.2 ∧ JobsOk v.1 v.2) ∧ I v)
    ⟨⟨versionsOk_create b state compiled prepared, jobsOk_create b state compiled prepared⟩,
      h0 b state compiled prepared⟩
    (fun v v' hv hs => ⟨⟨versionsOk_step hv.1.1 hs, jobsOk_step hv.1.2
      (fun queries since seen version hp => (hv.1.1.planner.sees _ hp).1) hs⟩,
      hstep v v' hv.1.1 hv.1.2 hv.2 hs⟩) hr
  exact hall.2

/-- What every step of the soup from a state in order lets grow has grown later. -/
theorem Reached.grows {R : SoupView (Mem T) (Code T) Task RejectCode →
      SoupView (Mem T) (Code T) Task RejectCode → Prop}
    (hrefl : ∀ v, R v v) (htrans : ∀ u v w, R u v → R v w → R u w)
    (hstep : ∀ v v', VersionsOk H v.1 v.2 → JobsOk v.1 v.2 → SoupStep (stackContract H) v v' →
      R v v')
    {s s' : MachineState (Mem T) (Code T) Task RejectCode} (h : Reached H s)
    (h' : Later H s s') : R (s.shared.client, s.soup) (s'.shared.client, s'.soup) := by
  obtain ⟨m, hm, hr⟩ := h
  refine Lts.ReachBy.grows
    (R := fun s s' => R (s.shared.client, s.soup) (s'.shared.client, s'.soup))
    (fun _ => hrefl _) (fun _ _ _ => htrans _ _ _) (fun t a t' ht _ hs => ?_) hr h'
  have hreached : Reached H t := ⟨m, hm, ht⟩
  obtain ⟨hversions, hjobs⟩ := inOrder hreached
  exact hstep _ _ hversions hjobs (hreached.soup_step hs)

/-! ### Ids of 64 bits -/

/-- Fewer than `2 ^ 64` ids have been drawn: `next_version_id` and `next_job_id`, which are
`AtomicU64`, have not wrapped around to an id that was drawn before. -/
structure Mem.IdsFit (m : Mem T) : Prop where
  versions : m.planner.nextVersionId ≤ 2 ^ 64
  jobs : m.nextJobId ≤ 2 ^ 64

/-- The ids in 64 bits are the ids, and versions are still published in their order. -/
structure IdsExact (m : Mem T) : Prop where
  versions : ∀ id ∈ m.planner.published, (UInt64.ofNat id).toNat = id
  increasing : (m.planner.published.map UInt64.ofNat).Pairwise (· < ·)
  jobs : ∀ j job, m.job j = some job → (UInt64.ofNat j).toNat = j

/-- **Ids are exact** while the counters have not wrapped around. -/
theorem ids_exact {s : MachineState (Mem T) (Code T) Task RejectCode} (h : Reached H s)
    (hfit : s.shared.client.IdsFit) : IdsExact s.shared.client := by
  obtain ⟨hversions, hjobs⟩ := inOrder h
  have hpublished : ∀ id ∈ s.shared.client.planner.published, (UInt64.ofNat id).toNat = id := by
    intro id hid
    have hlt := hversions.planner.issued id hid
    exact UInt64.toNat_ofNat_of_lt' (hlt.trans_le hfit.versions)
  refine ⟨hpublished, ?_, fun j job hj => ?_⟩
  · rw [List.pairwise_map]
    refine hversions.planner.increasing.imp_of_mem fun hid hid' hlt => ?_
    rwa [UInt64.lt_iff_toNat_lt, hpublished _ hid, hpublished _ hid']
  · have hlt : j < s.shared.client.nextJobId := by
      by_contra hge
      simp [hjobs.fresh j (Nat.le_of_not_lt hge)] at hj
    exact UInt64.toNat_ofNat_of_lt' (hlt.trans_le hfit.jobs)

/-! ### Growth of what is published -/

/-- What grows while calls work on the planner state. -/
structure PlannerMem.Grows (m m' : PlannerMem T) : Prop where
  id : m.currentVersionId ≤ m'.currentVersionId
  published : m.published <+: m'.published
  returned : m.returned <+: m'.returned

/-- Nothing shrinks when nothing happens. -/
theorem PlannerMem.Grows.refl (m : PlannerMem T) : m.Grows m :=
  ⟨le_rfl, List.prefix_rfl, List.prefix_rfl⟩

/-- Growth adds up. -/
theorem PlannerMem.Grows.trans {m m' m'' : PlannerMem T} (h : m.Grows m') (h' : m'.Grows m'') :
    m.Grows m'' :=
  ⟨h.id.trans h'.id, h.published.trans h'.published, h.returned.trans h'.returned⟩

/-- A step of a call on the planner state lets it grow. -/
theorem PlannerStep.grows {b : BackendId} {m m' : PlannerMem T} {code : PlannerCode T}
    {act : ClientAct (PlannerCode T) JobTask} (h : PlannerStep H b m code m' act)
    (hf : code.Fits H m) : m.Grows m' := by
  cases h with
  | swap => exact ⟨le_rfl, List.prefix_append _ _, List.prefix_rfl⟩
  | storeId => exact ⟨hf.2.2.2, List.prefix_rfl, List.prefix_rfl⟩
  | commit | fail => exact ⟨le_rfl, List.prefix_rfl, List.prefix_append _ _⟩
  | _ => exact ⟨le_rfl, List.prefix_rfl, List.prefix_rfl⟩

/-- A step of the stack lets the planner state grow. -/
theorem StackStep.grows {self : ThreadId} {m m' : Mem T} {code : Code T}
    {act : ClientAct (Code T) Task} (h : StackStep H self m code m' act)
    (hf : code.Sees H m.planner) : m.planner.Grows m'.planner := by
  cases h with
  | planner h => exact h.grows hf
  | _ => exact ⟨le_rfl, List.prefix_rfl, List.prefix_rfl⟩

/-- Every step of the soup lets the planner state grow. -/
theorem grows_step {v v' : SoupView (Mem T) (Code T) Task RejectCode}
    (h : VersionsOk H v.1 v.2) (hstep : SoupStep (stackContract H) v v') :
    v.1.planner.Grows v'.1.planner := by
  cases hstep with
  | step hs => exact (stackStep_cases hs).grows (h.planner.sees _ (Multiset.mem_cons_self _ _))
  | rejectOn hs | rejectDone hs => cases rejectStep_cases hs <;> exact .refl _
  | _ => exact .refl _

/-- Updates are transactions, and versions are published in order. -/
structure UpdatesTransactional (H : Hooks T)
    (s : MachineState (Mem T) (Code T) Task RejectCode) : Prop where
  /-- A call that returned an error has changed nothing. -/
  failed : ∀ r ∈ s.shared.client.planner.returned, ∀ error, r.result = .error error →
    r.after = r.call.before
  /-- Neither has a call that finds the planner state poisoned. -/
  poisoned : ∀ b n code, (code = .recompile ∨ ∃ changes, code = .update changes) →
    s.shared.client.planner.stateLock = .poisoned →
    plannerStep H b n s.shared.client.planner code =
      some (s.shared.client.planner, .ret (.err (.poisoned "stack.state")))
  /-- A call that returned an id has published the compilation of the state that it held. -/
  succeeded : ∀ r ∈ s.shared.client.planner.returned, ∀ id, r.result = .ok id →
    r.call.Makes H r.after.current ∧ r.after.current.id = id ∧
      r.after.currentVersionId = id ∧ r.after.state = r.call.next
  increasing : s.shared.client.planner.published.Pairwise (· < ·)
  latest : s.shared.client.planner.published.getLast? = some s.shared.client.planner.current.id
  /-- Readers see the id of the version that they read. -/
  agrees : 0 < s.shared.client.planner.readers →
    s.shared.client.planner.currentVersionId = s.shared.client.planner.current.id
  grows : ∀ s', Later H s s' → s.shared.client.planner.Grows s'.shared.client.planner
  /-- A job runs on a version that is no older than what updates had returned before. -/
  since : ∀ j job, s.shared.client.job j = some job → ∀ id ∈ job.since, id ≤ job.version.id

/-- **Updates are transactions, and versions are published in order.** -/
theorem updates_transactional {s : MachineState (Mem T) (Code T) Task RejectCode}
    (h : Reached H s) : UpdatesTransactional H s := by
  obtain ⟨hversions, -⟩ := inOrder h
  have hok := hversions.planner
  refine ⟨fun r hr error herror => ?_, ?_, fun r hr id hid => ?_, hok.increasing, hok.latest,
    hok.agrees_of_reader, fun s' h' => ?_, hversions.since⟩
  · have hr := hok.returned r hr
    simpa only [Returned.Ok, herror] using hr
  · rintro b n code (rfl | ⟨changes, rfl⟩) hpoisoned
    all_goals simp only [plannerStep, PlannerMem.lockState, hpoisoned]
  · have hr := hok.returned r hr
    simpa only [Returned.Ok, hid] using hr
  · exact h.grows (R := fun v v' => v.1.planner.Grows v'.1.planner) (fun _ => .refl _)
      (fun _ _ _ => .trans) (fun _ _ hv _ => grows_step hv) h'

/-! ### A stack to try it on -/

/-- A planner whose state is a number. -/
abbrev counter : Types := ⟨ℕ, ℕ, ℕ, ℕ, ℕ, ℕ, ℕ⟩

/-- A plan with one stage. -/
def counterPlan (n : ℕ) : CompiledPlan ℕ := ⟨⟨[], [⟨[]⟩]⟩, [], n⟩

/-- Packet data with another number of queries. -/
def counterCount (n : ℕ) (data : PacketData) : PacketData :=
  ⟨{ data.1 with queryCount := n }, data.2.index, data.2.clean⟩

/-- Hooks that fail, or panic, when the choice is one. The encoder counts the queries, the stage
multiplies their number with the prepared one, and the decoder returns what is in the packet. -/
def counterHooks : Hooks counter where
  apply _ state changes := (.ok (), state + changes.sum)
  resetState _ _ spec := (.ok (), spec)
  updatedState _ state changes := .ok (state + changes.sum)
  compile n state :=
    if n = 1 then .err (.message "out of range") else .ok (counterPlan state)
  prepare _ compiled _ := .ok compiled.plannerMeta
  encodeBatch n _ queries packet :=
    (if n = 1 then .panicked else .ok (), counterCount queries.length packet)
  runStage n prepared _ _ packet _ :=
    (if n = 1 then .panicked else .ok (),
      counterCount (packet.1.queryCount * prepared) packet, false)
  decodeBatch n _ packet := if n = 1 then .panicked else .ok [packet.1.queryCount]
  debugAssertions := true

/-- The state after some actions, from an executor with one worker. -/
def counterAfter (actions : List (Action (Code counter))) :
    MachineState (Mem counter) (Code counter) Task RejectCode :=
  (Lts.runs (machineStep (stackClient counterHooks)) (fun _ _ => True)
    (.start (.create 0 5 (counterPlan 5) 5) 1) actions).getD
      (.start (.create 0 5 (counterPlan 5) 5) 1)

/-- Actions that can be taken reach the state after them. -/
theorem counterAfter_reached {actions : List (Action (Code counter))}
    (h : (Lts.runs (machineStep (stackClient counterHooks)) (fun _ _ => True)
      (.start (.create 0 5 (counterPlan 5) 5) 1) actions).isSome) :
    Reached counterHooks (counterAfter actions) := by
  obtain ⟨s, hs⟩ := Option.isSome_iff_exists.mp h
  rw [counterAfter, hs]
  exact ⟨_, ⟨_, _, _, _, rfl⟩, .of_runs actions ⟨1, rfl⟩ hs⟩

/-- Two updates, the second of which fails to compile. -/
def counterUpdates : List (Action (Code counter)) :=
  [.register 1 1, .spawn (.planner (.update [3])), .spawn (.planner (.update [4]))] ++
    List.replicate 22 (.step 1 0) ++ List.replicate 3 (.step 2 0) ++ [.step 2 1] ++
    List.replicate 2 (.step 2 0)

/-- The first of two updates is published, the second is undone. -/
theorem updates_transactional_counter :
    (counterAfter counterUpdates).shared.client.planner.returned.map (·.result) =
        [.ok 2, .error (.message "out of range")] ∧
      UpdatesTransactional counterHooks (counterAfter counterUpdates) :=
  ⟨rfl, updates_transactional (counterAfter_reached rfl)⟩

end Braids.Runtime
