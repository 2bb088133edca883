import Braids.FastNoise.Jobs
import Braids.Runtime.Sessions

/-!
# Inline Calls on FastNoise Graphs

The inline calls of a stack of `FastNoisePlanner` and `CpuComputeBackend`: whatever the contexts
of the pool and of the callers were used for before, and whatever versions other threads publish
meanwhile, a call returns the summaries of the field of the graph whose version it has read, if
the graph runs and the batch fits. A context that a panicking call has left may hold any packet in
order whose buffers are of the kinds that plans declare.

## Main results

* `inlineRule_floatSlots`: the hooks for single queries keep the kinds of all buffers, too.
* `succeeds_one`: the hooks for a single query succeed one after another.
* `inline_calls_answer_graphs`: what inline calls return, in every session.
-/

namespace Braids

open Braids.Runtime InlineM

/-- `decode_one` leaves a packet in order: it only reads the packet. -/
theorem orderly_decodeOne (num : Numerics) (plan : CompiledPlan FastNoisePlannerMeta) :
    (decodeOne num plan).Orderly :=
  PacketM.orderly_read _

/-- The hooks of `FastNoisePlanner` and `CpuComputeBackend`, with those for a single query. -/
def fastNoiseInline (build : Build) (num : Numerics) (debugAssertions : Bool) :
    InlineHooks fastNoise :=
  { fastNoiseStack build num debugAssertions with
    preferOneQueryInline := true
    encodeOne := fun _ plan query p =>
      (encodeOne build plan query).call (orderly_encodeOne build plan query) p
    decodeOne := fun _ plan p => ((decodeOne num plan).call (orderly_decodeOne num plan) p).1 }

section Stack

variable {build : Build} {num : Numerics} {debugAssertions : Bool}

/-- **The hooks keep the kinds of all buffers**, those for a single query included. -/
theorem inlineRule_floatSlots (first : FastNoiseState) :
    InlineRule (fastNoiseInline build num debugAssertions)
      ((fastNoiseStack build num debugAssertions).Stems first) fun p => FloatSlots p.1 where
  toPacketRule := packetRule_floatSlots first
  encodeOne version _ n query p hp := by
    rcases PacketM.call_leaves (orderly_encodeOne build version.compiled query) p with
      hsame | ⟨r, hrun⟩
    · exact congrArg (FloatSlots ·.1) hsame ▸ hp
    · have hbatch := congrArg (fun m => m.run p.1) (encodeOne_eq build version.compiled query)
      exact hp.of_encodeBatch p.2 (hbatch.symm.trans hrun)
  runOneStage := (packetRule_floatSlots first).runStage

/-! ### A single query -/

/-- A packet after some stages of a batch of one has two offsets, the first of which is zero. -/
theorem Staged.offsets {plan : CompiledPlan FastNoisePlannerMeta}
    {prepared : List (List CpuKernel)} {query : ChunkQuery} {i : ℕ} {p : JobPacket}
    (h : Staged num plan prepared [query] i p) (offsets : List UInt32)
    (hoffsets : p.slice .u32 slotQueryOffsets = .ok offsets) :
    offsets = [0, .ofNat (0 + query.samples)] := by
  obtain ⟨-, p₀, hencoded, hrun⟩ := h
  have hwrites : ∀ stages, (runStageList num prepared stages).Writes .f32 := by
    intro stages
    induction stages with
    | nil => exact .pure ()
    | cons stageIndex stages ih =>
        exact .bind (KernelLoops.plain.runStage_writes num prepared stageIndex ()) fun _ => ih
  have hbefore := (hwrites _).slice_eq hencoded.wf hrun (by decide) hoffsets
  rw [JobPacket.slice_of_view hencoded.wf hencoded.offsets, HookResult.ok.injEq] at hbefore
  exact hbefore.symm

/-- **The hooks for a single query succeed** where those for a batch of one do. -/
theorem succeeds_one {version : Runtime.Version fastNoise} {query : ChunkQuery}
    {value : ChunkSummary} {choice : ℕ → ℕ}
    (h : Succeeds (fastNoiseStack build num debugAssertions) version
      ((fastNoiseStack build num debugAssertions).batchSteps choice version [query])
      (fun i p => Staged num version.compiled version.prepared [query] i p.1) [value]) :
    Succeeds (fastNoiseStack build num debugAssertions) version
      ((fastNoiseInline build num debugAssertions).oneSteps choice version query)
      (fun i p => Staged num version.compiled version.prepared [query] i p.1) value where
  stage := h.stage
  valid := h.valid
  decode data hdata := (decode_call_iff hdata.offsets value).mpr (h.decode data hdata)

/-- The hook that encodes one query is the one that encodes the batch of one. -/
theorem encodeOne_hook (n : ℕ) (plan : CompiledPlan FastNoisePlannerMeta) (query : ChunkQuery)
    (p : PacketData) : (fastNoiseInline build num debugAssertions).encodeOne n plan query p =
      (fastNoiseStack build num debugAssertions).encodeBatch n plan [query] p := by
  have hcall : ∀ {m m' : PacketM Unit} (h : m.Orderly) (h' : m'.Orderly), m = m' →
      m.call h p = m'.call h' p := by
    rintro m _ h h' rfl
    rfl
  exact hcall (orderly_encodeOne build plan query) (orderly_encodeBatch build plan [query])
    (encodeOne_eq build plan query)

/-- An answer to one query is one summary. -/
theorem Answers.singleton {state : FastNoiseState} {query : ChunkQuery}
    {values : List ChunkSummary} (h : Answers num state [query] values) :
    ∃ value, values = [value] := by
  obtain ⟨fuel, sampleLists, hsamples, rfl⟩ := h
  obtain ⟨samples, rfl⟩ := List.length_eq_one_iff.mp hsamples.length_eq.symm
  exact ⟨_, rfl⟩

/-! ### Calls -/

/-- The value of a call as a batch of one. -/
theorem result_bind_singleton {α : Type} {m : InlineM α} {value : α} {context : InlineContext}
    (h : m.result context = .ok value) :
    (m >>= fun value => pure [value]).result context = .ok [value] := by
  rw [InlineM.result] at h
  rw [InlineM.result, InlineM.run_bind]
  generalize m context = r at h ⊢
  obtain ⟨r, context'⟩ := r
  obtain rfl : r = .ok value := h
  rfl

/-- What an inline call returns if its executions succeed: a batch of one goes to the hooks for
a single query. -/
theorem run_entry {mem : InlineMem fastNoise} {version : Runtime.Version fastNoise}
    (hmem : mem.Open) (hcurrent : mem.current = version) {choice : ℕ → ℕ}
    (entry : InlineEntry fastNoise) {queries : List ChunkQuery} (hqueries : entry.queries = queries)
    {values : List ChunkSummary} {context : InlineContext}
    (hbatch : (executeInline (fastNoiseInline build num debugAssertions).toHooks choice version
      queries).result ⟨context.packet, false⟩ = .ok values)
    (hone : ∀ query, queries = [query] → ∃ value, values = [value] ∧
      (executeOneInline (fastNoiseInline build num debugAssertions) choice version
        query).result ⟨context.packet, false⟩ = .ok value) :
    (entry.run (fastNoiseInline build num debugAssertions) choice mem).result context =
      .ok values := by
  subst hcurrent hqueries
  have hpreferred : ∀ batch : InlineM (List ChunkSummary),
      batch.result ⟨context.packet, false⟩ = .ok values →
      (executePreferred (fastNoiseInline build num debugAssertions) choice mem.current
        entry.queries batch).result ⟨context.packet, false⟩ = .ok values := by
    intro batch h
    rcases hqueries : entry.queries with _ | ⟨query, _ | ⟨other, queries⟩⟩
    · exact h
    · obtain ⟨value, rfl, hvalue⟩ := hone query hqueries
      exact result_bind_singleton ((result_catchUnwind_eq_ok _).mpr hvalue)
    · exact h
  cases entry with
  | batch queries =>
      rw [InlineEntry.run, resolveInlineWith, result_readVersion_bind hmem]
      exact hpreferred _ ((result_catchUnwind_eq_ok _).mpr hbatch)
  | one query =>
      obtain ⟨value, rfl, hvalue⟩ := hone query rfl
      refine result_bind_singleton ?_
      rw [result_resolveOneInlineRefWith hmem rfl]
      exact (result_catchUnwind_eq_ok _).mpr hvalue
  | collect queries => exact hpreferred _ hbatch

/-- What inline calls with these queries return. -/
structure InlineAnswers (H : InlineHooks fastNoise) (s : Session fastNoise)
    (version : Runtime.Version fastNoise) (queries : List ChunkQuery)
    (values : List ChunkSummary) : Prop where
  /-- A call that has read the version, on its context. -/
  owned : ∀ choice (entry : InlineEntry fastNoise), entry.queries = queries →
    ∀ k context, s.owned k = some context →
      (entry.run H choice { s.mem with current := version }).result context = .ok values
  /-- The calls with contexts of the pool, while the version is current. -/
  pooled : s.mem.current = version → ∀ choice,
    (resolveInline H choice s.mem queries).1 = .ok values ∧
    (dispatchCollect H choice s.mem queries).1 = .ok values
  /-- Those for a single query. -/
  single : s.mem.current = version → ∀ choice query, queries = [query] →
    ∃ value, values = [value] ∧ (resolveOneInline H choice s.mem query).1 = .ok value ∧
      (resolveOneInlineRef H choice s.mem query).1 = .ok value

/-- **Inline calls answer graphs**, in every session. -/
theorem inline_calls_answer_graphs {first state : FastNoiseState} {s : Session fastNoise}
    {version : Runtime.Version fastNoise} {queries : List ChunkQuery}
    (h : Session.Reached (fastNoiseInline build num debugAssertions)
      ((fastNoiseStack build num debugAssertions).Stems first) (fun p => FloatSlots p.1) s)
    (hbuilds : (fastNoiseStack build num debugAssertions).Builds state version)
    (hinputs : state.InputsFit) (hgood : state.Runnable)
    (hbatch : BatchFits build state.dimension queries) :
    ∃ values, Answers num state queries values ∧
      InlineAnswers (fastNoiseInline build num debugAssertions) s version queries values := by
  have hholds := h.holds (inlineRule_floatSlots first)
  obtain ⟨values, hanswers, hsucceeds, hencode⟩ := succeeds_of_builds hbuilds hinputs hgood hbatch
  -- both loops return on every context of the session
  have hexecute : ∀ choice (p : PacketData), FloatSlots p.1 →
      (executeInline (fastNoiseInline build num debugAssertions).toHooks choice version
        queries).result ⟨p, false⟩ = .ok values := by
    intro choice p hp
    obtain ⟨data, hfirst, hdata⟩ := hencode (choice 0) p hp
    exact (hsucceeds choice).execute hfirst hdata
  have hone : ∀ choice (p : PacketData), FloatSlots p.1 → ∀ query, queries = [query] →
      ∃ value, values = [value] ∧ (executeOneInline (fastNoiseInline build num debugAssertions)
        choice version query).result ⟨p, false⟩ = .ok value := by
    rintro choice p hp query rfl
    obtain ⟨value, rfl⟩ := hanswers.singleton
    obtain ⟨data, hfirst, hdata⟩ := hencode (choice 0) p hp
    have hfirst' := (encodeOne_hook (choice 0) version.compiled query
      (p.start version.compiled.staticBuffers)).trans hfirst
    exact ⟨value, rfl, (succeeds_one (hsucceeds choice)).execute hfirst' hdata⟩
  have hnext := hholds.next (inlineRule_floatSlots first)
  refine ⟨values, hanswers, fun choice entry hentry k context hk => ?_, fun hcurrent choice => ?_,
    fun hcurrent choice query hquery => ?_⟩
  · have hp := hholds.owned k context hk
    have hmem : InlineMem.Open { s.mem with current := version } :=
      ⟨hholds.isOpen.current, hholds.isOpen.contexts⟩
    exact run_entry hmem (Eq.refl version) entry hentry (hexecute choice _ hp) (hone choice _ hp)
  · have hrun : ∀ entry : InlineEntry fastNoise, entry.queries = queries →
        (s.mem.withPooled (entry.run (fastNoiseInline build num debugAssertions) choice
          s.mem)).1 = .ok values := by
      intro entry hentry
      rw [InlineMem.withPooled_result hholds.isOpen]
      exact run_entry hholds.isOpen hcurrent entry hentry (hexecute choice _ hnext)
        (hone choice _ hnext)
    have hbatched := hrun (.batch queries) rfl
    have hcollected := hrun (.collect queries) rfl
    rw [← dispatchCollect_eq (fastNoiseInline build num debugAssertions) choice hholds.isOpen
      queries] at hcollected
    exact ⟨hbatched, hcollected⟩
  · subst hcurrent
    obtain ⟨value, rfl, hvalue⟩ := hone choice _ hnext query hquery
    have hmem := hholds.isOpen
    rw [resolveOneInline, resolveOneInlineRef, InlineMem.withPooled_result hmem,
      result_resolveOneInlineRefWith hmem rfl]
    have hresult := (result_catchUnwind_eq_ok
      (fastNoiseInline build num debugAssertions).toHooks).mpr hvalue
    exact ⟨value, rfl, hresult, hresult⟩

end Stack

/-- The version of a new stack for a sample in three dimensions. -/
def caveVersion : Runtime.Version fastNoise := caveStack.planner.current

/-- A session with a new stack. -/
def caveStart : Session fastNoise := { mem := { current := caveVersion } }

/-- The batch that is run first: two samples. -/
def cavePair : InlineEntry fastNoise := .batch [.oneSample .d3, .oneSample .d3]

/-- What the batch leaves in a context that a caller has made. -/
def cavePairLeft : HookResult (List ChunkSummary) × InlineContext :=
  cavePair.run (fastNoiseInline ⟨true⟩ Numerics.silent true) (fun _ => 0) caveStart.mem {}

/-- A caller has run a batch of two samples on a context of its own. -/
def caveSession : Session fastNoise := caveStart.own 0 (some cavePairLeft.2)

/-- A sample is answered on the context that the batch leaves, whose buffers hold two samples, and
on pooled ones. -/
theorem inline_calls_answer_graphs_cave :
    (caveSession.owned 0).map (fun context => (context.packet.1.isDirty,
        context.packet.1.queryCount, (context.packet.1.view slotBaseX).map BufferData.len)) =
      some (true, 2, some 2) ∧
    ∃ values, Answers Numerics.silent cave [.oneSample .d3] values ∧
      InlineAnswers (fastNoiseInline ⟨true⟩ Numerics.silent true) caveSession caveVersion
        [.oneSample .d3] values := by
  have hbuilds : (fastNoiseStack ⟨true⟩ Numerics.silent true).Builds cave caveVersion :=
    ⟨⟨0, rfl⟩, rfl, 0, none, rfl⟩
  have hfirst : (fastNoiseStack ⟨true⟩ Numerics.silent true).Stems cave caveVersion :=
    ⟨cave, .refl, hbuilds⟩
  have hreached : Session.Reached (fastNoiseInline ⟨true⟩ Numerics.silent true)
      ((fastNoiseStack ⟨true⟩ Numerics.silent true).Stems cave) (fun p => FloatSlots p.1)
      caveSession := by
    refine ⟨caveVersion, hfirst, ?_⟩
    refine .tail (.single (.create (k := 0) rfl)) ?_
    have hreturns : ¬ Session.Panicked cavePairLeft.1 := by
      rw [Session.Panicked]
      decide +kernel
    have hsession : caveSession = (caveStart.own 0 (some {})).own 0 (some cavePairLeft.2) :=
      (Session.own_own caveStart 0 _ _).symm
    rw [hsession]
    exact .call cavePair (fun _ => 0) (Session.own_owned caveStart 0 (some {})) hfirst hreturns
  exact ⟨by decide +kernel, inline_calls_answer_graphs hreached hbuilds cave_runs.1 cave_runs.2
    oneSample_fits⟩

end Braids
