import Braids.FastNoise.Acceptance
import Braids.Runtime.Agreement

/-!
# FastNoise on a Stack

The hooks of `FastNoisePlanner` and `CpuComputeBackend`, and what a stack returns for a single
query: `resolve_one_inline` calls the hooks for one query, a dispatched batch of one those for
a batch.

## Main results

* `fastNoiseHooks`: the hooks, each of which leaves a packet in order.
* `encodeBatch_offsets`: whatever the query, the offsets of a batch of one start at zero.
* `single_query_agrees`: a single query has the result of a batch of one.
-/

namespace Braids

open Braids.Runtime

/-! ### Hooks and packets -/

namespace PacketM

variable {α β : Type}

/-- The call leaves a packet in order. -/
def Orderly (m : PacketM α) : Prop :=
  ∀ (p p' : JobPacket) (r : BraidResult α), p.Wf → m.run p = some (r, p') → p'.Wf

/-- A call of a hook with a packet in order. A hook that panics may leave its packet
half-written. Jobs drop such a packet, and `Session.Step.panic` puts any other in its place, so
nobody looks at the one after a panic here, which is that before the call. -/
def call (m : PacketM α) (h : m.Orderly) (p : PacketData) : HookResult α × PacketData :=
  match hrun : m.run p.1 with
  | some (.ok value, p') => (.ok value, ⟨p', h _ _ _ p.2 hrun⟩)
  | some (.error error, p') => (.err error, ⟨p', h _ _ _ p.2 hrun⟩)
  | none => (.panicked, p)

/-- A hook returns the value that the call returns. -/
theorem call_fst_eq_ok {m : PacketM α} (h : m.Orderly) {p : PacketData} {value : α} :
    (m.call h p).1 = .ok value ↔ ∃ p', m.run p.1 = some (.ok value, p') := by
  rw [call]
  split
  · next hrun => simp [hrun]
  · next hrun => simp [hrun]
  · next hrun => simp [hrun]

/-- The packet that a call leaves that returns a value. -/
theorem run_of_call {m : PacketM α} (h : m.Orderly) {p : PacketData} {value : α}
    (hcall : (m.call h p).1 = .ok value) : m.run p.1 = some (.ok value, (m.call h p).2.1) := by
  obtain ⟨p', hrun⟩ := (call_fst_eq_ok h).mp hcall
  rw [call]
  split
  · next value' p'' hrun' =>
      obtain ⟨rfl, -⟩ : value = value' ∧ p' = p'' := by simpa [hrun] using hrun'
      exact hrun'
  · next hrun' => simp [hrun] at hrun'
  · next hrun' => simp [hrun] at hrun'

/-- What a call reads of one kind after a hook that wrote another was there before. -/
theorem Writes.call_slice_eq {kind other : ElementKind} {m : PacketM α} (hm : m.Writes kind)
    (h : m.Orderly) (hne : kind ≠ other) {p : PacketData} {slot : BufferSlot}
    {values : List other.Elem} (hslice : (m.call h p).2.1.slice other slot = .ok values) :
    p.1.slice other slot = .ok values := by
  rw [call] at hslice
  split at hslice
  · next hrun => exact hm.slice_eq p.2 hrun hne hslice
  · next hrun => exact hm.slice_eq p.2 hrun hne hslice
  · exact hslice

/-- A call that writes one kind of buffers. -/
theorem Writes.orderly {kind : ElementKind} {m : PacketM α} (h : m.Writes kind) : m.Orderly :=
  fun p p' r hp hrun => (h p p' r hp hrun).1

/-- A call that reads. -/
theorem orderly_read (f : JobPacket → HookResult α) : (read f).Orderly :=
  Writes.orderly (.read f : (read f).Writes .f32)

end PacketM

/-- `encode_batch` leaves a packet in order. -/
theorem orderly_encodeBatch (build : Build) (plan : CompiledPlan FastNoisePlannerMeta)
    (queries : List ChunkQuery) : (encodeBatch build plan queries).Orderly := by
  intro p p' r hp hrun
  obtain ⟨metaValues, floatValues, offsetValues, -, -, -, hloop⟩ :=
    encodeBatch_loop build plan queries hp
  split at hloop
  · obtain ⟨p₁, hrun₁, -, hstored⟩ := hloop
    rw [hrun₁, Option.some.injEq, Prod.mk.injEq] at hrun
    exact hrun.2 ▸ hstored.wf
  · obtain ⟨p₁, hrun₁, hwf⟩ := hloop
    rw [hrun₁, Option.some.injEq, Prod.mk.injEq] at hrun
    exact hrun.2 ▸ hwf
  · exact absurd (hloop.symm.trans hrun) (Option.some_ne_none _).symm

/-- `encode_one` leaves a packet in order. -/
theorem orderly_encodeOne (build : Build) (plan : CompiledPlan FastNoisePlannerMeta)
    (query : ChunkQuery) : (encodeOne build plan query).Orderly := by
  rw [encodeOne_eq]
  exact orderly_encodeBatch build plan [query]

/-! ### The hooks -/

/-- The associated types of `FastNoisePlanner` and `CpuComputeBackend`. -/
abbrev fastNoise : Types :=
  ⟨FastNoiseState, FastNoiseGraphSpec, FastNoiseChange, ChunkQuery, ChunkSummary,
    FastNoisePlannerMeta, List (List CpuKernel)⟩

/-- A hook that changes the planner state in place. -/
def inPlace (state : FastNoiseState) : HookResult FastNoiseState → HookResult Unit × FastNoiseState
  | .ok state => (.ok (), state)
  | .err error => (.err error, state)
  | .panicked => (.panicked, state)

/-- `run_stage`, which looks at the cancel flag before each kernel. -/
def runStageHook (num : Numerics) (prepared : List (List CpuKernel)) (stageIndex : ℕ)
    (p : PacketData) (cancel : Bool) : HookResult Unit × PacketData × Bool :=
  match cancel, prepared[stageIndex]? with
  | true, some (_ :: _) => (.err .cancelled, p, false)
  | _, _ =>
      let (result, p) := (runStage num prepared stageIndex).call
        (KernelLoops.plain.runStage_writes num prepared stageIndex ()).orderly p
      (result, p, false)

/-- The hooks of `FastNoisePlanner` and `CpuComputeBackend`. -/
def fastNoiseHooks (build : Build) (num : Numerics) (debugAssertions : Bool) :
    InlineHooks fastNoise where
  apply _ state changes := inPlace state (state.apply changes)
  resetState _ state spec := inPlace state (state.resetFromSpec spec)
  updatedState _ state changes := state.apply changes
  compile _ state := compileGraph build state
  prepare _ compiled _ := prepareStages compiled.pipeline.stages
  encodeBatch _ plan queries p :=
    (encodeBatch build plan queries).call (orderly_encodeBatch build plan queries) p
  runStage _ prepared stageIndex _ p cancel := runStageHook num prepared stageIndex p cancel
  decodeBatch _ plan p := ((decodeBatch num plan).call (PacketM.orderly_read _) p).1
  debugAssertions
  preferOneQueryInline := true
  encodeOne _ plan query p :=
    (encodeOne build plan query).call (orderly_encodeOne build plan query) p
  decodeOne _ plan p := ((decodeOne num plan).call (PacketM.orderly_read _) p).1

/-! ### A single query -/

/-- **The offsets of a batch of one start at zero**, whatever the query is and whether or not
its number of samples fits in a `u32`. -/
theorem encodeBatch_offsets {build : Build} {plan : CompiledPlan FastNoisePlannerMeta}
    {query : ChunkQuery} {p p' : JobPacket} (hp : p.Wf)
    (hrun : (encodeBatch build plan [query]).run p = some (.ok (), p')) :
    ∃ stop, ∀ offsets, p'.slice .u32 slotQueryOffsets = .ok offsets → offsets = [0, stop] := by
  obtain ⟨metaValues, floatValues, offsetValues, -, -, holen, hloop⟩ :=
    encodeBatch_loop build plan [query] hp
  obtain ⟨first, rest, rfl⟩ := List.exists_cons_of_length_eq_add_one holen
  obtain ⟨second, rfl⟩ := List.length_eq_one_iff.mp (Nat.succ.inj holen)
  rw [encodeQueries_singleton] at hloop
  cases hcount : if query.dimension ≠ plan.plannerMeta.dimension then .panicked
    else query.sampleCount build with
  | err e =>
      rw [hcount] at hloop
      obtain ⟨p₁, hrun₁, -⟩ := hloop
      simp [hrun₁] at hrun
  | panicked =>
      rw [hcount] at hloop
      exact absurd (hloop.symm.trans hrun) (Option.some_ne_none _).symm
  | ok count =>
      rw [hcount] at hloop
      obtain ⟨p₁, hrun₁, -, hstored⟩ := hloop
      rw [hrun₁, Option.some.injEq, Prod.mk.injEq] at hrun
      obtain rfl := hrun.2
      refine ⟨.ofNat count, fun offsets hoffsets => ?_⟩
      rw [JobPacket.slice_of_view hstored.wf hstored.offsets, HookResult.ok.injEq] at hoffsets
      rw [← hoffsets]
      rfl

/-- After the stages of a plan the decoder of one query returns what the decoder of a batch
returns. -/
theorem decodeOne_after_stages {build : Build} {num : Numerics}
    {plan : CompiledPlan FastNoisePlannerMeta} {query : ChunkQuery} {p p₁ p₂ : JobPacket}
    (hp : p.Wf) (hencode : (encodeOne build plan query).run p = some (.ok (), p₁))
    {prepared : List (List CpuKernel)}
    (hstages : (runAllStages num plan prepared).run p₁ = some (.ok (), p₂)) (s : ChunkSummary) :
    (decodeOne num plan).run p₂ = some (.ok s, p₂) ↔
      (decodeBatch num plan).run p₂ = some (.ok [s], p₂) := by
  rw [encodeOne_eq] at hencode
  obtain ⟨stop, hstop⟩ := encodeBatch_offsets hp hencode
  refine decodeOne_eq_ok_iff num plan (fun offsets hoffsets => hstop offsets ?_) s
  exact (runAllStages_writes num plan prepared).slice_eq
    (orderly_encodeBatch build plan [query] p p₁ _ hp hencode) hstages (by decide) hoffsets

section Stack

variable {build : Build} {num : Numerics} {debugAssertions : Bool}

/-- The hooks are deterministic and never set the cancel flag. -/
theorem fastNoiseHooks_deterministic :
    (fastNoiseHooks build num debugAssertions).toHooks.Deterministic := by
  refine ⟨fun _ => rfl, fun _ => rfl, fun _ => rfl, fun _ prepared stageIndex _ p cancel => ?_⟩
  change (runStageHook num prepared stageIndex p cancel).2.2 = false
  unfold runStageHook
  split <;> rfl

/-- The hook that decodes one query returns what the hook that decodes a batch returns, when
the offsets start at zero. -/
theorem decode_call_iff {plan : CompiledPlan FastNoisePlannerMeta} {p : PacketData}
    {stop : UInt32}
    (h : ∀ offsets, p.1.slice .u32 slotQueryOffsets = .ok offsets → offsets = [0, stop])
    (s : ChunkSummary) :
    ((decodeOne num plan).call (PacketM.orderly_read _) p).1 = .ok s ↔
      ((decodeBatch num plan).call (PacketM.orderly_read _) p).1 = .ok [s] := by
  have hsame : ∀ {α : Type} (f : JobPacket → HookResult α) (value : α),
      ((PacketM.read f).call (PacketM.orderly_read f) p).1 = .ok value ↔
        (PacketM.read f).run p.1 = some (.ok value, p.1) := by
    intro α f value
    rw [PacketM.call_fst_eq_ok, PacketM.run_read]
    cases f p.1 <;> simp [HookResult.result?]
  exact (hsame _ _).trans ((decodeOne_eq_ok_iff num plan h s).trans (hsame _ _).symm)

/-- What a stage leaves of the offsets. -/
theorem runStageHook_offsets {prepared : List (List CpuKernel)} {stageIndex : ℕ} {p : PacketData}
    {cancel : Bool} {stop : UInt32}
    (h : ∀ offsets, p.1.slice .u32 slotQueryOffsets = .ok offsets → offsets = [0, stop]) :
    ∀ offsets, (runStageHook num prepared stageIndex p cancel).2.1.1.slice .u32
      slotQueryOffsets = .ok offsets → offsets = [0, stop] := by
  intro offsets hoffsets
  unfold runStageHook at hoffsets
  split at hoffsets
  · exact h offsets hoffsets
  · have hwrites := KernelLoops.plain.runStage_writes num prepared stageIndex ()
    exact h offsets (hwrites.call_slice_eq _ (by decide) hoffsets)

/-- The packet that is ready to be decoded is the same for one query and for a batch of one. -/
theorem readyPacket_one (choice : ℕ → ℕ) (version : Runtime.Version fastNoise)
    (query : ChunkQuery) :
    readyPacket (fastNoiseHooks build num debugAssertions).toHooks version
        ((fastNoiseHooks build num debugAssertions).oneSteps choice version query) =
      readyPacket (fastNoiseHooks build num debugAssertions).toHooks version
        ((fastNoiseHooks build num debugAssertions).batchSteps choice version [query]) := by
  have hcall : ∀ {m m' : PacketM Unit} (h : m.Orderly) (h' : m'.Orderly), m = m' →
      m.call h = m'.call h' := by
    rintro m _ h h' rfl
    rfl
  have hencode := hcall (orderly_encodeOne build version.compiled query)
    (orderly_encodeBatch build version.compiled [query]) (encodeOne_eq build version.compiled query)
  refine readyPacket_congr ?_ ?_ _ _
  · exact hencode
  · rfl

/-- `execute_one_inline` returns a summary if and only if `execute_inline` returns it for the
batch of one. -/
theorem executeOneInline_eq_ok_iff (choice : ℕ → ℕ) (version : Runtime.Version fastNoise)
    (query : ChunkQuery) (context : InlineContext) (s : ChunkSummary) :
    (executeOneInline (fastNoiseHooks build num debugAssertions) choice version query).result
        context = .ok s ↔
      (executeInline (fastNoiseHooks build num debugAssertions).toHooks choice version
        [query]).result context = .ok [s] := by
  rw [executeOneInline, executeInline, executeWith_result, executeWith_result, readyPacket_one]
  rcases hready : readyPacket (fastNoiseHooks build num debugAssertions).toHooks version
    ((fastNoiseHooks build num debugAssertions).batchSteps choice version [query]) context with
    ⟨r, context'⟩
  rw [InlineM.result, hready]
  cases r with
  | err e => simp
  | panicked => simp
  | ok =>
      obtain ⟨stop, hstop⟩ : ∃ stop, ∀ offsets,
          context'.packet.1.slice .u32 slotQueryOffsets = .ok offsets → offsets = [0, stop] := by
        refine readyPacket_invariant (P := fun p => ∃ stop, ∀ offsets,
          p.1.slice .u32 slotQueryOffsets = .ok offsets → offsets = [0, stop])
          (fun p hencode => ?_) (fun index stage p cancel hp => ?_) hready
        · exact encodeBatch_offsets p.2 (PacketM.run_of_call
            (orderly_encodeBatch build version.compiled [query]) hencode)
        · obtain ⟨stop, hstop⟩ := hp
          exact ⟨stop, runStageHook_offsets hstop⟩
      exact decode_call_iff hstop s

end Stack

/-- What the path of a single query has in common with the path of a batch of one. -/
structure SingleQueryAgrees (build : Build) (num : Numerics)
    (plan : CompiledPlan FastNoisePlannerMeta) (query : ChunkQuery) : Prop where
  /-- The encoders leave the same packet. -/
  encode : ∀ p : JobPacket,
    (encodeOne build plan query).run p = (encodeBatch build plan [query]).run p
  /-- After the stages the decoders return the same summary. -/
  decode : ∀ (p : PacketData) (p₁ p₂ : JobPacket) (prepared : List (List CpuKernel)),
    (encodeOne build plan query).run p.1 = some (.ok (), p₁) →
      (runAllStages num plan prepared).run p₁ = some (.ok (), p₂) → ∀ s : ChunkSummary,
        (decodeOne num plan).run p₂ = some (.ok s, p₂) ↔
          (decodeBatch num plan).run p₂ = some (.ok [s], p₂)
  /-- `resolve_one_inline` returns the summary that a batch of one is collected with. -/
  resolve : ∀ (debugAssertions : Bool) (choice : ℕ → ℕ) (b : BackendId)
    (mem : InlineMem fastNoise), mem.Open → mem.current.compiled = plan → ∀ s : ChunkSummary,
      (resolveOneInline (fastNoiseHooks build num debugAssertions) choice mem query).1 = .ok s ↔
        Collects (fastNoiseHooks build num debugAssertions).toHooks b mem.current [query]
          mem.nextContext.packet (.ok [s])

/-- **A single query has the result of a batch of one.** -/
theorem single_query_agrees (build : Build) (num : Numerics)
    (plan : CompiledPlan FastNoisePlannerMeta) (query : ChunkQuery) :
    SingleQueryAgrees build num plan query := by
  refine ⟨fun p => ?_, fun p p₁ p₂ prepared hencode hstages s => ?_,
    fun debugAssertions choice b mem hmem _ s => ?_⟩
  · rw [encodeOne_eq]
  · exact decodeOne_after_stages p.2 hencode hstages s
  · rw [collects_ok_iff fastNoiseHooks_deterministic b choice, resolveOneInline,
      InlineMem.withPooled_result hmem, result_resolveOneInlineRefWith hmem rfl,
      result_catchUnwind_eq_ok]
    exact executeOneInline_eq_ok_iff choice mem.current query _ s

/-- A hook that is seen to return a value. -/
theorem HookResult.exists_of_isOk {α : Type} {r : HookResult α}
    (h : r.result?.map (·.isOk) = some true) : ∃ a, r = .ok a := by
  cases r with
  | ok a => exact ⟨a, rfl⟩
  | err error => cases h
  | panicked => cases h

/-- A call with the packet that is seen to return a value. -/
theorem PacketM.exists_of_isOk {α : Type} {out : Option (BraidResult α × JobPacket)}
    (h : out.map (·.1.isOk) = some true) : ∃ a q, out = some (.ok a, q) := by
  obtain ⟨⟨out, q⟩, hrun, hok⟩ := Option.map_eq_some_iff.mp h
  cases out with
  | error error => cases hok
  | ok a => exact ⟨a, q, hrun⟩

/-- The version of a stack that is created for a product. -/
def productVersion : Runtime.Version fastNoise :=
  ⟨1, (accepted (product ["noise", "detail"])).1, (accepted (product ["noise", "detail"])).2⟩

/-- Encoding one sample for the product. -/
def productEncoded : Option (BraidResult Unit × JobPacket) :=
  (encodeOne ⟨true⟩ productVersion.compiled (.oneSample .d2)).run {}

/-- Running the stages of the product on that. -/
def productRan : Option (BraidResult Unit × JobPacket) :=
  productEncoded.bind fun out =>
    (runAllStages Numerics.silent productVersion.compiled productVersion.prepared).run out.2

/-- Decoding what the stages leave. -/
def productDecoded : Option (BraidResult ChunkSummary × JobPacket) :=
  productRan.bind fun out => (decodeOne Numerics.silent productVersion.compiled).run out.2

/-- `resolve_one_inline` for one sample of the product. -/
def productResolved : HookResult ChunkSummary :=
  (resolveOneInline (fastNoiseHooks ⟨true⟩ Numerics.silent true) (fun _ => 0)
    { current := productVersion } (.oneSample .d2)).1

/-- One sample of the product is encoded, run and decoded, and resolved inline: a batch of one is
decoded and collected with the same summary. -/
theorem single_query_agrees_product :
    ∃ p₁ p₂ s s', productEncoded = some (.ok (), p₁) ∧ productRan = some (.ok (), p₂) ∧
      (decodeBatch Numerics.silent productVersion.compiled).run p₂ = some (.ok [s], p₂) ∧
      productResolved = .ok s' ∧
      Collects (fastNoiseHooks ⟨true⟩ Numerics.silent true).toHooks 0 productVersion
        [.oneSample .d2] .fresh (.ok [s']) := by
  have agrees := single_query_agrees ⟨true⟩ Numerics.silent productVersion.compiled
    (.oneSample .d2)
  obtain ⟨⟨⟩, p₁, hencode⟩ : ∃ a q, productEncoded = some (.ok a, q) :=
    PacketM.exists_of_isOk (by decide +kernel)
  have hran : productRan = (runAllStages Numerics.silent productVersion.compiled
      productVersion.prepared).run p₁ := by
    rw [productRan, hencode, Option.bind_some]
  obtain ⟨⟨⟩, p₂, hstages⟩ : ∃ a q, productRan = some (.ok a, q) :=
    PacketM.exists_of_isOk (by decide +kernel)
  have hdecoded : productDecoded = (decodeOne Numerics.silent productVersion.compiled).run p₂ := by
    rw [productDecoded, hstages, Option.bind_some]
  obtain ⟨s, q, hdecode⟩ : ∃ s q, productDecoded = some (.ok s, q) :=
    PacketM.exists_of_isOk (by decide +kernel)
  obtain rfl : q = p₂ := by
    rw [hdecoded, decodeOne, PacketM.run_read, Option.map_eq_some_iff] at hdecode
    obtain ⟨_, -, heq⟩ := hdecode
    exact (congrArg Prod.snd heq).symm
  obtain ⟨s', hresolve⟩ : ∃ s', productResolved = .ok s' :=
    HookResult.exists_of_isOk (by decide +kernel)
  refine ⟨p₁, q, s, s', hencode, hstages, ?_, hresolve, ?_⟩
  · exact (agrees.decode .fresh p₁ q productVersion.prepared hencode (hran ▸ hstages) s).mp
      (hdecoded ▸ hdecode)
  · exact (agrees.resolve true (fun _ => 0) 0 { current := productVersion } ⟨rfl, rfl⟩ rfl s').mp
      hresolve

end Braids
