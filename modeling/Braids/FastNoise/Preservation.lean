import Braids.FastNoise.Acceptance
import Braids.FastNoise.Updates

/-!
# The Compiler Preserves the Meaning of Graphs

From a graph to the summaries of a batch: the compiled and prepared plan, run on packets of
any history, gives the summaries of `final_field` at the points of the queries.

## Main results

* `Compilation.run_samples`: the final slot holds the samples of the batch.
* `meaning_preserved`: the meaning is preserved when counts and slots are representable.
-/

namespace Braids

open Toposort CompileSlots Dataflow

/-! ### Samples -/

namespace FastNoiseState

variable {num : Numerics} {state : FastNoiseState} {fuel : ℕ} {queries : List ChunkQuery}

/-- A batch has one list of samples. -/
theorem Samples.unique {sampleLists sampleLists' : List (List F32)}
    (h : state.Samples num fuel queries sampleLists)
    (h' : state.Samples num fuel queries sampleLists') : sampleLists = sampleLists' := by
  have hfield : Relator.RightUnique fun point sample =>
      state.field num fuel point = some sample :=
    fun _ _ _ hsample hsample' => Option.some.inj (hsample.symm.trans hsample')
  have hsamples : Relator.RightUnique fun (query : ChunkQuery) samples => List.Forall₂
      (fun point sample => state.field num fuel point = some sample) (query.points num) samples :=
    fun _ _ _ hl hl' => hfield.forall₂ hl hl'
  exact hsamples.forall₂ h h'

/-- Each query has as many samples as its grid has cells. -/
theorem Samples.length {sampleLists : List (List F32)}
    (h : state.Samples num fuel queries sampleLists) :
    List.Forall₂ (fun query l => l.length = query.samples) queries sampleLists :=
  h.imp fun query l hl => by rw [← hl.length_eq, ChunkQuery.length_points]

end FastNoiseState

namespace Compilation

variable {build : Build} {state : FastNoiseState} {plan : CompiledPlan FastNoisePlannerMeta}
  (c : Compilation build state plan)

/-- The values of the final node are the final field at the points. -/
theorem field_of_means {num : Numerics} {points : List (List F32)} {p₀ p : JobPacket}
    {values : ℕ → List (List F32)} (h : Computed c num points p₀ c.order values p) :
    List.Forall₂ (fun point sample => state.field num c.order.length point = some sample) points
      (column (values c.final) 0) := by
  obtain ⟨hmem, hcoords, node, hnode, hlookup⟩ := c.final_spec
  have hmeans := List.forall₂_iff_get.mp (h.means c.final hmem node hnode)
  have hwidth := (h.filled c.final hmem).width
  refine List.forall₂_iff_get.mpr ⟨by rw [hmeans.1, length_column], fun i hi hi' => ?_⟩
  have hlt : i < (values c.final).length := hmeans.1 ▸ hi
  have hlen := hwidth _ (List.getElem_mem hlt)
  rw [hcoords] at hlen
  obtain ⟨sample, hsample⟩ := List.length_eq_one_iff.mp hlen
  have heval := hmeans.2 i hi hlt
  rw [List.get_eq_getElem, List.get_eq_getElem, hsample] at heval
  simp [FastNoiseState.field, hlookup, heval, column, hsample]

section Run

variable (num : Numerics) {queries : List ChunkQuery} {p : JobPacket} (hfits : c.Fits)
  (hdim : ∀ query ∈ queries, query.dimension = state.dimension)
  (htotal : (queries.map ChunkQuery.samples).sum < 2 ^ 32) (hp : Encoded queries p)
include hfits hdim htotal hp

/-- **The stages of a plan** leave the samples of the batch in the final slot, from where they
are decoded. -/
theorem run_samples (hgood : state.Runnable) :
    ∃ p' sampleLists, (runAllStages num plan
        ((.gridInit state.dimension :: c.kernels).map ([·]))).run p = some (.ok (), p') ∧
      state.Samples num c.order.length queries sampleLists ∧
      (decodeBatch num plan).run p' =
        some (.ok (sampleLists.map (summarizeSamples num)), p') := by
  obtain ⟨p₀, p', values, hrun, -, hother, h⟩ := c.run_plan num hfits hdim htotal hp hgood
  obtain ⟨hmem, hcoords, -⟩ := c.final_spec
  -- the samples of the batch are cut into those of the queries
  obtain ⟨sampleLists, hsamples, hflatten⟩ := exists_of_flatMap (c.field_of_means h)
  have hsamples : state.Samples num c.order.length queries sampleLists := hsamples
  refine ⟨p', sampleLists, hrun, hsamples, decodeBatch_spec num h.wf ?_ hsamples.length htotal ?_⟩
  · have hapart : slotQueryOffsets ∉ (basePositionSlots state.dimension).coords := by
      cases state.dimension <;> decide
    rw [h.frame slotQueryOffsets (by decide), hother slotQueryOffsets hapart]
    exact hp.offsets
  · rw [c.plannerMeta_eq, hflatten]
    exact (h.filled c.final hmem).holds 0 c.finalSlot (by rw [hcoords]; rfl)

end Run

end Compilation

/-! ### Graphs with a meaning -/

/-- A graph whose references are right and whose nodes have what they need. -/
structure FastNoiseState.WellTyped (state : FastNoiseState) : Prop where
  wellFormed : state.WellFormed
  depth : ∀ node, .warp3D node ∈ state.nodes.values ∨ .sample3D node ∈ state.nodes.values →
    state.dimension = .d3
  combines : ∀ node, .combine node ∈ state.nodes.values → node.Supported
  slots : slotDynamicStart + state.slotCount ≤ 2 ^ 16

/-- Compiling, preparing, encoding, running and decoding gives what the graph means, whatever
the packet was used for before. -/
def PreservesMeaning (build : Build) (num : Numerics) (state : FastNoiseState)
    (queries : List ChunkQuery) : Prop :=
  ∃ plan prepared fuel sampleLists, compileGraph build state = .ok plan ∧
    prepareStages plan.pipeline.stages = .ok prepared ∧
    state.Samples num fuel queries sampleLists ∧
    ∀ p : JobPacket, p.Wf → ∃ p₁ p₂,
      (encodeBatch build plan queries).run p = some (.ok (), p₁) ∧
      (runAllStages num plan prepared).run p₁ = some (.ok (), p₂) ∧
      (decodeBatch num plan).run p₂ = some (.ok (sampleLists.map (summarizeSamples num)), p₂)

/-- Nothing is lost in machine numbers: the counter of slots does not overflow, the parameters
survive the encoding of their count, and areas can be counted. -/
structure Representable (build : Build) (state : FastNoiseState) (queries : List ChunkQuery) :
    Prop where
  slots : ¬ Overflows build (slotDynamicStart + state.slotCount)
  params : ∀ node ∈ state.nodes.values, node.ParamsFit
  areas : ∀ query ∈ queries, query.AreaFits build

namespace FastNoiseState.WellTyped

variable {build : Build} {state : FastNoiseState} (h : state.WellTyped)
include h

/-- All nodes are scheduled. -/
theorem scheduled {node : NodeSpec} (hnode : node ∈ state.nodes.values) : state.Scheduled node :=
  ⟨hnode, fun ref href => (h.wellFormed.references node hnode ref href).acyclic⟩

/-- All nodes are supported. -/
theorem supported {node : NodeSpec} (hnode : node ∈ state.nodes.values) :
    node.Supported state.dimension := by
  cases node with
  | warp2D node => trivial
  | sample2D node => trivial
  | warp3D node => exact fun _ => h.depth node (.inl hnode)
  | sample3D node => exact fun _ => h.depth node (.inr hnode)
  | combine node => exact h.combines node hnode

/-- The slots of the schedule fit. -/
theorem fits {plan : CompiledPlan FastNoisePlannerMeta} (c : Compilation build state plan) :
    c.Fits := by
  rw [Compilation.Fits, Compilation.order, h.wellFormed.totalWidth_eq c.collectedDeps]
  exact h.slots

end FastNoiseState.WellTyped

/-- The areas of a batch whose meaning is preserved can be counted. -/
theorem PreservesMeaning.areas {build : Build} {num : Numerics} {state : FastNoiseState}
    {queries : List ChunkQuery} (htotal : (queries.map ChunkQuery.samples).sum < 2 ^ 32)
    (h : PreservesMeaning build num state queries) : ∀ query ∈ queries, query.AreaFits build := by
  obtain ⟨plan, prepared, fuel, sampleLists, -, -, -, hall⟩ := h
  obtain ⟨p₁, p₂, hencode, -⟩ := hall _ JobPacket.wf_default
  have hfits := batchFits_of_encodeBatch htotal JobPacket.wf_default hencode
  intro query hquery
  have hle : query.samples ≤ (queries.map ChunkQuery.samples).sum :=
    List.le_sum_of_mem (List.mem_map_of_mem hquery)
  by_contra hnot
  have hcount := hfits.counts query hquery
  rw [(ChunkQuery.sampleCount_spec (by omega)).2 hnot] at hcount
  cases hcount

/-- **The compiler preserves the meaning of graphs** when counts and slots are representable. -/
theorem meaning_preserved {build : Build} {state : FastNoiseState} {queries : List ChunkQuery}
    (h : state.WellTyped) (hdim : ∀ query ∈ queries, query.dimension = state.dimension)
    (htotal : (queries.map ChunkQuery.samples).sum < 2 ^ 32) (num : Numerics) :
    (state.InputsFit ∧ Representable build state queries →
        PreservesMeaning build num state queries) ∧
      (state.InputsFit → PreservesMeaning build num state queries →
        Representable build state queries) := by
  constructor
  · rintro ⟨hinputs, hslots, hparams, hareas⟩
    obtain ⟨plan, hcompile⟩ := compileGraph_ok h.wellFormed hslots
    obtain ⟨c⟩ := compileGraph_eq_ok.mp hcompile
    have hmeta : plan.plannerMeta.dimension = state.dimension := by rw [c.plannerMeta_eq]
    have hbatch : BatchFits build plan.plannerMeta.dimension queries :=
      batchFits_of_areaFits (hmeta ▸ hdim) htotal hareas
    have hgood : state.Runnable := fun node hnode =>
      ⟨h.supported hnode.1, hparams node hnode.1⟩
    have hrun : ∀ p : JobPacket, p.Wf → ∃ p₁ p₂ sampleLists,
        (encodeBatch build plan queries).run p = some (.ok (), p₁) ∧
        (runAllStages num plan ((.gridInit state.dimension :: c.kernels).map ([·]))).run p₁ =
          some (.ok (), p₂) ∧
        state.Samples num c.order.length queries sampleLists ∧
        (decodeBatch num plan).run p₂ =
          some (.ok (sampleLists.map (summarizeSamples num)), p₂) := by
      intro p hp
      obtain ⟨p₁, hencode, hencoded, -⟩ := encodeBatch_spec hbatch hp
      obtain ⟨p₂, sampleLists, hrun, hrest⟩ :=
        c.run_samples num (h.fits c) hdim htotal hencoded hgood
      exact ⟨p₁, p₂, sampleLists, hencode, hrun, hrest⟩
    obtain ⟨-, -, sampleLists, -, -, hsamples, -⟩ := hrun _ JobPacket.wf_default
    refine ⟨plan, _, c.order.length, sampleLists, hcompile, c.prepare_eq hinputs, hsamples,
      fun p hp => ?_⟩
    obtain ⟨p₁, p₂, sampleLists', hencode, hstages, hsamples', hdecode⟩ := hrun p hp
    obtain rfl := hsamples.unique hsamples'
    exact ⟨p₁, p₂, hencode, hstages, hdecode⟩
  · intro hinputs hpreserves
    have hareas := hpreserves.areas htotal
    obtain ⟨plan, prepared, fuel, sampleLists, hcompile, hprepare, -, hall⟩ := hpreserves
    refine ⟨(FastNoiseState.compileGraph_eq_ok_iff h.wellFormed build).mp ⟨plan, hcompile⟩,
      fun node hnode => ?_, hareas⟩
    obtain ⟨c⟩ := compileGraph_eq_ok.mp hcompile
    have hmeta : plan.plannerMeta.dimension = state.dimension := by rw [c.plannerMeta_eq]
    have hbatch : BatchFits build plan.plannerMeta.dimension queries :=
      batchFits_of_areaFits (hmeta ▸ hdim) htotal hareas
    obtain rfl := HookResult.ok.inj (hprepare.symm.trans (c.prepare_eq hinputs))
    -- a new packet has no third base slot
    obtain ⟨p₁, p₂, hencode, hstages, -⟩ := hall _ JobPacket.wf_default
    obtain ⟨p₁', hencode', hencoded, hother⟩ := encodeBatch_spec hbatch JobPacket.wf_default
    obtain ⟨-, rfl⟩ := PacketM.run_unique hencode hencode'
    have hbase : p₁.view slotBaseZ = none := by
      rw [hother slotBaseZ (by decide) (by decide) (by decide), JobPacket.view_default]
    exact (c.runnable_of_returns num (h.fits c) hdim htotal hencoded (fun _ => hbase)
      (.inr fun other ho => h.supported ho.1) hstages node (h.scheduled hnode)).2

/-- The product of two different nodes is well-typed. -/
theorem wellTyped_product : (product ["noise", "detail"]).WellTyped := by
  have hnoise : Acc (product ["noise", "detail"]).DependsOn "noise" :=
    FastNoiseState.acc_of_references rfl (by simp [NodeSpec.references, PositionSource.references])
  have hdetail : Acc (product ["noise", "detail"]).DependsOn "detail" :=
    FastNoiseState.acc_of_references rfl (by simp [NodeSpec.references, PositionSource.references])
  have hinputs : ∀ ref ∈ (NodeSpec.combine ⟨"field", ["noise", "detail"], .mul, []⟩).references,
      (product ["noise", "detail"]).Resolves ref := by
    intro ref href
    obtain ⟨input, hinput, rfl⟩ := List.mem_map.mp href
    obtain rfl | rfl : input = "noise" ∨ input = "detail" := by simpa using hinput
    · exact ⟨⟨_, rfl⟩, hnoise⟩
    · exact ⟨⟨_, rfl⟩, hdetail⟩
  refine ⟨⟨fun node hnode => ?_, ⟨_, rfl⟩, ?_⟩, fun node hnode => ?_, fun node hnode => ?_, ?_⟩
  · rcases mem_product hnode with rfl | rfl | rfl
    · simp [NodeSpec.references, PositionSource.references]
    · simp [NodeSpec.references, PositionSource.references]
    · exact hinputs
  · exact FastNoiseState.acc_of_references rfl fun ref href => (hinputs ref href).acyclic
  · rcases hnode with hnode | hnode
    · simpa using mem_product hnode
    · simpa using mem_product hnode
  · obtain rfl : node = ⟨"field", ["noise", "detail"], .mul, []⟩ := by simpa using mem_product hnode
    exact ⟨Nat.le_refl 2, by decide, Nat.le_refl 0, by simp⟩
  · decide

/-- **A product of two samples** means the same when it is compiled. -/
theorem meaning_preserved_product :
    PreservesMeaning ⟨true⟩ Numerics.silent (product ["noise", "detail"]) [.oneSample .d2] := by
  refine (meaning_preserved wellTyped_product (by simp [ChunkQuery.oneSample]; rfl) (by decide)
    Numerics.silent).1 ⟨inputsFit_product "noise" "detail", ?_, fun node hnode => ?_, ?_⟩
  · rintro ⟨-, hover⟩
    revert hover
    decide
  · rcases mem_product hnode with rfl | rfl | rfl
    · trivial
    · trivial
    · exact Nat.zero_le _
  · rw [List.forall_mem_singleton]
    intro _
    decide

/-- A sample in three dimensions. -/
def cave : FastNoiseState where
  dimension := .d3
  finalField := "cave"
  nodes := { slots := [⟨0, some (.sample3D ⟨"cave", .base, perlin⟩)⟩], len := 1 }
  nodeKeys id := if id = "cave" then some ⟨0, 0⟩ else none

/-- A grid without depth, whose area does not fit in a `usize`. -/
def flatGrid : ChunkQuery :=
  .grid3D (2 ^ 33) (2 ^ 31) 0 F32.zero F32.zero F32.zero F32.one F32.one F32.one

/-- **An area that overflows** on the way to no samples: the encoder panics. -/
theorem flat_grid_not_preserved :
    FastNoiseState.fromSpec ⟨.d3, [.sample3D ⟨"cave", .base, perlin⟩], "cave"⟩ = .ok cave ∧
      cave.WellTyped ∧ flatGrid.dimension = cave.dimension ∧
      ([flatGrid].map ChunkQuery.samples).sum = 0 ∧
      ¬ PreservesMeaning ⟨true⟩ Numerics.silent cave [flatGrid] := by
  have hnode : ∀ node ∈ cave.nodes.values, node = .sample3D ⟨"cave", .base, perlin⟩ := by
    simp [cave, SlotTable.values]
  refine ⟨rfl, ⟨⟨fun node hmem => ?_, ⟨_, rfl⟩, ?_⟩, fun _ _ => rfl, fun node hmem => ?_, ?_⟩, rfl,
    rfl, fun h => ?_⟩
  · rw [hnode node hmem]
    simp [NodeSpec.references, PositionSource.references]
  · exact FastNoiseState.acc_of_references rfl
      (by simp [NodeSpec.references, PositionSource.references])
  · cases hnode _ hmem
  · decide
  · have harea := h.areas (by decide) flatGrid (List.mem_singleton_self flatGrid) rfl
    revert harea
    decide

end Braids
