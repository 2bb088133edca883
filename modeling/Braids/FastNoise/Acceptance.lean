import Braids.FastNoise.Stages
import Braids.FastNoise.Faithful

/-!
# What the Compiler Accepts

Plans that `compile_graph` returns, that are valid and that the backend prepares, on every
batch that is encoded. The compiler checks the references of nodes, not their operands.

## Main results

* `ChunkQuery.sampleCount_spec`: when the samples of a query can be counted.
* `Compilation.run_plan`: all stages of a plan whose scheduled nodes are supported.
* `accepted_graph_runs`: accepted plans run on every batch when their nodes are supported.
-/

namespace Braids

open Toposort CompileSlots Dataflow

/-! ### Batches -/

/-- The area of a grid can be counted in a `usize`, if overflow is checked. -/
def ChunkQuery.AreaFits (build : Build) (query : ChunkQuery) : Prop :=
  build.overflowChecks = true → query.size.1 * query.size.2.1 < usizeLimit

/-- A query with one sample. -/
def ChunkQuery.oneSample : GraphDimension → ChunkQuery
  | .d2 => .grid2D 1 1 F32.zero F32.zero F32.one F32.one
  | .d3 => .grid3D 1 1 1 F32.zero F32.zero F32.zero F32.one F32.one F32.one

/-- **Counting the samples of a query** that fit in a `u32`: the area on the way may not fit
if the grid has no depth. -/
theorem ChunkQuery.sampleCount_spec {build : Build} {query : ChunkQuery}
    (h : query.samples < 2 ^ 32) :
    (query.AreaFits build → query.sampleCount build = .ok query.samples) ∧
      (¬ query.AreaFits build → query.sampleCount build = .panicked) := by
  have hlimit : 2 ^ 32 ≤ usizeLimit := by decide
  cases query with
  | grid2D width height =>
      have hlt : width * height < usizeLimit := Nat.lt_of_lt_of_le h hlimit
      exact ⟨fun _ => build.unsigned_of_lt hlt, fun hnot => absurd (fun _ => hlt) hnot⟩
  | grid3D width height depth =>
      have hcount : width * height * depth < usizeLimit := Nat.lt_of_lt_of_le h hlimit
      rw [sampleCount, sampleCount3d]
      by_cases harea : width * height < usizeLimit
      · rw [build.unsigned_of_lt harea, HookResult.ok_bind]
        exact ⟨fun _ => build.unsigned_of_lt hcount, fun hnot => absurd (fun _ => harea) hnot⟩
      · cases hchecks : build.overflowChecks with
        | true =>
            have hpanic : build.unsigned usizeLimit (width * height) = .panicked := by
              rw [Build.unsigned, if_neg harea, if_pos hchecks]
            rw [hpanic, HookResult.panicked_bind]
            exact ⟨fun hfits => absurd (hfits hchecks) harea, fun _ => rfl⟩
        | false =>
            -- the area wraps around, but there is no depth
            have hdepth : depth = 0 := by
              by_contra hne
              have hle := Nat.le_mul_of_pos_right (width * height) (Nat.pos_of_ne_zero hne)
              omega
            subst hdepth
            have hwrap : build.unsigned usizeLimit (width * height) =
                .ok (width * height % usizeLimit) := by
              rw [Build.unsigned, if_neg harea, if_neg (by simp [hchecks])]
            rw [hwrap, HookResult.ok_bind]
            refine ⟨fun _ => ?_, fun hnot => absurd (fun hb => ?_) hnot⟩
            · exact build.unsigned_of_lt (by rw [Nat.mul_zero]; decide)
            · rw [hchecks] at hb
              cases hb

/-- The samples of the queries of a batch that the encoder takes can be counted. -/
theorem areaFits_of_encodeQueries {build : Build} {d : GraphDimension} {s s' : EncodeState}
    {index : ℕ} {queries : List ChunkQuery}
    (htotal : (queries.map ChunkQuery.samples).sum < 2 ^ 32)
    (h : encodeQueries build d s index queries = .ok s') :
    ∀ query ∈ queries, query.AreaFits build := by
  induction queries generalizing s index with
  | nil => simp
  | cons query queries ih =>
      rw [List.map_cons, List.sum_cons] at htotal
      rw [encodeQueries] at h
      split at h
      · simp at h
      · obtain ⟨count, hcount, h⟩ := HookResult.bind_eq_ok.mp h
        obtain ⟨cursor, -, h⟩ := HookResult.bind_eq_ok.mp h
        rw [List.forall_mem_cons]
        refine ⟨?_, ih (by omega) h⟩
        by_contra hnot
        rw [(ChunkQuery.sampleCount_spec (by omega)).2 hnot] at hcount
        cases hcount

/-- A batch whose sample count fits in a `u32` fits when its areas do. -/
theorem batchFits_of_areaFits {build : Build} {d : GraphDimension} {queries : List ChunkQuery}
    (hdim : ∀ query ∈ queries, query.dimension = d)
    (htotal : (queries.map ChunkQuery.samples).sum < 2 ^ 32)
    (harea : ∀ query ∈ queries, query.AreaFits build) : BatchFits build d queries := by
  refine ⟨hdim, htotal, fun query hquery => (ChunkQuery.sampleCount_spec ?_).1 (harea query hquery)⟩
  have hle : query.samples ≤ (queries.map ChunkQuery.samples).sum :=
    List.le_sum_of_mem (List.mem_map_of_mem hquery)
  omega

/-- A batch that is encoded fits. -/
theorem batchFits_of_encodeBatch {build : Build} {plan : CompiledPlan FastNoisePlannerMeta}
    {queries : List ChunkQuery} (htotal : (queries.map ChunkQuery.samples).sum < 2 ^ 32)
    {p p₁ : JobPacket} (hp : p.Wf)
    (hencode : (encodeBatch build plan queries).run p = some (.ok (), p₁)) :
    BatchFits build plan.plannerMeta.dimension queries := by
  obtain ⟨-, hdim⟩ := encodeBatch_run hp hencode
  refine batchFits_of_areaFits hdim htotal ?_
  obtain ⟨metaValues, floatValues, offsetValues, -, -, -, hloop⟩ :=
    encodeBatch_loop build plan queries hp
  obtain hpanic | ⟨⟨s, hok⟩, -⟩ := encodeQueries_cases build plan.plannerMeta.dimension
    { metaValues, floatValues, offsetValues := offsetValues.set 0 0, cursor := 0 } 0 queries
  · rw [hpanic] at hloop
    exact absurd (hloop.symm.trans hencode) (Option.some_ne_none _).symm
  · exact areaFits_of_encodeQueries htotal hok

/-- **The first stage** lays the points of a batch out. -/
theorem laidOut_of_gridInit (num : Numerics) {d : GraphDimension} {queries : List ChunkQuery}
    (hdim : ∀ query ∈ queries, query.dimension = d)
    (htotal : (queries.map ChunkQuery.samples).sum < 2 ^ 32) {p : JobPacket}
    (hp : Encoded queries p) :
    ∃ p₀, (runGridInit num d).run p = some (.ok (), p₀) ∧
      LaidOut d (batchPoints num queries) p₀ ∧
      ∀ slot ∉ (basePositionSlots d).coords, p₀.view slot = p.view slot := by
  obtain ⟨p₀, hrun, hwf, -, hbase, hother⟩ := runGridInit_spec num hdim htotal hp
  refine ⟨p₀, hrun,
    ⟨hwf, ⟨0 :: endOffsets 0 queries, ?_, ?_⟩, ⟨hbase, rfl, fun v hv => ?_⟩⟩, hother⟩
  · rw [hother slotQueryOffsets (by cases d <;> decide)]
    exact hp.offsets
  · rw [totalSamples_endOffsets htotal, length_batchPoints]
  · rw [length_of_mem_batchPoints hdim hv, (basePositionSlots d).length_coords]

/-! ### Scheduled nodes -/

namespace FastNoiseState

/-- The node is compiled: none of its references is on or behind a cycle. -/
def Scheduled (state : FastNoiseState) (node : NodeSpec) : Prop :=
  node ∈ state.nodes.values ∧ ∀ ref ∈ node.references, Acc state.DependsOn ref.1

/-- No scheduled node has more inputs than their encoded count can tell. -/
def InputsFit (state : FastNoiseState) : Prop := ∀ node, state.Scheduled node → node.InputsFit

/-- Every scheduled node is supported, with the parameters that survive the encoding. -/
def Runnable (state : FastNoiseState) : Prop :=
  ∀ node, state.Scheduled node → node.Supported state.dimension ∧ node.ParamsFit

end FastNoiseState

/-! ### Plans -/

/-- All stages of a plan return on a packet, and each kernel finds what it needs. -/
structure RunsSafely (num : Numerics) (plan : CompiledPlan FastNoisePlannerMeta)
    (prepared : List (List CpuKernel)) (total : ℕ) (p : JobPacket) : Prop where
  returns : ∃ p', (runAllStages num plan prepared).run p = some (.ok (), p')
  safe : ∀ before kernel after, prepared.flatten = before ++ kernel :: after →
    ∃ p', (runKernels num before).run p = some (.ok (), p') ∧ kernel.Safe before total p'

/-- A plan runs on every batch that is encoded. -/
def RunsAll (build : Build) (num : Numerics) (plan : CompiledPlan FastNoisePlannerMeta)
    (prepared : List (List CpuKernel)) : Prop :=
  ∀ queries : List ChunkQuery, (∀ query ∈ queries, query.dimension = plan.plannerMeta.dimension) →
    (queries.map ChunkQuery.samples).sum < 2 ^ 32 → ∀ p p₁ : JobPacket, p.Wf →
      (encodeBatch build plan queries).run p = some (.ok (), p₁) →
        RunsSafely num plan prepared (queries.map ChunkQuery.samples).sum p₁

namespace Compilation

variable {build : Build} {state : FastNoiseState} {plan : CompiledPlan FastNoisePlannerMeta}
  (c : Compilation build state plan)

/-- The nodes of the schedule. -/
theorem scheduled {handle : ℕ} (hmem : handle ∈ c.order) {node : NodeSpec}
    (hnode : state.nodes.values[handle]? = some node) : state.Scheduled node :=
  ⟨List.mem_of_getElem? hnode, (c.collectedDeps.mem_toposort hnode).mp hmem⟩

/-- A scheduled node is in the schedule. -/
theorem exists_of_scheduled {node : NodeSpec} (h : state.Scheduled node) :
    ∃ handle ∈ c.order, state.nodes.values[handle]? = some node := by
  obtain ⟨handle, hnode⟩ := List.getElem?_of_mem h.1
  exact ⟨handle, (c.collectedDeps.mem_toposort hnode).mpr h.2, hnode⟩

/-- The plan is for the dimension of the graph. -/
theorem plannerMeta_eq : plan.plannerMeta = ⟨state.dimension, c.finalSlot⟩ :=
  congrArg (·.plannerMeta) c.plan_eq

/-- The stages of the plan: the sample grid, and one stage for each scheduled node. -/
theorem stages_eq : plan.pipeline.stages =
    initStage state.dimension :: c.payloads.map fun payload => ⟨[payload.encode]⟩ :=
  congrArg (·.pipeline.stages) c.plan_eq

/-- **Preparing a plan** whose inputs fit: one kernel for each stage. -/
theorem prepare_eq (h : state.InputsFit) :
    prepareStages plan.pipeline.stages =
      .ok ((.gridInit state.dimension :: c.kernels).map ([·])) := by
  have hpayloads : List.Forall₂ (fun payload kernel =>
      HookResult.traverse (fun kernel => .ofResult (prepareKernel kernel)) [payload.encode] =
        .ok kernel) c.payloads (c.kernels.map ([·])) := by
    rw [kernels, List.map_map, List.forall₂_map_right_iff, List.forall₂_same]
    intro payload hpayload
    obtain ⟨handle, hmem, hemit⟩ := exists_of_mem_right c.forall₂_payloads hpayload
    obtain ⟨node, hnode⟩ := c.node_of_mem hmem
    have hfit := (c.emits hmem hnode hemit).1.1.mpr (h node (c.scheduled hmem hnode))
    simp [HookResult.traverse, prepareKernel_encode hfit, HookResult.ofResult]
  rw [c.stages_eq, prepareStages, HookResult.traverse_eq_ok, List.map_cons]
  refine .cons ?_ ?_
  · cases state.dimension <;> rfl
  · rw [List.forall₂_map_left_iff]
    exact hpayloads

/-- As many stages as kernels. -/
theorem length_stages :
    plan.pipeline.stages.length = (CpuKernel.gridInit state.dimension :: c.kernels).length := by
  simp [c.stages_eq, kernels]

section Run

variable (num : Numerics) {queries : List ChunkQuery} {p : JobPacket} (hfits : c.Fits)
  (hdim : ∀ query ∈ queries, query.dimension = state.dimension)
  (htotal : (queries.map ChunkQuery.samples).sum < 2 ^ 32) (hp : Encoded queries p)
include hfits hdim htotal hp

/-- **All stages of a plan** whose scheduled nodes are supported: the slots of the nodes hold
their values at the points of the batch. -/
theorem run_plan (hgood : state.Runnable) :
    ∃ p₀ p' values, (runAllStages num plan
        ((.gridInit state.dimension :: c.kernels).map ([·]))).run p = some (.ok (), p') ∧
      LaidOut state.dimension (batchPoints num queries) p₀ ∧
      (∀ slot ∉ (basePositionSlots state.dimension).coords, p₀.view slot = p.view slot) ∧
      Computed c num (batchPoints num queries) p₀ c.order values p' := by
  obtain ⟨p₀, hrun₀, hlaid, hother⟩ := laidOut_of_gridInit num hdim htotal hp
  have horder : c.order = [] ++ c.order ++ [] := by simp
  obtain ⟨p', values, hrun, h⟩ := c.run_rest hlaid hfits horder c.forall₂_payloads
    (fun handle hmem node hnode => hgood node (c.scheduled hmem hnode))
    (computed_nil hlaid fun _ => [])
  refine ⟨p₀, p', values, ?_, hlaid, hother, h⟩
  rw [runAllStages_singletons num plan c.length_stages, runKernels_cons]
  exact PacketM.run_bind_eq_ok.mpr ⟨(), p₀, hrun₀, hrun⟩

/-- A plan whose scheduled nodes are supported runs, and every kernel finds what it needs. -/
theorem runsSafely (hgood : state.Runnable) :
    RunsSafely num plan ((.gridInit state.dimension :: c.kernels).map ([·]))
      (queries.map ChunkQuery.samples).sum p := by
  obtain ⟨-, p', -, hrun, -⟩ := c.run_plan num hfits hdim htotal hp hgood
  refine ⟨⟨p', hrun⟩, fun before kernel after hsplit => ?_⟩
  have hflat : ∀ l : List CpuKernel, (l.map ([·])).flatten = l := by
    intro l
    induction l with
    | nil => rfl
    | cons a l ih => rw [List.map_cons, List.flatten_cons, ih, List.singleton_append]
  rw [hflat] at hsplit
  cases before with
  | nil =>
      obtain ⟨rfl, -⟩ := List.cons.inj hsplit
      exact ⟨p, rfl, ⟨by simp [CpuKernel.reads], by simp [CpuKernel.reads],
        nodup_basePositionSlots _, trivial⟩⟩
  | cons first before =>
      obtain ⟨rfl, hkernels⟩ := List.cons.inj hsplit
      -- the kernels before this one are those of the nodes before this one
      obtain ⟨done, rest, hpayloads, rfl, hrest⟩ := List.map_eq_append_iff.mp hkernels
      obtain ⟨payload, later, rfl, rfl, -⟩ := List.map_eq_cons_iff.mp hrest
      have hall := c.forall₂_payloads
      rw [hpayloads] at hall
      have hdone := List.forall₂_take_append _ _ _ hall
      have hmore := List.forall₂_drop_append _ _ _ hall
      cases hdrop : c.order.drop done.length with
      | nil =>
          rw [hdrop] at hmore
          cases hmore
      | cons handle more =>
          rw [hdrop] at hmore
          obtain ⟨hpayload, -⟩ := List.forall₂_cons.mp hmore
          have horder : c.order = [] ++ c.order.take done.length ++ handle :: more := by
            rw [List.nil_append, ← hdrop, List.take_append_drop]
          have hgood' : ∀ other ∈ c.order, ∀ node, state.nodes.values[other]? = some node →
              node.Supported state.dimension ∧ node.ParamsFit :=
            fun other ho node hnode => hgood node (c.scheduled ho hnode)
          obtain ⟨p₀, hrun₀, hlaid, -⟩ := laidOut_of_gridInit num hdim htotal hp
          obtain ⟨p₁, values, hrun₁, h⟩ := c.run_rest hlaid hfits horder hdone
            (fun other ho => hgood' other (List.mem_of_mem_take ho))
            (computed_nil hlaid fun _ => [])
          have hmem : handle ∈ c.order := by
            rw [horder]
            simp
          refine ⟨p₁, ?_, ?_⟩
          · rw [runKernels_cons]
            exact PacketM.run_bind_eq_ok.mpr ⟨(), p₀, hrun₀, hrun₁⟩
          · have hsafe := c.kernel_safe hlaid hfits horder hpayload (hgood' handle hmem) hdone h
            rwa [length_batchPoints] at hsafe

/-- **Scheduled nodes of a plan that returns** are supported, if the batch has samples, and
their parameters survive the encoding. -/
theorem runnable_of_returns (hbase : state.dimension = .d2 → p.view slotBaseZ = none)
    (hne : batchPoints num queries ≠ [] ∨ ∀ node, state.Scheduled node →
      node.Supported state.dimension) {p' : JobPacket}
    (hrun : (runAllStages num plan ((.gridInit state.dimension :: c.kernels).map ([·]))).run p =
      some (.ok (), p')) : state.Runnable := by
  rw [runAllStages_singletons num plan c.length_stages, runKernels_cons] at hrun
  obtain ⟨_, p₀, hrun₀, hrest⟩ := PacketM.run_bind_eq_ok.mp hrun
  obtain ⟨p₁, hrun₁, hlaid, hother⟩ := laidOut_of_gridInit num hdim htotal hp
  obtain ⟨-, rfl⟩ := PacketM.run_unique hrun₀ hrun₁
  have hdepth : state.dimension = .d2 → p₀.view slotBaseZ = none := by
    intro hd
    rw [hother slotBaseZ (by rw [hd]; decide), hbase hd]
  intro node hnode
  obtain ⟨handle, hmem, hget⟩ := c.exists_of_scheduled hnode
  have horder : c.order = [] ++ c.order := rfl
  exact c.supported_of_run_rest hlaid hfits hdepth horder
    (hne.imp_right fun hall other ho target htarget => hall target (c.scheduled ho htarget))
    c.forall₂_payloads (computed_nil hlaid fun _ => []) hrest handle hmem node hget

end Run

/-- A plan that runs on a batch of one sample, from a fresh packet, has supported nodes. -/
theorem runnable_of_runsAll {num : Numerics} (hfits : c.Fits)
    (h : RunsAll build num plan ((.gridInit state.dimension :: c.kernels).map ([·]))) :
    state.Runnable := by
  have hmeta : plan.plannerMeta.dimension = state.dimension := by rw [c.plannerMeta_eq]
  have hdim : ∀ query ∈ [ChunkQuery.oneSample state.dimension],
      query.dimension = state.dimension := by
    rw [List.forall_mem_singleton]
    cases state.dimension <;> rfl
  have hsamples : ([ChunkQuery.oneSample state.dimension].map ChunkQuery.samples).sum = 1 := by
    cases state.dimension <;> rfl
  have htotal : ([ChunkQuery.oneSample state.dimension].map ChunkQuery.samples).sum < 2 ^ 32 := by
    rw [hsamples]
    decide
  have harea : ∀ query ∈ [ChunkQuery.oneSample state.dimension], query.AreaFits build := by
    rw [List.forall_mem_singleton]
    intro _
    cases state.dimension <;> decide
  have hbatch : BatchFits build plan.plannerMeta.dimension _ :=
    batchFits_of_areaFits (hmeta ▸ hdim) htotal harea
  obtain ⟨p₁, hencode, hencoded, hother⟩ := encodeBatch_spec hbatch JobPacket.wf_default
  obtain ⟨p', hrun⟩ := (h _ (hmeta ▸ hdim) htotal _ _ JobPacket.wf_default hencode).returns
  refine c.runnable_of_returns num hfits hdim htotal hencoded (fun _ => ?_)
    (.inl fun hnil => ?_) hrun
  · rw [hother slotBaseZ (by decide) (by decide) (by decide), JobPacket.view_default]
  · have hlen := length_batchPoints num [ChunkQuery.oneSample state.dimension]
    rw [hnil, hsamples] at hlen
    simp at hlen

end Compilation

/-! ### Accepted graphs -/

/-- **What the compiler accepts, runs** on every batch when the scheduled nodes are supported,
and otherwise it does not. -/
theorem accepted_graph_runs {build : Build} {state : FastNoiseState}
    {plan : CompiledPlan FastNoisePlannerMeta} {prepared : List (List CpuKernel)}
    (hcompile : compileGraph build state = .ok plan) (hvalidate : plan.validate = .ok ())
    (hprepare : prepareStages plan.pipeline.stages = .ok prepared) (num : Numerics) :
    (state.InputsFit ∧ state.Runnable → RunsAll build num plan prepared) ∧
      (state.InputsFit → RunsAll build num plan prepared → state.Runnable) := by
  obtain ⟨c⟩ := compileGraph_eq_ok.mp hcompile
  have hfits := c.fits_of_validate hvalidate
  have hmeta : plan.plannerMeta.dimension = state.dimension := by rw [c.plannerMeta_eq]
  constructor
  · rintro ⟨hinputs, hgood⟩ queries hdim htotal p p₁ hp hencode
    obtain rfl := HookResult.ok.inj (hprepare.symm.trans (c.prepare_eq hinputs))
    have hfits' := batchFits_of_encodeBatch htotal hp hencode
    obtain ⟨p₂, hrun, hencoded, -⟩ := encodeBatch_spec hfits' hp
    obtain ⟨-, rfl⟩ := PacketM.run_unique hencode hrun
    exact c.runsSafely num hfits (hmeta ▸ hdim) htotal hencoded hgood
  · intro hinputs h
    obtain rfl := HookResult.ok.inj (hprepare.symm.trans (c.prepare_eq hinputs))
    exact c.runnable_of_runsAll hfits h

/-! ### Products to try it on -/

/-- Perlin noise. -/
def perlin : FastNoiseLite :=
  ⟨1337, ⟨0x3C23D70A⟩, .perlin, .none, .none, 3, ⟨0x40000000⟩, ⟨0x3F000000⟩, F32.zero,
    ⟨0x40000000⟩, .euclideanSq, .distance, F32.one, .openSimplex2, F32.one⟩

/-- Two samples of the base position, and a product. -/
def productSpec (inputs : List String) : FastNoiseGraphSpec where
  dimension := .d2
  nodes := [.sample2D ⟨"noise", .base, perlin⟩, .sample2D ⟨"detail", .base, perlin⟩,
    .combine ⟨"field", inputs, .mul, []⟩]
  finalField := "field"

/-- The planner state of that graph. -/
def product (inputs : List String) : FastNoiseState where
  dimension := .d2
  finalField := "field"
  nodes := { slots := (productSpec inputs).nodes.map fun node => ⟨0, some node⟩, len := 3 }
  nodeKeys id :=
    if id = "field" then some ⟨2, 0⟩ else if id = "detail" then some ⟨1, 0⟩
    else if id = "noise" then some ⟨0, 0⟩ else none

example (inputs : List String) :
    FastNoiseState.fromSpec (productSpec inputs) = .ok (product inputs) := rfl

/-- The plan and the kernels of a graph that is accepted. -/
def accepted (state : FastNoiseState) :
    CompiledPlan FastNoisePlannerMeta × List (List CpuKernel) :=
  match compileGraph ⟨true⟩ state with
  | .ok plan =>
      match prepareStages plan.pipeline.stages with
      | .ok prepared => (plan, prepared)
      | _ => (plan, [])
  | _ => (⟨⟨[], []⟩, [], ⟨.d2, slotQueryMeta⟩⟩, [])

/-- The nodes of a product. -/
theorem mem_product {inputs : List String} {node : NodeSpec}
    (h : node ∈ (product inputs).nodes.values) :
    node = .sample2D ⟨"noise", .base, perlin⟩ ∨ node = .sample2D ⟨"detail", .base, perlin⟩ ∨
      node = .combine ⟨"field", inputs, .mul, []⟩ := by
  simpa [product, productSpec, SlotTable.values] using h

/-- A product of two inputs fits. -/
theorem inputsFit_product (left right : String) : (product [left, right]).InputsFit := by
  rintro node ⟨hmem, -⟩
  rcases mem_product hmem with rfl | rfl | rfl
  · trivial
  · trivial
  · change 2 < 2 ^ 32
    decide

/-- **The product of different nodes** runs on every batch. -/
theorem accepted_graph_runs_product :
    RunsAll ⟨true⟩ Numerics.silent (accepted (product ["noise", "detail"])).1
      (accepted (product ["noise", "detail"])).2 := by
  have hcompile : compileGraph ⟨true⟩ (product ["noise", "detail"]) =
      .ok (accepted (product ["noise", "detail"])).1 := rfl
  refine (accepted_graph_runs hcompile rfl rfl Numerics.silent).1
    ⟨inputsFit_product "noise" "detail", ?_⟩
  rintro node ⟨hmem, -⟩
  rcases mem_product hmem with rfl | rfl | rfl
  · exact ⟨trivial, trivial⟩
  · exact ⟨trivial, trivial⟩
  · have hdistinct : ["noise", "detail"].Nodup := by decide
    exact ⟨⟨Nat.le_refl 2, hdistinct, Nat.le_refl 0, by simp⟩, Nat.zero_le _⟩

/-- An id is not on or behind a cycle when the references of its node are not. -/
theorem FastNoiseState.acc_of_references {state : FastNoiseState} {id : String} {node : NodeSpec}
    (h : state.node? id = some node) (hacc : ∀ ref ∈ node.references, Acc state.DependsOn ref.1) :
    Acc state.DependsOn id := by
  refine ⟨id, ?_⟩
  rintro id' ⟨node', need, hnode', href⟩
  obtain rfl := Option.some.inj (h.symm.trans hnode')
  exact hacc (id', need) href

/-- The square of a sample is scheduled. -/
theorem scheduled_square :
    (product ["noise", "noise"]).Scheduled (.combine ⟨"field", ["noise", "noise"], .mul, []⟩) := by
  refine ⟨by simp [product, productSpec, SlotTable.values], fun ref href => ?_⟩
  obtain ⟨input, hinput, rfl⟩ := List.mem_map.mp href
  obtain rfl : input = "noise" := by simpa using hinput
  exact FastNoiseState.acc_of_references rfl
    (by simp [NodeSpec.references, PositionSource.references])

/-- **The product of a node with itself** is accepted, and it does not run. -/
theorem square_accepted_not_run :
    compileGraph ⟨true⟩ (product ["noise", "noise"]) =
        .ok (accepted (product ["noise", "noise"])).1 ∧
      (accepted (product ["noise", "noise"])).1.validate = .ok () ∧
      prepareStages (accepted (product ["noise", "noise"])).1.pipeline.stages =
        .ok (accepted (product ["noise", "noise"])).2 ∧
      ¬ RunsAll ⟨true⟩ Numerics.silent (accepted (product ["noise", "noise"])).1
        (accepted (product ["noise", "noise"])).2 := by
  have hcompile : compileGraph ⟨true⟩ (product ["noise", "noise"]) =
      .ok (accepted (product ["noise", "noise"])).1 := rfl
  have hvalidate : (accepted (product ["noise", "noise"])).1.validate = .ok () := rfl
  have hprepare : prepareStages (accepted (product ["noise", "noise"])).1.pipeline.stages =
      .ok (accepted (product ["noise", "noise"])).2 := rfl
  refine ⟨hcompile, hvalidate, hprepare, fun h => ?_⟩
  obtain ⟨c⟩ := compileGraph_eq_ok.mp hcompile
  have hkernels := HookResult.ok.inj
    (hprepare.symm.trans (c.prepare_eq (inputsFit_product "noise" "noise")))
  rw [hkernels] at h
  have hgood := c.runnable_of_runsAll (c.fits_of_validate hvalidate) h
  have hdistinct : ["noise", "noise"].Nodup := (hgood _ scheduled_square).1.distinct
  simp at hdistinct

end Braids
