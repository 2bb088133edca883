import Braids.FastNoise.Preservation

/-!
# Packets That Fit Their Plan

A debug build validates the packet of a job before and after every stage. The packets of a
compiled graph are always valid, also recycled ones: the kernels of its plan write to declared
slots only, and all slots that are not declared are empty.

## Main results

* `Declared.valid`: packets that fit a compiled plan are valid.
* `Compilation.declared_encode`: the encoder makes a cleared packet fit.
* `Compilation.declared_stage`: a stage of the plan leaves it fitting.
-/

namespace Braids

open Toposort CompileSlots Dataflow

/-! ### Slots and their kinds -/

/-- The kind of buffer that a slot has in every plan. -/
def slotKind (slot : BufferSlot) : ElementKind :=
  if slot = slotQueryMeta ∨ slot = slotQueryOffsets then .u32 else .f32

/-- All buffers hold floats, but those of the sizes and offsets of queries. -/
def FloatSlots (p : JobPacket) : Prop :=
  ∀ slot data, p.view slot = some data → slotKind slot = .f32 → data.kind = .f32

/-- The buffers are of the kinds that they are declared with, and those that are not declared
are empty. -/
structure Declared (specs : List BufferSpec) (p : JobPacket) : Prop where
  wf : p.Wf
  kinds : ∀ slot data, p.view slot = some data → data.kind = slotKind slot
  empty : ∀ slot data, p.view slot = some data → specOf specs slot = none → data.len = 0

/-- What a plan declares: vectors that grow with the batch, each slot with its kind. -/
def Sorted (specs : List BufferSpec) : Prop :=
  ∀ slot spec, specOf specs slot = some spec →
    spec.elementKind = slotKind slot ∧ spec.layout = .dynamic

/-- A slot for floats that is declared. -/
def FloatSlot (specs : List BufferSpec) (slot : BufferSlot) : Prop :=
  (specOf specs slot).isSome = true ∧ slotKind slot = .f32

/-- Slots from the start of the dynamic slots on hold floats. -/
theorem slotKind_of_le {slot : BufferSlot} (h : slotDynamicStart ≤ slot.index) :
    slotKind slot = .f32 := by
  refine if_neg ?_
  rintro (rfl | rfl)
  · exact absurd h (by decide)
  · exact absurd h (by decide)

/-- The base slots hold floats. -/
theorem slotKind_of_base {d : GraphDimension} {slot : BufferSlot}
    (h : slot ∈ (basePositionSlots d).coords) : slotKind slot = .f32 := by
  have hall : ∀ slot ∈ baseCoords, slotKind slot = .f32 := by decide
  refine hall slot ?_
  cases d with
  | d2 => exact List.mem_of_mem_take (i := 2) h
  | d3 => exact h

namespace Declared

variable {specs : List BufferSpec} {p p' : JobPacket}

/-- **Packets that fit a plan are valid.** -/
theorem valid {M : Type} {plan : CompiledPlan M} (hsorted : Sorted plan.pipeline.buffers)
    (h : Declared plan.pipeline.buffers p) : plan.validatePacket p = .ok () := by
  refine (JobPacket.validatePacket_iff h.wf).mpr fun slot data hview => ?_
  rw [validateDescriptor]
  split
  · next hnone => rw [if_pos (h.empty slot data hview hnone)]
  · next spec hspec =>
      obtain ⟨hkind, hlayout⟩ := hsorted slot spec hspec
      rw [if_neg (by rw [hkind, h.kinds slot data hview]; simp), BufferSpec.validateLen, hlayout]

/-- A call that writes floats to declared slots leaves a packet fitting. -/
theorem of_run {α : Type} {m : PacketM α} {r : BraidResult α} (h : Declared specs p)
    (hwrites : m.Writes .f32) (hwithin : m.Within (FloatSlot specs))
    (hrun : m.run p = some (r, p')) : Declared specs p' := by
  obtain ⟨hwf, -, hview⟩ := hwrites p p' r h.wf hrun
  obtain ⟨-, -, hsame⟩ := hwithin p p' r h.wf hrun
  refine ⟨hwf, fun slot data hdata => ?_, fun slot data hdata hnone => ?_⟩
  · by_cases hslot : FloatSlot specs slot
    · rcases hview slot with hold | ⟨values, hnew⟩
      · exact h.kinds slot data (hold ▸ hdata)
      · obtain rfl := Option.some.inj (hnew.symm.trans hdata)
        rw [BufferData.kind_ofList, hslot.2]
    · exact h.kinds slot data (hsame slot hslot ▸ hdata)
  · have hslot : ¬ FloatSlot specs slot := by
      rintro ⟨hsome, -⟩
      simp [hnone] at hsome
    exact h.empty slot data (hsame slot hslot ▸ hdata) hnone

end Declared

/-! ### Compiled plans -/

/-- Declarations that say that a slot has its kind. -/
theorem sorted_of_mem {specs : List BufferSpec}
    (h : ∀ spec ∈ specs, spec.elementKind = slotKind spec.slot ∧ spec.layout = .dynamic) :
    Sorted specs := by
  intro slot spec hspec
  obtain rfl : spec.slot = slot := by simpa using List.find?_some hspec
  exact h spec (List.mem_of_find?_eq_some hspec)

namespace Compilation

variable {build : Build} {state : FastNoiseState} {plan : CompiledPlan FastNoisePlannerMeta}
  (c : Compilation build state plan)

/-- What a compiled plan declares. -/
theorem buffers_eq : plan.pipeline.buffers = queryBuffers state.dimension ++
    (c.order.flatMap c.slots.coords).map dynamicF32Buffer :=
  (congrArg (·.pipeline.buffers) c.plan_eq).trans c.allocation.2.2.2

include c in
/-- The base slots are declared. -/
theorem floatSlot_of_base {slot : BufferSlot}
    (h : slot ∈ (basePositionSlots state.dimension).coords) :
    FloatSlot plan.pipeline.buffers slot := by
  refine ⟨specOf_isSome.mpr ⟨⟨slot, .f32, .dynamic⟩, ?_, rfl⟩, slotKind_of_base h⟩
  rw [c.buffers_eq]
  have hall : ∀ d, ∀ slot ∈ (basePositionSlots d).coords,
      (⟨slot, .f32, .dynamic⟩ : BufferSpec) ∈ queryBuffers d := by
    intro d
    cases d <;> decide
  exact List.mem_append_left _ (hall _ slot h)

variable (hfits : c.Fits)
include hfits

/-- **A compiled plan** declares every slot with its kind. -/
theorem sorted : Sorted plan.pipeline.buffers := by
  refine sorted_of_mem fun spec hspec => ?_
  rw [c.buffers_eq] at hspec
  rcases List.mem_append.mp hspec with hquery | hdynamic
  · have hall : ∀ d, ∀ spec ∈ queryBuffers d,
        spec.elementKind = slotKind spec.slot ∧ spec.layout = .dynamic := by
      intro d
      cases d <;> decide
    exact hall _ spec hquery
  · obtain ⟨slot, hslot, rfl⟩ := List.mem_map.mp hdynamic
    obtain ⟨handle, hmem, hcoord⟩ := List.mem_flatMap.mp hslot
    exact ⟨(slotKind_of_le (c.le_of_mem_coords hfits hmem hcoord)).symm, rfl⟩

/-- The slots of the scheduled nodes are declared. -/
theorem floatSlot_of_coords {handle : ℕ} (hmem : handle ∈ c.order) {slot : BufferSlot}
    (h : slot ∈ c.slots.coords handle) : FloatSlot plan.pipeline.buffers slot := by
  refine ⟨specOf_isSome.mpr ⟨dynamicF32Buffer slot, ?_, rfl⟩,
    slotKind_of_le (c.le_of_mem_coords hfits hmem h)⟩
  rw [c.buffers_eq]
  exact List.mem_append_right _ (List.mem_map_of_mem (List.mem_flatMap_of_mem hmem h))

/-- The kernel of a supported node reads and writes declared slots. -/
theorem floatSlot_of_kernel {handle : ℕ} (hmem : handle ∈ c.order) {payload : KernelPayload}
    (hpayload : c.slots.payload (.build state) handle = .ok payload)
    (hgood : ∀ node, state.nodes.values[handle]? = some node →
      node.Supported state.dimension) {slot : BufferSlot}
    (h : slot ∈ payload.prepared.reads ++ payload.prepared.writes) :
    FloatSlot plan.pipeline.buffers slot := by
  obtain ⟨node, hnode⟩ := c.node_of_mem hmem
  obtain ⟨hwrites, hreads⟩ := c.kernel_reads hnode hpayload
  rcases List.mem_append.mp h with hread | hwrite
  · obtain ⟨slots, hslots⟩ := (hgood node hnode).readable.read_ports
      (basePositionSlots state.dimension).length_coords (c.widths hmem hnode)
    have hslots' := mapM_eq_some.mp hslots
    have hbase : node.ports.mapM (Port.read baseCoords ((c.depsOf handle).map c.slots.coords)) =
        some slots :=
      mapM_eq_some.mpr (hslots'.imp fun _ _ hport => Port.read_baseCoords hport)
    rw [hreads slots hbase] at hread
    obtain ⟨port, -, hport⟩ := exists_of_mem_right hslots' hread
    rcases Port.mem_of_read hport with hin | ⟨arg, harg, hin⟩
    · exact c.floatSlot_of_base hin
    · obtain ⟨dep, hdep, rfl⟩ := List.mem_map.mp harg
      obtain ⟨ref, -, hfound⟩ := exists_of_mem_right (c.found hmem hnode) hdep
      exact c.floatSlot_of_coords hfits hfound.1 hin
  · exact c.floatSlot_of_coords hfits hmem (hwrites ▸ hwrite)

/-- A stage of a compiled graph runs kernels that read and write declared slots. -/
theorem stage_within (num : Numerics) (hgood : state.Runnable) (i : ℕ) :
    (runStage num ((.gridInit state.dimension :: c.kernels).map ([·])) i).Within
      (FloatSlot plan.pipeline.buffers) := by
  refine KernelLoops.plain.runStage_obeys num
    (fun kernels hstage kernel hkernel slot hslot => ?_) ()
  have hfloat : FloatSlot plan.pipeline.buffers slot := by
    rw [List.getElem?_map, Option.map_eq_some_iff] at hstage
    obtain ⟨_, hstage, rfl⟩ := hstage
    obtain rfl := List.mem_singleton.mp hkernel
    rcases List.mem_cons.mp (List.mem_of_getElem? hstage) with rfl | hmem
    · exact c.floatSlot_of_base hslot
    · obtain ⟨payload, hpayload, rfl⟩ := List.mem_map.mp hmem
      obtain ⟨handle, horder, hemit⟩ := exists_of_mem_right c.forall₂_payloads hpayload
      exact c.floatSlot_of_kernel hfits horder hemit
        (fun node hnode => (hgood node (c.scheduled horder hnode)).1) hslot
  exact fun _ _ hnot => absurd hfloat hnot

/-- **A stage of a compiled graph** leaves a packet fitting. -/
theorem declared_stage {num : Numerics} (hgood : state.Runnable) {i : ℕ} {p p' : JobPacket}
    {r : BraidResult Unit} (h : Declared plan.pipeline.buffers p)
    (hrun : (runStage num ((.gridInit state.dimension :: c.kernels).map ([·])) i).run p =
      some (r, p')) : Declared plan.pipeline.buffers p' :=
  h.of_run (KernelLoops.plain.runStage_writes num _ i ()) (c.stage_within hfits num hgood i) hrun

omit hfits in
include c in
/-- **The encoder** makes a cleared packet fit. -/
theorem declared_encode {queries : List ChunkQuery}
    (hbatch : BatchFits build plan.plannerMeta.dimension queries) {p p' : JobPacket} (hp : p.Wf)
    (hempty : ∀ slot data, p.view slot = some data → data.len = 0) (hfloats : FloatSlots p)
    (hrun : (encodeBatch build plan queries).run p = some (.ok (), p')) :
    Declared plan.pipeline.buffers p' := by
  obtain ⟨p₁, hrun₁, hencoded, hother⟩ := encodeBatch_spec hbatch hp
  obtain ⟨-, rfl⟩ := PacketM.run_unique hrun hrun₁
  have hdeclared : ∀ d, ∀ slot ∈ [slotQueryMeta, slotQueryF32, slotQueryOffsets],
      ∃ spec ∈ queryBuffers d, spec.slot = slot := by
    intro d
    cases d <;> decide
  have hquery : ∀ slot ∈ [slotQueryMeta, slotQueryF32, slotQueryOffsets],
      specOf plan.pipeline.buffers slot ≠ none := by
    intro slot hslot
    obtain ⟨spec, hspec, hsame⟩ := hdeclared state.dimension slot hslot
    refine Option.isSome_iff_ne_none.mp (specOf_isSome.mpr ⟨spec, ?_, hsame⟩)
    rw [c.buffers_eq]
    exact List.mem_append_left _ hspec
  have hcases : ∀ slot, slot = slotQueryMeta ∨ slot = slotQueryF32 ∨ slot = slotQueryOffsets ∨
      slotKind slot = .f32 ∧ p'.view slot = p.view slot := by
    intro slot
    by_cases hmeta : slot = slotQueryMeta
    · exact .inl hmeta
    by_cases hf32 : slot = slotQueryF32
    · exact .inr (.inl hf32)
    by_cases hoffsets : slot = slotQueryOffsets
    · exact .inr (.inr (.inl hoffsets))
    refine .inr (.inr (.inr ⟨if_neg ?_, hother slot hmeta hf32 hoffsets⟩))
    exact not_or.mpr ⟨hmeta, hoffsets⟩
  refine ⟨hencoded.wf, fun slot data hdata => ?_, fun slot data hdata hnone => ?_⟩
  · rcases hcases slot with rfl | rfl | rfl | ⟨hkind, hsame⟩
    · obtain rfl := Option.some.inj (hencoded.metas.symm.trans hdata)
      rfl
    · obtain rfl := Option.some.inj (hencoded.floats.symm.trans hdata)
      rfl
    · obtain rfl := Option.some.inj (hencoded.offsets.symm.trans hdata)
      rfl
    · rw [hfloats slot data (hsame ▸ hdata) hkind, hkind]
  · rcases hcases slot with rfl | rfl | rfl | ⟨-, hsame⟩
    · exact absurd hnone (hquery _ (by simp))
    · exact absurd hnone (hquery _ (by simp))
    · exact absurd hnone (hquery _ (by simp))
    · exact hempty slot data (hsame ▸ hdata)

end Compilation

end Braids
