import Braids.FastNoise.Borrows
import Braids.FastNoise.Simulation

/-!
# Running All Stages

The stages of a compiled plan one after another: the sample grid, and then the kernels of the
scheduled nodes.

## Main results

* `runAllStages_singletons`: stages of one kernel each are run like a list of kernels.
* `Compilation.run_rest`: the kernels of supported nodes compute the values of the nodes.
* `Compilation.supported_of_run_rest`: nodes whose kernels succeed on a batch are supported.
* `Compilation.kernel_safe`: what the kernel of a supported node finds when it runs.
-/

namespace Braids

open Toposort CompileSlots Dataflow

/-! ### Stages of one kernel -/

/-- The stages of one kernel each that are left when those of `done` have run. -/
theorem runStageList_singletons (num : Numerics) (done rest : List CpuKernel) (p : JobPacket) :
    (runStageList num ((done ++ rest).map ([·])) (List.range' done.length rest.length)).run p =
      (runKernels num rest).run p := by
  induction rest generalizing done p with
  | nil => rfl
  | cons kernel rest ih =>
      have hstage : ∀ p, (runStage num ((done ++ kernel :: rest).map ([·])) done.length).run p =
          (kernel.run num).run p := by
        intro p
        have hget : ((done ++ kernel :: rest).map ([·]))[done.length]? = some [kernel] := by simp
        rw [runStage_eq, hget]
        exact PacketM.run_bind_unit _ p
      have hrest := ih (done ++ [kernel])
      rw [List.append_assoc, List.singleton_append, List.length_append,
        List.length_singleton] at hrest
      rw [List.length_cons, List.range'_succ, runStageList, runKernels_cons, PacketM.run_bind,
        PacketM.run_bind, hstage]
      simp only [hrest]

/-- **Stages of one kernel each** are run like one stage of all these kernels. -/
theorem runAllStages_singletons {M : Type} (num : Numerics) (plan : CompiledPlan M)
    {kernels : List CpuKernel} (h : plan.pipeline.stages.length = kernels.length) (p : JobPacket) :
    (runAllStages num plan (kernels.map ([·]))).run p = (runKernels num kernels).run p := by
  rw [runAllStages, h, List.range_eq_range']
  exact runStageList_singletons num [] kernels p

/-! ### What a kernel borrows -/

namespace CpuKernel

/-- Every input and parameter that the operation indexes is there. -/
def Operands : CpuKernel → Prop
  | .combine kernel => kernel.op.inputCount ≤ kernel.inputs.length ∧
      kernel.op.paramCount ≤ kernel.params.length
  | _ => True

/-- What a kernel finds in a packet when the kernels of `before` have run. -/
structure Safe (before : List CpuKernel) (total : ℕ) (p : JobPacket) (kernel : CpuKernel) :
    Prop where
  /-- Each slot that it reads was written before. -/
  written : ∀ slot ∈ kernel.reads, ∃ earlier ∈ before, slot ∈ earlier.writes
  /-- These slots have an element for each sample. -/
  filled : ∀ slot ∈ kernel.reads, ∃ values : List F32,
    p.view slot = some (.ofList .f32 values) ∧ values.length = total
  /-- The slots that it passes to `with_slices` are distinct. -/
  distinct : (kernel.reads ++ kernel.writes).Nodup
  operands : kernel.Operands

end CpuKernel

/-- The slots that the ports of an operation read are those that its kernel reads. -/
theorem CombineOp.reads_eq {op : CombineOp} {inputs slots : List BufferSlot} {output : BufferSlot}
    {params : List F32}
    (h : op.ports.mapM (Port.read baseCoords (inputs.map ([·]))) = some slots) :
    (CpuKernel.combine { op, inputs, output, params }).reads = slots := by
  rcases inputs with _ | ⟨a, _ | ⟨b, inputs⟩⟩ <;> cases op <;>
    simp_all [ports, Port.read, CpuKernel.reads, inputCount, baseCoords, basePositionSlots]
  all_goals
    subst h
    simp

namespace Compilation

variable {build : Build} {state : FastNoiseState} {plan : CompiledPlan FastNoisePlannerMeta}
  (c : Compilation build state plan)

section Kernel

variable {handle : ℕ} {payload : KernelPayload}

/-- The kernel of a warp. -/
theorem warp_reads {d : GraphDimension} {node : NoiseNode}
    (hres : List.Forall₂ (fun ref dep => (CompileNodes.build state).resolve ref.1 = some dep)
      (node.source.references d) (c.depsOf handle))
    (h : c.slots.warpPayload (.build state) d handle node = .ok payload) :
    payload.prepared.writes = c.slots.coords handle ∧
      (node.source.ports d).mapM (Port.read baseCoords ((c.depsOf handle).map c.slots.coords)) =
        some payload.prepared.reads := by
  obtain ⟨source, hsource, h⟩ := HookResult.bind_eq_ok.mp h
  obtain ⟨output, houtput, h⟩ := HookResult.bind_eq_ok.mp h
  obtain rfl := HookResult.ok.inj h
  exact ⟨(c.allocation.2.1.coords_position (expectPositionSlots_eq_ok.mp houtput)).symm,
    ((resolvePositionSource_spec c.allocation.2.1 hres).1 source hsource).1⟩

/-- The kernel of a sample. -/
theorem sample_reads {d : GraphDimension} {node : NoiseNode}
    (hres : List.Forall₂ (fun ref dep => (CompileNodes.build state).resolve ref.1 = some dep)
      (node.source.references d) (c.depsOf handle))
    (h : c.slots.samplePayload (.build state) d handle node = .ok payload) :
    payload.prepared.writes = c.slots.coords handle ∧
      (node.source.ports d).mapM (Port.read baseCoords ((c.depsOf handle).map c.slots.coords)) =
        some payload.prepared.reads := by
  obtain ⟨source, hsource, h⟩ := HookResult.bind_eq_ok.mp h
  obtain ⟨output, houtput, h⟩ := HookResult.bind_eq_ok.mp h
  obtain rfl := HookResult.ok.inj h
  exact ⟨(c.allocation.2.1.coords_scalar (expectScalarSlot_eq_ok.mp houtput)).symm,
    ((resolvePositionSource_spec c.allocation.2.1 hres).1 source hsource).1⟩

/-- **The kernel of a scheduled node** reads the slots of the ports of the node, and writes
the slots of the node. -/
theorem kernel_reads {node : NodeSpec} (hnode : state.nodes.values[handle]? = some node)
    (h : c.slots.payload (.build state) handle = .ok payload) :
    payload.prepared.writes = c.slots.coords handle ∧ ∀ slots,
      node.ports.mapM (Port.read baseCoords ((c.depsOf handle).map c.slots.coords)) = some slots →
        payload.prepared.reads = slots := by
  have hres := c.collectedDeps handle node hnode
  rw [CompileSlots.payload, CompileNodes.node_eq_ok.mpr hnode, HookResult.ok_bind] at h
  cases node with
  | warp2D node =>
      obtain ⟨hwrites, hreads⟩ := c.warp_reads hres h
      exact ⟨hwrites, fun slots hslots => Option.some.inj (hreads.symm.trans hslots)⟩
  | warp3D node =>
      obtain ⟨hwrites, hreads⟩ := c.warp_reads hres h
      exact ⟨hwrites, fun slots hslots => Option.some.inj (hreads.symm.trans hslots)⟩
  | sample2D node =>
      obtain ⟨hwrites, hreads⟩ := c.sample_reads hres h
      exact ⟨hwrites, fun slots hslots => Option.some.inj (hreads.symm.trans hslots)⟩
  | sample3D node =>
      obtain ⟨hwrites, hreads⟩ := c.sample_reads hres h
      exact ⟨hwrites, fun slots hslots => Option.some.inj (hreads.symm.trans hslots)⟩
  | combine node =>
      obtain ⟨inputs, hinputs, h⟩ := HookResult.bind_eq_ok.mp h
      obtain ⟨output, houtput, h⟩ := HookResult.bind_eq_ok.mp h
      obtain rfl := HookResult.ok.inj h
      have hcoords := ((inputs_spec c.allocation.2.1 hres).1 inputs hinputs).1
      refine ⟨(c.allocation.2.1.coords_scalar (expectScalarSlot_eq_ok.mp houtput)).symm,
        fun slots hslots => CombineOp.reads_eq ?_⟩
      rw [← hcoords]
      exact hslots

/-- The operands of the kernel of a supported node are there. -/
theorem kernel_operands {node : NodeSpec} (hnode : state.nodes.values[handle]? = some node)
    (h : c.slots.payload (.build state) handle = .ok payload)
    (hsupported : node.Supported state.dimension) (hparams : node.ParamsFit) :
    payload.prepared.Operands := by
  have hres := c.collectedDeps handle node hnode
  rw [CompileSlots.payload, CompileNodes.node_eq_ok.mpr hnode, HookResult.ok_bind] at h
  cases node with
  | combine node =>
      obtain ⟨inputs, hinputs, h⟩ := HookResult.bind_eq_ok.mp h
      obtain ⟨output, houtput, h⟩ := HookResult.bind_eq_ok.mp h
      obtain rfl := HookResult.ok.inj h
      have hlen := congrArg List.length ((inputs_spec c.allocation.2.1 hres).1 inputs hinputs).1
      have hrefs := hres.length_eq
      simp only [NodeSpec.references, List.length_map] at hlen hrefs
      refine ⟨?_, ?_⟩
      · change node.op.inputCount ≤ inputs.length
        rw [← hlen, ← hrefs]
        exact hsupported.inputs
      · change node.op.paramCount ≤ (wireParams node.params).length
        rw [wireParams, List.length_take]
        exact Nat.le_min.mpr ⟨hparams, hsupported.params⟩
  | warp2D node | warp3D node =>
      obtain ⟨source, hsource, h⟩ := HookResult.bind_eq_ok.mp h
      obtain ⟨output, houtput, h⟩ := HookResult.bind_eq_ok.mp h
      obtain rfl := HookResult.ok.inj h
      trivial
  | sample2D node | sample3D node =>
      obtain ⟨source, hsource, h⟩ := HookResult.bind_eq_ok.mp h
      obtain ⟨output, houtput, h⟩ := HookResult.bind_eq_ok.mp h
      obtain rfl := HookResult.ok.inj h
      trivial

end Kernel

/-! ### Kernels one after another -/

/-- The kernels of the scheduled nodes. -/
def kernels : List CpuKernel := c.payloads.map KernelPayload.prepared

/-- The kernel of a scheduled node does what the node is for. -/
theorem run_prepared (num : Numerics) {handle : ℕ} (hmem : handle ∈ c.order) {node : NodeSpec}
    (hnode : state.nodes.values[handle]? = some node) {payload : KernelPayload}
    (hpayload : c.slots.payload (.build state) handle = .ok payload) :
    payload.prepared.run num = node.wire.run num ((c.depsOf handle).map c.slots.coords)
      (c.slots.coords handle) :=
  (c.emits hmem hnode hpayload).1.2 num

/-- A node is scheduled after its dependencies. -/
theorem ready {done rest : List ℕ} {handle : ℕ} (horder : c.order = done ++ handle :: rest) :
    handle ∉ done ∧ (∀ dep ∈ c.depsOf handle, dep ∈ done) := by
  have hready := ready_toposort (CompileNodes.build state).len c.depsOf
  change Ready c.depsOf [] c.order at hready
  rw [horder, ready_append] at hready
  exact ⟨hready.2.1, hready.2.2.1⟩

section Run

variable {num : Numerics} {points : List (List F32)} {p₀ : JobPacket}
  (hlaid : LaidOut state.dimension points p₀) (hfits : c.Fits)
include hlaid hfits

/-- **The kernels of supported nodes**, from the first one on, compute the values of the
nodes. -/
theorem run_rest {done rest more : List ℕ} (horder : c.order = done ++ rest ++ more)
    {payloads : List KernelPayload} (hpayloads : List.Forall₂ (fun handle payload =>
      c.slots.payload (.build state) handle = .ok payload) rest payloads)
    (hgood : ∀ handle ∈ rest, ∀ node, state.nodes.values[handle]? = some node →
      node.Supported state.dimension ∧ node.ParamsFit)
    {values : ℕ → List (List F32)} {p : JobPacket} (h : Computed c num points p₀ done values p) :
    ∃ p' values', (runKernels num (payloads.map KernelPayload.prepared)).run p =
        some (.ok (), p') ∧ Computed c num points p₀ (done ++ rest) values' p' := by
  induction hpayloads generalizing done values p with
  | nil => exact ⟨p, values, rfl, by rwa [List.append_nil]⟩
  | @cons handle payload rest payloads hpayload _ ih =>
      have hsplit : c.order = done ++ handle :: (rest ++ more) := by
        rw [horder, List.append_assoc, List.cons_append]
      have hmem : handle ∈ c.order := hsplit ▸ List.mem_append_right done List.mem_cons_self
      obtain ⟨hnew, hdeps⟩ := c.ready hsplit
      obtain ⟨node, hnode⟩ := c.node_of_mem hmem
      obtain ⟨hsupported, hparams⟩ := hgood handle List.mem_cons_self node hnode
      obtain ⟨p₁, values₁, hrun₁, h₁⟩ := h.step hlaid hfits hmem hnew
        (fun other ho => hsplit ▸ List.mem_append_left _ ho) hdeps hnode hsupported hparams
      have horder₁ : c.order = done ++ [handle] ++ rest ++ more := by rw [hsplit]; simp
      obtain ⟨p', values', hrun, h'⟩ := ih horder₁
        (fun other ho => hgood other (List.mem_cons_of_mem handle ho)) h₁
      refine ⟨p', values', ?_, by rwa [List.append_assoc, List.singleton_append] at h'⟩
      rw [List.map_cons, runKernels_cons, PacketM.run_bind, c.run_prepared num hmem hnode hpayload,
        hrun₁]
      exact hrun

/-- **Nodes whose kernels succeed** are supported, if there are points, and their parameters
survive the encoding. -/
theorem supported_of_run_rest (hbase : state.dimension = .d2 → p₀.view slotBaseZ = none)
    {done rest : List ℕ} (horder : c.order = done ++ rest)
    (hne : points ≠ [] ∨ ∀ handle ∈ rest, ∀ node, state.nodes.values[handle]? = some node →
      node.Supported state.dimension)
    {payloads : List KernelPayload} (hpayloads : List.Forall₂ (fun handle payload =>
      c.slots.payload (.build state) handle = .ok payload) rest payloads)
    {values : ℕ → List (List F32)} {p p' : JobPacket} (h : Computed c num points p₀ done values p)
    (hrun : (runKernels num (payloads.map KernelPayload.prepared)).run p = some (.ok (), p')) :
    ∀ handle ∈ rest, ∀ node, state.nodes.values[handle]? = some node →
      node.Supported state.dimension ∧ node.ParamsFit := by
  induction hpayloads generalizing done values p with
  | nil => simp
  | @cons handle payload rest payloads hpayload _ ih =>
      have hmem : handle ∈ c.order := horder ▸ List.mem_append_right done List.mem_cons_self
      have hdone : ∀ other ∈ done, other ∈ c.order :=
        fun other ho => horder ▸ List.mem_append_left _ ho
      obtain ⟨hnew, hdeps⟩ := c.ready horder
      obtain ⟨node, hnode⟩ := c.node_of_mem hmem
      rw [List.map_cons, runKernels_cons] at hrun
      obtain ⟨_, p₁, hfirst, hrest⟩ := PacketM.run_bind_eq_ok.mp hrun
      rw [c.run_prepared num hmem hnode hpayload] at hfirst
      have hnodeok : node.Supported state.dimension ∧ node.ParamsFit := by
        rcases hne with hne | hall
        · exact h.supported_of_run hlaid hfits hmem hnew hdone hdeps hnode hbase hne hfirst
        · exact ⟨hall handle List.mem_cons_self node hnode,
            (h.readable_of_run hlaid hnode hbase hfirst).2⟩
      obtain ⟨p₂, values₂, hrun₂, h₂⟩ := h.step hlaid hfits hmem hnew hdone hdeps hnode hnodeok.1
        hnodeok.2
      obtain ⟨-, rfl⟩ := PacketM.run_unique hfirst hrun₂
      have horder₂ : c.order = done ++ [handle] ++ rest := by rw [horder]; simp
      rw [List.forall_mem_cons]
      refine ⟨fun target htarget => ?_, ih horder₂
        (hne.imp_right fun hall other ho => hall other (List.mem_cons_of_mem handle ho)) h₂ hrest⟩
      obtain rfl := Option.some.inj (hnode.symm.trans htarget)
      exact hnodeok

/-- **What the kernel of a supported node finds**: its inputs were written before, for all
samples, and they are distinct. -/
theorem kernel_safe {done more : List ℕ} {handle : ℕ} (horder : c.order = done ++ handle :: more)
    {payload : KernelPayload} (hpayload : c.slots.payload (.build state) handle = .ok payload)
    (hgood : ∀ node, state.nodes.values[handle]? = some node →
      node.Supported state.dimension ∧ node.ParamsFit) {payloads : List KernelPayload}
    (hpayloads : List.Forall₂ (fun handle payload =>
      c.slots.payload (.build state) handle = .ok payload) done payloads)
    {values : ℕ → List (List F32)} {p : JobPacket} (h : Computed c num points p₀ done values p) :
    payload.prepared.Safe (.gridInit state.dimension :: payloads.map KernelPayload.prepared)
      points.length p := by
  have hmem : handle ∈ c.order := horder ▸ List.mem_append_right done List.mem_cons_self
  have hdone : ∀ other ∈ done, other ∈ c.order :=
    fun other ho => horder ▸ List.mem_append_left _ ho
  obtain ⟨hnew, hdeps⟩ := c.ready horder
  obtain ⟨node, hnode⟩ := c.node_of_mem hmem
  obtain ⟨hsupported, hparams⟩ := hgood node hnode
  obtain ⟨slots, ins, hread, hnd, -, hfrom, hins, -⟩ :=
    h.inputs hlaid hfits hmem hnew hdone hdeps hnode hsupported.readable
  obtain ⟨hwrites, hreads⟩ := c.kernel_reads hnode hpayload
  have hreads := hreads slots hread
  refine ⟨fun slot hslot => ?_, fun slot hslot => ?_, by rwa [hreads, hwrites],
    c.kernel_operands hnode hpayload hsupported hparams⟩
  · rw [hreads] at hslot
    rcases hfrom slot hslot with hbase | ⟨dep, hdep, hin⟩
    · exact ⟨_, List.mem_cons_self, hbase⟩
    · obtain ⟨earlier, hearlier, hdepPayload⟩ := exists_of_mem_left hpayloads (hdeps dep hdep)
      obtain ⟨target, htarget⟩ := c.node_of_mem (hdone dep (hdeps dep hdep))
      refine ⟨earlier.prepared, List.mem_cons_of_mem _ (List.mem_map_of_mem hearlier), ?_⟩
      rw [(c.kernel_reads htarget hdepPayload).1]
      exact hin
  · rw [hreads] at hslot
    obtain ⟨j, hj⟩ := List.getElem?_of_mem hslot
    exact ⟨_, hins.holds j slot hj, by rw [length_column, hins.count]⟩

end Run

end Compilation

end Braids
