import Braids.FastNoise.Ports

/-!
# Plans Compute What Graphs Mean

The stages of a compiled plan on an encoded packet. After some of the stages the slots of the
nodes that were scheduled so far hold the values of these nodes at all points of the batch.

## Main results

* `Computed.step`: the kernel of a supported node computes the values of the node.
* `Computed.supported_of_run`: a node whose kernel succeeds is supported.
-/

namespace Braids

open Toposort CompileSlots Dataflow

variable {build : Build} {state : FastNoiseState} {plan : CompiledPlan FastNoisePlannerMeta}

/-! ### Distinct slots -/

/-- The id of a node. -/
theorem FastNoiseState.id_of_node? {id : String} {node : NodeSpec}
    (h : state.node? id = some node) : node.id = id := by
  simpa using List.find?_some h

/-- Different ids stand for different nodes. -/
theorem CompileNodes.resolve_inj {id id' : String} {handle : ℕ}
    (h : (CompileNodes.build state).resolve id = some handle)
    (h' : (CompileNodes.build state).resolve id' = some handle) : id = id' := by
  have hnode := List.getElem?_eq_getElem (CompileNodes.lt_of_resolve h)
  rw [← FastNoiseState.id_of_node? ((CompileNodes.node?_of_resolve h).trans hnode),
    ← FastNoiseState.id_of_node? ((CompileNodes.node?_of_resolve h').trans hnode)]

/-- What a port reads is a coordinate of the point or of an argument. -/
theorem Port.mem_of_read {α : Type} {base : List α} {args : List (List α)} {port : Port} {a : α}
    (h : port.read base args = some a) : a ∈ base ∨ ∃ arg ∈ args, a ∈ arg := by
  cases port with
  | base i => exact .inl (List.mem_of_getElem? h)
  | arg i j =>
      obtain ⟨arg, harg, ha⟩ := Option.bind_eq_some_iff.mp h
      exact .inr ⟨arg, List.mem_of_getElem? harg, List.mem_of_getElem? ha⟩

/-- The base slots are not dynamic slots. -/
theorem lt_of_mem_base {d : GraphDimension} {slot : BufferSlot}
    (h : slot ∈ (basePositionSlots d).coords) : slot.index < slotDynamicStart := by
  have hall : ∀ slot ∈ baseCoords, slot.index < slotDynamicStart := by decide
  refine hall slot ?_
  cases d with
  | d2 => exact List.mem_of_mem_take (i := 2) h
  | d3 => exact h

/-- No port of an operation occurs twice. -/
theorem CombineOp.nodup_ports (op : CombineOp) : op.ports.Nodup := by
  cases op <;> decide

/-- An operation reads all its inputs. -/
theorem CombineOp.arg_mem_ports {op : CombineOp} {i : ℕ} (h : i < op.inputCount) :
    .arg i 0 ∈ op.ports := by
  cases op with
  | add | sub | mul | min | max =>
      obtain rfl | rfl : i = 0 ∨ i = 1 := by
        change i < 2 at h
        omega
      all_goals simp [ports]
  | clamp | remap | yGradient =>
      obtain rfl : i = 0 := by
        change i < 1 at h
        omega
      simp [ports]

namespace NodeSpec

/-- No port of a node occurs twice. -/
theorem nodup_ports (node : NodeSpec) : node.ports.Nodup := by
  cases node with
  | warp2D node => exact node.source.nodup_ports .d2
  | warp3D node => exact node.source.nodup_ports .d3
  | sample2D node => exact node.source.nodup_ports .d2
  | sample3D node => exact node.source.nodup_ports .d3
  | combine node => exact node.op.nodup_ports

/-- A source has one reference at most. -/
theorem source_arg_eq_zero {d : GraphDimension} {source : PositionSource} {i j : ℕ}
    (h : Port.arg i j ∈ source.ports d) : i = 0 := by
  cases source with
  | base => simp [PositionSource.ports] at h
  | node id =>
      obtain ⟨k, -, heq⟩ := List.mem_map.mp h
      exact (Port.arg.inj heq).1.symm

/-- **Different references that a node reads stand for different nodes.** -/
theorem Readable.arg_inj {d : GraphDimension} {node : NodeSpec} (h : node.Readable d)
    {deps : List ℕ} (hres : List.Forall₂ (fun ref dep =>
      (CompileNodes.build state).resolve ref.1 = some dep) node.references deps)
    {i j i' j' dep : ℕ} (hi : .arg i j ∈ node.ports) (hi' : .arg i' j' ∈ node.ports)
    (hdep : deps[i]? = some dep) (hdep' : deps[i']? = some dep) : i = i' := by
  cases node with
  | warp2D node => rw [source_arg_eq_zero hi, source_arg_eq_zero hi']
  | warp3D node => rw [source_arg_eq_zero hi, source_arg_eq_zero hi']
  | sample2D node => rw [source_arg_eq_zero hi, source_arg_eq_zero hi']
  | sample3D node => rw [source_arg_eq_zero hi, source_arg_eq_zero hi']
  | combine node =>
      obtain ⟨hcount, hnd⟩ := h
      have hlt : ∀ {i j : ℕ}, .arg i j ∈ (NodeSpec.combine node).ports →
          i < node.op.inputCount := by
        intro i j hmem
        rcases CombineOp.mem_ports hmem with ⟨k, hk, heq⟩ | heq
        · exact (Port.arg.inj heq).1 ▸ hk
        · cases heq
      -- the id behind a reference that is read
      have hid : ∀ {i : ℕ}, i < node.op.inputCount → deps[i]? = some dep →
          ∃ id, (node.inputs.take node.op.inputCount)[i]? = some id ∧
            (CompileNodes.build state).resolve id = some dep := by
        intro i hi hdep
        have hi' : i < node.inputs.length := by omega
        obtain ⟨hidep, rfl⟩ := List.getElem?_eq_some_iff.mp hdep
        have hget := (List.forall₂_iff_get.mp hres).2 i (by simpa [references] using hi') hidep
        refine ⟨node.inputs[i], by simp [hi, hi'], ?_⟩
        simpa [references] using hget
      obtain ⟨id, hid₁, hres₁⟩ := hid (hlt hi) hdep
      obtain ⟨id', hid₂, hres₂⟩ := hid (hlt hi') hdep'
      obtain rfl := CompileNodes.resolve_inj hres₁ hres₂
      exact (List.getElem?_inj (List.getElem?_eq_some_iff.mp hid₁).1 hnd).mp
        (hid₁.trans hid₂.symm)

end NodeSpec

namespace Compilation

variable (c : Compilation build state plan) (hfits : c.Fits)

section Slots

variable {d : GraphDimension} {node : NodeSpec} {deps : List ℕ} {inputs : List BufferSlot}
  (hdeps : ∀ dep ∈ deps, dep ∈ c.order)
  (hread : node.ports.mapM (Port.read (basePositionSlots d).coords (deps.map c.slots.coords)) =
    some inputs)
include hfits hdeps hread

/-- **The input slots of a readable node are distinct.** -/
theorem nodup_inputs (hreadable : node.Readable d) (hres : List.Forall₂ (fun ref dep =>
      (CompileNodes.build state).resolve ref.1 = some dep) node.references deps) :
    inputs.Nodup := by
  -- the slot of an argument is a slot of a dependency
  have hslot : ∀ {i j : ℕ} {slot : BufferSlot},
      Port.read (basePositionSlots d).coords (deps.map c.slots.coords) (.arg i j) = some slot →
        ∃ dep ∈ c.order, deps[i]? = some dep ∧ (c.slots.coords dep)[j]? = some slot := by
    intro i j slot h
    obtain ⟨arg, harg, hj⟩ := Option.bind_eq_some_iff.mp h
    rw [List.getElem?_map, Option.map_eq_some_iff] at harg
    obtain ⟨dep, hdep, rfl⟩ := harg
    exact ⟨dep, hdeps dep (List.mem_of_getElem? hdep), hdep, hj⟩
  have hapart : ∀ {i j k : ℕ} {slot : BufferSlot}, (basePositionSlots d).coords[k]? = some slot →
      Port.read (basePositionSlots d).coords (deps.map c.slots.coords) (.arg i j) = some slot →
        False := by
    intro i j k slot hbase harg
    obtain ⟨dep, hmem, -, hj⟩ := hslot harg
    have hlt := lt_of_mem_base (List.mem_of_getElem? hbase)
    have hle := c.le_of_mem_coords hfits hmem (List.mem_of_getElem? hj)
    omega
  refine nodup_right (mapM_eq_some.mp hread) node.nodup_ports ?_
  intro port hport port' hport' slot h h'
  cases port with
  | base i =>
      cases port' with
      | base i' =>
          have hlt := (List.getElem?_eq_some_iff.mp h).1
          rw [(List.getElem?_inj hlt (by cases d <;> decide)).mp (h.trans h'.symm)]
      | arg i' j' => exact (hapart h h').elim
  | arg i j =>
      cases port' with
      | base i' => exact (hapart h' h).elim
      | arg i' j' =>
          obtain ⟨dep, hmem, hdep, hj⟩ := hslot h
          obtain ⟨dep', hmem', hdep', hj'⟩ := hslot h'
          have heq : dep = dep' := by
            by_contra hne
            exact c.disjoint_coords hfits hmem hmem' hne (List.mem_of_getElem? hj)
              (List.mem_of_getElem? hj')
          subst heq
          obtain rfl := hreadable.arg_inj hres hport hport' hdep hdep'
          have hlt := (List.getElem?_eq_some_iff.mp hj).1
          rw [(List.getElem?_inj hlt (c.nodup_coords hfits hmem)).mp (hj.trans hj'.symm)]

/-- The slots of a node are not among the slots that it reads. -/
theorem disjoint_inputs {handle : ℕ} (hmem : handle ∈ c.order) (hnew : handle ∉ deps) :
    List.Disjoint inputs (c.slots.coords handle) := by
  intro slot hin hout
  obtain ⟨port, -, hport⟩ := exists_of_mem_right (mapM_eq_some.mp hread) hin
  rcases Port.mem_of_read hport with hbase | ⟨arg, harg, hslot⟩
  · have hlt := lt_of_mem_base hbase
    have hle := c.le_of_mem_coords hfits hmem hout
    omega
  · obtain ⟨dep, hdep, rfl⟩ := List.mem_map.mp harg
    exact c.disjoint_coords hfits (hdeps dep hdep) hmem (fun heq => hnew (heq ▸ hdep)) hslot hout

end Slots

/-- A scheduled node has as many slots as its output is wide. -/
theorem length_coords {handle : ℕ} (hmem : handle ∈ c.order) {node : NodeSpec}
    (hnode : state.nodes.values[handle]? = some node) :
    (c.slots.coords handle).length = (node.outputKind state.dimension).width := by
  have hall := c.allocation.2.1
  have hout : (CompileNodes.build state).output handle = .ok (node.outputKind state.dimension) :=
    CompileNodes.output_eq_ok.mpr ⟨node, hnode, rfl⟩
  cases hkind : node.outputKind state.dimension with
  | position d =>
      rw [hkind] at hout
      obtain ⟨coords, hcoords⟩ :=
        Option.isSome_iff_exists.mp ((hall.position d handle).mpr ⟨hmem, hout⟩)
      rw [hall.coords_position hcoords, coords.length_coords, OutputKind.width]
  | scalar d =>
      rw [hkind] at hout
      obtain ⟨slot, hslot⟩ :=
        Option.isSome_iff_exists.mp ((hall.scalar handle).mpr ⟨hmem, d, hout⟩)
      rw [hall.coords_scalar hslot, List.length_singleton, OutputKind.width]

/-- The references of a scheduled node stand for its dependencies, which are scheduled. -/
theorem found {handle : ℕ} (hmem : handle ∈ c.order) {node : NodeSpec}
    (hnode : state.nodes.values[handle]? = some node) :
    List.Forall₂ (Found state c.order) node.references (c.depsOf handle) := by
  obtain ⟨payload, -, hpayload⟩ := exists_of_mem_left c.forall₂_payloads hmem
  exact (c.emits hmem hnode hpayload).2

/-- The slots of the dependencies of a node have the widths that it needs. -/
theorem widths {handle : ℕ} (hmem : handle ∈ c.order) {node : NodeSpec}
    (hnode : state.nodes.values[handle]? = some node) :
    Widths node.references ((c.depsOf handle).map c.slots.coords) := by
  rw [Widths, List.forall₂_map_right_iff]
  refine (c.found hmem hnode).imp ?_
  rintro ref dep ⟨hdep, target, htarget, hlookup⟩
  rw [c.length_coords hdep htarget]
  exact (FastNoiseState.lookup_eq_some.mp hlookup).2.width_eq

end Compilation

/-! ### One kernel -/

/-- The packet has the offsets of that many samples. -/
def HasTotal (p : JobPacket) (total : ℕ) : Prop :=
  ∃ offsets : List UInt32, p.view slotQueryOffsets = some (.ofList .u32 offsets) ∧
    totalSamplesFromOffsets offsets = total

/-- The parameters play no part in what a node reads. -/
@[simp] theorem NodeSpec.ports_wire (node : NodeSpec) : node.wire.ports = node.ports := by
  cases node <;> rfl

/-- The loop in the kernel of a node. -/
def NodeSpec.loop (num : Numerics) (node : NodeSpec) (args : List (List BufferSlot))
    (outputs : List BufferSlot) : PacketM Unit :=
  match node.ports.mapM (Port.read baseCoords args), node.body num with
  | some inputs, some body => runPointwise inputs outputs body
  | _, _ => .panic

/-- What the kernel of a node does first: it makes the outputs long enough. -/
theorem NodeSpec.run_eq (num : Numerics) (node : NodeSpec) (args : List (List BufferSlot))
    (outputs : List BufferSlot) {p : JobPacket} (hp : p.Wf) {total : ℕ}
    (htotal : HasTotal p total) :
    ∃ p₁, p₁.Wf ∧
      (∀ slot ∈ outputs, ∃ old : List F32,
        p₁.view slot = some (.ofList .f32 old) ∧ old.length = total) ∧
      (∀ slot ∉ outputs, p₁.view slot = p.view slot) ∧
      (node.run num args outputs).run p = (node.loop num args outputs).run p₁ := by
  obtain ⟨offsets, hoffsets, rfl⟩ := htotal
  obtain ⟨p₁, hrun, hwf, -, hlong, hother⟩ := ensureAll_spec hp (totalSamplesFromOffsets offsets)
    outputs
  refine ⟨p₁, hwf, hlong, hother, ?_⟩
  have hrun' : node.run num args outputs = (do
      let total ← readTotal
      ensureAll total outputs
      node.loop num args outputs) := rfl
  simp only [hrun', PacketM.run_bind, readTotal_run hp hoffsets, Option.bind_some, hrun]

/-- **The kernel of a node** computes the body of what its ports read. -/
theorem NodeSpec.run_spec {num : Numerics} {node : NodeSpec} {args : List (List BufferSlot)}
    {inputs outputs : List BufferSlot} {p : JobPacket} (hp : p.Wf) {points : List (List F32)}
    (htotal : HasTotal p points.length)
    (hread : node.ports.mapM (Port.read baseCoords args) = some inputs)
    (hnd : (inputs ++ outputs).Nodup) (hne : outputs ≠ []) {ins : List (List F32)}
    (hins : Filled p points inputs ins) {body : List F32 → Option (List F32)}
    (hbody : node.body num = some body) {ws : List (List F32)}
    (hws : List.Forall₂ (fun v w => body v = some w) ins ws)
    (hwidth : ∀ w ∈ ws, w.length = outputs.length) :
    ∃ p', (node.run num args outputs).run p = some (.ok (), p') ∧ p'.Wf ∧
      Filled p' points outputs ws ∧ ∀ slot ∉ outputs, p'.view slot = p.view slot := by
  obtain ⟨p₁, hwf₁, hlong, hother₁, hrun⟩ := node.run_eq num args outputs hp htotal
  have hholds : Holds p₁ inputs ins := hins.holds.of_view fun slot hslot =>
    hother₁ slot fun hout => (List.nodup_append.mp hnd).2.2 slot hslot slot hout rfl
  rw [← hins.count] at hlong
  obtain ⟨p', hloop, hwf, -, hout, hother⟩ := runPointwise_spec hwf₁ hnd hins.width hholds hne hlong
    hws hwidth
  refine ⟨p', ?_, hwf, ⟨hout, hws.length_eq.symm.trans hins.count, hwidth⟩, fun slot hslot => ?_⟩
  · rw [hrun, NodeSpec.loop, hread, hbody]
    exact hloop
  · rw [hother slot hslot, hother₁ slot hslot]

/-- **What the kernel of a node needs** to succeed. -/
theorem NodeSpec.of_run {num : Numerics} {node : NodeSpec} {args : List (List BufferSlot)}
    {outputs : List BufferSlot} {p p' : JobPacket} (hp : p.Wf) {points : List (List F32)}
    (htotal : HasTotal p points.length)
    (hrun : (node.run num args outputs).run p = some (.ok (), p')) :
    ∃ inputs body, node.ports.mapM (Port.read baseCoords args) = some inputs ∧
      node.body num = some body ∧ (inputs ++ outputs).Nodup ∧
      (∀ slot ∈ inputs, ∃ values : List F32, p.view slot = some (.ofList .f32 values)) ∧
      ∀ ins, Filled p points inputs ins → outputs ≠ [] → ∀ v ∈ ins, ∃ w, body v = some w := by
  obtain ⟨p₁, hwf₁, hlong, hother₁, heq⟩ := node.run_eq num args outputs hp htotal
  rw [heq, NodeSpec.loop] at hrun
  split at hrun
  · next inputs body hread hbody =>
      obtain ⟨hnd, hviews⟩ := runPointwise_nodup hwf₁ hrun
      have hother : ∀ slot ∈ inputs, p₁.view slot = p.view slot := fun slot hslot =>
        hother₁ slot fun hout => (List.nodup_append.mp hnd).2.2 slot hslot slot hout rfl
      refine ⟨inputs, body, hread, hbody, hnd, fun slot hslot => ?_, fun ins hins hne => ?_⟩
      · rw [← hother slot hslot]
        exact hviews slot hslot
      · rw [← hins.count] at hlong
        exact runPointwise_some hwf₁ hins.width (hins.holds.of_view hother) hne hlong hrun
  · simp at hrun

/-! ### Values in slots -/

/-- The packet after the first stage: the base slots hold the points. -/
structure LaidOut (d : GraphDimension) (points : List (List F32)) (p : JobPacket) : Prop where
  wf : p.Wf
  total : HasTotal p points.length
  base : Filled p points (basePositionSlots d).coords points

/-- The slots of the nodes that are done hold their values at the points, and the slots below
the dynamic ones are as after the first stage. -/
structure Computed (c : Compilation build state plan) (num : Numerics) (points : List (List F32))
    (p₀ : JobPacket) (done : List ℕ) (values : ℕ → List (List F32)) (p : JobPacket) : Prop where
  wf : p.Wf
  frame : ∀ slot, slot.index < slotDynamicStart → p.view slot = p₀.view slot
  filled : ∀ handle ∈ done, Filled p points (c.slots.coords handle) (values handle)
  means : ∀ handle ∈ done, ∀ node, state.nodes.values[handle]? = some node →
    List.Forall₂ (fun point v => (state.graph num point).eval done.length node = some v) points
      (values handle)

section Step

variable {c : Compilation build state plan} {num : Numerics} {points : List (List F32)}
  {p₀ p : JobPacket} {done : List ℕ} {values : ℕ → List (List F32)}

/-- After the first stage no node is done. -/
theorem computed_nil (hlaid : LaidOut state.dimension points p₀) (values : ℕ → List (List F32)) :
    Computed c num points p₀ [] values p₀ :=
  ⟨hlaid.wf, fun _ _ => rfl, by simp, by simp⟩

namespace Computed

variable (h : Computed c num points p₀ done values p)
  (hlaid : LaidOut state.dimension points p₀)
include h hlaid

/-- The base slots still hold the points. -/
theorem base : Filled p points (basePositionSlots state.dimension).coords points where
  holds := hlaid.base.holds.of_view fun slot hslot => h.frame slot (lt_of_mem_base hslot)
  count := rfl
  width := hlaid.base.width

/-- The number of samples is still there. -/
theorem total : HasTotal p points.length := by
  obtain ⟨offsets, hoffsets, htotal⟩ := hlaid.total
  exact ⟨offsets, by rw [h.frame slotQueryOffsets (by decide), hoffsets], htotal⟩

omit hlaid in
/-- The slots of nodes that are done hold their values. -/
theorem arguments {deps : List ℕ} (hdeps : ∀ dep ∈ deps, dep ∈ done) :
    List.Forall₂ (Filled p points) (deps.map c.slots.coords) (deps.map values) := by
  rw [List.forall₂_map_left_iff, List.forall₂_map_right_iff, List.forall₂_same]
  exact fun dep hdep => h.filled dep (hdeps dep hdep)

variable (hfits : c.Fits) {handle : ℕ} (hmem : handle ∈ c.order) (hnew : handle ∉ done)
  (hdone : ∀ other ∈ done, other ∈ c.order) (hdeps : ∀ dep ∈ c.depsOf handle, dep ∈ done)
  {node : NodeSpec} (hnode : state.nodes.values[handle]? = some node)
include hfits hmem hnew hdone hdeps hnode

/-- The slots that a readable node reads, what they hold, and that they are distinct from each
other and from the outputs. -/
theorem inputs (hreadable : node.Readable state.dimension) :
    ∃ slots ins,
      node.ports.mapM (Port.read baseCoords ((c.depsOf handle).map c.slots.coords)) = some slots ∧
      (slots ++ c.slots.coords handle).Nodup ∧ slots.length = node.ports.length ∧
      (∀ slot ∈ slots, slot ∈ (basePositionSlots state.dimension).coords ∨
        ∃ dep ∈ c.depsOf handle, slot ∈ c.slots.coords dep) ∧
      Filled p points slots ins ∧
      ∀ i (hi : i < points.length), node.ports.mapM (Port.read points[i]
        (((c.depsOf handle).map values).map fun vals => vals.getD i [])) = ins[i]? := by
  have horder : ∀ dep ∈ c.depsOf handle, dep ∈ c.order := fun dep hdep => hdone dep (hdeps dep hdep)
  have hres := c.collectedDeps handle node hnode
  obtain ⟨slots, hread⟩ := hreadable.read_ports
    (basePositionSlots state.dimension).length_coords (c.widths hmem hnode)
  obtain ⟨ins, hins, hvalues⟩ := filled_inputs (h.base hlaid) (h.arguments hdeps) hread
  refine ⟨slots, ins, ?_, ?_, (mapM_eq_some.mp hread).length_eq.symm, fun slot hslot => ?_, hins,
    hvalues⟩
  · exact mapM_eq_some.mpr ((mapM_eq_some.mp hread).imp fun _ _ hport => Port.read_baseCoords hport)
  · rw [List.nodup_append']
    exact ⟨c.nodup_inputs hfits horder hread hreadable hres, c.nodup_coords hfits hmem,
      c.disjoint_inputs hfits horder hread hmem fun hdep => hnew (hdeps handle hdep)⟩
  · obtain ⟨port, -, hport⟩ := exists_of_mem_right (mapM_eq_some.mp hread) hslot
    rcases Port.mem_of_read hport with hin | ⟨arg, harg, hin⟩
    · exact .inl hin
    · obtain ⟨dep, hdep, rfl⟩ := List.mem_map.mp harg
      exact .inr ⟨dep, hdep, hin⟩

/-- **The kernel of a supported node** computes the values of the node. -/
theorem step (hsupported : node.Supported state.dimension) (hparams : node.ParamsFit) :
    ∃ p' values', (node.wire.run num ((c.depsOf handle).map c.slots.coords)
        (c.slots.coords handle)).run p = some (.ok (), p') ∧
      Computed c num points p₀ (done ++ [handle]) values' p' := by
  obtain ⟨slots, ins, hread, hnd, hcount, -, hins, hvalues⟩ :=
    h.inputs hlaid hfits hmem hnew hdone hdeps hnode hsupported.readable
  obtain ⟨body, hbody, htotal⟩ := NodeSpec.body_total num hsupported
  have hlen := c.length_coords hmem hnode
  have hbodies : ∀ v ∈ ins, ∃ w, body v = some w := fun v hv => by
    obtain ⟨w, hw, -⟩ := htotal v ((hins.width v hv).trans hcount)
    exact ⟨w, hw⟩
  obtain ⟨ws, hws⟩ := exists_mapM hbodies
  have hws := mapM_eq_some.mp hws
  have hwidth : ∀ w ∈ ws, w.length = (c.slots.coords handle).length := by
    intro w hw
    obtain ⟨v, hv, hvw⟩ := exists_of_mem_right hws hw
    obtain ⟨w', hw', hlen'⟩ := htotal v ((hins.width v hv).trans hcount)
    obtain rfl := Option.some.inj (hvw.symm.trans hw')
    rw [hlen, hlen']
  have hne : c.slots.coords handle ≠ [] := by
    intro hnil
    rw [hnil] at hlen
    cases node with
    | combine node => simp [NodeSpec.outputKind, OutputKind.width] at hlen
    | _ => simp [NodeSpec.outputKind, OutputKind.width, GraphDimension.size] at hlen
  obtain ⟨p', hrun, hwf, hout, hother⟩ := NodeSpec.run_spec h.wf (h.total hlaid)
    (by rw [NodeSpec.ports_wire, hread]) hnd hne hins
    (by rw [NodeSpec.body_wire num hparams, hbody]) hws hwidth
  refine ⟨p', Function.update values handle ws, hrun, hwf, fun slot hslot => ?_, fun other ho => ?_,
    fun other ho target htarget => ?_⟩
  · have hout : slot ∉ c.slots.coords handle := fun hin =>
      absurd hslot (Nat.not_lt_of_le (c.le_of_mem_coords hfits hmem hin))
    rw [hother slot hout, h.frame slot hslot]
  · rcases List.mem_append.mp ho |>.imp_right List.mem_singleton.mp with ho | rfl
    · have hdiff : other ≠ handle := fun heq => hnew (heq ▸ ho)
      rw [Function.update_of_ne hdiff]
      have hfilled := h.filled other ho
      exact ⟨hfilled.holds.of_view fun slot hslot => hother slot
        (c.disjoint_coords hfits (hdone other ho) hmem hdiff hslot), hfilled.count, hfilled.width⟩
    · rw [Function.update_self]
      exact hout
  · rw [List.length_append, List.length_singleton]
    rcases List.mem_append.mp ho |>.imp_right List.mem_singleton.mp with ho | rfl
    · have hdiff : other ≠ handle := fun heq => hnew (heq ▸ ho)
      rw [Function.update_of_ne hdiff]
      exact (h.means other ho target htarget).imp fun _ _ heval =>
        Graph.eval_mono (Nat.le_succ _) heval
    · -- the node itself: its references have their values at each point
      obtain rfl := Option.some.inj (hnode.symm.trans htarget)
      rw [Function.update_self]
      refine List.forall₂_iff_get.mpr ⟨hins.count.symm.trans hws.length_eq, fun i hi hi' => ?_⟩
      have hi'' : i < ins.length := hins.count ▸ hi
      refine Graph.eval_succ.mpr
        ⟨((c.depsOf other).map values).map fun vals => vals.getD i [], ?_, ?_⟩
      · rw [List.map_map, List.forall₂_map_right_iff, List.forall₂_iff_get]
        have hfound := List.forall₂_iff_get.mp (c.found hmem hnode)
        refine ⟨hfound.1, fun k hk hk' => ?_⟩
        obtain ⟨-, dep, hdep, hlookup⟩ := hfound.2 k hk hk'
        have hdepmem := hdeps _ (List.get_mem (c.depsOf other) ⟨k, hk'⟩)
        have hmeans := List.forall₂_iff_get.mp (h.means _ hdepmem dep hdep)
        refine ⟨dep, hlookup, ?_⟩
        have hlt : i < (values (c.depsOf other)[k]).length := hmeans.1 ▸ hi
        have hat := hmeans.2 i hi hlt
        simpa [hlt] using hat
      · have hat := (List.forall₂_iff_get.mp hws).2 i hi'' hi'
        change (node.ports.mapM _ >>= fun inputs => node.body num >>= fun body => body inputs) = _
        rw [List.get_eq_getElem, hvalues i hi, List.getElem?_eq_getElem hi'', hbody]
        exact hat

omit hfits hmem hnew hdone hdeps in
/-- **What a node needs** for its kernel to succeed, where the third base slot is there in 3D
graphs only. -/
theorem readable_of_run (hbase : state.dimension = .d2 → p₀.view slotBaseZ = none)
    {p' : JobPacket} (hrun : (node.wire.run num ((c.depsOf handle).map c.slots.coords)
      (c.slots.coords handle)).run p = some (.ok (), p')) :
    node.Readable state.dimension ∧ node.ParamsFit := by
  obtain ⟨inputs, body, hread, hbody, hnd, hviews, -⟩ := NodeSpec.of_run h.wf (h.total hlaid) hrun
  refine ⟨?_, NodeSpec.paramsFit_of_body num (by rw [hbody]; rfl)⟩
  rw [NodeSpec.ports_wire] at hread
  have hreads := mapM_eq_some.mp hread
  have hdepth : .base 2 ∈ node.ports → state.dimension = .d3 := by
    intro hport
    obtain ⟨slot, hslot, hat⟩ := exists_of_mem_left hreads hport
    obtain rfl : slotBaseZ = slot := Option.some.inj hat
    obtain ⟨old, hold⟩ := hviews _ hslot
    cases hd : state.dimension with
    | d3 => rfl
    | d2 => simp [h.frame slotBaseZ (by decide), hbase hd] at hold
  cases node with
  | warp2D node => trivial
  | sample2D node => trivial
  | warp3D node =>
      intro hsource
      exact hdepth (by simp [NodeSpec.ports, hsource, PositionSource.ports, GraphDimension.size])
  | sample3D node =>
      intro hsource
      exact hdepth (by simp [NodeSpec.ports, hsource, PositionSource.ports, GraphDimension.size])
  | combine node =>
      have hres := c.collectedDeps handle _ hnode
      have hlen : node.inputs.length = (c.depsOf handle).length := by
        simpa [NodeSpec.references] using hres.length_eq
      constructor
      · -- an input that is not there cannot be read
        by_contra hlt
        have hport := CombineOp.arg_mem_ports (Nat.lt_of_not_le hlt)
        obtain ⟨slot, -, hat⟩ := exists_of_mem_left hreads hport
        obtain ⟨arg, harg, -⟩ := Option.bind_eq_some_iff.mp hat
        have hk := (List.getElem?_eq_some_iff.mp harg).1
        rw [List.length_map] at hk
        omega
      · -- an input that is there twice is borrowed twice
        refine List.pairwise_iff_getElem.mpr fun i j hi hj hij heq => ?_
        simp only [List.length_take, Nat.lt_min] at hi hj
        rw [List.getElem_take, List.getElem_take] at heq
        have hget : ∀ k (hk : k < node.inputs.length), (CompileNodes.build state).resolve
            node.inputs[k] = (c.depsOf handle)[k]? := by
          intro k hk
          have hk' : k < (c.depsOf handle).length := hlen ▸ hk
          have href : k < (NodeSpec.combine node).references.length := by
            simpa [NodeSpec.references] using hk
          have hat := (List.forall₂_iff_get.mp hres).2 k href hk'
          rw [List.getElem?_eq_getElem hk']
          simpa [NodeSpec.references] using hat
        have hsame : (c.depsOf handle)[i]? = (c.depsOf handle)[j]? := by
          rw [← hget i hi.2, ← hget j hj.2, heq]
        have hsub := List.Nodup.of_append_left hnd
        obtain ⟨slot, -, hat⟩ := exists_of_mem_left hreads (CombineOp.arg_mem_ports hi.1)
        have hat' : Port.read baseCoords ((c.depsOf handle).map c.slots.coords) (.arg j 0) =
            some slot := by
          rw [← hat, Port.read, Port.read, List.getElem?_map, List.getElem?_map, hsame]
        have hport := eq_of_nodup_right hreads hsub
          (fun hb hb' => Option.some.inj (hb.symm.trans hb')) (CombineOp.arg_mem_ports hi.1)
          (CombineOp.arg_mem_ports hj.1) hat hat'
        have := (Port.arg.inj hport).1
        omega

/-- **A node whose kernel succeeds** on some points is supported. -/
theorem supported_of_run (hbase : state.dimension = .d2 → p₀.view slotBaseZ = none)
    (hne : points ≠ []) {p' : JobPacket}
    (hrun : (node.wire.run num ((c.depsOf handle).map c.slots.coords)
      (c.slots.coords handle)).run p = some (.ok (), p')) :
    node.Supported state.dimension ∧ node.ParamsFit := by
  obtain ⟨hreadable, hparams⟩ := h.readable_of_run hlaid hnode hbase hrun
  refine ⟨?_, hparams⟩
  cases node with
  | warp2D node => trivial
  | sample2D node => trivial
  | warp3D node => exact hreadable
  | sample3D node => exact hreadable
  | combine node =>
      refine ⟨hreadable.1, hreadable.2, Nat.le_trans hparams (Nat.mod_le _ _), fun hop => ?_⟩
      obtain ⟨slots, ins, hread, -, -, -, hins, -⟩ :=
        h.inputs hlaid hfits hmem hnew hdone hdeps hnode hreadable
      obtain ⟨inputs, body, hread', hbody, -, -, hbodies⟩ :=
        NodeSpec.of_run h.wf (h.total hlaid) hrun
      rw [NodeSpec.ports_wire, hread] at hread'
      obtain rfl := Option.some.inj hread'
      obtain ⟨v, hv⟩ : ∃ v, v ∈ ins := by
        refine List.exists_mem_of_ne_nil ins fun hnil => hne ?_
        rw [← List.length_eq_zero_iff, ← hins.count, hnil, List.length_nil]
      have hcoords : c.slots.coords handle ≠ [] := by
        intro hnil
        have hlen := c.length_coords hmem hnode
        rw [hnil] at hlen
        cases hlen
      obtain ⟨w, hw⟩ := hbodies ins hins hcoords v hv
      have hle := @NodeSpec.ordered_of_body num { node with params := wireParams node.params } _
        hbody _ _ hw hop
      -- the first two parameters survive
      have htwo : 2 ≤ node.params.length % 2 ^ 32 := by
        have hcount : node.op.paramCount ≤ node.params.length % 2 ^ 32 := hparams
        rwa [hop] at hcount
      have hget : ∀ k < 2, (wireParams node.params).getD k F32.zero =
          node.params.getD k F32.zero := by
        intro k hk
        have hlt : k < node.params.length % 2 ^ 32 := by omega
        simp only [List.getD_eq_getElem?_getD, wireParams, List.getElem?_take, if_pos hlt]
      rwa [hget 0 (by decide), hget 1 (by decide)] at hle

end Computed

end Step

end Braids
