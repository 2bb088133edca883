import Braids.FastNoise.Schedule

/-!
# What Kernels Read

The ports of a scheduled node, read on slots by its kernel and on values by evaluation.
Both readings succeed on nodes that are `Readable`, and then they agree: the input slots
hold the input values, and they are distinct.
-/

namespace Braids

open CompileSlots Dataflow

/-! ### Readable nodes -/

namespace NodeSpec

/-- The node has its inputs, which are distinct, and it reads no coordinate that the points
of a graph of that dimension do not have. -/
def Readable (d : GraphDimension) : NodeSpec → Prop
  | .warp2D _ | .sample2D _ => True
  | .warp3D node | .sample3D node => node.source = .base → d = .d3
  | .combine node => node.op.inputCount ≤ node.inputs.length ∧
      (node.inputs.take node.op.inputCount).Nodup

/-- Supported nodes are readable. -/
theorem Supported.readable {d : GraphDimension} {node : NodeSpec} (h : node.Supported d) :
    node.Readable d := by
  cases node with
  | combine node => exact ⟨h.inputs, h.distinct⟩
  | warp3D node => exact h
  | sample3D node => exact h
  | _ => trivial

end NodeSpec

/-- The number of slots or values behind a reference. -/
def Need.width : Need → ℕ
  | .position d => d.size
  | .scalar => 1

/-- A node that is needed has the width that is needed. -/
theorem Need.Met.width_eq {need : Need} {output : OutputKind} (h : need.Met output) :
    output.width = need.width := by
  cases need <;> cases output <;> simp_all [Need.Met, OutputKind.width, Need.width]

/-- The arguments of a node have the widths that are needed. -/
def Widths {α : Type} (refs : List (String × Need)) (args : List (List α)) : Prop :=
  List.Forall₂ (fun ref arg => arg.length = ref.2.width) refs args

/-! ### Ports -/

namespace PositionSource

/-- The coordinates of a source can be read. -/
theorem read_ports {α : Type} {d D : GraphDimension} {source : PositionSource} {base : List α}
    (hbase : base.length = D.size) (hD : source = .base → d.size ≤ D.size)
    {args : List (List α)} (hargs : Widths (source.references d) args) :
    ∀ port ∈ source.ports d, ∃ a, port.read base args = some a := by
  intro port hport
  cases source with
  | base =>
      obtain ⟨i, hi, rfl⟩ := List.mem_map.mp hport
      have hlt : i < base.length := by
        have := hD rfl
        have := List.mem_range.mp hi
        omega
      exact ⟨base[i], List.getElem?_eq_getElem hlt⟩
  | node id =>
      obtain ⟨i, hi, rfl⟩ := List.mem_map.mp hport
      rcases hargs with _ | ⟨hlen, hnil⟩
      rename_i arg args
      have hlt : i < arg.length := by
        rw [hlen]
        exact List.mem_range.mp hi
      exact ⟨arg[i], by simp [Port.read, hlt]⟩

/-- No port of a source occurs twice. -/
theorem nodup_ports (d : GraphDimension) (source : PositionSource) : (source.ports d).Nodup := by
  cases source with
  | base => exact List.nodup_range.map fun _ _ h => Port.base.inj h
  | node id => exact List.nodup_range.map fun _ _ h => (Port.arg.inj h).2

end PositionSource

/-- An operation reads its inputs, and the height of the point. -/
theorem CombineOp.mem_ports {op : CombineOp} {port : Port} (h : port ∈ op.ports) :
    (∃ i < op.inputCount, port = .arg i 0) ∨ port = .base 1 := by
  cases op <;>
    simp only [ports, List.mem_cons, List.not_mem_nil, or_false] at h <;>
    rcases h with rfl | rfl <;> simp [inputCount]

namespace NodeSpec

variable {α : Type} {d : GraphDimension} {node : NodeSpec}

/-- **Readable nodes can be read**, on slots and on values. -/
theorem Readable.read_ports (h : node.Readable d) {base : List α} (hbase : base.length = d.size)
    {args : List (List α)} (hargs : Widths node.references args) :
    ∃ inputs, node.ports.mapM (Port.read base args) = some inputs := by
  have hread : ∀ port ∈ node.ports, ∃ a, port.read base args = some a := by
    cases node with
    | warp2D node => exact node.source.read_ports hbase (fun _ => by cases d <;> decide) hargs
    | sample2D node => exact node.source.read_ports hbase (fun _ => by cases d <;> decide) hargs
    | warp3D node => exact node.source.read_ports hbase (fun hs => by rw [h hs]) hargs
    | sample3D node => exact node.source.read_ports hbase (fun hs => by rw [h hs]) hargs
    | combine node =>
        obtain ⟨hinputs, -⟩ := h
        have hlen : args.length = node.inputs.length := by
          simpa [references] using hargs.length_eq.symm
        intro port hport
        rcases CombineOp.mem_ports hport with ⟨i, hi, rfl⟩ | rfl
        · have hlt : i < args.length := by omega
          obtain ⟨ref, href, hwidth⟩ := exists_of_mem_right hargs (List.getElem_mem hlt)
          obtain ⟨input, -, rfl⟩ := List.mem_map.mp href
          have hpos : 0 < (args[i]).length := by rw [hwidth]; exact Nat.one_pos
          exact ⟨(args[i])[0], by simp [Port.read, hlt, hpos]⟩
        · have hlt : 1 < base.length := by
            rw [hbase]
            cases d <;> decide
          exact ⟨base[1], List.getElem?_eq_getElem hlt⟩
  exact exists_mapM hread

end NodeSpec

/-- The slots of the base position are among those of the three base coordinates. -/
theorem Port.read_baseCoords {d : GraphDimension} {args : List (List BufferSlot)} {port : Port}
    {slot : BufferSlot} (h : port.read (basePositionSlots d).coords args = some slot) :
    port.read baseCoords args = some slot := by
  cases port with
  | arg i j => exact h
  | base i =>
      change (basePositionSlots d).coords[i]? = some slot at h
      obtain ⟨more, hmore⟩ : (basePositionSlots d).coords <+: baseCoords := by cases d <;> decide
      have hlt := (List.getElem?_eq_some_iff.mp h).1
      rw [← hmore, Port.read, List.getElem?_append_left hlt, h]

/-! ### Columns -/

section Columns

variable {p : JobPacket} {base : List BufferSlot} {points : List (List F32)}
  {slotArgs : List (List BufferSlot)} {argVals : List (List (List F32))}

/-- Some slots hold a vector for each point. -/
structure Filled (p : JobPacket) (points : List (List F32)) (slots : List BufferSlot)
    (vals : List (List F32)) : Prop where
  holds : Holds p slots vals
  count : vals.length = points.length
  width : ∀ v ∈ vals, v.length = slots.length

/-- The slot that a port reads holds what the port reads at the points. -/
theorem Port.column_of_read (hbase : Filled p points base points)
    (hargs : List.Forall₂ (Filled p points) slotArgs argVals) {port : Port} {slot : BufferSlot}
    (h : port.read base slotArgs = some slot) :
    ∃ col : List F32, p.view slot = some (.ofList .f32 col) ∧ col.length = points.length ∧
      ∀ i (hi : i < points.length),
        port.read points[i] (argVals.map fun vals => vals.getD i []) = col[i]? := by
  -- one coordinate of vectors that have it
  have hcol : ∀ {slots : List BufferSlot} {vals : List (List F32)} {j : ℕ},
      Filled p points slots vals → slots[j]? = some slot →
        p.view slot = some (.ofList .f32 (column vals j)) ∧
          (column vals j).length = points.length ∧
          ∀ i, i < points.length → (vals.getD i [])[j]? = (column vals j)[i]? := by
    intro slots vals j hfilled hslot
    refine ⟨hfilled.holds j slot hslot, by rw [length_column, hfilled.count], fun i hi => ?_⟩
    have hi' : i < vals.length := hfilled.count ▸ hi
    have hj : j < vals[i].length := by
      rw [hfilled.width _ (List.getElem_mem hi')]
      exact (List.getElem?_eq_some_iff.mp hslot).1
    simp [column, hi', hj]
  cases port with
  | base j =>
      obtain ⟨hview, hlen, hread⟩ := hcol hbase h
      refine ⟨_, hview, hlen, fun i hi => ?_⟩
      rw [← hread i hi]
      simp [Port.read, hi]
  | arg k j =>
      obtain ⟨slots, hslots, hslot⟩ := Option.bind_eq_some_iff.mp h
      obtain ⟨hk, rfl⟩ := List.getElem?_eq_some_iff.mp hslots
      have hk' : k < argVals.length := hargs.length_eq ▸ hk
      obtain ⟨hview, hlen, hread⟩ := hcol ((List.forall₂_iff_get.mp hargs).2 k hk hk') hslot
      refine ⟨_, hview, hlen, fun i hi => ?_⟩
      rw [← hread i hi]
      simp [Port.read, hk']

/-- **The input slots hold the input values**: what the ports read on slots and what they
read on the values at the points. -/
theorem filled_inputs (hbase : Filled p points base points)
    (hargs : List.Forall₂ (Filled p points) slotArgs argVals) {ports : List Port}
    {inputs : List BufferSlot} (h : ports.mapM (Port.read base slotArgs) = some inputs) :
    ∃ ins, Filled p points inputs ins ∧ ∀ i (hi : i < points.length),
      ports.mapM (Port.read points[i] (argVals.map fun vals => vals.getD i [])) = ins[i]? := by
  have hreads := mapM_eq_some.mp h
  clear h
  induction hreads with
  | nil =>
      refine ⟨List.replicate points.length [], ⟨by simp [Holds], by simp, by simp⟩, ?_⟩
      intro i hi
      simp [hi]
  | @cons port slot ports inputs hport _ ih =>
      obtain ⟨col, hview, hlen, hread⟩ := port.column_of_read hbase hargs hport
      obtain ⟨ins, hins, hrest⟩ := ih
      refine ⟨List.zipWith (· :: ·) col ins, ⟨?_, ?_, ?_⟩, fun i hi => ?_⟩
      · intro j slot' hslot
        cases j with
        | zero =>
            obtain rfl := Option.some.inj hslot
            have hcol : column (List.zipWith (· :: ·) col ins) 0 = col := by
              refine List.ext_getElem (by simp [hlen, hins.count]) fun i hi _ => ?_
              simp [column]
            rw [hcol, hview]
        | succ j =>
            have hcol : column (List.zipWith (· :: ·) col ins) (j + 1) = column ins j := by
              refine List.ext_getElem (by simp [hlen, hins.count]) fun i hi _ => ?_
              simp [column]
            rw [hcol]
            exact hins.holds j slot' hslot
      · simp [hlen, hins.count]
      · intro v hv
        obtain ⟨i, hi, rfl⟩ := List.getElem_of_mem hv
        simp only [List.length_zipWith, Nat.lt_min] at hi
        simp [hins.width _ (List.getElem_mem hi.2)]
      · have hi₁ : i < col.length := hlen ▸ hi
        have hi₂ : i < ins.length := hins.count ▸ hi
        rw [List.mapM_cons, hread i hi, hrest i hi]
        simp [hi₁, hi₂]

end Columns

end Braids
