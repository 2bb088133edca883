import Braids.Lib.Runs
import Braids.Packet.Frames
import Braids.Packet.Recycle

/-!
# Packets in Use

Every packet in use comes from `JobPacket::default()` through calls of its methods, by hooks
and by the runtime. A hook that unwinds while it writes through a borrow leaves what it has
written so far, as one that wrote no more does.

## Main results

* `PacketCall.run_wf`: no call panics, and each keeps a packet in order.
* `emptyAt`: a slot that was cleared stays empty until it is ensured again.
* `packet_typed_map`: a packet in use is a map from slots to typed buffers without stale data.
-/

namespace Braids

open Lts

/-! ### Calls that change no length -/

namespace PacketM

/-- What is handed out keeps its length. -/
theorem overwrites_lengths (kind : ElementKind) (slot : BufferSlot) :
    SlotRule.lengths.Overwrites kind slot := by
  intro old new hlen
  simp [SlotRule.lengths, hlen]

/-- `slice_many_mut`. -/
theorem sliceManyMut_keepsLengths (kind : ElementKind) (width : ℕ) (slot : BufferSlot)
    (edit : List kind.Elem → List kind.Elem) :
    (JobPacket.sliceManyMut kind width slot edit).KeepsLengths := by
  rw [JobPacket.sliceManyMut]
  split
  · exact .read _
  · exact Obeys.markDirty.bind fun _ => .bind (.sliceMut (overwrites_lengths kind slot) _)
      fun _ => .read _

end PacketM

/-! ### Calls -/

/-- What is done to a packet: a method that hooks may call, or `load_static_buffer`. -/
inductive PacketCall
  | method (op : PacketOp)
  | loadStaticBuffer (slot : BufferSlot) (data : BufferData)

namespace PacketCall

/-- The packet after a call, nothing if it panics. -/
def run : PacketCall → JobPacket → Option JobPacket
  | .method op, p => (packetImpl op p).map (·.2)
  | .loadStaticBuffer slot data, p =>
      ((JobPacket.loadStaticBuffer slot data).run p).map (·.2)

/-- The slot that a call ensures. -/
def ensures : PacketCall → Option BufferSlot
  | .method (.ensure _ slot _ _) => some slot
  | .loadStaticBuffer slot _ => some slot
  | _ => none

/-- **No call panics, and each keeps a packet in order.** -/
theorem run_wf {p : JobPacket} (h : p.Wf) (call : PacketCall) :
    ∃ p', call.run p = some p' ∧ p'.Wf := by
  cases call with
  | method op =>
      have hrefl : SamePacket (fun _ _ => True) ∅ p p := .refl h
      obtain ⟨r, p', _, hrun, -, hsame⟩ :=
        alike_of_same ∅ op p p (fun _ _ => Set.notMem_empty _) hrefl
      exact ⟨p', by rw [run, hrun]; rfl, hsame.left⟩
  | loadStaticBuffer slot data =>
      obtain ⟨p', hrun, hwf, -⟩ := JobPacket.loadStaticBuffer_spec h slot data
      exact ⟨p', by rw [run, hrun]; rfl, hwf⟩

end PacketCall

namespace JobPacket

/-- A packet in use: what any sequence of calls makes of `JobPacket::default()`. -/
abbrev Reached : JobPacket → Prop :=
  Reach (· = ({} : JobPacket)) fun p (call : PacketCall) => call.run p

/-- What calls that do not ensure `slot` make of a packet. -/
abbrev ReachedWithout (slot : BufferSlot) (p : JobPacket) : JobPacket → Prop :=
  ReachBy (· = p) (fun p (call : PacketCall) => call.run p) fun _ call => call.ensures ≠ some slot

variable {p p' : JobPacket}

/-- A packet in use is in order. -/
theorem Reached.wf (h : p.Reached) : p.Wf := by
  refine ReachBy.invariant (I := Wf) (fun s (hs : s = {}) => hs ▸ wf_default) ?_ h
  intro s call s' _ hwf _ hstep
  obtain ⟨t, ht, hwf'⟩ := call.run_wf hwf
  exact Option.some.inj (hstep.symm.trans ht) ▸ hwf'

/-- Nothing is in a slot. -/
def EmptyAt (p : JobPacket) (slot : BufferSlot) : Prop :=
  ∀ data, p.view slot = some data → data.len = 0

/-- Slots after a call that changes no length. -/
theorem EmptyAt.of_keepsLengths {α : Type} {m : PacketM α} (hm : m.KeepsLengths) {slot : BufferSlot}
    (h : p.EmptyAt slot) (hp : p.Wf) {r : BraidResult α} (hrun : m.run p = some (r, p')) :
    p'.EmptyAt slot := by
  intro data hdata
  have hlen : (p'.view slot).map BufferData.len = (p.view slot).map BufferData.len :=
    (hm p p' r hp hrun).2.2 slot
  rw [hdata] at hlen
  obtain ⟨old, hold, heq⟩ := Option.map_eq_some_iff.mp hlen.symm
  exact heq.symm.trans (h old hold)

/-- Slots after another was written. -/
theorem EmptyAt.of_update {slot other : BufferSlot} (h : p.EmptyAt slot) (hne : slot ≠ other)
    {data : BufferData} (hview : p'.view = Function.update p.view other (some data)) :
    p'.EmptyAt slot := by
  intro data' hdata
  rw [hview, Function.update_of_ne hne] at hdata
  exact h data' hdata

/-- **An empty slot stays empty** under a call that does not ensure it. -/
theorem EmptyAt.run {slot : BufferSlot} (h : p.EmptyAt slot) (hp : p.Wf) {call : PacketCall}
    (hcall : call.ensures ≠ some slot) (hrun : call.run p = some p') : p'.EmptyAt slot := by
  cases call with
  | loadStaticBuffer other data =>
      obtain ⟨p₁, hrun₁, -, -, hview⟩ := loadStaticBuffer_spec hp other data
      rw [PacketCall.run, hrun₁, Option.map_some, Option.some.injEq] at hrun
      subst hrun
      have hne : slot ≠ other := fun heq => hcall (by rw [heq]; rfl)
      exact h.of_update hne hview
  | method op =>
      obtain ⟨⟨r, p₁⟩, hop, rfl⟩ := Option.map_eq_some_iff.mp hrun
      cases op with
      | queryCount =>
          obtain ⟨-, rfl⟩ := Prod.mk.inj (Option.some.inj hop)
          exact h
      | setQueryCount count =>
          obtain ⟨-, rfl⟩ := Prod.mk.inj (Option.some.inj hop)
          exact h
      | clearForReuse =>
          obtain ⟨-, rfl⟩ := Prod.mk.inj (Option.some.inj hop)
          intro data hdata
          rw [(clearForReuse_spec hp).2.2] at hdata
          obtain ⟨old, -, rfl⟩ := Option.map_eq_some_iff.mp hdata
          exact BufferData.len_clear old
      | ensure kind other len edit =>
          obtain ⟨p₂, hrun₂, -, -, hview⟩ := ensure_spec hp kind other len
            (fun values => some (edit values)) rfl
          obtain ⟨-, rfl⟩ := Prod.mk.inj (Option.some.inj (hrun₂.symm.trans hop))
          have hne : slot ≠ other := fun heq => hcall (by rw [heq]; rfl)
          exact h.of_update hne hview
      | slice | sliceMany => exact h.of_keepsLengths (.read _) hp hop
      | sliceMut kind other edit =>
          exact h.of_keepsLengths (.sliceMut (PacketM.overwrites_lengths kind other) edit) hp hop
      | sliceManyMut kind width other edit =>
          exact h.of_keepsLengths (PacketM.sliceManyMut_keepsLengths kind width other edit) hp hop
      | withSlices kind slots edit =>
          refine h.of_keepsLengths (.withSlices (fun slot _ => ?_) _) hp hop
          exact PacketM.overwrites_lengths kind slot

/-- **A slot that was cleared stays empty** until it is ensured again. -/
theorem emptyAt (hp : p.Wf) {slot : BufferSlot} (h : ReachedWithout slot p.clearForReuse p') :
    p'.Wf ∧ p'.EmptyAt slot := by
  obtain ⟨hwf, -, hview⟩ := clearForReuse_spec hp
  have hempty : p.clearForReuse.EmptyAt slot := by
    intro data hdata
    rw [hview] at hdata
    obtain ⟨old, -, rfl⟩ := Option.map_eq_some_iff.mp hdata
    exact BufferData.len_clear old
  refine ReachBy.invariant (I := fun q : JobPacket => q.Wf ∧ q.EmptyAt slot)
    (fun s (hs : s = p.clearForReuse) => hs ▸ ⟨hwf, hempty⟩) ?_ h
  rintro s call s' - ⟨hs, hat⟩ hcall hstep
  obtain ⟨t, ht, hwf'⟩ := call.run_wf hs
  obtain rfl := Option.some.inj (hstep.symm.trans ht)
  exact ⟨hwf', hat.run hs hcall hstep⟩

/-! ### A typed map without stale data -/

/-- A packet is a map from slots to typed buffers, none of them stale. -/
structure TypedMap (p : JobPacket) : Prop where
  /-- `slot_indices` maps a slot to an index exactly when the buffer there is that slot's. -/
  index : ∀ slot i, p.slotIndex slot = some i ↔ (p.buffers[i]?).map (·.slot) = some slot
  /-- A slot has at most one buffer. -/
  nodup : (p.buffers.map (·.slot)).Nodup
  /-- Every index is in bounds. -/
  bound : ∀ slot i, p.slotIndex slot = some i → i < p.buffers.length
  /-- No call panics. -/
  total : ∀ call : PacketCall, (call.run p).isSome = true
  /-- `ensure` keeps the old prefix of the same kind, starts from empty otherwise, and leaves
  every other slot as it is. -/
  ensured : ∀ (kind : ElementKind) (slot : BufferSlot) (len : ℕ)
    (edit : List kind.Elem → List kind.Elem), ∃ values p',
      (ensure kind slot len fun values => some (edit values)).run p = some (.ok values, p') ∧
        (∀ old, p.view slot = some (.ofList kind old) →
          values = old.take len ++ List.replicate (len - old.length) kind.default) ∧
        ((∀ old, p.view slot ≠ some (.ofList kind old)) →
          values = List.replicate len kind.default) ∧
        p'.view slot = some (.ofList kind (edit values)) ∧
        ∀ other ≠ slot, p'.view other = p.view other
  /-- Every buffer is empty unless the packet is dirty. -/
  clean : p.isDirty = false → ∀ buffer ∈ p.buffers, buffer.data.len = 0
  /-- `clear_for_reuse` leaves every buffer empty. -/
  cleared : ∀ buffer ∈ p.clearForReuse.buffers, buffer.data.len = 0
  /-- The first `ensure` of a slot after that hands out default values. -/
  refilled : ∀ slot p', ReachedWithout slot p.clearForReuse p' →
    ∀ (kind : ElementKind) (len : ℕ) (edit : List kind.Elem → List kind.Elem), ∃ p'',
      (ensure kind slot len fun values => some (edit values)).run p' =
        some (.ok (List.replicate len kind.default), p'')
  /-- `load_static_buffer` makes the slot read as the static data. -/
  loaded : ∀ slot data, ∃ p', (loadStaticBuffer slot data).run p = some (.ok (), p') ∧
    ∀ kind values, data = .ofList kind values → p'.slice kind slot = .ok values

/-- No two buffers have the same slot. -/
theorem Wf.nodup (h : p.Wf) : (p.buffers.map (·.slot)).Nodup := by
  rw [List.Nodup, List.pairwise_map, List.pairwise_iff_getElem]
  intro i j hi hj hij heq
  have hi' := (h.index p.buffers[j].slot i).mpr (by
    rw [List.getElem?_eq_getElem hi, Option.map_some, heq])
  have hj' := (h.index p.buffers[j].slot j).mpr (by
    rw [List.getElem?_eq_getElem hj, Option.map_some])
  rw [hi', Option.some.injEq] at hj'
  omega

/-- What `ensure` starts from. -/
theorem contents_of_view {kind : ElementKind} {slot : BufferSlot} {values : List kind.Elem}
    (h : p.view slot = some (.ofList kind values)) : p.contents kind slot = values := by
  simp [contents, h]

/-- It starts from nothing in a slot of another kind. -/
theorem contents_eq_nil {kind : ElementKind} {slot : BufferSlot}
    (h : ∀ old, p.view slot ≠ some (.ofList kind old)) : p.contents kind slot = [] := by
  cases hview : p.view slot with
  | none => simp [contents, hview]
  | some data =>
      cases hget : BufferData.get kind data with
      | none => simp [contents, hview, hget]
      | some old => exact absurd (hview.trans (by rw [BufferData.eq_ofList_of_get hget])) (h old)

/-- It starts from nothing in an empty slot. -/
theorem EmptyAt.contents {slot : BufferSlot} (h : p.EmptyAt slot) (kind : ElementKind) :
    p.contents kind slot = [] := by
  by_cases hkind : ∃ old, p.view slot = some (.ofList kind old)
  · obtain ⟨old, hold⟩ := hkind
    have hlen := h _ hold
    rw [BufferData.len_ofList] at hlen
    rw [contents_of_view hold, List.length_eq_zero_iff.mp hlen]
  · exact contents_eq_nil (not_exists.mp hkind)

/-- **A packet in use is a map from slots to typed buffers without stale data.** -/
theorem packet_typed_map (h : p.Reached) : p.TypedMap := by
  have hwf := h.wf
  refine ⟨hwf.index, hwf.nodup, fun slot i hi => ?_, fun call => ?_, fun kind slot len edit => ?_,
    hwf.clean, ?_, fun slot p' hp' kind len edit => ?_, fun slot data => ?_⟩
  · obtain ⟨data, hbuffer⟩ := hwf.buffer hi
    exact (List.getElem?_eq_some_iff.mp hbuffer).1
  · obtain ⟨p', hrun, -⟩ := call.run_wf hwf
    rw [hrun, Option.isSome_some]
  · obtain ⟨p', hrun, -, -, hview⟩ := ensure_spec hwf kind slot len
      (fun values => some (edit values)) rfl
    refine ⟨_, p', hrun, fun old hold => ?_, fun hother => ?_, ?_, fun other hne => ?_⟩
    · rw [contents_of_view hold, resize]
    · rw [contents_eq_nil hother, resize_nil]
    · rw [hview, Function.update_self]
    · rw [hview, Function.update_of_ne hne]
  · refine (clearForReuse_spec hwf).1.clean ?_
    rw [clearForReuse]
    split
    · next hclean => simpa using hclean
    · rfl
  · obtain ⟨hwf', hempty⟩ := emptyAt hwf hp'
    obtain ⟨p'', hrun, -⟩ := ensure_spec hwf' kind slot len (fun values => some (edit values)) rfl
    rw [hempty.contents, resize_nil] at hrun
    exact ⟨p'', hrun⟩
  · obtain ⟨p', hrun, hwf', -, hview⟩ := loadStaticBuffer_spec hwf slot data
    refine ⟨p', hrun, fun kind values hdata => slice_of_view hwf' ?_⟩
    rw [hview, Function.update_self, hdata]

/-- A packet in use whose only slot was filled. -/
theorem packet_typed_map_filled :
    ∃ p : JobPacket, p.slice .u32 ⟨3⟩ = .ok [1, 2] ∧
      ∀ buffer ∈ p.clearForReuse.buffers, buffer.data.len = 0 :=
  ⟨_, rfl, (packet_typed_map (p := ⟨0, [⟨⟨3⟩, .u32 [1, 2]⟩], [none, none, none, some 0], true⟩)
    (.step (.init rfl) trivial (a := .loadStaticBuffer ⟨3⟩ (.u32 [1, 2])) rfl)).cleared⟩

end JobPacket

end Braids
