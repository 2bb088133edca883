import Braids.Packet.Runs
import Mathlib.Data.List.Forall2
import Mathlib.Data.List.Nodup

/-!
# Several Borrows at Once

`with_slices` looks up the position of each requested buffer, turns the positions into raw
pointers and hands one mutable view of each buffer to its closure. The views must not alias.
The source checks that no position is found twice; that this makes the slots distinct, and
each view the buffer of its slot, rests on the index of the packet.

## Main result

* `with_slices_disjoint`: when the closure is called, which buffers it gets, and what the
  writes through its views change.
-/

namespace Braids

namespace JobPacket

variable {p : JobPacket} {kind : ElementKind} {slots : List BufferSlot}

/-- The slots exist, hold elements of the kind, and are pairwise distinct. -/
def Granted (p : JobPacket) (kind : ElementKind) (slots : List BufferSlot) : Prop :=
  slots.Nodup ∧ ∀ slot ∈ slots, ∃ buffer ∈ p.buffers, buffer.slot = slot ∧ buffer.data.kind = kind

/-- A slot with a buffer of the kind. -/
theorem Wf.view_eq_contents (h : p.Wf) {slot : BufferSlot} {buffer : PacketBuffer}
    (hbuffer : buffer ∈ p.buffers) (hslot : buffer.slot = slot) (hkind : buffer.data.kind = kind) :
    p.view slot = some (.ofList kind (p.contents kind slot)) := by
  obtain ⟨values, hget⟩ := BufferData.exists_get hkind
  have hview : p.view slot = some (.ofList kind values) := by
    rw [h.view_eq_some, ← BufferData.eq_ofList_of_get hget, ← hslot]
    exact hbuffer
  rw [hview, contents_of_view hview]

/-- **What is handed out**: the contents of the slots, if they are granted. -/
theorem Wf.requestViews_of_granted (h : p.Wf) (hgranted : p.Granted kind slots) :
    requestViews p.view kind [] slots = .ok (slots.map (p.contents kind)) := by
  obtain ⟨hnodup, hslots⟩ := hgranted
  refine requestViews_eq_ok.mpr ⟨hnodup, fun _ _ => List.not_mem_nil, ?_⟩
  rw [List.forall₂_map_right_iff, List.forall₂_same]
  intro slot hslot
  obtain ⟨buffer, hbuffer, hat, hkind⟩ := hslots slot hslot
  exact h.view_eq_contents hbuffer hat hkind

/-- Nothing is handed out unless the slots are granted. -/
theorem Wf.granted_of_requestViews (h : p.Wf) {olds : List (List kind.Elem)}
    (hreq : requestViews p.view kind [] slots = .ok olds) : p.Granted kind slots := by
  obtain ⟨hnodup, -, hviews⟩ := requestViews_eq_ok.mp hreq
  refine ⟨hnodup, fun slot hslot => ?_⟩
  obtain ⟨i, hi⟩ := List.getElem?_of_mem hslot
  obtain ⟨hlt, rfl⟩ := List.getElem?_eq_some_iff.mp hi
  have hview := hviews.get hlt (hviews.length_eq ▸ hlt)
  exact ⟨_, h.view_eq_some.mp hview, rfl, BufferData.kind_ofList _ _⟩

/-- The positions of distinct slots are distinct. -/
theorem Wf.nodup_indices (h : p.Wf) (hnodup : slots.Nodup) {indices : List ℕ}
    (hindices : indices.map some = slots.map p.slotIndex) : indices.Nodup := by
  refine List.Nodup.of_map some (hindices ▸ List.Nodup.map_on ?_ hnodup)
  intro slot hslot slot' _ heq
  have hin : p.slotIndex slot ∈ indices.map some := hindices ▸ List.mem_map_of_mem hslot
  obtain ⟨i, -, hi⟩ := List.mem_map.mp hin
  exact h.slot_inj hi.symm (heq.symm.trans hi.symm)

/-- What `with_slices` does with a packet, whatever its closure is. -/
structure DisjointBorrow (p : JobPacket) (kind : ElementKind) (slots : List BufferSlot) :
    Prop where
  /-- A closure that panics when it is called tells that it is called. -/
  called : ∀ α : Type,
    (withSlices (α := α) kind slots fun _ => none).run p = none ↔ p.Granted kind slots
  /-- The positions are distinct, view `i` is the buffer of slot `i`, and what is written
  through it changes that slot only. -/
  granted : p.Granted kind slots → ∃ indices, p.requestIndices kind [] slots = .ok indices ∧
    indices.Nodup ∧
    List.Forall₂ (fun slot index =>
      p.buffers[index]? = some ⟨slot, .ofList kind (p.contents kind slot)⟩) slots indices ∧
    ∀ {α : Type} (f : List (List kind.Elem) → Option (BraidResult α × List (List kind.Elem)))
      (r : BraidResult α) (news : List (List kind.Elem)),
      f (slots.map (p.contents kind)) = some (r, news) → ∃ p',
        (withSlices kind slots f).run p = some (r, p') ∧ p'.queryCount = p.queryCount ∧
        (∀ (i : ℕ) (slot : BufferSlot), slots[i]? = some slot → p'.view slot =
          some (.ofList kind (overwrite (p.contents kind slot) (news[i]?.getD [])))) ∧
        ∀ slot ∉ slots, p'.view slot = p.view slot
  /-- Otherwise it fails, without a call, and the packet is as before. -/
  refused : ¬ p.Granted kind slots → ∃ e, ∀ {α : Type}
    (f : List (List kind.Elem) → Option (BraidResult α × List (List kind.Elem))),
    (withSlices kind slots f).run p = some (.error e, p)

/-- Slots that are not granted are refused. -/
theorem Wf.withSlices_refused (h : p.Wf) (hgranted : ¬ p.Granted kind slots) :
    ∃ e, ∀ {α : Type} (f : List (List kind.Elem) →
      Option (BraidResult α × List (List kind.Elem))),
      (withSlices kind slots f).run p = some (.error e, p) := by
  cases hreq : requestViews p.view kind [] slots with
  | ok olds => exact absurd (h.granted_of_requestViews hreq) hgranted
  | panicked =>
      have hspec := withSlices_spec (α := Unit) h kind slots fun _ => none
      rw [hreq] at hspec
      exact hspec.elim
  | err e =>
      refine ⟨e, fun f => ?_⟩
      have hspec := withSlices_spec h kind slots f
      rw [hreq] at hspec
      exact hspec

/-- The closure is called with the contents of granted slots. -/
theorem Wf.withSlices_called (h : p.Wf) (hgranted : p.Granted kind slots) (α : Type) :
    (withSlices (α := α) kind slots fun _ => none).run p = none := by
  have hspec := withSlices_spec (α := α) h kind slots fun _ => none
  rw [h.requestViews_of_granted hgranted] at hspec
  exact hspec

/-- What is written through the views of granted slots. -/
theorem Wf.withSlices_written (h : p.Wf) (hgranted : p.Granted kind slots) {α : Type}
    (f : List (List kind.Elem) → Option (BraidResult α × List (List kind.Elem)))
    {r : BraidResult α} {news : List (List kind.Elem)}
    (hf : f (slots.map (p.contents kind)) = some (r, news)) : ∃ p',
      (withSlices kind slots f).run p = some (r, p') ∧ p'.queryCount = p.queryCount ∧
      (∀ (i : ℕ) (slot : BufferSlot), slots[i]? = some slot → p'.view slot =
        some (.ofList kind (overwrite (p.contents kind slot) (news[i]?.getD [])))) ∧
      ∀ slot ∉ slots, p'.view slot = p.view slot := by
  have hspec := withSlices_spec h kind slots f
  rw [h.requestViews_of_granted hgranted] at hspec
  simp only [hf] at hspec
  obtain ⟨p', hrun, -, hcount, hview⟩ := hspec
  refine ⟨p', hrun, hcount, fun i slot hslot => ?_, fun slot hslot => ?_⟩
  · cases hnew : news[i]? with
    | some new =>
        have hold : (slots.map (p.contents kind))[i]? = some (p.contents kind slot) := by
          rw [List.getElem?_map, hslot, Option.map_some]
        rw [hview, overwriteViews_of_getElem? kind hgranted.1 hslot hold hnew, Option.getD_some]
    | none =>
        obtain ⟨buffer, hbuffer, hat, hkind⟩ := hgranted.2 slot (List.mem_of_getElem? hslot)
        rw [hview, overwriteViews_of_getElem?_none hgranted.1 hslot hnew,
          h.view_eq_contents hbuffer hat hkind]
        simp [overwrite]
  · rw [hview, overwriteViews_of_notMem hslot]

/-- **The views that `with_slices` hands out are disjoint.** -/
theorem with_slices_disjoint (h : p.Reached) (kind : ElementKind) (slots : List BufferSlot) :
    p.DisjointBorrow kind slots := by
  have hwf := h.wf
  refine ⟨fun α => ⟨fun hcall => ?_, fun hgranted => hwf.withSlices_called hgranted α⟩,
    fun hgranted => ?_, hwf.withSlices_refused⟩
  · by_contra hgranted
    obtain ⟨e, hrefused⟩ := hwf.withSlices_refused hgranted
    exact absurd (hcall.symm.trans (hrefused _)) (by simp)
  · have hnone : ([] : List ℕ).map some = ([] : List BufferSlot).map p.slotIndex := rfl
    have hspec := requestIndices_spec hwf kind hnone slots
    rw [hwf.requestViews_of_granted hgranted] at hspec
    obtain ⟨indices, hindices, hmap, -⟩ := hspec
    rw [List.nil_append] at hindices
    refine ⟨indices, hindices, hwf.nodup_indices hgranted.1 hmap, ?_,
      fun f r news hf => hwf.withSlices_written hgranted f hf⟩
    have hat : List.Forall₂ (fun slot index => p.slotIndex slot = some index) slots indices := by
      have hsame : List.Forall₂ (· = ·) (slots.map p.slotIndex) (indices.map some) :=
        hmap ▸ List.forall₂_same.mpr fun _ _ => rfl
      rwa [List.forall₂_map_left_iff, List.forall₂_map_right_iff] at hsame
    refine ((List.forall₂_and_left _ _).mpr ⟨hgranted.2, hat⟩).imp ?_
    rintro slot index ⟨⟨buffer, hbuffer, hslot, hkind⟩, hindex⟩
    exact hwf.view_eq hindex (hwf.view_eq_contents hbuffer hslot hkind)

/-- A packet with two buffers that are written at once, in either order of their slots. -/
theorem with_slices_disjoint_swapped :
    (JobPacket.mk 0 [⟨⟨1⟩, .u32 [7]⟩, ⟨⟨0⟩, .u32 [8, 9]⟩] [some 1, some 0] true).DisjointBorrow
      .u32 [⟨0⟩, ⟨1⟩] := by
  have hfirst : (JobPacket.mk 0 [⟨⟨1⟩, .u32 [7]⟩] [none, some 0] true).Reached :=
    .step (.init rfl) trivial (a := .loadStaticBuffer ⟨1⟩ (.u32 [7])) rfl
  exact with_slices_disjoint
    (hfirst.step trivial (a := .loadStaticBuffer ⟨0⟩ (.u32 [8, 9])) rfl) .u32 [⟨0⟩, ⟨1⟩]

end JobPacket

end Braids
