import Braids.Packet.View

/-!
# What a Call Writes

A `SlotRule` says what may become of the buffer in a slot. `PacketM.Obeys rule m` says that the
call `m` keeps a packet in order, keeps its query count, and treats every slot as the rule
allows, whether it succeeds or fails. A call obeys a rule if its parts do, so a rule has to be
checked only for the buffers that are written.

## Main results

* `Obeys.bind`, `Obeys.ensure`, `Obeys.sliceMut`, `Obeys.withSlices`: the frame rule, for the
  parts of a call.
* `PacketM.Writes`, `PacketM.Within`, `PacketM.KeepsLengths`: calls that write buffers of one
  kind only, that write some slots only, and that change no length.
* `Writes.slice_eq`: what is read of another kind was not written.
-/

namespace Braids

/-- What may become of the buffer in a slot. -/
structure SlotRule where
  Allows : BufferSlot → Option BufferData → Option BufferData → Prop
  refl : ∀ slot data, Allows slot data data
  trans : ∀ {slot a b c}, Allows slot a b → Allows slot b c → Allows slot a c

namespace SlotRule

/-- A buffer that is written becomes one of the kind. -/
def kind (kind : ElementKind) : SlotRule where
  Allows _ old new := new = old ∨ ∃ values : List kind.Elem, new = some (.ofList kind values)
  refl _ _ := .inl rfl
  trans := by
    rintro _ a b c hab (rfl | hc)
    · exact hab
    · exact .inr hc

/-- Other slots than those allowed are not written. -/
def slots (allowed : BufferSlot → Prop) : SlotRule where
  Allows slot old new := ¬ allowed slot → new = old
  refl _ _ _ := rfl
  trans hab hbc hslot := (hbc hslot).trans (hab hslot)

/-- Buffers keep their lengths, and there are no new ones. -/
def lengths : SlotRule where
  Allows _ old new := new.map BufferData.len = old.map BufferData.len
  refl _ _ := rfl
  trans hab hbc := hbc.trans hab

/-- What is handed out of a slot may be overwritten. -/
def Overwrites (rule : SlotRule) (kind : ElementKind) (slot : BufferSlot) : Prop :=
  ∀ old new : List kind.Elem, new.length = old.length →
    rule.Allows slot (some (.ofList kind old)) (some (.ofList kind new))

variable {rule : SlotRule} {kind : ElementKind}

/-- A slot that is overwritten. -/
theorem Overwrites.update {view : BufferSlot → Option BufferData} {s : BufferSlot}
    {old new : List kind.Elem} (h : rule.Overwrites kind s)
    (hview : view s = some (.ofList kind old)) (hlen : new.length = old.length)
    (slot : BufferSlot) :
    rule.Allows slot (view slot) (Function.update view s (some (.ofList kind new)) slot) := by
  rw [Function.update_apply]
  split
  · next heq =>
      rw [heq, hview]
      exact h old new hlen
  · exact rule.refl _ _

/-- The slots that `with_slices` hands out are overwritten one after another. -/
theorem allows_overwriteViews {view : BufferSlot → Option BufferData} {slots : List BufferSlot}
    (h : ∀ slot ∈ slots, rule.Overwrites kind slot) (hnd : slots.Nodup)
    {olds : List (List kind.Elem)}
    (hview : List.Forall₂ (fun slot old => view slot = some (.ofList kind old)) slots olds)
    (news : List (List kind.Elem)) (slot : BufferSlot) :
    rule.Allows slot (view slot)
      (JobPacket.overwriteViews kind view slots olds news slot) := by
  induction slots generalizing view olds news with
  | nil =>
      rw [JobPacket.overwriteViews]
      · exact rule.refl _ _
      · simp
  | cons s slots ih =>
      cases hview with
      | @cons _ old _ olds hold hview =>
      cases news with
      | nil => exact rule.refl _ _
      | cons new news =>
          rw [List.forall_mem_cons] at h
          rw [List.nodup_cons] at hnd
          rw [JobPacket.overwriteViews]
          have hlen : (overwrite old new).length = old.length := length_overwrite old new
          refine rule.trans (h.1.update hold hlen slot) (ih h.2 hnd.2 ?_ news)
          -- the other slots are still as they were
          have hne : ∀ other ∈ slots, other ≠ s := fun other hother heq => hnd.1 (heq ▸ hother)
          refine ((List.forall₂_and_left _ _).mpr ⟨hne, hview⟩).imp fun other value hother => ?_
          rw [Function.update_of_ne hother.1, hother.2]

end SlotRule

namespace PacketM

variable {α β : Type} {kind : ElementKind} {rule : SlotRule}

/-- The call treats every slot as the rule allows. -/
def Obeys (rule : SlotRule) (m : PacketM α) : Prop :=
  ∀ (p p' : JobPacket) (r : BraidResult α), p.Wf → m.run p = some (r, p') →
    p'.Wf ∧ p'.queryCount = p.queryCount ∧
      ∀ slot, rule.Allows slot (p.view slot) (p'.view slot)

namespace Obeys

/-- A call that answers without writing. -/
theorem of_same {m : PacketM α} (h : ∀ p p' r, m.run p = some (r, p') → p' = p) :
    m.Obeys rule := by
  intro p p' r hp hrun
  obtain rfl := h p p' r hrun
  exact ⟨hp, rfl, fun _ => rule.refl _ _⟩

protected theorem pure (a : α) : (pure a : PacketM α).Obeys rule := by
  refine of_same fun p p' r hrun => ?_
  simp only [run_pure, Option.some.injEq, Prod.mk.injEq] at hrun
  exact hrun.2.symm

protected theorem panic : (panic : PacketM α).Obeys rule :=
  of_same fun p p' r hrun => by simp at hrun

protected theorem read (f : JobPacket → HookResult α) : (read f).Obeys rule := by
  refine of_same fun p p' r hrun => ?_
  simp only [run_read, Option.map_eq_some_iff, Prod.mk.injEq] at hrun
  obtain ⟨_, -, -, rfl⟩ := hrun
  rfl

/-- Marking the packet dirty. -/
theorem markDirty : (PacketM.modify fun p => { p with isDirty := true }).Obeys rule := by
  intro p p' r hp hrun
  rw [run_modify, Option.some.injEq, Prod.mk.injEq] at hrun
  obtain ⟨-, rfl⟩ := hrun
  exact ⟨⟨hp.index, by simp⟩, rfl, fun _ => rule.refl _ _⟩

/-- **The frame rule**: one call after another. -/
protected theorem bind {m : PacketM α} {f : α → PacketM β} (hm : m.Obeys rule)
    (hf : ∀ a, (f a).Obeys rule) : (m >>= f).Obeys rule := by
  intro p p' r hp hrun
  rw [run_bind, Option.bind_eq_some_iff] at hrun
  obtain ⟨⟨r₁, p₁⟩, hrun₁, hrest⟩ := hrun
  obtain ⟨hwf₁, hcount₁, hview₁⟩ := hm p p₁ r₁ hp hrun₁
  cases r₁ with
  | error e =>
      simp only [Option.some.injEq, Prod.mk.injEq] at hrest
      obtain ⟨-, rfl⟩ := hrest
      exact ⟨hwf₁, hcount₁, hview₁⟩
  | ok a =>
      obtain ⟨hwf, hcount, hview⟩ := hf a p₁ p' r hwf₁ hrest
      exact ⟨hwf, hcount.trans hcount₁, fun slot => rule.trans (hview₁ slot) (hview slot)⟩

/-- `ensure` writes its slot. -/
theorem ensure {slot : BufferSlot}
    (h : ∀ (old : Option BufferData) (values : List kind.Elem),
      rule.Allows slot old (some (.ofList kind values)))
    (len : ℕ) (edit : List kind.Elem → Option (List kind.Elem)) :
    (JobPacket.ensure kind slot len edit).Obeys rule := by
  intro p p' r hp hrun
  cases hedit : edit (resize kind len (p.contents kind slot)) with
  | none =>
      rw [JobPacket.ensure_panics hp kind slot len hedit] at hrun
      simp at hrun
  | some edited =>
      obtain ⟨p₁, hrun₁, hwf, hcount, hview⟩ := JobPacket.ensure_spec hp kind slot len edit hedit
      rw [hrun₁, Option.some.injEq, Prod.mk.injEq] at hrun
      obtain ⟨-, rfl⟩ := hrun
      refine ⟨hwf, hcount, fun other => ?_⟩
      rw [hview, Function.update_apply]
      split
      · next heq => exact heq ▸ h _ edited
      · exact rule.refl _ _

/-- `slice_mut` overwrites its slot. -/
theorem sliceMut {slot : BufferSlot} (h : rule.Overwrites kind slot)
    (edit : List kind.Elem → List kind.Elem) :
    (JobPacket.sliceMut kind slot edit).Obeys rule := by
  intro p p' r hp hrun
  have hspec := JobPacket.sliceMut_spec hp kind slot edit
  cases hread : JobPacket.readView kind slot (p.view slot) with
  | panicked =>
      rw [hread] at hspec
      exact hspec.elim
  | err e =>
      rw [hread] at hspec
      rw [hspec, Option.some.injEq, Prod.mk.injEq] at hrun
      obtain ⟨-, rfl⟩ := hrun
      exact ⟨hp, rfl, fun _ => rule.refl _ _⟩
  | ok values =>
      rw [hread] at hspec
      obtain ⟨p₁, hrun₁, hwf, hcount, hview⟩ := hspec
      rw [hrun₁, Option.some.injEq, Prod.mk.injEq] at hrun
      obtain ⟨-, rfl⟩ := hrun
      obtain ⟨data, hdata, hget⟩ := JobPacket.readView_eq_ok hread
      obtain rfl := BufferData.eq_ofList_of_get hget
      refine ⟨hwf, hcount, fun other => ?_⟩
      rw [hview]
      exact h.update hdata (length_overwrite values _) other

/-- `with_slices` overwrites the slots that it hands out. -/
theorem withSlices {slots : List BufferSlot} (h : ∀ slot ∈ slots, rule.Overwrites kind slot)
    (f : List (List kind.Elem) → Option (BraidResult α × List (List kind.Elem))) :
    (JobPacket.withSlices kind slots f).Obeys rule := by
  intro p p' r hp hrun
  have hspec := JobPacket.withSlices_spec hp kind slots f
  cases hreq : JobPacket.requestViews p.view kind [] slots with
  | panicked =>
      rw [hreq] at hspec
      exact hspec.elim
  | err e =>
      rw [hreq] at hspec
      rw [hspec, Option.some.injEq, Prod.mk.injEq] at hrun
      obtain ⟨-, rfl⟩ := hrun
      exact ⟨hp, rfl, fun _ => rule.refl _ _⟩
  | ok old =>
      simp only [hreq] at hspec
      cases hfold : f old with
      | none =>
          rw [hfold] at hspec
          rw [hspec] at hrun
          simp at hrun
      | some result =>
          simp only [hfold] at hspec
          obtain ⟨p₁, hrun₁, hwf, hcount, hview⟩ := hspec
          rw [hrun₁, Option.some.injEq, Prod.mk.injEq] at hrun
          obtain ⟨-, rfl⟩ := hrun
          obtain ⟨hnd, -, hviews⟩ := JobPacket.requestViews_eq_ok.mp hreq
          refine ⟨hwf, hcount, fun slot => ?_⟩
          rw [hview]
          exact SlotRule.allows_overwriteViews h hnd hviews _ slot

end Obeys

/-- The call changes slots to buffers of the kind only. -/
abbrev Writes (kind : ElementKind) (m : PacketM α) : Prop := m.Obeys (.kind kind)

/-- The call changes allowed slots only. -/
abbrev Within (allowed : BufferSlot → Prop) (m : PacketM α) : Prop := m.Obeys (.slots allowed)

/-- The call changes neither the slots nor the lengths of the buffers. -/
abbrev KeepsLengths (m : PacketM α) : Prop := m.Obeys .lengths

/-- **What can still be read of another kind was not written.** -/
theorem Writes.slice_eq {m : PacketM α} (h : m.Writes kind) {p p' : JobPacket}
    {r : BraidResult α} (hp : p.Wf) (hrun : m.run p = some (r, p')) {other : ElementKind}
    (hne : kind ≠ other) {slot : BufferSlot} {values : List other.Elem}
    (hslice : p'.slice other slot = .ok values) : p.slice other slot = .ok values := by
  obtain ⟨hwf, -, hview⟩ := h p p' r hp hrun
  rw [JobPacket.slice_eq hwf] at hslice
  rw [JobPacket.slice_eq hp]
  rcases hview slot with hsame | ⟨written, hwritten⟩
  · rwa [hsame] at hslice
  · have hkind : BufferData.get other (.ofList kind written) = none :=
      BufferData.get_eq_none (by simpa using hne)
    rw [hwritten, JobPacket.readView, hkind] at hslice
    simp at hslice

end PacketM

end Braids
