import Braids.Lib.Interaction
import Braids.Packet.View
import Mathlib.Data.Set.Basic

/-!
# Recycled Packets

A job runs on a packet from a pool, or on the packet of an `InlineContext`, after
`clear_for_reuse` and after the static buffers of its plan were loaded. Clearing empties
the buffers of earlier jobs but leaves their slots in the packet, and that shows: a slot
that is declared with a length per query is rejected while it is empty, and `slice` answers
with an empty slice instead of `MissingBuffer`. So a job runs as on a fresh packet exactly
when no earlier job left a slot behind other than the static ones.

## Conventions

* Hooks are programs over the API of the packet (`HookProg`), for `decode_batch` over the
  part of it that a shared borrow offers (`DecodeProg`). They do not panic.
* Whether validation or a hook failed is part of the outcome of a job, the text of the
  error is not: `validate_packet` reports the first bad buffer, and the order of buffers
  depends on the history.

## Main results

* `alike_of_same`: no operation tells apart packets that stand for the same map.
* `recycling_invisible_iff`: when a recycled packet is as good as a fresh one for all hooks.
* `recycling_invisible_of_ensures`: it is for hooks that ensure a slot before they borrow it.
* `recycled_rejected`: a job that succeeds on a fresh packet and fails on the next one.
-/

namespace Braids

open Interaction

/-! ### Hooks -/

/-- The operations of a packet that hooks may use. -/
inductive PacketOp
  | queryCount
  | setQueryCount (count : ℕ)
  | clearForReuse
  | ensure (kind : ElementKind) (slot : BufferSlot) (len : ℕ)
      (edit : List kind.Elem → List kind.Elem)
  | slice (kind : ElementKind) (slot : BufferSlot)
  | sliceMut (kind : ElementKind) (slot : BufferSlot) (edit : List kind.Elem → List kind.Elem)
  | sliceMany (kind : ElementKind) (width : ℕ) (slot : BufferSlot)
  | sliceManyMut (kind : ElementKind) (width : ℕ) (slot : BufferSlot)
      (edit : List kind.Elem → List kind.Elem)
  | withSlices (kind : ElementKind) (slots : List BufferSlot)
      (edit : List (List kind.Elem) → List (List kind.Elem))

/-- What an operation answers. -/
def PacketOp.Ans : PacketOp → Type
  | .queryCount => ℕ
  | .setQueryCount _ => Unit
  | .clearForReuse => Unit
  | .ensure kind _ _ _ => BraidResult (List kind.Elem)
  | .slice kind _ => BraidResult (List kind.Elem)
  | .sliceMut kind _ _ => BraidResult (List kind.Elem)
  | .sliceMany kind _ _ => BraidResult (List (List kind.Elem))
  | .sliceManyMut kind _ _ _ => BraidResult (List (List kind.Elem))
  | .withSlices kind _ _ => BraidResult (List (List kind.Elem))

/-- The operations on a packet. -/
def packetImpl : Impl PacketOp PacketOp.Ans JobPacket
  | .queryCount, p => some (p.queryCount, p)
  | .setQueryCount count, p => some ((), { p with queryCount := count })
  | .clearForReuse, p => some ((), p.clearForReuse)
  | .ensure kind slot len edit, p =>
      (JobPacket.ensure kind slot len fun values => some (edit values)).run p
  | .slice kind slot, p => (PacketM.read (JobPacket.slice kind slot)).run p
  | .sliceMut kind slot edit, p => (JobPacket.sliceMut kind slot edit).run p
  | .sliceMany kind width slot, p => (PacketM.read (JobPacket.sliceMany kind width slot)).run p
  | .sliceManyMut kind width slot edit, p => (JobPacket.sliceManyMut kind width slot edit).run p
  | .withSlices kind slots edit, p =>
      (JobPacket.withSlices kind slots fun views => some (.ok views, edit views)).run p

/-- The operations of a packet that is borrowed shared. -/
inductive ReadOp
  | queryCount
  | slice (kind : ElementKind) (slot : BufferSlot)
  | sliceMany (kind : ElementKind) (width : ℕ) (slot : BufferSlot)

/-- As an operation of a packet that is borrowed mutably. -/
def ReadOp.op : ReadOp → PacketOp
  | .queryCount => .queryCount
  | .slice kind slot => .slice kind slot
  | .sliceMany kind width slot => .sliceMany kind width slot

/-- A hook that borrows the packet mutably. -/
abbrev HookProg (α : Type) := Prog PacketOp PacketOp.Ans (BraidResult α)

/-- A hook that borrows the packet shared. -/
abbrev DecodeProg (α : Type) := Prog ReadOp (fun op : ReadOp => op.op.Ans) (BraidResult α)

/-- Carry out a hook. -/
def runHook {α : Type} (hook : HookProg α) : PacketM α := ⟨hook.run packetImpl⟩

/-- Carry out a `decode_batch` hook. -/
def runDecode {α : Type} (hook : DecodeProg α) : PacketM α :=
  ⟨hook.run fun op : ReadOp => packetImpl op.op⟩

/-- The hooks of a planner and a backend for one plan. -/
structure JobHooks (Q R : Type) where
  /-- `encode_batch`. -/
  encode : List Q → HookProg Unit
  /-- `run_stage`. -/
  stage : ℕ → HookProg Unit
  /-- `decode_batch`. -/
  decode : DecodeProg (List R)

/-! ### Jobs -/

section Jobs

variable {M Q R : Type}

/-- `validate_runtime_packet`. -/
def validateRuntimePacket (plan : CompiledPlan M) : PacketM Unit :=
  .read fun p => .ofResult (plan.validatePacket p)

/-- The loop of `run_all_stages`, for the given stages. -/
def runStages (plan : CompiledPlan M) (hooks : JobHooks Q R) : List ℕ → PacketM Unit
  | [] => pure ()
  | i :: stages => do
      runHook (hooks.stage i)
      validateRuntimePacket plan
      runStages plan hooks stages

/-- A job on a packet with any history: `checkout_packet`, `encode_packet`, the stages and
`decode_packet`, or `execute_inline`. -/
def runJob (plan : CompiledPlan M) (hooks : JobHooks Q R) (queries : List Q) :
    PacketM (List R) := do
  .modify JobPacket.clearForReuse
  JobPacket.loadStaticBuffers plan.staticBuffers
  runHook (hooks.encode queries)
  validateRuntimePacket plan
  runStages plan hooks (List.range plan.pipeline.stages.length)
  validateRuntimePacket plan
  runDecode hooks.decode

/-- The outcome of a job: its values if it returns `Ok`, nothing inside if it returns
`Err`. -/
def jobOutcome (plan : CompiledPlan M) (hooks : JobHooks Q R) (queries : List Q)
    (p : JobPacket) : Option (Option (List R)) :=
  ((runJob plan hooks queries).run p).map fun r => r.1.toOption

end Jobs

/-- The packets that earlier jobs leave behind: any number of jobs, each for any plan and
any hooks, whatever came out. A job that was cancelled between two stages leaves what a job
leaves whose next stage fails at once. -/
inductive History : JobPacket → Prop
  | fresh : History {}
  | job {p p' : JobPacket} (h : History p) {M Q R : Type} (plan : CompiledPlan M)
      (hplan : plan.validate = .ok ()) (hooks : JobHooks Q R) (queries : List Q)
      {r : BraidResult (List R)} (hrun : (runJob plan hooks queries).run p = some (r, p')) :
      History p'
  /-- `recycle_packet`, or the clear after a failed stage of an inline job. -/
  | recycled {p : JobPacket} (h : History p) : History p.clearForReuse

/-! ### Hooks that do not read what they have not ensured -/

/-- The slots that an operation borrows. -/
def PacketOp.borrows : PacketOp → List BufferSlot
  | .slice _ slot | .sliceMut _ slot _ | .sliceMany _ _ slot | .sliceManyMut _ _ slot _ => [slot]
  | .withSlices _ slots _ => slots
  | _ => []

/-- The slots that nobody has ensured after the operation, if these are idle before it. -/
def PacketOp.leaves (idle : Set BufferSlot) : PacketOp → Set BufferSlot
  | .ensure _ slot _ _ => idle \ {slot}
  | _ => idle

/-- The operation borrows no idle slot. -/
def PacketOp.Spares (idle : Set BufferSlot) (op : PacketOp) : Prop :=
  ∀ slot ∈ op.borrows, slot ∉ idle

/-- The hook borrows an idle slot only after it has ensured it, and if it returns `Ok`, it leaves
no other slots idle than the given ones. -/
def HookProg.EnsuresFirst {α : Type} (idle left : Set BufferSlot) (hook : HookProg α) : Prop :=
  hook.Admitted PacketOp.Spares PacketOp.leaves
    (fun idle (r : BraidResult α) => ∀ a, r = .ok a → idle ⊆ left) idle

/-- The hook borrows no idle slot. -/
def DecodeProg.Spares {α : Type} (idle : Set BufferSlot) (hook : DecodeProg α) : Prop :=
  hook.Admitted (fun idle (op : ReadOp) => op.op.Spares idle) (fun idle _ => idle)
    (fun _ _ => True) idle

/-- Nothing is to be ensured. -/
theorem HookProg.ensuresFirst_empty {α : Type} (hook : HookProg α) : hook.EnsuresFirst ∅ ∅ := by
  refine Prog.admitted_of_closed (J := (· = ∅)) ?_ ?_ hook rfl
  · rintro _ op rfl
    refine ⟨fun _ _ => Set.notMem_empty _, ?_⟩
    cases op with
    | ensure kind slot len edit => exact Set.eq_empty_of_forall_notMem fun _ h => h.1
    | _ => rfl
  · rintro _ r rfl a -
    exact Set.Subset.refl _

/-- Nothing is to be ensured. -/
theorem DecodeProg.spares_empty {α : Type} (hook : DecodeProg α) : hook.Spares ∅ := by
  refine Prog.admitted_of_closed (J := (· = ∅)) ?_ (fun _ _ _ => trivial) hook rfl
  rintro _ op rfl
  exact ⟨fun _ _ => Set.notMem_empty _, rfl⟩

/-! ### Packets that stand for the same map -/

/-- Two packets that stand for the same map, up to idle slots: the first packet may have an empty
buffer there, of a kind that was left behind. -/
structure SamePacket (leftover : BufferSlot → ElementKind → Prop) (idle : Set BufferSlot)
    (p q : JobPacket) : Prop where
  left : p.Wf
  right : q.Wf
  count : p.queryCount = q.queryCount
  slots : ∀ slot, p.view slot = q.view slot ∨ slot ∈ idle ∧ q.view slot = none ∧
    ∃ kind, leftover slot kind ∧ p.view slot = some (.empty kind)

variable {leftover : BufferSlot → ElementKind → Prop} {idle left : Set BufferSlot}

/-- Two calls agree when they answer alike on packets that stand for the same map. -/
def PacketM.Agrees {α : Type} (leftover : BufferSlot → ElementKind → Prop)
    (idle left : Set BufferSlot) (m : PacketM α) : Prop :=
  ∀ p q, SamePacket leftover idle p q →
    ∃ r p' q', m.run p = some (r, p') ∧ m.run q = some (r, q') ∧ SamePacket leftover left p' q'

/-- One call after another. -/
theorem PacketM.Agrees.bind {α β : Type} {m : PacketM α} {f : α → PacketM β}
    (hm : m.Agrees leftover idle idle) (hf : ∀ a, (f a).Agrees leftover idle idle) :
    (m >>= f).Agrees leftover idle idle := by
  intro p q h
  obtain ⟨r, p₁, q₁, hp, hq, h₁⟩ := hm p q h
  cases r with
  | ok a =>
      obtain ⟨r, p', q', hp', hq', h'⟩ := hf a p₁ q₁ h₁
      exact ⟨r, p', q', by simp [hp, hp'], by simp [hq, hq'], h'⟩
  | error e => exact ⟨.error e, p₁, q₁, by simp [hp], by simp [hq], h₁⟩

namespace SamePacket

variable {p q : JobPacket}

/-- A packet stands for what it stands for. -/
theorem refl (h : p.Wf) : SamePacket leftover idle p p := ⟨h, h, rfl, fun _ => .inl rfl⟩

/-- More slots may be idle. -/
theorem mono (h : SamePacket leftover idle p q) (hsub : idle ⊆ left) :
    SamePacket leftover left p q :=
  { h with slots := fun slot => (h.slots slot).imp_right fun hidle => ⟨hsub hidle.1, hidle.2⟩ }

/-- Slots that are not idle hold the same. -/
theorem view (h : SamePacket leftover idle p q) {slot : BufferSlot} (hslot : slot ∉ idle) :
    p.view slot = q.view slot :=
  (h.slots slot).resolve_right fun hidle => hslot hidle.1

/-- What all slots hold has changed alike. -/
theorem of_view {p' q' : JobPacket} (h : SamePacket leftover idle p q) (hp : p'.Wf) (hq : q'.Wf)
    (hcount : p'.queryCount = q'.queryCount)
    (hslots : ∀ slot, p.view slot = q.view slot → p'.view slot = q'.view slot)
    (hidle : ∀ slot ∈ idle, p'.view slot = p.view slot ∧ q'.view slot = q.view slot) :
    SamePacket leftover idle p' q' := by
  refine ⟨hp, hq, hcount, fun slot => ?_⟩
  rcases h.slots slot with hsame | ⟨hin, hnone, kind, hkind, hsome⟩
  · exact .inl (hslots slot hsame)
  · obtain ⟨hleft, hright⟩ := hidle slot hin
    exact .inr ⟨hin, hright.trans hnone, kind, hkind, hleft.trans hsome⟩

/-- `ensure` finds the same elements. -/
theorem contents (h : SamePacket leftover idle p q) (kind : ElementKind) (slot : BufferSlot) :
    p.contents kind slot = q.contents kind slot := by
  rw [JobPacket.contents, JobPacket.contents]
  rcases h.slots slot with hsame | ⟨-, hnone, kind', -, hsome⟩
  · rw [hsame]
  · rw [hnone, hsome]
    cases kind <;> cases kind' <;> rfl

/-- `ensure` does not tell them apart. -/
theorem ensure (kind : ElementKind) (slot : BufferSlot) (len : ℕ)
    (edit : List kind.Elem → List kind.Elem) :
    (JobPacket.ensure kind slot len fun values => some (edit values)).Agrees leftover idle
      (idle \ {slot}) := by
  intro p q h
  obtain ⟨p', hp, hpwf, hpcount, hpview⟩ := JobPacket.ensure_spec h.left kind slot len
    (fun values => some (edit values)) rfl
  obtain ⟨q', hq, hqwf, hqcount, hqview⟩ := JobPacket.ensure_spec h.right kind slot len
    (fun values => some (edit values)) rfl
  rw [← h.contents] at hq hqview
  refine ⟨_, p', q', hp, hq, hpwf, hqwf, ?_, fun other => ?_⟩
  · rw [hpcount, hqcount, h.count]
  · by_cases hslot : other = slot
    · rw [hpview, hqview, hslot, Function.update_self, Function.update_self]
      exact .inl rfl
    · rw [hpview, hqview, Function.update_of_ne hslot, Function.update_of_ne hslot]
      exact (h.slots other).imp_right fun hidle => ⟨⟨hidle.1, hslot⟩, hidle.2⟩

/-- Reading does not tell them apart. -/
theorem read {α : Type} {f : JobPacket → HookResult α}
    (hf : ∀ p q, SamePacket leftover idle p q → f p = f q ∧ f p ≠ .panicked) :
    (PacketM.read f).Agrees leftover idle idle := by
  intro p q h
  obtain ⟨heq, hne⟩ := hf p q h
  cases hfp : f p with
  | ok a => exact ⟨.ok a, p, q, by simp [hfp, HookResult.result?],
      by simp [← heq, hfp, HookResult.result?], h⟩
  | err e => exact ⟨.error e, p, q, by simp [hfp, HookResult.result?],
      by simp [← heq, hfp, HookResult.result?], h⟩
  | panicked => exact absurd hfp hne

/-- `slice` answers alike and does not panic. -/
theorem slice (h : SamePacket leftover idle p q) (kind : ElementKind) {slot : BufferSlot}
    (hslot : slot ∉ idle) :
    p.slice kind slot = q.slice kind slot ∧ p.slice kind slot ≠ .panicked := by
  rw [JobPacket.slice_eq h.left, JobPacket.slice_eq h.right, h.view hslot]
  refine ⟨rfl, ?_⟩
  unfold JobPacket.readView
  split
  · simp
  · split <;> simp

/-- `slice_many` answers alike and does not panic. -/
theorem sliceMany (h : SamePacket leftover idle p q) (kind : ElementKind) (width : ℕ)
    {slot : BufferSlot} (hslot : slot ∉ idle) :
    p.sliceMany kind width slot = q.sliceMany kind width slot ∧
      p.sliceMany kind width slot ≠ .panicked := by
  obtain ⟨heq, hne⟩ := h.slice kind hslot
  simp only [JobPacket.sliceMany]
  rw [← heq]
  refine ⟨rfl, ?_⟩
  split
  · simp
  · cases hs : p.slice kind slot with
    | ok values => cases hg : JobPacket.groups slot width values <;> simp [HookResult.ofResult, hg]
    | err e => simp
    | panicked => exact absurd hs hne

/-- `slice_mut` does not tell them apart. -/
theorem sliceMut (kind : ElementKind) {slot : BufferSlot} (hslot : slot ∉ idle)
    (edit : List kind.Elem → List kind.Elem) :
    (JobPacket.sliceMut kind slot edit).Agrees leftover idle idle := by
  intro p q h
  have hp := JobPacket.sliceMut_spec h.left kind slot edit
  have hq := JobPacket.sliceMut_spec h.right kind slot edit
  rw [← h.view hslot] at hq
  cases hread : JobPacket.readView kind slot (p.view slot) with
  | ok values =>
      rw [hread] at hp hq
      obtain ⟨p', hp, hpwf, hpcount, hpview⟩ := hp
      obtain ⟨q', hq, hqwf, hqcount, hqview⟩ := hq
      refine ⟨_, p', q', hp, hq, h.of_view hpwf hqwf ?_ (fun other hsame => ?_) fun other hin => ?_⟩
      · rw [hpcount, hqcount, h.count]
      · rw [hpview, hqview]
        by_cases hother : other = slot
        · rw [hother, Function.update_self, Function.update_self]
        · rw [Function.update_of_ne hother, Function.update_of_ne hother, hsame]
      · have hother : other ≠ slot := fun heq => hslot (heq ▸ hin)
        rw [hpview, hqview, Function.update_of_ne hother, Function.update_of_ne hother]
        exact ⟨rfl, rfl⟩
  | err e =>
      rw [hread] at hp hq
      exact ⟨_, p, q, hp, hq, h⟩
  | panicked =>
      rw [hread] at hp
      exact hp.elim

/-- Marking the packets dirty does not tell them apart. -/
theorem markDirty :
    (PacketM.modify fun p => { p with isDirty := true }).Agrees leftover idle idle :=
  fun p q h => ⟨_, _, _, rfl, rfl, ⟨h.left.index, fun hd => by simp at hd⟩,
    ⟨h.right.index, fun hd => by simp at hd⟩, h.count, h.slots⟩

/-- `slice_many_mut` does not tell them apart. -/
theorem sliceManyMut (kind : ElementKind) (width : ℕ) {slot : BufferSlot} (hslot : slot ∉ idle)
    (edit : List kind.Elem → List kind.Elem) :
    (JobPacket.sliceManyMut kind width slot edit).Agrees leftover idle idle := by
  rw [JobPacket.sliceManyMut]
  split
  · exact read fun _ _ _ => ⟨rfl, by simp⟩
  · refine markDirty.bind fun _ => (sliceMut kind hslot _).bind fun values => ?_
    refine read fun _ _ _ => ⟨rfl, ?_⟩
    cases JobPacket.groups slot width values <;> simp [HookResult.ofResult]

/-- `with_slices` does not tell them apart. -/
theorem withSlices (kind : ElementKind) {slots : List BufferSlot}
    (hslots : ∀ slot ∈ slots, slot ∉ idle)
    (edit : List (List kind.Elem) → List (List kind.Elem)) :
    (JobPacket.withSlices kind slots fun views => some (.ok views, edit views)).Agrees leftover
      idle idle := by
  intro p q h
  have hp := JobPacket.withSlices_spec h.left kind slots fun views => some (.ok views, edit views)
  have hq := JobPacket.withSlices_spec h.right kind slots fun views => some (.ok views, edit views)
  rw [← JobPacket.requestViews_congr fun slot hslot => h.view (hslots slot hslot)] at hq
  cases hreq : JobPacket.requestViews p.view kind [] slots with
  | ok old =>
      rw [hreq] at hp hq
      obtain ⟨p', hp, hpwf, hpcount, hpview⟩ := hp
      obtain ⟨q', hq, hqwf, hqcount, hqview⟩ := hq
      refine ⟨_, p', q', hp, hq, h.of_view hpwf hqwf ?_ (fun slot hsame => ?_) fun slot hin => ?_⟩
      · rw [hpcount, hqcount, h.count]
      · rw [hpview, hqview]
        exact JobPacket.overwriteViews_congr hsame
      · have hslot : slot ∉ slots := fun hmem => hslots slot hmem hin
        rw [hpview, hqview, JobPacket.overwriteViews_of_notMem hslot,
          JobPacket.overwriteViews_of_notMem hslot]
        exact ⟨rfl, rfl⟩
  | err e =>
      rw [hreq] at hp hq
      exact ⟨_, p, q, hp, hq, h⟩
  | panicked =>
      rw [hreq] at hp
      exact hp.elim

/-- `clear_for_reuse` does not tell them apart. -/
theorem clearForReuse (h : SamePacket leftover idle p q) :
    SamePacket leftover idle p.clearForReuse q.clearForReuse := by
  obtain ⟨hp, hpcount, hpview⟩ := JobPacket.clearForReuse_spec h.left
  obtain ⟨hq, hqcount, hqview⟩ := JobPacket.clearForReuse_spec h.right
  refine ⟨hp, hq, hpcount.trans hqcount.symm, fun slot => ?_⟩
  rw [hpview, hqview]
  rcases h.slots slot with hsame | ⟨hin, hnone, kind, hkind, hsome⟩
  · exact .inl (congrArg _ hsame)
  · refine .inr ⟨hin, by rw [hnone]; rfl, kind, hkind, ?_⟩
    rw [hsome, Option.map_some, BufferData.clear_of_len (BufferData.len_empty kind)]

end SamePacket

/-- **No operation tells apart packets that stand for the same map**, if it borrows no idle
slot. -/
theorem alike_of_same :
    AlikeAt PacketOp.Spares PacketOp.leaves (SamePacket leftover) packetImpl packetImpl := by
  intro idle op p q hspares h
  have hone : ∀ {slot}, op.borrows = [slot] → slot ∉ idle := fun heq =>
    hspares _ (heq ▸ List.mem_singleton_self _)
  cases op with
  | queryCount => exact ⟨p.queryCount, p, q, rfl, by simp [packetImpl, h.count], h⟩
  | setQueryCount count =>
      refine ⟨(), _, _, rfl, rfl, ⟨⟨h.left.index, h.left.clean⟩, ⟨h.right.index, h.right.clean⟩,
        rfl, h.slots⟩⟩
  | clearForReuse => exact ⟨(), _, _, rfl, rfl, h.clearForReuse⟩
  | ensure kind slot len edit => exact SamePacket.ensure kind slot len edit p q h
  | slice kind slot => exact SamePacket.read (fun _ _ h => h.slice kind (hone rfl)) p q h
  | sliceMut kind slot edit => exact SamePacket.sliceMut kind (hone rfl) edit p q h
  | sliceMany kind width slot =>
      exact SamePacket.read (fun _ _ h => h.sliceMany kind width (hone rfl)) p q h
  | sliceManyMut kind width slot edit =>
      exact SamePacket.sliceManyMut kind width (hone rfl) edit p q h
  | withSlices kind slots edit => exact SamePacket.withSlices kind hspares edit p q h

/-! ### Jobs on packets that stand for the same map -/

/-- The outcome of a call is the same on packets that stand for the same map, and they still do
after `Ok`. -/
def PacketM.SameOutcome {α : Type} (leftover : BufferSlot → ElementKind → Prop)
    (idle left : Set BufferSlot) (m : PacketM α) : Prop :=
  ∀ p q, SamePacket leftover idle p q →
    ∃ r r' p' q', m.run p = some (r, p') ∧ m.run q = some (r', q') ∧ r.toOption = r'.toOption ∧
      p'.Wf ∧ ∀ a, r = .ok a → SamePacket leftover left p' q'

/-- One call after another has the same outcome. -/
theorem PacketM.SameOutcome.bind {α β : Type} {m : PacketM α} {f : α → PacketM β}
    {left' : Set BufferSlot} (hm : m.SameOutcome leftover idle left)
    (hf : ∀ a, (f a).SameOutcome leftover left left') :
    (m >>= f).SameOutcome leftover idle left' := by
  intro p q h
  obtain ⟨r, r', p₁, q₁, hp, hq, heq, hwf, h₁⟩ := hm p q h
  cases r with
  | ok a =>
      obtain rfl : r' = .ok a := by
        cases r' <;> simp_all [Except.toOption]
      obtain ⟨r, r', p', q', hp', hq', h'⟩ := hf a p₁ q₁ (h₁ a rfl)
      exact ⟨r, r', p', q', by simp [hp, hp'], by simp [hq, hq'], h'⟩
  | error e =>
      obtain ⟨e', rfl⟩ : ∃ e', r' = .error e' := by
        cases r' <;> simp_all [Except.toOption]
      refine ⟨.error e, .error e', p₁, q₁, by simp [hp], by simp [hq], rfl, hwf, ?_⟩
      rintro a ⟨⟩

section Jobs

variable {M Q R : Type} {plan : CompiledPlan M} {hooks : JobHooks Q R}

/-- A hook does not tell the packets apart if it ensures first. -/
theorem runHook_sameOutcome {α : Type} {hook : HookProg α} (h : hook.EnsuresFirst idle left) :
    (runHook hook).SameOutcome leftover idle left := by
  intro p q hpq
  obtain ⟨r, p', q', idle', hp, hq, h', hend⟩ := Prog.run_sim_admitted alike_of_same h hpq
  exact ⟨r, r, p', q', hp, hq, rfl, h'.left, fun a ha => h'.mono (hend a ha)⟩

/-- A `decode_batch` hook does not tell the packets apart if it borrows no idle slot. -/
theorem runDecode_sameOutcome {α : Type} {hook : DecodeProg α} (h : hook.Spares idle) :
    (runDecode hook).SameOutcome leftover idle Set.univ := by
  intro p q hpq
  have halike : AlikeAt (fun idle (op : ReadOp) => op.op.Spares idle) (fun idle _ => idle)
      (SamePacket leftover) (fun op : ReadOp => packetImpl op.op) fun op => packetImpl op.op := by
    intro idle op p q hop hpq
    have hop' := alike_of_same idle op.op p q hop hpq
    cases op <;> exact hop'
  obtain ⟨r, p', q', idle', hp, hq, h', -⟩ := Prog.run_sim_admitted halike h hpq
  exact ⟨r, r, p', q', hp, hq, rfl, h'.left, fun _ _ => h'.mono (Set.subset_univ _)⟩

/-- Whatever was left behind in the slot passes validation while it is empty. -/
def CompiledPlan.PassesEmpty (plan : CompiledPlan M) (leftover : BufferSlot → ElementKind → Prop)
    (slot : BufferSlot) : Prop :=
  ∀ kind, leftover slot kind → ∀ queryCount,
    validateDescriptor plan.pipeline.buffers queryCount (slot, kind, 0) = .ok ()

/-- Slots that the plan does not declare pass. -/
theorem CompiledPlan.passesEmpty_of_undeclared {slot : BufferSlot}
    (h : specOf plan.pipeline.buffers slot = none) : plan.PassesEmpty leftover slot := by
  intro kind _ queryCount
  simp [validateDescriptor, h]

/-- Validation accepts both packets or neither. -/
theorem validateRuntimePacket_sameOutcome
    (hpass : ∀ slot ∈ idle, plan.PassesEmpty leftover slot) :
    (validateRuntimePacket plan).SameOutcome leftover idle idle := by
  intro p q h
  have hiff : plan.validatePacket p = .ok () ↔ plan.validatePacket q = .ok () := by
    rw [JobPacket.validatePacket_iff h.left, JobPacket.validatePacket_iff h.right, h.count]
    constructor
    · intro hall slot data hv
      rcases h.slots slot with hsame | ⟨-, hnone, -⟩
      · exact hall slot data (hsame.trans hv)
      · rw [hnone] at hv
        cases hv
    · intro hall slot data hv
      rcases h.slots slot with hsame | ⟨hin, -, kind, hkind, hsome⟩
      · exact hall slot data (hsame.symm.trans hv)
      · obtain rfl := Option.some.inj (hsome.symm.trans hv)
        rw [BufferData.kind_empty, BufferData.len_empty]
        exact hpass slot hin kind hkind q.queryCount
  refine ⟨plan.validatePacket p, plan.validatePacket q, p, q, ?_, ?_, ?_, h.left, fun _ _ => h⟩
  · cases hp : plan.validatePacket p <;>
      simp [validateRuntimePacket, hp, HookResult.ofResult, HookResult.result?]
  · cases hq : plan.validatePacket q <;>
      simp [validateRuntimePacket, hq, HookResult.ofResult, HookResult.result?]
  · cases hp : plan.validatePacket p with
    | ok u => rw [hiff.mp hp]
    | error e =>
        cases hq : plan.validatePacket q with
        | ok u => simp [hiff.mpr hq] at hp
        | error e' => rfl

/-- The hooks of a job ensure first: `encode_batch` may find the first slots idle, stage `i` those
of `idle i`. -/
structure JobHooks.EnsuresFirst (hooks : JobHooks Q R) (plan : CompiledPlan M) (queries : List Q)
    (first : Set BufferSlot) (idle : ℕ → Set BufferSlot) : Prop where
  encode : (hooks.encode queries).EnsuresFirst first (idle 0)
  stage : ∀ i, (hooks.stage i).EnsuresFirst (idle i) (idle (i + 1))
  decode : hooks.decode.Spares (idle plan.pipeline.stages.length)

/-- Nothing is to be ensured. -/
theorem JobHooks.ensuresFirst_empty (hooks : JobHooks Q R) (plan : CompiledPlan M)
    (queries : List Q) : hooks.EnsuresFirst plan queries ∅ fun _ => ∅ :=
  ⟨HookProg.ensuresFirst_empty _, fun _ => HookProg.ensuresFirst_empty _,
    DecodeProg.spares_empty _⟩

section Ensures

variable {queries : List Q} {first : Set BufferSlot} {idle : ℕ → Set BufferSlot}

/-- The stages have the same outcome. -/
theorem runStages_sameOutcome (hstage : ∀ i, (hooks.stage i).EnsuresFirst (idle i) (idle (i + 1)))
    (hpass : ∀ i, ∀ slot ∈ idle i, plan.PassesEmpty leftover slot) (i n : ℕ) :
    (runStages plan hooks (List.range' i n)).SameOutcome leftover (idle i) (idle (i + n)) := by
  induction n generalizing i with
  | zero => exact fun p q h => ⟨.ok (), .ok (), p, q, rfl, rfl, rfl, h.left, fun _ _ => h⟩
  | succ n ih =>
      refine (runHook_sameOutcome (hstage i)).bind fun _ => ?_
      refine (validateRuntimePacket_sameOutcome (hpass (i + 1))).bind fun _ => ?_
      rw [Nat.add_comm n 1, ← Nat.add_assoc]
      exact ih (i + 1)

/-- What a job does after its packet was checked out. -/
def runCheckedOut (plan : CompiledPlan M) (hooks : JobHooks Q R) (queries : List Q) :
    PacketM (List R) := do
  runHook (hooks.encode queries)
  validateRuntimePacket plan
  runStages plan hooks (List.range plan.pipeline.stages.length)
  validateRuntimePacket plan
  runDecode hooks.decode

/-- **From packets that stand for the same map, jobs have the same outcome.** -/
theorem runCheckedOut_sameOutcome (h : hooks.EnsuresFirst plan queries first idle)
    (hpass : ∀ i, ∀ slot ∈ idle i, plan.PassesEmpty leftover slot) :
    (runCheckedOut plan hooks queries).SameOutcome leftover first Set.univ := by
  refine (runHook_sameOutcome h.encode).bind fun _ => ?_
  refine (validateRuntimePacket_sameOutcome (hpass 0)).bind fun _ => ?_
  have hstages := runStages_sameOutcome h.stage hpass 0 plan.pipeline.stages.length
  rw [Nat.zero_add, ← List.range_eq_range'] at hstages
  refine hstages.bind fun _ => (validateRuntimePacket_sameOutcome (hpass _)).bind fun _ => ?_
  exact runDecode_sameOutcome h.decode

end Ensures

/-- What a job finds in its packet: the static data of its plan, and the slots that
earlier jobs left behind, empty. -/
structure CheckedOut (plan : CompiledPlan M) (p p' : JobPacket) : Prop where
  wf : p'.Wf
  count : p'.queryCount = 0
  static : ∀ b ∈ plan.staticBuffers, p'.view b.slot = some b.data
  other : ∀ slot ∉ plan.staticBuffers.map (·.slot),
    p'.view slot = (p.view slot).map BufferData.clear

/-- Checking out a packet for a valid plan. -/
theorem runJob_checkedOut {p : JobPacket} (hp : p.Wf) (hplan : plan.validate = .ok ())
    (hooks : JobHooks Q R) (queries : List Q) :
    ∃ p', CheckedOut plan p p' ∧
      (runJob plan hooks queries).run p = (runCheckedOut plan hooks queries).run p' := by
  obtain ⟨hwf, hcount, hview⟩ := JobPacket.clearForReuse_spec hp
  obtain ⟨p', hrun, hwf', hcount', hstatic, hother⟩ :=
    JobPacket.loadStaticBuffers_spec hwf (CompiledPlan.validate_statics hplan).1
  refine ⟨p', ⟨hwf', hcount'.trans hcount, hstatic, fun slot hslot => ?_⟩, ?_⟩
  · rw [hother slot hslot, hview]
  · simp [runJob, runCheckedOut, hrun]

/-- Every job leaves a well-formed packet. -/
theorem runJob_wf {p p' : JobPacket} (hp : p.Wf) (hplan : plan.validate = .ok ())
    {queries : List Q} {r : BraidResult (List R)}
    (hrun : (runJob plan hooks queries).run p = some (r, p')) : p'.Wf := by
  obtain ⟨p₁, hout, heq⟩ := runJob_checkedOut hp hplan hooks queries
  have hsame : (runCheckedOut plan hooks queries).SameOutcome (fun _ _ => True) ∅ Set.univ :=
    runCheckedOut_sameOutcome (hooks.ensuresFirst_empty plan queries) fun _ _ hslot => hslot.elim
  obtain ⟨r₁, r₂, q, q', h₁, -, -, hwf, -⟩ := hsame p₁ p₁ (.refl hout.wf)
  rw [heq, h₁] at hrun
  simp only [Option.some.injEq, Prod.mk.injEq] at hrun
  obtain ⟨-, rfl⟩ := hrun
  exact hwf

/-- The packets that earlier jobs leave behind are well formed. -/
theorem History.wf {p : JobPacket} (h : History p) : p.Wf := by
  induction h with
  | fresh => exact JobPacket.wf_default
  | job _ plan hplan hooks queries hrun ih => exact runJob_wf ih hplan hrun
  | recycled _ ih => exact (JobPacket.clearForReuse_spec ih).1

end Jobs

/-! ### When recycling is invisible -/

/-- Earlier jobs left no slot behind other than the static ones of the plan. -/
def StaticOnly {M : Type} (plan : CompiledPlan M) (p : JobPacket) : Prop :=
  ∀ b ∈ p.buffers, b.slot ∈ plan.staticBuffers.map (·.slot)

/-- The kinds of the buffers that earlier jobs left behind. -/
def Leftover (p : JobPacket) (slot : BufferSlot) (kind : ElementKind) : Prop :=
  ∃ data, p.view slot = some data ∧ data.kind = kind

/-- The slots that a job does not find loaded. -/
def CompiledPlan.unloaded {M : Type} (plan : CompiledPlan M) : Set BufferSlot :=
  {slot | slot ∉ plan.staticBuffers.map (·.slot)}

section Invisible

variable {M Q R : Type} {plan : CompiledPlan M} {p p' q' : JobPacket}

/-- A packet is checked out as a fresh one is, up to what was left behind. -/
theorem CheckedOut.same (hp' : CheckedOut plan p p') (hq' : CheckedOut plan {} q') :
    SamePacket (Leftover p) plan.unloaded p' q' := by
  refine ⟨hp'.wf, hq'.wf, hp'.count.trans hq'.count.symm, fun slot => ?_⟩
  by_cases hslot : slot ∈ plan.staticBuffers.map (·.slot)
  · obtain ⟨b, hb, rfl⟩ := List.mem_map.mp hslot
    exact .inl ((hp'.static b hb).trans (hq'.static b hb).symm)
  · have hnone : q'.view slot = none := by
      rw [hq'.other slot hslot, JobPacket.view_default]
      rfl
    rw [hp'.other slot hslot]
    cases hview : p.view slot with
    | none => exact .inl hnone.symm
    | some data =>
        exact .inr ⟨hslot, hnone, data.kind, ⟨data, hview, rfl⟩, congrArg some data.clear_eq⟩

/-- A packet with static slots only is checked out as a fresh one is. -/
theorem SamePacket.of_staticOnly {idle : Set BufferSlot} (hp : p.Wf) (hstatic : StaticOnly plan p)
    (h : SamePacket (Leftover p) plan.unloaded p' q') : SamePacket (Leftover p) idle p' q' := by
  refine { h with slots := fun slot => .inl ((h.slots slot).resolve_right ?_) }
  rintro ⟨hslot, -, _, ⟨data, hview, -⟩, -⟩
  exact hslot (hstatic _ (hp.view_eq_some.mp hview))

/-- The outcome of a job on two packets that are checked out alike. -/
theorem jobOutcome_eq (hplan : plan.validate = .ok ()) (hp : p.Wf) {hooks : JobHooks Q R}
    {queries : List Q} {first : Set BufferSlot} {idle : ℕ → Set BufferSlot}
    (hsame : ∀ p' q', SamePacket (Leftover p) plan.unloaded p' q' →
      SamePacket (Leftover p) first p' q')
    (h : hooks.EnsuresFirst plan queries first idle)
    (hpass : ∀ i, ∀ slot ∈ idle i, plan.PassesEmpty (Leftover p) slot) :
    jobOutcome plan hooks queries p = jobOutcome plan hooks queries {} := by
  obtain ⟨p', hout, hrun⟩ := runJob_checkedOut hp hplan hooks queries
  obtain ⟨q', hout', hrun'⟩ := runJob_checkedOut JobPacket.wf_default hplan hooks queries
  obtain ⟨r, r', p₁, q₁, hp₁, hq₁, heq, -⟩ := runCheckedOut_sameOutcome h hpass p' q'
    (hsame p' q' (hout.same hout'))
  rw [jobOutcome, jobOutcome, hrun, hrun', hp₁, hq₁, Option.map_some, Option.map_some, heq]

/-- **Recycling is invisible to hooks that ensure a slot before they borrow it**, whatever earlier
jobs left behind, if the slots that are not ensured by the end of `encode_batch` pass validation
while they are empty. -/
theorem recycling_invisible_of_ensures (hplan : plan.validate = .ok ()) (hp : History p)
    {hooks : JobHooks Q R} {queries : List Q} {idle : ℕ → Set BufferSlot}
    (h : hooks.EnsuresFirst plan queries plan.unloaded idle)
    (hpass : ∀ i, ∀ slot ∈ idle i, plan.PassesEmpty (Leftover p) slot) :
    jobOutcome plan hooks queries p = jobOutcome plan hooks queries {} :=
  jobOutcome_eq hplan hp.wf (fun _ _ hsame => hsame) h hpass

end Invisible

/-- A hook that empties the static slots and then goes on. -/
def emptyStatics : List StaticBuffer → HookProg Unit → HookProg Unit
  | [], next => next
  | b :: rest, next => .call (.ensure b.data.kind b.slot 0 id) fun _ => emptyStatics rest next

/-- A hook that fails if a slot is there. -/
def probeSlot (slot : BufferSlot) : HookProg Unit :=
  .call (.slice .u32 slot) fun answer : BraidResult (List UInt32) =>
    match answer with
    | .error (.missingBuffer _) => .done (.ok ())
    | _ => .done (.error (.message "leftover slot"))

/-- Hooks that fail exactly if a slot is there. -/
def probeHooks (statics : List StaticBuffer) (slot : BufferSlot) : JobHooks Unit Unit where
  encode _ := .call (.setQueryCount 0) fun _ => emptyStatics statics (probeSlot slot)
  stage _ := .done (.ok ())
  decode := .done (.ok [])

/-- Emptying the static slots. -/
theorem emptyStatics_run {p : JobPacket} (h : p.Wf) {statics : List StaticBuffer}
    (hnd : (statics.map (·.slot)).Nodup) (next : HookProg Unit) :
    ∃ p', (emptyStatics statics next).run packetImpl p = next.run packetImpl p' ∧ p'.Wf ∧
      p'.queryCount = p.queryCount ∧
      (∀ b ∈ statics, p'.view b.slot = some (.empty b.data.kind)) ∧
      ∀ slot ∉ statics.map (·.slot), p'.view slot = p.view slot := by
  induction statics generalizing p with
  | nil => exact ⟨p, rfl, h, rfl, by simp, by simp⟩
  | cons b rest ih =>
      rw [List.map_cons, List.nodup_cons] at hnd
      obtain ⟨hnew, hnd⟩ := hnd
      obtain ⟨p₁, hrun₁, hwf₁, hcount₁, hview₁⟩ := JobPacket.ensure_spec h b.data.kind b.slot 0
        (fun values => some (id values)) rfl
      obtain ⟨p', hrun, hwf, hcount, hstatic, hother⟩ := ih hwf₁ hnd
      have hnil : resize b.data.kind 0 (p.contents b.data.kind b.slot) = [] :=
        List.length_eq_zero_iff.mp (length_resize _ _ _)
      rw [id, hnil] at hview₁
      refine ⟨p', ?_, hwf, hcount.trans hcount₁, ?_, ?_⟩
      · simp only [emptyStatics, Prog.run, packetImpl, hrun₁]
        exact hrun
      · intro b' hb'
        rcases List.mem_cons.mp hb' with rfl | hb'
        · rw [hother _ hnew, hview₁, Function.update_self]
          rfl
        · exact hstatic b' hb'
      · intro slot hslot
        rw [List.map_cons, List.mem_cons, not_or] at hslot
        rw [hother slot hslot.2, hview₁, Function.update_of_ne hslot.1]

/-- What the probe finds in a packet that was checked out. -/
theorem probeHooks_encode {M : Type} {plan : CompiledPlan M} (hplan : plan.validate = .ok ())
    {p p' : JobPacket} (hout : CheckedOut plan p p') (slot : BufferSlot) :
    ∃ p₁, (runHook ((probeHooks plan.staticBuffers slot).encode [])).run p' =
        (probeSlot slot).run packetImpl p₁ ∧ p₁.Wf ∧ p₁.queryCount = 0 ∧
      (∀ b ∈ plan.staticBuffers, p₁.view b.slot = some (.empty b.data.kind)) ∧
      ∀ slot ∉ plan.staticBuffers.map (·.slot),
        p₁.view slot = (p.view slot).map BufferData.clear := by
  have hwf : JobPacket.Wf { p' with queryCount := 0 } := ⟨hout.wf.index, hout.wf.clean⟩
  obtain ⟨p₁, hrun, hwf₁, hcount, hstatic, hother⟩ := emptyStatics_run hwf
    (CompiledPlan.validate_statics hplan).1 (probeSlot slot)
  refine ⟨p₁, hrun, hwf₁, hcount, hstatic, fun slot hslot => ?_⟩
  rw [hother slot hslot]
  exact hout.other slot hslot

/-- A packet whose only slots are the static ones of a valid plan, all empty, is valid for
no queries. -/
theorem validatePacket_empty {M : Type} {plan : CompiledPlan M}
    (hplan : plan.validate = .ok ()) {p : JobPacket} (h : p.Wf) (hcount : p.queryCount = 0)
    (hstatic : ∀ b ∈ plan.staticBuffers, p.view b.slot = some (.empty b.data.kind))
    (hother : ∀ slot ∉ plan.staticBuffers.map (·.slot), p.view slot = none) :
    plan.validatePacket p = .ok () := by
  refine (JobPacket.validatePacket_iff h).mpr fun slot data hv => ?_
  by_cases hslot : slot ∈ plan.staticBuffers.map (·.slot)
  · obtain ⟨b, hb, rfl⟩ := List.mem_map.mp hslot
    obtain ⟨spec, hspec, hkind⟩ := (CompiledPlan.validate_statics hplan).2 b hb
    obtain rfl := Option.some.inj ((hstatic b hb).symm.trans hv)
    simp only [validateDescriptor, hspec, BufferData.kind_empty, BufferData.len_empty, hcount,
      hkind, ne_eq, not_true_eq_false, if_false, BufferSpec.validateLen]
    cases spec.layout <;> simp [checkedMul, usizeLimit]
  · simp [hother slot hslot] at hv

/-- Validation of a valid packet. -/
theorem validateRuntimePacket_run {M : Type} {plan : CompiledPlan M} {p : JobPacket}
    (hvalid : plan.validatePacket p = .ok ()) :
    (validateRuntimePacket plan).run p = some (.ok (), p) := by
  simp [validateRuntimePacket, hvalid, HookResult.ofResult, HookResult.result?]

/-- The stages of the probe do nothing. -/
theorem probeHooks_stages {M : Type} {plan : CompiledPlan M} {p : JobPacket}
    (hvalid : plan.validatePacket p = .ok ()) (statics : List StaticBuffer)
    (slot : BufferSlot) (stages : List ℕ) :
    (runStages plan (probeHooks statics slot) stages).run p = some (.ok (), p) := by
  induction stages with
  | nil => rfl
  | cons i stages ih =>
      have hstage : (runHook ((probeHooks statics slot).stage i)).run p = some (.ok (), p) := rfl
      simp only [runStages, PacketM.run_bind, hstage, Option.bind_some,
        validateRuntimePacket_run hvalid, ih]

/-- **Recycling is invisible exactly when only static slots were left behind**: for a valid
plan and a packet of any history, every job on the packet, for any hooks and any queries,
has the outcome that it has on a fresh packet if and only if earlier jobs left no slot in
the packet other than the static ones of the plan. -/
theorem recycling_invisible_iff {M : Type} {plan : CompiledPlan M}
    (hplan : plan.validate = .ok ()) {p : JobPacket} (hp : History p) :
    (∀ (Q R : Type) (hooks : JobHooks Q R) (queries : List Q),
      jobOutcome plan hooks queries p = jobOutcome plan hooks queries {}) ↔
      StaticOnly plan p := by
  constructor
  · intro hall b hb
    by_contra hslot
    have hsame := hall Unit Unit (probeHooks plan.staticBuffers b.slot) []
    obtain ⟨p', hout, hrun⟩ :=
      runJob_checkedOut hp.wf hplan (probeHooks plan.staticBuffers b.slot) []
    obtain ⟨q', hout', hrun'⟩ :=
      runJob_checkedOut JobPacket.wf_default hplan (probeHooks plan.staticBuffers b.slot) []
    rw [jobOutcome, jobOutcome, hrun, hrun'] at hsame
    -- on the recycled packet the probe finds the slot and fails
    obtain ⟨p₁, henc, hwf₁, -, -, hother₁⟩ := probeHooks_encode hplan hout b.slot
    have hview : p₁.view b.slot = some b.data.clear := by
      rw [hother₁ _ hslot, hp.wf.view_eq_some.mpr hb, Option.map_some]
    have hfail : ∃ e, (probeSlot b.slot).run packetImpl p₁ = some (.error e, p₁) := by
      simp only [probeSlot, Prog.run, packetImpl, PacketM.run_read, JobPacket.slice_eq hwf₁,
        hview, JobPacket.readView]
      cases BufferData.get .u32 b.data.clear <;> exact ⟨_, rfl⟩
    obtain ⟨e, hfail⟩ := hfail
    -- on the fresh packet it does not, and the job succeeds
    obtain ⟨q₁, henc', hwf₁', hcount₁', hstatic₁', hother₁'⟩ :=
      probeHooks_encode hplan hout' b.slot
    have hpass : (probeSlot b.slot).run packetImpl q₁ = some (.ok (), q₁) := by
      have hnone : q₁.view b.slot = none := by rw [hother₁' _ hslot]; rfl
      simp only [probeSlot, Prog.run, packetImpl, PacketM.run_read, JobPacket.slice_eq hwf₁',
        hnone, JobPacket.readView]
      rfl
    have hvalid := validatePacket_empty hplan hwf₁' hcount₁' hstatic₁' fun slot hs => by
      rw [hother₁' slot hs]
      rfl
    have hstages := probeHooks_stages hvalid plan.staticBuffers b.slot
    have hleft : (runCheckedOut plan (probeHooks plan.staticBuffers b.slot) []).run p' =
        some (.error e, p₁) := by
      rw [runCheckedOut, PacketM.run_bind, henc, hfail]
      rfl
    have hright : (runCheckedOut plan (probeHooks plan.staticBuffers b.slot) []).run q' =
        some (.ok [], q₁) := by
      simp only [runCheckedOut, PacketM.run_bind, henc', hpass, Option.bind_some,
        validateRuntimePacket_run hvalid, hstages]
      rfl
    rw [hleft, hright] at hsame
    simp [Except.toOption] at hsame
  · intro hstatic Q R hooks queries
    exact jobOutcome_eq hplan hp.wf (fun _ _ => .of_staticOnly hp.wf hstatic)
      (hooks.ensuresFirst_empty plan queries) fun _ _ hslot => hslot.elim

/-! ### A rejected job -/

/-- A plan with one slot, a scalar per query that its only kernel creates. -/
def scalarPlan : CompiledPlan Unit where
  pipeline := {
    buffers := [⟨⟨5⟩, .f32, .perQueryScalar⟩]
    stages := [⟨[⟨⟨1⟩, [], [⟨⟨5⟩, .write⟩], .wholeBatch⟩]⟩] }
  staticBuffers := []
  plannerMeta := ()

/-- Hooks that create the slot in the kernel and decode its values. -/
def scalarHooks : JobHooks Unit F32 where
  encode queries := .call (.setQueryCount queries.length) fun _ => .done (.ok ())
  stage _ := .call .queryCount fun count : ℕ =>
    .call (.ensure .f32 ⟨5⟩ count id) fun _ => .done (.ok ())
  decode := .call (.slice .f32 ⟨5⟩) .done

/-- One such job on a fresh packet: its result and the packet after it. -/
def scalarRun : BraidResult (List F32) × JobPacket :=
  ((runJob scalarPlan scalarHooks [()]).run {}).getD (.error .cancelled, {})

/-- **Recycling shows**: a job that succeeds on a fresh packet fails on the packet of an
earlier job that was the same, since validation rejects the empty slot left behind. -/
theorem recycled_rejected :
    scalarPlan.validate = .ok () ∧ History scalarRun.2.clearForReuse ∧
      jobOutcome scalarPlan scalarHooks [()] {} = some (some [⟨0⟩]) ∧
      jobOutcome scalarPlan scalarHooks [()] scalarRun.2.clearForReuse = some none :=
  ⟨rfl, .recycled (.job .fresh scalarPlan rfl scalarHooks [()] (r := scalarRun.1) rfl), rfl, rfl⟩

/-- Hooks that create the slot in `encode_batch`. -/
def ensuredHooks : JobHooks Unit F32 where
  encode queries := .call (.setQueryCount queries.length) fun _ =>
    .call (.ensure .f32 ⟨5⟩ queries.length id) fun _ => .done (.ok ())
  stage _ := .done (.ok ())
  decode := .call (.slice .f32 ⟨5⟩) .done

/-- With these hooks recycling does not show. -/
theorem recycled_accepted {p : JobPacket} (hp : History p) (queries : List Unit) :
    jobOutcome scalarPlan ensuredHooks queries p =
      jobOutcome scalarPlan ensuredHooks queries {} := by
  have hensures : ensuredHooks.EnsuresFirst scalarPlan queries scalarPlan.unloaded
      fun _ => {slot | slot ≠ ⟨5⟩} := by
    refine ⟨⟨?_, fun _ => ⟨?_, ?_⟩⟩, fun _ _ _ => Set.Subset.refl _, ?_, fun _ => trivial⟩
    · exact fun _ hslot => (List.not_mem_nil hslot).elim
    · exact fun _ hslot => (List.not_mem_nil hslot).elim
    · exact fun _ _ _ slot hslot => hslot.2
    · exact fun slot hslot hidle => hidle (List.mem_singleton.mp hslot)
  refine recycling_invisible_of_ensures rfl hp hensures fun _ slot hslot => ?_
  refine CompiledPlan.passesEmpty_of_undeclared (List.find?_eq_none.mpr ?_)
  simpa [scalarPlan, eq_comm] using hslot

/-- A plan whose only slot is a static table. -/
def tablePlan : CompiledPlan Unit where
  pipeline := { buffers := [⟨⟨3⟩, .u32, .dynamic⟩], stages := [] }
  staticBuffers := [⟨⟨3⟩, .u32 [1, 2]⟩]
  plannerMeta := ()

/-- Hooks that decode the table. -/
def tableHooks : JobHooks Unit UInt32 where
  encode _ := .done (.ok ())
  stage _ := .done (.ok ())
  decode := .call (.slice .u32 ⟨3⟩) .done

/-- A job on the table. -/
def tableRun : BraidResult (List UInt32) × JobPacket :=
  ((runJob tablePlan tableHooks []).run {}).getD (.error .cancelled, {})

/-- The packet of a job on the table is as good as a fresh one for the next. -/
theorem recycling_invisible_table :
    tableRun.2.buffers.length = 1 ∧ ∀ (Q R : Type) (hooks : JobHooks Q R) (queries : List Q),
      jobOutcome tablePlan hooks queries tableRun.2 = jobOutcome tablePlan hooks queries {} :=
  ⟨rfl, (recycling_invisible_iff (M := Unit) rfl
    (.job .fresh tablePlan rfl tableHooks [] (r := tableRun.1) rfl)).mpr (by
      rw [StaticOnly]
      decide)⟩

end Braids
