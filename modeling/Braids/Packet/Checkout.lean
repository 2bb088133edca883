import Braids.Packet.Runs

/-!
# Static Buffers and Plan Validation

A job starts on a recycled packet that is cleared and then loaded with the static buffers of
its plan. What earlier jobs left in the packet may have had other slots, kinds and lengths.

## Main result

* `validated_plan_loads`: which plans `validate` accepts, and what a packet holds after the
  static buffers of such a plan were loaded.
-/

namespace Braids

variable {M : Type}

namespace CompiledPlan

/-- What `checkout_packet` does to a packet of the pool, and `execute_inline` to the packet
of its context, before `encode_batch`. -/
def checkoutPacket (plan : CompiledPlan M) : PacketM Unit := do
  .modify JobPacket.clearForReuse
  JobPacket.loadStaticBuffers plan.staticBuffers

/-- A packet with the static data of a plan, and nothing else. -/
structure Loaded (plan : CompiledPlan M) (p : JobPacket) : Prop where
  /-- Each static slot reads back the data of the plan. -/
  static : ∀ buffer ∈ plan.staticBuffers, ∀ (kind : ElementKind) (values : List kind.Elem),
    buffer.data = .ofList kind values → p.slice kind buffer.slot = .ok values
  /-- Every other slot is empty or absent. -/
  other : ∀ slot ∉ plan.staticBuffers.map (·.slot), p.EmptyAt slot
  /-- Every non-empty slot is declared with its kind. -/
  declared : ∀ buffer ∈ p.buffers, buffer.data.len ≠ 0 → ∃ spec ∈ plan.pipeline.buffers,
    spec.slot = buffer.slot ∧ spec.elementKind = buffer.data.kind

/-- **Loading the static buffers** of a plan whose slots are declared. -/
theorem Declared.checkoutPacket_spec {plan : CompiledPlan M} (hplan : plan.Declared)
    {p : JobPacket} (hp : p.Wf) :
    ∃ p', plan.checkoutPacket.run p = some (.ok (), p') ∧ p'.Wf ∧ plan.Loaded p' := by
  obtain ⟨hclear, -, hcleared⟩ := JobPacket.clearForReuse_spec hp
  obtain ⟨p', hrun, hwf, -, hstatic, hother⟩ :=
    JobPacket.loadStaticBuffers_spec hclear hplan.statics
  have hempty : ∀ slot ∉ plan.staticBuffers.map (·.slot), p'.EmptyAt slot := by
    intro slot hslot data hdata
    rw [hother slot hslot, hcleared] at hdata
    obtain ⟨old, -, rfl⟩ := Option.map_eq_some_iff.mp hdata
    exact BufferData.len_clear old
  refine ⟨p', by simp [checkoutPacket, hrun], hwf, ?_, hempty, ?_⟩
  · intro buffer hbuffer kind values hdata
    refine JobPacket.slice_of_view hwf ?_
    rw [hstatic buffer hbuffer, hdata]
  · intro buffer hbuffer hlen
    have hview := hwf.view_eq_some.mpr hbuffer
    by_cases hslot : buffer.slot ∈ plan.staticBuffers.map (·.slot)
    · obtain ⟨static, hmem, hat⟩ := List.mem_map.mp hslot
      have hdata : static.data = buffer.data := by
        rw [← hat, hstatic static hmem] at hview
        exact Option.some.inj hview
      rw [← hat, ← hdata]
      exact hplan.kinds static hmem
    · exact absurd (hempty _ hslot _ hview) hlen

/-- **Validation accepts the plans whose slots are declared**, and on a packet of any history
their static buffers load. -/
theorem validated_plan_loads (plan : CompiledPlan M) :
    (plan.validate = .ok () ↔ plan.Declared) ∧
      (plan.validate = .ok () → ∀ p : JobPacket, p.Reached →
        ∃ p', plan.checkoutPacket.run p = some (.ok (), p') ∧ plan.Loaded p') := by
  refine ⟨validate_ok_iff, fun hplan p hp => ?_⟩
  obtain ⟨p', hrun, -, hloaded⟩ := (validate_ok_iff.mp hplan).checkoutPacket_spec hp.wf
  exact ⟨p', hrun, hloaded⟩

/-- A plan with one static slot that an earlier job used for another kind. -/
theorem validated_plan_loads_retyped :
    let plan : CompiledPlan Unit := ⟨⟨[⟨⟨1⟩, .f32, .dynamic⟩], []⟩, [⟨⟨1⟩, .f32 [⟨0⟩]⟩], ()⟩
    plan.Declared ∧ ∃ p', plan.checkoutPacket.run
      ⟨0, [⟨⟨1⟩, .u32 [7, 8]⟩], [none, some 0], true⟩ = some (.ok (), p') ∧ plan.Loaded p' :=
  ⟨(validated_plan_loads _).1.mp rfl, (validated_plan_loads _).2 rfl _
    (.step (.init rfl) trivial (a := .loadStaticBuffer ⟨1⟩ (.u32 [7, 8])) rfl)⟩

end CompiledPlan

end Braids
