import Mathlib.Logic.Function.Basic
import Braids.Packet.Checkout
import Braids.Stack.Jobs

/-!
# What a Stack Is Given

A stack runs the hooks of a planner and a backend that it knows nothing about. This module
fixes their types, the frozen versions that `Stack` publishes, the packets that travel
between the hooks, and the hooks themselves.

## Conventions

* A hook is a function of what it is called with and of a number, the choice, which resolves
  whatever else decides its result. It may succeed, fail or panic.
* A hook reaches a packet only through the methods of `JobPacket`, so it leaves a packet in
  order (`PacketData`).
* Every scratch object is reset before a hook sees it, so scratch has no contents here.
-/

namespace Braids.Runtime

/-- The associated types of a `PlannerBackend` and a `ComputeBackend`. -/
structure Types where
  State : Type
  Spec : Type
  Change : Type
  Query : Type
  Resolution : Type
  PlannerMeta : Type
  Prepared : Type

/-! ### Packets -/

/-- A `JobPacket` with its private fields in order. -/
abbrev PacketData := { p : JobPacket // p.Wf }

namespace PacketData

/-- `JobPacket::default()`. -/
def fresh : PacketData := ⟨{}, JobPacket.wf_default⟩

/-- `clear_for_reuse`. -/
def clearForReuse (p : PacketData) : PacketData :=
  ⟨p.1.clearForReuse, (JobPacket.clearForReuse_spec p.2).1⟩

/-- What `load_static_buffer` leaves is in order. -/
theorem wf_loadStaticBuffer (p : PacketData) (buffer : StaticBuffer)
    {r : BraidResult Unit × JobPacket}
    (h : (JobPacket.loadStaticBuffer buffer.slot buffer.data).run p.1 = some r) : r.2.Wf := by
  obtain ⟨p', hrun, hwf, -⟩ := JobPacket.loadStaticBuffer_spec p.2 buffer.slot buffer.data
  obtain rfl := Option.some.inj (hrun.symm.trans h)
  exact hwf

/-- `load_static_buffer`, which never panics on a packet in order. -/
def loadStaticBuffer (p : PacketData) (buffer : StaticBuffer) : PacketData :=
  match h : (JobPacket.loadStaticBuffer buffer.slot buffer.data).run p.1 with
  | some r => ⟨r.2, p.wf_loadStaticBuffer buffer h⟩
  | none => p

/-- The packet that a job starts with: cleared, and with the static buffers loaded. -/
def start (p : PacketData) (statics : List StaticBuffer) : PacketData :=
  statics.foldl loadStaticBuffer p.clearForReuse

/-- What `load_static_buffer` leaves. -/
theorem loadStaticBuffer_run (p : PacketData) (buffer : StaticBuffer) :
    (JobPacket.loadStaticBuffer buffer.slot buffer.data).run p.1 =
      some (.ok (), (p.loadStaticBuffer buffer).1) := by
  obtain ⟨p', hrun, -⟩ := JobPacket.loadStaticBuffer_spec p.2 buffer.slot buffer.data
  rw [loadStaticBuffer]
  split
  · next r hr =>
      obtain rfl := Option.some.inj (hrun.symm.trans hr)
      exact hrun
  · next hnone => simp [hrun] at hnone

/-- **A job starts with what `checkout_packet` hands out.** -/
theorem start_run {M : Type} (p : PacketData) (plan : CompiledPlan M) :
    plan.checkoutPacket.run p.1 = some (.ok (), (p.start plan.staticBuffers).1) := by
  have hloop : ∀ (statics : List StaticBuffer) (q : PacketData),
      (JobPacket.loadStaticBuffers statics).run q.1 =
        some (.ok (), (statics.foldl loadStaticBuffer q).1) := by
    intro statics
    induction statics with
    | nil => exact fun q => rfl
    | cons buffer rest ih =>
        intro q
        rw [List.foldl_cons, ← ih]
        simp [JobPacket.loadStaticBuffers, loadStaticBuffer_run]
  exact hloop plan.staticBuffers p.clearForReuse

/-- Nothing is in the packet. -/
def Cleared (p : PacketData) : Prop :=
  p.1.queryCount = 0 ∧ ∀ slot data, p.1.view slot = some data → data.len = 0

/-- `clear_for_reuse` leaves nothing in the packet. -/
theorem cleared_clearForReuse (p : PacketData) : p.clearForReuse.Cleared := by
  obtain ⟨-, hcount, hview⟩ := JobPacket.clearForReuse_spec p.2
  refine ⟨hcount, fun slot data hdata => ?_⟩
  have hmap := (hview slot).symm.trans hdata
  obtain ⟨old, -, rfl⟩ := Option.map_eq_some_iff.mp hmap
  exact BufferData.len_clear old

end PacketData

/-- A packet as an object: `serial` tells it from other packets, whatever is in it. -/
structure Packet where
  serial : ℕ
  data : PacketData

/-- The packet after `clear_for_reuse`. -/
def Packet.cleared (pkt : Packet) : Packet := { pkt with data := pkt.data.clearForReuse }

/-! ### Versions and hooks -/

/-- `FrozenStackVersion`. Its prepared state is taken out only when nobody holds the version
any more, so a version that somebody holds has one. -/
structure Version (T : Types) where
  id : ℕ
  compiled : CompiledPlan T.PlannerMeta
  prepared : T.Prepared

/-- The stages of a version. -/
abbrev Version.stages {T : Types} (version : Version T) : List StageSpec :=
  version.compiled.pipeline.stages

/-- The hooks of a planner and a backend, and how the program is built. -/
structure Hooks (T : Types) where
  /-- `PlannerBackend::apply`, with the state after it. -/
  apply : ℕ → T.State → List T.Change → HookResult Unit × T.State
  /-- `PlannerBackend::reset_state`, with the state after it. -/
  resetState : ℕ → T.State → T.Spec → HookResult Unit × T.State
  /-- `PlannerBackend::updated_state`. -/
  updatedState : ℕ → T.State → List T.Change → HookResult T.State
  /-- `PlannerBackend::compile`. -/
  compile : ℕ → T.State → HookResult (CompiledPlan T.PlannerMeta)
  /-- `ComputeBackend::prepare`. -/
  prepare : ℕ → CompiledPlan T.PlannerMeta → Option T.Prepared → HookResult T.Prepared
  /-- `PlannerBackend::encode_batch`, with the packet after it. -/
  encodeBatch : ℕ → CompiledPlan T.PlannerMeta → List T.Query → PacketData →
    HookResult Unit × PacketData
  /-- `ComputeBackend::run_stage`, with the packet after it and whether it has called
  `CancelFlag::cancel`. -/
  runStage : ℕ → T.Prepared → ℕ → StageSpec → PacketData → (cancel : Bool) →
    HookResult Unit × PacketData × Bool
  /-- `PlannerBackend::decode_batch`. -/
  decodeBatch : ℕ → CompiledPlan T.PlannerMeta → PacketData → HookResult (List T.Resolution)
  /-- `cfg(debug_assertions)`. -/
  debugAssertions : Bool

/-- `validate_runtime_packet`. -/
def Hooks.validateRuntimePacket {T : Types} (H : Hooks T) (compiled : CompiledPlan T.PlannerMeta)
    (p : PacketData) : BraidResult Unit :=
  if H.debugAssertions then compiled.validatePacket p.1 else .ok ()

end Braids.Runtime
