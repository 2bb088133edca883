import Braids.Packet.Pipeline
import Mathlib.Logic.Function.Basic

/-!
# Job Packets

The reusable buffer set that planner and backend share (`JobPacket` of `job.rs`): a vector
of typed buffers, an index from slots to positions, and a flag that tells whether anything
was written since the last clear.

An operation that borrows the packet mutably is a `PacketM`. It keeps the packet when it
returns an error, as the source does, and answers nothing when it panics. What the caller
does through a returned reference is a parameter of the operation. A slice has a fixed
length, so only its elements can be overwritten.
-/

namespace Braids

/-- One slot payload inside a `JobPacket`. -/
structure PacketBuffer where
  slot : BufferSlot
  data : BufferData
  deriving DecidableEq, Repr

/-- Reusable per-job mutable buffer set shared between planner and backend. -/
structure JobPacket where
  queryCount : ℕ := 0
  buffers : List PacketBuffer := []
  slotIndices : List (Option ℕ) := []
  isDirty : Bool := false
  deriving DecidableEq, Repr

/-! ### Operations that change the packet -/

/-- A call with a packet borrowed mutably: the result and the packet after it, nothing if
it panics. -/
structure PacketM (α : Type) where
  run : JobPacket → Option (BraidResult α × JobPacket)

namespace PacketM

variable {α β : Type}

/-- Go on with the value, or return the error (`?`) with the packet as it is. -/
def bind (m : PacketM α) (f : α → PacketM β) : PacketM β where
  run p := (m.run p).bind fun r =>
    match r.1 with
    | .ok a => (f a).run r.2
    | .error e => some (.error e, r.2)

instance : Monad PacketM where
  pure a := ⟨fun p => some (.ok a, p)⟩
  bind := PacketM.bind

/-- A panic. -/
def panic : PacketM α := ⟨fun _ => none⟩

/-- A call with the packet borrowed shared. -/
def read (f : JobPacket → HookResult α) : PacketM α :=
  ⟨fun p => (f p).result?.map fun r => (r, p)⟩

/-- Change the packet. -/
def modify (f : JobPacket → JobPacket) : PacketM Unit := ⟨fun p => some (.ok (), f p)⟩

@[simp] theorem run_pure (a : α) (p : JobPacket) :
    (pure a : PacketM α).run p = some (.ok a, p) := rfl

@[simp] theorem run_bind (m : PacketM α) (f : α → PacketM β) (p : JobPacket) :
    (m >>= f).run p = (m.run p).bind fun r =>
      match r.1 with
      | .ok a => (f a).run r.2
      | .error e => some (.error e, r.2) := rfl

/-- A call whose value is dropped. -/
theorem run_bind_unit (m : PacketM Unit) (p : JobPacket) :
    (m >>= fun _ => pure ()).run p = m.run p := by
  rw [run_bind]
  rcases m.run p with _ | ⟨_ | _, p'⟩ <;> rfl

/-- Two calls return when each of them does. -/
theorem run_bind_eq_ok {m : PacketM α} {f : α → PacketM β} {p p' : JobPacket} {b : β} :
    (m >>= f).run p = some (.ok b, p') ↔
      ∃ a p₁, m.run p = some (.ok a, p₁) ∧ (f a).run p₁ = some (.ok b, p') := by
  rw [run_bind]
  rcases m.run p with _ | ⟨_ | a, p₁⟩ <;> simp

/-- A call leaves one packet. -/
theorem run_unique {m : PacketM α} {p p₁ p₂ : JobPacket} {r r' : BraidResult α}
    (h : m.run p = some (r, p₁)) (h' : m.run p = some (r', p₂)) : r = r' ∧ p₁ = p₂ := by
  have heq := h.symm.trans h'
  rwa [Option.some.injEq, Prod.mk.injEq] at heq

@[simp] theorem run_panic (p : JobPacket) : (panic : PacketM α).run p = none := rfl

@[simp] theorem run_read (f : JobPacket → HookResult α) (p : JobPacket) :
    (read f).run p = (f p).result?.map fun r => (r, p) := rfl

@[simp] theorem run_modify (f : JobPacket → JobPacket) (p : JobPacket) :
    (modify f).run p = some (.ok (), f p) := rfl

end PacketM

namespace JobPacket

/-- `clear_for_reuse`: clear logical contents while keeping allocations for reuse. -/
def clearForReuse (p : JobPacket) : JobPacket :=
  if !p.isDirty then { p with queryCount := 0 }
  else { p with
    queryCount := 0
    buffers := p.buffers.map fun buffer => { buffer with data := buffer.data.clear }
    isDirty := false }

/-- `slot_index`. -/
def slotIndex (p : JobPacket) (slot : BufferSlot) : Option ℕ :=
  p.slotIndices[slot.index]?.join

/-- `record_slot_index`. -/
def recordSlotIndex (p : JobPacket) (slot : BufferSlot) (index : ℕ) : JobPacket :=
  let raw := slot.index
  let indices :=
    if p.slotIndices.length ≤ raw then
      p.slotIndices ++ List.replicate (raw + 1 - p.slotIndices.length) none
    else p.slotIndices
  { p with slotIndices := indices.set raw (some index) }

/-- Overwrite the storage of the buffer at position `index`. -/
def setData (p : JobPacket) (index : ℕ) (data : BufferData) : JobPacket :=
  { p with buffers := p.buffers.modify index fun buffer => { buffer with data } }

/-- `ensure_slot`. -/
def ensureSlot (p : JobPacket) (slot : BufferSlot) (expected : ElementKind) :
    HookResult (ℕ × JobPacket) :=
  match p.slotIndex slot with
  | some idx =>
      match p.buffers[idx]? with
      | none => .panicked
      | some buffer =>
          if buffer.data.kind ≠ expected then .ok (idx, p.setData idx (.empty expected))
          else .ok (idx, p)
  | none =>
      let p := { p with buffers := p.buffers ++ [PacketBuffer.mk slot (.empty expected)] }
      let index := p.buffers.length - 1
      .ok (index, p.recordSlotIndex slot index)

/-- The typed view of the buffer at position `index`, which the caller expects to match. -/
def typed (p : JobPacket) (kind : ElementKind) (index : ℕ) : HookResult (List kind.Elem) :=
  match p.buffers[index]? with
  | none => .panicked
  | some buffer =>
      match BufferData.get kind buffer.data with
      | some values => .ok values
      | none => .panicked

end JobPacket

/-- `resize_with(len, T::default)`. -/
def resize (kind : ElementKind) (len : ℕ) (values : List kind.Elem) : List kind.Elem :=
  values.take len ++ List.replicate (len - values.length) kind.default

/-- The elements of a slice after those at its front were overwritten. -/
def overwrite {α : Type} (old new : List α) : List α :=
  new.take old.length ++ old.drop new.length

/-- `copy_from_slice`. -/
def copyFromSlice {α : Type} (source target : List α) : Option (List α) :=
  if target.length = source.length then some source else none

namespace JobPacket

/-- `ensure`: ensure a typed buffer exists at `slot` and resize it to `len`. The caller
edits the returned vector with `edit`, which may panic. -/
def ensure (kind : ElementKind) (slot : BufferSlot) (len : ℕ)
    (edit : List kind.Elem → Option (List kind.Elem)) : PacketM (List kind.Elem) where
  run p :=
    match p.ensureSlot slot kind with
    | .ok (idx, p) =>
        match p.typed kind idx with
        | .ok values =>
            let values := resize kind len values
            (edit values).map fun edited =>
              (.ok values, { p.setData idx (.ofList kind edited) with isDirty := true })
        | _ => none
    | _ => none

/-- `load_static_buffer`. -/
def loadStaticBuffer (slot : BufferSlot) (data : BufferData) : PacketM Unit :=
  match data with
  | .u32 values => do
      let _ ← ensure .u32 slot values.length (copyFromSlice values)
  | .u64 values => do
      let _ ← ensure .u64 slot values.length (copyFromSlice values)
  | .f32 values => do
      let _ ← ensure .f32 slot values.length (copyFromSlice values)

/-- `slice`: read-only typed slice for one slot. -/
def slice (kind : ElementKind) (slot : BufferSlot) (p : JobPacket) :
    HookResult (List kind.Elem) :=
  match p.slotIndex slot with
  | none => .err (.missingBuffer slot)
  | some idx =>
      match p.buffers[idx]? with
      | none => .panicked
      | some buffer =>
          match BufferData.get kind buffer.data with
          | some values => .ok values
          | none => .err (.invalidBufferType slot kind)

/-- `slice_mut`: mutable typed slice for one slot, which the caller edits with `edit`. -/
def sliceMut (kind : ElementKind) (slot : BufferSlot)
    (edit : List kind.Elem → List kind.Elem) : PacketM (List kind.Elem) where
  run p :=
    match p.slotIndex slot with
    | none => some (.error (.missingBuffer slot), p)
    | some idx =>
        match p.buffers[idx]? with
        | none => none
        | some buffer =>
            match BufferData.get kind buffer.data with
            | some values =>
                some (.ok values,
                  { p.setData idx (.ofList kind (overwrite values (edit values))) with
                    isDirty := true })
            | none => some (.error (.invalidBufferType slot kind), p)

/-- `as_chunks`, for values whose number is a multiple of the width. -/
def chunks {α : Type} (width : ℕ) (values : List α) : List (List α) :=
  (List.range (values.length / width)).map fun i => (values.drop (i * width)).take width

/-- The check of `slice_many` and `slice_many_mut` after the slot was found. -/
def groups {α : Type} (slot : BufferSlot) (width : ℕ) (values : List α) :
    BraidResult (List (List α)) :=
  if values.length % width ≠ 0 then
    .error (.invalidSpec
      s!"buffer slot {slot} length {values.length} not divisible by width {width}")
  else .ok (chunks width values)

/-- `slice_many`: read one slot as fixed-width groups of `width` elements. -/
def sliceMany (kind : ElementKind) (width : ℕ) (slot : BufferSlot) (p : JobPacket) :
    HookResult (List (List kind.Elem)) :=
  if width = 0 then .err (.invalidSpec "slice_many requires width greater than zero")
  else do
    let values ← p.slice kind slot
    .ofResult (groups slot width values)

/-- `slice_many_mut`: the same, and the caller edits the elements with `edit`. -/
def sliceManyMut (kind : ElementKind) (width : ℕ) (slot : BufferSlot)
    (edit : List kind.Elem → List kind.Elem) : PacketM (List (List kind.Elem)) :=
  if width = 0 then
    .read fun _ => .err (.invalidSpec "slice_many_mut requires width greater than zero")
  else do
    .modify fun p => { p with isDirty := true }
    -- the groups are handed out, and so edited, only if the width divides the length
    let values ← sliceMut kind slot fun values =>
      if values.length % width = 0 then edit values else values
    .read fun _ => .ofResult (groups slot width values)

/-- The loop of `with_slices` that collects the indices of the requested slots. -/
def requestIndices (p : JobPacket) (kind : ElementKind) (indices : List ℕ) :
    List BufferSlot → HookResult (List ℕ)
  | [] => .ok indices
  | slot :: slots =>
      match p.slotIndex slot with
      | none => .err (.missingBuffer slot)
      | some index =>
          if index ∈ indices then .err (.message "duplicate typed buffer slot request")
          else
            match p.buffers[index]? with
            | none => .panicked
            | some buffer =>
                if buffer.data.kind ≠ kind then .err (.invalidBufferType slot kind)
                else requestIndices p kind (indices ++ [index]) slots

/-- The typed views of the buffers at some indices. -/
def views (p : JobPacket) (kind : ElementKind) : List ℕ → HookResult (List (List kind.Elem))
  | [] => .ok []
  | index :: indices => do
      let values ← p.typed kind index
      let rest ← p.views kind indices
      return values :: rest

/-- Overwrite the elements of the buffers at some indices. -/
def writeViews (kind : ElementKind) (p : JobPacket) :
    List ℕ → List (List kind.Elem) → List (List kind.Elem) → JobPacket
  | index :: indices, old :: olds, new :: news =>
      writeViews kind (p.setData index (.ofList kind (overwrite old new))) indices olds news
  | _, _, _ => p

/-- `with_slices`: borrow several distinct typed slot slices at once. The closure `f`
answers with its result and what it wrote, and may panic. -/
def withSlices {α : Type} (kind : ElementKind) (slots : List BufferSlot)
    (f : List (List kind.Elem) → Option (BraidResult α × List (List kind.Elem))) : PacketM α where
  run p :=
    match p.requestIndices kind [] slots with
    | .err e => some (.error e, p)
    | .panicked => none
    | .ok indices =>
        match p.views kind indices with
        | .ok old => (f old).map fun r => (r.1, writeViews kind p indices old r.2)
        | _ => none

/-- `buffer_descriptors`. -/
def bufferDescriptors (p : JobPacket) : List (BufferSlot × ElementKind × ℕ) :=
  p.buffers.map fun buffer => (buffer.slot, buffer.data.kind, buffer.data.len)

end JobPacket

/-- The check that `validate_packet` makes of one buffer. -/
def validateDescriptor (specs : List BufferSpec) (queryCount : ℕ)
    (buffer : BufferSlot × ElementKind × ℕ) : BraidResult Unit :=
  let (slot, kind, len) := buffer
  match specOf specs slot with
  | none =>
      if len = 0 then .ok ()
      else .error (.invalidSpec s!"packet contains undeclared buffer slot {slot}")
  | some spec =>
      if spec.elementKind ≠ kind then .error (.invalidBufferType slot spec.elementKind)
      else spec.validateLen queryCount len

/-- `CompiledPlan::validate_packet`. -/
def CompiledPlan.validatePacket {M : Type} (plan : CompiledPlan M) (p : JobPacket) :
    BraidResult Unit :=
  p.bufferDescriptors.forM (validateDescriptor plan.pipeline.buffers p.queryCount)

end Braids
