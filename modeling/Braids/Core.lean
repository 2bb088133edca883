import Mathlib.Data.List.Forall2

/-!
# Core Vocabulary

The types that every layer of the runtime shares: buffer slots, element kinds, kernel
kinds, the error type `BraidError` with the messages it carries, and `HookResult` for code
that may also panic. Error variants that no function of the runtime constructs are left
out.
-/

namespace Braids

/-- Opaque numeric slot identifier for packet and static buffers. -/
structure BufferSlot where
  /-- The raw slot number, a `u16` in the source. -/
  val : UInt16
  deriving DecidableEq, Repr

instance : ToString BufferSlot := ⟨fun slot => toString slot.val.toNat⟩

/-- The slot as an index (`slot.0 as usize`). -/
def BufferSlot.index (slot : BufferSlot) : ℕ := slot.val.toNat

/-- Distinct slots have distinct indices. -/
theorem BufferSlot.index_inj {a b : BufferSlot} (h : a.index = b.index) : a = b := by
  cases a
  cases b
  exact congrArg BufferSlot.mk (UInt16.toNat_inj.mp h)

/-- Primitive element types supported by packet buffers. -/
inductive ElementKind
  | u32
  | u64
  | f32
  deriving DecidableEq, Repr

/-- An `f32`, as its bit pattern: the runtime moves floats but does not compute with them. -/
structure F32 where
  /-- The bits (`to_bits`). -/
  bits : UInt32
  deriving DecidableEq, Repr

/-- Opaque numeric identifier for backend kernel implementations. -/
structure KernelKind where
  /-- The raw kind, a `u32` in the source. -/
  val : UInt32
  deriving DecidableEq, Repr

/-- Error type for core stack, planner, backend, and packet operations. -/
inductive BraidError
  /-- Job was cancelled cooperatively. -/
  | cancelled
  /-- A stack-local job id was not found. -/
  | unknownJob
  /-- Executor or backend runtime is shutting down. -/
  | executorShutdown
  /-- Backend did not know how to prepare the requested kernel kind. -/
  | backendRejectedKernel (kind : KernelKind)
  /-- Requested packet buffer slot was missing. -/
  | missingBuffer (slot : BufferSlot)
  /-- Packet buffer slot existed with the wrong element type. -/
  | invalidBufferType (slot : BufferSlot) (expected : ElementKind)
  /-- Generic invalid compiled-plan or pipeline-layout error. -/
  | invalidSpec (msg : String)
  /-- Generic message error. -/
  | message (msg : String)
  /-- Shared synchronization primitive was poisoned. -/
  | poisoned (name : String)
  deriving DecidableEq, Repr

/-- Standard result alias used by the runtime. -/
abbrev BraidResult (α : Type) := Except BraidError α

/-- What a hook of a planner or a backend does. -/
inductive HookResult (α : Type)
  | ok (value : α)
  | err (error : BraidError)
  | panicked
  deriving DecidableEq, Repr

namespace HookResult

variable {α β : Type}

/-- Go on with the value, or return the error (`?`), or unwind. -/
def bind (x : HookResult α) (f : α → HookResult β) : HookResult β :=
  match x with
  | .ok value => f value
  | .err error => .err error
  | .panicked => .panicked

instance : Monad HookResult where
  pure := .ok
  bind := HookResult.bind

@[simp] theorem pure_eq (a : α) : (pure a : HookResult α) = .ok a := rfl

@[simp] theorem ok_bind (a : α) (f : α → HookResult β) : (HookResult.ok a >>= f) = f a := rfl

@[simp] theorem err_bind (e : BraidError) (f : α → HookResult β) :
    (HookResult.err e >>= f) = .err e := rfl

@[simp] theorem panicked_bind (f : α → HookResult β) :
    (HookResult.panicked >>= f) = .panicked := rfl

/-- A sequence returns only if both of its parts do. -/
theorem bind_eq_ok {x : HookResult α} {f : α → HookResult β} {b : β} :
    (x >>= f) = .ok b ↔ ∃ a, x = .ok a ∧ f a = .ok b := by
  cases x <;> simp

/-- A `Result` of a call that does not panic. -/
def ofResult : BraidResult α → HookResult α
  | .ok value => .ok value
  | .error error => .err error

/-- What the caller of a hook gets back, unless it unwinds. -/
def result? : HookResult α → Option (BraidResult α)
  | .ok value => some (.ok value)
  | .err error => some (.error error)
  | .panicked => none

/-- A loop that collects the values of a call for each element. -/
def traverse (f : α → HookResult β) : List α → HookResult (List β)
  | [] => .ok []
  | a :: l => do
      let b ← f a
      let bs ← traverse f l
      return b :: bs

/-- Such a loop returns when every call does. -/
theorem traverse_eq_ok {f : α → HookResult β} {l : List α} {bs : List β} :
    traverse f l = .ok bs ↔ List.Forall₂ (fun a b => f a = .ok b) l bs := by
  induction l generalizing bs with
  | nil => simp [traverse, eq_comm]
  | cons a l ih =>
      rw [traverse, bind_eq_ok]
      constructor
      · rintro ⟨b, hb, hrest⟩
        obtain ⟨bs', hbs, heq⟩ := bind_eq_ok.mp hrest
        obtain rfl : b :: bs' = bs := by simpa using heq
        exact .cons hb (ih.mp hbs)
      · rintro (_ | ⟨hb, hbs⟩)
        exact ⟨_, hb, bind_eq_ok.mpr ⟨_, ih.mpr hbs, rfl⟩⟩

end HookResult

/-! ### Arithmetic -/

/-- How the program is built: with overflow checks, as debug builds are, or without. -/
structure Build where
  overflowChecks : Bool
  deriving DecidableEq, Repr

/-- The result of an operation on unsigned integers below `limit`. -/
def Build.unsigned (build : Build) (limit value : ℕ) : HookResult ℕ :=
  if value < limit then .ok value
  else if build.overflowChecks then .panicked
  else .ok (value % limit)

/-- An operation that does not overflow. -/
theorem Build.unsigned_of_lt (build : Build) {limit value : ℕ} (h : value < limit) :
    build.unsigned limit value = .ok value := if_pos h

end Braids
