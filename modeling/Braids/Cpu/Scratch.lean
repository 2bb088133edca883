import Braids.Core
import Braids.Lib.Interaction

/-!
# Compute Scratch

`ComputeScratch` and `SpareVecs` of `scratch.rs`. Scratch objects are recycled: a stack keeps
them in a pool and resets them before it hands them out again. What an earlier user left in
them, after an error or a panic too, is nothing that a later one could see.

## Conventions

* A user reaches a scratch object through its public fields and the methods of `SpareVecs`. It
  does not look at the capacity of a vector, or at what `Debug` prints.

## Main results

* `ScratchM.result_recycled`: a program returns the same on a recycled object as on a new one.
* `ScratchM.forall_of_traverse`: what a loop over a list returns.
-/

namespace Braids

open Interaction

/-! ### Spare vectors -/

/-- `SpareVecs`. -/
structure SpareVecs (T : Type) where
  buffers : List (List T) := []

namespace SpareVecs

variable {T : Type}

/-- `checkout`. -/
def checkout (spare : SpareVecs T) : List T × SpareVecs T :=
  (spare.buffers.getLast?.getD [], ⟨spare.buffers.dropLast⟩)

/-- `give_back`. -/
def giveBack (spare : SpareVecs T) (values : List T) : SpareVecs T :=
  ⟨spare.buffers ++ [if values.isEmpty then values else []]⟩

/-- `reset`. -/
def reset (spare : SpareVecs T) : SpareVecs T :=
  ⟨spare.buffers.map fun values => if values.isEmpty then values else []⟩

/-- There is nothing in the spare vectors. -/
def Clear (spare : SpareVecs T) : Prop := ∀ values ∈ spare.buffers, values = []

/-- Clearing a vector that may be empty. -/
theorem cleared (values : List T) : (if values.isEmpty then values else []) = [] := by
  split
  · next h => exact List.isEmpty_iff.mp h
  · rfl

/-- After `reset` there is nothing in them. -/
theorem clear_reset (spare : SpareVecs T) : spare.reset.Clear := by
  intro values hmem
  obtain ⟨old, -, rfl⟩ := List.mem_map.mp hmem
  exact cleared old

/-- An empty vector is checked out. -/
theorem Clear.checkout {spare : SpareVecs T} (h : spare.Clear) :
    spare.checkout.1 = [] ∧ spare.checkout.2.Clear := by
  refine ⟨?_, fun values hmem => h values (List.dropLast_subset _ hmem)⟩
  rw [SpareVecs.checkout]
  cases hlast : spare.buffers.getLast? with
  | none => rfl
  | some values => exact h values (List.mem_of_getLast? hlast)

/-- What is given back is cleared. -/
theorem Clear.giveBack {spare : SpareVecs T} (h : spare.Clear) (values : List T) :
    (spare.giveBack values).Clear := by
  intro buffer hmem
  rcases List.mem_append.mp hmem with hmem | hmem
  · exact h buffer hmem
  · exact List.mem_singleton.mp hmem ▸ cleared values

end SpareVecs

/-! ### The scratch object -/

/-- Backend-side scratch reused during prepare. -/
structure ComputeScratch where
  bytes : List UInt8 := []
  u32s : List UInt32 := []
  f32s : List F32 := []
  spareU32s : SpareVecs UInt32 := {}
  spareF32s : SpareVecs F32 := {}

/-- `reset`: clear logical contents while keeping capacity. -/
def ComputeScratch.reset (scratch : ComputeScratch) : ComputeScratch where
  bytes := if scratch.bytes.isEmpty then scratch.bytes else []
  u32s := if scratch.u32s.isEmpty then scratch.u32s else []
  f32s := if scratch.f32s.isEmpty then scratch.f32s else []
  spareU32s := scratch.spareU32s.reset
  spareF32s := scratch.spareF32s.reset

/-- What can be done with a scratch object. -/
inductive ScratchOp
  | editBytes (edit : List UInt8 → List UInt8)
  | editU32s (edit : List UInt32 → List UInt32)
  | editF32s (edit : List F32 → List F32)
  | checkoutU32s
  | checkoutF32s
  | giveBackU32s (values : List UInt32)
  | giveBackF32s (values : List F32)
  | reset

/-- What an operation answers. An edit answers what was there. -/
def ScratchOp.Ans : ScratchOp → Type
  | .editBytes _ => List UInt8
  | .editU32s _ => List UInt32
  | .editF32s _ => List F32
  | .checkoutU32s => List UInt32
  | .checkoutF32s => List F32
  | .giveBackU32s _ | .giveBackF32s _ | .reset => Unit

/-- The operations on a scratch object. -/
def scratchImpl : Impl ScratchOp ScratchOp.Ans ComputeScratch
  | .editBytes edit, s => some (s.bytes, { s with bytes := edit s.bytes })
  | .editU32s edit, s => some (s.u32s, { s with u32s := edit s.u32s })
  | .editF32s edit, s => some (s.f32s, { s with f32s := edit s.f32s })
  | .checkoutU32s, s =>
      some (s.spareU32s.checkout.1, { s with spareU32s := s.spareU32s.checkout.2 })
  | .checkoutF32s, s =>
      some (s.spareF32s.checkout.1, { s with spareF32s := s.spareF32s.checkout.2 })
  | .giveBackU32s values, s => some ((), { s with spareU32s := s.spareU32s.giveBack values })
  | .giveBackF32s values, s => some ((), { s with spareF32s := s.spareF32s.giveBack values })
  | .reset, s => some ((), s.reset)

/-- The objects hold the same, and nothing in their spare vectors. -/
structure SameScratch (s t : ComputeScratch) : Prop where
  bytes : s.bytes = t.bytes
  u32s : s.u32s = t.u32s
  f32s : s.f32s = t.f32s
  clearU32s : s.spareU32s.Clear ∧ t.spareU32s.Clear
  clearF32s : s.spareF32s.Clear ∧ t.spareF32s.Clear

/-- **After `reset` all objects are the same.** -/
theorem sameScratch_reset (s t : ComputeScratch) : SameScratch s.reset t.reset where
  bytes := (SpareVecs.cleared s.bytes).trans (SpareVecs.cleared t.bytes).symm
  u32s := (SpareVecs.cleared s.u32s).trans (SpareVecs.cleared t.u32s).symm
  f32s := (SpareVecs.cleared s.f32s).trans (SpareVecs.cleared t.f32s).symm
  clearU32s := ⟨s.spareU32s.clear_reset, t.spareU32s.clear_reset⟩
  clearF32s := ⟨s.spareF32s.clear_reset, t.spareF32s.clear_reset⟩

/-- The operations answer alike on such objects. -/
theorem alike_scratchImpl : Alike SameScratch scratchImpl scratchImpl := by
  intro op s t h
  cases op with
  | editBytes edit =>
      exact ⟨s.bytes, _, { t with bytes := edit t.bytes }, rfl, by rw [h.bytes]; rfl,
        { h with bytes := congrArg edit h.bytes }⟩
  | editU32s edit =>
      exact ⟨s.u32s, _, { t with u32s := edit t.u32s }, rfl, by rw [h.u32s]; rfl,
        { h with u32s := congrArg edit h.u32s }⟩
  | editF32s edit =>
      exact ⟨s.f32s, _, { t with f32s := edit t.f32s }, rfl, by rw [h.f32s]; rfl,
        { h with f32s := congrArg edit h.f32s }⟩
  | checkoutU32s =>
      obtain ⟨hs, ht⟩ := h.clearU32s
      refine ⟨[], _, _, congrArg (fun v => some (v, _)) hs.checkout.1,
        congrArg (fun v => some (v, _)) ht.checkout.1, ?_⟩
      exact { h with clearU32s := ⟨hs.checkout.2, ht.checkout.2⟩ }
  | checkoutF32s =>
      obtain ⟨hs, ht⟩ := h.clearF32s
      refine ⟨[], _, _, congrArg (fun v => some (v, _)) hs.checkout.1,
        congrArg (fun v => some (v, _)) ht.checkout.1, ?_⟩
      exact { h with clearF32s := ⟨hs.checkout.2, ht.checkout.2⟩ }
  | giveBackU32s values =>
      obtain ⟨hs, ht⟩ := h.clearU32s
      exact ⟨(), _, _, rfl, rfl, { h with clearU32s := ⟨hs.giveBack values, ht.giveBack values⟩ }⟩
  | giveBackF32s values =>
      obtain ⟨hs, ht⟩ := h.clearF32s
      exact ⟨(), _, _, rfl, rfl, { h with clearF32s := ⟨hs.giveBack values, ht.giveBack values⟩ }⟩
  | reset => exact ⟨(), _, _, rfl, rfl, sameScratch_reset s t⟩

/-! ### Programs -/

/-- A program that works on a scratch object. It may fail or panic. -/
def ScratchM (α : Type) : Type := Prog ScratchOp ScratchOp.Ans (HookResult α)

namespace ScratchM

variable {α β : Type}

/-- Go on with the value, or return the error (`?`), or unwind. -/
def next (f : α → ScratchM β) : HookResult α → ScratchM β
  | .ok a => f a
  | .err error => .done (.err error)
  | .panicked => .done .panicked

/-- A program after another one. -/
def bind (m : ScratchM α) (f : α → ScratchM β) : ScratchM β := Prog.bind m (next f)

instance : Monad ScratchM where
  pure a := .done (.ok a)
  bind := ScratchM.bind

/-- What has been computed already. -/
def of (result : HookResult α) : ScratchM α := .done result

/-- `scratch.reset()`. -/
def reset : ScratchM Unit := .call .reset fun _ => .done (.ok ())

/-- Carry out a program on a scratch object. -/
def run (m : ScratchM α) (scratch : ComputeScratch) : Option (HookResult α × ComputeScratch) :=
  Prog.run scratchImpl m scratch

/-- What a program returns. -/
def result (m : ScratchM α) (scratch : ComputeScratch) : HookResult α :=
  ((m.run scratch).map (·.1)).getD .panicked

/-- A program that returns a value runs to it. -/
theorem run_of_result {m : ScratchM α} {s : ComputeScratch} {value : α}
    (h : m.result s = .ok value) : ∃ t, m.run s = some (.ok value, t) := by
  rw [result] at h
  rcases hrun : m.run s with _ | ⟨r, t⟩
  · rw [hrun] at h
    cases h
  · rw [hrun] at h
    obtain rfl : r = .ok value := h
    exact ⟨t, rfl⟩

/-- The second program starts where the first one ends. -/
theorem run_bind (m : ScratchM α) (f : α → ScratchM β) (s : ComputeScratch) :
    (m >>= f).run s = (m.run s).bind fun r => (next f r.1).run r.2 :=
  Prog.run_bind scratchImpl m (next f) s

/-- A program that returns a value after another one. -/
theorem run_bind_eq_ok {m : ScratchM α} {f : α → ScratchM β} {s s' : ComputeScratch} {b : β} :
    (m >>= f).run s = some (.ok b, s') ↔
      ∃ a t, m.run s = some (.ok a, t) ∧ (f a).run t = some (.ok b, s') := by
  rw [run_bind, Option.bind_eq_some_iff]
  constructor
  · rintro ⟨⟨r, t⟩, hm, hf⟩
    cases r with
    | ok a => exact ⟨a, t, hm, hf⟩
    | err error => cases hf
    | panicked => cases hf
  · rintro ⟨a, t, hm, hf⟩
    exact ⟨(.ok a, t), hm, hf⟩

/-- A loop that returns at the first error. Its rounds are counted, and the first of them has the
given number. -/
def traverse (f : ℕ → α → ScratchM β) : ℕ → List α → ScratchM (List β)
  | _, [] => pure []
  | i, a :: l => do
      let b ← f i a
      let bs ← traverse f (i + 1) l
      return b :: bs

/-- What such a loop returns, on the scratch objects that its rounds leave. -/
theorem forall_of_traverse {f : ℕ → α → ScratchM β} {i : ℕ} {l : List α} {bs : List β}
    {s s' : ComputeScratch} (h : (traverse f i l).run s = some (.ok bs, s')) :
    List.Forall₂ (fun a b => ∃ n t t', (f n a).run t = some (.ok b, t')) l bs := by
  induction l generalizing i bs s s' with
  | nil =>
      obtain ⟨rfl, -⟩ : [] = bs ∧ s = s' := by simpa [traverse, run, pure, Prog.run] using h
      exact .nil
  | cons a l ih =>
      obtain ⟨b, t, hb, hrest⟩ := run_bind_eq_ok.mp h
      obtain ⟨bs', t', hbs, hpure⟩ := run_bind_eq_ok.mp hrest
      obtain ⟨rfl, -⟩ : b :: bs' = bs ∧ t' = s' := by simpa [run, pure, Prog.run] using hpure
      exact .cons ⟨i, s, t, hb⟩ (ih hbs)

/-- A program after one that has run. -/
theorem run_bind_of_run {m : ScratchM α} {s t : ComputeScratch} {r : HookResult α}
    (h : m.run s = some (r, t)) (f : α → ScratchM β) : (m >>= f).run s = (next f r).run t := by
  rw [run_bind, h]
  rfl

/-- A loop whose rounds do not use the scratch object. -/
theorem run_traverse {f : ℕ → α → ScratchM β} {g : α → HookResult β}
    (h : ∀ i a s, (f i a).run s = some (g a, s)) (i : ℕ) (l : List α) (s : ComputeScratch) :
    (traverse f i l).run s = some (HookResult.traverse g l, s) := by
  induction l generalizing i with
  | nil => rfl
  | cons a l ih =>
      rw [traverse, run_bind_of_run (h i a s), HookResult.traverse]
      cases g a with
      | ok b =>
          rw [next, run_bind_of_run (ih (i + 1))]
          cases HookResult.traverse g l <;> rfl
      | err error => rfl
      | panicked => rfl

/-- **A recycled scratch object is like a new one** for a program that resets it first. -/
theorem result_recycled (m : ScratchM α) (scratch : ComputeScratch) :
    (reset >>= fun _ => m).result scratch = (reset >>= fun _ => m).result {} := by
  obtain ⟨r, s, t, hs, ht, -⟩ :=
    Prog.run_sim alike_scratchImpl m (sameScratch_reset scratch {})
  have hscratch : (reset >>= fun _ => m).run scratch = some (r, s) := hs
  have hnew : (reset >>= fun _ => m).run {} = some (r, t) := ht
  rw [result, result, hscratch, hnew]
  rfl

end ScratchM

end Braids
