import Braids.Core
import Mathlib.Algebra.Group.Nat.Defs
import Mathlib.Data.List.Nodup
import Mathlib.Tactic.Common

/-!
# Compiled Pipelines

The shapes that planners emit and backends consume (`pipeline.rs`): typed buffers, slot
declarations with their layout contract, stages of kernels, and the check that a compiled
plan has to pass before it is used.

A vector is a list. A `usize` is a natural number, and the one checked multiplication
compares with `usizeLimit`.
-/

namespace Braids

/-! ### Buffer data -/

/-- The Rust type of the elements of a kind (`PacketElement`). -/
abbrev ElementKind.Elem : ElementKind → Type
  | .u32 => UInt32
  | .u64 => UInt64
  | .f32 => F32

/-- `T::default()`. -/
def ElementKind.default : (kind : ElementKind) → kind.Elem
  | .u32 => (0 : UInt32)
  | .u64 => (0 : UInt64)
  | .f32 => F32.mk 0

/-- Type-erased buffer storage for packet and static buffers. -/
inductive BufferData
  | u32 (values : List UInt32)
  | u64 (values : List UInt64)
  | f32 (values : List F32)
  deriving DecidableEq, Repr

namespace BufferData

/-- Storage that holds the given values. -/
def ofList : (kind : ElementKind) → List kind.Elem → BufferData
  | .u32, values => .u32 values
  | .u64, values => .u64 values
  | .f32, values => .f32 values

/-- Create an empty buffer for one declared element kind. -/
def empty (kind : ElementKind) : BufferData := ofList kind []

/-- The element type of this buffer. -/
def kind : BufferData → ElementKind
  | .u32 _ => .u32
  | .u64 _ => .u64
  | .f32 _ => .f32

/-- Clear logical contents while keeping capacity for reuse. -/
def clear : BufferData → BufferData
  | .u32 _ => .u32 []
  | .u64 _ => .u64 []
  | .f32 _ => .f32 []

/-- The logical element count. -/
def len : BufferData → ℕ
  | .u32 values => values.length
  | .u64 values => values.length
  | .f32 values => values.length

/-- `PacketElement::get` and `get_mut`: the typed view, if the storage matches. -/
def get : (kind : ElementKind) → BufferData → Option (List kind.Elem)
  | .u32, .u32 values => some values
  | .u64, .u64 values => some values
  | .f32, .f32 values => some values
  | _, _ => none

@[simp] theorem kind_ofList (kind : ElementKind) (values : List kind.Elem) :
    (ofList kind values).kind = kind := by
  cases kind <;> rfl

@[simp] theorem len_ofList (kind : ElementKind) (values : List kind.Elem) :
    (ofList kind values).len = values.length := by
  cases kind <;> rfl

@[simp] theorem get_ofList (kind : ElementKind) (values : List kind.Elem) :
    get kind (ofList kind values) = some values := by
  cases kind <;> rfl

@[simp] theorem kind_empty (kind : ElementKind) : (empty kind).kind = kind := by
  cases kind <;> rfl

@[simp] theorem len_empty (kind : ElementKind) : (empty kind).len = 0 := by
  cases kind <;> rfl

@[simp] theorem get_empty (kind : ElementKind) : get kind (empty kind) = some [] := by
  cases kind <;> rfl

/-- Storage is its typed view. -/
theorem eq_ofList_of_get {kind : ElementKind} {data : BufferData} {values : List kind.Elem}
    (h : get kind data = some values) : data = ofList kind values := by
  cases kind <;> cases data <;> simp_all [get, ofList]

/-- Storage has a typed view for its kind only. -/
theorem get_isSome {kind : ElementKind} {data : BufferData} :
    (get kind data).isSome = true ↔ data.kind = kind := by
  cases kind <;> cases data <;> simp [get, BufferData.kind]

/-- Storage of another kind has no typed view. -/
theorem get_eq_none {kind : ElementKind} {data : BufferData} (h : data.kind ≠ kind) :
    get kind data = none := by
  rw [← Option.not_isSome_iff_eq_none, get_isSome]
  exact h

/-- Storage of the right kind has a typed view. -/
theorem exists_get {kind : ElementKind} {data : BufferData} (h : data.kind = kind) :
    ∃ values, get kind data = some values :=
  Option.isSome_iff_exists.mp (get_isSome.mpr h)

@[simp] theorem kind_clear (data : BufferData) : data.clear.kind = data.kind := by
  cases data <;> rfl

@[simp] theorem len_clear (data : BufferData) : data.clear.len = 0 := by
  cases data <;> rfl

/-- Clearing keeps nothing but the kind. -/
theorem clear_eq (data : BufferData) : data.clear = empty data.kind := by
  cases data <;> rfl

/-- An empty buffer is already clear. -/
theorem clear_of_len {data : BufferData} (h : data.len = 0) : data.clear = data := by
  cases data <;> simp_all [len, clear]

end BufferData

/-! ### Slot declarations -/

/-- Declared layout contract for one pipeline buffer slot. -/
inductive BufferLayout
  /-- Exactly one element per query. -/
  | perQueryScalar
  /-- A fixed-width vector per query. -/
  | perQueryVector (width : ℕ)
  /-- Planner/backend-managed variable-length buffer. -/
  | dynamic
  deriving DecidableEq, Repr

/-- Access mode declared for one kernel binding. -/
inductive BufferAccess
  | read
  | write
  | readWrite
  deriving DecidableEq, Repr

/-- Scheduling hint for how one kernel prefers to run. -/
inductive DispatchHint
  | wholeBatch
  | querySharded
  | serial
  deriving DecidableEq, Repr

/-- Declares one buffer slot used by a compiled pipeline. -/
structure BufferSpec where
  slot : BufferSlot
  elementKind : ElementKind
  layout : BufferLayout
  deriving DecidableEq, Repr

/-- One past the largest `usize`. -/
def usizeLimit : ℕ := 2 ^ 64

/-- `usize::checked_mul`. -/
def checkedMul (a b : ℕ) : Option ℕ := if a * b < usizeLimit then some (a * b) else none

/-- `BufferSpec::validate_len`. -/
def BufferSpec.validateLen (spec : BufferSpec) (queryCount len : ℕ) : BraidResult Unit :=
  let expected :=
    match spec.layout with
    | .perQueryScalar => some (some queryCount)
    | .perQueryVector width => some (checkedMul queryCount width)
    | .dynamic => none
  match expected with
  | none => .ok ()
  | some none =>
      .error (.invalidSpec s!"buffer slot {spec.slot} length overflow for declared layout")
  | some (some expected) =>
      if len ≠ expected then
        .error (.invalidSpec
          s!"buffer slot {spec.slot} has length {len} but declared layout expects {expected}")
      else .ok ()

/-- One kernel's view of one pipeline buffer slot. -/
structure BufferBinding where
  slot : BufferSlot
  access : BufferAccess
  deriving DecidableEq, Repr

/-- One compiled kernel invocation inside a stage. -/
structure KernelSpec where
  kindId : KernelKind
  payload : List UInt8
  bindings : List BufferBinding
  dispatch : DispatchHint
  deriving DecidableEq, Repr

/-- Barrier-separated group of kernels. -/
structure StageSpec where
  kernels : List KernelSpec
  deriving DecidableEq, Repr

/-- Full buffer and stage layout for a compiled plan. -/
structure PipelineShape where
  buffers : List BufferSpec
  stages : List StageSpec
  deriving DecidableEq, Repr

/-- Immutable static buffer loaded into packets before stage execution. -/
structure StaticBuffer where
  slot : BufferSlot
  data : BufferData
  deriving DecidableEq, Repr

/-- Planner output consumed by `Stack` creation, recompile, and backend prepare. -/
structure CompiledPlan (M : Type) where
  pipeline : PipelineShape
  staticBuffers : List StaticBuffer
  plannerMeta : M

/-! ### Validation -/

section Validate

variable {M : Type}

/-- The declaration of a slot. -/
def specOf (specs : List BufferSpec) (slot : BufferSlot) : Option BufferSpec :=
  specs.find? fun spec => spec.slot = slot

/-- The loop of `specs_by_slot`: `specs` is the table so far. -/
def insertSpecs (specs : List BufferSpec) : List BufferSpec → BraidResult (List BufferSpec)
  | [] => .ok specs
  | spec :: rest =>
      if (specOf specs spec.slot).isSome then
        .error (.invalidSpec s!"duplicate buffer slot {spec.slot} in pipeline")
      else insertSpecs (specs ++ [spec]) rest

/-- `CompiledPlan::specs_by_slot`. -/
def CompiledPlan.specsBySlot (plan : CompiledPlan M) : BraidResult (List BufferSpec) :=
  insertSpecs [] plan.pipeline.buffers

/-- The loop of `validate` over the static buffers: `seen` are their slots so far. -/
def validateStatics (specs : List BufferSpec) (seen : List BufferSlot) :
    List StaticBuffer → BraidResult Unit
  | [] => .ok ()
  | buffer :: rest =>
      if buffer.slot ∈ seen then
        .error (.invalidSpec s!"duplicate static buffer slot {buffer.slot}")
      else
        match specOf specs buffer.slot with
        | none =>
            .error (.invalidSpec
              s!"static buffer slot {buffer.slot} is not declared in pipeline")
        | some spec =>
            if spec.elementKind ≠ buffer.data.kind then
              .error (.invalidSpec s!"static buffer slot {buffer.slot} has wrong element kind")
            else validateStatics specs (buffer.slot :: seen) rest

/-- The check of one binding of a kernel. -/
def validateBinding (specs : List BufferSpec) (stage kernel : ℕ) (binding : BufferBinding) :
    BraidResult Unit :=
  if (specOf specs binding.slot).isSome then .ok ()
  else .error (.invalidSpec
    s!"stage {stage} kernel {kernel} references undeclared buffer slot {binding.slot}")

/-- The loops of `validate` over the kernels of all stages. -/
def validateStages (specs : List BufferSpec) (stages : List StageSpec) : BraidResult Unit :=
  stages.zipIdx.forM fun (stage, i) =>
    stage.kernels.zipIdx.forM fun (kernel, k) =>
      kernel.bindings.forM (validateBinding specs i k)

/-- `CompiledPlan::validate`: slot declarations, static buffers, and kernel bindings. -/
def CompiledPlan.validate (plan : CompiledPlan M) : BraidResult Unit := do
  let specs ← plan.specsBySlot
  validateStatics specs [] plan.staticBuffers
  validateStages specs plan.pipeline.stages

/-! ### What validation says -/

/-- A loop over a list returns `Ok` if its body does for every element. -/
theorem forM_ok_iff {α : Type} {f : α → BraidResult Unit} {l : List α} :
    l.forM f = .ok () ↔ ∀ a ∈ l, f a = .ok () := by
  induction l with
  | nil => simp [pure, Except.pure]
  | cons a l ih =>
      rw [List.forall_mem_cons, ← ih, List.forM]
      cases h : f a with
      | ok u => simp [bind, Except.bind]
      | error e => simp [bind, Except.bind]

/-- A slot is declared when some declaration is of it. -/
theorem specOf_isSome {specs : List BufferSpec} {slot : BufferSlot} :
    (specOf specs slot).isSome = true ↔ ∃ spec ∈ specs, spec.slot = slot := by
  simp [specOf]

/-- The declaration of a slot, in a table without duplicates. -/
theorem specOf_eq_some {specs : List BufferSpec} (hnodup : (specs.map (·.slot)).Nodup)
    {slot : BufferSlot} {spec : BufferSpec} :
    specOf specs slot = some spec ↔ spec ∈ specs ∧ spec.slot = slot := by
  constructor
  · intro h
    exact ⟨List.mem_of_find?_eq_some h, by simpa using List.find?_some h⟩
  · rintro ⟨hspec, rfl⟩
    obtain ⟨found, hfound⟩ := Option.isSome_iff_exists.mp (specOf_isSome.mpr ⟨spec, hspec, rfl⟩)
    have hslot : found.slot = spec.slot := by simpa using List.find?_some hfound
    rw [hfound, List.inj_on_of_nodup_map hnodup (List.mem_of_find?_eq_some hfound) hspec hslot]

/-- **The table of slots** is the list of declarations if there are no duplicates, and there is
no table otherwise. -/
theorem insertSpecs_ok_iff {specs rest table : List BufferSpec}
    (hnodup : (specs.map (·.slot)).Nodup) :
    insertSpecs specs rest = .ok table ↔
      ((specs ++ rest).map (·.slot)).Nodup ∧ specs ++ rest = table := by
  induction rest generalizing specs with
  | nil => simp [insertSpecs, hnodup]
  | cons spec rest ih =>
      rw [insertSpecs]
      split
      · next hdup =>
          obtain ⟨old, hold, hslot⟩ := specOf_isSome.mp hdup
          refine iff_of_false (by simp) fun hall => ?_
          obtain ⟨hall, -⟩ := hall
          rw [List.map_append, List.nodup_append] at hall
          exact hall.2.2 old.slot (List.mem_map_of_mem hold) spec.slot (by simp) hslot
      · next hnew =>
          have hnodup' : ((specs ++ [spec]).map (·.slot)).Nodup := by
            rw [List.map_append, List.nodup_append]
            refine ⟨hnodup, by simp, ?_⟩
            rintro slot hslot slot' hslot' rfl
            obtain rfl : slot = spec.slot := by simpa using hslot'
            exact hnew (specOf_isSome.mpr (List.mem_map.mp hslot))
          rw [ih hnodup', List.append_assoc, List.singleton_append]

/-- **The static buffers that validation accepts**: their slots are distinct, and are declared
with their kinds. -/
theorem validateStatics_ok_iff {specs : List BufferSpec} {seen : List BufferSlot}
    {statics : List StaticBuffer} :
    validateStatics specs seen statics = .ok () ↔
      (statics.map (·.slot)).Nodup ∧ (∀ b ∈ statics, b.slot ∉ seen) ∧
        ∀ b ∈ statics, ∃ spec, specOf specs b.slot = some spec ∧
          spec.elementKind = b.data.kind := by
  induction statics generalizing seen with
  | nil => simp [validateStatics]
  | cons buffer rest ih =>
      rw [validateStatics, List.map_cons, List.nodup_cons, List.forall_mem_cons,
        List.forall_mem_cons]
      by_cases hseen : buffer.slot ∈ seen
      · simp [hseen]
      · cases hspec : specOf specs buffer.slot with
        | none => simp [hseen]
        | some spec =>
            by_cases hkind : spec.elementKind = buffer.data.kind
            · have hnot : (∀ b ∈ rest, b.slot ∉ buffer.slot :: seen) ↔
                  buffer.slot ∉ rest.map (·.slot) ∧ ∀ b ∈ rest, b.slot ∉ seen := by
                simp only [List.mem_cons, not_or, List.mem_map, not_exists, not_and]
                exact ⟨fun h => ⟨fun b hb => (h b hb).1, fun b hb => (h b hb).2⟩,
                  fun h b hb => ⟨h.1 b hb, h.2 b hb⟩⟩
              simp only [hseen, hkind, ne_eq, not_true_eq_false, if_false, ih, hnot,
                not_false_eq_true, true_and, Option.some.injEq, exists_eq_left']
              tauto
            · simp [hseen, hkind]

/-- A property of all elements of an enumerated list. -/
theorem forall_mem_zipIdx {α : Type} {l : List α} {P : α → Prop} :
    (∀ a ∈ l.zipIdx, P a.1) ↔ ∀ a ∈ l, P a := by
  rw [← List.forall_mem_map, List.zipIdx_map_fst]

/-- **The bindings that validation accepts** name declared slots. -/
theorem validateStages_ok_iff {specs : List BufferSpec} {stages : List StageSpec} :
    validateStages specs stages = .ok () ↔
      ∀ stage ∈ stages, ∀ kernel ∈ stage.kernels, ∀ binding ∈ kernel.bindings,
        ∃ spec ∈ specs, spec.slot = binding.slot := by
  have hbinding : ∀ (i k : ℕ) (binding : BufferBinding),
      validateBinding specs i k binding = .ok () ↔ ∃ spec ∈ specs, spec.slot = binding.slot := by
    intro i k binding
    rw [← specOf_isSome, validateBinding]
    split <;> simp_all
  simp only [validateStages, forM_ok_iff, hbinding]
  rw [forall_mem_zipIdx (P := fun stage : StageSpec => ∀ kernel ∈ stage.kernels.zipIdx,
    ∀ binding ∈ kernel.1.bindings, ∃ spec ∈ specs, spec.slot = binding.slot)]
  refine forall₂_congr fun stage _ => ?_
  exact forall_mem_zipIdx (P := fun kernel : KernelSpec =>
    ∀ binding ∈ kernel.bindings, ∃ spec ∈ specs, spec.slot = binding.slot)

/-- A plan whose slots are declared, each once, with the kinds of its static data. -/
structure CompiledPlan.Declared (plan : CompiledPlan M) : Prop where
  /-- The declared slots are distinct. -/
  buffers : (plan.pipeline.buffers.map (·.slot)).Nodup
  /-- The static slots are distinct. -/
  statics : (plan.staticBuffers.map (·.slot)).Nodup
  /-- Each static slot is declared with the kind of its data. -/
  kinds : ∀ buffer ∈ plan.staticBuffers, ∃ spec ∈ plan.pipeline.buffers,
    spec.slot = buffer.slot ∧ spec.elementKind = buffer.data.kind
  /-- Each binding of each kernel of each stage names a declared slot. -/
  bindings : ∀ stage ∈ plan.pipeline.stages, ∀ kernel ∈ stage.kernels,
    ∀ binding ∈ kernel.bindings, ∃ spec ∈ plan.pipeline.buffers, spec.slot = binding.slot

/-- **What validation accepts.** -/
theorem CompiledPlan.validate_ok_iff {plan : CompiledPlan M} :
    plan.validate = .ok () ↔ plan.Declared := by
  have htable : ∀ table, plan.specsBySlot = .ok table ↔
      (plan.pipeline.buffers.map (·.slot)).Nodup ∧ plan.pipeline.buffers = table :=
    fun table => insertSpecs_ok_iff List.nodup_nil
  have hkinds : (plan.pipeline.buffers.map (·.slot)).Nodup → ∀ buffer : StaticBuffer,
      (∃ spec, specOf plan.pipeline.buffers buffer.slot = some spec ∧
        spec.elementKind = buffer.data.kind) ↔
      ∃ spec ∈ plan.pipeline.buffers,
        spec.slot = buffer.slot ∧ spec.elementKind = buffer.data.kind := by
    intro hnodup buffer
    simp only [specOf_eq_some hnodup, and_assoc]
  rw [validate]
  cases hspecs : plan.specsBySlot with
  | error e =>
      refine iff_of_false (by simp [bind, Except.bind]) fun h => ?_
      simp [(htable _).mpr ⟨h.buffers, rfl⟩] at hspecs
  | ok specs =>
      obtain ⟨hbuffers, rfl⟩ := (htable specs).mp hspecs
      cases hstatics : validateStatics plan.pipeline.buffers [] plan.staticBuffers with
      | error e =>
          refine iff_of_false (by simp [bind, Except.bind, hstatics]) fun h => ?_
          have hok := validateStatics_ok_iff.mpr ⟨h.statics,
            fun _ _ => List.not_mem_nil,
            fun buffer hbuffer => (hkinds hbuffers buffer).mpr (h.kinds buffer hbuffer)⟩
          simp [hok] at hstatics
      | ok u =>
          obtain ⟨hnodup, -, hdeclared⟩ := validateStatics_ok_iff.mp hstatics
          simp only [bind, Except.bind, hstatics, validateStages_ok_iff]
          exact ⟨fun hstages => ⟨hbuffers, hnodup,
            fun buffer hbuffer => (hkinds hbuffers buffer).mp (hdeclared buffer hbuffer), hstages⟩,
            fun h => h.bindings⟩

/-- What a valid plan declares about its static buffers. -/
theorem CompiledPlan.validate_statics {plan : CompiledPlan M} (h : plan.validate = .ok ()) :
    (plan.staticBuffers.map (·.slot)).Nodup ∧
      ∀ b ∈ plan.staticBuffers, ∃ spec, specOf plan.pipeline.buffers b.slot = some spec ∧
        spec.elementKind = b.data.kind := by
  have hdeclared := validate_ok_iff.mp h
  refine ⟨hdeclared.statics, fun b hb => ?_⟩
  obtain ⟨spec, hspec, hslot, hkind⟩ := hdeclared.kinds b hb
  exact ⟨spec, (specOf_eq_some hdeclared.buffers).mpr ⟨hspec, hslot⟩, hkind⟩

end Validate

end Braids
