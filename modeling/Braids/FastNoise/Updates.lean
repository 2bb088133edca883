import Braids.FastNoise.Hooks
import Braids.FastNoise.Schedule

/-!
# Updates of FastNoise Graphs

Which graphs `compile` takes, and what becomes of a stack that is updated to one that it does
not take. The compiler has no error path, so a bad graph is a panic, or a plan in which the
nodes on and behind a cycle are missing.

## Main results

* `Runs.update_panics`: an update whose compilation panics poisons the planner state.
* `compileGraph_eq_ok_iff`: when a graph without bad references compiles.
* `compile_total_iff`: which graphs are compiled or rejected, and never a panic.
-/

namespace Braids.Runtime

variable {T : Types} {H : Hooks T} {b : BackendId}

/-! ### Calls that nobody interrupts -/

/-- A call on the planner state runs from a program point to its end while no other thread
steps, on an executor that takes what it is given. -/
inductive Runs (H : Hooks T) (b : BackendId) :
    PlannerMem T → PlannerCode T → PlannerMem T → CallResult → Prop
  | goto {choice : ℕ} {m m₁ m' : PlannerMem T} {code next : PlannerCode T} {result : CallResult}
      (hstep : plannerStep H b choice m code = some (m₁, .goto next))
      (hrest : Runs H b m₁ next m' result) : Runs H b m code m' result
  | prepare {choice number : ℕ} {m m₁ m₂ m' : PlannerMem T} {code hook : PlannerCode T}
      {call : Transaction T} {compiled : CompiledPlan T.PlannerMeta} {prepared result : CallResult}
      (hstep : plannerStep H b choice m code =
        some (m₁, .prepare b hook (.preparing number call compiled)))
      (hhook : Runs H b m₁ hook m₂ prepared)
      (hrest : Runs H b m₂ (.prepared number call compiled prepared) m' result) :
      Runs H b m code m' result
  | ret {choice : ℕ} {m m' : PlannerMem T} {code : PlannerCode T} {result : CallResult}
      (hstep : plannerStep H b choice m code = some (m', .ret result)) : Runs H b m code m' result

namespace Runs

variable {m m₁ m' : PlannerMem T} {code next : PlannerCode T} {result result' : CallResult}

/-- A point with only one way to go on. -/
theorem goto_inv (h : Runs H b m code m' result)
    (hstep : ∀ choice, plannerStep H b choice m code = some (m₁, .goto next)) :
    Runs H b m₁ next m' result := by
  cases h with
  | goto hs hrest =>
      rw [hstep] at hs
      cases hs
      exact hrest
  | prepare hs _ _ =>
      rw [hstep] at hs
      cases hs
  | ret hs =>
      rw [hstep] at hs
      cases hs

/-- A point at which the call returns. -/
theorem ret_inv (h : Runs H b m code m' result)
    (hstep : ∀ choice, plannerStep H b choice m code = some (m₁, .ret result')) :
    m' = m₁ ∧ result = result' := by
  cases h with
  | goto hs _ =>
      rw [hstep] at hs
      cases hs
  | prepare hs _ _ =>
      rw [hstep] at hs
      cases hs
  | ret hs =>
      rw [hstep] at hs
      cases hs
      exact ⟨rfl, rfl⟩

/-- **An update whose compilation panics** unwinds through the guard of the planner state,
and no later update gets past the poisoned lock. -/
theorem update_panics {changes : List T.Change} {state : T.State}
    (h : Runs H b m (.update changes) m' result) (hlock : m.stateLock = .free)
    (hscratch : m.scratchLock = .free)
    (hupdated : ∀ choice, H.updatedState choice m.state changes = .ok state)
    (hcompile : ∀ choice, H.compile choice state = .panicked) :
    result = .panicked ∧ m'.stateLock = .poisoned ∧
      ∀ changes' m'' result', Runs H b m' (.update changes') m'' result' →
        result' = .err (.poisoned "stack.state") := by
  have hlocked : Runs H b { m with stateLock := .held } (.updateHook changes m.snapshot) m'
      result := h.goto_inv fun choice => by
    simp only [plannerStep, PlannerMem.lockState, hlock]
  have hnext : Runs H b { m with stateLock := .held }
      (.scratch ⟨some changes, state, m.snapshot⟩) m' result := hlocked.goto_inv fun choice => by
    simp only [plannerStep, hupdated]
  have hinside : Runs H b { m with stateLock := .held, scratchLock := .held }
      (.compileHook ⟨some changes, state, m.snapshot⟩) m' result := hnext.goto_inv fun choice => by
    simp only [plannerStep, hscratch]
  have hunwind :
      m' = { m with stateLock := .poisoned, scratchLock := .poisoned, panicked := true } ∧
      result = .panicked := hinside.ret_inv fun choice => by
    simp only [plannerStep, hcompile, PlannerMem.unwind]
  obtain ⟨rfl, rfl⟩ := hunwind
  exact ⟨rfl, rfl, fun changes' m'' result' hlater => (hlater.ret_inv fun choice => rfl).2⟩

end Runs

/-- The locks that a call on the planner state takes are free and not poisoned. -/
structure PlannerMem.Idle (m : PlannerMem T) : Prop where
  state : m.stateLock = .free
  scratch : m.scratchLock = .free
  computeScratch : m.computeScratchPoisoned = false
  preparedPool : m.preparedPoolPoisoned = false
  version : m.versionLock = .free
  readers : m.readers = 0

end Braids.Runtime

namespace Braids

open Braids.Runtime

/-! ### Graphs that compile -/

namespace FastNoiseState

/-- A reference that does not resolve, or more slots than there are from `SLOT_DYNAMIC_START`
on. -/
def Bad (state : FastNoiseState) : Prop :=
  ¬ state.WellFormed ∨ 2 ^ 16 < slotDynamicStart + state.slotCount

/-- **A graph without bad references compiles** unless the counter of slots overflows, which
it also does when the last slot is taken. -/
theorem compileGraph_eq_ok_iff {state : FastNoiseState} (h : state.WellFormed) (build : Build) :
    (∃ plan, compileGraph build state = .ok plan) ↔
      ¬ Overflows build (slotDynamicStart + state.slotCount) := by
  constructor
  · rintro ⟨plan, hplan⟩
    obtain ⟨c⟩ := compileGraph_eq_ok.mp hplan
    have hover := c.allocation.1
    rwa [Compilation.order, h.totalWidth_eq c.collectedDeps] at hover
  · exact compileGraph_ok h

end FastNoiseState

/-- Compiling a graph returns a plan or an error, and a bad graph is an error. An update to a
bad graph returns an error too and leaves the planner state as it was, for another update to
repair it. -/
structure CompileTotal (state : FastNoiseState) : Prop where
  returns : ∀ build, compileGraph build state ≠ .panicked
  rejects : state.Bad → ∀ build, ∃ error, compileGraph build state = .err error
  updates : state.Bad → ∀ (build : Build) (num : Numerics) (debugAssertions : Bool)
    (b : BackendId) (m m' : PlannerMem fastNoise) (changes : List FastNoiseChange)
    (result : CallResult), m.Idle → m.state.apply changes = .ok state →
      Runs (fastNoiseHooks build num debugAssertions).toHooks b m (.update changes) m' result →
        (∃ error, result = .err error) ∧ m'.stateLock = .free ∧ m'.state = m.state ∧
          ∀ (changes' : List FastNoiseChange) (state' : FastNoiseState) (m'' : PlannerMem fastNoise)
            (result' : CallResult), m'.state.apply changes' = .ok state' → ¬ state'.Bad →
              Runs (fastNoiseHooks build num debugAssertions).toHooks b m' (.update changes') m''
                result' → result' = .ok

/-- **Which graphs are compiled or rejected**: those that are not bad, except that no slot
may be left over. -/
theorem compile_total_iff (state : FastNoiseState) :
    CompileTotal state ↔ state.WellFormed ∧ slotDynamicStart + state.slotCount < 2 ^ 16 := by
  constructor
  · intro h
    have hbad : ¬ state.Bad := by
      intro hbad
      obtain ⟨error, herror⟩ := h.rejects hbad ⟨true⟩
      exact noErr_compileGraph ⟨true⟩ state error herror
    have hwf : state.WellFormed := by
      by_contra hwf
      exact hbad (.inl hwf)
    refine ⟨hwf, ?_⟩
    by_contra hle
    -- the counter overflows in a build with overflow checks
    have hover : Overflows ⟨true⟩ (slotDynamicStart + state.slotCount) :=
      ⟨rfl, Nat.le_of_not_lt hle⟩
    cases hcompile : compileGraph ⟨true⟩ state with
    | ok plan => exact (FastNoiseState.compileGraph_eq_ok_iff hwf ⟨true⟩).mp ⟨plan, hcompile⟩ hover
    | err error => exact noErr_compileGraph ⟨true⟩ state error hcompile
    | panicked => exact h.returns ⟨true⟩ hcompile
  · rintro ⟨hwf, hlt⟩
    have hgood : ¬ state.Bad := by
      rintro (hbad | hover)
      · exact hbad hwf
      · omega
    refine ⟨fun build hpanic => ?_, fun hbad => absurd hbad hgood, fun hbad => absurd hbad hgood⟩
    obtain ⟨plan, hplan⟩ := (FastNoiseState.compileGraph_eq_ok_iff hwf build).mpr
      fun hover => by have := hover.2; omega
    rw [hplan] at hpanic
    cases hpanic

/-- **A bad graph is never an error**: an update to one that the compiler does not take
poisons the planner state. -/
theorem update_to_bad_graph {build : Build} {num : Numerics} {debugAssertions : Bool}
    {b : BackendId} {m m' : PlannerMem fastNoise} {changes : List FastNoiseChange}
    {state : FastNoiseState} {result : CallResult} (hidle : m.Idle)
    (happly : m.state.apply changes = .ok state)
    (hcompile : ∀ plan, compileGraph build state ≠ .ok plan)
    (h : Runs (fastNoiseHooks build num debugAssertions).toHooks b m (.update changes) m' result) :
    result = .panicked ∧ m'.stateLock = .poisoned ∧ ∀ changes' m'' result',
      Runs (fastNoiseHooks build num debugAssertions).toHooks b m' (.update changes') m'' result' →
        result' = .err (.poisoned "stack.state") := by
  have hpanic : compileGraph build state = .panicked := by
    cases hresult : compileGraph build state with
    | ok plan => exact absurd hresult (hcompile plan)
    | err error => exact absurd hresult (noErr_compileGraph build state error)
    | panicked => rfl
  exact h.update_panics hidle.state hidle.scratch (fun _ => happly) fun _ => hpanic

/-- A planner state whose final field names no node. -/
def danglingField : FastNoiseState where
  dimension := .d2
  finalField := "field"
  nodes := {}
  nodeKeys _ := none

/-- The compiler panics on a final field that names no node. -/
theorem danglingField_not_total :
    FastNoiseState.Reachable danglingField ∧ compileGraph ⟨false⟩ danglingField = .panicked ∧
      ¬ CompileTotal danglingField := by
  have hspec : FastNoiseState.fromSpec ⟨.d2, [], "field"⟩ = .ok danglingField := rfl
  have hpanic : compileGraph ⟨false⟩ danglingField = .panicked := rfl
  exact ⟨.fromSpec hspec, hpanic, fun h => h.returns ⟨false⟩ hpanic⟩

end Braids
