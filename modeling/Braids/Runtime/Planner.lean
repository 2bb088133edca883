import Braids.Runtime.Execution

/-!
# The Planner State and the Current Version

The synchronous half of `stack.rs`: `apply`, `replace`, `recompile` and `update`, which work
on the planner state under its mutex, and `compile_from_state`, which compiles it and swaps
the new version in. `plannerStep` is one atomic step of such a call.

## Conventions

* The mutex around the planner state and the one around the planner scratch are held while
  hooks run, and the write guard of the current version spans two writes, so these three
  locks are explicit. A panic poisons the mutexes whose guards the call holds.
* `prepare_blocking` returns a value that the executor does not know about; it is kept in
  `results` under the number of the call until the caller picks it up.
* Ids are unbounded, where the source counts in 64 bits: `Mem.IdsFit` says that its counters
  have not wrapped around, and `ids_exact` what follows.
-/

namespace Braids.Runtime

variable {T : Types}

/-- What an update may change. -/
structure Snapshot (T : Types) where
  state : T.State
  current : Version T
  currentVersionId : ℕ

/-- A call of `recompile`, or of `update` with some changes. -/
structure Transaction (T : Types) where
  /-- The changes of an `update`. -/
  changes : Option (List T.Change)
  /-- The state to compile. -/
  next : T.State
  /-- Ghost: what there was when the call had locked the planner state. -/
  before : Snapshot T

/-- Ghost: a call of `recompile` or `update` that returned, without a panic. -/
structure Returned (T : Types) where
  call : Transaction T
  after : Snapshot T
  result : BraidResult ℕ

/-- The part of `StackInner` behind the planner state and the current version. -/
structure PlannerMem (T : Types) where
  state : T.State
  stateLock : MutexState := .free
  scratchLock : MutexState := .free
  computeScratchPoisoned : Bool := false
  preparedPoolPoisoned : Bool := false
  preparedPool : List T.Prepared := []
  /-- `current_version`, an `RwLock`: `versionLock` is its write side. -/
  current : Version T
  versionLock : MutexState := .free
  readers : ℕ := 0
  currentVersionId : ℕ := 1
  nextVersionId : ℕ := 2
  /-- What `prepare_blocking` returns, by the number of the call. -/
  results : ℕ → Option T.Prepared := fun _ => none
  /-- Ghost: the plans that `prepare_blocking` was called with, by the number of the call. -/
  asked : List (CompiledPlan T.PlannerMeta) := []
  /-- Ghost: the ids of the published versions. -/
  published : List ℕ := [1]
  /-- Ghost: the calls of `recompile` and `update` that have returned. -/
  returned : List (Returned T) := []
  /-- Ghost: a hook of the planner state, `compile` or `prepare` panicked. -/
  panicked : Bool := false

/-- What an update may change, as it is. -/
def PlannerMem.snapshot (m : PlannerMem T) : Snapshot T :=
  ⟨m.state, m.current, m.currentVersionId⟩

/-- The id that a call returned. -/
def Returned.id? (r : Returned T) : Option ℕ := r.result.toOption

/-- The ids that updates have returned. -/
def PlannerMem.returnedIds (m : PlannerMem T) : List ℕ := m.returned.filterMap Returned.id?

/-- The program points of `apply`, `replace`, `recompile`, `update` and
`compile_from_state`. -/
inductive PlannerCode (T : Types)
  /-- `apply`: lock the planner state. -/
  | apply (changes : List T.Change)
  | applyHook (changes : List T.Change)
  /-- `replace`: lock the planner state. -/
  | replace (spec : T.Spec)
  | replaceHook (spec : T.Spec)
  /-- `recompile`: lock the planner state. -/
  | recompile
  /-- `update`: lock the planner state. -/
  | update (changes : List T.Change)
  /-- `update`: inside `updated_state`. -/
  | updateHook (changes : List T.Change) (before : Snapshot T)
  /-- `compile_from_state`: lock the planner scratch. -/
  | scratch (call : Transaction T)
  /-- `compile_from_state`: inside `compile`, and validate the plan. -/
  | compileHook (call : Transaction T)
  /-- `compile_from_state`: check a compute scratch out. -/
  | computeScratch (call : Transaction T) (compiled : CompiledPlan T.PlannerMeta)
  /-- `compile_from_state`: pop a prepared state to reuse. -/
  | reuse (call : Transaction T) (compiled : CompiledPlan T.PlannerMeta)
  /-- `compile_from_state`: call `prepare_blocking`. -/
  | prepare (call : Transaction T) (compiled : CompiledPlan T.PlannerMeta)
      (reuse : Option T.Prepared)
  /-- `prepare_blocking`: inside `prepare`. -/
  | prepareHook (number : ℕ) (compiled : CompiledPlan T.PlannerMeta) (reuse : Option T.Prepared)
  /-- `compile_from_state`: inside `prepare_blocking`. -/
  | preparing (number : ℕ) (call : Transaction T) (compiled : CompiledPlan T.PlannerMeta)
  /-- `compile_from_state`: `prepare_blocking` has returned. -/
  | prepared (number : ℕ) (call : Transaction T) (compiled : CompiledPlan T.PlannerMeta)
      (result : CallResult)
  /-- `compile_from_state`: give the compute scratch back. -/
  | giveScratch (call : Transaction T) (compiled : CompiledPlan T.PlannerMeta)
      (prepared : T.Prepared)
  /-- `compile_from_state`: draw the version id. -/
  | drawId (call : Transaction T) (compiled : CompiledPlan T.PlannerMeta)
      (prepared : T.Prepared)
  /-- `compile_from_state`: lock the current version for writing. -/
  | writeLock (call : Transaction T) (version : Version T)
  /-- `compile_from_state`: swap the version in. -/
  | swap (call : Transaction T) (version : Version T)
  /-- `compile_from_state`: store the current version id. -/
  | storeId (call : Transaction T) (version : Version T)
  /-- `compile_from_state`: return, which drops the write guard. -/
  | unlock (call : Transaction T) (version : Version T)
  /-- `recompile` or `update`: store the next state and return `Ok`. -/
  | commit (call : Transaction T) (version : Version T)
  /-- `recompile` or `update`: return an error. -/
  | fail (call : Transaction T) (error : BraidError)

/-- The result of a hook as a caller of `Stack` sees it, without the value. -/
def callResult {α : Type} : HookResult α → CallResult
  | .ok _ => .ok
  | .err error => .err error
  | .panicked => .panicked

/-- The call is over: its guard of the planner state is dropped. -/
def PlannerMem.finish (m : PlannerMem T) (call : Transaction T) (result : BraidResult ℕ) :
    PlannerMem T :=
  { m with
    stateLock := .free
    returned := m.returned ++ [⟨call, m.snapshot, result⟩] }

/-- A panic unwinds through the guard of the planner state. -/
def PlannerMem.unwind (m : PlannerMem T) : PlannerMem T :=
  { m with stateLock := .poisoned, panicked := true }

/-- `Mutex::lock` on the planner state: go on at `next`, or return the error. -/
def PlannerMem.lockState (m : PlannerMem T) (next : PlannerCode T) :
    Option (PlannerMem T × ClientAct (PlannerCode T) JobTask) :=
  match m.stateLock with
  | .held => none
  | .poisoned => some (m, .ret (.err (.poisoned "stack.state")))
  | .free => some ({ m with stateLock := .held }, .goto next)

/-- One step of a call on backend `b`: the memory after it and what comes next. It is `none`
while the call is blocked; at `preparing` the call above it steps. -/
def plannerStep (H : Hooks T) (b : BackendId) (choice : ℕ) (m : PlannerMem T) :
    PlannerCode T → Option (PlannerMem T × ClientAct (PlannerCode T) JobTask)
  | .apply changes => m.lockState (.applyHook changes)
  | .applyHook changes =>
      match H.apply choice m.state changes with
      | (.panicked, state) => some ({ m with state }.unwind, .ret .panicked)
      | (result, state) => some ({ m with state, stateLock := .free }, .ret (callResult result))
  | .replace spec => m.lockState (.replaceHook spec)
  | .replaceHook spec =>
      match H.resetState choice m.state spec with
      | (.panicked, state) => some ({ m with state }.unwind, .ret .panicked)
      | (result, state) => some ({ m with state, stateLock := .free }, .ret (callResult result))
  | .recompile => m.lockState (.scratch ⟨none, m.state, m.snapshot⟩)
  | .update changes => m.lockState (.updateHook changes m.snapshot)
  | .updateHook changes before =>
      match H.updatedState choice m.state changes with
      | .ok next => some (m, .goto (.scratch ⟨some changes, next, before⟩))
      | .err error => some (m, .goto (.fail ⟨some changes, m.state, before⟩ error))
      | .panicked => some (m.unwind, .ret .panicked)
  | .scratch call =>
      match m.scratchLock with
      | .held => none
      | .poisoned => some (m, .goto (.fail call (.poisoned "stack.planner_scratch")))
      | .free => some ({ m with scratchLock := .held }, .goto (.compileHook call))
  | .compileHook call =>
      match H.compile choice call.next with
      | .panicked => some ({ m.unwind with scratchLock := .poisoned }, .ret .panicked)
      | .err error => some ({ m with scratchLock := .free }, .goto (.fail call error))
      | .ok compiled =>
          match compiled.validate with
          | .error error => some ({ m with scratchLock := .free }, .goto (.fail call error))
          | .ok _ => some ({ m with scratchLock := .free }, .goto (.computeScratch call compiled))
  | .computeScratch call compiled =>
      some (m, .goto (if m.computeScratchPoisoned then
        .fail call (.poisoned "stack.compute_scratch") else .reuse call compiled))
  | .reuse call compiled =>
      if m.preparedPoolPoisoned then
        some (m, .goto (.fail call (.poisoned "stack.prepared_pool")))
      else some ({ m with preparedPool := m.preparedPool.tail },
        .goto (.prepare call compiled m.preparedPool.head?))
  | .prepare call compiled reuse =>
      some ({ m with asked := m.asked ++ [compiled] },
        .prepare b (.prepareHook m.asked.length compiled reuse)
          (.preparing m.asked.length call compiled))
  | .prepareHook number compiled reuse =>
      match H.prepare choice compiled reuse with
      | .ok prepared =>
          some ({ m with results := Function.update m.results number (some prepared) }, .ret .ok)
      | .err error => some (m, .ret (.err error))
      | .panicked => some ({ m with panicked := true }, .ret .panicked)
  | .preparing _ _ _ => none
  | .prepared number call compiled result =>
      match result, m.results number with
      | .ok, some prepared => some (m, .goto (.giveScratch call compiled prepared))
      | .ok, none => none
      | .err error, _ => some (m, .goto (.fail call error))
      | .panicked, _ => some (m.unwind, .ret .panicked)
  | .giveScratch call compiled prepared =>
      some (m, .goto (if m.computeScratchPoisoned then
        .fail call (.poisoned "stack.compute_scratch") else .drawId call compiled prepared))
  | .drawId call compiled prepared =>
      some ({ m with nextVersionId := m.nextVersionId + 1 },
        .goto (.writeLock call ⟨m.nextVersionId, compiled, prepared⟩))
  | .writeLock call version =>
      match m.versionLock with
      | .held => none
      | .poisoned => some (m, .goto (.fail call (.poisoned "stack.current_version")))
      | .free =>
          if m.readers = 0 then some ({ m with versionLock := .held }, .goto (.swap call version))
          else none
  | .swap call version =>
      -- an even choice: nobody else holds the version that is swapped out
      let preparedPool :=
        if choice % 2 = 0 ∧ !m.preparedPoolPoisoned then m.current.prepared :: m.preparedPool
        else m.preparedPool
      some ({ m with
        current := version, preparedPool, published := m.published ++ [version.id] },
        .goto (.storeId call version))
  | .storeId call version =>
      some ({ m with currentVersionId := version.id }, .goto (.unlock call version))
  | .unlock call version => some ({ m with versionLock := .free }, .goto (.commit call version))
  | .commit call version =>
      let m := match call.changes with
        | some _ => { m with state := call.next }
        | none => m
      some (m.finish call (.ok version.id), .ret .ok)
  | .fail call error => some (m.finish call (.error error), .ret (.err error))

end Braids.Runtime
