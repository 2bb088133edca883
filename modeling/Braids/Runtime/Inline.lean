import Braids.Runtime.Execution

/-!
# Inline Execution

The entry points of `stack.rs` that run a batch or a single query on the thread of their
caller: `resolve_inline`, `resolve_inline_with`, `dispatch_collect` and the family of
`resolve_one_inline`. The loops `execute_inline` and `execute_one_inline` differ in the three
hooks they call and are one definition here, `executeWith`.

## Conventions

* A call is modelled alone: nobody else works on the pool of contexts in between.
* `choice` resolves what else decides the result of a hook, by the number of the hook's call.
* A panic that is not caught unwinds to the caller. What the unwinding thread owns is gone; a
  context that the caller owns stays as the hook left it.

## Main results

* `executeWith_result`: an execution returns what its last hook makes of the packet that is
  ready.
* `readyPacket_invariant`: what encoding establishes and each stage keeps holds of that packet.
* `executeOneInline_defaults`: with the default hooks, the loop of one query is the loop of a
  batch of one.
-/

namespace Braids.Runtime

variable {T : Types}

/-- `InlineContext`. Its batch scratch is reset before a hook sees it. -/
structure InlineContext where
  packet : PacketData := .fresh
  cancel : Bool := false

/-- `InlineContext::reset`. -/
def InlineContext.reset (context : InlineContext) : InlineContext where
  packet := context.packet.clearForReuse
  cancel := false

/-! ### Hooks -/

/-- `PlannerBackend::encode_one`, unless a planner overrides it. -/
def Hooks.encodeOneDefault (H : Hooks T) (choice : ℕ) (plan : CompiledPlan T.PlannerMeta)
    (query : T.Query) (p : PacketData) : HookResult Unit × PacketData :=
  H.encodeBatch choice plan [query] p

/-- The only value of a batch of one. -/
def singleValue {α : Type} : List α → HookResult α
  | [value] => .ok value
  | _ => .err (.message "single-query decode returned unexpected batch size")

/-- `PlannerBackend::decode_one`, unless a planner overrides it. -/
def Hooks.decodeOneDefault (H : Hooks T) (choice : ℕ) (plan : CompiledPlan T.PlannerMeta)
    (p : PacketData) : HookResult T.Resolution :=
  H.decodeBatch choice plan p >>= singleValue

/-- The hooks of a planner and a backend, with those for a single query. -/
structure InlineHooks (T : Types) extends Hooks T where
  /-- `PlannerBackend::PREFER_DIRECT_ONE_QUERY_INLINE`. -/
  preferDirectOneQueryInline : Bool := false
  /-- `PlannerBackend::PREFER_ONE_QUERY_INLINE`. -/
  preferOneQueryInline : Bool := false
  /-- `PlannerBackend::encode_one`, with the packet after it. -/
  encodeOne : ℕ → CompiledPlan T.PlannerMeta → T.Query → PacketData →
    HookResult Unit × PacketData := toHooks.encodeOneDefault
  /-- `ComputeBackend::run_one_stage`, like `run_stage`. -/
  runOneStage : ℕ → T.Prepared → ℕ → StageSpec → PacketData → (cancel : Bool) →
    HookResult Unit × PacketData × Bool := toHooks.runStage
  /-- `PlannerBackend::decode_one`. -/
  decodeOne : ℕ → CompiledPlan T.PlannerMeta → PacketData → HookResult T.Resolution :=
    toHooks.decodeOneDefault
  /-- `PlannerBackend::resolve_one_direct`. -/
  resolveOneDirect : ℕ → CompiledPlan T.PlannerMeta → T.Query →
    Option (HookResult T.Resolution) := fun _ _ _ => none

/-- The hooks for a single query are the defaults of the traits. -/
structure InlineHooks.OneQueryDefaults (H : InlineHooks T) : Prop where
  encodeOne : H.encodeOne = H.encodeOneDefault
  runOneStage : H.runOneStage = H.runStage
  decodeOne : H.decodeOne = H.decodeOneDefault

/-! ### Calls with a context -/

/-- A call with an `&mut InlineContext`: its result, and the context after it. -/
def InlineM (α : Type) : Type := InlineContext → HookResult α × InlineContext

namespace InlineM

variable {α β : Type}

/-- Go on with the value, or return the error (`?`), or unwind. -/
def bind (m : InlineM α) (f : α → InlineM β) : InlineM β := fun context =>
  match m context with
  | (.ok value, context) => f value context
  | (.err error, context) => (.err error, context)
  | (.panicked, context) => (.panicked, context)

instance : Monad InlineM where
  pure value := fun context => (.ok value, context)
  bind := InlineM.bind

/-- What a call returns. -/
def result (m : InlineM α) (context : InlineContext) : HookResult α := (m context).1

/-- A call that leaves the context as it is. -/
def of (f : InlineContext → HookResult α) : InlineM α := fun context => (f context, context)

/-- A call of a hook that works on the packet. -/
def hook (f : PacketData → HookResult α × PacketData) : InlineM α := fun context =>
  let (result, packet) := f context.packet
  (result, { context with packet })

/-- `context.packet.clear_for_reuse()` before an error is returned. -/
def clearOnError (m : InlineM α) : InlineM α := fun context =>
  match m context with
  | (.err error, context) =>
      (.err error, { context with packet := context.packet.clearForReuse })
  | other => other

end InlineM

open InlineM

/-- `context.cancel.is_cancelled()`, with the early return. -/
def checkCancel : InlineM Unit := .of fun context =>
  if context.cancel then .err .cancelled else .ok ()

/-- `context.cancel.reset()`. -/
def resetCancel : InlineM Unit := fun context => (.ok (), { context with cancel := false })

/-- `validate_runtime_packet` of the packet of the context. -/
def Hooks.validate (H : Hooks T) (compiled : CompiledPlan T.PlannerMeta) : InlineM Unit :=
  .of fun context => .ofResult (H.validateRuntimePacket compiled context.packet)

/-- `catch_unwind` around an inline execution, which only debug builds have. -/
def Hooks.catchUnwind {α : Type} (H : Hooks T) (m : InlineM α) : InlineM α := fun context =>
  match m context with
  | (.panicked, context) =>
      if H.debugAssertions then (.err (.message "inline execution panicked"), context)
      else (.panicked, context)
  | other => other

/-! ### The loops -/

/-- The hooks that an execution calls, with their choices. -/
structure InlineSteps (α : Type) where
  encode : PacketData → HookResult Unit × PacketData
  runStage : ℕ → StageSpec → PacketData → (cancel : Bool) → HookResult Unit × PacketData × Bool
  decode : PacketData → HookResult α

/-- A call of `run_stage` or `run_one_stage`, which see the cancel flag of the context. -/
def runStageHook (f : PacketData → (cancel : Bool) → HookResult Unit × PacketData × Bool) :
    InlineM Unit := fun context =>
  let (result, packet, cancelled) := f context.packet context.cancel
  (result, { packet, cancel := context.cancel || cancelled })

/-- The loop of `run_all_stages` and `run_one_all_stages`, from the given stage on. -/
def runInlineStages (H : Hooks T) (compiled : CompiledPlan T.PlannerMeta)
    (run : ℕ → StageSpec → PacketData → (cancel : Bool) → HookResult Unit × PacketData × Bool) :
    ℕ → List StageSpec → InlineM Unit
  | _, [] => pure ()
  | index, stage :: stages => do
      checkCancel
      runStageHook (run index stage)
      H.validate compiled
      runInlineStages H compiled run (index + 1) stages

/-- The part of an execution that comes before the decoding. -/
def readyPacket {α : Type} (H : Hooks T) (version : Version T) (steps : InlineSteps α) :
    InlineM Unit := do
  checkCancel
  .hook fun packet => (.ok (), packet.start version.compiled.staticBuffers)
  .hook steps.encode
  H.validate version.compiled
  (runInlineStages H version.compiled steps.runStage 0 version.stages).clearOnError
  H.validate version.compiled

/-- `execute_inline` and `execute_one_inline`, with the hooks they call. -/
def executeWith {α : Type} (H : Hooks T) (version : Version T) (steps : InlineSteps α) :
    InlineM α := do
  readyPacket H version steps
  .of fun context => steps.decode context.packet

/-- The hooks of `execute_inline`. -/
def Hooks.batchSteps (H : Hooks T) (choice : ℕ → ℕ) (version : Version T)
    (queries : List T.Query) : InlineSteps (List T.Resolution) where
  encode := H.encodeBatch (choice 0) version.compiled queries
  runStage index := H.runStage (choice (index + 1)) version.prepared index
  decode := H.decodeBatch (choice (version.stages.length + 1)) version.compiled

/-- The hooks of `execute_one_inline`. -/
def InlineHooks.oneSteps (H : InlineHooks T) (choice : ℕ → ℕ) (version : Version T)
    (query : T.Query) : InlineSteps T.Resolution where
  encode := H.encodeOne (choice 0) version.compiled query
  runStage index := H.runOneStage (choice (index + 1)) version.prepared index
  decode := H.decodeOne (choice (version.stages.length + 1)) version.compiled

/-- `execute_inline`. -/
def executeInline (H : Hooks T) (choice : ℕ → ℕ) (version : Version T)
    (queries : List T.Query) : InlineM (List T.Resolution) :=
  executeWith H version (H.batchSteps choice version queries)

/-- `execute_one_inline`. -/
def executeOneInline (H : InlineHooks T) (choice : ℕ → ℕ) (version : Version T)
    (query : T.Query) : InlineM T.Resolution :=
  executeWith H.toHooks version (H.oneSteps choice version query)

/-- `execute_one_direct_inline`. -/
def executeOneDirectInline (H : InlineHooks T) (choice : ℕ → ℕ) (version : Version T)
    (query : T.Query) : InlineM T.Resolution := do
  checkCancel
  .of fun _ => (H.resolveOneDirect (choice 0) version.compiled query).getD
    (.err (.message "missing direct one-query planner path"))

/-! ### Entry points -/

/-- What an inline call uses of `StackInner`. -/
structure InlineMem (T : Types) where
  current : Version T
  currentPoisoned : Bool := false
  contexts : List InlineContext := []
  contextsPoisoned : Bool := false

namespace InlineMem

/-- Reading `current_version`. -/
def readVersion (mem : InlineMem T) : HookResult (Version T) :=
  if mem.currentPoisoned then .err (.poisoned "stack.current_version") else .ok mem.current

/-- The context that `ReusablePool::checkout` hands out. -/
def nextContext (mem : InlineMem T) : InlineContext := mem.contexts.headD {}

/-- A call with a context of the pool, which is reset before it is given back. -/
def withPooled {α : Type} (mem : InlineMem T) (m : InlineM α) : HookResult α × InlineMem T :=
  if mem.contextsPoisoned then (.err (.poisoned "stack.inline_context"), mem)
  else
    match m mem.nextContext with
    | (.panicked, _) => (.panicked, { mem with contexts := mem.contexts.tail })
    | (result, context) => (result, { mem with contexts := context.reset :: mem.contexts.tail })

end InlineMem

/-- Which execution runs a batch: a batch of one goes to the hooks for a single query if the
planner prefers that. -/
def executePreferred (H : InlineHooks T) (choice : ℕ → ℕ) (version : Version T)
    (queries : List T.Query) (batch : InlineM (List T.Resolution)) :
    InlineM (List T.Resolution) :=
  match H.preferDirectOneQueryInline, H.preferOneQueryInline, queries with
  | true, _, [query] => do
      let value ← H.catchUnwind (executeOneDirectInline H choice version query)
      return [value]
  | false, true, [query] => do
      let value ← H.catchUnwind (executeOneInline H choice version query)
      return [value]
  | _, _, _ => batch

/-- `resolve_inline_with`. -/
def resolveInlineWith (H : InlineHooks T) (choice : ℕ → ℕ) (mem : InlineMem T)
    (queries : List T.Query) : InlineM (List T.Resolution) := do
  let version ← .of fun _ => mem.readVersion
  resetCancel
  executePreferred H choice version queries
    (H.catchUnwind (executeInline H.toHooks choice version queries))

/-- `resolve_inline`. -/
def resolveInline (H : InlineHooks T) (choice : ℕ → ℕ) (mem : InlineMem T)
    (queries : List T.Query) : HookResult (List T.Resolution) × InlineMem T :=
  mem.withPooled (resolveInlineWith H choice mem queries)

/-- `dispatch_collect`, whose batches are not guarded by `catch_unwind`. -/
def dispatchCollect (H : InlineHooks T) (choice : ℕ → ℕ) (mem : InlineMem T)
    (queries : List T.Query) : HookResult (List T.Resolution) × InlineMem T :=
  match mem.readVersion with
  | .ok version => mem.withPooled do
      resetCancel
      executePreferred H choice version queries (executeInline H.toHooks choice version queries)
  | .err error => (.err error, mem)
  | .panicked => (.panicked, mem)

/-- `resolve_one_inline_ref_with`. -/
def resolveOneInlineRefWith (H : InlineHooks T) (choice : ℕ → ℕ) (mem : InlineMem T)
    (query : T.Query) : InlineM T.Resolution := do
  let version ← .of fun _ => mem.readVersion
  resetCancel
  if H.preferDirectOneQueryInline then
    H.catchUnwind (executeOneDirectInline H choice version query)
  else H.catchUnwind (executeOneInline H choice version query)

/-- `resolve_one_inline_with`. -/
def resolveOneInlineWith (H : InlineHooks T) (choice : ℕ → ℕ) (mem : InlineMem T)
    (query : T.Query) : InlineM T.Resolution :=
  resolveOneInlineRefWith H choice mem query

/-- `resolve_one_inline_ref`. -/
def resolveOneInlineRef (H : InlineHooks T) (choice : ℕ → ℕ) (mem : InlineMem T)
    (query : T.Query) : HookResult T.Resolution × InlineMem T :=
  mem.withPooled (resolveOneInlineRefWith H choice mem query)

/-- `resolve_one_inline`. -/
def resolveOneInline (H : InlineHooks T) (choice : ℕ → ℕ) (mem : InlineMem T)
    (query : T.Query) : HookResult T.Resolution × InlineMem T :=
  mem.withPooled (resolveOneInlineRefWith H choice mem query)

/-! ### What a call returns -/

namespace InlineM

variable {α β : Type}

/-- Going on after a call. -/
theorem run_bind (m : InlineM α) (f : α → InlineM β) (context : InlineContext) :
    (m >>= f) context = match m context with
      | (.ok value, context) => f value context
      | (.err error, context) => (.err error, context)
      | (.panicked, context) => (.panicked, context) := rfl

/-- Going on after a call that returned a value. -/
theorem run_bind_ok {m : InlineM α} {context context' : InlineContext} {value : α}
    (h : m context = (.ok value, context')) (f : α → InlineM β) :
    (m >>= f) context = f value context' := by
  rw [run_bind, h]

/-- A sequence returns only if both of its parts do. -/
theorem run_bind_eq_ok {m : InlineM α} {f : α → InlineM β} {value : β}
    {context context' : InlineContext} :
    (m >>= f) context = (.ok value, context') ↔
      ∃ first context₁, m context = (.ok first, context₁) ∧
        f first context₁ = (.ok value, context') := by
  rw [run_bind]
  rcases hm : m context with ⟨_ | _ | _, context₁⟩ <;> simp

/-- A call that returned a value has cleared nothing. -/
theorem clearOnError_eq_ok {m : InlineM α} {value : α} {context context' : InlineContext} :
    m.clearOnError context = (.ok value, context') ↔ m context = (.ok value, context') := by
  rw [clearOnError]
  rcases hm : m context with ⟨_ | _ | _, context₁⟩ <;> simp

/-- Three calls, one after the other. -/
theorem bind_assoc {γ : Type} (m : InlineM α) (f : α → InlineM β) (g : β → InlineM γ) :
    (m >>= f) >>= g = m >>= fun value => f value >>= g := by
  funext context
  rw [run_bind, run_bind, run_bind]
  cases hm : m context with
  | mk r context' => cases r <;> rfl

/-- What a call returns that starts by looking at the context. -/
theorem result_of_bind (f : InlineContext → HookResult α) (g : α → InlineM β)
    (context : InlineContext) :
    (.of f >>= g).result context = f context >>= fun value => (g value).result context := by
  rw [result, run_bind, of]
  cases f context <;> rfl

/-- What a call returns that starts with a hook. -/
theorem result_hook_bind (f : PacketData → HookResult α × PacketData) (g : α → InlineM β)
    (context : InlineContext) :
    (.hook f >>= g).result context = (f context.packet).1 >>= fun value =>
      (g value).result { context with packet := (f context.packet).2 } := by
  rw [result, run_bind, hook]
  cases hf : f context.packet with
  | mk r packet => cases r <;> rfl

/-- What a call returns that ends by looking at the context. -/
theorem result_bind_of (m : InlineM α) (f : α → InlineContext → HookResult β)
    (context : InlineContext) :
    (m >>= fun value => .of (f value)).result context =
      m.result context >>= fun value => f value (m context).2 := by
  rw [result, result, run_bind]
  cases hm : m context with
  | mk r context' => cases r <;> rfl

/-- Clearing the packet on an error changes no result. -/
theorem result_clearOnError_bind (m : InlineM α) (f : α → InlineM β) (context : InlineContext) :
    (m.clearOnError >>= f).result context = (m >>= f).result context := by
  rw [result, result, run_bind, run_bind, clearOnError]
  cases hm : m context with
  | mk r context' => cases r <;> rfl

end InlineM

/-- **What an execution returns**: what its last hook makes of the packet that is ready. -/
theorem executeWith_result {α : Type} (H : Hooks T) (version : Version T)
    (steps : InlineSteps α) (context : InlineContext) :
    (executeWith H version steps).result context =
      (readyPacket H version steps).result context >>= fun _ =>
        steps.decode ((readyPacket H version steps) context).2.packet :=
  InlineM.result_bind_of _ _ context

/-- What comes before the decoding does not depend on it. -/
theorem readyPacket_congr {α β : Type} {steps : InlineSteps α} {steps' : InlineSteps β}
    (hencode : steps.encode = steps'.encode) (hrun : steps.runStage = steps'.runStage)
    (H : Hooks T) (version : Version T) :
    readyPacket H version steps = readyPacket H version steps' := by
  rw [readyPacket, readyPacket, hencode, hrun]

/-- **With the default hooks, the loop of one query is the loop of a batch of one**, which
returns its only value. -/
theorem executeOneInline_defaults {H : InlineHooks T} (h : H.OneQueryDefaults) (choice : ℕ → ℕ)
    (version : Version T) (query : T.Query) (context : InlineContext) :
    (executeOneInline H choice version query).result context =
      (executeInline H.toHooks choice version [query]).result context >>= singleValue := by
  have hencode : (H.oneSteps choice version query).encode =
      (H.batchSteps choice version [query]).encode := by
    simp only [InlineHooks.oneSteps, h.encodeOne]
    rfl
  have hrun : (H.oneSteps choice version query).runStage =
      (H.batchSteps choice version [query]).runStage := by
    simp only [InlineHooks.oneSteps, h.runOneStage]
    rfl
  rw [executeOneInline, executeInline, executeWith_result, executeWith_result,
    readyPacket_congr hencode hrun]
  have hdecode : (H.oneSteps choice version query).decode = fun packet =>
      (H.batchSteps choice version [query]).decode packet >>= singleValue := by
    simp only [InlineHooks.oneSteps, Hooks.batchSteps, h.decodeOne]
    rfl
  rw [hdecode]
  cases (readyPacket H.toHooks version (H.batchSteps choice version [query])).result context <;> rfl

/-- What each stage keeps, all of them keep. -/
theorem runInlineStages_invariant {P : PacketData → Prop} {H : Hooks T}
    {compiled : CompiledPlan T.PlannerMeta}
    {run : ℕ → StageSpec → PacketData → (cancel : Bool) → HookResult Unit × PacketData × Bool}
    (hrun : ∀ index stage p cancel, P p → P (run index stage p cancel).2.1) {index : ℕ}
    {stages : List StageSpec} {context context' : InlineContext} (hp : P context.packet)
    (h : runInlineStages H compiled run index stages context = (.ok (), context')) :
    P context'.packet := by
  induction stages generalizing index context with
  | nil =>
      obtain rfl : context = context' := congrArg Prod.snd h
      exact hp
  | cons stage stages ih =>
      obtain ⟨_, context₁, hcheck, h⟩ := run_bind_eq_ok.mp h
      obtain rfl : context = context₁ := congrArg Prod.snd hcheck
      obtain ⟨_, context₂, hstage, h⟩ := run_bind_eq_ok.mp h
      obtain ⟨_, context₃, hvalid, h⟩ := run_bind_eq_ok.mp h
      obtain rfl : context₂ = context₃ := congrArg Prod.snd hvalid
      obtain rfl : _ = context₂ := congrArg Prod.snd hstage
      exact ih (hrun _ _ _ _ hp) h

/-- What encoding establishes and each stage keeps, the packet has that is decoded. -/
theorem readyPacket_invariant {α : Type} {P : PacketData → Prop} {H : Hooks T}
    {version : Version T} {steps : InlineSteps α}
    (hencode : ∀ p, (steps.encode p).1 = .ok () → P (steps.encode p).2)
    (hrun : ∀ index stage p cancel, P p → P (steps.runStage index stage p cancel).2.1)
    {context context' : InlineContext}
    (h : readyPacket H version steps context = (.ok (), context')) : P context'.packet := by
  obtain ⟨_, context₁, hcheck, h⟩ := run_bind_eq_ok.mp h
  obtain rfl : context = context₁ := congrArg Prod.snd hcheck
  obtain ⟨_, context₂, -, h⟩ := run_bind_eq_ok.mp h
  obtain ⟨_, context₃, hencoded, h⟩ := run_bind_eq_ok.mp h
  obtain ⟨_, context₄, hvalid, h⟩ := run_bind_eq_ok.mp h
  obtain rfl : context₃ = context₄ := congrArg Prod.snd hvalid
  obtain ⟨_, context₅, hstages, h⟩ := run_bind_eq_ok.mp h
  obtain rfl : context₅ = context' := congrArg Prod.snd h
  have hp : P context₃.packet := by
    obtain rfl : _ = context₃ := congrArg Prod.snd hencoded
    exact hencode _ (congrArg Prod.fst hencoded)
  exact runInlineStages_invariant hrun hp (clearOnError_eq_ok.mp hstages)

end Braids.Runtime
