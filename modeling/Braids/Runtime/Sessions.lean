import Braids.Runtime.Trace

/-!
# Sessions of Inline Calls

Inline calls of several threads. Each call works on a context that it owns, one of its caller or
one that it has checked out of the pool of the stack, with the version that it has read; other
threads may have published newer versions since. Contexts are recycled: what a call leaves in
its context, the next one finds there.

## Main results

* `InlineM.Keeps`: calls that keep a property of the packet, and their rules.
* `Session.Holds.step`: what such calls keep of all contexts, in the pool and elsewhere.
* `Session.Reached.holds`: the rule for contexts, over whole sessions.
-/

namespace Braids.Runtime

open InlineM

variable {T : Types}

/-! ### Calls that keep a property of the packet -/

namespace InlineM

variable {α β : Type} {I : PacketData → Prop}

/-- The call leaves a packet with the property if it finds one. -/
def Keeps (I : PacketData → Prop) (m : InlineM α) : Prop :=
  ∀ context, I context.packet → I (m context).2.packet

namespace Keeps

/-- A call that looks at the context. -/
theorem of (f : InlineContext → HookResult α) : (InlineM.of f).Keeps I := fun _ h => h

/-- A value. -/
protected theorem pure (value : α) : (pure value : InlineM α).Keeps I := fun _ h => h

/-- A hook. -/
theorem hook {f : PacketData → HookResult α × PacketData} (hf : ∀ p, I p → I (f p).2) :
    (InlineM.hook f).Keeps I := fun context h => hf context.packet h

/-- One call after another. -/
theorem bind {m : InlineM α} {f : α → InlineM β} (hm : m.Keeps I) (hf : ∀ a, (f a).Keeps I) :
    (m >>= f).Keeps I := by
  intro context h
  have hleft := hm context h
  rw [run_bind]
  generalize m context = r at hleft ⊢
  rcases r with ⟨_ | _ | _, context'⟩
  · exact hf _ _ hleft
  · exact hleft
  · exact hleft

/-- Clearing the packet on an error. -/
theorem clearOnError {m : InlineM α} (hm : m.Keeps I) (hclear : ∀ p, I p → I p.clearForReuse) :
    m.clearOnError.Keeps I := by
  intro context h
  have hleft := hm context h
  rw [InlineM.clearOnError]
  generalize m context = r at hleft ⊢
  rcases r with ⟨_ | _ | _, context'⟩
  · exact hleft
  · exact hclear _ hleft
  · exact hleft

/-- Catching a panic. -/
theorem catchUnwind {H : Hooks T} {m : InlineM α} (hm : m.Keeps I) : (H.catchUnwind m).Keeps I := by
  intro context h
  have hleft := hm context h
  rw [Hooks.catchUnwind]
  generalize m context = r at hleft ⊢
  rcases r with ⟨_ | _ | _, context'⟩
  · exact hleft
  · exact hleft
  · change I ((if H.debugAssertions then (.err (.message "inline execution panicked"), context')
      else (.panicked, context') : HookResult α × InlineContext)).2.packet
    split <;> exact hleft

end Keeps

end InlineM

/-- A property of packets that every call on them keeps, those for single queries included. -/
structure InlineRule (H : InlineHooks T) (V : Version T → Prop) (I : PacketData → Prop) : Prop
    extends PacketRule H.toHooks V I where
  encodeOne : ∀ version, V version → ∀ n query p, I p →
    I (H.encodeOne n version.compiled query p).2
  runOneStage : ∀ version, V version → ∀ n i stage p cancel, I p →
    I (H.runOneStage n version.prepared i stage p cancel).2.1

section Rule

variable {H : InlineHooks T} {V : Version T → Prop} {I : PacketData → Prop}
  {version : Version T}

/-- Stages that keep the property, one after another. -/
theorem keeps_runInlineStages {compiled : CompiledPlan T.PlannerMeta}
    {run : ℕ → StageSpec → PacketData → (cancel : Bool) → HookResult Unit × PacketData × Bool}
    (hrun : ∀ i stage p cancel, I p → I (run i stage p cancel).2.1) (i : ℕ)
    (stages : List StageSpec) : (runInlineStages H.toHooks compiled run i stages).Keeps I := by
  induction stages generalizing i with
  | nil => exact .pure ()
  | cons stage stages ih =>
      refine .bind (.of _) fun _ => .bind (fun context h => ?_) fun _ => .bind (.of _) fun _ =>
        ih (i + 1)
      exact hrun i stage context.packet context.cancel h

/-- An execution whose hooks keep the property. -/
theorem keeps_executeWith {α : Type} (rule : PacketRule H.toHooks V I) (hV : V version)
    {steps : InlineSteps α} (hencode : ∀ p, I p → I (steps.encode p).2)
    (hrun : ∀ i stage p cancel, I p → I (steps.runStage i stage p cancel).2.1) :
    (executeWith H.toHooks version steps).Keeps I := by
  refine .bind ?_ fun _ => .of _
  refine .bind (.of _) fun _ => .bind (.hook fun p hp => rule.start hV hp) fun _ =>
    .bind (.hook hencode) fun _ => .bind (.of _) fun _ => .bind ?_ fun _ => .of _
  exact .clearOnError (keeps_runInlineStages hrun 0 version.stages) rule.clear

variable (rule : InlineRule H V I) (hV : V version)
include rule hV

/-- `execute_inline`. -/
theorem InlineRule.executeInline (choice : ℕ → ℕ) (queries : List T.Query) :
    (executeInline H.toHooks choice version queries).Keeps I :=
  keeps_executeWith rule.toPacketRule hV (fun p => rule.encode version hV _ queries p)
    fun i stage p cancel => rule.runStage version hV _ i stage p cancel

/-- `execute_one_inline`. -/
theorem InlineRule.executeOneInline (choice : ℕ → ℕ) (query : T.Query) :
    (executeOneInline H choice version query).Keeps I :=
  keeps_executeWith rule.toPacketRule hV (fun p => rule.encodeOne version hV _ query p)
    fun i stage p cancel => rule.runOneStage version hV _ i stage p cancel

omit rule hV in
/-- `execute_one_direct_inline`. -/
theorem keeps_executeOneDirectInline (choice : ℕ → ℕ) (query : T.Query) :
    (executeOneDirectInline H choice version query).Keeps I :=
  .bind (.of _) fun _ => .of _

/-- The execution that the planner prefers. -/
theorem InlineRule.executePreferred (choice : ℕ → ℕ) (queries : List T.Query)
    {batch : InlineM (List T.Resolution)} (hbatch : batch.Keeps I) :
    (executePreferred H choice version queries batch).Keeps I := by
  rw [Runtime.executePreferred.eq_def]
  split
  · exact .bind (.catchUnwind (keeps_executeOneDirectInline choice _)) fun _ => .pure _
  · exact .bind (.catchUnwind (rule.executeOneInline hV choice _)) fun _ => .pure _
  · exact hbatch

end Rule

/-! ### Sessions -/

/-- What a thread runs on a context. -/
inductive InlineEntry (T : Types)
  /-- `resolve_inline_with`. -/
  | batch (queries : List T.Query)
  /-- `resolve_one_inline_ref_with`. -/
  | one (query : T.Query)
  /-- `dispatch_collect`, after the checkout. -/
  | collect (queries : List T.Query)

/-- The queries of a call. -/
def InlineEntry.queries : InlineEntry T → List T.Query
  | .batch queries | .collect queries => queries
  | .one query => [query]

/-- What the call does with its context. -/
def InlineEntry.run (H : InlineHooks T) (choice : ℕ → ℕ) (mem : InlineMem T) :
    InlineEntry T → InlineM (List T.Resolution)
  | .batch queries => resolveInlineWith H choice mem queries
  | .one query => do
      let value ← resolveOneInlineRefWith H choice mem query
      return [value]
  | .collect queries => do
      resetCancel
      executePreferred H choice mem.current queries
        (executeInline H.toHooks choice mem.current queries)

/-- `dispatch_collect` is a call with a context of the pool, and so is `resolve_inline`. -/
theorem dispatchCollect_eq (H : InlineHooks T) (choice : ℕ → ℕ) {mem : InlineMem T}
    (h : mem.Open) (queries : List T.Query) :
    dispatchCollect H choice mem queries =
      mem.withPooled ((InlineEntry.collect queries).run H choice mem) := by
  rw [dispatchCollect, InlineMem.readVersion, h.current, if_neg Bool.false_ne_true,
    InlineEntry.run]

/-- A stack, as inline calls use it, and the contexts that somebody owns. -/
structure Session (T : Types) where
  mem : InlineMem T
  owned : ℕ → Option InlineContext := fun _ => none

namespace Session

/-- The session with another context of owner `k`. -/
def own (s : Session T) (k : ℕ) (context : Option InlineContext) : Session T :=
  { s with owned := Function.update s.owned k context }

/-- The session with other contexts in the pool. -/
def pool (s : Session T) (contexts : List InlineContext) : Session T :=
  { s with mem := { s.mem with contexts } }

/-- The call has panicked, whether `catch_unwind` has caught the panic or not. -/
def Panicked {α : Type} (r : HookResult α) : Prop :=
  r = .panicked ∨ r = .err (.message "inline execution panicked")

/-- A step of some thread. The versions with property `V` are those that may be published, and the
packets with property `I` those that a hook may leave when it panics. -/
inductive Step (H : InlineHooks T) (V : Version T → Prop) (I : PacketData → Prop)
    (s : Session T) : Session T → Prop
  | publish {version : Version T} (h : V version) :
      Step H V I s { s with mem := { s.mem with current := version } }
  /-- A caller makes a context of its own. -/
  | create {k : ℕ} (h : s.owned k = none) : Step H V I s (s.own k (some {}))
  /-- A call checks a context out. -/
  | checkout {k : ℕ} (h : s.owned k = none) :
      Step H V I s ((s.pool s.mem.contexts.tail).own k (some s.mem.nextContext))
  /-- A call works on its context, with a version that it has read. -/
  | call {k : ℕ} {context : InlineContext} {version : Version T} (entry : InlineEntry T)
      (choice : ℕ → ℕ) (h : s.owned k = some context) (hV : V version)
      (hreturns : ¬ Panicked ((entry.run H choice { s.mem with current := version }) context).1) :
      Step H V I s (s.own k (some
        ((entry.run H choice { s.mem with current := version }) context).2))
  /-- A call panics, and its context holds what the hook has left of the packet. -/
  | panic {k : ℕ} {context left : InlineContext} {version : Version T} (entry : InlineEntry T)
      (choice : ℕ → ℕ) (h : s.owned k = some context) (hV : V version)
      (hpanic : Panicked ((entry.run H choice { s.mem with current := version }) context).1)
      (hleft : I left.packet) : Step H V I s (s.own k (some left))
  | giveBack {k : ℕ} {context : InlineContext} (h : s.owned k = some context) :
      Step H V I s ((s.pool (context.reset :: s.mem.contexts)).own k none)
  /-- A context is gone with its owner, which may be unwinding. -/
  | drop (k : ℕ) : Step H V I s (s.own k none)

/-- What any number of threads make of a new stack. -/
def Reached (H : InlineHooks T) (V : Version T → Prop) (I : PacketData → Prop) (s : Session T) :
    Prop :=
  ∃ first, V first ∧ Relation.ReflTransGen (Step H V I) { mem := { current := first } } s

/-- The property holds of every context, and all versions may be published. -/
structure Holds (V : Version T → Prop) (I : PacketData → Prop) (s : Session T) : Prop where
  current : V s.mem.current
  isOpen : s.mem.Open
  pool : ∀ context ∈ s.mem.contexts, I context.packet
  owned : ∀ k context, s.owned k = some context → I context.packet

variable {H : InlineHooks T} {V : Version T → Prop} {I : PacketData → Prop} {s s' : Session T}

/-- The context that is checked out next. -/
theorem Holds.next (rule : InlineRule H V I) (h : Holds V I s) : I s.mem.nextContext.packet := by
  rw [InlineMem.nextContext]
  cases hcontexts : s.mem.contexts with
  | nil => exact rule.fresh
  | cons context contexts => exact h.pool context (by rw [hcontexts]; exact List.mem_cons_self)

/-- Another context for an owner. -/
theorem Holds.own (h : Holds V I s) {k : ℕ} {context : Option InlineContext}
    (hcontext : ∀ c, context = some c → I c.packet) : Holds V I (s.own k context) := by
  refine ⟨h.current, h.isOpen, h.pool, fun i c hc => ?_⟩
  change Function.update s.owned k context i = some c at hc
  rw [Function.update_apply] at hc
  split at hc
  · exact hcontext c hc
  · exact h.owned i c hc

/-- What a call leaves. -/
theorem keeps_run (rule : InlineRule H V I) (choice : ℕ → ℕ) {mem : InlineMem T}
    (hV : V mem.current) (entry : InlineEntry T) : (entry.run H choice mem).Keeps I := by
  have hread : ∀ {α : Type} {f : Version T → InlineM α}, (f mem.current).Keeps I →
      (InlineM.of (fun _ => mem.readVersion) >>= f).Keeps I := by
    intro α f hf context hp
    rw [run_bind, InlineM.of, InlineMem.readVersion]
    split <;> rename_i heq <;> split at heq <;> cases heq
    · exact hf _ hp
    · exact hp
  have hreset : (resetCancel).Keeps I := fun _ hp => hp
  cases entry with
  | batch queries =>
      exact hread (.bind hreset fun _ => rule.executePreferred hV choice queries
        (.catchUnwind (rule.executeInline hV choice queries)))
  | one query =>
      refine .bind (hread (.bind hreset fun _ => ?_)) fun _ => .pure _
      split
      · exact .catchUnwind (keeps_executeOneDirectInline choice query)
      · exact .catchUnwind (rule.executeOneInline hV choice query)
  | collect queries =>
      exact .bind hreset fun _ => rule.executePreferred hV choice queries
        (rule.executeInline hV choice queries)

/-- **A step of any thread** keeps the property of all contexts. -/
theorem Holds.step (rule : InlineRule H V I) (h : Holds V I s) (hstep : Step H V I s s') :
    Holds V I s' := by
  cases hstep with
  | publish hV => exact ⟨hV, ⟨h.isOpen.current, h.isOpen.contexts⟩, h.pool, h.owned⟩
  | create => exact h.own (by rintro _ ⟨⟩; exact rule.fresh)
  | checkout =>
      have hpool : Holds V I (s.pool s.mem.contexts.tail) :=
        ⟨h.current, ⟨h.isOpen.current, h.isOpen.contexts⟩,
          fun c hc => h.pool c (List.mem_of_mem_tail hc), h.owned⟩
      exact hpool.own (by rintro _ ⟨⟩; exact h.next rule)
  | @call k context version entry choice hk hV =>
      refine h.own ?_
      rintro _ ⟨⟩
      exact keeps_run rule choice hV entry context (h.owned k context hk)
  | panic _ _ _ _ _ hleft => exact h.own (by rintro _ ⟨⟩; exact hleft)
  | @giveBack k context hk =>
      have hpool : Holds V I (s.pool (context.reset :: s.mem.contexts)) := by
        refine ⟨h.current, ⟨h.isOpen.current, h.isOpen.contexts⟩, fun c hc => ?_, h.owned⟩
        rcases List.mem_cons.mp hc with rfl | hc
        · exact rule.clear _ (h.owned k context hk)
        · exact h.pool c hc
      exact hpool.own (by simp)
  | drop => exact h.own (by simp)

/-- What one owns. -/
@[simp] theorem own_owned (s : Session T) (k : ℕ) (context : Option InlineContext) :
    (s.own k context).owned k = context := Function.update_self ..

/-- Owning a context for a while. -/
theorem own_own (s : Session T) (k : ℕ) (context context' : Option InlineContext) :
    (s.own k context).own k context' = s.own k context' := by
  simp [own]

/-- **The rule for contexts**, over whole sessions. -/
theorem Reached.holds (rule : InlineRule H V I) (h : Reached H V I s) : Holds V I s := by
  obtain ⟨first, hfirst, hsteps⟩ := h
  induction hsteps with
  | refl => exact ⟨hfirst, ⟨rfl, rfl⟩, by simp, by simp⟩
  | tail _ hstep ih => exact ih.step rule hstep

end Session

end Braids.Runtime
