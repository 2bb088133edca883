import Braids.Executor.Lanes

/-!
# The Stacks of Workers and the Wait Set of the Queue

A thread runs at most one `worker_loop`, and its frame lies at the bottom of the stack;
between locking the queue and leaving it there is nothing above. Whoever is listed in the
wait set of the queue condition variable is therefore exactly at `wake.wait`.

## Main results

* `workerStack`: the shape of every stack in every reachable state.
* `parked_of_mem_wake`: who is listed in the wait set is parked.
* `wake_le_parked`: the wait set is no longer than the number of parked workers.
-/

namespace Braids

open Census

variable {σ κ τ ν : Type}

namespace Frame

/-- The frame belongs to `worker_loop`. -/
def worker : Frame κ τ ν → ℕ
  | .workerLock | .workerPop | .workerLoad | .workerWait | .workerParked => 1
  | _ => 0

/-- The frame is inside `wake.wait`. -/
def parked : Frame κ τ ν → ℕ
  | .workerParked => 1
  | _ => 0

end Frame

attribute [simp] Frame.worker Frame.parked

/-! ### The shape of stacks -/

/-- The shape of every stack, by where its `worker_loop` is. -/
inductive WorkerStack : List (Frame κ τ ν) → Prop
  /-- No `worker_loop` at all, or it has returned. -/
  | none {st : List (Frame κ τ ν)} (h : weight Frame.worker st = 0) : WorkerStack st
  /-- A task runs on top, or the loop is about to lock the queue. -/
  | outside (fs : List (Frame κ τ ν)) (h : weight Frame.worker fs = 0) :
      WorkerStack (fs ++ [.workerLock])
  | pop : WorkerStack [.workerPop]
  | load : WorkerStack [.workerLoad]
  | wait : WorkerStack [.workerWait]
  | parked : WorkerStack [.workerParked]

section Shape

variable {C : Client σ κ τ ν} {sh sh' : Shared σ τ} {w : ℕ} {e : ThreadId → Bool}
  {i : ThreadId} {f : Frame κ τ ν} {fs rest : List (Frame κ τ ν)}

/-- Only `worker_loop` itself makes frames of `worker_loop`. -/
theorem FrameStep.worker_eq_zero (h : FrameStep C sh w e i f sh' fs) (hf : f.worker = 0) :
    weight Frame.worker fs = 0 := by
  cases h with
  | @client code choice mem act => cases act <;> simp [callFrames]
  | @submitRefused task => cases task <;> simp [refuse]
  | lock | popPlain | popWrapped | popEmpty | load | wait | relock => simp at hf
  | _ => simp

/-- Returning an outcome makes no frames of `worker_loop`. -/
theorem Frame.worker_resume (hf : f.worker = 0) (o : Outcome τ) :
    weight Frame.worker (f.resume C o) = 0 := by
  unfold Frame.resume
  split <;> simp_all

/-- The loop goes on after a task, or its thread unwinds. -/
theorem Frame.resume_workerLock (o : Outcome τ) :
    Frame.workerLock.resume C o = [] ∨ Frame.workerLock.resume C o = [.workerLock] := by
  rcases o with (_ | _ | _) | _ <;> simp [Frame.resume]

/-- A step of the top frame keeps the shape of its stack. -/
theorem FrameStep.workerStack (h : FrameStep C sh w e i f sh' fs)
    (hst : WorkerStack (f :: rest)) : WorkerStack (fs ++ rest) := by
  generalize hs : f :: rest = st at hst
  cases hst with
  | none hz =>
      subst hs
      simp only [weight_cons, Nat.add_eq_zero_iff] at hz
      exact .none (by rw [weight_append, h.worker_eq_zero hz.1, hz.2])
  | outside fs₀ hz =>
      cases fs₀ with
      | nil =>
          simp only [List.nil_append, List.cons.injEq] at hs
          obtain ⟨rfl, rfl⟩ := hs
          cases h with
          | lock => exact .pop
      | cons g fs₀ =>
          simp only [List.cons_append, List.cons.injEq] at hs
          obtain ⟨rfl, rfl⟩ := hs
          simp only [weight_cons, Nat.add_eq_zero_iff] at hz
          rw [← List.append_assoc]
          exact .outside _ (by rw [weight_append, h.worker_eq_zero hz.1, hz.2])
  | pop =>
      simp only [List.cons.injEq] at hs
      obtain ⟨rfl, rfl⟩ := hs
      cases h with
      | @popPlain task queue hq => exact .outside [.client (C.run task)] (by simp)
      | @popWrapped b task queue hq =>
          exact .outside [.client (C.run task.closure), .finishLane b] (by simp)
      | popEmpty => exact .load
  | load =>
      simp only [List.cons.injEq] at hs
      obtain ⟨rfl, rfl⟩ := hs
      cases h with
      | exit => exact .none (by simp)
      | load => exact .wait
  | wait =>
      simp only [List.cons.injEq] at hs
      obtain ⟨rfl, rfl⟩ := hs
      cases h with
      | wait => exact .parked
  | parked =>
      simp only [List.cons.injEq] at hs
      obtain ⟨rfl, rfl⟩ := hs
      cases h with
      | relock => exact .pop

/-- Returning an outcome keeps the shape of its stack. -/
theorem WorkerStack.resume {o : Outcome τ} (hst : WorkerStack (.ret o :: f :: rest)) :
    WorkerStack (f.resume C o ++ rest) := by
  generalize hs : .ret o :: f :: rest = st at hst
  cases hst with
  | none hz =>
      subst hs
      simp only [weight_cons, Nat.add_eq_zero_iff] at hz
      exact .none (by rw [weight_append, Frame.worker_resume hz.2.1, hz.2.2])
  | outside fs₀ hz =>
      cases fs₀ with
      | nil => simp at hs
      | cons g fs₀ =>
          simp only [List.cons_append, List.cons.injEq] at hs
          obtain ⟨rfl, hs⟩ := hs
          cases fs₀ with
          | nil =>
              simp only [List.nil_append, List.cons.injEq] at hs
              obtain ⟨rfl, rfl⟩ := hs
              rcases Frame.resume_workerLock (C := C) o with hres | hres
              · rw [hres]
                exact .none (by simp)
              · rw [hres]
                exact .outside [] (by simp)
          | cons g fs₀ =>
              simp only [List.cons_append, List.cons.injEq] at hs
              obtain ⟨rfl, rfl⟩ := hs
              simp only [weight_cons, Nat.add_eq_zero_iff] at hz
              rw [← List.append_assoc]
              exact .outside _ (by rw [weight_append, Frame.worker_resume hz.2.1, hz.2.2])
  | pop | load | wait | parked => simp at hs

end Shape

/-- Every stack has a shape of `WorkerStack` in every reachable state. -/
theorem workerStack {C : Client σ κ τ ν} {mem : σ} {s : MachineState σ κ τ ν}
    (h : Lts.Reach (Started mem) (machineStep C) s) : ∀ st ∈ s.threads, WorkerStack st :=
  stack_invariant (.none (by simp)) (.outside [] (by simp)) (fun _ _ => .none (by simp))
    (fun _ _ _ hst => hst.resume) (fun hf hst => hf.workerStack hst) h

/-- A stack whose top frame is of `worker_loop` has nothing below. -/
theorem WorkerStack.worker_only {f : Frame κ τ ν} {rest : List (Frame κ τ ν)}
    (h : WorkerStack (f :: rest)) (hf : f.worker = 1) : rest = [] := by
  generalize hs : f :: rest = st at h
  cases h with
  | none hz =>
      subst hs
      rw [weight_cons, hf] at hz
      omega
  | outside fs hz =>
      cases fs with
      | nil => exact (List.cons.inj hs).2
      | cons g fs =>
          simp only [List.cons_append, List.cons.injEq] at hs
          obtain ⟨rfl, rfl⟩ := hs
          rw [weight_cons, hf] at hz
          omega
  | pop | load | wait | parked => exact (List.cons.inj hs).2

/-- A thread runs at most one `worker_loop`. -/
theorem WorkerStack.parked_le_one {st : List (Frame κ τ ν)} (h : WorkerStack st) :
    weight Frame.parked st ≤ 1 := by
  have hle : ∀ st : List (Frame κ τ ν), weight Frame.parked st ≤ weight Frame.worker st := by
    intro st
    refine List.sum_le_sum fun f _ => ?_
    cases f <;> simp
  cases h with
  | none hz => exact (hle _).trans (by omega)
  | outside fs hz => exact (hle _).trans (by simp [hz])
  | _ => simp

/-- A stack with a parked frame consists of it. -/
theorem WorkerStack.eq_parked {st : List (Frame κ τ ν)} (h : WorkerStack st)
    (hp : 0 < weight Frame.parked st) : st = [.workerParked] := by
  have hle : ∀ st : List (Frame κ τ ν), weight Frame.parked st ≤ weight Frame.worker st := by
    intro st
    refine List.sum_le_sum fun f _ => ?_
    cases f <;> simp
  cases h with
  | none hz =>
      have := hle st
      omega
  | outside fs hz =>
      have := hle fs
      simp at hp
      omega
  | parked => rfl
  | _ => simp at hp

/-! ### The wait set -/

/-- The threads that the wait set lists are distinct and parked. -/
structure WaitSetParked (s : MachineState σ κ τ ν) : Prop where
  nodup : s.shared.wake.Nodup
  parked : ∀ t ∈ s.shared.wake, s.threads[t]? = some [.workerParked]

/-- A step of a frame shortens the wait set or lists the thread itself. -/
theorem FrameStep.wake {C : Client σ κ τ ν} {sh sh' : Shared σ τ} {w : ℕ}
    {e : ThreadId → Bool} {i : ThreadId} {f : Frame κ τ ν} {fs : List (Frame κ τ ν)}
    (h : FrameStep C sh w e i f sh' fs) :
    sh'.wake.Sublist sh.wake ∨
      (f = .workerWait ∧ fs = [.workerParked] ∧ sh'.wake = sh.wake ++ [i]) := by
  cases h with
  | submitNotify c => exact .inl (List.eraseIdx_sublist _ _)
  | wakeAll => exact .inl (List.nil_sublist _)
  | wait => exact .inr ⟨rfl, rfl, rfl⟩
  | _ => exact .inl (by simp)

/-- A listed thread has no step: it waits to be taken off the list. -/
theorem FrameStep.not_mem_wake {C : Client σ κ τ ν} {sh sh' : Shared σ τ} {w : ℕ}
    {e : ThreadId → Bool} {i : ThreadId} {fs : List (Frame κ τ ν)}
    (h : FrameStep C sh w e i .workerParked sh' fs) : i ∉ sh.wake := by
  cases h with
  | relock hw => exact hw

/-- Who is listed in the wait set is parked, in every reachable state. -/
theorem waitSetParked {C : Client σ κ τ ν} {mem : σ} {s : MachineState σ κ τ ν}
    (h : Lts.Reach (Started mem) (machineStep C) s) : WaitSetParked s := by
  refine h.invariant ?_ ?_
  · rintro s ⟨n, rfl⟩
    constructor <;> simp [MachineState.start]
  · rintro s a s' hr ⟨hnd, hp⟩ - hs
    cases machineStep_cases hs with
    | @exit i c o hi =>
        refine ⟨hnd, fun t ht => ?_⟩
        have hne : i ≠ t := by
          rintro rfl
          simp [hp i ht] at hi
        simpa [List.getElem?_set_ne hne] using hp t ht
    | @resume i c o f rest hi =>
        refine ⟨hnd, fun t ht => ?_⟩
        have hne : i ≠ t := by
          rintro rfl
          simp [hp i ht] at hi
        simpa [List.getElem?_set_ne hne] using hp t ht
    | @frame i c f rest fs sh hi h =>
        have hi' : i ∉ s.shared.wake := by
          intro hmem
          have hst := (hp i hmem).symm.trans hi
          simp only [Option.some.injEq, List.cons.injEq] at hst
          obtain ⟨rfl, rfl⟩ := hst
          exact h.not_mem_wake hmem
        have hother : ∀ t ∈ s.shared.wake,
            (s.threads.set i (fs ++ rest))[t]? = some [.workerParked] := by
          intro t ht
          have hne : i ≠ t := by
            rintro rfl
            exact hi' ht
          rw [List.getElem?_set_ne hne]
          exact hp t ht
        rcases h.wake with hsub | ⟨rfl, rfl, hwake⟩
        · exact ⟨hnd.sublist hsub, fun t ht => hother t (hsub.subset ht)⟩
        · have hrest := (workerStack hr _ (List.mem_of_getElem? hi)).worker_only rfl
          subst hrest
          refine ⟨?_, fun t ht => ?_⟩
          · rw [hwake]
            exact List.nodup_append.mpr ⟨hnd, by simp, by
              rintro a ha b hb rfl
              exact hi' (List.mem_singleton.mp hb ▸ ha)⟩
          · rw [hwake] at ht
            rcases List.mem_append.mp ht with ht | ht
            · exact hother t ht
            · obtain rfl := List.mem_singleton.mp ht
              have hlt : t < s.threads.length := (List.getElem?_eq_some_iff.mp hi).1
              simp [hlt]
    | spawn =>
        refine ⟨hnd, fun t ht => ?_⟩
        have hlt : t < s.threads.length := (List.getElem?_eq_some_iff.mp (hp t ht)).1
        rw [List.getElem?_append_left hlt]
        exact hp t ht
    | register => exact ⟨hnd, hp⟩
    | spurious =>
        exact ⟨hnd.erase _, fun t ht => hp t (List.mem_of_mem_erase ht)⟩
    | release => exact ⟨hnd, hp⟩

/-- The wait set is no longer than the number of parked workers. -/
theorem WaitSetParked.length_le {s : MachineState σ κ τ ν} (h : WaitSetParked s) :
    s.shared.wake.length ≤ census Frame.parked s.threads :=
  length_le_census h.nodup fun t ht => ⟨_, h.parked t ht, by simp⟩

end Braids
