import Mathlib.Algebra.BigOperators.Group.List.Basic
import Mathlib.Algebra.Order.BigOperators.Group.List
import Mathlib.Algebra.Order.Ring.Nat

/-!
# Counting over the Stacks of a Set of Threads

The state of a set of threads is a list of call stacks. Invariants of such a state often
say that a shared counter is the number of frames of some kind, so this module counts:
`census w threads` is the sum of the weight `w` over all frames of all threads. A step
changes the top of one stack; `census_split` and `census_replace` write the census before
and after it over the same remainder.
-/

namespace Census

variable {F M : Type*} [AddCommMonoid M]

/-- The weight of one stack. -/
def weight (w : F → M) (stack : List F) : M := (stack.map w).sum

@[simp] theorem weight_nil (w : F → M) : weight w [] = 0 := rfl

@[simp] theorem weight_cons (w : F → M) (f : F) (stack : List F) :
    weight w (f :: stack) = w f + weight w stack := by
  simp [weight]

@[simp] theorem weight_append (w : F → M) (st st' : List F) :
    weight w (st ++ st') = weight w st + weight w st' := by
  simp [weight]

/-- The total weight of the frames of all threads. -/
def census (w : F → M) (threads : List (List F)) : M := (threads.map (weight w)).sum

@[simp] theorem census_nil (w : F → M) : census w [] = 0 := rfl

@[simp] theorem census_cons (w : F → M) (st : List F) (threads : List (List F)) :
    census w (st :: threads) = weight w st + census w threads := by
  simp [census]

/-- A new thread adds the weight of its stack. -/
@[simp] theorem census_append (w : F → M) (threads : List (List F)) (st : List F) :
    census w (threads ++ [st]) = census w threads + weight w st := by
  simp [census]

/-- The census splits off the top `fs` of the stack of one thread. -/
theorem census_split (w : F → M) {threads : List (List F)} {i : ℕ} (fs rest : List F)
    (h : threads[i]? = some (fs ++ rest)) :
    census w threads = census w (threads.set i rest) + weight w fs := by
  induction threads generalizing i with
  | nil => simp at h
  | cons t ts ih =>
      cases i with
      | zero =>
          obtain rfl : t = fs ++ rest := by simpa using h
          rw [List.set_cons_zero, census_cons, census_cons, weight_append,
            add_comm (weight w fs), add_right_comm]
      | succ i =>
          have h' : ts[i]? = some (fs ++ rest) := by simpa using h
          rw [List.set_cons_succ, census_cons, census_cons, ih h', add_assoc]

/-- The census after the top of the stack of one thread was replaced. -/
theorem census_replace (w : F → M) {threads : List (List F)} {i : ℕ} {st : List F}
    (h : threads[i]? = some st) (fs rest : List F) :
    census w (threads.set i (fs ++ rest)) = census w (threads.set i rest) + weight w fs := by
  have hlt : i < threads.length := (List.getElem?_eq_some_iff.mp h).1
  have hset : (threads.set i (fs ++ rest))[i]? = some (fs ++ rest) := by simp [hlt]
  rw [census_split w fs rest hset, List.set_set]

/-- Replacing the whole stack of one thread. -/
theorem census_set (w : F → M) {threads : List (List F)} {i : ℕ} {st : List F}
    (h : threads[i]? = some st) (st' : List F) :
    census w (threads.set i st') + weight w st = census w threads + weight w st' := by
  have hnew := census_replace w h st' []
  rw [List.append_nil] at hnew
  have hold : census w threads = census w (threads.set i []) + weight w st :=
    census_split w st [] (by simpa using h)
  rw [hnew, hold, add_right_comm]

/-- A frame of a thread weighs at most the census. -/
theorem le_census {w : F → ℕ} {threads : List (List F)} {st : List F} {f : F}
    (hst : st ∈ threads) (hf : f ∈ st) : w f ≤ census w threads :=
  le_trans (List.single_le_sum (fun _ _ => Nat.zero_le _) _ (List.mem_map_of_mem hf))
    (List.single_le_sum (fun _ _ => Nat.zero_le _) _ (List.mem_map_of_mem hst))

/-- The census of a sum of two weights. -/
theorem census_add (w w' : F → M) (threads : List (List F)) :
    census (fun f => w f + w' f) threads = census w threads + census w' threads := by
  have hweight : ∀ st : List F,
      weight (fun f => w f + w' f) st = weight w st + weight w' st := by
    intro st
    induction st with
    | nil => simp
    | cons f st ih => rw [weight_cons, weight_cons, weight_cons, ih, add_add_add_comm]
  induction threads with
  | nil => simp
  | cons st ts ih => rw [census_cons, census_cons, census_cons, ih, hweight, add_add_add_comm]

/-- A larger weight has a larger census. -/
theorem census_mono {w w' : F → ℕ} (h : ∀ f, w f ≤ w' f) (threads : List (List F)) :
    census w threads ≤ census w' threads :=
  List.sum_le_sum fun _ _ => List.sum_le_sum fun f _ => h f

/-- The census is zero exactly when every frame weighs nothing. -/
theorem census_eq_zero_iff {w : F → ℕ} {threads : List (List F)} :
    census w threads = 0 ↔ ∀ st ∈ threads, ∀ f ∈ st, w f = 0 := by
  simp [census, weight, List.sum_eq_zero_iff]

/-- A positive census has a frame with positive weight. -/
theorem exists_of_census_pos {w : F → ℕ} {threads : List (List F)}
    (h : 0 < census w threads) : ∃ st ∈ threads, ∃ f ∈ st, 0 < w f := by
  by_contra hc
  push Not at hc
  exact absurd (census_eq_zero_iff.mpr fun st hst f hf => Nat.le_zero.mp (hc st hst f hf))
    (Nat.pos_iff_ne_zero.mp h)

/-! ### Counting threads -/

/-- Distinct threads that weigh something are no more than the census. -/
theorem length_le_census {w : F → ℕ} {is : List ℕ} {threads : List (List F)} (hnd : is.Nodup)
    (h : ∀ i ∈ is, ∃ st, threads[i]? = some st ∧ 0 < weight w st) :
    is.length ≤ census w threads := by
  induction is generalizing threads with
  | nil => simp
  | cons i is ih =>
      obtain ⟨st, hst, hw⟩ := h i List.mem_cons_self
      obtain ⟨hi, hnd⟩ := List.nodup_cons.mp hnd
      -- count the others after the stack of thread `i` is emptied
      have hothers : is.length ≤ census w (threads.set i []) := by
        refine ih hnd fun j hj => ?_
        have hne : i ≠ j := by
          rintro rfl
          exact hi hj
        rw [List.getElem?_set_ne hne]
        exact h j (List.mem_cons_of_mem _ hj)
      have hsplit := census_split w st [] (by simpa using hst)
      rw [List.length_cons]
      omega

/-- When more weight is there than threads listed, some thread with weight is not listed. -/
theorem exists_not_mem_of_length_lt {w : F → ℕ} (is : List ℕ) {threads : List (List F)}
    (h1 : ∀ st ∈ threads, weight w st ≤ 1) (h : is.length < census w threads) :
    ∃ i st, threads[i]? = some st ∧ 0 < weight w st ∧ i ∉ is := by
  induction is generalizing threads with
  | nil =>
      obtain ⟨st, hst, f, hf, hw⟩ := exists_of_census_pos h
      obtain ⟨i, hi⟩ := List.getElem?_of_mem hst
      exact ⟨i, st, hi, hw.trans_le (List.single_le_sum (fun _ _ => Nat.zero_le _) _
        (List.mem_map_of_mem hf)), by simp⟩
  | cons i is ih =>
      have hset : is.length < census w (threads.set i []) := by
        cases hi : threads[i]? with
        | none =>
            rw [List.set_eq_of_length_le (List.getElem?_eq_none_iff.mp hi)]
            rw [List.length_cons] at h
            omega
        | some st =>
            have hsplit := census_split w st [] (by simpa using hi)
            have hst := h1 st (List.mem_of_getElem? hi)
            rw [List.length_cons] at h
            omega
      have h1' : ∀ st ∈ threads.set i [], weight w st ≤ 1 := by
        intro st hst
        rcases List.mem_or_eq_of_mem_set hst with hst | rfl
        · exact h1 st hst
        · simp
      obtain ⟨j, st, hj, hw, hnot⟩ := ih h1' hset
      have hne : i ≠ j := by
        rintro rfl
        have hlt := (List.getElem?_eq_some_iff.mp hj).1
        obtain rfl : [] = st := by simpa [List.length_set ▸ hlt] using hj
        simp at hw
      rw [List.getElem?_set_ne hne] at hj
      exact ⟨j, st, hj, hw, by simp [hne.symm, hnot]⟩

end Census
