import Mathlib.Data.List.Forall2
import Mathlib.Tactic.Common

/-!
# Dataflow Graphs

The meaning of a graph whose nodes compute values from those of the nodes that they refer
to. References may dangle and run in circles, so evaluation takes fuel and may fail.

## Main results

* `mapM_eq_some`: a list is mapped when each of its elements is.
* `exists_of_flatMap`: lists related to blocks are blocks.
* `eval_mono`: more fuel does not change a value.
* `eval_succ`: the value of a node from those of its references.
-/

namespace Dataflow

/-- Mapping a list succeeds when it does for every element. -/
theorem mapM_eq_some {α β : Type} {f : α → Option β} {l : List α} {bs : List β} :
    l.mapM f = some bs ↔ List.Forall₂ (fun a b => f a = some b) l bs := by
  induction l generalizing bs with
  | nil => simp [eq_comm]
  | cons a l ih =>
      rw [List.mapM_cons]
      constructor
      · intro h
        obtain ⟨b, hb, hrest⟩ := Option.bind_eq_some_iff.mp h
        obtain ⟨bs', hbs, heq⟩ := Option.bind_eq_some_iff.mp hrest
        obtain rfl : b :: bs' = bs := by simpa using heq
        exact .cons hb (ih.mp hbs)
      · rintro (_ | ⟨hb, hbs⟩)
        exact Option.bind_eq_some_iff.mpr ⟨_, hb,
          Option.bind_eq_some_iff.mpr ⟨_, ih.mpr hbs, rfl⟩⟩

/-- A list can be mapped when each of its elements can. -/
theorem exists_mapM {α β : Type} {f : α → Option β} {l : List α}
    (h : ∀ a ∈ l, ∃ b, f a = some b) : ∃ bs, l.mapM f = some bs := by
  induction l with
  | nil => exact ⟨[], rfl⟩
  | cons a l ih =>
      obtain ⟨b, hb⟩ := h a List.mem_cons_self
      obtain ⟨bs, hbs⟩ := ih fun x hx => h x (List.mem_cons_of_mem _ hx)
      exact ⟨b :: bs, mapM_eq_some.mpr (.cons hb (mapM_eq_some.mp hbs))⟩

section Pairs

variable {α β : Type} {r : α → β → Prop} {l : List α} {l' : List β}

/-- An element of the first list has its partner. -/
theorem exists_of_mem_left (h : List.Forall₂ r l l') {a : α} (ha : a ∈ l) : ∃ b ∈ l', r a b := by
  induction h with
  | nil => simp at ha
  | cons hr _ ih =>
      rcases List.mem_cons.mp ha with rfl | ha
      · exact ⟨_, List.mem_cons_self, hr⟩
      · obtain ⟨b, hb, hab⟩ := ih ha
        exact ⟨b, List.mem_cons_of_mem _ hb, hab⟩

/-- An element of the second list has its partner. -/
theorem exists_of_mem_right (h : List.Forall₂ r l l') {b : β} (hb : b ∈ l') :
    ∃ a ∈ l, r a b :=
  exists_of_mem_left h.flip hb

/-- Partners are distinct when no two elements share one. -/
theorem nodup_right (h : List.Forall₂ r l l') (hl : l.Nodup)
    (hinj : ∀ a ∈ l, ∀ a' ∈ l, ∀ b, r a b → r a' b → a = a') : l'.Nodup := by
  induction h with
  | nil => exact List.nodup_nil
  | @cons a b l l' hr hrest ih =>
      obtain ⟨hnew, hl⟩ := List.nodup_cons.mp hl
      refine List.nodup_cons.mpr ⟨fun hmem => ?_, ih hl fun x hx y hy => hinj x
        (List.mem_cons_of_mem a hx) y (List.mem_cons_of_mem a hy)⟩
      obtain ⟨a', ha', hr'⟩ := exists_of_mem_right hrest hmem
      exact hnew (hinj a List.mem_cons_self a' (List.mem_cons_of_mem a ha') b hr hr' ▸ ha')

/-- No two elements share a partner when partners are distinct. -/
theorem eq_of_nodup_right (h : List.Forall₂ r l l') (hl : l'.Nodup)
    (hfun : ∀ {a b b'}, r a b → r a b' → b = b') {a a' : α} (ha : a ∈ l) (ha' : a' ∈ l) {b : β}
    (hr : r a b) (hr' : r a' b) : a = a' := by
  obtain ⟨hlen, hget⟩ := List.forall₂_iff_get.mp h
  obtain ⟨i, hi, rfl⟩ := List.getElem_of_mem ha
  obtain ⟨j, hj, rfl⟩ := List.getElem_of_mem ha'
  have hilt : i < l'.length := hlen ▸ hi
  have hjlt : j < l'.length := hlen ▸ hj
  have hib : l'[i] = b := hfun (hget i hi hilt) hr
  have hjb : l'[j] = b := hfun (hget j hj hjlt) hr'
  have hij : i = j := (List.getElem_inj hl).mp (hib.trans hjb.symm)
  subst hij
  rfl

/-- Partners of blocks, one after another, are blocks of partners. -/
theorem exists_of_flatMap {γ : Type} {f : γ → List α} {cs : List γ}
    (h : List.Forall₂ r (cs.flatMap f) l') :
    ∃ ls, List.Forall₂ (fun c block => List.Forall₂ r (f c) block) cs ls ∧ ls.flatten = l' := by
  induction cs generalizing l' with
  | nil =>
      obtain rfl := List.forall₂_nil_left_iff.mp h
      exact ⟨[], .nil, rfl⟩
  | cons c cs ih =>
      rw [List.flatMap_cons] at h
      obtain ⟨ls, hls, hflatten⟩ := ih (List.forall₂_drop_append _ _ _ h.flip).flip
      have hblock := (List.forall₂_take_append _ _ _ h.flip).flip
      refine ⟨l'.take (f c).length :: ls, .cons hblock hls, ?_⟩
      rw [List.flatten_cons, hflatten, List.take_append_drop]

end Pairs

/-- A graph: what references stand for, the references of nodes, and what nodes compute
from the values of their references. -/
structure Graph (R N V : Type) where
  node : R → Option N
  references : N → List R
  compute : N → List V → Option V

namespace Graph

variable {R N V : Type} {g : Graph R N V}

/-- The value of a node, with references followed at most `fuel` times. -/
def eval (g : Graph R N V) : ℕ → N → Option V
  | 0, _ => none
  | fuel + 1, n =>
      ((g.references n).mapM fun r => (g.node r).bind (eval g fuel)).bind (g.compute n)

/-- **The value of a node** from those of its references. -/
theorem eval_succ {fuel : ℕ} {n : N} {v : V} :
    g.eval (fuel + 1) n = some v ↔
      ∃ args, List.Forall₂ (fun r a => ∃ m, g.node r = some m ∧ g.eval fuel m = some a)
        (g.references n) args ∧ g.compute n args = some v := by
  simp only [eval, Option.bind_eq_some_iff, mapM_eq_some]

/-- More fuel does not change a value. -/
theorem eval_mono {fuel fuel' : ℕ} (hle : fuel ≤ fuel') {n : N} {v : V}
    (h : g.eval fuel n = some v) : g.eval fuel' n = some v := by
  induction fuel generalizing fuel' n v with
  | zero => simp [eval] at h
  | succ fuel ih =>
      cases fuel' with
      | zero => simp at hle
      | succ fuel' =>
          obtain ⟨args, hargs, hv⟩ := eval_succ.mp h
          refine eval_succ.mpr ⟨args, hargs.imp ?_, hv⟩
          rintro r a ⟨m, hm, ha⟩
          exact ⟨m, hm, ih (Nat.le_of_succ_le_succ hle) ha⟩

end Graph

end Dataflow
