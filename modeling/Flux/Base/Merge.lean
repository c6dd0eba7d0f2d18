import Mathlib.Data.List.Basic
import Mathlib.Data.List.Perm.Basic

namespace Base

variable {α : Type}

inductive Merged (le : α → α → Prop) : List (List α) → List α → Prop
  | done {runs : List (List α)} (h : ∀ r ∈ runs, r = []) : Merged le runs []
  | pick {runs : List (List α)} {i : ℕ} {x : α} {rest out : List α} (h : runs[i]? = some (x :: rest))
      (hle : ∀ r ∈ runs, ∀ y ∈ r.head?, le x y) (hout : Merged le (runs.set i rest) out) :
        Merged le runs (x :: out)

lemma forall₂_getElem? {β : Type} {R : α → β → Prop} {xs : List α} {ys : List β} (h : List.Forall₂ R xs ys) {i : ℕ}
    {y : β} (hy : ys[i]? = some y) : ∃ x, xs[i]? = some x ∧ R x y := by
  induction h generalizing i with
  | nil => simp at hy
  | @cons a b xs ys hab _ ih =>
    cases i with
    | zero => exact ⟨a, rfl, Option.some.inj hy ▸ hab⟩
    | succ i => exact ih hy

lemma flatten_set_perm {runs : List (List α)} {i : ℕ} {x : α} {rest : List α} (h : runs[i]? = some (x :: rest)) :
    runs.flatten.Perm (x :: (runs.set i rest).flatten) := by
  induction runs generalizing i with
  | nil => simp at h
  | cons r runs ih =>
    cases i with
    | zero =>
      simp only [List.getElem?_cons_zero, Option.some.injEq] at h
      subst h
      exact .refl _
    | succ i =>
      rw [List.getElem?_cons_succ] at h
      simp only [List.set_cons_succ, List.flatten_cons]
      exact ((ih h).append_left r).trans List.perm_middle

namespace Merged

variable {le : α → α → Prop} {runs : List (List α)} {out : List α}

lemma perm (h : Merged le runs out) : out.Perm runs.flatten := by
  induction h with
  | done h => rw [List.flatten_eq_nil_iff.mpr h]
  | pick h _ _ ih => exact (ih.cons _).trans (flatten_set_perm h).symm

lemma le_of_le_heads {runs : List (List α)} (htrans : ∀ a b c, le a b → le b c → le a c)
    (hs : ∀ r ∈ runs, r.Pairwise le) {x : α} (hle : ∀ r ∈ runs, ∀ y ∈ r.head?, le x y) :
    ∀ y ∈ runs.flatten, le x y := by
  intro y hy
  obtain ⟨r, hr, hyr⟩ := List.mem_flatten.mp hy
  cases r with
  | nil => simp at hyr
  | cons z zs =>
    have hxz : le x z := hle _ hr z rfl
    obtain rfl | hyz := List.mem_cons.mp hyr
    · exact hxz
    · exact htrans x z y hxz (List.rel_of_pairwise_cons (hs _ hr) hyz)

lemma sorted (htrans : ∀ a b c, le a b → le b c → le a c) (h : Merged le runs out)
    (hs : ∀ r ∈ runs, r.Pairwise le) : out.Pairwise le := by
  induction h with
  | done _ => exact .nil
  | @pick runs i x rest out hi hle hout ih =>
    have hrun := hs _ (List.mem_of_getElem? hi)
    have hset : ∀ r ∈ runs.set i rest, r.Pairwise le := by
      intro r hr
      obtain hr | rfl := List.mem_or_eq_of_mem_set hr
      · exact hs r hr
      · exact hrun.of_cons
    apply List.Pairwise.cons _ (ih hset)
    intro y hy
    apply le_of_le_heads htrans hs hle
    exact (flatten_set_perm hi).mem_iff.mpr (List.mem_cons_of_mem x (hout.perm.mem_iff.mp hy))

end Merged

end Base
