import Flux.Names.Index
import Mathlib.Data.List.Perm.Basic

namespace Flux.Names

variable {Name Target : Type} [LinearOrder Name] [DecidableEq Target]

lemma earlier_eq (learned : Name → Option ℕ) (best : Option (ℕ ×ₗ Name)) (s : Name) :
    earlier learned best s = (best.toList ++ ((learned s).map fun seq => toLex (seq, s)).toList).min? := by
  cases hs : learned s with
  | none => cases best <;> simp [earlier, hs]
  | some seq =>
    cases best with
    | none => simp [earlier, hs]
    | some b =>
      by_cases hb : b ≤ toLex (seq, s)
      · simp [earlier, hs, hb]
      · simp [earlier, hs, hb, min_eq_right (le_of_not_ge hb)]

instance (learned : Name → Option ℕ) : RightCommutative (earlier learned) where
  right_comm best s t := by
    cases hs : learned s <;> cases ht : learned t <;> cases best <;>
      simp [earlier_eq, hs, ht, min_comm, min_left_comm]

variable {l : List Name}

lemma choose_perm {l' : List Name} (h : l.Perm l') (learned : Name → Option ℕ) (owner : Name → Option Target) :
    choose l learned owner = choose l' learned owner := by
  have hfold : l.foldl (earlier learned) none = l'.foldl (earlier learned) none := h.foldl_eq none
  have hmin : l.min? = l'.min? := by
    cases hl : l.min? with
    | none =>
      rw [List.min?_eq_none_iff] at hl
      subst hl
      obtain rfl := h.nil_eq
      rfl
    | some a =>
      rw [List.min?_eq_some_iff] at hl
      symm
      rw [List.min?_eq_some_iff]
      exact ⟨h.mem_iff.mp hl.1, fun b hb => hl.2 b (h.mem_iff.mpr hb)⟩
  simp only [choose, hfold, hmin, h.length_eq, h.mem_iff]

lemma choose_eq_of_mem_iff {l' : List Name} (hl : l.Nodup) (hl' : l'.Nodup) (h : ∀ n, n ∈ l ↔ n ∈ l')
    (learned : Name → Option ℕ) (owner : Name → Option Target) :
    choose l learned owner = choose l' learned owner :=
  choose_perm ((List.perm_ext_iff_of_nodup hl hl').mpr h) learned owner

@[simp]
lemma choose_nil (learned : Name → Option ℕ) (owner : Name → Option Target) :
    choose [] learned owner = .error .unresolvable := rfl

lemma choose_singleton (n : Name) (learned : Name → Option ℕ) (owner : Name → Option Target) :
    choose [n] learned owner = .ok n := by
  cases hn : learned n <;> simp [choose, earlier, hn]

lemma choose_of_unowned {a b : Name} (learned : Name → Option ℕ) {owner : Name → Option Target} (ha : a ∈ l)
    (hb : b ∈ l) (hab : a ≠ b) (hown : owner a = none) : choose l learned owner = .error .unresolvable := by
  have hlen : 1 < l.length := by
    match l, ha, hb with
    | [x], ha, hb =>
      rw [List.mem_singleton] at ha hb
      exact absurd (ha.trans hb.symm) hab
    | _ :: _ :: _, _, _ => simp
  rw [choose]
  split
  · rfl
  · rename_i chosen _
    rw [if_pos]
    refine ⟨hlen, ?_⟩
    by_cases hc : owner chosen = none
    · exact .inl hc
    · exact .inr ⟨a, ha, fun h => hc (h.symm.trans hown)⟩

end Flux.Names
