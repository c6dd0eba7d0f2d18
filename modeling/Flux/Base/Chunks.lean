import Mathlib.Data.List.Forall2
import Mathlib.Tactic.Common

namespace Base

variable {α β : Type}

def chunks (n : ℕ) (xs : List α) : List (List α) :=
  if n = 0 ∨ xs = [] then [] else xs.take n :: chunks n (xs.drop n)
termination_by xs.length
decreasing_by
  rename_i h
  push Not at h
  have := List.length_pos_iff.mpr h.2
  simp only [List.length_drop]
  omega

lemma chunks_nil (n : ℕ) : chunks n ([] : List α) = [] := by simp [chunks]

variable {n : ℕ}

variable {xs : List α}

lemma chunks_of_ne_nil (hn : 0 < n) (h : xs ≠ []) : chunks n xs = xs.take n :: chunks n (xs.drop n) := by
  rw [chunks, if_neg]
  rintro (h' | h')
  · omega
  · exact h h'

lemma chunks_induction (hn : 0 < n) {P : List α → Prop} (nil : P [])
    (more : ∀ xs, xs ≠ [] → P (xs.drop n) → P xs) (xs : List α) : P xs := by
  induction hl : xs.length using Nat.strongRecOn generalizing xs with
  | ind l ih =>
    by_cases h : xs = []
    · exact h ▸ nil
    · have hpos := List.length_pos_iff.mpr h
      exact more xs h (ih (xs.drop n).length (by rw [List.length_drop]; omega) _ rfl)

lemma chunks_flatten (hn : 0 < n) (xs : List α) : (chunks n xs).flatten = xs := by
  induction xs using chunks_induction hn with
  | nil => rw [chunks_nil, List.flatten_nil]
  | more xs h ih => rw [chunks_of_ne_nil hn h, List.flatten_cons, ih, List.take_append_drop]

lemma chunks_length (hn : 0 < n) (xs : List α) : (chunks n xs).length = (xs.length + n - 1) / n := by
  induction xs using chunks_induction hn with
  | nil =>
    rw [chunks_nil, List.length_nil, List.length_nil, Nat.zero_add, Nat.div_eq_of_lt (by omega)]
  | more xs h ih =>
    have hpos := List.length_pos_iff.mpr h
    rw [chunks_of_ne_nil hn h, List.length_cons, ih, List.length_drop]
    obtain hle | hlt := Nat.le_total xs.length n
    · rw [Nat.sub_eq_zero_of_le hle, Nat.zero_add, Nat.div_eq_of_lt (by omega),
        show xs.length + n - 1 = (xs.length - 1) + n by omega, Nat.add_div_right _ hn, Nat.div_eq_of_lt (by omega)]
    · rw [show xs.length - n + n - 1 = xs.length - 1 by omega,
        show xs.length + n - 1 = (xs.length - 1) + n by omega, Nat.add_div_right _ hn]

lemma chunks_forall₂ {R : α → β → Prop} (hn : 0 < n) {ys : List β} (h : List.Forall₂ R xs ys) :
    List.Forall₂ (List.Forall₂ R) (chunks n xs) (chunks n ys) := by
  induction xs using chunks_induction hn generalizing ys with
  | nil =>
    obtain rfl := List.forall₂_nil_left_iff.mp h
    rw [chunks_nil, chunks_nil]
    exact .nil
  | more xs hne ih =>
    have hne' : ys ≠ [] := by
      rintro rfl
      exact hne (List.forall₂_nil_right_iff.mp h)
    rw [chunks_of_ne_nil hn hne, chunks_of_ne_nil hn hne']
    exact .cons (List.forall₂_take n h) (ih (List.forall₂_drop n h))

lemma chunks_mem (hn : 0 < n) {ys : List α} (h : ys ∈ chunks n xs) : ys ≠ [] ∧ ys.length ≤ n := by
  induction xs using chunks_induction hn with
  | nil =>
    rw [chunks_nil] at h
    cases h
  | more xs hne ih =>
    rw [chunks_of_ne_nil hn hne] at h
    rcases List.mem_cons.mp h with rfl | h
    · refine ⟨?_, List.length_take_le _ _⟩
      rw [Ne, List.take_eq_nil_iff, not_or]
      exact ⟨by omega, hne⟩
    · exact ih h

def wholes (n : ℕ) (xs : List α) : List (List α) :=
  if 0 < n ∧ n ≤ xs.length then xs.take n :: wholes n (xs.drop n) else []
termination_by xs.length
decreasing_by
  simp only [List.length_drop]
  omega

def remainder (n : ℕ) (xs : List α) : List α :=
  if 0 < n ∧ n ≤ xs.length then remainder n (xs.drop n) else xs
termination_by xs.length
decreasing_by
  simp only [List.length_drop]
  omega

section Wholes

variable {n : ℕ} {xs : List α}

lemma wholes_of_lt (h : xs.length < n) : wholes n xs = [] := by
  rw [wholes, if_neg (by omega)]

lemma remainder_of_lt (h : xs.length < n) : remainder n xs = xs := by
  rw [remainder, if_neg (by omega)]

lemma wholes_nil (hn : 0 < n) : wholes n ([] : List α) = [] := wholes_of_lt hn

lemma remainder_nil (hn : 0 < n) : remainder n ([] : List α) = [] := remainder_of_lt hn

lemma wholes_of_le (hn : 0 < n) (h : n ≤ xs.length) : wholes n xs = xs.take n :: wholes n (xs.drop n) := by
  rw [wholes, if_pos ⟨hn, h⟩]

lemma remainder_of_le (hn : 0 < n) (h : n ≤ xs.length) : remainder n xs = remainder n (xs.drop n) := by
  rw [remainder, if_pos ⟨hn, h⟩]

lemma wholes_append_of_length (ys : List α) (hn : 0 < n) (h : xs.length = n) :
    wholes n (xs ++ ys) = xs :: wholes n ys := by
  rw [wholes_of_le hn (by rw [List.length_append]; omega), ← h, List.take_left, List.drop_left]

lemma remainder_append_of_length (ys : List α) (hn : 0 < n) (h : xs.length = n) :
    remainder n (xs ++ ys) = remainder n ys := by
  rw [remainder_of_le hn (by rw [List.length_append]; omega), ← h, List.drop_left]

lemma wholes_induction (hn : 0 < n) {P : List α → Prop} (rest : ∀ xs : List α, xs.length < n → P xs)
    (more : ∀ xs ys : List α, xs.length = n → P ys → P (xs ++ ys)) (xs : List α) : P xs := by
  induction hl : xs.length using Nat.strongRecOn generalizing xs with
  | ind l ih =>
    rcases Nat.lt_or_ge xs.length n with h | h
    · exact rest xs h
    · rw [← List.take_append_drop n xs]
      refine more _ _ (List.length_take_of_le h) (ih (xs.drop n).length ?_ _ rfl)
      rw [List.length_drop]
      omega

lemma remainder_length (hn : 0 < n) (xs : List α) : (remainder n xs).length < n := by
  induction xs using wholes_induction hn with
  | rest xs h => rwa [remainder_of_lt h]
  | more xs ys h ih => rwa [remainder_append_of_length _ hn h]

lemma wholes_append (hn : 0 < n) (xs ys : List α) :
    wholes n (xs ++ ys) = wholes n xs ++ wholes n (remainder n xs ++ ys) := by
  induction xs using wholes_induction hn with
  | rest xs h => rw [wholes_of_lt h, remainder_of_lt h, List.nil_append]
  | more zs xs h ih =>
    rw [List.append_assoc, wholes_append_of_length _ hn h, wholes_append_of_length _ hn h,
      remainder_append_of_length _ hn h, ih, List.cons_append]

lemma remainder_append (hn : 0 < n) (xs ys : List α) :
    remainder n (xs ++ ys) = remainder n (remainder n xs ++ ys) := by
  induction xs using wholes_induction hn with
  | rest xs h => rw [remainder_of_lt h]
  | more zs xs h ih =>
    rw [List.append_assoc, remainder_append_of_length _ hn h, remainder_append_of_length _ hn h, ih]

lemma length_of_mem_wholes {ys : List α} (hn : 0 < n) (h : ys ∈ wholes n xs) : ys.length = n := by
  induction xs using wholes_induction hn with
  | rest xs hlt =>
    rw [wholes_of_lt hlt] at h
    cases h
  | more zs xs hlen ih =>
    rw [wholes_append_of_length _ hn hlen] at h
    rcases List.mem_cons.mp h with rfl | h
    · exact hlen
    · exact ih h

lemma chunks_append (hn : 0 < n) (xs ys : List α) :
    chunks n (xs ++ ys) = wholes n xs ++ chunks n (remainder n xs ++ ys) := by
  induction xs using wholes_induction hn with
  | rest xs h => rw [wholes_of_lt h, remainder_of_lt h, List.nil_append]
  | more zs xs h ih =>
    have hne : zs ++ (xs ++ ys) ≠ [] := by
      have : zs ≠ [] := List.length_pos_iff.mp (by omega)
      simp [this]
    rw [List.append_assoc, chunks_of_ne_nil hn hne, wholes_append_of_length _ hn h,
      remainder_append_of_length _ hn h, List.cons_append, ← ih, ← h, List.take_left, List.drop_left]

lemma chunks_of_le (hn : 0 < n) (hne : xs ≠ []) (h : xs.length ≤ n) : chunks n xs = [xs] := by
  rw [chunks_of_ne_nil hn hne, List.take_of_length_le h, List.drop_of_length_le h, chunks_nil]

lemma chunks_eq (hn : 0 < n) (xs : List α) :
    chunks n xs = wholes n xs ++ if remainder n xs = [] then [] else [remainder n xs] := by
  have h := chunks_append hn xs []
  rw [List.append_nil, List.append_nil] at h
  rw [h]
  split
  · next hnil => rw [hnil, chunks_nil]
  · next hne => rw [chunks_of_le hn hne (Nat.le_of_lt (remainder_length hn xs))]

lemma flatten_wholes (hn : 0 < n) (xs : List α) : (wholes n xs).flatten ++ remainder n xs = xs := by
  induction xs using wholes_induction hn with
  | rest xs h => rw [wholes_of_lt h, remainder_of_lt h, List.flatten_nil, List.nil_append]
  | more zs xs h ih =>
    rw [wholes_append_of_length _ hn h, remainder_append_of_length _ hn h, List.flatten_cons,
      List.append_assoc, ih]

lemma chunks_getElem? (hn : 0 < n) (xs : List α) (i : ℕ) :
    (chunks n xs)[i]? = if i * n < xs.length then some ((xs.drop (i * n)).take n) else none := by
  induction xs using chunks_induction hn generalizing i with
  | nil => simp [chunks_nil]
  | more xs h ih =>
    rw [chunks_of_ne_nil hn h]
    cases i with
    | zero =>
      have hpos := List.length_pos_iff.mpr h
      simp [hpos]
    | succ i =>
      rw [List.getElem?_cons_succ, ih, List.length_drop, List.drop_drop, Nat.succ_mul, Nat.add_comm n]
      simp only [Nat.lt_sub_iff_add_lt]

end Wholes

end Base
