import Flux.Base.Bytes
import Mathlib.Data.List.Lex

namespace Base

variable {a b : Bytes}

lemma compare_lt_iff : compare a b = .lt ↔ a < b := by
  rw [List.compare_eq_compareLex]
  induction a generalizing b with
  | nil => cases b <;> simp [List.compareLex]
  | cons x a ih =>
    cases b with
    | nil => simp [List.compareLex]
    | cons y b =>
      rw [List.compareLex_cons_cons, Ordering.then_eq_lt, ih, Std.compare_eq_lt, Std.LawfulEqCmp.compare_eq_iff_eq,
        List.cons_lt_cons_iff]

lemma compare_eq_iff : compare a b = .eq ↔ a = b := Std.LawfulEqCmp.compare_eq_iff_eq

lemma compare_isLE_iff : (compare a b).isLE = true ↔ a ≤ b := by
  rw [Ordering.isLE_iff_eq_lt_or_eq_eq, compare_lt_iff, compare_eq_iff, le_iff_lt_or_eq]

lemma nil_le (a : Bytes) : ([] : Bytes) ≤ a := not_lt.mp (List.not_lt_nil a)

lemma cons_le_cons_iff {x y : UInt8} : x :: a ≤ y :: b ↔ x < y ∨ x = y ∧ a ≤ b := by
  rw [← not_lt, List.cons_lt_cons_iff, ← not_lt (a := b)]
  obtain h | rfl | h := lt_trichotomy x y
  · simp [h, h.ne, h.ne', not_lt.mpr h.le]
  · simp
  · simp [h, h.ne, h.ne', not_lt.mpr h.le]

lemma append_lt_append (h : a < b) (hl : a.length = b.length) (c d : Bytes) : a ++ c < b ++ d := by
  induction a generalizing b with
  | nil =>
    obtain rfl := List.eq_nil_of_length_eq_zero hl.symm
    exact absurd h (lt_irrefl _)
  | cons x a ih =>
    cases b with
    | nil => simp at hl
    | cons y b =>
      rw [List.cons_append, List.cons_append, List.cons_lt_cons_iff]
      obtain hxy | ⟨hxy, hab⟩ := List.cons_lt_cons_iff.mp h
      · exact .inl hxy
      · exact .inr ⟨hxy, ih hab (by simpa using hl)⟩

lemma append_lt_append_left (a : Bytes) {c : Bytes} (h : b < c) : a ++ b < a ++ c := by
  induction a with
  | nil => exact h
  | cons x a ih => exact List.cons_lt_cons_iff.mpr (.inr ⟨rfl, ih⟩)

lemma append_le_append_left (a : Bytes) {c : Bytes} (h : b ≤ c) : a ++ b ≤ a ++ c := by
  obtain hlt | rfl := lt_or_eq_of_le h
  · exact (append_lt_append_left a hlt).le
  · exact le_rfl

def beHead : ℕ → Bytes → ℕ
  | 0, _ => 0
  | _ + 1, [] => 0
  | n + 1, x :: xs => x.toNat * 256 ^ n + beHead n xs

lemma beHead_lt (n : ℕ) (a : Bytes) : beHead n a < 256 ^ n := by
  induction n generalizing a with
  | zero => simp [beHead]
  | succ n ih =>
    cases a with
    | nil => simp [beHead]
    | cons x a =>
      have hx : x.toNat < 256 := x.toNat_lt
      calc x.toNat * 256 ^ n + beHead n a < x.toNat * 256 ^ n + 256 ^ n := by have := ih a; omega
        _ = (x.toNat + 1) * 256 ^ n := by ring
        _ ≤ 256 * 256 ^ n := Nat.mul_le_mul_right _ hx
        _ = 256 ^ (n + 1) := by ring

lemma lt_of_beHead_lt {n : ℕ} (h : beHead n a < beHead n b) : a < b := by
  induction n generalizing a b with
  | zero => simp [beHead] at h
  | succ n ih =>
    cases b with
    | nil => simp [beHead] at h
    | cons y b =>
      cases a with
      | nil => exact List.nil_lt_cons y b
      | cons x a =>
        rw [List.cons_lt_cons_iff]
        simp only [beHead] at h
        have ha := beHead_lt n a
        have hb := beHead_lt n b
        obtain hxy | hxy | hxy := lt_trichotomy x y
        · exact .inl hxy
        · subst hxy
          exact .inr ⟨rfl, ih (by omega)⟩
        · have hle : y.toNat + 1 ≤ x.toNat := UInt8.lt_iff_toNat_lt.mp hxy
          have := Nat.mul_le_mul_right (256 ^ n) hle
          rw [Nat.add_mul] at this
          omega

lemma beHead_take {n m : ℕ} (h : n ≤ m) (a : Bytes) : beHead n (a.take m) = beHead n a := by
  induction n generalizing m a with
  | zero => rfl
  | succ n ih =>
    cases a with
    | nil => rw [List.take_nil]
    | cons x a =>
      obtain ⟨m, rfl⟩ : ∃ m', m = m' + 1 := ⟨m - 1, by omega⟩
      rw [List.take_succ_cons, beHead, beHead, ih (by omega)]

lemma beHead_inj {n : ℕ} (hl : a.length = b.length) (hn : a.length ≤ n) (h : beHead n a = beHead n b) :
    a = b := by
  induction n generalizing a b with
  | zero =>
    rw [List.eq_nil_of_length_eq_zero (l := a) (by omega), List.eq_nil_of_length_eq_zero (l := b) (by omega)]
  | succ n ih =>
    cases a with
    | nil => rw [List.eq_nil_of_length_eq_zero (l := b) hl.symm]
    | cons x a =>
      cases b with
      | nil => simp at hl
      | cons y b =>
        simp only [List.length_cons, Nat.add_right_cancel_iff, Nat.add_le_add_iff_right] at hl hn
        simp only [beHead] at h
        have ha := beHead_lt n a
        have hb := beHead_lt n b
        have hxy : x.toNat = y.toNat := by
          have hx := congrArg (· / 256 ^ n) h
          simpa only [Nat.add_comm, Nat.add_mul_div_right _ _ (Nat.pow_pos (n := n) (show 0 < 256 by omega)),
            Nat.div_eq_of_lt ha, Nat.div_eq_of_lt hb, Nat.zero_add] using hx
        rw [hxy] at h
        rw [UInt8.toNat_inj.mp hxy, ih hl hn (by omega)]

lemma compare_beHead_then (n : ℕ) (a b : Bytes) :
    (compare (beHead n a) (beHead n b)).then (compare a b) = compare a b := by
  cases h : compare (beHead n a) (beHead n b) with
  | lt => exact (compare_lt_iff.mpr (lt_of_beHead_lt (Nat.compare_eq_lt.mp h))).symm
  | eq => rfl
  | gt =>
    have hlt := compare_lt_iff.mpr (lt_of_beHead_lt (Nat.compare_eq_gt.mp h))
    exact (Std.OrientedCmp.gt_iff_lt.mpr hlt).symm

end Base
