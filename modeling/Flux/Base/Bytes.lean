import Mathlib.Data.List.Basic
import Mathlib.Order.Lattice
import Mathlib.Tactic.Ring

namespace Base

abbrev Bytes := List UInt8

instance : LawfulBEq Bytes := inferInstance

instance byteOrder : LinearOrder UInt8 where
  le_refl := UInt8.le_refl
  le_trans _ _ _ := UInt8.le_trans
  le_antisymm _ _ := UInt8.le_antisymm
  le_total := UInt8.le_total
  toDecidableLE := inferInstance
  lt_iff_le_not_ge a b := by
    rw [UInt8.lt_iff_toNat_lt, UInt8.le_iff_toNat_le, UInt8.le_iff_toNat_le]
    omega

abbrev Block (n : ℕ) := { b : Bytes // b.length = n }

def slice (bs : Bytes) (i n : ℕ) : Bytes := (bs.drop i).take n

variable {i n : ℕ}

lemma slice_length {bs : Bytes} (h : i + n ≤ bs.length) : (slice bs i n).length = n := by
  simp only [slice, List.length_take, List.length_drop]
  omega

lemma slice_append_left {p : Bytes} (q : Bytes) (h : i + n ≤ p.length) : slice (p ++ q) i n = slice p i n := by
  rw [slice, slice, List.drop_append_of_le_length (by omega), List.take_append_of_le_length]
  simp only [List.length_drop]
  omega

lemma slice_append_right {p : Bytes} (q : Bytes) (n : ℕ) (h : p.length ≤ i) :
    slice (p ++ q) i n = slice q (i - p.length) n := by
  rw [slice, slice, List.drop_append, List.drop_eq_nil_of_le h, List.nil_append]

lemma slice_append_exact (p q r : Bytes) (hi : p.length = i) (hn : q.length = n) :
    slice (p ++ (q ++ r)) i n = q := by
  subst hi hn
  rw [slice_append_right _ _ le_rfl, Nat.sub_self, slice, List.drop_zero, List.take_left]

lemma take_append_slice (bs : Bytes) (i n : ℕ) : bs.take i ++ slice bs i n = bs.take (i + n) :=
  List.take_add.symm

lemma slice_set {bs : Bytes} {j : ℕ} (b : UInt8) (h : i < j ∨ j + n ≤ i) :
    slice (bs.set i b) j n = slice bs j n := by
  apply List.ext_getElem?
  intro k
  simp only [slice, List.getElem?_take, List.getElem?_drop]
  split
  · rw [List.getElem?_set_ne (by omega)]
  · rfl

def slice? (bs : Bytes) (i n : ℕ) : Option Bytes := if i + n ≤ bs.length then some (slice bs i n) else none

lemma slice?_append_exact (p q r : Bytes) (hi : p.length = i) (hn : q.length = n) :
    slice? (p ++ (q ++ r)) i n = some q := by
  rw [slice?, if_pos (by simp only [List.length_append]; omega), slice_append_exact p q r hi hn]

def zeroPad (n : ℕ) (bs : Bytes) : Block n :=
  ⟨(bs ++ List.replicate n 0).take n, by
    simp only [List.length_take, List.length_append, List.length_replicate]
    omega⟩

def le : ℕ → ℕ → Bytes
  | 0, _ => []
  | w + 1, n => UInt8.ofNat n :: le w (n / 256)

def ofLe : Bytes → ℕ
  | [] => 0
  | b :: bs => b.toNat + 256 * ofLe bs

@[simp] lemma le_length (w n : ℕ) : (le w n).length = w := by
  induction w generalizing n with
  | zero => rfl
  | succ w ih => simp [le, ih]

lemma ofLe_le {w : ℕ} (h : n < 256 ^ w) : ofLe (le w n) = n := by
  induction w generalizing n with
  | zero => simp only [pow_zero, Nat.lt_one_iff] at h; simp [le, ofLe, h]
  | succ w ih =>
    have hq : n / 256 < 256 ^ w := by
      rw [pow_succ] at h
      exact Nat.div_lt_of_lt_mul (by omega)
    simp only [le, ofLe, ih hq, UInt8.toNat_ofNat']
    omega

lemma ofLe_lt (bs : Bytes) : ofLe bs < 256 ^ bs.length := by
  induction bs with
  | nil => simp [ofLe]
  | cons b bs ih =>
    have hb := b.toNat_lt
    simp only [ofLe, List.length_cons, pow_succ]
    omega

lemma le_ofLe (bs : Bytes) : le bs.length (ofLe bs) = bs := by
  induction bs with
  | nil => rfl
  | cons b bs ih =>
    have hb : b.toNat < 256 := b.toNat_lt
    have hd : (b.toNat + 256 * ofLe bs) / 256 = ofLe bs := by omega
    have hh : UInt8.ofNat (b.toNat + 256 * ofLe bs) = b := by
      apply UInt8.toNat_inj.mp
      rw [UInt8.toNat_ofNat']
      omega
    simp only [List.length_cons, ofLe, le, hd, hh, ih]

end Base
