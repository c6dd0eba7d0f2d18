import Flux.Base.ByteOrder

namespace Base

def carry : Bytes → Bytes × Bool
  | [] => ([], false)
  | b :: bs =>
    if b = 0xFF then
      let r := carry bs
      (0 :: r.1, r.2)
    else ((b + 1) :: bs, true)

def increment (bytes : Bytes) : Bytes × Bool :=
  let r := carry bytes.reverse
  (r.1.reverse, r.2)

lemma carry_of_all {bs : Bytes} (h : ∀ b ∈ bs, b = 0xFF) (rest : Bytes) :
    carry (bs ++ rest) = (List.replicate bs.length 0 ++ (carry rest).1, (carry rest).2) := by
  induction bs with
  | nil => rfl
  | cons b bs ih =>
    have hb : b = 0xFF := h b List.mem_cons_self
    rw [List.cons_append, carry, if_pos hb, ih fun b hb => h b (List.mem_cons_of_mem _ hb)]
    rfl

lemma carry_of_some {bs : Bytes} (h : (carry bs).2 = true) (rest : Bytes) :
    carry (bs ++ rest) = ((carry bs).1 ++ rest, true) := by
  induction bs with
  | nil => cases h
  | cons b bs ih =>
    rw [List.cons_append, carry, carry] at *
    split
    · next hb =>
      rw [if_pos hb] at h
      rw [ih h]
      rfl
    · rfl

lemma carry_snd {bs : Bytes} : (carry bs).2 = false ↔ ∀ b ∈ bs, b = 0xFF := by
  induction bs with
  | nil => simp [carry]
  | cons b bs ih =>
    rw [carry]
    split
    · next hb => simp [ih, hb]
    · next hb => simp [hb]

variable {xs k : Bytes}

lemma increment_cons_all (h : ∀ b ∈ xs, b = 0xFF) {x : UInt8} (hx : x ≠ 0xFF) :
    increment (x :: xs) = ((x + 1) :: List.replicate xs.length 0, true) := by
  have hrev : ∀ b ∈ xs.reverse, b = 0xFF := fun b hb => h b (List.mem_reverse.mp hb)
  rw [increment, List.reverse_cons, carry_of_all hrev, carry, if_neg hx]
  simp

lemma increment_cons_some (h : (increment xs).2 = true) (x : UInt8) :
    increment (x :: xs) = (x :: (increment xs).1, true) := by
  rw [increment] at h
  rw [increment, List.reverse_cons, carry_of_some h]
  simp [increment]

lemma increment_snd : (increment xs).2 = false ↔ ∀ b ∈ xs, b = 0xFF := by
  rw [increment]
  dsimp only
  rw [carry_snd]
  simp

lemma le_of_isPrefix {a b : Bytes} (h : a <+: b) : a ≤ b := by
  obtain ⟨t, rfl⟩ := h
  have := append_le_append_left a (nil_le t)
  rwa [List.append_nil] at this

lemma le_max (x : UInt8) : x ≤ 0xFF := by
  rw [UInt8.le_iff_toNat_le]
  exact Nat.le_of_lt_succ x.toNat_lt

lemma isPrefix_of_all_le (h : ∀ b ∈ xs, b = 0xFF) (hlen : xs.length ≤ k.length) (hle : xs ≤ k) : xs <+: k := by
  induction xs generalizing k with
  | nil => exact List.nil_prefix
  | cons x xs ih =>
    cases k with
    | nil => exact absurd hlen (by simp)
    | cons y k =>
      obtain rfl := h x List.mem_cons_self
      obtain hlt | ⟨rfl, htail⟩ := cons_le_cons_iff.mp hle
      · exact absurd hlt (not_lt.mpr (le_max y))
      · rw [List.cons_prefix_cons]
        exact ⟨rfl, ih (fun b hb => h b (List.mem_cons_of_mem _ hb)) (Nat.le_of_succ_le_succ hlen) htail⟩

lemma not_lt_zeros {n : ℕ} (hlen : n ≤ k.length) : ¬ k < List.replicate n 0 := by
  induction n generalizing k with
  | zero => simp
  | succ n ih =>
    cases k with
    | nil => exact absurd hlen (by simp)
    | cons y k =>
      rw [List.replicate_succ, List.cons_lt_cons_iff]
      rintro (hlt | ⟨-, hlt⟩)
      · rw [UInt8.lt_iff_toNat_lt] at hlt
        exact absurd hlt (Nat.not_lt_zero _)
      · exact ih (Nat.le_of_succ_le_succ hlen) hlt

lemma lt_add_one_iff {x y : UInt8} (hx : x ≠ 0xFF) : y < x + 1 ↔ y ≤ x := by
  have hlt : x.toNat < 255 := by
    have hle := UInt8.le_iff_toNat_le.mp (le_max x)
    have hne : x.toNat ≠ 255 := fun h => hx (UInt8.toNat_inj.mp h)
    have h255 : (0xFF : UInt8).toNat = 255 := rfl
    omega
  have hadd : (x + 1).toNat = x.toNat + 1 := by
    rw [UInt8.toNat_add]
    exact Nat.mod_eq_of_lt (by have : (1 : UInt8).toNat = 1 := rfl; omega)
  rw [UInt8.lt_iff_toNat_lt, UInt8.le_iff_toNat_le, hadd]
  omega

theorem between_iff_isPrefix {lo : Bytes} (hlo : (increment lo).2 = true) (hlen : lo.length ≤ k.length) :
    lo ≤ k ∧ k < (increment lo).1 ↔ lo <+: k := by
  induction lo generalizing k with
  | nil => cases hlo
  | cons x xs ih =>
    cases k with
    | nil => exact absurd hlen (by simp)
    | cons y k =>
      have hlen' : xs.length ≤ k.length := Nat.le_of_succ_le_succ hlen
      rw [List.cons_prefix_cons, cons_le_cons_iff]
      by_cases hxs : (increment xs).2 = true
      · rw [increment_cons_some hxs, List.cons_lt_cons_iff]
        constructor
        · rintro ⟨hlt | ⟨rfl, hle⟩, hlt' | ⟨heq, hk⟩⟩
          · exact absurd hlt (not_lt.mpr hlt'.le)
          · exact absurd heq hlt.ne'
          · exact absurd hlt' (lt_irrefl _)
          · exact ⟨rfl, (ih hxs hlen').mp ⟨hle, hk⟩⟩
        · rintro ⟨rfl, hpre⟩
          obtain ⟨hle, hk⟩ := (ih hxs hlen').mpr hpre
          exact ⟨.inr ⟨rfl, hle⟩, .inr ⟨rfl, hk⟩⟩
      · have hall := increment_snd.mp (Bool.eq_false_iff.mpr hxs)
        have hx : x ≠ 0xFF := by
          rintro rfl
          have : (increment (0xFF :: xs)).2 = false := increment_snd.mpr fun b hb => by
            obtain rfl | hb := List.mem_cons.mp hb
            · rfl
            · exact hall b hb
          rw [hlo] at this
          cases this
        rw [increment_cons_all hall hx, List.cons_lt_cons_iff, lt_add_one_iff hx]
        constructor
        · rintro ⟨hlt | ⟨rfl, hle⟩, hle' | ⟨-, hk⟩⟩
          · exact absurd hlt (not_lt.mpr hle')
          · exact absurd hk (not_lt_zeros hlen')
          · exact ⟨rfl, isPrefix_of_all_le hall hlen' hle⟩
          · exact absurd hk (not_lt_zeros hlen')
        · rintro ⟨rfl, hpre⟩
          exact ⟨.inr ⟨rfl, le_of_isPrefix hpre⟩, .inl le_rfl⟩

lemma append_zero_le_iff {a : Bytes} : a ++ [0] ≤ k ↔ a < k := by
  induction a generalizing k with
  | nil =>
    cases k with
    | nil => exact ⟨fun h => absurd h (by simp), fun h => absurd h (lt_irrefl _)⟩
    | cons y k =>
      refine ⟨fun _ => List.nil_lt_cons y k, fun _ => cons_le_cons_iff.mpr ?_⟩
      obtain hy | hy := lt_or_eq_of_le (show (0 : UInt8) ≤ y from UInt8.le_iff_toNat_le.mpr (Nat.zero_le _))
      · exact .inl hy
      · exact .inr ⟨hy, nil_le k⟩
  | cons x a ih =>
    cases k with
    | nil => exact ⟨fun h => absurd h (by simp), fun h => absurd h (List.not_lt_nil _)⟩
    | cons y k => rw [List.cons_append, cons_le_cons_iff, List.cons_lt_cons_iff, ih]

end Base
