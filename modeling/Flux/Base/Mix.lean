import Flux.Base.Bytes

/-! What a write that is cut short leaves: bytes of the old and of the new, place by place. -/

namespace Base

def Mixes (a b x : Bytes) : Prop := ∀ i : ℕ, x[i]? = a[i]? ∨ x[i]? = b[i]?

/-- A write of `b` over `a` was cut short: each byte is the old one, the new one, or a zero behind the old end. -/
structure Torn (a b x : Bytes) : Prop where
  shortest : min a.length b.length ≤ x.length
  longest : x.length ≤ max a.length b.length
  byte : ∀ (i : ℕ) (c : UInt8), x[i]? = some c → a[i]? = some c ∨ b[i]? = some c ∨ (c = 0 ∧ a.length ≤ i)

def zeroPadded (n : ℕ) (a : Bytes) : Bytes := a ++ List.replicate (n - a.length) 0

variable {a b x : Bytes}

lemma Mixes.take (h : Mixes a b x) (n : ℕ) : Mixes (a.take n) (b.take n) (x.take n) := by
  intro i
  simp only [List.getElem?_take]
  split
  · exact h i
  · exact .inl rfl

lemma Mixes.drop (h : Mixes a b x) (n : ℕ) : Mixes (a.drop n) (b.drop n) (x.drop n) := by
  intro i
  simp only [List.getElem?_drop]
  exact h (n + i)

lemma Mixes.of_torn (h : Torn a b x) (ha : a.length ≤ b.length) (hx : x.length = b.length) :
    Mixes (zeroPadded b.length a) b x := by
  intro i
  cases hc : x[i]? with
  | none =>
    right
    rw [List.getElem?_eq_none_iff] at hc
    rw [List.getElem?_eq_none (by omega)]
  | some c =>
    obtain ⟨hi, -⟩ := List.getElem?_eq_some_iff.mp hc
    rcases h.byte i c hc with hold | hnew | ⟨rfl, hlen⟩
    · left
      rw [zeroPadded, List.getElem?_append_left (List.getElem?_eq_some_iff.mp hold).1, hold]
    · exact .inr hnew.symm
    · left
      rw [zeroPadded, List.getElem?_append_right hlen, List.getElem?_replicate, if_pos (by omega)]

lemma Mixes.eq_or {p q : Bytes} {c d : UInt8} (h : Mixes (p ++ c :: q) (p ++ d :: q) x) :
    x = p ++ c :: q ∨ x = p ++ d :: q := by
  have hother : ∀ i : ℕ, i ≠ p.length → (p ++ c :: q)[i]? = (p ++ d :: q)[i]? := by
    intro i hi
    rcases lt_or_gt_of_ne hi with hlt | hgt
    · rw [List.getElem?_append_left hlt, List.getElem?_append_left hlt]
    · obtain ⟨j, rfl⟩ := Nat.exists_eq_add_of_lt hgt
      rw [List.getElem?_append_right (by omega), List.getElem?_append_right (by omega),
        show p.length + j + 1 - p.length = j + 1 by omega, List.getElem?_cons_succ, List.getElem?_cons_succ]
  rcases h p.length with hc | hd
  · left
    refine List.ext_getElem? fun i => ?_
    by_cases hi : i = p.length
    · rw [hi, hc]
    · rcases h i with h | h
      · exact h
      · rw [h, hother i hi]
  · right
    refine List.ext_getElem? fun i => ?_
    by_cases hi : i = p.length
    · rw [hi, hd]
    · rcases h i with h | h
      · rw [h, hother i hi]
      · exact h

end Base
