import Flux.Base.Bytes

/-! Sequences of 16-bit units as generalized UTF-8: surrogate pairs become one code point, lone surrogates stay. -/

namespace Base

def isLead (u : UInt16) : Prop := 0xD800 ≤ u.toNat ∧ u.toNat < 0xDC00

def isTrail (u : UInt16) : Prop := 0xDC00 ≤ u.toNat ∧ u.toNat < 0xE000

instance (u : UInt16) : Decidable (isLead u) := inferInstanceAs (Decidable (_ ∧ _))

instance (u : UInt16) : Decidable (isTrail u) := inferInstanceAs (Decidable (_ ∧ _))

def joined (u v : UInt16) : ℕ := 0x10000 + (u.toNat - 0xD800) * 1024 + (v.toNat - 0xDC00)

def codePoints : List UInt16 → List ℕ
  | [] => []
  | [u] => [u.toNat]
  | u :: v :: rest =>
    if isLead u ∧ isTrail v then joined u v :: codePoints rest else u.toNat :: codePoints (v :: rest)

def encodePoint (cp : ℕ) : Bytes :=
  if cp < 0x80 then [.ofNat cp]
  else if cp < 0x800 then [.ofNat (0xC0 + cp / 64), .ofNat (0x80 + cp % 64)]
  else if cp < 0x10000 then [.ofNat (0xE0 + cp / 4096), .ofNat (0x80 + cp / 64 % 64), .ofNat (0x80 + cp % 64)]
  else [.ofNat (0xF0 + cp / 262144), .ofNat (0x80 + cp / 4096 % 64), .ofNat (0x80 + cp / 64 % 64),
    .ofNat (0x80 + cp % 64)]

def wtf8 (units : List UInt16) : Bytes := (codePoints units).flatMap encodePoint

lemma joined_lt {u v : UInt16} (hu : isLead u) (hv : isTrail v) : joined u v < 0x110000 := by
  obtain ⟨-, hu⟩ := hu
  obtain ⟨-, hv⟩ := hv
  unfold joined
  omega

lemma unit_lt (u : UInt16) : u.toNat < 0x110000 := lt_trans u.toNat_lt (by decide)

lemma codePoints_lt (units : List UInt16) : ∀ cp ∈ codePoints units, cp < 0x110000 := by
  fun_induction codePoints units with
  | case1 =>
    intro cp hcp
    cases hcp
  | case2 u =>
    intro cp hcp
    rw [List.mem_singleton.mp hcp]
    exact unit_lt u
  | case3 u v rest h ih =>
    intro cp hcp
    obtain hcp | hcp := List.mem_cons.mp hcp
    · rw [hcp]
      exact joined_lt h.1 h.2
    · exact ih cp hcp
  | case4 u v rest h ih =>
    intro cp hcp
    obtain hcp | hcp := List.mem_cons.mp hcp
    · rw [hcp]
      exact unit_lt u
    · exact ih cp hcp

end Base
