import Flux.Base.Bytes
import Mathlib.Data.List.Induction
import Mathlib.Tactic.IntervalCases

namespace Base

abbrev Text := List Char

instance : LawfulBEq Text := inferInstance

def utf8 (t : Text) : Bytes := t.flatMap String.utf8EncodeChar

def ofUtf8 (bs : Bytes) : Option Text := (String.fromUTF8? ⟨bs.toArray⟩).map String.toList

lemma ofUtf8_utf8 (t : Text) : ofUtf8 (utf8 t) = some t := by
  have hb : (⟨(utf8 t).toArray⟩ : ByteArray) = t.utf8Encode := by
    apply ByteArray.ext
    simp [List.utf8Encode, utf8]
  have hs : String.fromUTF8 ⟨(utf8 t).toArray⟩ (.intro t hb) = String.ofList t := by
    apply String.toByteArray_inj.mp
    rw [String.toByteArray_ofList]
    exact hb
  rw [ofUtf8, String.fromUTF8?, dif_pos (.intro t hb), hs, Option.map_some, String.toList_ofList]

variable {t : Text}

lemma utf8_inj {s : Text} (h : utf8 s = utf8 t) : s = t := by
  have hs := congrArg ofUtf8 h
  rw [ofUtf8_utf8, ofUtf8_utf8] at hs
  exact Option.some.inj hs

def joinLines (lines : List Text) : Text := lines.flatMap (· ++ ['\n'])

lemma line_inj {a b s : Text} (ha : '\n' ∉ a) (hb : '\n' ∉ b) (h : a ++ '\n' :: s = b ++ '\n' :: t) :
    a = b ∧ s = t := by
  induction a generalizing b with
  | nil =>
    cases b with
    | nil => exact ⟨rfl, (List.cons.inj h).2⟩
    | cons c b =>
      obtain rfl := (List.cons.inj h).1
      exact absurd List.mem_cons_self hb
  | cons c a ih =>
    cases b with
    | nil =>
      obtain rfl := (List.cons.inj h).1
      exact absurd List.mem_cons_self ha
    | cons d b =>
      obtain ⟨rfl, htail⟩ := List.cons.inj h
      obtain ⟨rfl, hst⟩ := ih (List.not_mem_of_not_mem_cons ha) (List.not_mem_of_not_mem_cons hb) htail
      exact ⟨rfl, hst⟩

lemma joinLines_inj {ls ms : List Text} (hl : ∀ l ∈ ls, '\n' ∉ l) (hm : ∀ m ∈ ms, '\n' ∉ m)
    (h : joinLines ls = joinLines ms) : ls = ms := by
  induction ls generalizing ms with
  | nil =>
    cases ms with
    | nil => rfl
    | cons m ms => simp [joinLines] at h
  | cons l ls ih =>
    cases ms with
    | nil => simp [joinLines] at h
    | cons m ms =>
      simp only [joinLines, List.flatMap_cons, List.append_assoc, List.singleton_append] at h
      obtain ⟨rfl, hrest⟩ := line_inj (hl l List.mem_cons_self) (hm m List.mem_cons_self) h
      rw [ih (fun x hx => hl x (List.mem_cons_of_mem _ hx)) (fun x hx => hm x (List.mem_cons_of_mem _ hx)) hrest]

def decimal (n : ℕ) : Text := Nat.toDigits 10 n

def isDecimal (t : Text) : Bool := t ≠ [] ∧ t.all Char.isDigit

def parseDecimal (bound : ℕ) (t : Text) : Option ℕ :=
  if isDecimal t ∧ (t = ['0'] ∨ t.head? ≠ some '0') ∧ Nat.ofDigitChars 10 t 0 < bound then
    some (Nat.ofDigitChars 10 t 0)
  else none

lemma isDecimal_decimal (n : ℕ) : isDecimal (decimal n) = true := by
  simp only [isDecimal, decide_eq_true_eq]
  exact ⟨Nat.toDigits_ne_nil,
    List.all_eq_true.mpr fun _ h => Nat.isDigit_of_mem_toDigits (by decide) (by decide) h⟩

variable {n : ℕ}

lemma decimal_head_ne (h : 0 < n) : (decimal n).head? ≠ some '0' := by
  induction n using Nat.strong_induction_on with
  | h n ih =>
    rcases lt_or_ge n 10 with hn | hn
    · interval_cases n <;> decide
    · rw [decimal, Nat.toDigits_of_base_le (by decide) hn, List.head?_append_of_ne_nil _ Nat.toDigits_ne_nil]
      exact ih (n / 10) (by omega) (by omega)

lemma parseDecimal_decimal {bound : ℕ} (h : n < bound) : parseDecimal bound (decimal n) = some n := by
  have hv : Nat.ofDigitChars 10 (decimal n) 0 = n := Nat.ofDigitChars_ten_toDigits
  rw [parseDecimal, hv, if_pos]
  refine ⟨isDecimal_decimal n, ?_, h⟩
  rcases Nat.eq_zero_or_pos n with rfl | hn
  · exact .inl rfl
  · exact .inr (decimal_head_ne hn)

def hexValue (c : Char) : Option ℕ :=
  if c.isDigit then some (c.toNat - 48)
  else if 97 ≤ c.toNat ∧ c.toNat ≤ 102 then some (c.toNat - 87)
  else none

def isHex (t : Text) : Bool := t.all fun c => (hexValue c).isSome

def hex (bs : Bytes) : Text := bs.flatMap fun b => [Nat.digitChar (b.toNat / 16), Nat.digitChar (b.toNat % 16)]

def unhex : Text → Option Bytes
  | [] => some []
  | [_] => none
  | a :: b :: t => do
    let x ← hexValue a
    let y ← hexValue b
    let bs ← unhex t
    return UInt8.ofNat (16 * x + y) :: bs

lemma hexValue_digitChar (h : n < 16) : hexValue (Nat.digitChar n) = some n := by
  interval_cases n <;> rfl

lemma hex_cons (b : UInt8) (bs : Bytes) :
    hex (b :: bs) = Nat.digitChar (b.toNat / 16) :: Nat.digitChar (b.toNat % 16) :: hex bs := rfl

lemma hexValue_high (b : UInt8) : hexValue (Nat.digitChar (b.toNat / 16)) = some (b.toNat / 16) :=
  hexValue_digitChar (by have := b.toNat_lt; omega)

lemma hexValue_low (b : UInt8) : hexValue (Nat.digitChar (b.toNat % 16)) = some (b.toNat % 16) :=
  hexValue_digitChar (Nat.mod_lt _ (by decide))

lemma unhex_hex (bs : Bytes) : unhex (hex bs) = some bs := by
  induction bs with
  | nil => rfl
  | cons b bs ih =>
    have hb : 16 * (b.toNat / 16) + b.toNat % 16 = b.toNat := Nat.div_add_mod _ _
    rw [hex_cons, unhex, hexValue_high, hexValue_low, ih]
    simp only [Option.bind_eq_bind, Option.bind_some, hb, UInt8.ofNat_toNat, Option.pure_def]

lemma hex_inj {a b : Bytes} (h : hex a = hex b) : a = b := by
  have hu := congrArg unhex h
  rw [unhex_hex, unhex_hex] at hu
  exact Option.some.inj hu

lemma digitChar_of_hexValue {c : Char} (h : hexValue c = some n) : n < 16 ∧ Nat.digitChar n = c := by
  have hc : c = Char.ofNat c.toNat := (Char.ofNat_toNat c).symm
  unfold hexValue at h
  split_ifs at h with hdigit hletter
  · obtain ⟨hlow, hhigh⟩ : 48 ≤ c.toNat ∧ c.toNat ≤ 57 := by
      simpa [Char.isDigit, UInt32.le_iff_toNat_le] using hdigit
    obtain rfl := Option.some.inj h
    rw [hc]
    generalize c.toNat = k at hlow hhigh
    interval_cases k <;> exact ⟨by decide, by decide⟩
  · obtain ⟨hlow, hhigh⟩ := hletter
    obtain rfl := Option.some.inj h
    rw [hc]
    generalize c.toNat = k at hlow hhigh
    interval_cases k <;> exact ⟨by decide, by decide⟩

lemma hex_of_unhex {bs : Bytes} (h : unhex t = some bs) : hex bs = t := by
  induction t using unhex.induct generalizing bs with
  | case1 =>
    obtain rfl := Option.some.inj h
    rfl
  | case2 c => cases h
  | case3 a b t ih =>
    simp only [unhex, Option.bind_eq_bind, Option.bind_eq_some_iff, Option.pure_def, Option.some.injEq] at h
    obtain ⟨x, hx, y, hy, rest, hrest, rfl⟩ := h
    obtain ⟨hx, hx'⟩ := digitChar_of_hexValue hx
    obtain ⟨hy, hy'⟩ := digitChar_of_hexValue hy
    have hbyte : (UInt8.ofNat (16 * x + y)).toNat = 16 * x + y := UInt8.toNat_ofNat_of_lt' (by
      change 16 * x + y < 256
      omega)
    have hhigh : (16 * x + y) / 16 = x := by omega
    have hlow : (16 * x + y) % 16 = y := by omega
    rw [hex_cons, hbyte, hhigh, hlow, hx', hy', ih hrest]

lemma isHex_hex (bs : Bytes) : isHex (hex bs) = true := by
  induction bs with
  | nil => rfl
  | cons b bs ih =>
    rw [isHex] at ih
    simp [isHex, hex_cons, hexValue_high, hexValue_low, ih]

lemma hex_length (bs : Bytes) : (hex bs).length = 2 * bs.length := by
  induction bs with
  | nil => rfl
  | cons b bs ih =>
    simp only [hex_cons, List.length_cons, ih]
    omega

lemma hex_ne_nil {bs : Bytes} (h : bs ≠ []) : hex bs ≠ [] := by
  cases bs with
  | nil => exact absurd rfl h
  | cons b bs => simp [hex_cons]

lemma utf8_length_of_isHex (h : isHex t = true) : (utf8 t).length = t.length := by
  rw [isHex, List.all_eq_true] at h
  rw [utf8, List.length_flatMap]
  have hone : ∀ c ∈ t, (String.utf8EncodeChar c).length = 1 := by
    intro c hc
    have hv := h c hc
    rw [String.length_utf8EncodeChar, Char.utf8Size_eq_one_iff]
    have hle : c.toNat ≤ 102 := by
      unfold hexValue at hv
      split at hv
      · rename_i hd
        rw [Char.isDigit, Bool.and_eq_true, decide_eq_true_eq, decide_eq_true_eq] at hd
        have := UInt32.le_iff_toNat_le.mp hd.2
        exact this.trans (by decide)
      · split at hv
        · rename_i hl
          exact hl.2
        · cases hv
    rw [UInt32.le_iff_toNat_le]
    exact hle.trans (by decide)
  rw [List.map_congr_left hone]
  simp

lemma decimal_digit {c : Char} (h : c.isDigit = true) : decimal (c.toNat - 48) = [c] ∧ c.toNat - 48 < 10 := by
  obtain ⟨-, hle⟩ : 48 ≤ c.toNat ∧ c.toNat ≤ 57 := by simpa [Char.isDigit, UInt32.le_iff_toNat_le] using h
  have hlt : c.toNat - 48 < 10 := by omega
  rw [decimal, Nat.toDigits_of_lt_base hlt, (digitChar_of_hexValue (if_pos h)).2]
  exact ⟨rfl, hlt⟩

lemma decimal_ofDigitChars (hne : t ≠ []) (hall : t.all Char.isDigit = true)
    (hz : t = ['0'] ∨ t.head? ≠ some '0') : decimal (Nat.ofDigitChars 10 t 0) = t := by
  induction t using List.reverseRecOn with
  | nil => exact absurd rfl hne
  | append_singleton l c ih =>
    rw [List.all_append, Bool.and_eq_true] at hall
    obtain ⟨hc, hlt⟩ := decimal_digit (by simpa using hall.2)
    rw [Nat.ofDigitChars_append, Nat.ofDigitChars_cons, Nat.ofDigitChars_nil]
    by_cases hl : l = []
    · subst hl
      simpa using hc
    · have hhead : l.head? ≠ some '0' := by
        rcases hz with hz | hz
        · cases l <;> simp_all
        · rwa [List.head?_append_of_ne_nil _ hl] at hz
      have hdec := ih hl hall.1 (.inr hhead)
      have hpos : 0 < Nat.ofDigitChars 10 l 0 := by
        rw [Nat.pos_iff_ne_zero]
        intro h0
        rw [h0] at hdec
        exact hhead (hdec ▸ rfl)
      exact (Nat.toDigits_append_toDigits (by decide) hpos hlt).symm.trans (congrArg₂ (· ++ ·) hdec hc)

lemma decimal_of_parseDecimal {bound : ℕ} (h : parseDecimal bound t = some n) : decimal n = t ∧ n < bound := by
  rw [parseDecimal] at h
  split_ifs at h with hd
  obtain ⟨hdec, hz, hlt⟩ := hd
  obtain rfl := Option.some.inj h
  obtain ⟨hne, hall⟩ := of_decide_eq_true hdec
  exact ⟨decimal_ofDigitChars hne hall hz, hlt⟩

end Base
