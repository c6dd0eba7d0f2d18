import Flux.Base.Text

/-! Reading UTF-8 with the position of the first error, as the standard library of the source reports it. -/

namespace Base

def frontChar (bs : Bytes) : Option Char := bs.toByteArray.utf8DecodeChar? 0

structure Utf8Error where
  validUpTo : ℕ
  errorLen : Option ℕ
  deriving DecidableEq, Repr

def isTail (b : UInt8) : Bool := 0x80 ≤ b ∧ b ≤ 0xBF

def secondOfThree (first b : UInt8) : Bool :=
  if first = 0xE0 then 0xA0 ≤ b ∧ b ≤ 0xBF else if first = 0xED then 0x80 ≤ b ∧ b ≤ 0x9F else isTail b

def secondOfFour (first b : UInt8) : Bool :=
  if first = 0xF0 then 0x90 ≤ b ∧ b ≤ 0xBF else if first = 0xF4 then 0x80 ≤ b ∧ b ≤ 0x8F else isTail b

/-- How many bytes are wrong where no character begins; `none` when the bytes end within one. -/
def errorLen : Bytes → Option ℕ
  | [] => none
  | first :: rest =>
    if 0xC2 ≤ first ∧ first ≤ 0xDF then if rest = [] then none else some 1
    else if 0xE0 ≤ first ∧ first ≤ 0xEF then
      match rest with
      | [] => none
      | b :: rest => if secondOfThree first b then if rest = [] then none else some 2 else some 1
    else if 0xF0 ≤ first ∧ first ≤ 0xF4 then
      match rest with
      | [] => none
      | b :: rest =>
        if secondOfFour first b then
          match rest with
          | [] => none
          | c :: rest => if isTail c then if rest = [] then none else some 3 else some 2
        else some 1
    else some 1

lemma frontChar_encode (c : Char) (rest : Bytes) : frontChar (String.utf8EncodeChar c ++ rest) = some c := by
  rw [frontChar, List.toByteArray_append]
  exact ByteArray.utf8DecodeChar?_utf8EncodeChar_append

variable {bs : Bytes}

lemma eq_of_frontChar {c : Char} (h : frontChar bs = some c) : ∃ rest, bs = String.utf8EncodeChar c ++ rest := by
  obtain ⟨rest, hrest⟩ := ByteArray.exists_of_utf8DecodeChar?_eq_some h
  refine ⟨rest.data.toList, ?_⟩
  have hlist := congrArg (fun b : ByteArray => b.data.toList) hrest
  simpa only [List.toList_data_toByteArray, ByteArray.data_append, Array.toList_append] using hlist

lemma drop_char_lt (c : Char) (hne : bs ≠ []) : (bs.drop c.utf8Size).length < bs.length := by
  have hpos := List.length_pos_iff.mpr hne
  have := c.utf8Size_pos
  rw [List.length_drop]
  omega

def fromUtf8 (bs : Bytes) : Except Utf8Error Text :=
  if _hne : bs = [] then .ok []
  else
    match frontChar bs with
    | none => .error ⟨0, errorLen bs⟩
    | some c =>
      match fromUtf8 (bs.drop c.utf8Size) with
      | .ok t => .ok (c :: t)
      | .error e => .error ⟨c.utf8Size + e.validUpTo, e.errorLen⟩
termination_by bs.length
decreasing_by exact drop_char_lt c _hne

lemma fromUtf8_nil : fromUtf8 [] = .ok [] := by
  rw [fromUtf8, dif_pos rfl]

lemma fromUtf8_encode (c : Char) (rest : Bytes) : fromUtf8 (String.utf8EncodeChar c ++ rest) =
    match fromUtf8 rest with
    | .ok t => .ok (c :: t)
    | .error e => .error ⟨c.utf8Size + e.validUpTo, e.errorLen⟩ := by
  have hne : String.utf8EncodeChar c ++ rest ≠ [] := by simp
  have hdrop : (String.utf8EncodeChar c ++ rest).drop c.utf8Size = rest :=
    List.drop_left' (String.length_utf8EncodeChar c)
  rw [fromUtf8, dif_neg hne, frontChar_encode]
  dsimp only
  rw [hdrop]

lemma fromUtf8_of_none (hne : bs ≠ []) (h : frontChar bs = none) : fromUtf8 bs = .error ⟨0, errorLen bs⟩ := by
  rw [fromUtf8, dif_neg hne, h]

theorem fromUtf8_spec (bs : Bytes) :
    (∀ t, fromUtf8 bs = .ok t → utf8 t = bs) ∧
    ∀ e, fromUtf8 bs = .error e → ∃ t bad, bs = utf8 t ++ bad ∧ e.validUpTo = (utf8 t).length ∧ bad ≠ [] ∧
      frontChar bad = none ∧ e.errorLen = errorLen bad := by
  induction hn : bs.length using Nat.strong_induction_on generalizing bs with
  | h n ih =>
    subst hn
    by_cases hne : bs = []
    · subst hne
      rw [fromUtf8_nil]
      refine ⟨fun t ht => ?_, fun e he => ?_⟩
      · rw [← Except.ok.inj ht]
        rfl
      · cases he
    · cases hfront : frontChar bs with
      | none =>
        rw [fromUtf8_of_none hne hfront]
        refine ⟨fun t ht => ?_, fun e he => ?_⟩
        · cases ht
        · rw [← Except.error.inj he]
          exact ⟨[], bs, rfl, rfl, hne, hfront, rfl⟩
      | some c =>
        obtain ⟨rest, rfl⟩ := eq_of_frontChar hfront
        have hlt : rest.length < (String.utf8EncodeChar c ++ rest).length := by
          rw [List.length_append, String.length_utf8EncodeChar]
          have := c.utf8Size_pos
          omega
        obtain ⟨hok, herr⟩ := ih _ hlt rest rfl
        rw [fromUtf8_encode]
        refine ⟨fun t ht => ?_, fun e he => ?_⟩
        · cases hrest : fromUtf8 rest with
          | error e => rw [hrest] at ht; cases ht
          | ok t' =>
            rw [hrest] at ht
            rw [← Except.ok.inj ht, ← hok t' hrest]
            rfl
        · cases hrest : fromUtf8 rest with
          | ok t' => rw [hrest] at he; cases he
          | error e' =>
            rw [hrest] at he
            obtain ⟨t, bad, rfl, hup, hbad, hnone, hlen⟩ := herr e' hrest
            rw [← Except.error.inj he]
            refine ⟨c :: t, bad, (List.append_assoc _ _ _).symm, ?_, hbad, hnone, hlen⟩
            change c.utf8Size + e'.validUpTo = (String.utf8EncodeChar c ++ utf8 t).length
            rw [hup, List.length_append, String.length_utf8EncodeChar]

lemma fromUtf8_utf8 (t : Text) : fromUtf8 (utf8 t) = .ok t := by
  induction t with
  | nil => exact fromUtf8_nil
  | cons c t ih =>
    change fromUtf8 (String.utf8EncodeChar c ++ utf8 t) = _
    rw [fromUtf8_encode, ih]

lemma errorLen_le {n : ℕ} (h : errorLen bs = some n) : 1 ≤ n ∧ n ≤ bs.length := by
  unfold errorLen at h
  grind

end Base
