import Flux.Wal.Replay

/-! The scan of a segment that is all there: how its bytes arrive does not matter. -/

namespace Flux.Wal

open Base

def wholeZeros (bytes : Bytes) : Option (ℕ × TailReason) :=
  if allZero (afterMagic bytes) then some (bytes.length, .zeroFilled) else none

def wholeDamage (bytes : Bytes) (trustSpan : Bool) : Option (ℕ × TailReason) :=
  if trustSpan = true ∧ declaredSpan bytes = some bytes.length then some (bytes.length, .spanReachesEnd)
  else wholeZeros bytes

def scanBytes (blake3 : Bytes → Digest) (operationId : Bytes) (st : Progress) (bytes : Bytes) :
    Except WalError Scan :=
  match _ : decodeNext blake3 bytes with
  | .record h b len checksum =>
    match accept operationId st h b len checksum with
    | .error e => .error e
    | .ok st' => scanBytes blake3 operationId st' (bytes.drop len)
  | .endOfLog => .ok st.out
  | .tornTail => .ok (st.cut bytes.length (tornReason bytes))
  | .corrupt why =>
    match wholeDamage bytes true with
    | some (len, reason) => .ok (st.cut len reason)
    | none => .error (.corrupt st.offset why)
  | .unsupported format checksum =>
    match wholeDamage bytes false with
    | some (len, reason) => .ok (st.cut len reason)
    | none => .error (.unsupported format checksum)
termination_by bytes.length
decreasing_by
  have := decodeNext_record ‹decodeNext blake3 bytes = _›
  simp only [List.length_drop]
  omega

def OrIo {α : Type} (r : Input) (x y : Except WalError α) : Prop :=
  x = y ∨ ¬ r.Clean ∧ ∃ e, x = .error (.io e)

variable {α : Type} {r : Input} {p : Bytes}

lemma OrIo.mono {r' : Input} {x y : Except WalError α} (h : OrIo r' x y) (hc : r.Clean → r'.Clean) :
    OrIo r x y :=
  h.imp id fun ⟨hn, he⟩ => ⟨fun h => hn (hc h), he⟩

lemma OrIo.ok_inj {a b : α} (h : OrIo r (.ok a) (.ok b)) : a = b := by
  rcases h with h | ⟨-, e, h⟩ <;> cases h
  rfl

lemma OrIo.error_any {β : Type} {e : WalError} {a : α} (h : OrIo r (.error e) (.ok a)) (y : Except WalError β) :
    OrIo r (.error e) y := by
  rcases h with h | ⟨hc, x, h⟩ <;> cases h
  exact .inr ⟨hc, x, rfl⟩

variable {window : Bytes}

lemma orIo_of_fill {e : WalError} (h : fill r window = .error e) (y : Except WalError α) :
    OrIo r (.error e) y := by
  obtain ⟨hc, x, rfl⟩ := fill_error h
  exact .inr ⟨hc, x, rfl⟩

lemma zeroTail_eq (r : Input) (part : Bytes) (total : ℕ) : OrIo r (zeroTail r part total)
    (.ok (if allZero (part ++ r.rest) then some (total + (part ++ r.rest).length, .zeroFilled) else none)) := by
  fun_induction zeroTail r part total with
  | case1 r part total h e hf => exact orIo_of_fill hf _
  | case2 r part total h w r' hf =>
    have hr := (fill_ok hf).2.1.mp rfl
    left
    rw [hr, List.append_nil, if_pos h]
  | case3 r part total h w r' hf ih =>
    obtain ⟨h1, -, -, -, -, hc⟩ := fill_ok hf
    rw [List.nil_append] at h1
    rw [← h1] at ih
    rw [allZero_append, h, Bool.true_and, List.length_append, ← Nat.add_assoc]
    exact ih.mono hc
  | case4 r part total h =>
    left
    rw [allZero_append, Bool.not_eq_true _ |>.mp h, Bool.false_and, if_neg Bool.false_ne_true]

lemma afterMagic_append (q : Bytes) (h : 4 ≤ p.length) : afterMagic (p ++ q) = afterMagic p ++ q := by
  rw [afterMagic, afterMagic, List.take_append_of_le_length h]
  split
  · rw [List.drop_append_of_le_length h]
  · rfl

lemma afterMagic_length (p : Bytes) : (afterMagic p).length ≤ p.length := by
  rw [afterMagic]
  split
  · simp
  · rfl

lemma trailingZeros_eq (r : Input) (h : 4 ≤ window.length) :
    OrIo r (trailingZeros r window) (.ok (wholeZeros (window ++ r.rest))) := by
  have hz := zeroTail_eq r (afterMagic window) (window.length - (afterMagic window).length)
  have hl := afterMagic_length window
  have hs : window.length - (afterMagic window).length + (afterMagic window ++ r.rest).length =
      (window ++ r.rest).length := by
    simp only [List.length_append]
    omega
  rw [wholeZeros, afterMagic_append _ h, ← hs]
  exact hz

lemma trailingDamage_eq (r : Input) (trustSpan : Bool) (h : 4 ≤ window.length)
    (hs : trustSpan = true → declaredSpan (window ++ r.rest) = declaredSpan window)
    (hw : trustSpan = true → ∀ n, declaredSpan window = some n → n ≤ window.length) :
    OrIo r (trailingDamage r window trustSpan) (.ok (wholeDamage (window ++ r.rest) trustSpan)) := by
  have hz := trailingZeros_eq r h
  rw [trailingDamage, wholeDamage]
  by_cases ht : trustSpan = true ∧ declaredSpan window = some window.length
  · rw [if_pos ht]
    cases hf : fill r window with
    | error e => exact orIo_of_fill hf _
    | ok x =>
      obtain ⟨more, window', r'⟩ := x
      obtain ⟨h1, h2, -, hl, h5, hc⟩ := fill_ok hf
      cases more with
      | false =>
        left
        rw [h2.mp rfl, List.append_nil, if_pos ht]
      | true =>
        have hlt := h5 rfl
        have hne : ¬ (trustSpan = true ∧
            declaredSpan (window ++ r.rest) = some (window ++ r.rest).length) := by
          rintro ⟨-, hd⟩
          rw [hs ht.1, ht.2, Option.some.injEq, List.length_append] at hd
          omega
        rw [if_neg hne, h1]
        exact (trailingZeros_eq r' (by omega)).mono hc
  · rw [if_neg ht]
    have hne : ¬ (trustSpan = true ∧ declaredSpan (window ++ r.rest) = some (window ++ r.rest).length) := by
      rintro ⟨htr, hd⟩
      rw [hs htr] at hd
      have hle := hw htr _ hd
      rw [List.length_append] at hle
      have : r.rest = [] := List.eq_nil_of_length_eq_zero (by omega)
      rw [this, List.append_nil] at hd
      exact ht ⟨htr, hd⟩
    rwa [if_neg hne]

variable {blake3 : Bytes → Digest} {operationId : Bytes}

lemma decodeNext_short (blake3 : Bytes → Digest) (hl : p.length < prefixLen) :
    decodeNext blake3 p = .endOfLog ∨ decodeNext blake3 p = .tornTail := by
  by_cases hn : p = []
  · exact .inl (if_pos hn)
  · right
    rw [decodeNext, if_neg hn, if_pos hl]

lemma prefixLen_le (he : decodeNext blake3 p ≠ .endOfLog) (ht : decodeNext blake3 p ≠ .tornTail) :
    prefixLen ≤ p.length := by
  by_contra hl
  rcases decodeNext_short blake3 (not_le.mp hl) with h | h
  · exact he h
  · exact ht h

lemma decodeNext_corrupt {why : String} (h : decodeNext blake3 p = .corrupt why) :
    prefixLen ≤ p.length ∧ (∀ q, declaredSpan (p ++ q) = declaredSpan p) ∧
      ∀ n, declaredSpan p = some n → n ≤ p.length := by
  have hl : prefixLen ≤ p.length := by
    apply prefixLen_le <;> rw [h] <;> simp
  have hl' : ∀ q : Bytes, ¬ (p ++ q).length < prefixLen := by
    intro q
    rw [List.length_append]
    omega
  by_cases hm : p.take 4 ≠ magic
  · refine ⟨hl, fun q => ?_, fun n hn => ?_⟩
    · rw [declaredSpan, declaredSpan, (leading_append q hl).1, if_pos (.inr hm), if_pos (.inr hm)]
    · rw [declaredSpan, if_pos (.inr hm)] at hn
      cases hn
  have hv : ¬ (formatOf p ≠ formatVersion ∨ p.getD 6 0 ≠ checksumVersion) := by
    intro hv
    simp only [decodeNext, if_neg hm, if_pos hv] at h
    split_ifs at h
  have hp : payloadAt p ≤ p.length := by
    by_contra hp
    simp only [decodeNext, if_neg hm, if_neg hv] at h
    rw [if_pos (show p.length < payloadAt p by omega)] at h
    split_ifs at h
  have hpre : ¬ (p.length < prefixLen ∨ p.take 4 ≠ magic) := not_or.mpr ⟨by omega, hm⟩
  refine ⟨hl, fun q => ?_, fun n hn => ?_⟩
  · obtain ⟨h4, hf, h6, -⟩ := leading_append q hl
    obtain ⟨h1, h2, h3⟩ := lengths_append q hl hp
    have hpre' : ¬ ((p ++ q).length < prefixLen ∨ p.take 4 ≠ magic) := not_or.mpr ⟨hl' q, hm⟩
    have hx : ¬ p.length < payloadAt p := by omega
    have hx' : ¬ (p ++ q).length < payloadAt p := by rw [List.length_append]; omega
    simp only [declaredSpan, h4, hf, h6, h1, h2, h3, if_neg hpre, if_neg hpre', if_neg hv, if_neg hx, if_neg hx']
  · simp only [declaredSpan, if_neg hpre, if_neg hv] at hn
    split_ifs at hn with hx hb
    cases hn
    by_contra hr
    simp only [decodeNext, if_neg hm, if_neg hv, if_neg hx, if_neg hb] at h
    rw [if_pos (show p.length < recordLen p by omega)] at h
    split_ifs at h

lemma decodeNext_endOfLog {bytes : Bytes} (hd : decodeNext blake3 bytes = .endOfLog) : bytes = [] := by
  by_contra hn
  simp only [decodeNext, if_neg hn, decodeWhole] at hd
  split_ifs at hd
  split at hd <;> cases hd

section Equations

variable {st : Progress} {bytes : Bytes}

lemma scanBytes_record {h : Header} {b : Body} {len : ℕ} {sum : Block 16}
    (hd : decodeNext blake3 bytes = .record h b len sum) :
    scanBytes blake3 operationId st bytes = match accept operationId st h b len sum with
      | .error e => .error e
      | .ok st' => scanBytes blake3 operationId st' (bytes.drop len) := by
  rw [scanBytes]
  split <;> simp_all

lemma scanBytes_stop (hd : decodeNext blake3 bytes = .endOfLog ∨ decodeNext blake3 bytes = .tornTail) :
    scanBytes blake3 operationId st bytes =
      .ok (if bytes = [] then st.out else st.cut bytes.length (tornReason bytes)) := by
  rcases hd with hd | hd
  · rw [if_pos (decodeNext_endOfLog hd), scanBytes]
    split <;> simp_all
  · have hb : bytes ≠ [] := by
      rintro rfl
      cases hd
    rw [if_neg hb, scanBytes]
    split <;> simp_all

lemma scanBytes_corrupt {why : String} (hd : decodeNext blake3 bytes = .corrupt why) :
    scanBytes blake3 operationId st bytes = match wholeDamage bytes true with
      | some (len, reason) => .ok (st.cut len reason)
      | none => .error (.corrupt st.offset why) := by
  rw [scanBytes]
  split <;> simp_all

lemma scanBytes_unsupported {format : ℕ} {sum : UInt8} (hd : decodeNext blake3 bytes = .unsupported format sum) :
    scanBytes blake3 operationId st bytes = match wholeDamage bytes false with
      | some (len, reason) => .ok (st.cut len reason)
      | none => .error (.unsupported format sum) := by
  rw [scanBytes]
  split <;> simp_all

end Equations

lemma trailingDamage_corrupt {why : String} (r : Input) (hd : decodeNext blake3 window = .corrupt why) :
    OrIo r (trailingDamage r window true) (.ok (wholeDamage (window ++ r.rest) true)) := by
  obtain ⟨hl, hs, hw⟩ := decodeNext_corrupt hd
  rw [prefixLen] at hl
  exact trailingDamage_eq r true (by omega) (fun _ => hs _) fun _ => hw

lemma trailingDamage_unsupported {format : ℕ} {sum : UInt8} (r : Input)
    (hd : decodeNext blake3 window = .unsupported format sum) :
    OrIo r (trailingDamage r window false) (.ok (wholeDamage (window ++ r.rest) false)) := by
  have hl : prefixLen ≤ window.length := by
    apply prefixLen_le <;> rw [hd] <;> simp
  rw [prefixLen] at hl
  exact trailingDamage_eq r false (by omega) (fun h => by cases h) fun h => by cases h

lemma decodeNext_window {d : Decoded} (q : Bytes) (hd : decodeNext blake3 window = d) (he : d ≠ .endOfLog)
    (ht : d ≠ .tornTail) : decodeNext blake3 (window ++ q) = d := by
  subst hd
  exact decodeNext_append q he ht

lemma scanLoop_eq (st : Progress) (window : Bytes) (r : Input) :
    OrIo r (scanLoop blake3 operationId st window r) (scanBytes blake3 operationId st (window ++ r.rest)) := by
  fun_induction scanLoop blake3 operationId st window r with
  | case1 st window r h b len sum hd e ha =>
    rw [scanBytes_record (decodeNext_window r.rest hd (by simp) (by simp)), ha]
    exact .inl rfl
  | case2 st window r h b len sum hd st' ha ih =>
    rw [scanBytes_record (decodeNext_window r.rest hd (by simp) (by simp)), ha,
      List.drop_append_of_le_length (decodeNext_record hd).2]
    exact ih
  | case3 st window r hd e hf | case6 st window r hd e hf => exact orIo_of_fill hf _
  | case4 st window r hd window' r' hf ih | case7 st window r hd window' r' hf ih =>
    obtain ⟨h1, -, -, -, -, hc⟩ := fill_ok hf
    rw [h1]
    exact ih.mono hc
  | case5 st window r hd window' r' hf =>
    obtain ⟨-, h2, h3, -⟩ := fill_ok hf
    rw [h2.mp rfl, h3 rfl, List.append_nil, scanBytes_stop (.inl hd)]
    exact .inl rfl
  | case8 st window r hd window' r' hf =>
    obtain ⟨-, h2, h3, -⟩ := fill_ok hf
    rw [h2.mp rfl, h3 rfl, List.append_nil, scanBytes_stop (.inr hd)]
    exact .inl rfl
  | case9 st window r why hd e ht => exact (ht ▸ trailingDamage_corrupt r hd).error_any _
  | case10 st window r why hd len reason ht =>
    have hx := trailingDamage_corrupt r hd
    rw [ht] at hx
    rw [scanBytes_corrupt (decodeNext_window r.rest hd (by simp) (by simp)), ← hx.ok_inj]
    exact .inl rfl
  | case11 st window r why hd ht =>
    have hx := trailingDamage_corrupt r hd
    rw [ht] at hx
    rw [scanBytes_corrupt (decodeNext_window r.rest hd (by simp) (by simp)), ← hx.ok_inj]
    exact .inl rfl
  | case12 st window r format sum hd e ht => exact (ht ▸ trailingDamage_unsupported r hd).error_any _
  | case13 st window r format sum hd len reason ht =>
    have hx := trailingDamage_unsupported r hd
    rw [ht] at hx
    rw [scanBytes_unsupported (decodeNext_window r.rest hd (by simp) (by simp)), ← hx.ok_inj]
    exact .inl rfl
  | case14 st window r format sum hd ht =>
    have hx := trailingDamage_unsupported r hd
    rw [ht] at hx
    rw [scanBytes_unsupported (decodeNext_window r.rest hd (by simp) (by simp)), ← hx.ok_inj]
    exact .inl rfl

end Flux.Wal
