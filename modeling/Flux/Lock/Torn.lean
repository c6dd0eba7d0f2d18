import Flux.Base.Mix
import Flux.Lock.Record

/-! What a write of the lock record that was cut short leaves is never taken for somebody else's file. -/

namespace Flux.Lock

open Base Reader

variable {blake3 : Bytes → Block 32} {r : LockRecord}

def checksum (blake3 : Bytes → Block 32) (body : Bytes) : Bytes := (blake3 body).1.take 16

def fieldBytes (t : Text) : Bytes := le 2 (utf8 t).length ++ utf8 t

def LockRecord.content (r : LockRecord) : Bytes := magic ++ le 4 formatVersion ++ (r.fields.map fieldBytes).flatten

structure LockRecord.Fits (r : LockRecord) : Prop where
  field : ∀ t ∈ r.fields, (utf8 t).length < 2 ^ 16
  content : r.content.length ≤ checksumAt

def LockRecord.body (r : LockRecord) : Bytes := zeroPadded checksumAt r.content

def LockRecord.block (blake3 : Bytes → Block 32) (r : LockRecord) : Bytes := r.body ++ checksum blake3 r.body

lemma mapM_putField {ts : List Text} (h : ∀ t ∈ ts, (utf8 t).length < 2 ^ 16) :
    ts.mapM putField = some (ts.map fieldBytes) := by
  induction ts with
  | nil => rfl
  | cons t ts ih =>
    obtain ⟨ht, hts⟩ := List.forall_mem_cons.mp h
    rw [List.mapM_cons, putField, if_pos ht, ih hts]
    rfl

lemma mapM_putField_some {ts : List Text} {fs : List Bytes} (h : ts.mapM putField = some fs) :
    ∀ t ∈ ts, (utf8 t).length < 2 ^ 16 := by
  induction ts generalizing fs with
  | nil => simp
  | cons t ts ih =>
    rw [List.mapM_cons, Option.bind_eq_bind, Option.bind_eq_some_iff] at h
    obtain ⟨f, hf, h⟩ := h
    rw [Option.bind_eq_bind, Option.bind_eq_some_iff] at h
    obtain ⟨fs', hfs, -⟩ := h
    refine List.forall_mem_cons.mpr ⟨?_, ih hfs⟩
    rw [putField] at hf
    split at hf
    · assumption
    · cases hf

lemma encode_eq (h : r.Fits) : r.encode blake3 = some (r.block blake3) := by
  rw [LockRecord.encode, mapM_putField h.field]
  exact if_pos h.content

lemma fits_of_encode {bytes : Bytes} (h : r.encode blake3 = some bytes) : r.Fits := by
  rw [LockRecord.encode, Option.bind_eq_bind, Option.bind_eq_some_iff] at h
  obtain ⟨fields, hfields, h⟩ := h
  have hfield := mapM_putField_some hfields
  rw [mapM_putField hfield] at hfields
  cases hfields
  refine ⟨hfield, ?_⟩
  dsimp only at h
  split at h
  · assumption
  · cases h

lemma checksum_length (body : Bytes) : (checksum blake3 body).length = 16 := by
  rw [checksum, List.length_take, (blake3 body).2]
  rfl

lemma body_length (h : r.Fits) : r.body.length = checksumAt := by
  rw [LockRecord.body, zeroPadded, List.length_append, List.length_replicate]
  exact Nat.add_sub_cancel' h.content

lemma nextField_append {t : Text} (q : Bytes) (h : (utf8 t).length < 2 ^ 16) :
    nextField (fieldBytes t ++ q) = some (t, q) := by
  rw [nextField, bind_apply, fieldBytes, List.append_assoc, num_le _ h, Option.bind_some, bind_apply,
    take_append q rfl, Option.bind_some, ofUtf8_utf8]
  rfl

lemma time_decimal (n : UInt64) : time (decimal n.toNat) = some n := by
  have hv : Nat.ofDigitChars 10 (decimal n.toNat) 0 = n.toNat := Nat.ofDigitChars_ten_toDigits
  rw [time, hv, if_pos ⟨isDecimal_decimal _, n.toNat_lt⟩, UInt64.ofNat_toNat]

lemma nextTime_append {n : UInt64} (q : Bytes) (h : (utf8 (decimal n.toNat)).length < 2 ^ 16) :
    nextTime (fieldBytes (decimal n.toNat) ++ q) = some (n, q) := by
  rw [nextTime, bind_apply, nextField_append q h, Option.bind_some, time_decimal]
  rfl

lemma readV1_append (q : Bytes) (h : ∀ t ∈ r.fields, (utf8 t).length < 2 ^ 16) :
    readV1 ((r.fields.map fieldBytes).flatten ++ q) = some (r, q) := by
  obtain ⟨key, op, owner, boot, target, workspace, creation, heartbeat⟩ := r
  simp only [LockRecord.fields, List.forall_mem_cons] at h
  obtain ⟨h1, h2, h3, h4, h5, h6, h7, h8, -⟩ := h
  simp only [LockRecord.fields, List.map_cons, List.map_nil, List.flatten_cons, List.flatten_nil, List.append_nil,
    List.append_assoc, readV1, bind_apply, nextField_append _ h1, nextField_append _ h2, nextField_append _ h3,
    nextField_append _ h4, nextField_append _ h5, nextField_append _ h6, nextTime_append _ h7,
      nextTime_append _ h8, Option.bind_some, pure_apply]

lemma parseV1_body (h : r.Fits) : parseV1 (slice (r.block blake3) 12 (checksumAt - 12)) = some r := by
  have hslice : slice (r.block blake3) 12 (checksumAt - 12) =
      (r.fields.map fieldBytes).flatten ++ List.replicate (checksumAt - r.content.length) 0 := by
    have hlen := body_length h
    have hsplit : r.body = magic ++ le 4 formatVersion ++
        ((r.fields.map fieldBytes).flatten ++ List.replicate (checksumAt - r.content.length) 0) := by
      rw [LockRecord.body, zeroPadded, ← List.append_assoc]
      rfl
    have hlead : (magic ++ le 4 formatVersion).length = 12 := rfl
    rw [LockRecord.block, hsplit, List.append_assoc]
    refine slice_append_exact _ _ _ hlead ?_
    rw [hsplit, List.length_append, hlead] at hlen
    omega
  rw [hslice, parseV1, readV1_append _ h.field]
  simp

structure Sealed (blake3 : Bytes → Block 32) (x : Bytes) : Prop where
  length : x.length = recordLen
  sum : checksum blake3 (x.take checksumAt) = x.drop checksumAt

variable {x : Bytes}

lemma Sealed.ext {y : Bytes} (hx : Sealed blake3 x) (hy : Sealed blake3 y)
    (h : x.take checksumAt = y.take checksumAt) : x = y := by
  rw [← List.take_append_drop checksumAt x, ← List.take_append_drop checksumAt y, ← hx.sum, ← hy.sum, h]

lemma sealed_block (blake3 : Bytes → Block 32) (h : r.Fits) : Sealed blake3 (r.block blake3) := by
  have hlen := body_length h
  refine ⟨?_, ?_⟩
  · rw [LockRecord.block, List.length_append, hlen, checksum_length]
    rfl
  · rw [LockRecord.block, List.take_left' hlen, List.drop_left' hlen]

lemma wholeMagic_block (blake3 : Bytes → Block 32) (r : LockRecord) : wholeMagic (r.block blake3) = true := by
  rw [wholeMagic, decide_eq_true_eq, LockRecord.block, LockRecord.body, zeroPadded, LockRecord.content]
  simp only [List.append_assoc, List.take_left]

lemma zeroOrMagic_of_whole (h : wholeMagic x = true) : zeroOrMagic x = true := by
  rw [zeroOrMagic_iff]
  rw [wholeMagic_iff] at h
  intro i b m hb hm
  rw [h i m hm] at hb
  cases hb
  exact .inr rfl

lemma ne_nil_of_length (h : x.length = recordLen) : x ≠ [] := by
  rintro rfl
  cases h

lemma decode_block (h : r.Fits) : decode blake3 (r.block blake3) = .record r := by
  have hsealed := sealed_block blake3 h
  have hwhole := wholeMagic_block blake3 r
  have hversion : ofLe (slice (r.block blake3) 8 4) = formatVersion := by
    have hsplit : r.block blake3 = magic ++ (le 4 formatVersion ++ ((r.fields.map fieldBytes).flatten ++
        (List.replicate (checksumAt - r.content.length) 0 ++ checksum blake3 r.body))) := by
      rw [LockRecord.block, LockRecord.body, zeroPadded]
      simp only [LockRecord.content, List.append_assoc]
    rw [hsplit, slice_append_exact magic _ _ (i := 8) rfl (le_length 4 _)]
    rfl
  rw [decode, if_neg (ne_nil_of_length hsealed.length),
    if_neg (by simp [zeroOrMagic_of_whole hwhole, hsealed.length]), if_neg (by simp [hsealed.length, hwhole]),
    if_neg fun hne => hne hsealed.sum, if_neg fun hne => hne hversion, parseV1_body h]

lemma uncertain_of_not_sealed (hf : decode blake3 x ≠ .foreign) (hs : ¬ Sealed blake3 x) :
    ∃ why, decode blake3 x = .uncertain why := by
  unfold decode at hf ⊢
  split at hf
  · next h => exact ⟨_, if_pos h⟩
  next hne =>
  split at hf
  · exact absurd rfl hf
  next hshape =>
  rw [if_neg hne, if_neg hshape]
  split
  · exact ⟨_, rfl⟩
  next hwhole =>
  rw [not_or, not_not] at hwhole
  split
  · exact ⟨_, rfl⟩
  · next hsum => exact absurd ⟨hwhole.1, not_not.mp hsum⟩ hs

lemma decode_long (hw : wholeMagic x = true) (hl : recordLen < x.length) :
    decode blake3 x = .uncertain .torn := by
  have hne : x ≠ [] := by
    rintro rfl
    cases hl
  rw [decode, if_neg hne, if_neg (by simp [zeroOrMagic_of_whole hw, hw]), if_pos (.inl hl.ne')]

lemma sealed_of_record {r' : LockRecord} (h : decode blake3 x = .record r') : Sealed blake3 x := by
  by_contra hs
  obtain ⟨why, hwhy⟩ := uncertain_of_not_sealed (by simp [h]) hs
  rw [h] at hwhy
  cases hwhy

section Cut

variable {old x : Bytes}

lemma torn_not_foreign (hr : r.Fits) (hold : decode blake3 old ≠ .foreign) (hx : Torn old (r.block blake3) x) :
    decode blake3 x ≠ .foreign := by
  have hlen := (sealed_block blake3 hr).length
  have hnew := wholeMagic_iff.mp (wholeMagic_block blake3 r)
  rw [decode_ne_foreign] at hold ⊢
  refine ⟨?_, ?_⟩
  · have hzero := zeroOrMagic_iff.mp hold.1
    rw [zeroOrMagic_iff]
    intro i b m hb hm
    rcases hx.byte i b hb with h | h | ⟨rfl, -⟩
    · exact hzero i b m h hm
    · rw [hnew i m hm] at h
      cases h
      exact .inr rfl
    · exact .inl rfl
  · -- A block that is too long was one before, and then its magic was whole.
    rcases hold.2 with hshort | hwhole
    · left
      have := hx.longest
      rw [hlen] at this
      omega
    · by_cases hle : x.length ≤ recordLen
      · exact .inl hle
      right
      rw [wholeMagic_iff] at hwhole ⊢
      intro i m hm
      have hi : i < magic.length := (List.getElem?_eq_some_iff.mp hm).1
      have hmagic : magic.length ≤ recordLen := by decide
      have hix : i < x.length := by omega
      have hc := List.getElem?_eq_getElem hix
      rcases hx.byte i _ hc with h | h | ⟨-, h⟩
      · rw [hc, ← h, hwhole i m hm]
      · rw [hc, ← h, hnew i m hm]
      · have := (List.getElem?_eq_some_iff.mp (hwhole i m hm)).1
        omega

/-- Among the mixes of `a` and `b` only `b`, or `a` where `sum` is its checksum, has a checksum that is a mix of
`sum` and that of `b`. -/
def Distinguishes (blake3 : Bytes → Block 32) (a sum b : Bytes) : Prop :=
  ∀ m, Mixes a b m → Mixes sum (checksum blake3 b) (checksum blake3 m) → m = b ∨ m = a ∧ checksum blake3 a = sum

lemma take_block (blake3 : Bytes → Block 32) (h : r.Fits) : (r.block blake3).take checksumAt = r.body :=
  List.take_left' (body_length h)

lemma torn_sealed (hr : r.Fits) (hle : old.length ≤ recordLen) (hx : Torn old (r.block blake3) x)
    (hs : Sealed blake3 x)
    (hd : Distinguishes blake3 ((zeroPadded recordLen old).take checksumAt)
      ((zeroPadded recordLen old).drop checksumAt)
      r.body) : x = r.block blake3 ∨ Sealed blake3 (zeroPadded recordLen old) ∧ x = zeroPadded recordLen old := by
  have hnew := sealed_block blake3 hr
  have hbody := take_block blake3 hr
  have hmix := Mixes.of_torn hx (hle.trans hnew.length.ge) (hs.length.trans hnew.length.symm)
  rw [hnew.length] at hmix
  have htake := hmix.take checksumAt
  have hdrop := hmix.drop checksumAt
  rw [hbody] at htake
  rw [← hs.sum, ← hnew.sum, hbody] at hdrop
  rcases hd _ htake hdrop with heq | ⟨heq, hsum⟩
  · exact .inl (hs.ext hnew (heq.trans hbody.symm))
  · have hlen : (zeroPadded recordLen old).length = recordLen := by
      rw [zeroPadded, List.length_append, List.length_replicate]
      omega
    have hpadded : Sealed blake3 (zeroPadded recordLen old) := ⟨hlen, hsum⟩
    exact .inr ⟨hpadded, hs.ext hpadded heq⟩

lemma zeroPadded_of_le {n : ℕ} {a : Bytes} (h : n ≤ a.length) : zeroPadded n a = a := by
  rw [zeroPadded, Nat.sub_eq_zero_of_le h, List.replicate_zero, List.append_nil]

end Cut

theorem torn_write_decoded (blake3 : Bytes → Block 32) {r : LockRecord} {old new x : Bytes}
    (hr : r.encode blake3 = some new) (hold : decode blake3 old ≠ .foreign) (hx : Torn old new x) :
    decode blake3 new = .record r ∧ decode blake3 x ≠ .foreign ∧
      (Sealed blake3 old ∨ old.length ≤ checksumAt ∧ ¬ Sealed blake3 (zeroPadded recordLen old) →
        Distinguishes blake3 ((zeroPadded recordLen old).take checksumAt)
        ((zeroPadded recordLen old).drop checksumAt) (new.take checksumAt) →
        (∃ why, decode blake3 x = .uncertain why) ∨ decode blake3 x = decode blake3 old ∨
        decode blake3 x = .record r) ∧ ∀ r', decode blake3 old = .record r' → Sealed blake3 old := by
  have hfits := fits_of_encode hr
  rw [encode_eq hfits] at hr
  cases hr
  have hforeign := torn_not_foreign hfits hold hx
  refine ⟨decode_block hfits, hforeign, ?_, fun r' => sealed_of_record⟩
  intro hprior hd
  by_cases hs : Sealed blake3 x
  · right
    rw [take_block blake3 hfits] at hd
    have hle : old.length ≤ recordLen := by
      rcases hprior with h | ⟨h, -⟩
      · exact h.length.le
      · exact h.trans (Nat.sub_le _ _)
    rcases torn_sealed hfits hle hx hs hd with rfl | ⟨hpadded, rfl⟩
    · exact .inr (decode_block hfits)
    · rcases hprior with h | ⟨-, h⟩
      · exact .inl (by rw [zeroPadded_of_le h.length.ge])
      · exact absurd hpadded h
  · exact .inl (uncertain_of_not_sealed hforeign hs)

def beaten (heartbeat : UInt64) : LockRecord := ⟨[], [], [], [], [], [], 0, heartbeat⟩

def beatenLead : Bytes := magic ++ [1, 0, 0, 0, 0, 0, 0, 0, 0, 0, 0, 0, 0, 0, 0, 0, 1, 0, 48, 1, 0]

lemma beaten_content_one : (beaten 1).content = beatenLead ++ [49] := by decide

lemma beaten_content_two : (beaten 2).content = beatenLead ++ [50] := by decide

lemma beaten_fits_one : (beaten 1).Fits := ⟨by decide, by rw [beaten_content_one]; decide⟩

lemma beaten_fits_two : (beaten 2).Fits := ⟨by decide, by rw [beaten_content_two]; decide⟩

def beatenPadding : Bytes := List.replicate (checksumAt - 30) 0

lemma beaten_body_one : (beaten 1).body = beatenLead ++ 49 :: beatenPadding := by
  rw [LockRecord.body, zeroPadded, beaten_content_one, List.append_assoc]
  rfl

lemma beaten_body_two : (beaten 2).body = beatenLead ++ 50 :: beatenPadding := by
  rw [LockRecord.body, zeroPadded, beaten_content_two, List.append_assoc]
  rfl

def digitHash (bs : Bytes) : Block 32 := ⟨List.replicate 32 (bs.getD 29 0), List.length_replicate⟩

lemma digitHash_beaten (digit : UInt8) (q : Bytes) :
    digitHash (beatenLead ++ digit :: q) = ⟨List.replicate 32 digit, List.length_replicate⟩ := by
  simp [digitHash, beatenLead, magic]

theorem torn_write_decoded_beaten :
    (∃ why, decode digitHash ((beaten 1).body ++ checksum digitHash (beaten 2).body) = .uncertain why) ∨
      decode digitHash ((beaten 1).body ++ checksum digitHash (beaten 2).body) =
        decode digitHash ((beaten 1).block digitHash) ∨
      decode digitHash ((beaten 1).body ++ checksum digitHash (beaten 2).body) = .record (beaten 2) := by
  have hone := sealed_block digitHash beaten_fits_one
  have htwo := sealed_block digitHash beaten_fits_two
  have hlen : ((beaten 1).body ++ checksum digitHash (beaten 2).body).length = recordLen := by
    rw [List.length_append, body_length beaten_fits_one, checksum_length]
    rfl
  have htorn : Torn ((beaten 1).block digitHash) ((beaten 2).block digitHash)
      ((beaten 1).body ++ checksum digitHash (beaten 2).body) := by
    refine ⟨by rw [hone.length, hlen]; exact min_le_left _ _, by rw [hone.length, hlen]; exact le_max_left _ _, ?_⟩
    intro i c hc
    rcases lt_or_ge i (beaten 1).body.length with hi | hi
    · left
      rwa [LockRecord.block, List.getElem?_append_left hi, ← List.getElem?_append_left hi]
    · right
      left
      have hi' : (beaten 2).body.length ≤ i := by
        rwa [body_length beaten_fits_two, ← body_length beaten_fits_one]
      rw [List.getElem?_append_right hi, body_length beaten_fits_one] at hc
      rwa [LockRecord.block, List.getElem?_append_right hi', body_length beaten_fits_two]
  have hdistinct : Distinguishes digitHash ((zeroPadded recordLen ((beaten 1).block digitHash)).take checksumAt)
      ((zeroPadded recordLen ((beaten 1).block digitHash)).drop checksumAt)
        (((beaten 2).block digitHash).take checksumAt) := by
    rw [zeroPadded_of_le hone.length.ge, take_block digitHash beaten_fits_one,
      take_block digitHash beaten_fits_two, ← hone.sum, take_block digitHash beaten_fits_one]
    intro m hm _
    rw [beaten_body_one, beaten_body_two] at hm ⊢
    exact hm.eq_or.symm.imp id fun heq => ⟨heq, rfl⟩
  have hold : decode digitHash ((beaten 1).block digitHash) ≠ .foreign := by simp [decode_block beaten_fits_one]
  exact (torn_write_decoded digitHash (encode_eq beaten_fits_two) hold htorn).2.2.1 (.inl hone) hdistinct

theorem third_record_after_torn :
    (beaten 2).encode digitHash = some ((beaten 2).block digitHash) ∧
      decode digitHash ((beaten 1).block digitHash ++ [0]) = .uncertain .torn ∧
      Torn ((beaten 1).block digitHash ++ [0]) ((beaten 2).block digitHash) ((beaten 1).block digitHash) ∧
      decode digitHash ((beaten 1).block digitHash) = .record (beaten 1) ∧ beaten 1 ≠ beaten 2 ∧
      checksum digitHash (beaten 1).body ≠ checksum digitHash (beaten 2).body := by
  have hone := (sealed_block digitHash beaten_fits_one).length
  have htwo := (sealed_block digitHash beaten_fits_two).length
  refine ⟨encode_eq beaten_fits_two, ?_, ⟨?_, ?_, ?_⟩, decode_block beaten_fits_one, by decide, ?_⟩
  · have hwhole := wholeMagic_iff.mp (wholeMagic_block digitHash (beaten 1))
    refine decode_long (wholeMagic_iff.mpr fun i m hm => ?_) ?_
    · rw [List.getElem?_append_left (List.getElem?_eq_some_iff.mp (hwhole i m hm)).1, hwhole i m hm]
    · rw [List.length_append, hone]
      exact Nat.lt_succ_self _
  · rw [htwo, hone]
    exact min_le_right _ _
  · rw [htwo, hone]
    exact le_max_right _ _
  · intro i c hc
    left
    rw [List.getElem?_append_left (List.getElem?_eq_some_iff.mp hc).1, hc]
  · rw [checksum, checksum, beaten_body_one, beaten_body_two, digitHash_beaten, digitHash_beaten]
    decide

end Flux.Lock
