import Flux.Wal.Codec

/-! Whatever the decoder accepts is the encoding of what it returns, so the codec is a bijection. -/

namespace Flux.Wal

open Base Base.Reader

variable {blake3 : Bytes → Digest} {bs q : Bytes}

lemma vec_some_putBytes {v : Bytes} (h : vec bs = some (v, q)) : bs = putBytes v ++ q := by
  rw [putBytes, List.append_assoc]
  exact (vec_some h).2

lemma parseMtime_some {m : Option (Int64 × UInt32)} (h : parseMtime bs = some (m, q)) :
    bs = mtimeBytes m ++ q := by
  obtain ⟨tag, r, ht, h⟩ := bind_some h
  have hb := u8_some ht
  split_ifs at h with h0 h1
  · obtain ⟨rfl, rfl⟩ := pure_some h
    rw [hb, h0]
    rfl
  · obtain ⟨secs, r', hs, h⟩ := bind_some h
    obtain ⟨nanos, r'', hn, h⟩ := bind_some h
    obtain ⟨rfl, rfl⟩ := pure_some h
    rw [hb, h1, i64_some hs, u32_some hn]
    simp only [mtimeBytes, List.cons_append, List.append_assoc]
  · cases h

lemma parseFileBegin_some {f : FileBegin} (h : parseFileBegin bs = some (f, q)) :
    bs = payload (.fileBegin f) ++ q := by
  obtain ⟨fileId, r1, h1, h⟩ := bind_some h
  obtain ⟨attemptId, r2, h2, h⟩ := bind_some h
  obtain ⟨destination, r3, h3, h⟩ := bind_some h
  obtain ⟨sourceLen, r4, h4, h⟩ := bind_some h
  obtain ⟨sourceMtime, r5, h5, h⟩ := bind_some h
  obtain ⟨sourceIdentity, r6, h6, h⟩ := bind_some h
  obtain ⟨chunkSize, r7, h7, h⟩ := bind_some h
  obtain ⟨validThrough, r8, h8, h⟩ := bind_some h
  obtain ⟨rfl, rfl⟩ := pure_some h
  rw [vec_some_putBytes h1, u64_some h2, vec_some_putBytes h3, u64_some h4, parseMtime_some h5,
    vec_some_putBytes h6, u64_some h7, u64_some h8]
  simp only [payload, List.append_assoc]

lemma parseRange_some {r : Range} (h : parseRange bs = some (r, q)) : bs = payload (.range r) ++ q := by
  obtain ⟨fileId, r1, h1, h⟩ := bind_some h
  obtain ⟨attemptId, r2, h2, h⟩ := bind_some h
  obtain ⟨rangeStart, r3, h3, h⟩ := bind_some h
  obtain ⟨rangeEnd, r4, h4, h⟩ := bind_some h
  obtain ⟨count, r5, h5, h⟩ := bind_some h
  obtain ⟨left, r6, h6, h⟩ := bind_some h
  rw [remaining_apply] at h6
  cases h6
  split_ifs at h
  · cases h
  · obtain ⟨digests, r7, h7, h⟩ := bind_some h
    obtain ⟨rfl, rfl⟩ := pure_some h
    obtain ⟨hl, hd⟩ := blocks_some h7
    rw [vec_some_putBytes h1, u64_some h2, u64_some h3, u64_some h4, (num_some h5).2, hd]
    simp only [payload, hl, List.append_assoc]

lemma parseBody_ok {type : UInt8} {b : Body} (h : parseBody type bs = .ok b) :
    recordType b = type ∧ payload b = bs ∧ ∀ r, b = .range r → r.WellFormed := by
  simp only [parseBody] at h
  split_ifs at h with hf hr
  · split at h
    · next f hp =>
      cases h
      refine ⟨hf.symm, ?_, fun _ hr => Body.noConfusion hr⟩
      rw [parseFileBegin_some hp, List.append_nil]
    · cases h
  · split at h
    · next r rest hp =>
      split_ifs at h with ha hl hc hn
      cases h
      refine ⟨hr.symm, ?_, ?_⟩
      · rw [parseRange_some hp, hn, List.append_nil]
      · rintro r' ⟨⟩
        exact ⟨not_not.mp ha, UInt64.not_le.mp hl, not_not.mp hc⟩
    · cases h

section Layout

lemma slice_one {x : Bytes} {i : ℕ} (h : i < x.length) : slice x i 1 = [x.getD i 0] := by
  rw [slice, List.drop_eq_getElem_cons h, List.getD_eq_getElem _ _ h, List.take_succ_cons, List.take_zero]

lemma slice_eq_le {x : Bytes} {i n : ℕ} (h : i + n ≤ x.length) : slice x i n = le n (ofLe (slice x i n)) := by
  have hl := le_ofLe (slice x i n)
  rw [slice_length h] at hl
  exact hl.symm

structure Framed (x : Bytes) (b : Body) : Prop where
  length : recordLen x ≤ x.length
  magic : x.take 4 = magic
  format : formatOf x = formatVersion
  checksum : x.getD 6 0 = checksumVersion
  type : x.getD 7 0 = recordType b
  payload : slice x (payloadAt x) (payloadLen x) = payload b

variable {x : Bytes} {b : Body}

lemma Framed.bounds (hx : Framed x b) :
    prefixLen ≤ x.length ∧ payloadAt x ≤ x.length ∧ checksumAt x ≤ x.length := by
  have hl := hx.length
  simp only [recordLen, checksumAt, payloadAt, fixedAt] at hl ⊢
  omega

lemma Framed.operationId_length (hx : Framed x b) : (headerOf x).operationId.length = ofLe (slice x 8 2) := by
  have hl := hx.bounds.2.1
  rw [payloadAt] at hl
  have hs : (headerOf x).operationId = slice x prefixLen (fixedAt x - prefixLen) := rfl
  have hf : fixedAt x - prefixLen = ofLe (slice x 8 2) := by rw [fixedAt, Nat.add_sub_cancel_left]
  rw [hs, slice_length (by rw [fixedAt] at *; omega), hf]

lemma Framed.operationId_lt (hx : Framed x b) : (headerOf x).operationId.length < 65536 := by
  have hl := hx.bounds.1
  rw [prefixLen] at hl
  have hlt := ofLe_lt (slice x 8 2)
  rw [slice_length (by omega)] at hlt
  rw [hx.operationId_length]
  exact hlt

lemma Framed.payload_length (hx : Framed x b) : (Wal.payload b).length = payloadLen x := by
  rw [← hx.payload, slice_length hx.bounds.2.2]

lemma Framed.leading_eq (hx : Framed x b) : leading (headerOf x) b = x.take prefixLen := by
  have hl := hx.bounds.1
  rw [prefixLen] at hl
  have h4 : slice x 4 2 = le 2 formatVersion := by
    rw [← hx.format]
    exact slice_eq_le (by omega)
  have h6 : slice x 6 1 = [checksumVersion] := by rw [slice_one (by omega), hx.checksum]
  have h7 : slice x 7 1 = [recordType b] := by rw [slice_one (by omega), hx.type]
  have h8 : slice x 8 2 = le 2 (headerOf x).operationId.length := by
    rw [hx.operationId_length]
    exact slice_eq_le (by omega)
  rw [leading, ← hx.magic, ← h4, ← h6, ← h7, ← h8]
  simp only [take_append_slice]
  rfl

lemma Framed.fixed_eq (hx : Framed x b) : fixed (headerOf x) b = slice x (fixedAt x) fixedLen := by
  have hl := hx.bounds.2.1
  rw [payloadAt, fixedLen] at hl
  have hg : slice x (fixedAt x) 8 = le 8 (headerOf x).generation.toNat := by
    have hlt := ofLe_lt (slice x (fixedAt x) 8)
    rw [slice_length (by omega)] at hlt
    rw [headerOf, UInt64.toNat_ofNat_of_lt' hlt]
    exact slice_eq_le (by omega)
  have hs : slice x (fixedAt x + 8) 8 = le 8 (headerOf x).sequence.toNat := by
    have hlt := ofLe_lt (slice x (fixedAt x + 8) 8)
    rw [slice_length (by omega)] at hlt
    rw [headerOf, UInt64.toNat_ofNat_of_lt' hlt]
    exact slice_eq_le (by omega)
  have hp : slice x (fixedAt x + 16) 4 = le 4 (Wal.payload b).length := by
    rw [hx.payload_length]
    exact slice_eq_le (by omega)
  rw [fixed, ← hg, ← hs, ← hp]
  simp only [slice, ← List.drop_drop, ← List.take_add, fixedLen]

lemma Framed.covered_eq (hx : Framed x b) : covered (headerOf x) b = x.take (checksumAt x) := by
  have ho : (headerOf x).operationId = slice x prefixLen (fixedAt x - prefixLen) := rfl
  have hf : prefixLen + (fixedAt x - prefixLen) = fixedAt x := by
    rw [fixedAt]
    omega
  rw [Wal.covered_eq, hx.leading_eq, hx.fixed_eq, ← hx.payload, ho]
  simp only [← List.append_assoc, take_append_slice, hf]
  exact take_append_slice x (payloadAt x) (payloadLen x)

end Layout

lemma decodeWhole_record {x : Bytes} {h : Header} {b : Body} {len : ℕ} {sum : Block 16}
    (hl : x.length = recordLen x) (hm : x.take 4 = magic) (hf : formatOf x = formatVersion)
    (hc : x.getD 6 0 = checksumVersion) (hd : decodeWhole blake3 x = .record h b len sum) :
    Framed x b ∧ h = headerOf x ∧ len = recordLen x ∧ x = encode blake3 h b ∧ ∀ r, b = .range r →
    r.WellFormed := by
  simp only [decodeWhole] at hd
  split_ifs at hd with hsum hcommit
  split at hd
  · next body hp =>
    cases hd
    obtain ⟨ht, hpay, hwf⟩ := parseBody_ok hp
    have hx : Framed x b := ⟨hl.ge, hm, hf, hc, ht.symm, hpay.symm⟩
    refine ⟨hx, rfl, rfl, ?_, hwf⟩
    have hr : recordLen x = checksumAt x + 16 + 1 := rfl
    have hcom : slice x (checksumAt x + 16) 1 = [commit] := by
      rw [slice_one (by omega)]
      rw [not_not, hr, Nat.add_sub_cancel] at hcommit
      rw [hcommit]
    rw [encode, hx.covered_eq, not_not.mp hsum, ← hcom, take_append_slice, take_append_slice, ← hr,
      List.take_of_length_le hl.le]
  · cases hd

lemma decodeNext_record_inv {h : Header} {b : Body} {len : ℕ} {sum : Block 16}
    (hd : decodeNext blake3 bs = .record h b len sum) :
    h.operationId.length < 65536 ∧ b.WellFormed ∧ bs.take len = encode blake3 h b ∧
    declaredSpan bs = some len := by
  simp only [decodeNext] at hd
  split_ifs at hd with hn hlen hm hv hp hb hr
  rw [not_or, not_not, not_not] at hv
  have hl : (bs.take (recordLen bs)).length = recordLen bs := List.length_take_of_le (by omega)
  have hrec := recordLen_take (p := bs) (by omega)
  have hpre : prefixLen ≤ (bs.take (recordLen bs)).length := by
    rw [hl, recordLen, checksumAt, payloadAt, fixedAt]
    omega
  obtain ⟨h4, hf, h6, hfix⟩ := leading_append (bs.drop (recordLen bs)) hpre
  have hpay : payloadAt (bs.take (recordLen bs)) ≤ (bs.take (recordLen bs)).length := by
    rw [hl, payloadAt, ← hfix, List.take_append_drop, recordLen, checksumAt, payloadAt]
    omega
  obtain ⟨-, hpl, -⟩ := lengths_append (bs.drop (recordLen bs)) hpre hpay
  rw [List.take_append_drop] at h4 hf h6 hpl
  obtain ⟨hx, rfl, rfl, he, hwf⟩ := decodeWhole_record (hl.trans hrec.symm) (h4.symm.trans (not_not.mp hm))
    (hf.symm.trans hv.1) (h6.symm.trans hv.2) hd
  refine ⟨hx.operationId_lt, ⟨?_, hwf⟩, ?_, ?_⟩
  · rw [hx.payload_length, ← hpl]
    omega
  · rw [hrec]
    exact he
  · rw [declaredSpan, if_neg (by rw [not_or, not_not]; exact ⟨hlen, not_not.mp hm⟩),
      if_neg (by rw [not_or, not_not, not_not]; exact hv), if_neg hp, if_neg hb, hrec]

theorem codec_bijection (blake3 : Bytes → Digest) :
    (∀ (h : Header) (b : Body) (rest : Bytes), h.operationId.length ≤ 65535 → b.WellFormed →
      ∃ sum, decodeNext blake3 (encode blake3 h b ++ rest) = .record h b (encode blake3 h b).length sum) ∧
    ∀ (bytes : Bytes) (h : Header) (b : Body) (len : ℕ) (sum : Block 16),
      decodeNext blake3 bytes = .record h b len sum →
      bytes.take len = encode blake3 h b ∧ declaredSpan bytes = some len ∧
        h.operationId.length ≤ 65535 ∧ b.WellFormed := by
  refine ⟨fun h b rest ho hb => ⟨_, decodeNext_encode blake3 rest (by omega) hb⟩, fun bytes h b len sum hd => ?_⟩
  obtain ⟨ho, hb, ht, hs⟩ := decodeNext_record_inv hd
  exact ⟨ht, hs, by omega, hb⟩

lemma zeros_length : (List.replicate 32 0 : Bytes).length = 32 := List.length_replicate

def zeroHash (_ : Bytes) : Digest := ⟨List.replicate 32 0, zeros_length⟩

def oneChunk (fileId : UInt8) : Body := .range ⟨[fileId], 0, 0, 1, [zeroHash []]⟩

lemma oneChunk_wellFormed (fileId : UInt8) : (oneChunk fileId).WellFormed := by
  refine ⟨by simp [payload, oneChunk, zeroHash, maxPayload, putBytes], ?_⟩
  rintro r ⟨⟩
  exact ⟨rfl, (by decide : (0 : UInt64) < 1), by simp [divCeil, chunkSize]⟩

theorem codec_bijection_oneChunk :
    (∃ sum, decodeNext zeroHash (encode zeroHash ⟨[111], 1, 1⟩ (oneChunk 7) ++ [9]) =
      .record ⟨[111], 1, 1⟩ (oneChunk 7) (encode zeroHash ⟨[111], 1, 1⟩ (oneChunk 7)).length sum) ∧
    declaredSpan (encode zeroHash ⟨[111], 1, 1⟩ (oneChunk 7) ++ [9]) =
      some (encode zeroHash ⟨[111], 1, 1⟩ (oneChunk 7)).length := by
  obtain ⟨hf, hb⟩ := codec_bijection zeroHash
  obtain ⟨sum, h⟩ := hf ⟨[111], 1, 1⟩ (oneChunk 7) [9] (by decide) (oneChunk_wellFormed 7)
  exact ⟨⟨sum, h⟩, (hb _ _ _ _ _ h).2.1⟩

end Flux.Wal
