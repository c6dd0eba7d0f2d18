import Flux.Wal.Record
import Mathlib.Data.List.GetD

namespace Flux.Wal

open Base Base.Reader

variable {blake3 : Bytes → Digest}

lemma vec_putBytes {v : Bytes} (q : Bytes) (h : v.length < 256 ^ 4) : vec (putBytes v ++ q) = some (v, q) := by
  rw [putBytes, List.append_assoc, vec_append q h]

lemma parseMtime_bytes (m : Option (Int64 × UInt32)) (q : Bytes) :
    parseMtime (mtimeBytes m ++ q) = some (m, q) := by
  rcases m with _ | ⟨secs, nanos⟩
  · simp [parseMtime, mtimeBytes, bind_apply, pure_apply, u8_cons]
  · have h : (1 : UInt8) ≠ 0 := by decide
    simp only [parseMtime, mtimeBytes, List.cons_append, List.append_assoc, bind_apply, u8_cons, Option.bind_some,
      if_neg h, if_true, i64_le, u32_le, pure_apply]

lemma parseFileBegin_payload {f : FileBegin} (h : (payload (.fileBegin f)).length ≤ maxPayload) :
    parseFileBegin (payload (.fileBegin f)) = some (f, []) := by
  have hl : f.fileId.length < 256 ^ 4 ∧ f.destination.length < 256 ^ 4 ∧ f.sourceIdentity.length < 256 ^ 4 := by
    simp only [payload, putBytes, List.length_append, le_length, maxPayload] at h
    omega
  simp only [payload, parseFileBegin, List.append_assoc, bind_apply, vec_putBytes _ hl.1, vec_putBytes _ hl.2.1,
    vec_putBytes _ hl.2.2, u64_le, parseMtime_bytes, Option.bind_some]
  rw [← List.append_nil (le 8 f.validThrough.toNat), u64_le]
  rfl

lemma digests_length (ds : List Digest) : (ds.map Subtype.val).flatten.length = ds.length * 32 := by
  induction ds with
  | nil => rfl
  | cons d ds ih =>
    simp only [List.map_cons, List.flatten_cons, List.length_append, ih, d.2, List.length_cons]
    omega

lemma parseRange_payload {r : Range} (h : (payload (.range r)).length ≤ maxPayload) :
    parseRange (payload (.range r)) = some (r, []) := by
  have hl : r.fileId.length < 256 ^ 4 ∧ r.digests.length < 256 ^ 4 := by
    simp only [payload, putBytes, List.length_append, le_length, maxPayload, digests_length] at h
    omega
  have hd := blocks_flatten r.digests []
  simp only [List.append_nil] at hd
  have hc : ¬ r.digests.length * 32 > (r.digests.map Subtype.val).flatten.length := by
    rw [digests_length]
    omega
  simp only [payload, parseRange, List.append_assoc, bind_apply, vec_putBytes _ hl.1, u64_le, num_le _ hl.2,
    Option.bind_some, remaining_apply, if_neg hc, hd]
  rfl

variable {b : Body} {h : Header}

lemma parseBody_payload (h : b.WellFormed) : parseBody (recordType b) (payload b) = .ok b := by
  cases b with
  | fileBegin f => simp [parseBody, recordType, parseFileBegin_payload h.bound]
  | range r =>
    have hr := h.range r rfl
    have ht : typeRange ≠ typeFileBegin := by decide
    simp only [parseBody, recordType, if_neg ht, if_true, parseRange_payload h.bound, hr.aligned, hr.count,
      ne_eq, not_true_eq_false, if_false, if_neg (UInt64.not_le.mpr hr.ascending)]

def leading (h : Header) (b : Body) : Bytes :=
  magic ++ le 2 formatVersion ++ [checksumVersion] ++ [recordType b] ++ le 2 h.operationId.length

def fixed (h : Header) (b : Body) : Bytes :=
  le 8 h.generation.toNat ++ le 8 h.sequence.toNat ++ le 4 (payload b).length

def trailer (blake3 : Bytes → Digest) (h : Header) (b : Body) : Bytes :=
  (checksumOf blake3 (covered h b)).1 ++ [commit]

@[simp] lemma leading_length (h : Header) (b : Body) : (leading h b).length = prefixLen := by
  simp [leading, magic, prefixLen]

@[simp] lemma fixed_length (h : Header) (b : Body) : (fixed h b).length = fixedLen := by
  simp [fixed, fixedLen]

@[simp] lemma trailer_length (h : Header) (b : Body) : (trailer blake3 h b).length = suffixLen := by
  simp [trailer, (checksumOf blake3 (covered h b)).2, suffixLen]

lemma covered_eq (h : Header) (b : Body) :
    covered h b = leading h b ++ (h.operationId ++ (fixed h b ++ payload b)) := by
  simp only [covered, leading, fixed, List.append_assoc]

lemma encode_eq (h : Header) (b : Body) :
    encode blake3 h b = leading h b ++ (h.operationId ++ (fixed h b ++ (payload b ++ trailer blake3 h b))) := by
  simp only [encode, covered_eq, trailer, List.append_assoc]

lemma encode_length (blake3 : Bytes → Digest) (h : Header) (b : Body) : (encode blake3 h b).length =
    prefixLen + h.operationId.length + fixedLen + (payload b).length + suffixLen := by
  simp only [encode_eq, List.length_append, leading_length, fixed_length, trailer_length]
  omega

lemma encode_pos (blake3 : Bytes → Digest) (h : Header) (b : Body) : 0 < (encode blake3 h b).length := by
  rw [encode_length, prefixLen]
  omega

section Layout

variable {h : Header} {b : Body} (q : Bytes)

lemma leading_fields : (leading h b ++ q).take 4 = magic ∧ formatOf (leading h b ++ q) = formatVersion ∧
    (leading h b ++ q).getD 6 0 = checksumVersion ∧ (leading h b ++ q).getD 7 0 = recordType b := by
  refine ⟨?_, ?_, ?_, ?_⟩ <;> simp [leading, magic, formatOf, slice, le, ofLe, formatVersion, checksumVersion]

lemma fixedAt_leading (ho : h.operationId.length < 65536) :
    fixedAt (leading h b ++ q) = prefixLen + h.operationId.length := by
  have hs : slice (leading h b ++ q) 8 2 = le 2 h.operationId.length := by
    rw [leading, List.append_assoc]
    exact slice_append_exact _ _ _ (by simp [magic]) (le_length _ _)
  rw [fixedAt, hs, ofLe_le (by omega)]

lemma slice_fixed (ho : h.operationId.length < 65536) {p r s : Bytes} {i n : ℕ}
    (hf : fixed h b = p ++ (r ++ s)) (hi : p.length = i) (hn : r.length = n) :
    slice (leading h b ++ (h.operationId ++ (fixed h b ++ q)))
      (fixedAt (leading h b ++ (h.operationId ++ (fixed h b ++ q))) + i) n = r := by
  have he : leading h b ++ (h.operationId ++ (fixed h b ++ q)) =
      (leading h b ++ (h.operationId ++ p)) ++ (r ++ (s ++ q)) := by
    rw [hf]
    simp only [List.append_assoc]
  rw [fixedAt_leading _ ho, he]
  apply slice_append_exact _ _ _ _ hn
  simp only [List.length_append, leading_length, hi]
  omega

lemma payloadLen_leading (ho : h.operationId.length < 65536) (hp : (payload b).length ≤ maxPayload) :
    payloadLen (leading h b ++ (h.operationId ++ (fixed h b ++ q))) = (payload b).length := by
  have hs := slice_fixed q ho (p := le 8 h.generation.toNat ++ le 8 h.sequence.toNat)
    (r := le 4 (payload b).length) (s := []) (b := b) (i := 16) (by simp [fixed]) (by simp) (le_length _ _)
  rw [payloadLen, hs, ofLe_le]
  rw [maxPayload] at hp
  omega

lemma headerOf_leading (ho : h.operationId.length < 65536) :
    headerOf (leading h b ++ (h.operationId ++ (fixed h b ++ q))) = h := by
  have hg := slice_fixed q ho (p := []) (r := le 8 h.generation.toNat)
    (s := le 8 h.sequence.toNat ++ le 4 (payload b).length) (b := b) (i := 0) (by simp [fixed]) rfl (le_length _ _)
  have hq := slice_fixed q ho (p := le 8 h.generation.toNat) (r := le 8 h.sequence.toNat)
    (s := le 4 (payload b).length) (b := b) (by simp [fixed]) (le_length _ _) (le_length _ _)
  have hop := slice_append_exact (leading h b) h.operationId (fixed h b ++ q) (leading_length h b) rfl
  rw [Nat.add_zero] at hg
  rw [headerOf, hg, hq, fixedAt_leading _ ho, Nat.add_sub_cancel_left, hop,
    ofLe_le (w := 8) h.generation.toNat_lt, ofLe_le (w := 8) h.sequence.toNat_lt]
  simp

end Layout

lemma checksumAt_encode (blake3 : Bytes → Digest) (q : Bytes) (ho : h.operationId.length < 65536)
    (hp : (payload b).length ≤ maxPayload) : checksumAt (encode blake3 h b ++ q) = (covered h b).length := by
  simp only [encode_eq, List.append_assoc, checksumAt, payloadAt, fixedAt_leading _ ho,
    payloadLen_leading _ ho hp, covered_eq, List.length_append, leading_length, fixed_length]
  omega

lemma recordLen_encode (blake3 : Bytes → Digest) (q : Bytes) (ho : h.operationId.length < 65536)
    (hp : (payload b).length ≤ maxPayload) :
    recordLen (encode blake3 h b ++ q) = (encode blake3 h b).length := by
  rw [recordLen, checksumAt_encode blake3 q ho hp, encode_length, covered_eq]
  simp only [List.length_append, leading_length, fixed_length]
  omega

def decodedAs (blake3 : Bytes → Digest) (h : Header) (b : Body) : Except String Body → Decoded
  | .ok body => .record h body (encode blake3 h b).length (checksumOf blake3 (covered h b))
  | .error why => .corrupt why

lemma decodeWhole_encode (ho : h.operationId.length < 65536) (hm : (payload b).length ≤ maxPayload) :
    decodeWhole blake3 (encode blake3 h b) = decodedAs blake3 h b (parseBody (recordType b) (payload b)) := by
  have hc := checksumAt_encode blake3 [] ho hm
  have hr := recordLen_encode blake3 [] ho hm
  rw [List.append_nil] at hc hr
  have ht : (encode blake3 h b).take (covered h b).length = covered h b := by
    rw [encode, List.append_assoc, List.take_left]
  have hs : slice (encode blake3 h b) (covered h b).length 16 = (checksumOf blake3 (covered h b)).1 := by
    rw [encode, List.append_assoc]
    exact slice_append_exact _ _ _ rfl (checksumOf blake3 (covered h b)).2
  have hl : (encode blake3 h b).getD ((encode blake3 h b).length - 1) 0 = commit := by
    simp [encode]
  have hp : slice (encode blake3 h b) (payloadAt (encode blake3 h b)) (payloadLen (encode blake3 h b)) =
      payload b := by
    rw [payloadAt, encode_eq, payloadLen_leading _ ho hm, fixedAt_leading _ ho]
    have he := slice_append_exact (leading h b ++ (h.operationId ++ fixed h b)) (payload b)
      (trailer blake3 h b) rfl rfl
    simp only [List.append_assoc, List.length_append, leading_length, fixed_length] at he
    rwa [Nat.add_assoc]
  have h7 : (encode blake3 h b).getD 7 0 = recordType b := by
    rw [encode_eq, (leading_fields _).2.2.2]
  have hh : headerOf (encode blake3 h b) = h := by
    rw [encode_eq, headerOf_leading _ ho]
  simp only [decodeWhole, hc, hr, ht, hs, hl, hp, h7, hh, ne_eq, not_true_eq_false, if_false]
  cases parseBody (recordType b) (payload b) <;> rfl

lemma decodeNext_fitting (blake3 : Bytes → Digest) (q : Bytes) (ho : h.operationId.length < 65536)
    (hm : (payload b).length ≤ maxPayload) :
    decodeNext blake3 (encode blake3 h b ++ q) = decodedAs blake3 h b (parseBody (recordType b) (payload b)) := by
  have hr := recordLen_encode blake3 q ho hm
  have he : encode blake3 h b ++ q =
      leading h b ++ (h.operationId ++ (fixed h b ++ (payload b ++ trailer blake3 h b ++ q))) := by
    simp only [encode_eq, List.append_assoc]
  obtain ⟨h4, hf, h6, -⟩ := leading_fields (h := h) (b := b)
    (h.operationId ++ (fixed h b ++ (payload b ++ trailer blake3 h b ++ q)))
  have hp := payloadLen_leading (payload b ++ trailer blake3 h b ++ q) ho hm
  have hx := fixedAt_leading (h := h) (b := b)
    (h.operationId ++ (fixed h b ++ (payload b ++ trailer blake3 h b ++ q))) ho
  rw [← he] at h4 hf h6 hp hx
  have hl := encode_length blake3 h b
  have hn : encode blake3 h b ++ q ≠ [] := by
    intro hn
    have := encode_pos blake3 h b
    simp_all
  simp only [decodeNext, if_neg hn, h4, hf, h6, hp, hr, payloadAt, hx, ne_eq, not_true_eq_false, or_self, if_false,
    List.length_append, List.take_left, decodeWhole_encode ho hm]
  rw [if_neg (by omega), if_neg (by omega), if_neg (by omega), if_neg (by omega)]

lemma decodeNext_encode (blake3 : Bytes → Digest) (q : Bytes) (ho : h.operationId.length < 65536)
    (hb : b.WellFormed) : decodeNext blake3 (encode blake3 h b ++ q) =
      .record h b (encode blake3 h b).length (checksumOf blake3 (covered h b)) := by
  rw [decodeNext_fitting blake3 q ho hb.bound, parseBody_payload hb]
  rfl

section Extension

variable {p : Bytes} (q : Bytes)

lemma leading_append (h : prefixLen ≤ p.length) : (p ++ q).take 4 = p.take 4 ∧ formatOf (p ++ q) = formatOf p ∧
    (p ++ q).getD 6 0 = p.getD 6 0 ∧ fixedAt (p ++ q) = fixedAt p := by
  rw [prefixLen] at h
  refine ⟨List.take_append_of_le_length (by omega), ?_, List.getD_append _ _ _ _ (by omega), ?_⟩
  · rw [formatOf, formatOf, slice_append_left q (by omega)]
  · rw [fixedAt, fixedAt, slice_append_left q (by omega)]

lemma lengths_append (h : prefixLen ≤ p.length) (hp : payloadAt p ≤ p.length) :
    payloadAt (p ++ q) = payloadAt p ∧ payloadLen (p ++ q) = payloadLen p ∧
    recordLen (p ++ q) = recordLen p := by
  have hf := (leading_append q h).2.2.2
  have hl : payloadLen (p ++ q) = payloadLen p := by
    rw [payloadAt, fixedLen] at hp
    rw [payloadLen, payloadLen, hf, slice_append_left q (by omega)]
  simp only [recordLen, checksumAt, payloadAt, hf, hl, and_self]

lemma decodeNext_append (he : decodeNext blake3 p ≠ .endOfLog) (ht : decodeNext blake3 p ≠ .tornTail) :
    decodeNext blake3 (p ++ q) = decodeNext blake3 p := by
  have hn : p ≠ [] := by
    rintro rfl
    exact he (if_pos rfl)
  have hx : p ++ q ≠ [] := by simp [hn]
  have hl : prefixLen ≤ p.length := by
    by_contra h
    exact ht (by rw [decodeNext, if_neg hn, if_pos (by omega)])
  obtain ⟨h4, hf, h6, hfix⟩ := leading_append q hl
  have hpay : payloadAt (p ++ q) = payloadAt p := by rw [payloadAt, payloadAt, hfix]
  have hlen : ¬ p.length < prefixLen := by omega
  have hlen' : ¬ (p ++ q).length < prefixLen := by simp only [List.length_append]; omega
  simp only [decodeNext, if_neg hn, if_neg hx, if_neg hlen, if_neg hlen', h4, hf, h6, hpay] at ht ⊢
  by_cases hm : p.take 4 ≠ magic
  · simp only [if_pos hm]
  by_cases hv : formatOf p ≠ formatVersion ∨ p.getD 6 0 ≠ checksumVersion
  · simp only [if_neg hm, if_pos hv]
  simp only [if_neg hm, if_neg hv] at ht ⊢
  have hp : payloadAt p ≤ p.length := by
    by_contra h
    exact ht (if_pos (by omega))
  obtain ⟨-, hpl, hrl⟩ := lengths_append q hl hp
  have hp' : ¬ p.length < payloadAt p := by omega
  have hx' : ¬ (p ++ q).length < payloadAt p := by rw [List.length_append]; omega
  simp only [if_neg hp', if_neg hx', hpl, hrl] at ht ⊢
  by_cases hb : payloadLen p > maxPayload
  · simp only [if_pos hb]
  simp only [if_neg hb] at ht ⊢
  have hr : recordLen p ≤ p.length := by
    by_contra h
    exact ht (if_pos (by omega))
  rw [if_neg (by rw [List.length_append]; omega), if_neg (by omega), List.take_append_of_le_length hr]

lemma recordLen_take (hr : recordLen p ≤ p.length) : recordLen (p.take (recordLen p)) = recordLen p := by
  have hl : (p.take (recordLen p)).length = recordLen p := List.length_take_of_le hr
  have hb : recordLen p = payloadAt p + payloadLen p + suffixLen := rfl
  have hm : prefixLen ≤ (p.take (recordLen p)).length := by
    rw [hl, hb, payloadAt, fixedAt]
    omega
  obtain ⟨-, -, -, hf⟩ := leading_append (p.drop (recordLen p)) hm
  rw [List.take_append_drop] at hf
  have hp : payloadAt (p.take (recordLen p)) = payloadAt p := by rw [payloadAt, payloadAt, hf]
  have hx := (lengths_append (p.drop (recordLen p)) hm (by omega)).2.2
  rw [List.take_append_drop] at hx
  exact hx.symm

lemma decodeNext_record {h : Header} {b : Body} {len : ℕ} {sum : Block 16}
    (hd : decodeNext blake3 p = .record h b len sum) : 0 < len ∧ len ≤ p.length := by
  simp only [decodeNext] at hd
  split_ifs at hd with _ _ _ _ _ _ hr
  have hlen : len = recordLen p := by
    simp only [decodeWhole] at hd
    split_ifs at hd
    split at hd <;> cases hd
    exact recordLen_take (by omega)
  have hpos : 0 < recordLen p := by
    rw [recordLen, suffixLen]
    omega
  omega

end Extension

lemma decodeNext_cut {p q : Bytes} (ho : h.operationId.length < 65536) (hb : b.WellFormed)
    (hc : encode blake3 h b = p ++ q) (hq : q ≠ []) :
    decodeNext blake3 p = .endOfLog ∨ decodeNext blake3 p = .tornTail := by
  by_contra hn
  rw [not_or] at hn
  have hd := decodeNext_append q hn.1 hn.2
  have he := decodeNext_encode blake3 [] ho hb
  rw [List.append_nil, hc, hd] at he
  have hl := (decodeNext_record he).2
  have hpos := List.length_pos_of_ne_nil hq
  rw [List.length_append] at hl
  omega

end Flux.Wal
