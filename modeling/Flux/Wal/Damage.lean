import Flux.Wal.Canonical
import Flux.Wal.LoadFile
import Flux.Wal.Log

namespace Flux.Wal

open Base

/-- The record at the front of `x` declares an end at or past the end of `x`. -/
structure Swallows (x : Bytes) : Prop where
  magic : x.take 4 = magic
  format : formatOf x = formatVersion
  checksum : x.getD 6 0 = checksumVersion
  span : x.length < payloadAt x ∨ payloadLen x ≤ maxPayload ∧ x.length ≤ recordLen x

/-- If the checksum where `x` has one matches, then it is that of the bytes it was written for. -/
def Unforged (blake3 : Bytes → Digest) (e : Entry) (x : Bytes) : Prop :=
  (checksumOf blake3 (x.take (checksumAt x))).1 = slice x (checksumAt x) 16 →
    x.take (checksumAt x) = covered e.1 e.2

variable {blake3 : Bytes → Digest} {operationId : Bytes} {e : Entry} {x : Bytes}

lemma Unforged.not_record (hu : Unforged blake3 e x) (hx : x.take (entryLen blake3 e) ≠ encode blake3 e.1 e.2)
    (h : Header) (b : Body) (len : ℕ) (sum : Block 16) : decodeNext blake3 x ≠ .record h b len sum := by
  intro hd
  obtain ⟨ho, hb, ht, -⟩ := decodeNext_record_inv hd
  have hsplit : x = encode blake3 h b ++ x.drop len := by rw [← ht, List.take_append_drop]
  have hc : checksumAt x = (covered h b).length := by
    rw [hsplit]
    exact checksumAt_encode blake3 _ ho hb.bound
  have htake : x.take (checksumAt x) = covered h b := by
    rw [hc, hsplit, encode, List.append_assoc, List.append_assoc, List.take_left]
  have hslice : slice x (checksumAt x) 16 = (checksumOf blake3 (covered h b)).1 := by
    rw [hc, hsplit, encode, List.append_assoc, List.append_assoc]
    exact slice_append_exact _ _ _ rfl (checksumOf blake3 (covered h b)).2
  have hcov : covered h b = covered e.1 e.2 := htake.symm.trans (hu (by rw [htake, hslice]))
  have henc : encode blake3 h b = encode blake3 e.1 e.2 := by rw [encode, encode, hcov]
  apply hx
  rw [hsplit, henc, entryLen, List.take_left]

lemma ne_nil_of_prefixLen (hl : prefixLen ≤ x.length) : x ≠ [] := by
  rintro rfl
  exact absurd hl (by decide)

lemma decodeWhole_cases (blake3 : Bytes → Digest) (x : Bytes) :
    (∃ why, decodeWhole blake3 x = .corrupt why) ∨ ∃ h b len sum, decodeWhole blake3 x = .record h b len sum := by
  simp only [decodeWhole]
  split_ifs
  · exact .inl ⟨_, rfl⟩
  · exact .inl ⟨_, rfl⟩
  · split
    · exact .inr ⟨_, _, _, _, rfl⟩
    · exact .inl ⟨_, rfl⟩

lemma swallows_of_torn (hl : prefixLen ≤ x.length) (hd : decodeNext blake3 x = .tornTail) : Swallows x := by
  have hn := ne_nil_of_prefixLen hl
  simp only [decodeNext, if_neg hn, if_neg (Nat.not_lt.mpr hl)] at hd
  split_ifs at hd with hm hv hp hb hr
  · rw [not_or, not_not, not_not] at hv
    exact ⟨not_not.mp hm, hv.1, hv.2, .inl hp⟩
  · rw [not_or, not_not, not_not] at hv
    exact ⟨not_not.mp hm, hv.1, hv.2, .inr ⟨by omega, hr.le⟩⟩
  · rcases decodeWhole_cases blake3 (x.take (recordLen x)) with ⟨why, hw⟩ | ⟨h, b, len, sum, hw⟩
    all_goals
      rw [hw] at hd
      cases hd

lemma swallows_of_span (hs : declaredSpan x = some x.length) : Swallows x := by
  simp only [declaredSpan] at hs
  split_ifs at hs with hm hv hp hb
  rw [not_or, not_not] at hm
  rw [not_or, not_not, not_not] at hv
  have hr := Option.some.inj hs
  exact ⟨hm.2, hv.1, hv.2, .inr ⟨by omega, by omega⟩⟩

lemma Swallows.decodeNext (blake3 : Bytes → Digest) (hs : Swallows x) (hl : prefixLen ≤ x.length) :
    decodeNext blake3 x = .tornTail ∨
      declaredSpan x = some x.length ∧ decodeNext blake3 x = decodeWhole blake3 (x.take (recordLen x)) := by
  have hn := ne_nil_of_prefixLen hl
  have hv : ¬ (formatOf x ≠ formatVersion ∨ x.getD 6 0 ≠ checksumVersion) := by
    rw [not_or, not_not, not_not]
    exact ⟨hs.format, hs.checksum⟩
  have hm : ¬ (x.length < prefixLen ∨ x.take 4 ≠ Wal.magic) := by
    rw [not_or, not_not]
    exact ⟨by omega, hs.magic⟩
  rw [Wal.decodeNext, if_neg hn, if_neg (by omega), if_neg (not_not.mpr hs.magic), if_neg hv,
    declaredSpan, if_neg hm, if_neg hv]
  by_cases hp : x.length < payloadAt x
  · exact .inl (if_pos hp)
  obtain ⟨hb, hr⟩ := hs.span.resolve_left hp
  have hmax : ¬ payloadLen x > maxPayload := by omega
  rw [if_neg hp, if_neg hmax, if_neg hp, if_neg hmax]
  by_cases hlt : x.length < recordLen x
  · exact .inl (if_pos hlt)
  · exact .inr ⟨congrArg some (by omega), if_neg hlt⟩

section Scan

variable (operationId) (st : Progress)

lemma scanBytes_swallowed (hl : prefixLen ≤ x.length) (hs : Swallows x)
    (hn : ∀ h b len sum, decodeNext blake3 x ≠ .record h b len sum) :
    ∃ len reason, scanBytes blake3 operationId st x = .ok (st.cut len reason) := by
  have hx := ne_nil_of_prefixLen hl
  rcases hs.decodeNext blake3 hl with ht | ⟨hspan, hw⟩
  · exact ⟨_, _, (scanBytes_stop (.inr ht)).trans (by rw [if_neg hx])⟩
  · rcases decodeWhole_cases blake3 (x.take (recordLen x)) with ⟨why, hd⟩ | ⟨h, b, len, sum, hd⟩
    · refine ⟨x.length, .spanReachesEnd, ?_⟩
      rw [scanBytes_corrupt (hw.trans hd), wholeDamage, if_pos ⟨rfl, hspan⟩]
    · exact absurd (hw.trans hd) (hn h b len sum)

lemma scanBytes_reported (hl : prefixLen ≤ x.length) (hs : ¬ Swallows x) (hz : allZero (afterMagic x) = false)
    (hn : ∀ h b len sum, decodeNext blake3 x ≠ .record h b len sum) :
    ∃ err, scanBytes blake3 operationId st x = .error err := by
  have hzeros : wholeZeros x = none := if_neg (by simp [hz])
  cases hd : decodeNext blake3 x with
  | record h b len sum => exact absurd hd (hn h b len sum)
  | endOfLog => exact absurd (decodeNext_endOfLog hd) (ne_nil_of_prefixLen hl)
  | tornTail => exact absurd (swallows_of_torn hl hd) hs
  | corrupt why =>
    refine ⟨.corrupt st.offset why, ?_⟩
    have hspan : ¬ (true = true ∧ declaredSpan x = some x.length) := fun h => hs (swallows_of_span h.2)
    rw [scanBytes_corrupt hd, wholeDamage, if_neg hspan, hzeros]
  | unsupported format sum =>
    refine ⟨.unsupported format sum, ?_⟩
    rw [scanBytes_unsupported hd, wholeDamage, if_neg (by simp), hzeros]

end Scan

def damaged (blake3 : Bytes → Digest) (e : Entry) (i : ℕ) (v : UInt8) (post : List Entry) : Bytes :=
  (encode blake3 e.1 e.2).set i v ++ encodeAll blake3 post

section Damaged

variable {i : ℕ} {v : UInt8} {pre post : List Entry}

lemma prefixLen_le_damaged : prefixLen ≤ (damaged blake3 e i v post).length := by
  have hl := encode_length blake3 e.1 e.2
  rw [damaged, List.length_append, List.length_set]
  omega

lemma damaged_take (hv : (encode blake3 e.1 e.2).set i v ≠ encode blake3 e.1 e.2) :
    (damaged blake3 e i v post).take (entryLen blake3 e) ≠ encode blake3 e.1 e.2 := by
  rw [damaged, entryLen, ← List.length_set (i := i) (a := v), List.take_left]
  exact hv

lemma damaged_nonzero (hp : post ≠ []) : allZero (afterMagic (damaged blake3 e i v post)) = false := by
  obtain ⟨p, ps, rfl⟩ := List.exists_cons_of_ne_nil hp
  have hl := encode_length blake3 e.1 e.2
  have h4 : 4 ≤ ((encode blake3 e.1 e.2).set i v).length := by
    rw [List.length_set, hl, prefixLen]
    omega
  have hm : allZero (encodeAll blake3 (p :: ps)) = false := by
    rw [encodeAll_cons, encode_eq, leading]
    rfl
  rw [damaged, afterMagic_append _ h4, allZero_append, hm, Bool.and_false]

lemma start_absorbAll_validLen (es : List Entry) :
    (Progress.start.absorbAll blake3 es).out.validLen = (encodeAll blake3 es).length := by
  rw [absorbAll_validLen blake3 _ _ rfl, absorbAll_offset]
  exact Nat.zero_add _

lemma Swallows.length_field (hs : Swallows (damaged blake3 e i v post)) (ho : e.1.operationId.length < 65536)
    (hb : e.2.WellFormed) (hp : post ≠ []) :
    8 ≤ i ∧ i < 10 ∨ prefixLen + e.1.operationId.length + 16 ≤ i ∧
    i < prefixLen + e.1.operationId.length + 20 := by
  by_contra hi
  rw [not_or, not_and_or, not_and_or] at hi
  obtain ⟨p, ps, rfl⟩ := List.exists_cons_of_ne_nil hp
  have hlen := encode_length blake3 e.1 e.2
  have hrec := recordLen_encode blake3 [] ho hb.bound
  have hfix : fixedAt (encode blake3 e.1 e.2) = prefixLen + e.1.operationId.length := by
    rw [encode_eq, fixedAt_leading _ ho]
  have hfix' : fixedAt ((encode blake3 e.1 e.2).set i v) = fixedAt (encode blake3 e.1 e.2) := by
    rw [fixedAt, fixedAt, slice_set v (by omega)]
  have hpay : payloadLen ((encode blake3 e.1 e.2).set i v) = payloadLen (encode blake3 e.1 e.2) := by
    rw [payloadLen, payloadLen, hfix', slice_set v (by omega)]
  have hrec' : recordLen ((encode blake3 e.1 e.2).set i v) = (encode blake3 e.1 e.2).length := by
    rw [List.append_nil] at hrec
    rw [← hrec, recordLen, recordLen, checksumAt, checksumAt, payloadAt, payloadAt, hfix', hpay]
  have hl : prefixLen ≤ ((encode blake3 e.1 e.2).set i v).length := by
    rw [List.length_set]
    omega
  have hat : payloadAt ((encode blake3 e.1 e.2).set i v) ≤ ((encode blake3 e.1 e.2).set i v).length := by
    rw [payloadAt, hfix', hfix, List.length_set]
    omega
  obtain ⟨h1, -, h3⟩ := lengths_append (encodeAll blake3 (p :: ps)) hl hat
  have hpos := encode_pos blake3 p.1 p.2
  have hspan := hs.span
  rw [damaged, h1, h3, hrec', List.length_append, List.length_set, encodeAll_cons, List.length_append] at hspan
  rw [List.length_set] at hat
  omega

/-- A single changed byte goes unreported exactly when the damaged record's length fields then reach to the end
of the log or past it. -/
theorem damage_reported_iff (blake3 : Bytes → Digest) (operationId : Bytes) (pre : List Entry) (e : Entry)
    (i : ℕ) (v : UInt8) (post : List Entry) (ho : operationId.length ≤ 65535)
    (hf : Ordered none (pre ++ e :: post)) (hl : ∀ r ∈ pre ++ e :: post, Legible operationId r) (hp : post ≠ [])
    (hv : (encode blake3 e.1 e.2).set i v ≠ encode blake3 e.1 e.2)
    (hu : Unforged blake3 e (damaged blake3 e i v post)) {r : Input} (hc : r.Clean)
    (hr : r.rest = encodeAll blake3 pre ++ damaged blake3 e i v post) :
    (∀ s, scan blake3 operationId r = .ok s → r.rest.length ≤ s.validLen) ↔
      ¬ Swallows (damaged blake3 e i v post) := by
  have hpre : ∀ r ∈ pre, Legible operationId r := fun r h => hl r (List.mem_append_left _ h)
  have hscan : scan blake3 operationId r =
      scanBytes blake3 operationId (Progress.start.absorbAll blake3 pre) (damaged blake3 e i v post) := by
    rw [scan_clean hc, hr]
    exact scanBytes_absorb (by omega) start_behind ((ordered_append _ _ _).mp hf).1 hpre _
  have hn := hu.not_record (damaged_take hv)
  rw [hscan]
  constructor
  · intro h hs
    obtain ⟨len, reason, hok⟩ := scanBytes_swallowed operationId
      (Progress.start.absorbAll blake3 pre) prefixLen_le_damaged hs hn
    have hshort := h _ hok
    have hcut : ((Progress.start.absorbAll blake3 pre).cut len reason).validLen = (encodeAll blake3 pre).length :=
      start_absorbAll_validLen pre
    have hpos : prefixLen ≤ (damaged blake3 e i v post).length := prefixLen_le_damaged
    rw [hcut, hr, List.length_append] at hshort
    rw [prefixLen] at hpos
    omega
  · intro hs s hok
    obtain ⟨err, herr⟩ := scanBytes_reported operationId
      (Progress.start.absorbAll blake3 pre) prefixLen_le_damaged hs (damaged_nonzero hp) hn
    rw [herr] at hok
    cases hok

end Damaged

def twoChunks : List Entry := [(⟨[111], 1, 1⟩, oneChunk 7), (⟨[111], 1, 2⟩, oneChunk 8)]

lemma twoChunks_ordered : Ordered none twoChunks := ⟨rfl, .inl ⟨rfl, rfl⟩, trivial⟩

lemma twoChunks_legible : ∀ e ∈ twoChunks, Legible [111] e := by
  intro e he
  simp only [twoChunks, List.mem_cons, List.not_mem_nil, or_false] at he
  rcases he with rfl | rfl
  · exact ⟨rfl, oneChunk_wellFormed 7⟩
  · exact ⟨rfl, oneChunk_wellFormed 8⟩

lemma not_record_of_long (blake3 : Bytes → Digest) (h : x.length < recordLen x) (hd : Header) (b : Body) (len : ℕ)
    (sum : Block 16) : decodeNext blake3 x ≠ .record hd b len sum := by
  intro hr
  have hle := (decodeNext_record hr).2
  have hs := (decodeNext_record_inv hr).2.2.2
  simp only [declaredSpan] at hs
  split_ifs at hs
  have := Option.some.inj hs
  omega

def firstCovered : Bytes := covered ⟨[111], 1, 1⟩ (oneChunk 7)

lemma twoChunks_split (blake3 : Bytes → Digest) :
    ∃ q, encodeAll blake3 twoChunks = firstCovered ++ q ∧ q.length = 130 := by
  refine ⟨(checksumOf blake3 firstCovered).1 ++ [commit] ++ encode blake3 ⟨[111], 1, 2⟩ (oneChunk 8), ?_, ?_⟩
  · simp only [encodeAll, twoChunks, List.map_cons, List.map_nil, List.flatten_cons, List.flatten_nil,
      List.append_nil, encode, firstCovered, List.append_assoc]
  · have hpay : (payload (oneChunk 8)).length = 65 := rfl
    simp only [List.length_append, (checksumOf blake3 _).2, encode_length, hpay]
    rfl

lemma firstCovered_changed {q : Bytes} (hq : q.length = 130) :
    Swallows (firstCovered.set 28 1 ++ q) ∧ prefixLen ≤ (firstCovered.set 28 1 ++ q).length ∧
      (firstCovered.set 28 1 ++ q).length < recordLen (firstCovered.set 28 1 ++ q) := by
  obtain ⟨h4, hf, h6, -⟩ := leading_append (p := firstCovered.set 28 1) q (by decide)
  obtain ⟨-, hpl, hrl⟩ := lengths_append (p := firstCovered.set 28 1) q (by decide) (by decide)
  have hlen : (firstCovered.set 28 1 ++ q).length = 226 := by
    rw [List.length_append, hq]
    rfl
  have hrec : recordLen (firstCovered.set 28 1 ++ q) = 369 := hrl.trans (by decide)
  have hmax : payloadLen (firstCovered.set 28 1 ++ q) ≤ maxPayload := by
    rw [hpl]
    decide
  have hlt : (firstCovered.set 28 1 ++ q).length < recordLen (firstCovered.set 28 1 ++ q) := by
    rw [hlen, hrec]
    decide
  refine ⟨⟨h4.trans (by decide), hf.trans (by decide), h6.trans (by decide), .inr ⟨hmax, hlt.le⟩⟩, ?_, hlt⟩
  rw [hlen]
  decide

/-- The first record's payload length, 65, with its second byte changed from 0 to 1: 321 bytes of payload are
more than the log holds, so both records are cut. -/
theorem changed_length_cuts_log : (Ordered none twoChunks ∧ ∀ e ∈ twoChunks, Legible [111] e) ∧
    ∀ blake3 : Bytes → Digest, (encodeAll blake3 twoChunks).getD 28 1 = 0 ∧
      (∃ s, scan blake3 [111] ⟨(encodeAll blake3 twoChunks).set 28 1, []⟩ = .ok s ∧ s.validLen = 0) ∧
      ∃ o, openWriter blake3 (some (some ⟨(encodeAll blake3 twoChunks).set 28 1, .strong ⟨1, 1⟩⟩)) [111] 2 []
        (fun _ => none) = .ok o ∧ o.segment = some [] := by
  refine ⟨⟨twoChunks_ordered, twoChunks_legible⟩, fun blake3 => ?_⟩
  obtain ⟨q, hsplit, hq⟩ := twoChunks_split blake3
  obtain ⟨hs, hpre, hlong⟩ := firstCovered_changed hq
  have hset : (encodeAll blake3 twoChunks).set 28 1 = firstCovered.set 28 1 ++ q := by
    rw [hsplit, List.set_append_left _ _ (by decide)]
  have hscan : ∃ s, scan blake3 [111] ⟨(encodeAll blake3 twoChunks).set 28 1, []⟩ = .ok s ∧ s.validLen = 0 ∧
      s.last = none := by
    obtain ⟨len, reason, hok⟩ := scanBytes_swallowed [111] .start hpre hs
      (not_record_of_long blake3 hlong)
    rw [hset, scan_clean (by simp [ByteStream.Clean])]
    exact ⟨_, hok, rfl, rfl⟩
  obtain ⟨s, hok, hv, hlast⟩ := hscan
  refine ⟨?_, ⟨s, hok, hv⟩, ⟨some s, some [], true, 1⟩, ?_, rfl⟩
  · rw [hsplit, List.getD_append _ _ _ _ (by decide)]
    decide
  · simp [openWriter, resumeSegment, answer, Except.mapError, hok, hlast, chooseSeq, hv, bind, Except.bind, pure,
      Except.pure, Option.elim]

theorem damage_reported_iff_commit :
    ¬ ∃ s, scan zeroHash [111] ⟨damaged zeroHash (⟨[111], 1, 1⟩, oneChunk 7) 112 0 [(⟨[111], 1, 2⟩, oneChunk 8)],
      []⟩ = .ok s ∧ s.validLen < 226 := by
  have hreported := (damage_reported_iff zeroHash [111] [] (⟨[111], 1, 1⟩, oneChunk 7) 112 0
    [(⟨[111], 1, 2⟩, oneChunk 8)] (by decide) twoChunks_ordered twoChunks_legible (by simp) (by decide)
    (fun _ => by decide) (r := ⟨_, []⟩) (by simp [ByteStream.Clean]) rfl).mpr
  rintro ⟨s, hscan, hshort⟩
  refine absurd (hreported ?_ s hscan) (not_le.mpr hshort)
  intro hs
  have := hs.length_field (by decide) (oneChunk_wellFormed 7) (by simp)
  revert this
  decide

end Flux.Wal
