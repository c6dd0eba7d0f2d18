import Flux.Base.Reader

/-! The record layout of the write-ahead log: encoding, decoding and the span a record declares. -/

namespace Flux.Wal

open Base

abbrev Digest := Block 32

def chunkSize : ℕ := 2 ^ 20

def magic : Bytes := [0x46, 0x57, 0x41, 0x4C]

def formatVersion : ℕ := 1

def checksumVersion : UInt8 := 1

def commit : UInt8 := 0xC3

def maxPayload : ℕ := 2 ^ 20

def typeFileBegin : UInt8 := 1

def typeRange : UInt8 := 2

def prefixLen : ℕ := 10

def fixedLen : ℕ := 20

def suffixLen : ℕ := 17

structure Header where
  operationId : Bytes
  generation : UInt64
  sequence : UInt64
  deriving DecidableEq, Repr

structure FileBegin where
  fileId : Bytes
  attemptId : UInt64
  destination : Bytes
  sourceLen : UInt64
  sourceMtime : Option (Int64 × UInt32)
  sourceIdentity : Bytes
  chunkSize : UInt64
  validThrough : UInt64
  deriving DecidableEq, Repr

structure Range where
  fileId : Bytes
  attemptId : UInt64
  rangeStart : UInt64
  rangeEnd : UInt64
  digests : List Digest
  deriving DecidableEq, Repr

inductive Body where
  | fileBegin (f : FileBegin)
  | range (r : Range)
  deriving DecidableEq, Repr

def Body.fileId : Body → Bytes
  | .fileBegin f => f.fileId
  | .range r => r.fileId

inductive Decoded where
  | record (header : Header) (body : Body) (len : ℕ) (checksum : Block 16)
  | endOfLog
  | tornTail
  | corrupt (why : String)
  | unsupported (format : ℕ) (checksum : UInt8)
  deriving DecidableEq, Repr

def divCeil (n d : ℕ) : ℕ := (n + d - 1) / d

lemma chunkSize_pos : 0 < chunkSize := by decide

section

attribute [local irreducible] chunkSize

lemma divCeil_le_iff {n k : ℕ} : divCeil n chunkSize ≤ k ↔ n ≤ k * chunkSize := by
  have hc := chunkSize_pos
  rw [divCeil, ← Nat.lt_succ_iff, Nat.div_lt_iff_lt_mul hc, Nat.succ_mul]
  omega

lemma lt_divCeil_iff {n k : ℕ} : k < divCeil n chunkSize ↔ k * chunkSize < n := by
  rw [← not_le, divCeil_le_iff, not_le]

lemma divCeil_eq {n k : ℕ} (h : k * chunkSize < n) (h' : n ≤ (k + 1) * chunkSize) : divCeil n chunkSize = k + 1 :=
  le_antisymm (divCeil_le_iff.mpr h') (lt_divCeil_iff.mpr h)

end

def checksumOf (blake3 : Bytes → Digest) (covered : Bytes) : Block 16 :=
  ⟨(blake3 covered).1.take 16, by simp [(blake3 covered).2]⟩

def putBytes (v : Bytes) : Bytes := le 4 v.length ++ v

def mtimeBytes : Option (Int64 × UInt32) → Bytes
  | none => [0]
  | some (secs, nanos) => 1 :: (le 8 secs.toUInt64.toNat ++ le 4 nanos.toNat)

def recordType : Body → UInt8
  | .fileBegin _ => typeFileBegin
  | .range _ => typeRange

def payload : Body → Bytes
  | .fileBegin f =>
    putBytes f.fileId ++ le 8 f.attemptId.toNat ++ putBytes f.destination ++ le 8 f.sourceLen.toNat ++
      mtimeBytes f.sourceMtime ++ putBytes f.sourceIdentity ++ le 8 f.chunkSize.toNat ++
      le 8 f.validThrough.toNat
  | .range r =>
    putBytes r.fileId ++ le 8 r.attemptId.toNat ++ le 8 r.rangeStart.toNat ++ le 8 r.rangeEnd.toNat ++
      le 4 r.digests.length ++ (r.digests.map Subtype.val).flatten

/-- Everything the checksum covers. A length that does not fit its field aborts the source; the well-formed
records below have none. -/
def covered (h : Header) (b : Body) : Bytes :=
  magic ++ le 2 formatVersion ++ [checksumVersion] ++ [recordType b] ++ le 2 h.operationId.length ++
    h.operationId ++ le 8 h.generation.toNat ++ le 8 h.sequence.toNat ++ le 4 (payload b).length ++ payload b

def parseMtime : Reader (Option (Int64 × UInt32)) := do
  let tag ← Reader.u8
  if tag = 0 then return none
  else if tag = 1 then return some (← Reader.i64, ← Reader.u32)
  else Reader.fail

def parseFileBegin : Reader FileBegin := do
  let fileId ← Reader.vec
  let attemptId ← Reader.u64
  let destination ← Reader.vec
  let sourceLen ← Reader.u64
  let sourceMtime ← parseMtime
  let sourceIdentity ← Reader.vec
  let chunkSize ← Reader.u64
  let validThrough ← Reader.u64
  return ⟨fileId, attemptId, destination, sourceLen, sourceMtime, sourceIdentity, chunkSize, validThrough⟩

def parseRange : Reader Range := do
  let fileId ← Reader.vec
  let attemptId ← Reader.u64
  let rangeStart ← Reader.u64
  let rangeEnd ← Reader.u64
  let count ← Reader.num 4
  if count * 32 > (← Reader.remaining) then Reader.fail
  else return ⟨fileId, attemptId, rangeStart, rangeEnd, ← Reader.blocks 32 count⟩

def parseBody (type : UInt8) (bytes : Bytes) : Except String Body :=
  if type = typeFileBegin then
    match parseFileBegin bytes with
    | some (f, []) => .ok (.fileBegin f)
    | _ => .error "malformed payload"
  else if type = typeRange then
    match parseRange bytes with
    | some (r, rest) =>
      if r.rangeStart.toNat % chunkSize ≠ 0 then .error "range_start is not chunk aligned"
      else if r.rangeEnd ≤ r.rangeStart then .error "range_end is not above range_start"
      else if r.digests.length ≠ divCeil (r.rangeEnd.toNat - r.rangeStart.toNat) chunkSize then
        .error "digest count does not match the range"
      else if rest = [] then .ok (.range r)
      else .error "malformed payload"
    | none => .error "malformed payload"
  else .error s!"unknown record type {type}"

def formatOf (bytes : Bytes) : ℕ := ofLe (slice bytes 4 2)

def fixedAt (bytes : Bytes) : ℕ := prefixLen + ofLe (slice bytes 8 2)

def payloadLen (bytes : Bytes) : ℕ := ofLe (slice bytes (fixedAt bytes + 16) 4)

def payloadAt (bytes : Bytes) : ℕ := fixedAt bytes + fixedLen

def checksumAt (bytes : Bytes) : ℕ := payloadAt bytes + payloadLen bytes

def recordLen (bytes : Bytes) : ℕ := checksumAt bytes + suffixLen

def declaredSpan (bytes : Bytes) : Option ℕ :=
  if bytes.length < prefixLen ∨ bytes.take 4 ≠ magic then none
  else if formatOf bytes ≠ formatVersion ∨ bytes.getD 6 0 ≠ checksumVersion then none
  else if bytes.length < payloadAt bytes then none
  else if payloadLen bytes > maxPayload then none
  else some (recordLen bytes)

section

variable (blake3 : Bytes → Digest)

def encode (h : Header) (b : Body) : Bytes :=
  covered h b ++ (checksumOf blake3 (covered h b)).1 ++ [commit]

def headerOf (bytes : Bytes) : Header where
  operationId := slice bytes prefixLen (fixedAt bytes - prefixLen)
  generation := UInt64.ofNat (ofLe (slice bytes (fixedAt bytes) 8))
  sequence := UInt64.ofNat (ofLe (slice bytes (fixedAt bytes + 8) 8))

def decodeWhole (bytes : Bytes) : Decoded :=
  let checksum := checksumOf blake3 (bytes.take (checksumAt bytes))
  if checksum.1 ≠ slice bytes (checksumAt bytes) 16 then .corrupt "checksum mismatch"
  else if bytes.getD (recordLen bytes - 1) 0 ≠ commit then .corrupt "wrong commit byte"
  else match parseBody (bytes.getD 7 0) (slice bytes (payloadAt bytes) (payloadLen bytes)) with
    | .ok body => .record (headerOf bytes) body (recordLen bytes) checksum
    | .error why => .corrupt why

def decodeNext (bytes : Bytes) : Decoded :=
  if bytes = [] then .endOfLog
  else if bytes.length < prefixLen then .tornTail
  else if bytes.take 4 ≠ magic then .corrupt "bad magic"
  else if formatOf bytes ≠ formatVersion ∨ bytes.getD 6 0 ≠ checksumVersion then
    .unsupported (formatOf bytes) (bytes.getD 6 0)
  else if bytes.length < payloadAt bytes then .tornTail
  else if payloadLen bytes > maxPayload then
    .corrupt s!"payload_len {payloadLen bytes} above the bound {maxPayload}"
  else if bytes.length < recordLen bytes then .tornTail
  else decodeWhole blake3 (bytes.take (recordLen bytes))

end

structure Range.WellFormed (r : Range) : Prop where
  aligned : r.rangeStart.toNat % chunkSize = 0
  ascending : r.rangeStart < r.rangeEnd
  count : r.digests.length = divCeil (r.rangeEnd.toNat - r.rangeStart.toNat) chunkSize

structure Body.WellFormed (b : Body) : Prop where
  bound : (payload b).length ≤ maxPayload
  range : ∀ r, b = .range r → r.WellFormed

end Flux.Wal
