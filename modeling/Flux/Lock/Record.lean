import Flux.Base.Reader
import Flux.Base.Text

namespace Flux.Lock

open Base Reader

def recordLen : ℕ := 4096

def magic : Bytes := [0x46, 0x4c, 0x55, 0x58, 0x4c, 0x4f, 0x43, 0x4b]

def formatVersion : ℕ := 1

def checksumAt : ℕ := recordLen - 16

structure LockRecord where
  completeLockKey : Text
  operationId : Text
  ownerInstanceId : Text
  bootSessionId : Text
  targetPathKey : Text
  workspacePath : Text
  creationWallTime : UInt64
  lastHeartbeatWallTime : UInt64
  deriving DecidableEq, Repr

inductive Uncertain where
  | empty | torn | checksum
  | unknownVersion (version : ℕ)
  | malformed
  deriving DecidableEq, Repr

inductive Decoded where
  | record (r : LockRecord)
  | uncertain (why : Uncertain)
  | foreign
  deriving DecidableEq, Repr

def LockRecord.fields (r : LockRecord) : List Text :=
  [r.completeLockKey, r.operationId, r.ownerInstanceId, r.bootSessionId, r.targetPathKey, r.workspacePath,
    decimal r.creationWallTime.toNat, decimal r.lastHeartbeatWallTime.toNat]

def putField (t : Text) : Option Bytes :=
  if (utf8 t).length < 2 ^ 16 then some (le 2 (utf8 t).length ++ utf8 t) else none

variable (blake3 : Bytes → Block 32)

/-- `none` is a panic: the fields do not fit. -/
def LockRecord.encode (r : LockRecord) : Option Bytes := do
  let fields ← r.fields.mapM putField
  let out := magic ++ le 4 formatVersion ++ fields.flatten
  if out.length ≤ checksumAt then
    let out := out ++ List.replicate (checksumAt - out.length) 0
    some (out ++ (blake3 out).1.take 16)
  else none

def nextField : Reader Text := do
  let t ← take (← num 2)
  match ofUtf8 t with
  | some t => return t
  | none => fail

def time (t : Text) : Option UInt64 :=
  if isDecimal t ∧ Nat.ofDigitChars 10 t 0 < 2 ^ 64 then some (UInt64.ofNat (Nat.ofDigitChars 10 t 0)) else none

def nextTime : Reader UInt64 := do
  match time (← nextField) with
  | some t => return t
  | none => fail

def readV1 : Reader LockRecord := do
  return {
    completeLockKey := ← nextField
    operationId := ← nextField
    ownerInstanceId := ← nextField
    bootSessionId := ← nextField
    targetPathKey := ← nextField
    workspacePath := ← nextField
    creationWallTime := ← nextTime
    lastHeartbeatWallTime := ← nextTime }

def parseV1 (body : Bytes) : Option LockRecord :=
  match readV1 body with
  | some (r, rest) => if rest.all (· = 0) then some r else none
  | none => none

def zeroOrMagic (bytes : Bytes) : Bool := (bytes.zip magic).all fun b => b.1 = 0 ∨ b.1 = b.2

def wholeMagic (bytes : Bytes) : Bool := bytes.take magic.length = magic

def decode (bytes : Bytes) : Decoded :=
  if bytes = [] then .uncertain .empty
  else if ¬ zeroOrMagic bytes ∨ (bytes.length > recordLen ∧ ¬ wholeMagic bytes) then .foreign
  else if bytes.length ≠ recordLen ∨ ¬ wholeMagic bytes then .uncertain .torn
  else if (blake3 (bytes.take checksumAt)).1.take 16 ≠ bytes.drop checksumAt then .uncertain .checksum
  else if ofLe (slice bytes 8 4) ≠ formatVersion then .uncertain (.unknownVersion (ofLe (slice bytes 8 4)))
  else
    match parseV1 (slice bytes 12 (checksumAt - 12)) with
    | some r => .record r
    | none => .uncertain .malformed

variable {bytes : Bytes}

lemma zeroOrMagic_iff :
    zeroOrMagic bytes = true ↔ ∀ (i : ℕ) (b m : UInt8), bytes[i]? = some b → magic[i]? = some m →
    b = 0 ∨ b = m := by
  simp only [zeroOrMagic, List.all_eq_true, decide_eq_true_eq, List.mem_iff_getElem?, List.getElem?_zip_eq_some,
    Prod.forall]
  exact ⟨fun h i b m hb hm => h b m ⟨i, hb, hm⟩, fun h b m ⟨i, hb, hm⟩ => h i b m hb hm⟩

lemma wholeMagic_iff :
    wholeMagic bytes = true ↔ ∀ (i : ℕ) (m : UInt8), magic[i]? = some m → bytes[i]? = some m := by
  simp only [wholeMagic, decide_eq_true_eq]
  constructor
  · intro h i m hm
    rw [← h, List.getElem?_take] at hm
    split at hm
    · exact hm
    · cases hm
  · intro h
    refine List.ext_getElem? fun i => ?_
    rw [List.getElem?_take]
    split
    · rename_i hi
      rw [List.getElem?_eq_getElem hi]
      exact h i _ (List.getElem?_eq_getElem hi)
    · rename_i hi
      rw [List.getElem?_eq_none (not_lt.1 hi)]

lemma decode_ne_foreign :
    decode blake3 bytes ≠ .foreign ↔ zeroOrMagic bytes ∧ (bytes.length ≤ recordLen ∨ wholeMagic bytes) := by
  unfold decode
  split
  · rename_i h
    subst h
    simp [zeroOrMagic]
  · split
    · rename_i h
      refine ⟨fun hf => absurd rfl hf, fun hf => ?_⟩
      grind
    · rename_i h
      refine ⟨fun _ => by grind, fun _ => ?_⟩
      repeat' split
      all_goals exact Decoded.noConfusion

lemma decode_take (bytes : Bytes) : decode blake3 (bytes.take (recordLen + 1)) = decode blake3 bytes := by
  rcases le_or_gt bytes.length (recordLen + 1) with h | h
  · rw [List.take_of_length_le h]
  · have hne : bytes ≠ [] := fun hn => by simp [hn] at h
    have hm : magic.length ≤ recordLen + 1 := by decide
    have hz : zeroOrMagic (bytes.take (recordLen + 1)) = zeroOrMagic bytes := by
      rw [Bool.eq_iff_iff, zeroOrMagic_iff, zeroOrMagic_iff]
      refine forall_congr' fun i => forall_congr' fun b => forall_congr' fun m => ?_
      refine ⟨fun hi hb hm' => hi ?_ hm', fun hi hb hm' => hi ?_ hm'⟩
      · rw [List.getElem?_take_of_lt ((List.getElem?_eq_some_iff.1 hm').1.trans_le hm)]
        exact hb
      · rwa [List.getElem?_take_of_lt ((List.getElem?_eq_some_iff.1 hm').1.trans_le hm)] at hb
    have hw : wholeMagic (bytes.take (recordLen + 1)) = wholeMagic bytes := by
      rw [wholeMagic, wholeMagic, List.take_take, min_eq_left hm]
    have hl : (bytes.take (recordLen + 1)).length = recordLen + 1 := by
      rw [List.length_take, min_eq_left h.le]
    have hlen : bytes.length ≠ recordLen := by omega
    have hne' : bytes.take (recordLen + 1) ≠ [] := fun hn => by rw [hn] at hl; cases hl
    simp only [decode, if_neg hne, if_neg hne', hz, hw, hl, ne_eq, hlen, not_false_eq_true, true_or, if_true,
      show recordLen + 1 > recordLen by omega, show bytes.length > recordLen by omega, true_and,
      show recordLen + 1 ≠ recordLen by omega]

lemma LockRecord.encode_shape {r : LockRecord} (h : r.encode blake3 = some bytes) :
    bytes.length = recordLen ∧ wholeMagic bytes := by
  rw [encode, Option.bind_eq_bind, Option.bind_eq_some_iff] at h
  obtain ⟨fields, -, h⟩ := h
  dsimp only at h
  split at h
  · rename_i hle
    cases h
    have hsum (b : Block 32) : (b.1.take 16).length = 16 := by
      rw [List.length_take, b.2]
      rfl
    constructor
    · simp only [List.length_append, List.length_replicate, hsum] at hle ⊢
      unfold checksumAt at hle ⊢
      have : recordLen = 4096 := rfl
      omega
    · rw [wholeMagic, decide_eq_true_eq]
      simp only [List.append_assoc, List.take_left]
  · cases h

end Flux.Lock
