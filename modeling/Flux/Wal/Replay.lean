import Flux.Wal.Codec
import Flux.Base.Stream
import Flux.Fs.Types
import Mathlib.Data.List.AList

/-! Pass one of the replay: `scan`. `window` is what is left of the source's, whose start index is not kept. -/

namespace Flux.Wal

open Base

def readWindow : ℕ := 64 * 1024

inductive TailReason where
  | zeroFilled | spanReachesEnd | tornRecord
  deriving DecidableEq, Repr

structure DiscardedTail where
  offset : ℕ
  len : ℕ
  reason : TailReason
  deriving DecidableEq, Repr

structure Scan where
  perFile : AList fun _ : Bytes => List ℕ
  last : Option (UInt64 × UInt64)
  validLen : ℕ
  discardedTail : Option DiscardedTail
  deriving DecidableEq

inductive WalError where
  | corrupt (offset : ℕ) (why : String)
  | sequenceConflict (generation sequence : UInt64)
  | unsupported (format : ℕ) (checksum : UInt8)
  | io (e : FsError)
  deriving DecidableEq, Repr

abbrev Input := ByteStream IoError

def fill (r : Input) (window : Bytes) : Except WalError (Bool × Bytes × Input) :=
  match r.read readWindow with
  | .ok (chunk, r') => .ok (!chunk.isEmpty, window ++ chunk, r')
  | .error e => .error (.io (.fromIo e))

lemma fill_ok {r r' : Input} {window window' : Bytes} {more : Bool} (h : fill r window = .ok (more, window', r')) :
    window ++ r.rest = window' ++ r'.rest ∧ (more = false ↔ r.rest = []) ∧ (more = false → window' = window) ∧
      r'.rest.length + window'.length = r.rest.length + window.length ∧
      (more = true → r'.rest.length < r.rest.length) ∧ (r.Clean → r'.Clean) := by
  rw [fill] at h
  split at h
  · rename_i chunk s hs
    obtain ⟨rest, ds⟩ := r
    cases h
    obtain ⟨h1, h2, -, h4⟩ := ByteStream.next_ok (by decide : 0 < readWindow) hs
    have hm : (!chunk.isEmpty) = false ↔ chunk = [] := by cases chunk <;> simp
    have hl : rest.length = chunk.length + r'.rest.length := by rw [← List.length_append, ← h1]
    refine ⟨by rw [List.append_assoc, ← h1], hm.trans h2, ?_, ?_, ?_, h4⟩
    · intro hc
      rw [hm.mp hc, List.append_nil]
    · simp only [List.length_append]
      omega
    · intro hc
      have : chunk ≠ [] := fun hn => by simp [hn] at hc
      have := List.length_pos_of_ne_nil this
      simp only
      omega
  · cases h

lemma fill_error {r : Input} {window : Bytes} {e : WalError} (h : fill r window = .error e) :
    ¬ r.Clean ∧ ∃ x, e = .io x := by
  rw [fill] at h
  split at h
  · cases h
  · rename_i hs
    cases h
    exact ⟨ByteStream.next_error hs, _, rfl⟩

def allZero (bs : Bytes) : Bool := bs.all (· = 0)

lemma allZero_append (p q : Bytes) : allZero (p ++ q) = (allZero p && allZero q) := by
  simp only [allZero, List.all_append]

def zeroTail (r : Input) (part : Bytes) (total : ℕ) : Except WalError (Option (ℕ × TailReason)) :=
  if allZero part then
    match _ : fill r [] with
    | .error e => .error e
    | .ok (false, _, _) => .ok (some (total + part.length, .zeroFilled))
    | .ok (true, window, r') => zeroTail r' window (total + part.length)
  else .ok none
termination_by r.rest.length
decreasing_by exact (fill_ok ‹fill r [] = _›).2.2.2.2.1 rfl

def afterMagic (bytes : Bytes) : Bytes := if bytes.take 4 = magic then bytes.drop 4 else bytes

def trailingZeros (r : Input) (window : Bytes) : Except WalError (Option (ℕ × TailReason)) :=
  zeroTail r (afterMagic window) (window.length - (afterMagic window).length)

def trailingDamage (r : Input) (window : Bytes) (trustSpan : Bool) : Except WalError (Option (ℕ × TailReason)) :=
  if trustSpan = true ∧ declaredSpan window = some window.length then
    match fill r window with
    | .error e => .error e
    | .ok (false, _, _) => .ok (some (window.length, .spanReachesEnd))
    | .ok (true, window', r') => trailingZeros r' window'
  else trailingZeros r window

structure Progress where
  out : Scan
  seen : AList fun _ : UInt64 × UInt64 => Block 16
  offset : ℕ

def Progress.start : Progress := ⟨⟨∅, none, 0, none⟩, ∅, 0⟩

def saturatingSucc (s : UInt64) : UInt64 := if s.toNat = 2 ^ 64 - 1 then s else s + 1

def inOrder (last : Option (UInt64 × UInt64)) (pair : UInt64 × UInt64) : Bool :=
  match last with
  | none => pair.2 = 1
  | some (g, s) => (pair.1 = g ∧ pair.2 = saturatingSucc s) ∨ (g < pair.1 ∧ pair.2 = 1)

def pushOffset (m : AList fun _ : Bytes => List ℕ) (fileId : Bytes) (offset : ℕ) : AList fun _ : Bytes => List ℕ :=
  m.insert fileId ((m.lookup fileId).getD [] ++ [offset])

def Progress.advance (st : Progress) (len : ℕ) : Progress :=
  { st with out.validLen := st.offset + len, offset := st.offset + len }

def accept (operationId : Bytes) (st : Progress) (h : Header) (b : Body) (len : ℕ) (checksum : Block 16) :
    Except WalError Progress :=
  let pair := (h.generation, h.sequence)
  if h.operationId ≠ operationId then .error (.corrupt st.offset "foreign operation id")
  else match st.seen.lookup pair with
    | some prior =>
      if prior ≠ checksum then .error (.sequenceConflict pair.1 pair.2) else .ok (st.advance len)
    | none =>
      if inOrder st.out.last pair then
        .ok (Progress.advance ⟨{ st.out with
          last := some pair
          perFile := pushOffset st.out.perFile b.fileId st.offset }, st.seen.insert pair checksum, st.offset⟩ len)
      else .error (.corrupt st.offset "sequence regression")

def Progress.cut (st : Progress) (len : ℕ) (reason : TailReason) : Scan :=
  { st.out with discardedTail := some ⟨st.offset, len, reason⟩ }

def tornReason (bytes : Bytes) : TailReason := if allZero bytes then .zeroFilled else .tornRecord

section

variable (blake3 : Bytes → Digest) (operationId : Bytes)

def scanLoop (st : Progress) (window : Bytes) (r : Input) : Except WalError Scan :=
  match _ : decodeNext blake3 window with
  | .record h b len checksum =>
    match accept operationId st h b len checksum with
    | .error e => .error e
    | .ok st' => scanLoop st' (window.drop len) r
  | .endOfLog | .tornTail =>
    match _ : fill r window with
    | .error e => .error e
    | .ok (true, window', r') => scanLoop st window' r'
    | .ok (false, window', _) =>
      .ok (if window' = [] then st.out else st.cut window'.length (tornReason window'))
  | .corrupt why =>
    match trailingDamage r window true with
    | .error e => .error e
    | .ok (some (len, reason)) => .ok (st.cut len reason)
    | .ok none => .error (.corrupt st.offset why)
  | .unsupported format checksum =>
    match trailingDamage r window false with
    | .error e => .error e
    | .ok (some (len, reason)) => .ok (st.cut len reason)
    | .ok none => .error (.unsupported format checksum)
termination_by (r.rest.length + window.length, r.rest.length)
decreasing_by
  · have := decodeNext_record ‹decodeNext blake3 window = _›
    left
    simp only [List.length_drop]
    omega
  all_goals
    obtain ⟨-, -, -, hs, ht, -⟩ := fill_ok ‹fill r window = _›
    rw [hs]
    exact Prod.Lex.right _ (ht rfl)

def scan (r : Input) : Except WalError Scan := scanLoop blake3 operationId .start [] r

end

end Flux.Wal
