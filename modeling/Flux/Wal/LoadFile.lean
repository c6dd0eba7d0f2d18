import Flux.Wal.WholeScan
import Flux.Wal.Canonical
import Flux.Copy.Decide

/-! Pass two of the replay: `load_file` reads the segment again and applies the records of one file. -/

namespace Flux.Wal

open Base
open Flux.Copy (FileState)

structure Cursor where
  window : Bytes
  base : ℕ
  reader : Input

structure Effective where
  begin : Option FileBegin
  digests : AList fun _ : UInt64 => Digest

def saturatingMul (a b : ℕ) : ℕ := min (a * b) (2 ^ 64 - 1)

def retainBelow (digests : AList fun _ : UInt64 => Digest) (validThrough : UInt64) :
    AList fun _ : UInt64 => Digest :=
  ⟨digests.entries.filter fun e => saturatingMul e.1.toNat chunkSize < validThrough.toNat,
    digests.nodupKeys.sublist List.filter_sublist⟩

def insertFrom (digests : AList fun _ : UInt64 => Digest) : UInt64 → List Digest → AList fun _ : UInt64 => Digest
  | _, [] => digests
  | first, d :: ds => insertFrom (digests.insert first d) (first + 1) ds

def Effective.apply (st : Effective) : Body → Effective
  | .fileBegin f => ⟨some f, retainBelow st.digests f.validThrough⟩
  | .range r =>
    if st.begin.isSome then
      { st with digests := insertFrom st.digests (UInt64.ofNat (r.rangeStart.toNat / chunkSize)) r.digests }
    else st

def Effective.state (st : Effective) : Option FileState := st.begin.map fun begin => ⟨begin, st.digests⟩

def Cursor.seek (c : Cursor) (pos : ℕ) : Except WalError Cursor :=
  if pos < c.base then .error (.corrupt pos "offsets out of order")
  else if c.base + c.window.length ≤ pos then
    let gap := pos - (c.base + c.window.length)
    match c.reader.readFull gap with
    | .error e => .error (.io (.fromIo e))
    | .ok (skipped, r) =>
      if skipped.length < gap then .error (.corrupt pos "segment ends before an indexed record")
      else .ok ⟨[], pos, r⟩
  else .ok ⟨c.window.drop (pos - c.base), pos, c.reader⟩

section

variable (blake3 : Bytes → Digest)

def Cursor.take (c : Cursor) : Except WalError (Body × Cursor) :=
  match decodeNext blake3 c.window with
  | .record _ b len _ => .ok (b, ⟨c.window.drop len, c.base + len, c.reader⟩)
  | .endOfLog | .tornTail =>
    match _ : fill c.reader c.window with
    | .error e => .error e
    | .ok (false, _, _) => .error (.corrupt c.base "segment ends inside an indexed record")
    | .ok (true, window, r) => Cursor.take ⟨window, c.base, r⟩
  | .corrupt _ | .unsupported _ _ => .error (.corrupt c.base "an indexed record no longer decodes")
termination_by c.reader.rest.length
decreasing_by all_goals exact (fill_ok ‹fill c.reader c.window = _›).2.2.2.2.1 rfl

def loadLoop : List ℕ → Cursor → Effective → Except WalError (Option FileState)
  | [], _, st => .ok st.state
  | pos :: rest, c, st => do
    let c ← c.seek pos
    let (b, c) ← c.take blake3
    loadLoop rest c (st.apply b)

def loadFile (r : Input) (scan : Scan) (fileId : Bytes) : Except WalError (Option FileState) :=
  match scan.perFile.lookup fileId with
  | none => .ok none
  | some offsets => loadLoop blake3 offsets ⟨[], 0, r⟩ ⟨none, ∅⟩

def recordAt (pos : ℕ) (bytes : Bytes) : Except WalError (Body × ℕ) :=
  match decodeNext blake3 bytes with
  | .record _ b len _ => .ok (b, len)
  | .endOfLog | .tornTail => .error (.corrupt pos "segment ends inside an indexed record")
  | .corrupt _ | .unsupported _ _ => .error (.corrupt pos "an indexed record no longer decodes")

def loadBytes : List ℕ → ℕ → Bytes → Effective → Except WalError (Option FileState)
  | [], _, _, st => .ok st.state
  | pos :: rest, base, bytes, st =>
    if pos < base then .error (.corrupt pos "offsets out of order")
    else if base + bytes.length < pos then .error (.corrupt pos "segment ends before an indexed record")
    else do
      let (b, len) ← recordAt blake3 pos (bytes.drop (pos - base))
      loadBytes rest (pos + len) ((bytes.drop (pos - base)).drop len) (st.apply b)

end

variable {blake3 : Bytes → Digest}

def Cursor.bytes (c : Cursor) : Bytes := c.window ++ c.reader.rest

lemma Cursor.seek_eq (c : Cursor) (pos : ℕ) :
    (pos < c.base ∧ c.seek pos = .error (.corrupt pos "offsets out of order")) ∨
    (c.base + c.bytes.length < pos ∧ c.seek pos = .error (.corrupt pos "segment ends before an indexed record")) ∨
    (c.base ≤ pos ∧ pos ≤ c.base + c.bytes.length ∧ ∃ c' : Cursor, c.seek pos = .ok c' ∧ c'.base = pos ∧
      c'.bytes = c.bytes.drop (pos - c.base) ∧ (c.reader.Clean → c'.reader.Clean)) ∨
    ¬ c.reader.Clean ∧ ∃ e, c.seek pos = .error (.io e) := by
  simp only [Cursor.seek, Cursor.bytes, List.length_append]
  by_cases hp : pos < c.base
  · exact .inl ⟨hp, if_pos hp⟩
  rw [if_neg hp]
  right
  by_cases hw : c.base + c.window.length ≤ pos
  · rw [if_pos hw]
    have hclean := ByteStream.readFull_clean (n := pos - (c.base + c.window.length)) (s := c.reader)
    cases hr : c.reader.readFull (pos - (c.base + c.window.length)) with
    | error e =>
      refine .inr (.inr ⟨fun hc => ?_, _, rfl⟩)
      obtain ⟨t, ht, -⟩ := hclean hc
      rw [hr] at ht
      cases ht
    | ok x =>
      obtain ⟨skipped, t⟩ := x
      obtain ⟨rfl, ht⟩ := ByteStream.readFull_ok hr
      have htc : c.reader.Clean → t.Clean := by
        intro hc
        obtain ⟨t', ht', -, hclean'⟩ := hclean hc
        rw [hr] at ht'
        cases ht'
        exact hclean'
      simp only [List.length_take]
      by_cases hg : c.base + (c.window.length + c.reader.rest.length) < pos
      · exact .inl ⟨hg, if_pos (by omega)⟩
      · refine .inr (.inl ⟨by omega, by omega, _, if_neg (by omega), rfl, ?_, htc⟩)
        have hd : c.window.drop (pos - c.base) = [] := List.drop_of_length_le (by omega)
        rw [List.nil_append, ht, List.drop_append, hd, List.nil_append, Nat.sub_sub]
  · rw [if_neg hw]
    refine .inr (.inl ⟨by omega, by omega, _, rfl, rfl, ?_, id⟩)
    rw [List.drop_append_of_le_length (by omega)]

lemma Cursor.take_eq (blake3 : Bytes → Digest) (c : Cursor) :
    (∃ e, c.take blake3 = .error e ∧ recordAt blake3 c.base c.bytes = .error e) ∨
    (∃ b len c', c.take blake3 = .ok (b, c') ∧ recordAt blake3 c.base c.bytes = .ok (b, len) ∧
      c'.base = c.base + len ∧ c'.bytes = c.bytes.drop len ∧ (c.reader.Clean → c'.reader.Clean)) ∨
    ¬ c.reader.Clean ∧ ∃ e, c.take blake3 = .error (.io e) := by
  fun_induction Cursor.take blake3 c with
  | case1 c h b len sum hd =>
    have hw := decodeNext_window c.reader.rest hd (by simp) (by simp)
    refine .inr (.inl ⟨b, len, _, rfl, ?_, rfl, ?_, id⟩)
    · rw [recordAt, Cursor.bytes, hw]
    · rw [Cursor.bytes, Cursor.bytes, List.drop_append_of_le_length (decodeNext_record hd).2]
  | case2 c hd e hf | case5 c hd e hf =>
    obtain ⟨hc, x, rfl⟩ := fill_error hf
    exact .inr (.inr ⟨hc, x, rfl⟩)
  | case3 c hd window r hf | case6 c hd window r hf =>
    have hr := (fill_ok hf).2.1.mp rfl
    refine .inl ⟨_, rfl, ?_⟩
    rw [recordAt, Cursor.bytes, hr, List.append_nil, hd]
  | case4 c hd window r hf ih | case7 c hd window r hf ih =>
    obtain ⟨h1, -, -, -, -, hcl⟩ := fill_ok hf
    have hb : (Cursor.mk window c.base r).bytes = c.bytes := h1.symm
    rw [← hb]
    rcases ih with ih | ⟨b, len, c', ht, hr, hbase, hbytes, hclean⟩ | ⟨hn, he⟩
    · exact .inl ih
    · exact .inr (.inl ⟨b, len, c', ht, hr, hbase, hbytes, fun hc => hclean (hcl hc)⟩)
    · exact .inr (.inr ⟨fun hc => hn (hcl hc), he⟩)
  | case8 c why hd =>
    refine .inl ⟨_, rfl, ?_⟩
    rw [recordAt, Cursor.bytes, decodeNext_window c.reader.rest hd (by simp) (by simp)]
  | case9 c format sum hd =>
    refine .inl ⟨_, rfl, ?_⟩
    rw [recordAt, Cursor.bytes, decodeNext_window c.reader.rest hd (by simp) (by simp)]

lemma loadLoop_eq (offsets : List ℕ) (c : Cursor) (st : Effective) :
    OrIo c.reader (loadLoop blake3 offsets c st) (loadBytes blake3 offsets c.base c.bytes st) := by
  induction offsets generalizing c st with
  | nil => exact .inl rfl
  | cons pos rest ih =>
    rw [loadLoop, loadBytes]
    rcases Cursor.seek_eq c pos with ⟨hp, hs⟩ | ⟨hp, hs⟩ | ⟨h1, h2, c', hs, hb, hbytes, hc'⟩ | ⟨hn, e, hs⟩
    · rw [hs, if_pos hp]
      exact .inl rfl
    · rw [hs, if_neg (by omega), if_pos hp]
      exact .inl rfl
    · rw [hs, if_neg (by omega), if_neg (by omega), ← hbytes, ← hb]
      refine OrIo.mono ?_ hc'
      change OrIo _ (c'.take blake3 >>= _) _
      rcases Cursor.take_eq blake3 c' with ⟨e, ht, hr⟩ | ⟨b, len, c'', ht, hr, hb', hbytes', hc''⟩ | ⟨hn, e, ht⟩
      · rw [hr, ht]
        exact .inl rfl
      · rw [hr, ht]
        change OrIo _ (loadLoop blake3 rest c'' _) (loadBytes blake3 rest (c'.base + len) _ _)
        rw [← hb', ← hbytes']
        exact (ih c'' _).mono hc''
      · rw [ht]
        exact .inr ⟨hn, e, rfl⟩
    · rw [hs]
      exact .inr ⟨hn, e, rfl⟩

lemma scan_clean {operationId : Bytes} {r : Input} (hc : r.Clean) :
    scan blake3 operationId r = scanBytes blake3 operationId .start r.rest :=
  (scanLoop_eq .start [] r).resolve_right fun h => h.1 hc

def loadWhole (blake3 : Bytes → Digest) (bytes : Bytes) (scan : Scan) (fileId : Bytes) :
    Except WalError (Option FileState) :=
  match scan.perFile.lookup fileId with
  | none => .ok none
  | some offsets => loadBytes blake3 offsets 0 bytes ⟨none, ∅⟩

lemma loadFile_eq (r : Input) (s : Scan) (fileId : Bytes) :
    OrIo r (loadFile blake3 r s fileId) (loadWhole blake3 r.rest s fileId) := by
  rw [loadFile, loadWhole]
  split
  · exact .inl rfl
  · exact loadLoop_eq _ _ _

lemma loadFile_clean {r : Input} (hc : r.Clean) (s : Scan) (fileId : Bytes) :
    loadFile blake3 r s fileId = loadWhole blake3 r.rest s fileId :=
  (loadFile_eq r s fileId).resolve_right fun h => h.1 hc

theorem replay_schedule_independent (blake3 : Bytes → Digest) (operationId : Bytes) {r r' : Input} (hc : r.Clean)
    (hc' : r'.Clean) (hr : r.rest = r'.rest) :
    scan blake3 operationId r = scan blake3 operationId r' ∧
      ∀ (s : Scan) (fileId : Bytes), loadFile blake3 r s fileId = loadFile blake3 r' s fileId := by
  refine ⟨?_, fun s fileId => ?_⟩
  · rw [scan_clean hc, scan_clean hc', hr]
  · rw [loadFile_clean hc, loadFile_clean hc', hr]

theorem replay_schedule_independent_oneChunk :
    scan zeroHash [111] ⟨encode zeroHash ⟨[111], 1, 1⟩ (oneChunk 7), [.upTo 3, .interrupted, .upTo 20]⟩ =
      scan zeroHash [111] ⟨encode zeroHash ⟨[111], 1, 1⟩ (oneChunk 7), []⟩ := by
  refine (replay_schedule_independent zeroHash [111] ?_ ?_ ?_).1
  · simp [ByteStream.Clean]
  · simp [ByteStream.Clean]
  · rfl

end Flux.Wal
