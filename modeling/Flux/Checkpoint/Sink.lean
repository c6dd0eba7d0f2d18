import Flux.Copy.Stage
import Flux.Wal.Loop

/-! The per-file sink: source bytes in, chunk digests out as messages to the writer of the log. -/

namespace Flux.Checkpoint

open Base Wal Copy

structure ChunkHasher where
  pending : Bytes
  index : ℕ
  short : pending.length < chunkSize

namespace ChunkHasher

def fromChunk (index : ℕ) : ChunkHasher := ⟨[], index, by decide⟩

def bytesSeen (h : ChunkHasher) : ℕ := h.index * chunkSize + h.pending.length

def room (h : ChunkHasher) (bytes : Bytes) : ℕ := min (chunkSize - h.pending.length) bytes.length

lemma room_pos (h : ChunkHasher) {bytes : Bytes} (hb : bytes ≠ []) : 0 < h.room bytes := by
  have := h.short
  have := List.length_pos_of_ne_nil hb
  rw [room]
  omega

def update (blake3 : Bytes → Digest) (h : ChunkHasher) (bytes : Bytes) : List (ℕ × Digest) × ChunkHasher :=
  if _ : bytes = [] then ([], h)
  else
    let chunk := h.pending ++ bytes.take (h.room bytes)
    if hc : chunk.length < chunkSize then update blake3 ⟨chunk, h.index, hc⟩ (bytes.drop (h.room bytes))
    else
      let (done, h') := update blake3 (fromChunk (h.index + 1)) (bytes.drop (h.room bytes))
      ((h.index, blake3 chunk) :: done, h')
termination_by bytes.length
decreasing_by
  all_goals
    have := h.room_pos ‹¬ bytes = []›
    have := List.length_pos_of_ne_nil ‹¬ bytes = []›
    simp only [List.length_drop]
    omega

lemma update_of_short (blake3 : Bytes → Digest) (h : ChunkHasher) (bytes : Bytes)
    (hs : (h.pending ++ bytes).length < chunkSize) :
    h.update blake3 bytes = ([], ⟨h.pending ++ bytes, h.index, hs⟩) := by
  have hroom : h.room bytes = bytes.length := by
    rw [List.length_append] at hs
    rw [room]
    omega
  by_cases hb : bytes = []
  · subst hb
    rw [update, dif_pos rfl]
    simp
  · rw [update, dif_neg hb]
    simp only [hroom, List.take_length, List.drop_length, dif_pos hs]
    rw [update, dif_pos rfl]

def finish (blake3 : Bytes → Digest) (h : ChunkHasher) : Option Digest :=
  if h.pending = [] then none else some (blake3 h.pending)

def Numbered : ℕ → List (ℕ × Digest) → Prop
  | _, [] => True
  | i, p :: ps => p.1 = i ∧ Numbered (i + 1) ps

lemma update_spec (blake3 : Bytes → Digest) (h : ChunkHasher) (bytes : Bytes) :
    Numbered h.index (h.update blake3 bytes).1 ∧
      (h.update blake3 bytes).2.index = h.index + (h.update blake3 bytes).1.length ∧
      (h.update blake3 bytes).2.bytesSeen = h.bytesSeen + bytes.length := by
  fun_induction update blake3 h bytes with
  | case1 h => simp [Numbered]
  | case2 h bytes hb chunk hc ih =>
    obtain ⟨h1, h2, h3⟩ := ih
    refine ⟨h1, h2, h3.trans ?_⟩
    have hr : h.room bytes ≤ bytes.length := min_le_right _ _
    simp only [bytesSeen, chunk, List.length_append, List.length_take, List.length_drop]
    omega
  | case3 h bytes hb chunk hc done h' he ih =>
    rw [he] at ih
    obtain ⟨h1, h2, h3⟩ := ih
    refine ⟨⟨rfl, h1⟩, ?_, h3.trans ?_⟩
    · have hi : (fromChunk (h.index + 1)).index = h.index + 1 := rfl
      simp only [hi, List.length_cons] at h2 ⊢
      omega
    · have hs := h.short
      have hr : h.room bytes = min (chunkSize - h.pending.length) bytes.length := rfl
      simp only [chunk, List.length_append, List.length_take] at hc
      simp only [bytesSeen, fromChunk, List.length_nil, List.length_drop, Nat.add_mul]
      omega

end ChunkHasher

/-- The sink and what it sent, the last message last. `answers` are the outcomes of the sends and of the looks
at the log's fault still to come. -/
structure Sink (Dup : Type) where
  fileId : Bytes
  rangeChunks : ℕ
  hasher : ChunkHasher
  rangeStart : ℕ
  digests : List Digest
  sent : List (Msg Dup)
  answers : List (Option SinkError)

abbrev SinkAct (Dup : Type) := Act (Sink Dup) SinkError

variable {Dup : Type}

def attemptId : UInt64 := 1

def ask : SinkAct Dup Unit := do
  let s ← get
  match s.answers with
  | [] => pure ()
  | a :: as =>
    set { s with answers := as }
    match a with
    | none => pure ()
    | some e => throw e

def send (m : Msg Dup) : SinkAct Dup Unit := do
  ask
  modify fun s => { s with sent := s.sent ++ [m] }

def rangeOf (fileId : Bytes) (start stop : ℕ) (digests : List Digest) : Wal.Range :=
  ⟨fileId, attemptId, UInt64.ofNat start, UInt64.ofNat stop, digests⟩

def sendRange (stop : ℕ) : SinkAct Dup Unit := do
  let s ← get
  if s.digests = [] then pure ()
  else
    set { s with digests := [], rangeStart := stop }
    send (.range (rangeOf s.fileId s.rangeStart stop s.digests))

def Sink.perRange (s : Sink Dup) : ℕ := max s.rangeChunks 1

def gather : List (ℕ × Digest) → SinkAct Dup Unit
  | [] => pure ()
  | (index, digest) :: rest => do
    modify fun s => { s with digests := s.digests ++ [digest] }
    let s ← get
    (if s.perRange ≤ s.digests.length then sendRange ((index + 1) * chunkSize) else pure ())
    ask
    gather rest

def wrote (blake3 : Bytes → Digest) (bytes : Bytes) : SinkAct Dup Unit := do
  let s ← get
  set { s with hasher := (s.hasher.update blake3 bytes).2 }
  gather (s.hasher.update blake3 bytes).1

def wroteAll (blake3 : Bytes → Digest) : List Bytes → SinkAct Dup Unit
  | [] => pure ()
  | bytes :: rest => do
    wrote blake3 bytes
    wroteAll blake3 rest

def piecesOf {α : Type} (n : ℕ) (xs : List α) : List (List α) :=
  if h : xs = [] then [] else xs.take (n + 1) :: piecesOf n (xs.drop (n + 1))
termination_by xs.length
decreasing_by
  have := List.length_pos_of_ne_nil h
  simp only [List.length_drop]
  omega

def sendProven (fileId : Bytes) (perRange validThrough : ℕ) : ℕ → List (List Digest) → SinkAct Dup Unit
  | _, [] => pure ()
  | group, piece :: rest => do
    let start := group * perRange * chunkSize
    send (.range (rangeOf fileId start (min (start + piece.length * chunkSize) validThrough) piece))
    sendProven fileId perRange validThrough (group + 1) rest

def recordProven (digests : List Digest) : SinkAct Dup Unit := do
  let s ← get
  sendProven s.fileId s.perRange s.rangeStart 0 (piecesOf (s.perRange - 1) digests)

def complete (blake3 : Bytes → Digest) : SinkAct Dup Unit := do
  let s ← get
  set { s with hasher := .fromChunk 0, digests := s.digests ++ (s.hasher.finish blake3).toList }
  sendRange s.hasher.bytesSeen
  send (.close s.fileId true)
  ask

/-- One file's way through its sink: what `begin` is given, the digests `full` proved, and the bytes fed: the
carry, then what each read of the copy loop got. -/
structure Feed (Dup : Type) where
  fileId : Bytes
  destination : Bytes
  source : Metadata
  validThrough : ℕ
  dup : Option Dup
  rangeChunks : ℕ
  proven : List Digest
  buffers : List Bytes

namespace Feed

def begin (f : Feed Dup) : FileBegin where
  fileId := f.fileId
  attemptId := attemptId
  destination := f.destination
  sourceLen := UInt64.ofNat f.source.len
  sourceMtime := f.source.modified.map mtimePair
  sourceIdentity := (identityText f.source.identity).map fun c => UInt8.ofNat c.toNat
  chunkSize := UInt64.ofNat chunkSize
  validThrough := UInt64.ofNat f.validThrough

def sink (f : Feed Dup) (answers : List (Option SinkError)) : Sink Dup :=
  ⟨f.fileId, f.rangeChunks, .fromChunk (divCeil f.validThrough chunkSize), f.validThrough, [], [], answers⟩

def stream (blake3 : Bytes → Digest) (f : Feed Dup) : SinkAct Dup Unit := do
  send (.fileBegin f.begin f.dup)
  (if f.proven = [] then pure () else recordProven f.proven)
  wroteAll blake3 f.buffers
  complete blake3

def sent (blake3 : Bytes → Digest) (f : Feed Dup) (answers : List (Option SinkError)) : List (Msg Dup) :=
  (f.stream blake3 (f.sink answers)).2.sent

/-- `begin` asserts the first two; the others are what `stage_file` hands over, and offsets that fit a `u64`. -/
structure Accepted (f : Feed Dup) : Prop where
  boundary : f.validThrough % chunkSize = 0 ∨ f.validThrough = f.source.len
  proven : f.proven = [] ∨ f.proven.length = divCeil f.validThrough chunkSize
  bounded : divCeil f.validThrough chunkSize * chunkSize + f.buffers.flatten.length < 2 ^ 64

end Feed

end Flux.Checkpoint
