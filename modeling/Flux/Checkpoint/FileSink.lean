import Flux.Checkpoint.Pipeline
import Flux.Wal.Registered

/-! The life of a file's sink from `begin` on; heartbeats do not fail here, and the sink is not dropped. -/

namespace Flux.Checkpoint

open Base Wal Copy

variable {Dup : Type}

inductive Op (Dup : Type) where
  | gather (index : ℕ) (digest : Digest)
  | send (m : Msg Dup)
  | look
  | answer

structure Inline (Dup : Type) where
  hashes : Hashes
  wanted : Bool
  ended : Bool
  todo : List (Op Dup)
  walFault : Option WalFault
  sent : List (Msg Dup)

def provenRanges (fileId : Bytes) (perRange validThrough : ℕ) : ℕ → List (List Digest) → List Wal.Range
  | _, [] => []
  | group, piece :: rest =>
    let start := group * perRange * chunkSize
    rangeOf fileId start (min (start + piece.length * chunkSize) validThrough) piece ::
      provenRanges fileId perRange validThrough (group + 1) rest

def Hashes.completed (fileId : Bytes) (blake3 : Bytes → Digest) (h : Hashes) : Hashes :=
  ⟨.fromChunk 0, [], if h.last fileId blake3 = [] then h.rangeStart else h.hasher.bytesSeen⟩

section Steps

variable (blake3 : Bytes → Digest) (fileId : Bytes) (perRange : ℕ)

inductive InlineStep (gone : Bool) : Inline Dup → Inline Dup → Prop
  | wrote {s} (bytes : Bytes) (idle : s.todo = []) (going : s.ended = false) :
    InlineStep gone s { s with
      hashes := s.hashes.hashed blake3 bytes
      todo := (s.hashes.hasher.update blake3 bytes).1.map fun p => .gather p.1 p.2 }
  | recordProven {s} (digests : List Digest) (idle : s.todo = []) (going : s.ended = false) :
    InlineStep gone s { s with
      todo := (provenRanges fileId perRange s.hashes.rangeStart 0 (piecesOf (perRange - 1) digests)).map
        fun r => .send (.range r) }
  | complete {s} (idle : s.todo = []) (going : s.ended = false) :
    InlineStep gone s { s with
      hashes := s.hashes.completed fileId blake3
      ended := true
      todo := ((s.hashes.last fileId blake3).map fun r => .send (.range r)) ++
        [.send (.close fileId true), .answer] }
  | abort {s} (idle : s.todo = []) (going : s.ended = false) :
    InlineStep gone s { s with ended := true, todo := [.send (.discard fileId)] }
  | spawnFailed {s} (idle : s.todo = []) (going : s.ended = false) : InlineStep gone s { s with wanted := false }
  | gathered {s index digest rest} (here : s.todo = .gather index digest :: rest) :
    InlineStep gone s { s with
      hashes := (s.hashes.push fileId perRange index digest).1
      todo := ((s.hashes.push fileId perRange index digest).2.map fun r => .send (.range r)) ++ .look :: rest }
  | sent {s m rest} (here : s.todo = .send m :: rest) (connected : gone = false) :
    InlineStep gone s { s with todo := rest, sent := s.sent ++ [m] }
  | sendGone {s m rest} (here : s.todo = .send m :: rest) (connected : gone = true) :
    InlineStep gone s { s with todo := [] }
  | logFine {s rest} (here : s.todo = .look :: rest) (fault : s.walFault = none) :
    InlineStep gone s { s with todo := rest }
  | logFailed {s rest f} (here : s.todo = .look :: rest) (fault : s.walFault = some f) :
    InlineStep gone s { s with todo := [] }
  | answered {s rest} (here : s.todo = .answer :: rest) : InlineStep gone s { s with todo := rest }

/-- A step of the pipeline in which no heartbeat fails, a message is sent only to a writer that is there and not
sent only to one that is gone, and the sink is not dropped. -/
structure Fair (gone : Bool) (p p' : Pipeline Dup) : Prop where
  beats : ∀ e, p'.main ≠ .failed (.heartbeat e)
  waits : ∀ e, p'.main ≠ .cancelling (.lost e)
  kept : p'.main ≠ .cancelling .drop
  delivered : p'.sent ≠ p.sent → gone = false
  lastFails : ∀ h e, p.main = .completing h → p'.main = .ended e → gone = true
  closeFails : ∀ e, p.main = .closing → p'.main = .ended e → gone = true
  discardFails : p.main = .discarding → p'.main = .over → p'.sent = p.sent → gone = true
  sendFails : ∀ h r done f, p.worker = .attempting h r done → p'.worker = .recording f → gone = true

def Inline.spawned (s : Inline Dup) (first : Bytes) : Pipeline Dup where
  main := .checking first
  worker := .top s.hashes
  caller := some 0
  jobs := []
  free := (List.range (pool - 1)).map (· + 1)
  result := none
  submitOpen := true
  receives := true
  returns := true
  reports := true
  cancel := false
  faulted := none
  walFault := s.walFault
  sent := s.sent
  submitted := []
  hashed := []

inductive Hashing (Dup : Type) where
  | inline (s : Inline Dup)
  | worker (p : Pipeline Dup)

/-- `gone`: the writer's end of the channel is closed. `hurt`: the worker panicked, or the log failed. -/
structure FileSink (Dup : Type) where
  hashing : Hashing Dup
  gone : Bool
  hurt : Bool

def FileSink.sent (s : FileSink Dup) : List (Msg Dup) :=
  match s.hashing with
  | .inline i => i.sent
  | .worker p => p.sent

def FileSink.returned (s : FileSink Dup) : Bool :=
  match s.hashing with
  | .inline i => i.ended && i.todo.isEmpty
  | .worker p =>
    match p.main with
    | .closed | .ended _ | .over => true
    | _ => false

def FileSink.Spared (s : FileSink Dup) : Prop :=
  match s.hashing with
  | .inline _ => True
  | .worker p => p.main = .over ∨ s.hurt = false

inductive SinkStep : FileSink Dup → FileSink Dup → Prop
  | inline {s s' gone hurt} (step : InlineStep blake3 fileId perRange gone s s') :
    SinkStep ⟨.inline s, gone, hurt⟩ ⟨.inline s', gone, hurt⟩
  | inlineLogFails {s gone hurt} (f : WalFault) (before : s.walFault = none) :
    SinkStep ⟨.inline s, gone, hurt⟩ ⟨.inline { s with walFault := some f }, gone, true⟩
  | spawned {s gone hurt} (first : Bytes) (idle : s.todo = []) (going : s.ended = false)
    (wanted : s.wanted = true) : SinkStep ⟨.inline s, gone, hurt⟩ ⟨.worker (s.spawned first), gone, hurt⟩
  | main {p p' gone hurt} (step : MainStep blake3 fileId p p') (fair : Fair gone p p') :
    SinkStep ⟨.worker p, gone, hurt⟩ ⟨.worker p', gone, hurt⟩
  | worker {p p' gone hurt} (step : WorkerStep blake3 fileId perRange p p') (fair : Fair gone p p')
    (lives : p.worker.done = false → p'.worker.done = true → p.cancel = true ∨ p'.result ≠ none) :
    SinkStep ⟨.worker p, gone, hurt⟩ ⟨.worker p', gone, hurt⟩
  | panicked {p gone hurt} (here : p.worker.done = false) :
    SinkStep ⟨.worker p, gone, hurt⟩ ⟨.worker { p with worker := .leaving }, gone, true⟩
  | logFails {p gone hurt} (f : WalFault) (before : p.walFault = none) :
    SinkStep ⟨.worker p, gone, hurt⟩ ⟨.worker { p with walFault := some f }, gone, true⟩
  -- After a failed `submit` the caller may go on with another buffer.
  | again {p e gone hurt} (buf : ℕ) (here : p.main = .failed e) :
    SinkStep ⟨.worker p, gone, hurt⟩ ⟨.worker { p with main := .holding, caller := some buf }, gone, hurt⟩
  -- A `wrote` or `record_proven` that comes too late: the ranges it sends come from a stale hashing state.
  | stray {p gone hurt} (r : Wal.Range) (own : r.fileId = fileId) (here : p.main = .holding)
    (connected : gone = false) :
    SinkStep ⟨.worker p, gone, hurt⟩ ⟨.worker { p with sent := p.sent ++ [.range r] }, gone, hurt⟩
  | goes {h gone hurt} : SinkStep ⟨h, gone, hurt⟩ ⟨h, true, hurt⟩

end Steps

def Feed.held (f : Feed Dup) (wanted : Bool) (walFault : Option WalFault) : FileSink Dup :=
  ⟨.inline ⟨.start f.validThrough, wanted, false, [], walFault, [.fileBegin f.begin f.dup]⟩, false,
    walFault.isSome⟩

inductive Feed.Holds (blake3 : Bytes → Digest) (f : Feed Dup) : FileSink Dup → Prop
  | begin (wanted : Bool) (walFault : Option WalFault) : Holds blake3 f (f.held wanted walFault)
  | step {s s' : FileSink Dup} (before : Holds blake3 f s) (step : SinkStep blake3 f.fileId f.perRange s s') :
    Holds blake3 f s'

def ends (fileId : Bytes) (m : Msg Dup) : Bool := m.ends && m.fileId = some fileId

def StillOpen (fileId : Bytes) (sent : List (Msg Dup)) : Prop := ∀ m ∈ sent, ends fileId m = false

def EndsOnce (fileId : Bytes) (sent : List (Msg Dup)) : Prop :=
  ∃ before m, sent = before ++ [m] ∧ StillOpen fileId before ∧ ends fileId m = true

end Flux.Checkpoint
