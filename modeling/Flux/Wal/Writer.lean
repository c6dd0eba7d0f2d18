import Flux.Wal.WholeScan
import Flux.Fs.Options

namespace Flux.Wal

open Base

structure Segment where
  bytes : Bytes
  identity : FileIdentity

/-- The workspace as the writer finds it: no `wal` directory, a directory without the segment, or the segment. -/
abbrev Workspace := Option (Option Segment)

def Workspace.segment (ws : Workspace) : Option Segment := ws.join

inductive OpenCall where
  | openDir | metadata | openRead | openExisting | truncateTo | spawn
  deriving DecidableEq, Repr

def answer {α : Type} (fault : OpenCall → Option FsError) (call : OpenCall) (found : Except FsError α) :
    Except FsError α :=
  match fault call with
  | some e => .error e
  | none => found

structure Opened where
  found : Option Scan
  segment : Option Bytes
  wal : Bool
  nextSeq : UInt64

def chooseSeq (generation : UInt64) : Option (UInt64 × UInt64) → Except WalError UInt64
  | none => .ok 1
  | some (g, s) =>
    if g = generation then .ok (s + 1)
    else if g < generation then .ok 1
    else .error (.sequenceConflict generation 1)

def resumeSegment (blake3 : Bytes → Digest) (operationId : Bytes) (generation : UInt64)
    (reads : List (Delivery IoError)) (fault : OpenCall → Option FsError) (seg : Segment) :
    Except WalError Opened := do
  if seg.identity = .unavailable then
    throw (.io ⟨.destinationError,
      ⟨.unsupported, none, "the WAL segment has no usable identity, so it cannot be reopened safely"⟩⟩)
  let bytes ← (answer fault .openRead (.ok seg.bytes)).mapError .io
  let scanned ← scan blake3 operationId ⟨bytes, reads⟩
  let nextSeq ← chooseSeq generation scanned.last
  (answer fault .openExisting (.ok ())).mapError .io
  (answer fault .truncateTo (.ok ())).mapError .io
  return ⟨some scanned, some (seg.bytes.take scanned.validLen), true, nextSeq⟩

def openWriter (blake3 : Bytes → Digest) (ws : Workspace) (operationId : Bytes) (generation : UInt64)
    (reads : List (Delivery IoError)) (fault : OpenCall → Option FsError) : Except WalError Opened := do
  if operationId.length > 65535 then
    throw (.io (invalidInput "the operation id is longer than 65,535 bytes"))
  let unopened : Opened := ⟨none, ws.segment.map Segment.bytes, false, 1⟩
  let opened ←
    match answer fault .openDir (ws.elim (.error notFound) .ok) with
    | .error e => if isNotFound e then pure unopened else throw (.io e)
    | .ok dir =>
      match answer fault .metadata (dir.elim (.error notFound) .ok) with
      | .error e => if isNotFound e then pure unopened else throw (.io e)
      | .ok seg => resumeSegment blake3 operationId generation reads fault seg
  (answer fault .spawn (.ok ())).mapError .io
  return opened

structure Failure where
  wal : Option FsError
  files : AList fun _ : Bytes => FsError

/-- The writer thread's state with the segment it writes. `appended` and `synced` are not in the source: they
remember, in order, the records handed to the segment since `open` and the answers of the syncs of the files'
duplicates. -/
structure State where
  segment : Option Bytes
  wal : Bool
  operationId : Bytes
  generation : UInt64
  nextSeq : UInt64
  durability : Durability
  dups : List Bytes
  pending : List (Bytes × Body)
  pendingBytes : ℕ
  firstPending : Bool
  failure : Failure
  dead : Bool
  abandoned : Bool
  appended : List (Header × Body)
  synced : List (Bytes × Option FsError)

def Opened.state (o : Opened) (operationId : Bytes) (generation : UInt64) (durability : Durability) : State where
  segment := o.segment
  wal := o.wal
  operationId := operationId
  generation := generation
  nextSeq := o.nextSeq
  durability := durability
  dups := []
  pending := []
  pendingBytes := 0
  firstPending := false
  failure := ⟨none, ∅⟩
  dead := false
  abandoned := false
  appended := []
  synced := []

/-- What the filesystem answers during one flush. A failed write leaves the bytes it got to. -/
structure Answers where
  syncDup : Bytes → Option FsError
  ensureWal : Option FsError
  write : Option (ℕ × FsError)
  syncWal : Option FsError

def maxFileLen : ℕ := 2 ^ 64 - 1

namespace State

def failFile (s : State) (fileId : Bytes) (fault : FsError) : State :=
  if (s.failure.files.lookup fileId).isSome then s
  else { s with failure.files := s.failure.files.insert fileId fault }

def failWal (s : State) (fault : FsError) : State :=
  { s with
    failure.wal := s.failure.wal.or (some fault), dead := true, dups := [], wal := false, pending := [],
    pendingBytes := 0, firstPending := false }

def clearPending (s : State) : State := { s with pending := [], pendingBytes := 0, firstPending := false }

def push (s : State) (fileId : Bytes) (body : Body) (bytes : ℕ) : State :=
  { s with
    firstPending := s.firstPending || s.pending.isEmpty, pending := s.pending ++ [(fileId, body)],
    pendingBytes := min (s.pendingBytes + bytes) (2 ^ 64 - 1) }

def tooLarge : Body → String
  | .range _ => "range too large for one record"
  | .fileBegin _ => "record too large for one record"

def oversized (pending : List (Bytes × Body)) (fileId : Bytes) : Option String :=
  (pending.find? fun p => p.1 = fileId ∧ (payload p.2).length > maxPayload).map fun p => tooLarge p.2

def judge (a : Answers) (pending : List (Bytes × Body)) (s : State) (fileId : Bytes) : State × Bool :=
  if (s.failure.files.lookup fileId).isSome then (s, true)
  else match oversized pending fileId with
    | some why => (s.failFile fileId (invalidInput why), true)
    | none =>
      match s.durability with
      | .normal => (s, false)
      | .strict =>
        if fileId ∈ s.dups then
          let s := { s with synced := s.synced ++ [(fileId, a.syncDup fileId)] }
          match a.syncDup fileId with
          | some e => (s.failFile fileId e, true)
          | none => (s, false)
        else (s.failFile fileId (invalidInput "no duplicate registered"), true)

def judgeAll (a : Answers) (pending : List (Bytes × Body)) : List Bytes → State → State × List Bytes
  | [], s => (s, [])
  | id :: ids, s =>
    let (s, bad) := judge a pending s id
    let (s, rest) := judgeAll a pending ids s
    (s, if bad then id :: rest else rest)

def numbered (operationId : Bytes) (generation : UInt64) : UInt64 → List Body → List (Header × Body)
  | _, [] => []
  | seq, b :: bs => (⟨operationId, generation, seq⟩, b) :: numbered operationId generation (seq + 1) bs

end State

def encodeAll (blake3 : Bytes → Digest) (rs : List (Header × Body)) : Bytes :=
  (rs.map fun r => encode blake3 r.1 r.2).flatten

def appendUpTo (old buf : Bytes) (limit : ℕ) : Bytes := old ++ buf.take (min limit (maxFileLen - old.length))

namespace State

def ensureWal (a : Answers) (s : State) : Option FsError :=
  if s.wal then none
  else if s.segment.isSome then some alreadyExists
  else a.ensureWal

def append (blake3 : Bytes → Digest) (a : Answers) (s : State) (bodies : List Body) : State :=
  let old := s.segment.getD []
  let records := numbered s.operationId s.generation s.nextSeq bodies
  let buf := encodeAll blake3 records
  let s := { s with nextSeq := s.nextSeq + UInt64.ofNat bodies.length, appended := s.appended ++ records }
  match a.write with
  | some (n, e) => failWal { s with segment := some (appendUpTo old buf n) } e
  | none =>
    if old.length + buf.length ≤ maxFileLen then
      let s := { s with segment := some (old ++ buf) }
      match s.durability, a.syncWal with
      | .strict, some e => failWal s e
      | _, _ => s
    else
      failWal { s with segment := some (appendUpTo old buf buf.length) }
        (.fromIo ⟨.other, some 27, "File too large"⟩)

def flush (blake3 : Bytes → Digest) (a : Answers) (s : State) : State :=
  if s.abandoned then { s with pending := [], dups := [] }
  else if s.dead then s.clearPending
  else if s.pending = [] then s
  else
    let pending := s.pending
    let (s, bad) := judgeAll a pending (pending.map Prod.fst).eraseDups s.clearPending
    let keep := pending.filter fun p => p.1 ∉ bad
    if keep = [] then s
    else match s.ensureWal a with
      | some e => failWal s e
      | none => append blake3 a { s with wal := true } (keep.map Prod.snd)

end State

end Flux.Wal
