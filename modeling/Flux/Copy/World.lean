import Flux.Base.Triple
import Flux.Base.Stream
import Flux.Fs.Options
import Flux.Wal.Replay

/-! What the staging of one file works on. Every call may fail; nothing else writes to the temporary. -/

namespace Flux.Copy

open Base Wal

inductive CopyStep where
  | resolve | source | gate | create | stream | durability | metadata | recheck | publish | heartbeat | claim
  | checkpoint | verify
  deriving DecidableEq, Repr

structure CopyError where
  cause : FsError
  leftover : Option (Bytes × IoError)
  step : CopyStep
  deriving DecidableEq, Repr

def CopyError.atStep (step : CopyStep) (cause : FsError) : CopyError := ⟨cause, none, step⟩

structure WalFault where
  code : Code
  kind : ErrorKind
  rawOsError : Option ℕ
  message : String
  deriving DecidableEq, Repr

inductive SinkError where
  | heartbeat (e : FsError)
  | wal (f : WalFault)
  | data (f : WalFault)
  deriving DecidableEq, Repr

/-- How a sink hashes. Of the hashing worker's buffers only the lengths matter here: `pool` lists those the
worker has, the next one to come back first. -/
inductive Hashing where
  | inline
  | pending
  | worker (pool : List ℕ)
  deriving DecidableEq, Repr

structure FileSink where
  hashing : Hashing
  ended : Bool
  deriving DecidableEq, Repr

structure Entry where
  fileType : FileType
  identity : FileIdentity
  nlink : Option ℕ
  bytes : Bytes
  deriving DecidableEq, Repr

structure Source where
  bytes : Bytes
  fileType : FileType
  permissions : Option ℕ
  modified : Option SystemTime
  identity : FileIdentity
  nlink : Option ℕ

def Source.metadata (s : Source) : Metadata :=
  ⟨s.bytes.length, s.fileType, s.permissions, s.modified, s.identity, s.nlink⟩

inductive Call where
  | guard | beat | beforeCreate | metadataSource | openSource | metadataName | metadataTemp | openTemp | removeTemp
  | createNew | openExisting | truncateTo | write | duplicate | setTimes | setPermissions | syncAll | identity
  | beforePublish | rename
  deriving DecidableEq, Repr

structure Fault where
  error : FsError
  done : ℕ

structure Files where
  temp : Option Entry
  source : Input
  hasher : Option Bytes
  sink : Option FileSink

inductive Held where
  | created | resumed
  deriving DecidableEq, Repr

/-- The files, the object under the destination's name, the writer, the outcomes of the calls still to come,
what later looks at the source find if it has changed, and the calls made, the last one first, with whether they
were answered without a failure. -/
structure World where
  files : Files
  dest : Option Entry
  held : Option Held
  answers : List (Option Fault)
  sinkAnswers : List (Option SinkError)
  schedules : List (List (Delivery IoError))
  sources : List Source
  calls : List (Call × Bool)

abbrev M (ε : Type) := Act World ε

def onlyIf {ε : Type} (c : Prop) [Decidable c] (x : M ε Unit) : M ε Unit := if c then x else pure ()

def call (c : Call) : M Fault Unit := do
  let w ← get
  match w.answers with
  | [] => set { w with calls := (c, true) :: w.calls }
  | a :: as =>
    set { w with answers := as, calls := (c, a.isNone) :: w.calls }
    match a with
    | none => pure ()
    | some f => throw f

def fsCall (c : Call) : M FsError Unit := (call c).mapFailure Fault.error

def World.outcome (w : World) (effect : World → Except FsError World) : Except FsError World :=
  match w.answers.head?.join with
  | some f => .error f.error
  | none => effect w

def perform (c : Call) (effect : World → Except FsError World) : M FsError Unit := do
  let w ← get
  match w.outcome effect with
  | .ok w' => set { w' with answers := w.answers.tail, calls := (c, true) :: w.calls }
  | .error e =>
    set { w with answers := w.answers.tail, calls := (c, false) :: w.calls }
    throw e

def sinkCall : M SinkError Unit := do
  let w ← get
  match w.sinkAnswers with
  | [] => pure ()
  | a :: as =>
    set { w with sinkAnswers := as }
    match a with
    | none => pure ()
    | some e => throw e

def setFiles {ε : Type} (f : Files → Files) : M ε Unit := modify fun w => { w with files := f w.files }

def nextSchedule {ε : Type} : M ε (List (Delivery IoError)) := do
  let w ← get
  match w.schedules with
  | [] => pure []
  | s :: ss =>
    set { w with schedules := ss }
    pure s

def guard : M FsError Unit := fsCall .guard

def beat : M FsError Unit := fsCall .beat

def metadataTemp : M FsError Entry := do
  fsCall .metadataTemp
  match (← get).files.temp with
  | none => throw notFound
  | some e => pure e

def openTemp : M FsError Input := do
  fsCall .openTemp
  match (← get).files.temp with
  | none => throw notFound
  | some e => return ⟨e.bytes, ← nextSchedule⟩

def World.unlinked (w : World) : Except FsError World :=
  match w.files.temp with
  | none => .error notFound
  | some e =>
    if e.fileType = .dir then .error (.fromIo ⟨.isADirectory, some 21, "Is a directory (os error 21)"⟩)
    else .ok { w with files.temp := none }

def removeTemp : M FsError Unit := do
  match ← (perform .removeTemp World.unlinked).attempt with
  | .ok () => pure ()
  | .error e =>
    onlyIf (isNotFound e) (setFiles fun f => { f with temp := none })
    throw e

def createNew (identity : FileIdentity) : M FsError Unit :=
  perform .createNew fun w =>
    match w.files.temp with
    | some _ => .error alreadyExists
    | none => .ok { w with files.temp := some ⟨.file, identity, some 1, []⟩, held := some .created }

def refused (code : Code) (kind : ErrorKind) (why : String) : FsError := ⟨code, ⟨kind, none, why⟩⟩

def openExisting (expected : FileIdentity) : M FsError Unit :=
  perform .openExisting fun w =>
    if expected = .unavailable then
      .error (refused .destinationError .invalidData
        "open_existing needs an identity to check against, and was given none")
    else match w.files.temp with
      | none => .error notFound
      | some e =>
        match e.fileType with
        | .symlink =>
          .error ⟨.safetyRejected, ⟨.other, some 40, "Too many levels of symbolic links (os error 40)"⟩⟩
        | .dir => .error (refused .destinationError .isADirectory "a directory is not a state file")
        | .other => .error (refused .destinationError .other "not a regular file")
        | .file =>
          if e.nlink.any (· ≠ 1) then
            .error (refused .safetyRejected .other s!"the file has {e.nlink.getD 1} hard links, not 1")
          else if e.identity ≠ expected then
            .error (refused .destinationError .invalidData "identity mismatch")
          else .ok { w with held := some .resumed }

def setBytes {ε : Type} (g : Bytes → Bytes) : M ε Unit :=
  setFiles fun f => { f with temp := f.temp.map fun e => { e with bytes := g e.bytes } }

def truncateTo (len : ℕ) : M FsError Unit :=
  perform .truncateTo fun w =>
    match w.files.temp with
    | none => .ok w
    | some e =>
      if len > e.bytes.length then .error (invalidInput "truncate_to cannot extend")
      else .ok { w with files.temp := some { e with bytes := e.bytes.take len } }

def writeAll (bs : Bytes) : M FsError Unit := do
  match ← (call .write).attempt with
  | .ok () => setBytes (· ++ bs)
  | .error f =>
    setBytes (· ++ bs.take f.done)
    throw f.error

end Flux.Copy
