import Flux.Lock.World
import Flux.State.Names

namespace Flux.Lock

open Base

inductive LockCode where
  | targetLockBusy | targetLockUncertain | controlPlaneNamespaceConflict | artifactOwnershipUncertain
  | pathComponentInvalid | destinationNamespaceCollision
  deriving DecidableEq, Repr

structure Refusal where
  code : LockCode
  holder : Option LockRecord
  detail : String
  deriving DecidableEq, Repr

inductive LockError where
  | refused (refusal : Refusal)
  | io (e : FsError)
  deriving DecidableEq, Repr

def refuse (code : LockCode) (holder : Option LockRecord) (detail : String) : LockError :=
  .refused ⟨code, holder, detail⟩

abbrev Act (α : Type) := ExceptT LockError (Prog Call Reply) α

def raw (c : Call) : Act (Reply c) := liftM (Prog.perform c)

def io {α : Type} : Except FsError α → Act α
  | .ok a => pure a
  | .error e => throw (.io e)

def panic {α : Type} : Act α := raw .panic >>= fun r => by cases r

def closing {α : Type} (h : Handle) (x : Act α) : Act α := tryCatch x fun e => raw (.close h) >>= fun _ => throw e

def leave {α : Type} (h : Handle) (a : α) : Act α := raw (.close h) >>= fun _ => pure a

inductive SiteKind where
  | directory | root | file
  deriving DecidableEq, Repr

inductive Last where
  | heldByOther | emptyOrTornUnheld | other
  deriving DecidableEq, Repr

structure Held where
  lock : Handle
  identity : Node
  record : Option LockRecord
  beat : Option UInt64
  deriving DecidableEq, Repr

inductive Acquire where
  | acquired (held : Held)
  | taken
  | restart (last : Last)
  deriving DecidableEq, Repr

def ownlockTries : ℕ := 5

def atPath (n : Name) : Act (Option Node) := do
  match ← raw (.metadata n) with
  | .ok x => return some x
  | .error e => if isNotFound e then return none else throw (.io e)

def stillEmptyAtPath (lock : Handle) (identity : Node) : Act Bool := do
  if (← atPath .lock) = some identity then
    let bytes ← io (← raw (.readAll lock 0))
    return bytes.isEmpty
  else return false

def ownlockWait (lock : Handle) (identity : Node) : ℕ → Act Bool
  | 0 => do io (← raw (.tryLock lock))
  | n + 1 => do
    if ← io (← raw (.tryLock lock)) then return true
    else if ← stillEmptyAtPath lock identity then ownlockWait lock identity n
    else return false

def ownLock (lock : Handle) : Act (Except Last Held) := closing lock do
  let identity ← io (← raw (.identity lock))
  if ← ownlockWait lock identity (ownlockTries - 1) then
    if ← stillEmptyAtPath lock identity then
      return .ok { lock := lock, identity := identity, record := none, beat := none }
    else leave lock (.error .other)
  else leave lock (.error .heldByOther)

def dirLockPresent (kind : SiteKind) : Act Bool := do
  if kind = .root then return false
  else return (← atPath .dirLock).isSome

def backOff (lock : Handle) : Act Unit := do
  let identity ← io (← raw (.identity lock))
  if ← io (← raw (.tryLock lock)) then
    if ← stillEmptyAtPath lock identity then io (← raw (.removeFile .lock))
    else return ()
  else return ()

def acquire (kind : SiteKind) : Act Acquire := do
  match ← raw (.createLock .lock) with
  | .error e => if e.source.kind = .alreadyExists then return .taken else throw (.io e)
  | .ok lock =>
    if ← closing lock (dirLockPresent kind) then
      closing lock (backOff lock)
      leave lock ()
      throw (refuse .targetLockBusy none "a directory lock (.flux-dir.lock) is present beside the target's lock")
    else
      match ← ownLock lock with
      | .ok held => return .acquired held
      | .error last => return .restart last

inductive Workspace where
  | trusted | missing | untrusted
  deriving DecidableEq, Repr

def namesWorkspace (kind : SiteKind) (r : LockRecord) : Prop :=
  match kind with
  | .directory | .root => r.workspacePath = "operations/".toList ++ r.operationId
  | .file => r.workspacePath = "adjacent/".toList ++ r.operationId

instance (kind : SiteKind) (r : LockRecord) : Decidable (namesWorkspace kind r) := by
  unfold namesWorkspace
  cases kind <;> infer_instance

def noWorkspace : Text := "none".toList

def workspace (kind : SiteKind) (r : LockRecord) : Act Workspace := do
  if State.isId r.operationId = false then return .untrusted
  else if r.workspacePath = noWorkspace then return .trusted
  else if namesWorkspace kind r then
    if ← io (← raw (.workspacePresent r.workspacePath)) then return .trusted else return .missing
  else return .untrusted

inductive Classified where
  | vanished
  | busy (holder : Option LockRecord)
  | uncertain (why : Uncertain)
  | foreign
  | untrusted (r : LockRecord)
  | orphan (lock : Handle) (identity : Node) (r : LockRecord)
  | dead (lock : Handle) (identity : Node) (r : LockRecord)
  deriving DecidableEq, Repr

def notRegular (e : FsError) : Bool := e.code = .safetyRejected ∨ e.code = .destinationError

section

variable (blake3 : Bytes → Block 32)

def decodeLock (lock : Handle) : Act Decoded := do
  let bytes ← io (← raw (.readAll lock recordLen))
  return decode blake3 bytes

def classifyOwner (kind : SiteKind) (lock : Handle) (r : LockRecord) : Act Classified := do
  match ← workspace kind r with
  | .trusted => do
    let identity ← io (← raw (.identity lock))
    return .dead lock identity r
  | .missing => do
    let identity ← io (← raw (.identity lock))
    return .orphan lock identity r
  | .untrusted => leave lock (.untrusted r)

def classifyOpened (kind : SiteKind) (lock : Handle) : Act Classified := closing lock do
  let got ← io (← raw (.tryLock lock))
  match ← decodeLock blake3 lock with
  | .foreign => leave lock .foreign
  | .record r => if got then classifyOwner kind lock r else leave lock (.busy (some r))
  | .uncertain why => if got then leave lock (.uncertain why) else leave lock (.busy none)

def classify (kind : SiteKind) : Act Classified := do
  match ← raw (.openLock .lock) with
  | .error e =>
    if isNotFound e then return .vanished else if notRegular e then return .foreign else throw (.io e)
  | .ok lock => classifyOpened blake3 kind lock

inductive Recovered where
  | held (held : Held) (leftover : Option Name)
  | restart (last : Last)
  deriving DecidableEq, Repr

def stillRecord (lock : Handle) (seen : LockRecord) : Act Bool := do
  return (← decodeLock blake3 lock) = .record seen

def sameOwner (n : Name) (old : Handle) (identity : Node) (seen : LockRecord) : Act Bool := do
  if (← atPath n) = some identity then stillRecord blake3 old seen else return false

def dropMoved (old : Handle) (operationId : Text) (last : Last) : Act Recovered := do
  leave old ()
  let _ ← raw (.removeFile (.broken operationId))
  return .restart last

def recoverCreate (old : Handle) (operationId : Text) : Act Recovered := do
  match ← raw (.createLock .lock) with
  | .error e => if e.source.kind = .alreadyExists then dropMoved old operationId .other else throw (.io e)
  | .ok new =>
    match ← ownLock new with
    | .error last => dropMoved old operationId last
    | .ok held => do
      leave old ()
      match ← raw (.removeFile (.broken operationId)) with
      | .ok _ => return .held held none
      | .error _ => return .held held (some (.broken operationId))

def recoverMoved (old : Handle) (identity : Node) (seen : LockRecord) (operationId : Text) : Act Recovered := do
  if ← sameOwner blake3 (.broken operationId) old identity seen then recoverCreate old operationId
  else
    let _ ← raw (.renameNoReplace (.broken operationId) .lock)
    leave old (.restart .other)

def recover (old : Handle) (identity : Node) (seen : LockRecord) (operationId : Text) : Act Recovered :=
  closing old do
  if ← sameOwner blake3 .lock old identity seen then
    match ← raw (.renameNoReplace .lock (.broken operationId)) with
    | .error e =>
      if e.source.kind = .notFound ∨ e.source.kind = .alreadyExists then leave old (.restart .other)
      else throw (.io e)
    | .ok _ => recoverMoved blake3 old identity seen operationId
  else leave old (.restart .other)

structure Claimed where
  lock : Handle
  identity : Node
  prior : Uncertain
  deriving DecidableEq, Repr

inductive TakeOver where
  | claimed (c : Claimed)
  | restart
  deriving DecidableEq, Repr

def takeoverUnavailable : LockError :=
  refuse .targetLockUncertain none
    "--break-lock needs strong file identity and a local filesystem with OS-native locks"

def takeOverOpened (lock : Handle) (reported : Uncertain) : Act TakeOver := closing lock do
  if ← io (← raw (.tryLock lock)) then
    let identity ← io (← raw (.identity lock))
    if (← atPath .lock) = some identity then
      match ← decodeLock blake3 lock with
      | .uncertain _ => return .claimed ⟨lock, identity, reported⟩
      | .record _ | .foreign => leave lock .restart
    else leave lock .restart
  else throw (refuse .targetLockBusy none "another process holds the lock")

def takeOver (capability : Bool) (reported : Uncertain) : Act TakeOver := do
  if (← io (← raw .dirIsStrong)) && capability then
    match ← raw (.openLock .lock) with
    | .error e => if isNotFound e || notRegular e then return .restart else throw (.io e)
    | .ok lock => takeOverOpened blake3 lock reported
  else throw takeoverUnavailable

def shortWrite : FsError := ⟨.ioError, ⟨.writeZero, none, "short write of a lock record"⟩⟩

def writeAtStart (lock : Handle) (bytes : Bytes) : Act Unit := do
  let n ← io (← raw (.writeAt lock bytes))
  if n = bytes.length then io (← raw (.setLen lock bytes.length)) else throw (.io shortWrite)

def writeLock (lock : Handle) (r : LockRecord) : Act Unit :=
  match r.encode blake3 with
  | some bytes => writeAtStart lock bytes
  | none => panic

inductive Overwritten where
  | held (held : Held)
  | restart
  deriving DecidableEq, Repr

def Claimed.overwrite (c : Claimed) (r : LockRecord) : Act Overwritten := closing c.lock do
  writeLock blake3 c.lock r
  io (← raw (.syncAll c.lock))
  if (← atPath .lock) = some c.identity then return .held ⟨c.lock, c.identity, some r, none⟩
  else leave c.lock .restart

def Held.writeRecord (held : Held) (r : LockRecord) : Act Held := do
  if held.record.isSome then panic
  else
    writeLock blake3 held.lock r
    io (← raw (.syncAll held.lock))
    return { held with record := some r }

def Held.rewriteRecord (held : Held) (r : LockRecord) : Act Held :=
  match held.record with
  | none => panic
  | some mine =>
    if r.operationId = mine.operationId ∧ r.ownerInstanceId = mine.ownerInstanceId then do
      let r := match held.beat with
        | some t => { r with lastHeartbeatWallTime := t }
        | none => r
      writeLock blake3 held.lock r
      io (← raw (.syncAll held.lock))
      return { held with record := some r }
    else panic

def Held.heartbeat (held : Held) (now : UInt64) : Act Held :=
  match held.record with
  | none => pure held
  | some mine => do
    writeLock blake3 held.lock { mine with lastHeartbeatWallTime := now }
    return { held with beat := some now }

def Held.stillOwned (held : Held) : Act Bool :=
  match held.record with
  | none => pure false
  | some mine => do
    if (← atPath .lock) = some held.identity then
      match ← decodeLock blake3 held.lock with
      | .record r => return r.operationId = mine.operationId ∧ r.ownerInstanceId = mine.ownerInstanceId
      | .uncertain _ | .foreign => return false
    else return false

inductive Released where
  | unlinked | notOwned
  deriving DecidableEq, Repr

def Held.release (held : Held) : Act Released := closing held.lock do
  if ← held.stillOwned blake3 then
    io (← raw (.removeFile .lock))
    leave held.lock .unlinked
  else leave held.lock .notOwned

def Held.discard (held : Held) : Act Unit := closing held.lock do
  if held.record.isSome then panic
  else if (← atPath .lock) = some held.identity then
    io (← raw (.removeFile .lock))
    leave held.lock ()
  else leave held.lock ()

end

end Flux.Lock
