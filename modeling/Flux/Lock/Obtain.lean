import Flux.Lock.Protocol

namespace Flux.Lock

open Base

def maxAttempts : ℕ := 8

inductive Mode where
  | plain | breakLock
  deriving DecidableEq, Repr

def Mode.purpose : Mode → Purpose
  | .plain => .plain
  | .breakLock => .breakLock

inductive Obtained where
  | held (held : Held) (leftoverBroken : Option Name)
  | claimed (c : Claimed)
  deriving DecidableEq, Repr

def untrustedDetail : String :=
  "the dead owner's record names a workspace that is missing or not one Flux trusts; Flux never deletes state " ++
    "it cannot read: inspect it, and remove it by hand if it is not needed"

def busyRefusal (holder : Option LockRecord) : LockError :=
  refuse .targetLockBusy holder "another run holds the lock; wait for it to finish"

def foreignRefusal : LockError :=
  refuse .controlPlaneNamespaceConflict none "a non-Flux object occupies the lock path; move it away"

def untrustedRefusal (r : LockRecord) : LockError := refuse .artifactOwnershipUncertain (some r) untrustedDetail

def orphanRefusal (r : LockRecord) (kind : SiteKind) : LockError :=
  refuse .artifactOwnershipUncertain (some r) (if kind = .file then untrustedDetail
    else untrustedDetail ++ "; flux cleanup DEST removes a dead owner's lock whose workspace is gone")

def Uncertain.debug : Uncertain → String
  | .empty => "Empty"
  | .torn => "Torn"
  | .checksum => "Checksum"
  | .unknownVersion v => "UnknownVersion(" ++ toString v ++ ")"
  | .malformed => "Malformed"

def uncertainRefusal (why : Uncertain) : LockError :=
  refuse .targetLockUncertain none ("the lock's record is unreadable (" ++ why.debug ++
    "); if no Flux run is active on this destination, run again with --restart --break-lock")

def giveUp : Last → LockError
  | .emptyOrTornUnheld => refuse .targetLockUncertain none
      ("gave up after 8 attempts on an empty or torn lock that nobody holds; another run may be taking it " ++
      "over at the same time")
  | .heldByOther | .other => refuse .targetLockBusy none
      "gave up after 8 attempts; another run keeps holding or changing the lock"

def leasePast (now lease : UInt64) (r : LockRecord) : Bool :=
  r.lastHeartbeatWallTime ≤ now ∧ lease ≤ now - r.lastHeartbeatWallTime

section

variable (blake3 : Bytes → Block 32) (kind : SiteKind)

def recoverPass {α : Type} (found : Held → Option Name → α) (lock : Handle) (identity : Node) (r : LockRecord)
    (operationId : Text) : Act (Except Last α) := do
  match ← recover blake3 lock identity r operationId with
  | .held held leftover => return .ok (found held leftover)
  | .restart last => return .error last

def takeOverPass (capability : Bool) (why : Uncertain) : Act (Except Last Obtained) := do
  match ← takeOver blake3 capability why with
  | .claimed c => return .ok (.claimed c)
  | .restart => return .error .emptyOrTornUnheld

def decidePass (capability : Bool) (mode : Mode) (operationId : Text) : Classified → Act (Except Last Obtained)
  | .vanished => return .error .other
  | .busy holder => throw (busyRefusal holder)
  | .foreign => throw foreignRefusal
  | .untrusted r => throw (untrustedRefusal r)
  | .orphan lock _ r => do
    leave lock ()
    throw (orphanRefusal r kind)
  | .uncertain why =>
    match mode with
    | .plain => throw (uncertainRefusal why)
    | .breakLock => takeOverPass blake3 capability why
  | .dead lock identity r => recoverPass blake3 .held lock identity r operationId

def obtainPass (capability : Bool) (mode : Mode) (operationId : Text) : Act (Except Last Obtained) := do
  match ← acquire kind with
  | .acquired held => return .ok (.held held none)
  | .restart last => return .error last
  | .taken => decidePass blake3 kind capability mode operationId (← classify blake3 kind)

def attempts {α : Type} (pass : Act (Except Last α)) : ℕ → Last → Act α
  | 0, last => throw (giveUp last)
  | n + 1, _ => do
    match ← pass with
    | .ok a => return a
    | .error last => attempts pass n last

def obtain (capability : Bool) (mode : Mode) (operationId : Text) : Act Obtained := do
  let _ ← raw (.request mode.purpose)
  attempts (obtainPass blake3 kind capability mode operationId) maxAttempts .other

structure CleanupObtained where
  held : Held
  leftoverBroken : Option Name
  reclaimed : Option LockRecord
  deriving DecidableEq, Repr

def decideCleanup (operationId : Text) (now lease : UInt64) : Classified → Act (Except Last CleanupObtained)
  | .vanished => return .error .other
  | .busy holder => throw (busyRefusal holder)
  | .foreign => throw foreignRefusal
  | .untrusted r => throw (untrustedRefusal r)
  | .uncertain why => throw (uncertainRefusal why)
  | .orphan lock identity r =>
    if leasePast now lease r then
      recoverPass blake3 (fun held leftover => ⟨held, leftover, some r⟩) lock identity r operationId
    else do
      leave lock ()
      throw (refuse .artifactOwnershipUncertain (some r)
        "the dead owner's lock is younger than the lease threshold; wait, or retry once it is older")
  | .dead lock identity r =>
    if leasePast now lease r then
      recoverPass blake3 (fun held leftover => ⟨held, leftover, none⟩) lock identity r operationId
    else do
      leave lock ()
      throw (refuse .targetLockBusy (some r)
        "the previous owner's lock is younger than the lease threshold; wait, or retry once it is older")

def cleanupPass (operationId : Text) (now lease : UInt64) : Act (Except Last CleanupObtained) := do
  match ← acquire kind with
  | .acquired held => return .ok ⟨held, none, none⟩
  | .restart last => return .error last
  | .taken => decideCleanup blake3 operationId now lease (← classify blake3 kind)

def obtainCleanupLock (operationId : Text) (now lease : UInt64) : Act CleanupObtained := do
  let _ ← raw (.request (.cleanup now lease))
  attempts (cleanupPass blake3 kind operationId now lease) maxAttempts .other

end

end Flux.Lock
