import Flux.Base.Interleave
import Flux.Fs.Types
import Flux.Lock.Record

/-! The directory that holds a lock, shared by any number of processes, and the calls they make on it. -/

namespace Flux.Lock

open Base

inductive Name where
  | lock
  | dirLock
  | broken (operationId : Text)
  deriving DecidableEq, Repr

/-- An object under a name: a regular file, or anything else. Identities are strong, so it is its own identity. -/
inductive Node where
  | file (f : ℕ)
  | other (i : ℕ)
  deriving DecidableEq, Repr

structure Handle where
  id : ℕ
  file : ℕ
  deriving DecidableEq, Repr

inductive Purpose where
  | plain
  | breakLock
  | cleanup (now lease : UInt64)
  deriving DecidableEq, Repr

/-- `request` is not a filesystem call: it notes, for the history of a run, what the process is about to ask. -/
inductive Call where
  | request (purpose : Purpose)
  | createLock (n : Name)
  | openLock (n : Name)
  | metadata (n : Name)
  | identity (h : Handle)
  | tryLock (h : Handle)
  | readAll (h : Handle) (limit : ℕ)
  | readFile (n : Name) (limit : ℕ)
  | writeAt (h : Handle) (bytes : Bytes)
  | setLen (h : Handle) (n : ℕ)
  | syncAll (h : Handle)
  | renameNoReplace (a b : Name)
  | removeFile (n : Name)
  | close (h : Handle)
  | dirIsStrong
  | workspacePresent (path : Text)
  | setWorkspace (path : Text) (there : Bool)
  | panic
  deriving DecidableEq, Repr

@[reducible] def Reply : Call → Type
  | .request _ => Unit
  | .createLock _ => Except FsError Handle
  | .openLock _ => Except FsError Handle
  | .metadata _ => Except FsError Node
  | .identity _ => Except FsError Node
  | .tryLock _ => Except FsError Bool
  | .readAll _ _ => Except FsError Bytes
  | .readFile _ _ => Except FsError Bytes
  | .writeAt _ _ => Except FsError ℕ
  | .setLen _ _ => Except FsError Unit
  | .syncAll _ => Except FsError Unit
  | .renameNoReplace _ _ => Except FsError Unit
  | .removeFile _ => Except FsError Unit
  | .close _ => Unit
  | .dirIsStrong => Except FsError Bool
  | .workspacePresent _ => Except FsError Bool
  | .setWorkspace _ _ => Except FsError Unit
  | .panic => Empty

def failure (e : FsError) : (c : Call) → Option (Reply c)
  | .request _ => none
  | .createLock _ => some (.error e)
  | .openLock _ => some (.error e)
  | .metadata _ => some (.error e)
  | .identity _ => some (.error e)
  | .tryLock _ => some (.error e)
  | .readAll _ _ => some (.error e)
  | .readFile _ _ => some (.error e)
  | .writeAt _ _ => some (.error e)
  | .setLen _ _ => some (.error e)
  | .syncAll _ => some (.error e)
  | .renameNoReplace _ _ => some (.error e)
  | .removeFile _ => some (.error e)
  | .close _ => none
  | .dirIsStrong => some (.error e)
  | .workspacePresent _ => some (.error e)
  | .setWorkspace _ _ => some (.error e)
  | .panic => none

/-- `opened` and `locker` are the open handles and the OS locks. `present` says which recorded workspaces are on
disk. `owns` and `asked` are history: the handles that created or overwrote their file, and what each process
last asked for. -/
structure World (P : Type) where
  dir : Name → Option Node
  data : ℕ → Bytes
  opened : Handle → Option P
  locker : ℕ → Option Handle
  present : Text → Bool
  nextFile : ℕ
  nextHandle : ℕ
  owns : Handle → Bool
  asked : P → Option Purpose

def overwritten (old bytes : Bytes) (n : ℕ) : Bytes := bytes.take n ++ old.drop n

def resized (old : Bytes) (n : ℕ) : Bytes := old.take n ++ List.replicate (n - old.length) 0

open Function

variable {P : Type} [DecidableEq P]

def World.newHandle (w : World P) (p : P) (f : ℕ) : World P :=
  { w with opened := update w.opened ⟨w.nextHandle, f⟩ (some p), nextHandle := w.nextHandle + 1 }

/-- One call of process `p`. A failed call changes nothing, except that a failed write may have written a part.
A handle without the lock reads what it may, since its owner can be writing. -/
inductive Exec (p : P) : (c : Call) → World P → Reply c → World P → Prop
  | fails {w : World P} {c : Call} {e : FsError} {r : Reply c} (h : failure e c = some r) : Exec p c w r w
  | request {w : World P} (purpose : Purpose) :
    Exec p (.request purpose) w () { w with asked := update w.asked p (some purpose) }
  | createLock {w : World P} {n : Name} (free : w.dir n = none) :
    Exec p (.createLock n) w (.ok ⟨w.nextHandle, w.nextFile⟩)
      { w.newHandle p w.nextFile with
        dir := update w.dir n (some (.file w.nextFile))
        data := update w.data w.nextFile []
        nextFile := w.nextFile + 1
        owns := update w.owns ⟨w.nextHandle, w.nextFile⟩ true }
  | openLock {w : World P} {n : Name} {f : ℕ} (named : w.dir n = some (.file f)) :
    Exec p (.openLock n) w (.ok ⟨w.nextHandle, f⟩) (w.newHandle p f)
  | metadata {w : World P} {n : Name} {x : Node} (named : w.dir n = some x) : Exec p (.metadata n) w (.ok x) w
  | identity {w : World P} {h : Handle} (mine : w.opened h = some p) :
    Exec p (.identity h) w (.ok (.file h.file)) w
  | granted {w : World P} {h : Handle} (mine : w.opened h = some p)
    (free : w.locker h.file = none ∨ w.locker h.file = some h) :
    Exec p (.tryLock h) w (.ok true) { w with locker := update w.locker h.file (some h) }
  | refused {w : World P} {h h' : Handle} (taken : w.locker h.file = some h') (other : h' ≠ h) :
    Exec p (.tryLock h) w (.ok false) w
  | readLocked {w : World P} {h : Handle} {limit : ℕ} (locked : w.locker h.file = some h) :
    Exec p (.readAll h limit) w (.ok ((w.data h.file).take (limit + 1))) w
  | readUnlocked {w : World P} {h : Handle} {limit : ℕ} (bytes : Bytes) (unlocked : w.locker h.file ≠ some h) :
    Exec p (.readAll h limit) w (.ok bytes) w
  | readFile {w : World P} {n : Name} {limit f : ℕ} (bytes : Bytes) (named : w.dir n = some (.file f)) :
    Exec p (.readFile n limit) w (.ok bytes) w
  | writeAt {w : World P} {h : Handle} {bytes : Bytes} {n : ℕ} (mine : w.opened h = some p)
    (upTo : n ≤ bytes.length) : Exec p (.writeAt h bytes) w (.ok n)
      { w with data := update w.data h.file (overwritten (w.data h.file) bytes n), owns := update w.owns h true }
  | writeFails {w : World P} {h : Handle} {bytes : Bytes} {n : ℕ} {e : FsError} (mine : w.opened h = some p)
    (upTo : n ≤ bytes.length) :
    Exec p (.writeAt h bytes) w (.error e)
      { w with data := update w.data h.file (overwritten (w.data h.file) bytes n), owns := update w.owns h true }
  | setLen {w : World P} {h : Handle} {n : ℕ} (mine : w.opened h = some p) :
    Exec p (.setLen h n) w (.ok ()) { w with data := update w.data h.file (resized (w.data h.file) n) }
  | syncAll {w : World P} {h : Handle} (mine : w.opened h = some p) : Exec p (.syncAll h) w (.ok ()) w
  | renameNoReplace {w : World P} {a b : Name} {x : Node} (named : w.dir a = some x) (free : w.dir b = none) :
    Exec p (.renameNoReplace a b) w (.ok ()) { w with dir := update (update w.dir a none) b (some x) }
  | removeFile {w : World P} {n : Name} {x : Node} (named : w.dir n = some x) :
    Exec p (.removeFile n) w (.ok ()) { w with dir := update w.dir n none }
  | close {w : World P} {h : Handle} (mine : w.opened h = some p) :
    Exec p (.close h) w () { w with
      opened := update w.opened h none
      locker := if w.locker h.file = some h then update w.locker h.file none else w.locker }
  | closeNone {w : World P} {h : Handle} (notMine : w.opened h ≠ some p) : Exec p (.close h) w () w
  | dirIsStrong {w : World P} : Exec p .dirIsStrong w (.ok true) w
  | workspacePresent {w : World P} {path : Text} : Exec p (.workspacePresent path) w (.ok (w.present path)) w
  | setWorkspace {w : World P} {path : Text} {there : Bool} :
    Exec p (.setWorkspace path there) w (.ok ()) { w with present := update w.present path there }

def World.crashed (w : World P) (p : P) : World P :=
  { w with
    opened := fun h => if w.opened h = some p then none else w.opened h
    locker := fun f =>
      match w.locker f with
      | none => none
      | some h => if w.opened h = some p then none else some h }

/-- What runs outside the protocol may change: the directory lock, and a moved-aside lock that nobody has
locked. -/
inductive Environment : World P → World P → Prop
  | sweep {w : World P} {operationId : Text} {f : ℕ} (named : w.dir (.broken operationId) = some (.file f))
    (free : w.locker f = none) : Environment w { w with dir := update w.dir (.broken operationId) none }
  | dirLock {w : World P} (x : Option Node) : (∀ f, x ≠ some (.file f)) →
    Environment w { w with dir := update w.dir .dirLock x }

end Flux.Lock
