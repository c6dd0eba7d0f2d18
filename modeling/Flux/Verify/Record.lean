import Flux.Base.Stream
import Flux.State.Names
import Flux.Wal.Record
import Flux.Walk.Machine

namespace Flux.Verify

open Base Wal Walk

inductive Outcome where
  | matched | missing | mismatched | extra | unreadable
  deriving DecidableEq, Repr

inductive Kind where
  | file | dir | symlink | other
  deriving DecidableEq, Repr

def Kind.asStr : Kind → String
  | .file => "file"
  | .dir => "dir"
  | .symlink => "symlink"
  | .other => "other"

structure Record where
  path : Path
  outcome : Outcome
  kind : Kind
  code : Option Code
  detail : String
  deriving DecidableEq, Repr

def mountNotEntered : String := "mount point not entered"

def specialNotCompared : String := "special file not compared"

structure Summary where
  matched : ℕ
  missing : ℕ
  mismatched : ℕ
  extra : ℕ
  unreadable : ℕ
  notEntered : ℕ
  excluded : ℕ
  bytesHashed : ℕ
  deriving DecidableEq, Repr

def Summary.empty : Summary := ⟨0, 0, 0, 0, 0, 0, 0, 0⟩

def Summary.failed (s : Summary) : Bool := 0 < s.missing + s.mismatched + s.unreadable

structure Item where
  path : Path
  key : Bytes
  kind : Kind
  notEntered : Bool
  failed : Option FsError
  deriving DecidableEq, Repr

def fromRelative (path : Path) : Except FsError Bytes :=
  if ∃ name ∈ path, 0 ∈ name then
    .error ⟨.destinationError, ⟨.invalidInput, none, "path component contains a NUL byte"⟩⟩
  else .ok (pathKey path)

def item (path : Path) (kind : Kind) (notEntered : Bool) (failed : Option FsError) : Item :=
  match fromRelative path with
  | .ok key => ⟨path, key, kind, notEntered, failed⟩
  | .error e => ⟨path, [], kind, notEntered, some e⟩

inductive ControlFilter where
  | none | root | nestedRoot
  deriving DecidableEq, Repr

def fluxDir : Bytes := utf8 ".flux".toList

def rootLockName : Bytes := utf8 ".flux-root.lock".toList

def partialInfix : Bytes := utf8 ".flux-partial.".toList

def isHexByte (b : UInt8) : Bool := (hexValue (Char.ofNat b.toNat)).isSome

def hasIdAfter (name mark : Bytes) : Bool :=
  let head := name.take (name.length - 32)
  32 ≤ name.length ∧ (name.drop (name.length - 32)).all isHexByte ∧ mark <:+ head ∧ mark ≠ head

def isPartialTemporary (i : Item) : Bool :=
  (i.kind = .file ∨ i.kind = .symlink) ∧ ∃ name ∈ i.path.getLast?, hasIdAfter name partialInfix

def isRootControlState (i : Item) : Bool :=
  (i.path.head? = some fluxDir ∧ (i.path.length ≠ 1 ∨ i.kind = .dir)) ∨
    (i.path = [rootLockName] ∧ i.kind = .file) ∨ isPartialTemporary i

def isControlState (i : Item) : ControlFilter → Bool
  | .none => false
  | .root => isRootControlState i
  | .nestedRoot => isPartialTemporary i

structure Emitter where
  summary : Summary
  records : List Record

namespace Emitter

def emit (out : Emitter) (r : Record) : Emitter :=
  let s := out.summary
  ⟨match r.outcome with
    | .matched => { s with matched := s.matched + 1 }
    | .missing => { s with missing := s.missing + 1 }
    | .mismatched => { s with mismatched := s.mismatched + 1 }
    | .extra => { s with extra := s.extra + 1 }
    | .unreadable => { s with unreadable := s.unreadable + 1 }, out.records ++ [r]⟩

def alone (out : Emitter) (i : Item) (outcome : Outcome) : Emitter := out.emit ⟨i.path, outcome, i.kind, none, ""⟩

def unreadable (out : Emitter) (path : Path) (kind : Kind) (code : Code) (detail : String) : Emitter :=
  out.emit ⟨path, .unreadable, kind, some code, detail⟩

end Emitter

structure Contents where
  openRead : Path → Except FsError (ByteStream IoError)
  readLink : Path → Except FsError Bytes

def hashReader (blake3 : Bytes → Digest) (cap : ℕ) (acc rest : Bytes) :
    List (Delivery IoError) → Except IoError (Digest × ℕ)
  | [] => .ok (blake3 (acc ++ rest), (acc ++ rest).length)
  | .upTo n :: ds =>
    match rest.take (min (max n 1) cap) with
    | [] => .ok (blake3 acc, acc.length)
    | got => hashReader blake3 cap (acc ++ got) (rest.drop (min (max n 1) cap)) ds
  | .interrupted :: ds => hashReader blake3 cap acc rest ds
  | .failed e :: _ => .error e

def copyBufMax : ℕ := 256 * 1024

def hashFile (blake3 : Bytes → Digest) (c : Contents) (path : Path) : Except (Code × String) (Digest × ℕ) :=
  match c.openRead path with
  | .error e => .error (e.code, e.source.message)
  | .ok s =>
    match hashReader blake3 copyBufMax [] s.rest s.schedule with
    | .error e => .error (FsError.classify e, e.message)
    | .ok r => .ok r

def shortHex (d : Digest) : String := String.ofList ((hex d.val).take 8)

def compareFiles (blake3 : Bytes → Digest) (src dst : Contents) (path : Path) :
    Except (Code × String) (Option String) × ℕ :=
  match hashFile blake3 src path with
  | .error e => (.error e, 0)
  | .ok (s, sn) =>
    match hashFile blake3 dst path with
    | .error e => (.error e, sn)
    | .ok (d, dn) => (.ok (if s ≠ d then some (shortHex s ++ " != " ++ shortHex d) else none), sn + dn)

def comparePair (blake3 : Bytes → Digest) (src dst : Contents) (path : Path) : Kind → Kind → Record × ℕ
  | .file, .file =>
    match compareFiles blake3 src dst path with
    | (.ok none, n) => (⟨path, .matched, .file, none, ""⟩, n)
    | (.ok (some detail), n) => (⟨path, .mismatched, .file, some .verifyMismatch, detail⟩, n)
    | (.error (code, detail), n) => (⟨path, .unreadable, .file, some code, detail⟩, n)
  | .symlink, .symlink =>
    match src.readLink path with
    | .error e => (⟨path, .unreadable, .symlink, some e.code, e.source.message⟩, 0)
    | .ok s =>
      match dst.readLink path with
      | .error e => (⟨path, .unreadable, .symlink, some e.code, e.source.message⟩, 0)
      | .ok d =>
        (if s = d then ⟨path, .matched, .symlink, none, ""⟩
          else ⟨path, .mismatched, .symlink, some .verifyMismatch, "symlink payloads differ"⟩, 0)
  | .other, .other => (⟨path, .unreadable, .other, some .specialFileUnsupported, specialNotCompared⟩, 0)
  | k, l =>
    (⟨path, .mismatched, k, some .verifyMismatch, "source " ++ k.asStr ++ ", destination " ++ l.asStr⟩, 0)

end Flux.Verify
