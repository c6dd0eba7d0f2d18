import Flux.Base.Loop
import Flux.Fs.Matching
import Flux.Fs.PathKey

/-! The ordered walk of a tree; how a directory is listed in order is left to a lister. -/

namespace Flux.Walk

open Base

def defaultMaxDepth : ℕ := 256

inductive WalkEvent where
  | dir (path : Path) (identity : FileIdentity)
  | file (path : Path)
  | symlink (path : Path)
  | other (path : Path)
  | dirEnd (path : Path)
  | mountSkipped (path : Path)
  | mountUnknown (path : Path)
  deriving DecidableEq, Repr

inductive MountPolicy where
  | cross | stay
  deriving DecidableEq, Repr

inductive MountRoot where
  | yes | no | unknown
  deriving DecidableEq, Repr

inductive MountNote where
  | skipped | unknown
  deriving DecidableEq, Repr

structure WalkError where
  path : Path
  cause : FsError
  fatal : Bool
  deriving DecidableEq, Repr

abbrev RawEvent := Except WalkError WalkEvent

inductive ListError where
  | listing (e : FsError)
  | fatal (e : FsError)

/-- Listings in order. `σ` is what they share, `E` one directory's entries still to come. -/
structure Lister (σ E : Type) where
  list : σ → Path → Attempt Empty (Except ListError E × σ)
  next : σ → E → Attempt Empty (Option (Except FsError DirEntry) × E)
  drop : σ → E → σ
  empty : E

structure Config where
  metadata : Path → Except FsError Metadata
  mountRoot : Path → Except FsError MountRoot
  select : Path → FileType → Verdict
  maxDepth : ℕ
  mounts : MountPolicy

structure Frame (E : Type) where
  rel : Path
  entries : E
  pushedAncestor : Bool
  emitEnd : Bool
  mount : Option MountNote

structure State (σ E : Type) where
  stack : List (Frame E)
  ancestors : List ObjectId
  excluded : ℕ
  space : σ
  started : Bool
  rootPushedAncestor : Bool
  done : Bool

def otherError (code : Code) (message : String) : FsError := ⟨code, .other message⟩

def depthError : FsError := otherError .ioError "directory depth cap exceeded"

def changedError : FsError :=
  otherError .directoryChangedDuringScan "entry listed as a directory is no longer one"

def cycleError : FsError := otherError .ioError "directory cycle: already an ancestor"

def isOneComponent (name : Bytes) : Bool :=
  match name.splitOn 47 with
  | [] => false
  | first :: rest => first ≠ [] ∧ first ≠ [46] ∧ first ≠ [46, 46] ∧ ∀ part ∈ rest, part = [] ∨ part = [46]

section Step

variable {σ E : Type} (cfg : Config) (lister : Lister σ E)

def strongId : FileIdentity → Option ObjectId
  | .strong id => some id
  | _ => none

def unstarted (space : σ) : Except FsError (State σ E) :=
  match cfg.metadata [] with
  | .error e => .error e
  | .ok m =>
    if m.fileType ≠ .dir then .error (otherError .specialFileUnsupported "walk root is not a directory")
    else .ok ⟨[], (strongId m.identity).toList, 0, space, false, (strongId m.identity).isSome, false⟩

def popFrame (w : State σ E) (f : Frame E) (rest : List (Frame E)) : State σ E :=
  { w with stack := rest, ancestors := if f.pushedAncestor then w.ancestors.tail else w.ancestors,
           space := lister.drop w.space f.entries }

def release (w : State σ E) : State σ E :=
  w.stack.foldl (fun w f => popFrame lister w f w.stack.tail) w

def endFatally (w : State σ E) (path : Path) (cause : FsError) : WalkError × State σ E :=
  (⟨path, cause, true⟩, { release lister w with done := true })

def start (w : State σ E) : Attempt Empty (Except WalkError Unit × State σ E) :=
  if w.started then pure (.ok (), w)
  else do
    let w := { w with started := true }
    let (listed, space) ← lister.list w.space []
    let w := { w with space := space }
    match listed with
    | .ok entries => pure (.ok (), { w with stack := ⟨[], entries, w.rootPushedAncestor, false, none⟩ :: w.stack })
    | .error e =>
      let w := { w with ancestors := if w.rootPushedAncestor then w.ancestors.tail else w.ancestors, done := true }
      match e with
      | .listing cause => pure (.error ⟨[], cause, false⟩, w)
      | .fatal cause => pure (.error ⟨[], cause, true⟩, w)

def openListing (w : State σ E) (rel : Path) (identity : FileIdentity) (note : Option MountNote) :
    Attempt Empty (RawEvent × State σ E) := do
  let ancestors := (strongId identity).toList ++ w.ancestors
  let (listed, space) ← lister.list w.space rel
  match listed with
  | .error (.listing cause) => pure (.error ⟨rel, cause, false⟩, { w with space := space })
  | .error (.fatal cause) =>
    let (e, w) := endFatally lister { w with space := space } rel cause
    pure (.error e, w)
  | .ok entries =>
    pure (.ok (.dir rel identity),
      { w with stack := ⟨rel, entries, (strongId identity).isSome, true, note⟩ :: w.stack, ancestors := ancestors,
               space := space })

def enterListing (w : State σ E) (rel : Path) (identity : FileIdentity) (note : Option MountNote) :
    Attempt Empty (RawEvent × State σ E) :=
  if (strongId identity).any fun id => id ∈ w.ancestors then pure (.error ⟨rel, cycleError, false⟩, w)
  else openListing lister w rel identity note

def enter (w : State σ E) (rel : Path) : Attempt Empty (RawEvent × State σ E) :=
  if cfg.maxDepth < w.stack.length then pure (.error ⟨rel, depthError, false⟩, w)
  else match cfg.metadata rel with
    | .error cause => pure (.error ⟨rel, cause, false⟩, w)
    | .ok m =>
      if m.fileType ≠ .dir then pure (.error ⟨rel, changedError, false⟩, w)
      else match cfg.mounts with
        | .cross => enterListing lister w rel m.identity none
        | .stay =>
          -- before the ancestors: a bind mount of an ancestor is a mount, not a cycle
          match cfg.mountRoot rel with
          | .error cause => pure (.error ⟨rel, cause, false⟩, w)
          | .ok .yes =>
            pure (.ok (.dir rel m.identity),
              { w with stack := ⟨rel, lister.empty, false, true, some .skipped⟩ :: w.stack })
          | .ok .unknown => enterListing lister w rel m.identity (some .unknown)
          | .ok .no => enterListing lister w rel m.identity none

def visit (w : State σ E) (rel : Path) (e : DirEntry) :
    Attempt Empty (State σ E ⊕ (Option RawEvent × State σ E)) :=
  -- a panic never returns
  if ¬ isOneComponent e.name then ExceptT.mk none
  else
    let path := rel ++ [e.name]
    match cfg.select path e.fileType with
    | .excluded => pure (.inl { w with excluded := w.excluded + 1 })
    | .skipped => pure (.inl w)
    | .keep =>
      match e.fileType with
      | .file => pure (.inr (some (.ok (.file path)), w))
      | .symlink => pure (.inr (some (.ok (.symlink path)), w))
      | .other => pure (.inr (some (.ok (.other path)), w))
      | .dir => do
        let (event, w) ← enter cfg lister w path
        pure (.inr (some event, w))

def nextStep (w : State σ E) : Attempt Empty (State σ E ⊕ (Option RawEvent × State σ E)) :=
  if w.done then pure (.inr (none, w))
  else match w.stack with
    | [] => pure (.inr (none, w))
    | f :: rest =>
      match f.mount with
      | some note =>
        let event := match note with
          | .skipped => WalkEvent.mountSkipped f.rel
          | .unknown => WalkEvent.mountUnknown f.rel
        pure (.inr (some (.ok event), { w with stack := { f with mount := none } :: rest }))
      | none => do
        let (taken, entries) ← lister.next w.space f.entries
        let f := { f with entries := entries }
        let w := { w with stack := f :: rest }
        match taken with
        | some (.error cause) =>
          let (e, w) := endFatally lister w f.rel cause
          pure (.inr (some (.error e), w))
        | some (.ok e) => visit cfg lister w f.rel e
        | none =>
          let w := popFrame lister w f rest
          if f.emitEnd then pure (.inr (some (.ok (.dirEnd f.rel)), w)) else pure (.inl w)

def next (w : State σ E) : Attempt Empty (Option RawEvent × State σ E) := do
  let (started, w) ← start lister w
  match started with
  | .error e => pure (some (.error e), w)
  | .ok () => loop (nextStep cfg lister) w

end Step

end Flux.Walk
