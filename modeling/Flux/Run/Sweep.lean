import Flux.Base.Course
import Flux.Run.Warning
import Flux.State.Runs
import Flux.Verify.Record
import Flux.Walk.Remove

/-! The deletion of prior operations' partials, then of the states of those whose partials are gone. -/

namespace Flux.Run

open Base Walk State

def idAfter (name mark : Bytes) : Option Text :=
  if name.length < 32 then none
  else
    let head := name.take (name.length - 32)
    match ofUtf8 (name.drop (name.length - 32)) with
    | some id => if isId id ∧ mark <:+ head ∧ mark ≠ head then some id else none
    | none => none

def toAsciiLowercase (b : UInt8) : UInt8 := if 65 ≤ b ∧ b ≤ 90 then b + 32 else b

def eqIgnoreAsciiCase (a b : Bytes) : Bool := a.map toAsciiLowercase = b.map toAsciiLowercase

def reservedDirs : List Bytes := [utf8 "operations".toList, utf8 "standalone".toList, utf8 "atomic".toList]

def reservedPath : Path → Bool
  | first :: second :: _ => eqIgnoreAsciiCase first Verify.fluxDir ∧ ∃ r ∈ reservedDirs, eqIgnoreAsciiCase second r
  | _ => false

inductive Fault where
  | lost
  | io (path : Path) (e : FsError)
  | heartbeat (path : Path) (e : FsError)
  deriving DecidableEq, Repr

inductive Action where
  | removed (path : Path)
  | kept (path : Path) (error : FsError)
  deriving DecidableEq, Repr

inductive Event where
  | refused (fault : Fault)
  | removed (path : Path)
  | written (state : OperationState)
  | retired (id : Text) (tree : Folder)

/-- What is under the destination and the states beside it. `checks` and `faults` say at which call a check of
the lock or a filesystem call fails. -/
structure World where
  tree : Folder
  states : Text → Option OperationState
  checks : ℕ → Option Fault
  faults : ℕ → Option FsError
  clock : ℕ
  warnings : List RunWarning
  actions : List Action
  events : List Event

namespace World

def ticked (w : World) : World := { w with clock := w.clock + 1 }

def happened (w : World) (e : Event) : World := { w with events := w.events ++ [e] }

def warn (w : World) (x : RunWarning) : World := { w with warnings := w.warnings ++ [x] }

def act (w : World) (x : Action) : World := { w with actions := w.actions ++ [x] }

end World

def check : Act World Fault Unit := fun w =>
  match w.checks w.clock with
  | some fault => (.error fault, w.ticked.happened (.refused fault))
  | none => (.ok (), w.ticked)

def call : Act World FsError Unit := fun w =>
  match w.faults w.clock with
  | some e => (.error e, w.ticked)
  | none => (.ok (), w.ticked)

def notADirectory : FsError := .fromIo ⟨.notADirectory, some 20, "Not a directory (os error 20)"⟩

def isADirectory : FsError := .fromIo ⟨.isADirectory, some 21, "Is a directory (os error 21)"⟩

def openDir (path : Path) : Act World FsError Unit := do
  call
  match (← get).tree.at path with
  | some (.dir _ _ _) => pure ()
  | some (.leaf _) => throw notADirectory
  | none => throw notFound

def removeFile (path : Path) : Act World FsError Unit := do
  call
  match (← get).tree.at path with
  | some (.leaf _) => modify fun w => { w with tree := w.tree.remove path }.happened (.removed path)
  | some (.dir _ _ _) => throw isADirectory
  | none => throw notFound

def openEach : List Path → Act World FsError Unit
  | [] => pure ()
  | path :: rest => do
    openDir path
    openEach rest

def removeBelow (path : Path) : Act World FsError Unit := do
  openEach path.inits.tail.dropLast
  removeFile path

structure Partials where
  found : List (Path × Text)
  unlistable : Bool
  warnings : List RunWarning

def Partials.none : Partials := ⟨[], false, []⟩

def sweepConfig (metadata : Path → Except FsError Metadata) (mountRoot : Path → Except FsError MountRoot) :
    Walk.Config :=
  ⟨metadata, mountRoot, fun _ _ => .keep, defaultMaxDepth, .cross⟩

section Sweep

variable (destShown operationsShown : Path) (ids : List Text)

def partialOf (path : Path) : Option Text := do
  let id ← idAfter (← path.getLast?) Verify.partialInfix
  if id ∈ ids then some id else none

def Partials.note (p : Partials) (path : Path) : Partials :=
  if reservedPath path then p
  else
    match partialOf ids path with
    | some prior => { p with found := p.found ++ [(path, prior)] }
    | .none => p

def Partials.missed (p : Partials) (path : Path) (error : FsError) : Partials :=
  { p with unlistable := true, warnings := p.warnings ++ [.partialKept path error operationsShown] }

def Partials.observe (p : Partials) : RawEvent → Except FsError Partials
  | .ok (.file path) => .ok (p.note ids path)
  | .ok (.symlink path) => .ok (p.note ids path)
  | .ok (.dir _ _) | .ok (.other _) | .ok (.dirEnd _) | .ok (.mountSkipped _) | .ok (.mountUnknown _) => .ok p
  | .error e => if e.fatal then .error e.cause else .ok (p.missed operationsShown (destShown ++ e.path) e.cause)

variable {σ E : Type} (cfg : Walk.Config) (lister : Lister σ E)

def partialsRound (s : Partials × Walk.State σ E) :
    Attempt Empty ((Partials × Walk.State σ E) ⊕ (Except FsError Unit × Partials × σ)) := do
  match ← next cfg lister s.2 with
  | (.none, w) => pure (.inr (.ok (), s.1, w.space))
  | (some event, w) =>
    match s.1.observe destShown operationsShown ids event with
    | .ok p => pure (.inl (p, w))
    | .error e => pure (.inr (.error e, s.1, w.space))

def partialsUnder (space : σ) : Attempt Empty (Except FsError Unit × Partials × σ) :=
  match unstarted cfg space with
  | .error e => pure (.ok (), Partials.none.missed operationsShown destShown e, space)
  | .ok w => do
    match ← start lister w with
    | (.error e, w) =>
      if e.fatal then pure (.error e.cause, Partials.none, w.space)
      else pure (.ok (), Partials.none.missed operationsShown destShown e.cause, w.space)
    | (.ok (), w) => loop (partialsRound destShown operationsShown ids cfg lister) (Partials.none, w)

def removeAll (shown : Text → Path) (onRemoved : Path → World → World) :
    List (Path × Text) → List Text → Act World Fault (List Text)
  | [], kept => pure kept
  | (path, prior) :: rest, kept => do
    check
    match ← (removeBelow path).attempt with
    | .ok () =>
      modify (onRemoved (destShown ++ path))
      removeAll shown onRemoved rest kept
    | .error e =>
      modify fun w => w.warn (.partialKept (destShown ++ path) e (shown prior))
      removeAll shown onRemoved rest (prior :: kept)

def sweepPartials (shown : Text → Path) (onRemoved : Path → World → World) (space : σ) (stash : σ → Option Fault) :
    Course World Fault (List Text) :=
  if ids = [] then pure []
  else do
    let (walked, p, space) ← Course.ofAttempt (partialsUnder destShown operationsShown ids cfg lister space)
    modify fun w => { w with warnings := w.warnings ++ p.warnings }
    match walked with
    | .error e =>
      match stash space with
      | some fault => do
        modify fun w => w.happened (.refused fault)
        throw fault
      | .none => throw (.io destShown e)
    | .ok () =>
      let kept ← Course.ofAct (removeAll destShown shown onRemoved p.found (if p.unlistable then ids else []))
      pure (ids.filter fun id => id ∉ kept)

end Sweep

def writeState (s : OperationState) : Act World FsError Unit := do
  call
  modify fun w => { w with states := Function.update w.states s.operationId (some s) }.happened (.written s)

def removeState (id : Text) : Act World FsError Unit := do
  modify fun w => w.happened (.retired id w.tree)
  call
  modify fun w => { w with states := Function.update w.states id none }
  call

def retireWorkspace (id : Text) : Act World FsError Unit := removeState id

def removeRecord (id : Text) : Act World FsError Unit := removeState id

structure PriorOp where
  state : OperationState
  shown : Path

structure Place where
  write : OperationState → Act World FsError Unit
  sweep : List PriorOp → Course World Fault (List Text)
  remove : Text → Act World (Path × FsError) Unit

section Supersede

variable (place : Place) (own : Text)

def abandonEach : List PriorOp → Act World Fault Unit
  | [] => pure ()
  | prior :: rest => do
    check
    (place.write (State.supersede prior.state own)).mapFailure (.io prior.shown)
    abandonEach rest

def removeEach (gone : List Text) : List PriorOp → Act World Fault Unit
  | [] => pure ()
  | prior :: rest =>
    if prior.state.operationId ∈ gone then do
      check
      match ← (place.remove prior.state.operationId).attempt with
      | .ok () => removeEach gone rest
      | .error e =>
        modify fun w => w.warn (.notRemoved e.1 e.2)
        removeEach gone rest
    else removeEach gone rest

def supersede (priors : List PriorOp) : Course World Fault Unit := do
  Course.ofAct (abandonEach place own priors)
  let gone ← place.sweep priors
  Course.ofAct (removeEach place gone priors)

end Supersede

section File

variable (dirShown : Path) (target : Bytes)

def partialName (stem : Bytes) (id : Text) : Bytes := stem ++ Verify.partialInfix ++ utf8 id

def fileSweep : List PriorOp → Act World Fault (List Text)
  | [] => pure []
  | prior :: rest => do
    check
    match ← (removeFile [partialName target prior.state.operationId]).attempt with
    | .ok () => (prior.state.operationId :: ·) <$> fileSweep rest
    | .error e =>
      if isNotFound e then (prior.state.operationId :: ·) <$> fileSweep rest
      else do
        modify fun w => w.warn (.partialKept (dirShown ++ [partialName target prior.state.operationId]) e
          prior.shown)
        fileSweep rest

def recordInfix : Bytes := utf8 ".flux-state.".toList

def recordName (target : Bytes) (id : Text) : Bytes := target ++ recordInfix ++ utf8 id

def filePlace : Place where
  write := writeState
  sweep := fun priors => Course.ofAct (fileSweep dirShown target priors)
  remove := fun id => (removeRecord id).mapFailure fun e => (dirShown ++ [recordName target id], e)

end File

section Tree

variable (destShown operationsShown : Path) {σ E : Type} (cfg : Walk.Config) (lister : Lister σ E) (space : σ)
  (stash : σ → Option Fault)

def shownAt (operationsShown : Path) (id : Text) : Path := operationsShown ++ [utf8 id]

def placeScratch (scratch : Bool) (own : Text) : Act World Fault Unit :=
  if scratch then call.mapFailure (.io (shownAt operationsShown own)) else pure ()

def treeSweep (scratch : Bool) (own : Text) (priors : List PriorOp) : Course World Fault (List Text) :=
  let ids := (priors.map fun p => p.state.operationId).dedup
  if ids = [] then pure []
  else do
    Course.ofAct (placeScratch operationsShown scratch own)
    sweepPartials destShown operationsShown ids cfg lister (shownAt operationsShown) (fun _ w => w) space stash

def treePlace (scratch : Bool) (own : Text) : Place where
  write := writeState
  sweep := treeSweep destShown operationsShown cfg lister space stash scratch own
  remove := fun id => (retireWorkspace id).mapFailure fun e => (shownAt operationsShown id, e)

def manifest : Bytes := utf8 "manifest".toList

def keptAction : RunWarning → Option Action
  | .partialKept path error _ => some (.kept path error)
  | _ => none

def retireIfGone (id : Text) (gone : List Text) : Act World Fault Unit :=
  if id ∈ gone then do
    check
    match ← (retireWorkspace id).attempt with
    | .ok () => modify fun w => w.act (.removed (shownAt operationsShown id))
    | .error e => modify fun w => w.act (.kept (shownAt operationsShown id) e)
  else pure ()

def sweepOne (id : Text) : Course World Fault Unit := do
  let before := (← get).warnings
  modify fun w => { w with warnings := [] }
  let swept ← Course.attempt (sweepPartials destShown operationsShown [id] cfg lister (shownAt operationsShown)
    (fun path w => w.act (.removed path)) space stash)
  modify fun w => { w with warnings := before, actions := w.actions ++ w.warnings.filterMap keptAction }
  match swept with
  | .error fault => throw fault
  | .ok gone => Course.ofAct (retireIfGone operationsShown id gone)

def writeAbandoned (s : OperationState) : Act World FsError Unit := do
  call
  writeState (State.abandon s)

def abandonAndSweep (s : OperationState) : Course World Fault Unit :=
  if s.state = .abandoned then sweepOne destShown operationsShown cfg lister space stash s.operationId
  else do
    Course.ofAct check
    match ← Course.ofAct (writeAbandoned s).attempt with
    | .error e => modify fun w => w.act (.kept (shownAt operationsShown s.operationId ++ [manifest]) e)
    | .ok () => sweepOne destShown operationsShown cfg lister space stash s.operationId

end Tree

end Flux.Run
