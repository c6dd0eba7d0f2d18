import Flux.State.Operation

/-! The operation states that runs make: creation, adoption, take-over, completion, superseding and abandonment. -/

namespace Flux.State

open Base

def preserveText : Preserve → Text
  | .off => "off".toList
  | .default => "default".toList
  | .strict => "strict".toList

def Options.of (opts : CopyOptions) : Options where
  preserveTimes := preserveText opts.preserveTimes
  preservePermissions := preserveText opts.preservePermissions
  durability := match opts.durability with
    | .normal => "normal".toList
    | .strict => "strict".toList
  safety := match opts.safety with
    | .default => "default".toList
    | .strict => "strict".toList
  existing := match opts.existing with
    | .overwrite => "overwrite".toList
    | .update => "update".toList
    | .skipExisting => "skip-existing".toList
  links := match opts.links with
    | .copy => "copy".toList
    | .skip => "skip".toList
  crossFilesystems := opts.crossFilesystems
  exclude := opts.selection.typed
  recursive := opts.selection.recursive

def fingerprintHeader : Text := "flux-config-v1\n".toList

def Options.canonicalText (o : Options) : Text :=
  fingerprintHeader ++ "preserve_times=".toList ++ o.preserveTimes ++ "\npreserve_permissions=".toList ++
    o.preservePermissions ++ "\nsafety=".toList ++ o.safety ++ "\nexisting=".toList ++ o.existing ++ ['\n'] ++
    (if o.links = "skip".toList then "links=skip\n".toList else []) ++
    (if o.crossFilesystems then "cross_filesystems=true\n".toList else []) ++
    (sortDedup o.exclude).flatMap (fun p => "exclude=".toList ++ p ++ ['\n']) ++
    (if o.recursive then [] else "recursive=false\n".toList)

def Options.canonicalBytes (o : Options) : Bytes := utf8 o.canonicalText

def Options.fingerprint (lib : Library) (o : Options) : Text := hex (lib.blake3 o.canonicalBytes).1

def Config.new (lib : Library) (roots : List Root) (options : Options) : Config :=
  ⟨roots, options, options.fingerprint lib⟩

abbrev Name := { n : Bytes // n ≠ [] ∧ slash ∉ n ∧ 0 ∉ n }

def Name.path (n : Name) : Path where
  rooted := false
  parts := [n.1]
  proper := by simpa using n.2
  nonempty := .inr (by simp)

structure SourceRoot where
  src : Path
  identity : FileIdentity
  name : Name
  kind : RootKind

/-- What a run copies and where to: `existing` is the object under the target's name before the run, `src` a
source as an absolute path. -/
inductive Place where
  | tree (src : Path) (identity : FileIdentity)
  | file (src : Path) (identity : FileIdentity) (target : Name) (existing : Option FileIdentity)
  | trees (roots : List SourceRoot) (several : 2 ≤ roots.length)

def Place.kind : Place → Kind
  | .file .. => .file
  | .tree .. | .trees .. => .tree

def Place.roots : Place → List Root
  | .tree src identity => [⟨nativeHex src, identityText identity, [], none⟩]
  | .file src identity target _ => [⟨nativeHex src, identityText identity, nativeHex target.path, none⟩]
  | .trees roots _ => roots.map fun r =>
    ⟨nativeHex r.src, identityText r.identity, nativeHex r.name.path, some r.kind⟩

structure Session where
  operationId : Text
  attemptId : Text
  ownerInstanceId : Text
  bootSessionId : Text
  now : UInt64
  operation : isId operationId
  attempt : isId attemptId
  owner : isId ownerInstanceId
  boot : bootSessionId ≠ []

def Place.fileFields (place : Place) (session : Session) : Option FileFields :=
  match place with
  | .file _ source target existing => some {
      artifactType := artifactState
      attemptId := session.attemptId
      artifactGeneration := 1
      sourceIdentity := identityText source
      targetIdentity := existing.map identityText
      targetPathKey := hex target.1
      ownerInstanceId := session.ownerInstanceId
      bootSessionId := session.bootSessionId
      creationWallTime := decimal session.now.toNat
      lastHeartbeatWallTime := decimal session.now.toNat }
  | _ => none

def createdV1 (operationId : Text) (kind : Kind) (destinationRoot : Text) (createdAt : UInt64) :
    OperationState where
  formatVersion := v1
  operationId := operationId
  kind := kind
  destinationRoot := destinationRoot
  state := .created
  supersededBy := none
  createdAt := decimal createdAt.toNat
  takeover := none
  cleanup := none
  file := none
  config := none
  wal := none

def createdV2 (operationId : Text) (kind : Kind) (destinationRoot : Text) (createdAt : UInt64)
    (file : Option FileFields) : OperationState :=
  { createdV1 operationId kind destinationRoot createdAt with
    formatVersion := v2, cleanup := some ⟨false, []⟩, file := file }

def createdV3 (operationId : Text) (kind : Kind) (destinationRoot : Text) (createdAt : UInt64)
    (file : Option FileFields) (config : Config) : OperationState :=
  { createdV2 operationId kind destinationRoot createdAt file with formatVersion := v3, config := some config }

def created (operationId : Text) (kind : Kind) (destinationRoot : Text) (createdAt : UInt64)
    (file : Option FileFields) (config : Config) : OperationState :=
  { createdV3 operationId kind destinationRoot createdAt file config with
    formatVersion := if config.roots.length ≥ 2 then multiRootFormat else formatVersion
    wal := some ⟨1⟩ }

def newState (lib : Library) (session : Session) (place : Place) (destination : Text) (opts : CopyOptions) :
    OperationState :=
  created session.operationId place.kind destination session.now (place.fileFields session)
    (Config.new lib place.roots (Options.of opts))

inductive Incompatible where
  | noOptions (version : UInt64)
  | noGeneration (version : UInt64)
  | fingerprint
  | rootCount (stored asked : ℕ)
  | rootKind (stored asked : RootKind)
  | source (stored asked : Root)
  | destination (stored asked : Root)
  | option (name : String) (stored asked : Text)
  | exclude (stored asked : List Text)
  | recursive (stored asked : Bool)
  | durability
  deriving DecidableEq, Repr

def strongIdentity (t : Text) : Option FileIdentity :=
  match parseIdentity t with
  | some (.strong o) => some (.strong o)
  | _ => none

def compareKind : Option RootKind → Option RootKind → Except Incompatible Unit
  | some stored, some asked => check (stored = asked) (.rootKind stored asked)
  | _, _ => .ok ()

def compareSource (stored asked : Root) : Except Incompatible Unit :=
  match strongIdentity stored.sourceIdentity, strongIdentity asked.sourceIdentity with
  | some a, some b => check (a = b) (.source stored asked)
  | _, _ => check (stored.sourceRoot = asked.sourceRoot) (.source stored asked)

def compareRoot (stored asked : Root) : Except Incompatible Unit := do
  compareKind stored.kind asked.kind
  compareSource stored asked
  check (stored.destinationPrefix = asked.destinationPrefix) (.destination stored asked)

def compareOption (x : String × Text × Text) : Except Incompatible Unit :=
  check (x.2.1 = x.2.2) (.option x.1 x.2.1 x.2.2)

def compareDurability (stored asked : Options) : Except Incompatible Options :=
  if stored.durability ≠ asked.durability then
    if stored.durability = "strict".toList then .error .durability
    else .ok { stored with durability := asked.durability }
  else .ok stored

def compareOptions (stored asked : Options) : Except Incompatible Unit := do
  checkAll compareOption
    [("preserve_times", stored.preserveTimes, asked.preserveTimes),
      ("preserve_permissions", stored.preservePermissions, asked.preservePermissions),
      ("safety", stored.safety, asked.safety), ("existing", stored.existing, asked.existing),
      ("links", stored.links, asked.links),
      ("cross_filesystems", boolText stored.crossFilesystems, boolText asked.crossFilesystems)]
  check (stored.exclude = asked.exclude) (.exclude stored.exclude asked.exclude)
  check (stored.recursive = asked.recursive) (.recursive stored.recursive asked.recursive)

def resumeConfig (lib : Library) (prior : OperationState) (roots : List Root) (opts : CopyOptions) :
    Except Incompatible Config :=
  match prior.config with
  | none => .error (.noOptions prior.formatVersion)
  | some stored => do
    check (formatVersion ≤ prior.formatVersion) (Incompatible.noGeneration prior.formatVersion)
    check (stored.options.fingerprint lib = stored.configurationFingerprint) Incompatible.fingerprint
    check (roots.length = stored.roots.length) (Incompatible.rootCount stored.roots.length roots.length)
    checkAll (fun r => compareRoot r.1 r.2) (stored.roots.zip roots)
    compareOptions stored.options (Options.of opts)
    let options ← compareDurability stored.options (Options.of opts)
    return { stored with options := options }

def Wal.next (w : Wal) : Wal := ⟨w.walGeneration + 1⟩

def FileFields.handOver (f : FileFields) (session : Session) : FileFields :=
  { f with
    attemptId := session.attemptId
    artifactGeneration := f.artifactGeneration + 1
    ownerInstanceId := session.ownerInstanceId
    bootSessionId := session.bootSessionId
    lastHeartbeatWallTime := decimal session.now.toNat }

def adopt (prior : OperationState) (config : Config) (session : Session) (place : Place) : OperationState :=
  { prior with
    config := some config
    wal := prior.wal.map Wal.next
    file := if place.kind = .file then prior.file.map (·.handOver session) else prior.file }

def takeOver (s : OperationState) (now : UInt64) : OperationState :=
  { s with takeover := some (.ofUnreadable now) }

def transferring (s : OperationState) : OperationState := { s with state := .transferring }

def failed (s : OperationState) : OperationState := { s with state := .failed }

def FileFields.publish (f : FileFields) : Option FileIdentity → FileFields
  | some id => { f with targetIdentity := some (identityText id) }
  | none => f

/-- `published` is the single file's target; it is absent when the copy was skipped, and for trees. -/
def complete (s : OperationState) (leftovers : List Path) (published : Option FileIdentity) : OperationState :=
  { s with
    state := .completed
    cleanup := s.cleanup.map fun _ => ⟨true, leftovers.map nativeHex⟩
    file := s.file.map (·.publish published) }

def supersede (prior : OperationState) (own : Text) : OperationState :=
  { prior with state := .abandoned, supersededBy := some own }

def abandon (s : OperationState) : OperationState := { s with state := .abandoned }

end Flux.State
