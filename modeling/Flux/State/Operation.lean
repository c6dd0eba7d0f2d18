import Flux.Base.Check
import Flux.Base.Json
import Flux.Fs.Options
import Flux.State.Names

namespace Flux.State

open Base

/-- What the third-party crates supply: `serde_json`, `blake3` and the `Debug` forms of the standard library. -/
structure Library where
  toVec : Json → Bytes
  toVecStruct : Json → Bytes
  fromSlice : Bytes → Except Text Json
  display : Json → Text
  explain : String → Json → Text
  debug : Text → Text
  debugChar : Char → Text
  blake3 : Bytes → Block 32

def formatVersion : UInt64 := 4

def multiRootFormat : UInt64 := 5

def v3 : UInt64 := 3

def v2 : UInt64 := 2

def v1 : UInt64 := 1

def stateLimit : ℕ := 64 * 1024

def unreadable : Text := "unreadable".toList

def keys : List String :=
  ["format_version", "operation_id", "kind", "destination_root", "state", "superseded_by",
    "created_at", "takeover"]

def cleanupKeys : List String := ["cleanup_pending", "cleanup_pending_artifacts"]

def fileKeys : List String :=
  ["artifact_type", "attempt_id", "artifact_generation", "source_identity", "target_identity", "target_path_key",
    "owner_instance_id", "boot_session_id", "creation_wall_time", "last_heartbeat_wall_time"]

def configKeys : List String := ["roots", "options", "configuration_fingerprint"]

def walKeys : List String := ["wal_generation"]

inductive RootKind where
  | tree | file
  deriving DecidableEq, Repr

structure Root where
  sourceRoot : Text
  sourceIdentity : Text
  destinationPrefix : Text
  kind : Option RootKind
  deriving DecidableEq, Repr

structure Options where
  preserveTimes : Text
  preservePermissions : Text
  durability : Text
  safety : Text
  existing : Text
  links : Text
  crossFilesystems : Bool
  exclude : List Text
  recursive : Bool
  deriving DecidableEq, Repr

structure Config where
  roots : List Root
  options : Options
  configurationFingerprint : Text
  deriving DecidableEq, Repr

inductive Kind where
  | tree | file
  deriving DecidableEq, Repr

inductive OpState where
  | created | transferring | failed | completed | abandoned
  deriving DecidableEq, Repr

def OpState.isResumable : OpState → Bool
  | .created | .transferring | .failed => true
  | .completed | .abandoned => false

def OpState.asStr : OpState → Text
  | .created => "CREATED".toList
  | .transferring => "TRANSFERRING".toList
  | .failed => "FAILED".toList
  | .completed => "COMPLETED".toList
  | .abandoned => "ABANDONED".toList

structure Takeover where
  operationId : Text
  ownerInstanceId : Text
  bootSessionId : Text
  lastHeartbeatWallTime : Text
  creationWallTime : Text
  deriving DecidableEq, Repr

def Takeover.ofUnreadable (creationWallTime : UInt64) : Takeover :=
  ⟨unreadable, unreadable, unreadable, unreadable, decimal creationWallTime.toNat⟩

structure Wal where
  walGeneration : UInt64
  deriving DecidableEq, Repr

structure Cleanup where
  cleanupPending : Bool
  cleanupPendingArtifacts : List Text
  deriving DecidableEq, Repr

structure FileFields where
  artifactType : Text
  attemptId : Text
  artifactGeneration : UInt64
  sourceIdentity : Text
  targetIdentity : Option Text
  targetPathKey : Text
  ownerInstanceId : Text
  bootSessionId : Text
  creationWallTime : Text
  lastHeartbeatWallTime : Text
  deriving DecidableEq, Repr

def artifactState : Text := "state".toList

structure OperationState where
  formatVersion : UInt64
  operationId : Text
  kind : Kind
  destinationRoot : Text
  state : OpState
  supersededBy : Option Text
  createdAt : Text
  takeover : Option Takeover
  cleanup : Option Cleanup
  file : Option FileFields
  config : Option Config
  wal : Option Wal
  deriving DecidableEq, Repr

inductive Unusable where
  | corrupt (why : Text)
  | incompatible (version : UInt64)
  deriving DecidableEq, Repr

def ofOption {α : Type*} (write : α → Json) : Option α → Json
  | none => .null
  | some a => write a

def RootKind.toJson : RootKind → Json
  | .tree => .str "tree".toList
  | .file => .str "file".toList

def RootKind.ofJson : Json → Option RootKind
  | .str t => if t = "tree".toList then some .tree else if t = "file".toList then some .file else none
  | _ => none

def rootKeys : List String := ["source_root", "source_identity", "destination_prefix", "kind"]

def Root.toJson (r : Root) : Json :=
  .object ([("source_root", .str r.sourceRoot), ("source_identity", .str r.sourceIdentity),
    ("destination_prefix", .str r.destinationPrefix)] ++ r.kind.toList.map fun k => ("kind", k.toJson))

def Root.ofJson : Json → Option Root := Json.record rootKeys fun get => do
  let sourceRoot ← (get "source_root").bind Json.text
  let sourceIdentity ← (get "source_identity").bind Json.text
  let destinationPrefix ← (get "destination_prefix").bind Json.text
  let kind ← Json.optional RootKind.ofJson (get "kind")
  return { sourceRoot, sourceIdentity, destinationPrefix, kind }

def optionKeys : List String :=
  ["preserve_times", "preserve_permissions", "durability", "safety", "existing", "links", "cross_filesystems",
    "exclude", "recursive"]

def Options.toJson (o : Options) : Json :=
  .object ([("preserve_times", .str o.preserveTimes), ("preserve_permissions", .str o.preservePermissions),
    ("durability", .str o.durability), ("safety", .str o.safety), ("existing", .str o.existing)] ++
    (if o.links = "copy".toList then [] else [("links", .str o.links)]) ++
    (if o.crossFilesystems = false then [] else [("cross_filesystems", .bool true)]) ++
    (if o.exclude = [] then [] else [("exclude", .arr (o.exclude.map .str))]) ++
    (if o.recursive then [] else [("recursive", .bool false)]))

def Options.ofJson : Json → Option Options := Json.record optionKeys fun get => do
  let preserveTimes ← (get "preserve_times").bind Json.text
  let preservePermissions ← (get "preserve_permissions").bind Json.text
  let durability ← (get "durability").bind Json.text
  let safety ← (get "safety").bind Json.text
  let existing ← (get "existing").bind Json.text
  let links ← Json.orElse "copy".toList Json.text (get "links")
  let crossFilesystems ← Json.orElse false Json.asBool (get "cross_filesystems")
  let exclude ← Json.orElse [] (Json.list Json.text) (get "exclude")
  let recursive ← Json.orElse true Json.asBool (get "recursive")
  return { preserveTimes, preservePermissions, durability, safety, existing, links, crossFilesystems, exclude,
           recursive }

def takeoverKeys : List String :=
  ["operation_id", "owner_instance_id", "boot_session_id", "last_heartbeat_wall_time", "creation_wall_time"]

def Takeover.toJson (t : Takeover) : Json :=
  .object [("operation_id", .str t.operationId), ("owner_instance_id", .str t.ownerInstanceId),
    ("boot_session_id", .str t.bootSessionId), ("last_heartbeat_wall_time", .str t.lastHeartbeatWallTime),
    ("creation_wall_time", .str t.creationWallTime)]

def Takeover.ofJson : Json → Option Takeover := Json.record takeoverKeys fun get => do
  let operationId ← (get "operation_id").bind Json.text
  let ownerInstanceId ← (get "owner_instance_id").bind Json.text
  let bootSessionId ← (get "boot_session_id").bind Json.text
  let lastHeartbeatWallTime ← (get "last_heartbeat_wall_time").bind Json.text
  let creationWallTime ← (get "creation_wall_time").bind Json.text
  return { operationId, ownerInstanceId, bootSessionId, lastHeartbeatWallTime, creationWallTime }

def Kind.toJson : Kind → Json
  | .tree => .str "tree".toList
  | .file => .str "file".toList

def Kind.ofJson : Json → Option Kind
  | .str t => if t = "tree".toList then some .tree else if t = "file".toList then some .file else none
  | _ => none

def OpState.ofJson : Json → Option OpState
  | .str t => [.created, .transferring, .failed, .completed, .abandoned].find? fun s => s.asStr = t
  | _ => none

def Cleanup.fields (c : Cleanup) : List (String × Json) :=
  [("cleanup_pending", .bool c.cleanupPending),
    ("cleanup_pending_artifacts", .arr (c.cleanupPendingArtifacts.map .str))]

def Cleanup.ofJson : Json → Option Cleanup := Json.record cleanupKeys fun get => do
  let cleanupPending ← (get "cleanup_pending").bind Json.asBool
  let cleanupPendingArtifacts ← (get "cleanup_pending_artifacts").bind (Json.list Json.text)
  return { cleanupPending, cleanupPendingArtifacts }

def FileFields.fields (f : FileFields) : List (String × Json) :=
  [("artifact_type", .str f.artifactType), ("attempt_id", .str f.attemptId),
    ("artifact_generation", .num f.artifactGeneration), ("source_identity", .str f.sourceIdentity),
    ("target_identity", ofOption .str f.targetIdentity), ("target_path_key", .str f.targetPathKey),
    ("owner_instance_id", .str f.ownerInstanceId), ("boot_session_id", .str f.bootSessionId),
    ("creation_wall_time", .str f.creationWallTime), ("last_heartbeat_wall_time", .str f.lastHeartbeatWallTime)]

def FileFields.ofJson : Json → Option FileFields := Json.record fileKeys fun get => do
  let artifactType ← (get "artifact_type").bind Json.text
  let attemptId ← (get "attempt_id").bind Json.text
  let artifactGeneration ← (get "artifact_generation").bind Json.asU64
  let sourceIdentity ← (get "source_identity").bind Json.text
  let targetIdentity ← Json.optional Json.text (get "target_identity")
  let targetPathKey ← (get "target_path_key").bind Json.text
  let ownerInstanceId ← (get "owner_instance_id").bind Json.text
  let bootSessionId ← (get "boot_session_id").bind Json.text
  let creationWallTime ← (get "creation_wall_time").bind Json.text
  let lastHeartbeatWallTime ← (get "last_heartbeat_wall_time").bind Json.text
  return { artifactType, attemptId, artifactGeneration, sourceIdentity, targetIdentity, targetPathKey,
           ownerInstanceId, bootSessionId, creationWallTime, lastHeartbeatWallTime }

def Config.fields (c : Config) : List (String × Json) :=
  [("roots", .arr (c.roots.map Root.toJson)), ("options", c.options.toJson),
    ("configuration_fingerprint", .str c.configurationFingerprint)]

def Config.ofJson : Json → Option Config := Json.record configKeys fun get => do
  let roots ← (get "roots").bind (Json.list Root.ofJson)
  let options ← (get "options").bind Options.ofJson
  let configurationFingerprint ← (get "configuration_fingerprint").bind Json.text
  return { roots, options, configurationFingerprint }

def Wal.fields (w : Wal) : List (String × Json) := [("wal_generation", .num w.walGeneration)]

def Wal.ofJson : Json → Option Wal := Json.record walKeys fun get => do
  let walGeneration ← (get "wal_generation").bind Json.asU64
  return { walGeneration }

def OperationState.fields (s : OperationState) : List (String × Json) :=
  [("format_version", .num s.formatVersion), ("operation_id", .str s.operationId), ("kind", s.kind.toJson),
    ("destination_root", .str s.destinationRoot), ("state", .str s.state.asStr),
    ("superseded_by", ofOption .str s.supersededBy), ("created_at", .str s.createdAt),
    ("takeover", ofOption Takeover.toJson s.takeover)]

def OperationState.ofJson : Json → Option OperationState := Json.record keys fun get => do
  let formatVersion ← (get "format_version").bind Json.asU64
  let operationId ← (get "operation_id").bind Json.text
  let kind ← (get "kind").bind Kind.ofJson
  let destinationRoot ← (get "destination_root").bind Json.text
  let state ← (get "state").bind OpState.ofJson
  let supersededBy ← Json.optional Json.text (get "superseded_by")
  let createdAt ← (get "created_at").bind Json.text
  let takeover ← Json.optional Takeover.ofJson (get "takeover")
  return { formatVersion, operationId, kind, destinationRoot, state, supersededBy, createdAt, takeover,
           cleanup := none, file := none, config := none, wal := none }

def OperationState.members (s : OperationState) : Members :=
  let m := Members.extend [] s.fields
  if s.formatVersion = v1 then m
  else
    let m := m.extend ((s.cleanup.map Cleanup.fields).getD [])
    let m := m.extend ((s.file.map FileFields.fields).getD [])
    let m := m.extend ((s.config.map Config.fields).getD [])
    m.extend ((s.wal.map Wal.fields).getD [])

def idOrUnreadable (t : Text) : Bool := isId t || t = unreadable

def validateTakeover (t : Takeover) : Except Text Unit := do
  check (idOrUnreadable t.operationId ∧ idOrUnreadable t.ownerInstanceId)
    "the takeover's prior holder is neither an id nor unreadable".toList
  check (t.bootSessionId ≠ []) "the takeover's boot_session_id is empty".toList
  check (isDecimal t.lastHeartbeatWallTime ∨ t.lastHeartbeatWallTime = unreadable)
    "the takeover's last_heartbeat_wall_time is not a time".toList
  check (isDecimal t.creationWallTime) "the takeover's creation_wall_time is not a time".toList

def validateRoot (version : UInt64) (r : Root) : Except Text Unit := do
  check (multiRootFormat ≤ version ↔ r.kind.isSome)
    ("root kind does not match format_version ".toList ++ decimal version.toNat ++ ": ".toList ++ r.sourceRoot)
  check (¬ (multiRootFormat ≤ version ∧ r.destinationPrefix = []))
    ("destination_prefix is empty: ".toList ++ r.sourceRoot)
  check (fromNativeHex r.sourceRoot).isSome ("source_root is not native-unit hex: ".toList ++ r.sourceRoot)
  check (parseIdentity r.sourceIdentity).isSome
    ("source_identity is not an identity: ".toList ++ r.sourceIdentity)
  check (r.destinationPrefix = [] ∨ (fromNativeHex r.destinationPrefix).isSome)
    ("destination_prefix is not native-unit hex: ".toList ++ r.destinationPrefix)

def validateCount (version : UInt64) (roots : ℕ) : Except Text Unit :=
  if multiRootFormat ≤ version then
    check (2 ≤ roots) ("roots has ".toList ++ decimal roots ++ " entries, not 2 or more".toList)
  else check (roots = 1) ("roots has ".toList ++ decimal roots ++ " entries, not 1".toList)

def isFingerprint (t : Text) : Bool := t.length = 64 ∧ isHex t

def validateWal (w : Wal) : Except Text Unit := check (w.walGeneration ≠ 0) "wal_generation is 0".toList

def boolText (b : Bool) : Text := if b then "true".toList else "false".toList

def validateCleanup (state : OpState) (c : Cleanup) : Except Text Unit := do
  check (c.cleanupPending = true ↔ state = .completed)
    ("cleanup_pending is ".toList ++ boolText c.cleanupPending ++ " in a ".toList ++ state.asStr ++
      " record".toList)
  checkAll (fun a => check (fromNativeHex a).isSome
    ("a cleanup_pending_artifacts entry is not native-unit hex: ".toList ++ a)) c.cleanupPendingArtifacts

def validateTarget (state : OpState) : Option Text → Except Text Unit
  | some t => check (parseIdentity t).isSome ("target_identity is not an identity: ".toList ++ t)
  | none => check (state ≠ .completed) "a COMPLETED single-file record has no target_identity".toList

def validateFile (state : OpState) (f : FileFields) : Except Text Unit := do
  check (f.artifactType = artifactState)
    ("artifact_type is not ".toList ++ artifactState ++ ": ".toList ++ f.artifactType)
  check (isId f.attemptId ∧ isId f.ownerInstanceId) "attempt_id or owner_instance_id is not an id".toList
  check (f.bootSessionId ≠ []) "boot_session_id is empty".toList
  check (f.artifactGeneration ≠ 0) "artifact_generation is 0".toList
  check (isDecimal f.creationWallTime ∧ isDecimal f.lastHeartbeatWallTime)
    "creation_wall_time or last_heartbeat_wall_time is not decimal nanoseconds".toList
  check (f.targetPathKey ≠ [] ∧ f.targetPathKey.length % 2 = 0 ∧ isHex f.targetPathKey)
    ("target_path_key is not hex: ".toList ++ f.targetPathKey)
  check (parseIdentity f.sourceIdentity).isSome
    ("source_identity is not an identity: ".toList ++ f.sourceIdentity)
  validateTarget state f.targetIdentity

def OperationState.Shaped (s : OperationState) : Prop :=
  (v3 ≤ s.formatVersion ↔ s.config.isSome) ∧ (State.formatVersion ≤ s.formatVersion ↔ s.wal.isSome) ∧
    (v2 ≤ s.formatVersion ↔ s.cleanup.isSome) ∧ (v2 ≤ s.formatVersion ∧ s.kind = .file ↔ s.file.isSome)

instance (s : OperationState) : Decidable s.Shaped := by
  unfold OperationState.Shaped
  infer_instance

variable (lib : Library)

def encode (s : OperationState) : Bytes :=
  if s.formatVersion = v1 then lib.toVecStruct (.obj s.members) else lib.toVec (.obj s.members)

def debugList (set : List Text) : Text := '[' :: ", ".toList.intercalate (set.map lib.debug) ++ [']']

def oneOf (name : String) (v : Text) (set : List String) : Except Text Unit :=
  check (v ∈ set.map String.toList)
    (name.toList ++ " is not one of ".toList ++ debugList lib (set.map String.toList) ++ ": ".toList ++ v)

def validateExclude (o : Options) : Except Text Unit := do
  check (o.exclude.IsChain (· < ·)) "exclude is not strictly sorted".toList
  match Selection.compile o.exclude o.recursive with
  | .ok _ => .ok ()
  | .error e => .error ("exclude is not a valid selection: ".toList ++ e.text lib.debug lib.debugChar)

def validateOptions (o : Options) : Except Text Unit := do
  oneOf lib "preserve_times" o.preserveTimes ["off", "default", "strict"]
  oneOf lib "preserve_permissions" o.preservePermissions ["off", "default", "strict"]
  oneOf lib "durability" o.durability ["normal", "strict"]
  oneOf lib "safety" o.safety ["default", "strict"]
  oneOf lib "existing" o.existing ["overwrite", "update", "skip-existing"]
  oneOf lib "links" o.links ["copy", "skip"]
  validateExclude lib o

def validateConfig (version : UInt64) (c : Config) : Except Text Unit := do
  validateCount version c.roots.length
  checkAll (validateRoot version) c.roots
  validateOptions lib c.options
  check (isFingerprint c.configurationFingerprint)
    ("configuration_fingerprint is not 64 lowercase hex: ".toList ++ c.configurationFingerprint)

def validate (s : OperationState) : Except Text Unit := do
  check (isId s.operationId) ("operation_id is not an id: ".toList ++ s.operationId)
  checkSome (fun b => check (isId b) ("superseded_by is not an id: ".toList ++ b)) s.supersededBy
  check (isDecimal s.createdAt) ("created_at is not decimal nanoseconds: ".toList ++ s.createdAt)
  checkSome validateTakeover s.takeover
  check s.Shaped "the record's fields do not match its version and kind".toList
  checkSome (validateConfig lib s.formatVersion) s.config
  checkSome validateWal s.wal
  checkSome (validateCleanup s.state) s.cleanup
  checkSome (validateFile s.state) s.file

def known (version : UInt64) : Bool := version ∈ [v1, v2, v3, formatVersion, multiRootFormat]

def expectedKeys (version : UInt64) (file : Bool) : List String :=
  keys ++ (if v2 ≤ version then cleanupKeys else []) ++ (if file then fileKeys else []) ++
    (if v3 ≤ version then configKeys else []) ++ (if formatVersion ≤ version then walKeys else [])

def part {α : Type} (name : String) (present : Bool) (partKeys : List String)
    (read : Json → Option α) (m : Members) :
    Except Unusable (Option α × Members) :=
  if present then
    match read (.obj (m.pick partKeys)) with
    | some a => .ok (some a, m.erase partKeys)
    | none => .error (.corrupt ("malformed: ".toList ++ lib.explain name (.obj (m.pick partKeys))))
  else .ok (none, m)

def readVersion (m : Members) : Except Unusable UInt64 :=
  match m.get "format_version" with
  | some (.num n) => .ok n
  | some v => .error (.corrupt ("format_version is not a whole number: ".toList ++ lib.display v))
  | none => .error (.corrupt "no format_version".toList)

def checkKeys (expected : List String) (m : Members) : Except Unusable Unit :=
  match (m.map Prod.fst).find? (· ∉ expected) with
  | some key => .error (.corrupt ("unknown key ".toList ++ key.toList))
  | none =>
    match expected.find? fun k => (m.get k).isNone with
    | some key => .error (.corrupt ("missing key ".toList ++ key.toList))
    | none => .ok ()

def readBase (m : Members) : Except Unusable OperationState :=
  match OperationState.ofJson (.obj m) with
  | some s => .ok s
  | none => .error (.corrupt ("malformed: ".toList ++ lib.explain "OperationState" (.obj m)))

def decodeMembers (m : Members) : Except Unusable OperationState := do
  let version ← readVersion lib m
  check (known version) (.incompatible version)
  let file : Bool := v2 ≤ version ∧ (m.get "kind").bind Json.text = some "file".toList
  checkKeys (expectedKeys version file) m
  let (cleanup, m) ← part lib "Cleanup" (v2 ≤ version) cleanupKeys Cleanup.ofJson m
  let (fields, m) ← part lib "FileFields" file fileKeys FileFields.ofJson m
  let (config, m) ← part lib "Config" (v3 ≤ version) configKeys Config.ofJson m
  let (wal, m) ← part lib "Wal" (formatVersion ≤ version) walKeys Wal.ofJson m
  let state ← readBase lib m
  let state := { state with cleanup := cleanup, file := fields, config := config, wal := wal }
  match validate lib state with
  | .ok () => return state
  | .error e => throw (.corrupt e)

def decode (bytes : Bytes) : Except Unusable OperationState :=
  if bytes.length > stateLimit then .error (.corrupt ("longer than ".toList ++ decimal stateLimit ++
    " bytes".toList))
  else
    match lib.fromSlice bytes with
    | .error e => .error (.corrupt ("not JSON: ".toList ++ e))
    | .ok (.obj m) => decodeMembers lib m
    | .ok _ => .error (.corrupt "not a JSON object".toList)

end Flux.State
