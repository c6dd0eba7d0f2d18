import Flux.Base.Text

namespace Flux

open Base

inductive Code where
  | copyFailed | metadataApplyFailed | diskFull | permissionDenied | sourceChanged | verifyMismatch
  | strictDurabilityUnavailable | specialFileUnsupported | safetyRejected | directoryChangedDuringScan
  | noReplacePublishUnavailable | destinationNamespaceCollision | destinationError
  | symlinkCreationUnavailable | ioError | targetLockBusy | controlPlaneNamespaceConflict | stateCorrupt
  | incompatibleState | walWriteFailed | walFormatUnsupported | hardlinkUnavailable
  | hardlinkIdentityUnavailable | blockedByCanonicalFailure
  deriving DecidableEq, Repr

inductive ErrorKind where
  | notFound | permissionDenied | alreadyExists | invalidInput | invalidData | unsupported | notADirectory
  | isADirectory | directoryNotEmpty | interrupted | writeZero | brokenPipe | other
  deriving DecidableEq, Repr

structure IoError where
  kind : ErrorKind
  rawOsError : Option ℕ
  message : String
  deriving DecidableEq, Repr

structure FsError where
  code : Code
  source : IoError
  deriving DecidableEq, Repr

def enospcRaw : ℕ := 28

def FsError.classify (source : IoError) : Code :=
  if source.rawOsError = some enospcRaw then .diskFull
  else if source.kind = .permissionDenied then .permissionDenied
  else .ioError

def FsError.fromIo (source : IoError) : FsError := ⟨FsError.classify source, source⟩

def Code.asStr : Code → String
  | .copyFailed => "COPY_FAILED"
  | .metadataApplyFailed => "METADATA_APPLY_FAILED"
  | .diskFull => "DISK_FULL"
  | .permissionDenied => "PERMISSION_DENIED"
  | .sourceChanged => "SOURCE_CHANGED"
  | .verifyMismatch => "VERIFY_MISMATCH"
  | .strictDurabilityUnavailable => "STRICT_DURABILITY_UNAVAILABLE"
  | .specialFileUnsupported => "SPECIAL_FILE_UNSUPPORTED"
  | .safetyRejected => "SAFETY_REJECTED"
  | .directoryChangedDuringScan => "DIRECTORY_CHANGED_DURING_SCAN"
  | .noReplacePublishUnavailable => "NOREPLACE_PUBLISH_UNAVAILABLE"
  | .destinationNamespaceCollision => "DESTINATION_NAMESPACE_COLLISION"
  | .destinationError => "DESTINATION_ERROR"
  | .symlinkCreationUnavailable => "SYMLINK_CREATION_UNAVAILABLE"
  | .ioError => "IO_ERROR"
  | .targetLockBusy => "TARGET_LOCK_BUSY"
  | .controlPlaneNamespaceConflict => "CONTROL_PLANE_NAMESPACE_CONFLICT"
  | .stateCorrupt => "STATE_CORRUPT"
  | .incompatibleState => "INCOMPATIBLE_STATE"
  | .walWriteFailed => "WAL_WRITE_FAILED"
  | .walFormatUnsupported => "WAL_FORMAT_UNSUPPORTED"
  | .hardlinkUnavailable => "HARDLINK_UNAVAILABLE"
  | .hardlinkIdentityUnavailable => "HARDLINK_IDENTITY_UNAVAILABLE"
  | .blockedByCanonicalFailure => "BLOCKED_BY_CANONICAL_FAILURE"

def FsError.text (e : FsError) : String := e.code.asStr ++ ": " ++ e.source.message

def notFound : FsError := .fromIo ⟨.notFound, some 2, "No such file or directory (os error 2)"⟩

def alreadyExists : FsError := .fromIo ⟨.alreadyExists, some 17, "File exists (os error 17)"⟩

def isNotFound (e : FsError) : Bool := e.source.kind = .notFound

def invalidInput (why : String) : FsError := ⟨.destinationError, ⟨.invalidInput, none, why⟩⟩

def IoError.other (message : String) : IoError := ⟨.other, none, message⟩

structure ObjectId where
  volume : UInt64
  index : BitVec 128
  deriving DecidableEq, Repr

inductive FileIdentity where
  | strong (id : ObjectId)
  | weak (id : ObjectId)
  | unavailable
  deriving DecidableEq, Repr

def identityText : FileIdentity → Text
  | .strong o => "strong".toList ++ ':' :: (decimal o.volume.toNat ++ ':' :: decimal o.index.toNat)
  | .weak o => "weak".toList ++ ':' :: (decimal o.volume.toNat ++ ':' :: decimal o.index.toNat)
  | .unavailable => "unavailable".toList

inductive FileType where
  | file | dir | symlink | other
  deriving DecidableEq, Repr

def FileType.debug : FileType → String
  | .file => "File"
  | .dir => "Dir"
  | .symlink => "Symlink"
  | .other => "Other"

abbrev SystemTime := ℤ

structure Metadata where
  len : ℕ
  fileType : FileType
  permissions : Option ℕ
  modified : Option SystemTime
  identity : FileIdentity
  nlink : Option ℕ
  deriving DecidableEq, Repr

structure DirEntry where
  name : Bytes
  fileType : FileType
  ino : Option UInt64
  deriving DecidableEq, Repr

end Flux
