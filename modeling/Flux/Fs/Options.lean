import Flux.Fs.Types
import Flux.Fs.Select

namespace Flux

open Base

inductive Preserve where
  | strict | default | off
  deriving DecidableEq, Repr

inductive Durability where
  | normal | strict
  deriving DecidableEq, Repr

inductive Publish where
  | replace | noReplace
  deriving DecidableEq, Repr

inductive MetadataItem where
  | times | permissions
  deriving DecidableEq, Repr

inductive Safety where
  | default | strict
  deriving DecidableEq, Repr

inductive ExistingPolicy where
  | overwrite | update | skipExisting
  deriving DecidableEq, Repr

inductive Links where
  | copy | skip
  deriving DecidableEq, Repr

inductive VerifyLevel where
  | none | sourceStream | destination | full
  deriving DecidableEq, Repr

structure CopyOptions where
  preserveTimes : Preserve
  preservePermissions : Preserve
  durability : Durability
  publish : Publish
  safety : Safety
  operationId : Bytes
  existing : ExistingPolicy
  links : Links
  crossFilesystems : Bool
  verify : VerifyLevel
  selection : Selection
  deriving DecidableEq

structure MetadataFailure where
  item : MetadataItem
  error : FsError
  deriving DecidableEq, Repr

def tempName (name operationId : Bytes) : Bytes := name ++ ".flux-partial.".toUTF8.toList ++ operationId

end Flux
