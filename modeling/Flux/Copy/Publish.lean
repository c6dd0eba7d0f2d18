import Flux.Copy.Stage

namespace Flux.Copy

open Base Wal

def isADirectory : FsError := .fromIo ⟨.isADirectory, some 21, "Is a directory (os error 21)"⟩

def rename (publish : Publish) : M FsError Unit :=
  perform .rename fun w =>
    match w.files.temp with
    | none => .error notFound
    | some e =>
      if publish = .noReplace ∧ w.dest.isSome then .error alreadyExists
      else if w.dest.any fun d => d.fileType = .dir then .error isADirectory
      else .ok { w with files.temp := none, dest := some e }

def keptUnlocked : IoError := .other "kept: this run no longer holds the destination's lock"

def publishStaged (job : Job) (s : Staged) : M CopyError Outcome := do
  match ← beat.attempt with
  | .error e => discarding job .heartbeat e.code e.source
  | .ok () =>
    match ← guard.attempt with
    | .error lost => throw { CopyError.atStep .publish lost with leftover := some (s.temp, keptUnlocked) }
    | .ok () =>
      match ← (rename job.opts.publish).attempt with
      | .error e => discarding job .publish e.code e.source
      | .ok () => return ⟨s.bytesCopied, s.metadataFailures, s.identityDegraded, s.identity, false, s.verified⟩

structure Reuse where
  reused : ℕ
  discard : Option Discard

def Reuse.take (s : Staged) : Reuse := ⟨s.reused, s.discard⟩

def refusePublish {α : Type} (job : Job) (e : CopyError) : M CopyError α := do
  let out ← discard job e.step e.cause.code e.cause.source
  throw (if out.leftover.isNone then { out with leftover := e.leftover } else out)

def copyFileCheckpointed (job : Job) (refusal : FsError → CopyError) : M CopyError (Outcome × Reuse) := do
  match ← stageFile { job with sync := .staging } with
  | .skipped outcome => return (outcome, ⟨0, none⟩)
  | .staged s =>
    match ← (fsCall .beforePublish).attempt with
    | .error e => refusePublish job (refusal e)
    | .ok () =>
      let outcome ← publishStaged job s
      return (outcome, .take s)

def stageThenPublish (job : Job) : M CopyError Outcome := do
  match ← stageFile job with
  | .skipped outcome => return outcome
  | .staged s => publishStaged job s

end Flux.Copy
