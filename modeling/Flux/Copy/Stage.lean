import Flux.Copy.Decide

/-! `stage_file`: everything up to the publishing rename. -/

namespace Flux.Copy

open Base Wal

def copyBufMax : ℕ := 256 * 1024

def copyBufMin : ℕ := 4 * 1024

def copyBufferLen (srcLen : ℕ) : ℕ := max copyBufMin (min srcLen copyBufMax)

def copyCode (e : IoError) : Code :=
  match FsError.classify e with
  | .ioError => .copyFailed
  | classified => classified

inductive ResumeVerify where
  | chunks | full
  deriving DecidableEq, Repr

inductive Hook where
  | logged (minLen : ℕ) (durability : Durability) (verify : ResumeVerify)
    (load : Except WalError (Option FileState))
  | logFree (minLen : ℕ)

def Hook.minLen : Hook → ℕ
  | .logged n _ _ _ => n
  | .logFree n => n

inductive SyncAt where
  | staging | barrier
  deriving DecidableEq, Repr

/-- One call of `stage_file`: its arguments, the files they name as it first finds them, the name as text, the
identity an exclusive create would give, and whether there is a second CPU and a thread to spawn on it. -/
structure Job where
  blake3 : Bytes → Digest
  source : Source
  existing : Option Metadata
  name : Bytes
  nameText : String
  opts : CopyOptions
  sync : SyncAt
  hook : Option Hook
  created : FileIdentity
  parallel : Bool
  spawns : Bool

def Job.temp (job : Job) : Bytes := tempName job.name job.opts.operationId

def Job.checkpointed (job : Job) : Option Hook := job.hook.filter fun h => h.minLen ≤ job.source.bytes.length

def atStep {α : Type} (step : CopyStep) (x : M FsError α) : M CopyError α := x.mapFailure (CopyError.atStep step)

def discard {ε : Type} (job : Job) (step : CopyStep) (code : Code) (source : IoError) : M ε CopyError := do
  match ← guard.attempt with
  | .error lost => return ⟨⟨code, source⟩, some (job.temp, lost.source), step⟩
  | .ok () =>
    match ← removeTemp.attempt with
    | .ok () => return .atStep step ⟨code, source⟩
    | .error why =>
      if isNotFound why then return .atStep step ⟨code, source⟩
      else return ⟨⟨code, source⟩, some (job.temp, why.source), step⟩

def discarding {α : Type} (job : Job) (step : CopyStep) (code : Code) (source : IoError) : M CopyError α := do
  throw (← discard job step code source)

def weaker : FileIdentity → FileIdentity → FileIdentity
  | .unavailable, _ => .unavailable
  | _, .unavailable => .unavailable
  | _, .weak d => .weak d
  | s, _ => s

structure GateRead where
  degraded : Option FileIdentity
  existing : Option Metadata

def safetyRejected (why : String) : CopyError := .atStep .gate ⟨.safetyRejected, .other why⟩

def degraded (safety : Safety) (weaker : FileIdentity) : Except CopyError (Option FileIdentity) :=
  match safety with
  | .default => .ok (some weaker)
  | .strict => .error
      (safetyRejected "the destination exists and its identity cannot be compared with full confidence")

def judgeDestination (src : Metadata) (opts : CopyOptions) : Except FsError Metadata → Except CopyError GateRead
  | .error e =>
    if isNotFound e then .ok ⟨none, none⟩
    else (degraded opts.safety .unavailable).map fun d => ⟨d, none⟩
  | .ok m =>
    if m.fileType = .dir then .error (safetyRejected "the destination is a directory")
    else do
      let verdict ← match src.identity, m.identity with
        | .strong a, .strong b =>
          if a = b then .error (safetyRejected "the destination is the source itself, by identity") else .ok none
        | s, d => degraded opts.safety (weaker s d)
      if opts.publish = .noReplace then
        .error (.atStep .gate
          ⟨.ioError, ⟨.alreadyExists, none, "the destination exists and this publish never replaces"⟩⟩)
      else .ok ⟨verdict, some m⟩

def identityGate (job : Job) : M CopyError GateRead := do
  let found ← (do
    fsCall .metadataName
    match job.existing with
    | none => throw notFound
    | some m => pure m).attempt
  match judgeDestination job.source.metadata job.opts found with
  | .ok g => pure g
  | .error e => throw e

inductive SkipReason where
  | existing | upToDate
  deriving DecidableEq, Repr

inductive FilePlan where
  | proceed (srcMeta : Metadata) (degraded : Option FileIdentity) (replaces : Bool)
  | skip (reason : SkipReason) (degraded : Option FileIdentity)

def skipExisting (policy : ExistingPolicy) (src dest : Metadata) : Option SkipReason :=
  match policy with
  | .overwrite => none
  | .skipExisting => some .existing
  | .update =>
    let newer : Bool := match src.modified, dest.modified with
      | some s, some d => Decidable.decide (s > d)
      | _, _ => false
    if src.len ≠ dest.len ∨ newer then none else some .upToDate

def planFile (job : Job) : M CopyError FilePlan := do
  atStep .source (fsCall .metadataSource)
  let srcMeta := job.source.metadata
  onlyIf (srcMeta.fileType ≠ .file)
    (throw (.atStep .source ⟨.specialFileUnsupported, .other "not a regular file"⟩))
  let gate ← identityGate job
  match gate.existing.bind (skipExisting job.opts.existing srcMeta) with
  | some reason => return .skip reason gate.degraded
  | none => return .proceed srcMeta gate.degraded gate.existing.isSome

def mtimePair (t : SystemTime) : Int64 × UInt32 :=
  let secs (d : ℕ) : ℤ := min (d / 10 ^ 9) Int64.maxValue.toInt
  if 0 ≤ t then (Int64.ofInt (secs t.toNat), UInt32.ofNat (t.toNat % 10 ^ 9))
  else
    let d := (-t).toNat
    match d % 10 ^ 9 with
    | 0 => (Int64.ofInt (-secs d), 0)
    | n => (Int64.ofInt (-secs d - 1), UInt32.ofNat (10 ^ 9 - n))

def walErrorText : WalError → String
  | .corrupt offset why => s!"corrupt log at byte {offset}: {why}"
  | .sequenceConflict generation sequence =>
    s!"generation {generation}, sequence {sequence} conflicts with the records already in the log"
  | .unsupported format checksum => s!"unsupported log format {format} (checksum {checksum})"
  | .io e => e.text

def unreadable (why : String) : Verdict × Option FileIdentity := (.fresh (some (.unreadable why)), none)

def judgePartial : Except FsError Entry → Except String (Option Entry)
  | .ok m =>
    if m.fileType = .file ∧ m.identity = .unavailable then .error "the partial's identity is unavailable"
    else if m.fileType = .file ∧ m.nlink ≠ some 1 then .error "the partial has more than one link"
    else if m.fileType = .file then .ok (some m)
    else .error ("the partial is not a regular file (" ++ m.fileType.debug ++ ")")
  | .error e => if isNotFound e then .ok none else .error ("the partial's metadata: " ++ e.source.message)

def openPartial {ε : Type} : Option Entry → M ε (Except String (Option Input))
  | none => return .ok none
  | some _ => do
    match ← openTemp.attempt with
    | .ok r => return .ok (some r)
    | .error e =>
      if isNotFound e then return .ok none
      else return .error ("the partial cannot be read: " ++ e.source.message)

def decideFailure : DecideFail → CopyError
  | .beat e => .atStep .heartbeat e
  | .source e => .atStep .source e

/-- `plan_resume` once it knows the log's state for the file (`some` exactly under `chunks`) and why a missing
partial is to be reported. -/
def planWith (job : Job) (state : Option FileState) (missing : Option Discard) :
    M CopyError (Verdict × Option FileIdentity) := do
  match judgePartial (← metadataTemp.attempt) with
  | .error why => return unreadable why
  | .ok partialMeta =>
    match ← openPartial partialMeta with
    | .error why => return unreadable why
    | .ok reader =>
      let partialLen := reader.bind fun _ => partialMeta.map fun m => m.bytes.length
      let src := job.source.metadata
      let gate : Gate := ⟨src.len, src.modified.map mtimePair, (identityText src.identity).map fun c =>
        UInt8.ofNat c.toNat⟩
      match state, partialLen, reader with
      | some state, partialLen, reader =>
        let v ← (decide job.blake3 state gate partialLen reader).mapFailure decideFailure
        return (v, partialMeta.map Entry.identity)
      | none, some len, some r =>
        let v ← (decideFull job.blake3 src.len len r).mapFailure decideFailure
        return (v, partialMeta.map Entry.identity)
      | none, _, _ => return (.fresh missing, none)

def planResume (job : Job) : Hook → M CopyError (Verdict × Option FileIdentity)
  | .logged _ _ .chunks load =>
    match load with
    | .ok (some state) => planWith job (some state) none
    | .ok none => return (.fresh none, none)
    | .error e => return unreadable (walErrorText e)
  | .logged _ _ .full load =>
    planWith job none (match load with
      | .ok (some _) => some .partialMissing
      | _ => none)
  | .logFree _ => planWith job none none

def poolSize : ℕ := 4

def FileSink.begin (job : Job) (durability : Durability) : M SinkError Unit := do
  sinkCall
  let hashing := if durability = .normal ∧ job.parallel then .pending else .inline
  setFiles fun f => { f with sink := some ⟨hashing, false⟩ }

def Hashing.settle (spawns : Bool) (buf : ℕ) : Hashing → Hashing
  | .pending => if spawns then .worker (List.replicate (poolSize - 1) buf) else .inline
  | h => h

def Hashing.submit (buf : ℕ) : Hashing → ℕ × Hashing
  | .worker pool => ((pool ++ [buf]).headD buf, .worker (pool ++ [buf]).tail)
  | h => (buf, h)

def submit (job : Job) (buf : ℕ) : M SinkError ℕ := do
  match (← get).files.sink with
  | none => pure buf
  | some s =>
    sinkCall
    let (next, hashing) := (s.hashing.settle job.spawns buf).submit buf
    setFiles fun f => { f with sink := some { s with hashing := hashing } }
    return next

def ifSink (x : M SinkError Unit) : M SinkError Unit := do
  match (← get).files.sink with
  | none => pure ()
  | some _ => x

def endSink {ε : Type} : M ε Unit :=
  setFiles fun f => { f with sink := f.sink.map fun s => { s with ended := true } }

def complete : M SinkError Unit := ifSink do
  endSink
  sinkCall

def abort {ε : Type} : M ε Unit := do
  match (← get).files.sink with
  | some ⟨_, false⟩ =>
    endSink
    let _ ← sinkCall.attempt
  | _ => pure ()

inductive StreamFail where
  | discard (step : CopyStep) (code : Code) (source : IoError)
  | keep (e : CopyError)

def walKept (name : String) (f : WalFault) : CopyError :=
  ⟨⟨.walWriteFailed, .other ("checkpoints for " ++ name ++ " could not be written (" ++ f.message ++
    "); resume state is NOT trustworthy for this file")⟩, none, .checkpoint⟩

def sinkFail (name : String) : SinkError → StreamFail
  | .heartbeat e => .discard .heartbeat e.code e.source
  | .data f => .discard .durability .strictDurabilityUnavailable ⟨f.kind, none, f.message⟩
  | .wal f => .keep (walKept name f)

def streamFailure (e : FsError) : StreamFail := .discard .stream (copyCode e.source) e.source

def beatFailure (e : FsError) : StreamFail := .discard .heartbeat e.code e.source

def interrupted : IoError := ⟨.interrupted, some 4, "Interrupted system call (os error 4)"⟩

def readOnce (buf : ℕ) : M StreamFail Bytes := do
  let (got, r) := (← get).files.source.once buf
  setFiles fun f => { f with source := r }
  match got with
  | .ok bs => return bs
  | .error e => throw (.discard .stream (copyCode (e.getD interrupted)) (e.getD interrupted))

def copyLoop (job : Job) : ℕ → ℕ → ℕ → M StreamFail ℕ
  | 0, _, copied => pure copied
  | fuel + 1, buf, copied => do
    match ← readOnce buf with
    | [] => pure copied
    | bs => do
      feed bs
      (writeAll bs).mapFailure streamFailure
      let buf ← (submit job buf).mapFailure (sinkFail job.nameText)
      beat.mapFailure beatFailure
      copyLoop job fuel buf (copied + bs.length)

def beginSink (job : Job) (proven : List Digest) : M StreamFail Unit :=
  match job.checkpointed with
  | some (.logged _ durability _ _) => do
    onlyIf (durability = .strict)
      ((fsCall .duplicate).mapFailure fun e => .discard .durability .strictDurabilityUnavailable e.source)
    (FileSink.begin job durability).mapFailure (sinkFail job.nameText)
    onlyIf (proven ≠ []) ((ifSink sinkCall).mapFailure (sinkFail job.nameText))
  | _ => pure ()

def writeCarry (job : Job) (carry : Bytes) : M StreamFail Unit :=
  if carry = [] then pure ()
  else do
    feed carry
    (writeAll carry).mapFailure streamFailure
    (ifSink sinkCall).mapFailure (sinkFail job.nameText)

def streamBytes (job : Job) (verdict : Verdict) : M StreamFail ℕ := do
  beginSink job verdict.proven
  writeCarry job verdict.carry
  let copied ← copyLoop job (job.source.bytes.length + 1) (copyBufferLen job.source.bytes.length)
    verdict.carry.length
  complete.mapFailure (sinkFail job.nameText)
  return copied

def stream (job : Job) (verdict : Verdict) : M CopyError ℕ := do
  match ← (streamBytes job verdict).attempt with
  | .ok copied => pure copied
  | .error fail =>
    abort
    match fail with
    | .keep e => throw e
    | .discard step code source => discarding job step code source

def sweep (step : CopyStep) : M CopyError Unit := do
  atStep step guard
  let _ ← removeTemp.attempt

def openWriter (job : Job) : Start → Option FileIdentity → M CopyError ℕ
  | .resume offset, some identity => do
    atStep .create guard
    atStep .create (openExisting identity)
    atStep .create (truncateTo offset)
    return offset
  | .resume _, none => throw (.atStep .create (invalidInput "a resume is decided only over an existing partial"))
  | .fresh, _ => do
    onlyIf job.hook.isSome (sweep .create)
    atStep .create (createNew job.created)
    return 0

def sourceNow {ε : Type} (job : Job) : M ε Source := do
  let w ← get
  match w.sources with
  | [] => pure job.source
  | s :: ss =>
    set { w with sources := ss }
    pure s

def recheckSource (job : Job) (srcMeta : Metadata) : M CopyError Unit := do
  match ← (fsCall .metadataSource).attempt with
  | .error e =>
    if isNotFound e then
      discarding job .recheck .sourceChanged (.other "source disappeared during the copy")
    else discarding job .recheck e.code e.source
  | .ok () =>
    let now := (← sourceNow job).metadata
    onlyIf (now.len ≠ srcMeta.len ∨ now.modified ≠ srcMeta.modified)
      (discarding job .recheck .sourceChanged (.other "source changed"))

def openSource (job : Job) : M FsError Input := do
  fsCall .openSource
  return ⟨job.source.bytes, ← nextSchedule⟩

def reopenSource (job : Job) : M FsError Input := do
  fsCall .openSource
  let now ← sourceNow job
  return ⟨now.bytes, ← nextSchedule⟩

inductive ReadFail where
  | beat (e : FsError)
  | read (e : IoError)

def hashLoop (buf : ℕ) : ℕ → Input → Bytes → M ReadFail Bytes
  | 0, _, seen => pure seen
  | fuel + 1, r, seen =>
    match r.read buf with
    | .error e => throw (.read e)
    | .ok ([], _) => pure seen
    | .ok (bs, r') => do
      beat.mapFailure .beat
      hashLoop buf fuel r' (seen ++ bs)

def hashStream (job : Job) (r : Input) : M ReadFail (Digest × ℕ) := do
  let seen ← hashLoop (copyBufferLen job.source.bytes.length) (r.rest.length + 1) r []
  return (job.blake3 seen, seen.length)

def discardReadFail {α : Type} (job : Job) : ReadFail → M CopyError α
  | .beat e => discarding job .heartbeat e.code e.source
  | .read e => discarding job .verify (copyCode e) e

def rehash (job : Job) (opening : M FsError Input) : M CopyError (Digest × ℕ) := do
  match ← opening.attempt with
  | .error e => discarding job .verify e.code e.source
  | .ok r =>
    match ← (hashStream job r).attempt with
    | .error fail => discardReadFail job fail
    | .ok v => pure v

def destinationDiffers (streamed len : ℕ) : IoError := .other <|
  s!"destination bytes differ from the source stream (source stream {streamed} bytes, " ++
    s!"destination re-read {len} bytes)"

def sourceDiffers (streamed len : ℕ) : IoError := .other <|
  s!"source bytes differ between the copy and the second read (first read {streamed} bytes, " ++
    s!"second read {len} bytes)"

def verify (job : Job) (srcMeta : Metadata) (streamed : ℕ) : M CopyError Bool := do
  match job.opts.verify, (← get).files.hasher with
  | .none, _ | .sourceStream, _ | _, none => pure false
  | level, some fed => do
    recheckSource job srcMeta
    let (digest, len) ← rehash job openTemp
    if digest ≠ job.blake3 fed then
      discarding job .verify .verifyMismatch (destinationDiffers streamed len)
    else if level = .full then do
      let (again, len) ← rehash job (reopenSource job)
      if again ≠ job.blake3 fed then
        discarding job .verify .verifyMismatch (sourceDiffers streamed len)
      else pure true
    else pure true

def applyItem (job : Job) (preserve : Preserve) (item : MetadataItem) (c : Call) :
    M CopyError (List MetadataFailure) :=
  if preserve = .off then pure []
  else do
    match ← (fsCall c).attempt with
    | .ok () => pure []
    | .error e =>
      if preserve = .strict then discarding job .metadata .metadataApplyFailed e.source
      else pure [⟨item, e⟩]

def syncStaged (job : Job) : M CopyError Unit :=
  if job.sync = .staging ∧ job.opts.durability = .strict then do
    match ← (fsCall .syncAll).attempt with
    | .ok () => pure ()
    | .error e => discarding job .durability .strictDurabilityUnavailable e.source
  else pure ()

def writerIdentity {ε : Type} : M ε FileIdentity := do
  match ← (fsCall .identity).attempt, (← get).files.temp with
  | .ok (), some e => pure e.identity
  | _, _ => pure .unavailable

structure Staged where
  temp : Bytes
  identity : FileIdentity
  bytesCopied : ℕ
  metadataFailures : List MetadataFailure
  identityDegraded : Option FileIdentity
  writer : Bool
  reused : ℕ
  discard : Option Discard
  verified : Bool

structure Outcome where
  bytesCopied : ℕ
  metadataFailures : List MetadataFailure
  identityDegraded : Option FileIdentity
  publishedIdentity : FileIdentity
  skipped : Bool
  verified : Bool

inductive Stage where
  | skipped (o : Outcome)
  | staged (s : Staged)

def planStart (job : Job) : M CopyError (Verdict × Option FileIdentity) :=
  match job.checkpointed with
  | some hook => planResume job hook
  | none => pure (.fresh none, none)

def stageProceed (job : Job) (srcMeta : Metadata) (degraded : Option FileIdentity) : M CopyError Stage := do
  let reader ← atStep .source (openSource job)
  setFiles fun f => { f with source := reader }
  atStep .heartbeat beat
  atStep .create guard
  atStep .claim (fsCall .beforeCreate)
  setFiles fun f => { f with hasher := if job.opts.verify = .none then none else some [], sink := none }
  let (verdict, identity) ← planStart job
  let reused ← openWriter job verdict.start identity
  let copied ← stream job verdict
  let verified ← verify job srcMeta (reused + copied)
  let times ← applyItem job job.opts.preserveTimes .times .setTimes
  let permissions ← applyItem job job.opts.preservePermissions .permissions .setPermissions
  syncStaged job
  recheckSource job srcMeta
  let identity ← writerIdentity
  return .staged ⟨job.temp, identity, copied, times ++ permissions, degraded, job.sync = .barrier, reused,
    verdict.discard, verified⟩

def stageFile (job : Job) : M CopyError Stage := do
  atStep .heartbeat beat
  atStep .create guard
  onlyIf job.hook.isNone do
    let _ ← removeTemp.attempt
  match ← planFile job with
  | .skip _ degraded =>
    onlyIf job.hook.isSome (sweep .create)
    return .skipped ⟨0, [], degraded, .unavailable, true, false⟩
  | .proceed srcMeta degraded _ => stageProceed job srcMeta degraded

end Flux.Copy
