import Flux.Checkpoint.Hashing

/-! The hashing worker: the copy thread, the worker and the channels between them, one step at a time. -/

namespace Flux.Checkpoint

open Base Wal Copy

def pool : ℕ := 4

structure Job where
  buf : ℕ
  data : Bytes

inductive Ending where
  | abort
  | drop
  | lost (e : FsError)

inductive MainAt where
  | holding
  | checking (data : Bytes)
  | checkingWorker (data : Bytes)
  | queueing (data : Bytes)
  | waitingFree
  | beating
  | rechecking
  | recheckingWorker
  | failed (e : SinkError)
  | finishing
  | finishBeating
  | reaping (r : Option (Except WalFault Hashes))
  | completing (h : Hashes)
  | closing
  | closed
  | ended (e : SinkError)
  | cancelling (why : Ending)
  | hangingUp (why : Ending)
  | awaiting (why : Ending)
  | awaitBeating (why : Ending)
  | joining (why : Ending)
  | discarding
  | over

/-- Where the worker stands, with the hashing state it owns. `leaving` is the end of its thread, by whatever
way, with its ends of the channels still to be dropped. -/
inductive WorkerAt where
  | top (h : Hashes)
  | receiving (h : Hashes)
  | got (h : Hashes) (job : Job)
  | returning (h : Hashes) (buf : ℕ) (done : List (ℕ × Digest))
  | looping (h : Hashes) (done : List (ℕ × Digest))
  | sending (h : Hashes) (r : Wal.Range) (done : List (ℕ × Digest))
  | attempting (h : Hashes) (r : Wal.Range) (done : List (ℕ × Digest))
  | retrying (h : Hashes) (r : Wal.Range) (done : List (ℕ × Digest))
  | asking (h : Hashes) (done : List (ℕ × Digest))
  | recording (f : WalFault)
  | reporting (r : Except WalFault Hashes)
  | leaving
  | over

/-- The last two fields record which buffers were submitted and which were hashed, in this order. -/
structure Pipeline (Dup : Type) where
  main : MainAt
  worker : WorkerAt
  caller : Option ℕ
  jobs : List Job
  free : List ℕ
  result : Option (Except WalFault Hashes)
  submitOpen : Bool
  receives : Bool
  returns : Bool
  reports : Bool
  cancel : Bool
  faulted : Option WalFault
  walFault : Option WalFault
  sent : List (Msg Dup)
  submitted : List Bytes
  hashed : List Bytes

def workerStopped : WalFault := ⟨.walWriteFailed, .brokenPipe, none, "the checkpoint hashing worker stopped"⟩

def writerGone : WalFault := ⟨.walWriteFailed, .brokenPipe, none, "the WAL writer thread is gone"⟩

variable {Dup : Type}

def Pipeline.workerGone (s : Pipeline Dup) : WalFault := (s.walFault.orElse fun _ => s.faulted).getD workerStopped

section Steps

variable (blake3 : Bytes → Digest) (fileId : Bytes) (perRange : ℕ)

inductive MainStep : Pipeline Dup → Pipeline Dup → Prop
  | submit {s} (data : Bytes) (here : s.main = .holding) : MainStep s { s with main := .checking data }
  | logFailed {s data f} (here : s.main = .checking data) (fault : s.walFault = some f) :
    MainStep s { s with main := .failed (.wal f), caller := none }
  | logFine {s data} (here : s.main = .checking data) (fault : s.walFault = none) :
    MainStep s { s with main := .checkingWorker data }
  | workerFailed {s data f} (here : s.main = .checkingWorker data) (fault : s.faulted = some f) :
    MainStep s { s with main := .failed (.wal f), caller := none }
  | workerFine {s data} (here : s.main = .checkingWorker data) (fault : s.faulted = none) :
    MainStep s { s with main := .queueing data }
  | queued {s data buf} (here : s.main = .queueing data) (holds : s.caller = some buf)
    (connected : s.receives = true) (room : s.jobs.length < pool) :
    MainStep s { s with
      main := .waitingFree
      caller := none
      jobs := s.jobs ++ [⟨buf, data⟩]
      submitted := s.submitted ++ [data] }
  | queueGone {s data} (here : s.main = .queueing data) (connected : s.receives = false) :
    MainStep s { s with main := .failed (.wal s.workerGone), caller := none }
  | freed {s buf rest} (here : s.main = .waitingFree) (free : s.free = buf :: rest) :
    MainStep s { s with main := .holding, caller := some buf, free := rest }
  | freeGone {s} (here : s.main = .waitingFree) (free : s.free = []) (connected : s.returns = false) :
    MainStep s { s with main := .failed (.wal s.workerGone) }
  | freeTimeout {s} (here : s.main = .waitingFree) (free : s.free = []) (connected : s.returns = true) :
    MainStep s { s with main := .beating }
  | beat {s} (here : s.main = .beating) : MainStep s { s with main := .rechecking }
  | beatFailed {s} (e : FsError) (here : s.main = .beating) : MainStep s { s with main := .failed (.heartbeat e) }
  | logFailedSince {s f} (here : s.main = .rechecking) (fault : s.walFault = some f) :
    MainStep s { s with main := .failed (.wal f) }
  | logStillFine {s} (here : s.main = .rechecking) (fault : s.walFault = none) :
    MainStep s { s with main := .recheckingWorker }
  | workerFailedSince {s f} (here : s.main = .recheckingWorker) (fault : s.faulted = some f) :
    MainStep s { s with main := .failed (.wal f) }
  | workerStillFine {s} (here : s.main = .recheckingWorker) (fault : s.faulted = none) :
    MainStep s { s with main := .waitingFree }
  | complete {s} (here : s.main = .holding) : MainStep s { s with main := .finishing, submitOpen := false }
  | finished {s r} (here : s.main = .finishing) (result : s.result = some r) :
    MainStep s { s with main := .reaping (some r), result := none }
  | finishGone {s} (here : s.main = .finishing) (result : s.result = none) (connected : s.reports = false) :
    MainStep s { s with main := .reaping none }
  | finishTimeout {s} (here : s.main = .finishing) (result : s.result = none) (connected : s.reports = true) :
    MainStep s { s with main := .finishBeating }
  | finishBeat {s} (here : s.main = .finishBeating) : MainStep s { s with main := .finishing }
  | finishBeatFailed {s} (e : FsError) (here : s.main = .finishBeating) :
    MainStep s { s with main := .cancelling (.lost e) }
  | reapedEnd {s h} (here : s.main = .reaping (some (.ok h))) (joined : s.worker = .over) :
    MainStep s { s with main := .completing h }
  | reapedFault {s f} (here : s.main = .reaping (some (.error f))) (joined : s.worker = .over) :
    MainStep s { s with main := .ended (.wal f) }
  | reapedGone {s} (here : s.main = .reaping none) (joined : s.worker = .over) :
    MainStep s { s with main := .ended (.wal (s.walFault.getD workerStopped)) }
  | lastSent {s h} (here : s.main = .completing h) :
    MainStep s { s with main := .closing, sent := s.sent ++ (h.last fileId blake3).map .range }
  | lastFailed {s h} (e : SinkError) (here : s.main = .completing h) : MainStep s { s with main := .ended e }
  | closeSent {s} (here : s.main = .closing) :
    MainStep s { s with main := .closed, sent := s.sent ++ [.close fileId true] }
  | closeFailed {s} (e : SinkError) (here : s.main = .closing) : MainStep s { s with main := .ended e }
  | abort {s} (here : s.main = .holding ∨ ∃ e, s.main = .failed e) :
    MainStep s { s with main := .cancelling .abort }
  | drop {s} (here : s.main = .holding ∨ ∃ e, s.main = .failed e) : MainStep s { s with main := .cancelling .drop }
  | cancelled {s why} (here : s.main = .cancelling why) :
    MainStep s { s with main := .hangingUp why, cancel := true }
  | hungUp {s why} (here : s.main = .hangingUp why) :
    MainStep s { s with main := .awaiting why, submitOpen := false }
  | awaited {s why r} (here : s.main = .awaiting why) (result : s.result = some r) :
    MainStep s { s with main := .joining why, result := none }
  | awaitGone {s why} (here : s.main = .awaiting why) (result : s.result = none) (connected : s.reports = false) :
    MainStep s { s with main := .joining why }
  | awaitTimeout {s why} (here : s.main = .awaiting why) (result : s.result = none)
    (connected : s.reports = true) : MainStep s { s with main := .awaitBeating why }
  | awaitBeat {s why} (here : s.main = .awaitBeating why) : MainStep s { s with main := .awaiting why }
  | joinedAbort {s} (here : s.main = .joining .abort) (joined : s.worker = .over) :
    MainStep s { s with main := .discarding }
  | joinedDrop {s} (here : s.main = .joining .drop) (joined : s.worker = .over) :
    MainStep s { s with main := .over }
  | joinedLost {s e} (here : s.main = .joining (.lost e)) (joined : s.worker = .over) :
    MainStep s { s with main := .ended (.heartbeat e) }
  | discarded {s} (here : s.main = .discarding) :
    MainStep s { s with main := .over, sent := s.sent ++ [.discard fileId] }
  | discardFailed {s} (here : s.main = .discarding) : MainStep s { s with main := .over }

def WorkerAt.done : WorkerAt → Bool
  | .leaving | .over => true
  | _ => false

inductive WorkerStep : Pipeline Dup → Pipeline Dup → Prop
  | cancelled {s h} (here : s.worker = .top h) (flag : s.cancel = true) :
    WorkerStep s { s with worker := .leaving }
  | notCancelled {s h} (here : s.worker = .top h) (flag : s.cancel = false) :
    WorkerStep s { s with worker := .receiving h }
  | received {s h job rest} (here : s.worker = .receiving h) (jobs : s.jobs = job :: rest) :
    WorkerStep s { s with worker := .got h job, jobs := rest }
  | drained {s h} (here : s.worker = .receiving h) (jobs : s.jobs = []) (connected : s.submitOpen = false) :
    WorkerStep s { s with worker := .reporting (.ok h) }
  | hashed {s h job} (here : s.worker = .got h job) :
    WorkerStep s { s with
      worker := .returning (h.hashed blake3 job.data) job.buf (h.hasher.update blake3 job.data).1
      hashed := s.hashed ++ [job.data] }
  | returned {s h buf done} (here : s.worker = .returning h buf done) :
    WorkerStep s { s with worker := .looping h done, free := s.free ++ [buf] }
  | nextJob {s h} (here : s.worker = .looping h []) : WorkerStep s { s with worker := .top h }
  | gathered {s h index digest done} (here : s.worker = .looping h ((index, digest) :: done))
    (filled : (h.push fileId perRange index digest).2 = []) :
    WorkerStep s { s with worker := .asking (h.push fileId perRange index digest).1 done }
  | filled {s h index digest done r} (here : s.worker = .looping h ((index, digest) :: done))
    (filled : (h.push fileId perRange index digest).2 = [r]) :
    WorkerStep s { s with worker := .sending (h.push fileId perRange index digest).1 r done }
  | sendCancelled {s h r done} (here : s.worker = .sending h r done) (flag : s.cancel = true) :
    WorkerStep s { s with worker := .leaving }
  | sendNotCancelled {s h r done} (here : s.worker = .sending h r done) (flag : s.cancel = false) :
    WorkerStep s { s with worker := .attempting h r done }
  | sent {s h r done} (here : s.worker = .attempting h r done) :
    WorkerStep s { s with worker := .asking h done, sent := s.sent ++ [.range r] }
  | sendFull {s h r done} (here : s.worker = .attempting h r done) :
    WorkerStep s { s with worker := .retrying h r done }
  | sendGone {s h r done} (here : s.worker = .attempting h r done) :
    WorkerStep s { s with worker := .recording (s.walFault.getD writerGone) }
  | retryFailed {s h r done f} (here : s.worker = .retrying h r done) (fault : s.walFault = some f) :
    WorkerStep s { s with worker := .recording f }
  | retry {s h r done} (here : s.worker = .retrying h r done) (fault : s.walFault = none) :
    WorkerStep s { s with worker := .sending h r done }
  | logFailed {s h done f} (here : s.worker = .asking h done) (fault : s.walFault = some f) :
    WorkerStep s { s with worker := .recording f }
  | logFine {s h done} (here : s.worker = .asking h done) (fault : s.walFault = none) :
    WorkerStep s { s with worker := .looping h done }
  | recorded {s f} (here : s.worker = .recording f) :
    WorkerStep s { s with worker := .reporting (.error f), faulted := some f }
  | reported {s r} (here : s.worker = .reporting r) : WorkerStep s { s with worker := .leaving, result := some r }
  | panicked {s} (here : s.worker.done = false) : WorkerStep s { s with worker := .leaving }
  | jobsDropped {s} (here : s.worker = .leaving) : WorkerStep s { s with receives := false, jobs := [] }
  | freeDropped {s} (here : s.worker = .leaving) : WorkerStep s { s with returns := false }
  | resultDropped {s} (here : s.worker = .leaving) : WorkerStep s { s with reports := false }
  | left {s} (here : s.worker = .leaving) (jobs : s.receives = false) (free : s.returns = false)
    (result : s.reports = false) : WorkerStep s { s with worker := .over }

inductive PipelineStep (s s' : Pipeline Dup) : Prop
  | main (step : MainStep blake3 fileId s s')
  | worker (step : WorkerStep blake3 fileId perRange s s')
  | logFails (f : WalFault) (before : s.walFault = none) (after : s' = { s with walFault := some f })

end Steps

def Feed.spawned (blake3 : Bytes → Digest) (f : Feed Dup) (carry first : Bytes) : Pipeline Dup where
  main := .checking first
  worker := .top ((Hashes.start f.validThrough).feed f.fileId f.perRange blake3 carry).1
  caller := some 0
  jobs := []
  free := (List.range (pool - 1)).map (· + 1)
  result := none
  submitOpen := true
  receives := true
  returns := true
  reports := true
  cancel := false
  faulted := none
  walFault := none
  sent := f.opened ++ ((Hashes.start f.validThrough).feed f.fileId f.perRange blake3 carry).2.map .range
  submitted := []
  hashed := []

inductive Feed.Reaches (blake3 : Bytes → Digest) (f : Feed Dup) (carry : Bytes) : Pipeline Dup → Prop
  | spawned (first : Bytes) : Reaches blake3 f carry (f.spawned blake3 carry first)
  | step {s s' : Pipeline Dup} (before : Reaches blake3 f carry s)
    (step : PipelineStep blake3 f.fileId f.perRange s s') : Reaches blake3 f carry s'

def WorkerAt.bufs : WorkerAt → List ℕ
  | .got _ job => [job.buf]
  | .returning _ buf _ => [buf]
  | _ => []

def Pipeline.places (s : Pipeline Dup) : List ℕ := s.caller.toList ++ s.jobs.map Job.buf ++ s.worker.bufs ++ s.free

section Steps

variable {blake3 : Bytes → Digest} {fileId : Bytes} {perRange : ℕ} {s s' : Pipeline Dup}

lemma MainStep.places (h : MainStep blake3 fileId s s') (b : ℕ) : s'.places.count b ≤ s.places.count b := by
  cases h <;> simp_all [Pipeline.places, List.count_cons] <;> omega

lemma WorkerStep.places (h : WorkerStep blake3 fileId perRange s s') (b : ℕ) :
    s'.places.count b ≤ s.places.count b := by
  cases h <;> simp_all [Pipeline.places, WorkerAt.bufs, List.count_cons]
  omega

end Steps

end Flux.Checkpoint
