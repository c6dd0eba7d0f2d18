import Flux.Base.Course
import Flux.Scratch.Cache
import Flux.Spill.Run

/-! A scratch space: a file per lane, carved into regions. What the system answers is given with each call. -/

namespace Flux.Scratch

open Base Spill

structure Sizes where
  spill : Thresholds
  indexInline : ℕ
  maxCandidates : ℕ
  indexCacheBlocks : ℕ
  indexStoreCache : ℕ
  publicationCommit : ℕ
  indexBlock : ℕ
  inline_ne_zero : indexInline ≠ 0
  candidates_ne_zero : maxCandidates ≠ 0
  four_le_blocks : 4 ≤ indexCacheBlocks
  commit_ne_zero : publicationCommit ≠ 0
  le_indexBlock : 64 ≤ indexBlock
  indexBlock_pow : 2 ^ indexBlock.log2 = indexBlock

def withIndex (spill : Thresholds) (indexInline maxCandidates indexCacheBlocks indexStoreCache publicationCommit
    indexBlock : ℕ) : Except String Sizes :=
  if hi : indexInline = 0 then .error "index_inline must be at least 1"
  else if hm : maxCandidates = 0 then .error "max_candidates must be at least 1"
  else if hc : indexCacheBlocks < 4 then .error "index_cache_blocks must be at least 4"
  else if hp : publicationCommit = 0 then .error "publication_commit must be at least 1"
  else if hb : indexBlock < 64 then .error "index_block must be at least 64"
  else if h2 : 2 ^ indexBlock.log2 = indexBlock then
    .ok ⟨spill, indexInline, maxCandidates, indexCacheBlocks, indexStoreCache, publicationCommit,
      indexBlock, hi, hm, not_lt.mp hc, hp, not_lt.mp hb, h2⟩
  else .error "index_block must be a power of two"

inductive Backing where
  | notCreated
  | opened (file : ℕ)
  | failed (code : Code) (message : String)
  | closed

structure LaneState where
  backing : Backing
  stop : ℕ
  liveRegions : ℕ
  holder : ℕ

structure Space where
  sizes : Sizes
  shown : String
  lanes : Lane → LaneState
  cache : BlockCache
  poisoned : Option FsError
  disk : Disk
  created : ℕ

structure Region where
  lane : Lane
  start : ℕ
  deriving DecidableEq

inductive Creation where
  | homeless (e : FsError)
  | failed (code : Code) (message : String)
  | made

abbrev Use := Course Space FsError

def Space.unplaced (sizes : Sizes) (shown : String) : Space :=
  ⟨sizes, shown, fun _ => ⟨.notCreated, 0, 0, 0⟩, .new sizes.indexCacheBlocks, none, fun _ => [], 0⟩

namespace Space

def poison (cause : FsError) (s : Space) : Space := { s with poisoned := s.poisoned.or (some cause) }

def poisonError (s : Space) : Option FsError :=
  s.poisoned.map fun cause =>
    ⟨cause.code, ⟨cause.source.kind, none, "scratch space is unusable: " ++ cause.source.message⟩⟩

def setLane (lane : Lane) (state : LaneState) (s : Space) : Space :=
  { s with lanes := Function.update s.lanes lane state }

def setBacking (lane : Lane) (backing : Backing) (s : Space) : Space :=
  s.setLane lane { s.lanes lane with backing := backing }

def setEnd (lane : Lane) (stop : ℕ) (s : Space) : Space :=
  if (s.lanes lane).stop < stop then s.setLane lane { s.lanes lane with stop := stop } else s

def ioError (s : Space) (e : IoError) : FsError :=
  ⟨FsError.classify e, ⟨e.kind, none, s.shown ++ ": " ++ e.message⟩⟩

def notOpen : Backing → FsError
  | .closed => fatal "scratch space is closed"
  | .failed code message => ⟨code, .other message⟩
  | _ => fatal "scratch space has no file yet"

end Space

def checkUsable : Use Unit := do
  match (← get).poisonError with
  | some e => throw e
  | none => pure ()

def openFile (lane : Lane) : Use ℕ := do
  match ((← get).lanes lane).backing with
  | .opened file => pure file
  | other => throw (Space.notOpen other)

def ensureOpen (lane : Lane) (creation : Creation) : Use Unit := do
  let s ← get
  match (s.lanes lane).backing with
  | .notCreated =>
    match creation with
    | .homeless e => throw e
    | .failed code message => do
      set (s.setBacking lane (.failed code message))
      throw ⟨code, .other message⟩
    | .made =>
      set { s.setBacking lane (.opened s.created) with
        disk := Function.update s.disk s.created []
        created := s.created + 1 }
  | .opened _ => pure ()
  | other => throw (Space.notOpen other)

def begin (lane : Lane) (owner : ℕ) (creation : Creation) : Use Region := do
  checkUsable
  let state := (← get).lanes lane
  if lane = .walk ∧ 0 < state.liveRegions ∧ state.holder ≠ owner then
    throw (fatal "one scratch space is shared by two walks")
  ensureOpen lane creation
  let s ← get
  let state := s.lanes lane
  set (s.setLane lane { state with holder := owner, liveRegions := state.liveRegions + 1 })
  pure ⟨lane, state.stop⟩

def written (bytes : Bytes) : Option (ℕ × IoError) → Bytes
  | none => bytes
  | some (n, _) => bytes.take n

def writeAll (file offset : ℕ) (bytes : Bytes) (s : Space) : Space :=
  if bytes = [] then s else { s with disk := Spill.writeAt s.disk file offset bytes }

def writeAt (lane : Lane) (offset : ℕ) (bytes : Bytes) (fault : Option (ℕ × IoError)) : Use Unit := do
  checkUsable
  let file ← openFile lane
  modify (writeAll file offset (written bytes fault))
  match fault with
  | none => modify (Space.setEnd lane (offset + bytes.length))
  | some (_, e) => throw ((← get).ioError e)

def laneFile (lane : Lane) (creation : Creation) : Use ℕ := do
  checkUsable
  ensureOpen lane creation
  openFile lane

def readAt (lane : Lane) (offset len : ℕ) (fault : Option IoError) : Use Bytes := do
  checkUsable
  let file ← openFile lane
  let s ← get
  match fault with
  | none => pure (slice (s.disk file) offset len)
  | some e => throw (s.ioError e)

def cached (f : BlockCache → Attempt Empty (Option Bytes × BlockCache)) : Use (Option Bytes) := do
  let s ← get
  let (r, cache) ← Course.ofAttempt (f s.cache)
  set { s with cache := cache }
  pure r

def readMissing (lane : Lane) (offset len : ℕ) (fault : Option IoError) (keep : Bool) : Use Bytes := do
  let data ← readAt lane offset len fault
  if data.length < len then throw (fatal "an index block ends before its recorded length")
  modify fun s => { s with cache := { s.cache with misses := s.cache.misses + 1 } }
  if keep then
    let _ ← cached fun c => do
      let c ← c.insert lane offset data
      pure (none, c)
  pure data

def readBlock (lane : Lane) (offset len : ℕ) (fault : Option IoError) : Use Bytes := do
  checkUsable
  if len ≤ (← get).sizes.indexBlock then
    match ← cached fun c => c.get lane offset with
    | some hit => pure hit
    | none => readMissing lane offset len fault true
  else readMissing lane offset len fault false

namespace Space

def invalidateFrom (lane : Lane) (start : ℕ) (s : Space) : Space :=
  { s with cache := s.cache.invalidateFrom lane start }

def setLen (file len : ℕ) (s : Space) : Space :=
  { s with
    disk := Function.update s.disk file
      ((s.disk file ++ List.replicate (len - (s.disk file).length) 0).take len) }

def truncate (lane : Lane) (start : ℕ) (fault : Option IoError) (s : Space) : Space :=
  let s := s.invalidateFrom lane start
  match (s.lanes lane).backing, fault with
  | .opened file, none => s.setLen file start
  | .opened _, some e => s.poison ⟨FsError.classify e, ⟨e.kind, none, "a truncate failed: " ++ e.message⟩⟩
  | _, _ => s

end Space

namespace Region

def cut (r : Region) (fault : Option IoError) (s : Space) : Space :=
  if r.start ≤ (s.lanes r.lane).stop then
    let s := s.truncate r.lane r.start fault
    s.setLane r.lane { s.lanes r.lane with stop := r.start }
  else s

def drop (r : Region) (fault : Option IoError) (s : Space) : Space :=
  let s := r.cut fault s
  s.setLane r.lane { s.lanes r.lane with liveRegions := (s.lanes r.lane).liveRegions - 1 }

end Region

end Flux.Scratch
