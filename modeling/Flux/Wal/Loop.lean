import Flux.Wal.Writer

/-! The writer thread's message loop, with a trace of what it received, synced and appended. -/

namespace Flux.Wal

open Base

inductive Msg (Dup : Type) where
  | fileBegin (begin : FileBegin) (dup : Option Dup)
  | range (r : Range)
  | flush
  | close (fileId : Bytes) (ack : Bool)
  | discard (fileId : Bytes)
  | drain
  | stop

inductive Received (Dup : Type) where
  | message (m : Msg Dup)
  | timeout
  | disconnected

structure FlushAnswers (Dup : Type) where
  abandoned : Bool
  sync : Dup → Option FsError
  ensureWal : Option FsError
  write : Option (ℕ × FsError)
  syncWal : Option FsError

/-- One pass of the loop: what it received, whether the run was abandoned by then, the answers for the flush the
message asks for, and those for the flush at the end of the pass, which the timer may make due. -/
structure Turn (Dup : Type) where
  received : Received Dup
  abandoned : Bool
  asked : FlushAnswers Dup
  timerDue : Bool
  due : FlushAnswers Dup

structure Queued where
  index : ℕ
  body : Body

def Queued.fileId (q : Queued) : Bytes := q.body.fileId

def Queued.entry (q : Queued) : Bytes × Body := (q.fileId, q.body)

structure Sync (Dup : Type) where
  fileId : Bytes
  dup : Dup
  fault : Option FsError

inductive Event (Dup : Type) where
  | received (m : Msg Dup)
  | flushed (syncs : List (Sync Dup)) (appended : List Queued)
  | acked (fileId : Bytes) (answer : Option FsError)
  | drained (failure : Failure)

/-- `handle` is the duplicate registered for a file. `queue`, which numbers the pending records, and `count` of
the messages received are not in the source. -/
structure Loop (Dup : Type) where
  state : State
  handle : Bytes → Option Dup
  queue : List Queued
  count : ℕ

variable {Dup : Type}

def FlushAnswers.on (a : FlushAnswers Dup) (handle : Bytes → Option Dup) : Answers :=
  ⟨fun id => (handle id).bind a.sync, a.ensureWal, a.write, a.syncWal⟩

namespace Loop

def start (s : State) : Loop Dup := ⟨s, fun _ => none, [], 0⟩

def entering (a : FlushAnswers Dup) (l : Loop Dup) : State :=
  { l.state with abandoned := l.state.abandoned || a.abandoned }

def syncs (l : Loop Dup) (synced : List (Bytes × Option FsError)) : List (Sync Dup) :=
  synced.filterMap fun y => (l.handle y.1).map fun d => ⟨y.1, d, y.2⟩

def flushed (l : Loop Dup) (s : State) : Event Dup :=
  .flushed (l.syncs (s.synced.drop l.state.synced.length))
    (l.queue.filter fun q => q.fileId ∈ (s.appended.drop l.state.appended.length).map fun r => r.2.fileId)

def flush (blake3 : Bytes → Digest) (a : FlushAnswers Dup) (l : Loop Dup) : Loop Dup × List (Event Dup) :=
  let s := (l.entering a).flush blake3 (a.on l.handle)
  (⟨s, fun id => if id ∈ s.dups then l.handle id else none, [], l.count⟩, [l.flushed s])

def register (l : Loop Dup) (id : Bytes) (dup : Option Dup) : Loop Dup :=
  { l with
    state.dups := if dup.isSome then l.state.dups.insert id else l.state.dups.filter (· ≠ id)
    handle := Function.update l.handle id dup }

@[simp] lemma register_handle (l : Loop Dup) (id : Bytes) (dup : Option Dup) :
    (l.register id dup).handle = Function.update l.handle id dup := rfl

lemma register_none_handle {l : Loop Dup} {id i : Bytes} {d : Dup} (h : (l.register id none).handle i = some d) :
    l.handle i = some d := by
  rw [register_handle] at h
  by_cases hi : i = id
  · rw [hi, Function.update_self] at h
    cases h
  · rwa [Function.update_of_ne hi] at h

def push (l : Loop Dup) (body : Body) (bytes : ℕ) : Loop Dup :=
  { l with state := l.state.push body.fileId body bytes, queue := l.queue ++ [⟨l.count, body⟩] }

def forgive (l : Loop Dup) (id : Bytes) : Loop Dup :=
  { l with state.failure.files := l.state.failure.files.erase id }

def rangeBytes : Body → ℕ
  | .range r => r.rangeEnd.toNat - r.rangeStart.toNat
  | .fileBegin _ => 0

def dropPending (l : Loop Dup) (id : Bytes) : Loop Dup :=
  let gone := ((l.state.pending.filter (·.1 = id)).map fun p => rangeBytes p.2).sum
  let kept := l.state.pending.filter (·.1 ≠ id)
  { l with
    state.pending := kept
    state.pendingBytes := l.state.pendingBytes - gone
    state.firstPending := if kept = [] then false else l.state.firstPending
    queue := l.queue.filter (·.fileId ≠ id) }

def closed (l : Loop Dup) (id : Bytes) : Event Dup :=
  .acked id ((l.state.failure.files.lookup id).or l.state.failure.wal)

def receive (blake3 : Bytes → Digest) (a : FlushAnswers Dup) (l : Loop Dup) :
    Msg Dup → Loop Dup × List (Event Dup)
  | .fileBegin f dup =>
    if l.state.dead then (l, [])
    else (((l.register f.fileId dup).forgive f.fileId).push (.fileBegin f) 0, [])
  | .range r =>
    if l.state.dead then (l, [])
    else (l.push (.range r) (rangeBytes (.range r)), [])
  | .flush => l.flush blake3 a
  | .close id ack =>
    let (l', ev) := if l.state.pending.any (·.1 = id) then l.flush blake3 a else (l, [])
    (l'.register id none, ev ++ if ack then [l'.closed id] else [])
  | .discard id => ((l.dropPending id).register id none, [])
  | .drain =>
    let (l', ev) := l.flush blake3 a
    (l', ev ++ [.drained l'.state.failure])
  | .stop =>
    let (l', ev) := l.flush blake3 a
    (⟨{ l'.state with dups := [] }, fun _ => none, l'.queue, l'.count⟩, ev)

def skips (l : Loop Dup) : Msg Dup → Bool
  | .fileBegin _ _ | .range _ => l.state.dead
  | _ => false

def stops : Msg Dup → Bool
  | .stop => true
  | _ => false

def isDue (l : Loop Dup) (flushBytes : ℕ) (timerDue : Bool) : Bool :=
  flushBytes ≤ l.state.pendingBytes ∨ l.state.firstPending ∧ timerDue

def message (blake3 : Bytes → Digest) (flushBytes : ℕ) (t : Turn Dup) (l : Loop Dup) (m : Msg Dup) :
    Option (Loop Dup) × List (Event Dup) :=
  let l' := { (l.receive blake3 t.asked m).1 with count := l.count + 1 }
  let ev := (l.receive blake3 t.asked m).2
  if stops m then (none, ev)
  else if l.skips m then (some l', ev)
  else if l'.isDue flushBytes t.timerDue then (some (l'.flush blake3 t.due).1, ev ++ (l'.flush blake3 t.due).2)
  else (some l', ev)

def turn (blake3 : Bytes → Digest) (flushBytes : ℕ) (t : Turn Dup) (l : Loop Dup) :
    Option (Loop Dup) × List (Event Dup) :=
  if l.state.abandoned || t.abandoned then (none, [])
  else match t.received with
    | .disconnected => (none, [])
    | .timeout => (some (l.flush blake3 t.asked).1, (l.flush blake3 t.asked).2)
    | .message m => ((l.message blake3 flushBytes t m).1, .received m :: (l.message blake3 flushBytes t m).2)

def run (blake3 : Bytes → Digest) (flushBytes : ℕ) : List (Turn Dup) → Loop Dup → List (Event Dup)
  | [], _ => []
  | t :: ts, l =>
    match l.turn blake3 flushBytes t with
    | (none, ev) => ev
    | (some l', ev) => ev ++ run blake3 flushBytes ts l'

lemma run_cons (blake3 : Bytes → Digest) (flushBytes : ℕ) (t : Turn Dup) (ts : List (Turn Dup)) (l : Loop Dup) :
    l.run blake3 flushBytes (t :: ts) = (l.turn blake3 flushBytes t).2 ++
      (l.turn blake3 flushBytes t).1.elim [] (run blake3 flushBytes ts) := by
  rw [run]
  split
  · next ev he => rw [he, Option.elim_none, List.append_nil]
  · next l' ev he => rw [he, Option.elim_some]

end Loop

structure Attempt (Dup : Type) where
  index : ℕ
  dup : Option Dup

structure Life (Dup : Type) where
  latest : Option (Attempt Dup)
  isOpen : Bool

def Life.after (id : Bytes) (k : ℕ) (l : Life Dup) : Msg Dup → Life Dup
  | .fileBegin f dup => if f.fileId = id then ⟨some ⟨k, dup⟩, true⟩ else l
  | .close c _ => if c = id then { l with isOpen := false } else l
  | .discard c => if c = id then { l with isOpen := false } else l
  | _ => l

def life (id : Bytes) (ms : List (Msg Dup)) : Life Dup :=
  ms.zipIdx.foldl (fun l m => l.after id m.2 m.1) ⟨none, false⟩

lemma life_concat (id : Bytes) (ms : List (Msg Dup)) (m : Msg Dup) :
    life id (ms ++ [m]) = (life id ms).after id ms.length m := by
  rw [life, List.zipIdx_append, List.foldl_append]
  simp [life]

def OneAtATime (ms : List (Msg Dup)) : Prop :=
  ∀ u f dup v, ms = u ++ .fileBegin f dup :: v → (life f.fileId u).isOpen = false

def Msg.entry : Msg Dup → Option (Bytes × Body)
  | .fileBegin f _ => some (f.fileId, .fileBegin f)
  | .range r => some (r.fileId, .range r)
  | _ => none

def Event.message : Event Dup → Option (Msg Dup)
  | .received m => some m
  | _ => none

def messages (ev : List (Event Dup)) : List (Msg Dup) := ev.filterMap Event.message

def Event.appends : Event Dup → List Queued
  | .flushed _ es => es
  | _ => []

def appends (ev : List (Event Dup)) : List Queued := ev.flatMap Event.appends

def Event.isFlushed : Event Dup → Bool
  | .flushed _ _ => true
  | _ => false

def flushedOf (ev : List (Event Dup)) : List (Event Dup) := ev.filter Event.isFlushed

lemma appends_flushedOf (ev : List (Event Dup)) : appends (flushedOf ev) = appends ev := by
  induction ev with
  | nil => rfl
  | cons e ev ih =>
    cases e with
    | flushed syncs es => exact congrArg (es ++ ·) ih
    | received m => exact ih
    | acked id answer => exact ih
    | drained failure => exact ih

end Flux.Wal
