import Flux.Base.Course
import Flux.Base.Table
import Flux.Spill.Record

/-! The rows a run publishes, in four ordered tables; every key begins with the 25 bytes of its directory. -/

namespace Flux.Scratch

open Base Spill

def be (w n : ℕ) : Bytes := (le w n).reverse

inductive DirKey where
  | strong (id : ObjectId)
  | ordinal (n : UInt64)
  deriving DecidableEq

def DirKey.prefixBytes : DirKey → Bytes
  | .strong id => 0 :: (be 8 id.volume.toNat ++ be 16 id.index.toNat)
  | .ordinal n => 1 :: (List.replicate 16 0 ++ be 8 n.toNat)

def DirKey.bounds (dir : DirKey) : Bytes × Bytes := (dir.prefixBytes, (increment dir.prefixBytes).1)

def idBytes (id : ObjectId) : Bytes := be 8 id.volume.toNat ++ be 16 id.index.toNat

def rowKey (dir : DirKey) (spelling : Bytes) : Bytes := dir.prefixBytes ++ spelling

def idsKey (dir : DirKey) (id : ObjectId) (name : Bytes) : Bytes := dir.prefixBytes ++ idBytes id ++ name

def spellingOf (rest : Bytes) : Option Bytes := if rest = [] then none else some rest

def keysIn {V : Type} (t : Table V) (lo hi : Bytes) (limit : ℕ) : List Bytes :=
  ((t.range lo hi).take limit).map Prod.fst

structure Store where
  names2 : Table Unit
  owners : Table Bytes
  learnedSeqs : Table UInt64
  ids : Table UInt64
  live : Bool
  writesSinceCommit : ℕ
  commitEvery : ℕ
  poison : Option FsError

namespace Store

abbrev Op := Course Store FsError

def create (commitEvery : ℕ) : Store := ⟨∅, ∅, ∅, ∅, true, 0, max commitEvery 1, none⟩

def noTransaction : FsError := fatal "the scratch store has no live transaction"

def emptyName : FsError := fatal "an empty name was published to the scratch store"

def remake (e : FsError) : FsError := ⟨e.code, ⟨e.source.kind, none, e.source.message⟩⟩

def unusable (cause : FsError) : FsError :=
  ⟨cause.code, ⟨cause.source.kind, none, "scratch space is unusable: " ++ cause.source.message⟩⟩

/-- Checks the poison first; an error of `f` poisons the store with a copy of itself. -/
def run {α : Type} (f : Op α) : Op α := do
  match (← get).poison with
  | some cause => throw (unusable cause)
  | none =>
    match ← f.attempt with
    | .ok v => pure v
    | .error e => do
      modify fun s => { s with poison := s.poison.or (some (remake e)) }
      throw e

def txn : Op Unit := do
  if (← get).live then pure () else throw noTransaction

def commit : Op Unit := do
  txn
  modify fun s => { s with live := false }

def begin : Op Unit := modify fun s => { s with live := true }

def rotate : Op Unit := do
  commit
  modify fun s => { s with writesSinceCommit := 0 }
  begin

def rotateFull (s : Store) : Op Unit := if s.commitEvery ≤ s.writesSinceCommit then rotate else pure ()

def afterWrite : Op Unit := do
  modify fun s => { s with writesSinceCommit := s.writesSinceCommit + 1 }
  rotateFull (← get)

def publishName (dir : DirKey) (spelling : Bytes) : Op Unit := run do
  txn
  modify fun s => { s with names2 := s.names2.insert (rowKey dir spelling) () }
  afterWrite

def hasName (dir : DirKey) (spelling : Bytes) : Op Bool := run do
  txn
  pure (← get).names2[rowKey dir spelling]?.isSome

def setOwner (dir : DirKey) (spelling target : Bytes) : Op Unit := run do
  txn
  modify fun s => { s with owners := s.owners.insert (rowKey dir spelling) target }
  afterWrite

def owner (dir : DirKey) (spelling : Bytes) : Op (Option Bytes) := run do
  txn
  pure (← get).owners[rowKey dir spelling]?

def learnNew (key : Bytes) (seq : UInt64) (s : Store) : Op Unit :=
  if s.learnedSeqs[key]?.isSome then pure ()
  else do
    modify fun s => { s with learnedSeqs := s.learnedSeqs.insert key seq }
    afterWrite

def learn (dir : DirKey) (spelling : Bytes) (seq : UInt64) : Op Unit := run do
  txn
  learnNew (rowKey dir spelling) seq (← get)

def learned (dir : DirKey) (spelling : Bytes) : Op (Option UInt64) := run do
  txn
  pure (← get).learnedSeqs[rowKey dir spelling]?

def idsRow (dir : DirKey) (id : ObjectId) (spelling : Option Bytes) (seq : UInt64) : Op Unit := run <|
  if spelling = some [] then throw emptyName
  else do
    txn
    modify fun s => { s with ids := s.ids.insert (idsKey dir id (spelling.getD [])) seq }
    afterWrite

def idsRows (dir : DirKey) (id : ObjectId) : Op (List (Option Bytes × UInt64)) := run do
  let lo := dir.prefixBytes ++ idBytes id
  let hi := (increment lo).1
  txn
  pure (((← get).ids.range lo hi).map fun r => (spellingOf (r.1.drop lo.length), r.2))

def visitAll {σ : Type} (visit : σ → Bytes → Except FsError Bool × σ) :
    List Bytes → σ → Option (Except FsError Unit) × σ
  | [], v => (none, v)
  | name :: names, v =>
    match visit v name with
    | (.ok false, v) => visitAll visit names v
    | (.ok true, v) => (some (.ok ()), v)
    | (.error e, v) => (some (.error e), v)

def page (lo hi : Bytes) (batch : ℕ) : Op (List Bytes) := run do
  txn
  pure (keysIn (← get).names2 lo hi batch)

def pageAfter (keys : List Bytes) (batch : ℕ) : Option Bytes :=
  if keys.length = batch then keys.getLast?.map (· ++ [0]) else none

def pageStep {σ : Type} (hi : Bytes) (batch : ℕ) (visit : σ → Bytes → Except FsError Bool × σ) (s : Bytes × σ) :
    Op ((Bytes × σ) ⊕ (Except FsError Unit × σ)) := do
  let keys ← page s.1 hi batch
  match visitAll visit (keys.map (List.drop 25)) s.2 with
  | (some r, v) => pure (.inr (r, v))
  | (none, v) =>
    match pageAfter keys batch with
    | some lo => pure (.inl (lo, v))
    | none => pure (.inr (.ok (), v))

def forEachName2 {σ : Type} (dir : DirKey) (batch : ℕ) (visit : σ → Bytes → Except FsError Bool × σ) (v : σ) :
    Op (Except FsError Unit × σ) :=
  Course.loop (pageStep dir.bounds.2 (max batch 1) visit) (dir.bounds.1, v)

def removeRange {V : Type} (t : Table V) (lo hi : Bytes) (room : ℕ) : ℕ × Table V :=
  if room = 0 then (0, t)
  else
    let keys := keysIn t lo hi room
    (room - keys.length, t.removeAll keys)

def removePass (lo hi : Bytes) (s : Store) : ℕ × Store :=
  let names2 := removeRange s.names2 lo hi s.commitEvery
  let owners := removeRange s.owners lo hi names2.1
  let learnedSeqs := removeRange s.learnedSeqs lo hi owners.1
  let ids := removeRange s.ids lo hi learnedSeqs.1
  (s.commitEvery - ids.1,
    { s with names2 := names2.2, owners := owners.2, learnedSeqs := learnedSeqs.2, ids := ids.2 })

def ticked (answer : Option FsError) : Op Unit :=
  match answer with
  | none => pure ()
  | some e => throw e

def retireStep (lo hi : Bytes) (tick : ℕ → Option FsError) (n : ℕ) : Op (ℕ ⊕ Unit) := do
  txn
  let pass := removePass lo hi (← get)
  set pass.2
  if pass.1 = 0 then pure (.inr ())
  else do
    rotate
    ticked (tick n)
    pure (.inl (n + 1))

def retire (dir : DirKey) (tick : ℕ → Option FsError) : Op Unit :=
  run (Course.loop (retireStep dir.bounds.1 dir.bounds.2 tick) 0)

end Store

end Flux.Scratch
