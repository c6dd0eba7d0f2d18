import Flux.Scratch.Store
import Mathlib.Data.Set.Insert

/-! What the store is for: a map from directories to their rows. -/

namespace Flux.Scratch

open Base Spill

structure Rows where
  names : Set Bytes
  owners : Bytes → Option Bytes
  learned : Bytes → Option UInt64
  ids : ObjectId → Option Bytes → Option UInt64

def Rows.none : Rows := ⟨∅, fun _ => Option.none, fun _ => Option.none, fun _ _ => Option.none⟩

abbrev Directories := DirKey → Rows

namespace Rows

def publish (n : Bytes) (r : Rows) : Rows := { r with names := insert n r.names }

def own (n target : Bytes) (r : Rows) : Rows := { r with owners := Function.update r.owners n (some target) }

def learnFirst (n : Bytes) (seq : UInt64) (r : Rows) : Rows :=
  { r with learned := Function.update r.learned n ((r.learned n).or (some seq)) }

def identify (id : ObjectId) (spelling : Option Bytes) (seq : UInt64) (r : Rows) : Rows :=
  { r with ids := Function.update r.ids id (Function.update (r.ids id) spelling (some seq)) }

end Rows

def Directories.edit (ds : Directories) (d : DirKey) (g : Rows → Rows) : Directories :=
  Function.update ds d (g (ds d))

inductive Call where
  | publishName (d : DirKey) (n : Bytes)
  | setOwner (d : DirKey) (n target : Bytes)
  | learn (d : DirKey) (n : Bytes) (seq : UInt64)
  | idsRow (d : DirKey) (id : ObjectId) (spelling : Option Bytes) (seq : UInt64)
  | retire (d : DirKey) (tick : ℕ → Option FsError)
  | hasName (d : DirKey) (n : Bytes)
  | owner (d : DirKey) (n : Bytes)
  | learned (d : DirKey) (n : Bytes)
  | idsRows (d : DirKey) (id : ObjectId)
  | forEachName2 (d : DirKey) (batch : ℕ)

inductive Answer where
  | done
  | found (b : Bool)
  | owner (target : Option Bytes)
  | learned (seq : Option UInt64)
  | ids (rows : List (Option Bytes × UInt64))
  | names (ns : List Bytes)

def keepName (seen : List Bytes) (name : Bytes) : Except FsError Bool × List Bytes := (.ok false, seen ++ [name])

def Call.perform : Call → Store.Op Answer
  | .publishName d n => do
    Store.publishName d n
    pure .done
  | .setOwner d n target => do
    Store.setOwner d n target
    pure .done
  | .learn d n seq => do
    Store.learn d n seq
    pure .done
  | .idsRow d id spelling seq => do
    Store.idsRow d id spelling seq
    pure .done
  | .retire d tick => do
    Store.retire d tick
    pure .done
  | .hasName d n => do pure (.found (← Store.hasName d n))
  | .owner d n => do pure (.owner (← Store.owner d n))
  | .learned d n => do pure (.learned (← Store.learned d n))
  | .idsRows d id => do pure (.ids (← Store.idsRows d id))
  | .forEachName2 d batch => do pure (.names (← Store.forEachName2 d batch keepName []).2)

def serve : List Call → Store → Attempt Empty (List (Except FsError Answer))
  | [], _ => pure []
  | c :: cs, s => do
    let r ← c.perform s
    let rest ← serve cs r.2
    pure (r.1 :: rest)

def Call.write : Call → Directories → Directories
  | .publishName d n, ds => ds.edit d (.publish n)
  | .setOwner d n target, ds => ds.edit d (.own n target)
  | .learn d n seq, ds => ds.edit d (.learnFirst n seq)
  | .idsRow d id spelling seq, ds => ds.edit d (.identify id spelling seq)
  | .retire d _, ds => ds.edit d fun _ => .none
  | _, ds => ds

def Call.Reads (ds : Directories) : Call → Answer → Prop
  | .hasName d n, .found b => b = true ↔ n ∈ (ds d).names
  | .owner d n, .owner target => target = (ds d).owners n
  | .learned d n, .learned seq => seq = (ds d).learned n
  | .idsRows d id, .ids rows =>
    rows.Pairwise (fun a b => a.1.getD [] < b.1.getD []) ∧ ∀ sp seq, (sp, seq) ∈ rows ↔ (ds d).ids id sp = some seq
  | .forEachName2 d _, .names ns => ns.Pairwise (· < ·) ∧ ∀ n, n ∈ ns ↔ n ∈ (ds d).names
  | .publishName _ _, .done => True
  | .setOwner _ _ _, .done => True
  | .learn _ _ _, .done => True
  | .idsRow _ _ spelling _, .done => spelling ≠ some []
  | .retire _ _, .done => True
  | _, _ => False

inductive Call.Refused : Call → FsError → Prop
  | emptyName (d : DirKey) (id : ObjectId) (seq : UInt64) : Refused (.idsRow d id (some []) seq) Store.emptyName
  | stopped (d : DirKey) {tick : ℕ → Option FsError} {n : ℕ} {e : FsError} : tick n = some e →
    Refused (.retire d tick) e

inductive Follows : Directories → Option FsError → List Call → List (Except FsError Answer) → Prop
  | nil (ds : Directories) (cause : Option FsError) : Follows ds cause [] []
  | unusable {ds : Directories} {cause : FsError} {c : Call} {cs : List Call} {rs : List (Except FsError Answer)} :
      Follows ds (some cause) cs rs → Follows ds (some cause) (c :: cs) (.error (Store.unusable cause) :: rs)
  | refused {ds : Directories} {c : Call} {e : FsError} {cs : List Call} {rs : List (Except FsError Answer)} :
      c.Refused e → Follows ds (some (Store.remake e)) cs rs → Follows ds .none (c :: cs) (.error e :: rs)
  | answered {ds : Directories} {c : Call} {a : Answer} {cs : List Call} {rs : List (Except FsError Answer)} :
      c.Reads ds a → Follows (c.write ds) .none cs rs → Follows ds .none (c :: cs) (.ok a :: rs)

end Flux.Scratch
