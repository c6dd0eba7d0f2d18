import Flux.Fs.Types
import Mathlib.Data.List.AList
import Mathlib.Data.List.MinMax
import Mathlib.Data.Prod.Lex

/-! A directory's stored names, by listing and identity. Of the store only its rows are here; it does not fail. -/

namespace Flux.Names

abbrev Dir (Name : Type) := Name → Except FsError Metadata

structure DirEntry (Name : Type) where
  name : Name
  ino : Option UInt64

structure Thresholds where
  indexInline : ℕ
  maxCandidates : ℕ
  indexInline_pos : 0 < indexInline
  maxCandidates_pos : 0 < maxCandidates

inductive Resolved (Name : Type) where
  | absent
  | entry (stored : Name) (found : Metadata)
  deriving DecidableEq

inductive NameError where
  | unresolvable
  deriving DecidableEq, Repr

abbrev Answer (Name : Type) := Except FsError (Except NameError (Resolved Name))

section Forms

variable {Name Target : Type} [LinearOrder Name] [DecidableEq Target]

def earlier (learned : Name → Option ℕ) (best : Option (ℕ ×ₗ Name)) (s : Name) : Option (ℕ ×ₗ Name) :=
  match learned s with
  | none => best
  | some seq =>
    match best with
    | some b => if b ≤ toLex (seq, s) then best else some (toLex (seq, s))
    | none => some (toLex (seq, s))

def choose (spellings : List Name) (learned : Name → Option ℕ) (owner : Name → Option Target) :
    Except NameError Name :=
  match ((spellings.foldl (earlier learned) none).map fun b => (ofLex b).2).or spellings.min? with
  | none => .error .unresolvable
  | some chosen =>
    if 1 < spellings.length ∧ (owner chosen = none ∨ ∃ s ∈ spellings, owner s ≠ owner chosen) then
      .error .unresolvable
    else .ok chosen

/-- `target` published `planned`. `stored` is the stored name before (none for a new file), `replaced` the
identity of the object it named, `published` the new one's. -/
structure Publication (Name Target : Type) where
  target : Target
  stored : Option Name
  planned : Name
  replaced : Option ObjectId
  published : FileIdentity

def Publication.spellings (p : Publication Name Target) : List Name :=
  match p.stored with
  | none => [p.planned]
  | some s => if s = p.planned then [s] else [s, p.planned]

structure Pending (Name : Type) where
  replaced : Option ObjectId
  published : FileIdentity
  spellings : List Name

abbrev Table (Name : Type) := AList fun _ : ObjectId => List Name

def Table.at (table : Table Name) (id : ObjectId) : List Name := (table.lookup id).getD []

instance lawfulNames : LawfulBEq Name := inferInstance

def addSpellings (table : Table Name) (id : ObjectId) (spellings : List Name) : Table Name :=
  table.insert id (spellings.foldl (fun v s => if s ∈ v then v else v ++ [s]) (table.at id))

def Table.wipe (table : Table Name) : Option ObjectId → Table Name
  | none => table
  | some old => table.erase old

def Pending.apply (table : Table Name) (p : Pending Name) : Table Name :=
  match p.published with
  | .strong id => addSpellings (table.wipe p.replaced) id p.spellings
  | _ => table.wipe p.replaced

def statAll (dir : Dir Name) : List Name → Except FsError (List (Name × Metadata))
  | [] => .ok []
  | n :: rest =>
    match dir n with
    | .ok m => (statAll dir rest).map ((n, m) :: ·)
    | .error e => if isNotFound e then statAll dir rest else .error e

structure Inline (Name Target : Type) where
  listing : List Name
  table : Option (Table Name)
  owners : Name → Option Target
  pending : List (Pending Name)
  learned : Name → Option ℕ
  nextSeq : ℕ
  site : Option Thresholds
  wiped : List ObjectId

namespace Inline

def addEntry (table : Table Name) (entry : Name × Metadata) : Table Name :=
  match entry.2.identity with
  | .strong id => addSpellings table id [entry.1]
  | _ => table

def buildTable (i : Inline Name Target) (dir : Dir Name) : Except FsError (Table Name × Inline Name Target) :=
  match i.table with
  | some t => .ok (t, i)
  | none =>
    match statAll dir i.listing with
    | .error e => .error e
    | .ok found =>
      let t := i.pending.foldl Pending.apply (found.foldl addEntry ∅)
      .ok (t, { i with table := some t, pending := [] })

def resolve (i : Inline Name Target) (dir : Dir Name) (planned : Name) : Answer Name × Inline Name Target :=
  if planned ∈ i.listing then
    ((dir planned).map fun m => .ok (.entry planned m), i)
  else match dir planned with
    | .error e => if isNotFound e then (.ok (.ok .absent), i) else (.error e, i)
    | .ok m =>
      match m.identity with
      | .strong id =>
        match i.buildTable dir with
        | .error e => (.error e, i)
        | .ok (t, i) =>
          if t.at id = [] then (.ok (.error .unresolvable), i)
          else (.ok ((choose (t.at id) i.learned i.owners).map fun stored => .entry stored m), i)
      | _ => (.ok (.error .unresolvable), i)

def learn (i : Inline Name Target) : Option Name → Inline Name Target
  | none => i
  | some s =>
    if i.learned s = none then
      { i with learned := Function.update i.learned s (some i.nextSeq), nextSeq := i.nextSeq + 1 }
    else i

def record (i : Inline Name Target) (p : Publication Name Target) : Inline Name Target :=
  let i := i.learn p.stored
  let q : Pending Name := ⟨p.replaced, p.published, p.spellings⟩
  let i := { i with
    listing := p.spellings.foldl (fun l s => l.insert s) i.listing
    owners := p.spellings.foldl (fun o s => Function.update o s (some p.target)) i.owners
    wiped := if i.site.isSome then i.wiped ++ p.replaced.toList else i.wiped }
  match i.table with
  | some t => { i with table := some (q.apply t) }
  | none => { i with pending := i.pending ++ [q] }

end Inline

abbrev IdsRow (Name : Type) := ObjectId × Option Name × ℕ

structure Hybrid (Name Target : Type) where
  thresholds : Thresholds
  names : Option (List Name)
  inodes : Option (List (UInt64 × Name))
  identity : Option (List (ObjectId × Name))
  identityBuilt : Bool
  nextSeq : ℕ
  nextIdsSeq : ℕ
  names2 : List Name
  owners : Name → Option Target
  learned : Name → Option ℕ
  ids : List (IdsRow Name)

def family {α : Type} (records : List α) : Option (List α) := if records = [] then none else some records

namespace Hybrid

def idsRow (h : Hybrid Name Target) (id : ObjectId) (spelling : Option Name) : Hybrid Name Target :=
  { h with
    ids := h.ids.filter (fun r => ¬ (r.1 = id ∧ r.2.1 = spelling)) ++ [(id, spelling, h.nextIdsSeq)]
    nextIdsSeq := h.nextIdsSeq + 1 }

def idsRows (h : Hybrid Name Target) (id : ObjectId) : List (Option Name × ℕ) :=
  (h.ids.filter fun r => r.1 = id).map Prod.snd

def wipeRow (h : Hybrid Name Target) : Option ObjectId → Hybrid Name Target
  | none => h
  | some old => h.idsRow old none

def idsRowsOf (h : Hybrid Name Target) (p : Pending Name) : Hybrid Name Target :=
  match p.published with
  | .strong id => p.spellings.foldl (fun h s => h.idsRow id (some s)) (h.wipeRow p.replaced)
  | _ => h.wipeRow p.replaced

def latestWipe (rows : List (Option Name × ℕ)) : Option ℕ :=
  ((rows.filter fun r => r.1.isNone).map Prod.snd).max?

def stamped (tier1 : List Name) (rows : List (Option Name × ℕ)) : List (Name × ℕ) :=
  tier1.map (·, 0) ++ rows.filterMap fun r => r.1.map (·, r.2)

def seqOf (all : List (Name × ℕ)) (n : Name) : ℕ := ((all.filter fun p => p.1 = n).map Prod.snd).foldl max 0

def candidates (tier1 : List Name) (rows : List (Option Name × ℕ)) : List Name :=
  let all := stamped tier1 rows
  let found := (all.map Prod.fst).dedup
  match latestWipe rows with
  | none => found
  | some latest => found.filter fun n => latest ≤ seqOf all n

def verify (dir : Dir Name) (id : ObjectId) (found : List Name) : Except FsError (List Name) :=
  (statAll dir found).map fun entries => (entries.filter fun e => e.2.identity = .strong id).map Prod.fst

def pick (h : Hybrid Name Target) (spellings : List Name) (m : Metadata) : Answer Name :=
  .ok ((choose spellings h.learned h.owners).map fun stored => .entry stored m)

def strongEntry (entry : Name × Metadata) : Option (ObjectId × Name) :=
  match entry.2.identity with
  | .strong id => some (id, entry.1)
  | _ => none

def buildIdentity (h : Hybrid Name Target) (dir : Dir Name) : Except FsError (Hybrid Name Target) :=
  if h.identityBuilt then .ok h
  else (statAll dir (h.names.getD h.names2)).map fun found =>
    { h with identity := family (found.filterMap strongEntry), identityBuilt := true }

def byIdentity (h : Hybrid Name Target) (id : ObjectId) : List Name :=
  match h.identity with
  | some records => (records.filter fun r => r.1 = id).map Prod.snd
  | none => []

def resolveFull (h : Hybrid Name Target) (dir : Dir Name) (id : ObjectId) (m : Metadata) :
    Answer Name × Hybrid Name Target :=
  match h.buildIdentity dir with
  | .error e => (.error e, h)
  | .ok h =>
    let spellings := candidates (h.byIdentity id) (h.idsRows id)
    if spellings = [] then (.ok (.error .unresolvable), h) else (h.pick spellings m, h)

def namesWithInode (inodes : List (UInt64 × Name)) (inode : ℕ) (limit : ℕ) : List Name :=
  ((inodes.filter fun r => r.1.toNat = inode).map Prod.snd).take (limit + 1)

def hinted (h : Hybrid Name Target) (id : ObjectId) : Option (List Name) :=
  match h.inodes with
  | none => none
  | some inodes =>
    if id.index.toNat < 2 ^ 64 then
      let tier1 := namesWithInode inodes id.index.toNat h.thresholds.maxCandidates
      if tier1.length ≤ h.thresholds.maxCandidates then some tier1 else none
    else none

def resolve (h : Hybrid Name Target) (dir : Dir Name) (planned : Name) : Answer Name × Hybrid Name Target :=
  if planned ∈ h.names2 ∨ planned ∈ h.names.getD [] then
    ((dir planned).map fun m => .ok (.entry planned m), h)
  else match dir planned with
    | .error e => if isNotFound e then (.ok (.ok .absent), h) else (.error e, h)
    | .ok m =>
      match m.identity with
      | .strong id =>
        match h.hinted id with
        | none => h.resolveFull dir id m
        | some tier1 =>
          match verify dir id (candidates tier1 (h.idsRows id)) with
          | .error e => (.error e, h)
          | .ok verified => if verified = [] then h.resolveFull dir id m else (h.pick verified m, h)
      | _ => (.ok (.error .unresolvable), h)

def learn (h : Hybrid Name Target) : Option Name → Hybrid Name Target
  | none => h
  | some s =>
    if h.learned s = none then
      { h with learned := Function.update h.learned s (some h.nextSeq), nextSeq := h.nextSeq + 1 }
    else h

def record (h : Hybrid Name Target) (p : Publication Name Target) : Hybrid Name Target :=
  let h := { h with
    names2 := p.spellings.foldl (fun l s => l.insert s) h.names2
    owners := p.spellings.foldl (fun o s => Function.update o s (some p.target)) h.owners }
  (h.learn p.stored).idsRowsOf ⟨p.replaced, p.published, p.spellings⟩

end Hybrid

namespace Inline

def toHybrid (i : Inline Name Target) (th : Thresholds) : Hybrid Name Target where
  thresholds := th
  names := none
  inodes := none
  identity := none
  identityBuilt := false
  nextSeq := i.nextSeq
  nextIdsSeq := 1
  names2 := i.listing
  owners := i.owners
  learned := i.learned
  ids := []

def copyRows (i : Inline Name Target) (h : Hybrid Name Target) : Hybrid Name Target :=
  match i.table with
  | none => i.pending.foldl Hybrid.idsRowsOf h
  | some table =>
    table.entries.foldl (fun h e => e.2.foldl (fun h s => h.idsRow e.1 (some s)) h)
      (i.wiped.foldl (fun h old => h.idsRow old none) h)

def migrate (i : Inline Name Target) (th : Thresholds) : Hybrid Name Target := i.copyRows (i.toHybrid th)

end Inline

def inodeHints (entries : List (DirEntry Name)) : List (UInt64 × Name) :=
  entries.filterMap fun e => (e.ino.filter (· ≠ 0)).map (·, e.name)

def spilled (entries : List (DirEntry Name)) (th : Thresholds) : Hybrid Name Target where
  thresholds := th
  names := family (entries.map DirEntry.name)
  inodes := family (inodeHints entries)
  identity := none
  identityBuilt := false
  nextSeq := 0
  nextIdsSeq := 1
  names2 := []
  owners := fun _ => none
  learned := fun _ => none
  ids := []

inductive NameIndex (Name Target : Type) where
  | inline (i : Inline Name Target)
  | hybrid (h : Hybrid Name Target)

namespace NameIndex

def inlineForm (listing : List Name) (site : Option Thresholds) : NameIndex Name Target :=
  .inline ⟨listing, none, fun _ => none, [], fun _ => none, 0, site, []⟩

def forDir (entries : List (DirEntry Name)) : Option Thresholds → NameIndex Name Target
  | none => inlineForm (entries.map DirEntry.name).dedup none
  | some th =>
    if entries.length ≤ th.indexInline then inlineForm (entries.map DirEntry.name).dedup (some th)
    else .hybrid (spilled entries th)

def owner : NameIndex Name Target → Name → Option Target
  | .inline i, s => i.owners s
  | .hybrid h, s => h.owners s

def resolve (idx : NameIndex Name Target) (dir : Dir Name) (planned : Name) :
    Answer Name × NameIndex Name Target :=
  match idx with
  | .inline i => ((i.resolve dir planned).1, .inline (i.resolve dir planned).2)
  | .hybrid h => ((h.resolve dir planned).1, .hybrid (h.resolve dir planned).2)

def recordPublication (idx : NameIndex Name Target) (p : Publication Name Target) : NameIndex Name Target :=
  match idx with
  | .hybrid h => .hybrid (h.record p)
  | .inline i =>
    match i.site with
    | none => .inline (i.record p)
    | some th =>
      if th.indexInline < (i.record p).listing.length then .hybrid ((i.record p).migrate th)
      else .inline (i.record p)

end NameIndex

end Forms

inductive Op (Name Target : Type) where
  | resolve (planned : Name)
  | owner (spelling : Name)
  | publish (p : Publication Name Target)

inductive Reply (Name Target : Type) where
  | resolved (a : Answer Name)
  | owner (t : Option Target)
  | recorded
  deriving DecidableEq

variable {Name Target : Type} [LinearOrder Name] [DecidableEq Target]

def NameIndex.step (idx : NameIndex Name Target) (dir : Dir Name) :
    Op Name Target → Reply Name Target × NameIndex Name Target
  | .resolve planned => (.resolved (idx.resolve dir planned).1, (idx.resolve dir planned).2)
  | .owner s => (.owner (idx.owner s), idx)
  | .publish p => (.recorded, idx.recordPublication p)

def NameIndex.replies (idx : NameIndex Name Target) : List (Op Name Target × Dir Name) → List (Reply Name Target)
  | [] => []
  | (op, dir) :: rest => (idx.step dir op).1 :: (idx.step dir op).2.replies rest

end Flux.Names
