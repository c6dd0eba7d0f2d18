import Flux.Walk.Listing
import Flux.Walk.Ordered
import Flux.Walk.Run
import Mathlib.Logic.Relation

/-! The walk of a finite directory tree is its depth-first traversal in name order. -/

namespace Flux.Walk

open Base Spill

inductive Leaf where
  | file | symlink | other
  deriving DecidableEq, Repr

def Leaf.fileType : Leaf → FileType
  | .file => .file
  | .symlink => .symlink
  | .other => .other

mutual
/-- A directory entry's object; for a directory its identity, whether it is a mount root, and what is in it. -/
inductive Node where
  | leaf (kind : Leaf)
  | dir (identity : FileIdentity) (mount : MountRoot) (folder : Folder)
inductive Folder where
  | nil
  | cons (name : Bytes) (node : Node) (rest : Folder)
end

def Node.fileType : Node → FileType
  | .leaf kind => kind.fileType
  | .dir _ _ _ => .dir

def Folder.entries : Folder → List (Bytes × Node)
  | .nil => []
  | .cons name node rest => (name, node) :: rest.entries

def Folder.items : Folder → List (Bytes × FileType)
  | .nil => []
  | .cons name node rest => (name, node.fileType) :: rest.items

@[elab_as_elim]
lemma Folder.entries_induction {motive : Folder → Prop} (nil : motive .nil)
    (cons : ∀ name node rest, motive rest → motive (.cons name node rest)) : ∀ folder, motive folder
  | .nil => nil
  | .cons name node rest => cons name node rest (rest.entries_induction nil cons)

structure EntryName (name : Bytes) : Prop extends ValidName name where
  no_separator : 47 ∉ name
  not_dot : name ≠ [46]
  not_dots : name ≠ [46, 46]

mutual
def Node.WellFormed : Node → Prop
  | .leaf _ => True
  | .dir _ _ folder => folder.WellFormed
def Folder.WellFormed : Folder → Prop
  | .nil => True
  | .cons name node rest =>
    EntryName name ∧ (∀ item ∈ rest.items, name < item.1) ∧ node.WellFormed ∧ rest.WellFormed
end

section Shown

variable (cfg : Config) (readDir : ReadDir)

def Reads (path : Path) (folder : Folder) : Prop :=
  ((readDir path).1.map typed).Perm folder.items ∧ (readDir path).2 = none

mutual
def Node.Shown (path : Path) : Node → Prop
  | .leaf _ => True
  | .dir identity mount folder => (∃ m, cfg.metadata path = .ok m ∧ m.fileType = .dir ∧ m.identity = identity) ∧
      cfg.mountRoot path = .ok mount ∧ Reads readDir path folder ∧ folder.Shown path
def Folder.Shown (path : Path) : Folder → Prop
  | .nil => True
  | .cons name node rest => node.Shown (path ++ [name]) ∧ rest.Shown path
end

end Shown

inductive Treatment where
  | tooDeep | mountRoot | cycle
  | entered (unknown : Bool)
  deriving DecidableEq

section Traverse

variable (cfg : Config)

def treatment (depth : ℕ) (ancestors : List ObjectId) (identity : FileIdentity) (mount : MountRoot) : Treatment :=
  if cfg.maxDepth < depth then .tooDeep
  else if cfg.mounts = .stay ∧ mount = .yes then .mountRoot
  else if (strongId identity).any fun id => id ∈ ancestors then .cycle
  else .entered (cfg.mounts = .stay ∧ mount = .unknown)

mutual
def Node.traverse (depth : ℕ) (ancestors : List ObjectId) (path : Path) : Node → List RawEvent
  | .leaf kind => if cfg.select path kind.fileType = .keep then leafEvents path kind.fileType else []
  | .dir identity mount folder =>
    if cfg.select path .dir = .keep then
      match treatment cfg depth ancestors identity mount with
      | .tooDeep => [.error ⟨path, depthError, false⟩]
      | .mountRoot => [.ok (.dir path identity), .ok (.mountSkipped path), .ok (.dirEnd path)]
      | .cycle => [.error ⟨path, cycleError, false⟩]
      | .entered unknown => .ok (.dir path identity) :: (unknownEvents path unknown ++
          (folder.traverse (depth + 1) ((strongId identity).toList ++ ancestors) path ++ [.ok (.dirEnd path)]))
    else []
def Folder.traverse (depth : ℕ) (ancestors : List ObjectId) (path : Path) : Folder → List RawEvent
  | .nil => []
  | .cons name node rest => node.traverse depth ancestors (path ++ [name]) ++ rest.traverse depth ancestors path
end

mutual
def Node.see (depth : ℕ) (ancestors : List ObjectId) (path : Path) : Node → Seen
  | .leaf kind => if cfg.select path kind.fileType = .keep then .leaf else .dropped
  | .dir identity mount folder =>
    if cfg.select path .dir = .keep then
      match treatment cfg depth ancestors identity mount with
      | .tooDeep => .failed depthError
      | .mountRoot => .skipped identity
      | .cycle => .failed cycleError
      | .entered unknown =>
        .entered identity unknown (folder.see (depth + 1) ((strongId identity).toList ++ ancestors) path)
    else .dropped
def Folder.see (depth : ℕ) (ancestors : List ObjectId) (path : Path) : Folder → SeenList
  | .nil => .nil
  | .cons name node rest =>
    .cons name node.fileType (node.see depth ancestors (path ++ [name])) (rest.see depth ancestors path)
end

lemma Folder.see_items (depth : ℕ) (ancestors : List ObjectId) (path : Path) :
    ∀ folder : Folder, (folder.see cfg depth ancestors path).items = folder.items ∧
      (folder.see cfg depth ancestors path).cause = none := by
  intro folder
  induction folder using Folder.entries_induction with
  | nil => exact ⟨rfl, rfl⟩
  | cons name node rest ih =>
    obtain ⟨hitems, hcause⟩ := ih
    exact ⟨by rw [Folder.see, SeenList.items, hitems, Folder.items], by rw [Folder.see, SeenList.cause, hcause]⟩

mutual
lemma Node.see_events (depth : ℕ) (ancestors : List ObjectId) (path : Path) :
    ∀ node : Node, (node.see cfg depth ancestors path).events path node.fileType =
      node.traverse cfg depth ancestors path
  | .leaf kind => by
    rw [Node.see, Node.traverse, Node.fileType]
    split <;> rfl
  | .dir identity mount folder => by
    rw [Node.see, Node.traverse, Node.fileType]
    split
    · cases treatment cfg depth ancestors identity mount with
      | tooDeep => rfl
      | mountRoot => rfl
      | cycle => rfl
      | entered unknown => simp only [Seen.events, folder.see_events]
    · rfl
lemma Folder.see_events (depth : ℕ) (ancestors : List ObjectId) (path : Path) :
    ∀ folder : Folder, (folder.see cfg depth ancestors path).events path = folder.traverse cfg depth ancestors path
  | .nil => rfl
  | .cons name node rest => by
    rw [Folder.see, Folder.traverse, SeenList.events, node.see_events, rest.see_events]
end

mutual
lemma Node.see_tidy (depth : ℕ) (ancestors : List ObjectId) (path : Path) : ∀ node : Node, node.WellFormed →
    (node.see cfg depth ancestors path).Increasing ∧ (node.see cfg depth ancestors path).AllNames ValidName
  | .leaf kind, _ => by
    rw [Node.see]
    split <;> exact ⟨trivial, trivial⟩
  | .dir identity mount folder, h => by
    rw [Node.see]
    split
    · cases treatment cfg depth ancestors identity mount with
      | entered unknown => exact folder.see_tidy _ _ _ h
      | _ => exact ⟨trivial, trivial⟩
    · exact ⟨trivial, trivial⟩
lemma Folder.see_tidy (depth : ℕ) (ancestors : List ObjectId) (path : Path) :
    ∀ folder : Folder, folder.WellFormed → (folder.see cfg depth ancestors path).Increasing ∧
      (folder.see cfg depth ancestors path).AllNames ValidName
  | .nil, _ => ⟨trivial, trivial⟩
  | .cons name node rest, h => by
    obtain ⟨hvalid, hname, hnode, hrest⟩ := h
    obtain ⟨hinc, hnames⟩ := node.see_tidy depth ancestors (path ++ [name]) hnode
    obtain ⟨hincs, hrests⟩ := rest.see_tidy depth ancestors path hrest
    refine ⟨⟨?_, hinc, hincs⟩, hvalid.toValidName, hnames, hrests⟩
    rw [(rest.see_items cfg depth ancestors path).1]
    exact hname
end

end Traverse

lemma EntryName.isOneComponent {name : Bytes} (h : EntryName name) : isOneComponent name = true := by
  rw [Walk.isOneComponent, List.splitOn_eq_singleton h.no_separator]
  simp [h.ne_nil, h.not_dot, h.not_dots]

lemma Folder.items_increase : ∀ folder : Folder, folder.WellFormed → NamesIncrease folder.items
  | .nil, _ => .nil
  | .cons _ _ rest, h => .cons h.2.1 (rest.items_increase h.2.2.2)

section Unfolds

variable {cfg : Config} {readDir : ReadDir}

lemma listingOf_reads {path : Path} {folder : Folder} (hdir : Orderly readDir) (hf : folder.WellFormed)
    (h : Reads readDir path folder) : listingOf readDir path = .entries folder.items none := by
  have hperm : ((sorted (readDir path).1).map typed).Perm folder.items := ((sorted_perm _).map typed).trans h.1
  have heq := List.Perm.eq_of_pairwise (fun a b _ _ hab hba => absurd hab (lt_asymm hba))
    (sorted_increase (hdir.nodup path)) (folder.items_increase hf) hperm
  rw [listingOf, h.2, heq]

lemma gate_eq {path : Path} (depth : ℕ) (ancestors : List ObjectId) {m : Metadata} {mount : MountRoot}
    (hm : cfg.metadata path = .ok m) (hdir : m.fileType = .dir) (hmount : cfg.mountRoot path = .ok mount) :
    gate cfg path depth ancestors = match treatment cfg depth ancestors m.identity mount with
      | .tooDeep => .fails depthError
      | .mountRoot => .skip m.identity
      | .cycle => .fails cycleError
      | .entered unknown => .pass m.identity unknown := by
  rw [gate, treatment, hm, hmount]
  split
  · rfl
  · cases cfg.mounts with
    | cross =>
      simp only [hdir, ne_eq, not_true_eq_false, if_false, cycleGate, reduceCtorEq, false_and, decide_false]
      split <;> rfl
    | stay =>
      cases mount with
      | yes => simp [hdir]
      | no =>
        simp only [hdir, ne_eq, not_true_eq_false, if_false, cycleGate, reduceCtorEq, and_false, decide_false]
        split <;> rfl
      | unknown =>
        simp only [hdir, ne_eq, not_true_eq_false, if_false, cycleGate, reduceCtorEq, and_false,
          and_self, decide_true]
        split <;> rfl

mutual
lemma Node.see_unfolds (hdir : Orderly readDir) (depth : ℕ) (ancestors : List ObjectId) (path : Path) :
    ∀ node : Node, node.WellFormed → node.Shown cfg readDir path →
      Unfolds cfg (listingOf readDir) path node.fileType depth ancestors (node.see cfg depth ancestors path)
  | .leaf kind, _, _ => by
    rw [Node.see, Node.fileType]
    split
    · rename_i hkeep
      exact ⟨hkeep, by cases kind <;> simp [Leaf.fileType]⟩
    · rename_i hkeep
      exact hkeep
  | .dir identity mount folder, hf, hs => by
    obtain ⟨⟨m, hm, hmdir, rfl⟩, hmount, hreads, hshown⟩ := hs
    have hgate := gate_eq depth ancestors hm hmdir hmount
    rw [Node.see, Node.fileType]
    split
    · rename_i hkeep
      cases ht : treatment cfg depth ancestors m.identity mount with
      | tooDeep => exact ⟨hkeep, rfl, .inl (by rw [hgate, ht])⟩
      | mountRoot => exact ⟨hkeep, rfl, by rw [hgate, ht]⟩
      | cycle => exact ⟨hkeep, rfl, .inl (by rw [hgate, ht])⟩
      | entered unknown =>
        refine ⟨hkeep, rfl, by rw [hgate, ht], ?_, folder.see_unfolds hdir _ _ _ hf hshown⟩
        obtain ⟨hitems, hcause⟩ := folder.see_items cfg (depth + 1) ((strongId m.identity).toList ++ ancestors)
          path
        rw [hitems, hcause]
        exact listingOf_reads hdir hf hreads
    · rename_i hkeep
      exact hkeep
lemma Folder.see_unfolds (hdir : Orderly readDir) (depth : ℕ) (ancestors : List ObjectId) (path : Path) :
    ∀ folder : Folder, folder.WellFormed → folder.Shown cfg readDir path →
      UnfoldsList cfg (listingOf readDir) path depth ancestors (folder.see cfg depth ancestors path)
  | .nil, _, _ => by rw [Folder.see, UnfoldsList]; trivial
  | .cons name node rest, hf, hs =>
    ⟨hf.1.isOneComponent, node.see_unfolds hdir _ _ _ hf.2.2.1 hs.1, rest.see_unfolds hdir _ _ _ hf.2.2.2 hs.2⟩
end

end Unfolds

lemma untilFatal_eq_of_calm {events : List RawEvent} (h : ∀ e ∈ untilFatal events, isFatal e = false) :
    untilFatal events = events := by
  induction events with
  | nil => rfl
  | cons e events ih =>
    rw [untilFatal] at h ⊢
    cases he : isFatal e with
    | true =>
      rw [he] at h
      exact absurd (h e List.mem_cons_self) (by rw [he]; decide)
    | false =>
      rw [he] at h
      exact congrArg (e :: ·) (ih (List.forall_mem_cons.mp h).2)

lemma untilFatal_eq {events : List RawEvent} (h : ∀ e ∈ events, isFatal e = false) :
    untilFatal events = events := by
  induction events with
  | nil => rfl
  | cons e events ih =>
    obtain ⟨he, hrest⟩ := List.forall_mem_cons.mp h
    rw [untilFatal, he, ih hrest]
    rfl

mutual
lemma Node.traverse_not_fatal {cfg : Config} {depth : ℕ} {ancestors : List ObjectId} {path : Path} :
    ∀ node : Node, ∀ e ∈ node.traverse cfg depth ancestors path, isFatal e = false
  | .leaf kind => by
    rw [Node.traverse]
    split
    · cases kind <;> simp [Leaf.fileType, leafEvents, isFatal]
    · simp
  | .dir identity mount folder => by
    rw [Node.traverse]
    split
    · cases treatment cfg depth ancestors identity mount with
      | entered unknown =>
        intro e he
        simp only [List.mem_cons, List.mem_append, List.not_mem_nil, or_false] at he
        obtain rfl | he | he | rfl := he
        · rfl
        · cases unknown <;> simp_all [unknownEvents, isFatal]
        · exact folder.traverse_not_fatal e he
        · rfl
      | _ => simp [isFatal]
    · simp
lemma Folder.traverse_not_fatal {cfg : Config} {depth : ℕ} {ancestors : List ObjectId} {path : Path} :
    ∀ folder : Folder, ∀ e ∈ folder.traverse cfg depth ancestors path, isFatal e = false
  | .nil => by simp [Folder.traverse]
  | .cons name node rest => by
    intro e he
    rw [Folder.traverse, List.mem_append] at he
    exact he.elim (node.traverse_not_fatal e) (rest.traverse_not_fatal e)
end

structure ShowsTree (cfg : Config) (readDir : ReadDir) (identity : FileIdentity) (root : Folder) : Prop where
  orderly : Orderly readDir
  metadata : ∃ m, cfg.metadata [] = .ok m ∧ m.fileType = .dir ∧ m.identity = identity
  reads : Reads readDir [] root
  shown : root.Shown cfg readDir []

def traversal (cfg : Config) (identity : FileIdentity) (root : Folder) : List RawEvent :=
  root.traverse cfg 1 (strongId identity).toList []

theorem yields_traversal {cfg : Config} {readDir : ReadDir} {identity : FileIdentity} {root : Folder}
    (hf : root.WellFormed) (hs : ShowsTree cfg readDir identity root) (sort : SortUnstable)
    (scratch : Option Thresholds) (disk : Disk) : ∃ w, unstarted cfg disk = .ok w ∧
      Yields (next cfg (scratchLister sort scratch readDir)) w (traversal cfg identity root) := by
  obtain ⟨m, hm, hmdir, rfl⟩ := hs.metadata
  have hu : RootUnfolds cfg (listingOf readDir) m.identity
    (.entered (root.see cfg 1 (strongId m.identity).toList [])) := by
    refine ⟨?_, root.see_unfolds hs.orderly _ _ _ hf hs.shown⟩
    obtain ⟨hitems, hcause⟩ := root.see_items cfg 1 (strongId m.identity).toList []
    rw [hitems, hcause]
    exact listingOf_reads hs.orderly hf hs.reads
  have hlive : Lane scratch disk [] := trivial
  have hyields := yields_of_unstarted (scratchLister_lawful sort scratch hs.orderly) hlive hm hmdir hu
  rw [RootSeen.events, root.see_events, untilFatal_eq root.traverse_not_fatal] at hyields
  exact hyields

end Flux.Walk
