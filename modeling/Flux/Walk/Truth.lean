import Flux.Walk.Tree

/-! What a walk whose calls may fail reports is there; what is there it reports unless a call failed. -/

namespace Flux.Walk

open Base

def Folder.find (name : Bytes) : Folder → Option Node
  | .nil => none
  | .cons n node rest => if n = name then some node else rest.find name

def Folder.at : Folder → Path → Option Node
  | _, [] => none
  | folder, [name] => folder.find name
  | folder, name :: next :: rest =>
    match folder.find name with
    | some (.dir _ _ sub) => sub.at (next :: rest)
    | _ => none

variable {folder : Folder} {listing : Path → Listed}

lemma Folder.at_cons {sub : Folder} {name : Bytes} {identity : FileIdentity} {mount : MountRoot} {rest : Path}
    (h : folder.find name = some (.dir identity mount sub)) (hne : rest ≠ []) :
    folder.at (name :: rest) = sub.at rest := by
  obtain ⟨next, rest, rfl⟩ := List.exists_cons_of_ne_nil hne
  rw [Folder.at, h]

variable {node : Node} {path : Path} {cfg : Config}

lemma Folder.find_of_at {name : Bytes} {rest : Path} (h : folder.at (name :: rest) = some node) :
    (rest = [] ∧ folder.find name = some node) ∨
      ∃ identity mount sub, rest ≠ [] ∧ folder.find name = some (.dir identity mount sub) ∧
      sub.at rest = some node := by
  cases rest with
  | nil => exact .inl ⟨rfl, h⟩
  | cons next rest =>
    rw [Folder.at] at h
    split at h
    · rename_i identity mount sub hf
      exact .inr ⟨identity, mount, sub, by simp, hf, h⟩
    · cases h

lemma Folder.find_mem {name : Bytes} {node : Node} : ∀ {folder : Folder}, folder.find name = some node →
    (name, node) ∈ folder.entries
  | .nil, h => by cases h
  | .cons n m rest, h => by
    rw [Folder.find] at h
    split at h
    · rename_i heq
      cases h
      rw [heq]
      exact List.mem_cons_self
    · exact List.mem_cons_of_mem _ (find_mem h)

lemma Folder.items_eq (folder : Folder) : folder.items = folder.entries.map fun e => (e.1, e.2.fileType) := by
  cases folder with
  | nil => rfl
  | cons name node rest => rw [Folder.items, Folder.entries, List.map_cons, rest.items_eq]

lemma Folder.find_eq {name : Bytes} {node : Node} : ∀ {folder : Folder}, folder.WellFormed →
    (name, node) ∈ folder.entries → folder.find name = some node
  | .nil, _, h => by cases h
  | .cons n m rest, hf, h => by
    obtain heq | h := List.mem_cons.mp h
    · cases heq
      rw [Folder.find, if_pos rfl]
    · have hitem : (name, node.fileType) ∈ rest.items := by
        rw [rest.items_eq]
        exact List.mem_map.mpr ⟨_, h, rfl⟩
      rw [Folder.find, if_neg (hf.2.1 _ hitem).ne]
      exact find_eq hf.2.2.2 h

lemma Folder.wellFormed_of_mem {name : Bytes} {node : Node} : ∀ {folder : Folder}, folder.WellFormed →
    (name, node) ∈ folder.entries → EntryName name ∧ node.WellFormed
  | .nil, _, h => by cases h
  | .cons n m rest, hf, h => by
    obtain heq | h := List.mem_cons.mp h
    · cases heq
      exact ⟨hf.1, hf.2.2.1⟩
    · exact wellFormed_of_mem hf.2.2.2 h

/-- A listing fails at once, or yields the directory's entries, perhaps only the first of them before it fails. -/
def ListsOrFails (listing : Path → Listed) (path : Path) (folder : Folder) : Prop :=
  match listing path with
  | .refused _ => True
  | .fatal _ => True
  | .entries items none => items = folder.items
  | .entries items (some _) => items <+: folder.items

section Answers

variable (cfg : Config) (listing : Path → Listed)

mutual
def Node.Answers (path : Path) : Node → Prop
  | .leaf _ => True
  | .dir identity mount folder =>
    (∀ m, cfg.metadata path = .ok m → m.fileType = .dir ∧ m.identity = identity) ∧
      (∀ r, cfg.mountRoot path = .ok r → r = mount) ∧ ListsOrFails listing path folder ∧ folder.Answers path
def Folder.Answers (path : Path) : Folder → Prop
  | .nil => True
  | .cons name node rest => node.Answers (path ++ [name]) ∧ rest.Answers path
end

end Answers

lemma Folder.answers_of_mem {cfg : Config} {listing : Path → Listed} {path : Path} {name : Bytes} {node : Node} :
    ∀ {folder : Folder}, folder.Answers cfg listing path → (name, node) ∈ folder.entries →
      node.Answers cfg listing (path ++ [name])
  | .nil, _, h => by cases h
  | .cons n m rest, hf, h => by
    obtain heq | h := List.mem_cons.mp h
    · cases heq
      exact hf.1
    · exact answers_of_mem hf.2 h

namespace SeenList

def toList : SeenList → List (Bytes × FileType × Seen)
  | .nil => []
  | .broken _ => []
  | .cons name fileType seen rest => (name, fileType, seen) :: rest.toList

lemma items_eq (entries : SeenList) : entries.items = entries.toList.map fun e => (e.1, e.2.1) := by
  cases entries with
  | nil => rfl
  | broken cause => rfl
  | cons name fileType seen rest => rw [items, toList, List.map_cons, rest.items_eq]

lemma mem_events {path : Path} {name : Bytes} {fileType : FileType} {seen : Seen} {e : RawEvent} :
    ∀ {entries : SeenList}, (name, fileType, seen) ∈ entries.toList → e ∈ seen.events (path ++ [name]) fileType →
      e ∈ entries.events path
  | .nil, h, _ => by cases h
  | .broken _, h, _ => by cases h
  | .cons n t s rest, h, he => by
    rw [events]
    obtain heq | h := List.mem_cons.mp h
    · cases heq
      exact List.mem_append_left _ he
    · exact List.mem_append_right _ (mem_events h he)

lemma broken_mem_events {path : Path} {cause : FsError} : ∀ {entries : SeenList}, entries.cause = some cause →
    .error ⟨path, cause, true⟩ ∈ entries.events path
  | .nil, h => by cases h
  | .broken e, h => by
    cases h
    exact List.mem_cons_self
  | .cons n t s rest, h => by
    rw [events]
    exact List.mem_append_right _ (broken_mem_events h)

lemma unfolds_of_mem {cfg : Config} {listing : Path → Listed} {path : Path} {depth : ℕ} {ancestors : List ObjectId}
    {name : Bytes} {fileType : FileType} {seen : Seen} : ∀ {entries : SeenList},
    UnfoldsList cfg listing path depth ancestors entries → (name, fileType, seen) ∈ entries.toList →
      Unfolds cfg listing (path ++ [name]) fileType depth ancestors seen
  | .nil, _, h => by cases h
  | .broken _, _, h => by cases h
  | .cons n t s rest, hu, h => by
    obtain heq | h := List.mem_cons.mp h
    · cases heq
      exact hu.2.1
    · exact unfolds_of_mem hu.2.2 h

end SeenList

def EventTrue (cfg : Config) (at' : Path → Node → Prop) : RawEvent → Prop
  | .ok (.file path) => at' path (.leaf .file)
  | .ok (.symlink path) => at' path (.leaf .symlink)
  | .ok (.other path) => at' path (.leaf .other)
  | .ok (.dir path _) => ∃ identity mount folder, at' path (.dir identity mount folder)
  | .ok (.mountSkipped path) => cfg.mounts = .stay ∧ ∃ identity folder, at' path (.dir identity .yes folder)
  | _ => True

lemma EventTrue.imp {at₁ at₂ : Path → Node → Prop} (h : ∀ p n, at₁ p n → at₂ p n) {e : RawEvent}
    (he : EventTrue cfg at₁ e) : EventTrue cfg at₂ e := by
  cases e with
  | error e => trivial
  | ok e =>
    cases e with
    | file path => exact h _ _ he
    | symlink path => exact h _ _ he
    | other path => exact h _ _ he
    | dir path id =>
      obtain ⟨identity, mount, folder, he⟩ := he
      exact ⟨identity, mount, folder, h _ _ he⟩
    | mountSkipped path =>
      obtain ⟨hstay, identity, folder, he⟩ := he
      exact ⟨hstay, identity, folder, h _ _ he⟩
    | dirEnd path => trivial
    | mountUnknown path => trivial

def NodeAt (node : Node) (path p : Path) (n : Node) : Prop :=
  (p = path ∧ n = node) ∨ ∃ identity mount sub rest, node = .dir identity mount sub ∧ p = path ++ rest ∧
    sub.at rest = some n

def FolderAt (folder : Folder) (path p : Path) (n : Node) : Prop :=
  ∃ rest, p = path ++ rest ∧ folder.at rest = some n

lemma Folder.mem_of_item {name : Bytes} {fileType : FileType} (h : (name, fileType) ∈ folder.items) :
    ∃ node, (name, node) ∈ folder.entries ∧ node.fileType = fileType := by
  rw [folder.items_eq] at h
  obtain ⟨⟨n, node⟩, hmem, heq⟩ := List.mem_map.mp h
  cases heq
  exact ⟨node, hmem, rfl⟩

lemma folderAt_of_nodeAt {p : Path} {name : Bytes} {n : Node} (hfind : folder.find name = some node)
    (h : NodeAt node (path ++ [name]) p n) : FolderAt folder path p n := by
  obtain ⟨rfl, rfl⟩ | ⟨identity, mount, sub, rest, rfl, rfl, hat⟩ := h
  · exact ⟨[name], rfl, hfind⟩
  · have hne : rest ≠ [] := by
      rintro rfl
      rw [Folder.at] at hat
      cases hat
    refine ⟨name :: rest, by simp, ?_⟩
    rw [Folder.at_cons hfind hne, hat]

lemma node_of_dir (h : node.fileType = .dir) : ∃ identity mount folder, node = .dir identity mount folder := by
  cases node with
  | leaf kind => cases kind <;> cases h
  | dir identity mount folder => exact ⟨identity, mount, folder, rfl⟩

lemma gate_skip {depth : ℕ} {ancestors : List ObjectId} {id : FileIdentity}
    (h : gate cfg path depth ancestors = .skip id) : cfg.mounts = .stay ∧ cfg.mountRoot path = .ok .yes := by
  have hcycle : ∀ identity unknown, cycleGate ancestors identity unknown ≠ .skip id := by
    intro identity unknown hc
    rw [cycleGate] at hc
    split at hc <;> cases hc
  rw [gate] at h
  split at h
  · cases h
  · split at h
    · cases h
    · split at h
      · cases h
      · split at h
        · exact absurd h (hcycle _ _)
        · rename_i hmounts
          split at h
          · cases h
          · exact ⟨hmounts, ‹_›⟩
          · exact absurd h (hcycle _ _)
          · exact absurd h (hcycle _ _)

lemma items_subset {entries : SeenList} (h : ListsOrFails listing path folder)
    (hl : listing path = .entries entries.items entries.cause) : entries.items ⊆ folder.items := by
  rw [ListsOrFails, hl] at h
  cases hc : entries.cause with
  | none =>
    rw [hc] at h
    have heq : entries.items = folder.items := h
    rw [heq]
    exact List.Subset.refl _
  | some cause =>
    rw [hc] at h
    exact List.IsPrefix.subset h

section Sound

variable {cfg : Config} {listing : Path → Listed} {e : RawEvent}

mutual
lemma Seen.sound {path : Path} {fileType : FileType} {depth : ℕ} {ancestors : List ObjectId} {node : Node} :
    ∀ seen : Seen, Unfolds cfg listing path fileType depth ancestors seen → node.WellFormed →
      node.Answers cfg listing path → node.fileType = fileType → e ∈ seen.events path fileType →
      EventTrue cfg (NodeAt node path) e
  | .dropped, _, _, _, _, he => by cases he
  | .leaf, hu, _, _, hft, he => by
    subst hft
    cases node with
    | leaf kind =>
      cases kind
      all_goals
        obtain rfl : e = _ := by simpa [Seen.events, leafEvents, Node.fileType, Leaf.fileType] using he
        exact .inl ⟨rfl, rfl⟩
    | dir identity mount folder => exact absurd rfl hu.2
  | .failed cause, _, _, _, _, he => by
    obtain rfl : e = _ := by simpa [Seen.events] using he
    trivial
  | .halted cause, _, _, _, _, he => by
    obtain rfl : e = _ := by simpa [Seen.events] using he
    trivial
  | .skipped id, hu, _, ha, hft, he => by
    obtain ⟨-, hdir, hgate⟩ := hu
    obtain ⟨identity, mount, folder, rfl⟩ := node_of_dir (hft.trans hdir)
    obtain ⟨hstay, hyes⟩ := gate_skip hgate
    obtain rfl : MountRoot.yes = mount := ha.2.1 _ hyes
    simp only [Seen.events, List.mem_cons, List.not_mem_nil, or_false] at he
    obtain rfl | rfl | rfl := he
    · exact ⟨identity, .yes, folder, .inl ⟨rfl, rfl⟩⟩
    · exact ⟨hstay, identity, folder, .inl ⟨rfl, rfl⟩⟩
    · trivial
  | .entered id unknown entries, hu, hf, ha, hft, he => by
    obtain ⟨-, hdir, -, hl, hentries⟩ := hu
    obtain ⟨identity, mount, folder, rfl⟩ := node_of_dir (hft.trans hdir)
    simp only [Seen.events, List.mem_cons, List.mem_append, List.not_mem_nil, or_false] at he
    obtain rfl | he | he | rfl := he
    · exact ⟨identity, mount, folder, .inl ⟨rfl, rfl⟩⟩
    · cases unknown <;> simp [unknownEvents] at he
      subst he
      trivial
    · have hinner := entries.sound hentries hf ha.2.2.2 (items_subset ha.2.2.1 hl) he
      refine hinner.imp ?_
      rintro p n ⟨rest, rfl, hat⟩
      exact .inr ⟨identity, mount, folder, rest, rfl, rfl, hat⟩
    · trivial
lemma SeenList.sound {path : Path} {depth : ℕ} {ancestors : List ObjectId} {folder : Folder} :
    ∀ entries : SeenList, UnfoldsList cfg listing path depth ancestors entries → folder.WellFormed →
      folder.Answers cfg listing path → entries.items ⊆ folder.items → e ∈ entries.events path →
      EventTrue cfg (FolderAt folder path) e
  | .nil, _, _, _, _, he => by cases he
  | .broken cause, _, _, _, _, he => by
    obtain rfl : e = _ := by simpa [SeenList.events] using he
    trivial
  | .cons name fileType seen rest, hu, hf, ha, hitems, he => by
    rw [SeenList.items, List.cons_subset] at hitems
    rw [SeenList.events, List.mem_append] at he
    obtain he | he := he
    · obtain ⟨node, hmem, hft⟩ := Folder.mem_of_item hitems.1
      have hnode := seen.sound hu.2.1 (Folder.wellFormed_of_mem hf hmem).2 (Folder.answers_of_mem ha hmem) hft he
      exact hnode.imp fun p n h => folderAt_of_nodeAt (Folder.find_eq hf hmem) h
    · exact rest.sound hu.2.2 hf ha hitems.2 he
end

end Sound

def Reports (path : Path) (e : RawEvent) : Node → Prop
  | .leaf kind => e ∈ leafEvents path kind.fileType
  | .dir _ _ _ => ∃ identity, e = .ok (.dir path identity)

lemma exists_report {rest : Path} {entries : SeenList} {depth : ℕ} {ancestors : List ObjectId}
    (hf : folder.WellFormed) (ha : folder.Answers cfg listing path)
    (hu : UnfoldsList cfg listing path depth ancestors entries) (hitems : entries.items = folder.items)
    (hat : folder.at rest = some node)
    (hkeep : ∀ q n, q <+: rest → folder.at q = some n → cfg.select (path ++ q) n.fileType = .keep)
    (hmount : ∀ q, q <+: rest → q ≠ rest → .ok (.mountSkipped (path ++ q)) ∉ entries.events path)
    (hok : ∀ q, q <+: rest → ∀ cause fatal, .error ⟨path ++ q, cause, fatal⟩ ∉ entries.events path) :
    ∃ e ∈ entries.events path, Reports (path ++ rest) e node := by
  induction rest generalizing folder entries path depth ancestors with
  | nil =>
    rw [Folder.at] at hat
    cases hat
  | cons name rest ih =>
    obtain ⟨child, hfind, hchild⟩ : ∃ child, folder.find name = some child ∧ ((rest = [] ∧ child = node) ∨
        ∃ identity mount sub, rest ≠ [] ∧ child = .dir identity mount sub ∧ sub.at rest = some node) := by
      obtain ⟨rfl, hfind⟩ | ⟨identity, mount, sub, hne, hfind, hsub⟩ := Folder.find_of_at hat
      · exact ⟨node, hfind, .inl ⟨rfl, rfl⟩⟩
      · exact ⟨_, hfind, .inr ⟨identity, mount, sub, hne, rfl, hsub⟩⟩
    have hmem := Folder.find_mem hfind
    have hone : [name] <+: name :: rest := ⟨rest, rfl⟩
    obtain ⟨seen, hseen⟩ : ∃ seen, (name, child.fileType, seen) ∈ entries.toList := by
      have hitem : (name, child.fileType) ∈ entries.items := by
        rw [hitems, folder.items_eq]
        exact List.mem_map.mpr ⟨_, hmem, rfl⟩
      rw [entries.items_eq] at hitem
      obtain ⟨⟨n, t, seen⟩, hmem', heq⟩ := List.mem_map.mp hitem
      cases heq
      exact ⟨seen, hmem'⟩
    have hin : ∀ {e}, e ∈ seen.events (path ++ [name]) child.fileType → e ∈ entries.events path :=
      fun he => SeenList.mem_events hseen he
    have hselect := hkeep [name] child hone hfind
    have hunfolds := SeenList.unfolds_of_mem hu hseen
    have hanswers := Folder.answers_of_mem ha hmem
    cases seen with
    | dropped => exact absurd hselect hunfolds
    | failed cause => exact absurd (hin List.mem_cons_self) (hok [name] hone cause false)
    | halted cause => exact absurd (hin List.mem_cons_self) (hok [name] hone cause true)
    | leaf =>
      obtain ⟨rfl, rfl⟩ | ⟨identity, mount, sub, -, rfl, -⟩ := hchild
      · cases child with
        | dir identity mount sub => exact absurd rfl hunfolds.2
        | leaf kind =>
          obtain ⟨e, he⟩ : ∃ e, leafEvents (path ++ [name]) kind.fileType = [e] := by cases kind <;> exact ⟨_, rfl⟩
          have hmem' : e ∈ leafEvents (path ++ [name]) kind.fileType := by rw [he]; exact List.mem_cons_self
          exact ⟨e, hin hmem', hmem'⟩
      · exact absurd rfl hunfolds.2
    | skipped id =>
      obtain ⟨identity, mount, sub, rfl⟩ := node_of_dir hunfolds.2.1
      obtain ⟨rfl, rfl⟩ | ⟨_, _, _, hne, -, -⟩ := hchild
      · exact ⟨_, hin List.mem_cons_self, id, rfl⟩
      · refine absurd (hin ?_) (hmount [name] hone (by simpa using hne.symm))
        exact List.mem_cons_of_mem _ List.mem_cons_self
    | entered id unknown inner =>
      obtain ⟨identity, mount, sub, rfl⟩ := node_of_dir hunfolds.2.1
      obtain ⟨-, -, -, hl, hinner⟩ := hunfolds
      obtain ⟨rfl, rfl⟩ | ⟨_, _, _, hne, heq, hsub⟩ := hchild
      · exact ⟨_, hin List.mem_cons_self, id, rfl⟩
      · cases heq
        have hinside : ∀ {e}, e ∈ inner.events (path ++ [name]) → e ∈ entries.events path := by
          intro e he
          apply hin
          rw [Seen.events]
          simp [he]
        have hcomplete : inner.items = sub.items := by
          have hlists := hanswers.2.2.1
          rw [ListsOrFails, hl] at hlists
          cases hc : inner.cause with
          | none =>
            rw [hc] at hlists
            exact hlists
          | some cause => exact absurd (hinside (SeenList.broken_mem_events hc)) (hok [name] hone cause true)
        have hpath : ∀ q, path ++ [name] ++ q = path ++ name :: q := by simp
        have hat' : ∀ {q n}, sub.at q = some n → folder.at (name :: q) = some n := by
          intro q n hq
          have hqne : q ≠ [] := by
            rintro rfl
            rw [Folder.at] at hq
            cases hq
          rw [Folder.at_cons hfind hqne, hq]
        have hcons : ∀ {q}, q <+: rest → name :: q <+: name :: rest :=
          fun hq => List.cons_prefix_cons.mpr ⟨rfl, hq⟩
        obtain ⟨e, he, hrep⟩ := ih (Folder.wellFormed_of_mem hf hmem).2 hanswers.2.2.2 hinner hcomplete hsub
          (fun q n hq hqn => hpath q ▸ hkeep (name :: q) n (hcons hq) (hat' hqn))
          (fun q hq hqne hskip => hmount (name :: q) (hcons hq) (by simpa using hqne) (hpath q ▸ hinside hskip))
          (fun q hq cause fatal herr => hok (name :: q) (hcons hq) cause fatal (hpath q ▸ hinside herr))
        exact ⟨e, hinside he, hpath rest ▸ hrep⟩

lemma Folder.items_valid (folder : Folder) (h : folder.WellFormed) : ∀ item ∈ folder.items, ValidName item.1 := by
  cases folder with
  | nil => simp [Folder.items]
  | cons name node rest =>
    rw [Folder.items, List.forall_mem_cons]
    exact ⟨h.1.toValidName, rest.items_valid h.2.2.2⟩

lemma items_increase {entries : SeenList} (hf : folder.WellFormed) (h : ListsOrFails listing path folder)
    (hl : listing path = .entries entries.items entries.cause) : NamesIncrease entries.items := by
  rw [ListsOrFails, hl] at h
  cases hc : entries.cause with
  | none =>
    rw [hc] at h
    have heq : entries.items = folder.items := h
    rw [heq]
    exact folder.items_increase hf
  | some cause =>
    rw [hc] at h
    exact (folder.items_increase hf).sublist (List.IsPrefix.sublist h)

section Tidy

variable {cfg : Config} {listing : Path → Listed}

mutual
lemma Seen.tidy {path : Path} {fileType : FileType} {depth : ℕ} {ancestors : List ObjectId} {node : Node} :
    ∀ seen : Seen, Unfolds cfg listing path fileType depth ancestors seen → node.WellFormed →
      node.Answers cfg listing path → node.fileType = fileType → seen.Increasing ∧ seen.AllNames ValidName
  | .dropped, _, _, _, _ => ⟨trivial, trivial⟩
  | .leaf, _, _, _, _ => ⟨trivial, trivial⟩
  | .failed _, _, _, _, _ => ⟨trivial, trivial⟩
  | .halted _, _, _, _, _ => ⟨trivial, trivial⟩
  | .skipped _, _, _, _, _ => ⟨trivial, trivial⟩
  | .entered id unknown entries, hu, hf, ha, hft => by
    obtain ⟨-, hdir, -, hl, hentries⟩ := hu
    obtain ⟨identity, mount, folder, rfl⟩ := node_of_dir (hft.trans hdir)
    exact entries.tidy hentries hf ha.2.2.2 (items_subset ha.2.2.1 hl) (items_increase hf ha.2.2.1 hl)
lemma SeenList.tidy {path : Path} {depth : ℕ} {ancestors : List ObjectId} {folder : Folder} :
    ∀ entries : SeenList, UnfoldsList cfg listing path depth ancestors entries → folder.WellFormed →
      folder.Answers cfg listing path → entries.items ⊆ folder.items → NamesIncrease entries.items →
      entries.Increasing ∧ entries.AllNames ValidName
  | .nil, _, _, _, _, _ => ⟨trivial, trivial⟩
  | .broken _, _, _, _, _, _ => ⟨trivial, trivial⟩
  | .cons name fileType seen rest, hu, hf, ha, hitems, hinc => by
    rw [SeenList.items, List.cons_subset] at hitems
    obtain ⟨node, hmem, hft⟩ := Folder.mem_of_item hitems.1
    have hnode := seen.tidy hu.2.1 (Folder.wellFormed_of_mem hf hmem).2 (Folder.answers_of_mem ha hmem) hft
    have hrest := rest.tidy hu.2.2 hf ha hitems.2 hinc.of_cons
    exact ⟨⟨fun item hitem => List.rel_of_pairwise_cons hinc hitem, hnode.1, hrest.1⟩,
      folder.items_valid hf _ hitems.1, hnode.2, hrest.2⟩
end

end Tidy

lemma Folder.at_ne_nil {rest : Path} (h : folder.at rest = some node) : rest ≠ [] := by
  rintro rfl
  rw [Folder.at] at h
  cases h

lemma nodeAt_of_folderAt {p q : Path} {name : Bytes} {n : Node} (hfind : folder.find name = some node)
    (hp : path ++ [name] <+: p) (hq : q <+: p) (h : FolderAt folder path q n) :
    NodeAt node (path ++ [name]) q n := by
  obtain ⟨rest, rfl, hat⟩ := h
  obtain ⟨first, rest, rfl⟩ := List.exists_cons_of_ne_nil (Folder.at_ne_nil hat)
  obtain rfl : name = first := by
    obtain ⟨t, rfl⟩ := hp
    rw [List.append_assoc, List.singleton_append, List.prefix_append_right_inj] at hq
    exact (List.cons_prefix_cons.mp hq).1.symm
  obtain ⟨rfl, hnode⟩ | ⟨identity, mount, sub, hne, hdir, hsub⟩ := Folder.find_of_at hat
  · exact .inl ⟨rfl, Option.some.inj (hnode.symm.trans hfind)⟩
  · refine .inr ⟨identity, mount, sub, rest, Option.some.inj (hfind.symm.trans hdir), by simp, hsub⟩

section Selected

variable {cfg : Config} {listing : Path → Listed} {e : RawEvent} {p q : Path} {n : Node}

lemma selected_here {fileType : FileType} (hkeep : cfg.select path fileType = .keep)
    (hft : node.fileType = fileType) (hq : q <+: path) (h : NodeAt node path q n) :
    cfg.select q n.fileType = .keep := by
  obtain ⟨rfl, rfl⟩ | ⟨identity, mount, sub, rest, -, rfl, hat⟩ := h
  · rwa [hft]
  · have hlen := hq.length_le
    have hpos := List.length_pos_of_ne_nil (Folder.at_ne_nil hat)
    rw [List.length_append] at hlen
    omega

mutual
lemma Seen.selected {path : Path} {fileType : FileType} {depth : ℕ} {ancestors : List ObjectId} {node : Node}
    (hp : reported e = some p) (hq : q <+: p) :
    ∀ seen : Seen, Unfolds cfg listing path fileType depth ancestors seen → node.WellFormed →
      node.Answers cfg listing path → node.fileType = fileType → e ∈ seen.events path fileType →
      NodeAt node path q n → cfg.select q n.fileType = .keep
  | .dropped, _, _, _, _, he, _ => by cases he
  | .leaf, hu, _, _, hft, he, hn => by
    obtain rfl : path = p := (leafEvents_path he).symm.trans (reported_eventPath hp)
    exact selected_here hu.1 hft hq hn
  | .failed cause, hu, _, _, hft, he, hn => by
    obtain rfl : e = _ := by simpa [Seen.events] using he
    obtain rfl : path = p := reported_eventPath hp
    exact selected_here hu.1 hft hq hn
  | .halted cause, _, _, _, _, he, _ => by
    obtain rfl : e = _ := by simpa [Seen.events] using he
    cases hp
  | .skipped id, hu, _, _, hft, he, hn => by
    simp only [Seen.events, List.mem_cons, List.not_mem_nil, or_false] at he
    obtain rfl | rfl | rfl := he
    · obtain rfl : path = p := reported_eventPath hp
      exact selected_here hu.1 hft hq hn
    · cases hp
    · cases hp
  | .entered id unknown entries, hu, hf, ha, hft, he, hn => by
    obtain ⟨hkeep, hdir, -, hl, hentries⟩ := hu
    simp only [Seen.events, List.mem_cons, List.mem_append, List.not_mem_nil, or_false] at he
    obtain rfl | he | he | rfl := he
    · obtain rfl : path = p := reported_eventPath hp
      exact selected_here hkeep hft hq hn
    · rw [(unknownEvents_path he).2] at hp
      cases hp
    · obtain ⟨hqpath, hnode⟩ | ⟨identity, mount, sub, rest, rfl, hqpath, hat⟩ := hn
      · rwa [hqpath, hnode, hft]
      · exact entries.selected hp hq hentries hf ha.2.2.2 (items_subset ha.2.2.1 hl) he ⟨rest, hqpath, hat⟩
    · cases hp
lemma SeenList.selected {path : Path} {depth : ℕ} {ancestors : List ObjectId} {folder : Folder}
    (hp : reported e = some p) (hq : q <+: p) :
    ∀ entries : SeenList, UnfoldsList cfg listing path depth ancestors entries → folder.WellFormed →
      folder.Answers cfg listing path → entries.items ⊆ folder.items → e ∈ entries.events path →
      FolderAt folder path q n → cfg.select q n.fileType = .keep
  | .nil, _, _, _, _, he, _ => by cases he
  | .broken cause, _, _, _, _, he, _ => by
    obtain rfl : e = _ := by simpa [SeenList.events] using he
    cases hp
  | .cons name fileType seen rest, hu, hf, ha, hitems, he, hn => by
    rw [SeenList.items, List.cons_subset] at hitems
    rw [SeenList.events, List.mem_append] at he
    obtain he | he := he
    · obtain ⟨node, hmem, hft⟩ := Folder.mem_of_item hitems.1
      have hbelow : path ++ [name] <+: p := reported_eventPath hp ▸ seen.events_below he
      exact seen.selected hp hq hu.2.1 (Folder.wellFormed_of_mem hf hmem).2 (Folder.answers_of_mem ha hmem) hft he
        (nodeAt_of_folderAt (Folder.find_eq hf hmem) hbelow hq hn)
    · exact rest.selected hp hq hu.2.2 hf ha hitems.2 he hn
end

end Selected

end Flux.Walk
