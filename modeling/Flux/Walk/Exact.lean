import Flux.Spill.Sorted
import Flux.Walk.Tree

/-! However its listings are sorted, the walk of a finite tree reports each entry once, in path order. -/

namespace Flux.Walk

open Base Spill Relation

structure Place where
  path : Path
  depth : ℕ
  ancestors : List ObjectId
  folder : Folder

section Found

variable (cfg : Config)

inductive Enters : Place → Place → Prop
  | into {s : Place} {name : Bytes} {identity : FileIdentity} {mount : MountRoot} {folder : Folder}
    {unknown : Bool} :
      (name, .dir identity mount folder) ∈ s.folder.entries → cfg.select (s.path ++ [name]) .dir = .keep →
      treatment cfg s.depth s.ancestors identity mount = .entered unknown →
      Enters s ⟨s.path ++ [name], s.depth + 1, (strongId identity).toList ++ s.ancestors, folder⟩

def Node.report (depth : ℕ) (ancestors : List ObjectId) (path : Path) : Node → RawEvent
  | .leaf .file => .ok (.file path)
  | .leaf .symlink => .ok (.symlink path)
  | .leaf .other => .ok (.other path)
  | .dir identity mount _ =>
    match treatment cfg depth ancestors identity mount with
    | .tooDeep => .error ⟨path, depthError, false⟩
    | .cycle => .error ⟨path, cycleError, false⟩
    | _ => .ok (.dir path identity)

def Found (s : Place) (e : RawEvent) : Prop :=
  ∃ t name node, ReflTransGen (Enters cfg) s t ∧ (name, node) ∈ t.folder.entries ∧
    cfg.select (t.path ++ [name]) node.fileType = .keep ∧
    e = node.report cfg t.depth t.ancestors (t.path ++ [name])

def FoundAt (depth : ℕ) (ancestors : List ObjectId) (path : Path) (node : Node) (e : RawEvent) : Prop :=
  cfg.select path node.fileType = .keep ∧ (e = node.report cfg depth ancestors path ∨
    ∃ identity mount folder unknown, node = .dir identity mount folder ∧
      treatment cfg depth ancestors identity mount = .entered unknown ∧
      Found cfg ⟨path, depth + 1, (strongId identity).toList ++ ancestors, folder⟩ e)

lemma found_iff {s : Place} {e : RawEvent} : Found cfg s e ↔
    ∃ name node, (name, node) ∈ s.folder.entries ∧ FoundAt cfg s.depth s.ancestors (s.path ++ [name]) node e := by
  constructor
  · rintro ⟨t, name, node, hreach, hmem, hkeep, rfl⟩
    obtain rfl | ⟨s', hstep, hreach⟩ := hreach.cases_head
    · exact ⟨name, node, hmem, hkeep, .inl rfl⟩
    · cases hstep with
      | into hdir hkeep' ht =>
        exact ⟨_, _, hdir, hkeep', .inr ⟨_, _, _, _, rfl, ht, t, name, node, hreach, hmem, hkeep, rfl⟩⟩
  · rintro ⟨name, node, hmem, hkeep, rfl | ⟨identity, mount, folder, unknown, rfl, ht, hfound⟩⟩
    · exact ⟨s, name, node, .refl, hmem, hkeep, rfl⟩
    · obtain ⟨t, name', node', hreach, hmem', hkeep', rfl⟩ := hfound
      exact ⟨t, name', node', .head (.into hmem hkeep ht) hreach, hmem', hkeep', rfl⟩

lemma Node.reported_report (depth : ℕ) (ancestors : List ObjectId) (path : Path) (node : Node) :
    reported (node.report cfg depth ancestors path) = some path := by
  cases node with
  | leaf kind => cases kind <;> rfl
  | dir identity mount folder =>
    rw [Node.report]
    cases treatment cfg depth ancestors identity mount <;> rfl

lemma foundAt_of_not_entered {depth : ℕ} {ancestors : List ObjectId} {path : Path} (node : Node) {e : RawEvent}
    (rest : List RawEvent) (hkeep : cfg.select path node.fileType = .keep) (hrest : ∀ e ∈ rest, reported e = none)
    (hnot : ∀ identity mount folder unknown, node = .dir identity mount folder →
      treatment cfg depth ancestors identity mount ≠ .entered unknown) :
    (e ∈ node.report cfg depth ancestors path :: rest ∧ (reported e).isSome) ↔
    FoundAt cfg depth ancestors path node e := by
  constructor
  · rintro ⟨he, hsome⟩
    obtain rfl | he := List.mem_cons.mp he
    · exact ⟨hkeep, .inl rfl⟩
    · simp [hrest e he] at hsome
  · rintro ⟨-, rfl | ⟨identity, mount, folder, unknown, hnode, ht, -⟩⟩
    · exact ⟨List.mem_cons_self, by rw [Node.reported_report]; rfl⟩
    · exact absurd ht (hnot identity mount folder unknown hnode)

mutual
lemma Node.mem_traverse (depth : ℕ) (ancestors : List ObjectId) (path : Path) (e : RawEvent) :
    ∀ node : Node, (e ∈ node.traverse cfg depth ancestors path ∧ (reported e).isSome) ↔
      FoundAt cfg depth ancestors path node e
  | .leaf kind => by
    rw [Node.traverse]
    split
    · rename_i hkeep
      have hevents : leafEvents path kind.fileType = [(Node.leaf kind).report cfg depth ancestors path] := by
        cases kind <;> rfl
      rw [hevents]
      exact foundAt_of_not_entered cfg _ _ hkeep (by simp) (by simp)
    · rename_i hkeep
      exact ⟨fun h => absurd h.1 List.not_mem_nil, fun h => absurd h.1 hkeep⟩
  | .dir identity mount folder => by
    rw [Node.traverse]
    split
    · rename_i hkeep
      have hnot : ∀ {t : Treatment}, treatment cfg depth ancestors identity mount = t →
        (∀ unknown, t ≠ .entered unknown) →
          ∀ identity' mount' folder' unknown, Node.dir identity mount folder = .dir identity' mount' folder' →
            treatment cfg depth ancestors identity' mount' ≠ .entered unknown := by
        rintro t ht hne identity' mount' folder' unknown heq
        cases heq
        rw [ht]
        exact hne unknown
      have hreport : ∀ {t : Treatment}, treatment cfg depth ancestors identity mount = t →
          (Node.dir identity mount folder).report cfg depth ancestors path = match t with
            | .tooDeep => .error ⟨path, depthError, false⟩
            | .cycle => .error ⟨path, cycleError, false⟩
            | _ => .ok (.dir path identity) := by
        rintro t rfl
        rfl
      cases ht : treatment cfg depth ancestors identity mount with
      | tooDeep =>
        have h := foundAt_of_not_entered cfg (.dir identity mount folder) (e := e) [] hkeep (by simp)
          (hnot ht (by simp))
        rwa [hreport ht] at h
      | mountRoot =>
        have h := foundAt_of_not_entered cfg (.dir identity mount folder) (e := e)
          [.ok (.mountSkipped path), .ok (.dirEnd path)] hkeep (by simp [reported]) (hnot ht (by simp))
        rwa [hreport ht] at h
      | cycle =>
        have h := foundAt_of_not_entered cfg (.dir identity mount folder) (e := e) [] hkeep (by simp)
          (hnot ht (by simp))
        rwa [hreport ht] at h
      | entered unknown =>
        have hinner := folder.mem_traverse (depth + 1) ((strongId identity).toList ++ ancestors) path e
        simp only [List.mem_cons, List.mem_append, List.not_mem_nil, or_false]
        constructor
        · rintro ⟨rfl | he | he | rfl, hsome⟩
          · exact ⟨hkeep, .inl (hreport ht).symm⟩
          · simp [(unknownEvents_path he).2] at hsome
          · exact ⟨hkeep, .inr ⟨identity, mount, folder, unknown, rfl, ht,
              (found_iff cfg).mpr (hinner.mp ⟨he, hsome⟩)⟩⟩
          · simp [reported] at hsome
        · rintro ⟨-, he | ⟨identity', mount', folder', unknown', heq, -, hfound⟩⟩
          · rw [hreport ht] at he
            subst he
            exact ⟨.inl rfl, rfl⟩
          · cases heq
            obtain ⟨he, hsome⟩ := hinner.mpr ((found_iff cfg).mp hfound)
            exact ⟨.inr (.inr (.inl he)), hsome⟩
    · rename_i hkeep
      exact ⟨fun h => absurd h.1 List.not_mem_nil, fun h => absurd h.1 hkeep⟩
lemma Folder.mem_traverse (depth : ℕ) (ancestors : List ObjectId) (path : Path) (e : RawEvent) :
    ∀ folder : Folder, (e ∈ folder.traverse cfg depth ancestors path ∧ (reported e).isSome) ↔
      ∃ name node, (name, node) ∈ folder.entries ∧ FoundAt cfg depth ancestors (path ++ [name]) node e
  | .nil => by simp [Folder.traverse, Folder.entries]
  | .cons name node rest => by
    have hnode := node.mem_traverse depth ancestors (path ++ [name]) e
    have hrest := rest.mem_traverse depth ancestors path e
    rw [Folder.traverse, List.mem_append, or_and_right, hnode, hrest]
    simp only [Folder.entries, List.mem_cons]
    constructor
    · rintro (h | ⟨name', node', hmem, h⟩)
      · exact ⟨name, node, .inl rfl, h⟩
      · exact ⟨name', node', .inr hmem, h⟩
    · rintro ⟨name', node', heq | hmem, h⟩
      · cases heq
        exact .inl h
      · exact .inr ⟨name', node', hmem, h⟩
end

end Found

structure Exact (cfg : Config) (identity : FileIdentity) (root : Folder) (events : List RawEvent) : Prop where
  depthFirst : events = traversal cfg identity root
  entries : ∀ e, (e ∈ events ∧ (reported e).isSome) ↔ Found cfg ⟨[], 1, (strongId identity).toList, root⟩ e
  increasing : (reports events).Pairwise fun p q => pathKey p < pathKey q
  bracketed : Bracketed events
  ended : Ended events
  noted : Noted events

theorem walk_exact {cfg : Config} {readDir : ReadDir} {identity : FileIdentity} {root : Folder}
    (hroot : root.WellFormed) (hshows : ShowsTree cfg readDir identity root) :
    ∃ events, Exact cfg identity root events ∧ ∀ (sort : SortUnstable) (scratch : Option Thresholds) (disk : Disk),
      ∃ w, unstarted cfg disk = .ok w ∧ Yields (next cfg (scratchLister sort scratch readDir)) w events := by
  obtain ⟨hinc, hnames⟩ := root.see_tidy cfg 1 (strongId identity).toList [] hroot
  have hevents : (root.see cfg 1 (strongId identity).toList []).events [] = traversal cfg identity root :=
    root.see_events cfg 1 (strongId identity).toList []
  refine ⟨traversal cfg identity root, ⟨rfl, ?_, ?_, ?_, ?_, ?_⟩, yields_traversal hroot hshows⟩
  · intro e
    rw [found_iff]
    exact root.mem_traverse cfg 1 (strongId identity).toList [] e
  · exact hevents ▸ SeenList.keys_sorted hinc hnames
  · exact hevents ▸ SeenList.bracketed _ hinc
  · exact hevents ▸ (SeenList.noted [] _).2
  · exact hevents ▸ (SeenList.noted [] _).1

section Nested

def nestedRoot : Folder :=
  .cons [97] (.leaf .file)
    (.cons [98] (.dir (.strong ⟨1, 2⟩) .no (.cons [99] (.leaf .symlink) (.cons [100] (.leaf .file) .nil))) .nil)

def nestedConfig : Config where
  metadata path := .ok ⟨0, .dir, none, none, if path = [] then .strong ⟨1, 1⟩ else .strong ⟨1, 2⟩, none⟩
  mountRoot _ := .ok .no
  select _ _ := .keep
  maxDepth := defaultMaxDepth
  mounts := .stay

def nestedReadDir : ReadDir := fun path =>
  (if path = [] then [⟨[98], .dir, none⟩, ⟨[97], .file, none⟩]
    else if path = [[98]] then [⟨[100], .file, none⟩, ⟨[99], .symlink, none⟩] else [], none)

lemma nestedRoot_wellFormed : nestedRoot.WellFormed := by
  have hname (b : UInt8) (hb : b ≠ 0 ∧ b ≠ 46 ∧ b ≠ 47) : EntryName [b] := by
    refine ⟨⟨?_, ?_⟩, ?_, ?_, ?_⟩ <;> simp_all [eq_comm]
  refine ⟨hname 97 (by decide), by decide, trivial, hname 98 (by decide), by decide, ?_, trivial⟩
  exact ⟨hname 99 (by decide), by decide, trivial, hname 100 (by decide), by decide, trivial, trivial⟩

lemma nested_shows : ShowsTree nestedConfig nestedReadDir (.strong ⟨1, 1⟩) nestedRoot where
  orderly := by
    constructor <;> intro path <;> simp only [nestedReadDir] <;> split_ifs <;> simp [u16Max]
  metadata := ⟨_, rfl, rfl, rfl⟩
  reads := ⟨.swap _ _ _, rfl⟩
  shown := ⟨trivial, ⟨⟨_, rfl, rfl, rfl⟩, rfl, ⟨.swap _ _ _, rfl⟩, trivial, trivial, trivial⟩, trivial⟩

theorem walk_exact_nested : ∃ w, unstarted nestedConfig (fun _ => []) = .ok w ∧
    Yields (next nestedConfig (scratchLister mergeSorted (some tiny) nestedReadDir)) w
      [.ok (.file [[97]]), .ok (.dir [[98]] (.strong ⟨1, 2⟩)), .ok (.symlink [[98], [99]]),
        .ok (.file [[98], [100]]), .ok (.dirEnd [[98]])] := by
  obtain ⟨events, hexact, hyields⟩ := walk_exact nestedRoot_wellFormed nested_shows
  obtain ⟨w, hw, hevents⟩ := hyields mergeSorted (some tiny) fun _ => []
  rw [hexact.depthFirst] at hevents
  exact ⟨w, hw, hevents⟩

end Nested

def boundIdentity : FileIdentity := .strong ⟨1, 1⟩

def boundRoot : Folder := .cons [98] (.dir boundIdentity .yes .nil) .nil

def boundConfig (mounts : MountPolicy) : Config where
  metadata _ := .ok ⟨0, .dir, none, none, boundIdentity, none⟩
  mountRoot _ := .ok .yes
  select _ _ := .keep
  maxDepth := defaultMaxDepth
  mounts := mounts

def boundReadDir : ReadDir := fun path => if path = [] then ([⟨[98], .dir, none⟩], none) else ([], none)

lemma boundRoot_wellFormed : boundRoot.WellFormed := by
  refine ⟨⟨⟨?_, ?_⟩, ?_, ?_, ?_⟩, ?_, trivial, trivial⟩
  · decide
  · decide
  · decide
  · decide
  · decide
  · intro item h
    exact absurd h List.not_mem_nil

lemma boundReadDir_orderly : Orderly boundReadDir := by
  constructor
  · intro path e he
    simp only [boundReadDir] at he
    split at he <;> simp_all [u16Max]
  · intro path
    simp only [boundReadDir]
    split <;> simp

lemma bound_shows (mounts : MountPolicy) :
    ShowsTree (boundConfig mounts) boundReadDir boundIdentity boundRoot where
  orderly := boundReadDir_orderly
  metadata := ⟨_, rfl, rfl, rfl⟩
  reads := ⟨.refl _, rfl⟩
  shown := ⟨⟨⟨_, rfl, rfl, rfl⟩, rfl, ⟨.refl _, rfl⟩, trivial⟩, trivial⟩

def isDirEnd : RawEvent → Bool
  | .ok (.dirEnd _) => true
  | _ => false

theorem bound_walk_not_increasing :
    (∃ w events, unstarted (boundConfig .stay) (fun _ => []) = .ok w ∧
      Yields (next (boundConfig .stay) (scratchLister mergeSorted none boundReadDir)) w events ∧
      ((events.filter fun e => !isDirEnd e).map eventPath) = [[[98]], [[98]]] ∧
      ¬ ((events.filter fun e => !isDirEnd e).map eventPath).Pairwise fun p q => pathKey p < pathKey q) ∧
    ∃ w, unstarted (boundConfig .cross) (fun _ => []) = .ok w ∧
      Yields (next (boundConfig .cross) (scratchLister mergeSorted none boundReadDir)) w
        [.error ⟨[[98]], cycleError, false⟩] := by
  obtain ⟨w, hw, hyields⟩ := yields_traversal boundRoot_wellFormed (bound_shows .stay) mergeSorted none fun _ => []
  obtain ⟨w', hw', hyields'⟩ := yields_traversal boundRoot_wellFormed (bound_shows .cross) mergeSorted
    none fun _ => []
  refine ⟨⟨w, _, hw, hyields, rfl, ?_⟩, w', hw', hyields'⟩
  intro h
  have hlt : pathKey [[98]] < pathKey [[98]] := List.rel_of_pairwise_cons h List.mem_cons_self
  exact absurd hlt (lt_irrefl _)

end Flux.Walk
