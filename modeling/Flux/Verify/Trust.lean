import Flux.Verify.Run
import Flux.Walk.Truth

/-! What a verification that did not fail says about the two trees, whatever failed on the way. -/

namespace Flux.Verify

open Base Wal Walk

section Contents

variable {blake3 : Bytes → Digest} {src dst : Contents} {path : Path}

lemma hashReader_ok {cap : ℕ} (hcap : 0 < cap) {ds : List (Delivery IoError)} {acc rest : Bytes}
    {d : Digest} {n : ℕ} (h : hashReader blake3 cap acc rest ds = .ok (d, n)) : d = blake3 (acc ++ rest) := by
  induction ds generalizing acc rest with
  | nil =>
    rw [hashReader] at h
    cases h
    rfl
  | cons delivery ds ih =>
    cases delivery with
    | upTo k =>
      rw [hashReader] at h
      split at h
      · rename_i htake
        have hrest : rest = [] := by
          obtain hzero | hrest := List.take_eq_nil_iff.mp htake
          · omega
          · exact hrest
        cases h
        rw [hrest, List.append_nil]
      · rw [ih h, List.append_assoc, List.take_append_drop]
    | interrupted => exact ih h
    | failed e => cases h

lemma hashFile_ok {c : Contents} {d : Digest} {n : ℕ} (h : hashFile blake3 c path = .ok (d, n)) :
    ∃ s, c.openRead path = .ok s ∧ d = blake3 s.rest := by
  rw [hashFile] at h
  split at h
  · cases h
  · rename_i s hs
    split at h
    · cases h
    · rename_i r hr
      cases h
      exact ⟨s, hs, hashReader_ok (by decide) hr⟩

lemma compareFiles_ok {n : ℕ} (h : compareFiles blake3 src dst path = (.ok none, n)) :
    ∃ s t, src.openRead path = .ok s ∧ dst.openRead path = .ok t ∧ blake3 s.rest = blake3 t.rest := by
  rw [compareFiles] at h
  split at h
  · cases h
  · rename_i s sn hs
    split at h
    · cases h
    · rename_i d dn hd
      split at h
      · cases h
      · rename_i heq
        obtain ⟨a, ha, rfl⟩ := hashFile_ok hs
        obtain ⟨b, hb, rfl⟩ := hashFile_ok hd
        exact ⟨a, b, ha, hb, not_not.mp heq⟩

inductive Matching (blake3 : Bytes → Digest) (src dst : Contents) (path : Path) : Kind → Kind → Prop
  | dirs : Matching blake3 src dst path .dir .dir
  | files {s t : ByteStream IoError} : src.openRead path = .ok s → dst.openRead path = .ok t →
      blake3 s.rest = blake3 t.rest → Matching blake3 src dst path .file .file
  | symlinks {payload : Bytes} : src.readLink path = .ok payload → dst.readLink path = .ok payload →
      Matching blake3 src dst path .symlink .symlink

lemma comparePair_matched {k l : Kind} (h : (comparePair blake3 src dst path k l).1.outcome = .matched) :
    Matching blake3 src dst path k l := by
  unfold comparePair at h
  split at h
  · split at h
    · rename_i hfiles
      obtain ⟨s, t, hs, ht, heq⟩ := compareFiles_ok hfiles
      exact .files hs ht heq
    · cases h
    · cases h
  · split at h
    · cases h
    · rename_i s hs
      split at h
      · cases h
      · rename_i d hd
        split at h
        · rename_i heq
          exact .symlinks hs (heq ▸ hd)
        · cases h
  · cases h
  · cases h

lemma pairRecord_matched {p : Pairing} {x y : Item} (h : (pairRecord p x y).outcome = .matched) :
    Matching p.blake3 p.src p.dst x.path x.kind y.kind := by
  have hfailed := not_failed_of_matched h
  rw [pairRecord, hfailed] at h
  simp only [] at h
  split at h
  · rename_i hdirs
    rw [hdirs.1, hdirs.2]
    exact .dirs
  · exact comparePair_matched h

end Contents

def kindOf : Node → Kind
  | .leaf .file => .file
  | .leaf .symlink => .symlink
  | .leaf .other => .other
  | .dir _ _ _ => .dir

variable {e : RawEvent}

lemma FromEvent.node {events : List RawEvent} {i : Item} {cfg : Config} {at' : Path → Node → Prop}
    (h : FromEvent events e i) (hfailed : i.failed = none) (htrue : EventTrue cfg at' e) :
    ∃ node, at' i.path node ∧ kindOf node = i.kind := by
  cases h with
  | failed hf =>
    rw [item] at hfailed
    split at hfailed <;> cases hfailed
  | dir _ =>
    obtain ⟨identity, mount, folder, hat⟩ := htrue
    rw [(item_path _ _ _ _).1, (item_path _ _ _ _).2.1]
    exact ⟨_, hat, rfl⟩
  | file =>
    rw [(item_path _ _ _ _).1, (item_path _ _ _ _).2.1]
    exact ⟨_, htrue, rfl⟩
  | symlink =>
    rw [(item_path _ _ _ _).1, (item_path _ _ _ _).2.1]
    exact ⟨_, htrue, rfl⟩
  | other =>
    rw [(item_path _ _ _ _).1, (item_path _ _ _ _).2.1]
    exact ⟨_, htrue, rfl⟩

lemma FromEvent.mount {events : List RawEvent} {i : Item} (h : FromEvent events e i) (hn : i.notEntered = true) :
    .ok (.mountSkipped i.path) ∈ events := by
  cases h with
  | failed hf =>
    rw [(item_path _ _ _ _).2.2] at hn
    cases hn
  | dir hd =>
    rw [(item_path _ _ _ _).2.2] at hn
    rw [(item_path _ _ _ _).1]
    exact hd hn
  | file =>
    rw [(item_path _ _ _ _).2.2] at hn
    cases hn
  | symlink =>
    rw [(item_path _ _ _ _).2.2] at hn
    cases hn
  | other =>
    rw [(item_path _ _ _ _).2.2] at hn
    cases hn

lemma FromEvent.of_reports {events : List RawEvent} {i : Item} {node : Node} {path : Path}
    (h : FromEvent events e i) (hr : Reports path e node) : i.path = path ∧ i.kind = kindOf node := by
  cases node with
  | dir identity mount folder =>
    obtain ⟨id, rfl⟩ := hr
    cases h
    exact ⟨(item_path _ _ _ _).1, (item_path _ _ _ _).2.1⟩
  | leaf kind =>
    cases kind
    all_goals
      obtain rfl : e = _ := by simpa [Reports, leafEvents, Leaf.fileType] using hr
      cases h
      exact ⟨(item_path _ _ _ _).1, (item_path _ _ _ _).2.1⟩

lemma reported_of_reports {path : Path} {node : Node} (h : Reports path e node) : reported e = some path := by
  cases node with
  | dir identity mount folder =>
    obtain ⟨id, rfl⟩ := h
    rfl
  | leaf kind =>
    cases kind
    all_goals
      obtain rfl : e = _ := by simpa [Reports, leafEvents, Leaf.fileType] using h
      rfl

lemma symlink_of_reports {path q : Path} {node : Node} (h : Reports path (.ok (.symlink q)) node) :
    kindOf node = .symlink := by
  cases node with
  | dir identity mount folder =>
    obtain ⟨id, heq⟩ := h
    cases heq
  | leaf kind =>
    cases kind
    · simp [Reports, leafEvents, Leaf.fileType] at h
    · rfl
    · simp [Reports, leafEvents, Leaf.fileType] at h

section Trees

variable {σ E : Type}

/-- The calls under a root, each of which tells the truth about a tree or fails. -/
structure Truthful (Live : σ → Remainders E → Prop) (listing : Path → Listed)
    (o : Options) (r : Root σ E) (tree : Folder) (bytes payload : Path → Bytes) : Prop where
  lawful : Lawful Live r.lister listing
  live : Live r.space []
  single : SingleNames listing
  wellFormed : tree.WellFormed
  lists : ListsOrFails listing [] tree
  answers : tree.Answers (r.config o) listing []
  files : ∀ path s, r.contents.openRead path = .ok s → s.rest = bytes path
  links : ∀ path b, r.contents.readLink path = .ok b → b = payload path

def Root.Sees (r : Root σ E) (o : Options) (listing : Path → Listed) (seen : RootSeen) : Prop :=
  ∃ m, r.metadata [] = .ok m ∧ m.fileType = .dir ∧ RootUnfolds (r.config o) listing m.identity seen

def Gives (r : Root σ E) (o : Options) (listing : Path → Listed) (skipLinks : Bool) (filter : ControlFilter)
    (items : Option (List Item × Option FsError)) : Prop :=
  items = none ∨ ∃ seen, r.Sees o listing seen ∧ items = sideItems skipLinks filter seen

section Side

variable {Live : σ → Remainders E → Prop} {listing : Path → Listed} {o : Options}
  {r : Root σ E} {tree : Folder} {bytes payload : Path → Bytes} {skipLinks : Bool} {filter : ControlFilter}

lemma Truthful.inOrder (h : Truthful Live listing o r tree bytes payload)
    {items : Option (List Item × Option FsError)}
    (hg : Gives r o listing skipLinks filter items) : ∀ x ∈ items, InOrder x.1 := by
  intro x hx
  obtain rfl | ⟨seen, ⟨m, -, -, hu⟩, rfl⟩ := hg
  · cases hx
  cases seen with
  | failed cause => cases hx
  | halted cause =>
    cases hx
    exact ⟨.nil, by simp⟩
  | entered entries =>
    cases hx
    have htidy := entries.tidy hu.2 h.wellFormed h.answers (items_subset h.lists hu.1)
      (items_increase h.wellFormed h.lists hu.1)
    exact scan_inOrder htidy.1 htidy.2

lemma Truthful.new_returns (h : Truthful Live listing o r tree bytes payload) {seen : RootSeen}
    (hs : r.Sees o listing seen) (skipLinks : Bool) (filter : ControlFilter) :
    Returns (Side.new (r.config o) r.lister r.space skipLinks filter)
      (NewSide (next (r.config o) r.lister) (sideItems skipLinks filter seen)) := by
  obtain ⟨m, hm, hdir, hu⟩ := hs
  exact Side.new_returns h.lawful h.live hm hdir hu skipLinks filter

lemma Truthful.exists_new (h : Truthful Live listing o r tree bytes payload) (skipLinks : Bool)
    (filter : ControlFilter) :
    ∃ items, Gives r o listing skipLinks filter items ∧
    Returns (Side.new (r.config o) r.lister r.space skipLinks filter)
      (NewSide (next (r.config o) r.lister) items) := by
  by_cases hs : ∃ seen, r.Sees o listing seen
  · obtain ⟨seen, hs⟩ := hs
    exact ⟨_, .inr ⟨seen, hs, rfl⟩, h.new_returns hs skipLinks filter⟩
  · refine ⟨none, .inl rfl, Side.new_fails skipLinks filter ?_⟩
    intro m hm hdir
    obtain ⟨seen, hu⟩ := exists_rootUnfolds h.single m.identity
    exact hs ⟨seen, m, hm, hdir, hu⟩

lemma Truthful.item_true (h : Truthful Live listing o r tree bytes payload) {entries : SeenList}
    (hs : r.Sees o listing (.entered entries)) {i : Item} (hi : i ∈ scan skipLinks filter (entries.events [])) :
    (i.failed = none → ∃ node, tree.at i.path = some node ∧ kindOf node = i.kind) ∧
      (i.notEntered = true → o.mounts = .stay ∧ ∃ identity folder,
        tree.at i.path = some (.dir identity .yes folder)) := by
  obtain ⟨m, -, -, hlist, hu⟩ := hs
  obtain ⟨e, he, hfrom, -⟩ := scan_sound hi
  have hsound : ∀ {e}, e ∈ entries.events [] → EventTrue (r.config o) (FolderAt tree []) e :=
    fun he => entries.sound hu h.wellFormed h.answers (items_subset h.lists hlist) he
  have hat : ∀ p n, FolderAt tree [] p n → tree.at p = some n := by
    rintro p n ⟨rest, rfl, hat⟩
    exact hat
  constructor
  · intro hfailed
    obtain ⟨node, hnode, hkind⟩ := hfrom.node hfailed (hsound he)
    exact ⟨node, hat _ _ hnode, hkind⟩
  · intro hn
    obtain ⟨hstay, identity, folder, hnode⟩ := hsound (hfrom.mount hn)
    exact ⟨hstay, identity, folder, hat _ _ hnode⟩

lemma closed_scan {entries : SeenList} {bs : List Item} (hf : fatalOf (entries.events []) = none) :
    Closed (scan skipLinks .none (entries.events [])) bs := by
  intro x hx q hq hqx hqne
  obtain ⟨e, he, hfrom, -⟩ := scan_sound hx
  obtain ⟨id, hid⟩ := entries.dir_above hfrom.path hqx hqne he List.nil_prefix hq
  obtain ⟨i, hi, hmem⟩ := scan_complete hf hid rfl (by simp)
  refine .inl ⟨i, hmem rfl, ?_⟩
  exact (Option.some.inj hi.path).symm

lemma scan_path_ne_nil {entries : SeenList} : ∀ i ∈ scan skipLinks filter (entries.events []), i.path ≠ [] := by
  intro i hi
  obtain ⟨e, he, hfrom, -⟩ := scan_sound hi
  obtain ⟨item, -, hbelow⟩ := entries.reports_below (mem_reports.mpr ⟨e, he, hfrom.path⟩)
  rintro heq
  rw [heq] at hbelow
  simpa using List.prefix_nil.mp hbelow

end Side

def Selected (o : Options) (tree : Folder) (p : Path) : Prop :=
  ∀ q node, q <+: p → tree.at q = some node → o.select q node.fileType = .keep

def BelowMount (o : Options) (tree : Folder) (p : Path) : Prop :=
  o.mounts = .stay ∧ ∃ q identity folder, q <+: p ∧ q ≠ p ∧ tree.at q = some (.dir identity .yes folder)

structure Alike (srcBytes srcLink dstBytes dstLink : Path → Bytes) (p : Path) (node node' : Node) : Prop where
  kind : kindOf node' = kindOf node
  bytes : kindOf node = .file → dstBytes p = srcBytes p
  link : kindOf node = .symlink → dstLink p = srcLink p

def ItemsTrue (o : Options) (tree : Folder) (items : List Item) : Prop :=
  ∀ i ∈ items, i.path ≠ [] ∧ (i.failed = none → ∃ node, tree.at i.path = some node ∧ kindOf node = i.kind) ∧
    (i.notEntered = true → o.mounts = .stay ∧ ∃ identity folder, tree.at i.path = some (.dir identity .yes folder))

section Clean

variable {Live : σ → Remainders E → Prop} {listing : Path → Listed}
  {o : Options} {src : Root σ E} {srcTree dstTree : Folder} {srcBytes srcLink dstBytes dstLink : Path → Bytes}
  {c : Pairing} {entries : SeenList} {bs : List Item} {rs : List Record} {p : Path}

lemma ItemsTrue.mount {items : List Item} {tree : Folder} (h : ItemsTrue o tree items) {i : Item} (hi : i ∈ items)
    (hn : i.notEntered = true) (hip : i.path <+: p) (hne : i.path ≠ p) : BelowMount o tree p := by
  obtain ⟨hstay, identity, folder, hat⟩ := (h i hi).2.2 hn
  exact ⟨hstay, i.path, identity, folder, hip, hne, hat⟩

structure CleanMerge (Live : σ → Remainders E → Prop) (listing : Path → Listed)
    (o : Options) (src : Root σ E) (srcTree dstTree : Folder) (srcBytes srcLink : Path → Bytes) (c : Pairing)
    (entries : SeenList) (bs : List Item) (rs : List Record) : Prop where
  source : Truthful Live listing o src srcTree srcBytes srcLink
  sees : src.Sees o listing (.entered entries)
  unbroken : fatalOf (entries.events []) = none
  destination : ItemsTrue o dstTree bs
  merges : MergesTo c false false (scan o.skipLinks .none (entries.events [])) bs rs
  clean : ∀ r ∈ rs, Clean r

namespace CleanMerge

variable (h : CleanMerge Live listing o src srcTree dstTree srcBytes srcLink c entries bs rs)

include h

lemma matched {x : Item} (hx : x ∈ scan o.skipLinks .none (entries.events [])) (hxp : x.path <+: p)
    (hma : ¬ BelowMount o srcTree p) (hmb : ¬ BelowMount o dstTree p) :
    ∃ y ∈ bs, y.path = x.path ∧ (pairRecord c x y).outcome = .matched := by
  have hsrc : ItemsTrue o srcTree (scan o.skipLinks .none (entries.events [])) :=
    fun i hi => ⟨scan_path_ne_nil i hi, h.source.item_true h.sees hi⟩
  have htrusted := h.merges.trusted h.clean (closed_scan h.unbroken) fun i hi => (h.destination i hi).1
  obtain hmatch | ⟨x', hx', y', hy', heq, hpre, hne, hnot⟩ := htrusted x hx
  · exact hmatch
  have hlt : x'.path ≠ p := fun hp => hne (hpre.eq_of_length_le (hp ▸ hxp.length_le))
  obtain hnot | hnot := hnot
  · exact absurd (hsrc.mount hx' hnot (hpre.trans hxp) hlt) hma
  · exact absurd (h.destination.mount hy' hnot (heq ▸ hpre.trans hxp) (heq ▸ hlt)) hmb

lemma not_failed (hma : ¬ BelowMount o srcTree p) (hmb : ¬ BelowMount o dstTree p) {q : Path} (hq : q <+: p)
    (cause : FsError) (fatal : Bool) : .error ⟨q, cause, fatal⟩ ∉ entries.events [] := by
  intro herr
  have hfatal : fatal = false := fatalOf_eq_none.mp h.unbroken _ herr
  subst hfatal
  obtain ⟨i, hfrom, hi⟩ := scan_complete h.unbroken herr rfl (by simp)
  have hpath : i.path = q := (Option.some.inj hfrom.path).symm
  obtain ⟨y, -, -, hmatch⟩ := h.matched (hi rfl) (hpath ▸ hq) hma hmb
  have hnone := (Option.or_eq_none_iff.mp (not_failed_of_matched hmatch)).1
  cases hfrom
  rw [item] at hnone
  split at hnone <;> cases hnone

lemma items_complete : entries.items = srcTree.items := by
  obtain ⟨m, -, -, hlist, -⟩ := h.sees
  have hlists := h.source.lists
  rw [ListsOrFails, hlist] at hlists
  cases hc : entries.cause with
  | none =>
    rw [hc] at hlists
    exact hlists
  | some cause => cases fatalOf_eq_none.mp h.unbroken _ (SeenList.broken_mem_events hc)

lemma exists_item {node : Node} (hat : srcTree.at p = some node) (hsel : Selected o srcTree p)
    (hlink : kindOf node = .symlink → o.skipLinks = false) (hma : ¬ BelowMount o srcTree p)
    (hmb : ¬ BelowMount o dstTree p) :
    ∃ x ∈ scan o.skipLinks .none (entries.events []), x.path = p ∧ x.kind = kindOf node := by
  obtain ⟨m, hmeta, hdir, hlist, hu⟩ := h.sees
  have hmount : ∀ q, q <+: p → q ≠ p → .ok (.mountSkipped q) ∈ entries.events [] → BelowMount o srcTree p := by
    intro q hq hne hskip
    obtain ⟨hstay, identity, folder, rest, hrest, hat⟩ := entries.sound hu h.source.wellFormed h.source.answers
      (items_subset h.source.lists hlist) hskip
    rw [List.nil_append] at hrest
    exact ⟨hstay, q, identity, folder, hq, hne, hrest ▸ hat⟩
  obtain ⟨e, he, hreports⟩ := exists_report h.source.wellFormed h.source.answers hu h.items_complete hat
    (fun q n hq hqn => hsel q n hq hqn)
    (fun q hq hne hskip => hma (hmount q hq hne hskip)) (fun q hq => h.not_failed hma hmb hq)
  have hshown : ∀ q, e = .ok (.symlink q) → o.skipLinks = false := by
    rintro q rfl
    exact hlink (symlink_of_reports hreports)
  obtain ⟨x, hfrom, hx⟩ := scan_complete h.unbroken he (by rw [reported_of_reports hreports]; rfl) hshown
  exact ⟨x, hx rfl, hfrom.of_reports hreports⟩

lemma exists_alike (hfiles : ∀ path s, c.dst.openRead path = .ok s → s.rest = dstBytes path)
    (hlinks : ∀ path b, c.dst.readLink path = .ok b → b = dstLink path) (hsrc : c.src = src.contents)
    (hcollide : ∀ path, c.blake3 (srcBytes path) = c.blake3 (dstBytes path) → srcBytes path = dstBytes path)
    {node : Node} (hat : srcTree.at p = some node) (hsel : Selected o srcTree p)
    (hlink : kindOf node = .symlink → o.skipLinks = false) (hma : ¬ BelowMount o srcTree p)
    (hmb : ¬ BelowMount o dstTree p) :
    ∃ node', dstTree.at p = some node' ∧ Alike srcBytes srcLink dstBytes dstLink p node node' := by
  obtain ⟨x, hx, rfl, hxk⟩ := h.exists_item hat hsel hlink hma hmb
  obtain ⟨y, hy, hyx, hmatch⟩ := h.matched hx List.prefix_rfl hma hmb
  obtain ⟨node', hat', hkind⟩ := (h.destination y hy).2.1
    (Option.or_eq_none_iff.mp (not_failed_of_matched hmatch)).2
  rw [hyx] at hat'
  refine ⟨node', hat', ?_⟩
  have hcontents := pairRecord_matched hmatch
  rw [hxk, ← hkind, hsrc] at hcontents
  generalize hk : kindOf node = k at hcontents
  generalize hk' : kindOf node' = k' at hcontents
  cases hcontents with
  | dirs => exact ⟨by rw [hk, hk'], by simp [hk], by simp [hk]⟩
  | files hs ht heq =>
    refine ⟨by rw [hk, hk'], fun _ => (hcollide _ ?_).symm, by simp [hk]⟩
    rw [← h.source.files _ _ hs, ← hfiles _ _ ht, heq]
  | symlinks hs ht =>
    refine ⟨by rw [hk, hk'], by simp [hk], fun _ => ?_⟩
    rw [← hlinks _ _ ht, ← h.source.links _ _ hs]

end CleanMerge

end Clean

lemma Truthful.itemsTrue {Live : σ → Remainders E → Prop} {listing : Path → Listed}
    {o : Options} {r : Root σ E} {tree : Folder} {bytes payload : Path → Bytes} {skipLinks : Bool}
    {filter : ControlFilter} {items : List Item} (h : Truthful Live listing o r tree bytes payload)
    (hg : Gives r o listing skipLinks filter (some (items, none))) : ItemsTrue o tree items := by
  obtain hnone | ⟨seen, hs, heq⟩ := hg
  · cases hnone
  cases seen with
  | failed cause => cases heq
  | halted cause => cases heq
  | entered entries =>
    obtain ⟨rfl, -⟩ := Prod.mk.inj (Option.some.inj heq)
    exact fun i hi => ⟨scan_path_ne_nil i hi, h.item_true hs hi⟩

lemma sideItems_of_fatal (skipLinks : Bool) (filter : ControlFilter) {seen : RootSeen}
    (h : fatalOf seen.events ≠ none) : ∃ items cause, sideItems skipLinks filter seen = some (items, some cause) ∧
      ∀ i ∈ items, i.path ∈ reports (untilFatal seen.events) := by
  obtain ⟨cause, hcause⟩ := Option.ne_none_iff_exists'.mp h
  cases seen with
  | failed e => cases hcause
  | halted e => exact ⟨[], e, rfl, by simp⟩
  | entered entries =>
    have hcause : fatalOf (entries.events []) = some cause := hcause
    refine ⟨scan skipLinks filter (entries.events []), cause, by rw [sideItems, hcause], ?_⟩
    intro i hi
    rw [← scan_untilFatal] at hi
    exact (scan_paths _).subset (List.mem_map_of_mem hi)

section Verdict

variable {LiveA LiveB : σ → Remainders E → Prop} {srcListing dstListing : Path → Listed}
  {o : Options} {src dst : Root σ E} {srcTree dstTree : Folder} {srcBytes srcLink dstBytes dstLink : Path → Bytes}

lemma destination_returns (hd : Truthful LiveB dstListing o dst dstTree dstBytes dstLink) (absent : Bool) :
    ∃ b, (∀ items, b = some (items, none) → ItemsTrue o dstTree items) ∧ (∀ x ∈ b, InOrder x.1) ∧
      Returns (destinationSide o .root dst absent) (NewSide (next (dst.config o) dst.lister) b) := by
  cases absent with
  | true =>
    refine ⟨some ([], none), ?_, ?_, .pure ⟨_, rfl, rfl, empty_shows, .inl rfl⟩⟩
    · intro items heq
      cases heq
      simp [ItemsTrue]
    · intro x hx
      cases hx
      exact ⟨.nil, by simp⟩
  | false =>
    obtain ⟨b, hg, hb⟩ := hd.exists_new false .root
    exact ⟨b, fun items heq => hd.itemsTrue (heq ▸ hg), hd.inOrder hg, hb⟩

variable {blake3 : Bytes → Digest} {checked : Except String RootVerdict} {result : Except VerifyError Summary}
  {records : List Record}

lemma compares_or_fails (h : verifyTree blake3 o src dst checked = pure (result, records)) :
    (∃ verdict absent, checked = .ok verdict ∧ verdict.compares = some absent) ∨
      (RunFailed result ∧ ∀ r ∈ records, r.outcome = .unreadable) := by
  cases checked with
  | error reason =>
    obtain ⟨rfl, rfl⟩ := Prod.mk.inj (Except.ok.inj (Option.some.inj h))
    exact .inr ⟨trivial, by simp⟩
  | ok verdict =>
    cases verdict with
    | absent => exact .inl ⟨_, _, rfl, rfl⟩
    | checked id => exact .inl ⟨_, _, rfl, rfl⟩
    | unreadable side error =>
      have heq := Except.ok.inj (Option.some.inj (verifyTree_unreadable.symm.trans h))
      have hfailed := rootUnreadable_failed (side ++ error.source.message) error.code
      rw [heq] at hfailed
      exact .inr hfailed

variable (hs : Truthful LiveA srcListing o src srcTree srcBytes srcLink)
  (hd : Truthful LiveB dstListing o dst dstTree dstBytes dstLink)

include hs hd

lemma verifyTree_total (checked : Except String RootVerdict) :
    ∃ result records, verifyTree blake3 o src dst checked = pure (result, records) := by
  have hcompares : ∀ verdict absent, verdict.compares = some absent →
      ∃ result records, verifyTree blake3 o src dst (.ok verdict) = pure (result, records) := by
    intro verdict absent hv
    obtain ⟨a, hga, ha⟩ := hs.exists_new o.skipLinks .none
    obtain ⟨b, -, hob, hb⟩ := destination_returns hd absent
    obtain ⟨r, hr, -⟩ := verifyTree_returns hv (compareSides_returns blake3 ha hb (hs.inOrder hga) hob)
    exact ⟨r.1, r.2, hr⟩
  cases checked with
  | error reason => exact ⟨_, _, rfl⟩
  | ok verdict =>
    cases hv : verdict.compares with
    | some absent => exact hcompares verdict absent hv
    | none =>
      cases verdict with
      | absent => cases hv
      | checked id => cases hv
      | unreadable side error => exact ⟨_, _, verifyTree_unreadable⟩

lemma verifyTree_clean (h : verifyTree blake3 o src dst checked = pure (result, records))
    (hok : ¬ RunFailed result) : ∃ entries bs, CleanMerge LiveA srcListing o src srcTree dstTree srcBytes srcLink
      ⟨blake3, src.contents, dst.contents⟩ entries bs records := by
  obtain ⟨verdict, absent, rfl, hv⟩ := (compares_or_fails h).resolve_right fun hf => hok hf.1
  obtain ⟨a, hga, ha⟩ := hs.exists_new o.skipLinks .none
  obtain ⟨b, htrue, hob, hb⟩ := destination_returns hd absent
  have hoa := hs.inOrder hga
  obtain ⟨c, hc, heq⟩ := (verifyTree_returns hv (compareSides_returns blake3 ha hb hoa hob)).of_eq h
  have hresult : result = (conclude c).1 := congrArg Prod.fst heq
  have hrecords : records = c.2.records := by
    rw [show records = (conclude c).2 from congrArg Prod.snd heq, conclude]
    split <;> rfl
  obtain ⟨as, bs, rfl, rfl, hmerges, hclean⟩ := hc.clean hoa hob (hresult ▸ hok)
  obtain hnone | ⟨seen, hsees, heq⟩ := hga
  · cases hnone
  rw [← hrecords] at hmerges hclean
  cases seen with
  | failed cause => cases heq
  | halted cause => cases heq
  | entered entries =>
    obtain ⟨rfl, hf⟩ := Prod.mk.inj (Option.some.inj heq)
    exact ⟨entries, bs, hs, hsees, hf.symm, htrue bs rfl, hmerges, hclean⟩

lemma verifyTree_source_fatal (h : verifyTree blake3 o src dst checked = pure (result, records)) {seen : RootSeen}
    (hsees : src.Sees o srcListing seen) (hfatal : fatalOf seen.events ≠ none) :
    RunFailed result ∧ ∀ r ∈ records, r.outcome = .extra → ∃ q ∈ reports (untilFatal seen.events), r.path < q := by
  obtain ⟨verdict, absent, rfl, hv⟩ | ⟨hfailed, hrecords⟩ := compares_or_fails h
  · obtain ⟨b, -, hob, hb⟩ := destination_returns hd absent
    obtain ⟨items, cause, hitems, hpaths⟩ := sideItems_of_fatal o.skipLinks .none hfatal
    have ha := hs.new_returns hsees o.skipLinks .none
    have hoa := hs.inOrder (.inr ⟨seen, hsees, hitems.symm⟩)
    rw [hitems] at ha
    obtain ⟨c, hc, heq⟩ := (verifyTree_returns hv (compareSides_returns blake3 ha hb hoa hob)).of_eq h
    obtain ⟨hfailed, hextra⟩ := hc.source_fatal (hoa _ rfl) hob
    rw [← heq] at hfailed hextra
    refine ⟨hfailed, fun r hr hout => ?_⟩
    obtain ⟨x, hx, hlt⟩ := hextra r hr hout
    exact ⟨x.path, hpaths x hx, hlt⟩
  · refine ⟨hfailed, fun r hr hout => ?_⟩
    rw [hrecords r hr] at hout
    cases hout

lemma verifyTree_destination_fatal (h : verifyTree blake3 o src dst checked = pure (result, records))
    {seen : RootSeen}
    (hsees : dst.Sees o dstListing seen) (hpresent : checked ≠ .ok .absent) (hfatal : fatalOf seen.events ≠ none) :
    RunFailed result ∧ ∀ r ∈ records, r.outcome = .missing → ∃ q ∈ reports (untilFatal seen.events),
    r.path < q := by
  obtain ⟨verdict, absent, rfl, hv⟩ | ⟨hfailed, hrecords⟩ := compares_or_fails h
  · obtain rfl : absent = false := by
      cases verdict with
      | absent => exact absurd rfl hpresent
      | unreadable side error => cases hv
      | checked id => exact (Option.some.inj hv).symm
    obtain ⟨a, hga, ha⟩ := hs.exists_new o.skipLinks .none
    obtain ⟨items, cause, hitems, hpaths⟩ := sideItems_of_fatal false .root hfatal
    have hb := hd.new_returns hsees false .root
    have hoa := hs.inOrder hga
    have hob := hd.inOrder (.inr ⟨seen, hsees, hitems.symm⟩)
    rw [hitems] at hb
    obtain ⟨c, hc, heq⟩ := (verifyTree_returns hv (compareSides_returns blake3 ha hb hoa hob)).of_eq h
    obtain ⟨hfailed, hmissing⟩ := hc.destination_fatal hoa (hob _ rfl)
    rw [← heq] at hfailed hmissing
    refine ⟨hfailed, fun r hr hout => ?_⟩
    obtain ⟨y, hy, hlt⟩ := hmissing r hr hout
    exact ⟨y.path, hpaths y hy, hlt⟩
  · refine ⟨hfailed, fun r hr hout => ?_⟩
    rw [hrecords r hr] at hout
    cases hout

end Verdict

def Undisturbed (r : Root σ E) (o : Options) (listing : Path → Listed) (entries : SeenList) : Prop :=
  r.Sees o listing (.entered entries) ∧ (∀ e, .error e ∉ entries.events []) ∧
    ∀ p, .ok (.mountSkipped p) ∉ entries.events []

lemma Undisturbed.unbroken {r : Root σ E} {o : Options} {listing : Path → Listed} {entries : SeenList}
    (h : Undisturbed r o listing entries) : fatalOf (entries.events []) = none := by
  refine fatalOf_eq_none.mpr ?_
  intro e he
  cases e with
  | error e => exact absurd he (h.2.1 e)
  | ok e => rfl

lemma verifyTree_undisturbed {LiveA LiveB : σ → Remainders E → Prop}
    {srcListing dstListing : Path → Listed} {o : Options} {src dst : Root σ E} {srcTree dstTree : Folder}
    {srcBytes srcLink dstBytes dstLink : Path → Bytes} (blake3 : Bytes → Digest) {a b : SeenList}
    (hs : Truthful LiveA srcListing o src srcTree srcBytes srcLink)
    (hd : Truthful LiveB dstListing o dst dstTree dstBytes dstLink) (ha : Undisturbed src o srcListing a)
    (hb : Undisturbed dst o dstListing b) (id : Option ObjectId) : ∃ out : Emitter,
    verifyTree blake3 o src dst (.ok (.checked id)) = pure (.ok out.summary, out.records) ∧
      InOrder (scan o.skipLinks .none (a.events [])) ∧ InOrder (scan false .root (b.events [])) ∧
      MergesTo ⟨blake3, src.contents, dst.contents⟩ false false (scan o.skipLinks .none (a.events []))
        (scan false .root (b.events [])) out.records ∧ Tallied out := by
  have hreturnsA := hs.new_returns ha.1 o.skipLinks .none
  have hreturnsB := hd.new_returns hb.1 false .root
  have hoa := hs.inOrder (.inr ⟨_, ha.1, rfl⟩ : Gives src o srcListing o.skipLinks .none _)
  have hob := hd.inOrder (.inr ⟨_, hb.1, rfl⟩ : Gives dst o dstListing false .root _)
  obtain ⟨r, hr, c, hc, rfl⟩ := verifyTree_returns (rfl : (RootVerdict.checked id).compares = some false)
    (compareSides_returns blake3 hreturnsA hreturnsB hoa hob)
  simp only [sideItems, ha.unbroken, hb.unbroken] at hc hoa hob
  cases hc with
  | merged hrecords htallied hended =>
    obtain ⟨result, out⟩ := c
    cases result with
    | error e =>
      obtain hnone | hnone := hended
      · cases hnone
      · cases hnone
    | ok u =>
      have hoa := hoa _ rfl
      have hob := hob _ rfl
      refine ⟨out, hr, hoa, hob, ?_, htallied⟩
      have hmerges := mergesTo ⟨blake3, src.contents, dst.contents⟩ false false hoa hob
      rwa [show mergeItems _ false false _ _ = out.records from hrecords.symm] at hmerges

theorem clean_verify_trustworthy {LiveA LiveB : σ → List (E × List (Bytes × FileType) × Option FsError) → Prop}
    {srcListing dstListing : Path → Listed} {o : Options} {src dst : Root σ E} {srcTree dstTree : Folder}
    {srcBytes srcLink dstBytes dstLink : Path → Bytes} {blake3 : Bytes → Digest}
    (hs : Truthful LiveA srcListing o src srcTree srcBytes srcLink)
    (hd : Truthful LiveB dstListing o dst dstTree dstBytes dstLink)
    (hcollide : ∀ path, blake3 (srcBytes path) = blake3 (dstBytes path) → srcBytes path = dstBytes path)
    (checked : Except String RootVerdict) :
    ∃ result records, verifyTree blake3 o src dst checked = pure (result, records) ∧
      (¬ RunFailed result → ∀ p node, srcTree.at p = some node → Selected o srcTree p →
        (kindOf node = .symlink → o.skipLinks = false) → ¬ BelowMount o srcTree p → ¬ BelowMount o dstTree p →
        ∃ node', dstTree.at p = some node' ∧ Alike srcBytes srcLink dstBytes dstLink p node node') ∧
      (∀ seen, src.Sees o srcListing seen → fatalOf seen.events ≠ none → RunFailed result ∧
        ∀ r ∈ records, r.outcome = .extra → ∃ q ∈ reports (untilFatal seen.events), r.path < q) ∧
      (∀ seen, dst.Sees o dstListing seen → checked ≠ .ok .absent → fatalOf seen.events ≠ none → RunFailed result ∧
        ∀ r ∈ records, r.outcome = .missing → ∃ q ∈ reports (untilFatal seen.events), r.path < q) := by
  obtain ⟨result, records, h⟩ := verifyTree_total hs hd checked
  refine ⟨result, records, h, ?_, fun seen hsees hfatal => verifyTree_source_fatal hs hd h hsees hfatal,
    fun seen hsees hpresent hfatal => verifyTree_destination_fatal hs hd h hsees hpresent hfatal⟩
  intro hok p node hat hsel hlink hma hmb
  obtain ⟨entries, bs, hclean⟩ := verifyTree_clean hs hd h hok
  exact hclean.exists_alike hd.files hd.links rfl hcollide hat hsel hlink hma hmb

end Trees

abbrev Answer := List (Bytes × FileType) × Option FsError

def tableNext : Answer → Option (Except FsError DirEntry) × Answer
  | (item :: rest, broken) => (some (.ok ⟨item.1, item.2, none⟩), rest, broken)
  | ([], some cause) => (some (.error cause), [], none)
  | ([], none) => (none, [], none)

def tableLister (listing : Path → Listed) : Lister Unit Answer where
  list s path := pure (match listing path with
    | .refused cause => .error (.listing cause)
    | .fatal cause => .error (.fatal cause)
    | .entries items broken => .ok (items, broken), s)
  next _ e := pure (tableNext e)
  drop s _ := s
  empty := ([], none)

def TableLive (_ : Unit) (live : Remainders Answer) : Prop :=
  ∀ x ∈ live, x.1 = x.2

lemma tableLister_lawful (listing : Path → Listed) : Lawful TableLive (tableLister listing) listing where
  list s live path hlive := by
    refine .pure ?_
    cases listing path with
    | refused cause => exact ⟨rfl, hlive⟩
    | fatal cause => exact ⟨rfl, hlive⟩
    | entries items broken => exact ⟨_, rfl, List.forall_mem_cons.mpr ⟨rfl, hlive⟩⟩
  next s e items broken live hlive := by
    obtain ⟨heq, hrest⟩ := List.forall_mem_cons.mp hlive
    obtain rfl : e = (items, broken) := heq
    refine .pure ?_
    cases items with
    | cons item rest => exact ⟨⟨_, rfl, rfl, rfl⟩, List.forall_mem_cons.mpr ⟨rfl, hrest⟩⟩
    | nil =>
      cases broken with
      | some cause => exact rfl
      | none => exact ⟨rfl, List.forall_mem_cons.mpr ⟨rfl, hrest⟩⟩
  drop _ _ _ _ _ hlive := (List.forall_mem_cons.mp hlive).2
  empty _ _ hlive := List.forall_mem_cons.mpr ⟨rfl, hlive⟩

def padDigest (bytes : Bytes) : Digest := ⟨(bytes ++ List.replicate 32 0).take 32, by simp⟩

def Lettered (entries : List (UInt8 × Leaf)) : Prop :=
  (∀ e ∈ entries, 97 ≤ e.1) ∧ entries.Pairwise fun e e' => e.1 < e'.1

instance (entries : List (UInt8 × Leaf)) : Decidable (Lettered entries) := inferInstanceAs (Decidable (_ ∧ _))

def flatTree : List (UInt8 × Leaf) → Folder
  | [] => .nil
  | (letter, kind) :: rest => .cons [letter] (.leaf kind) (flatTree rest)

def flatSeen : List (UInt8 × Leaf) → SeenList
  | [] => .nil
  | (letter, kind) :: rest => .cons [letter] kind.fileType .leaf (flatSeen rest)

def flatListing (entries : List (UInt8 × Leaf)) (path : Path) : Listed :=
  if path = [] then .entries (flatTree entries).items none else .entries [] none

def flatOptions : Options := ⟨false, .cross, fun _ _ => .keep⟩

def flatRoot (listing : Path → Listed) (bytes : Path → Bytes) : Root Unit Answer where
  metadata _ := .ok ⟨0, .dir, none, none, .strong ⟨1, 1⟩, none⟩
  mountRoot _ := .ok .no
  lister := tableLister listing
  space := ()
  contents := ⟨fun path => .ok ⟨bytes path, []⟩, fun _ => .ok []⟩

section Flat

variable {entries : List (UInt8 × Leaf)}

lemma entryName_letter {b : UInt8} (hb : 97 ≤ b) : EntryName [b] := by
  have hne (c : UInt8) (hc : c < 97) : b ≠ c := fun he => absurd (he ▸ hb) (UInt8.not_le.mpr hc)
  exact ⟨⟨by simp, by simpa using (hne 0 (by decide)).symm⟩, by simpa using (hne 47 (by decide)).symm,
    by simpa using hne 46 (by decide), by simp⟩

lemma mem_flatTree_items {item : Bytes × FileType} (h : item ∈ (flatTree entries).items) :
    ∃ e ∈ entries, item.1 = [e.1] := by
  induction entries with
  | nil => cases h
  | cons e rest ih =>
    obtain rfl | h := List.mem_cons.mp h
    · exact ⟨e, List.mem_cons_self, rfl⟩
    · obtain ⟨e', he, heq⟩ := ih h
      exact ⟨e', List.mem_cons_of_mem _ he, heq⟩

lemma flatTree_wellFormed (h : Lettered entries) : (flatTree entries).WellFormed := by
  obtain ⟨hletters, hsorted⟩ := h
  induction entries with
  | nil => trivial
  | cons e rest ih =>
    obtain ⟨hhead, hrest⟩ := List.pairwise_cons.mp hsorted
    refine ⟨entryName_letter (hletters e List.mem_cons_self), fun item hitem => ?_, trivial,
      ih (fun e' he' => hletters e' (List.mem_cons_of_mem _ he')) hrest⟩
    obtain ⟨e', he', heq⟩ := mem_flatTree_items hitem
    rw [heq]
    exact List.cons_lt_cons_iff.mpr (.inl (hhead e' he'))

lemma flatListing_single (h : Lettered entries) : SingleNames (flatListing entries) := by
  intro path items broken hlisting item hitem
  simp only [flatListing] at hlisting
  split at hlisting
  · cases hlisting
    obtain ⟨e, he, heq⟩ := mem_flatTree_items hitem
    rw [heq]
    exact (entryName_letter (h.1 e he)).isOneComponent
  · cases hlisting
    cases hitem

lemma flat_truthful (h : Lettered entries) {listing : Path → Listed} (hsingle : SingleNames listing)
    (hlists : ListsOrFails listing [] (flatTree entries)) (bytes : Path → Bytes) :
    Truthful TableLive listing flatOptions (flatRoot listing bytes) (flatTree entries) bytes (fun _ => []) where
  lawful := tableLister_lawful listing
  live := by simp [TableLive]
  single := hsingle
  wellFormed := flatTree_wellFormed h
  lists := hlists
  answers := by
    clear h hlists
    induction entries with
    | nil => trivial
    | cons e rest ih => exact ⟨trivial, ih⟩
  files path s h := by
    cases h
    rfl
  links path b h := by
    cases h
    rfl

lemma flat_undisturbed (h : Lettered entries) (bytes : Path → Bytes) :
    Undisturbed (flatRoot (flatListing entries) bytes) flatOptions (flatListing entries) (flatSeen entries) := by
  have hitems : (flatTree entries).items = (flatSeen entries).items ∧ (flatSeen entries).cause = none := by
    clear h
    induction entries with
    | nil => exact ⟨rfl, rfl⟩
    | cons e rest ih => exact ⟨congrArg _ ih.1, ih.2⟩
  have hunfolds : UnfoldsList ((flatRoot (flatListing entries) bytes).config flatOptions)
    (flatListing entries) [] 1 (strongId (.strong ⟨1, 1⟩)).toList (flatSeen entries) := by
    clear hitems
    obtain ⟨hletters, -⟩ := h
    generalize flatListing entries = listing
    induction entries with
    | nil => trivial
    | cons e rest ih =>
      refine ⟨(entryName_letter (hletters e List.mem_cons_self)).isOneComponent, ⟨rfl, ?_⟩, ?_⟩
      · cases e.2 <;> simp [Leaf.fileType]
      · exact ih (fun e' he' => hletters e' (List.mem_cons_of_mem _ he'))
  have hevents : ∀ e ∈ (flatSeen entries).events [], (∀ err, e ≠ .error err) ∧ ∀ p, e ≠ .ok (.mountSkipped p) := by
    clear h hitems hunfolds
    induction entries with
    | nil => exact fun e he => absurd he List.not_mem_nil
    | cons x rest ih =>
      intro e he
      rcases List.mem_append.mp he with he | he
      · obtain ⟨letter, kind⟩ := x
        cases kind <;> simp_all [Seen.events, leafEvents, Leaf.fileType]
      · exact ih e he
  refine ⟨⟨_, rfl, rfl, ?_, hunfolds⟩, fun err he => (hevents _ he).1 err rfl, fun p he => (hevents _ he).2 p rfl⟩
  rw [hitems.2, ← hitems.1]
  rfl

end Flat

def brokenListing (_ : Path) : Listed :=
  .entries [] (some ⟨.diskFull, ⟨.other, some enospcRaw, "no space left on device"⟩⟩)

lemma brokenListing_single : SingleNames brokenListing := by
  intro path items broken h item hitem
  cases h
  cases hitem

lemma not_runFailed_flat {result : Except VerifyError Summary} {records : List Record}
    (h : verifyTree padDigest flatOptions (flatRoot (flatListing [(97, .file)]) fun _ => [1])
      (flatRoot (flatListing [(97, .file), (98, .file)]) fun _ => [1]) (.ok (.checked none)) =
        pure (result, records)) : ¬ RunFailed result := by
  have hletters : Lettered [(97, .file)] ∧ Lettered [(97, .file), (98, .file)] := by decide
  have hsrc := flat_truthful hletters.1 (flatListing_single hletters.1) rfl fun _ => [1]
  have hdst := flat_truthful hletters.2 (flatListing_single hletters.2) rfl fun _ => [1]
  obtain ⟨out, hout, -, -, hmerges, htallied⟩ := verifyTree_undisturbed padDigest hsrc hdst
    (flat_undisturbed hletters.1 _) (flat_undisturbed hletters.2 _) none
  have hitems : scan flatOptions.skipLinks .none ((flatSeen [(97, .file)]).events []) =
      [⟨[[97]], pathKey [[97]], .file, false, none⟩] ∧
      scan false .root ((flatSeen [(97, .file), (98, .file)]).events []) =
        [⟨[[97]], pathKey [[97]], .file, false, none⟩, ⟨[[98]], pathKey [[98]], .file, false, none⟩] :=
          ⟨rfl, rfl⟩
  rw [hitems.1, hitems.2] at hmerges
  have hcleanAll : ∀ r ∈ out.records, Clean r := by
    intro r hr
    obtain ⟨x, hx, hne, -⟩ | ⟨y, hy, -, rfl⟩ | ⟨x, hx, y, hy, -, rfl⟩ :=
      (hmerges.mem_iff (by simp [Item.Plain]) r).mp hr
    · cases List.mem_singleton.mp hx
      exact absurd rfl (hne _ List.mem_cons_self)
    · simp only [List.mem_cons, List.not_mem_nil, or_false] at hy
      obtain rfl | rfl := hy <;> exact .inr rfl
    · cases List.mem_singleton.mp hx
      simp only [List.mem_cons, List.not_mem_nil, or_false] at hy
      obtain rfl | rfl := hy <;> exact .inl rfl
  obtain rfl : _ = result := congrArg Prod.fst (Except.ok.inj (Option.some.inj (hout.symm.trans h)))
  simpa [RunFailed] using htallied.failed_iff.mpr hcleanAll

theorem clean_verify_trustworthy_flat :
    (∃ result records, verifyTree padDigest flatOptions (flatRoot (flatListing [(97, .file)]) fun _ => [1])
        (flatRoot brokenListing fun _ => [1]) (.ok (.checked none)) = pure (result, records) ∧ RunFailed result ∧
      ∀ r ∈ records, r.outcome ≠ .missing) ∧
    ∃ result records, verifyTree padDigest flatOptions (flatRoot (flatListing [(97, .file)]) fun _ => [1])
        (flatRoot (flatListing [(97, .file), (98, .file)]) fun _ => [1]) (.ok (.checked none)) =
        pure (result, records) ∧ ¬ RunFailed result ∧
      ∃ node', (flatTree [(97, .file), (98, .file)]).at [[97]] = some node' ∧
        Alike (fun _ => [1]) (fun _ => []) (fun _ => [1]) (fun _ => []) [[97]] (.leaf .file) node' := by
  have hletters : Lettered [(97, .file)] ∧ Lettered [(97, .file), (98, .file)] := by decide
  have hsrc := flat_truthful hletters.1 (flatListing_single hletters.1) rfl fun _ => [1]
  have hdst := flat_truthful hletters.2 (flatListing_single hletters.2) rfl fun _ => [1]
  have hbroken := flat_truthful hletters.1 brokenListing_single List.nil_prefix fun _ => [1]
  have hdigest : ∀ path : Path, padDigest ((fun _ : Path => [1]) path) = padDigest ((fun _ : Path => [1]) path) →
      (fun _ : Path => ([1] : Bytes)) path = (fun _ : Path => [1]) path := fun _ _ => rfl
  constructor
  · obtain ⟨result, records, h, -, -, hfails⟩ :=
      clean_verify_trustworthy hsrc hbroken hdigest (.ok (.checked none))
    obtain ⟨hfailed, hmissing⟩ := hfails (.entered (.broken _)) ⟨_, rfl, rfl, rfl, trivial⟩ (by simp) (by decide)
    refine ⟨result, records, h, hfailed, fun r hr hout => ?_⟩
    obtain ⟨q, hq, -⟩ := hmissing r hr hout
    cases hq
  · obtain ⟨result, records, h, hclean, -⟩ := clean_verify_trustworthy hsrc hdst hdigest (.ok (.checked none))
    have hcross : ∀ tree p, ¬ BelowMount flatOptions tree p := by
      rintro _ _ ⟨hstay, -⟩
      cases hstay
    have hok := not_runFailed_flat h
    exact ⟨result, records, h, hok, hclean hok [[97]] _ rfl (fun _ _ _ _ => rfl) (fun _ => rfl) (hcross _ _)
      (hcross _ _)⟩

end Flux.Verify
