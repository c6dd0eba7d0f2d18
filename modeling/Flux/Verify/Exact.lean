import Flux.Verify.Trust

/-! When nothing fails and no mount is left out, the records are the difference of the two trees. -/

namespace Flux.Verify

open Base Wal Walk

structure Has (o : Options) (skipLinks : Bool) (filter : ControlFilter) (tree : Folder) (p : Path) (kind : Kind) :
    Prop where
  here : ∃ node, tree.at p = some node ∧ kindOf node = kind
  selected : Selected o tree p
  shown : kind = .symlink → skipLinks = false
  visible : isControlState ⟨p, pathKey p, kind, false, none⟩ filter = false

def expectedPair (blake3 : Bytes → Digest) (srcBytes srcLink dstBytes dstLink : Path → Bytes)
    (p : Path) (k l : Kind) : Record :=
  if k ≠ l then ⟨p, .mismatched, k, some .verifyMismatch, "source " ++ k.asStr ++ ", destination " ++ l.asStr⟩
  else match k with
    | .dir => ⟨p, .matched, .dir, none, ""⟩
    | .file =>
      if srcBytes p = dstBytes p then ⟨p, .matched, .file, none, ""⟩
      else ⟨p, .mismatched, .file, some .verifyMismatch,
        shortHex (blake3 (srcBytes p)) ++ " != " ++ shortHex (blake3 (dstBytes p))⟩
    | .symlink =>
      if srcLink p = dstLink p then ⟨p, .matched, .symlink, none, ""⟩
      else ⟨p, .mismatched, .symlink, some .verifyMismatch, "symlink payloads differ"⟩
    | .other => ⟨p, .unreadable, .other, some .specialFileUnsupported, specialNotCompared⟩

variable (blake3 : Bytes → Digest) {p : Path}

lemma expectedPair_path (srcBytes srcLink dstBytes dstLink : Path → Bytes) (p : Path) (k l : Kind) :
    (expectedPair blake3 srcBytes srcLink dstBytes dstLink p k l).path = p := by
  unfold expectedPair
  split
  · rfl
  · split
    · rfl
    · split <;> rfl
    · split <;> rfl
    · rfl

inductive Expected (src dst : Path → Kind → Prop) (pair : Path → Kind → Kind → Record) : Record → Prop
  | missing {p : Path} {k : Kind} : src p k → (∀ l, ¬ dst p l) → Expected src dst pair ⟨p, .missing, k, none, ""⟩
  | extra {p : Path} {l : Kind} : (∀ k, ¬ src p k) → dst p l → Expected src dst pair ⟨p, .extra, l, none, ""⟩
  | both {p : Path} {k l : Kind} : src p k → dst p l → Expected src dst pair (pair p k l)

structure Readable (c : Contents) (tree : Folder) : Prop where
  files : ∀ p, tree.at p = some (.leaf .file) → ∃ s, c.openRead p = .ok s ∧ ∀ e, .failed e ∉ s.schedule
  links : ∀ p, tree.at p = some (.leaf .symlink) → ∃ b, c.readLink p = .ok b

section Contents

variable {p : Path}

lemma hashReader_clean {cap : ℕ} (hcap : 0 < cap) {ds : List (Delivery IoError)} (h : ∀ e, .failed e ∉ ds)
    (acc rest : Bytes) : ∃ n, hashReader blake3 cap acc rest ds = .ok (blake3 (acc ++ rest), n) := by
  induction ds generalizing acc rest with
  | nil => exact ⟨_, rfl⟩
  | cons delivery ds ih =>
    have hds : ∀ e, .failed e ∉ ds := fun e he => h e (List.mem_cons_of_mem _ he)
    cases delivery with
    | upTo k =>
      rw [hashReader]
      split
      · rename_i htake
        obtain hzero | rfl := List.take_eq_nil_iff.mp htake
        · omega
        · exact ⟨_, by rw [List.append_nil]⟩
      · obtain ⟨n, hn⟩ := ih hds (acc ++ rest.take (min (max k 1) cap)) (rest.drop (min (max k 1) cap))
        rw [List.append_assoc, List.take_append_drop] at hn
        exact ⟨n, hn⟩
    | interrupted => exact ih hds acc rest
    | failed e => exact absurd List.mem_cons_self (h e)

lemma hashFile_clean {c : Contents} {s : ByteStream IoError} (hs : c.openRead p = .ok s)
    (h : ∀ e, .failed e ∉ s.schedule) : ∃ n, hashFile blake3 c p = .ok (blake3 s.rest, n) := by
  obtain ⟨n, hn⟩ := hashReader_clean blake3 (by decide : 0 < copyBufMax) h [] s.rest
  refine ⟨n, ?_⟩
  rw [hashFile, hs]
  simp only [hn]
  rfl

end Contents

section Sides

variable {σ E : Type} {Live : σ → Remainders E → Prop} {listing : Path → Listed}
  {o : Options} {r : Root σ E} {tree : Folder} {bytes payload : Path → Bytes} {skipLinks : Bool}
    {filter : ControlFilter} {entries : SeenList}

variable {e : RawEvent}

lemma event_names (h : Truthful Live listing o r tree bytes payload) (hs : r.Sees o listing (.entered entries))
    (he : e ∈ entries.events []) (hp : reported e = some p) : ∀ n ∈ p, ValidName n := by
  obtain ⟨m, -, -, hlist, hu⟩ := hs
  have htidy := entries.tidy hu h.wellFormed h.answers (items_subset h.lists hlist)
    (items_increase h.wellFormed h.lists hlist)
  exact reported_eventPath hp ▸ entries.events_names (by simp) htidy.2 he

lemma FromEvent.plain {events : List RawEvent} {i : Item} (h : FromEvent events e i)
    (hvalid : ∀ n ∈ i.path, ValidName n) (herr : ∀ e, .error e ∉ events)
    (hmount : ∀ p, .ok (.mountSkipped p) ∉ events) (he : e ∈ events) :
    i = ⟨i.path, pathKey i.path, i.kind, false, none⟩ := by
  have hentered : i.notEntered = false := by
    cases hn : i.notEntered with
    | false => rfl
    | true => exact absurd (h.mount hn) (hmount _)
  cases h with
  | failed hf => exact absurd he (herr _)
  | dir hd =>
    rw [(item_path _ _ _ _).2.2] at hentered
    rw [(item_path _ _ _ _).1] at hvalid
    rw [item_of_valid hvalid, hentered]
  | file =>
    rw [(item_path _ _ _ _).1] at hvalid
    rw [item_of_valid hvalid]
  | symlink =>
    rw [(item_path _ _ _ _).1] at hvalid
    rw [item_of_valid hvalid]
  | other =>
    rw [(item_path _ _ _ _).1] at hvalid
    rw [item_of_valid hvalid]

lemma FromEvent.of_symlink {events : List RawEvent} {i : Item} (h : FromEvent events e i)
    (hk : i.kind = .symlink) : ∃ p, e = .ok (.symlink p) := by
  cases h with
  | symlink => exact ⟨_, rfl⟩
  | failed hf =>
    rw [(item_path _ _ _ _).2.1] at hk
    cases hk
  | dir hd =>
    rw [(item_path _ _ _ _).2.1] at hk
    cases hk
  | file =>
    rw [(item_path _ _ _ _).2.1] at hk
    cases hk
  | other =>
    rw [(item_path _ _ _ _).2.1] at hk
    cases hk

lemma mem_scan_iff (h : Truthful Live listing o r tree bytes payload) (hu : Undisturbed r o listing entries)
    {i : Item} : i ∈ scan skipLinks filter (entries.events []) ↔
      i = ⟨i.path, pathKey i.path, i.kind, false, none⟩ ∧ Has o skipLinks filter tree i.path i.kind := by
  obtain ⟨m, hm, hdir, hlist, hunfolds⟩ := hu.1
  constructor
  · intro hi
    obtain ⟨e, he, hfrom, hcontrol, hlink⟩ := scan_sound hi
    have hplain := hfrom.plain (event_names h hu.1 he hfrom.path) hu.2.1 hu.2.2 he
    have hfailed : i.failed = none := by rw [hplain]
    refine ⟨hplain, (h.item_true hu.1 hi).1 hfailed, ?_, ?_, hplain ▸ hcontrol⟩
    · intro q node hq hat
      exact entries.selected hfrom.path hq hunfolds h.wellFormed h.answers (items_subset h.lists hlist)
        he ⟨q, rfl, hat⟩
    · intro hk
      obtain ⟨p, rfl⟩ := hfrom.of_symlink hk
      exact hlink p rfl
  · rintro ⟨hplain, ⟨node, hat, hkind⟩, hsel, hshown, hvisible⟩
    have hcomplete : entries.items = tree.items := by
      have hlists := h.lists
      rw [ListsOrFails, hlist] at hlists
      cases hc : entries.cause with
      | none =>
        rw [hc] at hlists
        exact hlists
      | some cause => exact absurd (SeenList.broken_mem_events hc) (hu.2.1 _)
    obtain ⟨e, he, hreports⟩ := exists_report h.wellFormed h.answers hunfolds hcomplete hat (fun q n hq hqn =>
      hsel q n hq hqn) (fun q _ _ => hu.2.2 q) (fun q _ _ _ => hu.2.1 _)
    have hlink : ∀ q, e = .ok (.symlink q) → skipLinks = false := by
      rintro q rfl
      exact hshown (hkind ▸ symlink_of_reports hreports)
    obtain ⟨x, hfrom, hx⟩ := scan_complete hu.unbroken he (by rw [reported_of_reports hreports]; rfl) hlink
    have hxplain := hfrom.plain (event_names h hu.1 he hfrom.path) hu.2.1 hu.2.2 he
    obtain ⟨hxp, hxk⟩ := hfrom.of_reports hreports
    have hxi : x = i := by
      rw [hxplain, hplain, hxp, hxk, hkind]
      rfl
    rw [← hxi] at hvisible ⊢
    exact hx (hxplain ▸ hvisible)

end Sides

section Difference

variable {σ E : Type} {LiveA LiveB : σ → Remainders E → Prop}
  {srcListing dstListing : Path → Listed} {o : Options} {src dst : Root σ E} {srcTree dstTree : Folder}
  {srcBytes srcLink dstBytes dstLink : Path → Bytes} {blake3 : Bytes → Digest}

structure Comparable (LiveA LiveB : σ → Remainders E → Prop)
    (srcListing dstListing : Path → Listed) (o : Options) (src dst : Root σ E) (srcTree dstTree : Folder)
    (srcBytes srcLink dstBytes dstLink : Path → Bytes) (blake3 : Bytes → Digest) : Prop where
  source : Truthful LiveA srcListing o src srcTree srcBytes srcLink
  destination : Truthful LiveB dstListing o dst dstTree dstBytes dstLink
  sourceWalk : ∃ entries, Undisturbed src o srcListing entries
  destinationWalk : ∃ entries, Undisturbed dst o dstListing entries
  sourceReads : Readable src.contents srcTree
  destinationReads : Readable dst.contents dstTree
  collisionFree : ∀ p, blake3 (srcBytes p) = blake3 (dstBytes p) → srcBytes p = dstBytes p

lemma node_of_file {node : Node} (h : kindOf node = .file) : node = .leaf .file := by
  cases node with
  | leaf kind => cases kind <;> simp_all [kindOf]
  | dir identity mount folder => cases h

lemma node_of_symlink {node : Node} (h : kindOf node = .symlink) : node = .leaf .symlink := by
  cases node with
  | leaf kind => cases kind <;> simp_all [kindOf]
  | dir identity mount folder => cases h

variable (h : Comparable LiveA LiveB srcListing dstListing o src dst srcTree dstTree srcBytes srcLink
  dstBytes dstLink blake3)

include h

lemma Comparable.compareFiles (hs : srcTree.at p = some (.leaf .file)) (hd : dstTree.at p = some (.leaf .file)) :
    ∃ n, compareFiles blake3 src.contents dst.contents p = (.ok (if srcBytes p = dstBytes p then none
      else some (shortHex (blake3 (srcBytes p)) ++ " != " ++ shortHex (blake3 (dstBytes p)))), n) := by
  obtain ⟨s, hopen, hclean⟩ := h.sourceReads.files p hs
  obtain ⟨t, hopen', hclean'⟩ := h.destinationReads.files p hd
  obtain ⟨n, hn⟩ := hashFile_clean blake3 hopen hclean
  obtain ⟨n', hn'⟩ := hashFile_clean blake3 hopen' hclean'
  rw [h.source.files p s hopen] at hn
  rw [h.destination.files p t hopen'] at hn'
  refine ⟨n + n', ?_⟩
  rw [Verify.compareFiles, hn, hn']
  simp only []
  by_cases heq : srcBytes p = dstBytes p
  · rw [if_neg (by rw [heq]; simp), if_pos heq]
  · rw [if_pos fun hd => heq (h.collisionFree p hd), if_neg heq]

lemma Comparable.comparePair {k l : Kind} (hs : ∃ node, srcTree.at p = some node ∧ kindOf node = k)
    (hd : ∃ node, dstTree.at p = some node ∧ kindOf node = l) (hdirs : ¬ (k = .dir ∧ l = .dir)) :
    (comparePair blake3 src.contents dst.contents p k l).1 =
      expectedPair blake3 srcBytes srcLink dstBytes dstLink p k l := by
  obtain ⟨node, hat, hk⟩ := hs
  obtain ⟨node', hat', hl⟩ := hd
  by_cases hkl : k = l
  · subst hkl
    cases k with
    | dir => exact absurd ⟨rfl, rfl⟩ hdirs
    | other => simp [Verify.comparePair, expectedPair]
    | file =>
      rw [node_of_file hk] at hat
      rw [node_of_file hl] at hat'
      obtain ⟨n, hn⟩ := h.compareFiles hat hat'
      rw [Verify.comparePair, hn, expectedPair]
      by_cases heq : srcBytes p = dstBytes p <;> simp [heq]
    | symlink =>
      rw [node_of_symlink hk] at hat
      rw [node_of_symlink hl] at hat'
      obtain ⟨b, hb⟩ := h.sourceReads.links p hat
      obtain ⟨b', hb'⟩ := h.destinationReads.links p hat'
      rw [Verify.comparePair, hb, hb', expectedPair, h.source.links p b hb, h.destination.links p b' hb']
      by_cases heq : srcLink p = dstLink p <;> simp [heq]
  · rw [expectedPair.eq_def, if_pos hkl]
    cases k <;> cases l <;> first | exact absurd rfl hkl | rfl

lemma Comparable.pairRecord {k l : Kind} (hs : ∃ node, srcTree.at p = some node ∧ kindOf node = k)
    (hd : ∃ node, dstTree.at p = some node ∧ kindOf node = l) :
    pairRecord ⟨blake3, src.contents, dst.contents⟩ ⟨p, pathKey p, k, false, none⟩ ⟨p, pathKey p, l, false, none⟩ =
      expectedPair blake3 srcBytes srcLink dstBytes dstLink p k l := by
  by_cases hdirs : k = .dir ∧ l = .dir
  · obtain ⟨rfl, rfl⟩ := hdirs
    simp [Verify.pairRecord, expectedPair]
  · rw [← h.comparePair hs hd hdirs]
    simp [Verify.pairRecord, hdirs]

abbrev SourceHas (o : Options) (tree : Folder) : Path → Kind → Prop := Has o o.skipLinks .none tree

abbrev DestinationHas (o : Options) (tree : Folder) : Path → Kind → Prop := Has o false .root tree

lemma Comparable.isRecord_iff {a b : SeenList} (ha : Undisturbed src o srcListing a)
    (hb : Undisturbed dst o dstListing b)
    (r : Record) : IsRecord ⟨blake3, src.contents, dst.contents⟩ (scan o.skipLinks .none (a.events []))
      (scan false .root (b.events [])) r ↔
      Expected (SourceHas o srcTree) (DestinationHas o dstTree)
        (expectedPair blake3 srcBytes srcLink dstBytes dstLink) r := by
  have hsrc : ∀ {i : Item}, i ∈ scan o.skipLinks .none (a.events []) ↔
      i = ⟨i.path, pathKey i.path, i.kind, false, none⟩ ∧ SourceHas o srcTree i.path i.kind :=
        mem_scan_iff h.source ha
  have hdst : ∀ {i : Item}, i ∈ scan false .root (b.events []) ↔
      i = ⟨i.path, pathKey i.path, i.kind, false, none⟩ ∧ DestinationHas o dstTree i.path i.kind :=
    mem_scan_iff h.destination hb
  constructor
  · rintro (⟨x, hx, hne, rfl⟩ | ⟨y, hy, hne, rfl⟩ | ⟨x, hx, y, hy, heq, rfl⟩)
    · obtain ⟨hplain, hhas⟩ := hsrc.mp hx
      have hrecord : aloneRecord x .missing = ⟨x.path, .missing, x.kind, none, ""⟩ := by rw [hplain]; rfl
      rw [hrecord]
      exact .missing hhas fun l hl => hne ⟨x.path, pathKey x.path, l, false, none⟩ (hdst.mpr ⟨rfl, hl⟩) rfl
    · obtain ⟨hplain, hhas⟩ := hdst.mp hy
      have hrecord : aloneRecord y .extra = ⟨y.path, .extra, y.kind, none, ""⟩ := by rw [hplain]; rfl
      rw [hrecord]
      exact .extra (fun k hk => hne ⟨y.path, pathKey y.path, k, false, none⟩ (hsrc.mpr ⟨rfl, hk⟩) rfl) hhas
    · obtain ⟨hplain, hhas⟩ := hsrc.mp hx
      obtain ⟨hplain', hhas'⟩ := hdst.mp hy
      rw [← heq] at hplain' hhas'
      rw [hplain, hplain', h.pairRecord hhas.here hhas'.here]
      exact .both hhas hhas'
  · intro hr
    cases hr with
    | @missing p k hs hd =>
      refine .inl ⟨⟨p, pathKey p, k, false, none⟩, hsrc.mpr ⟨rfl, hs⟩, ?_, rfl⟩
      intro y hy heq
      have hhas := (hdst.mp hy).2
      rw [heq] at hhas
      exact hd y.kind hhas
    | @extra p l hs hd =>
      refine .inr (.inl ⟨⟨p, pathKey p, l, false, none⟩, hdst.mpr ⟨rfl, hd⟩, ?_, rfl⟩)
      intro x hx heq
      have hhas := (hsrc.mp hx).2
      rw [heq] at hhas
      exact hs x.kind hhas
    | @both p k l hs hd =>
      exact .inr (.inr ⟨⟨p, pathKey p, k, false, none⟩, hsrc.mpr ⟨rfl, hs⟩, ⟨p, pathKey p, l, false, none⟩,
        hdst.mpr ⟨rfl, hd⟩, rfl, (h.pairRecord hs.here hd.here).symm⟩)

structure Difference (src dst : Path → Kind → Prop) (pair : Path → Kind → Kind → Record) (summary : Summary)
    (records : List Record) : Prop where
  exact : ∀ r, r ∈ records ↔ Expected src dst pair r
  increasing : records.Pairwise fun r s => pathKey r.path < pathKey s.path
  counted : Tallied ⟨summary, records⟩

lemma Comparable.merges (id : Option ObjectId) : ∃ (a b : SeenList) (out : Emitter),
    verifyTree blake3 o src dst (.ok (.checked id)) = pure (.ok out.summary, out.records) ∧
      Undisturbed src o srcListing a ∧ Undisturbed dst o dstListing b ∧
      InOrder (scan o.skipLinks .none (a.events [])) ∧ InOrder (scan false .root (b.events [])) ∧
      MergesTo ⟨blake3, src.contents, dst.contents⟩ false false (scan o.skipLinks .none (a.events []))
        (scan false .root (b.events [])) out.records ∧ Tallied out := by
  obtain ⟨a, ha⟩ := h.sourceWalk
  obtain ⟨b, hb⟩ := h.destinationWalk
  obtain ⟨out, hr, hoa, hob, hmerges, htallied⟩ := verifyTree_undisturbed blake3 h.source h.destination ha hb id
  exact ⟨a, b, out, hr, ha, hb, hoa, hob, hmerges, htallied⟩

lemma Comparable.mem_records {a b : SeenList} (ha : Undisturbed src o srcListing a)
    (hb : Undisturbed dst o dstListing b)
    {records : List Record} (hm : MergesTo ⟨blake3, src.contents, dst.contents⟩ false false
      (scan o.skipLinks .none (a.events [])) (scan false .root (b.events [])) records) (r : Record) :
    r ∈ records ↔ Expected (SourceHas o srcTree) (DestinationHas o dstTree)
      (expectedPair blake3 srcBytes srcLink dstBytes dstLink) r := by
  rw [hm.mem_iff ?_, h.isRecord_iff ha hb]
  intro i hi
  obtain hi | hi := List.mem_append.mp hi
  · rw [((mem_scan_iff h.source ha).mp hi).1]
    exact ⟨rfl, rfl⟩
  · rw [((mem_scan_iff h.destination hb).mp hi).1]
    exact ⟨rfl, rfl⟩

omit h

lemma MergesTo.keys_increase {p : Pairing} {as bs : List Item} {records : List Record}
    (hm : MergesTo p false false as bs records) (ha : InOrder as) (hb : InOrder bs) :
    records.Pairwise fun r s => pathKey r.path < pathKey s.path := by
  have hvalid : ∀ r ∈ records, ∀ n ∈ r.path, ValidName n := by
    intro r hr
    obtain ⟨i, hi, heq⟩ := hm.path_mem r hr
    rw [heq]
    obtain hi | hi := List.mem_append.mp hi
    · exact (ha.keyed i hi).valid
    · exact (hb.keyed i hi).valid
  exact (List.pairwise_map.mp hm.sorted).imp_of_mem fun hr hs hlt => pathKey_lt hlt (hvalid _ hr) (hvalid _ hs)

theorem verify_exact_difference (h : Comparable LiveA LiveB srcListing dstListing o src dst srcTree dstTree
    srcBytes srcLink dstBytes dstLink blake3) (id : Option ObjectId) : ∃ summary records,
    verifyTree blake3 o src dst (.ok (.checked id)) = pure (.ok summary, records) ∧
      Difference (SourceHas o srcTree) (DestinationHas o dstTree)
      (expectedPair blake3 srcBytes srcLink dstBytes dstLink) summary records := by
  obtain ⟨a, b, out, hr, ha, hb, hoa, hob, hmerges, htallied⟩ := h.merges id
  exact ⟨out.summary, out.records, hr, h.mem_records ha hb hmerges, hmerges.keys_increase hoa hob, htallied⟩

end Difference

section Flat

variable {entries entries' : List (UInt8 × Leaf)}

lemma flat_comparable (h : Lettered entries) (h' : Lettered entries') (bytes bytes' : Path → Bytes)
    (hcollide : ∀ p, padDigest (bytes p) = padDigest (bytes' p) → bytes p = bytes' p) :
    Comparable TableLive TableLive (flatListing entries) (flatListing entries') flatOptions
      (flatRoot (flatListing entries) bytes) (flatRoot (flatListing entries') bytes') (flatTree entries)
      (flatTree entries') bytes (fun _ => []) bytes' (fun _ => []) padDigest where
  source := flat_truthful h (flatListing_single h) rfl bytes
  destination := flat_truthful h' (flatListing_single h') rfl bytes'
  sourceWalk := ⟨_, flat_undisturbed h bytes⟩
  destinationWalk := ⟨_, flat_undisturbed h' bytes'⟩
  sourceReads := ⟨fun _ _ => ⟨_, rfl, by simp⟩, fun _ _ => ⟨_, rfl⟩⟩
  destinationReads := ⟨fun _ _ => ⟨_, rfl, by simp⟩, fun _ _ => ⟨_, rfl⟩⟩
  collisionFree := hcollide

lemma flat_has {filter : ControlFilter} (letter : UInt8) (kind : Leaf)
    (hat : (flatTree entries).at [[letter]] = some (.leaf kind))
    (hvisible : isControlState ⟨[[letter]], pathKey [[letter]], kindOf (.leaf kind), false, none⟩ filter = false) :
    Has flatOptions false filter (flatTree entries) [[letter]] (kindOf (.leaf kind)) where
  here := ⟨_, hat, rfl⟩
  selected _ _ _ _ := rfl
  shown _ := rfl
  visible := hvisible

end Flat

def mixedSource : List (UInt8 × Leaf) := [(97, .file), (98, .file), (100, .file), (101, .file)]

def mixedDestination : List (UInt8 × Leaf) := [(97, .file), (99, .file), (100, .symlink), (101, .file)]

def mixedBytes (path : Path) : Bytes := if path = [[97]] then [2] else [1]

theorem verify_exact_difference_mixed : ∃ summary records,
    verifyTree padDigest flatOptions (flatRoot (flatListing mixedSource) fun _ => [1])
      (flatRoot (flatListing mixedDestination) mixedBytes) (.ok (.checked none)) = pure (.ok summary, records) ∧
      ⟨[[97]], .mismatched, .file, some .verifyMismatch,
        shortHex (padDigest [1]) ++ " != " ++ shortHex (padDigest [2])⟩ ∈ records ∧
      ⟨[[98]], .missing, .file, none, ""⟩ ∈ records ∧ ⟨[[99]], .extra, .file, none, ""⟩ ∈ records ∧
      ⟨[[100]], .mismatched, .file, some .verifyMismatch, "source file, destination symlink"⟩ ∈ records ∧
      ⟨[[101]], .matched, .file, none, ""⟩ ∈ records := by
  have hcollide : ∀ p, padDigest [1] = padDigest (mixedBytes p) → [1] = mixedBytes p := by
    intro p hp
    rw [mixedBytes] at hp ⊢
    split_ifs at hp ⊢
    · exact absurd hp (by decide)
    · rfl
  have hlettered : Lettered mixedSource ∧ Lettered mixedDestination := by decide
  obtain ⟨summary, records, hr, hexact, -, -⟩ := verify_exact_difference
    (flat_comparable hlettered.1 hlettered.2 (fun _ => [1]) mixedBytes hcollide) none
  have hsrc (letter : UInt8) (h : (flatTree mixedSource).at [[letter]] = some (.leaf .file)) :
      SourceHas flatOptions (flatTree mixedSource) [[letter]] .file := flat_has letter .file h rfl
  have habsent {filter : ControlFilter} {p : Path} {entries : List (UInt8 × Leaf)}
    (hp : (flatTree entries).at p = none) (k : Kind) : ¬ Has flatOptions false filter (flatTree entries) p k := by
    rintro ⟨⟨node, hat, -⟩, -⟩
    rw [hp] at hat
    cases hat
  have hboth {p : Path} {k l : Kind} (hs : SourceHas flatOptions (flatTree mixedSource) p k)
      (hd : DestinationHas flatOptions (flatTree mixedDestination) p l) := (hexact _).mpr (.both hs hd)
  refine ⟨summary, records, hr, ?_, ?_, ?_, ?_, ?_⟩
  · exact hboth (hsrc 97 rfl) (flat_has 97 .file rfl (by decide))
  · exact (hexact _).mpr (.missing (hsrc 98 rfl) (habsent rfl))
  · exact (hexact _).mpr (.extra (habsent rfl) (flat_has 99 .file rfl (by decide)))
  · exact hboth (hsrc 100 rfl) (flat_has 100 .symlink rfl (by decide))
  · exact hboth (hsrc 101 rfl) (flat_has 101 .file rfl (by decide))

theorem special_files_unreadable : ∃ summary records,
    verifyTree padDigest flatOptions (flatRoot (flatListing [(102, .other)]) fun _ => [1])
      (flatRoot (flatListing [(102, .other)]) fun _ => [1]) (.ok (.checked none)) = pure (.ok summary, records) ∧
      SourceHas flatOptions (flatTree [(102, .other)]) [[102]] .other ∧
      DestinationHas flatOptions (flatTree [(102, .other)]) [[102]] .other ∧
      ⟨[[102]], .unreadable, .other, some .specialFileUnsupported, specialNotCompared⟩ ∈ records ∧
      ∀ r ∈ records, r.path = [[102]] → r.outcome ≠ .matched := by
  have hlettered : Lettered [(102, .other)] := by decide
  have hcmp := flat_comparable hlettered hlettered (fun _ => [1]) (fun _ => [1]) fun _ _ => rfl
  obtain ⟨a, b, out, hr, ha, hb, -, -, hmerges, -⟩ := hcmp.merges none
  have hsrc : SourceHas flatOptions (flatTree [(102, .other)]) [[102]] .other := flat_has 102 .other rfl rfl
  have hdst : DestinationHas flatOptions (flatTree [(102, .other)]) [[102]] .other :=
    flat_has 102 .other rfl (by decide)
  have hmem := (hcmp.mem_records ha hb hmerges _).mpr (.both hsrc hdst)
  refine ⟨out.summary, out.records, hr, hsrc, hdst, hmem, ?_⟩
  intro r hrecord hpath
  cases (hcmp.mem_records ha hb hmerges r).mp hrecord with
  | missing _ _ => simp
  | extra _ _ => simp
  | @both p k l hk hl =>
    obtain rfl : p = [[102]] := by rwa [expectedPair_path] at hpath
    obtain ⟨node, hat, rfl⟩ := hk.here
    obtain ⟨node', hat', rfl⟩ := hl.here
    cases hat
    cases hat'
    simp [expectedPair, kindOf]

end Flux.Verify
