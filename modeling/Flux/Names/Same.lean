import Flux.Names.Spilled
import Mathlib.Data.Fintype.EquivFin
import Mathlib.Data.List.Lex

/-! When the index in memory and the one that may spill give the same replies in every run. -/

namespace Flux.Names

open Base

variable {Name Target : Type}

variable {h : Hybrid Name Target}

namespace NameIndex

def Tracks (idx : NameIndex Name Target) (a : Account Name Target) : Prop :=
  match idx with
  | .inline i => i.Holds a
  | .hybrid h => h.Holds a ∧ h.Settled a

variable {idx : NameIndex Name Target} {a : Account Name Target}

lemma Tracks.owner (h : idx.Tracks a) (s : Name) : idx.owner s = a.owners s := by
  cases idx with
  | inline i => exact congrFun (Inline.Holds.owners h) s
  | hybrid h' => exact congrFun h.1.owners s

lemma settled_of_sameHints {h' : Hybrid Name Target} {a' : Account Name Target} (hs : h.Settled a)
    (hh : Hybrid.SameHints h h') (ha : a'.first = a.first) : h'.Settled a' := by
  intro id tier1 ht
  rw [hh.hinted] at ht
  rw [ha]
  exact hs id tier1 ht

lemma settled_of_inodes_none (hi : h.inodes = none) (a : Account Name Target) :
    h.Settled a := fun _ _ ht => absurd hi (Hybrid.inodes_of_hinted ht)

variable [LinearOrder Name]

lemma Tracks.publish (h : idx.Tracks a) {p : Publication Name Target} (ha : (a.publish p).Sound) :
    (idx.recordPublication p).Tracks (a.publish p) := by
  cases idx with
  | hybrid h' =>
    obtain ⟨hholds, hsame⟩ := h.1.record p
    exact ⟨hholds, settled_of_sameHints h.2 hsame (Account.publish_first a p)⟩
  | inline i =>
    obtain ⟨hholds, hsite⟩ := Inline.Holds.record h p
    unfold recordPublication
    dsimp only
    cases hi : i.site with
    | none => exact hholds
    | some th =>
      dsimp only
      split
      · obtain ⟨hmigrated, hinodes⟩ := hholds.migrate ha (by simp [hsite, hi]) th
        exact ⟨hmigrated, settled_of_inodes_none hinodes _⟩
      · exact hholds

variable [DecidableEq Target]

lemma Tracks.resolve (h : idx.Tracks a) (ha : a.Sound) {dir : Dir Name} (hd : Shows a.world dir) (planned : Name) :
    a.Answers dir planned (idx.resolve dir planned).1 ∧ (idx.resolve dir planned).2.Tracks a := by
  cases idx with
  | inline i =>
    obtain ⟨hanswer, hholds, -⟩ := Inline.Holds.resolve h ha hd planned
    exact ⟨hanswer, hholds⟩
  | hybrid h' =>
    obtain ⟨hanswer, hholds, hsame⟩ := h.1.resolve ha h.2 hd planned
    exact ⟨hanswer, hholds, settled_of_sameHints h.2 hsame rfl⟩

lemma replies_eq_of_tracks {run : List (Op Name Target × Dir Name)} {idx' : NameIndex Name Target} (ha : a.Sound)
    (h : idx.Tracks a) (h' : idx'.Tracks a) (hr : Lawful a.world run) : idx.replies run = idx'.replies run := by
  induction run generalizing idx idx' a with
  | nil => rfl
  | cons call run ih =>
    obtain ⟨op, dir⟩ := call
    unfold replies
    cases op with
    | resolve planned =>
      obtain ⟨hd, hrest⟩ := hr
      obtain ⟨hanswer, hnext⟩ := h.resolve ha hd planned
      obtain ⟨hanswer', hnext'⟩ := h'.resolve ha hd planned
      have hreply := hanswer.unique hanswer'
      simp only [step, hreply, ih ha hnext hnext' hrest]
    | owner s =>
      obtain ⟨-, hrest⟩ := hr
      simp only [step, h.owner, h'.owner, ih ha h h' hrest]
    | publish p =>
      obtain ⟨hp, hrest⟩ := hr
      have hsound := ha.publish hp
      simp only [step, ih hsound (h.publish hsound) (h'.publish hsound) hrest]

end NameIndex

def hintedBy (entries : List (DirEntry Name)) (id : ObjectId) : List Name :=
  ((inodeHints entries).filter fun r => r.1.toNat = id.index.toNat).map Prod.snd

variable {ident : Name → FileIdentity} {id : ObjectId} {th : Thresholds}

lemma mem_inodeHints {entries : List (DirEntry Name)} {r : UInt64 × Name} (hr : r ∈ inodeHints entries) :
    r.2 ∈ entries.map DirEntry.name := by
  obtain ⟨e, he, h⟩ := List.mem_filterMap.mp hr
  obtain ⟨ino, -, rfl⟩ := Option.map_eq_some_iff.mp h
  exact List.mem_map_of_mem he

lemma mem_hintedBy_listed {entries : List (DirEntry Name)} {n : Name} (hn : n ∈ hintedBy entries id) :
    n ∈ entries.map DirEntry.name := by
  obtain ⟨r, hr, rfl⟩ := List.mem_map.mp hn
  exact mem_inodeHints (List.mem_of_mem_filter hr)

lemma names_start (w : World Name) (id : ObjectId) (n : Name) :
    n ∈ (Account.start w : Account Name Target).names id ↔ w n = some (.strong id) := Iff.rfl

lemma not_wiped_start (w : World Name) (id : ObjectId) : ¬ (Account.start w : Account Name Target).Wiped id := by
  rintro ⟨e, he, -⟩
  exact List.not_mem_nil he

lemma spilled_live (entries : List (DirEntry Name)) (th : Thresholds) (id : ObjectId) :
    (spilled entries th : Hybrid Name Target).live id = ∅ := by
  simp [Hybrid.live, spilled]

lemma namesWithInode_of_le {entries : List (DirEntry Name)} {limit : ℕ}
    (h : (hintedBy entries id).length ≤ limit) :
    Hybrid.namesWithInode (inodeHints entries) id.index.toNat limit = hintedBy entries id :=
  List.take_of_length_le (Nat.le_succ_of_le h)

lemma namesWithInode_le_iff {entries : List (DirEntry Name)} {limit : ℕ} :
    (Hybrid.namesWithInode (inodeHints entries) id.index.toNat limit).length ≤ limit ↔
      (hintedBy entries id).length ≤ limit := by
  change ((hintedBy entries id).take (limit + 1)).length ≤ limit ↔ _
  rw [List.length_take]
  omega

lemma hinted_spilled {entries : List (DirEntry Name)} {tier1 : List Name} :
    (spilled entries th : Hybrid Name Target).hinted id = some tier1 ↔
      inodeHints entries ≠ [] ∧ id.index.toNat < 2 ^ 64 ∧ (hintedBy entries id).length ≤ th.maxCandidates ∧
        hintedBy entries id = tier1 := by
  by_cases hempty : inodeHints entries = []
  · have hnone : (spilled entries th : Hybrid Name Target).hinted id = none := by
      simp [Hybrid.hinted, spilled, family, hempty]
    rw [hnone]
    exact iff_of_false (by simp) fun h => h.1 hempty
  have hsome : (spilled entries th : Hybrid Name Target).inodes = some (inodeHints entries) := if_neg hempty
  have hth : (spilled entries th : Hybrid Name Target).thresholds = th := rfl
  unfold Hybrid.hinted
  rw [hsome, hth]
  dsimp only
  by_cases hindex : id.index.toNat < 2 ^ 64
  · rw [if_pos hindex]
    by_cases hlen : (hintedBy entries id).length ≤ th.maxCandidates
    · rw [if_pos (namesWithInode_le_iff.mpr hlen), Option.some.injEq]
      rw [namesWithInode_of_le hlen]
      exact ⟨fun h => ⟨hempty, hindex, hlen, h⟩, fun h => h.2.2.2⟩
    · rw [if_neg (mt namesWithInode_le_iff.mp hlen)]
      exact iff_of_false (by simp) fun h => hlen h.2.2.1
  · rw [if_neg hindex]
    exact iff_of_false (by simp) fun h => hindex h.2.1

lemma inodeHints_eq_nil {entries : List (DirEntry Name)} :
    inodeHints entries = [] ↔ ∀ e ∈ entries, ∀ ino, e.ino = some ino → ino = 0 := by
  unfold inodeHints
  rw [List.filterMap_eq_nil_iff]
  apply forall₂_congr
  intro e _
  cases e.ino with
  | none => simp
  | some ino => by_cases h : ino = 0 <;> simp [Option.filter, h]

variable [LinearOrder Name]

def listed (entries : List (DirEntry Name)) (ident : Name → FileIdentity) : World Name :=
  fun n => if n ∈ entries.map DirEntry.name then some (ident n) else none

lemma listed_ne_none {entries : List (DirEntry Name)} {n : Name} :
    listed entries ident n ≠ none ↔ n ∈ entries.map DirEntry.name := by
  unfold listed
  split <;> simp_all

lemma listed_eq_some {entries : List (DirEntry Name)} {n : Name} {i : FileIdentity} :
    listed entries ident n = some i ↔ n ∈ entries.map DirEntry.name ∧ ident n = i := by
  unfold listed
  split <;> simp_all

lemma inline_holds_start (entries : List (DirEntry Name)) (ident : Name → FileIdentity)
    (site : Option Thresholds) :
    (⟨(entries.map DirEntry.name).dedup, none, fun _ => none, [], fun _ => none, 0, site, []⟩ :
      Inline Name Target).Holds (.start (listed entries ident)) where
  listing n := by
    rw [List.mem_dedup]
    exact listed_ne_none.symm
  owners := rfl
  learned := rfl
  nextSeq := rfl
  unbuilt _ := rfl
  built t ht := by simp at ht
  wiped _ id := iff_of_false List.not_mem_nil (not_wiped_start _ id)

lemma spilled_holds (entries : List (DirEntry Name)) (ident : Name → FileIdentity) (th : Thresholds) :
    (spilled entries th : Hybrid Name Target).Holds (.start (listed entries ident)) := by
  have hlisted : ∀ n, n ∈ (family (entries.map DirEntry.name)).getD [] ↔ listed entries ident n ≠ none := by
    intro n
    rw [mem_getD_family, listed_ne_none]
  refine ⟨fun n => ?_, rfl, rfl, rfl, ⟨Nat.one_pos, fun r hr => absurd hr List.not_mem_nil⟩, fun id => ?_,
    fun id hw => absurd hw (not_wiped_start _ id), fun id => ?_, fun _ id _ n hn => .inl ?_, fun hb =>
      ?_, fun r hr => ?_,
    fun _ id _ n hn => ?_⟩
  · change n ∈ [] ∨ n ∈ (family (entries.map DirEntry.name)).getD [] ↔ listed entries ident n ≠ none
    rw [hlisted]
    simp
  · exact iff_of_false (by simp [Hybrid.HasWipe, spilled]) (not_wiped_start _ id)
  · rw [spilled_live]
    exact Set.empty_subset _
  · exact (hlisted n).mpr (by rw [(names_start _ id n).mp hn]; simp)
  · simp [spilled] at hb
  · exact listed_ne_none.mpr (mem_inodeHints (mem_getD_family.mp hr))
  · obtain ⟨e, he, -⟩ := hn
    exact absurd he List.not_mem_nil

/-- The index stays in memory, or there are no hints, or for every identity that is an inode number: too many
entries have that hint for it to be used, or each of its names has it, or two of them do. -/
def HintsSuffice (entries : List (DirEntry Name)) (ident : Name → FileIdentity) (th : Thresholds) : Prop :=
  entries.length ≤ th.indexInline ∨ (∀ e ∈ entries, ∀ ino, e.ino = some ino → ino = 0) ∨
    ∀ id : ObjectId, id.index.toNat < 2 ^ 64 →
      th.maxCandidates < (hintedBy entries id).length ∨
      (∀ e ∈ entries, ident e.name = .strong id → e.name ∈ hintedBy entries id) ∨
      ∃ x ∈ hintedBy entries id, ∃ y ∈ hintedBy entries id,
        x ≠ y ∧ ident x = .strong id ∧ ident y = .strong id

lemma settled_spilled_iff {entries : List (DirEntry Name)} :
    (spilled entries th : Hybrid Name Target).Settled (.start (listed entries ident)) ↔
      inodeHints entries = [] ∨ ∀ id : ObjectId, id.index.toNat < 2 ^ 64 →
        th.maxCandidates < (hintedBy entries id).length ∨
        (∀ e ∈ entries, ident e.name = .strong id → e.name ∈ hintedBy entries id) ∨
        ∃ x ∈ hintedBy entries id, ∃ y ∈ hintedBy entries id,
          x ≠ y ∧ ident x = .strong id ∧ ident y = .strong id := by
  have hfirst : ∀ id n, (Account.start (listed entries ident) : Account Name Target).first n = some (.strong id) ↔
      n ∈ entries.map DirEntry.name ∧ ident n = .strong id := fun _ _ => listed_eq_some
  constructor
  · intro hs
    by_cases hempty : inodeHints entries = []
    · exact .inl hempty
    · refine .inr fun id hindex => ?_
      by_cases hlen : th.maxCandidates < (hintedBy entries id).length
      · exact .inl hlen
      · right
        rcases hs id _ (hinted_spilled.mpr ⟨hempty, hindex, Nat.not_lt.mp hlen, rfl⟩) with
          hall | ⟨x, hx, y, hy, hxy, h⟩
        · exact .inl fun e he hi => hall e.name ((hfirst id _).mpr ⟨List.mem_map_of_mem he, hi⟩)
        · exact .inr ⟨x, hx, y, hy, hxy, ((hfirst id x).mp h.1).2, ((hfirst id y).mp h.2).2⟩
  · rintro hs id tier1 ht
    obtain ⟨hempty, hindex, hlen, rfl⟩ := hinted_spilled.mp ht
    rcases hs.resolve_left hempty id hindex with hmany | hall | ⟨x, hx, y, hy, hxy, hix, hiy⟩
    · omega
    · left
      intro n hn
      obtain ⟨hn, hi⟩ := (hfirst id n).mp hn
      obtain ⟨e, he, rfl⟩ := List.mem_map.mp hn
      exact hall e he hi
    · exact .inr ⟨x, hx, y, hy, hxy, (hfirst id x).mpr ⟨mem_hintedBy_listed hx, hix⟩,
        (hfirst id y).mpr ⟨mem_hintedBy_listed hy, hiy⟩⟩

lemma forDir_of_le {entries : List (DirEntry Name)} (h : entries.length ≤ th.indexInline) :
    (NameIndex.forDir entries (some th) : NameIndex Name Target) =
      NameIndex.inlineForm (entries.map DirEntry.name).dedup (some th) := if_pos h

lemma forDir_of_lt {entries : List (DirEntry Name)} (h : ¬ entries.length ≤ th.indexInline) :
    (NameIndex.forDir entries (some th) : NameIndex Name Target) = .hybrid (spilled entries th) := if_neg h

lemma forDir_tracks {entries : List (DirEntry Name)} (h : HintsSuffice entries ident th) :
    (NameIndex.forDir entries (some th) : NameIndex Name Target).Tracks (.start (listed entries ident)) := by
  by_cases hlen : entries.length ≤ th.indexInline
  · rw [forDir_of_le hlen]
    exact inline_holds_start entries ident (some th)
  · rw [forDir_of_lt hlen]
    refine ⟨spilled_holds entries ident th, settled_spilled_iff.mpr ?_⟩
    rw [inodeHints_eq_nil]
    exact h.resolve_left hlen

def metaOf (i : FileIdentity) : Metadata := ⟨0, .file, none, none, i, none⟩

def dirWith (w : World Name) (z : Name) (id : ObjectId) : Dir Name := fun n =>
  match w n with
  | some i => .ok (metaOf i)
  | none => if n = z then .ok (metaOf (.strong id)) else .error notFound

lemma shows_dirWith (w : World Name) (z : Name) (id : ObjectId) : Shows w (dirWith w z id) where
  found n i hn := ⟨metaOf i, by simp [dirWith, hn], rfl⟩
  vanished n e hn := by
    unfold dirWith at hn
    split at hn
    · simp at hn
    · split at hn
      · simp at hn
      · obtain rfl := Except.error.inj hn
        rfl

lemma dirWith_self {w : World Name} {z : Name} (hz : w z = none) (id : ObjectId) :
    dirWith w z id z = .ok (metaOf (.strong id)) := by
  simp [dirWith, hz]

section Diverging

variable [DecidableEq Target]

lemma resolve_ne {i : Inline Name Target} {a : Account Name Target} (hi : i.Holds a) (hh : h.Holds a)
    (ha : a.Sound) {id : ObjectId} {tier1 : List Name} (ht : h.hinted id = some tier1) {z c g : Name}
    (hz : a.world z = none) (hc : ∀ n, n ∈ h.live id ∨ ¬ a.Wiped id ∧ n ∈ tier1 ∧ n ∈ a.names id ↔ n = c)
    (hg : g ∈ a.names id) (hgc : g ≠ c) (hown : a.owners g = none) :
    (i.resolve (dirWith a.world z id) z).1 ≠ (h.resolve (dirWith a.world z id) z).1 := by
  have hd := shows_dirWith a.world z id
  have hcn : c ∈ a.names id := by
    rcases (hc c).mpr rfl with hlive | ⟨-, -, hn⟩
    · exact hh.live_subset id hlive
    · exact hn
  have hinline : (i.resolve (dirWith a.world z id) z).1 = .ok (.error .unresolvable) := by
    have hanswer := (hi.resolve ha hd z).1
    rw [Account.Answers, if_neg (by simp [hz]), dirWith_self hz] at hanswer
    obtain ⟨l, -, hmem, heq⟩ := hanswer
    rw [heq, choose_of_unowned a.learned ((hmem g).mpr hg) ((hmem c).mpr hcn) hgc hown]
    rfl
  obtain ⟨l, hverify, hl, hmem⟩ := hh.verify ha hd ht
  have hone : l = [c] := by
    apply List.perm_singleton.mp
    apply (List.perm_ext_iff_of_nodup hl (List.nodup_singleton c)).mpr
    intro n
    rw [hmem, hc, List.mem_singleton]
  have hhybrid : (h.resolve (dirWith a.world z id) z).1 = .ok (.ok (.entry c (metaOf (.strong id)))) := by
    have hunknown : ¬ (z ∈ h.names2 ∨ z ∈ h.names.getD []) := fun hk => (hh.known z).mp hk hz
    rw [Hybrid.resolve, if_neg hunknown, dirWith_self hz]
    simp only [metaOf, ht, hverify, hone]
    rw [if_neg (List.cons_ne_nil c []), Hybrid.pick, choose_singleton]
    rfl
  rw [hinline, hhybrid]
  simp

def linked (target : Target) (c : Name) (id : ObjectId) : Publication Name Target :=
  ⟨target, none, c, none, .strong id⟩

lemma exists_diverging [Infinite Name] [Inhabited Target] {entries : List (DirEntry Name)}
    {ident : Name → FileIdentity} {th : Thresholds}
    (h : ¬ (spilled entries th : Hybrid Name Target).Settled (.start (listed entries ident))) :
    ∃ run : List (Op Name Target × Dir Name), Lawful (listed entries ident) run ∧
      (NameIndex.forDir entries none : NameIndex Name Target).replies run ≠
        (NameIndex.hybrid (spilled entries th)).replies run := by
  unfold Hybrid.Settled at h
  push Not at h
  obtain ⟨id, tier1, ht, ⟨g, hg, hgt⟩, htwo⟩ := h
  let w := listed entries ident
  have hsound : (Account.start w : Account Name Target).Sound := Account.sound_start w
  have hi : Inline.Holds _ (.start w : Account Name Target) := inline_holds_start entries ident none
  have hh : (spilled entries th).Holds (.start w : Account Name Target) := spilled_holds entries ident th
  obtain ⟨z, hz⟩ := Infinite.exists_notMem_finset (entries.map DirEntry.name).toFinset
  rw [List.mem_toFinset] at hz
  have hwz : w z = none := if_neg hz
  by_cases hr : ∃ r ∈ tier1, w r = some (.strong id)
  · -- one of the names has the hint: step 4 answers with it
    obtain ⟨r, hrt, hr⟩ := hr
    refine ⟨[(.resolve z, dirWith w z id)], ⟨shows_dirWith w z id, trivial⟩, fun heq => ?_⟩
    have hgr : g ≠ r := fun e => hgt (e ▸ hrt)
    refine resolve_ne hi hh hsound ht hwz (fun n => ?_) hg hgr rfl (Reply.resolved.inj (List.cons.inj heq).1)
    rw [spilled_live]
    constructor
    · rintro (hn | ⟨-, hnt, hn⟩)
      · exact absurd hn (Set.notMem_empty n)
      · by_contra hne
        exact htwo n hnt r hrt hne hn hr
    · rintro rfl
      exact .inr ⟨not_wiped_start _ id, hrt, hr⟩
  · -- none has: a published link is then all that step 4 finds
    push Not at hr
    obtain ⟨c, hc⟩ := Infinite.exists_notMem_finset (insert z (entries.map DirEntry.name).toFinset)
    rw [Finset.mem_insert, not_or, List.mem_toFinset] at hc
    let p : Publication Name Target := linked default c id
    have hp : Publishes w (dirWith w z id) p := by
      refine ⟨shows_dirWith w z id, fun hk => ?_, rfl⟩
      exact absurd (listed_ne_none.mp hk) hc.2
    have hsp : p.spellings = [c] := rfl
    have hsound' := hsound.publish hp
    obtain ⟨hi', -⟩ := hi.record p
    obtain ⟨hh', hsame⟩ := hh.record p
    have hz' : w.publish p z = none := by
      rw [World.publish, hsp, if_neg (by simpa using Ne.symm hc.1), hwz]
    have hgc : g ≠ c := fun e => hc.2 (e ▸ (listed_eq_some.mp hg).1)
    have hnames : ∀ n, n ∈ ((Account.start w).publish p).names id ↔ w n = some (.strong id) ∨ n = c := by
      intro n
      rw [Account.mem_names_publish, names_start, hsp, List.mem_singleton]
      simp [p, linked]
    have hlive : ∀ n, n ∈ ((spilled entries th : Hybrid Name Target).record p).live id ↔ n = c := by
      intro n
      rw [Hybrid.live_record hh, spilled_live, hsp, List.mem_singleton]
      simp [p, linked]
    have hwiped : ¬ ((Account.start w).publish p).Wiped id := by
      rw [Account.wiped_publish]
      simp [p, linked, not_wiped_start]
    refine ⟨[(.publish p, dirWith w z id), (.resolve z, dirWith (w.publish p) z id)],
      ⟨hp, shows_dirWith _ z id, trivial⟩, fun heq => ?_⟩
    have hreply := Reply.resolved.inj (List.cons.inj (List.cons.inj heq).2).1
    refine resolve_ne hi' hh' hsound' ((hsame.hinted id).trans ht) hz' (fun n => ?_) ((hnames g).mpr (.inl hg))
      hgc ?_ hreply
    · rw [hlive, hnames]
      constructor
      · rintro (hn | ⟨-, hnt, hn | hn⟩)
        · exact hn
        · exact absurd hn (hr n hnt)
        · exact hn
      · exact .inl
    · exact Account.foldl_update_of_not_mem _ (by simpa [hsp] using hgc) _

end Diverging

abbrev FileName := { b : Bytes // b ≠ [] }

instance : Infinite FileName :=
  Infinite.of_injective (fun k : ℕ => ⟨List.replicate (k + 1) 0, by simp⟩) fun k l h => by
    simpa using congrArg (fun n : FileName => n.1.length) h

abbrev FluxPathKey := Bytes

def linkName (b : UInt8) : FileName := ⟨[b], List.cons_ne_nil b []⟩

def linkId : ObjectId := ⟨1, 7⟩

def linkEntries : List (DirEntry FileName) := [⟨linkName 97, some 7⟩, ⟨linkName 98, none⟩]

def smallest : Thresholds := ⟨1, 1, Nat.one_pos, Nat.one_pos⟩

def linkRun : List (Op FileName FluxPathKey × Dir FileName) :=
  [(.resolve (linkName 65), dirWith (listed linkEntries fun _ => .strong linkId) (linkName 65) linkId)]

theorem links_answered_differently :
    Lawful (listed linkEntries fun _ => .strong linkId) linkRun ∧
      (NameIndex.forDir linkEntries none).replies linkRun = [.resolved (.ok (.error .unresolvable))] ∧
      (NameIndex.forDir linkEntries (some smallest)).replies linkRun =
        [.resolved (.ok (.ok (.entry (linkName 97) (metaOf (.strong linkId)))))] := by
  refine ⟨⟨shows_dirWith _ _ _, trivial⟩, ?_, ?_⟩
  · decide
  · decide

theorem forms_agree_iff (entries : List (DirEntry FileName)) (ident : FileName → FileIdentity) (th : Thresholds) :
    (∀ run : List (Op FileName FluxPathKey × Dir FileName), Lawful (listed entries ident) run →
      (NameIndex.forDir entries none).replies run = (NameIndex.forDir entries (some th)).replies run) ↔
      HintsSuffice entries ident th := by
  constructor
  · intro hagree
    by_contra hnot
    rw [HintsSuffice, not_or, ← inodeHints_eq_nil] at hnot
    have hsettled : ¬ (spilled entries th : Hybrid FileName FluxPathKey).Settled (.start (listed entries ident)) :=
      mt settled_spilled_iff.mp hnot.2
    obtain ⟨run, hrun, hne⟩ := exists_diverging hsettled
    apply hne
    rw [hagree run hrun, forDir_of_lt hnot.1]
  · intro h run hrun
    exact NameIndex.replies_eq_of_tracks (Account.sound_start _) (inline_holds_start entries ident none)
      (forDir_tracks h) hrun

end Flux.Names
