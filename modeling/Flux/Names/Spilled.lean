import Flux.Names.Rows
import Flux.Names.Table

namespace Flux.Names

open Base

variable {Name Target : Type}

lemma mem_getD_family {α : Type} {records : List α} {r : α} : r ∈ (family records).getD [] ↔ r ∈ records := by
  unfold family
  split
  · simp_all
  · rfl

namespace Hybrid

def base (h : Hybrid Name Target) : List Name := h.names.getD h.names2

structure Holds (h : Hybrid Name Target) (a : Account Name Target) : Prop where
  known : ∀ n, n ∈ h.names2 ∨ n ∈ h.names.getD [] ↔ a.world n ≠ none
  owners : h.owners = a.owners
  learned : h.learned = a.learned
  nextSeq : h.nextSeq = a.nextSeq
  numbered : h.Numbered
  wipes : ∀ id, h.HasWipe id ↔ a.Wiped id
  live_of_wiped : ∀ id, a.Wiped id → h.live id = a.names id
  live_subset : ∀ id, h.live id ⊆ a.names id
  unbuilt : h.identityBuilt = false → ∀ id, ¬ a.Wiped id → ∀ n ∈ a.names id, n ∈ h.base ∨ n ∈ h.live id
  built : h.identityBuilt = true → ∀ id, ¬ a.Wiped id → ∀ n, n ∈ h.byIdentity id ∨ n ∈ h.live id ↔ n ∈ a.names id
  hints : ∀ r ∈ h.inodes.getD [], a.world r.2 ≠ none
  published : h.inodes ≠ none → ∀ id, ¬ a.Wiped id → Event.added a.events id ⊆ h.live id

variable {h : Hybrid Name Target} {a : Account Name Target} {n : Name} {id : ObjectId} {tier1 : List Name}
  {dir : Dir Name}

def SameHints (h h' : Hybrid Name Target) : Prop := h'.inodes = h.inodes ∧ h'.thresholds = h.thresholds

lemma Holds.base_known (hh : h.Holds a) (hn : n ∈ h.base) : a.world n ≠ none := by
  apply (hh.known n).mp
  unfold base at hn
  cases hnames : h.names with
  | none =>
    rw [hnames] at hn
    exact .inl hn
  | some names =>
    rw [hnames] at hn
    exact .inr hn

lemma mem_byIdentity_built {found : List (Name × Metadata)} {built : Bool} :
    n ∈ ({ h with identity := family (found.filterMap strongEntry), identityBuilt := built } :
      Hybrid Name Target).byIdentity id ↔ ∃ m, (n, m) ∈ found ∧ m.identity = .strong id := by
  have hrecord : ∀ r : ObjectId × Name, r ∈ found.filterMap strongEntry ↔
      ∃ m, (r.2, m) ∈ found ∧ m.identity = .strong r.1 := by
    rintro ⟨id', n'⟩
    rw [List.mem_filterMap]
    constructor
    · rintro ⟨⟨n'', m⟩, hm, he⟩
      cases hi : m.identity with
      | strong id'' =>
        simp only [strongEntry, hi, Option.some.injEq, Prod.mk.injEq] at he
        obtain ⟨rfl, rfl⟩ := he
        exact ⟨m, hm, hi⟩
      | weak id'' => simp [strongEntry, hi] at he
      | unavailable => simp [strongEntry, hi] at he
    · rintro ⟨m, hm, hi⟩
      exact ⟨(n', m), hm, by simp [strongEntry, hi]⟩
  have hby : ∀ f : Option (List (ObjectId × Name)), n ∈ ({ h with identity := f, identityBuilt := built } :
      Hybrid Name Target).byIdentity id ↔ (id, n) ∈ f.getD [] := by
    intro f
    cases f with
    | none => simp [byIdentity]
    | some records => simp [byIdentity]
  rw [hby, mem_getD_family, hrecord]

lemma Holds.buildIdentity (hh : h.Holds a) (ha : a.Sound) (hd : Shows a.world dir) :
    ∃ h', h.buildIdentity dir = .ok h' ∧ h'.Holds a ∧ h'.identityBuilt = true ∧ h'.inodes = h.inodes ∧
      h'.thresholds = h.thresholds := by
  cases hb : h.identityBuilt with
  | true => exact ⟨h, by simp [Hybrid.buildIdentity, hb], hh, hb, rfl, rfl⟩
  | false =>
    obtain ⟨found, hfound, hmem, -⟩ := statAll_of_shows hd h.base
    refine ⟨{ h with identity := family (found.filterMap strongEntry), identityBuilt := true }, ?_,
      ?_, rfl, rfl, rfl⟩
    · change statAll dir (h.names.getD h.names2) = _ at hfound
      simp [Hybrid.buildIdentity, hb, hfound, Except.map]
    · refine { hh with
        numbered := ⟨hh.numbered.pos, hh.numbered.row⟩
        unbuilt := fun hfalse => by simp at hfalse
        built := fun _ id hw n => ?_ }
      rw [mem_byIdentity_built]
      constructor
      · rintro (⟨m, hm, hi⟩ | hn)
        · obtain ⟨hbase, hdir⟩ := (hmem n m).mp hm
          obtain ⟨i, hwi⟩ := Option.ne_none_iff_exists'.mp (hh.base_known hbase)
          apply ha.told.complete id n hw
          rw [hwi, ← hd.identity hwi hdir, hi]
        · exact hh.live_subset id hn
      · intro hn
        rcases hh.unbuilt hb id hw n hn with hbase | hlive
        · obtain ⟨m, hm, hi⟩ := hd.found n _ (ha.told.accurate id n hn)
          exact .inl ⟨m, (hmem n m).mpr ⟨hbase, hm⟩, hi⟩
        · exact .inr hlive

lemma mem_namesWithInode {inodes : List (UInt64 × Name)} {inode limit : ℕ}
    (h : n ∈ namesWithInode inodes inode limit) : ∃ r ∈ inodes, r.2 = n := by
  obtain ⟨r, hr, rfl⟩ := List.mem_map.mp (List.mem_of_mem_take h)
  exact ⟨r, List.mem_of_mem_filter hr, rfl⟩

lemma Holds.hinted_known (hh : h.Holds a) (ht : h.hinted id = some tier1) (hn : n ∈ tier1) :
    a.world n ≠ none := by
  unfold hinted at ht
  cases hi : h.inodes with
  | none => simp [hi] at ht
  | some inodes =>
    rw [hi] at ht
    dsimp only at ht
    split at ht
    · split at ht
      · obtain rfl := Option.some.inj ht
        obtain ⟨r, hr, rfl⟩ := mem_namesWithInode hn
        exact hh.hints r (by simpa [hi] using hr)
      · simp at ht
    · simp at ht

lemma inodes_of_hinted (ht : h.hinted id = some tier1) : h.inodes ≠ none := by
  intro hnone
  simp [hinted, hnone] at ht

lemma mem_names_of_first (hw : ¬ a.Wiped id) (hn : a.first n = some (.strong id)) : n ∈ a.names id := by
  rw [Account.names, Event.replay_of_not_wiped _ hw]
  exact .inl hn

lemma SameHints.hinted {h' : Hybrid Name Target} (hs : SameHints h h') (id : ObjectId) :
    h'.hinted id = h.hinted id := by
  simp only [Hybrid.hinted, hs.1, hs.2]

lemma byIdentity_congr {h' : Hybrid Name Target} (hi : h'.identity = h.identity) (id : ObjectId) :
    h'.byIdentity id = h.byIdentity id := by
  simp only [byIdentity, hi]

variable [LinearOrder Name]

lemma Holds.mem_candidates (hh : h.Holds a) :
    n ∈ candidates tier1 (h.idsRows id) ↔ n ∈ h.live id ∨ ¬ a.Wiped id ∧ n ∈ tier1 := by
  by_cases hw : a.Wiped id
  · rw [mem_candidates_of_hasWipe hh.numbered ((hh.wipes id).mpr hw)]
    simp [hw]
  · rw [mem_candidates_of_not_hasWipe (mt (hh.wipes id).mp hw)]
    simp [hw, or_comm]

lemma Holds.resolveFull [DecidableEq Target] (hh : h.Holds a) (ha : a.Sound) (hd : Shows a.world dir)
    (id : ObjectId) (m : Metadata) : (∃ l : List Name, l.Nodup ∧ (∀ n, n ∈ l ↔ n ∈ a.names id) ∧
      (h.resolveFull dir id m).1 = .ok ((choose l a.learned a.owners).map fun stored => .entry stored m)) ∧
    (h.resolveFull dir id m).2.Holds a ∧ (h.resolveFull dir id m).2.inodes = h.inodes ∧
      (h.resolveFull dir id m).2.thresholds = h.thresholds := by
  obtain ⟨h', hbuild, hh', hbuilt, hinodes, hth⟩ := hh.buildIdentity ha hd
  have hmem : ∀ n, n ∈ candidates (h'.byIdentity id) (h'.idsRows id) ↔ n ∈ a.names id := by
    intro n
    rw [hh'.mem_candidates]
    by_cases hw : a.Wiped id
    · rw [hh'.live_of_wiped id hw]
      simp [hw]
    · rw [← hh'.built hbuilt id hw n]
      simp [hw, or_comm]
  have hanswer : h.resolveFull dir id m =
      (.ok ((choose (candidates (h'.byIdentity id) (h'.idsRows id)) a.learned a.owners).map
        fun stored => .entry stored m), h') := by
    simp only [Hybrid.resolveFull, hbuild]
    split
    · rename_i hempty
      rw [hempty, choose_nil]
      rfl
    · rw [pick, hh'.learned, hh'.owners]
  rw [hanswer]
  exact ⟨⟨_, candidates_nodup _ _, hmem, rfl⟩, hh', hinodes, hth⟩

lemma Holds.verify (hh : h.Holds a) (ha : a.Sound) (hd : Shows a.world dir) (ht : h.hinted id = some tier1) :
    ∃ l : List Name, Hybrid.verify dir id (candidates tier1 (h.idsRows id)) = .ok l ∧ l.Nodup ∧
      ∀ n, n ∈ l ↔ n ∈ h.live id ∨ ¬ a.Wiped id ∧ n ∈ tier1 ∧ n ∈ a.names id := by
  obtain ⟨found, hfound, hmem, hnodup⟩ := statAll_of_shows hd (candidates tier1 (h.idsRows id))
  refine ⟨(found.filter fun e => e.2.identity = .strong id).map Prod.fst, ?_, ?_, fun n => ?_⟩
  · rw [Hybrid.verify, hfound]
    rfl
  · exact (hnodup (candidates_nodup _ _)).sublist (List.filter_sublist.map Prod.fst)
  · have hverified : n ∈ (found.filter fun e => e.2.identity = .strong id).map Prod.fst ↔
        n ∈ candidates tier1 (h.idsRows id) ∧ ∃ m, dir n = .ok m ∧ m.identity = .strong id := by
      simp only [List.mem_map, List.mem_filter, decide_eq_true_eq, Prod.exists, exists_and_right,
        exists_eq_right, hmem]
      constructor
      · rintro ⟨m, ⟨hc, hm⟩, hi⟩
        exact ⟨hc, m, hm, hi⟩
      · rintro ⟨hc, m, hm, hi⟩
        exact ⟨m, ⟨hc, hm⟩, hi⟩
    rw [hverified, hh.mem_candidates]
    constructor
    · rintro ⟨hlive | ⟨hw, htier⟩, m, hm, hi⟩
      · exact .inl hlive
      · obtain ⟨i, hwi⟩ := Option.ne_none_iff_exists'.mp (hh.hinted_known ht htier)
        refine .inr ⟨hw, htier, ha.told.complete id n hw ?_⟩
        rw [hwi, ← hd.identity hwi hm, hi]
    · rintro (hlive | ⟨hw, htier, hn⟩)
      · exact ⟨.inl hlive, hd.found n _ (ha.told.accurate id n (hh.live_subset id hlive))⟩
      · exact ⟨.inr ⟨hw, htier⟩, hd.found n _ (ha.told.accurate id n hn)⟩

def Settled (h : Hybrid Name Target) (a : Account Name Target) : Prop :=
  ∀ id tier1, h.hinted id = some tier1 →
    (∀ n, a.first n = some (.strong id) → n ∈ tier1) ∨
      ∃ x ∈ tier1, ∃ y ∈ tier1, x ≠ y ∧ a.first x = some (.strong id) ∧ a.first y = some (.strong id)

lemma Holds.choose_verified [DecidableEq Target] (hh : h.Holds a) (ha : a.Sound) (hs : h.Settled a)
    (ht : h.hinted id = some tier1) {l full : List Name} (hl : l.Nodup)
    (hmem : ∀ n, n ∈ l ↔ n ∈ h.live id ∨ ¬ a.Wiped id ∧ n ∈ tier1 ∧ n ∈ a.names id) (hfull : full.Nodup)
    (hnames : ∀ n, n ∈ full ↔ n ∈ a.names id) :
    choose l a.learned a.owners = choose full a.learned a.owners := by
  by_cases hw : a.Wiped id
  · apply choose_eq_of_mem_iff hl hfull
    intro n
    rw [hmem, hnames, hh.live_of_wiped id hw]
    simp [hw]
  · rcases hs id tier1 ht with hall | ⟨x, hx, y, hy, hxy, hfx, hfy⟩
    · apply choose_eq_of_mem_iff hl hfull
      intro n
      rw [hmem, hnames]
      constructor
      · rintro (hlive | ⟨-, -, hn⟩)
        · exact hh.live_subset id hlive
        · exact hn
      · intro hn
        have hsplit := hn
        rw [Account.names, Event.replay_of_not_wiped _ hw] at hsplit
        rcases hsplit with hfirst | hadded
        · exact .inr ⟨hw, hall n hfirst, hn⟩
        · exact .inl (hh.published (inodes_of_hinted ht) id hw hadded)
    · have hxn := mem_names_of_first hw hfx
      have hyn := mem_names_of_first hw hfy
      have hown := ha.unowned hw hfx
      rw [choose_of_unowned a.learned ((hmem x).mpr (.inr ⟨hw, hx, hxn⟩)) ((hmem y).mpr (.inr ⟨hw, hy, hyn⟩)) hxy
        hown, choose_of_unowned a.learned ((hnames x).mpr hxn) ((hnames y).mpr hyn) hxy hown]

lemma Holds.resolve [DecidableEq Target] (hh : h.Holds a) (ha : a.Sound) (hs : h.Settled a)
    (hd : Shows a.world dir) (planned : Name) :
    a.Answers dir planned (h.resolve dir planned).1 ∧ (h.resolve dir planned).2.Holds a ∧
      SameHints h (h.resolve dir planned).2 := by
  unfold Account.Answers
  by_cases hk : planned ∈ h.names2 ∨ planned ∈ h.names.getD []
  · rw [if_pos ((hh.known planned).mp hk), Hybrid.resolve, if_pos hk]
    exact ⟨rfl, hh, rfl, rfl⟩
  · rw [if_neg (mt (hh.known planned).mpr hk), Hybrid.resolve, if_neg hk]
    cases hp : dir planned with
    | error e => simpa [hd.vanished planned e hp] using ⟨hh, rfl, rfl⟩
    | ok m =>
      cases hi : m.identity with
      | weak id => simpa [hi] using ⟨hh, rfl, rfl⟩
      | unavailable => simpa [hi] using ⟨hh, rfl, rfl⟩
      | strong id =>
        have hfull := hh.resolveFull ha hd id m
        simp only [hi]
        cases ht : h.hinted id with
        | none => exact hfull
        | some tier1 =>
          obtain ⟨l, hverify, hl, hmem⟩ := hh.verify ha hd ht
          simp only [hverify]
          by_cases hempty : l = []
          · rw [if_pos hempty]
            exact hfull
          · rw [if_neg hempty]
            obtain ⟨⟨full, hnodup, hnames, -⟩, -⟩ := hfull
            refine ⟨⟨full, hnodup, hnames, ?_⟩, hh, rfl, rfl⟩
            rw [pick, hh.learned, hh.owners, hh.choose_verified ha hs ht hl hmem hnodup hnames]

lemma learn_eq (h : Hybrid Name Target) (a : Account Name Target) (hl : h.learned = a.learned)
    (hs : h.nextSeq = a.nextSeq) (s : Option Name) :
    h.learn s = { h with learned := (a.learn s).learned, nextSeq := (a.learn s).nextSeq } := by
  obtain ⟨_, _, _, _, _, nextSeq, _, _, _, learned, _⟩ := h
  obtain rfl : learned = a.learned := hl
  obtain rfl : nextSeq = a.nextSeq := hs
  cases s with
  | none => rfl
  | some s =>
    by_cases h : a.learned s = none
    · simp [learn, Account.learn, h]
    · simp [learn, Account.learn, h]

lemma known_publish {w : World Name} (hn : w n ≠ none) (p : Publication Name Target) : w.publish p n ≠ none := by
  unfold World.publish
  split
  · simp
  · exact hn

def noted (h : Hybrid Name Target) (a : Account Name Target) (p : Publication Name Target) : Hybrid Name Target :=
  { h with
    names2 := p.spellings.foldl (fun l s => l.insert s) h.names2
    owners := p.spellings.foldl (fun o s => Function.update o s (some p.target)) h.owners
    learned := (a.learn p.stored).learned
    nextSeq := (a.learn p.stored).nextSeq }

lemma Holds.record_eq (hh : h.Holds a) (p : Publication Name Target) :
    h.record p = (h.noted a p).idsRowsOf p.pending := by
  have hlearn := learn_eq { h with
    names2 := p.spellings.foldl (fun l s => l.insert s) h.names2
    owners := p.spellings.foldl (fun o s => Function.update o s (some p.target)) h.owners }
    a hh.learned hh.nextSeq p.stored
  exact congrArg (idsRowsOf · p.pending) hlearn

lemma Holds.noted_numbered (hh : h.Holds a) (p : Publication Name Target) :
    (h.noted a p).Numbered := ⟨hh.numbered.pos, hh.numbered.row⟩

lemma live_record (hh : h.Holds a) {p : Publication Name Target} : n ∈ (h.record p).live id ↔
      n ∈ h.live id ∧ p.replaced ≠ some id ∨ p.published = .strong id ∧ n ∈ p.spellings := by
  rw [hh.record_eq p, (wrote_idsRowsOf (hh.noted_numbered p) p.pending).live, Event.mem_post, ← strongId_eq_some]
  rfl

lemma Holds.record (hh : h.Holds a) (p : Publication Name Target) :
    (h.record p).Holds (a.publish p) ∧ SameHints h (h.record p) := by
  have hrecord := hh.record_eq p
  obtain ⟨honly, hnum, -, hwiped⟩ := wrote_idsRowsOf (hh.noted_numbered p) p.pending
  have hbase : ∀ n ∈ h.base, n ∈ (h.record p).base := by
    intro n hn
    rw [hrecord, base, honly.names, honly.names2]
    change n ∈ h.names.getD (p.spellings.foldl (fun l s => l.insert s) h.names2)
    unfold base at hn
    cases hnames : h.names with
    | none =>
      rw [hnames] at hn
      exact Inline.mem_foldl_insert.mpr (.inl hn)
    | some names =>
      rw [hnames] at hn
      exact hn
  have hinodes : (h.record p).inodes = h.inodes := hrecord ▸ honly.inodes
  have hbuilt : (h.record p).identityBuilt = h.identityBuilt := hrecord ▸ honly.identityBuilt
  have hby : ∀ id, (h.record p).byIdentity id = h.byIdentity id :=
    byIdentity_congr (hrecord ▸ honly.identity)
  refine ⟨?_, hinodes, hrecord ▸ honly.thresholds⟩
  refine ⟨fun n => ?_, ?_, ?_, ?_, ?_, fun id => ?_, fun id hw => ?_, fun id n hn => ?_, fun hb id hw n hn => ?_,
    fun hb id hw n => ?_, fun r hr => ?_, fun hi id hw n hn => ?_⟩
  · rw [hrecord, honly.names2, honly.names]
    change n ∈ p.spellings.foldl (fun l s => l.insert s) h.names2 ∨ n ∈ h.names.getD [] ↔
      a.world.publish p n ≠ none
    rw [Inline.mem_foldl_insert, or_right_comm, hh.known]
    by_cases hn : n ∈ p.spellings <;> simp [World.publish, hn]
  · rw [hrecord, honly.owners]
    change p.spellings.foldl _ h.owners = p.spellings.foldl _ a.owners
    rw [hh.owners]
  · rw [hrecord, honly.learned]
    rfl
  · rw [hrecord, honly.nextSeq]
    rfl
  · rw [hrecord]
    exact hnum
  · rw [hrecord, hwiped, Account.wiped_publish, ← hh.wipes]
    rfl
  · ext n
    rw [live_record hh, Account.mem_names_publish]
    by_cases hr : p.replaced = some id
    · simp [hr]
    · rw [hh.live_of_wiped id ((Account.wiped_publish.mp hw).resolve_right hr)]
  · rw [Account.mem_names_publish]
    rcases (live_record hh).mp hn with ⟨hn, hr⟩ | hn
    · exact .inl ⟨hh.live_subset id hn, hr⟩
    · exact .inr hn
  · rw [Account.wiped_publish, not_or] at hw
    rcases Account.mem_names_publish.mp hn with ⟨hn, hr⟩ | hn
    · rcases hh.unbuilt (hbuilt ▸ hb) id hw.1 n hn with hn | hn
      · exact .inl (hbase n hn)
      · exact .inr ((live_record hh).mpr (.inl ⟨hn, hr⟩))
    · exact .inr ((live_record hh).mpr (.inr hn))
  · rw [Account.wiped_publish, not_or] at hw
    rw [hby, live_record hh, Account.mem_names_publish, ← hh.built (hbuilt ▸ hb) id hw.1 n]
    simp [hw.2, or_assoc]
  · rw [hinodes] at hr
    exact known_publish (hh.hints r hr) p
  · rw [Account.wiped_publish, not_or] at hw
    rw [live_record hh]
    rcases Event.added_append.mp hn with hn | ⟨hk, hn⟩
    · exact .inl ⟨hh.published (hinodes ▸ hi) id hw.1 hn, hw.2⟩
    · exact .inr ⟨strongId_eq_some.mp hk, hn⟩

end Hybrid

namespace Inline

lemma toHybrid_live (i : Inline Name Target) (th : Thresholds) (id : ObjectId) : (i.toHybrid th).live id = ∅ := by
  simp [Hybrid.live, toHybrid]

lemma toHybrid_hasWipe (i : Inline Name Target) (th : Thresholds) (id : ObjectId) :
    ¬ (i.toHybrid th).HasWipe id := by
  simp [Hybrid.HasWipe, toHybrid]

lemma toHybrid_numbered (i : Inline Name Target) (th : Thresholds) : (i.toHybrid th).Numbered :=
  ⟨Nat.one_pos, fun _ hr => absurd hr List.not_mem_nil⟩

lemma mem_entries_iff {t : Table Name} {id : ObjectId} {n : Name} :
    (∃ e ∈ t.entries, e.1 = id ∧ n ∈ e.2) ↔ n ∈ t.at id := by
  unfold Table.at
  constructor
  · rintro ⟨⟨id', l⟩, he, rfl, hn⟩
    have hl : t.lookup id' = some l := AList.mem_lookup_iff.mpr he
    rw [hl]
    exact hn
  · intro hn
    cases hl : t.lookup id with
    | none =>
      rw [hl] at hn
      exact absurd hn List.not_mem_nil
    | some l =>
      rw [hl] at hn
      exact ⟨⟨id, l⟩, AList.mem_lookup_iff.mp hl, rfl, hn⟩

variable [LinearOrder Name]

lemma Holds.copyRows {i : Inline Name Target} {a : Account Name Target} (h : i.Holds a) (hsite : i.site.isSome)
    (th : Thresholds) :
    ∃ live : ObjectId → Set Name, Hybrid.Wrote (i.toHybrid th) (i.migrate th) live a.Wiped ∧
      (∀ id, a.Wiped id → live id = a.names id) ∧ ∀ id, live id ⊆ a.names id := by
  have hnum := i.toHybrid_numbered th
  rw [Inline.migrate, Inline.copyRows]
  cases ht : i.table with
  | none =>
    obtain ⟨honly, hnum', hlive, hwiped⟩ := Hybrid.wrote_foldl_idsRowsOf hnum i.pending
    rw [h.unbuilt ht] at hlive hwiped
    refine ⟨_, ⟨honly, hnum', hlive, fun id => ?_⟩, fun id hw => ?_, fun id => ?_⟩
    · rw [hwiped]
      simp [toHybrid_hasWipe, Account.Wiped]
    · exact Event.replay_of_wiped _ _ hw
    · by_cases hw : a.Wiped id
      · exact (Event.replay_of_wiped _ _ hw).subset
      · rw [Account.names, Event.replay_of_not_wiped _ hw, Event.replay_of_not_wiped _ hw, toHybrid_live]
        exact Set.union_subset_union_left _ (Set.empty_subset _)
  | some t =>
    obtain ⟨honly, hnum', hlive, hwiped⟩ := Hybrid.wrote_wipes hnum i.wiped
    obtain ⟨honly', hnum'', hlive', hwiped'⟩ := Hybrid.wrote_entries hnum' t.entries
    have hnames := (h.built t ht).2
    refine ⟨a.names, ⟨honly.trans honly', hnum'', fun id n => ?_, fun id => ?_⟩, fun _ _ => rfl,
      fun _ => subset_rfl⟩
    · rw [hlive', Set.mem_ofPred_eq, hlive, mem_entries_iff, ← hnames]
      simp [toHybrid_live, Table.names]
    · rw [hwiped', hwiped, h.wiped hsite]
      simp [toHybrid_hasWipe]

lemma Holds.migrate {i : Inline Name Target} {a : Account Name Target} (h : i.Holds a) (ha : a.Sound)
    (hsite : i.site.isSome) (th : Thresholds) :
    (i.migrate th).Holds a ∧ (i.migrate th).inodes = none := by
  obtain ⟨live, ⟨honly, hnum, hlive, hwiped⟩, hall, hsub⟩ := h.copyRows hsite th
  have hl : (i.migrate th).live = live := funext fun id => Set.ext (hlive id)
  have hnames : (i.migrate th).names = none := honly.names
  have hnames2 : (i.migrate th).names2 = i.listing := honly.names2
  have hinodes : (i.migrate th).inodes = none := honly.inodes
  have hbuilt : (i.migrate th).identityBuilt = false := honly.identityBuilt
  refine ⟨⟨fun n => ?_, ?_, ?_, ?_, hnum, hwiped, ?_, ?_, fun _ id hw n hn => .inl ?_, fun hb =>
    ?_, fun r hr => ?_,
    fun hi => absurd hinodes hi⟩, hinodes⟩
  · rw [hnames, hnames2, h.listing]
    simp
  · exact honly.owners.trans h.owners
  · exact honly.learned.trans h.learned
  · exact honly.nextSeq.trans h.nextSeq
  · rwa [hl]
  · rwa [hl]
  · rw [Hybrid.base, hnames, hnames2]
    exact (h.listing n).mpr (by simp [ha.told.accurate id n hn])
  · simp [hbuilt] at hb
  · simp [hinodes] at hr

end Inline

end Flux.Names
