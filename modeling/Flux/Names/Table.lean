import Flux.Names.World

namespace Flux.Names

open Base

variable {Name Target : Type}

variable {t : Table Name} {id : ObjectId} {n : Name} {l : List Name}

namespace Table

def names (t : Table Name) (id : ObjectId) : Set Name := { n | n ∈ t.at id }

lemma at_insert (t : Table Name) (id id' : ObjectId) (l : List Name) :
    Table.at (t.insert id l) id' = if id' = id then l else t.at id' := by
  unfold Table.at
  by_cases h : id' = id
  · subst h
    simp
  · rw [AList.lookup_insert_ne h, if_neg h]

lemma at_erase (t : Table Name) (id id' : ObjectId) :
    Table.at (t.erase id) id' = if id' = id then [] else t.at id' := by
  unfold Table.at
  by_cases h : id' = id
  · subst h
    simp
  · rw [AList.lookup_erase_ne h, if_neg h]

lemma mem_at_wipe {replaced : Option ObjectId} :
    n ∈ Table.at (t.wipe replaced) id ↔ n ∈ t.at id ∧ replaced ≠ some id := by
  cases replaced with
  | none => simp [wipe]
  | some old =>
    rw [wipe, at_erase]
    by_cases h : id = old
    · simp [h]
    · simp [h, Ne.symm h]

end Table

def Table.Distinct (t : Table Name) : Prop := ∀ id, (t.at id).Nodup

lemma Table.Distinct.wipe (h : t.Distinct) (replaced : Option ObjectId) : Table.Distinct (t.wipe replaced) := by
  cases replaced with
  | none => exact h
  | some old =>
    intro id
    rw [Table.wipe, Table.at_erase]
    split
    · exact List.nodup_nil
    · exact h id

variable [LinearOrder Name]

lemma mem_foldl_push {v : List Name} :
    n ∈ l.foldl (fun v s => if s ∈ v then v else v ++ [s]) v ↔ n ∈ v ∨ n ∈ l := by
  induction l generalizing v with
  | nil => simp
  | cons s l ih =>
    rw [List.foldl_cons, ih, List.mem_cons]
    by_cases hs : s ∈ v
    · rw [if_pos hs]
      constructor
      · rintro (h | h)
        · exact .inl h
        · exact .inr (.inr h)
      · rintro (h | rfl | h)
        · exact .inl h
        · exact .inl hs
        · exact .inr h
    · simp [if_neg hs, or_assoc]

lemma nodup_foldl_push {v : List Name} (h : v.Nodup) :
    (l.foldl (fun v s => if s ∈ v then v else v ++ [s]) v).Nodup := by
  induction l generalizing v with
  | nil => exact h
  | cons s l ih =>
    rw [List.foldl_cons]
    apply ih
    by_cases hs : s ∈ v
    · rwa [if_pos hs]
    · rw [if_neg hs]
      simpa [List.nodup_append, h] using fun a ha => (fun e => hs (e ▸ ha) : a ≠ s)

lemma at_addSpellings (t : Table Name) (id id' : ObjectId) (l : List Name) :
    Table.at (addSpellings t id l) id' =
      if id' = id then l.foldl (fun v s => if s ∈ v then v else v ++ [s]) (t.at id) else t.at id' :=
  Table.at_insert t id id' _

lemma mem_at_addSpellings {id' : ObjectId} :
    n ∈ Table.at (addSpellings t id l) id' ↔ n ∈ t.at id' ∨ id' = id ∧ n ∈ l := by
  rw [at_addSpellings]
  by_cases h : id' = id
  · subst h
    simp [mem_foldl_push]
  · simp [h]

lemma Table.Distinct.addSpellings (h : t.Distinct) (id : ObjectId) (l : List Name) :
    Table.Distinct (addSpellings t id l) := by
  intro id'
  rw [at_addSpellings]
  split
  · exact nodup_foldl_push (h id)
  · exact h id'

namespace Pending

lemma mem_at_apply {p : Pending Name} :
    n ∈ Table.at (p.apply t) id ↔ n ∈ t.at id ∧ p.replaced ≠ some id ∨ p.published = .strong id ∧
    n ∈ p.spellings := by
  rw [apply]
  cases p.published with
  | strong id' =>
    rw [mem_at_addSpellings, Table.mem_at_wipe]
    simp [eq_comm]
  | weak id' => simp [Table.mem_at_wipe]
  | unavailable => simp [Table.mem_at_wipe]

lemma names_apply (t : Table Name) (p : Pending Name) : Table.names (p.apply t) = Event.post t.names p.event := by
  funext id
  ext n
  rw [Event.mem_post]
  change n ∈ Table.at _ id ↔ _
  rw [mem_at_apply, ← strongId_eq_some]
  rfl

lemma distinct_apply (h : t.Distinct) (p : Pending Name) : Table.Distinct (p.apply t) := by
  rw [apply]
  cases p.published with
  | strong id => exact (h.wipe p.replaced).addSpellings id p.spellings
  | weak id => exact h.wipe p.replaced
  | unavailable => exact h.wipe p.replaced

lemma names_foldl_apply (pending : List (Pending Name)) (t : Table Name) :
    Table.names (pending.foldl apply t) = Event.replay t.names (pending.map event) := by
  induction pending generalizing t with
  | nil => rfl
  | cons p pending ih =>
    rw [List.foldl_cons, ih, names_apply]
    rfl

lemma distinct_foldl_apply (pending : List (Pending Name)) (h : t.Distinct) :
    Table.Distinct (pending.foldl apply t) := by
  induction pending generalizing t with
  | nil => exact h
  | cons p pending ih => exact ih (distinct_apply h p)

end Pending

namespace Inline

lemma mem_at_foldl_addEntry {found : List (Name × Metadata)} :
    n ∈ Table.at (found.foldl addEntry t) id ↔ n ∈ t.at id ∨ ∃ m, (n, m) ∈ found ∧ m.identity = .strong id := by
  induction found generalizing t with
  | nil => simp
  | cons e found ih =>
    have hentry : n ∈ Table.at (addEntry t e) id ↔ n ∈ t.at id ∨ n = e.1 ∧ e.2.identity = .strong id := by
      rw [addEntry]
      cases hi : e.2.identity with
      | strong id' =>
        rw [mem_at_addSpellings]
        simp [and_comm, eq_comm]
      | weak id' => simp
      | unavailable => simp
    rw [List.foldl_cons, ih, hentry, or_assoc]
    apply or_congr_right
    constructor
    · rintro (⟨rfl, hi⟩ | ⟨m, hm, hi⟩)
      · exact ⟨e.2, List.mem_cons_self, hi⟩
      · exact ⟨m, List.mem_cons_of_mem _ hm, hi⟩
    · rintro ⟨m, hm, hi⟩
      rcases List.mem_cons.mp hm with rfl | hm
      · exact .inl ⟨rfl, hi⟩
      · exact .inr ⟨m, hm, hi⟩

lemma distinct_foldl_addEntry (found : List (Name × Metadata)) (h : t.Distinct) :
    Table.Distinct (found.foldl addEntry t) := by
  induction found generalizing t with
  | nil => exact h
  | cons e found ih =>
    apply ih
    rw [addEntry]
    cases e.2.identity with
    | strong id => exact h.addSpellings id [e.1]
    | weak id => exact h
    | unavailable => exact h

structure Holds (i : Inline Name Target) (a : Account Name Target) : Prop where
  listing : ∀ n, n ∈ i.listing ↔ a.world n ≠ none
  owners : i.owners = a.owners
  learned : i.learned = a.learned
  nextSeq : i.nextSeq = a.nextSeq
  unbuilt : i.table = none → i.pending.map Pending.event = a.events
  built : ∀ t, i.table = some t → t.Distinct ∧ t.names = a.names
  wiped : i.site.isSome → ∀ id, id ∈ i.wiped ↔ a.Wiped id

variable {i : Inline Name Target} {a : Account Name Target}

lemma Holds.buildTable (h : i.Holds a) (ha : a.Sound) {dir : Dir Name} (hd : Shows a.world dir) :
    ∃ t i', i.buildTable dir = .ok (t, i') ∧ t.Distinct ∧ t.names = a.names ∧ i'.Holds a ∧
      i'.site = i.site := by
  cases ht : i.table with
  | some t =>
    obtain ⟨hdistinct, hnames⟩ := h.built t ht
    exact ⟨t, i, by simp [Inline.buildTable, ht], hdistinct, hnames, h, rfl⟩
  | none =>
    obtain ⟨found, hfound, hmem, -⟩ := statAll_of_shows hd i.listing
    have hempty : Table.Distinct (∅ : Table Name) := fun _ => List.nodup_nil
    have hbase : Table.names (found.foldl addEntry ∅) = a.world.named := by
      funext id
      ext n
      change n ∈ Table.at _ id ↔ a.world n = some (.strong id)
      rw [mem_at_foldl_addEntry]
      constructor
      · rintro (hn | ⟨m, hm, hi⟩)
        · exact absurd hn List.not_mem_nil
        · obtain ⟨hl, hm⟩ := (hmem n m).mp hm
          obtain ⟨j, hj⟩ := Option.ne_none_iff_exists'.mp ((h.listing n).mp hl)
          rw [hj, ← hd.identity hj hm, hi]
      · intro hn
        obtain ⟨m, hm, hi⟩ := hd.found n _ hn
        exact .inr ⟨m, (hmem n m).mpr ⟨(h.listing n).mpr (by simp [hn]), hm⟩, hi⟩
    have hdistinct := Pending.distinct_foldl_apply i.pending (distinct_foldl_addEntry found hempty)
    have hnames : Table.names (i.pending.foldl Pending.apply (found.foldl addEntry ∅)) = a.names := by
      rw [Pending.names_foldl_apply, hbase, h.unbuilt ht]
      funext id
      by_cases hw : a.Wiped id
      · exact Event.replay_of_wiped _ _ hw
      · have htold := ha.told.named hw
        have hsub : Event.added a.events id ⊆ a.world.named id := by
          rw [← htold, Event.replay_of_not_wiped _ hw]
          exact Set.subset_union_right
        rw [Event.replay_of_not_wiped _ hw, Set.union_eq_left.mpr hsub, Account.names, htold]
    refine ⟨_, { i with table := some (i.pending.foldl Pending.apply (found.foldl addEntry ∅)), pending := [] },
      by simp only [Inline.buildTable, ht, hfound], hdistinct, hnames, ?_, rfl⟩
    exact {
      listing := h.listing
      owners := h.owners
      learned := h.learned
      nextSeq := h.nextSeq
      unbuilt := fun hnone => by simp at hnone
      built := by
        intro t hsome
        obtain rfl := Option.some.inj hsome
        exact ⟨hdistinct, hnames⟩
      wiped := h.wiped }

lemma Holds.resolve [DecidableEq Target] (h : i.Holds a) (ha : a.Sound) {dir : Dir Name} (hd : Shows a.world dir)
    (planned : Name) : a.Answers dir planned (i.resolve dir planned).1 ∧ (i.resolve dir planned).2.Holds a ∧
      (i.resolve dir planned).2.site = i.site := by
  unfold Account.Answers
  by_cases hk : planned ∈ i.listing
  · rw [if_pos ((h.listing planned).mp hk), Inline.resolve, if_pos hk]
    exact ⟨rfl, h, rfl⟩
  · rw [if_neg (mt (h.listing planned).mpr hk), Inline.resolve, if_neg hk]
    cases hp : dir planned with
    | error e => simpa [hd.vanished planned e hp] using h
    | ok m =>
      cases hi : m.identity with
      | weak id => simpa [hi] using h
      | unavailable => simpa [hi] using h
      | strong id =>
        obtain ⟨t, i', hbuild, hdistinct, hnames, hi', hsite⟩ := h.buildTable ha hd
        have hmem : ∀ n, n ∈ t.at id ↔ n ∈ a.names id := fun n => by
          rw [← hnames]
          rfl
        simp only [hi, hbuild]
        by_cases hempty : t.at id = []
        · rw [if_pos hempty]
          refine ⟨⟨[], List.nodup_nil, fun n => ?_, rfl⟩, hi', hsite⟩
          rw [← hmem, hempty]
        · rw [if_neg hempty]
          exact ⟨⟨t.at id, hdistinct id, hmem, by rw [hi'.learned, hi'.owners]⟩, hi', hsite⟩

lemma mem_foldl_insert {listing : List Name} :
    n ∈ l.foldl (fun l s => l.insert s) listing ↔ n ∈ listing ∨ n ∈ l := by
  induction l generalizing listing with
  | nil => simp
  | cons s l ih =>
    rw [List.foldl_cons, ih, List.mem_insert_iff, List.mem_cons]
    tauto

lemma learn_eq (i : Inline Name Target) (a : Account Name Target) (hl : i.learned = a.learned)
    (hs : i.nextSeq = a.nextSeq) (s : Option Name) :
    i.learn s = { i with learned := (a.learn s).learned, nextSeq := (a.learn s).nextSeq } := by
  obtain ⟨listing, table, owners, pending, learned, nextSeq, site, wiped⟩ := i
  obtain rfl : learned = a.learned := hl
  obtain rfl : nextSeq = a.nextSeq := hs
  cases s with
  | none => rfl
  | some s =>
    by_cases h : a.learned s = none
    · simp [learn, Account.learn, h]
    · simp [learn, Account.learn, h]

lemma Holds.record (h : i.Holds a) (p : Publication Name Target) :
    (i.record p).Holds (a.publish p) ∧ (i.record p).site = i.site := by
  have hlisting : ∀ n, n ∈ p.spellings.foldl (fun l s => l.insert s) i.listing ↔ (a.publish p).world n ≠ none := by
    intro n
    rw [mem_foldl_insert, h.listing]
    change _ ↔ a.world.publish p n ≠ none
    by_cases hn : n ∈ p.spellings <;> simp [World.publish, hn]
  have howners : p.spellings.foldl (fun o s => Function.update o s (some p.target)) i.owners =
    (a.publish p).owners := by
    rw [h.owners]
    rfl
  have hwiped : i.site.isSome → ∀ id, id ∈ i.wiped ++ p.replaced.toList ↔ (a.publish p).Wiped id := by
    intro hsite id
    rw [List.mem_append, h.wiped hsite, Account.wiped_publish, Option.mem_toList]
  rw [Inline.record, learn_eq i a h.learned h.nextSeq]
  cases ht : i.table with
  | none =>
    refine ⟨⟨hlisting, howners, rfl, rfl, fun _ => ?_, fun t hnone => ?_, fun hsite id => ?_⟩, rfl⟩
    · rw [List.map_append, h.unbuilt ht]
      rfl
    · simp at hnone
    · have hsome : i.site.isSome := hsite
      simpa [hsome] using hwiped hsome id
  | some t =>
    obtain ⟨hdistinct, hnames⟩ := h.built t ht
    refine ⟨⟨hlisting, howners, rfl, rfl, fun hnone => ?_, fun t' hsome => ?_, fun hsite id => ?_⟩, rfl⟩
    · simp at hnone
    · obtain rfl := Option.some.inj hsome
      refine ⟨Pending.distinct_apply hdistinct _, ?_⟩
      rw [Pending.names_apply, hnames]
      funext id
      ext n
      rw [Account.mem_names_publish, Event.mem_post, ← strongId_eq_some]
      rfl
    · have hsome : i.site.isSome := hsite
      simpa [hsome] using hwiped hsome id

end Inline

end Flux.Names
