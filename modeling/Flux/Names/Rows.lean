import Flux.Names.World
import Mathlib.Data.List.Dedup

/-! The rows younger than the latest wipe of their identity are a ledger of the publications. -/

namespace Flux.Names

open Base

variable {Name Target : Type}

namespace Hybrid

structure OnlyRows (h h' : Hybrid Name Target) : Prop where
  thresholds : h'.thresholds = h.thresholds
  names : h'.names = h.names
  inodes : h'.inodes = h.inodes
  identity : h'.identity = h.identity
  identityBuilt : h'.identityBuilt = h.identityBuilt
  nextSeq : h'.nextSeq = h.nextSeq
  names2 : h'.names2 = h.names2
  owners : h'.owners = h.owners
  learned : h'.learned = h.learned

lemma OnlyRows.refl (h : Hybrid Name Target) : OnlyRows h h := ⟨rfl, rfl, rfl, rfl, rfl, rfl, rfl, rfl, rfl⟩

variable {h : Hybrid Name Target} {id id' : ObjectId} {n : Name}

lemma OnlyRows.trans {h' h'' : Hybrid Name Target} (a : OnlyRows h h') (b : OnlyRows h' h'') : OnlyRows h h'' :=
  ⟨b.1.trans a.1, b.2.trans a.2, b.3.trans a.3, b.4.trans a.4, b.5.trans a.5, b.6.trans a.6, b.7.trans a.7,
    b.8.trans a.8, b.9.trans a.9⟩

lemma latestWipe_eq_none {rows : List (Option Name × ℕ)} : latestWipe rows = none ↔ ∀ seq, (none, seq) ∉ rows := by
  rw [latestWipe, List.max?_eq_none_iff, List.map_eq_nil_iff, List.filter_eq_nil_iff]
  constructor
  · intro h seq hr
    exact h _ hr rfl
  · rintro h ⟨spelling, seq⟩ hr hnone
    obtain rfl : spelling = none := Option.isNone_iff_eq_none.mp hnone
    exact h seq hr

lemma latestWipe_eq_some {rows : List (Option Name × ℕ)} {latest : ℕ} (h : latestWipe rows = some latest) :
    (none, latest) ∈ rows ∧ ∀ seq, (none, seq) ∈ rows → seq ≤ latest := by
  rw [latestWipe, List.max?_eq_some_iff] at h
  obtain ⟨hmem, hmax⟩ := h
  refine ⟨?_, fun seq hseq => hmax seq ?_⟩
  · simpa using hmem
  · simpa using hseq

variable [LinearOrder Name]

def HasWipe (h : Hybrid Name Target) (id : ObjectId) : Prop := ∃ seq, (id, none, seq) ∈ h.ids

def live (h : Hybrid Name Target) (id : ObjectId) : Set Name :=
  { n | ∃ seq, (id, some n, seq) ∈ h.ids ∧ ∀ wipe, (id, none, wipe) ∈ h.ids → wipe ≤ seq }

structure Numbered (h : Hybrid Name Target) : Prop where
  pos : 0 < h.nextIdsSeq
  row : ∀ r ∈ h.ids, 0 < r.2.2 ∧ r.2.2 < h.nextIdsSeq

lemma mem_idsRow {spelling spelling' : Option Name} {seq : ℕ} :
    (id', spelling', seq) ∈ (h.idsRow id spelling).ids ↔
      (id', spelling', seq) ∈ h.ids ∧ ¬ (id' = id ∧ spelling' = spelling) ∨
        id' = id ∧ spelling' = spelling ∧ seq = h.nextIdsSeq := by
  simp [idsRow, imp_iff_not_or]

lemma Numbered.idsRow (hn : h.Numbered) (id : ObjectId) (spelling : Option Name) :
    (h.idsRow id spelling).Numbered where
  pos := Nat.succ_pos _
  row := by
    rintro ⟨id', spelling', seq⟩ hr
    change 0 < seq ∧ seq < h.nextIdsSeq + 1
    rcases mem_idsRow.mp hr with ⟨hr, -⟩ | ⟨-, -, rfl⟩
    · obtain ⟨hpos, hlt⟩ := hn.row _ hr
      exact ⟨hpos, Nat.lt_succ_of_lt hlt⟩
    · exact ⟨hn.pos, Nat.lt_succ_self _⟩

lemma hasWipe_idsRow_none : (h.idsRow id none).HasWipe id' ↔ h.HasWipe id' ∨ id' = id := by
  simp only [HasWipe, mem_idsRow]
  by_cases hid : id' = id <;> simp [hid]

lemma hasWipe_idsRow_some {s : Name} : (h.idsRow id (some s)).HasWipe id' ↔ h.HasWipe id' := by
  simp [HasWipe, mem_idsRow]

lemma mem_live_idsRow_none (hn : h.Numbered) : n ∈ (h.idsRow id none).live id' ↔ n ∈ h.live id' ∧ id' ≠ id := by
  constructor
  · rintro ⟨seq, hr, hyoung⟩
    have hrow : (id', some n, seq) ∈ h.ids := by
      rcases mem_idsRow.mp hr with ⟨hr, -⟩ | ⟨-, hs, -⟩
      · exact hr
      · simp at hs
    have hne : id' ≠ id := by
      rintro rfl
      have hle := hyoung h.nextIdsSeq (mem_idsRow.mpr (.inr ⟨rfl, rfl, rfl⟩))
      exact absurd (hn.row _ hrow).2 (Nat.not_lt.mpr hle)
    refine ⟨⟨seq, hrow, fun wipe hw => hyoung wipe (mem_idsRow.mpr (.inl ⟨hw, fun h => hne h.1⟩))⟩, hne⟩
  · rintro ⟨⟨seq, hr, hyoung⟩, hne⟩
    refine ⟨seq, mem_idsRow.mpr (.inl ⟨hr, fun h => hne h.1⟩), fun wipe hw => ?_⟩
    rcases mem_idsRow.mp hw with ⟨hw, -⟩ | ⟨hid, -⟩
    · exact hyoung wipe hw
    · exact absurd hid hne

lemma mem_live_idsRow_some (hn : h.Numbered) {s : Name} :
    n ∈ (h.idsRow id (some s)).live id' ↔ n ∈ h.live id' ∨ id' = id ∧ n = s := by
  have hwipe : ∀ wipe, (id', none, wipe) ∈ (h.idsRow id (some s)).ids ↔ (id', none, wipe) ∈ h.ids := by
    intro wipe
    simp [mem_idsRow]
  have hnew : id' = id ∧ n = s → n ∈ (h.idsRow id (some s)).live id' := by
    rintro ⟨rfl, rfl⟩
    refine ⟨h.nextIdsSeq, mem_idsRow.mpr (.inr ⟨rfl, rfl, rfl⟩), fun wipe hw => ?_⟩
    exact (hn.row _ ((hwipe wipe).mp hw)).2.le
  constructor
  · rintro ⟨seq, hr, hyoung⟩
    rcases mem_idsRow.mp hr with ⟨hr, -⟩ | ⟨hid, hs, -⟩
    · exact .inl ⟨seq, hr, fun wipe hw => hyoung wipe ((hwipe wipe).mpr hw)⟩
    · exact .inr ⟨hid, Option.some.inj hs⟩
  · rintro (⟨seq, hr, hyoung⟩ | hs)
    · by_cases hsame : id' = id ∧ n = s
      · exact hnew hsame
      · refine ⟨seq, mem_idsRow.mpr (.inl ⟨hr, ?_⟩), fun wipe hw => hyoung wipe ((hwipe wipe).mp hw)⟩
        rwa [Option.some.injEq]
    · exact hnew hs

lemma onlyRows_idsRow (h : Hybrid Name Target) (id : ObjectId) (spelling : Option Name) :
    OnlyRows h (h.idsRow id spelling) := ⟨rfl, rfl, rfl, rfl, rfl, rfl, rfl, rfl, rfl⟩

structure Wrote (h h' : Hybrid Name Target) (live' : ObjectId → Set Name) (wiped' : ObjectId → Prop) : Prop where
  only : OnlyRows h h'
  numbered : h'.Numbered
  live : ∀ id n, n ∈ h'.live id ↔ n ∈ live' id
  wiped : ∀ id, h'.HasWipe id ↔ wiped' id

lemma wrote_spellings (hn : h.Numbered) (id : ObjectId) (l : List Name) :
    Wrote h (l.foldl (fun h s => h.idsRow id (some s)) h) (fun id' => { n | n ∈ h.live id' ∨ id' = id ∧ n ∈ l })
      h.HasWipe := by
  induction l generalizing h with
  | nil => exact ⟨.refl h, hn, by simp, fun _ => Iff.rfl⟩
  | cons s l ih =>
    obtain ⟨honly, hnum, hlive, hwiped⟩ := ih (hn.idsRow id (some s))
    refine ⟨(onlyRows_idsRow h id (some s)).trans honly, hnum, fun id' n => ?_, fun id' => ?_⟩
    · rw [List.foldl_cons, hlive]
      simp only [Set.mem_ofPred_eq, mem_live_idsRow_some hn, List.mem_cons]
      tauto
    · rw [List.foldl_cons, hwiped, hasWipe_idsRow_some]

lemma wrote_wipeRow (hn : h.Numbered) (replaced : Option ObjectId) :
    Wrote h (h.wipeRow replaced) (fun id => { n | n ∈ h.live id ∧ replaced ≠ some id })
      (fun id => h.HasWipe id ∨ replaced = some id) := by
  cases replaced with
  | none => exact ⟨.refl h, hn, by simp [wipeRow], by simp [wipeRow]⟩
  | some old =>
    refine ⟨onlyRows_idsRow h old none, hn.idsRow old none, fun id n => ?_, fun id => ?_⟩
    · rw [wipeRow, mem_live_idsRow_none hn]
      simp [eq_comm]
    · rw [wipeRow, hasWipe_idsRow_none]
      simp [eq_comm]

lemma wrote_idsRowsOf (hn : h.Numbered) (p : Pending Name) :
    Wrote h (h.idsRowsOf p) (Event.post h.live p.event) (fun id => h.HasWipe id ∨ p.replaced = some id) := by
  obtain ⟨honly, hnum, hlive, hwiped⟩ := wrote_wipeRow hn p.replaced
  have hother : strongId p.published = none →
      Wrote h (h.wipeRow p.replaced) (Event.post h.live p.event) (fun id => h.HasWipe id ∨
        p.replaced = some id) := by
    intro hnone
    refine ⟨honly, hnum, fun id n => ?_, hwiped⟩
    rw [hlive, Event.mem_post]
    simp [Pending.event, hnone]
  cases hp : p.published with
  | strong id =>
    obtain ⟨honly', hnum', hlive', hwiped'⟩ := wrote_spellings hnum id p.spellings
    rw [idsRowsOf, hp]
    refine ⟨honly.trans honly', hnum', fun id' n => ?_, fun id' => ?_⟩
    · rw [hlive', Event.mem_post, Set.mem_ofPred_eq, hlive]
      simp [Pending.event, hp, strongId, eq_comm]
    · rw [hwiped', hwiped]
  | weak id =>
    rw [idsRowsOf, hp]
    exact hother (by simp [hp, strongId])
  | unavailable =>
    rw [idsRowsOf, hp]
    exact hother (by simp [hp, strongId])

lemma wrote_foldl_idsRowsOf (hn : h.Numbered) (pending : List (Pending Name)) :
    Wrote h (pending.foldl idsRowsOf h) (Event.replay h.live (pending.map Pending.event))
      (fun id => h.HasWipe id ∨ Event.Wiped (pending.map Pending.event) id) := by
  induction pending generalizing h with
  | nil => exact ⟨.refl h, hn, fun _ _ => Iff.rfl, by simp [Event.Wiped]⟩
  | cons p pending ih =>
    obtain ⟨honly, hnum, hlive, hwiped⟩ := wrote_idsRowsOf hn p
    obtain ⟨honly', hnum', hlive', hwiped'⟩ := ih hnum
    have hledger : (h.idsRowsOf p).live = Event.post h.live p.event := funext fun id => Set.ext (hlive id)
    refine ⟨honly.trans honly', hnum', fun id n => ?_, fun id => ?_⟩
    · rw [List.foldl_cons, hlive', hledger]
      rfl
    · rw [List.foldl_cons, hwiped', hwiped, or_assoc]
      apply or_congr_right
      simp [Event.Wiped, Pending.event]

lemma wrote_wipes (hn : h.Numbered) (wiped : List ObjectId) :
    Wrote h (wiped.foldl (fun h old => h.idsRow old none) h) (fun id => { n | n ∈ h.live id ∧ id ∉ wiped })
      (fun id => h.HasWipe id ∨ id ∈ wiped) := by
  induction wiped generalizing h with
  | nil => exact ⟨.refl h, hn, by simp, by simp⟩
  | cons old wiped ih =>
    obtain ⟨honly, hnum, hlive, hwiped⟩ := ih (hn.idsRow old none)
    refine ⟨(onlyRows_idsRow h old none).trans honly, hnum, fun id n => ?_, fun id => ?_⟩
    · rw [List.foldl_cons, hlive]
      simp only [Set.mem_ofPred_eq, mem_live_idsRow_none hn, List.mem_cons, not_or, and_assoc]
    · rw [List.foldl_cons, hwiped, hasWipe_idsRow_none, List.mem_cons, or_assoc]

lemma wrote_entries (hn : h.Numbered) (entries : List (Σ _ : ObjectId, List Name)) :
    Wrote h (entries.foldl (fun h e => e.2.foldl (fun h s => h.idsRow e.1 (some s)) h) h)
      (fun id => { n | n ∈ h.live id ∨ ∃ e ∈ entries, e.1 = id ∧ n ∈ e.2 }) h.HasWipe := by
  induction entries generalizing h with
  | nil => exact ⟨.refl h, hn, by simp, fun _ => Iff.rfl⟩
  | cons e entries ih =>
    obtain ⟨honly, hnum, hlive, hwiped⟩ := wrote_spellings hn e.1 e.2
    obtain ⟨honly', hnum', hlive', hwiped'⟩ := ih hnum
    refine ⟨honly.trans honly', hnum', fun id n => ?_, fun id => ?_⟩
    · rw [List.foldl_cons, hlive']
      simp only [Set.mem_ofPred_eq, hlive, List.exists_mem_cons_iff, or_assoc, @eq_comm _ id]
    · rw [List.foldl_cons, hwiped', hwiped]

omit [LinearOrder Name] in
lemma mem_idsRows {spelling : Option Name} {seq : ℕ} :
    (spelling, seq) ∈ h.idsRows id ↔ (id, spelling, seq) ∈ h.ids := by
  simp [idsRows]

variable {tier1 : List Name}

omit [LinearOrder Name] in
lemma mem_stamped {rows : List (Option Name × ℕ)} {seq : ℕ} :
    (n, seq) ∈ stamped tier1 rows ↔ n ∈ tier1 ∧ seq = 0 ∨ (some n, seq) ∈ rows := by
  simp [stamped, eq_comm]

lemma le_foldl_max {l : List ℕ} {k init : ℕ} : k ≤ l.foldl max init ↔ k ≤ init ∨ ∃ x ∈ l, k ≤ x := by
  induction l generalizing init with
  | nil => simp
  | cons x l ih =>
    rw [List.foldl_cons, ih, le_max_iff]
    simp [or_assoc]

lemma le_seqOf {all : List (Name × ℕ)} {k : ℕ} (hk : 0 < k) :
    k ≤ seqOf all n ↔ ∃ seq, (n, seq) ∈ all ∧ k ≤ seq := by
  rw [seqOf, le_foldl_max]
  simp [Nat.not_le.mpr hk]

lemma candidates_nodup (tier1 : List Name) (rows : List (Option Name × ℕ)) : (candidates tier1 rows).Nodup := by
  unfold candidates
  dsimp only
  split
  · exact List.nodup_dedup _
  · exact (List.nodup_dedup _).filter _

lemma mem_candidates_of_not_hasWipe (hw : ¬ h.HasWipe id) :
    n ∈ candidates tier1 (h.idsRows id) ↔ n ∈ tier1 ∨ n ∈ h.live id := by
  have hnone : ∀ seq, (id, none, seq) ∉ h.ids := fun seq hr => hw ⟨seq, hr⟩
  have hlatest : latestWipe (h.idsRows id) = none :=
    latestWipe_eq_none.mpr fun seq hr => hnone seq (mem_idsRows.mp hr)
  have hlive : n ∈ h.live id ↔ ∃ seq, (id, some n, seq) ∈ h.ids := by
    simp [live, hnone]
  unfold candidates
  simp only [hlatest, hlive, List.mem_dedup, List.mem_map, Prod.exists, exists_and_right,
    exists_eq_right, mem_stamped, mem_idsRows, exists_or]

lemma mem_candidates_of_hasWipe (hn : h.Numbered) (hw : h.HasWipe id) :
    n ∈ candidates tier1 (h.idsRows id) ↔ n ∈ h.live id := by
  obtain ⟨wipe, hwipe⟩ := hw
  cases hl : latestWipe (h.idsRows id) with
  | none => exact absurd (mem_idsRows.mpr hwipe) (latestWipe_eq_none.mp hl wipe)
  | some latest =>
    obtain ⟨hrow, hmax⟩ := latestWipe_eq_some hl
    have hpos : 0 < latest := (hn.row _ (mem_idsRows.mp hrow)).1
    unfold candidates
    simp only [hl, List.mem_filter, List.mem_dedup, decide_eq_true_eq, le_seqOf hpos]
    constructor
    · rintro ⟨-, seq, hs, hle⟩
      rcases mem_stamped.mp hs with ⟨-, rfl⟩ | hs
      · omega
      · refine ⟨seq, mem_idsRows.mp hs, fun w hw => ?_⟩
        exact (hmax w (mem_idsRows.mpr hw)).trans hle
    · rintro ⟨seq, hs, hyoung⟩
      have hstamp : (n, seq) ∈ stamped tier1 (h.idsRows id) := mem_stamped.mpr (.inr (mem_idsRows.mpr hs))
      exact ⟨List.mem_map_of_mem hstamp, seq, hstamp, hyoung latest (mem_idsRows.mp hrow)⟩

end Hybrid

end Flux.Names
