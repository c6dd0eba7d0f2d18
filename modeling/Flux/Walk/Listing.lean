import Flux.Spill.Cascade
import Flux.Walk.Seen

/-! Listings in name order: small ones sorted in memory, large ones through the walk's scratch lane. -/

namespace Flux.Walk

open Base Spill

def walkLane : ℕ := 0

structure Listing where
  buf : List Keyed
  runs : List RunSpan
  region : Option ℕ

inductive Entries where
  | inline (rest : List DirEntry)
  | spilled (reader : MergeReader) (start : ℕ)

abbrev ReadDir := Path → List DirEntry × Option FsError

def sorted (entries : List DirEntry) : List DirEntry := entries.mergeSort fun a b => (compare a.name b.name).isLE

namespace Listing

variable (sort : SortUnstable)

def flush (t : Thresholds) (s : Listing × Disk) : Attempt FsError (Listing × Disk) :=
  if s.1.buf = [] then pure s
  else do
    let region := s.1.region.getD (s.2 walkLane).length
    let buf ← sortEntries sort s.1.buf
    let (run, disk) ← writeRun s.2 walkLane 0 t.mergeBuffer buf
    pure (⟨[], s.1.runs ++ [run], some region⟩, disk)

def makeRoom (scratch : Option Thresholds) (s : Listing × Disk) : Attempt FsError (Listing × Disk) :=
  match scratch with
  | none => pure s
  | some t => if t.runEntries ≤ s.1.buf.length then flush sort t s else pure s

def push (scratch : Option Thresholds) (s : Listing × Disk) (e : DirEntry) : Attempt FsError (Listing × Disk) := do
  let (l, disk) ← makeRoom sort scratch s
  pure ({ l with buf := l.buf ++ [.plain e] }, disk)

def spill (t : Thresholds) (s : Listing × Disk) : Attempt FsError (Entries × Disk) := do
  let (l, disk) ← flush sort t s
  let cascaded ← cascade t disk walkLane 0 l.runs
  match l.region with
  -- a spilled listing holds a region, else a panic
  | none => ExceptT.mk none
  | some start =>
    let reader ← MergeReader.new t cascaded.disk walkLane 0 cascaded.runs
    pure (.spilled reader start, cascaded.disk)

end Listing

def spills (scratch : Option Thresholds) (l : Listing) : Option Thresholds :=
  scratch.filter fun t => l.runs ≠ [] ∨ t.inlineEntries < l.buf.length

def listSorted (sort : SortUnstable) (scratch : Option Thresholds) (readDir : ReadDir)
    (disk : Disk) (path : Path) : Attempt Empty (Except ListError Entries × Disk) := do
  match ← settle ((readDir path).1.foldlM (Listing.push sort scratch) (⟨[], [], none⟩, disk)) with
  | .error e => pure (.error (.fatal e), disk)
  | .ok (l, disk') =>
    match (readDir path).2 with
    | some e => pure (.error (.listing e), disk)
    | none =>
      match spills scratch l with
      | none => pure (.ok (.inline (sorted (l.buf.map Keyed.entry))), disk')
      | some t =>
        match ← settle (Listing.spill sort t (l, disk')) with
        | .error e => pure (.error (.fatal e), disk)
        | .ok (entries, disk) => pure (.ok entries, disk)

def nextEntry (disk : Disk) : Entries → Attempt Empty (Option (Except FsError DirEntry) × Entries)
  | .inline [] => pure (none, .inline [])
  | .inline (e :: rest) => pure (some (.ok e), .inline rest)
  | .spilled reader start => do
    let (item, reader) ← ExceptT.lift (reader.next disk)
    pure (item.map fun r => r.map Keyed.entry, .spilled reader start)

def dropEntries (disk : Disk) : Entries → Disk
  | .inline _ => disk
  | .spilled _ start => Function.update disk walkLane ((disk walkLane).take start)

def scratchLister (sort : SortUnstable) (scratch : Option Thresholds) (readDir : ReadDir) :
    Lister Disk Entries where
  list := listSorted sort scratch readDir
  next := nextEntry
  drop := dropEntries
  empty := .inline []

lemma plain_fits {e : DirEntry} (h : e.name.length ≤ u16Max) : Fits (.plain e) := h

structure Pushed (before : Disk) (done : List DirEntry) (s : Listing × Disk) : Prop where
  runs : ∃ runs, List.Forall₂ (Holds 0 (s.2 walkLane)) s.1.runs runs ∧
    (runs.flatten ++ s.1.buf).Perm (done.map .plain) ∧ ∀ r ∈ runs, Sorted 0 r
  grown : Grown walkLane before s.2
  unspilled : s.1.runs = [] → s.1.region = none ∧ s.2 = before
  spilled : s.1.runs ≠ [] → s.1.region = some (before walkLane).length

variable {s : Listing × Disk}

variable {before : Disk}

lemma Pushed.region {done : List DirEntry} (h : Pushed before done s) :
    s.1.region.getD (s.2 walkLane).length = (before walkLane).length := by
  by_cases hruns : s.1.runs = []
  · rw [(h.unspilled hruns).1, (h.unspilled hruns).2, Option.getD_none]
  · rw [h.spilled hruns, Option.getD_some]

lemma Pushed.flush (sort : SortUnstable) (t : Thresholds) {done : List DirEntry}
    (hfits : ∀ e ∈ done, e.name.length ≤ u16Max) (h : Pushed before done s) :
    Returns (Listing.flush sort t s) fun s' => Pushed before done s' ∧ s'.1.buf = [] ∧
      (s.1.buf ≠ [] → s'.1.runs ≠ []) ∧ (s.1.runs ≠ [] → s'.1.runs ≠ []) := by
  rw [Listing.flush]
  split
  · rename_i hbuf
    exact .pure ⟨h, hbuf, fun hne => absurd hbuf hne, id⟩
  · obtain ⟨runs, hholds, hperm, hsorted⟩ := h.runs
    apply (sortKeyed_returns sort (Nat.zero_le 24) s.1.buf).bind
    intro v hv
    have hv' : ∀ x ∈ v, Fits x := by
      intro x hx
      obtain ⟨e, he, rfl⟩ := List.mem_map.mp (hperm.mem_iff.mp (List.mem_append_right _ (hv.1.mem_iff.mp hx)))
      exact plain_fits (hfits e he)
    apply (writeRun_returns walkLane t.mergeBuffer hv').bind
    intro r hr
    refine .pure ⟨⟨⟨runs ++ [v], List.rel_append (forall₂_mono hholds (hr.2.le walkLane)) (.cons hr.1 .nil), ?_,
      ?_⟩, h.grown.trans hr.2, ?_, ?_⟩, rfl, by simp, by simp⟩
    · simp only [List.flatten_append, List.flatten_singleton, List.append_nil]
      exact (hv.1.append_left _).trans hperm
    · intro q hq
      obtain hq | hq := List.mem_append.mp hq
      · exact hsorted q hq
      · exact List.mem_singleton.mp hq ▸ hv.2
    · simp
    · intro _
      rw [h.region]

lemma Pushed.append {done : List DirEntry} (h : Pushed before done s) (e : DirEntry) :
    Pushed before (done ++ [e]) ({ s.1 with buf := s.1.buf ++ [.plain e] }, s.2) := by
  obtain ⟨runs, hholds, hperm, hsorted⟩ := h.runs
  refine ⟨⟨runs, hholds, ?_, hsorted⟩, h.grown, h.unspilled, h.spilled⟩
  rw [← List.append_assoc, List.map_append]
  exact hperm.append_right _

lemma Pushed.push (sort : SortUnstable) (scratch : Option Thresholds) {done : List DirEntry} {e : DirEntry}
    (hfits : ∀ e ∈ done, e.name.length ≤ u16Max) (h : Pushed before done s)
    (hnone : scratch = none → s.1.runs = []) :
    Returns (Listing.push sort scratch s e) fun s' => Pushed before (done ++ [e]) s' ∧
      (scratch = none → s'.1.runs = []) := by
  have hroom : Returns (Listing.makeRoom sort scratch s) fun s' => Pushed before done s' ∧
      (scratch = none → s'.1.runs = []) := by
    unfold Listing.makeRoom
    cases scratch with
    | none => exact .pure ⟨h, hnone⟩
    | some t =>
      simp only []
      split
      · apply (h.flush sort t hfits).imp
        intro s' hs'
        exact ⟨hs'.1, by simp⟩
      · exact .pure ⟨h, by simp⟩
  rw [Listing.push]
  apply hroom.bind
  intro s' hs'
  exact .pure ⟨hs'.1.append e, hs'.2⟩

lemma pushed_returns (sort : SortUnstable) (scratch : Option Thresholds) (disk : Disk) {entries : List DirEntry}
    (hfits : ∀ e ∈ entries, e.name.length ≤ u16Max) :
    Returns (entries.foldlM (Listing.push sort scratch) (⟨[], [], none⟩, disk)) fun s =>
      Pushed disk entries s ∧ (scratch = none → s.1.runs = []) := by
  apply Returns.foldlM (fun done s => Pushed disk done s ∧ (scratch = none → s.1.runs = []))
  · intro done e rest s hx hs
    exact hs.1.push sort scratch (fun e he => hfits e (by simp [hx, he])) hs.2
  · exact ⟨⟨⟨[], .nil, .refl _, by simp⟩, .refl _ _, fun _ => ⟨rfl, rfl⟩, fun h => absurd rfl h⟩, fun _ => rfl⟩

def typed (e : DirEntry) : Bytes × FileType := (e.name, e.fileType)

def NamesIncrease (items : List (Bytes × FileType)) : Prop := items.Pairwise fun a b => a.1 < b.1

structure Reading (chunk : ℕ) (file : Bytes) (reader : MergeReader) (items : List (Bytes × FileType)) : Prop where
  unfinished : reader.done = false
  merging : ∃ runs, Merging 0 walkLane chunk file reader.merger runs ∧ (∀ r ∈ runs, ∀ x ∈ r, Fits x) ∧
    (∀ r ∈ runs, Sorted 0 r) ∧ (runs.flatten.map fun x => typed x.entry).Perm items

def InUse (chunk : ℕ) : Bytes → Remainders Entries → Prop
  | _, [] => True
  | file, (.inline rest, items, broken) :: live => rest.map typed = items ∧ broken = none ∧ InUse chunk file live
  | file, (.spilled reader start, items, broken) :: live => start ≤ file.length ∧ broken = none ∧
      NamesIncrease items ∧ ((reader.done = true ∧ items = []) ∨ Reading chunk file reader items) ∧
      InUse chunk (file.take start) live

lemma sorted_le {x : Keyed} {xs : List Keyed} (h : Sorted 0 (x :: xs)) :
    ∀ y ∈ xs, x.entry.name ≤ y.entry.name := by
  intro y hy
  have hle := List.rel_of_pairwise_cons h hy
  simpa [order, compare_isLE_iff] using hle

lemma Reading.head {runs : List (List Keyed)} {items : List (Bytes × FileType)} (hinc : NamesIncrease items)
    (hsorted : ∀ r ∈ runs, Sorted 0 r) (hperm : (runs.flatten.map fun x => typed x.entry).Perm items) {i : ℕ}
    {x : Keyed} {xs : List Keyed} (hi : runs[i]? = some (x :: xs)) (hle : ∀ r ∈ runs, ∀ y ∈ r.head?, Le 0 x y) :
    ∃ rest, items = typed x.entry :: rest ∧ ((runs.set i xs).flatten.map fun x => typed x.entry).Perm rest := by
  have hall : ∀ y ∈ runs.flatten, x.entry.name ≤ y.entry.name := by
    intro y hy
    obtain ⟨r, hr, hyr⟩ := List.mem_flatten.mp hy
    cases r with
    | nil => simp at hyr
    | cons z zs =>
      have hz : x.entry.name ≤ z.entry.name := by simpa [Le, order, compare_isLE_iff] using hle _ hr z rfl
      obtain rfl | hyz := List.mem_cons.mp hyr
      · exact hz
      · exact hz.trans (sorted_le (hsorted _ hr) y hyz)
  have hcons : (typed x.entry :: (runs.set i xs).flatten.map fun x => typed x.entry).Perm items := by
    refine List.Perm.trans ?_ hperm
    simpa using ((flatten_set_perm hi).map fun x => typed x.entry).symm
  cases items with
  | nil => exact absurd hcons.length_eq (by simp)
  | cons item rest =>
    obtain heq | hmem := List.mem_cons.mp (hcons.mem_iff.mp List.mem_cons_self)
    · subst heq
      exact ⟨rest, rfl, hcons.cons_inv⟩
    · -- the first item is strictly below the others, so it cannot be another one
      have hlt : item.1 < x.entry.name := List.rel_of_pairwise_cons hinc hmem
      obtain ⟨y, hy, rfl⟩ := List.mem_map.mp (hperm.mem_iff.mpr List.mem_cons_self)
      exact absurd (hall y hy) (not_le.mpr hlt)

lemma Reading.next {chunk : ℕ} (hchunk : 0 < chunk) {disk : Disk} {reader : MergeReader}
    {items : List (Bytes × FileType)} (hinc : NamesIncrease items)
    (h : Reading chunk (disk walkLane) reader items) : ∃ s, reader.next disk = some s ∧ match items with
      | [] => s.1 = none ∧ s.2.done = true
      | item :: rest =>
      (∃ x, s.1 = some (.ok x) ∧ typed x.entry = item) ∧ Reading chunk (disk walkLane) s.2 rest := by
  obtain ⟨runs, hm, hfits, hsorted, hperm⟩ := h.merging
  obtain ⟨s, hs, hcase⟩ := MergeReader.next_returns (Nat.zero_le 24) hchunk List.prefix_rfl hfits h.unfinished hm
  refine ⟨s, hs, ?_⟩
  obtain ⟨hnone, hdone, hnil⟩ | ⟨i, x, xs, hi, hle, hsome, hopen, hm'⟩ := hcase
  · have hflat : runs.flatten = [] := List.flatten_eq_nil_iff.mpr hnil
    rw [hflat] at hperm
    obtain rfl := hperm.nil_eq
    exact ⟨hnone, hdone⟩
  · obtain ⟨rest, rfl, hrest⟩ := Reading.head hinc hsorted hperm hi hle
    have hrun := List.mem_of_getElem? hi
    refine ⟨⟨stored 0 x, hsome, rfl⟩, hopen, runs.set i xs, hm', ?_, ?_, hrest⟩
    · intro r hr y hy
      obtain hr | rfl := List.mem_or_eq_of_mem_set hr
      · exact hfits r hr y hy
      · exact hfits _ hrun y (List.mem_cons_of_mem _ hy)
    · intro r hr
      obtain hr | rfl := List.mem_or_eq_of_mem_set hr
      · exact hsorted r hr
      · exact (hsorted _ hrun).of_cons

lemma sorted_perm (entries : List DirEntry) : (sorted entries).Perm entries := List.mergeSort_perm _ _

lemma sorted_increase {entries : List DirEntry} (hnodup : (entries.map DirEntry.name).Nodup) :
    NamesIncrease ((sorted entries).map typed) := by
  have hle : (sorted entries).Pairwise fun a b => a.name ≤ b.name := by
    refine (List.pairwise_mergeSort ?_ ?_ entries).imp fun h => compare_isLE_iff.mp h
    · intro a b c hab hbc
      rw [compare_isLE_iff] at hab hbc ⊢
      exact hab.trans hbc
    · intro a b
      rw [Bool.or_eq_true, compare_isLE_iff, compare_isLE_iff]
      exact le_total a.name b.name
  have hne : (sorted entries).Pairwise fun a b => a.name ≠ b.name :=
    List.pairwise_map.mp (((sorted_perm entries).map DirEntry.name).nodup_iff.mpr hnodup)
  rw [NamesIncrease, List.pairwise_map]
  exact (hle.and hne).imp fun h => lt_of_le_of_ne h.1 h.2

structure Orderly (readDir : ReadDir) : Prop where
  fits : ∀ path, ∀ e ∈ (readDir path).1, e.name.length ≤ u16Max
  nodup : ∀ path, ((readDir path).1.map DirEntry.name).Nodup

def listingOf (readDir : ReadDir) (path : Path) : Listed :=
  match (readDir path).2 with
  | some e => .refused e
  | none => .entries ((sorted (readDir path).1).map typed) none

def chunkOf (scratch : Option Thresholds) : ℕ := scratch.elim 1 Thresholds.mergeBuffer

lemma chunkOf_pos (scratch : Option Thresholds) : 0 < chunkOf scratch := by
  cases scratch with
  | none => exact Nat.one_pos
  | some t => exact t.mergeBuffer_pos

def Lane (scratch : Option Thresholds) (disk : Disk) (live : Remainders Entries) : Prop :=
  InUse (chunkOf scratch) (disk walkLane) live

def Opened (t : Thresholds) (before : Disk) (items : List (Bytes × FileType)) (s : Entries × Disk) : Prop :=
  ∃ reader, s.1 = .spilled reader (before walkLane).length ∧ before walkLane <+: s.2 walkLane ∧
    Reading t.mergeBuffer (s.2 walkLane) reader items

lemma spill_returns (sort : SortUnstable) (t : Thresholds) {entries : List DirEntry}
    {items : List (Bytes × FileType)} (hfits : ∀ e ∈ entries, e.name.length ≤ u16Max)
    (hitems : (entries.map typed).Perm items) (h : Pushed before entries s) (hne : s.1.runs ≠ [] ∨ s.1.buf ≠ []) :
    Returns (Listing.spill sort t s) (Opened t before items) := by
  rw [Listing.spill]
  apply (h.flush sort t hfits).bind
  intro s' hs'
  obtain ⟨l, disk⟩ := s'
  obtain ⟨hpushed, hbuf, hfrom, hkeep⟩ := hs'
  obtain ⟨runs, hholds, hperm, hsorted⟩ := hpushed.runs
  have hregion := hpushed.spilled (hne.elim hkeep hfrom)
  simp only at hbuf hregion hperm hholds
  rw [hbuf, List.append_nil] at hperm
  have hfits' : ∀ {l : List (List Keyed)}, l.flatten.Perm (entries.map .plain) → ∀ r ∈ l, ∀ x ∈ r, Fits x := by
    intro l hl r hr x hx
    obtain ⟨e, he, rfl⟩ := List.mem_map.mp (hl.mem_iff.mp (List.mem_flatten_of_mem hr hx))
    exact plain_fits (hfits e he)
  apply (cascade_returns t (Nat.zero_le 24) (hfits' hperm) hsorted hholds).bind
  intro c hc
  obtain ⟨outs, hholds', hperm', hsorted'⟩ := hc.1.holds
  have hall := hperm'.trans hperm
  rw [hregion]
  apply (MergeReader.new_returns t (Nat.zero_le 24) walkLane (hfits' hall) hholds').bind
  intro reader hr
  refine .pure ⟨reader, rfl, (hpushed.grown.trans hc.1.grown).le walkLane, hr.1, outs, hr.2,
    hfits' hall, hsorted', ?_⟩
  refine (hall.map fun x => typed x.entry).trans ?_
  rw [List.map_map]
  exact hitems

lemma spills_eq_some {scratch : Option Thresholds} {l : Listing} {t : Thresholds} (h : spills scratch l = some t) :
    scratch = some t ∧ (l.runs ≠ [] ∨ l.buf ≠ []) := by
  rw [spills, Option.filter_eq_some_iff] at h
  refine ⟨h.1, ?_⟩
  have hcond := of_decide_eq_true h.2
  refine hcond.imp id fun hlt hbuf => ?_
  rw [hbuf, List.length_nil] at hlt
  exact Nat.not_lt_zero _ hlt

lemma spills_eq_none {scratch : Option Thresholds} {l : Listing} (h : spills scratch l = none)
    (hnone : scratch = none → l.runs = []) : l.runs = [] := by
  cases scratch with
  | none => exact hnone rfl
  | some t =>
    by_contra hne
    simp [spills, hne] at h

lemma Opened.lane {t : Thresholds} {items : List (Bytes × FileType)} {s : Entries × Disk}
    {live : Remainders Entries} (hinc : NamesIncrease items)
    (hlive : Lane (some t) before live) (h : Opened t before items s) :
    Lane (some t) s.2 ((s.1, items, none) :: live) := by
  obtain ⟨entries, disk⟩ := s
  obtain ⟨reader, rfl, hle, hreading⟩ := h
  refine ⟨hle.length_le, rfl, hinc, .inr hreading, ?_⟩
  rw [← List.prefix_iff_eq_take.mp hle]
  exact hlive

lemma listSorted_returns (sort : SortUnstable) (scratch : Option Thresholds) {readDir : ReadDir}
    (hdir : Orderly readDir) {disk : Disk} {live : Remainders Entries}
    (path : Path) (hlive : Lane scratch disk live) :
    Returns (listSorted sort scratch readDir disk path) fun r =>
      Opens (Lane scratch) live r (listingOf readDir path) := by
  rw [listSorted]
  apply (pushed_returns sort scratch disk (hdir.fits path)).settle.bind
  rintro r ⟨⟨l, disk'⟩, rfl, hpushed, hnone⟩
  simp only [listingOf]
  cases hfail : (readDir path).2 with
  | some e => exact .pure ⟨rfl, hlive⟩
  | none =>
    have hinc := sorted_increase (hdir.nodup path)
    simp only []
    cases hspills : spills scratch l with
    | none =>
      have hruns := spills_eq_none hspills hnone
      have hdisk : disk' = disk := (hpushed.unspilled hruns).2
      obtain ⟨runs, hholds, hperm, -⟩ := hpushed.runs
      simp only at hholds hruns hperm
      rw [hruns] at hholds
      obtain rfl := List.forall₂_nil_left_iff.mp hholds
      have hbuf : (l.buf.map Keyed.entry).Perm (readDir path).1 := by
        simpa [Function.comp_def, Keyed.plain] using hperm.map Keyed.entry
      have hsame : (sorted (l.buf.map Keyed.entry)).map typed = (sorted (readDir path).1).map typed := by
        have hbuf' := ((sorted_perm _).trans hbuf).trans (sorted_perm (readDir path).1).symm
        refine List.Perm.eq_of_pairwise (fun a b _ _ h h' => absurd h (lt_asymm h')) (sorted_increase ?_) hinc
          (hbuf'.map typed)
        exact (hbuf.map DirEntry.name).nodup_iff.mpr (hdir.nodup path)
      subst hdisk
      exact .pure ⟨_, rfl, hsame, rfl, hlive⟩
    | some t =>
      obtain ⟨rfl, hne⟩ := spills_eq_some hspills
      have hitems : ((readDir path).1.map typed).Perm ((sorted (readDir path).1).map typed) :=
        ((sorted_perm _).map typed).symm
      apply (spill_returns sort t (hdir.fits path) hitems hpushed hne).settle.bind
      rintro r ⟨s, rfl, hopened⟩
      exact .pure ⟨s.1, rfl, hopened.lane hinc hlive⟩

lemma nextEntry_returns (scratch : Option Thresholds) {disk : Disk} {e : Entries} {items : List (Bytes × FileType)}
    {broken : Option FsError} {live : Remainders Entries}
    (hlive : Lane scratch disk ((e, items, broken) :: live)) :
    Returns (nextEntry disk e) fun r => Takes (Lane scratch) disk live r items broken := by
  cases e with
  | inline rest =>
    obtain ⟨rfl, rfl, hlive⟩ := hlive
    cases rest with
    | nil => exact .pure ⟨rfl, rfl, rfl, hlive⟩
    | cons e rest => exact .pure ⟨⟨e, rfl, rfl, rfl⟩, rfl, rfl, hlive⟩
  | spilled reader start =>
    obtain ⟨hstart, rfl, hinc, hcase, hlive⟩ := hlive
    rw [nextEntry]
    obtain ⟨hdone, rfl⟩ | hreading := hcase
    · have hnext : reader.next disk = some (none, reader) := by rw [MergeReader.next, if_pos hdone]
      rw [hnext]
      exact .pure ⟨rfl, hstart, rfl, hinc, .inl ⟨hdone, rfl⟩, hlive⟩
    · obtain ⟨⟨item, reader'⟩, hnext, hs⟩ := hreading.next (chunkOf_pos scratch) hinc
      rw [hnext]
      cases items with
      | nil =>
        obtain ⟨rfl, hdone⟩ := hs
        exact .pure ⟨rfl, hstart, rfl, hinc, .inl ⟨hdone, rfl⟩, hlive⟩
      | cons item rest =>
        obtain ⟨⟨x, rfl, rfl⟩, hreading'⟩ := hs
        exact .pure ⟨⟨x.entry, rfl, rfl, rfl⟩, hstart, rfl, hinc.of_cons, .inr hreading', hlive⟩

theorem scratchLister_lawful (sort : SortUnstable) (scratch : Option Thresholds) {readDir : ReadDir}
    (hdir : Orderly readDir) : Lawful (Lane scratch) (scratchLister sort scratch readDir) (listingOf readDir) where
  list _ _ path hlive := listSorted_returns sort scratch hdir path hlive
  next _ _ _ _ _ hlive := nextEntry_returns scratch hlive
  drop disk e items broken live hlive := by
    cases e with
    | inline rest => exact hlive.2.2
    | spilled reader start =>
      have hlive' := hlive.2.2.2.2
      rw [Lane]
      simpa [scratchLister, dropEntries] using hlive'
  empty _ _ hlive := ⟨rfl, rfl, hlive⟩

end Flux.Walk
