import Flux.Spill.Cascade
import Mathlib.Data.List.Sort
import Mathlib.Data.Prod.Lex

/-! Sorting through the scratch files is sorting in memory. -/

namespace Flux.Spill

open Base

def writeRuns (sort : SortUnstable) (t : Thresholds) (disk : Disk) (lane k : ℕ) (groups : List (List Keyed)) :
    Attempt FsError (List RunSpan × Disk) :=
  groups.foldlM (fun (s : List RunSpan × Disk) group => do
    let v ← sortKeyed sort k group
    let (span, disk) ← writeRun s.2 lane k t.mergeBuffer v
    pure (s.1 ++ [span], disk)) ([], disk)

structure Spilled where
  runs : List RunSpan
  cascaded : Cascaded
  items : List (Except FsError Keyed)

def spillSort (sort : SortUnstable) (t : Thresholds) (disk : Disk) (lane k : ℕ) (entries : List Keyed) :
    Attempt FsError Spilled := do
  let (runs, disk) ← writeRuns sort t disk lane k (chunks t.runEntries entries)
  let cascaded ← cascade t disk lane k runs
  let reader ← MergeReader.new t cascaded.disk lane k cascaded.runs
  let items ← reader.collect cascaded.disk
  pure ⟨runs, cascaded, items⟩

variable {k : ℕ}

lemma writeRuns_returns (sort : SortUnstable) (t : Thresholds) (hk : k ≤ 24) (disk : Disk) (lane : ℕ)
    {groups : List (List Keyed)} (hfits : ∀ g ∈ groups, ∀ x ∈ g, Fits x) :
    Returns (writeRuns sort t disk lane k groups) fun s =>
      ∃ runs, List.Forall₂ (Holds k (s.2 lane)) s.1 runs ∧ runs.flatten.Perm groups.flatten ∧
        (∀ r ∈ runs, Sorted k r) ∧ s.1.length = groups.length := by
  apply Returns.foldlM (fun done (s : List RunSpan × Disk) => ∃ runs, List.Forall₂ (Holds k (s.2 lane)) s.1 runs ∧
    runs.flatten.Perm done.flatten ∧ (∀ r ∈ runs, Sorted k r) ∧ s.1.length = done.length) _
    ⟨[], .nil, .refl _, by simp, rfl⟩
  intro done g rest s hx hs
  obtain ⟨runs, hholds, hperm, hsorted, hlen⟩ := hs
  apply (sortKeyed_returns sort hk g).bind
  intro v hv
  have hv' : ∀ x ∈ v, Fits x := fun x hx' => hfits g (by simp [hx]) x (hv.1.mem_iff.mp hx')
  apply (writeRun_returns lane t.mergeBuffer hv').bind
  intro r hr
  refine .pure ⟨runs ++ [v], List.rel_append (forall₂_mono hholds (hr.2.le lane)) (.cons hr.1 .nil), ?_, ?_, ?_⟩
  · rw [List.flatten_append, List.flatten_append]
    exact hperm.append (by simpa using hv.1)
  · intro q hq
    obtain hq | hq := List.mem_append.mp hq
    · exact hsorted q hq
    · exact List.mem_singleton.mp hq ▸ hv.2
  · simp [hlen]

def sortKey (x : Keyed) : Bytes ×ₗ Bytes := toLex (x.key.val, x.entry.name)

lemma zeroPad_eq {n : ℕ} {b : Bytes} (h : b.length ≤ n) :
    (zeroPad n b).val = b ++ List.replicate (n - b.length) 0 := by
  change (b ++ List.replicate n 0).take n = _
  rw [List.take_append, List.take_of_length_le h, List.take_replicate, min_eq_left (Nat.sub_le _ _)]

lemma sortKey_stored_le (hk : k ≤ 24) {x y : Keyed} (h : Le k x y) :
    sortKey (stored k x) ≤ sortKey (stored k y) := by
  have hx := take_key_length hk x.key
  have hy := take_key_length hk y.key
  rw [Le, order, Ordering.isLE_then_iff_and] at h
  rw [sortKey, sortKey, Prod.Lex.toLex_le_toLex]
  simp only [stored, zeroPad_eq (hx.le.trans hk), zeroPad_eq (hy.le.trans hk)]
  obtain ⟨hle, hlt | hname⟩ := h
  · exact .inl (append_lt_append (compare_lt_iff.mp hlt) (hx.trans hy.symm) _ _)
  · obtain hlt | heq := lt_or_eq_of_le (compare_isLE_iff.mp hle)
    · exact .inl (append_lt_append hlt (hx.trans hy.symm) _ _)
    · exact .inr ⟨by rw [heq], compare_isLE_iff.mp hname⟩

lemma pairwise_sortKey (hk : k ≤ 24) {v : List Keyed} (h : Sorted k v) :
    ((v.map (stored k)).map sortKey).Pairwise (· ≤ ·) := by
  rw [List.map_map, List.pairwise_map]
  exact h.imp fun h => sortKey_stored_le hk h

lemma spillSort_returns (sort : SortUnstable) (t : Thresholds) (disk : Disk) (lane : ℕ) (hk : k ≤ 24)
    {entries : List Keyed} (hfits : ∀ e ∈ entries, Fits e) :
    Returns (spillSort sort t disk lane k entries) fun s =>
      (∃ out, out.Perm entries ∧ Sorted k out ∧ s.items = (out.map (stored k)).map .ok) ∧
      s.runs.length = (entries.length + t.runEntries - 1) / t.runEntries ∧
      s.cascaded.runs.length ≤ t.mergeFanIn ∧ s.cascaded.passes = passesFor s.runs.length t.mergeFanIn := by
  have hrun : 0 < t.runEntries := Nat.pos_of_ne_zero t.runEntries_pos
  have hflat := chunks_flatten hrun entries
  have hfits' : ∀ g ∈ chunks t.runEntries entries, ∀ x ∈ g, Fits x := by
    intro g hg x hx
    apply hfits
    rw [← hflat]
    exact List.mem_flatten_of_mem hg hx
  rw [spillSort]
  apply (writeRuns_returns sort t hk disk lane hfits').bind
  intro s hs
  obtain ⟨spans, disk'⟩ := s
  obtain ⟨runs, hholds, hperm, hsorted, hlen⟩ := hs
  rw [hflat] at hperm
  have hmem : ∀ {l : List (List Keyed)}, l.flatten.Perm entries → ∀ r ∈ l, ∀ x ∈ r, Fits x := by
    intro l hl r hr x hx
    exact hfits x (hl.mem_iff.mp (List.mem_flatten_of_mem hr hx))
  apply (cascade_returns t hk (hmem hperm) hsorted hholds).bind
  intro c hc
  obtain ⟨hc, hfan⟩ := hc
  obtain ⟨outs, hholds', hperm', hsorted'⟩ := hc.holds
  have hall := hperm'.trans hperm
  have hpasses := hc.passes
  rw [passesFor_of_le hfan, Nat.add_zero] at hpasses
  apply (MergeReader.new_returns t hk lane (hmem hall) hholds').bind
  intro r hr
  apply (MergeReader.collect_returns hk t.mergeBuffer_pos (hmem hall) hr.1 hr.2).bind
  intro items hi
  obtain ⟨out, hout, rfl⟩ := hi
  refine .pure ⟨⟨out, hout.perm.trans hall, hout.sorted (Le.trans k) hsorted', ?_⟩, ?_, hfan, hpasses⟩
  · rw [List.map_map]
    rfl
  · rw [hlen, chunks_length hrun]

theorem spillSort_eq_sort (sort : SortUnstable) (t : Thresholds) (disk : Disk) (lane k : ℕ)
    (hk : k = 0 ∨ k = 8 ∨ k = 24) (entries : List Keyed) (hnames : ∀ e ∈ entries, e.entry.name.length ≤ 65535) :
    ∃ (s : Spilled) (out v : List Keyed), spillSort sort t disk lane k entries = pure s ∧ s.items = out.map .ok ∧
      out.Perm (entries.map (stored k)) ∧ (out.map sortKey).Pairwise (· ≤ ·) ∧
      sortKeyed sort k entries = pure v ∧ out.map sortKey = (v.map (stored k)).map sortKey ∧
      s.runs.length = (entries.length + t.runEntries - 1) / t.runEntries ∧
      s.cascaded.runs.length ≤ t.mergeFanIn ∧ s.cascaded.passes = passesFor s.runs.length t.mergeFanIn := by
  have hk' : k ≤ 24 := by omega
  obtain ⟨s, hs, ⟨out, hperm, hsorted, hitems⟩, hruns, hfan, hpasses⟩ :=
    spillSort_returns sort t disk lane hk' hnames
  obtain ⟨v, hv, hvperm, hvsorted⟩ := sortKeyed_returns sort hk' entries
  have hle := pairwise_sortKey hk' hsorted
  refine ⟨s, out.map (stored k), v, hs, hitems, hperm.map _, hle, hv, ?_, hruns, hfan, hpasses⟩
  apply List.Perm.eq_of_pairwise (fun a b _ _ => le_antisymm) hle (pairwise_sortKey hk' hvsorted)
  exact ((hperm.trans hvperm.symm).map _).map _

def mergeSorted : SortUnstable where
  run cmp xs := xs.mergeSort fun a b => (cmp a b).isLE
  perm cmp _ xs := List.mergeSort_perm xs _
  sorted cmp _ xs := by
    apply List.pairwise_mergeSort
    · intro a b c hab hbc
      exact Std.TransCmp.isLE_trans hab hbc
    · intro a b
      have hswap : cmp b a = (cmp a b).swap := Std.OrientedCmp.eq_swap
      rw [hswap]
      cases cmp a b <;> rfl

def threeEntries : List Keyed :=
  [⟨zeroPad 24 [2], ⟨[98], .dir, some 7⟩⟩, ⟨zeroPad 24 [1], ⟨[99], .file, none⟩⟩,
    ⟨zeroPad 24 [2], ⟨[97], .symlink, none⟩⟩]

theorem spillSort_eq_sort_three : ∃ (s : Spilled) (out v : List Keyed),
    spillSort mergeSorted tiny (fun _ => []) 0 8 threeEntries = pure s ∧ s.items = out.map .ok ∧
      out.Perm (threeEntries.map (stored 8)) ∧ (out.map sortKey).Pairwise (· ≤ ·) ∧
      sortKeyed mergeSorted 8 threeEntries = pure v ∧ out.map sortKey = (v.map (stored 8)).map sortKey ∧
      s.runs.length = (threeEntries.length + tiny.runEntries - 1) / tiny.runEntries ∧
      s.cascaded.runs.length ≤ tiny.mergeFanIn ∧ s.cascaded.passes = passesFor s.runs.length tiny.mergeFanIn :=
  spillSort_eq_sort mergeSorted tiny (fun _ => []) 0 8 (by omega) threeEntries (by decide)

end Flux.Spill
