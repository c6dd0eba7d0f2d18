import Flux.Base.Chunks
import Flux.Spill.Merger
import Flux.Spill.Sort

/-! Merging many runs: passes over groups of them until a last merge can read what is left. -/

namespace Flux.Spill

open Base

def drainStep (s : Merger × RunWriter × Disk) :
    Attempt FsError ((Merger × RunWriter × Disk) ⊕ (RunWriter × Disk)) := do
  let (item, m) ← s.1.nextEntry s.2.2
  match item with
  | none => pure (.inr s.2)
  | some item =>
    let (w, disk) ← s.2.1.push s.2.2 item
    pure (.inl (m, w, disk))

def mergeGroup (disk : Disk) (source sink k mergeBuffer : ℕ) (group : List RunSpan) :
    Attempt FsError (RunSpan × Disk) := do
  let m ← Merger.new disk source k mergeBuffer group
  let (w, disk) ← loop drainStep (m, RunWriter.new disk sink k mergeBuffer, disk)
  pure (w.finish disk)

def passStep (source sink k mergeBuffer : ℕ) (s : List RunSpan × Disk) (group : List RunSpan) :
    Attempt FsError (List RunSpan × Disk) :=
  match group with
  | [only] => pure (s.1 ++ [only], s.2)
  | group => do
    let (span, disk) ← mergeGroup s.2 source sink k mergeBuffer group
    pure (s.1 ++ [span], disk)

def cascadePass (disk : Disk) (source sink k mergeBuffer : ℕ) (runs : List RunSpan) (fanIn : ℕ) :
    Attempt FsError (List RunSpan × Disk) :=
  (chunks fanIn runs).foldlM (passStep source sink k mergeBuffer) ([], disk)

def passesFor (n fanIn : ℕ) : ℕ :=
  if 2 ≤ fanIn ∧ fanIn < n then passesFor ((n + fanIn - 1) / fanIn) fanIn + 1 else 0
termination_by n
decreasing_by
  rename_i h
  apply Nat.div_lt_of_lt_mul
  have := Nat.mul_le_mul_right n h.1
  omega

structure Cascaded where
  runs : List RunSpan
  passes : ℕ
  disk : Disk

def cascade (t : Thresholds) (disk : Disk) (lane k : ℕ) (runs : List RunSpan) : Attempt FsError Cascaded :=
  loop (fun s => if t.mergeFanIn < s.runs.length then do
      let (runs, disk) ← cascadePass s.disk lane lane k t.mergeBuffer s.runs t.mergeFanIn
      pure (.inl ⟨runs, s.passes + 1, disk⟩)
    else pure (.inr s)) ⟨runs, 0, disk⟩

structure MergeReader where
  merger : Merger
  done : Bool

namespace MergeReader

def new (t : Thresholds) (disk : Disk) (lane k : ℕ) (runs : List RunSpan) : Attempt FsError MergeReader := do
  let merger ← Merger.new disk lane k t.mergeBuffer runs
  pure ⟨merger, false⟩

def next (disk : Disk) (r : MergeReader) : Option (Option (Except FsError Keyed) × MergeReader) :=
  if r.done then some (none, r)
  else do
    match ← (r.merger.nextEntry disk).run with
    | .ok (some e, merger) => some (some (.ok e), { r with merger := merger })
    | .ok (none, merger) => some (none, ⟨merger, true⟩)
    | .error e => some (some (.error e), { r with done := true })

def collect (disk : Disk) (r : MergeReader) : Attempt FsError (List (Except FsError Keyed)) :=
  loop (fun (s : List (Except FsError Keyed) × MergeReader) => do
    match ← ExceptT.lift (s.2.next disk) with
    | (some item, r) => pure (.inl (s.1 ++ [item], r))
    | (none, _) => pure (.inr s.1)) ([], r)

end MergeReader

variable {k source : ℕ} {runs : List (List Keyed)} {mergeBuffer : ℕ} {spans : List RunSpan}

lemma record_stored (hk : k ≤ 24) (x : Keyed) : record k (stored k x) = record k x := by
  have htake : (zeroPad 24 (x.key.val.take k)).val.take k = x.key.val.take k := by
    rw [zeroPad, List.take_take, min_eq_left hk, List.take_append_of_le_length (by rw [take_key_length hk]),
      List.take_of_length_le (by rw [take_key_length hk])]
  simp only [record, stored, htake]

lemma fits_stored {x : Keyed} (h : Fits x) : Fits (stored k x) := h

def Le (k : ℕ) (x y : Keyed) : Prop := (order k x y).isLE = true

lemma Le.trans (k : ℕ) (x y z : Keyed) (h : Le k x y) (h' : Le k y z) : Le k x z := Std.TransCmp.isLE_trans h h'

structure Remaining (k : ℕ) (runs : List (List Keyed)) (n : ℕ) (done : List Keyed) (rest : List (List Keyed)) :
    Prop where
  merged : ∀ out, Merged (Le k) rest out → Merged (Le k) runs (done ++ out)
  fits : ∀ r ∈ rest, ∀ x ∈ r, Fits x
  left : n = rest.flatten.length

namespace Remaining

variable {k n : ℕ} {runs rest : List (List Keyed)} {done : List Keyed}

lemma start (hfits : ∀ r ∈ runs, ∀ x ∈ r, Fits x) : Remaining k runs runs.flatten.length [] runs :=
  ⟨fun _ hout => hout, hfits, rfl⟩

lemma stop (h : Remaining k runs n done rest) (hnil : ∀ r ∈ rest, r = []) : Merged (Le k) runs done := by
  simpa using h.merged [] (.done hnil)

lemma pick (h : Remaining k runs n done rest) {i : ℕ} {x : Keyed} {xs : List Keyed}
    (hi : rest[i]? = some (x :: xs)) (hle : ∀ r ∈ rest, ∀ y ∈ r.head?, Le k x y) :
    ∃ n', n' < n ∧ Remaining k runs n' (done ++ [x]) (rest.set i xs) := by
  have hrun := List.mem_of_getElem? hi
  refine ⟨(rest.set i xs).flatten.length, ?_, ?_, ?_, rfl⟩
  · rw [h.left, (flatten_set_perm hi).length_eq, List.length_cons]
    exact Nat.lt_succ_self _
  · intro out hout
    simpa using h.merged (x :: out) (.pick hi hle hout)
  · intro r hr y hy
    obtain hr | rfl := List.mem_or_eq_of_mem_set hr
    · exact h.fits r hr y hy
    · exact h.fits _ hrun y (List.mem_cons_of_mem _ hy)

end Remaining

structure Draining (k source sink chunk : ℕ) (before : Disk) (runs : List (List Keyed)) (n : ℕ)
    (s : Merger × RunWriter × Disk) (done : List Keyed) (rest : List (List Keyed)) : Prop extends
    Remaining k runs n done rest where
  merging : Merging k source chunk (before source) s.1 rest
  writing : Writing k sink before done.length (image k done) s.2.1 s.2.2

variable {chunk n : ℕ} {disk : Disk}

lemma Draining.step {sink : ℕ} (hk : k ≤ 24) (hchunk : 0 < chunk) {before : Disk} {s : Merger × RunWriter × Disk}
    {done : List Keyed} {rest : List (List Keyed)} (h : Draining k source sink chunk before runs n s done rest) :
    Returns (drainStep s) fun
      | .inl s' => ∃ n', n' < n ∧ ∃ done rest, Draining k source sink chunk before runs n' s' done rest
      | .inr s' => ∃ out, Merged (Le k) runs out ∧ Writing k sink before out.length (image k out) s'.1 s'.2 := by
  rw [drainStep]
  apply (h.merging.nextEntry_returns hk hchunk (h.writing.grown.le source) h.fits).bind
  intro r hr
  obtain ⟨item, m⟩ := r
  obtain ⟨rfl, hnil⟩ | ⟨i, x, xs, hi, hle, rfl, hm⟩ := hr
  · exact .pure ⟨done, h.stop hnil, h.writing⟩
  · have hx : Fits x := h.fits _ (List.mem_of_getElem? hi) x List.mem_cons_self
    apply (h.writing.push (fits_stored hx)).bind
    intro t ht
    obtain ⟨w, disk⟩ := t
    obtain ⟨n', hlt, hrest⟩ := h.pick hi hle
    rw [record_stored hk] at ht
    refine .pure ⟨n', hlt, done ++ [x], rest.set i xs, ⟨hrest, hm, ?_⟩⟩
    simpa [image] using ht

lemma Draining.run {sink : ℕ} (hk : k ≤ 24) (hchunk : 0 < chunk) {before : Disk} {s : Merger × RunWriter × Disk}
    {done : List Keyed} {rest : List (List Keyed)} (h : Draining k source sink chunk before runs n s done rest) :
    Returns (loop drainStep s) fun s' =>
      ∃ out, Merged (Le k) runs out ∧ Writing k sink before out.length (image k out) s'.1 s'.2 := by
  apply Returns.loop (fun n s => ∃ done rest, Draining k source sink chunk before runs n s done rest) _ ⟨_, _, h⟩
  intro n s hs
  obtain ⟨done, rest, hs⟩ := hs
  apply (hs.step hk hchunk).imp
  intro r hr
  cases r with
  | inl s' => exact hr
  | inr s' => exact hr

theorem mergeGroup_returns {sink : ℕ} (hk : k ≤ 24) (hbuf : 0 < mergeBuffer) {group : List RunSpan}
    (hfits : ∀ r ∈ runs, ∀ x ∈ r, Fits x) (h : List.Forall₂ (Holds k (disk source)) group runs) :
    Returns (mergeGroup disk source sink k mergeBuffer group) fun s =>
      ∃ out, Merged (Le k) runs out ∧ Holds k (s.2 sink) s.1 out ∧ Grown sink disk s.2 := by
  rw [mergeGroup]
  apply (Merger.new_returns hk hbuf source hfits h).bind
  intro m hm
  have hstart : Draining k source sink mergeBuffer disk runs runs.flatten.length
      (m, RunWriter.new disk sink k mergeBuffer, disk) [] runs :=
    ⟨.start hfits, hm, .new disk sink k mergeBuffer⟩
  apply (hstart.run hk hbuf).bind
  intro s hs
  obtain ⟨out, hout, hw⟩ := hs
  exact .pure ⟨out, hout, hw.finish⟩

def GroupSorted (k : ℕ) (out : List Keyed) (group : List (List Keyed)) : Prop :=
  out.Perm group.flatten ∧ Sorted k out

lemma passStep_returns {sink : ℕ} (hk : k ≤ 24) (hbuf : 0 < mergeBuffer) {group acc : List RunSpan}
    (hfits : ∀ r ∈ runs, ∀ x ∈ r, Fits x) (hsorted : ∀ r ∈ runs, Sorted k r)
    (hlone : source = sink ∨ group.length ≠ 1) (h : List.Forall₂ (Holds k (disk source)) group runs) :
    Returns (passStep source sink k mergeBuffer (acc, disk) group) fun s =>
      ∃ span out, s.1 = acc ++ [span] ∧ Holds k (s.2 sink) span out ∧ GroupSorted k out runs ∧
      Grown sink disk s.2 := by
  have hmerge : Returns (do
      let (span, disk) ← mergeGroup disk source sink k mergeBuffer group
      pure (acc ++ [span], disk)) fun s =>
      ∃ span out, s.1 = acc ++ [span] ∧ Holds k (s.2 sink) span out ∧ GroupSorted k out runs ∧
        Grown sink disk s.2 := by
    apply (mergeGroup_returns hk hbuf hfits h).bind
    intro s hs
    obtain ⟨out, hout, hholds, hgrown⟩ := hs
    exact .pure ⟨s.1, out, rfl, hholds, ⟨hout.perm, hout.sorted (Le.trans k) hsorted⟩, hgrown⟩
  unfold passStep
  split
  · rename_i only
    obtain rfl : source = sink := hlone.resolve_right (by simp)
    obtain ⟨run, rs, hrun, hrs, rfl⟩ := List.forall₂_cons_left_iff.mp h
    obtain rfl := List.forall₂_nil_left_iff.mp hrs
    refine .pure ⟨only, run, rfl, hrun, ⟨by simp, hsorted run (by simp)⟩, .refl _ _⟩
  · exact hmerge

lemma forall₂_mono {file file' : Bytes} (h : List.Forall₂ (Holds k file) spans runs) (hf : file <+: file') :
    List.Forall₂ (Holds k file') spans runs :=
  h.imp fun _ _ hs => hs.mono hf

lemma foldlM_passStep_returns {sink : ℕ} (hk : k ≤ 24) (hbuf : 0 < mergeBuffer) {groups : List (List RunSpan)}
    {items : List (List (List Keyed))} (h : List.Forall₂ (List.Forall₂ (Holds k (disk source))) groups items)
    (hfits : ∀ g ∈ items, ∀ r ∈ g, ∀ x ∈ r, Fits x) (hsorted : ∀ g ∈ items, ∀ r ∈ g, Sorted k r)
    (hlone : source = sink ∨ ∀ g ∈ groups, g.length ≠ 1) {acc : List RunSpan} {accItems : List (List Keyed)}
    (hacc : List.Forall₂ (Holds k (disk sink)) acc accItems) :
    Returns (groups.foldlM (passStep source sink k mergeBuffer) (acc, disk)) fun s =>
      ∃ outs, List.Forall₂ (Holds k (s.2 sink)) s.1 (accItems ++ outs) ∧ List.Forall₂ (GroupSorted k) outs items ∧
        Grown sink disk s.2 := by
  induction groups generalizing items disk acc accItems with
  | nil =>
    obtain rfl := List.forall₂_nil_left_iff.mp h
    exact .pure ⟨[], by simpa using hacc, .nil, .refl _ _⟩
  | cons group groups ih =>
    obtain ⟨g, gs, hg, hgs, rfl⟩ := List.forall₂_cons_left_iff.mp h
    rw [List.foldlM_cons]
    apply (passStep_returns hk hbuf (hfits g List.mem_cons_self) (hsorted g List.mem_cons_self)
      (hlone.imp id fun hl => hl group List.mem_cons_self) hg).bind
    intro s hs
    obtain ⟨spans, disk'⟩ := s
    obtain ⟨span, out, rfl, hspan, hout, hgrown⟩ := hs
    have hacc' : List.Forall₂ (Holds k (disk' sink)) (acc ++ [span]) (accItems ++ [out]) :=
      List.rel_append (forall₂_mono hacc (hgrown.le sink)) (.cons hspan .nil)
    have hrest : List.Forall₂ (List.Forall₂ (Holds k (disk' source))) groups gs :=
      hgs.imp fun _ _ hs => forall₂_mono hs (hgrown.le source)
    apply (ih hrest (fun g hg => hfits g (List.mem_cons_of_mem _ hg)) (fun g hg =>
      hsorted g (List.mem_cons_of_mem _ hg))
      (hlone.imp id fun hl g hg => hl g (List.mem_cons_of_mem _ hg)) hacc').imp
    intro s hs
    obtain ⟨outs, hholds, houts, hgrown'⟩ := hs
    exact ⟨out :: outs, by simpa using hholds, .cons hout houts, hgrown.trans hgrown'⟩

lemma groupSorted_all {outs : List (List Keyed)} {items : List (List (List Keyed))}
    (h : List.Forall₂ (GroupSorted k) outs items) :
    outs.flatten.Perm items.flatten.flatten ∧ ∀ r ∈ outs, Sorted k r := by
  induction h with
  | nil => exact ⟨.refl _, by simp⟩
  | cons hout _ ih =>
    rw [List.flatten_cons, List.flatten_cons, List.flatten_append, List.forall_mem_cons]
    exact ⟨hout.1.append ih.1, hout.2, ih.2⟩

theorem cascadePass_returns {sink fanIn : ℕ} (hk : k ≤ 24) (hbuf : 0 < mergeBuffer) (hfan : 0 < fanIn)
    (hfits : ∀ r ∈ runs, ∀ x ∈ r, Fits x) (hsorted : ∀ r ∈ runs, Sorted k r)
    (hlone : source = sink ∨ ∀ g ∈ chunks fanIn spans, g.length ≠ 1)
    (h : List.Forall₂ (Holds k (disk source)) spans runs) :
    Returns (cascadePass disk source sink k mergeBuffer spans fanIn) fun s =>
      ∃ outs, List.Forall₂ (Holds k (s.2 sink)) s.1 outs ∧ outs.flatten.Perm runs.flatten ∧
        (∀ r ∈ outs, Sorted k r) ∧ s.1.length = (spans.length + fanIn - 1) / fanIn ∧ Grown sink disk s.2 := by
  have hmem : ∀ g ∈ chunks fanIn runs, ∀ r ∈ g, r ∈ runs := by
    intro g hg r hr
    rw [← chunks_flatten hfan runs]
    exact List.mem_flatten_of_mem hg hr
  apply (foldlM_passStep_returns hk hbuf (chunks_forall₂ hfan h) (fun g hg r hr => hfits r (hmem g hg r hr))
    (fun g hg r hr => hsorted r (hmem g hg r hr)) hlone .nil).imp
  intro s hs
  obtain ⟨outs, hholds, houts, hgrown⟩ := hs
  rw [List.nil_append] at hholds
  obtain ⟨hperm, hall⟩ := groupSorted_all houts
  rw [chunks_flatten hfan] at hperm
  refine ⟨outs, hholds, hperm, hall, ?_, hgrown⟩
  rw [hholds.length_eq, houts.length_eq, chunks_length hfan, ← h.length_eq]

lemma passesFor_of_lt {fanIn : ℕ} (hfan : 2 ≤ fanIn) (h : fanIn < n) :
    passesFor n fanIn = passesFor ((n + fanIn - 1) / fanIn) fanIn + 1 := by
  rw [passesFor, if_pos ⟨hfan, h⟩]

lemma passesFor_of_le {fanIn : ℕ} (h : n ≤ fanIn) : passesFor n fanIn = 0 := by
  rw [passesFor, if_neg (by omega)]

structure Cascading (k lane passes : ℕ) (t : Thresholds) (before : Disk) (runs : List (List Keyed))
    (s : Cascaded) : Prop where
  holds : ∃ outs, List.Forall₂ (Holds k (s.disk lane)) s.runs outs ∧ outs.flatten.Perm runs.flatten ∧
    ∀ r ∈ outs, Sorted k r
  passes : s.passes + passesFor s.runs.length t.mergeFanIn = passes
  grown : Grown lane before s.disk

theorem cascade_returns (t : Thresholds) {lane : ℕ} (hk : k ≤ 24) (hfits : ∀ r ∈ runs, ∀ x ∈ r, Fits x)
    (hsorted : ∀ r ∈ runs, Sorted k r) (h : List.Forall₂ (Holds k (disk lane)) spans runs) :
    Returns (cascade t disk lane k spans) fun s =>
      Cascading k lane (passesFor spans.length t.mergeFanIn) t disk runs s ∧ s.runs.length ≤ t.mergeFanIn := by
  have hfan := t.two_le_fanIn
  have hbuf := t.mergeBuffer_pos
  have hstart : Cascading k lane (passesFor spans.length t.mergeFanIn) t disk runs ⟨spans, 0, disk⟩ :=
    ⟨⟨runs, h, .refl _, hsorted⟩, Nat.zero_add _, .refl _ _⟩
  apply Returns.loop (fun n s => Cascading k lane (passesFor spans.length t.mergeFanIn) t disk runs s ∧
    n = s.runs.length) _ ⟨hstart, rfl⟩
  intro n s hs
  obtain ⟨hs, rfl⟩ := hs
  obtain ⟨outs, hholds, hperm, hall⟩ := hs.holds
  split
  · rename_i hlt
    have hfits' : ∀ r ∈ outs, ∀ x ∈ r, Fits x := by
      intro r hr x hx
      obtain ⟨r', hr', hx'⟩ := List.mem_flatten.mp (hperm.mem_iff.mp (List.mem_flatten_of_mem hr hx))
      exact hfits r' hr' x hx'
    apply (cascadePass_returns hk hbuf (by omega) hfits' hall (.inl rfl) hholds).bind
    intro r hr
    obtain ⟨outs', hholds', hperm', hall', hlen, hgrown⟩ := hr
    refine .pure ⟨r.1.length, ?_, ⟨⟨outs', hholds', hperm'.trans hperm, hall'⟩, ?_, hs.grown.trans hgrown⟩, rfl⟩
    · rw [hlen]
      apply Nat.div_lt_of_lt_mul
      have := Nat.mul_le_mul_right s.runs.length hfan
      omega
    · rw [← hs.passes, passesFor_of_lt hfan hlt, hlen]
      dsimp only
      omega
  · rename_i hle
    exact .pure ⟨hs, by omega⟩

lemma MergeReader.new_returns (t : Thresholds) (hk : k ≤ 24) (lane : ℕ) (hfits : ∀ r ∈ runs, ∀ x ∈ r, Fits x)
    (h : List.Forall₂ (Holds k (disk lane)) spans runs) : Returns (MergeReader.new t disk lane k spans) fun r =>
      r.done = false ∧ Merging k lane t.mergeBuffer (disk lane) r.merger runs := by
  rw [MergeReader.new]
  apply (Merger.new_returns hk t.mergeBuffer_pos lane hfits h).bind
  intro m hm
  exact .pure ⟨rfl, hm⟩

lemma MergeReader.next_returns {lane : ℕ} (hk : k ≤ 24) (hchunk : 0 < chunk) {file : Bytes}
    (hf : file <+: disk lane) {r : MergeReader} (hfits : ∀ r ∈ runs, ∀ x ∈ r, Fits x) (hr : r.done = false)
    (h : Merging k lane chunk file r.merger runs) :
    ∃ s, r.next disk = some s ∧ ((s.1 = none ∧ s.2.done = true ∧ ∀ r ∈ runs, r = []) ∨
      ∃ i x rest, runs[i]? = some (x :: rest) ∧ (∀ r ∈ runs, ∀ y ∈ r.head?, Le k x y) ∧
        s.1 = some (.ok (stored k x)) ∧ s.2.done = false ∧
        Merging k lane chunk file s.2.merger (runs.set i rest)) := by
  obtain ⟨⟨item, m⟩, hnext, hs⟩ := h.nextEntry_returns hk hchunk hf hfits
  rw [MergeReader.next, hr, hnext]
  obtain ⟨rfl, hnil⟩ | ⟨i, x, rest, hi, hle, rfl, hm⟩ := hs
  · exact ⟨_, rfl, .inl ⟨rfl, rfl, hnil⟩⟩
  · exact ⟨_, rfl, .inr ⟨i, x, rest, hi, hle, rfl, rfl, hm⟩⟩

theorem MergeReader.collect_returns {lane : ℕ} (hk : k ≤ 24) (hchunk : 0 < chunk) {r : MergeReader}
    (hfits : ∀ r ∈ runs, ∀ x ∈ r, Fits x) (hr : r.done = false)
    (h : Merging k lane chunk (disk lane) r.merger runs) :
    Returns (r.collect disk) fun items => ∃ out, Merged (Le k) runs out ∧ items = out.map fun x =>
    .ok (stored k x) := by
  apply Returns.loop (fun n (s : List (Except FsError Keyed) × MergeReader) => ∃ done rest,
    Remaining k runs n done rest ∧ s.1 = done.map (fun x => .ok (stored k x)) ∧ s.2.done = false ∧
    Merging k lane chunk (disk lane) s.2.merger rest) _ ⟨[], runs, .start hfits, rfl, hr, h⟩
  intro n s hs
  obtain ⟨items, r⟩ := s
  obtain ⟨done, rest, hrest, rfl, hd, hm⟩ := hs
  obtain ⟨⟨item, r'⟩, hnext, hs⟩ := MergeReader.next_returns hk hchunk List.prefix_rfl hrest.fits hd hm
  rw [hnext]
  obtain ⟨rfl, -, hnil⟩ | ⟨i, x, xs, hi, hle, rfl, hd', hm'⟩ := hs
  · exact .pure ⟨done, hrest.stop hnil, rfl⟩
  · obtain ⟨n', hlt, hrest'⟩ := hrest.pick hi hle
    exact .pure ⟨n', hlt, done ++ [x], rest.set i xs, hrest', by simp, hd', hm'⟩

end Flux.Spill
