import Flux.Checkpoint.Pipeline

/-! Inline hashing and the worker log the same records. -/

namespace Flux.Checkpoint

open Base Wal Copy

variable {Dup : Type} {blake3 : Bytes → Digest} {f : Feed Dup} {carry : Bytes} {s s' : Pipeline Dup}

lemma Feed.Reaches.later (h : f.Reaches blake3 carry s) (h' : f.Later blake3 s s') :
    f.Reaches blake3 carry s' := by
  induction h' with
  | now => exact h
  | step _ step ih => exact ih.step step

lemma Feed.Later.main (h : f.Later blake3 s s') {s'' : Pipeline Dup} (step : MainStep blake3 f.fileId s' s'') :
    f.Later blake3 s s'' := h.step (.main step)

lemma Feed.Later.worker (h : f.Later blake3 s s') {s'' : Pipeline Dup}
    (step : WorkerStep blake3 f.fileId f.perRange s' s'') : f.Later blake3 s s'' := h.step (.worker step)

structure Pipeline.Ready (s : Pipeline Dup) : Prop where
  worker : ∃ h, s.worker = .top h
  caller : ∃ buf, s.caller = some buf
  jobs : s.jobs = []
  free : ∃ buf rest, s.free = buf :: rest
  result : s.result = none
  receives : s.receives = true
  cancel : s.cancel = false
  faulted : s.faulted = none
  walFault : s.walFault = none

lemma Feed.Later.loops {h : Hashes} {done : List (ℕ × Digest)} (hl : f.Later blake3 s s')
    (hw : s'.worker = .looping h done) (hf : s'.walFault = none) (hc : s'.cancel = false) :
    ∃ h' sent, f.Later blake3 s { s' with worker := .top h', sent := sent } := by
  induction done generalizing s' h with
  | nil => exact ⟨h, s'.sent, hl.worker (.nextJob hw)⟩
  | cons p done ih =>
    obtain ⟨index, digest⟩ := p
    by_cases hfull : f.perRange ≤ (h.digests ++ [digest]).length
    · obtain ⟨r, hr⟩ : ∃ r, (h.push f.fileId f.perRange index digest).2 = [r] := by
        rw [Hashes.push, if_pos hfull]
        exact ⟨_, rfl⟩
      have hsent := ((hl.worker (.filled hw hr)).worker (.sendNotCancelled rfl hc)).worker (.sent rfl)
      obtain ⟨h', sent, hrest⟩ := ih (hsent.worker (.logFine rfl hf)) rfl hf hc
      exact ⟨h', sent, hrest⟩
    · have hr : (h.push f.fileId f.perRange index digest).2 = [] := by
        rw [Hashes.push, if_neg hfull]
      obtain ⟨h', sent, hrest⟩ := ih ((hl.worker (.gathered hw hr)).worker (.logFine rfl hf)) rfl hf hc
      exact ⟨h', sent, hrest⟩

lemma Feed.Later.submits {data : Bytes} (hl : f.Later blake3 s' s) (hr : s.Ready) (hm : s.main = .checking data) :
    ∃ s'', f.Later blake3 s' s'' ∧ s''.Ready ∧ s''.main = .holding ∧ s''.submitted = s.submitted ++ [data] := by
  obtain ⟨⟨h, hworker⟩, ⟨buf, hcaller⟩, hjobs, ⟨buf', rest, hfree⟩, hresult, hreceives, hcancel,
    hfaulted, hwal⟩ := hr
  have hqueued : f.Later blake3 s' { s with
      main := .waitingFree
      caller := none
      jobs := s.jobs ++ [⟨buf, data⟩]
      submitted := s.submitted ++ [data] } := by
    refine ((hl.main (.logFine hm hwal)).main (.workerFine rfl hfaulted)).main (.queued rfl hcaller hreceives ?_)
    simp [hjobs, pool]
  have hreceived := (hqueued.worker (.notCancelled hworker hcancel)).worker
    (.received rfl (congrArg (· ++ [⟨buf, data⟩]) hjobs))
  have hlooping := (hreceived.worker (.hashed rfl)).worker (.returned rfl)
  obtain ⟨h', sent, hlooped⟩ := hlooping.loops rfl hwal hcancel
  have hfreed := hlooped.main (.freed rfl (congrArg (· ++ [buf]) hfree))
  exact ⟨_, hfreed, ⟨⟨h', rfl⟩, ⟨buf', rfl⟩, rfl, by cases rest <;> simp, hresult, hreceives, hcancel,
    hfaulted, hwal⟩, rfl, rfl⟩

lemma Feed.Later.completes (hl : f.Later blake3 s' s) (hr : s.Ready) (hm : s.main = .holding) :
    ∃ s'', f.Later blake3 s' s'' ∧ s''.main = .closed ∧ s''.submitted = s.submitted := by
  obtain ⟨⟨h, hworker⟩, -, hjobs, -, -, -, hcancel, -, -⟩ := hr
  have hdrained := ((hl.main (.complete hm)).worker (.notCancelled hworker hcancel)).worker
    (.drained rfl hjobs rfl)
  have hdropped := ((hdrained.worker (.reported rfl)).worker (.jobsDropped rfl)).worker (.freeDropped rfl)
  have hleft := (hdropped.worker (.resultDropped rfl)).worker (.left rfl rfl rfl rfl)
  have hreaped := (hleft.main (.finished rfl rfl)).main (.reapedEnd rfl rfl)
  exact ⟨_, (hreaped.main (.lastSent rfl)).main (.closeSent rfl), rfl, rfl⟩

lemma Feed.Later.submitsAll (buffers : List Bytes) (hl : f.Later blake3 s' s) (hr : s.Ready)
    (hm : s.main = .holding) :
    ∃ s'', f.Later blake3 s' s'' ∧ s''.main = .closed ∧ s''.submitted = s.submitted ++ buffers := by
  induction buffers generalizing s with
  | nil =>
    rw [List.append_nil]
    exact hl.completes hr hm
  | cons data buffers ih =>
    obtain ⟨h1, h2, h3, h4, h5, h6, h7, h8, h9⟩ := hr
    obtain ⟨s₁, hl₁, hr₁, hm₁, hsubmitted⟩ :=
      (hl.main (.submit data hm)).submits ⟨h1, h2, h3, h4, h5, h6, h7, h8, h9⟩ rfl
    rw [← List.singleton_append, ← List.append_assoc, ← hsubmitted]
    exact ih hl₁ hr₁ hm₁

lemma Feed.reaches_closed (blake3 : Bytes → Digest) (f : Feed Dup) (carry first : Bytes) (buffers : List Bytes) :
    ∃ s, f.Reaches blake3 carry s ∧ s.main = .closed ∧ s.submitted = first :: buffers := by
  have hready : (f.spawned blake3 carry first).Ready :=
    ⟨⟨_, rfl⟩, ⟨_, rfl⟩, rfl, ⟨_, _, rfl⟩, rfl, rfl, rfl, rfl, rfl⟩
  have hnow : f.Later blake3 (f.spawned blake3 carry first) (f.spawned blake3 carry first) := .now
  obtain ⟨s₁, hl₁, hr₁, hm₁, hsubmitted₁⟩ := hnow.submits hready rfl
  obtain ⟨s₂, hl₂, hm₂, hsubmitted₂⟩ := hl₁.submitsAll buffers hr₁ hm₁
  refine ⟨s₂, (Reaches.spawned first).later hl₂, hm₂, ?_⟩
  rw [hsubmitted₂, hsubmitted₁]
  rfl

def Feed.with (f : Feed Dup) (buffers : List Bytes) : Feed Dup := { f with buffers := buffers }

lemma Feed.Reaches.sent (h : f.Reaches blake3 carry s) (hm : s.main = .closed) :
    s.sent = (f.with (carry :: s.submitted)).sent blake3 [] := by
  rw [Feed.sent_inline, (h.invariant.tracks.closed hm).2]
  simp only [Feed.with, Hashes.feedAll, List.map_append, List.append_assoc]
  rfl

lemma Feed.sent_exact (blake3 : Bytes → Digest) (f : Feed Dup) (ha : f.validThrough % chunkSize = 0)
    (hb : f.validThrough + f.buffers.flatten.length < 2 ^ 64) :
    ∃ ranges, f.sent blake3 [] = f.opened ++ ranges.map .range ++ [.close f.fileId true] ∧
      ExactRanges blake3 f.perRange f.validThrough f.buffers.flatten ranges := by
  have hp : 0 < f.perRange := lt_of_lt_of_le Nat.one_pos (le_max_right _ _)
  refine ⟨_, f.sent_inline blake3, ?_⟩
  have hfed := (Fed.nothing blake3 f.fileId hp ha).feedAll hp f.buffers
  have hlast := hfed.last hp
  simp only [List.nil_append] at hlast
  rw [hlast]
  exact expected_exact f.fileId hp hb

theorem worker_logs_as_inline (blake3 : Bytes → Digest) (f : Feed Dup) (carry : Bytes)
    (ha : f.validThrough % chunkSize = 0) :
    (∀ s, f.Reaches blake3 carry s → s.main = .closed → s.sent = (f.with (carry :: s.submitted)).sent blake3 []) ∧
      (∀ first buffers, ∃ s, f.Reaches blake3 carry s ∧ s.main = .closed ∧ s.submitted = first :: buffers) ∧
      ∀ buffers : List Bytes, f.validThrough + buffers.flatten.length < 2 ^ 64 →
        ∃ ranges, (f.with buffers).sent blake3 [] = f.opened ++ ranges.map .range ++ [.close f.fileId true] ∧
          ExactRanges blake3 f.perRange f.validThrough buffers.flatten ranges := by
  refine ⟨fun s h hm => h.sent hm, f.reaches_closed blake3 carry, ?_⟩
  intro buffers hb
  exact (f.with buffers).sent_exact blake3 ha hb

theorem worker_logs_as_inline_oneByte :
    ∃ s, (oneByte 2).Reaches zeroHash [] s ∧ s.main = .closed ∧ s.submitted = [[1], [2, 3]] ∧
      s.sent = ((oneByte 2).with [[], [1], [2, 3]]).sent zeroHash [] := by
  obtain ⟨hsame, hruns, -⟩ := worker_logs_as_inline zeroHash (oneByte 2) [] rfl
  obtain ⟨s, hs, hm, hsubmitted⟩ := hruns [1] [[2, 3]]
  refine ⟨s, hs, hm, hsubmitted, ?_⟩
  rw [hsame s hs hm, hsubmitted]

theorem empty_ranges_not_kept :
    (oneByte 0).rangeChunks = 0 ∧ ∃ r, Msg.range r ∈ (oneByte 0).sent zeroHash [] ∧ r.digests.length = 1 := by
  refine ⟨rfl, ?_⟩
  obtain ⟨ranges, hsent, -, hcount, hdigest⟩ := (oneByte 0).sent_exact zeroHash rfl (by decide)
  have hfirst := hdigest 0
  rw [Nat.zero_mul, if_pos (by decide)] at hfirst
  obtain ⟨r, hr, hd⟩ := List.mem_flatMap.mp (List.mem_of_getElem? hfirst)
  refine ⟨r, ?_, le_antisymm (hcount r hr) (List.length_pos_of_mem hd)⟩
  rw [hsent]
  simp [hr]

end Flux.Checkpoint
