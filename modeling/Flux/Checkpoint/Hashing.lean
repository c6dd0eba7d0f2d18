import Flux.Base.Chunks
import Flux.Checkpoint.Sink

/-! Where a file's bytes are cut into buffers does not matter for the ranges they become. -/

namespace Flux.Checkpoint

open Base Wal Copy

attribute [local irreducible] chunkSize

structure Hashes where
  hasher : ChunkHasher
  digests : List Digest
  rangeStart : ℕ

namespace Hashes

variable (fileId : Bytes) (perRange : ℕ)

def push (h : Hashes) (index : ℕ) (digest : Digest) : Hashes × List Wal.Range :=
  if perRange ≤ (h.digests ++ [digest]).length then
    (⟨h.hasher, [], (index + 1) * chunkSize⟩,
      [rangeOf fileId h.rangeStart ((index + 1) * chunkSize) (h.digests ++ [digest])])
  else (⟨h.hasher, h.digests ++ [digest], h.rangeStart⟩, [])

def pushAll : Hashes → List (ℕ × Digest) → Hashes × List Wal.Range
  | h, [] => (h, [])
  | h, (index, digest) :: done =>
    let next := pushAll (h.push fileId perRange index digest).1 done
    (next.1, (h.push fileId perRange index digest).2 ++ next.2)

def hashed (blake3 : Bytes → Digest) (h : Hashes) (bytes : Bytes) : Hashes :=
  { h with hasher := (h.hasher.update blake3 bytes).2 }

def feed (blake3 : Bytes → Digest) (h : Hashes) (bytes : Bytes) : Hashes × List Wal.Range :=
  (h.hashed blake3 bytes).pushAll fileId perRange (h.hasher.update blake3 bytes).1

def feedAll (blake3 : Bytes → Digest) : Hashes → List Bytes → Hashes × List Wal.Range
  | h, [] => (h, [])
  | h, bytes :: rest =>
    let next := feedAll blake3 (h.feed fileId perRange blake3 bytes).1 rest
    (next.1, (h.feed fileId perRange blake3 bytes).2 ++ next.2)

def last (blake3 : Bytes → Digest) (h : Hashes) : List Wal.Range :=
  let digests := h.digests ++ (h.hasher.finish blake3).toList
  if digests = [] then [] else [rangeOf fileId h.rangeStart h.hasher.bytesSeen digests]

def start (validThrough : ℕ) : Hashes := ⟨.fromChunk (divCeil validThrough chunkSize), [], validThrough⟩

variable {fileId perRange}

lemma push_hasher (h : Hashes) (index : ℕ) (digest : Digest) :
    (h.push fileId perRange index digest).1.hasher = h.hasher := by
  rw [push]
  split <;> rfl

lemma pushAll_hasher (h : Hashes) (done : List (ℕ × Digest)) :
    (h.pushAll fileId perRange done).1.hasher = h.hasher := by
  induction done generalizing h with
  | nil => rfl
  | cons p done ih => exact (ih _).trans (push_hasher h p.1 p.2)

lemma feedAll_append (blake3 : Bytes → Digest) (h : Hashes) (xs ys : List Bytes) :
    h.feedAll fileId perRange blake3 (xs ++ ys) =
      (((h.feedAll fileId perRange blake3 xs).1.feedAll fileId perRange blake3 ys).1,
        (h.feedAll fileId perRange blake3 xs).2 ++
          ((h.feedAll fileId perRange blake3 xs).1.feedAll fileId perRange blake3 ys).2) := by
  induction xs generalizing h with
  | nil => rfl
  | cons x xs ih => simp only [List.cons_append, feedAll, ih, List.append_assoc]

end Hashes

namespace ChunkHasher

def number : ℕ → List Digest → List (ℕ × Digest)
  | _, [] => []
  | i, d :: ds => (i, d) :: number (i + 1) ds

lemma update_eq (blake3 : Bytes → Digest) (h : ChunkHasher) (bytes : Bytes) :
    (h.update blake3 bytes).1 = number h.index ((wholes chunkSize (h.pending ++ bytes)).map blake3) ∧
      (h.update blake3 bytes).2.pending = remainder chunkSize (h.pending ++ bytes) ∧
      (h.update blake3 bytes).2.index = h.index + (wholes chunkSize (h.pending ++ bytes)).length := by
  fun_induction update blake3 h bytes with
  | case1 h =>
    rw [List.append_nil, wholes_of_lt h.short, remainder_of_lt h.short]
    exact ⟨rfl, rfl, rfl⟩
  | case2 h bytes hb chunk hc ih =>
    have hsplit : h.pending ++ bytes = chunk ++ bytes.drop (h.room bytes) := by
      rw [List.append_assoc, List.take_append_drop]
    rw [hsplit]
    exact ih
  | case3 h bytes hb chunk hc done h' he ih =>
    rw [he] at ih
    have hsplit : h.pending ++ bytes = chunk ++ bytes.drop (h.room bytes) := by
      rw [List.append_assoc, List.take_append_drop]
    have hlen : chunk.length = chunkSize := by
      have hroom : h.room bytes ≤ chunkSize - h.pending.length := min_le_left _ _
      have hshort := h.short
      simp only [chunk, List.length_append, List.length_take] at hc ⊢
      omega
    rw [hsplit, wholes_append_of_length _ chunkSize_pos hlen, remainder_append_of_length _ chunkSize_pos hlen]
    obtain ⟨h1, h2, h3⟩ := ih
    refine ⟨?_, h2, ?_⟩
    · rw [List.map_cons, number]
      exact congrArg _ h1
    · rw [List.length_cons]
      have h3' : h'.index = h.index + 1 + (wholes chunkSize (bytes.drop (h.room bytes))).length := h3
      rw [h3']
      omega

end ChunkHasher

lemma flatten_length {n : ℕ} {cs : List Bytes} (h : ∀ c ∈ cs, c.length = n) :
    cs.flatten.length = cs.length * n := by
  induction cs with
  | nil => simp
  | cons c cs ih =>
    obtain ⟨hc, hcs⟩ := List.forall_mem_cons.mp h
    rw [List.flatten_cons, List.length_append, ih hcs, hc, List.length_cons, Nat.succ_mul, Nat.add_comm]

section Groups

variable (blake3 : Bytes → Digest) (fileId : Bytes)

def rangesOf : ℕ → List (List Bytes) → List Wal.Range
  | _, [] => []
  | start, group :: groups =>
    rangeOf fileId start (start + group.flatten.length) (group.map blake3) ::
      rangesOf (start + group.flatten.length) groups

def expected (perRange start : ℕ) (data : Bytes) : List Wal.Range :=
  rangesOf blake3 fileId start (chunks perRange (chunks chunkSize data))

variable {blake3 fileId}

lemma rangesOf_append (start : ℕ) (gs gs' : List (List Bytes)) :
    rangesOf blake3 fileId start (gs ++ gs') =
      rangesOf blake3 fileId start gs ++ rangesOf blake3 fileId (start + gs.flatten.flatten.length) gs' := by
  induction gs generalizing start with
  | nil => rfl
  | cons g gs ih =>
    rw [List.cons_append, rangesOf, rangesOf, ih, List.flatten_cons, List.flatten_append, List.length_append,
      List.cons_append, Nat.add_assoc]

structure Grouped (blake3 : Bytes → Digest) (fileId : Bytes) (perRange start : ℕ) (cs : List Bytes) (h : Hashes)
    (sent : List Wal.Range) : Prop where
  digests : h.digests = (remainder perRange cs).map blake3
  rangeStart : h.rangeStart = start + (wholes perRange cs).flatten.flatten.length
  sent : sent = rangesOf blake3 fileId start (wholes perRange cs)

variable {perRange start : ℕ} {cs : List Bytes} {h : Hashes} {sent : List Wal.Range}

lemma Grouped.stop (hg : Grouped blake3 fileId perRange start cs h sent) (hp : 0 < perRange) (more : List Bytes) :
    h.rangeStart + (remainder perRange cs ++ more).flatten.length = start + cs.flatten.length +
    more.flatten.length := by
  have hsplit := congrArg (fun xs => xs.flatten.length) (flatten_wholes hp cs)
  simp only [List.flatten_append, List.length_append] at hsplit
  rw [hg.rangeStart, List.flatten_append, List.length_append]
  omega

lemma Grouped.push {index : ℕ} {c : Bytes} (hg : Grouped blake3 fileId perRange start cs h sent)
    (hp : 0 < perRange) (hi : (index + 1) * chunkSize = start + cs.flatten.length + c.length) :
    Grouped blake3 fileId perRange start (cs ++ [c]) (h.push fileId perRange index (blake3 c)).1
      (sent ++ (h.push fileId perRange index (blake3 c)).2) := by
  have hshort := remainder_length hp cs
  have hlen : (h.digests ++ [blake3 c]).length = (remainder perRange cs ++ [c]).length := by
    rw [hg.digests, List.length_append, List.length_map, List.length_append]
    rfl
  have hdigests : h.digests ++ [blake3 c] = (remainder perRange cs ++ [c]).map blake3 := by
    rw [hg.digests, List.map_append]
    rfl
  have hstop := hg.stop hp [c]
  rw [List.flatten_singleton, ← hi] at hstop
  rw [Hashes.push]
  split
  · next hfull =>
    have hwhole : (remainder perRange cs ++ [c]).length = perRange := by
      rw [hlen] at hfull
      rw [List.length_append, List.length_singleton] at hfull ⊢
      omega
    have hw : wholes perRange (cs ++ [c]) = wholes perRange cs ++ [remainder perRange cs ++ [c]] := by
      have hone := wholes_append_of_length [] hp hwhole
      rw [List.append_nil, wholes_nil hp] at hone
      rw [wholes_append hp, hone]
    refine ⟨?_, ?_, ?_⟩
    · have hone := remainder_append_of_length [] hp hwhole
      rw [List.append_nil, remainder_nil hp] at hone
      rw [remainder_append hp, hone]
      rfl
    · rw [hw, List.flatten_append, List.flatten_append, List.length_append, ← Nat.add_assoc, ← hg.rangeStart,
        List.flatten_singleton, hstop]
    · rw [hw, rangesOf_append, hg.sent, ← hg.rangeStart, hdigests, rangesOf, rangesOf, hstop]
  · next hnot =>
    rw [hlen, not_le] at hnot
    have hw : wholes perRange (cs ++ [c]) = wholes perRange cs := by
      rw [wholes_append hp, wholes_of_lt hnot, List.append_nil]
    refine ⟨?_, ?_, ?_⟩
    · rw [remainder_append hp, remainder_of_lt hnot]
      exact hdigests
    · rw [hw]
      exact hg.rangeStart
    · rw [hw, List.append_nil]
      exact hg.sent

lemma Grouped.pushAll {index : ℕ} {more : List Bytes} (hg : Grouped blake3 fileId perRange start cs h sent)
    (hp : 0 < perRange) (hi : index * chunkSize = start + cs.flatten.length)
    (hc : ∀ c ∈ more, c.length = chunkSize) : Grouped blake3 fileId perRange start (cs ++ more)
      (h.pushAll fileId perRange (ChunkHasher.number index (more.map blake3))).1
      (sent ++ (h.pushAll fileId perRange (ChunkHasher.number index (more.map blake3))).2) := by
  induction more generalizing cs h sent index with
  | nil =>
    rw [List.append_nil]
    exact hg.sent ▸ ⟨hg.digests, hg.rangeStart, List.append_nil _⟩
  | cons c more ih =>
    obtain ⟨hlen, hmore⟩ := List.forall_mem_cons.mp hc
    have hnext : (index + 1) * chunkSize = start + cs.flatten.length + c.length := by
      rw [Nat.succ_mul, hi, hlen]
    have hindex : (index + 1) * chunkSize = start + (cs ++ [c]).flatten.length := by
      rw [hnext, List.flatten_append, List.length_append, List.flatten_singleton, Nat.add_assoc]
    have hpush := ih (hg.push hp hnext) hindex hmore
    rw [List.append_assoc, List.append_assoc] at hpush
    exact hpush

end Groups

structure Fed (blake3 : Bytes → Digest) (fileId : Bytes) (perRange start : ℕ) (data : Bytes) (h : Hashes)
    (sent : List Wal.Range) : Prop where
  pending : h.hasher.pending = remainder chunkSize data
  index : h.hasher.index * chunkSize = start + (wholes chunkSize data).flatten.length
  grouped : Grouped blake3 fileId perRange start (wholes chunkSize data) h sent

section Fed

variable {blake3 : Bytes → Digest} {fileId : Bytes} {perRange start : ℕ} {data : Bytes} {h : Hashes}
  {sent : List Wal.Range}

lemma Fed.nothing (blake3 : Bytes → Digest) (fileId : Bytes) (hp : 0 < perRange) (ha : start % chunkSize = 0) :
    Fed blake3 fileId perRange start [] (.start start) [] := by
  have hs : divCeil start chunkSize * chunkSize = start := by
    obtain ⟨k, rfl⟩ := dvd_iff_exists_eq_mul_left.mp (Nat.dvd_of_mod_eq_zero ha)
    have hle := divCeil_le_iff.mp (le_refl (divCeil (k * chunkSize) chunkSize))
    rw [le_antisymm (divCeil_le_iff.mpr le_rfl) (Nat.le_of_mul_le_mul_right hle chunkSize_pos)]
  refine ⟨?_, ?_, ?_⟩
  · rw [remainder_nil chunkSize_pos]
    rfl
  · rw [wholes_nil chunkSize_pos]
    exact hs
  · rw [wholes_nil chunkSize_pos]
    refine ⟨?_, ?_, ?_⟩
    · rw [remainder_nil hp]
      rfl
    · rw [wholes_nil hp]
      rfl
    · rw [wholes_nil hp]
      rfl

lemma Fed.feed (hf : Fed blake3 fileId perRange start data h sent) (hp : 0 < perRange) (bytes : Bytes) :
    Fed blake3 fileId perRange start (data ++ bytes) (h.feed fileId perRange blake3 bytes).1
      (sent ++ (h.feed fileId perRange blake3 bytes).2) := by
  obtain ⟨hdone, hpending, hindex⟩ := h.hasher.update_eq blake3 bytes
  rw [hf.pending] at hdone hpending hindex
  have hlen : ∀ c ∈ wholes chunkSize (remainder chunkSize data ++ bytes), c.length = chunkSize :=
    fun c hc => length_of_mem_wholes chunkSize_pos hc
  have hstill : Grouped blake3 fileId perRange start (wholes chunkSize data) (h.hashed blake3 bytes) sent :=
    ⟨hf.grouped.digests, hf.grouped.rangeStart, hf.grouped.sent⟩
  have hgrouped := hstill.pushAll hp hf.index hlen
  rw [← hdone, ← wholes_append chunkSize_pos] at hgrouped
  refine ⟨?_, ?_, hgrouped⟩
  · rw [Hashes.feed, Hashes.pushAll_hasher, remainder_append chunkSize_pos]
    exact hpending
  · rw [Hashes.feed, Hashes.pushAll_hasher, wholes_append chunkSize_pos, List.flatten_append, List.length_append,
      ← Nat.add_assoc, ← hf.index, flatten_length hlen, ← Nat.add_mul]
    exact congrArg (· * chunkSize) hindex

lemma Fed.feedAll (hf : Fed blake3 fileId perRange start data h sent) (hp : 0 < perRange) (buffers : List Bytes) :
    Fed blake3 fileId perRange start (data ++ buffers.flatten) (h.feedAll fileId perRange blake3 buffers).1
      (sent ++ (h.feedAll fileId perRange blake3 buffers).2) := by
  induction buffers generalizing data h sent with
  | nil =>
    rw [List.flatten_nil, List.append_nil]
    exact (List.append_nil sent).symm ▸ hf
  | cons bytes buffers ih =>
    have hrest := ih (hf.feed hp bytes)
    rw [List.append_assoc, List.append_assoc] at hrest
    exact hrest

lemma Fed.bytesSeen (hf : Fed blake3 fileId perRange start data h sent) :
    h.hasher.bytesSeen = start + data.length := by
  have hsplit := congrArg List.length (flatten_wholes chunkSize_pos data)
  rw [List.length_append] at hsplit
  rw [ChunkHasher.bytesSeen, hf.index, hf.pending]
  omega

lemma Fed.last (hf : Fed blake3 fileId perRange start data h sent) (hp : 0 < perRange) :
    sent ++ h.last fileId blake3 = expected blake3 fileId perRange start data := by
  have hrest : h.digests ++ (h.hasher.finish blake3).toList =
      (remainder perRange (wholes chunkSize data) ++
        if remainder chunkSize data = [] then [] else [remainder chunkSize data]).map blake3 := by
    rw [hf.grouped.digests, List.map_append, ChunkHasher.finish, hf.pending]
    split <;> rfl
  rw [Hashes.last, hrest, expected, chunks_eq chunkSize_pos, chunks_append hp, rangesOf_append, ← hf.grouped.sent]
  have hlast : ((if remainder chunkSize data = [] then [] else [remainder chunkSize data]) : List Bytes).flatten =
      remainder chunkSize data := by
    split
    · next hnil => rw [hnil, List.flatten_nil]
    · rw [List.flatten_singleton]
  have hlen : ((if remainder chunkSize data = [] then [] else [remainder chunkSize data]) : List Bytes).length ≤
    1 := by
    split <;> simp
  have hstop := hf.grouped.stop hp (if remainder chunkSize data = [] then [] else [remainder chunkSize data])
  generalize (if remainder chunkSize data = [] then [] else [remainder chunkSize data] : List Bytes) = tail at *
  by_cases hnil : remainder perRange (wholes chunkSize data) ++ tail = []
  · rw [hnil, chunks_nil, if_pos (by simp)]
    rfl
  · have hshort := remainder_length hp (wholes chunkSize data)
    rw [chunks_of_le hp hnil (by rw [List.length_append]; omega), if_neg (by simpa using hnil),
      hf.bytesSeen, rangesOf, rangesOf, ← hf.grouped.rangeStart, hstop, hlast]
    have hsplit := congrArg List.length (flatten_wholes chunkSize_pos data)
    rw [List.length_append] at hsplit
    rw [Nat.add_assoc, hsplit]

end Fed

def Tiles : ℕ → ℕ → List Wal.Range → Prop
  | a, b, [] => a = b
  | a, b, r :: rs => r.rangeStart.toNat = a ∧ a < r.rangeEnd.toNat ∧ Tiles r.rangeEnd.toNat b rs

structure ExactRanges (blake3 : Bytes → Digest) (perRange start : ℕ) (data : Bytes) (ranges : List Wal.Range) :
    Prop where
  tiles : Tiles start (start + data.length) ranges
  count : ∀ r ∈ ranges, r.digests.length ≤ perRange
  digest : ∀ i : ℕ, (ranges.flatMap Wal.Range.digests)[i]? =
    if i * chunkSize < data.length then some (blake3 ((data.drop (i * chunkSize)).take chunkSize)) else none

section Exact

variable {blake3 : Bytes → Digest} {fileId : Bytes} {perRange start : ℕ} {data : Bytes}

lemma rangesOf_tiles {groups : List (List Bytes)} (hne : ∀ g ∈ groups, g.flatten ≠ [])
    (hb : start + groups.flatten.flatten.length < 2 ^ 64) :
    Tiles start (start + groups.flatten.flatten.length) (rangesOf blake3 fileId start groups) := by
  induction groups generalizing start with
  | nil => rfl
  | cons g groups ih =>
    obtain ⟨hg, hgroups⟩ := List.forall_mem_cons.mp hne
    rw [List.flatten_cons, List.flatten_append, List.length_append, ← Nat.add_assoc] at hb ⊢
    have hpos := List.length_pos_iff.mpr hg
    have hlt : start < 2 ^ 64 := by omega
    have hlt' : start + g.flatten.length < 2 ^ 64 := by omega
    have hstop := UInt64.toNat_ofNat_of_lt' hlt'
    refine ⟨UInt64.toNat_ofNat_of_lt' hlt, ?_, ?_⟩
    · rw [rangeOf, hstop]
      omega
    · rw [rangeOf, hstop]
      exact ih hgroups hb

lemma rangesOf_digests (start : ℕ) (groups : List (List Bytes)) :
    (rangesOf blake3 fileId start groups).map Wal.Range.digests = groups.map (List.map blake3) := by
  induction groups generalizing start with
  | nil => rfl
  | cons g groups ih =>
    rw [rangesOf, List.map_cons, List.map_cons, ih]
    rfl

lemma expected_exact (fileId : Bytes) (hp : 0 < perRange) (hb : start + data.length < 2 ^ 64) :
    ExactRanges blake3 perRange start data (expected blake3 fileId perRange start data) := by
  have hflat : (chunks perRange (chunks chunkSize data)).flatten.flatten = data := by
    rw [chunks_flatten hp, chunks_flatten chunkSize_pos]
  refine ⟨?_, ?_, ?_⟩
  · rw [← congrArg List.length hflat, expected]
    refine rangesOf_tiles ?_ (hflat.symm ▸ hb)
    · intro g hg hnil
      obtain ⟨c, hc⟩ := List.exists_mem_of_ne_nil _ (chunks_mem hp hg).1
      have hmem : c ∈ chunks chunkSize data := by
        rw [← chunks_flatten hp (chunks chunkSize data)]
        exact List.mem_flatten_of_mem hg hc
      exact (chunks_mem chunkSize_pos hmem).1 (List.flatten_eq_nil_iff.mp hnil c hc)
  · intro r hr
    have hmem := List.mem_map_of_mem (f := Wal.Range.digests) hr
    rw [expected, rangesOf_digests] at hmem
    obtain ⟨g, hg, heq⟩ := List.mem_map.mp hmem
    rw [← heq, List.length_map]
    exact (chunks_mem hp hg).2
  · intro i
    rw [List.flatMap_def, expected, rangesOf_digests, ← List.map_flatten, chunks_flatten hp, List.getElem?_map,
      chunks_getElem? chunkSize_pos]
    split <;> rfl

end Exact

section Inline

variable {Dup : Type} {s : Sink Dup}

def Sink.hashes (s : Sink Dup) : Hashes := ⟨s.hasher, s.digests, s.rangeStart⟩

def Sink.after (s : Sink Dup) (next : Hashes × List Wal.Range) : Sink Dup :=
  { s with
    hasher := next.1.hasher
    digests := next.1.digests
    rangeStart := next.1.rangeStart
    sent := s.sent ++ next.2.map .range }

def Sink.gathered (s : Sink Dup) (digest : Digest) : Sink Dup := { s with digests := s.digests ++ [digest] }

def Sink.emptied (blake3 : Bytes → Digest) (s : Sink Dup) : Sink Dup :=
  { s with hasher := .fromChunk 0, digests := s.digests ++ (s.hasher.finish blake3).toList }

lemma Sink.after_after (s : Sink Dup) (next next' : Hashes × List Wal.Range) :
    (s.after next).after next' = s.after (next'.1, next.2 ++ next'.2) := by
  simp only [Sink.after, List.map_append, List.append_assoc]

lemma Sink.after_self (s : Sink Dup) : s.after (s.hashes, []) = s := by
  simp only [Sink.after, Sink.hashes, List.map_nil, List.append_nil]

lemma bind_ok {σ ε α β : Type} {x : Act σ ε α} {g : α → Act σ ε β} {s s' : σ} {a : α} (h : x s = (.ok a, s')) :
    (x >>= g) s = g a s' := by
  change (StateT.bind x (ExceptT.bindCont g)) s = _
  simp only [StateT.bind, bind, h]
  rfl

lemma ask_quiet (h : s.answers = []) : ask s = (.ok (), s) := by
  have hget : (get : SinkAct Dup (Sink Dup)) s = (.ok s, s) := rfl
  rw [ask, bind_ok hget, h]
  rfl

lemma send_quiet (m : Msg Dup) (h : s.answers = []) : send m s = (.ok (), { s with sent := s.sent ++ [m] }) := by
  rw [send, bind_ok (ask_quiet h)]
  rfl

lemma sendRange_quiet (stop : ℕ) (h : s.answers = []) :
    sendRange stop s = (.ok (), if s.digests = [] then s
      else { s with
        digests := []
        rangeStart := stop
        sent := s.sent ++ [.range (rangeOf s.fileId s.rangeStart stop s.digests)] }) := by
  have hget : (get : SinkAct Dup (Sink Dup)) s = (.ok s, s) := rfl
  rw [sendRange, bind_ok hget]
  split
  · rfl
  · have hset : (set { s with digests := [], rangeStart := stop } : SinkAct Dup PUnit) s =
        (.ok ⟨⟩, { s with digests := [], rangeStart := stop }) := rfl
    rw [bind_ok hset]
    exact send_quiet _ h

lemma gather_quiet (done : List (ℕ × Digest)) (h : s.answers = []) :
    gather done s = (.ok (), s.after (s.hashes.pushAll s.fileId s.perRange done)) := by
  induction done generalizing s with
  | nil =>
    rw [Hashes.pushAll, s.after_self]
    rfl
  | cons p done ih =>
    obtain ⟨index, digest⟩ := p
    have hmodify : (modify fun s => { s with digests := s.digests ++ [digest] } : SinkAct Dup PUnit) s =
        (.ok ⟨⟩, s.gathered digest) := rfl
    have hget : (get : SinkAct Dup (Sink Dup)) (s.gathered digest) =
      (.ok (s.gathered digest), s.gathered digest) := rfl
    have hpush : (if (s.gathered digest).perRange ≤ (s.gathered digest).digests.length then
        sendRange ((index + 1) * chunkSize) else pure ()) (s.gathered digest) =
          (.ok (), s.after (s.hashes.push s.fileId s.perRange index digest)) := by
      rw [Hashes.push]
      by_cases hfull : s.perRange ≤ (s.digests ++ [digest]).length
      · have hsent := sendRange_quiet (s := s.gathered digest) ((index + 1) * chunkSize) h
        have hne : (s.gathered digest).digests ≠ [] := by simp [Sink.gathered]
        rw [if_neg hne] at hsent
        refine ((congrFun (if_pos hfull) _).trans hsent).trans ?_
        rw [show s.hashes.digests = s.digests from rfl, if_pos hfull]
        rfl
      · refine (congrFun (if_neg hfull) _).trans ?_
        rw [show s.hashes.digests = s.digests from rfl, if_neg hfull, Sink.after, List.map_nil, List.append_nil]
        rfl
    have hafter : (s.after (s.hashes.push s.fileId s.perRange index digest)).answers = [] := h
    rw [gather, bind_ok hmodify, bind_ok hget, bind_ok hpush, bind_ok (ask_quiet hafter)]
    refine (ih hafter).trans ?_
    rw [Sink.after_after]
    rfl

variable (blake3 : Bytes → Digest)

lemma wrote_quiet (bytes : Bytes) (h : s.answers = []) :
    wrote blake3 bytes s = (.ok (), s.after (s.hashes.feed s.fileId s.perRange blake3 bytes)) := by
  have hget : (get : SinkAct Dup (Sink Dup)) s = (.ok s, s) := rfl
  have hset : (set { s with hasher := (s.hasher.update blake3 bytes).2 } : SinkAct Dup PUnit) s =
      (.ok ⟨⟩, { s with hasher := (s.hasher.update blake3 bytes).2 }) := rfl
  rw [wrote, bind_ok hget, bind_ok hset]
  exact gather_quiet _ h

lemma wroteAll_quiet (buffers : List Bytes) (h : s.answers = []) :
    wroteAll blake3 buffers s = (.ok (), s.after (s.hashes.feedAll s.fileId s.perRange blake3 buffers)) := by
  induction buffers generalizing s with
  | nil =>
    rw [Hashes.feedAll, s.after_self]
    rfl
  | cons bytes buffers ih =>
    have hafter : (s.after (s.hashes.feed s.fileId s.perRange blake3 bytes)).answers = [] := h
    rw [wroteAll, bind_ok (wrote_quiet blake3 bytes h)]
    refine (ih hafter).trans ?_
    rw [Sink.after_after]
    rfl

lemma complete_quiet (h : s.answers = []) :
    (complete blake3 s).2.sent = s.sent ++ (s.hashes.last s.fileId blake3).map .range ++
    [.close s.fileId true] := by
  have hget : (get : SinkAct Dup (Sink Dup)) s = (.ok s, s) := rfl
  have hset : (set { s with hasher := .fromChunk 0, digests := s.digests ++ (s.hasher.finish blake3).toList } :
      SinkAct Dup PUnit) s = (.ok ⟨⟩, s.emptied blake3) := rfl
  have hanswers : (s.emptied blake3).answers = [] := h
  have hclose {t : Sink Dup} (ht : t.answers = []) :
      ((send (.close s.fileId true) >>= fun _ => ask) t).2.sent = t.sent ++ [.close s.fileId true] := by
    have ht' : ({ t with sent := t.sent ++ [.close s.fileId true] } : Sink Dup).answers = [] := ht
    rw [bind_ok (send_quiet _ ht), ask_quiet ht']
  rw [complete, bind_ok hget, bind_ok hset, bind_ok (sendRange_quiet _ hanswers)]
  by_cases hnil : (s.emptied blake3).digests = []
  · have hlast : s.hashes.last s.fileId blake3 = [] := if_pos hnil
    rw [if_pos hnil, hclose hanswers, hlast, List.map_nil, List.append_nil]
    rfl
  · have hlast : s.hashes.last s.fileId blake3 =
        [rangeOf s.fileId s.rangeStart s.hasher.bytesSeen (s.emptied blake3).digests] := if_neg hnil
    rw [if_neg hnil, hlast]
    exact hclose hanswers

lemma sendProven_quiet (fileId : Bytes) (perRange validThrough group : ℕ) (pieces : List (List Digest))
    (h : s.answers = []) :
    ∃ sent, sendProven fileId perRange validThrough group pieces s = (.ok (), { s with sent := sent }) := by
  induction pieces generalizing s group with
  | nil => exact ⟨s.sent, rfl⟩
  | cons piece pieces ih =>
    rw [sendProven, bind_ok (send_quiet _ h)]
    exact ih (s := { s with sent := s.sent ++ [_] }) _ h

namespace Feed

variable (f : Feed Dup)

def opening : SinkAct Dup Unit := do
  send (.fileBegin f.begin f.dup)
  if f.proven = [] then pure () else recordProven f.proven

def opened : List (Msg Dup) := (f.opening (f.sink [])).2.sent

def perRange : ℕ := max f.rangeChunks 1

lemma opening_quiet : f.opening (f.sink []) = (.ok (), { f.sink [] with sent := f.opened }) := by
  have hsend := send_quiet (s := f.sink []) (.fileBegin f.begin f.dup) rfl
  have hproven : ∃ sent, f.opening (f.sink []) = (.ok (), { f.sink [] with sent := sent }) := by
    rw [opening, bind_ok hsend]
    split
    · exact ⟨_, rfl⟩
    · exact sendProven_quiet (s := { f.sink [] with sent := _ }) _ _ _ _ _ rfl
  obtain ⟨sent, h⟩ := hproven
  have hsent : f.opened = sent := by rw [opened, h]
  rw [h, hsent]

lemma sent_inline (blake3 : Bytes → Digest) :
    f.sent blake3 [] = f.opened ++
      (((Hashes.start f.validThrough).feedAll f.fileId f.perRange blake3 f.buffers).2 ++
        ((Hashes.start f.validThrough).feedAll f.fileId f.perRange blake3 f.buffers).1.last f.fileId blake3).map
        .range ++ [.close f.fileId true] := by
  have hstream : f.stream blake3 = (f.opening >>= fun _ => wroteAll blake3 f.buffers >>= fun _ =>
    complete blake3) := by
    rw [stream, opening]
    simp only [bind_assoc]
  have hquiet : ({ f.sink [] with sent := f.opened } : Sink Dup).answers = [] := rfl
  rw [sent, hstream, bind_ok f.opening_quiet, bind_ok (wroteAll_quiet blake3 f.buffers hquiet), complete_quiet]
  · simp only [Sink.after, List.map_append, List.append_assoc]
    rfl
  · rfl

end Feed

end Inline

end Flux.Checkpoint
