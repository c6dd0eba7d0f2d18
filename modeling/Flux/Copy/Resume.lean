import Flux.Copy.Prefix
import Flux.Wal.Canonical

/-! How far the two deciders get: to the first chunk that does not agree on both sides. -/

namespace Flux.Copy

open Base Wal

attribute [local irreducible] chunkSize

def Start.offset : Start → ℕ
  | .fresh => 0
  | .resume offset => offset

lemma startAt_offset (pos : ℕ) : (startAt pos).offset = pos := by
  rw [startAt]
  split
  · next h => exact h.symm
  · rfl

def chunkLen (len k : ℕ) : ℕ := min (len - k * chunkSize) chunkSize

def chunkAt (bs : Bytes) (len k : ℕ) : Bytes := (bs.drop (k * chunkSize)).take (chunkLen len k)

def afterChunks (p : Input) : ℕ → Option Input
  | 0 => some p
  | k + 1 => (afterChunks p k).bind fun q => (q.readFull chunkSize).toOption.map Prod.snd

def Unreadable (p : Input) (len k : ℕ) : Prop :=
  ∃ q e, afterChunks p k = some q ∧ q.readFull (chunkLen len k) = .error e

structure Agrees (blake3 : Bytes → Digest) (digest : Digest) (source : Bytes) (p : Input) (len partialLen k : ℕ) :
    Prop where
  inPartial : k * chunkSize + chunkLen len k ≤ partialLen
  readable : ¬ Unreadable p len k
  sourceDigest : hashesTo blake3 digest (chunkLen len k) (chunkAt source len k)
  partialDigest : hashesTo blake3 digest (chunkLen len k) (chunkAt p.rest len k)

section Rounds

variable {source : Bytes} {len : ℕ} {agrees : ℕ → Prop} {p₀ p : Input} {f₀ f : Files} {k : ℕ}

lemma chunkEnd_of_lt (h : k * chunkSize < len) : chunkEnd len k = k * chunkSize := by
  rw [chunkEnd, min_eq_left h.le]

lemma chunkEnd_next (h : k * chunkSize < len) : chunkEnd len (k + 1) = k * chunkSize + chunkLen len k :=
  chunkEnd_succ h

structure Reached (source : Bytes) (len : ℕ) (agrees : ℕ → Prop) (p₀ : Input) (f₀ f : Files) (p : Input) (k : ℕ) :
    Prop where
  before : ∀ j < k, j * chunkSize < len ∧ agrees j
  le : chunkEnd len k ≤ source.length
  reader : f.source.rest = source.drop (chunkEnd len k)
  hasher : f.hasher = f₀.hasher.map (· ++ source.take (chunkEnd len k))
  partReader : p.rest = p₀.rest.drop (chunkEnd len k)
  place : k * chunkSize ≤ len → afterChunks p₀ k = some p

structure Stopped (source : Bytes) (len : ℕ) (agrees : ℕ → Prop) (f₀ : Files) (v : Verdict) (f : Files) (k : ℕ) :
    Prop where
  start : v.start.offset = chunkEnd len k
  before : ∀ j < k, j * chunkSize < len ∧ agrees j
  first : k * chunkSize < len → ¬ agrees k
  le : chunkEnd len k + v.carry.length ≤ source.length
  carry : v.carry = (source.drop (chunkEnd len k)).take v.carry.length
  reader : f.source.rest = source.drop (chunkEnd len k + v.carry.length)
  hasher : f.hasher = f₀.hasher.map (· ++ source.take (chunkEnd len k))

lemma Reached.kept (h : Reached source len agrees p₀ f₀ f p k) (hk : k * chunkSize < len → ¬ agrees k)
    (shorter : Bool)
    (proven : List Digest) : Stopped source len agrees f₀ (.kept (chunkEnd len k) shorter proven) f k where
  start := startAt_offset _
  before := h.before
  first := hk
  le := by simpa [Verdict.kept] using h.le
  carry := by simp [Verdict.kept]
  reader := by simpa [Verdict.kept] using h.reader
  hasher := h.hasher

lemma Reached.sourceChunk (h : Reached source len agrees p₀ f₀ f p k) (hk : k * chunkSize < len) :
    f.source.rest.take (chunkLen len k) = chunkAt source len k := by
  rw [h.reader, chunkEnd_of_lt hk, chunkAt]

lemma Reached.partChunk (h : Reached source len agrees p₀ f₀ f p k) (hk : k * chunkSize < len) :
    p.rest.take (chunkLen len k) = chunkAt p₀.rest len k := by
  rw [h.partReader, chunkEnd_of_lt hk, chunkAt]

lemma Reached.mismatch {r : Input} (h : Reached source len agrees p₀ f₀ f p k) (hk : k * chunkSize < len)
    (hr : r.rest = f.source.rest.drop (chunkLen len k)) (hnot : ¬ agrees k) (proven : List Digest) :
    Stopped source len agrees f₀ (.mismatch (k * chunkSize) (chunkAt source len k) proven)
    { f with source := r } k := by
  have hend := chunkEnd_of_lt hk
  have hle : k * chunkSize ≤ source.length := hend ▸ h.le
  have hlen : (chunkAt source len k).length = min (chunkLen len k) (source.length - k * chunkSize) := by
    rw [chunkAt, List.length_take, List.length_drop]
  refine ⟨?_, h.before, fun _ => hnot, ?_, ?_, ?_, h.hasher⟩
  · rw [hend]
    exact startAt_offset _
  · simp only [Verdict.mismatch, hend, hlen]
    omega
  · simp only [Verdict.mismatch, hend, hlen]
    rw [chunkAt, ← List.length_drop, List.take_eq_take_min]
  · simp only [Verdict.mismatch, hend, hlen]
    rw [hr, h.reader, hend, List.drop_drop]
    rcases le_total (chunkLen len k) (source.length - k * chunkSize) with hc | hc
    · rw [min_eq_left hc]
    · rw [min_eq_right hc, List.drop_of_length_le (by omega), List.drop_of_length_le (by omega)]

lemma Reached.advance {p' r : Input} {q : Bytes} (h : Reached source len agrees p₀ f₀ f p k)
    (hk : k * chunkSize < len)
    (hr : r.rest = f.source.rest.drop (chunkLen len k)) (hq : p.readFull (chunkLen len k) = .ok (q, p'))
    (hlen : (chunkAt source len k).length = chunkLen len k) (hagrees : agrees k) :
    Reached source len agrees p₀ f₀ { f with source := r, hasher := f.hasher.map (· ++ chunkAt source len k) } p'
      (k + 1) := by
  have hend := chunkEnd_of_lt hk
  have hnext := chunkEnd_next hk
  obtain ⟨-, hp'⟩ := ByteStream.readFull_ok hq
  refine ⟨?_, ?_, ?_, ?_, ?_, ?_⟩
  · intro j hj
    obtain rfl | hj := Nat.lt_succ_iff_lt_or_eq.mp hj |>.symm
    · exact ⟨hk, hagrees⟩
    · exact h.before j hj
  · rw [chunkAt, List.length_take, List.length_drop] at hlen
    have hle : k * chunkSize ≤ source.length := hend ▸ h.le
    rw [hnext]
    omega
  · rw [hnext, ← List.drop_drop, ← hend, ← h.reader]
    exact hr
  · simp only [h.hasher, hend, hnext, Option.map_map, chunkAt, List.take_add]
    congr 1
    funext x
    simp
  · rw [hp', h.partReader, hend, hnext, List.drop_drop]
  · intro hfull
    have hwhole : chunkLen len k = chunkSize := by
      rw [chunkLen, Nat.succ_mul] at *
      omega
    rw [hwhole] at hq
    rw [afterChunks, h.place hk.le, Option.bind_some, hq]
    rfl

end Rounds

variable {digests : AList fun _ : UInt64 => Digest} {highest : UInt64}

section Loops

variable {blake3 : Bytes → Digest} {source : Bytes} {len partialLen : ℕ} {p₀ p : Input} {f₀ f : Files} {k : ℕ}

def LogAgrees (blake3 : Bytes → Digest) (digests : AList fun _ : UInt64 => Digest) (source : Bytes) (p : Input)
    (len partialLen k : ℕ) : Prop :=
  ∃ d, digests.lookup (UInt64.ofNat k) = some d ∧ Agrees blake3 d source p len partialLen k

def SourceAgrees (blake3 : Bytes → Digest) (source : Bytes) (p : Input) (len partialLen k : ℕ) : Prop :=
  Agrees blake3 (blake3 (chunkAt source len k)) source p len partialLen k

lemma Reached.unreadable {agrees : ℕ → Prop} {e : IoError} (h : Reached source len agrees p₀ f₀ f p k)
    (hk : k * chunkSize < len) (he : p.readFull (chunkLen len k) = .error e) : Unreadable p₀ len k :=
  ⟨p, e, h.place hk.le, he⟩

lemma Reached.readable {agrees : ℕ → Prop} {q : Bytes} {p' : Input} (h : Reached source len agrees p₀ f₀ f p k)
    (hk : k * chunkSize < len) (hq : p.readFull (chunkLen len k) = .ok (q, p')) : ¬ Unreadable p₀ len k := by
  rintro ⟨r, e, hr, he⟩
  rw [h.place hk.le] at hr
  cases hr
  rw [hq] at he
  cases he

lemma stops_decideLoop {total : ℕ} (n : ℕ) (hn : k + n = total)
    (htotal : total * chunkSize < len → ¬ LogAgrees blake3 digests source p₀ len partialLen total)
    (shorter : Bool) (h : Reached source len (LogAgrees blake3 digests source p₀ len partialLen) p₀ f₀ f p k) :
    Yields (decideLoop blake3 digests len partialLen n k p (chunkEnd len k) shorter) f
      (fun v f' => ∃ k', Stopped source len (LogAgrees blake3 digests source p₀ len partialLen) f₀ v f' k')
      fun _ _ => True := by
  induction n generalizing k p f with
  | zero =>
    obtain rfl : k = total := hn
    exact Ensures.pure ⟨k, h.kept htotal _ _⟩
  | succ n ih =>
    rw [decideLoop]
    split
    · next hnone =>
      refine Ensures.pure ⟨k, h.kept (fun _ => ?_) _ _⟩
      rintro ⟨d, hd, -⟩
      rw [hnone] at hd
      cases hd
    next recorded hrecorded =>
    dsimp only
    split
    · next hge => exact Ensures.pure ⟨k, h.kept (fun hk => absurd hk (not_lt.mpr hge)) _ _⟩
    next hlt =>
    have hk : k * chunkSize < len := not_le.mp hlt
    split
    · next hshort =>
      refine Ensures.pure ⟨k, h.kept (fun _ => ?_) _ _⟩
      rintro ⟨d, -, hd⟩
      exact absurd hd.inPartial (not_le.mpr hshort)
    next hpart =>
    refine yields_beat_readSource fun r hr => ?_
    have hsrc := h.sourceChunk hk
    rw [chunkLen] at hsrc
    rw [hsrc]
    split
    · next e he =>
      refine Ensures.pure ⟨k, h.mismatch hk hr ?_ _⟩
      rintro ⟨d, -, hd⟩
      exact hd.readable (h.unreadable hk he)
    next q p' hq =>
    have hqchunk : q = chunkAt p₀.rest len k := (ByteStream.readFull_ok hq).1.trans (h.partChunk hk)
    split
    · next hh =>
      have hlen : (chunkAt source len k).length = chunkLen len k := by
        have hsource := hh.1
        simp only [hashesTo, decide_eq_true_eq] at hsource
        exact hsource.1
      refine Ensures.bind (Yields.setFiles (Q := fun _ f' => f' = _) rfl) ?_
      rintro - f' rfl
      have hagrees : LogAgrees blake3 digests source p₀ len partialLen k :=
        ⟨recorded, hrecorded, not_lt.mp hpart, h.readable hk hq, hh.1, hqchunk ▸ hh.2⟩
      have hnext := h.advance hk hr hq hlen hagrees
      have hpos := chunkEnd_next hk
      rw [chunkLen] at hpos
      rw [← hpos]
      exact ih (by omega) hnext
    · next hh =>
      refine Ensures.pure ⟨k, h.mismatch hk hr ?_ _⟩
      rintro ⟨d, hd, hagrees⟩
      rw [hrecorded] at hd
      cases hd
      exact hh ⟨hagrees.sourceDigest, hqchunk ▸ hagrees.partialDigest⟩

def provenOf (blake3 : Bytes → Digest) (source : Bytes) (len k : ℕ) : List Digest :=
  (List.range k).map fun j => blake3 (chunkAt source len j)

lemma provenOf_succ (blake3 : Bytes → Digest) (source : Bytes) (len k : ℕ) :
    provenOf blake3 source len (k + 1) = provenOf blake3 source len k ++ [blake3 (chunkAt source len k)] := by
  rw [provenOf, List.range_succ, List.map_append]
  rfl

lemma stops_decideFullLoop (n : ℕ) (hn : n = divCeil len chunkSize - k)
    (h : Reached source len (SourceAgrees blake3 source p₀ len partialLen) p₀ f₀ f p k) :
    Yields (decideFullLoop blake3 len partialLen n k p (chunkEnd len k) (provenOf blake3 source len k)) f
      (fun v f' => ∃ k', Stopped source len (SourceAgrees blake3 source p₀ len partialLen) f₀ v f' k' ∧
        v.proven = provenOf blake3 source len k') fun _ _ => True := by
  induction n generalizing k p f with
  | zero =>
    refine Ensures.pure ⟨k, h.kept (fun hk => ?_) _ _, rfl⟩
    have := lt_divCeil_iff.mpr hk
    omega
  | succ n ih =>
    have hk : k * chunkSize < len := lt_divCeil_iff.mp (by omega)
    rw [decideFullLoop]
    split
    · next hshort =>
      refine Ensures.pure ⟨k, h.kept (fun _ hagrees => ?_) _ _, rfl⟩
      exact absurd hagrees.inPartial (not_le.mpr hshort)
    next hpart =>
    refine yields_beat_readSource fun r hr => ?_
    have hsrc := h.sourceChunk hk
    rw [chunkLen] at hsrc
    rw [hsrc]
    split
    · next e he =>
      refine Ensures.pure ⟨k, h.mismatch hk hr ?_ _, rfl⟩
      exact fun hagrees => hagrees.readable (h.unreadable hk he)
    next q p' hq =>
    have hqchunk : q = chunkAt p₀.rest len k := (ByteStream.readFull_ok hq).1.trans (h.partChunk hk)
    split
    · next hh =>
      refine Ensures.bind (Yields.setFiles (Q := fun _ f' => f' = _) rfl) ?_
      rintro - f' rfl
      have hagrees : SourceAgrees blake3 source p₀ len partialLen k :=
        ⟨not_lt.mp hpart, h.readable hk hq, by simpa [hashesTo, chunkLen] using hh.1, hqchunk ▸ hh.2⟩
      have hnext := h.advance hk hr hq hh.1 hagrees
      have hpos := chunkEnd_next hk
      rw [chunkLen] at hpos
      rw [← hpos, ← provenOf_succ]
      exact ih (by omega) hnext
    · next hh =>
      refine Ensures.pure ⟨k, h.mismatch hk hr (fun hagrees => hh ⟨?_, hqchunk ▸ hagrees.partialDigest⟩) _, rfl⟩
      have hsource := hagrees.sourceDigest
      simp only [hashesTo, decide_eq_true_eq] at hsource
      exact hsource.1

lemma Reached.start (agrees : ℕ → Prop) (len : ℕ) (p : Input) (f : Files) :
    Reached f.source.rest len agrees p f f p 0 where
  before _ hj := absurd hj (Nat.not_lt_zero _)
  le := by simp [chunkEnd]
  reader := by simp [chunkEnd]
  hasher := by simp [chunkEnd]
  partReader := by simp [chunkEnd]
  place _ := rfl

lemma stops_decideFull (p : Input) (f : Files) :
    Yields (decideFull blake3 len partialLen p) f
      (fun v f' => ∃ k, Stopped f.source.rest len (SourceAgrees blake3 f.source.rest p len partialLen) f v f' k ∧
        v.proven = provenOf blake3 f.source.rest len k) fun _ _ => True := by
  have h := stops_decideFullLoop _ rfl (Reached.start (SourceAgrees blake3 f.source.rest p len partialLen) len p f)
  rw [decideFull]
  simpa [chunkEnd, provenOf] using h

end Loops

def FileState.Passes (state : FileState) (gate : Gate) : Prop :=
  state.begin.sourceLen.toNat = gate.len ∧ state.begin.sourceMtime = gate.mtime ∧
    state.begin.sourceIdentity = gate.identity

def lastKey : UInt64 := UInt64.ofNat (2 ^ 64 - 1)

lemma succ_toNat {key : UInt64} (h : key ≠ lastKey) : (key + 1).toNat = key.toNat + 1 := by
  have hlt := key.toNat_lt
  have hne : key.toNat ≠ 2 ^ 64 - 1 := by
    intro heq
    apply h
    rw [lastKey, ← heq, UInt64.ofNat_toNat]
  rw [UInt64.toNat_add]
  have hone : (1 : UInt64).toNat = 1 := rfl
  rw [hone]
  omega

lemma lawfulMax : Std.LawfulOrderMax UInt64 := by
  have hmax : ∀ a b : UInt64, max a b = if a ≤ b then b else a := fun _ _ => rfl
  refine .of_max_le_iff ?_ ?_
  · intro a b c
    rw [hmax]
    simp only [UInt64.le_iff_toNat_le]
    split <;> omega
  · intro a b
    rw [hmax]
    split
    · exact .inr rfl
    · exact .inl rfl

lemma highest_spec (h : digests.keys.max? = some highest) :
    highest ∈ digests.keys ∧ ∀ key ∈ digests.keys, key ≤ highest :=
  haveI := lawfulMax
  List.max?_eq_some_iff.mp h

lemma lookup_above (h : digests.keys.max? = some highest) (hne : highest ≠ lastKey) :
    digests.lookup (UInt64.ofNat (highest + 1).toNat) = none := by
  rw [AList.lookup_eq_none, AList.mem_keys, UInt64.ofNat_toNat]
  intro hmem
  have hle : highest + 1 ≤ highest := (highest_spec h).2 _ hmem
  have hnat := UInt64.le_iff_toNat_le.mp hle
  rw [succ_toNat hne] at hnat
  omega

structure ResumeExact (blake3 : Bytes → Digest) (state : FileState) (gate : Gate) (partialLen : Option ℕ)
    (part : Option Input) (f : Files) (v : Verdict) (f' : Files) : Prop where
  aligned : v.start.offset % chunkSize = 0 ∨ (v.start.offset = gate.len ∧ gate.len ≤ f.source.rest.length)
  validated : ∀ k, k * chunkSize < v.start.offset → ∃ n p, partialLen = some n ∧ part = some p ∧
    LogAgrees blake3 state.digests f.source.rest p gate.len n k
  maximal : v.start.offset < gate.len → state.Passes gate → lastKey ∉ state.digests.keys →
    ∀ n p, partialLen = some n → part = some p →
      ¬ LogAgrees blake3 state.digests f.source.rest p gate.len n (v.start.offset / chunkSize)
  consumed : v.start.offset + v.carry.length ≤ f.source.rest.length ∧
    f'.source.rest = f.source.rest.drop (v.start.offset + v.carry.length)
  carry : v.carry = (f.source.rest.drop v.start.offset).take v.carry.length
  hasher : f'.hasher = f.hasher.map (· ++ f.source.rest.take v.start.offset)

section Exact

variable {blake3 : Bytes → Digest} {state : FileState} {gate : Gate} {f : Files}

lemma ResumeExact.fresh {partialLen : Option ℕ} {part : Option Input} (discard : Option Discard)
    (h : state.Passes gate → lastKey ∉ state.digests.keys → ∀ n p, partialLen = some n → part = some p →
      ¬ LogAgrees blake3 state.digests f.source.rest p gate.len n 0) :
    ResumeExact blake3 state gate partialLen part f (.fresh discard) f where
  aligned := .inl (Nat.zero_mod _)
  validated _ hk := absurd hk (Nat.not_lt_zero _)
  maximal _ := by
    rw [show (Verdict.fresh discard).start.offset / chunkSize = 0 from Nat.zero_div _]
    exact h
  consumed := by simp [Verdict.fresh, Start.offset]
  carry := by simp [Verdict.fresh]
  hasher := by simp [Verdict.fresh, Start.offset]

lemma Stopped.exact {n k : ℕ} {p : Input} {v : Verdict} {f' : Files}
    (h : Stopped f.source.rest gate.len (LogAgrees blake3 state.digests f.source.rest p gate.len n) f v f' k) :
    ResumeExact blake3 state gate (some n) (some p) f v f' where
  aligned := by
    rw [h.start]
    refine (chunkEnd_aligned gate.len k).imp id fun heq => ⟨heq, ?_⟩
    have hle := h.le
    omega
  validated j hj := by
    refine ⟨n, p, rfl, rfl, (h.before j ?_).2⟩
    rw [h.start, chunkEnd, lt_min_iff] at hj
    exact lt_of_mul_lt_mul_right hj.1 (Nat.zero_le _)
  maximal hlt _ _ n' p' hn hp := by
    cases hn
    cases hp
    have hk : k * chunkSize < gate.len := by
      rw [h.start, chunkEnd] at hlt
      omega
    rw [h.start, chunkEnd_of_lt hk, Nat.mul_div_cancel _ chunkSize_pos]
    exact h.first hk
  consumed := by
    rw [h.start]
    exact ⟨h.le, h.reader⟩
  carry := by
    rw [h.start]
    exact h.carry
  hasher := by
    rw [h.start]
    exact h.hasher

lemma not_logAgrees_end {n : ℕ} {p : Input} (hmax : state.digests.keys.max? = some highest)
    (hne : highest ≠ lastKey) (hlt : min (highest + 1).toNat (divCeil n chunkSize) * chunkSize < gate.len) :
    ¬ LogAgrees blake3 state.digests f.source.rest p gate.len n
    (min (highest + 1).toNat (divCeil n chunkSize)) := by
  rintro ⟨d, hd, hagrees⟩
  rcases le_total (highest + 1).toNat (divCeil n chunkSize) with hle | hle
  · rw [min_eq_left hle, lookup_above hmax hne] at hd
    cases hd
  · rw [min_eq_right hle] at hlt hagrees
    have hpartial := hagrees.inPartial
    have hend := divCeil_le_iff.mp (le_refl (divCeil n chunkSize))
    have hpos := chunkSize_pos
    rw [chunkLen] at hpartial
    omega

lemma stops_decide_last {n : ℕ} {p : Input} (heq : highest = lastKey) :
    Yields (decideLoop blake3 state.digests gate.len n (min (highest + 1).toNat (divCeil n chunkSize)) 0 p 0
      (divCeil n chunkSize < (highest + 1).toNat)) f (fun v f' => v = .fresh none ∧ f' = f) fun _ _ => True := by
  subst heq
  have hzero : (lastKey + 1).toNat = 0 := by decide
  rw [hzero, Nat.zero_min, decide_eq_false (Nat.not_lt_zero _)]
  exact Ensures.pure ⟨rfl, rfl⟩

lemma decide_ends (blake3 : Bytes → Digest) (state : FileState) (gate : Gate) (partialLen : Option ℕ)
    (part : Option Input) (f : Files) :
    Yields (decide blake3 state gate partialLen part) f
      (fun v f' => (f' = f ∧ (∃ discard, v = .fresh discard) ∧ (state.Passes gate → lastKey ∉ state.digests.keys →
          ∀ n p, partialLen = some n → part = some p →
          ¬ LogAgrees blake3 state.digests f.source.rest p gate.len n 0)) ∨
        ∃ n p k, partialLen = some n ∧ part = some p ∧
          Stopped f.source.rest gate.len (LogAgrees blake3 state.digests f.source.rest p gate.len n) f v f' k)
      fun _ _ => True := by
  rw [decide.eq_def]
  split
  · next hlen => exact Ensures.pure (.inl ⟨rfl, ⟨_, rfl⟩, fun hpass => absurd hpass.1 hlen⟩)
  split
  · next hmtime => exact Ensures.pure (.inl ⟨rfl, ⟨_, rfl⟩, fun hpass => absurd hpass.2.1 hmtime⟩)
  split
  · next hid => exact Ensures.pure (.inl ⟨rfl, ⟨_, rfl⟩, fun hpass => absurd hpass.2.2 hid⟩)
  split
  · next n p =>
    split
    · next hmax =>
      refine Ensures.pure (.inl ⟨rfl, ⟨_, rfl⟩, ?_⟩)
      rintro - - n' p' - - ⟨d, hd, -⟩
      have hempty : state.digests.keys = [] := List.max?_eq_none_iff.mp hmax
      have hsome : (state.digests.lookup (UInt64.ofNat 0)).isSome := by
        rw [hd]
        rfl
      have hmem := AList.mem_keys.mp (AList.lookup_isSome.mp hsome)
      rw [hempty] at hmem
      cases hmem
    · next highest hmax =>
      by_cases hlast : highest = lastKey
      · refine (stops_decide_last hlast).mono ?_ fun _ _ => id
        rintro v f' ⟨rfl, rfl⟩
        exact .inl ⟨rfl, ⟨_, rfl⟩, fun _ hnot => absurd (hlast ▸ (highest_spec hmax).1) hnot⟩
      · have hloop := stops_decideLoop _ (Nat.zero_add _) (not_logAgrees_end hmax hlast)
          (divCeil n chunkSize < (highest + 1).toNat)
          (Reached.start (LogAgrees blake3 state.digests f.source.rest p gate.len n) gate.len p f)
        rw [chunkEnd, Nat.zero_mul, Nat.zero_min] at hloop
        refine hloop.mono ?_ fun _ _ => id
        rintro v f' ⟨k, hk⟩
        exact .inr ⟨n, p, k, rfl, rfl, hk⟩
  · next hmissing =>
    refine Ensures.pure (.inl ⟨rfl, ⟨_, rfl⟩, ?_⟩)
    intro _ _ n p hn hp
    exact absurd hp (hmissing n p hn)

theorem decide_exact (blake3 : Bytes → Digest) (state : FileState) (gate : Gate) (partialLen : Option ℕ)
    (part : Option Input) (f : Files) :
    Yields (decide blake3 state gate partialLen part) f
      (fun v f' => ResumeExact blake3 state gate partialLen part f v f') fun _ _ => True := by
  refine (decide_ends blake3 state gate partialLen part f).mono ?_ fun _ _ => id
  rintro v f' (⟨rfl, ⟨discard, rfl⟩, hreason⟩ | ⟨n, p, k, rfl, rfl, hstopped⟩)
  · exact .fresh discard hreason
  · exact hstopped.exact

end Exact

section Byte

attribute [local semireducible] chunkSize

def byteState (mtime : Option (Int64 × UInt32)) (digests : AList fun _ : UInt64 => Digest) : FileState :=
  ⟨⟨[7], 1, [], 1, mtime, [], 1048576, 0⟩, digests⟩

def byteWorld : World where
  files := ⟨none, ⟨[1], []⟩, none, none⟩
  dest := none
  held := none
  answers := []
  sinkAnswers := []
  schedules := []
  sources := []
  calls := []

def byteDigest : AList fun _ : UInt64 => Digest := AList.singleton 0 (zeroHash [])

lemma byteDigest_agrees (h : digests.lookup 0 = some (zeroHash [])) :
    LogAgrees zeroHash digests [1] ⟨[1], []⟩ 1 1 0 := by
  refine ⟨zeroHash [], h, ?_, ?_, ?_, ?_⟩
  · decide
  · rintro ⟨q, e, hq, he⟩
    cases hq
    cases he
  · decide
  · decide

theorem decide_not_maximal :
    ((decide zeroHash (byteState none byteDigest) ⟨1, some (0, 0), []⟩ (some 1) (some ⟨[1], []⟩) byteWorld).1 =
        .ok (.fresh (some (.sourceChanged "modified time"))) ∧
      LogAgrees zeroHash (byteState none byteDigest).digests [1] ⟨[1], []⟩ 1 1 0) ∧
    ((decide zeroHash (byteState none (byteDigest.insert lastKey (zeroHash []))) ⟨1, none, []⟩ (some 1)
      (some ⟨[1], []⟩)
        byteWorld).1 = .ok (.fresh none) ∧
      LogAgrees zeroHash (byteState none (byteDigest.insert lastKey (zeroHash []))).digests [1] ⟨[1],
        []⟩ 1 1 0) := by
  refine ⟨⟨rfl, byteDigest_agrees rfl⟩, ⟨rfl, byteDigest_agrees rfl⟩⟩

end Byte

section Compare

variable {source : Bytes} {len : ℕ} {agrees agrees' : ℕ → Prop} {f g f' g' : Files} {v v' : Verdict} {k k' : ℕ}

lemma chunkEnd_le_chunkEnd (len : ℕ) (h : k ≤ k') : chunkEnd len k ≤ chunkEnd len k' :=
  min_le_min_right _ (Nat.mul_le_mul_right _ h)

lemma Stopped.le_of_imp (himp : ∀ j, j * chunkSize < len → agrees j → agrees' j)
    (h : Stopped source len agrees f v f' k) (h' : Stopped source len agrees' g v' g' k') :
    v.start.offset ≤ v'.start.offset := by
  rw [h.start, h'.start]
  apply chunkEnd_le_chunkEnd
  by_contra hlt
  obtain ⟨hin, hagrees⟩ := h.before k' (not_le.mp hlt)
  exact h'.first hin (himp k' hin hagrees)

lemma Stopped.divCeil_offset (h : Stopped source len agrees f v f' k) : divCeil v.start.offset chunkSize = k := by
  rw [h.start]
  cases k with
  | zero => simp [chunkEnd, divCeil, chunkSize_pos]
  | succ j =>
    obtain ⟨hin, -⟩ := h.before j (Nat.lt_succ_self j)
    have hpos := chunkSize_pos
    refine le_antisymm (divCeil_le_iff.mpr ?_) (lt_divCeil_iff.mpr ?_)
    · exact min_le_left _ _
    · rw [chunkEnd, Nat.succ_mul]
      omega

end Compare

section Refines

variable {blake3 : Bytes → Digest} {digests : AList fun _ : UInt64 => Digest} {source : Bytes} {p : Input}
  {len n k : ℕ}

lemma LogAgrees.sourceAgrees (h : LogAgrees blake3 digests source p len n k) :
    SourceAgrees blake3 source p len n k := by
  obtain ⟨d, -, hin, hreadable, hsource, hpart⟩ := h
  have hd : blake3 (chunkAt source len k) = d := by
    simp only [hashesTo, decide_eq_true_eq] at hsource
    exact hsource.2
  rw [SourceAgrees, hd]
  exact ⟨hin, hreadable, hsource, hpart⟩

def RecordsAll (blake3 : Bytes → Digest) (digests : AList fun _ : UInt64 => Digest) (source : Bytes) (len : ℕ) :
    Prop :=
  ∀ k, k * chunkSize < len → digests.lookup (UInt64.ofNat k) = some (blake3 (chunkAt source len k))

lemma SourceAgrees.logAgrees (hall : RecordsAll blake3 digests source len) (hk : k * chunkSize < len)
    (h : SourceAgrees blake3 source p len n k) : LogAgrees blake3 digests source p len n k :=
  ⟨_, hall k hk, h⟩

end Refines

theorem decide_refines_decideFull (blake3 : Bytes → Digest) (state : FileState) (gate : Gate) (n : ℕ) (p : Input)
    (w w' u u' : World) (v v' : Verdict) (hfiles : w.files = w'.files)
    (hlog : decide blake3 state gate (some n) (some p) w = (.ok v, u))
    (hfull : decideFull blake3 gate.len n p w' = (.ok v', u')) :
    v.start.offset ≤ v'.start.offset ∧
      (state.Passes gate → lastKey ∉ state.digests.keys →
        RecordsAll blake3 state.digests w.files.source.rest gate.len → v.start.offset = v'.start.offset) ∧
      v'.proven = provenOf blake3 w.files.source.rest gate.len (divCeil v'.start.offset chunkSize) := by
  have hends := (decide_ends blake3 state gate (some n) (some p) w.files).ok rfl hlog
  obtain ⟨k', hstopped', hproven⟩ := (stops_decideFull p w.files).ok hfiles.symm hfull
  rw [hstopped'.divCeil_offset]
  refine ⟨?_, ?_, hproven⟩
  · rcases hends with ⟨-, ⟨discard, rfl⟩, -⟩ | ⟨_, _, k, hn, hp, hstopped⟩
    · exact Nat.zero_le _
    · cases hn
      cases hp
      exact hstopped.le_of_imp (fun _ _ => LogAgrees.sourceAgrees) hstopped'
  · intro hpass hlast hall
    rcases hends with ⟨-, ⟨discard, rfl⟩, hreason⟩ | ⟨_, _, k, hn, hp, hstopped⟩
    · have hzero : k' = 0 := by
        by_contra hne
        obtain ⟨hin, hagrees⟩ := hstopped'.before 0 (Nat.pos_of_ne_zero hne)
        exact hreason hpass hlast n p rfl rfl (hagrees.logAgrees hall hin)
      rw [hstopped'.start, hzero, chunkEnd, Nat.zero_mul, Nat.zero_min]
      rfl
    · cases hn
      cases hp
      refine le_antisymm (hstopped.le_of_imp (fun _ _ => LogAgrees.sourceAgrees) hstopped') ?_
      exact hstopped'.le_of_imp (fun _ hj hagrees => hagrees.logAgrees hall hj) hstopped

section Byte

attribute [local semireducible] chunkSize

lemma byteDigest_recordsAll (h : digests.lookup 0 = some (zeroHash [])) : RecordsAll zeroHash digests [1] 1 := by
  intro k hk
  have hlt := lt_divCeil_iff.mpr hk
  have hone : divCeil 1 chunkSize = 1 := rfl
  obtain rfl : k = 0 := by omega
  exact h

theorem decide_refines_decideFull_byte :
    (decide zeroHash (byteState none byteDigest) ⟨1, none, []⟩ (some 1) (some ⟨[1], []⟩) byteWorld).1 =
        .ok (.kept 1 false []) ∧
      (decideFull zeroHash 1 1 ⟨[1], []⟩ byteWorld).1 = .ok (.kept 1 false [zeroHash []]) ∧
      (Verdict.kept 1 false []).start.offset = (Verdict.kept 1 false [zeroHash []]).start.offset := by
  refine ⟨rfl, rfl, ?_⟩
  have h := decide_refines_decideFull zeroHash (byteState none byteDigest) ⟨1, none, []⟩ 1 ⟨[1], []⟩
    byteWorld byteWorld _ _ (.kept 1 false []) (.kept 1 false [zeroHash []]) rfl rfl rfl
  exact h.2.1 ⟨rfl, rfl, rfl⟩ (by decide) (byteDigest_recordsAll rfl)

theorem decide_less_than_decideFull :
    (decide zeroHash (byteState none (byteDigest.insert lastKey (zeroHash []))) ⟨1, none, []⟩ (some 1)
      (some ⟨[1], []⟩)
        byteWorld).1 = .ok (.fresh none) ∧
      (decideFull zeroHash 1 1 ⟨[1], []⟩ byteWorld).1 = .ok (.kept 1 false [zeroHash []]) ∧
      (byteState none (byteDigest.insert lastKey (zeroHash []))).Passes ⟨1, none, []⟩ ∧
      RecordsAll zeroHash (byteState none (byteDigest.insert lastKey (zeroHash []))).digests [1] 1 :=
  ⟨rfl, rfl, ⟨rfl, rfl, rfl⟩, byteDigest_recordsAll rfl⟩

end Byte

end Flux.Copy
