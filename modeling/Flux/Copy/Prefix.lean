import Flux.Copy.Decide
import Flux.Copy.Calls
import Mathlib.Data.Set.Function

/-! The part of a partial that is kept is a prefix of the source. -/

namespace Flux.Copy

open Base Wal

def CollisionFree (blake3 : Bytes → Digest) (source part : Bytes) : Prop :=
  Set.InjOn blake3 { x | x <:+: source ∨ x <:+: part }

lemma yields_readSource (n : ℕ) (f : Files) :
    Yields (readSource n) f (fun bs f' => bs = f.source.rest.take n ∧
      ∃ r, r.rest = f.source.rest.drop n ∧ f' = { f with source := r }) fun _ _ => True := by
  refine Ensures.bind (Q := fun w f' => w.files = f ∧ f' = f) (Ensures.get fun w hw => ⟨hw, rfl⟩) ?_
  rintro w f' ⟨hw, rfl⟩
  rw [hw]
  split
  · exact Ensures.throw trivial
  · next bs r hr =>
    obtain ⟨hb, hd⟩ := ByteStream.readFull_ok hr
    exact Ensures.bind (Q := fun _ f'' => f'' = { f' with source := r }) (Yields.setFiles rfl) fun _ f'' h => by
      subst h
      exact Ensures.pure ⟨hb, r, hd, rfl⟩

lemma yields_beat_readSource {n : ℕ} {f : Files} {g : Bytes → M DecideFail Verdict} {Q : Verdict → Files → Prop}
    (h : ∀ r : Input, r.rest = f.source.rest.drop n →
      Yields (g (f.source.rest.take n)) { f with source := r } Q fun _ _ => True) :
    Yields (beat.mapFailure .beat >>= fun _ => readSource n >>= g) f Q fun _ _ => True := by
  refine Ensures.bind ((frames_fsCall _).mapFailure.ensures (Q := fun _ f' => f' = f) (fun _ => rfl) fun _ =>
    trivial) ?_
  rintro - f' rfl
  refine Ensures.bind (yields_readSource _ _) ?_
  rintro src f'' ⟨rfl, r, hr, rfl⟩
  exact h r hr

section Decided

variable {source part : Bytes} {f₀ f : Files} {pos : ℕ}

structure Validated (source part : Bytes) (f₀ f : Files) (p : Input) (pos : ℕ) : Prop where
  le : pos ≤ source.length
  lePart : pos ≤ part.length
  same : source.take pos = part.take pos
  reader : f.source.rest = source.drop pos
  partReader : p.rest = part.drop pos
  hasher : f.hasher = f₀.hasher.map fun _ => source.take pos
  temp : f.temp = f₀.temp
  sink : f.sink = f₀.sink

structure Decided (source part : Bytes) (f₀ : Files) (v : Verdict) (f : Files) (offset : ℕ) : Prop where
  start : v.start = startAt offset
  lePart : offset ≤ part.length
  same : source.take offset = part.take offset
  rest : v.carry ++ f.source.rest = source.drop offset
  hasher : f.hasher = f₀.hasher.map fun _ => source.take offset
  temp : f.temp = f₀.temp
  sink : f.sink = f₀.sink
  aligned : offset % chunkSize = 0 ∨ offset = source.length

def chunkEnd (len k : ℕ) : ℕ := min (k * chunkSize) len

lemma chunkEnd_aligned (len k : ℕ) : chunkEnd len k % chunkSize = 0 ∨ chunkEnd len k = len := by
  rw [chunkEnd]
  rcases le_total (k * chunkSize) len with h | h
  · exact .inl (by rw [min_eq_left h, Nat.mul_mod_left])
  · exact .inr (min_eq_right h)

lemma chunkEnd_succ {len k : ℕ} (h : k * chunkSize < len) :
    chunkEnd len (k + 1) = k * chunkSize + min (len - k * chunkSize) chunkSize := by
  rw [chunkEnd, Nat.succ_mul]
  omega

variable {p : Input}

lemma Validated.kept {k : ℕ} (h : Validated source part f₀ f p pos) (hk : pos = chunkEnd source.length k)
    (shorter : Bool) (proven : List Digest) : Decided source part f₀ (.kept pos shorter proven) f pos where
  start := rfl
  lePart := h.lePart
  same := h.same
  rest := h.reader
  hasher := h.hasher
  temp := h.temp
  sink := h.sink
  aligned := hk ▸ chunkEnd_aligned _ _

lemma Validated.mismatch {r : Input} {k n : ℕ} (h : Validated source part f₀ f p pos)
    (hk : pos = chunkEnd source.length k) (hr : r.rest = f.source.rest.drop n) (proven : List Digest) :
    Decided source part f₀ (.mismatch pos (f.source.rest.take n) proven) { f with source := r } pos where
  start := rfl
  lePart := h.lePart
  same := h.same
  rest := by
    rw [← h.reader]
    exact (congrArg _ hr).trans (List.take_append_drop _ _)
  hasher := h.hasher
  temp := h.temp
  sink := h.sink
  aligned := hk ▸ chunkEnd_aligned _ _

lemma Validated.advance {p' r : Input} {n : ℕ} (h : Validated source part f₀ f p pos)
    (hs : pos + n ≤ source.length) (hp : pos + n ≤ part.length) (hr : r.rest = f.source.rest.drop n)
    (hp' : p'.rest = p.rest.drop n) (he : f.source.rest.take n = p.rest.take n) : Validated source part f₀
      { f with source := r, hasher := f.hasher.map (· ++ f.source.rest.take n) } p' (pos + n) where
  le := hs
  lePart := hp
  same := by
    rw [List.take_add, List.take_add, h.same, ← h.reader, ← h.partReader, he]
  reader := by
    rw [← List.drop_drop, ← h.reader]
    exact hr
  partReader := by rw [hp', h.partReader, List.drop_drop]
  hasher := by
    simp only
    rw [h.hasher, h.reader, Option.map_map]
    congr 1
    funext x
    exact List.take_add.symm
  temp := h.temp
  sink := h.sink

variable {blake3 : Bytes → Digest}

lemma CollisionFree.eq_of_hashesTo (hc : CollisionFree blake3 source part) {i n : ℕ} {d : Digest}
    (hs : hashesTo blake3 d n ((source.drop i).take n)) (hp : hashesTo blake3 d n ((part.drop i).take n)) :
    (source.drop i).take n = (part.drop i).take n := by
  simp only [hashesTo, decide_eq_true_eq] at hs hp
  have hi : ∀ bs : Bytes, (bs.drop i).take n <:+: bs := fun bs =>
    (List.take_prefix _ _).isInfix.trans (List.drop_suffix _ _).isInfix
  exact hc (.inl (hi _)) (.inr (hi _)) (hs.2.trans hp.2.symm)

lemma yields_decideLoop (hc : CollisionFree blake3 source part) (digests : AList fun _ : UInt64 => Digest)
    (n k : ℕ)
    (p : Input) (shorter : Bool) (h : Validated source part f₀ f p pos) (hk : pos = chunkEnd source.length k) :
    Yields (decideLoop blake3 digests source.length part.length n k p pos shorter) f
      (fun v f' => ∃ offset, Decided source part f₀ v f' offset) fun _ _ => True := by
  induction n generalizing k p pos f with
  | zero => exact Ensures.pure ⟨pos, h.kept hk _ _⟩
  | succ n ih =>
    rw [decideLoop]
    split
    · exact Ensures.pure ⟨pos, h.kept hk _ _⟩
    next recorded _ =>
    dsimp only
    split
    · exact Ensures.pure ⟨pos, h.kept hk _ _⟩
    next hlt =>
    split
    · exact Ensures.pure ⟨pos, h.kept hk _ _⟩
    next hpart =>
    have hpos : k * chunkSize = pos := by
      rw [hk, chunkEnd]
      omega
    rw [hpos] at hpart ⊢
    refine yields_beat_readSource fun r hr => ?_
    split
    · exact Ensures.pure ⟨pos, h.mismatch hk hr _⟩
    next q p' hq =>
    obtain ⟨rfl, hp'⟩ := ByteStream.readFull_ok hq
    split
    · next hh =>
      rw [h.reader, h.partReader] at hh
      have he := hc.eq_of_hashesTo hh.1 hh.2
      rw [← h.reader, ← h.partReader] at he
      refine Ensures.bind (Yields.setFiles (Q := fun _ f' => f' = _) rfl) ?_
      rintro - f' rfl
      refine ih _ _ (h.advance (by omega) (by omega) hr hp' he) ?_
      rw [chunkEnd_succ (by omega), hpos]
    · exact Ensures.pure ⟨pos, h.mismatch hk hr _⟩

lemma yields_decide (hc : CollisionFree blake3 source part) (state : FileState) {gate : Gate}
    (hg : gate.len = source.length) (h : Validated source part f₀ f p 0) {partialLen : Option ℕ}
    (hl : ∀ n, partialLen = some n → n = part.length) {reader : Option Input} (hr : ∀ q, reader = some q → q = p) :
    Yields (decide blake3 state gate partialLen reader) f
      (fun v f' => ∃ offset, Decided source part f₀ v f' offset) fun _ _ => True := by
  have fresh : ∀ d, Decided source part f₀ (.fresh d) f 0 := fun d =>
    ⟨rfl, h.lePart, h.same, h.reader, h.hasher, h.temp, h.sink, .inl (Nat.zero_mod _)⟩
  rw [decide.eq_def]
  split
  · exact Ensures.pure ⟨0, fresh _⟩
  split
  · exact Ensures.pure ⟨0, fresh _⟩
  split
  · exact Ensures.pure ⟨0, fresh _⟩
  split
  · next n q =>
    obtain rfl := hl n rfl
    obtain rfl := hr q rfl
    split
    · exact Ensures.pure ⟨0, fresh _⟩
    · rw [hg]
      exact yields_decideLoop hc _ _ _ _ _ h (by simp [chunkEnd])
  · exact Ensures.pure ⟨0, fresh _⟩

lemma yields_decideFullLoop (hc : CollisionFree blake3 source part) (n k : ℕ) (p : Input) (proven : List Digest)
    (h : Validated source part f₀ f p pos) (hk : pos = chunkEnd source.length k)
    (hn : n = divCeil source.length chunkSize - k) :
    Yields (decideFullLoop blake3 source.length part.length n k p pos proven) f
      (fun v f' => ∃ offset, Decided source part f₀ v f' offset) fun _ _ => True := by
  induction n generalizing k p pos f proven with
  | zero => exact Ensures.pure ⟨pos, h.kept hk _ _⟩
  | succ n ih =>
    have hlt : k * chunkSize < source.length := by
      rw [divCeil, chunkSize] at hn
      rw [chunkSize]
      omega
    have hpos : k * chunkSize = pos := by
      rw [hk, chunkEnd]
      omega
    rw [decideFullLoop, hpos]
    split
    · exact Ensures.pure ⟨pos, h.kept hk _ _⟩
    next hpart =>
    refine yields_beat_readSource fun r hr => ?_
    split
    · exact Ensures.pure ⟨pos, h.mismatch hk hr _⟩
    next q p' hq =>
    obtain ⟨rfl, hp'⟩ := ByteStream.readFull_ok hq
    split
    · next hh =>
      rw [h.reader, h.partReader] at hh
      have he := hc.eq_of_hashesTo (by simp [hashesTo]) hh.2
      rw [← h.reader, ← h.partReader] at he
      refine Ensures.bind (Yields.setFiles (Q := fun _ f' => f' = _) rfl) ?_
      rintro - f' rfl
      refine ih _ _ _ (h.advance (by omega) (by omega) hr hp' he) ?_ (by omega)
      rw [chunkEnd_succ hlt, hpos]
    · exact Ensures.pure ⟨pos, h.mismatch hk hr _⟩

lemma yields_decideFull (hc : CollisionFree blake3 source part) (h : Validated source part f₀ f p 0) :
    Yields (decideFull blake3 source.length part.length p) f
      (fun v f' => ∃ offset, Decided source part f₀ v f' offset) fun _ _ => True :=
  yields_decideFullLoop hc _ _ _ _ h (by simp [chunkEnd]) rfl

end Decided

end Flux.Copy
