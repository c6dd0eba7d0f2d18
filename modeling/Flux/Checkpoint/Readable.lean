import Flux.Checkpoint.Agree
import Flux.Wal.Canonical

namespace Flux.Checkpoint

open Base Wal Copy

variable {Dup : Type} {blake3 : Bytes → Digest} {s : Sink Dup}

section Rules

variable {Q : Unit → Sink Dup → Prop} {E : SinkError → Sink Dup → Prop}

lemma wp_ask (hq : ∀ as, Q () { s with answers := as }) (he : ∀ e as, E e { s with answers := as }) :
    wp ask Q E s := by
  simp only [ask, wp_bind, wp_get]
  split
  · exact hq s.answers
  · rw [wp_bind, wp_set]
    split
    · exact hq _
    · exact he _ _

lemma wp_send {m : Msg Dup} (hq : ∀ as, Q () { s with sent := s.sent ++ [m], answers := as })
    (he : ∀ e as, E e { s with answers := as }) : wp (send m) Q E s := by
  rw [send, wp_bind]
  exact wp_ask (fun as => hq as) he

lemma wp_sendRange {stop : ℕ} (hn : s.digests = [] → Q () s)
    (hq : s.digests ≠ [] → ∀ as, Q () { s with
      digests := [], rangeStart := stop, answers := as,
      sent := s.sent ++ [.range (rangeOf s.fileId s.rangeStart stop s.digests)] })
    (he : s.digests ≠ [] → ∀ e as, E e { s with digests := [], rangeStart := stop, answers := as }) :
    wp (sendRange stop) Q E s := by
  simp only [sendRange, wp_bind, wp_get, wp_ite]
  refine ⟨hn, fun hd => ?_⟩
  rw [wp_set]
  exact wp_send (hq hd) (he hd)

end Rules

attribute [local irreducible] chunkSize

lemma rangeOf_wellFormed (fileId : Bytes) {i stop : ℕ} {digests : List Digest} (hs : i * chunkSize < stop)
    (hc : divCeil (stop - i * chunkSize) chunkSize = digests.length) (hb : stop < 2 ^ 64) :
    (rangeOf fileId (i * chunkSize) stop digests).WellFormed := by
  have hstart : (UInt64.ofNat (i * chunkSize)).toNat = i * chunkSize := UInt64.toNat_ofNat_of_lt' (hs.trans hb)
  have hstop : (UInt64.ofNat stop).toNat = stop := UInt64.toNat_ofNat_of_lt' hb
  refine ⟨?_, ?_, ?_⟩
  · simp only [rangeOf, hstart]
    exact Nat.mul_mod_left i chunkSize
  · simp only [rangeOf, UInt64.lt_iff_toNat_lt, hstart, hstop]
    exact hs
  · simp only [rangeOf, hstart, hstop, hc]

structure Closed (I : List (Msg Dup) → Prop) : Prop where
  range : ∀ {sent r}, I sent → r.WellFormed → I (sent ++ [.range r])
  other : ∀ {sent m}, I sent → (∀ r, m ≠ .range r) → I (sent ++ [m])

variable {I : List (Msg Dup) → Prop}

structure Aligned (I : List (Msg Dup) → Prop) (i : ℕ) (s : Sink Dup) : Prop where
  sent : I s.sent
  start : ∃ k, s.rangeStart = k * chunkSize ∧ k + s.digests.length = i

variable {buffers : List Bytes} {r : Wal.Range}

section Aligned

variable {i : ℕ}

lemma Aligned.range_wellFormed (h : Aligned I i s) (hd : s.digests ≠ []) {stop : ℕ}
    (hl : i * chunkSize < stop + chunkSize) (hu : stop ≤ i * chunkSize) (hb : stop < 2 ^ 64) :
    (rangeOf s.fileId s.rangeStart stop s.digests).WellFormed := by
  obtain ⟨k, hk, hi⟩ := h.start
  obtain ⟨n, hn⟩ : ∃ n, s.digests.length = n + 1 := Nat.exists_eq_succ_of_ne_zero (by simpa using hd)
  rw [← hi, hn] at hl hu
  simp only [Nat.add_mul, Nat.one_mul] at hl hu
  rw [hk]
  refine rangeOf_wellFormed s.fileId (by omega) ?_ hb
  rw [hn]
  apply divCeil_eq
  · omega
  · rw [Nat.add_mul]
    omega

lemma aligned_gather (hI : Closed I) {done : List (ℕ × Digest)} (hn : ChunkHasher.Numbered i done)
    (h : Aligned I i s) (hb : (i + done.length) * chunkSize < 2 ^ 64) :
    wp (gather done) (fun _ t => Aligned I (i + done.length) t ∧ t.hasher = s.hasher) (fun _ t => I t.sent) s := by
  induction done generalizing i s with
  | nil => exact ⟨h, rfl⟩
  | cons p rest ih =>
    obtain ⟨j, digest⟩ := p
    obtain ⟨rfl, hn⟩ : j = i ∧ ChunkHasher.Numbered (i + 1) rest := hn
    obtain ⟨k, hk, hi⟩ := h.start
    have hpush : Aligned I (j + 1) { s with digests := s.digests ++ [digest] } :=
      ⟨h.sent, k, hk, by rw [List.length_append, ← Nat.add_assoc, hi]; rfl⟩
    have hlen : j + 1 + rest.length = j + (rest.length + 1) := by omega
    have hle : (j + 1) * chunkSize ≤ (j + (rest.length + 1)) * chunkSize := Nat.mul_le_mul_right _ (by omega)
    rw [List.length_cons] at hb ⊢
    have hnext : ∀ t : Sink Dup, Aligned I (j + 1) t → t.hasher = s.hasher →
        wp (do ask; gather rest) (fun _ u => Aligned I (j + (rest.length + 1)) u ∧ u.hasher = s.hasher)
          (fun _ u => I u.sent) t := by
      intro t ht hh
      rw [wp_bind]
      refine wp_ask (fun as => ?_) fun _ _ => ht.sent
      rw [← hlen] at hb ⊢
      exact wp_mono (ih (s := { t with answers := as }) hn ⟨ht.sent, ht.start⟩ hb)
        (fun _ u hu => ⟨hu.1, hu.2.trans hh⟩) fun _ _ hu => hu
    rw [gather, wp_bind, wp_modify, wp_bind, wp_get, wp_bind, wp_ite]
    refine ⟨fun _ => ?_, fun _ => hnext _ hpush rfl⟩
    refine wp_sendRange (fun hd => by simp at hd) (fun hd as => ?_) fun _ _ _ => h.sent
    apply hnext
    · refine ⟨hI.range h.sent ?_, j + 1, rfl, rfl⟩
      exact hpush.range_wellFormed hd (by have := chunkSize_pos; omega) le_rfl (by omega)
    · rfl

lemma index_mul_le (h : ChunkHasher) : h.index * chunkSize ≤ h.bytesSeen := Nat.le_add_right _ _

lemma aligned_wrote (hI : Closed I) {bytes : Bytes} (h : Aligned I s.hasher.index s)
    (hb : s.hasher.bytesSeen + bytes.length < 2 ^ 64) :
    wp (wrote blake3 bytes) (fun _ t => Aligned I t.hasher.index t ∧
      t.hasher.bytesSeen = s.hasher.bytesSeen + bytes.length) (fun _ t => I t.sent) s := by
  obtain ⟨hn, hi, hbytes⟩ := s.hasher.update_spec blake3 bytes
  have hle := index_mul_le (s.hasher.update blake3 bytes).2
  rw [hi, hbytes] at hle
  simp only [wrote, wp_bind, wp_get, wp_set]
  refine wp_mono (aligned_gather hI hn ⟨h.sent, h.start⟩ (by omega)) ?_ fun _ _ ht => ht
  rintro _ t ⟨ht, hh⟩
  rw [hh, hi, hbytes]
  exact ⟨ht, rfl⟩

lemma aligned_wroteAll (hI : Closed I) (h : Aligned I s.hasher.index s)
    (hb : s.hasher.bytesSeen + buffers.flatten.length < 2 ^ 64) :
    wp (wroteAll blake3 buffers) (fun _ t => Aligned I t.hasher.index t ∧
      t.hasher.bytesSeen = s.hasher.bytesSeen + buffers.flatten.length) (fun _ t => I t.sent) s := by
  induction buffers generalizing s with
  | nil => exact ⟨h, by simp⟩
  | cons bytes rest ih =>
    rw [List.flatten_cons, List.length_append] at hb ⊢
    rw [wroteAll, wp_bind]
    refine wp_mono (aligned_wrote hI h (by omega)) ?_ fun _ _ ht => ht
    rintro _ t ⟨ht, hs⟩
    refine wp_mono (ih ht (by omega)) ?_ fun _ _ hu => hu
    rintro _ u ⟨hu, hs'⟩
    exact ⟨hu, by omega⟩

lemma sent_close (hI : Closed I) (fileId : Bytes) (h : I s.sent) :
    wp (do send (.close fileId true); ask) (fun _ t => I t.sent) (fun _ t => I t.sent) s := by
  have hc := hI.other (m := .close fileId true) h fun _ => nofun
  rw [wp_bind]
  exact wp_send (fun _ => wp_ask (fun _ => hc) fun _ _ => hc) fun _ _ => h

lemma aligned_complete (hI : Closed I) (h : Aligned I s.hasher.index s) (hb : s.hasher.bytesSeen < 2 ^ 64) :
    wp (complete blake3) (fun _ t => I t.sent) (fun _ t => I t.sent) s := by
  have hshort := s.hasher.short
  simp only [complete, wp_bind, wp_get, wp_set]
  refine wp_sendRange (fun _ => ?_) (fun hd as => ?_) fun _ _ _ => h.sent
  · exact sent_close hI s.fileId h.sent
  · refine sent_close hI s.fileId (hI.range h.sent ?_)
    rw [ChunkHasher.finish] at hd ⊢
    by_cases hp : s.hasher.pending = []
    · rw [if_pos hp, Option.toList_none, List.append_nil] at hd ⊢
      have hs : s.hasher.bytesSeen = s.hasher.index * chunkSize := by simp [ChunkHasher.bytesSeen, hp]
      rw [hs]
      exact h.range_wellFormed hd (by have := chunkSize_pos; omega) le_rfl (by omega)
    · rw [if_neg hp, Option.toList_some] at hd ⊢
      have hpos := List.length_pos_of_ne_nil hp
      obtain ⟨k, hk, hi⟩ := h.start
      have hlast : Aligned I (s.hasher.index + 1) { s with digests := s.digests ++ [blake3 s.hasher.pending] } :=
        ⟨h.sent, k, hk, by rw [List.length_append, ← Nat.add_assoc, hi]; rfl⟩
      have hle : s.hasher.bytesSeen = s.hasher.index * chunkSize + s.hasher.pending.length := rfl
      exact hlast.range_wellFormed hd (by rw [Nat.add_mul]; omega) (by rw [Nat.add_mul]; omega) hb

end Aligned

lemma proven_wellFormed (fileId : Bytes) {g k validThrough : ℕ} {piece : List Digest} (hk : piece.length = k + 1)
    (hl : (g + k) * chunkSize < validThrough) (hv : validThrough < 2 ^ 64) :
    (rangeOf fileId (g * chunkSize) (min (g * chunkSize + piece.length * chunkSize) validThrough)
      piece).WellFormed := by
  have hc := chunkSize_pos
  have hm : (k + 1) * chunkSize = k * chunkSize + chunkSize := Nat.succ_mul k chunkSize
  rw [Nat.add_mul] at hl
  have hlt : g * chunkSize < min (g * chunkSize + piece.length * chunkSize) validThrough := by
    rw [hk, hm]
    omega
  refine rangeOf_wellFormed fileId hlt ?_ (by omega)
  rw [hk]
  apply divCeil_eq
  · rw [hm]
    omega
  · omega

lemma sent_sendProven (hI : Closed I) {perRange validThrough : ℕ} (fileId : Bytes) (hp : 0 < perRange)
    (hv : validThrough < 2 ^ 64) (group : ℕ) (xs : List Digest)
    (hx : xs = [] ∨ group * perRange + xs.length = divCeil validThrough chunkSize) (hs : I s.sent) :
    wp (sendProven fileId perRange validThrough group (piecesOf (perRange - 1) xs))
      (fun _ t => I t.sent ∧ ∃ sent as, t = { s with sent := sent, answers := as }) (fun _ t => I t.sent) s := by
  induction hm : xs.length using Nat.strong_induction_on generalizing xs group s with
  | _ m ih =>
    subst hm
    rw [piecesOf]
    split
    · exact ⟨hs, s.sent, s.answers, rfl⟩
    · next hne =>
      have hx := hx.resolve_left hne
      have hpos := List.length_pos_of_ne_nil hne
      rw [Nat.sub_add_cancel hp]
      have hpiece : (xs.take perRange).length = min perRange xs.length := List.length_take
      have hrest : (xs.drop perRange).length = xs.length - perRange := List.length_drop
      obtain ⟨k, hk⟩ : ∃ k, (xs.take perRange).length = k + 1 := Nat.exists_eq_succ_of_ne_zero (by omega)
      have hlast : (group * perRange + k) * chunkSize < validThrough := lt_divCeil_iff.mp (by omega)
      simp only [sendProven, wp_bind]
      refine wp_send (fun as => ?_) fun _ _ => hs
      have hsent := hI.range hs (proven_wellFormed fileId hk hlast hv)
      have hnext : xs.drop perRange = [] ∨
          (group + 1) * perRange + (xs.drop perRange).length = divCeil validThrough chunkSize := by
        by_cases hl : perRange ≤ xs.length
        · right
          rw [hrest, Nat.succ_mul]
          omega
        · exact .inl (List.drop_of_length_le (by omega))
      refine wp_mono (ih (xs.drop perRange).length (by omega) (group + 1) (xs.drop perRange) hnext
        (s := { s with answers := as, sent := _ }) hsent rfl) ?_
        fun _ _ ht => ht
      rintro _ t ⟨ht, sent, as', rfl⟩
      exact ⟨ht, sent, as', rfl⟩

namespace Feed

variable {f : Feed Dup} {answers : List (Option SinkError)}

def Fresh (I : List (Msg Dup) → Prop) (f : Feed Dup) (s : Sink Dup) : Prop :=
  I s.sent ∧ ∃ sent answers, s = { f.sink answers with sent := sent }

lemma stream_fed (hI : Closed I) (h : f.Accepted) (h0 : I []) {Q : Unit → Sink Dup → Prop}
    {E : SinkError → Sink Dup → Prop} (he : ∀ e t, I t.sent → E e t)
    (hq : ∀ t, Fresh I f t → wp (do wroteAll blake3 f.buffers; complete blake3) Q E t) :
    wp (f.stream blake3) Q E (f.sink answers) := by
  have hc := chunkSize_pos
  have hv : f.validThrough < 2 ^ 64 := (divCeil_le_iff.mp le_rfl).trans_lt
    ((Nat.le_add_right _ _).trans_lt h.bounded)
  rw [stream, wp_bind]
  refine wp_send (fun as => ?_) fun e _ => he e _ h0
  have hbegin : I ([] ++ [.fileBegin f.begin f.dup]) := hI.other h0 (by simp)
  rw [wp_bind, wp_ite]
  refine ⟨fun _ => hq _ ⟨hbegin, _, as, rfl⟩, fun hne => ?_⟩
  simp only [recordProven, wp_bind, wp_get]
  refine wp_mono (sent_sendProven hI f.fileId (lt_max_of_lt_right Nat.one_pos) hv 0 f.proven ?_ hbegin) ?_ he
  · exact .inr (by rw [Nat.zero_mul, Nat.zero_add]; exact h.proven.resolve_left hne)
  · rintro _ t ⟨ht, sent, as', rfl⟩
    exact hq _ ⟨ht, sent, as', rfl⟩

def AllWellFormed (sent : List (Msg Dup)) : Prop := ∀ r, Msg.range r ∈ sent → r.WellFormed

lemma closed_allWellFormed : Closed (@AllWellFormed Dup) where
  range h hr r hm := by
    rcases List.mem_append.mp hm with hm | hm
    · exact h r hm
    · cases List.mem_singleton.mp hm
      exact hr
  other h hm r hr := by
    rcases List.mem_append.mp hr with hr | hr
    · exact h r hr
    · exact absurd (List.mem_singleton.mp hr).symm (hm r)

lemma fresh_aligned (hb : f.validThrough % chunkSize = 0) {t : Sink Dup} (ht : Fresh I f t) :
    Aligned I t.hasher.index t := by
  obtain ⟨hs, sent, as, rfl⟩ := ht
  have hm : f.validThrough = f.validThrough / chunkSize * chunkSize :=
    (Nat.div_mul_cancel (Nat.dvd_of_mod_eq_zero hb)).symm
  refine ⟨hs, f.validThrough / chunkSize, hm, ?_⟩
  change f.validThrough / chunkSize = divCeil f.validThrough chunkSize
  apply le_antisymm
  · exact Nat.div_le_div_right (by have := chunkSize_pos; omega)
  · exact divCeil_le_iff.mpr hm.le

lemma wroteAll_empty (hn : buffers.flatten = []) {Q : Unit → Sink Dup → Prop} {E : SinkError → Sink Dup → Prop}
    (hq : Q () s) : wp (wroteAll blake3 buffers) Q E s := by
  induction buffers with
  | nil => exact hq
  | cons bytes rest ih =>
    obtain ⟨rfl, hr⟩ : bytes = [] ∧ rest.flatten = [] := by simpa using hn
    have hu : s.hasher.update blake3 [] = ([], s.hasher) := by
      rw [ChunkHasher.update]
      exact dif_pos rfl
    simp only [wroteAll, wp_bind, wrote, wp_get, wp_set, hu, gather, wp_pure]
    exact ih hr

lemma allWellFormed_stream (blake3 : Bytes → Digest) (answers : List (Option SinkError)) (h : f.Accepted)
    (hb : f.validThrough % chunkSize = 0 ∨ f.buffers.flatten = []) :
    wp (f.stream blake3) (fun _ t => AllWellFormed t.sent) (fun _ t => AllWellFormed t.sent) (f.sink answers) := by
  have hI := @closed_allWellFormed Dup
  refine stream_fed hI h (fun _ => nofun) (fun _ _ ht => ht) fun t ht => ?_
  rw [wp_bind]
  rcases hb with hb | hn
  · have hseen : t.hasher.bytesSeen = divCeil f.validThrough chunkSize * chunkSize := by
      obtain ⟨-, sent, as, rfl⟩ := ht
      exact Nat.add_zero _
    have hbound := h.bounded
    refine wp_mono (aligned_wroteAll hI (fresh_aligned hb ht) (by omega)) ?_ fun _ _ hu => hu
    rintro _ u ⟨hu, hs⟩
    exact aligned_complete hI hu (by omega)
  · obtain ⟨hs, sent, as, rfl⟩ := ht
    apply wroteAll_empty hn
    have hlen : (sink f as).digests ++ ((sink f as).hasher.finish blake3).toList = [] := rfl
    simp only [complete, wp_bind, wp_get, wp_set]
    refine wp_sendRange (fun _ => ?_) (fun hd => absurd hlen hd) fun hd => absurd hlen hd
    exact sent_close hI f.fileId hs

def firstCount (f : Feed Dup) : ℕ := min (max f.rangeChunks 1) (divCeil f.buffers.flatten.length chunkSize)

structure Stray (f : Feed Dup) (r : Wal.Range) : Prop where
  fileId : r.fileId = f.fileId
  start : r.rangeStart = UInt64.ofNat f.validThrough
  count : r.digests.length = f.firstCount

def OnlyStray (f : Feed Dup) (sent : List (Msg Dup)) : Prop :=
  ∀ r, Msg.range r ∈ sent → r.WellFormed ∨ f.Stray r

def HasStray (f : Feed Dup) (sent : List (Msg Dup)) : Prop :=
  f.OnlyStray sent ∧ ∃ r, Msg.range r ∈ sent ∧ f.Stray r

lemma OnlyStray.concat {sent : List (Msg Dup)} {m : Msg Dup} (h : f.OnlyStray sent)
    (hm : ∀ r, m = .range r → r.WellFormed ∨ f.Stray r) : f.OnlyStray (sent ++ [m]) := by
  intro r hr
  rcases List.mem_append.mp hr with hr | hr
  · exact h r hr
  · exact hm r (List.mem_singleton.mp hr).symm

lemma closed_onlyStray : Closed f.OnlyStray where
  range h hr := h.concat fun _ he => .inl (Msg.range.inj he ▸ hr)
  other h hm := h.concat fun r he => absurd he (hm r)

lemma closed_hasStray : Closed f.HasStray where
  range h hr := ⟨closed_onlyStray.range h.1 hr, h.2.imp fun _ hs => ⟨List.mem_append_left _ hs.1, hs.2⟩⟩
  other h hm := ⟨closed_onlyStray.other h.1 hm, h.2.imp fun _ hs => ⟨List.mem_append_left _ hs.1, hs.2⟩⟩

lemma OnlyStray.hasStray {sent : List (Msg Dup)} (h : f.OnlyStray sent) (hr : f.Stray r) :
    f.HasStray (sent ++ [.range r]) :=
  ⟨h.concat fun _ he => .inr (Msg.range.inj he ▸ hr), r, List.mem_append_right _ List.mem_cons_self, hr⟩

structure Waiting (f : Feed Dup) (i : ℕ) (s : Sink Dup) : Prop where
  sent : f.OnlyStray s.sent
  fileId : s.fileId = f.fileId
  policy : s.rangeChunks = f.rangeChunks
  start : s.rangeStart = f.validThrough
  kept : divCeil f.validThrough chunkSize + s.digests.length = i
  room : s.digests.length < max f.rangeChunks 1

lemma Waiting.stray {i : ℕ} (h : f.Waiting i s) (stop : ℕ) {digests : List Digest}
    (hc : digests.length = f.firstCount) : f.Stray (rangeOf s.fileId s.rangeStart stop digests) :=
  ⟨h.fileId, congrArg UInt64.ofNat h.start, hc⟩

variable {i : ℕ}

lemma waiting_gather {done : List (ℕ × Digest)} (h : f.Accepted) (hn : ChunkHasher.Numbered i done)
    (hw : f.Waiting i s)
    (hf : (i + done.length) * chunkSize ≤ divCeil f.validThrough chunkSize * chunkSize +
      f.buffers.flatten.length) :
    wp (gather done) (fun _ t => (Aligned f.HasStray (i + done.length) t ∨ f.Waiting (i + done.length) t) ∧
      t.hasher = s.hasher) (fun _ t => f.OnlyStray t.sent) s := by
  induction done generalizing i s with
  | nil => exact ⟨.inr hw, rfl⟩
  | cons p rest ih =>
    obtain ⟨j, digest⟩ := p
    obtain ⟨rfl, hn⟩ : j = i ∧ ChunkHasher.Numbered (i + 1) rest := hn
    have hlen : j + 1 + rest.length = j + (rest.length + 1) := by omega
    have hroom := hw.room
    have hkept := hw.kept
    have hbound := h.bounded
    rw [List.length_cons, ← hlen] at hf ⊢
    have hcount : (s.digests ++ [digest]).length = s.digests.length + 1 := List.length_append
    rw [gather, wp_bind, wp_modify, wp_bind, wp_get, wp_bind, wp_ite]
    refine ⟨fun hfull => ?_, fun hless => ?_⟩
    · replace hfull : max s.rangeChunks 1 ≤ (s.digests ++ [digest]).length := hfull
      rw [hcount, hw.policy] at hfull
      have hle : (j + 1) * chunkSize ≤ (j + 1 + rest.length) * chunkSize := Nat.mul_le_mul_right _ (by omega)
      have hfed : s.digests.length * chunkSize < f.buffers.flatten.length := by
        have hpos := chunkSize_pos
        have hsplit : (j + 1) * chunkSize =
            divCeil f.validThrough chunkSize * chunkSize + s.digests.length * chunkSize + chunkSize := by
          rw [← hkept, Nat.succ_mul, Nat.add_mul]
        omega
      have hfirst : (s.digests ++ [digest]).length = f.firstCount := by
        have := lt_divCeil_iff.mpr hfed
        rw [firstCount, hcount]
        omega
      have hsent := hw.sent.hasStray (hw.stray ((j + 1) * chunkSize) hfirst)
      refine wp_sendRange (fun hd => by simp at hd) (fun _ as => ?_) fun _ _ _ => hw.sent
      rw [wp_bind]
      refine wp_ask (fun as' => ?_) fun _ _ => hsent.1
      refine wp_mono (aligned_gather closed_hasStray hn ⟨hsent, j + 1, rfl, rfl⟩ (by omega)) ?_ fun _ _ ht => ht.1
      rintro _ t ⟨ht, hh⟩
      exact ⟨.inl ht, hh⟩
    · replace hless : ¬ max s.rangeChunks 1 ≤ (s.digests ++ [digest]).length := hless
      rw [hcount, hw.policy] at hless
      rw [wp_pure, wp_bind]
      refine wp_ask (fun as => ?_) fun _ _ => hw.sent
      refine ih hn ⟨hw.sent, hw.fileId, hw.policy, hw.start, ?_, ?_⟩ hf
      · rw [hcount]
        omega
      · rw [hcount]
        omega

lemma stray_wroteAll (h : f.Accepted) (hw : Aligned f.HasStray s.hasher.index s ∨ f.Waiting s.hasher.index s)
    (hf : s.hasher.bytesSeen + buffers.flatten.length =
      divCeil f.validThrough chunkSize * chunkSize + f.buffers.flatten.length) :
    wp (wroteAll blake3 buffers) (fun _ t => (Aligned f.HasStray t.hasher.index t ∨ f.Waiting t.hasher.index t) ∧
      t.hasher.bytesSeen = s.hasher.bytesSeen + buffers.flatten.length) (fun _ t => f.OnlyStray t.sent) s := by
  have hbound := h.bounded
  induction buffers generalizing s with
  | nil => exact ⟨hw, by simp⟩
  | cons bytes rest ih =>
    rw [List.flatten_cons, List.length_append] at hf ⊢
    have hwrote : wp (wrote blake3 bytes) (fun _ t => (Aligned f.HasStray t.hasher.index t ∨
        f.Waiting t.hasher.index t) ∧ t.hasher.bytesSeen = s.hasher.bytesSeen + bytes.length)
        (fun _ t => f.OnlyStray t.sent) s := by
      rcases hw with hw | hw
      · refine wp_mono (aligned_wrote closed_hasStray hw (by omega)) ?_ fun _ _ ht => ht.1
        exact fun _ t ht => ⟨.inl ht.1, ht.2⟩
      · obtain ⟨hn, hi, hbytes⟩ := s.hasher.update_spec blake3 bytes
        have hle := index_mul_le (s.hasher.update blake3 bytes).2
        rw [hi, hbytes] at hle
        have hw' : f.Waiting s.hasher.index { s with hasher := (s.hasher.update blake3 bytes).2 } :=
          ⟨hw.sent, hw.fileId, hw.policy, hw.start, hw.kept, hw.room⟩
        simp only [wrote, wp_bind, wp_get, wp_set]
        refine wp_mono (waiting_gather h hn hw' (by omega)) ?_ fun _ _ ht => ht
        rintro _ t ⟨ht, hh⟩
        rw [hh, hi, hbytes]
        exact ⟨ht, rfl⟩
    rw [wroteAll, wp_bind]
    refine wp_mono hwrote ?_ fun _ _ ht => ht
    rintro _ t ⟨ht, hs⟩
    refine wp_mono (ih ht (by omega)) ?_ fun _ _ hu => hu
    rintro _ u ⟨hu, hs'⟩
    exact ⟨hu, by omega⟩

lemma waiting_complete (hw : f.Waiting s.hasher.index s) (hne : f.buffers.flatten ≠ [])
    (hf : s.hasher.bytesSeen = divCeil f.validThrough chunkSize * chunkSize + f.buffers.flatten.length) :
    wp (complete blake3) (fun _ t => f.HasStray t.sent) (fun _ t => f.OnlyStray t.sent) s := by
  have hpos := List.length_pos_of_ne_nil hne
  have hshort := s.hasher.short
  have hroom := hw.room
  have hfed : s.digests.length * chunkSize + s.hasher.pending.length = f.buffers.flatten.length := by
    rw [ChunkHasher.bytesSeen, ← hw.kept, Nat.add_mul] at hf
    omega
  have hcount : (s.digests ++ (s.hasher.finish blake3).toList).length = f.firstCount := by
    rw [ChunkHasher.finish, firstCount, ← hfed]
    by_cases hp : s.hasher.pending = []
    · have hd : divCeil (s.digests.length * chunkSize + s.hasher.pending.length) chunkSize = s.digests.length := by
        rw [hp, List.length_nil, Nat.add_zero]
        exact le_antisymm (divCeil_le_iff.mpr le_rfl)
          (Nat.le_of_mul_le_mul_right (divCeil_le_iff.mp le_rfl) chunkSize_pos)
      rw [hd, if_pos hp, Option.toList_none, List.append_nil]
      omega
    · have hp' := List.length_pos_of_ne_nil hp
      have hd : divCeil (s.digests.length * chunkSize + s.hasher.pending.length) chunkSize =
        s.digests.length + 1 :=
        divCeil_eq (by omega) (by rw [Nat.succ_mul]; omega)
      rw [hd, if_neg hp, Option.toList_some, List.length_append, List.length_singleton]
      omega
  have hsome : s.digests ++ (s.hasher.finish blake3).toList ≠ [] := by
    have hc := lt_divCeil_iff.mpr (show 0 * chunkSize < f.buffers.flatten.length by omega)
    rw [firstCount] at hcount
    apply List.ne_nil_of_length_pos
    omega
  simp only [complete, wp_bind, wp_get, wp_set]
  refine wp_sendRange (fun hd => absurd hd hsome) (fun _ as => ?_) fun _ _ _ => hw.sent
  refine wp_mono (sent_close closed_hasStray s.fileId ?_) (fun _ _ ht => ht) fun _ _ ht => ht.1
  exact hw.sent.hasStray (hw.stray _ hcount)

lemma hasStray_stream (blake3 : Bytes → Digest) (answers : List (Option SinkError)) (h : f.Accepted)
    (hne : f.buffers.flatten ≠ []) :
    wp (f.stream blake3) (fun _ t => f.HasStray t.sent) (fun _ t => f.OnlyStray t.sent) (f.sink answers) := by
  refine stream_fed closed_onlyStray h (fun _ => nofun) (fun _ _ ht => ht) fun t ht => ?_
  have hseen : t.hasher.bytesSeen = divCeil f.validThrough chunkSize * chunkSize := by
    obtain ⟨-, sent, as, rfl⟩ := ht
    exact Nat.add_zero _
  have hw : f.Waiting t.hasher.index t := by
    obtain ⟨hs, sent, as, rfl⟩ := ht
    exact ⟨hs, rfl, rfl, rfl, Nat.add_zero _, lt_max_of_lt_right Nat.one_pos⟩
  have hbound := h.bounded
  rw [wp_bind]
  refine wp_mono (stray_wroteAll h (.inr hw) (by rw [hseen])) ?_ fun _ _ hu => hu
  rintro _ u ⟨hu | hu, hs⟩
  · exact wp_mono (aligned_complete closed_hasStray hu (by omega)) (fun _ _ hv => hv) fun _ _ hv => hv.1
  · exact waiting_complete hu hne (by omega)

end Feed

def Quiet {α : Type} (x : SinkAct Dup α) : Prop :=
  ∀ s, s.answers = [] → wp x (fun _ t => t.answers = []) (fun _ _ => False) s

lemma Quiet.bind {α β : Type} {x : SinkAct Dup α} {g : α → SinkAct Dup β} (hx : Quiet x) (hg : ∀ a, Quiet (g a)) :
    Quiet (x >>= g) := by
  intro s hs
  rw [wp_bind]
  exact wp_mono (hx s hs) (fun a t ht => hg a t ht) fun _ _ ht => ht

lemma Quiet.get {β : Type} {g : Sink Dup → SinkAct Dup β}
    (hg : ∀ s, s.answers = [] → wp (g s) (fun _ t => t.answers = []) (fun _ _ => False) s) :
    Quiet (get >>= g) := by
  intro s hs
  rw [wp_bind, wp_get]
  exact hg s hs

lemma Quiet.pure : Quiet (pure () : SinkAct Dup Unit) := fun _ hs => hs

lemma Quiet.ite {c : Prop} [Decidable c] {x y : SinkAct Dup Unit} (hx : Quiet x) (hy : Quiet y) :
    Quiet (if c then x else y) := by
  split
  · exact hx
  · exact hy

lemma quiet_ask : Quiet (ask : SinkAct Dup Unit) := by
  intro s hs
  simp only [ask, wp_bind, wp_get, hs]
  exact hs

lemma quiet_send (m : Msg Dup) : Quiet (send m) := quiet_ask.bind fun _ _ hs => hs

lemma quiet_sendRange (stop : ℕ) : Quiet (sendRange stop : SinkAct Dup Unit) := by
  refine Quiet.get fun s hs => ?_
  rw [wp_ite]
  exact ⟨fun _ => hs, fun _ => quiet_send _ _ hs⟩

lemma quiet_gather (done : List (ℕ × Digest)) : Quiet (gather done : SinkAct Dup Unit) := by
  induction done with
  | nil => exact Quiet.pure
  | cons p rest ih =>
    refine Quiet.bind (fun _ hs => hs) fun _ => Quiet.get fun s hs => ?_
    exact (Quiet.ite (quiet_sendRange _) Quiet.pure).bind (fun _ => quiet_ask.bind fun _ => ih) s hs

lemma quiet_wroteAll (buffers : List Bytes) : Quiet (wroteAll blake3 buffers : SinkAct Dup Unit) := by
  induction buffers with
  | nil => exact Quiet.pure
  | cons bytes rest ih =>
    have hwrote : Quiet (wrote blake3 bytes : SinkAct Dup Unit) := by
      refine Quiet.get fun s hs => ?_
      rw [wp_bind, wp_set]
      exact quiet_gather _ _ hs
    exact hwrote.bind fun _ => ih

lemma quiet_sendProven (fileId : Bytes) (perRange validThrough group : ℕ) (pieces : List (List Digest)) :
    Quiet (sendProven fileId perRange validThrough group pieces : SinkAct Dup Unit) := by
  induction pieces generalizing group with
  | nil => exact Quiet.pure
  | cons piece rest ih => exact (quiet_send _).bind fun _ => ih (group + 1)

lemma quiet_complete : Quiet (complete blake3 : SinkAct Dup Unit) := by
  refine Quiet.get fun s hs => ?_
  exact (quiet_sendRange _).bind (fun _ => (quiet_send _).bind fun _ => quiet_ask) _ hs

lemma quiet_stream (blake3 : Bytes → Digest) (f : Feed Dup) : Quiet (f.stream blake3) := by
  refine (quiet_send _).bind fun _ => Quiet.bind (Quiet.ite Quiet.pure ?_) fun _ => ?_
  · exact Quiet.get fun _ hs => quiet_sendProven _ _ _ _ _ _ hs
  · exact (quiet_wroteAll _).bind fun _ => quiet_complete

def Readable (blake3 : Bytes → Digest) (r : Wal.Range) : Prop :=
  ∀ (h : Header) (rest : Bytes), h.operationId.length < 65536 → (payload (.range r)).length ≤ maxPayload →
    ∃ len sum, decodeNext blake3 (encode blake3 h (.range r) ++ rest) = .record h (.range r) len sum

lemma readable_of_wellFormed (hr : r.WellFormed) : Readable blake3 r := by
  intro h rest ho hm
  refine ⟨_, _, decodeNext_encode blake3 rest ho ⟨hm, ?_⟩⟩
  rintro _ ⟨⟩
  exact hr

lemma decodeNext_unaligned (blake3 : Bytes → Digest) (hr : r.rangeStart.toNat % chunkSize ≠ 0) {h : Header}
    (rest : Bytes) (ho : h.operationId.length < 65536) (hm : (payload (.range r)).length ≤ maxPayload) :
    decodeNext blake3 (encode blake3 h (.range r) ++ rest) = .corrupt "range_start is not chunk aligned" := by
  have ht : typeRange ≠ typeFileBegin := by decide
  rw [decodeNext_fitting blake3 rest ho hm]
  simp only [recordType, parseBody, if_neg ht, if_true, parseRange_payload hm, if_pos hr]
  rfl

lemma payload_range_length (r : Wal.Range) :
    (payload (.range r)).length = 32 + r.fileId.length + 32 * r.digests.length := by
  simp only [payload, putBytes, List.length_append, le_length, digests_length]
  omega

lemma Feed.exists_unreadable (blake3 : Bytes → Digest) {f : Feed Dup} (h : f.Accepted)
    (hoff : f.validThrough % chunkSize ≠ 0) (hne : f.buffers.flatten ≠ [])
    (hfit : 32 + f.fileId.length + 32 * f.firstCount ≤ maxPayload) :
    ∃ r, Msg.range r ∈ f.sent blake3 [] ∧ ¬ Readable blake3 r := by
  have hv : f.validThrough < 2 ^ 64 :=
    (divCeil_le_iff.mp le_rfl).trans_lt ((Nat.le_add_right _ _).trans_lt h.bounded)
  obtain ⟨r, hr, hs⟩ : ∃ r, Msg.range r ∈ f.sent blake3 [] ∧ f.Stray r := by
    have hq := quiet_stream blake3 f (f.sink []) rfl
    have hstray := Feed.hasStray_stream blake3 [] h hne
    rw [Feed.sent]
    rw [wp] at hq hstray
    rcases hx : f.stream blake3 (f.sink []) with ⟨e | a, t⟩
    · rw [hx] at hq
      exact hq.elim
    · rw [hx] at hstray
      exact hstray.2
  have hm : (payload (.range r)).length ≤ maxPayload := by
    rw [payload_range_length, hs.fileId, hs.count]
    exact hfit
  have hstart : r.rangeStart.toNat % chunkSize ≠ 0 := by
    rw [hs.start, UInt64.toNat_ofNat_of_lt' hv]
    exact hoff
  refine ⟨r, hr, fun hread => ?_⟩
  obtain ⟨len, sum, hd⟩ := hread ⟨[], 0, 0⟩ [] (by decide) hm
  rw [decodeNext_unaligned blake3 hstart [] (by decide) hm] at hd
  cases hd

lemma Feed.all_readable (blake3 : Bytes → Digest) {f : Feed Dup} (h : f.Accepted)
    (hc : f.validThrough % chunkSize = 0 ∨ f.buffers.flatten = [] ∨
      maxPayload < 32 + f.fileId.length + 32 * f.firstCount)
    (answers : List (Option SinkError)) (r : Wal.Range) (hr : Msg.range r ∈ f.sent blake3 answers) :
    Readable blake3 r := by
  by_cases hb : f.validThrough % chunkSize = 0 ∨ f.buffers.flatten = []
  · have hall := Feed.allWellFormed_stream blake3 answers h hb
    exact readable_of_wellFormed (wp_state hall (fun _ _ ht => ht) (fun _ _ ht => ht) r hr)
  · rw [not_or] at hb
    have hfit := (hc.resolve_left hb.1).resolve_left hb.2
    have hall := Feed.hasStray_stream blake3 answers h hb.2
    rcases wp_state hall (fun _ _ ht => ht.1) (fun _ _ ht => ht) r hr with hw | hs
    · exact readable_of_wellFormed hw
    · intro _ _ _ hm
      rw [payload_range_length, hs.fileId, hs.count] at hm
      omega

/-- Every range a file's sink sends is read back from its record, unless bytes follow a source length that is
not a chunk boundary: the first range of those bytes then starts inside a chunk. So it is when a worker hashes
them. -/
theorem ranges_readable_iff (blake3 : Bytes → Digest) (f : Feed Dup) (h : f.Accepted) :
    ((∀ answers r, Msg.range r ∈ f.sent blake3 answers → Readable blake3 r) ↔
      f.validThrough % chunkSize = 0 ∨ f.buffers.flatten = [] ∨
        maxPayload < 32 + f.fileId.length + 32 * f.firstCount) ∧
    ∀ carry s, f.Reaches blake3 carry s → s.main = .closed → f.buffers = carry :: s.submitted →
      ((∀ r, Msg.range r ∈ s.sent → Readable blake3 r) ↔
        ∀ answers r, Msg.range r ∈ f.sent blake3 answers → Readable blake3 r) := by
  have hiff : (∀ r, Msg.range r ∈ f.sent blake3 [] → Readable blake3 r) ↔
      f.validThrough % chunkSize = 0 ∨ f.buffers.flatten = [] ∨
        maxPayload < 32 + f.fileId.length + 32 * f.firstCount := by
    refine ⟨fun hall => ?_, fun hc => f.all_readable blake3 h hc []⟩
    by_contra hn
    rw [not_or, not_or, not_lt] at hn
    obtain ⟨r, hr, hbad⟩ := f.exists_unreadable blake3 h hn.1 hn.2.1 hn.2.2
    exact hbad (hall r hr)
  have hanswers : (∀ answers r, Msg.range r ∈ f.sent blake3 answers → Readable blake3 r) ↔
      ∀ r, Msg.range r ∈ f.sent blake3 [] → Readable blake3 r :=
    ⟨fun hall => hall [], fun hall => f.all_readable blake3 h (hiff.mp hall)⟩
  refine ⟨hanswers.trans hiff, fun carry s hs hm hb => ?_⟩
  rw [hanswers, hs.sent hm, ← hb]
  rfl

end Flux.Checkpoint

namespace Flux.Checkpoint

open Base Wal

def grown : Feed Unit :=
  ⟨[7], [100], ⟨5, .file, none, none, FileIdentity.unavailable, none⟩, 5, none, 64, [zeroHash []], [[1]]⟩

lemma grown_accepted : grown.Accepted := ⟨.inr rfl, .inr (by decide), by decide⟩

lemma grown_sent (blake3 : Bytes → Digest) :
    Msg.range (rangeOf [7] 5 1048577 [blake3 [1]]) ∈ grown.sent blake3 [] := by
  have hc : divCeil 5 chunkSize = 1 := by decide
  have hupdate := (ChunkHasher.fromChunk 1).update_of_short blake3 [1] (by decide)
  have h : wp (grown.stream blake3) (fun _ t => Msg.range (rangeOf [7] 5 1048577 [blake3 [1]]) ∈ t.sent)
      (fun _ _ => False) (grown.sink []) := by
    simp [Feed.stream, send, ask, Feed.sink, grown, recordProven, piecesOf, sendProven, wroteAll, wrote, gather,
      complete, sendRange, hc, hupdate, ChunkHasher.finish]
    exact .inr rfl
  exact wp_state h (fun _ _ ht => ht) fun _ _ => False.elim

theorem grown_corrupt : grown.Accepted ∧ ∀ blake3 : Bytes → Digest,
    Msg.range (rangeOf [7] 5 1048577 [blake3 [1]]) ∈ grown.sent blake3 [] ∧
      decodeNext blake3 (encode blake3 ⟨[111], 1, 3⟩ (.range (rangeOf [7] 5 1048577 [blake3 [1]]))) =
        .corrupt "range_start is not chunk aligned" := by
  refine ⟨grown_accepted, fun blake3 => ⟨grown_sent blake3, ?_⟩⟩
  have hstart : (UInt64.ofNat 5).toNat % chunkSize ≠ 0 := by decide
  have hm : (payload (.range (rangeOf [7] 5 1048577 [blake3 [1]]))).length ≤ maxPayload := by
    rw [payload_range_length]
    simp [rangeOf, maxPayload]
  have h := decodeNext_unaligned blake3 (h := ⟨[111], 1, 3⟩) hstart [] (by decide) hm
  rw [List.append_nil] at h
  exact h

theorem ranges_readable_iff_grown : grown.Accepted ∧
    (¬ ∀ answers r, Msg.range r ∈ grown.sent zeroHash answers → Readable zeroHash r) ∧
    ∃ s, (grown.with [[], [1]]).Reaches zeroHash [] s ∧ s.main = .closed ∧
      ¬ ∀ r, Msg.range r ∈ s.sent → Readable zeroHash r := by
  have haccepted : (grown.with [[], [1]]).Accepted := ⟨.inr rfl, .inr (by decide), by decide⟩
  have hinline : ¬ ∀ answers r, Msg.range r ∈ grown.sent zeroHash answers → Readable zeroHash r := by
    rw [(ranges_readable_iff zeroHash grown grown_accepted).1]
    decide
  obtain ⟨hiff, hworker⟩ := ranges_readable_iff zeroHash (grown.with [[], [1]]) haccepted
  obtain ⟨s, hs, hm, hsubmitted⟩ := (grown.with [[], [1]]).reaches_closed zeroHash [] [1] []
  refine ⟨grown_accepted, hinline, s, hs, hm, ?_⟩
  rw [hworker [] s hs hm (by rw [hsubmitted]; rfl), hiff]
  decide

end Flux.Checkpoint
