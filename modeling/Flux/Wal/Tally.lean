import Flux.Wal.Flushing

namespace Flux.Wal

open Base

variable {Dup : Type}

def State.pendingSum (s : State) : ℕ := (s.pending.map fun p => Loop.rangeBytes p.2).sum

namespace Loop

def abandon (l : Loop Dup) : Loop Dup :=
  ⟨{ l.state with pending := [], dups := [], abandoned := true }, fun _ => none, [], l.count⟩

def handled (blake3 : Bytes → Digest) (t : Turn Dup) (m : Msg Dup) (l : Loop Dup) : Loop Dup :=
  { (l.receive blake3 t.asked m).1 with count := l.count + 1 }

def ended (blake3 : Bytes → Digest) (t : Turn Dup) (l : Loop Dup) : Loop Dup :=
  if l.state.abandoned || t.abandoned then l.abandon
  else match t.received with
    | .message m => l.handled blake3 t m
    | _ => l.abandon

def left (blake3 : Bytes → Digest) (flushBytes : ℕ) (t : Turn Dup) (l : Loop Dup) : Loop Dup :=
  (l.turn blake3 flushBytes t).1.getD (l.ended blake3 t)

def after (blake3 : Bytes → Digest) (flushBytes : ℕ) : List (Turn Dup) → Loop Dup → Loop Dup
  | [], l => l
  | t :: ts, l => (l.turn blake3 flushBytes t).1.elim (l.ended blake3 t) (after blake3 flushBytes ts)

end Loop

structure Flushing (Dup : Type) where
  answers : FlushAnswers Dup
  found : Loop Dup

namespace Flushing

variable (blake3 : Bytes → Digest) (f : Flushing Dup)

def events : List (Event Dup) := (f.found.flush blake3 f.answers).2

def appended : List Queued := appends (f.events blake3)

def SegmentFails : Prop :=
  let s := f.found.state
  f.appended blake3 ≠ [] ∧ (f.answers.write.isSome ∨
    maxFileLen < (s.segment.getD []).length +
      (encodeAll blake3 (State.numbered s.operationId s.generation s.nextSeq
      ((f.appended blake3).map Queued.body))).length ∨
    s.durability = .strict ∧ f.answers.syncWal.isSome)

end Flushing

namespace Loop

def asks (l : Loop Dup) : Msg Dup → Bool
  | .flush | .drain | .stop => true
  | .close id _ => l.state.pending.any (·.1 = id)
  | _ => false

def dueFlush (blake3 : Bytes → Digest) (flushBytes : ℕ) (t : Turn Dup) (m : Msg Dup) (l : Loop Dup) :
    List (Flushing Dup) :=
  if stops m ∨ l.skips m ∨ ¬ (l.handled blake3 t m).isDue flushBytes t.timerDue then []
  else [⟨t.due, l.handled blake3 t m⟩]

def turnFlushes (blake3 : Bytes → Digest) (flushBytes : ℕ) (t : Turn Dup) (l : Loop Dup) : List (Flushing Dup) :=
  if l.state.abandoned || t.abandoned then []
  else match t.received with
    | .disconnected => []
    | .timeout => [⟨t.asked, l⟩]
    | .message m => (if l.asks m then [⟨t.asked, l⟩] else []) ++ l.dueFlush blake3 flushBytes t m

def flushes (blake3 : Bytes → Digest) (flushBytes : ℕ) : List (Turn Dup) → Loop Dup → List (Flushing Dup)
  | [], _ => []
  | t :: ts, l => l.turnFlushes blake3 flushBytes t ++
      (l.turn blake3 flushBytes t).1.elim [] (flushes blake3 flushBytes ts)

end Loop

namespace State

structure Counted (s : State) : Prop where
  bytes : s.pendingBytes = min s.pendingSum (2 ^ 64 - 1)
  first : s.firstPending = true ↔ s.pending ≠ []

structure Tallied (s : State) : Prop where
  bytes : s.pendingBytes = s.pendingSum
  first : s.firstPending = true ↔ s.pending ≠ []
  small : s.pendingSum < 2 ^ 64

structure Cleared (s : State) : Prop where
  pending : s.pending = []
  bytes : s.pendingBytes = 0
  first : s.firstPending = false

variable {s : State}

lemma Cleared.tallied (h : s.Cleared) : s.Tallied := by
  have hs : s.pendingSum = 0 := by
    rw [pendingSum, h.pending]
    rfl
  refine ⟨h.bytes.trans hs.symm, ?_, hs ▸ Nat.two_pow_pos 64⟩
  rw [h.first, h.pending]
  simp

lemma Tallied.counted (h : s.Tallied) : s.Counted := by
  have := h.small
  exact ⟨by rw [h.bytes]; omega, h.first⟩

lemma Counted.cleared (h : s.Counted) (hp : s.pending = []) : s.Cleared := by
  refine ⟨hp, ?_, ?_⟩
  · rw [h.bytes, pendingSum, hp]
    rfl
  · simpa [hp] using h.first

lemma cleared_append (blake3 : Bytes → Digest) (b : Answers) (h : s.Cleared) (bodies : List Body) :
    (append blake3 b s bodies).Cleared := by
  simp only [append]
  split
  · exact ⟨rfl, rfl, rfl⟩
  · split
    · split
      · exact ⟨rfl, rfl, rfl⟩
      · exact ⟨h.pending, h.bytes, h.first⟩
    · exact ⟨rfl, rfl, rfl⟩

lemma FlushStep.cleared {blake3 : Bytes → Digest} {b : Answers} {s' : State} (h : FlushStep blake3 b s s')
    (hc : s.Counted) (ha : s.abandoned = false) : s'.Cleared := by
  cases h with
  | abandoned hab =>
    rw [ha] at hab
    cases hab
  | dead _ => exact ⟨rfl, rfl, rfl⟩
  | empty hp => exact hc.cleared hp
  | unfit _ hj =>
    obtain ⟨f, rfl⟩ := hj.same
    exact ⟨rfl, rfl, rfl⟩
  | unopened _ _ e => exact ⟨rfl, rfl, rfl⟩
  | appended _ hj _ =>
    obtain ⟨f, rfl⟩ := hj.same
    apply cleared_append
    exact ⟨rfl, rfl, rfl⟩

lemma FlushStep.abandoned_eq {blake3 : Bytes → Digest} {b : Answers} {s' : State} (h : FlushStep blake3 b s s') :
    s'.abandoned = s.abandoned := by
  cases h with
  | abandoned _ => rfl
  | dead _ => rfl
  | empty _ => rfl
  | unfit _ hj =>
    obtain ⟨f, rfl⟩ := hj.same
    rfl
  | unopened _ hj e =>
    obtain ⟨f, rfl⟩ := hj.same
    rfl
  | appended _ hj _ =>
    obtain ⟨f, rfl⟩ := hj.same
    exact (extends_append blake3 b _ _).abandoned

lemma pendingSum_push (s : State) (id : Bytes) (body : Body) (bytes : ℕ) :
    (s.push id body bytes).pendingSum = s.pendingSum + Loop.rangeBytes body := by
  simp [pendingSum, push]

lemma Tallied.push (h : s.Tallied) (id : Bytes) (body : Body) :
    (s.push id body (Loop.rangeBytes body)).Counted := by
  refine ⟨?_, ?_⟩
  · rw [pendingSum_push, ← h.bytes]
    rfl
  · have hf := h.first
    by_cases hp : s.pending = []
    · simp [State.push, hp]
    · simp [State.push, hf.mpr hp]

lemma Tallied.congr {s' : State} (h : s.Tallied) (hp : s'.pending = s.pending)
    (hb : s'.pendingBytes = s.pendingBytes) (hf : s'.firstPending = s.firstPending) : s'.Tallied := by
  have hs : s'.pendingSum = s.pendingSum := by rw [pendingSum, pendingSum, hp]
  exact ⟨by rw [hb, hs, h.bytes], by rw [hf, hp]; exact h.first, by rw [hs]; exact h.small⟩

end State

lemma sum_rangeBytes_filter (id : Bytes) (ps : List (Bytes × Body)) :
    ((ps.filter (·.1 = id)).map fun p => Loop.rangeBytes p.2).sum +
      ((ps.filter (·.1 ≠ id)).map fun p => Loop.rangeBytes p.2).sum =
      (ps.map fun p => Loop.rangeBytes p.2).sum := by
  induction ps with
  | nil => rfl
  | cons p ps ih =>
    by_cases hp : p.1 = id
    · simp [hp] at ih ⊢
      omega
    · simp [hp] at ih ⊢
      omega

lemma tallied_dropPending {l : Loop Dup} (h : l.state.Tallied) (id : Bytes) :
    (l.dropPending id).state.Tallied := by
  have hsum := sum_rangeBytes_filter id l.state.pending
  have hbytes := h.bytes
  have hsmall := h.small
  rw [State.pendingSum] at hbytes hsmall
  refine ⟨?_, ?_, ?_⟩
  · simp only [Loop.dropPending, State.pendingSum, hbytes]
    omega
  · have hf := h.first
    simp only [Loop.dropPending]
    split
    · next hk => exact ⟨fun hn => absurd hn Bool.false_ne_true, fun hn => absurd hk hn⟩
    · next hk =>
      have hp : l.state.pending ≠ [] := fun hp => hk (by rw [hp]; rfl)
      exact ⟨fun _ => hk, fun _ => hf.mpr hp⟩
  · simp only [Loop.dropPending, State.pendingSum]
    omega

section Pass

variable (blake3 : Bytes → Digest) {l : Loop Dup} {m : Msg Dup} {a : FlushAnswers Dup} {t : Turn Dup}

lemma flush_entering (ha : (l.flush blake3 a).1.state.abandoned = false) : (l.entering a).abandoned = false := by
  rw [← (State.flush_step blake3 (a.on l.handle) _).abandoned_eq]
  exact ha

lemma flush_not_abandoned (ha : (l.flush blake3 a).1.state.abandoned = false) : l.state.abandoned = false := by
  have he := flush_entering blake3 ha
  rw [Loop.entering, Bool.or_eq_false_iff] at he
  exact he.1

lemma cleared_loop_flush (h : l.state.Counted) (ha : (l.flush blake3 a).1.state.abandoned = false) :
    (l.flush blake3 a).1.state.Cleared :=
  (State.flush_step blake3 (a.on l.handle) (l.entering a)).cleared ⟨h.bytes, h.first⟩ (flush_entering blake3 ha)

lemma receive_counted (h : l.state.Tallied) (ha : (l.receive blake3 a m).1.state.abandoned = false) :
    (l.receive blake3 a m).1.state.Counted := by
  have hflush : (l.flush blake3 a).1.state.abandoned = false → (l.flush blake3 a).1.state.Tallied := fun ha =>
    (cleared_loop_flush blake3 h.counted ha).tallied
  cases m with
  | fileBegin f dup =>
    simp only [Loop.receive] at ha ⊢
    split
    · exact h.counted
    · exact (h.congr rfl rfl rfl : ((l.register f.fileId dup).forgive f.fileId).state.Tallied).push
        _ (.fileBegin f)
  | range r =>
    simp only [Loop.receive] at ha ⊢
    split
    · exact h.counted
    · exact h.push _ (.range r)
  | flush => exact (hflush ha).counted
  | close id ack =>
    simp only [Loop.receive] at ha ⊢
    split at ha
    · next hp =>
      rw [if_pos hp]
      exact ⟨(hflush ha).counted.bytes, (hflush ha).first⟩
    · next hp =>
      rw [if_neg hp]
      exact ⟨h.counted.bytes, h.first⟩
  | discard id =>
    have hd := tallied_dropPending h id
    exact ⟨hd.counted.bytes, hd.first⟩
  | drain => exact (hflush ha).counted
  | stop => exact ⟨(hflush ha).counted.bytes, (hflush ha).first⟩

lemma receive_skips (h : l.skips m = true) : l.receive blake3 a m = (l, []) := by
  cases m with
  | fileBegin f dup => exact if_pos h
  | range r => exact if_pos h
  | _ => cases h

lemma tallied_of_not_due {flushBytes : ℕ} (hb : flushBytes < 2 ^ 64) {timerDue : Bool} (h : l.state.Counted)
    (hd : ¬ l.isDue flushBytes timerDue) : l.state.Tallied := by
  simp only [Loop.isDue, decide_eq_true_eq, not_or, not_le] at hd
  have hbytes := h.bytes
  exact ⟨by omega, h.first, by omega⟩

lemma left_tallied {flushBytes : ℕ} (hb : flushBytes < 2 ^ 64) (h : l.state.abandoned = false → l.state.Tallied)
    (ha : (l.left blake3 flushBytes t).state.abandoned = false) :
    (l.left blake3 flushBytes t).state.Tallied := by
  rw [Loop.left, Loop.turn, Loop.ended] at ha ⊢
  by_cases hab : (l.state.abandoned || t.abandoned) = true
  · rw [if_pos hab, if_pos hab] at ha
    cases ha
  rw [if_neg hab] at ha ⊢
  rw [if_neg hab] at ha ⊢
  have hl : l.state.Tallied := h (by
    rw [Bool.or_eq_true, not_or, Bool.not_eq_true] at hab
    exact hab.1)
  cases hr : t.received with
  | disconnected =>
    rw [hr] at ha
    cases ha
  | timeout =>
    rw [hr] at ha
    exact (cleared_loop_flush blake3 hl.counted ha).tallied
  | message m =>
    simp only [hr, Loop.message] at ha ⊢
    by_cases hs : Loop.stops m = true
    · rw [if_pos hs] at ha ⊢
      obtain rfl : m = .stop := by cases m <;> first | rfl | cases hs
      exact (cleared_loop_flush blake3 hl.counted ha).tallied.congr rfl rfl rfl
    rw [if_neg hs] at ha ⊢
    by_cases hk : l.skips m = true
    · rw [if_pos hk] at ha ⊢
      rw [receive_skips blake3 hk]
      exact hl.congr rfl rfl rfl
    rw [if_neg hk] at ha ⊢
    split at ha
    · next hd =>
      rw [if_pos hd]
      exact (cleared_loop_flush blake3 (receive_counted blake3 hl (flush_not_abandoned blake3 ha)) ha).tallied
    · next hd =>
      rw [if_neg hd]
      exact tallied_of_not_due hb (receive_counted blake3 hl ha) hd

end Pass

end Flux.Wal
