import Flux.Wal.Appending
import Flux.Wal.Canonical
import Mathlib.Order.Bounds.Basic

/-! Any number of runs over one segment, each ended by a crash that keeps some bytes of what it appended. -/

namespace Flux.Wal

open Base

def whole (blake3 : Bytes → Digest) : List Entry → ℕ → List Entry
  | [], _ => []
  | e :: es, n => if entryLen blake3 e ≤ n then e :: whole blake3 es (n - entryLen blake3 e) else []

structure Flush where
  bodies : List Body
  wellFormed : ∀ b ∈ bodies, b.WellFormed
  dups : List Bytes
  answers : Answers

def Flush.apply (blake3 : Bytes → Digest) (s : State) (f : Flush) : State :=
  State.flush blake3 f.answers { s with pending := f.bodies.map fun b => (b.fileId, b), dups := f.dups }

/-- One run of the writer: how its scan's reads arrive, the lists it flushes, and how many bytes of what it
appended its crash keeps. -/
structure Run where
  generation : UInt64
  durability : Durability
  reads : List (Delivery IoError)
  flushes : List Flush
  kept : ℕ
  dirLeft : Bool

structure Left where
  workspace : Workspace
  appended : List Entry
  onDisk : ℕ

def Run.crash (r : Run) (identity : FileIdentity) (base : ℕ) (s : State) : Left :=
  match s.segment with
  | none => ⟨if r.dirLeft then some none else none, s.appended, 0⟩
  | some bytes =>
    ⟨some (some ⟨bytes.take (base + r.kept), identity⟩), s.appended, (bytes.take (base + r.kept)).length - base⟩

def Run.exec (blake3 : Bytes → Digest) (operationId : Bytes) (identity : FileIdentity) (ws : Workspace) (r : Run) :
    Except WalError Left := do
  let o ← openWriter blake3 ws operationId r.generation r.reads fun _ => none
  let s := r.flushes.foldl (Flush.apply blake3) (o.state operationId r.generation r.durability)
  return r.crash identity (o.segment.getD []).length s

/-- The workspaces reachable from none by runs of one operation with non-decreasing generations, with the
records that lie wholly on disk, in the order they were appended, and the last generation. -/
inductive History (blake3 : Bytes → Digest) (operationId : Bytes) (identity : FileIdentity) :
    Workspace → List Entry → UInt64 → Prop
  | start : History blake3 operationId identity none [] 0
  | run {ws : Workspace} {log : List Entry} {g : UInt64} {r : Run} {l : Left}
      (h : History blake3 operationId identity ws log g) (hg : g ≤ r.generation)
      (hr : r.exec blake3 operationId identity ws = .ok l) :
      History blake3 operationId identity l.workspace (log ++ whole blake3 l.appended l.onDisk) r.generation

def WholePrefix (blake3 : Bytes → Digest) (bytes : Bytes) (n : ℕ) : Prop :=
  n ≤ bytes.length ∧ ∃ es : List Entry, (∀ e ∈ es, e.1.operationId.length ≤ 65535 ∧ e.2.WellFormed) ∧
    bytes.take n = encodeAll blake3 es

def scanned (blake3 : Bytes → Digest) (bytes : Bytes) : List Entry :=
  match _hd : decodeNext blake3 bytes with
  | .record h b len _ => (h, b) :: scanned blake3 (bytes.drop len)
  | _ => []
termination_by bytes.length
decreasing_by
  have := decodeNext_record _hd
  simp only [List.length_drop]
  omega

structure Recovered (blake3 : Bytes → Digest) (bytes : Bytes) (log : List Entry) (s : Scan) : Prop where
  longest : IsGreatest { n | WholePrefix blake3 bytes n } s.validLen
  whole : bytes.take s.validLen = encodeAll blake3 log
  records : scanned blake3 bytes = log
  last : s.last = lastPair none log
  index : ∀ f, s.perFile.lookup f = extend none (offsets blake3 f 0 log)
  increasing : (log.map pairOf).Pairwise Before
  starts : ∀ xs e ys, log = xs ++ e :: ys → (∀ x ∈ xs, x.1.generation ≠ e.1.generation) → e.1.sequence = 1

section Whole

variable {blake3 : Bytes → Digest} {operationId : Bytes} {es : List Entry}

def Cut (blake3 : Bytes → Digest) (q : Bytes) : Prop :=
  decodeNext blake3 q = .endOfLog ∨ decodeNext blake3 q = .tornTail

lemma cut_nil : Cut blake3 [] := .inl (if_pos rfl)

lemma take_encodeAll (ho : operationId.length < 65536) (hl : ∀ e ∈ es, Legible operationId e) (n : ℕ) :
    ∃ q, (encodeAll blake3 es).take n = encodeAll blake3 (whole blake3 es n) ++ q ∧ Cut blake3 q := by
  induction es generalizing n with
  | nil => exact ⟨[], by simp [encodeAll, whole], cut_nil⟩
  | cons e es ih =>
    have he := hl e List.mem_cons_self
    rw [encodeAll_cons, whole]
    split
    · next h =>
      obtain ⟨q, hq, hc⟩ := ih (fun x hx => hl x (List.mem_cons_of_mem _ hx)) (n - entryLen blake3 e)
      refine ⟨q, ?_, hc⟩
      rw [encodeAll_cons, List.append_assoc, ← hq, entryLen, List.take_append,
        List.take_of_length_le (by rwa [entryLen] at h)]
    · next h =>
      rw [entryLen] at h
      refine ⟨(encode blake3 e.1 e.2).take n, ?_, ?_⟩
      · rw [List.take_append_of_le_length (by omega)]
        rfl
      · refine decodeNext_cut (he.op ▸ ho) he.body (List.take_append_drop n _).symm ?_
        intro hn
        have := congrArg List.length hn
        simp only [List.length_drop, List.length_nil] at this
        omega

lemma scanned_encodeAll (ho : operationId.length < 65536) (hl : ∀ e ∈ es, Legible operationId e) {q : Bytes}
    (hq : Cut blake3 q) : scanned blake3 (encodeAll blake3 es ++ q) = es := by
  induction es with
  | nil =>
    rw [encodeAll, List.map_nil, List.flatten_nil, List.nil_append, scanned]
    split
    · next hd => rcases hq with hq | hq <;> rw [hq] at hd <;> cases hd
    · rfl
  | cons e es ih =>
    have he := hl e List.mem_cons_self
    have hd := decodeNext_encode blake3 (h := e.1) (encodeAll blake3 es ++ q) (he.op ▸ ho) he.body
    rw [encodeAll_cons, List.append_assoc, scanned]
    split
    · next h b len sum hd' =>
      rw [hd] at hd'
      cases hd'
      rw [List.drop_left, ih fun x hx => hl x (List.mem_cons_of_mem _ hx)]
    · next hn => exact absurd hd (hn _ _ _ _)

lemma wholePrefix_le (ho : operationId.length < 65536) (hl : ∀ e ∈ es, Legible operationId e) {q : Bytes}
    (hq : Cut blake3 q) {n : ℕ} (hn : WholePrefix blake3 (encodeAll blake3 es ++ q) n) :
    n ≤ (encodeAll blake3 es).length := by
  obtain ⟨hle, xs, hx, he⟩ := hn
  have hlen : n = (encodeAll blake3 xs).length := by rw [← he, List.length_take_of_le hle]
  have hs : ∃ t, encodeAll blake3 es ++ q = encodeAll blake3 xs ++ t :=
    ⟨_, by rw [← he, List.take_append_drop]⟩
  rw [hlen]
  clear he hle hlen
  induction xs generalizing es with
  | nil => exact Nat.zero_le _
  | cons x xs ih =>
    obtain ⟨t, ht⟩ := hs
    obtain ⟨hxo, hxb⟩ := hx x List.mem_cons_self
    have hd := decodeNext_encode blake3 (h := x.1) (encodeAll blake3 xs ++ t) (Nat.lt_succ_of_le hxo) hxb
    rw [← List.append_assoc, ← encodeAll_cons, ← ht] at hd
    cases es with
    | nil =>
      rw [encodeAll, List.map_nil, List.flatten_nil, List.nil_append] at hd
      rcases hq with hq | hq <;> rw [hq] at hd <;> cases hd
    | cons e es =>
      have hel := hl e List.mem_cons_self
      have hd' := decodeNext_encode blake3 (h := e.1) (encodeAll blake3 es ++ q) (hel.op ▸ ho) hel.body
      rw [← List.append_assoc, ← encodeAll_cons, hd] at hd'
      have heq : x = e := by
        rw [Decoded.record.injEq] at hd'
        exact Prod.ext hd'.1 hd'.2.1
      subst heq
      rw [encodeAll_cons, encodeAll_cons, List.append_assoc, List.append_assoc] at ht
      have := ih (fun y hy => hl y (List.mem_cons_of_mem _ hy)) (fun y hy => hx y (List.mem_cons_of_mem _ hy))
        ⟨t, List.append_cancel_left ht⟩
      simp only [encodeAll_cons, List.length_append]
      omega

end Whole

variable {blake3 : Bytes → Digest} {operationId : Bytes} {identity : FileIdentity} {ws : Workspace}
  {log : List Entry} {g generation : UInt64}

open Wal.State in
lemma whole_numbered (bs : List Body) (seq : UInt64) (n : ℕ) :
    ∃ k, whole blake3 (numbered operationId generation seq bs) n =
      numbered operationId generation seq (bs.take k) := by
  induction bs generalizing seq n with
  | nil => exact ⟨0, rfl⟩
  | cons b bs ih =>
    rw [numbered, whole]
    split
    · obtain ⟨k, hk⟩ := ih (seq + 1) (n - entryLen blake3 (⟨operationId, generation, seq⟩, b))
      exact ⟨k + 1, by rw [hk]; rfl⟩
    · exact ⟨0, rfl⟩

structure Sound (blake3 : Bytes → Digest) (operationId : Bytes) (identity : FileIdentity) (ws : Workspace)
    (log : List Entry) (g : UInt64) : Prop where
  legible : ∀ e ∈ log, Legible operationId e
  ordered : Ordered none log
  below : ∀ q, lastPair none log = some q → q.1 ≤ g
  absent : ws.segment = none → log = []
  present : ∀ seg, ws.segment = some seg → seg.identity = identity ∧ seg.bytes.length ≤ maxFileLen ∧
    ∃ q, seg.bytes = encodeAll blake3 log ++ q ∧ Cut blake3 q

lemma Sound.length_le (h : Sound blake3 operationId identity ws log g) :
    (encodeAll blake3 log).length ≤ maxFileLen := by
  cases hs : ws.segment with
  | none =>
    rw [h.absent hs]
    exact Nat.zero_le _
  | some seg =>
    obtain ⟨-, hl, q, hq, -⟩ := h.present seg hs
    rw [hq, List.length_append] at hl
    omega

lemma Sound.chooseSeq (h : Sound blake3 operationId identity ws log g) (hg : g ≤ generation) :
    ∃ seq, chooseSeq generation (lastPair none log) = .ok seq ∧
      Follows (lastPair none log) (generation, seq) ∧ seq.toNat ≤ log.length + 1 := by
  cases hl : lastPair none log with
  | none => exact ⟨1, rfl, rfl, by simp⟩
  | some q =>
    have hle := h.ordered.seq_le hl
    have hb := UInt64.le_iff_toNat_le.mp (h.below q hl)
    rw [UInt64.le_iff_toNat_le] at hg
    have h47 := encodeAll_ge blake3 log
    have hmax := h.length_le
    rw [maxFileLen] at hmax
    simp only [Option.elim_none] at hle
    by_cases hq : q.1 = generation
    · have hs : (q.2 + 1).toNat = q.2.toNat + 1 := by
        rw [UInt64.toNat_add, UInt64.toNat_one, Nat.mod_eq_of_lt (by omega)]
      refine ⟨q.2 + 1, by simp only [Wal.chooseSeq, if_pos hq], .inl ⟨hq.symm, hs⟩, by omega⟩
    · have hlt : q.1 < generation := by
        rw [UInt64.lt_iff_toNat_lt]
        have : q.1.toNat ≠ generation.toNat := fun hc => hq (UInt64.toNat_inj.mp hc)
        omega
      exact ⟨1, by simp only [Wal.chooseSeq, if_neg hq, if_pos hlt], .inr ⟨hlt, rfl⟩, by simp⟩

lemma scan_eq (blake3 : Bytes → Digest) (operationId : Bytes) (bytes : Bytes) (reads : List (Delivery IoError)) :
    OrIo ⟨bytes, reads⟩ (scan blake3 operationId ⟨bytes, reads⟩) (scanBytes blake3 operationId .start bytes) :=
  scanLoop_eq .start [] ⟨bytes, reads⟩

lemma Sound.recovered (h : Sound blake3 operationId identity ws log g) (ho : operationId.length < 65536)
    {seg : Segment} (hs : ws.segment = some seg) :
    ∃ s, scanBytes blake3 operationId .start seg.bytes = .ok s ∧ Recovered blake3 seg.bytes log s := by
  obtain ⟨-, -, q, hq, hc⟩ := h.present seg hs
  obtain ⟨s, hscan, hv, hlast, hidx, -⟩ := scanBytes_log ho h.ordered h.legible hc
  rw [hq]
  have ht : (encodeAll blake3 log ++ q).take s.validLen = encodeAll blake3 log := by
    rw [hv, List.take_left]
  have hw : WholePrefix blake3 (encodeAll blake3 log ++ q) s.validLen := by
    refine ⟨by rw [hv, List.length_append]; omega, log, fun e he => ?_, ht⟩
    have hl := h.legible e he
    exact ⟨by rw [hl.op]; omega, hl.body⟩
  refine ⟨s, hscan, ⟨hw, fun n hn => ?_⟩, ht, scanned_encodeAll ho h.legible hc, hlast, hidx,
    h.ordered.pairwise, ?_⟩
  · rw [hv]
    exact wholePrefix_le ho h.legible hc hn
  · rintro xs e ys rfl hx
    exact h.ordered.starts (fun q hq => by cases hq) hx

lemma Sound.opened (h : Sound blake3 operationId identity ws log g) (ho : operationId.length ≤ 65535)
    (hi : identity ≠ .unavailable) (hg : g ≤ generation) (reads : List (Delivery IoError)) :
    ∃ o, (openWriter blake3 ws operationId generation reads (fun _ => none) = .ok o ∨
        ¬ (∀ e, Delivery.failed e ∉ reads) ∧
          ∃ x, openWriter blake3 ws operationId generation reads (fun _ => none) = .error (.io x)) ∧
      o.segment = ws.segment.map (fun _ => encodeAll blake3 log) ∧
      Follows (lastPair none log) (generation, o.nextSeq) ∧ o.nextSeq.toNat ≤ log.length + 1 ∧
      (∀ seg, ws.segment = some seg → ∃ s, o.found = some s ∧ Recovered blake3 seg.bytes log s) := by
  have hlen : ¬ operationId.length > 65535 := by omega
  cases hws : ws.segment with
  | none =>
    refine ⟨⟨none, none, false, 1⟩, .inl ?_, rfl, ?_, by simp, fun seg hs => by cases hs⟩
    · rcases ws with _ | _ | seg
      · simp only [openWriter, if_neg hlen]
        rfl
      · simp only [openWriter, if_neg hlen]
        rfl
      · cases hws
    · rw [h.absent hws]
      rfl
  | some seg =>
    obtain ⟨s, hscan, hrec⟩ := h.recovered (by omega) hws
    obtain ⟨seq, hseq, hf, hle⟩ := h.chooseSeq hg
    have hid : seg.identity ≠ .unavailable := by rw [(h.present seg hws).1]; exact hi
    obtain rfl : ws = some (some seg) := by
      rcases ws with _ | _ | x <;> cases hws
      rfl
    have hopen : openWriter blake3 (some (some seg)) operationId generation reads (fun _ => none) =
        match scan blake3 operationId ⟨seg.bytes, reads⟩ with
        | .error e => .error e
        | .ok s => match Wal.chooseSeq generation s.last with
          | .error e => .error e
          | .ok seq => .ok ⟨some s, some (seg.bytes.take s.validLen), true, seq⟩ := by
      simp only [openWriter, if_neg hlen, answer, Option.elim_some, resumeSegment, if_neg hid, Except.mapError,
        bind, Except.bind, pure, Except.pure]
      cases scan blake3 operationId ⟨seg.bytes, reads⟩ with
      | error e => rfl
      | ok s => cases hc : Wal.chooseSeq generation s.last <;> simp [hc]
    refine ⟨⟨some s, some (seg.bytes.take s.validLen), true, seq⟩, ?_, ?_, hf, hle, ?_⟩
    · rw [hopen]
      rcases scan_eq blake3 operationId seg.bytes reads with he | ⟨hn, x, he⟩
      · left
        rw [he, hscan]
        simp only [hrec.last, hseq]
      · right
        exact ⟨hn, x, by rw [he]⟩
    · rw [hrec.whole]
      rfl
    · rintro _ ⟨⟩
      exact ⟨s, rfl, hrec⟩

lemma appending_start (blake3 : Bytes → Digest) (operationId : Bytes) (generation : UInt64) (o : Opened)
    (durability : Durability) (hf : (o.segment.getD []).length ≤ maxFileLen) :
    Appending blake3 operationId generation o.segment o.nextSeq []
      (o.state operationId generation durability) where
  op := rfl
  gen := rfl
  wellFormed := by simp
  appended := rfl
  next := by simp [Opened.state]
  absent h := ⟨h, rfl⟩
  present bytes h := ⟨0, by rw [List.take_zero, List.append_nil, show o.segment = some bytes from h]; rfl⟩
  live _ := by simp [Opened.state, encodeAll]
  fits := hf

variable {seq : UInt64} {bs : List Body}

lemma appending_flushes {base : Option Bytes} (fs : List Flush) {s : State}
    (h : Appending blake3 operationId generation base seq bs s) :
    ∃ bs', Appending blake3 operationId generation base seq bs' (fs.foldl (Flush.apply blake3) s) := by
  induction fs generalizing bs s with
  | nil => exact ⟨bs, h⟩
  | cons f fs ih =>
    have hp : Appending blake3 operationId generation base seq bs
        { s with pending := f.bodies.map fun b => (b.fileId, b), dups := f.dups } :=
      h.of_same rfl rfl rfl rfl rfl id
    obtain ⟨more, hm⟩ := hp.flush (by
      intro p hp
      obtain ⟨b, hb, rfl⟩ := List.mem_map.mp hp
      exact f.wellFormed b hb) (State.flush_step blake3 f.answers _)
    exact ih hm

lemma lastPair_some {last : Option (UInt64 × UInt64)} {es : List Entry} {q : UInt64 × UInt64}
    (h : lastPair last es = some q) : last = some q ∨ ∃ e ∈ es, pairOf e = q := by
  induction es generalizing last with
  | nil => exact .inl h
  | cons e es ih =>
    rcases ih h with h | ⟨x, hx, h⟩
    · exact .inr ⟨e, List.mem_cons_self, Option.some.inj h⟩
    · exact .inr ⟨x, List.mem_cons_of_mem _ hx, h⟩

lemma numbered_generation (seq : UInt64) (bs : List Body) :
    ∀ e ∈ State.numbered operationId generation seq bs, e.1.generation = generation := by
  induction bs generalizing seq with
  | nil => simp [State.numbered]
  | cons b bs ih =>
    intro e he
    rcases List.mem_cons.mp he with rfl | he
    · rfl
    · exact ih _ e he

lemma Sound.extend (h : Sound blake3 operationId identity ws log g) (ho : operationId.length < 65536)
    (hg : g ≤ generation) (hf : Follows (lastPair none log) (generation, seq)) (hs : seq.toNat ≤ log.length + 1)
    (hb : ∀ b ∈ bs, b.WellFormed) {n : ℕ} {bytes : Bytes} (he : bytes = encodeAll blake3 log ++
      (encodeAll blake3 (State.numbered operationId generation seq bs)).take n) (hl : bytes.length ≤ maxFileLen) :
    Sound blake3 operationId identity (some (some ⟨bytes, identity⟩))
      (log ++ whole blake3 (State.numbered operationId generation seq bs) n) generation := by
  obtain ⟨q, hq, hc⟩ : ∃ q, (encodeAll blake3 (State.numbered operationId generation seq bs)).take n = _ ++ q ∧
    _ :=
    take_encodeAll ho (numbered_legible hb seq) n
  obtain ⟨k, hk⟩ : ∃ k, whole blake3 (State.numbered operationId generation seq bs) n = _ :=
    whole_numbered bs seq n
  have hbytes : bytes = encodeAll blake3
      (log ++ whole blake3 (State.numbered operationId generation seq bs) n) ++ q := by
    rw [he, hq, encodeAll_append, List.append_assoc]
  have hcount := encodeAll_ge blake3 (log ++ whole blake3 (State.numbered operationId generation seq bs) n)
  rw [hbytes, List.length_append, maxFileLen] at hl
  rw [hk] at hcount hbytes hl ⊢
  rw [List.length_append, numbered_length] at hcount
  refine ⟨?_, ?_, ?_, (fun hn => by cases hn), ?_⟩
  · intro e he
    rcases List.mem_append.mp he with he | he
    · exact h.legible e he
    · exact numbered_legible (fun b hb' => hb b (List.mem_of_mem_take hb')) seq e he
  · exact (ordered_append _ _ _).mpr ⟨h.ordered, ordered_numbered (fun _ => hf) (by omega)⟩
  · intro p hp
    rw [lastPair_append] at hp
    rcases lastPair_some hp with hp | ⟨e, he, rfl⟩
    · exact UInt64.le_trans (h.below p hp) hg
    · rw [pairOf, numbered_generation _ _ e he]
      exact UInt64.le_refl _
  · rintro _ ⟨⟩
    exact ⟨rfl, by rw [hbytes, List.length_append, maxFileLen]; exact hl, q, hbytes, hc⟩

lemma eq_nil_of_encodeAll (h : encodeAll blake3 log = []) : log = [] := by
  have := encodeAll_ge blake3 log
  rw [h, List.length_nil] at this
  exact List.eq_nil_of_length_eq_zero (by omega)

lemma Sound.crash (h : Sound blake3 operationId identity ws log g) (ho : operationId.length < 65536) {r : Run}
    (hg : g ≤ r.generation) (hf : Follows (lastPair none log) (r.generation, seq))
    (hs : seq.toNat ≤ log.length + 1) {base : Option Bytes} (hbase : base.getD [] = encodeAll blake3 log)
    {s : State} (happ : Appending blake3 operationId r.generation base seq bs s) :
    Sound blake3 operationId identity (r.crash identity (base.getD []).length s).workspace
      (log ++ whole blake3 (r.crash identity (base.getD []).length s).appended
        (r.crash identity (base.getD []).length s).onDisk) r.generation := by
  rw [hbase]
  cases hseg : s.segment with
  | none =>
    obtain ⟨hb, hbs⟩ := happ.absent hseg
    have hlog : log = [] := eq_nil_of_encodeAll (hbase.symm.trans (by rw [hb]; rfl))
    have ha := happ.appended
    rw [hbs] at ha
    have hw : ∀ w : Workspace, w.segment = none → Sound blake3 operationId identity w ([] ++ []) r.generation :=
      fun w hw => ⟨by simp, trivial, (fun q hq => by cases hq), fun _ => rfl,
        (fun x hx => by rw [hw] at hx; cases hx)⟩
    simp only [Run.crash, hseg, ha, State.numbered, whole, hlog]
    exact hw _ (by split <;> rfl)
  | some bytes =>
    obtain ⟨n, hn⟩ := happ.present bytes hseg
    have hfits := happ.fits
    rw [hseg, Option.getD_some] at hfits
    rw [hbase, happ.appended] at hn
    have hcut : bytes.take ((encodeAll blake3 log).length + r.kept) = encodeAll blake3 log ++
        (encodeAll blake3 (State.numbered operationId r.generation seq bs)).take (min r.kept n) := by
      rw [hn, List.take_length_add_append, List.take_take]
    simp only [Run.crash, hseg, happ.appended]
    apply h.extend ho hg hf hs happ.wellFormed
    · rw [hcut, List.length_append, Nat.add_sub_cancel_left, List.length_take]
      congr 1
      rw [List.take_eq_take_iff]
      omega
    · rw [List.length_take]
      omega

lemma Sound.run (h : Sound blake3 operationId identity ws log g) (ho : operationId.length ≤ 65535)
    (hi : identity ≠ .unavailable) {r : Run} {l : Left} (hg : g ≤ r.generation)
    (hr : r.exec blake3 operationId identity ws = .ok l) :
    Sound blake3 operationId identity l.workspace (log ++ whole blake3 l.appended l.onDisk) r.generation := by
  obtain ⟨o, hopen, hseg, hf, hle, -⟩ := h.opened ho hi hg r.reads
  have hopen : openWriter blake3 ws operationId r.generation r.reads (fun _ => none) = .ok o := by
    rcases hopen with hopen | ⟨-, x, hx⟩
    · exact hopen
    · rw [Run.exec, hx] at hr
      cases hr
  rw [Run.exec, hopen] at hr
  have hbase : o.segment.getD [] = encodeAll blake3 log := by
    rw [hseg]
    cases hw : ws.segment with
    | none => rw [h.absent hw]; rfl
    | some seg => rfl
  have hfit : (o.segment.getD []).length ≤ maxFileLen := by rw [hbase]; exact h.length_le
  obtain ⟨bs, happ⟩ := appending_flushes r.flushes
    (appending_start blake3 operationId r.generation o r.durability hfit)
  cases hr
  exact h.crash (by omega) hg hf hle hbase happ

lemma History.sound (ho : operationId.length ≤ 65535) (hi : identity ≠ .unavailable)
    (h : History blake3 operationId identity ws log g) : Sound blake3 operationId identity ws log g := by
  induction h with
  | start => exact ⟨by simp, trivial, (fun q hq => by cases hq), fun _ => rfl, (fun x hx => by cases hx)⟩
  | run h hg hr ih => exact ih.run ho hi hg hr

variable {α : Type} {x : Except FsError α} {e : WalError} {fault : OpenCall → Option FsError}

lemma mapError_io (h : x.mapError WalError.io = .error e) : ∃ y, e = .io y := by
  cases x with
  | error y => exact ⟨y, (Except.error.inj h).symm⟩
  | ok a => cases h

lemma bind_error {β : Type} {x : Except WalError α} {f : α → Except WalError β} (h : (x >>= f) = .error e) :
    x = .error e ∨ ∃ a, x = .ok a ∧ f a = .error e := by
  cases x with
  | error y =>
    cases h
    exact .inl rfl
  | ok a => exact .inr ⟨a, rfl, h⟩

lemma answer_ok {call : OpenCall} {b : α} (h : answer fault call x = .ok b) : x = .ok b := by
  rw [answer] at h
  split at h
  · cases h
  · exact h

lemma mapError_ok {b : α} (h : x.mapError WalError.io = .ok b) : x = .ok b := by
  cases x with
  | error y => cases h
  | ok a => exact congrArg _ (Except.ok.inj h)

lemma elim_ok {x : Option α} {b : α} (h : x.elim (.error notFound) .ok = Except.ok b) : x = some b := by
  cases x with
  | none => cases h
  | some a => exact congrArg _ (Except.ok.inj h)

lemma Sound.resume_error (h : Sound blake3 operationId identity ws log g) (ho : operationId.length < 65536)
    (hg : g ≤ generation) {seg : Segment} (hs : ws.segment = some seg) {reads : List (Delivery IoError)}
    (he : resumeSegment blake3 operationId generation reads fault seg = .error e) : ∃ x, e = .io x := by
  obtain ⟨s, hscan, hrec⟩ := h.recovered ho hs
  obtain ⟨seq, hseq, -⟩ := h.chooseSeq hg
  rw [resumeSegment] at he
  split at he
  · cases he
    exact ⟨_, rfl⟩
  rcases bind_error he with he | ⟨bytes, hb, he⟩
  · exact mapError_io he
  cases answer_ok (mapError_ok hb)
  rcases bind_error he with he | ⟨s', hs', he⟩
  · rcases scan_eq blake3 operationId seg.bytes reads with hq | ⟨-, x, hq⟩
    · rw [hq, hscan] at he
      cases he
    · rw [hq] at he
      cases he
      exact ⟨x, rfl⟩
  rcases bind_error he with he | ⟨n, -, he⟩
  · rcases scan_eq blake3 operationId seg.bytes reads with hq | ⟨-, x, hq⟩
    · rw [hq, hscan] at hs'
      cases hs'
      rw [hrec.last, hseq] at he
      cases he
    · rw [hq] at hs'
      cases hs'
  rcases bind_error he with he | ⟨-, -, he⟩
  · exact mapError_io he
  rcases bind_error he with he | ⟨-, -, he⟩
  · exact mapError_io he
  cases he

lemma Sound.open_error (h : Sound blake3 operationId identity ws log g) (hg : g ≤ generation)
    {reads : List (Delivery IoError)} (he : openWriter blake3 ws operationId generation reads fault = .error e) :
    ∃ x, e = .io x := by
  rw [openWriter] at he
  split at he
  · cases he
    exact ⟨_, rfl⟩
  next hlen =>
  have tail : ∀ {x : Except WalError Opened}, (do
      let o ← x
      (answer fault .spawn (.ok ())).mapError .io
      pure o) = .error e → x = .error e ∨ ∃ x, e = .io x := by
    intro x hx
    rcases bind_error hx with hx | ⟨o, -, hx⟩
    · exact .inl hx
    rcases bind_error hx with hx | ⟨-, -, hx⟩
    · exact .inr (mapError_io hx)
    · cases hx
  have unopened : ∀ {e' : FsError}, (throw (.io e') : Except WalError Opened) = .error e → ∃ x, e = .io x := by
    intro e' hx
    cases hx
    exact ⟨e', rfl⟩
  dsimp only at he
  split at he
  · split at he
    · exact (tail he).resolve_left (by intro hx; cases hx)
    · exact (tail he).elim unopened id
  split at he
  · split at he
    · exact (tail he).resolve_left (by intro hx; cases hx)
    · exact (tail he).elim unopened id
  next dir hdir _ seg hseg =>
  refine (tail he).elim (fun hx => h.resume_error (by omega) hg ?_ hx) id
  rw [elim_ok (answer_ok hdir), elim_ok (answer_ok hseg)]
  rfl

theorem open_recovers_log (ho : operationId.length ≤ 65535) (hi : identity ≠ .unavailable)
    (h : History blake3 operationId identity ws log g) (hg : g ≤ generation) (reads : List (Delivery IoError)) :
    (∀ fault e, openWriter blake3 ws operationId generation reads fault = .error e → ∃ x, e = .io x) ∧
      ((∀ e, Delivery.failed e ∉ reads) →
        ∃ o, openWriter blake3 ws operationId generation reads (fun _ => none) = .ok o ∧
          o.segment = ws.segment.map (fun _ => encodeAll blake3 log) ∧ (ws.segment = none → log = []) ∧
          ∀ seg, ws.segment = some seg → ∃ s, o.found = some s ∧ Recovered blake3 seg.bytes log s) := by
  have hs := h.sound ho hi
  refine ⟨fun fault e he => hs.open_error hg he, fun hr => ?_⟩
  obtain ⟨o, hopen, hseg, -, -, hrec⟩ := hs.opened ho hi hg reads
  refine ⟨o, ?_, hseg, hs.absent, hrec⟩
  rcases hopen with hopen | ⟨hn, -⟩
  · exact hopen
  · exact absurd hr hn

def tornRun : Run where
  generation := 1
  durability := .normal
  reads := []
  flushes := [⟨[oneChunk 7, oneChunk 8], by simp [oneChunk_wellFormed], [], ⟨fun _ => none, none, none, none⟩⟩]
  kept := 150
  dirLeft := true

lemma tornRun_exec : (tornRun.exec zeroHash [111] (.strong ⟨1, 1⟩) none).toOption.map
    (fun l => (l.workspace.segment.isSome, whole zeroHash l.appended l.onDisk)) =
      some (true, [(⟨[111], 1, 1⟩, oneChunk 7)]) := by
  decide +kernel

theorem open_recovers_log_torn :
    ∃ l, tornRun.exec zeroHash [111] (.strong ⟨1, 1⟩) none = .ok l ∧
      ∃ o, openWriter zeroHash l.workspace [111] 2 [.interrupted, .upTo 3] (fun _ => none) = .ok o ∧
        o.segment = some (encodeAll zeroHash [(⟨[111], 1, 1⟩, oneChunk 7)]) := by
  have hx := tornRun_exec
  cases hl : tornRun.exec zeroHash [111] (.strong ⟨1, 1⟩) none with
  | error e =>
    rw [hl] at hx
    cases hx
  | ok l =>
    rw [hl] at hx
    obtain ⟨hseg, hw⟩ := Prod.ext_iff.mp (Option.some.inj hx)
    obtain ⟨seg, hseg⟩ := Option.isSome_iff_exists.mp hseg
    have h := History.run .start (by decide) hl
    obtain ⟨o, ho, hs, -⟩ := (open_recovers_log (by decide) (by decide) h (by decide : (1 : UInt64) ≤ 2)
      [.interrupted, .upTo 3]).2 (by simp)
    refine ⟨l, rfl, o, ho, ?_⟩
    rw [hs, hseg, List.nil_append]
    exact congrArg (fun es => some (encodeAll zeroHash es)) hw

end Flux.Wal
