import Flux.Wal.Log

namespace Flux.Wal

open Base

section Numbered

variable {operationId : Bytes} {generation : UInt64}

open Wal.State

lemma numbered_append (seq : UInt64) (xs ys : List Body) : numbered operationId generation seq (xs ++ ys) =
    numbered operationId generation seq xs ++
      numbered operationId generation (seq + UInt64.ofNat xs.length) ys := by
  induction xs generalizing seq with
  | nil => simp [numbered]
  | cons x xs ih =>
    have hs : seq + 1 + UInt64.ofNat xs.length = seq + UInt64.ofNat (xs.length + 1) := by
      rw [UInt64.ofNat_add, UInt64.add_assoc, UInt64.add_comm 1]
      rfl
    simp only [List.cons_append, numbered, ih, hs, List.length_cons]

@[simp] lemma numbered_length (seq : UInt64) (bs : List Body) :
    (numbered operationId generation seq bs).length = bs.length := by
  induction bs generalizing seq with
  | nil => rfl
  | cons b bs ih => simp only [numbered, List.length_cons, ih]

lemma numbered_legible {bs : List Body} (hb : ∀ b ∈ bs, b.WellFormed) (seq : UInt64) :
    ∀ e ∈ numbered operationId generation seq bs, Legible operationId e := by
  induction bs generalizing seq with
  | nil => simp [numbered]
  | cons b bs ih =>
    intro e he
    rcases List.mem_cons.mp he with rfl | he
    · exact ⟨rfl, hb b List.mem_cons_self⟩
    · exact ih (fun x hx => hb x (List.mem_cons_of_mem _ hx)) _ e he

lemma ordered_numbered {last : Option (UInt64 × UInt64)} {seq : UInt64} {bs : List Body}
    (hf : bs ≠ [] → Follows last (generation, seq)) (hs : seq.toNat + bs.length ≤ 2 ^ 64) :
    Ordered last (numbered operationId generation seq bs) := by
  induction bs generalizing last seq with
  | nil => trivial
  | cons b bs ih =>
    rw [List.length_cons] at hs
    refine ⟨hf (by simp), ?_⟩
    by_cases hn : bs = []
    · rw [hn]
      trivial
    have hp := List.length_pos_of_ne_nil hn
    have hadd : (seq + 1).toNat = seq.toNat + 1 := by
      rw [UInt64.toNat_add, UInt64.toNat_one, Nat.mod_eq_of_lt (by omega)]
    exact ih (fun _ => .inl ⟨rfl, hadd⟩) (by omega)

lemma entryLen_ge (blake3 : Bytes → Digest) (e : Entry) : 47 ≤ entryLen blake3 e := by
  rw [entryLen, encode_length, prefixLen, fixedLen, suffixLen]
  omega

lemma encodeAll_ge (blake3 : Bytes → Digest) (es : List Entry) :
    47 * es.length ≤ (encodeAll blake3 es).length := by
  induction es with
  | nil => simp
  | cons e es ih =>
    have := entryLen_ge blake3 e
    rw [entryLen] at this
    rw [encodeAll_cons, List.length_append, List.length_cons]
    omega

lemma Ordered.seq_le {last : Option (UInt64 × UInt64)} {es : List Entry} (h : Ordered last es)
    {q : UInt64 × UInt64} (hq : lastPair last es = some q) :
    q.2.toNat ≤ (last.elim 0 fun p => p.2.toNat) + es.length := by
  induction es generalizing last with
  | nil =>
    cases hq
    simp
  | cons e es ih =>
    have hi := ih h.2 hq
    have hf := h.1
    have he : (pairOf e).2.toNat ≤ (last.elim 0 fun p => p.2.toNat) + 1 := by
      rcases last with _ | p
      · rw [show (pairOf e).2 = 1 from hf]
        decide
      · rcases hf with ⟨-, h2⟩ | ⟨-, h2⟩
        · exact h2.le
        · rw [h2]
          simp
    simp only [Option.elim_some] at hi
    rw [List.length_cons]
    omega

end Numbered

structure OnDisk (blake3 : Bytes → Digest) (base : Option Bytes) (s : State) : Prop where
  present : ∀ bytes, s.segment = some bytes →
    ∃ n, bytes = base.getD [] ++ (encodeAll blake3 s.appended).take n
  live : s.dead = false → s.segment.getD [] = base.getD [] ++ encodeAll blake3 s.appended

def State.disk (s : State) : Option Bytes × List (Header × Body) × Bool := (s.segment, s.appended, s.dead)

variable {s' : State}

lemma State.disk_eq {s : State} (hseg : s'.segment = s.segment) (happ : s'.appended = s.appended)
    (hd : s'.dead = s.dead) : s'.disk = s.disk := by
  rw [disk, disk, hseg, happ, hd]

structure Appending (blake3 : Bytes → Digest) (operationId : Bytes) (generation : UInt64) (base : Option Bytes)
    (seq : UInt64) (bs : List Body) (s : State) : Prop extends OnDisk blake3 base s where
  op : s.operationId = operationId
  gen : s.generation = generation
  wellFormed : ∀ b ∈ bs, b.WellFormed
  appended : s.appended = State.numbered operationId generation seq bs
  next : s.nextSeq = seq + UInt64.ofNat bs.length
  absent : s.segment = none → base = none ∧ bs = []
  fits : (s.segment.getD []).length ≤ maxFileLen

namespace State

def Faulted (s : State) (id : Bytes) : Prop := (s.failure.files.lookup id).isSome

structure Judged (a : Answers) (ids : List Bytes) (y : List (Bytes × Option FsError)) (bad : List Bytes)
    (s s' : State) : Prop where
  same : ∃ f, s' = { s with failure := f, synced := s.synced ++ y }
  asked : ∀ x ∈ y, x.1 ∈ s.dups ∧ a.syncDup x.1 = x.2
  failed : ∀ x ∈ y, x.2.isSome → x.1 ∈ bad ∧ s'.Faulted x.1
  passed : s.durability = .strict → ∀ id ∈ ids, id ∉ bad → id ∈ s.dups ∧ (id, none) ∈ y
  faults : ∀ id, s.Faulted id → s'.Faulted id ∧ (id ∈ ids → id ∈ bad)

section Judged

variable {a : Answers} {id : Bytes} {ids ids' bad bad' : List Bytes} {y y' : List (Bytes × Option FsError)}
  {s s' s'' : State}

lemma Judged.append (h : Judged a ids y bad s s') (h' : Judged a ids' y' bad' s' s'') :
    Judged a (ids ++ ids') (y ++ y') (bad ++ bad') s s'' := by
  obtain ⟨f, hf⟩ := h.same
  obtain ⟨g, hg⟩ := h'.same
  have hdur : s'.durability = s.durability := by rw [hf]
  have hdups : s'.dups = s.dups := by rw [hf]
  refine ⟨⟨g, ?_⟩, fun x hx => ?_, ?_, ?_, ?_⟩
  · rw [hg, hf, List.append_assoc]
  · rcases List.mem_append.mp hx with hx | hx
    · exact h.asked x hx
    · exact hdups ▸ h'.asked x hx
  · intro x hx he
    rcases List.mem_append.mp hx with hx | hx
    · obtain ⟨hb, hfault⟩ := h.failed x hx he
      exact ⟨List.mem_append_left _ hb, (h'.faults _ hfault).1⟩
    · obtain ⟨hb, hfault⟩ := h'.failed x hx he
      exact ⟨List.mem_append_right _ hb, hfault⟩
  · intro hs id hi hb
    rw [List.mem_append, not_or] at hb
    rcases List.mem_append.mp hi with hi | hi
    · obtain ⟨hd, hy⟩ := h.passed hs id hi hb.1
      exact ⟨hd, List.mem_append_left _ hy⟩
    · obtain ⟨hd, hy⟩ := h'.passed (hdur.trans hs) id hi hb.2
      exact ⟨hdups ▸ hd, List.mem_append_right _ hy⟩
  · intro id hfault
    obtain ⟨hf', hb⟩ := h.faults id hfault
    obtain ⟨hf'', hb'⟩ := h'.faults id hf'
    exact ⟨hf'', fun hi => List.mem_append.mpr ((List.mem_append.mp hi).imp hb hb')⟩

lemma faulted_failFile (s : State) (id : Bytes) (e : FsError) : (s.failFile id e).Faulted id := by
  rw [failFile, Faulted]
  split
  · next h => exact h
  · simp

lemma Faulted.failFile (h : s.Faulted id) (i : Bytes) (e : FsError) : (s.failFile i e).Faulted id := by
  rw [State.failFile]
  split
  · exact h
  · rw [Faulted]
    by_cases hi : id = i
    · rw [hi, AList.lookup_insert]
      rfl
    · rw [AList.lookup_insert_ne hi]
      exact h

lemma failFile_eq (s : State) (id : Bytes) (e : FsError) : ∃ f, s.failFile id e = { s with failure := f } := by
  rw [failFile]
  split
  · exact ⟨s.failure, rfl⟩
  · exact ⟨_, rfl⟩

lemma judged_failFile (s : State) (id : Bytes) (e : FsError) {y : List (Bytes × Option FsError)}
    (hy : ∀ x ∈ y, x = (id, a.syncDup id) ∧ id ∈ s.dups) :
    Judged a [id] y [id] s ({ s with synced := s.synced ++ y }.failFile id e) := by
  refine ⟨failFile_eq _ id e, fun x hx => ?_, fun x hx _ => ?_, ?_, ?_⟩
  · rw [(hy x hx).1]
    exact ⟨(hy x hx).2, rfl⟩
  · rw [(hy x hx).1]
    exact ⟨List.mem_singleton_self _, faulted_failFile _ id e⟩
  · exact fun _ i hi hb => absurd hi hb
  · exact fun i hfault => ⟨Faulted.failFile (s := { s with synced := s.synced ++ y }) hfault id e, fun hi => hi⟩

lemma judged_same (hp : s.durability = .strict → ∀ id ∈ ids, id ∈ bad)
    (hf : ∀ id, s.Faulted id → id ∈ ids → id ∈ bad) : Judged a ids [] bad s s where
  same := ⟨s.failure, by rw [List.append_nil]⟩
  asked x hx := by cases hx
  failed x hx := by cases hx
  passed hs id hi hb := absurd (hp hs id hi) hb
  faults id hi := ⟨hi, hf id hi⟩

lemma judge_judged (a : Answers) (pending : List (Bytes × Body)) (s : State) (id : Bytes) :
    ∃ y, Judged a [id] y (if (judge a pending s id).2 then [id] else []) s (judge a pending s id).1 := by
  have hunsynced : ∀ e, Judged a [id] [] [id] s (s.failFile id e) := fun e => by
    simpa using judged_failFile s id e (y := []) (by simp)
  simp only [judge]
  split
  · exact ⟨[], judged_same (fun _ _ hm => hm) fun _ _ hm => hm⟩
  next hf =>
  have hfault : ∀ i, s.Faulted i → i ∉ [id] := fun i hi hm => hf (List.mem_singleton.mp hm ▸ hi)
  split
  · exact ⟨[], hunsynced _⟩
  split
  · next hn =>
      exact ⟨[], judged_same (fun hs => by rw [hn] at hs; cases hs) fun i hi hm => absurd hm (hfault i hi)⟩
  split
  · refine ⟨[(id, a.syncDup id)], ?_⟩
    split
    · next hd _ e he => exact judged_failFile s id _ fun x hx => ⟨by rw [List.mem_singleton.mp hx], hd⟩
    · next hd _ he =>
      rw [he]
      refine ⟨⟨s.failure, rfl⟩, fun x hx => ?_, fun x hx hs => ?_, fun _ i hi _ => ?_, fun i hi =>
        ⟨hi, fun hm => absurd hm (hfault i hi)⟩⟩
      · rw [List.mem_singleton.mp hx]
        exact ⟨hd, he⟩
      · rw [List.mem_singleton.mp hx] at hs
        cases hs
      · rw [List.mem_singleton.mp hi]
        exact ⟨hd, List.mem_singleton_self _⟩
  · exact ⟨[], hunsynced _⟩

lemma judgeAll_judged (a : Answers) (pending : List (Bytes × Body)) (ids : List Bytes) (s : State) :
    ∃ y, Judged a ids y (judgeAll a pending ids s).2 s (judgeAll a pending ids s).1 := by
  induction ids generalizing s with
  | nil => exact ⟨[], judged_same (fun _ _ hi => hi) fun _ _ hi => hi⟩
  | cons id ids ih =>
    obtain ⟨y, hy⟩ := judge_judged a pending s id
    obtain ⟨z, hz⟩ := ih (judge a pending s id).1
    have hbad : (judgeAll a pending (id :: ids) s).2 = (if (judge a pending s id).2 then [id] else []) ++
        (judgeAll a pending ids (judge a pending s id).1).2 := by
      simp only [judgeAll]
      split <;> rfl
    rw [hbad]
    exact ⟨y ++ z, hy.append hz⟩

end Judged

inductive FlushStep (blake3 : Bytes → Digest) (a : Answers) (s : State) : State → Prop
  | abandoned (h : s.abandoned = true) : FlushStep blake3 a s { s with pending := [], dups := [] }
  | dead (h : s.dead = true) : FlushStep blake3 a s s.clearPending
  | empty (h : s.pending = []) : FlushStep blake3 a s s
  | unfit {y : List (Bytes × Option FsError)} {bad : List Bytes} {s' : State} (hd : s.dead = false)
    (hj : Judged a (s.pending.map Prod.fst).eraseDups y bad s.clearPending s') : FlushStep blake3 a s s'
  | unopened {y : List (Bytes × Option FsError)} {bad : List Bytes} {s' : State} (hd : s.dead = false)
    (hj : Judged a (s.pending.map Prod.fst).eraseDups y bad s.clearPending s') (e : FsError) :
    FlushStep blake3 a s (s'.failWal e)
  | appended {y : List (Bytes × Option FsError)} {bad : List Bytes} {s' : State} (hd : s.dead = false)
    (hj : Judged a (s.pending.map Prod.fst).eraseDups y bad s.clearPending s')
    (hk : s.pending.filter (fun p => p.1 ∉ bad) ≠ []) :
    FlushStep blake3 a s
      (append blake3 a { s' with wal := true } ((s.pending.filter fun p => p.1 ∉ bad).map Prod.snd))

lemma flush_step (blake3 : Bytes → Digest) (a : Answers) (s : State) :
    FlushStep blake3 a s (s.flush blake3 a) := by
  rw [flush]
  split
  · next h => exact .abandoned h
  split
  · next h => exact .dead h
  next hd =>
  rw [Bool.not_eq_true] at hd
  split
  · next h => exact .empty h
  obtain ⟨y, hj⟩ := judgeAll_judged a s.pending (s.pending.map Prod.fst).eraseDups s.clearPending
  dsimp only
  split
  · exact .unfit hd hj
  next hk =>
  split
  · exact .unopened hd hj _
  · exact .appended hd hj hk

lemma append_written (blake3 : Bytes → Digest) (a : Answers) (s : State) (bodies : List Body) :
    ∃ m, (append blake3 a s bodies).segment = some (s.segment.getD [] ++
        (encodeAll blake3 (numbered s.operationId s.generation s.nextSeq bodies)).take m) ∧
      ((append blake3 a s bodies).dead = false →
        s.dead = false ∧ (encodeAll blake3 (numbered s.operationId s.generation s.nextSeq bodies)).length ≤ m) ∧
      ((s.segment.getD []).length ≤ maxFileLen → (s.segment.getD []).length + m ≤ maxFileLen) := by
  simp only [append]
  split
  · exact ⟨_, rfl, (fun hl => by cases hl), fun _ => by omega⟩
  split
  · next hroom =>
    refine ⟨(encodeAll blake3 (numbered s.operationId s.generation s.nextSeq bodies)).length, ?_,
      ?_, fun _ => hroom⟩
    · rw [List.take_length]
      split <;> rfl
    · intro hl
      split at hl
      · cases hl
      · exact ⟨hl, le_rfl⟩
  · exact ⟨_, rfl, (fun hl => by cases hl), fun _ => by omega⟩

end State

variable {blake3 : Bytes → Digest} {operationId : Bytes} {generation : UInt64} {base : Option Bytes}
  {seq : UInt64} {bs : List Body} {s : State}

structure State.Extends (bodies : List Body) (s s' : State) : Prop where
  op : s'.operationId = s.operationId
  gen : s'.generation = s.generation
  abandoned : s'.abandoned = s.abandoned
  appended : s'.appended = s.appended ++ State.numbered s.operationId s.generation s.nextSeq bodies
  next : s'.nextSeq = s.nextSeq + UInt64.ofNat bodies.length

lemma extends_append (blake3 : Bytes → Digest) (b : Answers) (s : State) (bodies : List Body) :
    State.Extends bodies s (State.append blake3 b s bodies) := by
  simp only [State.append]
  split
  · exact ⟨rfl, rfl, rfl, rfl, rfl⟩
  · split
    · split <;> exact ⟨rfl, rfl, rfl, rfl, rfl⟩
    · exact ⟨rfl, rfl, rfl, rfl, rfl⟩

lemma OnDisk.of_same (h : OnDisk blake3 base s) (happ : s'.appended = s.appended) (hseg : s'.segment = s.segment)
    (hd : s'.dead = false → s.dead = false) : OnDisk blake3 base s' where
  present := by rw [hseg, happ]; exact h.present
  live := by
    intro hl
    rw [hseg, happ]
    exact h.live (hd hl)

lemma OnDisk.congr (h : OnDisk blake3 base s) (he : s'.disk = s.disk) : OnDisk blake3 base s' := by
  obtain ⟨hseg, happ, hd⟩ := Prod.ext_iff.mp he |>.imp_right Prod.ext_iff.mp
  exact h.of_same happ hseg fun hl => hd.symm.trans hl

lemma OnDisk.append (h : OnDisk blake3 base s) (hd : s.dead = false) (a : Answers) (more : List Body) :
    OnDisk blake3 base (State.append blake3 a s more) := by
  obtain ⟨m, hseg, hfull, -⟩ := State.append_written blake3 a s more
  have happ := (extends_append blake3 a s more).appended
  refine ⟨fun bytes hb => ?_, fun hl => ?_⟩
  · rw [hseg] at hb
    cases hb
    refine ⟨(encodeAll blake3 s.appended).length + m, ?_⟩
    rw [h.live hd, happ, encodeAll_append, List.append_assoc, List.take_length_add_append]
  · rw [hseg, Option.getD_some, h.live hd, happ, encodeAll_append, List.append_assoc,
      List.take_of_length_le (hfull hl).2]

lemma OnDisk.flush {a : Answers} (h : OnDisk blake3 base s) (hs : State.FlushStep blake3 a s s') :
    OnDisk blake3 base s' := by
  cases hs with
  | abandoned _ => exact h.of_same rfl rfl id
  | dead _ => exact h.of_same rfl rfl id
  | empty _ => exact h
  | unfit _ hj =>
    obtain ⟨f, rfl⟩ := hj.same
    exact h.of_same rfl rfl id
  | unopened _ hj e =>
    obtain ⟨f, rfl⟩ := hj.same
    exact h.of_same rfl rfl fun hl => by cases hl
  | appended hd hj _ =>
    obtain ⟨f, rfl⟩ := hj.same
    apply OnDisk.append
    · exact h.of_same rfl rfl id
    · exact hd

lemma Appending.of_same (h : Appending blake3 operationId generation base seq bs s)
    (hop : s'.operationId = s.operationId) (hgen : s'.generation = s.generation)
    (happ : s'.appended = s.appended) (hnext : s'.nextSeq = s.nextSeq) (hseg : s'.segment = s.segment)
    (hd : s'.dead = false → s.dead = false) : Appending blake3 operationId generation base seq bs s' where
  toOnDisk := h.toOnDisk.of_same happ hseg hd
  op := hop.trans h.op
  gen := hgen.trans h.gen
  wellFormed := h.wellFormed
  appended := happ.trans h.appended
  next := hnext.trans h.next
  absent := by rw [hseg]; exact h.absent
  fits := by rw [hseg]; exact h.fits

lemma Appending.append (h : Appending blake3 operationId generation base seq bs s) (hd : s.dead = false)
    {more : List Body} (hm : ∀ b ∈ more, b.WellFormed) (a : Answers) :
    Appending blake3 operationId generation base seq (bs ++ more) (State.append blake3 a s more) := by
  obtain ⟨m, hseg, -, hfits⟩ := State.append_written blake3 a s more
  obtain ⟨hop, hgen, -, happ, hnext⟩ := extends_append blake3 a s more
  refine ⟨h.toOnDisk.append hd a more, hop.trans h.op, hgen.trans h.gen, ?_, ?_, ?_, ?_, ?_⟩
  · exact fun b hb => (List.mem_append.mp hb).elim (h.wellFormed b) (hm b)
  · rw [happ, h.appended, h.op, h.gen, h.next, numbered_append]
  · rw [hnext, h.next, List.length_append, UInt64.ofNat_add, UInt64.add_assoc]
  · intro hn
    rw [hseg] at hn
    cases hn
  · have hroom := hfits h.fits
    rw [hseg, Option.getD_some, List.length_append, List.length_take]
    omega

lemma Appending.flush {a : Answers} (h : Appending blake3 operationId generation base seq bs s)
    (hp : ∀ p ∈ s.pending, p.2.WellFormed) (hs : State.FlushStep blake3 a s s') :
    ∃ more, Appending blake3 operationId generation base seq (bs ++ more) s' := by
  have same : ∀ t : State, t.operationId = s.operationId → t.generation = s.generation →
      t.appended = s.appended → t.nextSeq = s.nextSeq → t.segment = s.segment →
      (t.dead = false → s.dead = false) →
      ∃ more, Appending blake3 operationId generation base seq (bs ++ more) t := by
    intro t h1 h2 h3 h4 h5 h6
    exact ⟨[], by rw [List.append_nil]; exact h.of_same h1 h2 h3 h4 h5 h6⟩
  cases hs with
  | abandoned _ => exact same _ rfl rfl rfl rfl rfl id
  | dead _ => exact same _ rfl rfl rfl rfl rfl id
  | empty _ => exact same _ rfl rfl rfl rfl rfl id
  | unfit _ hj =>
    obtain ⟨f, rfl⟩ := hj.same
    exact same _ rfl rfl rfl rfl rfl id
  | unopened _ hj e =>
    obtain ⟨f, rfl⟩ := hj.same
    exact same _ rfl rfl rfl rfl rfl fun hl => by cases hl
  | appended hd hj _ =>
    obtain ⟨f, rfl⟩ := hj.same
    refine ⟨_, Appending.append ?_ ?_ ?_ a⟩
    · exact h.of_same rfl rfl rfl rfl rfl id
    · exact hd
    · intro b hb
      obtain ⟨p, hp', rfl⟩ := List.mem_map.mp hb
      exact hp p (List.mem_of_mem_filter hp')

end Flux.Wal
