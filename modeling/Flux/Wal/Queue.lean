import Flux.Wal.Tally

namespace Flux.Wal

open Base

variable {Dup : Type}

structure Placed (operationId : Bytes) (generation seq : UInt64) (ms : List (Msg Dup)) (xs : List Queued)
    (l : Loop Dup) : Prop where
  pending : l.state.pending = l.queue.map Queued.entry
  increasing : (xs ++ l.queue).Pairwise (·.index < ·.index)
  origin : ∀ q ∈ xs ++ l.queue, ∃ m, ms[q.index]? = some m ∧ m.entry = some q.entry
  op : l.state.operationId = operationId
  gen : l.state.generation = generation
  appended : l.state.appended = State.numbered operationId generation seq (xs.map Queued.body)
  next : l.state.nextSeq = seq + UInt64.ofNat xs.length

section Placed

variable (blake3 : Bytes → Digest) {operationId : Bytes} {generation seq : UInt64} {ms : List (Msg Dup)}
  {xs : List Queued} {l l' : Loop Dup} {m : Msg Dup} (a : FlushAnswers Dup)

lemma Placed.arrive (h : Placed operationId generation seq ms xs l) (m : Msg Dup) :
    Placed operationId generation seq (ms ++ [m]) xs l := by
  refine { h with origin := fun q hq => ?_ }
  obtain ⟨m', hm, he⟩ := h.origin q hq
  exact ⟨m', List.getElem?_append_left (List.getElem?_eq_some_iff.mp hm).1 ▸ hm, he⟩

lemma Placed.shrink (h : Placed operationId generation seq ms xs l) (hq : l'.queue.Sublist l.queue)
    (hp : l'.state.pending = l'.queue.map Queued.entry) (hop : l'.state.operationId = l.state.operationId)
    (hgen : l'.state.generation = l.state.generation) (happ : l'.state.appended = l.state.appended)
    (hnext : l'.state.nextSeq = l.state.nextSeq) : Placed operationId generation seq ms xs l' where
  pending := hp
  increasing := h.increasing.sublist (hq.append_left xs)
  origin q hx := h.origin q ((hq.append_left xs).subset hx)
  op := hop.trans h.op
  gen := hgen.trans h.gen
  appended := happ.trans h.appended
  next := hnext.trans h.next

lemma Placed.flush (h : Placed operationId generation seq ms xs l) :
    Placed operationId generation seq ms (xs ++ appends (l.flush blake3 a).2) (l.flush blake3 a).1 := by
  have hp : (l.flush blake3 a).1.state.pending = [] :=
    (State.flushed_flush blake3 (a.on l.handle) (l.entering a)).pending
  have hs := flush_extends blake3 a h.pending
  have hq : (xs ++ appends (l.flush blake3 a).2 ++ []).Sublist (xs ++ l.queue) := by
    rw [List.append_nil]
    exact (appends_flush_sublist blake3 a l).append_left xs
  refine ⟨hp, h.increasing.sublist hq, fun q hx => h.origin q (hq.subset hx), hs.op.trans h.op, hs.gen.trans h.gen,
    ?_, ?_⟩
  · have happ : (l.entering a).appended = _ := h.appended
    have hop : (l.entering a).operationId = _ := h.op
    have hgen : (l.entering a).generation = _ := h.gen
    have hnext : (l.entering a).nextSeq = _ := h.next
    rw [hs.appended, happ, hop, hgen, hnext, List.map_append, numbered_append, List.length_map]
  · have hnext : (l.entering a).nextSeq = _ := h.next
    rw [hs.next, hnext, List.length_map, List.length_append, UInt64.ofNat_add, UInt64.add_assoc]

lemma Placed.push (h : Placed operationId generation seq ms xs l) {body : Body}
    (hc : l.count = ms.length) (hm : m.entry = some (body.fileId, body)) (bytes : ℕ) :
    Placed operationId generation seq (ms ++ [m]) xs (l.push body bytes) := by
  have ha := h.arrive m
  refine { ha with pending := ?_, increasing := ?_, origin := ?_ }
  · simp only [Loop.push, State.push, h.pending, List.map_append]
    rfl
  · simp only [Loop.push]
    rw [← List.append_assoc, List.pairwise_append]
    refine ⟨h.increasing, List.pairwise_singleton _ _, fun q hq x hx => ?_⟩
    rw [List.mem_singleton] at hx
    subst hx
    obtain ⟨m', hm', -⟩ := h.origin q hq
    rw [hc]
    exact (List.getElem?_eq_some_iff.mp hm').1
  · simp only [Loop.push]
    rw [← List.append_assoc]
    intro q hq
    rcases List.mem_append.mp hq with hq | hq
    · exact ha.origin q hq
    · rw [List.mem_singleton] at hq
      subst hq
      refine ⟨m, ?_, hm⟩
      rw [hc]
      exact List.getElem?_concat_length

lemma Placed.dropPending (h : Placed operationId generation seq ms xs l) (id : Bytes) :
    Placed operationId generation seq ms xs (l.dropPending id) := by
  refine h.shrink List.filter_sublist ?_ rfl rfl rfl rfl
  simp only [Loop.dropPending, h.pending, List.filter_map]
  rfl

lemma Placed.register (h : Placed operationId generation seq ms xs l) (id : Bytes) (dup : Option Dup) :
    Placed operationId generation seq ms xs (l.register id dup) :=
  h.shrink (List.Sublist.refl _) h.pending rfl rfl rfl rfl

lemma appends_append (u v : List (Event Dup)) : appends (u ++ v) = appends u ++ appends v := List.flatMap_append

lemma Placed.receive (h : Placed operationId generation seq ms xs l) (hc : l.count = ms.length) (m : Msg Dup) :
    Placed operationId generation seq (ms ++ [m]) (xs ++ appends (l.receive blake3 a m).2)
      (l.receive blake3 a m).1 := by
  have hm := h.arrive m
  have hf := hm.flush blake3 a
  cases m with
  | fileBegin f dup =>
    simp only [Loop.receive]
    split
    · simpa [appends] using hm
    · have hr : Placed operationId generation seq ms xs ((l.register f.fileId dup).forgive f.fileId) :=
        h.shrink (List.Sublist.refl _) h.pending rfl rfl rfl rfl
      simpa [appends] using hr.push hc rfl 0
  | range r =>
    simp only [Loop.receive]
    split
    · simpa [appends] using hm
    · simpa [appends] using h.push hc rfl _
  | flush => exact hf
  | close id ack =>
    have ha : ∀ l' : Loop Dup, appends (if ack then [l'.closed id] else []) = [] := by
      intro l'
      cases ack <;> rfl
    simp only [Loop.receive, appends_append, ha, List.append_nil]
    split
    · exact hf.register id none
    · simpa [appends] using hm.register id none
  | discard id => simpa [appends, Loop.receive] using (hm.dropPending id).register id none
  | drain =>
    have hd : ∀ failure, appends [(.drained failure : Event Dup)] = [] := fun _ => rfl
    simp only [Loop.receive, appends_append, hd, List.append_nil]
    exact hf
  | stop => exact hf.shrink (List.Sublist.refl _) hf.pending rfl rfl rfl rfl

lemma Placed.abandon (h : Placed operationId generation seq ms xs l) :
    Placed operationId generation seq ms xs l.abandon :=
  h.shrink (List.nil_sublist _) rfl rfl rfl rfl rfl

lemma Placed.left (flushBytes : ℕ) {t : Turn Dup} (h : Placed operationId generation seq ms xs l)
    (hc : l.count = ms.length) :
    Placed operationId generation seq (ms ++ messages (l.turn blake3 flushBytes t).2)
        (xs ++ appends (l.turn blake3 flushBytes t).2) (l.left blake3 flushBytes t) ∧
      (l.left blake3 flushBytes t).count = (ms ++ messages (l.turn blake3 flushBytes t).2).length := by
  rw [Loop.left, Loop.turn, Loop.ended]
  by_cases hab : (l.state.abandoned || t.abandoned) = true
  · rw [if_pos hab, if_pos hab]
    simpa [appends, messages] using ⟨h.abandon, hc⟩
  rw [if_neg hab, if_neg hab]
  cases hr : t.received with
  | disconnected => simpa [appends, messages] using ⟨h.abandon, hc⟩
  | timeout =>
    simp only [Option.getD_some]
    rw [messages_flush, List.append_nil]
    exact ⟨h.flush blake3 t.asked, hc⟩
  | message m =>
    have hm := h.receive blake3 t.asked hc m
    have hcount : l.count + 1 = (ms ++ [m]).length := by rw [hc, List.length_append]; rfl
    have hk : Placed operationId generation seq (ms ++ [m]) (xs ++ appends (l.receive blake3 t.asked m).2)
        { (l.receive blake3 t.asked m).1 with count := l.count + 1 } :=
      hm.shrink (List.Sublist.refl _) hm.pending rfl rfl rfl rfl
    have ha : ∀ ev : List (Event Dup), appends (.received m :: ev) = appends ev := fun _ => rfl
    simp only [messages_received, ha, Loop.message]
    split
    · rw [messages_receive]
      exact ⟨hk, hcount⟩
    split
    · rw [messages_receive]
      exact ⟨hk, hcount⟩
    split
    · rw [messages_append, messages_receive, messages_flush, appends_append, ← List.append_assoc]
      exact ⟨hk.flush blake3 t.due, hcount⟩
    · rw [messages_receive]
      exact ⟨hk, hcount⟩

end Placed

variable (blake3 : Bytes → Digest)

lemma after_induction (flushBytes : ℕ) {P : List (Event Dup) → Loop Dup → Prop}
    (hstep : ∀ ev l t, P ev l → P (ev ++ (l.turn blake3 flushBytes t).2) (l.left blake3 flushBytes t))
    (ts : List (Turn Dup)) (ev : List (Event Dup)) {l : Loop Dup} (h : P ev l) :
    P (ev ++ l.run blake3 flushBytes ts) (l.after blake3 flushBytes ts) := by
  induction ts generalizing ev l with
  | nil =>
    rw [Loop.run, List.append_nil]
    exact h
  | cons t ts ih =>
    have ht := hstep ev l t h
    rw [Loop.run_cons, Loop.after]
    rw [Loop.left] at ht
    cases hl : (l.turn blake3 flushBytes t).1 with
    | none =>
      rw [hl] at ht
      rw [Option.elim_none, Option.elim_none, List.append_nil]
      exact ht
    | some l' =>
      rw [hl] at ht
      rw [Option.elim_some, Option.elim_some, ← List.append_assoc]
      exact ih _ ht

section Discard

variable (blake3 : Bytes → Digest) (flushBytes : ℕ) {l : Loop Dup} {id : Bytes} {k : ℕ}

def Late (id : Bytes) (k : ℕ) (l : Loop Dup) : Prop := ∀ q ∈ l.queue, q.fileId = id → k < q.index

def Barred (id : Bytes) (k : ℕ) (ev : List (Event Dup)) : Prop := ∀ q ∈ appends ev, q.fileId = id → k < q.index

lemma barred_nil : Barred id k ([] : List (Event Dup)) := fun _ hq => by cases hq

variable {u v : List (Event Dup)} {t : Turn Dup}

lemma Barred.append (hu : Barred id k u) (hv : Barred id k v) : Barred id k (u ++ v) := by
  intro q hq
  rw [appends_append] at hq
  rcases List.mem_append.mp hq with hq | hq
  · exact hu q hq
  · exact hv q hq

lemma Late.flush (h : Late id k l) (a : FlushAnswers Dup) :
    Late id k (l.flush blake3 a).1 ∧ Barred id k (l.flush blake3 a).2 :=
  ⟨(fun _ hq => by cases hq), fun q hq => h q ((appends_flush_sublist blake3 a l).subset hq)⟩

lemma Late.push (h : Late id k l) (hk : k < l.count) (body : Body) (bytes : ℕ) :
    Late id k (l.push body bytes) := by
  intro q hq hi
  rcases List.mem_append.mp hq with hq | hq
  · exact h q hq hi
  · rw [List.mem_singleton] at hq
    rw [hq]
    exact hk

lemma Late.receive (h : Late id k l) (hk : k < l.count) (a : FlushAnswers Dup) (m : Msg Dup) :
    Late id k (l.receive blake3 a m).1 ∧ Barred id k (l.receive blake3 a m).2 := by
  have hf := h.flush blake3 a
  cases m with
  | fileBegin f dup =>
    simp only [Loop.receive]
    split
    · exact ⟨h, barred_nil⟩
    · exact ⟨Late.push (l := (l.register f.fileId dup).forgive f.fileId) h hk _ _, barred_nil⟩
  | range r =>
    simp only [Loop.receive]
    split
    · exact ⟨h, barred_nil⟩
    · exact ⟨h.push hk _ _, barred_nil⟩
  | flush => exact hf
  | close i ack =>
    have ha : ∀ l' : Loop Dup, Barred id k (if ack then [l'.closed i] else []) := by
      intro l' q hq
      cases ack <;> cases hq
    simp only [Loop.receive]
    split
    · exact ⟨hf.1, hf.2.append (ha _)⟩
    · exact ⟨h, barred_nil.append (ha _)⟩
  | discard i => exact ⟨fun q hq => h q (List.mem_of_mem_filter hq), barred_nil⟩
  | drain => exact ⟨hf.1, hf.2.append fun q hq => by cases hq⟩
  | stop => exact hf

lemma late_discard (a : FlushAnswers Dup) (l : Loop Dup) (id : Bytes) (k : ℕ) :
    Late id k (l.receive blake3 a (.discard id)).1 := by
  intro q hq hi
  have hne := (List.mem_filter.mp hq).2
  simp only [ne_eq, decide_eq_true_eq] at hne
  exact absurd hi hne

lemma message_late {m : Msg Dup} (h : Late id k (l.receive blake3 t.asked m).1)
    (hb : Barred id k (l.receive blake3 t.asked m).2) : Barred id k (l.message blake3 flushBytes t m).2 ∧
      ∀ l', (l.message blake3 flushBytes t m).1 = some l' → Late id k l' ∧ l'.count = l.count + 1 := by
  have hf := Late.flush blake3 (l := { (l.receive blake3 t.asked m).1 with count := l.count + 1 }) h t.due
  simp only [Loop.message]
  split
  · exact ⟨hb, fun _ hl => by cases hl⟩
  split
  · exact ⟨hb, fun l' hl => Option.some.inj hl ▸ ⟨h, rfl⟩⟩
  split
  · exact ⟨hb.append hf.2, fun l' hl => Option.some.inj hl ▸ ⟨hf.1, rfl⟩⟩
  · exact ⟨hb, fun l' hl => Option.some.inj hl ▸ ⟨h, rfl⟩⟩

lemma turn_late (h : Late id k l) (hk : k < l.count) : Barred id k (l.turn blake3 flushBytes t).2 ∧
      ∀ l', (l.turn blake3 flushBytes t).1 = some l' → Late id k l' ∧ k < l'.count := by
  rw [Loop.turn]
  split
  · exact ⟨barred_nil, fun _ hl => by cases hl⟩
  cases t.received with
  | disconnected => exact ⟨barred_nil, fun _ hl => by cases hl⟩
  | timeout =>
    obtain ⟨hl, hb⟩ := h.flush blake3 t.asked
    exact ⟨hb, fun l' he => Option.some.inj he ▸ ⟨hl, hk⟩⟩
  | message m =>
    obtain ⟨hl, hb⟩ := h.receive blake3 hk t.asked m
    obtain ⟨hm, hn⟩ := message_late blake3 flushBytes hl hb
    refine ⟨hm, fun l' he => ?_⟩
    obtain ⟨hlate, hcount⟩ := hn l' he
    exact ⟨hlate, by omega⟩

lemma run_barred (ts : List (Turn Dup)) (h : Late id k l) (hk : k < l.count) :
    Barred id k (l.run blake3 flushBytes ts) := by
  induction ts generalizing l with
  | nil => exact barred_nil
  | cons t ts ih =>
    obtain ⟨hb, hn⟩ := turn_late blake3 flushBytes (t := t) h hk
    rw [Loop.run_cons]
    refine hb.append ?_
    cases hl : (l.turn blake3 flushBytes t).1 with
    | none => exact barred_nil
    | some l' =>
      obtain ⟨hlate, hcount⟩ := hn l' hl
      exact ih hlate hcount

lemma messages_message (t : Turn Dup) (l : Loop Dup) (m : Msg Dup) :
    messages (l.message blake3 flushBytes t m).2 = [] := by
  simp only [Loop.message]
  split
  · exact messages_receive blake3 t.asked l m
  split
  · exact messages_receive blake3 t.asked l m
  split
  · rw [messages_append, messages_receive, messages_flush]
    rfl
  · exact messages_receive blake3 t.asked l m

lemma mem_messages {m : Msg Dup} (u v : List (Event Dup)) : m ∈ messages (u ++ .received m :: v) := by
  rw [messages_append, messages_received]
  exact List.mem_append_right _ List.mem_cons_self

lemma turn_received {m : Msg Dup} (h : (l.turn blake3 flushBytes t).2 = u ++ .received m :: v) :
    u = [] ∧ v = (l.message blake3 flushBytes t m).2 ∧
      (l.turn blake3 flushBytes t).1 = (l.message blake3 flushBytes t m).1 := by
  have hmem := mem_messages (m := m) u v
  rw [← h] at hmem
  rw [Loop.turn] at h hmem ⊢
  split at h
  · next hab =>
    rw [if_pos hab] at hmem
    cases hmem
  next hab =>
  rw [if_neg hab] at hmem ⊢
  cases hr : t.received with
  | disconnected =>
    rw [hr] at hmem
    cases hmem
  | timeout =>
    simp only [hr, messages_flush] at hmem
    cases hmem
  | message m' =>
    rw [hr] at h
    cases u with
    | nil =>
      obtain ⟨hm, rfl⟩ := List.cons.inj h
      cases hm
      exact ⟨rfl, rfl, rfl⟩
    | cons e u =>
      have hx := mem_messages (m := m) u v
      have htail : (l.message blake3 flushBytes t m').2 = u ++ .received m :: v := (List.cons.inj h).2
      rw [← htail, messages_message] at hx
      cases hx

lemma turn_count {l' : Loop Dup} (h : (l.turn blake3 flushBytes t).1 = some l') :
    l'.count = l.count + (messages (l.turn blake3 flushBytes t).2).length := by
  rw [Loop.turn] at h ⊢
  split at h
  · cases h
  next hab =>
  rw [if_neg hab]
  cases hr : t.received with
  | disconnected =>
    rw [hr] at h
    cases h
  | timeout =>
    rw [hr] at h
    cases h
    simp only [messages_flush]
    rfl
  | message m =>
    rw [hr] at h
    rw [messages_received, messages_message]
    simp only [Loop.message] at h
    split at h
    · cases h
    split at h
    · cases h
      rfl
    split at h
    · cases h
      rfl
    · cases h
      rfl

lemma run_discard (ts : List (Turn Dup)) (h : l.run blake3 flushBytes ts = u ++ .received (.discard id) :: v) :
    Barred id (l.count + (messages u).length) v := by
  induction ts generalizing l u with
  | nil =>
    have hn := congrArg List.length h
    simp [Loop.run] at hn
  | cons t ts ih =>
    rw [Loop.run_cons] at h
    have hlater : ∀ u', u = (l.turn blake3 flushBytes t).2 ++ u' →
        (l.turn blake3 flushBytes t).1.elim [] (Loop.run blake3 flushBytes ts) = u' ++
          .received (.discard id) :: v → Barred id (l.count + (messages u).length) v := by
      intro u' hu hrest
      cases hl : (l.turn blake3 flushBytes t).1 with
      | none =>
        have hn := congrArg List.length hrest
        simp [hl] at hn
      | some l' =>
        rw [hl] at hrest
        have hb := ih hrest
        rw [turn_count blake3 flushBytes hl] at hb
        rw [hu, messages_append, List.length_append, ← Nat.add_assoc]
        exact hb
    rcases List.append_eq_append_iff.mp h with ⟨u', hu, hrest⟩ | ⟨w, ht, hw⟩
    · exact hlater u' hu hrest
    · cases w with
      | nil => exact hlater [] (by rw [ht, List.append_nil, List.append_nil]) hw.symm
      | cons e w =>
        obtain ⟨rfl, rfl⟩ := List.cons.inj hw
        obtain ⟨rfl, rfl, hl⟩ := turn_received blake3 flushBytes ht
        obtain ⟨hb, hn⟩ := message_late blake3 flushBytes (t := t) (late_discard blake3 t.asked l id l.count)
          barred_nil
        refine hb.append ?_
        rw [hl]
        cases hm : (l.message blake3 flushBytes t (.discard id)).1 with
        | none => exact barred_nil
        | some l' =>
          obtain ⟨hlate, hcount⟩ := hn l' hm
          exact run_barred blake3 flushBytes ts hlate (by omega)

end Discard

section Dead

variable (blake3 : Bytes → Digest) (flushBytes : ℕ) {operationId : Bytes} {generation seq : UInt64}
  {ms : List (Msg Dup)} {xs : List Queued} {l : Loop Dup} {m : Msg Dup} {t : Turn Dup} (a : FlushAnswers Dup)

lemma Flushing.SegmentFails.dead {f : Flushing Dup} (h : f.SegmentFails blake3)
    (hp : f.found.state.pending = f.found.queue.map Queued.entry) :
    (f.found.flush blake3 f.answers).1.state.dead = true := by
  obtain ⟨hne, hfail⟩ := h
  obtain ⟨y, es, hlog, -, he⟩ := flush_logged blake3 f.answers hp
  have happ : f.appended blake3 = es := by
    rw [Flushing.appended, Flushing.events, he]
    exact List.append_nil _
  rw [happ] at hne hfail
  exact hlog.fails (List.map_eq_nil_iff.not.mpr hne) hfail

lemma flushedOf_append (u v : List (Event Dup)) : flushedOf (u ++ v) = flushedOf u ++ flushedOf v :=
  List.filter_append _ _

lemma flushedOf_flush : flushedOf (l.flush blake3 a).2 = (l.flush blake3 a).2 := rfl

lemma receive_asks (h : l.asks m = true) : flushedOf (l.receive blake3 a m).2 = (l.flush blake3 a).2 ∧
    (l.receive blake3 a m).1.state.disk = (l.flush blake3 a).1.state.disk := by
  cases m with
  | flush => exact ⟨rfl, rfl⟩
  | close id ack =>
    simp only [Loop.asks] at h
    simp only [Loop.receive, h, if_true, flushedOf_append, flushedOf_flush]
    refine ⟨?_, rfl⟩
    cases ack <;> exact List.append_nil _
  | drain =>
    simp only [Loop.receive, flushedOf_append, flushedOf_flush]
    exact ⟨List.append_nil _, trivial⟩
  | stop => exact ⟨rfl, rfl⟩
  | _ => cases h

lemma receive_not_asks (h : l.asks m = false) : flushedOf (l.receive blake3 a m).2 = [] ∧
    (l.receive blake3 a m).1.state.disk = l.state.disk := by
  cases m with
  | fileBegin f dup =>
    simp only [Loop.receive]
    split <;> exact ⟨rfl, rfl⟩
  | range r =>
    simp only [Loop.receive]
    split <;> exact ⟨rfl, rfl⟩
  | close id ack =>
    simp only [Loop.asks] at h
    simp only [Loop.receive, h, Bool.false_eq_true, if_false, flushedOf_append]
    refine ⟨?_, rfl⟩
    cases ack <;> rfl
  | discard id => exact ⟨rfl, rfl⟩
  | _ => cases h

lemma receive_dead (hp : l.state.pending = l.queue.map Queued.entry) (hd : l.state.dead = true) (m : Msg Dup) :
    appends (l.receive blake3 a m).2 = [] ∧ (l.receive blake3 a m).1.state.disk = l.state.disk := by
  rw [← appends_flushedOf]
  by_cases h : l.asks m = true
  · obtain ⟨he, hs⟩ := receive_asks blake3 a h
    rw [he, hs]
    exact flush_dead blake3 a hp hd
  · obtain ⟨he, hs⟩ := receive_not_asks blake3 a (Bool.not_eq_true _ |>.mp h)
    rw [he]
    exact ⟨rfl, hs⟩

lemma message_cases (t : Turn Dup) (m : Msg Dup) (l : Loop Dup) :
    (l.dueFlush blake3 flushBytes t m = [] ∧ (l.message blake3 flushBytes t m).2 = (l.receive blake3 t.asked m).2 ∧
      (l.message blake3 flushBytes t m).1.getD (l.handled blake3 t m) = l.handled blake3 t m) ∨
    (l.dueFlush blake3 flushBytes t m = [⟨t.due, l.handled blake3 t m⟩] ∧ (l.message blake3 flushBytes t m).2 =
        (l.receive blake3 t.asked m).2 ++ ((l.handled blake3 t m).flush blake3 t.due).2 ∧
      (l.message blake3 flushBytes t m).1.getD (l.handled blake3 t m) =
      ((l.handled blake3 t m).flush blake3 t.due).1) := by
  by_cases hs : Loop.stops m = true
  · have hm : l.message blake3 flushBytes t m = (none, (l.receive blake3 t.asked m).2) := if_pos hs
    rw [hm]
    exact .inl ⟨if_pos (.inl hs), rfl, rfl⟩
  by_cases hk : l.skips m = true
  · have hm : l.message blake3 flushBytes t m = (some (l.handled blake3 t m), (l.receive blake3 t.asked m).2) :=
      (if_neg hs).trans (if_pos hk)
    rw [hm]
    exact .inl ⟨if_pos (.inr (.inl hk)), rfl, rfl⟩
  by_cases hd : (l.handled blake3 t m).isDue flushBytes t.timerDue = true
  · have hm : l.message blake3 flushBytes t m = (some ((l.handled blake3 t m).flush blake3 t.due).1,
        (l.receive blake3 t.asked m).2 ++ ((l.handled blake3 t m).flush blake3 t.due).2) :=
      (if_neg hs).trans ((if_neg hk).trans (if_pos hd))
    rw [hm]
    exact .inr ⟨if_neg (by tauto), rfl, rfl⟩
  · have hm : l.message blake3 flushBytes t m = (some (l.handled blake3 t m), (l.receive blake3 t.asked m).2) :=
      (if_neg hs).trans ((if_neg hk).trans (if_neg hd))
    rw [hm]
    exact .inl ⟨if_pos (.inr (.inr hd)), rfl, rfl⟩

lemma left_message (hab : ¬ (l.state.abandoned || t.abandoned) = true) (hr : t.received = .message m) :
    l.left blake3 flushBytes t = (l.message blake3 flushBytes t m).1.getD (l.handled blake3 t m) := by
  rw [Loop.left, Loop.turn, Loop.ended, if_neg hab, if_neg hab, hr]

lemma flushedOf_turn (t : Turn Dup) (l : Loop Dup) : flushedOf (l.turn blake3 flushBytes t).2 =
    (l.turnFlushes blake3 flushBytes t).flatMap (Flushing.events blake3) := by
  rw [Loop.turn, Loop.turnFlushes]
  split
  · rfl
  cases t.received with
  | disconnected => rfl
  | timeout => exact (List.append_nil _).symm
  | message m =>
    have hr : flushedOf (l.receive blake3 t.asked m).2 =
        (if l.asks m then [(⟨t.asked, l⟩ : Flushing Dup)] else []).flatMap (Flushing.events blake3) := by
      split
      · next h => exact (receive_asks blake3 t.asked h).1.trans (List.append_nil _).symm
      · next h => exact (receive_not_asks blake3 t.asked (Bool.not_eq_true _ |>.mp h)).1
    simp only [List.flatMap_append, ← hr]
    change flushedOf (l.message blake3 flushBytes t m).2 = _
    rcases message_cases blake3 flushBytes t m l with ⟨hd, he, -⟩ | ⟨hd, he, -⟩
    · rw [hd, he]
      exact (List.append_nil _).symm
    · rw [hd, he, flushedOf_append, flushedOf_flush]
      exact congrArg _ (List.append_nil _).symm

lemma flushedOf_run (ts : List (Turn Dup)) (l : Loop Dup) : flushedOf (l.run blake3 flushBytes ts) =
    (l.flushes blake3 flushBytes ts).flatMap (Flushing.events blake3) := by
  induction ts generalizing l with
  | nil => rfl
  | cons t ts ih =>
    rw [Loop.run_cons, Loop.flushes, flushedOf_append, flushedOf_turn, List.flatMap_append]
    cases (l.turn blake3 flushBytes t).1 with
    | none => rfl
    | some l' => exact congrArg _ (ih l')

lemma appends_run (ts : List (Turn Dup)) (l : Loop Dup) : appends (l.run blake3 flushBytes ts) =
    (l.flushes blake3 flushBytes ts).flatMap (Flushing.appended blake3) := by
  rw [← appends_flushedOf, flushedOf_run, appends, List.flatMap_assoc]
  rfl

variable (hl : Placed operationId generation seq ms xs l) (hc : l.count = ms.length)

include hl hc in
lemma Placed.handled (t : Turn Dup) (m : Msg Dup) : Placed operationId generation seq (ms ++ [m])
    (xs ++ appends (l.receive blake3 t.asked m).2) (l.handled blake3 t m) := by
  have h := hl.receive blake3 t.asked hc m
  exact h.shrink (List.Sublist.refl _) h.pending rfl rfl rfl rfl

include hl hc in
lemma turn_dead (t : Turn Dup) (hd : l.state.dead = true) : appends (l.turn blake3 flushBytes t).2 = [] ∧
    (l.left blake3 flushBytes t).state.disk = l.state.disk := by
  by_cases hab : (l.state.abandoned || t.abandoned) = true
  · rw [Loop.left, Loop.turn, Loop.ended, if_pos hab, if_pos hab]
    exact ⟨rfl, rfl⟩
  cases hr : t.received with
  | disconnected =>
    rw [Loop.left, Loop.turn, Loop.ended, if_neg hab, if_neg hab, hr]
    exact ⟨rfl, rfl⟩
  | timeout =>
    rw [Loop.left, Loop.turn, if_neg hab, hr]
    exact flush_dead blake3 t.asked hl.pending hd
  | message m =>
    obtain ⟨ha, hs⟩ := receive_dead blake3 t.asked hl.pending hd m
    rw [left_message blake3 flushBytes hab hr, Loop.turn, if_neg hab, hr]
    change appends (l.message blake3 flushBytes t m).2 = [] ∧ _
    rcases message_cases blake3 flushBytes t m l with ⟨-, hev, he⟩ | ⟨-, hev, he⟩
    · rw [hev, he]
      exact ⟨ha, hs⟩
    · have hdead : (l.handled blake3 t m).state.dead = true := (congrArg (·.2.2) hs).trans hd
      obtain ⟨hdue, hs'⟩ := flush_dead blake3 t.due (hl.handled blake3 hc t m).pending hdead
      rw [hev, he, appends_append, ha, hdue]
      exact ⟨rfl, hs'.trans hs⟩

include hl hc in
lemma run_dead (ts : List (Turn Dup)) (hd : l.state.dead = true) : appends (l.run blake3 flushBytes ts) = [] ∧
    (l.after blake3 flushBytes ts).state.disk = l.state.disk := by
  have hrun := after_induction blake3 flushBytes
    (P := fun ev l' => Placed operationId generation seq (ms ++ messages ev) (xs ++ appends ev) l' ∧
      l'.count = (ms ++ messages ev).length ∧ appends ev = [] ∧ l'.state.disk = l.state.disk)
    (fun ev l' t ⟨hl', hc', ha, hs⟩ => by
      have hdead : l'.state.dead = true := (congrArg (·.2.2) hs).trans hd
      obtain ⟨hl'', hc''⟩ := hl'.left blake3 flushBytes (t := t) hc'
      obtain ⟨ha', hs'⟩ := turn_dead blake3 flushBytes hl' hc' t hdead
      rw [messages_append, appends_append, ← List.append_assoc, ← List.append_assoc]
      exact ⟨hl'', hc'', by rw [ha, ha']; rfl, hs'.trans hs⟩)
    ts [] (l := l) ⟨by simpa [messages, appends] using hl, by simpa [messages] using hc, rfl, rfl⟩
  exact ⟨hrun.2.2.1, hrun.2.2.2⟩

include hl hc in
lemma turn_fails (t : Turn Dup) :
    (l.turnFlushes blake3 flushBytes t).Pairwise (fun f g => f.SegmentFails blake3 → g.appended blake3 = []) ∧
      ∀ f ∈ l.turnFlushes blake3 flushBytes t, f.SegmentFails blake3 →
        (f.found.flush blake3 f.answers).1.state.dead = true ∧
        (l.left blake3 flushBytes t).state.disk = (f.found.flush blake3 f.answers).1.state.disk := by
  by_cases hab : (l.state.abandoned || t.abandoned) = true
  · rw [Loop.turnFlushes, if_pos hab]
    exact ⟨.nil, fun _ hf => by cases hf⟩
  cases hr : t.received with
  | disconnected =>
    rw [Loop.turnFlushes, if_neg hab, hr]
    exact ⟨.nil, fun _ hf => by cases hf⟩
  | timeout =>
    rw [Loop.turnFlushes, if_neg hab, hr, Loop.left, Loop.turn, if_neg hab, hr]
    refine ⟨List.pairwise_singleton _ _, fun f hf hx => ?_⟩
    obtain rfl := List.mem_singleton.mp hf
    exact ⟨hx.dead blake3 hl.pending, rfl⟩
  | message m =>
    have hk := (hl.handled blake3 hc t m).pending
    have hasked : ∀ f ∈ (if l.asks m then [(⟨t.asked, l⟩ : Flushing Dup)] else []), f.SegmentFails blake3 →
        (f.found.flush blake3 f.answers).1.state.dead = true ∧
        (l.handled blake3 t m).state.disk = (f.found.flush blake3 f.answers).1.state.disk := by
      intro f hf hx
      split at hf
      · next ha =>
        obtain rfl := List.mem_singleton.mp hf
        exact ⟨hx.dead blake3 hl.pending, (receive_asks blake3 t.asked ha).2⟩
      · cases hf
    have hone : (if l.asks m then [(⟨t.asked, l⟩ : Flushing Dup)] else []).Pairwise
        (fun f g => f.SegmentFails blake3 → g.appended blake3 = []) := by
      split
      · exact List.pairwise_singleton _ _
      · exact .nil
    -- the flush that is due comes after the one the message asked for
    have hdue : ∀ f ∈ (if l.asks m then [(⟨t.asked, l⟩ : Flushing Dup)] else []), f.SegmentFails blake3 →
        Flushing.appended blake3 ⟨t.due, l.handled blake3 t m⟩ = [] ∧
        ((l.handled blake3 t m).flush blake3 t.due).1.state.disk =
          (f.found.flush blake3 f.answers).1.state.disk := by
      intro f hf hx
      obtain ⟨hd, hs⟩ := hasked f hf hx
      obtain ⟨ha, hs'⟩ := flush_dead blake3 t.due hk ((congrArg (·.2.2) hs).trans hd)
      exact ⟨ha, hs'.trans hs⟩
    rw [Loop.turnFlushes, if_neg hab, hr, left_message blake3 flushBytes hab hr]
    simp only
    rcases message_cases blake3 flushBytes t m l with ⟨hn, -, he⟩ | ⟨hn, -, he⟩
    · rw [hn, he, List.append_nil]
      exact ⟨hone, hasked⟩
    · rw [hn, he]
      refine ⟨List.pairwise_append.mpr ⟨hone, List.pairwise_singleton _ _, fun f hf g hg hx => ?_⟩,
        fun f hf hx => ?_⟩
      · obtain rfl := List.mem_singleton.mp hg
        exact (hdue f hf hx).1
      · rcases List.mem_append.mp hf with hf | hf
        · exact ⟨(hasked f hf hx).1, (hdue f hf hx).2⟩
        · obtain rfl := List.mem_singleton.mp hf
          exact ⟨hx.dead blake3 hk, rfl⟩

include hl hc in
lemma run_fails (ts : List (Turn Dup)) : (l.flushes blake3 flushBytes ts).Pairwise
    (fun f g => f.SegmentFails blake3 → g.appended blake3 = []) ∧
      ∀ f ∈ l.flushes blake3 flushBytes ts, f.SegmentFails blake3 →
        (l.after blake3 flushBytes ts).state.disk = (f.found.flush blake3 f.answers).1.state.disk := by
  induction ts generalizing ms xs l with
  | nil => exact ⟨.nil, fun _ hf => by cases hf⟩
  | cons t ts ih =>
    obtain ⟨hpass, hdead⟩ := turn_fails blake3 flushBytes hl hc t
    obtain ⟨hl', hc'⟩ := hl.left blake3 flushBytes (t := t) hc
    rw [Loop.flushes, Loop.after]
    rw [Loop.left] at hdead hl' hc'
    cases ht : (l.turn blake3 flushBytes t).1 with
    | none =>
      rw [Option.elim_none, Option.elim_none, List.append_nil]
      rw [ht] at hdead
      exact ⟨hpass, fun f hf hx => (hdead f hf hx).2⟩
    | some l' =>
      rw [ht] at hdead hl' hc'
      obtain ⟨hrest, hlast⟩ := ih hl' hc'
      have hnone : ∀ f ∈ l.turnFlushes blake3 flushBytes t, f.SegmentFails blake3 →
          appends (l'.run blake3 flushBytes ts) = [] ∧
            (l'.after blake3 flushBytes ts).state.disk = l'.state.disk := by
        intro f hf hx
        obtain ⟨hd, hs⟩ := hdead f hf hx
        exact run_dead blake3 flushBytes hl' hc' ts ((congrArg (·.2.2) hs).trans hd)
      refine ⟨List.pairwise_append.mpr ⟨hpass, hrest, fun f hf g hg hx => ?_⟩, fun f hf hx => ?_⟩
      · have happ := (hnone f hf hx).1
        rw [appends_run, List.flatMap_eq_nil_iff] at happ
        exact happ g hg
      · rcases List.mem_append.mp hf with hf | hf
        · exact (hnone f hf hx).2.trans (hdead f hf hx).2
        · exact hlast f hf hx

end Dead

lemma placed_start (o : Opened) (operationId : Bytes) (generation : UInt64) (durability : Durability) :
    Placed operationId generation o.nextSeq [] []
      (Loop.start (o.state operationId generation durability) : Loop Dup) :=
  ⟨rfl, .nil, (fun _ hq => by cases hq), rfl, rfl, rfl, (UInt64.add_zero _).symm⟩

section OnDisk

variable {blake3 : Bytes → Digest} {base : Option Bytes} {l : Loop Dup}

lemma OnDisk.loopFlush (h : OnDisk blake3 base l.state) (a : FlushAnswers Dup) :
    OnDisk blake3 base (l.flush blake3 a).1.state :=
  OnDisk.flush (s := l.entering a) (h.congr rfl) (State.flush_step blake3 (a.on l.handle) _)

lemma OnDisk.receive (h : OnDisk blake3 base l.state) (a : FlushAnswers Dup) (m : Msg Dup) :
    OnDisk blake3 base (l.receive blake3 a m).1.state := by
  by_cases hm : l.asks m = true
  · exact (h.loopFlush a).congr (receive_asks blake3 a hm).2
  · exact h.congr (receive_not_asks blake3 a (Bool.not_eq_true _ |>.mp hm)).2

lemma OnDisk.left (h : OnDisk blake3 base l.state) (flushBytes : ℕ) (t : Turn Dup) :
    OnDisk blake3 base (l.left blake3 flushBytes t).state := by
  by_cases hab : (l.state.abandoned || t.abandoned) = true
  · rw [Loop.left, Loop.turn, Loop.ended, if_pos hab, if_pos hab]
    exact h.congr rfl
  cases hr : t.received with
  | disconnected =>
    rw [Loop.left, Loop.turn, Loop.ended, if_neg hab, if_neg hab, hr]
    exact h.congr rfl
  | timeout =>
    rw [Loop.left, Loop.turn, if_neg hab, hr]
    exact h.loopFlush t.asked
  | message m =>
    have hk : OnDisk blake3 base (l.handled blake3 t m).state := h.receive t.asked m
    rw [left_message blake3 flushBytes hab hr]
    rcases message_cases blake3 flushBytes t m l with ⟨-, -, he⟩ | ⟨-, -, he⟩
    · rw [he]
      exact hk
    · rw [he]
      exact hk.loopFlush t.due

end OnDisk

lemma onDisk_start (o : Opened) (operationId : Bytes) (generation : UInt64) (durability : Durability) :
    OnDisk blake3 o.segment (o.state operationId generation durability) where
  present bytes h := ⟨0, by rw [List.take_zero, List.append_nil, show o.segment = some bytes from h]; rfl⟩
  live _ := by simp [Opened.state, encodeAll]

lemma run_placed (flushBytes : ℕ) (o : Opened) (operationId : Bytes) (generation : UInt64)
    (durability : Durability) (ts : List (Turn Dup)) :
    let start : Loop Dup := Loop.start (o.state operationId generation durability)
    let ev := start.run blake3 flushBytes ts
    let l := start.after blake3 flushBytes ts
    Placed operationId generation o.nextSeq (messages ev) (appends ev) l ∧ OnDisk blake3 o.segment l.state := by
  intro start ev l
  have hrun := after_induction blake3 flushBytes
    (P := fun ev l => Placed operationId generation o.nextSeq (messages ev) (appends ev) l ∧
      l.count = (messages ev).length ∧ OnDisk blake3 o.segment l.state)
    (fun ev l t ⟨hl, hc, hd⟩ => by
      obtain ⟨hl', hc'⟩ := hl.left blake3 flushBytes (t := t) hc
      rw [messages_append, appends_append]
      exact ⟨hl', hc', hd.left flushBytes t⟩)
    ts [] (l := start)
    ⟨placed_start o operationId generation durability, rfl,
      onDisk_start blake3 o operationId generation durability⟩
  exact ⟨hrun.1, hrun.2.2⟩

lemma run_tallied (flushBytes : UInt64) (o : Opened) (operationId : Bytes) (generation : UInt64)
    (durability : Durability) (ts : List (Turn Dup)) :
    let s := ((Loop.start (o.state operationId generation durability)).after blake3 flushBytes.toNat ts).state
    s.abandoned = false → s.Tallied :=
  after_induction blake3 flushBytes.toNat (P := fun _ l => l.state.abandoned = false → l.state.Tallied)
    (fun _ _ _ ht => left_tallied blake3 flushBytes.toNat_lt ht) ts [] fun _ =>
      State.Cleared.tallied ⟨rfl, rfl, rfl⟩

/-- Whatever arrives and whatever fails: the fields that describe the queue agree with it, nothing discarded is
appended, the records appended are numbered in the order they arrived and the segment holds them, and a segment
that failed gets nothing more. -/
theorem pending_queue_in_step (blake3 : Bytes → Digest) (flushBytes : UInt64) (o : Opened) (operationId : Bytes)
    (generation : UInt64) (durability : Durability) (ts : List (Turn Dup)) :
    let start : Loop Dup := Loop.start (o.state operationId generation durability)
    let ev := start.run blake3 flushBytes.toNat ts
    let s := (start.after blake3 flushBytes.toNat ts).state
    let flushes := start.flushes blake3 flushBytes.toNat ts
    (s.abandoned = false → s.pendingBytes = s.pendingSum ∧ (s.firstPending = true ↔ s.pending ≠ [])) ∧
    (∀ u id v, ev = u ++ .received (.discard id) :: v → ∀ q ∈ appends v, q.fileId = id →
      (messages u).length < q.index) ∧
    (s.appended = State.numbered operationId generation o.nextSeq ((appends ev).map Queued.body) ∧
      (appends ev).Pairwise (·.index < ·.index) ∧
      ∀ q ∈ appends ev, ∃ m, (messages ev)[q.index]? = some m ∧ m.entry = some q.entry) ∧
    ((∀ bytes, s.segment = some bytes → ∃ n, bytes = o.segment.getD [] ++ (encodeAll blake3 s.appended).take n) ∧
      (s.dead = false → s.segment.getD [] = o.segment.getD [] ++ encodeAll blake3 s.appended)) ∧
    appends ev = flushes.flatMap (Flushing.appended blake3) ∧
    (flushes.Pairwise fun f g => f.SegmentFails blake3 → g.appended blake3 = []) ∧
    ∀ f ∈ flushes, f.SegmentFails blake3 → s.segment = (f.found.flush blake3 f.answers).1.state.segment := by
  intro start ev s flushes
  have hstart : Placed operationId generation o.nextSeq [] [] start :=
    placed_start o operationId generation durability
  obtain ⟨hl, hdisk⟩ := run_placed blake3 flushBytes.toNat o operationId generation durability ts
  have htally := run_tallied blake3 flushBytes o operationId generation durability ts
  obtain ⟨hpairs, hlast⟩ := run_fails blake3 flushBytes.toNat hstart rfl ts
  refine ⟨fun ha => ⟨(htally ha).bytes, (htally ha).first⟩, fun u id v hev q hq hi => ?_, ⟨hl.appended, ?_, ?_⟩,
    ⟨hdisk.present, hdisk.live⟩, appends_run blake3 _ ts start, hpairs, fun f hf hx =>
      congrArg Prod.fst (hlast f hf hx)⟩
  · have hb := run_discard blake3 flushBytes.toNat ts hev q hq hi
    exact (Nat.le_add_left _ _).trans_lt hb
  · exact hl.increasing.sublist (List.sublist_append_left _ _)
  · exact fun q hq => hl.origin q (List.mem_append_left _ hq)

end Flux.Wal
