import Flux.Wal.Queue

namespace Flux.Wal

open Base

variable {Dup : Type} {blake3 : Bytes → Digest} {flushBytes : ℕ}

/-- `x` came with a message; its flush synced the duplicate that the file's latest `FileBegin` brought; and if
an attempt was open when it came, then that `FileBegin` is that attempt's. -/
def Backed (ms : List (Msg Dup)) (syncs : List (Sync Dup)) (x : Queued) : Prop :=
  (∃ m, ms[x.index]? = some m ∧ m.entry = some x.entry) ∧
    ∃ k d, (life x.fileId ms).latest = some ⟨k, some d⟩ ∧ ⟨x.fileId, d, none⟩ ∈ syncs ∧
      ((life x.fileId (ms.take (x.index + 1))).isOpen = true →
        (life x.fileId (ms.take (x.index + 1))).latest = some ⟨k, some d⟩)

def AllBacked : List (Msg Dup) → List (Event Dup) → Prop
  | _, [] => True
  | ms, .received m :: ev => AllBacked (ms ++ [m]) ev
  | ms, .flushed syncs es :: ev => (∀ x ∈ es, Backed ms syncs x) ∧ AllBacked ms ev
  | ms, .acked _ _ :: ev => AllBacked ms ev
  | ms, .drained _ :: ev => AllBacked ms ev

def Silent (id : Bytes) : List (Event Dup) → Prop
  | [] => True
  | .received (.fileBegin f _) :: ev => f.fileId = id ∨ Silent id ev
  | .flushed _ es :: ev => (∀ x ∈ es, x.fileId ≠ id) ∧ Silent id ev
  | _ :: ev => Silent id ev

def SilentAfterFault : List (Event Dup) → Prop
  | [] => True
  | .flushed syncs es :: ev =>
    (∀ y ∈ syncs, y.fault.isSome → (∀ x ∈ es, x.fileId ≠ y.fileId) ∧ Silent y.fileId ev) ∧ SilentAfterFault ev
  | _ :: ev => SilentAfterFault ev

variable {ms : List (Msg Dup)} {u w : List (Event Dup)}

lemma AllBacked.append {v : List (Event Dup)} (hu : AllBacked ms u) (hv : AllBacked (ms ++ messages u) v) :
    AllBacked ms (u ++ v) := by
  induction u generalizing ms with
  | nil => simpa [messages] using hv
  | cons e u ih =>
    cases e with
    | received m =>
      rw [messages_received, List.append_cons] at hv
      exact ih hu hv
    | flushed syncs es => exact ⟨hu.1, ih hu.2 hv⟩
    | acked id e => exact ih hu hv
    | drained f => exact ih hu hv

variable {es : List Queued} {id : Bytes} {l' : Loop Dup}

lemma AllBacked.flushed {syncs : List (Sync Dup)} (h : AllBacked ms (u ++ .flushed syncs es :: w)) :
    ∀ x ∈ es, Backed (ms ++ messages u) syncs x := by
  induction u generalizing ms with
  | nil =>
    rw [messages, List.filterMap_nil, List.append_nil]
    exact h.1
  | cons e u ih =>
    cases e with
    | received m =>
      rw [messages_received, List.append_cons]
      exact ih h
    | flushed syncs es => exact ih h.2
    | acked id e => exact ih h
    | drained f => exact ih h

lemma Silent.append {v : List (Event Dup)} (hu : Silent id u)
    (hv : (∀ f dup, Msg.fileBegin f dup ∈ messages u → f.fileId ≠ id) → Silent id v) : Silent id (u ++ v) := by
  induction u with
  | nil => exact hv fun _ _ h => by cases h
  | cons e u ih =>
    cases e with
    | received m =>
      cases m with
      | fileBegin f dup =>
        by_cases hf : f.fileId = id
        · exact .inl hf
        · refine .inr (ih (hu.resolve_left hf) fun h => hv fun g dup' hg => ?_)
          rcases List.mem_cons.mp hg with hg | hg
          · cases hg
            exact hf
          · exact h g dup' hg
      | _ =>
        refine ih hu fun h => hv fun g dup' hg => ?_
        rcases List.mem_cons.mp hg with hg | hg
        · cases hg
        · exact h g dup' hg
    | flushed syncs es => exact ⟨hu.1, ih hu.2 hv⟩
    | acked i e => exact ih hu hv
    | drained f => exact ih hu hv

lemma Silent.flushed {syncs : List (Sync Dup)} (h : Silent id (u ++ .flushed syncs es :: w))
    (hu : ∀ f dup, Msg.fileBegin f dup ∈ messages u → f.fileId ≠ id) : ∀ x ∈ es, x.fileId ≠ id := by
  induction u with
  | nil => exact h.1
  | cons e u ih =>
    cases e with
    | received m =>
      cases m with
      | fileBegin f dup =>
        refine ih (h.resolve_left (hu f dup List.mem_cons_self)) fun g dup' hg => ?_
        exact hu g dup' (List.mem_cons_of_mem _ hg)
      | _ => exact ih h fun g dup' hg => hu g dup' (List.mem_cons_of_mem _ hg)
    | flushed syncs es => exact ih h.2 hu
    | acked i e => exact ih h hu
    | drained f => exact ih h hu

lemma SilentAfterFault.flushed {syncs : List (Sync Dup)} (h : SilentAfterFault (u ++ .flushed syncs es :: w)) :
    ∀ y ∈ syncs, y.fault.isSome → (∀ x ∈ es, x.fileId ≠ y.fileId) ∧ Silent y.fileId w := by
  induction u with
  | nil => exact h.1
  | cons e u ih =>
    cases e with
    | received m => exact ih h
    | flushed syncs es => exact ih h.2
    | acked i e => exact ih h
    | drained f => exact ih h

structure Linked (l : Loop Dup) : Prop where
  strict : l.state.durability = .strict
  pending : l.state.pending = l.queue.map Queued.entry
  dups : ∀ id, id ∈ l.state.dups ↔ (l.handle id).isSome

structure Ready (ms : List (Msg Dup)) (l : Loop Dup) : Prop extends Linked l where
  origin : ∀ q ∈ l.queue, ∃ m, ms[q.index]? = some m ∧ m.entry = some q.entry
  registered : ∀ id d, l.handle id = some d → ∃ k, (life id ms).latest = some ⟨k, some d⟩
  belongs : ∀ q ∈ l.queue, (life q.fileId (ms.take (q.index + 1))).isOpen = true →
    (life q.fileId ms).latest = (life q.fileId (ms.take (q.index + 1))).latest

structure Kept (ms : List (Msg Dup)) (l : Loop Dup) : Prop extends Ready ms l where
  count : l.count = ms.length
  opened : ∀ id d, l.handle id = some d → (life id ms).isOpen = true
  current : ∀ q ∈ l.queue, (life q.fileId (ms.take (q.index + 1))).isOpen = true → (life q.fileId ms).isOpen = true
  dead : l.state.dead = true → l.queue = [] ∧ ∀ id, l.handle id = none

section Flush

variable (blake3) {ms : List (Msg Dup)} {l : Loop Dup} (a : FlushAnswers Dup)

lemma mem_syncs {y : List (Bytes × Option FsError)} {x : Sync Dup} :
    x ∈ l.syncs y ↔ (x.fileId, x.fault) ∈ y ∧ l.handle x.fileId = some x.dup := by
  rw [Loop.syncs, List.mem_filterMap]
  constructor
  · rintro ⟨⟨id, fault⟩, hy, hx⟩
    obtain ⟨d, hd, rfl⟩ := Option.map_eq_some_iff.mp hx
    exact ⟨hy, hd⟩
  · rintro ⟨hy, hd⟩
    exact ⟨_, hy, by rw [hd]; rfl⟩

lemma flush_backed (h : Ready ms l) : AllBacked ms (l.flush blake3 a).2 := by
  obtain ⟨y, es, hlog, hsub, he⟩ := flush_logged blake3 a h.pending
  rw [he]
  refine ⟨fun x hx => ?_, trivial⟩
  have hq := hsub.subset hx
  obtain ⟨hm, hs⟩ := (hlog.passed x.body (List.mem_map_of_mem hx)).2 h.strict
  obtain ⟨d, hd⟩ := Option.isSome_iff_exists.mp ((h.dups x.fileId).mp hm)
  obtain ⟨k, hk⟩ := h.registered x.fileId d hd
  exact ⟨h.origin x hq, k, d, hk, mem_syncs.mpr ⟨hs, hd⟩, fun ho => (h.belongs x hq ho).symm.trans hk⟩

lemma flush_silent (h : Linked l) (hf : l.state.Faulted id) : Silent id (l.flush blake3 a).2 := by
  obtain ⟨y, es, hlog, -, he⟩ := flush_logged blake3 a h.pending
  rw [he]
  refine ⟨fun x hx hi => ?_, trivial⟩
  have hi : x.body.fileId = id := hi
  exact (hlog.passed x.body (List.mem_map_of_mem hx)).1 (hi ▸ hf)

lemma linked_flush (h : Linked l) : Linked (l.flush blake3 a).1 := by
  have hf := State.flushed_flush blake3 (a.on l.handle) (l.entering a)
  refine ⟨hf.durability.trans h.strict, hf.pending, fun id => ?_⟩
  simp only [Loop.flush]
  split
  · next hm =>
    refine ⟨fun _ => ?_, fun _ => hm⟩
    rcases hf.dups with hd | hd
    · rw [hd] at hm
      exact (h.dups id).mp hm
    · rw [hd] at hm
      cases hm
  · next hm => exact ⟨fun hx => absurd hx hm, fun hx => by cases hx⟩

lemma flush_faulted (hf : l.state.Faulted id) : (l.flush blake3 a).1.state.Faulted id :=
  (State.flushed_flush blake3 (a.on l.handle) (l.entering a)).faults id hf

lemma flush_handle {d : Dup} (hd : (l.flush blake3 a).1.handle id = some d) : l.handle id = some d := by
  simp only [Loop.flush] at hd
  split at hd
  · exact hd
  · cases hd

lemma kept_flush (h : Kept ms l) : Kept ms (l.flush blake3 a).1 where
  toLinked := linked_flush blake3 a h.toLinked
  origin := by
    intro q hq
    cases hq
  registered := fun id d hd => h.registered id d (flush_handle blake3 a hd)
  belongs := by
    intro q hq
    cases hq
  count := h.count
  opened := fun id d hd => h.opened id d (flush_handle blake3 a hd)
  current := by
    intro q hq
    cases hq
  dead := by
    intro hd
    refine ⟨rfl, fun id => ?_⟩
    rcases (State.flushed_flush blake3 (a.on l.handle) (l.entering a)).dead hd with hl | hn
    · simp only [Loop.flush, (h.dead hl).2 id, ite_self]
    · simp [Loop.flush, hn]

lemma flush_then (h : Linked l) {rest : List (Event Dup)} (hr : SilentAfterFault rest)
    (hs : ∀ id, (l.flush blake3 a).1.state.Faulted id → Silent id rest) :
    SilentAfterFault ((l.flush blake3 a).2 ++ rest) := by
  obtain ⟨y, es, hlog, -, he⟩ := flush_logged blake3 a h.pending
  rw [he]
  refine ⟨fun x hx hf => ?_, hr⟩
  obtain ⟨hfault, hn⟩ := hlog.failed _ (mem_syncs.mp hx).1 hf
  exact ⟨fun q hq => hn q.body (List.mem_map_of_mem hq), hs _ hfault⟩

end Flush

section Receive

variable (blake3) {ms : List (Msg Dup)} {l : Loop Dup} {m : Msg Dup} (a : FlushAnswers Dup)

lemma linked_register (h : Linked l) (id : Bytes) (dup : Option Dup) : Linked (l.register id dup) := by
  refine ⟨h.strict, h.pending, fun i => ?_⟩
  have hi := h.dups i
  simp only [Loop.register]
  by_cases he : i = id
  · subst he
    rw [Function.update_self]
    split
    · next hd => simp [hd]
    · next hd => simp [hd]
  · rw [Function.update_of_ne he, ← hi]
    split
    · simp [he]
    · simp [he]

lemma linked_push (h : Linked l) (body : Body) (bytes : ℕ) : Linked (l.push body bytes) := by
  refine ⟨h.strict, ?_, h.dups⟩
  simp only [Loop.push, State.push, h.pending, List.map_append]
  rfl

lemma linked_dropPending (h : Linked l) (id : Bytes) : Linked (l.dropPending id) := by
  refine ⟨h.strict, ?_, h.dups⟩
  simp only [Loop.dropPending, h.pending, List.filter_map]
  rfl

lemma linked_receive (h : Linked l) (hm : Loop.stops m = false) : Linked (l.receive blake3 a m).1 := by
  cases m with
  | fileBegin f dup =>
    simp only [Loop.receive]
    split
    · exact h
    · apply linked_push
      exact ⟨h.strict, h.pending, (linked_register h f.fileId dup).dups⟩
  | range r =>
    simp only [Loop.receive]
    split
    · exact h
    · exact linked_push h _ _
  | flush => exact linked_flush blake3 a h
  | close id ack =>
    simp only [Loop.receive]
    split
    · exact linked_register (linked_flush blake3 a h) id none
    · exact linked_register h id none
  | discard id => exact linked_register (linked_dropPending h id) id none
  | drain => exact linked_flush blake3 a h
  | stop => cases hm

lemma receive_faulted (hf : l.state.Faulted id) (hm : ∀ f dup, m = .fileBegin f dup → f.fileId ≠ id) :
    (l.receive blake3 a m).1.state.Faulted id := by
  cases m with
  | fileBegin f dup =>
    simp only [Loop.receive]
    split
    · exact hf
    · simp only [Loop.push, Loop.forgive, Loop.register, State.push, State.Faulted]
      rw [AList.lookup_erase_ne (hm f dup rfl).symm]
      exact hf
  | range r =>
    simp only [Loop.receive]
    split <;> exact hf
  | flush => exact flush_faulted blake3 a hf
  | close i ack =>
    simp only [Loop.receive]
    split
    · exact flush_faulted blake3 a hf
    · exact hf
  | discard i => exact hf
  | drain => exact flush_faulted blake3 a hf
  | stop => exact flush_faulted blake3 a hf

lemma receive_silent (h : Linked l) (hf : l.state.Faulted id) : Silent id (l.receive blake3 a m).2 := by
  have hs := flush_silent blake3 a h hf
  cases m with
  | fileBegin f dup =>
    simp only [Loop.receive]
    split <;> trivial
  | range r =>
    simp only [Loop.receive]
    split <;> trivial
  | flush => exact hs
  | close i ack =>
    simp only [Loop.receive]
    refine Silent.append ?_ fun _ => ?_
    · split
      · exact hs
      · trivial
    · split <;> trivial
  | discard i => trivial
  | drain => exact hs.append fun _ => trivial
  | stop => exact hs

lemma receive_then (h : Linked l) {rest : List (Event Dup)} (hr : SilentAfterFault rest)
    (hs : ∀ id, (l.receive blake3 a m).1.state.Faulted id → Silent id rest) :
    SilentAfterFault ((l.receive blake3 a m).2 ++ rest) := by
  cases m with
  | fileBegin f dup =>
    simp only [Loop.receive]
    split <;> exact hr
  | range r =>
    simp only [Loop.receive]
    split <;> exact hr
  | flush => exact flush_then blake3 a h hr hs
  | close i ack =>
    simp only [Loop.receive] at hs ⊢
    rw [List.append_assoc]
    split
    · next hp =>
      simp only [if_pos hp] at hs
      apply flush_then _ _ h
      · split <;> exact hr
      · intro id hf
        split <;> exact hs id hf
    · split <;> exact hr
  | discard i => exact hr
  | drain =>
    simp only [Loop.receive]
    rw [List.append_assoc]
    exact flush_then blake3 a h hr hs
  | stop => exact flush_then blake3 a h hr hs

end Receive

section Keep

variable (blake3) {ms : List (Msg Dup)} {l : Loop Dup} {m : Msg Dup} (a : FlushAnswers Dup)

lemma Ready.index_lt (h : Ready ms l) {q : Queued} (hq : q ∈ l.queue) : q.index < ms.length := by
  obtain ⟨m, hm, -⟩ := h.origin q hq
  exact (List.getElem?_eq_some_iff.mp hm).1

lemma Ready.take_concat (h : Ready ms l) {q : Queued} (hq : q ∈ l.queue) (m : Msg Dup) :
    (ms ++ [m]).take (q.index + 1) = ms.take (q.index + 1) :=
  List.take_append_of_le_length (h.index_lt hq)

lemma Ready.origin_concat (h : Ready ms l) {q : Queued} (hq : q ∈ l.queue) (m : Msg Dup) :
    ∃ m', (ms ++ [m])[q.index]? = some m' ∧ m'.entry = some q.entry := by
  obtain ⟨m', hm, he⟩ := h.origin q hq
  exact ⟨m', by rw [List.getElem?_append_left (h.index_lt hq), hm], he⟩

lemma latest_after (id : Bytes) (k : ℕ) (x : Life Dup) (hm : ∀ f dup, m ≠ .fileBegin f dup) :
    (x.after id k m).latest = x.latest := by
  cases m with
  | fileBegin f dup => exact absurd rfl (hm f dup)
  | close c ack =>
    simp only [Life.after]
    split <;> rfl
  | discard c =>
    simp only [Life.after]
    split <;> rfl
  | _ => rfl

lemma Kept.ready_concat (h : Kept ms l) (hm : ∀ f dup, m ≠ .fileBegin f dup) : Ready (ms ++ [m]) l where
  toLinked := h.toLinked
  origin := fun q hq => h.origin_concat hq m
  registered := by
    intro id d hd
    rw [life_concat, latest_after _ _ _ hm]
    exact h.registered id d hd
  belongs := by
    intro q hq
    rw [h.take_concat hq, life_concat, latest_after _ _ _ hm]
    exact h.belongs q hq

lemma Kept.closing (h : Kept ms l) (ids : List Bytes) (hq : ∀ q ∈ l.queue, q.fileId ∉ ids)
    (hh : ∀ id ∈ ids, l.handle id = none)
    (hm : ∀ id k (x : Life Dup), x.after id k m = if id ∈ ids then { x with isOpen := false } else x) :
    Kept (ms ++ [m]) { l with count := l.count + 1 } where
  strict := h.strict
  pending := h.pending
  dups := h.dups
  origin := fun q hq => h.origin_concat hq m
  registered := by
    intro id d hd
    have hi : id ∉ ids := fun hi => by cases (hh id hi).symm.trans hd
    rw [life_concat, hm, if_neg hi]
    exact h.registered id d hd
  belongs := by
    intro q hmem
    rw [h.take_concat hmem, life_concat, hm, if_neg (hq q hmem)]
    exact h.belongs q hmem
  count := by rw [List.length_append, ← h.count]; rfl
  opened := by
    intro id d hd
    have hi : id ∉ ids := fun hi => by cases (hh id hi).symm.trans hd
    rw [life_concat, hm, if_neg hi]
    exact h.opened id d hd
  current := by
    intro q hmem
    rw [h.take_concat hmem, life_concat, hm, if_neg (hq q hmem)]
    exact h.current q hmem
  dead := h.dead

lemma Kept.same (h : Kept ms l) (hm : ∀ id k (x : Life Dup), x.after id k m = x) :
    Kept (ms ++ [m]) { l with count := l.count + 1 } :=
  h.closing [] (by simp) (by simp) (by simpa using hm)

lemma kept_register_none (h : Kept ms l) (id : Bytes) : Kept ms (l.register id none) where
  toLinked := linked_register h.toLinked id none
  origin := h.origin
  registered := fun i d hd => h.registered i d (Loop.register_none_handle hd)
  belongs := h.belongs
  count := h.count
  opened := fun i d hd => h.opened i d (Loop.register_none_handle hd)
  current := h.current
  dead := by
    intro hd
    refine ⟨(h.dead hd).1, fun i => ?_⟩
    by_contra hn
    obtain ⟨d, hi⟩ := Option.ne_none_iff_exists'.mp hn
    cases ((h.dead hd).2 i).symm.trans (Loop.register_none_handle hi)

lemma kept_dropPending (h : Kept ms l) (id : Bytes) : Kept ms (l.dropPending id) where
  toLinked := linked_dropPending h.toLinked id
  origin := fun q hq => h.origin q (List.mem_of_mem_filter hq)
  registered := h.registered
  belongs := fun q hq => h.belongs q (List.mem_of_mem_filter hq)
  count := h.count
  opened := h.opened
  current := fun q hq => h.current q (List.mem_of_mem_filter hq)
  dead := by
    intro hd
    refine ⟨?_, (h.dead hd).2⟩
    simp [Loop.dropPending, (h.dead hd).1]

lemma kept_closed (h : Kept ms l) (hq : ∀ q ∈ l.queue, q.fileId ≠ id)
    (hm : ∀ i k (x : Life Dup), x.after i k m = if id = i then { x with isOpen := false } else x) :
    Kept (ms ++ [m]) { l.register id none with count := l.count + 1 } := by
  refine (kept_register_none h id).closing [id] ?_ ?_ ?_
  · intro q hmem hi
    exact hq q hmem (List.mem_singleton.mp hi)
  · intro i hi
    rw [List.mem_singleton.mp hi, Loop.register_handle, Function.update_self]
  · intro i k x
    rw [hm]
    simp only [List.mem_singleton, eq_comm]

lemma kept_push (body : Body) (h : Kept ms l) (hl : Linked l') (hq : l'.queue = l.queue ++ [⟨l.count, body⟩])
    (he : m.entry = some (body.fileId, body)) (hd : l'.state.dead = false)
    (hh : ∀ i d, l'.handle i = some d → life i (ms ++ [m]) = ⟨(life i (ms ++ [m])).latest, true⟩ ∧
      ∃ k, (life i (ms ++ [m])).latest = some ⟨k, some d⟩)
    (ho : ∀ q ∈ l.queue, (life q.fileId (ms.take (q.index + 1))).isOpen = true →
      life q.fileId (ms ++ [m]) = life q.fileId ms) : Kept (ms ++ [m]) { l' with count := l.count + 1 } where
  strict := hl.strict
  pending := hl.pending
  dups := hl.dups
  origin := by
    intro q hmem
    rw [hq, List.mem_append, List.mem_singleton] at hmem
    rcases hmem with hmem | rfl
    · exact h.origin_concat hmem m
    · refine ⟨m, ?_, he⟩
      rw [h.count, List.getElem?_concat_length]
  registered := fun i d hi => (hh i d hi).2
  belongs := by
    intro q hmem
    rw [hq, List.mem_append, List.mem_singleton] at hmem
    rcases hmem with hmem | rfl
    · intro hopen
      rw [h.take_concat hmem] at hopen ⊢
      rw [ho q hmem hopen]
      exact h.belongs q hmem hopen
    · intro _
      rw [h.count, List.take_of_length_le (by simp)]
  count := by rw [List.length_append, ← h.count]; rfl
  opened := by
    intro i d hi
    rw [(hh i d hi).1]
  current := by
    intro q hmem
    rw [hq, List.mem_append, List.mem_singleton] at hmem
    rcases hmem with hmem | rfl
    · intro hopen
      rw [h.take_concat hmem] at hopen
      rw [ho q hmem hopen]
      exact h.current q hmem hopen
    · intro hopen
      rw [h.count, List.take_of_length_le (by simp)] at hopen
      exact hopen
  dead := by
    intro hx
    rw [hd] at hx
    cases hx

lemma kept_fileBegin (h : Kept ms l) {f : FileBegin} {dup : Option Dup} (hf : (life f.fileId ms).isOpen = false) :
    Kept (ms ++ [.fileBegin f dup]) { (l.receive blake3 a (.fileBegin f dup)).1 with count := l.count + 1 } := by
  have hlife : ∀ i, i ≠ f.fileId → life i (ms ++ [.fileBegin f dup]) = life i ms := by
    intro i hi
    rw [life_concat, Life.after, if_neg hi.symm]
  have hself : life f.fileId (ms ++ [.fileBegin f dup]) = ⟨some ⟨ms.length, dup⟩, true⟩ := by
    rw [life_concat, Life.after, if_pos rfl]
  simp only [Loop.receive]
  split
  · next hdead =>
    have hq := (h.dead hdead).1
    have hn := (h.dead hdead).2
    refine ⟨⟨⟨h.strict, h.pending, h.dups⟩, ?_, ?_, ?_⟩, ?_, ?_, ?_, h.dead⟩
    · intro q hmem
      rw [hq] at hmem
      cases hmem
    · intro i d hi
      cases (hn i).symm.trans hi
    · intro q hmem
      rw [hq] at hmem
      cases hmem
    · rw [List.length_append, ← h.count]
      rfl
    · intro i d hi
      cases (hn i).symm.trans hi
    · intro q hmem
      rw [hq] at hmem
      cases hmem
  · next hdead =>
    apply kept_push (.fileBegin f) h
    · apply linked_push
      exact ⟨h.strict, h.pending, (linked_register h.toLinked f.fileId dup).dups⟩
    · rfl
    · rfl
    · exact Bool.not_eq_true _ |>.mp hdead
    · intro i d hi
      by_cases he : i = f.fileId
      · subst he
        have hi' : dup = some d := by
          have : Function.update l.handle f.fileId dup f.fileId = some d := hi
          rwa [Function.update_self] at this
        rw [hself, hi']
        exact ⟨rfl, _, rfl⟩
      · have hi' : l.handle i = some d := by
          have : Function.update l.handle f.fileId dup i = some d := hi
          rwa [Function.update_of_ne he] at this
        rw [hlife i he]
        refine ⟨?_, h.registered i d hi'⟩
        rw [← h.opened i d hi']
    · intro q hmem hopen
      apply hlife
      intro he
      have := h.current q hmem hopen
      rw [he, hf] at this
      cases this

lemma kept_receive (h : Kept ms l) (hf : ∀ f dup, m = .fileBegin f dup → (life f.fileId ms).isOpen = false)
    (hs : Loop.stops m = false) :
    Kept (ms ++ [m]) { (l.receive blake3 a m).1 with count := l.count + 1 } := by
  cases m with
  | fileBegin f dup => exact kept_fileBegin blake3 a h (hf f dup rfl)
  | range r =>
    have hm : ∀ id k (x : Life Dup), x.after id k (.range r) = x := fun _ _ _ => rfl
    simp only [Loop.receive]
    split
    · exact h.same hm
    · next hdead =>
      apply kept_push (.range r) h
      · exact linked_push h.toLinked _ _
      · rfl
      · rfl
      · exact Bool.not_eq_true _ |>.mp hdead
      · intro i d hi
        rw [life_concat, hm]
        refine ⟨?_, h.registered i d hi⟩
        rw [← h.opened i d hi]
      · intro q _ _
        rw [life_concat, hm]
  | flush => exact (kept_flush blake3 a h).same fun _ _ _ => rfl
  | close id ack =>
    simp only [Loop.receive]
    split
    · exact kept_closed (kept_flush blake3 a h) (fun q hq => by cases hq) fun _ _ _ => rfl
    · next hp =>
      refine kept_closed h ?_ fun _ _ _ => rfl
      intro q hq he
      apply hp
      rw [h.pending, List.any_map, List.any_eq_true]
      exact ⟨q, hq, decide_eq_true he⟩
  | discard id =>
    refine kept_closed (kept_dropPending h id) ?_ fun _ _ _ => rfl
    intro q hq
    simpa using (List.mem_filter.mp hq).2
  | drain => exact (kept_flush blake3 a h).same fun _ _ _ => rfl
  | stop => cases hs

lemma receive_backed (h : Kept ms l) : AllBacked (ms ++ [m]) (l.receive blake3 a m).2 := by
  cases m with
  | fileBegin f dup =>
    simp only [Loop.receive]
    split <;> trivial
  | range r =>
    simp only [Loop.receive]
    split <;> trivial
  | flush => exact flush_backed blake3 a (h.ready_concat (by simp))
  | close id ack =>
    have hb := flush_backed blake3 a (h.ready_concat (m := .close id ack) (by simp))
    simp only [Loop.receive]
    apply AllBacked.append
    · split
      · exact hb
      · trivial
    · cases ack <;> trivial
  | discard id => trivial
  | drain =>
    exact (flush_backed blake3 a (h.ready_concat (by simp))).append trivial
  | stop => exact flush_backed blake3 a (h.ready_concat (by simp))

end Keep

section Run

variable (blake3) (flushBytes) {ms : List (Msg Dup)} {l : Loop Dup} {t : Turn Dup}

lemma linked_count (h : Linked l) (n : ℕ) : Linked { l with count := n } := ⟨h.strict, h.pending, h.dups⟩

variable {m : Msg Dup}

lemma message_kept (h : Kept ms l) (hf : ∀ f dup, m = .fileBegin f dup → (life f.fileId ms).isOpen = false) :
    AllBacked (ms ++ [m]) (l.message blake3 flushBytes t m).2 ∧ messages (l.message blake3 flushBytes t m).2 = [] ∧
      ∀ l', (l.message blake3 flushBytes t m).1 = some l' → Kept (ms ++ [m]) l' := by
  have hb := receive_backed blake3 t.asked (m := m) h
  have hm := messages_receive blake3 t.asked l m
  simp only [Loop.message]
  split
  · exact ⟨hb, hm, fun _ hl => by cases hl⟩
  next hs =>
  have hk := kept_receive blake3 t.asked h hf (Bool.not_eq_true _ |>.mp hs)
  split
  · exact ⟨hb, hm, fun l' hl => Option.some.inj hl ▸ hk⟩
  split
  · refine ⟨hb.append ?_, ?_, fun l' hl => Option.some.inj hl ▸ kept_flush blake3 t.due hk⟩
    · rw [hm, List.append_nil]
      exact flush_backed blake3 t.due hk.toReady
    · rw [messages_append, hm, messages_flush]
      rfl
  · exact ⟨hb, hm, fun l' hl => Option.some.inj hl ▸ hk⟩

lemma turn_kept (h : Kept ms l) (ha : OneAtATime (ms ++ messages (l.turn blake3 flushBytes t).2)) :
    AllBacked ms (l.turn blake3 flushBytes t).2 ∧
      ∀ l', (l.turn blake3 flushBytes t).1 = some l' →
      Kept (ms ++ messages (l.turn blake3 flushBytes t).2) l' := by
  rw [Loop.turn] at ha ⊢
  split at ha
  · next hab =>
    rw [if_pos hab]
    exact ⟨trivial, fun _ hl => by cases hl⟩
  next hab =>
  rw [if_neg hab]
  cases hr : t.received with
  | disconnected => exact ⟨trivial, fun _ hl => by cases hl⟩
  | timeout =>
    refine ⟨flush_backed blake3 t.asked h.toReady, ?_⟩
    rintro l' ⟨⟩
    rw [messages_flush, List.append_nil]
    exact kept_flush blake3 t.asked h
  | message m =>
    rw [hr] at ha
    simp only [messages_received] at ha ⊢
    obtain ⟨hb, hm, hk⟩ := message_kept blake3 flushBytes (t := t) (m := m) h fun f dup hf =>
      ha ms f dup _ (by rw [hf])
    refine ⟨hb, fun l' hl => ?_⟩
    rw [hm]
    exact hk l' hl

lemma run_backed (ts : List (Turn Dup)) (h : Kept ms l)
    (ha : OneAtATime (ms ++ messages (l.run blake3 flushBytes ts))) :
    AllBacked ms (l.run blake3 flushBytes ts) := by
  induction ts generalizing ms l with
  | nil => trivial
  | cons t ts ih =>
    rw [Loop.run_cons] at ha ⊢
    rw [messages_append, ← List.append_assoc] at ha
    have hpre : OneAtATime (ms ++ messages (l.turn blake3 flushBytes t).2) := by
      intro u f dup v hu
      exact ha u f dup (v ++ _) (by rw [hu, List.append_assoc]; rfl)
    obtain ⟨hb, hk⟩ := turn_kept blake3 flushBytes h hpre
    apply hb.append
    cases hl : (l.turn blake3 flushBytes t).1 with
    | none => trivial
    | some l' =>
      rw [hl] at ha
      exact ih (hk l' hl) ha

lemma message_silent (h : Linked l) (hf : l.state.Faulted id)
    (hm : ∀ f dup, m = .fileBegin f dup → f.fileId ≠ id) : Silent id (l.message blake3 flushBytes t m).2 ∧
      ∀ l', (l.message blake3 flushBytes t m).1 = some l' → l'.state.Faulted id := by
  have hs := receive_silent blake3 t.asked (m := m) h hf
  have hf' := receive_faulted blake3 t.asked hf hm
  simp only [Loop.message]
  split
  · exact ⟨hs, fun _ hl => by cases hl⟩
  next hstop =>
  have hl := linked_count (linked_receive blake3 t.asked h (Bool.not_eq_true _ |>.mp hstop)) (l.count + 1)
  split
  · exact ⟨hs, fun l' hl => Option.some.inj hl ▸ hf'⟩
  split
  · exact ⟨hs.append fun _ => flush_silent blake3 t.due hl hf', fun l' hl =>
      Option.some.inj hl ▸ flush_faulted blake3 t.due hf'⟩
  · exact ⟨hs, fun l' hl => Option.some.inj hl ▸ hf'⟩

lemma message_linked (h : Linked l) (hl : (l.message blake3 flushBytes t m).1 = some l') : Linked l' := by
  simp only [Loop.message] at hl
  split at hl
  · cases hl
  next hstop =>
  have hk := linked_count (linked_receive blake3 t.asked h (Bool.not_eq_true _ |>.mp hstop)) (l.count + 1)
  split at hl
  · exact Option.some.inj hl ▸ hk
  split at hl
  · exact Option.some.inj hl ▸ linked_flush blake3 t.due hk
  · exact Option.some.inj hl ▸ hk

lemma turn_linked (h : Linked l) (hl : (l.turn blake3 flushBytes t).1 = some l') : Linked l' := by
  simp only [Loop.turn] at hl
  split at hl
  · cases hl
  split at hl
  · cases hl
  · exact Option.some.inj hl ▸ linked_flush blake3 t.asked h
  · exact message_linked blake3 flushBytes h hl

lemma silent_received {ev : List (Event Dup)}
    (h : (∀ f dup, m = .fileBegin f dup → f.fileId ≠ id) → Silent id ev) : Silent id (.received m :: ev) := by
  cases m with
  | fileBegin f dup =>
    by_cases hf : f.fileId = id
    · exact .inl hf
    · refine .inr (h ?_)
      rintro _ _ ⟨⟩
      exact hf
  | _ => exact h fun _ _ hm => by cases hm

lemma turn_silent (h : Linked l) (hf : l.state.Faulted id) {rest : List (Event Dup)}
    (hn : (l.turn blake3 flushBytes t).1 = none → Silent id rest)
    (hs : ∀ l', (l.turn blake3 flushBytes t).1 = some l' → l'.state.Faulted id → Silent id rest) :
    Silent id ((l.turn blake3 flushBytes t).2 ++ rest) := by
  rw [Loop.turn] at hn hs ⊢
  split at hn
  · next hab =>
    rw [if_pos hab]
    exact hn rfl
  next hab =>
  rw [if_neg hab] at hs ⊢
  cases hr : t.received with
  | disconnected =>
    rw [hr] at hn
    exact hn rfl
  | timeout =>
    rw [hr] at hs
    exact (flush_silent blake3 t.asked h hf).append fun _ => hs _ rfl (flush_faulted blake3 t.asked hf)
  | message m =>
    rw [hr] at hn hs
    apply silent_received
    intro hm
    obtain ⟨hsil, hfault⟩ := message_silent blake3 flushBytes (t := t) h hf hm
    apply hsil.append
    intro _
    cases hl : (l.message blake3 flushBytes t m).1 with
    | none => exact hn hl
    | some l' => exact hs l' hl (hfault l' hl)

lemma run_silent (ts : List (Turn Dup)) (h : Linked l) (hf : l.state.Faulted id) :
    Silent id (l.run blake3 flushBytes ts) := by
  induction ts generalizing l with
  | nil => trivial
  | cons t ts ih =>
    rw [Loop.run_cons]
    apply turn_silent blake3 flushBytes h hf
    · intro hl
      rw [hl]
      trivial
    · intro l' hl hf'
      rw [hl]
      exact ih (turn_linked blake3 flushBytes h hl) hf'

lemma message_then {rest : List (Event Dup)} (h : Linked l) (hr : SilentAfterFault rest)
    (hn : (l.message blake3 flushBytes t m).1 = none → ∀ id, Silent id rest)
    (hs : ∀ l', (l.message blake3 flushBytes t m).1 = some l' → ∀ id, l'.state.Faulted id → Silent id rest) :
    SilentAfterFault ((l.message blake3 flushBytes t m).2 ++ rest) := by
  simp only [Loop.message] at hn hs ⊢
  split at hn
  · next hstop =>
    rw [if_pos hstop]
    exact receive_then blake3 t.asked h hr fun id _ => hn rfl id
  next hstop =>
  have hl := linked_count (linked_receive blake3 t.asked h (Bool.not_eq_true _ |>.mp hstop)) (l.count + 1)
  simp only [if_neg hstop] at hs ⊢
  split at hs
  · next hskip =>
    have hs' := hs _ rfl
    rw [if_pos hskip]
    exact receive_then blake3 t.asked h hr hs'
  next hskip =>
  rw [if_neg hskip]
  split at hs
  · next hdue =>
    rw [if_pos hdue, List.append_assoc]
    apply receive_then _ _ h
    · exact flush_then blake3 t.due hl hr (hs _ rfl)
    · intro id hf
      exact (flush_silent blake3 t.due hl hf).append fun _ => hs _ rfl id (flush_faulted blake3 t.due hf)
  · next hdue =>
    have hs' := hs _ rfl
    rw [if_neg hdue]
    exact receive_then blake3 t.asked h hr hs'

lemma turn_then {rest : List (Event Dup)} (h : Linked l) (hr : SilentAfterFault rest)
    (hn : (l.turn blake3 flushBytes t).1 = none → ∀ id, Silent id rest)
    (hs : ∀ l', (l.turn blake3 flushBytes t).1 = some l' → ∀ id, l'.state.Faulted id → Silent id rest) :
    SilentAfterFault ((l.turn blake3 flushBytes t).2 ++ rest) := by
  rw [Loop.turn] at hn hs ⊢
  split at hn
  · next hab =>
    rw [if_pos hab]
    exact hr
  next hab =>
  rw [if_neg hab] at hs ⊢
  cases hx : t.received with
  | disconnected => exact hr
  | timeout =>
    rw [hx] at hs
    exact flush_then blake3 t.asked h hr (hs _ rfl)
  | message m =>
    rw [hx] at hn hs
    exact message_then blake3 flushBytes h hr hn hs

lemma run_silentAfterFault (ts : List (Turn Dup)) (h : Linked l) :
    SilentAfterFault (l.run blake3 flushBytes ts) := by
  induction ts generalizing l with
  | nil => trivial
  | cons t ts ih =>
    rw [Loop.run_cons]
    apply turn_then blake3 flushBytes h
    · cases hl : (l.turn blake3 flushBytes t).1 with
      | none => trivial
      | some l' => exact ih (turn_linked blake3 flushBytes h hl)
    · intro hl id
      rw [hl]
      trivial
    · intro l' hl id hf
      rw [hl]
      exact run_silent blake3 flushBytes ts (turn_linked blake3 flushBytes h hl) hf

end Run

structure Flushing.Told (blake3 : Bytes → Digest) (f : Flushing Dup) (syncs : List (Sync Dup)) (es : List Queued) :
    Prop where
  events : f.events blake3 = [.flushed syncs es]
  synced : (f.found.flush blake3 f.answers).1.state.synced =
    f.found.state.synced ++ syncs.map fun y => (y.fileId, y.fault)
  answered : ∀ y ∈ syncs, f.found.handle y.fileId = some y.dup ∧ f.answers.sync y.dup = y.fault
  appended : (f.found.flush blake3 f.answers).1.state.appended = f.found.state.appended ++
    State.numbered f.found.state.operationId f.found.state.generation f.found.state.nextSeq (es.map Queued.body)
  unwritten : es = [] → (f.found.flush blake3 f.answers).1.state.segment = f.found.state.segment
  written : es ≠ [] → ∃ m, (f.found.flush blake3 f.answers).1.state.segment =
    some (f.found.state.segment.getD [] ++
      (encodeAll blake3 (State.numbered f.found.state.operationId f.found.state.generation f.found.state.nextSeq
        (es.map Queued.body))).take m) ∧
    ((f.found.flush blake3 f.answers).1.state.dead = false → (encodeAll blake3 (State.numbered
      f.found.state.operationId f.found.state.generation f.found.state.nextSeq (es.map Queued.body))).length ≤ m)

section Told

variable (blake3) (flushBytes) {l : Loop Dup}

lemma syncs_synced (h : Linked l) {y : List (Bytes × Option FsError)} (hy : ∀ x ∈ y, x.1 ∈ l.state.dups) :
    ((l.syncs y).map fun x => (x.fileId, x.fault)) = y := by
  induction y with
  | nil => rfl
  | cons x y ih =>
    obtain ⟨d, hd⟩ := Option.isSome_iff_exists.mp ((h.dups x.1).mp (hy x List.mem_cons_self))
    have hrest := ih fun x hx => hy x (List.mem_cons_of_mem _ hx)
    rw [Loop.syncs] at hrest ⊢
    rw [List.filterMap_cons_some (by rw [hd]; rfl), List.map_cons, hrest]

lemma told_flush (h : Linked l) (a : FlushAnswers Dup) : ∃ syncs es, Flushing.Told blake3 ⟨a, l⟩ syncs es := by
  obtain ⟨y, es, hlog, -, he⟩ := flush_logged blake3 a h.pending
  refine ⟨l.syncs y, es, he, ?_, fun x hx => ?_, hlog.appended, fun hn => ?_, fun hn => ?_⟩
  · rw [syncs_synced h fun x hx => (hlog.asked x hx).1]
    exact hlog.synced
  · obtain ⟨hy, hd⟩ := mem_syncs.mp hx
    refine ⟨hd, ?_⟩
    have hanswer := (hlog.asked _ hy).2
    simpa [FlushAnswers.on, hd] using hanswer
  · exact (hlog.idle (by rw [hn]; rfl)).1
  · exact (hlog.written (List.map_eq_nil_iff.not.mpr hn)).2

lemma turnFlushes_linked (h : Linked l) (t : Turn Dup) :
    ∀ f ∈ l.turnFlushes blake3 flushBytes t, Linked f.found := by
  intro f hf
  rw [Loop.turnFlushes] at hf
  split at hf
  · cases hf
  cases hr : t.received with
  | disconnected =>
    rw [hr] at hf
    cases hf
  | timeout =>
    rw [hr] at hf
    rw [List.mem_singleton.mp hf]
    exact h
  | message m =>
    rw [hr] at hf
    rcases List.mem_append.mp hf with hf | hf
    · split at hf
      · rw [List.mem_singleton.mp hf]
        exact h
      · cases hf
    · rw [Loop.dueFlush] at hf
      split at hf
      · cases hf
      · next hs =>
        rw [List.mem_singleton.mp hf]
        exact linked_count (linked_receive blake3 t.asked h (Bool.not_eq_true _ |>.mp fun hm => hs (.inl hm))) _

lemma flushes_linked (ts : List (Turn Dup)) (h : Linked l) :
    ∀ f ∈ l.flushes blake3 flushBytes ts, Linked f.found := by
  induction ts generalizing l with
  | nil => exact fun f hf => by cases hf
  | cons t ts ih =>
    intro f hf
    rw [Loop.flushes] at hf
    rcases List.mem_append.mp hf with hf | hf
    · exact turnFlushes_linked blake3 flushBytes h t f hf
    · cases hl : (l.turn blake3 flushBytes t).1 with
      | none =>
        rw [hl] at hf
        cases hf
      | some l' =>
        rw [hl] at hf
        exact ih (turn_linked blake3 flushBytes h hl) f hf

end Told

lemma kept_start (o : Opened) (operationId : Bytes) (generation : UInt64) :
    Kept [] (Loop.start (o.state operationId generation .strict) : Loop Dup) where
  strict := rfl
  pending := rfl
  dups := by
    intro id
    simp [Loop.start, Opened.state]
  origin := fun q hq => by cases hq
  registered := fun id d hd => by cases hd
  belongs := fun q hq => by cases hq
  count := rfl
  opened := fun id d hd => by cases hd
  current := fun q hq => by cases hq
  dead := fun hd => by cases hd

/-- Whatever a flush appends, it has first synced the duplicate of the record's own attempt; after a failed sync
nothing of the file is appended until its next `FileBegin`. The events are those of the run's flushes, each of
which synced and wrote what its event tells. -/
theorem strict_data_before_checkpoint (blake3 : Bytes → Digest) (flushBytes : ℕ) (o : Opened) (operationId : Bytes)
    (generation : UInt64) (turns : List (Turn Dup)) (trace : List (Event Dup))
    (ht : trace = (Loop.start (o.state operationId generation .strict)).run blake3 flushBytes turns)
    (ha : OneAtATime (messages trace)) :
    let start : Loop Dup := Loop.start (o.state operationId generation .strict)
    let flushes := start.flushes blake3 flushBytes turns
    let s := (start.after blake3 flushBytes turns).state
    (∀ u syncs es w, trace = u ++ .flushed syncs es :: w → ∀ x ∈ es, Backed (messages u) syncs x) ∧
    (∀ u syncs es w, trace = u ++ .flushed syncs es :: w → ∀ y ∈ syncs, y.fault.isSome →
      (∀ x ∈ es, x.fileId ≠ y.fileId) ∧
      ∀ v syncs' es' w', w = v ++ .flushed syncs' es' :: w' →
        (∀ f dup, Msg.fileBegin f dup ∈ messages v → f.fileId ≠ y.fileId) → ∀ x ∈ es', x.fileId ≠ y.fileId) ∧
    (flushedOf trace = flushes.flatMap (Flushing.events blake3) ∧
      ∀ f ∈ flushes, ∃ syncs es, f.Told blake3 syncs es) ∧
    s.appended = State.numbered operationId generation o.nextSeq ((appends trace).map Queued.body) ∧
    OnDisk blake3 o.segment s := by
  intro start flushes s
  have hk : Kept [] start := kept_start o operationId generation
  have hb : AllBacked [] trace := ht ▸ run_backed blake3 flushBytes turns hk (ht ▸ ha)
  have hs : SilentAfterFault trace := ht ▸ run_silentAfterFault blake3 flushBytes turns hk.toLinked
  obtain ⟨hplaced, hdisk⟩ := @run_placed Dup blake3 flushBytes o operationId generation .strict turns
  refine ⟨fun u syncs es w he => ?_, fun u syncs es w he y hy hf => ?_, ⟨?_, fun f hf => ?_⟩, ?_, hdisk⟩
  · rw [he] at hb
    exact hb.flushed
  · rw [he] at hs
    obtain ⟨hx, hq⟩ := hs.flushed y hy hf
    refine ⟨hx, fun v syncs' es' w' hw hv => ?_⟩
    rw [hw] at hq
    exact hq.flushed hv
  · rw [ht]
    exact flushedOf_run blake3 flushBytes turns start
  · exact told_flush blake3 (flushes_linked blake3 flushBytes turns hk.toLinked f hf) f.answers
  · rw [ht]
    exact hplaced.appended

lemma oneAtATime_of_take
    (h : ∀ k f dup, ms[k]? = some (.fileBegin f dup) → (life f.fileId (ms.take k)).isOpen = false) :
    OneAtATime ms := by
  rintro u f dup v rfl
  have hu := h u.length f dup (by simp)
  rwa [List.take_left] at hu

def firstBegin : FileBegin := ⟨[7], 0, [1], 5, none, [], 0x100000, 0⟩

def secondBegin : FileBegin := ⟨[8], 0, [2], 5, none, [], 0x100000, 0⟩

def firstRange : Range := ⟨[7], 0, 0, 5, [zeroHash []]⟩

def secondRange : Range := ⟨[8], 0, 0, 5, [zeroHash []]⟩

def syncFails (bad : Option ℕ) : FlushAnswers ℕ :=
  ⟨false, fun d => if some d = bad then some ⟨.ioError, .other "sync"⟩ else none, none, none, none⟩

def received (m : Msg ℕ) (bad : Option ℕ) : Turn ℕ := ⟨.message m, false, syncFails bad, false, syncFails none⟩

def twoFiles : List (Msg ℕ) :=
  [.fileBegin firstBegin (some 0), .fileBegin secondBegin (some 1), .flush, .range firstRange,
    .range secondRange, .flush, .discard [8], .fileBegin secondBegin (some 2), .close [7] false, .flush]

def twoFilesTurns : List (Turn ℕ) := twoFiles.zipIdx.map fun m => received m.1 (if m.2 = 2 then some 1 else none)

def twoFilesTrace : List (Event ℕ) :=
  [.received (.fileBegin firstBegin (some 0)), .received (.fileBegin secondBegin (some 1)), .received .flush,
    .flushed [⟨[7], 0, none⟩, ⟨[8], 1, some ⟨.ioError, .other "sync"⟩⟩] [⟨0, .fileBegin firstBegin⟩],
    .received (.range firstRange), .received (.range secondRange), .received .flush,
    .flushed [⟨[7], 0, none⟩] [⟨3, .range firstRange⟩],
    .received (.discard [8]), .received (.fileBegin secondBegin (some 2)), .received (.close [7] false),
    .received .flush, .flushed [⟨[8], 2, none⟩] [⟨7, .fileBegin secondBegin⟩]]

lemma twoFiles_oneAtATime : OneAtATime twoFiles := by
  refine oneAtATime_of_take fun k f dup hk => ?_
  rcases k with - | - | - | - | - | - | - | - | - | - | k <;> cases hk <;> rfl

def twoFilesStart : Loop ℕ := Loop.start (Opened.state ⟨none, none, false, 1⟩ [111] 1 .strict)

set_option maxRecDepth 8000 in
lemma twoFiles_run : twoFilesTrace = twoFilesStart.run zeroHash 1000 twoFilesTurns := rfl

theorem strict_data_before_checkpoint_twoFiles :
    Backed (twoFiles.take 6) [⟨[7], 0, none⟩] ⟨3, .range firstRange⟩ ∧
    Backed twoFiles [⟨[8], 2, none⟩] ⟨7, .fileBegin secondBegin⟩ ∧
    ∃ s, s = (twoFilesStart.after zeroHash 1000 twoFilesTurns).state ∧
      s.appended.map Prod.snd = [.fileBegin firstBegin, .range firstRange, .fileBegin secondBegin] ∧
      OnDisk zeroHash none s := by
  obtain ⟨hbacked, -, -, happended, hdisk⟩ :=
    strict_data_before_checkpoint zeroHash 1000 ⟨none, none, false, 1⟩ [111] 1
    twoFilesTurns twoFilesTrace twoFiles_run twoFiles_oneAtATime
  refine ⟨hbacked (twoFilesTrace.take 7) _ _ _ rfl _ List.mem_cons_self,
    hbacked (twoFilesTrace.take 12) _ _ _ rfl _ List.mem_cons_self, _, ?_, ?_, hdisk⟩
  · rfl
  · rw [happended]
    rfl

end Flux.Wal
