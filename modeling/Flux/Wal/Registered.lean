import Flux.Wal.Queue

/-! What the writer keeps of a file: once its last message was a `Close` or a `Discard`, nothing. -/

namespace Flux.Wal

open Base

variable {Dup : Type}

def Msg.fileId : Msg Dup → Option Bytes
  | .fileBegin f _ => some f.fileId
  | .range r => some r.fileId
  | .close id _ | .discard id => some id
  | _ => none

def Msg.ends : Msg Dup → Bool
  | .close _ _ | .discard _ => true
  | _ => false

def messagesOf (id : Bytes) (ms : List (Msg Dup)) : List (Msg Dup) := ms.filter fun m => m.fileId = some id

structure Unregistered (id : Bytes) (l : Loop Dup) : Prop where
  handle : l.handle id = none
  dups : id ∉ l.state.dups
  pending : ∀ q ∈ l.queue, q.fileId ≠ id

section Step

variable (blake3 : Bytes → Digest) {l : Loop Dup} {id : Bytes} (a : FlushAnswers Dup)

lemma Unregistered.flush (h : Unregistered id l) : Unregistered id (l.flush blake3 a).1 := by
  refine ⟨?_, ?_, fun q hq => by cases hq⟩
  · simp only [Loop.flush, h.handle, ite_self]
  · rcases (State.flushed_flush blake3 (a.on l.handle) (l.entering a)).dups with hd | hd
    · intro hm
      exact h.dups (hd ▸ hm)
    · intro hm
      have hm : id ∈ ((l.entering a).flush blake3 (a.on l.handle)).dups := hm
      rw [hd] at hm
      cases hm

lemma unregistered_register {i : Bytes} {dup : Option Dup} (h : Unregistered id l) (hi : i ≠ id ∨ dup = none) :
    Unregistered id (l.register i dup) := by
  refine ⟨?_, ?_, h.pending⟩
  · rw [Loop.register_handle]
    by_cases he : id = i
    · rw [he, Function.update_self]
      exact hi.resolve_left fun hn => hn he.symm
    · rw [Function.update_of_ne he]
      exact h.handle
  · simp only [Loop.register]
    split
    · next hd =>
      rw [List.mem_insert_iff]
      rintro (he | hm)
      · rw [hi.resolve_left fun hn => hn he.symm] at hd
        cases hd
      · exact h.dups hm
    · exact fun hm => h.dups (List.mem_of_mem_filter hm)

lemma register_none_unregistered (h : ∀ q ∈ l.queue, q.fileId ≠ id) : Unregistered id (l.register id none) := by
  refine ⟨?_, ?_, h⟩
  · rw [Loop.register_handle, Function.update_self]
  · simp [Loop.register]

lemma Unregistered.push (h : Unregistered id l) (body : Body) (hi : body.fileId ≠ id) (bytes : ℕ) :
    Unregistered id (l.push body bytes) := by
  refine ⟨h.handle, h.dups, fun q hq => ?_⟩
  rcases List.mem_append.mp hq with hq | hq
  · exact h.pending q hq
  · rw [List.mem_singleton.mp hq]
    exact hi

lemma Unregistered.receive (h : Unregistered id l) {m : Msg Dup} (hm : m.fileId ≠ some id) :
    Unregistered id (l.receive blake3 a m).1 := by
  cases m with
  | fileBegin f dup =>
    have hi : f.fileId ≠ id := fun hi => hm (congrArg some hi)
    simp only [Loop.receive]
    split
    · exact h
    · have hr : Unregistered id (l.register f.fileId dup) := unregistered_register h (.inl hi)
      exact Unregistered.push (l := (l.register f.fileId dup).forgive f.fileId) ⟨hr.handle, hr.dups, hr.pending⟩
        (.fileBegin f) hi _
  | range r =>
    simp only [Loop.receive]
    split
    · exact h
    · exact h.push (.range r) (fun hi => hm (congrArg some hi)) _
  | flush => exact h.flush blake3 a
  | close i ack =>
    simp only [Loop.receive]
    split
    · exact unregistered_register (h.flush blake3 a) (.inr rfl)
    · exact unregistered_register h (.inr rfl)
  | discard i =>
    refine unregistered_register ?_ (.inr rfl)
    exact ⟨h.handle, h.dups, fun q hq => h.pending q (List.mem_of_mem_filter hq)⟩
  | drain => exact h.flush blake3 a
  | stop => exact ⟨rfl, List.not_mem_nil, (h.flush blake3 a).pending⟩

lemma receive_unregistered (hp : l.state.pending = l.queue.map Queued.entry) {m : Msg Dup}
    (hm : m.fileId = some id) (he : m.ends = true) : Unregistered id (l.receive blake3 a m).1 := by
  cases m with
  | close i ack =>
    obtain rfl : i = id := Option.some.inj hm
    simp only [Loop.receive]
    split
    · exact register_none_unregistered fun q hq => by cases hq
    · next hn =>
      refine register_none_unregistered fun q hq hi => hn ?_
      rw [hp, List.any_map, List.any_eq_true]
      exact ⟨q, hq, decide_eq_true hi⟩
  | discard i =>
    obtain rfl : i = id := Option.some.inj hm
    refine register_none_unregistered fun q hq => ?_
    simpa using (List.mem_filter.mp hq).2
  | _ => cases he

end Step

def Over (id : Bytes) (ms : List (Msg Dup)) : Prop := ∃ before m, messagesOf id ms = before ++ [m] ∧ m.ends = true

section Run

variable (blake3 : Bytes → Digest) (flushBytes : ℕ) {l : Loop Dup} {id : Bytes} {ms : List (Msg Dup)}

lemma handled_unregistered (hp : l.state.pending = l.queue.map Queued.entry) (h : Over id ms → Unregistered id l)
    (t : Turn Dup) {m : Msg Dup} (ho : Over id (ms ++ [m])) : Unregistered id (l.handled blake3 t m) := by
  obtain ⟨before, m', hms, he⟩ := ho
  have hr : Unregistered id (l.receive blake3 t.asked m).1 := by
    rw [messagesOf, List.filter_append] at hms
    by_cases hm : m.fileId = some id
    · rw [List.filter_cons_of_pos (by simpa using hm), List.filter_nil] at hms
      obtain ⟨-, hlast⟩ := List.append_inj' hms rfl
      rw [← List.singleton_inj.mp hlast] at he
      exact receive_unregistered blake3 t.asked hp hm he
    · rw [List.filter_cons_of_neg (by simpa using hm), List.filter_nil, List.append_nil] at hms
      exact (h ⟨before, m', hms, he⟩).receive blake3 t.asked hm
  exact ⟨hr.handle, hr.dups, hr.pending⟩

lemma unregistered_abandon (l : Loop Dup) (id : Bytes) : Unregistered id l.abandon :=
  ⟨rfl, List.not_mem_nil, fun _ hq => by cases hq⟩

lemma left_unregistered (hp : l.state.pending = l.queue.map Queued.entry) (h : Over id ms → Unregistered id l)
    (t : Turn Dup) (ho : Over id (ms ++ messages (l.turn blake3 flushBytes t).2)) :
    Unregistered id (l.left blake3 flushBytes t) := by
  rw [Loop.turn] at ho
  rw [Loop.left, Loop.turn, Loop.ended]
  by_cases hab : (l.state.abandoned || t.abandoned) = true
  · rw [if_pos hab, if_pos hab]
    exact unregistered_abandon l id
  rw [if_neg hab] at ho
  rw [if_neg hab, if_neg hab]
  cases hr : t.received with
  | disconnected => exact unregistered_abandon l id
  | timeout =>
    rw [hr] at ho
    simp only [messages_flush, List.append_nil] at ho
    exact (h ho).flush blake3 t.asked
  | message m =>
    simp only [hr, messages_received, messages_message] at ho
    have hk := handled_unregistered blake3 hp h t ho
    change Unregistered id ((l.message blake3 flushBytes t m).1.getD (l.handled blake3 t m))
    rcases message_cases blake3 flushBytes t m l with ⟨-, -, he⟩ | ⟨-, -, he⟩
    · rw [he]
      exact hk
    · rw [he]
      exact hk.flush blake3 t.due

lemma after_unregistered (o : Opened) (operationId : Bytes) (generation : UInt64) (durability : Durability)
    (ts : List (Turn Dup)) {id : Bytes}
    (h : Over id (messages ((Loop.start (o.state operationId generation durability)).run blake3 flushBytes ts))) :
    Unregistered id ((Loop.start (o.state operationId generation durability)).after blake3 flushBytes ts) := by
  have hstart : Placed operationId generation o.nextSeq [] []
      (Loop.start (o.state operationId generation durability) : Loop Dup) :=
        placed_start o operationId generation durability
  have hrun := after_induction blake3 flushBytes
    (P := fun ev l => Placed operationId generation o.nextSeq (messages ev) (appends ev) l ∧
      l.count = (messages ev).length ∧ (Over id (messages ev) → Unregistered id l))
    (fun ev l t ⟨hl, hc, hu⟩ => by
      obtain ⟨hl', hc'⟩ := hl.left blake3 flushBytes (t := t) hc
      rw [messages_append, appends_append]
      exact ⟨hl', hc', left_unregistered blake3 flushBytes hl.pending hu t⟩)
    ts [] (l := Loop.start (o.state operationId generation durability))
    ⟨hstart, rfl, fun ⟨before, m, hm, _⟩ => by simp [messages, messagesOf] at hm⟩
  exact hrun.2.2 h

end Run

end Flux.Wal
