import Flux.Wal.Loop
import Flux.Wal.Appending
import Flux.Wal.Canonical
import Mathlib.Data.List.Basic

namespace Flux.Wal

open Base

variable {Dup : Type} {blake3 : Bytes → Digest}

namespace State

structure Flushed (s s' : State) : Prop where
  pending : s'.pending = []
  durability : s'.durability = s.durability
  dups : s'.dups = s.dups ∨ s'.dups = []
  dead : s'.dead = true → s.dead = true ∨ s'.dups = []
  faults : ∀ id, s.Faulted id → s'.Faulted id

variable {s : State} {b : Answers}

variable {s' : State}

lemma Flushed.append (h : Flushed s s') (b : Answers) (bodies : List Body) :
    Flushed s (append blake3 b s' bodies) := by
  simp only [State.append]
  split
  · exact ⟨rfl, h.durability, .inr rfl, fun _ => .inr rfl, h.faults⟩
  · split
    · split
      · exact ⟨rfl, h.durability, .inr rfl, fun _ => .inr rfl, h.faults⟩
      · exact ⟨h.pending, h.durability, h.dups, h.dead, h.faults⟩
    · exact ⟨rfl, h.durability, .inr rfl, fun _ => .inr rfl, h.faults⟩

lemma FlushStep.flushed (h : FlushStep blake3 b s s') : Flushed s s' := by
  cases h with
  | abandoned _ => exact ⟨rfl, rfl, .inr rfl, fun _ => .inr rfl, fun _ => id⟩
  | dead _ => exact ⟨rfl, rfl, .inl rfl, .inl, fun _ => id⟩
  | empty h => exact ⟨h, rfl, .inl rfl, .inl, fun _ => id⟩
  | unfit _ hj =>
    obtain ⟨f, rfl⟩ := hj.same
    exact ⟨rfl, rfl, .inl rfl, .inl, fun id h => (hj.faults id h).1⟩
  | unopened _ hj e =>
    obtain ⟨f, rfl⟩ := hj.same
    exact ⟨rfl, rfl, .inr rfl, fun _ => .inr rfl, fun id h => (hj.faults id h).1⟩
  | appended _ hj _ =>
    obtain ⟨f, rfl⟩ := hj.same
    apply Flushed.append
    exact ⟨rfl, rfl, .inl rfl, .inl, fun id h => (hj.faults id h).1⟩

lemma flushed_flush (blake3 : Bytes → Digest) (b : Answers) (s : State) : Flushed s (s.flush blake3 b) :=
  (flush_step blake3 b s).flushed

lemma append_dead (blake3 : Bytes → Digest) (b : Answers) (s : State) (bodies : List Body) (h : b.write.isSome ∨
    maxFileLen < (s.segment.getD []).length +
      (encodeAll blake3 (numbered s.operationId s.generation s.nextSeq bodies)).length ∨
    s.durability = .strict ∧ b.syncWal.isSome) : (append blake3 b s bodies).dead = true := by
  simp only [append]
  split
  · rfl
  · next hw =>
    split
    · next hroom =>
      rcases h with h | h | ⟨hs, hsync⟩
      · rw [hw] at h
        cases h
      · omega
      · obtain ⟨e, he⟩ := Option.isSome_iff_exists.mp hsync
        rw [hs, he]
        rfl
    · rfl

structure Wrote (blake3 : Bytes → Digest) (b : Answers) (s s' : State) (bodies : List Body) : Prop
    extends Extends bodies s s' where
  idle : bodies = [] → s'.segment = s.segment ∧ (s.dead = true → s'.dead = true)
  written : bodies ≠ [] → s.dead = false ∧ ∃ m, s'.segment = some (s.segment.getD [] ++
      (encodeAll blake3 (numbered s.operationId s.generation s.nextSeq bodies)).take m) ∧
    (s'.dead = false → (encodeAll blake3 (numbered s.operationId s.generation s.nextSeq bodies)).length ≤ m)
  fails : bodies ≠ [] → (b.write.isSome ∨ maxFileLen < (s.segment.getD []).length +
      (encodeAll blake3 (numbered s.operationId s.generation s.nextSeq bodies)).length ∨
    s.durability = .strict ∧ b.syncWal.isSome) → s'.dead = true

lemma wrote_append (blake3 : Bytes → Digest) {bodies : List Body} (hd : s.dead = false) (hn : bodies ≠ []) :
    Wrote blake3 b s (append blake3 b s bodies) bodies := by
  obtain ⟨m, hseg, hfull, -⟩ := append_written blake3 b s bodies
  exact ⟨extends_append blake3 b s bodies, fun h => absurd h hn, fun _ => ⟨hd, m, hseg, fun hl => (hfull hl).2⟩,
    fun _ => append_dead blake3 b s bodies⟩

/-- What a flush syncs and appends: `y` are the answers of its syncs, and `bodies`, the records it appends, are
all that is pending of some of the files. -/
structure Logged (blake3 : Bytes → Digest) (b : Answers) (s s' : State) (y : List (Bytes × Option FsError))
    (bodies : List Body) : Prop extends Wrote blake3 b s s' bodies where
  synced : s'.synced = s.synced ++ y
  asked : ∀ x ∈ y, x.1 ∈ s.dups ∧ b.syncDup x.1 = x.2
  kept : ∃ bad : List Bytes, bodies = (s.pending.filter fun p => p.1 ∉ bad).map Prod.snd
  failed : ∀ x ∈ y, x.2.isSome → s'.Faulted x.1 ∧ ∀ body ∈ bodies, body.fileId ≠ x.1
  passed : ∀ body ∈ bodies, ¬ s.Faulted body.fileId ∧
    (s.durability = .strict → body.fileId ∈ s.dups ∧ (body.fileId, none) ∈ y)

lemma logged_nil {y : List (Bytes × Option FsError)} (hop : s'.operationId = s.operationId)
    (hgen : s'.generation = s.generation) (hab : s'.abandoned = s.abandoned) (happ : s'.appended = s.appended)
    (hnext : s'.nextSeq = s.nextSeq) (hsync : s'.synced = s.synced ++ y) (hseg : s'.segment = s.segment)
    (hdead : s.dead = true → s'.dead = true) (hasked : ∀ x ∈ y, x.1 ∈ s.dups ∧ b.syncDup x.1 = x.2)
    (hfail : ∀ x ∈ y, x.2.isSome → s'.Faulted x.1) : Logged blake3 b s s' y [] where
  op := hop
  gen := hgen
  abandoned := hab
  appended := by rw [happ, numbered, List.append_nil]
  next := by rw [hnext]; exact (UInt64.add_zero _).symm
  synced := hsync
  asked := hasked
  kept := ⟨s.pending.map Prod.fst, by
    symm
    rw [List.map_eq_nil_iff, List.filter_eq_nil_iff]
    intro p hp
    simpa using ⟨p.2, hp⟩⟩
  failed x hx he := ⟨hfail x hx he, fun _ hb => by cases hb⟩
  passed _ hb := by cases hb
  idle _ := ⟨hseg, hdead⟩
  written hn := absurd rfl hn
  fails hn := absurd rfl hn

lemma faulted_append {bodies : List Body} {id : Bytes} (h : s.Faulted id) :
    (append blake3 b s bodies).Faulted id := by
  simp only [append]
  split
  · exact h
  · split
    · split <;> exact h
    · exact h

lemma append_synced (b : Answers) (s : State) (bodies : List Body) :
    (append blake3 b s bodies).synced = s.synced := by
  simp only [append]
  split
  · rfl
  · split
    · split <;> rfl
    · rfl

lemma FlushStep.logged (h : FlushStep blake3 b s s') (hid : ∀ p ∈ s.pending, p.1 = p.2.fileId) :
    ∃ y bodies, Logged blake3 b s s' y bodies := by
  have hnone : ∀ t : State, t.operationId = s.operationId → t.generation = s.generation →
    t.abandoned = s.abandoned →
      t.appended = s.appended → t.nextSeq = s.nextSeq → t.synced = s.synced → t.segment = s.segment →
      t.dead = s.dead → ∃ y bodies, Logged blake3 b s t y bodies := by
    intro t h1 h2 h3 h4 h5 h6 h7 h8
    refine ⟨[], [], logged_nil h1 h2 h3 h4 h5 ?_ h7 (fun hd => h8.trans hd) (fun x hx => by cases hx)
      fun x hx => by cases hx⟩
    rw [h6, List.append_nil]
  cases h with
  | abandoned _ => exact hnone _ rfl rfl rfl rfl rfl rfl rfl rfl
  | dead _ => exact hnone _ rfl rfl rfl rfl rfl rfl rfl rfl
  | empty _ => exact hnone _ rfl rfl rfl rfl rfl rfl rfl rfl
  | @unfit y bad _ _ hj =>
    obtain ⟨f, rfl⟩ := hj.same
    exact ⟨y, [], logged_nil rfl rfl rfl rfl rfl rfl rfl id hj.asked fun x hx he => (hj.failed x hx he).2⟩
  | @unopened y bad _ _ hj e =>
    obtain ⟨f, rfl⟩ := hj.same
    exact ⟨y, [], logged_nil rfl rfl rfl rfl rfl rfl rfl (fun _ => rfl) hj.asked fun x hx he =>
      (hj.failed x hx he).2⟩
  | @appended y bad _ hd hj hk =>
    refine ⟨y, (s.pending.filter fun p => p.1 ∉ bad).map Prod.snd, ?_⟩
    have hfit : ∀ body ∈ (s.pending.filter fun p => p.1 ∉ bad).map Prod.snd,
        body.fileId ∉ bad ∧ body.fileId ∈ (s.pending.map Prod.fst).eraseDups := by
      intro body hb
      obtain ⟨p, hp, rfl⟩ := List.mem_map.mp hb
      obtain ⟨hp, hn⟩ := List.mem_filter.mp hp
      rw [← hid p hp, List.mem_eraseDups]
      exact ⟨of_decide_eq_true hn, List.mem_map_of_mem hp⟩
    have hasked := hj.asked
    have hpassed := hj.passed
    have hfaults := hj.faults
    have hfailed := hj.failed
    obtain ⟨f, rfl⟩ := hj.same
    have hne : (s.pending.filter fun p => p.1 ∉ bad).map Prod.snd ≠ [] := List.map_eq_nil_iff.not.mpr hk
    have hw := wrote_append blake3 (b := b)
      (s := { s.clearPending with failure := f, synced := s.synced ++ y, wal := true }) hd hne
    refine ⟨⟨⟨hw.op, hw.gen, hw.abandoned, hw.appended, hw.next⟩, hw.idle, hw.written, hw.fails⟩,
      append_synced b _ _, hasked, ⟨bad, rfl⟩, fun x hx he => ?_, fun body hb => ?_⟩
    · obtain ⟨hbad, hfault⟩ := hfailed x hx he
      exact ⟨faulted_append hfault, fun body hb hi => (hfit body hb).1 (hi ▸ hbad)⟩
    · obtain ⟨hbad, hm⟩ := hfit body hb
      exact ⟨fun hf => hbad ((hfaults _ hf).2 hm), fun hs => hpassed hs _ hm hbad⟩

end State

lemma messages_append (u v : List (Event Dup)) : messages (u ++ v) = messages u ++ messages v :=
  List.filterMap_append

lemma messages_received (m : Msg Dup) (ev : List (Event Dup)) : messages (.received m :: ev) = m :: messages ev :=
  rfl

section Flush

variable (blake3) {l : Loop Dup} (a : FlushAnswers Dup)

lemma queue_kept (h : l.state.pending = l.queue.map Queued.entry) (bad : List Bytes) :
    l.queue.filter (fun q => q.fileId ∈ ((l.state.pending.filter fun p => p.1 ∉ bad).map Prod.snd).map
      Body.fileId) = l.queue.filter fun q => q.fileId ∉ bad := by
  refine List.filter_congr fun q hq => ?_
  rw [decide_eq_decide, h]
  constructor
  · intro hm
    obtain ⟨body, hb, hi⟩ := List.mem_map.mp hm
    obtain ⟨p, hp, rfl⟩ := List.mem_map.mp hb
    obtain ⟨hp, hn⟩ := List.mem_filter.mp hp
    obtain ⟨q', -, rfl⟩ := List.mem_map.mp hp
    rw [← hi]
    exact of_decide_eq_true hn
  · intro hn
    refine List.mem_map.mpr ⟨q.body, List.mem_map.mpr ⟨q.entry, List.mem_filter.mpr ⟨?_, decide_eq_true hn⟩, rfl⟩,
      rfl⟩
    exact List.mem_map_of_mem hq

lemma numbered_bodies (operationId : Bytes) (generation seq : UInt64) (bodies : List Body) :
    (State.numbered operationId generation seq bodies).map Prod.snd = bodies := by
  induction bodies generalizing seq with
  | nil => rfl
  | cons b bodies ih => rw [State.numbered, List.map_cons, ih]

lemma flush_logged (h : l.state.pending = l.queue.map Queued.entry) : ∃ y es,
    State.Logged blake3 (a.on l.handle) (l.entering a) (l.flush blake3 a).1.state y (es.map Queued.body) ∧
      es.Sublist l.queue ∧ (l.flush blake3 a).2 = [.flushed (l.syncs y) es] := by
  have hid : ∀ p ∈ (l.entering a).pending, p.1 = p.2.fileId := by
    intro p hp
    change p ∈ l.state.pending at hp
    rw [h] at hp
    obtain ⟨q, -, rfl⟩ := List.mem_map.mp hp
    rfl
  obtain ⟨y, bodies, hlog⟩ := (State.flush_step blake3 (a.on l.handle) (l.entering a)).logged hid
  obtain ⟨bad, hbad⟩ := hlog.kept
  have hbodies : (l.queue.filter fun q => q.fileId ∉ bad).map Queued.body = bodies := by
    rw [hbad]
    change _ = (l.state.pending.filter _).map _
    rw [h, List.filter_map, List.map_map]
    rfl
  refine ⟨y, l.queue.filter fun q => q.fileId ∉ bad, hbodies ▸ hlog, List.filter_sublist, ?_⟩
  have hsynced : ((l.entering a).flush blake3 (a.on l.handle)).synced = l.state.synced ++ y := hlog.synced
  have happended : ((l.entering a).flush blake3 (a.on l.handle)).appended = l.state.appended ++ _ := hlog.appended
  change [l.flushed _] = _
  rw [Loop.flushed, hsynced, happended, List.drop_left, List.drop_left]
  have hids : (State.numbered (l.entering a).operationId (l.entering a).generation
    (l.entering a).nextSeq bodies).map (fun r => r.2.fileId) = bodies.map Body.fileId := by
    conv_rhs => rw [← numbered_bodies (l.entering a).operationId (l.entering a).generation
      (l.entering a).nextSeq bodies]
    rw [List.map_map]
    rfl
  rw [hids, hbad, ← queue_kept h bad]
  rfl

lemma flush_extends (h : l.state.pending = l.queue.map Queued.entry) :
    State.Extends ((appends (l.flush blake3 a).2).map Queued.body) (l.entering a) (l.flush blake3 a).1.state := by
  obtain ⟨y, es, hlog, -, he⟩ := flush_logged blake3 a h
  rw [he]
  simpa [appends, Event.appends] using hlog.toExtends

lemma flush_dead (h : l.state.pending = l.queue.map Queued.entry) (hd : l.state.dead = true) :
    appends (l.flush blake3 a).2 = [] ∧ (l.flush blake3 a).1.state.disk = l.state.disk := by
  obtain ⟨y, es, hlog, -, he⟩ := flush_logged blake3 a h
  have hnil : es = [] := by
    by_contra hn
    have hlive := (hlog.written (List.map_eq_nil_iff.not.mpr hn)).1
    exact Bool.false_ne_true (hlive.symm.trans hd)
  subst hnil
  rw [he]
  refine ⟨rfl, State.disk_eq (hlog.idle rfl).1 ?_ (((hlog.idle rfl).2 hd).trans hd.symm)⟩
  rw [hlog.appended]
  exact List.append_nil _

lemma appends_flush_sublist (l : Loop Dup) : (appends (l.flush blake3 a).2).Sublist l.queue := by
  simp only [Loop.flush, Loop.flushed, appends, List.flatMap_singleton, Event.appends]
  exact List.filter_sublist

lemma messages_flush (l : Loop Dup) : messages (l.flush blake3 a).2 = [] := rfl

lemma messages_receive (l : Loop Dup) (m : Msg Dup) : messages (l.receive blake3 a m).2 = [] := by
  have hf := messages_flush blake3 a l
  cases m with
  | fileBegin f dup =>
    simp only [Loop.receive]
    split <;> rfl
  | range r =>
    simp only [Loop.receive]
    split <;> rfl
  | flush => exact hf
  | close id ack =>
    simp only [Loop.receive, messages_append]
    split <;> split <;> simp_all [messages, Event.message, Loop.closed]
  | discard id => rfl
  | drain =>
    simp only [Loop.receive, messages_append, hf]
    rfl
  | stop => exact hf

end Flush

end Flux.Wal
