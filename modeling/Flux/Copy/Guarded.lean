import Flux.Copy.Watch

/-! How a copy may end, and what it has done to the directory and its temporary by then. -/

namespace Flux.Copy

open Base Wal

variable {job : Job} {v v' : Scene} {e : CopyError}

namespace Scene

def guarded (v : Scene) : Scene := { v with watch := { v.watch with covered := true } }

def unlocked (v : Scene) : Scene := { v with watch := { v.watch with lost := true } }

def changed (v : Scene) (c : Call) : Scene := { v with watch := v.watch.change c }

def gone (v : Scene) : Scene := { v with present := false }

end Scene

variable {c : Call}

section Calls

variable {ε : Type}

lemma ensures_guard (v : Scene) : Ensures scene guard v (fun _ v' => v' = v.guarded) fun _ v' => v' = v.unlocked :=
  ensures_fsCall .guard v

lemma wp_perform {effect : World → Except FsError World} {Q : Unit → World → Prop} {E : FsError → World → Prop}
    {w : World} : wp (perform c effect) Q E w ↔ match w.outcome effect with
      | .ok w' => Q () { w' with answers := w.answers.tail, calls := (c, true) :: w.calls }
      | .error e => E e { w with answers := w.answers.tail, calls := (c, false) :: w.calls } := by
  rw [perform, wp_bind, wp_get]
  rcases w.outcome effect with e | w'
  · rfl
  · rfl

lemma ensures_perform {effect : World → Except FsError World} {Q : Unit → Scene → Prop}
    {E : FsError → Scene → Prop}
    (hok : ∀ w w' : World, scene w = v → effect w = .ok w' →
      Q () { scene w' with watch := v.watch.step (c, true) })
    (herr : ∀ e, E e { v with watch := v.watch.step (c, false) }) : Ensures scene (perform c effect) v Q E := by
  rintro w rfl
  rw [wp_perform]
  split
  · next w' hw' => exact hok w w' rfl (outcome_ok hw')
  · exact herr _

def Scene.unremoved (v : Scene) (e : FsError) : Scene := if isNotFound e then v.gone else v

lemma ensures_removeTemp (v : Scene) : Ensures scene removeTemp v
    (fun _ v' => v' = (v.changed .removeTemp).gone) fun e v' => v' = v.unremoved e := by
  refine Ensures.attempted (Q := fun _ v' => v' = (v.changed .removeTemp).gone) (E := fun _ v' => v' = v)
    (ensures_perform ?_ fun _ => rfl) ?_ ?_
  · rintro w w' rfl h
    rw [World.unlinked] at h
    split at h
    · cases h
    · split at h
      · cases h
      · cases h
        rfl
  · rintro - _ rfl
    exact Ensures.pure rfl
  · rintro e _ rfl w hw
    rw [wp_bind, onlyIf, wp_ite]
    exact ⟨fun he => (congrArg Scene.gone hw).trans (if_pos he).symm, fun he => hw.trans (if_neg he).symm⟩

lemma ensures_openExisting (expected : FileIdentity) (v : Scene) : Ensures scene (openExisting expected) v
    (fun _ v' => v' = { v.changed .openExisting with held := some .resumed }) fun _ v' => v' = v := by
  refine ensures_perform ?_ fun _ => rfl
  rintro w w' rfl h
  split at h
  · cases h
  split at h
  · cases h
  split at h
  · cases h
  · cases h
  · cases h
  split at h
  · cases h
  split at h
  · cases h
  · cases h
    rfl

lemma ensures_truncateTo (len : ℕ) (v : Scene) : Ensures scene (truncateTo len) v
    (fun _ v' => v' = v.changed .truncateTo) fun _ v' => v' = v := by
  refine ensures_perform ?_ fun _ => rfl
  rintro w w' rfl h
  split at h
  · cases h
    rfl
  · next ht =>
    split at h
    · cases h
    · cases h
      simp only [Scene.changed, scene, ht]
      rfl

lemma ensures_rename (publish : Publish) (v : Scene) : Ensures scene (rename publish) v
    (fun _ v' => ∃ d, v' = { v.changed .rename with present := false, dest := d }) fun _ v' => v' = v := by
  refine ensures_perform ?_ fun _ => rfl
  rintro w w' rfl h
  split at h
  · cases h
  · next e _ =>
    split at h
    · cases h
    split at h
    · cases h
    · cases h
      exact ⟨some e, rfl⟩

end Calls

def Names (job : Job) (e : CopyError) : Prop := ∃ why, e.leftover = some (job.temp, why)

inductive Discarded (job : Job) (v : Scene) (e : CopyError) : Scene → Prop
  | lost (hn : Names job e) : Discarded job v e v.unlocked
  | removed : Discarded job v e (v.guarded.changed .removeTemp).gone
  | missing : Discarded job v e v.guarded.gone
  | stuck (hn : Names job e) : Discarded job v e v.guarded

inductive Failed (job : Job) (v : Scene) (e : CopyError) : Scene → Prop
  | discarded {v' : Scene} (h : Discarded job v e v') : Failed job v e v'
  | kept (fault : WalFault) (he : e = walKept job.nameText fault) : Failed job v e v

lemma ensures_discard {ε : Type} (job : Job) (step : CopyStep) (code : Code) (source : IoError) (v : Scene) :
    Ensures scene (discard job step code source : M ε CopyError) v (fun e v' => Discarded job v e v')
      fun _ _ => False := by
  refine Ensures.attempted (ensures_guard v) ?_ ?_
  · rintro - _ rfl
    refine Ensures.attempted (ensures_removeTemp v.guarded) ?_ ?_
    · rintro - _ rfl
      exact Ensures.pure .removed
    · rintro why _ rfl
      dsimp only
      rw [Scene.unremoved]
      split
      · exact Ensures.pure .missing
      · exact Ensures.pure (.stuck ⟨_, rfl⟩)
  · rintro lost _ rfl
    exact Ensures.pure (.lost ⟨_, rfl⟩)

def Stops {α : Type} (job : Job) (x : M CopyError α) : Prop :=
  ∀ v, Ensures scene x v (fun _ v' => v' = v) fun e v' => Failed job v e v'

namespace Stops

variable {α β : Type}

lemma bind {x : M CopyError β} {g : β → M CopyError α} (hx : Stops job x) (hg : ∀ b, Stops job (g b)) :
    Stops job (x >>= g) :=
  fun v => Ensures.bind (hx v) fun b _ h => h ▸ hg b v

lemma andThen {x : M CopyError β} {g : β → M CopyError α} {Q : α → Scene → Prop} (hx : Stops job x)
    (hg : ∀ b, Ensures scene (g b) v Q fun e v' => Failed job v e v') :
    Ensures scene (x >>= g) v Q fun e v' => Failed job v e v' :=
  Ensures.bind (hx v) fun b _ h => h ▸ hg b

lemma pure (a : α) : Stops job (pure a : M CopyError α) := fun _ => Ensures.pure rfl

lemma attempted {ε : Type} {x : M ε β} {g : Except ε β → M CopyError α} (hx : Steady scene x)
    (hg : ∀ r, Stops job (g r)) : Stops job (x.attempt >>= g) :=
  fun v => (Calm.ofAttempt hx).andThen fun r => hg r v

lemma ite {c : Prop} [Decidable c] {x y : M CopyError α} (hx : Stops job x) (hy : Stops job y) :
    Stops job (if c then x else y) := by
  split
  · exact hx
  · exact hy

end Stops

section Stops

variable {α : Type}

lemma stops_discarding (step : CopyStep) (code : Code) (source : IoError) :
    Stops job (discarding job step code source : M CopyError α) := fun v =>
  Ensures.bind ((ensures_discard job step code source v).mono (fun _ _ => id) fun _ _ => False.elim) fun _ _ h =>
    Ensures.throw (.discarded h)

def Recorded (job : Job) (fail : StreamFail) : Prop :=
  ∀ e, fail = .keep e → ∃ fault, e = walKept job.nameText fault

lemma recorded_sinkFail (e : SinkError) : Recorded job (sinkFail job.nameText e) := by
  rintro _ h
  cases e with
  | wal f => exact ⟨f, (StreamFail.keep.inj h).symm⟩
  | heartbeat e => cases h
  | data f => cases h

lemma fails_streamBytes (verdict : Verdict) : Fails (Recorded job) (streamBytes job verdict) := by
  have hwrite : ∀ bs, Fails (Recorded job) ((writeAll bs).mapFailure streamFailure) :=
    fun _ => Fails.mapFailure fun _ _ h => by cases h
  have hsink : ∀ {β : Type} (x : M SinkError β), Fails (Recorded job) (x.mapFailure (sinkFail job.nameText)) :=
    fun _ => Fails.mapFailure recorded_sinkFail
  have hloop : ∀ fuel buf copied, Fails (Recorded job) (copyLoop job fuel buf copied) := by
    intro fuel
    induction fuel with
    | zero => exact fun _ _ => Fails.pure _
    | succ fuel ih =>
      intro buf copied
      have hread : Fails (Recorded job) (readOnce buf) := by
        refine Fails.get.bind fun w => (Fails.modify _).bind fun _ => ?_
        split
        · exact Fails.pure _
        · exact Fails.throw fun _ h => by cases h
      refine hread.bind fun bs => ?_
      split
      · exact Fails.pure _
      · refine (Fails.modify _).bind fun _ => (hwrite _).bind fun _ => (hsink _).bind fun _ => ?_
        exact (Fails.mapFailure fun _ _ h => by cases h).bind fun _ => ih _ _
  have hbegin : Fails (Recorded job) (beginSink job verdict.proven) := by
    rw [beginSink]
    split
    · refine Fails.bind (Fails.ite (Fails.mapFailure fun _ _ h => by cases h) (Fails.pure _)) fun _ => ?_
      exact (hsink _).bind fun _ => Fails.ite (hsink _) (Fails.pure _)
    · exact Fails.pure _
  have hcarry : Fails (Recorded job) (writeCarry job verdict.carry) :=
    Fails.ite (Fails.pure _) ((Fails.modify _).bind fun _ => (hwrite _).bind fun _ => hsink _)
  exact hbegin.bind fun _ => hcarry.bind fun _ => (hloop _ _ _).bind fun _ => (hsink _).bind fun _ => Fails.pure _

lemma stops_stream (verdict : Verdict) : Stops job (stream job verdict) := by
  intro v
  refine Ensures.attempted ((steady_streamBytes job verdict v).andFails (fails_streamBytes verdict)) ?_ ?_
  · rintro copied _ rfl
    exact Ensures.pure rfl
  · rintro fail _ ⟨rfl, hrec⟩
    refine calm_abort.andThen fun _ => ?_
    cases fail with
    | keep e =>
      obtain ⟨fault, he⟩ := hrec e rfl
      exact Ensures.throw (.kept fault he)
    | discard step code source => exact stops_discarding step code source _

lemma stops_recheckSource (srcMeta : Metadata) : Stops job (recheckSource job srcMeta) := by
  refine Stops.attempted (steady_fsCall fun _ _ => rfl) fun r => ?_
  split
  · exact Stops.ite (stops_discarding _ _ _) (stops_discarding _ _ _)
  · refine fun v => (calm_sourceNow job).andThen fun now => ?_
    exact Stops.ite (stops_discarding _ _ _) (Stops.pure _) v

lemma stops_rehash {opening : M FsError Input} (h : Steady scene opening) : Stops job (rehash job opening) := by
  refine Stops.attempted h fun r => ?_
  split
  · exact stops_discarding _ _ _
  · refine Stops.attempted (steady_hashStream job _) fun r => ?_
    split
    · rw [discardReadFail.eq_def]
      split
      · exact stops_discarding _ _ _
      · exact stops_discarding _ _ _
    · exact Stops.pure _

lemma stops_verify (srcMeta : Metadata) (streamed : ℕ) : Stops job (verify job srcMeta streamed) := by
  refine fun v => Calm.get.andThen fun w => ?_
  split
  · exact Ensures.pure rfl
  · exact Ensures.pure rfl
  · exact Ensures.pure rfl
  · refine (stops_recheckSource srcMeta).bind (fun _ => (stops_rehash steady_openTemp).bind fun r => ?_) v
    refine Stops.ite (stops_discarding _ _ _) (Stops.ite ?_ (Stops.pure _))
    refine (stops_rehash (steady_reopenSource job)).bind fun r => ?_
    exact Stops.ite (stops_discarding _ _ _) (Stops.pure _)

lemma stops_applyItem (preserve : Preserve) (item : MetadataItem) (hc : c.Idle) :
    Stops job (applyItem job preserve item c) := by
  refine Stops.ite (Stops.pure _) (Stops.attempted (steady_fsCall hc) fun r => ?_)
  split
  · exact Stops.pure _
  · exact Stops.ite (stops_discarding _ _ _) (Stops.pure _)

lemma stops_syncStaged : Stops job (syncStaged job) := by
  refine Stops.ite (Stops.attempted (steady_fsCall fun _ _ => rfl) fun r => ?_) (Stops.pure _)
  split
  · exact Stops.pure _
  · exact stops_discarding _ _ _

end Stops

structure Live (d : Option Entry) (b : Prop) (v : Scene) : Prop where
  locked : v.watch.lost = false
  ontime : v.watch.late = false
  bare : v.watch.bare = true ↔ b
  dest : v.dest = d

def Deliberate (job : Job) (held : Option Held) (e : CopyError) : Prop :=
  (∃ fault, e = walKept job.nameText fault) ∨ held = some .resumed ∧ e.step = .create

structure Ended (job : Job) (d : Option Entry) (b : Prop) (e : CopyError) (v : Scene) : Prop where
  ontime : v.watch.late = false
  bare : v.watch.bare = true ↔ b
  reported : v.watch.lost = true → v.held ≠ none → Names job e
  dest : v.dest = d
  accounted : v.held = none ∨ v.present = false ∨ Names job e ∨ Deliberate job v.held e

section Copy

variable {d : Option Entry} {b b' : Prop}

lemma Live.congr (hb : b ↔ b') (h : Live d b v) : Live d b' v := ⟨h.locked, h.ontime, h.bare.trans hb, h.dest⟩

lemma Ended.congr (hb : b ↔ b') (h : Ended job d b e v) : Ended job d b' e v :=
  ⟨h.ontime, h.bare.trans hb, h.reported, h.dest, h.accounted⟩

lemma Live.guarded (h : Live d b v) : Live d b v.guarded := ⟨h.locked, h.ontime, h.bare, h.dest⟩

lemma Live.gone (h : Live d b v) : Live d b v.gone := ⟨h.locked, h.ontime, h.bare, h.dest⟩

lemma Live.holding (h : Live d b v) (held : Option Held) : Live d b { v with held := held } :=
  ⟨h.locked, h.ontime, h.bare, h.dest⟩

lemma Live.changed (h : Live d b v) (hc : v.watch.covered = true ∨ c = .truncateTo ∧ v.watch.cutting = true) :
    Live d b (v.changed c) := by
  refine ⟨h.locked, ?_, ?_, h.dest⟩
  · simp [Scene.changed, Watch.change, h.ontime, h.locked]
  · rw [← h.bare]
    rcases hc with hcov | ⟨rfl, hcut⟩
    · simp [Scene.changed, Watch.change, hcov]
    · simp [Scene.changed, Watch.change, hcut]

lemma Live.guardedChanged (h : Live d b v) (c : Call) : Live d b (v.guarded.changed c) :=
  h.guarded.changed (.inl rfl)

lemma Live.ended (h : Live d b v)
    (ha : v.held = none ∨ v.present = false ∨ Names job e ∨ Deliberate job v.held e) : Ended job d b e v := by
  refine ⟨h.ontime, h.bare, fun hl => ?_, h.dest, ha⟩
  rw [h.locked] at hl
  cases hl

lemma Live.unlocked (h : Live d b v) (ha : v.held = none ∨ Names job e) : Ended job d b e v.unlocked := by
  refine ⟨h.ontime, h.bare, fun _ hh => ha.resolve_left hh, h.dest, ?_⟩
  exact ha.imp id fun hn => .inr (.inl hn)

lemma Failed.ended (hf : Failed job v e v') (h : Live d b v) : Ended job d b e v' := by
  cases hf with
  | discarded hd =>
    cases hd with
    | lost hn => exact h.unlocked (.inr hn)
    | removed => exact (h.guardedChanged .removeTemp).gone.ended (.inr (.inl rfl))
    | missing => exact h.guarded.gone.ended (.inr (.inl rfl))
    | stuck hn => exact h.guarded.ended (.inr (.inr (.inl hn)))
  | kept fault he => exact h.ended (.inr (.inr (.inr (.inl ⟨fault, he⟩))))

lemma live_removal (h : Live d b v) (hh : v.held = none) {E : CopyError → Scene → Prop} :
    Ensures scene (do let _ ← removeTemp.attempt : M CopyError Unit) v.guarded
      (fun _ v' => Live d b v' ∧ v'.held = none) E := by
  refine Ensures.attempted (ensures_removeTemp v.guarded) ?_ ?_
  · rintro - _ rfl
    exact Ensures.pure ⟨(h.guardedChanged .removeTemp).gone, hh⟩
  · rintro e _ rfl
    rw [Scene.unremoved]
    split
    · exact Ensures.pure ⟨h.guarded.gone, hh⟩
    · exact Ensures.pure ⟨h.guarded, hh⟩

lemma ends_sweep (step : CopyStep) (h : Live d b v) (hh : v.held = none) :
    Ensures scene (sweep step) v (fun _ v' => Live d b v' ∧ v'.held = none) (Ended job d b) := by
  refine Ensures.bind (Ensures.mapFailure ((ensures_guard v).mono (fun _ _ => id) ?_)) ?_
  · rintro e _ rfl
    exact h.unlocked (.inl hh)
  · rintro - _ rfl
    exact live_removal h hh

lemma ends_resume (offset : ℕ) (identity : FileIdentity) (h : Live d b v) (hh : v.held = none) :
    Ensures scene (openWriter job (.resume offset) (some identity)) v (fun _ v' => Live d b v')
    (Ended job d b) := by
  refine Ensures.bind (Ensures.mapFailure ((ensures_guard v).mono (fun _ _ => id) ?_)) ?_
  · rintro e _ rfl
    exact h.unlocked (.inl hh)
  rintro - _ rfl
  refine Ensures.bind (Ensures.mapFailure ((ensures_openExisting identity _).mono (fun _ _ => id) ?_)) ?_
  · rintro e _ rfl
    exact h.guarded.ended (.inl hh)
  rintro - _ rfl
  have ho := (h.guardedChanged .openExisting).holding (some .resumed)
  refine Ensures.bind (Ensures.mapFailure ((ensures_truncateTo offset _).mono (fun _ _ => id) ?_)) ?_
  · rintro e _ rfl
    exact ho.ended (.inr (.inr (.inr (.inr ⟨rfl, rfl⟩))))
  · rintro - _ rfl
    exact Ensures.pure (ho.changed (.inr ⟨rfl, rfl⟩))

def World.Removable (w : World) : Prop := ∃ e, w.files.temp = some e ∧ e.fileType ≠ .dir

def Sweeps (job : Job) (start : Start) (w : World) : Prop :=
  job.hook.isSome ∧ start = .fresh ∧ w.Removable ∧ ∀ a ∈ w.answers.take 3, a = none

lemma fsCall_eq_perform (c : Call) : fsCall c = perform c .ok := by
  funext w
  rcases w with ⟨files, dest, held, - | ⟨- | f, as⟩, sinkAnswers, schedules, sources, calls⟩
  · rfl
  · rfl
  · rfl

lemma forall_take_three {α : Type} (l : List (Option α)) : (∀ a ∈ l.take 3, a = none) ↔
    l.head?.join = none ∧ l.tail.head?.join = none ∧ l.tail.tail.head?.join = none := by
  rcases l with - | ⟨a, - | ⟨b, - | ⟨c, l⟩⟩⟩ <;> simp

lemma outcome_unlinked (w : World) : (w.Removable ∧ w.answers.head?.join = none ∧
    w.outcome World.unlinked = .ok { w with files.temp := none }) ∨
      ¬ (w.Removable ∧ w.answers.head?.join = none) ∧ ∃ e, w.outcome World.unlinked = .error e := by
  rw [World.outcome]
  split
  · next f hf => exact .inr ⟨fun h => by simp [hf] at h, _, rfl⟩
  next hn =>
  rw [World.unlinked]
  split
  · next ht =>
    refine .inr ⟨?_, _, rfl⟩
    rintro ⟨⟨_, he, -⟩, -⟩
    simp [ht] at he
  next e ht =>
  split
  · next hd =>
    refine .inr ⟨?_, _, rfl⟩
    rintro ⟨⟨_, he, hne⟩, -⟩
    exact hne (Option.some.inj (ht.symm.trans he) ▸ hd)
  · next hd => exact .inl ⟨⟨e, ht, hd⟩, hn, rfl⟩

def World.Bared (w : World) : Prop :=
  (scene w).watch.covered = false ∧ w.files.temp = none ∧ w.answers.head?.join = none

variable {w : World}

lemma removal_bared (hc : (scene w).watch.covered = true) : wp (do let _ ← removeTemp.attempt : M CopyError Unit)
      (fun _ w' => w'.Bared ↔ w.Removable ∧ w.answers.head?.join = none ∧ w.answers.tail.head?.join = none)
      (fun _ _ => False) w := by
  simp only [removeTemp, wp_bind, wp_attempt, wp_perform]
  rcases outcome_unlinked w with ⟨hr, hn, ho⟩ | ⟨hno, e, ho⟩
  · rw [ho]
    simp [World.Bared, scene, watch, Watch.step, Call.isChange, Watch.change, hr, hn]
  · have hnot : ¬ (w.Removable ∧ w.answers.head?.join = none ∧ w.answers.tail.head?.join = none) :=
      fun h => hno ⟨h.1, h.2.1⟩
    rw [ho]
    simp only [onlyIf, wp_ite]
    -- a removal that failed is not a change: the guard before it covers the next one
    exact ⟨fun _ => iff_of_false (fun hb => Bool.false_ne_true (hb.1.symm.trans hc)) hnot,
      fun _ => iff_of_false (fun hb => Bool.false_ne_true (hb.1.symm.trans hc)) hnot⟩

lemma Live.created (h : Live d False (scene w)) (files : Files) (answers : List (Option Fault)) :
    Live d ((scene w).watch.covered = false) (scene { w with
      files := files, held := some .created, answers := answers, calls := (.createNew, true) :: w.calls }) := by
  have hbare : (watch w.calls).bare = false := Bool.eq_false_iff.mpr h.bare.mp
  refine ⟨h.locked, ?_, ?_, h.dest⟩
  · exact Bool.or_eq_false_iff.mpr ⟨h.ontime, h.locked⟩
  · simp [scene, watch, Watch.step, Call.isChange, Watch.change, hbare]

lemma ends_createNew (h : Live d False (scene w)) (hh : w.held = none) :
    wp (atStep .create (createNew job.created)) (fun _ w' => Live d w.Bared (scene w'))
      (fun e w' => Ended job d w.Bared e (scene w')) w := by
  rw [atStep, wp_mapFailure, createNew, wp_perform, World.outcome]
  rcases hn : w.answers.head?.join with - | f
  · rcases ht : w.files.temp with - | entry
    · exact (h.created _ _).congr ⟨fun hc => ⟨hc, ht, hn⟩, fun hb => hb.1⟩
    · have hb : ¬ w.Bared := fun hb => by simp [World.Bared, ht] at hb
      exact (h.ended (.inl hh)).congr (iff_of_false id hb)
  · have hb : ¬ w.Bared := fun hb => by simp [World.Bared, hn] at hb
    exact (h.ended (.inl hh)).congr (iff_of_false id hb)

lemma ends_fresh (identity : Option FileIdentity) (h : Live d False (scene w)) (hh : w.held = none)
    (hc : (scene w).watch.covered = true) :
    wp (openWriter job .fresh identity) (fun _ w' => Live d (Sweeps job .fresh w) (scene w'))
      (fun e w' => Ended job d (Sweeps job .fresh w) e (scene w')) w := by
  have hcreate : ∀ w' : World, Live d False (scene w') → w'.held = none → (w'.Bared ↔ Sweeps job .fresh w) →
      wp (do atStep .create (createNew job.created); return 0)
        (fun _ w'' => Live d (Sweeps job .fresh w) (scene w''))
        (fun e w'' => Ended job d (Sweeps job .fresh w) e (scene w'')) w' := by
    intro w' h' hh' hb
    rw [wp_bind]
    exact wp_mono (ends_createNew h' hh') (fun _ _ hl => hl.congr hb) fun _ _ he => he.congr hb
  rw [openWriter, wp_bind, onlyIf, wp_ite]
  refine ⟨fun hook => ?_, fun hook => ?_⟩
  · rw [sweep, wp_bind, atStep, wp_mapFailure, guard, fsCall_eq_perform, wp_perform, World.outcome]
    have hsweeps : Sweeps job .fresh w ↔ w.answers.head?.join = none ∧
        w.Removable ∧ w.answers.tail.head?.join = none ∧ w.answers.tail.tail.head?.join = none := by
      rw [Sweeps, forall_take_three]
      simp only [hook, true_and]
      tauto
    rcases hn : w.answers.head?.join with - | f
    · refine wp_mono (wp_and (live_removal h hh (E := fun _ _ => False) _ rfl) (removal_bared rfl)) ?_
        fun _ _ he => he.1.elim
      rintro - w' ⟨⟨h', hh'⟩, hb⟩
      rw [hn, eq_self_iff_true, true_and] at hsweeps
      exact hcreate w' h' hh' (hb.trans hsweeps.symm)
    · refine (h.unlocked (.inl hh)).congr (iff_of_false id fun hs => ?_)
      rw [hsweeps, hn] at hs
      cases hs.1
  · refine hcreate w h hh (iff_of_false (fun hb => ?_) fun hs => hook hs.1)
    exact Bool.false_ne_true (hb.1.symm.trans hc)

def stageRest (job : Job) (srcMeta : Metadata) (degraded : Option FileIdentity) (verdict : Verdict) (reused : ℕ) :
    M CopyError Stage := do
  let copied ← stream job verdict
  let verified ← verify job srcMeta (reused + copied)
  let times ← applyItem job job.opts.preserveTimes .times .setTimes
  let permissions ← applyItem job job.opts.preservePermissions .permissions .setPermissions
  syncStaged job
  recheckSource job srcMeta
  let identity ← writerIdentity
  return .staged ⟨job.temp, identity, copied, times ++ permissions, degraded, job.sync = .barrier, reused,
    verdict.discard, verified⟩

def Stage.Of (job : Job) (stage : Stage) : Prop := ∀ s, stage = .staged s → s.temp = job.temp

lemma stops_stageRest (srcMeta : Metadata) (degraded : Option FileIdentity) (verdict : Verdict)
    (reused : ℕ) (v : Scene) :
    Ensures scene (stageRest job srcMeta degraded verdict reused) v (fun a v' => v' = v ∧ a.Of job)
      fun e v' => Failed job v e v' := by
  refine (stops_stream verdict).andThen fun copied => ?_
  refine (stops_verify srcMeta _).andThen fun verified => ?_
  refine (stops_applyItem _ _ fun _ _ => rfl).andThen fun times => ?_
  refine (stops_applyItem _ _ fun _ _ => rfl).andThen fun permissions => ?_
  refine stops_syncStaged.andThen fun _ => (stops_recheckSource srcMeta).andThen fun _ => ?_
  refine calm_writerIdentity.andThen fun identity => Ensures.pure ⟨rfl, ?_⟩
  rintro s ⟨⟩
  rfl

inductive Prepared where
  | skipped (o : Outcome)
  | decided (srcMeta : Metadata) (degraded : Option FileIdentity) (verdict : Verdict)
    (identity : Option FileIdentity)

def untilWriter (job : Job) : M CopyError Prepared := do
  atStep .heartbeat beat
  atStep .create guard
  onlyIf job.hook.isNone do
    let _ ← removeTemp.attempt
  match ← planFile job with
  | .skip _ degraded =>
    onlyIf job.hook.isSome (sweep .create)
    return .skipped ⟨0, [], degraded, .unavailable, true, false⟩
  | .proceed srcMeta degraded _ =>
    let reader ← atStep .source (openSource job)
    setFiles fun f => { f with source := reader }
    atStep .heartbeat beat
    atStep .create guard
    atStep .claim (fsCall .beforeCreate)
    setFiles fun f => { f with hasher := if job.opts.verify = .none then none else some [], sink := none }
    let (verdict, identity) ← planStart job
    return .decided srcMeta degraded verdict identity

lemma stageFile_eq : stageFile job = (do
    match ← untilWriter job with
    | .skipped o => return .skipped o
    | .decided srcMeta degraded verdict identity =>
      let reused ← openWriter job verdict.start identity
      stageRest job srcMeta degraded verdict reused) := by
  simp only [stageFile, untilWriter, bind_assoc]
  refine bind_congr fun _ => bind_congr fun _ => bind_congr fun _ => bind_congr fun plan => ?_
  cases plan with
  | skip m degraded => simp only [bind_assoc, pure_bind]
  | proceed m degraded b => simp only [stageProceed, stageRest, bind_assoc, pure_bind]

/-- The copy decides to start over, and opening its writer then removes what is under the temporary's name. -/
def StartsOver (job : Job) (w : World) : Prop :=
  ∃ srcMeta degraded verdict identity w',
    untilWriter job w = (.ok (.decided srcMeta degraded verdict identity), w') ∧ Sweeps job verdict.start w'

lemma startsOver_iff {srcMeta : Metadata} {degraded : Option FileIdentity} {verdict : Verdict}
    {identity : Option FileIdentity} {w' : World}
    (h : untilWriter job w = (.ok (.decided srcMeta degraded verdict identity), w')) :
    StartsOver job w ↔ Sweeps job verdict.start w' := by
  refine ⟨?_, fun hs => ⟨_, _, _, _, _, h, hs⟩⟩
  rintro ⟨_, _, _, _, _, h', hs⟩
  cases h.symm.trans h'
  exact hs

lemma not_startsOver {r : Except CopyError Prepared × World} (h : untilWriter job w = r)
    (hr : ∀ srcMeta degraded verdict identity w', r ≠ (.ok (.decided srcMeta degraded verdict identity), w')) :
    ¬ StartsOver job w := by
  rintro ⟨_, _, _, _, _, h', -⟩
  exact hr _ _ _ _ _ (h.symm.trans h')

def Prepared.Ready (p : Prepared) (v : Scene) : Prop :=
  ∀ srcMeta degraded verdict identity, p = .decided srcMeta degraded verdict identity →
    v.held = none ∧ v.watch.covered = true

lemma ends_untilWriter (job : Job) (h : Live d b v) (hh : v.held = none) :
    Ensures scene (untilWriter job) v (fun p v' => Live d b v' ∧ p.Ready v') (Ended job d b) := by
  have he : ∀ e, Ended job d b e v := fun e => h.ended (.inl hh)
  refine steady_beat.mapFailure.andThen he fun _ => ?_
  refine Ensures.bind (Ensures.mapFailure ((ensures_guard v).mono (fun _ _ => id) ?_)) ?_
  · rintro e _ rfl
    exact h.unlocked (.inl hh)
  rintro - _ rfl
  refine Ensures.bind (Q := fun _ v' => Live d b v' ∧ v'.held = none) ?_ ?_
  · rw [onlyIf]
    split
    · exact live_removal h hh
    · exact Ensures.pure ⟨h.guarded, hh⟩
  rintro - v' ⟨h', hh'⟩
  have he : ∀ e, Ended job d b e v' := fun e => h'.ended (.inl hh')
  refine (steady_planFile job).andThen he fun plan => ?_
  split
  · refine Ensures.bind (Q := fun _ u => Live d b u) ?_ fun _ u hu =>
      Ensures.pure ⟨hu, fun _ _ _ _ h => by cases h⟩
    rw [onlyIf]
    split
    · exact (ends_sweep .create h' hh').mono (fun _ _ hu => hu.1) fun _ _ => id
    · exact Ensures.pure h'
  · refine (steady_openSource job).mapFailure.andThen he fun reader => ?_
    refine Calm.andThen (Calm.modify fun _ => rfl) fun _ => ?_
    refine steady_beat.mapFailure.andThen he fun _ => ?_
    refine Ensures.bind (Ensures.mapFailure ((ensures_guard v').mono (fun _ _ => id) ?_)) ?_
    · rintro e _ rfl
      exact h'.unlocked (.inl hh')
    rintro - _ rfl
    have he : ∀ e, Ended job d b e v'.guarded := fun e => h'.guarded.ended (.inl hh')
    refine (steady_fsCall fun _ _ => rfl).mapFailure.andThen he fun _ => ?_
    refine Calm.andThen (Calm.modify fun _ => rfl) fun _ => ?_
    exact (steady_planStart job).andThen he fun r => Ensures.pure ⟨h'.guarded, fun _ _ _ _ _ => ⟨hh', rfl⟩⟩

lemma ends_openWriter (start : Start) (identity : Option FileIdentity) (h : Live d False (scene w))
    (hh : w.held = none) (hc : (scene w).watch.covered = true) :
    wp (openWriter job start identity) (fun _ w' => Live d (Sweeps job start w) (scene w'))
      (fun e w' => Ended job d (Sweeps job start w) e (scene w')) w := by
  have hresume : ∀ offset, False ↔ Sweeps job (.resume offset) w :=
    fun _ => iff_of_false id fun hs => by cases hs.2.1
  match start, identity with
  | .resume offset, some identity =>
    exact ends_resume offset identity (h.congr (hresume offset)) hh w rfl
  | .resume offset, none => exact (h.ended (.inl hh)).congr (hresume offset)
  | .fresh, identity => exact ends_fresh identity h hh hc

lemma ends_stageFile (job : Job) (h : Live d False (scene w)) (hh : w.held = none) :
    wp (stageFile job) (fun a w' => Live d (StartsOver job w) (scene w') ∧ a.Of job)
      (fun e w' => Ended job d (StartsOver job w) e (scene w')) w := by
  have hprep := ends_untilWriter job h hh w rfl
  rw [stageFile_eq, wp_bind]
  rw [wp] at hprep ⊢
  rcases hx : untilWriter job w with ⟨e | p, w'⟩
  · rw [hx] at hprep
    exact hprep.congr (iff_of_false id (not_startsOver hx (by simp)))
  rw [hx] at hprep
  obtain ⟨h', hready⟩ := hprep
  cases p with
  | skipped o =>
    exact ⟨h'.congr (iff_of_false id (not_startsOver hx (by simp))), fun _ h => by cases h⟩
  | decided srcMeta degraded verdict identity =>
    obtain ⟨hh', hc⟩ := hready _ _ _ _ rfl
    rw [startsOver_iff hx]
    refine wp_bind _ _ |>.mpr (wp_mono (ends_openWriter verdict.start identity h' hh' hc) (fun reused u hu =>
      ?_) fun _ _ => id)
    refine wp_mono (stops_stageRest srcMeta degraded verdict reused (scene u) u rfl) ?_ fun e _ hf => hf.ended hu
    rintro a u' ⟨hu', ha⟩
    exact ⟨hu' ▸ hu, ha⟩

inductive Unpublished (job : Job) (s : Staged) (v : Scene) (e : CopyError) : Scene → Prop
  | beat {v' : Scene} (h : Discarded job v e v') : Unpublished job s v e v'
  | lost (hl : e.leftover = some (s.temp, keptUnlocked)) : Unpublished job s v e v.unlocked
  | rename {v' : Scene} (h : Discarded job v.guarded e v') : Unpublished job s v e v'

lemma ensures_discarding {α : Type} (step : CopyStep) (code : Code) (source : IoError) (v : Scene) :
    Ensures scene (discarding job step code source : M CopyError α) v (fun _ _ => False)
      fun e v' => Discarded job v e v' :=
  Ensures.bind ((ensures_discard job step code source v).mono (fun _ _ => id) fun _ _ => False.elim) fun _ _ h =>
    Ensures.throw h

lemma ensures_publishStaged (s : Staged) (v : Scene) : Ensures scene (publishStaged job s) v
    (fun _ v' => ∃ d, v' = { v.guarded.changed .rename with present := false, dest := d })
    fun e v' => Unpublished job s v e v' := by
  refine Ensures.attempted (steady_beat v) ?_ ?_
  · rintro - _ rfl
    refine Ensures.attempted (ensures_guard _) ?_ ?_
    · rintro - _ rfl
      refine Ensures.attempted (ensures_rename job.opts.publish _) ?_ ?_
      · rintro - _ ⟨d, rfl⟩
        exact Ensures.pure ⟨d, rfl⟩
      · rintro e _ rfl
        exact (ensures_discarding _ _ _ _).mono (fun _ _ => False.elim) fun _ _ h => .rename h
    · rintro e _ rfl
      exact Ensures.throw (.lost rfl)
  · rintro e _ rfl
    exact (ensures_discarding _ _ _ _).mono (fun _ _ => False.elim) fun _ _ h => .beat h

lemma ensures_refusePublish {α : Type} (e : CopyError) (v : Scene) :
    Ensures scene (refusePublish job e : M CopyError α) v (fun _ _ => False) fun e' v' =>
    Discarded job v e' v' := by
  refine Ensures.bind ((ensures_discard job _ _ _ v).mono (fun _ _ => id) fun _ _ => False.elim) fun out v' h => ?_
  have hkeep : Names job out → (if out.leftover.isNone then { out with leftover := e.leftover } else out) =
    out := by
    rintro ⟨why, hl⟩
    rw [hl]
    rfl
  refine Ensures.throw ?_
  cases h with
  | lost hn =>
    rw [hkeep hn]
    exact .lost hn
  | removed => exact .removed
  | missing => exact .missing
  | stuck hn =>
    rw [hkeep hn]
    exact .stuck hn

lemma Unpublished.ended {s : Staged} (hu : Unpublished job s v e v') (h : Live d b v) (hs : s.temp = job.temp) :
    Ended job d b e v' := by
  cases hu with
  | beat hd => exact (Failed.discarded hd).ended h
  | lost hl => exact h.unlocked (.inr ⟨keptUnlocked, hs ▸ hl⟩)
  | rename hd => exact (Failed.discarded hd).ended h.guarded

lemma Live.published (h : Live d b v) (d' : Option Entry) :
    Live d' b { v.guarded.changed .rename with present := false, dest := d' } :=
  let hg := h.guardedChanged .rename
  ⟨hg.locked, hg.ontime, hg.bare, rfl⟩

lemma ends_publishStaged {s : Staged} (h : Live d b v) (hs : s.temp = job.temp) :
    Ensures scene (publishStaged job s) v (fun _ v' => ∃ d', Live d' b v') (Ended job d b) := by
  refine (ensures_publishStaged s v).mono ?_ fun e _ hu => hu.ended h hs
  rintro _ _ ⟨d', rfl⟩
  exact ⟨d', h.published d'⟩

lemma ends_stageThenPublish (job : Job) (h : Live d False (scene w)) (hh : w.held = none) :
    wp (stageThenPublish job) (fun _ w' => ∃ d', Live d' (StartsOver job w) (scene w'))
      (fun e w' => Ended job d (StartsOver job w) e (scene w')) w := by
  rw [stageThenPublish, wp_bind]
  refine wp_mono (ends_stageFile job h hh) ?_ fun _ _ => id
  rintro a w' ⟨h', ha⟩
  split
  · exact ⟨d, h'⟩
  · next s => exact ends_publishStaged h' (ha s rfl) w' rfl

lemma startsOver_staging (w : World) : StartsOver { job with sync := .staging } w ↔ StartsOver job w := Iff.rfl

lemma ends_copyFileCheckpointed (job : Job) (refusal : FsError → CopyError) (h : Live d False (scene w))
    (hh : w.held = none) :
    wp (copyFileCheckpointed job refusal) (fun _ w' => ∃ d', Live d' (StartsOver job w) (scene w'))
      (fun e w' => Ended job d (StartsOver job w) e (scene w')) w := by
  rw [copyFileCheckpointed, wp_bind]
  refine wp_mono (ends_stageFile { job with sync := .staging } h hh) ?_
    fun e v' he => ⟨he.ontime, he.bare, he.reported, he.dest, he.accounted⟩
  rintro a w' ⟨h', ha⟩
  rw [startsOver_staging] at h'
  split
  · exact ⟨d, h'⟩
  · next s =>
    refine Ensures.attempted (R := fun _ v => ∃ d', Live d' (StartsOver job w) v)
      (F := Ended job d (StartsOver job w))
      (steady_fsCall (c := .beforePublish) (fun _ _ => rfl) (scene w')) ?_ ?_ w' rfl
    · rintro - _ rfl
      exact Ensures.bind (ends_publishStaged h' (ha s rfl)) fun _ _ hu => Ensures.pure hu
    · rintro e _ rfl
      exact (ensures_refusePublish _ _).mono (fun _ _ => False.elim) fun _ _ hd => (Failed.discarded hd).ended h'

end Copy

end Flux.Copy
