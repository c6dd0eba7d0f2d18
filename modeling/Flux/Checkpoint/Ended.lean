import Flux.Checkpoint.FileSink

namespace Flux.Checkpoint

open Base Wal Copy

variable {Dup : Type}

section Sound

variable {blake3 : Bytes → Digest} {fileId : Bytes} {perRange : ℕ}

lemma StillOpen.append {u v : List (Msg Dup)} (hu : StillOpen fileId u) (hv : StillOpen fileId v) :
    StillOpen fileId (u ++ v) := by
  intro m hm
  rcases List.mem_append.mp hm with hm | hm
  · exact hu m hm
  · exact hv m hm

lemma stillOpen_ranges (rs : List Wal.Range) : StillOpen fileId (rs.map (.range : Wal.Range → Msg Dup)) := by
  intro m hm
  obtain ⟨r, -, rfl⟩ := List.mem_map.mp hm
  rfl

lemma StillOpen.endsOnce {sent : List (Msg Dup)} (h : StillOpen fileId sent) {m : Msg Dup}
    (hm : ends fileId m = true) : EndsOnce fileId (sent ++ [m]) := ⟨sent, m, rfl, h, hm⟩

def Op.quiet (fileId : Bytes) : Op Dup → Bool
  | .send m => !ends fileId m
  | _ => true

inductive Inline.Sound (fileId : Bytes) (gone : Bool) (s : Inline Dup) : Prop
  | going (here : s.ended = false) (sent : StillOpen fileId s.sent) (todo : ∀ op ∈ s.todo, op.quiet fileId = true)
  | ending (here : s.ended = true) (sent : StillOpen fileId s.sent) (rs : List Wal.Range) (m : Msg Dup)
    (rest : List (Op Dup)) (todo : s.todo = (rs.map fun r => .send (.range r)) ++ .send m :: rest)
    (last : ends fileId m = true) (after : rest = [] ∨ rest = [.answer])
  | ended (here : s.ended = true) (todo : s.todo = [] ∨ s.todo = [.answer])
    (sent : gone = true ∨ EndsOnce fileId s.sent)

lemma quiet_sends (rs : List Wal.Range) :
    ∀ op ∈ rs.map (fun r => (.send (.range r) : Op Dup)), op.quiet fileId = true := by
  intro op hop
  obtain ⟨r, -, rfl⟩ := List.mem_map.mp hop
  rfl

variable {s s' : Inline Dup}

lemma Inline.Sound.step {gone : Bool} (h : s.Sound fileId gone)
    (step : InlineStep blake3 fileId perRange gone s s') : s'.Sound fileId gone := by
  cases h with
  | going here sent todo =>
    cases step with
    | wrote bytes idle going =>
      refine .going here sent fun op hop => ?_
      obtain ⟨p, -, rfl⟩ := List.mem_map.mp hop
      rfl
    | recordProven digests idle going => exact .going here sent (quiet_sends _)
    | complete idle going =>
      exact .ending rfl sent _ (.close fileId true) [.answer] rfl (decide_eq_true rfl) (.inr rfl)
    | abort idle going => exact .ending rfl sent [] (.discard fileId) [] rfl (decide_eq_true rfl) (.inl rfl)
    | spawnFailed idle going => exact .going here sent todo
    | gathered hop =>
      rw [hop] at todo
      refine .going here sent fun op hx => ?_
      rcases List.mem_append.mp hx with hx | hx
      · exact quiet_sends _ op hx
      · rcases List.mem_cons.mp hx with rfl | hx
        · rfl
        · exact todo op (List.mem_cons_of_mem _ hx)
    | sent hop connected =>
      rw [hop] at todo
      have hm := todo _ List.mem_cons_self
      refine .going here (sent.append ?_) fun op hx => todo op (List.mem_cons_of_mem _ hx)
      intro x hx
      rw [List.mem_singleton.mp hx]
      simpa [Op.quiet] using hm
    | sendGone hop connected => exact .going here sent fun op hx => by cases hx
    | logFine hop fault =>
      rw [hop] at todo
      exact .going here sent fun op hx => todo op (List.mem_cons_of_mem _ hx)
    | logFailed hop fault => exact .going here sent fun op hx => by cases hx
    | answered hop =>
      rw [hop] at todo
      exact .going here sent fun op hx => todo op (List.mem_cons_of_mem _ hx)
  | ending here sent rs m rest todo last after =>
    cases step with
    | sent hop connected =>
      cases rs with
      | nil =>
        obtain ⟨hm, rfl⟩ := List.cons.inj (hop.symm.trans todo)
        cases hm
        exact .ended here after (.inr (sent.endsOnce last))
      | cons r rs =>
        obtain ⟨hm, rfl⟩ := List.cons.inj (hop.symm.trans todo)
        cases hm
        exact .ending here (sent.append (stillOpen_ranges [r])) rs m rest rfl last after
    | sendGone hop connected => exact .ended here (.inl rfl) (.inl connected)
    | wrote bytes idle going => simp [here] at going
    | recordProven digests idle going => simp [here] at going
    | complete idle going => simp [here] at going
    | abort idle going => simp [here] at going
    | spawnFailed idle going => simp [here] at going
    | gathered hop => cases rs <;> simp [todo] at hop
    | logFine hop fault => cases rs <;> simp [todo] at hop
    | logFailed hop fault => cases rs <;> simp [todo] at hop
    | answered hop => cases rs <;> simp [todo] at hop
  | ended here todo sent =>
    cases step with
    | answered hop =>
      refine .ended here (.inl ?_) sent
      rcases todo with todo | todo
      · simp [todo] at hop
      · exact (List.cons.inj (hop.symm.trans todo)).2
    | wrote bytes idle going => simp [here] at going
    | recordProven digests idle going => simp [here] at going
    | complete idle going => simp [here] at going
    | abort idle going => simp [here] at going
    | spawnFailed idle going => simp [here] at going
    | gathered hop => rcases todo with todo | todo <;> simp [todo] at hop
    | sent hop connected => rcases todo with todo | todo <;> simp [todo] at hop
    | sendGone hop connected => rcases todo with todo | todo <;> simp [todo] at hop
    | logFine hop fault => rcases todo with todo | todo <;> simp [todo] at hop
    | logFailed hop fault => rcases todo with todo | todo <;> simp [todo] at hop

def MainAt.why : MainAt → Option Ending
  | .cancelling w | .hangingUp w | .awaiting w | .awaitBeating w | .joining w => some w
  | _ => none

def MainAt.cancels : MainAt → Bool
  | .hangingUp _ | .awaiting _ | .awaitBeating _ | .joining _ | .discarding | .over | .ended _ => true
  | _ => false

structure Pipeline.Sound (fileId : Bytes) (gone hurt : Bool) (p : Pipeline Dup) : Prop where
  control : p.Control
  why : ∀ w, p.main.why = some w → w = .abort
  failed : ∀ e, p.main = .failed e → p.submitOpen = true
  cancel : p.cancel = true → p.main.cancels = true
  log : p.walFault ≠ none → hurt = true
  faulted : ∀ f, p.worker = .recording f ∨ p.worker = .reporting (.error f) ∨ p.result = some (.error f) ∨
    p.main = .reaping (some (.error f)) → gone = true ∨ hurt = true
  speechless : p.main.phase = 0 → p.cancel = false → p.worker.done = true → p.result ≠ none ∨ hurt = true
  lost : p.main = .reaping none → hurt = true
  sent : p.main ≠ .closed → p.main ≠ .over → StillOpen fileId p.sent
  closed : p.main = .closed → EndsOnce fileId p.sent
  aborted : p.main = .over → gone = true ∨ EndsOnce fileId p.sent
  ended : ∀ e, p.main = .ended e → gone = true ∨ hurt = true

section Worker

variable {gone hurt : Bool} {p p' : Pipeline Dup}

variable {e : SinkError}

namespace MainStep

variable (h : MainStep blake3 fileId p p')

include h

lemma failed (he : p'.main = .failed e) : p.main.early = true ∧ p'.submitOpen = p.submitOpen := by
  cases h <;> simp_all [MainAt.early]

lemma why {w : Ending} (hw : p'.main.why = some w) : p.main.why = some w ∨ p'.main = .cancelling w := by
  cases h <;> simp_all [MainAt.why]

lemma cancels (hc : p.cancel = true → p.main.cancels = true) (hp : p'.cancel = true) : p'.main.cancels = true := by
  cases h with
  | abort here => rcases here with here | ⟨e, here⟩ <;> simp_all [MainAt.cancels]
  | drop here => rcases here with here | ⟨e, here⟩ <;> simp_all [MainAt.cancels]
  | _ => simp_all [MainAt.cancels]

lemma walFault : p'.walFault = p.walFault := by
  cases h <;> rfl

lemma reaped {r : Option (Except WalFault Hashes)} (hr : p'.main = .reaping r) :
    p.main = .finishing ∧ (p.result = r ∧ (r = none → p.reports = false)) := by
  cases h <;> simp_all
  simp [← hr]

lemma result_before {r : Except WalFault Hashes} (hr : p'.result = some r) : p.result = some r := by
  cases h <;> first | exact hr | cases hr

lemma early_phase (hp : p'.main.phase = 0) (hc : p'.cancel = false) :
    p.main.phase = 0 ∧ p.cancel = false ∧ p'.result = p.result := by
  cases h with
  | abort here => rcases here with here | ⟨e, here⟩ <;> simp_all [MainAt.phase]
  | drop here => rcases here with here | ⟨e, here⟩ <;> simp_all [MainAt.phase]
  | _ => simp_all [MainAt.phase]

lemma ended (he : p'.main = .ended e) : (∃ f, p.main = .reaping (some (.error f))) ∨ p.main = .reaping none ∨
    (∃ e', p.main.why = some (.lost e')) ∨ (∃ h, p.main = .completing h) ∨ p.main = .closing := by
  cases h <;> simp_all [MainAt.why]

lemma stopped (ho : p'.main = .over) : p.main.why = some .drop ∨ p.main = .discarding ∧
    (p'.sent = p.sent ∨ p'.sent = p.sent ++ [.discard fileId]) := by
  cases h <;> simp_all [MainAt.why]

lemma sends (hc : p'.main ≠ .closed) (ho : p'.main ≠ .over) : p.main ≠ .closed ∧ p.main ≠ .over ∧
    ∃ rs : List Wal.Range, p'.sent = p.sent ++ rs.map .range := by
  cases h with
  | abort here => rcases here with here | ⟨e, here⟩ <;> simp_all
  | drop here => rcases here with here | ⟨e, here⟩ <;> simp_all
  | _ => simp_all

end MainStep

namespace WorkerStep

variable (h : WorkerStep blake3 fileId perRange p p')

include h

lemma shared : p'.cancel = p.cancel ∧ p'.walFault = p.walFault := by
  cases h <;> exact ⟨rfl, rfl⟩

lemma recording {f : WalFault} (hf : p'.worker = .recording f) :
    (∃ h r done, p.worker = .attempting h r done) ∨ p.walFault ≠ none ∨ p.worker = .recording f := by
  cases h <;> simp_all

lemma reporting {f : WalFault} (hf : p'.worker = .reporting (.error f)) :
    p.worker = .recording f ∨ p.worker = .reporting (.error f) := by
  cases h <;> simp_all

lemma result_before {r : Except WalFault Hashes} (hr : p'.result = some r) :
    p.result = some r ∨ p.worker = .reporting r := by
  cases h <;> simp_all

lemma sends : ∃ rs : List Wal.Range, p'.sent = p.sent ++ rs.map .range := by
  cases h with
  | sent => exact ⟨[_], rfl⟩
  | _ => exact ⟨[], (List.append_nil _).symm⟩

end WorkerStep

lemma Pipeline.Sound.main (h : p.Sound fileId gone hurt) (step : MainStep blake3 fileId p p')
    (fair : Fair gone p p') : p'.Sound fileId gone hurt := by
  obtain ⟨hworker, -, -, -, -⟩ := step.frame
  refine ⟨step.control h.control, ?_, ?_, step.cancels h.cancel, ?_, ?_, ?_, ?_, ?_, ?_, ?_, ?_⟩
  · intro w hw
    rcases step.why hw with hw | hw
    · exact h.why w hw
    · cases w with
      | abort => rfl
      | drop => exact absurd hw fair.kept
      | lost e => exact absurd hw (fair.waits e)
  · intro e he
    obtain ⟨hearly, hopen⟩ := step.failed he
    rw [hopen]
    exact h.control.early hearly
  · rw [step.walFault]
    exact h.log
  · rintro f (hf | hf | hf | hf)
    · exact h.faulted f (.inl (hworker ▸ hf))
    · exact h.faulted f (.inr (.inl (hworker ▸ hf)))
    · exact h.faulted f (.inr (.inr (.inl (step.result_before hf))))
    · exact h.faulted f (.inr (.inr (.inl (step.reaped hf).2.1)))
  · intro hp hc hd
    obtain ⟨hp', hc', hr⟩ := step.early_phase hp hc
    rw [hr]
    exact h.speechless hp' hc' (hworker ▸ hd)
  · intro hl
    obtain ⟨hm, hr, hreports⟩ := step.reaped hl
    have hc : p.cancel = false := by
      by_contra hc
      have := h.cancel (Bool.not_eq_false _ |>.mp hc)
      rw [hm] at this
      cases this
    exact (h.speechless (by rw [hm]; rfl) hc (h.control.reports (hreports rfl))).resolve_left fun hn => hn hr
  · intro hc ho
    obtain ⟨hc', ho', rs, hs⟩ := step.sends hc ho
    rw [hs]
    exact (h.sent hc' ho').append (stillOpen_ranges rs)
  · intro hc
    obtain ⟨hm, hs, -, -⟩ := step.closed hc
    rw [hs]
    exact (h.sent (by rw [hm]; simp) (by rw [hm]; simp)).endsOnce (decide_eq_true rfl)
  · intro ho
    rcases step.stopped ho with hw | ⟨hm, hs | hs⟩
    · cases h.why _ hw
    · exact .inl (fair.discardFails hm ho hs)
    · rw [hs]
      exact .inr ((h.sent (by rw [hm]; simp) (by rw [hm]; simp)).endsOnce (decide_eq_true rfl))
  · intro e he
    rcases step.ended he with ⟨f, hm⟩ | hm | ⟨e', hw⟩ | ⟨hashes, hm⟩ | hm
    · exact h.faulted f (.inr (.inr (.inr hm)))
    · exact .inr (h.lost hm)
    · cases h.why _ hw
    · exact .inl (fair.lastFails hashes e hm he)
    · exact .inl (fair.closeFails e hm he)

lemma Pipeline.Sound.worker (h : p.Sound fileId gone hurt) (step : WorkerStep blake3 fileId perRange p p')
    (fair : Fair gone p p') (lives : p.worker.done = false → p'.worker.done = true → p.cancel = true ∨
      p'.result ≠ none) : p'.Sound fileId gone hurt := by
  obtain ⟨hmain, -, hopen, -⟩ := step.frame
  obtain ⟨hcancel, hfault⟩ := step.shared
  obtain ⟨rs, hsent⟩ := step.sends
  -- The worker has been joined there, so it takes no step.
  have hjoined : p.main.phase ≠ 2 := fun hp => step.not_over (h.control.joined hp)
  refine ⟨step.control h.control, ?_, ?_, ?_, ?_, ?_, ?_, ?_, ?_, ?_, ?_, ?_⟩
  · rw [hmain]
    exact h.why
  · rw [hmain, hopen]
    exact h.failed
  · rw [hmain, hcancel]
    exact h.cancel
  · rw [hfault]
    exact h.log
  · rintro f (hf | hf | hf | hf)
    · rcases step.recording hf with ⟨hashes, r, done, hw⟩ | hw | hw
      · exact .inl (fair.sendFails hashes r done f hw hf)
      · exact .inr (h.log hw)
      · exact h.faulted f (.inl hw)
    · rcases step.reporting hf with hw | hw
      · exact h.faulted f (.inl hw)
      · exact h.faulted f (.inr (.inl hw))
    · rcases step.result_before hf with hr | hw
      · exact h.faulted f (.inr (.inr (.inl hr)))
      · exact h.faulted f (.inr (.inl hw))
    · exact h.faulted f (.inr (.inr (.inr (hmain ▸ hf))))
  · rw [hmain, hcancel]
    intro hp hc hd
    cases hw : p.worker.done with
    | true =>
      rw [(step.done hw).2]
      exact h.speechless hp hc hw
    | false =>
      refine .inl ((lives hw hd).resolve_left ?_)
      rw [hc]
      exact Bool.false_ne_true
  · rw [hmain]
    exact h.lost
  · rw [hmain, hsent]
    exact fun hc ho => (h.sent hc ho).append (stillOpen_ranges rs)
  · rw [hmain]
    exact fun hc => absurd (by rw [hc]; rfl) hjoined
  · rw [hmain]
    exact fun ho => absurd (by rw [ho]; rfl) hjoined
  · rw [hmain]
    exact h.ended

lemma Pipeline.Sound.of_hurt (h : p.Sound fileId gone hurt) (hc : p'.Control) (hm : p'.main = p.main)
    (ho : p'.submitOpen = p.submitOpen) (hf : p'.cancel = p.cancel) (hs : p'.sent = p.sent) :
    p'.Sound fileId gone true where
  control := hc
  why := by rw [hm]; exact h.why
  failed := by rw [hm, ho]; exact h.failed
  cancel := by rw [hm, hf]; exact h.cancel
  log _ := rfl
  faulted _ _ := .inr rfl
  speechless _ _ _ := .inr rfl
  lost _ := rfl
  sent := by rw [hm, hs]; exact h.sent
  closed := by rw [hm, hs]; exact h.closed
  aborted := by rw [hm, hs]; exact h.aborted
  ended _ _ := .inr rfl

lemma Pipeline.Sound.of_gone (h : p.Sound fileId gone hurt) : p.Sound fileId true hurt where
  control := h.control
  why := h.why
  failed := h.failed
  cancel := h.cancel
  log := h.log
  faulted _ _ := .inl rfl
  speechless := h.speechless
  lost := h.lost
  sent := h.sent
  closed := h.closed
  aborted _ := .inl rfl
  ended _ _ := .inl rfl

lemma Pipeline.Sound.again (h : p.Sound fileId gone hurt) (he : p.main = .failed e) (buf : ℕ) :
    Pipeline.Sound fileId gone hurt { p with main := .holding, caller := some buf } where
  control := {
    h.control with
    early := fun _ => h.failed e he
    owns := fun _ => by simp
    joining := fun hp => absurd rfl hp
    joined := fun hp => absurd (show 0 = 2 from hp) (by decide)
    result := fun hr => ⟨(h.control.result hr).1, rfl⟩ }
  why _ hw := by cases hw
  failed _ hf := by cases hf
  cancel hc := by
    have := h.cancel hc
    rw [he] at this
    cases this
  log := h.log
  faulted f hf := by
    rcases hf with hf | hf | hf | hf
    · exact h.faulted f (.inl hf)
    · exact h.faulted f (.inr (.inl hf))
    · exact h.faulted f (.inr (.inr (.inl hf)))
    · cases hf
  speechless _ := h.speechless (by rw [he]; rfl)
  lost hl := by cases hl
  sent _ _ := h.sent (by rw [he]; simp) (by rw [he]; simp)
  closed hc := by cases hc
  aborted ho := by cases ho
  ended _ hx := by cases hx

lemma Pipeline.Sound.stray (h : p.Sound fileId gone hurt) (hm : p.main = .holding) (r : Wal.Range) :
    Pipeline.Sound fileId gone hurt { p with sent := p.sent ++ [.range r] } :=
  { h with
    control := { h.control with }
    sent := fun hc ho => (h.sent hc ho).append (stillOpen_ranges [r])
    closed := fun hc => by
      have hc : p.main = .closed := hc
      rw [hm] at hc
      cases hc
    aborted := fun ho => by
      have ho : p.main = .over := ho
      rw [hm] at ho
      cases ho }

lemma sound_spawned (hs : StillOpen fileId s.sent) (hf : s.walFault ≠ none → hurt = true) (first : Bytes) :
    (s.spawned first).Sound fileId gone hurt where
  control := by constructor <;> simp [Inline.spawned, MainAt.phase, MainAt.early]
  why _ hw := by cases hw
  failed _ he := by cases he
  cancel hc := by cases hc
  log := hf
  faulted f hf := by rcases hf with hf | hf | hf | hf <;> cases hf
  speechless _ _ hd := by cases hd
  lost hl := by cases hl
  sent _ _ := hs
  closed hc := by cases hc
  aborted ho := by cases ho
  ended _ he := by cases he

end Worker

def FileSink.Sound (fileId : Bytes) (s : FileSink Dup) : Prop :=
  match s.hashing with
  | .inline i => i.Sound fileId s.gone ∧ (i.walFault ≠ none → s.hurt = true)
  | .worker p => p.Sound fileId s.gone s.hurt

lemma InlineStep.walFault {gone : Bool} (h : InlineStep blake3 fileId perRange gone s s') :
    s'.walFault = s.walFault := by
  cases h <;> rfl

lemma Inline.Sound.weaken {gone gone' : Bool} (h : s.Sound fileId gone) (hg : gone = true → gone' = true)
    (he : s'.ended = s.ended) (ht : s'.todo = s.todo) (hs : s'.sent = s.sent) : s'.Sound fileId gone' := by
  cases h with
  | going here sent todo => exact .going (he.trans here) (hs ▸ sent) (ht ▸ todo)
  | ending here sent rs m rest todo last after =>
    exact .ending (he.trans here) (hs ▸ sent) rs m rest (ht.trans todo) last after
  | ended here todo sent => exact .ended (he.trans here) (ht ▸ todo) (sent.imp hg (hs ▸ ·))

lemma SinkStep.sound {s s' : FileSink Dup} (step : SinkStep blake3 fileId perRange s s') (h : s.Sound fileId) :
    s'.Sound fileId := by
  cases step with
  | inline step => exact ⟨Inline.Sound.step h.1 step, step.walFault ▸ h.2⟩
  | inlineLogFails f before => exact ⟨Inline.Sound.weaken h.1 id rfl rfl rfl, fun _ => rfl⟩
  | spawned first idle going wanted =>
    cases h.1 with
    | going here sent todo => exact sound_spawned sent h.2 first
    | ending here sent rs m rest todo last after => simp [here] at going
    | ended here todo sent => simp [here] at going
  | main step fair => exact Pipeline.Sound.main h step fair
  | worker step fair lives => exact Pipeline.Sound.worker h step fair lives
  | panicked here =>
    have step : WorkerStep blake3 fileId perRange _ _ := .panicked here
    exact Pipeline.Sound.of_hurt h (step.control h.control) rfl rfl rfl rfl
  | logFails f before =>
    have step : PipelineStep blake3 fileId perRange _ _ := .logFails f before rfl
    exact Pipeline.Sound.of_hurt h (step.control h.control) rfl rfl rfl rfl
  | again buf here => exact Pipeline.Sound.again h here buf
  | stray r own here connected => exact Pipeline.Sound.stray h here r
  | @goes hashing gone hurt =>
    cases hashing with
    | inline i => exact ⟨Inline.Sound.weaken h.1 (fun _ => rfl) rfl rfl rfl, h.2⟩
    | worker p => exact Pipeline.Sound.of_gone h

end Sound

lemma Feed.Holds.sound {blake3 : Bytes → Digest} {f : Feed Dup} {s : FileSink Dup} (h : f.Holds blake3 s) :
    s.Sound f.fileId := by
  induction h with
  | begin wanted walFault =>
    refine ⟨.going rfl ?_ (fun _ hop => by cases hop), fun hf => Option.isSome_iff_ne_none.mpr hf⟩
    intro m hm
    rw [List.mem_singleton.mp hm]
    rfl
  | step before step ih => exact step.sound ih

/-- Once `complete` or `abort` is through, a writer that is still there got one `Close` or `Discard` after the
file's other messages, unless `complete` met a worker that had panicked or seen the log fail. -/
theorem sink_ends_its_file (blake3 : Bytes → Digest) (f : Feed Dup) (s : FileSink Dup) (h : f.Holds blake3 s)
    (hr : s.returned = true) (hs : s.Spared) : s.gone = true ∨ EndsOnce f.fileId s.sent ∧
      ∀ (flushBytes : UInt64) (o : Opened) (operationId : Bytes) (generation : UInt64) (durability : Durability)
        (ts : List (Turn Dup)), messagesOf f.fileId
        (messages ((Loop.start (o.state operationId generation durability)).run
          blake3 flushBytes.toNat ts)) = s.sent →
        Unregistered f.fileId ((Loop.start (o.state operationId generation durability)).after blake3
          flushBytes.toNat ts) := by
  have hsound := h.sound
  have hends : s.gone = true ∨ EndsOnce f.fileId s.sent := by
    obtain ⟨hashing, gone, hurt⟩ := s
    cases hashing with
    | inline i =>
      simp only [FileSink.returned, Bool.and_eq_true, List.isEmpty_iff] at hr
      cases hsound.1 with
      | going here sent todo => simp [here] at hr
      | ending here sent rs m rest todo last after =>
        rw [todo] at hr
        simp at hr
      | ended here todo sent => exact sent
    | worker p =>
      have hp : p.Sound f.fileId gone hurt := hsound
      rcases hs with ho | hh
      · exact hp.aborted ho
      · simp only [FileSink.returned] at hr
        split at hr
        · next hm => exact .inr (hp.closed hm)
        · next e hm =>
          refine .inl ((hp.ended e hm).resolve_right ?_)
          rw [show hurt = false from hh]
          exact Bool.false_ne_true
        · next hm => exact hp.aborted hm
        · cases hr
  refine hends.imp id fun he => ⟨he, fun flushBytes o operationId generation durability ts hm => ?_⟩
  obtain ⟨before, m, hsent, -, hlast⟩ := he
  refine after_unregistered blake3 flushBytes.toNat o operationId generation durability ts ⟨before, m,
    hm.trans hsent, ?_⟩
  rw [ends, Bool.and_eq_true] at hlast
  exact hlast.1

def heldByte : Feed Unit := { oneByte 2 with dup := some () }

def MainAt.orderly : MainAt → Bool
  | .failed _ | .cancelling _ | .ended _ | .over => false
  | _ => true

def WorkerAt.failing : WorkerAt → Bool
  | .recording _ => true
  | _ => false

section Present

variable {blake3 : Bytes → Digest} {f : Feed Dup} {p p' : Pipeline Dup} {hurt : Bool}

lemma Fair.present (hm : p'.main.orderly = true)
    (hw : ∀ h r done fault, p.worker = .attempting h r done → p'.worker ≠ .recording fault) : Fair false p p' := by
  constructor
  case delivered => exact fun _ => rfl
  case sendFails => exact fun h r done fault he hf => absurd hf (hw h r done fault he)
  all_goals
    intros
    first
      | rintro h
        rw [h] at hm
        cases hm
      | simp_all [MainAt.orderly]

lemma Feed.Holds.main (h : f.Holds blake3 ⟨.worker p, false, hurt⟩) (step : MainStep blake3 f.fileId p p')
    (hm : p'.main.orderly = true) : f.Holds blake3 ⟨.worker p', false, hurt⟩ := by
  refine h.step (.main step (.present hm fun _ _ _ _ he hf => ?_))
  rw [step.frame.1, he] at hf
  cases hf

lemma Feed.Holds.worker (h : f.Holds blake3 ⟨.worker p, false, hurt⟩)
    (step : WorkerStep blake3 f.fileId f.perRange p p') (hm : p.main.orderly = true)
    (hw : p'.worker.failing = false) (lives : p.worker.done || !p'.worker.done || p'.result.isSome) :
    f.Holds blake3 ⟨.worker p', false, hurt⟩ := by
  refine h.step (.worker step (.present (step.frame.1 ▸ hm) fun _ _ _ _ _ hf => ?_) fun hd hd' =>
    .inr fun hr => ?_)
  · rw [hf] at hw
    cases hw
  · simp [hd, hd', hr] at lives

end Present

def busyWith (first : Bytes) : Pipeline Unit :=
  { Inline.spawned ⟨.start 0, true, false, [], none, [.fileBegin heldByte.begin (some ())]⟩ first with
    main := .holding
    worker := .got (.start 0) ⟨0, first⟩
    caller := some 1
    free := [2, 3]
    submitted := [first] }

lemma holds_busyWith (first : Bytes) : heldByte.Holds zeroHash ⟨.worker (busyWith first), false, false⟩ := by
  have h0 : heldByte.Holds zeroHash (heldByte.held true none) := .begin true none
  have h1 := (h0.step (.spawned first rfl rfl rfl)).main (.logFine rfl rfl) rfl
  have h2 := h1.main (.workerFine rfl rfl) rfl
  have h3 := h2.main (.queued rfl rfl rfl (Nat.succ_pos _)) rfl
  have h4 := h3.main (.freed rfl rfl) rfl
  have h5 := h4.worker (.notCancelled rfl rfl) rfl rfl rfl
  have h6 := h5.worker (.received rfl rfl) rfl rfl rfl
  exact h6

def unfailing : FlushAnswers Unit := ⟨false, fun _ => none, none, none, none⟩

def turnsOf (sent : List (Msg Unit)) : List (Turn Unit) :=
  sent.map fun m => ⟨.message m, false, unfailing, false, unfailing⟩

def completedSent : List (Msg Unit) :=
  [.fileBegin heldByte.begin (some ()), .range (rangeOf [7] 0 1 [zeroHash [1]]), .close [7] true]

set_option maxRecDepth 20000 in
lemma completedSent_received : messagesOf [7] (messages ((Loop.start (Opened.state ⟨none, none, false, 1⟩ [111] 1
    .normal)).run zeroHash 100 (turnsOf completedSent))) = completedSent := rfl

theorem sink_ends_its_file_completed : ∃ s : FileSink Unit, heldByte.Holds zeroHash s ∧ s.returned = true ∧
    s.gone = false ∧ s.sent = completedSent ∧ EndsOnce [7] s.sent ∧
    Unregistered [7] ((Loop.start (Opened.state ⟨none, none, false, 1⟩ [111] 1 .normal)).after zeroHash 100
      (turnsOf s.sent)) := by
  have hshort := (Hashes.start 0).hasher.update_of_short zeroHash [1] (by decide)
  have h1 := (holds_busyWith [1]).worker (.hashed rfl) rfl rfl rfl
  simp only [Hashes.hashed, hshort] at h1
  have h2 := h1.worker (.returned rfl) rfl rfl rfl
  have h3 := h2.worker (.nextJob rfl) rfl rfl rfl
  have h4 := h3.main (.complete rfl) rfl
  have h5 := h4.worker (.notCancelled rfl rfl) rfl rfl rfl
  have h6 := h5.worker (.drained rfl rfl rfl) rfl rfl rfl
  have h7 := h6.worker (.reported rfl) rfl rfl rfl
  have h8 := h7.worker (.jobsDropped rfl) rfl rfl rfl
  have h9 := h8.worker (.freeDropped rfl) rfl rfl rfl
  have h10 := h9.worker (.resultDropped rfl) rfl rfl rfl
  have h11 := h10.worker (.left rfl rfl rfl rfl) rfl rfl rfl
  have h12 := h11.main (.finished rfl rfl) rfl
  have h13 := h12.main (.reapedEnd rfl rfl) rfl
  have h14 := h13.main (.lastSent rfl) rfl
  have h15 := h14.main (.closeSent rfl) rfl
  obtain hgone | ⟨hends, hwriter⟩ := sink_ends_its_file zeroHash heldByte _ h15 rfl (.inr rfl)
  · cases hgone
  · exact ⟨_, h15, rfl, rfl, rfl, hends, hwriter 100 ⟨none, none, false, 1⟩ [111] 1 .normal _
      completedSent_received⟩

theorem panicked_worker_leaves_file_open : ∃ s : FileSink Unit, heldByte.Holds zeroHash s ∧ s.returned = true ∧
    s.gone = false ∧ ¬ EndsOnce [7] s.sent ∧
    messagesOf [7] (messages ((Loop.start (Opened.state ⟨none, none, false, 1⟩ [111] 1 .normal)).run zeroHash 100
      (turnsOf s.sent))) = s.sent ∧
    ((Loop.start (Opened.state ⟨none, none, false, 1⟩ [111] 1 .normal)).after zeroHash 100
      (turnsOf s.sent)).handle [7] = some () ∧
    ((Loop.start (Opened.state ⟨none, none, false, 1⟩ [111] 1 .normal)).after zeroHash 100
      (turnsOf s.sent)).state.pending = [([7], .fileBegin heldByte.begin)] := by
  have h1 := (holds_busyWith [1]).step (.panicked rfl)
  have h2 := h1.worker (.jobsDropped rfl) rfl rfl rfl
  have h3 := h2.worker (.freeDropped rfl) rfl rfl rfl
  have h4 := h3.worker (.resultDropped rfl) rfl rfl rfl
  have h5 := h4.worker (.left rfl rfl rfl rfl) rfl rfl rfl
  have h6 := h5.main (.complete rfl) rfl
  have h7 := h6.main (.finishGone rfl rfl rfl) rfl
  have h8 := h7.step (.main (.reapedGone rfl rfl) (by constructor <;> simp [busyWith, Inline.spawned]))
  refine ⟨_, h8, rfl, rfl, ?_, rfl, rfl, rfl⟩
  rintro ⟨before, m, hsent, -, hm⟩
  have hmem : m ∈ [Msg.fileBegin heldByte.begin (some ())] := by
    rw [show [Msg.fileBegin heldByte.begin (some ())] = before ++ [m] from hsent]
    exact List.mem_append_right _ List.mem_cons_self
  rw [List.mem_singleton.mp hmem] at hm
  cases hm

end Flux.Checkpoint
