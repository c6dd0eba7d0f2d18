import Flux.Copy.Calls
import Flux.Copy.Publish

/-! What the calls of a copy tell about the lock: which changes a guard covers. -/

namespace Flux.Copy

open Base Wal

def Call.isChange : Call → Bool
  | .createNew | .openExisting | .truncateTo | .removeTemp | .rename => true
  | _ => false

/-- `covered`: a guard succeeded since the last change; `cutting`: that change opened a partial, which is still
to be cut; `lost`: a guard failed; `bare`: a change was made that no guard covers; `late`: one was made after a
guard failed. A call that failed changed nothing. -/
structure Watch where
  covered : Bool
  cutting : Bool
  lost : Bool
  bare : Bool
  late : Bool
  deriving DecidableEq, Repr

namespace Watch

def start : Watch := ⟨false, false, false, false, false⟩

def change (s : Watch) (c : Call) : Watch where
  covered := false
  cutting := c = .openExisting
  lost := s.lost
  bare := s.bare || !(s.covered || (c = .truncateTo && s.cutting))
  late := s.late || s.lost

def step (s : Watch) : Call × Bool → Watch
  | (.guard, true) => { s with covered := true }
  | (.guard, false) => { s with lost := true }
  | (c, done) => if c.isChange && done then s.change c else s

end Watch

def watch : List (Call × Bool) → Watch
  | [] => .start
  | c :: cs => (watch cs).step c

structure Scene where
  watch : Watch
  held : Option Held
  present : Bool
  dest : Option Entry

def scene (w : World) : Scene := ⟨watch w.calls, w.held, w.files.temp.isSome, w.dest⟩

section Idle

variable {ε α : Type}

lemma ensures_call (c : Call) (v : Scene) : Ensures scene (call c) v
    (fun _ v' => v' = { v with watch := v.watch.step (c, true) })
    fun _ v' => v' = { v with watch := v.watch.step (c, false) } := by
  rintro w rfl
  simp only [call, wp_bind, wp_get]
  split
  · rfl
  · rw [wp_bind, wp_set]
    split
    · rfl
    · rfl

lemma ensures_fsCall (c : Call) (v : Scene) : Ensures scene (fsCall c) v
    (fun _ v' => v' = { v with watch := v.watch.step (c, true) })
    fun _ v' => v' = { v with watch := v.watch.step (c, false) } :=
  (ensures_call c v).mapFailure

def Call.Idle (c : Call) : Prop := ∀ s ok, Watch.step s (c, ok) = s

lemma steady_call {c : Call} (hc : c.Idle) : Steady scene (call c) := fun v =>
  (ensures_call c v).mono (fun _ _ h => h.trans (by rw [hc])) fun _ _ h => h.trans (by rw [hc])

lemma steady_fsCall {c : Call} (hc : c.Idle) : Steady scene (fsCall c) := (steady_call hc).mapFailure

lemma steady_beat : Steady scene beat := steady_fsCall fun _ _ => rfl

lemma steady_sinkCall : Steady scene sinkCall := by
  refine Steady.ofGet fun w => ?_
  split
  · exact Ensures.pure rfl
  · refine Ensures.bind (Q := fun _ v => v = scene w) (Ensures.set rfl) fun _ v hv => ?_
    split
    · exact Ensures.pure hv
    · exact Ensures.throw hv

lemma steady_nextSchedule : Steady scene (nextSchedule : M ε (List (Delivery IoError))) := by
  refine Steady.ofGet fun w => ?_
  split
  · exact Ensures.pure rfl
  · exact Ensures.bind (Q := fun _ v => v = scene w) (Ensures.set rfl) fun _ v hv => Ensures.pure hv

lemma steady_setFiles {g : Files → Files} (hg : ∀ f, (g f).temp.isSome = f.temp.isSome) :
    Steady scene (setFiles g : M ε Unit) :=
  Steady.modify fun w => by simp only [scene, hg]

lemma steady_metadataTemp : Steady scene metadataTemp := by
  refine (steady_fsCall fun _ _ => rfl).bind fun _ => Steady.get.bind fun w => ?_
  split
  · exact Steady.throw _
  · exact Steady.pure _

lemma steady_openTemp : Steady scene openTemp := by
  refine (steady_fsCall fun _ _ => rfl).bind fun _ => Steady.get.bind fun w => ?_
  split
  · exact Steady.throw _
  · exact steady_nextSchedule.bind fun _ => Steady.pure _

lemma steady_writeAll (bs : Bytes) : Steady scene (writeAll bs) := by
  refine (steady_call fun _ _ => rfl).attempt.bind fun a => ?_
  split
  · exact steady_setFiles fun _ => Option.isSome_map
  · exact Steady.bind (steady_setFiles fun _ => Option.isSome_map) fun _ => Steady.throw _

lemma steady_feed (bs : Bytes) : Steady scene (feed bs : M ε Unit) := steady_setFiles fun _ => rfl

lemma steady_readSource (n : ℕ) : Steady scene (readSource n) := by
  refine Steady.get.bind fun w => ?_
  split
  · exact Steady.throw _
  · exact Steady.bind (steady_setFiles fun _ => rfl) fun _ => Steady.pure _

variable (job : Job)

lemma steady_decideLoop (blake3 : Bytes → Digest) (digests : AList fun _ : UInt64 => Digest)
    (len partialLen n k : ℕ) (p : Input) (pos : ℕ) (shorter : Bool) :
    Steady scene (decideLoop blake3 digests len partialLen n k p pos shorter) := by
  induction n generalizing k p pos shorter with
  | zero => exact Steady.pure _
  | succ n ih =>
    rw [decideLoop]
    split
    · exact Steady.pure _
    · refine Steady.ite (Steady.pure _) (Steady.ite (Steady.pure _) ?_)
      refine steady_beat.mapFailure.bind fun _ => (steady_readSource _).bind fun src => ?_
      split
      · exact Steady.pure _
      · exact Steady.ite ((steady_feed _).bind fun _ => ih _ _ _ _) (Steady.pure _)

lemma steady_decide (blake3 : Bytes → Digest) (state : FileState) (gate : Gate) (partialLen : Option ℕ)
    (part : Option Input) : Steady scene (decide blake3 state gate partialLen part) := by
  rw [decide.eq_def]
  refine Steady.ite (Steady.pure _) (Steady.ite (Steady.pure _) (Steady.ite (Steady.pure _) ?_))
  split
  · split
    · exact Steady.pure _
    · exact steady_decideLoop _ _ _ _ _ _ _ _ _
  · exact Steady.pure _

lemma steady_decideFullLoop (blake3 : Bytes → Digest) (sourceLen partialLen n k : ℕ) (p : Input) (pos : ℕ)
    (proven : List Digest) : Steady scene (decideFullLoop blake3 sourceLen partialLen n k p pos proven) := by
  induction n generalizing k p pos proven with
  | zero => exact Steady.pure _
  | succ n ih =>
    rw [decideFullLoop]
    refine Steady.ite (Steady.pure _) ?_
    refine steady_beat.mapFailure.bind fun _ => (steady_readSource _).bind fun src => ?_
    split
    · exact Steady.pure _
    · exact Steady.ite ((steady_feed _).bind fun _ => ih _ _ _ _) (Steady.pure _)

lemma steady_openPartial (m : Option Entry) :
    Steady scene (openPartial m : M ε (Except String (Option Input))) := by
  cases m with
  | none => exact Steady.pure _
  | some _ =>
    refine steady_openTemp.attempt.bind fun r => ?_
    split
    · exact Steady.pure _
    · exact Steady.ite (Steady.pure _) (Steady.pure _)

lemma steady_planWith (state : Option FileState) (missing : Option Discard) :
    Steady scene (planWith job state missing) := by
  refine steady_metadataTemp.attempt.bind fun r => ?_
  split
  · exact Steady.pure _
  · refine (steady_openPartial _).bind fun r => ?_
    split
    · exact Steady.pure _
    · dsimp only
      split
      · exact (steady_decide _ _ _ _ _).mapFailure.bind fun _ => Steady.pure _
      · exact (steady_decideFullLoop _ _ _ _ _ _ _ _).mapFailure.bind fun _ => Steady.pure _
      · exact Steady.pure _

lemma steady_planStart : Steady scene (planStart job) := by
  rw [planStart]
  split
  · rw [planResume.eq_def]
    split
    · split
      · exact steady_planWith job _ _
      · exact Steady.pure _
      · exact Steady.pure _
    · exact steady_planWith job _ _
    · exact steady_planWith job _ _
  · exact Steady.pure _

lemma steady_planFile : Steady scene (planFile job) := by
  have hgate : Steady scene (identityGate job) := by
    refine Steady.bind (Steady.attempt ((steady_fsCall fun _ _ => rfl).bind fun _ => ?_)) fun r => ?_
    · split
      · exact Steady.throw _
      · exact Steady.pure _
    · split
      · exact Steady.pure _
      · exact Steady.throw _
  refine (steady_fsCall fun _ _ => rfl).mapFailure.bind fun _ => (steady_onlyIf (Steady.throw _)).bind fun _ => ?_
  refine hgate.bind fun g => ?_
  split
  · exact Steady.pure _
  · exact Steady.pure _

lemma steady_ifSink {x : M SinkError Unit} (hx : Steady scene x) : Steady scene (ifSink x) := by
  refine Steady.get.bind fun w => ?_
  split
  · exact Steady.pure _
  · exact hx

lemma steady_begin (durability : Durability) : Steady scene (FileSink.begin job durability) :=
  steady_sinkCall.bind fun _ => steady_setFiles fun _ => rfl

lemma steady_beginSink (proven : List Digest) : Steady scene (beginSink job proven) := by
  rw [beginSink]
  split
  · refine (steady_onlyIf (steady_fsCall fun _ _ => rfl).mapFailure).bind fun _ => ?_
    refine (steady_begin job _).mapFailure.bind fun _ => ?_
    exact steady_onlyIf (steady_ifSink steady_sinkCall).mapFailure
  · exact Steady.pure _

lemma steady_writeCarry (carry : Bytes) : Steady scene (writeCarry job carry) := by
  refine Steady.ite (Steady.pure _) ((steady_feed _).bind fun _ => (steady_writeAll _).mapFailure.bind fun _ => ?_)
  exact (steady_ifSink steady_sinkCall).mapFailure

lemma steady_submit (buf : ℕ) : Steady scene (submit job buf) := by
  refine Steady.get.bind fun w => ?_
  split
  · exact Steady.pure _
  · exact steady_sinkCall.bind fun _ => Steady.bind (steady_setFiles fun _ => rfl) fun _ => Steady.pure _

lemma steady_copyLoop (fuel buf copied : ℕ) : Steady scene (copyLoop job fuel buf copied) := by
  induction fuel generalizing buf copied with
  | zero => exact Steady.pure _
  | succ fuel ih =>
    have hread : Steady scene (readOnce buf) := by
      refine Steady.get.bind fun w => Steady.bind (steady_setFiles fun _ => rfl) fun _ => ?_
      split
      · exact Steady.pure _
      · exact Steady.throw _
    refine hread.bind fun bs => ?_
    split
    · exact Steady.pure _
    · refine (steady_feed _).bind fun _ => (steady_writeAll _).mapFailure.bind fun _ => ?_
      exact (steady_submit job _).mapFailure.bind fun _ => steady_beat.mapFailure.bind fun _ => ih _ _

lemma calm_endSink : Calm scene (endSink : M ε Unit) := Calm.modify fun _ => rfl

lemma steady_streamBytes (verdict : Verdict) : Steady scene (streamBytes job verdict) := by
  refine (steady_beginSink job _).bind fun _ => (steady_writeCarry job _).bind fun _ => ?_
  refine (steady_copyLoop job _ _ _).bind fun _ => Steady.bind ?_ fun _ => Steady.pure _
  exact (steady_ifSink (calm_endSink.steady.bind fun _ => steady_sinkCall)).mapFailure

lemma calm_abort : Calm scene (abort : M ε Unit) := by
  refine Calm.get.bind fun w => ?_
  split
  · exact calm_endSink.bind fun _ => (Calm.ofAttempt steady_sinkCall).bind fun _ => Calm.pure _
  · exact Calm.pure _

lemma steady_openSource : Steady scene (openSource job) :=
  (steady_fsCall fun _ _ => rfl).bind fun _ => steady_nextSchedule.bind fun _ => Steady.pure _

lemma calm_sourceNow : Calm scene (sourceNow job : M ε Source) := by
  rintro v w rfl
  rw [sourceNow, wp_bind, wp_get]
  split
  · rfl
  · rfl

lemma steady_reopenSource : Steady scene (reopenSource job) :=
  (steady_fsCall fun _ _ => rfl).bind fun _ => (calm_sourceNow job).steady.bind fun _ =>
    steady_nextSchedule.bind fun _ => Steady.pure _

lemma steady_hashStream (r : Input) : Steady scene (hashStream job r) := by
  have hloop : ∀ buf fuel r seen, Steady scene (hashLoop buf fuel r seen) := by
    intro buf fuel
    induction fuel with
    | zero => exact fun _ _ => Steady.pure _
    | succ fuel ih =>
      intro r seen
      rw [hashLoop.eq_def]
      dsimp only
      split
      · exact Steady.throw _
      · exact Steady.pure _
      · exact steady_beat.mapFailure.bind fun _ => ih _ _
  exact (hloop _ _ _ _).bind fun _ => Steady.pure _

lemma calm_writerIdentity : Calm scene (writerIdentity : M ε FileIdentity) := by
  refine (Calm.ofAttempt (steady_fsCall fun _ _ => rfl)).bind fun r => Calm.get.bind fun w => ?_
  split
  · exact Calm.pure _
  · exact Calm.pure _

end Idle

end Flux.Copy
