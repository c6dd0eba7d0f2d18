import Flux.Lock.Alone
import Flux.Lock.Exclusion
import Flux.Run.Warning

/-! The dry run's preview of a lock, from its bytes alone, beside what a run with the lock to itself meets. -/

namespace Flux.Lock

open Base Run

inductive LockCapability where
  | localStrong | remoteStrong | remoteUnverified | unsupported
  deriving DecidableEq, Repr

def LockCapability.allowsExclusive : LockCapability → Bool
  | .localStrong | .remoteStrong => true
  | .remoteUnverified | .unsupported => false

inductive LockPreview where
  | absent
  | refused (e : LockError)
  | takeover (why : Uncertain)
  | recorded (r : LockRecord)
  | error (e : FsError)
  deriving DecidableEq, Repr

def heartbeatAge (now beat : UInt64) : Option UInt64 :=
  if beat ≤ now then some ((now - beat) / 1000000000) else none

def lockRecordWarning (now : UInt64) (r : LockRecord) : RunWarning :=
  .dryRunLockRecord r.operationId r.ownerInstanceId r.bootSessionId (heartbeatAge now r.lastHeartbeatWallTime)
    r.workspacePath

structure Previewed where
  preview : LockPreview
  scan : Bool
  warnings : List RunWarning
  deriving DecidableEq, Repr

def attempt {α : Type} (x : Act α) : Act (Except LockError α) :=
  tryCatch (do return .ok (← x)) fun e => return .error e

section

variable (blake3 : Bytes → Block 32) (kind : SiteKind)

def previewUncertain (breakLock : Bool) (capability : LockCapability) (why : Uncertain) : Act Previewed := do
  if breakLock then
    match ← raw .dirIsStrong with
    | .error e => return ⟨.error e, false, []⟩
    | .ok strong =>
      if strong && capability.allowsExclusive then
        return ⟨.takeover why, true, [.dryRunLockTakeover why.debug]⟩
      else return ⟨.refused takeoverUnavailable, true, []⟩
  else return ⟨.refused (uncertainRefusal why), true, []⟩

def previewRecord (now : UInt64) (r : LockRecord) : Act Previewed := do
  match ← attempt (workspace kind r) with
  | .error (.io e) => return ⟨.error e, false, []⟩
  | .error refused => return ⟨.refused refused, true, []⟩
  | .ok .untrusted => return ⟨.refused (untrustedRefusal r), true, []⟩
  | .ok .missing => return ⟨.refused (orphanRefusal r kind), true, []⟩
  | .ok .trusted => return ⟨.recorded r, true, [lockRecordWarning now r]⟩

def dryLockRecord (breakLock : Bool) (capability : LockCapability) (now : UInt64) : Act Previewed := do
  match ← raw (.readFile .lock recordLen) with
  | .error e =>
    if isNotFound e then return ⟨.absent, true, []⟩
    else if notRegular e then return ⟨.refused foreignRefusal, true, []⟩
    else return ⟨.error e, false, []⟩
  | .ok bytes =>
    match decode blake3 bytes with
    | .foreign => return ⟨.refused foreignRefusal, true, []⟩
    | .uncertain why => previewUncertain breakLock capability why
    | .record r => previewRecord kind now r

end

def LockPreview.code : LockPreview → Option LockCode
  | .refused (.refused r) => some r.code
  | .refused (.io _) | .absent | .takeover _ | .recorded _ | .error _ => none

variable {P : Type} [DecidableEq P] {v : Volume} {p : P} {w : World P} (blake3 : Bytes → Block 32)
  (kind : SiteKind) (capability : LockCapability) (now : UInt64)

def previewCode (mode : Mode) (available : Bool) (w : World P) :
    Option LockCode :=
  match w.dir .lock with
  | none => none
  | some (.other _) => some .controlPlaneNamespaceConflict
  | some (.file f) => fileCode kind mode available w.present none (decode blake3 (w.data f))

lemma runs_previewUncertain (mode : Mode) (why : Uncertain) :
    ∃ d, RunsTo (v.answer p) (previewUncertain (mode = .breakLock) capability why) w (.ok d) w ∧
      d.preview.code = if mode = .breakLock ∧ (v.strong && capability.allowsExclusive) then none
        else some .targetLockUncertain := by
  cases mode with
  | plain => exact ⟨_, .pure, rfl⟩
  | breakLock =>
    have hstrong : RunsTo (v.answer p) (raw .dirIsStrong) w (.ok (.ok v.strong)) w := runs_raw rfl
    cases hav : v.strong && capability.allowsExclusive with
    | false =>
      refine ⟨⟨.refused takeoverUnavailable, true, []⟩, .bind hstrong ?_, rfl⟩
      dsimp only
      rw [hav]
      exact .pure
    | true =>
      refine ⟨⟨.takeover why, true, [.dryRunLockTakeover why.debug]⟩, .bind hstrong ?_, rfl⟩
      dsimp only
      rw [hav]
      exact .pure

lemma runs_previewRecord (r : LockRecord) :
    ∃ d, RunsTo (v.answer p) (previewRecord kind now r) w (.ok d) w ∧
      d.preview.code =
        if Workspace.seen kind w.present r = .trusted then none else some .artifactOwnershipUncertain := by
  have hw : RunsTo (v.answer p) (attempt (workspace kind r)) w (.ok (.ok (.seen kind w.present r))) w :=
    RunsTo.tryCatch (.bind (runs_workspace kind) .pure)
  cases hs : Workspace.seen kind w.present r with
  | trusted | missing | untrusted =>
    rw [hs] at hw
    exact ⟨_, .bind hw .pure, rfl⟩

lemma runs_dryLockRecord (mode : Mode) :
    ∃ d, RunsTo (v.answer p) (dryLockRecord blake3 kind (mode = .breakLock) capability now) w (.ok d) w ∧
      d.preview.code = previewCode blake3 kind mode (v.strong && capability.allowsExclusive) w := by
  unfold previewCode
  match hd : w.dir .lock with
  | none => exact ⟨_, .bind (runs_raw (by rw [Volume.answer, hd])) .pure, rfl⟩
  | some (.other i) =>
    refine ⟨⟨.refused foreignRefusal, true, []⟩, .bind (runs_raw (by rw [Volume.answer, hd])) ?_, rfl⟩
    cases v.special i <;> exact .pure
  | some (.file f) =>
    have hread : RunsTo (v.answer p) (raw (.readFile .lock recordLen)) w
        (.ok (.ok ((w.data f).take (recordLen + 1)))) w := runs_raw (by rw [Volume.answer, hd])
    dsimp only
    rw [← decode_take blake3 (w.data f)]
    cases hc : decode blake3 ((w.data f).take (recordLen + 1)) with
    | foreign =>
      refine ⟨⟨.refused foreignRefusal, true, []⟩, .bind hread ?_, rfl⟩
      dsimp only
      rw [hc]
      exact .pure
    | uncertain why =>
      obtain ⟨d, hends, hcode⟩ := runs_previewUncertain (v := v) (p := p) (w := w) capability mode why
      refine ⟨d, .bind hread ?_, hcode⟩
      dsimp only
      rw [hc]
      exact hends
    | record r =>
      obtain ⟨d, hends, hcode⟩ := runs_previewRecord (v := v) (p := p) (w := w) kind now r
      refine ⟨d, .bind hread ?_, ?_⟩
      · dsimp only
        rw [hc]
        exact hends
      · rw [hcode, fileCode, if_pos rfl]

def Overlooked (operationId : Text) (w : World P) : Prop :=
  (w.dir .lock = none ∧ kind ≠ .root ∧ w.dir .dirLock ≠ none) ∨
    ∃ f r, w.dir .lock = some (.file f) ∧ decode blake3 (w.data f) = .record r ∧ trusted kind w.present r ∧
      w.dir (.broken operationId) ≠ none

omit [DecidableEq P] in
lemma codes_agree_iff (mode : Mode) (available : Bool) (operationId : Text) :
    previewCode blake3 kind mode available w = obtainCode blake3 kind mode available operationId w ↔
      ¬ Overlooked blake3 kind operationId w := by
  unfold previewCode obtainCode Overlooked
  match hd : w.dir .lock with
  | none => simp
  | some (.other i) => simp
  | some (.file f) =>
    match hc : decode blake3 (w.data f) with
    | .foreign => simp [fileCode, hc]
    | .uncertain why => simp [fileCode, hc]
    | .record r =>
      simp only [fileCode, ← seen_eq_trusted]
      by_cases hs : Workspace.seen kind w.present r = .trusted
      · cases hb : w.dir (.broken operationId) <;> simp [hs, hc]
      · simp [hs, hc]

theorem dry_lock_refuses_as_obtain_iff (mode : Mode) (operationId : Text) (v : Volume) (p : P) (w : World P)
    (hw : w.Initial) :
    ∃ o w' d, RunsTo (v.answer p) (obtain blake3 kind capability.allowsExclusive mode operationId) w o w' ∧
      RunsTo (v.answer p) (dryLockRecord blake3 kind (mode = .breakLock) capability now) w (.ok d) w ∧
      ((∀ code, d.preview.code = some code ↔ refusalCode o = some code) ↔
        ¬ Overlooked blake3 kind operationId w) := by
  obtain ⟨o, w', ho, hcode⟩ := runs_obtain (v := v) (p := p) blake3 kind mode capability.allowsExclusive
    operationId hw
  obtain ⟨d, hd, hpreview⟩ := runs_dryLockRecord (v := v) (p := p) (w := w) blake3 kind capability now mode
  refine ⟨o, w', d, ho, hd, ?_⟩
  rw [← codes_agree_iff blake3 kind mode (v.strong && capability.allowsExclusive), ← hcode, ← hpreview]
  exact Option.ext_iff.symm

section OneSite

def plainVolume : Volume := ⟨fun _ => .other, true, id⟩

def tornLock : World Bool :=
  { emptyWorld with
    dir := Function.update emptyWorld.dir .lock (some (.file 0))
    data := Function.update emptyWorld.data 0 [0x46]
    nextFile := 1 }

lemma tornLock_initial : tornLock.Initial where
  named := fun n f hn => by
    cases n <;> cases hn
    exact Nat.one_pos
  opened := fun _ => rfl
  locker := fun _ => rfl
  owns := fun _ => rfl

theorem dry_lock_refuses_as_obtain_tornLock :
    ∃ o w' d, RunsTo (plainVolume.answer true) (obtain zeroHash .directory true .plain []) tornLock o w' ∧
      RunsTo (plainVolume.answer true) (dryLockRecord zeroHash .directory false .localStrong 0) tornLock (.ok d)
        tornLock ∧
      refusalCode o = some .targetLockUncertain ∧ d.preview.code = some .targetLockUncertain := by
  obtain ⟨o, w', d, ho, hd, hiff⟩ := dry_lock_refuses_as_obtain_iff zeroHash .directory .localStrong 0 .plain []
    plainVolume true tornLock tornLock_initial
  have hrun : ∃ w, RunsTo (plainVolume.answer true) (obtain zeroHash .directory true .plain []) tornLock
    (.error (uncertainRefusal .torn)) w := ⟨_, rfl⟩
  obtain ⟨w, hw⟩ := hrun
  obtain ⟨rfl, -⟩ := hw.unique ho
  refine ⟨_, w', d, ho, hd, rfl, (hiff.2 ?_ _).2 rfl⟩
  rintro (⟨h, -⟩ | ⟨f, r, h, hr, -⟩)
  · cases h
  · cases h
    cases hr

def besideDirLock : World Bool :=
  { emptyWorld with dir := Function.update emptyWorld.dir .dirLock (some (.other 0)) }

theorem dry_lock_overlooks_dirLock :
    besideDirLock.Initial ∧ ∃ e w' d,
      RunsTo (plainVolume.answer true) (obtain zeroHash .directory true .plain []) besideDirLock (.error e) w' ∧
      RunsTo (plainVolume.answer true)
      (dryLockRecord zeroHash .directory false .localStrong 0) besideDirLock (.ok d) besideDirLock ∧
      e = dirLockRefusal ∧ d.preview = .absent := by
  refine ⟨⟨?_, fun _ => rfl, fun _ => rfl, fun _ => rfl⟩, _, _, _, rfl, rfl, rfl, rfl⟩
  intro n f hn
  cases n <;> cases hn

end OneSite

section Alone

variable {owner : Text → P} {v : Volume} {p : P} {w w' : World P}

lemma runs_of_against (hs : v.strong = true) (hi : ∀ x, v.identify x = x) {x : Prog Call Reply Phase}
    {m m' : Phase}
    (h : x.against (v.answer p) w = some (m', w')) : (processes blake3 kind owner).Runs p m w x m' w' := by
  induction x generalizing m w with
  | ret a =>
    cases h
    exact .ret
  | call c k ih =>
    rw [Prog.against] at h
    split at h
    · exact .call (Volume.answer_exec hs hi ‹_›) (ih _ h)
    · cases h

theorem obtained_alone_is_held (hs : v.strong = true) (hi : ∀ x, v.identify x = x) (hw : w.Initial) (mode : Mode)
    (allowed : Bool) {operationId : Text} (mine : owner operationId = p) :
    ∃ o w', RunsTo (v.answer p) (obtain blake3 kind allowed mode operationId) w o w' ∧
      ∀ held leftover, o = .ok (.held held leftover) →
      ∃ s, (processes blake3 kind owner).Reachable World.Initial .none s ∧
        s.shared = w' ∧ Has held (s.control p) := by
  obtain ⟨o, w', ho, -⟩ := runs_obtain (v := v) (p := p) blake3 kind mode allowed operationId hw
  refine ⟨o, w', ho, ?_⟩
  rintro held leftover rfl
  have hrun : (thenPhase (obtain blake3 kind allowed mode operationId) Obtained.phase .none).against
    (v.answer p) w = some (.holding held, w') := by
    rw [thenPhase, Prog.against_bind, show Prog.against _ _ _ = _ from ho]
    rfl
  refine ⟨_, .run (.init hw) rfl (Starts.obtain allowed mode operationId mine) (runs_of_against _ _ hs hi hrun),
    rfl, ?_⟩
  simp only [Function.update_self, Has]

theorem obtained_alone_is_held_emptyWorld :
    ∃ w' s, RunsTo (plainVolume.answer true) (obtain zeroHash .root true .plain []) emptyWorld
        (.ok (.held firstHeld none)) w' ∧
      (processes zeroHash .root fun _ => true).Reachable World.Initial .none s ∧ s.shared = w' ∧
      Has firstHeld (s.control true) := by
  have halone : ∃ o w', RunsTo (plainVolume.answer true) (obtain zeroHash .root true .plain []) emptyWorld o w' ∧
      ∀ held leftover, o = .ok (.held held leftover) →
        ∃ s, (processes zeroHash .root fun _ => true).Reachable World.Initial .none s ∧ s.shared = w' ∧
          Has held (s.control true) :=
    obtained_alone_is_held _ _ rfl (fun _ => rfl) emptyWorld_initial _ _ rfl
  obtain ⟨o, w', ho, hheld⟩ := halone
  have hrun : ∃ w, RunsTo (plainVolume.answer true) (obtain zeroHash .root true .plain []) emptyWorld
    (.ok (.held firstHeld none)) w := ⟨_, rfl⟩
  obtain ⟨w, hw⟩ := hrun
  obtain ⟨rfl, -⟩ := hw.unique ho
  obtain ⟨s, hs, hshared, hhas⟩ := hheld firstHeld none rfl
  exact ⟨w', s, ho, hs, hshared, hhas⟩

end Alone

end Flux.Lock
