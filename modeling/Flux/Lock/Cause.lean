import Flux.Lock.Exclusion

namespace Flux.Lock

open Base Function

variable {blake3 : Bytes → Block 32} {kind : SiteKind} {P : Type} [DecidableEq P] {owner : Text → P}

def Changes (w w' : World P) (x : Node) : Prop :=
  w'.dir .lock ≠ some x ∨ ∃ f, x = .file f ∧ w'.data f ≠ w.data f

def HasCause (blake3 : Bytes → Block 32) (kind : SiteKind) (w w' : World P) (p : P) (h : Handle) : Prop :=
  ∃ purpose, w.asked p = some purpose ∧
    (w'.dir .lock ≠ some (.file h.file) → MayMove kind w.present purpose (decode blake3 (w.data h.file))) ∧
    (w'.data h.file ≠ w.data h.file → MayOverwrite purpose (decode blake3 (w.data h.file)))

variable {w w' : World P} {p : P} {k : Know}

variable {x : Node}

omit [DecidableEq P] in
lemma Changes.of_same (hd : w'.dir .lock = w.dir .lock) (hdata : w'.data = w.data) (hx : w.dir .lock = some x) :
    ¬ Changes w w' x := by
  rintro (h | ⟨f, -, h⟩)
  · exact h (hd.trans hx)
  · exact h (by rw [hdata])

omit [DecidableEq P] in
lemma Changes.of_beside {n : Name} {y : Option Node} (hn : n ≠ .lock) (hx : w.dir .lock = some x) :
    ¬ Changes w { w with dir := update w.dir n y } x :=
  Changes.of_same (by simp only [update_of_ne hn.symm]) rfl hx

omit [DecidableEq P] in
lemma write_cause {h : Handle} {bytes bytes' : Bytes} {owns : Handle → Bool} (ha : Agrees blake3 owner w p k)
    (hc : k.allowed blake3 kind (.writeAt h bytes)) (hx : w.dir .lock = some x)
    (hch : Changes w { w with data := update w.data h.file bytes', owns := owns } x) :
    w.Locks p h ∧ x = .file h.file ∧ (w.owns h = true ∨
      HasCause blake3 kind w { w with data := update w.data h.file bytes', owns := owns } p h) := by
  obtain ⟨hl, -, hc⟩ := hc
  have hf : x = .file h.file := by
    rcases hch with hd | ⟨f, hf, hd⟩
    · exact absurd hx hd
    · rw [hf]
      by_contra hne
      exact hd (update_of_ne (fun he => hne (congrArg Node.file he)) _ _)
  refine ⟨ha.locked h hl, hf, hc.imp (ha.owns h) ?_⟩
  rintro ⟨purpose, d, hq, hd, hm⟩
  rw [show d = _ from (ha.content _ hd).2.symm] at hm
  exact ⟨purpose, ha.request ▸ hq, fun hne => absurd (hf ▸ hx) hne, fun _ => hm⟩

lemma exec_cause {c : Call} {r : Reply c} (ha : Agrees blake3 owner w p k) (hc : k.allowed blake3 kind c)
    (hx : Exec p c w r w') (hd : w.dir .lock = some x) (hch : Changes w w' x) :
    ∃ h, w.Locks p h ∧ x = .file h.file ∧ (w.owns h = true ∨ HasCause blake3 kind w w' p h) := by
  cases hx with
  | fails | request | openLock | metadata | identity | granted | refused | readLocked | readUnlocked | readFile
  | syncAll | close | closeNone | dirIsStrong | workspacePresent | setWorkspace =>
    exact absurd hch (Changes.of_same rfl rfl hd)
  | createLock free =>
    cases hc
    rw [free] at hd
    cases hd
  | @writeAt _ h => exact ⟨h, write_cause ha hc hd hch⟩
  | @writeFails _ h => exact ⟨h, write_cause ha hc hd hch⟩
  | @setLen _ h n mine =>
    refine ⟨h, ha.locked h hc.1, ?_, .inl (ha.owns h hc.2.1)⟩
    rcases hch with hne | ⟨f, hf, hne⟩
    · exact absurd hd hne
    · rw [hf]
      by_contra hf'
      exact hne (update_of_ne (fun he => hf' (congrArg Node.file he)) _ _)
  | @renameNoReplace _ a b y named free =>
    match a, b, hc with
    | .lock, .broken i, ⟨_, h, hh, _, purpose, d, hq, hcon, hm⟩ =>
      obtain ⟨hl, hdir⟩ := ha.path_locks hh
      refine ⟨h, hl, Option.some.inj (hd.symm.trans hdir),
        .inr ⟨purpose, ha.request ▸ hq, fun _ => ?_, fun h => ?_⟩⟩
      · rw [(ha.content _ hcon).2]
        exact hm _ fun t b hs => (ha.looked _ hs).2 hdir
      · exact absurd rfl h
    | .broken i, .lock, _ =>
      rw [free] at hd
      cases hd
  | @removeFile _ n y named =>
    match n, hc with
    | .lock, ⟨h, hh, ho⟩ =>
      obtain ⟨hl, hdir⟩ := ha.path_locks hh
      exact ⟨h, hl, Option.some.inj (hd.symm.trans hdir), .inl (ha.owns h ho)⟩
    | .broken i, _ =>
      exact absurd hch (Changes.of_beside Name.noConfusion hd)

omit [DecidableEq P] in
lemma HasCause.ne_foreign {h : Handle} (hc : HasCause blake3 kind w w' p h) (hch : Changes w w' (.file h.file)) :
    decode blake3 (w.data h.file) ≠ .foreign := by
  obtain ⟨purpose, -, hm, ho⟩ := hc
  intro hf
  rw [hf] at hm ho
  rcases hch with hd | ⟨f, hf, hd⟩
  · have := hm hd
    cases purpose <;> exact this
  · cases hf
    have := ho hd
    cases purpose <;> exact this

variable {s s' : (processes blake3 kind owner).State}

lemma step_calls (step : (processes blake3 kind owner).Step s s') (hx : s.shared.dir .lock = some x)
    (hch : Changes s.shared s'.shared x) : ∃ p, (processes blake3 kind owner).Calls p s s' := by
  cases step with
  | start | finish => exact absurd hch (Changes.of_same rfl rfl hx)
  | crash crash =>
    cases crash
    exact absurd hch (Changes.of_same rfl rfl hx)
  | environment environment =>
    cases environment with
    | sweep | dirLock => exact absurd hch (Changes.of_beside Name.noConfusion hx)
  | call at_call exec => exact ⟨_, _, _, _, _, at_call, exec, rfl⟩

theorem lock_replaced_with_cause (hs : (processes blake3 kind owner).Reachable World.Initial .none s)
    (step : (processes blake3 kind owner).Step s s') {x : Node} (hx : s.shared.dir .lock = some x)
    (hch : Changes s.shared s'.shared x) :
    ∃ p h, (processes blake3 kind owner).Calls p s s' ∧ x = .file h.file ∧ s.shared.opened h = some p ∧
      s.shared.locker h.file = some h ∧ decode blake3 (s.shared.data h.file) ≠ .foreign ∧
      (s.shared.owns h = true ∨ HasCause blake3 kind s.shared s'.shared p h) ∧
      ∀ q held, Has held (s.control q) → q = p := by
  have hi := inv_processes blake3 kind owner hs
  obtain ⟨p, m, c, f, r, hp, hexec, hcontrol⟩ := step_calls step hx hch
  obtain ⟨k, ha, -, hc, -⟩ := Machine.Discipline.inv_running hi hp
  obtain ⟨h, hl, rfl, hcause⟩ := exec_cause ha hc hexec hx hch
  refine ⟨p, h, ⟨m, c, f, r, hp, hexec, hcontrol⟩, rfl, hl.1, hl.2, ?_, hcause, fun q held hq => ?_⟩
  · rcases hcause with ho | hcause
    · exact hi.1.owned h ho
    · exact hcause.ne_foreign hch
  · obtain ⟨hl', hd⟩ := locks_of_has hi hq
    rw [hx] at hd
    injection hd with hd
    injection hd with hd
    exact (hl'.unique hl hd.symm).2

def Elsewhere (p : P) (s s' : (processes blake3 kind owner).State) : Prop :=
  (processes blake3 kind owner).Step s s' ∧ s'.control p = s.control p

lemma ne_call {x : Prog Call Reply Phase} {c : Call} {f : Reply c → Prog Call Reply Phase} (r : Reply c)
    (hx : x = .call c f) : f r ≠ x := by
  induction x with
  | ret => cases hx
  | call c' f' ih =>
    cases hx
    exact fun he => ih r he rfl

lemma Elsewhere.unchanged {held : Held} (hi : (discipline blake3 kind owner).Inv s) (hp : Has held (s.control p))
    (step : Elsewhere p s s') : ¬ Changes s.shared s'.shared (.file held.lock.file) := by
  intro hch
  obtain ⟨hlocks, hdir⟩ := locks_of_has hi hp
  obtain ⟨q, m, c, f, r, hq, hexec, hcontrol⟩ := step_calls step.1 hdir hch
  obtain ⟨k, ha, -, hc, -⟩ := Machine.Discipline.inv_running hi hq
  obtain ⟨h, hl, hf, -⟩ := exec_cause ha hc hexec hdir hch
  obtain rfl : p = q := (hlocks.unique hl (Node.file.inj hf)).2
  have hstill := step.2
  rw [hcontrol, update_self, hq, Control.running.injEq] at hstill
  exact ne_call r rfl hstill.2

theorem held_lock_undisturbed {held : Held} (hs : (processes blake3 kind owner).Reachable World.Initial .none s)
    (hp : Has held (s.control p)) (run : Relation.ReflTransGen (Elsewhere p) s s') :
    (processes blake3 kind owner).Reachable World.Initial .none s' ∧ Has held (s'.control p) ∧
      s'.shared.dir .lock = some (.file held.lock.file) ∧
      s'.shared.data held.lock.file = s.shared.data held.lock.file := by
  induction run with
  | refl => exact ⟨hs, hp, (locks_of_has (inv_processes blake3 kind owner hs) hp).2, rfl⟩
  | tail _ step ih =>
    obtain ⟨hreach, hhas, -, hdata⟩ := ih
    have hsame := step.unchanged (inv_processes blake3 kind owner hreach) hhas
    rw [Changes, not_or, not_not] at hsame
    refine ⟨hreach.step step.1, step.2 ▸ hhas, hsame.1, ?_⟩
    by_contra hne
    exact hsame.2 ⟨_, rfl, fun he => hne (he.trans hdata)⟩

section OneRefused

def existsError : FsError := ⟨.ioError, ⟨.alreadyExists, none, ""⟩⟩

lemma refused_runs (owner : Text → Bool) {w : World Bool} (hd : w.dir .lock = some (.file 0))
    (hl : w.locker 0 = some ⟨0, 0⟩) (hn : w.nextHandle = 1) :
    ∃ w', (processes zeroHash .root owner).Runs false .none w
      (thenPhase (obtain zeroHash .root true .plain ['b']) Obtained.phase .none) .none w' ∧
      w'.asked false = some .plain := by
  have hother : (⟨0, 0⟩ : Handle) ≠ ⟨w.nextHandle, 0⟩ := by simp [hn]
  refine ⟨_, .call (Exec.request _) (.call (Exec.fails (e := existsError) rfl) (.call (Exec.openLock hd)
    (.call (Exec.refused hl hother) (.call (Exec.readUnlocked [] fun he => hother ?_)
    (.call (Exec.close (update_self ..)) .ret))))), ?_⟩
  · exact Option.some.inj (hl.symm.trans he)
  · rfl

theorem held_lock_undisturbed_firstHeld : ∃ s s' : (processes zeroHash .root List.isEmpty).State,
    Relation.ReflTransGen (Elsewhere true) s s' ∧ s.control false = .idle .none ∧ s'.control false = .dead ∧
      s'.shared.asked false = some .plain ∧ Has firstHeld (s'.control true) ∧
      s'.shared.dir .lock = some (.file 0) := by
  obtain ⟨s, hs, hp, hidle, hn⟩ := firstHeld_reachable List.isEmpty rfl
  obtain ⟨⟨-, hlocker⟩, hdir⟩ := locks_of_has (inv_processes _ _ _ hs) hp
  obtain ⟨w, hruns, hasked⟩ := refused_runs List.isEmpty hdir hlocker hn
  have hasks := Machine.Runs.from_start hidle (Starts.obtain true .plain ['b'] rfl) hruns
  have hdies := Machine.Step.of (processes zeroHash .root List.isEmpty) (p := false)
    (.crash (s := ⟨w, update s.control false (.idle .none)⟩) rfl)
  have run : Relation.ReflTransGen (Elsewhere true) s _ :=
    (hasks.tail hdies).lift id fun _ _ h => ⟨h.1, h.2 true Bool.false_ne_true.symm⟩
  obtain ⟨-, hhas, hdir, -⟩ := held_lock_undisturbed hs hp run
  exact ⟨s, _, run, hidle, rfl, hasked, hhas, hdir⟩

end OneRefused

section OneTakeOver

def emptyLock : World Bool :=
  { emptyWorld with
    dir := fun n => if n = .lock then some (.file 0) else none
    nextFile := 1 }

lemma emptyLock_initial : emptyLock.Initial where
  named := fun n f h => by
    simp only [emptyLock] at h ⊢
    split at h
    · cases h
      exact Nat.one_pos
    · cases h
  opened := fun _ => rfl
  locker := fun _ => rfl
  owns := fun _ => rfl

def firstClaim : Claimed := ⟨⟨1, 0⟩, .file 0, .empty⟩

lemma emptyLock_runs : ∃ w, (processes zeroHash .root fun _ => true).Runs true .none emptyLock
    (thenPhase (obtain zeroHash .root true .breakLock []) Obtained.phase .none) (.claimed firstClaim) w ∧
    w.dir .lock = some (.file 0) ∧ w.data 0 = [] ∧ w.opened ⟨1, 0⟩ = some true := by
  refine ⟨_, .call (Exec.request _) (.call (Exec.fails (e := existsError) rfl) (.call (Exec.openLock rfl)
    (.call (Exec.granted rfl (.inl rfl)) (.call (Exec.readLocked rfl) (.call (Exec.close rfl)
    (.call Exec.dirIsStrong (.call (Exec.openLock rfl)
      (.call (Exec.granted rfl (.inl rfl)) (.call (Exec.identity rfl)
    (.call (Exec.metadata rfl) (.call (Exec.readLocked rfl) .ret))))))))))), rfl, rfl, rfl⟩

def firstRecord : LockRecord := ⟨[], [], [], [], [], noWorkspace, 0, 0⟩

lemma firstRecord_encode : ∃ bytes, firstRecord.encode zeroHash = some (0x46 :: bytes) := ⟨_, rfl⟩

lemma emptyLock_overwritten : ∃ s s' : (processes zeroHash .root fun _ => true).State,
    (processes zeroHash .root fun _ => true).Reachable World.Initial .none s ∧
      (processes zeroHash .root fun _ => true).Step s s' ∧ s.shared.dir .lock = some (.file 0) ∧
      Changes s.shared s'.shared (.file 0) := by
  obtain ⟨w, hw, hdir, hdata, ho⟩ := emptyLock_runs
  obtain ⟨bytes, hb⟩ := firstRecord_encode
  have hclaimed := Machine.Reachable.run (.init emptyLock_initial) rfl (Starts.obtain true .breakLock [] rfl) hw
  have hstart := hclaimed.step (.start (p := true) rfl (Starts.overwrite firstClaim firstRecord))
  rw [Claimed.overwrite, writeLock, hb] at hstart
  refine ⟨_, _, hstart, .call (p := true) rfl (Exec.writeAt (n := 1) ho (Nat.succ_le_succ (Nat.zero_le _))),
    hdir, .inr ⟨0, rfl, ?_⟩⟩
  change overwritten (w.data 0) (0x46 :: bytes) 1 ≠ w.data 0
  rw [hdata]
  exact List.cons_ne_nil _ _

theorem lock_replaced_with_cause_emptyLock : ∃ s s' : (processes zeroHash .root fun _ => true).State,
    Changes s.shared s'.shared (.file 0) ∧ ∃ p h, h.file = 0 ∧ s.shared.locker 0 = some h ∧
      s.shared.opened h = some p ∧ (s.shared.owns h = true ∨ HasCause zeroHash .root s.shared s'.shared p h) := by
  obtain ⟨s, s', hs, step, hx, hch⟩ := emptyLock_overwritten
  obtain ⟨p, h, -, hf, ho, hl, -, hc, -⟩ := lock_replaced_with_cause hs step hx hch
  have hf : h.file = 0 := (Node.file.inj hf).symm
  exact ⟨s, s', hch, p, h, hf, hf ▸ hl, ho, hc⟩

end OneTakeOver

end Flux.Lock
