import Flux.Lock.Knowledge

/-! An allowed call of one process keeps what every other process knows. -/

namespace Flux.Lock

open Base Function

variable {P : Type} {blake3 : Bytes → Block 32} {kind : SiteKind} {owner : Text → P} {w w' : World P} {p q : P}
  {k : Know}

variable {h : Handle}

lemma World.Locks.file_ne {h' : Handle} (hl : w.Locks p h) (hl' : w.Locks q h') (hq : q ≠ p) :
    h'.file ≠ h.file := fun hf => hq (hl'.unique hl hf).2

lemma Agrees.path_locks (ha : Agrees blake3 owner w p k) (hh : h ∈ k.path) :
    w.Locks p h ∧ w.dir .lock = some (.file h.file) := ⟨ha.locked h (ha.path h hh).1, (ha.path h hh).2⟩

lemma Agrees.path_excludes (ha : Agrees blake3 owner w p k) {h' : Handle} (hh : h ∈ k.path) (hl : w.Locks q h')
    (hq : q ≠ p) : w.dir .lock ≠ some (.file h'.file) := by
  obtain ⟨hl₀, hd⟩ := ha.path_locks hh
  rw [hd]
  intro he
  injection he with he
  injection he with he
  exact hl₀.file_ne hl hq he.symm

lemma Keeps.trans {w'' : World P} (h : Keeps owner q w w') (h' : Keeps owner q w' w'') : Keeps owner q w w'' where
  locks := fun x hl => h'.locks x (h.locks x hl)
  path := fun x hl hd => h'.path x (h.locks x hl) (h.path x hl hd)
  aside := fun x hl i hi hd => h'.aside x (h.locks x hl) i hi (h.aside x hl i hi hd)
  data := fun x hl => (h'.data x (h.locks x hl)).trans (h.data x hl)
  owns := fun x ho => h'.owns x (h.owns x ho)
  present := fun x hl hd => by
    obtain ⟨hd', hp'⟩ := h'.present x (h.locks x hl) hd
    obtain ⟨hd, hp⟩ := h.present x hl hd'
    exact ⟨hd, hp'.trans hp⟩
  asked := h'.asked.trans h.asked

lemma Keeps.newHandle (hg : w.Good blake3) (f : ℕ) : Keeps owner q w (w.newHandle p f) :=
  { Keeps.refl owner q w with
    locks := fun h hl => by
      have hlt := (hg.opened h q hl.1).1
      have hne : h ≠ ⟨w.nextHandle, f⟩ := by
        rintro rfl
        exact lt_irrefl _ hlt
      exact ⟨by simpa only [World.newHandle, update_of_ne hne] using hl.1, hl.2⟩ }

lemma Keeps.write {f : ℕ} (hf : ∀ h, w.Locks q h → h.file ≠ f) (bytes : Bytes) :
    Keeps owner q w { w with data := update w.data f bytes } :=
  { Keeps.refl owner q w with data := fun h hl => update_of_ne (hf h hl) _ _ }

lemma Keeps.owned (h : Handle) : Keeps owner q w { w with owns := update w.owns h true } :=
  { Keeps.refl owner q w with
    owns := fun h' ho => by
      by_cases he : h' = h
      · rw [he]
        exact update_self ..
      · simpa only [update_of_ne he] using ho }

lemma Keeps.atLock {x : Option Node} (hold : ∀ h, w.Locks q h → w.dir .lock ≠ some (.file h.file))
    (hnew : ∀ h, w.Locks q h → x ≠ some (.file h.file)) :
    Keeps owner q w { w with dir := update w.dir .lock x } :=
  { Keeps.refl owner q w with
    path := fun h hl hd => absurd hd (hold h hl)
    aside := fun h _ _ _ hd => by simpa only [update_of_ne (Name.noConfusion : Name.broken _ ≠ .lock)] using hd
    present := fun h hl hd => absurd (by simpa only [update_self] using hd) (hnew h hl) }

lemma Keeps.besideLock {n : Name} {x : Option Node} (hn : n ≠ .lock)
    (hold : ∀ i, owner i = q → n = .broken i → ∀ h, w.Locks q h → w.dir n ≠ some (.file h.file)) :
    Keeps owner q w { w with dir := update w.dir n x } :=
  { Keeps.refl owner q w with
    path := fun h _ hd => by simpa only [update_of_ne hn.symm] using hd
    aside := fun h hl i hi hd => by
      have hne : Name.broken i ≠ n := by
        rintro rfl
        exact hold i hi rfl h hl hd
      simpa only [update_of_ne hne] using hd
    present := fun h _ hd => ⟨by simpa only [update_of_ne hn.symm] using hd, rfl⟩ }

lemma Keeps.unlock (hne : ∀ h', w.Locks q h' → h' ≠ h) : Keeps owner q w { w with
      opened := update w.opened h none
      locker := if w.locker h.file = some h then update w.locker h.file none else w.locker } :=
  { Keeps.refl owner q w with
    locks := fun h' hl => by
      refine ⟨by simpa only [update_of_ne (hne h' hl)] using hl.1, ?_⟩
      dsimp only
      split
      · rename_i hlk
        have hf : h'.file ≠ h.file := fun hf => hne h' hl (by
          rw [← hf, hl.2] at hlk
          exact Option.some.inj hlk)
        rw [update_of_ne hf]
        exact hl.2
      · exact hl.2 }

lemma Keeps.created (hg : w.Good blake3) (free : w.dir .lock = none) :
    Keeps owner q w { w.newHandle p w.nextFile with
      dir := update w.dir .lock (some (.file w.nextFile))
      data := update w.data w.nextFile []
      nextFile := w.nextFile + 1
      owns := update w.owns ⟨w.nextHandle, w.nextFile⟩ true } := by
  have hlt (h : Handle) (hl : w.Locks q h) : h.file < w.nextFile := (hg.opened h q hl.1).2
  have hnew : Keeps owner q w (w.newHandle p w.nextFile) := Keeps.newHandle hg _
  have hdir : Keeps owner q w { w with dir := update w.dir .lock (some (.file w.nextFile)) } :=
    Keeps.atLock (fun h _ hd => by simp [free] at hd) fun h hl he => by
      injection he with he
      injection he with he
      exact (hlt h hl).ne he.symm
  have hdata : Keeps owner q w { w with data := update w.data w.nextFile [] } :=
    Keeps.write (fun h hl => (hlt h hl).ne) _
  have howns : Keeps owner q w { w with owns := update w.owns ⟨w.nextHandle, w.nextFile⟩ true } := Keeps.owned _
  exact { hnew with
    path := hdir.path
    aside := hdir.aside
    present := hdir.present
    data := hdata.data
    owns := howns.owns }

lemma Keeps.granted (free : w.locker h.file = none ∨ w.locker h.file = some h) :
    Keeps owner q w { w with locker := update w.locker h.file (some h) } :=
  { Keeps.refl owner q w with
    locks := fun h' hl => by
      refine ⟨hl.1, ?_⟩
      by_cases hf : h'.file = h.file
      · rw [← hf, hl.2] at free
        rcases free with free | free
        · cases free
        · cases free
          exact update_self ..
      · simpa only [update_of_ne hf] using hl.2 }

variable [DecidableEq P]

lemma keeps_exec {c : Call} {r : Reply c} (hg : w.Good blake3) (ha : Agrees blake3 owner w p k)
    (hc : k.allowed blake3 kind c) (hx : Exec p c w r w') (hq : q ≠ p) : Keeps owner q w w' := by
  cases hx with
  | fails | metadata | identity | refused | readLocked | readUnlocked | readFile | syncAll | closeNone
  | dirIsStrong | workspacePresent => exact Keeps.refl owner q w
  | request purpose => exact { Keeps.refl owner q w with asked := update_of_ne hq _ _ }
  | createLock free =>
    cases hc
    exact Keeps.created hg free
  | openLock named => exact Keeps.newHandle hg _
  | granted mine free => exact Keeps.granted free
  | @writeAt _ h bytes n mine upTo =>
    exact (Keeps.write (fun h' hl => (ha.locked h hc.1).file_ne hl hq) _).trans (Keeps.owned h)
  | @writeFails _ h bytes n e mine upTo =>
    exact (Keeps.write (fun h' hl => (ha.locked h hc.1).file_ne hl hq) _).trans (Keeps.owned h)
  | @setLen _ h n mine => exact Keeps.write (fun h' hl => (ha.locked h hc.1).file_ne hl hq) _
  | @renameNoReplace _ a b x named free =>
    match a, b, hc with
    | .lock, .broken i, ⟨_, h, hh, _⟩ =>
      have hout : Keeps owner q w { w with dir := update w.dir .lock none } :=
        Keeps.atLock (fun h' hl => ha.path_excludes hh hl hq) fun _ _ => nofun
      refine hout.trans (Keeps.besideLock Name.noConfusion fun j _ hj h' _ hd => ?_)
      simp [free] at hd
    | .broken i, .lock, ⟨hi, h, hh⟩ =>
      have hl₀ := ha.locked _ (ha.aside _ hh).1
      have hout : Keeps owner q w { w with dir := update w.dir (.broken i) none } :=
        Keeps.besideLock Name.noConfusion fun j hj hij h' hl hd => by
          cases hij
          exact hq (hj.symm.trans ((ha.mine i).1 hi))
      refine hout.trans (Keeps.atLock (fun h' hl hd => ?_) fun h' hl he => ?_)
      · simp [free] at hd
      · rw [(ha.aside _ hh).2] at named
        cases named
        injection he with he
        injection he with he
        exact hl₀.file_ne (q := q) hl hq he.symm
  | @removeFile _ n x named =>
    match n, hc with
    | .lock, ⟨h, hh, _⟩ =>
      exact Keeps.atLock (fun h' hl => ha.path_excludes hh hl hq) fun _ _ => nofun
    | .broken i, hi =>
      refine Keeps.besideLock Name.noConfusion fun j hj hij => ?_
      cases hij
      exact absurd (hj.symm.trans ((ha.mine i).1 hi)) hq
  | close mine =>
    refine Keeps.unlock fun h' hl => ?_
    rintro rfl
    exact hq (Option.some.inj (hl.1.symm.trans mine))
  | setWorkspace =>
    obtain ⟨h, hh⟩ := hc
    exact { Keeps.refl owner q w with
      present := fun h' hl hd => absurd hd (ha.path_excludes hh hl hq) }

lemma keeps_crashed (hq : q ≠ p) : Keeps owner q w (w.crashed p) :=
  { Keeps.refl owner q w with
    locks := fun h hl => by
      have hne : ¬ w.opened h = some p := fun ho => hq (Option.some.inj (hl.1.symm.trans ho))
      exact ⟨(if_neg hne).trans hl.1, by simp only [World.crashed, hl.2, if_neg hne]⟩ }

omit [DecidableEq P] in
lemma keeps_environment (hx : Environment w w') : Keeps owner q w w' := by
  cases hx with
  | sweep named free =>
    refine Keeps.besideLock Name.noConfusion fun i _ hi h hl hd => ?_
    cases hi
    rw [named] at hd
    cases hd
    rw [hl.2] at free
    cases free
  | dirLock x hx => exact Keeps.besideLock Name.noConfusion fun i _ hi => by cases hi

end Flux.Lock
