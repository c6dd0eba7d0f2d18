import Flux.Lock.Discipline

/-! Mutual exclusion: at most one process has the lock, and while it does the lock path is its own file. -/

namespace Flux.Lock

open Base

variable {blake3 : Bytes → Block 32} {kind : SiteKind} {P : Type} [DecidableEq P] {owner : Text → P}

def Has (held : Held) : Control Call Reply Phase → Prop
  | .idle phase => phase = .holding held
  | .running phase x => phase = .holding held ∨ x = .ret (.holding held)
  | .dead => False

variable {s : (processes blake3 kind owner).State} {p q : P} {held held' : Held}

lemma knows_of_has (h : (discipline blake3 kind owner).Inv s) (hp : Has held (s.control p)) :
    ∃ k, Agrees blake3 owner s.shared p k ∧ k.Holds held := by
  rcases h.2 p with hd | ⟨k, ha, hf⟩
  · rw [hd] at hp
    exact hp.elim
  · refine ⟨k, ha, ?_⟩
    cases hc : s.control p with
    | idle phase =>
      rw [hc] at hp hf
      cases hp
      exact hf
    | running phase x =>
      rw [hc] at hp hf
      rcases hp with rfl | rfl
      · exact hf.1
      · exact hf.2
    | dead =>
      rw [hc] at hp
      exact hp.elim

lemma locks_of_has (h : (discipline blake3 kind owner).Inv s) (hp : Has held (s.control p)) :
    s.shared.Locks p held.lock ∧ s.shared.dir .lock = some (.file held.lock.file) := by
  obtain ⟨k, ha, hk⟩ := knows_of_has h hp
  exact ha.path_locks hk.path

lemma has_unique (h : (discipline blake3 kind owner).Inv s) (hp : Has held (s.control p))
    (hq : Has held' (s.control q)) : held'.lock = held.lock ∧ q = p := by
  obtain ⟨hl, hd⟩ := locks_of_has h hp
  obtain ⟨hl', hd'⟩ := locks_of_has h hq
  rw [hd] at hd'
  injection hd' with hd'
  injection hd' with hd'
  exact hl'.unique hl hd'.symm

theorem lock_mutual_exclusion (hs : (processes blake3 kind owner).Reachable World.Initial .none s)
    (hp : Has held (s.control p)) :
    s.shared.dir .lock = some (.file held.lock.file) ∧ s.shared.opened held.lock = some p ∧
      s.shared.locker held.lock.file = some held.lock ∧ held.identity = .file held.lock.file ∧
      ∀ q held', Has held' (s.control q) → q = p ∧ held'.lock = held.lock := by
  have h := inv_processes blake3 kind owner hs
  obtain ⟨k, ha, hk⟩ := knows_of_has h hp
  obtain ⟨hl, hd⟩ := ha.path_locks hk.path
  exact ⟨hd, hl.1, hl.2, hk.identity, fun q held' hq => (has_unique h hp hq).symm⟩

section OneRun

def zeroHash : Bytes → Block 32 := fun _ => ⟨List.replicate 32 0, List.length_replicate⟩

def emptyWorld : World Bool where
  dir := fun _ => none
  data := fun _ => []
  opened := fun _ => none
  locker := fun _ => none
  present := fun _ => false
  nextFile := 0
  nextHandle := 0
  owns := fun _ => false
  asked := fun _ => none

lemma emptyWorld_initial : emptyWorld.Initial := ⟨nofun, fun _ => rfl, fun _ => rfl, fun _ => rfl⟩

def firstHeld : Held := ⟨⟨0, 0⟩, .file 0, none, none⟩

lemma emptyWorld_runs (owner : Text → Bool) : ∃ w, (processes zeroHash .root owner).Runs true .none emptyWorld
    (thenPhase (obtain zeroHash .root true .plain []) Obtained.phase .none) (.holding firstHeld) w ∧
    w.nextHandle = 1 := by
  refine ⟨_, .call (Exec.request _) (.call (Exec.createLock rfl) (.call (Exec.identity rfl)
    (.call (Exec.granted rfl (.inl rfl)) (.call (Exec.metadata rfl) (.call (Exec.readLocked rfl) .ret))))), rfl⟩

lemma firstHeld_reachable (owner : Text → Bool) (mine : owner [] = true) :
    ∃ s : (processes zeroHash .root owner).State,
      (processes zeroHash .root owner).Reachable World.Initial .none s ∧ Has firstHeld (s.control true) ∧
        s.control false = .idle .none ∧ s.shared.nextHandle = 1 := by
  obtain ⟨w, hw, hn⟩ := emptyWorld_runs owner
  refine ⟨_, Machine.Reachable.run (.init emptyWorld_initial) rfl (Starts.obtain true .plain [] mine) hw, ?_, ?_,
    hn⟩
  · simp only [Function.update_self, Has]
  · simp [Function.update]

theorem lock_mutual_exclusion_firstHeld : ∃ s : (processes zeroHash .root fun _ => true).State,
    Has firstHeld (s.control true) ∧ s.shared.dir .lock = some (.file 0) ∧
      ∀ q held, Has held (s.control q) → q = true := by
  obtain ⟨s, hs, hp, -⟩ := firstHeld_reachable (fun _ => true) rfl
  obtain ⟨hd, -, -, -, hu⟩ := lock_mutual_exclusion hs hp
  exact ⟨s, hp, hd, fun q held hq => (hu q held hq).1⟩

end OneRun

end Flux.Lock
