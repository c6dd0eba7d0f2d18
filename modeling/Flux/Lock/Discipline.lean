import Flux.Lock.Own
import Flux.Lock.Programs

namespace Flux.Lock

open Base Knowledge

variable {blake3 : Bytes → Block 32} {kind : SiteKind} {k : Know} {E : LockError → Know → Prop}

section Held

variable {held : Held} {r : LockRecord}

lemma wpE_writeLock {lock : Handle} (hl : lock ∈ k.locked)
    (hw : lock ∈ k.owns ∨ ∃ purpose d, k.request = some purpose ∧ (lock, d) ∈ k.content ∧ MayOverwrite purpose d)
    (he : ∀ e k', k'.locked = k.locked → k'.path = k.path → k.owns ⊆ k'.owns → E e k') :
    (rules blake3 kind).wpE (writeLock blake3 lock r)
      (fun _ k' => k'.locked = k.locked ∧ k'.path = k.path ∧ lock ∈ k'.owns) E k := by
  rw [writeLock]
  split
  · rename_i bytes hb
    have hlen := (LockRecord.encode_shape blake3 hb).1
    refine wpE_bind.2 (wpE_raw.2 ⟨⟨hl, ⟨r, hb⟩, hw⟩, fun r _ =>
      wpE_bind.2 (wpE_io.2 ⟨fun n hr => ?_, fun e hr => ?_⟩)⟩)
    · subst hr
      split
      · refine wpE_bind.2 (wpE_raw.2 ⟨⟨hl, Set.mem_insert _ _, hlen.le⟩, fun r _ =>
          wpE_io.2 ⟨fun _ _ => ?_, fun e _ => ?_⟩⟩)
        · exact ⟨rfl, rfl, Set.mem_insert _ _⟩
        · exact he _ _ rfl rfl (Set.subset_insert _ _)
      · exact he _ _ rfl rfl (Set.subset_insert _ _)
    · subst hr
      exact he _ _ rfl rfl subset_rfl
  · exact wpE_panic

lemma Know.Holds.of_eq {k' : Know} {held' : Held} (hh : k.Holds held) (hl : k'.locked = k.locked)
    (hp : k'.path = k.path) (ho : held.lock ∈ k'.owns) (hlock : held'.lock = held.lock)
    (hid : held'.identity = held.identity) : k'.Holds held' := by
  refine ⟨?_, ?_, ?_, ?_⟩
  · rw [hl, hlock]
    exact hh.locked
  · rw [hp, hlock]
    exact hh.path
  · rwa [hlock]
  · rw [hlock, hid, hh.identity]

lemma wpE_writeHeld (hh : k.Holds held) : (rules blake3 kind).wpE (writeLock blake3 held.lock r)
    (fun _ k' => k'.Holds held) (fun _ k' => k'.Holds held) k := by
  refine wpE_mono (wpE_writeLock hh.locked (.inl hh.owns) fun e k' hl hp ho => ?_) (fun _ k' h => ?_) fun _ _ h =>
    h
  · exact hh.of_eq hl hp (ho hh.owns) rfl rfl
  · exact hh.of_eq h.1 h.2.1 h.2.2 rfl rfl

lemma wpE_syncHeld (hh : k.Holds held) {held' : Held} (hlock : held'.lock = held.lock)
    (hid : held'.identity = held.identity) :
    (rules blake3 kind).wpE (do io (← raw (.syncAll held.lock)); return held')
      (fun h k' => k'.Holds h) (fun _ k' => k'.Holds held) k := by
  refine wpE_bind.2 (wpE_raw.2 ⟨trivial, fun r _ => wpE_bind.2 (wpE_io.2 ⟨fun _ _ => ?_, fun e _ => hh⟩)⟩)
  exact hh.of_eq rfl rfl hh.owns hlock hid

lemma wpE_writeRecord (hh : k.Holds held) : (rules blake3 kind).wpE (held.writeRecord blake3 r)
    (fun h k' => k'.Holds h) (fun _ k' => k'.Holds held) k := by
  rw [Held.writeRecord]
  split
  · exact wpE_panic
  · exact wpE_bind.2 (wpE_mono (wpE_writeHeld hh) (fun _ _ h => wpE_syncHeld h rfl rfl) fun _ _ h => h)

lemma wpE_rewriteRecord (hh : k.Holds held) : (rules blake3 kind).wpE (held.rewriteRecord blake3 r)
    (fun h k' => k'.Holds h) (fun _ k' => k'.Holds held) k := by
  rw [Held.rewriteRecord]
  split
  · exact wpE_panic
  · split
    · exact wpE_bind.2 (wpE_mono (wpE_writeHeld hh) (fun _ _ h => wpE_syncHeld h rfl rfl) fun _ _ h => h)
    · exact wpE_panic

lemma wpE_heartbeat (hh : k.Holds held) (now : UInt64) : (rules blake3 kind).wpE (held.heartbeat blake3 now)
    (fun h k' => k'.Holds h) (fun _ k' => k'.Holds held) k := by
  rw [Held.heartbeat]
  split
  · exact hh
  · exact wpE_bind.2 (wpE_mono (wpE_writeHeld hh) (fun _ _ h => h.of_eq rfl rfl h.owns rfl rfl) fun _ _ h => h)

lemma Know.Holds.of_le {k' : Know} (hh : k.Holds held) (hle : k.Le k') : k'.Holds held :=
  ⟨hle.locked hh.locked, hle.path hh.path, hle.owns ▸ hh.owns, hh.identity⟩

lemma wpE_stillOwned (he : ∀ e k', k.Le k' → E e k') : (rules blake3 kind).wpE (held.stillOwned blake3)
    (fun _ k' => k.Le k') E k := by
  rw [Held.stillOwned]
  split
  · exact Know.Le.refl k
  · refine wpE_bind.2 (wpE_mono (wpE_atPath fun e => he e k (.refl k)) (fun x k₁ ⟨hle, _⟩ => ?_) fun _ _ h => h)
    split
    · refine wpE_bind.2 (wpE_mono (wpE_decodeLock fun e => he e k₁ hle) (fun d k₂ ⟨hle₂, _⟩ => ?_) fun _ _ h => h)
      cases d <;> exact hle.trans hle₂
    · exact hle

lemma safe_removeHeld (hh : k.Holds held) {α : Type} (a : α) :
    Safe blake3 kind (do io (← raw (.removeFile .lock)); leave held.lock a) (fun _ _ => True) k :=
  Safe.callIo ⟨_, hh.path, hh.owns⟩ fun _ _ _ _ => safe_leave.2 trivial

lemma safe_release (hh : k.Holds held) : Safe blake3 kind (held.release blake3) (fun _ _ => True) k := by
  rw [Held.release, safe_closing]
  refine Safe.bind (wpE_stillOwned fun _ _ _ => trivial) fun b k₁ hle => ?_
  split
  · exact safe_removeHeld (hh.of_le hle) _
  · exact safe_leave.2 trivial

lemma safe_discard (hh : k.Holds held) : Safe blake3 kind held.discard (fun _ _ => True) k := by
  rw [Held.discard, safe_closing]
  split
  · exact wpE_panic
  · refine Safe.bind safe_atPath fun x k₁ ⟨hle, _⟩ => ?_
    split
    · exact safe_removeHeld (hh.of_le hle) _
    · exact safe_leave.2 trivial

lemma safe_overwrite {c : Claimed} (hc : k.Claims c) : Safe blake3 kind (c.overwrite blake3 r)
    (fun o k' => ∀ held, o = .held held → k'.Holds held) k := by
  obtain ⟨why, hw⟩ := hc.content
  rw [Claimed.overwrite, safe_closing]
  refine Safe.bind (wpE_writeLock hc.locked (.inr ⟨_, _, hc.request, hw, trivial⟩) fun _ _ _ _ _ => trivial)
    fun _ k₁ ⟨hl, hp, ho⟩ => Safe.callIo trivial fun r _ _ _ => ?_
  refine Safe.bind safe_atPath fun x k₂ ⟨hle, _⟩ => ?_
  split
  · intro held hh
    cases hh
    refine ⟨hle.locked ?_, hle.path ?_, hle.owns ▸ ho, hc.identity⟩
    · exact hl ▸ hc.locked
    · exact hp ▸ hc.path
  · exact safe_leave.2 nofun

end Held

section Phases

def Phase.Holds : Phase → Know → Prop
  | .none, _ => True
  | .holding held, k => k.Holds held
  | .claimed c, k => k.Claims c

variable {P : Type} {owner : Text → P} {w : World P} {p : P}

lemma wp_thenPhase {α : Type} {x : Act α} {ok : α → Phase} {failed : Phase}
    (hx : (rules blake3 kind).wpE x (fun a k' => (ok a).Holds k') (fun _ k' => failed.Holds k') k) :
    (rules blake3 kind).wp (thenPhase x ok failed) Phase.Holds k := by
  refine wp_bind.2 (wp_mono (fun r k' h => ?_) hx)
  cases r <;> exact h

lemma Know.Holds.after {held : Held} (ha : Agrees blake3 owner w p k) (hh : k.Holds held) {c : Call}
    (hc : k.allowed blake3 kind c) (r : Reply c) :
    (Phase.after (.holding held) c r).Holds (k.after blake3 c r) := by
  have hle {k' : Know} (hle : k.Le k') : Phase.Holds (.holding held) k' := hh.of_le hle
  cases c with
  | request | openLock | identity | readFile | syncAll | dirIsStrong | panic | setWorkspace =>
    cases r <;> exact ⟨hh.locked, hh.path, hh.owns, hh.identity⟩
  | createLock n =>
    cases r with
    | ok h => exact ⟨hh.locked, hh.path, Set.mem_insert_of_mem _ hh.owns, hh.identity⟩
    | error e => exact hh
  | metadata n =>
    cases n <;> cases r <;> first | exact hh | exact hle { Know.Le.refl k with path := Set.subset_union_left }
  | tryLock h =>
    match r with
    | .ok true => exact hle { Know.Le.refl k with locked := Set.subset_insert _ _ }
    | .ok false | .error e => exact hh
  | readAll h limit =>
    cases r with
    | ok bytes => exact hle { Know.Le.refl k with content := Set.subset_union_left }
    | error e => exact hh
  | writeAt h bytes =>
    cases r with
    | ok n => exact ⟨hh.locked, hh.path, Set.mem_insert_of_mem _ hh.owns, hh.identity⟩
    | error e => exact ⟨hh.locked, hh.path, hh.owns, hh.identity⟩
  | setLen h n => cases r <;> exact ⟨hh.locked, hh.path, hh.owns, hh.identity⟩
  | renameNoReplace a b =>
    cases r with
    | error e => cases a <;> cases b <;> exact hh
    | ok _ =>
      cases a with
      | lock =>
        cases b with
        | broken i =>
          -- the moved file would be the holder's own
          obtain ⟨-, h, hp, hn, -⟩ := hc
          obtain ⟨hl, hd⟩ := ha.path_locks hp
          obtain ⟨hl', hd'⟩ := ha.path_locks hh.path
          rw [hd] at hd'
          injection hd' with hd'
          injection hd' with hd'
          exact absurd ((hl.unique hl' hd').1 ▸ hh.owns) hn
        | lock | dirLock => exact hc.elim
      | dirLock => exact hc.elim
      | broken i => cases b <;> exact ⟨hh.locked, hh.path, hh.owns, hh.identity⟩
  | removeFile n =>
    cases r with
    | error e => cases n <;> exact hh
    | ok _ =>
      cases n with
      | lock => trivial
      | dirLock => exact hc.elim
      | broken i => exact ⟨hh.locked, hh.path, hh.owns, hh.identity⟩
  | close h =>
    change Phase.Holds (if h = held.lock then .none else .holding held) (k.forget h)
    split
    · trivial
    · rename_i hne
      exact Know.Holds.forget hh (Ne.symm hne)
  | workspacePresent t =>
    cases r with
    | ok b => exact hle { Know.Le.refl k with looked := Set.subset_union_left }
    | error e => exact hh

lemma starts_wp {phase phase' : Phase} {x : Prog Call Reply Phase} (hi : ∀ i, owner i = p → i ∈ k.mine)
    (hk : phase.Holds k) (hx : Starts blake3 kind owner p phase phase' x) :
    phase'.Holds k ∧ (rules blake3 kind).wp x Phase.Holds k := by
  cases hx with
  | obtain capability mode operationId mine =>
    refine ⟨trivial, wp_thenPhase ((safe_obtain (hi _ mine) capability mode).mono fun o k' h => ?_)⟩
    cases o <;> exact h
  | cleanup operationId now lease mine =>
    exact ⟨trivial, wp_thenPhase (safe_obtainCleanupLock (hi _ mine) now lease)⟩
  | createState c path there =>
    refine ⟨trivial, wp_thenPhase (wpE_raw.2 ⟨⟨_, hk.path⟩, fun r _ => ?_⟩)⟩
    cases r <;> exact ⟨hk.locked, hk.path, hk.identity, hk.request, hk.content⟩
  | overwrite c r =>
    refine ⟨trivial, wp_thenPhase ((safe_overwrite hk).mono fun o k' h => ?_)⟩
    cases o with
    | held held => exact h held rfl
    | restart => trivial
  | unclaim c => exact ⟨trivial, wp_thenPhase (wpE_leave.2 trivial)⟩
  | writeRecord held r => exact ⟨hk, wp_thenPhase (wpE_writeRecord hk)⟩
  | rewriteRecord held r => exact ⟨hk, wp_thenPhase (wpE_rewriteRecord hk)⟩
  | heartbeat held now => exact ⟨hk, wp_thenPhase (wpE_heartbeat hk now)⟩
  | stillOwned held =>
    have hle (e : LockError) (k' : Know) (h : k.Le k') : Phase.Holds (.holding held) k' := Know.Holds.of_le hk h
    exact ⟨hk, wp_thenPhase (wpE_mono (wpE_stillOwned hle) (fun _ k' h => Know.Holds.of_le hk h) fun _ _ h => h)⟩
  | setWorkspace held path there =>
    refine ⟨hk, wp_thenPhase (wpE_raw.2 ⟨⟨_, hk.path⟩, fun r _ => ?_⟩)⟩
    cases r <;> exact ⟨hk.locked, hk.path, hk.owns, hk.identity⟩
  | release held => exact ⟨hk, wp_thenPhase (safe_release hk)⟩
  | discard held => exact ⟨hk, wp_thenPhase (safe_discard hk)⟩
  | drop held => exact ⟨hk, wp_thenPhase (wpE_leave.2 trivial)⟩

end Phases

variable (blake3 kind) {P : Type} (owner : Text → P)

lemma initial_agrees (w : World P) (p : P) : Agrees blake3 owner w p
    ⟨∅, ∅, ∅, ∅, ∅, ∅, w.asked p, { i | owner i = p }⟩ where
  locked := nofun
  path := nofun
  aside := nofun
  mineAside := nofun
  content := nofun
  owns := nofun
  looked := nofun
  request := rfl
  mine := fun _ => Iff.rfl

lemma World.Initial.good {w : World P} (hw : w.Initial) : w.Good blake3 where
  opened := fun h p ho => by
    rw [hw.opened] at ho
    cases ho
  locker := fun f h hl => by
    rw [hw.locker] at hl
    cases hl
  named := hw.named
  numbered := fun h ho => by
    rw [hw.owns] at ho
    cases ho
  owned := fun h ho => by
    rw [hw.owns] at ho
    cases ho

variable [DecidableEq P]

def discipline : (processes blake3 kind owner).Discipline Know where
  rules := rules blake3 kind
  good := World.Good blake3
  agrees := Agrees blake3 owner
  holds := Phase.Holds
  exec_own := fun hg ha hc hx => ⟨good_exec hg ha hc hx, possible_exec hg ha hx, agrees_exec hg ha hc hx⟩
  exec_other := fun hg ha hc hx hq hl => hl.keeps (keeps_exec hg ha hc hx hq)
  label_holds := fun {_ _ m _ _ _} ha hm hc _ => by
    cases m with
    | none | claimed c => trivial
    | holding held => exact Know.Holds.after ha hm hc _
  starts_wp := fun ha hm hx => starts_wp (fun i hi => (ha.mine i).2 hi) hm hx
  crash_other := fun hg hx => by
    cases hx
    exact ⟨hg.crashed, fun q hq l hl => hl.keeps (keeps_crashed hq)⟩
  environment_all := fun hg hx => ⟨hg.environment hx, fun q l hl => hl.keeps (keeps_environment hx)⟩

theorem inv_processes {s : (processes blake3 kind owner).State}
    (hs : (processes blake3 kind owner).Reachable World.Initial .none s) :
    (discipline blake3 kind owner).Inv s := by
  refine Machine.Discipline.inv_reachable (fun w hw => ⟨hw.good blake3, fun p => ?_⟩) hs
  exact ⟨_, initial_agrees blake3 owner w p, trivial⟩

end Flux.Lock
