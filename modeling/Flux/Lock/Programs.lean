import Flux.Lock.Knowledge

namespace Flux.Lock

open Base Knowledge

variable {verdict : (Text → Bool) → LockRecord → Prop} {identity : Node} {h : Handle}

namespace Know

structure Same (k k' : Know) : Prop where
  request : k'.request = k.request
  mine : k'.mine = k.mine

structure Le (k k' : Know) : Prop extends Same k k' where
  locked : k.locked ⊆ k'.locked
  path : k.path ⊆ k'.path
  aside : k.aside ⊆ k'.aside
  content : k.content ⊆ k'.content
  owns : k'.owns = k.owns
  looked : k.looked ⊆ k'.looked

variable {k k' k'' : Know}

lemma Same.refl (k : Know) : k.Same k := ⟨rfl, rfl⟩

lemma Same.trans (h : k.Same k') (h' : k'.Same k'') : k.Same k'' :=
  ⟨h'.request.trans h.request, h'.mine.trans h.mine⟩

lemma Same.forget (h : k.Same k') (x : Handle) : k.Same (k'.forget x) := ⟨h.request, h.mine⟩

lemma Le.refl (k : Know) : k.Le k := ⟨.refl k, subset_rfl, subset_rfl, subset_rfl, subset_rfl, rfl, subset_rfl⟩

lemma Le.trans (h : k.Le k') (h' : k'.Le k'') : k.Le k'' where
  toSame := h.toSame.trans h'.toSame
  locked := h.locked.trans h'.locked
  path := h.path.trans h'.path
  aside := h.aside.trans h'.aside
  content := h.content.trans h'.content
  owns := h'.owns.trans h.owns
  looked := h.looked.trans h'.looked

lemma Saw.of_le (h : k.Le k') {x : Handle} {present : Text → Bool} (hs : k'.Saw x present) : k.Saw x present :=
  fun t b hx => hs t b (h.looked hx)

structure Holds (k : Know) (held : Held) : Prop where
  locked : held.lock ∈ k.locked
  path : held.lock ∈ k.path
  owns : held.lock ∈ k.owns
  identity : held.identity = .file held.lock.file

structure Claims (k : Know) (c : Claimed) : Prop where
  locked : c.lock ∈ k.locked
  path : c.lock ∈ k.path
  identity : c.identity = .file c.lock.file
  request : k.request = some .breakLock
  content : ∃ why, (c.lock, .uncertain why) ∈ k.content

structure Left (k : Know) (verdict : (Text → Bool) → LockRecord → Prop) (lock : Handle) (identity : Node)
    (r : LockRecord) : Prop where
  locked : lock ∈ k.locked
  opened : lock ∉ k.owns
  identity : identity = .file lock.file
  content : (lock, .record r) ∈ k.content
  saw : ∀ present, k.Saw lock present → verdict present r

lemma Left.of_le (h : k.Le k') {lock : Handle} {r : LockRecord} (hl : k.Left verdict lock identity r) :
    k'.Left verdict lock identity r :=
  ⟨h.locked hl.locked, h.owns ▸ hl.opened, hl.identity, h.content hl.content, fun present hs =>
    hl.saw present (hs.of_le h)⟩

end Know

variable {blake3 : Bytes → Block 32} {kind : SiteKind} {α : Type} {k : Know}

variable {x : Act α}

section Rules

variable {Q : α → Know → Prop} {E : LockError → Know → Prop}

lemma wpE_raw {c : Call} {Q : Reply c → Know → Prop} : (rules blake3 kind).wpE (raw c) Q E k ↔
    k.allowed blake3 kind c ∧ ∀ r, k.possible c r → Q r (k.after blake3 c r) := by
  rw [raw, wpE_lift]
  rfl

lemma wpE_io {r : Except FsError α} : (rules blake3 kind).wpE (io r) Q E k ↔
    (∀ a, r = .ok a → Q a k) ∧ ∀ e, r = .error e → E (.io e) k := by
  cases r with
  | ok a => simp [io]
  | error e => simp [io]

lemma wpE_panic : (rules blake3 kind).wpE panic Q E k := by
  rw [panic, wpE_bind, wpE_raw]
  exact ⟨trivial, nofun⟩

lemma wpE_leave {a : α} : (rules blake3 kind).wpE (leave h a) Q E k ↔ Q a (k.forget h) := by
  rw [leave, wpE_bind, wpE_raw]
  exact ⟨fun hq => hq.2 () trivial, fun hq => ⟨trivial, fun _ _ => hq⟩⟩

lemma wpE_closing : (rules blake3 kind).wpE (closing h x) Q E k ↔
    (rules blake3 kind).wpE x Q (fun e k' => E e (k'.forget h)) k := by
  rw [closing, wpE_tryCatch]
  have he (e : LockError) (k' : Know) :
      (rules blake3 kind).wpE (raw (.close h) >>= fun _ => throw e : Act α) Q E k' ↔ E e (k'.forget h) := by
    rw [wpE_bind, wpE_raw]
    exact ⟨fun hq => hq.2 () trivial, fun hq => ⟨trivial, fun _ _ => hq⟩⟩
  simp only [he]

end Rules

def Safe (blake3 : Bytes → Block 32) (kind : SiteKind) (x : Act α) (Q : α → Know → Prop) (k : Know) : Prop :=
  (rules blake3 kind).wpE x Q (fun _ _ => True) k

section Safe

variable {β : Type} {Q : α → Know → Prop}

@[simp] lemma safe_throw {e : LockError} : Safe blake3 kind (throw e) Q k := wpE_throw.2 trivial

@[simp] lemma safe_io {r : Except FsError α} : Safe blake3 kind (io r) Q k ↔ ∀ a, r = .ok a → Q a k := by
  rw [Safe, wpE_io]
  exact and_iff_left fun _ _ => trivial

@[simp] lemma safe_leave {a : α} : Safe blake3 kind (leave h a) Q k ↔ Q a (k.forget h) := wpE_leave

@[simp] lemma safe_closing : Safe blake3 kind (closing h x) Q k ↔ Safe blake3 kind x Q k := wpE_closing

namespace Safe

lemma mono {Q' : α → Know → Prop} (hx : Safe blake3 kind x Q k) (hq : ∀ a k', Q a k' → Q' a k') :
    Safe blake3 kind x Q' k := wpE_mono hx hq fun _ _ h => h

lemma bind {f : α → Act β} {Q' : β → Know → Prop} (hx : Safe blake3 kind x Q k)
    (hf : ∀ a k', Q a k' → Safe blake3 kind (f a) Q' k') : Safe blake3 kind (x >>= f) Q' k :=
  wpE_bind.2 (hx.mono hf)

lemma call {c : Call} {f : Reply c → Act α} (hc : k.allowed blake3 kind c)
    (hf : ∀ r, k.possible c r → Safe blake3 kind (f r) Q (k.after blake3 c r)) :
    Safe blake3 kind (raw c >>= f) Q k := wpE_bind.2 (wpE_raw.2 ⟨hc, hf⟩)

lemma callIo {c : Call} {g : Reply c → Except FsError α} {f : α → Act β} {Q' : β → Know → Prop}
    (hc : k.allowed blake3 kind c) (hf : ∀ r a, k.possible c r → g r = .ok a →
      Safe blake3 kind (f a) Q' (k.after blake3 c r)) :
    Safe blake3 kind (raw c >>= fun r => io (g r) >>= f) Q' k :=
  call hc fun r hr => wpE_bind.2 (safe_io.2 fun a ha => hf r a hr ha)

end Safe

end Safe

section Reads

variable {E : LockError → Know → Prop}

lemma wpE_atPath (he : ∀ e, E e k) : (rules blake3 kind).wpE (atPath .lock) (fun x k' => k.Le k' ∧
    ∀ h ∈ k.locked, x = some (.file h.file) → h ∈ k'.path) E k := by
  refine wpE_bind.2 (wpE_raw.2 ⟨trivial, fun r _ => ?_⟩)
  cases r with
  | ok x =>
    refine ⟨{ Know.Le.refl k with path := Set.subset_union_left }, fun h hh hx => .inr ⟨hh, ?_⟩⟩
    exact Option.some.inj hx
  | error e =>
    dsimp only
    split
    · exact ⟨.refl k, fun _ _ hx => by cases hx⟩
    · exact he _

lemma safe_atPath : Safe blake3 kind (atPath .lock) (fun x k' => k.Le k' ∧
    ∀ h ∈ k.locked, x = some (.file h.file) → h ∈ k'.path) k := wpE_atPath fun _ => trivial

lemma safe_atPath_beside {n : Name} (hn : n ≠ .lock) : Safe blake3 kind (atPath n) (fun _ k' => k' = k) k := by
  have hk (r : Reply (.metadata n)) : k.after blake3 (.metadata n) r = k := by
    cases n with
    | lock => exact absurd rfl hn
    | dirLock | broken => rfl
  refine Safe.call trivial fun r _ => ?_
  rw [hk]
  cases r with
  | ok x => rfl
  | error e =>
    dsimp only
    split <;> trivial

lemma wpE_decodeLock {lock : Handle} (he : ∀ e, E e k) : (rules blake3 kind).wpE (decodeLock blake3 lock)
    (fun d k' => k.Le k' ∧ (lock ∈ k.locked → (lock, d) ∈ k'.content)) E k := by
  refine wpE_bind.2 (wpE_raw.2 ⟨trivial, fun r _ => wpE_bind.2 (wpE_io.2 ⟨fun bytes hr => ?_, fun e hr => ?_⟩)⟩)
  · subst hr
    exact ⟨{ Know.Le.refl k with content := Set.subset_union_left }, fun hl => .inr ⟨rfl, hl, rfl⟩⟩
  · subst hr
    exact he _

lemma safe_decodeLock {lock : Handle} : Safe blake3 kind (decodeLock blake3 lock)
    (fun d k' => k.Le k' ∧ (lock ∈ k.locked → (lock, d) ∈ k'.content)) k := wpE_decodeLock fun _ => trivial

lemma safe_stillEmptyAtPath {lock : Handle} (hi : identity = .file lock.file) :
    Safe blake3 kind (stillEmptyAtPath lock identity)
      (fun b k' => k.Le k' ∧ (b = true → lock ∈ k.locked → lock ∈ k'.path)) k := by
  refine Safe.bind safe_atPath fun x k₁ ⟨hle, hp⟩ => ?_
  split
  · rename_i hx
    refine Safe.callIo trivial fun r bytes _ hr => ?_
    subst hr
    refine ⟨hle.trans { Know.Le.refl k₁ with content := Set.subset_union_left }, fun _ hl => ?_⟩
    exact hp lock hl (hx.trans (congrArg some hi))
  · exact ⟨hle, fun hb => by cases hb⟩

end Reads

section Acquire

variable {Q : α → Know → Prop} {lock : Handle} {identity : Node}

lemma safe_tryLock {f : Bool → Act α}
    (hf : ∀ b k', k.Le k' → (b = true → lock ∈ k'.locked) → Safe blake3 kind (f b) Q k') :
    Safe blake3 kind (do f (← io (← raw (.tryLock lock)))) Q k := by
  refine Safe.callIo trivial fun r b _ hr => ?_
  subst hr
  cases b with
  | true => exact hf true _ { Know.Le.refl k with locked := Set.subset_insert _ _ } fun _ => Set.mem_insert _ _
  | false => exact hf false _ (.refl k) nofun

lemma safe_identity {f : Node → Act α} (hf : Safe blake3 kind (f (.file lock.file)) Q k) :
    Safe blake3 kind (do f (← io (← raw (.identity lock)))) Q k := by
  refine Safe.callIo trivial fun r x hr hx => ?_
  subst hx
  cases hr
  exact hf

lemma safe_ownlockWait (hi : identity = .file lock.file) (n : ℕ) :
    Safe blake3 kind (ownlockWait lock identity n) (fun b k' => k.Le k' ∧ (b = true → lock ∈ k'.locked)) k := by
  induction n generalizing k with
  | zero =>
    refine Safe.call trivial fun r _ => safe_io.2 fun b hr => ?_
    subst hr
    cases b with
    | true => exact ⟨{ Know.Le.refl k with locked := Set.subset_insert _ _ }, fun _ => Set.mem_insert _ _⟩
    | false => exact ⟨.refl k, nofun⟩
  | succ n ih =>
    refine safe_tryLock fun b k₁ hle hl => ?_
    split
    · rename_i hb
      exact ⟨hle, fun _ => hl hb⟩
    · refine Safe.bind (safe_stillEmptyAtPath hi) fun b k₂ ⟨hle₂, _⟩ => ?_
      split
      · exact ih.mono fun b k₃ ⟨hle₃, hl⟩ => ⟨(hle.trans hle₂).trans hle₃, hl⟩
      · exact ⟨hle.trans hle₂, nofun⟩

lemma safe_ownLock (ho : lock ∈ k.owns) : Safe blake3 kind (ownLock lock) (fun o k' => k.Same k' ∧
    ∀ held, o = .ok held → held.lock = lock ∧ k'.Holds held) k := by
  rw [ownLock, safe_closing]
  refine safe_identity (Safe.bind (safe_ownlockWait rfl _) fun b k₁ ⟨hle, hl⟩ => ?_)
  split
  · rename_i hb
    refine Safe.bind (safe_stillEmptyAtPath rfl) fun b k₂ ⟨hle₂, hp⟩ => ?_
    split
    · rename_i hb₂
      refine ⟨(hle.trans hle₂).toSame, fun held hh => ?_⟩
      cases hh
      exact ⟨rfl, hle₂.locked (hl hb), hp hb₂ (hl hb), (hle.trans hle₂).owns ▸ ho, rfl⟩
    · rw [safe_leave]
      exact ⟨(hle.trans hle₂).toSame.forget _, nofun⟩
  · rw [safe_leave]
    exact ⟨hle.toSame.forget _, nofun⟩

lemma safe_dirLockPresent : Safe blake3 kind (dirLockPresent kind) (fun _ k' => k' = k) k := by
  rw [dirLockPresent]
  split
  · rfl
  · exact Safe.bind (safe_atPath_beside Name.noConfusion) fun _ _ h => h

lemma safe_backOff (ho : lock ∈ k.owns) : Safe blake3 kind (backOff lock) (fun _ _ => True) k := by
  refine safe_identity (safe_tryLock fun b k₁ hle hl => ?_)
  split
  · rename_i hb
    refine Safe.bind (safe_stillEmptyAtPath rfl) fun b k₂ ⟨hle₂, hp⟩ => ?_
    split
    · rename_i hb₂
      exact Safe.call ⟨lock, hp hb₂ (hl hb), (hle.trans hle₂).owns ▸ ho⟩ fun r _ => safe_io.2 fun _ _ => trivial
    · trivial
  · trivial

lemma safe_acquire : Safe blake3 kind (acquire kind) (fun a k' => k.Same k' ∧
    ∀ held, a = .acquired held → k'.Holds held) k := by
  refine Safe.call rfl fun r _ => ?_
  cases r with
  | error e =>
    dsimp only
    split
    · exact ⟨.refl k, nofun⟩
    · trivial
  | ok lock =>
    have ho : lock ∈ (k.after blake3 (.createLock .lock) (.ok lock)).owns := Set.mem_insert _ _
    refine Safe.bind (safe_closing.2 safe_dirLockPresent) fun b k₁ hk => ?_
    subst hk
    split
    · refine Safe.bind (safe_closing.2 (safe_backOff ho)) fun _ k₂ _ => ?_
      exact Safe.bind (Q := fun _ _ => True) (safe_leave.2 trivial) fun _ _ _ => safe_throw
    · refine Safe.bind (safe_ownLock ho) fun o k₂ ⟨hs, hh⟩ => ?_
      replace hs : k.Same k₂ := ⟨hs.request, hs.mine⟩
      cases o with
      | ok held =>
        refine ⟨hs, fun held' he => ?_⟩
        cases he
        exact (hh held rfl).2
      | error last => exact ⟨hs, nofun⟩

end Acquire

section Classify

variable {lock : Handle} {r : LockRecord}

lemma safe_workspace : Safe blake3 kind (workspace kind r) (fun v k' => k.Le k' ∧ ∀ h ∈ k.locked, ∀ present,
    k'.Saw h present → (v = .trusted → trusted kind present r) ∧ (v = .missing → orphaned kind present r)) k := by
  rw [workspace]
  split
  · exact ⟨.refl k, fun _ _ _ _ => ⟨nofun, nofun⟩⟩
  · rename_i hid
    rw [Bool.not_eq_false] at hid
    split
    · rename_i hn
      exact ⟨.refl k, fun _ _ _ _ => ⟨fun _ => ⟨hid, .inl hn⟩, nofun⟩⟩
    · split
      · rename_i hp
        refine Safe.callIo trivial fun r' there _ hr => ?_
        subst hr
        have hle : k.Le (k.after blake3 (.workspacePresent r.workspacePath) (.ok there)) :=
          { Know.Le.refl k with looked := Set.subset_union_left }
        have hsaw (h : Handle) (hh : h ∈ k.locked) (present : Text → Bool)
            (hs : (k.after blake3 (.workspacePresent r.workspacePath) (.ok there)).Saw h present) :
            present r.workspacePath = there := hs _ _ (.inr ⟨hh, rfl⟩)
        cases there with
        | true => exact ⟨hle, fun h hh present hs => ⟨fun _ => ⟨hid, .inr ⟨hp, hsaw h hh present hs⟩⟩, nofun⟩⟩
        | false => exact ⟨hle, fun h hh present hs => ⟨nofun, fun _ => ⟨hid, hp, hsaw h hh present hs⟩⟩⟩
      · exact ⟨.refl k, fun _ _ _ _ => ⟨nofun, nofun⟩⟩

def Know.Classifies (k : Know) (kind : SiteKind) : Classified → Prop
  | .dead lock identity r => k.Left (trusted kind) lock identity r
  | .orphan lock identity r => k.Left (orphaned kind) lock identity r
  | _ => True

lemma safe_classifyOwner (hl : lock ∈ k.locked) (ho : lock ∉ k.owns) (hr : (lock, .record r) ∈ k.content) :
    Safe blake3 kind (classifyOwner kind lock r) (fun c k' => k.Same k' ∧ k'.Classifies kind c) k := by
  refine Safe.bind safe_workspace fun v k₁ ⟨hle, hv⟩ => ?_
  cases v with
  | trusted =>
    refine safe_identity ⟨hle.toSame, ⟨hle.locked hl, hle.owns ▸ ho, rfl, hle.content hr, fun present hs => ?_⟩⟩
    exact (hv lock hl present hs).1 rfl
  | missing =>
    refine safe_identity ⟨hle.toSame, ⟨hle.locked hl, hle.owns ▸ ho, rfl, hle.content hr, fun present hs => ?_⟩⟩
    exact (hv lock hl present hs).2 rfl
  | untrusted => exact safe_leave.2 ⟨hle.toSame.forget _, trivial⟩

lemma safe_classifyOpened (ho : lock ∉ k.owns) : Safe blake3 kind (classifyOpened blake3 kind lock)
    (fun c k' => k.Same k' ∧ k'.Classifies kind c) k := by
  rw [classifyOpened, safe_closing]
  refine safe_tryLock fun got k₁ hle hl => Safe.bind safe_decodeLock fun d k₂ ⟨hle₂, hd⟩ => ?_
  have hs := (hle.trans hle₂).toSame
  cases d with
  | foreign => exact safe_leave.2 ⟨hs.forget _, trivial⟩
  | record r =>
    dsimp only
    split
    · rename_i hg
      exact (safe_classifyOwner (hle₂.locked (hl hg)) ((hle.trans hle₂).owns ▸ ho) (hd (hl hg))).mono
        fun c k₃ h => ⟨hs.trans h.1, h.2⟩
    · exact safe_leave.2 ⟨hs.forget _, trivial⟩
  | uncertain why =>
    dsimp only
    split <;> exact safe_leave.2 ⟨hs.forget _, trivial⟩

lemma safe_classify : Safe blake3 kind (classify blake3 kind)
    (fun c k' => k.Same k' ∧ k'.Classifies kind c) k := by
  refine Safe.call trivial fun r hr => ?_
  cases r with
  | ok lock => exact safe_classifyOpened hr
  | error e =>
    dsimp only
    split
    · exact ⟨.refl k, trivial⟩
    · split
      · exact ⟨.refl k, trivial⟩
      · trivial

end Classify

section Recover

variable {old : Handle} {identity : Node} {seen : LockRecord} {operationId : Text}

lemma safe_stillRecord : Safe blake3 kind (stillRecord blake3 old seen) (fun _ k' => k.Le k') k :=
  Safe.bind safe_decodeLock fun _ _ h => h.1

lemma safe_sameOwner (hl : old ∈ k.locked) (hi : identity = .file old.file) :
    Safe blake3 kind (sameOwner blake3 .lock old identity seen)
    (fun b k' => k.Le k' ∧ (b = true → old ∈ k'.path)) k := by
  refine Safe.bind safe_atPath fun x k₁ ⟨hle, hp⟩ => ?_
  split
  · rename_i hx
    exact safe_stillRecord.mono fun b k₂ hle₂ =>
      ⟨hle.trans hle₂, fun _ => hle₂.path (hp old hl (hx.trans (congrArg some hi)))⟩
  · exact ⟨hle, nofun⟩

lemma safe_sameOwner_aside : Safe blake3 kind (sameOwner blake3 (.broken operationId) old identity seen)
    (fun _ k' => k.Le k') k := by
  refine Safe.bind (safe_atPath_beside Name.noConfusion) fun x k₁ hk => ?_
  subst hk
  split
  · exact safe_stillRecord
  · exact .refl k₁

lemma Know.same_removeFile (blake3 : Bytes → Block 32) (k : Know) (n : Name) (r : Reply (.removeFile n)) :
    k.Same (k.after blake3 (.removeFile n) r) := by
  cases n <;> cases r <;> exact ⟨rfl, rfl⟩

lemma safe_dropMoved (hi : operationId ∈ k.mine) (last : Last) : Safe blake3 kind (dropMoved old operationId last)
    (fun o k' => k.Same k' ∧ ∀ held leftover, o = .held held leftover → k'.Holds held) k := by
  refine Safe.bind (Q := fun _ k' => k' = k.forget old) (safe_leave.2 rfl) fun _ k₁ hk => ?_
  subst hk
  refine Safe.call hi fun r _ => ⟨?_, nofun⟩
  exact ((Know.Same.refl k).forget old).trans (Know.same_removeFile blake3 _ _ r)

lemma Know.Holds.removeBroken {held : Held} (hh : k.Holds held) (r : Reply (.removeFile (.broken operationId))) :
    (k.after blake3 (.removeFile (.broken operationId)) r).Holds held := by
  cases r <;> exact ⟨hh.locked, hh.path, hh.owns, hh.identity⟩

lemma Know.Holds.forget {held : Held} (hh : k.Holds held) (hne : held.lock ≠ h) :
    (k.forget h).Holds held := ⟨⟨hh.locked, hne⟩, ⟨hh.path, hne⟩, hh.owns, hh.identity⟩

lemma safe_recoverCreate (hl : old ∈ k.locked) (hi : operationId ∈ k.mine) :
    Safe blake3 kind (recoverCreate old operationId)
      (fun o k' => k.Same k' ∧ ∀ held leftover, o = .held held leftover → k'.Holds held) k := by
  refine Safe.call rfl fun r hr => ?_
  cases r with
  | error e =>
    dsimp only
    split
    · exact safe_dropMoved hi _
    · trivial
  | ok new =>
    have hne : new ≠ old := by
      rintro rfl
      exact hr hl
    refine Safe.bind (safe_ownLock (Set.mem_insert _ _)) fun o k₁ ⟨hs, hh⟩ => ?_
    replace hs : k.Same k₁ := ⟨hs.request, hs.mine⟩
    have hi₁ : operationId ∈ k₁.mine := hs.mine ▸ hi
    cases o with
    | error last => exact (safe_dropMoved hi₁ last).mono fun o k₂ h => ⟨hs.trans h.1, h.2⟩
    | ok held =>
      obtain ⟨he, hh⟩ := hh held rfl
      refine Safe.bind (Q := fun _ k' => k' = k₁.forget old) (safe_leave.2 rfl) fun _ k₂ hk => ?_
      subst hk
      have hh := hh.forget (he.trans_ne hne)
      refine Safe.call hi₁ fun r _ => ?_
      have hs₂ := (hs.forget old).trans (Know.same_removeFile blake3 (k₁.forget old) _ r)
      cases r with
      | ok _ | error _ =>
        refine ⟨hs₂, fun held' leftover ho => ?_⟩
        cases ho
        exact hh.removeBroken _

lemma safe_recoverMoved (hl : old ∈ k.locked) (ha : (operationId, old) ∈ k.aside) (hi : operationId ∈ k.mine) :
    Safe blake3 kind (recoverMoved blake3 old identity seen operationId)
      (fun o k' => k.Same k' ∧ ∀ held leftover, o = .held held leftover → k'.Holds held) k := by
  refine Safe.bind safe_sameOwner_aside fun b k₁ hle => ?_
  have hi₁ : operationId ∈ k₁.mine := hle.mine ▸ hi
  split
  · exact (safe_recoverCreate (hle.locked hl) hi₁).mono fun o k₂ h => ⟨hle.toSame.trans h.1, h.2⟩
  · refine Safe.call ⟨hi₁, old, hle.aside ha⟩ fun r _ => safe_leave.2 ⟨?_, nofun⟩
    cases r <;> exact ⟨hle.request, hle.mine⟩

lemma safe_recover {purpose : Purpose} (hl : k.Left verdict old identity seen)
    (hm : ∀ present, verdict present seen → MayMove kind present purpose (.record seen))
    (hq : k.request = some purpose) (hi : operationId ∈ k.mine) :
    Safe blake3 kind (recover blake3 old identity seen operationId)
      (fun o k' => k.Same k' ∧ ∀ held leftover, o = .held held leftover → k'.Holds held) k := by
  rw [recover, safe_closing]
  refine Safe.bind (safe_sameOwner hl.locked hl.identity) fun b k₁ ⟨hle, hp⟩ => ?_
  have hl₁ := hl.of_le hle
  have hi₁ : operationId ∈ k₁.mine := hle.mine ▸ hi
  split
  · rename_i hb
    refine Safe.call ⟨hi₁, old, hp hb, hl₁.opened, purpose, _, hle.request.trans hq, hl₁.content, fun present hs =>
      hm present (hl₁.saw present hs)⟩ fun r _ => ?_
    cases r with
    | error e =>
      dsimp only
      split
      · exact safe_leave.2 ⟨hle.toSame.forget _, nofun⟩
      · trivial
    | ok _ =>
      have ha : (operationId, old) ∈ (k₁.after blake3 (.renameNoReplace .lock (.broken operationId))
        (.ok ())).aside :=
        .inr ⟨rfl, hp hb⟩
      have hmoved : old ∈ (k₁.after blake3 (.renameNoReplace .lock (.broken operationId)) (.ok ())).locked :=
        hl₁.locked
      refine (safe_recoverMoved hmoved ha hi₁).mono fun o k₂ ⟨hs, hh⟩ => ?_
      exact ⟨hle.toSame.trans ⟨hs.request, hs.mine⟩, hh⟩
  · exact safe_leave.2 ⟨hle.toSame.forget _, nofun⟩

end Recover

section TakeOver

variable {lock : Handle} {reported : Uncertain}

lemma safe_takeOverOpened (hq : k.request = some .breakLock) :
    Safe blake3 kind (takeOverOpened blake3 lock reported)
    (fun t k' => k.Same k' ∧ ∀ c, t = .claimed c → k'.Claims c) k := by
  rw [takeOverOpened, safe_closing]
  refine safe_tryLock fun got k₁ hle hl => ?_
  split
  · rename_i hg
    refine safe_identity (Safe.bind safe_atPath fun x k₂ ⟨hle₂, hp⟩ => ?_)
    split
    · rename_i hx
      refine Safe.bind safe_decodeLock fun d k₃ ⟨hle₃, hd⟩ => ?_
      have hle := (hle.trans hle₂).trans hle₃
      cases d with
      | uncertain why =>
        refine ⟨hle.toSame, fun c hc => ?_⟩
        cases hc
        exact ⟨hle₃.locked (hle₂.locked (hl hg)), hle₃.path (hp lock (hl hg) hx), rfl, hle.request.trans hq,
          why, hd (hle₂.locked (hl hg))⟩
      | record _ | foreign => exact safe_leave.2 ⟨hle.toSame.forget _, nofun⟩
    · exact safe_leave.2 ⟨(hle.trans hle₂).toSame.forget _, nofun⟩
  · trivial

lemma safe_takeOver (hq : k.request = some .breakLock) (capability : Bool) :
    Safe blake3 kind (takeOver blake3 capability reported)
      (fun t k' => k.Same k' ∧ ∀ c, t = .claimed c → k'.Claims c) k := by
  refine Safe.callIo trivial fun r strong _ hr => ?_
  subst hr
  split
  · refine Safe.call trivial fun r _ => ?_
    cases r with
    | ok lock => exact safe_takeOverOpened hq
    | error e =>
      dsimp only
      split
      · exact ⟨.refl k, nofun⟩
      · trivial
  · trivial

end TakeOver

section Obtain

variable {operationId : Text} {purpose : Purpose}

def Know.Obtains (k : Know) : Obtained → Prop
  | .held held _ => k.Holds held
  | .claimed c => k.Claims c

lemma safe_recoverPass {β : Type} {found : Held → Option Name → β} {K : Know → β → Prop} {lock : Handle}
    {r : LockRecord} (hfound : ∀ k' held leftover, k'.Holds held → K k' (found held leftover))
    (hl : k.Left verdict lock identity r) (hq : k.request = some purpose)
    (hm : ∀ present, verdict present r → MayMove kind present purpose (.record r)) (hi : operationId ∈ k.mine) :
    Safe blake3 kind (recoverPass blake3 found lock identity r operationId)
      (fun o k' => k.Same k' ∧ ∀ b, o = .ok b → K k' b) k := by
  refine Safe.bind (safe_recover hl hm hq hi) fun o k₁ ⟨hs, hh⟩ => ?_
  cases o with
  | held held leftover =>
    refine ⟨hs, fun b hb => ?_⟩
    cases hb
    exact hfound k₁ held leftover (hh held leftover rfl)
  | restart last => exact ⟨hs, nofun⟩

lemma safe_takeOverPass (hq : k.request = some .breakLock) (capability : Bool) (why : Uncertain) :
    Safe blake3 kind (takeOverPass blake3 capability why)
      (fun o k' => k.Same k' ∧ ∀ b, o = .ok b → k'.Obtains b) k := by
  refine Safe.bind (safe_takeOver hq capability) fun t k₁ ⟨hs, hc⟩ => ?_
  cases t with
  | claimed c =>
    refine ⟨hs, fun b hb => ?_⟩
    cases hb
    exact hc c rfl
  | restart => exact ⟨hs, nofun⟩

lemma safe_decidePass {mode : Mode} {c : Classified} (hc : k.Classifies kind c)
    (hq : k.request = some mode.purpose) (hi : operationId ∈ k.mine) (capability : Bool) :
    Safe blake3 kind (decidePass blake3 kind capability mode operationId c)
      (fun o k' => k.Same k' ∧ ∀ b, o = .ok b → k'.Obtains b) k := by
  cases c with
  | vanished => exact ⟨.refl k, nofun⟩
  | busy holder | foreign | untrusted r => trivial
  | orphan lock identity r =>
    exact Safe.bind (Q := fun _ _ => True) (safe_leave.2 trivial) fun _ _ _ => safe_throw
  | uncertain why =>
    cases mode with
    | plain => trivial
    | breakLock => exact safe_takeOverPass hq capability why
  | dead lock identity r =>
    refine safe_recoverPass (fun _ _ _ h => h) hc hq (fun present hv => ?_) hi
    cases mode <;> exact hv

lemma safe_obtainPass {mode : Mode} (hq : k.request = some mode.purpose) (hi : operationId ∈ k.mine)
    (capability : Bool) : Safe blake3 kind (obtainPass blake3 kind capability mode operationId)
      (fun o k' => k.Same k' ∧ ∀ b, o = .ok b → k'.Obtains b) k := by
  refine Safe.bind safe_acquire fun a k₁ ⟨hs, ha⟩ => ?_
  cases a with
  | acquired held =>
    refine ⟨hs, fun b hb => ?_⟩
    cases hb
    exact ha held rfl
  | restart last => exact ⟨hs, nofun⟩
  | taken =>
    refine Safe.bind safe_classify fun c k₂ ⟨hs₂, hc⟩ => ?_
    have hs := hs.trans hs₂
    exact (safe_decidePass hc (hs.request.trans hq) (hs.mine ▸ hi) capability).mono fun o k₃ h =>
      ⟨hs.trans h.1, h.2⟩

lemma safe_attempts {β : Type} {pass : Act (Except Last β)} {K : Know → β → Prop} {I : Know → Prop}
    (hI : ∀ k k', I k → k.Same k' → I k')
    (hp : ∀ k, I k → Safe blake3 kind pass (fun o k' => k.Same k' ∧ ∀ b, o = .ok b → K k' b) k) (n : ℕ)
    (last : Last) (hk : I k) : Safe blake3 kind (attempts pass n last) (fun b k' => K k' b) k := by
  induction n generalizing k last with
  | zero => trivial
  | succ n ih =>
    refine Safe.bind (hp k hk) fun o k₁ ⟨hs, ho⟩ => ?_
    cases o with
    | ok b => exact ho b rfl
    | error last => exact ih last (hI k k₁ hk hs)

lemma safe_obtain (hi : operationId ∈ k.mine) (capability : Bool) (mode : Mode) :
    Safe blake3 kind (obtain blake3 kind capability mode operationId) (fun o k' => k'.Obtains o) k := by
  refine Safe.call trivial fun _ _ => ?_
  exact safe_attempts (I := fun k => k.request = some mode.purpose ∧ operationId ∈ k.mine)
    (fun k k' h hs => ⟨hs.request.trans h.1, hs.mine ▸ h.2⟩)
    (fun k h => safe_obtainPass h.1 h.2 capability) _ _ ⟨rfl, hi⟩

lemma safe_decideCleanup {now lease : UInt64} {c : Classified} (hc : k.Classifies kind c)
    (hq : k.request = some (.cleanup now lease)) (hi : operationId ∈ k.mine) :
    Safe blake3 kind (decideCleanup blake3 operationId now lease c)
      (fun o k' => k.Same k' ∧ ∀ b, o = .ok b → k'.Holds b.held) k := by
  cases c with
  | vanished => exact ⟨.refl k, nofun⟩
  | busy holder | foreign | untrusted r | uncertain why => trivial
  | orphan lock identity r =>
    rw [decideCleanup]
    split
    · rename_i hp
      exact safe_recoverPass (fun _ _ _ h => h) hc hq (fun present hv => ⟨hp, .inr hv⟩) hi
    · exact Safe.bind (Q := fun _ _ => True) (safe_leave.2 trivial) fun _ _ _ => safe_throw
  | dead lock identity r =>
    rw [decideCleanup]
    split
    · rename_i hp
      exact safe_recoverPass (fun _ _ _ h => h) hc hq (fun present hv => ⟨hp, .inl hv⟩) hi
    · exact Safe.bind (Q := fun _ _ => True) (safe_leave.2 trivial) fun _ _ _ => safe_throw

lemma safe_cleanupPass {now lease : UInt64} (hq : k.request = some (.cleanup now lease))
    (hi : operationId ∈ k.mine) : Safe blake3 kind (cleanupPass blake3 kind operationId now lease)
      (fun o k' => k.Same k' ∧ ∀ b, o = .ok b → k'.Holds b.held) k := by
  refine Safe.bind safe_acquire fun a k₁ ⟨hs, ha⟩ => ?_
  cases a with
  | acquired held =>
    refine ⟨hs, fun b hb => ?_⟩
    cases hb
    exact ha held rfl
  | restart last => exact ⟨hs, nofun⟩
  | taken =>
    refine Safe.bind safe_classify fun c k₂ ⟨hs₂, hc⟩ => ?_
    have hs := hs.trans hs₂
    exact (safe_decideCleanup hc (hs.request.trans hq) (hs.mine ▸ hi)).mono fun o k₃ h => ⟨hs.trans h.1, h.2⟩

lemma safe_obtainCleanupLock (hi : operationId ∈ k.mine) (now lease : UInt64) :
    Safe blake3 kind (obtainCleanupLock blake3 kind operationId now lease) (fun o k' => k'.Holds o.held) k := by
  refine Safe.call trivial fun _ _ => ?_
  exact safe_attempts (I := fun k => k.request = some (.cleanup now lease) ∧ operationId ∈ k.mine)
    (fun k k' h hs => ⟨hs.request.trans h.1, hs.mine ▸ h.2⟩)
    (fun k h => safe_cleanupPass h.1 h.2) _ _ ⟨rfl, hi⟩

end Obtain

end Flux.Lock
