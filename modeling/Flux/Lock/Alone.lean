import Flux.Base.Answer
import Flux.Lock.Knowledge

/-! One process on a lock site with no other process, and no call that fails: how it obtains the lock. -/

namespace Flux.Lock

open Base Function

inductive Special where
  | link | directory | other
  deriving DecidableEq, Repr

def tooManyLinks : IoError := ⟨.other, some 40, "Too many levels of symbolic links (os error 40)"⟩

def notALock : Special → FsError
  | .link => ⟨.safetyRejected, tooManyLinks⟩
  | .directory => ⟨.destinationError, ⟨.isADirectory, none, "a directory is not a lock file"⟩⟩
  | .other => ⟨.destinationError, .other "a lock path holds something other than a regular file"⟩

def notAFile : Special → FsError
  | .link => ⟨.safetyRejected, tooManyLinks⟩
  | .directory => ⟨.destinationError, ⟨.isADirectory, none, "a directory is not a state file"⟩⟩
  | .other => ⟨.destinationError, .other "not a regular file"⟩

/-- What the calls tell of the objects: the kind of what is not a regular file, whether the directory has a
strong identity, and the identity under which an object is reported. -/
structure Volume where
  special : ℕ → Special
  strong : Bool
  identify : Node → Node

section Answers

variable {P : Type}

def World.created (w : World P) (p : P) (n : Name) : World P :=
  { w.newHandle p w.nextFile with
    dir := update w.dir n (some (.file w.nextFile))
    data := update w.data w.nextFile []
    nextFile := w.nextFile + 1
    owns := update w.owns ⟨w.nextHandle, w.nextFile⟩ true }

lemma World.created_dir (w : World P) (p : P) (n : Name) :
    (w.created p n).dir = update w.dir n (some (.file w.nextFile)) := rfl

def World.locked (w : World P) (h : Handle) : World P := { w with locker := update w.locker h.file (some h) }

def World.closed (w : World P) (h : Handle) : World P :=
  { w with
    opened := update w.opened h none
    locker := if w.locker h.file = some h then update w.locker h.file none else w.locker }

@[simp] lemma World.locked_dir (w : World P) (h : Handle) : (w.locked h).dir = w.dir := rfl

@[simp] lemma World.closed_dir (w : World P) (h : Handle) : (w.closed h).dir = w.dir := rfl

def World.moved (w : World P) (a b : Name) (x : Node) : World P :=
  { w with dir := update (update w.dir a none) b (some x) }

lemma World.moved_dir (w : World P) (a b : Name) (x : Node) :
    (w.moved a b x).dir = update (update w.dir a none) b (some x) := rfl

def World.removed (w : World P) (n : Name) : World P := { w with dir := update w.dir n none }

variable [DecidableEq P]

def World.mine (w : World P) (p : P) (h : Handle) {α : Type} (answer : α × World P) : Option (α × World P) :=
  if w.opened h = some p then some answer else none

def Volume.answer (v : Volume) (p : P) : (c : Call) → World P → Option (Reply c × World P)
  | .request purpose, w => some ((), { w with asked := update w.asked p (some purpose) })
  | .createLock n, w =>
    match w.dir n with
    | none => some (.ok ⟨w.nextHandle, w.nextFile⟩, w.created p n)
    | some _ => some (.error alreadyExists, w)
  | .openLock n, w =>
    match w.dir n with
    | none => some (.error notFound, w)
    | some (.file f) => some (.ok ⟨w.nextHandle, f⟩, w.newHandle p f)
    | some (.other i) => some (.error (notALock (v.special i)), w)
  | .metadata n, w =>
    match w.dir n with
    | none => some (.error notFound, w)
    | some x => some (.ok (v.identify x), w)
  | .identity h, w => w.mine p h (.ok (v.identify (.file h.file)), w)
  | .tryLock h, w =>
    if w.locker h.file = none ∨ w.locker h.file = some h then w.mine p h (.ok true, w.locked h)
    else some (.ok false, w)
  | .readAll h limit, w => some (.ok ((w.data h.file).take (limit + 1)), w)
  | .readFile n limit, w =>
    match w.dir n with
    | none => some (.error notFound, w)
    | some (.file f) => some (.ok ((w.data f).take (limit + 1)), w)
    | some (.other i) => some (.error (notAFile (v.special i)), w)
  | .writeAt h bytes, w => w.mine p h (.ok bytes.length,
      { w with data := update w.data h.file (overwritten (w.data h.file) bytes bytes.length)
               owns := update w.owns h true })
  | .setLen h n, w => w.mine p h (.ok (), { w with data := update w.data h.file (resized (w.data h.file) n) })
  | .syncAll h, w => w.mine p h (.ok (), w)
  | .renameNoReplace a b, w =>
    match w.dir a, w.dir b with
    | none, _ => some (.error notFound, w)
    | some _, some _ => some (.error alreadyExists, w)
    | some x, none => some (.ok (), w.moved a b x)
  | .removeFile n, w =>
    match w.dir n with
    | none => some (.error notFound, w)
    | some _ => some (.ok (), w.removed n)
  | .close h, w => w.mine p h ((), w.closed h)
  | .dirIsStrong, w => some (.ok v.strong, w)
  | .workspacePresent path, w => some (.ok (w.present path), w)
  | .setWorkspace path there, w => some (.ok (), { w with present := update w.present path there })
  | .panic, _ => none

lemma World.mine_eq {w w' : World P} {p : P} {h : Handle} {α : Type} {x : α × World P} {a : α}
    (hm : w.mine p h x = some (a, w')) : w.opened h = some p ∧ x = (a, w') := by
  unfold World.mine at hm
  split at hm
  · rename_i ho
    exact ⟨ho, Option.some.inj hm⟩
  · cases hm

lemma Volume.answer_exec {v : Volume} (hs : v.strong = true) (hi : ∀ x, v.identify x = x) {p : P} {c : Call}
    {w w' : World P} {r : Reply c} (h : v.answer p c w = some (r, w')) : Exec p c w r w' := by
  cases c with
  | request purpose =>
    cases h
    exact .request purpose
  | createLock n =>
    simp only [answer] at h
    split at h <;> cases h
    · rename_i hn
      exact .createLock hn
    · exact .fails rfl
  | openLock n =>
    simp only [answer] at h
    split at h <;> cases h
    · exact .fails rfl
    · rename_i hn
      exact .openLock hn
    · exact .fails rfl
  | metadata n =>
    simp only [answer] at h
    split at h <;> cases h
    · exact .fails rfl
    · rename_i x hn
      rw [hi]
      exact .metadata hn
  | identity h' =>
    obtain ⟨ho, hx⟩ := World.mine_eq h
    cases hx
    rw [hi]
    exact .identity ho
  | tryLock h' =>
    simp only [answer] at h
    split at h
    · rename_i hl
      obtain ⟨ho, hx⟩ := World.mine_eq h
      cases hx
      exact .granted ho hl
    · rename_i hl
      cases h
      obtain ⟨h'', hl'⟩ := Option.ne_none_iff_exists'.mp (not_or.mp hl).1
      exact .refused hl' fun he => (not_or.mp hl).2 (he ▸ hl')
  | readAll h' limit =>
    cases h
    by_cases hl : w.locker h'.file = some h'
    · exact .readLocked hl
    · exact .readUnlocked _ hl
  | readFile n limit =>
    simp only [answer] at h
    split at h <;> cases h
    · exact .fails rfl
    · rename_i hn
      exact .readFile _ hn
    · exact .fails rfl
  | writeAt h' bytes =>
    obtain ⟨ho, hx⟩ := World.mine_eq h
    cases hx
    exact .writeAt ho le_rfl
  | setLen h' n =>
    obtain ⟨ho, hx⟩ := World.mine_eq h
    cases hx
    exact .setLen ho
  | syncAll h' =>
    obtain ⟨ho, hx⟩ := World.mine_eq h
    cases hx
    exact .syncAll ho
  | renameNoReplace a b =>
    simp only [answer] at h
    split at h <;> cases h
    · exact .fails rfl
    · exact .fails rfl
    · rename_i ha hb
      exact .renameNoReplace ha hb
  | removeFile n =>
    simp only [answer] at h
    split at h <;> cases h
    · exact .fails rfl
    · rename_i hn
      exact .removeFile hn
  | close h' =>
    obtain ⟨ho, hx⟩ := World.mine_eq h
    cases hx
    exact .close ho
  | dirIsStrong =>
    cases h
    rw [hs]
    exact .dirIsStrong
  | workspacePresent path =>
    cases h
    exact .workspacePresent
  | setWorkspace path there =>
    cases h
    exact .setWorkspace
  | panic => cases h

end Answers

section Runs

variable {P : Type} [DecidableEq P] {v : Volume} {p : P} {w w' : World P} {α : Type}

lemma runs_raw {c : Call} {r : Reply c} (h : v.answer p c w = some (r, w')) :
    RunsTo (v.answer p) (raw c) w (.ok r) w' := RunsTo.perform h

lemma runs_io {a : α} : RunsTo (v.answer p) (io (.ok a)) w (.ok a) w := RunsTo.pure

variable {h : Handle}

lemma World.mine_of {x : α × World P} (ho : w.opened h = some p) : w.mine p h x = some x := if_pos ho

lemma runs_leave {a : α} (ho : w.opened h = some p) :
    RunsTo (v.answer p) (leave h a) w (.ok a) (w.closed h) := .bind (runs_raw (World.mine_of ho)) .pure

lemma runs_closing {x : Act α} {a : α} (hx : RunsTo (v.answer p) x w (.ok a) w') :
    RunsTo (v.answer p) (closing h x) w (.ok a) w' := RunsTo.tryCatch hx

lemma runs_atPath (n : Name) : RunsTo (v.answer p) (atPath n) w (.ok ((w.dir n).map v.identify)) w := by
  cases hn : w.dir n with
  | none => exact .bind (runs_raw (by rw [Volume.answer, hn])) .pure
  | some x => exact .bind (runs_raw (by rw [Volume.answer, hn])) .pure

variable {x : Node}

lemma runs_removeFile {n : Name} (hn : w.dir n = some x) :
    RunsTo (v.answer p) (raw (.removeFile n)) w (.ok (.ok ())) (w.removed n) :=
    runs_raw (by rw [Volume.answer, hn])

lemma runs_tryLock (ho : w.opened h = some p) (hl : w.locker h.file = none) :
    RunsTo (v.answer p) (raw (.tryLock h)) w (.ok (.ok true)) (w.locked h) :=
  runs_raw (by rw [Volume.answer, if_pos (.inl hl), World.mine_of ho])

lemma runs_identity (ho : w.opened h = some p) :
    RunsTo (v.answer p) (raw (.identity h)) w (.ok (.ok (v.identify (.file h.file)))) w :=
  runs_raw (World.mine_of ho)

section Acquire

variable {lock : Handle}

lemma runs_stillEmpty (hd : w.dir .lock = some (.file lock.file)) (he : w.data lock.file = []) :
    RunsTo (v.answer p) (stillEmptyAtPath lock (v.identify (.file lock.file))) w (.ok true) w := by
  refine .bind (runs_atPath .lock) ?_
  rw [hd, Option.map_some, if_pos rfl]
  refine .bind (runs_raw rfl) (.bind runs_io ?_)
  rw [he]
  exact .pure

variable (lock) in
lemma runs_ownLock (ho : w.opened lock = some p) (hl : w.locker lock.file = none)
    (hd : w.dir .lock = some (.file lock.file)) (he : w.data lock.file = []) :
    RunsTo (v.answer p) (ownLock lock) w (.ok (.ok ⟨lock, v.identify (.file lock.file), none, none⟩))
      (w.locked lock) := by
  have hwait : RunsTo (v.answer p) (ownlockWait lock (v.identify (.file lock.file)) (ownlockTries - 1)) w
    (.ok true) (w.locked lock) := .bind (runs_tryLock ho hl) (.bind runs_io .pure)
  refine runs_closing (.bind (runs_identity ho) (.bind runs_io (.bind hwait ?_)))
  exact .bind (runs_stillEmpty (w := w.locked lock) hd he) .pure

lemma runs_dirLockPresent (kind : SiteKind) :
    RunsTo (v.answer p) (dirLockPresent kind) w (.ok (kind ≠ .root ∧ w.dir .dirLock ≠ none)) w := by
  unfold dirLockPresent
  by_cases hk : kind = .root
  · rw [if_pos hk]
    simp only [hk, ne_eq, not_true_eq_false, false_and, decide_false]
    exact .pure
  · rw [if_neg hk]
    refine .bind (runs_atPath .dirLock) ?_
    cases w.dir .dirLock with
    | none =>
      simp only [hk, ne_eq, not_false_eq_true, not_true_eq_false, and_false, decide_false]
      exact .pure
    | some x =>
      simp only [hk, ne_eq, not_false_eq_true, reduceCtorEq, and_self, decide_true]
      exact .pure

lemma runs_backOff (ho : w.opened lock = some p) (hl : w.locker lock.file = none)
    (hd : w.dir .lock = some (.file lock.file)) (he : w.data lock.file = []) :
    RunsTo (v.answer p) (backOff lock) w (.ok ()) ((w.locked lock).removed .lock) := by
  refine .bind (runs_identity ho) (.bind runs_io (.bind (runs_tryLock ho hl) (.bind runs_io ?_)))
  refine .bind (runs_stillEmpty (w := w.locked lock) hd he) ?_
  exact .bind (runs_removeFile hd) runs_io

def dirLockRefusal : LockError :=
  refuse .targetLockBusy none "a directory lock (.flux-dir.lock) is present beside the target's lock"

lemma runs_acquire_taken {kind : SiteKind} (hd : w.dir .lock = some x) :
    RunsTo (v.answer p) (acquire kind) w (.ok .taken) w :=
  .bind (runs_raw (by rw [Volume.answer, hd])) .pure

lemma runs_acquire_free (kind : SiteKind) (hd : w.dir .lock = none) (hl : w.locker w.nextFile = none) :
    ∃ w', RunsTo (v.answer p) (acquire kind) w (if kind ≠ .root ∧ w.dir .dirLock ≠ none then .error dirLockRefusal
      else .ok (.acquired ⟨⟨w.nextHandle, w.nextFile⟩, v.identify (.file w.nextFile), none, none⟩)) w' := by
  have hcreate : RunsTo (v.answer p) (raw (.createLock .lock)) w (.ok (.ok ⟨w.nextHandle, w.nextFile⟩))
      (w.created p .lock) := runs_raw (by rw [Volume.answer, hd])
  have ho : (w.created p .lock).opened ⟨w.nextHandle, w.nextFile⟩ = some p := update_self ..
  have hd' : (w.created p .lock).dir .lock = some (.file w.nextFile) := by
    rw [World.created_dir, update_self]
  have he : (w.created p .lock).data w.nextFile = [] := update_self ..
  have hdl : (w.created p .lock).dir .dirLock = w.dir .dirLock := by
    rw [World.created_dir, update_of_ne (by decide)]
  have hpresent := runs_closing (h := ⟨w.nextHandle, w.nextFile⟩)
    (runs_dirLockPresent (v := v) (p := p) (w := w.created p .lock) kind)
  rw [hdl] at hpresent
  by_cases hb : kind ≠ .root ∧ w.dir .dirLock ≠ none
  · rw [if_pos hb]
    rw [decide_eq_true hb] at hpresent
    exact ⟨_, .bind hcreate (.bind hpresent (.bind (runs_closing (runs_backOff ho hl hd' he))
      (.bind (runs_leave ho) .throw)))⟩
  · rw [if_neg hb]
    rw [decide_eq_false hb] at hpresent
    exact ⟨_, .bind hcreate (.bind hpresent (.bind (runs_ownLock _ ho hl hd' he) .pure))⟩

end Acquire

section Classify

variable {blake3 : Bytes → Block 32} (kind : SiteKind) {r : LockRecord} {f : ℕ}

def Workspace.seen (kind : SiteKind) (present : Text → Bool) (r : LockRecord) : Workspace :=
  if State.isId r.operationId = false then .untrusted
  else if r.workspacePath = noWorkspace then .trusted
  else if namesWorkspace kind r then if present r.workspacePath then .trusted else .missing
  else .untrusted

omit [DecidableEq P] in
lemma seen_eq_trusted {present : Text → Bool} :
    Workspace.seen kind present r = .trusted ↔ trusted kind present r := by
  unfold Workspace.seen trusted
  grind

lemma runs_workspace : RunsTo (v.answer p) (workspace kind r) w (.ok (.seen kind w.present r)) w := by
  unfold workspace Workspace.seen
  split
  · exact .pure
  · split
    · exact .pure
    · split
      · refine .bind (runs_raw rfl) (.bind runs_io ?_)
        cases w.present r.workspacePath <;> exact .pure
      · exact .pure

lemma runs_decodeLock {lock : Handle} {d : Decoded} (hd : decode blake3 (w.data lock.file) = d) :
    RunsTo (v.answer p) (decodeLock blake3 lock) w (.ok d) w := by
  refine .bind (runs_raw rfl) (.bind runs_io ?_)
  rw [decode_take, hd]
  exact .pure

def World.taken (w : World P) (p : P) (f : ℕ) : World P := (w.newHandle p f).locked ⟨w.nextHandle, f⟩

lemma runs_openLock (hd : w.dir .lock = some (.file f)) :
    RunsTo (v.answer p) (raw (.openLock .lock)) w (.ok (.ok ⟨w.nextHandle, f⟩)) (w.newHandle p f) :=
  runs_raw (by rw [Volume.answer, hd])

omit [DecidableEq P] in
lemma World.newHandle_opened : (w.newHandle p f).opened ⟨w.nextHandle, f⟩ = some p := update_self ..

omit [DecidableEq P] in
lemma World.taken_opened : (w.taken p f).opened ⟨w.nextHandle, f⟩ = some p := World.newHandle_opened

lemma runs_classify_uncertain {why : Uncertain} (hd : w.dir .lock = some (.file f)) (hl : w.locker f = none)
    (hc : decode blake3 (w.data f) = .uncertain why) :
    RunsTo (v.answer p) (classify blake3 kind) w (.ok (.uncertain why)) ((w.taken p f).closed ⟨w.nextHandle, f⟩) :=
  .bind (runs_openLock hd) (runs_closing (.bind (runs_tryLock World.newHandle_opened hl) (.bind runs_io
    (.bind (runs_decodeLock (w := w.taken p f) hc) (runs_leave World.taken_opened)))))

lemma runs_classify_foreign (hd : w.dir .lock = some (.file f)) (hl : w.locker f = none)
    (hc : decode blake3 (w.data f) = .foreign) :
    RunsTo (v.answer p) (classify blake3 kind) w (.ok .foreign) ((w.taken p f).closed ⟨w.nextHandle, f⟩) :=
  .bind (runs_openLock hd) (runs_closing (.bind (runs_tryLock World.newHandle_opened hl) (.bind runs_io
    (.bind (runs_decodeLock (w := w.taken p f) hc) (runs_leave World.taken_opened)))))

lemma runs_classify_other {i : ℕ} (hd : w.dir .lock = some (.other i)) :
    RunsTo (v.answer p) (classify blake3 kind) w (.ok .foreign) w := by
  refine .bind (runs_raw (by rw [Volume.answer, hd])) ?_
  cases v.special i <;> exact .pure

lemma runs_classify_record {c : Classified} (hd : w.dir .lock = some (.file f)) (hl : w.locker f = none)
    (hc : decode blake3 (w.data f) = .record r)
    (ho : RunsTo (v.answer p) (classifyOwner kind ⟨w.nextHandle, f⟩ r) (w.taken p f) (.ok c) w') :
    RunsTo (v.answer p) (classify blake3 kind) w (.ok c) w' :=
  .bind (runs_openLock hd) (runs_closing (.bind (runs_tryLock World.newHandle_opened hl) (.bind runs_io
    (.bind (runs_decodeLock (w := w.taken p f) hc) ho))))

lemma runs_classifyOwner {lock : Handle} (ho : w.opened lock = some p) :
    match Workspace.seen kind w.present r with
    | .trusted =>
      RunsTo (v.answer p) (classifyOwner kind lock r) w (.ok (.dead lock (v.identify (.file lock.file)) r)) w
    | .missing =>
      RunsTo (v.answer p) (classifyOwner kind lock r) w (.ok (.orphan lock (v.identify (.file lock.file)) r)) w
    | .untrusted => RunsTo (v.answer p) (classifyOwner kind lock r) w (.ok (.untrusted r)) (w.closed lock) := by
  have hw : RunsTo (v.answer p) (workspace kind r) w (.ok (.seen kind w.present r)) w := runs_workspace kind
  revert hw
  generalize Workspace.seen kind w.present r = found
  intro hw
  cases found with
  | trusted => exact .bind hw (.bind (runs_identity ho) (.bind runs_io .pure))
  | missing => exact .bind hw (.bind (runs_identity ho) (.bind runs_io .pure))
  | untrusted => exact .bind hw (runs_leave ho)

end Classify

section Recover

variable {blake3 : Bytes → Block 32} {r : LockRecord} {f : ℕ} {operationId : Text} {old : Handle}

lemma runs_sameOwner {n : Name} (hd : w.dir n = some (.file old.file))
    (hc : decode blake3 (w.data old.file) = .record r) :
    RunsTo (v.answer p) (sameOwner blake3 n old (v.identify (.file old.file)) r) w (.ok true) w := by
  refine .bind (runs_atPath n) ?_
  rw [hd, Option.map_some, if_pos rfl]
  refine .bind (runs_decodeLock hc) ?_
  rw [decide_eq_true rfl]
  exact .pure

lemma runs_recover_kept (ho : w.opened old = some p) (hd : w.dir .lock = some (.file old.file))
    (hc : decode blake3 (w.data old.file) = .record r) (hb : w.dir (.broken operationId) = some x) :
    RunsTo (v.answer p) (recover blake3 old (v.identify (.file old.file)) r operationId) w (.ok (.restart .other))
      (w.closed old) := by
  refine runs_closing (.bind (runs_sameOwner hd hc) (.bind (runs_raw (by rw [Volume.answer, hd, hb])) ?_))
  exact runs_leave ho

lemma runs_recoverCreate (ho : w.opened old = some p) (hf : old.file ≠ w.nextFile) (hd : w.dir .lock = none)
    (hl : w.locker w.nextFile = none) (hb : w.dir (.broken operationId) = some x) :
    ∃ held w', RunsTo (v.answer p) (recoverCreate old operationId) w (.ok (.held held none)) w' := by
  have hcreate : RunsTo (v.answer p) (raw (.createLock .lock)) w (.ok (.ok ⟨w.nextHandle, w.nextFile⟩))
      (w.created p .lock) := runs_raw (by rw [Volume.answer, hd])
  have hown := runs_ownLock (v := v) (w := w.created p .lock) (p := p) ⟨w.nextHandle, w.nextFile⟩ (update_self ..)
    hl (by rw [World.created_dir, update_self]) (update_self ..)
  have hne : old ≠ ⟨w.nextHandle, w.nextFile⟩ := fun he => hf (congrArg Handle.file he)
  have hold : ((w.created p .lock).locked ⟨w.nextHandle, w.nextFile⟩).opened old = some p :=
    (update_of_ne hne _ _).trans ho
  have hbroken : (((w.created p .lock).locked ⟨w.nextHandle, w.nextFile⟩).closed old).dir (.broken operationId) =
      some x := by
    rw [World.closed_dir, World.locked_dir, World.created_dir,
      update_of_ne (show Name.broken operationId ≠ .lock by simp), hb]
  exact ⟨_, _, .bind hcreate (.bind hown (.bind (runs_leave hold) (.bind (runs_removeFile hbroken) .pure)))⟩

lemma runs_recover (ho : w.opened old = some p) (hf : old.file ≠ w.nextFile)
    (hd : w.dir .lock = some (.file old.file)) (hl : w.locker w.nextFile = none)
    (hc : decode blake3 (w.data old.file) = .record r) (hb : w.dir (.broken operationId) = none) :
    ∃ held w', RunsTo (v.answer p) (recover blake3 old (v.identify (.file old.file)) r operationId) w
      (.ok (.held held none)) w' := by
  have hlock : (w.moved .lock (.broken operationId) (.file old.file)).dir .lock = none := by
    rw [World.moved_dir, update_of_ne (show Name.lock ≠ .broken operationId by simp), update_self]
  have hbroken : (w.moved .lock (.broken operationId) (.file old.file)).dir (.broken operationId) =
      some (.file old.file) := update_self ..
  obtain ⟨held, w', hcreate⟩ := runs_recoverCreate (v := v)
    (w := w.moved .lock (.broken operationId) (.file old.file)) ho hf hlock hl hbroken
  refine ⟨held, w', runs_closing (.bind (runs_sameOwner hd hc)
    (.bind (runs_raw (by rw [Volume.answer, hd, hb])) ?_))⟩
  exact .bind (runs_sameOwner hbroken hc) hcreate

end Recover

section TakeOver

variable {blake3 : Bytes → Block 32} {f : ℕ} {why : Uncertain}

lemma runs_takeOver (hs : v.strong = true) (hd : w.dir .lock = some (.file f)) (hl : w.locker f = none)
    (hc : decode blake3 (w.data f) = .uncertain why) (reported : Uncertain) :
    ∃ c w', RunsTo (v.answer p) (takeOver blake3 true reported) w (.ok (.claimed c)) w' := by
  have hpath : RunsTo (v.answer p) (atPath .lock) (w.taken p f) (.ok (some (v.identify (.file f))))
    (w.taken p f) := by
    have h := runs_atPath (v := v) (p := p) (w := w.taken p f) .lock
    rwa [show (w.taken p f).dir .lock = _ from hd] at h
  have hopened : RunsTo (v.answer p) (takeOverOpened blake3 ⟨w.nextHandle, f⟩ reported) (w.newHandle p f)
      (.ok (.claimed ⟨⟨w.nextHandle, f⟩, v.identify (.file f), reported⟩)) (w.taken p f) := by
    refine runs_closing (.bind (runs_tryLock World.newHandle_opened hl) (.bind runs_io ?_))
    refine .bind (runs_identity World.taken_opened) (.bind runs_io (.bind hpath ?_))
    rw [if_pos rfl]
    exact .bind (runs_decodeLock (w := w.taken p f) hc) .pure
  refine ⟨⟨⟨w.nextHandle, f⟩, v.identify (.file f), reported⟩, w.taken p f,
    .bind (runs_raw rfl) (.bind runs_io ?_)⟩
  rw [hs]
  exact .bind (runs_openLock hd) hopened

lemma runs_takeOver_unavailable {capability : Bool} (hs : (v.strong && capability) = false)
    (reported : Uncertain) :
    RunsTo (v.answer p) (takeOver blake3 capability reported) w (.error takeoverUnavailable) w := by
  refine .bind (runs_raw rfl) (.bind runs_io ?_)
  rw [hs]
  exact .throw

end TakeOver

section Obtain

variable {blake3 : Bytes → Block 32} {kind : SiteKind} {mode : Mode} {capability : Bool}
  {operationId : Text} {f : ℕ}

structure Rests (w w' : World P) : Prop where
  dir : w'.dir = w.dir
  data : w'.data = w.data
  present : w'.present = w.present
  nextFile : w'.nextFile = w.nextFile
  locker : ∀ f, w'.locker f = none

variable {w₀ : World P}

omit [DecidableEq P] in
lemma Rests.closed (h : Rests w₀ w) (p : P) (f : ℕ) : Rests w₀ ((w.taken p f).closed ⟨w.nextHandle, f⟩) where
  dir := h.dir
  data := h.data
  present := h.present
  nextFile := h.nextFile
  locker := fun f' => by
    simp only [World.closed, World.taken, World.locked, World.newHandle, update_self, if_true, update_idem]
    by_cases hf : f' = f
    · rw [hf, update_self]
    · rw [update_of_ne hf, h.locker]

lemma runs_attempts_giveUp {β : Type} {pass : Act (Except Last β)} {last : Last}
    (hp : ∀ w, Rests w₀ w → ∃ w', RunsTo (v.answer p) pass w (.ok (.error last)) w' ∧ Rests w₀ w') (n : ℕ)
    (before : Last) (h : Rests w₀ w) :
    ∃ w', RunsTo (v.answer p) (attempts pass (n + 1) before) w (.error (giveUp last)) w' := by
  induction n generalizing w before with
  | zero =>
    obtain ⟨w', hw', -⟩ := hp w h
    exact ⟨w', .bind hw' .throw⟩
  | succ n ih =>
    obtain ⟨w', hw', hr⟩ := hp w h
    obtain ⟨w'', hw''⟩ := ih last hr
    exact ⟨w'', .bind hw' hw''⟩

lemma runs_attempts_ok {β : Type} {pass : Act (Except Last β)} {b : β} {n : ℕ} {before : Last}
    (hp : RunsTo (v.answer p) pass w (.ok (.ok b)) w') :
    RunsTo (v.answer p) (attempts pass (n + 1) before) w (.ok b) w' :=
  .bind hp .pure

lemma runs_attempts_error {β : Type} {pass : Act (Except Last β)} {e : LockError} {n : ℕ} {before : Last}
    (hp : RunsTo (v.answer p) pass w (.error e) w') :
    RunsTo (v.answer p) (attempts pass (n + 1) before) w (.error e) w' :=
  .bind_error hp

lemma runs_pass {c : Classified} {o : Except LockError (Except Last Obtained)} {w'' : World P}
    (hd : w.dir .lock = some x) (hc : RunsTo (v.answer p) (classify blake3 kind) w (.ok c) w')
    (ho : RunsTo (v.answer p) (decidePass blake3 kind capability mode operationId c) w' o w'') :
    RunsTo (v.answer p) (obtainPass blake3 kind capability mode operationId) w o w'' :=
  .bind (runs_acquire_taken hd) (.bind hc ho)

def refusalCode {β : Type} : Except LockError β → Option LockCode
  | .error (.refused r) => some r.code
  | .error (.io _) | .ok _ => none

def fileCode (kind : SiteKind) (mode : Mode) (available : Bool) (present : Text → Bool) (moved : Option Node) :
    Decoded → Option LockCode
  | .foreign => some .controlPlaneNamespaceConflict
  | .uncertain _ => if mode = .breakLock ∧ available then none else some .targetLockUncertain
  | .record r =>
    if Workspace.seen kind present r = .trusted then if moved = none then none else some .targetLockBusy
    else some .artifactOwnershipUncertain

def obtainCode (blake3 : Bytes → Block 32) (kind : SiteKind) (mode : Mode) (available : Bool) (operationId : Text)
    (w : World P) : Option LockCode :=
  match w.dir .lock with
  | none => if kind ≠ .root ∧ w.dir .dirLock ≠ none then some .targetLockBusy else none
  | some (.other _) => some .controlPlaneNamespaceConflict
  | some (.file f) =>
    fileCode kind mode available w.present (w.dir (.broken operationId)) (decode blake3 (w.data f))

lemma runs_pass_kept (capability : Bool) (mode : Mode) {r : LockRecord} (h : Rests w₀ w)
    (hd : w₀.dir .lock = some (.file f)) (hc : decode blake3 (w₀.data f) = .record r)
    (hs : Workspace.seen kind w₀.present r = .trusted) (hb : w₀.dir (.broken operationId) = some x) :
    ∃ w', RunsTo (v.answer p) (obtainPass blake3 kind capability mode operationId) w (.ok (.error .other)) w' ∧
      Rests w₀ w' := by
  have hd' : w.dir .lock = some (.file f) := by rw [h.dir, hd]
  have hc' : decode blake3 (w.data f) = .record r := by rw [h.data, hc]
  have howner := runs_classifyOwner (v := v) (p := p) (w := w.taken p f) kind (r := r) World.taken_opened
  rw [show (w.taken p f).present = w₀.present from h.present, hs] at howner
  refine ⟨_, runs_pass hd' (runs_classify_record kind hd' (h.locker f) hc' howner)
    (.bind (runs_recover_kept (x := x) World.taken_opened hd' hc' ?_) .pure), h.closed p f⟩
  rw [← hb, ← h.dir]
  rfl

variable (blake3 kind mode capability operationId) in
def Meets (v : Volume) (p : P) (w : World P) (code : Option LockCode) : Prop :=
  ∀ n last, ∃ o w',
    RunsTo (v.answer p) (attempts (obtainPass blake3 kind capability mode operationId) (n + 1) last) w o w' ∧
    refusalCode o = code

lemma meets_uncertain {why : Uncertain} (h : Rests w w') (hd : w'.dir .lock = some (.file f))
    (hc : decode blake3 (w'.data f) = .uncertain why) : Meets blake3 kind mode capability operationId v p w'
      (if mode = .breakLock ∧ (v.strong && capability) then none else some .targetLockUncertain) := by
  intro n last
  have hclassify := runs_classify_uncertain (v := v) (p := p) kind hd (h.locker f) hc
  cases mode with
  | plain => exact ⟨_, _, runs_attempts_error (runs_pass hd hclassify .throw), rfl⟩
  | breakLock =>
    cases hav : v.strong && capability with
    | false =>
      exact ⟨_, _, runs_attempts_error (runs_pass hd hclassify (.bind_error (runs_takeOver_unavailable hav why))),
        rfl⟩
    | true =>
      obtain ⟨hs, rfl⟩ := Bool.and_eq_true_iff.mp hav
      obtain ⟨c, w'', htake⟩ := runs_takeOver (v := v) (p := p) hs
        (show ((w'.taken p f).closed ⟨w'.nextHandle, f⟩).dir .lock = _ from hd) ((h.closed p f).locker f) hc why
      exact ⟨_, w'', runs_attempts_ok (runs_pass hd hclassify (.bind htake .pure)), rfl⟩

lemma meets_record {r : LockRecord} (h : Rests w w') (hd : w.dir .lock = some (.file f)) (hf : f < w.nextFile)
    (hc : decode blake3 (w.data f) = .record r) : Meets blake3 kind mode capability operationId v p w'
      (if Workspace.seen kind w.present r = .trusted then
        if w.dir (.broken operationId) = none then none else some .targetLockBusy
      else some .artifactOwnershipUncertain) := by
  intro n last
  have hd' : w'.dir .lock = some (.file f) := by rw [h.dir, hd]
  have hc' : decode blake3 (w'.data f) = .record r := by rw [h.data, hc]
  have howner := runs_classifyOwner (v := v) (p := p) (w := w'.taken p f) kind (r := r) World.taken_opened
  rw [show (w'.taken p f).present = w.present from h.present] at howner
  cases hs : Workspace.seen kind w.present r with
  | trusted =>
    rw [hs] at howner
    rw [if_pos rfl]
    have hne : f ≠ w'.nextFile := by
      rw [h.nextFile]
      exact hf.ne
    cases hb : w.dir (.broken operationId) with
    | none =>
      obtain ⟨held, w'', hrecover⟩ := runs_recover (v := v) (p := p) (w := w'.taken p f) World.taken_opened
        hne hd' ((update_of_ne hne.symm _ _).trans (h.locker _)) hc'
        (show w'.dir (.broken operationId) = none by rw [h.dir, hb])
      exact ⟨_, w'', runs_attempts_ok (runs_pass hd' (runs_classify_record kind hd' (h.locker f) hc' howner)
        (.bind hrecover .pure)), rfl⟩
    | some x =>
      obtain ⟨w'', hw''⟩ := runs_attempts_giveUp (v := v) (p := p)
        (fun u hu => runs_pass_kept capability mode hu hd hc hs hb) n last h
      exact ⟨_, w'', hw'', rfl⟩
  | missing =>
    rw [hs] at howner
    exact ⟨_, _, runs_attempts_error (runs_pass hd' (runs_classify_record kind hd' (h.locker f) hc' howner)
      (.bind (runs_leave World.taken_opened) .throw)), rfl⟩
  | untrusted =>
    rw [hs] at howner
    exact ⟨_, _, runs_attempts_error (runs_pass hd' (runs_classify_record kind hd' (h.locker f) hc' howner)
      .throw), rfl⟩

lemma meets_free (h : Rests w w') (hd : w.dir .lock = none) : Meets blake3 kind mode capability operationId v p w'
    (if kind ≠ .root ∧ w.dir .dirLock ≠ none then some .targetLockBusy else none) := by
  intro n last
  obtain ⟨w'', hacquire⟩ := runs_acquire_free (v := v) (p := p) kind (show w'.dir .lock = none by rw [h.dir, hd])
    (h.locker _)
  rw [h.dir] at hacquire
  by_cases hb : kind ≠ .root ∧ w.dir .dirLock ≠ none
  · rw [if_pos hb] at hacquire ⊢
    exact ⟨_, w'', runs_attempts_error (.bind_error hacquire), rfl⟩
  · rw [if_neg hb] at hacquire ⊢
    exact ⟨_, w'', runs_attempts_ok (.bind hacquire .pure), rfl⟩

lemma meets_obtainCode (h : Rests w w') (hn : ∀ n f, w.dir n = some (.file f) → f < w.nextFile) :
    Meets blake3 kind mode capability operationId v p w'
      (obtainCode blake3 kind mode (v.strong && capability) operationId w) := by
  unfold obtainCode
  match hd : w.dir .lock with
  | none => exact meets_free h hd
  | some (.other i) =>
    intro n last
    have hd' : w'.dir .lock = some (.other i) := by rw [h.dir, hd]
    exact ⟨_, w', runs_attempts_error (runs_pass hd' (runs_classify_other kind hd') .throw), rfl⟩
  | some (.file f) =>
    have hd' : w'.dir .lock = some (.file f) := by rw [h.dir, hd]
    dsimp only
    match hc : decode blake3 (w.data f) with
    | .foreign =>
      intro n last
      have hc' : decode blake3 (w'.data f) = .foreign := by rw [h.data, hc]
      exact ⟨_, _, runs_attempts_error (runs_pass hd' (runs_classify_foreign kind hd' (h.locker f) hc') .throw),
        rfl⟩
    | .uncertain why => exact meets_uncertain h hd' (by rw [h.data, hc])
    | .record r => exact meets_record h hd (hn _ _ hd) hc

variable (blake3 kind mode capability operationId) in
lemma runs_obtain (hw : w.Initial) :
    ∃ o w', RunsTo (v.answer p) (obtain blake3 kind capability mode operationId) w o w' ∧
      refusalCode o = obtainCode blake3 kind mode (v.strong && capability) operationId w := by
  have hrest : Rests w { w with asked := update w.asked p (some mode.purpose) } := ⟨rfl, rfl, rfl, rfl, hw.locker⟩
  obtain ⟨o, w', ho, hcode⟩ := meets_obtainCode hrest hw.named 7 .other
  exact ⟨o, w', .bind (runs_raw rfl) ho, hcode⟩

end Obtain

end Runs

end Flux.Lock
