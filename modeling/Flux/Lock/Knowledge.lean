import Flux.Lock.Processes
import Mathlib.Data.Set.Insert

/-! What a process knows of its lock site: facts that no call of another process can change. -/

namespace Flux.Lock

open Base Function

/-- `locked`: handles whose OS lock it has. `path`: those of them whose file is at the lock path. `aside`: those
whose file it moved away, and under which id. `content`: what such a file decodes to. `owns`: handles that
created or overwrote their file. `looked`: what is true of a workspace while the handle's file is at the lock
path. -/
structure Know where
  locked : Set Handle
  path : Set Handle
  aside : Set (Text × Handle)
  content : Set (Handle × Decoded)
  owns : Set Handle
  looked : Set (Handle × Text × Bool)
  request : Option Purpose
  mine : Set Text

section Cause

variable (kind : SiteKind) (present : Text → Bool)

def trusted (r : LockRecord) : Prop :=
  State.isId r.operationId ∧
    (r.workspacePath = noWorkspace ∨ namesWorkspace kind r ∧ present r.workspacePath = true)

def orphaned (r : LockRecord) : Prop :=
  State.isId r.operationId ∧ namesWorkspace kind r ∧ present r.workspacePath = false

def MayMove : Purpose → Decoded → Prop
  | .plain, .record r | .breakLock, .record r => trusted kind present r
  | .cleanup now lease, .record r => leasePast now lease r ∧ (trusted kind present r ∨ orphaned kind present r)
  | _, .uncertain _ | _, .foreign => False

def MayOverwrite : Purpose → Decoded → Prop
  | .breakLock, .uncertain _ => True
  | _, _ => False

end Cause

variable (blake3 : Bytes → Block 32) (kind : SiteKind)

namespace Know

def Saw (k : Know) (h : Handle) (present : Text → Bool) : Prop := ∀ t b, (h, t, b) ∈ k.looked → present t = b

def forget (k : Know) (h : Handle) : Know :=
  { k with
    locked := { x ∈ k.locked | x ≠ h }
    path := { x ∈ k.path | x ≠ h }
    aside := { x ∈ k.aside | x.2 ≠ h }
    content := { x ∈ k.content | x.1 ≠ h }
    looked := { x ∈ k.looked | x.1 ≠ h } }

def allowed (k : Know) : Call → Prop
  | .createLock n => n = .lock
  | .writeAt h bytes => h ∈ k.locked ∧ (∃ r : LockRecord, r.encode blake3 = some bytes) ∧
      (h ∈ k.owns ∨ ∃ purpose d, k.request = some purpose ∧ (h, d) ∈ k.content ∧ MayOverwrite purpose d)
  | .setLen h n => h ∈ k.locked ∧ h ∈ k.owns ∧ n ≤ recordLen
  | .renameNoReplace .lock (.broken operationId) => operationId ∈ k.mine ∧ ∃ h ∈ k.path, h ∉ k.owns ∧ ∃ purpose d,
      k.request = some purpose ∧ (h, d) ∈ k.content ∧ ∀ present, k.Saw h present → MayMove kind present purpose d
  | .renameNoReplace (.broken operationId) .lock => operationId ∈ k.mine ∧ ∃ h, (operationId, h) ∈ k.aside
  | .renameNoReplace _ _ => False
  | .removeFile .lock => ∃ h ∈ k.path, h ∈ k.owns
  | .removeFile (.broken operationId) => operationId ∈ k.mine
  | .removeFile .dirLock => False
  | .setWorkspace _ _ => k.path.Nonempty
  | _ => True

def possible (k : Know) : (c : Call) → Reply c → Prop
  | .createLock _, .ok h => h ∉ k.locked
  | .openLock _, .ok h => h ∉ k.owns
  | .identity h, .ok x => x = .file h.file
  | _, _ => True

def after (k : Know) : (c : Call) → Reply c → Know
  | .request purpose, _ => { k with request := some purpose }
  | .createLock _, .ok h => { k with owns := insert h k.owns }
  | .metadata .lock, .ok x => { k with path := k.path ∪ { h ∈ k.locked | x = .file h.file } }
  | .tryLock h, .ok true => { k with locked := insert h k.locked }
  | .readAll h limit, .ok bytes =>
    { k with content := k.content ∪ { x | x = (h, decode blake3 bytes) ∧ h ∈ k.locked ∧ limit = recordLen } }
  | .writeAt h _, .ok _ => { k with content := { x ∈ k.content | x.1 ≠ h }, owns := insert h k.owns }
  | .writeAt h _, .error _ => { k with content := { x ∈ k.content | x.1 ≠ h } }
  | .setLen h _, _ => { k with content := { x ∈ k.content | x.1 ≠ h } }
  | .renameNoReplace .lock (.broken operationId), .ok _ =>
    { k with path := ∅, aside := k.aside ∪ { x | x.1 = operationId ∧ x.2 ∈ k.path } }
  | .renameNoReplace (.broken operationId) .lock, .ok _ =>
    { k with aside := { x ∈ k.aside | x.1 ≠ operationId }, looked := ∅ }
  | .removeFile .lock, .ok _ => { k with path := ∅ }
  | .removeFile (.broken operationId), .ok _ => { k with aside := { x ∈ k.aside | x.1 ≠ operationId } }
  | .close h, _ => k.forget h
  | .workspacePresent t, .ok b => { k with looked := k.looked ∪ { x | x.1 ∈ k.locked ∧ x.2 = (t, b) } }
  | .setWorkspace _ _, .ok _ => { k with looked := ∅ }
  | _, _ => k

end Know

def rules : Knowledge Call Reply Know where
  allowed := Know.allowed blake3 kind
  possible := Know.possible
  after := Know.after blake3

section

variable {P : Type}

def World.Locks (w : World P) (p : P) (h : Handle) : Prop := w.opened h = some p ∧ w.locker h.file = some h

lemma World.Locks.unique {w : World P} {p q : P} {h h' : Handle} (hl : w.Locks p h) (hl' : w.Locks q h')
    (hf : h.file = h'.file) : h = h' ∧ p = q := by
  have he : h = h' := by
    have := hl.2
    rw [hf, hl'.2] at this
    exact (Option.some.inj this).symm
  refine ⟨he, ?_⟩
  have := hl.1
  rw [he, hl'.1] at this
  exact (Option.some.inj this).symm

variable (owner : Text → P)

structure Agrees (w : World P) (p : P) (k : Know) : Prop where
  locked : ∀ h ∈ k.locked, w.Locks p h
  path : ∀ h ∈ k.path, h ∈ k.locked ∧ w.dir .lock = some (.file h.file)
  aside : ∀ x ∈ k.aside, x.2 ∈ k.locked ∧ w.dir (.broken x.1) = some (.file x.2.file)
  mineAside : ∀ x ∈ k.aside, x.1 ∈ k.mine
  content : ∀ x ∈ k.content, x.1 ∈ k.locked ∧ decode blake3 (w.data x.1.file) = x.2
  owns : ∀ h ∈ k.owns, w.owns h = true
  looked : ∀ x ∈ k.looked, x.1 ∈ k.locked ∧ (w.dir .lock = some (.file x.1.file) → w.present x.2.1 = x.2.2)
  request : k.request = w.asked p
  mine : ∀ operationId, operationId ∈ k.mine ↔ owner operationId = p

structure World.Good (w : World P) : Prop where
  opened : ∀ h p, w.opened h = some p → h.id < w.nextHandle ∧ h.file < w.nextFile
  locker : ∀ f h, w.locker f = some h → h.file = f ∧ ∃ p, w.opened h = some p
  named : ∀ n f, w.dir n = some (.file f) → f < w.nextFile
  numbered : ∀ h, w.owns h = true → h.id < w.nextHandle ∧ h.file < w.nextFile
  owned : ∀ h, w.owns h = true → decode blake3 (w.data h.file) ≠ .foreign

structure Keeps (q : P) (w w' : World P) : Prop where
  locks : ∀ h, w.Locks q h → w'.Locks q h
  path : ∀ h, w.Locks q h → w.dir .lock = some (.file h.file) → w'.dir .lock = some (.file h.file)
  aside : ∀ h, w.Locks q h → ∀ operationId, owner operationId = q →
    w.dir (.broken operationId) = some (.file h.file) → w'.dir (.broken operationId) = some (.file h.file)
  data : ∀ h, w.Locks q h → w'.data h.file = w.data h.file
  owns : ∀ h, w.owns h = true → w'.owns h = true
  present : ∀ h, w.Locks q h → w'.dir .lock = some (.file h.file) →
    w.dir .lock = some (.file h.file) ∧ w'.present = w.present
  asked : w'.asked q = w.asked q

variable {blake3 owner} {w w' : World P} {p q : P} {k l : Know}

lemma Keeps.refl (owner : Text → P) (q : P) (w : World P) : Keeps owner q w w :=
  ⟨fun _ h => h, fun _ _ h => h, fun _ _ _ _ h => h, fun _ _ => rfl, fun _ h => h, fun _ _ h => ⟨h, rfl⟩, rfl⟩

lemma Agrees.keeps (ha : Agrees blake3 owner w q k) (hk : Keeps owner q w w') : Agrees blake3 owner w' q k where
  locked := fun h hh => hk.locks h (ha.locked h hh)
  path := fun h hh => ⟨(ha.path h hh).1, hk.path h (ha.locked h (ha.path h hh).1) (ha.path h hh).2⟩
  aside := fun x hx => ⟨(ha.aside x hx).1,
    hk.aside _ (ha.locked _ (ha.aside x hx).1) _ ((ha.mine _).1 (ha.mineAside x hx)) (ha.aside x hx).2⟩
  mineAside := ha.mineAside
  content := fun x hx => by
    obtain ⟨hl, hd⟩ := ha.content x hx
    rw [hk.data _ (ha.locked _ hl)]
    exact ⟨hl, hd⟩
  owns := fun h hh => hk.owns h (ha.owns h hh)
  looked := fun x hx => by
    obtain ⟨hl, hp⟩ := ha.looked x hx
    refine ⟨hl, fun hd => ?_⟩
    obtain ⟨hd', he⟩ := hk.present _ (ha.locked _ hl) hd
    rw [he]
    exact hp hd'
  request := ha.request.trans hk.asked.symm
  mine := ha.mine

end

end Flux.Lock
