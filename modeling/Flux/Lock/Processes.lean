import Flux.Lock.Obtain

namespace Flux.Lock

open Base

inductive Phase where
  | none
  | holding (held : Held)
  | claimed (c : Claimed)
  deriving DecidableEq, Repr

def thenPhase {α : Type} (x : Act α) (ok : α → Phase) (failed : Phase) : Prog Call Reply Phase := do
  match ← x.run with
  | .ok a => return ok a
  | .error _ => return failed

def Obtained.phase : Obtained → Phase
  | .held h _ => .holding h
  | .claimed c => .claimed c

def Overwritten.phase : Overwritten → Phase
  | .held h => .holding h
  | .restart => .none

def Phase.after : Phase → (c : Call) → Reply c → Phase
  | .claimed _, _, _ => .none
  | .holding _, .removeFile .lock, .ok _ => .none
  | .holding held, .close h, _ => if h = held.lock then .none else .holding held
  | phase, _, _ => phase

section

variable (blake3 : Bytes → Block 32) (kind : SiteKind) {P : Type} (owner : Text → P)

/-- The programs a process may begin, with operation ids of its own: any way to obtain the lock, then any use of
what it got. Only a process that holds or claims the lock creates or removes a workspace. -/
inductive Starts (p : P) : Phase → Phase → Prog Call Reply Phase → Prop
  | obtain (capability : Bool) (mode : Mode) (operationId : Text) (mine : owner operationId = p) :
    Starts p .none .none (thenPhase (obtain blake3 kind capability mode operationId) Obtained.phase .none)
  | cleanup (operationId : Text) (now lease : UInt64) (mine : owner operationId = p) :
    Starts p .none .none
      (thenPhase (obtainCleanupLock blake3 kind operationId now lease) (fun o => .holding o.held) .none)
  | createState (c : Claimed) (path : Text) (there : Bool) :
    Starts p (.claimed c) .none
      (thenPhase (raw (.setWorkspace path there)) (fun _ => .claimed c) (.claimed c))
  | overwrite (c : Claimed) (r : LockRecord) :
    Starts p (.claimed c) .none (thenPhase (c.overwrite blake3 r) Overwritten.phase .none)
  | unclaim (c : Claimed) : Starts p (.claimed c) .none (thenPhase (leave c.lock ()) (fun _ => .none) .none)
  | writeRecord (held : Held) (r : LockRecord) :
    Starts p (.holding held) (.holding held) (thenPhase (held.writeRecord blake3 r) .holding (.holding held))
  | rewriteRecord (held : Held) (r : LockRecord) :
    Starts p (.holding held) (.holding held) (thenPhase (held.rewriteRecord blake3 r) .holding (.holding held))
  | heartbeat (held : Held) (now : UInt64) :
    Starts p (.holding held) (.holding held) (thenPhase (held.heartbeat blake3 now) .holding (.holding held))
  | stillOwned (held : Held) :
    Starts p (.holding held) (.holding held)
      (thenPhase (held.stillOwned blake3) (fun _ => .holding held) (.holding held))
  | setWorkspace (held : Held) (path : Text) (there : Bool) :
    Starts p (.holding held) (.holding held)
      (thenPhase (raw (.setWorkspace path there)) (fun _ => .holding held) (.holding held))
  | release (held : Held) :
    Starts p (.holding held) (.holding held) (thenPhase (held.release blake3) (fun _ => .none) .none)
  | discard (held : Held) : Starts p (.holding held) (.holding held)
    (thenPhase held.discard (fun _ => .none) .none)
  | drop (held : Held) :
    Starts p (.holding held) (.holding held) (thenPhase (leave held.lock ()) (fun _ => .none) .none)

variable [DecidableEq P]

def processes : Machine (World P) P Call Reply Phase where
  exec := Exec
  crash := fun p w w' => w' = w.crashed p
  environment := Environment
  starts := Starts blake3 kind owner
  label := Phase.after

end

structure World.Initial {P : Type} (w : World P) : Prop where
  named : ∀ n f, w.dir n = some (.file f) → f < w.nextFile
  opened : ∀ h, w.opened h = none
  locker : ∀ f, w.locker f = none
  owns : ∀ h, w.owns h = false

end Flux.Lock
