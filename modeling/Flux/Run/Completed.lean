import Flux.Run.Swept
import Flux.State.Native
import Mathlib.Data.List.Infix

/-! The end of a completed operation: its recorded leftovers go, then its state. -/

namespace Flux.Run

open Base Walk State

open UnixPath (components push dot)

inductive ArtifactProblem where
  | notHex | absolute | badComponent | notThisOperationsPartial
  deriving DecidableEq, Repr

def normalNames : List UnixPath.Component → Except ArtifactProblem (List Bytes)
  | [] => .ok []
  | .rootDir :: _ => .error .absolute
  | .curDir :: _ | .parentDir :: _ => .error .badComponent
  | .normal name :: rest => do
    let names ← normalNames rest
    pure (name :: names)

def okOr (problem : ArtifactProblem) {α : Type} : Option α → Except ArtifactProblem α
  | none => .error problem
  | some a => .ok a

def validate (text operationId : Text) : Except ArtifactProblem Bytes := do
  let path ← okOr .notHex (Unix.fromNativeHex text)
  let names ← normalNames (components path)
  -- `components` drops an inner `.`, which the names pushed again do not have.
  Base.check (names.foldl push [] = path) ArtifactProblem.badComponent
  let last ← okOr .badComponent names.getLast?
  Base.check (idAfter last Verify.partialInfix = some operationId) ArtifactProblem.notThisOperationsPartial
  pure path

def iter (rel : Bytes) : Path := (components rel).map UnixPath.Component.text

def join (shown : Path) (rel : Bytes) : Path := (if UnixPath.hasRoot rel then [] else shown) ++ iter rel

def artifacts (s : OperationState) : List Text :=
  match s.cleanup with
  | some c => c.cleanupPendingArtifacts
  | none => []

section Finish

variable (destShown operationsShown : Path)

end Finish

structure Leftover (operationId : Text) (names : Path) : Prop where
  proper : ∀ n ∈ names, EntryName n
  own : ∃ last ∈ names.getLast?, idAfter last Verify.partialInfix = some operationId

variable {id : Text}

lemma Leftover.ne_nil {names : Path} (h : Leftover id names) : names ≠ [] := by
  rintro rfl
  obtain ⟨last, hlast, -⟩ := h.own
  cases hlast

/-- At every path there is what was there, a leaf of the same kind or a directory with the same identity, unless
it is one of `P`, was a file or a link, and is gone. -/
def Pruned (P : Path → Prop) (tree tree' : Folder) : Prop :=
  ∀ q, (tree'.at q).map Node.head = (tree.at q).map Node.head ∨
    P q ∧ tree'.at q = none ∧ (tree.at q = some (.leaf .file) ∨ tree.at q = some (.leaf .symlink))

lemma map_head_leaf {n : Option Node} {kind : Leaf} :
    n.map Node.head = some (.inl kind) ↔ n = some (.leaf kind) := by
  rcases n with - | kind' | ⟨identity, mount, sub⟩ <;> simp [Node.head]

namespace Pruned

variable {P Q : Path → Prop} {a b c : Folder}

lemma refl (tree : Folder) : Pruned P tree tree := fun _ => .inl rfl

lemma trans (h : Pruned P a b) (h' : Pruned P b c) : Pruned P a c := by
  intro q
  obtain hab | ⟨hp, hb, ha⟩ := h q
  · obtain hbc | ⟨hp, hc, hb⟩ := h' q
    · exact .inl (hbc.trans hab)
    · -- what goes in the second step was there before the first
      refine .inr ⟨hp, hc, hb.imp (fun hb => ?_) fun hb => ?_⟩
      · exact map_head_leaf.mp (hab.symm.trans (map_head_leaf.mpr hb))
      · exact map_head_leaf.mp (hab.symm.trans (map_head_leaf.mpr hb))
  · obtain hbc | ⟨-, hc, -⟩ := h' q
    · rw [hb] at hbc
      exact .inr ⟨hp, Option.map_eq_none_iff.mp hbc, ha⟩
    · exact .inr ⟨hp, hc, ha⟩

lemma imp (h : Pruned P a b) (hpq : ∀ q, P q → Q q) : Pruned Q a b :=
  fun q => (h q).imp_right fun hq => ⟨hpq q hq.1, hq.2⟩

lemma fewer (h : Pruned P a b) : Fewer a b := by
  intro q kind hq
  obtain he | ⟨-, hnone, -⟩ := h q
  · exact map_head_leaf.mp (he.symm.trans (map_head_leaf.mpr hq))
  · cases hnone.symm.trans hq

end Pruned

section Runs

variable {clean : Folder → Text → Prop} {w : World}

structure Idle (w w' : World) : Prop extends Same w w' where
  faults : w'.faults = w.faults

lemma Idle.trans {w' w'' : World} (h : Idle w w') (h' : Idle w' w'') : Idle w w'' :=
  ⟨h.toSame.trans h'.toSame, h'.faults.trans h.faults⟩

variable {path : Path}

variable {destShown operationsShown : Path}

end Runs

def Recorded (s : OperationState) (names : Path) : Prop :=
  Leftover s.operationId names ∧ hex ([slash].intercalate names) ∈ artifacts s

end Flux.Run
