import Flux.Base.Program

namespace Base

variable {C : Type} {R : C → Type} {σ α β ε : Type}

namespace Prog

def against (answer : (c : C) → σ → Option (R c × σ)) : Prog C R α → σ → Option (α × σ)
  | ret a, s => some (a, s)
  | call c k, s =>
    match answer c s with
    | some (r, s') => (k r).against answer s'
    | none => none

lemma against_bind (answer : (c : C) → σ → Option (R c × σ)) (x : Prog C R α) (f : α → Prog C R β) (s : σ) :
    (x >>= f).against answer s = (x.against answer s).bind fun r => (f r.1).against answer r.2 := by
  induction x generalizing s with
  | ret a => rfl
  | call c k ih =>
    change against answer (call c fun r => (k r).bind f) s = _
    rw [against, against]
    cases answer c s with
    | none => rfl
    | some r => exact ih r.1 r.2

end Prog

def RunsTo (answer : (c : C) → σ → Option (R c × σ)) (x : ExceptT ε (Prog C R) α) (s : σ)
    (r : Except ε α) (s' : σ) : Prop :=
  x.run.against answer s = some (r, s')

namespace RunsTo

variable {answer : (c : C) → σ → Option (R c × σ)} {s s' s'' : σ} {x : ExceptT ε (Prog C R) α}
  {f : α → ExceptT ε (Prog C R) β} {g : ε → ExceptT ε (Prog C R) α} {a : α} {e : ε}

lemma unique {r r' : Except ε α} (h : RunsTo answer x s r s') (h' : RunsTo answer x s r' s'') :
    r' = r ∧ s'' = s' :=
  Prod.mk.inj (Option.some.inj (h'.symm.trans h))

lemma pure : RunsTo answer (pure a : ExceptT ε (Prog C R) α) s (.ok a) s := rfl

lemma throw : RunsTo answer (throw e : ExceptT ε (Prog C R) α) s (.error e) s := rfl

lemma perform {c : C} {r : R c} (h : answer c s = some (r, s')) :
    RunsTo answer (liftM (Prog.perform c) : ExceptT ε (Prog C R) (R c)) s (.ok r) s' := by
  change (Prog.call c fun r => Prog.ret (Except.ok r)).against answer s = _
  rw [Prog.against, h]
  rfl

lemma bind {r : Except ε β} (hx : RunsTo answer x s (.ok a) s') (hf : RunsTo answer (f a) s' r s'') :
    RunsTo answer (x >>= f) s r s'' := by
  change (x.run >>= ExceptT.bindCont f).against answer s = _
  rw [Prog.against_bind, show x.run.against answer s = some (.ok a, s') from hx]
  exact hf

lemma bind_error (hx : RunsTo answer x s (.error e) s') : RunsTo answer (x >>= f) s (.error e) s' := by
  change (x.run >>= ExceptT.bindCont f).against answer s = _
  rw [Prog.against_bind, show x.run.against answer s = some (.error e, s') from hx]
  rfl

lemma tryCatch (hx : RunsTo answer x s (.ok a) s') : RunsTo answer (tryCatch x g) s (.ok a) s' := by
  change (x.run >>= _).against answer s = _
  rw [Prog.against_bind, show x.run.against answer s = some (.ok a, s') from hx]
  rfl

end RunsTo

end Base
