import Flux.Base.Program
import Mathlib.Logic.Function.Basic
import Mathlib.Logic.Relation

/-! Processes whose calls on a shared state interleave, and what each knows as an invariant of all runs. -/

namespace Base

universe u

/-- `exec` is the effect of a call, `crash` that of a process's death, `environment` that of anything else. A
process in mode `m` may begin a program, which ends in a mode; `label` is the mode it is in after a call. -/
structure Machine (σ P C : Type) (R : C → Type) (M : Type) where
  exec : P → (c : C) → σ → R c → σ → Prop
  crash : P → σ → σ → Prop
  environment : σ → σ → Prop
  starts : P → M → M → Prog C R M → Prop
  label : M → (c : C) → R c → M

inductive Control (C : Type) (R : C → Type) (M : Type) where
  | idle (m : M)
  | running (m : M) (x : Prog C R M)
  | dead

namespace Machine

variable {σ P C : Type} {R : C → Type} {M : Type} [DecidableEq P]

structure State (machine : Machine σ P C R M) where
  shared : σ
  control : P → Control C R M

variable (machine : Machine σ P C R M)

inductive Step : machine.State → machine.State → Prop
  | start {s : machine.State} {p : P} {m m' : M} {x : Prog C R M} (at_rest : s.control p = .idle m)
    (starts : machine.starts p m m' x) : Step s ⟨s.shared, Function.update s.control p (.running m' x)⟩
  | call {s : machine.State} {p : P} {m : M} {c : C} {f : R c → Prog C R M} {r : R c} {shared : σ}
    (at_call : s.control p = .running m (.call c f)) (exec : machine.exec p c s.shared r shared) :
    Step s ⟨shared, Function.update s.control p (.running (machine.label m c r) (f r))⟩
  | finish {s : machine.State} {p : P} {m m' : M} (at_end : s.control p = .running m (.ret m')) :
    Step s ⟨s.shared, Function.update s.control p (.idle m')⟩
  | crash {s : machine.State} {p : P} {shared : σ} (crash : machine.crash p s.shared shared) :
    Step s ⟨shared, Function.update s.control p .dead⟩
  | environment {s : machine.State} {shared : σ} (environment : machine.environment s.shared shared) :
    Step s ⟨shared, s.control⟩

def Calls (p : P) (s s' : machine.State) : Prop :=
  ∃ (m : M) (c : C) (f : R c → Prog C R M) (r : R c), s.control p = .running m (.call c f) ∧
    machine.exec p c s.shared r s'.shared ∧ s'.control = Function.update s.control p
      (.running (machine.label m c r) (f r))

inductive Reachable (init : σ → Prop) (first : M) : machine.State → Prop
  | init {shared : σ} (h : init shared) : Reachable init first ⟨shared, fun _ => .idle first⟩
  | step {s s' : machine.State} (reachable : Reachable init first s) (step : machine.Step s s') :
    Reachable init first s'

inductive Runs (p : P) : M → σ → Prog C R M → M → σ → Prop
  | ret {m m' : M} {shared : σ} : Runs p m shared (.ret m') m' shared
  | call {m m' : M} {shared shared' shared'' : σ} {c : C} {r : R c} {f : R c → Prog C R M}
    (exec : machine.exec p c shared r shared') (rest : Runs p (machine.label m c r) shared' (f r) m' shared'') :
    Runs p m shared (.call c f) m' shared''

variable {machine}

def StepOf (machine : Machine σ P C R M) (p : P) (s s' : machine.State) : Prop :=
  machine.Step s s' ∧ ∀ q, q ≠ p → s'.control q = s.control q

variable {p : P} {shared' : σ} {x : Prog C R M} {control : P → Control C R M} {init : σ → Prop}

lemma Step.of (machine : Machine σ P C R M) {s : machine.State} {shared : σ} {x : Control C R M}
    (h : machine.Step s ⟨shared, Function.update s.control p x⟩) :
    machine.StepOf p s ⟨shared, Function.update s.control p x⟩ :=
  ⟨h, fun _ hq => Function.update_of_ne hq ..⟩

lemma Runs.steps {m m' : M} {shared : σ} (h : machine.Runs p m shared x m' shared')
    (hp : control p = .running m x) :
    Relation.ReflTransGen (machine.StepOf p) ⟨shared, control⟩ ⟨shared',
      Function.update control p (.idle m')⟩ := by
  induction h generalizing control with
  | ret => exact .single (Step.of machine (.finish (s := ⟨_, control⟩) hp))
  | @call m m' shared _ _ c r f exec rest ih =>
    refine .head (Step.of machine (.call (s := ⟨shared, control⟩) hp exec)) ?_
    simpa only [Function.update_idem] using ih (Function.update_self ..)

lemma Runs.from_start {m m' m'' : M} {shared : σ} (hp : control p = .idle m) (hx : machine.starts p m m' x)
    (h : machine.Runs p m' shared x m'' shared') :
    Relation.ReflTransGen (machine.StepOf p) ⟨shared, control⟩ ⟨shared',
      Function.update control p (.idle m'')⟩ := by
  refine .head (Step.of machine (.start (s := ⟨shared, control⟩) hp hx)) ?_
  simpa only [Function.update_idem] using h.steps (Function.update_self ..)

lemma Reachable.steps {first : M} {s s' : machine.State} (hs : machine.Reachable init first s)
    (h : Relation.ReflTransGen (machine.StepOf p) s s') : machine.Reachable init first s' := by
  induction h with
  | refl => exact hs
  | tail _ step ih => exact ih.step step.1

lemma Reachable.run {first m m' m'' : M} {shared : σ} (hs : machine.Reachable init first ⟨shared, control⟩)
    (hp : control p = .idle m) (hx : machine.starts p m m' x) (h : machine.Runs p m' shared x m'' shared') :
    machine.Reachable init first ⟨shared', Function.update control p (.idle m'')⟩ :=
  hs.steps (Runs.from_start hp hx h)

variable (machine)

/-- What a process knows (`agrees`) survives the calls and the crashes of every other one, its own calls turn it
into what `after` says, and every program it begins keeps to the allowed calls. -/
structure Discipline (K : Type u) where
  rules : Knowledge C R K
  good : σ → Prop
  agrees : σ → P → K → Prop
  holds : M → K → Prop
  exec_own {p : P} {c : C} {s s' : σ} {r : R c} {k : K} : good s → agrees s p k → rules.allowed k c →
    machine.exec p c s r s' → good s' ∧ rules.possible k c r ∧ agrees s' p (rules.after k c r)
  exec_other {p q : P} {c : C} {s s' : σ} {r : R c} {k l : K} : good s → agrees s p k → rules.allowed k c →
    machine.exec p c s r s' → q ≠ p → agrees s q l → agrees s' q l
  label_holds {s : σ} {p : P} {m : M} {c : C} {r : R c} {k : K} : agrees s p k → holds m k → rules.allowed k c →
    rules.possible k c r → holds (machine.label m c r) (rules.after k c r)
  starts_wp {p : P} {m m' : M} {x : Prog C R M} {s : σ} {k : K} : agrees s p k → holds m k →
    machine.starts p m m' x → holds m' k ∧ rules.wp x holds k
  crash_other {p : P} {s s' : σ} : good s → machine.crash p s s' →
    good s' ∧ ∀ q ≠ p, ∀ l, agrees s q l → agrees s' q l
  environment_all {s s' : σ} : good s → machine.environment s s' → good s' ∧ ∀ q l, agrees s q l → agrees s' q l

namespace Discipline

variable {machine} {K : Type u} (D : machine.Discipline K)

def Fits (k : K) : Control C R M → Prop
  | .idle m => D.holds m k
  | .running m x => D.holds m k ∧ D.rules.wp x D.holds k
  | .dead => True

def Inv (s : machine.State) : Prop :=
  D.good s.shared ∧ ∀ p, s.control p = .dead ∨ ∃ k, D.agrees s.shared p k ∧ D.Fits k (s.control p)

variable {D} {s s' : machine.State}

lemma inv_update {shared : σ} {control : Control C R M} (hg : D.good shared)
    (hp : control = .dead ∨ ∃ k, D.agrees shared p k ∧ D.Fits k control)
    (ho : ∀ q ≠ p, s.control q = .dead ∨ ∃ k, D.agrees shared q k ∧ D.Fits k (s.control q)) :
    D.Inv ⟨shared, Function.update s.control p control⟩ := by
  refine ⟨hg, fun q => ?_⟩
  by_cases hq : q = p
  · subst hq
    simpa only [Function.update_self] using hp
  · simpa only [Function.update_of_ne hq] using ho q hq

omit [DecidableEq P] in
lemma others {shared : σ} (h : D.Inv s) (hs : ∀ q ≠ p, ∀ l, D.agrees s.shared q l → D.agrees shared q l) :
    ∀ q ≠ p, s.control q = .dead ∨ ∃ k, D.agrees shared q k ∧ D.Fits k (s.control q) := fun q hq =>
  (h.2 q).imp_right fun ⟨k, hk, hf⟩ => ⟨k, hs q hq k hk, hf⟩

omit [DecidableEq P] in
lemma inv_running {m : M} (h : D.Inv s) (hc : s.control p = .running m x) :
    ∃ k, D.agrees s.shared p k ∧ D.holds m k ∧ D.rules.wp x D.holds k := by
  rcases h.2 p with hd | ⟨k, hk, hf⟩
  · rw [hc] at hd
    cases hd
  · rw [hc] at hf
    exact ⟨k, hk, hf⟩

lemma inv_step (h : D.Inv s) (step : machine.Step s s') : D.Inv s' := by
  cases step with
  | @start p m m' x at_rest starts =>
    refine inv_update h.1 (.inr ?_) (others h fun _ _ _ hl => hl)
    rcases h.2 p with hd | ⟨k, hk, hf⟩
    · rw [at_rest] at hd
      cases hd
    · rw [at_rest] at hf
      exact ⟨k, hk, D.starts_wp hk hf starts⟩
  | call at_call exec =>
    obtain ⟨k, hk, hm, hallow, hx⟩ := inv_running h at_call
    obtain ⟨hg, hr, hk'⟩ := D.exec_own h.1 hk hallow exec
    exact inv_update hg (.inr ⟨_, hk', D.label_holds hk hm hallow hr, hx _ hr⟩)
      (others h fun q hq l hl => D.exec_other h.1 hk hallow exec hq hl)
  | finish at_end =>
    obtain ⟨k, hk, -, hx⟩ := inv_running h at_end
    exact inv_update h.1 (.inr ⟨k, hk, hx⟩) (others h fun _ _ _ hl => hl)
  | crash crash =>
    obtain ⟨hg, hl⟩ := D.crash_other h.1 crash
    exact inv_update hg (.inl rfl) (others h hl)
  | environment environment =>
    obtain ⟨hg, hl⟩ := D.environment_all h.1 environment
    exact ⟨hg, fun q => (h.2 q).imp_right fun ⟨k, hk, hf⟩ => ⟨k, hl q k hk, hf⟩⟩

theorem inv_reachable {first : M} (hinit : ∀ shared, init shared →
    D.good shared ∧ ∀ p, ∃ k, D.agrees shared p k ∧ D.holds first k) (h : machine.Reachable init first s) :
    D.Inv s := by
  induction h with
  | init h => exact ⟨(hinit _ h).1, fun p => .inr ((hinit _ h).2 p)⟩
  | step _ step ih => exact inv_step ih step

end Discipline

end Machine

end Base
