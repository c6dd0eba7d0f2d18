import Mathlib.Tactic.Common

/-! Programs that make calls on a shared state, one at a time, and a calculus of what such a program knows. -/

namespace Base

universe u

inductive Prog (C : Type) (R : C → Type) (α : Type) where
  | ret (a : α)
  | call (c : C) (k : R c → Prog C R α)

namespace Prog

variable {C : Type} {R : C → Type} {α β : Type}

def bind : Prog C R α → (α → Prog C R β) → Prog C R β
  | ret a, f => f a
  | call c k, f => call c fun r => (k r).bind f

instance : Monad (Prog C R) where
  pure := ret
  bind := bind

def perform (c : C) : Prog C R (R c) := call c ret

end Prog

/-- What a process knows, and how one of its own calls changes that: which calls it may make, which replies it
can get, and what it knows after one. -/
structure Knowledge (C : Type) (R : C → Type) (K : Type u) where
  allowed : K → C → Prop
  possible : K → (c : C) → R c → Prop
  after : K → (c : C) → R c → K

namespace Knowledge

variable {C : Type} {R : C → Type} {K : Type u} {α β : Type} (L : Knowledge C R K)

def wp : Prog C R α → (α → K → Prop) → K → Prop
  | .ret a, Q, k => Q a k
  | .call c f, Q, k => L.allowed k c ∧ ∀ r, L.possible k c r → wp (f r) Q (L.after k c r)

variable {L} {Q Q' : α → K → Prop} {k : K}

lemma wp_call {c : C} {f : R c → Prog C R α} :
    L.wp (.call c f) Q k ↔ L.allowed k c ∧ ∀ r, L.possible k c r → L.wp (f r) Q (L.after k c r) := Iff.rfl

@[simp] lemma wp_bind {x : Prog C R α} {f : α → Prog C R β} {Q : β → K → Prop} :
    L.wp (x >>= f) Q k ↔ L.wp x (fun a k' => L.wp (f a) Q k') k := by
  induction x generalizing k with
  | ret a => rfl
  | call c g ih =>
    change (_ ∧ ∀ r, _ → L.wp (g r >>= f) Q _) ↔ _
    simp only [ih, wp_call]

lemma wp_mono {x : Prog C R α} (h : ∀ a k', Q a k' → Q' a k') (hx : L.wp x Q k) : L.wp x Q' k := by
  induction x generalizing k with
  | ret a => exact h a k hx
  | call c g ih => exact ⟨hx.1, fun r hr => ih r (hx.2 r hr)⟩

section Fallible

variable {ε : Type} {E E' : ε → K → Prop}

def either (Q : α → K → Prop) (E : ε → K → Prop) : Except ε α → K → Prop
  | .ok a => Q a
  | .error e => E e

def wpE (L : Knowledge C R K) (x : ExceptT ε (Prog C R) α) (Q : α → K → Prop) (E : ε → K → Prop) (k : K) : Prop :=
  L.wp x.run (either Q E) k

@[simp] lemma wpE_pure {a : α} : L.wpE (pure a : ExceptT ε (Prog C R) α) Q E k ↔ Q a k := Iff.rfl

@[simp] lemma wpE_throw {e : ε} : L.wpE (throw e : ExceptT ε (Prog C R) α) Q E k ↔ E e k := Iff.rfl

@[simp] lemma wpE_lift {x : Prog C R α} : L.wpE (liftM x : ExceptT ε (Prog C R) α) Q E k ↔ L.wp x Q k := by
  change L.wp (x >>= fun a => pure (Except.ok a)) _ k ↔ _
  rw [wp_bind]
  rfl

variable {x : ExceptT ε (Prog C R) α}

@[simp] lemma wpE_bind {f : α → ExceptT ε (Prog C R) β} {Q : β → K → Prop} :
    L.wpE (x >>= f) Q E k ↔ L.wpE x (fun a k' => L.wpE (f a) Q E k') E k := by
  change L.wp (x.run >>= ExceptT.bindCont f) _ k ↔ L.wp x.run _ k
  rw [wp_bind]
  constructor <;> refine wp_mono fun r k' h => ?_ <;> cases r <;> exact h

@[simp] lemma wpE_tryCatch {f : ε → ExceptT ε (Prog C R) α} :
    L.wpE (tryCatch x f) Q E k ↔ L.wpE x Q (fun e k' => L.wpE (f e) Q E k') k := by
  change L.wp (x.run >>= _) _ k ↔ L.wp x.run _ k
  rw [wp_bind]
  constructor <;> refine wp_mono fun r k' h => ?_ <;> cases r <;> exact h

lemma wpE_mono (hx : L.wpE x Q E k) (hq : ∀ a k', Q a k' → Q' a k') (he : ∀ e k', E e k' → E' e k') :
    L.wpE x Q' E' k :=
  wp_mono (fun r k' h => by cases r with
    | error e => exact he e k' h
    | ok a => exact hq a k' h) hx

end Fallible

end Knowledge

end Base
