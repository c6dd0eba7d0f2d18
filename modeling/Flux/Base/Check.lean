import Mathlib.Data.Option.Basic

namespace Base

universe u v

variable {ε : Type v} {α β : Type u}

lemma bind_eq_ok {x : Except ε α} {f : α → Except ε β} {b : β} :
    (x >>= f) = .ok b ↔ ∃ a, x = .ok a ∧ f a = .ok b := by
  cases x <;> simp [bind, Except.bind]

def check (c : Prop) [Decidable c] (reason : ε) : Except ε Unit := if c then .ok () else .error reason

def checkAll (f : α → Except ε Unit) : List α → Except ε Unit
  | [] => .ok ()
  | a :: l => f a >>= fun _ => checkAll f l

def checkSome (f : α → Except ε Unit) : Option α → Except ε Unit
  | none => .ok ()
  | some a => f a

@[simp] lemma check_eq_ok {c : Prop} [Decidable c] {reason : ε} : check c reason = .ok () ↔ c := by
  by_cases h : c <;> simp [check, h]

@[simp] lemma checks_eq_ok {x : Except ε Unit} {f : Unit → Except ε Unit} :
    (x >>= f) = .ok () ↔ x = .ok () ∧ f () = .ok () := by
  cases x <;> simp [bind, Except.bind]

lemma checks_of_ok {x : Except ε Unit} {f : Unit → Except ε Unit} (h : x = .ok ()) : (x >>= f) = f () := by
  rw [h]
  rfl

@[simp] lemma checkAll_eq_ok {f : α → Except ε Unit} {l : List α} :
    checkAll f l = .ok () ↔ ∀ a ∈ l, f a = .ok () := by
  induction l with
  | nil => simp [checkAll]
  | cons a l ih => simp [checkAll, ih]

@[simp] lemma checkSome_eq_ok {f : α → Except ε Unit} {o : Option α} :
    checkSome f o = .ok () ↔ ∀ a ∈ o, f a = .ok () := by
  cases o <;> simp [checkSome]

end Base
