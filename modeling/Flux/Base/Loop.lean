import Mathlib.Data.List.Range

/-! Computations that return, fail or never end, loops over them, and total correctness. -/

namespace Base

/-- A computation that returns a value, fails, or (`none`) panics. -/
abbrev Attempt (ε α : Type) := ExceptT ε Option α

variable {σ ε α β : Type}

instance Attempt.nonempty : Nonempty (Attempt ε α) := ⟨(none : Option (Except ε α))⟩

def GoesOn (body : σ → Attempt ε (σ ⊕ β)) (t s : σ) : Prop := (body s).run = some (.ok (.inl t))

def loopRound (body : σ → Attempt ε (σ ⊕ β)) (s : σ) (again : ∀ t, GoesOn body t s → Attempt ε β) : Attempt ε β :=
  match h : (body s).run with
  | some (.ok (.inl t)) => again t h
  | some (.ok (.inr b)) => pure b
  | some (.error e) => throw e
  | none => none

def loop (body : σ → Attempt ε (σ ⊕ β)) : σ → Attempt ε β :=
  WellFounded.partialExtrinsicFix (GoesOn body) (loopRound body)

inductive LoopsTo (body : σ → Attempt ε (σ ⊕ β)) (b : β) : σ → Prop
  | leave {s : σ} : body s = pure (.inr b) → LoopsTo body b s
  | again {s t : σ} : body s = pure (.inl t) → LoopsTo body b t → LoopsTo body b s

variable {s : σ}

variable {body : σ → Attempt ε (σ ⊕ β)}

lemma loopRound_pure {r : σ ⊕ β} {again : ∀ t, GoesOn body t s → Attempt ε β} (h : body s = pure r) :
    loopRound body s again = match r, h with
      | .inl t, h => again t h
      | .inr b, _ => pure b := by
  rw [loopRound]
  split
  · rename_i t ht
    obtain rfl : r = .inl t := Except.ok.inj (Option.some.inj (h.symm.trans ht))
    rfl
  · rename_i b hb
    obtain rfl : r = .inr b := Except.ok.inj (Option.some.inj (h.symm.trans hb))
    rfl
  · rename_i e he
    cases h.symm.trans he
  · rename_i hn
    cases h.symm.trans hn

lemma LoopsTo.acc {b : β} (h : LoopsTo body b s) : Acc (GoesOn body) s := by
  induction h with
  | leave hb =>
    refine ⟨_, fun t ht => ?_⟩
    cases Except.ok.inj (Option.some.inj (hb.symm.trans ht))
  | again ht _ ih =>
    refine ⟨_, fun t' ht' => ?_⟩
    cases Except.ok.inj (Option.some.inj (ht.symm.trans ht'))
    exact ih

lemma LoopsTo.loop_eq {b : β} (h : LoopsTo body b s) : loop body s = pure b := by
  induction h with
  | leave hb =>
    rw [loop, WellFounded.partialExtrinsicFix_eq_apply_of_acc (LoopsTo.leave hb).acc, loopRound_pure hb]
  | again ht hrest ih =>
    rw [loop, WellFounded.partialExtrinsicFix_eq_apply_of_acc (LoopsTo.again ht hrest).acc, loopRound_pure ht]
    exact ih

def Returns (x : Attempt ε α) (post : α → Prop) : Prop := ∃ a, x = pure a ∧ post a

namespace Returns

variable {x : Attempt ε α} {f : α → Attempt ε β} {post : α → Prop} {post' : β → Prop}

lemma pure {a : α} (h : post a) : Returns (pure a : Attempt ε α) post := ⟨a, rfl, h⟩

lemma bind (hx : Returns x post) (hf : ∀ a, post a → Returns (f a) post') : Returns (x >>= f) post' := by
  obtain ⟨a, rfl, ha⟩ := hx
  rw [pure_bind]
  exact hf a ha

lemma imp {post' : α → Prop} (hx : Returns x post) (h : ∀ a, post a → post' a) : Returns x post' := by
  obtain ⟨a, hx, ha⟩ := hx
  exact ⟨a, hx, h a ha⟩

lemma of_eq {a : α} (hx : Returns x post) (h : x = Pure.pure a) : post a := by
  obtain ⟨b, hb, hpost⟩ := hx
  obtain rfl : b = a := Except.ok.inj (Option.some.inj (hb.symm.trans h))
  exact hpost

end Returns

def IfReturns (x : Attempt ε α) (post : α → Prop) : Prop := ∀ a, x = pure a → post a

namespace IfReturns

variable {x : Attempt ε α} {f : α → Attempt ε β} {post : α → Prop} {post' : β → Prop}

lemma pure {a : α} (h : post a) : IfReturns (pure a : Attempt ε α) post := by
  intro b hb
  obtain rfl : a = b := Except.ok.inj (Option.some.inj hb)
  exact h

lemma none : IfReturns (ExceptT.mk none : Attempt ε α) post := fun _ h => by cases h

lemma bind (hx : IfReturns x post) (hf : ∀ a, post a → IfReturns (f a) post') : IfReturns (x >>= f) post' := by
  intro b hb
  rcases hr : x.run with _ | (e | a)
  · have hn : (x >>= f) = (ExceptT.mk Option.none : Attempt ε β) := congrArg (· >>= ExceptT.bindCont f) hr
    exact absurd (hn.symm.trans hb) (fun h => by cases h)
  · have hn : (x >>= f) = (throw e : Attempt ε β) := congrArg (· >>= ExceptT.bindCont f) hr
    exact absurd (hn.symm.trans hb) (fun h => by cases h)
  · have hn : (x >>= f) = f a := congrArg (· >>= ExceptT.bindCont f) hr
    exact hf a (hx a hr) b (hn.symm.trans hb)

end IfReturns

def settle {δ : Type} (x : Attempt ε α) : Attempt δ (Except ε α) := ExceptT.lift x.run

lemma Returns.settle {δ : Type} {x : Attempt ε α} {post : α → Prop} (h : Returns x post) :
    Returns (Base.settle x : Attempt δ (Except ε α)) fun r => ∃ a, r = .ok a ∧ post a := by
  obtain ⟨a, rfl, ha⟩ := h
  exact ⟨.ok a, rfl, a, rfl, ha⟩

lemma Returns.loop {post : β → Prop} (inv : ℕ → σ → Prop) (h : ∀ n s, inv n s → Returns (body s) fun
      | .inl s' => ∃ n', n' < n ∧ inv n' s'
      | .inr b => post b) {n : ℕ} (hs : inv n s) : Returns (loop body s) post := by
  suffices hends : ∃ b, LoopsTo body b s ∧ post b by
    obtain ⟨b, hb, hpost⟩ := hends
    exact ⟨b, hb.loop_eq, hpost⟩
  induction n using Nat.strongRecOn generalizing s with
  | ind n ih =>
    obtain ⟨r, hr, hpost⟩ := h n s hs
    cases r with
    | inl t =>
      obtain ⟨n', hlt, ht⟩ := hpost
      obtain ⟨b, hb, hpost⟩ := ih n' hlt ht
      exact ⟨b, .again hr hb, hpost⟩
    | inr b => exact ⟨b, .leave hr, hpost⟩

lemma Returns.foldlM {step : σ → α → Attempt ε σ} {xs : List α} (inv : List α → σ → Prop)
    (h : ∀ done a rest s, xs = done ++ a :: rest → inv done s → Returns (step s a) (inv (done ++ [a])))
    (hs : inv [] s) : Returns (xs.foldlM step s) (inv xs) := by
  suffices hrest : ∀ done rest s, xs = done ++ rest → inv done s → Returns (rest.foldlM step s) (inv xs) from
    hrest [] xs s rfl hs
  intro done rest
  induction rest generalizing done with
  | nil =>
    intro s hx hd
    rw [List.foldlM_nil]
    rw [List.append_nil] at hx
    exact .pure (hx ▸ hd)
  | cons a rest ih =>
    intro s hx hd
    rw [List.foldlM_cons]
    apply (h done a rest s hx hd).bind
    intro s' hs'
    exact ih (done ++ [a]) s' (by simpa using hx) hs'

lemma Returns.foldlM_range {step : σ → ℕ → Attempt ε σ} {n : ℕ} (inv : ℕ → σ → Prop)
    (h : ∀ i s, i < n → inv i s → Returns (step s i) (inv (i + 1))) (hs : inv 0 s) :
    Returns ((List.range n).foldlM step s) (inv n) := by
  induction n with
  | zero => exact .pure hs
  | succ n ih =>
    rw [List.range_succ, List.foldlM_append]
    apply (ih fun i s hi => h i s (by omega)).bind
    intro t ht
    rw [List.foldlM_cons]
    apply (h n t (Nat.lt_succ_self n) ht).bind
    intro t' ht'
    exact .pure ht'

end Base
