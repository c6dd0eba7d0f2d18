import Flux.Base.Loop
import Flux.Base.Triple

/-! Computations with a state and failures that may also never end. -/

namespace Base

abbrev Course (σ ε : Type) := ExceptT ε (StateT σ (Attempt Empty))

variable {σ ε α β : Type}

namespace Course

def ofAct (x : Act σ ε α) : Course σ ε α := fun s => pure (x s)

def ofAttempt (x : Attempt Empty α) : Course σ ε α := fun s => x >>= fun a => pure (.ok a, s)

def attempt {ε' : Type} (x : Course σ ε α) : Course σ ε' (Except ε α) :=
  fun s => x s >>= fun r => pure (.ok r.1, r.2)

def turn : Except ε (α ⊕ β) × σ → (α × σ) ⊕ (Except ε β × σ)
  | (.ok (.inl a), s) => .inl (a, s)
  | (.ok (.inr b), s) => .inr (.ok b, s)
  | (.error e, s) => .inr (.error e, s)

def loop (body : α → Course σ ε (α ⊕ β)) (a : α) : Course σ ε β :=
  fun s => Base.loop (fun (t : α × σ) => do
    let r ← body t.1 t.2
    pure (turn r)) (a, s)

end Course

def Achieves (x : Course σ ε α) (Q : α → σ → Prop) (E : ε → σ → Prop) (s : σ) : Prop := Returns (x s) (Ends Q E)

namespace Achieves

variable {Q Q' : α → σ → Prop} {E E' : ε → σ → Prop} {s : σ} {x : Course σ ε α}

lemma pure {a : α} (h : Q a s) : Achieves (pure a : Course σ ε α) Q E s := Returns.pure h

lemma throw {e : ε} (h : E e s) : Achieves (throw e : Course σ ε α) Q E s := Returns.pure h

lemma get {Q : σ → σ → Prop} (h : Q s s) : Achieves (get : Course σ ε σ) Q E s := Returns.pure h

lemma modify {Q : PUnit → σ → Prop} {f : σ → σ} (h : Q ⟨⟩ (f s)) : Achieves (modify f : Course σ ε PUnit) Q E s :=
  Returns.pure h

lemma ofAct {x : Act σ ε α} (h : wp x Q E s) : Achieves (Course.ofAct x) Q E s := Returns.pure h

lemma ofAttempt {x : Attempt Empty α} (h : Returns x fun a => Q a s) : Achieves (Course.ofAttempt x) Q E s :=
  h.bind fun _ ha => Returns.pure ha

lemma attempt {ε' : Type} {E' : ε' → σ → Prop} (h : Achieves x Q E s) :
    Achieves (x.attempt : Course σ ε' (Except ε α)) (fun r t => Ends Q E (r, t)) E' s :=
  Returns.bind h fun _ ha => Returns.pure ha

variable {R : β → σ → Prop}

lemma bind {f : α → Course σ ε β} (hx : Achieves x Q E s) (hf : ∀ a t, Q a t → Achieves (f a) R E t) :
    Achieves (x >>= f) R E s := by
  refine Returns.bind hx ?_
  rintro ⟨r, t⟩ h
  cases r with
  | ok a => exact hf a t h
  | error e => exact Returns.pure h

lemma get_bind {f : σ → Course σ ε β} (h : Achieves (f s) R E s) : Achieves (MonadState.get >>= f) R E s := h

lemma modify_bind {g : σ → σ} {f : PUnit → Course σ ε β} (h : Achieves (f ⟨⟩) R E (g s)) :
    Achieves (Bind.bind (modifyGet fun s => (⟨⟩, g s)) f) R E s := h

lemma set_bind {t : σ} {f : PUnit → Course σ ε β} (h : Achieves (f ⟨⟩) R E t) :
    Achieves (Bind.bind (MonadStateOf.set t) f) R E s := h

lemma mono (hx : Achieves x Q E s) (hq : ∀ a t, Q a t → Q' a t) (he : ∀ e t, E e t → E' e t) :
    Achieves x Q' E' s := by
  refine Returns.imp hx ?_
  rintro ⟨r, t⟩ h
  cases r with
  | ok a => exact hq a t h
  | error e => exact he e t h

lemma loop {body : α → Course σ ε (α ⊕ β)} {Q : β → σ → Prop} (inv : ℕ → α → σ → Prop)
    (h : ∀ n a s, inv n a s → Achieves (body a) (fun r t => match r with
      | .inl a' => ∃ n', n' < n ∧ inv n' a' t
      | .inr b => Q b t) E s)
    {n : ℕ} {a : α} (hs : inv n a s) : Achieves (Course.loop body a) Q E s := by
  refine Returns.loop (fun n (t : α × σ) => inv n t.1 t.2) ?_ hs
  rintro n ⟨a, s⟩ hs
  refine Returns.bind (h n a s hs) ?_
  rintro ⟨r, t⟩ hr
  cases r with
  | error e => exact .pure hr
  | ok r =>
    cases r with
    | inl a' => exact .pure hr
    | inr b => exact .pure hr

end Achieves

end Base
