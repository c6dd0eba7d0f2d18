import Mathlib.Logic.Basic

/-! Computations with a state and failures, and what they establish: a failure keeps the state it leaves behind. -/

namespace Base

abbrev Act (σ ε : Type) := ExceptT ε (StateM σ)

variable {σ ε ε' α β : Type}

namespace Act

def attempt (x : Act σ ε α) : Act σ ε' (Except ε α) := fun s => (.ok (x s).1, (x s).2)

def mapFailure (f : ε → ε') (x : Act σ ε α) : Act σ ε' α := fun s => ((x s).1.mapError f, (x s).2)

end Act

def Ends (Q : α → σ → Prop) (E : ε → σ → Prop) : Except ε α × σ → Prop
  | (.ok a, s) => Q a s
  | (.error e, s) => E e s

def wp (x : Act σ ε α) (Q : α → σ → Prop) (E : ε → σ → Prop) (s : σ) : Prop := Ends Q E (x s)

variable {Q Q' : α → σ → Prop} {E E' : ε → σ → Prop} {s : σ}

@[simp] lemma wp_pure (a : α) : wp (pure a : Act σ ε α) Q E s ↔ Q a s := Iff.rfl

@[simp] lemma wp_throw (e : ε) : wp (throw e : Act σ ε α) Q E s ↔ E e s := Iff.rfl

@[simp] lemma wp_get {Q : σ → σ → Prop} : wp (get : Act σ ε σ) Q E s ↔ Q s s := Iff.rfl

@[simp] lemma wp_set {Q : PUnit → σ → Prop} (t : σ) : wp (set t : Act σ ε PUnit) Q E s ↔ Q ⟨⟩ t := Iff.rfl

@[simp] lemma wp_modify {Q : PUnit → σ → Prop} (f : σ → σ) :
    wp (modify f : Act σ ε PUnit) Q E s ↔ Q ⟨⟩ (f s) := Iff.rfl

@[simp] lemma wp_bind (x : Act σ ε α) (f : α → Act σ ε β) {Q : β → σ → Prop} :
    wp (x >>= f) Q E s ↔ wp x (fun a => wp (f a) Q E) E s := by
  simp only [wp]
  have : (x >>= f) s = match x s with
      | (.ok a, t) => f a t
      | (.error e, t) => (.error e, t) := by
    change (StateT.bind x (ExceptT.bindCont f)) s = _
    simp only [StateT.bind, bind]
    rcases x s with ⟨a | a, t⟩ <;> rfl
  rw [this]
  rcases x s with ⟨a | a, t⟩ <;> rfl

@[simp] lemma wp_map (f : α → β) (x : Act σ ε α) {Q : β → σ → Prop} :
    wp (f <$> x) Q E s ↔ wp x (fun a => Q (f a)) E s := by
  rw [map_eq_pure_bind, wp_bind]
  rfl

@[simp] lemma wp_ite {c : Prop} [Decidable c] (x y : Act σ ε α) :
    wp (if c then x else y) Q E s ↔ (c → wp x Q E s) ∧ (¬ c → wp y Q E s) := by
  split <;> simp_all

@[simp] lemma wp_attempt (x : Act σ ε α) {Q : Except ε α → σ → Prop} {E : ε' → σ → Prop} :
    wp (x.attempt) Q E s ↔ wp x (fun a => Q (.ok a)) (fun e => Q (.error e)) s := by
  simp only [wp, Act.attempt]
  rcases x s with ⟨a | a, t⟩ <;> rfl

@[simp] lemma wp_mapFailure (f : ε → ε') (x : Act σ ε α) {E : ε' → σ → Prop} :
    wp (x.mapFailure f) Q E s ↔ wp x Q (fun e => E (f e)) s := by
  simp only [wp, Act.mapFailure]
  rcases x s with ⟨a | a, t⟩ <;> rfl

variable {x : Act σ ε α}

lemma wp_mono (h : wp x Q E s) (hq : ∀ a t, Q a t → Q' a t) (he : ∀ e t, E e t → E' e t) : wp x Q' E' s := by
  simp only [wp] at *
  rcases hx : x s with ⟨a | a, t⟩
  · rw [hx] at h
    exact he _ _ h
  · rw [hx] at h
    exact hq _ _ h

lemma wp_true (x : Act σ ε α) : wp x (fun _ _ => True) (fun _ _ => True) s := by
  rw [wp]
  rcases x s with ⟨a | a, t⟩ <;> trivial

lemma wp_ok {a : α} {t : σ} (h : wp x Q E s) (hx : x s = (.ok a, t)) : Q a t := by
  rw [wp, hx] at h
  exact h

lemma wp_state {R : σ → Prop} (h : wp x Q E s) (hq : ∀ a t, Q a t → R t) (he : ∀ e t, E e t → R t) :
    R (x s).2 := by
  rw [wp] at h
  rcases hx : x s with ⟨e | a, t⟩
  · rw [hx] at h
    exact he e t h
  · rw [hx] at h
    exact hq a t h

lemma wp_and (h : wp x Q E s) (h' : wp x Q' E' s) :
    wp x (fun a t => Q a t ∧ Q' a t) (fun e t => E e t ∧ E' e t) s := by
  simp only [wp] at *
  rcases hx : x s with ⟨a | a, t⟩
  · rw [hx] at h h'
    exact ⟨h, h'⟩
  · rw [hx] at h h'
    exact ⟨h, h'⟩

def Fails (P : ε → Prop) (x : Act σ ε α) : Prop := ∀ s, wp x (fun _ _ => True) (fun e _ => P e) s

namespace Fails

variable {P : ε → Prop}

lemma bind {x : Act σ ε α} {g : α → Act σ ε β} (hx : Fails P x) (hg : ∀ a, Fails P (g a)) : Fails P (x >>= g) := by
  intro s
  rw [wp_bind]
  exact wp_mono (hx s) (fun a t _ => hg a t) fun _ _ => id

lemma pure (a : α) : Fails P (pure a : Act σ ε α) := fun _ => trivial

lemma get : Fails P (get : Act σ ε σ) := fun _ => trivial

lemma modify (f : σ → σ) : Fails P (modify f : Act σ ε PUnit) := fun _ => trivial

lemma throw {e : ε} (h : P e) : Fails P (throw e : Act σ ε α) := fun _ => h

lemma mapFailure {f : ε' → ε} {x : Act σ ε' α} (h : ∀ e, P (f e)) : Fails P (x.mapFailure f) := by
  intro s
  rw [wp_mapFailure]
  exact wp_mono (wp_true x) (fun _ _ => id) fun e _ _ => h e

lemma ite {c : Prop} [Decidable c] {x y : Act σ ε α} (hx : Fails P x) (hy : Fails P y) :
    Fails P (if c then x else y) := by
  split
  · exact hx
  · exact hy

end Fails

section View

variable {τ : Type} {view : σ → τ} {t : τ} {Q Q' : α → τ → Prop} {E E' : ε → τ → Prop}

/-- From a state that shows `t`, `x` ends in one that shows what `Q` or, on failure, `E` says. -/
def Ensures (view : σ → τ) (x : Act σ ε α) (t : τ) (Q : α → τ → Prop) (E : ε → τ → Prop) : Prop :=
  ∀ s, view s = t → wp x (fun a s' => Q a (view s')) (fun e s' => E e (view s')) s

variable {f : σ → σ} {g : β → Act σ ε α}

namespace Ensures

lemma pure {a : α} (h : Q a t) : Ensures view (pure a : Act σ ε α) t Q E := by
  rintro s rfl
  exact h

lemma throw {e : ε} (h : E e t) : Ensures view (throw e : Act σ ε α) t Q E := by
  rintro s rfl
  exact h

lemma get {Q : σ → τ → Prop} (h : ∀ s, view s = t → Q s t) : Ensures view (get : Act σ ε σ) t Q E := by
  rintro s rfl
  exact h s rfl

lemma set {Q : PUnit → τ → Prop} {s' : σ} (h : Q ⟨⟩ (view s')) : Ensures view (set s' : Act σ ε PUnit) t Q E :=
  fun _ _ => h

lemma modify {Q : PUnit → τ → Prop} (h : ∀ s, view s = t → Q ⟨⟩ (view (f s))) :
    Ensures view (modify f : Act σ ε PUnit) t Q E :=
  h

variable {x : Act σ ε α}

lemma bind {g : α → Act σ ε β} {R : β → τ → Prop} (hx : Ensures view x t Q E)
    (hg : ∀ a t', Q a t' → Ensures view (g a) t' R E) : Ensures view (x >>= g) t R E := by
  intro s hs
  rw [wp_bind]
  exact wp_mono (hx s hs) (fun a s' h => hg a _ h s' rfl) fun _ _ => id

lemma mono (hx : Ensures view x t Q E) (hq : ∀ a t', Q a t' → Q' a t') (he : ∀ e t', E e t' → E' e t') :
    Ensures view x t Q' E' :=
  fun s hs => wp_mono (hx s hs) (fun a _ => hq a _) fun e _ => he e _

lemma mapFailure {f : ε → ε'} {E : ε' → τ → Prop} (hx : Ensures view x t Q fun e => E (f e)) :
    Ensures view (x.mapFailure f) t Q E := by
  intro s hs
  rw [wp_mapFailure]
  exact hx s hs

lemma attempt {Q : Except ε α → τ → Prop} {E : ε' → τ → Prop}
    (hx : Ensures view x t (fun a => Q (.ok a)) fun e => Q (.error e)) : Ensures view x.attempt t Q E := by
  intro s hs
  rw [wp_attempt]
  exact hx s hs

lemma ok {s s' : σ} {a : α} (hx : Ensures view x t Q E) (hs : view s = t) (h : x s = (.ok a, s')) :
    Q a (view s') := by
  have hend := hx s hs
  rw [wp, h] at hend
  exact hend

lemma attempted {g : Except ε α → Act σ ε' β} {R : β → τ → Prop} {F : ε' → τ → Prop} (hx : Ensures view x t Q E)
    (hok : ∀ a t', Q a t' → Ensures view (g (.ok a)) t' R F)
    (herr : ∀ e t', E e t' → Ensures view (g (.error e)) t' R F) : Ensures view (x.attempt >>= g) t R F := by
  intro s hs
  rw [wp_bind, wp_attempt]
  exact wp_mono (hx s hs) (fun a s' h => hok a _ h s' rfl) fun e s' h => herr e _ h s' rfl

end Ensures

lemma Ensures.andFails {P : ε → Prop} {x : Act σ ε α} (hx : Ensures view x t Q E) (hf : Fails P x) :
    Ensures view x t Q fun e t' => E e t' ∧ P e :=
  fun s hs => wp_mono (wp_and (hx s hs) (hf s)) (fun _ _ h => h.1) fun _ _ => id

def Steady (view : σ → τ) (x : Act σ ε α) : Prop := ∀ t, Ensures view x t (fun _ t' => t' = t) fun _ t' => t' = t

namespace Steady

variable {x : Act σ ε α}

lemma ensures (hx : Steady view x) (hq : ∀ a, Q a t) (he : ∀ e, E e t) : Ensures view x t Q E :=
  (hx t).mono (fun a _ h => h ▸ hq a) fun e _ h => h ▸ he e

lemma bind {x : Act σ ε β} (hx : Steady view x) (hg : ∀ b, Steady view (g b)) : Steady view (x >>= g) :=
  fun t => Ensures.bind ((hx t).mono (fun _ _ => id) fun _ _ => id) fun b _ h => h ▸ hg b t

lemma andThen {x : Act σ ε β} (hx : Steady view x) (he : ∀ e, E e t) (hg : ∀ b, Ensures view (g b) t Q E) :
    Ensures view (x >>= g) t Q E :=
  Ensures.bind (hx.ensures (Q := fun _ t' => t' = t) (fun _ => rfl) he) fun b _ h => h ▸ hg b

lemma pure (a : α) : Steady view (pure a : Act σ ε α) := fun _ => Ensures.pure rfl

lemma throw (e : ε) : Steady view (throw e : Act σ ε α) := fun _ => Ensures.throw rfl

lemma get : Steady view (get : Act σ ε σ) := fun _ => Ensures.get fun _ _ => rfl

lemma ofGet {g : σ → Act σ ε α}
    (hg : ∀ s, Ensures view (g s) (view s) (fun _ t' => t' = view s) fun _ t' => t' = view s) :
    Steady view (Bind.bind MonadState.get g) := by
  rintro t s rfl
  rw [wp_bind]
  exact hg s s rfl

lemma modify (h : ∀ s, view (f s) = view s) : Steady view (modify f : Act σ ε PUnit) :=
  fun _ => Ensures.modify fun s hs => (h s).trans hs

lemma mapFailure {f : ε → ε'} (hx : Steady view x) : Steady view (x.mapFailure f) :=
  fun t => Ensures.mapFailure (hx t)

lemma attempt (hx : Steady view x) : Steady view (x.attempt : Act σ ε' (Except ε α)) :=
  fun t => Ensures.attempt ((hx t).mono (fun _ _ => id) fun _ _ => id)

lemma ite {c : Prop} [Decidable c] {y : Act σ ε α} (hx : Steady view x) (hy : Steady view y) :
    Steady view (if c then x else y) := by
  split
  · exact hx
  · exact hy

end Steady

def Calm (view : σ → τ) (x : Act σ ε α) : Prop := ∀ t, Ensures view x t (fun _ t' => t' = t) fun _ _ => False

namespace Calm

lemma steady {x : Act σ ε α} (hx : Calm view x) : Steady view x :=
  fun t => (hx t).mono (fun _ _ => id) fun _ _ => False.elim

lemma bind {x : Act σ ε β} (hx : Calm view x) (hg : ∀ b, Calm view (g b)) : Calm view (x >>= g) :=
  fun t => Ensures.bind (hx t) fun b _ h => h ▸ hg b t

lemma andThen {x : Act σ ε β} (hx : Calm view x) (hg : ∀ b, Ensures view (g b) t Q E) :
    Ensures view (x >>= g) t Q E :=
  Ensures.bind ((hx t).mono (fun _ _ => id) fun _ _ => False.elim) fun b _ h => h ▸ hg b

lemma pure (a : α) : Calm view (pure a : Act σ ε α) := fun _ => Ensures.pure rfl

lemma get : Calm view (get : Act σ ε σ) := fun _ => Ensures.get fun _ _ => rfl

lemma modify (h : ∀ s, view (f s) = view s) : Calm view (modify f : Act σ ε PUnit) :=
  fun _ => Ensures.modify fun s hs => (h s).trans hs

lemma ofAttempt {x : Act σ ε α} (hx : Steady view x) : Calm view (x.attempt : Act σ ε' (Except ε α)) :=
  fun t => Ensures.attempt ((hx t).mono (fun _ _ => id) fun _ _ => id)

end Calm

end View

end Base
