import Flux.Copy.World

namespace Flux.Copy

open Base Wal

abbrev Yields {ε α : Type} (x : M ε α) (f : Files) (Q : α → Files → Prop) (E : ε → Files → Prop) : Prop :=
  Ensures World.files x f Q E

abbrev Frames {ε α : Type} (x : M ε α) : Prop := Steady World.files x

section Calls

variable {ε α β : Type} {f : Files} {Q : α → Files → Prop} {E : ε → Files → Prop}

lemma steady_onlyIf {τ : Type} {view : World → τ} {c : Prop} [Decidable c] {x : M ε Unit} (hx : Steady view x) :
    Steady view (onlyIf c x) :=
  hx.ite (Steady.pure _)

lemma frames_call (c : Call) : Frames (call c) := by
  rintro f w rfl
  simp only [call, wp_bind, wp_get]
  split
  · rw [wp_set]
  · rw [wp_bind, wp_set]
    split
    · rw [wp_pure]
    · rw [wp_throw]

lemma frames_fsCall (c : Call) : Frames (fsCall c) := (frames_call c).mapFailure

lemma frames_sinkCall : Frames sinkCall := by
  rintro f w rfl
  simp only [sinkCall, wp_bind, wp_get]
  split
  · rw [wp_pure]
  · rw [wp_bind, wp_set]
    split
    · rw [wp_pure]
    · rw [wp_throw]

lemma frames_nextSchedule : Frames (nextSchedule : M ε (List (Delivery IoError))) := by
  rintro f w rfl
  simp only [nextSchedule, wp_bind, wp_get]
  split
  · rw [wp_pure]
  · rw [wp_bind, wp_set, wp_pure]

lemma Yields.setFiles {g : Files → Files} {Q : Unit → Files → Prop} (h : Q () (g f)) :
    Yields (setFiles g : M ε Unit) f Q E :=
  Ensures.modify fun _ hs => hs ▸ h

lemma Frames.ok {x : M ε α} (hx : Frames x) (hq : ∀ a, Q a f) : Yields x f Q fun _ _ => True :=
  hx.ensures hq fun _ => trivial

lemma Yields.ofGet {g : World → M ε α} (hg : ∀ w : World, w.files = f → Yields (g w) f Q E) :
    Yields (get >>= g) f Q E :=
  Ensures.bind (Q := fun w f' => w.files = f ∧ f' = f) (Ensures.get fun _ hw => ⟨hw, rfl⟩) fun w _ h =>
    h.2 ▸ hg w h.1

lemma Yields.onlyIf {c : Prop} [Decidable c] {x : M ε Unit} {Q : Unit → Files → Prop} (hx : c → Yields x f Q E)
    (hn : Q () f) : Yields (onlyIf c x) f Q E := by
  rw [Copy.onlyIf]
  split
  · next hc => exact hx hc
  · exact Ensures.pure hn

lemma yields_metadataTemp : Yields metadataTemp f (fun e f' => f' = f ∧ f.temp = some e) fun _ f' => f' = f := by
  refine Ensures.bind (frames_fsCall _ f) ?_
  rintro - f' rfl
  refine Yields.ofGet fun w hw => ?_
  rw [hw]
  split
  · exact Ensures.throw rfl
  · next e he => exact Ensures.pure ⟨rfl, he⟩

lemma yields_openTemp : Yields openTemp f
    (fun r f' => f' = f ∧ ∃ e, f.temp = some e ∧ r.rest = e.bytes) fun _ f' => f' = f := by
  refine Ensures.bind (frames_fsCall _ f) ?_
  rintro - f' rfl
  refine Yields.ofGet fun w hw => ?_
  rw [hw]
  split
  · exact Ensures.throw rfl
  · next e he =>
    refine Ensures.bind (frames_nextSchedule f') ?_
    rintro s f'' rfl
    exact Ensures.pure ⟨rfl, e, he, rfl⟩

lemma outcome_ok {effect : World → Except FsError World} {w w' : World} (h : w.outcome effect = .ok w') :
    effect w = .ok w' := by
  rw [World.outcome] at h
  split at h
  · cases h
  · exact h

lemma Yields.perform {c : Call} {effect : World → Except FsError World} {Q : Unit → Files → Prop}
    {E : FsError → Files → Prop} (hok : ∀ w w' : World, w.files = f → effect w = .ok w' → Q () w'.files)
    (herr : ∀ e, E e f) : Yields (perform c effect) f Q E := by
  rintro w rfl
  rw [Copy.perform, wp_bind, wp_get]
  split
  · next w' hw' =>
    rw [wp_set]
    exact hok w w' rfl (outcome_ok hw')
  · rw [wp_bind, wp_set, wp_throw]
    exact herr _

lemma yields_removeTemp_attempt : Yields (removeTemp.attempt : M ε (Except FsError Unit)) f
    (fun _ f' => f' = f ∨ f' = { f with temp := none }) E := by
  refine Ensures.attempt (Ensures.bind (Q := fun a f' => if a.isOk then f' = { f with temp := none } else f' = f)
    ?_ ?_)
  · refine Ensures.attempt (Yields.perform ?_ fun e => rfl)
    intro w w' hw h
    rw [World.unlinked] at h
    split at h
    · cases h
    · split at h
      · cases h
      · cases h
        exact hw ▸ rfl
  · intro a f' hf'
    split
    · exact Ensures.pure (.inr hf')
    · cases hf'
      exact Ensures.bind (Yields.onlyIf (fun _ => Yields.setFiles (.inr rfl)) (.inl rfl)) fun _ _ h =>
        Ensures.throw h

lemma yields_createNew (identity : FileIdentity) : Yields (createNew identity) f
    (fun _ f' => f' = { f with temp := some ⟨.file, identity, some 1, []⟩ }) fun _ _ => True := by
  refine Yields.perform (fun w w' hw h => ?_) fun _ => trivial
  split at h
  · cases h
  · cases h
    exact hw ▸ rfl

lemma yields_openExisting (expected : FileIdentity) : Yields (openExisting expected) f
    (fun _ f' => f' = f ∧ ∃ e, f.temp = some e ∧ e.fileType = .file) fun _ _ => True := by
  refine Yields.perform (fun w w' hw h => ?_) fun _ => trivial
  subst hw
  split at h
  · cases h
  split at h
  · cases h
  next e he =>
  split at h
  · cases h
  · cases h
  · cases h
  next ht =>
  split at h
  · cases h
  split at h
  · cases h
  · cases h
    exact ⟨rfl, e, he, ht⟩

lemma yields_truncateTo {e : Entry} (he : f.temp = some e) (len : ℕ) : Yields (truncateTo len) f
    (fun _ f' => f' = { f with temp := some { e with bytes := e.bytes.take len } }) fun _ _ => True := by
  refine Yields.perform (fun w w' hw h => ?_) fun _ => trivial
  rw [hw, he] at h
  dsimp only at h
  split at h
  · cases h
  · cases h
    exact hw ▸ rfl

lemma yields_writeAll {e : Entry} (he : f.temp = some e) (bs : Bytes) : Yields (writeAll bs) f
    (fun _ f' => f' = { f with temp := some { e with bytes := e.bytes ++ bs } }) fun _ _ => True := by
  refine (frames_call _).attempt.andThen (fun _ => trivial) fun a => ?_
  split
  · refine Yields.setFiles ?_
    rw [he]
    rfl
  · exact Ensures.bind (Q := fun _ _ => True) (Yields.setFiles trivial) fun _ _ _ => Ensures.throw trivial

end Calls

end Flux.Copy
