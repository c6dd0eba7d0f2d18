import Flux.Base.Loop
import Mathlib.Logic.Equiv.Basic
import Mathlib.Logic.Relation
import Mathlib.Data.List.Perm.Basic
import Mathlib.Data.List.Range

/-! A permutation applied in place: `keys` holds the item for each position, then where it was swapped. -/

namespace Base

section Code

variable {ε α : Type}

def follow (keys : Array ℕ) (i index : ℕ) : Attempt ε ℕ :=
  loop (fun index => pure (if index < i then .inl (keys.getD index 0) else .inr index)) index

def place (s : Array ℕ × Array α) (i : ℕ) : Attempt ε (Array ℕ × Array α) := do
  let index ← follow s.1 i (s.1.getD i 0)
  pure (s.1.setIfInBounds i index, s.2.swapIfInBounds i index)

def permute (keys : Array ℕ) (v : Array α) : Attempt ε (Array α) := do
  let s ← (List.range v.size).foldlM place (keys, v)
  pure s.2

end Code

section Correct

variable {ε α : Type} {keys k : Array ℕ} {v w : Array α} {i : ℕ}

def Hop (k : Array ℕ) (i a b : ℕ) : Prop := a < i ∧ k[a]? = some b

lemma follow_eq {x p : ℕ} (h : Relation.ReflTransGen (Hop k i) x p) (hp : i ≤ p) :
    (follow k i x : Attempt ε ℕ) = pure p := by
  apply LoopsTo.loop_eq
  induction h using Relation.ReflTransGen.head_induction_on with
  | refl =>
    apply LoopsTo.leave
    rw [if_neg (by omega)]
  | head hop _ ih =>
    apply LoopsTo.again _ ih
    rw [if_pos hop.1, Array.getD_eq_getD_getElem?, hop.2, Option.getD_some]

structure Placed (keys : Array ℕ) (v : Array α) (i : ℕ) (k : Array ℕ) (w : Array α) (loc : Equiv.Perm ℕ) :
    Prop where
  keys_size : k.size = v.size
  size : w.size = v.size
  at_loc : ∀ p, p < v.size → w[p]? = v[loc p]?
  done : ∀ j, j < i → keys[j]? = some (loc j)
  rest : ∀ j, i ≤ j → k[j]? = keys[j]?
  found : ∀ j x, i ≤ j → keys[j]? = some x →
    ∃ p, i ≤ p ∧ p < v.size ∧ loc p = x ∧ Relation.ReflTransGen (Hop k i) x p

lemma Placed.start (hk : keys.size = v.size) (hlt : ∀ (j : ℕ) x, keys[j]? = some x → x < v.size) :
    Placed keys v 0 keys v (Equiv.refl ℕ) where
  keys_size := hk
  size := rfl
  at_loc _ _ := rfl
  done _ hj := absurd hj (Nat.not_lt_zero _)
  rest _ _ := rfl
  found j x _ hx := ⟨x, Nat.zero_le x, hlt j x hx, rfl, .refl⟩

lemma Placed.next {loc : Equiv.Perm ℕ} {x p : ℕ} (h : Placed keys v i k w loc) (hx : keys[i]? = some x)
    (hinj : ∀ (j : ℕ), keys[j]? = some x → j = i) (hip : i ≤ p) (hp : p < v.size) (hloc : loc p = x) :
    Placed keys v (i + 1) (k.setIfInBounds i p) (w.swapIfInBounds i p) ((Equiv.swap i p).trans loc) where
  keys_size := by rw [Array.size_setIfInBounds, h.keys_size]
  size := by rw [Array.size_swapIfInBounds, h.size]
  at_loc q hq := by
    have hsi : i < w.size := by rw [h.size]; omega
    have hsp : p < w.size := by rw [h.size]; omega
    rw [Array.swapIfInBounds, dif_pos hsi, dif_pos hsp, Array.getElem?_swap, Equiv.trans_apply]
    by_cases hqp : q = p
    · subst hqp
      rw [if_pos rfl, Equiv.swap_apply_right, ← Array.getElem?_eq_getElem, h.at_loc i (by omega)]
    · by_cases hqi : q = i
      · subst hqi
        rw [if_neg (Ne.symm hqp), if_pos rfl, Equiv.swap_apply_left, ← Array.getElem?_eq_getElem, h.at_loc p hp]
      · rw [if_neg (Ne.symm hqp), if_neg (Ne.symm hqi), Equiv.swap_apply_of_ne_of_ne hqi hqp, h.at_loc q hq]
  done j hj := by
    rw [Equiv.trans_apply]
    by_cases hji : j = i
    · subst hji
      rw [Equiv.swap_apply_left, hloc, hx]
    · rw [Equiv.swap_apply_of_ne_of_ne hji (by omega), h.done j (by omega)]
  rest j hj := by
    rw [Array.getElem?_setIfInBounds, if_neg (by omega), h.rest j (by omega)]
  found j y hj hy := by
    obtain ⟨q, hiq, hq, hlq, hr⟩ := h.found j y (by omega) hy
    have hyx : y ≠ x := by
      rintro rfl
      have := hinj j hy
      omega
    have hne : q ≠ p := by
      rintro rfl
      exact hyx (hlq.symm.trans hloc)
    have hr' : Relation.ReflTransGen (Hop (k.setIfInBounds i p) (i + 1)) y q := by
      refine Relation.ReflTransGen.mono ?_ _ _ hr
      intro a b hab
      refine ⟨by have := hab.1; omega, ?_⟩
      rw [Array.getElem?_setIfInBounds, if_neg (by have := hab.1; omega)]
      exact hab.2
    by_cases hqi : q = i
    · subst hqi
      refine ⟨p, by omega, hp, ?_, hr'.tail ⟨by omega, ?_⟩⟩
      · rw [Equiv.trans_apply, Equiv.swap_apply_right, hlq]
      · rw [Array.getElem?_setIfInBounds, if_pos rfl, if_pos (by rw [h.keys_size]; exact hq)]
    · refine ⟨q, by omega, hq, ?_, hr'⟩
      rw [Equiv.trans_apply, Equiv.swap_apply_of_ne_of_ne hqi hne, hlq]

lemma place_placed (hk : keys.size = v.size) (hinj : ∀ (j l : ℕ) x, keys[j]? = some x → keys[l]? = some x → j = l)
    {s : Array ℕ × Array α} (hi : i < v.size) (h : ∃ loc, Placed keys v i s.1 s.2 loc) :
    Returns (place s i : Attempt ε _) fun s' => ∃ loc, Placed keys v (i + 1) s'.1 s'.2 loc := by
  obtain ⟨loc, h⟩ := h
  have hx : keys[i]? = some keys[i] := Array.getElem?_eq_getElem (by omega)
  obtain ⟨p, hip, hp, hloc, hr⟩ := h.found i _ le_rfl hx
  rw [place, Array.getD_eq_getD_getElem?, h.rest i le_rfl, hx, Option.getD_some, follow_eq hr hip, pure_bind]
  exact .pure ⟨_, h.next hx (fun j hj => hinj j i _ hj hx) hip hp hloc⟩

theorem permute_returns (h : keys.toList.Perm (List.range v.size)) :
    Returns (permute keys v : Attempt ε _) fun w =>
      w.size = v.size ∧ ∀ j : ℕ, w[j]? = keys[j]?.bind fun x => v[x]? := by
  have hk : keys.size = v.size := by simpa using h.length_eq
  have hlt : ∀ (j : ℕ) x, keys[j]? = some x → x < v.size := by
    intro j x hx
    rw [← Array.getElem?_toList] at hx
    exact List.mem_range.mp (h.mem_iff.mp (List.mem_of_getElem? hx))
  have hinj : ∀ (j l : ℕ) x, keys[j]? = some x → keys[l]? = some x → j = l := by
    intro j l x hj hl
    rw [← Array.getElem?_toList] at hj hl
    have hnd : keys.toList.Nodup := h.nodup_iff.mpr List.nodup_range
    exact (List.getElem?_inj (List.getElem?_eq_some_iff.mp hj).1 hnd).mp (hj.trans hl.symm)
  refine Returns.bind (Returns.foldlM_range (fun i (s : Array ℕ × Array α) => ∃ loc, Placed keys v i s.1 s.2 loc)
    (fun i s hi hs => place_placed hk hinj hi hs) ⟨_, .start hk hlt⟩) ?_
  intro s hs
  obtain ⟨loc, hs⟩ := hs
  refine .pure ⟨hs.size, fun j => ?_⟩
  by_cases hj : j < v.size
  · rw [hs.at_loc j hj, hs.done j hj, Option.bind_some]
  · rw [Array.getElem?_eq_none (by rw [hs.size]; omega), Array.getElem?_eq_none (by omega), Option.bind_none]

end Correct

end Base
