import Flux.Base.KeyRange
import Mathlib.Data.List.Sort

namespace Base

abbrev Table (V : Type) := Std.TreeMap Bytes V

namespace Table

variable {V ι : Type}

def range (t : Table V) (lo hi : Bytes) : List (Bytes × V) := t.toList.filter fun r => lo ≤ r.1 ∧ r.1 < hi

def removeAll (t : Table V) (keys : List Bytes) : Table V := keys.foldl (fun t k => t.erase k) t

lemma get_insert (t : Table V) (k k' : Bytes) (v : V) :
    (t.insert k v)[k']? = if k = k' then some v else t[k']? := by
  rw [Std.TreeMap.getElem?_insert]
  simp only [compare_eq_iff]

lemma get_erase (t : Table V) (k k' : Bytes) : (t.erase k)[k']? = if k = k' then none else t[k']? := by
  rw [Std.TreeMap.getElem?_erase]
  simp only [compare_eq_iff]

lemma get_removeAll (t : Table V) (keys : List Bytes) (k : Bytes) :
    (t.removeAll keys)[k]? = if k ∈ keys then none else t[k]? := by
  induction keys generalizing t with
  | nil => simp [removeAll]
  | cons k' keys ih =>
    have hstep : t.removeAll (k' :: keys) = removeAll (t.erase k') keys := rfl
    rw [hstep, ih, get_erase]
    by_cases hk : k ∈ keys
    · rw [if_pos hk, if_pos (List.mem_cons_of_mem _ hk)]
    · by_cases heq : k' = k
      · rw [if_neg hk, if_pos heq, if_pos (heq ▸ List.mem_cons_self)]
      · rw [if_neg hk, if_neg heq, if_neg]
        rintro hmem
        obtain rfl | hmem := List.mem_cons.mp hmem
        · exact heq rfl
        · exact hk hmem

lemma size_removeAll_le (t : Table V) (keys : List Bytes) : (t.removeAll keys).size ≤ t.size := by
  induction keys generalizing t with
  | nil => exact le_rfl
  | cons k keys ih =>
    refine (ih (t.erase k)).trans ?_
    rw [Std.TreeMap.size_erase]
    split <;> omega

lemma size_removeAll_lt {t : Table V} {k : Bytes} {v : V} (h : t[k]? = some v) (keys : List Bytes) :
    (t.removeAll (k :: keys)).size < t.size := by
  have hpos : 0 < t.size := by
    rw [← Std.TreeMap.length_toList]
    exact List.length_pos_of_mem (Std.TreeMap.mem_toList_iff_getElem?_eq_some.mpr h)
  have hmem : t.contains k = true := by
    rw [Std.TreeMap.contains_eq_isSome_getElem?, h]
    rfl
  refine lt_of_le_of_lt (size_removeAll_le (t.erase k) keys) ?_
  rw [Std.TreeMap.size_erase, if_pos hmem]
  omega

variable {lo : Bytes}

lemma mem_range {t : Table V} {hi k : Bytes} {v : V} :
    (k, v) ∈ t.range lo hi ↔ t[k]? = some v ∧ lo ≤ k ∧ k < hi := by
  rw [range, List.mem_filter, Std.TreeMap.mem_toList_iff_getElem?_eq_some, decide_eq_true_iff]

lemma range_sorted (t : Table V) (lo hi : Bytes) : (t.range lo hi).Pairwise fun a b => a.1 < b.1 := by
  have h : t.toList.Pairwise fun a b => a.1 < b.1 := Std.TreeMap.ordered_keys_toList.imp fun h =>
    compare_lt_iff.mp h
  exact h.filter _

lemma range_range (t : Table V) {lo' : Bytes} (h : lo ≤ lo') (hi : Bytes) :
    t.range lo' hi = (t.range lo hi).filter fun r => lo' ≤ r.1 := by
  rw [range, range, List.filter_filter]
  refine List.filter_congr fun r _ => ?_
  by_cases h1 : lo' ≤ r.1
  · simp [h1, h.trans h1]
  · simp [h1]

lemma range_after (t : Table V) {hi : Bytes} {page rest : List (Bytes × V)} {last : Bytes × V}
    (h : t.range lo hi = page ++ last :: rest) : t.range (last.1 ++ [0]) hi = rest := by
  have hsorted := range_sorted t lo hi
  have hmem : last ∈ t.range lo hi := by simp [h]
  have hlo : lo ≤ last.1 ++ [0] := (mem_range.mp hmem).2.1.trans (le_of_isPrefix (List.prefix_append _ _))
  rw [h, List.pairwise_append, List.pairwise_cons] at hsorted
  obtain ⟨-, ⟨hlast, -⟩, hcross⟩ := hsorted
  rw [range_range t hlo hi, h, List.filter_append, List.filter_cons_of_neg, List.filter_eq_nil_iff.mpr,
    List.filter_eq_self.mpr, List.nil_append]
  · intro r hr
    exact decide_eq_true (append_zero_le_iff.mpr (hlast r hr))
  · intro r hr hle
    have hlt := append_zero_le_iff.mp (of_decide_eq_true hle)
    exact absurd hlt (not_lt.mpr (hcross r hr last List.mem_cons_self).le)
  · intro hle
    exact absurd (append_zero_le_iff.mp (of_decide_eq_true hle)) (lt_irrefl _)

def Mirrors (t : Table V) (key : ι → Bytes) (R : ι → V → Prop) : Prop :=
  ∀ k v, t[k]? = some v ↔ ∃ i, key i = k ∧ R i v

namespace Mirrors

variable {t : Table V} {key : ι → Bytes} {R R' : ι → V → Prop}

lemma empty (hR : ∀ i v, ¬ R i v) : Mirrors (∅ : Table V) key R := by
  intro k v
  rw [Std.TreeMap.getElem?_emptyc]
  refine ⟨fun h => ?_, ?_⟩
  · cases h
  · rintro ⟨i, -, h⟩
    exact absurd h (hR i v)

lemma congr (h : Mirrors t key R) (hR : ∀ i v, R' i v ↔ R i v) : Mirrors t key R' := by
  intro k v
  simp only [h k v, hR]

section Injective

variable (hkey : Function.Injective key)
include hkey

lemma get_iff (h : Mirrors t key R) {i : ι} {v : V} : t[key i]? = some v ↔ R i v := by
  rw [h]
  refine ⟨?_, fun hv => ⟨i, rfl, hv⟩⟩
  rintro ⟨j, hj, hv⟩
  exact hkey hj ▸ hv

lemma insert (h : Mirrors t key R) {i : ι} {v : V} (hself : ∀ w, R' i w ↔ w = v)
    (hother : ∀ j, j ≠ i → ∀ w, R' j w ↔ R j w) : Mirrors (t.insert (key i) v) key R' := by
  intro k w
  rw [get_insert]
  by_cases hk : key i = k
  · subst hk
    rw [if_pos rfl]
    constructor
    · intro hw
      exact ⟨i, rfl, (hself w).mpr (Option.some.inj hw).symm⟩
    · rintro ⟨j, hj, hw⟩
      rw [(hself w).mp (hkey hj ▸ hw)]
  · rw [if_neg hk, h k w]
    have hne : ∀ j, key j = k → j ≠ i := fun j hj he => hk (he ▸ hj)
    constructor
    · rintro ⟨j, hj, hw⟩
      exact ⟨j, hj, (hother j (hne j hj) w).mpr hw⟩
    · rintro ⟨j, hj, hw⟩
      exact ⟨j, hj, (hother j (hne j hj) w).mp hw⟩

end Injective

lemma cleared (h : Mirrors t key R) {t' : Table V} {hi : Bytes}
    (hin : ∀ i, lo ≤ key i ∧ key i < hi → ∀ v, ¬ R' i v)
    (hout : ∀ i, ¬ (lo ≤ key i ∧ key i < hi) → ∀ v, R' i v ↔ R i v)
    (ht : ∀ k, t'[k]? = if lo ≤ k ∧ k < hi then none else t[k]?) : Mirrors t' key R' := by
  intro k v
  rw [ht]
  by_cases hk : lo ≤ k ∧ k < hi
  · rw [if_pos hk]
    refine ⟨fun hv => ?_, ?_⟩
    · cases hv
    · rintro ⟨i, rfl, hv⟩
      exact absurd hv (hin i hk v)
  · rw [if_neg hk, h k v]
    constructor
    · rintro ⟨i, rfl, hv⟩
      exact ⟨i, rfl, (hout i hk v).mpr hv⟩
    · rintro ⟨i, rfl, hv⟩
      exact ⟨i, rfl, (hout i hk v).mp hv⟩

end Mirrors

end Table

end Base
