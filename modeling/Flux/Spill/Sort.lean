import Flux.Base.Permute
import Flux.Spill.Record

/-! Sorting a run: cached words are sorted with the items' indices, and the items then swapped into place. -/

namespace Flux.Spill

open Base

/-- `slice::sort_unstable_by`: under a total order it returns the items in that order, equal ones anyhow. -/
structure SortUnstable where
  run : {α : Type} → (α → α → Ordering) → List α → List α
  perm : ∀ {α : Type} (cmp : α → α → Ordering) [Std.TransCmp cmp] (xs : List α), (run cmp xs).Perm xs
  sorted : ∀ {α : Type} (cmp : α → α → Ordering) [Std.TransCmp cmp] (xs : List α),
    (run cmp xs).Pairwise fun a b => (cmp a b).isLE = true

instance : Inhabited Keyed := ⟨.plain ⟨[], .file, none⟩⟩

structure SortKey where
  key : ℕ
  name : ℕ
  index : ℕ

def SortKey.of (k : ℕ) (e : Keyed) (i : ℕ) : SortKey := ⟨keyPrefix k e.key, nameWord k e.entry.name, i⟩

def sortKeyCmp (k : ℕ) (v : Array Keyed) (a b : SortKey) : Ordering :=
  (compare a.key b.key).then ((compare a.name b.name).then (keyedCmp k v[a.index]! v[b.index]!))

def sortKeyed (sort : SortUnstable) (k : ℕ) (v : List Keyed) : Attempt FsError (List Keyed) :=
  -- an index is a `u32`
  if 2 ^ 32 < v.length then pure (sort.run (keyedCmp k) v)
  else do
    let keys := v.zipIdx.map fun e => SortKey.of k e.1 e.2
    let keys := sort.run (sortKeyCmp k v.toArray) keys
    let w ← permute (keys.map SortKey.index).toArray v.toArray
    pure w.toList

def sortEntries (sort : SortUnstable) (v : List Keyed) : Attempt FsError (List Keyed) := sortKeyed sort 0 v

def Sorted (k : ℕ) (v : List Keyed) : Prop := v.Pairwise fun a b => (order k a b).isLE = true

lemma keyedCmp_eq_order (k : ℕ) : keyedCmp k = order k := by
  funext a b
  exact keyedCmp_eq k a b

instance keyedCmp_trans (k : ℕ) : Std.TransCmp (keyedCmp k) := by
  rw [keyedCmp_eq_order]
  infer_instance

instance sortKeyCmp_trans (k : ℕ) (v : Array Keyed) : Std.TransCmp (sortKeyCmp k v) := by
  have h : sortKeyCmp k v = compareLex (compareOn SortKey.key) (compareLex (compareOn SortKey.name)
      (compareLex (compareOn fun a => v[a.index]!.key.val.take k) (compareOn fun a =>
        v[a.index]!.entry.name))) := by
    funext a b
    simp only [sortKeyCmp, keyedCmp_eq]
    rfl
  rw [h]
  infer_instance

lemma order_of_sortKeys {k : ℕ} (hk : k ≤ 24) {v : Array Keyed} {a b : SortKey}
    (ha : a = .of k v[a.index]! a.index) (hb : b = .of k v[b.index]! b.index) :
    sortKeyCmp k v a b = order k v[a.index]! v[b.index]! := by
  have hka : a.key = keyPrefix k v[a.index]!.key := congrArg SortKey.key ha
  have hkb : b.key = keyPrefix k v[b.index]!.key := congrArg SortKey.key hb
  have hna : a.name = nameWord k v[a.index]!.entry.name := congrArg SortKey.name ha
  have hnb : b.name = nameWord k v[b.index]!.entry.name := congrArg SortKey.name hb
  have hmin : ∀ key : Block 24, keyPrefix k key = bytesPrefix ((key.val.take k).take (min k 8)) := by
    intro key
    rw [keyPrefix, List.take_take, min_eq_left (min_le_left k 8)]
  rw [sortKeyCmp, keyedCmp_eq, hka, hkb, hna, hnb, hmin, hmin]
  exact words_then (take_key_length hk _) (take_key_length hk _) _ _

lemma sortKeys_spec (k : ℕ) (v : List Keyed) :
    (∀ a ∈ v.zipIdx.map fun e => SortKey.of k e.1 e.2, a = .of k v.toArray[a.index]! a.index) ∧
      (v.zipIdx.map fun e => SortKey.of k e.1 e.2).map SortKey.index = List.range v.length := by
  constructor
  · intro a ha
    obtain ⟨⟨e, i⟩, hei, rfl⟩ := List.mem_map.mp ha
    have hget := List.mem_zipIdx_iff_getElem?.mp hei
    simp [SortKey.of, getElem!_def, hget]
  · rw [List.map_map]
    exact (List.zipIdx_map_snd 0 v).trans (List.range_eq_range' ▸ rfl)

lemma map_getElem!_range (v : List Keyed) : ((List.range v.length).map fun i => v.toArray[i]!) = v := by
  apply List.ext_getElem?
  intro j
  by_cases hj : j < v.length
  · simp [hj, getElem!_def]
  · simp [hj]

lemma toList_of_keys {v : List Keyed} {w : Array Keyed} {keys : List SortKey}
    (hlt : ∀ a ∈ keys, a.index < v.length)
    (hw : ∀ j : ℕ, w[j]? = (keys.map SortKey.index).toArray[j]?.bind fun x => v.toArray[x]?) :
    w.toList = keys.map fun a => v.toArray[a.index]! := by
  apply List.ext_getElem?
  intro j
  rw [Array.getElem?_toList, hw j, List.getElem?_map]
  cases hj : keys[j]? with
  | none => simp [hj]
  | some a =>
    have := hlt a (List.mem_of_getElem? hj)
    simp [hj, getElem!_def, List.getElem?_eq_getElem this]

theorem sortKeyed_returns (sort : SortUnstable) {k : ℕ} (hk : k ≤ 24) (v : List Keyed) :
    Returns (sortKeyed sort k v) fun w => w.Perm v ∧ Sorted k w := by
  unfold sortKeyed
  split
  · refine .pure ⟨sort.perm _ v, ?_⟩
    have h := sort.sorted (keyedCmp k) v
    rw [keyedCmp_eq_order] at h ⊢
    exact h
  · obtain ⟨hof, hidx⟩ := sortKeys_spec k v
    have hperm := sort.perm (sortKeyCmp k v.toArray) (v.zipIdx.map fun e => SortKey.of k e.1 e.2)
    have hsorted := sort.sorted (sortKeyCmp k v.toArray) (v.zipIdx.map fun e => SortKey.of k e.1 e.2)
    dsimp only
    generalize v.zipIdx.map (fun e => SortKey.of k e.1 e.2) = unsorted at *
    generalize sort.run (sortKeyCmp k v.toArray) unsorted = keys at *
    have hrange : (keys.map SortKey.index).toArray.toList.Perm (List.range v.toArray.size) := by
      simpa [hidx] using hperm.map SortKey.index
    apply (permute_returns hrange).bind
    intro w hw
    have hlist : w.toList = keys.map fun a => v.toArray[a.index]! := by
      apply toList_of_keys _ hw.2
      intro a ha
      apply List.mem_range.mp
      rw [← hidx]
      exact List.mem_map_of_mem (hperm.mem_iff.mp ha)
    refine .pure ⟨?_, ?_⟩
    · calc w.toList = (keys.map SortKey.index).map fun i => v.toArray[i]! := by
            rw [hlist, List.map_map]
            rfl
        _ |>.Perm ((unsorted.map SortKey.index).map fun i => v.toArray[i]!) := (hperm.map _).map _
        _ = v := by rw [hidx, map_getElem!_range]
    · rw [hlist, Sorted, List.pairwise_map]
      apply hsorted.imp_of_mem
      intro a b ha hb hab
      rw [← order_of_sortKeys hk (hof a (hperm.mem_iff.mp ha)) (hof b (hperm.mem_iff.mp hb))]
      exact hab

end Flux.Spill
