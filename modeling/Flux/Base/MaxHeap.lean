import Mathlib.Data.List.Sort
import Mathlib.Data.List.TakeDrop
import Mathlib.Order.Defs.LinearOrder

namespace Base

structure MaxHeap (α : Type) [LinearOrder α] where
  items : List α
  sorted : items.Pairwise (· ≤ ·)

namespace MaxHeap

variable {α : Type} [LinearOrder α]

variable {h : MaxHeap α}

@[ext]
lemma ext {k : MaxHeap α} (hk : h.items = k.items) : h = k := by
  cases h
  cases k
  cases hk
  rfl

def empty : MaxHeap α := ⟨[], .nil⟩

def len (h : MaxHeap α) : ℕ := h.items.length

def peek (h : MaxHeap α) : Option α := h.items.getLast?

def push (h : MaxHeap α) (a : α) : MaxHeap α := ⟨h.items.orderedInsert (· ≤ ·) a, h.sorted.orderedInsert a _⟩

def pop (h : MaxHeap α) : MaxHeap α := ⟨h.items.dropLast, h.sorted.sublist (List.dropLast_sublist _)⟩

def intoSortedVec (h : MaxHeap α) : List α := h.items

def pushWithin (cap : ℕ) (h : MaxHeap α) (a : α) : MaxHeap α :=
  if (h.push a).len > cap then (h.push a).pop else h.push a

lemma len_push (h : MaxHeap α) (a : α) : (h.push a).len = h.len + 1 := List.orderedInsert_length _ _ _

variable {cap : ℕ}

lemma pushWithin_items (hl : h.len ≤ cap) (a : α) :
    (h.pushWithin cap a).items = (h.items.orderedInsert (· ≤ ·) a).take cap := by
  have hlen : (h.items.orderedInsert (· ≤ ·) a).length = h.len + 1 := h.len_push a
  unfold pushWithin
  split
  · next hgt =>
    rw [len_push] at hgt
    have hcap : h.len + 1 - 1 = cap := by omega
    calc (h.push a).pop.items = (h.items.orderedInsert (· ≤ ·) a).dropLast := rfl
      _ = _ := by rw [List.dropLast_eq_take, hlen, hcap]
  · next hle =>
    rw [len_push] at hle
    exact (List.take_of_length_le (hlen.trans_le (by omega))).symm

lemma len_pushWithin (hl : h.len ≤ cap) (a : α) : (h.pushWithin cap a).len ≤ cap := by
  rw [len, pushWithin_items hl]
  exact List.length_take_le _ _

lemma orderedInsert_of_forall_le {l : List α} (hl : l.Pairwise (· ≤ ·)) {a : α} (ha : ∀ x ∈ l, x ≤ a) :
    l.orderedInsert (· ≤ ·) a = l ++ [a] := by
  have hperm : (l.orderedInsert (· ≤ ·) a).Perm (l ++ [a]) :=
    (List.perm_orderedInsert _ a l).trans (List.perm_append_singleton a l).symm
  have hsorted : (l ++ [a]).Pairwise (· ≤ ·) := by
    rw [List.pairwise_append]
    refine ⟨hl, List.pairwise_singleton _ _, ?_⟩
    intro x hx y hy
    rw [List.mem_singleton.mp hy]
    exact ha x hx
  exact hperm.eq_of_pairwise' (hl.orderedInsert a _) hsorted

lemma pushWithin_of_full (hl : h.len = cap) {a : α} (ha : ∀ top, h.peek = some top → top ≤ a) :
    h.pushWithin cap a = h := by
  apply ext
  rw [pushWithin_items hl.le]
  have hall : ∀ x ∈ h.items, x ≤ a := by
    intro x hx
    have hne := List.ne_nil_of_mem hx
    have hlast := ha _ (List.getLast?_eq_getLast_of_ne_nil hne)
    have hdrop := List.dropLast_append_getLast hne
    have hs := h.sorted
    rw [← hdrop] at hx hs
    rcases List.mem_append.mp hx with hx | hx
    · exact ((List.pairwise_append.mp hs).2.2 x hx _ List.mem_cons_self).trans hlast
    · rw [List.mem_singleton.mp hx]
      exact hlast
  rw [orderedInsert_of_forall_le h.sorted hall, List.take_left' hl]

lemma take_orderedInsert_take (cap : ℕ) (a : α) (l : List α) :
    ((l.take cap).orderedInsert (· ≤ ·) a).take cap = (l.orderedInsert (· ≤ ·) a).take cap := by
  induction l generalizing cap with
  | nil => rw [List.take_nil]
  | cons x l ih =>
    cases cap with
    | zero => rfl
    | succ n =>
      rw [List.take_succ_cons]
      by_cases hax : a ≤ x
      · have hcons : (x :: l.take n).take n = (x :: l).take n := by
          rw [← List.take_succ_cons, List.take_take, Nat.min_eq_left (Nat.le_succ n)]
        rw [List.orderedInsert_cons_of_le _ _ hax, List.orderedInsert_cons_of_le _ _ hax, List.take_succ_cons,
          List.take_succ_cons, hcons]
      · rw [List.orderedInsert_of_not_le _ _ hax, List.orderedInsert_of_not_le _ _ hax, List.take_succ_cons,
          List.take_succ_cons, ih]

def insertAll (l : List α) : List α := l.foldl (fun s a => s.orderedInsert (· ≤ ·) a) []

lemma insertAll_spec (l : List α) : (insertAll l).Perm l ∧ (insertAll l).Pairwise (· ≤ ·) := by
  suffices h : ∀ s : List α, s.Pairwise (· ≤ ·) →
      (l.foldl (fun s a => s.orderedInsert (· ≤ ·) a) s).Perm (s ++ l) ∧
        (l.foldl (fun s a => s.orderedInsert (· ≤ ·) a) s).Pairwise (· ≤ ·) by
    exact h [] .nil
  induction l with
  | nil => exact fun s hs => ⟨by simp, hs⟩
  | cons a l ih =>
    intro s hs
    obtain ⟨hperm, hsorted⟩ := ih _ (hs.orderedInsert a _)
    refine ⟨hperm.trans ?_, hsorted⟩
    exact ((List.perm_orderedInsert _ a s).append_right l).trans List.perm_middle.symm

lemma foldl_pushWithin (cap : ℕ) (l : List α) :
    (l.foldl (pushWithin cap) empty).items = (insertAll l).take cap := by
  suffices h : ∀ (k : MaxHeap α) (s : List α), k.len ≤ cap → k.items = s.take cap →
      (l.foldl (pushWithin cap) k).items = (l.foldl (fun s a => s.orderedInsert (· ≤ ·) a) s).take cap by
    exact h empty [] (Nat.zero_le _) (List.take_nil).symm
  induction l with
  | nil => exact fun k s _ hk => hk
  | cons a l ih =>
    intro k s hl hk
    apply ih _ _ (len_pushWithin hl a)
    rw [pushWithin_items hl, hk, take_orderedInsert_take]

lemma foldl_pushWithin_perm {l m : List α} (h : l.Perm m) :
    l.foldl (pushWithin cap) empty = m.foldl (pushWithin cap) empty := by
  apply ext
  rw [foldl_pushWithin, foldl_pushWithin]
  obtain ⟨hlp, hls⟩ := insertAll_spec l
  obtain ⟨hmp, hms⟩ := insertAll_spec m
  rw [(hlp.trans (h.trans hmp.symm)).eq_of_pairwise' hls hms]

end MaxHeap

end Base
