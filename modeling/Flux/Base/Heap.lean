import Mathlib.Data.List.Basic
import Mathlib.Data.Nat.Init
import Mathlib.Tactic.Common

namespace Base.Heap

variable {i : ℕ}

section Sift

variable {α : Type} (cmp : α → α → Ordering) (heap : Array α)

def below (i j : ℕ) : Bool :=
  match heap[i]?, heap[j]? with
  | some a, some b => cmp a b == .lt
  | _, _ => false

variable {cmp heap}

lemma below_iff {j : ℕ} :
    below cmp heap i j = true ↔ ∃ a b, heap[i]? = some a ∧ heap[j]? = some b ∧ cmp a b = .lt := by
  unfold below
  split
  · simp_all
  · simp_all

lemma lt_size_of_below {j : ℕ} (h : below cmp heap i j = true) : i < heap.size ∧ j < heap.size := by
  obtain ⟨a, b, ha, hb, -⟩ := below_iff.mp h
  exact ⟨(Array.getElem?_eq_some_iff.mp ha).1, (Array.getElem?_eq_some_iff.mp hb).1⟩

variable (cmp heap)

def least (i : ℕ) : ℕ :=
  let l := 2 * i + 1
  let r := 2 * i + 2
  let min := if below cmp heap l i then l else i
  if below cmp heap r min then r else min

lemma least_cases (i : ℕ) :
    (least cmp heap i = i ∧ below cmp heap (2 * i + 1) i = false ∧ below cmp heap (2 * i + 2) i = false) ∨
    (least cmp heap i = 2 * i + 1 ∧ below cmp heap (2 * i + 1) i = true ∧
      below cmp heap (2 * i + 2) (2 * i + 1) = false) ∨
    (least cmp heap i = 2 * i + 2 ∧ below cmp heap (2 * i + 2) i = true ∧
      below cmp heap (2 * i + 1) i = false) ∨
    (least cmp heap i = 2 * i + 2 ∧ below cmp heap (2 * i + 1) i = true ∧
      below cmp heap (2 * i + 2) (2 * i + 1) = true) := by
  unfold least
  by_cases hl : below cmp heap (2 * i + 1) i = true
  · by_cases hr : below cmp heap (2 * i + 2) (2 * i + 1) = true
    · simp [hl, hr]
    · simp [hl, hr]
  · by_cases hr : below cmp heap (2 * i + 2) i = true
    · simp [hl, hr]
    · simp [hl, hr]

lemma least_lt_size (h : least cmp heap i ≠ i) : i < least cmp heap i ∧ least cmp heap i < heap.size := by
  obtain ⟨h', -⟩ | ⟨h', hb, -⟩ | ⟨h', hb, -⟩ | ⟨h', -, hb⟩ := least_cases cmp heap i
  · exact absurd h' h
  all_goals
    have := (lt_size_of_below hb).1
    omega

def siftUp (heap : Array α) (i : ℕ) : Array α :=
  let parent := (i - 1) / 2
  if 0 < i ∧ below cmp heap i parent = true then siftUp (heap.swapIfInBounds i parent) parent else heap
termination_by i

def siftDown (heap : Array α) (i : ℕ) : Array α :=
  let min := least cmp heap i
  if min = i then heap else siftDown (heap.swapIfInBounds i min) min
termination_by heap.size - i
decreasing_by
  have := least_lt_size cmp heap ‹_›
  simp only [Array.size_swapIfInBounds]
  omega

def removeRoot : Array α := (heap.swapIfInBounds 0 (heap.size - 1)).pop

end Sift

section Content

variable {α : Type} (cmp : α → α → Ordering)

lemma swapIfInBounds_perm (heap : Array α) (i j : ℕ) : (heap.swapIfInBounds i j).Perm heap := by
  rw [Array.swapIfInBounds]
  split
  · split
    · exact Array.swap_perm _ _
    · exact .refl _
  · exact .refl _

lemma siftUp_perm (heap : Array α) (i : ℕ) : (siftUp cmp heap i).Perm heap := by
  induction heap, i using siftUp.induct cmp with
  | case1 heap i parent h ih =>
    rw [siftUp, if_pos h]
    exact ih.trans (swapIfInBounds_perm heap i parent)
  | case2 heap i parent h =>
    rw [siftUp, if_neg h]

lemma siftDown_perm (heap : Array α) (i : ℕ) : (siftDown cmp heap i).Perm heap := by
  induction heap, i using siftDown.induct cmp with
  | case1 heap i min h =>
    rw [siftDown, if_pos h]
  | case2 heap i min h ih =>
    rw [siftDown, if_neg h]
    exact ih.trans (swapIfInBounds_perm heap i min)

variable {heap : Array α}

lemma toList_eq_cons {top : α} (h : heap[0]? = some top) : ∃ others, heap.toList = top :: others := by
  rw [← Array.getElem?_toList] at h
  cases hl : heap.toList with
  | nil => simp [hl] at h
  | cons a others =>
    rw [hl, List.getElem?_cons_zero] at h
    exact ⟨others, by rw [Option.some.inj h]⟩

lemma getElem?_setIfInBounds_zero (heap : Array α) (x : α) (hi : 0 < i) :
    (heap.setIfInBounds 0 x)[i]? = heap[i]? := by
  rw [Array.getElem?_setIfInBounds, if_neg (by omega)]

lemma toList_setIfInBounds_zero {top : α} {others : List α} (h : heap.toList = top :: others) (x : α) :
    (heap.setIfInBounds 0 x).toList = x :: others := by
  rw [Array.toList_setIfInBounds, h]
  rfl

lemma getElem?_removeRoot {a : α} (hi : 0 < i) (h : (removeRoot heap)[i]? = some a) : heap[i]? = some a := by
  have hs := (Array.getElem?_eq_some_iff.mp h).1
  simp only [removeRoot, Array.size_pop, Array.size_swapIfInBounds] at hs
  rw [removeRoot, Array.getElem?_pop, if_pos (by simpa using hs),
    Array.swapIfInBounds, dif_pos (by omega), dif_pos (by omega), Array.getElem?_swap, if_neg (by omega),
    if_neg (by omega)] at h
  exact h

lemma removeRoot_perm {top : α} {others : List α} (h : heap.toList = top :: others) :
    (removeRoot heap).toList.Perm others := by
  have hsize : heap.size = others.length + 1 := by rw [← Array.length_toList, h, List.length_cons]
  have htop : heap[0]? = some top := by rw [← Array.getElem?_toList, h, List.getElem?_cons_zero]
  have hlast : (removeRoot heap).toList ++ [top] = (heap.swapIfInBounds 0 (heap.size - 1)).toList := by
    rw [removeRoot, Array.toList_pop]
    apply List.dropLast_append_getLast?
    rw [List.getLast?_eq_getElem?, Array.length_toList, Array.size_swapIfInBounds, Array.getElem?_toList,
      Array.swapIfInBounds, dif_pos (by omega), dif_pos (by omega), Array.getElem?_swap, if_pos rfl,
      ← Array.getElem?_eq_getElem, htop]
    rfl
  apply (List.perm_cons top).mp
  calc top :: (removeRoot heap).toList
      |>.Perm ((removeRoot heap).toList ++ [top]) := (List.perm_append_singleton _ _).symm
    _ = (heap.swapIfInBounds 0 (heap.size - 1)).toList := hlast
    _ |>.Perm heap.toList := (swapIfInBounds_perm heap 0 (heap.size - 1)).toList
    _ = top :: others := h

end Content

section Order

variable {α : Type} {cmp : α → α → Ordering} {heap : Array α}

def Before (cmp : α → α → Ordering) (heap : Array α) (i j : ℕ) : Prop :=
  ∀ a b, heap[i]? = some a → heap[j]? = some b → (cmp a b).isLE = true

def Ordered (cmp : α → α → Ordering) (heap : Array α) : Prop := ∀ j, 0 < j → Before cmp heap ((j - 1) / 2) j

structure OrderedAbove (cmp : α → α → Ordering) (heap : Array α) (i : ℕ) : Prop where
  others : ∀ j, 0 < j → j ≠ i → Before cmp heap ((j - 1) / 2) j
  across : ∀ j, 0 < j → (j - 1) / 2 = i → 0 < i → Before cmp heap ((i - 1) / 2) j

structure OrderedBelow (cmp : α → α → Ordering) (heap : Array α) (i : ℕ) : Prop where
  others : ∀ j, 0 < j → (j - 1) / 2 ≠ i → Before cmp heap ((j - 1) / 2) j
  across : ∀ j, 0 < j → (j - 1) / 2 = i → 0 < i → Before cmp heap ((i - 1) / 2) j

variable {i j : ℕ}

lemma getElem?_swapIfInBounds (hi : i < heap.size) (hj : j < heap.size) (k : ℕ) :
    (heap.swapIfInBounds i j)[k]? = if k = j then heap[i]? else if k = i then heap[j]? else heap[k]? := by
  rw [Array.swapIfInBounds, dif_pos hi, dif_pos hj, Array.getElem?_swap, Array.getElem?_eq_getElem hi,
    Array.getElem?_eq_getElem hj]
  simp only [eq_comm]

lemma Before.swap_iff (hi : i < heap.size) (hj : j < heap.size) {k l k' l' : ℕ}
    (hk : k' = if k = j then i else if k = i then j else k)
    (hl : l' = if l = j then i else if l = i then j else l) :
    Before cmp (heap.swapIfInBounds i j) k l ↔ Before cmp heap k' l' := by
  have hget : ∀ {m m' : ℕ}, m' = (if m = j then i else if m = i then j else m) →
      (heap.swapIfInBounds i j)[m]? = heap[m']? := by
    intro m m' h
    rw [getElem?_swapIfInBounds hi hj, h]
    split
    · rfl
    · split <;> rfl
  rw [Before, Before, hget hk, hget hl]

lemma before_of_below (h : below cmp heap i j = true) : Before cmp heap i j := by
  intro a b ha hb
  obtain ⟨a', b', ha', hb', hlt⟩ := below_iff.mp h
  obtain rfl : a' = a := Option.some.inj (ha'.symm.trans ha)
  obtain rfl : b' = b := Option.some.inj (hb'.symm.trans hb)
  rw [hlt]
  rfl

lemma below_eq_false (h : ¬ below cmp heap i j = true) : below cmp heap i j = false := by
  simpa using h

lemma Ordered.congr {cmp' : α → α → Ordering} (h : Ordered cmp heap)
    (hc : ∀ a ∈ heap, ∀ b ∈ heap, cmp' a b = cmp a b) : Ordered cmp' heap := by
  intro j hj a b ha hb
  rw [hc a (Array.mem_of_getElem? ha) b (Array.mem_of_getElem? hb)]
  exact h j hj a b ha hb

lemma Ordered.push (h : Ordered cmp heap) (x : α) : OrderedAbove cmp (heap.push x) heap.size := by
  have hget : ∀ j, j ≠ heap.size → (heap.push x)[j]? = heap[j]? := by
    intro j hj
    rw [Array.getElem?_push, if_neg hj]
  constructor
  · intro j hj hne a b ha hb
    rw [hget j hne] at hb
    have hjs := (Array.getElem?_eq_some_iff.mp hb).1
    rw [hget _ (by omega)] at ha
    exact h j hj a b ha hb
  · intro j hj hp hpos a b _ hb
    rw [hget j (by omega)] at hb
    have hjs := (Array.getElem?_eq_some_iff.mp hb).1
    omega

lemma Ordered.of_tail {cmp' : α → α → Ordering} {heap' : Array α} (h : Ordered cmp heap)
    (hc : ∀ a ∈ heap.toList.tail, ∀ b ∈ heap.toList.tail, cmp' a b = cmp a b)
    (hsub : ∀ i a, 0 < i → heap'[i]? = some a → heap[i]? = some a) : OrderedBelow cmp' heap' 0 := by
  have hmem : ∀ i a, 0 < i → heap'[i]? = some a → a ∈ heap.toList.tail := by
    intro i a hi ha
    apply List.mem_of_getElem? (i := i - 1)
    rw [List.getElem?_tail, Nat.sub_add_cancel hi, Array.getElem?_toList]
    exact hsub i a hi ha
  constructor
  · intro j hj hp a b ha hb
    have hpos : 0 < (j - 1) / 2 := Nat.pos_of_ne_zero hp
    rw [hc a (hmem _ a hpos ha) b (hmem j b hj hb)]
    exact h j hj a b (hsub _ a hpos ha) (hsub j b hj hb)
  · intro j _ _ h0
    exact absurd h0 (Nat.lt_irrefl 0)

variable [Std.TransCmp cmp]

lemma before_of_not_below (h : below cmp heap j i = false) : Before cmp heap i j := by
  intro a b ha hb
  have hlt : cmp b a ≠ .lt := fun hlt => by
    rw [below_iff.mpr ⟨b, a, hb, ha, hlt⟩] at h
    exact absurd h (by simp)
  have hswap : cmp a b = (cmp b a).swap := Std.OrientedCmp.eq_swap
  rw [hswap]
  cases hc : cmp b a with
  | lt => exact absurd hc hlt
  | eq => rfl
  | gt => rfl

lemma before_self (i : ℕ) : Before cmp heap i i := by
  intro a b ha hb
  obtain rfl : a = b := Option.some.inj (ha.symm.trans hb)
  have hself : cmp a a = .eq := Std.ReflCmp.compare_self
  rw [hself]
  rfl

lemma Before.trans {k : ℕ} (hj : j < heap.size) (h : Before cmp heap i j) (h' : Before cmp heap j k) :
    Before cmp heap i k := by
  intro a c ha hc
  have hb := Array.getElem?_eq_getElem hj
  exact Std.TransCmp.isLE_trans (h _ _ ha hb) (h' _ _ hb hc)

lemma OrderedAbove.ordered (h : OrderedAbove cmp heap i) (hi : 0 < i → below cmp heap i ((i - 1) / 2) = false) :
    Ordered cmp heap := by
  intro j hj
  by_cases hji : j = i
  · subst hji
    exact before_of_not_below (hi hj)
  · exact h.others j hj hji

lemma OrderedAbove.swap (h : OrderedAbove cmp heap i) (hi : 0 < i) (hb : below cmp heap i ((i - 1) / 2) = true) :
    OrderedAbove cmp (heap.swapIfInBounds i ((i - 1) / 2)) ((i - 1) / 2) := by
  obtain ⟨hsi, hsp⟩ := lt_size_of_below hb
  have hlow := before_of_below hb
  constructor
  · intro j hj hne
    by_cases hji : j = i
    · subst hji
      apply (Before.swap_iff hsi hsp (by rw [if_pos rfl]) (by rw [if_neg (by omega), if_pos rfl])).mpr
      exact hlow
    · by_cases hpi : (j - 1) / 2 = i
      · apply (Before.swap_iff hsi hsp (by rw [if_neg (by omega), if_pos hpi])
          (by rw [if_neg (by omega), if_neg hji])).mpr
        exact h.across j hj hpi hi
      · by_cases hpp : (j - 1) / 2 = (i - 1) / 2
        · apply (Before.swap_iff hsi hsp (by rw [if_pos hpp]) (by rw [if_neg hne, if_neg hji])).mpr
          exact hlow.trans hsp (hpp ▸ h.others j hj hji)
        · apply (Before.swap_iff hsi hsp (by rw [if_neg hpp, if_neg hpi]) (by rw [if_neg hne, if_neg hji])).mpr
          exact h.others j hj hji
  · intro j hj hp hpos
    have hup := h.others ((i - 1) / 2) hpos (by omega)
    by_cases hji : j = i
    · subst hji
      apply (Before.swap_iff hsi hsp (by rw [if_neg (by omega), if_neg (by omega)])
        (by rw [if_neg (by omega), if_pos rfl])).mpr
      exact hup
    · apply (Before.swap_iff hsi hsp (by rw [if_neg (by omega), if_neg (by omega)])
        (by rw [if_neg (by omega), if_neg hji])).mpr
      exact hup.trans hsp (hp ▸ h.others j hj hji)

lemma siftUp_ordered (h : OrderedAbove cmp heap i) : Ordered cmp (siftUp cmp heap i) := by
  induction heap, i using siftUp.induct cmp with
  | case1 heap i parent hb ih =>
    rw [siftUp, if_pos hb]
    exact ih (h.swap hb.1 hb.2)
  | case2 heap i parent hb =>
    rw [siftUp, if_neg hb]
    apply h.ordered
    intro hi
    exact below_eq_false fun h' => hb ⟨hi, h'⟩

lemma least_spec (h : least cmp heap i ≠ i) :
    (least cmp heap i - 1) / 2 = i ∧ Before cmp heap (least cmp heap i) i ∧
      ∀ j, 0 < j → (j - 1) / 2 = i → Before cmp heap (least cmp heap i) j := by
  have hchild : ∀ j, 0 < j → (j - 1) / 2 = i → j = 2 * i + 1 ∨ j = 2 * i + 2 := by omega
  obtain ⟨h', -⟩ | ⟨h', hb, hn⟩ | ⟨h', hb, hn⟩ | ⟨h', hb, hb'⟩ := least_cases cmp heap i
  · exact absurd h' h
  · rw [h']
    refine ⟨by omega, before_of_below hb, fun j hj hp => ?_⟩
    obtain rfl | rfl := hchild j hj hp
    · exact before_self _
    · exact before_of_not_below hn
  · rw [h']
    refine ⟨by omega, before_of_below hb, fun j hj hp => ?_⟩
    obtain rfl | rfl := hchild j hj hp
    · exact (before_of_below hb).trans (lt_size_of_below hb).2 (before_of_not_below hn)
    · exact before_self _
  · rw [h']
    refine ⟨by omega, (before_of_below hb').trans (lt_size_of_below hb).1 (before_of_below hb), fun j hj hp => ?_⟩
    obtain rfl | rfl := hchild j hj hp
    · exact before_of_below hb'
    · exact before_self _

lemma OrderedBelow.ordered (h : OrderedBelow cmp heap i) (hi : least cmp heap i = i) : Ordered cmp heap := by
  obtain ⟨-, hl, hr⟩ | ⟨h', -⟩ | ⟨h', -⟩ | ⟨h', -⟩ := least_cases cmp heap i
  · intro j hj
    by_cases hp : (j - 1) / 2 = i
    · obtain rfl | rfl : j = 2 * i + 1 ∨ j = 2 * i + 2 := by omega
      · rw [hp]
        exact before_of_not_below hl
      · rw [hp]
        exact before_of_not_below hr
    · exact h.others j hj hp
  all_goals omega

lemma OrderedBelow.swap (h : OrderedBelow cmp heap i) (hne : least cmp heap i ≠ i) :
    OrderedBelow cmp (heap.swapIfInBounds i (least cmp heap i)) (least cmp heap i) := by
  obtain ⟨hlt, hsm⟩ := least_lt_size cmp heap hne
  obtain ⟨hp, hlow, hall⟩ := least_spec hne
  generalize least cmp heap i = m at *
  have hsi : i < heap.size := by omega
  constructor
  · intro j hj hpm
    by_cases hpi : (j - 1) / 2 = i
    · by_cases hjm : j = m
      · subst hjm
        apply (Before.swap_iff hsi hsm (by rw [if_neg hpm, if_pos hpi]) (by rw [if_pos rfl])).mpr
        exact hlow
      · apply (Before.swap_iff hsi hsm (by rw [if_neg hpm, if_pos hpi])
          (by rw [if_neg hjm, if_neg (by omega)])).mpr
        exact hall j hj hpi
    · by_cases hji : j = i
      · subst hji
        apply (Before.swap_iff hsi hsm (by rw [if_neg hpm, if_neg hpi])
          (by rw [if_neg (by omega), if_pos rfl])).mpr
        exact h.across m (by omega) hp hj
      · apply (Before.swap_iff hsi hsm (by rw [if_neg hpm, if_neg hpi])
          (by rw [if_neg (by rintro rfl; exact hpi hp), if_neg hji])).mpr
        exact h.others j hj hpi
  · intro j hj hpm hm
    rw [hp]
    apply (Before.swap_iff hsi hsm (by rw [if_neg (by omega), if_pos rfl])
      (by rw [if_neg (by omega), if_neg (by omega)])).mpr
    exact hpm ▸ h.others j hj (by omega)

lemma siftDown_ordered (h : OrderedBelow cmp heap i) : Ordered cmp (siftDown cmp heap i) := by
  induction heap, i using siftDown.induct cmp with
  | case1 heap i min hm =>
    rw [siftDown, if_pos hm]
    exact h.ordered hm
  | case2 heap i min hm ih =>
    rw [siftDown, if_neg hm]
    exact ih (h.swap hm)

lemma Ordered.root (h : Ordered cmp heap) (j : ℕ) : Before cmp heap 0 j := by
  induction j using Nat.strongRecOn with
  | ind j ih =>
    by_cases hj : j = 0
    · subst hj
      exact before_self 0
    · by_cases hs : j < heap.size
      · exact (ih ((j - 1) / 2) (by omega)).trans (by omega) (h j (by omega))
      · intro a b _ hb
        rw [Array.getElem?_eq_none (by omega)] at hb
        simp at hb

end Order

end Base.Heap
