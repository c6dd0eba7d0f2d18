import Flux.Verify.Merge

namespace Flux.Verify

open Base Walk

inductive MergesTo (p : Pairing) (stopA stopB : Bool) : List Item → List Item → List Record → Prop
  | stop {as bs : List Item} : (as = [] ∧ stopA = true) ∨ (bs = [] ∧ stopB = true) →
    MergesTo p stopA stopB as bs []
  | done : MergesTo p stopA stopB [] [] []
  | left {x : Item} {as bs : List Item} {rs : List Record} : (bs = [] → stopB = false) →
      (∀ i ∈ as, x.path < i.path) → (∀ i ∈ bs, x.path < i.path) →
      MergesTo p stopA stopB (unpruned (aloneCut x) as) (unpruned (aloneCut x) bs) rs →
      MergesTo p stopA stopB (x :: as) bs (aloneRecord x .missing :: rs)
  | right {y : Item} {as bs : List Item} {rs : List Record} : (as = [] → stopA = false) →
      (∀ i ∈ as, y.path < i.path) → (∀ i ∈ bs, y.path < i.path) →
      MergesTo p stopA stopB (unpruned (aloneCut y) as) (unpruned (aloneCut y) bs) rs →
      MergesTo p stopA stopB as (y :: bs) (aloneRecord y .extra :: rs)
  | both {x y : Item} {as bs : List Item} {rs : List Record} : x.path = y.path →
      (∀ i ∈ as, x.path < i.path) → (∀ i ∈ bs, x.path < i.path) →
      MergesTo p stopA stopB (unpruned (pairCut x y) as) (unpruned (pairCut x y) bs) rs →
      MergesTo p stopA stopB (x :: as) (y :: bs) (pairRecord p x y :: rs)

lemma mem_of_unpruned {cut : Option Path} {items : List Item} {i : Item} (h : i ∈ unpruned cut items) :
    i ∈ items :=
  (List.mem_filter.mp h).1

lemma mem_unpruned {cut : Option Path} {items : List Item} {i : Item} :
    i ∈ unpruned cut items ↔ i ∈ items ∧ ∀ c ∈ cut, ¬ c <+: i.path := by
  rw [unpruned, List.mem_filter]
  simp

lemma mergesTo (p : Pairing) (stopA stopB : Bool) {as bs : List Item} (ha : InOrder as) (hb : InOrder bs) :
    MergesTo p stopA stopB as bs (mergeItems p stopA stopB as bs) := by
  induction as, bs using mergeItems.induct stopA stopB with
  | case1 as bs h =>
    rw [mergeItems.eq_def, if_pos h]
    exact .stop h
  | case2 h =>
    rw [mergeItems.eq_def, if_neg h]
    exact .done
  | case3 x as h ih =>
    rw [mergeItems.eq_def, if_neg h]
    have hstop : stopB = false := by simpa using h
    exact .left (fun _ => hstop) ha.tail.2 (by simp) (ih (ha.tail.1.unpruned _) hb)
  | case4 y bs h ih =>
    rw [mergeItems.eq_def, if_neg h]
    have hstop : stopA = false := by simpa using h
    exact .right (fun _ => hstop) (by simp) hb.tail.2 (ih ha (hb.tail.1.unpruned _))
  | case5 x as y bs hc h ih =>
    have hxy := ((ha.keyed x List.mem_cons_self).compare_lt (hb.keyed y List.mem_cons_self)).mp hc
    rw [mergeItems.eq_def, if_neg h]
    simp only [hc]
    refine .left (by simp) ha.tail.2 ?_ (ih (ha.tail.1.unpruned _) (hb.unpruned _))
    intro i hi
    obtain rfl | hi := List.mem_cons.mp hi
    · exact hxy
    · exact hxy.trans (hb.tail.2 i hi)
  | case6 x as y bs hc h ih =>
    have hyx := ((ha.keyed x List.mem_cons_self).compare_gt (hb.keyed y List.mem_cons_self)).mp hc
    rw [mergeItems.eq_def, if_neg h]
    simp only [hc]
    refine .right (by simp) ?_ hb.tail.2 (ih (ha.unpruned _) (hb.tail.1.unpruned _))
    intro i hi
    obtain rfl | hi := List.mem_cons.mp hi
    · exact hyx
    · exact hyx.trans (ha.tail.2 i hi)
  | case7 x as y bs hc h ih =>
    have hxy := ((ha.keyed x List.mem_cons_self).compare_eq (hb.keyed y List.mem_cons_self)).mp hc
    rw [mergeItems.eq_def, if_neg h]
    simp only [hc]
    exact .both hxy ha.tail.2 (hxy ▸ hb.tail.2) (ih (ha.tail.1.unpruned _) (hb.tail.1.unpruned _))

section Facts

variable {p : Pairing} {stopA stopB : Bool} {as bs : List Item} {rs : List Record}

lemma aloneRecord_path (i : Item) (outcome : Outcome) : (aloneRecord i outcome).path = i.path := by
  unfold aloneRecord
  cases i.failed with
  | none => rfl
  | some e => cases outcome <;> rfl

lemma comparePair_path (p : Pairing) (path : Path) (k l : Kind) :
    (comparePair p.blake3 p.src p.dst path k l).1.path = path := by
  unfold comparePair
  split
  · split <;> rfl
  · split
    · rfl
    · split
      · rfl
      · split <;> rfl
  · rfl
  · rfl

lemma pairRecord_path (p : Pairing) (x y : Item) : (pairRecord p x y).path = x.path := by
  unfold pairRecord
  cases x.failed.or y.failed with
  | some e => rfl
  | none =>
    simp only []
    split
    · rfl
    · exact comparePair_path p x.path x.kind y.kind

inductive Origin (p : Pairing) (stopA stopB : Bool) (as bs : List Item) : Record → Prop
  | left {x : Item} : x ∈ as → (stopB = true → ∃ y ∈ bs, x.path < y.path) →
      Origin p stopA stopB as bs (aloneRecord x .missing)
  | right {y : Item} : y ∈ bs → (stopA = true → ∃ x ∈ as, y.path < x.path) →
      Origin p stopA stopB as bs (aloneRecord y .extra)
  | both {x y : Item} : x ∈ as → y ∈ bs → Origin p stopA stopB as bs (pairRecord p x y)

lemma Origin.mono {as' bs' : List Item} {r : Record} (h : Origin p stopA stopB as bs r) (ha : as ⊆ as')
    (hb : bs ⊆ bs') : Origin p stopA stopB as' bs' r := by
  cases h with
  | left hx hlater => exact .left (ha hx) fun hs => (hlater hs).imp fun _ hy => ⟨hb hy.1, hy.2⟩
  | right hy hlater => exact .right (hb hy) fun hs => (hlater hs).imp fun _ hx => ⟨ha hx.1, hx.2⟩
  | both hx hy => exact .both (ha hx) (hb hy)

lemma exists_later {q : Path} {items : List Item} {stop : Bool} (hne : items = [] → stop = false)
    (h : ∀ i ∈ items, q < i.path) (hs : stop = true) : ∃ i ∈ items, q < i.path := by
  cases items with
  | nil => simp [hne rfl] at hs
  | cons i items => exact ⟨i, List.mem_cons_self, h i List.mem_cons_self⟩

lemma MergesTo.origin (h : MergesTo p stopA stopB as bs rs) : ∀ r ∈ rs, Origin p stopA stopB as bs r := by
  have hsub (cut : Option Path) (items : List Item) : unpruned cut items ⊆ items := fun _ => mem_of_unpruned
  induction h with
  | stop _ => simp
  | done => simp
  | left hne _ hb _ ih =>
    intro r hr
    obtain rfl | hr := List.mem_cons.mp hr
    · exact .left List.mem_cons_self (exists_later hne hb)
    · exact (ih r hr).mono (List.subset_cons_of_subset _ (hsub _ _)) (hsub _ _)
  | right hne ha _ _ ih =>
    intro r hr
    obtain rfl | hr := List.mem_cons.mp hr
    · exact .right List.mem_cons_self (exists_later hne ha)
    · exact (ih r hr).mono (hsub _ _) (List.subset_cons_of_subset _ (hsub _ _))
  | both _ _ _ _ ih =>
    intro r hr
    obtain rfl | hr := List.mem_cons.mp hr
    · exact .both List.mem_cons_self List.mem_cons_self
    · exact (ih r hr).mono (List.subset_cons_of_subset _ (hsub _ _)) (List.subset_cons_of_subset _ (hsub _ _))

lemma MergesTo.path_mem (h : MergesTo p stopA stopB as bs rs) : ∀ r ∈ rs, ∃ i ∈ as ++ bs, r.path = i.path := by
  intro r hr
  cases h.origin r hr with
  | left hx _ => exact ⟨_, List.mem_append_left _ hx, aloneRecord_path _ _⟩
  | right hy _ => exact ⟨_, List.mem_append_right _ hy, aloneRecord_path _ _⟩
  | both hx _ => exact ⟨_, List.mem_append_left _ hx, pairRecord_path p _ _⟩

lemma MergesTo.sorted (h : MergesTo p stopA stopB as bs rs) : (rs.map Record.path).Pairwise (· < ·) := by
  have hhead : ∀ {cut : Option Path} {as bs : List Item} {rs : List Record} {q : Path},
      MergesTo p stopA stopB (unpruned cut as) (unpruned cut bs) rs → (∀ i ∈ as, q < i.path) →
        (∀ i ∈ bs, q < i.path) → ∀ q' ∈ rs.map Record.path, q < q' := by
    intro cut as bs rs q hm ha hb q' hq'
    obtain ⟨r, hr, rfl⟩ := List.mem_map.mp hq'
    obtain ⟨i, hi, heq⟩ := hm.path_mem r hr
    rw [heq]
    obtain hi | hi := List.mem_append.mp hi
    · exact ha i (mem_of_unpruned hi)
    · exact hb i (mem_of_unpruned hi)
  induction h with
  | stop _ => exact .nil
  | done => exact .nil
  | left _ ha hb hm ih =>
    rw [List.map_cons, aloneRecord_path]
    exact .cons (hhead hm ha hb) ih
  | right _ ha hb hm ih =>
    rw [List.map_cons, aloneRecord_path]
    exact .cons (hhead hm ha hb) ih
  | both _ ha hb hm ih =>
    rw [List.map_cons, pairRecord_path]
    exact .cons (hhead hm ha hb) ih

lemma aloneRecord_missing (i : Item) : (aloneRecord i .missing).outcome = .missing ∨
    (aloneRecord i .missing).outcome = .unreadable := by
  unfold aloneRecord
  cases i.failed with
  | none => exact .inl rfl
  | some e => exact .inr rfl

lemma aloneRecord_extra (i : Item) : (aloneRecord i .extra).outcome = .extra := by
  unfold aloneRecord
  cases i.failed <;> rfl

lemma comparePair_outcome (p : Pairing) (path : Path) (k l : Kind) :
    (comparePair p.blake3 p.src p.dst path k l).1.outcome ≠ .missing ∧
      (comparePair p.blake3 p.src p.dst path k l).1.outcome ≠ .extra := by
  unfold comparePair
  split
  · split <;> simp
  · split
    · simp
    · split
      · simp
      · split <;> simp
  · simp
  · simp

lemma pairRecord_outcome (p : Pairing) (x y : Item) :
    (pairRecord p x y).outcome ≠ .missing ∧ (pairRecord p x y).outcome ≠ .extra := by
  unfold pairRecord
  cases x.failed.or y.failed with
  | some e => simp
  | none =>
    simp only []
    split
    · simp
    · exact comparePair_outcome p x.path x.kind y.kind

lemma MergesTo.missing_before (h : MergesTo p stopA true as bs rs) :
    ∀ r ∈ rs, r.outcome = .missing → ∃ y ∈ bs, r.path < y.path := by
  intro r hr hout
  cases h.origin r hr with
  | left _ hlater =>
    rw [aloneRecord_path]
    exact hlater rfl
  | right _ _ =>
    rw [aloneRecord_extra] at hout
    cases hout
  | both _ _ => exact absurd hout (pairRecord_outcome p _ _).1

lemma MergesTo.extra_before (h : MergesTo p true stopB as bs rs) :
    ∀ r ∈ rs, r.outcome = .extra → ∃ x ∈ as, r.path < x.path := by
  intro r hr hout
  cases h.origin r hr with
  | @left x _ _ => obtain hm | hm := aloneRecord_missing x <;> simp [hm] at hout
  | right _ hlater =>
    rw [aloneRecord_path]
    exact hlater rfl
  | both _ _ => exact absurd hout (pairRecord_outcome p _ _).2

def Item.Plain (i : Item) : Prop := i.failed = none ∧ i.notEntered = false

def Alone (outcome : Outcome) (as bs : List Item) (r : Record) : Prop :=
  ∃ x ∈ as, (∀ y ∈ bs, y.path ≠ x.path) ∧ r = aloneRecord x outcome

def Paired (p : Pairing) (as bs : List Item) (r : Record) : Prop :=
  ∃ x ∈ as, ∃ y ∈ bs, x.path = y.path ∧ r = pairRecord p x y

def IsRecord (p : Pairing) (as bs : List Item) (r : Record) : Prop :=
  Alone .missing as bs r ∨ Alone .extra bs as r ∨ Paired p as bs r

lemma unpruned_none (items : List Item) : unpruned none items = items := by
  simp [unpruned]

lemma Item.Plain.aloneCut {i : Item} (h : i.Plain) : aloneCut i = none := by
  rw [Verify.aloneCut, h.1]
  rfl

variable {x y : Item}

lemma Item.Plain.pairCut (hx : x.Plain) (hy : y.Plain) : pairCut x y = none := by
  simp [Verify.pairCut, hx.1, hy.1, hx.2, hy.2]

section Records

variable {outcome : Outcome} {r : Record}

lemma alone_cons (hb : ∀ i ∈ bs, x.path < i.path) :
    Alone outcome (x :: as) bs r ↔ r = aloneRecord x outcome ∨ Alone outcome as bs r := by
  rw [Alone, List.exists_mem_cons_iff]
  exact or_congr_left (and_iff_right fun i hi => (hb i hi).ne')

lemma alone_cons_right (ha : ∀ i ∈ as, y.path < i.path) :
    Alone outcome as (y :: bs) r ↔ Alone outcome as bs r := by
  refine exists_congr fun i => and_congr_right fun hi => ?_
  rw [List.forall_mem_cons, and_iff_right (ha i hi).ne]

lemma alone_cons_both (hxy : x.path = y.path) (ha : ∀ i ∈ as, x.path < i.path) :
    Alone outcome (x :: as) (y :: bs) r ↔ Alone outcome as bs r := by
  have hnot : ¬ ((∀ i ∈ y :: bs, i.path ≠ x.path) ∧ r = aloneRecord x outcome) :=
    fun h => h.1 y List.mem_cons_self hxy.symm
  rw [Alone, List.exists_mem_cons_iff, or_iff_right hnot]
  exact alone_cons_right (hxy ▸ ha)

lemma paired_cons (hb : ∀ i ∈ bs, x.path < i.path) : Paired p (x :: as) bs r ↔ Paired p as bs r := by
  rw [Paired, List.exists_mem_cons_iff]
  exact or_iff_right fun ⟨i, hi, heq, _⟩ => (hb i hi).ne heq

lemma paired_cons_right (ha : ∀ i ∈ as, y.path < i.path) : Paired p as (y :: bs) r ↔ Paired p as bs r := by
  refine exists_congr fun i => and_congr_right fun hi => ?_
  rw [List.exists_mem_cons_iff]
  exact or_iff_right fun h => (ha i hi).ne' h.1

lemma paired_cons_both (hxy : x.path = y.path) (ha : ∀ i ∈ as, x.path < i.path) (hb : ∀ i ∈ bs, x.path < i.path) :
    Paired p (x :: as) (y :: bs) r ↔ r = pairRecord p x y ∨ Paired p as bs r := by
  have hx : (∃ i ∈ bs, x.path = i.path ∧ r = pairRecord p x i) ↔ False :=
    iff_of_false (fun ⟨i, hi, heq, _⟩ => (hb i hi).ne heq) id
  rw [Paired, List.exists_mem_cons_iff, List.exists_mem_cons_iff, hx, or_false, and_iff_right hxy]
  exact or_congr_right (paired_cons_right (hxy ▸ ha))

end Records

lemma MergesTo.mem_iff (h : MergesTo p false false as bs rs) (hplain : ∀ i ∈ as ++ bs, i.Plain) (r : Record) :
    r ∈ rs ↔ IsRecord p as bs r := by
  induction h with
  | stop hstop => simp at hstop
  | done => simp [IsRecord, Alone, Paired]
  | @left x as bs rs _ ha hb _ ih =>
    have hx : x.Plain := hplain x (by simp)
    rw [hx.aloneCut, unpruned_none, unpruned_none] at ih
    rw [List.mem_cons, ih fun i hi => hplain i (List.mem_cons_of_mem _ hi), IsRecord, IsRecord, alone_cons hb,
      alone_cons_right hb, paired_cons hb, or_assoc]
  | @right y as bs rs _ ha hb _ ih =>
    have hy : y.Plain := hplain y (by simp)
    rw [hy.aloneCut, unpruned_none, unpruned_none] at ih
    rw [List.mem_cons, ih fun i hi => hplain i (by simp at hi ⊢; tauto), IsRecord, IsRecord, alone_cons_right ha,
      alone_cons ha, paired_cons_right ha, or_assoc, or_left_comm]
  | @both x y as bs rs hxy ha hb _ ih =>
    rw [(hplain x (by simp)).pairCut (hplain y (by simp)), unpruned_none, unpruned_none] at ih
    rw [List.mem_cons, ih fun i hi => hplain i (by simp at hi ⊢; tauto), IsRecord, IsRecord,
      alone_cons_both hxy ha, alone_cons_both hxy.symm (hxy ▸ hb), paired_cons_both hxy ha hb]
    tauto

def Clean (r : Record) : Prop := r.outcome = .matched ∨ r.outcome = .extra

def Closed (as bs : List Item) : Prop :=
  ∀ x ∈ as, ∀ q, q ≠ [] → q <+: x.path → q ≠ x.path → (∃ x' ∈ as, x'.path = q) ∨ ∀ y ∈ bs, q < y.path

def Trusted (p : Pairing) (as bs : List Item) (x : Item) : Prop :=
  (∃ y ∈ bs, y.path = x.path ∧ (pairRecord p x y).outcome = .matched) ∨
    ∃ x' ∈ as, ∃ y' ∈ bs, x'.path = y'.path ∧ x'.path <+: x.path ∧ x'.path ≠ x.path ∧
      (x'.notEntered = true ∨ y'.notEntered = true)

lemma Trusted.mono {as bs as' bs' : List Item} (h : Trusted p as bs x) (ha : as ⊆ as') (hb : bs ⊆ bs') :
    Trusted p as' bs' x := by
  obtain ⟨y, hy, hmatch⟩ | ⟨x', hx', y', hy', hrest⟩ := h
  · exact .inl ⟨y, hb hy, hmatch⟩
  · exact .inr ⟨x', ha hx', y', hb hy', hrest⟩

lemma not_failed_of_matched (h : (pairRecord p x y).outcome = .matched) : x.failed.or y.failed = none := by
  cases hf : x.failed.or y.failed with
  | none => rfl
  | some e =>
    rw [pairRecord, hf] at h
    cases h

lemma pairCut_of_matched {c : Path} (h : (pairRecord p x y).outcome = .matched) (hc : pairCut x y = some c) :
    c = x.path ∧ (x.notEntered = true ∨ y.notEntered = true) := by
  refine ⟨pairCut_eq c hc, ?_⟩
  rw [pairCut, not_failed_of_matched h] at hc
  split at hc
  · rename_i hcase
    obtain hsome | ⟨-, -, hnot⟩ := hcase
    · cases hsome
    · exact Bool.or_eq_true_iff.mp hnot
  · cases hc

lemma MergesTo.trusted (h : MergesTo p false false as bs rs) (hclean : ∀ r ∈ rs, Clean r) (hclosed : Closed as bs)
    (hne : ∀ i ∈ bs, i.path ≠ []) : ∀ x ∈ as, Trusted p as bs x := by
  induction h with
  | stop hstop => simp at hstop
  | done => simp
  | @left x as bs rs _ _ _ _ _ =>
    have hx := hclean _ List.mem_cons_self
    have hx' := aloneRecord_missing x
    simp only [Clean] at hx
    rcases hx' with h | h <;> simp [h] at hx
  | @right y as bs rs _ ha hb _ ih =>
    -- nothing of the first list lies below a directory only the second one has
    have hkeep : unpruned (aloneCut y) as = as := by
      refine List.filter_eq_self.mpr ?_
      intro x hx
      have hnot : ¬ y.path <+: x.path := by
        intro hyx
        obtain ⟨x', hx', heq⟩ | hall := hclosed x hx y.path (hne y List.mem_cons_self) hyx (ha x hx).ne
        · exact absurd heq (ha x' hx').ne'
        · exact absurd (hall y List.mem_cons_self) (lt_irrefl _)
      simp only [decide_eq_true_eq]
      rintro ⟨c, hc, hcx⟩
      exact hnot (aloneCut_eq c hc ▸ hcx)
    rw [hkeep] at ih
    intro x hx
    refine (ih (fun r hr => hclean r (List.mem_cons_of_mem _ hr)) ?_ ?_ x hx).mono (List.Subset.refl _) ?_
    · intro x hx q hq hqx hqne
      exact (hclosed x hx q hq hqx hqne).imp id fun hall y' hy' =>
        hall y' (List.mem_cons_of_mem _ (mem_of_unpruned hy'))
    · intro i hi
      exact hne i (List.mem_cons_of_mem _ (mem_of_unpruned hi))
    · intro i hi
      exact List.mem_cons_of_mem _ (mem_of_unpruned hi)
  | @both x y as bs rs hxy ha hb _ ih =>
    have hmatch : (pairRecord p x y).outcome = .matched :=
      (hclean _ List.mem_cons_self).resolve_right (pairRecord_outcome p x y).2
    intro i hi
    obtain rfl | hi := List.mem_cons.mp hi
    · exact .inl ⟨y, List.mem_cons_self, hxy.symm, hmatch⟩
    by_cases hcut : ∃ c ∈ pairCut x y, c <+: i.path
    · obtain ⟨c, hc, hci⟩ := hcut
      obtain ⟨rfl, hnot⟩ := pairCut_of_matched hmatch hc
      exact .inr ⟨x, List.mem_cons_self, y, List.mem_cons_self, hxy, hci, (ha i hi).ne, hnot⟩
    · have hi' : i ∈ unpruned (pairCut x y) as := mem_unpruned.mpr ⟨hi, fun c hc hci => hcut ⟨c, hc, hci⟩⟩
      refine (ih (fun r hr => hclean r (List.mem_cons_of_mem _ hr)) ?_ ?_ i hi').mono ?_ ?_
      · intro j hj q hq hqj hqne
        obtain ⟨hj, hjcut⟩ := mem_unpruned.mp hj
        obtain ⟨x', hx', rfl⟩ | hall := hclosed j (List.mem_cons_of_mem _ hj) q hq hqj hqne
        · obtain rfl | hx' := List.mem_cons.mp hx'
          · exact .inr fun y' hy' => hb y' (mem_of_unpruned hy')
          · exact .inl ⟨x', mem_unpruned.mpr ⟨hx', fun c hc hcx => hjcut c hc (hcx.trans hqj)⟩, rfl⟩
        · exact .inr fun y' hy' => hall y' (List.mem_cons_of_mem _ (mem_of_unpruned hy'))
      · intro j hj
        exact hne j (List.mem_cons_of_mem _ (mem_of_unpruned hj))
      · intro j hj
        exact List.mem_cons_of_mem _ (mem_of_unpruned hj)
      · intro j hj
        exact List.mem_cons_of_mem _ (mem_of_unpruned hj)

end Facts

end Flux.Verify
