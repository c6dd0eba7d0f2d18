import Flux.Verify.Side

namespace Flux.Verify

open Base Wal Walk

structure Pairing where
  blake3 : Bytes → Digest
  src : Contents
  dst : Contents

section Rounds

variable {ω : Type}

def aloneRound (out : Emitter) (i : Item) (outcome : Outcome) (a b : Side ω) : Emitter × Side ω × Side ω :=
  match i.failed, outcome with
  | some e, .extra =>
    (out.emit ⟨i.path, .extra, i.kind, some e.code, e.source.message⟩, a.prune i.path, b.prune i.path)
  | some e, _ => (out.unreadable i.path i.kind e.code e.source.message, a.prune i.path, b.prune i.path)
  | none, _ => (out.alone i outcome, a, b)

def pairRound (p : Pairing) (out : Emitter) (x y : Item) (a b : Side ω) : Emitter × Side ω × Side ω :=
  match x.failed.or y.failed with
  | some e => (out.unreadable x.path x.kind e.code e.source.message, a.prune x.path, b.prune x.path)
  | none =>
    if x.kind = .dir ∧ y.kind = .dir then
      let notEntered := x.notEntered || y.notEntered
      let out := out.emit ⟨x.path, .matched, .dir, none, if notEntered then mountNotEntered else ""⟩
      if notEntered then
        ({ out with summary := { out.summary with notEntered := out.summary.notEntered + 1 } }, a.prune x.path,
          b.prune x.path)
      else (out, a, b)
    else
      let (r, hashed) := comparePair p.blake3 p.src p.dst x.path x.kind y.kind
      ({ out with summary := { out.summary with bytesHashed := out.summary.bytesHashed + hashed } }.emit r, a, b)

variable (nextA nextB : Iter ω)

/-- A fatal error is looked for before anything is emitted: the other side's items are not missing or extra for
it. -/
def mergeStep (p : Pairing) (s : Emitter × Side ω × Side ω) :
    Attempt Empty ((Emitter × Side ω × Side ω) ⊕ (Except FsError Unit × Emitter × Side ω)) := do
  let a ← s.2.1.peek nextA
  let b ← s.2.2.peek nextB
  match a.fatal.or b.fatal with
  | some error => pure (.inr (.error error, s.1, a))
  | none =>
    match a.held, b.held with
    | none, none => pure (.inr (.ok (), s.1, a))
    | some x, none => pure (.inl (aloneRound s.1 x .missing a.release b))
    | none, some y => pure (.inl (aloneRound s.1 y .extra a b.release))
    | some x, some y =>
      match compare x.key y.key with
      | .lt => pure (.inl (aloneRound s.1 x .missing a.release b))
      | .gt => pure (.inl (aloneRound s.1 y .extra a b.release))
      | .eq => pure (.inl (pairRound p s.1 x y a.release b.release))

def mergeSides (p : Pairing) (out : Emitter) (a b : Side ω) :
    Attempt Empty (Except FsError Unit × Emitter × Side ω) :=
  loop (mergeStep nextA nextB p) (out, a, b)

end Rounds

def aloneRecord (i : Item) (outcome : Outcome) : Record :=
  match i.failed, outcome with
  | some e, .extra => ⟨i.path, .extra, i.kind, some e.code, e.source.message⟩
  | some e, _ => ⟨i.path, .unreadable, i.kind, some e.code, e.source.message⟩
  | none, _ => ⟨i.path, outcome, i.kind, none, ""⟩

def pairRecord (p : Pairing) (x y : Item) : Record :=
  match x.failed.or y.failed with
  | some e => ⟨x.path, .unreadable, x.kind, some e.code, e.source.message⟩
  | none =>
    if x.kind = .dir ∧ y.kind = .dir then
      ⟨x.path, .matched, .dir, none, if x.notEntered || y.notEntered then mountNotEntered else ""⟩
    else (comparePair p.blake3 p.src p.dst x.path x.kind y.kind).1

def aloneCut (i : Item) : Option Path := i.failed.map fun _ => i.path

def pairCut (x y : Item) : Option Path :=
  if (x.failed.or y.failed).isSome ∨ (x.kind = .dir ∧ y.kind = .dir ∧ (x.notEntered || y.notEntered)) then
    some x.path
  else none

lemma unpruned_length_le (cut : Option Path) (items : List Item) : (unpruned cut items).length ≤ items.length :=
  List.length_filter_le _ _

def mergeItems (p : Pairing) (stopA stopB : Bool) (as bs : List Item) : List Record :=
  if (as = [] ∧ stopA) ∨ (bs = [] ∧ stopB) then []
  else match as, bs with
    | [], [] => []
    | x :: as, [] => aloneRecord x .missing :: mergeItems p stopA stopB (unpruned (aloneCut x) as) []
    | [], y :: bs => aloneRecord y .extra :: mergeItems p stopA stopB [] (unpruned (aloneCut y) bs)
    | x :: as, y :: bs =>
      match compare x.key y.key with
      | .lt => aloneRecord x .missing ::
          mergeItems p stopA stopB (unpruned (aloneCut x) as) (unpruned (aloneCut x) (y :: bs))
      | .gt => aloneRecord y .extra ::
          mergeItems p stopA stopB (unpruned (aloneCut y) (x :: as)) (unpruned (aloneCut y) bs)
      | .eq => pairRecord p x y :: mergeItems p stopA stopB (unpruned (pairCut x y) as) (unpruned (pairCut x y) bs)
termination_by as.length + bs.length
decreasing_by
  · have := unpruned_length_le (aloneCut x) as
    simp only [List.length_cons, List.length_nil]
    omega
  · have := unpruned_length_le (aloneCut y) bs
    simp only [List.length_cons, List.length_nil]
    omega
  · have := unpruned_length_le (aloneCut x) as
    have := unpruned_length_le (aloneCut x) (y :: bs)
    simp only [List.length_cons] at *
    omega
  · have := unpruned_length_le (aloneCut y) (x :: as)
    have := unpruned_length_le (aloneCut y) bs
    simp only [List.length_cons] at *
    omega
  · have := unpruned_length_le (pairCut x y) as
    have := unpruned_length_le (pairCut x y) bs
    simp only [List.length_cons]
    omega

def Side.cut {ω : Type} (s : Side ω) : Option Path → Side ω
  | none => s
  | some path => s.prune path

structure Item.Keyed (i : Item) : Prop where
  key : i.key = pathKey i.path
  valid : ∀ n ∈ i.path, ValidName n

structure InOrder (items : List Item) : Prop where
  sorted : items.Pairwise fun i j => i.path < j.path
  keyed : ∀ i ∈ items, i.Keyed

lemma InOrder.suffix {items items' : List Item} (h : InOrder items) (hs : items' <:+ items) : InOrder items' :=
  ⟨h.sorted.sublist hs.sublist, fun i hi => h.keyed i (hs.subset hi)⟩

lemma InOrder.unpruned {items : List Item} (h : InOrder items) (cut : Option Path) :
    InOrder (unpruned cut items) :=
  ⟨h.sorted.sublist List.filter_sublist, fun i hi => h.keyed i (List.mem_filter.mp hi).1⟩

variable {i x : Item} {out : Emitter}

lemma InOrder.tail {items : List Item} (h : InOrder (i :: items)) :
    InOrder items ∧ ∀ j ∈ items, i.path < j.path :=
  ⟨h.suffix (List.suffix_cons _ _), fun _ hj => List.rel_of_pairwise_cons h.sorted hj⟩

lemma Item.Keyed.compare_lt {j : Item} (hi : i.Keyed) (hj : j.Keyed) :
    compare i.key j.key = .lt ↔ i.path < j.path := by
  rw [compare_lt_iff, hi.key, hj.key, pathKey_lt_iff hi.valid hj.valid]

lemma Item.Keyed.compare_gt {j : Item} (hi : i.Keyed) (hj : j.Keyed) :
    compare i.key j.key = .gt ↔ j.path < i.path := by
  rw [Std.OrientedCmp.gt_iff_lt, hj.compare_lt hi]

lemma Item.Keyed.compare_eq {j : Item} (hi : i.Keyed) (hj : j.Keyed) :
    compare i.key j.key = .eq ↔ i.path = j.path := by
  rw [compare_eq_iff, hi.key, hj.key]
  exact ⟨pathKey_inj hi.valid hj.valid, fun h => by rw [h]⟩

lemma prefix_of_between {p q r : Path} (hpq : p < q) (hqr : q < r) (h : p <+: r) : p <+: q := by
  induction p generalizing q r with
  | nil => exact List.nil_prefix
  | cons n p ih =>
    obtain ⟨t, rfl⟩ := h
    cases q with
    | nil => exact absurd hpq (by simp)
    | cons m q =>
      rw [List.cons_append] at hqr
      obtain hnm | ⟨rfl, hpq'⟩ := List.cons_lt_cons_iff.mp hpq
      · obtain hmn | ⟨rfl, -⟩ := List.cons_lt_cons_iff.mp hqr
        · exact absurd (hnm.trans hmn) (lt_irrefl _)
        · exact absurd hnm (lt_irrefl _)
      · obtain hnn | ⟨-, hqr⟩ := List.cons_lt_cons_iff.mp hqr
        · exact absurd hnn (lt_irrefl _)
        · exact List.cons_prefix_cons.mpr ⟨rfl, ih hpq' hqr (List.prefix_append p t)⟩

section Sides

variable {ω : Type} {nextA nextB : Iter ω} {fa fb : Option FsError} {a b : Side ω}
  {as bs : List Item}

def Balanced (P Q : Side ω → List Item → Option FsError → Prop) (fa fb : Option FsError) (a b : Side ω)
    (as bs : List Item) : Prop :=
  ∃ rawsA rawsB, P a rawsA fa ∧ Q b rawsB fb ∧ b.pruned = a.pruned ∧ InOrder rawsA ∧ InOrder rawsB ∧
    (∀ p ∈ a.pruned, ∀ i ∈ rawsA ++ rawsB, p < i.path) ∧ as = unpruned a.pruned rawsA ∧
    bs = unpruned a.pruned rawsB

lemma Balanced.symm {P Q : Side ω → List Item → Option FsError → Prop} (h : Balanced P Q fa fb a b as bs) :
    Balanced Q P fb fa b a bs as := by
  obtain ⟨rawsA, rawsB, ha, hb, hpr, hoa, hob, hlater, rfl, rfl⟩ := h
  refine ⟨rawsB, rawsA, hb, ha, hpr.symm, hob, hoa, ?_, by rw [hpr], by rw [hpr]⟩
  intro p hp i hi
  exact hlater p (hpr ▸ hp) i (List.mem_append.mpr (List.mem_append.mp hi).symm)

def Sides (nextA nextB : Iter ω) :
    Option FsError → Option FsError → Side ω → Side ω → List Item → List Item → Prop :=
  Balanced (Shows nextA) (Shows nextB)

def PeekedSides (nextA nextB : Iter ω) :
    Option FsError → Option FsError → Side ω → Side ω → List Item → List Item → Prop :=
  Balanced (Peeked nextA) (Peeked nextB)

lemma not_prefix_of_unpruned {pruned : Option Path} {raws : List Item}
    (h : x :: as = unpruned pruned (x :: raws)) : ∀ p ∈ pruned, ¬ p <+: x.path := by
  have hmem : x ∈ unpruned pruned (x :: raws) := h ▸ List.mem_cons_self
  intro p hp hpx
  exact of_decide_eq_true (List.mem_filter.mp hmem).2 ⟨p, hp, hpx⟩

lemma Sides.peek_returns (h : Sides nextA nextB fa fb a b as bs) :
    Returns (a.peek nextA) fun a' => Returns (b.peek nextB) fun b' =>
    PeekedSides nextA nextB fa fb a' b' as bs := by
  obtain ⟨rawsA, rawsB, ha, hb, hpr, hoa, hob, hlater, rfl, rfl⟩ := h
  apply (Verify.peek_returns ha).imp
  rintro a' ⟨rawsA', ha', hpra, hsa, huna⟩
  apply (Verify.peek_returns hb).imp
  rintro b' ⟨rawsB', hb', hprb, hsb, hunb⟩
  refine ⟨rawsA', rawsB', ha', hb', by rw [hprb, hpra, hpr], hoa.suffix hsa, hob.suffix hsb,
    ?_, by rw [hpra, huna], ?_⟩
  · intro p hp i hi
    obtain hi | hi := List.mem_append.mp hi
    · exact hlater p (hpra ▸ hp) i (List.mem_append_left _ (hsa.subset hi))
    · exact hlater p (hpra ▸ hp) i (List.mem_append_right _ (hsb.subset hi))
  · rw [hpra, ← hpr, hunb]

lemma PeekedSides.facts (h : PeekedSides nextA nextB fa fb a b as bs) : a.held = as.head? ∧ b.held = bs.head? ∧
    a.fatal = (if as = [] then fa else none) ∧ b.fatal = (if bs = [] then fb else none) ∧ InOrder as ∧
    InOrder bs := by
  obtain ⟨rawsA, rawsB, ha, hb, hpr, hoa, hob, hlater, rfl, rfl⟩ := h
  have hbheld := hb.held
  have hbfatal := hb.fatal
  rw [hpr] at hbheld hbfatal
  exact ⟨ha.held, hbheld, ha.fatal, hbfatal, hoa.unpruned _, hob.unpruned _⟩

lemma Shows.cut {next : Iter ω} {s : Side ω} {raws : List Item}
    {fatal : Option FsError} {q : Path} {cut : Option Path} (h : Shows next s raws fatal) (hcut : ∀ c ∈ cut, c = q)
    (hq : ∀ i ∈ raws, q < i.path) (hold : ∀ p ∈ s.pruned, p < q ∧ ¬ p <+: q) :
    ∃ raws', Shows next (s.cut cut) raws' fatal ∧ raws' <:+ raws ∧
      unpruned (s.cut cut).pruned raws' = unpruned cut (unpruned s.pruned raws) := by
  cases cut with
  | none =>
    refine ⟨raws, h, List.suffix_rfl, ?_⟩
    simp [Side.cut, unpruned]
  | some c =>
    obtain rfl := hcut c rfl
    apply h.prune
    intro i hi p hp hpi
    exact absurd (prefix_of_between (hold p hp).1 (hq i hi) hpi) (hold p hp).2

lemma Sides.of_cut {rawsA rawsB : List Item} {q : Path} {cut : Option Path} (ha : Shows nextA a rawsA fa)
    (hb : Shows nextB b rawsB fb) (hpr : b.pruned = a.pruned) (hoa : InOrder rawsA) (hob : InOrder rawsB)
    (hlater : ∀ p ∈ a.pruned, ∀ i ∈ rawsA ++ rawsB, p < i.path) (hcut : ∀ c ∈ cut, c = q)
    (hq : ∀ i ∈ rawsA ++ rawsB, q < i.path) (hold : ∀ p ∈ a.pruned, p < q ∧ ¬ p <+: q) :
    Sides nextA nextB fa fb (a.cut cut) (b.cut cut) (unpruned cut (unpruned a.pruned rawsA))
      (unpruned cut (unpruned a.pruned rawsB)) := by
  obtain ⟨rawsA', ha', hsa, huna⟩ := ha.cut hcut (fun i hi => hq i (List.mem_append_left _ hi)) hold
  obtain ⟨rawsB', hb', hsb, hunb⟩ := hb.cut hcut (fun i hi => hq i (List.mem_append_right _ hi)) (hpr ▸ hold)
  have hpr' : (b.cut cut).pruned = (a.cut cut).pruned := by
    cases cut
    · exact hpr
    · rfl
  refine ⟨rawsA', rawsB', ha', hb', hpr', hoa.suffix hsa, hob.suffix hsb, ?_, huna.symm, ?_⟩
  · intro p hp i hi
    have hi' : i ∈ rawsA ++ rawsB := by
      obtain hi | hi := List.mem_append.mp hi
      · exact List.mem_append_left _ (hsa.subset hi)
      · exact List.mem_append_right _ (hsb.subset hi)
    cases cut with
    | none => exact hlater p hp i hi'
    | some c =>
      obtain rfl := hcut c rfl
      cases hp
      exact hq i hi'
  · rw [← hpr', hunb, hpr]

lemma PeekedSides.left {cut : Option Path} (h : PeekedSides nextA nextB fa fb a b (x :: as) bs)
    (hlt : ∀ y ∈ bs.head?, x.path < y.path) (hcut : ∀ c ∈ cut, c = x.path) :
    Sides nextA nextB fa fb (a.release.cut cut) (b.cut cut) (unpruned cut as) (unpruned cut bs) := by
  obtain ⟨rawsA, rawsB, ha, hb, hpr, hoa, hob, hlater, hx, rfl⟩ := h
  obtain ⟨rawsA', rfl, ha', rfl⟩ := ha.release hx.symm
  have hbx : ∀ i ∈ rawsB, x.path < i.path := by
    cases hraws : unpruned b.pruned rawsB with
    | nil =>
      rw [hb.drained hraws]
      simp
    | cons y rest =>
      obtain ⟨rawsB', rfl, -, -⟩ := hb.release hraws
      have hxy : x.path < y.path := hlt y (by rw [← hpr, hraws]; rfl)
      intro i hi
      obtain rfl | hi := List.mem_cons.mp hi
      · exact hxy
      · exact hxy.trans (hob.tail.2 i hi)
  refine Sides.of_cut (a := a.release) ha' hb.shows hpr hoa.tail.1 hob ?_ hcut ?_ ?_
  · intro p hp i hi
    exact hlater p hp i (List.mem_append.mpr ((List.mem_append.mp hi).imp (List.mem_cons_of_mem _) id))
  · intro i hi
    obtain hi | hi := List.mem_append.mp hi
    · exact hoa.tail.2 i hi
    · exact hbx i hi
  · intro p hp
    exact ⟨hlater p hp x (List.mem_append_left _ List.mem_cons_self), not_prefix_of_unpruned hx p hp⟩

lemma PeekedSides.both {y : Item} {cut : Option Path} (h : PeekedSides nextA nextB fa fb a b (x :: as) (y :: bs))
    (heq : x.path = y.path) (hcut : ∀ c ∈ cut, c = x.path) :
    Sides nextA nextB fa fb (a.release.cut cut) (b.release.cut cut) (unpruned cut as) (unpruned cut bs) := by
  obtain ⟨rawsA, rawsB, ha, hb, hpr, hoa, hob, hlater, hx, hy⟩ := h
  obtain ⟨rawsA', rfl, ha', rfl⟩ := ha.release hx.symm
  rw [← hpr] at hy
  obtain ⟨rawsB', rfl, hb', rfl⟩ := hb.release hy.symm
  rw [hpr]
  refine Sides.of_cut (a := a.release) (b := b.release) ha' hb' hpr hoa.tail.1 hob.tail.1 ?_ hcut ?_ ?_
  · intro p hp i hi
    exact hlater p hp i (List.mem_append.mpr ((List.mem_append.mp hi).imp (List.mem_cons_of_mem _)
      (List.mem_cons_of_mem _)))
  · intro i hi
    obtain hi | hi := List.mem_append.mp hi
    · exact hoa.tail.2 i hi
    · rw [heq]
      exact hob.tail.2 i hi
  · intro p hp
    exact ⟨hlater p hp x (List.mem_append_left _ List.mem_cons_self), not_prefix_of_unpruned hx p hp⟩

end Sides

structure Tallied (out : Emitter) : Prop where
  matched : out.summary.matched = out.records.countP fun r => r.outcome = .matched
  missing : out.summary.missing = out.records.countP fun r => r.outcome = .missing
  mismatched : out.summary.mismatched = out.records.countP fun r => r.outcome = .mismatched
  extra : out.summary.extra = out.records.countP fun r => r.outcome = .extra
  unreadable : out.summary.unreadable = out.records.countP fun r => r.outcome = .unreadable
  notEntered : out.summary.notEntered =
    out.records.countP fun r => r.outcome = .matched ∧ r.detail = mountNotEntered

def Emitter.new : Emitter := ⟨.empty, []⟩

lemma Tallied.new : Tallied .new := ⟨rfl, rfl, rfl, rfl, rfl, rfl⟩

lemma Tallied.emit (h : Tallied out) {r : Record} (hr : r.outcome = .matched → r.detail ≠ mountNotEntered) :
    Tallied (out.emit r) := by
  obtain ⟨path, outcome, kind, code, detail⟩ := r
  cases outcome <;>
    constructor <;> simp_all [Emitter.emit, List.countP_append, h.matched, h.missing, h.mismatched,
      h.extra, h.unreadable, h.notEntered]

lemma Tallied.hashed (h : Tallied out) (n : ℕ) :
    Tallied { out with summary := { out.summary with bytesHashed := n } } :=
  ⟨h.matched, h.missing, h.mismatched, h.extra, h.unreadable, h.notEntered⟩

lemma Tallied.skipped (h : Tallied out) (path : Path) :
    Tallied { out.emit ⟨path, .matched, .dir, none, mountNotEntered⟩ with
      summary := { (out.emit ⟨path, .matched, .dir, none, mountNotEntered⟩).summary with
        notEntered := out.summary.notEntered + 1 } } := by
  constructor <;> simp [Emitter.emit, List.countP_append, h.matched, h.missing, h.mismatched,
    h.extra, h.unreadable, h.notEntered]

section Records

variable {ω : Type} {a b : Side ω}

lemma aloneRound_eq (out : Emitter) (i : Item) (outcome : Outcome) :
    aloneRound out i outcome a b = (out.emit (aloneRecord i outcome), a.cut (aloneCut i), b.cut (aloneCut i)) := by
  unfold aloneRound aloneRecord aloneCut
  cases i.failed with
  | none => rfl
  | some e => cases outcome <;> rfl

lemma aloneRecord_detail (i : Item) {outcome : Outcome} (h : outcome ≠ .matched) :
    (aloneRecord i outcome).outcome ≠ .matched := by
  unfold aloneRecord
  cases i.failed with
  | none => exact h
  | some e => cases outcome <;> simp

lemma aloneCut_eq : ∀ c ∈ aloneCut i, c = i.path := by
  intro c hc
  obtain ⟨e, -, rfl⟩ := Option.map_eq_some_iff.mp hc
  rfl

lemma pairCut_eq {y : Item} : ∀ c ∈ pairCut x y, c = x.path := by
  intro c hc
  rw [pairCut] at hc
  split at hc
  · exact (Option.some.inj hc).symm
  · cases hc

lemma comparePair_detail (p : Pairing) (path : Path) (k l : Kind) :
    (comparePair p.blake3 p.src p.dst path k l).1.outcome = .matched →
      (comparePair p.blake3 p.src p.dst path k l).1.detail ≠ mountNotEntered := by
  intro h
  unfold comparePair at h ⊢
  split at h
  · split at h <;> simp_all [mountNotEntered]
  · split at h
    · simp at h
    · split at h
      · simp at h
      · split at h <;> simp_all [mountNotEntered]
  · simp at h
  · simp at h

lemma pairRound_eq (p : Pairing) (out : Emitter) (x y : Item) :
    (pairRound p out x y a b).1.records = out.records ++ [pairRecord p x y] ∧
      (pairRound p out x y a b).2 = (a.cut (pairCut x y), b.cut (pairCut x y)) ∧
      (Tallied out → Tallied (pairRound p out x y a b).1) := by
  unfold pairRound pairRecord pairCut
  cases x.failed.or y.failed with
  | some e => exact ⟨rfl, rfl, fun h => h.emit (r := ⟨x.path, .unreadable, x.kind, _, _⟩) (by simp)⟩
  | none =>
    simp only [Option.isSome_none, Bool.false_eq_true, false_or]
    by_cases hdirs : x.kind = .dir ∧ y.kind = .dir
    · simp only [hdirs, and_self, if_true, true_and]
      cases x.notEntered || y.notEntered with
      | true => exact ⟨rfl, rfl, fun h => h.skipped x.path⟩
      | false =>
        exact ⟨rfl, rfl, fun h => h.emit (r := ⟨x.path, .matched, .dir, none, ""⟩) (by simp [mountNotEntered])⟩
    · simp only [if_neg hdirs]
      rw [if_neg (fun h => hdirs ⟨h.1, h.2.1⟩)]
      exact ⟨rfl, rfl, fun h => (h.hashed _).emit (comparePair_detail p x.path x.kind y.kind)⟩

end Records

section Merge

variable {ω : Type} {nextA nextB : Iter ω} {fa fb : Option FsError}

structure Merged (p : Pairing) (fa fb : Option FsError) (records : List Record)
    (r : Except FsError Unit × Emitter × Side ω) : Prop where
  records : r.2.1.records = records
  tallied : Tallied r.2.1
  ended : match r.1 with
    | .ok () => fa = none ∧ fb = none
    | .error e => fa = some e ∨ fb = some e

def Merging (nextA nextB : Iter ω) (p : Pairing) (fa fb : Option FsError)
    (records : List Record) (n : ℕ) (s : Emitter × Side ω × Side ω) : Prop :=
  ∃ as bs, Sides nextA nextB fa fb s.2.1 s.2.2 as bs ∧ n = as.length + bs.length ∧ Tallied s.1 ∧
    records = s.1.records ++ mergeItems p fa.isSome fb.isSome as bs

variable {as bs : List Item}

lemma alone_merging {p : Pairing} {records : List Record} {a b : Side ω} (outcome : Outcome) (ht : Tallied out)
    (ho : outcome ≠ .matched) (hs : Sides nextA nextB fa fb (a.cut (aloneCut i)) (b.cut (aloneCut i)) as bs)
    (hr : records = out.records ++ aloneRecord i outcome :: mergeItems p fa.isSome fb.isSome as bs) :
    Merging nextA nextB p fa fb records (as.length + bs.length) (aloneRound out i outcome a b) := by
  rw [aloneRound_eq]
  refine ⟨as, bs, hs, rfl, ht.emit fun h => absurd h (aloneRecord_detail i ho), ?_⟩
  rw [hr, Emitter.emit, List.append_assoc]
  rfl

lemma pair_merging {p : Pairing} {records : List Record} {a b : Side ω} {y : Item} (ht : Tallied out)
    (hs : Sides nextA nextB fa fb (a.cut (pairCut x y)) (b.cut (pairCut x y)) as bs)
    (hr : records = out.records ++ pairRecord p x y :: mergeItems p fa.isSome fb.isSome as bs) :
    Merging nextA nextB p fa fb records (as.length + bs.length) (pairRound p out x y a b) := by
  obtain ⟨hrecords, hsides, htallied⟩ := pairRound_eq (a := a) (b := b) p out x y
  refine ⟨as, bs, by rwa [hsides], rfl, htallied ht, ?_⟩
  rw [hr, hrecords, List.append_assoc]
  rfl

lemma mergeStep_returns {p : Pairing} {records : List Record} {n : ℕ} {s : Emitter × Side ω × Side ω}
    (h : Merging nextA nextB p fa fb records n s) : Returns (mergeStep nextA nextB p s) fun
      | .inl s' => ∃ n', n' < n ∧ Merging nextA nextB p fa fb records n' s'
      | .inr r => Merged p fa fb records r := by
  obtain ⟨out, a, b⟩ := s
  obtain ⟨as, bs, hsides, rfl, htallied, hrecords⟩ := h
  rw [mergeStep]
  apply hsides.peek_returns.bind
  intro a' ha'
  apply ha'.bind
  intro b' hpeeked
  obtain ⟨hheldA, hheldB, hfatalA, hfatalB, hoa, hob⟩ := hpeeked.facts
  cases hfatal : a'.fatal.or b'.fatal with
  | some e =>
    have hcase : (as = [] ∧ fa = some e) ∨ (bs = [] ∧ fb = some e) := by
      obtain h | ⟨-, h⟩ := Option.or_eq_some_iff.mp hfatal
      · rw [hfatalA] at h
        split at h
        · exact .inl ⟨‹_›, h⟩
        · cases h
      · rw [hfatalB] at h
        split at h
        · exact .inr ⟨‹_›, h⟩
        · cases h
    have hnil : mergeItems p fa.isSome fb.isSome as bs = [] := by
      rw [mergeItems.eq_def, if_pos]
      exact hcase.imp (fun h => ⟨h.1, by rw [h.2]; rfl⟩) (fun h => ⟨h.1, by rw [h.2]; rfl⟩)
    refine .pure ⟨?_, htallied, ?_⟩
    · rw [hrecords, hnil, List.append_nil]
    · exact hcase.imp And.right And.right
  | none =>
    have hgo : ¬ ((as = [] ∧ fa.isSome = true) ∨ (bs = [] ∧ fb.isSome = true)) := by
      obtain ⟨hA, hB⟩ := Option.or_eq_none_iff.mp hfatal
      rintro (⟨h, hsome⟩ | ⟨h, hsome⟩)
      · rw [hfatalA, if_pos h] at hA
        simp [hA] at hsome
      · rw [hfatalB, if_pos h] at hB
        simp [hB] at hsome
    rw [mergeItems.eq_def, if_neg hgo] at hrecords
    rw [hheldA, hheldB]
    cases as with
    | nil =>
      cases bs with
      | nil =>
        refine .pure ⟨by simpa using hrecords.symm, htallied, ?_⟩
        simpa using hgo
      | cons y bs =>
        have hs := PeekedSides.left hpeeked.symm (by simp) (aloneCut_eq (i := y))
        refine .pure ⟨_, ?_, alone_merging .extra htallied (by simp) hs.symm hrecords⟩
        have := unpruned_length_le (aloneCut y) bs
        simp [unpruned] at this ⊢
        omega
    | cons x as =>
      cases bs with
      | nil =>
        have hs := hpeeked.left (by simp) (aloneCut_eq (i := x))
        refine .pure ⟨_, ?_, alone_merging .missing htallied (by simp) hs hrecords⟩
        have := unpruned_length_le (aloneCut x) as
        simp [unpruned] at this ⊢
        omega
      | cons y bs =>
        have hx := hoa.keyed x List.mem_cons_self
        have hy := hob.keyed y List.mem_cons_self
        have hlenA := unpruned_length_le
        simp only [List.head?_cons] at hrecords ⊢
        cases hc : compare x.key y.key with
        | lt =>
          rw [hc] at hrecords
          have hlt := (hx.compare_lt hy).mp hc
          have hs := hpeeked.left (by simpa using hlt) (aloneCut_eq (i := x))
          refine .pure ⟨_, ?_, alone_merging .missing htallied (by simp) hs hrecords⟩
          have h₁ := hlenA (aloneCut x) as
          have h₂ := hlenA (aloneCut x) (y :: bs)
          simp only [List.length_cons] at h₂ ⊢
          omega
        | gt =>
          rw [hc] at hrecords
          have hlt := (hx.compare_gt hy).mp hc
          have hs := PeekedSides.left hpeeked.symm (by simpa using hlt) (aloneCut_eq (i := y))
          refine .pure ⟨_, ?_, alone_merging .extra htallied (by simp) hs.symm hrecords⟩
          have h₁ := hlenA (aloneCut y) bs
          have h₂ := hlenA (aloneCut y) (x :: as)
          simp only [List.length_cons] at h₂ ⊢
          omega
        | eq =>
          rw [hc] at hrecords
          have heq := (hx.compare_eq hy).mp hc
          have hs := hpeeked.both heq (pairCut_eq (x := x) (y := y))
          refine .pure ⟨_, ?_, pair_merging htallied hs hrecords⟩
          have h₁ := hlenA (pairCut x y) as
          have h₂ := hlenA (pairCut x y) bs
          simp only [List.length_cons]
          omega

theorem mergeSides_returns (p : Pairing) {a b : Side ω} (hs : Sides nextA nextB fa fb a b as bs)
    (ht : Tallied out) : Returns (mergeSides nextA nextB p out a b)
      (Merged p fa fb (out.records ++ mergeItems p fa.isSome fb.isSome as bs)) := by
  refine Returns.loop (Merging nextA nextB p fa fb (out.records ++ mergeItems p fa.isSome fb.isSome as bs)) ?_
    ⟨as, bs, hs, rfl, ht, rfl⟩
  intro n s hm
  apply (mergeStep_returns hm).imp
  intro r hr
  cases r with
  | inl s' => exact hr
  | inr r => exact hr

end Merge

end Flux.Verify
