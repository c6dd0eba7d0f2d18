import Flux.Verify.Items

namespace Flux.Verify

open Base Wal Walk

structure Options where
  skipLinks : Bool
  mounts : MountPolicy
  select : Path → FileType → Verdict

structure Root (σ E : Type) where
  metadata : Path → Except FsError Metadata
  mountRoot : Path → Except FsError MountRoot
  lister : Lister σ E
  space : σ
  contents : Contents

inductive RootVerdict where
  | absent
  | unreadable (side : String) (error : FsError)
  | checked (destIdentity : Option ObjectId)

inductive VerifyError where
  | refusedRoots (reason : String)
  | failed (error : FsError)

section Run

variable {σ E : Type}

def Root.config (r : Root σ E) (o : Options) : Config :=
  ⟨r.metadata, r.mountRoot, o.select, defaultMaxDepth, o.mounts⟩

def Side.new (cfg : Config) (lister : Lister σ E) (space : σ) (skipLinks : Bool) (filter : ControlFilter) :
    Attempt Empty (Except FsError (Side (State σ E))) :=
  match unstarted cfg space with
  | .error e => pure (.error e)
  | .ok w => do
    let (started, w) ← start lister w
    match started with
    | .ok () => pure (.ok (.ofStarted skipLinks filter w none))
    | .error e =>
      if e.fatal then pure (.ok (.ofStarted skipLinks filter w (some e.cause))) else pure (.error e.cause)

def rootUnreadable (out : Emitter) (detail : String) (code : Code) : Emitter :=
  out.unreadable [[46]] .dir code detail

def sourceLabel : String := "source: "

def destinationLabel : String := "destination: "

def destinationSide (o : Options) (filter : ControlFilter) (dst : Root σ E) (absent : Bool) :
    Attempt Empty (Except FsError (Side (State σ E))) :=
  if absent then pure (.ok .empty) else Side.new (dst.config o) dst.lister dst.space false filter

def compareSides (blake3 : Bytes → Digest) (o : Options) (filter : ControlFilter)
    (src dst : Root σ E) (absent : Bool) (out : Emitter) : Attempt Empty (Except FsError Unit × Emitter) := do
  match ← Side.new (src.config o) src.lister src.space o.skipLinks .none with
  | .error e => pure (.ok (), rootUnreadable out (sourceLabel ++ e.source.message) e.code)
  | .ok a =>
    match ← destinationSide o filter dst absent with
    | .error e =>
      -- a fatal error of the source is not lost to the destination's root
      match a.fatal with
      | some error => pure (.error error, out)
      | none => pure (.ok (), rootUnreadable out (destinationLabel ++ e.source.message) e.code)
    | .ok b =>
      let (result, out, a) ← mergeSides (next (src.config o) src.lister) (next (dst.config o) dst.lister)
        ⟨blake3, src.contents, dst.contents⟩ out a b
      match result with
      | .error error => pure (.error error, out)
      | .ok () =>
        let excluded := a.walk.elim 0 State.excluded
        pure (.ok (), { out with summary := { out.summary with excluded := out.summary.excluded + excluded } })

def walkChecked (blake3 : Bytes → Digest) (o : Options) (filter : ControlFilter) (src dst : Root σ E)
    (verdict : RootVerdict) (out : Emitter) : Attempt Empty (Except FsError Unit × Emitter) :=
  match verdict with
  | .unreadable side error => pure (.ok (), rootUnreadable out (side ++ error.source.message) error.code)
  | .absent => compareSides blake3 o filter src dst true out
  | .checked _ => compareSides blake3 o filter src dst false out

/-- `checked` is what looking at the two roots came to, a reason to refuse them included. -/
def verifyTree (blake3 : Bytes → Digest) (o : Options) (src dst : Root σ E) (checked : Except String RootVerdict) :
    Attempt Empty (Except VerifyError Summary × List Record) :=
  match checked with
  | .error reason => pure (.error (.refusedRoots reason), [])
  | .ok verdict => do
    let (result, out) ← walkChecked blake3 o .root src dst verdict .new
    match result with
    | .error e => pure (.error (.failed e), out.records)
    | .ok () => pure (.ok out.summary, out.records)

end Run

section Spec

variable {σ E : Type} {listing : Path → Listed} {Live : σ → Remainders E → Prop}

def sideItems (skipLinks : Bool) (filter : ControlFilter) : RootSeen → Option (List Item × Option FsError)
  | .failed _ => none
  | .halted cause => some ([], some cause)
  | .entered entries => some (scan skipLinks filter (entries.events []), fatalOf (entries.events []))

def NewSide (next : Iter (State σ E))
    (items : Option (List Item × Option FsError)) (r : Except FsError (Side (State σ E))) : Prop :=
  match items with
  | none => ∃ e, r = .error e
  | some (raws, fatal) =>
    ∃ s, r = .ok s ∧ s.pruned = none ∧ Shows next s raws fatal ∧ (s.fatal = none ∨ s.fatal = fatal)

variable {cfg : Config} {lister : Lister σ E} {src dst : Root σ E}

lemma newSide_of_started {skipLinks : Bool} {filter : ControlFilter} {w : State σ E} {entries : SeenList}
    (h : Yields (next cfg lister) w (untilFatal (entries.events []))) :
    Shows (next cfg lister) (.ofStarted skipLinks filter w none) (scan skipLinks filter (entries.events []))
      (fatalOf (entries.events [])) := by
  refine ⟨by simp [Side.ofStarted], .inr ⟨rfl, rfl, untilFatal (entries.events []), h, ?_, fatalOf_untilFatal _⟩⟩
  exact (scan_untilFatal _).symm

lemma Side.new_returns {space : σ} {m : Metadata} {seen : RootSeen} (hlister : Lawful Live lister listing)
    (hlive : Live space []) (hm : cfg.metadata [] = .ok m) (hdir : m.fileType = .dir)
    (hu : RootUnfolds cfg listing m.identity seen) (skipLinks : Bool) (filter : ControlFilter) :
    Returns (Side.new cfg lister space skipLinks filter)
    (NewSide (next cfg lister) (sideItems skipLinks filter seen)) := by
  rw [Side.new, unstarted_eq hm hdir]
  apply (start_returns hlister hlive hu).bind
  rintro ⟨started, w⟩ ⟨hstarted, -⟩
  cases seen with
  | failed cause =>
    obtain ⟨rfl, -⟩ := hstarted
    exact .pure ⟨cause, rfl⟩
  | halted cause =>
    obtain ⟨rfl, -⟩ := hstarted
    exact .pure ⟨_, rfl, rfl, ⟨by simp [Side.ofStarted], .inl ⟨rfl, rfl, rfl, rfl⟩⟩, .inr rfl⟩
  | entered entries =>
    obtain ⟨rfl, hyields⟩ := hstarted
    exact .pure ⟨_, rfl, rfl, newSide_of_started hyields, .inl rfl⟩

lemma Side.new_fails {space : σ} (skipLinks : Bool) (filter : ControlFilter)
    (h : ∀ m, cfg.metadata [] = .ok m → m.fileType ≠ .dir) :
    Returns (Side.new cfg lister space skipLinks filter) (NewSide (next cfg lister) none) := by
  rw [Side.new, unstarted]
  cases hm : cfg.metadata [] with
  | error e => exact .pure ⟨e, rfl⟩
  | ok m =>
    simp only [if_pos (h m hm)]
    exact .pure ⟨_, rfl⟩

lemma empty_shows {next : Iter (State σ E)} :
    Shows next (Side.empty : Side (State σ E)) [] none :=
  ⟨by simp [Side.empty], .inl ⟨rfl, rfl, rfl, rfl⟩⟩

inductive Compared (p : Pairing) : Option (List Item × Option FsError) → Option (List Item × Option FsError) →
    Except FsError Unit × Emitter → Prop
  | source {b : Option (List Item × Option FsError)} {detail : String} {code : Code} :
      Compared p none b (.ok (), rootUnreadable .new detail code)
  | destination {a : List Item × Option FsError} {detail : String} {code : Code} :
      Compared p (some a) none (.ok (), rootUnreadable .new detail code)
  | lost {a : List Item × Option FsError} {error : FsError} : Compared p (some a) none (.error error, .new)
  | merged {as bs : List Item} {fa fb : Option FsError} {r : Except FsError Unit × Emitter} :
      r.2.records = mergeItems p fa.isSome fb.isSome as bs → Tallied r.2 →
      (match r.1 with
        | .ok () => fa = none ∧ fb = none
        | .error e => fa = some e ∨ fb = some e) → Compared p (some (as, fa)) (some (bs, fb)) r

variable {a b : Option (List Item × Option FsError)} {c : Except FsError Unit × Emitter}

lemma compareSides_returns (blake3 : Bytes → Digest) {o : Options} {filter : ControlFilter} {absent : Bool}
    (ha : Returns (Side.new (src.config o) src.lister src.space o.skipLinks .none)
      (NewSide (next (src.config o) src.lister) a))
    (hb : Returns (destinationSide o filter dst absent) (NewSide (next (dst.config o) dst.lister) b))
    (hoa : ∀ x ∈ a, InOrder x.1) (hob : ∀ x ∈ b, InOrder x.1) :
    Returns (compareSides blake3 o filter src dst absent .new)
    (Compared ⟨blake3, src.contents, dst.contents⟩ a b) := by
  rw [compareSides]
  apply ha.bind
  intro ra hra
  cases a with
  | none =>
    obtain ⟨e, rfl⟩ := hra
    exact .pure .source
  | some a =>
    obtain ⟨as, fa⟩ := a
    obtain ⟨sa, rfl, hpa, hsa, hfa⟩ := hra
    apply hb.bind
    intro rb hrb
    cases b with
    | none =>
      obtain ⟨e, rfl⟩ := hrb
      simp only []
      split
      · exact .pure .lost
      · exact .pure .destination
    | some b =>
      obtain ⟨bs, fb⟩ := b
      obtain ⟨sb, rfl, hpb, hsb, -⟩ := hrb
      have hsides : Sides (next (src.config o) src.lister) (next (dst.config o) dst.lister) fa fb sa sb as bs := by
        refine ⟨as, bs, hsa, hsb, by rw [hpa, hpb], hoa _ rfl, hob _ rfl, by simp [hpa], ?_, ?_⟩
        · rw [hpa, unpruned_none]
        · rw [hpa, unpruned_none]
      apply (mergeSides_returns ⟨blake3, src.contents, dst.contents⟩ hsides Tallied.new).bind
      rintro ⟨result, out, s⟩ ⟨hrecords, htallied, hended⟩
      cases result with
      | error e => exact .pure (.merged hrecords htallied hended)
      | ok u =>
        refine .pure (.merged hrecords ?_ hended)
        exact ⟨htallied.matched, htallied.missing, htallied.mismatched, htallied.extra, htallied.unreadable,
          htallied.notEntered⟩

def RunFailed : Except VerifyError Summary → Prop
  | .error _ => True
  | .ok summary => summary.failed = true

def RootVerdict.compares : RootVerdict → Option Bool
  | .absent => some true
  | .unreadable _ _ => none
  | .checked _ => some false

def conclude (c : Except FsError Unit × Emitter) : Except VerifyError Summary × List Record :=
  match c.1 with
  | .error e => (.error (.failed e), c.2.records)
  | .ok () => (.ok c.2.summary, c.2.records)

lemma verifyTree_returns {blake3 : Bytes → Digest} {o : Options} {verdict : RootVerdict} {absent : Bool}
    {post : Except FsError Unit × Emitter → Prop} (hv : verdict.compares = some absent)
    (h : Returns (compareSides blake3 o .root src dst absent .new) post) :
    Returns (verifyTree blake3 o src dst (.ok verdict)) fun r => ∃ c, post c ∧ r = conclude c := by
  obtain ⟨c, hc, hpost⟩ := h
  have hwalk : walkChecked blake3 o .root src dst verdict .new = pure c := by
    cases verdict with
    | absent =>
      cases hv
      exact hc
    | unreadable side error => cases hv
    | checked id =>
      cases hv
      exact hc
  refine ⟨conclude c, ?_, c, hpost, rfl⟩
  obtain ⟨result, out⟩ := c
  rw [verifyTree, hwalk]
  cases result with
  | error e => rfl
  | ok u => rfl

lemma verifyTree_unreadable {blake3 : Bytes → Digest} {o : Options} {side : String} {error : FsError} :
    verifyTree blake3 o src dst (.ok (.unreadable side error)) =
      pure (conclude (.ok (), rootUnreadable .new (side ++ error.source.message) error.code)) :=
  rfl

lemma rootUnreadable_failed (detail : String) (code : Code) :
    RunFailed (conclude (.ok (), rootUnreadable .new detail code)).1 ∧
      ∀ r ∈ (conclude (.ok (), rootUnreadable .new detail code)).2, r.outcome = .unreadable := by
  refine ⟨rfl, ?_⟩
  intro r hr
  obtain rfl : r = _ := List.mem_singleton.mp hr
  rfl

lemma Tallied.failed_iff {out : Emitter} (h : Tallied out) :
    out.summary.failed = false ↔ ∀ r ∈ out.records, Clean r := by
  simp only [Summary.failed, h.missing, h.mismatched, h.unreadable, decide_eq_false_iff_not, not_lt, Nat.le_zero,
    Nat.add_eq_zero_iff, List.countP_eq_zero, decide_eq_true_eq, ← forall_and]
  refine forall₂_congr fun r _ => ?_
  rw [Clean]
  cases r.outcome <;> simp

lemma Compared.source_fatal {p : Pairing} {as : List Item} {cause : FsError}
    (h : Compared p (some (as, some cause)) b c) (ha : InOrder as) (hb : ∀ x ∈ b, InOrder x.1) :
    RunFailed (conclude c).1 ∧ ∀ r ∈ (conclude c).2, r.outcome = .extra → ∃ x ∈ as, r.path < x.path := by
  cases h with
  | destination =>
    obtain ⟨hfailed, hrecords⟩ := rootUnreadable_failed _ _
    refine ⟨hfailed, fun r hr hout => ?_⟩
    rw [hrecords r hr] at hout
    cases hout
  | lost => exact ⟨trivial, by simp [conclude, Emitter.new]⟩
  | merged hrecords _ hended =>
    obtain ⟨result, out⟩ := c
    cases result with
    | ok u => cases hended.1
    | error e =>
      refine ⟨trivial, ?_⟩
      have hrecords : out.records = _ := hrecords
      simp only [conclude, hrecords]
      exact (mergesTo p _ _ ha (hb _ rfl)).extra_before

lemma Compared.destination_fatal {p : Pairing} {bs : List Item} {cause : FsError}
    (h : Compared p a (some (bs, some cause)) c) (ha : ∀ x ∈ a, InOrder x.1) (hb : InOrder bs) :
    RunFailed (conclude c).1 ∧ ∀ r ∈ (conclude c).2, r.outcome = .missing → ∃ y ∈ bs, r.path < y.path := by
  cases h with
  | source =>
    obtain ⟨hfailed, hrecords⟩ := rootUnreadable_failed _ _
    refine ⟨hfailed, fun r hr hout => ?_⟩
    rw [hrecords r hr] at hout
    cases hout
  | merged hrecords _ hended =>
    obtain ⟨result, out⟩ := c
    cases result with
    | ok u => cases hended.2
    | error e =>
      refine ⟨trivial, ?_⟩
      have hrecords : out.records = _ := hrecords
      simp only [conclude, hrecords]
      exact (mergesTo p _ _ (ha _ rfl) hb).missing_before

lemma Compared.clean {p : Pairing} (h : Compared p a b c) (ha : ∀ x ∈ a, InOrder x.1) (hb : ∀ x ∈ b, InOrder x.1)
    (hok : ¬ RunFailed (conclude c).1) :
    ∃ as bs, a = some (as, none) ∧ b = some (bs, none) ∧ MergesTo p false false as bs c.2.records ∧
      ∀ r ∈ c.2.records, Clean r := by
  cases h with
  | source => exact absurd (rootUnreadable_failed _ _).1 hok
  | destination => exact absurd (rootUnreadable_failed _ _).1 hok
  | lost => exact absurd trivial hok
  | @merged as bs fa fb r hrecords htallied hended =>
    obtain ⟨result, out⟩ := c
    cases result with
    | error e => exact absurd trivial hok
    | ok u =>
      obtain ⟨rfl, rfl⟩ := hended
      have hrecords : out.records = _ := hrecords
      refine ⟨as, bs, rfl, rfl, ?_, htallied.failed_iff.mp (by simpa [conclude, RunFailed] using hok)⟩
      simp only [hrecords]
      exact mergesTo p _ _ (ha _ rfl) (hb _ rfl)

end Spec

end Flux.Verify
