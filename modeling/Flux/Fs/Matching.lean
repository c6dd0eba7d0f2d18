import Flux.Base.Check
import Flux.Base.Wildcard
import Flux.Fs.Select
import Flux.Fs.Types
import Mathlib.Data.List.Dedup

/-! What a selection decides about an entry, and the pattern language it is documented with. -/

namespace Flux

open Base

inductive OsName where
  | utf8 (name : Text)
  | raw (bytes : Bytes)
  deriving DecidableEq, Repr

inductive Component where
  | drive | root | current | parent
  | normal (name : OsName)
  deriving DecidableEq, Repr

def normalNames (rel : List Component) : List OsName :=
  rel.filterMap fun
    | .normal name => some name
    | _ => none

structure Comp where
  isScalars : Bool
  units : List ℕ

def Comp.new : OsName → Comp
  | .utf8 name => ⟨true, name.map Char.toNat⟩
  | .raw bytes => ⟨false, bytes.map UInt8.toNat⟩

def Tok.isStar : Tok → Bool
  | .star => true
  | _ => false

def Tok.fits : Tok → ℕ → Bool
  | .lit n, unit => n = unit
  | .any, _ => true
  | .star, _ => false

def matchGlob (toks : List Tok) (units : List ℕ) : Bool := Wildcard.accepts Tok.isStar Tok.fits toks units

def matchSeg : Seg → Comp → Bool
  | .one, _ => true
  | .deep, _ => false
  | .glob scalars bytes, comp => matchGlob (if comp.isScalars then scalars else bytes) comp.units

def matchSegs (segs : List Seg) (comps : List Comp) : Bool :=
  Wildcard.accepts (fun seg => seg = .deep) matchSeg segs comps

def Pattern.matches (p : Pattern) (comps : List Comp) (ft : FileType) : Bool :=
  if p.dirOnly ∧ ft ≠ .dir then false
  else if p.anchored then matchSegs p.segs comps
  else match comps.getLast? with
    | some comp => matchSegs p.segs [comp]
    | none => false

inductive Verdict where
  | keep | excluded | skipped
  deriving DecidableEq, Repr

def Selection.select (sel : Selection) (rel : List Component) (ft : FileType) : Verdict :=
  if sel.parsed.any fun p => p.matches ((normalNames rel).map Comp.new) ft then .excluded
  else if ¬ sel.recursive ∧ ft = .dir then .skipped
  else .keep

inductive TextMatches : Text → Text → Prop
  | nil : TextMatches [] []
  | star (run : Text) {p n} : TextMatches p n → TextMatches ('*' :: p) (run ++ n)
  | any (c : Char) {p n} : TextMatches p n → TextMatches ('?' :: p) (c :: n)
  | char {c p n} : c ≠ '*' → c ≠ '?' → TextMatches p n → TextMatches (c :: p) (c :: n)

inductive RawMatches : Text → Bytes → Prop
  | nil : RawMatches [] []
  | star (run : Bytes) {p n} : RawMatches p n → RawMatches ('*' :: p) (run ++ n)
  | any (b : UInt8) {p n} : RawMatches p n → RawMatches ('?' :: p) (b :: n)
  | char {c p n} : c ≠ '*' → c ≠ '?' → RawMatches p n → RawMatches (c :: p) (String.utf8EncodeChar c ++ n)

def NameMatches (part : Text) : OsName → Prop
  | .utf8 name => TextMatches part name
  | .raw bytes => RawMatches part bytes

def doubleStar : Text := ['*', '*']

inductive PathMatches : List Text → List OsName → Prop
  | nil : PathMatches [] []
  | trailing {run} : run ≠ [] → PathMatches [doubleStar] run
  | deep (run : List OsName) {ps ns} : ps ≠ [] → PathMatches ps ns → PathMatches (doubleStar :: ps) (run ++ ns)
  | part {p ps n ns} : p ≠ doubleStar → NameMatches p n → PathMatches ps ns → PathMatches (p :: ps) (n :: ns)

def withoutTrailing (s : Text) : Text := if s.getLast? = some '/' then s.dropLast else s

def withoutLeading (s : Text) : Text := if s.head? = some '/' then s.tail else s

/-- With a `/` at the start or inside, a pattern is about the whole path, else about the last name; with one at
the end, only about directories. -/
def Excludes (s : Text) (names : List OsName) (ft : FileType) : Prop :=
  (s.getLast? = some '/' → ft = .dir) ∧
    if '/' ∈ withoutTrailing s then PathMatches ((withoutLeading (withoutTrailing s)).splitOn '/') names
    else ∃ name, names.getLast? = some name ∧ PathMatches [withoutTrailing s] [name]

lemma textMatches_nil {n : Text} : TextMatches [] n ↔ n = [] := by
  constructor
  · intro h
    cases h
    rfl
  · rintro rfl
    exact .nil

variable {p : Text} {n : Bytes} {ps : List Tok} {segs : List Seg} {s : Text} {patterns : List Text}

lemma textMatches_star {n : Text} : TextMatches ('*' :: p) n ↔ ∃ k, TextMatches p (n.drop k) := by
  constructor
  · intro h
    cases h with
    | star run h => exact ⟨run.length, by rwa [List.drop_left]⟩
    | char hs => exact absurd rfl hs
  · rintro ⟨k, h⟩
    rw [← List.take_append_drop k n]
    exact .star _ h

lemma textMatches_any {n : Text} : TextMatches ('?' :: p) n ↔ ∃ c rest, n = c :: rest ∧ TextMatches p rest := by
  constructor
  · intro h
    cases h with
    | any c h => exact ⟨c, _, rfl, h⟩
    | char _ hq => exact absurd rfl hq
  · rintro ⟨c, rest, rfl, h⟩
    exact .any c h

lemma textMatches_char {c : Char} (hs : c ≠ '*') (hq : c ≠ '?') {n : Text} :
    TextMatches (c :: p) n ↔ ∃ rest, n = c :: rest ∧ TextMatches p rest := by
  constructor
  · intro h
    cases h with
    | star => exact absurd rfl hs
    | any => exact absurd rfl hq
    | char _ _ h => exact ⟨_, rfl, h⟩
  · rintro ⟨rest, rfl, h⟩
    exact .char hs hq h

lemma rawMatches_nil : RawMatches [] n ↔ n = [] := by
  constructor
  · intro h
    cases h
    rfl
  · rintro rfl
    exact .nil

lemma rawMatches_star : RawMatches ('*' :: p) n ↔ ∃ k, RawMatches p (n.drop k) := by
  constructor
  · intro h
    generalize hp : '*' :: p = q at h
    cases h with
    | nil => simp at hp
    | star run h =>
      obtain rfl := (List.cons.inj hp).2
      exact ⟨run.length, by rwa [List.drop_left]⟩
    | any => simp at hp
    | char hs => exact absurd (List.cons.inj hp).1.symm hs
  · rintro ⟨k, h⟩
    rw [← List.take_append_drop k n]
    exact .star _ h

lemma rawMatches_any : RawMatches ('?' :: p) n ↔ ∃ b rest, n = b :: rest ∧ RawMatches p rest := by
  constructor
  · intro h
    generalize hp : '?' :: p = q at h
    cases h with
    | nil => simp at hp
    | star => simp at hp
    | any b h =>
      obtain rfl := (List.cons.inj hp).2
      exact ⟨b, _, rfl, h⟩
    | char _ hq => exact absurd (List.cons.inj hp).1.symm hq
  · rintro ⟨b, rest, rfl, h⟩
    exact .any b h

lemma rawMatches_char {c : Char} (hs : c ≠ '*') (hq : c ≠ '?') :
    RawMatches (c :: p) n ↔ ∃ rest, n = String.utf8EncodeChar c ++ rest ∧ RawMatches p rest := by
  constructor
  · intro h
    generalize hp : c :: p = q at h
    cases h with
    | nil => simp at hp
    | star => exact absurd (List.cons.inj hp).1 hs
    | any => exact absurd (List.cons.inj hp).1 hq
    | char _ _ h =>
      obtain ⟨rfl, rfl⟩ := List.cons.inj hp
      exact ⟨_, rfl, h⟩
  · rintro ⟨rest, rfl, h⟩
    exact .char hs hq h

abbrev TokMatches := Wildcard.Matches Tok.isStar Tok.fits

variable {us : List ℕ}

lemma tokMatches_star : TokMatches (.star :: ps) us ↔ ∃ k, TokMatches ps (us.drop k) :=
  Wildcard.matches_star rfl

lemma tokMatches_any : TokMatches (.any :: ps) us ↔ ∃ u rest, us = u :: rest ∧ TokMatches ps rest := by
  rw [TokMatches, Wildcard.matches_unit (by simp [Tok.isStar])]
  simp [Tok.fits]

lemma tokMatches_lit {x : ℕ} : TokMatches (.lit x :: ps) us ↔ ∃ rest, us = x :: rest ∧ TokMatches ps rest := by
  rw [TokMatches, Wildcard.matches_unit (by simp [Tok.isStar])]
  constructor
  · rintro ⟨u, rest, rfl, hu, h⟩
    obtain rfl : x = u := by simpa [Tok.fits] using hu
    exact ⟨rest, rfl, h⟩
  · rintro ⟨rest, rfl, h⟩
    exact ⟨x, rest, rfl, by simp [Tok.fits], h⟩

lemma tokMatches_lits {bs : List UInt8} : TokMatches (bs.map (fun b => .lit b.toNat) ++ ps) (n.map UInt8.toNat) ↔
      ∃ rest, n = bs ++ rest ∧ TokMatches ps (rest.map UInt8.toNat) := by
  induction bs generalizing n with
  | nil => simp
  | cons b bs ih =>
    rw [List.map_cons, List.cons_append, tokMatches_lit]
    cases n with
    | nil => simp
    | cons c n =>
      have hc : c.toNat = b.toNat ↔ c = b := UInt8.toNat_inj
      constructor
      · rintro ⟨rest, heq, h⟩
        rw [List.map_cons, List.cons.injEq, hc] at heq
        obtain ⟨rfl, rfl⟩ := heq
        obtain ⟨rest, rfl, hrest⟩ := ih.mp h
        exact ⟨rest, rfl, hrest⟩
      · rintro ⟨rest, heq, h⟩
        rw [List.cons_append, List.cons.injEq] at heq
        obtain ⟨rfl, rfl⟩ := heq
        exact ⟨_, rfl, ih.mpr ⟨rest, rfl, h⟩⟩

lemma exists_drop_map {α β : Type} (f : α → β) (q : List β → Prop) (l : List α) :
    (∃ k, q ((l.map f).drop k)) ↔ ∃ k, q ((l.drop k).map f) := by
  simp only [List.map_drop]

lemma glob_spec (part : Text) : ∃ scalars bytes, glob part = .glob scalars bytes ∧
    (∀ n : Text, TokMatches scalars (n.map Char.toNat) ↔ TextMatches part n) ∧
      ∀ n : Bytes, TokMatches bytes (n.map UInt8.toNat) ↔ RawMatches part n := by
  refine ⟨_, _, rfl, ?_, ?_⟩
  · induction part with
    | nil =>
      intro n
      rw [textMatches_nil, List.map_nil, TokMatches, Wildcard.matches_nil, List.map_eq_nil_iff]
    | cons c part ih =>
      intro n
      rw [List.map_cons]
      split
      · rw [tokMatches_star, textMatches_star, exists_drop_map]
        exact exists_congr fun k => ih _
      · rw [tokMatches_any, textMatches_any]
        cases n with
        | nil => simp
        | cons d n =>
          rw [List.map_cons]
          simp [ih]
      · rename_i hs hq
        rw [tokMatches_lit, textMatches_char hs hq]
        cases n with
        | nil => simp
        | cons d n =>
          have hd : d.toNat = c.toNat ↔ d = c := Char.toNat_inj
          rw [List.map_cons]
          simp [hd, ih]
  · induction part with
    | nil =>
      intro n
      rw [rawMatches_nil, List.flatMap_nil, TokMatches, Wildcard.matches_nil, List.map_eq_nil_iff]
    | cons c part ih =>
      intro n
      rw [List.flatMap_cons]
      split
      · rw [List.singleton_append, tokMatches_star, rawMatches_star, exists_drop_map]
        exact exists_congr fun k => ih _
      · rw [List.singleton_append, tokMatches_any, rawMatches_any]
        cases n with
        | nil => simp
        | cons d n =>
          rw [List.map_cons]
          simp [ih]
      · rename_i hs hq
        rw [tokMatches_lits, rawMatches_char hs hq]
        simp only [ih]

lemma matchSeg_glob (part : Text) (name : OsName) :
    matchSeg (glob part) (Comp.new name) = true ↔ NameMatches part name := by
  obtain ⟨scalars, bytes, hglob, htext, hraw⟩ := glob_spec part
  rw [hglob]
  cases name with
  | utf8 name =>
    change matchGlob scalars (name.map Char.toNat) = true ↔ _
    rw [matchGlob, Wildcard.accepts_iff]
    exact htext name
  | raw n =>
    change matchGlob bytes (n.map UInt8.toNat) = true ↔ _
    rw [matchGlob, Wildcard.accepts_iff]
    exact hraw n

abbrev SegMatches := Wildcard.Matches (fun seg : Seg => (seg = .deep : Bool)) matchSeg

lemma segMatches_deep {comps : List Comp} :
    SegMatches (.deep :: segs) comps ↔ ∃ k, SegMatches segs (comps.drop k) :=
  Wildcard.matches_star rfl

lemma segMatches_one {comps : List Comp} :
    SegMatches (.one :: segs) comps ↔ ∃ c rest, comps = c :: rest ∧ SegMatches segs rest := by
  rw [SegMatches, Wildcard.matches_unit (by simp)]
  simp [matchSeg]

lemma segMatches_glob {part : Text} {names : List OsName} : SegMatches (glob part :: segs) (names.map Comp.new) ↔
      ∃ n rest, names = n :: rest ∧ NameMatches part n ∧ SegMatches segs (rest.map Comp.new) := by
  have hglob : glob part ≠ .deep := fun h => by
    obtain ⟨_, _, hg, -⟩ := glob_spec part
    rw [hg] at h
    exact Seg.noConfusion h
  rw [SegMatches, Wildcard.matches_unit (by simpa using hglob)]
  cases names with
  | nil => simp
  | cons n names =>
    rw [List.map_cons]
    constructor
    · rintro ⟨u, rest, heq, hu, h⟩
      obtain ⟨rfl, rfl⟩ := List.cons.inj heq
      exact ⟨n, names, rfl, (matchSeg_glob part n).mp hu, h⟩
    · rintro ⟨n', rest, heq, hn, h⟩
      obtain ⟨rfl, rfl⟩ := List.cons.inj heq
      exact ⟨_, _, rfl, (matchSeg_glob part n).mpr hn, h⟩

lemma pathMatches_nil {names : List OsName} : PathMatches [] names ↔ names = [] := by
  constructor
  · intro h
    cases h
    rfl
  · rintro rfl
    exact .nil

lemma pathMatches_trailing {names : List OsName} : PathMatches [doubleStar] names ↔ names ≠ [] := by
  constructor
  · intro h
    generalize hp : [doubleStar] = ps at h
    cases h with
    | nil => simp at hp
    | trailing h => exact h
    | deep _ h => exact absurd (List.cons.inj hp).2.symm h
    | part h => exact absurd (List.cons.inj hp).1.symm h
  · exact .trailing

lemma pathMatches_deep {ps : List Text} (hps : ps ≠ []) {names : List OsName} :
    PathMatches (doubleStar :: ps) names ↔ ∃ k, PathMatches ps (names.drop k) := by
  constructor
  · intro h
    generalize hp : doubleStar :: ps = qs at h
    cases h with
    | nil => simp at hp
    | trailing => exact absurd (List.cons.inj hp).2 hps
    | deep run _ h =>
      obtain rfl := (List.cons.inj hp).2
      exact ⟨run.length, by rwa [List.drop_left]⟩
    | part h => exact absurd (List.cons.inj hp).1.symm h
  · rintro ⟨k, h⟩
    rw [← List.take_append_drop k names]
    exact .deep _ hps h

lemma pathMatches_part (hp : p ≠ doubleStar) {ps : List Text} {names : List OsName} :
    PathMatches (p :: ps) names ↔ ∃ n rest, names = n :: rest ∧ NameMatches p n ∧ PathMatches ps rest := by
  constructor
  · intro h
    generalize hq : p :: ps = qs at h
    cases h with
    | nil => simp at hq
    | trailing => exact absurd (List.cons.inj hq).1 hp
    | deep => exact absurd (List.cons.inj hq).1 hp
    | part _ hn h =>
      obtain ⟨rfl, rfl⟩ := List.cons.inj hq
      exact ⟨_, _, rfl, hn, h⟩
  · rintro ⟨n, rest, rfl, hn, h⟩
    exact .part hp hn h

lemma segMatches_parsed {raw : Text} {prevDeep : Bool} {parts : List Text}
    (h : parseSegments raw prevDeep parts = .ok segs) (names : List OsName) :
    SegMatches segs (names.map Comp.new) ↔ PathMatches parts names := by
  induction parts generalizing prevDeep segs names with
  | nil =>
    obtain rfl : [] = segs := Except.ok.inj h
    rw [SegMatches, Wildcard.matches_nil, pathMatches_nil, List.map_eq_nil_iff]
  | cons part parts ih =>
    unfold parseSegments at h
    split at h
    · simp at h
    split at h
    · simp at h
    split at h
    · rename_i hdeep
      obtain rfl : part = doubleStar := hdeep
      split at h
      · simp at h
      · cases hrest : parseSegments raw true parts with
        | error e => simp [hrest, Except.map] at h
        | ok rest =>
          rw [hrest] at h
          obtain rfl := Except.ok.inj h
          by_cases hnil : parts = []
          · subst hnil
            obtain rfl : [] = rest := Except.ok.inj hrest
            rw [pathMatches_trailing, if_pos rfl]
            change SegMatches (.one :: .deep :: []) _ ↔ _
            rw [segMatches_one]
            cases names with
            | nil => simp
            | cons n names =>
              refine iff_of_true ⟨_, _, rfl, segMatches_deep.mpr ⟨names.length, ?_⟩⟩ (by simp)
              rw [SegMatches, Wildcard.matches_nil]
              simp
          · rw [if_neg hnil]
            change SegMatches (.deep :: rest) _ ↔ _
            rw [segMatches_deep, pathMatches_deep hnil, exists_drop_map]
            exact exists_congr fun k => ih hrest _
    · rename_i hdeep
      split at h
      · simp at h
      · cases hrest : parseSegments raw false parts with
        | error e => simp [hrest, Except.map] at h
        | ok rest =>
          rw [hrest] at h
          obtain rfl := Except.ok.inj h
          rw [segMatches_glob, pathMatches_part hdeep]
          simp only [ih hrest]

lemma unless_throw {ε α : Type} {c : Prop} [Decidable c] {e : ε} {k : PUnit → Except ε α} {x : Except ε α} {a : α}
    (h : (if c then throw e >>= k else x) = .ok a) : x = .ok a := by
  split at h
  · simp [throw, throwThe, MonadExceptOf.throw, bind, Except.bind] at h
  · exact h

lemma parse_eq_ok {p : Pattern} (h : Pattern.parse s = .ok p) : p.dirOnly = (s.getLast? = some '/' : Bool) ∧
      p.anchored = ((withoutTrailing s).head? = some '/' ||
        1 < ((withoutLeading (withoutTrailing s)).splitOn '/').length) ∧
      parseSegments s false ((withoutLeading (withoutTrailing s)).splitOn '/') = .ok p.segs := by
  unfold Pattern.parse at h
  have hbody : (if (s.getLast? = some '/' : Bool) = true then s.dropLast else s) = withoutTrailing s := by
    simp [withoutTrailing]
  simp only [hbody] at h
  have hlead : (if ((withoutTrailing s).head? = some '/' : Bool) = true then (withoutTrailing s).tail
      else withoutTrailing s) = withoutLeading (withoutTrailing s) := by
    simp [withoutLeading]
  simp only [hlead] at h
  obtain ⟨_, -, h⟩ := bind_eq_ok.mp (unless_throw (unless_throw h))
  obtain ⟨segs, hsegs, h⟩ := bind_eq_ok.mp (unless_throw (unless_throw h))
  obtain rfl := Except.ok.inj h
  exact ⟨rfl, rfl, hsegs⟩

lemma one_lt_splitOn_length : 1 < (s.splitOn '/').length ↔ '/' ∈ s := by
  rw [List.splitOn_eq_splitOnP]
  induction s with
  | nil => simp
  | cons c s ih =>
    rw [List.splitOnP_cons_eq_if_modifyHead]
    by_cases hc : c = '/'
    · have hpos := List.length_pos_iff.mpr (List.splitOnP_ne_nil (· == '/') s)
      simp only [hc, beq_self_eq_true, if_true, List.length_cons, List.mem_cons, true_or, iff_true]
      omega
    · simp [hc, ih, Ne.symm hc]

lemma anchored_iff (s : Text) :
    (s.head? = some '/' ∨ 1 < ((withoutLeading s).splitOn '/').length) ↔ '/' ∈ s := by
  rw [one_lt_splitOn_length]
  by_cases hs : s.head? = some '/'
  · exact iff_of_true (.inl hs) (List.mem_of_mem_head? hs)
  · simp [withoutLeading, hs]

lemma splitOn_withoutLeading (h : '/' ∉ s) : (withoutLeading s).splitOn '/' = [s] := by
  have hs : s.head? ≠ some '/' := fun hs => h (List.mem_of_mem_head? hs)
  rw [withoutLeading, if_neg hs, List.splitOn_eq_singleton h]

lemma Pattern.matches_iff {p : Pattern} (h : Pattern.parse s = .ok p) (names : List OsName) (ft : FileType) :
    p.matches (names.map Comp.new) ft = true ↔ Excludes s names ft := by
  obtain ⟨hdir, hanchored, hsegs⟩ := parse_eq_ok h
  have hpath : ∀ ns : List OsName, matchSegs p.segs (ns.map Comp.new) = true ↔
      PathMatches ((withoutLeading (withoutTrailing s)).splitOn '/') ns := by
    intro ns
    rw [matchSegs, Wildcard.accepts_iff]
    exact segMatches_parsed hsegs ns
  have hslash : p.anchored = true ↔ '/' ∈ withoutTrailing s := by
    rw [hanchored, ← anchored_iff]
    simp
  unfold Pattern.matches Excludes
  by_cases hft : s.getLast? = some '/' ∧ ft ≠ .dir
  · rw [if_pos (by simpa [hdir] using hft)]
    exact iff_of_false (by simp) fun hx => hft.2 (hx.1 hft.1)
  · rw [if_neg (by simpa [hdir] using hft)]
    rw [and_iff_right fun hl => by_contra fun hd => hft ⟨hl, hd⟩]
    by_cases hs : '/' ∈ withoutTrailing s
    · rw [if_pos (hslash.mpr hs), if_pos hs]
      exact hpath names
    · rw [if_neg (mt hslash.mp hs), if_neg hs, List.getLast?_map]
      rw [splitOn_withoutLeading hs] at hpath
      cases names.getLast? with
      | none => simp
      | some name => simpa using hpath [name]

lemma exists_mem_mapM {ε α β : Type} {f : α → Except ε β} {q : α → Prop} {q' : β → Prop}
    (hq : ∀ a b, f a = .ok b → (q' b ↔ q a)) {l : List α} {r : List β} (h : l.mapM f = .ok r) :
    (∃ b ∈ r, q' b) ↔ ∃ a ∈ l, q a := by
  induction l generalizing r with
  | nil =>
    obtain rfl : [] = r := Except.ok.inj h
    simp
  | cons a l ih =>
    rw [List.mapM_cons] at h
    obtain ⟨b, hb, h⟩ := bind_eq_ok.mp h
    obtain ⟨bs, hbs, h⟩ := bind_eq_ok.mp h
    obtain rfl := Except.ok.inj h
    rw [List.exists_mem_cons_iff, List.exists_mem_cons_iff, ih hbs, hq a b hb]

lemma mem_sortDedup : s ∈ sortDedup patterns ↔ s ∈ patterns := by
  have hsorted := List.pairwise_mergeSort' (· ≤ ·) patterns
  rw [sortDedup, hsorted.destutter_eq_dedup, List.mem_dedup]
  exact (List.mergeSort_perm patterns _).mem_iff

lemma sortDedup_eq_of_mem_iff {l : List Text} (hl : l.IsChain (· < ·)) (hmem : ∀ s, s ∈ patterns ↔ s ∈ l) :
    sortDedup patterns = l := by
  exact (sortDedup_sorted patterns).pairwise.eq_of_mem_iff hl.pairwise fun s => mem_sortDedup.trans (hmem s)

lemma compile_eq_ok {recursive : Bool} {sel : Selection} (h : Selection.compile patterns recursive = .ok sel) :
    sel.typed = sortDedup patterns ∧ sel.recursive = recursive := by
  unfold Selection.compile at h
  split at h
  · simp at h
  split at h
  · simp at h
  split at h
  · simp at h
  · obtain rfl := Except.ok.inj h
    exact ⟨rfl, rfl⟩

lemma Selection.any_matches {recursive : Bool} {sel : Selection}
    (h : Selection.compile patterns recursive = .ok sel) (names : List OsName) (ft : FileType) :
    (sel.parsed.any fun p => p.matches (names.map Comp.new) ft) = true ↔ ∃ s ∈ patterns, Excludes s names ft := by
  rw [List.any_eq_true, exists_mem_mapM (fun s p hp => Pattern.matches_iff hp names ft) sel.parses,
    (compile_eq_ok h).1]
  simp only [mem_sortDedup]

theorem select_decides {patterns : List Text} {recursive : Bool} {sel : Selection}
    (h : Selection.compile patterns recursive = .ok sel) (rel : List Component) (ft : FileType) :
    (sel.select rel ft = .excluded ↔ ∃ s ∈ patterns, Excludes s (normalNames rel) ft) ∧
    (sel.select rel ft = .skipped ↔
      ¬ (∃ s ∈ patterns, Excludes s (normalNames rel) ft) ∧ recursive = false ∧ ft = .dir) ∧
    (sel.select rel ft = .keep ↔
      ¬ (∃ s ∈ patterns, Excludes s (normalNames rel) ft) ∧ ¬ (recursive = false ∧ ft = .dir)) := by
  rw [← Selection.any_matches h (normalNames rel) ft, Selection.select, (compile_eq_ok h).2]
  generalize (sel.parsed.any fun p => p.matches ((normalNames rel).map Comp.new) ft) = any
  by_cases hskip : recursive = false ∧ ft = .dir
  · cases any <;> simp [hskip]
  · cases any <;> simp [hskip]

def sourcesOnly : Selection where
  typed := ["*.o".toList, "/build/".toList]
  parsed := [
    ⟨"*.o".toList, false, false, [.glob [.star, .lit 46, .lit 111] [.star, .lit 46, .lit 111]]⟩,
    ⟨"/build/".toList, true, true, [glob "build".toList]⟩]
  recursive := true
  sorted := by decide
  parses := by decide
  count := by decide
  size := by decide

theorem select_decides_sourcesOnly :
    Selection.compile ["*.o".toList, "/build/".toList] true = .ok sourcesOnly ∧
      (sourcesOnly.select [.normal (.utf8 "main.o".toList)] .file = .excluded ↔
        ∃ s ∈ ["*.o".toList, "/build/".toList], Excludes s [.utf8 "main.o".toList] .file) ∧
      sourcesOnly.select [.normal (.utf8 "main.o".toList)] .file = .excluded ∧
      sourcesOnly.select [.normal (.utf8 "sub".toList), .normal (.utf8 "build".toList)] .dir = .keep :=
  ⟨sourcesOnly.compile_typed, (select_decides sourcesOnly.compile_typed [.normal (.utf8 "main.o".toList)] .file).1,
    by decide, by decide⟩

end Flux
