import Flux.Base.Text
import Mathlib.Data.List.Destutter
import Mathlib.Data.List.Sort
import Mathlib.Data.Char
import Mathlib.Data.List.Lex
import Mathlib.Algebra.Order.BigOperators.Group.List

namespace Flux

open Base

def maxPatternBytes : ℕ := 1024

def maxPatternSegments : ℕ := 64

def maxPatterns : ℕ := 64

def maxTotalPatternBytes : ℕ := 16 * 1024

inductive SelectError where
  | empty
  | onlySlash (pattern : Text)
  | emptySegment (pattern : Text)
  | dotSegment (pattern : Text)
  | backslash (pattern : Text)
  | badChar (pattern : Text) (ch : Char)
  | misplacedDoubleStar (pattern : Text)
  | adjacentDoubleStar (pattern : Text)
  | tooLong (pattern : Text) (len : ℕ)
  | tooManySegments (pattern : Text) (count : ℕ)
  | tooManyPatterns (count : ℕ)
  | tooManyBytes (bytes : ℕ)
  deriving DecidableEq, Repr

def SelectError.text (debug : Text → Text) (debugChar : Char → Text) : SelectError → Text
  | .empty => "pattern is empty".toList
  | .onlySlash p => "pattern ".toList ++ debug p ++ " is only `/`".toList
  | .emptySegment p => "pattern ".toList ++ debug p ++ " has an empty segment".toList
  | .dotSegment p => "pattern ".toList ++ debug p ++ " has a `.` or `..` segment".toList
  | .backslash p => "pattern ".toList ++ debug p ++ " contains a backslash: use `/` as the separator".toList
  | .badChar p ch =>
    "pattern ".toList ++ debug p ++ " contains the reserved or control character ".toList ++ debugChar ch
  | .misplacedDoubleStar p =>
    "pattern ".toList ++ debug p ++ " uses `**` inside a segment; `**` must be a whole segment".toList
  | .adjacentDoubleStar p => "pattern ".toList ++ debug p ++ " has two adjacent `**` segments".toList
  | .tooLong p len =>
    "pattern ".toList ++ debug p ++ " is ".toList ++ decimal len ++ " bytes, more than ".toList ++
      decimal maxPatternBytes
  | .tooManySegments p count =>
    "pattern ".toList ++ debug p ++ " has ".toList ++ decimal count ++ " segments, more than ".toList ++
      decimal maxPatternSegments
  | .tooManyPatterns count => decimal count ++ " patterns given, more than ".toList ++ decimal maxPatterns
  | .tooManyBytes bytes =>
    decimal bytes ++ " bytes of patterns given, more than ".toList ++ decimal maxTotalPatternBytes

inductive Tok where
  | lit (n : ℕ)
  | any
  | star
  deriving DecidableEq, Repr

inductive Seg where
  | deep
  | one
  | glob (scalars bytes : List Tok)
  deriving DecidableEq, Repr

structure Pattern where
  raw : Text
  dirOnly : Bool
  anchored : Bool
  segs : List Seg
  deriving DecidableEq, Repr

def utf8Len (t : Text) : ℕ := (t.map Char.utf8Size).sum

def isControl (c : Char) : Bool := c.toNat < 0x20 ∨ 0x7f ≤ c.toNat ∧ c.toNat ≤ 0x9f

def glob (part : Text) : Seg :=
  let scalar : Char → Tok
    | '*' => .star
    | '?' => .any
    | ch => .lit ch.toNat
  let bytes : Char → List Tok
    | '*' => [.star]
    | '?' => [.any]
    | ch => (String.utf8EncodeChar ch).map fun b => .lit b.toNat
  .glob (part.map scalar) (part.flatMap bytes)

def hasDoubleStar : Text → Bool
  | '*' :: '*' :: _ => true
  | _ :: t => hasDoubleStar t
  | [] => false

def parseSegments (raw : Text) : Bool → List Text → Except SelectError (List Seg)
  | _, [] => .ok []
  | prevDeep, part :: rest =>
    if part = [] then .error (.emptySegment raw)
    else if part = ['.'] ∨ part = ['.', '.'] then .error (.dotSegment raw)
    else if part = ['*', '*'] then
      if prevDeep then .error (.adjacentDoubleStar raw)
      else (parseSegments raw true rest).map fun segs => (if rest = [] then [.one] else []) ++ .deep :: segs
    else if hasDoubleStar part then .error (.misplacedDoubleStar raw)
    else (parseSegments raw false rest).map (glob part :: ·)

def checkChar (raw : Text) (ch : Char) : Except SelectError Unit :=
  if ch = '\\' then .error (.backslash raw)
  else if ch = '!' ∨ ch = '[' ∨ ch = ']' ∨ isControl ch then .error (.badChar raw ch)
  else .ok ()

def Pattern.parse (s : Text) : Except SelectError Pattern := do
  if s = [] then throw .empty
  if utf8Len s > maxPatternBytes then throw (.tooLong s (utf8Len s))
  s.forM (checkChar s)
  if s = ['/'] then throw (.onlySlash s)
  let dirOnly : Bool := s.getLast? = some '/'
  let body := if dirOnly then s.dropLast else s
  let lead : Bool := body.head? = some '/'
  let body := if lead then body.tail else body
  let parts := body.splitOn '/'
  if parts.length > maxPatternSegments then throw (.tooManySegments s parts.length)
  let segs ← parseSegments s false parts
  return ⟨s, dirOnly, lead || 1 < parts.length, segs⟩

def sortDedup (patterns : List Text) : List Text := (patterns.mergeSort (· ≤ ·)).destutter (· ≠ ·)

structure Selection where
  typed : List Text
  parsed : List Pattern
  recursive : Bool
  sorted : typed.IsChain (· < ·)
  parses : typed.mapM Pattern.parse = .ok parsed
  count : typed.length ≤ maxPatterns
  size : (typed.map utf8Len).sum ≤ maxTotalPatternBytes
  deriving DecidableEq

lemma sortDedup_sorted (patterns : List Text) : (sortDedup patterns).IsChain (· < ·) := by
  have hle : (sortDedup patterns).Pairwise (· ≤ ·) :=
    (List.pairwise_mergeSort' (· ≤ ·) patterns).sublist (List.destutter_sublist _ _)
  have hne := List.isChain_destutter (· ≠ ·) (patterns.mergeSort (· ≤ ·))
  rw [List.isChain_iff_forall_rel_of_append_cons_cons]
  intro a b l₁ l₂ h
  exact lt_of_le_of_ne (List.isChain_iff_forall_rel_of_append_cons_cons.1 hle.isChain h)
    (List.isChain_iff_forall_rel_of_append_cons_cons.1 hne h)

lemma sortDedup_of_sorted {patterns : List Text} (h : patterns.IsChain (· < ·)) :
    sortDedup patterns = patterns := by
  have hle : patterns.Pairwise (· ≤ ·) := h.pairwise.imp fun hab => le_of_lt hab
  rw [sortDedup, List.mergeSort_eq_self _ hle]
  exact List.destutter_of_isChain _ _ (h.imp fun _ _ hab => ne_of_lt hab)

lemma sortDedup_subperm (patterns : List Text) : List.Subperm (sortDedup patterns) patterns :=
  (List.destutter_sublist _ _).subperm.trans (List.mergeSort_perm _ _).subperm

instance : Inhabited Selection := ⟨⟨[], [], true, .nil, rfl, Nat.zero_le _, Nat.zero_le _⟩⟩

lemma sum_sortDedup_le (patterns : List Text) :
    ((sortDedup patterns).map utf8Len).sum ≤ (patterns.map utf8Len).sum := by
  obtain ⟨l, hl, hs⟩ := sortDedup_subperm patterns
  calc _ = (l.map utf8Len).sum := (hl.map utf8Len).sum_eq.symm
    _ ≤ _ := (hs.map utf8Len).sum_le_sum fun _ _ => Nat.zero_le _

def Selection.compile (patterns : List Text) (recursive : Bool) : Except SelectError Selection :=
  if hc : patterns.length > maxPatterns then .error (.tooManyPatterns patterns.length)
  else if hb : (patterns.map utf8Len).sum > maxTotalPatternBytes then
    .error (.tooManyBytes (patterns.map utf8Len).sum)
  else match hp : (sortDedup patterns).mapM Pattern.parse with
    | .error e => .error e
    | .ok parsed => .ok {
        typed := sortDedup patterns
        parsed := parsed
        recursive := recursive
        sorted := sortDedup_sorted patterns
        parses := hp
        count := (sortDedup_subperm patterns).length_le.trans (not_lt.1 hc)
        size := (sum_sortDedup_le patterns).trans (not_lt.1 hb) }

lemma Selection.compile_of_sortDedup {patterns : List Text} {sel : Selection} (hs : sortDedup patterns = sel.typed)
    (hc : patterns.length ≤ maxPatterns) (hb : (patterns.map utf8Len).sum ≤ maxTotalPatternBytes) :
    Selection.compile patterns sel.recursive = .ok sel := by
  rw [compile, dif_neg (not_lt.2 hc), dif_neg (not_lt.2 hb)]
  split
  · rename_i e he
    rw [hs, sel.parses] at he
    cases he
  · rename_i parsed hp
    rw [hs, sel.parses] at hp
    obtain ⟨typed, _, recursive, _, _, _, _⟩ := sel
    cases hp
    simp only [hs]

lemma Selection.compile_typed (sel : Selection) : Selection.compile sel.typed sel.recursive = .ok sel :=
  compile_of_sortDedup (sortDedup_of_sorted sel.sorted) sel.count sel.size

end Flux
