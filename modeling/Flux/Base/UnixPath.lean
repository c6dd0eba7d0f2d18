import Flux.Base.Bytes

/-! POSIX paths, as the standard library of the source takes them apart and joins them. -/

namespace Base.UnixPath

def separator : UInt8 := 47

def dot : UInt8 := 46

inductive Component where
  | rootDir | curDir | parentDir
  | normal (name : Bytes)
  deriving DecidableEq, Repr

def Component.text : Component → Bytes
  | .rootDir => [separator]
  | .curDir => [dot]
  | .parentDir => [dot, dot]
  | .normal name => name

def hasRoot (path : Bytes) : Bool := path.head? = some separator

def parseSingle (part : Bytes) : Option Component :=
  if part = [] ∨ part = [dot] then none
  else if part = [dot, dot] then some .parentDir
  else some (.normal part)

/-- `Path::components`: only a `.` in front of a relative path is kept. -/
def components (path : Bytes) : List Component :=
  (if hasRoot path then [.rootDir]
    else if (path.splitOn separator).head? = some [dot] then [.curDir]
    else []) ++ (path.splitOn separator).filterMap parseSingle

def push (buf path : Bytes) : Bytes :=
  if hasRoot path then path
  else if buf = [] ∨ buf.getLast? = some separator then buf ++ path
  else buf ++ separator :: path

lemma parseSingle_text {part : Bytes} (h : part ≠ [] ∧ part ≠ [dot]) :
    ∃ c, parseSingle part = some c ∧ c.text = part ∧ c ≠ .rootDir := by
  unfold parseSingle
  rw [if_neg (not_or.mpr h)]
  split_ifs with hdots
  · exact ⟨.parentDir, rfl, hdots.symm, by decide⟩
  · exact ⟨.normal part, rfl, rfl, by simp⟩

lemma parseSingle_eq_none {part : Bytes} (h : part = [] ∨ part = [dot]) : parseSingle part = none := if_pos h

lemma push_name {p : Bytes} (h : separator ∉ p) (buf : Bytes) :
    push buf p = if buf = [] ∨ buf.getLast? = some separator then buf ++ p else buf ++ separator :: p :=
  if_neg fun hr => h (List.mem_of_mem_head? (of_decide_eq_true hr))

lemma foldl_push {parts : List Bytes} (h : ∀ p ∈ parts, p ≠ [] ∧ separator ∉ p) {buf : Bytes} (hne : buf ≠ [])
    (hl : buf.getLast? ≠ some separator) :
    parts.foldl push buf = buf ++ parts.flatMap (separator :: ·) := by
  induction parts generalizing buf with
  | nil => simp
  | cons p parts ih =>
    obtain ⟨⟨hp, hs⟩, h⟩ := List.forall_mem_cons.mp h
    have hlast : (buf ++ separator :: p).getLast? ≠ some separator := by
      rw [List.getLast?_append_of_ne_nil _ (List.cons_ne_nil _ _), List.getLast?_cons_of_ne_nil hp]
      exact fun hm => hs (List.mem_of_mem_getLast? hm)
    rw [List.foldl_cons, push_name hs, if_neg (not_or.mpr ⟨hne, hl⟩), ih h (by simp) hlast, List.flatMap_cons,
      List.append_assoc]

end Base.UnixPath
