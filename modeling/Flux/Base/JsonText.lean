import Flux.Base.Json

/-! The text of a JSON value, as compact writers put it, and a reader that takes it back. -/

namespace Base.Json

def escapes : List (Char × Char) :=
  [('\x22', '\x22'), ('\\', '\\'), ('\x08', 'b'), ('\t', 't'), ('\n', 'n'), ('\x0c', 'f'), ('\r', 'r')]

def escape (c : Char) : Text :=
  match escapes.lookup c with
  | some e => ['\\', e]
  | none =>
    if c.toNat < 32 then ['\\', 'u', '0', '0', Nat.digitChar (c.toNat / 16), Nat.digitChar (c.toNat % 16)] else [c]

def quoted (t : Text) : Text := '\x22' :: t.flatMap escape ++ ['\x22']

mutual
def write : Json → Text
  | .null => ['n', 'u', 'l', 'l']
  | .bool true => ['t', 'r', 'u', 'e']
  | .bool false => ['f', 'a', 'l', 's', 'e']
  | .num n => decimal n.toNat
  | .otherNum written => written
  | .str t => quoted t
  | .arr [] => ['[', ']']
  | .arr (j :: rest) => '[' :: write j ++ writeItems rest
  | .obj [] => ['\x7b', '\x7d']
  | .obj (e :: rest) => '\x7b' :: writeMember e ++ writeMembers rest
def writeItems : List Json → Text
  | [] => [']']
  | j :: rest => ',' :: write j ++ writeItems rest
def writeMember : String × Json → Text
  | (k, j) => quoted k.toList ++ ':' :: write j
def writeMembers : List (String × Json) → Text
  | [] => ['\x7d']
  | e :: rest => ',' :: writeMember e ++ writeMembers rest
end

def unicode (digits : Text) : Option Char := do
  let values ← digits.mapM hexValue
  let code := values.foldl (fun n v => 16 * n + v) 0
  if code.isValidChar then some (Char.ofNat code) else none

def readEscape : Text → Option (Char × Text)
  | 'u' :: w :: x :: y :: z :: t => (unicode [w, x, y, z]).map (·, t)
  | e :: t => ((escapes.map Prod.swap).lookup e).map (·, t)
  | [] => none

def readChar : Text → Option (Option Char × Text)
  | [] => none
  | c :: t =>
    if c = '\x22' then some (none, t)
    else if c = '\\' then (readEscape t).map fun r => (some r.1, r.2)
    else if c.toNat < 32 then none
    else some (some c, t)

def readText : ℕ → Text → Option (Text × Text)
  | 0, _ => none
  | fuel + 1, t =>
    match readChar t with
    | none => none
    | some (none, t) => some ([], t)
    | some (some c, t) => (readText fuel t).map fun r => (c :: r.1, r.2)

def readWord (word : Text) (j : Json) (t : Text) : Option (Json × Text) :=
  if word.isPrefixOf t then some (j, t.drop word.length) else none

def readNumber (t : Text) : Option (Json × Text) := do
  let n ← parseDecimal (2 ^ 64) (t.takeWhile Char.isDigit)
  return (.num (UInt64.ofNat n), t.dropWhile Char.isDigit)

mutual
def read : ℕ → Text → Option (Json × Text)
  | 0, _ => none
  | _, [] => none
  | fuel + 1, c :: t =>
    if c = 'n' then readWord ['u', 'l', 'l'] .null t
    else if c = 't' then readWord ['r', 'u', 'e'] (.bool true) t
    else if c = 'f' then readWord ['a', 'l', 's', 'e'] (.bool false) t
    else if c = '\x22' then (readText fuel t).map fun r => (.str r.1, r.2)
    else if c = '[' then
      if t.head? = some ']' then some (.arr [], t.tail)
      else do
        let (j, t) ← read fuel t
        let (rest, t) ← readItems fuel t
        return (.arr (j :: rest), t)
    else if c = '\x7b' then
      if t.head? = some '\x7d' then some (.obj [], t.tail)
      else do
        let (e, t) ← readMember fuel t
        let (rest, t) ← readMembers fuel t
        return (.obj (e :: rest), t)
    else readNumber (c :: t)
def readItems : ℕ → Text → Option (List Json × Text)
  | 0, _ => none
  | _, [] => none
  | fuel + 1, c :: t =>
    if c = ']' then some ([], t)
    else if c = ',' then do
      let (j, t) ← read fuel t
      let (rest, t) ← readItems fuel t
      return (j :: rest, t)
    else none
def readMember : ℕ → Text → Option ((String × Json) × Text)
  | 0, _ => none
  | fuel + 1, '\x22' :: t => do
    let (k, t) ← readText fuel t
    if t.head? = some ':' then
      let (j, t) ← read fuel t.tail
      return ((String.ofList k, j), t)
    else none
  | _, _ => none
def readMembers : ℕ → Text → Option (List (String × Json) × Text)
  | 0, _ => none
  | _, [] => none
  | fuel + 1, c :: t =>
    if c = '\x7d' then some ([], t)
    else if c = ',' then do
      let (e, t) ← readMember fuel t
      let (rest, t) ← readMembers fuel t
      return (e :: rest, t)
    else none
end

def parse (t : Text) : Option Json :=
  match read t.length t with
  | some (j, []) => some j
  | _ => none

inductive Plain : Json → Prop
  | null : Plain .null
  | bool (b : Bool) : Plain (.bool b)
  | num (n : UInt64) : Plain (.num n)
  | str (t : Text) : Plain (.str t)
  | arr {items : List Json} (h : ∀ j ∈ items, Plain j) : Plain (.arr items)
  | obj {members : Members} (h : ∀ e ∈ members, Plain e.2) : Plain (.obj members)

attribute [simp] Plain.null Plain.bool Plain.num Plain.str

lemma Plain.extend {m : Members} {fields : List (String × Json)} (hm : ∀ e ∈ m, Plain e.2)
    (hf : ∀ e ∈ fields, Plain e.2) : ∀ e ∈ m.extend fields, Plain e.2 := by
  induction fields generalizing m with
  | nil => exact hm
  | cons x fields ih =>
    obtain ⟨hx, hf⟩ := List.forall_mem_cons.mp hf
    refine ih (fun e he => ?_) hf
    rw [Members.insert, List.mem_orderedInsert] at he
    rcases he with rfl | he
    · exact hx
    · exact hm e (List.mem_filter.mp he).1

lemma Plain.object {fields : List (String × Json)} (h : ∀ e ∈ fields, Plain e.2) : Plain (object fields) :=
  .obj (.extend nofun h)

section Strings

lemma unicode_control {c : Char} (h : c.toNat < 32) :
    unicode ['0', '0', Nat.digitChar (c.toNat / 16), Nat.digitChar (c.toNat % 16)] = some c := by
  have h0 : hexValue '0' = some 0 := by decide
  have hcode : 16 * (16 * (16 * (16 * 0 + 0) + 0) + c.toNat / 16) + c.toNat % 16 = c.toNat := by omega
  have hvalid : c.toNat.isValidChar := .inl (by omega)
  simp only [unicode, List.mapM_cons, List.mapM_nil, h0, hexValue_digitChar (show c.toNat / 16 < 16 by omega),
    hexValue_digitChar (show c.toNat % 16 < 16 by omega), Option.pure_def, Option.bind_eq_bind, Option.bind_some,
    List.foldl_cons, List.foldl_nil, hcode, if_pos hvalid, Char.ofNat_toNat]

lemma readEscape_pair {c e : Char} (h : (c, e) ∈ escapes) (t : Text) : readEscape (e :: t) = some (c, t) := by
  have hback : ∀ p ∈ escapes, p.2 ≠ 'u' ∧ (escapes.map Prod.swap).lookup p.2 = some p.1 := by decide
  obtain ⟨hu, hlookup⟩ := hback _ h
  rw [readEscape.eq_def]
  split
  · next heq => exact absurd (List.cons.inj heq).1 hu
  · next heq =>
    obtain ⟨rfl, rfl⟩ := List.cons.inj heq
    rw [hlookup, Option.map_some]
  · next heq => cases heq

lemma readChar_escape (c : Char) (t : Text) : readChar (escape c ++ t) = some (some c, t) := by
  rw [escape]
  split
  · next e he =>
    obtain ⟨l₁, l₂, hsplit, -⟩ := List.lookup_eq_some_iff.mp he
    have hmem : (c, e) ∈ escapes := by simp [hsplit]
    simp [readChar, readEscape_pair hmem]
  · next hn =>
    have hne : c ≠ '\\' ∧ c ≠ '\x22' := by
      constructor <;>
      · rintro rfl
        exact absurd hn (by decide)
    split_ifs with hc
    · simp [readChar, readEscape, unicode_control hc]
    · simp [readChar, hne, Nat.not_lt.mp hc]

lemma readText_quoted {fuel : ℕ} {s : Text} (h : s.length < fuel) (t : Text) :
    readText fuel (s.flatMap escape ++ '\x22' :: t) = some (s, t) := by
  induction s generalizing fuel with
  | nil =>
    obtain ⟨fuel, rfl⟩ := Nat.exists_eq_add_one_of_ne_zero h.ne'
    rfl
  | cons c s ih =>
    obtain ⟨fuel, rfl⟩ := Nat.exists_eq_add_one_of_ne_zero (Nat.ne_zero_of_lt h)
    simp only [List.flatMap_cons, List.append_assoc, readText, readChar_escape, ih (Nat.lt_of_succ_lt_succ h),
      Option.map_some]

lemma le_length_escape (s : Text) : s.length ≤ (s.flatMap escape).length := by
  induction s with
  | nil => exact le_rfl
  | cons c s ih =>
    have hc : 0 < (escape c).length := by
      rw [escape]
      split
      · exact Nat.succ_pos _
      · split <;> exact Nat.succ_pos _
    rw [List.flatMap_cons, List.length_append, List.length_cons]
    omega

lemma readText_quoted_le {n : ℕ} {s : Text} (h : (quoted s).length ≤ n + 1) (t : Text) :
    readText n (s.flatMap escape ++ '\x22' :: t) = some (s, t) := by
  have hle := le_length_escape s
  simp only [quoted, List.length_cons, List.length_append, List.length_nil] at h
  exact readText_quoted (by omega) t

end Strings

section Values

def Ends (t : Text) : Prop := ∀ c ∈ t.head?, c.isDigit = false

def Reads (j : Json) : Prop :=
  ∀ fuel t, (write j).length ≤ fuel → Ends t → read fuel (write j ++ t) = some (j, t)

lemma readNumber_decimal (n : UInt64) {t : Text} (ht : Ends t) :
    readNumber (decimal n.toNat ++ t) = some (.num n, t) := by
  have hdigits : ∀ c ∈ decimal n.toNat, c.isDigit = true := by
    have h := isDecimal_decimal n.toNat
    simp only [isDecimal, decide_eq_true_eq] at h
    exact List.all_eq_true.mp h.2
  have htake : t.takeWhile Char.isDigit = [] ∧ t.dropWhile Char.isDigit = t := by
    cases t with
    | nil => exact ⟨rfl, rfl⟩
    | cons c t => simp [ht c rfl]
  rw [readNumber, List.takeWhile_append_of_pos hdigits, List.dropWhile_append_of_pos hdigits, htake.1, htake.2,
    List.append_nil, parseDecimal_decimal n.toNat_lt]
  simp

lemma decimal_cons (n : ℕ) : ∃ c t, decimal n = c :: t ∧ c.isDigit = true := by
  have h := isDecimal_decimal n
  simp only [isDecimal, decide_eq_true_eq] at h
  obtain ⟨c, t, hct⟩ := List.exists_cons_of_ne_nil h.1
  exact ⟨c, t, hct, List.all_eq_true.mp h.2 c (hct ▸ List.mem_cons_self)⟩

lemma write_cons {j : Json} (h : Plain j) : ∃ c t, write j = c :: t ∧ c ≠ ']' := by
  cases h with
  | null => exact ⟨_, _, write.eq_1, by decide⟩
  | bool b => cases b <;> exact ⟨_, _, by rw [write], by decide⟩
  | num n =>
    obtain ⟨c, t, hct, hc⟩ := decimal_cons n.toNat
    refine ⟨c, t, by rw [write, hct], ?_⟩
    rintro rfl
    exact absurd hc (by decide)
  | str t => exact ⟨_, _, by rw [write]; rfl, by decide⟩
  | @arr items =>
    cases items with
    | nil => exact ⟨_, _, by rw [write], by decide⟩
    | cons => exact ⟨_, _, by rw [write, List.cons_append], by decide⟩
  | @obj members =>
    cases members with
    | nil => exact ⟨_, _, by rw [write], by decide⟩
    | cons => exact ⟨_, _, by rw [write, List.cons_append], by decide⟩

lemma ends_writeItems (items : List Json) (t : Text) : Ends (writeItems items ++ t) := by
  cases items with
  | nil | cons =>
    rintro c hc
    rw [writeItems] at hc
    cases hc
    decide

lemma ends_writeMembers (members : Members) (t : Text) : Ends (writeMembers members ++ t) := by
  cases members with
  | nil | cons =>
    rintro c hc
    rw [writeMembers] at hc
    cases hc
    decide

lemma readItems_write {items : List Json} (h : ∀ j ∈ items, Reads j) {n : ℕ} (hn : (writeItems items).length ≤ n)
    (t : Text) : readItems n (writeItems items ++ t) = some (items, t) := by
  induction items generalizing n with
  | nil =>
    cases n with
    | zero => simp [writeItems] at hn
    | succ n => simp [writeItems, readItems]
  | cons j rest ih =>
    cases n with
    | zero => simp [writeItems] at hn
    | succ n =>
      simp only [writeItems, List.cons_append, List.length_cons, List.length_append,
        Nat.add_le_add_iff_right] at hn
      have hj := h j List.mem_cons_self n (writeItems rest ++ t) (by omega) (ends_writeItems rest t)
      have hrest := ih (n := n) (fun x hx => h x (List.mem_cons_of_mem _ hx)) (by omega)
      simp [writeItems, readItems, hj, hrest]

lemma readMember_write {e : String × Json} (h : Reads e.2) {n : ℕ} (hn : (writeMember e).length ≤ n) {t : Text}
    (ht : Ends t) : readMember n (writeMember e ++ t) = some (e, t) := by
  obtain ⟨k, j⟩ := e
  cases n with
  | zero => simp [writeMember, quoted] at hn
  | succ n =>
    simp only [writeMember, List.length_append, List.length_cons] at hn
    have hk := readText_quoted_le (s := k.toList) (n := n) (by omega) (':' :: (write j ++ t))
    have hlength : (write j).length ≤ n := by omega
    have hj : read n (write j ++ t) = some (j, t) := h n t hlength ht
    simp [writeMember, quoted, readMember, hk, hj]

lemma readMembers_write {members : Members} (h : ∀ e ∈ members, Reads e.2) {n : ℕ}
    (hn : (writeMembers members).length ≤ n) (t : Text) :
    readMembers n (writeMembers members ++ t) = some (members, t) := by
  induction members generalizing n with
  | nil =>
    cases n with
    | zero => simp [writeMembers] at hn
    | succ n => simp [writeMembers, readMembers]
  | cons e rest ih =>
    cases n with
    | zero => simp [writeMembers] at hn
    | succ n =>
      simp only [writeMembers, List.cons_append, List.length_cons, List.length_append,
        Nat.add_le_add_iff_right] at hn
      have he := readMember_write (h e List.mem_cons_self) (n := n) (by omega) (ends_writeMembers rest t)
      have hrest := ih (n := n) (fun x hx => h x (List.mem_cons_of_mem _ hx)) (by omega)
      simp [writeMembers, readMembers, he, hrest]

lemma Reads.of_succ {j : Json} (hj : Plain j)
    (h : ∀ n t, (write j).length ≤ n + 1 → Ends t → read (n + 1) (write j ++ t) = some (j, t)) : Reads j := by
  intro n t hn ht
  cases n with
  | zero =>
    obtain ⟨c, s, hcs, -⟩ := write_cons hj
    simp [hcs] at hn
  | succ n => exact h n t hn ht

theorem Plain.reads {j : Json} (h : Plain j) : Reads j := by
  induction h with
  | null => exact .of_succ .null fun n t _ _ => by simp [write, read, readWord, List.isPrefixOf]
  | bool b => exact .of_succ (.bool b) fun n t _ _ => by cases b <;> simp [write, read, readWord, List.isPrefixOf]
  | num m =>
    refine .of_succ (.num m) fun n t _ ht => ?_
    have hread := readNumber_decimal m ht
    obtain ⟨c, s, hcs, hc⟩ := decimal_cons m.toNat
    have hne : ∀ d : Char, d.isDigit = false → c ≠ d := by
      rintro d hd rfl
      simp [hd] at hc
    rw [write, hcs, List.cons_append]
    rw [hcs, List.cons_append] at hread
    simp [read, hne, hread]
  | str s =>
    refine .of_succ (.str s) fun n t hn _ => ?_
    rw [write] at hn ⊢
    simp [quoted, read, readText_quoted_le hn]
  | @arr items hitems ih =>
    refine .of_succ (.arr hitems) fun n t hn _ => ?_
    cases items with
    | nil => simp [write, read]
    | cons j rest =>
      obtain ⟨c, s, hcs, hc⟩ := write_cons (hitems j List.mem_cons_self)
      simp only [write, List.cons_append, List.length_cons, List.length_append, Nat.add_le_add_iff_right] at hn
      have hj := ih j List.mem_cons_self n (writeItems rest ++ t) (by omega) (ends_writeItems rest t)
      have hrest := readItems_write (n := n) (fun x hx => ih x (List.mem_cons_of_mem _ hx)) (by omega) t
      have hhead : (write j).head? ≠ some ']' ∧ write j ≠ [] := by simp [hcs, hc]
      simp [write, read, hhead, hj, hrest]
  | @obj members hmembers ih =>
    refine .of_succ (.obj hmembers) fun n t hn _ => ?_
    cases members with
    | nil => simp [write, read]
    | cons e rest =>
      simp only [write, List.cons_append, List.length_cons, List.length_append, Nat.add_le_add_iff_right] at hn
      have he := readMember_write (ih e List.mem_cons_self) (n := n) (by omega) (ends_writeMembers rest t)
      have hrest := readMembers_write (n := n) (fun x hx => ih x (List.mem_cons_of_mem _ hx)) (by omega) t
      have hhead : (writeMember e).head? ≠ some '\x7d' ∧ writeMember e ≠ [] := by simp [writeMember.eq_def, quoted]
      simp [write, read, hhead, he, hrest]

theorem parse_write {j : Json} (h : Plain j) : parse (write j) = some j := by
  have hread := h.reads (write j).length [] le_rfl nofun
  rw [List.append_nil] at hread
  rw [parse, hread]

end Values

end Base.Json
