import Flux.Base.Loop
import Flux.Base.Wtf8

/-! Names read back on Windows: generalized UTF-8 decoded into 16-bit units. -/

namespace Flux.Spill

open Base

def cont (bytes : Bytes) (i : ℕ) : Bool := bytes[i]?.any fun b => b &&& 0xC0 == 0x80

def lowBits (bytes : Bytes) (i : ℕ) : ℕ := (bytes[i]?.getD 0 &&& 0x3F).toNat

def pointAt (bytes : Bytes) (i : ℕ) (first : UInt8) : ℕ × ℕ :=
  let b := first.toNat
  if first ≤ 0x7F then (b, 1)
  else if 0xC0 ≤ first ∧ first ≤ 0xDF ∧ cont bytes (i + 1) then (((b &&& 0x1F) <<< 6) ||| lowBits bytes (i + 1), 2)
  else if 0xE0 ≤ first ∧ first ≤ 0xEF ∧ cont bytes (i + 1) ∧ cont bytes (i + 2) then
    (((b &&& 0x0F) <<< 12) ||| (lowBits bytes (i + 1) <<< 6) ||| lowBits bytes (i + 2), 3)
  else if 0xF0 ≤ first ∧ first ≤ 0xF4 ∧ cont bytes (i + 1) ∧ cont bytes (i + 2) ∧ cont bytes (i + 3) then
    let cp := ((b &&& 0x07) <<< 18) ||| (lowBits bytes (i + 1) <<< 12) ||| (lowBits bytes (i + 2) <<< 6) |||
      lowBits bytes (i + 3)
    if 0x10FFFF < cp then (0xFFFD, 1) else (cp, 4)
  else (0xFFFD, 1)

def unitsOf (cp : ℕ) : List UInt16 :=
  if 0x10000 ≤ cp then
    let v := cp - 0x10000
    [.ofNat (0xD800 + (v >>> 10)), .ofNat (0xDC00 + (v &&& 0x3FF))]
  else [.ofNat cp]

def wideStep (bytes : Bytes) (s : ℕ × List UInt16) : Attempt Empty ((ℕ × List UInt16) ⊕ List UInt16) :=
  match bytes[s.1]? with
  | none => pure (.inr s.2)
  | some first =>
    let point := pointAt bytes s.1 first
    pure (.inl (s.1 + point.2, s.2 ++ unitsOf point.1))

def wtf8ToWide (bytes : Bytes) : Attempt Empty (List UInt16) := loop (wideStep bytes) (0, [])

def pieceUnits : Bytes → List UInt16
  | [] => []
  | first :: rest => unitsOf (pointAt (first :: rest) 0 first).1

def IsPiece (p : Bytes) : Prop := ∃ first, p.head? = some first ∧ (pointAt p 0 first).2 = p.length

variable {j : ℕ}

section Pieces

variable {bytes : Bytes} {i n : ℕ} {first : UInt8}

lemma cont_lt (h : cont bytes i = true) : i < bytes.length := by
  by_contra hle
  rw [cont, List.getElem?_eq_none (by omega)] at h
  cases h

lemma getElem?_slice (hj : j < n) : (slice bytes i n)[j]? = bytes[i + j]? := by
  rw [slice, List.getElem?_take_of_lt hj, List.getElem?_drop]

lemma cont_slice (hj : j < n) : cont (slice bytes i n) j = cont bytes (i + j) := by
  rw [cont, cont, getElem?_slice hj]

lemma lowBits_slice (hj : j < n) : lowBits (slice bytes i n) j = lowBits bytes (i + j) := by
  rw [lowBits, lowBits, getElem?_slice hj]

lemma cont_slice_one (hj : 1 ≤ j) : cont (slice bytes i 1) j = false := by
  rw [cont, slice, List.getElem?_eq_none]
  · rfl
  · exact (List.length_take_le _ _).trans hj

lemma pointAt_malformed (h : ¬ first ≤ 0x7F) : pointAt (slice bytes i 1) 0 first = (0xFFFD, 1) := by
  rw [pointAt, if_neg h, cont_slice_one (by decide), cont_slice_one (by decide)]
  simp

lemma piece_of_malformed (h : ¬ first ≤ 0x7F) (hi : i < bytes.length) (heq : pointAt bytes i first = (0xFFFD, 1)) :
    1 ≤ (pointAt bytes i first).2 ∧ (pointAt bytes i first).2 ≤ 4 ∧ i + (pointAt bytes i first).2 ≤ bytes.length ∧
      pointAt (slice bytes i (pointAt bytes i first).2) 0 first = pointAt bytes i first := by
  rw [heq]
  exact ⟨by decide, by decide, hi, pointAt_malformed h⟩

lemma pointAt_piece (hfirst : bytes[i]? = some first) :
    1 ≤ (pointAt bytes i first).2 ∧ (pointAt bytes i first).2 ≤ 4 ∧ i + (pointAt bytes i first).2 ≤ bytes.length ∧
      pointAt (slice bytes i (pointAt bytes i first).2) 0 first = pointAt bytes i first := by
  have hi := (List.getElem?_eq_some_iff.mp hfirst).1
  by_cases h1 : first ≤ 0x7F
  · simp only [pointAt, if_pos h1]
    exact ⟨le_rfl, by decide, hi, trivial⟩
  by_cases h2 : 0xC0 ≤ first ∧ first ≤ 0xDF ∧ cont bytes (i + 1)
  · have hlt := cont_lt h2.2.2
    simp only [pointAt, if_neg h1, if_pos h2]
    rw [cont_slice (by decide), lowBits_slice (by decide), if_pos h2]
    exact ⟨by decide, by decide, hlt, rfl⟩
  by_cases h3 : 0xE0 ≤ first ∧ first ≤ 0xEF ∧ cont bytes (i + 1) ∧ cont bytes (i + 2)
  · have hlt := cont_lt h3.2.2.2
    simp only [pointAt, if_neg h1, if_neg h2, if_pos h3]
    simp only [cont_slice (show 0 + 1 < 3 by decide), cont_slice (show 0 + 2 < 3 by decide),
      lowBits_slice (show 0 + 1 < 3 by decide), lowBits_slice (show 0 + 2 < 3 by decide), Nat.zero_add]
    rw [if_neg h2, if_pos h3]
    exact ⟨by decide, by decide, hlt, rfl⟩
  by_cases h4 : 0xF0 ≤ first ∧ first ≤ 0xF4 ∧ cont bytes (i + 1) ∧ cont bytes (i + 2) ∧ cont bytes (i + 3)
  · have hlt := cont_lt h4.2.2.2.2
    by_cases hcp : 0x10FFFF < ((first.toNat &&& 0x07) <<< 18) ||| (lowBits bytes (i + 1) <<< 12) |||
        (lowBits bytes (i + 2) <<< 6) ||| lowBits bytes (i + 3)
    · exact piece_of_malformed h1 hi (by simp only [pointAt, if_neg h1, if_neg h2, if_neg h3,
        if_pos h4, if_pos hcp])
    · simp only [pointAt, if_neg h1, if_neg h2, if_neg h3, if_pos h4, if_neg hcp]
      simp only [cont_slice (show 0 + 1 < 4 by decide), cont_slice (show 0 + 2 < 4 by decide),
        cont_slice (show 0 + 3 < 4 by decide), lowBits_slice (show 0 + 1 < 4 by decide),
        lowBits_slice (show 0 + 2 < 4 by decide), lowBits_slice (show 0 + 3 < 4 by decide), Nat.zero_add]
      rw [if_neg h2, if_neg h3, if_pos h4, if_neg hcp]
      exact ⟨by decide, by decide, hlt, rfl⟩
  exact piece_of_malformed h1 hi (by simp only [pointAt, if_neg h1, if_neg h2, if_neg h3, if_neg h4])

lemma slice_cons (hfirst : bytes[i]? = some first) (hn : 1 ≤ n) : ∃ rest, slice bytes i n = first :: rest := by
  obtain ⟨hi, rfl⟩ := List.getElem?_eq_some_iff.mp hfirst
  obtain ⟨m, rfl⟩ := Nat.exists_eq_succ_of_ne_zero (Nat.one_le_iff_ne_zero.mp hn)
  refine ⟨(bytes.drop (i + 1)).take m, ?_⟩
  rw [slice, List.drop_eq_getElem_cons hi, List.take_succ_cons]

end Pieces

theorem wtf8ToWide_pieces (bytes : Bytes) : Returns (wtf8ToWide bytes) fun out =>
    ∃ pieces : List Bytes, pieces.flatten = bytes ∧
      (∀ p ∈ pieces, 1 ≤ p.length ∧ p.length ≤ 4 ∧ IsPiece p) ∧ out = pieces.flatMap pieceUnits := by
  apply Returns.loop fun n (s : ℕ × List UInt16) => ∃ pieces : List Bytes, n = bytes.length - s.1 ∧
    s.1 ≤ bytes.length ∧ pieces.flatten = bytes.take s.1 ∧
    (∀ p ∈ pieces, 1 ≤ p.length ∧ p.length ≤ 4 ∧ IsPiece p) ∧ s.2 = pieces.flatMap pieceUnits
  · rintro n ⟨i, out⟩ ⟨pieces, rfl, hi, hflat, hsize, hout⟩
    dsimp only at hi hflat hout
    rw [wideStep]
    dsimp only
    split
    · next hnone =>
      have hle := List.getElem?_eq_none_iff.mp hnone
      refine .pure ⟨pieces, ?_, hsize, hout⟩
      rw [hflat, List.take_of_length_le hle]
    · next first hfirst =>
      obtain ⟨hpos, hfour, hin, halone⟩ := pointAt_piece hfirst
      obtain ⟨rest, hpiece⟩ := slice_cons hfirst hpos
      refine .pure ⟨_, ?_, pieces ++ [slice bytes i (pointAt bytes i first).2], rfl, hin, ?_, ?_, ?_⟩
      · dsimp only
        omega
      · rw [List.flatten_append, hflat, List.flatten_singleton, take_append_slice]
      · intro p hp
        obtain hp | hp := List.mem_append.mp hp
        · exact hsize p hp
        · rw [List.mem_singleton.mp hp, IsPiece, slice_length hin]
          exact ⟨hpos, hfour, first, by rw [hpiece]; rfl, by rw [halone]⟩
      · have hunits : pieceUnits (slice bytes i (pointAt bytes i first).2) =
          unitsOf (pointAt bytes i first).1 := by
          rw [hpiece] at halone ⊢
          rw [pieceUnits, halone]
        rw [hout, List.flatMap_append, List.flatMap_singleton, hunits]
  · exact ⟨[], rfl, Nat.zero_le _, rfl, by simp, rfl⟩

section RoundTrip

lemma unitsOf_unit (u : UInt16) : unitsOf u.toNat = [u] := by
  have := u.toNat_lt
  rw [unitsOf, if_neg (by omega), UInt16.ofNat_toNat]

lemma unitsOf_joined {u v : UInt16} (hu : isLead u) (hv : isTrail v) : unitsOf (joined u v) = [u, v] := by
  obtain ⟨hu, hu'⟩ := hu
  obtain ⟨hv, hv'⟩ := hv
  have hmod : joined u v - 0x10000 = (u.toNat - 0xD800) * 1024 + (v.toNat - 0xDC00) := by
    unfold joined
    omega
  have hhigh : 0xD800 + ((joined u v - 0x10000) >>> 10) = u.toNat := by
    rw [hmod, Nat.shiftRight_eq_div_pow]
    omega
  have hlow : 0xDC00 + ((joined u v - 0x10000) &&& 0x3FF) = v.toNat := by
    rw [hmod, show (0x3FF : ℕ) = 2 ^ 10 - 1 from rfl, Nat.and_two_pow_sub_one_eq_mod]
    omega
  have hle : 0x10000 ≤ joined u v := by
    unfold joined
    omega
  rw [unitsOf, if_pos hle]
  dsimp only
  rw [hhigh, hlow, UInt16.ofNat_toNat, UInt16.ofNat_toNat]

lemma flatMap_unitsOf_codePoints (units : List UInt16) : (codePoints units).flatMap unitsOf = units := by
  fun_induction codePoints units with
  | case1 => rfl
  | case2 u => rw [List.flatMap_singleton, unitsOf_unit]
  | case3 u v rest h ih =>
    rw [List.flatMap_cons, unitsOf_joined h.1 h.2, ih, List.cons_append, List.singleton_append]
  | case4 u v rest h ih => rw [List.flatMap_cons, unitsOf_unit, ih, List.singleton_append]

variable {x : ℕ}

lemma isCont_ofNat (h : x < 64) : (UInt8.ofNat (0x80 + x) &&& 0xC0 == 0x80) = true := by
  have hall : ∀ x : Fin 64, (UInt8.ofNat (0x80 + x.val) &&& 0xC0 == 0x80) = true := by decide
  exact hall ⟨x, h⟩

lemma lowBits_ofNat (h : x < 64) : (UInt8.ofNat (0x80 + x) &&& 0x3F).toNat = x := by
  have hall : ∀ x : Fin 64, (UInt8.ofNat (0x80 + x.val) &&& 0x3F).toNat = x.val := by decide
  exact hall ⟨x, h⟩

lemma pointAt_append (p q : Bytes) (first : UInt8) : pointAt (p ++ q) p.length first = pointAt q 0 first := by
  have hcont : ∀ j, cont (p ++ q) (p.length + j) = cont q (0 + j) := by
    intro j
    rw [cont, cont, List.getElem?_append_right (Nat.le_add_right _ _), Nat.add_sub_cancel_left, Nat.zero_add]
  have hlow : ∀ j, lowBits (p ++ q) (p.length + j) = lowBits q (0 + j) := by
    intro j
    rw [lowBits, lowBits, List.getElem?_append_right (Nat.le_add_right _ _), Nat.add_sub_cancel_left, Nat.zero_add]
  simp only [pointAt, hcont, hlow]

lemma shiftLeft_or {a b k : ℕ} (h : b < 2 ^ k) : (a <<< k) ||| b = a * 2 ^ k + b := by
  rw [← Nat.shiftLeft_add_eq_or_of_lt h, Nat.shiftLeft_eq]

lemma mul_or {a b k : ℕ} (h : b < 2 ^ k) : (a * 2 ^ k) ||| b = a * 2 ^ k + b := by
  rw [← Nat.shiftLeft_eq, shiftLeft_or h, Nat.shiftLeft_eq]

lemma three_bits {y z : ℕ} (hy : y < 64) (hz : z < 64) :
    (x <<< 12) ||| (y <<< 6) ||| z = (x * 64 + y) * 64 + z := by
  have h1 : (x <<< 12) ||| (y <<< 6) = (x * 64 + y) * 2 ^ 6 := by
    rw [shiftLeft_or, Nat.shiftLeft_eq]
    · ring
    · rw [Nat.shiftLeft_eq]
      omega
  rw [h1, mul_or hz]
  rfl

lemma four_bits {y z w : ℕ} (hy : y < 64) (hz : z < 64) (hw : w < 64) :
    (x <<< 18) ||| (y <<< 12) ||| (z <<< 6) ||| w = ((x * 64 + y) * 64 + z) * 64 + w := by
  have h1 : (x <<< 18) ||| (y <<< 12) = (x * 64 + y) * 2 ^ 12 := by
    rw [shiftLeft_or, Nat.shiftLeft_eq]
    · ring
    · rw [Nat.shiftLeft_eq]
      omega
  have h2 : (x * 64 + y) * 2 ^ 12 ||| (z <<< 6) = ((x * 64 + y) * 64 + z) * 2 ^ 6 := by
    rw [mul_or, Nat.shiftLeft_eq]
    · ring
    · rw [Nat.shiftLeft_eq]
      omega
  rw [h1, h2, mul_or hw]
  rfl

lemma lead_two (h : x < 32) : ¬ UInt8.ofNat (0xC0 + x) ≤ 0x7F ∧ 0xC0 ≤ UInt8.ofNat (0xC0 + x) ∧
    UInt8.ofNat (0xC0 + x) ≤ 0xDF ∧ (UInt8.ofNat (0xC0 + x)).toNat &&& 0x1F = x := by
  have hall : ∀ x : Fin 32, ¬ UInt8.ofNat (0xC0 + x.val) ≤ 0x7F ∧ 0xC0 ≤ UInt8.ofNat (0xC0 + x.val) ∧
    UInt8.ofNat (0xC0 + x.val) ≤ 0xDF ∧ (UInt8.ofNat (0xC0 + x.val)).toNat &&& 0x1F = x.val := by decide
  exact hall ⟨x, h⟩

lemma lead_three (h : x < 16) : ¬ UInt8.ofNat (0xE0 + x) ≤ 0x7F ∧ ¬ UInt8.ofNat (0xE0 + x) ≤ 0xDF ∧
    0xE0 ≤ UInt8.ofNat (0xE0 + x) ∧ UInt8.ofNat (0xE0 + x) ≤ 0xEF ∧
    (UInt8.ofNat (0xE0 + x)).toNat &&& 0x0F = x := by
  have hall : ∀ x : Fin 16, ¬ UInt8.ofNat (0xE0 + x.val) ≤ 0x7F ∧ ¬ UInt8.ofNat (0xE0 + x.val) ≤ 0xDF ∧
    0xE0 ≤ UInt8.ofNat (0xE0 + x.val) ∧ UInt8.ofNat (0xE0 + x.val) ≤ 0xEF ∧
    (UInt8.ofNat (0xE0 + x.val)).toNat &&& 0x0F = x.val := by decide
  exact hall ⟨x, h⟩

lemma lead_four (h : x < 5) : ¬ UInt8.ofNat (0xF0 + x) ≤ 0x7F ∧ ¬ UInt8.ofNat (0xF0 + x) ≤ 0xDF ∧
    ¬ UInt8.ofNat (0xF0 + x) ≤ 0xEF ∧ 0xF0 ≤ UInt8.ofNat (0xF0 + x) ∧ UInt8.ofNat (0xF0 + x) ≤ 0xF4 ∧
    (UInt8.ofNat (0xF0 + x)).toNat &&& 0x07 = x := by
  have hall : ∀ x : Fin 5, ¬ UInt8.ofNat (0xF0 + x.val) ≤ 0x7F ∧ ¬ UInt8.ofNat (0xF0 + x.val) ≤ 0xDF ∧
    ¬ UInt8.ofNat (0xF0 + x.val) ≤ 0xEF ∧ 0xF0 ≤ UInt8.ofNat (0xF0 + x.val) ∧ UInt8.ofNat (0xF0 + x.val) ≤ 0xF4 ∧
    (UInt8.ofNat (0xF0 + x.val)).toNat &&& 0x07 = x.val := by decide
  exact hall ⟨x, h⟩

lemma cont_of_getElem? {q : Bytes} (hx : x < 64) (h : q[j]? = some (UInt8.ofNat (0x80 + x))) :
    cont q j = true ∧ lowBits q j = x := by
  rw [cont, lowBits, h]
  exact ⟨isCont_ofNat hx, lowBits_ofNat hx⟩

lemma pointAt_encodePoint {cp : ℕ} (h : cp < 0x110000) (rest : Bytes) :
    ∃ first tail, encodePoint cp = first :: tail ∧
      pointAt (encodePoint cp ++ rest) 0 first = (cp, (encodePoint cp).length) := by
  unfold encodePoint
  split_ifs with h1 h2 h3
  · have hle : UInt8.ofNat cp ≤ 0x7F := by
      rw [UInt8.le_iff_toNat_le, UInt8.toNat_ofNat_of_lt' (show cp < 2 ^ 8 by omega)]
      exact Nat.le_of_lt_succ h1
    refine ⟨_, _, rfl, ?_⟩
    simp only [pointAt, if_pos hle, UInt8.toNat_ofNat_of_lt' (show cp < 2 ^ 8 by omega)]
    rfl
  · obtain ⟨hn1, hl, hu, hb⟩ := lead_two (show cp / 64 < 32 by omega)
    refine ⟨_, _, rfl, ?_⟩
    generalize hq : [UInt8.ofNat (0xC0 + cp / 64), UInt8.ofNat (0x80 + cp % 64)] ++ rest = q
    obtain ⟨hc, hlow⟩ := cont_of_getElem? (q := q) (j := 0 + 1) (show cp % 64 < 64 by omega) (by rw [← hq]; rfl)
    have hcp : cp / 64 * 2 ^ 6 + cp % 64 = cp := by omega
    simp only [pointAt, if_neg hn1, hl, hu, hc, and_self, if_true, hb, hlow,
      shiftLeft_or (show cp % 64 < 2 ^ 6 by omega), hcp]
    rfl
  · obtain ⟨hn1, hn2, hl, hu, hb⟩ := lead_three (show cp / 4096 < 16 by omega)
    refine ⟨_, _, rfl, ?_⟩
    generalize hq : [UInt8.ofNat (0xE0 + cp / 4096), UInt8.ofNat (0x80 + cp / 64 % 64),
      UInt8.ofNat (0x80 + cp % 64)] ++ rest = q
    obtain ⟨hc1, hlow1⟩ := cont_of_getElem? (q := q) (j := 0 + 1) (show cp / 64 % 64 < 64 by omega)
      (by rw [← hq]; rfl)
    obtain ⟨hc2, hlow2⟩ := cont_of_getElem? (q := q) (j := 0 + 2) (show cp % 64 < 64 by omega) (by rw [← hq]; rfl)
    have hcp : (cp / 4096 * 64 + cp / 64 % 64) * 64 + cp % 64 = cp := by omega
    simp only [pointAt, if_neg hn1, hn2, hl, hu, hc1, hc2, and_self, false_and, and_false, if_true, if_false,
      hb, hlow1, hlow2, three_bits (show cp / 64 % 64 < 64 by omega) (show cp % 64 < 64 by omega), hcp]
    rfl
  · obtain ⟨hn1, hn2, hn3, hl, hu, hb⟩ := lead_four (show cp / 262144 < 5 by omega)
    refine ⟨_, _, rfl, ?_⟩
    generalize hq : [UInt8.ofNat (0xF0 + cp / 262144), UInt8.ofNat (0x80 + cp / 4096 % 64),
      UInt8.ofNat (0x80 + cp / 64 % 64), UInt8.ofNat (0x80 + cp % 64)] ++ rest = q
    obtain ⟨hc1, hlow1⟩ := cont_of_getElem? (q := q) (j := 0 + 1) (show cp / 4096 % 64 < 64 by omega)
      (by rw [← hq]; rfl)
    obtain ⟨hc2, hlow2⟩ := cont_of_getElem? (q := q) (j := 0 + 2) (show cp / 64 % 64 < 64 by omega)
      (by rw [← hq]; rfl)
    obtain ⟨hc3, hlow3⟩ := cont_of_getElem? (q := q) (j := 0 + 3) (show cp % 64 < 64 by omega) (by rw [← hq]; rfl)
    have hcp : ((cp / 262144 * 64 + cp / 4096 % 64) * 64 + cp / 64 % 64) * 64 + cp % 64 = cp := by omega
    simp only [pointAt, if_neg hn1, hn2, hn3, hl, hu, hc1, hc2, hc3, and_self, false_and, and_false,
      if_true, if_false, hb,
      hlow1, hlow2, hlow3, four_bits (show cp / 4096 % 64 < 64 by omega) (show cp / 64 % 64 < 64 by omega)
      (show cp % 64 < 64 by omega), hcp]
    rw [if_neg (by omega)]
    rfl

end RoundTrip

theorem wtf8ToWide_reads_back : (∀ units : List UInt16, wtf8ToWide (wtf8 units) = pure units) ∧
    ∀ bytes : Bytes, Returns (wtf8ToWide bytes) fun out => ∃ pieces : List Bytes, pieces.flatten = bytes ∧
      (∀ p ∈ pieces, 1 ≤ p.length ∧ p.length ≤ 4 ∧
        ∃ first, p.head? = some first ∧ (pointAt p 0 first).2 = p.length) ∧ out = pieces.flatMap pieceUnits := by
  refine ⟨fun units => ?_, wtf8ToWide_pieces⟩
  have hpoints := codePoints_lt units
  have hreturns : Returns (wtf8ToWide (wtf8 units)) fun out => out = units := by
    apply Returns.loop fun n (s : ℕ × List UInt16) => ∃ done rest, codePoints units = done ++ rest ∧
      n = rest.length ∧ s.1 = (done.flatMap encodePoint).length ∧ s.2 = done.flatMap unitsOf
    · rintro n ⟨i, out⟩ ⟨done, rest, hsplit, rfl, rfl, rfl⟩
      have hbytes : wtf8 units = done.flatMap encodePoint ++ rest.flatMap encodePoint := by
        rw [wtf8, hsplit, List.flatMap_append]
      rw [wideStep]
      dsimp only
      cases rest with
      | nil =>
        rw [List.append_nil] at hsplit
        rw [hbytes, List.getElem?_eq_none (by simp)]
        refine .pure ?_
        rw [← hsplit]
        exact flatMap_unitsOf_codePoints units
      | cons cp rest =>
        obtain ⟨first, tail, hfirst, hpoint⟩ :=
          pointAt_encodePoint (hpoints cp (by simp [hsplit])) (rest.flatMap encodePoint)
        have hget : (wtf8 units)[(done.flatMap encodePoint).length]? = some first := by
          rw [hbytes, List.getElem?_append_right le_rfl, Nat.sub_self, List.flatMap_cons, hfirst]
          rfl
        rw [hget]
        dsimp only
        rw [hbytes, pointAt_append, List.flatMap_cons, hpoint]
        refine .pure ⟨_, Nat.lt_succ_self _, done ++ [cp], rest, by simp [hsplit], rfl, ?_, ?_⟩
        · simp
        · simp
    · exact ⟨[], codePoints units, rfl, rfl, rfl, rfl⟩
  obtain ⟨out, hout, rfl⟩ := hreturns
  exact hout

end Flux.Spill
