import Mathlib.Tactic.Linarith

/-! Wildcard matching by two pointers that go back only to the last star. -/

namespace Base.Wildcard

section Meaning

variable {P U : Type} (star : P → Bool) (fits : P → U → Bool)

inductive Matches : List P → List U → Prop
  | nil : Matches [] []
  | star {p ps} (run : List U) {us} : star p = true → Matches ps us → Matches (p :: ps) (run ++ us)
  | unit {p ps u us} : ¬ star p = true → fits p u = true → Matches ps us → Matches (p :: ps) (u :: us)

variable {star fits}

lemma matches_nil {us : List U} : Matches star fits [] us ↔ us = [] := by
  constructor
  · intro h
    cases h
    rfl
  · rintro rfl
    exact .nil

lemma matches_star {p : P} (hp : star p = true) {ps : List P} {us : List U} :
    Matches star fits (p :: ps) us ↔ ∃ n, Matches star fits ps (us.drop n) := by
  constructor
  · intro h
    cases h with
    | star run _ h => exact ⟨run.length, by rwa [List.drop_left]⟩
    | unit hn => exact absurd hp hn
  · rintro ⟨n, h⟩
    rw [← List.take_append_drop n us]
    exact .star _ hp h

lemma matches_unit {p : P} (hp : ¬ star p = true) {ps : List P} {us : List U} :
    Matches star fits (p :: ps) us ↔ ∃ u rest, us = u :: rest ∧ fits p u = true ∧ Matches star fits ps rest := by
  constructor
  · intro h
    cases h with
    | star _ hs => exact absurd hs hp
    | unit _ hf h => exact ⟨_, _, rfl, hf, h⟩
  · rintro ⟨u, rest, rfl, hf, h⟩
    exact .unit hp hf h

lemma Matches.drop_units {mid ps : List P} {us : List U} (hmid : ∀ p ∈ mid, ¬ star p = true)
    (h : Matches star fits (mid ++ ps) us) : Matches star fits ps (us.drop mid.length) := by
  induction mid generalizing us with
  | nil => exact h
  | cons p mid ih =>
    obtain ⟨u, rest, rfl, -, h⟩ := (matches_unit (hmid p List.mem_cons_self)).mp h
    exact ih (fun q hq => hmid q (List.mem_cons_of_mem p hq)) h

end Meaning

section Scan

variable {P U : Type} (star : P → Bool) (fits : P → U → Bool)

structure State (P U : Type) where
  items : List P
  units : List U
  last : Option (List P × List U)

def back (last : Option (List P × List U)) : State P U ⊕ Bool :=
  match last with
  | some (items, units) => .inl ⟨items, units.tail, some (items, units.tail)⟩
  | none => .inr false

def step (s : State P U) : State P U ⊕ Bool :=
  match s.units with
  | [] => .inr (s.items.dropWhile star).isEmpty
  | u :: rest =>
    match s.items with
    | p :: items =>
      if star p then .inl ⟨items, s.units, some (items, s.units)⟩
      else if fits p u then .inl ⟨items, rest, s.last⟩
      else back s.last
    | [] => back s.last

def scan : ℕ → State P U → Option Bool
  | 0, _ => none
  | fuel + 1, s =>
    match step star fits s with
    | .inl s => scan fuel s
    | .inr b => some b

def steps (ps : List P) (us : List U) : ℕ := (ps.length + 1) * ((us.length + 1) * (ps.length + 1)) + 1

end Scan

section Correct

variable {P U : Type} {star : P → Bool} {fits : P → U → Bool}

def Since (star : P → Bool) (s : State P U) : Prop :=
  ∀ items units, s.last = some (items, units) →
    ∃ mid, (∀ p ∈ mid, ¬ star p = true) ∧ items = mid ++ s.items ∧ s.units = units.drop mid.length ∧
      mid.length ≤ units.length

def Open (star : P → Bool) (fits : P → U → Bool) (s : State P U) : Prop :=
  Matches star fits s.items s.units ∨
    ∃ items units, s.last = some (items, units) ∧
      ∃ n, Matches star fits items (units.tail.drop n)

variable {s s' : State P U}

lemma Since.later (h : Since star s) {items : List P} {units : List U} (hl : s.last = some (items, units))
    {n : ℕ} (hm : Matches star fits items (units.tail.drop n)) :
    Matches star fits s.items (s.units.drop (n + 1)) := by
  obtain ⟨mid, hmid, rfl, hu, -⟩ := h items units hl
  have hdrop := hm.drop_units hmid
  rw [← List.drop_one, List.drop_drop, List.drop_drop] at hdrop
  rwa [hu, List.drop_drop, show mid.length + (n + 1) = 1 + (n + mid.length) by omega]

lemma not_matches_nil_cons {u : U} {rest : List U} :
    ¬ Matches star fits ([] : List P) (u :: rest) := fun h => by
  simpa using matches_nil.mp h

lemma matches_nil_units {ps : List P} :
    Matches star fits ps ([] : List U) ↔ ps.dropWhile star = [] := by
  induction ps with
  | nil => simp [matches_nil]
  | cons p ps ih =>
    by_cases hp : star p = true
    · rw [matches_star hp, List.dropWhile_cons_of_pos hp, ← ih]
      simp
    · rw [matches_unit hp, List.dropWhile_cons_of_neg hp]
      simp

lemma back_open {last : Option (List P × List U)} (h : back last = .inl s') :
    Since star s' ∧ (Open star fits s' ↔ ∃ items units, last = some (items, units) ∧
      ∃ n, Matches star fits items (units.tail.drop n)) := by
  cases hl : last with
  | none => simp [back, hl] at h
  | some l =>
    obtain ⟨items, units⟩ := l
    simp only [back, hl, Sum.inl.injEq] at h
    subst h
    constructor
    · intro items' units' h
      simp only [Option.some.injEq, Prod.mk.injEq] at h
      obtain ⟨rfl, rfl⟩ := h
      exact ⟨[], by simp, rfl, rfl, Nat.zero_le _⟩
    · constructor
      · rintro (h | ⟨items', units', h, n, hm⟩)
        · exact ⟨items, units, rfl, 0, h⟩
        · simp only [Option.some.injEq, Prod.mk.injEq] at h
          obtain ⟨rfl, rfl⟩ := h
          refine ⟨items, units, rfl, n + 1, ?_⟩
          rwa [← List.drop_one (l := units.tail), List.drop_drop, Nat.add_comm] at hm
      · rintro ⟨items', units', h, n, hm⟩
        simp only [Option.some.injEq, Prod.mk.injEq] at h
        obtain ⟨rfl, rfl⟩ := h
        cases n with
        | zero => exact .inl hm
        | succ n =>
          refine .inr ⟨items, units.tail, rfl, n, ?_⟩
          rwa [← List.drop_one (l := units.tail), List.drop_drop, Nat.add_comm]

lemma step_open (hs : Since star s) (h : step star fits s = .inl s') :
    Since star s' ∧ (Open star fits s' ↔ Open star fits s) := by
  obtain ⟨items, units, last⟩ := s
  cases units with
  | nil => simp [step] at h
  | cons u rest =>
    cases items with
    | nil =>
      have hb : back last = .inl s' := h
      refine (back_open hb).imp id fun hopen => hopen.trans ?_
      exact (or_iff_right not_matches_nil_cons).symm
    | cons p items =>
      by_cases hp : star p = true
      · -- the later places of the old star are among those of this one
        simp only [step, hp, if_true, Sum.inl.injEq] at h
        subst h
        constructor
        · intro items' units' h
          simp only [Option.some.injEq, Prod.mk.injEq] at h
          obtain ⟨rfl, rfl⟩ := h
          exact ⟨[], by simp, rfl, rfl, Nat.zero_le _⟩
        · have hnew : Open star fits ⟨items, u :: rest, some (items, u :: rest)⟩ ↔
              Matches star fits (p :: items) (u :: rest) := by
            rw [matches_star hp]
            constructor
            · rintro (h | ⟨items', units', h, n, hm⟩)
              · exact ⟨0, h⟩
              · simp only [Option.some.injEq, Prod.mk.injEq] at h
                obtain ⟨rfl, rfl⟩ := h
                exact ⟨n + 1, hm⟩
            · rintro ⟨n, hm⟩
              cases n with
              | zero => exact .inl hm
              | succ n => exact .inr ⟨_, _, rfl, n, hm⟩
          rw [hnew]
          constructor
          · exact .inl
          · rintro (h | ⟨items', units', hl, n, hm⟩)
            · exact h
            · obtain ⟨k, hk⟩ := (matches_star hp).mp (hs.later hl hm)
              rw [List.drop_drop] at hk
              exact (matches_star hp).mpr ⟨_, hk⟩
      · by_cases hf : fits p u = true
        · simp only [step, hp, hf, if_true, if_false, Bool.false_eq_true, Sum.inl.injEq] at h
          subst h
          constructor
          · intro items' units' hl
            obtain ⟨mid, hmid, rfl, hu, hlen⟩ := hs items' units' hl
            have hlt : mid.length < units'.length := by
              by_contra hge
              rw [List.drop_eq_nil_of_le (Nat.not_lt.mp hge)] at hu
              simp at hu
            refine ⟨mid ++ [p], ?_, by simp, ?_, by simpa using Nat.succ_le_of_lt hlt⟩
            · intro q hq
              rcases List.mem_append.mp hq with hq | hq
              · exact hmid q hq
              · rw [List.mem_singleton.mp hq]
                exact hp
            · rw [List.length_append, List.length_singleton, ← List.drop_drop, ← hu]
              rfl
          · apply or_congr_left
            rw [matches_unit hp]
            constructor
            · intro h
              exact ⟨u, rest, rfl, hf, h⟩
            · rintro ⟨u', rest', h, -, hm⟩
              obtain ⟨rfl, rfl⟩ := List.cons.inj h
              exact hm
        · have hb : back last = .inl s' := by simpa [step, hp, hf] using h
          refine (back_open hb).imp id fun hopen => hopen.trans (or_iff_right ?_).symm
          intro h
          obtain ⟨u', rest', h, hf', -⟩ := (matches_unit hp).mp h
          obtain ⟨rfl, rfl⟩ := List.cons.inj h
          exact hf hf'

lemma step_done {b : Bool} (hs : Since star s) (h : step star fits s = .inr b) :
    b = true ↔ Open star fits s := by
  obtain ⟨items, units, last⟩ := s
  have hfail : ∀ {u rest}, units = u :: rest → back last = .inr b →
      ¬ Matches star fits items units → (b = true ↔ Open star fits ⟨items, units, last⟩) := by
    intro u rest _ hb hm
    cases last with
    | some l => simp [back] at hb
    | none =>
      simp only [back, Sum.inr.injEq] at hb
      subst hb
      exact iff_of_false (by simp) fun h => h.elim hm fun ⟨_, _, h, _⟩ => by simp at h
  cases units with
  | nil =>
    simp only [step, Sum.inr.injEq] at h
    subst h
    have hnil : items.dropWhile star = [] ↔ Matches star fits items ([] : List U) := matches_nil_units.symm
    rw [List.isEmpty_iff, hnil]
    constructor
    · exact .inl
    · rintro (h | ⟨items', units', hl, n, hm⟩)
      · exact h
      · simpa using hs.later hl hm
  | cons u rest =>
    cases items with
    | nil => exact hfail rfl h not_matches_nil_cons
    | cons p items =>
      by_cases hp : star p = true
      · simp [step, hp] at h
      · by_cases hf : fits p u = true
        · simp [step, hp, hf] at h
        · apply hfail rfl (by simpa [step, hp, hf] using h)
          intro h
          obtain ⟨u', rest', h, hf', -⟩ := (matches_unit hp).mp h
          obtain ⟨rfl, rfl⟩ := List.cons.inj h
          exact hf hf'

lemma scan_sound {fuel : ℕ} {b : Bool} (hs : Since star s) (h : scan star fits fuel s = some b) :
    b = true ↔ Open star fits s := by
  induction fuel generalizing s with
  | zero => simp [scan] at h
  | succ fuel ih =>
    unfold scan at h
    cases hstep : step star fits s with
    | inl s' =>
      rw [hstep] at h
      obtain ⟨hs', hopen⟩ := step_open hs hstep
      rw [ih hs' h, hopen]
    | inr b' =>
      rw [hstep] at h
      obtain rfl := Option.some.inj h
      exact step_done hs hstep

def rank (l m : ℕ) (s : State P U) : ℕ :=
  match s.last with
  | none => s.items.length * ((m + 1) * (l + 1)) + (m * (l + 1) + l)
  | some (items, units) => items.length * ((m + 1) * (l + 1)) + (units.length * (l + 1) + s.items.length)

structure Within (l m : ℕ) (s : State P U) : Prop where
  items : s.items.length ≤ l
  units : s.units.length ≤ m
  last : ∀ items units, s.last = some (items, units) → items.length ≤ l ∧ units.length ≤ m

lemma lt_of_fewer {a b c d l m : ℕ} (hab : a < b) (hc : c ≤ m) (hd : d ≤ l) (e : ℕ) :
    a * ((m + 1) * (l + 1)) + (c * (l + 1) + d) < b * ((m + 1) * (l + 1)) + e := by
  have hinner : c * (l + 1) + d < (m + 1) * (l + 1) := by
    have := Nat.mul_le_mul_right (l + 1) hc
    rw [Nat.succ_mul]
    omega
  have houter := Nat.mul_le_mul_right ((m + 1) * (l + 1)) (Nat.succ_le_of_lt hab)
  rw [Nat.succ_mul] at houter
  omega

lemma back_rank {l m : ℕ} (hs : Since star s) (hw : Within l m s) {u : U} {rest : List U}
    (hu : s.units = u :: rest) (h : back s.last = .inl s') : Within l m s' ∧ rank l m s' < rank l m s := by
  cases hl : s.last with
  | none => simp [back, hl] at h
  | some last =>
    obtain ⟨items, units⟩ := last
    simp only [back, hl, Sum.inl.injEq] at h
    subst h
    obtain ⟨hi, hm⟩ := hw.last items units hl
    obtain ⟨mid, -, -, hdrop, -⟩ := hs items units hl
    have hpos : 0 < units.length := by
      cases units with
      | nil => simp [hu] at hdrop
      | cons => simp
    have htail : units.tail.length ≤ m := by
      rw [List.length_tail]
      omega
    constructor
    · refine ⟨hi, htail, ?_⟩
      intro items' units' h
      simp only [Option.some.injEq, Prod.mk.injEq] at h
      obtain ⟨rfl, rfl⟩ := h
      exact ⟨hi, htail⟩
    · have hplace : (units.length - 1) * (l + 1) + (l + 1) = units.length * (l + 1) := by
        rw [← Nat.succ_mul, Nat.succ_eq_add_one, Nat.sub_add_cancel hpos]
      simp only [rank, hl, List.length_tail]
      omega

lemma step_rank {l m : ℕ} (hs : Since star s) (hw : Within l m s) (h : step star fits s = .inl s') :
    Within l m s' ∧ rank l m s' < rank l m s := by
  cases hu : s.units with
  | nil => simp [step, hu] at h
  | cons u rest =>
    have hm := hw.units
    cases hi : s.items with
    | nil => exact back_rank hs hw hu (by simpa [step, hu, hi] using h)
    | cons p items =>
      have hl := hw.items
      rw [hi, List.length_cons] at hl
      rw [hu] at hm
      by_cases hp : star p = true
      · simp only [step, hu, hi, hp, if_true, Sum.inl.injEq] at h
        subst h
        constructor
        · refine ⟨Nat.le_of_succ_le hl, hm, ?_⟩
          intro items' units' h
          simp only [Option.some.injEq, Prod.mk.injEq] at h
          obtain ⟨rfl, rfl⟩ := h
          exact ⟨Nat.le_of_succ_le hl, hm⟩
        · unfold rank
          cases hlast : s.last with
          | none =>
            rw [hi]
            exact lt_of_fewer (Nat.lt_succ_self _) hm (Nat.le_of_succ_le hl) _
          | some last =>
            obtain ⟨mid, -, hmid, -⟩ := hs last.1 last.2 hlast
            apply lt_of_fewer _ hm (Nat.le_of_succ_le hl)
            rw [hmid, hi, List.length_append, List.length_cons]
            omega
      · by_cases hf : fits p u = true
        · simp only [step, hu, hi, hp, hf, if_true, if_false, Bool.false_eq_true, Sum.inl.injEq] at h
          subst h
          refine ⟨⟨Nat.le_of_succ_le hl, Nat.le_of_succ_le hm, hw.last⟩, ?_⟩
          unfold rank
          cases s.last with
          | none =>
            rw [hi]
            exact lt_of_fewer (Nat.lt_succ_self _) le_rfl le_rfl _
          | some last =>
            rw [hi]
            exact Nat.add_lt_add_left (Nat.add_lt_add_left (Nat.lt_succ_self _) _) _
        · exact back_rank hs hw hu (by simpa [step, hu, hi, hp, hf] using h)

lemma scan_ends {l m fuel : ℕ} (hs : Since star s) (hw : Within l m s) (hr : rank l m s < fuel) :
    ∃ b, scan star fits fuel s = some b := by
  induction fuel generalizing s with
  | zero => omega
  | succ fuel ih =>
    unfold scan
    cases hstep : step star fits s with
    | inr b => exact ⟨b, rfl⟩
    | inl s' =>
      obtain ⟨hw', hlt⟩ := step_rank hs hw hstep
      exact ih (step_open hs hstep).1 hw' (by omega)

lemma since_start (ps : List P) (us : List U) : Since star ⟨ps, us, none⟩ := fun _ _ h => by simp at h

lemma scan_isSome (ps : List P) (us : List U) : (scan star fits (steps ps us) ⟨ps, us, none⟩).isSome := by
  have hw : Within ps.length us.length (⟨ps, us, none⟩ : State P U) :=
    ⟨le_rfl, le_rfl, fun _ _ h => by simp at h⟩
  have hr : rank ps.length us.length (⟨ps, us, none⟩ : State P U) < steps ps us := by
    have hinner : us.length * (ps.length + 1) + ps.length < (us.length + 1) * (ps.length + 1) := by
      rw [Nat.succ_mul]
      omega
    simp only [rank, steps, Nat.succ_mul ps.length]
    omega
  obtain ⟨b, hb⟩ := scan_ends (since_start ps us) hw hr
  exact Option.isSome_iff_exists.mpr ⟨b, hb⟩

def accepts (star : P → Bool) (fits : P → U → Bool) (ps : List P) (us : List U) : Bool :=
  (scan star fits (steps ps us) ⟨ps, us, none⟩).get (scan_isSome ps us)

lemma accepts_iff (ps : List P) (us : List U) : accepts star fits ps us = true ↔ Matches star fits ps us := by
  refine (scan_sound (since_start ps us) (Option.some_get (scan_isSome ps us)).symm).trans ?_
  exact or_iff_left fun ⟨_, _, h, _⟩ => by simp at h

end Correct

end Base.Wildcard
