import Flux.Base.Bytes

namespace Base

inductive Delivery (ε : Type) where
  | upTo (n : ℕ)
  | interrupted
  | failed (e : ε)

/-- The bytes still to come and how the next reads deliver them; once the schedule is used up every read is
full. -/
structure ByteStream (ε : Type) where
  rest : Bytes
  schedule : List (Delivery ε)

namespace ByteStream

variable {ε : Type}

def Clean (s : ByteStream ε) : Prop := ∀ e, Delivery.failed e ∉ s.schedule

def next (cap : ℕ) (rest : Bytes) : List (Delivery ε) → Except ε (Bytes × ByteStream ε)
  | [] => .ok (rest.take cap, ⟨rest.drop cap, []⟩)
  | .upTo n :: ds => .ok (rest.take (min (max n 1) cap), ⟨rest.drop (min (max n 1) cap), ds⟩)
  | .interrupted :: ds => next cap rest ds
  | .failed e :: _ => .error e

def read (cap : ℕ) (s : ByteStream ε) : Except ε (Bytes × ByteStream ε) := next cap s.rest s.schedule

variable {ds : List (Delivery ε)} {s : ByteStream ε}

variable {p : Bytes} {t : ByteStream ε} {n : ℕ}

lemma next_ok {cap : ℕ} (hc : 0 < cap) {rest : Bytes} (h : next cap rest ds = .ok (p, s)) :
    rest = p ++ s.rest ∧ (p = [] ↔ rest = []) ∧ p.length ≤ cap ∧
      ((ByteStream.mk rest ds).Clean → s.Clean) := by
  induction ds with
  | nil =>
    cases h
    have : rest.take cap = [] ↔ rest = [] := by
      rw [List.take_eq_nil_iff]
      exact or_iff_right (by omega)
    exact ⟨(List.take_append_drop _ _).symm, this, List.length_take_le _ _, id⟩
  | cons d ds ih =>
    cases d with
    | upTo n =>
      cases h
      have : rest.take (min (max n 1) cap) = [] ↔ rest = [] := by
        rw [List.take_eq_nil_iff]
        exact or_iff_right (by omega)
      refine ⟨(List.take_append_drop _ _).symm, this, ?_, fun hs e he => hs e (List.mem_cons_of_mem _ he)⟩
      exact (List.length_take_le _ _).trans (min_le_right _ _)
    | interrupted =>
      obtain ⟨h1, h2, h3, h4⟩ := ih h
      exact ⟨h1, h2, h3, fun hs => h4 fun e he => hs e (List.mem_cons_of_mem _ he)⟩
    | failed e => cases h

lemma next_error {cap : ℕ} {rest : Bytes} {e : ε} (h : next cap rest ds = .error e) :
    ¬ (ByteStream.mk rest ds).Clean := by
  induction ds with
  | nil => cases h
  | cons d ds ih =>
    intro hs
    cases d with
    | upTo n => cases h
    | interrupted => exact ih h fun e he => hs e (List.mem_cons_of_mem _ he)
    | failed e => exact hs e List.mem_cons_self

def once (cap : ℕ) (s : ByteStream ε) : Except (Option ε) Bytes × ByteStream ε :=
  match s.schedule with
  | [] => (.ok (s.rest.take cap), ⟨s.rest.drop cap, []⟩)
  | .upTo n :: ds => (.ok (s.rest.take (min (max n 1) cap)), ⟨s.rest.drop (min (max n 1) cap), ds⟩)
  | .interrupted :: ds => (.error none, ⟨s.rest, ds⟩)
  | .failed e :: ds => (.error (some e), ⟨s.rest, ds⟩)

lemma once_ok {cap : ℕ} (hc : 0 < cap) (h : s.once cap = (.ok p, t)) :
    s.rest = p ++ t.rest ∧ (p = [] → s.rest = []) := by
  have hp : ∀ n, 0 < n → s.rest.take n = [] → s.rest = [] := by
    intro n hn he
    rw [List.take_eq_nil_iff] at he
    exact he.resolve_left (by omega)
  rw [once] at h
  split at h <;> cases h
  · exact ⟨(List.take_append_drop _ _).symm, hp _ hc⟩
  · exact ⟨(List.take_append_drop _ _).symm, hp _ (by omega)⟩

def fillFrom (n : ℕ) (rest : Bytes) : List (Delivery ε) → Except ε (Bytes × ByteStream ε)
  | [] => .ok (rest.take n, ⟨rest.drop n, []⟩)
  | d :: ds =>
    if n = 0 then .ok ([], ⟨rest, d :: ds⟩)
    else match d with
      | .upTo k =>
        match rest.take (min (max k 1) n) with
        | [] => .ok ([], ⟨rest, ds⟩)
        | p => (fillFrom (n - p.length) (rest.drop (min (max k 1) n)) ds).map fun (q, t) => (p ++ q, t)
      | .interrupted => fillFrom n rest ds
      | .failed e => .error e

def readFull (n : ℕ) (s : ByteStream ε) : Except ε (Bytes × ByteStream ε) := fillFrom n s.rest s.schedule

lemma fillFrom_ok {rest : Bytes} (h : fillFrom n rest ds = .ok (p, t)) :
    p = rest.take n ∧ t.rest = rest.drop n := by
  induction ds generalizing n rest p with
  | nil =>
    cases h
    exact ⟨rfl, rfl⟩
  | cons d ds ih =>
    rw [fillFrom.eq_def] at h
    dsimp only at h
    split at h
    · next hn =>
      cases h
      subst hn
      exact ⟨rfl, rfl⟩
    next hn =>
    cases d with
    | interrupted => exact ih h
    | failed e => cases h
    | upTo k =>
      simp only at h
      have hk : 0 < min (max k 1) n := by omega
      split at h
      · next hp =>
        cases h
        rw [List.take_eq_nil_iff] at hp
        obtain rfl := hp.resolve_left (by omega)
        exact ⟨List.take_nil.symm, List.drop_nil.symm⟩
      · cases hf : fillFrom (n - (rest.take (min (max k 1) n)).length) (rest.drop (min (max k 1) n)) ds with
        | error e =>
          rw [hf] at h
          cases h
        | ok r =>
          rw [hf] at h
          cases h
          obtain ⟨h1, h2⟩ := ih hf
          have hl := List.length_take (l := rest) (i := min (max k 1) n)
          by_cases hr : min (max k 1) n ≤ rest.length
          · have hm : n = min (max k 1) n + (n - min (max k 1) n) := by omega
            rw [hl, min_eq_left hr] at h1 h2
            rw [h1, h2, List.drop_drop, ← List.take_add, ← hm]
            exact ⟨rfl, rfl⟩
          · have hd : rest.drop (min (max k 1) n) = [] := List.drop_of_length_le (by omega)
            rw [hd, List.take_nil] at h1
            rw [hd, List.drop_nil] at h2
            rw [h1, h2, List.append_nil, List.take_of_length_le (by omega), List.take_of_length_le (by omega),
              List.drop_of_length_le (by omega)]
            exact ⟨rfl, rfl⟩

lemma readFull_ok (h : s.readFull n = .ok (p, t)) : p = s.rest.take n ∧ t.rest = s.rest.drop n :=
  fillFrom_ok h

lemma fillFrom_clean {rest : Bytes} (hc : ∀ e, Delivery.failed e ∉ ds) :
    ∃ t : ByteStream ε, fillFrom n rest ds = .ok (rest.take n, t) ∧ t.rest = rest.drop n ∧ t.Clean := by
  suffices h : ∃ p t, fillFrom n rest ds = .ok (p, t) ∧ t.Clean by
    obtain ⟨p, t, h, ht⟩ := h
    obtain ⟨rfl, hd⟩ := fillFrom_ok h
    exact ⟨t, h, hd, ht⟩
  induction ds generalizing n rest with
  | nil => exact ⟨_, _, rfl, hc⟩
  | cons d ds ih =>
    have hc' : ∀ e, Delivery.failed e ∉ ds := fun e he => hc e (List.mem_cons_of_mem _ he)
    rw [fillFrom.eq_def]
    dsimp only
    split
    · exact ⟨_, _, rfl, hc⟩
    cases d with
    | interrupted => exact ih hc'
    | failed e => exact absurd List.mem_cons_self (hc e)
    | upTo k =>
      simp only
      split
      · exact ⟨_, _, rfl, hc'⟩
      · obtain ⟨p, t, h, ht⟩ := ih (n := n - (rest.take (min (max k 1) n)).length) hc'
        rw [h]
        exact ⟨_, _, rfl, ht⟩

lemma readFull_clean (hc : s.Clean) :
    ∃ t : ByteStream ε, s.readFull n = .ok (s.rest.take n, t) ∧ t.rest = s.rest.drop n ∧ t.Clean :=
  fillFrom_clean hc

end ByteStream

end Base
