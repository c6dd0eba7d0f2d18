import Flux.Base.ByteOrder

namespace Flux

open Base

abbrev Path := List Bytes

def pathKey : Path → Bytes
  | [] => []
  | [name] => name
  | name :: rest => name ++ 0 :: pathKey rest

structure ValidName (name : Bytes) : Prop where
  ne_nil : name ≠ []
  no_nul : 0 ∉ name

lemma pathKey_cons (name : Bytes) {rest : Path} (h : rest ≠ []) :
    pathKey (name :: rest) = name ++ 0 :: pathKey rest := by
  cases rest with
  | nil => exact absurd rfl h
  | cons n rest => rfl

lemma lt_append_self (a : Bytes) (b : UInt8) (c : Bytes) : a < a ++ b :: c := by
  induction a with
  | nil => exact List.nil_lt_cons b c
  | cons x a ih => exact List.cons_lt_cons_iff.mpr (.inr ⟨rfl, ih⟩)

lemma append_nul_lt {a b : Bytes} (h : a < b) (ha : 0 ∉ a) (hb : 0 ∉ b) (c d : Bytes) :
    a ++ 0 :: c < b ++ 0 :: d ∧ a ++ 0 :: c < b ∧ a < b ++ 0 :: d := by
  induction a generalizing b with
  | nil =>
    cases b with
    | nil => exact absurd h (lt_irrefl _)
    | cons y b =>
      have hy : 0 < y := by
        apply lt_of_le_of_ne (UInt8.zero_le)
        rintro rfl
        exact hb List.mem_cons_self
      exact ⟨List.cons_lt_cons_iff.mpr (.inl hy), List.cons_lt_cons_iff.mpr (.inl hy), List.nil_lt_cons _ _⟩
  | cons x a ih =>
    cases b with
    | nil => exact absurd h (by simp)
    | cons y b =>
      simp only [List.mem_cons, not_or] at ha hb
      simp only [List.cons_append, List.cons_lt_cons_iff]
      obtain hxy | ⟨rfl, hab⟩ := List.cons_lt_cons_iff.mp h
      · exact ⟨.inl hxy, .inl hxy, .inl hxy⟩
      · obtain ⟨h₁, h₂, h₃⟩ := ih hab ha.2 hb.2
        exact ⟨.inr ⟨rfl, h₁⟩, .inr ⟨rfl, h₂⟩, .inr ⟨rfl, h₃⟩⟩

lemma append_left_lt (a : Bytes) {b c : Bytes} (h : b < c) : a ++ b < a ++ c := by
  induction a with
  | nil => exact h
  | cons x a ih => exact List.cons_lt_cons_iff.mpr (.inr ⟨rfl, ih⟩)

lemma nil_lt_pathKey {n : Bytes} (h : ValidName n) (q : Path) : [] < pathKey (n :: q) := by
  obtain ⟨x, xs, rfl⟩ := List.exists_cons_of_ne_nil h.ne_nil
  cases q with
  | nil => exact List.nil_lt_cons x xs
  | cons m q => exact List.nil_lt_cons x _

lemma pathKey_lt {p q : Path} (h : p < q) (hp : ∀ n ∈ p, ValidName n) (hq : ∀ n ∈ q, ValidName n) :
    pathKey p < pathKey q := by
  induction p generalizing q with
  | nil =>
    cases q with
    | nil => exact absurd h (lt_irrefl _)
    | cons n q => exact nil_lt_pathKey (hq n List.mem_cons_self) q
  | cons m p ih =>
    cases q with
    | nil => exact absurd h (by simp)
    | cons n q =>
      rw [List.forall_mem_cons] at hp hq
      obtain hmn | ⟨rfl, hpq⟩ := List.cons_lt_cons_iff.mp h
      · have hlt := append_nul_lt hmn hp.1.no_nul hq.1.no_nul (pathKey p) (pathKey q)
        by_cases hp' : p = []
        · by_cases hq' : q = []
          · rw [hp', hq']
            exact hmn
          · rw [hp', pathKey_cons n hq']
            exact hlt.2.2
        · by_cases hq' : q = []
          · rw [pathKey_cons m hp', hq']
            exact hlt.2.1
          · rw [pathKey_cons m hp', pathKey_cons n hq']
            exact hlt.1
      · have hq' : q ≠ [] := by
          rintro rfl
          exact absurd hpq (by simp)
        rw [pathKey_cons m hq']
        by_cases hp' : p = []
        · rw [hp']
          exact lt_append_self m 0 _
        · rw [pathKey_cons m hp']
          exact append_left_lt m (List.cons_lt_cons_iff.mpr (.inr ⟨rfl, ih hpq hp.2 hq.2⟩))

lemma pathKey_lt_iff {p q : Path} (hp : ∀ n ∈ p, ValidName n) (hq : ∀ n ∈ q, ValidName n) :
    pathKey p < pathKey q ↔ p < q := by
  constructor
  · intro h
    obtain hlt | heq | hgt := lt_trichotomy p q
    · exact hlt
    · exact absurd (heq ▸ h) (lt_irrefl _)
    · exact absurd (h.trans (pathKey_lt hgt hq hp)) (lt_irrefl _)
  · intro h
    exact pathKey_lt h hp hq

lemma pathKey_inj {p q : Path} (hp : ∀ n ∈ p, ValidName n) (hq : ∀ n ∈ q, ValidName n)
    (h : pathKey p = pathKey q) : p = q := by
  obtain hlt | heq | hgt := lt_trichotomy p q
  · exact absurd (h ▸ pathKey_lt hlt hp hq) (lt_irrefl _)
  · exact heq
  · exact absurd (h ▸ pathKey_lt hgt hq hp) (lt_irrefl _)

end Flux
