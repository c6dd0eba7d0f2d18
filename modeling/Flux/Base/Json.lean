import Flux.Base.Text
import Mathlib.Data.List.Sort

namespace Base

/-- `num` is a number that fits an unsigned 64-bit integer; `otherNum` is any other, as written. -/
inductive Json where
  | null
  | bool (b : Bool)
  | num (n : UInt64)
  | otherNum (written : Text)
  | str (t : Text)
  | arr (items : List Json)
  | obj (members : List (String × Json))

abbrev Members := List (String × Json)

variable {m : Members}

namespace Members

def get (m : Members) (k : String) : Option Json := m.lookup k

def erase (m : Members) (keys : List String) : Members := m.filter fun e => e.1 ∉ keys

def insert (m : Members) (e : String × Json) : Members :=
  List.orderedInsert (fun a b => a.1 ≤ b.1) e (m.erase [e.1])

def extend (m : Members) (fields : List (String × Json)) : Members := fields.foldl insert m

def pick (m : Members) (keys : List String) : Members :=
  extend [] (keys.filterMap fun k => (m.get k).map (k, ·))

lemma extend_nil (m : Members) : m.extend [] = m := rfl

lemma get_erase (m : Members) (keys : List String) (k : String) :
    (m.erase keys).get k = if k ∈ keys then none else m.get k := by
  induction m with
  | nil => simp [erase, get]
  | cons e m ih =>
    obtain ⟨k', v⟩ := e
    simp only [erase, get] at ih ⊢
    by_cases hk' : k' ∈ keys
    · have hne : k ∉ keys → (k == k') = false := fun hk => beq_false_of_ne fun he => hk (he ▸ hk')
      rw [List.filter_cons_of_neg (by simpa using hk'), ih, List.lookup_cons]
      split
      · rfl
      · rename_i hk
        rw [hne hk]
    · rw [List.filter_cons_of_pos (by simpa using hk'), List.lookup_cons, List.lookup_cons]
      cases hk : k == k' with
      | false => exact ih
      | true =>
        rw [beq_iff_eq] at hk
        rw [if_neg (hk ▸ hk')]

variable {k : String}

lemma get_orderedInsert (hk : m.get k = none) (v : Json) (k' : String) :
    get (List.orderedInsert (fun a b => a.1 ≤ b.1) (k, v) m) k' = if k' = k then some v else m.get k' := by
  induction m with
  | nil =>
    by_cases he : k' = k
    · simp [get, he]
    · simp [get, he, List.lookup_cons, beq_false_of_ne he]
  | cons e m ih =>
    obtain ⟨a, w⟩ := e
    simp only [get, List.lookup_cons] at hk ih ⊢
    have hka : (k == a) = false := by
      cases hka : k == a with
      | false => rfl
      | true => simp [hka] at hk
    rw [hka] at hk
    rw [List.orderedInsert_cons]
    split
    · by_cases he : k' = k
      · simp [he]
      · simp [List.lookup_cons, he, beq_false_of_ne he]
    · rw [List.lookup_cons, ih hk]
      by_cases he : k' = k
      · simp [he, hka]
      · simp [he]

@[simp] lemma get_insert (m : Members) (e : String × Json) (k : String) :
    (m.insert e).get k = if k = e.1 then some e.2 else m.get k := by
  rw [insert, get_orderedInsert (by simp [get_erase]), get_erase]
  split <;> simp_all

lemma get_extend (m : Members) (fields : List (String × Json)) (k : String) :
    (m.extend fields).get k = (fields.reverse.lookup k).or (m.get k) := by
  induction fields generalizing m with
  | nil => rfl
  | cons e fields ih =>
    rw [extend, List.foldl_cons, ← extend, ih, get_insert, List.reverse_cons, List.lookup_append, Option.or_assoc]
    congr 1
    obtain ⟨k', v⟩ := e
    by_cases hk : k = k'
    · simp [hk]
    · simp [hk, List.lookup_cons, beq_false_of_ne hk]

lemma mem_keys : k ∈ m.map Prod.fst ↔ (m.get k).isSome := by
  induction m with
  | nil => simp [get]
  | cons e m ih =>
    obtain ⟨k', v⟩ := e
    rw [get, List.map_cons, List.mem_cons, List.lookup_cons, ih, get]
    cases hk : k == k' with
    | false => simp [ne_of_beq_false hk]
    | true => simp [eq_of_beq hk]

lemma get_pick (m : Members) (keys : List String) (k : String) :
    (m.pick keys).get k = if k ∈ keys then m.get k else none := by
  rw [pick, get_extend, show get [] k = none from rfl, Option.or_none]
  induction keys with
  | nil => simp
  | cons k' keys ih =>
    cases hv : m.get k' with
    | none =>
      rw [List.filterMap_cons_none (by simp [hv]), ih]
      by_cases hk : k = k'
      · simp [hk, hv]
      · simp [hk]
    | some v =>
      rw [List.filterMap_cons_some (by rw [hv]; rfl), List.reverse_cons, List.lookup_append, ih]
      by_cases hk : k = k'
      · by_cases hm : k' ∈ keys <;> simp [hk, hv, hm]
      · simp [hk, List.lookup_cons, beq_false_of_ne hk]

lemma keys_pick {keys : List String} (h : k ∈ (m.pick keys).map Prod.fst) : k ∈ keys := by
  rw [mem_keys, get_pick] at h
  by_contra hk
  simp [hk] at h

lemma lookup_isSome {fields : List (String × Json)} :
    (fields.reverse.lookup k).isSome ↔ k ∈ fields.map Prod.fst := by
  rw [← List.mem_reverse, ← List.map_reverse]
  exact (mem_keys (m := fields.reverse)).symm

end Members

namespace Json

def record {α : Type*} (known : List String) (read : (String → Option Json) → Option α) : Json → Option α
  | .obj m => if ∀ k ∈ m.map Prod.fst, k ∈ known then read (Members.get m) else none
  | _ => none

def object (fields : List (String × Json)) : Json := .obj (Members.extend [] fields)

def text : Json → Option Text
  | .str t => some t
  | _ => none

def asU64 : Json → Option UInt64
  | .num n => some n
  | _ => none

def asBool : Json → Option Bool
  | .bool b => some b
  | _ => none

def list {α : Type*} (read : Json → Option α) : Json → Option (List α)
  | .arr js => js.mapM read
  | _ => none

def optional {α : Type*} (read : Json → Option α) : Option Json → Option (Option α)
  | none => some none
  | some .null => some none
  | some j => (read j).map some

def orElse {α : Type*} (value : α) (read : Json → Option α) : Option Json → Option α
  | none => some value
  | some j => read j

lemma record_object {α : Type*} {known : List String} {read : (String → Option Json) → Option α}
    {fields : List (String × Json)} (h : ∀ k ∈ fields.map Prod.fst, k ∈ known) :
    record known read (object fields) = read fun k => fields.reverse.lookup k := by
  have hget : Members.get (Members.extend [] fields) = fun k => fields.reverse.lookup k := by
    funext k
    rw [Members.get_extend, show Members.get [] k = none from rfl, Option.or_none]
  rw [object, record, hget, if_pos]
  intro k hk
  rw [Members.mem_keys, hget, Members.lookup_isSome] at hk
  exact h k hk

lemma record_pick {α : Type*} {known : List String} {read : (String → Option Json) → Option α} :
    record known read (.obj (m.pick known)) = read fun k => if k ∈ known then m.get k else none := by
  rw [record, if_pos fun k hk => Members.keys_pick hk]
  congr 1
  funext k
  exact Members.get_pick m known k

lemma list_map {α : Type*} {read : Json → Option α} {write : α → Json} (h : ∀ a, read (write a) = some a)
    (l : List α) : list read (.arr (l.map write)) = some l := by
  rw [list, List.mapM_map]
  induction l with
  | nil => rfl
  | cons a l ih => simp [List.mapM_cons, h, ih]

lemma list_text (l : List Text) : list text (.arr (l.map .str)) = some l := by
  have h : ∀ t, text (.str t) = some t := fun _ => rfl
  exact list_map h l

end Json

end Base
