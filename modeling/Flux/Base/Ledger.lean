import Mathlib.Data.List.Induction
import Mathlib.Data.Set.Basic

/-! Sets of values under keys: an event strikes out what one key has, then adds values under another. -/

namespace Base

structure Event (K V : Type) where
  wipe : Option K
  key : Option K
  values : List V

namespace Event

variable {K V : Type}

def post (ledger : K → Set V) (e : Event K V) : K → Set V :=
  fun k => { v | v ∈ ledger k ∧ e.wipe ≠ some k ∨ e.key = some k ∧ v ∈ e.values }

def replay (ledger : K → Set V) (events : List (Event K V)) : K → Set V := events.foldl post ledger

def Wiped (events : List (Event K V)) (k : K) : Prop := ∃ e ∈ events, e.wipe = some k

def added (events : List (Event K V)) (k : K) : Set V := { v | ∃ e ∈ events, e.key = some k ∧ v ∈ e.values }

variable {e : Event K V} {k : K}

lemma mem_post {ledger : K → Set V} {v : V} :
    v ∈ post ledger e k ↔ v ∈ ledger k ∧ e.wipe ≠ some k ∨ e.key = some k ∧ v ∈ e.values := Iff.rfl

lemma replay_append (ledger : K → Set V) (events : List (Event K V)) (e : Event K V) :
    replay ledger (events ++ [e]) = post (replay ledger events) e := by
  simp [replay, List.foldl_append]

lemma wiped_append {events : List (Event K V)} : Wiped (events ++ [e]) k ↔ Wiped events k ∨ e.wipe = some k := by
  simp [Wiped, or_and_right, exists_or]

lemma added_append {events : List (Event K V)} {v : V} :
    v ∈ added (events ++ [e]) k ↔ v ∈ added events k ∨ e.key = some k ∧ v ∈ e.values := by
  simp [added, or_and_right, exists_or]

lemma replay_of_wiped (ledger other : K → Set V) {events : List (Event K V)} (h : Wiped events k) :
    replay ledger events k = replay other events k := by
  induction events using List.reverseRecOn with
  | nil => simp [Wiped] at h
  | append_singleton events e ih =>
    ext v
    rw [replay_append, replay_append, mem_post, mem_post]
    by_cases he : e.wipe = some k
    · simp [he]
    · rw [ih ((wiped_append.mp h).resolve_right he)]

lemma replay_of_not_wiped (ledger : K → Set V) {events : List (Event K V)} (h : ¬ Wiped events k) :
    replay ledger events k = ledger k ∪ added events k := by
  induction events using List.reverseRecOn with
  | nil => simp [replay, added]
  | append_singleton events e ih =>
    rw [wiped_append, not_or] at h
    ext v
    rw [replay_append, mem_post, ih h.1, Set.mem_union, Set.mem_union, added_append]
    simp [h.2, or_assoc]

end Event

end Base
