import Flux.Base.Loop
import Flux.Fs.Types
import Mathlib.Logic.Function.Basic

/-! The block cache of a scratch space: a fixed number of slots found by lane and offset, reused in clock order. -/

namespace Flux.Scratch

open Base

inductive Lane where
  | walk | names | inodes | identity
  deriving DecidableEq, Repr

structure Slot where
  lane : Lane
  offset : ℕ
  data : Bytes
  referenced : Bool
  deriving DecidableEq

structure BlockCache where
  slots : List (Option Slot)
  map : Lane × ℕ → Option ℕ
  hand : ℕ
  capacity : ℕ
  misses : ℕ

def Slot.key (s : Slot) : Lane × ℕ := (s.lane, s.offset)

def Slot.reaches (s : Slot) (lane : Lane) (start : ℕ) : Bool := s.lane = lane ∧ start < s.offset + s.data.length

def outOfBounds {ε α : Type} : Attempt ε α := ExceptT.mk none

namespace BlockCache

variable {ε : Type}

def new (capacity : ℕ) : BlockCache := ⟨[], fun _ => none, 0, capacity, 0⟩

def get (c : BlockCache) (lane : Lane) (offset : ℕ) : Attempt ε (Option Bytes × BlockCache) :=
  match c.map (lane, offset) with
  | none => pure (none, c)
  | some i =>
    match c.slots[i]? with
    | none => outOfBounds
    | some none => pure (none, c)
    | some (some s) => pure (some s.data, { c with slots := c.slots.set i (some { s with referenced := true }) })

def clockStep (c : BlockCache) : Attempt ε (BlockCache ⊕ (ℕ × BlockCache)) :=
  let i := c.hand
  let turned := { c with hand := (c.hand + 1) % c.slots.length }
  match c.slots[i]? with
  | none => outOfBounds
  | some none => pure (.inr (i, turned))
  | some (some s) =>
    if s.referenced then
      pure (.inl { turned with slots := c.slots.set i (some { s with referenced := false }) })
    else
      pure (.inr (i, { turned with map := Function.update c.map s.key none }))

def freeSlot (c : BlockCache) : Attempt ε (ℕ × BlockCache) :=
  if c.slots.length < c.capacity then pure (c.slots.length, { c with slots := c.slots ++ [none] })
  else loop clockStep c

def insert (c : BlockCache) (lane : Lane) (offset : ℕ) (data : Bytes) : Attempt ε BlockCache := do
  let (index, c) ← c.freeSlot
  if index < c.slots.length then
    pure { c with
      map := Function.update c.map (lane, offset) (some index)
      slots := c.slots.set index (some ⟨lane, offset, data, false⟩) }
  else outOfBounds

def forget (lane : Lane) (start : ℕ) (map : Lane × ℕ → Option ℕ) (cell : Option Slot) : Lane × ℕ → Option ℕ :=
  match cell with
  | some s => if s.reaches lane start then Function.update map s.key none else map
  | none => map

def invalidateFrom (c : BlockCache) (lane : Lane) (start : ℕ) : BlockCache :=
  { c with
    map := c.slots.foldl (forget lane start) c.map
    slots := c.slots.map fun cell => cell.filter fun s => !s.reaches lane start }

structure Matched (c : BlockCache) (hole : Option ℕ) : Prop where
  mapped : ∀ key i, c.map key = some i ↔ some i ≠ hole ∧ ∃ s, c.slots[i]? = some (some s) ∧ s.key = key
  room : c.slots.length ≤ c.capacity
  hand : c.hand < c.slots.length ∨ c.slots.length < c.capacity ∧ c.hand = 0

def Linked (c : BlockCache) : Prop := c.Matched none

def Caches (c : BlockCache) (lane : Lane) (offset : ℕ) (data : Bytes) : Prop :=
  ∃ s, some s ∈ c.slots ∧ s.lane = lane ∧ s.offset = offset ∧ s.data = data

variable {c : BlockCache} {lane : Lane} {offset : ℕ} {data : Bytes}

lemma linked_new {capacity : ℕ} (h : 0 < capacity) : (new capacity).Linked := by
  refine ⟨fun key i => ?_, Nat.zero_le _, .inr ⟨h, rfl⟩⟩
  simp [new]

lemma Linked.mapped_iff (h : c.Linked) (key : Lane × ℕ) (i : ℕ) :
    c.map key = some i ↔ ∃ s, c.slots[i]? = some (some s) ∧ s.key = key := by
  rw [Matched.mapped h]
  simp

lemma Matched.mark {hole : Option ℕ} (h : c.Matched hole) {i : ℕ} {s : Slot} (hi : c.slots[i]? = some (some s))
    (referenced : Bool) :
    Matched { c with slots := c.slots.set i (some { s with referenced := referenced }) } hole := by
  refine ⟨fun key j => ?_, ?_, ?_⟩
  · rw [h.mapped]
    by_cases hj : j = i
    · subst hj
      have hlt := (List.getElem?_eq_some_iff.mp hi).1
      simp [hi, List.getElem?_set_self hlt, Slot.key]
    · simp [List.getElem?_set_ne (Ne.symm hj)]
  · simpa using h.room
  · simpa using h.hand

lemma caches_mark {i : ℕ} {s : Slot} (hi : c.slots[i]? = some (some s)) {referenced : Bool}
    (h : Caches { c with slots := c.slots.set i (some { s with referenced := referenced }) } lane offset data) :
    c.Caches lane offset data := by
  obtain ⟨t, ht, hl, ho, hd⟩ := h
  rcases List.mem_or_eq_of_mem_set ht with ht | ht
  · exact ⟨t, ht, hl, ho, hd⟩
  · cases ht
    exact ⟨s, List.mem_of_getElem? hi, hl, ho, hd⟩

theorem get_returns (h : c.Linked) (lane : Lane) (offset : ℕ) :
    Returns (c.get lane offset : Attempt ε _) fun r =>
      r.2.Linked ∧ (∀ l o d, r.2.Caches l o d → c.Caches l o d) ∧ r.2.capacity = c.capacity ∧
        (∀ d, r.1 = some d → c.Caches lane offset d) ∧ (r.1 = none → r.2 = c ∧ c.map (lane, offset) = none) := by
  rw [get]
  cases hm : c.map (lane, offset) with
  | none => exact .pure ⟨h, fun _ _ _ hc => hc, rfl, (fun _ hd => by cases hd), fun _ => ⟨rfl, rfl⟩⟩
  | some i =>
    obtain ⟨s, hi, hkey⟩ := (h.mapped_iff _ i).mp hm
    have hlane : s.lane = lane := congrArg Prod.fst hkey
    have hoffset : s.offset = offset := congrArg Prod.snd hkey
    simp only [hi]
    refine .pure ⟨h.mark hi true, fun _ _ _ hc => caches_mark hi hc, rfl, fun d hd => ?_, fun hn => by cases hn⟩
    cases hd
    exact ⟨s, List.mem_of_getElem? hi, hlane, hoffset, rfl⟩

def marked (c : BlockCache) : ℕ := c.slots.countP fun cell => cell.any Slot.referenced

lemma marked_unmark {i : ℕ} {s : Slot} (hi : c.slots[i]? = some (some s)) (hs : s.referenced = true) (hand : ℕ) :
    marked { c with hand := hand, slots := c.slots.set i (some { s with referenced := false }) } < c.marked := by
  obtain ⟨hlt, hget⟩ := List.getElem?_eq_some_iff.mp hi
  have hpos : 0 < c.slots.countP fun cell => cell.any Slot.referenced :=
    List.countP_pos_iff.mpr ⟨_, List.mem_of_getElem? hi, by simpa using hs⟩
  simp only [marked, List.countP_set hlt, hget, Option.any_some, hs, if_true]
  simp only [Bool.false_eq_true, if_false]
  omega

structure Freed (c : BlockCache) (r : ℕ × BlockCache) : Prop where
  matched : r.2.Matched (some r.1)
  inside : r.1 < r.2.slots.length
  caches : ∀ l o d, r.2.Caches l o d → c.Caches l o d
  unmapped : ∀ key, c.map key = none → r.2.map key = none
  capacity : r.2.capacity = c.capacity

lemma Linked.turned (h : c.Linked) (hlt : c.hand < c.slots.length) :
    Linked { c with hand := (c.hand + 1) % c.slots.length } :=
  ⟨h.mapped, h.room, .inl (Nat.mod_lt _ (by omega))⟩

lemma Linked.vacate (h : c.Linked) (hlt : c.hand < c.slots.length) (s : Slot)
    (hs : c.slots[c.hand]? = some (some s)) :
    Matched { c with hand := (c.hand + 1) % c.slots.length, map := Function.update c.map s.key none }
    (some c.hand) := by
  refine ⟨fun key i => ?_, h.room, .inl (Nat.mod_lt _ (by omega))⟩
  by_cases hkey : key = s.key
  · subst hkey
    simp only [Function.update_self, reduceCtorEq, false_iff, not_and]
    intro hne hi
    -- the key has one place, and it is the hand's
    have hhere := (h.mapped_iff s.key c.hand).mpr ⟨s, hs, rfl⟩
    have hthere := (h.mapped_iff s.key i).mpr hi
    exact hne (hthere.symm.trans hhere)
  · simp only [Function.update_of_ne hkey]
    rw [h.mapped_iff]
    refine ⟨fun ⟨t, ht, hk⟩ => ⟨fun hi => ?_, t, ht, hk⟩, And.right⟩
    obtain rfl : i = c.hand := Option.some.inj hi
    cases hs.symm.trans ht
    exact hkey hk.symm

lemma Linked.hole (h : c.Linked) (hlt : c.hand < c.slots.length) (hs : c.slots[c.hand]? = some none) :
    Matched { c with hand := (c.hand + 1) % c.slots.length } (some c.hand) := by
  refine ⟨fun key i => ?_, h.room, .inl (Nat.mod_lt _ (by omega))⟩
  rw [h.mapped_iff]
  refine ⟨fun ⟨t, ht, hk⟩ => ⟨fun hi => ?_, t, ht, hk⟩, And.right⟩
  obtain rfl : i = c.hand := Option.some.inj hi
  cases hs.symm.trans ht

lemma clockStep_returns (h : c.Linked) (hfull : c.slots.length = c.capacity) :
    Returns (c.clockStep : Attempt ε _) fun
      | .inl c' => c'.marked < c.marked ∧ c'.Linked ∧ c'.slots.length = c'.capacity ∧
          (∀ l o d, c'.Caches l o d → c.Caches l o d) ∧ c'.map = c.map ∧ c'.capacity = c.capacity
      | .inr r => Freed c r := by
  have hlt : c.hand < c.slots.length := h.hand.resolve_right fun hr => by omega
  rw [clockStep]
  cases hcell : c.slots[c.hand]? with
  | none => exact absurd (List.getElem?_eq_none_iff.mp hcell) (by omega)
  | some cell =>
    cases cell with
    | none => exact .pure ⟨h.hole hlt hcell, hlt, fun _ _ _ hc => hc, fun _ hk => hk, rfl⟩
    | some s =>
      dsimp only
      split
      · next hs =>
        refine .pure ⟨marked_unmark hcell hs _, (h.turned hlt).mark hcell false, ?_, ?_, rfl, rfl⟩
        · simpa using hfull
        · exact fun _ _ _ hc => caches_mark (c := c) hcell hc
      · refine .pure ⟨h.vacate hlt s hcell, hlt, fun _ _ _ hc => hc, fun key hk => ?_, rfl⟩
        by_cases hkey : key = s.key
        · simp [hkey]
        · simpa [Function.update_of_ne hkey] using hk

theorem freeSlot_returns (h : c.Linked) : Returns (c.freeSlot : Attempt ε _) (Freed c) := by
  rw [freeSlot]
  split
  · next hlt =>
    refine .pure ⟨⟨fun key i => ?_, ?_, ?_⟩, ?_, ?_, fun _ hk => hk, rfl⟩
    · rw [h.mapped_iff]
      by_cases hi : i < c.slots.length
      · have hne : i ≠ c.slots.length := Nat.ne_of_lt hi
        simp [List.getElem?_append_left hi, hne]
      · have hout : c.slots[i]? = none := List.getElem?_eq_none (by omega)
        simp only [hout, reduceCtorEq, false_and, exists_false, false_iff, not_and, not_exists]
        intro hne t ht
        have : i = c.slots.length := by
          have := (List.getElem?_eq_some_iff.mp ht).1
          simp at this
          omega
        exact absurd (congrArg some this) hne
    · simpa using Nat.succ_le_of_lt hlt
    · rcases h.hand with hh | hh
      · exact .inl (by simp; omega)
      · exact .inl (by simp [hh.2])
    · simp
    · rintro l o d ⟨s, hs, hrest⟩
      refine ⟨s, ?_, hrest⟩
      simpa using hs
  · next hfull =>
    apply Returns.loop (fun n (c' : BlockCache) => n = c'.marked ∧ c'.Linked ∧ c'.slots.length = c'.capacity ∧
      (∀ l o d, c'.Caches l o d → c.Caches l o d) ∧ c'.map = c.map ∧ c'.capacity = c.capacity) _
      ⟨rfl, h, Nat.le_antisymm h.room (Nat.le_of_not_lt hfull), fun _ _ _ hc => hc, rfl, rfl⟩
    rintro n c' ⟨rfl, hl, hlen, hc, hmap, hcap⟩
    apply (clockStep_returns hl hlen).imp
    rintro (c'' | r) hr
    · obtain ⟨hlt, hl', hlen', hc', hmap', hcap'⟩ := hr
      exact ⟨_, hlt, rfl, hl', hlen', fun l o d hd => hc l o d (hc' l o d hd), hmap'.trans hmap, hcap'.trans hcap⟩
    · exact ⟨hr.matched, hr.inside, fun l o d hd => hc l o d (hr.caches l o d hd),
        fun key hk => hr.unmapped key (hmap ▸ hk), hr.capacity.trans hcap⟩

theorem insert_returns (h : c.Linked) (hmiss : c.map (lane, offset) = none) :
    Returns (c.insert lane offset data : Attempt ε _) fun c' =>
      c'.Linked ∧ c'.capacity = c.capacity ∧
        ∀ l o d, c'.Caches l o d → (l = lane ∧ o = offset ∧ d = data) ∨ c.Caches l o d := by
  rw [insert]
  refine (freeSlot_returns h).bind fun r hr => ?_
  obtain ⟨i, c'⟩ := r
  have hi : i < c'.slots.length := hr.inside
  have hunmapped : c'.map (lane, offset) = none := hr.unmapped _ hmiss
  simp only [if_pos hi]
  refine .pure ⟨⟨fun key j => ?_, ?_, ?_⟩, hr.capacity, ?_⟩
  · by_cases hj : j = i
    · subst hj
      simp only [List.getElem?_set_self hi, Option.some.injEq, exists_eq_left', Slot.key, ne_eq, reduceCtorEq,
        not_false_eq_true, true_and]
      by_cases hkey : key = (lane, offset)
      · simp [hkey]
      · rw [Function.update_of_ne hkey]
        refine ⟨fun hm => ?_, fun he => absurd he.symm hkey⟩
        exact absurd rfl ((hr.matched.mapped key j).mp hm).1
    · rw [List.getElem?_set_ne (Ne.symm hj)]
      by_cases hkey : key = (lane, offset)
      · subst hkey
        simp only [Function.update_self, Option.some.injEq, ne_eq, reduceCtorEq, not_false_eq_true, true_and]
        refine ⟨fun he => absurd he.symm hj, fun he => ?_⟩
        have hm := (hr.matched.mapped _ j).mpr ⟨fun hs => hj (Option.some.inj hs), he⟩
        cases hunmapped.symm.trans hm
      · dsimp only
        rw [Function.update_of_ne hkey, hr.matched.mapped]
        have hne : some j ≠ some i := fun hs => hj (Option.some.inj hs)
        simp [hne]
  · simpa using hr.matched.room
  · simpa using hr.matched.hand
  · rintro l o d ⟨s, hs, hl, ho, hd⟩
    rcases List.mem_or_eq_of_mem_set hs with hs | hs
    · exact .inr (hr.caches l o d ⟨s, hs, hl, ho, hd⟩)
    · cases hs
      exact .inl ⟨hl.symm, ho.symm, hd.symm⟩

lemma foldl_forget (lane : Lane) (start : ℕ) (cells : List (Option Slot)) (map : Lane × ℕ → Option ℕ)
    (key : Lane × ℕ) (i : ℕ) :
    cells.foldl (forget lane start) map key = some i ↔
      map key = some i ∧ ∀ s, some s ∈ cells → s.key = key → s.reaches lane start = false := by
  induction cells generalizing map with
  | nil => simp
  | cons cell cells ih =>
    rw [List.foldl_cons, ih]
    cases cell with
    | none => simp [forget]
    | some s =>
      by_cases hs : s.reaches lane start = true
      · by_cases hkey : s.key = key
        · simp [forget, hs, ← hkey]
        · simp [forget, hs, hkey, Function.update_of_ne (Ne.symm hkey)]
      · simp [forget, hs]

lemma invalidateFrom_get (c : BlockCache) (lane : Lane) (start i : ℕ) (s : Slot) :
    (c.invalidateFrom lane start).slots[i]? = some (some s) ↔
      c.slots[i]? = some (some s) ∧ s.reaches lane start = false := by
  simp only [invalidateFrom, List.getElem?_map, Option.map_eq_some_iff]
  constructor
  · rintro ⟨cell, hcell, hf⟩
    obtain ⟨rfl, hs⟩ := Option.filter_eq_some_iff.mp hf
    exact ⟨hcell, by simpa using hs⟩
  · rintro ⟨hcell, hs⟩
    exact ⟨_, hcell, by simp [Option.filter, hs]⟩

theorem Linked.invalidateFrom (h : c.Linked) (lane : Lane) (start : ℕ) : (c.invalidateFrom lane start).Linked := by
  refine ⟨fun key i => ?_, ?_, ?_⟩
  · simp only [ne_eq, reduceCtorEq, not_false_eq_true, true_and, invalidateFrom_get]
    change c.slots.foldl (forget lane start) c.map key = some i ↔ _
    rw [foldl_forget, h.mapped_iff]
    constructor
    · rintro ⟨⟨s, hs, hkey⟩, hstays⟩
      exact ⟨s, ⟨hs, hstays s (List.mem_of_getElem? hs) hkey⟩, hkey⟩
    · rintro ⟨s, ⟨hs, hstays⟩, hkey⟩
      refine ⟨⟨s, hs, hkey⟩, fun t ht htkey => ?_⟩
      obtain ⟨j, hj⟩ := List.getElem?_of_mem ht
      -- two slots of one key are one slot
      have hplace : some i = some j :=
        ((h.mapped_iff key i).mpr ⟨s, hs, hkey⟩).symm.trans ((h.mapped_iff key j).mpr ⟨t, hj, htkey⟩)
      obtain rfl := Option.some.inj hplace
      cases hj.symm.trans hs
      exact hstays
  · simpa [BlockCache.invalidateFrom] using h.room
  · simpa [BlockCache.invalidateFrom] using h.hand

lemma caches_invalidateFrom {start : ℕ} {l : Lane} (h : (c.invalidateFrom l start).Caches lane offset data) :
    c.Caches lane offset data ∧ (lane = l → offset + data.length ≤ start) := by
  obtain ⟨s, hs, rfl, rfl, rfl⟩ := h
  obtain ⟨i, hi⟩ := List.getElem?_of_mem hs
  obtain ⟨hi, hr⟩ := (invalidateFrom_get c l start i s).mp hi
  refine ⟨⟨s, List.mem_of_getElem? hi, rfl, rfl, rfl⟩, fun hl => ?_⟩
  simp only [Slot.reaches, hl, true_and, decide_eq_false_iff_not] at hr
  exact Nat.le_of_not_lt hr

end BlockCache

end Flux.Scratch
