import Flux.Scratch.Held

namespace Flux.Scratch

open Base Spill

def Thinned {V : Type} (lo hi : Bytes) (t t' : Table V) : Prop :=
  ∀ k, t'[k]? = t[k]? ∨ (lo ≤ k ∧ k < hi) ∧ t'[k]? = none

section Retire

variable {V : Type} {lo hi : Bytes} {t t' t'' : Table V} {room : ℕ}

lemma Thinned.refl (lo hi : Bytes) (t : Table V) : Thinned lo hi t t := fun _ => .inl rfl

lemma Thinned.trans (h : Thinned lo hi t t') (h' : Thinned lo hi t' t'') : Thinned lo hi t t'' := by
  intro k
  obtain h' | h' := h' k
  · rw [h']
    exact h k
  · exact .inr h'

lemma Thinned.cleared (h : Thinned lo hi t t') (hnone : ∀ k, lo ≤ k ∧ k < hi → t'[k]? = none) (k : Bytes) :
    t'[k]? = if lo ≤ k ∧ k < hi then none else t[k]? := by
  split
  · next hk => exact hnone k hk
  · next hk =>
    obtain h | h := h k
    · exact h
    · exact absurd h.1 hk

lemma mem_keysIn {limit : ℕ} {k : Bytes} (h : k ∈ keysIn t lo hi limit) :
    (∃ v, t[k]? = some v) ∧ lo ≤ k ∧ k < hi := by
  obtain ⟨⟨k', v⟩, hr, rfl⟩ := List.mem_map.mp h
  obtain ⟨hget, hk⟩ := Table.mem_range.mp (List.mem_of_mem_take hr)
  exact ⟨⟨v, hget⟩, hk⟩

lemma keysIn_eq_nil {limit : ℕ} (hl : 0 < limit) (h : keysIn t lo hi limit = []) (k : Bytes)
    (hk : lo ≤ k ∧ k < hi) : t[k]? = none := by
  have hnil : t.range lo hi = [] := by
    have := List.map_eq_nil_iff.mp h
    rw [List.take_eq_nil_iff] at this
    exact this.resolve_left hl.ne'
  refine Option.eq_none_iff_forall_ne_some.mpr fun v hv => ?_
  have := Table.mem_range.mpr ⟨hv, hk⟩
  rw [hnil] at this
  cases this

lemma keysIn_length_le (t : Table V) (lo hi : Bytes) (limit : ℕ) : (keysIn t lo hi limit).length ≤ limit := by
  rw [keysIn, List.length_map]
  exact List.length_take_le _ _

variable {s : Store}

namespace Store

lemma removeRange_spec (t : Table V) (lo hi : Bytes) (room : ℕ) :
    (removeRange t lo hi room).1 ≤ room ∧ Thinned lo hi t (removeRange t lo hi room).2 ∧
      (removeRange t lo hi room).2.size ≤ t.size ∧
      ((removeRange t lo hi room).1 < room → (removeRange t lo hi room).2.size < t.size) ∧
      (0 < room → (removeRange t lo hi room).1 = room → ∀ k, lo ≤ k ∧ k < hi →
        (removeRange t lo hi room).2[k]? = none) := by
  rw [removeRange]
  by_cases hz : room = 0
  · rw [if_pos hz]
    exact ⟨Nat.zero_le _, .refl _ _ _, le_rfl, fun h => by omega, fun h => by omega⟩
  · rw [if_neg hz]
    dsimp only
    refine ⟨Nat.sub_le _ _, fun k => ?_, Table.size_removeAll_le _ _, fun hlt => ?_, fun hpos heq k hk => ?_⟩
    · rw [Table.get_removeAll]
      split
      · next hmem => exact .inr ⟨(mem_keysIn hmem).2, rfl⟩
      · exact .inl rfl
    · obtain ⟨k, keys, hkeys⟩ := List.exists_cons_of_ne_nil (l := keysIn t lo hi room) (by
        rintro hnil
        rw [hnil, List.length_nil] at hlt
        omega)
      obtain ⟨⟨v, hv⟩, -⟩ := mem_keysIn (t := t) (k := k) (by rw [hkeys]; exact List.mem_cons_self)
      rw [hkeys]
      exact Table.size_removeAll_lt hv keys
    · have hle := keysIn_length_le t lo hi room
      have hnil : keysIn t lo hi room = [] := List.eq_nil_of_length_eq_zero (by omega)
      rw [hnil]
      exact keysIn_eq_nil hpos hnil k hk

def rows (s : Store) : ℕ := s.names2.size + s.owners.size + s.learnedSeqs.size + s.ids.size

structure Retiring (lo hi : Bytes) (s t : Store) : Prop where
  names2 : Thinned lo hi s.names2 t.names2
  owners : Thinned lo hi s.owners t.owners
  learnedSeqs : Thinned lo hi s.learnedSeqs t.learnedSeqs
  ids : Thinned lo hi s.ids t.ids
  live : t.live = true
  commitEvery : t.commitEvery = s.commitEvery
  poison : t.poison = s.poison

structure Retired (lo hi : Bytes) (t : Store) : Prop where
  names2 : ∀ k, lo ≤ k ∧ k < hi → t.names2[k]? = none
  owners : ∀ k, lo ≤ k ∧ k < hi → t.owners[k]? = none
  learnedSeqs : ∀ k, lo ≤ k ∧ k < hi → t.learnedSeqs[k]? = none
  ids : ∀ k, lo ≤ k ∧ k < hi → t.ids[k]? = none

lemma removePass_spec {t : Store} (h : Retiring lo hi s t) (hc : 1 ≤ t.commitEvery) :
    Retiring lo hi s (removePass lo hi t).2 ∧
      ((removePass lo hi t).1 = 0 → Retired lo hi (removePass lo hi t).2) ∧
      ((removePass lo hi t).1 ≠ 0 → (removePass lo hi t).2.rows < t.rows) := by
  obtain ⟨hr₁, ht₁, hs₁, hlt₁, hz₁⟩ := removeRange_spec t.names2 lo hi t.commitEvery
  obtain ⟨hr₂, ht₂, hs₂, hlt₂, hz₂⟩ := removeRange_spec t.owners lo hi (removeRange t.names2 lo hi t.commitEvery).1
  obtain ⟨hr₃, ht₃, hs₃, hlt₃, hz₃⟩ := removeRange_spec t.learnedSeqs lo hi
    (removeRange t.owners lo hi (removeRange t.names2 lo hi t.commitEvery).1).1
  obtain ⟨hr₄, ht₄, hs₄, hlt₄, hz₄⟩ := removeRange_spec t.ids lo hi
    (removeRange t.learnedSeqs lo hi (removeRange t.owners lo hi (removeRange t.names2 lo hi t.commitEvery).1).1).1
  refine ⟨⟨h.names2.trans ht₁, h.owners.trans ht₂, h.learnedSeqs.trans ht₃, h.ids.trans ht₄, h.live, h.commitEvery,
    h.poison⟩, fun hzero => ?_, fun hne => ?_⟩
  · simp only [removePass] at hzero
    exact ⟨hz₁ (by omega) (by omega), hz₂ (by omega) (by omega), hz₃ (by omega) (by omega),
      hz₄ (by omega) (by omega)⟩
  · simp only [removePass] at hne
    simp only [removePass, rows]
    omega

lemma retireStep_spec {t : Store} {tick : ℕ → Option FsError} (h : Retiring lo hi s t) (hc : 1 ≤ s.commitEvery)
    (n : ℕ) : Achieves (retireStep lo hi tick n)
      (fun r t' => Retiring lo hi s t' ∧ match r with
        | .inl _ => t'.rows < t.rows
        | .inr _ => Retired lo hi t')
      (fun e t' => (∃ n, tick n = some e) ∧ t'.poison = s.poison) t := by
  obtain ⟨hpass, hzero, hless⟩ := removePass_spec h (h.commitEvery ▸ hc)
  refine txn_bind h.live (.get_bind (.set_bind ?_))
  by_cases hz : (removePass lo hi t).1 = 0
  · rw [if_pos hz]
    exact .pure ⟨hpass, hzero hz⟩
  · rw [if_neg hz]
    refine Achieves.bind (rotate_spec hpass.live) ?_
    intro _ t' ht'
    have hkeep : Retiring lo hi s t' :=
      ⟨ht'.names2 ▸ hpass.names2, ht'.owners ▸ hpass.owners, ht'.learnedSeqs ▸ hpass.learnedSeqs,
        ht'.ids ▸ hpass.ids, ht'.live, ht'.commitEvery.trans hpass.commitEvery, ht'.poison.trans hpass.poison⟩
    have hrows : t'.rows < t.rows := by
      have := hless hz
      rwa [rows, ← ht'.names2, ← ht'.owners, ← ht'.learnedSeqs, ← ht'.ids] at this
    cases htick : tick n with
    | none => exact .pure ⟨hkeep, hrows⟩
    | some e => exact .throw ⟨⟨n, htick⟩, hkeep.poison⟩

end Store

open Directories in
lemma Holds.retire {t : Store} {ds : Directories} {d : DirKey} (h : Holds s ds)
    (ht : Store.Retiring d.bounds.1 d.bounds.2 s t) (hnone : Store.Retired d.bounds.1 d.bounds.2 t) :
    Holds t (ds.edit d fun _ => .none) where
  names := by
    refine h.names.cleared (fun i hi v hv => ?_) (fun i hi v => ?_) (ht.names2.cleared hnone.names2)
    · rw [(between_bounds_iff d i.1 i.2).mp hi, edit_self] at hv
      exact hv
    · rw [edit_of_ne fun he => hi ((between_bounds_iff d i.1 i.2).mpr he)]
  owners := by
    refine h.owners.cleared (fun i hi v hv => ?_) (fun i hi v => ?_) (ht.owners.cleared hnone.owners)
    · rw [(between_bounds_iff d i.1 i.2).mp hi, edit_self] at hv
      cases hv
    · rw [edit_of_ne fun he => hi ((between_bounds_iff d i.1 i.2).mpr he)]
  learned := by
    refine h.learned.cleared (fun i hi v hv => ?_) (fun i hi v => ?_) (ht.learnedSeqs.cleared hnone.learnedSeqs)
    · rw [(between_bounds_iff d i.1 i.2).mp hi, edit_self] at hv
      cases hv
    · rw [edit_of_ne fun he => hi ((between_bounds_iff d i.1 i.2).mpr he)]
  ids := by
    have hbetween : ∀ i : DirKey × ObjectId × Bytes,
        d.bounds.1 ≤ idsKey i.1 i.2.1 i.2.2 ∧ idsKey i.1 i.2.1 i.2.2 < d.bounds.2 ↔ i.1 = d := by
      intro i
      rw [idsKey, List.append_assoc]
      exact between_bounds_iff d i.1 _
    refine h.ids.cleared (fun i hi v hv => ?_) (fun i hi v => ?_) (ht.ids.cleared hnone.ids)
    · rw [(hbetween i).mp hi, edit_self] at hv
      cases hv
    · rw [edit_of_ne fun he => hi ((hbetween i).mpr he)]
  spelled d' id := by
    by_cases hd : d' = d
    · rw [hd, edit_self]
      rfl
    · rw [edit_of_ne hd]
      exact h.spelled d' id
  live := ht.live
  commits := ht.commitEvery ▸ h.commits
  sound := ht.poison.trans h.sound

lemma Store.retire_spec {ds : Directories} (h : Holds s ds) (d : DirKey) (tick : ℕ → Option FsError) :
    Achieves (retire d tick) (fun _ t => Holds t (ds.edit d fun _ => .none))
      (fun e t => (∃ n, tick n = some e) ∧ t.poison = some (remake e)) s := by
  have hloop : Achieves (Course.loop (retireStep d.bounds.1 d.bounds.2 tick) 0)
      (fun _ t => Retiring d.bounds.1 d.bounds.2 s t ∧ Retired d.bounds.1 d.bounds.2 t)
      (fun e t => (∃ n, tick n = some e) ∧ t.poison = s.poison) s := by
    apply Achieves.loop fun m _ t => m = t.rows ∧ Retiring d.bounds.1 d.bounds.2 s t
    · rintro m n t ⟨rfl, ht⟩
      refine (retireStep_spec ht h.commits n).mono ?_ fun _ _ he => he
      rintro (n' | u) t' ⟨ht', hr⟩
      · exact ⟨_, hr, rfl, ht'⟩
      · exact ⟨ht', hr⟩
    · exact ⟨rfl, .refl _ _ _, .refl _ _ _, .refl _ _ _, .refl _ _ _, h.live, rfl, rfl⟩
  refine (run_spec h.sound hloop).mono (fun _ t ht => h.retire ht.1 ht.2) ?_
  rintro e t ⟨t', ⟨he, hp⟩, rfl⟩
  refine ⟨he, ?_⟩
  dsimp only
  rw [hp, h.sound, Option.none_or]

end Retire

end Flux.Scratch
