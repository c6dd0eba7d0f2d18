import Flux.Scratch.Directories
import Flux.Scratch.Keys

namespace Flux.Scratch

open Base Spill

structure Holds (s : Store) (ds : Directories) : Prop where
  names : s.names2.Mirrors (fun i : DirKey × Bytes => rowKey i.1 i.2) fun i _ => i.2 ∈ (ds i.1).names
  owners : s.owners.Mirrors (fun i : DirKey × Bytes => rowKey i.1 i.2) fun i v => (ds i.1).owners i.2 = some v
  learned : s.learnedSeqs.Mirrors (fun i : DirKey × Bytes => rowKey i.1 i.2) fun i v =>
    (ds i.1).learned i.2 = some v
  ids : s.ids.Mirrors (fun i : DirKey × ObjectId × Bytes => idsKey i.1 i.2.1 i.2.2) fun i v =>
    (ds i.1).ids i.2.1 (spellingOf i.2.2) = some v
  spelled : ∀ d id, (ds d).ids id (some []) = none
  live : s.live = true
  commits : 1 ≤ s.commitEvery
  sound : s.poison = none

structure Counted (s t : Store) : Prop where
  names2 : t.names2 = s.names2
  owners : t.owners = s.owners
  learnedSeqs : t.learnedSeqs = s.learnedSeqs
  ids : t.ids = s.ids
  live : t.live = true
  commitEvery : t.commitEvery = s.commitEvery
  poison : t.poison = s.poison

variable {ds : Directories}

lemma Holds.counted {s t : Store} (h : Holds s ds) (ht : Counted s t) : Holds t ds :=
  ⟨ht.names2 ▸ h.names, ht.owners ▸ h.owners, ht.learnedSeqs ▸ h.learned, ht.ids ▸ h.ids, h.spelled, ht.live,
    ht.commitEvery ▸ h.commits, ht.poison.trans h.sound⟩

lemma Holds.create (commitEvery : ℕ) : Holds (.create commitEvery) fun _ => .none where
  names := .empty fun _ _ h => h
  owners := .empty fun _ _ h => by cases h
  learned := .empty fun _ _ h => by cases h
  ids := .empty fun _ _ h => by cases h
  spelled _ _ := rfl
  live := rfl
  commits := Nat.le_max_right _ _
  sound := rfl

namespace Store

variable {α : Type} {s : Store} {f : Op α} {Q : α → Store → Prop} {E : FsError → Store → Prop}

lemma run_spec (hs : s.poison = none) (h : Achieves f Q E s) :
    Achieves (run f) Q (fun e t => ∃ t', E e t' ∧ t = { t' with poison := t'.poison.or (some (remake e)) }) s := by
  refine .get_bind ?_
  rw [hs]
  refine Achieves.bind h.attempt ?_
  rintro (e | a) t ht
  · exact .modify_bind (.throw ⟨t, ht, rfl⟩)
  · exact .pure ht

lemma run_unusable {cause : FsError} (hs : s.poison = some cause) :
    Achieves (run f) (fun _ _ => False) (fun e t => e = unusable cause ∧ t = s) s := by
  refine .get_bind ?_
  rw [hs]
  exact .throw ⟨rfl, rfl⟩

lemma txn_bind {g : Unit → Op α} (hs : s.live = true) (h : Achieves (g ()) Q E s) :
    Achieves (txn >>= g) Q E s := by
  refine Achieves.bind (Q := fun _ t => t = s) ?_ ?_
  · refine .get_bind ?_
    rw [if_pos hs]
    exact .pure rfl
  · rintro _ _ rfl
    exact h

lemma rotate_spec (hs : s.live = true) : Achieves rotate (fun _ t => Counted s t) E s := by
  refine Achieves.bind (Q := fun _ t => t = { s with live := false }) ?_ ?_
  · exact txn_bind hs (.modify rfl)
  · rintro _ _ rfl
    exact .modify_bind (.modify ⟨rfl, rfl, rfl, rfl, rfl, rfl, rfl⟩)

lemma afterWrite_spec (hs : s.live = true) : Achieves afterWrite (fun _ t => Counted s t) E s := by
  refine .modify_bind (.get_bind ?_)
  rw [rotateFull]
  split
  · refine Achieves.mono (rotate_spec (s := { s with writesSinceCommit := s.writesSinceCommit + 1 }) hs) ?_
      fun _ _ he => he
    exact fun _ t ht => ⟨ht.names2, ht.owners, ht.learnedSeqs, ht.ids, ht.live, ht.commitEvery, ht.poison⟩
  · exact .pure ⟨rfl, rfl, rfl, rfl, hs, rfl, rfl⟩

lemma write_spec {ds' : Directories} {g : Store → Store} (h : Holds s ds) (hg : Holds (g s) ds') :
    Achieves (run do
      txn
      modify g
      afterWrite) (fun _ t => Holds t ds') (fun _ _ => False) s := by
  have hinner : Achieves (do
      txn
      modify g
      afterWrite : Op Unit) (fun _ t => Holds t ds') (fun _ _ => False) s :=
    txn_bind h.live (.modify_bind ((afterWrite_spec hg.live).mono (fun _ _ ht => hg.counted ht) fun _ _ he => he))
  exact (run_spec h.sound hinner).mono (fun _ _ ht => ht) fun _ _ he => he.elim fun _ h => h.1

lemma read_spec {g : Store → α} (h : Holds s ds) : Achieves (run do
      txn
      pure (g (← get))) (fun a t => a = g s ∧ t = s) (fun _ _ => False) s := by
  have hinner : Achieves (do
      txn
      pure (g (← get)) : Op α) (fun a t => a = g s ∧ t = s) (fun _ _ => False) s :=
    txn_bind h.live (.get_bind (.pure ⟨rfl, rfl⟩))
  exact (run_spec h.sound hinner).mono (fun _ _ ht => ht) fun _ _ he => he.elim fun _ h => h.1

end Store

section Writes

variable {s : Store} {ds : Directories} {d : DirKey}

namespace Directories

lemma edit_self (g : Rows → Rows) : ds.edit d g d = g (ds d) := Function.update_self ..

lemma edit_of_ne {d' : DirKey} (h : d' ≠ d) (g : Rows → Rows) : ds.edit d g d' = ds d' :=
  Function.update_of_ne h ..

lemma edit_same {β : Type} (part : Rows → β) (g : Rows → Rows) (hg : ∀ r, part (g r) = part r) (d' : DirKey) :
    part (ds.edit d g d') = part (ds d') := by
  by_cases hd : d' = d
  · rw [hd, edit_self, hg]
  · rw [edit_of_ne hd]

end Directories

open Directories

lemma mirrors_edit {V : Type} {t : Table V} {g : Rows → Rows} {n : Bytes} {v : V} (part : Rows → Bytes → V → Prop)
    (h : t.Mirrors (fun i : DirKey × Bytes => rowKey i.1 i.2) fun i w => part (ds i.1) i.2 w)
    (hself : ∀ w, part (g (ds d)) n w ↔ w = v)
    (hother : ∀ n', n' ≠ n → ∀ w, part (g (ds d)) n' w ↔ part (ds d) n' w) :
    Table.Mirrors (t.insert (rowKey d n) v) (fun i : DirKey × Bytes => rowKey i.1 i.2)
      fun i w => part (ds.edit d g i.1) i.2 w := by
  refine h.insert rowKey_injective (i := (d, n)) (fun w => ?_) fun j hj w => ?_
  · dsimp only
    rw [edit_self]
    exact hself w
  · obtain ⟨d', n'⟩ := j
    dsimp only
    by_cases hd : d' = d
    · subst hd
      rw [edit_self]
      exact hother n' (fun hn => hj (hn ▸ rfl)) w
    · rw [edit_of_ne hd]

lemma Holds.publish (h : Holds s ds) (n : Bytes) :
    Holds { s with names2 := s.names2.insert (rowKey d n) () } (ds.edit d (.publish n)) where
  names := mirrors_edit (fun r n' _ => n' ∈ r.names) h.names (fun w => by simp [Rows.publish])
    fun n' hn w => by simp [Rows.publish, hn]
  owners := h.owners.congr fun i v => by rw [edit_same Rows.owners (.publish n) fun _ => rfl]
  learned := h.learned.congr fun i v => by rw [edit_same Rows.learned (.publish n) fun _ => rfl]
  ids := h.ids.congr fun i v => by rw [edit_same Rows.ids (.publish n) fun _ => rfl]
  spelled d' id := by
    rw [edit_same Rows.ids (.publish n) fun _ => rfl]
    exact h.spelled d' id
  live := h.live
  commits := h.commits
  sound := h.sound

lemma Holds.own (h : Holds s ds) (n target : Bytes) :
    Holds { s with owners := s.owners.insert (rowKey d n) target } (ds.edit d (.own n target)) where
  names := h.names.congr fun i v => by rw [edit_same Rows.names (.own n target) fun _ => rfl]
  owners := mirrors_edit (fun r n' w => r.owners n' = some w) h.owners (fun w => by simp [Rows.own, eq_comm])
    fun n' hn w => by simp [Rows.own, hn]
  learned := h.learned.congr fun i v => by rw [edit_same Rows.learned (.own n target) fun _ => rfl]
  ids := h.ids.congr fun i v => by rw [edit_same Rows.ids (.own n target) fun _ => rfl]
  spelled d' id := by
    rw [edit_same Rows.ids (.own n target) fun _ => rfl]
    exact h.spelled d' id
  live := h.live
  commits := h.commits
  sound := h.sound

lemma Holds.learnFirst (h : Holds s ds) {n : Bytes} (hn : (ds d).learned n = none) (seq : UInt64) :
    Holds { s with learnedSeqs := s.learnedSeqs.insert (rowKey d n) seq } (ds.edit d (.learnFirst n seq)) where
  names := h.names.congr fun i v => by rw [edit_same Rows.names (.learnFirst n seq) fun _ => rfl]
  owners := h.owners.congr fun i v => by rw [edit_same Rows.owners (.learnFirst n seq) fun _ => rfl]
  learned := mirrors_edit (fun r n' w => r.learned n' = some w) h.learned
    (fun w => by simp [Rows.learnFirst, hn, eq_comm]) fun n' hn w => by simp [Rows.learnFirst, hn]
  ids := h.ids.congr fun i v => by rw [edit_same Rows.ids (.learnFirst n seq) fun _ => rfl]
  spelled d' id := by
    rw [edit_same Rows.ids (.learnFirst n seq) fun _ => rfl]
    exact h.spelled d' id
  live := h.live
  commits := h.commits
  sound := h.sound

lemma learnFirst_of_some {n : Bytes} {q : UInt64} (hn : (ds d).learned n = some q) (seq : UInt64) :
    ds.edit d (.learnFirst n seq) = ds := by
  have hrows : Rows.learnFirst n seq (ds d) = ds d := by
    rw [Rows.learnFirst, hn, Option.some_or, ← hn, Function.update_eq_self]
  rw [edit, hrows, Function.update_eq_self]

lemma spellingOf_getD {spelling : Option Bytes} (h : spelling ≠ some []) :
    spellingOf (spelling.getD []) = spelling := by
  cases spelling with
  | none => rfl
  | some n =>
    have hn : n ≠ [] := fun hn => h (congrArg some hn)
    exact if_neg hn

lemma spellingOf_injective : Function.Injective spellingOf := by
  intro a b h
  rw [spellingOf, spellingOf] at h
  split at h <;> split at h <;> simp_all

lemma Holds.identify (h : Holds s ds) (id : ObjectId) {spelling : Option Bytes} (hs : spelling ≠ some [])
    (seq : UInt64) :
    Holds { s with ids := s.ids.insert (idsKey d id (spelling.getD [])) seq }
    (ds.edit d (.identify id spelling seq)) where
  names := h.names.congr fun i v => by rw [edit_same Rows.names (.identify id spelling seq) fun _ => rfl]
  owners := h.owners.congr fun i v => by rw [edit_same Rows.owners (.identify id spelling seq) fun _ => rfl]
  learned := h.learned.congr fun i v => by rw [edit_same Rows.learned (.identify id spelling seq) fun _ => rfl]
  ids := by
    refine h.ids.insert idsKey_injective (i := (d, id, spelling.getD [])) (fun w => ?_) fun j hj w => ?_
    · dsimp only
      rw [edit_self, spellingOf_getD hs]
      simp [Rows.identify, eq_comm]
    · obtain ⟨d', id', n⟩ := j
      dsimp only
      by_cases hd : d' = d
      · subst hd
        rw [edit_self, Rows.identify]
        dsimp only
        by_cases hid : id' = id
        · subst hid
          have hn : spellingOf n ≠ spelling := by
            intro hn
            rw [← spellingOf_getD hs] at hn
            exact hj (by rw [spellingOf_injective hn])
          rw [Function.update_self, Function.update_of_ne hn]
        · rw [Function.update_of_ne hid]
      · rw [edit_of_ne hd]
  spelled d' id' := by
    by_cases hd : d' = d
    · subst hd
      rw [edit_self, Rows.identify]
      dsimp only
      by_cases hid : id' = id
      · subst hid
        rw [Function.update_self, Function.update_of_ne hs.symm]
        exact h.spelled d' id'
      · rw [Function.update_of_ne hid]
        exact h.spelled d' id'
    · rw [edit_of_ne hd]
      exact h.spelled d' id'
  live := h.live
  commits := h.commits
  sound := h.sound

end Writes

end Flux.Scratch
