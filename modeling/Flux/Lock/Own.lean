import Flux.Lock.Stable

/-! What a process knows after a call of its own is true. -/

namespace Flux.Lock

open Base Function

variable {P : Type} {blake3 : Bytes → Block 32} {kind : SiteKind} {owner : Text → P} {w w' : World P} {p q : P}
  {k : Know}

variable {bytes : Bytes}

section Content

variable {old : Bytes} {n : ℕ}

lemma overwritten_getElem? (hn : n ≤ bytes.length) (i : ℕ) :
    (overwritten old bytes n)[i]? = if i < n then bytes[i]? else old[i]? := by
  have hlen : (bytes.take n).length = n := List.length_take_of_le hn
  rw [overwritten]
  split
  · rename_i hi
    rw [List.getElem?_append_left (by omega), List.getElem?_take_of_lt hi]
  · rename_i hi
    rw [List.getElem?_append_right (by omega), List.getElem?_drop, hlen]
    congr 1
    omega

lemma overwritten_length (hn : n ≤ bytes.length) : (overwritten old bytes n).length = max n old.length := by
  rw [overwritten, List.length_append, List.length_take_of_le hn, List.length_drop]
  omega

lemma overwritten_ne_foreign (hn : n ≤ bytes.length) (hlen : bytes.length = recordLen) (hm : wholeMagic bytes)
    (hold : decode blake3 old ≠ .foreign) : decode blake3 (overwritten old bytes n) ≠ .foreign := by
  obtain ⟨hz, hl⟩ := (decode_ne_foreign blake3).1 hold
  rw [zeroOrMagic_iff] at hz
  have hm' := wholeMagic_iff.1 hm
  refine (decode_ne_foreign blake3).2 ⟨zeroOrMagic_iff.2 fun i b m hb hi => ?_, ?_⟩
  · rw [overwritten_getElem? hn] at hb
    split at hb
    · rw [hm' i m hi] at hb
      exact .inr (Option.some.inj hb).symm
    · exact hz i b m hb hi
  · rw [overwritten_length hn]
    rcases hl with hl | hl
    · exact .inl (max_le (hlen ▸ hn) hl)
    · refine .inr (wholeMagic_iff.2 fun i m hi => ?_)
      rw [overwritten_getElem? hn]
      split
      · exact hm' i m hi
      · exact wholeMagic_iff.1 hl i m hi

lemma resized_ne_foreign (hn : n ≤ recordLen) (hold : decode blake3 old ≠ .foreign) :
    decode blake3 (resized old n) ≠ .foreign := by
  have hz := zeroOrMagic_iff.1 ((decode_ne_foreign blake3).1 hold).1
  refine (decode_ne_foreign blake3).2 ⟨zeroOrMagic_iff.2 fun i b m hb hi => ?_, .inl ?_⟩
  · rw [resized, List.getElem?_append] at hb
    split at hb
    · rw [List.getElem?_take] at hb
      split at hb
      · exact hz i b m hb hi
      · cases hb
    · exact .inl (List.eq_of_mem_replicate (List.mem_of_getElem? hb))
  · simp only [resized, List.length_append, List.length_take, List.length_replicate]
    omega

end Content

namespace World.Good

lemma newHandle (hg : w.Good blake3) {f : ℕ} (hf : f < w.nextFile) : (w.newHandle p f).Good blake3 :=
  { hg with
    opened := fun h q ho => by
      simp only [World.newHandle] at ho ⊢
      by_cases he : h = ⟨w.nextHandle, f⟩
      · subst he
        exact ⟨Nat.lt_succ_self _, hf⟩
      · simp only [update_of_ne he] at ho
        exact ⟨Nat.lt_succ_of_lt (hg.opened h q ho).1, (hg.opened h q ho).2⟩
    numbered := fun h ho => ⟨Nat.lt_succ_of_lt (hg.numbered h ho).1, (hg.numbered h ho).2⟩
    locker := fun f' h hl => by
      obtain ⟨hf', q, ho⟩ := hg.locker f' h hl
      by_cases he : h = ⟨w.nextHandle, f⟩
      · exact ⟨hf', p, by rw [World.newHandle, he]; exact update_self ..⟩
      · exact ⟨hf', q, by simpa only [World.newHandle, update_of_ne he] using ho⟩ }

lemma newFile (hg : w.Good blake3) : World.Good blake3
    { w with data := update w.data w.nextFile [], nextFile := w.nextFile + 1 } :=
  { hg with
    opened := fun h q ho => ⟨(hg.opened h q ho).1, Nat.lt_succ_of_lt (hg.opened h q ho).2⟩
    named := fun n f hd => Nat.lt_succ_of_lt (hg.named n f hd)
    numbered := fun h ho => ⟨(hg.numbered h ho).1, Nat.lt_succ_of_lt (hg.numbered h ho).2⟩
    owned := fun h ho => by simpa only [update_of_ne (hg.numbered h ho).2.ne] using hg.owned h ho }

lemma rename (hg : w.Good blake3) {n : Name} {x : Option Node}
    (hx : ∀ f, x = some (.file f) → f < w.nextFile) : World.Good blake3 { w with dir := update w.dir n x } :=
  { hg with
    named := fun n' f hd => by
      by_cases he : n' = n
      · subst he
        simp only [update_self] at hd
        exact hx f hd
      · simp only [update_of_ne he] at hd
        exact hg.named n' f hd }

lemma write (hg : w.Good blake3) {f : ℕ} (hb : decode blake3 bytes ≠ .foreign) :
    World.Good blake3 { w with data := update w.data f bytes } :=
  { hg with
    owned := fun h ho => by
      by_cases he : h.file = f
      · simpa only [he, update_self] using hb
      · simpa only [update_of_ne he] using hg.owned h ho }

lemma own (hg : w.Good blake3) {h : Handle} (hlt : h.id < w.nextHandle ∧ h.file < w.nextFile)
    (hb : decode blake3 (w.data h.file) ≠ .foreign) : World.Good blake3 { w with owns := update w.owns h true } :=
  { hg with
    numbered := fun h' ho => by
      by_cases he : h' = h
      · exact he ▸ hlt
      · simp only [update_of_ne he] at ho
        exact hg.numbered h' ho
    owned := fun h' ho => by
      by_cases he : h' = h
      · exact he ▸ hb
      · simp only [update_of_ne he] at ho
        exact hg.owned h' ho }

lemma created (hg : w.Good blake3) (n : Name) : World.Good blake3
    { w.newHandle p w.nextFile with
      dir := update w.dir n (some (.file w.nextFile))
      data := update w.data w.nextFile []
      nextFile := w.nextFile + 1
      owns := update w.owns ⟨w.nextHandle, w.nextFile⟩ true } := by
  have hfile := hg.newFile.newHandle (p := p) (Nat.lt_succ_self w.nextFile)
  have hnamed := hfile.rename (n := n) (x := some (.file w.nextFile)) fun f hf => by
    cases hf
    exact Nat.lt_succ_self _
  refine hnamed.own (h := ⟨w.nextHandle, w.nextFile⟩) ⟨Nat.lt_succ_self _, Nat.lt_succ_self _⟩ ?_
  simp [World.newHandle, decode]

lemma lock (hg : w.Good blake3) {h : Handle} (mine : w.opened h = some p) :
    World.Good blake3 { w with locker := update w.locker h.file (some h) } :=
  { hg with
    locker := fun f h' hl => by
      by_cases he : f = h.file
      · simp only [he, update_self] at hl
        cases hl
        exact ⟨he.symm, p, mine⟩
      · simp only [update_of_ne he] at hl
        exact hg.locker f h' hl }

lemma close (hg : w.Good blake3) (h : Handle) : World.Good blake3 { w with
      opened := update w.opened h none
      locker := if w.locker h.file = some h then update w.locker h.file none else w.locker } :=
  { hg with
    opened := fun h' q ho => by
      by_cases he : h' = h
      · simp only [he, update_self] at ho
        cases ho
      · simp only [update_of_ne he] at ho
        exact hg.opened h' q ho
    locker := fun f h' hl => by
      have hold : w.locker f = some h' ∧ h' ≠ h := by
        dsimp only at hl
        split at hl
        · rename_i hlk
          by_cases he : f = h.file
          · simp only [he, update_self] at hl
            cases hl
          · simp only [update_of_ne he] at hl
            refine ⟨hl, ?_⟩
            rintro rfl
            exact he (hg.locker f _ hl).1.symm
        · rename_i hlk
          refine ⟨hl, ?_⟩
          rintro rfl
          rw [(hg.locker f _ hl).1] at hlk
          exact hlk hl
      obtain ⟨hf, q, ho⟩ := hg.locker f h' hold.1
      exact ⟨hf, q, by simpa only [update_of_ne hold.2] using ho⟩ }

lemma crashed [DecidableEq P] (hg : w.Good blake3) : (w.crashed p).Good blake3 :=
  { hg with
    opened := fun h q ho => by
      simp only [World.crashed] at ho
      split at ho
      · cases ho
      · exact hg.opened h q ho
    locker := fun f h hl => by
      simp only [World.crashed] at hl ⊢
      split at hl
      · cases hl
      · rename_i h' hl'
        split at hl
        · cases hl
        · rename_i hne
          cases hl
          obtain ⟨hf, q, ho⟩ := hg.locker f h hl'
          exact ⟨hf, q, by rw [if_neg hne]; exact ho⟩ }

lemma environment (hg : w.Good blake3) (hx : Environment w w') : w'.Good blake3 := by
  cases hx with
  | sweep named free => exact hg.rename nofun
  | dirLock x hx => exact hg.rename fun f hf => absurd hf (hx f)

end World.Good

namespace Agrees

lemma forget (ha : Agrees blake3 owner w p k) (h : Handle) : Agrees blake3 owner w p (k.forget h) :=
  { ha with
    locked := fun x hx => ha.locked x hx.1
    path := fun x hx => ⟨⟨(ha.path x hx.1).1, hx.2⟩, (ha.path x hx.1).2⟩
    aside := fun x hx => ⟨⟨(ha.aside x hx.1).1, hx.2⟩, (ha.aside x hx.1).2⟩
    mineAside := fun x hx => ha.mineAside x hx.1
    content := fun x hx => ⟨⟨(ha.content x hx.1).1, hx.2⟩, (ha.content x hx.1).2⟩
    looked := fun x hx => ⟨⟨(ha.looked x hx.1).1, hx.2⟩, (ha.looked x hx.1).2⟩ }

lemma close (ha : Agrees blake3 owner w p k) (h : Handle) : Agrees blake3 owner
    { w with
      opened := update w.opened h none
      locker := if w.locker h.file = some h then update w.locker h.file none else w.locker } p (k.forget h) :=
  { ha.forget h with
    locked := fun x hx => by
      have hl := ha.locked x hx.1
      refine ⟨by simpa only [update_of_ne hx.2] using hl.1, ?_⟩
      dsimp only
      split
      · rename_i hlk
        have hf : x.file ≠ h.file := fun hf => hx.2 (by
          rw [← hf, hl.2] at hlk
          exact Option.some.inj hlk)
        rw [update_of_ne hf]
        exact hl.2
      · exact hl.2 }

lemma write (ha : Agrees blake3 owner w p k) {h : Handle} (hl : h ∈ k.locked) (bytes : Bytes) :
    Agrees blake3 owner { w with data := update w.data h.file bytes } p
      { k with content := { x ∈ k.content | x.1 ≠ h } } :=
  { ha with
    content := fun x hx => by
      obtain ⟨hx, hne⟩ := hx
      obtain ⟨hx', hd⟩ := ha.content x hx
      have hf : x.1.file ≠ h.file := fun hf => hne ((ha.locked _ hx').unique (ha.locked _ hl) hf).1
      exact ⟨hx', by simpa only [update_of_ne hf] using hd⟩ }

lemma own (ha : Agrees blake3 owner w p k) (h : Handle) :
    Agrees blake3 owner { w with owns := update w.owns h true } p { k with owns := insert h k.owns } :=
  { ha with
    owns := fun x hx => by
      by_cases he : x = h
      · simp only [he, update_self]
      · simpa only [update_of_ne he] using ha.owns x (hx.resolve_left he) }

end Agrees

variable [DecidableEq P]

lemma possible_exec {c : Call} {r : Reply c} (hg : w.Good blake3) (ha : Agrees blake3 owner w p k)
    (hx : Exec p c w r w') : k.possible c r := by
  cases hx with
  | @fails _ c e r h => cases c <;> cases h <;> trivial
  | createLock free =>
    intro hl
    exact lt_irrefl _ (hg.opened _ _ (ha.locked _ hl).1).1
  | openLock named =>
    intro ho
    exact lt_irrefl _ (hg.numbered _ (ha.owns _ ho)).1
  | identity mine => rfl
  | _ => trivial

lemma good_exec {c : Call} {r : Reply c} (hg : w.Good blake3) (ha : Agrees blake3 owner w p k)
    (hc : k.allowed blake3 kind c) (hx : Exec p c w r w') : w'.Good blake3 := by
  have hwrite {h : Handle} {bytes : Bytes} {n : ℕ} (hc : k.allowed blake3 kind (.writeAt h bytes))
      (mine : w.opened h = some p) (upTo : n ≤ bytes.length) : World.Good blake3
      { w with
        data := update w.data h.file (overwritten (w.data h.file) bytes n)
        owns := update w.owns h true } := by
    obtain ⟨-, ⟨r, hr⟩, hc⟩ := hc
    obtain ⟨hlen, hm⟩ := LockRecord.encode_shape blake3 hr
    have hold : decode blake3 (w.data h.file) ≠ .foreign := by
      rcases hc with hc | ⟨purpose, d, -, hd, hm⟩
      · exact hg.owned h (ha.owns h hc)
      · rw [(ha.content _ hd).2]
        rintro rfl
        cases purpose <;> exact hm
    have hnew := overwritten_ne_foreign upTo hlen hm hold
    refine (hg.write hnew).own (hg.opened h p mine) ?_
    simpa only [update_self] using hnew
  cases hx with
  | fails | request | metadata | identity | refused | readLocked | readUnlocked | readFile | syncAll | closeNone
  | dirIsStrong | workspacePresent | setWorkspace => exact { hg with }
  | createLock free => exact hg.created _
  | openLock named => exact hg.newHandle (hg.named _ _ named)
  | granted mine free => exact hg.lock mine
  | writeAt mine upTo => exact hwrite hc mine upTo
  | writeFails mine upTo => exact hwrite hc mine upTo
  | @setLen _ h n mine =>
    exact hg.write (resized_ne_foreign hc.2.2 (hg.owned h (ha.owns h hc.2.1)))
  | renameNoReplace named free =>
    exact (hg.rename (x := none) nofun).rename fun f hf => hg.named _ f (by rw [named, hf])
  | removeFile named => exact hg.rename nofun
  | close mine => exact hg.close _

lemma agrees_exec {c : Call} {r : Reply c} (hg : w.Good blake3) (ha : Agrees blake3 owner w p k)
    (hc : k.allowed blake3 kind c) (hx : Exec p c w r w') : Agrees blake3 owner w' p (k.after blake3 c r) := by
  cases hx with
  | @fails _ c e r h =>
    cases c with
    | writeAt h' bytes | setLen h' n =>
      cases h
      exact { ha with content := fun x hx => ha.content x hx.1 }
    | renameNoReplace a b =>
      cases h
      cases a <;> cases b <;> exact ha
    | removeFile n | metadata n =>
      cases h
      cases n <;> exact ha
    | _ =>
      cases h
      try exact ha
  | request purpose => exact { ha with request := (update_self p (some purpose) w.asked).symm }
  | createLock free =>
    cases hc
    have hk := ha.keeps (Keeps.created (p := p) hg free)
    exact { hk with
      owns := fun x hx => by
        rcases hx with rfl | hx
        · exact update_self ..
        · exact hk.owns x hx }
  | openLock named => exact ha.keeps (Keeps.newHandle hg _)
  | @metadata _ n x named =>
    cases n with
    | lock =>
      exact { ha with
        path := fun h hh => by
          rcases hh with hh | ⟨hh, rfl⟩
          · exact ha.path h hh
          · exact ⟨hh, named⟩ }
    | dirLock | broken => exact ha
  | @granted _ h mine free =>
    have hk := ha.keeps (Keeps.granted free)
    exact { hk with
      locked := fun x hx => by
        rcases hx with rfl | hx
        · exact ⟨mine, update_self ..⟩
        · exact hk.locked x hx
      path := fun x hx => ⟨.inr (hk.path x hx).1, (hk.path x hx).2⟩
      aside := fun x hx => ⟨.inr (hk.aside x hx).1, (hk.aside x hx).2⟩
      content := fun x hx => ⟨.inr (hk.content x hx).1, (hk.content x hx).2⟩
      looked := fun x hx => ⟨.inr (hk.looked x hx).1, (hk.looked x hx).2⟩ }
  | @readLocked _ h limit locked =>
    exact { ha with
      content := fun x hx => by
        rcases hx with hx | ⟨rfl, hl, rfl⟩
        · exact ha.content x hx
        · exact ⟨hl, (decode_take blake3 _).symm⟩ }
  | @readUnlocked _ h limit bytes unlocked =>
    exact { ha with
      content := fun x hx => by
        rcases hx with hx | ⟨-, hl, -⟩
        · exact ha.content x hx
        · exact absurd (ha.locked h hl).2 unlocked }
  | identity | refused | readFile | syncAll | dirIsStrong => exact ha
  | writeAt mine upTo => exact (ha.write hc.1 _).own _
  | writeFails mine upTo => exact (ha.write hc.1 _).keeps (Keeps.owned _)
  | setLen mine => exact ha.write hc.1 _
  | @renameNoReplace _ a b x named free =>
    match a, b, hc with
    | .lock, .broken i, ⟨hi, h, hh, _⟩ =>
      exact { ha with
        path := nofun
        aside := fun y hy => by
          rcases hy with hy | ⟨rfl, hy⟩
          · have hne : y.1 ≠ i := by
              rintro rfl
              rw [(ha.aside y hy).2] at free
              cases free
            refine ⟨(ha.aside y hy).1, ?_⟩
            have hne' : Name.broken y.1 ≠ .broken i := fun he => hne (Name.broken.inj he)
            simpa only [update_of_ne hne', update_of_ne (Name.noConfusion : Name.broken _ ≠ .lock)] using
              (ha.aside y hy).2
          · refine ⟨(ha.path _ hy).1, ?_⟩
            simp only [update_self]
            rw [← named, (ha.path _ hy).2]
        mineAside := fun y hy => by
          rcases hy with hy | ⟨rfl, -⟩
          · exact ha.mineAside y hy
          · exact hi
        looked := fun y hy => ⟨(ha.looked y hy).1, fun hd => by simp at hd⟩ }
    | .broken i, .lock, ⟨hi, h, hh⟩ =>
      exact { ha with
        path := fun y hy => by
          rw [(ha.path y hy).2] at free
          cases free
        aside := fun y hy => by
          have hne : Name.broken y.1 ≠ .broken i := fun he => hy.2 (Name.broken.inj he)
          refine ⟨(ha.aside y hy.1).1, ?_⟩
          simpa only [update_of_ne hne, update_of_ne (Name.noConfusion : Name.broken _ ≠ .lock)] using
            (ha.aside y hy.1).2
        mineAside := fun y hy => ha.mineAside y hy.1
        looked := nofun }
  | @removeFile _ n x named =>
    match n, hc with
    | .lock, _ =>
      exact { ha with
        path := nofun
        aside := fun y hy => by
          refine ⟨(ha.aside y hy).1, ?_⟩
          simpa only [update_of_ne (Name.noConfusion : Name.broken _ ≠ .lock)] using (ha.aside y hy).2
        looked := fun y hy => ⟨(ha.looked y hy).1, fun hd => by simp at hd⟩ }
    | .broken i, _ =>
      exact { ha with
        path := fun y hy => by
          refine ⟨(ha.path y hy).1, ?_⟩
          simpa only [update_of_ne (Name.noConfusion : Name.lock ≠ .broken _)] using (ha.path y hy).2
        aside := fun y hy => by
          have hne : Name.broken y.1 ≠ .broken i := fun he => hy.2 (Name.broken.inj he)
          refine ⟨(ha.aside y hy.1).1, ?_⟩
          simpa only [update_of_ne hne] using (ha.aside y hy.1).2
        mineAside := fun y hy => ha.mineAside y hy.1
        looked := fun y hy => by
          refine ⟨(ha.looked y hy).1, ?_⟩
          simpa only [update_of_ne (Name.noConfusion : Name.lock ≠ .broken _)] using (ha.looked y hy).2 }
  | close mine => exact ha.close _
  | closeNone notMine => exact ha.forget _
  | workspacePresent =>
    exact { ha with
      looked := fun y hy => by
        rcases hy with hy | ⟨hl, he⟩
        · exact ha.looked y hy
        · exact ⟨hl, fun _ => by rw [he]⟩ }
  | setWorkspace => exact { ha with looked := nofun }

end Flux.Lock
