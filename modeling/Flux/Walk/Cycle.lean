import Flux.Walk.Nesting

namespace Flux.Walk

open Base

def BadName (w : Walking) : Prop :=
  ∃ f rest e items, w.stack = f :: rest ∧ f.entries = .ok e :: items ∧ isOneComponent e.name = false

variable {w : Walking}

section Returning

variable {a : Answers} {o : Options} (hl : a.listed ≠ none)

include hl

lemma openListing_answered (w : Walking) (rel : Path) (identity : FileIdentity) (note : Option MountNote) :
    Returns (openListing a.lister w rel identity note) fun _ => True := by
  obtain ⟨r, hr⟩ := Option.ne_none_iff_exists'.mp hl
  have hlist : a.lister.list w.space rel = pure (r, ()) := by simp only [Answers.lister, hr]
  rw [openListing, hlist, pure_bind]
  rcases r with (cause | cause) | items <;> exact .pure trivial

lemma enter_answered (w : Walking) (rel : Path) : Returns (enter (a.config o) a.lister w rel) fun _ => True := by
  rw [enter_eq]
  cases gate (a.config o) rel w.stack.length w.ancestors with
  | fails cause => exact .pure trivial
  | skip identity => exact .pure trivial
  | pass identity unknown => exact openListing_answered hl w rel identity _

lemma nextStep_answered (hn : ¬ BadName w) : Returns (nextStep (a.config o) a.lister w) fun _ => True := by
  rw [nextStep]
  split
  · exact .pure trivial
  split
  · exact .pure trivial
  next f rest here =>
  split
  · exact .pure trivial
  have hnext : a.lister.next w.space f.entries = pure (f.entries.head?, f.entries.tail) := rfl
  rw [hnext, pure_bind]
  cases he : f.entries with
  | nil =>
    cases f.emitEnd with
    | false =>
      simp only [List.head?_nil, List.tail_nil, Bool.false_eq_true, if_false]
      exact .pure trivial
    | true =>
      simp only [List.head?_nil, List.tail_nil, if_true]
      exact .pure trivial
  | cons item items =>
    cases item with
    | error cause => exact .pure trivial
    | ok e =>
      have hname : isOneComponent e.name = true := by
        by_contra hname
        exact hn ⟨f, rest, e, items, here, he, Bool.not_eq_true _ |>.mp hname⟩
      simp only [List.head?_cons, List.tail_cons, visit, hname, not_true_eq_false, if_false]
      cases (a.config o).select (f.rel ++ [e.name]) e.fileType with
      | excluded => exact .pure trivial
      | skipped => exact .pure trivial
      | keep =>
        cases e.fileType with
        | file => exact .pure trivial
        | symlink => exact .pure trivial
        | other => exact .pure trivial
        | dir => exact (enter_answered hl _ _).bind fun _ _ => .pure trivial

end Returning

section Termination

variable (answers : ℕ → Answers) (o : Options) (identity : FileIdentity)

def StopsAt (n : ℕ) : Prop :=
  (∃ events w, progress answers o identity n = .ended events w) ∨
    ∃ events w, progress answers o identity n = .going events w ∧ BadName w ∧
      progress answers o identity (n + 1) = .stuck events

variable {answers o identity} (hl : ∀ n, (answers n).listed ≠ none)

include hl

lemma step_of_going {n : ℕ} {events : List RawEvent} (h : progress answers o identity n = .going events w)
    (hd : w.done = false) (hs : w.stack ≠ []) : StopsAt answers o identity n ∨
      ∃ event w', Move o w event w' ∧ progress answers o identity (n + 1) =
      .going (events ++ event.toList) w' := by
  have hp : progress answers o identity (n + 1) = (answers (n + 1)).advance o (.going events w) := by
    rw [← h]
    rfl
  rw [Answers.advance] at hp
  rcases hr : (nextStep ((answers (n + 1)).config o) (answers (n + 1)).lister w).run with _ | (e | r)
  · have hbad : BadName w := by
      by_contra hn
      obtain ⟨r, hr', -⟩ := nextStep_answered (o := o) (hl (n + 1)) hn
      rw [hr'] at hr
      cases hr
    rw [hr] at hp
    exact .inl (.inr ⟨events, w, h, hbad, hp⟩)
  · cases e
  · have hmove := nextStep_move (a := answers (n + 1)) (o := o) w r hr
    rw [hr] at hp
    rcases r with w' | ⟨_ | e, w'⟩
    · exact .inr ⟨none, w', hmove.2, hp.trans (by rw [Option.toList_none, List.append_nil]; rfl)⟩
    · rcases hmove.2 with hx | hx
      · rw [hd] at hx
        cases hx
      · exact absurd hx hs
    · exact .inr ⟨some e, w', hmove.2, hp⟩

def Frame.size (f : Frame Items) : ℕ := 2 * f.entries.length + if f.mount.isSome then 1 else 0

lemma drains (room size : ℕ) {n : ℕ} {events : List RawEvent} {f : Frame Items} {rest : List (Frame Items)}
    (h : progress answers o identity n = .going events w) (hd : w.done = false) (hs : w.stack = f :: rest)
    (hroom : o.maxDepth ≤ rest.length + room) (hsize : f.size = size) : ∃ m, StopsAt answers o identity m ∨
      ∃ events' w', progress answers o identity m = .going events' w' ∧
      (w'.done = true ∨ w'.done = false ∧ w'.stack = rest) := by
  induction room using Nat.strongRecOn generalizing size n events w f rest with
  | ind room ihr =>
    induction size using Nat.strongRecOn generalizing n events w f with
    | ind size ihs =>
      rcases step_of_going hl h hd (by rw [hs]; simp) with hstop | ⟨event, w', move, hnext⟩
      · exact ⟨n, .inl hstop⟩
      cases move with
      | @noted f' rest' note _ top mount stack ancestors done =>
        obtain ⟨rfl, rfl⟩ := List.cons.inj (hs.symm.trans top)
        refine ihs _ ?_ hnext done stack rfl
        rw [← hsize, Frame.size, Frame.size, mount]
        simp
      | @popped f' rest' _ top mount stack ancestors done =>
        obtain ⟨rfl, rfl⟩ := List.cons.inj (hs.symm.trans top)
        exact ⟨n + 1, .inr ⟨_, _, hnext, .inr ⟨done, stack⟩⟩⟩
      | failed fatal stack ancestors done => exact ⟨n + 1, .inr ⟨_, _, hnext, .inl done⟩⟩
      | @passed f' rest' item items event _ top mount entries stack ancestors done kind =>
        obtain ⟨rfl, rfl⟩ := List.cons.inj (hs.symm.trans top)
        refine ihs _ ?_ hnext done stack rfl
        rw [← hsize, Frame.size, Frame.size, entries]
        simp
      | @entered f' rest' item items g identity' _ top mount entries room' ends stack done ancestors =>
        obtain ⟨rfl, rfl⟩ := List.cons.inj (hs.symm.trans top)
        have hpos : rest.length + 1 ≤ o.maxDepth := by
          rw [top] at room'
          exact room'
        obtain ⟨m, hstop | ⟨events', w'', hm, hdone | ⟨hgo, hback⟩⟩⟩ :=
          ihr (room - 1) (by omega) g.size hnext done stack (by rw [List.length_cons]; omega) rfl
        · exact ⟨m, .inl hstop⟩
        · exact ⟨m, .inr ⟨events', w'', hm, .inl hdone⟩⟩
        · refine ihs _ ?_ hm hgo hback rfl
          rw [← hsize, Frame.size, Frame.size, entries]
          simp

omit hl in
lemma ends_of_done {n : ℕ} {events : List RawEvent} (h : progress answers o identity n = .going events w)
    (hd : w.done = true ∨ w.stack = []) : StopsAt answers o identity (n + 1) := by
  have hr : (nextStep ((answers (n + 1)).config o) (answers (n + 1)).lister w).run =
    some (.ok (.inr (none, w))) := by
    rw [nextStep]
    split
    · rfl
    · next hn => rw [hd.resolve_left hn]; rfl
  refine .inl ⟨events, w, ?_⟩
  rw [progress, h, Answers.advance, hr]
  rfl

lemma stops : ∃ n, StopsAt answers o identity n := by
  obtain ⟨r, hr⟩ := Option.ne_none_iff_exists'.mp (hl 0)
  have h0 : progress answers o identity 0 = (answers 0).begin identity := rfl
  rw [Answers.begin, start_run, hr] at h0
  rcases r with (cause | cause) | entries
  · exact ⟨1, ends_of_done h0 (.inl rfl)⟩
  · exact ⟨1, ends_of_done h0 (.inl rfl)⟩
  · obtain ⟨m, hstop | ⟨events, w, hm, hend⟩⟩ := drains hl o.maxDepth _ h0 rfl rfl (Nat.le_add_left _ _) rfl
    · exact ⟨m, hstop⟩
    · exact ⟨m + 1, ends_of_done hm (hend.imp id And.right)⟩

end Termination

section Safety

variable {o : Options} {identity : FileIdentity} {events : List RawEvent} {w : Walking}

lemma Reached.frames (h : Reached o identity events w) :
    w.ancestors = (List.zipWith strongOf w.stack (opened events ++ [rootDir identity])).filterMap id ∧
      (w.stack = [] ∨ w.stack.map Frame.rel = (opened events ++ [rootDir identity]).map OpenDir.path) ∧
      w.ancestors.Nodup ∧ w.stack.length ≤ o.maxDepth + 1 := by
  cases h with
  | going here calm order frames depth =>
    refine ⟨frames.ancestors_eq, .inr ?_, frames.nodup, depth⟩
    rw [List.map_append]
    exact frames.rel_eq
  | emptied here calm order stack ancestors closed =>
    rw [stack, ancestors]
    exact ⟨rfl, .inl rfl, List.nodup_nil, Nat.zero_le _⟩
  | halted here before last yielded calm fatal stack ancestors =>
    rw [stack, ancestors]
    exact ⟨rfl, .inl rfl, List.nodup_nil, Nat.zero_le _⟩

lemma Reached.fatal_last (h : Reached o identity events w) {u v : List RawEvent} {e : RawEvent}
    (he : events = u ++ e :: v) (hf : isFatal e = true) : v = [] := by
  have hcalm : (∀ x ∈ events, isFatal x = false) → False := by
    intro hcalm
    rw [hcalm e (by rw [he]; simp)] at hf
    cases hf
  cases h with
  | going here calm order frames depth => exact (hcalm calm).elim
  | emptied here calm order stack ancestors closed => exact (hcalm calm).elim
  | halted here before last yielded calm fatal stack ancestors =>
    by_contra hv
    obtain ⟨v', x, rfl⟩ := List.eq_nil_or_concat v |>.resolve_left hv
    rw [yielded, List.concat_eq_append, ← List.cons_append, ← List.append_assoc] at he
    have hmem : e ∈ before := by
      rw [(List.append_inj' he rfl).1]
      simp
    rw [calm e hmem] at hf
    cases hf

lemma Reached.closed (h : Reached o identity events w) (hend : w.done = true ∨ w.stack = [])
    (hcalm : ∀ e ∈ events, isFatal e = false) {u v : List RawEvent} {path : Path} {id : FileIdentity}
    (he : events = u ++ .ok (.dir path id) :: v) : .ok (.dirEnd path) ∈ v := by
  cases h with
  | going here calm order frames depth =>
    rcases hend with hd | hs
    · rw [here] at hd
      cases hd
    · rw [hs] at frames
      cases frames
  | emptied here calm order stack ancestors closed =>
    rw [he, wellNested_append] at order
    rw [he, opened, List.foldl_append, List.foldl_cons] at closed
    have hlater : WellNested ([] ++ ⟨path, id, false⟩ :: List.foldl openDir [] u) v := order.2.2
    exact hlater.closes (le_of_eq_of_le (congrArg List.length closed) (Nat.zero_le _))
  | halted here before last yielded calm fatal stack ancestors =>
    rcases fatal with fatal | ⟨rfl, e, rfl⟩
    · rw [hcalm last (by rw [yielded]; simp)] at fatal
      cases fatal
    · rw [yielded] at he
      cases u with
      | nil => cases he
      | cons x u => cases u <;> cases he

end Safety

/-- Over any filesystem: the ancestors are the strong identities of the open directories, skipped mount roots
apart, each once; a walk that is over has closed what it entered unless an error ended it; and with finite
listings it comes to its end. -/
theorem walk_cycle_safe (answers : ℕ → Answers) (o : Options) (identity : FileIdentity) :
    (∀ n w, (progress answers o identity n).walking = some w →
      let dirs := opened (progress answers o identity n).events ++ [rootDir identity]
      w.ancestors = (List.zipWith strongOf w.stack dirs).filterMap id ∧
        (w.stack = [] ∨ w.stack.map Frame.rel = dirs.map OpenDir.path) ∧
        w.ancestors.Nodup ∧ w.stack.length ≤ o.maxDepth + 1) ∧
    (∀ n events w, progress answers o identity n = .ended events w → (∀ e ∈ events, isFatal e = false) →
      ∀ u path id v, events = u ++ .ok (.dir path id) :: v → .ok (.dirEnd path) ∈ v) ∧
    (∀ n u e v, (progress answers o identity n).events = u ++ e :: v → isFatal e = true → v = []) ∧
    ((∀ n, (answers n).listed ≠ none) → ∃ n, StopsAt answers o identity n) := by
  refine ⟨fun n w hw => ?_, fun n events w hw hcalm u path id v he => ?_, fun n u e v he hf => ?_, stops⟩
  · have hsane := progress_sane answers o identity n
    generalize progress answers o identity n = p at hsane hw ⊢
    cases hsane with
    | going reached =>
      cases hw
      exact reached.frames
    | ended reached finished =>
      cases hw
      exact reached.frames
    | stuck reached => cases hw
  · have hsane := progress_sane answers o identity n
    rw [hw] at hsane
    cases hsane with
    | ended reached finished => exact reached.closed finished hcalm he
  · have hsane := progress_sane answers o identity n
    generalize progress answers o identity n = p at hsane he
    cases hsane with
    | going reached => exact reached.fatal_last he hf
    | ended reached finished => exact reached.fatal_last he hf
    | stuck reached =>
      rcases reached with rfl | ⟨w, reached⟩
      · exact absurd he (by simp [Progress.events])
      · exact reached.fatal_last he hf

def mountedAnswers (n : ℕ) : Answers where
  metadata := .ok ⟨0, .dir, none, none, .strong ⟨2, 2⟩, none⟩
  mountRoot := .ok .yes
  select := .keep
  listed := some (.ok (if n = 0 then [.ok ⟨[98], .dir, none⟩] else []))

theorem skipped_mount_not_an_ancestor : ∃ events w d, progress mountedAnswers ⟨256, .stay⟩ (.strong ⟨1, 1⟩) 1 =
    .going events w ∧ opened events = [d] ∧ w.stack.map Frame.rel = [d.path, []] ∧
    ∃ id, strongId d.identity = some id ∧ id ∉ w.ancestors := by
  refine ⟨_, _, ⟨[[98]], .strong ⟨2, 2⟩, false⟩, rfl, rfl, rfl, ⟨2, 2⟩, rfl, ?_⟩
  decide

end Flux.Walk
