import Flux.Walk.Answers

/-! The frames of a walk, the directories that are open after its events, and how they match at every step. -/

namespace Flux.Walk

open Base

structure OpenDir where
  path : Path
  identity : FileIdentity
  skipped : Bool

def openDir (dirs : List OpenDir) : RawEvent → List OpenDir
  | .ok (.dir path identity) => ⟨path, identity, false⟩ :: dirs
  | .ok (.mountSkipped _) => dirs.modifyHead fun d => { d with skipped := true }
  | .ok (.dirEnd _) => dirs.tail
  | _ => dirs

def opened (events : List RawEvent) : List OpenDir := events.foldl openDir []

def WellNested : List OpenDir → List RawEvent → Prop
  | _, [] => True
  | dirs, e :: events =>
    (∀ path, e = .ok (.dirEnd path) → ∃ d rest, dirs = d :: rest ∧ d.path = path) ∧
      WellNested (openDir dirs e) events

lemma wellNested_append {dirs : List OpenDir} {u v : List RawEvent} :
    WellNested dirs (u ++ v) ↔ WellNested dirs u ∧ WellNested (u.foldl openDir dirs) v := by
  induction u generalizing dirs with
  | nil => simp [WellNested]
  | cons e u ih => simp only [List.cons_append, WellNested, ih, List.foldl_cons, and_assoc]

lemma WellNested.closes {events : List RawEvent} {before rest : List OpenDir} {d : OpenDir}
    (h : WellNested (before ++ d :: rest) events)
    (hlen : (events.foldl openDir (before ++ d :: rest)).length ≤ rest.length) :
    .ok (.dirEnd d.path) ∈ events := by
  induction events generalizing before d with
  | nil =>
    simp only [List.foldl_nil, List.length_append, List.length_cons] at hlen
    omega
  | cons e events ih =>
    obtain ⟨htop, hrest⟩ := h
    rw [List.foldl_cons] at hlen
    -- The directory stays open, maybe marked as a skipped mount, unless this event closes it.
    have hkeep : ∀ before' d', openDir (before ++ d :: rest) e = before' ++ d' :: rest → d'.path = d.path →
        .ok (.dirEnd d.path) ∈ e :: events := by
      intro before' d' he hp
      rw [he] at hlen hrest
      rw [← hp]
      exact List.mem_cons_of_mem _ (ih hrest hlen)
    rcases e with err | ev
    · exact hkeep before d rfl rfl
    · cases ev with
      | dir path identity => exact hkeep (⟨path, identity, false⟩ :: before) d rfl rfl
      | dirEnd path =>
        cases before with
        | nil =>
          obtain ⟨d', rest', hd, hp⟩ := htop path rfl
          cases hd
          rw [hp]
          exact List.mem_cons_self
        | cons b before => exact hkeep before d rfl rfl
      | mountSkipped path =>
        cases before with
        | nil => exact hkeep [] { d with skipped := true } rfl rfl
        | cons b before => exact hkeep ({ b with skipped := true } :: before) d rfl rfl
      | file path => exact hkeep before d rfl rfl
      | symlink path => exact hkeep before d rfl rfl
      | other path => exact hkeep before d rfl rfl
      | mountUnknown path => exact hkeep before d rfl rfl

inductive Nested (identity : FileIdentity) : List (Frame Items) → List ObjectId → List OpenDir → Prop
  | root {f : Frame Items} (rel : f.rel = []) (pushed : f.pushedAncestor = (strongId identity).isSome)
    (ends : f.emitEnd = false) (mount : f.mount = none) : Nested identity [f] (strongId identity).toList []
  | skipped {f : Frame Items} {rest : List (Frame Items)} {ancestors : List ObjectId} {d : OpenDir}
    {dirs : List OpenDir}
    (below : Nested identity rest ancestors dirs) (rel : f.rel = d.path) (pushed : f.pushedAncestor = false)
    (ends : f.emitEnd = true) (mount : f.mount = some .skipped ∧ d.skipped = false ∨ f.mount = none ∧
      d.skipped = true) : Nested identity (f :: rest) ancestors (d :: dirs)
  | listed {f : Frame Items} {rest : List (Frame Items)} {ancestors : List ObjectId} {d : OpenDir}
    {dirs : List OpenDir} (below : Nested identity rest ancestors dirs) (rel : f.rel = d.path)
    (pushed : f.pushedAncestor = (strongId d.identity).isSome) (ends : f.emitEnd = true)
    (mount : f.mount ≠ some .skipped) (kept : d.skipped = false)
    (fresh : ∀ id, strongId d.identity = some id → id ∉ ancestors) :
    Nested identity (f :: rest) ((strongId d.identity).toList ++ ancestors) (d :: dirs)

def rootDir (identity : FileIdentity) : OpenDir := ⟨[], identity, false⟩

def strongOf (f : Frame Items) (d : OpenDir) : Option ObjectId :=
  if f.mount = some .skipped ∨ d.skipped = true then none else strongId d.identity

variable {f : Frame Items}

namespace Nested

variable {identity : FileIdentity} {stack : List (Frame Items)} {ancestors : List ObjectId} {dirs : List OpenDir}

lemma ancestors_eq (h : Nested identity stack ancestors dirs) :
    ancestors = (List.zipWith strongOf stack (dirs ++ [rootDir identity])).filterMap id := by
  induction h with
  | @root f rel pushed ends mount =>
    have hf : strongOf f (rootDir identity) = strongId identity := if_neg (by simp [mount, rootDir])
    rw [List.nil_append, List.zipWith_cons_cons, hf]
    cases strongId identity <;> rfl
  | @skipped f rest ancestors d dirs below rel pushed ends mount ih =>
    have hf : strongOf f d = none := if_pos (mount.imp And.left And.right)
    rw [List.cons_append, List.zipWith_cons_cons, hf, List.filterMap_cons_none rfl]
    exact ih
  | @listed f rest ancestors d dirs below rel pushed ends mount kept fresh ih =>
    have hf : strongOf f d = strongId d.identity := if_neg (by simp [mount, kept])
    rw [List.cons_append, List.zipWith_cons_cons, hf]
    cases strongId d.identity with
    | none =>
      rw [List.filterMap_cons_none rfl]
      exact ih
    | some id =>
      exact congrArg (id :: ·) ih

lemma rel_eq (h : Nested identity stack ancestors dirs) : stack.map Frame.rel = dirs.map OpenDir.path ++ [[]] := by
  induction h with
  | root rel pushed ends mount => simp [rel]
  | skipped below rel pushed ends mount ih => simp [rel, ih]
  | listed below rel pushed ends mount kept fresh ih => simp [rel, ih]

lemma nodup (h : Nested identity stack ancestors dirs) : ancestors.Nodup := by
  induction h with
  | root rel pushed ends mount => cases strongId identity <;> simp
  | skipped below rel pushed ends mount ih => exact ih
  | @listed f rest ancestors d dirs below rel pushed ends mount kept fresh ih =>
    cases hd : strongId d.identity with
    | none => exact ih
    | some id => exact List.nodup_cons.mpr ⟨fresh id hd, ih⟩

lemma unwound_eq (h : Nested identity stack ancestors dirs) : unwound stack ancestors = [] := by
  induction h with
  | root rel pushed ends mount =>
    simp only [unwound, pushed]
    cases strongId identity <;> rfl
  | skipped below rel pushed ends mount ih =>
    rw [unwound, pushed]
    exact ih
  | @listed f rest ancestors d dirs below rel pushed ends mount kept fresh ih =>
    rw [unwound, pushed, strongId_tail]
    exact ih

lemma entries {rest : List (Frame Items)} (h : Nested identity (f :: rest) ancestors dirs) (items : Items) :
    Nested identity ({ f with entries := items } :: rest) ancestors dirs := by
  cases h with
  | root rel pushed ends mount => exact .root rel pushed ends mount
  | skipped below rel pushed ends mount => exact .skipped below rel pushed ends mount
  | listed below rel pushed ends mount kept fresh => exact .listed below rel pushed ends mount kept fresh

end Nested

lemma Nested.noted {identity : FileIdentity} {rest : List (Frame Items)} {ancestors : List ObjectId}
    {dirs : List OpenDir} (h : Nested identity (f :: rest) ancestors dirs) {note : MountNote}
    (hm : f.mount = some note) :
    Nested identity ({ f with mount := none } :: rest) ancestors (openDir dirs (.ok (noteEvent f.rel note))) := by
  cases h with
  | root rel pushed ends mount =>
    rw [hm] at mount
    cases mount
  | @skipped _ _ _ d dirs below rel pushed ends mount =>
    obtain ⟨hskip, hd⟩ := mount.resolve_right fun hn => by
      rw [hm] at hn
      cases hn.1
    obtain rfl : note = .skipped := Option.some.inj (hm.symm.trans hskip)
    exact .skipped below rel pushed ends (.inr ⟨rfl, rfl⟩)
  | @listed _ _ _ d dirs below rel pushed ends mount kept fresh =>
    cases note with
    | skipped => exact absurd hm mount
    | unknown => exact .listed below rel pushed ends (by simp) kept fresh

inductive Reached (o : Options) (identity : FileIdentity) (events : List RawEvent) (w : Walking) : Prop
  | going (here : w.done = false) (calm : ∀ e ∈ events, isFatal e = false) (order : WellNested [] events)
    (frames : Nested identity w.stack w.ancestors (opened events)) (depth : w.stack.length ≤ o.maxDepth + 1)
  | emptied (here : w.done = false) (calm : ∀ e ∈ events, isFatal e = false) (order : WellNested [] events)
    (stack : w.stack = []) (ancestors : w.ancestors = []) (closed : opened events = [])
  | halted (here : w.done = true) (before : List RawEvent) (last : RawEvent) (yielded : events = before ++ [last])
    (calm : ∀ e ∈ before, isFatal e = false) (fatal : isFatal last = true ∨ before = [] ∧ ∃ e, last = .error e)
    (stack : w.stack = []) (ancestors : w.ancestors = [])

section Reached

variable {o : Options} {identity : FileIdentity} {events : List RawEvent} {w w' : Walking}

lemma opened_concat (events : List RawEvent) (e : RawEvent) :
    opened (events ++ [e]) = openDir (opened events) e := by
  rw [opened, List.foldl_append]
  rfl

variable {e : RawEvent}

lemma calm_concat (h : ∀ e ∈ events, isFatal e = false) (he : isFatal e = false) :
    ∀ x ∈ events ++ [e], isFatal x = false := by
  intro x hx
  rcases List.mem_append.mp hx with hx | hx
  · exact h x hx
  · rw [List.mem_singleton.mp hx]
    exact he

lemma order_concat (h : WellNested [] events)
    (he : ∀ path, e = .ok (.dirEnd path) → ∃ d rest, opened events = d :: rest ∧ d.path = path) :
    WellNested [] (events ++ [e]) :=
  wellNested_append.mpr ⟨h, he, trivial⟩

lemma openDir_plain (h : plain e = true) (dirs : List OpenDir) :
    openDir dirs e = dirs ∧ isFatal e = false ∧ ∀ path, e ≠ .ok (.dirEnd path) := by
  rcases e with err | ev
  · exact ⟨rfl, by simpa [plain, isFatal] using h, by simp⟩
  · cases ev <;> first | exact ⟨rfl, rfl, by simp⟩ | cases h

lemma Nested.popped {rest : List (Frame Items)} {ancestors : List ObjectId}
    (h : Nested identity (f :: rest) ancestors (opened events)) (calm : ∀ e ∈ events, isFatal e = false)
    (order : WellNested [] events) (depth : rest.length ≤ o.maxDepth + 1) (hs : w'.stack = rest)
    (ha : w'.ancestors = if f.pushedAncestor then ancestors.tail else ancestors) (hd : w'.done = false) :
    Reached o identity (events ++ (if f.emitEnd then some (.ok (.dirEnd f.rel)) else none).toList) w' := by
  generalize ho : opened events = dirs at h
  cases h with
  | root rel pushed ends mount =>
    rw [ends, if_neg Bool.false_ne_true, Option.toList_none, List.append_nil]
    refine .emptied hd calm order hs ?_ ho
    rw [ha, pushed]
    cases strongId identity <;> rfl
  | @skipped _ _ _ d dirs below rel pushed ends mount =>
    rw [ends, if_pos rfl, Option.toList_some]
    refine .going hd (calm_concat calm rfl) (order_concat order ?_) ?_ (hs ▸ depth)
    · rintro path ⟨⟩
      exact ⟨d, dirs, ho, rel.symm⟩
    · rw [opened_concat, ho, hs, ha, pushed]
      exact below
  | @listed _ _ _ d dirs below rel pushed ends mount kept fresh =>
    rw [ends, if_pos rfl, Option.toList_some]
    refine .going hd (calm_concat calm rfl) (order_concat order ?_) ?_ (hs ▸ depth)
    · rintro path ⟨⟩
      exact ⟨d, dirs, ho, rel.symm⟩
    · rw [opened_concat, ho, hs, ha, pushed, strongId_tail]
      exact below

lemma Move.reached {event : Option RawEvent} (move : Move o w event w') (hd : w.done = false)
    (h : Reached o identity events w) : Reached o identity (events ++ event.toList) w' := by
  cases h with
  | halted here before last yielded calm fatal stack ancestors =>
    rw [hd] at here
    cases here
  | emptied here calm order stack ancestors closed =>
    cases move with
    | failed fatal stack' ancestors' done =>
      refine .halted done events _ rfl calm (.inl fatal) stack' ?_
      rw [ancestors', stack, ancestors]
      rfl
    | noted top | popped top | passed top | entered top =>
      rw [stack] at top
      cases top
  | going here calm order frames depth =>
    cases move with
    | @noted f rest note _ top mount stack ancestors done =>
      have hlen : w'.stack.length ≤ o.maxDepth + 1 := by
        rw [stack]
        rw [top] at depth
        exact depth
      have hcalm : isFatal (.ok (noteEvent f.rel note)) = false := rfl
      refine .going done (calm_concat calm hcalm) (order_concat order fun path he => ?_) ?_ hlen
      · cases note <;> cases he
      · rw [Option.toList_some, opened_concat, stack, ancestors]
        rw [top] at frames
        exact frames.noted mount
    | @popped f rest _ top mount stack ancestors done =>
      rw [top] at frames depth
      exact frames.popped calm order (Nat.le_of_succ_le depth) stack ancestors done
    | failed fatal stack ancestors done =>
      refine .halted done events _ rfl calm (.inl fatal) stack ?_
      rw [ancestors]
      exact frames.unwound_eq
    | @passed f rest item items event _ top mount entries stack ancestors done kind =>
      have hlen : w'.stack.length ≤ o.maxDepth + 1 := by
        rw [stack]
        rw [top] at depth
        exact depth
      rw [top] at frames
      have hframes := frames.entries items
      rw [← stack, ← ancestors] at hframes
      cases event with
      | none =>
        rw [Option.toList_none, List.append_nil]
        exact .going done calm order hframes hlen
      | some e =>
        obtain ⟨hopen, hcalm, hend⟩ := openDir_plain (kind e rfl) (opened events)
        refine .going done (calm_concat calm hcalm) (order_concat order fun path he => absurd he (hend path)) ?_
          hlen
        rw [Option.toList_some, opened_concat, hopen]
        exact hframes
    | @entered f rest item items g identity' _ top mount entries room ends stack done ancestors =>
      have hlen : w'.stack.length ≤ o.maxDepth + 1 := by
        rw [top] at room
        rw [stack]
        exact Nat.succ_le_succ room
      rw [top] at frames
      have hframes := frames.entries items
      refine .going done (calm_concat calm rfl) (order_concat order fun path he => by cases he) ?_ hlen
      rw [Option.toList_some, opened_concat, stack]
      rcases ancestors with ⟨hmount, hpushed, hsame⟩ | ⟨hmount, hpushed, hfresh, hmore⟩
      · rw [hsame]
        exact .skipped hframes rfl hpushed ends (.inl ⟨hmount, rfl⟩)
      · rw [hmore]
        exact .listed (d := ⟨g.rel, identity', false⟩) hframes rfl hpushed ends hmount rfl hfresh

end Reached

def Progress.events : Progress → List RawEvent
  | .going events _ | .ended events _ | .stuck events => events

def Progress.walking : Progress → Option Walking
  | .going _ w | .ended _ w => some w
  | .stuck _ => none

inductive Sane (o : Options) (identity : FileIdentity) : Progress → Prop
  | going {events w} (reached : Reached o identity events w) : Sane o identity (.going events w)
  | ended {events w} (reached : Reached o identity events w) (finished : w.done = true ∨ w.stack = []) :
    Sane o identity (.ended events w)
  | stuck {events} (reached : events = [] ∨ ∃ w, Reached o identity events w) : Sane o identity (.stuck events)

section Progress

variable (answers : ℕ → Answers) (o : Options) (identity : FileIdentity)

lemma start_run (a : Answers) : (start a.lister (startAt identity)).run = match a.listed with
    | none => none
    | some (.ok entries) => some (.ok (.ok (), { startAt identity with
        started := true, stack := [⟨[], entries, (strongId identity).isSome, false, none⟩] }))
    | some (.error (.listing cause)) => some (.ok (.error ⟨[], cause, false⟩, { startAt identity with
        started := true, ancestors := [], done := true }))
    | some (.error (.fatal cause)) => some (.ok (.error ⟨[], cause, true⟩, { startAt identity with
        started := true, ancestors := [], done := true })) := by
  have hstrong : (if (strongId identity).isSome = true then (strongId identity).toList.tail
      else (strongId identity).toList) = [] := by
    cases strongId identity <;> rfl
  rw [start, if_neg (by simp [startAt])]
  simp only [Answers.lister]
  rcases a.listed with _ | (cause | cause) | entries
  · rfl
  · simp [startAt]
    exact hstrong
  · simp [startAt]
    exact hstrong
  · simp [startAt]

lemma begin_sane (a : Answers) : Sane o identity (a.begin identity) := by
  rw [Answers.begin, start_run]
  rcases a.listed with _ | (cause | cause) | entries
  · exact .stuck (.inl rfl)
  · exact .going (.halted rfl [] _ rfl (fun _ he => by cases he) (.inr ⟨rfl, _, rfl⟩) rfl rfl)
  · exact .going (.halted rfl [] _ rfl (fun _ he => by cases he) (.inl rfl) rfl rfl)
  · exact .going (.going rfl (fun _ he => by cases he) trivial (.root rfl rfl rfl rfl) (Nat.le_add_left _ _))

lemma advance_sane (a : Answers) {p : Progress} (h : Sane o identity p) : Sane o identity (a.advance o p) := by
  cases h with
  | @going events w reached =>
    have hmove := nextStep_move (a := a) (o := o) w
    rw [Answers.advance]
    split
    · next r hr =>
      have hstep := hmove r hr
      rcases r with w' | ⟨_ | e, w'⟩
      · have hnext := hstep.2.reached hstep.1 reached
        rw [Option.toList_none, List.append_nil] at hnext
        exact .going hnext
      · obtain ⟨rfl, hend⟩ := hstep
        exact .ended reached hend
      · exact .going (hstep.2.reached hstep.1 reached)
    · exact .stuck (.inr ⟨w, reached⟩)
  | ended reached hend => exact .ended reached hend
  | stuck reached => exact .stuck reached

lemma progress_sane (n : ℕ) : Sane o identity (progress answers o identity n) := by
  induction n with
  | zero => exact begin_sane o identity (answers 0)
  | succ n ih => exact advance_sane o identity (answers (n + 1)) ih

end Progress

end Flux.Walk
