import Flux.Walk.Seen

namespace Flux.Walk

open Base

abbrev Iter (ω : Type) : Type := ω → Attempt Empty (Option RawEvent × ω)

inductive Yields {ω : Type} (next : Iter ω) : ω → List RawEvent → Prop
  | nil {w w' : ω} : next w = pure (none, w') → Yields next w []
  | cons {w w' : ω} {event : RawEvent} {rest : List RawEvent} : next w = pure (some event, w') →
    Yields next w' rest → Yields next w (event :: rest)

structure Level where
  rel : Path
  mount : Option MountNote
  emitEnd : Bool
  entries : SeenList

def noteEvents (path : Path) : Option MountNote → List RawEvent
  | none => []
  | some .skipped => [.ok (.mountSkipped path)]
  | some .unknown => [.ok (.mountUnknown path)]

def endEvents (path : Path) (emitEnd : Bool) : List RawEvent := if emitEnd then [.ok (.dirEnd path)] else []

def Level.events (l : Level) : List RawEvent :=
  noteEvents l.rel l.mount ++ (l.entries.events l.rel ++ endEvents l.rel l.emitEnd)

def pending (levels : List Level) : List RawEvent := levels.flatMap Level.events

lemma pending_cons (l : Level) (levels : List Level) : pending (l :: levels) = l.events ++ pending levels := rfl

def SeenList.length : SeenList → ℕ
  | .nil => 0
  | .broken _ => 0
  | .cons _ _ _ rest => rest.length + 1

def rank (levels : List Level) : ℕ := (levels.map fun l => l.entries.length + 1).sum

lemma enter_eq {σ E : Type} (cfg : Config) (lister : Lister σ E) (w : State σ E) (rel : Path) :
    enter cfg lister w rel = match gate cfg rel w.stack.length w.ancestors with
      | .fails cause => pure (.error ⟨rel, cause, false⟩, w)
      | .skip id => pure (.ok (.dir rel id),
          { w with stack := ⟨rel, lister.empty, false, true, some .skipped⟩ :: w.stack })
      | .pass id unknown => openListing lister w rel id (if unknown then some .unknown else none) := by
  have hcycle : ∀ id unknown, enterListing lister w rel id
    (if unknown = true then some MountNote.unknown else none) =
      match cycleGate w.ancestors id unknown with
      | .fails cause => pure (.error ⟨rel, cause, false⟩, w)
      | .skip id => pure (.ok (.dir rel id),
          { w with stack := ⟨rel, lister.empty, false, true, some .skipped⟩ :: w.stack })
      | .pass id unknown => openListing lister w rel id (if unknown then some .unknown else none) := by
    intro id unknown
    rw [enterListing, cycleGate]
    split <;> rfl
  rw [enter, gate]
  split
  · rfl
  · cases cfg.metadata rel with
    | error cause => rfl
    | ok m =>
      simp only []
      split
      · rfl
      · cases cfg.mounts with
        | cross => exact hcycle m.identity false
        | stay =>
          rcases cfg.mountRoot rel with cause | (_ | _ | _)
          · rfl
          · rfl
          · exact hcycle m.identity false
          · exact hcycle m.identity true

section Run

variable {σ E : Type} {cfg : Config} {lister : Lister σ E} {listing : Path → Listed}
  {Live : σ → Remainders E → Prop}

def Tracks (cfg : Config) (listing : Path → Listed) : List (Frame E) → List Level → List ObjectId → Prop
  | [], [], _ => True
  | f :: frames, l :: levels, ancestors => f.rel = l.rel ∧ f.mount = l.mount ∧ f.emitEnd = l.emitEnd ∧
      UnfoldsList cfg listing l.rel (frames.length + 1) ancestors l.entries ∧
      Tracks cfg listing frames levels (if f.pushedAncestor then ancestors.tail else ancestors)
  | _, _, _ => False

def live (frames : List (Frame E)) (levels : List Level) : Remainders E :=
  List.zipWith (fun f l => (f.entries, l.entries.items, l.entries.cause)) frames levels

structure Sees (cfg : Config) (listing : Path → Listed)
    (Live : σ → Remainders E → Prop) (w : State σ E) (levels : List Level) :
    Prop where
  started : w.started = true
  running : w.done = false
  tracks : Tracks cfg listing w.stack levels w.ancestors
  live : Live w.space (live w.stack levels)

def Steps (cfg : Config) (listing : Path → Listed) (Live : σ → Remainders E → Prop) (expected : List RawEvent)
    (r : RawEvent × State σ E) : Prop :=
  ∃ rest, expected = r.1 :: rest ∧ r.2.started = true ∧
    if isFatal r.1 then r.2.done = true else ∃ levels, Sees cfg listing Live r.2 levels ∧ pending levels = rest

variable {w : State σ E} {levels : List Level} {f : Frame E} {space : σ} {rel : Path}

variable {l : Level} {frames : List (Frame E)} {id : FileIdentity}

lemma Sees.push {ancestors : List ObjectId} (h : Sees cfg listing Live w levels) (hrel : f.rel = l.rel)
    (hmount : f.mount = l.mount) (hend : f.emitEnd = l.emitEnd)
    (hu : UnfoldsList cfg listing l.rel (w.stack.length + 1) ancestors l.entries)
    (hanc : (if f.pushedAncestor then ancestors.tail else ancestors) = w.ancestors)
    (hlive : Live space ((f.entries, l.entries.items, l.entries.cause) :: Walk.live w.stack levels)) :
    Sees cfg listing Live { w with stack := f :: w.stack, ancestors := ancestors, space := space }
    (l :: levels) where
  started := h.started
  running := h.running
  tracks := ⟨hrel, hmount, hend, hu, hanc.symm ▸ h.tracks⟩
  live := hlive

lemma Sees.cons (h : Sees cfg listing Live w levels) (hw : w.stack = f :: frames) :
    ∃ l rest, levels = l :: rest ∧ f.rel = l.rel ∧ f.mount = l.mount ∧ f.emitEnd = l.emitEnd ∧
      UnfoldsList cfg listing l.rel w.stack.length w.ancestors l.entries ∧
      Tracks cfg listing frames rest (if f.pushedAncestor then w.ancestors.tail else w.ancestors) ∧
      Live w.space ((f.entries, l.entries.items, l.entries.cause) :: Walk.live frames rest) := by
  have ht := h.tracks
  have hl := h.live
  rw [hw] at ht hl
  cases levels with
  | nil => exact ht.elim
  | cons l rest =>
    obtain ⟨hrel, hmount, hend, hu, ht⟩ := ht
    exact ⟨l, rest, rfl, hrel, hmount, hend, by rwa [hw], ht, hl⟩

lemma release_started (w : State σ E) : (release lister w).started = w.started := by
  have hfold : ∀ (frames : List (Frame E)) (w : State σ E),
      (frames.foldl (fun w f => popFrame lister w f w.stack.tail) w).started = w.started := by
    intro frames
    induction frames with
    | nil => intro w; rfl
    | cons f frames ih => intro w; exact ih _
  exact hfold w.stack w

lemma Steps.of_fatal {path : Path} {cause : FsError} {rest : List RawEvent} (hw : w.started = true) :
    Steps cfg listing Live (.error ⟨path, cause, true⟩ :: rest)
      (.error (endFatally lister w path cause).1, (endFatally lister w path cause).2) := by
  refine ⟨rest, rfl, ?_, ?_⟩
  · exact (release_started w).trans hw
  · rfl

lemma Steps.of_sees {event : RawEvent} (h : Sees cfg listing Live w levels) (he : isFatal event = false) :
    Steps cfg listing Live (event :: pending levels) (event, w) := by
  refine ⟨pending levels, rfl, h.started, ?_⟩
  simp only [he, Bool.false_eq_true, if_false]
  exact ⟨levels, h, rfl⟩

lemma strongId_tail (identity : FileIdentity) (ancestors : List ObjectId) :
    (if (strongId identity).isSome = true then ((strongId identity).toList ++ ancestors).tail
      else (strongId identity).toList ++ ancestors) = ancestors := by
  cases strongId identity <;> rfl

lemma noteEvents_unknown (path : Path) (unknown : Bool) :
    noteEvents path (if unknown = true then some .unknown else none) = unknownEvents path unknown := by
  cases unknown <;> rfl

lemma Sees.of_space (h : Sees cfg listing Live w levels) (hlive : Live space (Walk.live w.stack levels)) :
    Sees cfg listing Live { w with space := space } levels :=
  ⟨h.started, h.running, h.tracks, hlive⟩

def Round (cfg : Config) (listing : Path → Listed) (Live : σ → Remainders E → Prop) (levels : List Level) :
    State σ E ⊕ (Option RawEvent × State σ E) → Prop
  | .inl w =>
    ∃ levels', Sees cfg listing Live w levels' ∧ pending levels' = pending levels ∧ rank levels' < rank levels
  | .inr (some event, w) => Steps cfg listing Live (pending levels) (event, w)
  | .inr (none, _) => pending levels = []

lemma rank_cons (l : Level) (levels : List Level) : rank (l :: levels) = l.entries.length + 1 + rank levels := by
  simp [rank]

lemma nextStep_mount {note : MountNote} (h : Sees cfg listing Live w (l :: levels)) (hw : w.stack = f :: frames)
    (hmount : l.mount = some note) : Returns (nextStep cfg lister w) (Round cfg listing Live (l :: levels)) := by
  obtain ⟨stack, ancestors, excluded, space, started, rootPushed, done⟩ := w
  obtain ⟨frel, current, pushed, fend, fmount⟩ := f
  obtain ⟨rel, mount, emitEnd, seenList⟩ := l
  simp only at hw hmount
  subst hw hmount
  obtain ⟨hstarted, hrunning, ⟨hrel, hm, hend, hu, ht⟩, hlive⟩ := h
  simp only at hstarted hrunning hrel hm hend hu ht
  subst hstarted hrunning hrel hm hend
  have hsees : Sees cfg listing Live ⟨⟨frel, current, pushed, fend, none⟩ :: frames, ancestors,
    excluded, space, true,
      rootPushed, false⟩ (⟨frel, none, fend, seenList⟩ :: levels) := ⟨rfl, rfl, ⟨rfl, rfl, rfl, hu, ht⟩, hlive⟩
  simp only [nextStep, Bool.false_eq_true, if_false]
  cases note with
  | skipped => exact .pure (Steps.of_sees hsees rfl)
  | unknown => exact .pure (Steps.of_sees hsees rfl)

lemma next_done (hs : w.started = true) (hd : w.done = true) : next cfg lister w = pure (none, w) := by
  rw [next, start, if_pos hs, pure_bind]
  apply LoopsTo.loop_eq
  apply LoopsTo.leave
  rw [nextStep, if_pos hd]

lemma Yields.congr {ω : Type} {next : Iter ω} {w w' : ω} {events : List RawEvent}
    (h : Yields next w' events) (hnext : next w = next w') : Yields next w events := by
  cases h with
  | nil hw => exact .nil (hnext.trans hw)
  | cons hw hrest => exact .cons (hnext.trans hw) hrest

def fresh (identity : FileIdentity) (space : σ) : State σ E :=
  ⟨[], (strongId identity).toList, 0, space, false, (strongId identity).isSome, false⟩

lemma unstarted_eq {m : Metadata} (hm : cfg.metadata [] = .ok m) (hdir : m.fileType = .dir) :
    unstarted cfg space = .ok (fresh m.identity space : State σ E) := by
  simp [unstarted, hm, hdir, fresh]

def Started (cfg : Config) (lister : Lister σ E) (r : Except WalkError Unit × State σ E) : RootSeen → Prop
  | .failed cause => r.1 = .error ⟨[], cause, false⟩ ∧ r.2.done = true
  | .halted cause => r.1 = .error ⟨[], cause, true⟩ ∧ r.2.done = true
  | .entered entries => r.1 = .ok () ∧ Yields (next cfg lister) r.2 (untilFatal (entries.events []))

variable (hlister : Lawful Live lister listing)

include hlister

lemma openListing_failed {cause : FsError} {note : Option MountNote} (h : Sees cfg listing Live w levels)
    (fatal : Bool) (hl : listing rel = if fatal then .fatal cause else .refused cause) :
    Returns (openListing lister w rel id note)
      (Steps cfg listing Live (.error ⟨rel, cause, fatal⟩ :: pending levels)) := by
  rw [openListing]
  refine (hlister.list w.space _ rel h.live).bind ?_
  rintro ⟨listed, space⟩ hr
  rw [hl] at hr
  cases fatal with
  | false =>
    obtain ⟨rfl, hlive⟩ := hr
    exact .pure (Steps.of_sees (h.of_space hlive) rfl)
  | true =>
    obtain ⟨rfl, -⟩ := hr
    exact .pure (Steps.of_fatal h.started)

lemma openListing_entered {unknown : Bool} {entries : SeenList} (h : Sees cfg listing Live w levels)
    (hl : listing rel = .entries entries.items entries.cause)
    (hu : UnfoldsList cfg listing rel (w.stack.length + 1) ((strongId id).toList ++ w.ancestors) entries) :
    Returns (openListing lister w rel id (if unknown then some .unknown else none))
      (Steps cfg listing Live ((Seen.entered id unknown entries).events rel .dir ++ pending levels)) := by
  rw [openListing]
  refine (hlister.list w.space _ rel h.live).bind ?_
  intro r hr
  rw [hl] at hr
  obtain ⟨listed, space⟩ := r
  obtain ⟨e, rfl, hlive⟩ := hr
  have hsees := h.push (f := ⟨rel, e, (strongId id).isSome, true, if unknown then some .unknown else none⟩)
    (l := ⟨rel, if unknown then some .unknown else none, true, entries⟩) rfl rfl rfl hu
      (strongId_tail id w.ancestors) hlive
  have hsteps := Steps.of_sees hsees (rfl : isFatal (.ok (.dir rel id)) = false)
  rw [pending_cons, Level.events, noteEvents_unknown] at hsteps
  apply Returns.pure
  rw [Seen.events]
  exact hsteps

lemma enter_returns {seen : Seen} (h : Sees cfg listing Live w levels) (hkeep : cfg.select rel .dir = .keep)
    (hu : Unfolds cfg listing rel .dir w.stack.length w.ancestors seen) :
    Returns (enter cfg lister w rel) (Steps cfg listing Live (seen.events rel .dir ++ pending levels)) := by
  rw [enter_eq]
  cases seen with
  | dropped => exact absurd hkeep hu
  | leaf => exact absurd rfl hu.2
  | failed cause =>
    rw [Seen.events]
    rcases hu.2.2 with hgate | ⟨id, unknown, hgate, hl⟩
    · rw [hgate]
      exact .pure (Steps.of_sees h rfl)
    · rw [hgate]
      exact openListing_failed hlister h false hl
  | halted cause =>
    obtain ⟨id, unknown, hgate, hl⟩ := hu.2.2
    rw [hgate, Seen.events]
    exact openListing_failed hlister h true hl
  | skipped id =>
    rw [hu.2.2, Seen.events]
    have hsees := h.push (f := ⟨rel, lister.empty, false, true, some .skipped⟩)
      (l := ⟨rel, some .skipped, true, .nil⟩)
      rfl rfl rfl (by rw [UnfoldsList]; trivial) rfl (hlister.empty _ _ h.live)
    exact .pure (Steps.of_sees hsees rfl)
  | entered id unknown entries =>
    obtain ⟨-, -, hgate, hl, hentries⟩ := hu
    rw [hgate]
    exact openListing_entered hlister h hl hentries

lemma visit_returns {e : DirEntry} {seen : Seen} (h : Sees cfg listing Live w levels)
    (hone : isOneComponent e.name = true)
    (hu : Unfolds cfg listing (rel ++ [e.name]) e.fileType w.stack.length w.ancestors seen) :
    Returns (visit cfg lister w rel e) fun
      | .inl w' => seen.events (rel ++ [e.name]) e.fileType = [] ∧ Sees cfg listing Live w' levels
      | .inr (some event, w') =>
        Steps cfg listing Live (seen.events (rel ++ [e.name]) e.fileType ++ pending levels) (event, w')
      | .inr (none, _) => False := by
  rw [visit, if_neg (not_not.mpr hone)]
  simp only []
  cases hv : cfg.select (rel ++ [e.name]) e.fileType with
  | excluded =>
    have hseen : seen = .dropped := by
      cases seen <;> simp_all [Unfolds]
    subst hseen
    exact .pure ⟨rfl, h.started, h.running, h.tracks, h.live⟩
  | skipped =>
    have hseen : seen = .dropped := by
      cases seen <;> simp_all [Unfolds]
    subst hseen
    exact .pure ⟨rfl, h⟩
  | keep =>
    simp only []
    cases hft : e.fileType with
    | dir =>
      rw [hft] at hu hv
      refine (enter_returns hlister h hv hu).bind ?_
      intro r hr
      exact .pure hr
    | file =>
      have hseen : seen = .leaf := by
        cases seen <;> simp_all [Unfolds]
      subst hseen
      exact .pure (Steps.of_sees h rfl)
    | symlink =>
      have hseen : seen = .leaf := by
        cases seen <;> simp_all [Unfolds]
      subst hseen
      exact .pure (Steps.of_sees h rfl)
    | other =>
      have hseen : seen = .leaf := by
        cases seen <;> simp_all [Unfolds]
      subst hseen
      exact .pure (Steps.of_sees h rfl)

lemma popFrame_sees (h : Sees cfg listing Live w (l :: levels)) (hw : w.stack = f :: frames) :
    Sees cfg listing Live (popFrame lister w f frames) levels := by
  obtain ⟨l', levels', heq, -, -, -, -, ht, hlive⟩ := h.cons hw
  cases heq
  exact ⟨h.started, h.running, ht, hlister.drop _ _ _ _ _ hlive⟩

lemma nextStep_entries (h : Sees cfg listing Live w (l :: levels)) (hw : w.stack = f :: frames)
    (hmount : l.mount = none) : Returns (nextStep cfg lister w) (Round cfg listing Live (l :: levels)) := by
  obtain ⟨stack, ancestors, excluded, space, started, rootPushed, done⟩ := w
  obtain ⟨frel, current, pushed, fend, fmount⟩ := f
  obtain ⟨rel, mount, emitEnd, seenList⟩ := l
  simp only at hw hmount
  subst hw hmount
  obtain ⟨hstarted, hrunning, ⟨hrel, hm, hend, hu, ht⟩, hlive⟩ := h
  simp only at hstarted hrunning hrel hm hend hu ht
  subst hstarted hrunning hrel hm hend
  simp only [nextStep, Bool.false_eq_true, if_false]
  refine (hlister.next _ _ _ _ _ hlive).bind ?_
  rintro ⟨taken, entries⟩ hr
  -- the frame goes on with what the listing has left
  have hsees : ∀ rest : SeenList, UnfoldsList cfg listing frel (frames.length + 1) ancestors rest →
      Live space ((entries, rest.items, rest.cause) :: live frames levels) →
      Sees cfg listing Live ⟨⟨frel, entries, pushed, fend, none⟩ :: frames, ancestors, excluded, space,
        true, rootPushed, false⟩ (⟨frel, none, fend, rest⟩ :: levels) :=
    fun rest hrest hlive' => ⟨rfl, rfl, ⟨rfl, rfl, rfl, hrest, ht⟩, hlive'⟩
  cases seenList with
  | nil =>
    obtain ⟨rfl, hlive'⟩ := hr
    have hpop := popFrame_sees hlister (hsees .nil hu hlive') rfl
    cases fend with
    | true => exact .pure (Steps.of_sees hpop rfl)
    | false =>
      refine .pure ⟨levels, hpop, rfl, ?_⟩
      rw [rank_cons]
      omega
  | broken cause =>
    cases hr
    exact .pure (Steps.of_fatal rfl)
  | cons name fileType seen rest =>
    obtain ⟨⟨e, rfl, rfl, rfl⟩, hlive'⟩ := hr
    obtain ⟨hone, hseen, hrest⟩ := hu
    refine (visit_returns hlister (hsees rest hrest hlive') hone hseen).imp ?_
    have hpending : pending (⟨frel, none, fend, .cons e.name e.fileType seen rest⟩ :: levels) =
        seen.events (frel ++ [e.name]) e.fileType ++ pending (⟨frel, none, fend, rest⟩ :: levels) := by
      simp [pending_cons, Level.events, noteEvents, SeenList.events]
    rintro (w' | ⟨_ | event, w'⟩) hr
    · refine ⟨_, hr.2, ?_, ?_⟩
      · rw [hpending, hr.1, List.nil_append]
      · rw [rank_cons, rank_cons, SeenList.length]
        simp only
        omega
    · exact hr.elim
    · simp only [Round, hpending]
      exact hr

lemma nextStep_returns (h : Sees cfg listing Live w levels) :
    Returns (nextStep cfg lister w) (Round cfg listing Live levels) := by
  cases hw : w.stack with
  | nil =>
    have ht := h.tracks
    rw [hw] at ht
    cases levels with
    | nil =>
      rw [nextStep, h.running, hw]
      exact .pure rfl
    | cons l levels => exact ht.elim
  | cons f frames =>
    obtain ⟨l, rest, rfl, -⟩ := h.cons hw
    cases hmount : l.mount with
    | none => exact nextStep_entries hlister h hw hmount
    | some note => exact nextStep_mount h hw hmount

lemma next_returns (h : Sees cfg listing Live w levels) : Returns (next cfg lister w) fun
      | (some event, w') => Steps cfg listing Live (pending levels) (event, w')
      | (none, _) => pending levels = [] := by
  rw [next, start, if_pos h.started, pure_bind]
  refine Returns.loop (fun n w => ∃ levels', Sees cfg listing Live w levels' ∧ pending levels' = pending levels ∧
    rank levels' = n) ?_ ⟨levels, h, rfl, rfl⟩
  rintro n w ⟨levels', hw, hp, rfl⟩
  refine (nextStep_returns hlister hw).imp ?_
  rintro (w' | ⟨_ | event, w'⟩) hr
  · obtain ⟨levels'', hw', hp', hlt⟩ := hr
    exact ⟨_, hlt, levels'', hw', hp'.trans hp, rfl⟩
  · exact hp ▸ hr
  · exact hp ▸ hr

lemma yields_pending (h : Sees cfg listing Live w levels) :
    Yields (next cfg lister) w (untilFatal (pending levels)) := by
  generalize hn : pending levels = events
  induction events generalizing w levels with
  | nil =>
    obtain ⟨⟨taken, w'⟩, hnext, hr⟩ := next_returns hlister h
    cases taken with
    | none => exact .nil hnext
    | some event =>
      obtain ⟨rest, hrest, -⟩ := hr
      rw [hn] at hrest
      exact (List.cons_ne_nil _ _ hrest.symm).elim
  | cons e events ih =>
    obtain ⟨⟨taken, w'⟩, hnext, hr⟩ := next_returns hlister h
    cases taken with
    | none => exact (List.cons_ne_nil _ _ (hn.symm.trans hr)).elim
    | some event =>
      obtain ⟨rest, hrest, hs, hgo⟩ := hr
      cases hn.symm.trans hrest
      rw [untilFatal]
      split_ifs at hgo ⊢ with hf
      · exact .cons hnext (.nil (next_done hs hgo))
      · obtain ⟨levels', hsees, rfl⟩ := hgo
        exact .cons hnext (ih hsees rfl)

lemma start_returns {identity : FileIdentity} {seen : RootSeen} (hlive : Live space [])
    (hu : RootUnfolds cfg listing identity seen) :
    Returns (start lister (fresh identity space)) fun r => Started cfg lister r seen ∧ r.2.started = true := by
  simp only [start, fresh, Bool.false_eq_true, if_false]
  refine (hlister.list space [] [] hlive).bind ?_
  rintro ⟨listed, space'⟩ hr
  cases seen with
  | failed cause =>
    rw [show listing [] = .refused cause from hu] at hr
    obtain ⟨rfl, -⟩ := hr
    exact .pure ⟨⟨rfl, rfl⟩, rfl⟩
  | halted cause =>
    rw [show listing [] = .fatal cause from hu] at hr
    obtain ⟨rfl, -⟩ := hr
    exact .pure ⟨⟨rfl, rfl⟩, rfl⟩
  | entered entries =>
    obtain ⟨hl, hentries⟩ := hu
    rw [hl] at hr
    obtain ⟨e, rfl, hlive'⟩ := hr
    have hsees : Sees cfg listing Live ⟨[⟨[], e, (strongId identity).isSome, false, none⟩],
        (strongId identity).toList, 0, space', true, (strongId identity).isSome, false⟩
          [⟨[], none, false, entries⟩] :=
      ⟨rfl, rfl, ⟨rfl, rfl, rfl, hentries, trivial⟩, hlive'⟩
    have hyields := yields_pending hlister hsees
    simp only [pending, List.flatMap_cons, List.flatMap_nil, List.append_nil, Level.events, noteEvents, endEvents,
      Bool.false_eq_true, if_false, List.nil_append] at hyields
    exact .pure ⟨⟨rfl, hyields⟩, rfl⟩

theorem yields_of_unstarted {m : Metadata} {seen : RootSeen} (hlive : Live space [])
    (hm : cfg.metadata [] = .ok m) (hdir : m.fileType = .dir) (hu : RootUnfolds cfg listing m.identity seen) :
    ∃ w, unstarted cfg space = .ok w ∧ Yields (next cfg lister) w (untilFatal seen.events) := by
  refine ⟨_, unstarted_eq hm hdir, ?_⟩
  obtain ⟨⟨started, w⟩, hstart, hseen, hw⟩ := start_returns hlister hlive hu
  cases seen with
  | failed cause =>
    obtain ⟨rfl, hdone⟩ := hseen
    exact .cons (by rw [next, hstart, pure_bind]) (.nil (next_done hw hdone))
  | halted cause =>
    obtain ⟨rfl, hdone⟩ := hseen
    exact .cons (by rw [next, hstart, pure_bind]) (.nil (next_done hw hdone))
  | entered entries =>
    obtain ⟨rfl, hyields⟩ := hseen
    refine hyields.congr ?_
    rw [next, next, hstart, start, if_pos hw]

end Run

end Flux.Walk
