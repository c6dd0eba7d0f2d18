import Flux.Walk.Run

/-! The walk over a filesystem that may answer every call anew, whatever it answered before. -/

namespace Flux.Walk

open Base

abbrev Items := List (Except FsError DirEntry)

/-- The answers to the calls one step of the walk may make, and the verdict on its entry. A listing that never
ends is `none`. -/
structure Answers where
  metadata : Except FsError Metadata
  mountRoot : Except FsError MountRoot
  select : Verdict
  listed : Option (Except ListError Items)

structure Options where
  maxDepth : ℕ
  mounts : MountPolicy

def Answers.config (a : Answers) (o : Options) : Config :=
  ⟨fun _ => a.metadata, fun _ => a.mountRoot, fun _ _ => a.select, o.maxDepth, o.mounts⟩

def Answers.lister (a : Answers) : Lister Unit Items where
  list _ _ :=
    match a.listed with
    | some r => pure (r, ())
    | none => ExceptT.mk none
  next _ items := pure (items.head?, items.tail)
  drop _ _ := ()
  empty := []

abbrev Walking := State Unit Items

inductive Progress where
  | going (events : List RawEvent) (w : Walking)
  | ended (events : List RawEvent) (w : Walking)
  | stuck (events : List RawEvent)

def startAt (identity : FileIdentity) : Walking :=
  ⟨[], (strongId identity).toList, 0, (), false, (strongId identity).isSome, false⟩

def Answers.begin (a : Answers) (identity : FileIdentity) : Progress :=
  match (start a.lister (startAt identity)).run with
  | some (.ok (.ok (), w)) => .going [] w
  | some (.ok (.error e, w)) => .going [.error e] w
  | _ => .stuck []

def outcome (events : List RawEvent) : Walking ⊕ (Option RawEvent × Walking) → Progress
  | .inl w => .going events w
  | .inr (some e, w) => .going (events ++ [e]) w
  | .inr (none, w) => .ended events w

def Answers.advance (a : Answers) (o : Options) : Progress → Progress
  | .going events w =>
    match (nextStep (a.config o) a.lister w).run with
    | some (.ok r) => outcome events r
    | _ => .stuck events
  | p => p

def progress (answers : ℕ → Answers) (o : Options) (identity : FileIdentity) : ℕ → Progress
  | 0 => (answers 0).begin identity
  | n + 1 => (answers (n + 1)).advance o (progress answers o identity n)

def unwound : List (Frame Items) → List ObjectId → List ObjectId
  | [], ancestors => ancestors
  | f :: rest, ancestors => unwound rest (if f.pushedAncestor then ancestors.tail else ancestors)

def noteEvent (path : Path) : MountNote → WalkEvent
  | .skipped => .mountSkipped path
  | .unknown => .mountUnknown path

def plain : RawEvent → Bool
  | .ok (.file _) | .ok (.symlink _) | .ok (.other _) => true
  | .error e => !e.fatal
  | _ => false

inductive Move (o : Options) (w : Walking) : Option RawEvent → Walking → Prop
  | noted {f rest note w'} (here : w.stack = f :: rest) (mount : f.mount = some note)
    (stack : w'.stack = { f with mount := none } :: rest) (ancestors : w'.ancestors = w.ancestors)
      (done : w'.done = false) : Move o w (some (.ok (noteEvent f.rel note))) w'
  | popped {f rest w'} (here : w.stack = f :: rest) (mount : f.mount = none) (stack : w'.stack = rest)
    (ancestors : w'.ancestors = if f.pushedAncestor then w.ancestors.tail else w.ancestors)
      (done : w'.done = false) : Move o w (if f.emitEnd then some (.ok (.dirEnd f.rel)) else none) w'
  | failed {e w'} (fatal : e.fatal = true) (stack : w'.stack = [])
    (ancestors : w'.ancestors = unwound w.stack w.ancestors)
    (done : w'.done = true) : Move o w (some (.error e)) w'
  | passed {f rest item items event w'} (here : w.stack = f :: rest) (mount : f.mount = none)
    (entries : f.entries = item :: items) (stack : w'.stack = { f with entries := items } :: rest)
    (ancestors : w'.ancestors = w.ancestors) (done : w'.done = false) (kind : ∀ e, event = some e →
      plain e = true) : Move o w event w'
  | entered {f rest item items g identity w'} (here : w.stack = f :: rest) (mount : f.mount = none)
    (entries : f.entries = item :: items) (room : w.stack.length ≤ o.maxDepth) (ends : g.emitEnd = true)
    (stack : w'.stack = g :: { f with entries := items } :: rest) (done : w'.done = false)
    (ancestors : (g.mount = some .skipped ∧ g.pushedAncestor = false ∧ w'.ancestors = w.ancestors) ∨
      (g.mount ≠ some .skipped ∧ g.pushedAncestor = (strongId identity).isSome ∧
        (∀ id, strongId identity = some id → id ∉ w.ancestors) ∧
        w'.ancestors = (strongId identity).toList ++ w.ancestors)) :
    Move o w (some (.ok (.dir g.rel identity))) w'

def Stepped (o : Options) (w : Walking) : Walking ⊕ (Option RawEvent × Walking) → Prop
  | .inl w' => w.done = false ∧ Move o w none w'
  | .inr (some event, w') => w.done = false ∧ Move o w (some event) w'
  | .inr (none, w') => w' = w ∧ (w.done = true ∨ w.stack = [])

variable {ancestors : List ObjectId}

lemma gate_room {cfg : Config} {rel : Path} {depth : ℕ}
    (h : ∀ cause, gate cfg rel depth ancestors ≠ .fails cause) : depth ≤ cfg.maxDepth := by
  by_contra hn
  exact h depthError (by rw [gate, if_pos (Nat.lt_of_not_le hn)])

variable {identity : FileIdentity}

lemma cycleGate_pass {identity' : FileIdentity} {unknown unknown' : Bool}
    (h : cycleGate ancestors identity unknown = .pass identity' unknown') :
    ∀ id, strongId identity' = some id → id ∉ ancestors := by
  rw [cycleGate] at h
  split at h
  · cases h
  · next hn =>
    cases h
    intro id hid hmem
    rw [hid] at hn
    exact hn (decide_eq_true hmem)

lemma gate_pass {cfg : Config} {rel : Path} {depth : ℕ} {unknown : Bool}
    (h : gate cfg rel depth ancestors = .pass identity unknown) :
    ∀ id, strongId identity = some id → id ∉ ancestors := by
  rw [gate] at h
  split at h
  · cases h
  split at h
  · cases h
  split at h
  · cases h
  split at h
  · exact cycleGate_pass h
  split at h
  · cases h
  · cases h
  · exact cycleGate_pass h
  · exact cycleGate_pass h

section Moves

variable {a : Answers} {o : Options} {w w' : Walking}

lemma release_eq (w : Walking) : release a.lister w =
    { w with stack := [], ancestors := unwound w.stack w.ancestors } := by
  have hfold : ∀ (frames : List (Frame Items)) (w : Walking), w.stack = frames →
      frames.foldl (fun w f => popFrame a.lister w f w.stack.tail) w =
        { w with stack := [], ancestors := unwound frames w.ancestors } := by
    intro frames
    induction frames with
    | nil =>
      intro w hw
      rw [List.foldl_nil, unwound, ← hw]
    | cons f rest ih =>
      intro w hw
      rw [List.foldl_cons, ih _ (by simp [popFrame, hw])]
      rfl
  exact hfold w.stack w rfl

section Entry

variable {f : Frame Items} {rest : List (Frame Items)} {item : Except FsError DirEntry} {items : Items}
  (here : w.stack = f :: rest) (mount : f.mount = none) (entries : f.entries = item :: items) (hd : w.done = false)

include here in
lemma unwound_taken : unwound ({ f with entries := items } :: rest) w.ancestors = unwound w.stack w.ancestors := by
  rw [here]
  rfl

include here in
lemma endFatally_move (path : Path) (cause : FsError) :
    Move o w (some (.error (endFatally a.lister { w with stack := { f with entries := items } :: rest } path
      cause).1)) (endFatally a.lister { w with stack := { f with entries := items } :: rest } path cause).2 := by
  simp only [endFatally, release_eq]
  exact .failed rfl rfl (unwound_taken here) rfl

include here mount entries hd

lemma openListing_move (room : w.stack.length ≤ o.maxDepth) {rel : Path}
    (hid : ∀ id, strongId identity = some id → id ∉ w.ancestors) {note : Option MountNote}
    (hn : note ≠ some .skipped) :
    IfReturns (openListing a.lister { w with stack := { f with entries := items } :: rest } rel identity note)
      fun r => Move o w (some r.1) r.2 := by
  rw [openListing]
  cases hl : a.listed with
  | none =>
    have hlist : a.lister.list w.space rel = ExceptT.mk none := by simp only [Answers.lister, hl]
    rw [hlist]
    have hnone : IfReturns (ExceptT.mk none : Attempt Empty (Except ListError Items × Unit)) fun _ => False :=
      .none
    exact hnone.bind fun _ h => h.elim
  | some r =>
    have hlist : a.lister.list w.space rel = pure (r, ()) := by simp only [Answers.lister, hl]
    rw [hlist]
    rw [pure_bind]
    rcases r with (cause | cause) | items'
    · exact .pure (.passed here mount entries rfl rfl hd fun e he => by cases he; rfl)
    · exact .pure (endFatally_move here rel cause)
    · exact .pure (.entered (g := ⟨rel, items', (strongId identity).isSome, true, note⟩) here mount
        entries room rfl rfl hd (.inr ⟨hn, rfl, hid, rfl⟩))

lemma passed_move {event : Option RawEvent} (hp : ∀ e, event = some e → plain e = true) (excluded : ℕ) :
    Move o w event { w with stack := { f with entries := items } :: rest, excluded := excluded } :=
  .passed here mount entries rfl rfl hd hp

lemma enter_move (rel : Path) :
    IfReturns (enter (a.config o) a.lister { w with stack := { f with entries := items } :: rest } rel)
      fun r => Move o w (some r.1) r.2 := by
  have hlen : ({ f with entries := items } :: rest).length = w.stack.length := by
    rw [here]
    rfl
  rw [enter_eq]
  simp only [hlen]
  cases hg : gate (a.config o) rel w.stack.length w.ancestors with
  | fails cause => exact .pure (passed_move here mount entries hd (fun e he => by cases he; rfl) _)
  | skip identity =>
    have room : w.stack.length ≤ o.maxDepth := gate_room fun cause hf => by
      rw [hg] at hf
      cases hf
    exact .pure (.entered (g := ⟨rel, [], false, true, some .skipped⟩) here mount entries room rfl rfl hd
      (.inl ⟨rfl, rfl, rfl⟩))
  | pass identity unknown =>
    have room : w.stack.length ≤ o.maxDepth := gate_room fun cause hf => by
      rw [hg] at hf
      cases hf
    exact openListing_move here mount entries hd room (gate_pass hg) (by cases unknown <;> simp)

lemma visit_move (rel : Path) (e : DirEntry) :
    IfReturns (visit (a.config o) a.lister { w with stack := { f with entries := items } :: rest } rel e)
      (Stepped o w) := by
  have hpassed : ∀ event excluded, (∀ e, event = some e → plain e = true) →
      Move o w event { w with stack := { f with entries := items } :: rest, excluded := excluded } :=
    fun event excluded hp => passed_move here mount entries hd hp excluded
  rw [visit]
  split
  · exact .none
  dsimp only [Answers.config]
  cases a.select with
  | excluded => exact .pure ⟨hd, hpassed none _ fun _ he => by cases he⟩
  | skipped => exact .pure ⟨hd, hpassed none _ fun _ he => by cases he⟩
  | keep =>
    cases e.fileType with
    | file =>
      refine .pure ⟨hd, hpassed _ _ fun e he => ?_⟩
      cases he
      rfl
    | symlink =>
      refine .pure ⟨hd, hpassed _ _ fun e he => ?_⟩
      cases he
      rfl
    | other =>
      refine .pure ⟨hd, hpassed _ _ fun e he => ?_⟩
      cases he
      rfl
    | dir => exact (enter_move here mount entries hd _).bind fun r hr => .pure ⟨hd, hr⟩

end Entry

lemma nextStep_move (w : Walking) : IfReturns (nextStep (a.config o) a.lister w) (Stepped o w) := by
  rw [nextStep]
  split
  · next hd => exact .pure ⟨rfl, .inl hd⟩
  next hd =>
  have hd : w.done = false := Bool.not_eq_true _ |>.mp hd
  split
  · next hs => exact .pure ⟨rfl, .inr hs⟩
  next f rest here =>
  cases hm : f.mount with
  | some note =>
    refine .pure ⟨hd, ?_⟩
    cases note <;> exact .noted here hm rfl rfl hd
  | none =>
    dsimp only
    have hnext : a.lister.next w.space f.entries = pure (f.entries.head?, f.entries.tail) := rfl
    rw [hnext, pure_bind]
    cases he : f.entries with
    | nil =>
      have hmove : Move o w (if f.emitEnd then some (.ok (.dirEnd f.rel)) else none)
          (popFrame a.lister { w with stack := { f with entries := [] } :: rest } { f with entries := [] } rest) :=
        .popped here hm rfl rfl hd
      rw [hm] at hmove
      cases hend : f.emitEnd with
      | false =>
        rw [hend] at hmove
        exact .pure ⟨hd, hmove⟩
      | true =>
        rw [hend] at hmove
        exact .pure ⟨hd, hmove⟩
    | cons item items =>
      cases item with
      | error cause => exact .pure ⟨hd, endFatally_move here f.rel cause⟩
      | ok e =>
        have hvisit := visit_move (a := a) (o := o) here hm he hd f.rel e
        rw [hm] at hvisit
        exact hvisit

end Moves

end Flux.Walk
