import Flux.Verify.Record
import Flux.Walk.Run

/-! One side of a verification: the entries of its walk with one looked at ahead. -/

namespace Flux.Verify

open Base Walk

structure Side (ω : Type) where
  walk : Option ω
  fatal : Option FsError
  peeked : Option (Option RawEvent)
  held : Option Item
  done : Bool
  pruned : Option Path
  skipLinks : Bool
  filter : ControlFilter

namespace Side

variable {ω : Type}

def empty : Side ω := ⟨none, none, none, none, true, none, false, .none⟩

def ofStarted (skipLinks : Bool) (filter : ControlFilter) (w : ω) (fatal : Option FsError) : Side ω :=
  ⟨some w, fatal, none, none, fatal.isSome, none, skipLinks, filter⟩

section Pull

variable (next : Iter ω)

def pull (s : Side ω) : Attempt Empty (Option RawEvent × Side ω) :=
  match s.walk with
  | none => pure (none, s)
  | some w => do
    let (event, w) ← next w
    pure (event, { s with walk := some w })

def raw (s : Side ω) : Attempt Empty (Option RawEvent × Side ω) :=
  match s.peeked with
  | some event => pure (event, { s with peeked := none })
  | none => s.pull next

def peekRaw (s : Side ω) : Attempt Empty (Option RawEvent × Side ω) :=
  match s.peeked with
  | some event => pure (event, s)
  | none => do
    let (event, s) ← s.pull next
    pure (event, { s with peeked := some event })

def underPruned (s : Side ω) (path : Path) : Bool := ∃ p ∈ s.pruned, p <+: path

def offer (s : Side ω) (i : Item) : Side ω ⊕ (Option Item × Side ω) :=
  if s.underPruned i.path ∨ isControlState i s.filter then .inl s else .inr (some i, s)

def advanceStep (s : Side ω) : Attempt Empty (Side ω ⊕ (Option Item × Side ω)) := do
  let (event, s) ← s.raw next
  match event with
  | none => pure (.inr (none, { s with done := true }))
  | some (.error e) =>
    if e.fatal then pure (.inr (none, { s with fatal := some e.cause, done := true }))
    else pure (s.offer (item e.path .dir false (some e.cause)))
  | some (.ok (.dir path _)) => do
    let (following, s) ← s.peekRaw next
    if following = some (.ok (.mountSkipped path)) then
      pure ({ s with peeked := none }.offer (item path .dir true none))
    else pure (s.offer (item path .dir false none))
  | some (.ok (.file path)) => pure (s.offer (item path .file false none))
  | some (.ok (.symlink path)) =>
    if s.skipLinks then pure (.inl s) else pure (s.offer (item path .symlink false none))
  | some (.ok (.other path)) => pure (s.offer (item path .other false none))
  | some (.ok (.dirEnd _)) => pure (.inl s)
  | some (.ok (.mountSkipped _)) => pure (.inl s)
  | some (.ok (.mountUnknown _)) => pure (.inl s)

def advance (s : Side ω) : Attempt Empty (Option Item × Side ω) := loop (advanceStep next) s

def peek (s : Side ω) : Attempt Empty (Side ω) :=
  if s.held = none ∧ s.done = false then do
    let (i, s) ← s.advance next
    pure { s with held := i }
  else pure s

end Pull

def release (s : Side ω) : Side ω := { s with held := none }

def prune (s : Side ω) (path : Path) : Side ω :=
  { s with pruned := some path, held := s.held.filter fun i => ¬ path <+: i.path }

end Side

def visible (filter : ControlFilter) (i : Item) (rest : List Item) : List Item :=
  if isControlState i filter then rest else i :: rest

def scan (skipLinks : Bool) (filter : ControlFilter) : List RawEvent → List Item
  | [] => []
  | .error e :: rest =>
    if e.fatal then [] else visible filter (item e.path .dir false (some e.cause)) (scan skipLinks filter rest)
  | .ok (.dir path _) :: rest =>
    visible filter (item path .dir (rest.head? = some (.ok (.mountSkipped path))) none)
      (scan skipLinks filter rest)
  | .ok (.file path) :: rest => visible filter (item path .file false none) (scan skipLinks filter rest)
  | .ok (.symlink path) :: rest =>
    if skipLinks then scan skipLinks filter rest
    else visible filter (item path .symlink false none) (scan skipLinks filter rest)
  | .ok (.other path) :: rest => visible filter (item path .other false none) (scan skipLinks filter rest)
  | .ok (.dirEnd _) :: rest => scan skipLinks filter rest
  | .ok (.mountSkipped _) :: rest => scan skipLinks filter rest
  | .ok (.mountUnknown _) :: rest => scan skipLinks filter rest

def fatalOf : List RawEvent → Option FsError
  | [] => none
  | .error e :: rest => if e.fatal then some e.cause else fatalOf rest
  | .ok _ :: rest => fatalOf rest

def unpruned (pruned : Option Path) (items : List Item) : List Item :=
  items.filter fun i => ¬ ∃ p ∈ pruned, p <+: i.path

section Shows

variable {ω : Type} {next : Iter ω}

def Supplies (next : Iter ω) : Option ω → List RawEvent → Prop
  | none, events => events = []
  | some w, events => Yields next w events

def Pending (next : Iter ω) (s : Side ω) (events : List RawEvent) : Prop :=
  match s.peeked with
  | none => Supplies next s.walk events
  | some none => events = []
  | some (some e) => ∃ rest, events = e :: rest ∧ Supplies next s.walk rest

def Moved (s s' : Side ω) : Prop := ∃ walk peeked, s' = { s with walk := walk, peeked := peeked }

lemma Moved.refl (s : Side ω) : Moved s s := ⟨s.walk, s.peeked, rfl⟩

variable {s : Side ω}

lemma Moved.trans {t u : Side ω} (h : Moved s t) (h' : Moved t u) : Moved s u := by
  obtain ⟨walk, peeked, rfl⟩ := h
  obtain ⟨walk', peeked', rfl⟩ := h'
  exact ⟨walk', peeked', rfl⟩

lemma pull_returns {events : List RawEvent} (h : Supplies next s.walk events) :
    Returns (s.pull next) fun r => r.1 = events.head? ∧ ∃ walk, r.2 = { s with walk := walk } ∧
      ∀ e rest, events = e :: rest → Supplies next walk rest := by
  rw [Side.pull]
  cases hw : s.walk with
  | none =>
    rw [hw] at h
    have hnil : events = [] := h
    subst hnil
    exact .pure ⟨rfl, none, by rw [← hw], by simp⟩
  | some w =>
    rw [hw] at h
    have hyields : Yields next w events := h
    cases hyields with
    | nil hnext =>
      simp only [hnext, pure_bind]
      exact .pure ⟨rfl, _, rfl, by simp⟩
    | cons hnext hrest =>
      simp only [hnext, pure_bind]
      refine .pure ⟨rfl, _, rfl, ?_⟩
      intro e rest heq
      cases heq
      exact hrest

lemma raw_returns {events : List RawEvent} (h : Pending next s events) :
    Returns (s.raw next) fun r => r.1 = events.head? ∧ ∃ walk, r.2 = { s with walk := walk, peeked := none } ∧
      ∀ e rest, events = e :: rest → Supplies next walk rest := by
  rw [Side.raw]
  rw [Pending] at h
  cases hp : s.peeked with
  | none =>
    rw [hp] at h
    apply (pull_returns h).imp
    rintro r ⟨hr, walk, hside, hrest⟩
    exact ⟨hr, walk, by rw [hside, ← hp], hrest⟩
  | some event =>
    rw [hp] at h
    cases event with
    | none =>
      have hnil : events = [] := h
      subst hnil
      exact .pure ⟨rfl, s.walk, rfl, by simp⟩
    | some e =>
      obtain ⟨rest, rfl, hrest⟩ := h
      refine .pure ⟨rfl, s.walk, rfl, ?_⟩
      intro e' rest' heq
      cases heq
      exact hrest

lemma peekRaw_returns {events : List RawEvent} (hp : s.peeked = none) (h : Supplies next s.walk events) :
    Returns (s.peekRaw next) fun r => r.1 = events.head? ∧ Moved s r.2 ∧ Pending next r.2 events ∧
      ∀ e rest, events = e :: rest → Pending next { r.2 with peeked := none } rest := by
  rw [Side.peekRaw, hp]
  apply (pull_returns h).bind
  rintro ⟨event, s'⟩ ⟨rfl, walk, rfl, hrest⟩
  refine .pure ⟨rfl, ⟨walk, some events.head?, rfl⟩, ?_, ?_⟩
  · cases events with
    | nil => rfl
    | cons e rest => exact ⟨rest, rfl, hrest e rest rfl⟩
  · intro e rest heq
    exact hrest e rest heq

lemma unpruned_cons (pruned : Option Path) (i : Item) (rest : List Item) :
    unpruned pruned (i :: rest) =
      if ∃ p ∈ pruned, p <+: i.path then unpruned pruned rest else i :: unpruned pruned rest := by
  rw [unpruned, List.filter_cons]
  by_cases hp : ∃ p ∈ pruned, p <+: i.path
  · rw [if_neg (by simpa using hp), if_pos hp]
    rfl
  · rw [if_pos (by simpa using hp), if_neg hp]
    rfl

lemma unpruned_visible (pruned : Option Path) (filter : ControlFilter) (i : Item) (rest : List Item) :
    unpruned pruned (visible filter i rest) =
      if (∃ p ∈ pruned, p <+: i.path) ∨ isControlState i filter then unpruned pruned rest
      else i :: unpruned pruned rest := by
  by_cases hc : isControlState i filter
  · rw [visible, if_pos hc, if_pos (.inr hc)]
  · rw [visible, if_neg hc, unpruned_cons]
    simp only [hc, or_false, Bool.false_eq_true]

def Advanced (next : Iter ω) (s : Side ω) (events : List RawEvent) :
    Side ω ⊕ (Option Item × Side ω) → Prop
  | .inl s' => ∃ events', events'.length < events.length ∧ Moved s s' ∧ Pending next s' events' ∧
      scan s.skipLinks s.filter events' <:+ scan s.skipLinks s.filter events ∧ fatalOf events' = fatalOf events ∧
      unpruned s.pruned (scan s.skipLinks s.filter events') = unpruned s.pruned (scan s.skipLinks s.filter events)
  | .inr (some i, s') => ∃ events', Moved s s' ∧ Pending next s' events' ∧ fatalOf events' = fatalOf events ∧
      i :: scan s.skipLinks s.filter events' <:+ scan s.skipLinks s.filter events ∧
      ¬ (∃ p ∈ s.pruned, p <+: i.path) ∧
      unpruned s.pruned (scan s.skipLinks s.filter events) =
        i :: unpruned s.pruned (scan s.skipLinks s.filter events')
  | .inr (none, s') => unpruned s.pruned (scan s.skipLinks s.filter events) = [] ∧
      ∃ t, Moved s t ∧ s' = { t with done := true, fatal := (fatalOf events).or s.fatal }

variable {s' : Side ω} {raws : List Item}

lemma offer_advanced {events events' : List RawEvent} {i : Item} (hlt : events'.length < events.length)
    (hm : Moved s s') (hpend : Pending next s' events')
    (hscan : scan s.skipLinks s.filter events = visible s.filter i (scan s.skipLinks s.filter events'))
    (hf : fatalOf events' = fatalOf events) : Advanced next s events (s'.offer i) := by
  have hpruned : s'.pruned = s.pruned ∧ s'.filter = s.filter := by
    obtain ⟨walk, peeked, rfl⟩ := hm
    exact ⟨rfl, rfl⟩
  have hsuffix : scan s.skipLinks s.filter events' <:+ scan s.skipLinks s.filter events := by
    rw [hscan, visible]
    split
    · exact List.suffix_rfl
    · exact List.suffix_cons _ _
  have hun := unpruned_visible s.pruned s.filter i (scan s.skipLinks s.filter events')
  rw [← hscan] at hun
  rw [Side.offer, Side.underPruned, hpruned.1, hpruned.2]
  simp only [decide_eq_true_eq]
  by_cases hc : (∃ p ∈ s.pruned, p <+: i.path) ∨ isControlState i s.filter = true
  · rw [if_pos hc] at hun ⊢
    exact ⟨events', hlt, hm, hpend, hsuffix, hf, hun.symm⟩
  · rw [if_neg hc] at hun ⊢
    rw [not_or] at hc
    have hhead : scan s.skipLinks s.filter events = i :: scan s.skipLinks s.filter events' := by
      rw [hscan, visible, if_neg hc.2]
    exact ⟨events', hm, hpend, hf, hhead ▸ List.suffix_rfl, hc.1, hun⟩

lemma skip_advanced {e : RawEvent} {rest : List RawEvent} (hm : Moved s s') (hpend : Pending next s' rest)
    (hscan : scan s.skipLinks s.filter (e :: rest) = scan s.skipLinks s.filter rest)
    (hf : fatalOf rest = fatalOf (e :: rest)) : Advanced next s (e :: rest) (.inl s') :=
  ⟨rest, Nat.lt_succ_self _, hm, hpend, hscan ▸ List.suffix_rfl, hf, by rw [hscan]⟩

lemma advanceStep_returns {events : List RawEvent} (h : Pending next s events) :
    Returns (s.advanceStep next) (Advanced next s events) := by
  rw [Side.advanceStep]
  apply (raw_returns h).bind
  rintro ⟨event, s'⟩ ⟨rfl, walk, rfl, hrest⟩
  have hm : Moved s { s with walk := walk, peeked := none } := ⟨walk, none, rfl⟩
  cases events with
  | nil => exact .pure ⟨rfl, _, hm, rfl⟩
  | cons e rest =>
    have hpend : Pending next { s with walk := walk, peeked := none } rest := hrest e rest rfl
    have hlt : rest.length < (e :: rest).length := Nat.lt_succ_self _
    cases e with
    | error e =>
      simp only [List.head?_cons]
      cases hfatal : e.fatal with
      | true =>
        simp only [if_true]
        refine .pure ⟨?_, _, hm, ?_⟩
        · simp [scan, hfatal, unpruned]
        · simp [fatalOf, hfatal]
      | false =>
        simp only [Bool.false_eq_true, if_false]
        exact .pure (offer_advanced hlt hm hpend (by simp [scan, hfatal]) (by simp [fatalOf, hfatal]))
    | ok e =>
      cases e with
      | dir path id =>
        simp only [List.head?_cons]
        apply (peekRaw_returns rfl hpend).bind
        rintro ⟨following, s''⟩ ⟨rfl, hm', hpend', hskip⟩
        cases rest with
        | nil => exact .pure (offer_advanced hlt (hm.trans hm') hpend' rfl rfl)
        | cons e' rest =>
          simp only [List.head?_cons, Option.some.injEq]
          split
          · rename_i heq
            subst heq
            have hm'' : Moved s { s'' with peeked := none } := (hm.trans hm').trans ⟨s''.walk, none, rfl⟩
            refine .pure (offer_advanced (by simp only [List.length_cons]; omega) hm'' (hskip _ _ rfl) ?_ rfl)
            simp [scan]
          · rename_i hne
            refine .pure (offer_advanced hlt (hm.trans hm') hpend' ?_ rfl)
            simp [scan, hne]
      | file path => exact .pure (offer_advanced hlt hm hpend rfl rfl)
      | symlink path =>
        simp only [List.head?_cons]
        by_cases hlinks : s.skipLinks = true
        · rw [if_pos hlinks]
          exact .pure (skip_advanced hm hpend (by simp [scan, hlinks]) rfl)
        · rw [if_neg hlinks]
          exact .pure (offer_advanced hlt hm hpend (by simp [scan, hlinks]) rfl)
      | other path => exact .pure (offer_advanced hlt hm hpend rfl rfl)
      | dirEnd path => exact .pure (skip_advanced hm hpend rfl rfl)
      | mountSkipped path => exact .pure (skip_advanced hm hpend rfl rfl)
      | mountUnknown path => exact .pure (skip_advanced hm hpend rfl rfl)

lemma Moved.same (h : Moved s s') : s'.skipLinks = s.skipLinks ∧ s'.filter = s.filter ∧
    s'.pruned = s.pruned ∧ s'.held = s.held ∧ s'.done = s.done ∧ s'.fatal = s.fatal := by
  obtain ⟨walk, peeked, rfl⟩ := h
  exact ⟨rfl, rfl, rfl, rfl, rfl, rfl⟩

lemma advance_returns {events : List RawEvent} (h : Pending next s events) :
    Returns (s.advance next) fun r => Advanced next s events (.inr r) := by
  rw [Side.advance]
  refine Returns.loop (fun n s' => ∃ events', n = events'.length ∧ Moved s s' ∧ Pending next s' events' ∧
    scan s.skipLinks s.filter events' <:+ scan s.skipLinks s.filter events ∧ fatalOf events' = fatalOf events ∧
    unpruned s.pruned (scan s.skipLinks s.filter events') = unpruned s.pruned (scan s.skipLinks s.filter events))
      ?_ ⟨events, rfl, .refl s, h, List.suffix_rfl, rfl, rfl⟩
  rintro n s' ⟨events', rfl, hm, hpend, hsuffix, hf, hun⟩
  obtain ⟨hlinks, hfilter, hpruned, -, -, hfatal⟩ := hm.same
  apply (advanceStep_returns hpend).imp
  rintro (s'' | ⟨_ | i, s''⟩) hr
  · simp only [Advanced, hlinks, hfilter, hpruned] at hr
    obtain ⟨events'', hlt, hm', hpend', hsuffix', hf', hun'⟩ := hr
    exact ⟨_, hlt, events'', rfl, hm.trans hm', hpend', hsuffix'.trans hsuffix, hf'.trans hf, hun'.trans hun⟩
  · simp only [Advanced, hlinks, hfilter, hpruned, hfatal] at hr
    obtain ⟨hnil, t, hm', rfl⟩ := hr
    exact ⟨hun ▸ hnil, t, hm.trans hm', by rw [hf]⟩
  · simp only [Advanced, hlinks, hfilter, hpruned] at hr
    obtain ⟨events'', hm', hpend', hf', hsuffix', hnot, hun'⟩ := hr
    exact ⟨events'', hm.trans hm', hpend', hf'.trans hf, hsuffix'.trans hsuffix, hnot, hun ▸ hun'⟩

def Shows (next : Iter ω) (s : Side ω) (raws : List Item) (fatal : Option FsError) : Prop :=
  (∀ i ∈ s.held, ¬ ∃ p ∈ s.pruned, p <+: i.path) ∧
    ((s.done = true ∧ s.held = none ∧ raws = [] ∧ s.fatal = fatal) ∨
      (s.done = false ∧ s.fatal = none ∧ ∃ events, Pending next s events ∧
        raws = s.held.toList ++ scan s.skipLinks s.filter events ∧ fatalOf events = fatal))

structure Peeked (next : Iter ω) (s : Side ω) (raws : List Item) (fatal : Option FsError) : Prop where
  shows : Shows next s raws fatal
  held : s.held = (unpruned s.pruned raws).head?
  fatal : s.fatal = if unpruned s.pruned raws = [] then fatal else none
  drained : unpruned s.pruned raws = [] → raws = []

lemma peek_returns {fatal : Option FsError} (h : Shows next s raws fatal) :
    Returns (s.peek next) fun s' => ∃ raws', Peeked next s' raws' fatal ∧ s'.pruned = s.pruned ∧ raws' <:+ raws ∧
      unpruned s.pruned raws' = unpruned s.pruned raws := by
  obtain ⟨hheld, hcase⟩ := h
  rw [Side.peek]
  obtain ⟨hdone, hnone, rfl, hfatal⟩ | ⟨hdone, hnofatal, events, hpend, rfl, hf⟩ := hcase
  · rw [if_neg (by simp [hdone])]
    refine .pure ⟨[], ⟨⟨hheld, .inl ⟨hdone, hnone, rfl, hfatal⟩⟩, hnone, ?_, fun _ => rfl⟩, rfl,
      List.suffix_rfl, rfl⟩
    simp [unpruned, hfatal]
  · cases hh : s.held with
    | some i =>
      rw [if_neg (by simp)]
      have hnot := hheld i hh
      have hun : unpruned s.pruned (i :: scan s.skipLinks s.filter events) =
          i :: unpruned s.pruned (scan s.skipLinks s.filter events) := by rw [unpruned_cons, if_neg hnot]
      refine .pure ⟨i :: scan s.skipLinks s.filter events,
        ⟨⟨hheld, .inr ⟨hdone, hnofatal, events, hpend, ?_, hf⟩⟩, ?_, ?_, ?_⟩, rfl, List.suffix_rfl, rfl⟩
      · rw [hh]
        rfl
      · rw [hh, hun]
        rfl
      · rw [hun, if_neg (List.cons_ne_nil _ _), hnofatal]
      · intro hnil
        exact absurd (hun.symm.trans hnil) (List.cons_ne_nil _ _)
    | none =>
      rw [if_pos ⟨rfl, hdone⟩]
      apply (advance_returns hpend).bind
      rintro ⟨i, s'⟩ hr
      cases i with
      | none =>
        obtain ⟨hnil, t, hm, rfl⟩ := hr
        obtain ⟨-, -, hpruned, hheld', -, hfatal'⟩ := hm.same
        refine .pure ⟨[], ⟨⟨by simp, .inl ⟨rfl, rfl, rfl, ?_⟩⟩, ?_, ?_, fun _ => rfl⟩, hpruned,
          List.nil_suffix, ?_⟩
        · simp [hnofatal, hf]
        · rfl
        · simp [unpruned, hnofatal, hf]
        · rw [Option.toList_none, List.nil_append, hnil]
          rfl
      | some i =>
        obtain ⟨events', hm, hpend', hf', hsuffix, hnot, hun⟩ := hr
        obtain ⟨hlinks, hfilter, hpruned, -, hdone', hfatal'⟩ := hm.same
        have hun' : unpruned s.pruned (i :: scan s.skipLinks s.filter events') =
            i :: unpruned s.pruned (scan s.skipLinks s.filter events') := by rw [unpruned_cons, if_neg hnot]
        refine .pure ⟨i :: scan s.skipLinks s.filter events',
          ⟨⟨?_, .inr ⟨hdone'.trans hdone, hfatal'.trans hnofatal, events',
          ?_, ?_, hf'.trans hf⟩⟩, ?_, ?_, ?_⟩, hpruned, hsuffix, hun'.trans hun.symm⟩
        · intro j hj
          cases hj
          rwa [hpruned]
        · obtain ⟨walk, peeked, rfl⟩ := hm
          exact hpend'
        · simp [hlinks, hfilter]
        · simp only [hpruned, hun', List.head?_cons]
        · simp only [hpruned, hun', List.cons_ne_nil, if_false, hfatal', hnofatal]
        · intro hnil
          simp only [hpruned, hun'] at hnil
          exact absurd hnil (List.cons_ne_nil _ _)

lemma Peeked.release {fatal : Option FsError} {i : Item} {rest : List Item} (h : Peeked next s raws fatal)
    (hi : unpruned s.pruned raws = i :: rest) :
    ∃ raws', raws = i :: raws' ∧ Shows next s.release raws' fatal ∧ unpruned s.pruned raws' = rest := by
  obtain ⟨⟨hnot, hcase⟩, hheld, -, -⟩ := h
  rw [hi, List.head?_cons] at hheld
  obtain ⟨-, hnone, -, -⟩ | ⟨hdone, hnofatal, events, hpend, rfl, hf⟩ := hcase
  · rw [hheld] at hnone
    cases hnone
  · rw [hheld] at hi ⊢
    refine ⟨_, rfl, ⟨by simp [Side.release], .inr ⟨hdone, hnofatal, events, hpend, rfl, hf⟩⟩, ?_⟩
    rw [Option.toList_some, List.singleton_append, unpruned_cons, if_neg (hnot i hheld)] at hi
    exact (List.cons.inj hi).2

lemma Shows.prune {fatal : Option FsError} {path : Path} (h : Shows next s raws fatal)
    (hold : ∀ i ∈ raws, ∀ p ∈ s.pruned, p <+: i.path → path <+: i.path) :
    ∃ raws', Shows next (s.prune path) raws' fatal ∧ raws' <:+ raws ∧
      unpruned (some path) raws' = unpruned (some path) (unpruned s.pruned raws) := by
  have hun : unpruned (some path) raws = unpruned (some path) (unpruned s.pruned raws) := by
    rw [unpruned, unpruned, unpruned, List.filter_filter]
    apply List.filter_congr
    intro i hi
    have hi' := hold i hi
    by_cases hp : path <+: i.path
    · simp [hp]
    · have hnone : ∀ p, s.pruned = some p → ¬ p <+: i.path := fun p hsome hle => hp (hi' p hsome hle)
      simp [hp]
      exact hnone
  obtain ⟨hnot, hcase⟩ := h
  have hheld : ∀ i ∈ (s.prune path).held, ¬ ∃ p ∈ (s.prune path).pruned, p <+: i.path := by
    intro i hi
    obtain ⟨-, hi⟩ := Option.filter_eq_some_iff.mp hi
    simpa [Side.prune] using hi
  obtain ⟨hdone, hnone, rfl, hfatal⟩ | ⟨hdone, hnofatal, events, hpend, rfl, hf⟩ := hcase
  · refine ⟨[], ⟨hheld, .inl ⟨hdone, ?_, rfl, hfatal⟩⟩, List.suffix_rfl, hun⟩
    rw [Side.prune, hnone]
    rfl
  · refine ⟨(s.prune path).held.toList ++ scan s.skipLinks s.filter events,
      ⟨hheld, .inr ⟨hdone, hnofatal, events, hpend, rfl, hf⟩⟩, ?_, ?_⟩
    · cases hh : s.held with
      | none => simp [Side.prune, hh]
      | some i =>
        by_cases hp : path <+: i.path
        · simp [Side.prune, hh, hp, Option.filter]
        · simp [Side.prune, hh, hp, Option.filter]
    · rw [← hun]
      cases hh : s.held with
      | none => simp [Side.prune, hh]
      | some i =>
        by_cases hp : path <+: i.path
        · simp [Side.prune, hh, hp, Option.filter, unpruned]
        · simp [Side.prune, hh, hp, Option.filter]

end Shows

end Flux.Verify
