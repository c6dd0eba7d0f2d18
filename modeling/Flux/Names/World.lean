import Flux.Base.Ledger
import Flux.Names.Choose

/-! The directory an index stands for, changed only by the publications recorded in it. -/

namespace Flux.Names

open Base

variable {Name Target : Type} [LinearOrder Name]

def strongId : FileIdentity → Option ObjectId
  | .strong id => some id
  | _ => none

variable {id : ObjectId} {p : Publication Name Target}

lemma strongId_eq_some {i : FileIdentity} : strongId i = some id ↔ i = .strong id := by
  cases i <;> simp [strongId]

abbrev World (Name : Type) := Name → Option FileIdentity

structure Shows (w : World Name) (dir : Dir Name) : Prop where
  found : ∀ n i, w n = some i → ∃ m, dir n = .ok m ∧ m.identity = i
  vanished : ∀ n e, dir n = .error e → isNotFound e = true

def World.publish (w : World Name) (p : Publication Name Target) : World Name :=
  fun n => if n ∈ p.spellings then some p.published else w n

/-- A publication over the directory as it is before: a name that is there is its own stored name, and what is
replaced is the Strong identity the stored name has. -/
structure Publishes (w : World Name) (dir : Dir Name) (p : Publication Name Target) : Prop where
  shows : Shows w dir
  stored : w p.planned ≠ none → p.stored = some p.planned
  replaced : p.replaced = p.stored.bind fun s => (dir s).toOption.bind fun m => strongId m.identity

def Lawful (w : World Name) : List (Op Name Target × Dir Name) → Prop
  | [] => True
  | (.resolve _, dir) :: rest => Shows w dir ∧ Lawful w rest
  | (.owner _, dir) :: rest => Shows w dir ∧ Lawful w rest
  | (.publish p, dir) :: rest => Publishes w dir p ∧ Lawful (w.publish p) rest

def Pending.event (p : Pending Name) : Event ObjectId Name := ⟨p.replaced, strongId p.published, p.spellings⟩

def Publication.pending (p : Publication Name Target) : Pending Name := ⟨p.replaced, p.published, p.spellings⟩

def Publication.event (p : Publication Name Target) : Event ObjectId Name := p.pending.event

variable {n : Name} {dir : Dir Name} {w₀ : World Name}

lemma Publication.mem_spellings : n ∈ p.spellings ↔ p.stored = some n ∨ n = p.planned := by
  rw [Publication.spellings]
  cases p.stored with
  | none => simp
  | some s =>
    by_cases hs : s = p.planned
    · simp only [if_pos hs, List.mem_singleton, Option.some.injEq]
      constructor
      · rintro rfl
        exact .inl rfl
      · rintro (rfl | rfl)
        · rfl
        · exact hs.symm
    · simp [if_neg hs, eq_comm]

variable {w : World Name}

omit [LinearOrder Name] in
lemma Shows.identity (h : Shows w dir) {i : FileIdentity} {m : Metadata} (hn : w n = some i) (hm : dir n = .ok m) :
    m.identity = i := by
  obtain ⟨m', hm', hi⟩ := h.found n i hn
  rw [hm] at hm'
  exact Except.ok.inj hm' ▸ hi

lemma Publishes.not_mem (h : Publishes w dir p) (hn : w n = some (.strong id)) (hr : p.replaced ≠ some id) :
    n ∉ p.spellings := by
  intro hmem
  apply hr
  have hstored : p.stored = some n := by
    rcases Publication.mem_spellings.mp hmem with hs | rfl
    · exact hs
    · exact h.stored (by simp [hn])
  obtain ⟨m, hm, hi⟩ := h.shows.found n _ hn
  simp [h.replaced, hstored, hm, Except.toOption, hi, strongId]

def World.named (w : World Name) (id : ObjectId) : Set Name := { n | w n = some (.strong id) }

structure Told (w₀ : World Name) (events : List (Event ObjectId Name)) (w : World Name) : Prop where
  accurate : ∀ id n, n ∈ Event.replay w₀.named events id → w n = some (.strong id)
  complete : ∀ id n, ¬ Event.Wiped events id → w n = some (.strong id) → n ∈ Event.replay w₀.named events id
  kept : ∀ id n, ¬ Event.Wiped events id → w₀ n = some (.strong id) → ∀ e ∈ events, n ∉ e.values

omit [LinearOrder Name] in
lemma Told.start (w₀ : World Name) : Told w₀ [] w₀ where
  accurate _ _ h := h
  complete _ _ _ h := h
  kept _ _ _ _ _ he := absurd he (List.not_mem_nil)

omit [LinearOrder Name] in
lemma Told.named {events : List (Event ObjectId Name)} (h : Told w₀ events w) (hw : ¬ Event.Wiped events id) :
    Event.replay w₀.named events id = w.named id :=
  Set.ext fun n => ⟨h.accurate id n, h.complete id n hw⟩

omit [LinearOrder Name] in
lemma Told.still {events : List (Event ObjectId Name)} (h : Told w₀ events w) (hw : ¬ Event.Wiped events id)
    (hn : w₀ n = some (.strong id)) : w n = some (.strong id) := by
  apply h.accurate id n
  rw [Event.replay_of_not_wiped _ hw]
  exact .inl hn

lemma Told.publish {events : List (Event ObjectId Name)} (h : Told w₀ events w) (hp : Publishes w dir p) :
    Told w₀ (events ++ [p.event]) (w.publish p) where
  accurate := by
    intro id n hn
    rw [Event.replay_append, Event.mem_post] at hn
    rcases hn with ⟨hn, hr⟩ | ⟨hk, hn⟩
    · have hw := h.accurate id n hn
      rw [World.publish, if_neg (hp.not_mem hw hr)]
      exact hw
    · have hi : p.published = .strong id := strongId_eq_some.mp hk
      have hs : n ∈ p.spellings := hn
      rw [World.publish, if_pos hs, hi]
  complete := by
    intro id n hw hn
    rw [Event.wiped_append, not_or] at hw
    rw [Event.replay_append, Event.mem_post]
    by_cases hs : n ∈ p.spellings
    · rw [World.publish, if_pos hs, Option.some.injEq] at hn
      exact .inr ⟨strongId_eq_some.mpr hn, hs⟩
    · rw [World.publish, if_neg hs] at hn
      exact .inl ⟨h.complete id n hw.1 hn, hw.2⟩
  kept := by
    intro id n hw hn e he
    rw [Event.wiped_append, not_or] at hw
    rcases List.mem_append.mp he with he | he
    · exact h.kept id n hw.1 hn e he
    · rw [List.mem_singleton] at he
      subst he
      exact hp.not_mem (h.still hw.1 hn) hw.2

structure Account (Name Target : Type) where
  first : World Name
  world : World Name
  events : List (Event ObjectId Name)
  owners : Name → Option Target
  learned : Name → Option ℕ
  nextSeq : ℕ

namespace Account

def start (w : World Name) : Account Name Target := ⟨w, w, [], fun _ => none, fun _ => none, 0⟩

def names (a : Account Name Target) (id : ObjectId) : Set Name := Event.replay a.first.named a.events id

def Wiped (a : Account Name Target) (id : ObjectId) : Prop := Event.Wiped a.events id

def learn (a : Account Name Target) : Option Name → Account Name Target
  | none => a
  | some s =>
    if a.learned s = none then
      { a with learned := Function.update a.learned s (some a.nextSeq), nextSeq := a.nextSeq + 1 }
    else a

def publish (a : Account Name Target) (p : Publication Name Target) : Account Name Target :=
  { a.learn p.stored with
    world := a.world.publish p
    events := a.events ++ [p.event]
    owners := p.spellings.foldl (fun o s => Function.update o s (some p.target)) a.owners }

@[simp]
lemma learn_first (a : Account Name Target) (s : Option Name) : (a.learn s).first = a.first := by
  unfold learn
  split
  · rfl
  · split <;> rfl

@[simp]
lemma publish_first (a : Account Name Target) (p : Publication Name Target) : (a.publish p).first = a.first :=
  learn_first a p.stored

variable {a : Account Name Target} {p : Publication Name Target}

lemma mem_names_publish {id : ObjectId} : n ∈ (a.publish p).names id ↔
      n ∈ a.names id ∧ p.replaced ≠ some id ∨ p.published = .strong id ∧ n ∈ p.spellings := by
  rw [names, publish_first]
  change n ∈ Event.replay _ (a.events ++ [p.event]) id ↔ _
  rw [Event.replay_append, Event.mem_post, ← strongId_eq_some]
  rfl

lemma wiped_publish {id : ObjectId} : (a.publish p).Wiped id ↔ a.Wiped id ∨ p.replaced = some id :=
  Event.wiped_append

structure Sound (a : Account Name Target) : Prop where
  told : Told a.first a.events a.world
  owned : ∀ n, a.owners n ≠ none → ∃ e ∈ a.events, n ∈ e.values

omit [LinearOrder Name] in
lemma sound_start (w : World Name) : (start w : Account Name Target).Sound :=
  ⟨Told.start w, fun _ h => absurd rfl h⟩

lemma foldl_update_of_not_mem (target : Target) {l : List Name} (h : n ∉ l) (owners : Name → Option Target) :
    l.foldl (fun o s => Function.update o s (some target)) owners n = owners n := by
  induction l generalizing owners with
  | nil => rfl
  | cons s l ih =>
    rw [List.mem_cons, not_or] at h
    rw [List.foldl_cons, ih h.2, Function.update_of_ne h.1]

lemma Sound.publish (h : a.Sound) (hp : Publishes a.world dir p) : (a.publish p).Sound where
  told := by
    rw [publish_first]
    exact h.told.publish hp
  owned := by
    intro n hn
    by_cases hs : n ∈ p.spellings
    · exact ⟨p.event, List.mem_append_right _ (List.mem_singleton_self _), hs⟩
    · have howner : (a.publish p).owners n = a.owners n := foldl_update_of_not_mem p.target hs a.owners
      rw [howner] at hn
      obtain ⟨e, he, hne⟩ := h.owned n hn
      exact ⟨e, List.mem_append_left _ he, hne⟩

omit [LinearOrder Name] in
lemma Sound.unowned (h : a.Sound) {id : ObjectId} (hw : ¬ a.Wiped id) (hn : a.first n = some (.strong id)) :
    a.owners n = none := by
  by_contra howner
  obtain ⟨e, he, hne⟩ := h.owned n howner
  exact h.told.kept id n hw hn e he hne

variable [DecidableEq Target]

def Answers (a : Account Name Target) (dir : Dir Name) (planned : Name) (r : Answer Name) : Prop :=
  if a.world planned ≠ none then r = (dir planned).map fun m => .ok (.entry planned m)
  else match dir planned with
    | .error e => r = if isNotFound e then .ok (.ok .absent) else .error e
    | .ok m =>
      match m.identity with
      | .strong id =>
        ∃ l : List Name, l.Nodup ∧ (∀ n, n ∈ l ↔ n ∈ a.names id) ∧
          r = .ok ((choose l a.learned a.owners).map fun stored => .entry stored m)
      | _ => r = .ok (.error .unresolvable)

lemma Answers.unique {planned : Name} {r r' : Answer Name} (h : a.Answers dir planned r)
    (h' : a.Answers dir planned r') : r = r' := by
  unfold Answers at h h'
  split at h
  · rw [if_pos ‹_›] at h'
    exact h.trans h'.symm
  · rw [if_neg ‹_›] at h'
    cases hd : dir planned with
    | error e =>
      rw [hd] at h h'
      exact h.trans h'.symm
    | ok m =>
      rw [hd] at h h'
      cases hi : m.identity with
      | strong id =>
        simp only [hi] at h h'
        obtain ⟨l, hl, hmem, rfl⟩ := h
        obtain ⟨l', hl', hmem', rfl⟩ := h'
        rw [choose_eq_of_mem_iff hl hl' fun n => (hmem n).trans (hmem' n).symm]
      | weak id =>
        simp only [hi] at h h'
        exact h.trans h'.symm
      | unavailable =>
        simp only [hi] at h h'
        exact h.trans h'.symm

end Account

omit [LinearOrder Name] in
lemma statAll_of_shows (h : Shows w dir) (l : List Name) :
    ∃ found, statAll dir l = .ok found ∧ (∀ n m, (n, m) ∈ found ↔ n ∈ l ∧ dir n = .ok m) ∧
      (l.Nodup → (found.map Prod.fst).Nodup) := by
  induction l with
  | nil => exact ⟨[], rfl, by simp, by simp⟩
  | cons n l ih =>
    obtain ⟨found, hfound, hmem, hnodup⟩ := ih
    cases hn : dir n with
    | error e =>
      refine ⟨found, ?_, ?_, fun hl => hnodup hl.of_cons⟩
      · simp [statAll, hn, h.vanished n e hn, hfound]
      · intro n' m'
        rw [hmem, List.mem_cons]
        constructor
        · rintro ⟨hl, hd⟩
          exact ⟨.inr hl, hd⟩
        · rintro ⟨rfl | hl, hd⟩
          · simp [hn] at hd
          · exact ⟨hl, hd⟩
    | ok m =>
      refine ⟨(n, m) :: found, ?_, ?_, ?_⟩
      · simp [statAll, hn, hfound, Except.map]
      · intro n' m'
        rw [List.mem_cons, List.mem_cons, hmem, Prod.mk.injEq]
        constructor
        · rintro (⟨rfl, rfl⟩ | ⟨hl, hd⟩)
          · exact ⟨.inl rfl, hn⟩
          · exact ⟨.inr hl, hd⟩
        · rintro ⟨rfl | hl, hd⟩
          · rw [hn] at hd
            exact .inl ⟨rfl, (Except.ok.inj hd).symm⟩
          · exact .inr ⟨hl, hd⟩
      · intro hl
        rw [List.map_cons, List.nodup_cons]
        refine ⟨fun hin => ?_, hnodup hl.of_cons⟩
        obtain ⟨⟨n', m'⟩, hfirst, rfl⟩ := List.mem_map.mp hin
        exact (List.nodup_cons.mp hl).1 ((hmem n' m').mp hfirst).1

end Flux.Names
