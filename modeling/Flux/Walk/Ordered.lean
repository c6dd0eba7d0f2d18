import Flux.Walk.Seen

namespace Flux.Walk

open Base

def eventPath : RawEvent → Path
  | .ok (.dir path _) => path
  | .ok (.file path) => path
  | .ok (.symlink path) => path
  | .ok (.other path) => path
  | .ok (.dirEnd path) => path
  | .ok (.mountSkipped path) => path
  | .ok (.mountUnknown path) => path
  | .error e => e.path

def reported : RawEvent → Option Path
  | .ok (.dir path _) => some path
  | .ok (.file path) => some path
  | .ok (.symlink path) => some path
  | .ok (.other path) => some path
  | .error e => if e.fatal then none else some e.path
  | _ => none

def reports (events : List RawEvent) : List Path := events.filterMap reported

variable {p : Path}

variable {e : RawEvent} {path : Path} {a : Bytes} {xs ys : List RawEvent}

lemma reported_eventPath (h : reported e = some p) : eventPath e = p := by
  cases e with
  | error e =>
    simp only [reported] at h
    split at h
    · exact absurd h (by simp)
    · exact Option.some.inj h
  | ok e => cases e <;> simp_all [reported, eventPath]

lemma mem_reports {events : List RawEvent} : p ∈ reports events ↔ ∃ e ∈ events, reported e = some p :=
  List.mem_filterMap

lemma reports_append (xs ys : List RawEvent) : reports (xs ++ ys) = reports xs ++ reports ys :=
  List.filterMap_append

lemma lt_of_prefix_snoc {q : Path} {b : Bytes} (h : a < b) (hp : path ++ [a] <+: p) (hq : path ++ [b] <+: q) :
    p < q := by
  obtain ⟨p, rfl⟩ := hp
  obtain ⟨q, rfl⟩ := hq
  induction path with
  | nil => exact List.cons_lt_cons_iff.mpr (.inl h)
  | cons n path ih => exact List.cons_lt_cons_iff.mpr (.inr ⟨rfl, ih⟩)

lemma lt_of_prefix_snoc_self (hp : path ++ [a] <+: p) : path < p := by
  obtain ⟨p, rfl⟩ := hp
  induction path with
  | nil => exact List.nil_lt_cons _ _
  | cons n path ih => exact List.cons_lt_cons_iff.mpr (.inr ⟨rfl, ih⟩)

lemma not_prefix_of_snoc (hp : path ++ [a] <+: p) : ¬ p <+: path := by
  intro h
  have h₁ := hp.length_le
  have h₂ := h.length_le
  simp only [List.length_append, List.length_singleton] at h₁
  omega

lemma eq_of_prefix_snoc {b : Bytes} (ha : path ++ [a] <+: p) (hb : path ++ [b] <+: p) : a = b := by
  obtain ⟨p, rfl⟩ := ha
  obtain ⟨q, hq⟩ := hb
  simp only [List.append_assoc, List.cons_append, List.nil_append, List.append_cancel_left_eq] at hq
  exact (List.cons.inj hq).1.symm

lemma leafEvents_path {fileType : FileType} (h : e ∈ leafEvents path fileType) : eventPath e = path := by
  cases fileType <;> simp_all [leafEvents, eventPath]

lemma unknownEvents_path {unknown : Bool} (h : e ∈ unknownEvents path unknown) :
    eventPath e = path ∧ reported e = none := by
  cases unknown <;> simp_all [unknownEvents, eventPath, reported]

mutual
lemma Seen.events_below {path : Path} {fileType : FileType} {e : RawEvent} :
    ∀ (seen : Seen), e ∈ seen.events path fileType → path <+: eventPath e
  | .dropped, h => by simp [Seen.events] at h
  | .leaf, h => (leafEvents_path h).symm ▸ List.prefix_rfl
  | .failed cause, h => by simp_all [Seen.events, eventPath]
  | .halted cause, h => by simp_all [Seen.events, eventPath]
  | .skipped id, h => by
    simp only [Seen.events, List.mem_cons, List.not_mem_nil, or_false] at h
    obtain rfl | rfl | rfl := h <;> exact List.prefix_rfl
  | .entered id unknown entries, h => by
    simp only [Seen.events, List.mem_cons, List.mem_append, List.not_mem_nil, or_false] at h
    obtain rfl | h | h | rfl := h
    · exact List.prefix_rfl
    · exact (unknownEvents_path h).1.symm ▸ List.prefix_rfl
    · obtain ⟨cause, rfl⟩ | ⟨item, -, hname⟩ := entries.events_below h
      · exact List.prefix_rfl
      · exact (List.prefix_append path [item.1]).trans hname
    · exact List.prefix_rfl
lemma SeenList.events_below {path : Path} {e : RawEvent} :
    ∀ (entries : SeenList), e ∈ entries.events path →
      (∃ cause, e = .error ⟨path, cause, true⟩) ∨ ∃ item ∈ entries.items, path ++ [item.1] <+: eventPath e
  | .nil, h => by simp [SeenList.events] at h
  | .broken cause, h => .inl ⟨cause, by simpa [SeenList.events] using h⟩
  | .cons name fileType seen rest, h => by
    rw [SeenList.events, List.mem_append] at h
    obtain h | h := h
    · exact .inr ⟨(name, fileType), List.mem_cons_self, seen.events_below h⟩
    · obtain hbroken | ⟨item, hitem, hname⟩ := rest.events_below h
      · exact .inl hbroken
      · exact .inr ⟨item, List.mem_cons_of_mem _ hitem, hname⟩
end

mutual
def Seen.AllNames (P : Bytes → Prop) : Seen → Prop
  | .entered _ _ entries => entries.AllNames P
  | _ => True
def SeenList.AllNames (P : Bytes → Prop) : SeenList → Prop
  | .nil => True
  | .broken _ => True
  | .cons name _ seen rest => P name ∧ seen.AllNames P ∧ rest.AllNames P
end

section AllNames

variable {P : Bytes → Prop} {path : Path} {e : RawEvent}

mutual
lemma Seen.events_names {path : Path} {fileType : FileType} (hpath : ∀ n ∈ path, P n) :
    ∀ seen : Seen, seen.AllNames P → e ∈ seen.events path fileType → ∀ n ∈ eventPath e, P n
  | .dropped, _, h => by simp [Seen.events] at h
  | .leaf, _, h => by rwa [leafEvents_path h]
  | .failed cause, _, h => by
    obtain rfl : e = _ := by simpa [Seen.events] using h
    exact hpath
  | .halted cause, _, h => by
    obtain rfl : e = _ := by simpa [Seen.events] using h
    exact hpath
  | .skipped id, _, h => by
    simp only [Seen.events, List.mem_cons, List.not_mem_nil, or_false] at h
    obtain rfl | rfl | rfl := h <;> exact hpath
  | .entered id unknown entries, hall, h => by
    simp only [Seen.events, List.mem_cons, List.mem_append, List.not_mem_nil, or_false] at h
    obtain rfl | h | h | rfl := h
    · exact hpath
    · rwa [(unknownEvents_path h).1]
    · exact entries.events_names hpath hall h
    · exact hpath
lemma SeenList.events_names {path : Path} (hpath : ∀ n ∈ path, P n) :
    ∀ entries : SeenList, entries.AllNames P → e ∈ entries.events path → ∀ n ∈ eventPath e, P n
  | .nil, _, h => by simp [SeenList.events] at h
  | .broken cause, _, h => by
    obtain rfl : e = _ := by simpa [SeenList.events] using h
    exact hpath
  | .cons name fileType seen rest, hall, h => by
    obtain ⟨hname, hseen, hrest⟩ := hall
    rw [SeenList.events, List.mem_append] at h
    have hpath' : ∀ n ∈ path ++ [name], P n := by
      intro n hn
      obtain hn | hn := List.mem_append.mp hn
      · exact hpath n hn
      · exact List.mem_singleton.mp hn ▸ hname
    exact h.elim (seen.events_names hpath' hseen) (rest.events_names hpath hrest)
end

end AllNames

mutual
def Seen.Increasing : Seen → Prop
  | .entered _ _ entries => entries.Increasing
  | _ => True
def SeenList.Increasing : SeenList → Prop
  | .nil => True
  | .broken _ => True
  | .cons name _ seen rest => (∀ item ∈ rest.items, name < item.1) ∧ seen.Increasing ∧ rest.Increasing
end

lemma SeenList.reports_below {entries : SeenList} (h : p ∈ reports (entries.events path)) :
    ∃ item ∈ entries.items, path ++ [item.1] <+: p := by
  obtain ⟨e, he, hp⟩ := mem_reports.mp h
  obtain ⟨cause, rfl⟩ | ⟨item, hitem, hname⟩ := entries.events_below he
  · simp [reported] at hp
  · exact ⟨item, hitem, reported_eventPath hp ▸ hname⟩

lemma Seen.reports_below {fileType : FileType} {seen : Seen} (h : p ∈ reports (seen.events path fileType)) :
    path <+: p := by
  obtain ⟨e, he, hp⟩ := mem_reports.mp h
  exact reported_eventPath hp ▸ seen.events_below he

lemma reports_unknown (path : Path) (unknown : Bool) : reports (unknownEvents path unknown) = [] := by
  cases unknown <;> rfl

mutual
lemma Seen.reports_sorted {path : Path} {fileType : FileType} :
    ∀ (seen : Seen), seen.Increasing → (reports (seen.events path fileType)).Pairwise (· < ·)
  | .dropped, _ => .nil
  | .leaf, _ => by cases fileType <;> simp [Seen.events, leafEvents, reports, reported]
  | .failed cause, _ => by simp [Seen.events, reports, reported]
  | .halted cause, _ => by simp [Seen.events, reports, reported]
  | .skipped id, _ => List.pairwise_singleton _ path
  | .entered id unknown entries, h => by
    have hreports : reports ((Seen.entered id unknown entries).events path fileType) =
        path :: reports (entries.events path) := by
      rw [Seen.events, ← List.singleton_append, reports_append, reports_append, reports_append, reports_unknown]
      simp [reports, reported]
    rw [hreports, List.pairwise_cons]
    refine ⟨?_, entries.reports_sorted h⟩
    intro p hp
    obtain ⟨item, -, hname⟩ := SeenList.reports_below hp
    exact lt_of_prefix_snoc_self hname
lemma SeenList.reports_sorted {path : Path} :
    ∀ (entries : SeenList), entries.Increasing → (reports (entries.events path)).Pairwise (· < ·)
  | .nil, _ => .nil
  | .broken cause, _ => by simp [SeenList.events, reports, reported]
  | .cons name fileType seen rest, h => by
    obtain ⟨hname, hseen, hrest⟩ := h
    rw [SeenList.events, reports_append, List.pairwise_append]
    refine ⟨seen.reports_sorted hseen, rest.reports_sorted hrest, ?_⟩
    intro p hp q hq
    obtain ⟨item, hitem, hq⟩ := SeenList.reports_below hq
    exact lt_of_prefix_snoc (hname item hitem) (Seen.reports_below hp) hq
end

lemma SeenList.keys_sorted {entries : SeenList} (hinc : entries.Increasing) (hnames : entries.AllNames ValidName) :
    (reports (entries.events [])).Pairwise fun p q => pathKey p < pathKey q := by
  have hvalid : ∀ p ∈ reports (entries.events []), ∀ n ∈ p, ValidName n := by
    intro p hp
    obtain ⟨e, he, hrep⟩ := mem_reports.mp hp
    exact reported_eventPath hrep ▸ entries.events_names (by simp) hnames he
  exact (entries.reports_sorted hinc).imp_of_mem fun hp hq hlt => pathKey_lt hlt (hvalid _ hp) (hvalid _ hq)

def Bracketed (events : List RawEvent) : Prop :=
  ∀ path id, .ok (.dir path id) ∈ events → ∃ pre mid post,
    events = pre ++ .ok (.dir path id) :: (mid ++ .ok (.dirEnd path) :: post) ∧
    (∀ e ∈ mid, path <+: eventPath e ∧ e ≠ .ok (.dirEnd path)) ∧ ∀ e ∈ pre ++ post, ¬ path <+: eventPath e

lemma Bracketed.nil : Bracketed [] := fun _ _ h => absurd h (List.not_mem_nil)

lemma Bracketed.surround {events : List RawEvent} (h : Bracketed events) (pre post : List RawEvent)
    (hout : ∀ path id, .ok (.dir path id) ∈ events → ∀ e ∈ pre ++ post, ¬ path <+: eventPath e) :
    ∀ path id, .ok (.dir path id) ∈ events → ∃ pre' mid post',
      pre ++ (events ++ post) = pre' ++ .ok (.dir path id) :: (mid ++ .ok (.dirEnd path) :: post') ∧
      (∀ e ∈ mid, path <+: eventPath e ∧ e ≠ .ok (.dirEnd path)) ∧ ∀ e ∈ pre' ++ post',
      ¬ path <+: eventPath e := by
  intro path id hdir
  obtain ⟨pre', mid, post', rfl, hmid, hrest⟩ := h path id hdir
  refine ⟨pre ++ pre', mid, post' ++ post, by simp, hmid, ?_⟩
  intro e he
  have hout' := hout path id hdir e
  have hrest' := hrest e
  simp only [List.mem_append] at he hout' hrest'
  tauto

lemma Bracketed.append (hx : Bracketed xs) (hy : Bracketed ys)
    (hxy : ∀ path id, .ok (.dir path id) ∈ xs → ∀ e ∈ ys, ¬ path <+: eventPath e)
    (hyx : ∀ path id, .ok (.dir path id) ∈ ys → ∀ e ∈ xs, ¬ path <+: eventPath e) : Bracketed (xs ++ ys) := by
  intro path id hdir
  obtain hdir | hdir := List.mem_append.mp hdir
  · exact hx.surround [] ys hxy path id hdir
  · have hys := hy.surround xs [] (by simpa using hyx) path id hdir
    rwa [List.append_nil] at hys

mutual
lemma Seen.bracketed {path : Path} {fileType : FileType} :
    ∀ (seen : Seen), seen.Increasing → Bracketed (seen.events path fileType)
  | .dropped, _ => .nil
  | .leaf, _ => by intro p id h; cases fileType <;> simp [Seen.events, leafEvents] at h
  | .failed cause, _ => by intro p id h; simp [Seen.events] at h
  | .halted cause, _ => by intro p id h; simp [Seen.events] at h
  | .skipped id, _ => by
    intro p id' h
    obtain ⟨rfl, rfl⟩ : p = path ∧ id' = id := by simpa [Seen.events] using h
    exact ⟨[], [.ok (.mountSkipped p)], [], rfl, by simp [eventPath], by simp⟩
  | .entered id unknown entries, h => by
    have hdeep : ∀ p id', .ok (.dir p id') ∈ entries.events path → ¬ p <+: path := by
      intro p id' hdir
      obtain ⟨cause, hc⟩ | ⟨item, -, hname⟩ := entries.events_below hdir
      · cases hc
      · exact not_prefix_of_snoc hname
    have hinner := (entries.bracketed h).surround (.ok (.dir path id) :: unknownEvents path unknown)
      [.ok (.dirEnd path)] (by
        intro p id' hdir e he
        have hpath : eventPath e = path := by
          simp only [List.cons_append, List.mem_cons, List.mem_append, List.not_mem_nil, or_false] at he
          obtain rfl | he | rfl := he
          · rfl
          · exact (unknownEvents_path he).1
          · rfl
        rw [hpath]
        exact hdeep p id' hdir)
    intro p id' hdir
    rw [Seen.events] at hdir ⊢
    simp only [List.mem_cons, List.mem_append, List.not_mem_nil, or_false] at hdir
    obtain heq | hdir | hdir | hdir := hdir
    · cases heq
      refine ⟨[], unknownEvents path unknown ++ entries.events path, [], by simp, ?_, by simp⟩
      intro e he
      obtain he | he := List.mem_append.mp he
      · refine ⟨(unknownEvents_path he).1.symm ▸ List.prefix_rfl, ?_⟩
        rintro rfl
        cases unknown <;> simp [unknownEvents] at he
      · obtain ⟨cause, rfl⟩ | ⟨item, -, hname⟩ := entries.events_below he
        · exact ⟨List.prefix_rfl, by simp⟩
        · refine ⟨(List.prefix_append path [item.1]).trans hname, ?_⟩
          rintro rfl
          exact not_prefix_of_snoc hname List.prefix_rfl
    · cases unknown <;> simp [unknownEvents] at hdir
    · exact hinner p id' hdir
    · cases hdir
lemma SeenList.bracketed {path : Path} :
    ∀ (entries : SeenList), entries.Increasing → Bracketed (entries.events path)
  | .nil, _ => .nil
  | .broken cause, _ => by intro p id h; simp [SeenList.events] at h
  | .cons name fileType seen rest, h => by
    obtain ⟨hname, hseen, hrest⟩ := h
    rw [SeenList.events]
    refine (seen.bracketed hseen).append (rest.bracketed hrest) ?_ ?_
    · intro p id hdir e he hpe
      have hp : path ++ [name] <+: p := seen.events_below hdir
      obtain ⟨cause, rfl⟩ | ⟨item, hitem, hitem'⟩ := rest.events_below he
      · exact not_prefix_of_snoc hp hpe
      · exact absurd (eq_of_prefix_snoc (hp.trans hpe) hitem') (hname item hitem).ne
    · intro p id hdir e he hpe
      have he' : path ++ [name] <+: eventPath e := seen.events_below he
      obtain ⟨cause, hc⟩ | ⟨item, hitem, hitem'⟩ := rest.events_below hdir
      · cases hc
      · exact absurd (eq_of_prefix_snoc he' (hitem'.trans hpe)) (hname item hitem).ne
end

def Noted (events : List RawEvent) : Prop :=
  ∀ pre e post path, events = pre ++ e :: post → e = .ok (.mountSkipped path) ∨ e = .ok (.mountUnknown path) →
    ∃ pre' id, pre = pre' ++ [.ok (.dir path id)]

lemma Noted.of_none {events : List RawEvent}
    (h : ∀ e ∈ events, ∀ path, e ≠ .ok (.mountSkipped path) ∧ e ≠ .ok (.mountUnknown path)) : Noted events := by
  rintro pre e post path rfl hnote
  have hne := h e (by simp) path
  exact absurd hnote (not_or.mpr hne)

lemma Noted.append (hx : Noted xs) (hy : Noted ys) : Noted (xs ++ ys) := by
  intro pre e post path h hnote
  obtain ⟨a, rfl, hys⟩ | ⟨c, hxs, hc⟩ := List.append_eq_append_iff.mp h
  · obtain ⟨pre', id, rfl⟩ := hy a e post path hys hnote
    exact ⟨xs ++ pre', id, by simp⟩
  · cases c with
    | nil =>
      obtain ⟨pre', id, hpre⟩ := hy [] e post path hc.symm hnote
      exact absurd hpre (by simp)
    | cons e' c =>
      obtain ⟨rfl, rfl⟩ := List.cons.inj hc
      exact hx pre e c path hxs hnote

lemma Noted.dir {id : FileIdentity} {rest : List RawEvent} (note : List RawEvent)
    (hnote : note = [] ∨ note = [.ok (.mountSkipped path)] ∨ note = [.ok (.mountUnknown path)])
    (hrest : Noted rest) : Noted (.ok (.dir path id) :: (note ++ rest)) := by
  have hhead : Noted (.ok (.dir path id) :: note) := by
    obtain rfl | hnote := hnote
    · exact .of_none (by simp)
    · intro pre e post q h hq
      obtain ⟨e', rfl⟩ : ∃ e', note = [e'] := hnote.elim (fun h => ⟨_, h⟩) (fun h => ⟨_, h⟩)
      rcases pre with _ | ⟨a, _ | ⟨b, pre⟩⟩
      · obtain ⟨rfl, -⟩ := List.cons.inj h
        simp at hq
      · simp only [List.cons_append, List.nil_append, List.cons.injEq] at h
        obtain ⟨rfl, rfl, -⟩ := h
        have hq' : q = path := by
          obtain h | h := hnote <;> obtain rfl | rfl := hq <;> simp_all
        subst hq'
        exact ⟨[], id, rfl⟩
      · simp at h
  exact hhead.append hrest

def Ended (events : List RawEvent) : Prop :=
  ∀ path, .ok (.dirEnd path) ∈ events → ∃ id, .ok (.dir path id) ∈ events

lemma Ended.append (hx : Ended xs) (hy : Ended ys) : Ended (xs ++ ys) := by
  intro path h
  obtain h | h := List.mem_append.mp h
  · exact (hx path h).imp fun _ hid => List.mem_append_left _ hid
  · exact (hy path h).imp fun _ hid => List.mem_append_right _ hid

mutual
lemma Seen.noted {path : Path} {fileType : FileType} : ∀ (seen : Seen), Noted (seen.events path fileType) ∧
    Ended (seen.events path fileType)
  | .dropped => ⟨.of_none (by simp [Seen.events]), by simp [Ended, Seen.events]⟩
  | .leaf => by
    constructor
    · apply Noted.of_none
      cases fileType <;> simp [Seen.events, leafEvents]
    · cases fileType <;> simp [Ended, Seen.events, leafEvents]
  | .failed cause => ⟨.of_none (by simp [Seen.events]), by simp [Ended, Seen.events]⟩
  | .halted cause => ⟨.of_none (by simp [Seen.events]), by simp [Ended, Seen.events]⟩
  | .skipped id => by
    constructor
    · exact Noted.dir [.ok (.mountSkipped path)] (.inr (.inl rfl)) (.of_none (by simp))
    · intro p h
      exact ⟨id, by simp_all [Seen.events]⟩
  | .entered id unknown entries => by
    obtain ⟨hnoted, hended⟩ := entries.noted path
    rw [Seen.events]
    constructor
    · apply Noted.dir
      · cases unknown
        · exact .inl rfl
        · exact .inr (.inr rfl)
      · exact hnoted.append (.of_none (by simp))
    · intro p h
      simp only [List.mem_cons, List.mem_append, List.not_mem_nil, or_false] at h ⊢
      obtain h | h | h | h := h
      · cases h
      · cases unknown <;> simp [unknownEvents] at h
      · obtain ⟨id', hid⟩ := hended p h
        exact ⟨id', .inr (.inr (.inl hid))⟩
      · cases h
        exact ⟨id, .inl rfl⟩
lemma SeenList.noted (path : Path) :
    ∀ (entries : SeenList), Noted (entries.events path) ∧ Ended (entries.events path)
  | .nil => ⟨.of_none (by simp [SeenList.events]), by simp [Ended, SeenList.events]⟩
  | .broken cause => ⟨.of_none (by simp [SeenList.events]), by simp [Ended, SeenList.events]⟩
  | .cons name fileType seen rest => by
    rw [SeenList.events]
    exact ⟨seen.noted.1.append (rest.noted path).1, seen.noted.2.append (rest.noted path).2⟩
end

mutual
lemma Seen.dir_above {path : Path} {fileType : FileType} {e : RawEvent} {p q : Path} (hp : reported e = some p)
    (hq : q <+: p) (hne : q ≠ p) : ∀ seen : Seen, e ∈ seen.events path fileType → path <+: q →
      ∃ id, .ok (.dir q id) ∈ seen.events path fileType
  | .dropped, h, _ => by cases h
  | .leaf, h, hpath => by
    have hpp : path = p := (leafEvents_path h).symm.trans (reported_eventPath hp)
    exact absurd (hq.eq_of_length_le (hpp ▸ hpath.length_le)) hne
  | .failed cause, h, hpath => by
    obtain rfl : e = _ := by simpa [Seen.events] using h
    have hpp : path = p := reported_eventPath hp
    exact absurd (hq.eq_of_length_le (hpp ▸ hpath.length_le)) hne
  | .halted cause, h, hpath => by
    obtain rfl : e = _ := by simpa [Seen.events] using h
    cases hp
  | .skipped id, h, hpath => by
    have hpp : path = p := by
      simp only [Seen.events, List.mem_cons, List.not_mem_nil, or_false] at h
      obtain rfl | rfl | rfl := h
      · exact reported_eventPath hp
      · cases hp
      · cases hp
    exact absurd (hq.eq_of_length_le (hpp ▸ hpath.length_le)) hne
  | .entered id unknown entries, h, hpath => by
    rw [Seen.events] at h ⊢
    by_cases hqp : q = path
    · exact ⟨id, by rw [hqp]; exact List.mem_cons_self⟩
    · simp only [List.mem_cons, List.mem_append, List.not_mem_nil, or_false] at h ⊢
      obtain rfl | h | h | rfl := h
      · have hpp : path = p := reported_eventPath hp
        exact absurd (hq.eq_of_length_le (hpp ▸ hpath.length_le)) hne
      · rw [(unknownEvents_path h).2] at hp
        cases hp
      · obtain ⟨id', hid⟩ := entries.dir_above hp hq hne h hpath hqp
        exact ⟨id', .inr (.inr (.inl hid))⟩
      · cases hp
lemma SeenList.dir_above {path : Path} {e : RawEvent} {p q : Path} (hp : reported e = some p) (hq : q <+: p)
    (hne : q ≠ p) : ∀ entries : SeenList, e ∈ entries.events path → path <+: q → q ≠ path →
      ∃ id, .ok (.dir q id) ∈ entries.events path
  | .nil, h, _, _ => by cases h
  | .broken cause, h, _, _ => by
    obtain rfl : e = _ := by simpa [SeenList.events] using h
    cases hp
  | .cons name fileType seen rest, h, hpath, hqp => by
    rw [SeenList.events] at h ⊢
    obtain h | h := List.mem_append.mp h
    · have hname : path ++ [name] <+: p := reported_eventPath hp ▸ seen.events_below h
      have hlen : (path ++ [name]).length ≤ q.length := by
        have h₁ := hpath.length_le
        have h₂ : path.length ≠ q.length := fun heq => hqp (hpath.eq_of_length heq).symm
        simp only [List.length_append, List.length_singleton]
        omega
      obtain ⟨id, hid⟩ := seen.dir_above hp hq hne h (List.prefix_of_prefix_length_le hname hq hlen)
      exact ⟨id, List.mem_append_left _ hid⟩
    · obtain ⟨id, hid⟩ := rest.dir_above hp hq hne h hpath hqp
      exact ⟨id, List.mem_append_right _ hid⟩
end

end Flux.Walk
