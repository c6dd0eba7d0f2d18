import Flux.Verify.Reports
import Flux.Walk.Ordered

namespace Flux.Verify

open Base Walk

section Scan

variable {skipLinks : Bool} {filter : ControlFilter} {events : List RawEvent}

lemma untilFatal_head (events : List RawEvent) : (untilFatal events).head? = events.head? := by
  cases events with
  | nil => rfl
  | cons e rest =>
    rw [untilFatal]
    split <;> rfl

lemma scan_untilFatal (events : List RawEvent) :
    scan skipLinks filter (untilFatal events) = scan skipLinks filter events := by
  induction events with
  | nil => rfl
  | cons e rest ih =>
    rw [untilFatal]
    cases e with
    | error e =>
      cases hf : e.fatal <;> simp [isFatal, hf, scan, ih]
    | ok e => cases e <;> simp [isFatal, scan, ih, untilFatal_head]

lemma fatalOf_untilFatal (events : List RawEvent) : fatalOf (untilFatal events) = fatalOf events := by
  induction events with
  | nil => rfl
  | cons e rest ih =>
    rw [untilFatal]
    cases e with
    | error e => cases hf : e.fatal <;> simp [isFatal, hf, fatalOf, ih]
    | ok e => simp [isFatal, fatalOf, ih]

lemma fatalOf_eq_none : fatalOf events = none ↔ ∀ e ∈ events, isFatal e = false := by
  induction events with
  | nil => simp [fatalOf]
  | cons e rest ih =>
    cases e with
    | error e => cases hf : e.fatal <;> simp [fatalOf, isFatal, hf, ih]
    | ok e => simp [fatalOf, isFatal, ih]

inductive FromEvent (events : List RawEvent) : RawEvent → Item → Prop
  | failed {e : WalkError} : e.fatal = false → FromEvent events (.error e) (item e.path .dir false (some e.cause))
  | dir {path : Path} {id : FileIdentity} {notEntered : Bool} :
      (notEntered = true → .ok (.mountSkipped path) ∈ events) →
      FromEvent events (.ok (.dir path id)) (item path .dir notEntered none)
  | file {path : Path} : FromEvent events (.ok (.file path)) (item path .file false none)
  | symlink {path : Path} : FromEvent events (.ok (.symlink path)) (item path .symlink false none)
  | other {path : Path} : FromEvent events (.ok (.other path)) (item path .other false none)

variable {i : Item}

variable {e : RawEvent}

lemma FromEvent.mono {events events' : List RawEvent} (h : FromEvent events e i) (hs : events ⊆ events') :
    FromEvent events' e i := by
  cases h with
  | failed hf => exact .failed hf
  | dir hd => exact .dir fun hn => hs (hd hn)
  | file => exact .file
  | symlink => exact .symlink
  | other => exact .other

lemma mem_visible {j : Item} {rest : List Item} (h : i ∈ visible filter j rest) :
    (i = j ∧ isControlState j filter = false) ∨ i ∈ rest := by
  rw [visible] at h
  split at h
  · exact .inr h
  · rename_i hc
    exact (List.mem_cons.mp h).imp (fun heq => ⟨heq, by simpa using hc⟩) id

lemma scan_sound (h : i ∈ scan skipLinks filter events) :
    ∃ e ∈ events, FromEvent events e i ∧ isControlState i filter = false ∧
      ∀ path, e = .ok (.symlink path) → skipLinks = false := by
  have hlift : ∀ {e : RawEvent} {rest : List RawEvent},
      (∃ e' ∈ rest, FromEvent rest e' i ∧ isControlState i filter = false ∧
        ∀ path, e' = .ok (.symlink path) → skipLinks = false) →
      ∃ e' ∈ e :: rest, FromEvent (e :: rest) e' i ∧ isControlState i filter = false ∧
        ∀ path, e' = .ok (.symlink path) → skipLinks = false := by
    rintro e rest ⟨e', he', hfrom, hrest⟩
    exact ⟨e', List.mem_cons_of_mem _ he', hfrom.mono (List.subset_cons_self _ _), hrest⟩
  induction events with
  | nil => cases h
  | cons e rest ih =>
    cases e with
    | error e =>
      rw [scan] at h
      split at h
      · cases h
      · rename_i hf
        obtain ⟨rfl, hc⟩ | h := mem_visible h
        · exact ⟨_, List.mem_cons_self, .failed (by simpa using hf), hc, by simp⟩
        · exact hlift (ih h)
    | ok e =>
      cases e with
      | dir path id =>
        obtain ⟨rfl, hc⟩ | h := mem_visible h
        · refine ⟨_, List.mem_cons_self, .dir ?_, hc, by simp⟩
          intro hn
          exact List.mem_cons_of_mem _ (List.mem_of_head? (of_decide_eq_true hn))
        · exact hlift (ih h)
      | file path =>
        obtain ⟨rfl, hc⟩ | h := mem_visible h
        · exact ⟨_, List.mem_cons_self, .file, hc, by simp⟩
        · exact hlift (ih h)
      | symlink path =>
        rw [scan] at h
        split at h
        · exact hlift (ih h)
        · rename_i hs
          obtain ⟨rfl, hc⟩ | h := mem_visible h
          · exact ⟨_, List.mem_cons_self, .symlink, hc, fun _ _ => by simpa using hs⟩
          · exact hlift (ih h)
      | other path =>
        obtain ⟨rfl, hc⟩ | h := mem_visible h
        · exact ⟨_, List.mem_cons_self, .other, hc, by simp⟩
        · exact hlift (ih h)
      | dirEnd path => exact hlift (ih h)
      | mountSkipped path => exact hlift (ih h)
      | mountUnknown path => exact hlift (ih h)

lemma subset_visible (i : Item) (rest : List Item) : rest ⊆ visible filter i rest := by
  rw [visible]
  split
  · exact List.Subset.refl _
  · exact List.subset_cons_self _ _

lemma head_visible {rest : List Item} (h : isControlState i filter = false) : i ∈ visible filter i rest := by
  rw [visible, h]
  exact List.mem_cons_self

lemma scan_complete (hf : fatalOf events = none) (he : e ∈ events) (hr : (reported e).isSome)
    (hlink : ∀ path, e = .ok (.symlink path) → skipLinks = false) :
    ∃ i, FromEvent events e i ∧ (isControlState i filter = false → i ∈ scan skipLinks filter events) := by
  induction events with
  | nil => cases he
  | cons e' rest ih =>
    obtain rfl | he := List.mem_cons.mp he
    · cases e with
      | error e =>
        have hfatal : e.fatal = false := by
          cases hb : e.fatal
          · rfl
          · simp [fatalOf, hb] at hf
        refine ⟨_, .failed hfatal, fun hc => ?_⟩
        rw [scan, hfatal]
        exact head_visible hc
      | ok e =>
        cases e with
        | dir path id =>
          refine ⟨item path .dir (rest.head? = some (.ok (.mountSkipped path))) none, .dir ?_, fun hc =>
            head_visible hc⟩
          intro hn
          exact List.mem_cons_of_mem _ (List.mem_of_head? (of_decide_eq_true hn))
        | file path => exact ⟨_, .file, fun hc => head_visible hc⟩
        | symlink path =>
          refine ⟨_, .symlink, fun hc => ?_⟩
          rw [scan, hlink path rfl]
          exact head_visible hc
        | other path => exact ⟨_, .other, fun hc => head_visible hc⟩
        | dirEnd path => cases hr
        | mountSkipped path => cases hr
        | mountUnknown path => cases hr
    · have hfatal := fatalOf_eq_none.mp hf
      obtain ⟨i, hfrom, hi⟩ := ih (fatalOf_eq_none.mpr fun e he => hfatal e (List.mem_cons_of_mem _ he)) he
      refine ⟨i, hfrom.mono (List.subset_cons_self _ _), fun hc => ?_⟩
      cases e' with
      | error e =>
        have hb : e.fatal = false := hfatal _ List.mem_cons_self
        rw [scan, hb]
        exact subset_visible _ _ (hi hc)
      | ok e =>
        cases e with
        | dir path id => exact subset_visible _ _ (hi hc)
        | file path => exact subset_visible _ _ (hi hc)
        | symlink path =>
          rw [scan]
          split
          · exact hi hc
          · exact subset_visible _ _ (hi hc)
        | other path => exact subset_visible _ _ (hi hc)
        | dirEnd path => exact hi hc
        | mountSkipped path => exact hi hc
        | mountUnknown path => exact hi hc

lemma item_path (path : Path) (kind : Kind) (notEntered : Bool) (failed : Option FsError) :
    (item path kind notEntered failed).path = path ∧ (item path kind notEntered failed).kind = kind ∧
      (item path kind notEntered failed).notEntered = notEntered := by
  rw [item]
  split <;> exact ⟨rfl, rfl, rfl⟩

lemma item_of_valid {path : Path} (h : ∀ n ∈ path, ValidName n) (kind : Kind) (notEntered : Bool)
    (failed : Option FsError) : item path kind notEntered failed =
    ⟨path, pathKey path, kind, notEntered, failed⟩ := by
  have hnul : ¬ ∃ name ∈ path, 0 ∈ name := by
    rintro ⟨name, hname, hz⟩
    exact (h name hname).no_nul hz
  rw [item, fromRelative, if_neg hnul]

lemma item_key {path : Path} {kind : Kind} {notEntered : Bool} {failed : Option FsError}
    (h : ∀ n ∈ (item path kind notEntered failed).path, ValidName n) :
    (item path kind notEntered failed).key = pathKey (item path kind notEntered failed).path := by
  rw [(item_path path kind notEntered failed).1] at h
  rw [item_of_valid h]

lemma FromEvent.path (h : FromEvent events e i) : reported e = some i.path := by
  cases h with
  | failed hf => simp [reported, hf, (item_path _ _ _ _).1]
  | dir _ => simp [reported, (item_path _ _ _ _).1]
  | file => simp [reported, (item_path _ _ _ _).1]
  | symlink => simp [reported, (item_path _ _ _ _).1]
  | other => simp [reported, (item_path _ _ _ _).1]

lemma visible_paths (filter : ControlFilter) (i : Item) {rest : List Item} {paths : List Path}
    (h : (rest.map Item.path).Sublist paths) :
    ((visible filter i rest).map Item.path).Sublist (i.path :: paths) := by
  rw [visible]
  split
  · exact h.cons _
  · exact h.cons_cons _

lemma scan_paths (events : List RawEvent) :
    ((scan skipLinks filter events).map Item.path).Sublist (reports events) := by
  induction events with
  | nil => exact .refl _
  | cons e rest ih =>
    cases e with
    | error e =>
      rw [scan]
      split
      · exact List.nil_sublist _
      · rename_i hf
        have h := visible_paths filter (item e.path .dir false (some e.cause)) ih
        rw [(item_path _ _ _ _).1] at h
        simpa [reports, reported, hf] using h
    | ok e =>
      cases e with
      | dir path id =>
        have h := visible_paths filter (item path .dir (rest.head? = some (.ok (.mountSkipped path))) none) ih
        rw [(item_path _ _ _ _).1] at h
        exact h
      | file path =>
        have h := visible_paths filter (item path .file false none) ih
        rw [(item_path _ _ _ _).1] at h
        exact h
      | symlink path =>
        have h := visible_paths filter (item path .symlink false none) ih
        rw [(item_path _ _ _ _).1] at h
        rw [scan]
        split
        · exact ih.cons _
        · exact h
      | other path =>
        have h := visible_paths filter (item path .other false none) ih
        rw [(item_path _ _ _ _).1] at h
        exact h
      | dirEnd path => exact ih
      | mountSkipped path => exact ih
      | mountUnknown path => exact ih

lemma scan_inOrder {entries : SeenList} (hinc : entries.Increasing) (hnames : entries.AllNames ValidName) :
    InOrder (scan skipLinks filter (entries.events [])) := by
  constructor
  · exact List.pairwise_map.mp ((entries.reports_sorted hinc).sublist (scan_paths _))
  · intro i hi
    obtain ⟨e, he, hfrom, -⟩ := scan_sound hi
    have hpath := hfrom.path
    have hvalid : ∀ n ∈ i.path, ValidName n :=
      reported_eventPath hpath ▸ entries.events_names (by simp) hnames he
    refine ⟨?_, hvalid⟩
    cases hfrom with
    | failed _ => exact item_key hvalid
    | dir _ => exact item_key hvalid
    | file => exact item_key hvalid
    | symlink => exact item_key hvalid
    | other => exact item_key hvalid

end Scan

end Flux.Verify
