import Flux.Run.Sweep
import Flux.Spill.Sorted

namespace Flux.Run

open Base Walk State

variable {id : Text} {w' : World} {path : Path} {p : Partials}

lemma idAfter_partialName {stem : Bytes} (hs : stem ≠ []) (hid : isId id = true) :
    idAfter (partialName stem id) Verify.partialInfix = some id := by
  have hhex : id.length = 32 ∧ isHex id = true := by simpa [isId] using hid
  have hlen : (utf8 id).length = 32 := (utf8_length_of_isHex hhex.2).trans hhex.1
  have htake : (partialName stem id).length - 32 = (stem ++ Verify.partialInfix).length := by
    rw [partialName, List.length_append, hlen, Nat.add_sub_cancel]
  have hnot : ¬ (partialName stem id).length < 32 := by
    rw [partialName, List.length_append, hlen]
    omega
  rw [idAfter, if_neg hnot]
  dsimp only
  rw [htake, partialName, List.take_left, List.drop_left, ofUtf8_utf8]
  refine if_pos ⟨hid, List.suffix_append _ _, fun he => hs ?_⟩
  exact List.append_left_eq_self.mp he.symm

def NoPartials (tree : Folder) (id : Text) : Prop :=
  ∀ (dir : Path) (stem : Bytes) (kind : Leaf), stem ≠ [] → kind = .file ∨ kind = .symlink →
    reservedPath (dir ++ [partialName stem id]) = false →
      tree.at (dir ++ [partialName stem id]) ≠ some (.leaf kind)

def Stopped (events : List Event) : Prop :=
  ∀ before fault after, events = before ++ .refused fault :: after → after = []

def RetiredClean (clean : Folder → Text → Prop) (events : List Event) : Prop :=
  ∀ id tree, .retired id tree ∈ events → clean tree id

structure Going (clean : Folder → Text → Prop) (w : World) : Prop where
  unrefused : ∀ fault, .refused fault ∉ w.events
  wellFormed : w.tree.WellFormed
  retired : RetiredClean clean w.events

structure Ended (clean : Folder → Text → Prop) (w : World) : Prop where
  stopped : Stopped w.events
  retired : RetiredClean clean w.events

section Histories

variable {clean : Folder → Text → Prop} {w : World}

lemma Going.ended (h : Going clean w) : Ended clean w :=
  ⟨fun before fault after he => absurd (he ▸ by simp) (h.unrefused fault), h.retired⟩

lemma RetiredClean.snoc {events : List Event} {e : Event} (h : RetiredClean clean events)
    (he : ∀ id tree, e = .retired id tree → clean tree id) : RetiredClean clean (events ++ [e]) := by
  intro id tree hm
  rw [List.mem_append, List.mem_singleton] at hm
  exact hm.elim (h id tree) fun hm => he id tree hm.symm

lemma Going.happened {e : Event} (h : Going clean w) (hr : ∀ fault, e ≠ .refused fault)
    (he : ∀ id tree, e = .retired id tree → clean tree id) : Going clean (w.happened e) where
  unrefused := fun fault hm => by
    rw [World.happened, List.mem_append, List.mem_singleton] at hm
    exact hm.elim (h.unrefused fault) fun hm => hr fault hm.symm
  wellFormed := h.wellFormed
  retired := h.retired.snoc he

lemma Going.refused (h : Going clean w) (fault : Fault) : Ended clean (w.happened (.refused fault)) where
  stopped := fun before fault' after he => by
    rw [World.happened] at he
    obtain rfl | ⟨after, e, rfl⟩ := List.eq_nil_or_concat after
    · rfl
    · exfalso
      rw [List.concat_eq_append, ← List.cons_append, ← List.append_assoc] at he
      have := (List.append_inj' he rfl).1
      exact h.unrefused fault' (this ▸ by simp)
  retired := h.retired.snoc fun _ _ he => by cases he

lemma Going.congr (h : Going clean w) (ht : w'.tree = w.tree) (he : w'.events = w.events) : Going clean w' :=
  ⟨he ▸ h.unrefused, ht ▸ h.wellFormed, he ▸ h.retired⟩

lemma Ended.congr (h : Ended clean w) (he : w'.events = w.events) :
    Ended clean w' := ⟨he ▸ h.stopped, he ▸ h.retired⟩

end Histories

section Calls

variable {clean : Folder → Text → Prop} {w : World}

lemma wp_check (h : Going clean w) :
    wp check (fun _ w' => w' = w.ticked) (fun _ w' => Ended clean w' ∧ w'.tree = w.tree) w := by
  simp only [wp, check]
  cases w.checks w.clock with
  | some fault => exact ⟨Going.refused (w := w.ticked) (h.congr rfl rfl) fault, rfl⟩
  | none => exact rfl

lemma wp_call : wp call (fun _ w' => w' = w.ticked) (fun _ w' => w' = w.ticked) w := by
  simp only [wp, call]
  cases w.faults w.clock <;> exact rfl

structure Same (w w' : World) : Prop where
  tree : w'.tree = w.tree
  events : w'.events = w.events

lemma Same.trans {w'' : World} (h : Same w w') (h' : Same w' w'') : Same w w'' :=
  ⟨h'.tree.trans h.tree, h'.events.trans h.events⟩

lemma wp_openDir (path : Path) : wp (openDir path) (fun _ w' => Same w w') (fun _ w' => Same w w') w := by
  rw [openDir, wp_bind]
  refine wp_mono wp_call ?_ fun _ _ h => h ▸ ⟨rfl, rfl⟩
  rintro - _ rfl
  rw [wp_bind, wp_get]
  split <;> exact ⟨rfl, rfl⟩

lemma wp_openEach (paths : List Path) : wp (openEach paths) (fun _ w' => Same w w') (fun _ w' => Same w w') w := by
  induction paths generalizing w with
  | nil => exact ⟨rfl, rfl⟩
  | cons path paths ih =>
    rw [openEach, wp_bind]
    refine wp_mono (wp_openDir path) (fun _ w' h => ?_) fun _ _ h => h
    exact wp_mono ih (fun _ _ h' => h.trans h') fun _ _ h' => h.trans h'

structure Removed (path : Path) (w w' : World) : Prop where
  tree : w'.tree = w.tree.remove path
  events : w'.events = w.events ++ [.removed path]

lemma wp_removeFile (path : Path) :
    wp (removeFile path) (fun _ w' => Removed path w w') (fun _ w' => Same w w') w := by
  rw [removeFile, wp_bind]
  refine wp_mono wp_call ?_ fun _ _ h => h ▸ ⟨rfl, rfl⟩
  rintro - _ rfl
  rw [wp_bind, wp_get]
  split
  · exact ⟨rfl, rfl⟩
  · exact ⟨rfl, rfl⟩
  · exact ⟨rfl, rfl⟩

lemma wp_removeBelow (path : Path) :
    wp (removeBelow path) (fun _ w' => Removed path w w') (fun _ w' => Same w w') w := by
  rw [removeBelow, wp_bind]
  refine wp_mono (wp_openEach _) (fun _ w' h => ?_) fun _ _ h => h
  refine wp_mono (wp_removeFile path) (fun _ w'' h' => ?_) fun _ _ h' => h.trans h'
  exact ⟨by rw [h'.tree, h.tree], by rw [h'.events, h.events]⟩

lemma Going.removed (h : Going clean w) (hr : Removed path w w') : Going clean w' where
  unrefused := fun fault hm => by
    rw [hr.events, List.mem_append, List.mem_singleton] at hm
    exact hm.elim (h.unrefused fault) fun hm => by cases hm
  wellFormed := hr.tree ▸ Folder.remove_wellFormed path h.wellFormed
  retired := by
    rw [hr.events]
    exact h.retired.snoc fun _ _ he => by cases he

end Calls

section Deletions

variable {clean : Folder → Text → Prop} {destShown : Path} {shown : Text → Path} {onRemoved : Path → World → World}

def Fewer (tree tree' : Folder) : Prop := ∀ q kind, tree'.at q = some (.leaf kind) → tree.at q = some (.leaf kind)

lemma Fewer.refl (tree : Folder) : Fewer tree tree := fun _ _ h => h

lemma Fewer.trans {a b c : Folder} (h : Fewer a b) (h' : Fewer b c) : Fewer a c :=
  fun q kind hq => h q kind (h' q kind hq)

lemma Removed.fewer {w : World} (h : Removed path w w') (hw : Going clean w) (hp : path ≠ []) :
    Fewer w.tree w'.tree ∧ ∀ kind, w'.tree.at path ≠ some (.leaf kind) := by
  rw [h.tree]
  exact ⟨fun q kind hq => (Folder.at_of_at_remove hw.wellFormed hp hq).1,
    fun kind hq => (Folder.at_of_at_remove hw.wellFormed hp hq).2 rfl⟩

structure Swept (clean : Folder → Text → Prop) (found : List (Path × Text)) (kept kept' : List Text)
    (w w' : World) : Prop where
  going : Going clean w'
  fewer : Fewer w.tree w'.tree
  kept : kept ⊆ kept'
  done : ∀ x ∈ found, x.2 ∈ kept' ∨ ∀ kind, w'.tree.at x.1 ≠ some (.leaf kind)

lemma wp_removeAll (hreport : ∀ path w, Same w (onRemoved path w)) (found : List (Path × Text)) (kept : List Text)
    (hpaths : ∀ x ∈ found, x.1 ≠ []) {w : World} (hw : Going clean w) :
    wp (removeAll destShown shown onRemoved found kept) (fun kept' w' => Swept clean found kept kept' w w')
      (fun _ w' => Ended clean w') w := by
  induction found generalizing kept w with
  | nil => exact ⟨hw, .refl _, List.Subset.refl _, fun x hx => by cases hx⟩
  | cons x found ih =>
    obtain ⟨path, prior⟩ := x
    obtain ⟨hpath, hpaths⟩ := List.forall_mem_cons.mp hpaths
    rw [removeAll, wp_bind]
    refine wp_mono (wp_check hw) ?_ fun _ _ h => h.1
    rintro - _ rfl
    have hticked : Going clean w.ticked := hw.congr rfl rfl
    rw [wp_bind, wp_attempt]
    refine wp_mono (wp_removeBelow path) (fun _ w₁ h₁ => ?_) fun e w₁ h₁ => ?_
    · rw [wp_bind, wp_modify]
      have hsame := hreport (destShown ++ path) w₁
      have hgoing := (hticked.removed h₁).congr hsame.tree hsame.events
      obtain ⟨hfewer, hgone⟩ := h₁.fewer hticked hpath
      refine wp_mono (ih kept hpaths hgoing) (fun kept' w' h' => ?_) fun _ _ h' => h'
      have hfewer' : Fewer w₁.tree w'.tree := hsame.tree ▸ h'.fewer
      refine ⟨h'.going, hfewer.trans hfewer', h'.kept, List.forall_mem_cons.mpr ⟨.inr ?_, h'.done⟩⟩
      exact fun kind hk => hgone kind (hfewer' _ _ hk)
    · rw [wp_bind, wp_modify]
      have hgoing : Going clean (w₁.warn (.partialKept (destShown ++ path) e (shown prior))) :=
        hticked.congr h₁.tree h₁.events
      refine wp_mono (ih (prior :: kept) hpaths hgoing) (fun kept' w' h' => ?_) fun _ _ h' => h'
      refine ⟨h'.going, ?_, fun y hy => h'.kept (List.mem_cons_of_mem _ hy),
        List.forall_mem_cons.mpr ⟨.inl ?_, h'.done⟩⟩
      · have hfewer : Fewer w₁.tree w'.tree := h'.fewer
        rwa [h₁.tree] at hfewer
      · exact h'.kept List.mem_cons_self

end Deletions

section Walked

variable {destShown operationsShown : Path} {ids : List Text}

def Partials.observed (destShown operationsShown : Path) (ids : List Text) (p : Partials) :
    List RawEvent → Except FsError Unit × Partials
  | [] => (.ok (), p)
  | e :: rest =>
    match p.observe destShown operationsShown ids e with
    | .ok p' => p'.observed destShown operationsShown ids rest
    | .error cause => (.error cause, p)

variable {σ E : Type} {cfg : Walk.Config} {lister : Lister σ E} {listing : Path → Listed}
  {Live : σ → Remainders E → Prop}

lemma partialsRound_loops {w : Walk.State σ E} {events : List RawEvent} (h : Yields (next cfg lister) w events)
    (p : Partials) : Returns (loop (partialsRound destShown operationsShown ids cfg lister) (p, w)) fun r =>
      (r.1, r.2.1) = p.observed destShown operationsShown ids events := by
  suffices hends : ∃ r, LoopsTo (partialsRound destShown operationsShown ids cfg lister) r (p, w) ∧
      (r.1, r.2.1) = p.observed destShown operationsShown ids events by
    obtain ⟨r, hr, heq⟩ := hends
    exact ⟨r, hr.loop_eq, heq⟩
  induction h generalizing p with
  | @nil w w' hw =>
    refine ⟨(.ok (), p, w'.space), .leave ?_, rfl⟩
    rw [partialsRound, hw, pure_bind]
  | @cons w w' event rest hw hrest ih =>
    rw [Partials.observed]
    cases ho : p.observe destShown operationsShown ids event with
    | error cause =>
      refine ⟨(.error cause, p, w'.space), .leave ?_, rfl⟩
      rw [partialsRound, hw, pure_bind]
      simp only [ho]
    | ok p' =>
      obtain ⟨r, hr, heq⟩ := ih p'
      refine ⟨r, .again ?_ hr, heq⟩
      rw [partialsRound, hw, pure_bind]
      simp only [ho]

def WalkEvents (cfg : Walk.Config) (listing : Path → Listed) (events : List RawEvent) : Prop :=
  (∃ e, (∀ (σ E : Type) (space : σ), (unstarted cfg space : Except FsError (Walk.State σ E)) = .error e) ∧
      events = [.error ⟨[], e, false⟩]) ∨
    ∃ m seen, cfg.metadata [] = .ok m ∧ m.fileType = .dir ∧ RootUnfolds cfg listing m.identity seen ∧
      events = untilFatal seen.events

lemma exists_walkEvents (cfg : Walk.Config) (hsingle : SingleNames listing) :
    ∃ events, WalkEvents cfg listing events := by
  cases hm : cfg.metadata [] with
  | error e => exact ⟨_, .inl ⟨e, fun _ _ _ => by rw [unstarted, hm], rfl⟩⟩
  | ok m =>
    by_cases hdir : m.fileType = .dir
    · obtain ⟨seen, hseen⟩ : ∃ seen, RootUnfolds cfg listing m.identity seen :=
        exists_rootUnfolds hsingle m.identity
      exact ⟨_, .inr ⟨m, seen, hm, hdir, hseen, rfl⟩⟩
    · refine ⟨_, .inl ⟨otherError .specialFileUnsupported "walk root is not a directory", fun _ _ _ => ?_, rfl⟩⟩
      rw [unstarted, hm]
      exact if_pos hdir

lemma partialsUnder_returns (hlister : Lawful Live lister listing) {space : σ} (hlive : Live space [])
    {events : List RawEvent} (h : WalkEvents cfg listing events) :
    Returns (partialsUnder destShown operationsShown ids cfg lister space) fun r =>
      (r.1, r.2.1) = Partials.none.observed destShown operationsShown ids events := by
  rw [partialsUnder]
  obtain ⟨e, he, rfl⟩ | ⟨m, seen, hm, hdir, hu, rfl⟩ := h
  · rw [he]
    refine .pure ?_
    simp only [Partials.observed, Partials.observe, Bool.false_eq_true, if_false, List.append_nil]
  · rw [unstarted_eq hm hdir]
    refine (start_returns hlister hlive hu).bind ?_
    rintro ⟨started, w⟩ ⟨hs, -⟩
    cases seen with
    | failed cause =>
      obtain ⟨rfl, -⟩ := hs
      refine .pure ?_
      simp only [RootSeen.events, untilFatal, isFatal, Partials.observed, Partials.observe,
        Bool.false_eq_true, if_false, List.append_nil]
    | halted cause =>
      obtain ⟨rfl, -⟩ := hs
      refine .pure ?_
      simp only [RootSeen.events, untilFatal, isFatal, Partials.observed, Partials.observe, if_true]
    | entered entries =>
      obtain ⟨rfl, hyields⟩ := hs
      exact partialsRound_loops hyields Partials.none

structure Observed (ids : List Text) (p : Partials) (events : List RawEvent) (p' : Partials) : Prop where
  calm : ∀ e ∈ events, isFatal e = false
  unlistable : p.unlistable = true → p'.unlistable = true
  missed : ∀ e, .error e ∈ events → p'.unlistable = true
  kept : p.found ⊆ p'.found
  noted : ∀ path id, .ok (.file path) ∈ events ∨ .ok (.symlink path) ∈ events → reservedPath path = false →
    partialOf ids path = some id → (path, id) ∈ p'.found
  sound : ∀ x ∈ p'.found, x ∈ p.found ∨ partialOf ids x.1 = some x.2

lemma Observed.append {p₁ p₂ p₃ : Partials} {events events' : List RawEvent} (h : Observed ids p₁ events p₂)
    (h' : Observed ids p₂ events' p₃) : Observed ids p₁ (events ++ events') p₃ where
  calm := fun e he => (List.mem_append.mp he).elim (h.calm e) (h'.calm e)
  unlistable := fun hp => h'.unlistable (h.unlistable hp)
  missed := fun e he => (List.mem_append.mp he).elim (fun he => h'.unlistable (h.missed e he)) (h'.missed e)
  kept := fun x hx => h'.kept (h.kept hx)
  noted := by
    intro path id he hr hid
    simp only [List.mem_append] at he
    obtain (he | he) | (he | he) := he
    · exact h'.kept (h.noted path id (.inl he) hr hid)
    · exact h'.noted path id (.inl he) hr hid
    · exact h'.kept (h.noted path id (.inr he) hr hid)
    · exact h'.noted path id (.inr he) hr hid
  sound := fun x hx => (h'.sound x hx).elim (h.sound x) .inr

lemma note_found (ids : List Text) (p : Partials) (path : Path) :
    (∀ id, reservedPath path = false → partialOf ids path = some id → (path, id) ∈ (p.note ids path).found) ∧
      p.found ⊆ (p.note ids path).found ∧
      (∀ x ∈ (p.note ids path).found, x ∈ p.found ∨ partialOf ids x.1 = some x.2) ∧
      (p.note ids path).unlistable = p.unlistable := by
  rw [Partials.note]
  cases hr : reservedPath path with
  | true => exact ⟨fun _ h => (Bool.noConfusion h), List.Subset.refl _, fun _ hx => .inl hx, rfl⟩
  | false =>
    rw [if_neg Bool.false_ne_true]
    cases hid : partialOf ids path with
    | none =>
      exact ⟨fun _ _ h => (Option.some_ne_none _ h.symm).elim, List.Subset.refl _, fun _ hx => .inl hx, rfl⟩
    | some prior =>
      refine ⟨fun id _ h => ?_, List.subset_append_left _ _, fun x hx => ?_, rfl⟩
      · obtain rfl := Option.some.inj h
        exact List.mem_append_right _ (List.mem_singleton_self _)
      · refine (List.mem_append.mp hx).imp_right fun hx => ?_
        rw [List.mem_singleton.mp hx, hid]

lemma observe_note {e : RawEvent} (he : e = .ok (.file path) ∨ e = .ok (.symlink path)) :
    Observed ids p [e] (p.note ids path) := by
  obtain ⟨hnoted, hkept, hsound, hlist⟩ := note_found ids p path
  refine ⟨?_, fun hp => hlist.trans hp, ?_, hkept, ?_, hsound⟩
  · obtain rfl | rfl := he <;> simp [isFatal]
  · obtain rfl | rfl := he <;> simp
  · intro q id hq hr hid
    obtain rfl : q = path := by
      obtain rfl | rfl := he <;> simpa using hq
    exact hnoted id hr hid

lemma observe_observed {p' : Partials} {e : RawEvent} (h : p.observe destShown operationsShown ids e = .ok p') :
    Observed ids p [e] p' := by
  have hplain : ∀ e : WalkEvent, (∀ path, e ≠ .file path) → (∀ path, e ≠ .symlink path) →
    Observed ids p [.ok e] p := by
    intro e hf hl
    refine ⟨by simp [isFatal], id, by simp, List.Subset.refl _, ?_, fun _ hx => .inl hx⟩
    rintro path id (hp | hp)
    · exact absurd (Except.ok.inj (List.mem_singleton.mp hp)).symm (hf path)
    · exact absurd (Except.ok.inj (List.mem_singleton.mp hp)).symm (hl path)
  cases e with
  | ok e =>
    cases e with
    | file path => exact Except.ok.inj h ▸ observe_note (.inl rfl)
    | symlink path => exact Except.ok.inj h ▸ observe_note (.inr rfl)
    | _ => exact Except.ok.inj h ▸ hplain _ (by simp) (by simp)
  | error e =>
    rw [Partials.observe] at h
    cases hf : e.fatal with
    | true =>
      rw [hf] at h
      cases h
    | false =>
      rw [hf] at h
      obtain rfl := Except.ok.inj h
      exact ⟨by simpa [isFatal] using hf, fun _ => rfl, fun _ _ => rfl, List.Subset.refl _, by simp,
        fun _ hx => .inl hx⟩

lemma observed_ok {p' : Partials} {events : List RawEvent}
    (h : p.observed destShown operationsShown ids events = (.ok (), p')) : Observed ids p events p' := by
  induction events generalizing p with
  | nil =>
    obtain rfl := (Prod.mk.inj h).2
    exact ⟨by simp, id, by simp, List.Subset.refl _, by simp, fun _ hx => .inl hx⟩
  | cons e events ih =>
    rw [Partials.observed] at h
    cases ho : p.observe destShown operationsShown ids e with
    | error cause =>
      rw [ho] at h
      cases h
    | ok p₁ =>
      rw [ho] at h
      exact (observe_observed ho).append (ih h)

lemma leaf_reported {metadata : Path → Except FsError Metadata} {mountRoot : Path → Except FsError MountRoot}
    {tree : Folder} {events : List RawEvent} (hf : tree.WellFormed) (hlists : ListsOrFails listing [] tree)
    (hanswers : tree.Answers (sweepConfig metadata mountRoot) listing [])
    (h : WalkEvents (sweepConfig metadata mountRoot) listing events) (hclean : ∀ e, .error e ∉ events)
    {kind : Leaf} (hat : tree.at path = some (.leaf kind)) (hk : kind = .file ∨ kind = .symlink) :
    .ok (.file path) ∈ events ∨ .ok (.symlink path) ∈ events := by
  obtain ⟨e, -, rfl⟩ | ⟨m, seen, -, -, hu, rfl⟩ := h
  · exact absurd List.mem_cons_self (hclean _)
  have hcalm : ∀ e ∈ untilFatal seen.events, isFatal e = false := by
    rintro (e | e) he
    · exact absurd he (hclean e)
    · rfl
  rw [untilFatal_eq_of_calm hcalm] at hclean ⊢
  cases seen with
  | failed cause => exact absurd List.mem_cons_self (hclean _)
  | halted cause => exact absurd List.mem_cons_self (hclean _)
  | entered entries =>
    rw [RootSeen.events] at hclean ⊢
    obtain ⟨hlist, hunfolds⟩ := hu
    have hcomplete : entries.items = tree.items := by
      rw [ListsOrFails, hlist] at hlists
      cases hc : entries.cause with
      | none =>
        rw [hc] at hlists
        exact hlists
      | some cause => exact absurd (SeenList.broken_mem_events hc) (hclean _)
    have hmount : ∀ q, .ok (.mountSkipped q) ∉ entries.events [] := by
      intro q hq
      cases (entries.sound hunfolds hf hanswers (hcomplete ▸ List.Subset.refl _) hq).1
    obtain ⟨e, he, hreports⟩ := exists_report hf hanswers hunfolds hcomplete hat (fun _ _ _ _ => rfl)
      (fun q _ _ => hmount q) (fun q _ _ _ => hclean _)
    have hleaf : e ∈ leafEvents path kind.fileType := hreports
    obtain rfl | rfl := hk
    · exact .inl (List.mem_singleton.mp hleaf ▸ he)
    · exact .inr (List.mem_singleton.mp hleaf ▸ he)

end Walked

section Sweeps

variable {destShown operationsShown : Path} {σ E : Type} {metadata : Path → Except FsError Metadata}
  {mountRoot : Path → Except FsError MountRoot} {lister : Lister σ E} {space : σ} {stash : σ → Option Fault}

structure Answering (metadata : Path → Except FsError Metadata) (mountRoot : Path → Except FsError MountRoot)
    (lister : Lister σ E) (listing : Path → Listed) (space : σ) (tree : Folder) : Prop where
  lawful : ∃ Live : σ → Remainders E → Prop, Lawful Live lister listing ∧ Live space []
  single : SingleNames listing
  lists : ListsOrFails listing [] tree
  answers : tree.Answers (sweepConfig metadata mountRoot) listing []

variable {listing : Path → Listed} {ids : List Text} {w : World}

lemma partialOf_partialName {dir : Path} {stem : Bytes} (hs : stem ≠ []) (hid : isId id = true) (hmem : id ∈ ids) :
    partialOf ids (dir ++ [partialName stem id]) = some id := by
  rw [partialOf, List.getLast?_append_cons, List.getLast?_singleton]
  simp [idAfter_partialName hs hid, hmem]

lemma ne_nil_of_partialOf (h : partialOf ids path = some id) : path ≠ [] := by
  rintro rfl
  simp [partialOf] at h

lemma noPartials_of_swept {events : List RawEvent} {kept : List Text}
    (hd : Answering metadata mountRoot lister listing space w.tree) (hw : Going NoPartials w)
    (he : WalkEvents (sweepConfig metadata mountRoot) listing events) (ho : Observed ids Partials.none events p)
    (hswept : Swept NoPartials p.found (if p.unlistable then ids else []) kept w w') (hid : isId id = true)
    (hmem : id ∈ ids) (hgone : id ∉ kept) : NoPartials w'.tree id := by
  intro dir stem kind hs hk hr hat
  have hlisted : p.unlistable = false := by
    cases hu : p.unlistable with
    | false => rfl
    | true =>
      have hkept := hswept.kept
      rw [hu] at hkept
      exact absurd (hkept hmem) hgone
  have hclean : ∀ e, .error e ∉ events := by
    intro e herr
    rw [ho.missed e herr] at hlisted
    cases hlisted
  have hevent := leaf_reported hw.wellFormed hd.lists hd.answers he hclean (hswept.fewer _ _ hat) hk
  have hfound := ho.noted _ id hevent hr (partialOf_partialName hs hid hmem)
  exact (hswept.done _ hfound).elim hgone fun h => h kind hat

lemma achieves_partialsUnder {events : List RawEvent} {e : Fault → World → Prop}
    (hd : Answering metadata mountRoot lister listing space w.tree)
    (he : WalkEvents (sweepConfig metadata mountRoot) listing events) :
    Achieves (Course.ofAttempt (partialsUnder destShown operationsShown ids (sweepConfig metadata mountRoot)
      lister space))
      (fun r w' => w = w' ∧ (r.1, r.2.1) = Partials.none.observed destShown operationsShown ids events) e w := by
  obtain ⟨Live, hlawful, hlive⟩ := hd.lawful
  exact .ofAttempt ((partialsUnder_returns hlawful hlive he).imp fun _ h => ⟨rfl, h⟩)

variable {shown : Text → Path} {onRemoved : Path → World → World}

def Clean (ids gone : List Text) (w' : World) : Prop :=
  Going NoPartials w' ∧ ∀ id ∈ gone, id ∈ ids ∧ NoPartials w'.tree id

lemma achieves_sweepPartials (hd : Answering metadata mountRoot lister listing space w.tree)
    (hw : Going NoPartials w) (hids : ∀ id ∈ ids, isId id = true) (hreport : ∀ path w, Same w (onRemoved path w)) :
    Achieves (sweepPartials destShown operationsShown ids (sweepConfig metadata mountRoot) lister shown
      onRemoved space stash) (fun gone w' => Clean ids gone w') (fun _ w' => Ended NoPartials w') w := by
  rw [sweepPartials]
  split
  · exact .pure ⟨hw, by simp⟩
  obtain ⟨events, he⟩ := exists_walkEvents (sweepConfig metadata mountRoot) hd.single
  refine .bind (achieves_partialsUnder hd he) ?_
  rintro ⟨walked, p, space'⟩ _ ⟨rfl, ho⟩
  refine .bind (.modify (Q := fun _ w' => Same w w') ⟨rfl, rfl⟩) ?_
  rintro - w₁ hsame
  have hw₁ := hw.congr hsame.tree hsame.events
  cases walked with
  | error e =>
    dsimp only
    cases stash space' with
    | none => exact .throw hw₁.ended
    | some fault =>
      refine .bind (.modify (Q := fun _ w' => Ended NoPartials w') (hw₁.refused fault)) fun _ _ h => .throw h
  | ok _ =>
    have hobserved := observed_ok ho.symm
    have hpaths : ∀ x ∈ p.found, x.1 ≠ [] := by
      intro x hx
      exact (hobserved.sound x hx).elim (fun hx => by cases hx) ne_nil_of_partialOf
    refine .bind (.ofAct (wp_removeAll hreport p.found _ hpaths hw₁)) fun kept w' hswept =>
      .pure ⟨hswept.going, ?_⟩
    intro id hid
    rw [List.mem_filter, decide_eq_true_eq] at hid
    exact ⟨hid.1, noPartials_of_swept (hsame.tree.symm ▸ hd) hw₁ he hobserved hswept (hids id hid.1) hid.1 hid.2⟩

lemma achieves_sweepPartials_fatal (hd : Answering metadata mountRoot lister listing space w.tree) (hne : ids ≠ [])
    {events : List RawEvent} (he : WalkEvents (sweepConfig metadata mountRoot) listing events)
    (hfatal : ∃ e ∈ events, isFatal e = true) :
    Achieves (sweepPartials destShown operationsShown ids (sweepConfig metadata mountRoot) lister shown
      onRemoved space stash) (fun _ _ => False) (fun _ w' => w'.tree = w.tree ∧ w'.states = w.states) w := by
  rw [sweepPartials, if_neg hne]
  refine .bind (achieves_partialsUnder hd he) ?_
  rintro ⟨walked, p, space'⟩ _ ⟨rfl, ho⟩
  refine .bind (.modify (Q := fun _ w' => w'.tree = w.tree ∧ w'.states = w.states) ⟨rfl, rfl⟩) ?_
  rintro - w₁ hsame
  cases walked with
  | error e =>
    dsimp only
    cases stash space' with
    | none => exact .throw hsame
    | some fault =>
      exact .bind (.modify (Q := fun _ w' => w'.tree = w.tree ∧ w'.states = w.states) hsame) fun _ _ h => .throw h
  | ok _ =>
    obtain ⟨e, hmem, he⟩ := hfatal
    rw [(observed_ok ho.symm).calm e hmem] at he
    cases he

end Sweeps

section States

variable {clean : Folder → Text → Prop} {w : World}

structure Keeps (clean : Folder → Text → Prop) (w w' : World) : Prop where
  going : Going clean w'
  tree : w'.tree = w.tree
  faults : w'.faults = w.faults

lemma Keeps.of_ticked (h : Keeps clean w.ticked w') : Keeps clean w w' := ⟨h.going, h.tree, h.faults⟩

lemma Keeps.trans {w'' : World} (h : Keeps clean w w') (h' : Keeps clean w' w'') : Keeps clean w w'' :=
  ⟨h'.going, h'.tree.trans h.tree, h'.faults.trans h.faults⟩

lemma wp_writeState (s : OperationState) (h : Going clean w) :
    wp (writeState s) (fun _ w' => Keeps clean w w') (fun _ w' => Keeps clean w w') w := by
  rw [writeState, wp_bind]
  refine wp_mono wp_call ?_ fun _ _ hw => hw ▸ ⟨h.congr rfl rfl, rfl, rfl⟩
  rintro - _ rfl
  rw [wp_modify]
  exact ⟨.happened (h.congr rfl rfl) (by simp) (by simp), rfl, rfl⟩

lemma wp_removeState (h : Going clean w) (hclean : clean w.tree id) :
    wp (removeState id) (fun _ w' => Keeps clean w w') (fun _ w' => Keeps clean w w') w := by
  have hretired : Going clean (w.happened (.retired id w.tree)) := by
    refine h.happened (by simp) fun id' tree he => ?_
    obtain ⟨rfl, rfl⟩ := Event.retired.inj he
    exact hclean
  rw [removeState, wp_bind, wp_modify, wp_bind]
  refine wp_mono wp_call ?_ fun _ _ hw => hw ▸ ⟨hretired.congr rfl rfl, rfl, rfl⟩
  rintro - _ rfl
  rw [wp_bind, wp_modify]
  refine wp_mono wp_call (fun _ _ hw => hw ▸ ⟨hretired.congr rfl rfl, rfl, rfl⟩) fun _ _ hw =>
    hw ▸ ⟨hretired.congr rfl rfl, rfl, rfl⟩

end States

section Supersedes

variable {clean : Folder → Text → Prop} {place : Place} {own : Text} {w : World}

lemma wp_abandonEach (hwrite : ∀ s w, Going clean w →
      wp (place.write s) (fun _ w' => Keeps clean w w') (fun _ w' => Keeps clean w w') w)
    (priors : List PriorOp) (hw : Going clean w) :
    wp (abandonEach place own priors) (fun _ w' => Keeps clean w w') (fun _ w' => Ended clean w') w := by
  induction priors generalizing w with
  | nil => exact ⟨hw, rfl, rfl⟩
  | cons prior priors ih =>
    rw [abandonEach, wp_bind]
    refine wp_mono (wp_check hw) ?_ fun _ _ h => h.1
    rintro - _ rfl
    rw [wp_bind, wp_mapFailure]
    refine wp_mono (hwrite _ w.ticked (hw.congr rfl rfl)) ?_ fun _ _ h => h.1.ended
    intro _ w₁ h₁
    exact wp_mono (ih h₁.going) (fun _ _ h => h₁.of_ticked.trans h) fun _ _ h => h

lemma wp_removeEach (hremove : ∀ id w, Going clean w → clean w.tree id →
      wp (place.remove id) (fun _ w' => Keeps clean w w') (fun _ w' => Keeps clean w w') w)
    {gone : List Text} (priors : List PriorOp) (hw : Going clean w) (hgone : ∀ id ∈ gone, clean w.tree id) :
    wp (removeEach place gone priors) (fun _ w' => Going clean w') (fun _ w' => Ended clean w') w := by
  induction priors generalizing w with
  | nil => exact hw
  | cons prior priors ih =>
    rw [removeEach]
    split
    · rename_i hmem
      rw [wp_bind]
      refine wp_mono (wp_check hw) ?_ fun _ _ h => h.1
      rintro - _ rfl
      rw [wp_bind, wp_attempt]
      refine wp_mono (hremove _ w.ticked (hw.congr rfl rfl) (hgone _ hmem)) ?_ ?_
      · rintro - w₁ ⟨hw₁, htree, -⟩
        exact ih hw₁ (htree.symm ▸ hgone)
      · rintro e w₁ ⟨hw₁, htree, -⟩
        rw [wp_bind, wp_modify]
        exact ih (hw₁.congr rfl rfl) (htree.symm ▸ hgone)
    · exact ih hw hgone

end Supersedes

section Files

variable {dirShown : Path} {target : Bytes} {own : Text} {w : World}

def NoPartial (target : Bytes) (tree : Folder) (id : Text) : Prop :=
  ∀ kind, tree.at [partialName target id] ≠ some (.leaf kind)

lemma NoPartial.fewer {tree tree' : Folder} (h : NoPartial target tree id) (hf : Fewer tree tree') :
    NoPartial target tree' id := fun kind hat => h kind (hf _ _ hat)

/-- A name that is there is never answered with `NotFound`. -/
def Honest (w : World) : Prop := ∀ n e, w.faults n = some e → isNotFound e = false

lemma Honest.congr (h : Honest w) (hf : w'.faults = w.faults) : Honest w' := fun n e he => h n e (hf ▸ he)

lemma wp_call_honest (h : Honest w) :
    wp call (fun _ w' => w' = w.ticked) (fun e w' => w' = w.ticked ∧ isNotFound e = false) w := by
  simp only [wp, call]
  cases hf : w.faults w.clock with
  | none => exact rfl
  | some e => exact ⟨rfl, h _ _ hf⟩

lemma wp_removeFile_honest (path : Path) (h : Honest w) :
    wp (removeFile path) (fun _ w' => Removed path w w' ∧ w'.faults = w.faults)
      (fun e w' => Same w w' ∧ w'.faults = w.faults ∧ (isNotFound e = true → w.tree.at path = none)) w := by
  rw [removeFile, wp_bind]
  refine wp_mono (wp_call_honest h) ?_ ?_
  · rintro - _ rfl
    rw [wp_bind, wp_get]
    split
    · exact ⟨⟨rfl, rfl⟩, rfl⟩
    · refine ⟨⟨rfl, rfl⟩, rfl, fun hn => ?_⟩
      cases hn
    · exact ⟨⟨rfl, rfl⟩, rfl, fun _ => ‹_›⟩
  · rintro e _ ⟨rfl, he⟩
    refine ⟨⟨rfl, rfl⟩, rfl, fun hn => ?_⟩
    rw [he] at hn
    cases hn

structure FileSwept (target : Bytes) (w : World) (gone : List Text) (w' : World) : Prop where
  going : Going (NoPartial target) w'
  fewer : Fewer w.tree w'.tree
  gone : ∀ id ∈ gone, NoPartial target w'.tree id

lemma FileSwept.cons {w₁ : World} {gone : List Text} (h : FileSwept target w₁ gone w')
    (hfewer : Fewer w.tree w₁.tree) (hid : NoPartial target w₁.tree id) : FileSwept target w (id :: gone) w' :=
  ⟨h.going, hfewer.trans h.fewer, List.forall_mem_cons.mpr ⟨hid.fewer h.fewer, h.gone⟩⟩

lemma wp_fileSweep (priors : List PriorOp) (hw : Going (NoPartial target) w) (hh : Honest w) :
    wp (fileSweep dirShown target priors) (fun gone w' => FileSwept target w gone w')
      (fun _ w' => Ended (NoPartial target) w') w := by
  induction priors generalizing w with
  | nil => exact ⟨hw, .refl _, by simp⟩
  | cons prior priors ih =>
    rw [fileSweep, wp_bind]
    refine wp_mono (wp_check hw) ?_ fun _ _ h => h.1
    rintro - _ rfl
    have hticked : Going (NoPartial target) w.ticked := hw.congr rfl rfl
    rw [wp_bind, wp_attempt]
    refine wp_mono (wp_removeFile_honest (w := w.ticked) _ hh) ?_ ?_
    · rintro - w₁ ⟨hr, hf⟩
      obtain ⟨hfewer, hgone⟩ := hr.fewer hticked (List.cons_ne_nil _ _)
      rw [wp_map]
      exact wp_mono (ih (hticked.removed hr) (hh.congr hf)) (fun _ _ h => h.cons hfewer hgone) fun _ _ h => h
    · rintro e w₁ ⟨hsame, hf, habsent⟩
      have hw₁ := hticked.congr hsame.tree hsame.events
      dsimp only
      split
      · rename_i hn
        rw [wp_map]
        refine wp_mono (ih hw₁ (hh.congr hf)) (fun _ _ h => h.cons (hsame.tree ▸ .refl _) ?_) fun _ _ h => h
        intro kind hat
        rw [hsame.tree, habsent hn] at hat
        cases hat
      · rw [wp_bind, wp_modify]
        refine wp_mono (ih (w := w₁.warn _) (hw₁.congr rfl rfl) (hh.congr hf)) (fun gone w' h => ?_) fun _ _ h => h
        have hfewer : Fewer w₁.tree w'.tree := h.fewer
        exact ⟨h.going, hsame.tree ▸ hfewer, h.gone⟩

lemma achieves_supersede_file (priors : List PriorOp) (hw : Going (NoPartial target) w) (hh : Honest w) :
    Achieves (supersede (filePlace dirShown target) own priors) (fun _ w' => Going (NoPartial target) w')
      (fun _ w' => Ended (NoPartial target) w') w := by
  rw [supersede]
  refine .bind (.ofAct (wp_abandonEach (fun s w h => wp_writeState s h) priors hw)) ?_
  rintro - w₁ ⟨hw₁, -, hfaults⟩
  refine .bind (.ofAct (wp_fileSweep priors hw₁ (hh.congr hfaults))) fun gone w₂ h₂ => ?_
  refine .ofAct (wp_removeEach (fun id w h hclean => ?_) priors h₂.going h₂.gone)
  exact (wp_mapFailure _ _).mpr (wp_removeState h hclean)

end Files

section Trees

variable {destShown operationsShown : Path} {σ E : Type} {metadata : Path → Except FsError Metadata}
  {mountRoot : Path → Except FsError MountRoot} {lister : Lister σ E} {space : σ} {stash : σ → Option Fault}
  {listing : Path → Listed} {w : World} {own : Text} {scratch : Bool}

lemma wp_placeScratch (hw : Going NoPartials w) : wp (placeScratch operationsShown scratch own)
    (fun _ w' => Keeps NoPartials w w') (fun _ w' => Ended NoPartials w') w := by
  rw [placeScratch]
  split
  · rw [wp_mapFailure]
    refine wp_mono wp_call ?_ ?_
    · rintro - _ rfl
      exact ⟨hw.congr rfl rfl, rfl, rfl⟩
    · rintro - _ rfl
      exact hw.ended.congr rfl
  · exact ⟨hw, rfl, rfl⟩

lemma achieves_treeSweep (hd : Answering metadata mountRoot lister listing space w.tree) (hw : Going NoPartials w)
    (priors : List PriorOp) (hids : ∀ p ∈ priors, isId p.state.operationId = true) :
    Achieves (treeSweep destShown operationsShown (sweepConfig metadata mountRoot) lister space stash
      scratch own priors)
      (fun gone w' => Going NoPartials w' ∧ ∀ id ∈ gone, NoPartials w'.tree id)
      (fun _ w' => Ended NoPartials w') w := by
  rw [treeSweep]
  split
  · exact .pure ⟨hw, by simp⟩
  · refine .bind (.ofAct (wp_placeScratch hw)) ?_
    rintro - w₁ ⟨hw₁, htree, -⟩
    have hvalid : ∀ id ∈ (priors.map fun p => p.state.operationId).dedup, isId id = true := by
      intro id hid
      obtain ⟨p, hp, rfl⟩ := List.mem_map.mp (List.mem_dedup.mp hid)
      exact hids p hp
    refine (achieves_sweepPartials (htree.symm ▸ hd) hw₁ hvalid fun _ _ => ⟨rfl, rfl⟩).mono ?_ fun _ _ h => h
    exact fun gone w' h => ⟨h.1, fun id hid => (h.2 id hid).2⟩

lemma achieves_supersede (hd : Answering metadata mountRoot lister listing space w.tree) (hw : Going NoPartials w)
    (priors : List PriorOp) (hids : ∀ p ∈ priors, isId p.state.operationId = true) :
    Achieves (supersede (treePlace destShown operationsShown (sweepConfig metadata mountRoot) lister space
      stash scratch own) own priors) (fun _ w' => Going NoPartials w') (fun _ w' => Ended NoPartials w') w := by
  rw [supersede]
  refine .bind (.ofAct (wp_abandonEach (fun s w h => wp_writeState s h) priors hw)) ?_
  rintro - w₁ ⟨hw₁, htree, -⟩
  refine .bind (achieves_treeSweep (htree.symm ▸ hd) hw₁ priors hids) ?_
  rintro gone w₂ ⟨hw₂, hgone⟩
  refine .ofAct (wp_removeEach (fun id w h hclean => ?_) priors hw₂ hgone)
  exact (wp_mapFailure _ _).mpr (wp_removeState h hclean)

lemma wp_retireIfGone {gone : List Text} (hw : Going NoPartials w) (hgone : ∀ id ∈ gone, NoPartials w.tree id) :
    wp (retireIfGone operationsShown id gone) (fun _ w' => Going NoPartials w')
    (fun _ w' => Ended NoPartials w') w := by
  rw [retireIfGone]
  split
  · rename_i hmem
    rw [wp_bind]
    refine wp_mono (wp_check hw) ?_ fun _ _ h => h.1
    rintro - _ rfl
    rw [wp_bind, wp_attempt]
    exact wp_mono (wp_removeState (w := w.ticked) (hw.congr rfl rfl) (hgone id hmem)) (fun _ _ h =>
      h.1.congr rfl rfl)
      fun _ _ h => h.1.congr rfl rfl
  · exact hw

lemma achieves_sweepOne (hd : Answering metadata mountRoot lister listing space w.tree) (hw : Going NoPartials w)
    (hid : isId id = true) :
    Achieves (sweepOne destShown operationsShown (sweepConfig metadata mountRoot) lister space stash id)
      (fun _ w' => Going NoPartials w') (fun _ w' => Ended NoPartials w') w := by
  rw [sweepOne]
  refine .bind (.get (Q := fun _ w' => w = w') rfl) ?_
  rintro before _ rfl
  refine .bind (.modify (Q := fun _ w' => Same w w') ⟨rfl, rfl⟩) ?_
  rintro - w₁ hsame
  have hw₁ := hw.congr hsame.tree hsame.events
  refine .bind (.attempt (achieves_sweepPartials (hsame.tree.symm ▸ hd) hw₁ ?_ fun _ _ => ⟨rfl, rfl⟩)) ?_
  · intro id' hid'
    rw [List.mem_singleton.mp hid']
    exact hid
  rintro (fault | gone) w₂ h₂
  · refine .bind (.modify (Q := fun _ w' => Ended NoPartials w') ?_) fun _ _ h => .throw h
    exact Ended.congr h₂ rfl
  · obtain ⟨hw₂, hgone⟩ := h₂
    refine .bind (.modify (Q := fun _ w' => Same w₂ w') ⟨rfl, rfl⟩) ?_
    rintro - w₃ hsame'
    refine .ofAct (wp_retireIfGone (hw₂.congr hsame'.tree hsame'.events) fun id hid => ?_)
    rw [hsame'.tree]
    exact (hgone id hid).2

lemma wp_writeAbandoned (s : OperationState) (hw : Going NoPartials w) :
    wp (writeAbandoned s) (fun _ w' => Keeps NoPartials w w') (fun _ w' => Keeps NoPartials w w') w := by
  rw [writeAbandoned, wp_bind]
  refine wp_mono wp_call ?_ fun _ _ h => h ▸ ⟨hw.congr rfl rfl, rfl, rfl⟩
  rintro - _ rfl
  exact wp_mono (wp_writeState _ (hw.congr rfl rfl)) (fun _ _ h => h.of_ticked) fun _ _ h => h.of_ticked

lemma achieves_abandonAndSweep (hd : Answering metadata mountRoot lister listing space w.tree)
    (hw : Going NoPartials w) (s : OperationState) (hid : isId s.operationId = true) :
    Achieves (abandonAndSweep destShown operationsShown (sweepConfig metadata mountRoot) lister space stash s)
      (fun _ w' => Going NoPartials w') (fun _ w' => Ended NoPartials w') w := by
  rw [abandonAndSweep]
  split
  · exact achieves_sweepOne hd hw hid
  · refine .bind (.ofAct (wp_mono (wp_check hw) (fun _ _ h => h) fun _ _ h => h.1)) ?_
    rintro - _ rfl
    refine .bind (Q := fun _ w' => Keeps NoPartials w w') (.ofAct ?_) ?_
    · rw [wp_attempt]
      exact wp_mono (wp_writeAbandoned s (hw.congr rfl rfl)) (fun _ _ h => h.of_ticked) fun _ _ h => h.of_ticked
    rintro (e | u) w₁ ⟨hw₁, htree, -⟩
    · exact .modify (hw₁.congr rfl rfl)
    · exact achieves_sweepOne (htree.symm ▸ hd) hw₁ hid

end Trees

theorem state_goes_after_partials {σ E : Type} {metadata : Path → Except FsError Metadata}
    {mountRoot : Path → Except FsError MountRoot} {lister : Lister σ E} {listing : Path → Listed} {space : σ}
    {w : World} (hd : Answering metadata mountRoot lister listing space w.tree) (destShown operationsShown : Path)
    (stash : σ → Option Fault) :
    (Going NoPartials w →
      (∀ ids shown onRemoved, (∀ id ∈ ids, isId id = true) → (∀ path w, Same w (onRemoved path w)) →
        Achieves (sweepPartials destShown operationsShown ids (sweepConfig metadata mountRoot) lister
          shown onRemoved space stash) (fun gone w' => Clean ids gone w') (fun _ w' => Ended NoPartials w') w) ∧
      (∀ scratch own priors, (∀ p ∈ priors, isId p.state.operationId = true) →
        Achieves (supersede (treePlace destShown operationsShown (sweepConfig metadata mountRoot) lister
          space stash scratch
          own) own priors) (fun _ w' => Going NoPartials w') (fun _ w' => Ended NoPartials w') w) ∧
      ∀ s : OperationState, isId s.operationId = true →
        Achieves (abandonAndSweep destShown operationsShown (sweepConfig metadata mountRoot) lister space stash s)
          (fun _ w' => Going NoPartials w') (fun _ w' => Ended NoPartials w') w) ∧
    (∀ target own priors, Going (NoPartial target) w → Honest w →
      Achieves (supersede (filePlace destShown target) own priors) (fun _ w' => Going (NoPartial target) w')
        (fun _ w' => Ended (NoPartial target) w') w) ∧
    ∀ ids shown onRemoved events, ids ≠ [] → WalkEvents (sweepConfig metadata mountRoot) listing events →
      (∃ e ∈ events, isFatal e = true) →
      Achieves (sweepPartials destShown operationsShown ids (sweepConfig metadata mountRoot) lister
        shown onRemoved space
        stash) (fun _ _ => False) (fun _ w' => w'.tree = w.tree ∧ w'.states = w.states) w := by
  refine ⟨fun hw => ⟨?_, ?_, ?_⟩, ?_, ?_⟩
  · intro ids shown onRemoved hids hreport
    exact achieves_sweepPartials hd hw hids hreport
  · intro scratch own priors hids
    exact achieves_supersede hd hw priors hids
  · intro s hid
    exact achieves_abandonAndSweep hd hw s hid
  · intro target own priors hw hh
    exact achieves_supersede_file priors hw hh
  · intro ids shown onRemoved events hne he hfatal
    exact achieves_sweepPartials_fatal hd hne he hfatal

def staleId : Text := List.replicate 32 '0'

def staleTree : Folder := .cons (partialName [110] staleId) (.leaf .file) .nil

def staleWorld : World := ⟨staleTree, fun _ => none, fun _ => none, fun _ => none, 0, [], [], []⟩

def staleReadDir : ReadDir :=
  fun path => if path = [] then ([⟨partialName [110] staleId, .file, none⟩], none) else ([], none)

lemma staleTree_wellFormed : staleTree.WellFormed := by
  refine ⟨⟨⟨?_, ?_⟩, ?_, ?_, ?_⟩, ?_, trivial, trivial⟩
  · decide
  · decide
  · decide
  · decide
  · decide
  · intro item h
    cases h

lemma staleReadDir_orderly : Orderly staleReadDir := by
  constructor
  · intro path e he
    simp only [staleReadDir] at he
    split at he
    · rw [List.mem_singleton.mp he]
      decide
    · cases he
  · intro path
    simp only [staleReadDir]
    split <;> simp

lemma staleListing_root : listingOf staleReadDir [] = .entries staleTree.items none :=
  listingOf_reads staleReadDir_orderly staleTree_wellFormed ⟨.refl _, rfl⟩

lemma staleListing_single : SingleNames (listingOf staleReadDir) := by
  intro path items broken h item hitem
  by_cases hp : path = []
  · rw [hp, staleListing_root] at h
    cases h
    obtain rfl := List.mem_singleton.mp hitem
    exact staleTree_wellFormed.1.isOneComponent
  · have hreads : Reads staleReadDir path .nil := by
      rw [Reads, staleReadDir, if_neg hp]
      exact ⟨.refl _, rfl⟩
    have hempty : Folder.nil.WellFormed := trivial
    rw [listingOf_reads staleReadDir_orderly hempty hreads] at h
    cases h
    cases hitem

lemma stale_answering (metadata : Path → Except FsError Metadata) (mountRoot : Path → Except FsError MountRoot) :
    Answering metadata mountRoot (scratchLister Spill.mergeSorted none staleReadDir) (listingOf staleReadDir)
      (fun _ => []) staleTree where
  lawful := ⟨Lane none, scratchLister_lawful Spill.mergeSorted none staleReadDir_orderly, trivial⟩
  single := staleListing_single
  lists := by
    rw [ListsOrFails, staleListing_root]
  answers := ⟨trivial, trivial⟩

lemma stale_going : Going NoPartials staleWorld :=
  ⟨by simp [staleWorld], staleTree_wellFormed, fun _ _ h => by cases h⟩

def staleOp : PriorOp := ⟨createdV1 staleId .tree [] 0, []⟩

theorem state_goes_after_partials_stale :
    Achieves (supersede (treePlace [] [] (sweepConfig (fun _ => .ok ⟨0, .dir, none, none, .weak ⟨1, 1⟩, none⟩)
      fun _ => .ok .no)
      (scratchLister Spill.mergeSorted none staleReadDir) (fun _ => []) (fun _ => none) false []) [] [staleOp])
      (fun _ w' => Going NoPartials w') (fun _ w' => Ended NoPartials w') staleWorld := by
  refine ((state_goes_after_partials (w := staleWorld) (stale_answering _ _) [] [] fun _ => none).1
    stale_going).2.1 false [] [staleOp] ?_
  intro p hp
  rw [List.mem_singleton.mp hp]
  decide

end Flux.Run
