import Flux.Scratch.Space

namespace Flux.Scratch

open Base Spill

structure World where
  space : Space
  regions : List Region

inductive Event where
  | begin (lane : Lane) (owner : ℕ) (creation : Creation)
  | write (lane : Lane) (offset : ℕ) (bytes : Bytes) (fault : Option (ℕ × IoError))
  | lend (lane : Lane) (creation : Creation)
  | work (lane : Lane) (offset : ℕ) (bytes : Bytes) (fault : Option (ℕ × IoError))
  | setEnd (lane : Lane) (stop : ℕ)
  | read (lane : Lane) (offset len : ℕ) (fault : Option IoError)
  | drop (region : ℕ) (fault : Option IoError)

def work (lane : Lane) (offset : ℕ) (bytes : Bytes) (fault : Option (ℕ × IoError)) (s : Space) : Space :=
  match (s.lanes lane).backing with
  | .opened file => writeAll file offset (written bytes fault) s
  | _ => s

def taken (regions : List Region) : Except FsError Region → List Region
  | .ok region => region :: regions
  | .error _ => regions

def step (w : World) : Event → Attempt Empty (Option (Except FsError Bytes) × World)
  | .begin lane owner creation => do
    let r ← begin lane owner creation w.space
    pure (none, ⟨r.2, taken w.regions r.1⟩)
  | .write lane offset bytes fault => do
    let r ← writeAt lane offset bytes fault w.space
    pure (none, ⟨r.2, w.regions⟩)
  | .lend lane creation => do
    let r ← laneFile lane creation w.space
    pure (none, ⟨r.2, w.regions⟩)
  | .work lane offset bytes fault => pure (none, ⟨work lane offset bytes fault w.space, w.regions⟩)
  | .setEnd lane stop => pure (none, ⟨w.space.setEnd lane stop, w.regions⟩)
  | .read lane offset len fault => do
    let r ← readBlock lane offset len fault w.space
    pure (some r.1, ⟨r.2, w.regions⟩)
  | .drop i fault =>
    match w.regions[i]? with
    | some r => pure (none, ⟨r.drop fault w.space, w.regions.eraseIdx i⟩)
    | none => pure (none, w)

inductive Reached (sizes : Sizes) (shown : String) (ok : Space → Event → Prop) : World → Prop
  | start : Reached sizes shown ok ⟨.unplaced sizes shown, []⟩
  | step {w w' : World} {e : Event} {a : Option (Except FsError Bytes)} :
      Reached sizes shown ok w → ok w.space e → step w e = pure (a, w') → Reached sizes shown ok w'

def Event.Clear (s : Space) : Event → Prop
  | .write lane offset bytes _ | .work lane offset bytes _ =>
    ∀ o data, s.cache.Caches lane o data → ∀ i, offset ≤ i → i < offset + bytes.length →
      i < o ∨ o + data.length ≤ i
  | _ => True

def Event.Asks (n : ℕ) (s : Space) : Event → Prop
  | .read _ _ len _ => len ≤ s.sizes.indexBlock → len = n
  | _ => True

structure Apart (s : Space) : Prop where
  one : ∀ l l' f, (s.lanes l).backing = .opened f → (s.lanes l').backing = .opened f → l = l'
  old : ∀ l f, (s.lanes l).backing = .opened f → f < s.created

def Space.Shows (s : Space) (lane : Lane) (offset : ℕ) (data : Bytes) : Prop :=
  ∃ f, (s.lanes lane).backing = .opened f ∧ slice (s.disk f) offset data.length = data

variable {data : Bytes} {offset : ℕ} {bytes : Bytes} {E : FsError → Space → Prop}

lemma slice_inside {file : Bytes} (h : slice file offset data.length = data) :
    data = [] ∨ offset + data.length ≤ file.length := by
  have hlen := congrArg List.length h
  simp only [slice, List.length_take, List.length_drop] at hlen
  by_cases h0 : data.length = 0
  · exact .inl (List.eq_nil_of_length_eq_zero h0)
  · exact .inr (by omega)

inductive Space.Misreads (s : Space) (lane : Lane) (offset len : ℕ) (fault : Option IoError) : FsError → Prop
  | poisoned {e : FsError} : s.poisonError = some e → Misreads s lane offset len fault e
  | unopened {e : FsError} : (∀ f, (s.lanes lane).backing ≠ .opened f) → Misreads s lane offset len fault e
  | fault {io : IoError} : fault = some io → Misreads s lane offset len fault (s.ioError io)
  | short {f : ℕ} : (s.lanes lane).backing = .opened f → (slice (s.disk f) offset len).length < len →
      Misreads s lane offset len fault (fatal "an index block ends before its recorded length")

def Space.Fresh (s : Space) : Prop := ∀ l o d, s.cache.Caches l o d → s.Shows l o d

structure Sound (sizes : Sizes) (s : Space) : Prop where
  linked : s.cache.Linked
  capacity : s.cache.capacity = sizes.indexCacheBlocks
  sizes : s.sizes = sizes

lemma written_length (bytes : Bytes) (fault : Option (ℕ × IoError)) :
    (written bytes fault).length ≤ bytes.length := by
  cases fault with
  | none => exact le_rfl
  | some fault =>
    rw [written, List.length_take]
    exact Nat.min_le_right _ _

structure Calm (clear : Prop) (s s' : Space) : Prop where
  sound : ∀ sizes, Sound sizes s → Sound sizes s'
  apart : Apart s → Apart s'
  caches : ∀ l o d, s'.cache.Caches l o d → s.cache.Caches l o d
  shows : Apart s → clear → ∀ l o d, s'.cache.Caches l o d → s.Shows l o d → s'.Shows l o d

namespace Calm

variable {clear : Prop} {s s' s'' : Space} {lane : Lane}

lemma refl (s : Space) : Calm clear s s := ⟨fun _ h => h, id, fun _ _ _ h => h, fun _ _ _ _ _ _ h => h⟩

lemma trans (h : Calm clear s s') (h' : Calm clear s' s'') : Calm clear s s'' where
  sound sizes hs := h'.sound sizes (h.sound sizes hs)
  apart ha := h'.apart (h.apart ha)
  caches l o d hd := h.caches l o d (h'.caches l o d hd)
  shows ha hc l o d hd hs := h'.shows (h.apart ha) hc l o d hd (h.shows ha hc l o d (h'.caches l o d hd) hs)

lemma fresh (h : Calm clear s s') (ha : Apart s) (hc : clear) (hf : s.Fresh) : s'.Fresh :=
  fun l o d hd => h.shows ha hc l o d hd (hf l o d (h.caches l o d hd))

lemma of_same (hcache : s'.cache = s.cache) (hsizes : s'.sizes = s.sizes) (hcreated : s'.created = s.created)
    (hbacking : ∀ l, (s'.lanes l).backing = (s.lanes l).backing) (hdisk : s'.disk = s.disk) : Calm clear s s' where
  sound sizes hs := ⟨hcache ▸ hs.linked, hcache ▸ hs.capacity, hsizes.trans hs.sizes⟩
  apart ha := by
    refine ⟨fun l l' f => ?_, fun l f => ?_⟩
    · rw [hbacking, hbacking]
      exact ha.one l l' f
    · rw [hbacking, hcreated]
      exact ha.old l f
  caches l o d hd := hcache ▸ hd
  shows _ _ l o d _ hs := by
    obtain ⟨f, hf, hslice⟩ := hs
    exact ⟨f, (hbacking l).trans hf, hdisk ▸ hslice⟩

lemma setLane {state : LaneState} (hb : state.backing = (s.lanes lane).backing) :
    Calm clear s (s.setLane lane state) := by
  refine of_same rfl rfl rfl (fun l => ?_) rfl
  by_cases hl : l = lane
  · subst hl
    simpa [Space.setLane] using hb
  · simp [Space.setLane, Function.update_of_ne hl]

lemma setEnd (s : Space) (lane : Lane) (stop : ℕ) : Calm clear s (s.setEnd lane stop) := by
  rw [Space.setEnd]
  split
  · exact setLane rfl
  · exact refl s

lemma poison (s : Space) (cause : FsError) : Calm clear s (s.poison cause) :=
  of_same rfl rfl rfl (fun _ => rfl) rfl

lemma setBacking_failed (h : (s.lanes lane).backing = .notCreated) (code : Code) (message : String) :
    Calm clear s (s.setBacking lane (.failed code message)) := by
  have hbacking : ∀ l f, ((s.setBacking lane (.failed code message)).lanes l).backing = .opened f ↔
      (s.lanes l).backing = .opened f := by
    intro l f
    by_cases hl : l = lane
    · subst hl
      simp [Space.setBacking, Space.setLane, h]
    · simp [Space.setBacking, Space.setLane, Function.update_of_ne hl]
  refine ⟨fun _ hs => ⟨hs.linked, hs.capacity, hs.sizes⟩, fun ha => ⟨fun l l' f => ?_, fun l f => ?_⟩,
    fun _ _ _ hd => hd, ?_⟩
  · rw [hbacking, hbacking]
    exact ha.one l l' f
  · rw [hbacking]
    exact ha.old l f
  · rintro - - l o d - ⟨f, hf, hrest⟩
    exact ⟨f, (hbacking l f).mpr hf, hrest⟩

lemma made (h : (s.lanes lane).backing = .notCreated) :
    Calm clear s { s.setBacking lane (.opened s.created) with
      disk := Function.update s.disk s.created []
      created := s.created + 1 } := by
  have hbacking : ∀ l f, ((s.setBacking lane (.opened s.created)).lanes l).backing = .opened f ↔
      (s.lanes l).backing = .opened f ∨ l = lane ∧ f = s.created := by
    intro l f
    by_cases hl : l = lane
    · subst hl
      simp [Space.setBacking, Space.setLane, h, eq_comm]
    · simp [Space.setBacking, Space.setLane, hl]
  refine ⟨fun _ hs => ⟨hs.linked, hs.capacity, hs.sizes⟩, fun ha => ⟨fun l l' f hl hl' => ?_, fun l f hl => ?_⟩,
    fun _ _ _ hd => hd, ?_⟩
  · rcases (hbacking l f).mp hl with hl | ⟨hl, hf⟩ <;> rcases (hbacking l' f).mp hl' with hl' | ⟨hl', hf'⟩
    · exact ha.one l l' f hl hl'
    · exact absurd (hf' ▸ ha.old l f hl) (lt_irrefl _)
    · exact absurd (hf ▸ ha.old l' f hl') (lt_irrefl _)
    · exact hl.trans hl'.symm
  · rcases (hbacking l f).mp hl with hl | ⟨rfl, rfl⟩
    · exact Nat.lt_succ_of_lt (ha.old l f hl)
    · exact Nat.lt_succ_self _
  · rintro ha - l o d - ⟨f, hf, hrest⟩
    have hne : f ≠ s.created := Nat.ne_of_lt (ha.old l f hf)
    refine ⟨f, (hbacking l f).mpr (.inl hf), ?_⟩
    simpa [Function.update_of_ne hne] using hrest

lemma writeAll {file : ℕ} (hfile : (s.lanes lane).backing = .opened file)
    (hclear : clear → ∀ o d, s.cache.Caches lane o d → ∀ i, offset ≤ i → i < offset + bytes.length →
      i < o ∨ o + d.length ≤ i) : Calm clear s (Scratch.writeAll file offset bytes s) := by
  rw [Scratch.writeAll]
  split
  · exact refl s
  · refine ⟨fun _ hs => ⟨hs.linked, hs.capacity, hs.sizes⟩, fun ha => ⟨ha.one, ha.old⟩, fun _ _ _ hd => hd, ?_⟩
    rintro ha hc l o d hd ⟨f, hf, hslice⟩
    refine ⟨f, hf, ?_⟩
    by_cases hff : f = file
    · subst hff
      obtain rfl := ha.one l lane f hf hfile
      obtain rfl | hle := slice_inside hslice
      · rfl
      · exact (writeAt_slice hle (hclear hc o d hd)).trans hslice
    · exact (congrArg (slice · o d.length) (writeAt_of_ne hff offset bytes)).trans hslice

lemma work {fault : Option (ℕ × IoError)}
    (hclear : clear → ∀ o d, s.cache.Caches lane o d → ∀ i, offset ≤ i → i < offset + bytes.length →
      i < o ∨ o + d.length ≤ i) : Calm clear s (Scratch.work lane offset bytes fault s) := by
  rw [Scratch.work]
  split
  · next file hfile =>
    refine writeAll hfile fun hc o d hd i hi hlt => hclear hc o d hd i hi (lt_of_lt_of_le hlt ?_)
    have := written_length bytes fault
    omega
  · exact refl s

lemma invalidateFrom (s : Space) (lane : Lane) (start : ℕ) : Calm clear s (s.invalidateFrom lane start) where
  sound _ hs := ⟨hs.linked.invalidateFrom lane start, hs.capacity, hs.sizes⟩
  apart ha := ⟨ha.one, ha.old⟩
  caches _ _ _ hd := (BlockCache.caches_invalidateFrom hd).1
  shows _ _ _ _ _ _ hs := hs

lemma setLen {file len : ℕ} (hfile : (s.lanes lane).backing = .opened file)
    (hclear : ∀ o d, s.cache.Caches lane o d → o + d.length ≤ len) : Calm clear s (s.setLen file len) where
  sound _ hs := ⟨hs.linked, hs.capacity, hs.sizes⟩
  apart ha := ⟨ha.one, ha.old⟩
  caches _ _ _ hd := hd
  shows := by
    rintro ha - l o d hd ⟨f, hf, hslice⟩
    refine ⟨f, hf, ?_⟩
    by_cases hff : f = file
    · subst hff
      obtain rfl := ha.one l lane f hf hfile
      have hlen := hclear o d hd
      obtain rfl | hle := slice_inside hslice
      · rfl
      · simp only [Space.setLen, Function.update_self]
        rw [← hslice, slice_length hle, slice, List.drop_take, List.take_take, Nat.min_eq_left (by omega)]
        exact slice_append_left _ hle
    · simp only [Space.setLen, Function.update_of_ne hff]
      exact hslice

lemma truncate (s : Space) (lane : Lane) (start : ℕ) (fault : Option IoError) :
    Calm clear s (s.truncate lane start fault) := by
  have hcut : Calm clear s _ := invalidateFrom s lane start
  unfold Space.truncate
  dsimp only
  split
  · next hfile => exact hcut.trans (setLen hfile fun o d hd => (BlockCache.caches_invalidateFrom hd).2 rfl)
  · exact hcut.trans (poison _ _)
  · exact hcut

lemma drop (r : Region) (fault : Option IoError) (s : Space) : Calm clear s (r.drop fault s) := by
  have hcut : Calm clear s (r.cut fault s) := by
    rw [Region.cut]
    split
    · exact (truncate s r.lane r.start fault).trans (setLane rfl)
    · exact refl s
  exact hcut.trans (setLane rfl)

end Calm

section Calls

variable {clear : Prop} (s : Space) (lane : Lane)

lemma checkUsable_spec :
    Achieves checkUsable (fun _ t => t = s) (fun e t => t = s ∧ s.poisonError = some e) s := by
  refine Achieves.get_bind ?_
  cases hp : s.poisonError with
  | none => exact .pure rfl
  | some e => exact .throw ⟨rfl, rfl⟩

lemma openFile_spec : Achieves (openFile lane) (fun f t => t = s ∧ (s.lanes lane).backing = .opened f)
    (fun _ t => t = s ∧ ∀ f, (s.lanes lane).backing ≠ .opened f) s := by
  refine Achieves.get_bind ?_
  cases hb : (s.lanes lane).backing with
  | opened f => exact .pure ⟨rfl, rfl⟩
  | notCreated => exact .throw ⟨rfl, fun _ h => by cases h⟩
  | failed code message => exact .throw ⟨rfl, fun _ h => by cases h⟩
  | closed => exact .throw ⟨rfl, fun _ h => by cases h⟩

lemma ensureOpen_calm (creation : Creation) :
    Achieves (ensureOpen lane creation) (fun _ => Calm clear s) (fun _ => Calm clear s) s := by
  refine Achieves.get_bind ?_
  cases hb : (s.lanes lane).backing with
  | opened f => exact .pure (.refl s)
  | failed code message => exact .throw (.refl s)
  | closed => exact .throw (.refl s)
  | notCreated =>
    cases creation with
    | homeless e => exact .throw (.refl s)
    | failed code message => exact Achieves.set_bind (.throw (.setBacking_failed hb code message))
    | made => exact Achieves.set_bind (f := pure) (.pure (.made hb))

lemma usable_bind {α : Type} {f : Unit → Use α} {Q : α → Space → Prop}
    (herr : ∀ e, s.poisonError = some e → E e s) (h : Achieves (f ()) Q E s) :
    Achieves (checkUsable >>= f) Q E s := by
  refine Achieves.bind ((checkUsable_spec s).mono (fun _ _ h => h) ?_) ?_
  · rintro e t ⟨rfl, he⟩
    exact herr e he
  · rintro - t rfl
    exact h

lemma openFile_bind {α : Type} {f : ℕ → Use α} {Q : α → Space → Prop}
    (herr : ∀ e, (∀ f, (s.lanes lane).backing ≠ .opened f) → E e s)
    (h : ∀ file, (s.lanes lane).backing = .opened file → Achieves (f file) Q E s) :
    Achieves (openFile lane >>= f) Q E s := by
  refine Achieves.bind ((openFile_spec s lane).mono (fun _ _ h => h) ?_) ?_
  · rintro e t ⟨rfl, he⟩
    exact herr e he
  · rintro file t ⟨rfl, hfile⟩
    exact h file hfile

lemma begin_calm (owner : ℕ) (creation : Creation) :
    Achieves (begin lane owner creation) (fun _ => Calm clear s) (fun _ => Calm clear s) s := by
  refine usable_bind s (fun _ _ => .refl s) (Achieves.get_bind ?_)
  dsimp only
  split
  · exact .throw (.refl s)
  · refine Achieves.bind (ensureOpen_calm s lane creation) ?_
    intro _ u hu
    exact Achieves.get_bind (Achieves.set_bind (.pure (hu.trans (.setLane rfl))))

lemma laneFile_calm (creation : Creation) :
    Achieves (laneFile lane creation) (fun _ => Calm clear s) (fun _ => Calm clear s) s := by
  refine usable_bind s (fun _ _ => .refl s) (Achieves.bind (ensureOpen_calm s lane creation) ?_)
  intro _ u hu
  refine (openFile_spec u lane).mono ?_ ?_
  · rintro f t ⟨rfl, -⟩
    exact hu
  · rintro e t ⟨rfl, -⟩
    exact hu

lemma writeAt_calm (fault : Option (ℕ × IoError))
    (hclear : clear → ∀ o d, s.cache.Caches lane o d → ∀ i, offset ≤ i → i < offset + bytes.length →
      i < o ∨ o + d.length ≤ i) :
    Achieves (writeAt lane offset bytes fault) (fun _ => Calm clear s) (fun _ => Calm clear s) s := by
  refine usable_bind s (fun _ _ => .refl s) (openFile_bind s lane (fun _ _ => .refl s) fun file hfile => ?_)
  have hw : Calm clear s (writeAll file offset (written bytes fault) s) := by
    refine .writeAll hfile fun hc o d hd i hi hlt => hclear hc o d hd i hi (lt_of_lt_of_le hlt ?_)
    have := written_length bytes fault
    omega
  refine Achieves.modify_bind ?_
  cases fault with
  | none => exact Achieves.modify_bind (f := pure) (.pure (hw.trans (.setEnd _ lane _)))
  | some fault => exact Achieves.get_bind (.throw hw)

lemma readAt_spec (offset len : ℕ) (fault : Option IoError) :
    Achieves (readAt lane offset len fault)
      (fun data t => t = s ∧ ∃ f, (s.lanes lane).backing = .opened f ∧ data = slice (s.disk f) offset len)
      (fun e t => t = s ∧ s.Misreads lane offset len fault e) s := by
  refine usable_bind s (fun _ he => ⟨rfl, .poisoned he⟩) (openFile_bind s lane (fun _ he => ⟨rfl, .unopened he⟩)
    fun file hfile => Achieves.get_bind ?_)
  cases fault with
  | none => exact .pure ⟨rfl, file, hfile, rfl⟩
  | some e => exact .throw ⟨rfl, .fault rfl⟩

end Calls

structure Served (s : Space) (lane : Lane) (offset len : ℕ) (data : Bytes) (t : Space) : Prop where
  same : t = { s with cache := t.cache }
  linked : t.cache.Linked
  capacity : t.cache.capacity = s.cache.capacity
  caches : ∀ l o d, t.cache.Caches l o d →
    s.cache.Caches l o d ∨ l = lane ∧ o = offset ∧ d = data ∧ len ≤ s.sizes.indexBlock
  data : s.cache.Caches lane offset data ∧ len ≤ s.sizes.indexBlock ∨ s.Shows lane offset data ∧ data.length = len

lemma linked_misses {c : BlockCache} (h : c.Linked) (n : ℕ) : BlockCache.Linked { c with misses := n } :=
  ⟨h.mapped, h.room, h.hand⟩

lemma shows_slice {s : Space} {lane : Lane} {f len : ℕ} (hf : (s.lanes lane).backing = .opened f)
    (h : ¬ (slice (s.disk f) offset len).length < len) :
    s.Shows lane offset (slice (s.disk f) offset len) ∧ (slice (s.disk f) offset len).length = len := by
  have hle : (slice (s.disk f) offset len).length ≤ len := by
    rw [slice, List.length_take]
    exact Nat.min_le_left _ _
  have hlen : (slice (s.disk f) offset len).length = len := by omega
  exact ⟨⟨f, hf, by rw [hlen]⟩, hlen⟩

section Reads

variable {s : Space} {lane : Lane} {offset len : ℕ}

lemma cached_spec {f : BlockCache → Attempt Empty (Option Bytes × BlockCache)}
    (post : Option Bytes → BlockCache → Prop) (h : Returns (f s.cache) fun r => post r.1 r.2) :
    Achieves (cached f) (fun r t => t = { s with cache := t.cache } ∧ post r t.cache) E s := by
  refine Achieves.get_bind (Achieves.bind
    (Achieves.ofAttempt (Q := fun r t => t = s ∧ post r.1 r.2) (h.imp fun r hr => ⟨rfl, hr⟩)) ?_)
  rintro ⟨r, c⟩ t ⟨rfl, hpost⟩
  exact Achieves.set_bind (.pure ⟨rfl, hpost⟩)

lemma readMissing_spec (hs : s.cache.Linked) (fault : Option IoError) (keep : Bool)
    (hmiss : keep = true → s.cache.map (lane, offset) = none ∧ len ≤ s.sizes.indexBlock) :
    Achieves (readMissing lane offset len fault keep) (Served s lane offset len)
      (fun e t => t = s ∧ s.Misreads lane offset len fault e) s := by
  refine Achieves.bind (readAt_spec s lane offset len fault) ?_
  rintro data t ⟨rfl, f, hf, rfl⟩
  dsimp only
  split
  · next hshort => exact .throw ⟨rfl, .short hf hshort⟩
  next hlong =>
  obtain ⟨hshows, hlen⟩ := shows_slice hf hlong
  refine Achieves.modify_bind ?_
  cases keep with
  | false => exact .pure ⟨rfl, linked_misses hs _, rfl, fun _ _ _ hd => .inl hd, .inr ⟨hshows, hlen⟩⟩
  | true =>
    obtain ⟨hnone, hle⟩ := hmiss rfl
    refine Achieves.bind (cached_spec (fun _ c => c.Linked ∧ c.capacity = t.cache.capacity ∧ ∀ l o d,
      c.Caches l o d → (l = lane ∧ o = offset ∧ d = slice (t.disk f) offset len) ∨ t.cache.Caches l o d) ?_) ?_
    · refine (BlockCache.insert_returns (linked_misses hs (t.cache.misses + 1)) hnone).bind ?_
      intro c hc
      exact .pure hc
    · rintro - u ⟨hu, hlinked, hcap, hcaches⟩
      refine .pure ⟨hu, hlinked, hcap, fun l o d hd => ?_, .inr ⟨hshows, hlen⟩⟩
      rcases hcaches l o d hd with ⟨hl, ho, hd⟩ | hd
      · exact .inr ⟨hl, ho, hd, hle⟩
      · exact .inl hd

lemma readBlock_spec (hs : s.cache.Linked) (fault : Option IoError) :
    Achieves (readBlock lane offset len fault) (Served s lane offset len)
      (fun e t => t = s ∧ s.Misreads lane offset len fault e) s := by
  refine usable_bind s (fun _ he => ⟨rfl, .poisoned he⟩) (Achieves.get_bind ?_)
  split
  · next hle =>
    refine Achieves.bind (cached_spec (fun r c => c.Linked ∧ (∀ l o d, c.Caches l o d → s.cache.Caches l o d) ∧
      c.capacity = s.cache.capacity ∧ (∀ d, r = some d → s.cache.Caches lane offset d) ∧
      (r = none → c = s.cache ∧ s.cache.map (lane, offset) = none)) (BlockCache.get_returns hs lane offset)) ?_
    rintro r t ⟨ht, hlinked, hcaches, hcap, hhit, hnone⟩
    cases r with
    | some data =>
      exact .pure ⟨ht, hlinked, hcap, fun l o d hd => .inl (hcaches l o d hd), .inl ⟨hhit data rfl, hle⟩⟩
    | none =>
      obtain ⟨hc, hmap⟩ := hnone rfl
      rw [hc] at ht
      subst ht
      exact readMissing_spec hs fault true fun _ => ⟨hmap, hle⟩
  · exact readMissing_spec hs fault false fun h => by cases h

end Reads

namespace Served

variable {s t : Space} {lane : Lane} {offset len : ℕ} {data : Bytes}

lemma sound {sizes : Sizes} (h : Served s lane offset len data t) (hs : Sound sizes s) : Sound sizes t :=
  ⟨h.linked, h.capacity.trans hs.capacity, (congrArg Space.sizes h.same).trans hs.sizes⟩

lemma apart (h : Served s lane offset len data t) (ha : Apart s) : Apart t := by
  rw [h.same]
  exact ⟨ha.one, ha.old⟩

lemma shows_iff (h : Served s lane offset len data t) (l : Lane) (o : ℕ) (d : Bytes) :
    t.Shows l o d ↔ s.Shows l o d := by
  rw [h.same]
  rfl

lemma shows (h : Served s lane offset len data t) (hf : s.Fresh) : s.Shows lane offset data := by
  rcases h.data with ⟨hc, -⟩ | ⟨hs, -⟩
  · exact hf _ _ _ hc
  · exact hs

lemma fresh (h : Served s lane offset len data t) (hf : s.Fresh) : t.Fresh := by
  intro l o d hd
  rw [h.shows_iff]
  rcases h.caches l o d hd with hd | ⟨rfl, rfl, rfl, -⟩
  · exact hf l o d hd
  · exact h.shows hf

end Served

def Space.Uniform (n : ℕ) (s : Space) : Prop := ∀ l o d, s.cache.Caches l o d → d.length = n

lemma Served.uniform {s t : Space} {lane : Lane} {len n : ℕ} (h : Served s lane offset len data t)
    (hu : s.Uniform n) (hn : len ≤ s.sizes.indexBlock → len = n) : data.length = len ∧ t.Uniform n := by
  have hlen : data.length = len := by
    rcases h.data with ⟨hc, hle⟩ | ⟨-, hd⟩
    · exact (hu _ _ _ hc).trans (hn hle).symm
    · exact hd
  refine ⟨hlen, fun l o d hd => ?_⟩
  rcases h.caches l o d hd with hd | ⟨-, -, rfl, hle⟩
  · exact hu l o d hd
  · exact hlen.trans (hn hle)

def Moved (s : Space) (e : Event) (a : Option (Except FsError Bytes)) (t : Space) : Prop :=
  (Calm (Event.Clear s e) s t ∧ ∀ data, a ≠ some (.ok data)) ∨
    ∃ lane offset len fault data, e = .read lane offset len fault ∧ a = some (.ok data) ∧
      Served s lane offset len data t

lemma moved_use {α : Type} {x : Use α} {w : World} {e : Event} (regions : Except FsError α → List Region)
    (h : Achieves x (fun _ => Calm (Event.Clear w.space e) w.space) (fun _ => Calm (Event.Clear w.space e) w.space)
      w.space) :
    Returns (x w.space >>= fun r => pure (none, ⟨r.2, regions r.1⟩) : Attempt Empty
      (Option (Except FsError Bytes) × World))
      fun r => Moved w.space e r.1 r.2.space := by
  refine Returns.bind h ?_
  rintro ⟨r, t⟩ hr
  refine .pure (.inl ⟨?_, fun _ ha => by cases ha⟩)
  cases r with
  | ok a => exact hr
  | error e => exact hr

theorem step_moved {w : World} (hs : w.space.cache.Linked) (e : Event) :
    Returns (step w e) fun r => Moved w.space e r.1 r.2.space := by
  cases e with
  | begin lane owner creation => exact moved_use (taken w.regions) (begin_calm _ _ _ _)
  | write lane offset bytes fault => exact moved_use (fun _ => w.regions) (writeAt_calm _ _ _ fun hc => hc)
  | lend lane creation => exact moved_use (fun _ => w.regions) (laneFile_calm _ _ _)
  | work lane offset bytes fault => exact .pure (.inl ⟨.work fun hc => hc, fun _ ha => by cases ha⟩)
  | setEnd lane stop => exact .pure (.inl ⟨.setEnd _ _ _, fun _ ha => by cases ha⟩)
  | read lane offset len fault =>
    refine Returns.bind (readBlock_spec hs fault) ?_
    rintro ⟨r, t⟩ hr
    cases r with
    | ok data => exact .pure (.inr ⟨_, _, _, _, _, rfl, rfl, hr⟩)
    | error e =>
      obtain rfl : t = w.space := hr.1
      exact .pure (.inl ⟨.refl _, fun _ ha => by cases ha⟩)
  | drop i fault =>
    rw [step]
    cases w.regions[i]? with
    | none => exact .pure (.inl ⟨.refl _, fun _ ha => by cases ha⟩)
    | some r => exact .pure (.inl ⟨.drop r fault _, fun _ ha => by cases ha⟩)

namespace Reached

variable {sizes : Sizes} {shown : String} {ok : Space → Event → Prop} {w : World}

lemma sound (h : Reached sizes shown ok w) : Sound sizes w.space := by
  induction h with
  | start => exact ⟨BlockCache.linked_new (lt_of_lt_of_le (by omega) sizes.four_le_blocks), rfl, rfl⟩
  | step _ _ he ih =>
    rcases (step_moved ih.linked _).of_eq he with ⟨hcalm, -⟩ | ⟨_, _, _, _, _, -, -, hserved⟩
    · exact hcalm.sound sizes ih
    · exact hserved.sound ih

lemma fresh (h : Reached sizes shown ok w) (hok : ∀ s e, ok s e → Event.Clear s e) :
    Apart w.space ∧ w.space.Fresh := by
  induction h with
  | start =>
    refine ⟨⟨(fun l l' f hl => by cases hl), (fun l f hl => by cases hl)⟩, ?_⟩
    rintro l o d ⟨s, hs, -⟩
    cases hs
  | step hr hclear he ih =>
    obtain ⟨ha, hf⟩ := ih
    rcases (step_moved hr.sound.linked _).of_eq he with ⟨hcalm, -⟩ | ⟨_, _, _, _, _, -, -, hserved⟩
    · exact ⟨hcalm.apart ha, hcalm.fresh ha (hok _ _ hclear) hf⟩
    · exact ⟨hserved.apart ha, hserved.fresh hf⟩

lemma uniform {n : ℕ} (h : Reached sizes shown ok w) (hok : ∀ s e, ok s e → Event.Asks n s e) :
    w.space.Uniform n := by
  induction h with
  | start =>
    rintro l o d ⟨s, hs, -⟩
    cases hs
  | step hr hclear he ih =>
    rcases (step_moved hr.sound.linked _).of_eq he with ⟨hcalm, -⟩ | ⟨_, _, _, _, _, rfl, -, hserved⟩
    · exact fun l o d hd => ih l o d (hcalm.caches l o d hd)
    · exact (hserved.uniform ih (hok _ _ hclear)).2

lemma served (h : Reached sizes shown ok w) {lane : Lane} {len : ℕ} {fault : Option IoError} {w' : World}
    (he : Scratch.step w (.read lane offset len fault) = pure (some (.ok data), w')) :
    Served w.space lane offset len data w'.space := by
  rcases (step_moved h.sound.linked _).of_eq he with ⟨-, hno⟩ | ⟨_, _, _, _, _, hread, ha, hserved⟩
  · exact absurd rfl (hno data)
  · cases hread
    cases ha
    exact hserved

end Reached

/-- The map and the slots of the cache match and no call panics; while no write lands on a cached block, every
block read is what its lane's file holds there. -/
theorem cached_blocks_current (sizes : Sizes) (shown : String) :
    (∀ w, Reached sizes shown (fun _ _ => True) w →
      (∀ key i, w.space.cache.map key = some i ↔ ∃ s, w.space.cache.slots[i]? = some (some s) ∧ s.key = key) ∧
      w.space.cache.slots.length ≤ sizes.indexCacheBlocks ∧ ∀ e, ∃ r, step w e = pure r) ∧
    (∀ w, Reached sizes shown Event.Clear w → ∀ lane offset len fault data w',
      step w (.read lane offset len fault) = pure (some (.ok data), w') → w.space.Shows lane offset data) ∧
    ∀ n w, Reached sizes shown (fun s e => Event.Clear s e ∧ Event.Asks n s e) w → ∀ lane offset len fault data w',
      (len ≤ sizes.indexBlock → len = n) → step w (.read lane offset len fault) = pure (some (.ok data), w') →
      data.length = len := by
  refine ⟨fun w h => ⟨h.sound.linked.mapped_iff, ?_, fun e => ?_⟩, ?_, ?_⟩
  · have hroom := h.sound.linked.room
    rwa [h.sound.capacity] at hroom
  · obtain ⟨r, hr, -⟩ := step_moved h.sound.linked e
    exact ⟨r, hr⟩
  · intro w h lane offset len fault data w' he
    exact (h.served he).shows (h.fresh fun _ _ hc => hc).2
  · intro n w h lane offset len fault data w' hn he
    have hu := h.uniform fun _ _ hok => hok.2
    exact ((h.served he).uniform hu (h.sound.sizes ▸ hn)).1

def smallest : Sizes :=
  ⟨tiny, 1, 1, 4, 0, 1, 64, Nat.one_ne_zero, Nat.one_ne_zero, tiny.four_le_buffer, Nat.one_ne_zero,
    Nat.le_refl 64, rfl⟩

-- A block is read, the lane grows behind it, and the block is read again, from the cache.
theorem cached_blocks_current_appended : ∃ w w', Reached smallest "" Event.Clear w ∧
    w.space.cache.Caches .names 0 (List.replicate 64 1) ∧
    step w (.read .names 0 64 none) = pure (some (.ok (List.replicate 64 1)), w') ∧
    w.space.Shows .names 0 (List.replicate 64 1) := by
  have h1 : Reached smallest "" Event.Clear _ := .step .start trivial (e := .begin .names 0 .made) rfl
  have h2 := h1.step (e := .write .names 0 (List.replicate 64 1) none) (by
    rintro o data ⟨s, hs, -⟩
    cases hs) rfl
  have h3 := h2.step (e := .read .names 0 64 none) trivial rfl
  have h4 := h3.step (e := .write .names 64 (List.replicate 64 2) none) (by
    rintro o data ⟨s, hs, -, rfl, rfl⟩ i hi -
    cases hs with
    | head => exact .inr hi
    | tail _ hs => cases hs) rfl
  refine ⟨_, _, h4, ⟨_, .head _, rfl, rfl, rfl⟩, rfl, ?_⟩
  exact (cached_blocks_current smallest "").2.1 _ h4 .names 0 64 none (List.replicate 64 1) _ rfl

theorem rewritten_block_served : ∃ w w', Reached smallest "" (fun _ _ => True) w ∧
    step w (.read .names 0 64 none) = pure (some (.ok (List.replicate 64 1)), w') ∧
    ¬ w.space.Shows .names 0 (List.replicate 64 1) := by
  refine ⟨_, _, .step (.step (.step (.step .start trivial (e := .begin .names 0 .made) rfl) trivial
    (e := .write .names 0 (List.replicate 64 1) none) rfl) trivial (e := .read .names 0 64 none) rfl) trivial
    (e := .write .names 0 (List.replicate 64 2) none) rfl, rfl, ?_⟩
  rintro ⟨f, hf, hslice⟩
  cases hf
  revert hslice
  decide

end Flux.Scratch
