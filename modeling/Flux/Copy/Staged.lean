import Flux.Copy.Stage
import Flux.Copy.Prefix

namespace Flux.Copy

open Base Wal

variable {α : Type} {job : Job} {f : Files} {Q : α → Files → Prop}

lemma Frames.atStep {x : M FsError α} (hx : Frames x) (step : CopyStep) : Frames (atStep step x) := hx.mapFailure

lemma yields_discarding (step : CopyStep) (code : Code) (source : IoError) :
    Yields (discarding job step code source : M CopyError α) f Q fun _ _ => True :=
  Ensures.bind (Q := fun _ _ => True) (fun _ _ => wp_true _) fun _ _ _ => Ensures.throw trivial

structure Copying (job : Job) (pending : Bytes) (written : ℕ) (f : Files) : Prop where
  temp : ∃ e, f.temp = some e ∧ e.fileType = .file ∧ e.bytes.length = written ∧
    e.bytes ++ (pending ++ f.source.rest) = job.source.bytes
  hasher : ∀ h, f.hasher = some h → h ++ (pending ++ f.source.rest) = job.source.bytes
  hashing : f.hasher.isSome ↔ job.opts.verify ≠ .none
  pool : ∀ s pool, f.sink = some s → s.hashing = .worker pool → ∀ b ∈ pool, 0 < b

lemma Copying.frames {x : M StreamFail α} {pending : Bytes} {written : ℕ} (hx : Frames x)
    (h : Copying job pending written f) : Yields x f (fun _ => Copying job pending written) fun _ _ => True :=
  Frames.ok hx fun _ => h

lemma Copying.setSink {pending : Bytes} {written : ℕ} (h : Copying job pending written f) {s : Option FileSink}
    (hs : ∀ t pool, s = some t → t.hashing = .worker pool → ∀ b ∈ pool, 0 < b) :
    Copying job pending written { f with sink := s } :=
  ⟨h.temp, h.hasher, h.hashing, hs⟩

lemma yields_begin {pending : Bytes} {written : ℕ} (h : Copying job pending written f) (durability : Durability) :
    Yields (FileSink.begin job durability) f (fun _ => Copying job pending written) fun _ _ => True := by
  refine frames_sinkCall.andThen (fun _ => trivial) fun _ => Yields.setFiles (h.setSink ?_)
  rintro t pool ⟨⟩ ht
  dsimp only at ht
  split at ht <;> cases ht

lemma frames_ifSink {x : M SinkError Unit} (hx : Frames x) : Frames (ifSink x) :=
  Steady.get.bind fun w => by
    split
    · exact Steady.pure _
    · exact hx

lemma yields_beginSink {pending : Bytes} {written : ℕ} (h : Copying job pending written f) (proven : List Digest) :
    Yields (beginSink job proven) f (fun _ => Copying job pending written) fun _ _ => True := by
  rw [beginSink]
  split
  · refine (steady_onlyIf (frames_fsCall _).mapFailure).andThen (fun _ => trivial) fun _ => ?_
    refine Ensures.bind (yields_begin h _).mapFailure fun _ f' h' => ?_
    exact h'.frames (steady_onlyIf (frames_ifSink frames_sinkCall).mapFailure)
  · exact Ensures.pure h

lemma Copying.write {bs pending : Bytes} {written : ℕ} (h : Copying job (bs ++ pending) written f) :
    Yields (do
      feed bs
      (writeAll bs).mapFailure streamFailure) f
      (fun _ f' => Copying job pending (written + bs.length) f' ∧ f'.source = f.source) fun _ _ => True := by
  obtain ⟨e, he, ht, hl, hb⟩ := h.temp
  refine Ensures.bind (Yields.setFiles (Q := fun _ f' => f' = _) rfl) ?_
  rintro - f' rfl
  have he' : ({ f with hasher := f.hasher.map (· ++ bs) } : Files).temp = some e := he
  refine Ensures.mapFailure ((yields_writeAll he' bs).mono ?_ fun _ _ => id)
  rintro - f' rfl
  refine ⟨⟨⟨_, rfl, ht, by rw [List.length_append, hl], ?_⟩, ?_, ?_, h.pool⟩, rfl⟩
  · rw [← hb]
    simp
  · intro g hg
    dsimp only at hg
    obtain ⟨g', hg', rfl⟩ := Option.map_eq_some_iff.mp hg
    rw [← h.hasher g' hg']
    simp
  · simpa using h.hashing

lemma yields_writeCarry {carry : Bytes} {written : ℕ} (h : Copying job carry written f) :
    Yields (writeCarry job carry) f (fun _ => Copying job [] (written + carry.length)) fun _ _ => True := by
  rw [writeCarry]
  split
  · next hc =>
    subst hc
    exact Ensures.pure h
  · rw [← bind_assoc]
    rw [← List.append_nil carry] at h
    exact Ensures.bind h.write fun _ f' h' => h'.1.frames (frames_ifSink frames_sinkCall).mapFailure

variable {buf : ℕ}

lemma Hashing.settle_pool {hashing : Hashing} (spawns : Bool) (hb : 0 < buf)
    (h : ∀ pool, hashing = .worker pool → ∀ b ∈ pool, 0 < b) :
    ∀ pool, hashing.settle spawns buf = .worker pool → ∀ b ∈ pool, 0 < b := by
  intro pool hp
  cases hashing with
  | inline => cases hp
  | worker pool' => exact h pool hp
  | pending =>
    rw [Hashing.settle] at hp
    split at hp <;> cases hp
    intro b hm
    rw [List.eq_of_mem_replicate hm]
    exact hb

lemma Hashing.submit_pool {hashing : Hashing} (hb : 0 < buf)
    (h : ∀ pool, hashing = .worker pool → ∀ b ∈ pool, 0 < b) :
    0 < (hashing.submit buf).1 ∧ ∀ pool, (hashing.submit buf).2 = .worker pool → ∀ b ∈ pool, 0 < b := by
  cases hashing with
  | inline => exact ⟨hb, h⟩
  | pending => exact ⟨hb, h⟩
  | worker pool =>
    have hall : ∀ b ∈ pool ++ [buf], 0 < b := by
      intro b hm
      rcases List.mem_append.mp hm with hm | hm
      · exact h pool rfl b hm
      · rw [List.mem_singleton.mp hm]
        exact hb
    refine ⟨?_, ?_⟩
    · cases hp : pool ++ [buf] with
      | nil => simp at hp
      | cons b bs =>
        rw [Hashing.submit, hp]
        exact hall b (hp ▸ List.mem_cons_self)
    · rintro _ ⟨⟩ b hm
      exact hall b (List.mem_of_mem_tail hm)

lemma yields_submit {written : ℕ} (hb : 0 < buf) (h : Copying job [] written f) :
    Yields (submit job buf) f (fun next f' => 0 < next ∧ Copying job [] written f' ∧ f'.source = f.source)
      fun _ _ => True := by
  refine Yields.ofGet fun w hw => ?_
  rw [hw]
  split
  · exact Ensures.pure ⟨hb, h, rfl⟩
  · next s hs =>
    refine frames_sinkCall.andThen (fun _ => trivial) fun _ => ?_
    obtain ⟨h1, h2⟩ := Hashing.submit_pool hb (Hashing.settle_pool job.spawns hb fun pool => h.pool s pool hs)
    refine Ensures.bind (Yields.setFiles (Q := fun _ f' => f' = _) rfl) ?_
    rintro - f' rfl
    refine Ensures.pure ⟨h1, h.setSink ?_, rfl⟩
    rintro t pool ⟨⟩ ht
    exact h2 pool ht

lemma yields_readOnce {written : ℕ} (hb : 0 < buf) (h : Copying job [] written f) :
    Yields (readOnce buf) f (fun bs f' => Copying job bs written f' ∧ f.source.rest = bs ++ f'.source.rest ∧
      (bs = [] → f.source.rest = [])) fun _ _ => True := by
  refine Yields.ofGet fun w hw => ?_
  rw [hw]
  rcases hr : f.source.once buf with ⟨got, r⟩
  refine Ensures.bind (Yields.setFiles (Q := fun _ f' => f' = { f with source := r }) rfl) ?_
  rintro - f' rfl
  cases got with
  | error e => exact Ensures.throw trivial
  | ok bs =>
    obtain ⟨h1, h2⟩ := ByteStream.once_ok hb hr
    obtain ⟨e, he, ht, hl, hs⟩ := h.temp
    refine Ensures.pure ⟨⟨⟨e, he, ht, hl, ?_⟩, ?_, h.hashing, h.pool⟩, h1, h2⟩
    · rw [← hs, List.nil_append, h1]
    · intro g hg
      rw [← h.hasher g hg, List.nil_append, h1]

lemma yields_copyLoop (reused : ℕ) {fuel copied : ℕ} (hb : 0 < buf) (hf : f.source.rest.length < fuel)
    (h : Copying job [] (reused + copied) f) :
    Yields (copyLoop job fuel buf copied) f (fun n f' => Copying job [] (reused + n) f' ∧ f'.source.rest = [])
      fun _ _ => True := by
  induction fuel generalizing f buf copied with
  | zero => omega
  | succ fuel ih =>
    refine Ensures.bind (yields_readOnce hb h) ?_
    rintro bs f' ⟨h', hr, hn⟩
    split
    · have := hn rfl
      rw [this] at hr
      exact Ensures.pure ⟨h', (List.append_eq_nil_iff.mp hr.symm).2⟩
    · next hne =>
      rw [← bind_assoc]
      rw [← List.append_nil bs] at h'
      refine Ensures.bind h'.write ?_
      rintro - f'' ⟨h'', hs⟩
      refine Ensures.bind (yields_submit hb h'').mapFailure ?_
      rintro next g ⟨hnext, hg, hgs⟩
      refine (frames_fsCall _).mapFailure.andThen (fun _ => trivial) fun _ => ?_
      refine ih hnext ?_ (by rwa [← Nat.add_assoc])
      have hl := congrArg List.length hr
      have := List.length_pos_of_ne_nil (fun hb => hne hb)
      rw [List.length_append] at hl
      rw [hgs, hs]
      omega

lemma copyBufferLen_pos (n : ℕ) : 0 < copyBufferLen n := lt_max_of_lt_left (by decide)

structure Holds (job : Job) (written : ℕ) (f : Files) : Prop where
  temp : ∃ e, f.temp = some e ∧ e.fileType = .file ∧ e.bytes = job.source.bytes
  written : written = job.source.bytes.length
  hasher : f.hasher = if job.opts.verify = .none then none else some job.source.bytes

lemma Copying.holds {written : ℕ} (h : Copying job [] written f) (hr : f.source.rest = []) :
    Holds job written f := by
  obtain ⟨e, he, ht, hl, hb⟩ := h.temp
  rw [hr, List.append_nil, List.append_nil] at hb
  refine ⟨⟨e, he, ht, hb⟩, by rw [← hl, hb], ?_⟩
  cases hf : f.hasher with
  | none =>
    have := h.hashing
    rw [hf] at this
    simp only [Option.isSome_none, Bool.false_eq_true, false_iff, not_not] at this
    rw [if_pos this]
  | some g =>
    have := h.hashing
    rw [hf] at this
    simp only [Option.isSome_some, true_iff] at this
    have hg := h.hasher g hf
    rw [hr, List.append_nil, List.append_nil] at hg
    rw [if_neg this, hg]

lemma yields_complete {written : ℕ} (h : Holds job written f) :
    Yields complete f (fun _ => Holds job written) fun _ _ => True := by
  refine Yields.ofGet fun w _ => ?_
  split
  · exact Ensures.pure h
  · refine Ensures.bind (Yields.setFiles (Q := fun _ => Holds job written) ⟨h.temp, h.written, h.hasher⟩) ?_
    exact fun _ f' h' => Frames.ok frames_sinkCall fun _ => h'

lemma Copying.rest_lt {pending : Bytes} {written : ℕ} (h : Copying job pending written f) :
    f.source.rest.length < job.source.bytes.length + 1 := by
  obtain ⟨e, -, -, -, hb⟩ := h.temp
  rw [← hb]
  simp only [List.length_append]
  omega

lemma yields_streamBytes {verdict : Verdict} {reused : ℕ} (h : Copying job verdict.carry reused f) :
    Yields (streamBytes job verdict) f (fun copied => Holds job (reused + copied)) fun _ _ => True := by
  refine Ensures.bind (yields_beginSink h _) fun _ f₁ h₁ => ?_
  refine Ensures.bind (yields_writeCarry h₁) fun _ f₂ h₂ => ?_
  refine Ensures.bind (yields_copyLoop reused (copyBufferLen_pos _) h₂.rest_lt h₂) ?_
  rintro copied f₃ ⟨h₃, hr⟩
  refine Ensures.bind (yields_complete (h₃.holds hr)).mapFailure fun _ f₄ h₄ => ?_
  exact Ensures.pure h₄

lemma yields_stream {verdict : Verdict} {reused : ℕ} (h : Copying job verdict.carry reused f) :
    Yields (stream job verdict) f (fun copied => Holds job (reused + copied)) fun _ _ => True := by
  refine Ensures.bind (Q := fun r f' => ∀ copied, r = .ok copied → Holds job (reused + copied) f') ?_ ?_
  · refine Ensures.attempt ((yields_streamBytes h).mono ?_ ?_)
    · rintro n f' h' _ ⟨⟩
      exact h'
    · rintro e f' - _ ⟨⟩
  · intro r f' h'
    cases r with
    | ok copied => exact Ensures.pure (h' copied rfl)
    | error fail =>
      refine Ensures.bind (Q := fun _ _ => True) (fun _ _ => wp_true _) fun _ f'' _ => ?_
      cases fail with
      | keep e => exact Ensures.throw trivial
      | discard step code source => exact yields_discarding _ _ _

lemma yields_sweep (step : CopyStep) :
    Yields (sweep step) f (fun _ f' => f' = f ∨ f' = { f with temp := none }) fun _ _ => True :=
  ((frames_fsCall _).atStep step).andThen (fun _ => trivial) fun _ =>
    Ensures.bind yields_removeTemp_attempt fun _ _ h => Ensures.pure h

lemma yields_openWriter {part : Bytes} {f₀ : Files} {v : Verdict} {offset : ℕ} {identity : Option FileIdentity}
    (h : Decided job.source.bytes part f₀ v f offset) (hp : ∀ e, f.temp = some e → e.bytes = part)
    (hs : f.sink = none) (hh : f.hasher.isSome ↔ job.opts.verify ≠ .none) :
    Yields (openWriter job v.start identity) f (fun reused f' => Copying job v.carry reused f') fun _ _ =>
    True := by
  have hcat : ∀ bs : Bytes, bs = job.source.bytes.take offset →
    bs ++ (v.carry ++ f.source.rest) = job.source.bytes := by
    rintro _ rfl
    rw [h.rest, List.take_append_drop]
  have hasher : ∀ g, f.hasher = some g → g ++ (v.carry ++ f.source.rest) = job.source.bytes := by
    intro g hg
    have hm := h.hasher
    rw [hg] at hm
    obtain ⟨_, -, rfl⟩ := Option.map_eq_some_iff.mp hm.symm
    exact hcat _ rfl
  have hpool : ∀ s pool, f.sink = some s → s.hashing = .worker pool → ∀ b ∈ pool, 0 < b := by
    rw [hs]
    rintro s pool ⟨⟩
  rw [h.start, startAt]
  split
  · next h0 =>
    subst h0
    refine Ensures.bind (Q := fun _ f' => f' = f ∨ f' = { f with temp := none })
      (Yields.onlyIf (fun _ => yields_sweep _) (.inl rfl)) fun _ f' hf' => ?_
    refine Ensures.bind (yields_createNew _).mapFailure ?_
    rintro - f'' rfl
    refine Ensures.pure ?_
    rcases hf' with rfl | rfl <;> exact ⟨⟨_, rfl, rfl, rfl, hcat [] rfl⟩, hasher, hh, hpool⟩
  · cases identity with
    | none => exact Ensures.throw trivial
    | some identity =>
      refine ((frames_fsCall _).atStep _).andThen (fun _ => trivial) fun _ => ?_
      refine Ensures.bind (yields_openExisting _).mapFailure ?_
      rintro - f' ⟨rfl, e, he, ht⟩
      refine Ensures.bind (yields_truncateTo he _).mapFailure ?_
      rintro - f'' rfl
      have hb : e.bytes.take offset = job.source.bytes.take offset := by rw [hp e he, h.same]
      refine Ensures.pure ⟨⟨_, rfl, ht, ?_, hcat _ hb⟩, hasher, hh, hpool⟩
      rw [List.length_take_of_le]
      exact hp e he ▸ h.lePart

structure Opened (job : Job) (f : Files) : Prop where
  reader : f.source.rest = job.source.bytes
  hasher : ∀ h, f.hasher = some h → h = []
  hashing : f.hasher.isSome ↔ job.opts.verify ≠ .none
  sink : f.sink = none
  collisionFree : ∀ e, f.temp = some e → CollisionFree job.blake3 job.source.bytes e.bytes

def Files.part (f : Files) : Bytes := f.temp.elim [] Entry.bytes

lemma Opened.validated (h : Opened job f) {p : Input} (hp : p.rest = f.part) :
    Validated job.source.bytes f.part f f p 0 where
  le := Nat.zero_le _
  lePart := Nat.zero_le _
  same := rfl
  reader := h.reader
  partReader := hp
  hasher := by
    cases hf : f.hasher with
    | none => rfl
    | some g => rw [h.hasher g hf]; rfl
  temp := rfl
  sink := rfl

lemma Opened.fresh (h : Opened job f) (d : Option Discard) : Decided job.source.bytes f.part f (.fresh d) f 0 :=
  have hv := h.validated (p := ⟨f.part, []⟩) rfl
  ⟨rfl, hv.lePart, hv.same, h.reader, hv.hasher, rfl, rfl, .inl (Nat.zero_mod _)⟩

def Planned (job : Job) (f : Files) (v : Verdict × Option FileIdentity) (f' : Files) : Prop :=
  ∃ offset, Decided job.source.bytes f.part f v.1 f' offset

lemma yields_openPartial {e : Entry} (he : f.temp = some e) : Yields (openPartial (some e) : M CopyError _) f
    (fun r f' => f' = f ∧ ∀ p, r = .ok (some p) → p.rest = f.part) fun _ _ => True := by
  refine Ensures.bind (Q := fun r f' => f' = f ∧ ∀ p, r = .ok p → p.rest = f.part) ?_ ?_
  · refine Ensures.attempt (yields_openTemp.mono ?_ ?_)
    · rintro r f' ⟨rfl, e', he', hr⟩
      refine ⟨rfl, ?_⟩
      rintro _ ⟨⟩
      rw [hr, Files.part, he']
      rfl
    · rintro x f' rfl
      exact ⟨rfl, fun _ hc => by cases hc⟩
  · rintro r f' ⟨rfl, hr⟩
    split
    · next p =>
      refine Ensures.pure ⟨rfl, ?_⟩
      rintro _ ⟨⟩
      exact hr _ rfl
    · split
      · exact Ensures.pure ⟨rfl, fun _ hc => by cases hc⟩
      · exact Ensures.pure ⟨rfl, fun _ hc => by cases hc⟩

lemma judgePartial_ok {x : Except FsError Entry} {m : Option Entry} (h : judgePartial x = .ok m) :
    (∀ e, m = some e → x = .ok e) := by
  rintro e rfl
  cases x with
  | error y =>
    rw [judgePartial] at h
    split at h <;> cases h
  | ok e' =>
    simp only [judgePartial] at h
    split at h
    · cases h
    · split at h
      · cases h
      · split at h <;> cases h
        rfl

lemma yields_planWith (h : Opened job f) (state : Option FileState) (missing : Option Discard) :
    Yields (planWith job state missing) f (Planned job f) fun _ _ => True := by
  refine Ensures.bind (Q := fun r f' => f' = f ∧ ∀ e, r = .ok e → f.temp = some e) ?_ ?_
  · refine Ensures.attempt (yields_metadataTemp.mono ?_ ?_)
    · rintro e f' ⟨rfl, he⟩
      refine ⟨rfl, ?_⟩
      rintro _ ⟨⟩
      exact he
    · rintro x f' rfl
      exact ⟨rfl, fun _ hc => by cases hc⟩
  rintro r f' ⟨rfl, hr⟩
  split
  · exact Ensures.pure ⟨0, h.fresh _⟩
  next m hm =>
  have hj := judgePartial_ok hm
  refine Ensures.bind (Q := fun r f'' => f'' = f' ∧ ∀ p, r = .ok (some p) → p.rest = f'.part ∧ ∃ e,
    m = some e) ?_ ?_
  · cases m with
    | none => exact Ensures.pure ⟨rfl, fun _ hc => by cases hc⟩
    | some e =>
      refine (yields_openPartial (hr e (hj e rfl))).mono ?_ fun _ _ => id
      rintro r f'' ⟨rfl, hp⟩
      exact ⟨rfl, fun p hq => ⟨hp p hq, e, rfl⟩⟩
  rintro r f'' ⟨rfl, hp⟩
  split
  · exact Ensures.pure ⟨0, h.fresh _⟩
  next reader =>
  have decided : ∀ {x : M DecideFail Verdict} {identity : Option FileIdentity},
      Yields x f'' (fun v g => ∃ offset, Decided job.source.bytes f''.part f'' v g offset) (fun _ _ => True) →
      Yields (do
        let v ← x.mapFailure decideFailure
        pure (v, identity)) f'' (Planned job f'') fun _ _ => True :=
    fun hx => Ensures.bind hx.mapFailure fun _ _ hv => Ensures.pure hv
  cases reader with
  | none =>
    cases state with
    | none => exact Ensures.pure ⟨0, h.fresh _⟩
    | some state =>
      refine decided (Ensures.mono (Q := fun v g => g = f'' ∧ ∃ d, v = .fresh d) ?_ ?_ fun _ _ => id)
      · rw [decide.eq_def]
        split
        · exact Ensures.pure ⟨rfl, _, rfl⟩
        split
        · exact Ensures.pure ⟨rfl, _, rfl⟩
        split
        · exact Ensures.pure ⟨rfl, _, rfl⟩
        · exact Ensures.pure ⟨rfl, _, rfl⟩
      · rintro v g ⟨rfl, d, rfl⟩
        exact ⟨0, h.fresh d⟩
  | some p =>
    obtain ⟨hrest, e, rfl⟩ := hp p rfl
    have he := hr e (hj e rfl)
    have hpart : f''.part = e.bytes := by rw [Files.part, he]; rfl
    have hv := h.validated hrest
    have hc := h.collisionFree e he
    rw [← hpart] at hc
    dsimp only [Option.bind_some, Option.map_some]
    rw [← hpart]
    cases state with
    | none => exact decided (yields_decideFull hc hv)
    | some state =>
      refine decided (yields_decide hc state rfl hv ?_ ?_)
      · rintro _ ⟨⟩
        rfl
      · rintro _ ⟨⟩
        rfl

lemma yields_planResume (h : Opened job f) (hook : Hook) :
    Yields (planResume job hook) f (Planned job f) fun _ _ => True := by
  rw [planResume.eq_def]
  split
  · split
    · exact yields_planWith h _ _
    · exact Ensures.pure ⟨0, h.fresh _⟩
    · exact Ensures.pure ⟨0, h.fresh _⟩
  · exact yields_planWith h _ _
  · exact yields_planWith h _ _

def Passes {β : Type} (x : M CopyError β) : Prop := ∀ f, Yields x f (fun _ f' => f' = f) fun _ _ => True

lemma passes_of_frames {x : M CopyError α} (hx : Frames x) : Passes x := fun _ => Frames.ok hx fun _ => rfl

lemma Passes.bind {β : Type} {x : M CopyError β} {g : β → M CopyError α} (hx : Passes x) (hg : ∀ b, Passes (g b)) :
    Passes (x >>= g) :=
  fun f => Ensures.bind (hx f) fun b _ h => h ▸ hg b f

lemma Passes.andThen {β : Type} {x : M CopyError β} {g : β → M CopyError α} (hx : Passes x)
    (hg : ∀ b, Yields (g b) f Q fun _ _ => True) : Yields (x >>= g) f Q fun _ _ => True :=
  Ensures.bind (hx f) fun b _ h => h ▸ hg b

lemma passes_discarding (step : CopyStep) (code : Code) (source : IoError) :
    Passes (discarding job step code source : M CopyError α) := fun _ => yields_discarding _ _ _

lemma frames_sourceNow {ε : Type} : Frames (sourceNow job : M ε Source) := by
  refine Steady.ofGet fun w => ?_
  split
  · exact Ensures.pure rfl
  · exact Ensures.bind (Q := fun _ f => f = w.files) (Ensures.set rfl) fun _ _ hf => Ensures.pure hf

lemma passes_recheckSource (srcMeta : Metadata) : Passes (recheckSource job srcMeta) := by
  refine (passes_of_frames (frames_fsCall _).attempt).bind fun r => ?_
  split
  · split <;> exact passes_discarding _ _ _
  · refine (passes_of_frames frames_sourceNow).bind fun now => ?_
    intro f
    exact Yields.onlyIf (fun _ => passes_discarding _ _ _ f) rfl

lemma frames_reopenSource : Frames (reopenSource job) :=
  (frames_fsCall _).bind fun _ => frames_sourceNow.bind fun _ => frames_nextSchedule.bind fun _ => Steady.pure _

lemma frames_openTemp : Frames openTemp := fun _ => yields_openTemp.mono (fun _ _ h => h.1) fun _ _ => id

lemma frames_hashLoop (buf fuel : ℕ) (r : Input) (seen : Bytes) : Frames (hashLoop buf fuel r seen) := by
  induction fuel generalizing r seen with
  | zero => exact Steady.pure _
  | succ fuel ih =>
    rw [hashLoop]
    split
    · exact Steady.throw _
    · exact Steady.pure _
    · exact (frames_fsCall _).mapFailure.bind fun _ => ih _ _

lemma passes_rehash {opening : M FsError Input} (h : Frames opening) : Passes (rehash job opening) := by
  refine (passes_of_frames h.attempt).bind fun r => ?_
  split
  · exact passes_discarding _ _ _
  · refine (passes_of_frames ((frames_hashLoop _ _ _ _).bind fun _ => Steady.pure _).attempt).bind fun v => ?_
    split
    · next fail => cases fail <;> exact passes_discarding _ _ _
    · exact passes_of_frames (Steady.pure _)

lemma passes_verify (srcMeta : Metadata) (streamed : ℕ) : Passes (verify job srcMeta streamed) := by
  refine (passes_of_frames Steady.get).bind fun w => ?_
  split
  · exact passes_of_frames (Steady.pure _)
  · exact passes_of_frames (Steady.pure _)
  · exact passes_of_frames (Steady.pure _)
  · refine (passes_recheckSource _).bind fun _ => (passes_rehash frames_openTemp).bind fun ⟨_, _⟩ => ?_
    dsimp only
    split
    · exact passes_discarding _ _ _
    · split
      · refine (passes_rehash frames_reopenSource).bind fun ⟨_, _⟩ => ?_
        dsimp only
        split
        · exact passes_discarding _ _ _
        · exact passes_of_frames (Steady.pure _)
      · exact passes_of_frames (Steady.pure _)

lemma passes_applyItem (preserve : Preserve) (item : MetadataItem) (c : Call) :
    Passes (applyItem job preserve item c) := by
  rw [applyItem]
  split
  · exact passes_of_frames (Steady.pure _)
  · refine (passes_of_frames (frames_fsCall _).attempt).bind fun r => ?_
    split
    · exact passes_of_frames (Steady.pure _)
    · split
      · exact passes_discarding _ _ _
      · exact passes_of_frames (Steady.pure _)

lemma passes_syncStaged : Passes (syncStaged job) := by
  rw [syncStaged]
  split
  · refine (passes_of_frames (frames_fsCall _).attempt).bind fun r => ?_
    split
    · exact passes_of_frames (Steady.pure _)
    · exact passes_discarding _ _ _
  · exact passes_of_frames (Steady.pure _)

lemma passes_writerIdentity : Passes writerIdentity := by
  refine passes_of_frames ((frames_fsCall _).attempt.bind fun r => Steady.get.bind fun w => ?_)
  split <;> exact Steady.pure _

lemma yields_stageProceed (hc : ∀ e, f.temp = some e → CollisionFree job.blake3 job.source.bytes e.bytes)
    (srcMeta : Metadata) (degraded : Option FileIdentity) :
    Yields (stageProceed job srcMeta degraded) f
      (fun r f' => ∀ s, r = .staged s → Holds job (s.reused + s.bytesCopied) f') fun _ _ => True := by
  refine Ensures.bind (Q := fun r f' => f' = f ∧ r.rest = job.source.bytes) ?_ ?_
  · refine Ensures.mapFailure ((frames_fsCall _).andThen (fun _ => trivial) fun _ =>
      frames_nextSchedule.andThen (fun _ => trivial) fun _ => ?_)
    exact Ensures.pure ⟨rfl, rfl⟩
  rintro reader f' ⟨rfl, hr⟩
  refine Ensures.bind (Yields.setFiles (Q := fun _ f'' => f'' = { f' with source := reader }) rfl) ?_
  rintro - f₁ rfl
  refine ((frames_fsCall _).atStep _).andThen (fun _ => trivial) fun _ =>
    ((frames_fsCall _).atStep _).andThen (fun _ => trivial) fun _ =>
    ((frames_fsCall _).atStep _).andThen (fun _ => trivial) fun _ => ?_
  refine Ensures.bind (Q := fun _ g => Opened job g) (Yields.setFiles ⟨hr, ?_, ?_, rfl, hc⟩) fun _ g hg => ?_
  · intro h hh
    dsimp only at hh
    split at hh <;> cases hh
    rfl
  · dsimp only
    split <;> simp [*]
  refine Ensures.bind (Q := Planned job g) ?_ ?_
  · rw [planStart]
    split
    · exact yields_planResume hg _
    · exact Ensures.pure ⟨0, hg.fresh _⟩
  rintro ⟨verdict, identity⟩ g' ⟨offset, hd⟩
  have hp : ∀ e, g'.temp = some e → e.bytes = g.part := by
    intro e he
    rw [Files.part, ← hd.temp, he]
    rfl
  have hh : g'.hasher.isSome ↔ job.opts.verify ≠ .none := by
    rw [← hg.hashing, hd.hasher, Option.isSome_map]
  refine Ensures.bind (yields_openWriter hd hp (hd.sink.trans hg.sink) hh) fun reused f₂ h₂ => ?_
  refine Ensures.bind (yields_stream h₂) fun copied f₃ h₃ => ?_
  refine (passes_verify _ _).andThen fun _ => (passes_applyItem _ _ _).andThen fun _ =>
    (passes_applyItem _ _ _).andThen fun _ => passes_syncStaged.andThen fun _ =>
    (passes_recheckSource _).andThen fun _ => passes_writerIdentity.andThen fun _ => Ensures.pure ?_
  rintro _ ⟨⟩
  exact h₃

lemma frames_identityGate : Frames (identityGate job) := by
  refine ((frames_fsCall _).bind fun _ => ?_).attempt.bind fun r => ?_
  · split
    · exact Steady.throw _
    · exact Steady.pure _
  · split
    · exact Steady.pure _
    · exact Steady.throw _

lemma frames_planFile : Frames (planFile job) := by
  refine ((frames_fsCall _).atStep _).bind fun _ => ?_
  refine (steady_onlyIf (Steady.throw _)).bind fun _ => frames_identityGate.bind fun g => ?_
  split <;> exact Steady.pure _

lemma yields_stageFile (hc : ∀ e, f.temp = some e → CollisionFree job.blake3 job.source.bytes e.bytes) :
    Yields (stageFile job) f (fun r f' => ∀ s, r = .staged s → Holds job (s.reused + s.bytesCopied) f')
      fun _ _ => True := by
  refine ((frames_fsCall _).atStep _).andThen (fun _ => trivial) fun _ =>
    ((frames_fsCall _).atStep _).andThen (fun _ => trivial) fun _ => ?_
  refine Ensures.bind (Q := fun _ f' => f' = f ∨ f' = { f with temp := none })
    (Yields.onlyIf (fun _ => ?_) (.inl rfl)) ?_
  · exact Ensures.bind yields_removeTemp_attempt fun _ _ h => Ensures.pure h
  intro _ f' hf'
  refine frames_planFile.andThen (fun _ => trivial) fun plan => ?_
  split
  · refine Ensures.bind (Q := fun _ _ => True) (fun _ _ => wp_true _) fun _ _ _ => Ensures.pure ?_
    rintro _ ⟨⟩
  · refine yields_stageProceed ?_ _ _
    rcases hf' with rfl | rfl
    · exact hc
    · rintro e ⟨⟩

theorem staged_temp_eq_source (job : Job) (w w' : World) (s : Staged)
    (hc : ∀ e, w.files.temp = some e → CollisionFree job.blake3 job.source.bytes e.bytes)
    (h : stageFile job w = (.ok (.staged s), w')) :
    (∃ e, w'.files.temp = some e ∧ e.fileType = .file ∧ e.bytes = job.source.bytes) ∧
      s.reused + s.bytesCopied = job.source.bytes.length ∧
      w'.files.hasher = if job.opts.verify = .none then none else some job.source.bytes := by
  have hs := wp_ok (yields_stageFile hc w rfl) h s rfl
  exact ⟨hs.temp, hs.written, hs.hasher⟩

def shortHash (bs : Bytes) : Digest :=
  ⟨(UInt8.ofNat bs.length :: (bs ++ List.replicate 31 0)).take 32, by simp⟩

lemma shortHash_injOn : Set.InjOn shortHash { x | x.length < 32 } := by
  intro x hx y hy h
  simp only [Set.mem_ofPred_eq] at hx hy
  have h := congrArg Subtype.val h
  simp only [shortHash, List.take_succ_cons, List.cons.injEq] at h
  have hl : x.length = y.length := by
    have := congrArg UInt8.toNat h.1
    simp only [UInt8.toNat_ofNat'] at this
    omega
  have ht := congrArg (List.take x.length) h.2
  rw [List.take_take, List.take_take, min_eq_left (by omega), List.take_left, hl, List.take_left] at ht
  exact ht

def longPartial : World where
  files := ⟨some ⟨.file, .strong ⟨1, 7⟩, some 1, [1, 2, 9]⟩, ⟨[], []⟩, none, none⟩
  dest := none
  held := none
  answers := []
  sinkAnswers := []
  schedules := [[.upTo 1]]
  sources := []
  calls := []

def resumeJob : Job where
  blake3 := shortHash
  source := ⟨[1, 2], .file, none, none, .strong ⟨1, 5⟩, some 1⟩
  existing := none
  name := [97]
  nameText := "a"
  opts := ⟨.off, .off, .normal, .replace, .default, [105], .overwrite, .copy, false, .destination, default⟩
  sync := .staging
  hook := some (.logFree 0)
  created := .strong ⟨1, 8⟩
  parallel := false
  spawns := false

lemma resume_collisionFree : CollisionFree resumeJob.blake3 [1, 2] [1, 2, 9] := by
  refine shortHash_injOn.mono fun x hx => ?_
  have := hx.imp List.IsInfix.length_le List.IsInfix.length_le
  simp only [List.length_cons, List.length_nil] at this
  simp only [Set.mem_ofPred_eq]
  omega

theorem staged_temp_eq_source_resumed :
    ∃ s w', stageFile resumeJob longPartial = (.ok (.staged s), w') ∧ s.reused = 2 ∧
      (∃ e, w'.files.temp = some e ∧ e.bytes = [1, 2]) ∧ s.reused + s.bytesCopied = 2 ∧
      w'.files.hasher = some [1, 2] := by
  refine ⟨_, _, rfl, rfl, ?_⟩
  obtain ⟨⟨e, he, -, hb⟩, hl, hh⟩ := staged_temp_eq_source resumeJob longPartial _ _
    (by rintro e ⟨⟩; exact resume_collisionFree) rfl
  exact ⟨⟨e, he, hb⟩, hl, hh⟩

end Flux.Copy
