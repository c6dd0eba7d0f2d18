import Flux.Base.JsonText
import Flux.State.Codec
import Flux.State.Runs

namespace Flux.State

open Base

variable (lib : Library)

inductive Opened : OperationState → Prop
  | created (session : Session) (place : Place) (destination : Text) (opts : CopyOptions) :
    Opened (newState lib session place destination opts)
  | adopted {bytes : Bytes} {prior : OperationState} {opts : CopyOptions} {config : Config} (session : Session)
    (place : Place) (read : decode lib bytes = .ok prior) (resumable : prior.state.isResumable)
    (compatible : resumeConfig lib prior place.roots opts = .ok config) : Opened (adopt prior config session place)
  | takenOver {s : OperationState} (opened : Opened s) (now : UInt64) : Opened (takeOver s now)

inductive Written : OperationState → Prop
  | created (session : Session) (place : Place) (destination : Text) (opts : CopyOptions) :
    Written (newState lib session place destination opts)
  | takenOver {s : OperationState} (opened : Opened lib s) (now : UInt64) : Written (takeOver s now)
  | transferring {s : OperationState} (opened : Opened lib s) : Written (transferring s)
  | failed {s : OperationState} (opened : Opened lib s) : Written (failed s)
  | completed {s : OperationState} (opened : Opened lib s) (leftovers : List Path)
    (published : Option FileIdentity) : Written (complete (transferring s) leftovers published)
  | superseded {bytes : Bytes} {prior : OperationState} {own : Text} (read : decode lib bytes = .ok prior)
    (resumable : prior.state.isResumable) (id : isId own) : Written (supersede prior own)
  | abandoned {bytes : Bytes} {prior : OperationState} (read : decode lib bytes = .ok prior)
    (resumable : prior.state.isResumable) : Written (abandon prior)

structure FileFields.Regular (f : FileFields) : Prop where
  artifactType : f.artifactType = artifactState
  ids : isId f.attemptId ∧ isId f.ownerInstanceId
  boot : f.bootSessionId ≠ []
  times : isDecimal f.creationWallTime ∧ isDecimal f.lastHeartbeatWallTime
  key : f.targetPathKey ≠ [] ∧ f.targetPathKey.length % 2 = 0 ∧ isHex f.targetPathKey
  source : (parseIdentity f.sourceIdentity).isSome
  target : ∀ t ∈ f.targetIdentity, (parseIdentity t).isSome

structure OperationState.Regular (s : OperationState) : Prop where
  id : isId s.operationId
  superseded : ∀ b ∈ s.supersededBy, isId b
  createdAt : isDecimal s.createdAt
  takeover : ∀ t ∈ s.takeover, validateTakeover t = .ok ()
  version : known s.formatVersion
  shaped : s.Shaped
  config : ∀ c ∈ s.config, validateConfig lib s.formatVersion c = .ok ()
  pending : ∀ c ∈ s.cleanup, c.cleanupPending = true ↔ s.state = .completed
  artifacts : ∀ c ∈ s.cleanup, ∀ a ∈ c.cleanupPendingArtifacts, (fromNativeHex a).isSome
  file : ∀ f ∈ s.file, f.Regular

structure OperationState.Settled (s : OperationState) : Prop where
  target : s.state = .completed → ∀ f ∈ s.file, f.targetIdentity.isSome
  walGeneration : ∀ w ∈ s.wal, w.walGeneration ≠ 0
  artifactGeneration : ∀ f ∈ s.file, f.artifactGeneration ≠ 0

variable {state : OpState}

lemma validateFile_eq_ok {f : FileFields} : validateFile state f = .ok () ↔
      f.Regular ∧ (state = .completed → f.targetIdentity.isSome) ∧ f.artifactGeneration ≠ 0 := by
  have htarget : validateTarget state f.targetIdentity = .ok () ↔
      (∀ t ∈ f.targetIdentity, (parseIdentity t).isSome) ∧ (state = .completed → f.targetIdentity.isSome) := by
    cases f.targetIdentity <;> simp [validateTarget]
  simp only [validateFile, checks_eq_ok, check_eq_ok, htarget]
  constructor
  · rintro ⟨h1, h2, h3, h4, h5, h6, h7, h8, h9⟩
    exact ⟨⟨h1, h2, h3, h5, h6, h7, h8⟩, h9, h4⟩
  · rintro ⟨⟨h1, h2, h3, h5, h6, h7, h8⟩, h9, h4⟩
    exact ⟨h1, h2, h3, h4, h5, h6, h7, h8, h9⟩

variable {s : OperationState}

lemma validate_eq_ok (hv : known s.formatVersion = true) :
    validate lib s = .ok () ↔ s.Regular lib ∧ s.Settled := by
  simp only [validate, validateWal, validateCleanup, checks_eq_ok, check_eq_ok, checkSome_eq_ok, checkAll_eq_ok,
    validateFile_eq_ok]
  constructor
  · rintro ⟨h1, h2, h3, h4, h5, h6, h7, h8, h9⟩
    exact ⟨⟨h1, h2, h3, h4, hv, h5, h6, fun c hc => (h8 c hc).1, fun c hc => (h8 c hc).2, fun f hf => (h9 f hf).1⟩,
      ⟨fun hs f hf => (h9 f hf).2.1 hs, h7, fun f hf => (h9 f hf).2.2⟩⟩
  · rintro ⟨r, t⟩
    exact ⟨r.id, r.superseded, r.createdAt, r.takeover, r.shaped, r.config, t.walGeneration,
      fun c hc => ⟨r.pending c hc, r.artifacts c hc⟩,
      fun f hf => ⟨r.file f hf, fun hs => t.target hs f hf, t.artifactGeneration f hf⟩⟩

lemma part_eq_ok {α : Type} {name : String} {present : Bool} {ks : List String} {read : Json → Option α}
    {m m' : Members}
    {o : Option α} (h : part lib name present ks read m = .ok (o, m')) {k : String} (hk : k ∉ ks) :
    m'.get k = m.get k := by
  rw [part] at h
  split at h
  · split at h
    · cases h
      rw [Members.get_erase, if_neg hk]
    · cases h
  · cases h
    rfl

lemma ofJson_version {m : Members} (h : OperationState.ofJson (.obj m) = some s) :
    m.get "format_version" = some (.num s.formatVersion) := by
  rw [OperationState.ofJson, Json.record] at h
  split at h
  · obtain ⟨v, hv, h⟩ := Option.bind_eq_some_iff.1 h
    obtain ⟨j, hj, hn⟩ := Option.bind_eq_some_iff.1 hv
    simp only [Option.pure_def, Option.bind_eq_bind, Option.bind_eq_some_iff, Option.some.injEq] at h
    obtain ⟨_, -, _, -, _, -, _, -, _, -, _, -, _, -, rfl⟩ := h
    cases j <;> cases hn
    exact hj
  · cases h

lemma decode_eq_ok {bytes : Bytes} (h : decode lib bytes = .ok s) :
    known s.formatVersion = true ∧ validate lib s = .ok () := by
  rw [decode] at h
  split at h
  · cases h
  split at h
  · cases h
  · rename_i m _
    simp only [decodeMembers, bind_eq_ok] at h
    obtain ⟨version, hversion, _, hknown, _, -, ⟨c, m₁⟩, h1, ⟨f, m₂⟩, h2, ⟨cf, m₃⟩, h3, ⟨w, m₄⟩, h4,
      base, hbase, h⟩ := h
    split at h
    · rename_i hval
      cases h
      refine ⟨?_, hval⟩
      have hget : Members.get m₄ "format_version" = Members.get m "format_version" := by
        rw [part_eq_ok lib h4 (by decide), part_eq_ok lib h3 (by decide), part_eq_ok lib h2 (by decide),
          part_eq_ok lib h1 (by decide)]
      rw [readBase] at hbase
      split at hbase
      · rename_i hof
        cases hbase
        rw [readVersion, ← hget, ofJson_version hof] at hversion
        cases hversion
        exact check_eq_ok.1 hknown
      · cases hbase
    · cases h
  · cases h

lemma regular_of_decode {bytes : Bytes} (h : decode lib bytes = .ok s) : s.Regular lib ∧ s.Settled := by
  obtain ⟨hv, hval⟩ := decode_eq_ok lib h
  exact (validate_eq_ok lib hv).1 hval

lemma durability_mem (opts : CopyOptions) :
    (Options.of opts).durability ∈ ["normal", "strict"].map String.toList := by
  cases h : opts.durability <;> simp [Options.of, h]

lemma validateOptions_of (opts : CopyOptions) : validateOptions lib (Options.of opts) = .ok () := by
  have hpreserve : ∀ p : Preserve, preserveText p ∈ ["off", "default", "strict"].map String.toList := by
    intro p
    cases p <;> decide
  have hexclude : validateExclude lib (Options.of opts) = .ok () := by
    simp only [validateExclude, Options.of, checks_eq_ok, opts.selection.compile_typed]
    exact ⟨check_eq_ok.2 opts.selection.sorted, trivial⟩
  simp only [validateOptions, oneOf, checks_eq_ok, check_eq_ok]
  refine ⟨hpreserve _, hpreserve _, durability_mem opts, ?_, ?_, ?_, hexclude⟩
  · cases h : opts.safety <;> simp [Options.of, h]
  · cases h : opts.existing <;> simp [Options.of, h]
  · cases h : opts.links <;> simp [Options.of, h]

lemma isFingerprint_fingerprint (o : Options) : isFingerprint (o.fingerprint lib) = true := by
  simp [isFingerprint, Options.fingerprint, hex_length, isHex_hex, (lib.blake3 o.canonicalBytes).2]

lemma validateRoot_ok {version : UInt64} {src : Path} {identity : FileIdentity} {target : Text}
    {kind : Option RootKind} (hk : multiRootFormat ≤ version ↔ kind.isSome)
    (ht : target = [] ∧ kind = none ∨ (fromNativeHex target).isSome) :
    validateRoot version ⟨nativeHex src, identityText identity, target, kind⟩ = .ok () := by
  have hne : target = [] → kind = none := by
    rintro rfl
    rcases ht with ⟨-, h⟩ | h
    · exact h
    · cases h
  simp only [validateRoot, checks_eq_ok, check_eq_ok, fromNativeHex_nativeHex, parseIdentity_text,
    Option.isSome_some, true_and]
  refine ⟨hk, ?_, ht.imp And.left id⟩
  rintro ⟨hv, h⟩
  rw [hk, hne h] at hv
  cases hv

def Place.version : Place → UInt64
  | .trees .. => multiRootFormat
  | .tree .. | .file .. => formatVersion

lemma le_version (place : Place) : v2 ≤ place.version ∧ v3 ≤ place.version ∧ formatVersion ≤ place.version := by
  cases place <;> simp only [Place.version] <;> decide

lemma newState_version (session : Session) (place : Place) (destination : Text) (opts : CopyOptions) :
    (newState lib session place destination opts).formatVersion = place.version := by
  cases place with
  | tree => rfl
  | file => rfl
  | trees roots several => exact if_pos (by simpa [Config.new, Place.roots] using several)

lemma validateConfig_new (place : Place) (opts : CopyOptions) :
    validateConfig lib place.version (Config.new lib place.roots (Options.of opts)) = .ok () := by
  simp only [validateConfig, Config.new, checks_eq_ok, check_eq_ok, checkAll_eq_ok, validateOptions_of,
    isFingerprint_fingerprint, and_true]
  have hfour : ¬ multiRootFormat ≤ formatVersion := by decide
  have hname : ∀ n : Name, (fromNativeHex (nativeHex n.path)).isSome := fun n => by
    rw [fromNativeHex_nativeHex]
    rfl
  cases place with
  | tree src identity =>
    refine ⟨rfl, ?_⟩
    simp only [Place.roots, List.forall_mem_singleton]
    exact validateRoot_ok (iff_of_false hfour (by simp)) (.inl ⟨rfl, rfl⟩)
  | file src identity target existing =>
    refine ⟨rfl, ?_⟩
    simp only [Place.roots, List.forall_mem_singleton]
    exact validateRoot_ok (iff_of_false hfour (by simp)) (.inr (hname target))
  | trees roots several =>
    refine ⟨?_, ?_⟩
    · rw [validateCount, Place.version, if_pos (by decide), check_eq_ok]
      simpa [Place.roots] using several
    · simp only [Place.roots, List.forall_mem_map]
      exact fun r _ => validateRoot_ok (by simp [Place.version]) (.inr (hname r.name))

lemma regular_newState (session : Session) (place : Place) (destination : Text) (opts : CopyOptions) :
    (newState lib session place destination opts).Regular lib where
  id := session.operation
  superseded := by simp [newState, created, createdV3, createdV2, createdV1]
  createdAt := isDecimal_decimal _
  takeover := by simp [newState, created, createdV3, createdV2, createdV1]
  version := by
    rw [newState_version]
    cases place <;> rfl
  shaped := by
    rw [OperationState.Shaped, newState_version]
    obtain ⟨h2, h3, h4⟩ := le_version place
    refine ⟨iff_of_true h3 rfl, iff_of_true h4 rfl, iff_of_true h2 rfl, ?_⟩
    cases place with
    | tree => exact iff_of_false (by rintro ⟨-, ⟨⟩⟩) (by rintro ⟨⟩)
    | trees => exact iff_of_false (by rintro ⟨-, ⟨⟩⟩) (by rintro ⟨⟩)
    | file => exact iff_of_true ⟨h2, rfl⟩ rfl
  config := by
    rw [newState_version]
    rintro c ⟨⟩
    exact validateConfig_new lib place opts
  pending := by
    rintro c ⟨⟩
    exact iff_of_false (by rintro ⟨⟩) (by rintro ⟨⟩)
  artifacts := by
    rintro c ⟨⟩
    simp
  file := by
    cases place with
    | tree => rintro f ⟨⟩
    | trees => rintro f ⟨⟩
    | file src identity target existing =>
      rintro f ⟨⟩
      refine ⟨rfl, ⟨session.attempt, session.owner⟩, session.boot, ⟨isDecimal_decimal _, isDecimal_decimal _⟩,
        ⟨hex_ne_nil target.2.1, ?_, isHex_hex _⟩, ?_, ?_⟩
      · simp [hex_length]
      · simp [parseIdentity_text]
      · cases existing <;> simp [parseIdentity_text]

lemma compareDurability_ok {stored asked options : Options} (h : compareDurability stored asked = .ok options) :
    ∃ d, (d = stored.durability ∨ d = asked.durability) ∧ options = { stored with durability := d } := by
  rw [compareDurability] at h
  split at h
  · split at h
    · cases h
    · cases h
      exact ⟨_, .inr rfl, rfl⟩
  · cases h
    exact ⟨_, .inl rfl, rfl⟩

lemma resumeConfig_ok {prior : OperationState} {roots : List Root} {opts : CopyOptions} {config : Config}
    (h : resumeConfig lib prior roots opts = .ok config) :
    formatVersion ≤ prior.formatVersion ∧ ∃ stored ∈ prior.config, ∃ d,
      (d = stored.options.durability ∨ d = (Options.of opts).durability) ∧
        config = { stored with options := { stored.options with durability := d } } := by
  rw [resumeConfig] at h
  split at h
  · cases h
  · rename_i stored hs
    simp only [bind_eq_ok] at h
    obtain ⟨_, hver, _, -, _, -, _, -, _, -, options, ho, h⟩ := h
    obtain ⟨d, hd, rfl⟩ := compareDurability_ok ho
    cases h
    exact ⟨check_eq_ok.1 hver, stored, hs, d, hd, rfl⟩

lemma validateConfig_durability {version : UInt64} {c : Config} {d : Text}
    (h : validateConfig lib version c = .ok ()) (hd : d ∈ ["normal", "strict"].map String.toList) :
    validateConfig lib version { c with options := { c.options with durability := d } } = .ok () := by
  simp only [validateConfig, validateOptions, oneOf, validateExclude, checks_eq_ok, check_eq_ok] at h ⊢
  obtain ⟨hc, hr, ⟨h1, h2, -, h4, h5, h6, h7⟩, hf⟩ := h
  exact ⟨hc, hr, ⟨h1, h2, hd, h4, h5, h6, h7⟩, hf⟩

section

variable {lib} {s : OperationState}

lemma regular_adopt {opts : CopyOptions} {config : Config} (session : Session) (place : Place) (hs : s.Regular lib)
    (hc : resumeConfig lib s place.roots opts = .ok config) : (adopt s config session place).Regular lib := by
  obtain ⟨hv, stored, hstored, d, hd, rfl⟩ := resumeConfig_ok lib hc
  have hvalid := hs.config stored hstored
  have hd' : d ∈ ["normal", "strict"].map String.toList := by
    rcases hd with rfl | rfl
    · simp only [validateConfig, validateOptions, oneOf, checks_eq_ok, check_eq_ok] at hvalid
      exact hvalid.2.2.1.2.2.1
    · exact durability_mem opts
  have hfile : (adopt s { stored with options := { stored.options with durability := d } } session
    place).file.isSome = s.file.isSome := by
    simp only [adopt]
    split <;> simp
  refine { hs with shaped := ?_, config := ?_, file := ?_ }
  · obtain ⟨h1, h2, h3, h4⟩ := hs.shaped
    refine ⟨iff_of_true (h1.2 (by rw [hstored]; rfl)) rfl, ?_, h3, ?_⟩
    · simpa [adopt] using h2
    · rw [hfile]
      exact h4
  · rintro c ⟨⟩
    exact validateConfig_durability lib hvalid hd'
  · simp only [adopt]
    split
    · intro f hf
      obtain ⟨g, hg, rfl⟩ := Option.map_eq_some_iff.1 hf
      have := hs.file g hg
      exact { this with
        ids := ⟨session.attempt, session.owner⟩
        boot := session.boot
        times := ⟨this.times.1, isDecimal_decimal _⟩ }
    · exact hs.file

lemma validateTakeover_ofUnreadable (now : UInt64) : validateTakeover (.ofUnreadable now) = .ok () := by
  have h : ∀ t : Takeover, validateTakeover t = .ok () ↔ (idOrUnreadable t.operationId ∧
      idOrUnreadable t.ownerInstanceId) ∧ t.bootSessionId ≠ [] ∧ (isDecimal t.lastHeartbeatWallTime ∨
      t.lastHeartbeatWallTime = unreadable) ∧ isDecimal t.creationWallTime := by
    intro t
    simp only [validateTakeover, checks_eq_ok, check_eq_ok]
  have hu : idOrUnreadable unreadable = true := by decide
  exact (h _).2 ⟨⟨hu, hu⟩, (by decide : unreadable ≠ []), .inr rfl, isDecimal_decimal _⟩

lemma regular_takeOver (now : UInt64) (hs : s.Regular lib) : (takeOver s now).Regular lib := by
  refine { hs with takeover := ?_ }
  rintro t ⟨⟩
  exact validateTakeover_ofUnreadable now

lemma regular_state (hs : s.Regular lib) (hd : s.state ≠ .completed) (hn : state ≠ .completed) :
    OperationState.Regular lib { s with state := state } := by
  refine { hs with pending := fun c hc => ?_ }
  rw [hs.pending c hc]
  exact iff_of_false hd hn

lemma regular_complete (leftovers : List Path) (published : Option FileIdentity) (hs : s.Regular lib) :
    (complete s leftovers published).Regular lib := by
  obtain ⟨h1, h2, h3, h4⟩ := hs.shaped
  refine { hs with shaped := ⟨h1, h2, ?_, ?_⟩, pending := ?_, artifacts := ?_, file := ?_ }
  · simpa [complete] using h3
  · simpa [complete] using h4
  · intro c hc
    obtain ⟨_, -, rfl⟩ := Option.map_eq_some_iff.1 hc
    exact iff_of_true rfl rfl
  · intro c hc
    obtain ⟨_, -, rfl⟩ := Option.map_eq_some_iff.1 hc
    simp [fromNativeHex_nativeHex]
  · intro f hf
    obtain ⟨g, hg, rfl⟩ := Option.map_eq_some_iff.1 hf
    cases published with
    | none => exact hs.file g hg
    | some id => exact { hs.file g hg with target := by rintro t ⟨⟩; simp [parseIdentity_text] }

lemma ne_completed_of_resumable (h : state.isResumable = true) : state ≠ .completed := by
  rintro rfl
  cases h

lemma regular_opened (h : Opened lib s) : s.Regular lib ∧ s.state ≠ .completed := by
  induction h with
  | created session place destination opts =>
    exact ⟨regular_newState lib session place destination opts, by rintro ⟨⟩⟩
  | adopted session place read resumable compatible =>
    exact ⟨regular_adopt session place (regular_of_decode lib read).1 compatible,
      ne_completed_of_resumable resumable⟩
  | takenOver _ now ih => exact ⟨regular_takeOver now ih.1, ih.2⟩

lemma regular_written (h : Written lib s) : s.Regular lib := by
  cases h with
  | created session place destination opts => exact regular_newState lib session place destination opts
  | takenOver opened now => exact regular_takeOver now (regular_opened opened).1
  | transferring opened =>
    obtain ⟨hr, hs⟩ := regular_opened opened
    exact regular_state hr hs (by rintro ⟨⟩)
  | failed opened =>
    obtain ⟨hr, hs⟩ := regular_opened opened
    exact regular_state hr hs (by rintro ⟨⟩)
  | completed opened leftovers published =>
    obtain ⟨hr, hs⟩ := regular_opened opened
    exact regular_complete leftovers published (regular_state hr hs (by rintro ⟨⟩))
  | @superseded _ prior _ read resumable id =>
    have hr : OperationState.Regular lib { prior with state := .abandoned } :=
      regular_state (regular_of_decode lib read).1 (ne_completed_of_resumable resumable) (by rintro ⟨⟩)
    exact { hr with superseded := by rintro b ⟨⟩; exact id }
  | abandoned read resumable =>
    exact regular_state (regular_of_decode lib read).1 (ne_completed_of_resumable resumable) (by rintro ⟨⟩)

theorem written_reads_back (hw : Written lib s) (hr : lib.ReadsBack s) :
    decode lib (encode lib s) = .ok s ↔ (encode lib s).length ≤ stateLimit ∧ s.Settled := by
  have hs := regular_written hw
  rw [decode_encode lib hs.shaped hs.version hr, validate_eq_ok lib hs.version]
  exact and_congr_right fun _ => and_iff_right hs

lemma validate_no_target {f : FileFields} (hs : s.Regular lib) (hc : s.state = .completed) (hf : s.file = some f)
    (ht : f.targetIdentity = none) (hw : ∀ w ∈ s.wal, w.walGeneration ≠ 0) (hg : f.artifactGeneration ≠ 0) :
    validate lib s = .error "a COMPLETED single-file record has no target_identity".toList := by
  have hr := hs.file f hf
  have hwal : ∀ w ∈ s.wal, validateWal w = .ok () := fun w h => check_eq_ok.2 (hw w h)
  have hcleanup : ∀ c ∈ s.cleanup, validateCleanup s.state c = .ok () := fun c h => checks_eq_ok.2
    ⟨check_eq_ok.2 (hs.pending c h), checkAll_eq_ok.2 fun a ha => check_eq_ok.2 (hs.artifacts c h a ha)⟩
  rw [validate, checks_of_ok (check_eq_ok.2 hs.id),
    checks_of_ok (checkSome_eq_ok.2 fun b hb => check_eq_ok.2 (hs.superseded b hb)),
    checks_of_ok (check_eq_ok.2 hs.createdAt), checks_of_ok (checkSome_eq_ok.2 hs.takeover),
    checks_of_ok (check_eq_ok.2 hs.shaped), checks_of_ok (checkSome_eq_ok.2 hs.config),
    checks_of_ok (checkSome_eq_ok.2 hwal), checks_of_ok (checkSome_eq_ok.2 hcleanup), hf, checkSome, validateFile,
      checks_of_ok (check_eq_ok.2 hr.artifactType), checks_of_ok (check_eq_ok.2 hr.ids),
    checks_of_ok (check_eq_ok.2 hr.boot), checks_of_ok (check_eq_ok.2 hg), checks_of_ok (check_eq_ok.2 hr.times),
    checks_of_ok (check_eq_ok.2 hr.key), checks_of_ok (check_eq_ok.2 hr.source), ht, validateTarget, check,
    if_neg (not_not.2 hc)]

lemma resumeConfig_same (session : Session) (place : Place) (destination : Text) (opts : CopyOptions) :
    resumeConfig lib (transferring (newState lib session place destination opts)) place.roots opts =
      .ok (Config.new lib place.roots (Options.of opts)) := by
  have hroot : ∀ r : Root, compareRoot r r = .ok () := by
    intro r
    have hk : compareKind r.kind r.kind = .ok () := by cases r.kind <;> simp [compareKind]
    have hs : compareSource r r = .ok () := by
      rw [compareSource]
      cases strongIdentity r.sourceIdentity <;> simp
    simp only [compareRoot, checks_eq_ok, check_eq_ok, hk, hs, and_self]
  have hroots : checkAll (fun r => compareRoot r.1 r.2) (place.roots.zip place.roots) = .ok () := by
    rw [checkAll_eq_ok]
    intro r hr
    rw [← List.map_id place.roots, List.zip_map', List.mem_map] at hr
    obtain ⟨a, -, rfl⟩ := hr
    exact hroot a
  have hoptions : compareOptions (Options.of opts) (Options.of opts) = .ok () := by
    simp [compareOptions, compareOption]
  have hdurability : compareDurability (Options.of opts) (Options.of opts) = .ok (Options.of opts) := by
    simp [compareDurability]
  have hversion : formatVersion ≤ (transferring (newState lib session place destination opts)).formatVersion := by
    change formatVersion ≤ (newState lib session place destination opts).formatVersion
    rw [newState_version]
    exact (le_version place).2.2
  have hconfig : (transferring (newState lib session place destination opts)).config =
      some (Config.new lib place.roots (Options.of opts)) := rfl
  rw [resumeConfig, hconfig]
  simp only [bind_eq_ok]
  exact ⟨(), check_eq_ok.2 hversion, (), check_eq_ok.2 rfl, (), check_eq_ok.2 rfl, (), hroots, (), hoptions, _,
    hdurability, rfl⟩

end

def firstSession : Session where
  operationId := List.replicate 32 '1'
  attemptId := List.replicate 32 '2'
  ownerInstanceId := List.replicate 32 '3'
  bootSessionId := ['b']
  now := 7
  operation := by decide
  attempt := by decide
  owner := by decide
  boot := by decide

def secondSession : Session where
  operationId := List.replicate 32 '4'
  attemptId := List.replicate 32 '5'
  ownerInstanceId := List.replicate 32 '6'
  bootSessionId := ['b']
  now := 8
  operation := by decide
  attempt := by decide
  owner := by decide
  boot := by decide

def newTarget : Place :=
  .file ⟨true, [[115]], by decide, .inl rfl⟩ (.strong ⟨1, 5⟩) ⟨[116], by decide⟩ none

def skipOptions : CopyOptions where
  preserveTimes := .off
  preservePermissions := .off
  durability := .normal
  publish := .replace
  safety := .default
  operationId := []
  existing := .skipExisting
  links := .copy
  crossFilesystems := false
  verify := .none
  selection := default

section Json

lemma plain_ofOption {α : Type*} {write : α → Json} (h : ∀ a, (write a).Plain) (o : Option α) :
    (ofOption write o).Plain := by
  cases o with
  | none => exact .null
  | some a => exact h a

lemma plain_texts (l : List Text) : (Json.arr (l.map .str)).Plain := by
  refine .arr fun j hj => ?_
  obtain ⟨t, -, rfl⟩ := List.mem_map.mp hj
  exact .str t

lemma plain_root (r : Root) : r.toJson.Plain := by
  refine .object fun e he => ?_
  have hk : ∀ k : RootKind, k.toJson.Plain := fun k => by cases k <;> exact .str _
  obtain he | he := List.mem_append.mp he
  · simp only [List.mem_cons, List.not_mem_nil, or_false] at he
    rcases he with rfl | rfl | rfl <;> exact .str _
  · obtain ⟨k, -, rfl⟩ := List.mem_map.mp he
    exact hk k

lemma plain_options (o : Options) : o.toJson.Plain := by
  refine .object ?_
  simp only [List.forall_mem_append]
  split_ifs <;> simp [plain_texts]

lemma plain_takeover (t : Takeover) : t.toJson.Plain := by
  refine .object ?_
  simp

lemma plain_fields (s : OperationState) : ∀ e ∈ s.fields, e.2.Plain := by
  have hk : s.kind.toJson.Plain := by cases s.kind <;> exact .str _
  simp [OperationState.fields, hk, plain_ofOption Json.Plain.str, plain_ofOption plain_takeover]

lemma plain_config (c : Config) : ∀ e ∈ c.fields, e.2.Plain := by
  have hroots : (Json.arr (c.roots.map Root.toJson)).Plain := by
    refine .arr fun j hj => ?_
    obtain ⟨r, -, rfl⟩ := List.mem_map.mp hj
    exact plain_root r
  simp [Config.fields, hroots, plain_options]

lemma plain_getD {α : Type*} {fields : α → List (String × Json)} (h : ∀ a, ∀ e ∈ fields a, e.2.Plain)
    (o : Option α) : ∀ e ∈ (o.map fields).getD [], e.2.Plain := by
  cases o with
  | none => exact fun e he => absurd he List.not_mem_nil
  | some a => exact h a

lemma plain_members (s : OperationState) : (Json.obj s.members).Plain := by
  have hbase := Json.Plain.extend (m := []) (fun _ he => absurd he List.not_mem_nil) (plain_fields s)
  have hcleanup : ∀ c : Cleanup, ∀ e ∈ c.fields, e.2.Plain := fun c => by simp [Cleanup.fields, plain_texts]
  have hfile : ∀ f : FileFields, ∀ e ∈ f.fields, e.2.Plain := fun f => by
    simp [FileFields.fields, plain_ofOption Json.Plain.str]
  have hwal : ∀ w : Wal, ∀ e ∈ w.fields, e.2.Plain := fun w => by simp [Wal.fields]
  rw [OperationState.members]
  split_ifs
  · exact .obj hbase
  · have hcleaned := Json.Plain.extend hbase (plain_getD hcleanup s.cleanup)
    have hfiled := Json.Plain.extend hcleaned (plain_getD hfile s.file)
    have hconfigured := Json.Plain.extend hfiled (plain_getD plain_config s.config)
    exact .obj (.extend hconfigured (plain_getD hwal s.wal))

def jsonLibrary : Library where
  toVec := fun j => utf8 j.write
  toVecStruct := fun j => utf8 j.write
  fromSlice := fun bytes => ((ofUtf8 bytes).bind Json.parse).elim (.error "not JSON".toList) .ok
  display := Json.write
  explain := fun _ _ => []
  debug := id
  debugChar := fun c => [c]
  blake3 := fun _ => ⟨List.replicate 32 0, rfl⟩

lemma jsonLibrary_readsBack (s : OperationState) : jsonLibrary.ReadsBack s := by
  have h : jsonLibrary.fromSlice (utf8 (Json.obj s.members).write) = .ok (.obj s.members) := by
    simp only [jsonLibrary, ofUtf8_utf8, Option.bind_some, Json.parse_write (plain_members s), Option.elim_some]
  rw [Library.ReadsBack, encode]
  split <;> exact h

end Json

def crashedRun : OperationState :=
  transferring (newState jsonLibrary firstSession newTarget ['t'] skipOptions)

def skippedRun : OperationState :=
  complete (transferring (adopt crashedRun (Config.new jsonLibrary newTarget.roots (Options.of skipOptions))
    secondSession newTarget)) [] none

lemma opened_crashedRun : Opened jsonLibrary (newState jsonLibrary firstSession newTarget ['t'] skipOptions) :=
  Opened.created firstSession newTarget ['t'] skipOptions

lemma settled_crashedRun : crashedRun.Settled where
  target := by rintro ⟨⟩
  walGeneration := by
    rintro w ⟨⟩
    decide
  artifactGeneration := by
    rintro f ⟨⟩
    decide

lemma short_crashedRun : (encode jsonLibrary crashedRun).length ≤ stateLimit := by
  decide +kernel

theorem written_reads_back_crashedRun :
    Written jsonLibrary crashedRun ∧ decode jsonLibrary (encode jsonLibrary crashedRun) = .ok crashedRun := by
  have hw : Written jsonLibrary crashedRun := Written.transferring opened_crashedRun
  exact ⟨hw, (written_reads_back hw (jsonLibrary_readsBack _)).2 ⟨short_crashedRun, settled_crashedRun⟩⟩

lemma decode_crashedRun : decode jsonLibrary (encode jsonLibrary crashedRun) = .ok crashedRun := by
  have hs : crashedRun.Regular jsonLibrary := regular_written (Written.transferring opened_crashedRun)
  refine (decode_encode jsonLibrary hs.shaped hs.version (jsonLibrary_readsBack _)).2 ⟨short_crashedRun, ?_⟩
  exact (validate_eq_ok jsonLibrary hs.version).2 ⟨hs, settled_crashedRun⟩

lemma written_skippedRun : Written jsonLibrary skippedRun :=
  Written.completed (Opened.adopted secondSession newTarget decode_crashedRun rfl
    (resumeConfig_same firstSession newTarget ['t'] skipOptions)) [] none

lemma short_skippedRun : (encode jsonLibrary skippedRun).length ≤ stateLimit := by
  decide +kernel

/-- A first run publishes a new target and crashes; the run that resumes it skips the target, and writes a
record that no later run can read. -/
theorem skippedRun_corrupt :
    Written jsonLibrary skippedRun ∧ jsonLibrary.ReadsBack skippedRun ∧
      decode jsonLibrary (encode jsonLibrary skippedRun) =
        .error (.corrupt "a COMPLETED single-file record has no target_identity".toList) := by
  have hs := regular_written written_skippedRun
  have hr := jsonLibrary_readsBack skippedRun
  refine ⟨written_skippedRun, hr, ?_⟩
  have hval := validate_no_target hs rfl rfl rfl (by rintro w ⟨⟩; decide) (by decide)
  rw [decode, if_neg (Nat.not_lt.mpr short_skippedRun), hr]
  dsimp only
  rw [decodeMembers_members jsonLibrary hs.shaped hs.version, hval]

end Flux.State
