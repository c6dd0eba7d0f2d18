import Flux.State.Operation

/-! Reading back the members of a record: `decode` inverts `encode` exactly when the record keeps the rules. -/

namespace Flux.State

open Base

lemma Root.ofJson_toJson (r : Root) : Root.ofJson r.toJson = some r := by
  obtain ⟨sourceRoot, sourceIdentity, destinationPrefix, kind⟩ := r
  rw [Root.ofJson, Root.toJson, Json.record_object]
  · cases kind with
    | none => simp [List.lookup_cons, Json.text, Json.optional]
    | some k => cases k <;> simp [List.lookup_cons, Json.text, Json.optional, RootKind.toJson, RootKind.ofJson]
  · cases kind <;> simp [rootKeys]

lemma orElse_ite {α : Type*} {c : Prop} [Decidable c] {read : Json → Option α} {a d : α} {j : Json}
    (hd : c → a = d) (hj : read j = some a) : Json.orElse d read (if c then none else some j) = some a := by
  split
  · rw [hd ‹_›, Json.orElse]
  · exact hj

lemma lookup_unless {c : Prop} [Decidable c] {k k' : String} {v : Json} :
    ((if c then [] else [(k, v)]) : List (String × Json)).reverse.lookup k' =
      if k' = k then (if c then none else some v) else none := by
  by_cases hc : c
  · simp [hc]
  · by_cases hk : k' = k
    · simp [hc, hk]
    · simp [hc, hk, List.lookup_cons, beq_false_of_ne hk]

lemma Options.ofJson_toJson (o : Options) : Options.ofJson o.toJson = some o := by
  have hlinks : Json.orElse ['c', 'o', 'p', 'y'] Json.text
      (if o.links = ['c', 'o', 'p', 'y'] then none else some (.str o.links)) = some o.links := orElse_ite id rfl
  have hcross : Json.orElse false Json.asBool (if o.crossFilesystems = false then none else some (.bool true)) =
      some o.crossFilesystems := by cases o.crossFilesystems <;> rfl
  have hexclude : Json.orElse [] (Json.list Json.text)
      (if o.exclude = [] then none else some (.arr (o.exclude.map .str))) = some o.exclude :=
    orElse_ite id (Json.list_text o.exclude)
  have hrecursive : Json.orElse true Json.asBool (if o.recursive = true then none else some (.bool false)) =
      some o.recursive := by cases o.recursive <;> rfl
  rw [Options.ofJson, Options.toJson, Json.record_object]
  · simp only [List.reverse_append, List.lookup_append, lookup_unless]
    simp [List.lookup_cons, Json.text, hlinks, hcross, hexclude, hrecursive]
  · split_ifs <;> simp [optionKeys]

lemma Takeover.ofJson_toJson (t : Takeover) : Takeover.ofJson t.toJson = some t := by
  rw [Takeover.ofJson, Takeover.toJson, Json.record_object]
  · simp [List.lookup_cons, Json.text]
  · simp [takeoverKeys]

lemma Kind.ofJson_toJson (k : Kind) : Kind.ofJson k.toJson = some k := by cases k <;> rfl

lemma OpState.ofJson_asStr (s : OpState) : OpState.ofJson (.str s.asStr) = some s := by cases s <;> rfl

lemma optional_ofOption {α : Type*} {read : Json → Option α} {write : α → Json} (h : ∀ a, read (write a) = some a)
    (hn : ∀ a, write a ≠ .null) (o : Option α) : Json.optional read (some (ofOption write o)) = some o := by
  cases o with
  | none => rfl
  | some a =>
    have := hn a
    rw [ofOption]
    cases hw : write a <;> simp_all only [Json.optional, ne_eq, not_true_eq_false]
    all_goals rw [← hw, h, Option.map_some]

variable {ks : List String}

lemma lookup_none {fields : List (String × Json)} (hf : fields.map Prod.fst ⊆ ks) {k : String} (hk : k ∉ ks) :
    fields.reverse.lookup k = none := by
  rw [List.lookup_eq_none_iff]
  intro e he
  rw [List.mem_reverse] at he
  have hne : k ≠ e.1 := fun h => hk (hf (List.mem_map.2 ⟨e, he, h.symm⟩))
  exact bne_iff_ne.2 hne

lemma optional_text (o : Option Text) : Json.optional Json.text (some (ofOption .str o)) = some o := by
  have h : ∀ t, Json.text (.str t) = some t := fun _ => rfl
  exact optional_ofOption h (fun _ h => by cases h) o

inductive Part where
  | base | cleanup | file | config | wal
  deriving DecidableEq

def Part.keys : Part → List String
  | .base => State.keys
  | .cleanup => cleanupKeys
  | .file => fileKeys
  | .config => configKeys
  | .wal => walKeys

def OperationState.partFields (s : OperationState) : Part → List (String × Json)
  | .base => s.fields
  | .cleanup => (s.cleanup.map Cleanup.fields).getD []
  | .file => (s.file.map FileFields.fields).getD []
  | .config => (s.config.map Config.fields).getD []
  | .wal => (s.wal.map Wal.fields).getD []

lemma Part.disjoint : ∀ p q : Part, p ≠ q → ∀ k ∈ p.keys, k ∉ q.keys := by
  intro p q
  cases p <;> cases q <;> decide

lemma partFields_keys (s : OperationState) (p : Part) : (s.partFields p).map Prod.fst ⊆ p.keys := by
  cases p with
  | base => exact fun _ h => h
  | cleanup => cases h : s.cleanup <;> simp [OperationState.partFields, h, Cleanup.fields, Part.keys, cleanupKeys]
  | file => cases h : s.file <;> simp [OperationState.partFields, h, FileFields.fields, Part.keys, fileKeys]
  | config => cases h : s.config <;> simp [OperationState.partFields, h, Config.fields, Part.keys, configKeys]
  | wal => cases h : s.wal <;> simp [OperationState.partFields, h, Wal.fields, Part.keys, walKeys]

section

variable {s : OperationState}

lemma parts_none (hs : s.Shaped) (hv : s.formatVersion = v1) :
    s.cleanup = none ∧ s.file = none ∧ s.config = none ∧ s.wal = none := by
  obtain ⟨hc, hw, hcl, hf⟩ := hs
  rw [hv] at hc hw hcl hf
  simp only [← Option.not_isSome_iff_eq_none]
  exact ⟨fun h => absurd (hcl.2 h) (by decide), fun h => absurd (hf.2 h).1 (by decide),
    fun h => absurd (hc.2 h) (by decide), fun h => absurd (hw.2 h) (by decide)⟩

lemma members_eq (hs : s.Shaped) :
    s.members = ((((Members.extend [] (s.partFields .base)).extend (s.partFields .cleanup)).extend
      (s.partFields .file)).extend (s.partFields .config)).extend (s.partFields .wal) := by
  rw [OperationState.members]
  split
  · rename_i hv
    obtain ⟨hc, hf, hcf, hw⟩ := parts_none hs hv
    simp only [OperationState.partFields, hc, hf, hcf, hw, Option.map_none, Option.getD_none, Members.extend_nil]
  · rfl

variable {k : String} {m : Members}

lemma get_members (hs : s.Shaped) {p : Part} (hk : k ∈ p.keys) :
    s.members.get k = (s.partFields p).reverse.lookup k := by
  have hno : ∀ q, p ≠ q → (s.partFields q).reverse.lookup k = none := fun q hq =>
    lookup_none (partFields_keys s q) (Part.disjoint p q hq k hk)
  rw [members_eq hs, Members.get_extend, Members.get_extend, Members.get_extend, Members.get_extend,
    Members.get_extend, show Members.get [] k = none from rfl, Option.or_none]
  cases p <;> simp [hno]

lemma get_members_isSome (hs : s.Shaped) :
    (s.members.get k).isSome ↔ ∃ p : Part, k ∈ (s.partFields p).map Prod.fst := by
  simp only [← Members.lookup_isSome]
  rw [members_eq hs, Members.get_extend, Members.get_extend, Members.get_extend, Members.get_extend,
    Members.get_extend, show Members.get [] k = none from rfl, Option.or_none]
  simp only [Option.isSome_or, Bool.or_eq_true]
  constructor
  · rintro (h | h | h | h | h)
    exacts [⟨_, h⟩, ⟨_, h⟩, ⟨_, h⟩, ⟨_, h⟩, ⟨_, h⟩]
  · rintro ⟨p, h⟩
    cases p <;> simp [h]

lemma Cleanup.ofJson_pick {c : Cleanup} (h : ∀ k ∈ cleanupKeys, m.get k = c.fields.reverse.lookup k) :
    Cleanup.ofJson (.obj (m.pick cleanupKeys)) = some c := by
  have hl := Json.list_text c.cleanupPendingArtifacts
  rw [Cleanup.ofJson, Json.record_pick]
  simp only [cleanupKeys, List.forall_mem_cons] at h
  simp [cleanupKeys, h, Cleanup.fields, List.lookup_cons, Json.asBool, hl]

lemma FileFields.ofJson_pick {f : FileFields} (h : ∀ k ∈ fileKeys, m.get k = f.fields.reverse.lookup k) :
    FileFields.ofJson (.obj (m.pick fileKeys)) = some f := by
  have ho := optional_text f.targetIdentity
  rw [FileFields.ofJson, Json.record_pick]
  simp only [fileKeys, List.forall_mem_cons] at h
  simp [fileKeys, h, FileFields.fields, List.lookup_cons, Json.text, Json.asU64, ho]

lemma Config.ofJson_pick {c : Config} (h : ∀ k ∈ configKeys, m.get k = c.fields.reverse.lookup k) :
    Config.ofJson (.obj (m.pick configKeys)) = some c := by
  have hl := Json.list_map Root.ofJson_toJson c.roots
  rw [Config.ofJson, Json.record_pick]
  simp only [configKeys, List.forall_mem_cons] at h
  simp [configKeys, h, Config.fields, List.lookup_cons, Json.text, hl, Options.ofJson_toJson]

lemma Wal.ofJson_pick {w : Wal} (h : ∀ k ∈ walKeys, m.get k = w.fields.reverse.lookup k) :
    Wal.ofJson (.obj (m.pick walKeys)) = some w := by
  rw [Wal.ofJson, Json.record_pick]
  simp only [walKeys, List.forall_mem_cons] at h
  simp [walKeys, h, Wal.fields, Json.asU64]

lemma OperationState.ofJson_obj (hkeys : ∀ k ∈ m.map Prod.fst, k ∈ keys)
    (h : ∀ k ∈ keys, m.get k = s.fields.reverse.lookup k) : OperationState.ofJson (.obj m) =
      some { s with cleanup := none, file := none, config := none, wal := none } := by
  have ho := optional_text s.supersededBy
  have ht := optional_ofOption Takeover.ofJson_toJson (fun _ h => by cases h) s.takeover
  rw [OperationState.ofJson, Json.record, if_pos hkeys]
  simp only [keys, List.forall_mem_cons] at h
  simp [h, OperationState.fields, List.lookup_cons, Json.text, Json.asU64, ho, ht, Kind.ofJson_toJson,
    OpState.ofJson_asStr]

variable (lib : Library)

def rest {α : Type} (o : Option α) (ks : List String) (m : Members) : Members := if o.isSome then m.erase ks else m

lemma get_rest {α : Type} {o : Option α} (hk : k ∉ ks) : (rest o ks m).get k = m.get k := by
  rw [rest]
  split
  · rw [Members.get_erase, if_neg hk]
  · rfl

lemma get_rest_isSome {α : Type} {o : Option α} (h : ((rest o ks m).get k).isSome) :
    (m.get k).isSome ∧ (o.isSome → k ∉ ks) := by
  rw [rest] at h
  split at h
  · rw [Members.get_erase] at h
    split at h
    · cases h
    · exact ⟨h, fun _ => ‹_›⟩
  · exact ⟨h, fun ho => absurd ho ‹_›⟩

lemma part_ok {α : Type} {name : String} {o : Option α} {read : Json → Option α}
    (h : ∀ a, o = some a → read (.obj (m.pick ks)) = some a) :
    part lib name o.isSome ks read m = .ok (o, rest o ks m) := by
  cases o with
  | none => rfl
  | some a =>
    rw [part, Option.isSome_some, if_pos rfl, h a rfl]
    rfl

lemma flags (hs : s.Shaped) :
    decide (v2 ≤ s.formatVersion) = s.cleanup.isSome ∧ decide (v3 ≤ s.formatVersion) = s.config.isSome ∧
      decide (formatVersion ≤ s.formatVersion) = s.wal.isSome ∧
      decide (v2 ≤ s.formatVersion ∧ (s.members.get "kind").bind Json.text = some "file".toList) =
      s.file.isSome := by
  obtain ⟨hc, hw, hcl, hf⟩ := id hs
  have hkind : (s.members.get "kind").bind Json.text = some "file".toList ↔ s.kind = .file := by
    rw [get_members (p := .base) hs (by decide)]
    cases hk : s.kind <;> simp [OperationState.partFields, OperationState.fields, List.lookup_cons,
      hk, Kind.toJson, Json.text]
  have hd : ∀ {P : Prop} [Decidable P] {b : Bool}, (P ↔ b = true) → decide P = b := fun h =>
    (decide_eq_decide.2 h).trans (Bool.decide_coe _)
  exact ⟨hd hcl, hd hc, hd hw, hd ((and_congr_right fun _ => hkind).trans hf)⟩

lemma mem_expectedKeys (hs : s.Shaped) (k : String) :
    k ∈ expectedKeys s.formatVersion s.file.isSome ↔ (s.members.get k).isSome := by
  obtain ⟨hc, hw, hcl, -⟩ := id hs
  rw [get_members_isSome hs, expectedKeys]
  simp only [hc, hw, hcl, List.mem_append]
  have hp : ∀ {α : Type} (o : Option α) (f : α → List (String × Json)) (ks : List String),
      (∀ a, (f a).map Prod.fst = ks) → (k ∈ (if o.isSome then ks else []) ↔
        k ∈ ((o.map f).getD []).map Prod.fst) := by
    intro α o f ks h
    cases o with
    | none => simp
    | some a => rw [Option.map_some, Option.getD_some, h, Option.isSome_some, if_pos rfl]
  rw [hp s.cleanup Cleanup.fields _ fun _ => rfl, hp s.file FileFields.fields _ fun _ => rfl,
    hp s.config Config.fields _ fun _ => rfl, hp s.wal Wal.fields _ fun _ => rfl]
  constructor
  · rintro ((((h | h) | h) | h) | h)
    exacts [⟨.base, h⟩, ⟨.cleanup, h⟩, ⟨.file, h⟩, ⟨.config, h⟩, ⟨.wal, h⟩]
  · rintro ⟨p, h⟩
    cases p with
    | base => exact .inl (.inl (.inl (.inl h)))
    | cleanup => exact .inl (.inl (.inl (.inr h)))
    | file => exact .inl (.inl (.inr h))
    | config => exact .inl (.inr h)
    | wal => exact .inr h

lemma checkKeys_ok {expected : List String} (h : ∀ k, k ∈ expected ↔ (m.get k).isSome) :
    checkKeys expected m = .ok () := by
  have hunknown : (m.map Prod.fst).find? (· ∉ expected) = none := by
    rw [List.find?_eq_none]
    intro k hk
    simpa using (h k).2 (Members.mem_keys.1 hk)
  have hmissing : (expected.find? fun k => (m.get k).isNone) = none := by
    rw [List.find?_eq_none]
    intro k hk
    simpa [Option.isSome_iff_ne_none] using (h k).1 hk
  rw [checkKeys, hunknown]
  dsimp only
  rw [hmissing]

def OperationState.afterCleanup (s : OperationState) : Members := rest s.cleanup Part.cleanup.keys s.members

def OperationState.afterFile (s : OperationState) : Members := rest s.file Part.file.keys s.afterCleanup

def OperationState.afterConfig (s : OperationState) : Members := rest s.config Part.config.keys s.afterFile

def OperationState.baseMembers (s : OperationState) : Members := rest s.wal Part.wal.keys s.afterConfig

lemma baseMembers_keys (hs : s.Shaped) : ∀ k ∈ s.baseMembers.map Prod.fst, k ∈ keys := by
  intro k hk
  obtain ⟨hk, hw⟩ := get_rest_isSome (Members.mem_keys.1 hk)
  obtain ⟨hk, hc⟩ := get_rest_isSome hk
  obtain ⟨hk, hf⟩ := get_rest_isSome hk
  obtain ⟨hk, hcl⟩ := get_rest_isSome hk
  obtain ⟨p, hp⟩ := (get_members_isSome hs).1 hk
  have hin := partFields_keys s p hp
  have hsome : ∀ {α : Type} {o : Option α} {f : α → List (String × Json)}, k ∈ ((o.map f).getD []).map Prod.fst →
      o.isSome := by
    intro α o f h
    cases o with
    | none => cases h
    | some a => rfl
  cases p with
  | base => exact hin
  | cleanup => exact absurd hin (hcl (hsome hp))
  | file => exact absurd hin (hf (hsome hp))
  | config => exact absurd hin (hc (hsome hp))
  | wal => exact absurd hin (hw (hsome hp))

lemma get_baseMembers (hs : s.Shaped) (hk : k ∈ keys) : s.baseMembers.get k = s.fields.reverse.lookup k := by
  have hd := fun q hq => Part.disjoint .base q hq k hk
  rw [OperationState.baseMembers, get_rest (hd .wal (by decide)), OperationState.afterConfig,
    get_rest (hd .config (by decide)), OperationState.afterFile, get_rest (hd .file (by decide)),
    OperationState.afterCleanup, get_rest (hd .cleanup (by decide)), get_members (p := .base) hs hk]
  rfl

lemma readBase_baseMembers (hs : s.Shaped) : readBase lib s.baseMembers =
    .ok { s with cleanup := none, file := none, config := none, wal := none } := by
  rw [readBase, OperationState.ofJson_obj (baseMembers_keys hs) fun k hk => get_baseMembers hs hk]

lemma decodeMembers_members (hs : s.Shaped) (hv : known s.formatVersion = true) :
    decodeMembers lib s.members =
      match validate lib s with
      | .ok () => .ok s
      | .error e => .error (.corrupt e) := by
  obtain ⟨hcl, hc, hw, hf⟩ := flags hs
  have hversion : readVersion lib s.members = .ok s.formatVersion := by
    rw [readVersion, get_members (p := .base) hs (by decide)]
    rfl
  have hd := Part.disjoint
  have hcleanup : part lib "Cleanup" s.cleanup.isSome cleanupKeys Cleanup.ofJson s.members =
      .ok (s.cleanup, s.afterCleanup) := by
    refine part_ok lib fun c h => Cleanup.ofJson_pick fun k hk => ?_
    rw [get_members (p := .cleanup) hs hk, OperationState.partFields, h]
    rfl
  have hfile : part lib "FileFields" s.file.isSome fileKeys FileFields.ofJson s.afterCleanup =
      .ok (s.file, s.afterFile) := by
    refine part_ok lib fun f h => FileFields.ofJson_pick fun k hk => ?_
    rw [OperationState.afterCleanup, get_rest (hd .file .cleanup (by decide) k hk), get_members (p := .file) hs hk,
      OperationState.partFields, h]
    rfl
  have hconfig : part lib "Config" s.config.isSome configKeys Config.ofJson s.afterFile =
      .ok (s.config, s.afterConfig) := by
    refine part_ok lib fun c h => Config.ofJson_pick fun k hk => ?_
    rw [OperationState.afterFile, get_rest (hd .config .file (by decide) k hk), OperationState.afterCleanup,
      get_rest (hd .config .cleanup (by decide) k hk), get_members (p := .config) hs hk,
        OperationState.partFields, h]
    rfl
  have hwal : part lib "Wal" s.wal.isSome walKeys Wal.ofJson s.afterConfig = .ok (s.wal, s.baseMembers) := by
    refine part_ok lib fun w h => Wal.ofJson_pick fun k hk => ?_
    rw [OperationState.afterConfig, get_rest (hd .wal .config (by decide) k hk), OperationState.afterFile,
      get_rest (hd .wal .file (by decide) k hk), OperationState.afterCleanup,
      get_rest (hd .wal .cleanup (by decide) k hk), get_members (p := .wal) hs hk, OperationState.partFields, h]
    rfl
  have hok : ∀ {ε α β : Type} (a : α) (f : α → Except ε β), (Except.ok a >>= f) = f a := fun _ _ => rfl
  rw [decodeMembers, hversion, hok, check, if_pos hv, hok]
  dsimp only
  rw [hf, checkKeys_ok (mem_expectedKeys hs), hok, hcl, hcleanup, hok]
  dsimp only
  rw [hfile, hok]
  dsimp only
  rw [hc, hconfig, hok]
  dsimp only
  rw [hw, hwal, hok]
  dsimp only
  rw [readBase_baseMembers lib hs, hok]
  change (match validate lib s with
    | .ok () => (pure s : Except Unusable OperationState)
    | .error e => throw (Unusable.corrupt e)) = _
  cases validate lib s <;> rfl

def Library.ReadsBack (s : OperationState) : Prop := lib.fromSlice (encode lib s) = .ok (.obj s.members)

lemma decode_encode (hs : s.Shaped) (hv : known s.formatVersion = true) (hr : lib.ReadsBack s) :
    decode lib (encode lib s) = .ok s ↔ (encode lib s).length ≤ stateLimit ∧ validate lib s = .ok () := by
  rw [decode]
  split
  · rename_i hlen
    simp [not_le.2 hlen]
  · rename_i hlen
    rw [hr]
    dsimp only
    rw [decodeMembers_members lib hs hv]
    cases h : validate lib s <;> simp [not_lt.1 hlen]

end

end Flux.State
