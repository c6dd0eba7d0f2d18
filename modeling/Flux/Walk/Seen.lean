import Flux.Walk.Machine

/-! What a walk gets to see of a tree, failures included, and the events it then yields. -/

namespace Flux.Walk

open Base

mutual
inductive Seen where
  | dropped
  | leaf
  | failed (cause : FsError)
  | halted (cause : FsError)
  | skipped (identity : FileIdentity)
  | entered (identity : FileIdentity) (unknown : Bool) (entries : SeenList)
inductive SeenList where
  | nil
  | broken (cause : FsError)
  | cons (name : Bytes) (fileType : FileType) (seen : Seen) (rest : SeenList)
end

namespace SeenList

def items : SeenList → List (Bytes × FileType)
  | .nil => []
  | .broken _ => []
  | .cons name fileType _ rest => (name, fileType) :: rest.items

def cause : SeenList → Option FsError
  | .nil => none
  | .broken e => some e
  | .cons _ _ _ rest => rest.cause

end SeenList

def leafEvents (path : Path) : FileType → List RawEvent
  | .file => [.ok (.file path)]
  | .symlink => [.ok (.symlink path)]
  | .other => [.ok (.other path)]
  | .dir => []

def unknownEvents (path : Path) (unknown : Bool) : List RawEvent :=
  if unknown then [.ok (.mountUnknown path)] else []

mutual
def Seen.events (path : Path) (fileType : FileType) : Seen → List RawEvent
  | .dropped => []
  | .leaf => leafEvents path fileType
  | .failed cause => [.error ⟨path, cause, false⟩]
  | .halted cause => [.error ⟨path, cause, true⟩]
  | .skipped identity => [.ok (.dir path identity), .ok (.mountSkipped path), .ok (.dirEnd path)]
  | .entered identity unknown entries =>
    .ok (.dir path identity) :: (unknownEvents path unknown ++ (entries.events path ++ [.ok (.dirEnd path)]))
def SeenList.events (path : Path) : SeenList → List RawEvent
  | .nil => []
  | .broken cause => [.error ⟨path, cause, true⟩]
  | .cons name fileType seen rest => seen.events (path ++ [name]) fileType ++ rest.events path
end

def isFatal : RawEvent → Bool
  | .error e => e.fatal
  | .ok _ => false

def untilFatal : List RawEvent → List RawEvent
  | [] => []
  | e :: rest => if isFatal e then [e] else e :: untilFatal rest

inductive Listed where
  | refused (cause : FsError)
  | fatal (cause : FsError)
  | entries (items : List (Bytes × FileType)) (broken : Option FsError)

inductive Gate where
  | fails (cause : FsError)
  | skip (identity : FileIdentity)
  | pass (identity : FileIdentity) (unknown : Bool)

def cycleGate (ancestors : List ObjectId) (identity : FileIdentity) (unknown : Bool) : Gate :=
  if (strongId identity).any fun id => id ∈ ancestors then .fails cycleError else .pass identity unknown

def gate (cfg : Config) (rel : Path) (depth : ℕ) (ancestors : List ObjectId) : Gate :=
  if cfg.maxDepth < depth then .fails depthError
  else match cfg.metadata rel with
    | .error cause => .fails cause
    | .ok m =>
      if m.fileType ≠ .dir then .fails changedError
      else match cfg.mounts with
        | .cross => cycleGate ancestors m.identity false
        | .stay =>
          match cfg.mountRoot rel with
          | .error cause => .fails cause
          | .ok .yes => .skip m.identity
          | .ok .unknown => cycleGate ancestors m.identity true
          | .ok .no => cycleGate ancestors m.identity false

section Unfolds

variable (cfg : Config) (listing : Path → Listed)

mutual
def Unfolds (path : Path) (fileType : FileType) (depth : ℕ) (ancestors : List ObjectId) : Seen → Prop
  | .dropped => cfg.select path fileType ≠ .keep
  | .leaf => cfg.select path fileType = .keep ∧ fileType ≠ .dir
  | .failed cause => cfg.select path fileType = .keep ∧ fileType = .dir ∧
      (gate cfg path depth ancestors = .fails cause ∨
        ∃ id unknown, gate cfg path depth ancestors = .pass id unknown ∧ listing path = .refused cause)
  | .halted cause => cfg.select path fileType = .keep ∧ fileType = .dir ∧
      ∃ id unknown, gate cfg path depth ancestors = .pass id unknown ∧ listing path = .fatal cause
  | .skipped id => cfg.select path fileType = .keep ∧ fileType = .dir ∧ gate cfg path depth ancestors = .skip id
  | .entered id unknown entries => cfg.select path fileType = .keep ∧ fileType = .dir ∧
      gate cfg path depth ancestors = .pass id unknown ∧ listing path = .entries entries.items entries.cause ∧
      UnfoldsList path (depth + 1) ((strongId id).toList ++ ancestors) entries
def UnfoldsList (path : Path) (depth : ℕ) (ancestors : List ObjectId) : SeenList → Prop
  | .nil => True
  | .broken _ => True
  | .cons name fileType seen rest => isOneComponent name = true ∧
      Unfolds (path ++ [name]) fileType depth ancestors seen ∧ UnfoldsList path depth ancestors rest
end

inductive RootSeen where
  | failed (cause : FsError)
  | halted (cause : FsError)
  | entered (entries : SeenList)

def RootSeen.events : RootSeen → List RawEvent
  | .failed cause => [.error ⟨[], cause, false⟩]
  | .halted cause => [.error ⟨[], cause, true⟩]
  | .entered entries => entries.events []

def RootUnfolds (identity : FileIdentity) : RootSeen → Prop
  | .failed cause => listing [] = .refused cause
  | .halted cause => listing [] = .fatal cause
  | .entered entries => listing [] = .entries entries.items entries.cause ∧
      UnfoldsList cfg listing [] 1 (strongId identity).toList entries

def SingleNames : Prop :=
  ∀ path items broken, listing path = .entries items broken → ∀ item ∈ items, isOneComponent item.1 = true

variable {cfg listing}

lemma exists_unfoldsList {path : Path} {depth : ℕ} {ancestors : List ObjectId} (items : List (Bytes × FileType))
    (cause : Option FsError) (hsingle : ∀ item ∈ items, isOneComponent item.1 = true)
    (h : ∀ item ∈ items, ∃ seen, Unfolds cfg listing (path ++ [item.1]) item.2 depth ancestors seen) :
    ∃ entries : SeenList, entries.items = items ∧ entries.cause = cause ∧
      UnfoldsList cfg listing path depth ancestors entries := by
  induction items with
  | nil =>
    cases cause with
    | none => exact ⟨.nil, rfl, rfl, by rw [UnfoldsList]; trivial⟩
    | some e => exact ⟨.broken e, rfl, rfl, by rw [UnfoldsList]; trivial⟩
  | cons item items ih =>
    obtain ⟨hone, hsingle⟩ := List.forall_mem_cons.mp hsingle
    obtain ⟨⟨seen, hseen⟩, h⟩ := List.forall_mem_cons.mp h
    obtain ⟨entries, rfl, rfl, hentries⟩ := ih hsingle h
    exact ⟨.cons item.1 item.2 seen entries, rfl, rfl, hone, hseen, hentries⟩

lemma exists_unfolds (hsingle : SingleNames listing) (path : Path) (fileType : FileType) (depth : ℕ)
    (ancestors : List ObjectId) : ∃ seen, Unfolds cfg listing path fileType depth ancestors seen := by
  generalize hn : cfg.maxDepth + 1 - depth = n
  induction n generalizing path fileType depth ancestors with
  | zero =>
    by_cases hkeep : cfg.select path fileType = .keep
    · by_cases hdir : fileType = .dir
      · refine ⟨.failed depthError, hkeep, hdir, .inl ?_⟩
        rw [gate, if_pos (by omega)]
      · exact ⟨.leaf, hkeep, hdir⟩
    · exact ⟨.dropped, hkeep⟩
  | succ n ih =>
    by_cases hkeep : cfg.select path fileType = .keep
    · by_cases hdir : fileType = .dir
      · cases hgate : gate cfg path depth ancestors with
        | fails cause => exact ⟨.failed cause, hkeep, hdir, .inl hgate⟩
        | skip id => exact ⟨.skipped id, hkeep, hdir, hgate⟩
        | pass id unknown =>
          cases hl : listing path with
          | refused cause => exact ⟨.failed cause, hkeep, hdir, .inr ⟨id, unknown, hgate, hl⟩⟩
          | fatal cause => exact ⟨.halted cause, hkeep, hdir, id, unknown, hgate, hl⟩
          | entries items broken =>
            obtain ⟨entries, rfl, rfl, hu⟩ := exists_unfoldsList items broken (hsingle path items broken hl)
              (fun item _ => ih (path ++ [item.1]) item.2 (depth + 1) ((strongId id).toList ++ ancestors)
                (by omega))
            exact ⟨.entered id unknown entries, hkeep, hdir, hgate, hl, hu⟩
      · exact ⟨.leaf, hkeep, hdir⟩
    · exact ⟨.dropped, hkeep⟩

lemma exists_rootUnfolds (hsingle : SingleNames listing) (identity : FileIdentity) :
    ∃ seen, RootUnfolds cfg listing identity seen := by
  cases hl : listing [] with
  | refused cause => exact ⟨.failed cause, hl⟩
  | fatal cause => exact ⟨.halted cause, hl⟩
  | entries items broken =>
    obtain ⟨entries, rfl, rfl, hu⟩ := exists_unfoldsList items broken (hsingle [] items broken hl)
      (fun item _ => exists_unfolds hsingle ([] ++ [item.1]) item.2 1 (strongId identity).toList)
    exact ⟨.entered entries, hl, hu⟩

end Unfolds

section Lawful

abbrev Remainders (E : Type) := List (E × List (Bytes × FileType) × Option FsError)

variable {σ E : Type} (Live : σ → Remainders E → Prop)

def Opens (live : Remainders E) (r : Except ListError E × σ) : Listed → Prop
  | .refused cause => r.1 = .error (.listing cause) ∧ Live r.2 live
  | .fatal cause => r.1 = .error (.fatal cause) ∧ Live r.2 live
  | .entries items broken => ∃ e, r.1 = .ok e ∧ Live r.2 ((e, items, broken) :: live)

def Takes (s : σ) (live : Remainders E)
    (r : Option (Except FsError DirEntry) × E) : List (Bytes × FileType) → Option FsError → Prop
  | item :: rest, broken => (∃ d, r.1 = some (.ok d) ∧ d.name = item.1 ∧ d.fileType = item.2) ∧
      Live s ((r.2, rest, broken) :: live)
  | [], some cause => r.1 = some (.error cause)
  | [], none => r.1 = none ∧ Live s ((r.2, [], none) :: live)

/-- A lister that does what `listing` says: `Live s live` holds the entries in use, the last opened first, each
with what it has still to yield. -/
structure Lawful (lister : Lister σ E) (listing : Path → Listed) : Prop where
  list : ∀ s live path, Live s live → Returns (lister.list s path) fun r => Opens Live live r (listing path)
  next : ∀ s e items broken live, Live s ((e, items, broken) :: live) →
    Returns (lister.next s e) fun r => Takes Live s live r items broken
  drop : ∀ s e items broken live, Live s ((e, items, broken) :: live) → Live (lister.drop s e) live
  empty : ∀ s live, Live s live → Live s ((lister.empty, [], none) :: live)

end Lawful

end Flux.Walk
