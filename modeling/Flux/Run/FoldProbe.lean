import Flux.Base.MaxHeap
import Flux.Base.Utf8
import Flux.Fs.Types
import Mathlib.Data.Finset.Card
import Mathlib.Data.Char
import Mathlib.Data.List.Lex

/-! Whether a directory folds ASCII case, asked of the least usable names of one streamed listing. -/

namespace Flux.Run

open Base

def foldCandidates : ℕ := 8

def isAsciiAlphabetic (b : UInt8) : Bool := 65 ≤ b ∧ b ≤ 90 ∨ 97 ≤ b ∧ b ≤ 122

def foldCandidate (entry : DirEntry) : Option Text :=
  match fromUtf8 entry.name with
  | .error _ => none
  | .ok name => if entry.name.any isAsciiAlphabetic then some name else none

def swapFirstLetter : Text → Text
  | [] => []
  | c :: name =>
    if c.isAlpha then (if c.isUpper then c.toLower else c.toUpper) :: name else c :: swapFirstLetter name

structure Listing where
  entries : List DirEntry
  fails : Option FsError

section Streaming

variable {σ : Type} (visit : σ → DirEntry → Except FsError (ForInStep σ)) (fails : Option FsError)

def visitEach : List DirEntry → σ → Except FsError σ
  | [], s =>
    match fails with
    | some e => .error e
    | none => .ok s
  | entry :: entries, s =>
    match visit s entry with
    | .error e => .error e
    | .ok (.done t) => .ok t
    | .ok (.yield t) => visitEach entries t

def Listing.readDirEach (dir : Listing) (s : σ) : Except FsError σ := visitEach visit dir.fails dir.entries s

lemma visitEach_foldl {visit : σ → DirEntry → Except FsError (ForInStep σ)} {step : σ → DirEntry → σ}
    (h : ∀ s entry, visit s entry = .ok (.yield (step s entry))) (entries : List DirEntry) (s : σ) :
    visitEach visit none entries s = .ok (entries.foldl step s) := by
  induction entries generalizing s with
  | nil => rfl
  | cons entry entries ih =>
    rw [visitEach, h]
    exact ih _

end Streaming

structure DirScan where
  candidates : List Text
  leftovers : List (List Bytes)
  deriving DecidableEq, Repr

def brokenPrefix (lockName : Bytes) : Bytes := lockName ++ utf8 ".broken.".toList

def offer (heap : MaxHeap Text) (entry : DirEntry) : MaxHeap Text :=
  match foldCandidate entry with
  | none => heap
  | some name =>
    if heap.len < foldCandidates ∨ (heap.peek.any fun top => name < top) = true then
      heap.pushWithin foldCandidates name
    else heap

def noteLeftover (name : Bytes) (start : Bytes) (names : List Bytes) : List Bytes :=
  if start.isPrefixOf name then names ++ [name] else names

def scanStep (starts : List Bytes) (s : MaxHeap Text × List (List Bytes)) (entry : DirEntry) :
    MaxHeap Text × List (List Bytes) :=
  (offer s.1 entry, List.zipWith (noteLeftover entry.name) starts s.2)

def scanDir (dir : Listing) (lockNames : List Bytes) : Option DirScan :=
  let starts := lockNames.map brokenPrefix
  match dir.readDirEach (fun s entry => .ok (.yield (scanStep starts s entry)))
      (MaxHeap.empty, lockNames.map fun _ => []) with
  | .error _ => none
  | .ok (heap, leftovers) => some ⟨heap.intoSortedVec, leftovers⟩

section Probe

variable (metadata : Bytes → Except FsError Metadata)

def identitiesSay (name variant : Text) : Option Bool :=
  match metadata (utf8 name) with
  | .error _ => none
  | .ok entry =>
    match entry.identity with
    | .strong id =>
      match metadata (utf8 variant) with
      | .ok found => if found.identity = .strong id then some true else none
      | .error e => if isNotFound e then some false else none
    | _ => none

def DirScan.wanted (scan : DirScan) : Finset Bytes :=
  (scan.candidates.map fun name => utf8 (swapFirstLetter name)).toFinset

def noteListed (wanted found : Finset Bytes) (entry : DirEntry) : ForInStep (Finset Bytes) :=
  if entry.name ∈ wanted then
    if (insert entry.name found).card = wanted.card then .done (insert entry.name found)
    else .yield (insert entry.name found)
  else .yield found

def listedVariants (dir : Listing) (scan : DirScan) : Except FsError (Finset Bytes) :=
  dir.readDirEach (fun found entry => .ok (noteListed scan.wanted found entry)) ∅

def askEach (dir : Listing) (scan : DirScan) : Option (Finset Bytes) → List Text → Option Bool
  | _, [] => none
  | listed, name :: rest =>
    let variant := swapFirstLetter name
    let outcome := identitiesSay metadata name variant
    if outcome = some false then outcome
    else
      match listed.elim (listedVariants dir scan) .ok with
      | .error _ => none
      | .ok set =>
        if utf8 variant ∈ set then some false
        else if outcome.isSome then outcome
        else askEach dir scan (some set) rest

def foldsAsciiCase (dir : Listing) (scan : DirScan) : Option Bool := askEach metadata dir scan none scan.candidates

def askSlice (present : Finset Bytes) : List Text → Option Bool
  | [] => none
  | name :: rest =>
    let variant := swapFirstLetter name
    if utf8 variant ∈ present then some false
    else
      match metadata (utf8 name) with
      | .error _ => askSlice present rest
      | .ok entry =>
        match entry.identity with
        | .strong id =>
          match metadata (utf8 variant) with
          | .ok found => if found.identity = .strong id then some true else askSlice present rest
          | .error e => if isNotFound e then some false else askSlice present rest
        | _ => askSlice present rest

def foldsAsciiCaseOfSlice (entries : List DirEntry) : Option Bool :=
  let heap := (entries.filterMap foldCandidate).foldl (MaxHeap.pushWithin foldCandidates) MaxHeap.empty
  askSlice metadata (entries.map (·.name)).toFinset heap.intoSortedVec

end Probe

lemma offer_eq {heap : MaxHeap Text} (hl : heap.len ≤ foldCandidates) (entry : DirEntry) :
    offer heap entry = (foldCandidate entry).elim heap (heap.pushWithin foldCandidates) := by
  unfold offer
  cases foldCandidate entry with
  | none => rfl
  | some name =>
    dsimp only [Option.elim_some]
    split
    · rfl
    · next h =>
      rw [not_or, not_lt] at h
      symm
      apply MaxHeap.pushWithin_of_full (le_antisymm hl h.1)
      intro top htop
      rw [htop] at h
      simpa using h.2

lemma foldl_offer (entries : List DirEntry) {heap : MaxHeap Text} (hl : heap.len ≤ foldCandidates) :
    entries.foldl offer heap =
      (entries.filterMap foldCandidate).foldl (MaxHeap.pushWithin foldCandidates) heap := by
  induction entries generalizing heap with
  | nil => rfl
  | cons entry entries ih =>
    rw [List.foldl_cons, offer_eq hl]
    cases hc : foldCandidate entry with
    | none =>
      rw [List.filterMap_cons_none hc]
      exact ih hl
    | some name =>
      rw [List.filterMap_cons_some hc, List.foldl_cons]
      exact ih (MaxHeap.len_pushWithin hl name)

lemma foldl_scanStep (starts : List Bytes) (entries : List DirEntry) (s : MaxHeap Text × List (List Bytes)) :
    entries.foldl (scanStep starts) s =
      (entries.foldl offer s.1,
        entries.foldl (fun left entry => List.zipWith (noteLeftover entry.name) starts left) s.2) := by
  induction entries generalizing s with
  | nil => rfl
  | cons entry entries ih => exact ih _

lemma foldl_noteLeftover (starts : List Bytes) (entries : List DirEntry) (names : Bytes → List Bytes) :
    entries.foldl (fun left entry => List.zipWith (noteLeftover entry.name) starts left) (starts.map names) =
      starts.map fun start => names start ++ (entries.map (·.name)).filter start.isPrefixOf := by
  induction entries generalizing names with
  | nil => simp
  | cons entry entries ih =>
    have hstep : List.zipWith (noteLeftover entry.name) starts (starts.map names) =
        starts.map fun start => noteLeftover entry.name start (names start) := by
      rw [List.zipWith_map_right, List.zipWith_self]
    rw [List.foldl_cons, hstep, ih]
    apply List.map_congr_left
    intro start _
    rw [noteLeftover, List.map_cons, List.filter_cons]
    split <;> simp

lemma scanDir_spec (entries : List DirEntry) (lockNames : List Bytes) :
    scanDir ⟨entries, none⟩ lockNames = some {
      candidates := ((entries.filterMap foldCandidate).foldl (MaxHeap.pushWithin foldCandidates)
        MaxHeap.empty).items
      leftovers := lockNames.map fun name => (entries.map (·.name)).filter (brokenPrefix name).isPrefixOf } := by
  have hnil : (lockNames.map fun _ => ([] : List Bytes)) = (lockNames.map brokenPrefix).map fun _ => [] := by
    rw [List.map_map]
    rfl
  rw [scanDir, Listing.readDirEach, visitEach_foldl fun _ _ => rfl, foldl_scanStep, hnil, foldl_noteLeftover,
    foldl_offer entries (Nat.zero_le _)]
  dsimp only
  rw [List.map_map]
  rfl

lemma visitEach_noteListed (wanted : Finset Bytes) (entries : List DirEntry) {found : Finset Bytes}
    (hf : found ⊆ wanted) :
    ∃ set, visitEach (fun found entry => .ok (noteListed wanted found entry)) none entries found = .ok set ∧
      ∀ v ∈ wanted, v ∈ set ↔ v ∈ found ∨ v ∈ entries.map (·.name) := by
  induction entries generalizing found with
  | nil => exact ⟨found, rfl, fun v _ => by simp⟩
  | cons entry entries ih =>
    unfold visitEach noteListed
    by_cases hw : entry.name ∈ wanted
    · have hins : insert entry.name found ⊆ wanted := Finset.insert_subset hw hf
      by_cases hc : (insert entry.name found).card = wanted.card
      · -- Every variant wanted was met: the rest of the stream cannot add one.
        have hall : insert entry.name found = wanted := Finset.eq_of_subset_of_card_le hins hc.ge
        rw [if_pos hw, if_pos hc]
        refine ⟨_, rfl, fun v hv => ⟨fun hvs => ?_, fun _ => hall ▸ hv⟩⟩
        rw [Finset.mem_insert] at hvs
        rw [List.map_cons, List.mem_cons]
        tauto
      · rw [if_pos hw, if_neg hc]
        obtain ⟨set, hset, hmem⟩ := ih hins
        refine ⟨set, hset, fun v hv => ?_⟩
        rw [hmem v hv, Finset.mem_insert, List.map_cons, List.mem_cons]
        tauto
    · rw [if_neg hw]
      obtain ⟨set, hset, hmem⟩ := ih hf
      refine ⟨set, hset, fun v hv => ?_⟩
      have hne : v ≠ entry.name := fun he => hw (he ▸ hv)
      rw [hmem v hv, List.map_cons, List.mem_cons]
      tauto

lemma listedVariants_spec (entries : List DirEntry) (scan : DirScan) :
    ∃ set, listedVariants ⟨entries, none⟩ scan = .ok set ∧
      ∀ name ∈ scan.candidates,
        utf8 (swapFirstLetter name) ∈ set ↔ utf8 (swapFirstLetter name) ∈ (entries.map (·.name)).toFinset := by
  obtain ⟨set, hset, hmem⟩ := visitEach_noteListed scan.wanted entries (Finset.empty_subset _)
  refine ⟨set, hset, fun name hname => ?_⟩
  have hw : utf8 (swapFirstLetter name) ∈ scan.wanted :=
    List.mem_toFinset.mpr (List.mem_map.mpr ⟨name, hname, rfl⟩)
  rw [hmem _ hw, List.mem_toFinset]
  simp

section Agreement

variable (metadata : Bytes → Except FsError Metadata)

lemma askSlice_cons (present : Finset Bytes) (name : Text) (rest : List Text) :
    askSlice metadata present (name :: rest) =
      if utf8 (swapFirstLetter name) ∈ present then some false
      else (identitiesSay metadata name (swapFirstLetter name)).or (askSlice metadata present rest) := by
  rw [askSlice, identitiesSay]
  split_ifs
  · rfl
  · cases metadata (utf8 name) with
    | error e => rfl
    | ok entry =>
      dsimp only
      cases entry.identity with
      | strong id =>
        dsimp only
        cases metadata (utf8 (swapFirstLetter name)) with
        | error e =>
          dsimp only
          split_ifs <;> rfl
        | ok found =>
          dsimp only
          split_ifs <;> rfl
      | weak id => rfl
      | unavailable => rfl

lemma askEach_eq_askSlice {second : List DirEntry} {scan : DirScan} {present set : Finset Bytes}
    (hset : listedVariants ⟨second, none⟩ scan = .ok set) {names : List Text}
    (hmem : ∀ name ∈ names, utf8 (swapFirstLetter name) ∈ set ↔ utf8 (swapFirstLetter name) ∈ present)
    {listed : Option (Finset Bytes)} (hl : listed = none ∨ listed = some set) :
    askEach metadata ⟨second, none⟩ scan listed names = askSlice metadata present names := by
  induction names generalizing listed with
  | nil => rfl
  | cons name names ih =>
    have hread : listed.elim (listedVariants ⟨second, none⟩ scan) .ok = .ok set := by
      rcases hl with rfl | rfl
      · exact hset
      · rfl
    have hrest := ih (fun n hn => hmem n (List.mem_cons_of_mem _ hn)) (.inr rfl)
    have hiff := hmem name List.mem_cons_self
    rw [askEach, askSlice_cons, hread, ← hrest]
    dsimp only
    cases identitiesSay metadata name (swapFirstLetter name) with
    | none => simp [hiff]
    | some b => cases b <;> simp [hiff]

theorem foldsAsciiCase_eq_oracle {entries first second : List DirEntry} (hfirst : first.Perm entries)
    (hsecond : second.Perm entries) (lockNames : List Bytes) :
    ∃ scan, scanDir ⟨first, none⟩ lockNames = some scan ∧
      foldsAsciiCase metadata ⟨second, none⟩ scan = foldsAsciiCaseOfSlice metadata entries := by
  refine ⟨_, scanDir_spec first lockNames, ?_⟩
  obtain ⟨set, hset, hmem⟩ := listedVariants_spec second
    ⟨((first.filterMap foldCandidate).foldl (MaxHeap.pushWithin foldCandidates) MaxHeap.empty).items,
      lockNames.map fun name => (first.map (·.name)).filter (brokenPrefix name).isPrefixOf⟩
  rw [foldsAsciiCase, askEach_eq_askSlice metadata hset hmem (.inl rfl), foldsAsciiCaseOfSlice,
    List.toFinset_eq_of_perm _ _ (hsecond.map _), MaxHeap.foldl_pushWithin_perm (hfirst.filterMap foldCandidate)]
  rfl

end Agreement

def lowerA : DirEntry := ⟨[97], .file, none⟩

def upperA : DirEntry := ⟨[65], .file, none⟩

def oneFile (_ : Bytes) : Except FsError Metadata := .ok ⟨0, .file, none, none, .strong ⟨3, 4242⟩, some 2⟩

theorem linked_twins_answered_alike :
    [upperA, lowerA].Perm [lowerA, upperA] ∧ ∃ scan, scanDir ⟨[upperA, lowerA], none⟩ [] = some scan ∧
      foldsAsciiCase oneFile ⟨[lowerA, upperA], none⟩ scan = foldsAsciiCaseOfSlice oneFile [lowerA, upperA] :=
  ⟨.swap _ _ _, foldsAsciiCase_eq_oracle oneFile (.swap _ _ _) (.refl _) []⟩

example : foldsAsciiCaseOfSlice oneFile [lowerA, upperA] = some false := by decide +kernel

end Flux.Run
