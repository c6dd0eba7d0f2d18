import Flux.State.Runs
import Flux.Fs.Matching

namespace Flux.State

open Base

lemma checkChar_newline (raw : Text) : checkChar raw '\n' ≠ .ok () := by
  simp [checkChar, isControl]

lemma forM_eq_ok {ε α : Type} {f : α → Except ε Unit} {l : List α} {u : Unit} (h : l.forM f = .ok u) :
    ∀ a ∈ l, f a = .ok () := by
  induction l with
  | nil => simp
  | cons b l ih =>
    obtain ⟨_, hb, hl⟩ := bind_eq_ok.mp h
    intro a ha
    rcases List.mem_cons.mp ha with rfl | ha
    · exact hb
    · exact ih hl a ha

lemma newline_notMem_of_parse {s : Text} {p : Pattern} (h : Pattern.parse s = .ok p) : '\n' ∉ s := by
  intro hmem
  unfold Pattern.parse at h
  obtain ⟨_, hchars, -⟩ := bind_eq_ok.mp (unless_throw (unless_throw h))
  exact checkChar_newline s (forM_eq_ok hchars _ hmem)

lemma mapM_eq_ok {ε α β : Type} {f : α → Except ε β} {l : List α} {r : List β} (h : l.mapM f = .ok r) :
    ∀ a ∈ l, ∃ b, f a = .ok b := by
  induction l generalizing r with
  | nil => simp
  | cons c l ih =>
    rw [List.mapM_cons] at h
    obtain ⟨b, hb, h⟩ := bind_eq_ok.mp h
    obtain ⟨bs, hbs, -⟩ := bind_eq_ok.mp h
    intro a ha
    rcases List.mem_cons.mp ha with rfl | ha
    · exact ⟨b, hb⟩
    · exact ih hbs a ha

lemma newline_notMem_typed (sel : Selection) : ∀ s ∈ sel.typed, '\n' ∉ s := by
  intro s hs
  obtain ⟨p, hp⟩ := mapM_eq_ok sel.parses s hs
  exact newline_notMem_of_parse hp

def Options.optionalLines (o : Options) : List Text :=
  (if o.links = "skip".toList then ["links=skip".toList] else []) ++
    (if o.crossFilesystems then ["cross_filesystems=true".toList] else []) ++
    (sortDedup o.exclude).map ("exclude=".toList ++ ·) ++
    (if o.recursive then [] else ["recursive=false".toList])

def Options.lines (o : Options) : List Text :=
  ["flux-config-v1".toList, "preserve_times=".toList ++ o.preserveTimes,
    "preserve_permissions=".toList ++ o.preservePermissions, "safety=".toList ++ o.safety,
    "existing=".toList ++ o.existing] ++ o.optionalLines

lemma joinLines_map (f : Text → Text) (ls : List Text) :
    joinLines (ls.map f) = ls.flatMap fun l => f l ++ ['\n'] :=
  List.flatMap_map f _ ls

lemma Options.canonicalText_eq (o : Options) : o.canonicalText = joinLines o.lines := by
  have hheader : fingerprintHeader = "flux-config-v1".toList ++ ['\n'] := rfl
  have hpermissions : "\npreserve_permissions=".toList = '\n' :: "preserve_permissions=".toList := rfl
  have hsafety : "\nsafety=".toList = '\n' :: "safety=".toList := rfl
  have hexisting : "\nexisting=".toList = '\n' :: "existing=".toList := rfl
  have hlinks : (if o.links = "skip".toList then "links=skip\n".toList else []) =
      joinLines (if o.links = "skip".toList then ["links=skip".toList] else []) := by
    split <;> rfl
  have hcross : (if o.crossFilesystems then "cross_filesystems=true\n".toList else []) =
      joinLines (if o.crossFilesystems then ["cross_filesystems=true".toList] else []) := by
    split <;> rfl
  have hrecursive : (if o.recursive then [] else "recursive=false\n".toList) =
      joinLines (if o.recursive then [] else ["recursive=false".toList]) := by
    split <;> rfl
  rw [Options.canonicalText, Options.lines, Options.optionalLines, hheader, hpermissions, hsafety,
    hexisting, hlinks, hcross, hrecursive, ← joinLines_map]
  simp only [joinLines, List.flatMap_append, List.flatMap_cons, List.append_assoc, List.cons_append,
    List.nil_append]

def headed (c : Char) (ls : List Text) : List Text := ls.filter fun l => l.head? = some c

lemma headed_append (c : Char) (ls ms : List Text) : headed c (ls ++ ms) = headed c ls ++ headed c ms :=
  List.filter_append _ _

lemma headed_exclude (ps : List Text) :
    headed 'e' (ps.map ("exclude=".toList ++ ·)) = ps.map ("exclude=".toList ++ ·) := by
  apply List.filter_eq_self.mpr
  intro l hl
  obtain ⟨p, -, rfl⟩ := List.mem_map.mp hl
  rfl

lemma headed_exclude_of_ne {c : Char} (hc : c ≠ 'e') (ps : List Text) :
    headed c (ps.map ("exclude=".toList ++ ·)) = [] := by
  apply List.filter_eq_nil_iff.mpr
  intro l hl hhead
  obtain ⟨p, -, rfl⟩ := List.mem_map.mp hl
  exact hc (Option.some.inj (of_decide_eq_true hhead)).symm

variable {l : Text}

lemma headed_if {c : Char} (p : Prop) [Decidable p] (h : l.head? = some c) :
    headed c (if p then [l] else []) = if p then [l] else [] := by
  split
  · exact List.filter_eq_self.mpr fun m hm => by simpa [List.mem_singleton.mp hm] using h
  · rfl

lemma headed_if_of_ne {c : Char} (p : Prop) [Decidable p] (h : l.head? ≠ some c) :
    headed c (if p then [l] else []) = [] := by
  split
  · exact List.filter_eq_nil_iff.mpr fun m hm => by simpa [List.mem_singleton.mp hm] using h
  · rfl

lemma if_not_recursive (o : Options) :
    (if o.recursive then [] else ["recursive=false".toList]) =
      if o.recursive = false then ["recursive=false".toList] else [] := by
  cases o.recursive <;> rfl

lemma single_if_inj {p q : Prop} [Decidable p] [Decidable q]
    (h : (if p then [l] else []) = if q then [l] else []) : p ↔ q := by
  by_cases hp : p <;> by_cases hq : q <;> simp_all

variable {a b : Options}

lemma headed_links (o : Options) :
    headed 'l' o.optionalLines = if o.links = "skip".toList then ["links=skip".toList] else [] := by
  rw [Options.optionalLines, if_not_recursive, headed_append, headed_append, headed_append, headed_if _ rfl,
    headed_if_of_ne _ (by decide), headed_if_of_ne _ (by decide), headed_exclude_of_ne (by decide)]
  simp only [List.append_nil]

lemma headed_cross (o : Options) :
    headed 'c' o.optionalLines = if o.crossFilesystems then ["cross_filesystems=true".toList] else [] := by
  rw [Options.optionalLines, if_not_recursive, headed_append, headed_append, headed_append,
    headed_if_of_ne (o.links = _) (by decide), headed_if _ rfl, headed_exclude_of_ne (by decide),
    headed_if_of_ne _ (by decide)]
  simp only [List.append_nil, List.nil_append]

lemma headed_patterns (o : Options) :
    headed 'e' o.optionalLines = (sortDedup o.exclude).map ("exclude=".toList ++ ·) := by
  rw [Options.optionalLines, if_not_recursive, headed_append, headed_append, headed_append, headed_exclude,
    headed_if_of_ne _ (by decide), headed_if_of_ne _ (by decide), headed_if_of_ne _ (by decide)]
  simp only [List.append_nil, List.nil_append]

lemma headed_recursive (o : Options) :
    headed 'r' o.optionalLines = if o.recursive = false then ["recursive=false".toList] else [] := by
  rw [Options.optionalLines, if_not_recursive, headed_append, headed_append, headed_append,
    headed_if_of_ne (o.links = _) (by decide), headed_if_of_ne _ (by decide), headed_exclude_of_ne (by decide),
    headed_if _ rfl]
  simp only [List.nil_append]

lemma optionalLines_inj (h : a.optionalLines = b.optionalLines) :
    (a.links = "skip".toList ↔ b.links = "skip".toList) ∧ a.crossFilesystems = b.crossFilesystems ∧
      sortDedup a.exclude = sortDedup b.exclude ∧ a.recursive = b.recursive := by
  have hlinks := congrArg (headed 'l') h
  rw [headed_links, headed_links] at hlinks
  have hcross := congrArg (headed 'c') h
  rw [headed_cross, headed_cross] at hcross
  have hpatterns := congrArg (headed 'e') h
  rw [headed_patterns, headed_patterns] at hpatterns
  have hrecursive := congrArg (headed 'r') h
  rw [headed_recursive, headed_recursive] at hrecursive
  refine ⟨single_if_inj hlinks, Bool.eq_iff_iff.mpr (single_if_inj hcross), ?_, ?_⟩
  · exact List.map_injective_iff.mpr (List.append_right_injective _) hpatterns
  · have hiff := single_if_inj hrecursive
    rw [← Bool.not_eq_true, ← Bool.not_eq_true, not_iff_not] at hiff
    exact Bool.eq_iff_iff.mpr hiff

lemma lines_inj (h : a.lines = b.lines) :
    a.preserveTimes = b.preserveTimes ∧ a.preservePermissions = b.preservePermissions ∧ a.safety = b.safety ∧
      a.existing = b.existing ∧ a.optionalLines = b.optionalLines := by
  obtain ⟨-, h⟩ := List.cons.inj h
  obtain ⟨htimes, h⟩ := List.cons.inj h
  obtain ⟨hpermissions, h⟩ := List.cons.inj h
  obtain ⟨hsafety, h⟩ := List.cons.inj h
  obtain ⟨hexisting, h⟩ := List.cons.inj h
  exact ⟨List.append_cancel_left htimes, List.append_cancel_left hpermissions, List.append_cancel_left hsafety,
    List.append_cancel_left hexisting, h⟩

lemma newline_notMem_preserveText (p : Preserve) : '\n' ∉ preserveText p := by
  cases p <;> decide

lemma eq_of_mem_single_if {m : Text} {p : Prop} [Decidable p] (h : m ∈ if p then [l] else []) : m = l := by
  split at h
  · exact List.mem_singleton.mp h
  · cases h

lemma newline_notMem_append {s t : Text} (hs : '\n' ∉ s) (ht : '\n' ∉ t) : '\n' ∉ s ++ t := by
  rw [List.mem_append]
  exact not_or_intro hs ht

lemma newline_notMem_optionalLines (opts : CopyOptions) : ∀ l ∈ (Options.of opts).optionalLines, '\n' ∉ l := by
  intro l hl
  rw [Options.optionalLines, if_not_recursive, List.mem_append, List.mem_append, List.mem_append, or_assoc,
    or_assoc] at hl
  rcases hl with hl | hl | hl | hl
  · rw [eq_of_mem_single_if hl]
    decide
  · rw [eq_of_mem_single_if hl]
    decide
  · obtain ⟨p, hp, rfl⟩ := List.mem_map.mp hl
    exact newline_notMem_append (by decide) (newline_notMem_typed opts.selection p (mem_sortDedup.mp hp))
  · rw [eq_of_mem_single_if hl]
    decide

lemma newline_notMem_lines (opts : CopyOptions) : ∀ l ∈ (Options.of opts).lines, '\n' ∉ l := by
  have hsafety : '\n' ∉ (Options.of opts).safety := by
    dsimp only [Options.of]
    cases opts.safety <;> decide
  have hexisting : '\n' ∉ (Options.of opts).existing := by
    dsimp only [Options.of]
    cases opts.existing <;> decide
  rw [Options.lines]
  refine List.forall_mem_cons.mpr ⟨by decide, ?_⟩
  refine List.forall_mem_cons.mpr ⟨newline_notMem_append (by decide) (newline_notMem_preserveText _), ?_⟩
  refine List.forall_mem_cons.mpr ⟨newline_notMem_append (by decide) (newline_notMem_preserveText _), ?_⟩
  refine List.forall_mem_cons.mpr ⟨newline_notMem_append (by decide) hsafety, ?_⟩
  refine List.forall_mem_cons.mpr ⟨newline_notMem_append (by decide) hexisting, ?_⟩
  exact newline_notMem_optionalLines opts

lemma links_eq (opts opts' : CopyOptions)
    (h : (Options.of opts).links = "skip".toList ↔ (Options.of opts').links = "skip".toList) :
    (Options.of opts).links = (Options.of opts').links := by
  dsimp only [Options.of] at h ⊢
  revert h
  cases opts.links <;> cases opts'.links <;> decide

theorem fingerprint_determines_options {patterns patterns' : List Text} {recursive recursive' : Bool}
    (opts opts' : CopyOptions) (hc : Selection.compile patterns recursive = .ok opts.selection)
    (hc' : Selection.compile patterns' recursive' = .ok opts'.selection)
    (h : (Options.of opts).canonicalBytes = (Options.of opts').canonicalBytes) :
    Options.of opts' = { Options.of opts with durability := (Options.of opts').durability } ∧
      sortDedup patterns' = sortDedup patterns ∧ recursive' = recursive := by
  have htext := utf8_inj h
  rw [Options.canonicalText_eq, Options.canonicalText_eq] at htext
  have hlines := joinLines_inj (newline_notMem_lines opts) (newline_notMem_lines opts') htext
  obtain ⟨htimes, hpermissions, hsafety, hexisting, hoptional⟩ := lines_inj hlines
  obtain ⟨hlinks, hcross, hexclude, hrecursive⟩ := optionalLines_inj hoptional
  have htyped : opts.selection.typed = opts'.selection.typed := by
    have hs : sortDedup opts.selection.typed = sortDedup opts'.selection.typed := hexclude
    rwa [sortDedup_of_sorted opts.selection.sorted, sortDedup_of_sorted opts'.selection.sorted] at hs
  obtain ⟨hp, hr⟩ := compile_eq_ok hc
  obtain ⟨hp', hr'⟩ := compile_eq_ok hc'
  refine ⟨?_, by rw [← hp, ← hp', htyped], by rw [← hr, ← hr']; exact hrecursive.symm⟩
  rw [Options.mk.injEq]
  exact ⟨htimes.symm, hpermissions.symm, rfl, hsafety.symm, hexisting.symm, (links_eq opts opts' hlinks).symm,
    hcross.symm, htyped.symm, hrecursive.symm⟩

def durable (d : Durability) (selection : Selection) : CopyOptions where
  preserveTimes := .default
  preservePermissions := .off
  durability := d
  publish := .replace
  safety := .default
  operationId := []
  existing := .overwrite
  links := .copy
  crossFilesystems := true
  verify := .none
  selection := selection

theorem repeated_patterns_fingerprint_alike :
    Selection.compile ["/build/".toList, "*.o".toList, "/build/".toList] true = .ok sourcesOnly ∧
      Options.of (durable .strict sourcesOnly) =
        { Options.of (durable .normal sourcesOnly) with
            durability := (Options.of (durable .strict sourcesOnly)).durability } ∧
      sortDedup sourcesOnly.typed = sortDedup ["/build/".toList, "*.o".toList, "/build/".toList] ∧
      true = true := by
  have hs : sortDedup ["/build/".toList, "*.o".toList, "/build/".toList] = sourcesOnly.typed := by
    apply sortDedup_eq_of_mem_iff sourcesOnly.sorted
    intro s
    simp only [sourcesOnly, List.mem_cons, List.not_mem_nil, or_false]
    tauto
  have hc := Selection.compile_of_sortDedup hs (by decide) (by decide)
  exact ⟨hc, fingerprint_determines_options (durable .normal sourcesOnly) (durable .strict sourcesOnly) hc
    sourcesOnly.compile_typed rfl⟩

end Flux.State
