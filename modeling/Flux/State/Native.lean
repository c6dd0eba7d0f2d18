import Flux.Base.UnixPath
import Flux.State.Names

namespace Flux.State

open Base

lemma splitOn_part {xs part : Bytes} (h : part ∈ xs.splitOn slash) : slash ∉ part ∧ ∀ u ∈ part, u ∈ xs := by
  induction xs generalizing part with
  | nil => simp_all
  | cons x xs ih =>
    obtain ⟨first, rest, hs⟩ := List.exists_cons_of_ne_nil (List.splitOn_ne_nil slash xs)
    rw [List.splitOn_cons_eq_if_modifyHead, hs, List.modifyHead_cons] at h
    rw [hs] at ih
    split_ifs at h with hx
    · grind
    · grind

lemma proper_of_all {xs : Bytes} (h : ((xs.splitOn slash).all fun p => p ≠ [] ∧ 0 ∉ p) = true) :
    ∀ p ∈ xs.splitOn slash, p ≠ [] ∧ slash ∉ p ∧ 0 ∉ p := by
  intro p hp
  have hp' := of_decide_eq_true (List.all_eq_true.mp h p hp)
  exact ⟨hp'.1, (splitOn_part hp).1, hp'.2⟩

lemma units_of_nativeParts {bytes : Bytes} {rooted : Bool} {parts : List Bytes}
    (h : nativeParts bytes = some (rooted, parts)) :
    ∃ p : Path, p.rooted = rooted ∧ p.parts = parts ∧ nativeUnits p = bytes := by
  unfold nativeParts at h
  dsimp only at h
  by_cases hroot : bytes.head? = some slash
  · obtain ⟨rest, rfl⟩ : ∃ rest, bytes = slash :: rest := by
      cases bytes with
      | nil => cases hroot
      | cons b rest => exact ⟨rest, by rw [Option.some.inj hroot]⟩
    rw [decide_eq_true hroot] at h
    simp only [if_true, List.tail_cons, true_and] at h
    split_ifs at h with hrest hall
    · obtain ⟨rfl, rfl⟩ := Prod.mk.inj (Option.some.inj h)
      exact ⟨⟨true, [], by simp, .inl rfl⟩, rfl, rfl, by simp [nativeUnits, hrest]⟩
    · obtain ⟨rfl, rfl⟩ := Prod.mk.inj (Option.some.inj h)
      exact ⟨⟨true, rest.splitOn slash, proper_of_all hall, .inl rfl⟩, rfl,
        rfl, by simp [nativeUnits, List.intercalate_splitOn]⟩
  · rw [decide_eq_false hroot] at h
    simp only [Bool.false_eq_true, if_false, false_and] at h
    split_ifs at h with hall
    obtain ⟨rfl, rfl⟩ := Prod.mk.inj (Option.some.inj h)
    exact ⟨⟨false, bytes.splitOn slash, proper_of_all hall, .inr (List.splitOn_ne_nil _ _)⟩, rfl, rfl,
      by simp [nativeUnits, List.intercalate_splitOn]⟩

lemma intercalate_cons {U : Type} (u : U) (p : List U) (ps : List (List U)) :
    [u].intercalate (p :: ps) = p ++ ps.flatMap (u :: ·) := by
  induction ps generalizing p with
  | nil => simp
  | cons q ps ih =>
    rw [List.intercalate_cons_cons, ih]
    simp

namespace Unix

open UnixPath

def joined : List UnixPath.Component → Bytes
  | [] => []
  | [c] => c.text
  | c :: d :: cs => c.text ++ (if c = .rootDir then [] else [slash]) ++ joined (d :: cs)

def nativeHex (path : Bytes) : Text := hex (joined (components path))

def fromNativeHex (t : Text) : Option Bytes :=
  (State.fromNativeHex t).map fun x => ((if x.1 then [[slash]] else []) ++ x.2).foldl push []

lemma pushed_units (p : Path) :
    ((if p.rooted then [[slash]] else []) ++ p.parts).foldl push [] = nativeUnits p := by
  obtain ⟨rooted, parts, proper, nonempty⟩ := p
  cases parts with
  | nil =>
    obtain rfl : rooted = true := nonempty.resolve_right fun h => h rfl
    rfl
  | cons q qs =>
    obtain ⟨⟨hq, hs, -⟩, hqs⟩ := List.forall_mem_cons.mp proper
    have hrest : ∀ r ∈ qs, r ≠ [] ∧ separator ∉ r := fun r hr => ⟨(hqs r hr).1, (hqs r hr).2.1⟩
    have hlast : ∀ buf : Bytes, (buf ++ q).getLast? ≠ some separator := by
      intro buf h
      rw [List.getLast?_append_of_ne_nil _ hq] at h
      exact hs (List.mem_of_mem_getLast? h)
    have hfold : ∀ buf : Bytes, buf = [] ∨ buf.getLast? = some separator →
        (q :: qs).foldl push buf = buf ++ [slash].intercalate (q :: qs) := by
      intro buf hb
      rw [List.foldl_cons, push_name hs, if_pos hb, foldl_push hrest (by simp [hq]) (hlast buf), intercalate_cons,
        List.append_assoc]
      rfl
    cases rooted with
    | false => exact hfold [] (.inl rfl)
    | true => exact hfold [slash] (.inr rfl)

def kept (path : Bytes) : List Bytes :=
  (if hasRoot path = false ∧ (path.splitOn slash).head? = some [dot] then [[dot]] else []) ++
    (path.splitOn slash).filter fun p => p ≠ [] ∧ p ≠ [dot]

lemma filterMap_text (parts : List Bytes) : (∀ c ∈ parts.filterMap parseSingle, c ≠ .rootDir) ∧
    (parts.filterMap parseSingle).map UnixPath.Component.text = parts.filter fun p => p ≠ [] ∧ p ≠ [dot] := by
  induction parts with
  | nil => simp
  | cons p parts ih =>
    by_cases hp : p ≠ [] ∧ p ≠ [dot]
    · obtain ⟨c, hc, htext, hne⟩ := parseSingle_text hp
      rw [List.filterMap_cons_some hc, List.map_cons, ih.2, htext, List.filter_cons_of_pos (by simpa using hp)]
      exact ⟨List.forall_mem_cons.mpr ⟨hne, ih.1⟩, rfl⟩
    · have hnone : parseSingle p = none := parseSingle_eq_none (by rwa [← not_or, not_not] at hp)
      rw [List.filterMap_cons_none hnone, List.filter_cons_of_neg (by simpa using hp)]
      exact ih

lemma joined_body {cs : List UnixPath.Component} (h : ∀ c ∈ cs, c ≠ .rootDir) :
    joined cs = [slash].intercalate (cs.map UnixPath.Component.text) := by
  induction cs with
  | nil => rfl
  | cons c cs ih =>
    obtain ⟨hc, hcs⟩ := List.forall_mem_cons.mp h
    cases cs with
    | nil => simp [joined]
    | cons d cs =>
      rw [joined, if_neg hc, ih hcs]
      simp

lemma joined_root (cs : List UnixPath.Component) : joined (.rootDir :: cs) = slash :: joined cs := by
  cases cs <;> rfl

lemma joined_components (path : Bytes) :
    joined (components path) = (if hasRoot path then [slash] else []) ++ [slash].intercalate (kept path) := by
  obtain ⟨hbody, htext⟩ := filterMap_text (path.splitOn slash)
  unfold components kept
  rw [← htext]
  by_cases hroot : hasRoot path = true
  · rw [if_pos hroot, if_pos hroot, if_neg (by rw [hroot]; simp), List.nil_append, ← joined_body hbody]
    exact joined_root _
  · rw [if_neg hroot, if_neg hroot, (Bool.not_eq_true _).mp hroot]
    by_cases hdot : (path.splitOn separator).head? = some [dot]
    · rw [if_pos hdot, if_pos ⟨rfl, hdot⟩]
      exact joined_body (List.forall_mem_cons.mpr ⟨by decide, hbody⟩)
    · rw [if_neg hdot, if_neg fun h => hdot h.2]
      exact joined_body hbody

variable {path : Bytes}

lemma first_part (hne : path ≠ []) (hroot : hasRoot path = false) :
    ∃ p ps, path.splitOn slash = p :: ps ∧ p ≠ [] := by
  obtain ⟨b, rest, rfl⟩ := List.exists_cons_of_ne_nil hne
  have hb : ¬ (b == slash) = true := fun h => by simp [hasRoot, eq_of_beq h, separator, slash] at hroot
  obtain ⟨p, ps, hs⟩ := List.exists_cons_of_ne_nil (List.splitOn_ne_nil slash rest)
  refine ⟨b :: p, ps, ?_, List.cons_ne_nil _ _⟩
  rw [List.splitOn_cons_eq_if_modifyHead, if_neg hb, hs, List.modifyHead_cons]

def tidy (path : Bytes) (hne : path ≠ []) (hnul : 0 ∉ path) : Path where
  rooted := hasRoot path
  parts := kept path
  proper := fun p hp => by
    rcases List.mem_append.mp hp with hp | hp
    · split_ifs at hp with hdot
      · rw [List.mem_singleton.mp hp]
        decide
      · cases hp
    · obtain ⟨hp, hkept⟩ := List.mem_filter.mp hp
      have hpart := splitOn_part hp
      exact ⟨(of_decide_eq_true hkept).1, hpart.1, fun h => hnul (hpart.2 0 h)⟩
  nonempty := by
    cases hroot : hasRoot path with
    | true => exact .inl rfl
    | false =>
      right
      obtain ⟨p, ps, hs, hp⟩ := first_part hne hroot
      unfold kept
      rw [hs, hroot]
      by_cases hdot : p = [dot]
      · rw [if_pos ⟨rfl, by rw [hdot]; rfl⟩]
        exact List.cons_ne_nil _ _
      · rw [List.filter_cons_of_pos (by simp [hp, hdot])]
        simp

lemma nativeHex_eq (hne : path ≠ []) (hnul : 0 ∉ path) :
    nativeHex path = State.nativeHex (tidy path hne hnul) := by
  rw [nativeHex, joined_components]
  rfl

lemma splitOn_units (p : Path) :
    (nativeUnits p).splitOn slash = (if p.rooted then [[]] else []) ++ if p.parts = [] then [[]] else p.parts := by
  have hsplit : p.parts ≠ [] → ([slash].intercalate p.parts).splitOn slash = p.parts :=
    List.splitOn_intercalate slash fun q hq => (p.proper q hq).2.1
  cases hr : p.rooted with
  | false =>
    have hne : p.parts ≠ [] := p.nonempty.resolve_left (by simp [hr])
    simp [nativeUnits, hr, hsplit hne, hne]
  | true =>
    by_cases hne : p.parts = []
    · simp [nativeUnits, hr, hne, List.splitOn_cons_eq_if_modifyHead]
    · simp [nativeUnits, hr, hsplit hne, hne, List.splitOn_cons_eq_if_modifyHead]

lemma hasRoot_units (p : Path) : hasRoot (nativeUnits p) = p.rooted := by
  cases hr : p.rooted with
  | false =>
    rw [hasRoot, nativeUnits, hr]
    exact decide_eq_false (head_ne_slash p.proper)
  | true =>
    rw [hasRoot, nativeUnits, hr]
    rfl

lemma filterMap_kept (path : Bytes) :
    (kept path).filterMap parseSingle = (path.splitOn slash).filterMap parseSingle := by
  have hlead : ∀ c : Prop, ∀ [Decidable c], (if c then [[dot]] else []).filterMap parseSingle = [] := by
    intro c _
    split <;> rfl
  rw [kept, List.filterMap_append, hlead, List.nil_append, List.filterMap_filter]
  refine List.filterMap_congr fun p _ => ?_
  split_ifs with hp
  · rfl
  · rw [parseSingle_eq_none]
    simpa [or_iff_not_imp_left] using hp

lemma kept_head (hroot : hasRoot path = false) :
    (kept path).head? = some [dot] ↔ (path.splitOn slash).head? = some [dot] := by
  unfold kept
  by_cases hdot : (path.splitOn slash).head? = some [dot]
  · rw [if_pos ⟨hroot, hdot⟩]
    exact iff_of_true rfl hdot
  · rw [if_neg fun h => hdot h.2, List.nil_append]
    refine iff_of_false (fun h => ?_) hdot
    have hkept := (List.mem_filter.mp (List.mem_of_mem_head? h)).2
    simp at hkept

def taken (rooted : Bool) (parts : List Bytes) : List UnixPath.Component :=
  (if rooted then [.rootDir] else if parts.head? = some [dot] then [.curDir] else []) ++
    parts.filterMap parseSingle

lemma components_eq (path : Bytes) : components path = taken (hasRoot path) (kept path) := by
  rw [taken, filterMap_kept]
  cases hr : hasRoot path with
  | true => simp [components, hr, separator, slash]
  | false =>
    rw [components, hr]
    exact congrArg (· ++ _) (if_congr .rfl rfl (if_congr (kept_head hr).symm rfl rfl))

lemma components_units (p : Path) : components (nativeUnits p) = taken p.rooted p.parts := by
  have hsplit : (nativeUnits p).splitOn separator = _ := splitOn_units p
  have hempty : parseSingle [] = none := rfl
  rw [components, hasRoot_units, hsplit, taken]
  cases hr : p.rooted with
  | true => by_cases hp : p.parts = [] <;> simp [hp, hempty]
  | false => simp [p.nonempty.resolve_left (by simp [hr])]

lemma components_tidy (hne : path ≠ []) (hnul : 0 ∉ path) :
    components (nativeUnits (tidy path hne hnul)) = components path :=
  (components_units _).trans (components_eq path).symm

lemma filter_eq_parts {ps : List Bytes} (h : ∀ p ∈ ps, p ≠ []) :
    (ps.filter fun p => p ≠ [] ∧ p ≠ [dot]) = ps ↔ [dot] ∉ ps := by
  rw [List.filter_eq_self]
  constructor
  · intro hall hm
    have := hall _ hm
    simp at this
  · intro hm p hp
    exact decide_eq_true ⟨h p hp, fun e => hm (e ▸ hp)⟩

lemma kept_units_iff (p : Path) :
    kept (nativeUnits p) = p.parts ↔ [dot] ∉ ((nativeUnits p).splitOn slash).tail := by
  obtain ⟨rooted, parts, proper, nonempty⟩ := p
  have hne : ∀ q ∈ parts, q ≠ [] := fun q hq => (proper q hq).1
  have hroot := hasRoot_units ⟨rooted, parts, proper, nonempty⟩
  have hsplit := splitOn_units ⟨rooted, parts, proper, nonempty⟩
  dsimp only at hroot hsplit ⊢
  rw [kept, hroot, hsplit]
  cases rooted with
  | true =>
    by_cases hnil : parts = []
    · subst hnil
      simp
    · rw [if_neg hnil]
      simpa using filter_eq_parts hne
  | false =>
    have hnil : parts ≠ [] := nonempty.resolve_left (by simp)
    obtain ⟨q, qs, rfl⟩ := List.exists_cons_of_ne_nil hnil
    obtain ⟨hq, hqs⟩ := List.forall_mem_cons.mp hne
    have htail := filter_eq_parts hqs
    rw [if_neg hnil]
    by_cases hdot : q = [dot]
    · subst hdot
      simpa using htail
    · simpa [hdot, hq] using htail

lemma nul_notMem_units (p : Path) : 0 ∉ nativeUnits p := by
  have hslash : (0 : UInt8) ≠ slash := by decide
  have hparts : ∀ q ∈ p.parts, 0 ∉ q := fun q hq => (p.proper q hq).2.2
  rw [nativeUnits]
  cases p.rooted <;> cases hp : p.parts <;> simp_all [intercalate_cons]

lemma of_fromNativeHex {t : Text} (h : fromNativeHex t = some path) :
    ∃ p : Path, nativeUnits p = path ∧ hex path = t := by
  obtain ⟨⟨rooted, parts⟩, hread, rfl⟩ := Option.map_eq_some_iff.mp h
  rw [State.fromNativeHex] at hread
  split_ifs at hread
  obtain ⟨bytes, hbytes, hparts⟩ := Option.bind_eq_some_iff.mp hread
  obtain ⟨p, rfl, rfl, rfl⟩ := units_of_nativeParts hparts
  exact ⟨p, (pushed_units p).symm, by rw [pushed_units]; exact hex_of_unhex hbytes⟩

lemma nativeHex_eq_iff {t : Text} (h : fromNativeHex t = some path) :
    nativeHex path = t ↔ [dot] ∉ (path.splitOn slash).tail := by
  obtain ⟨p, rfl, rfl⟩ := of_fromNativeHex h
  have hroot := hasRoot_units p
  rw [← kept_units_iff, nativeHex, joined_components, hroot]
  constructor
  · intro he
    have hunits : nativeUnits (tidy _ (nativeUnits_ne_nil p) (nul_notMem_units p)) = nativeUnits p := by
      rw [nativeUnits]
      change (if hasRoot (nativeUnits p) then [slash] else []) ++ [slash].intercalate (kept (nativeUnits p)) = _
      rw [hroot]
      exact hex_inj he
    have hparts := congrArg nativeParts hunits
    rw [nativeParts_units, nativeParts_units] at hparts
    exact (Prod.mk.inj (Option.some.inj hparts)).2
  · intro hk
    rw [hk]
    rfl

theorem native_hex_round_trip :
    (∀ path, path ≠ [] → 0 ∉ path → (∃ q, fromNativeHex (nativeHex path) = some q ∧
      components q = components path) ∧
      ∀ path', path' ≠ [] → 0 ∉ path' → (nativeHex path = nativeHex path' ↔ components path = components path')) ∧
    ∀ t path, fromNativeHex t = some path → (nativeHex path = t ↔ [dot] ∉ (path.splitOn slash).tail) := by
  have hread : ∀ path (hne : path ≠ []) (hnul : 0 ∉ path),
      fromNativeHex (nativeHex path) = some (nativeUnits (tidy path hne hnul)) := by
    intro path hne hnul
    rw [fromNativeHex, nativeHex_eq hne hnul, State.fromNativeHex_nativeHex, Option.map_some, pushed_units]
  refine ⟨fun path hne hnul => ⟨⟨_, hread path hne hnul, components_tidy hne hnul⟩, fun path' hne' hnul' => ?_⟩,
    fun t path => nativeHex_eq_iff⟩
  constructor
  · intro he
    have hsame := hread path hne hnul
    rw [he, hread path' hne' hnul', Option.some.injEq] at hsame
    rw [← components_tidy hne hnul, ← components_tidy hne' hnul', hsame]
  · intro he
    rw [nativeHex, nativeHex, he]

end Unix

end Flux.State
