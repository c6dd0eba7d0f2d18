import Flux.Base.Utf8
import Flux.Base.Loop
import Flux.Fs.PathKey

/-! Paths as they are shown: joined with slashes, and escaped where they are not plain text (POSIX). -/

namespace Flux.Verify

open Base

def hexEscape (b : UInt8) : Text := '\\' :: 'x' :: hex [b]

def escapeChar (c : Char) : Text :=
  if c = '\\' then ['\\', '\\']
  else if c = '\n' then ['\\', 'n']
  else if c = '\r' then ['\\', 'r']
  else if c = '\t' then ['\\', 't']
  else if c.toNat < 0x20 ∨ c.toNat = 0x7F then hexEscape (.ofNat c.toNat)
  else [c]

def escapeChars (s out : Text) : Text := s.foldl (fun out c => out ++ escapeChar c) out

def panics {α : Type} : Attempt Empty α := (none : Option (Except Empty α))

def componentStep (s : Bytes × Text) : Attempt Empty ((Bytes × Text) ⊕ Text) :=
  let (rest, out) := s
  if rest = [] then pure (.inr out)
  else
    match fromUtf8 rest with
    | .ok valid => pure (.inr (escapeChars valid out))
    | .error e =>
      if rest.length < e.validUpTo then panics
      else
        match fromUtf8 (rest.take e.validUpTo) with
        | .error _ => panics
        | .ok valid =>
          let bad := rest.drop e.validUpTo
          let n := e.errorLen.getD bad.length
          if bad.length < n then panics
          else pure (.inl (bad.drop n, (bad.take n).foldl (fun out b => out ++ hexEscape b)
            (escapeChars valid out)))

def escapeComponent (name : Bytes) (out : Text) : Attempt Empty Text := loop componentStep (name, out)

def displayPath (path : Path) : Attempt Empty Text := do
  let out ← path.zipIdx.foldlM (fun out c => escapeComponent c.1 (if 0 < c.2 then out ++ ['/'] else out)) []
  pure (if out = [] then ['.'] else out)

def plainEscape : Char → UInt8
  | 'n' => 10
  | 'r' => 13
  | 't' => 9
  | _ => 92

def hexByte (a b : Char) : UInt8 := .ofNat (16 * (hexValue a).getD 0 + (hexValue b).getD 0)

def unescape : Text → Bytes
  | [] => []
  | '\\' :: 'x' :: a :: b :: t => hexByte a b :: unescape t
  | '\\' :: c :: t => plainEscape c :: unescape t
  | c :: t => String.utf8EncodeChar c ++ unescape t

def readPath (shown : Text) : Path := if shown = ['.'] then [] else (shown.splitOn '/').map unescape

def Printable (c : Char) : Prop := ¬ c.toNat < 0x20 ∧ c.toNat ≠ 0x7F

instance : DecidablePred Printable := fun _ => inferInstanceAs (Decidable (_ ∧ _))

structure Escaped (name : Bytes) (t : Text) : Prop where
  back : ∀ rest, unescape (t ++ rest) = name ++ unescape rest
  printable : ∀ c ∈ t, Printable c
  slash : '/' ∈ t → 47 ∈ name

namespace Escaped

lemma nil : Escaped [] [] where
  back _ := rfl
  printable := by simp
  slash h := by cases h

lemma append {a b : Bytes} {s t : Text} (h : Escaped a s) (h' : Escaped b t) : Escaped (a ++ b) (s ++ t) where
  back rest := by rw [List.append_assoc, h.back, h'.back, List.append_assoc]
  printable c hc := by
    obtain hc | hc := List.mem_append.mp hc
    · exact h.printable c hc
    · exact h'.printable c hc
  slash hc := by
    obtain hc | hc := List.mem_append.mp hc
    · exact List.mem_append_left _ (h.slash hc)
    · exact List.mem_append_right _ (h'.slash hc)

lemma digit {n : ℕ} (h : n < 16) : Printable (Nat.digitChar n) ∧ Nat.digitChar n ≠ '/' := by
  have hall : ∀ n : Fin 16, (¬ (Nat.digitChar n.val).toNat < 0x20 ∧ (Nat.digitChar n.val).toNat ≠ 0x7F) ∧
    Nat.digitChar n.val ≠ '/' := by decide
  exact hall ⟨n, h⟩

lemma hexEscape (b : UInt8) : Escaped [b] (hexEscape b) := by
  have hhigh : b.toNat / 16 < 16 := by
    have := b.toNat_lt
    omega
  have hlow : b.toNat % 16 < 16 := Nat.mod_lt _ (by decide)
  have heq : Verify.hexEscape b = ['\\', 'x', Nat.digitChar (b.toNat / 16), Nat.digitChar (b.toNat % 16)] := rfl
  have hbyte : hexByte (Nat.digitChar (b.toNat / 16)) (Nat.digitChar (b.toNat % 16)) = b := by
    rw [hexByte, hexValue_high, hexValue_low, Option.getD_some, Option.getD_some, Nat.div_add_mod,
      UInt8.ofNat_toNat]
  rw [heq]
  refine ⟨fun rest => ?_, ?_, ?_⟩
  · simp only [List.cons_append, List.nil_append, unescape, hbyte]
  · intro c hc
    simp only [List.mem_cons, List.not_mem_nil, or_false] at hc
    obtain rfl | rfl | rfl | rfl := hc
    · decide
    · decide
    · exact (digit hhigh).1
    · exact (digit hlow).1
  · intro hc
    simp only [List.mem_cons, List.not_mem_nil, or_false] at hc
    obtain h | h | h | h := hc
    · exact absurd h (by decide)
    · exact absurd h (by decide)
    · exact absurd h.symm (digit hhigh).2
    · exact absurd h.symm (digit hlow).2

lemma plain (c : Char) (hx : c ≠ 'x') (hp : Printable c) (hs : c ≠ '/') : Escaped [plainEscape c] ['\\', c] := by
  refine ⟨fun rest => ?_, ?_, ?_⟩
  · simp [unescape, hx]
  · intro d hd
    simp only [List.mem_cons, List.not_mem_nil, or_false] at hd
    obtain rfl | rfl := hd
    · decide
    · exact hp
  · intro hd
    simp only [List.mem_cons, List.not_mem_nil, or_false] at hd
    obtain h | h := hd
    · exact absurd h (by decide)
    · exact absurd h.symm hs

lemma encode_ascii {c : Char} (h : c.toNat < 0x80) : String.utf8EncodeChar c = [.ofNat c.toNat] := by
  have hle : c.val.toNat ≤ 127 := Nat.le_of_lt_succ h
  rw [String.utf8EncodeChar]
  exact if_pos hle

lemma escapeChar (c : Char) : Escaped (String.utf8EncodeChar c) (escapeChar c) := by
  unfold Verify.escapeChar
  split_ifs with h1 h2 h3 h4 h5
  · subst h1
    exact plain '\\' (by decide) (by decide) (by decide)
  · subst h2
    exact plain 'n' (by decide) (by decide) (by decide)
  · subst h3
    exact plain 'r' (by decide) (by decide) (by decide)
  · subst h4
    exact plain 't' (by decide) (by decide) (by decide)
  · rw [encode_ascii (by omega)]
    exact hexEscape _
  · refine ⟨fun rest => ?_, ?_, ?_⟩
    · simp [unescape, h1]
    · intro d hd
      rw [List.mem_singleton.mp hd]
      exact ⟨fun h => h5 (.inl h), fun h => h5 (.inr h)⟩
    · intro hd
      rw [← List.mem_singleton.mp hd]
      decide

lemma foldl {α : Type} {bytes : α → Bytes} {text : α → Text} (h : ∀ a, Escaped (bytes a) (text a)) (xs : List α)
    (out : Text) : ∃ t, xs.foldl (fun out a => out ++ text a) out = out ++ t ∧ Escaped (xs.flatMap bytes) t := by
  induction xs generalizing out with
  | nil => exact ⟨[], (List.append_nil out).symm, nil⟩
  | cons a xs ih =>
    obtain ⟨t, ht, hesc⟩ := ih (out ++ text a)
    exact ⟨text a ++ t, by rw [List.foldl_cons, ht, List.append_assoc], (h a).append hesc⟩

end Escaped

lemma escapeChars_spec (s out : Text) : ∃ t, escapeChars s out = out ++ t ∧ Escaped (utf8 s) t :=
  Escaped.foldl Escaped.escapeChar s out

lemma hexEscapes_spec (bs : Bytes) (out : Text) :
    ∃ t, bs.foldl (fun out b => out ++ hexEscape b) out = out ++ t ∧ Escaped bs t := by
  have hfold : ∃ t, bs.foldl (fun out b => out ++ hexEscape b) out = out ++ t ∧
    Escaped (bs.flatMap fun b => [b]) t :=
    Escaped.foldl Escaped.hexEscape bs out
  rw [List.flatMap_singleton' bs] at hfold
  exact hfold

lemma escapeComponent_returns (name : Bytes) (out : Text) :
    Returns (escapeComponent name out) fun r => ∃ t, r = out ++ t ∧ Escaped name t := by
  apply Returns.loop fun n (s : Bytes × Text) => ∃ done t, n = s.1.length ∧ name = done ++ s.1 ∧ s.2 = out ++ t ∧
    Escaped done t
  · rintro n ⟨rest, out'⟩ ⟨done, t, rfl, hname, rfl, ht⟩
    dsimp only at hname
    unfold componentStep
    dsimp only
    by_cases hnil : rest = []
    · rw [if_pos hnil]
      refine .pure ⟨t, rfl, ?_⟩
      rw [hname, hnil, List.append_nil]
      exact ht
    · rw [if_neg hnil]
      obtain ⟨hok, herr⟩ := fromUtf8_spec rest
      cases hu : fromUtf8 rest with
      | ok valid =>
        obtain ⟨t', ht', hesc⟩ := escapeChars_spec valid (out ++ t)
        refine .pure ⟨t ++ t', by rw [ht', List.append_assoc], ?_⟩
        rw [hname, ← hok valid hu]
        exact ht.append hesc
      | error e =>
        obtain ⟨valid, bad, rfl, hup, hbad, -, hlen⟩ := herr e hu
        dsimp only
        have htake : (utf8 valid ++ bad).take e.validUpTo = utf8 valid := by rw [hup, List.take_left]
        have hdrop : (utf8 valid ++ bad).drop e.validUpTo = bad := by rw [hup, List.drop_left]
        have hn : 1 ≤ e.errorLen.getD bad.length ∧ e.errorLen.getD bad.length ≤ bad.length := by
          cases hcase : errorLen bad with
          | none =>
            rw [hlen, hcase, Option.getD_none]
            exact ⟨List.length_pos_iff.mpr hbad, le_rfl⟩
          | some n =>
            rw [hlen, hcase, Option.getD_some]
            exact errorLen_le hcase
        rw [if_neg (by rw [hup, List.length_append]; omega), htake, hdrop, fromUtf8_utf8]
        dsimp only
        rw [if_neg (Nat.not_lt.mpr hn.2)]
        generalize e.errorLen.getD bad.length = n at hn
        obtain ⟨t₁, ht₁, hesc₁⟩ := escapeChars_spec valid (out ++ t)
        obtain ⟨t₂, ht₂, hesc₂⟩ := hexEscapes_spec (bad.take n) (out ++ t ++ t₁)
        refine .pure ⟨_, ?_, done ++ utf8 valid ++ bad.take n, t ++ t₁ ++ t₂, rfl, ?_, ?_,
          (ht.append hesc₁).append hesc₂⟩
        · simp only [List.length_drop, List.length_append]
          omega
        · rw [hname, List.append_assoc, List.append_assoc, List.take_append_drop]
        · dsimp only
          rw [ht₁, ht₂]
          simp only [List.append_assoc]
  · exact ⟨[], [], rfl, rfl, (List.append_nil out).symm, .nil⟩

structure ProperName (name : Bytes) : Prop where
  ne_nil : name ≠ []
  no_nul : 0 ∉ name
  no_slash : 47 ∉ name
  ne_dot : name ≠ [46]
  ne_dots : name ≠ [46, 46]

def RelativePath := { p : Path // ∀ name ∈ p, ProperName name }

variable {ts : List Text}

lemma intercalate_concat (sep : Text) (hne : ts ≠ []) (t : Text) :
    sep.intercalate (ts ++ [t]) = sep.intercalate ts ++ (sep ++ t) := by
  induction ts with
  | nil => exact absurd rfl hne
  | cons s ts ih =>
    cases ts with
    | nil => simp [List.intercalate]
    | cons s' ts =>
      have := ih (List.cons_ne_nil _ _)
      simp only [List.cons_append, List.intercalate_cons_cons] at this ⊢
      rw [this]
      simp only [List.append_assoc]

lemma components_return (path : Path) :
    Returns (path.zipIdx.foldlM (fun out c => escapeComponent c.1 (if 0 < c.2 then out ++ ['/'] else out)) [])
      fun out => ∃ ts, List.Forall₂ Escaped path ts ∧ out = ['/'].intercalate ts := by
  refine (Returns.foldlM (fun done out => ∃ ts, List.Forall₂ Escaped (done.map Prod.fst) ts ∧
    out = ['/'].intercalate ts) ?_ ⟨[], .nil, rfl⟩).imp ?_
  · rintro done ⟨name, i⟩ rest out hx ⟨ts, hts, rfl⟩
    have hi : i = done.length := by
      have hget : path.zipIdx[done.length]? = some (name, i) := by rw [hx, List.getElem?_append_right le_rfl]; simp
      rw [List.getElem?_zipIdx, Option.map_eq_some_iff] at hget
      obtain ⟨_, -, heq⟩ := hget
      have := (Prod.mk.inj heq).2
      omega
    have hlen : ts.length = done.length := by rw [← hts.length_eq, List.length_map]
    refine (escapeComponent_returns name _).imp ?_
    rintro r ⟨t, rfl, ht⟩
    refine ⟨ts ++ [t], ?_, ?_⟩
    · rw [List.map_append]
      exact List.rel_append hts (.cons ht .nil)
    · dsimp only
      by_cases hnil : ts = []
      · subst hnil
        rw [if_neg (by rw [hi, ← hlen]; exact Nat.lt_irrefl 0)]
        simp [List.intercalate]
      · rw [if_pos (by rw [hi, ← hlen]; exact List.length_pos_iff.mpr hnil), intercalate_concat _ hnil]
        simp only [List.append_assoc]
  · rintro out ⟨ts, hts, hout⟩
    rw [List.zipIdx_map_fst] at hts
    exact ⟨ts, hts, hout⟩

lemma Escaped.unescape_eq {name : Bytes} {t : Text} (h : Escaped name t) : unescape t = name := by
  have := h.back []
  rw [List.append_nil] at this
  rw [this]
  exact List.append_nil name

lemma map_unescape {path : Path} (h : List.Forall₂ Escaped path ts) : ts.map unescape = path := by
  induction h with
  | nil => rfl
  | cons h _ ih => rw [List.map_cons, h.unescape_eq, ih]

lemma escaped_of_mem {path : Path} (h : List.Forall₂ Escaped path ts) {t : Text} (ht : t ∈ ts) :
    ∃ name ∈ path, Escaped name t := by
  induction h with
  | nil => cases ht
  | cons h _ ih =>
    obtain rfl | ht := List.mem_cons.mp ht
    · exact ⟨_, List.mem_cons_self, h⟩
    · obtain ⟨name, hname, hesc⟩ := ih ht
      exact ⟨name, List.mem_cons_of_mem _ hname, hesc⟩

lemma readPath_intercalate {path : Path} (hproper : ∀ name ∈ path, ProperName name)
    (hts : List.Forall₂ Escaped path ts) (hne : path ≠ []) :
    ['/'].intercalate ts ≠ [] ∧ readPath (['/'].intercalate ts) = path := by
  have hslash : ∀ t ∈ ts, '/' ∉ t := by
    intro t ht hmem
    obtain ⟨name, hname, hesc⟩ := escaped_of_mem hts ht
    exact (hproper name hname).no_slash (hesc.slash hmem)
  have htsne : ts ≠ [] := by
    rintro rfl
    exact hne (List.forall₂_nil_right_iff.mp hts)
  have hsplit := List.splitOn_intercalate '/' hslash htsne
  have hback := map_unescape hts
  -- a lone empty text, or a lone dot, would be a name that is empty, or a dot
  have halone : ∀ t : Text, ['/'].intercalate ts = t → '/' ∉ t → path = [unescape t] := by
    intro t heq ht
    rw [heq, List.splitOn_eq_splitOnP, List.splitOnP_eq_singleton] at hsplit
    · rw [← hback, ← hsplit]
      rfl
    · exact fun c hc => beq_false_of_ne fun h => ht (h ▸ hc)
  refine ⟨fun h => ?_, ?_⟩
  · have hpath := halone [] h (by decide)
    exact (hproper _ (by rw [hpath]; exact List.mem_cons_self)).ne_nil rfl
  · have hdot : ['/'].intercalate ts ≠ ['.'] := by
      intro h
      have hpath := halone ['.'] h (by decide)
      exact (hproper _ (by rw [hpath]; exact List.mem_cons_self)).ne_dot (by decide)
    rw [readPath, if_neg hdot, hsplit, hback]

lemma printable_intercalate (h : ∀ t ∈ ts, ∀ c ∈ t, Printable c) : ∀ c ∈ ['/'].intercalate ts, Printable c := by
  induction ts with
  | nil => simp [List.intercalate]
  | cons t ts ih =>
    intro c hc
    cases ts with
    | nil => exact h t List.mem_cons_self c (by simpa [List.intercalate] using hc)
    | cons t' ts =>
      rw [List.intercalate_cons_cons, List.mem_append, List.mem_append] at hc
      obtain (hc | hc) | hc := hc
      · exact h t List.mem_cons_self c hc
      · rw [List.mem_singleton.mp hc]
        decide
      · exact ih (fun t ht => h t (List.mem_cons_of_mem _ ht)) c hc

lemma displayPath_returns (p : RelativePath) :
    Returns (displayPath p.val) fun shown => (∀ c ∈ shown, Printable c) ∧ readPath shown = p.val := by
  obtain ⟨path, hproper⟩ := p
  apply (components_return path).bind
  rintro out ⟨ts, hts, rfl⟩
  by_cases hnil : path = []
  · subst hnil
    obtain rfl := List.forall₂_nil_left_iff.mp hts
    rw [if_pos (show ['/'].intercalate [] = [] from rfl)]
    refine .pure ⟨fun c hc => ?_, rfl⟩
    rw [List.mem_singleton.mp hc]
    decide
  · obtain ⟨hne, hread⟩ := readPath_intercalate hproper hts hnil
    rw [if_neg hne]
    refine .pure ⟨printable_intercalate fun t ht => ?_, hread⟩
    obtain ⟨name, -, hesc⟩ := escaped_of_mem hts ht
    exact hesc.printable

theorem distinct_paths_shown_apart :
    (∀ p : RelativePath, Returns (displayPath p.val) fun shown =>
      (∀ c ∈ shown, ¬ c.toNat < 0x20 ∧ c.toNat ≠ 0x7F) ∧ readPath shown = p.val) ∧
    ∀ p q : RelativePath, p ≠ q → displayPath p.val ≠ displayPath q.val := by
  refine ⟨displayPath_returns, fun p q hpq heq => hpq ?_⟩
  obtain ⟨shown, hp, -, hread⟩ := displayPath_returns p
  obtain ⟨-, hread'⟩ := (displayPath_returns q).of_eq (heq.symm.trans hp)
  exact Subtype.ext (hread.symm.trans hread')

end Flux.Verify
