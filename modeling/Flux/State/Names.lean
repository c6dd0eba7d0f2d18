import Flux.Fs.Types

namespace Flux.State

open Base

def isId (t : Text) : Bool := t.length = 32 ∧ isHex t

def unavailable : Text := "unavailable".toList

def parseIdentity (t : Text) : Option FileIdentity :=
  if t = unavailable then some .unavailable
  else match t.splitOn ':' with
    | [strength, volume, index] => do
      let v ← parseDecimal (2 ^ 64) volume
      let i ← parseDecimal (2 ^ 128) index
      if strength = "strong".toList then some (.strong ⟨UInt64.ofNat v, BitVec.ofNat 128 i⟩)
      else if strength = "weak".toList then some (.weak ⟨UInt64.ofNat v, BitVec.ofNat 128 i⟩)
      else none
    | _ => none

lemma colon_notMem_decimal (n : ℕ) : ':' ∉ decimal n := fun h =>
  absurd (Nat.isDigit_of_mem_toDigits (by decide) (by decide) h) (by decide)

lemma splitOn_identity {strength : Text} (h : ':' ∉ strength) (v i : ℕ) :
    (strength ++ ':' :: (decimal v ++ ':' :: decimal i)).splitOn ':' = [strength, decimal v, decimal i] := by
  have hne : ∀ t : Text, ':' ∉ t → ∀ c ∈ t, (c == ':') = false := by
    intro t ht c hc
    exact beq_false_of_ne fun he => ht (he ▸ hc)
  rw [List.splitOn_eq_splitOnP, List.splitOnP_append_cons_of_forall_mem (hne _ h) _ (by decide),
    List.splitOnP_append_cons_of_forall_mem (hne _ (colon_notMem_decimal v)) _ (by decide),
    List.splitOnP_eq_singleton (hne _ (colon_notMem_decimal i))]

lemma parseIdentity_object (strength : Text) (hc : ':' ∉ strength) (hu : strength.head? = some 's' ∨
    strength.head? = some 'w') (o : ObjectId) :
    parseIdentity (strength ++ ':' :: (decimal o.volume.toNat ++ ':' :: decimal o.index.toNat)) =
      if strength = "strong".toList then some (.strong o)
      else if strength = "weak".toList then some (.weak o) else none := by
  have hv := parseDecimal_decimal o.volume.toNat_lt
  have hi := parseDecimal_decimal o.index.isLt
  rw [parseIdentity, if_neg, splitOn_identity hc]
  · dsimp only
    rw [hv, hi]
    simp only [Option.bind_eq_bind, Option.bind_some, UInt64.ofNat_toNat, BitVec.ofNat_toNat, BitVec.setWidth_eq]
  · intro h
    have := congrArg List.head? h
    cases strength with
    | nil => rcases hu with hu | hu <;> cases hu
    | cons c t =>
      rw [List.cons_append, List.head?_cons, ← List.head?_cons (l := t)] at this
      rcases hu with hu | hu <;> rw [hu] at this <;> cases this

lemma parseIdentity_text (id : FileIdentity) : parseIdentity (identityText id) = some id := by
  cases id with
  | unavailable => rfl
  | strong o =>
    have h := parseIdentity_object "strong".toList (by decide) (.inl rfl) o
    rw [if_pos rfl] at h
    exact h
  | weak o =>
    have h := parseIdentity_object "weak".toList (by decide) (.inr rfl) o
    rw [if_neg (by decide), if_pos rfl] at h
    exact h

theorem parse_identity_exact (t : Text) (id : FileIdentity) : parseIdentity t = some id ↔ t = identityText id := by
  constructor
  · intro h
    rw [parseIdentity] at h
    split_ifs at h with hu
    · rw [hu, ← Option.some.inj h]
      rfl
    · split at h
      · rename_i strength volume index hs
        obtain ⟨v, hv, hrest⟩ := Option.bind_eq_some_iff.mp h
        obtain ⟨i, hi, hid⟩ := Option.bind_eq_some_iff.mp hrest
        obtain ⟨hvolume, hv⟩ := decimal_of_parseDecimal hv
        obtain ⟨hindex, hi⟩ := decimal_of_parseDecimal hi
        have ht : t = strength ++ ':' :: (decimal v ++ ':' :: decimal i) := by
          have ht : [':'].intercalate (t.splitOn ':') = t := List.intercalate_splitOn ':'
          rw [← ht, hs, hvolume, hindex]
          simp
        obtain ⟨o, ho, rfl, rfl⟩ : ∃ o : ObjectId, o = ⟨UInt64.ofNat v, BitVec.ofNat 128 i⟩ ∧ v = o.volume.toNat ∧
            i = o.index.toNat :=
          ⟨_, rfl, (UInt64.toNat_ofNat_of_lt' hv).symm,
            ((BitVec.toNat_ofNat i 128).trans (Nat.mod_eq_of_lt hi)).symm⟩
        rw [← ho] at hid
        split_ifs at hid with hstrong hweak
        · rw [ht, ← Option.some.inj hid, hstrong]
          rfl
        · rw [ht, ← Option.some.inj hid, hweak]
          rfl
      · cases h
  · rintro rfl
    exact parseIdentity_text id

def slash : UInt8 := 47

structure Path where
  rooted : Bool
  parts : List Bytes
  proper : ∀ p ∈ parts, p ≠ [] ∧ slash ∉ p ∧ 0 ∉ p
  nonempty : rooted = true ∨ parts ≠ []

def nativeUnits (p : Path) : Bytes := (if p.rooted then [slash] else []) ++ [slash].intercalate p.parts

def nativeHex (p : Path) : Text := hex (nativeUnits p)

def nativeParts (bytes : Bytes) : Option (Bool × List Bytes) :=
  let rooted : Bool := bytes.head? = some slash
  let rest := if rooted then bytes.tail else bytes
  if rooted ∧ rest = [] then some (true, [])
  else
    let parts := rest.splitOn slash
    if parts.all fun p => p ≠ [] ∧ 0 ∉ p then some (rooted, parts) else none

def fromNativeHex (t : Text) : Option (Bool × List Bytes) :=
  if t = [] ∨ t.length % 2 ≠ 0 ∨ isHex t = false then none
  else (unhex t).bind nativeParts

lemma head_ne_slash {ps : List Bytes} (h : ∀ p ∈ ps, p ≠ [] ∧ slash ∉ p ∧ 0 ∉ p) :
    ([slash].intercalate ps).head? ≠ some slash := by
  cases ps with
  | nil => simp
  | cons p ps =>
    obtain ⟨hn, hs, -⟩ := h p List.mem_cons_self
    obtain ⟨b, p, rfl⟩ := List.exists_cons_of_ne_nil hn
    have hb : b ≠ slash := fun he => hs (he ▸ List.mem_cons_self)
    cases ps <;> simpa using hb

lemma nativeParts_units (p : Path) : nativeParts (nativeUnits p) = some (p.rooted, p.parts) := by
  have hall : ∀ q ∈ p.parts, ¬ q = [] ∧ 0 ∉ q := fun q hq => ⟨(p.proper q hq).1, (p.proper q hq).2.2⟩
  have hsplit : p.parts ≠ [] → ([slash].intercalate p.parts).splitOn slash = p.parts :=
    List.splitOn_intercalate slash fun q hq => (p.proper q hq).2.1
  have hhead := head_ne_slash p.proper
  have hnil : [slash].intercalate p.parts = [] → p.parts = [] := by
    intro hi
    cases hp : p.parts with
    | nil => rfl
    | cons q qs =>
      have hq := (p.proper q (hp ▸ List.mem_cons_self)).1
      rw [hp] at hi
      cases qs <;> simp_all
  rcases hr : p.rooted with _ | _
  · have hne : p.parts ≠ [] := p.nonempty.resolve_left (by simp [hr])
    simpa [nativeUnits, nativeParts, hr, hhead, hsplit hne] using hall
  · by_cases hp : p.parts = []
    · simp [nativeUnits, nativeParts, hr, hp]
    · have : [slash].intercalate p.parts ≠ [] := fun hi => hp (hnil hi)
      simpa [nativeUnits, nativeParts, hr, hsplit hp, this] using hall

lemma nativeUnits_ne_nil (p : Path) : nativeUnits p ≠ [] := by
  intro h
  have := nativeParts_units p
  rw [h] at this
  simp [nativeParts] at this

lemma fromNativeHex_nativeHex (p : Path) : fromNativeHex (nativeHex p) = some (p.rooted, p.parts) := by
  rw [fromNativeHex, if_neg, nativeHex, unhex_hex, Option.bind_some, nativeParts_units]
  simp [nativeHex, hex_ne_nil (nativeUnits_ne_nil p), hex_length, isHex_hex]

end Flux.State
