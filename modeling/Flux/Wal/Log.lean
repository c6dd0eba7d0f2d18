import Flux.Wal.Writer

namespace Flux.Wal

open Base

abbrev Entry := Header × Body

def pairOf (e : Entry) : UInt64 × UInt64 := (e.1.generation, e.1.sequence)

def Before (a b : UInt64 × UInt64) : Prop := a.1 < b.1 ∨ a.1 = b.1 ∧ a.2 < b.2

lemma Before.trans {a b c : UInt64 × UInt64} (h : Before a b) (h' : Before b c) : Before a c := by
  rcases h with h | ⟨h1, h2⟩ <;> rcases h' with h' | ⟨h1', h2'⟩
  · exact .inl (UInt64.lt_trans h h')
  · exact .inl (h1' ▸ h)
  · exact .inl (h1 ▸ h')
  · exact .inr ⟨h1.trans h1', UInt64.lt_trans h2 h2'⟩

lemma Before.ne {a b : UInt64 × UInt64} (h : Before a b) : a ≠ b := by
  rintro rfl
  rcases h with h | ⟨-, h⟩ <;> exact UInt64.lt_irrefl _ h

def Follows : Option (UInt64 × UInt64) → UInt64 × UInt64 → Prop
  | none, p => p.2 = 1
  | some q, p => (p.1 = q.1 ∧ p.2.toNat = q.2.toNat + 1) ∨ (q.1 < p.1 ∧ p.2 = 1)

variable {p : UInt64 × UInt64}

lemma Follows.before {q : UInt64 × UInt64} (h : Follows (some q) p) : Before q p := by
  rcases h with ⟨h1, h2⟩ | ⟨h1, -⟩
  · exact .inr ⟨h1.symm, UInt64.lt_iff_toNat_lt.mpr (by omega)⟩
  · exact .inl h1

lemma Follows.inOrder {last : Option (UInt64 × UInt64)} (h : Follows last p) : inOrder last p = true := by
  rcases last with _ | q
  · have hp : p.2 = 1 := h
    simp [Wal.inOrder, hp]
  · rcases h with ⟨h1, h2⟩ | ⟨h1, h2⟩
    · have hlt := p.2.toNat_lt
      have hn : q.2.toNat ≠ 2 ^ 64 - 1 := by omega
      have hs : p.2 = q.2 + 1 := by
        apply UInt64.toNat_inj.mp
        rw [UInt64.toNat_add, h2, UInt64.toNat_one, Nat.mod_eq_of_lt (by omega)]
      simp only [Wal.inOrder, saturatingSucc, if_neg hn, h1, hs, and_self, true_or, decide_true]
    · simp [Wal.inOrder, h1, h2]

def Ordered : Option (UInt64 × UInt64) → List Entry → Prop
  | _, [] => True
  | last, e :: es => Follows last (pairOf e) ∧ Ordered (some (pairOf e)) es

def lastPair (last : Option (UInt64 × UInt64)) (es : List Entry) : Option (UInt64 × UInt64) :=
  es.foldl (fun _ e => some (pairOf e)) last

lemma lastPair_append (last : Option (UInt64 × UInt64)) (xs ys : List Entry) :
    lastPair last (xs ++ ys) = lastPair (lastPair last xs) ys := List.foldl_append

lemma ordered_append (last : Option (UInt64 × UInt64)) (xs ys : List Entry) :
    Ordered last (xs ++ ys) ↔ Ordered last xs ∧ Ordered (lastPair last xs) ys := by
  induction xs generalizing last with
  | nil => simp [Ordered, lastPair]
  | cons x xs ih => simp only [List.cons_append, Ordered, ih, and_assoc]; rfl

lemma Ordered.before {last : UInt64 × UInt64} {es : List Entry} (h : Ordered (some last) es) :
    ∀ e ∈ es, Before last (pairOf e) := by
  induction es generalizing last with
  | nil => simp
  | cons e es ih =>
    intro x hx
    rcases List.mem_cons.mp hx with rfl | hx
    · exact h.1.before
    · exact h.1.before.trans (ih h.2 x hx)

lemma Ordered.pairwise {last : Option (UInt64 × UInt64)} {es : List Entry} (h : Ordered last es) :
    (es.map pairOf).Pairwise Before := by
  induction es generalizing last with
  | nil => exact .nil
  | cons e es ih =>
    refine List.pairwise_cons.mpr ⟨?_, ih h.2⟩
    intro p hp
    obtain ⟨x, hx, rfl⟩ := List.mem_map.mp hp
    exact h.2.before x hx

lemma Ordered.starts {last : Option (UInt64 × UInt64)} {xs ys : List Entry} {e : Entry}
    (h : Ordered last (xs ++ e :: ys)) (hl : ∀ q, last = some q → q.1 ≠ e.1.generation)
    (hx : ∀ x ∈ xs, x.1.generation ≠ e.1.generation) : e.1.sequence = 1 := by
  induction xs generalizing last with
  | nil =>
    rcases last with _ | q
    · exact h.1
    · rcases h.1 with ⟨h1, -⟩ | ⟨-, h2⟩
      · exact absurd h1.symm (hl q rfl)
      · exact h2
  | cons x xs ih =>
    refine ih h.2 ?_ fun y hy => hx y (List.mem_cons_of_mem _ hy)
    rintro q hq
    cases hq
    exact hx x List.mem_cons_self

structure Legible (operationId : Bytes) (e : Entry) : Prop where
  op : e.1.operationId = operationId
  body : e.2.WellFormed

section

variable (blake3 : Bytes → Digest)

def entryLen (e : Entry) : ℕ := (encode blake3 e.1 e.2).length

lemma encodeAll_cons (e : Entry) (es : List Entry) :
    encodeAll blake3 (e :: es) = encode blake3 e.1 e.2 ++ encodeAll blake3 es := rfl

lemma encodeAll_append (xs ys : List Entry) :
    encodeAll blake3 (xs ++ ys) = encodeAll blake3 xs ++ encodeAll blake3 ys := by
  simp only [encodeAll, List.map_append, List.flatten_append]

def offsets (fileId : Bytes) : ℕ → List Entry → List ℕ
  | _, [] => []
  | offset, e :: es =>
    if e.2.fileId = fileId then offset :: offsets fileId (offset + entryLen blake3 e) es
    else offsets fileId (offset + entryLen blake3 e) es

def Progress.absorb (st : Progress) (e : Entry) : Progress :=
  Progress.advance ⟨{ st.out with
    last := some (pairOf e)
    perFile := pushOffset st.out.perFile e.2.fileId st.offset },
    st.seen.insert (pairOf e) (checksumOf blake3 (covered e.1 e.2)), st.offset⟩ (entryLen blake3 e)

def Progress.absorbAll (st : Progress) (es : List Entry) : Progress := es.foldl (Progress.absorb blake3) st

end

def Progress.Behind (st : Progress) : Prop :=
  ∀ q, st.seen.lookup q ≠ none → ∃ l, st.out.last = some l ∧ (q = l ∨ Before q l)

variable {blake3 : Bytes → Digest} {operationId : Bytes} {st : Progress} {e : Entry} {es : List Entry}

lemma Progress.Behind.lookup (hb : st.Behind) (hf : Follows st.out.last p) : st.seen.lookup p = none := by
  by_contra hn
  obtain ⟨l, hl, h⟩ := hb p hn
  rw [hl] at hf
  rcases h with rfl | h
  · exact hf.before.ne rfl
  · exact (hf.before.trans h).ne rfl

lemma Progress.Behind.absorb (hb : st.Behind) (hf : Follows st.out.last (pairOf e)) :
    (st.absorb blake3 e).Behind := by
  intro q hq
  refine ⟨pairOf e, rfl, ?_⟩
  by_cases h : q = pairOf e
  · exact .inl h
  · right
    have hs : st.seen.lookup q ≠ none := by
      rwa [Progress.absorb, Progress.advance, AList.lookup_insert_ne h] at hq
    obtain ⟨l, hl, h'⟩ := hb q hs
    rw [hl] at hf
    rcases h' with rfl | h'
    · exact hf.before
    · exact h'.trans hf.before

lemma accept_eq (blake3 : Bytes → Digest) (hb : st.Behind) (hf : Follows st.out.last (pairOf e))
    (hl : Legible operationId e) :
    accept operationId st e.1 e.2 (entryLen blake3 e) (checksumOf blake3 (covered e.1 e.2)) =
      .ok (st.absorb blake3 e) := by
  have hn := hb.lookup hf
  rw [pairOf] at hn
  have hi := hf.inOrder
  rw [pairOf] at hi
  simp only [accept, hl.op, ne_eq, not_true_eq_false, if_false, hn, hi, if_true]
  rfl

lemma scanBytes_absorb (ho : operationId.length < 65536) (hb : st.Behind) (hf : Ordered st.out.last es)
    (hl : ∀ e ∈ es, Legible operationId e) (q : Bytes) :
    scanBytes blake3 operationId st (encodeAll blake3 es ++ q) =
      scanBytes blake3 operationId (st.absorbAll blake3 es) q := by
  induction es generalizing st with
  | nil => rfl
  | cons e es ih =>
    have he := hl e List.mem_cons_self
    have hd := decodeNext_encode blake3 (h := e.1) (encodeAll blake3 es ++ q) (he.op ▸ ho) he.body
    rw [encodeAll_cons, List.append_assoc, scanBytes_record hd]
    have ha := accept_eq blake3 hb hf.1 he
    rw [entryLen] at ha
    rw [ha, List.drop_left]
    exact ih (hb.absorb hf.1) hf.2 fun x hx => hl x (List.mem_cons_of_mem _ hx)

section Absorbed

variable (blake3) (st) (es)

@[simp] lemma absorbAll_offset : (st.absorbAll blake3 es).offset = st.offset + (encodeAll blake3 es).length := by
  induction es generalizing st with
  | nil => rfl
  | cons e es ih =>
    rw [encodeAll_cons, List.length_append, ← Nat.add_assoc]
    exact ih (st.absorb blake3 e)

@[simp] lemma absorbAll_last : (st.absorbAll blake3 es).out.last = lastPair st.out.last es := by
  induction es generalizing st with
  | nil => rfl
  | cons e es ih => exact ih (st.absorb blake3 e)

@[simp] lemma absorbAll_discardedTail :
    (st.absorbAll blake3 es).out.discardedTail = st.out.discardedTail := by
  induction es generalizing st with
  | nil => rfl
  | cons e es ih => exact ih (st.absorb blake3 e)

lemma absorbAll_validLen (h : st.out.validLen = st.offset) :
    (st.absorbAll blake3 es).out.validLen = (st.absorbAll blake3 es).offset := by
  induction es generalizing st with
  | nil => exact h
  | cons e es ih => exact ih (st.absorb blake3 e) rfl

def extend (found : Option (List ℕ)) (more : List ℕ) : Option (List ℕ) :=
  if more = [] then found else some (found.getD [] ++ more)

lemma lookup_pushOffset (m : AList fun _ : Bytes => List ℕ) (f g : Bytes) (n : ℕ) :
    (pushOffset m f n).lookup g = if f = g then some ((m.lookup g).getD [] ++ [n]) else m.lookup g := by
  rw [pushOffset]
  split
  · next h => rw [h, AList.lookup_insert]
  · next h => rw [AList.lookup_insert_ne (Ne.symm h)]

lemma absorbAll_perFile (f : Bytes) : (st.absorbAll blake3 es).out.perFile.lookup f =
    extend (st.out.perFile.lookup f) (offsets blake3 f st.offset es) := by
  induction es generalizing st with
  | nil => simp [Progress.absorbAll, offsets, extend]
  | cons e es ih =>
    have hp : (st.absorb blake3 e).out.perFile.lookup f =
        if e.2.fileId = f then some ((st.out.perFile.lookup f).getD [] ++ [st.offset])
        else st.out.perFile.lookup f := lookup_pushOffset _ _ _ _
    have hi := ih (st.absorb blake3 e)
    rw [hp] at hi
    rw [offsets]
    refine hi.trans ?_
    have ho : (st.absorb blake3 e).offset = st.offset + entryLen blake3 e := rfl
    rw [ho]
    by_cases h : e.2.fileId = f
    · simp only [if_pos h, extend, reduceCtorEq, if_false, Option.getD_some, List.append_assoc,
        List.singleton_append]
      split
      · next hn => rw [hn]
      · rfl
    · simp only [if_neg h]

end Absorbed

lemma start_behind : Progress.start.Behind := by
  intro q hq
  exact absurd (AList.lookup_empty q) hq

lemma scanBytes_log (ho : operationId.length < 65536) (hf : Ordered none es) (hl : ∀ e ∈ es, Legible operationId e)
    {q : Bytes} (hq : decodeNext blake3 q = .endOfLog ∨ decodeNext blake3 q = .tornTail) :
    ∃ s, scanBytes blake3 operationId .start (encodeAll blake3 es ++ q) = .ok s ∧
      s.validLen = (encodeAll blake3 es).length ∧ s.last = lastPair none es ∧
      (∀ f, s.perFile.lookup f = extend none (offsets blake3 f 0 es)) ∧
      s.discardedTail = if q = [] then none
        else some ⟨(encodeAll blake3 es).length, q.length, tornReason q⟩ := by
  rw [scanBytes_absorb ho start_behind hf hl q, scanBytes_stop hq]
  have hv : (Progress.start.absorbAll blake3 es).out.validLen = (encodeAll blake3 es).length := by
    rw [absorbAll_validLen blake3 _ _ rfl, absorbAll_offset]
    exact Nat.zero_add _
  have hlast := absorbAll_last blake3 Progress.start es
  have hper := absorbAll_perFile blake3 Progress.start es
  have hoff : (Progress.start.absorbAll blake3 es).offset = (encodeAll blake3 es).length :=
    (absorbAll_offset blake3 _ _).trans (Nat.zero_add _)
  by_cases hn : q = []
  · rw [if_pos hn, if_pos hn]
    exact ⟨_, rfl, hv, hlast, hper, absorbAll_discardedTail blake3 _ _⟩
  · rw [if_neg hn, if_neg hn]
    exact ⟨_, rfl, hv, hlast, hper, by rw [Progress.cut, hoff]⟩

end Flux.Wal
