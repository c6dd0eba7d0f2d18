import Flux.Wal.LoadFile
import Flux.Wal.Log

/-! What a log says of one file, read off its records, and that the two passes of the replay find exactly that. -/

namespace Flux.Wal

open Base
open Flux.Copy (FileState)

variable {b : Body} {sum : Block 16} {s : Scan}

section Records

variable (blake3 : Bytes → Digest)

def records (bytes : Bytes) : List Entry :=
  match _ : decodeNext blake3 bytes with
  | .record h b len _ => (h, b) :: records (bytes.drop len)
  | .endOfLog | .tornTail | .corrupt _ | .unsupported _ _ => []
termination_by bytes.length
decreasing_by
  have := decodeNext_record ‹decodeNext blake3 bytes = _›
  simp only [List.length_drop]
  omega

variable {blake3} {bytes : Bytes}

lemma records_record {h : Header} {len : ℕ} (hd : decodeNext blake3 bytes = .record h b len sum) :
    records blake3 bytes = (h, b) :: records blake3 (bytes.drop len) := by
  rw [records]
  split <;> simp_all

lemma records_stop (hd : ∀ h b len sum, decodeNext blake3 bytes ≠ .record h b len sum) :
    records blake3 bytes = [] := by
  rw [records]
  split
  · next h b len sum heq => exact absurd heq (hd h b len sum)
  all_goals rfl

end Records

def firsts : List (UInt64 × UInt64) → List Entry → List Entry
  | _, [] => []
  | seen, e :: es => if pairOf e ∈ seen then firsts seen es else e :: firsts (pairOf e :: seen) es

structure View where
  begin : Option FileBegin
  digest : ℕ → Option Digest

def View.empty : View := ⟨none, fun _ => none⟩

def View.apply (v : View) : Body → View
  | .fileBegin f => ⟨some f, fun k => if k * chunkSize < f.validThrough.toNat then v.digest k else none⟩
  | .range r =>
    if v.begin = none then v
    else { v with
      digest := fun k =>
        if r.rangeStart.toNat ≤ k * chunkSize ∧ k * chunkSize < r.rangeEnd.toNat then
          r.digests[k - r.rangeStart.toNat / chunkSize]?
        else v.digest k }

def View.applyAll (v : View) (es : List Entry) : View := es.foldl (fun v e => v.apply e.2) v

def replayed (blake3 : Bytes → Digest) (bytes : Bytes) (fileId : Bytes) : View :=
  View.empty.applyAll ((firsts [] (records blake3 bytes)).filter fun e => e.2.fileId = fileId)

def Matches : Option FileState → View → Prop
  | none, v => v.begin = none
  | some s, v => v.begin = some s.begin ∧
      ∀ k, v.digest k = if k < 2 ^ 64 then s.digests.lookup (UInt64.ofNat k) else none

section Applied

variable {st : Effective} {v : View}

structure Effective.Shows (st : Effective) (v : View) : Prop where
  begin : v.begin = st.begin
  lookup : ∀ key, v.digest key.toNat = st.digests.lookup key
  above : ∀ k, 2 ^ 64 ≤ k → v.digest k = none

lemma Effective.Shows.matches (h : st.Shows v) : Matches st.state v := by
  rw [Effective.state]
  cases hb : st.begin with
  | none => exact h.begin.trans hb
  | some f =>
    refine ⟨h.begin.trans hb, fun k => ?_⟩
    split
    · next hk =>
      rw [← h.lookup, UInt64.toNat_ofNat_of_lt' hk]
    · next hk => exact h.above k (not_lt.mp hk)

lemma lookup_retainBelow (digests : AList fun _ : UInt64 => Digest) (validThrough key : UInt64) :
    (retainBelow digests validThrough).lookup key =
      if key.toNat * chunkSize < validThrough.toNat then digests.lookup key else none := by
  have hsat : saturatingMul key.toNat chunkSize < validThrough.toNat ↔
    key.toNat * chunkSize < validThrough.toNat := by
    have hlt := validThrough.toNat_lt
    rw [saturatingMul, min_lt_iff]
    omega
  ext d
  simp only [← Option.mem_def]
  rw [AList.mem_lookup_iff, retainBelow, List.mem_filter, decide_eq_true_eq, hsat]
  split
  · next h => rw [AList.mem_lookup_iff, and_iff_left h]
  · next h => simp [h]

lemma lookup_insertFrom (ds : List Digest) (digests : AList fun _ : UInt64 => Digest) (first key : UInt64)
    (h : first.toNat + ds.length < 2 ^ 64) :
    (insertFrom digests first ds).lookup key =
      if first.toNat ≤ key.toNat ∧ key.toNat < first.toNat + ds.length then ds[key.toNat - first.toNat]?
      else digests.lookup key := by
  induction ds generalizing digests first with
  | nil =>
    rw [insertFrom, if_neg]
    simp
  | cons d ds ih =>
    rw [List.length_cons] at h
    have hsucc : (first + 1).toNat = first.toNat + 1 := by
      rw [UInt64.toNat_add, UInt64.toNat_one, Nat.mod_eq_of_lt (by omega)]
    rw [insertFrom, ih _ _ (by omega), hsucc, List.length_cons]
    by_cases hkey : key = first
    · subst hkey
      rw [if_neg (by omega), if_pos (by omega), AList.lookup_insert, Nat.sub_self]
      rfl
    · have hne : key.toNat ≠ first.toNat := fun heq => hkey (UInt64.toNat_inj.mp heq)
      rw [AList.lookup_insert_ne hkey]
      by_cases hin : first.toNat + 1 ≤ key.toNat ∧ key.toNat < first.toNat + 1 + ds.length
      · rw [if_pos hin, if_pos (by omega), show key.toNat - first.toNat =
          key.toNat - (first.toNat + 1) + 1 by omega, List.getElem?_cons_succ]
      · rw [if_neg hin, if_neg (by omega)]

lemma covers_iff {r : Range} (hr : r.WellFormed) (k : ℕ) :
    (r.rangeStart.toNat ≤ k * chunkSize ∧ k * chunkSize < r.rangeEnd.toNat) ↔
      r.rangeStart.toNat / chunkSize ≤ k ∧ k < r.rangeStart.toNat / chunkSize + r.digests.length := by
  have hstart : r.rangeStart.toNat = r.rangeStart.toNat / chunkSize * chunkSize :=
    (Nat.div_mul_cancel (Nat.dvd_of_mod_eq_zero hr.aligned)).symm
  have hlt := UInt64.lt_iff_toNat_lt.mp hr.ascending
  rw [hr.count]
  generalize r.rangeStart.toNat / chunkSize = first at hstart ⊢
  rw [hstart, Nat.mul_le_mul_right_iff chunkSize_pos]
  refine and_congr_right fun hle => ?_
  obtain ⟨i, rfl⟩ := Nat.exists_eq_add_of_le hle
  rw [Nat.add_lt_add_iff_left, lt_divCeil_iff, Nat.add_mul]
  omega

lemma covered_lt {r : Range} (hr : r.WellFormed) : r.rangeStart.toNat / chunkSize + r.digests.length < 2 ^ 64 := by
  have hcount : r.digests.length ≤ 2 ^ 44 := by
    rw [hr.count, divCeil_le_iff, chunkSize]
    have := r.rangeEnd.toNat_lt
    omega
  have hfirst : r.rangeStart.toNat / chunkSize ≤ r.rangeStart.toNat / 2 := by
    rw [chunkSize]
    omega
  have := r.rangeStart.toNat_lt
  omega

lemma Effective.Shows.apply (h : st.Shows v) (hb : b.WellFormed) : (st.apply b).Shows (v.apply b) := by
  cases b with
  | fileBegin f =>
    refine ⟨rfl, fun key => ?_, fun k hk => ?_⟩
    · rw [Effective.apply, lookup_retainBelow]
      simp only [View.apply, h.lookup]
    · simp only [View.apply]
      split
      · exact h.above k hk
      · rfl
  | range r =>
    have hr := hb.range r rfl
    rw [Effective.apply, View.apply, h.begin]
    cases hbegin : st.begin with
    | none =>
      rw [if_neg (by simp), if_pos rfl]
      exact h
    | some f =>
      simp only [Option.isSome_some, if_true, reduceCtorEq, if_false]
      refine ⟨rfl, fun key => ?_, fun k hk => ?_⟩
      · have hfirst : (UInt64.ofNat (r.rangeStart.toNat / chunkSize)).toNat = r.rangeStart.toNat / chunkSize :=
          UInt64.toNat_ofNat_of_lt' (lt_of_le_of_lt (Nat.le_add_right _ _) (covered_lt hr))
        rw [lookup_insertFrom _ _ _ _ (hfirst.symm ▸ covered_lt hr), hfirst]
        simp only [covers_iff hr, h.lookup]
      · have hnot : ¬ (r.rangeStart.toNat ≤ k * chunkSize ∧ k * chunkSize < r.rangeEnd.toNat) := by
          rw [covers_iff hr]
          have := covered_lt hr
          omega
        simp only [if_neg hnot]
        exact h.above k hk

lemma Effective.Shows.applyAll {es : List Entry} (h : st.Shows v) (hes : ∀ e ∈ es, e.2.WellFormed) :
    (es.foldl (fun st e => st.apply e.2) st).Shows (v.applyAll es) := by
  induction es generalizing st v with
  | nil => exact h
  | cons e es ih =>
    obtain ⟨he, hrest⟩ := List.forall_mem_cons.mp hes
    exact ih (h.apply he) hrest

lemma empty_shows : Effective.Shows ⟨none, ∅⟩ View.empty :=
  ⟨rfl, fun _ => by simp [View.empty], fun _ _ => rfl⟩

end Applied

section Indexed

variable {blake3 : Bytes → Digest} {operationId : Bytes} {st st' : Progress} {bytes : Bytes}

def placed (blake3 : Bytes → Digest) (fileId : Bytes) : ℕ → List (UInt64 × UInt64) → List Entry → List (ℕ × Entry)
  | _, _, [] => []
  | offset, seen, e :: es =>
    if pairOf e ∈ seen then placed blake3 fileId (offset + entryLen blake3 e) seen es
    else if e.2.fileId = fileId then
      (offset, e) :: placed blake3 fileId (offset + entryLen blake3 e) (pairOf e :: seen) es
    else placed blake3 fileId (offset + entryLen blake3 e) (pairOf e :: seen) es

lemma placed_entries (blake3 : Bytes → Digest) (fileId : Bytes) (offset : ℕ) (seen : List (UInt64 × UInt64))
    (es : List Entry) :
    (placed blake3 fileId offset seen es).map Prod.snd = (firsts seen es).filter fun e => e.2.fileId = fileId := by
  induction es generalizing offset seen with
  | nil => rfl
  | cons e es ih =>
    rw [placed, firsts]
    split
    · exact ih _ _
    · rw [List.filter_cons]
      split
      · next h => rw [List.map_cons, ih, if_pos (decide_eq_true h)]
      · next h => rw [ih, if_neg (by simpa using h)]

structure Leads (blake3 : Bytes → Digest) (bytes : Bytes) (e : Entry) (len : ℕ) (sum : Block 16) : Prop where
  operationId : e.1.operationId.length < 65536
  body : e.2.WellFormed
  split : bytes = encode blake3 e.1 e.2 ++ bytes.drop len
  len : len = entryLen blake3 e
  sum : sum = checksumOf blake3 (covered e.1 e.2)

lemma leads_of_record {h : Header} {len : ℕ} (hd : decodeNext blake3 bytes = .record h b len sum) :
    Leads blake3 bytes (h, b) len sum := by
  obtain ⟨ho, hb, htake, -⟩ := decodeNext_record_inv hd
  have hsplit : bytes = encode blake3 h b ++ bytes.drop len := by rw [← htake, List.take_append_drop]
  have hlen : (bytes.take len).length = len := List.length_take_of_le (decodeNext_record hd).2
  refine ⟨ho, hb, hsplit, ?_, ?_⟩
  · rw [entryLen, ← htake, hlen]
  · rw [hsplit, decodeNext_encode blake3 _ ho hb] at hd
    cases hd
    rfl

lemma accept_ok {h : Header} {len : ℕ} (hl : Leads blake3 bytes (h, b) len sum)
    (ha : accept operationId st h b len sum = .ok st') :
    (st.seen.lookup (pairOf (h, b)) = some (checksumOf blake3 (covered h b)) ∧
      st' = st.advance (entryLen blake3 (h, b))) ∨
    (st.seen.lookup (pairOf (h, b)) = none ∧ st' = st.absorb blake3 (h, b)) := by
  obtain ⟨-, -, -, rfl, rfl⟩ := hl
  simp only [accept] at ha
  split at ha
  · cases ha
  split at ha
  · next prior hprior =>
    split at ha
    · cases ha
    · next hsame =>
      cases ha
      exact .inl ⟨(not_not.mp hsame) ▸ hprior, rfl⟩
  · next hnone =>
    split at ha
    · cases ha
      exact .inr ⟨hnone, rfl⟩
    · cases ha

lemma absorb_seen_ne {e : Entry} {p : UInt64 × UInt64} (h : p ≠ pairOf e) :
    (st.absorb blake3 e).seen.lookup p = st.seen.lookup p := AList.lookup_insert_ne h

lemma absorb_seen_eq (e : Entry) :
    (st.absorb blake3 e).seen.lookup (pairOf e) = some (checksumOf blake3 (covered e.1 e.2)) :=
    AList.lookup_insert _

def Progress.Knows (st : Progress) (seen : List (UInt64 × UInt64)) : Prop :=
  ∀ p, p ∈ seen ↔ st.seen.lookup p ≠ none

lemma start_knows : Progress.start.Knows [] := by
  intro p
  simp [Progress.start]

lemma Progress.Knows.absorb {seen : List (UInt64 × UInt64)} (h : st.Knows seen) (e : Entry) :
    (st.absorb blake3 e).Knows (pairOf e :: seen) := by
  intro q
  rw [List.mem_cons]
  by_cases hq : q = pairOf e
  · simp [hq, Progress.absorb, Progress.advance]
  · rw [or_iff_right hq, h q, absorb_seen_ne hq]

lemma extend_push (m : AList fun _ : Bytes => List ℕ) (f g : Bytes) (n : ℕ) (more : List ℕ) :
    extend ((pushOffset m f n).lookup g) more = extend (m.lookup g) (if f = g then n :: more else more) := by
  rw [lookup_pushOffset]
  split
  · simp only [extend, reduceCtorEq, if_false, Option.getD_some, List.append_assoc, List.singleton_append]
    split
    · next hn => rw [hn]
    · rfl
  · rfl

lemma scanBytes_index (seen : List (UInt64 × UInt64)) (hk : st.Knows seen)
    (hs : scanBytes blake3 operationId st bytes = .ok s) : (∀ f, s.perFile.lookup f =
      extend (st.out.perFile.lookup f) ((placed blake3 f st.offset seen (records blake3 bytes)).map Prod.fst)) ∧
    ∀ e ∈ records blake3 bytes, st.seen.lookup (pairOf e) = some (checksumOf blake3 (covered e.1 e.2)) ∨
      (st.seen.lookup (pairOf e) = none ∧ ∃ e' ∈ firsts seen (records blake3 bytes), pairOf e' = pairOf e ∧
        checksumOf blake3 (covered e'.1 e'.2) = checksumOf blake3 (covered e.1 e.2)) := by
  fun_induction scanBytes blake3 operationId st bytes generalizing seen with
  | case1 st bytes h b len sum hd e ha => cases hs
  | case2 st bytes h b len sum hd st' ha ih =>
    have hlead := leads_of_record hd
    rw [records_record hd]
    rcases accept_ok hlead ha with ⟨hseen, rfl⟩ | ⟨hseen, rfl⟩
    · have hmem : pairOf (h, b) ∈ seen := (hk _).mpr (by rw [hseen]; simp)
      obtain ⟨hper, hsums⟩ := ih seen hk hs
      refine ⟨fun f => ?_, fun e he => ?_⟩
      · rw [hper, placed, if_pos hmem]
        rfl
      · rw [firsts, if_pos hmem]
        rcases List.mem_cons.mp he with rfl | he
        · exact .inl hseen
        · exact hsums e he
    · have hmem : pairOf (h, b) ∉ seen := by
        rw [hk, not_not]
        exact hseen
      obtain ⟨hper, hsums⟩ := ih (pairOf (h, b) :: seen) (hk.absorb _) hs
      refine ⟨fun f => ?_, fun e he => ?_⟩
      · have hpush := extend_push st.out.perFile b.fileId f st.offset
          ((placed blake3 f (st.offset + entryLen blake3 (h, b)) (pairOf (h, b) :: seen)
            (records blake3 (bytes.drop len))).map Prod.fst)
        rw [placed, if_neg hmem]
        refine ((hper f).trans hpush).trans (congrArg _ ?_)
        split
        · rfl
        · rfl
      · rw [firsts, if_neg hmem]
        rcases List.mem_cons.mp he with rfl | he
        · exact .inr ⟨hseen, _, List.mem_cons_self, rfl, rfl⟩
        · by_cases hp : pairOf e = pairOf (h, b)
          · refine .inr ⟨hp ▸ hseen, (h, b), List.mem_cons_self, hp.symm, ?_⟩
            have hlook := hsums e he
            rw [hp, absorb_seen_eq] at hlook
            rcases hlook with hlook | ⟨hlook, -⟩
            · exact Option.some.inj hlook
            · cases hlook
          · have hlook := hsums e he
            rw [absorb_seen_ne hp] at hlook
            rcases hlook with hlook | ⟨hlook, e', he', hpair, hsame⟩
            · exact .inl hlook
            · exact .inr ⟨hlook, e', List.mem_cons_of_mem _ he', hpair, hsame⟩
  | case3 st bytes hd =>
    cases hs
    rw [records_stop (by simp [hd])]
    exact ⟨fun f => by simp [placed, extend], by simp⟩
  | case4 st bytes hd =>
    cases hs
    rw [records_stop (by simp [hd])]
    exact ⟨fun f => by simp [placed, extend, Progress.cut], by simp⟩
  | case5 st bytes why hd len reason hw | case7 st bytes format sum hd len reason hw =>
    cases hs
    rw [records_stop (by simp [hd])]
    exact ⟨fun f => by simp [placed, extend, Progress.cut], by simp⟩
  | case6 st bytes why hd hw | case8 st bytes format sum hd hw => cases hs

end Indexed

section Loaded

variable {blake3 : Bytes → Digest}

lemma records_wellFormed (bytes : Bytes) :
    ∀ e ∈ records blake3 bytes, e.1.operationId.length < 65536 ∧ e.2.WellFormed := by
  fun_induction records blake3 bytes with
  | case1 bytes h b len sum hd ih =>
    have hlead := leads_of_record hd
    exact List.forall_mem_cons.mpr ⟨⟨hlead.operationId, hlead.body⟩, ih⟩
  | case2 | case3 | case4 | case5 => simp

lemma records_bytes (blake3 : Bytes → Digest) (bytes : Bytes) :
    ∃ tail, bytes = encodeAll blake3 (records blake3 bytes) ++ tail := by
  fun_induction records blake3 bytes with
  | case1 bytes h b len sum hd ih =>
    obtain ⟨tail, htail⟩ := ih
    refine ⟨tail, ?_⟩
    rw [encodeAll_cons, List.append_assoc, ← htail]
    exact (leads_of_record hd).split
  | case2 bytes | case3 bytes | case4 bytes | case5 bytes => exact ⟨bytes, rfl⟩

lemma entryLen_pos (blake3 : Bytes → Digest) (e : Entry) : 0 < entryLen blake3 e := by
  rw [entryLen, encode_length, suffixLen]
  omega

variable {bytes : Bytes}

lemma loadBytes_placed (fileId : Bytes) {es : List Entry}
    (hes : ∀ e ∈ es, e.1.operationId.length < 65536 ∧ e.2.WellFormed) {offset base : ℕ} (hle : base ≤ offset)
    (seen : List (UInt64 × UInt64)) {tail : Bytes}
    (hb : bytes.drop (offset - base) = encodeAll blake3 es ++ tail) (st : Effective) :
    loadBytes blake3 ((placed blake3 fileId offset seen es).map Prod.fst) base bytes st =
      .ok (((placed blake3 fileId offset seen es).map Prod.snd).foldl (fun st e => st.apply e.2) st).state := by
  induction es generalizing offset base seen bytes st with
  | nil => rfl
  | cons e es ih =>
    obtain ⟨⟨ho, hwf⟩, hrest⟩ := List.forall_mem_cons.mp hes
    rw [encodeAll_cons, List.append_assoc] at hb
    have hnext : (bytes.drop (offset - base)).drop (entryLen blake3 e) = encodeAll blake3 es ++ tail := by
      rw [hb, entryLen, List.drop_left]
    have hskip : bytes.drop (offset + entryLen blake3 e - base) = encodeAll blake3 es ++ tail := by
      rw [← hnext, List.drop_drop]
      congr 1
      omega
    rw [placed]
    split
    · exact ih hrest (by omega) _ hskip _
    split
    · have hlen := congrArg List.length hb
      have hpos := entryLen_pos blake3 e
      rw [List.length_drop, List.length_append, ← entryLen] at hlen
      have hrec : recordAt blake3 offset (bytes.drop (offset - base)) = .ok (e.2, entryLen blake3 e) := by
        rw [recordAt, hb, decodeNext_encode blake3 _ ho hwf]
        rfl
      rw [List.map_cons, List.map_cons, loadBytes, if_neg (by omega), if_neg (by omega), hrec]
      exact ih hrest le_rfl _ (by rw [Nat.sub_self, List.drop_zero, hnext]) _
    · exact ih hrest (by omega) _ hskip _

def NoBegin (fileId : Bytes) (es : List Entry) : Prop := ∀ e ∈ es, e.2.fileId = fileId → ∀ f, e.2 ≠ .fileBegin f

lemma applyAll_begin (v : View) (es : List Entry) :
    (v.applyAll es).begin = none ↔ v.begin = none ∧ ∀ e ∈ es, ∀ f, e.2 ≠ .fileBegin f := by
  induction es generalizing v with
  | nil => simp [View.applyAll]
  | cons e es ih =>
    have hrest := ih (v.apply e.2)
    rw [List.forall_mem_cons, ← and_assoc]
    refine hrest.trans (and_congr_left fun _ => ?_)
    cases e.2 with
    | fileBegin f => simp [View.apply]
    | range r =>
      rw [View.apply]
      split <;> simp_all

lemma replayed_begin (bytes fileId : Bytes) :
    (replayed blake3 bytes fileId).begin = none ↔ NoBegin fileId (firsts [] (records blake3 bytes)) := by
  rw [replayed, applyAll_begin]
  simp [View.empty, NoBegin]

def CollisionFree (blake3 : Bytes → Digest) (es : List Entry) : Prop :=
  ∀ e ∈ es, ∀ e' ∈ es, checksumOf blake3 (covered e.1 e.2) = checksumOf blake3 (covered e'.1 e'.2) → e = e'

lemma firsts_subset (seen : List (UInt64 × UInt64)) (es : List Entry) : firsts seen es ⊆ es := by
  induction es generalizing seen with
  | nil => exact List.Subset.refl _
  | cons e es ih =>
    rw [firsts]
    split
    · exact List.subset_cons_of_subset _ (ih _)
    · exact List.cons_subset_cons _ (ih _)

lemma loadWhole_eq {fileId : Bytes} {offsets : List ℕ} (h : s.perFile.lookup fileId = extend none offsets) :
    loadWhole blake3 bytes s fileId = loadBytes blake3 offsets 0 bytes ⟨none, ∅⟩ := by
  rw [loadWhole, h, extend]
  split
  · next heq =>
    split at heq
    · next hnil =>
      rw [hnil]
      rfl
    · cases heq
  · next heq =>
    split at heq
    · cases heq
    · cases heq
      rfl

lemma loadWhole_matches {operationId : Bytes} (hs : scanBytes blake3 operationId .start bytes = .ok s)
    (fileId : Bytes) :
    ∃ st, loadWhole blake3 bytes s fileId = .ok st ∧ Matches st (replayed blake3 bytes fileId) := by
  obtain ⟨tail, htail⟩ := records_bytes blake3 bytes
  have hper := (scanBytes_index [] start_knows hs).1 fileId
  have hload := loadBytes_placed fileId (records_wellFormed bytes) (Nat.le_refl 0) [] htail ⟨none, ∅⟩
  have hentries : ∀ e ∈ (placed blake3 fileId 0 [] (records blake3 bytes)).map Prod.snd, e.2.WellFormed := by
    rw [placed_entries]
    intro e he
    exact (records_wellFormed bytes e (firsts_subset _ _ (List.mem_of_mem_filter he))).2
  refine ⟨_, (loadWhole_eq hper).trans hload, ?_⟩
  rw [replayed, ← placed_entries blake3 fileId 0]
  exact (empty_shows.applyAll hentries).matches

lemma Matches.none_iff {st : Option FileState} {v : View} (h : Matches st v) : st = none ↔ v.begin = none := by
  cases st with
  | none => exact iff_of_true rfl h
  | some st => exact iff_of_false (by simp) (by rw [h.1]; simp)

lemma noBegin_firsts {operationId : Bytes} (hs : scanBytes blake3 operationId .start bytes = .ok s)
    (hfree : CollisionFree blake3 (records blake3 bytes)) (fileId : Bytes) :
    NoBegin fileId (firsts [] (records blake3 bytes)) ↔ NoBegin fileId (records blake3 bytes) := by
  constructor
  · intro h e he
    rcases (scanBytes_index [] start_knows hs).2 e he with hlook | ⟨-, e', he', -, hsame⟩
    · cases (AList.lookup_empty (pairOf e)).symm.trans hlook
    · have heq := hfree e' (firsts_subset _ _ he') e he hsame
      exact h e (heq ▸ he')
  · exact fun h e he => h e (firsts_subset _ _ he)

end Loaded

theorem loadFile_exact (blake3 : Bytes → Digest) (operationId : Bytes) {r r' : Input} {s : Scan}
    (hscan : scan blake3 operationId r = .ok s) (hbytes : r'.rest = r.rest) (fileId : Bytes) :
    (∃ st, loadFile blake3 r' s fileId = .ok st ∧ Matches st (replayed blake3 r.rest fileId) ∧
      (st = none ↔ NoBegin fileId (firsts [] (records blake3 r.rest))) ∧
      (CollisionFree blake3 (records blake3 r.rest) → (st = none ↔ NoBegin fileId (records blake3 r.rest)))) ∨
    ¬ r'.Clean ∧ ∃ e, loadFile blake3 r' s fileId = .error (.io e) := by
  have hwhole : scanBytes blake3 operationId .start r.rest = .ok s := by
    rcases scanLoop_eq .start [] r with heq | ⟨-, e, he⟩
    · exact heq.symm.trans hscan
    · cases hscan.symm.trans he
  obtain ⟨st, hload, hmatches⟩ := loadWhole_matches hwhole fileId
  rcases loadFile_eq r' s fileId with heq | hio
  · rw [hbytes, hload] at heq
    have hnone := hmatches.none_iff.trans (replayed_begin r.rest fileId)
    exact .inl ⟨st, heq, hmatches, hnone, fun hfree => hnone.trans (noBegin_firsts hwhole hfree fileId)⟩
  · exact .inr hio

def beginning : Body := .fileBegin ⟨[7], 1, [], 1, none, [], 1048576, 0⟩

lemma beginning_wellFormed : beginning.WellFormed := by
  refine ⟨by simp [payload, beginning, maxPayload, putBytes, mtimeBytes], ?_⟩
  rintro r ⟨⟩

def shortLog : List Entry := [(⟨[111], 1, 1⟩, beginning), (⟨[111], 1, 2⟩, oneChunk 7)]

lemma shortLog_scan : ∃ s, scan zeroHash [111] ⟨encodeAll zeroHash shortLog, []⟩ = .ok s := by
  have hordered : Ordered none shortLog := by simp [shortLog, Ordered, Follows, pairOf]
  have hlegible : ∀ e ∈ shortLog, Legible [111] e := by
    intro e he
    rcases List.mem_cons.mp he with rfl | he
    · exact ⟨rfl, beginning_wellFormed⟩
    · cases List.mem_singleton.mp he
      exact ⟨rfl, oneChunk_wellFormed 7⟩
  obtain ⟨s, hs, -⟩ := scanBytes_log (by decide) hordered hlegible
    (.inl (rfl : decodeNext zeroHash [] = .endOfLog))
  refine ⟨s, ?_⟩
  rw [scan_clean (by simp [ByteStream.Clean]), ← hs, List.append_nil]

theorem loadFile_exact_shortLog :
    ∃ s st, scan zeroHash [111] ⟨encodeAll zeroHash shortLog, []⟩ = .ok s ∧
      loadFile zeroHash ⟨encodeAll zeroHash shortLog, [.upTo 3]⟩ s [7] = .ok st ∧
      Matches st (replayed zeroHash (encodeAll zeroHash shortLog) [7]) := by
  obtain ⟨s, hs⟩ := shortLog_scan
  have hbytes : (⟨encodeAll zeroHash shortLog, [.upTo 3]⟩ : Input).rest = encodeAll zeroHash shortLog := rfl
  rcases loadFile_exact zeroHash [111] hs hbytes [7] with ⟨st, hload, hmatches, -⟩ | ⟨hclean, -⟩
  · exact ⟨s, st, hs, hload, hmatches⟩
  · exact absurd (by simp [ByteStream.Clean]) hclean

end Flux.Wal
