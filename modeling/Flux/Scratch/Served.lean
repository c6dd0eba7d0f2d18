import Flux.Scratch.Retire

namespace Flux.Scratch

open Base Spill

section Reads

variable {s : Store} {ds : Directories}

lemma Holds.hasName_iff (h : Holds s ds) (d : DirKey) (n : Bytes) :
    s.names2[rowKey d n]?.isSome = true ↔ n ∈ (ds d).names := by
  rw [Option.isSome_iff_exists]
  exact ⟨fun ⟨v, hv⟩ => (h.names.get_iff rowKey_injective (i := (d, n))).mp hv,
    fun hn => ⟨(), (h.names.get_iff rowKey_injective (i := (d, n))).mpr hn⟩⟩

lemma Holds.owner_eq (h : Holds s ds) (d : DirKey) (n : Bytes) : s.owners[rowKey d n]? = (ds d).owners n :=
  Option.ext fun _ => h.owners.get_iff rowKey_injective (i := (d, n))

lemma Holds.learned_eq (h : Holds s ds) (d : DirKey) (n : Bytes) : s.learnedSeqs[rowKey d n]? = (ds d).learned n :=
  Option.ext fun _ => h.learned.get_iff rowKey_injective (i := (d, n))

lemma lt_of_append_lt {a b c : Bytes} (h : a ++ b < a ++ c) : b < c :=
  not_le.mp fun hle => absurd (append_le_append_left a hle) (not_le.mpr h)

lemma Holds.ids_of_mem (h : Holds s ds) {d : DirKey} {id : ObjectId} {r : Bytes × UInt64}
    (hr : r ∈ s.ids.range (d.prefixBytes ++ idBytes id) (increment (d.prefixBytes ++ idBytes id)).1) :
    ∃ name, r.1 = d.prefixBytes ++ idBytes id ++ name ∧ (ds d).ids id (spellingOf name) = some r.2 := by
  obtain ⟨hget, hk⟩ := Table.mem_range.mp hr
  obtain ⟨⟨d', id', name⟩, hkey, hrow⟩ := (h.ids _ _).mp hget
  rw [← hkey] at hk
  obtain ⟨rfl, rfl⟩ := (between_ids_iff d d' id id' name).mp hk
  exact ⟨name, hkey.symm, hrow⟩

lemma Holds.idsRows (h : Holds s ds) (d : DirKey) (id : ObjectId) :
    (Call.idsRows d id).Reads ds (.ids ((s.ids.range (d.prefixBytes ++ idBytes id)
      (increment (d.prefixBytes ++ idBytes id)).1).map fun r =>
        (spellingOf (r.1.drop (d.prefixBytes ++ idBytes id).length), r.2))) := by
  generalize hlo : d.prefixBytes ++ idBytes id = lo
  have hmem : ∀ r ∈ s.ids.range lo (increment lo).1,
      ∃ name, r.1 = lo ++ name ∧ (ds d).ids id (spellingOf name) = some r.2 := by
    rw [← hlo]
    exact fun r hr => h.ids_of_mem hr
  have hspelling : ∀ name, (spellingOf name).getD [] = name := by
    intro name
    rw [spellingOf]
    split
    · next hnil => exact hnil.symm
    · rfl
  refine ⟨?_, fun sp seq => ⟨fun hin => ?_, fun hrow => ?_⟩⟩
  · rw [List.pairwise_map]
    refine (Table.range_sorted s.ids lo (increment lo).1).imp_of_mem ?_
    intro a b ha hb hlt
    obtain ⟨n, hn, -⟩ := hmem a ha
    obtain ⟨n', hn', -⟩ := hmem b hb
    dsimp only
    rw [hn, hn', List.drop_left, List.drop_left, hspelling, hspelling]
    rw [hn, hn'] at hlt
    exact lt_of_append_lt hlt
  · obtain ⟨r, hr, heq⟩ := List.mem_map.mp hin
    obtain ⟨name, hname, hrow⟩ := hmem r hr
    rw [hname, List.drop_left] at heq
    obtain ⟨rfl, rfl⟩ := Prod.mk.inj heq
    exact hrow
  · have hsp : sp ≠ some [] := by
      rintro rfl
      rw [h.spelled d id] at hrow
      cases hrow
    have hget : s.ids[idsKey d id (sp.getD [])]? = some seq :=
      (h.ids _ _).mpr ⟨(d, id, sp.getD []), rfl, (congrArg ((ds d).ids id) (spellingOf_getD hsp)).trans hrow⟩
    have hin := Table.mem_range.mpr ⟨hget, (between_ids_iff d d id id (sp.getD [])).mpr ⟨rfl, rfl⟩⟩
    rw [hlo] at hin
    refine List.mem_map.mpr ⟨_, hin, ?_⟩
    dsimp only
    rw [idsKey, hlo, List.drop_left, spellingOf_getD hsp]

end Reads

section Visits

variable {σ : Type} {visit : σ → Bytes → Except FsError Bool × σ}

lemma Store.visitAll_append (visit : σ → Bytes → Except FsError Bool × σ) (ns ms : List Bytes) (v : σ) :
    visitAll visit (ns ++ ms) v =
    match visitAll visit ns v with
    | (some r, v) => (some r, v)
    | (none, v) => visitAll visit ms v := by
  induction ns generalizing v with
  | nil => rfl
  | cons n ns ih =>
    rw [List.cons_append, visitAll, visitAll]
    rcases visit v n with ⟨_ | (_ | _), v'⟩
    · rfl
    · exact ih v'
    · rfl

lemma Store.range_pageAfter {V : Type} {t : Table V} {lo hi lo' : Bytes} {batch : ℕ}
    (h : pageAfter (keysIn t lo hi batch) batch = some lo') :
    batch ≤ (t.range lo hi).length ∧ t.range lo' hi = (t.range lo hi).drop batch := by
  rw [pageAfter] at h
  split at h
  · next hlen =>
    rw [keysIn, List.length_map, List.length_take] at hlen
    rw [keysIn, List.getLast?_map, Option.map_map, Option.map_eq_some_iff] at h
    obtain ⟨last, hlast, rfl⟩ := h
    obtain ⟨init, hinit⟩ := List.getLast?_eq_some_iff.mp hlast
    have hsplit := List.take_append_drop batch (t.range lo hi)
    rw [hinit, List.append_assoc] at hsplit
    exact ⟨by omega, Table.range_after t hsplit.symm⟩
  · cases h

lemma Store.take_of_pageAfter {V : Type} {t : Table V} {lo hi : Bytes} {batch : ℕ} (hb : 1 ≤ batch)
    (h : pageAfter (keysIn t lo hi batch) batch = none) : (t.range lo hi).take batch = t.range lo hi := by
  refine List.take_of_length_le ?_
  by_contra hlt
  have hlen : (keysIn t lo hi batch).length = batch := by
    rw [keysIn, List.length_map, List.length_take]
    omega
  rw [pageAfter, if_pos hlen, Option.map_eq_none_iff, List.getLast?_eq_none_iff] at h
  rw [h, List.length_nil] at hlen
  omega

lemma Store.forEachName2_spec {s : Store} {ds : Directories} (h : Holds s ds) (d : DirKey) (batch : ℕ) (v : σ) :
    Achieves (forEachName2 d batch visit v)
      (fun r t => t = s ∧
        r = (fun w : Option (Except FsError Unit) × σ => (w.1.getD (.ok ()), w.2))
          (visitAll visit ((s.names2.range d.bounds.1 d.bounds.2).map fun r => r.1.drop 25) v))
      (fun _ _ => False) s := by
  generalize hnames : s.names2.range d.bounds.1 d.bounds.2 = all
  apply Achieves.loop fun n (a : Bytes × σ) t => t = s ∧ ∃ done rest, all = done ++ rest ∧ n = rest.length ∧
    s.names2.range a.1 d.bounds.2 = rest ∧ visitAll visit (done.map fun r => r.1.drop 25) v = (none, a.2)
  · rintro n ⟨lo, w⟩ _ ⟨rfl, done, rest, rfl, rfl, hrange, hdone⟩
    dsimp only at hrange hdone
    refine Achieves.bind (read_spec h) ?_
    rintro _ t ⟨rfl, rfl⟩
    have hb : 1 ≤ max batch 1 := Nat.le_max_right _ _
    generalize max batch 1 = b at hb
    have hkeys : (keysIn t.names2 lo d.bounds.2 b).map (List.drop 25) = (rest.take b).map fun r =>
      r.1.drop 25 := by
      rw [keysIn, hrange, List.map_map]
      rfl
    dsimp only
    rw [hkeys]
    -- the names shown up to the end of this page
    have hpage := visitAll_append visit (done.map fun r => r.1.drop 25)
      ((rest.take b).map fun r => r.1.drop 25) v
    rw [hdone] at hpage
    dsimp only at hpage
    have hsplit : (done ++ rest).map (fun r => r.1.drop 25) =
        (done.map (fun r => r.1.drop 25) ++ (rest.take b).map fun r => r.1.drop 25) ++
          (rest.drop b).map fun r => r.1.drop 25 := by
      rw [← List.map_append, ← List.map_append, List.append_assoc, List.take_append_drop]
    rcases hv : visitAll visit ((rest.take b).map fun r => r.1.drop 25) w with ⟨_ | r, w'⟩
    · rw [hv] at hpage ⊢
      dsimp only
      cases hafter : pageAfter (keysIn t.names2 lo d.bounds.2 b) b with
      | some lo' =>
        obtain ⟨hle, hnext⟩ := range_pageAfter hafter
        rw [hrange] at hle hnext
        refine .pure ⟨(rest.drop b).length, ?_, rfl, done ++ rest.take b, rest.drop b, ?_, rfl, hnext, ?_⟩
        · rw [List.length_drop]
          omega
        · rw [List.append_assoc, List.take_append_drop]
        · rw [List.map_append]
          exact hpage
      | none =>
        have htake := take_of_pageAfter hb hafter
        rw [hrange] at htake
        rw [htake] at hpage
        refine .pure ⟨rfl, ?_⟩
        rw [List.map_append, hpage]
        rfl
    · rw [hv] at hpage ⊢
      refine .pure ⟨rfl, ?_⟩
      rw [hsplit, visitAll_append, hpage]
      rfl
  · exact ⟨rfl, [], all, rfl, rfl, hnames, rfl⟩

lemma Store.visitAll_keepName (ns seen : List Bytes) : visitAll keepName ns seen = (none, seen ++ ns) := by
  induction ns generalizing seen with
  | nil => rw [List.append_nil]; rfl
  | cons n ns ih =>
    rw [visitAll, keepName]
    dsimp only
    rw [ih, List.append_assoc, List.singleton_append]

lemma Holds.names_listed {s : Store} {ds : Directories} (h : Holds s ds) (d : DirKey) (batch : ℕ) :
    (Call.forEachName2 d batch).Reads ds
      (.names ((s.names2.range d.bounds.1 d.bounds.2).map fun r => r.1.drop 25)) := by
  have hmem : ∀ r ∈ s.names2.range d.bounds.1 d.bounds.2, ∃ n, r.1 = d.prefixBytes ++ n ∧ n ∈ (ds d).names := by
    intro r hr
    obtain ⟨hget, hk⟩ := Table.mem_range.mp hr
    obtain ⟨⟨d', n⟩, hkey, hn⟩ := (h.names _ _).mp hget
    rw [← hkey] at hk
    obtain rfl := (between_bounds_iff d d' n).mp hk
    exact ⟨n, hkey.symm, hn⟩
  have hdrop : ∀ n : Bytes, (d.prefixBytes ++ n).drop 25 = n := fun n => List.drop_left' d.prefixBytes_length
  refine ⟨?_, fun n => ⟨fun hin => ?_, fun hn => ?_⟩⟩
  · rw [List.pairwise_map]
    refine (Table.range_sorted s.names2 d.bounds.1 d.bounds.2).imp_of_mem ?_
    intro a b ha hb hlt
    obtain ⟨n, hn, -⟩ := hmem a ha
    obtain ⟨n', hn', -⟩ := hmem b hb
    rw [hn, hn'] at hlt ⊢
    rw [hdrop, hdrop]
    exact lt_of_append_lt hlt
  · obtain ⟨r, hr, rfl⟩ := List.mem_map.mp hin
    obtain ⟨n, hn, hnames⟩ := hmem r hr
    rw [hn, hdrop]
    exact hnames
  · have hget : s.names2[rowKey d n]? = some () := (h.names _ _).mpr ⟨(d, n), rfl, hn⟩
    have hin := Table.mem_range.mpr ⟨hget, (between_bounds_iff d d n).mpr rfl⟩
    exact List.mem_map.mpr ⟨_, hin, hdrop n⟩

end Visits

section Calls

open Store

variable {s : Store} {ds : Directories}

def Call.Performs (c : Call) (ds : Directories) (s : Store) : Prop :=
  Achieves c.perform (fun a t => c.Reads ds a ∧ Holds t (c.write ds)) (fun e t => c.Refused e ∧
    t.poison = some (remake e)) s

lemma performs_write {c : Call} {x : Op Unit} (hc : c.perform = (do x; pure .done)) (hdone : c.Reads ds .done)
    (hx : Achieves x (fun _ t => Holds t (c.write ds)) (fun e t => c.Refused e ∧ t.poison = some (remake e)) s) :
    c.Performs ds s := by
  rw [Call.Performs, hc]
  exact Achieves.bind hx fun _ t ht => .pure ⟨hdone, ht⟩

lemma learn_spec (h : Holds s ds) (d : DirKey) (n : Bytes) (seq : UInt64) :
    Achieves (learn d n seq) (fun _ t => Holds t (ds.edit d (.learnFirst n seq))) (fun _ _ => False) s := by
  have hget := h.learned_eq d n
  have hinner : Achieves (do
      txn
      learnNew (rowKey d n) seq (← get) : Op Unit)
      (fun _ t => Holds t (ds.edit d (.learnFirst n seq))) (fun _ _ => False) s := by
    refine txn_bind h.live (.get_bind ?_)
    rw [learnNew, hget]
    cases hq : (ds d).learned n with
    | some q =>
      rw [learnFirst_of_some hq]
      exact .pure h
    | none =>
      have hfirst := h.learnFirst hq seq
      exact .modify_bind ((afterWrite_spec hfirst.live).mono (fun _ _ ht => hfirst.counted ht) fun _ _ he => he)
  exact (run_spec h.sound hinner).mono (fun _ _ ht => ht) fun _ _ he => he.elim fun _ h => h.1

lemma idsRow_spec (h : Holds s ds) (d : DirKey) (id : ObjectId) (spelling : Option Bytes) (seq : UInt64) :
    (Call.idsRow d id spelling seq).Performs ds s := by
  by_cases hsp : spelling = some []
  · subst hsp
    have hinner : Achieves (throw emptyName : Op Unit) (fun _ _ => False) (fun e t => e = emptyName ∧ t = s) s :=
      .throw ⟨rfl, rfl⟩
    refine Achieves.bind (Q := fun _ _ => False) ?_ fun _ _ hf => hf.elim
    rw [idsRow, if_pos rfl]
    refine (run_spec h.sound hinner).mono (fun _ _ ht => ht) ?_
    rintro e t ⟨t', ⟨rfl, rfl⟩, rfl⟩
    refine ⟨.emptyName d id seq, ?_⟩
    dsimp only
    rw [h.sound, Option.none_or]
  · refine performs_write rfl hsp ?_
    rw [idsRow, if_neg hsp]
    exact (write_spec h (h.identify id hsp seq)).mono (fun _ _ ht => ht) fun _ _ he => he.elim

lemma perform_spec (h : Holds s ds) (c : Call) : c.Performs ds s := by
  cases c with
  | publishName d n =>
    exact performs_write rfl trivial ((write_spec h (h.publish n)).mono (fun _ _ ht => ht) fun _ _ he => he.elim)
  | setOwner d n target =>
    exact performs_write rfl trivial ((write_spec h (h.own n target)).mono (fun _ _ ht => ht) fun _ _ he =>
      he.elim)
  | learn d n seq =>
    exact performs_write rfl trivial ((learn_spec h d n seq).mono (fun _ _ ht => ht) fun _ _ he => he.elim)
  | idsRow d id spelling seq => exact idsRow_spec h d id spelling seq
  | retire d tick =>
    refine performs_write rfl trivial ((retire_spec h d tick).mono (fun _ _ ht => ht) ?_)
    rintro e t ⟨⟨n, hn⟩, ht⟩
    exact ⟨.stopped d hn, ht⟩
  | hasName d n =>
    refine Achieves.bind ((read_spec h).mono (fun _ _ ht => ht) fun _ _ he => he.elim) ?_
    rintro _ _ ⟨rfl, rfl⟩
    exact .pure ⟨h.hasName_iff d n, h⟩
  | owner d n =>
    refine Achieves.bind ((read_spec h).mono (fun _ _ ht => ht) fun _ _ he => he.elim) ?_
    rintro _ _ ⟨rfl, rfl⟩
    exact .pure ⟨h.owner_eq d n, h⟩
  | learned d n =>
    refine Achieves.bind ((read_spec h).mono (fun _ _ ht => ht) fun _ _ he => he.elim) ?_
    rintro _ _ ⟨rfl, rfl⟩
    exact .pure ⟨h.learned_eq d n, h⟩
  | idsRows d id =>
    refine Achieves.bind ((read_spec h).mono (fun _ _ ht => ht) fun _ _ he => he.elim) ?_
    rintro _ _ ⟨rfl, rfl⟩
    exact .pure ⟨h.idsRows d id, h⟩
  | forEachName2 d batch =>
    refine Achieves.bind ((forEachName2_spec h d batch []).mono (fun _ _ ht => ht) fun _ _ he => he.elim) ?_
    rintro _ _ ⟨rfl, rfl⟩
    rw [visitAll_keepName]
    exact .pure ⟨h.names_listed d batch, h⟩

lemma perform_unusable {cause : FsError} (hs : s.poison = some cause) (c : Call) :
    Achieves c.perform (fun _ _ => False) (fun e t => e = unusable cause ∧ t = s) s := by
  cases c with
  | forEachName2 d batch =>
    refine Achieves.bind (Q := fun _ _ => False) ?_ fun _ _ hf => hf.elim
    refine Achieves.loop (fun _ _ t => t = s) ?_ (n := 0) rfl
    rintro n a t rfl
    exact Achieves.bind (run_unusable hs) fun _ _ hf => hf.elim
  | _ => exact Achieves.bind (run_unusable hs) fun _ _ hf => hf.elim

lemma serve_unusable {cause : FsError} (hs : s.poison = some cause) (ds : Directories) (cs : List Call) :
    Returns (serve cs s) (Follows ds (some cause) cs) := by
  induction cs with
  | nil => exact .pure (.nil ds _)
  | cons c cs ih =>
    apply Returns.bind (perform_unusable hs c)
    rintro ⟨r, t⟩ hr
    cases r with
    | ok a => exact absurd hr id
    | error e =>
      obtain ⟨rfl, rfl⟩ := hr
      exact ih.bind fun rs hrs => .pure (.unusable hrs)

lemma serve_follows (h : Holds s ds) (cs : List Call) : Returns (serve cs s) (Follows ds none cs) := by
  induction cs generalizing s ds with
  | nil => exact .pure (.nil ds _)
  | cons c cs ih =>
    apply Returns.bind (perform_spec h c)
    rintro ⟨r, t⟩ hr
    cases r with
    | ok a => exact (ih hr.2).bind fun rs hrs => .pure (.answered hr.1 hrs)
    | error e => exact (serve_unusable hr.2 ds cs).bind fun rs hrs => .pure (.refused hr.1 hrs)

theorem store_refines_directories (commitEvery : ℕ) (calls : List Call) :
    Returns (serve calls (.create commitEvery)) (Follows (fun _ => .none) none calls) :=
  serve_follows (.create commitEvery) calls

end Calls

end Flux.Scratch
