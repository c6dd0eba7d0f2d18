import Flux.Base.Heap
import Flux.Base.Merge
import Flux.Spill.Run

namespace Flux.Spill

open Base

structure Head where
  run : ℕ
  len : ℕ
  key : ℕ
  name : ℕ

instance : Inhabited RunCursor := ⟨⟨0, 0, [], 0⟩⟩

def headCmp (cursors : List RunCursor) (k : ℕ) (a b : Head) : Ordering :=
  let ra := cursors[a.run]!.record a.len
  let rb := cursors[b.run]!.record b.len
  (((compare a.key b.key).then (compare a.name b.name)).then
    ((compare (ra.take k) (rb.take k)).then (keyCmp (ra.drop (k + 3)) (rb.drop (k + 3))))).then
      (compare a.run b.run)

structure Merger where
  source : ℕ
  k : ℕ
  cursors : List RunCursor
  heap : Array Head
  chunk : ℕ

namespace Merger

def head (cursor : RunCursor) (k run len : ℕ) : Head :=
  let record := cursor.record len
  ⟨run, len, bytesPrefix (record.take (min k 8)), nameWord k (record.drop (k + 3))⟩

def open1 (file : Bytes) (k chunk : ℕ) (s : List RunCursor × Array Head) (run : ℕ) :
    Attempt FsError (List RunCursor × Array Head) := do
  let (r, c) ← s.1[run]!.fill file k chunk
  let cursors := s.1.set run c
  match r with
  | none => pure (cursors, s.2)
  | some len =>
    let heap := s.2.push (head c k run len)
    pure (cursors, Heap.siftUp (headCmp cursors k) heap (heap.size - 1))

def new (disk : Disk) (source k chunk : ℕ) (runs : List RunSpan) : Attempt FsError Merger := do
  let cursors := runs.map RunCursor.new
  let (cursors, heap) ← (List.range cursors.length).foldlM (open1 (disk source) k chunk) (cursors, #[])
  pure ⟨source, k, cursors, heap, chunk⟩

def nextRecord (disk : Disk) (m : Merger) : Attempt FsError (Option Bytes × Merger) :=
  match m.heap[0]? with
  | none => pure (none, m)
  | some top => do
    let c := m.cursors[top.run]!
    let out := c.record top.len
    let (r, c) ← { c with pos := c.pos + top.len }.fill (disk m.source) m.k m.chunk
    let cursors := m.cursors.set top.run c
    let heap := match r with
      | some next => m.heap.setIfInBounds 0 (head c m.k top.run next)
      | none => Heap.removeRoot m.heap
    pure (some out, { m with cursors := cursors, heap := Heap.siftDown (headCmp cursors m.k) heap 0 })

def nextEntry (disk : Disk) (m : Merger) : Attempt FsError (Option Keyed × Merger) := do
  let (record, m) ← m.nextRecord disk
  match record with
  | none => pure (none, m)
  | some record =>
    match decode m.k record with
    | some (item, _) => pure (some item, m)
    | none => throw (fatal "a scratch run holds a corrupt record")

end Merger

instance headCmp_trans (cursors : List RunCursor) (k : ℕ) : Std.TransCmp (headCmp cursors k) := by
  have h : headCmp cursors k = compareLex (compareLex (compareLex (compareOn Head.key) (compareOn Head.name))
      (compareLex (compareOn fun a => (cursors[a.run]!.record a.len).take k)
        (compareOn fun a => (cursors[a.run]!.record a.len).drop (k + 3)))) (compareOn Head.run) := by
    funext a b
    simp only [headCmp, keyCmp_eq]
    rfl
  rw [h]
  infer_instance

structure AtFront (k : ℕ) (cursors : List RunCursor) (h : Head) (x : Keyed) : Prop where
  record : cursors[h.run]!.record (record k x).length = record k x
  head : h = Merger.head cursors[h.run]! k h.run (Spill.record k x).length

variable {c : RunCursor} {k n : ℕ}

namespace AtFront

variable {k : ℕ} {cursors : List RunCursor} {h h' : Head} {x y : Keyed}

lemma len (hx : AtFront k cursors h x) : h.len = (Spill.record k x).length := congrArg Head.len hx.head

lemma key (hk : k ≤ 24) (hx : AtFront k cursors h x) :
    h.key = bytesPrefix ((x.key.val.take k).take (min k 8)) := by
  have := congrArg Head.key hx.head
  rw [Merger.head, hx.record] at this
  rw [this, ← record_take hk, List.take_take, min_eq_left (min_le_left k 8)]

lemma name (hk : k ≤ 24) (hx : AtFront k cursors h x) : h.name = nameWord k x.entry.name := by
  have := congrArg Head.name hx.head
  rw [Merger.head, hx.record] at this
  rw [this, ← record_drop hk]

lemma headCmp_eq (hk : k ≤ 24) (hx : AtFront k cursors h x) (hy : AtFront k cursors h' y) :
    headCmp cursors k h h' = (order k x y).then (compare h.run h'.run) := by
  simp only [headCmp]
  rw [hx.len, hy.len, hx.record, hy.record, record_take hk, record_take hk, record_drop hk,
    record_drop hk, keyCmp_eq,
    hx.key hk, hy.key hk, hx.name hk, hy.name hk, Ordering.then_assoc (compare (bytesPrefix _) _),
    words_then (take_key_length hk _) (take_key_length hk _)]
  rfl

lemma order_of_isLE (hk : k ≤ 24) (hx : AtFront k cursors h x) (hy : AtFront k cursors h' y)
    (hle : (headCmp cursors k h h').isLE = true) : (order k x y).isLE = true := by
  rw [hx.headCmp_eq hk hy] at hle
  cases ho : order k x y with
  | lt => rfl
  | eq => rfl
  | gt =>
    rw [ho] at hle
    exact hle

lemma set_ne (hx : AtFront k cursors h x) {run : ℕ} (c : RunCursor) (hne : h.run ≠ run) :
    AtFront k (cursors.set run c) h x := by
  have hget : (cursors.set run c)[h.run]! = cursors[h.run]! := by
    simp [getElem!_def, List.getElem?_set_ne (Ne.symm hne)]
  exact ⟨hget ▸ hx.record, hget ▸ hx.head⟩

lemma set_self {run : ℕ} (hrun : run < cursors.length)
    (hc : c.record (Spill.record k x).length = Spill.record k x) :
    AtFront k (cursors.set run c) (Merger.head c k run (Spill.record k x).length) x := by
  have hget : (cursors.set run c)[run]! = c := by
    simp [getElem!_def, List.getElem?_set_self hrun]
  exact ⟨hget.symm ▸ hc, hget.symm ▸ rfl⟩

end AtFront

lemma headCmp_set_ne {cursors : List RunCursor} {run : ℕ} {a b : Head} (c : RunCursor) (ha : a.run ≠ run)
    (hb : b.run ≠ run) : headCmp (cursors.set run c) k a b = headCmp cursors k a b := by
  have hget : ∀ i, i ≠ run → (cursors.set run c)[i]! = cursors[i]! := by
    intro i hi
    simp [getElem!_def, List.getElem?_set_ne (Ne.symm hi)]
  simp only [headCmp, hget _ ha, hget _ hb]

structure Fronts (k : ℕ) (cursors : List RunCursor) (runs : List (List Keyed)) (heads : List Head) : Prop where
  nodup : (heads.map Head.run).Nodup
  front : ∀ h ∈ heads, ∃ x rest, runs[h.run]? = some (x :: rest) ∧ AtFront k cursors h x
  all : ∀ (i : ℕ) x rest, runs[i]? = some (x :: rest) → ∃ h ∈ heads, h.run = i

namespace Fronts

variable {k : ℕ} {cursors : List RunCursor} {runs : List (List Keyed)} {heads others : List Head} {top : Head}

lemma perm {heads' : List Head} (h : Fronts k cursors runs heads) (hp : heads'.Perm heads) :
    Fronts k cursors runs heads' where
  nodup := (hp.map _).nodup_iff.mpr h.nodup
  front x hx := h.front x (hp.mem_iff.mp hx)
  all i x rest hi := by
    obtain ⟨a, ha, hr⟩ := h.all i x rest hi
    exact ⟨a, hp.mem_iff.mpr ha, hr⟩

lemma run_ne (h : Fronts k cursors runs (top :: others)) {a : Head} (ha : a ∈ others) : a.run ≠ top.run := by
  have hnd := h.nodup
  rw [List.map_cons, List.nodup_cons] at hnd
  intro he
  exact hnd.1 (he ▸ List.mem_map_of_mem ha)

lemma others_nodup (h : Fronts k cursors runs (top :: others)) : (others.map Head.run).Nodup := by
  have hnd := h.nodup
  rw [List.map_cons, List.nodup_cons] at hnd
  exact hnd.2

lemma front_others (h : Fronts k cursors runs (top :: others)) (c : RunCursor) (rest : List Keyed) :
    ∀ a ∈ others, ∃ x r, (runs.set top.run rest)[a.run]? = some (x :: r) ∧
      AtFront k (cursors.set top.run c) a x := by
  intro a ha
  have hne := h.run_ne ha
  obtain ⟨x, r, hr, hx⟩ := h.front a (List.mem_cons_of_mem _ ha)
  refine ⟨x, r, ?_, hx.set_ne c hne⟩
  rw [List.getElem?_set_ne (Ne.symm hne), hr]

lemma remove (h : Fronts k cursors runs (top :: others)) (c : RunCursor) :
    Fronts k (cursors.set top.run c) (runs.set top.run []) others where
  nodup := h.others_nodup
  front := h.front_others c []
  all i x rest hi := by
    have hne : i ≠ top.run := by
      rintro rfl
      rw [List.getElem?_set, if_pos rfl] at hi
      split at hi <;> simp at hi
    rw [List.getElem?_set_ne (Ne.symm hne)] at hi
    obtain ⟨a, ha, hr⟩ := h.all i x rest hi
    obtain rfl | ha := List.mem_cons.mp ha
    · exact absurd hr (Ne.symm hne)
    · exact ⟨a, ha, hr⟩

lemma replace (h : Fronts k cursors runs (top :: others)) (hlen : cursors.length = runs.length) {y : Keyed}
    {rest : List Keyed} (hc : c.record (record k y).length = record k y) :
    Fronts k (cursors.set top.run c) (runs.set top.run (y :: rest))
      (Merger.head c k top.run (record k y).length :: others) where
  nodup := by
    rw [List.map_cons, List.nodup_cons]
    refine ⟨?_, h.others_nodup⟩
    intro hmem
    obtain ⟨a, ha, hr⟩ := List.mem_map.mp hmem
    exact h.run_ne ha hr
  front a ha := by
    obtain rfl | ha := List.mem_cons.mp ha
    · obtain ⟨x, r, hr, -⟩ := h.front top List.mem_cons_self
      have hrun : top.run < runs.length := (List.getElem?_eq_some_iff.mp hr).1
      exact ⟨y, rest, List.getElem?_set_self hrun, .set_self (hlen ▸ hrun) hc⟩
    · exact h.front_others c _ a ha
  all i x r hi := by
    by_cases hne : i = top.run
    · exact ⟨_, List.mem_cons_self, hne.symm⟩
    · rw [List.getElem?_set_ne (Ne.symm hne)] at hi
      obtain ⟨a, ha, hr⟩ := h.all i x r hi
      obtain rfl | ha := List.mem_cons.mp ha
      · exact absurd hr (Ne.symm hne)
      · exact ⟨a, List.mem_cons_of_mem _ ha, hr⟩

lemma run_lt (h : Fronts k cursors (runs.take n) heads) {a : Head} (ha : a ∈ heads) : a.run < n := by
  obtain ⟨x, rest, hr, -⟩ := h.front a ha
  have := (List.getElem?_eq_some_iff.mp hr).1
  rw [List.length_take] at this
  omega

lemma front_succ (h : Fronts k cursors (runs.take n) heads) (c : RunCursor) :
    ∀ a ∈ heads, ∃ x r, (runs.take (n + 1))[a.run]? = some (x :: r) ∧ AtFront k (cursors.set n c) a x := by
  intro a ha
  have hlt := h.run_lt ha
  obtain ⟨x, r, hr, hx⟩ := h.front a ha
  refine ⟨x, r, ?_, hx.set_ne c (by omega)⟩
  rw [List.getElem?_take_of_lt (by omega)]
  rwa [List.getElem?_take_of_lt hlt] at hr

lemma all_succ (h : Fronts k cursors (runs.take n) heads) {i : ℕ} {x : Keyed} {r : List Keyed} (hi : i ≠ n)
    (hr : (runs.take (n + 1))[i]? = some (x :: r)) : ∃ a ∈ heads, a.run = i := by
  have hlt := (List.getElem?_eq_some_iff.mp hr).1
  rw [List.length_take] at hlt
  apply h.all i x r
  rw [List.getElem?_take_of_lt (by omega)] at hr ⊢
  exact hr

lemma skip (h : Fronts k cursors (runs.take n) heads) (hn : runs[n]? = some []) (c : RunCursor) :
    Fronts k (cursors.set n c) (runs.take (n + 1)) heads where
  nodup := h.nodup
  front := h.front_succ c
  all i x r hr := by
    apply h.all_succ _ hr
    rintro rfl
    rw [List.getElem?_take_of_lt (by omega), hn] at hr
    simp at hr

lemma add (h : Fronts k cursors (runs.take n) heads) {y : Keyed} {rest : List Keyed}
    (hn : runs[n]? = some (y :: rest)) (hlen : cursors.length = runs.length)
    (hc : c.record (record k y).length = record k y) :
    Fronts k (cursors.set n c) (runs.take (n + 1)) (Merger.head c k n (record k y).length :: heads) where
  nodup := by
    rw [List.map_cons, List.nodup_cons]
    refine ⟨?_, h.nodup⟩
    intro hmem
    obtain ⟨a, ha, hr⟩ := List.mem_map.mp hmem
    have hlt := h.run_lt ha
    have hrn : a.run = n := hr
    omega
  front a ha := by
    obtain rfl | ha := List.mem_cons.mp ha
    · have hrun := (List.getElem?_eq_some_iff.mp hn).1
      have hget : (runs.take (n + 1))[n]? = some (y :: rest) := by rw [List.getElem?_take_of_lt (by omega), hn]
      exact ⟨y, rest, hget, .set_self (hlen ▸ hrun) hc⟩
    · exact h.front_succ c a ha
  all i x r hr := by
    by_cases hi : i = n
    · exact ⟨_, List.mem_cons_self, hi.symm⟩
    · obtain ⟨a, ha, har⟩ := h.all_succ hi hr
      exact ⟨a, List.mem_cons_of_mem _ ha, har⟩

end Fronts

structure Merging (k source chunk : ℕ) (file : Bytes) (m : Merger) (runs : List (List Keyed)) : Prop where
  width : m.k = k
  source : m.source = source
  chunk : m.chunk = chunk
  length : m.cursors.length = runs.length
  reads : ∀ (i : ℕ) r, runs[i]? = some r → Reads k file m.cursors[i]! r
  fronts : Fronts k m.cursors runs m.heap.toList
  ordered : Heap.Ordered (headCmp m.cursors k) m.heap

namespace Merging

variable {k source chunk : ℕ} {file : Bytes} {m : Merger} {runs : List (List Keyed)}

lemma heap_nil (h : Merging k source chunk file m runs) (hz : m.heap[0]? = none) : ∀ r ∈ runs, r = [] := by
  intro r hr
  obtain ⟨i, hi⟩ := List.mem_iff_getElem?.mp hr
  cases r with
  | nil => rfl
  | cons x rest =>
    obtain ⟨a, ha, -⟩ := h.fronts.all i x rest hi
    have hempty : m.heap.size = 0 := by simpa using hz
    have := List.length_pos_of_mem ha
    rw [Array.length_toList] at this
    omega

lemma least (hk : k ≤ 24) (h : Merging k source chunk file m runs) {top : Head} (hz : m.heap[0]? = some top)
    {x : Keyed} (hx : AtFront k m.cursors top x) : ∀ r ∈ runs, ∀ y ∈ r.head?, (order k x y).isLE = true := by
  intro r hr y hy
  obtain ⟨i, hi⟩ := List.mem_iff_getElem?.mp hr
  cases r with
  | nil => simp at hy
  | cons z rest =>
    obtain rfl : z = y := by simpa using hy
    obtain ⟨a, ha, rfl⟩ := h.fronts.all i z rest hi
    obtain ⟨z', rest', hz', hfront⟩ := h.fronts.front a ha
    obtain ⟨rfl, rfl⟩ := List.cons.inj (Option.some.inj (hz'.symm.trans hi))
    obtain ⟨j, hj⟩ := List.mem_iff_getElem?.mp ha
    rw [Array.getElem?_toList] at hj
    exact hx.order_of_isLE hk hfront (h.ordered.root j top a hz hj)

end Merging

variable {runs : List (List Keyed)}

lemma reads_set {file : Bytes} {cursors : List RunCursor}
    (h : ∀ (i : ℕ) r, runs[i]? = some r → Reads k file cursors[i]! r) (hlen : cursors.length = runs.length)
    (run : ℕ) {rest : List Keyed} (hc : Reads k file c rest) :
    ∀ (i : ℕ) r, (runs.set run rest)[i]? = some r → Reads k file (cursors.set run c)[i]! r := by
  intro i r hr
  by_cases hi : i = run
  · subst hi
    have hlt : i < runs.length := by simpa using (List.getElem?_eq_some_iff.mp hr).1
    rw [List.getElem?_set_self hlt] at hr
    obtain rfl := Option.some.inj hr
    have hget : (cursors.set i c)[i]! = c := by
      simp [getElem!_def, List.getElem?_set_self (hlen ▸ hlt)]
    exact hget.symm ▸ hc
  · rw [List.getElem?_set_ne (Ne.symm hi)] at hr
    have hget : (cursors.set run c)[i]! = cursors[i]! := by
      simp [getElem!_def, List.getElem?_set_ne (Ne.symm hi)]
    exact hget.symm ▸ h i r hr

namespace Merging

variable {k source chunk : ℕ} {file : Bytes} {m : Merger} {runs : List (List Keyed)}

lemma sift (h : Merging k source chunk file m runs) {run : ℕ} {rest : List Keyed} {heap : Array Head}
    (hc : Reads k file c rest) (hf : Fronts k (m.cursors.set run c) (runs.set run rest) heap.toList)
    (ho : Heap.OrderedBelow (headCmp (m.cursors.set run c) k) heap 0) : Merging k source chunk file
      { m with cursors := m.cursors.set run c, heap := Heap.siftDown (headCmp (m.cursors.set run c) m.k) heap 0 }
      (runs.set run rest) where
  width := h.width
  source := h.source
  chunk := h.chunk
  length := by simpa using h.length
  reads := reads_set h.reads h.length run hc
  fronts := hf.perm (Heap.siftDown_perm _ _ _).toList
  ordered := by
    obtain rfl := h.width
    exact Heap.siftDown_ordered ho

theorem nextRecord_returns (hk : k ≤ 24) (hchunk : 0 < chunk) {disk : Disk} (hf : file <+: disk source)
    (hfits : ∀ r ∈ runs, ∀ x ∈ r, Fits x) (h : Merging k source chunk file m runs) :
    Returns (m.nextRecord disk) fun s =>
      (s.1 = none ∧ ∀ r ∈ runs, r = []) ∨
      ∃ i x rest, runs[i]? = some (x :: rest) ∧ (∀ r ∈ runs, ∀ y ∈ r.head?, (order k x y).isLE = true) ∧
        s.1 = some (record k x) ∧ Merging k source chunk file s.2 (runs.set i rest) := by
  obtain rfl := h.width
  obtain rfl := h.source
  obtain rfl := h.chunk
  rw [Merger.nextRecord]
  cases hz : m.heap[0]? with
  | none => exact .pure (.inl ⟨rfl, h.heap_nil hz⟩)
  | some top =>
    obtain ⟨others, hlist⟩ := Heap.toList_eq_cons hz
    have hfr := h.fronts
    rw [hlist] at hfr
    obtain ⟨x, rest, hrun, hx⟩ := hfr.front top List.mem_cons_self
    have hreads := (h.reads _ _ hrun).advance hx.record
    have hmem : ∀ y ∈ rest, Fits y := fun y hy =>
      hfits _ (List.mem_of_getElem? hrun) y (List.mem_cons_of_mem _ hy)
    have hagree : ∀ c, ∀ a ∈ m.heap.toList.tail, ∀ b ∈ m.heap.toList.tail,
        headCmp (m.cursors.set top.run c) m.k a b = headCmp m.cursors m.k a b := by
      intro c a ha b hb
      rw [hlist] at ha hb
      exact headCmp_set_ne c (hfr.run_ne ha) (hfr.run_ne hb)
    rw [← hx.len] at hreads
    apply (hreads.fill_returns hk hchunk hf hmem).bind
    intro s hs
    obtain ⟨r, c⟩ := s
    obtain ⟨hc, hfilled⟩ := hs
    refine .pure (.inr ⟨top.run, x, rest, hrun, h.least hk hz hx, ?_, ?_⟩)
    · rw [hx.len, hx.record]
    · cases rest with
      | nil =>
        obtain rfl := hfilled
        apply h.sift hc ((hfr.remove c).perm (Heap.removeRoot_perm hlist))
        apply h.ordered.of_tail (hagree c)
        intro i a hi ha
        exact Heap.getElem?_removeRoot hi ha
      | cons y rest =>
        obtain ⟨rfl, hrec⟩ := hfilled
        apply h.sift hc
        · rw [Heap.toList_setIfInBounds_zero hlist]
          exact hfr.replace h.length hrec
        · apply h.ordered.of_tail (hagree c)
          intro i a hi ha
          rw [← Heap.getElem?_setIfInBounds_zero _ _ hi]
          exact ha

theorem nextEntry_returns (hk : k ≤ 24) (hchunk : 0 < chunk) {disk : Disk} (hf : file <+: disk source)
    (hfits : ∀ r ∈ runs, ∀ x ∈ r, Fits x) (h : Merging k source chunk file m runs) :
    Returns (m.nextEntry disk) fun s =>
      (s.1 = none ∧ ∀ r ∈ runs, r = []) ∨
      ∃ i x rest, runs[i]? = some (x :: rest) ∧ (∀ r ∈ runs, ∀ y ∈ r.head?, (order k x y).isLE = true) ∧
        s.1 = some (stored k x) ∧ Merging k source chunk file s.2 (runs.set i rest) := by
  rw [Merger.nextEntry]
  apply (h.nextRecord_returns hk hchunk hf hfits).bind
  intro s hs
  obtain ⟨r, m'⟩ := s
  obtain ⟨rfl, hnil⟩ | ⟨i, x, rest, hi, hle, rfl, hm⟩ := hs
  · exact .pure (.inl ⟨rfl, hnil⟩)
  · have hx : Fits x := hfits _ (List.mem_of_getElem? hi) x List.mem_cons_self
    have hdec := decode_record hk hx []
    rw [List.append_nil] at hdec
    have hw : m'.k = k := hm.width
    simp only [hw, hdec]
    exact .pure (.inr ⟨i, x, rest, hi, hle, rfl, hm⟩)

end Merging

structure Opening (k : ℕ) (file : Bytes) (runs : List (List Keyed)) (n : ℕ) (s : List RunCursor × Array Head) :
    Prop where
  length : s.1.length = runs.length
  reads : ∀ (i : ℕ) r, runs[i]? = some r → Reads k file s.1[i]! r
  fronts : Fronts k s.1 (runs.take n) s.2.toList
  ordered : Heap.Ordered (headCmp s.1 k) s.2

lemma Opening.open1_returns {chunk : ℕ} {file : Bytes} {s : List RunCursor × Array Head} (hk : k ≤ 24)
    (hchunk : 0 < chunk) (hfits : ∀ r ∈ runs, ∀ x ∈ r, Fits x) (hn : n < runs.length)
    (h : Opening k file runs n s) : Returns (Merger.open1 file k chunk s n) (Opening k file runs (n + 1)) := by
  obtain ⟨r, hr⟩ : ∃ r, runs[n]? = some r := ⟨_, List.getElem?_eq_getElem hn⟩
  have hmem := List.mem_of_getElem? hr
  rw [Merger.open1]
  apply ((h.reads n r hr).fill_returns hk hchunk List.prefix_rfl (hfits r hmem)).bind
  intro t ht
  obtain ⟨len, c⟩ := t
  obtain ⟨hc, hfilled⟩ := ht
  have hset : runs.set n r = runs := by
    obtain ⟨hlt, rfl⟩ := List.getElem?_eq_some_iff.mp hr
    exact List.set_getElem_self hlt
  have hreads := reads_set h.reads h.length n hc
  rw [hset] at hreads
  have hlen : (s.1.set n c).length = runs.length := by simpa using h.length
  have hagree : ∀ a ∈ s.2, ∀ b ∈ s.2, headCmp (s.1.set n c) k a b = headCmp s.1 k a b := by
    intro a ha b hb
    have ha' := h.fronts.run_lt (Array.mem_toList_iff.mpr ha)
    have hb' := h.fronts.run_lt (Array.mem_toList_iff.mpr hb)
    exact headCmp_set_ne c (by omega) (by omega)
  have hord := h.ordered.congr hagree
  cases r with
  | nil =>
    obtain rfl := hfilled
    exact .pure ⟨hlen, hreads, h.fronts.skip hr c, hord⟩
  | cons y rest =>
    obtain ⟨rfl, hrec⟩ := hfilled
    refine .pure ⟨hlen, hreads, ?_, ?_⟩
    · apply (h.fronts.add hr h.length hrec).perm
      apply (Heap.siftUp_perm _ _ _).toList.trans
      rw [Array.toList_push]
      exact List.perm_append_singleton _ _
    · rw [Array.size_push, Nat.add_sub_cancel]
      exact Heap.siftUp_ordered (hord.push _)

theorem Merger.new_returns {chunk : ℕ} (hk : k ≤ 24) (hchunk : 0 < chunk) {disk : Disk} (source : ℕ)
    {spans : List RunSpan} (hfits : ∀ r ∈ runs, ∀ x ∈ r, Fits x)
    (h : List.Forall₂ (Holds k (disk source)) spans runs) :
    Returns (Merger.new disk source k chunk spans) fun m => Merging k source chunk (disk source) m runs := by
  rw [Merger.new]
  have hlen : (spans.map RunCursor.new).length = runs.length := by rw [List.length_map, h.length_eq]
  have hstart : Opening k (disk source) runs 0 (spans.map RunCursor.new, #[]) := by
    refine ⟨hlen, ?_, ⟨by simp, by simp, by simp⟩, ?_⟩
    · intro i r hr
      obtain ⟨span, hs, hspan⟩ := forall₂_getElem? h hr
      simpa [getElem!_def, hs] using hspan.reads
    · intro j _ a b ha _
      simp at ha
  refine Returns.bind (Returns.foldlM_range (Opening k (disk source) runs) ?_ hstart) ?_
  · intro i s hi hs
    exact hs.open1_returns hk hchunk hfits (hlen ▸ hi)
  · intro s hs
    rw [hlen] at hs
    refine .pure ⟨rfl, rfl, rfl, hs.length, hs.reads, ?_, hs.ordered⟩
    have hfr := hs.fronts
    rwa [List.take_length] at hfr

end Flux.Spill
