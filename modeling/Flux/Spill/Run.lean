import Flux.Base.Loop
import Flux.Spill.Record
import Mathlib.Logic.Function.Basic

/-! A scratch file is the bytes before its end; runs are appended to it and read back through buffers. -/

namespace Flux.Spill

open Base

abbrev Disk := ℕ → Bytes

def writeAt (disk : Disk) (file offset : ℕ) (bytes : Bytes) : Disk :=
  let old := disk file
  Function.update disk file
    ((old ++ List.replicate (offset - old.length) 0).take offset ++ bytes ++ old.drop (offset + bytes.length))

structure RunSpan where
  start : ℕ
  len : ℕ
  count : ℕ
  deriving DecidableEq, Repr

structure RunWriter where
  sink : ℕ
  k : ℕ
  start : ℕ
  offset : ℕ
  buf : Bytes
  cap : ℕ
  count : ℕ

def usizeMax : ℕ := 2 ^ 64 - 1

namespace RunWriter

def new (disk : Disk) (sink k mergeBuffer : ℕ) : RunWriter :=
  ⟨sink, k, (disk sink).length, (disk sink).length, [], min (mergeBuffer * 4) usizeMax, 0⟩

def flush (w : RunWriter) (disk : Disk) (n : ℕ) : RunWriter × Disk :=
  if n = 0 then (w, disk)
  else ({ w with offset := w.offset + n, buf := w.buf.drop n }, writeAt disk w.sink w.offset (w.buf.take n))

def appended (w : RunWriter) (disk : Disk) (mark : ℕ) : RunWriter × Disk :=
  let s := ({ w with count := w.count + 1 }, disk)
  let s := if 0 < mark ∧ s.1.cap < s.1.buf.length then s.1.flush s.2 mark else s
  if s.1.cap ≤ s.1.buf.length then s.1.flush s.2 s.1.buf.length else s

def push (w : RunWriter) (disk : Disk) (item : Keyed) : Attempt FsError (RunWriter × Disk) :=
  match encode w.k item w.buf with
  | .error e => throw e
  | .ok buf => pure ({ w with buf := buf }.appended disk w.buf.length)

def pushEncoded (w : RunWriter) (disk : Disk) (record : Bytes) : RunWriter × Disk :=
  { w with buf := w.buf ++ record }.appended disk w.buf.length

def finish (w : RunWriter) (disk : Disk) : RunSpan × Disk :=
  let (w, disk) := w.flush disk w.buf.length
  (⟨w.start, w.offset - w.start, w.count⟩, disk)

end RunWriter

def writeRun (disk : Disk) (sink k mergeBuffer : ℕ) (items : List Keyed) : Attempt FsError (RunSpan × Disk) := do
  let (w, disk) ← items.foldlM (fun (s : RunWriter × Disk) item => s.1.push s.2 item)
    (RunWriter.new disk sink k mergeBuffer, disk)
  pure (w.finish disk)

def writeEncodedRun (disk : Disk) (sink k mergeBuffer : ℕ) (records : List Bytes) : RunSpan × Disk :=
  let (w, disk) := records.foldl (fun (s : RunWriter × Disk) record => s.1.pushEncoded s.2 record)
    (RunWriter.new disk sink k mergeBuffer, disk)
  w.finish disk

structure RunCursor where
  nextOff : ℕ
  stop : ℕ
  buf : Bytes
  pos : ℕ

namespace RunCursor

def new (span : RunSpan) : RunCursor := ⟨span.start, span.start + span.len, [], 0⟩

def fillStep (file : Bytes) (k chunk : ℕ) (c : RunCursor) :
    Attempt FsError (RunCursor ⊕ (Option ℕ × RunCursor)) :=
  match recordLen k (c.buf.drop c.pos) with
  | some n => pure (.inr (some n, c))
  | none =>
    if c.stop ≤ c.nextOff then
      if c.pos < c.buf.length then throw (fatal "a scratch run holds a corrupt record")
      else pure (.inr (none, c))
    else
      let want := min (c.stop - c.nextOff) chunk
      let got := slice file c.nextOff want
      if got.length < want then throw (fatal "a scratch run ends before its recorded length")
      else pure (.inl ⟨c.nextOff + want, c.stop, c.buf.drop c.pos ++ got, 0⟩)

def fill (file : Bytes) (k chunk : ℕ) (c : RunCursor) : Attempt FsError (Option ℕ × RunCursor) :=
  loop (fillStep file k chunk) c

def record (c : RunCursor) (len : ℕ) : Bytes := slice c.buf c.pos len

end RunCursor

def image (k : ℕ) (items : List Keyed) : Bytes := (items.map (record k)).flatten

lemma image_cons (k : ℕ) (x : Keyed) (items : List Keyed) : image k (x :: items) = record k x ++ image k items :=
  rfl

lemma writeAt_end (disk : Disk) (file : ℕ) (bytes : Bytes) :
    writeAt disk file (disk file).length bytes = Function.update disk file (disk file ++ bytes) := by
  have hdrop : (disk file).drop ((disk file).length + bytes.length) = [] := List.drop_eq_nil_of_le (by omega)
  simp [writeAt, hdrop]

lemma writeAt_self (disk : Disk) (file offset : ℕ) (bytes : Bytes) :
    writeAt disk file offset bytes file =
      (disk file ++ List.replicate (offset - (disk file).length) 0).take offset ++ bytes ++
        (disk file).drop (offset + bytes.length) :=
  Function.update_self _ _ _

variable {file : ℕ}

variable {disk : Disk} {k : ℕ}

lemma writeAt_of_ne {f : ℕ} (h : f ≠ file) (offset : ℕ) (bytes : Bytes) :
    writeAt disk file offset bytes f = disk f :=
  Function.update_of_ne h _ _

lemma writeAt_getElem? {offset i : ℕ} {bytes : Bytes} (hi : i < (disk file).length)
    (h : i < offset ∨ offset + bytes.length ≤ i) :
    (writeAt disk file offset bytes file)[i]? = (disk file)[i]? := by
  have hlen : ((disk file ++ List.replicate (offset - (disk file).length) 0).take offset).length = offset := by
    simp only [List.length_take, List.length_append, List.length_replicate]
    omega
  rw [writeAt_self]
  rcases h with h | h
  · rw [List.append_assoc, List.getElem?_append_left (by omega), List.getElem?_take_of_lt h,
      List.getElem?_append_left hi]
  · rw [List.getElem?_append_right (by simp only [List.length_append]; omega), List.getElem?_drop]
    congr 1
    simp only [List.length_append]
    omega

lemma writeAt_slice {offset j n : ℕ} {bytes : Bytes} (hj : j + n ≤ (disk file).length)
    (h : ∀ i, offset ≤ i → i < offset + bytes.length → i < j ∨ j + n ≤ i) :
    slice (writeAt disk file offset bytes file) j n = slice (disk file) j n := by
  apply List.ext_getElem?
  intro i
  simp only [slice, List.getElem?_take, List.getElem?_drop]
  split
  · apply writeAt_getElem?
    · omega
    · by_contra hin
      have := h (j + i) (by omega) (by omega)
      omega
  · rfl

structure Grown (file : ℕ) (disk disk' : Disk) : Prop where
  at_file : disk file <+: disk' file
  others : ∀ f, f ≠ file → disk' f = disk f

lemma Grown.refl (file : ℕ) (disk : Disk) : Grown file disk disk := ⟨List.prefix_rfl, fun _ _ => rfl⟩

lemma Grown.trans {d₁ d₂ d₃ : Disk} (h : Grown file d₁ d₂) (h' : Grown file d₂ d₃) : Grown file d₁ d₃ :=
  ⟨h.at_file.trans h'.at_file, fun f hf => (h'.others f hf).trans (h.others f hf)⟩

lemma Grown.le {disk' : Disk} (h : Grown file disk disk') (f : ℕ) : disk f <+: disk' f := by
  by_cases hf : f = file
  · subst hf
    exact h.at_file
  · exact (h.others f hf) ▸ List.prefix_rfl

structure Writing (k sink : ℕ) (before : Disk) (n : ℕ) (bytes : Bytes) (w : RunWriter) (disk : Disk) : Prop where
  width : w.k = k
  into : w.sink = sink
  start : w.start = (before sink).length
  offset : w.offset = (disk sink).length
  count : w.count = n
  content : disk sink ++ w.buf = before sink ++ bytes
  grown : Grown sink before disk

namespace Writing

variable {k sink : ℕ} {before disk : Disk} {n m : ℕ} {bytes : Bytes} {w : RunWriter}

lemma new (disk : Disk) (sink k mergeBuffer : ℕ) :
    Writing k sink disk 0 [] (RunWriter.new disk sink k mergeBuffer) disk :=
  ⟨rfl, rfl, rfl, rfl, rfl, rfl, .refl _ _⟩

lemma flush (h : Writing k sink before n bytes w disk) (hm : m ≤ w.buf.length) :
    Writing k sink before n bytes (w.flush disk m).1 (w.flush disk m).2 := by
  by_cases hm0 : m = 0
  · rw [RunWriter.flush, if_pos hm0]
    exact h
  · rw [RunWriter.flush, if_neg hm0, h.offset, h.into, writeAt_end]
    have hgrown : Grown sink disk (Function.update disk sink (disk sink ++ w.buf.take m)) := by
      refine ⟨by simp, fun f hf => Function.update_of_ne hf _ _⟩
    refine ⟨h.width, rfl, h.start, ?_, h.count, ?_, h.grown.trans hgrown⟩
    · simp [List.length_take, Nat.min_eq_left hm]
    · simp [h.content]

lemma flush_all (w : RunWriter) (disk : Disk) : (w.flush disk w.buf.length).1.buf = [] := by
  unfold RunWriter.flush
  split
  · exact List.eq_nil_of_length_eq_zero ‹_›
  · exact List.drop_length

lemma appended (h : Writing k sink before n bytes w disk) (record : Bytes) :
    Writing k sink before (n + 1) (bytes ++ record)
      ({ w with buf := w.buf ++ record }.appended disk w.buf.length).1
      ({ w with buf := w.buf ++ record }.appended disk w.buf.length).2 := by
  have hpushed : Writing k sink before (n + 1) (bytes ++ record)
      { w with buf := w.buf ++ record, count := w.count + 1 } disk := by
    refine ⟨h.width, h.into, h.start, h.offset, congrArg (· + 1) h.count, ?_, h.grown⟩
    rw [← List.append_assoc, ← List.append_assoc, h.content]
  have hflush : ∀ (c : Prop) [Decidable c] (s : RunWriter × Disk) (m : ℕ),
      Writing k sink before (n + 1) (bytes ++ record) s.1 s.2 → m ≤ s.1.buf.length →
      Writing k sink before (n + 1) (bytes ++ record) (if c then s.1.flush s.2 m else s).1
        (if c then s.1.flush s.2 m else s).2 := by
    intro c _ s m hs hm
    split
    · exact hs.flush hm
    · exact hs
  exact hflush _ _ _ (hflush _ (_, disk) _ hpushed (by simp)) le_rfl

lemma push (h : Writing k sink before n bytes w disk) {item : Keyed} (hfits : Fits item) :
    Returns (w.push disk item) fun s => Writing k sink before (n + 1) (bytes ++ record k item) s.1 s.2 := by
  obtain rfl := h.width
  rw [RunWriter.push, encode_eq hfits]
  exact .pure (h.appended (record w.k item))

end Writing

structure Holds (k : ℕ) (file : Bytes) (span : RunSpan) (items : List Keyed) : Prop where
  inside : span.start + span.len ≤ file.length
  bytes : slice file span.start span.len = image k items
  count : span.count = items.length

lemma Holds.mono {file file' : Bytes} {span : RunSpan} {items : List Keyed} (h : Holds k file span items)
    (hf : file <+: file') : Holds k file' span items := by
  obtain ⟨tail, rfl⟩ := hf
  refine ⟨h.inside.trans (by simp), ?_, h.count⟩
  rw [slice_append_left _ h.inside, h.bytes]

lemma Writing.finish {sink : ℕ} {before : Disk} {items : List Keyed} {w : RunWriter}
    (h : Writing k sink before items.length (image k items) w disk) :
    Holds k ((w.finish disk).2 sink) (w.finish disk).1 items ∧ Grown sink before (w.finish disk).2 := by
  have hf := h.flush le_rfl
  have hc := hf.content
  rw [flush_all, List.append_nil] at hc
  refine ⟨?_, hf.grown⟩
  rw [RunWriter.finish]
  simp only [hc, hf.start, hf.offset, hf.count, List.length_append, Nat.add_sub_cancel_left]
  refine ⟨by simp, ?_, rfl⟩
  simp [slice]

lemma writeRun_returns (sink mergeBuffer : ℕ) {items : List Keyed} (hfits : ∀ item ∈ items, Fits item) :
    Returns (writeRun disk sink k mergeBuffer items) fun s => Holds k (s.2 sink) s.1 items ∧
    Grown sink disk s.2 := by
  rw [writeRun]
  refine Returns.bind (Returns.foldlM (fun done (s : RunWriter × Disk) => Writing k sink disk done.length
    (image k done) s.1 s.2) ?_ (.new disk sink k mergeBuffer)) ?_
  · intro done item rest s hx hs
    apply (hs.push (hfits item (by simp [hx]))).imp
    intro t ht
    simpa [image] using ht
  · intro s hs
    exact .pure hs.finish

structure Reads (k : ℕ) (file : Bytes) (c : RunCursor) (items : List Keyed) : Prop where
  pos_le : c.pos ≤ c.buf.length
  next_le : c.nextOff ≤ c.stop
  stop_le : c.stop ≤ file.length
  bytes : c.buf.drop c.pos ++ slice file c.nextOff (c.stop - c.nextOff) = image k items

lemma Holds.reads {file : Bytes} {span : RunSpan} {items : List Keyed} (h : Holds k file span items) :
    Reads k file (.new span) items := by
  refine ⟨le_rfl, Nat.le_add_right _ _, h.inside, ?_⟩
  simpa [RunCursor.new] using h.bytes

def Filled (k : ℕ) (c : RunCursor) (r : Option ℕ) : List Keyed → Prop
  | [] => r = none
  | x :: _ => r = some (record k x).length ∧ c.record (record k x).length = record k x

lemma recordLen_nil (k : ℕ) : recordLen k [] = none := by simp [recordLen, slice?]

namespace Reads

variable {k chunk : ℕ} {file : Bytes} {c : RunCursor} {items : List Keyed}

variable {file' : Bytes}

lemma refill (h : Reads k file c items) (chunk : ℕ) (hf : file <+: file') (hc : ¬ c.stop ≤ c.nextOff) :
    (slice file' c.nextOff (min (c.stop - c.nextOff) chunk)).length = min (c.stop - c.nextOff) chunk ∧
    Reads k file ⟨c.nextOff + min (c.stop - c.nextOff) chunk, c.stop,
      c.buf.drop c.pos ++ slice file' c.nextOff (min (c.stop - c.nextOff) chunk), 0⟩ items := by
  obtain ⟨tail, rfl⟩ := hf
  have hstop := h.stop_le
  generalize hw : min (c.stop - c.nextOff) chunk = want
  have hle : want ≤ c.stop - c.nextOff := by omega
  rw [slice_append_left _ (by omega)]
  refine ⟨slice_length (by omega), Nat.zero_le _, by dsimp only; omega, h.stop_le, ?_⟩
  have hsplit : slice file c.nextOff (c.stop - c.nextOff) =
      slice file c.nextOff want ++ slice file (c.nextOff + want) (c.stop - (c.nextOff + want)) := by
    rw [slice, slice, slice, ← List.drop_drop, ← List.take_add]
    congr 1
    omega
  rw [← h.bytes, hsplit]
  simp

lemma rest_nil (h : Reads k file c items) (hc : c.stop ≤ c.nextOff) : c.buf.drop c.pos = image k items := by
  have hnext := h.next_le
  rw [← h.bytes, show c.stop - c.nextOff = 0 by omega]
  simp [slice]

lemma fillStep_refill (hchunk : 0 < chunk) (hf : file <+: file') (h : Reads k file c items)
    (hc : ¬ c.stop ≤ c.nextOff) (hnone : recordLen k (c.buf.drop c.pos) = none) :
    ∃ c', c.fillStep file' k chunk = pure (.inl c') ∧ Reads k file c' items ∧
      c'.stop - c'.nextOff < c.stop - c.nextOff := by
  obtain ⟨hlen, hreads⟩ := h.refill chunk hf hc
  refine ⟨_, ?_, hreads, ?_⟩
  · rw [RunCursor.fillStep, hnone]
    simp only [if_neg hc, hlen, lt_irrefl, if_false]
  · dsimp only
    omega

lemma fillStep_returns (hk : k ≤ 24) (hchunk : 0 < chunk) (hf : file <+: file') (hfits : ∀ x ∈ items, Fits x)
    (h : Reads k file c items) : Returns (c.fillStep file' k chunk) fun
      | .inl c' => Reads k file c' items ∧ c'.stop - c'.nextOff < c.stop - c.nextOff
      | .inr (r, c') => Reads k file c' items ∧ Filled k c' r items := by
  cases items with
  | nil =>
    have hempty : c.buf.drop c.pos = [] ∧ slice file c.nextOff (c.stop - c.nextOff) = [] :=
      List.append_eq_nil_iff.mp h.bytes
    have hstop : c.stop ≤ c.nextOff := by
      have hlen := congrArg List.length hempty.2
      have hle := h.stop_le
      have hnext := h.next_le
      rw [slice_length (by omega), List.length_nil] at hlen
      omega
    have hpos : ¬ c.pos < c.buf.length := by
      have := List.drop_eq_nil_iff.mp hempty.1
      omega
    rw [RunCursor.fillStep, hempty.1]
    simp only [recordLen_nil, if_pos hstop, if_neg hpos]
    exact .pure ⟨h, rfl⟩
  | cons x rest =>
    have hpre : c.buf.drop c.pos <+: record k x ++ image k rest := ⟨_, h.bytes⟩
    have hlen := recordLen_eq hk (hfits x List.mem_cons_self) hpre
    by_cases hwhole : (record k x).length ≤ (c.buf.drop c.pos).length
    · rw [if_pos hwhole] at hlen
      rw [RunCursor.fillStep, hlen]
      refine .pure ⟨h, rfl, ?_⟩
      rw [RunCursor.record, slice, List.prefix_iff_eq_take.mp hpre, List.take_take, Nat.min_eq_left hwhole,
        List.take_left]
    · rw [if_neg hwhole] at hlen
      have hc : ¬ c.stop ≤ c.nextOff := by
        intro hstop
        rw [h.rest_nil hstop, image_cons, List.length_append] at hwhole
        omega
      obtain ⟨c', hstep, hreads, hlt⟩ := h.fillStep_refill hchunk hf hc hlen
      exact ⟨_, hstep, hreads, hlt⟩

theorem fill_returns (hk : k ≤ 24) (hchunk : 0 < chunk) (hf : file <+: file') (hfits : ∀ x ∈ items, Fits x)
    (h : Reads k file c items) :
    Returns (c.fill file' k chunk) fun s => Reads k file s.2 items ∧ Filled k s.2 s.1 items := by
  apply Returns.loop (fun n c => Reads k file c items ∧ n = c.stop - c.nextOff) _ ⟨h, rfl⟩
  intro n c hc
  obtain ⟨hc, rfl⟩ := hc
  apply (hc.fillStep_returns hk hchunk hf hfits).imp
  intro r hr
  cases r with
  | inl c' => exact ⟨_, hr.2, hr.1, rfl⟩
  | inr s => exact hr

lemma advance {x : Keyed} {rest : List Keyed} (h : Reads k file c (x :: rest))
    (hrec : c.record (record k x).length = record k x) :
    Reads k file { c with pos := c.pos + (record k x).length } rest := by
  have hlen : (record k x).length ≤ (c.buf.drop c.pos).length := by
    have := congrArg List.length hrec
    rw [RunCursor.record, slice, List.length_take] at this
    omega
  refine ⟨?_, h.next_le, h.stop_le, ?_⟩
  · have := h.pos_le
    rw [List.length_drop] at hlen
    dsimp only
    omega
  · have hb := h.bytes
    rw [← List.take_append_drop (record k x).length (c.buf.drop c.pos), List.append_assoc] at hb
    rw [RunCursor.record, slice] at hrec
    rw [hrec, image_cons, List.drop_drop] at hb
    exact List.append_cancel_left hb

end Reads

lemma RunWriter.pushEncoded_k (w : RunWriter) (disk : Disk) (bytes : Bytes) :
    (w.pushEncoded disk bytes).1.k = w.k := by
  simp only [pushEncoded, appended, flush]
  split_ifs <;> rfl

lemma foldlM_push {items : List Keyed} (hfits : ∀ item ∈ items, Fits item) {s : RunWriter × Disk}
    (hk : s.1.k = k) : items.foldlM (fun (s : RunWriter × Disk) item => s.1.push s.2 item) s =
      (pure ((items.map (record k)).foldl (fun s bytes => s.1.pushEncoded s.2 bytes) s) : Attempt FsError _) := by
  induction items generalizing s with
  | nil => rfl
  | cons item items ih =>
    obtain ⟨hitem, hfits⟩ := List.forall_mem_cons.mp hfits
    have hpush : s.1.push s.2 item = pure (s.1.pushEncoded s.2 (record k item)) := by
      rw [RunWriter.push, encode_eq hitem, ← hk]
      rfl
    rw [List.foldlM_cons, hpush, pure_bind, ih hfits ((RunWriter.pushEncoded_k ..).trans hk), List.map_cons,
      List.foldl_cons]

theorem encoded_run_eq_run (disk : Disk) (sink k mergeBuffer : ℕ) {items : List Keyed}
    (hfits : ∀ item ∈ items, Fits item) :
    (∀ n, (items.take n).foldlM (fun (s : RunWriter × Disk) item => s.1.push s.2 item)
        (RunWriter.new disk sink k mergeBuffer, disk) =
      (pure (((items.take n).map (record k)).foldl (fun s bytes => s.1.pushEncoded s.2 bytes)
        (RunWriter.new disk sink k mergeBuffer, disk)) : Attempt FsError _)) ∧
    writeRun disk sink k mergeBuffer items = pure
    (writeEncodedRun disk sink k mergeBuffer (items.map (record k))) := by
  refine ⟨fun n => foldlM_push (fun item hi => hfits item (List.mem_of_mem_take hi)) rfl, ?_⟩
  rw [writeRun, foldlM_push hfits rfl]
  rfl

def threeItems : List Keyed :=
  [.plain ⟨List.replicate 8 97, .file, none⟩, .plain ⟨List.replicate 8 98, .dir, none⟩,
    .plain ⟨List.replicate 14 99, .symlink, none⟩]

theorem encoded_run_eq_run_three : ∃ s : RunWriter × Disk,
    (threeItems.take 2).foldlM (fun (s : RunWriter × Disk) item => s.1.push s.2 item)
      (RunWriter.new (fun _ => [1]) 0 0 4, fun _ => [1]) = (pure s : Attempt FsError _) ∧
    s.2 0 = 1 :: record 0 (.plain ⟨List.replicate 8 97, .file, none⟩) ∧
    writeRun (fun _ => [1]) 0 0 4 threeItems =
      pure (writeEncodedRun (fun _ => [1]) 0 0 4 (threeItems.map (record 0))) := by
  have hfits : ∀ item ∈ threeItems, Fits item := by
    simp only [threeItems, Fits]
    decide
  obtain ⟨hpushes, hrun⟩ := encoded_run_eq_run (fun _ => [1]) 0 0 4 hfits
  exact ⟨_, hpushes 2, rfl, hrun⟩

end Flux.Spill
