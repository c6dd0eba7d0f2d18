import Flux.Base.ByteOrder
import Flux.Fs.Types

namespace Flux.Spill

open Base

def fatal (message : String) : FsError := ⟨.ioError, .other message⟩

structure Thresholds where
  inlineEntries : ℕ
  runEntries : ℕ
  mergeFanIn : ℕ
  mergeBuffer : ℕ
  runEntries_pos : runEntries ≠ 0
  inline_le_run : inlineEntries ≤ runEntries
  two_le_fanIn : 2 ≤ mergeFanIn
  four_le_buffer : 4 ≤ mergeBuffer

def Thresholds.new (inlineEntries runEntries mergeFanIn mergeBuffer : ℕ) : Except String Thresholds :=
  if hr : runEntries = 0 then .error "run_entries must be at least 1"
  else if hi : runEntries < inlineEntries then .error "inline_entries must not exceed run_entries"
  else if hf : mergeFanIn < 2 then .error "merge_fan_in must be at least 2"
  else if hb : mergeBuffer < 4 then .error "merge_buffer must be at least 4"
  else .ok ⟨inlineEntries, runEntries, mergeFanIn, mergeBuffer, hr, Nat.le_of_not_lt hi, Nat.le_of_not_lt hf,
    Nat.le_of_not_lt hb⟩

def tiny : Thresholds := ⟨1, 1, 2, 4, Nat.one_ne_zero, Nat.le_refl 1, Nat.le_refl 2, Nat.le_refl 4⟩

lemma Thresholds.mergeBuffer_pos (t : Thresholds) : 0 < t.mergeBuffer := lt_of_lt_of_le (by omega) t.four_le_buffer

/-- A directory entry with the key it sorts by first; only the first `k` bytes of a family's keys mean anything. -/
structure Keyed where
  key : Block 24
  entry : DirEntry
  deriving DecidableEq

def Keyed.plain (entry : DirEntry) : Keyed := ⟨zeroPad 24 [], entry⟩

def typeByte : FileType → UInt8
  | .file => 0
  | .dir => 1
  | .symlink => 2
  | .other => 3

def ofTypeByte : UInt8 → Option FileType
  | 0 => some .file
  | 1 => some .dir
  | 2 => some .symlink
  | 3 => some .other
  | _ => none

def u16Max : ℕ := 65535

def encode (k : ℕ) (item : Keyed) (out : Bytes) : Except FsError Bytes :=
  let name := item.entry.name
  if name.length ≤ u16Max then
    .ok (out ++ item.key.val.take k ++ le 2 name.length ++ [typeByte item.entry.fileType] ++ name)
  else
    .error (fatal s!"a directory entry name of {name.length} bytes is too long to spill (limit {u16Max})")

def decode (k : ℕ) (bytes : Bytes) : Option (Keyed × ℕ) := do
  let key ← slice? bytes 0 k
  let header ← slice? bytes k 3
  let len := ofLe (header.take 2)
  let fileType ← ofTypeByte (header.getD 2 0)
  let name ← slice? bytes (k + 3) len
  some (⟨zeroPad 24 key, ⟨name, fileType, none⟩⟩, k + 3 + len)

def recordLen (k : ℕ) (bytes : Bytes) : Option ℕ := do
  let header ← slice? bytes k 3
  let len := ofLe (header.take 2)
  if 3 < header.getD 2 0 then none
  else do
    let _ ← slice? bytes (k + 3) len
    some (k + 3 + len)

def bytesPrefix (bytes : Bytes) : ℕ := beHead 8 bytes

def keyCmp (a b : Bytes) : Ordering := (compare (bytesPrefix a) (bytesPrefix b)).then (compare a b)

def keyPrefix (k : ℕ) (key : Block 24) : ℕ := bytesPrefix (key.val.take (min k 8))

def keyedCmp (k : ℕ) (a b : Keyed) : Ordering :=
  let head := if 8 ≤ k then compare (keyPrefix k a.key) (keyPrefix k b.key) else .eq
  (head.then (compare (a.key.val.take k) (b.key.val.take k))).then (keyCmp a.entry.name b.entry.name)

def record (k : ℕ) (item : Keyed) : Bytes :=
  item.key.val.take k ++ (le 2 item.entry.name.length ++ ([typeByte item.entry.fileType] ++ item.entry.name))

def stored (k : ℕ) (item : Keyed) : Keyed :=
  ⟨zeroPad 24 (item.key.val.take k), { item.entry with ino := none }⟩

def Fits (item : Keyed) : Prop := item.entry.name.length ≤ u16Max

lemma ofTypeByte_typeByte (t : FileType) : ofTypeByte (typeByte t) = some t := by cases t <;> rfl

lemma typeByte_le (t : FileType) : ¬ 3 < typeByte t := by cases t <;> decide

lemma encode_eq {k : ℕ} {item : Keyed} (h : Fits item) (out : Bytes) :
    encode k item out = .ok (out ++ record k item) := by
  have h' : item.entry.name.length ≤ u16Max := h
  simp [encode, record, h']

section Width

variable {k : ℕ} (hk : k ≤ 24)
include hk

lemma take_key_length (key : Block 24) : (key.val.take k).length = k := by
  rw [List.length_take, key.property]
  omega

lemma record_length (item : Keyed) : (record k item).length = k + 3 + item.entry.name.length := by
  simp only [record, List.length_append, take_key_length hk, le_length, List.length_singleton]
  omega

lemma record_take (item : Keyed) : (record k item).take k = item.key.val.take k := by
  rw [record, List.take_append_of_le_length (by rw [take_key_length hk]), List.take_take, min_self]

lemma record_drop (item : Keyed) : (record k item).drop (k + 3) = item.entry.name := by
  rw [record, ← List.append_assoc, ← List.append_assoc, List.drop_left']
  simp only [List.length_append, take_key_length hk, le_length, List.length_singleton]

lemma record_header (item : Keyed) (rest : Bytes) :
    slice? (record k item ++ rest) k 3 = some (le 2 item.entry.name.length ++ [typeByte item.entry.fileType]) := by
  have h := slice?_append_exact (item.key.val.take k)
    (le 2 item.entry.name.length ++ [typeByte item.entry.fileType])
    (item.entry.name ++ rest) (take_key_length hk item.key) (n := 3) (by simp)
  simpa [record] using h

lemma record_name (item : Keyed) (rest : Bytes) :
    slice? (record k item ++ rest) (k + 3) item.entry.name.length = some item.entry.name := by
  have h := slice?_append_exact (item.key.val.take k ++
    (le 2 item.entry.name.length ++ [typeByte item.entry.fileType]))
    item.entry.name rest (i := k + 3) (by simp [take_key_length hk]) rfl
  simpa [record] using h

omit hk in
lemma ofLe_header {item : Keyed} (h : Fits item) :
    ofLe ((le 2 item.entry.name.length ++ [typeByte item.entry.fileType]).take 2) = item.entry.name.length := by
  rw [List.take_left' (le_length 2 _), ofLe_le]
  have : item.entry.name.length ≤ 65535 := h
  omega

lemma decode_record {item : Keyed} (h : Fits item) (rest : Bytes) :
    decode k (record k item ++ rest) = some (stored k item, (record k item).length) := by
  have hkey : slice? (record k item ++ rest) 0 k = some (item.key.val.take k) := by
    have := slice?_append_exact [] (item.key.val.take k)
      (le 2 item.entry.name.length ++ ([typeByte item.entry.fileType] ++ item.entry.name) ++ rest) rfl
      (take_key_length hk item.key)
    simpa [record] using this
  have htype : (le 2 item.entry.name.length ++ [typeByte item.entry.fileType]).getD 2 0 =
    typeByte item.entry.fileType := by
    rfl
  simp only [decode, hkey, record_header hk, Option.bind_eq_bind, Option.bind_some, ofLe_header h, htype,
    ofTypeByte_typeByte, record_name hk, record_length hk]
  rfl

lemma recordLen_eq {item : Keyed} (h : Fits item) {bytes rest : Bytes} (hb : bytes <+: record k item ++ rest) :
    recordLen k bytes = if (record k item).length ≤ bytes.length then some (record k item).length else none := by
  have hslice : ∀ {i n : ℕ} {s : Bytes}, slice? (record k item ++ rest) i n = some s →
      slice? bytes i n = if i + n ≤ bytes.length then some s else none := by
    intro i n s hs
    obtain ⟨tail, ht⟩ := hb
    rw [slice?]
    split
    · rename_i hle
      rw [← ht, slice?] at hs
      split at hs
      · rw [← hs, slice_append_left _ hle]
      · cases hs
    · rfl
  have htype : (le 2 item.entry.name.length ++ [typeByte item.entry.fileType]).getD 2 0 =
    typeByte item.entry.fileType := by
    rfl
  rw [recordLen, hslice (record_header hk item rest), record_length hk]
  by_cases h3 : k + 3 ≤ bytes.length
  · simp only [if_pos h3, Option.bind_eq_bind, Option.bind_some, htype, if_neg (typeByte_le _), ofLe_header h]
    rw [hslice (record_name hk item rest)]
    split <;> rfl
  · rw [if_neg h3, if_neg (by omega)]
    rfl

end Width

def order (k : ℕ) (a b : Keyed) : Ordering :=
  (compare (a.key.val.take k) (b.key.val.take k)).then (compare a.entry.name b.entry.name)

def nameWord (k : ℕ) (name : Bytes) : ℕ := if 8 < k then 0 else bytesPrefix name

lemma keyCmp_eq (a b : Bytes) : keyCmp a b = compare a b := compare_beHead_then 8 a b

instance order_trans (k : ℕ) : Std.TransCmp (order k) :=
  inferInstanceAs (Std.TransCmp
    (compareLex (compareOn fun a : Keyed => a.key.val.take k) (compareOn fun a : Keyed => a.entry.name)))

lemma bytesPrefix_take_min (k : ℕ) (a : Bytes) : bytesPrefix (a.take (min k 8)) = bytesPrefix (a.take k) := by
  obtain h | h := le_total k 8
  · rw [min_eq_left h]
  · rw [min_eq_right h, bytesPrefix, bytesPrefix, beHead_take le_rfl, beHead_take h]

lemma words_then {k : ℕ} {a b : Bytes} (ha : a.length = k) (hb : b.length = k) (m n : Bytes) :
    (compare (bytesPrefix (a.take (min k 8))) (bytesPrefix (b.take (min k 8)))).then
      ((compare (nameWord k m) (nameWord k n)).then ((compare a b).then (compare m n))) =
      (compare a b).then (compare m n) := by
  have hta : a.take k = a := List.take_of_length_le ha.le
  have htb : b.take k = b := List.take_of_length_le hb.le
  rw [bytesPrefix_take_min, bytesPrefix_take_min, hta, htb]
  by_cases hk : 8 < k
  · have hword : compare (nameWord k m) (nameWord k n) = .eq := by
      rw [nameWord, nameWord, if_pos hk, if_pos hk]
      exact Nat.compare_eq_eq.mpr rfl
    rw [hword, Ordering.eq_then, ← Ordering.then_assoc, bytesPrefix, bytesPrefix, compare_beHead_then]
  · by_cases he : bytesPrefix a = bytesPrefix b
    · obtain rfl : a = b := beHead_inj (ha.trans hb.symm) (by omega) he
      have hself : compare a a = .eq := compare_eq_iff.mpr rfl
      rw [Nat.compare_eq_eq.mpr rfl, hself, Ordering.eq_then, Ordering.eq_then, nameWord, nameWord, if_neg hk,
        if_neg hk, bytesPrefix, bytesPrefix, compare_beHead_then]
    · have hlt := compare_beHead_then 8 a b
      cases hc : compare (bytesPrefix a) (bytesPrefix b) with
      | eq => exact absurd (Nat.compare_eq_eq.mp hc) he
      | lt =>
        rw [show compare (beHead 8 a) (beHead 8 b) = .lt from hc] at hlt
        rw [← hlt]
        rfl
      | gt =>
        rw [show compare (beHead 8 a) (beHead 8 b) = .gt from hc] at hlt
        rw [← hlt]
        rfl

lemma keyedCmp_eq (k : ℕ) (a b : Keyed) : keyedCmp k a b = order k a b := by
  by_cases h : 8 ≤ k
  · simp only [keyedCmp, if_pos h, order, keyCmp_eq, keyPrefix, bytesPrefix_take_min]
    rw [bytesPrefix, bytesPrefix, compare_beHead_then]
  · simp only [keyedCmp, if_neg h, order, keyCmp_eq, Ordering.eq_then]

end Flux.Spill
