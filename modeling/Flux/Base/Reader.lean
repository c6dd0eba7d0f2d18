import Flux.Base.Bytes

namespace Base

abbrev Reader (α : Type) := StateT Bytes Option α

namespace Reader

def take (n : ℕ) : Reader Bytes := fun bs =>
  if n ≤ bs.length then some (bs.take n, bs.drop n) else none

def num (w : ℕ) : Reader ℕ := do return ofLe (← take w)

def u8 : Reader UInt8 := do return UInt8.ofNat (← num 1)

def u32 : Reader UInt32 := do return UInt32.ofNat (← num 4)

def u64 : Reader UInt64 := do return UInt64.ofNat (← num 8)

def i64 : Reader Int64 := do return (← u64).toInt64

def vec : Reader Bytes := do take (← num 4)

def block (n : ℕ) : Reader (Block n) := fun bs =>
  if h : n ≤ bs.length then some (⟨bs.take n, by simp [h]⟩, bs.drop n) else none

def blocks (n : ℕ) : ℕ → Reader (List (Block n))
  | 0 => pure []
  | k + 1 => do
    let b ← block n
    return b :: (← blocks n k)

def remaining : Reader ℕ := fun bs => some (bs.length, bs)

def fail {α : Type} : Reader α := fun _ => none

lemma bind_apply {α β : Type} (p : Reader α) (f : α → Reader β) (bs : Bytes) :
    (p >>= f) bs = (p bs).bind fun r => f r.1 r.2 := rfl

lemma pure_apply {α : Type} (a : α) (bs : Bytes) : (pure a : Reader α) bs = some (a, bs) := rfl

lemma remaining_apply (bs : Bytes) : remaining bs = some (bs.length, bs) := rfl

variable {n : ℕ}

lemma take_append {p : Bytes} (q : Bytes) (h : p.length = n) : take n (p ++ q) = some (p, q) := by
  subst h
  simp [take]

lemma num_le {w : ℕ} (q : Bytes) (h : n < 256 ^ w) : num w (le w n ++ q) = some (n, q) := by
  simp only [num, bind_apply, take_append q (le_length w n), Option.bind_some, pure_apply, ofLe_le h]

lemma u8_cons (b : UInt8) (q : Bytes) : u8 (b :: q) = some (b, q) := by
  have h : take 1 (b :: q) = some ([b], q) := take_append q (p := [b]) rfl
  simp only [u8, num, bind_apply, h, Option.bind_some, pure_apply, ofLe, Nat.mul_zero, Nat.add_zero,
    UInt8.ofNat_toNat]

lemma u32_le (x : UInt32) (q : Bytes) : u32 (le 4 x.toNat ++ q) = some (x, q) := by
  simp only [u32, bind_apply, num_le q (w := 4) x.toNat_lt, Option.bind_some, pure_apply,
    UInt32.ofNat_toNat]

lemma u64_le (x : UInt64) (q : Bytes) : u64 (le 8 x.toNat ++ q) = some (x, q) := by
  simp only [u64, bind_apply, num_le q (w := 8) x.toNat_lt, Option.bind_some, pure_apply,
    UInt64.ofNat_toNat]

lemma i64_le (x : Int64) (q : Bytes) : i64 (le 8 x.toUInt64.toNat ++ q) = some (x, q) := by
  simp only [i64, bind_apply, u64_le, Option.bind_some, pure_apply]
  rfl

lemma vec_append {v : Bytes} (q : Bytes) (h : v.length < 256 ^ 4) :
    vec (le 4 v.length ++ (v ++ q)) = some (v, q) := by
  simp only [vec, bind_apply, num_le _ h, Option.bind_some, take_append q rfl]

lemma block_append (b : Block n) (q : Bytes) : block n (b.1 ++ q) = some (b, q) := by
  obtain ⟨b, rfl⟩ := b
  simp [block]

lemma blocks_flatten (ds : List (Block n)) (q : Bytes) :
    blocks n ds.length ((ds.map Subtype.val).flatten ++ q) = some (ds, q) := by
  induction ds with
  | nil => rfl
  | cons d ds ih =>
    simp only [List.length_cons, blocks, List.map_cons, List.flatten_cons, List.append_assoc, bind_apply,
      block_append, Option.bind_some, ih, pure_apply]

section Converse

variable {α β : Type} {bs q : Bytes}

lemma bind_some {p : Reader α} {f : α → Reader β} {b : β} (h : (p >>= f) bs = some (b, q)) :
    ∃ a r, p bs = some (a, r) ∧ f a r = some (b, q) := by
  rw [bind_apply, Option.bind_eq_some_iff] at h
  obtain ⟨⟨a, r⟩, hp, hf⟩ := h
  exact ⟨a, r, hp, hf⟩

lemma pure_some {a b : α} (h : (pure a : Reader α) bs = some (b, q)) : a = b ∧ bs = q := by
  rw [pure_apply] at h
  cases h
  exact ⟨rfl, rfl⟩

lemma take_some {v : Bytes} (h : take n bs = some (v, q)) : v.length = n ∧ bs = v ++ q := by
  rw [take] at h
  split_ifs at h with hn
  cases h
  exact ⟨List.length_take_of_le hn, (List.take_append_drop n bs).symm⟩

lemma num_some {w : ℕ} (h : num w bs = some (n, q)) : n < 256 ^ w ∧ bs = le w n ++ q := by
  obtain ⟨v, r, hv, hp⟩ := bind_some h
  obtain ⟨rfl, rfl⟩ := pure_some hp
  obtain ⟨rfl, hb⟩ := take_some hv
  exact ⟨ofLe_lt v, by rw [le_ofLe, hb]⟩

lemma u8_some {b : UInt8} (h : u8 bs = some (b, q)) : bs = b :: q := by
  obtain ⟨n, r, hn, hp⟩ := bind_some h
  obtain ⟨rfl, rfl⟩ := pure_some hp
  exact (num_some hn).2

lemma u32_some {x : UInt32} (h : u32 bs = some (x, q)) : bs = le 4 x.toNat ++ q := by
  obtain ⟨n, r, hn, hp⟩ := bind_some h
  obtain ⟨rfl, rfl⟩ := pure_some hp
  obtain ⟨hlt, hb⟩ := num_some hn
  rw [UInt32.toNat_ofNat_of_lt' hlt, hb]

lemma u64_some {x : UInt64} (h : u64 bs = some (x, q)) : bs = le 8 x.toNat ++ q := by
  obtain ⟨n, r, hn, hp⟩ := bind_some h
  obtain ⟨rfl, rfl⟩ := pure_some hp
  obtain ⟨hlt, hb⟩ := num_some hn
  rw [UInt64.toNat_ofNat_of_lt' hlt, hb]

lemma i64_some {x : Int64} (h : i64 bs = some (x, q)) : bs = le 8 x.toUInt64.toNat ++ q := by
  obtain ⟨u, r, hu, hp⟩ := bind_some h
  obtain ⟨rfl, rfl⟩ := pure_some hp
  exact u64_some hu

lemma vec_some {v : Bytes} (h : vec bs = some (v, q)) :
    v.length < 256 ^ 4 ∧ bs = le 4 v.length ++ (v ++ q) := by
  obtain ⟨n, r, hn, hv⟩ := bind_some h
  obtain ⟨rfl, rfl⟩ := take_some hv
  exact num_some hn

lemma block_some {b : Block n} (h : block n bs = some (b, q)) : bs = b.1 ++ q := by
  rw [block] at h
  split_ifs at h with hn
  cases h
  exact (List.take_append_drop n bs).symm

lemma blocks_some {k : ℕ} {ds : List (Block n)} (h : blocks n k bs = some (ds, q)) :
    ds.length = k ∧ bs = (ds.map Subtype.val).flatten ++ q := by
  induction k generalizing bs ds with
  | zero =>
    obtain ⟨rfl, rfl⟩ := pure_some h
    exact ⟨rfl, rfl⟩
  | succ k ih =>
    obtain ⟨d, r, hd, h⟩ := bind_some h
    obtain ⟨ds', r', hds, hp⟩ := bind_some h
    obtain ⟨rfl, rfl⟩ := pure_some hp
    obtain ⟨hl, hr⟩ := ih hds
    refine ⟨by rw [List.length_cons, hl], ?_⟩
    rw [block_some hd, hr, List.map_cons, List.flatten_cons, List.append_assoc]

end Converse

end Reader

end Base
