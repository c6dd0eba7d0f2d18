import Flux.Scratch.Store

namespace Flux.Scratch

open Base Spill

lemma be_length (w n : ℕ) : (be w n).length = w := by simp [be]

lemma be_inj {w n m : ℕ} (hn : n < 256 ^ w) (hm : m < 256 ^ w) (h : be w n = be w m) : n = m := by
  have := congrArg ofLe (List.reverse_injective h)
  rwa [ofLe_le hn, ofLe_le hm] at this

lemma append_inj_be {w n m : ℕ} {a b : Bytes} (hn : n < 256 ^ w) (hm : m < 256 ^ w)
    (h : be w n ++ a = be w m ++ b) : n = m ∧ a = b := by
  obtain ⟨h1, h2⟩ := List.append_inj h (by rw [be_length, be_length])
  exact ⟨be_inj hn hm h1, h2⟩

lemma volume_lt (id : ObjectId) : id.volume.toNat < 256 ^ 8 := id.volume.toNat_lt

lemma index_lt (id : ObjectId) : id.index.toNat < 256 ^ 16 := id.index.isLt

lemma idBytes_length (id : ObjectId) : (idBytes id).length = 24 := by
  rw [idBytes, List.length_append, be_length, be_length]

lemma idBytes_append_inj {id id' : ObjectId} {a b : Bytes} (h : idBytes id ++ a = idBytes id' ++ b) :
    id = id' ∧ a = b := by
  rw [idBytes, idBytes, List.append_assoc, List.append_assoc] at h
  obtain ⟨hv, h⟩ := append_inj_be (volume_lt id) (volume_lt id') h
  obtain ⟨hi, h⟩ := append_inj_be (index_lt id) (index_lt id') h
  refine ⟨?_, h⟩
  cases id
  cases id'
  exact congrArg₂ ObjectId.mk (UInt64.toNat_inj.mp hv) (BitVec.toNat_inj.mp hi)

namespace DirKey

lemma prefixBytes_length (d : DirKey) : d.prefixBytes.length = 25 := by
  cases d <;> simp [prefixBytes, be_length]

lemma prefixBytes_append_inj {d d' : DirKey} {a b : Bytes} (h : d.prefixBytes ++ a = d'.prefixBytes ++ b) :
    d = d' ∧ a = b := by
  cases d with
  | strong id =>
    cases d' with
    | strong id' =>
      have h' : idBytes id ++ a = idBytes id' ++ b := List.tail_eq_of_cons_eq h
      obtain ⟨rfl, rfl⟩ := idBytes_append_inj h'
      exact ⟨rfl, rfl⟩
    | ordinal n => exact absurd (List.head_eq_of_cons_eq h) (by decide)
  | ordinal n =>
    cases d' with
    | strong id => exact absurd (List.head_eq_of_cons_eq h) (by decide)
    | ordinal n' =>
      have h' := List.tail_eq_of_cons_eq h
      rw [List.append_eq, List.append_eq, List.append_assoc, List.append_assoc] at h'
      obtain ⟨hn, rfl⟩ := append_inj_be n.toNat_lt n'.toNat_lt (List.append_cancel_left h')
      rw [UInt64.toNat_inj.mp hn]
      exact ⟨rfl, rfl⟩

lemma exists_ne_max (d : DirKey) : ∃ b ∈ d.prefixBytes, b ≠ 0xFF := by
  cases d with
  | strong id => exact ⟨0, List.mem_cons_self, by decide⟩
  | ordinal n => exact ⟨1, List.mem_cons_self, by decide⟩

lemma increment_ok (d : DirKey) (rest : Bytes) : (increment (d.prefixBytes ++ rest)).2 = true := by
  refine Bool.not_eq_false _ |>.mp fun h => ?_
  obtain ⟨b, hb, hne⟩ := d.exists_ne_max
  exact hne (increment_snd.mp h b (List.mem_append_left _ hb))

end DirKey

lemma rowKey_injective : Function.Injective fun i : DirKey × Bytes => rowKey i.1 i.2 := by
  rintro ⟨d, n⟩ ⟨d', n'⟩ h
  obtain ⟨rfl, rfl⟩ := DirKey.prefixBytes_append_inj h
  rfl

lemma idsKey_injective : Function.Injective fun i : DirKey × ObjectId × Bytes => idsKey i.1 i.2.1 i.2.2 := by
  rintro ⟨d, id, n⟩ ⟨d', id', n'⟩ h
  simp only [idsKey, List.append_assoc] at h
  obtain ⟨rfl, hids⟩ := DirKey.prefixBytes_append_inj h
  obtain ⟨rfl, rfl⟩ := idBytes_append_inj hids
  rfl

lemma between_bounds_iff (d d' : DirKey) (rest : Bytes) :
    d.bounds.1 ≤ d'.prefixBytes ++ rest ∧ d'.prefixBytes ++ rest < d.bounds.2 ↔ d' = d := by
  have hok := d.increment_ok []
  rw [List.append_nil] at hok
  have hlen : d.prefixBytes.length ≤ (d'.prefixBytes ++ rest).length := by
    rw [List.length_append, d.prefixBytes_length, d'.prefixBytes_length]
    omega
  rw [DirKey.bounds, between_iff_isPrefix hok hlen]
  constructor
  · rintro ⟨t, ht⟩
    exact (DirKey.prefixBytes_append_inj ht).1.symm
  · rintro rfl
    exact List.prefix_append _ _

lemma between_ids_iff (d d' : DirKey) (id id' : ObjectId) (name : Bytes) :
    d.prefixBytes ++ idBytes id ≤ idsKey d' id' name ∧
    idsKey d' id' name < (increment (d.prefixBytes ++ idBytes id)).1 ↔ d' = d ∧ id' = id := by
  have hlen : (d.prefixBytes ++ idBytes id).length ≤ (idsKey d' id' name).length := by
    simp only [idsKey, List.length_append, DirKey.prefixBytes_length, idBytes_length]
    omega
  rw [between_iff_isPrefix (d.increment_ok _) hlen]
  constructor
  · rintro ⟨t, ht⟩
    simp only [idsKey, List.append_assoc] at ht
    obtain ⟨rfl, hids⟩ := DirKey.prefixBytes_append_inj ht
    exact ⟨rfl, (idBytes_append_inj hids).1.symm⟩
  · rintro ⟨rfl, rfl⟩
    exact List.prefix_append _ _

end Flux.Scratch
