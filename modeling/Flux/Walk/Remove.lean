import Flux.Walk.Truth

namespace Flux.Walk

open Base

def Folder.alter (name : Bytes) (f : Node → Option Node) : Folder → Folder
  | .nil => .nil
  | .cons n node rest =>
    if n = name then
      match f node with
      | some node => .cons n node rest
      | none => rest
    else .cons n node (rest.alter name f)

def Node.head : Node → Leaf ⊕ FileIdentity × MountRoot
  | .leaf kind => .inl kind
  | .dir identity mount _ => .inr (identity, mount)

def Node.within (g : Folder → Folder) : Node → Option Node
  | .dir identity mount sub => some (.dir identity mount (g sub))
  | .leaf kind => some (.leaf kind)

def Folder.remove : Path → Folder → Folder
  | [], folder => folder
  | [name], folder => folder.alter name fun _ => none
  | name :: next :: path, folder => folder.alter name (Node.within (Folder.remove (next :: path)))

namespace Folder

variable {name n : Bytes} {f : Node → Option Node}

lemma find_alter_of_ne (hn : n ≠ name) (folder : Folder) : (folder.alter name f).find n = folder.find n := by
  induction folder using entries_induction with
  | nil => rfl
  | cons m node rest ih =>
    rw [alter]
    by_cases hm : m = name
    · rw [if_pos hm, find, if_neg (hm ▸ hn.symm)]
      cases f node with
      | none => rfl
      | some node => rw [find, if_neg (hm ▸ hn.symm)]
    · rw [if_neg hm, find, find, ih]

lemma find_eq_none_of_lt : ∀ {folder : Folder}, (∀ item ∈ folder.items, name < item.1) → folder.find name = none
  | .nil, _ => rfl
  | .cons m node rest, h => by
    rw [items, List.forall_mem_cons] at h
    rw [find, if_neg h.1.ne', find_eq_none_of_lt h.2]

variable {folder : Folder}

lemma find_alter (h : folder.WellFormed) : (folder.alter name f).find name = (folder.find name).bind f := by
  induction folder using entries_induction with
  | nil => rfl
  | cons m node rest ih =>
    rw [alter, find]
    by_cases hm : m = name
    · rw [if_pos hm, if_pos hm, Option.bind_some]
      cases f node with
      | none =>
        subst hm
        exact find_eq_none_of_lt h.2.1
      | some node => rw [find, if_pos hm]
    · rw [if_neg hm, if_neg hm, find, if_neg hm, ih h.2.2.2]

lemma items_alter {item : Bytes × FileType}
    (hf : ∀ node node', f node = some node' → node'.fileType = node.fileType) :
    ∀ {folder : Folder}, item ∈ (folder.alter name f).items → item ∈ folder.items
  | .nil, h => h
  | .cons m node rest, h => by
    rw [alter] at h
    split at h
    · split at h
      · rename_i node' hn
        rw [items, hf _ _ hn] at h
        exact h
      · exact List.mem_cons_of_mem _ h
    · rw [items, List.mem_cons] at h
      rw [items, List.mem_cons]
      exact h.imp_right (items_alter hf)

lemma alter_wellFormed (hf : ∀ node node', f node = some node' → node'.fileType = node.fileType)
    (hw : ∀ node node', node.WellFormed → f node = some node' → node'.WellFormed) :
    ∀ {folder : Folder}, folder.WellFormed → (folder.alter name f).WellFormed := by
  intro folder h
  induction folder using entries_induction with
  | nil => exact h
  | cons m node rest ih =>
    obtain ⟨hm, hlt, hnode, hrest⟩ := h
    rw [alter]
    split
    · split
      · rename_i node' hn
        exact ⟨hm, hlt, hw _ _ hnode hn, hrest⟩
      · exact hrest
    · exact ⟨hm, fun item hi => hlt item (items_alter hf hi), hnode, ih hrest⟩

lemma remove_wellFormed (path : Path) :
    ∀ {folder : Folder}, folder.WellFormed → (folder.remove path).WellFormed := by
  induction path with
  | nil => exact fun h => h
  | cons name path ih =>
    intro folder h
    cases path with
    | nil => exact alter_wellFormed (fun _ _ hn => by cases hn) (fun _ _ _ hn => by cases hn) h
    | cons next path =>
      refine alter_wellFormed ?_ ?_ h
      · rintro (kind | ⟨identity, mount, sub⟩) node' hn <;> cases hn <;> rfl
      · rintro (kind | ⟨identity, mount, sub⟩) node' hw hn <;> cases hn
        · exact hw
        · exact ih hw

lemma at_congr {folder' : Folder} {m : Bytes} {q : Path} (h : folder.find m = folder'.find m) :
    folder.at (m :: q) = folder'.at (m :: q) := by
  cases q with
  | nil => exact h
  | cons next q => rw [Folder.at, Folder.at, h]

lemma at_of_at_remove {path q : Path} {kind : Leaf} (hf : folder.WellFormed) (hp : path ≠ [])
    (h : (folder.remove path).at q = some (.leaf kind)) : folder.at q = some (.leaf kind) ∧ q ≠ path := by
  induction path generalizing q folder with
  | nil => exact absurd rfl hp
  | cons name path ih =>
    cases q with
    | nil =>
      rw [Folder.at] at h
      cases h
    | cons m q =>
      by_cases hm : m = name
      · subst hm
        cases path with
        | nil =>
          have hnone : (folder.remove [m]).find m = none := by
            rw [remove, find_alter hf]
            cases folder.find m <;> rfl
          obtain ⟨-, hfind⟩ | ⟨_, _, _, -, hfind, -⟩ := find_of_at h <;> cases hnone.symm.trans hfind
        | cons next path =>
          obtain ⟨rfl, hfind⟩ | ⟨identity, mount, sub, hq, hfind, hsub⟩ := find_of_at h
          · rw [remove, find_alter hf] at hfind
            obtain ⟨node, hnode, hkept⟩ := Option.bind_eq_some_iff.mp hfind
            cases node <;> cases hkept
            exact ⟨hnode, by simp⟩
          · rw [remove, find_alter hf] at hfind
            obtain ⟨node, hnode, hkept⟩ := Option.bind_eq_some_iff.mp hfind
            cases node with
            | leaf kind => cases hkept
            | dir identity' mount' sub' =>
              cases hkept
              obtain ⟨hat, hne⟩ := ih (wellFormed_of_mem hf (find_mem hnode)).2 (by simp) hsub
              exact ⟨by rw [at_cons hnode hq, hat], by simpa using hne⟩
      · have hfind : (folder.remove (name :: path)).find m = folder.find m := by
          cases path <;> exact find_alter_of_ne hm folder
        rw [at_congr hfind] at h
        exact ⟨h, fun he => hm (List.cons.inj he).1⟩

end Folder

end Flux.Walk
