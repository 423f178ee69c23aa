import Mathlib.Tactic.Common
import Sortie.Catalog

/-! Catalogs as lists of entries and as lookups by name. -/
namespace Sortie.Catalog
variable {α β : Type}

lemma get?_eq_none_iff (c : Catalog α) (name : String) : c.get? name = none ↔ name ∉ c.keys := by
  unfold get? keys
  rw [List.lookup_eq_none_iff]
  simp only [List.mem_map, not_exists, not_and, bne_iff_ne, Ne]
  constructor
  · intro h e he hn
    exact h e he hn.symm
  · intro h e he hn
    exact h e he hn.symm

/-- As names are distinct, the value found under a name is the only one listed under it. -/
lemma get?_eq_some_iff (c : Catalog α) (name : String) (value : α) :
    c.get? name = some value ↔ (name, value) ∈ c.entries := by
  obtain ⟨entries, hnodup⟩ := c
  change entries.lookup name = some value ↔ (name, value) ∈ entries
  induction entries with
  | nil => simp
  | cons e rest ih =>
    obtain ⟨n, v⟩ := e
    rw [List.map_cons, List.nodup_cons] at hnodup
    rw [List.lookup_cons, List.mem_cons]
    by_cases hn : name = n
    · subst hn
      have hv : (name, value) ∉ rest := by
        intro hm
        exact hnodup.1 (List.mem_map.2 ⟨_, hm, rfl⟩)
      simp [hv, eq_comm]
    · simp [hn, beq_eq_false_iff_ne.2 hn, ih hnodup.2]

lemma contains_iff (c : Catalog α) (name : String) : c.contains name = true ↔ name ∈ c.keys :=
  List.contains_iff_mem

lemma entries_insert_of_new (c : Catalog α) {name : String} (value : α) (h : name ∉ c.keys) :
    (c.insert name value).entries = c.entries ++ [(name, value)] := by
  change name ∉ c.entries.map Prod.fst at h
  change insertEntry name value c.entries = c.entries ++ [(name, value)]
  revert h
  induction c.entries with
  | nil => intro _; rfl
  | cons e rest ih =>
    obtain ⟨n, v⟩ := e
    intro h
    rw [List.map_cons, List.mem_cons, not_or] at h
    rw [insertEntry, if_neg (Ne.symm h.1), ih h.2]
    rfl

@[simp] lemma entries_map (c : Catalog α) (f : String → α → β) :
    (c.map f).entries = c.entries.map fun e => (e.1, f e.1 e.2) := rfl

@[simp] lemma keys_map_eq (c : Catalog α) (f : String → α → β) : (c.map f).keys = c.keys :=
  keys_map f c.entries

lemma get?_map (c : Catalog α) (f : String → α → β) (name : String) :
    (c.map f).get? name = (c.get? name).map (f name) := by
  change (c.entries.map fun e => (e.1, f e.1 e.2)).lookup name = (c.entries.lookup name).map (f name)
  induction c.entries with
  | nil => rfl
  | cons e rest ih =>
    obtain ⟨n, v⟩ := e
    rw [List.map_cons, List.lookup_cons, List.lookup_cons, ih]
    by_cases h : name = n
    · simp [h]
    · simp [beq_eq_false_iff_ne.2 h]

lemma contains_map (c : Catalog α) (f : String → α → β) (name : String) :
    (c.map f).contains name = c.contains name := by
  unfold contains
  rw [keys_map_eq]

lemma map_insert (c : Catalog α) (f : String → α → β) (name : String) (value : α) :
    (c.insert name value).map f = (c.map f).insert name (f name value) := by
  apply ext_entries
  change (insertEntry name value c.entries).map _ = insertEntry name (f name value) (c.entries.map _)
  induction c.entries with
  | nil => rfl
  | cons e rest ih =>
    obtain ⟨n, v⟩ := e
    rw [List.map_cons, insertEntry, insertEntry]
    by_cases h : n = name
    · subst h
      simp
    · rw [if_neg h, if_neg h, List.map_cons, ih]

lemma map_modify (c : Catalog α) (f : String → α → β) (name : String) {u : α → α} {v : β → β}
    (h : ∀ n a, f n (u a) = v (f n a)) : (c.modify name u).map f = (c.map f).modify name v := by
  apply ext_entries
  simp only [modify, entries_map, List.map_map]
  refine List.map_congr_left fun e _ => ?_
  by_cases he : e.1 = name
  · simp [he, h]
  · simp [he]

@[simp] lemma keys_modify (c : Catalog α) (name : String) (f : α → α) :
    (c.modify name f).keys = c.keys := keys_map_eq c _

lemma get?_modify (c : Catalog α) (name n : String) (f : α → α) :
    (c.modify name f).get? n = (c.get? n).map fun v => if n = name then f v else v := get?_map c _ n

section Updates
variable {σ : Type} {key : σ → String} {f : σ → α → α}

lemma keys_foldl_modify (ss : List σ) (c : Catalog α) :
    (ss.foldl (fun c s => c.modify (key s) (f s)) c).keys = c.keys := by
  induction ss generalizing c with
  | nil => rfl
  | cons s ss ih => rw [List.foldl_cons, ih, keys_modify]

/-- A name that none of the updates is for keeps its value. -/
lemma get?_foldl_modify_of_notMem {ss : List σ} {name : String} (h : name ∉ ss.map key)
    (c : Catalog α) :
    (ss.foldl (fun c s => c.modify (key s) (f s)) c).get? name = c.get? name := by
  induction ss generalizing c with
  | nil => rfl
  | cons s ss ih =>
    rw [List.map_cons, List.mem_cons, not_or] at h
    rw [List.foldl_cons, ih h.2, get?_modify]
    simp [h.1]

/-- Where updates are for distinct names, each of them is made once. -/
lemma get?_foldl_modify {ss : List σ} (hss : (ss.map key).Nodup) {s : σ} (hs : s ∈ ss)
    (c : Catalog α) :
    (ss.foldl (fun c s => c.modify (key s) (f s)) c).get? (key s) = (c.get? (key s)).map (f s) := by
  induction ss generalizing c with
  | nil => cases hs
  | cons t ss ih =>
    rw [List.map_cons, List.nodup_cons] at hss
    rw [List.foldl_cons]
    rcases List.mem_cons.1 hs with rfl | hs
    · rw [get?_foldl_modify_of_notMem hss.1, get?_modify]
      simp
    · have hne : key s ≠ key t := by
        intro heq
        exact hss.1 (heq ▸ List.mem_map_of_mem hs)
      rw [ih hss.2 hs, get?_modify]
      simp [hne]

end Updates

/-- A list with distinct names is listed as it is. -/
lemma entries_ofList {entries : List (String × α)} (h : (entries.map Prod.fst).Nodup) :
    (ofList entries).entries = entries := by
  have hrun : ∀ (rest : List (String × α)) (c : Catalog α),
      ((c.entries ++ rest).map Prod.fst).Nodup →
        (rest.foldl (fun c e => c.insert e.1 e.2) c).entries = c.entries ++ rest := by
    intro rest
    induction rest with
    | nil => simp
    | cons e rest ih =>
      intro c hnodup
      have hnew : e.1 ∉ c.keys := by
        rw [List.map_append, List.map_cons, List.nodup_append] at hnodup
        intro hmem
        exact hnodup.2.2 _ hmem _ List.mem_cons_self rfl
      have hinsert := c.entries_insert_of_new e.2 hnew
      rw [List.foldl_cons, ih, hinsert]
      · simp
      · rw [hinsert]
        simpa using hnodup
  exact hrun entries empty h

end Sortie.Catalog
