/-! Values listed under distinct names, in the order in which the names were first entered. -/
namespace Sortie

/-- The entries of a catalog keep the order of first entry, and no name occurs twice. -/
structure Catalog (α : Type) where
  entries : List (String × α)
  nodup : (entries.map Prod.fst).Nodup

namespace Catalog
variable {α : Type}

theorem ext_entries {c d : Catalog α} (h : c.entries = d.entries) : c = d := by
  cases c; cases d; cases h; rfl

def empty : Catalog α := ⟨[], List.nodup_nil⟩

instance : Inhabited (Catalog α) := ⟨empty⟩

def keys (c : Catalog α) : List String := c.entries.map Prod.fst

def values (c : Catalog α) : List α := c.entries.map Prod.snd

def size (c : Catalog α) : Nat := c.entries.length

def isEmpty (c : Catalog α) : Bool := c.entries.isEmpty

def get? (c : Catalog α) (name : String) : Option α := c.entries.lookup name

def contains (c : Catalog α) (name : String) : Bool := c.keys.contains name

/-- A name that is present keeps its place and takes the new value; a new name goes last. -/
def insertEntry (name : String) (value : α) : List (String × α) → List (String × α)
  | [] => [(name, value)]
  | (n, v) :: rest => if n = name then (n, value) :: rest else (n, v) :: insertEntry name value rest

theorem mem_keys_insertEntry {name n : String} {value : α} {entries : List (String × α)} :
    n ∈ (insertEntry name value entries).map Prod.fst ↔ n = name ∨ n ∈ entries.map Prod.fst := by
  induction entries with
  | nil => simp [insertEntry]
  | cons e rest ih =>
    obtain ⟨m, v⟩ := e
    by_cases h : m = name
    · subst h; simp [insertEntry]
    · simp only [insertEntry, h, if_false, List.map_cons, List.mem_cons, ih]
      exact or_left_comm

theorem nodup_insertEntry {name : String} {value : α} {entries : List (String × α)}
    (h : (entries.map Prod.fst).Nodup) : ((insertEntry name value entries).map Prod.fst).Nodup := by
  induction entries with
  | nil => simp [insertEntry]
  | cons e rest ih =>
    obtain ⟨m, v⟩ := e
    rw [List.map_cons, List.nodup_cons] at h
    by_cases hm : m = name
    · rw [insertEntry, if_pos hm, List.map_cons, List.nodup_cons]; exact h
    · simp only [insertEntry, hm, if_false, List.map_cons, List.nodup_cons]
      refine ⟨fun hmem => ?_, ih h.2⟩
      rcases mem_keys_insertEntry.1 hmem with hn | hn
      · exact hm hn
      · exact h.1 hn

def insert (c : Catalog α) (name : String) (value : α) : Catalog α :=
  ⟨insertEntry name value c.entries, nodup_insertEntry c.nodup⟩

theorem lookup_insertEntry {name n : String} {value : α} {entries : List (String × α)} :
    (insertEntry name value entries).lookup n =
      if n = name then some value else entries.lookup n := by
  induction entries with
  | nil =>
    by_cases h : n = name
    · subst h; simp [insertEntry]
    · simp [insertEntry, List.lookup_cons, h, beq_eq_false_iff_ne.2 h]
  | cons e rest ih =>
    obtain ⟨m, v⟩ := e
    by_cases hm : m = name
    · subst hm
      by_cases h : n = m
      · subst h; simp [insertEntry]
      · simp [insertEntry, List.lookup_cons, h, beq_eq_false_iff_ne.2 h]
    · rw [insertEntry, if_neg hm, List.lookup_cons, List.lookup_cons, ih]
      by_cases h : n = m
      · subst h; simp [hm]
      · simp [beq_eq_false_iff_ne.2 h]

theorem get?_insert (c : Catalog α) (name n : String) (value : α) :
    (c.insert name value).get? n = if n = name then some value else c.get? n :=
  lookup_insertEntry

def ofList (entries : List (String × α)) : Catalog α :=
  entries.foldl (fun c e => c.insert e.1 e.2) empty

theorem keys_map {β : Type} (f : String → α → β) (entries : List (String × α)) :
    (entries.map fun e => (e.1, f e.1 e.2)).map Prod.fst = entries.map Prod.fst := by
  simp [List.map_map, Function.comp_def]

/-- Replaces every value and leaves the names alone. -/
def map {β : Type} (c : Catalog α) (f : String → α → β) : Catalog β :=
  ⟨c.entries.map fun e => (e.1, f e.1 e.2), by rw [keys_map]; exact c.nodup⟩

/-- Changes the value listed under one name. -/
def modify (c : Catalog α) (name : String) (f : α → α) : Catalog α :=
  c.map fun n v => if n = name then f v else v

end Catalog
end Sortie
