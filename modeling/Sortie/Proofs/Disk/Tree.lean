import Mathlib.Data.List.Infix
import Sortie.Disk
import Sortie.Proofs.Disk.Path

/-! Disks as trees. The place that a path names is read off the path; the disk decides whether the
folders on the way are there. What each operation does is then said by places. -/
namespace Sortie.Disk
variable {d d' : Disk} {p q : Path} {a b : Place} {n : String} {ns ms : List String} {e : Item}

/-- Whatever is present lies in a folder. -/
def IsTree (d : Disk) : Prop := ∀ a n, (d.get? (a ++ [n])).isSome → d.get? a = some .folder

lemma get?_nil : d.get? [] = some .folder := rfl

/-- Everything around what is present is a folder. -/
lemma IsTree.folder_of_append (h : d.IsTree) {t : Place} (hb : (d.get? (a ++ t)).isSome)
    (ht : t ≠ []) : d.get? a = some .folder := by
  induction t using List.reverseRecOn with
  | nil => exact absurd rfl ht
  | append_singleton t n ih =>
    rw [← List.append_assoc] at hb
    have hfolder := h _ _ hb
    by_cases hnil : t = []
    · simpa [hnil] using hfolder
    · exact ih (by rw [hfolder]; rfl) hnil

lemma IsTree.folder_above (h : d.IsTree) (hab : a <+: b) (hb : d.get? b = some .folder) :
    d.get? a = some .folder := by
  obtain ⟨t, rfl⟩ := hab
  by_cases ht : t = []
  · simpa [ht] using hb
  · exact h.folder_of_append (by rw [hb]; rfl) ht

lemma IsTree.folder_dropLast (h : d.IsTree) (ha : d.get? a = some .folder) :
    d.get? a.dropLast = some .folder := by
  by_cases hnil : a = []
  · simp [hnil, get?_nil]
  · exact h.folder_above ⟨_, List.dropLast_append_getLast hnil⟩ ha

/-- Nothing lies below a place where there is nothing. -/
lemma IsTree.eq_none_below (h : d.IsTree) (ha : d.get? a = none) (hab : a <+: b) :
    d.get? b = none := by
  obtain ⟨t, rfl⟩ := hab
  by_contra hb
  by_cases ht : t = []
  · exact hb (by simpa [ht] using ha)
  · rw [h.folder_of_append (Option.isSome_iff_ne_none.2 hb) ht] at ha
    cases ha

/-! ### Ways through a disk -/

/-- One name further on a way, as it is written. -/
def descend (a : Place) (n : String) : Place :=
  if n = "." then a else if n = ".." then a.dropLast else a ++ [n]

/-- The folders on a way are there, and its names are short enough. -/
def Walks (d : Disk) : Place → List String → Prop
  | _, [] => True
  | a, n :: ns => d.get? a = some .folder ∧ n.utf8ByteSize ≤ 255 ∧ d.Walks (descend a n) ns

lemma requireFolder_eq_ok_iff : d.requireFolder a = .ok () ↔ d.get? a = some .folder := by
  unfold requireFolder
  rcases d.get? a with _ | _ | _ <;> simp

lemma enter_eq_ok_iff : d.enter a n = .ok b ↔
    d.get? a = some .folder ∧ n.utf8ByteSize ≤ 255 ∧ b = descend a n := by
  unfold enter descend
  rw [← requireFolder_eq_ok_iff]
  cases d.requireFolder a with
  | error fault => simp [bind, Except.bind]
  | ok u =>
    by_cases hsize : 255 < n.utf8ByteSize
    · simp [bind, Except.bind, hsize, Nat.not_le.2 hsize]
    · simp [bind, Except.bind, pure, Except.pure, hsize, eq_comm, Nat.le_of_not_lt hsize]

lemma foldlM_enter_eq_ok_iff :
    ns.foldlM d.enter a = .ok b ↔ d.Walks a ns ∧ b = ns.foldl descend a := by
  induction ns generalizing a with
  | nil => simp [Walks, pure, Except.pure, eq_comm]
  | cons n ns ih =>
    rw [List.foldlM_cons, Walks, List.foldl_cons]
    cases henter : d.enter a n with
    | error fault =>
      have hnot : ¬ (d.get? a = some .folder ∧ n.utf8ByteSize ≤ 255) := by
        intro h
        rw [enter_eq_ok_iff.2 ⟨h.1, h.2, rfl⟩] at henter
        cases henter
      simp only [bind, Except.bind]
      constructor
      · simp
      · rintro ⟨⟨hfolder, hsize, -⟩, -⟩
        exact absurd ⟨hfolder, hsize⟩ hnot
    | ok c =>
      obtain ⟨hfolder, hsize, rfl⟩ := enter_eq_ok_iff.1 henter
      simp only [bind, Except.bind]
      rw [ih]
      simp [hfolder, hsize]

lemma walks_append : d.Walks a (ns ++ ms) ↔ d.Walks a ns ∧ d.Walks (ns.foldl descend a) ms := by
  induction ns generalizing a with
  | nil => simp [Walks]
  | cons n ns ih => simp [Walks, ih, and_assoc]

lemma Walks.mono (h : ∀ b, d.get? b = some .folder → d'.get? b = some .folder)
    (hw : d.Walks a ns) : d'.Walks a ns := by
  induction ns generalizing a with
  | nil => trivial
  | cons n ns ih => exact ⟨h _ hw.1, hw.2.1, ih hw.2.2⟩

/-- Without steps out of folders, a way goes down by the names that are not dots. -/
lemma foldl_descend (h : ".." ∉ ns) : ns.foldl descend a = a ++ ns.filter (· ≠ ".") := by
  induction ns generalizing a with
  | nil => simp
  | cons n ns ih =>
    rw [List.mem_cons, not_or] at h
    rw [List.foldl_cons, ih h.2]
    by_cases hdot : n = "."
    · simp [descend, hdot]
    · simp [descend, hdot, Ne.symm h.1]

lemma foldl_descend_filter : (ns.filter (· ≠ ".")).foldl descend a = ns.foldl descend a := by
  induction ns generalizing a with
  | nil => rfl
  | cons n ns ih =>
    by_cases hdot : n = "."
    · simpa [descend, hdot] using ih
    · simpa [hdot] using ih

lemma Walks.filter (hw : d.Walks a ns) : d.Walks a (ns.filter (· ≠ ".")) := by
  induction ns generalizing a with
  | nil => trivial
  | cons n ns ih =>
    by_cases hdot : n = "."
    · simpa [hdot, descend] using ih hw.2.2
    · rw [List.filter_cons_of_pos (by simpa using hdot)]
      exact ⟨hw.1, hw.2.1, ih hw.2.2⟩

/-- Dots need nothing more than a folder at the end of the way. -/
lemma Walks.of_filter (hw : d.Walks a (ns.filter (· ≠ ".")))
    (hlast : d.get? (ns.foldl descend a) = some .folder) : d.Walks a ns := by
  induction ns generalizing a with
  | nil => trivial
  | cons n ns ih =>
    by_cases hdot : n = "."
    · subst hdot
      have hrest : d.Walks a (ns.filter (· ≠ ".")) := by simpa using hw
      have hns : d.Walks a ns := ih hrest (by simpa [descend] using hlast)
      refine ⟨?_, by decide, by simpa [descend] using hns⟩
      cases ns with
      | nil => simpa [descend] using hlast
      | cons m ms => exact hns.1
    · have hw : d.Walks a (n :: ns.filter (· ≠ ".")) := by simpa [hdot] using hw
      exact ⟨hw.1, hw.2.1, ih hw.2.2 hlast⟩

/-- A way down to a folder of a tree can be walked there if it can be walked on some disk. -/
lemma Walks.of_isTree (htree : d.IsTree) (hdown : ".." ∉ ns) (hw : d'.Walks a ns)
    (hlast : d.get? (ns.foldl descend a) = some .folder) : d.Walks a ns := by
  induction ns generalizing a with
  | nil => trivial
  | cons n ns ih =>
    refine ⟨?_, hw.2.1, ih (fun h => hdown (List.mem_cons_of_mem _ h)) hw.2.2 hlast⟩
    apply htree.folder_above _ hlast
    rw [foldl_descend hdown]
    exact List.prefix_append a _

/-! ### Paths on a disk -/

/-- Where a path starts. -/
def base (d : Disk) (p : Path) : Place := if p.isAbsolute then [] else d.here

/-- The place that a path names, read off the path. -/
def placeOf (d : Disk) (p : Path) : Place := p.pieces.foldl descend (d.base p)

/-- The disk can follow a path. -/
structure Reaches (d : Disk) (p : Path) : Prop where
  fits : p.Fits
  walks : d.Walks (d.base p) p.pieces

lemma start_eq_ok_iff : d.start p = .ok a ↔ p.Fits ∧ a = d.base p := by
  unfold start base
  constructor
  · intro h
    split at h
    · cases h
    · split at h
      · cases h
      · split at h
        · cases h
        · rename_i hnull hempty hsize
          injection h with h
          exact ⟨⟨by simpa using hnull, hempty, by omega⟩, h.symm⟩
  · rintro ⟨⟨hnull, hempty, hsize⟩, rfl⟩
    simp [hnull, hempty, Nat.not_le.2 hsize]

lemma resolve_eq_ok_iff : d.resolve p = .ok a ↔ d.Reaches p ∧ a = d.placeOf p := by
  unfold resolve
  cases hstart : d.start p with
  | error fault =>
    have hfits : ¬ p.Fits := by
      intro h
      rw [start_eq_ok_iff.2 ⟨h, rfl⟩] at hstart
      cases hstart
    simp only [bind, Except.bind]
    constructor
    · simp
    · rintro ⟨h, -⟩
      exact absurd h.fits hfits
  | ok c =>
    obtain ⟨hfits, rfl⟩ := start_eq_ok_iff.1 hstart
    simp only [bind, Except.bind]
    rw [foldlM_enter_eq_ok_iff]
    constructor
    · rintro ⟨hw, rfl⟩
      exact ⟨⟨hfits, hw⟩, rfl⟩
    · rintro ⟨h, rfl⟩
      exact ⟨h.walks, rfl⟩

lemma Reaches.resolve (h : d.Reaches p) : d.resolve p = .ok (d.placeOf p) :=
  resolve_eq_ok_iff.2 ⟨h, rfl⟩

lemma base_eq_of_here (hhere : d'.here = d.here) : d'.base p = d.base p := by
  simp [base, hhere]

lemma placeOf_eq_of_here (hhere : d'.here = d.here) : d'.placeOf p = d.placeOf p := by
  simp [placeOf, base_eq_of_here hhere]

lemma Reaches.mono (hhere : d'.here = d.here)
    (hfolders : ∀ b, d.get? b = some .folder → d'.get? b = some .folder) (h : d.Reaches p) :
    d'.Reaches p := by
  refine ⟨h.fits, ?_⟩
  rw [base_eq_of_here hhere]
  exact h.walks.mono hfolders

lemma base_join (hq : q.isAbsolute = false) : d.base (p.join q) = d.base p := by
  unfold base
  rw [Path.isAbsolute_join hq]

lemma placeOf_join (hq : q.isAbsolute = false) :
    d.placeOf (p.join q) = q.pieces.foldl descend (d.placeOf p) := by
  unfold placeOf
  rw [base_join hq, Path.pieces_join hq, List.foldl_append]

lemma placeOf_join_name (hn : Path.IsName n) : d.placeOf (p.join n) = d.placeOf p ++ [n] := by
  rw [placeOf_join hn.isAbsolute, hn.pieces]
  simp [descend, hn.ne_dot, hn.ne_dots]

lemma reaches_join_iff (hq : q.isAbsolute = false) : d.Reaches (p.join q) ↔
    (p.join q).Fits ∧ d.Walks (d.base p) p.pieces ∧ d.Walks (d.placeOf p) q.pieces := by
  have hwalks : d.Walks (d.base (p.join q)) (p.join q).pieces ↔
      d.Walks (d.base p) p.pieces ∧ d.Walks (d.placeOf p) q.pieces := by
    rw [base_join hq, Path.pieces_join hq, walks_append]
    rfl
  constructor
  · intro h
    exact ⟨h.fits, hwalks.1 h.walks⟩
  · rintro ⟨hfits, hw⟩
    exact ⟨hfits, hwalks.2 hw⟩

lemma reaches_join_name_iff (hn : Path.IsName n) : d.Reaches (p.join n) ↔
    (p.join n).Fits ∧ d.Walks (d.base p) p.pieces ∧ d.get? (d.placeOf p) = some .folder ∧
      n.utf8ByteSize ≤ 255 := by
  rw [reaches_join_iff hn.isAbsolute, hn.pieces]
  simp [Walks]

/-- The last name of a path to a place that is no folder, and the folder around it. -/
lemma Reaches.exists_parent (htree : d.IsTree) (h : d.Reaches p)
    (hplace : d.get? (d.placeOf p) ≠ some .folder) :
    ∃ a n, d.placeOf p = a ++ [n] ∧ p.lastName? = some n ∧ d.get? a = some .folder := by
  have hpieces : p.pieces ≠ [] := by
    intro hnil
    apply hplace
    by_cases habsolute : p.isAbsolute = true
    · simp [placeOf, base, hnil, habsolute, get?_nil]
    · rw [Bool.not_eq_true] at habsolute
      exact absurd hnil (Path.pieces_ne_nil habsolute h.fits.ne_empty)
  obtain ⟨ns, n, hsplit⟩ := List.eq_nil_or_concat'  p.pieces |>.resolve_left hpieces
  have hw := h.walks
  rw [hsplit, walks_append] at hw
  obtain ⟨-, hfolder, -⟩ := hw
  have hplaceOf : d.placeOf p = descend (ns.foldl descend (d.base p)) n := by
    simp [placeOf, hsplit]
  rw [hplaceOf] at hplace ⊢
  by_cases hdot : n = "."
  · exact absurd (by simpa [descend, hdot] using hfolder) hplace
  by_cases hdots : n = ".."
  · refine absurd ?_ hplace
    simpa [descend, hdots] using htree.folder_dropLast hfolder
  refine ⟨ns.foldl descend (d.base p), n, by simp [descend, hdot, hdots], ?_, hfolder⟩
  simp [Path.lastName?, hsplit, hdot, hdots]

end Sortie.Disk
