import Sortie.Disk.Path
import Sortie.Proofs.Text.Split

/-! What the names of a path are when paths are joined, and when they are written from names. -/
namespace Sortie

namespace Path
variable {p q : Path} {n : String} {ns : List String}

@[simp] lemma pieces_empty : pieces "" = [] := rfl

lemma pieces_append_slash (p q : String) : pieces (p ++ "/" ++ q) = pieces p ++ pieces q := by
  unfold pieces Text.splitAt
  rw [String.toList_append, String.toList_append, List.append_assoc]
  change List.filter _ (List.map _ (Text.splitAtChars '/' (p.toList ++ '/' :: q.toList))) = _
  rw [Text.splitAtChars_append_cons, List.map_append, List.filter_append]

/-- A text without slashes is one name. -/
lemma pieces_of_notMem (hn : n ≠ "") (hslash : '/' ∉ n.toList) : pieces n = [n] := by
  unfold pieces Text.splitAt
  rw [Text.splitAtChars_of_notMem hslash]
  simp [hn]

lemma of_mem_pieces (h : n ∈ pieces p) : n ≠ "" ∧ '/' ∉ n.toList := by
  obtain ⟨hmem, hne⟩ := List.mem_filter.1 h
  obtain ⟨cs, hcs, rfl⟩ := List.mem_map.1 hmem
  refine ⟨by simpa using hne, ?_⟩
  rw [String.toList_ofList]
  exact Text.notMem_of_mem_splitAtChars hcs

/-- A path that ends in a slash is another followed by a slash. -/
lemma exists_eq_append_slash (h : endsInSlash p = true) : ∃ r, p = r ++ "/" := by
  unfold endsInSlash at h
  rw [beq_iff_eq, List.getLast?_eq_some_iff] at h
  obtain ⟨cs, hcs⟩ := h
  refine ⟨String.ofList cs, ?_⟩
  apply String.toList_injective
  rw [hcs]
  simp

/-- What stands between two joined paths. -/
def between (p : Path) : String := if p = "" ∨ endsInSlash p then "" else "/"

lemma join_eq (hq : isAbsolute q = false) : p.join q = p ++ between p ++ q := by
  unfold join between
  rw [hq]
  by_cases hp : p = "" ∨ endsInSlash p = true
  · simp [hp]
  · simp [hp]

lemma pieces_join (hq : isAbsolute q = false) : pieces (p.join q) = pieces p ++ pieces q := by
  rw [join_eq hq]
  unfold between
  by_cases hempty : p = ""
  · subst hempty
    simp
  · by_cases hslash : endsInSlash p = true
    · obtain ⟨r, rfl⟩ := exists_eq_append_slash hslash
      have hr : pieces (r ++ "/") = pieces r := by
        have h := pieces_append_slash r ""
        simpa using h
      simp [hslash, pieces_append_slash, hr]
    · simp [hempty, hslash, pieces_append_slash]

lemma isAbsolute_join (hq : isAbsolute q = false) : isAbsolute (p.join q) = isAbsolute p := by
  rw [join_eq hq]
  unfold isAbsolute between at *
  by_cases hempty : p = ""
  · subst hempty
    simpa using hq
  · have hp : p.toList ≠ [] := by simpa using hempty
    cases hcs : p.toList with
    | nil => exact absurd hcs hp
    | cons c cs => simp [hcs]

lemma endsInSlash_join (hq : isAbsolute q = false) (hne : q ≠ "") :
    endsInSlash (p.join q) = endsInSlash q := by
  rw [join_eq hq]
  unfold endsInSlash
  have hq : q.toList ≠ [] := by simpa using hne
  rw [String.toList_append, List.getLast?_append, List.getLast?_eq_some_getLast hq,
    Option.some_or]

lemma lastName?_join (hq : isAbsolute q = false) (hne : pieces q ≠ []) :
    lastName? (p.join q) = lastName? q := by
  unfold lastName?
  rw [pieces_join hq, List.getLast?_append, List.getLast?_eq_some_getLast hne, Option.some_or]

/-- A relative path that is not empty has a name. -/
lemma pieces_ne_nil (hp : isAbsolute p = false) (hne : p ≠ "") : pieces p ≠ [] := by
  have hcs : p.toList ≠ [] := by simpa using hne
  unfold isAbsolute at hp
  unfold pieces Text.splitAt
  cases h : p.toList with
  | nil => exact absurd h hcs
  | cons c cs =>
    have hc : c ≠ '/' := by simpa [h] using hp
    rw [Text.splitAtChars, if_neg hc]
    cases hw : Text.splitAtChars '/' cs with
    | nil => simp
    | cons w ws => simp

/-- Paths can be joined from either end. -/
lemma join_assoc {r : Path} (hq : isAbsolute q = false) (hne : q ≠ "") (hr : isAbsolute r = false) :
    (p.join q).join r = p.join (q.join r) := by
  have hjoin : p.join q ≠ "" := by
    rw [join_eq hq]
    simp [hne]
  have hqr : isAbsolute (q.join r) = false := by rw [isAbsolute_join hr, hq]
  have hbetween : between (p.join q) = between q := by
    unfold between
    rw [endsInSlash_join hq hne]
    simp [hjoin, hne]
  rw [join_eq hr, hbetween, join_eq hq, join_eq hqr, join_eq hr]
  simp only [String.append_assoc]

/-- A path that the disk takes: it is not empty, has fewer than 4096 bytes and no null character. -/
structure Fits (p : Path) : Prop where
  noNull : p.containsNull = false
  ne_empty : p ≠ ""
  size : p.utf8ByteSize < 4096

instance (p : Path) : Decidable p.Fits :=
  decidable_of_iff (p.containsNull = false ∧ p ≠ "" ∧ p.utf8ByteSize < 4096)
    ⟨fun ⟨hnull, hne, hsize⟩ => ⟨hnull, hne, hsize⟩, fun ⟨hnull, hne, hsize⟩ => ⟨hnull, hne, hsize⟩⟩

/-- A path stays short enough when a name is left out of it. -/
lemma Fits.leave {r : Path} (hq : isAbsolute q = false) (hr : isAbsolute r = false) (hne : r ≠ "")
    (h : (p.join (q.join r)).Fits) : (p.join r).Fits := by
  have hqr : isAbsolute (q.join r) = false := by rw [isAbsolute_join hr, hq]
  obtain ⟨hnull, -, hsize⟩ := h
  rw [join_eq hqr, join_eq hr] at hnull hsize
  rw [join_eq hr]
  refine ⟨?_, by simp [hne], ?_⟩
  · simp only [containsNull, String.toList_append, List.contains_append, Bool.or_eq_false_iff]
      at hnull ⊢
    exact ⟨hnull.1, hnull.2.2⟩
  · simp only [String.utf8ByteSize_append] at hsize ⊢
    omega

/-- A name by itself: not a path of several names and not dots. -/
structure IsName (n : String) : Prop where
  ne_empty : n ≠ ""
  noSlash : '/' ∉ n.toList
  ne_dot : n ≠ "."
  ne_dots : n ≠ ".."

instance (n : String) : Decidable (IsName n) :=
  decidable_of_iff (n ≠ "" ∧ '/' ∉ n.toList ∧ n ≠ "." ∧ n ≠ "..")
    ⟨fun ⟨hne, hslash, hdot, hdots⟩ => ⟨hne, hslash, hdot, hdots⟩,
      fun ⟨hne, hslash, hdot, hdots⟩ => ⟨hne, hslash, hdot, hdots⟩⟩

namespace IsName

lemma pieces (h : IsName n) : Path.pieces n = [n] := pieces_of_notMem h.ne_empty h.noSlash

lemma isAbsolute (h : IsName n) : Path.isAbsolute n = false := by
  unfold Path.isAbsolute
  rw [beq_eq_false_iff_ne]
  exact fun hhead => h.noSlash (List.mem_of_head? hhead)

lemma endsInSlash (h : IsName n) : Path.endsInSlash n = false := by
  unfold Path.endsInSlash
  rw [beq_eq_false_iff_ne]
  exact fun hlast => h.noSlash (List.mem_of_getLast? hlast)

lemma lastName? (h : IsName n) : Path.lastName? n = some n := by
  unfold Path.lastName?
  rw [h.pieces]
  simp [h.ne_dot, h.ne_dots]

lemma join_ne_empty (h : IsName n) : p.join n ≠ "" := by
  rw [join_eq h.isAbsolute]
  simp [h.ne_empty]

lemma endsInSlash_join (h : IsName n) : (p.join n).endsInSlash = false := by
  rw [Path.endsInSlash_join h.isAbsolute h.ne_empty, h.endsInSlash]

lemma isSome_lastName?_join (h : IsName n) : (p.join n).lastName?.isSome := by
  rw [Path.lastName?_join h.isAbsolute (by simp [h.pieces]), h.lastName?]
  rfl

end IsName

lemma pieces_ofNames (absolute : Bool) (hns : ∀ n ∈ ns, n ≠ "" ∧ '/' ∉ n.toList) :
    pieces (ofNames absolute ns) = ns := by
  have hnames : pieces ("/".intercalate ns) = ns := by
    induction ns with
    | nil => rfl
    | cons n ns ih =>
      have hn := hns n List.mem_cons_self
      have ih := ih fun m hm => hns m (List.mem_cons_of_mem _ hm)
      cases ns with
      | nil => simpa using pieces_of_notMem hn.1 hn.2
      | cons m ms =>
        rw [String.intercalate_cons_cons, pieces_append_slash, ih, pieces_of_notMem hn.1 hn.2]
        rfl
  cases absolute with
  | false => simpa [ofNames] using hnames
  | true =>
    have h := pieces_append_slash "" ("/".intercalate ns)
    simpa [ofNames, hnames] using h

lemma isAbsolute_ofNames (absolute : Bool) (hns : ∀ n ∈ ns, n ≠ "" ∧ '/' ∉ n.toList) :
    isAbsolute (ofNames absolute ns) = absolute := by
  cases absolute with
  | true => simp [ofNames, isAbsolute]
  | false =>
    cases ns with
    | nil => rfl
    | cons n ns =>
      obtain ⟨hne, hslash⟩ := hns n List.mem_cons_self
      cases hcs : n.toList with
      | nil => exact absurd (by simpa using hcs) hne
      | cons c cs =>
        have hc : c ≠ '/' := fun h => hslash (by simp [hcs, h])
        cases ns with
        | nil => simpa [ofNames, isAbsolute, hcs] using hc
        | cons m ms => simpa [ofNames, isAbsolute, String.intercalate_cons_cons, hcs] using hc

end Path
end Sortie
