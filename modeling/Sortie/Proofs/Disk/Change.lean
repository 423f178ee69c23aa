import Sortie.Proofs.Disk.Tree

/-! What the operations on a disk change. Making a folder, writing a file and moving one keep all
folders, so that a path which could be followed still can, and each touches only its own places. -/
namespace Sortie.Disk
variable {d d' d'' : Disk} {p q : Path} {a b : Place} {n text : String} {e : Item}
  {touched touched' : Place → Prop}

/-- A change that keeps folders and the order of the tree and touches only some places. -/
structure Evolves (touched : Place → Prop) (d d' : Disk) : Prop where
  here : d'.here = d.here
  tree : d.IsTree → d'.IsTree
  folders : ∀ b, d.get? b = some .folder → d'.get? b = some .folder
  untouched : ∀ b, ¬ touched b → d'.get? b = d.get? b

namespace Evolves

lemma refl : Evolves touched d d := ⟨rfl, id, fun _ h => h, fun _ _ => rfl⟩

lemma trans (h : Evolves touched d d') (h' : Evolves touched d' d'') : Evolves touched d d'' where
  here := h'.here.trans h.here
  tree := h'.tree ∘ h.tree
  folders b hb := h'.folders b (h.folders b hb)
  untouched b hb := (h'.untouched b hb).trans (h.untouched b hb)

lemma mono (hsub : ∀ b, touched b → touched' b) (h : Evolves touched d d') :
    Evolves touched' d d' where
  here := h.here
  tree := h.tree
  folders := h.folders
  untouched b hb := h.untouched b fun ht => hb (hsub b ht)

/-- Disks that hold the same differ by no change at all. -/
lemma of_get? (hhere : d'.here = d.here) (hget : ∀ b, d'.get? b = d.get? b) :
    Evolves touched d d' where
  here := hhere
  tree htree a n h := by
    rw [hget] at h ⊢
    exact htree a n h
  folders b hb := (hget b).trans hb
  untouched b _ := hget b

lemma reaches (h : Evolves touched d d') (hp : d.Reaches p) : d'.Reaches p :=
  hp.mono h.here h.folders

lemma placeOf (h : Evolves touched d d') (p : Path) : d'.placeOf p = d.placeOf p :=
  placeOf_eq_of_here h.here

end Evolves

lemma get?_put_of_ne (ha : d.get? a ≠ some .folder) :
    (d.put a e).get? b = if b = a then some e else d.get? b := by
  by_cases hb : b = []
  · subst hb
    have hne : [] ≠ a := fun h => ha (h ▸ get?_nil)
    rw [if_neg hne]
    rfl
  · exact get?_put d a e hb

/-- A new entry in a folder leaves the rest as it was. -/
lemma evolves_put (hparent : d.get? a = some .folder) (hplace : d.get? (a ++ [n]) ≠ some .folder) :
    Evolves (· = a ++ [n]) d (d.put (a ++ [n]) e) where
  here := rfl
  tree htree b m hb := by
    rw [get?_put_of_ne hplace] at hb ⊢
    by_cases hbm : b ++ [m] = a ++ [n]
    · obtain ⟨rfl, -⟩ := List.append_inj' hbm rfl
      rw [if_neg (by simp)]
      exact hparent
    · rw [if_neg hbm] at hb
      have hfolder := htree b m hb
      have hne : b ≠ a ++ [n] := by
        rintro rfl
        exact hplace hfolder
      rw [if_neg hne]
      exact hfolder
  folders b hb := by
    have hne : b ≠ a ++ [n] := by
      rintro rfl
      exact hplace hb
    rw [get?_put_of_ne hplace, if_neg hne]
    exact hb
  untouched b hb := by rw [get?_put_of_ne hplace, if_neg hb]

/-! ### Looking -/

lemma look_of_reaches (h : d.Reaches p) : d.look p = match d.get? (d.placeOf p) with
    | none => .error .missing
    | some .folder => .ok .folder
    | some (.file c) => if p.endsInSlash then .error .notFolder else .ok (.file c) := by
  unfold look
  rw [h.resolve]
  rfl

lemma reaches_of_look {i : Item} (h : d.look p = .ok i) : d.Reaches p := by
  unfold look at h
  cases hresolve : d.resolve p with
  | error fault =>
    rw [hresolve] at h
    cases h
  | ok a => exact (resolve_eq_ok_iff.1 hresolve).1

lemma isFolder_iff : d.isFolder p = true ↔
    d.Reaches p ∧ d.get? (d.placeOf p) = some .folder := by
  unfold isFolder
  constructor
  · intro h
    split at h
    · rename_i hlook
      have hreaches := reaches_of_look hlook
      refine ⟨hreaches, ?_⟩
      rw [look_of_reaches hreaches] at hlook
      rcases hget : d.get? (d.placeOf p) with _ | _ | c
      · simp [hget] at hlook
      · rfl
      · simp only [hget] at hlook
        split at hlook <;> simp at hlook
    · cases h
  · rintro ⟨hreaches, hget⟩
    rw [look_of_reaches hreaches, hget]

lemma Evolves.isFolder (h : Evolves touched d d') (hp : d.isFolder p = true) :
    d'.isFolder p = true := by
  obtain ⟨hreaches, hget⟩ := isFolder_iff.1 hp
  rw [isFolder_iff, h.placeOf]
  exact ⟨h.reaches hreaches, h.folders _ hget⟩

lemma reaches_of_isPresent (h : d.isPresent p = true) :
    d.Reaches p ∧ (d.get? (d.placeOf p)).isSome := by
  unfold isPresent at h
  cases hlook : d.look p with
  | error fault =>
    rw [hlook] at h
    cases h
  | ok i =>
    have hreaches := reaches_of_look hlook
    refine ⟨hreaches, ?_⟩
    rw [look_of_reaches hreaches] at hlook
    cases hget : d.get? (d.placeOf p) with
    | none => simp [hget] at hlook
    | some i => rfl

lemma isPresent_of_isFolder (h : d.isFolder p = true) : d.isPresent p = true := by
  obtain ⟨hreaches, hget⟩ := isFolder_iff.1 h
  unfold isPresent
  rw [look_of_reaches hreaches, hget]
  rfl

lemma isPresent_of_file {c : Content} (h : d.Reaches p) (hslash : p.endsInSlash = false)
    (hget : d.get? (d.placeOf p) = some (.file c)) : d.isPresent p = true := by
  unfold isPresent
  rw [look_of_reaches h, hget]
  simp [hslash, Except.toBool]

lemma isPresent_of_isSome (h : d.Reaches p) (hslash : p.endsInSlash = false)
    (hsome : (d.get? (d.placeOf p)).isSome) : d.isPresent p = true := by
  obtain ⟨i, hi⟩ := Option.isSome_iff_exists.1 hsome
  cases i with
  | folder => exact isPresent_of_isFolder (isFolder_iff.2 ⟨h, hi⟩)
  | file c => exact isPresent_of_file h hslash hi

/-! ### Making, writing, removing -/

lemma makeFolder_of_reaches (h : d.Reaches p) : d.makeFolder p =
    if (d.get? (d.placeOf p)).isSome then .error .occupied
    else .ok (d.put (d.placeOf p) .folder) := by
  unfold makeFolder
  rw [h.resolve]
  rfl

lemma reaches_of_makeFolder (h : d.makeFolder p = .ok d') :
    d.Reaches p ∧ d.get? (d.placeOf p) = none ∧ d' = d.put (d.placeOf p) .folder := by
  have hreaches : d.Reaches p := by
    unfold makeFolder at h
    cases hresolve : d.resolve p with
    | error fault =>
      rw [hresolve] at h
      cases h
    | ok a => exact (resolve_eq_ok_iff.1 hresolve).1
  rw [makeFolder_of_reaches hreaches] at h
  cases hget : d.get? (d.placeOf p) with
  | none =>
    simp only [hget, Option.isSome_none, Bool.false_eq_true, if_false, Except.ok.injEq] at h
    exact ⟨hreaches, rfl, h.symm⟩
  | some i => simp [hget] at h

lemma evolves_makeFolder (htree : d.IsTree) (h : d.makeFolder p = .ok d') :
    Evolves (· = d.placeOf p) d d' ∧ d'.isFolder p = true ∧ p.lastName?.isSome := by
  obtain ⟨hreaches, hnone, rfl⟩ := reaches_of_makeFolder h
  have hplace : d.get? (d.placeOf p) ≠ some .folder := by simp [hnone]
  obtain ⟨a, n, hsplit, hlast, hparent⟩ := hreaches.exists_parent htree hplace
  have hevolves : Evolves (· = d.placeOf p) d (d.put (d.placeOf p) .folder) := by
    rw [hsplit] at hplace ⊢
    exact evolves_put hparent hplace
  refine ⟨hevolves, ?_, by rw [hlast]; rfl⟩
  rw [isFolder_iff, hevolves.placeOf, get?_put_of_ne hplace, if_pos rfl]
  exact ⟨hevolves.reaches hreaches, rfl⟩

lemma evolves_write (htree : d.IsTree) (h : d.write p text = .ok d') :
    d.Reaches p ∧ p.endsInSlash = false ∧ p.lastName?.isSome ∧
      d.get? (d.placeOf p) ≠ some .folder ∧ Evolves (· = d.placeOf p) d d' ∧
      d'.get? (d.placeOf p) = some (.file (.text text)) := by
  unfold write at h
  cases hparent : d.resolveFolder p with
  | error fault =>
    rw [hparent] at h
    cases h
  | ok u =>
    simp only [hparent, bind, Except.bind] at h
    split at h
    · cases h
    · rename_i hends
      simp only [Bool.or_eq_true, not_or, Bool.not_eq_true, Option.isNone_eq_false_iff] at hends
      cases hresolve : d.resolve p with
      | error fault =>
        rw [hresolve] at h
        cases h
      | ok a =>
        obtain ⟨hreaches, rfl⟩ := resolve_eq_ok_iff.1 hresolve
        simp only [hresolve] at h
        split at h
        · cases h
        · rename_i hplace
          injection h with h
          subst h
          have hplace : d.get? (d.placeOf p) ≠ some .folder := hplace
          obtain ⟨a, n, hsplit, -, hfolder⟩ := hreaches.exists_parent htree hplace
          refine ⟨hreaches, hends.1, hends.2, hplace, ?_, ?_⟩
          · rw [hsplit] at hplace ⊢
            exact evolves_put hfolder hplace
          · rw [get?_put_of_ne hplace, if_pos rfl]

lemma Reaches.resolveFolder (h : d.Reaches p) (hlast : p.lastName?.isSome) :
    d.resolveFolder p = .ok () := by
  have hpieces : p.pieces ≠ [] := by
    intro hnil
    simp [Path.lastName?, hnil] at hlast
  have hw := h.walks
  rw [← List.dropLast_append_getLast hpieces, walks_append] at hw
  unfold Disk.resolveFolder
  rw [start_eq_ok_iff.2 ⟨h.fits, rfl⟩]
  simp only [bind, Except.bind]
  rw [foldlM_enter_eq_ok_iff.2 ⟨hw.1, rfl⟩]
  exact requireFolder_eq_ok_iff.2 hw.2.1

/-- A file can be written where no folder is. -/
lemma exists_write (h : d.Reaches p) (hlast : p.lastName?.isSome) (hslash : p.endsInSlash = false)
    (hplace : d.get? (d.placeOf p) ≠ some .folder) (text : String) :
    ∃ d', d.write p text = .ok d' := by
  unfold write
  rw [h.resolveFolder hlast, h.resolve]
  simp only [bind, Except.bind]
  rw [if_neg (by simp [hslash, Option.isSome_iff_ne_none.1 hlast])]
  cases hget : d.get? (d.placeOf p) with
  | none => exact ⟨_, rfl⟩
  | some i =>
    cases i with
    | folder => exact absurd hget hplace
    | file c => exact ⟨_, rfl⟩

@[simp] lemma here_removeAll : (d.removeAll p).here = d.here := by
  unfold removeAll
  split
  · split <;> rfl
  · rfl

lemma removeAll_of_not_isFolder (h : d.isFolder p = false) : d.removeAll p = d := by
  unfold removeAll
  rw [h]
  rfl

lemma isBelow_or_eq_iff : (isBelow a b || b == a) = true ↔ a <+: b := by
  unfold isBelow
  rw [Bool.or_eq_true, Bool.and_eq_true, List.isPrefixOf_iff_prefix, decide_eq_true_iff, beq_iff_eq]
  constructor
  · rintro (⟨h, -⟩ | rfl)
    · exact h
    · exact List.prefix_refl _
  · intro h
    rcases Nat.lt_or_ge a.length b.length with hlt | hge
    · exact Or.inl ⟨h, hlt⟩
    · exact Or.inr (h.eq_of_length_le hge).symm

/-- Removing a folder leaves nothing at its place and below it, and everything else. -/
lemma get?_removeAll (h : d.isFolder p = true) (hlast : p.lastName?.isSome)
    (hplace : d.placeOf p ≠ []) :
    (d.removeAll p).get? b = if d.placeOf p <+: b then none else d.get? b := by
  unfold removeAll
  rw [h, (isFolder_iff.1 h).1.resolve, hlast]
  simp only [if_true, Bool.and_true]
  by_cases hb : b = []
  · subst hb
    rw [if_neg (by simpa using hplace)]
    rfl
  · rw [get?_eraseIf _ _ hb]
    simp only [isBelow_or_eq_iff]

/-- Removing a folder that was not there before takes back all that is at its place and below. -/
lemma get?_removeAll_of_new (htree : d.IsTree) (hhere : d'.here = d.here)
    (hnone : d.get? (d.placeOf p) = none) (hfolder : d'.isFolder p = true)
    (hlast : p.lastName?.isSome) :
    (d'.removeAll p).get? b = if d.placeOf p <+: b then d.get? b else d'.get? b := by
  have hplace : d'.placeOf p = d.placeOf p := placeOf_eq_of_here hhere
  have hnil : d'.placeOf p ≠ [] := by
    rw [hplace]
    intro hnil
    rw [hnil] at hnone
    cases hnone
  rw [get?_removeAll hfolder hlast hnil, hplace]
  split
  · rename_i hb
    exact (htree.eq_none_below hnone hb).symm
  · rfl

/-! ### Moving a file -/

lemma lookup_map_rename {es : List (Place × Item)} (hb : ∀ e ∈ es, e.1 ≠ b) (x : Place) :
    (es.map fun e => if e.1 = a then (b, e.2) else e).lookup x =
      if x = b then es.lookup a else if x = a then none else es.lookup x := by
  induction es with
  | nil => simp
  | cons e es ih =>
    obtain ⟨y, i⟩ := e
    have hy : y ≠ b := hb _ List.mem_cons_self
    rw [List.map_cons, List.lookup_cons, List.lookup_cons, List.lookup_cons,
      ih fun e he => hb e (List.mem_cons_of_mem _ he)]
    by_cases hya : y = a
    · subst hya
      by_cases hxb : x = b
      · simp [hxb]
      · by_cases hxy : x = y
        · simp [hxy, hy, beq_eq_false_iff_ne.2 hy]
        · simp [hxb, hxy, beq_eq_false_iff_ne.2 hxy, beq_eq_false_iff_ne.2 hxb]
    · by_cases hxy : x = y
      · subst hxy
        simp [hya, hy]
      · simp [hya, beq_eq_false_iff_ne.2 hxy, beq_eq_false_iff_ne.2 (Ne.symm hya)]

/-- In a tree, what lies at or below a file is the file. -/
lemma IsTree.eq_of_mem {c : Content} (htree : d.IsTree) (ha : d.get? a = some (.file c))
    {e : Place × Item} (he : e ∈ d.entries) (hbelow : a <+: e.1) : e.1 = a := by
  obtain ⟨t, ht⟩ := hbelow
  by_contra hne
  have hnil : t ≠ [] := by
    rintro rfl
    exact hne (by simpa using ht.symm)
  have hsome : (d.get? (a ++ t)).isSome := by
    rw [ht]
    unfold get?
    split
    · rfl
    · rw [List.lookup_isSome_iff]
      exact ⟨e, he, by simp⟩
  rw [htree.folder_of_append hsome hnil] at ha
  cases ha

lemma get?_relocate {c : Content} (htree : d.IsTree) (ha : d.get? a = some (.file c))
    (hb : d.get? b ≠ some .folder) (hab : a ≠ b) (x : Place) : (d.relocate a b).get? x =
      if x = b then some (.file c) else if x = a then none else d.get? x := by
  have ha_ne : a ≠ [] := by
    rintro rfl
    cases ha
  have hb_ne : b ≠ [] := by
    rintro rfl
    exact hb get?_nil
  by_cases hx : x = []
  · subst hx
    rw [if_neg (Ne.symm hb_ne), if_neg (Ne.symm ha_ne)]
    rfl
  · have hrename : (d.relocate a b).entries = (d.entries.filter fun e => !(e.1 == b)).map
        fun e => if e.1 = a then (b, e.2) else e := by
      unfold relocate eraseIf
      apply List.map_congr_left
      intro e he
      by_cases hbelow : a <+: e.1
      · have heq := htree.eq_of_mem ha (List.mem_of_mem_filter he) hbelow
        simp [heq]
      · have hne : e.1 ≠ a := by
          intro h
          exact hbelow (h ▸ List.prefix_refl _)
        rw [if_neg (by simpa using hbelow), if_neg hne]
    have hlookup : d.entries.lookup a = some (.file c) := by simpa [get?, ha_ne] using ha
    simp only [get?, if_neg hx]
    rw [hrename, lookup_map_rename fun e he => by simpa using (List.mem_filter.1 he).2,
      lookup_filter fun y => !(y == b), lookup_filter fun y => !(y == b), hlookup]
    by_cases hxb : x = b
    · simp [hxb, hab]
    · simp [hxb]

lemma evolves_relocate {c : Content} (htree : d.IsTree) (ha : d.get? a = some (.file c))
    (hparent : d.get? b = some .folder) (hb : d.get? (b ++ [n]) ≠ some .folder)
    (hab : a ≠ b ++ [n]) :
    Evolves (fun x => x = a ∨ x = b ++ [n]) d (d.relocate a (b ++ [n])) := by
  have hget := get?_relocate htree ha hb hab
  have hfolders : ∀ x, d.get? x = some .folder →
      (d.relocate a (b ++ [n])).get? x = some .folder := by
    intro x hx
    have hxb : x ≠ b ++ [n] := by
      rintro rfl
      exact hb hx
    have hxa : x ≠ a := by
      rintro rfl
      rw [ha] at hx
      cases hx
    rw [hget, if_neg hxb, if_neg hxa, hx]
  refine ⟨rfl, ?_, hfolders, ?_⟩
  · intro _ x m hx
    apply hfolders
    rw [hget] at hx
    by_cases hxb : x ++ [m] = b ++ [n]
    · obtain ⟨rfl, -⟩ := List.append_inj' hxb rfl
      exact hparent
    · rw [if_neg hxb] at hx
      by_cases hxa : x ++ [m] = a
      · simp [hxa] at hx
      · rw [if_neg hxa] at hx
        exact htree x m hx
  · intro x hx
    rw [not_or] at hx
    rw [hget, if_neg hx.2, if_neg hx.1]

/-- A file can be moved to any place in a folder where no folder is. -/
lemma evolves_move {c : Content} (htree : d.IsTree) (hp : d.Reaches p) (hq : d.Reaches q)
    (hplast : p.lastName?.isSome) (hqlast : q.lastName?.isSome) (hpslash : p.endsInSlash = false)
    (hqslash : q.endsInSlash = false) (hsource : d.get? (d.placeOf p) = some (.file c))
    (htarget : d.get? (d.placeOf q) ≠ some .folder) (hpq : ¬ d.placeOf p <+: d.placeOf q)
    (hqp : ¬ d.placeOf q <+: d.placeOf p) : ∃ d', d.move p q = .ok d' ∧
      Evolves (fun x => x = d.placeOf p ∨ x = d.placeOf q) d d' ∧
      d'.get? (d.placeOf q) = some (.file c) := by
  have hne : d.placeOf p ≠ d.placeOf q := fun h => hpq (h ▸ List.prefix_refl _)
  refine ⟨d.relocate (d.placeOf p) (d.placeOf q), ?_, ?_, ?_⟩
  · have hbelow {a b : Place} (h : ¬ a <+: b) : isBelow a b = false := by
      simp [isBelow, h]
    have hmoveTo : d.moveTo (.file c) (d.placeOf p) (d.placeOf q) =
        .ok (d.relocate (d.placeOf p) (d.placeOf q)) := by
      unfold moveTo
      rw [hbelow hpq, hbelow hqp, if_neg hne]
      cases hget : d.get? (d.placeOf q) with
      | none => rfl
      | some i =>
        cases i with
        | folder => exact absurd hget htarget
        | file c => rfl
    have hstart : ([p, q].forM fun r => discard (d.start r)) = .ok () := by
      simp only [List.forM, start_eq_ok_iff.2 ⟨hp.fits, rfl⟩, start_eq_ok_iff.2 ⟨hq.fits, rfl⟩]
      rfl
    have hfolders : [p, q].forM d.resolveFolder = .ok () := by
      simp only [List.forM, hp.resolveFolder hplast, hq.resolveFolder hqlast]
      rfl
    unfold move
    rw [hstart, hfolders, hp.resolve, hq.resolve]
    simp only [bind, Except.bind, hsource]
    rw [if_neg (by simp [Option.isSome_iff_ne_none.1 hplast, Option.isSome_iff_ne_none.1 hqlast]),
      if_neg (by simp [hpslash, hqslash])]
    exact hmoveTo
  · obtain ⟨b, n, hsplit, -, hparent⟩ := hq.exists_parent htree htarget
    rw [hsplit] at htarget hne ⊢
    exact evolves_relocate htree hsource hparent htarget hne
  · rw [get?_relocate htree hsource htarget hne, if_pos rfl]

/-- A file does not move onto a folder. -/
lemma ne_folder_of_move {c : Content} (hp : d.Reaches p)
    (hsource : d.get? (d.placeOf p) = some (.file c)) (h : d.move p q = .ok d') :
    d.get? (d.placeOf q) ≠ some .folder := by
  intro hfolder
  have hne : d.placeOf p ≠ d.placeOf q := by
    intro heq
    rw [heq, hfolder] at hsource
    cases hsource
  have hmoveTo : ∀ d', d.moveTo (.file c) (d.placeOf p) (d.placeOf q) ≠ .ok d' := by
    intro d'
    unfold moveTo
    rw [if_neg hne, hfolder]
    split
    · simp
    · split <;> simp
  unfold move at h
  simp only [hp.resolve, hsource, bind, Except.bind] at h
  split at h
  · cases h
  · split at h
    · cases h
    · split at h
      · cases h
      · cases hq : d.resolve q with
        | error fault =>
          rw [hq] at h
          cases h
        | ok b =>
          obtain ⟨-, rfl⟩ := resolve_eq_ok_iff.1 hq
          simp only [hq] at h
          split at h
          · cases h
          · exact hmoveTo d' h

end Sortie.Disk
