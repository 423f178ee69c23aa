import Sortie.Proofs.Disk.Change
import Sortie.Proofs.Workspace.Job

/-! Making a folder with the folders around it. On a tree this adds folders on the way to its place
and nothing else, provided that every step out of a folder leaves one that is there. -/
namespace Sortie

namespace Path
variable {p : Path} {n : String} {ns : List String}

/-- The names of a path without the dots that stay where they are. -/
def steps (p : Path) : List String := p.pieces.filter (· ≠ ".")

lemma of_mem_steps (h : n ∈ steps p) : (n ≠ "" ∧ '/' ∉ n.toList) ∧ n ≠ "." := by
  obtain ⟨hmem, hdot⟩ := List.mem_filter.1 h
  exact ⟨of_mem_pieces hmem, by simpa using hdot⟩

lemma names_eq (p : Path) :
    p.names = p.steps ∨ p.isAbsolute = false ∧ p.names = "." :: p.steps := by
  unfold names steps
  cases p.pieces with
  | nil => exact Or.inl rfl
  | cons n ns =>
    by_cases hdot : n = "."
    · cases habsolute : p.isAbsolute with
      | false => exact Or.inr ⟨rfl, by simp [hdot]⟩
      | true => exact Or.inl (by simp [hdot])
    · exact Or.inl (by simp [hdot])

lemma beginnings_concat (ns : List String) (n : String) :
    beginnings (ns ++ [n]) = ns :: beginnings ns := by
  unfold beginnings
  rw [List.length_append, List.length_singleton, List.range_succ, List.reverse_append,
    List.reverse_singleton, List.singleton_append, List.map_cons, List.take_left]
  congr 1
  apply List.map_congr_left
  intro k hk
  rw [List.mem_reverse, List.mem_range] at hk
  rw [List.take_append_of_le_length (Nat.le_of_lt hk)]

/-- The paths of the folders around a path, innermost first: each is the next one continued by a
name. A relative path that starts with a dot ends in the empty path. -/
inductive Enclosed : Path → List Path → Prop
  | top (p : Path) : Enclosed p []
  | dot {p : Path} : p.isAbsolute = false → p.steps = [] → Enclosed p [""]
  | inside {p q : Path} {n : String} {outer : List Path} : p.isAbsolute = q.isAbsolute →
      p.steps = q.steps ++ [n] → Enclosed q outer → Enclosed p (q :: outer)

lemma enclosed_beginnings (lead : List String)
    (hlead : lead = [] ∨ p.isAbsolute = false ∧ lead = ["."]) (hp : p.steps = ns) :
    Enclosed p ((beginnings (lead ++ ns)).map (ofNames p.isAbsolute)) := by
  induction ns using List.reverseRecOn generalizing p with
  | nil =>
    rcases hlead with rfl | ⟨hrelative, rfl⟩
    · exact .top p
    · rw [hrelative]
      exact .dot hrelative hp
  | append_singleton ns n ih =>
    have hvalid : ∀ m ∈ ns ++ [n], (m ≠ "" ∧ '/' ∉ m.toList) ∧ m ≠ "." := by
      intro m hm
      exact of_mem_steps (hp ▸ hm)
    have hnames : ∀ m ∈ lead ++ ns, m ≠ "" ∧ '/' ∉ m.toList := by
      intro m hm
      rcases List.mem_append.1 hm with hm | hm
      · rcases hlead with rfl | ⟨-, rfl⟩
        · cases hm
        · rw [List.mem_singleton.1 hm]
          exact ⟨by decide, by decide⟩
      · exact (hvalid m (List.mem_append_left _ hm)).1
    have habsolute := isAbsolute_ofNames p.isAbsolute hnames
    have hsteps : (ofNames p.isAbsolute (lead ++ ns)).steps = ns := by
      have hlead' : lead.filter (· ≠ ".") = [] := by
        rcases hlead with rfl | ⟨-, rfl⟩ <;> rfl
      have hns : ns.filter (· ≠ ".") = ns := by
        rw [List.filter_eq_self]
        intro m hm
        simpa using (hvalid m (List.mem_append_left _ hm)).2
      unfold steps
      rw [pieces_ofNames _ hnames, List.filter_append, hlead', hns, List.nil_append]
    rw [← List.append_assoc, beginnings_concat, List.map_cons]
    refine .inside habsolute.symm (by rw [hp, hsteps]) ?_
    have h := ih (p := ofNames p.isAbsolute (lead ++ ns)) (by rwa [habsolute]) hsteps
    rwa [habsolute] at h

lemma enclosed_parents (p : Path) : Enclosed p p.parents := by
  unfold parents
  rcases names_eq p with h | ⟨hrelative, h⟩
  · rw [h]
    exact enclosed_beginnings [] (Or.inl rfl) rfl
  · rw [h]
    exact enclosed_beginnings ["."] (Or.inr ⟨hrelative, rfl⟩) rfl

end Path

namespace Disk
variable {d d₁ d' : Disk} {p q : Path} {n : String} {outer : List Path}

/-- Wherever a path steps out of a folder, the way up to there can be walked. -/
def Grounded (d : Disk) (p : Path) : Prop :=
  ∀ before after, p.steps = before ++ ".." :: after → d.Walks (d.base p) (before ++ [".."])

lemma placeOf_eq_steps : d.placeOf p = p.steps.foldl descend (d.base p) :=
  foldl_descend_filter.symm

lemma Grounded.enclosing (h : d.Grounded p) (habsolute : p.isAbsolute = q.isAbsolute)
    (hsteps : p.steps = q.steps ++ [n]) : d.Grounded q := by
  intro before after hq
  have hbase : d.base q = d.base p := by simp [base, habsolute]
  rw [hbase]
  exact h before (after ++ [n]) (by simp [hsteps, hq])

lemma fits_of_missing (hp : p ≠ "") (h : d.makeFolder p = .error .missing) : p.Fits := by
  by_contra hfits
  unfold makeFolder resolve start at h
  by_cases hnull : p.containsNull = true
  · simp [hnull, bind, Except.bind] at h
  · by_cases hsize : 4096 ≤ p.utf8ByteSize
    · simp [hnull, hp, hsize, bind, Except.bind] at h
    · exact hfits ⟨by simpa using hnull, hp, by omega⟩

lemma Reaches.ne_missing (h : d.Reaches p) : d.makeFolder p ≠ .error .missing := by
  rw [makeFolder_of_reaches h]
  split <;> simp

/-- A folder that is missing together with one around it is named last by a proper name. -/
lemma Grounded.placeOf_of_missing (htree : d.IsTree) (h : d.Grounded p) (hp : p ≠ "")
    (hmissing : d.makeFolder p = .error .missing) (habsolute : p.isAbsolute = q.isAbsolute)
    (hsteps : p.steps = q.steps ++ [n]) : d.placeOf p = d.placeOf q ++ [n] := by
  have hbase : d.base q = d.base p := by simp [base, habsolute]
  have hplace : d.placeOf p = descend (d.placeOf q) n := by
    rw [placeOf_eq_steps, hsteps, List.foldl_append, placeOf_eq_steps, hbase]
    rfl
  have hdot : n ≠ "." := (Path.of_mem_steps (p := p) (by simp [hsteps])).2
  have hdots : n ≠ ".." := by
    rintro rfl
    have hw := h q.steps [] hsteps
    have hfolder : d.get? (d.placeOf q) = some .folder := by
      rw [walks_append, ← hbase, ← placeOf_eq_steps] at hw
      exact hw.2.1
    have hup : d.get? (d.placeOf p) = some .folder := by
      rw [hplace]
      exact htree.folder_dropLast hfolder
    rw [← hsteps] at hw
    exact Reaches.ne_missing ⟨fits_of_missing hp hmissing, hw.of_filter hup⟩ hmissing
  rw [hplace]
  simp [descend, hdot, hdots]

/-- What making a folder with those around it comes to. -/
structure FoldersMade (d : Disk) (p : Path) (r : Except DiskFault Unit) (d' : Disk) : Prop where
  evolves : Evolves (fun b => b <+: d.placeOf p ∧ d.get? b = none) d d'
  kept : ∀ fault, r = .error fault → d'.get? (d.placeOf p) = d.get? (d.placeOf p)
  found : r = .ok () → p = "" ∧ d' = d ∨ d'.isFolder p = true
  named : d'.get? (d.placeOf p) = d.get? (d.placeOf p) ∨ p.lastName?.isSome

/-- Makes one folder, or accepts the one that is there. -/
def ensureFolder (p : Path) : StateM Disk (Except DiskFault Unit) := do
  Files.accept p (← Files.makeFolder p)

lemma accept_error (fault : DiskFault) : (Files.accept p (.error fault) : StateM Disk _) d =
    if d.isFolder p then (.ok (), d) else (.error fault, d) := by
  change (if d.isFolder p then pure (Except.ok ()) else pure (Except.error fault) :
    StateM Disk (Except DiskFault Unit)) d = _
  cases d.isFolder p <;> rfl

lemma ensureFolder_eq : ensureFolder p d =
    (Files.accept p (Disk.change (fun d => d.makeFolder p) d).1 : StateM Disk _)
      (Disk.change (fun d => d.makeFolder p) d).2 := rfl

lemma ensureFolder_of_ok (h : d.makeFolder p = .ok d') : ensureFolder p d = (.ok (), d') := by
  rw [ensureFolder_eq, change_of_ok h]
  rfl

lemma ensureFolder_of_error {fault : DiskFault} (h : d.makeFolder p = .error fault) :
    ensureFolder p d = if d.isFolder p then (.ok (), d) else (.error fault, d) := by
  rw [ensureFolder_eq, change_of_error h, accept_error]

lemma makeFoldersFrom_empty :
    (Files.makeFoldersFrom "" outer : StateM Disk _) d = (.ok (), d) := by
  cases outer <;> rfl

lemma makeFoldersFrom_of_ne_missing (hp : p ≠ "") (h : d.makeFolder p ≠ .error .missing) :
    (Files.makeFoldersFrom p outer : StateM Disk _) d = ensureFolder p d := by
  have hchange : ∀ d', Disk.change (fun d => d.makeFolder p) d ≠ (.error .missing, d') := by
    intro d'
    cases hmake : d.makeFolder p with
    | ok d₁ =>
      rw [change_of_ok hmake]
      rintro ⟨⟩
    | error fault =>
      rw [change_of_error hmake]
      rintro ⟨⟩
      exact h hmake
  rw [ensureFolder_eq]
  cases outer <;>
  · unfold Files.makeFoldersFrom
    rw [if_neg hp]
    simp only [bind, StateT.bind, Files.makeFolder]
    rcases hmade : Disk.change (fun d => d.makeFolder p) d with ⟨made, d'⟩
    dsimp only
    split
    · exact absurd hmade (hchange d')
    · rfl

lemma makeFoldersFrom_nil_of_missing (hp : p ≠ "") (h : d.makeFolder p = .error .missing) :
    (Files.makeFoldersFrom p [] : StateM Disk _) d = (.error .missing, d) := by
  unfold Files.makeFoldersFrom
  rw [if_neg hp]
  simp only [bind, StateT.bind, Files.makeFolder]
  rw [change_of_error h]
  rfl

lemma makeFoldersFrom_cons_of_missing (hp : p ≠ "") (h : d.makeFolder p = .error .missing) :
    (Files.makeFoldersFrom p (q :: outer) : StateM Disk _) d =
      match (Files.makeFoldersFrom q outer : StateM Disk _) d with
      | (.error fault, d₁) => (.error fault, d₁)
      | (.ok _, d₁) => ensureFolder p d₁ := by
  rw [Files.makeFoldersFrom, if_neg hp]
  simp only [bind, StateT.bind, Files.makeFolder]
  rw [change_of_error h]
  simp only [StateT.bind]
  rcases (Files.makeFoldersFrom q outer : StateM Disk _) d with ⟨fault | _, d₁⟩
  · rfl
  · rfl

/-- The last folder of the way is made, or was there, once the folders around it are. -/
lemma foldersMade_ensureFolder (htree : d.IsTree)
    (h : Evolves (fun b => b <+: d.placeOf p ∧ b ≠ d.placeOf p ∧ d.get? b = none) d d₁) :
    FoldersMade d p (ensureFolder p d₁).1 (ensureFolder p d₁).2 := by
  have hplace : d₁.get? (d.placeOf p) = d.get? (d.placeOf p) := h.untouched _ fun hb => hb.2.1 rfl
  have hweak := h.mono fun b hb => (⟨hb.1, hb.2.2⟩ : b <+: d.placeOf p ∧ d.get? b = none)
  cases hmake : d₁.makeFolder p with
  | error fault =>
    rw [ensureFolder_of_error hmake]
    cases hfolder : d₁.isFolder p with
    | true => exact ⟨hweak, by simp, fun _ => Or.inr hfolder, Or.inl hplace⟩
    | false => exact ⟨hweak, fun _ _ => hplace, by simp, Or.inl hplace⟩
  | ok d' =>
    rw [ensureFolder_of_ok hmake]
    obtain ⟨hevolves, hmade, hnamed⟩ := evolves_makeFolder (h.tree htree) hmake
    obtain ⟨-, hnone, -⟩ := reaches_of_makeFolder hmake
    rw [h.placeOf] at hevolves hnone
    rw [hplace] at hnone
    refine ⟨hweak.trans (hevolves.mono ?_), by simp, fun _ => Or.inr hmade, Or.inr hnamed⟩
    rintro b rfl
    exact ⟨List.prefix_refl _, hnone⟩

/-- Where nothing but the folder itself may be missing, the folders around it are not looked at. -/
lemma foldersMade_of_ne_missing (htree : d.IsTree)
    (h : p = "" ∨ d.makeFolder p ≠ .error .missing) : FoldersMade d p
      ((Files.makeFoldersFrom p outer : StateM Disk _) d).1
      ((Files.makeFoldersFrom p outer : StateM Disk _) d).2 := by
  by_cases hp : p = ""
  · subst hp
    rw [makeFoldersFrom_empty]
    exact ⟨.refl, by simp, fun _ => Or.inl ⟨rfl, rfl⟩, Or.inl rfl⟩
  · rw [makeFoldersFrom_of_ne_missing hp (h.resolve_left hp)]
    exact foldersMade_ensureFolder htree .refl

lemma foldersMade_makeFoldersFrom (htree : d.IsTree) (hground : d.Grounded p)
    (henclosed : p.Enclosed outer) : FoldersMade d p
      ((Files.makeFoldersFrom p outer : StateM Disk _) d).1
      ((Files.makeFoldersFrom p outer : StateM Disk _) d).2 := by
  -- by induction over the folders around the path, as far as they are missing
  induction henclosed with
  | top p =>
    by_cases hmissing : p = "" ∨ d.makeFolder p ≠ .error .missing
    · exact foldersMade_of_ne_missing htree hmissing
    · rw [not_or, not_not] at hmissing
      rw [makeFoldersFrom_nil_of_missing hmissing.1 hmissing.2]
      exact ⟨.refl, fun _ _ => rfl, by simp, Or.inl rfl⟩
  | @dot p hrelative hsteps =>
    by_cases hmissing : p = "" ∨ d.makeFolder p ≠ .error .missing
    · exact foldersMade_of_ne_missing htree hmissing
    · rw [not_or, not_not] at hmissing
      rw [makeFoldersFrom_cons_of_missing hmissing.1 hmissing.2, makeFoldersFrom_empty]
      exact foldersMade_ensureFolder htree .refl
  | @inside p q n outer habsolute hsteps henclosed ih =>
    by_cases hmissing : p = "" ∨ d.makeFolder p ≠ .error .missing
    · exact foldersMade_of_ne_missing htree hmissing
    rw [not_or, not_not] at hmissing
    obtain ⟨hp, hmissing⟩ := hmissing
    have hplace := hground.placeOf_of_missing htree hp hmissing habsolute hsteps
    have hinner := ih (hground.enclosing habsolute hsteps)
    rw [makeFoldersFrom_cons_of_missing hp hmissing]
    rcases hq : (Files.makeFoldersFrom q outer : StateM Disk _) d with ⟨r, d₁⟩
    rw [hq] at hinner
    have hevolves : Evolves
        (fun b => b <+: d.placeOf p ∧ b ≠ d.placeOf p ∧ d.get? b = none) d d₁ := by
      apply hinner.evolves.mono
      rintro b ⟨hb, hnone⟩
      rw [hplace]
      refine ⟨hb.trans (List.prefix_append _ _), ?_, hnone⟩
      rintro rfl
      have hlength := hb.length_le
      rw [List.length_append, List.length_singleton] at hlength
      omega
    cases r with
    | error fault =>
      have hkept : d₁.get? (d.placeOf p) = d.get? (d.placeOf p) :=
        hevolves.untouched _ fun hb => hb.2.1 rfl
      exact ⟨hevolves.mono fun b hb => ⟨hb.1, hb.2.2⟩, fun _ _ => hkept, by simp, Or.inl hkept⟩
    | ok u => exact foldersMade_ensureFolder htree hevolves

/-- Making a folder with those around it adds folders on the way to it, and it last. -/
lemma foldersMade_makeFolders (htree : d.IsTree) (hground : d.Grounded p) : FoldersMade d p
    ((Files.makeFolders p : StateM Disk _) d).1 ((Files.makeFolders p : StateM Disk _) d).2 :=
  foldersMade_makeFoldersFrom htree hground p.enclosed_parents

/-- A folder is made where nothing but the folder itself is missing. -/
lemma makeFolders_of_reaches (htree : d.IsTree) (h : d.Reaches p)
    (hplace : ∀ c, d.get? (d.placeOf p) ≠ some (.file c)) :
    ∃ d', (Files.makeFolders p : StateM Disk _) d = (.ok (), d') ∧
      Evolves (· = d.placeOf p) d d' ∧ d'.isFolder p = true := by
  unfold Files.makeFolders
  rw [makeFoldersFrom_of_ne_missing h.fits.ne_empty h.ne_missing]
  cases hmake : d.makeFolder p with
  | ok d' =>
    obtain ⟨hevolves, hmade, -⟩ := evolves_makeFolder htree hmake
    exact ⟨d', ensureFolder_of_ok hmake, hevolves, hmade⟩
  | error fault =>
    have hfolder : d.get? (d.placeOf p) = some .folder := by
      rw [makeFolder_of_reaches h] at hmake
      rcases hget : d.get? (d.placeOf p) with _ | _ | c
      · simp [hget] at hmake
      · rfl
      · exact absurd hget (hplace c)
    have hisFolder : d.isFolder p = true := isFolder_iff.2 ⟨h, hfolder⟩
    refine ⟨d, ?_, .refl, hisFolder⟩
    rw [ensureFolder_of_error hmake, hisFolder]
    rfl

/-- A grounded path to a folder of a tree can be followed there if some disk can follow it. -/
lemma Grounded.walks (htree : d.IsTree) (hground : d.Grounded p) (hhere : d'.here = d.here)
    (hw : d'.Walks (d'.base p) p.pieces) (hfolder : d.get? (d.placeOf p) = some .folder) :
    d.Walks (d.base p) p.pieces := by
  rw [base_eq_of_here hhere] at hw
  have hsteps : d'.Walks (d.base p) p.steps := hw.filter
  rw [placeOf_eq_steps] at hfolder
  have hdown : d.Walks (d.base p) p.steps := by
    by_cases hdots : ".." ∈ p.steps
    · -- what comes after the last step out of a folder goes down only
      obtain ⟨as, bs, hsplit, has⟩ := List.eq_append_cons_of_mem (List.mem_reverse.2 hdots)
      have hsplit : p.steps = bs.reverse ++ ".." :: as.reverse := by
        rw [← List.reverse_reverse p.steps, hsplit]
        simp
      have hsplit' : p.steps = (bs.reverse ++ [".."]) ++ as.reverse := by simp [hsplit]
      have hbefore := hground _ _ hsplit
      rw [hsplit', walks_append] at hsteps ⊢
      rw [hsplit', List.foldl_append] at hfolder
      exact ⟨hbefore, hsteps.2.of_isTree htree (by simpa using has) hfolder⟩
    · exact hsteps.of_isTree htree hdots hfolder
  apply hdown.of_filter
  rw [← placeOf_eq_steps] at hfolder
  exact hfolder

/-- Below its place, making a folder adds nothing. -/
lemma FoldersMade.get?_below {r : Except DiskFault Unit} (h : FoldersMade d p r d₁)
    (hkept : d₁.get? (d.placeOf p) = d.get? (d.placeOf p)) {b : Place} (hb : d.placeOf p <+: b) :
    d₁.get? b = d.get? b := by
  by_cases heq : b = d.placeOf p
  · rw [heq, hkept]
  · apply h.evolves.untouched
    rintro ⟨hb', -⟩
    exact heq (hb'.eq_of_length (Nat.le_antisymm hb'.length_le hb.length_le))

/-- A folder that is new was made at a place where nothing was. -/
lemma FoldersMade.of_new {r : Except DiskFault Unit} (h : FoldersMade d p r d₁)
    (hnew : d₁.get? (d.placeOf p) ≠ d.get? (d.placeOf p)) :
    d.get? (d.placeOf p) = none ∧ d₁.isFolder p = true ∧ p.lastName?.isSome := by
  refine ⟨?_, ?_, h.named.resolve_left hnew⟩
  · by_contra hsome
    exact hnew (h.evolves.untouched _ fun ht => hsome ht.2)
  · cases r with
    | error fault => exact absurd (h.kept fault rfl) hnew
    | ok u =>
      rcases h.found rfl with ⟨-, rfl⟩ | hfolder
      · exact absurd rfl hnew
      · exact hfolder

/-- Making folders changes nothing at or below the place itself, once a folder that was not there
before is taken away again. -/
lemma FoldersMade.get?_cleanup {r : Except DiskFault Unit} (htree : d.IsTree)
    (hground : d.Grounded p) (h : FoldersMade d p r d₁) (hhere : d'.here = d₁.here)
    (hget : ∀ b, d'.get? b = d₁.get? b) {b : Place} (hb : d.placeOf p <+: b) :
    (if d.isPresent p then d' else d'.removeAll p).get? b = d.get? b := by
  have hevolves := h.evolves.trans (.of_get? hhere hget)
  by_cases hkept : d₁.get? (d.placeOf p) = d.get? (d.placeOf p)
  · have hsame : d'.get? b = d.get? b := (hget b).trans (h.get?_below hkept hb)
    split
    · exact hsame
    · rename_i habsent
      -- were the folder to be removed, it would have been there before
      have hfolder : d'.isFolder p = false := by
        rw [← Bool.not_eq_true]
        intro hfolder
        obtain ⟨hreaches, hfolder⟩ := isFolder_iff.1 hfolder
        rw [hevolves.placeOf, hget, hkept] at hfolder
        have hw := hground.walks htree hevolves.here hreaches.walks hfolder
        exact habsent (isPresent_of_isFolder (isFolder_iff.2 ⟨⟨hreaches.fits, hw⟩, hfolder⟩))
      rw [removeAll_of_not_isFolder hfolder, hsame]
  · obtain ⟨hnone, hfolder, hlast⟩ := h.of_new hkept
    have habsent : d.isPresent p = false := by
      rw [← Bool.not_eq_true]
      intro hpresent
      have hsome := (reaches_of_isPresent hpresent).2
      rw [hnone] at hsome
      cases hsome
    have hsame : Evolves (fun _ => False) d₁ d' := .of_get? hhere hget
    have hfolder' : d'.isFolder p = true := hsame.isFolder hfolder
    rw [habsent, if_neg Bool.false_ne_true,
      get?_removeAll_of_new htree hevolves.here hnone hfolder' hlast, if_pos hb]

/-! ### Folders gained

A path may step out of folders that are missing; they are made as well. -/

/-- All that is new are folders, at some of the places. -/
def Gains (places : Place → Prop) (d d' : Disk) : Prop :=
  Evolves (fun b => places b ∧ d.get? b = none ∧ d'.get? b = some .folder) d d'

namespace Gains
variable {places places' : Place → Prop}

lemma refl : Gains places d d := Evolves.refl

lemma mono (hsub : ∀ b, places b → places' b) (h : Gains places d d') : Gains places' d d' :=
  Evolves.mono (fun b hb => ⟨hsub b hb.1, hb.2⟩) h

/-- What was present stays as it is. -/
lemma get?_of_isSome (h : Gains places d d') {b : Place} (hb : (d.get? b).isSome) :
    d'.get? b = d.get? b := by
  apply h.untouched
  rintro ⟨-, hnone, -⟩
  rw [hnone] at hb
  cases hb

lemma eq_none (h : Gains places d d') {b : Place} (hb : d'.get? b = none) : d.get? b = none := by
  by_contra hsome
  rw [h.get?_of_isSome (Option.isSome_iff_ne_none.2 hsome)] at hb
  exact hsome hb

lemma get?_or (h : Gains places d d') (b : Place) :
    d'.get? b = d.get? b ∨ places b ∧ d.get? b = none ∧ d'.get? b = some .folder := by
  by_cases hb : places b ∧ d.get? b = none ∧ d'.get? b = some .folder
  · exact Or.inr hb
  · exact Or.inl (h.untouched b hb)

lemma trans (h : Gains places d d₁) (h' : Gains places d₁ d') : Gains places d d' where
  here := h'.here.trans h.here
  tree := h'.tree ∘ h.tree
  folders b hb := h'.folders b (h.folders b hb)
  untouched b hb := by
    rcases h.get?_or b with heq | ⟨hplace, hnone, hfolder⟩
    · rcases h'.get?_or b with heq' | ⟨hplace, hnone, hfolder⟩
      · exact heq'.trans heq
      · exact absurd ⟨hplace, h.eq_none hnone, hfolder⟩ hb
    · exact absurd ⟨hplace, hnone, h'.folders b hfolder⟩ hb

lemma isPresent (h : Gains places d d') (hp : d.isPresent p = true) : d'.isPresent p = true := by
  obtain ⟨hreaches, hsome⟩ := reaches_of_isPresent hp
  unfold Disk.isPresent at hp ⊢
  rw [look_of_reaches hreaches] at hp
  rw [look_of_reaches (h.reaches hreaches), Evolves.placeOf h, h.get?_of_isSome hsome]
  exact hp

end Gains

lemma gains_ensureFolder {r : Except DiskFault Unit} (htree : d.IsTree)
    (h : ensureFolder p d = (r, d')) :
    Gains (· = d.placeOf p) d d' ∧ (r = .ok () → d'.isFolder p = true) := by
  cases hmake : d.makeFolder p with
  | error fault =>
    rw [ensureFolder_of_error hmake] at h
    cases hfolder : d.isFolder p with
    | true =>
      rw [hfolder, if_pos rfl] at h
      cases h
      exact ⟨.refl, fun _ => hfolder⟩
    | false =>
      rw [hfolder, if_neg Bool.false_ne_true] at h
      cases h
      exact ⟨.refl, by simp⟩
  | ok d₁ =>
    rw [ensureFolder_of_ok hmake] at h
    cases h
    obtain ⟨hevolves, hmade, -⟩ := evolves_makeFolder htree hmake
    obtain ⟨-, hnone, -⟩ := reaches_of_makeFolder hmake
    refine ⟨hevolves.mono ?_, fun _ => hmade⟩
    rintro b rfl
    refine ⟨rfl, hnone, ?_⟩
    rw [← hevolves.placeOf]
    exact (isFolder_iff.1 hmade).2

/-- Making a folder with those around it adds folders at the places of their paths. -/
lemma gains_makeFoldersFrom {r : Except DiskFault Unit} (htree : d.IsTree)
    (h : (Files.makeFoldersFrom p outer : StateM Disk _) d = (r, d')) :
    Gains (fun b => ∃ q ∈ p :: outer, b = d.placeOf q) d d' ∧
      (r = .ok () → p = "" ∨ d'.isFolder p = true) := by
  -- by induction over the paths of the folders around, as far as they are missing
  induction outer generalizing p r d' with
  | nil =>
    by_cases hp : p = ""
    · subst hp
      rw [makeFoldersFrom_empty] at h
      cases h
      exact ⟨.refl, fun _ => Or.inl rfl⟩
    by_cases hmissing : d.makeFolder p = .error .missing
    · rw [makeFoldersFrom_nil_of_missing hp hmissing] at h
      cases h
      exact ⟨.refl, by simp⟩
    · rw [makeFoldersFrom_of_ne_missing hp hmissing] at h
      obtain ⟨hgains, hfolder⟩ := gains_ensureFolder htree h
      exact ⟨hgains.mono fun b hb => ⟨p, List.mem_cons_self, hb⟩, fun hr => Or.inr (hfolder hr)⟩
  | cons q outer ih =>
    by_cases hp : p = ""
    · subst hp
      rw [makeFoldersFrom_empty] at h
      cases h
      exact ⟨.refl, fun _ => Or.inl rfl⟩
    by_cases hmissing : d.makeFolder p = .error .missing
    · rw [makeFoldersFrom_cons_of_missing hp hmissing] at h
      rcases hq : (Files.makeFoldersFrom q outer : StateM Disk _) d with ⟨r₁, d₁⟩
      obtain ⟨hinner, -⟩ := ih hq
      have houter : Gains (fun b => ∃ q' ∈ p :: q :: outer, b = d.placeOf q') d d₁ :=
        hinner.mono fun b ⟨q', hq', hb⟩ => ⟨q', List.mem_cons_of_mem _ hq', hb⟩
      rw [hq] at h
      cases r₁ with
      | error fault =>
        cases h
        exact ⟨houter, by simp⟩
      | ok u =>
        obtain ⟨hgains, hfolder⟩ := gains_ensureFolder (hinner.tree htree) h
        rw [Evolves.placeOf hinner] at hgains
        exact ⟨houter.trans (hgains.mono fun b hb => ⟨p, List.mem_cons_self, hb⟩),
          fun hr => Or.inr (hfolder hr)⟩
    · rw [makeFoldersFrom_of_ne_missing hp hmissing] at h
      obtain ⟨hgains, hfolder⟩ := gains_ensureFolder htree h
      exact ⟨hgains.mono fun b hb => ⟨p, List.mem_cons_self, hb⟩, fun hr => Or.inr (hfolder hr)⟩

end Disk
end Sortie
