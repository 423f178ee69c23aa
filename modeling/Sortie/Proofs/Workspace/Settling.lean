import Sortie.Proofs.Workspace.Staging

/-! Moving staged files to their places. Once all files of a fleet are staged under different names,
and nothing is in the way of them, every move succeeds. -/
namespace Sortie

namespace Path
variable {root f : Path} {n v : String}

/-- The path of a folder inside the scratch folder is longer than the path of its place. -/
lemma Fits.settleFolder (hn : IsName n) (hv : IsName v) (h : ((root.join n).join v).Fits) :
    (root.join v).Fits := by
  rw [join_assoc hn.isAbsolute hn.ne_empty hv.isAbsolute] at h
  exact h.leave hn.isAbsolute hv.isAbsolute hv.ne_empty

lemma Fits.settleFile (hn : IsName n) (hv : IsName v) (hf : f.isAbsolute = false)
    (h : (((root.join n).join v).join f).Fits) : ((root.join v).join f).Fits := by
  have hvf : (Path.join v f).isAbsolute = false := by rw [isAbsolute_join hf, hv.isAbsolute]
  have hnv : (Path.join n v).isAbsolute = false := by
    rw [isAbsolute_join hv.isAbsolute, hn.isAbsolute]
  have hnv_ne : Path.join n v ≠ "" := by
    rw [join_eq hv.isAbsolute]
    simp [hv.ne_empty]
  have hvf_ne : Path.join v f ≠ "" := by
    rw [join_eq hf]
    simp [hv.ne_empty]
  rw [join_assoc hn.isAbsolute hn.ne_empty hv.isAbsolute, join_assoc hnv hnv_ne hf,
    join_assoc hv.isAbsolute hv.ne_empty hf] at h
  rw [join_assoc hv.isAbsolute hv.ne_empty hf]
  exact h.leave hn.isAbsolute hvf hvf_ne

end Path

namespace Disk
variable {d d' : Disk} {root f : Path} {n v : String} {a b : Place} {ns : List String}

/-- A way of one name and dots in front of it can be walked from any folder. -/
lemma Walks.of_single (hsingle : ns.filter (· ≠ ".") = [n]) (hlast : ns.getLast? = some n)
    (hw : d'.Walks a ns) (hb : d.get? b = some .folder) : d.Walks b ns := by
  induction ns generalizing a with
  | nil => trivial
  | cons m ms ih =>
    have hlast_tail (hne : ms ≠ []) : ms.getLast? = some n := by
      rwa [← List.singleton_append, List.getLast?_append, List.getLast?_eq_some_getLast hne,
        Option.some_or, ← List.getLast?_eq_some_getLast hne] at hlast
    by_cases hdot : m = "."
    · subst hdot
      have hms : ms.filter (· ≠ ".") = [n] := by simpa using hsingle
      have hne : ms ≠ [] := by
        rintro rfl
        cases hms
      exact ⟨hb, by decide, ih hms (hlast_tail hne) (by simpa [descend] using hw.2.2)⟩
    · obtain ⟨rfl, hms⟩ : m = n ∧ ms.filter (· ≠ ".") = [] := by simpa [hdot] using hsingle
      have hnil : ms = [] := by
        by_contra hne
        have hmem : m ∈ ms.filter (· ≠ ".") :=
          List.mem_filter.2 ⟨List.mem_of_getLast? (hlast_tail hne), by simpa using hdot⟩
        rw [hms] at hmem
        cases hmem
      subst hnil
      exact ⟨hb, hw.2.1, trivial⟩

lemma HoldsFile.walks (h : d'.HoldsFile root f) (hf : f.StaysInside)
    (hb : d.get? b = some .folder) : d.Walks b f.pieces := by
  obtain ⟨n, hn⟩ := h.single
  obtain ⟨m, hm⟩ := Option.isSome_iff_exists.1 h.named
  obtain ⟨hlast, hdots⟩ := Option.filter_eq_some_iff.1 hm
  have hmem : m ∈ f.steps := by
    refine List.mem_filter.2 ⟨List.mem_of_getLast? hlast, ?_⟩
    simp only [Bool.and_eq_true] at hdots
    exact hdots.1
  obtain rfl : m = n := by simpa [hn] using hmem
  exact ((reaches_join_iff hf.relative).1 h.reaches).2.2.of_single hn hlast hb

lemma Reaches.settleFolder (hn : Path.IsName n) (hv : Path.IsName v)
    (h : d.Reaches ((root.join n).join v)) : d.Reaches (root.join v) := by
  obtain ⟨hfits, hw, -, hsize⟩ := (reaches_join_name_iff hv).1 h
  rw [base_join hn.isAbsolute, Path.pieces_join hn.isAbsolute, hn.pieces, walks_append] at hw
  exact (reaches_join_name_iff hv).2 ⟨hfits.settleFolder hn hv, hw.1, hw.2.1, hsize⟩

lemma HoldsFile.reaches_settled (hn : Path.IsName n) (hv : Path.IsName v) (hf : f.StaysInside)
    (h : d'.HoldsFile ((root.join n).join v) f) (hreaches : d.Reaches (root.join v))
    (hfolder : d.get? (d.placeOf (root.join v)) = some .folder) :
    d.Reaches ((root.join v).join f) :=
  (reaches_join_iff hf.relative).2 ⟨h.reaches.fits.settleFile hn hv hf.relative, hreaches.walks,
    h.walks hf hfolder⟩

end Disk

namespace Workspace
open Disk
variable {d d' : Disk} {s : Settings} {root f g : Path} {n v : String} {o o' : VehicleOutput}
  {outputs : List VehicleOutput} {fs : List (String × String)} {a : Place}
  {touched : Place → Prop}

/-- The places of a vehicle below an output root: its part of the scratch folder and its folder. -/
def IsPlaceOf (a : Place) (n v : String) (b : Place) : Prop := a ++ [n, v] <+: b ∨ a ++ [v] <+: b

/-- No place is of two vehicles. -/
lemma IsPlaceOf.vehicle_eq {v' : String} {b : Place} (h : IsPlaceOf a n v b)
    (h' : IsPlaceOf a n v' b) (hne : n ≠ v) (hne' : n ≠ v') : v = v' := by
  have hsame {t t' : Place} {x x' : String} (hb : a ++ x :: t <+: b) (hb' : a ++ x' :: t' <+: b) :
      x = x' := by
    obtain ⟨r, rfl⟩ := hb
    rw [List.append_assoc, List.prefix_append_right_inj] at hb'
    exact (List.cons_prefix_cons.1 hb').1.symm
  rcases h with h | h
  · rcases h' with h' | h'
    · obtain ⟨r, rfl⟩ := h
      rw [List.append_assoc, List.prefix_append_right_inj] at h'
      exact (List.cons_prefix_cons.1 (List.cons_prefix_cons.1 h').2).1.symm
    · exact absurd (hsame h h') hne'
  · rcases h' with h' | h'
    · exact absurd (hsame h' h) hne
    · exact hsame h h'

lemma placeOf_scratch (hn : Path.IsName n) (hv : Path.IsName v) (hf : Path.StaysInside f) :
    d.placeOf (((root.join n).join v).join f) = d.placeOf root ++ [n, v] ++ Path.steps f := by
  rw [placeOf_join_inside hf, placeOf_join_name hv, placeOf_join_name hn]
  simp

lemma placeOf_settled (hv : Path.IsName v) (hf : Path.StaysInside f) :
    d.placeOf ((root.join v).join f) = d.placeOf root ++ [v] ++ Path.steps f := by
  rw [placeOf_join_inside hf, placeOf_join_name hv]

lemma placeOf_scratch_ne (hn : Path.IsName n) (hv : Path.IsName v) (hf : Path.StaysInside f) :
    d.placeOf (((root.join n).join v).join f) ≠ d.placeOf (root.join v) := by
  intro heq
  rw [placeOf_scratch hn hv hf, placeOf_join_name hv] at heq
  have hlength := congrArg List.length heq
  simp at hlength

section Places
variable (hn : Path.IsName n) (hv : Path.IsName v) (hf : Path.StaysInside f)

include hv in
lemma isPlaceOf_folder : IsPlaceOf (d.placeOf root) n v (d.placeOf (root.join v)) :=
  Or.inr (by rw [placeOf_join_name hv])

include hv hf in
lemma isPlaceOf_file : IsPlaceOf (d.placeOf root) n v (d.placeOf ((root.join v).join f)) :=
  Or.inr (by rw [placeOf_settled hv hf]; exact List.prefix_append _ _)

include hn hv hf in
lemma isPlaceOf_scratch :
    IsPlaceOf (d.placeOf root) n v (d.placeOf (((root.join n).join v).join f)) :=
  Or.inl (by rw [placeOf_scratch hn hv hf]; exact List.prefix_append _ _)

end Places

/-- The places that change when a vehicle is settled: its part of the scratch folder, its folder and
its files. -/
def Settles (a : Place) (n : String) (s : Settings) (o : VehicleOutput) (b : Place) : Prop :=
  a ++ [n, o.vehicle] <+: b ∨ b = a ++ [o.vehicle] ∨
    ∃ f ∈ o.files s, b = a ++ [o.vehicle] ++ Path.steps f.1

lemma Settles.isPlaceOf {b : Place} (h : Settles a n s o b) : IsPlaceOf a n o.vehicle b := by
  rcases h with hscratch | rfl | ⟨f, -, rfl⟩
  · exact Or.inl hscratch
  · exact Or.inr (List.prefix_refl _)
  · exact Or.inr (List.prefix_append _ _)

/-- Settling one vehicle does not touch the places of others. -/
lemma not_settles (hnew : o.vehicle ∉ outputs.map VehicleOutput.vehicle) (hne : n ≠ o.vehicle)
    (hne' : ∀ o' ∈ outputs, n ≠ o'.vehicle) (ho' : o' ∈ outputs) (b : Place)
    (hb : IsPlaceOf a n o'.vehicle b) : ¬ Settles a n s o b := by
  intro hb'
  have heq := hb'.isPlaceOf.vehicle_eq hb hne (hne' o' ho')
  exact hnew (heq ▸ List.mem_map_of_mem ho')

/-- The places that change when a file is moved from the scratch folder to its vehicle's. -/
def Moves (a : Place) (n v : String) (f : Path) (b : Place) : Prop :=
  b = a ++ [n, v] ++ f.steps ∨ b = a ++ [v] ++ f.steps

/-- Moving one file does not touch another of the vehicle. -/
lemma not_moves (hf : d.HoldsFile root f) (hg : d.HoldsFile root g)
    (hapart : Path.steps f ≠ Path.steps g) :
    ¬ Moves a n v f (a ++ [n, v] ++ Path.steps g) ∧ ¬ Moves a n v f (a ++ [v] ++ Path.steps g) := by
  obtain ⟨m, hm⟩ := hf.single
  obtain ⟨m', hm'⟩ := hg.single
  rw [hm, hm'] at hapart
  unfold Moves
  rw [hm, hm']
  constructor <;> simp [Ne.symm hapart]

/-- Moving one staged file to its place. -/
lemma exists_move (htree : d.IsTree) (hn : Path.IsName n) (hv : Path.IsName v) (hne : n ≠ v)
    (hf : Path.StaysInside f) (hfolder : d.isFolder (root.join v) = true)
    (hholds : d.HoldsFile ((root.join n).join v) f)
    (hfree : d.get? (d.placeOf ((root.join v).join f)) ≠ some .folder) :
    ∃ d', d.move (((root.join n).join v).join f) ((root.join v).join f) = .ok d' ∧
      Evolves (Moves (d.placeOf root) n v f) d d' ∧
      d'.get? (d.placeOf root ++ [v] ++ Path.steps f) =
        d.get? (d.placeOf root ++ [n, v] ++ Path.steps f) := by
  obtain ⟨hreaches, hisFolder⟩ := isFolder_iff.1 hfolder
  have htarget := hholds.reaches_settled hn hv hf hreaches hisFolder
  have hpieces : Path.pieces f ≠ [] := by
    intro hnil
    have hnamed := hholds.named
    simp [Path.lastName?, hnil] at hnamed
  have hempty : f ≠ "" := by
    rintro rfl
    exact hpieces rfl
  have hlast {p : Path} : (p.join f).lastName?.isSome := by
    rw [Path.lastName?_join hf.relative hpieces]
    exact hholds.named
  have hslash {p : Path} : (p.join f).endsInSlash = false := by
    rw [Path.endsInSlash_join hf.relative hempty]
    exact hholds.noSlash
  obtain ⟨c, hfile⟩ := hholds.isFile
  obtain ⟨m, hm⟩ := hholds.single
  have hmove := evolves_move htree hholds.reaches htarget hlast hlast hslash hslash hfile hfree
  rw [placeOf_scratch hn hv hf] at hfile hmove
  rw [placeOf_settled hv hf] at hmove
  rw [hfile]
  apply hmove
  · intro hbelow
    have hlength := hbelow.length_le
    simp only [List.length_append, List.length_cons, List.length_nil] at hlength
    omega
  · rw [hm, List.append_assoc, List.append_assoc, List.prefix_append_right_inj]
    intro hbelow
    exact hne (List.cons_prefix_cons.1 hbelow).1.symm

/-- Moving one file leaves the others of its vehicle where they are. -/
lemma get?_of_moved (hn : Path.IsName n) (hv : Path.IsName v)
    (hf : d.HoldsFile ((root.join n).join v) f) (hg : d.HoldsFile ((root.join n).join v) g)
    (hinside : Path.StaysInside g) (hapart : Path.steps f ≠ Path.steps g)
    (hevolves : Evolves (Moves (d.placeOf root) n v f) d d') :
    d'.get? (d.placeOf (((root.join n).join v).join g)) =
        d.get? (d.placeOf (((root.join n).join v).join g)) ∧
      d'.get? (d.placeOf ((root.join v).join g)) = d.get? (d.placeOf ((root.join v).join g)) := by
  obtain ⟨hscratch, hsettled⟩ := not_moves hf hg hapart
  rw [placeOf_scratch hn hv hinside, placeOf_settled hv hinside]
  exact ⟨hevolves.untouched _ hscratch, hevolves.untouched _ hsettled⟩

lemma holdsFile_of_moved (hn : Path.IsName n) (hv : Path.IsName v)
    (hf : d.HoldsFile ((root.join n).join v) f) (hg : d.HoldsFile ((root.join n).join v) g)
    (hinside : Path.StaysInside g) (hapart : Path.steps f ≠ Path.steps g)
    (hevolves : Evolves (Moves (d.placeOf root) n v f) d d') :
    d'.HoldsFile ((root.join n).join v) g := by
  apply hg.evolves hevolves
  rw [(get?_of_moved hn hv hf hg hinside hapart hevolves).1]
  exact fun _ => hg.isFile

/-- Moves the files of one vehicle, one after another. -/
def moveFiles (root : Path) (n v : String) (fs : List (String × String)) :
    Job (StateM Disk) Failure (List Path) :=
  fs.mapM fun f => do
    Job.attempt (.disk ((root.join v).join f.1))
      (Files.move (((root.join n).join v).join f.1) ((root.join v).join f.1))
    return (root.join v).join f.1

lemma outcome_moveFiles_cons {f : String × String}
    (h : d.move (((root.join n).join v).join f.1) ((root.join v).join f.1) = .ok d') :
    (moveFiles root n v (f :: fs)).outcome d =
      ((((root.join v).join f.1) :: ·) <$> moveFiles root n v fs).outcome d' := by
  unfold moveFiles
  rw [List.mapM_cons, LawfulMonad.bind_assoc, Job.outcome_bind_of_ok (Job.outcome_move_of_ok h),
    LawfulMonad.pure_bind, map_eq_pure_bind]

/-- Staged files can be moved if no folder is in the way of them. They are moved as they are. -/
lemma exists_moveFiles (htree : d.IsTree) (hn : Path.IsName n) (hv : Path.IsName v) (hne : n ≠ v)
    (hapart : fs.Pairwise fun f g => Path.steps f.1 ≠ Path.steps g.1)
    (hinside : ∀ f ∈ fs, Path.StaysInside f.1) (hfolder : d.isFolder (root.join v) = true)
    (hholds : ∀ f ∈ fs, d.HoldsFile ((root.join n).join v) f.1)
    (hfree : ∀ f ∈ fs, d.get? (d.placeOf ((root.join v).join f.1)) ≠ some .folder) :
    ∃ d', (moveFiles root n v fs).outcome d =
        (.ok (fs.map fun f => (root.join v).join f.1), d') ∧
      Evolves (fun b => ∃ f ∈ fs, Moves (d.placeOf root) n v f.1 b) d d' ∧
      ∀ f ∈ fs, d'.get? (d.placeOf root ++ [v] ++ Path.steps f.1) =
        d.get? (d.placeOf root ++ [n, v] ++ Path.steps f.1) := by
  induction fs generalizing d with
  | nil => exact ⟨d, rfl, .refl, by simp⟩
  | cons f fs ih =>
    rw [List.pairwise_cons] at hapart
    have hf := hinside f List.mem_cons_self
    have hholds_f := hholds f List.mem_cons_self
    obtain ⟨d₁, hmove, hevolves, hmoved⟩ := exists_move htree hn hv hne hf hfolder hholds_f
      (hfree f List.mem_cons_self)
    have hother (g : String × String) (hg : g ∈ fs) :=
      get?_of_moved hn hv hholds_f (hholds g (List.mem_cons_of_mem _ hg))
        (hinside g (List.mem_cons_of_mem _ hg)) (hapart.1 g hg) hevolves
    have hholds₁ : ∀ g ∈ fs, d₁.HoldsFile ((root.join n).join v) g.1 := fun g hg =>
      holdsFile_of_moved hn hv hholds_f (hholds g (List.mem_cons_of_mem _ hg))
        (hinside g (List.mem_cons_of_mem _ hg)) (hapart.1 g hg) hevolves
    have hfree₁ : ∀ g ∈ fs, d₁.get? (d₁.placeOf ((root.join v).join g.1)) ≠ some .folder := by
      intro g hg
      rw [hevolves.placeOf, (hother g hg).2]
      exact hfree g (List.mem_cons_of_mem _ hg)
    obtain ⟨d₂, houtcome, hrest, hall⟩ := ih (hevolves.tree htree) hapart.2
      (fun g hg => hinside g (List.mem_cons_of_mem _ hg)) (hevolves.isFolder hfolder) hholds₁ hfree₁
    rw [hevolves.placeOf] at hrest hall
    refine ⟨d₂, ?_, (hevolves.mono ?_).trans (hrest.mono ?_), ?_⟩
    · rw [outcome_moveFiles_cons hmove, map_eq_pure_bind, Job.outcome_bind_of_ok houtcome]
      rfl
    · exact fun b hb => ⟨f, List.mem_cons_self, hb⟩
    · rintro b ⟨g, hg, hb⟩
      exact ⟨g, List.mem_cons_of_mem _ hg, hb⟩
    · intro g hg
      rcases List.mem_cons.1 hg with rfl | hg
      · -- the moves that follow are of files with other names
        rw [hrest.untouched, hmoved]
        rintro ⟨f, hmem, hmoves⟩
        have hholds' := hholds f (List.mem_cons_of_mem _ hmem)
        exact (not_moves hholds' hholds_f (hapart.1 f hmem).symm).2 hmoves
      · have hg' := hinside g (List.mem_cons_of_mem _ hg)
        rw [hall g hg, ← placeOf_scratch hn hv hg', (hother g hg).1]

/-- The files of a vehicle are staged, and nothing is in the way of its folder and of them. -/
structure Ready (d : Disk) (n : String) (s : Settings) (o : VehicleOutput) : Prop where
  staged : Staged d (s.outputRoot.join n) s o
  free : ∀ c, d.get? (d.placeOf (s.outputRoot.join o.vehicle)) ≠ some (.file c)
  clear : ∀ f ∈ o.files s,
    d.get? (d.placeOf ((s.outputRoot.join o.vehicle).join f.1)) ≠ some .folder

/-- A vehicle has its folder, and its files are there as they were staged. -/
structure Settled (n : String) (s : Settings) (o : VehicleOutput) (d d' : Disk) : Prop where
  folder : d'.isFolder (s.outputRoot.join o.vehicle) = true
  files : ∀ f ∈ o.files s, d'.get? (d'.placeOf ((s.outputRoot.join o.vehicle).join f.1)) =
    d.get? (d.placeOf (((s.outputRoot.join n).join o.vehicle).join f.1))

/-- A vehicle that is ready can be settled. -/
lemma Ready.exists_settleVehicle (h : Ready d n s o) (htree : d.IsTree) (hn : Path.IsName n)
    (hv : Path.IsName o.vehicle) (hne : n ≠ o.vehicle) (hs : s.KeepsFilesApart) :
    ∃ d', (settleVehicle (s.outputRoot.join n) s o : Job (StateM Disk) _ _).outcome d =
        (.ok ((o.files s).map fun f => (s.outputRoot.join o.vehicle).join f.1), d') ∧
      Evolves (Settles (d.placeOf s.outputRoot) n s o) d d' ∧ Settled n s o d d' := by
  have hreaches := (isFolder_iff.1 h.staged.folder).1.settleFolder hn hv
  obtain ⟨d₁, hmake, hevolves, hfolder⟩ := makeFolders_of_reaches htree hreaches h.free
  have hplaceOf : d.placeOf (s.outputRoot.join o.vehicle) = d.placeOf s.outputRoot ++ [o.vehicle] :=
    placeOf_join_name hv
  have hholds : ∀ f ∈ o.files s, d₁.HoldsFile ((s.outputRoot.join n).join o.vehicle) f.1 := by
    intro f hf
    apply (h.staged.files f hf).evolves hevolves
    exact fun heq => absurd heq (placeOf_scratch_ne hn hv (hs.inside hf))
  have hfree : ∀ f ∈ o.files s,
      d₁.get? (d₁.placeOf ((s.outputRoot.join o.vehicle).join f.1)) ≠ some .folder := by
    intro f hf
    obtain ⟨m, hm⟩ := (h.staged.files f hf).single
    rw [hevolves.placeOf, hevolves.untouched]
    · exact h.clear f hf
    · rw [placeOf_settled hv (hs.inside hf), hplaceOf, hm]
      simp
  obtain ⟨d₂, houtcome, hmoved, hfiles⟩ := exists_moveFiles (hevolves.tree htree) hn hv hne
    hs.pairwise (fun f hf => hs.inside hf) hfolder hholds hfree
  rw [hevolves.placeOf] at hmoved hfiles
  refine ⟨d₂, ?_, (hevolves.mono ?_).trans (hmoved.mono ?_), hmoved.isFolder hfolder, ?_⟩
  · unfold settleVehicle
    rw [Job.outcome_bind_of_ok (Job.outcome_attempt_of_ok hmake)]
    exact houtcome
  · rintro b rfl
    exact Or.inr (Or.inl hplaceOf)
  · rintro b ⟨f, hf, rfl | rfl⟩
    · exact Or.inl (List.prefix_append _ _)
    · exact Or.inr (Or.inr ⟨f, hf, rfl⟩)
  · intro f hf
    rw [hmoved.placeOf, hevolves.placeOf, placeOf_settled hv (hs.inside hf), hfiles f hf,
      ← placeOf_scratch hn hv (hs.inside hf),
      hevolves.untouched _ (placeOf_scratch_ne hn hv (hs.inside hf))]

/-- Settling one vehicle leaves the others ready. -/
lemma Ready.evolves (h : Ready d n s o) (hn : Path.IsName n) (hv : Path.IsName o.vehicle)
    (hs : s.KeepsFilesApart) (hevolves : Evolves touched d d')
    (havoid : ∀ b, IsPlaceOf (d.placeOf s.outputRoot) n o.vehicle b → ¬ touched b) :
    Ready d' n s o where
  staged := by
    apply h.staged.evolves hv (fun f hf => hs.inside hf) hevolves
    intro b hb
    rw [placeOf_join_name hn, List.append_assoc] at hb
    exact havoid b (Or.inl hb)
  free c := by
    rw [hevolves.placeOf, hevolves.untouched _ (havoid _ (isPlaceOf_folder hv))]
    exact h.free c
  clear f hf := by
    rw [hevolves.placeOf, hevolves.untouched _ (havoid _ (isPlaceOf_file hv (hs.inside hf)))]
    exact h.clear f hf

/-- Nor was anything in the way of a vehicle before others were settled. -/
lemma Ready.of_evolves (h : Ready d' n s o) (hstaged : Staged d (s.outputRoot.join n) s o)
    (hv : Path.IsName o.vehicle) (hs : s.KeepsFilesApart) (hevolves : Evolves touched d d')
    (havoid : ∀ b, IsPlaceOf (d.placeOf s.outputRoot) n o.vehicle b → ¬ touched b) :
    Ready d n s o where
  staged := hstaged
  free c := by
    rw [← hevolves.untouched _ (havoid _ (isPlaceOf_folder hv)), ← hevolves.placeOf]
    exact h.free c
  clear f hf := by
    rw [← hevolves.untouched _ (havoid _ (isPlaceOf_file hv (hs.inside hf))), ← hevolves.placeOf]
    exact h.clear f hf

lemma Settled.evolves {d₁ : Disk} (h : Settled n s o d₁ d) (hv : Path.IsName o.vehicle)
    (hs : s.KeepsFilesApart) (hevolves : Evolves touched d d')
    (havoid : ∀ b, IsPlaceOf (d.placeOf s.outputRoot) n o.vehicle b → ¬ touched b) :
    Settled n s o d₁ d' where
  folder := hevolves.isFolder h.folder
  files f hf := by
    rw [hevolves.placeOf, hevolves.untouched _ (havoid _ (isPlaceOf_file hv (hs.inside hf))),
      h.files f hf]

lemma Settled.of_evolves {d₁ : Disk} (h : Settled n s o d₁ d') (hn : Path.IsName n)
    (hv : Path.IsName o.vehicle) (hs : s.KeepsFilesApart) (hevolves : Evolves touched d d₁)
    (havoid : ∀ b, IsPlaceOf (d.placeOf s.outputRoot) n o.vehicle b → ¬ touched b) :
    Settled n s o d d' where
  folder := h.folder
  files f hf := by
    rw [h.files f hf, hevolves.placeOf,
      hevolves.untouched _ (havoid _ (isPlaceOf_scratch hn hv (hs.inside hf)))]

/-- A fleet whose vehicles are all ready can be settled. -/
lemma exists_settleVehicles (htree : d.IsTree) (hn : Path.IsName n)
    (hvs : ∀ o ∈ outputs, Path.IsName o.vehicle) (hne : ∀ o ∈ outputs, n ≠ o.vehicle)
    (hnodup : (outputs.map VehicleOutput.vehicle).Nodup) (hs : s.KeepsFilesApart)
    (hready : ∀ o ∈ outputs, Ready d n s o) :
    ∃ d', (outputs.mapM (settleVehicle (s.outputRoot.join n) s) : Job (StateM Disk) _ _).outcome d =
        (.ok (outputs.map fun o => (o.files s).map fun f =>
          (s.outputRoot.join o.vehicle).join f.1), d') ∧
      Evolves (fun b => ∃ o ∈ outputs, Settles (d.placeOf s.outputRoot) n s o b) d d' ∧
      ∀ o ∈ outputs, Settled n s o d d' := by
  induction outputs generalizing d with
  | nil => exact ⟨d, rfl, .refl, by simp⟩
  | cons o outputs ih =>
    rw [List.map_cons, List.nodup_cons] at hnodup
    rw [List.forall_mem_cons] at hvs hne hready
    obtain ⟨d₁, hfirst, hevolves, hsettled⟩ :=
      hready.1.exists_settleVehicle htree hn hvs.1 hne.1 hs
    have hready₁ : ∀ o' ∈ outputs, Ready d₁ n s o' := fun o' ho' =>
      (hready.2 o' ho').evolves hn (hvs.2 o' ho') hs hevolves
        (not_settles hnodup.1 hne.1 hne.2 ho')
    obtain ⟨d₂, hrest, hevolves', hall⟩ :=
      ih (hevolves.tree htree) hvs.2 hne.2 hnodup.2 hready₁
    refine ⟨d₂, ?_, ?_, ?_⟩
    · rw [List.mapM_cons, Job.outcome_bind_of_ok hfirst, Job.outcome_bind_of_ok hrest]
      rfl
    · rw [hevolves.placeOf] at hevolves'
      refine (hevolves.mono ?_).trans (hevolves'.mono ?_)
      · exact fun b hb => ⟨o, List.mem_cons_self, hb⟩
      · rintro b ⟨o', ho', hb⟩
        exact ⟨o', List.mem_cons_of_mem _ ho', hb⟩
    · intro o' ho'
      rcases List.mem_cons.1 ho' with rfl | ho'
      · apply hsettled.evolves hvs.1 hs hevolves'
        rintro b hb ⟨o'', ho'', hb''⟩
        have heq := hb.vehicle_eq hb''.isPlaceOf hne.1 (hne.2 o'' ho'')
        exact hnodup.1 (heq ▸ List.mem_map_of_mem ho'')
      · exact (hall o' ho').of_evolves hn (hvs.2 o' ho') hs hevolves
          (not_settles hnodup.1 hne.1 hne.2 ho')

/-! ### What success takes -/

lemma ne_folder_of_moveFiles {paths : List Path} (htree : d.IsTree) (hn : Path.IsName n)
    (hv : Path.IsName v) (hne : n ≠ v)
    (hapart : fs.Pairwise fun f g => Path.steps f.1 ≠ Path.steps g.1)
    (hinside : ∀ f ∈ fs, Path.StaysInside f.1) (hfolder : d.isFolder (root.join v) = true)
    (hholds : ∀ f ∈ fs, d.HoldsFile ((root.join n).join v) f.1)
    (h : (moveFiles root n v fs).outcome d = (.ok paths, d')) :
    ∀ f ∈ fs, d.get? (d.placeOf ((root.join v).join f.1)) ≠ some .folder := by
  induction fs generalizing d d' paths with
  | nil => simp
  | cons f fs ih =>
    rw [List.pairwise_cons] at hapart
    rw [List.forall_mem_cons] at hinside hholds ⊢
    cases hmove : d.move (((root.join n).join v).join f.1) ((root.join v).join f.1) with
    | error fault =>
      unfold moveFiles at h
      rw [List.mapM_cons, LawfulMonad.bind_assoc,
        Job.outcome_bind_of_error (Job.outcome_move_of_error hmove)] at h
      cases h
    | ok d₁ =>
      obtain ⟨c, hfile⟩ := hholds.1.isFile
      have hfree := ne_folder_of_move hholds.1.reaches hfile hmove
      obtain ⟨d₁', hmove', hevolves, -⟩ :=
        exists_move htree hn hv hne hinside.1 hfolder hholds.1 hfree
      cases hmove.symm.trans hmove'
      rw [outcome_moveFiles_cons hmove, map_eq_pure_bind, Job.outcome_bind_eq_ok_iff] at h
      obtain ⟨paths', d₂, hrest, -⟩ := h
      have hclear := ih (hevolves.tree htree) hapart.2 hinside.2 (hevolves.isFolder hfolder)
        (fun g hg => holdsFile_of_moved hn hv hholds.1 (hholds.2 g hg) (hinside.2 g hg)
          (hapart.1 g hg) hevolves) hrest
      refine ⟨hfree, fun g hg hblocked => hclear g hg ?_⟩
      rw [hevolves.placeOf]
      exact hevolves.folders _ hblocked

/-- Where a staged vehicle has been settled, nothing was in its way. -/
lemma Staged.ready_of_settleVehicle {paths : List Path}
    (hstaged : Staged d (s.outputRoot.join n) s o) (htree : d.IsTree) (hn : Path.IsName n)
    (hv : Path.IsName o.vehicle) (hne : n ≠ o.vehicle) (hs : s.KeepsFilesApart)
    (h : (settleVehicle (s.outputRoot.join n) s o : Job (StateM Disk) _ _).outcome d =
      (.ok paths, d')) : Ready d n s o := by
  unfold settleVehicle at h
  obtain ⟨u, d₁, hmake, hmove⟩ := Job.outcome_bind_eq_ok_iff.1 h
  rcases hfolders : (Files.makeFolders (s.outputRoot.join o.vehicle) : StateM Disk _) d with
    ⟨fault | u, d₂⟩
  · rw [Job.outcome_attempt_of_error hfolders] at hmake
    cases hmake
  rw [Job.outcome_attempt_of_ok hfolders] at hmake
  cases hmake
  obtain ⟨hgains, hfound⟩ := gains_makeFoldersFrom htree hfolders
  have hreaches := (isFolder_iff.1 hstaged.folder).1.settleFolder hn hv
  have hfolder := (hfound rfl).resolve_left hreaches.fits.ne_empty
  have hholds : ∀ f ∈ o.files s, d₁.HoldsFile ((s.outputRoot.join n).join o.vehicle) f.1 := by
    intro f hf
    apply (hstaged.files f hf).evolves hgains
    rintro ⟨-, hnone, -⟩
    obtain ⟨c, hfile⟩ := (hstaged.files f hf).isFile
    rw [hnone] at hfile
    cases hfile
  have hclear := ne_folder_of_moveFiles (hgains.tree htree) hn hv hne hs.pairwise
    (fun f hf => hs.inside hf) hfolder hholds hmove
  refine ⟨hstaged, ?_, ?_⟩
  · intro c hfile
    have hget := (isFolder_iff.1 hfolder).2
    rw [Evolves.placeOf hgains, hgains.get?_of_isSome (by rw [hfile]; rfl), hfile] at hget
    cases hget
  · intro f hf hblocked
    apply hclear f hf
    rw [Evolves.placeOf hgains]
    exact hgains.folders _ hblocked

lemma ready_of_settleVehicles {written : List (List Path)} (htree : d.IsTree)
    (hn : Path.IsName n) (hvs : ∀ o ∈ outputs, Path.IsName o.vehicle)
    (hne : ∀ o ∈ outputs, n ≠ o.vehicle) (hnodup : (outputs.map VehicleOutput.vehicle).Nodup)
    (hs : s.KeepsFilesApart) (hstaged : ∀ o ∈ outputs, Staged d (s.outputRoot.join n) s o)
    (h : (outputs.mapM (settleVehicle (s.outputRoot.join n) s) : Job (StateM Disk) _ _).outcome d =
      (.ok written, d')) : ∀ o ∈ outputs, Ready d n s o := by
  induction outputs generalizing d d' written with
  | nil => simp
  | cons o outputs ih =>
    rw [List.map_cons, List.nodup_cons] at hnodup
    rw [List.forall_mem_cons] at hvs hne hstaged ⊢
    rw [List.mapM_cons, Job.outcome_bind_eq_ok_iff] at h
    obtain ⟨paths, d₁, hfirst, hrest⟩ := h
    obtain ⟨written', d₂, hrest, -⟩ := Job.outcome_bind_eq_ok_iff.1 hrest
    have hready := hstaged.1.ready_of_settleVehicle htree hn hvs.1 hne.1 hs hfirst
    obtain ⟨d₁', hfirst', hevolves, -⟩ := hready.exists_settleVehicle htree hn hvs.1 hne.1 hs
    obtain ⟨-, rfl⟩ := Prod.mk.inj (hfirst.symm.trans hfirst')
    have hstaged₁ : ∀ o' ∈ outputs, Staged d₁ (s.outputRoot.join n) s o' := by
      intro o' ho'
      apply (hstaged.2 o' ho').evolves (hvs.2 o' ho') (fun f hf => hs.inside hf) hevolves
      intro b hb
      rw [placeOf_join_name hn, List.append_assoc] at hb
      exact not_settles hnodup.1 hne.1 hne.2 ho' b (Or.inl hb)
    refine ⟨hready, fun o' ho' => ?_⟩
    exact (ih (hevolves.tree htree) hvs.2 hne.2 hnodup.2 hstaged₁ hrest o' ho').of_evolves
      (hstaged.2 o' ho') (hvs.2 o' ho') hs hevolves (not_settles hnodup.1 hne.1 hne.2 ho')

end Workspace
end Sortie
