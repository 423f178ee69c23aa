import Mathlib.Data.List.Nodup
import Mathlib.Data.List.Perm.Subperm
import Sortie.Proofs.Workspace.Staging

/-! The scratch folder. Its name is new, so that nothing can be in the way of what is staged: where
the disk takes the names and paths of the files, staging succeeds. -/
namespace Sortie

namespace Path
variable {p q : Path} {n : String}

/-- A path stays short enough when what it ends in is left out. -/
lemma Fits.of_join (hq : isAbsolute q = false) (hp : p ≠ "") (h : (p.join q).Fits) : p.Fits := by
  obtain ⟨hnull, -, hsize⟩ := h
  rw [join_eq hq] at hnull hsize
  refine ⟨?_, hp, ?_⟩
  · simp only [containsNull, String.toList_append, List.contains_append, Bool.or_eq_false_iff]
      at hnull ⊢
    exact hnull.1.1
  · simp only [String.utf8ByteSize_append] at hsize
    omega

lemma IsName.staysInside (h : IsName n) : StaysInside n where
  relative := h.isAbsolute
  noDots := by simpa [h.pieces] using Ne.symm h.ne_dots

lemma IsName.steps (h : IsName n) : Path.steps n = [n] := by
  unfold Path.steps
  rw [h.pieces]
  simp [h.ne_dot]

end Path

/-- The file names of the settings are two different names. -/
structure Settings.NamesFiles (s : Settings) : Prop where
  mission : Path.IsName s.missionFile
  waypoint : Path.IsName s.waypointFile
  apart : s.missionFile ≠ s.waypointFile

namespace Settings.NamesFiles
variable {s : Settings}

lemma keepsFilesApart (h : s.NamesFiles) : s.KeepsFilesApart where
  mission := h.mission.staysInside
  waypoint := h.waypoint.staysInside
  apart := by
    rw [h.mission.steps, h.waypoint.steps]
    simpa using h.apart

lemma isName (h : s.NamesFiles) {o : Workspace.VehicleOutput} {f : String × String}
    (hf : f ∈ o.files s) : Path.IsName f.1 := by
  simp only [Workspace.VehicleOutput.files, List.mem_cons, List.not_mem_nil, or_false] at hf
  rcases hf with rfl | rfl
  · exact h.mission
  · exact h.waypoint

end Settings.NamesFiles

namespace Disk
variable {d d' : Disk} {p folder : Path} {n stem : String} {touched : Place → Prop}

/-- The folder of a path is there, with those on the way to it. The empty path is that of the working
folder. -/
structure Stands (d : Disk) (p : Path) : Prop where
  walks : d.Walks (d.base p) p.pieces
  folder : d.get? (d.placeOf p) = some .folder

namespace Stands

lemma of_isFolder (h : d.isFolder p = true) : d.Stands p :=
  ⟨(isFolder_iff.1 h).1.walks, (isFolder_iff.1 h).2⟩

lemma mono (h : d.Stands p) (hhere : d'.here = d.here)
    (hfolders : ∀ b, d.get? b = some .folder → d'.get? b = some .folder) : d'.Stands p where
  walks := by
    rw [base_eq_of_here hhere]
    exact h.walks.mono hfolders
  folder := by
    rw [placeOf_eq_of_here hhere]
    exact hfolders _ h.folder

lemma evolves (h : d.Stands p) (hevolves : Evolves touched d d') : d'.Stands p :=
  h.mono hevolves.here hevolves.folders

lemma reaches_join (h : d.Stands p) (hn : Path.IsName n) (hsize : n.utf8ByteSize ≤ 255)
    (hfits : (p.join n).Fits) : d.Reaches (p.join n) :=
  (reaches_join_name_iff hn).2 ⟨hfits, h.walks, h.folder, hsize⟩

lemma join (h : d.Stands p) (hn : Path.IsName n) (hsize : n.utf8ByteSize ≤ 255)
    (hfolder : d.get? (d.placeOf p ++ [n]) = some .folder) : d.Stands (p.join n) where
  walks := by
    rw [base_join hn.isAbsolute, Path.pieces_join hn.isAbsolute, hn.pieces, walks_append]
    exact ⟨h.walks, h.folder, hsize, trivial⟩
  folder := by
    rw [placeOf_join_name hn]
    exact hfolder

/-- The way to a folder that is there never leaves one that is missing. -/
lemma grounded (h : d.Stands p) : d.Grounded p := by
  intro before after hsteps
  have hw : d.Walks (d.base p) p.steps := h.walks.filter
  have hsplit : p.steps = (before ++ [".."]) ++ after := by simp [hsteps]
  rw [hsplit, walks_append] at hw
  exact hw.1

end Stands

/-! ### A new name -/

/-- What is present is listed. -/
lemma mem_entries_of_isPresent (hn : Path.IsName n) (h : d.isPresent (folder.join n) = true) :
    d.placeOf folder ++ [n] ∈ d.entries.map Prod.fst := by
  have hsome := (reaches_of_isPresent h).2
  rw [placeOf_join_name hn, get?, if_neg (by simp), List.lookup_isSome_iff] at hsome
  obtain ⟨e, he, heq⟩ := hsome
  rw [beq_iff_eq.1 heq]
  exact List.mem_map_of_mem he

/-- There are more candidates for a new name than entries. -/
lemma isPresent_freshName (hnames : ∀ k,
    Path.IsName (stem ++ String.ofList (List.replicate k '*'))) :
    d.isPresent (folder.join (d.freshName folder stem)) = false := by
  unfold freshName
  dsimp only
  cases hfind : List.find? _ _ with
  | some n => simpa using List.find?_some hfind
  | none =>
    exfalso
    have hpresent := List.find?_eq_none.1 hfind
    have hinjective : Function.Injective fun k : ℕ =>
        d.placeOf folder ++ [stem ++ String.ofList (List.replicate (k + 1) '*')] := by
      intro k k' heq
      have hstars := congrArg String.length (List.singleton_inj.1 (List.append_cancel_left heq))
      simpa using hstars
    have hnodup := List.Nodup.map hinjective (List.nodup_range (n := d.entries.length + 1))
    have hsub : (List.range (d.entries.length + 1)).map (fun k =>
        d.placeOf folder ++ [stem ++ String.ofList (List.replicate (k + 1) '*')]) ⊆
        d.entries.map Prod.fst := by
      intro b hb
      obtain ⟨k, hk, rfl⟩ := List.mem_map.1 hb
      apply mem_entries_of_isPresent (hnames (k + 1))
      simpa using hpresent _ (List.mem_map_of_mem hk)
    have hlength := (List.subperm_of_subset hnodup hsub).length_le
    rw [List.length_map, List.length_map, List.length_range] at hlength
    omega

end Disk

namespace Workspace
open Disk
variable {d d' : Disk} {s : Settings} {staging folder root : Path} {n : String} {o : VehicleOutput}
  {outputs : List VehicleOutput} {fs : List (String × String)}

/-- The name of the scratch folder that is made in an output root. -/
def scratchName (d : Disk) (s : Settings) : String := d.freshName s.outputRoot stagingStem

abbrev scratchPath (d : Disk) (s : Settings) : Path := s.outputRoot.join (scratchName d s)

lemma mission_mem_files (o : VehicleOutput) (s : Settings) :
    (s.missionFile, o.output.python) ∈ o.files s := List.mem_cons_self

lemma waypoints_mem_files (o : VehicleOutput) (s : Settings) :
    (s.waypointFile, o.waypoints.toJson) ∈ o.files s := List.mem_cons_of_mem _ List.mem_cons_self

/-- The disk takes the names of a vehicle's folder and files, and their paths below a folder. -/
structure Takes (staging : Path) (s : Settings) (o : VehicleOutput) : Prop where
  vehicle : o.vehicle.utf8ByteSize ≤ 255
  names : ∀ f ∈ o.files s, f.1.utf8ByteSize ≤ 255
  paths : ∀ f ∈ o.files s, ((staging.join o.vehicle).join f.1).Fits

instance (staging : Path) (s : Settings) (o : VehicleOutput) : Decidable (Takes staging s o) :=
  decidable_of_iff (o.vehicle.utf8ByteSize ≤ 255 ∧ (∀ f ∈ o.files s, f.1.utf8ByteSize ≤ 255) ∧
    ∀ f ∈ o.files s, ((staging.join o.vehicle).join f.1).Fits)
    ⟨fun ⟨hvehicle, hnames, hpaths⟩ => ⟨hvehicle, hnames, hpaths⟩,
      fun ⟨hvehicle, hnames, hpaths⟩ => ⟨hvehicle, hnames, hpaths⟩⟩

lemma Takes.fits (h : Takes staging s o) (hv : Path.IsName o.vehicle) (hs : s.NamesFiles) :
    (staging.join o.vehicle).Fits :=
  (h.paths _ (mission_mem_files o s)).of_join hs.mission.isAbsolute hv.join_ne_empty

lemma exists_writeFiles (htree : d.IsTree) (hstands : d.Stands folder) (hne : folder ≠ "")
    (hslash : folder.endsInSlash = false) (hflat : d.IsFlat (d.placeOf folder))
    (hnames : ∀ f ∈ fs, Path.IsName f.1) (hsizes : ∀ f ∈ fs, f.1.utf8ByteSize ≤ 255)
    (hfits : ∀ f ∈ fs, (folder.join f.1).Fits) :
    ∃ d', (fs.forM fun f => (Job.attempt (.disk (folder.join f.1))
      (Files.write (folder.join f.1) f.2) : Job (StateM Disk) Failure Unit)).outcome d =
        (.ok (), d') := by
  induction fs generalizing d with
  | nil => exact ⟨d, rfl⟩
  | cons f fs ih =>
    rw [List.forall_mem_cons] at hnames hsizes hfits
    obtain ⟨hf, hnames⟩ := hnames
    have hreaches := hstands.reaches_join hf hsizes.1 hfits.1
    have hfree : d.get? (d.placeOf (folder.join f.1)) ≠ some .folder := by
      rw [placeOf_join_name hf]
      exact hflat f.1 []
    obtain ⟨d₁, hwrite⟩ := exists_write hreaches hf.isSome_lastName?_join hf.endsInSlash_join hfree
      f.2
    obtain ⟨hevolves, hflat₁, -⟩ :=
      HoldsFile.of_write htree hflat hne hslash hf.staysInside hwrite
    rw [← hevolves.placeOf] at hflat₁
    obtain ⟨d₂, hrest⟩ := ih (hevolves.tree htree) (hstands.evolves hevolves) hflat₁ hnames
      hsizes.2 hfits.2
    refine ⟨d₂, ?_⟩
    rw [List.forM, Job.outcome_bind_of_ok (Job.outcome_write_of_ok hwrite), hrest]

/-- A vehicle of which nothing is there yet can be staged. -/
lemma exists_stageVehicle (htree : d.IsTree) (hstands : d.Stands staging)
    (hv : Path.IsName o.vehicle) (hs : s.NamesFiles) (htakes : Takes staging s o)
    (hnew : d.get? (d.placeOf staging ++ [o.vehicle]) = none) :
    ∃ d', (stageVehicle staging s o : Job (StateM Disk) _ _).outcome d = (.ok (), d') := by
  have hreaches := hstands.reaches_join hv htakes.vehicle (htakes.fits hv hs)
  have hmake : d.makeFolder (staging.join o.vehicle) =
      .ok (d.put (d.placeOf (staging.join o.vehicle)) .folder) := by
    rw [makeFolder_of_reaches hreaches, placeOf_join_name hv, hnew]
    rfl
  obtain ⟨hevolves, hfolder, -⟩ := evolves_makeFolder htree hmake
  obtain ⟨d₂, hwrites⟩ := exists_writeFiles (hevolves.tree htree) (.of_isFolder hfolder)
    hv.join_ne_empty hv.endsInSlash_join (isFlat_of_makeFolder htree hmake)
    (fun f hf => hs.isName hf) htakes.names htakes.paths
  refine ⟨d₂, ?_⟩
  unfold stageVehicle
  rw [Job.outcome_bind_of_ok (Job.outcome_makeFolder_of_ok hmake), Job.outcome_bind_of_ok hwrites,
    Job.outcome_emit]

/-- Vehicles of which nothing is there yet can be staged one after another. -/
lemma exists_stageVehicles (htree : d.IsTree) (hstands : d.Stands staging)
    (hvs : ∀ o ∈ outputs, Path.IsName o.vehicle)
    (hnodup : (outputs.map VehicleOutput.vehicle).Nodup) (hs : s.NamesFiles)
    (htakes : ∀ o ∈ outputs, Takes staging s o)
    (hnew : ∀ o ∈ outputs, d.get? (d.placeOf staging ++ [o.vehicle]) = none) :
    ∃ d', (outputs.forM (stageVehicle staging s) : Job (StateM Disk) _ _).outcome d =
      (.ok (), d') := by
  induction outputs generalizing d with
  | nil => exact ⟨d, rfl⟩
  | cons o outputs ih =>
    rw [List.map_cons, List.nodup_cons] at hnodup
    rw [List.forall_mem_cons] at hvs htakes hnew
    obtain ⟨d₁, hfirst⟩ := exists_stageVehicle htree hstands hvs.1 hs htakes.1 hnew.1
    obtain ⟨hevolves, -⟩ := filled_of_stageVehicle htree hvs.1 hs.keepsFilesApart hfirst
    have hnew₁ : ∀ o' ∈ outputs, d₁.get? (d₁.placeOf staging ++ [o'.vehicle]) = none := by
      intro o' ho'
      rw [hevolves.placeOf, hevolves.untouched, hnew.2 o' ho']
      intro hbelow
      rw [List.prefix_append_right_inj] at hbelow
      have heq : o.vehicle = o'.vehicle := by simpa using hbelow
      exact hnodup.1 (heq ▸ List.mem_map_of_mem ho')
    obtain ⟨d₂, hrest⟩ := ih (hevolves.tree htree) (hstands.evolves hevolves) hvs.2 hnodup.2
      htakes.2 hnew₁
    refine ⟨d₂, ?_⟩
    rw [List.forM, Job.outcome_bind_of_ok hfirst, hrest]

lemma exists_scratchName_eq (d : Disk) (s : Settings) :
    ∃ k, scratchName d s = stagingStem ++ String.ofList (List.replicate k '*') :=
  exists_freshName_eq d s.outputRoot stagingStem

lemma isName_scratchName (d : Disk) (s : Settings) : Path.IsName (scratchName d s) := by
  obtain ⟨k, hk⟩ := exists_scratchName_eq d s
  rw [hk]
  exact isName_staging k

/-- Nothing is at the place of the scratch folder before it is made. -/
lemma get?_scratch (hstands : d.Stands s.outputRoot)
    (hsize : (scratchName d s).utf8ByteSize ≤ 255)
    (hfits : (scratchPath d s).Fits) :
    d.get? (d.placeOf s.outputRoot ++ [scratchName d s]) = none := by
  have hn := isName_scratchName d s
  have hreaches := hstands.reaches_join hn hsize hfits
  have habsent : d.isPresent (scratchPath d s) = false :=
    isPresent_freshName isName_staging
  by_contra hsome
  rw [← placeOf_join_name hn] at hsome
  rw [isPresent_of_isSome hreaches hn.endsInSlash_join (Option.isSome_iff_ne_none.2 hsome)] at habsent
  cases habsent

/-- A fleet can be staged in a new folder of an output root that is there. -/
lemma exists_stageIn (htree : d.IsTree) (hstands : d.Stands root) (hn : Path.IsName n)
    (hsize : n.utf8ByteSize ≤ 255) (hnew : d.get? (d.placeOf root ++ [n]) = none)
    (hfits : (root.join n).Fits) (hvs : ∀ o ∈ outputs, Path.IsName o.vehicle)
    (hnodup : (outputs.map VehicleOutput.vehicle).Nodup) (hs : s.NamesFiles)
    (htakes : ∀ o ∈ outputs, Takes (root.join n) s o) :
    ∃ d', (stageIn (root.join n) outputs s).outcome d = (.ok (root.join n), d') := by
  have hreaches := hstands.reaches_join hn hsize hfits
  have hmake : d.makeFolder (root.join n) = .ok (d.put (d.placeOf (root.join n)) .folder) := by
    rw [makeFolder_of_reaches hreaches, placeOf_join_name hn, hnew]
    rfl
  obtain ⟨hevolves, hfolder, -⟩ := evolves_makeFolder htree hmake
  have hempty : ∀ o ∈ outputs, (d.put (d.placeOf (root.join n)) .folder).get?
      ((d.put (d.placeOf (root.join n)) .folder).placeOf (root.join n) ++ [o.vehicle]) = none := by
    intro o _
    rw [hevolves.placeOf, hevolves.untouched _ (by simp), placeOf_join_name hn]
    exact htree.eq_none_below hnew (List.prefix_append _ _)
  obtain ⟨d₂, hloop⟩ := exists_stageVehicles (hevolves.tree htree) (.of_isFolder hfolder) hvs
    hnodup hs htakes hempty
  refine ⟨d₂, ?_⟩
  unfold stageIn
  rw [Job.outcome_bind_of_ok (Job.outcome_makeFolder_of_ok hmake)]
  have hcleanup := Job.outcome_onFailure
    (x := (outputs.forM (stageVehicle (root.join n) s) : Job (StateM Disk) _ _))
    (d := d.put (d.placeOf (root.join n)) .folder) (Files.removeAll (root.join n))
  rw [hloop] at hcleanup
  rw [Job.outcome_bind_of_ok hcleanup, Job.outcome_pure]

end Workspace
end Sortie
