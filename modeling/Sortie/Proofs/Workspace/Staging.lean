import Sortie.Proofs.Workspace.Folders
import Sortie.Proofs.Workspace.Job
import Sortie.Workspace.Output

/-! Staging the files of a fleet. All of it happens below the scratch folder, so that a failure,
which removes the scratch folder, leaves nothing of it but the folders made for the output root.
After success every file is there under one name in its vehicle's folder. -/
namespace Sortie

/-- A file name that does not lead out of the folder it is used in. -/
structure Path.StaysInside (p : Path) : Prop where
  relative : p.isAbsolute = false
  noDots : ".." ∉ p.pieces

/-- The file names of the settings stay in a vehicle's folder and name different files there. -/
structure Settings.KeepsFilesApart (s : Settings) : Prop where
  mission : Path.StaysInside s.missionFile
  waypoint : Path.StaysInside s.waypointFile
  apart : Path.steps s.missionFile ≠ Path.steps s.waypointFile

lemma Settings.KeepsFilesApart.inside {s : Settings} {o : Workspace.VehicleOutput}
    {f : String × String} (hs : s.KeepsFilesApart) (hf : f ∈ o.files s) :
    Path.StaysInside f.1 := by
  simp only [Workspace.VehicleOutput.files, List.mem_cons, List.not_mem_nil, or_false] at hf
  rcases hf with rfl | rfl
  · exact hs.mission
  · exact hs.waypoint

lemma Settings.KeepsFilesApart.pairwise {s : Settings} {o : Workspace.VehicleOutput}
    (hs : s.KeepsFilesApart) :
    (o.files s).Pairwise fun f g => Path.steps f.1 ≠ Path.steps g.1 := by
  simpa [Workspace.VehicleOutput.files] using hs.apart

namespace Disk
variable {d d' : Disk} {folder f : Path} {n text : String} {touched : Place → Prop}

lemma placeOf_join_inside (hf : f.StaysInside) :
    d.placeOf (folder.join f) = d.placeOf folder ++ f.steps := by
  rw [placeOf_join hf.relative, foldl_descend hf.noDots]
  rfl

/-- A file that lies in a folder under one name. -/
structure HoldsFile (d : Disk) (folder f : Path) : Prop where
  reaches : d.Reaches (folder.join f)
  noSlash : f.endsInSlash = false
  named : f.lastName?.isSome
  single : ∃ n, f.steps = [n]
  isFile : ∃ c, d.get? (d.placeOf (folder.join f)) = some (.file c)

lemma HoldsFile.evolves (h : d.HoldsFile folder f) (hevolves : Evolves touched d d')
    (hplace : touched (d.placeOf (folder.join f)) →
      ∃ c, d'.get? (d.placeOf (folder.join f)) = some (.file c)) : d'.HoldsFile folder f where
  reaches := hevolves.reaches h.reaches
  noSlash := h.noSlash
  named := h.named
  single := h.single
  isFile := by
    rw [hevolves.placeOf]
    by_cases ht : touched (d.placeOf (folder.join f))
    · exact hplace ht
    · rw [hevolves.untouched _ ht]
      exact h.isFile

/-- A file in a folder, under its name and with its text. -/
def HoldsText (d : Disk) (folder : Path) (f : String × String) : Prop :=
  d.get? (d.placeOf (folder.join f.1)) = some (.file (.text f.2))

lemma HoldsText.evolves {f : String × String} (h : d.HoldsText folder f)
    (hevolves : Evolves touched d d') (hplace : ¬ touched (d.placeOf (folder.join f.1))) :
    d'.HoldsText folder f := by
  unfold HoldsText at h ⊢
  rw [hevolves.placeOf, hevolves.untouched _ hplace, h]

/-- No folder lies below a place. -/
def IsFlat (d : Disk) (a : Place) : Prop := ∀ n t, d.get? (a ++ n :: t) ≠ some .folder

lemma isFlat_of_makeFolder (htree : d.IsTree) (h : d.makeFolder folder = .ok d') :
    d'.IsFlat (d'.placeOf folder) := by
  obtain ⟨hevolves, -⟩ := evolves_makeFolder htree h
  obtain ⟨-, hnone, -⟩ := reaches_of_makeFolder h
  intro n t
  rw [hevolves.placeOf, hevolves.untouched _ (by simp),
    htree.eq_none_below hnone (List.prefix_append _ _)]
  simp

/-- A name that can be written to, in a folder without folders, is a single one. -/
lemma IsFlat.exists_steps_eq (hflat : d.IsFlat (d.placeOf folder)) (hf : f.StaysInside)
    (hreaches : d.Reaches (folder.join f)) (hlast : f.lastName?.isSome) : ∃ n, f.steps = [n] := by
  have hw : d.Walks (d.placeOf folder) f.steps :=
    ((reaches_join_iff hf.relative).1 hreaches).2.2.filter
  have hne : f.steps ≠ [] := by
    obtain ⟨n, hn⟩ := Option.isSome_iff_exists.1 hlast
    obtain ⟨hmem, hdots⟩ := Option.filter_eq_some_iff.1 hn
    have hdot : n ≠ "." := by
      rintro rfl
      simp at hdots
    exact List.ne_nil_of_mem (List.mem_filter.2 ⟨List.mem_of_getLast? hmem, by simpa using hdot⟩)
  cases hsteps : f.steps with
  | nil => exact absurd hsteps hne
  | cons n ns =>
    cases ns with
    | nil => exact ⟨n, rfl⟩
    | cons m ms =>
      have hn : n ∈ f.steps := by simp [hsteps]
      have hdot : n ≠ "." := (Path.of_mem_steps hn).2
      have hdots : n ≠ ".." := by
        rintro rfl
        exact hf.noDots (List.mem_of_mem_filter hn)
      rw [hsteps] at hw
      have hfolder := hw.2.2.1
      rw [descend, if_neg hdot, if_neg hdots] at hfolder
      exact absurd hfolder (hflat n [])

/-- Writing a file into a folder without folders. -/
lemma HoldsFile.of_write (htree : d.IsTree) (hflat : d.IsFlat (d.placeOf folder))
    (hne : folder ≠ "") (hslash : folder.endsInSlash = false) (hf : f.StaysInside)
    (h : d.write (folder.join f) text = .ok d') :
    Evolves (· = d.placeOf (folder.join f)) d d' ∧ d'.IsFlat (d.placeOf folder) ∧
      d'.HoldsFile folder f ∧ d'.HoldsText folder (f, text) := by
  obtain ⟨hreaches, hends, hlast, -, hevolves, hfile⟩ := evolves_write htree h
  have hempty : f ≠ "" := by
    rintro rfl
    have hbetween : folder.between = "/" := by simp [Path.between, hne, hslash]
    rw [Path.join_eq hf.relative, hbetween] at hends
    simp [Path.endsInSlash] at hends
  have hpieces : f.pieces ≠ [] := Path.pieces_ne_nil hf.relative hempty
  rw [Path.lastName?_join hf.relative hpieces] at hlast
  rw [Path.endsInSlash_join hf.relative hempty] at hends
  refine ⟨hevolves, ?_, ?_, ?_⟩
  · intro n t
    by_cases hplace : d.placeOf folder ++ n :: t = d.placeOf (folder.join f)
    · rw [hplace, hfile]
      simp
    · rw [hevolves.untouched _ hplace]
      exact hflat n t
  · refine ⟨hevolves.reaches hreaches, hends, hlast, ?_, ?_⟩
    · exact hflat.exists_steps_eq hf hreaches hlast
    · rw [hevolves.placeOf]
      exact ⟨_, hfile⟩
  · unfold HoldsText
    rw [hevolves.placeOf]
    exact hfile

end Disk

namespace Workspace
open Disk
variable {d d' : Disk} {s : Settings} {staging folder : Path} {o : VehicleOutput}
  {outputs : List VehicleOutput} {fs : List (String × String)} {touched : Place → Prop}
  {r : Except Failure Unit}

/-- Writing files one after another into a folder without folders. -/
lemma holdsFile_of_writeFiles (htree : d.IsTree) (hflat : d.IsFlat (d.placeOf folder))
    (hne : folder ≠ "") (hslash : folder.endsInSlash = false)
    (hinside : ∀ f ∈ fs, Path.StaysInside f.1)
    (hapart : fs.Pairwise fun f g => Path.steps f.1 ≠ Path.steps g.1)
    (h : (fs.forM fun f => (Job.attempt (.disk (folder.join f.1))
      (Files.write (folder.join f.1) f.2) : Job (StateM Disk) Failure Unit)).outcome d = (r, d')) :
    Evolves (fun b => ∃ f ∈ fs, b = d.placeOf (folder.join f.1)) d d' ∧
      (r = .ok () → ∀ f ∈ fs, d'.HoldsFile folder f.1 ∧ d'.HoldsText folder f) := by
  induction fs generalizing d with
  | nil =>
    obtain ⟨rfl, rfl⟩ : .ok () = r ∧ d = d' := by simpa using h
    exact ⟨.refl, by simp⟩
  | cons f fs ih =>
    rw [List.pairwise_cons] at hapart
    have hf := hinside f List.mem_cons_self
    rw [List.forM] at h
    cases hwrite : d.write (folder.join f.1) f.2 with
    | error fault =>
      rw [Job.outcome_bind_of_error (Job.outcome_write_of_error hwrite)] at h
      obtain ⟨rfl, rfl⟩ := Prod.mk.inj h
      exact ⟨.refl, by simp⟩
    | ok d₁ =>
      rw [Job.outcome_bind_of_ok (Job.outcome_write_of_ok hwrite)] at h
      obtain ⟨hevolves, hflat₁, hholds, htext⟩ :=
        HoldsFile.of_write htree hflat hne hslash hf hwrite
      rw [← hevolves.placeOf folder] at hflat₁
      obtain ⟨hrest, hall⟩ := ih (hevolves.tree htree) hflat₁
        (fun g hg => hinside g (List.mem_cons_of_mem _ hg)) hapart.2 h
      refine ⟨(hevolves.mono ?_).trans (hrest.mono ?_), ?_⟩
      · rintro b rfl
        exact ⟨f, List.mem_cons_self, rfl⟩
      · rintro b ⟨g, hg, rfl⟩
        exact ⟨g, List.mem_cons_of_mem _ hg, hevolves.placeOf _⟩
      · intro hr g hg
        rcases List.mem_cons.1 hg with rfl | hg
        · -- the files that follow have other names
          have hother : ¬ ∃ f ∈ fs, d₁.placeOf (folder.join g.1) = d₁.placeOf (folder.join f.1) := by
            rintro ⟨f, hmem, heq⟩
            rw [placeOf_join_inside hf,
              placeOf_join_inside (hinside f (List.mem_cons_of_mem _ hmem))] at heq
            exact hapart.1 f hmem (List.append_cancel_left heq)
          exact ⟨hholds.evolves hrest fun ht => absurd ht hother, htext.evolves hrest hother⟩
        · exact hall hr g hg

/-- The files of a vehicle are in its folder. -/
structure Staged (d : Disk) (staging : Path) (s : Settings) (o : VehicleOutput) : Prop where
  folder : d.isFolder (staging.join o.vehicle) = true
  files : ∀ f ∈ o.files s, d.HoldsFile (staging.join o.vehicle) f.1

lemma Staged.evolves (h : Staged d staging s o) (hv : Path.IsName o.vehicle)
    (hinside : ∀ f ∈ o.files s, Path.StaysInside f.1) (hevolves : Evolves touched d d')
    (hplace : ∀ b, d.placeOf staging ++ [o.vehicle] <+: b → ¬ touched b) :
    Staged d' staging s o where
  folder := hevolves.isFolder h.folder
  files f hf := by
    apply (h.files f hf).evolves hevolves
    intro ht
    refine absurd ht (hplace _ ?_)
    rw [placeOf_join_inside (hinside f hf), placeOf_join_name hv]
    exact List.prefix_append _ _

/-- The files of a vehicle are in its folder, with their texts. -/
structure Filled (d : Disk) (staging : Path) (s : Settings) (o : VehicleOutput) : Prop
    extends Staged d staging s o where
  texts : ∀ f ∈ o.files s, d.HoldsText (staging.join o.vehicle) f

lemma Filled.evolves (h : Filled d staging s o) (hv : Path.IsName o.vehicle)
    (hinside : ∀ f ∈ o.files s, Path.StaysInside f.1) (hevolves : Evolves touched d d')
    (hplace : ∀ b, d.placeOf staging ++ [o.vehicle] <+: b → ¬ touched b) :
    Filled d' staging s o where
  toStaged := h.toStaged.evolves hv hinside hevolves hplace
  texts f hf := by
    apply (h.texts f hf).evolves hevolves
    apply hplace
    rw [placeOf_join_inside (hinside f hf), placeOf_join_name hv]
    exact List.prefix_append _ _

/-- Staging one vehicle touches nothing outside its part of the scratch folder. -/
lemma filled_of_stageVehicle (htree : d.IsTree) (hv : Path.IsName o.vehicle)
    (hs : s.KeepsFilesApart)
    (h : (stageVehicle staging s o : Job (StateM Disk) _ _).outcome d = (r, d')) :
    Evolves (d.placeOf staging ++ [o.vehicle] <+: ·) d d' ∧
      (r = .ok () → Filled d' staging s o) := by
  unfold stageVehicle at h
  have hplaceOf : d.placeOf (staging.join o.vehicle) = d.placeOf staging ++ [o.vehicle] :=
    placeOf_join_name hv
  cases hmake : d.makeFolder (staging.join o.vehicle) with
  | error fault =>
    rw [Job.outcome_bind_of_error (Job.outcome_makeFolder_of_error hmake)] at h
    obtain ⟨rfl, rfl⟩ := Prod.mk.inj h
    exact ⟨.refl, by simp⟩
  | ok d₁ =>
    rw [Job.outcome_bind_of_ok (Job.outcome_makeFolder_of_ok hmake)] at h
    obtain ⟨hevolves, hfolder, -⟩ := evolves_makeFolder htree hmake
    have hown : Evolves (d.placeOf staging ++ [o.vehicle] <+: ·) d d₁ := by
      apply hevolves.mono
      rintro b rfl
      rw [hplaceOf]
    rcases hfiles : ((o.files s).forM fun f => (Job.attempt
        (.disk ((staging.join o.vehicle).join f.1))
        (Files.write ((staging.join o.vehicle).join f.1) f.2) :
          Job (StateM Disk) Failure Unit)).outcome d₁ with ⟨written, d₂⟩
    obtain ⟨hwritten, hall⟩ := holdsFile_of_writeFiles (hevolves.tree htree)
      (isFlat_of_makeFolder htree hmake) hv.join_ne_empty hv.endsInSlash_join
      (fun f hf => hs.inside hf) hs.pairwise hfiles
    have hwritten : Evolves (d.placeOf staging ++ [o.vehicle] <+: ·) d₁ d₂ := by
      apply hwritten.mono
      rintro b ⟨f, hf, rfl⟩
      rw [hevolves.placeOf, placeOf_join_inside (hs.inside hf), hplaceOf]
      exact List.prefix_append _ _
    cases written with
    | error e =>
      rw [Job.outcome_bind_of_error hfiles] at h
      obtain ⟨rfl, rfl⟩ := Prod.mk.inj h
      exact ⟨hown.trans hwritten, by simp⟩
    | ok u =>
      rw [Job.outcome_bind_of_ok hfiles, Job.outcome_emit] at h
      obtain ⟨rfl, rfl⟩ := Prod.mk.inj h
      exact ⟨hown.trans hwritten, fun _ => ⟨⟨hwritten.isFolder hfolder,
        fun f hf => (hall rfl f hf).1⟩, fun f hf => (hall rfl f hf).2⟩⟩

/-- Staging the vehicles one after another. -/
lemma filled_of_stageVehicles (htree : d.IsTree) (hvs : ∀ o ∈ outputs, Path.IsName o.vehicle)
    (hnodup : (outputs.map VehicleOutput.vehicle).Nodup) (hs : s.KeepsFilesApart)
    (h : (outputs.forM (stageVehicle staging s) : Job (StateM Disk) _ _).outcome d = (r, d')) :
    Evolves (fun b => ∃ o ∈ outputs, d.placeOf staging ++ [o.vehicle] <+: b) d d' ∧
      (r = .ok () → ∀ o ∈ outputs, Filled d' staging s o) := by
  induction outputs generalizing d with
  | nil =>
    obtain ⟨rfl, rfl⟩ : .ok () = r ∧ d = d' := by simpa using h
    exact ⟨.refl, by simp⟩
  | cons o outputs ih =>
    have hv := hvs o List.mem_cons_self
    rw [List.map_cons, List.nodup_cons] at hnodup
    rw [List.forM] at h
    rcases hfirst : (stageVehicle staging s o : Job (StateM Disk) _ _).outcome d with ⟨r₁, d₁⟩
    obtain ⟨hevolves, hfilled⟩ := filled_of_stageVehicle htree hv hs hfirst
    have hown : Evolves
        (fun b => ∃ o' ∈ o :: outputs, d.placeOf staging ++ [o'.vehicle] <+: b) d d₁ :=
      hevolves.mono fun b hb => ⟨o, List.mem_cons_self, hb⟩
    cases r₁ with
    | error e =>
      rw [Job.outcome_bind_of_error hfirst] at h
      obtain ⟨rfl, rfl⟩ := Prod.mk.inj h
      exact ⟨hown, by simp⟩
    | ok u =>
      rw [Job.outcome_bind_of_ok hfirst] at h
      obtain ⟨hrest, hall⟩ := ih (hevolves.tree htree)
        (fun o' ho' => hvs o' (List.mem_cons_of_mem _ ho')) hnodup.2 h
      rw [hevolves.placeOf] at hrest
      refine ⟨hown.trans (hrest.mono ?_), ?_⟩
      · rintro b ⟨o', ho', hb⟩
        exact ⟨o', List.mem_cons_of_mem _ ho', hb⟩
      · intro hr o' ho'
        rcases List.mem_cons.1 ho' with rfl | ho'
        · apply (hfilled rfl).evolves hv (fun f hf => hs.inside hf) hrest
          -- the parts of different vehicles have no place in common
          rintro b hb ⟨o'', ho'', hb''⟩
          rw [hevolves.placeOf] at hb
          have hvehicle := List.prefix_of_prefix_length_le hb hb'' (by simp)
          rw [List.prefix_append_right_inj] at hvehicle
          have heq : o'.vehicle = o''.vehicle := by simpa using hvehicle
          exact hnodup.1 (List.mem_map.2 ⟨o'', ho'', heq.symm⟩)
        · exact hall hr o' ho'

/-- A fresh name is the beginning that was asked for, followed by stars. -/
lemma exists_freshName_eq (d : Disk) (folder : Path) (stem : String) :
    ∃ k, d.freshName folder stem = stem ++ String.ofList (List.replicate k '*') := by
  unfold freshName
  dsimp only
  cases hfind : List.find? _ _ with
  | none => exact ⟨0, by simp⟩
  | some n =>
    obtain ⟨k, -, rfl⟩ := List.mem_map.1 (List.mem_of_find?_eq_some hfind)
    exact ⟨k + 1, rfl⟩

lemma isName_staging (k : Nat) :
    Path.IsName (stagingStem ++ String.ofList (List.replicate k '*')) where
  ne_empty h := by simpa [stagingStem] using congrArg String.toList h
  noSlash := by simp [stagingStem]
  ne_dot h := by simpa [stagingStem] using congrArg String.toList h
  ne_dots h := by simpa [stagingStem] using congrArg String.toList h

section Vehicles
variable {v : String}

lemma isName_of_isValidId (h : Fleet.isValidId v = true) : Path.IsName v := by
  unfold Fleet.isValidId at h
  rw [Bool.and_eq_true, decide_eq_true_iff, List.all_eq_true] at h
  have hnot {c : Char} (hc : (c.isAlphanum || c == '_' || c == '-') = false) : c ∉ v.toList := by
    intro hmem
    rw [h.2 c hmem] at hc
    cases hc
  have hdot : '.' ∉ v.toList := hnot (by decide)
  refine ⟨h.1, hnot (by decide), ?_, ?_⟩
  · rintro rfl
    exact hdot (by decide)
  · rintro rfl
    exact hdot (by decide)

/-- The scratch folder is never the folder of a vehicle: its name has a dot. -/
lemma staging_ne_of_isValidId (k : Nat) (h : Fleet.isValidId v = true) :
    stagingStem ++ String.ofList (List.replicate k '*') ≠ v := by
  rintro rfl
  unfold Fleet.isValidId at h
  rw [Bool.and_eq_true, List.all_eq_true] at h
  have hdot := h.2 '.' (by simp [stagingStem])
  revert hdot
  decide

end Vehicles

/-- Staging in a scratch folder, once the output root is there. -/
def stageIn (staging : Path) (outputs : List VehicleOutput) (s : Settings) :
    Job (StateM Disk) Failure Path := do
  .attempt (.disk s.outputRoot) (Files.makeFolder staging)
  Job.onFailure (outputs.forM (stageVehicle staging s)) (Files.removeAll staging)
  return staging

/-- A failure leaves nothing of the scratch folder, which was not there before. -/
lemma stageIn_cases {r : Except Failure Path} {n : String} (htree : d.IsTree)
    (hvs : ∀ o ∈ outputs, Path.IsName o.vehicle)
    (hnodup : (outputs.map VehicleOutput.vehicle).Nodup) (hs : s.KeepsFilesApart)
    (hn : Path.IsName n) (h : (stageIn (folder.join n) outputs s).outcome d = (r, d')) :
    (∃ e, r = .error e) ∧ d'.here = d.here ∧ (∀ b, d'.get? b = d.get? b) ∨
      r = .ok (folder.join n) ∧ Evolves (d.placeOf folder ++ [n] <+: ·) d d' ∧
        ∀ o ∈ outputs, Filled d' (folder.join n) s o := by
  have hplaceOf : d.placeOf (folder.join n) = d.placeOf folder ++ [n] := placeOf_join_name hn
  unfold stageIn at h
  cases hmake : d.makeFolder (folder.join n) with
  | error fault =>
    rw [Job.outcome_bind_of_error (Job.outcome_makeFolder_of_error hmake)] at h
    obtain ⟨rfl, rfl⟩ := Prod.mk.inj h
    exact Or.inl ⟨⟨_, rfl⟩, rfl, fun _ => rfl⟩
  | ok d₁ =>
    rw [Job.outcome_bind_of_ok (Job.outcome_makeFolder_of_ok hmake)] at h
    obtain ⟨hevolves, hfolder, hlast⟩ := evolves_makeFolder htree hmake
    obtain ⟨-, hnone, -⟩ := reaches_of_makeFolder hmake
    rw [hplaceOf] at hevolves
    rcases hloop : (outputs.forM (stageVehicle (folder.join n) s) :
      Job (StateM Disk) _ _).outcome d₁ with ⟨r₂, d₂⟩
    obtain ⟨hstaging, hall⟩ :=
      filled_of_stageVehicles (hevolves.tree htree) hvs hnodup hs hloop
    rw [hevolves.placeOf, hplaceOf] at hstaging
    have hbelow : Evolves (d.placeOf folder ++ [n] <+: ·) d d₂ := by
      apply (hevolves.mono _).trans (hstaging.mono _)
      · rintro b rfl
        exact List.prefix_refl _
      · rintro b ⟨o, -, hb⟩
        exact (List.prefix_append _ _).trans hb
    have hcleanup := Job.outcome_onFailure
      (x := (outputs.forM (stageVehicle (folder.join n) s) : Job (StateM Disk) _ _)) (d := d₁)
      (Files.removeAll (folder.join n))
    rw [hloop] at hcleanup
    cases r₂ with
    | error e =>
      rw [Job.outcome_bind_of_error hcleanup] at h
      obtain ⟨rfl, rfl⟩ := Prod.mk.inj h
      refine Or.inl ⟨⟨e, rfl⟩, here_removeAll.trans hbelow.here, fun b => ?_⟩
      change (d₂.removeAll (folder.join n)).get? b = d.get? b
      rw [get?_removeAll_of_new htree hbelow.here hnone (hstaging.isFolder hfolder) hlast, hplaceOf]
      split
      · rfl
      · rename_i hb
        exact hbelow.untouched b hb
    | ok u =>
      rw [Job.outcome_bind_of_ok hcleanup] at h
      obtain ⟨rfl, rfl⟩ := Prod.mk.inj h
      exact Or.inr ⟨rfl, hbelow, hall rfl⟩

/-- What staging comes to. A failure leaves the disk as making the output root did; success leaves
the files of every vehicle in the scratch folder. -/
lemma stage_cases {r : Except Failure Path} (htree : d.IsTree) (hground : d.Grounded s.outputRoot)
    (hvs : ∀ o ∈ outputs, Fleet.isValidId o.vehicle = true)
    (hnodup : (outputs.map VehicleOutput.vehicle).Nodup) (hs : s.KeepsFilesApart)
    (h : (stage outputs s : Job (StateM Disk) _ _).outcome d = (r, d')) :
    ∃ made d₁, FoldersMade d s.outputRoot made d₁ ∧
      ((∃ e, r = .error e) ∧ d'.here = d₁.here ∧ (∀ b, d'.get? b = d₁.get? b) ∨
      ∃ n, r = .ok (s.outputRoot.join n) ∧ Path.IsName n ∧ (∀ o ∈ outputs, n ≠ o.vehicle) ∧
        Evolves (d.placeOf s.outputRoot ++ [n] <+: ·) d₁ d' ∧
        ∀ o ∈ outputs, Filled d' (s.outputRoot.join n) s o) := by
  have hmade := foldersMade_makeFolders htree hground
  unfold stage at h
  rcases hfolders : (Files.makeFolders s.outputRoot : StateM Disk _) d with ⟨fault | u, d₁⟩
  · rw [hfolders] at hmade
    rw [Job.outcome_bind_of_error (Job.outcome_attempt_of_error hfolders)] at h
    obtain ⟨rfl, rfl⟩ := Prod.mk.inj h
    exact ⟨_, _, hmade, Or.inl ⟨⟨_, rfl⟩, rfl, fun _ => rfl⟩⟩
  · rw [hfolders] at hmade
    rw [Job.outcome_bind_of_ok (Job.outcome_attempt_of_ok hfolders),
      Job.outcome_bind_of_ok (Job.outcome_lift _)] at h
    change (stageIn (s.outputRoot.join (d₁.freshName s.outputRoot stagingStem)) outputs s).outcome
      d₁ = (r, d') at h
    obtain ⟨k, hk⟩ := exists_freshName_eq d₁ s.outputRoot stagingStem
    rw [hk] at h
    have hn := isName_staging k
    have hcases := stageIn_cases (hmade.evolves.tree htree)
      (fun o ho => isName_of_isValidId (hvs o ho)) hnodup hs hn h
    rw [hmade.evolves.placeOf] at hcases
    refine ⟨_, d₁, hmade, hcases.imp_right ?_⟩
    rintro ⟨hr, hevolves, hall⟩
    exact ⟨_, hr, hn, fun o ho => staging_ne_of_isValidId k (hvs o ho), hevolves, hall⟩

end Workspace
end Sortie
