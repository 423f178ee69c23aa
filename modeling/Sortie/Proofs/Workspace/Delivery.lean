import Sortie.Proofs.Workspace.Atomicity
import Sortie.Proofs.Workspace.Scratch

/-! Writing outputs, said exactly. Once the output root is there, the outputs of a fleet are written
where nothing is in the way of a vehicle's folder and files; then all files are in place, the scratch
folder is gone, and nothing else on the disk has changed but for folders that were made. -/
namespace Sortie

namespace Disk
variable {d d₁ d' : Disk} {p : Path} {n v text : String} {places : Place → Prop}

/-- A folder can be made with those around it, or is there. The disk is then the second one. -/
structure Founds (d : Disk) (p : Path) (d₁ : Disk) : Prop where
  makes : (Files.makeFolders p : StateM Disk _) d = (.ok (), d₁)
  folder : d₁.get? (d₁.placeOf p) = some .folder

lemma founds_of_isFolder (h : d.isFolder p = true) : d.Founds p d where
  makes := by
    obtain ⟨hreaches, hget⟩ := isFolder_iff.1 h
    have hmake : d.makeFolder p = .error .occupied := by
      rw [makeFolder_of_reaches hreaches, hget]
      rfl
    unfold Files.makeFolders
    rw [makeFoldersFrom_of_ne_missing hreaches.fits.ne_empty hreaches.ne_missing,
      ensureFolder_of_error hmake, h]
    rfl
  folder := (isFolder_iff.1 h).2

/-- The folders that may be new are those of the path and around it. -/
lemma Founds.gains (h : d.Founds p d₁) (htree : d.IsTree) :
    Gains (fun b => ∃ q ∈ p :: p.parents, b = d.placeOf q) d d₁ :=
  (gains_makeFoldersFrom htree h.makes).1

lemma Founds.stands (h : d.Founds p d₁) (htree : d.IsTree) : d₁.Stands p := by
  rcases (gains_makeFoldersFrom htree h.makes).2 rfl with rfl | hfolder
  · exact ⟨trivial, h.folder⟩
  · exact .of_isFolder hfolder

lemma isFolder_of_join (hn : Path.IsName n) (hv : Path.IsName v)
    (h : d.isFolder ((p.join n).join v) = true) : d.isFolder (p.join n) = true := by
  obtain ⟨hfits, hw, hfolder, -⟩ := (reaches_join_name_iff hv).1 (isFolder_iff.1 h).1
  exact isFolder_iff.2 ⟨⟨hfits.of_join hv.isAbsolute hn.join_ne_empty, hw⟩, hfolder⟩

lemma read_of_reaches (h : d.Reaches p) (hslash : p.endsInSlash = false)
    (hget : d.get? (d.placeOf p) = some (.file (.text text))) : d.read p = .ok text := by
  unfold read
  rw [look_of_reaches h, hget, hslash]
  rfl

end Disk

namespace Workspace
open Disk
variable {d d₁ d₂ d' : Disk} {s : Settings} {o : VehicleOutput} {outputs : List VehicleOutput}
  {n : String} {places : Place → Prop} {written : List Path}

/-! ### What is in the way -/

/-- What was in the way before the output root was made still is. -/
lemma Unblocked.of_gains (h : Unblocked d₁ s o) (hgains : Gains places d d₁) : Unblocked d s o where
  folder hpresent := by
    have hfolder := h.folder (hgains.isPresent hpresent)
    obtain ⟨hreaches, hsome⟩ := reaches_of_isPresent hpresent
    have hget := (isFolder_iff.1 hfolder).2
    rw [Evolves.placeOf hgains, hgains.get?_of_isSome hsome] at hget
    exact isFolder_iff.2 ⟨hreaches, hget⟩
  files f hf := by
    rw [← Bool.not_eq_true]
    intro hfolder
    have hblocked := hgains.isFolder hfolder
    rw [h.files f hf] at hblocked
    cases hblocked

/-- Nothing is in the way of a staged vehicle exactly where nothing was before staging. -/
lemma Staged.ready_iff_unblocked (h : Staged d' (s.outputRoot.join n) s o) (htree : d.IsTree)
    (hstands : d.Stands s.outputRoot)
    (hevolves : Evolves (d.placeOf s.outputRoot ++ [n] <+: ·) d d') (hn : Path.IsName n)
    (hv : Path.IsName o.vehicle) (hne : n ≠ o.vehicle) (hs : s.KeepsFilesApart) :
    Ready d' n s o ↔ Unblocked d s o := by
  have hsame {t : Place} : d'.get? (d.placeOf s.outputRoot ++ [o.vehicle] ++ t) =
      d.get? (d.placeOf s.outputRoot ++ [o.vehicle] ++ t) := by
    apply hevolves.untouched
    rw [List.append_assoc, List.prefix_append_right_inj]
    intro hbelow
    exact hne (List.cons_prefix_cons.1 hbelow).1
  constructor
  · intro hready
    refine ⟨?_, ?_⟩
    · intro hpresent
      obtain ⟨hreaches, hsome⟩ := reaches_of_isPresent hpresent
      obtain ⟨i, hi⟩ := Option.isSome_iff_exists.1 hsome
      cases i with
      | folder => exact isFolder_iff.2 ⟨hreaches, hi⟩
      | file c =>
        refine absurd ?_ (hready.free c)
        rw [placeOf_join_name hv] at hi
        rw [hevolves.placeOf, placeOf_join_name hv]
        simpa using hsame (t := []) |>.trans (by simpa using hi)
    · intro f hf
      rw [← Bool.not_eq_true]
      intro hfolder
      have hget := (isFolder_iff.1 hfolder).2
      rw [placeOf_settled hv (hs.inside hf), ← hsame, ← placeOf_settled hv (hs.inside hf),
        ← hevolves.placeOf] at hget
      exact hready.clear f hf hget
  · intro hunblocked
    -- the output root is there, so that making it would change nothing
    have hmade : FoldersMade d s.outputRoot (.error .occupied) d :=
      ⟨.refl, fun _ _ => rfl, by simp, Or.inl rfl⟩
    exact h.ready hunblocked htree hstands.grounded hmade hevolves hn hv hne hs

/-! ### The run -/

/-- Names and paths that the disk takes. -/
structure WithinLimits (d : Disk) (s : Settings) (outputs : List VehicleOutput) : Prop where
  scratch : (scratchName d s).utf8ByteSize ≤ 255
  vehicles : ∀ o ∈ outputs, Takes (s.outputRoot.join (scratchName d s)) s o

lemma WithinLimits.fits (h : WithinLimits d s outputs) (hnonempty : outputs ≠ [])
    (hvs : ∀ o ∈ outputs, Path.IsName o.vehicle) (hs : s.NamesFiles) :
    (scratchPath d s).Fits := by
  obtain ⟨o, ho⟩ := List.exists_mem_of_ne_nil _ hnonempty
  have hvehicle := (h.vehicles o ho).fits (hvs o ho) hs
  exact hvehicle.of_join (hvs o ho).isAbsolute (isName_scratchName d s).join_ne_empty

lemma outcome_stage (h : d.Founds s.outputRoot d₁) :
    (stage outputs s : Job (StateM Disk) _ _).outcome d =
      (stageIn (scratchPath d₁ s) outputs s).outcome d₁ := by
  unfold stage
  rw [Job.outcome_bind_of_ok (Job.outcome_attempt_of_ok h.makes),
    Job.outcome_bind_of_ok (Job.outcome_lift _)]
  rfl

lemma outcome_checkVehicles {ids : List String} (h : Fleet.checkVehicles ids = .ok ()) :
    (checkVehicles ids : Job (StateM Disk) Failure Unit).outcome d = (.ok (), d) := by
  unfold checkVehicles
  rw [h]
  rfl

/-- Outputs are written where nothing is in the way from the start and the rest succeeds. -/
lemma outcome_writeOutputs_eq_ok_iff
    (h : Fleet.checkVehicles (outputs.map VehicleOutput.vehicle) = .ok ()) :
    (writeOutputs outputs s : Job (StateM Disk) _ _).outcome d = (.ok written, d') ↔
      (∀ o ∈ outputs, Unblocked d s o) ∧
        (writeChecked outputs s).outcome d = (.ok written, d') := by
  rw [writeOutputs_eq, Job.outcome_bind_of_ok (outcome_checkVehicles h)]
  rcases hchecks : (outputs.forM (checkUnblocked s) : Job (StateM Disk) _ _).outcome d with
    ⟨e | u, d₁⟩
  · obtain ⟨-, hunblocked⟩ := Job.forM_cases (fun _ _ _ ho => checkUnblocked_cases ho) hchecks
    rw [Job.outcome_bind_of_error hchecks, ← hunblocked]
    simp
  · obtain ⟨rfl, hunblocked⟩ := Job.forM_cases (fun _ _ _ ho => checkUnblocked_cases ho) hchecks
    rw [Job.outcome_bind_of_ok hchecks, ← hunblocked]
    simp

/-- What a run needs: a tree, vehicles that pass the check, names for the files, an output root that
can be made, and paths within the limits of the disk. -/
structure Admits (d d₁ : Disk) (s : Settings) (outputs : List VehicleOutput) : Prop where
  tree : d.IsTree
  vehicles : Fleet.checkVehicles (outputs.map VehicleOutput.vehicle) = .ok ()
  files : s.NamesFiles
  root : d.Founds s.outputRoot d₁
  limits : WithinLimits d₁ s outputs

namespace Admits
variable (h : Admits d d₁ s outputs)
include h

lemma nonempty : outputs ≠ [] := by
  have hne := (of_checkVehicles h.vehicles).1
  rintro rfl
  exact hne rfl

lemma isValidId (ho : o ∈ outputs) : Fleet.isValidId o.vehicle = true :=
  (of_checkVehicles h.vehicles).2.1 _ (List.mem_map_of_mem ho)

lemma isName (ho : o ∈ outputs) : Path.IsName o.vehicle := isName_of_isValidId (h.isValidId ho)

lemma nodup : (outputs.map VehicleOutput.vehicle).Nodup := (of_checkVehicles h.vehicles).2.2

lemma scratch_ne (ho : o ∈ outputs) : scratchName d₁ s ≠ o.vehicle := by
  obtain ⟨k, hk⟩ := exists_scratchName_eq d₁ s
  rw [hk]
  exact staging_ne_of_isValidId k (h.isValidId ho)

lemma gains :
    Gains (fun b => ∃ q ∈ s.outputRoot :: Path.parents s.outputRoot, b = d.placeOf q) d d₁ :=
  h.root.gains h.tree

lemma tree₁ : d₁.IsTree := h.gains.tree h.tree

lemma stands : d₁.Stands s.outputRoot := h.root.stands h.tree

lemma reaches (ho : o ∈ outputs) : d₁.Reaches (s.outputRoot.join o.vehicle) := by
  have htakes := h.limits.vehicles o ho
  have hfits := (htakes.fits (h.isName ho) h.files).settleFolder (isName_scratchName d₁ s)
    (h.isName ho)
  exact h.stands.reaches_join (h.isName ho) htakes.vehicle hfits

lemma get?_scratch : d₁.get? (d₁.placeOf s.outputRoot ++ [scratchName d₁ s]) = none :=
  Workspace.get?_scratch h.stands h.limits.scratch
    (h.limits.fits h.nonempty (fun _ ho => h.isName ho) h.files)

/-- Staging succeeds, below the scratch folder. -/
lemma exists_stage : ∃ d₂, (stage outputs s : Job (StateM Disk) _ _).outcome d =
      (.ok (scratchPath d₁ s), d₂) ∧
    Evolves (d₁.placeOf s.outputRoot ++ [scratchName d₁ s] <+: ·) d₁ d₂ ∧
    ∀ o ∈ outputs, Filled d₂ (scratchPath d₁ s) s o := by
  have hn := isName_scratchName d₁ s
  have hfits := h.limits.fits h.nonempty (fun _ ho => h.isName ho) h.files
  obtain ⟨d₂, hstage⟩ := exists_stageIn h.tree₁ h.stands hn h.limits.scratch h.get?_scratch hfits
    (fun _ ho => h.isName ho) h.nodup h.files h.limits.vehicles
  rcases stageIn_cases h.tree₁ (fun _ ho => h.isName ho) h.nodup h.files.keepsFilesApart hn hstage
    with ⟨⟨e, he⟩, -⟩ | ⟨-, hevolves, hfilled⟩
  · cases he
  · exact ⟨d₂, (outcome_stage h.root).trans hstage, hevolves, hfilled⟩

end Admits

/-- The disks that a run passes through once the output root is there: files are staged below the
scratch folder and settled from it. -/
structure Passes (d₁ d₂ d₃ : Disk) (s : Settings) (outputs : List VehicleOutput) : Prop where
  staging : Evolves (d₁.placeOf s.outputRoot ++ [scratchName d₁ s] <+: ·) d₁ d₂
  filled : ∀ o ∈ outputs, Filled d₂ (s.outputRoot.join (scratchName d₁ s)) s o
  settling : Evolves
    (fun b => ∃ o ∈ outputs, Settles (d₁.placeOf s.outputRoot) (scratchName d₁ s) s o b) d₂ d₃
  settled : ∀ o ∈ outputs, Settled (scratchName d₁ s) s o d₂ d₃

/-- A fleet in whose way nothing is passes through, and its files are written vehicle by vehicle. -/
lemma Admits.exists_passes (h : Admits d d₁ s outputs)
    (hunblocked : ∀ o ∈ outputs, Unblocked d₁ s o) : ∃ d₂ d₃, Passes d₁ d₂ d₃ s outputs ∧
      (writeOutputs outputs s : Job (StateM Disk) _ _).outcome d =
        (.ok (outputs.map fun o => (o.files s).map fun f =>
          (s.outputRoot.join o.vehicle).join f.1).flatten,
          d₃.removeAll (scratchPath d₁ s)) := by
  obtain ⟨d₂, hstage, hstaging, hfilled⟩ := h.exists_stage
  have hn := isName_scratchName d₁ s
  have hs := h.files.keepsFilesApart
  have hready : ∀ o ∈ outputs, Ready d₂ (scratchName d₁ s) s o := fun o ho =>
    ((hfilled o ho).toStaged.ready_iff_unblocked h.tree₁ h.stands hstaging hn (h.isName ho)
      (h.scratch_ne ho) hs).2 (hunblocked o ho)
  obtain ⟨d₃, hsettle, hsettling, hsettled⟩ := exists_settleVehicles (hstaging.tree h.tree₁) hn
    (fun _ ho => h.isName ho) (fun _ ho => h.scratch_ne ho) h.nodup hs hready
  rw [hstaging.placeOf] at hsettling
  refine ⟨d₂, d₃, ⟨hstaging, hfilled, hsettling, hsettled⟩, ?_⟩
  rw [outcome_writeOutputs_eq_ok_iff h.vehicles, outcome_writeChecked, hstage]
  dsimp only
  rw [outcome_settleFrom, hsettle]
  exact ⟨fun o ho => (hunblocked o ho).of_gains h.gains, rfl⟩

lemma Admits.unblocked_of_writeOutputs (h : Admits d d₁ s outputs)
    (hwrite : (writeOutputs outputs s : Job (StateM Disk) _ _).outcome d = (.ok written, d')) :
    ∀ o ∈ outputs, Unblocked d₁ s o := by
  obtain ⟨d₂, hstage, hstaging, hfilled⟩ := h.exists_stage
  have hn := isName_scratchName d₁ s
  have hs := h.files.keepsFilesApart
  rw [outcome_writeOutputs_eq_ok_iff h.vehicles, outcome_writeChecked, hstage] at hwrite
  dsimp only at hwrite
  rw [outcome_settleFrom] at hwrite
  rcases hsettle : (outputs.mapM (settleVehicle (scratchPath d₁ s) s) :
      Job (StateM Disk) _ _).outcome d₂ with ⟨e | paths, d₃⟩
  · rw [hsettle] at hwrite
    cases hwrite.2
  · intro o ho
    have hready := ready_of_settleVehicles (hstaging.tree h.tree₁) hn (fun _ ho => h.isName ho)
      (fun _ ho => h.scratch_ne ho) h.nodup hs (fun o ho => (hfilled o ho).toStaged) hsettle o ho
    exact ((hfilled o ho).toStaged.ready_iff_unblocked h.tree₁ h.stands hstaging hn (h.isName ho)
      (h.scratch_ne ho) hs).1 hready

/-- Making an output root whose way never leaves a missing folder puts nothing in the way. -/
lemma Admits.unblocked_of_grounded (h : Admits d d₁ s outputs) (hground : d.Grounded s.outputRoot)
    (hunblocked : ∀ o ∈ outputs, Unblocked d s o) : ∀ o ∈ outputs, Unblocked d₁ s o := by
  obtain ⟨d₂, -, hstaging, hfilled⟩ := h.exists_stage
  have hn := isName_scratchName d₁ s
  have hs := h.files.keepsFilesApart
  have hmade := foldersMade_makeFolders h.tree hground
  rw [h.root.makes] at hmade
  have hstaging' := hstaging
  rw [Evolves.placeOf h.gains] at hstaging'
  intro o ho
  have hready := (hfilled o ho).toStaged.ready (hunblocked o ho) h.tree hground hmade hstaging' hn
    (h.isName ho) (h.scratch_ne ho) hs
  exact ((hfilled o ho).toStaged.ready_iff_unblocked h.tree₁ h.stands hstaging hn (h.isName ho)
    (h.scratch_ne ho) hs).1 hready

/-! ### The disk at the end -/

namespace Passes
variable {d₃ : Disk} (hpasses : Passes d₁ d₂ d₃ s outputs)
include hpasses

lemma here_eq : d₃.here = d₁.here := by
  rw [hpasses.settling.here, hpasses.staging.here]

lemma placeOf_eq (p : Path) : d₃.placeOf p = d₁.placeOf p := placeOf_eq_of_here hpasses.here_eq

lemma get?_folder (ho : o ∈ outputs) :
    d₃.get? (d₁.placeOf (s.outputRoot.join o.vehicle)) = some .folder := by
  rw [← hpasses.placeOf_eq]
  exact (isFolder_iff.1 (hpasses.settled o ho).folder).2

lemma get?_file (ho : o ∈ outputs) {f : String × String} (hf : f ∈ o.files s) :
    d₃.get? (d₁.placeOf ((s.outputRoot.join o.vehicle).join f.1)) = some (.file (.text f.2)) := by
  rw [← hpasses.placeOf_eq, (hpasses.settled o ho).files f hf]
  exact (hpasses.filled o ho).texts f hf

variable (h : Admits d d₁ s outputs)
include h

lemma get?_removeAll (b : Place) :
    (d₃.removeAll (scratchPath d₁ s)).get? b =
      if d₁.placeOf s.outputRoot ++ [scratchName d₁ s] <+: b then none else d₃.get? b := by
  have hn := isName_scratchName d₁ s
  have hplace : d₃.placeOf (scratchPath d₁ s) =
      d₁.placeOf s.outputRoot ++ [scratchName d₁ s] := by
    rw [hpasses.placeOf_eq, placeOf_join_name hn]
  have hfolder : d₃.isFolder (scratchPath d₁ s) = true := by
    obtain ⟨o, ho⟩ := List.exists_mem_of_ne_nil _ h.nonempty
    have hvehicle := hpasses.settling.isFolder (hpasses.filled o ho).folder
    exact isFolder_of_join hn (h.isName ho) hvehicle
  exact (Disk.get?_removeAll hfolder hn.isSome_lastName?_join (by rw [hplace]; simp)).trans
    (by rw [hplace])

/-- Folders that were there, or were made with the output root, are there at the end. -/
lemma folder_of_folder {b : Place} (hb : d₁.get? b = some .folder) :
    (d₃.removeAll (scratchPath d₁ s)).get? b = some .folder := by
  rw [hpasses.get?_removeAll h, if_neg]
  · exact hpasses.settling.folders b (hpasses.staging.folders b hb)
  · intro hbelow
    rw [h.tree₁.eq_none_below h.get?_scratch hbelow] at hb
    cases hb

/-- The scratch folder goes without what was settled from it. -/
lemma get?_vehicle (ho : o ∈ outputs) {b : Place}
    (hb : d₁.placeOf (s.outputRoot.join o.vehicle) <+: b) :
    (d₃.removeAll (scratchPath d₁ s)).get? b = d₃.get? b := by
  obtain ⟨t, rfl⟩ := hb
  rw [hpasses.get?_removeAll h, if_neg]
  rw [placeOf_join_name (h.isName ho), List.append_assoc, List.prefix_append_right_inj]
  intro hbelow
  exact h.scratch_ne ho (List.cons_prefix_cons.1 hbelow).1

lemma stands_vehicle (ho : o ∈ outputs) :
    (d₃.removeAll (scratchPath d₁ s)).Stands (s.outputRoot.join o.vehicle) := by
  have hhere : (d₃.removeAll (scratchPath d₁ s)).here = d₁.here := by
    rw [here_removeAll, hpasses.here_eq]
  have hroot := h.stands.mono hhere fun b hb => hpasses.folder_of_folder h hb
  apply hroot.join (h.isName ho) (h.limits.vehicles o ho).vehicle
  rw [placeOf_eq_of_here hhere, ← placeOf_join_name (h.isName ho),
    hpasses.get?_vehicle h ho List.prefix_rfl]
  exact hpasses.get?_folder ho

/-- Every file is in place with its text. -/
lemma read_file (ho : o ∈ outputs) {f : String × String} (hf : f ∈ o.files s) :
    (d₃.removeAll (scratchPath d₁ s)).read ((s.outputRoot.join o.vehicle).join f.1) = .ok f.2 := by
  have hname := h.files.isName hf
  have htakes := h.limits.vehicles o ho
  have hfits : ((s.outputRoot.join o.vehicle).join f.1).Fits :=
    (htakes.paths f hf).settleFile (isName_scratchName d₁ s) (h.isName ho) hname.isAbsolute
  apply read_of_reaches ((hpasses.stands_vehicle h ho).reaches_join hname (htakes.names f hf) hfits)
    hname.endsInSlash_join
  rw [placeOf_eq_of_here (here_removeAll.trans hpasses.here_eq), hpasses.get?_vehicle h ho]
  · exact hpasses.get?_file ho hf
  · rw [placeOf_join_name hname]
    exact List.prefix_append _ _

end Passes

/-- The disk after outputs were written. Each vehicle has its two files with their texts. Everything
else is as it was, but for folders that are new: the output root, those around it and those of the
vehicles. -/
structure Delivered (d d' : Disk) (s : Settings) (outputs : List VehicleOutput)
    (written : List Path) : Prop where
  paths : written = outputs.flatMap fun o => [(s.outputRoot.join o.vehicle).join s.missionFile,
    (s.outputRoot.join o.vehicle).join s.waypointFile]
  missions : ∀ o ∈ outputs,
    d'.read ((s.outputRoot.join o.vehicle).join s.missionFile) = .ok o.output.python
  waypoints : ∀ o ∈ outputs,
    d'.read ((s.outputRoot.join o.vehicle).join s.waypointFile) = .ok o.waypoints.toJson
  here : d'.here = d.here
  rest : ∀ b, (∀ p ∈ written, b ≠ d.placeOf p) → d'.get? b = d.get? b ∨
    d.get? b = none ∧ d'.get? b = some .folder ∧
      ((∃ q ∈ s.outputRoot :: Path.parents s.outputRoot, b = d.placeOf q) ∨
        ∃ o ∈ outputs, b = d.placeOf (s.outputRoot.join o.vehicle))

/-- What is neither a file of a vehicle nor a new folder is as it was. -/
lemma Passes.get?_rest {d₃ : Disk} (hpasses : Passes d₁ d₂ d₃ s outputs)
    (h : Admits d d₁ s outputs) (hunblocked : ∀ o ∈ outputs, Unblocked d₁ s o) {b : Place}
    (hb : ∀ o ∈ outputs, ∀ f ∈ o.files s,
      b ≠ d.placeOf ((s.outputRoot.join o.vehicle).join f.1)) :
    (d₃.removeAll (scratchPath d₁ s)).get? b = d.get? b ∨
      d.get? b = none ∧
        (d₃.removeAll (scratchPath d₁ s)).get? b = some .folder ∧
        ((∃ q ∈ s.outputRoot :: Path.parents s.outputRoot, b = d.placeOf q) ∨
          ∃ o ∈ outputs, b = d.placeOf (s.outputRoot.join o.vehicle)) := by
  have hplaceOf (p : Path) : d₁.placeOf p = d.placeOf p := Evolves.placeOf h.gains p
  rw [hpasses.get?_removeAll h]
  split
  · rename_i hbelow
    exact Or.inl (h.gains.eq_none (h.tree₁.eq_none_below h.get?_scratch hbelow)).symm
  rename_i hbelow
  by_cases hvehicle : ∃ o ∈ outputs, b = d.placeOf (s.outputRoot.join o.vehicle)
  · obtain ⟨o, ho, rfl⟩ := hvehicle
    rw [← hplaceOf, hpasses.get?_folder ho, hplaceOf]
    rcases hget : d.get? (d.placeOf (s.outputRoot.join o.vehicle)) with _ | _ | c
    · exact Or.inr ⟨rfl, rfl, Or.inr ⟨o, ho, rfl⟩⟩
    · exact Or.inl rfl
    · have hfile := h.gains.get?_of_isSome (by rw [hget]; rfl)
      rw [← hplaceOf] at hfile hget
      exact absurd (hfile.trans hget) ((hunblocked o ho).ne_file (h.isName ho) (h.reaches ho) c)
  · have hsame : d₃.get? b = d₁.get? b := by
      rw [hpasses.settling.untouched, hpasses.staging.untouched b hbelow]
      rintro ⟨o, ho, hscratch | rfl | ⟨f, hf, rfl⟩⟩
      · exact hbelow (.trans ⟨[o.vehicle], by simp⟩ hscratch)
      · rw [← placeOf_join_name (h.isName ho), hplaceOf] at hvehicle
        exact hvehicle ⟨o, ho, rfl⟩
      · apply hb o ho f hf
        rw [← hplaceOf, placeOf_settled (h.isName ho) (h.files.isName hf).staysInside]
    rw [hsame]
    rcases h.gains.get?_or b with heq | ⟨hplace, hnone, hfolder⟩
    · exact Or.inl heq
    · exact Or.inr ⟨hnone, hfolder, Or.inl hplace⟩

lemma Passes.delivered {d₃ : Disk} (hpasses : Passes d₁ d₂ d₃ s outputs)
    (h : Admits d d₁ s outputs) (hunblocked : ∀ o ∈ outputs, Unblocked d₁ s o) :
    Delivered d (d₃.removeAll (scratchPath d₁ s)) s outputs
      (outputs.map fun o => (o.files s).map fun f =>
        (s.outputRoot.join o.vehicle).join f.1).flatten where
  paths := rfl
  missions o ho := by
    have hread := hpasses.read_file h ho (mission_mem_files o s)
    exact hread
  waypoints o ho := by
    have hread := hpasses.read_file h ho (waypoints_mem_files o s)
    exact hread
  here := by
    rw [here_removeAll, hpasses.here_eq, Evolves.here h.gains]
  rest b hb := by
    apply hpasses.get?_rest h hunblocked
    intro o ho f hf
    exact hb _ (List.mem_flatten.2 ⟨_, List.mem_map_of_mem ho, List.mem_map_of_mem hf⟩)

/-- Outputs are written exactly where, once the output root has been made, no file stands for a
vehicle's folder and no folder for one of its files. This can be seen before it is made, unless the
way to it leaves a missing folder. Then the outputs are delivered, and nothing of the scratch folder
remains. -/
theorem writeOutputs_delivers (h : Admits d d₁ s outputs) :
    ((∃ written d', (writeOutputs outputs s : Job (StateM Disk) _ _).outcome d =
        (.ok written, d')) ↔ ∀ o ∈ outputs, Unblocked d₁ s o) ∧
    (d.Grounded s.outputRoot →
      ((∀ o ∈ outputs, Unblocked d₁ s o) ↔ ∀ o ∈ outputs, Unblocked d s o)) ∧
    ∀ written d',
      (writeOutputs outputs s : Job (StateM Disk) _ _).outcome d = (.ok written, d') →
      Delivered d d' s outputs written ∧
        ∀ b, d.placeOf (s.outputRoot.join (scratchName d₁ s)) <+: b → d'.get? b = none := by
  refine ⟨⟨?_, ?_⟩, fun hground => ⟨?_, h.unblocked_of_grounded hground⟩, ?_⟩
  · rintro ⟨written, d', hwrite⟩
    exact h.unblocked_of_writeOutputs hwrite
  · intro hunblocked
    obtain ⟨d₂, d₃, -, hwrite⟩ := h.exists_passes hunblocked
    exact ⟨_, _, hwrite⟩
  · exact fun hunblocked o ho => (hunblocked o ho).of_gains h.gains
  · intro written d' hwrite
    have hunblocked := h.unblocked_of_writeOutputs hwrite
    obtain ⟨d₂, d₃, hpasses, hwrite'⟩ := h.exists_passes hunblocked
    obtain ⟨hwritten, rfl⟩ := Prod.mk.inj (hwrite.symm.trans hwrite')
    cases hwritten
    refine ⟨hpasses.delivered h hunblocked, fun b hb => ?_⟩
    rw [placeOf_join_name (isName_scratchName d₁ s), ← Evolves.placeOf h.gains] at hb
    rw [hpasses.get?_removeAll h, if_pos hb]

/-- An output for a vehicle. -/
def plainOutput (vehicle : String) : VehicleOutput :=
  ⟨vehicle, Compilation.ofMission ⟨"A", ⟨1, 1⟩, .empty⟩, .empty⟩

/-- One of the vehicles has a file of an earlier run. -/
def rerunOutputs : List VehicleOutput := [plainOutput "drone1", plainOutput "drone2"]

def rerunSettings : Settings := { outputRoot := "out" }

lemma admits_rerun : Admits earlierDisk earlierDisk rerunSettings rerunOutputs where
  tree := isTree_earlierDisk
  vehicles := by rfl
  files := ⟨by decide, by decide, by decide⟩
  root := founds_of_isFolder (by decide +kernel)
  limits := ⟨by decide +kernel, by decide +kernel⟩

theorem writeOutputs_delivers_rerun : ∃ written d',
    Admits earlierDisk earlierDisk rerunSettings rerunOutputs ∧
    (∀ o ∈ rerunOutputs, Unblocked earlierDisk rerunSettings o) ∧
    (writeOutputs rerunOutputs rerunSettings : Job (StateM Disk) _ _).outcome earlierDisk =
      (.ok written, d') ∧
    Delivered earlierDisk d' rerunSettings rerunOutputs written ∧
    ∀ b, earlierDisk.placeOf (rerunSettings.outputRoot.join (scratchName earlierDisk rerunSettings))
      <+: b → d'.get? b = none := by
  have hunblocked : ∀ o ∈ rerunOutputs, Unblocked earlierDisk rerunSettings o := by
    decide +kernel
  obtain ⟨hiff, -, hdelivered⟩ := writeOutputs_delivers admits_rerun
  obtain ⟨written, d', hwrite⟩ := hiff.2 hunblocked
  exact ⟨written, d', admits_rerun, hunblocked, hwrite, hdelivered written d' hwrite⟩

/-- An output root that is reached through a folder in the place of a vehicle's file. -/
def crossedSettings : Settings := { outputRoot := "out/drone1/mission.py/../.." }

/-- The empty disk with that output root. -/
def crossedDisk : Disk where
  entries := [(["work", "out", "drone1", "mission.py"], .folder),
    (["work", "out", "drone1"], .folder), (["work", "out"], .folder), (["work"], .folder)]
  here := ["work"]

lemma admits_crossed :
    Admits Disk.empty crossedDisk crossedSettings [plainOutput "drone1"] where
  tree := isTree_of_entries (by decide)
  vehicles := by rfl
  files := ⟨by decide, by decide, by decide⟩
  root := ⟨by rfl, by decide +kernel⟩
  limits := ⟨by decide +kernel, by decide +kernel⟩

/-- Nothing has to be there from the start for something to be in the way. On an empty disk this
output root can be made, but on the way to it goes a folder in the place of the mission file. -/
theorem exists_failure_unblocked : ∃ e d',
    Admits Disk.empty crossedDisk crossedSettings [plainOutput "drone1"] ∧
    Disk.empty.isPresent (crossedSettings.outputRoot.join "drone1") = false ∧
    (∀ o ∈ [plainOutput "drone1"], Unblocked Disk.empty crossedSettings o) ∧
    (writeOutputs [plainOutput "drone1"] crossedSettings : Job (StateM Disk) _ _).outcome
      Disk.empty = (.error e, d') := by
  have hfails : ((writeOutputs [plainOutput "drone1"] crossedSettings :
      Job (StateM Disk) _ _).outcome Disk.empty).1.toBool = false := by
    decide +kernel
  rcases h : (writeOutputs [plainOutput "drone1"] crossedSettings :
      Job (StateM Disk) _ _).outcome Disk.empty with ⟨e | written, d'⟩
  · exact ⟨e, d', admits_crossed, by decide +kernel, by decide +kernel, rfl⟩
  · rw [h] at hfails
    cases hfails

end Workspace
end Sortie
