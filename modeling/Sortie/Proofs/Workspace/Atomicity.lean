import Sortie.Proofs.Fleet.Assignment
import Sortie.Proofs.Workspace.Settling

/-! Writing outputs all or not at all. Where the file names of a vehicle stay in its folder and name
different files, and the output root is reached over folders that are there, a failure to write the
outputs of a fleet leaves everything at and below the output root as it was. -/
namespace Sortie

/-- Two disks hold the same at a place and below it. -/
def Disk.AgreeFrom (a : Place) (d d' : Disk) : Prop := ∀ b, a <+: b → d'.get? b = d.get? b

namespace Workspace
open Disk
variable {d d₁ d' : Disk} {s : Settings} {o : VehicleOutput} {outputs : List VehicleOutput}
  {n : String}

/-! ### The checks before staging -/

lemma of_checkVehicles {ids : List String} (h : Fleet.checkVehicles ids = .ok ()) :
    ids ≠ [] ∧ (∀ id ∈ ids, Fleet.isValidId id = true) ∧ ids.Nodup := by
  unfold Fleet.checkVehicles at h
  split at h
  · cases h
  · rename_i hnonempty
    split at h
    · cases h
    · rename_i hfind
      split at h
      · cases h
      · rename_i hduplicate
        refine ⟨?_, ?_, Fleet.firstDuplicate_eq_none_iff.1 hduplicate⟩
        · simpa using hnonempty
        · simpa using hfind

/-- Nothing is in the way of a vehicle's folder and files. -/
structure Unblocked (d : Disk) (s : Settings) (o : VehicleOutput) : Prop where
  folder : d.isPresent (s.outputRoot.join o.vehicle) = true →
    d.isFolder (s.outputRoot.join o.vehicle) = true
  files : ∀ f ∈ o.files s, d.isFolder ((s.outputRoot.join o.vehicle).join f.1) = false

instance (d : Disk) (s : Settings) (o : VehicleOutput) : Decidable (Unblocked d s o) :=
  decidable_of_iff ((d.isPresent (s.outputRoot.join o.vehicle) = true →
      d.isFolder (s.outputRoot.join o.vehicle) = true) ∧
    ∀ f ∈ o.files s, d.isFolder ((s.outputRoot.join o.vehicle).join f.1) = false)
    ⟨fun ⟨hfolder, hfiles⟩ => ⟨hfolder, hfiles⟩, fun ⟨hfolder, hfiles⟩ => ⟨hfolder, hfiles⟩⟩

lemma checkFile_cases {folder : Path} {f : String × String} {r : Except Failure Unit}
    (h : (do
      if ← .lift (Files.isFolder (folder.join f.1)) then
        .fail (.disk (folder.join f.1) .blocked) : Job (StateM Disk) Failure Unit).outcome d =
      (r, d')) :
    d' = d ∧ (r = .ok () ↔ d.isFolder (folder.join f.1) = false) := by
  rw [Job.outcome_bind_of_ok (Job.outcome_lift _)] at h
  change (if d.isFolder (folder.join f.1) then _ else _ : Job (StateM Disk) _ _).outcome d = _ at h
  cases hfolder : d.isFolder (folder.join f.1) with
  | true =>
    rw [hfolder, if_pos rfl, Job.outcome_fail] at h
    obtain ⟨rfl, rfl⟩ := Prod.mk.inj h
    exact ⟨rfl, by simp⟩
  | false =>
    rw [hfolder, if_neg Bool.false_ne_true, Job.outcome_pure] at h
    obtain ⟨rfl, rfl⟩ := Prod.mk.inj h
    exact ⟨rfl, by simp⟩

lemma checkUnblocked_cases {r : Except Failure Unit}
    (h : (checkUnblocked s o : Job (StateM Disk) _ _).outcome d = (r, d')) :
    d' = d ∧ (r = .ok () ↔ Unblocked d s o) := by
  unfold checkUnblocked at h
  rw [Job.outcome_bind_of_ok (Job.outcome_lift _), Job.outcome_bind_of_ok (Job.outcome_lift _)] at h
  dsimp only at h
  split at h
  · rename_i hfolder
    change (d.isPresent _ && !d.isFolder _) = true at hfolder
    rw [Job.outcome_bind_of_error (Job.outcome_fail _)] at h
    obtain ⟨rfl, rfl⟩ := Prod.mk.inj h
    refine ⟨rfl, by simp, fun hunblocked => ?_⟩
    rw [Bool.and_eq_true, Bool.not_eq_true'] at hfolder
    rw [hunblocked.folder hfolder.1] at hfolder
    cases hfolder.2
  · rename_i hfolder
    obtain ⟨hd, hfiles⟩ := Job.forM_cases (fun _ _ _ hf => checkFile_cases hf) h
    refine ⟨hd, fun hr => ⟨?_, hfiles.1 hr⟩, fun hunblocked => hfiles.2 hunblocked.files⟩
    intro hpresent
    change ¬ (d.isPresent _ && !d.isFolder _) = true at hfolder
    rw [hpresent] at hfolder
    simpa using hfolder

lemma Unblocked.ne_file (h : Unblocked d s o) (hv : Path.IsName o.vehicle)
    (hreaches : d.Reaches (s.outputRoot.join o.vehicle)) (c : Content) :
    d.get? (d.placeOf (s.outputRoot.join o.vehicle)) ≠ some (.file c) := by
  intro hfile
  have hfolder := h.folder (isPresent_of_file hreaches hv.endsInSlash_join hfile)
  rw [(isFolder_iff.1 hfolder).2] at hfile
  cases hfile

/-! ### From staging to settling -/

/-- What was found free before staging is still free after it. -/
lemma Staged.ready {made : Except DiskFault Unit} (h : Staged d' (s.outputRoot.join n) s o)
    (hunblocked : Unblocked d s o) (htree : d.IsTree) (hground : d.Grounded s.outputRoot)
    (hmade : FoldersMade d s.outputRoot made d₁)
    (hevolves : Evolves (d.placeOf s.outputRoot ++ [n] <+: ·) d₁ d') (hn : Path.IsName n)
    (hv : Path.IsName o.vehicle) (hne : n ≠ o.vehicle) (hs : s.KeepsFilesApart) :
    Ready d' n s o := by
  have hplaceOf (p : Path) : d'.placeOf p = d.placeOf p := by
    rw [hevolves.placeOf, hmade.evolves.placeOf]
  -- neither making the output root nor staging touches the vehicle's folder
  have hsame (t : Place) : d'.get? (d.placeOf s.outputRoot ++ o.vehicle :: t) =
      d.get? (d.placeOf s.outputRoot ++ o.vehicle :: t) := by
    rw [hevolves.untouched, hmade.evolves.untouched]
    · rintro ⟨hbelow, -⟩
      have hlength := hbelow.length_le
      rw [List.length_append, List.length_cons] at hlength
      omega
    · rw [List.prefix_append_right_inj]
      intro hbelow
      exact hne (List.cons_prefix_cons.1 hbelow).1
  have hreaches' := (isFolder_iff.1 h.folder).1.settleFolder hn hv
  obtain ⟨hfits, hw, -, hsize⟩ := (reaches_join_name_iff hv).1 hreaches'
  -- so far as it is there, the disk could follow the path to it from the start
  have hreaches (hroot : d.get? (d.placeOf s.outputRoot) = some .folder) :
      d.Reaches (s.outputRoot.join o.vehicle) := by
    have hw := hground.walks htree (hevolves.here.trans hmade.evolves.here) hw hroot
    exact (reaches_join_name_iff hv).2 ⟨hfits, hw, hroot, hsize⟩
  refine ⟨h, ?_, ?_⟩
  · intro c hfile
    rw [hplaceOf, placeOf_join_name hv, hsame] at hfile
    have hroot := htree _ _ (by rw [hfile]; rfl)
    rw [← placeOf_join_name hv] at hfile
    exact hunblocked.ne_file hv (hreaches hroot) c hfile
  · intro f hf hfolder
    have hinside := hs.inside hf
    obtain ⟨m, hm⟩ := (h.files f hf).single
    rw [hplaceOf, placeOf_settled hv hinside, hm, List.append_assoc, List.singleton_append, hsame]
      at hfolder
    have hvehicle : d.get? (d.placeOf s.outputRoot ++ [o.vehicle]) = some .folder :=
      htree.folder_above ⟨[m], by simp⟩ hfolder
    have hroot : d.get? (d.placeOf s.outputRoot) = some .folder :=
      htree.folder_above (List.prefix_append _ _) hvehicle
    rw [← placeOf_join_name hv] at hvehicle
    have hblocked : d.isFolder ((s.outputRoot.join o.vehicle).join f.1) = true := by
      rw [isFolder_iff, placeOf_settled hv hinside, hm, List.append_assoc, List.singleton_append]
      exact ⟨(h.files f hf).reaches_settled hn hv hinside (hreaches hroot) hvehicle, hfolder⟩
    rw [hunblocked.files f hf] at hblocked
    cases hblocked

/-! ### Writing the outputs of a fleet -/

/-- Where staging succeeds the files of the whole fleet can be moved. -/
lemma exists_settle_of_stage {staging : Path} (htree : d.IsTree) (hground : d.Grounded s.outputRoot)
    (hvs : ∀ o ∈ outputs, Fleet.isValidId o.vehicle = true)
    (hnodup : (outputs.map VehicleOutput.vehicle).Nodup) (hs : s.KeepsFilesApart)
    (hunblocked : ∀ o ∈ outputs, Unblocked d s o)
    (h : (stage outputs s : Job (StateM Disk) _ _).outcome d = (.ok staging, d')) :
    ∃ written d₂, (outputs.mapM (settleVehicle staging s) : Job (StateM Disk) _ _).outcome d' =
      (.ok written, d₂) := by
  obtain ⟨made, d₁, hmade, ⟨⟨e, he⟩, -⟩ | ⟨n, hr, hn, hne, hevolves, hfilled⟩⟩ :=
    stage_cases htree hground hvs hnodup hs h
  · cases he
  · injection hr with hr
    subst hr
    have hnames : ∀ o ∈ outputs, Path.IsName o.vehicle := fun o ho => isName_of_isValidId (hvs o ho)
    have hready : ∀ o ∈ outputs, Ready d' n s o := fun o ho =>
      (hfilled o ho).toStaged.ready (hunblocked o ho) htree hground hmade hevolves hn (hnames o ho)
        (hne o ho) hs
    obtain ⟨d₂, hsettle, -⟩ := exists_settleVehicles (hevolves.tree (hmade.evolves.tree htree)) hn
      hnames hne hnodup hs hready
    exact ⟨_, d₂, hsettle⟩

/-- Settling a fleet from a scratch folder, which goes in any case. -/
def settleFrom (staging : Path) (outputs : List VehicleOutput) (s : Settings) :
    Job (StateM Disk) Failure (List Path) := do
  let written ← Job.andFinally (outputs.mapM (settleVehicle staging s)) (Files.removeAll staging)
  let written := written.flatten
  .emit (.info "outputs written"
    [("files", toString written.length), ("root", s.outputRoot)])
  return written

/-- Writing outputs, once the checks have passed. -/
def writeChecked (outputs : List VehicleOutput) (s : Settings) :
    Job (StateM Disk) Failure (List Path) := do
  let existed ← .lift (Files.isPresent s.outputRoot)
  let staging ← (stage outputs s).onFailure
    (if existed then pure () else Files.removeAll s.outputRoot)
  settleFrom staging outputs s

lemma writeOutputs_eq : writeOutputs outputs s = (do
    checkVehicles (outputs.map VehicleOutput.vehicle)
    outputs.forM (checkUnblocked s)
    writeChecked outputs s) := rfl

lemma outcome_settleFrom (staging : Path) : (settleFrom staging outputs s).outcome d =
    match (outputs.mapM (settleVehicle staging s) : Job (StateM Disk) _ _).outcome d with
    | (.ok written, d₁) => (.ok written.flatten, d₁.removeAll staging)
    | (.error e, d₁) => (.error e, d₁.removeAll staging) := by
  have hfinally := Job.outcome_andFinally
    (x := (outputs.mapM (settleVehicle staging s) : Job (StateM Disk) _ _)) (d := d)
    (Files.removeAll staging)
  unfold settleFrom
  rcases hsettle : (outputs.mapM (settleVehicle staging s) : Job (StateM Disk) _ _).outcome d with
    ⟨e | written, d₁⟩
  · rw [hsettle] at hfinally
    rw [Job.outcome_bind_of_error hfinally]
    rfl
  · rw [hsettle] at hfinally
    rw [Job.outcome_bind_of_ok hfinally]
    rfl

/-- After a failure of staging an output root that was not there before is removed, and after
success the files are settled. -/
lemma outcome_writeChecked : (writeChecked outputs s).outcome d =
    match (stage outputs s : Job (StateM Disk) _ _).outcome d with
    | (.ok staging, d₁) => (settleFrom staging outputs s).outcome d₁
    | (.error e, d₁) =>
      (.error e, if d.isPresent s.outputRoot then d₁ else d₁.removeAll s.outputRoot) := by
  have hcleanup := Job.outcome_onFailure
    (x := (stage outputs s : Job (StateM Disk) _ _)) (d := d)
    (if d.isPresent s.outputRoot then pure () else Files.removeAll s.outputRoot)
  have hwrite : (writeChecked outputs s).outcome d = ((stage outputs s).onFailure
      (if d.isPresent s.outputRoot then pure () else Files.removeAll s.outputRoot) >>=
        fun staging => settleFrom staging outputs s).outcome d := by
    unfold writeChecked
    rw [Job.outcome_bind_of_ok (Job.outcome_lift _)]
    rfl
  rw [hwrite]
  rcases hstage : (stage outputs s : Job (StateM Disk) _ _).outcome d with ⟨e | staging, d₁⟩
  · rw [hstage] at hcleanup
    rw [Job.outcome_bind_of_error hcleanup]
    cases d.isPresent s.outputRoot <;> rfl
  · rw [hstage] at hcleanup
    rw [Job.outcome_bind_of_ok hcleanup]

/-- After the checks only staging can fail, and it cleans up. -/
lemma agreeFrom_of_writeChecked {e : Failure} (htree : d.IsTree) (hground : d.Grounded s.outputRoot)
    (hvs : ∀ o ∈ outputs, Fleet.isValidId o.vehicle = true)
    (hnodup : (outputs.map VehicleOutput.vehicle).Nodup) (hs : s.KeepsFilesApart)
    (hunblocked : ∀ o ∈ outputs, Unblocked d s o)
    (h : (writeChecked outputs s).outcome d = (.error e, d')) :
    AgreeFrom (d.placeOf s.outputRoot) d d' := by
  rw [outcome_writeChecked] at h
  rcases hstage : (stage outputs s : Job (StateM Disk) _ _).outcome d with ⟨fault | staging, d₁⟩
  · rw [hstage] at h
    obtain ⟨made, d₂, hmade, ⟨-, hhere, hget⟩ | ⟨n, hr, -⟩⟩ :=
      stage_cases htree hground hvs hnodup hs hstage
    · obtain ⟨-, rfl⟩ := Prod.mk.inj h
      exact fun b hb => hmade.get?_cleanup htree hground hhere hget hb
    · cases hr
  · obtain ⟨written, d₂, hsettle⟩ :=
      exists_settle_of_stage htree hground hvs hnodup hs hunblocked hstage
    rw [hstage] at h
    dsimp only at h
    rw [outcome_settleFrom, hsettle] at h
    cases h

lemma agreeFrom_of_writeOutputs {e : Failure} (htree : d.IsTree) (hground : d.Grounded s.outputRoot)
    (hs : s.KeepsFilesApart)
    (h : (writeOutputs outputs s : Job (StateM Disk) _ _).outcome d = (.error e, d')) :
    AgreeFrom (d.placeOf s.outputRoot) d d' := by
  rw [writeOutputs_eq] at h
  have hvehicles : (checkVehicles (outputs.map VehicleOutput.vehicle) :
      Job (StateM Disk) _ _).outcome d =
        ((Fleet.checkVehicles (outputs.map VehicleOutput.vehicle)).mapError .vehicles, d) := rfl
  cases hcheck : Fleet.checkVehicles (outputs.map VehicleOutput.vehicle) with
  | error fault =>
    rw [hcheck] at hvehicles
    rw [Job.outcome_bind_of_error hvehicles] at h
    obtain ⟨-, rfl⟩ := Prod.mk.inj h
    exact fun _ _ => rfl
  | ok u =>
    rw [hcheck] at hvehicles
    rw [Job.outcome_bind_of_ok hvehicles] at h
    obtain ⟨-, hvalid, hnodup⟩ := of_checkVehicles hcheck
    rcases hblocked : (outputs.forM (checkUnblocked s) : Job (StateM Disk) _ _).outcome d with
      ⟨fault | u, d₁⟩
    · obtain ⟨rfl, -⟩ := Job.forM_cases (fun _ _ _ ho => checkUnblocked_cases ho) hblocked
      rw [Job.outcome_bind_of_error hblocked] at h
      obtain ⟨-, rfl⟩ := Prod.mk.inj h
      exact fun _ _ => rfl
    · obtain ⟨rfl, hunblocked⟩ := Job.forM_cases (fun _ _ _ ho => checkUnblocked_cases ho) hblocked
      rw [Job.outcome_bind_of_ok hblocked] at h
      exact agreeFrom_of_writeChecked htree hground (fun o ho => hvalid _ (List.mem_map_of_mem ho))
        hnodup hs (hunblocked.1 rfl) h

/-- Compiling reads files and changes none. -/
lemma keepsDisk_compileAll (path : Path) (source : AreaSource) (s : Settings) :
    (compileAll path source s : Job (StateM Disk) _ _).KeepsDisk := by
  refine Job.KeepsDisk.bind (fun _ => rfl) fun text => Job.KeepsDisk.bind ?_ fun _ _ => rfl
  refine Job.KeepsDisk.bind (fun _ => rfl) fun _ => ?_
  cases source with
  | none => exact fun _ => rfl
  | dictionary p =>
    exact Job.KeepsDisk.bind (Job.KeepsDisk.bind (fun _ => rfl) fun _ _ => rfl) fun _ _ => rfl
  | document p =>
    refine Job.KeepsDisk.bind (Job.KeepsDisk.bind (fun _ => rfl) fun _ => ?_) fun _ _ => rfl
    exact Job.KeepsDisk.bind (fun _ => rfl) fun _ =>
      Job.KeepsDisk.bind (fun _ => rfl) fun _ _ => rfl

/-- A failure to write outputs, or to compile a mission and write its outputs, leaves everything at
and below the output root as it was. -/
theorem agreeFrom_of_failure {e : Failure} (htree : d.IsTree) (hground : d.Grounded s.outputRoot)
    (hs : s.KeepsFilesApart)
    (h : (∃ outputs, (writeOutputs outputs s : Job (StateM Disk) _ _).outcome d = (.error e, d')) ∨
      ∃ path source, (compileToDisk path source s : Job (StateM Disk) _ _).outcome d =
        (.error e, d')) : AgreeFrom (d.placeOf s.outputRoot) d d' := by
  rcases h with ⟨outputs, h⟩ | ⟨path, source, h⟩
  · exact agreeFrom_of_writeOutputs htree hground hs h
  · unfold compileToDisk at h
    have hkeeps := keepsDisk_compileAll path source s d
    rcases hcompile : (compileAll path source s : Job (StateM Disk) _ _).outcome d with
      ⟨fault | outputs, d₁⟩
    · rw [hcompile] at hkeeps
      rw [Job.outcome_bind_of_error hcompile] at h
      obtain ⟨-, rfl⟩ := Prod.mk.inj h
      obtain rfl : d₁ = d := hkeeps
      exact fun _ _ => rfl
    · rw [hcompile] at hkeeps
      rw [Job.outcome_bind_of_ok hcompile] at h
      obtain rfl : d₁ = d := hkeeps
      exact agreeFrom_of_writeOutputs htree hground hs h

/-- A disk with a mission, and with an output root that holds a file of an earlier run. -/
def earlierDisk : Disk where
  entries := [(["work"], .folder),
    (["work", "mission"],
      .file (.text "task \x7b test A \x7b \x7d \x7d mission \x7b start: A \x7d")),
    (["work", "out"], .folder), (["work", "out", "drone1"], .folder),
    (["work", "out", "drone1", "mission.py"], .file (.text "earlier"))]
  here := ["work"]

lemma isTree_of_entries (h : ∀ e ∈ d.entries, d.get? e.1.dropLast = some .folder) : d.IsTree := by
  intro a n hsome
  rw [get?, if_neg (by simp), List.lookup_isSome_iff] at hsome
  obtain ⟨e, he, heq⟩ := hsome
  have hparent := h e he
  rw [← beq_iff_eq.1 heq, List.dropLast_concat] at hparent
  exact hparent

lemma isTree_earlierDisk : earlierDisk.IsTree := isTree_of_entries (by decide)

lemma grounded_of_notMem {p : Path} (h : ".." ∉ p.steps) : d.Grounded p := by
  intro before after hsteps
  exact absurd (by simp [hsteps]) h

/-- The waypoint file goes to a folder that is never made, so that staging fails after the mission
file was written. -/
theorem agreeFrom_earlier : ∃ e d', (compileToDisk "mission" .none
      { outputRoot := "out", waypointFile := "deep/waypoints.json" } :
        Job (StateM Disk) _ _).outcome earlierDisk = (.error e, d') ∧
      AgreeFrom ["work", "out"] earlierDisk d' := by
  have hfails : ((compileToDisk "mission" .none
      { outputRoot := "out", waypointFile := "deep/waypoints.json" } :
        Job (StateM Disk) _ _).outcome earlierDisk).1.toBool = false := by
    decide +kernel
  rcases h : (compileToDisk "mission" .none
      { outputRoot := "out", waypointFile := "deep/waypoints.json" } :
        Job (StateM Disk) _ _).outcome earlierDisk with ⟨e | written, d'⟩
  · refine ⟨e, d', rfl, ?_⟩
    exact agreeFrom_of_failure isTree_earlierDisk (grounded_of_notMem (by decide))
      ⟨⟨by decide, by decide⟩, ⟨by decide, by decide⟩, by decide⟩ (Or.inr ⟨_, _, h⟩)
  · rw [h] at hfails
    cases hfails

/-- A run that fails and leaves another disk at or below the output root. -/
lemma exists_failure (d : Disk) (path : Path) (source : AreaSource) (s : Settings) {a b : Place}
    (h : ((compileToDisk path source s : Job (StateM Disk) _ _).outcome d).1.toBool = false ∧
      ((compileToDisk path source s : Job (StateM Disk) _ _).outcome d).2.get? b ≠ d.get? b)
    (hplace : a <+: b) : ∃ e d', (compileToDisk path source s : Job (StateM Disk) _ _).outcome d =
      (.error e, d') ∧ ¬ AgreeFrom a d d' := by
  rcases houtcome : (compileToDisk path source s : Job (StateM Disk) _ _).outcome d with
    ⟨e | written, d'⟩
  · rw [houtcome] at h
    exact ⟨e, d', rfl, fun hagree => h.2 (hagree b hplace)⟩
  · rw [houtcome] at h
    cases h.1

/-- No condition on the settings can be left out. A second file of the same name is missing when it
is to be moved, after the first was; a name that leads out of the scratch folder is written in place
at once; and an output root behind a folder that is missing is taken for a new one and removed. -/
theorem exists_failure_without_condition :
    (∃ d s path source e d', d.IsTree ∧ d.Grounded s.outputRoot ∧
      Path.StaysInside s.missionFile ∧ Path.StaysInside s.waypointFile ∧
      (compileToDisk path source s : Job (StateM Disk) _ _).outcome d = (.error e, d') ∧
      ¬ AgreeFrom (d.placeOf s.outputRoot) d d') ∧
    (∃ d s path source e d', d.IsTree ∧ d.Grounded s.outputRoot ∧
      Path.steps s.missionFile ≠ Path.steps s.waypointFile ∧
      (compileToDisk path source s : Job (StateM Disk) _ _).outcome d = (.error e, d') ∧
      ¬ AgreeFrom (d.placeOf s.outputRoot) d d') ∧
    ∃ d s path source e d', d.IsTree ∧ s.KeepsFilesApart ∧
      (compileToDisk path source s : Job (StateM Disk) _ _).outcome d = (.error e, d') ∧
      ¬ AgreeFrom (d.placeOf s.outputRoot) d d' := by
  refine ⟨?_, ?_, ?_⟩
  · obtain ⟨e, d', hfails, htrace⟩ := exists_failure earlierDisk "mission" .none
      { outputRoot := "out", missionFile := "same", waypointFile := "same" }
      (a := ["work", "out"]) (b := ["work", "out", "drone1", "same"]) (by decide +kernel)
      (by decide)
    exact ⟨_, _, _, _, e, d', isTree_earlierDisk, grounded_of_notMem (by decide),
      ⟨by decide, by decide⟩, ⟨by decide, by decide⟩, hfails, htrace⟩
  · obtain ⟨e, d', hfails, htrace⟩ := exists_failure earlierDisk "mission" .none
      { outputRoot := "out", missionFile := "../../stray", waypointFile := "deep/waypoints.json" }
      (a := ["work", "out"]) (b := ["work", "out", "stray"]) (by decide +kernel) (by decide)
    exact ⟨_, _, _, _, e, d', isTree_earlierDisk, grounded_of_notMem (by decide), by decide, hfails,
      htrace⟩
  · obtain ⟨e, d', hfails, htrace⟩ := exists_failure earlierDisk "mission" .none
      { outputRoot := "new/../out", missionFile := "deep/mission.py" }
      (a := ["work", "out"]) (b := ["work", "out"]) (by decide +kernel) (by decide)
    exact ⟨_, _, _, _, e, d', isTree_earlierDisk,
      ⟨⟨by decide, by decide⟩, ⟨by decide, by decide⟩, by decide⟩, hfails, htrace⟩

end Workspace
end Sortie
