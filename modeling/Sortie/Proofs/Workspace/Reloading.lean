import Sortie.Proofs.Waypoints.Json
import Sortie.Proofs.Workspace.Delivery

/-! A waypoint dictionary that was written to a file can be used in its place. It is loaded as it was,
and every mission compiles against the file as it does against the dictionary. -/
namespace Sortie.Workspace
open Disk
variable {d d₁ d' : Disk} {p : Path} {s : Settings} {areas : Waypoints} {text : String}
  {outputs : List VehicleOutput} {written : List Path}

/-- A file gives back a dictionary, and no mission text compiles otherwise against the file than
against the dictionary: with the same outputs, or with the same failure. -/
structure Reloads (d : Disk) (p : Path) (areas : Waypoints) : Prop where
  loads : (loadWaypoints p : Job (StateM Disk) Failure Waypoints).outcome d = (.ok areas, d)
  compiles : ∀ path text s, d.read path = .ok text → Fleet.checkVehicles s.vehicles = .ok () →
    (compileAll path (.dictionary p) s : Job (StateM Disk) Failure _).outcome d =
      ((s.vehicles.mapM fun v => compileFor path text v areas).result, d)

lemma outcome_readText (h : d.read p = .ok text) :
    (readText p : Job (StateM Disk) Failure String).outcome d = (.ok text, d) := by
  apply Job.outcome_attempt_of_ok
  change (d.read p, d) = _
  rw [h]

lemma outcome_loadWaypoints (h : d.read p = .ok areas.toJson) :
    (loadWaypoints p : Job (StateM Disk) Failure Waypoints).outcome d = (.ok areas, d) := by
  unfold loadWaypoints
  rw [Job.outcome_bind_of_ok (outcome_readText h), Job.outcome_ofTraced, Traced.result_ofExcept,
    Waypoints.ofJson_toJson]
  rfl

lemma outcome_dictionaries (h : d.read p = .ok areas.toJson)
    (hvehicles : Fleet.checkVehicles s.vehicles = .ok ()) :
    (dictionaries (.dictionary p) s : Job (StateM Disk) Failure _).outcome d =
      (.ok (s.vehicles.map fun v => (v, areas)), d) := by
  unfold dictionaries
  rw [Job.outcome_bind_of_ok (outcome_checkVehicles hvehicles)]
  exact Job.outcome_bind_of_ok (outcome_loadWaypoints h)

/-- Wherever the text of a dictionary is found, it stands for the dictionary. -/
lemma reloads_of_read (h : d.read p = .ok areas.toJson) : Reloads d p areas where
  loads := outcome_loadWaypoints h
  compiles path text s htext hvehicles := by
    unfold compileAll
    rw [Job.outcome_bind_of_ok (outcome_readText htext),
      Job.outcome_bind_of_ok (outcome_dictionaries h hvehicles), Job.outcome_ofTraced,
      List.mapM_map]
    rfl

lemma Admits.delivered (h : Admits d d₁ s outputs)
    (hwrite : (writeOutputs outputs s : Job (StateM Disk) _ _).outcome d = (.ok written, d')) :
    Delivered d d' s outputs written := by
  have hunblocked := h.unblocked_of_writeOutputs hwrite
  obtain ⟨d₂, d₃, hpasses, hwrite'⟩ := h.exists_passes hunblocked
  obtain ⟨hwritten, rfl⟩ := Prod.mk.inj (hwrite.symm.trans hwrite')
  cases hwritten
  exact hpasses.delivered h hunblocked

/-- A dictionary survives its text, which is the layout of an object of lists of triples of strings.
So it survives any file with that text, above all the waypoint file of a vehicle. -/
theorem waypoints_survive_reloading (areas : Waypoints) :
    areas.toJson.toList = areas.tree.pretty 0 ∧
    Waypoints.ofJson areas.toJson = .ok areas ∧
    (∀ d p, d.read p = .ok areas.toJson → Reloads d p areas) ∧
    ∀ d d₁ d' s outputs written, Admits d d₁ s outputs →
      (writeOutputs outputs s : Job (StateM Disk) _ _).outcome d = (.ok written, d') →
      ∀ o ∈ outputs, o.waypoints = areas →
        Reloads d' ((s.outputRoot.join o.vehicle).join s.waypointFile) areas := by
  refine ⟨areas.toList_toJson, areas.ofJson_toJson, fun d p => reloads_of_read, ?_⟩
  intro d d₁ d' s outputs written hadmits hwrite o ho hareas
  apply reloads_of_read
  rw [← hareas]
  exact (hadmits.delivered hwrite).waypoints o ho

/-- An area without points, and texts with all kinds of characters that are escaped. -/
def oddWaypoints : Waypoints :=
  .ofList [("", []), ("\"\\\n\x01é", [⟨"1.500", "", "\t"⟩, ⟨"/", " ", "\x7f"⟩])]

def oddOutput : VehicleOutput :=
  ⟨"drone1", Compilation.ofMission ⟨"A", ⟨1, 1⟩, .empty⟩, oddWaypoints⟩

lemma admits_odd : Admits earlierDisk earlierDisk rerunSettings [oddOutput] where
  tree := isTree_earlierDisk
  vehicles := by rfl
  files := ⟨by decide, by decide, by decide⟩
  root := founds_of_isFolder (by decide +kernel)
  limits := ⟨by decide +kernel, by decide +kernel⟩

theorem waypoints_survive_reloading_odd : ∃ written d',
    Admits earlierDisk earlierDisk rerunSettings [oddOutput] ∧
    (writeOutputs [oddOutput] rerunSettings : Job (StateM Disk) _ _).outcome earlierDisk =
      (.ok written, d') ∧
    d'.read "out/drone1/waypoints.json" = .ok oddWaypoints.toJson ∧
    Reloads d' "out/drone1/waypoints.json" oddWaypoints := by
  have hunblocked : ∀ o ∈ [oddOutput], Unblocked earlierDisk rerunSettings o := by
    decide +kernel
  obtain ⟨d₂, d₃, -, hwrite⟩ := admits_odd.exists_passes hunblocked
  have hread := (admits_odd.delivered hwrite).waypoints oddOutput (by simp)
  obtain ⟨-, -, -, hfile⟩ := waypoints_survive_reloading oddWaypoints
  exact ⟨_, _, admits_odd, hwrite, hread,
    hfile _ _ _ _ _ _ admits_odd hwrite oddOutput (by simp) rfl⟩

end Sortie.Workspace
