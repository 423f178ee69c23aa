import Sortie.Proofs.Fleet.Assignment
import Sortie.Proofs.Mission.Path
import Sortie.Proofs.Workspace.Job
import Sortie.Workspace.Input

/-! A fleet covers its areas: where a mission is compiled for every vehicle against the areas of a
document, the paths of the vehicles in an area join to the whole line of the area. -/
namespace Sortie.Workspace
open Fleet

variable {path document : Path} {s : Settings} {d d' : Disk} {outputs : List VehicleOutput}

/-- The output of a vehicle is its mission text compiled against its dictionary. -/
def Compiles (text : String) (e : String × Waypoints) (o : VehicleOutput) : Prop :=
  o.vehicle = e.1 ∧ o.waypoints = e.2 ∧ (Compilation.compile text e.2).result = .ok o.output

lemma compiles_of_compileFor {text : String} {e : String × Waypoints} {o : VehicleOutput}
    (h : (compileFor path text e.1 e.2).result = .ok o) : Compiles text e o := by
  unfold compileFor at h
  simp only [Traced.result_bind, Traced.result_mapError, Except.bind_eq_ok_iff,
    Except.mapError_eq_ok_iff] at h
  obtain ⟨output, houtput, u, -, ho⟩ := h
  cases ho
  exact ⟨rfl, rfl, houtput⟩

lemma forall₂_of_mapM {text : String} {es : List (String × Waypoints)}
    (h : (es.mapM fun e => compileFor path text e.1 e.2).result = .ok outputs) :
    List.Forall₂ (Compiles text) es outputs := by
  induction es generalizing outputs with
  | nil =>
    cases h
    exact .nil
  | cons e es ih =>
    rw [List.mapM_cons] at h
    simp only [Traced.result_bind, Except.bind_eq_ok_iff] at h
    obtain ⟨o, ho, os, hos, hall⟩ := h
    cases hall
    exact .cons (compiles_of_compileFor ho) (ih hos)

lemma exists_report_of_partitionFile {plan : Plan} {report : Report}
    (h : (partitionFile document plan).outcome d = (.ok report, d')) :
    ∃ markup placemarks, d.read document = .ok markup ∧
      (Placemark.read markup).result = .ok placemarks ∧
      (partition (Placemark.collect placemarks).areas plan).result = .ok report.assignment := by
  unfold partitionFile readText at h
  simp only [Job.outcome_bind_eq_ok_iff, Job.outcome_attempt, Job.outcome_ofTraced,
    Job.outcome_pure, Prod.mk.injEq, Except.mapError_eq_ok_iff, Traced.result_mapError] at h
  obtain ⟨markup, d₁, ⟨hread, hd₁⟩, report', d₂, ⟨hreport, hd₂⟩, u, d₃, -, heq, -⟩ := h
  cases heq
  unfold partitionDocument at hreport
  simp only [Traced.result_bind, Traced.result_mapError, Except.bind_eq_ok_iff,
    Except.mapError_eq_ok_iff] at hreport
  obtain ⟨placemarks, hplacemarks, v, -, assignment, hassignment, w, -, hdone⟩ := hreport
  cases hdone
  exact ⟨markup, placemarks, hread, hplacemarks, hassignment⟩

/-- What a successful compilation against a document of areas has read and done. -/
lemma exists_assignment_of_compileAll
    (h : (compileAll path (.document document) s).outcome d = (.ok outputs, d')) :
    ∃ text markup placemarks assignment, d.read path = .ok text ∧ d.read document = .ok markup ∧
      (Placemark.read markup).result = .ok placemarks ∧
      (partition (Placemark.collect placemarks).areas s.plan).result = .ok assignment ∧
      List.Forall₂ (Compiles text) assignment.entries outputs := by
  unfold compileAll dictionaries readText checkVehicles at h
  simp only [Job.outcome_bind_eq_ok_iff, Job.outcome_attempt, Job.outcome_ofTraced,
    Job.outcome_pure, Prod.mk.injEq, Except.mapError_eq_ok_iff] at h
  obtain ⟨text, d₁, ⟨hread, rfl⟩, entries, d₂, ⟨u, d₃, ⟨-, rfl⟩, report, d₄, hreport, hentries,
    -⟩, houtputs, -⟩ := h
  cases hentries
  obtain ⟨markup, placemarks, hmarkup, hplacemarks, hpartition⟩ :=
    exists_report_of_partitionFile hreport
  exact ⟨text, markup, placemarks, report.assignment, hread, hmarkup, hplacemarks, hpartition,
    forall₂_of_mapM houtputs⟩

/-- The paths of a task in the programs of a fleet, joined, are the line of an area. -/
def Covers (outputs : List VehicleOutput) (id : String) (area : Area) : Prop :=
  ∃ paths : List (List Point),
    List.Forall₂ (fun (o : VehicleOutput) ps => o.output.program.path? id = some (.points ps))
      outputs paths ∧
    List.Forall₂ (fun (p : Point) (q : String × String) =>
      Decimal.read (Text.trim q.1) = some p.longitude ∧
        Decimal.read (Text.trim q.2) = some p.latitude)
      (stitch paths) area.points

/-- A vehicle keeps one altitude, in its dictionary and on every path that follows an area. -/
def FliesLevel (script : Script) (o : VehicleOutput) : Prop :=
  ∃ altitude : String, (∀ e ∈ o.waypoints.entries, ∀ w ∈ e.2, w.altitude = altitude) ∧
    ∀ t ∈ script.tasks, ∀ name, t.FollowsArea name → ∀ ps,
      o.output.program.path? t.name = some (.points ps) →
        ∀ p ∈ ps, Decimal.read (Text.trim altitude) = some p.altitude

section Coverage
variable {text : String} {tokens : List Token} {script : Script}
  {entries : List (String × Waypoints)} {t : TaskDecl} {name : String}

/-- Where every vehicle has waypoints for an area, every program has their points. -/
lemma exists_paths_of_compiles (hscan : Token.scan text = .ok tokens)
    (hparse : Script.parse tokens = .ok script) (ht : t ∈ script.tasks) (hname : t.FollowsArea name)
    (hcompiles : List.Forall₂ (Compiles text) entries outputs) {shares : List (List Waypoint)}
    (hshares : List.Forall₂ (fun (e : String × Waypoints) ws => e.2.get? name = some ws) entries
      shares) :
    ∃ paths : List (List Point),
      List.Forall₂ (fun (o : VehicleOutput) ps => o.output.program.path? t.name = some (.points ps))
        outputs paths ∧
      List.Forall₂ (List.Forall₂ Waypoint.ReadsAs) shares paths := by
  induction hcompiles generalizing shares with
  | nil =>
    cases hshares
    exact ⟨[], .nil, .nil⟩
  | cons hcompile _ ih =>
    cases hshares with
    | cons hget hrest =>
      obtain ⟨paths, hpaths, hpoints⟩ := ih hrest
      obtain ⟨-, -, hcompile⟩ := hcompile
      obtain ⟨ws, ps, hws, hps, hpath⟩ :=
        Compilation.exists_path_of_compile hcompile hscan hparse ht hname
      cases hget.symm.trans hws
      exact ⟨ps :: paths, .cons hpath hpaths, .cons hps hpoints⟩

/-- An area that some vehicle's task follows is one of those entered. -/
lemma exists_area_of_followsArea {plan : Plan} {areas : List Area} {assignment : Assignment}
    (hfollows : Follows plan areas assignment) (hscan : Token.scan text = .ok tokens)
    (hparse : Script.parse tokens = .ok script) (ht : t ∈ script.tasks) (hname : t.FollowsArea name)
    {e : String × Waypoints} (he : e ∈ assignment.entries) {o : VehicleOutput}
    (hcompile : Compiles text e o) : ∃ area ∈ areas, area.name = name := by
  obtain ⟨ws, ps, hws, -, -⟩ :=
    Compilation.exists_path_of_compile hcompile.2.2 hscan hparse ht hname
  have hkey : name ∈ e.2.keys := List.mem_map_of_mem ((e.2.get?_eq_some_iff name ws).1 hws)
  rw [hfollows.names e he] at hkey
  exact List.mem_map.1 hkey

lemma covers_of_follows {plan : Plan} {areas : List Area} {assignment : Assignment} {area : Area}
    (hfollows : Follows plan areas assignment) (hvehicles : plan.vehicles ≠ [])
    (hcompiles : List.Forall₂ (Compiles text) assignment.entries outputs)
    (hscan : Token.scan text = .ok tokens) (hparse : Script.parse tokens = .ok script)
    (ht : t ∈ script.tasks) (hname : t.FollowsArea area.name) (harea : area ∈ areas)
    (hpoints : area.points ≠ []) : Covers outputs t.name area := by
  obtain ⟨shares, hshares, hjoined⟩ := hfollows.exists_paths hvehicles harea hpoints
  obtain ⟨paths, hpaths, hread⟩ := exists_paths_of_compiles hscan hparse ht hname hcompiles hshares
  refine ⟨paths, hpaths, ?_⟩
  rw [← hjoined, List.forall₂_map_right_iff]
  apply (forall₂_stitch hread).flip.imp
  intro p w hw
  exact ⟨hw.longitude, hw.latitude⟩

lemma fliesLevel_of_follows {plan : Plan} {areas : List Area} {assignment : Assignment}
    (hfollows : Follows plan areas assignment) (hscan : Token.scan text = .ok tokens)
    (hparse : Script.parse tokens = .ok script) {e : String × Waypoints}
    (he : e ∈ assignment.entries) {o : VehicleOutput} (hcompile : Compiles text e o) :
    FliesLevel script o := by
  have hvehicle : e.1 ∈ plan.crew.map Prod.fst := by
    rw [map_fst_crew, ← hfollows.vehicles]
    exact List.mem_map_of_mem he
  obtain ⟨c, hc, hsame⟩ := List.mem_map.1 hvehicle
  obtain ⟨-, hwaypoints, hcompile⟩ := hcompile
  refine ⟨c.2, ?_, ?_⟩
  · rw [hwaypoints]
    exact hfollows.altitudes e he c hc hsame
  · intro t ht name hname ps hps p hp
    obtain ⟨ws, ps', hws, hread, hps'⟩ :=
      Compilation.exists_path_of_compile hcompile hscan hparse ht hname
    cases Value.points.inj (Option.some.inj (hps.symm.trans hps'))
    obtain ⟨w, hw, hpoint⟩ := exists_left_of_forall₂ hread hp
    have hentry := (e.2.get?_eq_some_iff name ws).1 hws
    have haltitude := hfollows.altitudes e he c hc hsame _ hentry w hw
    rw [← haltitude]
    exact hpoint.altitude

end Coverage

/-- The programs of a fleet: one for each vehicle, in order. Where a task follows an area, the paths
of the vehicles join to the area's line, and every vehicle keeps to one altitude. -/
structure CoversAreas (script : Script) (areas : List Area) (fleet : List String)
    (outputs : List VehicleOutput) : Prop where
  vehicles : outputs.map VehicleOutput.vehicle = fleet
  distinct : (areas.map Area.name).Nodup
  lines : ∀ t ∈ script.tasks, ∀ name, t.FollowsArea name →
    ∃ area ∈ areas, area.name = name ∧ Covers outputs t.name area
  level : ∀ o ∈ outputs, FliesLevel script o

/-- A fleet compiled against the areas of a document covers them. -/
theorem coversAreas_of_compileAll
    (h : (compileAll path (.document document) s).outcome d = (.ok outputs, d')) :
    ∃ text markup tokens script placemarks, d.read path = .ok text ∧ d.read document = .ok markup ∧
      Token.scan text = .ok tokens ∧ Script.parse tokens = .ok script ∧
      (Placemark.read markup).result = .ok placemarks ∧
      CoversAreas script (Placemark.collect placemarks).areas s.vehicles outputs := by
  obtain ⟨text, markup, placemarks, assignment, hread, hmarkup, hplacemarks, hpartition,
    hcompiles⟩ := exists_assignment_of_compileAll h
  have hwell := Placemark.wellFormed_collect placemarks
  obtain ⟨hvehicles, hfollows⟩ := follows_of_partition hpartition hwell.names hwell.points
  have hfleet : outputs.map VehicleOutput.vehicle = s.vehicles := by
    have hkeys : assignment.entries.map Prod.fst = s.vehicles := hfollows.vehicles
    rw [← hkeys]
    exact map_eq_of_forall₂ (fun e o ho => ho.1) hcompiles
  -- The fleet has a vehicle, and all vehicles compile one text.
  obtain ⟨o, ho⟩ : ∃ o, o ∈ outputs := by
    apply List.exists_mem_of_ne_nil
    rintro rfl
    exact hvehicles hfleet.symm
  obtain ⟨e, he, hcompile⟩ := exists_left_of_forall₂ hcompiles ho
  obtain ⟨tokens, script, mission, hscan, hparse, -⟩ := Compilation.compile_eq_ok_iff.1 hcompile.2.2
  refine ⟨text, markup, tokens, script, placemarks, hread, hmarkup, hscan, hparse, hplacemarks,
    hfleet, hwell.names, ?_, ?_⟩
  · intro t ht name hname
    obtain ⟨area, harea, rfl⟩ :=
      exists_area_of_followsArea hfollows hscan hparse ht hname he hcompile
    exact ⟨area, harea, rfl, covers_of_follows hfollows hvehicles hcompiles hscan hparse ht hname
      harea (hwell.points area harea)⟩
  · intro o ho
    obtain ⟨e, he, hcompile⟩ := exists_left_of_forall₂ hcompiles ho
    exact fliesLevel_of_follows hfollows hscan hparse he hcompile

/-- A mission along an area of three points, and the document with the area. -/
def surveyDisk : Disk where
  entries := [(["work"], .folder),
    (["work", "mission"], .file (.text ("task \x7b detect A \x7b way_points: <North>, " ++
      "gimbal_pitch: 0, drone_rotation: 0, sample_rate: 1, hover_delay: 0, model: m \x7d \x7d " ++
      "mission \x7b start: A \x7d"))),
    (["work", "areas"], .file (.text ("<Placemark><name>North</name><coordinates>" ++
      "1,2 3,4 5,6</coordinates></Placemark>")))]
  here := ["work"]

/-- Two vehicles. -/
def pairSettings : Settings := { vehicles := ["first", "second"] }

/-- The name of the area that a value refers to. -/
def areaName? : Expr → Option String
  | .area name => some name
  | _ => none

lemma exists_followsArea_survey {text : String} {tokens : List Token} {script : Script}
    (hread : surveyDisk.read "mission" = .ok text) (hscan : Token.scan text = .ok tokens)
    (hparse : Script.parse tokens = .ok script) : ∃ t ∈ script.tasks, t.FollowsArea "North" := by
  have hnames : ((surveyDisk.read "mission").toOption.bind fun text =>
      (Token.scan text).toOption.bind fun ts => (Script.parse ts).toOption).map (fun s =>
        s.tasks.map fun t => (t.kind, (t.find? "way_points").bind fun a => areaName? a.value)) =
      some [(.detect, some "North")] := by
    decide +kernel
  simp only [hread, hscan, hparse, Except.toOption, Option.bind_some, Option.map_some,
    Option.some.injEq, List.map_eq_singleton_iff, Prod.mk.injEq, Option.bind_eq_some_iff] at hnames
  obtain ⟨t, htasks, hkind, a, hfind, hname⟩ := hnames
  refine ⟨t, by simp [htasks], .inl hkind, a, TaskDecl.find?_eq_some_iff.1 hfind, ?_⟩
  cases hvalue : a.value with
  | area name =>
    rw [hvalue] at hname
    cases hname
    rfl
  | _ =>
    rw [hvalue] at hname
    cases hname

theorem coversAreas_pair :
    ∃ outputs d', (compileAll "mission" (.document "areas") pairSettings).outcome surveyDisk =
        (.ok outputs, d') ∧
      ∃ text markup tokens script placemarks, surveyDisk.read "mission" = .ok text ∧
        surveyDisk.read "areas" = .ok markup ∧ Token.scan text = .ok tokens ∧
        Script.parse tokens = .ok script ∧ (Placemark.read markup).result = .ok placemarks ∧
        CoversAreas script (Placemark.collect placemarks).areas pairSettings.vehicles outputs ∧
        ∃ t ∈ script.tasks, t.FollowsArea "North" := by
  have hcompiles : ((compileAll "mission" (.document "areas") pairSettings).outcome
      surveyDisk).1.toBool = true := by
    decide +kernel
  rcases h : (compileAll "mission" (.document "areas") pairSettings).outcome surveyDisk with
    ⟨e | outputs, d'⟩
  · rw [h] at hcompiles
    cases hcompiles
  · obtain ⟨text, markup, tokens, script, placemarks, hread, hmarkup, hscan, hparse, hplacemarks,
      hcovers⟩ := coversAreas_of_compileAll h
    exact ⟨outputs, d', rfl, text, markup, tokens, script, placemarks, hread, hmarkup, hscan, hparse,
      hplacemarks, hcovers, exists_followsArea_survey hread hscan hparse⟩

end Sortie.Workspace
