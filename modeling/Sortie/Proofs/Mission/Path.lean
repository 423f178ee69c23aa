import Mathlib.Data.List.Nodup
import Sortie.Proofs.Compilation
import Sortie.Proofs.Mission.Dispatch
import Sortie.Proofs.Mission.Schema

/-! The path of a survey that refers to an area: from the waypoints of the area to the argument in
the program. -/
namespace Sortie

/-- A point whose coordinates are the numbers written in a waypoint. -/
structure Waypoint.ReadsAs (w : Waypoint) (p : Point) : Prop where
  longitude : Decimal.read (Text.trim w.longitude) = some p.longitude
  latitude : Decimal.read (Text.trim w.latitude) = some p.latitude
  altitude : Decimal.read (Text.trim w.altitude) = some p.altitude

lemma Waypoint.readsAs_of_toPoint {w : Waypoint} {p : Point} (h : w.toPoint = .ok p) :
    w.ReadsAs p := by
  unfold toPoint at h
  simp only [Except.bind_eq_ok_iff, Axis.read_eq_ok_iff] at h
  obtain ⟨longitude, hlongitude, latitude, hlatitude, altitude, haltitude, hp⟩ := h
  cases hp
  exact ⟨hlongitude, hlatitude, haltitude⟩

namespace TaskDecl
variable {d : TaskDecl} {a : Attribute} {name : String} {areas : Waypoints} {ps : List Point}

/-- The tasks that follow a path. -/
def IsSurvey (d : TaskDecl) : Prop := d.kind = .detect ∨ d.kind = .avoid

/-- The task follows the area of this name: its first list of waypoints is a reference to it. -/
def FollowsArea (d : TaskDecl) (name : String) : Prop :=
  d.IsSurvey ∧ ∃ a, d.Writes "way_points" a ∧ a.value = .area name

lemma forall₂_of_areaPoints {area : String} {index : ℕ} {ws : List Waypoint}
    (h : areaPoints a area index ws = .ok ps) : List.Forall₂ Waypoint.ReadsAs ws ps := by
  induction ws generalizing index ps with
  | nil =>
    cases h
    exact .nil
  | cons w ws ih =>
    unfold areaPoints at h
    cases hpoint : w.toPoint with
    | error e =>
      rw [hpoint] at h
      cases h
    | ok p =>
      simp only [hpoint, Except.bind_eq_ok_iff] at h
      obtain ⟨qs, hqs, hps⟩ := h
      cases hps
      exact .cons (Waypoint.readsAs_of_toPoint hpoint) (ih hqs)

lemma exists_waypoints_of_area (h : d.area a name areas = .ok ps) :
    ∃ ws, areas.get? name = some ws ∧ ws ≠ [] ∧ List.Forall₂ Waypoint.ReadsAs ws ps := by
  unfold area at h
  split at h
  · cases h
  · cases h
  · rename_i ws hne hws
    exact ⟨ws, hws, fun hnil => hne hnil, forall₂_of_areaPoints h⟩

lemma exists_waypoints_of_path (hwrites : d.Writes "way_points" a)
    (hvalue : a.value = .area name) (h : d.path areas = .ok ps) :
    ∃ ws, areas.get? name = some ws ∧ List.Forall₂ Waypoint.ReadsAs ws ps := by
  obtain ⟨a', ha', h⟩ := Except.bind_eq_ok_iff.1 h
  obtain rfl := hwrites.unique (required_eq_ok_iff.1 ha')
  rw [hvalue] at h
  obtain ⟨ws, hws, -, hpoints⟩ := exists_waypoints_of_area h
  exact ⟨ws, hws, hpoints⟩

lemma path_of_survey {s : Survey} (h : d.survey areas = .ok s) :
    d.path areas = .ok s.waypoints := by
  unfold survey at h
  simp only [Except.bind_eq_ok_iff] at h
  obtain ⟨waypoints, hpath, _, -, _, -, _, -, _, -, _, -, hs⟩ := h
  cases hs
  exact hpath

lemma exists_survey_of_work (hkind : d.IsSurvey) {work : Work} (h : d.work areas = .ok work) :
    ∃ s, d.survey areas = .ok s ∧ work.args.lookup "way_points" = some (.points s.waypoints) := by
  unfold TaskDecl.work at h
  rcases hkind with hkind | hkind
  · simp only [hkind, Except.bind_eq_ok_iff] at h
    obtain ⟨s, hs, hwork⟩ := h
    cases hwork
    exact ⟨s, hs, rfl⟩
  · simp only [hkind, Except.bind_eq_ok_iff] at h
    obtain ⟨s, hs, speed, -, hwork⟩ := h
    cases hwork
    exact ⟨s, hs, rfl⟩

end TaskDecl

lemma Mission.taskOf_work (script : Script) (d : TaskDecl) (work : Work) :
    (taskOf script d work).work = work := by
  unfold taskOf Task.withDefault
  split <;> rfl

/-- The path of a task in a program. -/
def Program.path? (p : Program) (id : String) : Option Value :=
  (p.definition? id).bind fun d => d.arg? "way_points"

/-- In a compiled program, a task that follows an area has the points of its waypoints. -/
lemma Compilation.exists_path_of_compile {source : String} {areas : Waypoints} {output : Output}
    {tokens : List Token} {script : Script} (h : (compile source areas).result = .ok output)
    (hscan : Token.scan source = .ok tokens) (hparse : Script.parse tokens = .ok script)
    {d : TaskDecl} (hd : d ∈ script.tasks) {name : String} (hname : d.FollowsArea name) :
    ∃ ws ps, areas.get? name = some ws ∧ List.Forall₂ Waypoint.ReadsAs ws ps ∧
      output.program.path? d.name = some (.points ps) := by
  obtain ⟨tokens', script', mission, hscan', hparse', hmission, rfl⟩ := compile_eq_ok_iff.1 h
  cases hscan.symm.trans hscan'
  cases hparse.symm.trans hparse'
  have his := Mission.isOf_of_ofScript hmission
  obtain ⟨d', hd', hsame, work, hwork, hget⟩ := his.get?_of_mem (List.mem_map_of_mem hd)
  have hnames : (script.tasks.map TaskDecl.name).Nodup := his.keys_eq ▸ mission.tasks.nodup
  cases List.inj_on_of_nodup_map hnames hd' hd hsame
  obtain ⟨hkind, a, hwrites, hvalue⟩ := hname
  obtain ⟨s, hsurvey, hlookup⟩ := TaskDecl.exists_survey_of_work hkind hwork
  obtain ⟨ws, hws, hpoints⟩ :=
    TaskDecl.exists_waypoints_of_path hwrites hvalue (TaskDecl.path_of_survey hsurvey)
  refine ⟨ws, s.waypoints, hws, hpoints, ?_⟩
  unfold Program.path?
  change ((Program.ofMission mission).definition? d.name).bind _ = _
  rw [Program.definition?_ofMission (fun e he => his.id_eq he), hget]
  change (Mission.taskOf script d work).work.args.lookup "way_points" = _
  rw [Mission.taskOf_work, hlookup]

end Sortie
