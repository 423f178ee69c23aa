import Sortie.Proofs.Mission.Path

/-! What a mission takes from the dictionary of areas. Only the areas that tasks follow are looked
up: dictionaries that agree on these give the same mission or the same fault. -/
namespace Sortie

lemma Except.bind_congr_of_ok {ε α β : Type} {x : Except ε α} {f g : α → Except ε β}
    (h : ∀ a, x = .ok a → f a = g a) : (x >>= f) = x >>= g := by
  cases x with
  | error e => rfl
  | ok a => exact h a rfl

lemma Traced.ofExcept_bind_congr {ε α β : Type} {r : Except ε α} {f g : α → Traced ε β}
    (h : ∀ a, r = .ok a → f a = g a) : (ofExcept r >>= f) = ofExcept r >>= g := by
  cases r with
  | error e => rfl
  | ok a =>
    have hbind : ∀ k : α → Traced ε β, (ofExcept (.ok a) >>= k) = k a := fun _ => rfl
    rw [hbind, hbind, h a rfl]

lemma foldlM_congr_of_mem {m : Type → Type} [Monad m] {α β : Type} {f g : β → α → m β}
    {xs : List α} (h : ∀ x ∈ xs, ∀ b, f b x = g b x) (b : β) : xs.foldlM f b = xs.foldlM g b := by
  induction xs generalizing b with
  | nil => rfl
  | cons x xs ih =>
    rw [List.forall_mem_cons] at h
    rw [List.foldlM_cons, List.foldlM_cons, h.1 b]
    congr 1
    funext b'
    exact ih h.2 b'

/-- Some task of the script follows the area of this name. -/
def Script.FollowsArea (s : Script) (name : String) : Prop := ∃ d ∈ s.tasks, d.FollowsArea name

namespace TaskDecl
variable {d : TaskDecl} {areas areas' : Waypoints}

section Agreement
variable (h : ∀ name, d.FollowsArea name → areas.get? name = areas'.get? name)
include h

/-- The path of a survey comes from the dictionary only where it is a reference. -/
lemma path_congr (hkind : d.IsSurvey) : d.path areas = d.path areas' := by
  apply Except.bind_congr_of_ok
  intro a ha
  cases hvalue : a.value with
  | area name =>
    have hagree := h name ⟨hkind, a, required_eq_ok_iff.1 ha, hvalue⟩
    change d.area a name areas = d.area a name areas'
    unfold area
    rw [hagree]
  | number | integer | name | text | tuples | triple => rfl

lemma survey_congr (hkind : d.IsSurvey) : d.survey areas = d.survey areas' := by
  unfold survey
  rw [path_congr h hkind]

lemma work_congr : d.work areas = d.work areas' := by
  unfold work
  cases hkind : d.kind with
  | detect => rw [survey_congr h (.inl hkind)]
  | avoid => rw [survey_congr h (.inr hkind)]
  | track => rfl
  | test => rfl

lemma resolve_congr : d.resolve areas = d.resolve areas' := by
  unfold resolve
  rw [work_congr h]

lemma declare_congr (tasks : Catalog Task) :
    Mission.declare areas tasks d = Mission.declare areas' tasks d := by
  unfold Mission.declare
  rw [resolve_congr h]

end Agreement

end TaskDecl

namespace Mission
variable {script : Script} {areas areas' : Waypoints}

lemma ofScript_congr
    (h : ∀ name, script.FollowsArea name → areas.get? name = areas'.get? name) :
    ofScript script areas = ofScript script areas' := by
  unfold ofScript
  rw [foldlM_congr_of_mem fun d hd tasks =>
    TaskDecl.declare_congr (fun name hname => h name ⟨d, hd, hname⟩) tasks]

/-- A script is accepted only with a dictionary that has the areas that its tasks follow. -/
lemma exists_waypoints_of_ofScript {mission : Mission}
    (h : (ofScript script areas).result = .ok mission) {name : String}
    (hname : script.FollowsArea name) : ∃ ws, areas.get? name = some ws := by
  obtain ⟨d, hd, hkind, a, hwrites, hvalue⟩ := hname
  obtain ⟨e, -, work, hwork, -⟩ := exists_left_of_forall₂ (isOf_of_ofScript h).tasks.flip hd
  obtain ⟨s, hsurvey, -⟩ := TaskDecl.exists_survey_of_work hkind hwork
  obtain ⟨ws, hws, -⟩ :=
    TaskDecl.exists_waypoints_of_path hwrites hvalue (TaskDecl.path_of_survey hsurvey)
  exact ⟨ws, hws⟩

end Mission

namespace Compilation
variable {source : String} {areas areas' : Waypoints}

lemma compile_congr {tokens : List Token} {script : Script} (hscan : Token.scan source = .ok tokens)
    (hparse : Script.parse tokens = .ok script)
    (h : ∀ name, script.FollowsArea name → areas.get? name = areas'.get? name) :
    compile source areas = compile source areas' := by
  have hcheck : check source areas = check source areas' := by
    apply Traced.ofExcept_bind_congr
    intro tokens' hscan'
    cases (Except.mapError_eq_ok_iff.1 hscan').symm.trans hscan
    apply Traced.ofExcept_bind_congr
    intro script' hparse'
    cases (Except.mapError_eq_ok_iff.1 hparse').symm.trans hparse
    rw [Mission.ofScript_congr h]
  unfold compile
  rw [hcheck]

end Compilation

/-- Only the areas that tasks follow matter. Dictionaries that agree on them give the same mission
or the same fault, with the same reports; a script that follows no area compiles to the same program
with every dictionary. Each area that is followed does matter: without it, the script is refused. -/
theorem Mission.ofScript_relies_on_followed (script : Script) :
    (∀ areas areas' : Waypoints,
      (∀ name, script.FollowsArea name → areas.get? name = areas'.get? name) →
      ofScript script areas = ofScript script areas') ∧
    ((∀ name, ¬ script.FollowsArea name) →
      ∀ source tokens, Token.scan source = .ok tokens → Script.parse tokens = .ok script →
        ∀ areas areas', Compilation.compile source areas = Compilation.compile source areas') ∧
    ∀ (areas : Waypoints) (name : String), script.FollowsArea name → areas.get? name = none →
      ∃ fault, (ofScript script areas).result = .error fault := by
  refine ⟨fun areas areas' => ofScript_congr, ?_, ?_⟩
  · intro hinline source tokens hscan hparse areas areas'
    apply Compilation.compile_congr hscan hparse
    intro name hname
    exact absurd hname (hinline name)
  · intro areas name hname hmissing
    cases hresult : (ofScript script areas).result with
    | error fault => exact ⟨fault, rfl⟩
    | ok mission =>
      obtain ⟨ws, hws⟩ := exists_waypoints_of_ofScript hresult hname
      rw [hmissing] at hws
      cases hws

/-- A survey with an inline path and a second one that is ignored, a tracking task with a key that
it does not know, and a task that follows an area. -/
def Script.mixed : Script where
  tasks :=
    [⟨.detect, "A", [⟨"way_points", .triple 1 2 3, ⟨1, 1⟩⟩, ⟨"way_points", .area "north", ⟨2, 1⟩⟩],
      ⟨1, 8⟩⟩,
    ⟨.track, "B", [⟨"way_points", .area "south", ⟨3, 1⟩⟩], ⟨1, 19⟩⟩,
    ⟨.avoid, "C", [⟨"way_points", .area "east", ⟨4, 1⟩⟩], ⟨1, 30⟩⟩]
  start := "A"
  startPosition := ⟨2, 18⟩
  transitions := []

lemma Script.followsArea_mixed_iff {name : String} : mixed.FollowsArea name ↔ name = "east" := by
  constructor
  · rintro ⟨d, hd, hkind, a, hwrites, hvalue⟩
    have hfind := TaskDecl.find?_eq_some_iff.2 hwrites
    simp only [mixed, List.mem_cons, List.not_mem_nil, or_false] at hd
    rcases hd with rfl | rfl | rfl
    · cases hfind
      cases hvalue
    · simp [TaskDecl.IsSurvey] at hkind
    · cases hfind
      cases hvalue
      rfl
  · rintro rfl
    have hlast : mixed.tasks.getLast? = some ⟨.avoid, "C", [⟨"way_points", .area "east", ⟨4, 1⟩⟩],
      ⟨1, 30⟩⟩ := rfl
    exact ⟨_, List.mem_of_getLast? hlast, .inr rfl, _, TaskDecl.find?_eq_some_iff.1 rfl, rfl⟩

def inlineSource : String :=
  "task \x7b detect A \x7b way_points: [(1, 2, 3)] way_points: <north> \x7d " ++
  "test B \x7b way_points: <south> \x7d \x7d mission \x7b start: B \x7d"

lemma exists_script_inlineSource :
    ∃ tokens script, Token.scan inlineSource = .ok tokens ∧ Script.parse tokens = .ok script ∧
      ∀ name, ¬ script.FollowsArea name := by
  have hpaths : ((Token.scan inlineSource).toOption.bind fun ts => (Script.parse ts).toOption).map
      (fun s => s.tasks.map fun d => (d.kind, (d.find? "way_points").map fun a => a.value.describe)) =
      some [(.detect, some "a tuple list"), (.test, some "a waypoint reference")] := by
    decide +kernel
  cases hscan : Token.scan inlineSource with
  | error e => rw [hscan] at hpaths; cases hpaths
  | ok tokens =>
    rw [hscan] at hpaths
    change (Script.parse tokens).toOption.map _ = _ at hpaths
    cases hparse : Script.parse tokens with
    | error e => rw [hparse] at hpaths; cases hpaths
    | ok script =>
      rw [hparse] at hpaths
      have hpaths := Option.some.inj hpaths
      refine ⟨tokens, script, rfl, hparse, ?_⟩
      rintro name ⟨d, hd, hkind, a, hwrites, hvalue⟩
      have hmem : (d.kind, some "a waypoint reference") ∈
          [(TaskKind.detect, some "a tuple list"), (.test, some "a waypoint reference")] := by
        rw [← hpaths]
        refine List.mem_map.2 ⟨d, hd, ?_⟩
        rw [TaskDecl.find?_eq_some_iff.2 hwrites, Option.map_some, hvalue]
        rfl
      have htest : d.kind = .test := by simpa using hmem
      rw [TaskDecl.IsSurvey, htest] at hkind
      simp at hkind

def Waypoints.east : Waypoints := .ofList [("east", [⟨"1", "2", "3"⟩])]

def Waypoints.northEast : Waypoints := .ofList [("north", []), ("east", [⟨"1", "2", "3"⟩])]

theorem Mission.ofScript_relies_on_followed_mixed :
    (∀ name, Script.mixed.FollowsArea name →
      Waypoints.east.get? name = Waypoints.northEast.get? name) ∧
    ofScript Script.mixed Waypoints.east = ofScript Script.mixed Waypoints.northEast ∧
    (∃ fault, (ofScript Script.mixed .empty).result = .error fault) ∧
    ∃ tokens script, Token.scan inlineSource = .ok tokens ∧ Script.parse tokens = .ok script ∧
      Compilation.compile inlineSource .empty =
        Compilation.compile inlineSource Waypoints.northEast := by
  have hagree : ∀ name, Script.mixed.FollowsArea name →
      Waypoints.east.get? name = Waypoints.northEast.get? name := by
    intro name hname
    rw [Script.followsArea_mixed_iff.1 hname]
    decide
  obtain ⟨hsame, -, hmissing⟩ := ofScript_relies_on_followed Script.mixed
  obtain ⟨tokens, script, hscan, hparse, hinline⟩ := exists_script_inlineSource
  refine ⟨hagree, hsame _ _ hagree, ?_, tokens, script, hscan, hparse, ?_⟩
  · exact hmissing _ _ (Script.followsArea_mixed_iff.2 rfl) rfl
  · exact (ofScript_relies_on_followed script).2.1 hinline _ _ hscan hparse _ _

end Sortie
