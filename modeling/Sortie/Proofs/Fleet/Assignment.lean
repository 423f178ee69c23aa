import Mathlib.Data.List.Nodup
import Sortie.Fleet.Assignment
import Sortie.Proofs.Catalog
import Sortie.Proofs.Fleet.Slice

/-! The share of every vehicle in every area. The areas that a document yields are entered one after
the other, and each vehicle keeps its altitude over all of them. -/
namespace Sortie

section Vehicles
open Fleet

lemma Fleet.duplicateAfter_eq_none_iff {seen ids : List String} :
    duplicateAfter seen ids = none ↔ ids.Nodup ∧ ∀ id ∈ ids, id ∉ seen := by
  induction ids generalizing seen with
  | nil => simp [duplicateAfter]
  | cons id ids ih =>
    unfold duplicateAfter
    by_cases h : id ∈ seen
    · simp [h]
    · rw [if_neg (by simpa using h), ih, List.nodup_cons, List.forall_mem_cons]
      simp only [List.mem_append, List.mem_singleton, not_or]
      constructor
      · rintro ⟨hnodup, hseen⟩
        exact ⟨⟨fun hmem => (hseen id hmem).2 rfl, hnodup⟩, h, fun x hx => (hseen x hx).1⟩
      · rintro ⟨⟨hid, hnodup⟩, -, hseen⟩
        refine ⟨hnodup, fun x hx => ⟨hseen x hx, ?_⟩⟩
        rintro rfl
        exact hid hx

lemma Fleet.firstDuplicate_eq_none_iff {ids : List String} :
    firstDuplicate ids = none ↔ ids.Nodup := by
  unfold firstDuplicate
  rw [duplicateAfter_eq_none_iff]
  simp

end Vehicles

namespace Survey.Findings

/-- A placemark adds nothing, or an area with a new name and a point. -/
lemma areas_take_cases (f : Findings) (index : ℕ) (p : Placemark) :
    (f.take index p).areas = f.areas ∨ ∃ area : Area, area.name ∉ f.areas.map Area.name ∧
      area.points ≠ [] ∧ (f.take index p).areas = f.areas ++ [area] := by
  unfold Findings.take
  split
  · exact .inl rfl
  · rename_i name hname
    split_ifs with htakeoff hknown
    · exact .inl rfl
    · exact .inl rfl
    · rcases hpoints : Area.pairs (p.coordinates.getD "") with - | ⟨q, qs⟩
      · exact .inl (by simp [hpoints])
      · refine .inr ⟨⟨name, q :: qs⟩, ?_, List.cons_ne_nil q qs, by simp [hpoints]⟩
        simpa using hknown

/-- Areas with distinct names, each with a point. -/
structure WellFormed (f : Findings) : Prop where
  names : (f.areas.map Area.name).Nodup
  points : ∀ a ∈ f.areas, a.points ≠ []

lemma WellFormed.take {f : Findings} (h : f.WellFormed) (index : ℕ) (p : Placemark) :
    (f.take index p).WellFormed := by
  rcases f.areas_take_cases index p with hareas | ⟨area, hnew, hpoints, hareas⟩
  · constructor
    · rw [hareas]
      exact h.names
    · rw [hareas]
      exact h.points
  · constructor
    · rw [hareas, List.map_append, List.map_singleton, ← List.concat_eq_append]
      exact List.Nodup.concat hnew h.names
    · rw [hareas, List.forall_mem_append, List.forall_mem_singleton]
      exact ⟨h.points, hpoints⟩

lemma WellFormed.takeAll {f : Findings} (h : f.WellFormed) (index : ℕ) (ps : List Placemark) :
    (f.takeAll index ps).WellFormed := by
  induction ps generalizing f index with
  | nil => exact h
  | cons p ps ih => exact ih (h.take index p) (index + 1)

end Survey.Findings

/-- The areas of a list of placemarks have distinct names and points. -/
lemma Placemark.wellFormed_collect (ps : List Placemark) : (collect ps).WellFormed := by
  have hinitial : Survey.Findings.initial.WellFormed :=
    ⟨List.nodup_nil, by simp [Survey.Findings.initial]⟩
  exact hinitial.takeAll 0 ps

namespace Fleet

/-- The vehicles from an altitude on, each with the text of its own. -/
def crewFrom (step altitude : Float) : List String → List (String × String)
  | [] => []
  | v :: vs =>
    (v, Decimal.Layout.plain.write (altitude + step)) :: crewFrom step (altitude + step) vs

/-- The vehicles of a plan with their altitudes. -/
def Plan.crew (plan : Plan) : List (String × String) :=
  crewFrom plan.step plan.base plan.vehicles

lemma map_fst_crewFrom (step altitude : Float) (vs : List String) :
    (crewFrom step altitude vs).map Prod.fst = vs := by
  induction vs generalizing altitude with
  | nil => rfl
  | cons v vs ih => rw [crewFrom, List.map_cons, ih]

lemma sharesFrom_eq (step altitude : Float) (vs : List String) (ss : List Slice) :
    sharesFrom step altitude vs ss =
      ((crewFrom step altitude vs).zip ss).map fun p => ⟨p.1.1, p.2, p.1.2⟩ := by
  induction vs generalizing altitude ss with
  | nil => rfl
  | cons v vs ih =>
    cases ss with
    | nil => rfl
    | cons s ss => rw [sharesFrom, ih, crewFrom, List.zip_cons_cons, List.map_cons]

variable {plan : Plan} {areas : List Area} {area : Area} {points : ℕ}

lemma shares_eq (plan : Plan) (points : ℕ) :
    shares plan points =
      (plan.crew.zip (slices points plan.vehicles.length)).map fun p => ⟨p.1.1, p.2, p.1.2⟩ :=
  sharesFrom_eq _ _ _ _

lemma map_fst_crew (plan : Plan) : plan.crew.map Prod.fst = plan.vehicles := map_fst_crewFrom _ _ _

lemma length_crew (plan : Plan) : plan.crew.length = plan.vehicles.length := by
  rw [← map_fst_crew, List.length_map]

/-- A vehicle flies at its own altitude in all areas. -/
lemma mem_crew_of_mem_shares {s : Share} (hs : s ∈ shares plan points) :
    (s.vehicle, s.altitude) ∈ plan.crew := by
  rw [shares_eq] at hs
  obtain ⟨⟨c, slice⟩, hmem, rfl⟩ := List.mem_map.1 hs
  exact (List.of_mem_zip hmem).1

lemma map_vehicle_shares (plan : Plan) (hp : 0 < points) :
    (shares plan points).map Share.vehicle = plan.vehicles := by
  have hlength : plan.crew.length ≤ (slices points plan.vehicles.length).length := by
    rw [length_crew, length_slices hp]
  calc (shares plan points).map Share.vehicle
      = ((plan.crew.zip (slices points plan.vehicles.length)).map Prod.fst).map Prod.fst := by
        rw [shares_eq, List.map_map, List.map_map]
        rfl
    _ = plan.vehicles := by rw [List.map_fst_zip hlength, map_fst_crew]

lemma map_slice_shares (plan : Plan) (hp : 0 < points) :
    (shares plan points).map Share.slice = slices points plan.vehicles.length := by
  have hlength : (slices points plan.vehicles.length).length ≤ plan.crew.length := by
    rw [length_crew, length_slices hp]
  rw [shares_eq, List.map_map]
  exact List.map_snd_zip hlength

/-- An assignment in which every vehicle has its share of the areas entered so far. -/
structure Follows (plan : Plan) (areas : List Area) (a : Assignment) : Prop where
  vehicles : a.keys = plan.vehicles
  names : ∀ e ∈ a.entries, e.2.keys = areas.map Area.name
  paths : ∀ e ∈ a.entries, ∀ area ∈ areas, ∀ s ∈ shares plan area.points.length,
    s.vehicle = e.1 → e.2.get? area.name = some (s.waypoints area.points)
  altitudes : ∀ e ∈ a.entries, ∀ c ∈ plan.crew, c.1 = e.1 → ∀ x ∈ e.2.entries, ∀ w ∈ x.2,
    w.altitude = c.2

/-- Entering an area changes the dictionary of every vehicle by its share. -/
lemma exists_share_of_assignArea {a : Assignment} (hkeys : a.keys = plan.vehicles)
    (hvehicles : plan.vehicles.Nodup) (hpoints : area.points ≠ []) {e : String × Waypoints}
    (he : e ∈ (assignArea plan a area).entries) :
    ∃ s ∈ shares plan area.points.length, s.vehicle = e.1 ∧ ∃ d, (e.1, d) ∈ a.entries ∧
      e.2 = d.insert area.name (s.waypoints area.points) := by
  have hshares := map_vehicle_shares plan (List.length_pos_of_ne_nil hpoints)
  have hkey : e.1 ∈ (shares plan area.points.length).map Share.vehicle := by
    rw [hshares, ← hkeys]
    have hkeys' : (assignArea plan a area).keys = a.keys := Catalog.keys_foldl_modify _ _
    rw [← hkeys']
    exact List.mem_map_of_mem he
  obtain ⟨s, hs, hvehicle⟩ := List.mem_map.1 hkey
  have hget := ((assignArea plan a area).get?_eq_some_iff e.1 e.2).2 he
  unfold assignArea at hget
  rw [← hvehicle, Catalog.get?_foldl_modify (hshares ▸ hvehicles) hs, Option.map_eq_some_iff]
    at hget
  obtain ⟨d, hd, hinsert⟩ := hget
  exact ⟨s, hs, hvehicle, d, hvehicle ▸ (a.get?_eq_some_iff _ _).1 hd, hinsert.symm⟩

/-- What one area adds keeps the assignment in step with the plan. -/
lemma Follows.assignArea {a : Assignment} (h : Follows plan areas a)
    (hvehicles : plan.vehicles.Nodup) (hnew : area.name ∉ areas.map Area.name)
    (hpoints : area.points ≠ []) :
    Follows plan (areas ++ [area]) (assignArea plan a area) := by
  have hentry := fun e (he : e ∈ (Fleet.assignArea plan a area).entries) =>
    exists_share_of_assignArea h.vehicles hvehicles hpoints he
  have hshares := map_vehicle_shares plan (List.length_pos_of_ne_nil hpoints)
  constructor
  · rw [← h.vehicles]
    exact Catalog.keys_foldl_modify _ _
  · intro e he
    obtain ⟨s, -, -, d, hd, hinsert⟩ := hentry e he
    have hkeys := h.names _ hd
    rw [hinsert, Catalog.keys, Catalog.entries_insert_of_new _ _ (hkeys ▸ hnew), List.map_append,
      List.map_append, ← hkeys]
    rfl
  · intro e he area' harea' s' hs' hvehicle'
    obtain ⟨s, hs, hvehicle, d, hd, hinsert⟩ := hentry e he
    rw [hinsert, Catalog.get?_insert]
    rcases List.mem_append.1 harea' with harea' | harea'
    · have hne : area'.name ≠ area.name := by
        intro heq
        exact hnew (heq ▸ List.mem_map_of_mem harea')
      rw [if_neg hne]
      exact h.paths _ hd area' harea' s' hs' hvehicle'
    · cases List.mem_singleton.1 harea'
      have hsame : s' = s := List.inj_on_of_nodup_map (hshares ▸ hvehicles) hs' hs
        (hvehicle'.trans hvehicle.symm)
      rw [if_pos rfl, hsame]
  · intro e he c hc hvehicle' x hx w hw
    obtain ⟨s, hs, hvehicle, d, hd, hinsert⟩ := hentry e he
    have hkeys := h.names _ hd
    rw [hinsert, Catalog.entries_insert_of_new _ _ (hkeys ▸ hnew)] at hx
    rcases List.mem_append.1 hx with hx | hx
    · exact h.altitudes _ hd c hc hvehicle' x hx w hw
    · cases List.mem_singleton.1 hx
      obtain ⟨p, -, rfl⟩ := List.mem_map.1 hw
      have hcrew : (plan.crew.map Prod.fst).Nodup := map_fst_crew plan ▸ hvehicles
      have hsame : c = (s.vehicle, s.altitude) := List.inj_on_of_nodup_map hcrew hc
        (mem_crew_of_mem_shares hs) (hvehicle'.trans hvehicle.symm)
      rw [hsame]

lemma Follows.foldl {a : Assignment} {entered : List Area} (h : Follows plan entered a)
    (hvehicles : plan.vehicles.Nodup) (hnames : ((entered ++ areas).map Area.name).Nodup)
    (hpoints : ∀ area ∈ areas, area.points ≠ []) :
    Follows plan (entered ++ areas) (areas.foldl (Fleet.assignArea plan) a) := by
  induction areas generalizing entered a with
  | nil => simpa using h
  | cons area areas ih =>
    rw [List.forall_mem_cons] at hpoints
    have hnew : area.name ∉ entered.map Area.name := by
      rw [List.map_append, List.map_cons, List.nodup_append] at hnames
      intro hmem
      exact hnames.2.2 _ hmem _ List.mem_cons_self rfl
    have hnext := ih (h.assignArea hvehicles hnew hpoints.1)
    simp only [List.append_assoc, List.singleton_append] at hnext
    exact hnext hnames hpoints.2

lemma follows_initial (hvehicles : plan.vehicles.Nodup) :
    Follows plan [] (Catalog.ofList (plan.vehicles.map fun v => (v, Catalog.empty))) := by
  have hkeys : (plan.vehicles.map fun v => (v, (Catalog.empty : Waypoints))).map Prod.fst =
      plan.vehicles := by
    rw [List.map_map]
    exact List.map_id _
  have hentries := Catalog.entries_ofList (hkeys ▸ hvehicles)
  constructor
  · rw [Catalog.keys, hentries, hkeys]
  · intro e he
    rw [hentries] at he
    obtain ⟨v, -, rfl⟩ := List.mem_map.1 he
    rfl
  · simp
  · intro e he c _ _ x hx
    rw [hentries] at he
    obtain ⟨v, -, rfl⟩ := List.mem_map.1 he
    cases hx

/-- An accepted partition gives every vehicle of the plan its share of every area. -/
lemma follows_of_partition {assignment : Assignment}
    (h : (partition areas plan).result = .ok assignment) (hnames : (areas.map Area.name).Nodup)
    (hpoints : ∀ area ∈ areas, area.points ≠ []) :
    plan.vehicles ≠ [] ∧ Follows plan areas assignment := by
  unfold partition at h
  cases hduplicate : firstDuplicate plan.vehicles with
  | some id =>
    rw [hduplicate] at h
    split_ifs at h <;> cases h
  | none =>
    have hvehicles := firstDuplicate_eq_none_iff.1 hduplicate
    rw [hduplicate] at h
    split_ifs at h with hempty hareas
    · cases h
    · cases h
    · cases h
      refine ⟨by simpa using hempty, ?_⟩
      exact (follows_initial hvehicles).foldl hvehicles hnames hpoints

lemma forall₂_of_map_eq {α β γ : Type} {f : α → γ} {g : β → γ} {R : α → β → Prop} {l : List α}
    {m : List β} (h : l.map f = m.map g) (hR : ∀ x ∈ l, ∀ y ∈ m, g y = f x → R x y) :
    List.Forall₂ R l m := by
  induction l generalizing m with
  | nil =>
    cases m with
    | nil => exact .nil
    | cons y m => cases h
  | cons x l ih =>
    cases m with
    | nil => cases h
    | cons y m =>
      rw [List.map_cons, List.map_cons, List.cons_eq_cons] at h
      apply List.Forall₂.cons
      · exact hR x List.mem_cons_self y List.mem_cons_self h.1.symm
      · exact ih h.2 fun x hx y hy => hR x (List.mem_cons_of_mem _ hx) y (List.mem_cons_of_mem _ hy)

/-- The shares of the vehicles in an area, joined, are the points of the area. -/
lemma Follows.exists_paths {a : Assignment} (h : Follows plan areas a)
    (hvehicles : plan.vehicles ≠ []) (harea : area ∈ areas) (hpoints : area.points ≠ []) :
    ∃ paths : List (List Waypoint),
      List.Forall₂ (fun (e : String × Waypoints) ws => e.2.get? area.name = some ws) a.entries
          paths ∧
        (stitch paths).map (fun w => (w.longitude, w.latitude)) = area.points := by
  have hp := List.length_pos_of_ne_nil hpoints
  refine ⟨(shares plan area.points.length).map fun s => s.waypoints area.points, ?_, ?_⟩
  · rw [List.forall₂_map_right_iff]
    apply forall₂_of_map_eq (h.vehicles.trans (map_vehicle_shares plan hp).symm)
    intro e he s hs hvehicle
    exact h.paths e he area harea s hs hvehicle
  · rw [← stitch_map, List.map_map]
    have hpairs : ∀ s : Share, (s.waypoints area.points).map (fun w => (w.longitude, w.latitude)) =
        s.slice.take area.points := by
      intro s
      unfold Share.waypoints
      rw [List.map_map]
      exact List.map_id _
    calc stitch ((shares plan area.points.length).map _)
        = stitch (((shares plan area.points.length).map Share.slice).map fun s =>
            s.take area.points) := by
          rw [List.map_map]
          exact congrArg stitch (List.map_congr_left fun s _ => hpairs s)
      _ = area.points := by
          rw [map_slice_shares plan hp]
          exact stitch_slices hpoints (List.length_pos_of_ne_nil hvehicles)

end Fleet

end Sortie
