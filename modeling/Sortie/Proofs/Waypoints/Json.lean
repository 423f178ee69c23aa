import Sortie.Proofs.Catalog
import Sortie.Proofs.Json.Text
import Sortie.Waypoints.Json

/-! Waypoint dictionaries survive being written as JSON and read again. -/
namespace Sortie

section Layout

/-- A waypoint as a list of its three coordinates. -/
def Waypoint.tree (w : Waypoint) : Json.Tree :=
  .list [.text w.longitude, .text w.latitude, .text w.altitude]

/-- A dictionary as an object of its areas, each a list of waypoints. -/
def Waypoints.tree (areas : Waypoints) : Json.Tree :=
  .object (areas.entries.map fun e => (e.1, .list (e.2.map Waypoint.tree)))

lemma Waypoint.json_eq_pretty (level : ℕ) (w : Waypoint) : w.json level = w.tree.pretty level := by
  unfold Waypoint.json Waypoint.tree Json.list
  rw [Json.block_eq_spread, Json.Tree.pretty, Json.Tree.prettyItems_eq_map]
  simp only [List.map_cons, List.map_nil, Json.Tree.pretty]

lemma Waypoints.areaJson_eq_pretty (level : ℕ) (ws : List Waypoint) :
    areaJson level ws = (Json.Tree.list (ws.map Waypoint.tree)).pretty level := by
  unfold areaJson Json.list
  rw [Json.block_eq_spread, Json.Tree.pretty, Json.Tree.prettyItems_eq_map, List.map_map]
  simp only [Waypoint.json_eq_pretty]
  rfl

/-- The text of a dictionary is its layout as an object of lists of triples. -/
lemma Waypoints.toList_toJson (areas : Waypoints) : areas.toJson.toList = areas.tree.pretty 0 := by
  unfold toJson json Waypoints.tree Json.object
  rw [String.toList_ofList, Json.block_eq_spread, Json.Tree.pretty, Json.Tree.prettyMembers_eq_map,
    List.map_map, List.map_map]
  simp only [Waypoints.areaJson_eq_pretty]
  rfl

end Layout

namespace Waypoints
open Json

lemma readNext_lead {first : Bool} {level : ℕ} {text : List Char} {s : String}
    (h : Reads readString text s) (rest : List Char) :
    readNext first readString (lead first ++ (indent level ++ (text ++ rest))) = .ok (s, rest) := by
  unfold readNext
  rw [next_lead first level (Or.inl rfl) h]
  exact h.takes rest

lemma readEnd_indent (level : ℕ) (rest : List Char) :
    readEnd ('\n' :: (indent level ++ ']' :: rest)) = .ok rest := by
  unfold readEnd
  rw [skipSpace_indent level rfl]
  rfl

lemma reads_waypoint (level : ℕ) (w : Waypoint) : Reads readWaypoint (w.json level) w where
  opens := ⟨'[', _, rfl, Or.inr (Or.inl rfl)⟩
  takes rest := by
    have htext : w.json level ++ rest = '[' :: (lead true ++ (indent (level + 1) ++
        (quoted w.longitude ++ (lead false ++ (indent (level + 1) ++ (quoted w.latitude ++
          (lead false ++ (indent (level + 1) ++ (quoted w.altitude ++
            ('\n' :: (indent level ++ ']' :: rest))))))))))) := by
      simp [Waypoint.json, Json.list, block, itemLines, lead]
    unfold readWaypoint
    rw [htext, skipSpace_cons rfl]
    simp only [readNext_lead (reads_quoted _), bind, Except.bind, readEnd_indent]
    rfl

lemma reads_area (level : ℕ) (ws : List Waypoint) :
    Reads (readList readWaypoint) (areaJson level ws) ws := by
  apply reads_list
  rw [List.forall₂_map_left_iff, List.forall₂_same]
  intro w _
  exact reads_waypoint (level + 1) w

lemma reads_entries (areas : Waypoints) :
    Reads (readObject (readList readWaypoint)) (json 0 areas) areas.entries := by
  apply reads_object
  rw [List.forall₂_map_left_iff, List.forall₂_same]
  intro e _
  exact reads_member e.1 (reads_area 1 e.2) fun cs => rfl

/-- Every dictionary is read from its own text, with its areas and points in order. -/
lemma ofJson_toJson (areas : Waypoints) : ofJson areas.toJson = .ok areas := by
  unfold ofJson toJson
  rw [readAll_of_reads (reads_entries areas)]
  exact congrArg Except.ok (Catalog.ext_entries (Catalog.entries_ofList areas.nodup))

end Waypoints
end Sortie
