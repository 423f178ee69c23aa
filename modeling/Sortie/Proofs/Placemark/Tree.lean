import Mathlib.Tactic.MkIffOfInductiveProp
import Sortie.Placemark.Area
import Sortie.Proofs.Markup.Document

/-! Placemarks of a document tree. Reading the events of a tree finds one placemark for each
placemark element, with the texts of the names right beneath it and of all coordinates beneath it. -/
namespace Sortie.Placemark
open Markup (Node localName)

/-! The placemarks that a tree describes. -/

/-- The text of a node: literal text as it stands, other text with its references resolved. -/
def content? : Node → Option (Except DocumentFault String)
  | .text raw => some (((Markup.resolve raw.toList).map String.ofList).mapError .reference)
  | .literal raw => some (.ok raw)
  | _ => none

/-- The pieces of text right beneath a node. -/
def pieces (n : Node) : List (Except DocumentFault String) := n.children.filterMap content?

/-- The text of a piece, if its references can be resolved. -/
def textOf (x : Except DocumentFault String) : String := x.toOption.getD ""

def faultOf? (x : Except DocumentFault String) : Option DocumentFault :=
  match x with
  | .error e => some e
  | .ok _ => none

/-- Trimmed texts with single blanks between them; nothing where there is no text. -/
def joined : List String → Option String
  | [] => none
  | t :: ts => some (" ".intercalate ((t :: ts).map Text.trim))

/-- The name elements right beneath a node. -/
def nameNodes (n : Node) : List Node := n.children.filter (Node.isNamed "name")

/-- The coordinates elements anywhere beneath a node. -/
def coordinateNodes (n : Node) : List Node :=
  (Node.nodesAll n.children).filter (Node.isNamed "coordinates")

/-- The placemark that an element describes. -/
def ofNode (n : Node) : Placemark :=
  ⟨joined ((nameNodes n).flatMap fun m => (pieces m).map textOf),
    joined ((coordinateNodes n).flatMap fun m => (pieces m).map textOf)⟩

def placemarkNodes (ns : List Node) : List Node :=
  (Node.nodesAll ns).filter (Node.isNamed "Placemark")

/-- The texts of the coordinates at or beneath a node. -/
def coordinateFields (n : Node) : List (Field × Except DocumentFault String) :=
  (n.nodes.filter (Node.isNamed "coordinates")).flatMap fun m =>
    (pieces m).map (Field.coordinates, ·)

/-- The texts of a child of a placemark: a name has its own. -/
def childFields (n : Node) : List (Field × Except DocumentFault String) :=
  if n.isNamed "name" then (pieces n).map (Field.name, ·) else coordinateFields n

/-- The texts that go to a field of a placemark, in document order. -/
def fields (n : Node) : List (Field × Except DocumentFault String) := n.children.flatMap childFields

/-- The first fault in a text that goes to a field. -/
def firstFault? (ns : List Node) : Option DocumentFault :=
  ((placemarkNodes ns).flatMap fields).findSome? fun x => faultOf? x.2

/-- No placemark within another, none closed by its own tag, and no elements within a name or within
coordinates. -/
@[mk_iff]
structure Regular (ns : List Node) : Prop where
  apart : ∀ n ∈ Node.nodesAll ns, n.isNamed "Placemark" →
    ∀ m ∈ Node.nodesAll n.children, ¬ m.isNamed "Placemark"
  paired : ∀ n ∈ Node.nodesAll ns, n.isNamed "Placemark" → n.isPaired
  flat : ∀ n ∈ Node.nodesAll ns, n.isNamed "name" ∨ n.isNamed "coordinates" →
    ∀ m ∈ n.children, m.name? = none

instance (ns : List Node) : Decidable (Regular ns) := decidable_of_iff' _ (regular_iff ns)

namespace Regular
variable {ns ms : List Node} {n c : Node}

lemma of_subset (h : Regular ns) (hsub : Node.nodesAll ms ⊆ Node.nodesAll ns) : Regular ms where
  apart n hn := h.apart n (hsub hn)
  paired n hn := h.paired n (hsub hn)
  flat n hn := h.flat n (hsub hn)

lemma of_mem_nodesAll (h : Regular ns) (hn : n ∈ Node.nodesAll ns) : Regular [n] := by
  apply h.of_subset
  rw [Node.nodesAll_eq] at hn
  obtain ⟨c, hc, hn⟩ := List.mem_flatMap.1 hn
  rw [Node.nodesAll_singleton]
  exact List.Subset.trans (Node.nodes_subset_of_mem_nodes hn) (Node.nodes_subset hc)

lemma of_mem (h : Regular ns) (hn : n ∈ ns) : Regular [n] :=
  h.of_mem_nodesAll (Node.nodes_subset hn n.mem_nodes_self)

lemma children (h : Regular [n]) : Regular n.children := by
  apply h.of_subset
  rw [Node.nodesAll_singleton]
  exact n.nodesAll_children_subset

/-- The contents of a name or of coordinates. -/
lemma flat_self (h : Regular [n]) (hn : n.isNamed "name" ∨ n.isNamed "coordinates") :
    ∀ m ∈ n.children, m.name? = none :=
  h.flat n (by rw [Node.nodesAll_singleton]; exact n.mem_nodes_self) hn

lemma apart_self (h : Regular [n]) (hn : n.isNamed "Placemark") :
    ∀ m ∈ Node.nodesAll n.children, ¬ m.isNamed "Placemark" :=
  h.apart n (by rw [Node.nodesAll_singleton]; exact n.mem_nodes_self) hn

end Regular

/-! What one event does. -/

namespace Progress
variable {tag : String} {depth d : ℕ} {p : Placemark} {field : Option Field} {found : List Placemark}

lemma opening_placemark (h : localName tag = "Placemark") :
    opening ⟨depth, none, field, found⟩ tag =
      ⟨depth + 1, some (depth + 1, blank), field, found⟩ := by
  unfold opening
  rw [h]
  rfl

lemma opening_outside (h : localName tag ≠ "Placemark") :
    opening ⟨depth, none, field, found⟩ tag = ⟨depth + 1, none, field, found⟩ := by
  unfold opening
  split <;> simp_all

lemma opening_name (h : localName tag = "name") :
    opening ⟨d, some (d, p), field, found⟩ tag = ⟨d + 1, some (d, p), some .name, found⟩ := by
  unfold opening
  rw [h]
  simp

lemma opening_coordinates (h : localName tag = "coordinates") :
    opening ⟨depth, some (d, p), field, found⟩ tag =
      ⟨depth + 1, some (d, p), some .coordinates, found⟩ := by
  unfold opening
  rw [h]
  rfl

/-- Elements within a placemark that are no field of it. -/
lemma opening_inside (hname : localName tag = "name" → d < depth)
    (hcoordinates : localName tag ≠ "coordinates") :
    opening ⟨depth, some (d, p), field, found⟩ tag = ⟨depth + 1, some (d, p), field, found⟩ := by
  unfold opening
  split
  · simp_all
  · rename_i htag hcurrent
    cases hcurrent
    have hdeep : ¬ depth + 1 = d + 1 := by
      have := hname htag
      omega
    exact if_neg hdeep
  · simp_all
  · rfl

lemma closing_placemark (h : localName tag = "Placemark") :
    closing ⟨depth + 1, some (d, p), field, found⟩ tag = ⟨depth, none, field, found ++ [p]⟩ := by
  unfold closing
  rw [h]
  rfl

lemma closing_field (h : localName tag = "name" ∨ localName tag = "coordinates")
    (current : Option (ℕ × Placemark)) :
    closing ⟨depth + 1, current, field, found⟩ tag = ⟨depth, current, none, found⟩ := by
  unfold closing
  rcases h with h | h <;> rw [h] <;> rfl

lemma closing_other (h : localName tag ≠ "Placemark") (current : Option (ℕ × Placemark)) :
    closing ⟨depth + 1, current, none, found⟩ tag = ⟨depth, current, none, found⟩ := by
  unfold closing
  split <;> simp_all

end Progress

/-! What the events of a tree do. -/

section Run
open Progress
variable {n : Node} {ns : List Node} {depth d : ℕ} {found : List Placemark}

/-- Puts a piece of text into its field. -/
def appendPiece (p : Placemark) (x : Field × Except DocumentFault String) :
    Except DocumentFault Placemark :=
  p.append x.1 <$> x.2

/-- Two runs, one after the other, through states that hold a value read so far. -/
lemma foldlM_step_append {α : Type} {put : α → Progress} {s : Progress} {es fs : List Markup.Event}
    {x : Except DocumentFault α} {f : α → Except DocumentFault α}
    (hes : es.foldlM step s = put <$> x) (hfs : ∀ a, fs.foldlM step (put a) = put <$> f a) :
    (es ++ fs).foldlM step s = put <$> (x >>= f) := by
  rw [List.foldlM_append, hes]
  cases x with
  | error e => rfl
  | ok a => exact hfs a

/-- A run over an element, from one over its children. -/
lemma foldlM_element {α : Type} {tag : String} (within put : α → Progress) {s : Progress}
    {x : Except DocumentFault α}
    (hchildren : (Node.eventsAll ns).foldlM step (s.opening tag) = within <$> x)
    (hclosing : ∀ a, (within a).closing tag = put a) :
    (Node.element tag ns).events.foldlM step s = put <$> x := by
  have hclose : ∀ a, [Markup.Event.closing tag].foldlM step (within a) = .ok (put a) := by
    intro a
    rw [← hclosing a]
    rfl
  rw [Node.events, List.foldlM_cons]
  change (Node.eventsAll ns ++ [Markup.Event.closing tag]).foldlM step (s.opening tag) = _
  rw [List.foldlM_append, hchildren]
  cases x with
  | error e => rfl
  | ok a => exact hclose a

lemma foldlM_content {x : Except DocumentFault String} (hx : content? n = some x) (p : Placemark)
    (field : Field) :
    n.events.foldlM step ⟨depth, some (d, p), some field, found⟩ =
      (fun q => ⟨depth, some (d, q), some field, found⟩) <$> appendPiece p (field, x) := by
  cases n with
  | text raw =>
    cases hx
    simp only [Node.events, List.foldlM_cons, List.foldlM_nil, bind_pure, step, piece, appendPiece]
    cases Markup.resolve raw.toList <;> rfl
  | literal raw =>
    cases hx
    rfl
  | element => cases hx
  | empty => cases hx

/-- Within a field, all text goes to it. -/
lemma foldlM_pieces (hflat : ∀ m ∈ ns, m.name? = none) (p : Placemark) (field : Field) :
    (Node.eventsAll ns).foldlM step ⟨depth, some (d, p), some field, found⟩ =
      (fun q => ⟨depth, some (d, q), some field, found⟩) <$>
        ((ns.filterMap content?).map (field, ·)).foldlM appendPiece p := by
  induction ns generalizing p with
  | nil => rfl
  | cons n ns ih =>
    rw [List.forall_mem_cons] at hflat
    obtain ⟨x, hx⟩ : ∃ x, content? n = some x := by
      cases n with
      | text raw => exact ⟨_, rfl⟩
      | literal raw => exact ⟨_, rfl⟩
      | element => cases hflat.1
      | empty => cases hflat.1
    rw [Node.eventsAll, List.filterMap_cons_some hx, List.map_cons, List.foldlM_cons]
    exact foldlM_step_append (foldlM_content hx p field) fun q => ih hflat.2 q

/-- Runs over the nodes of a list, one after the other. -/
lemma foldlM_eventsAll {α β : Type} (put : α → Progress) {reads : Node → List β}
    {add : α → β → Except DocumentFault α}
    (h : ∀ n ∈ ns, ∀ a, n.events.foldlM step (put a) = put <$> (reads n).foldlM add a) (a : α) :
    (Node.eventsAll ns).foldlM step (put a) = put <$> (ns.flatMap reads).foldlM add a := by
  induction ns generalizing a with
  | nil => rfl
  | cons n ns ih =>
    rw [List.forall_mem_cons] at h
    rw [Node.eventsAll, List.flatMap_cons, List.foldlM_append (f := add)]
    exact foldlM_step_append (h.1 a) fun b => ih h.2 b

lemma filter_nodesAll_of_flat (hflat : ∀ m ∈ ns, m.name? = none) (name : String) :
    (Node.nodesAll ns).filter (Node.isNamed name) = [] := by
  induction ns with
  | nil => rfl
  | cons n ns ih =>
    rw [List.forall_mem_cons] at hflat
    rw [Node.nodesAll, List.filter_append, ih hflat.2, List.append_nil]
    cases n with
    | text raw => rfl
    | literal raw => rfl
    | element => cases hflat.1
    | empty => cases hflat.1

/-- Beneath a placemark, and not as a name right beneath it, only coordinates count. -/
lemma foldlM_inside (hregular : Regular [n])
    (hapart : ∀ m ∈ n.nodes, ¬ m.isNamed "Placemark") (hdepth : d ≤ depth)
    (hname : n.isNamed "name" → d < depth) (p : Placemark) :
    n.events.foldlM step ⟨depth, some (d, p), none, found⟩ =
      (fun q => ⟨depth, some (d, q), none, found⟩) <$> (coordinateFields n).foldlM appendPiece p := by
  induction n using Node.induct generalizing depth p with
  | element tag ns ih =>
    by_cases htag : localName tag = "coordinates"
    · have hflat : ∀ m ∈ ns, m.name? = none := hregular.flat_self (.inr (by simpa using htag))
      have hfields : coordinateFields (.element tag ns) =
          (ns.filterMap content?).map (Field.coordinates, ·) := by
        unfold coordinateFields
        rw [Node.nodes, List.filter_cons_of_pos (by simpa using htag), filter_nodesAll_of_flat hflat,
          List.flatMap_singleton]
        rfl
      rw [hfields]
      refine foldlM_element (fun q => ⟨depth + 1, some (d, q), some .coordinates, found⟩) _ ?_ ?_
      · rw [opening_coordinates htag]
        exact foldlM_pieces hflat p .coordinates
      · exact fun q => closing_field (.inr htag) _
    · have hfields : coordinateFields (.element tag ns) = ns.flatMap coordinateFields := by
        unfold coordinateFields
        rw [Node.nodes, List.filter_cons_of_neg (by simpa using htag), Node.nodesAll_eq,
          List.filter_flatMap, List.flatMap_assoc]
      have hplain : localName tag ≠ "Placemark" := by
        simpa using hapart _ (Node.mem_nodes_self _)
      rw [hfields]
      refine foldlM_element (fun q => ⟨depth + 1, some (d, q), none, found⟩) _ ?_ ?_
      · rw [opening_inside (by simpa using hname) htag]
        refine foldlM_eventsAll (fun q => ⟨depth + 1, some (d, q), none, found⟩) ?_ p
        intro c hc q
        have hsub := List.Subset.trans (Node.nodes_subset hc)
          (Node.element tag ns).nodesAll_children_subset
        exact ih c hc (hregular.children.of_mem hc) (fun m hm => hapart m (hsub hm)) (by omega)
          (by omega) q
      · exact fun q => closing_other hplain _
  | empty tag =>
    have hfields : coordinateFields (.empty tag) = [] := by
      unfold coordinateFields
      rw [Node.nodes]
      by_cases htag : localName tag = "coordinates"
      · rw [List.filter_cons_of_pos (by simpa using htag)]
        rfl
      · rw [List.filter_cons_of_neg (by simpa using htag)]
        rfl
    rw [hfields]
    rfl
  | text raw => rfl
  | literal raw => rfl

/-- Right beneath a placemark, names count as well. -/
lemma foldlM_child (hregular : Regular [n]) (hapart : ∀ m ∈ n.nodes, ¬ m.isNamed "Placemark")
    (p : Placemark) :
    n.events.foldlM step ⟨d, some (d, p), none, found⟩ =
      (fun q => ⟨d, some (d, q), none, found⟩) <$> (childFields n).foldlM appendPiece p := by
  by_cases hname : n.isNamed "name"
  · rw [childFields, if_pos hname]
    cases n with
    | element tag ns =>
      have htag : localName tag = "name" := by simpa using hname
      refine foldlM_element (fun q => ⟨d + 1, some (d, q), some .name, found⟩) _ ?_ ?_
      · rw [opening_name htag]
        exact foldlM_pieces (hregular.flat_self (.inl hname)) p .name
      · exact fun q => closing_field (.inl htag) _
    | empty tag => rfl
    | text raw => cases hname
    | literal raw => cases hname
  · rw [childFields, if_neg hname]
    exact foldlM_inside hregular hapart (Nat.le_refl d) (fun h => absurd h hname) p

/-- Reads a placemark element. -/
def addPlacemark (found : List Placemark) (n : Node) : Except DocumentFault (List Placemark) :=
  (found ++ [·]) <$> (fields n).foldlM appendPiece blank

lemma foldlM_placemark {tag : String} (hregular : Regular [.element tag ns])
    (htag : localName tag = "Placemark") :
    (Node.element tag ns).events.foldlM step ⟨depth, none, none, found⟩ =
      (⟨depth, none, none, ·⟩) <$> addPlacemark found (.element tag ns) := by
  have hapart := hregular.apart_self (by simpa using htag)
  rw [addPlacemark, ← comp_map]
  refine foldlM_element (fun q => ⟨depth + 1, some (depth + 1, q), none, found⟩) _ ?_ ?_
  · rw [opening_placemark htag]
    refine foldlM_eventsAll (fun q => ⟨depth + 1, some (depth + 1, q), none, found⟩) ?_ blank
    intro c hc q
    exact foldlM_child (hregular.children.of_mem hc)
      (fun m hm => hapart m (Node.nodes_subset hc hm)) q
  · exact fun q => closing_placemark htag

/-- Outside placemarks, only placemarks count. -/
lemma foldlM_outside (hregular : Regular [n]) (found : List Placemark) :
    n.events.foldlM step ⟨depth, none, none, found⟩ =
      (⟨depth, none, none, ·⟩) <$>
        (n.nodes.filter (Node.isNamed "Placemark")).foldlM addPlacemark found := by
  induction n using Node.induct generalizing depth found with
  | element tag ns ih =>
    by_cases htag : localName tag = "Placemark"
    · have hnodes : (Node.element tag ns).nodes.filter (Node.isNamed "Placemark") =
          [.element tag ns] := by
        have hapart := hregular.apart_self (by simpa using htag)
        rw [Node.nodes_eq, List.filter_cons_of_pos (by simpa using htag),
          List.filter_eq_nil_iff.2 hapart]
      rw [hnodes, List.foldlM_cons, foldlM_placemark hregular htag]
      simp
    · have hnodes : (Node.element tag ns).nodes.filter (Node.isNamed "Placemark") =
          ns.flatMap fun c => c.nodes.filter (Node.isNamed "Placemark") := by
        rw [Node.nodes, List.filter_cons_of_neg (by simpa using htag), Node.nodesAll_eq,
          List.filter_flatMap]
      rw [hnodes]
      refine foldlM_element (⟨depth + 1, none, none, ·⟩) _ ?_ ?_
      · rw [opening_outside htag]
        refine foldlM_eventsAll (⟨depth + 1, none, none, ·⟩) ?_ found
        exact fun c hc found => ih c hc (hregular.children.of_mem hc) found
      · exact fun ps => closing_other htag _
  | empty tag =>
    have hname : ¬ (Node.empty tag).isNamed "Placemark" := by
      intro h
      cases hregular.paired _ (by simpa using Node.mem_nodes_self _) h
    rw [Node.nodes, List.filter_cons_of_neg hname]
    rfl
  | text raw => rfl
  | literal raw => rfl

lemma foldlM_document (hregular : Regular ns) :
    (Node.eventsAll ns).foldlM step .initial =
      (⟨0, none, none, ·⟩) <$> (placemarkNodes ns).foldlM addPlacemark [] := by
  rw [placemarkNodes, Node.nodesAll_eq, List.filter_flatMap]
  refine foldlM_eventsAll (⟨0, none, none, ·⟩) ?_ []
  exact fun n hn found => foldlM_outside (hregular.of_mem hn) found

end Run

/-! What the texts of the fields make. -/

section Texts
variable {n : Node} {ns : List Node}

/-- The texts that go to a field. -/
def textsOf (field : Field) (xs : List (Field × Except DocumentFault String)) : List String :=
  (xs.filter (·.1 = field)).map fun x => textOf x.2

/-- A run over pieces of text fails at the first that cannot be resolved. -/
lemma foldlM_appendPiece (xs : List (Field × Except DocumentFault String)) (p : Placemark) :
    xs.foldlM appendPiece p =
      (xs.findSome? fun x => faultOf? x.2).elim
        (.ok ⟨(textsOf .name xs).foldl joinPiece p.name,
          (textsOf .coordinates xs).foldl joinPiece p.coordinates⟩) .error := by
  induction xs generalizing p with
  | nil => rfl
  | cons x xs ih =>
    obtain ⟨field, x⟩ := x
    cases x with
    | error e => rfl
    | ok t =>
      change xs.foldlM appendPiece (p.append field t) = _
      rw [ih]
      cases field <;> rfl

lemma intercalate_append_cons (s t : String) (ts : List String) :
    " ".intercalate ((s ++ " " ++ t) :: ts) = " ".intercalate (s :: t :: ts) := by
  cases ts with
  | nil => simp only [String.intercalate_singleton, String.intercalate_cons_cons]
  | cons u us =>
    simp only [String.intercalate_cons_cons, String.append_assoc]

lemma foldl_joinPiece_some (s : String) (ts : List String) :
    ts.foldl joinPiece (some s) = some (" ".intercalate (s :: ts.map Text.trim)) := by
  induction ts generalizing s with
  | nil => rw [List.map_nil, String.intercalate_singleton]; rfl
  | cons t ts ih =>
    rw [List.map_cons, ← intercalate_append_cons]
    exact ih _

lemma foldl_joinPiece (ts : List String) : ts.foldl joinPiece none = joined ts := by
  cases ts with
  | nil => rfl
  | cons t ts => exact foldl_joinPiece_some _ ts

lemma textsOf_flatMap (field : Field) (reads : Node → List (Field × Except DocumentFault String)) :
    textsOf field (ns.flatMap reads) = ns.flatMap fun n => textsOf field (reads n) := by
  unfold textsOf
  rw [List.filter_flatMap, List.map_flatMap]

lemma textsOf_map (field : Field) (xs : List (Except DocumentFault String)) :
    textsOf field (xs.map (field, ·)) = xs.map textOf := by
  unfold textsOf
  rw [List.filter_eq_self.2 (by simp), List.map_map]
  rfl

lemma textsOf_map_of_ne {field other : Field} (h : other ≠ field)
    (xs : List (Except DocumentFault String)) : textsOf field (xs.map (other, ·)) = [] := by
  unfold textsOf
  rw [List.filter_eq_nil_iff.2 (by simp [h]), List.map_nil]

lemma textsOf_name_childFields (n : Node) :
    textsOf .name (childFields n) = if n.isNamed "name" then (pieces n).map textOf else [] := by
  unfold childFields
  split
  · exact textsOf_map .name _
  · unfold coordinateFields
    rw [textsOf_flatMap]
    simp [textsOf_map_of_ne]

/-- The names of a placemark come from its own children. -/
lemma textsOf_name_fields (n : Node) :
    textsOf .name (fields n) = (nameNodes n).flatMap fun m => (pieces m).map textOf := by
  unfold fields nameNodes
  rw [textsOf_flatMap]
  induction n.children with
  | nil => rfl
  | cons c cs ih =>
    rw [List.flatMap_cons, ih, textsOf_name_childFields]
    by_cases hc : c.isNamed "name"
    · rw [if_pos hc, List.filter_cons_of_pos hc, List.flatMap_cons]
    · rw [if_neg hc, List.filter_cons_of_neg hc, List.nil_append]

lemma textsOf_coordinates_childFields (hregular : Regular [n]) :
    textsOf .coordinates (childFields n) =
      (n.nodes.filter (Node.isNamed "coordinates")).flatMap fun m => (pieces m).map textOf := by
  unfold childFields
  split
  · -- A name holds no elements, so there are no coordinates in it to be missed.
    rename_i hname
    have hself : ¬ n.isNamed "coordinates" := by
      intro h
      simp_all [Node.isNamed]
    rw [textsOf_map_of_ne (by decide), Node.nodes_eq, List.filter_cons_of_neg hself,
      filter_nodesAll_of_flat (hregular.flat_self (.inl hname)), List.flatMap_nil]
  · unfold coordinateFields
    rw [textsOf_flatMap]
    simp only [textsOf_map]

/-- The coordinates of a placemark come from everything beneath it. -/
lemma textsOf_coordinates_fields (hregular : Regular [n]) :
    textsOf .coordinates (fields n) =
      (coordinateNodes n).flatMap fun m => (pieces m).map textOf := by
  unfold fields coordinateNodes
  rw [textsOf_flatMap, Node.nodesAll_eq, List.filter_flatMap, List.flatMap_assoc]
  rw [List.flatMap_def, List.flatMap_def, List.map_congr_left]
  exact fun c hc => textsOf_coordinates_childFields (hregular.children.of_mem hc)

lemma addPlacemark_eq (hregular : Regular [n]) (found : List Placemark) :
    addPlacemark found n =
      ((fields n).findSome? fun x => faultOf? x.2).elim (.ok (found ++ [ofNode n])) .error := by
  unfold addPlacemark
  rw [foldlM_appendPiece, textsOf_name_fields, textsOf_coordinates_fields hregular]
  cases (fields n).findSome? fun x => faultOf? x.2 with
  | some e => rfl
  | none =>
    simp only [blank, foldl_joinPiece]
    rfl

lemma foldlM_addPlacemark (hregular : ∀ n ∈ ns, Regular [n]) (found : List Placemark) :
    ns.foldlM addPlacemark found =
      ((ns.flatMap fields).findSome? fun x => faultOf? x.2).elim
        (.ok (found ++ ns.map ofNode)) .error := by
  induction ns generalizing found with
  | nil => rw [List.map_nil, List.append_nil]; rfl
  | cons n ns ih =>
    rw [List.forall_mem_cons] at hregular
    rw [List.foldlM_cons, addPlacemark_eq hregular.1, List.flatMap_cons, List.findSome?_append]
    cases (fields n).findSome? fun x => faultOf? x.2 with
    | some e => rfl
    | none =>
      change ns.foldlM addPlacemark (found ++ [ofNode n]) = _
      rw [ih hregular.2, List.append_assoc]
      rfl

/-- What the events of a regular tree give. -/
lemma ofStream_of_regular (hregular : Regular ns) :
    ofStream ⟨Node.eventsAll ns, none⟩ =
      (firstFault? ns).elim (.ok ((placemarkNodes ns).map ofNode)) .error := by
  have hplacemarks : ∀ n ∈ placemarkNodes ns, Regular [n] := fun n hn =>
    hregular.of_mem_nodesAll (List.mem_filter.1 hn).1
  unfold ofStream
  rw [foldlM_document hregular, foldlM_addPlacemark hplacemarks, List.nil_append, firstFault?]
  cases ((placemarkNodes ns).flatMap fields).findSome? fun x => faultOf? x.2 <;> rfl

end Texts

/-- Reading agrees with the tree: of a document whose placemarks stand apart and have a closing tag
of their own, and whose names and coordinates hold text only, exactly the placemark elements are
found, in document order, each with what the tree gives it. Reading fails only where a text that
belongs to a placemark has a reference that cannot be resolved, and then at the first. -/
theorem ofStream_eventsAll {ns : List Node} (hregular : Regular ns) :
    ofStream ⟨Node.eventsAll ns, none⟩ =
        (firstFault? ns).elim (.ok ((placemarkNodes ns).map ofNode)) .error ∧
      ∀ document, Markup.scan document = ⟨Node.eventsAll ns, none⟩ →
        (read document).result =
          (firstFault? ns).elim (.ok ((placemarkNodes ns).map ofNode)) .error := by
  refine ⟨ofStream_of_regular hregular, ?_⟩
  intro document hscan
  unfold read
  rw [hscan, ofStream_of_regular hregular]
  cases firstFault? ns <;> rfl

/-- One placemark, with a name beneath another element and coordinates in two places. -/
def folder : List Node :=
  [.element "k:Folder" [
    .element "name" [.text "all"],
    .element "k:Placemark" [
      .element "name" [.text "north", .literal " field "],
      .element "Data" [.element "name" [.text "owner"], .element "coordinates" [.text "1,2"]],
      .element "coordinates" [.text "3,4"]]]]

def folderDocument : String :=
  "<k:Folder><name>all</name><k:Placemark><name> north<![CDATA[ field ]]></name>" ++
  "<Data><name>owner</name><coordinates>1,2</coordinates></Data>" ++
  "<coordinates>3,4</coordinates></k:Placemark></k:Folder>"

theorem ofStream_eventsAll_folder :
    Regular folder ∧ Markup.scan folderDocument = ⟨Node.eventsAll folder, none⟩ ∧
      (read folderDocument).result =
        .ok [⟨some "north field", some "1,2 3,4"⟩] := by
  have hregular : Regular folder := by decide
  have hscan : Markup.scan folderDocument = ⟨Node.eventsAll folder, none⟩ := by decide +kernel
  have hfault : firstFault? folder = none := by decide +kernel
  have hplacemarks : (placemarkNodes folder).map ofNode =
      [⟨some "north field", some "1,2 3,4"⟩] := by decide +kernel
  refine ⟨hregular, hscan, ?_⟩
  rw [(ofStream_eventsAll hregular).2 _ hscan, hfault, hplacemarks]
  rfl

end Sortie.Placemark
