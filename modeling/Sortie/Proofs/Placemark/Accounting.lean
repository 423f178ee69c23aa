import Sortie.Proofs.Fleet.Assignment
import Sortie.Proofs.Text.Split
import Sortie.Proofs.Text.Words

/-! Every placemark is accounted for once: it becomes an area, becomes an issue, or is the launch
point. Of the placemarks with one name, the first one with a usable coordinate becomes the area. -/
namespace Sortie

namespace Area

/-- A name that an area can have. -/
structure Nameable (name : String) : Prop where
  nonempty : name ≠ ""
  not_takeoff : name ≠ takeoffName

/-- A coordinate as it stands between commas and blanks. -/
structure IsField (s : String) : Prop where
  nonempty : s ≠ ""
  no_comma : ',' ∉ s.toList
  no_blank : ∀ c ∈ s.toList, Text.isBlank c = false

/-- What every area has: a name that is not reserved, and points whose coordinates are fields. -/
structure Sound (a : Area) : Prop where
  nameable : Nameable a.name
  nonempty : a.points ≠ []
  fields : ∀ q ∈ a.points, IsField q.1 ∧ IsField q.2

/-- The first two fields of a coordinate, neither of them empty; a field ends at a comma or with the
coordinate. -/
structure Gives (token : String) (q : String × String) : Prop where
  longitude : q.1 ≠ "" ∧ ',' ∉ q.1.toList
  latitude : q.2 ≠ "" ∧ ',' ∉ q.2.toList
  written : ∃ tail, token.toList = q.1.toList ++ ',' :: (q.2.toList ++ tail) ∧
    ∀ c ∈ tail.head?, c = ','

/-- The points of a list of coordinates: what the usable ones give, in order. -/
inductive Points : List String → List (String × String) → Prop
  | nil : Points [] []
  | usable {t q ts qs} (gives : Gives t q) (rest : Points ts qs) : Points (t :: ts) (q :: qs)
  | dropped {t ts qs} (useless : ∀ q, ¬ Gives t q) (rest : Points ts qs) : Points (t :: ts) qs

lemma splitAt_of_gives {token : String} {q : String × String} (h : Gives token q) :
    ∃ more, Text.splitAt ',' token = q.1 :: q.2 :: more := by
  obtain ⟨tail, htoken, htail⟩ := h.written
  unfold Text.splitAt
  rw [htoken, Text.splitAtChars_append_cons, Text.splitAtChars_of_notMem h.longitude.2]
  cases tail with
  | nil =>
    rw [List.append_nil, Text.splitAtChars_of_notMem h.latitude.2]
    exact ⟨[], by simp⟩
  | cons c rest =>
    obtain rfl : c = ',' := htail c (by simp)
    rw [Text.splitAtChars_append_cons, Text.splitAtChars_of_notMem h.latitude.2]
    exact ⟨(Text.splitAtChars ',' rest).map String.ofList, by simp⟩

lemma gives_of_splitAt {token : String} {q : String × String} {more : List String}
    (h : Text.splitAt ',' token = q.1 :: q.2 :: more) (hlongitude : q.1 ≠ "") (hlatitude : q.2 ≠ "") :
    Gives token q := by
  unfold Text.splitAt at h
  rw [List.map_eq_cons_iff] at h
  obtain ⟨w, ws, hcut, hw, hws⟩ := h
  rw [List.map_eq_cons_iff] at hws
  obtain ⟨v, vs, rfl, hv, -⟩ := hws
  have hmem : ∀ u ∈ w :: v :: vs, ',' ∉ u := by
    intro u hu
    rw [← hcut] at hu
    exact Text.notMem_of_mem_splitAtChars hu
  have hfirst : q.1.toList = w := by rw [← hw, String.toList_ofList]
  have hsecond : q.2.toList = v := by rw [← hv, String.toList_ofList]
  refine ⟨⟨hlongitude, hfirst ▸ hmem w (by simp)⟩, ⟨hlatitude, hsecond ▸ hmem v (by simp)⟩, ?_⟩
  rw [hfirst, hsecond]
  -- The first field ends at a comma, since there is a second one.
  rcases Text.splitAtChars_eq_cons hcut with ⟨hnil, -⟩ | ⟨rest, htoken, hrest⟩
  · cases hnil
  · rcases Text.splitAtChars_eq_cons hrest.symm with ⟨-, rfl⟩ | ⟨tail, rfl, -⟩
    · exact ⟨[], by simp [htoken], by simp⟩
    · exact ⟨',' :: tail, htoken, by simp⟩

lemma pair?_eq_some_iff {token : String} {q : String × String} :
    pair? token = some q ↔ Gives token q := by
  constructor
  · intro h
    unfold pair? at h
    split at h
    · rename_i longitude latitude more hcut
      rw [Option.ite_none_right_eq_some] at h
      obtain ⟨⟨hlongitude, hlatitude⟩, hq⟩ := h
      cases hq
      exact gives_of_splitAt hcut hlongitude hlatitude
    · cases h
  · intro h
    obtain ⟨more, hcut⟩ := splitAt_of_gives h
    unfold pair?
    rw [hcut]
    exact if_pos ⟨h.longitude.1, h.latitude.1⟩

lemma pair?_eq_none_iff {token : String} : pair? token = none ↔ ∀ q, ¬ Gives token q := by
  simp only [Option.eq_none_iff_forall_ne_some, ne_eq, pair?_eq_some_iff]

lemma points_iff {ts : List String} {qs : List (String × String)} :
    Points ts qs ↔ qs = ts.filterMap pair? := by
  constructor
  · intro h
    induction h with
    | nil => rfl
    | usable gives _ ih => rw [List.filterMap_cons_some (pair?_eq_some_iff.2 gives), ih]
    | dropped useless _ ih => rw [List.filterMap_cons_none (pair?_eq_none_iff.2 useless), ih]
  · rintro rfl
    induction ts with
    | nil => exact .nil
    | cons t ts ih =>
      cases ht : pair? t with
      | none =>
        rw [List.filterMap_cons_none ht]
        exact .dropped (pair?_eq_none_iff.1 ht) ih
      | some q =>
        rw [List.filterMap_cons_some ht]
        exact .usable (pair?_eq_some_iff.1 ht) ih

lemma Points.exists_token {ts : List String} {qs : List (String × String)} (h : Points ts qs)
    {q : String × String} (hq : q ∈ qs) : ∃ t ∈ ts, Gives t q := by
  induction h with
  | nil => cases hq
  | @usable t q' ts qs gives _ ih =>
    rcases List.mem_cons.1 hq with rfl | hq
    · exact ⟨t, by simp, gives⟩
    · obtain ⟨u, hu, hgives⟩ := ih hq
      exact ⟨u, by simp [hu], hgives⟩
  | dropped _ _ ih =>
    obtain ⟨u, hu, hgives⟩ := ih hq
    exact ⟨u, by simp [hu], hgives⟩

lemma Gives.isField {token : String} {q : String × String} (h : Gives token q)
    (hsolid : ∀ c ∈ token.toList, Text.isBlank c = false) : IsField q.1 ∧ IsField q.2 := by
  obtain ⟨tail, htoken, -⟩ := h.written
  rw [htoken] at hsolid
  refine ⟨⟨h.longitude.1, h.longitude.2, ?_⟩, ⟨h.latitude.1, h.latitude.2, ?_⟩⟩
  · intro c hc
    exact hsolid c (by simp [hc])
  · intro c hc
    exact hsolid c (by simp [hc])

end Area

open Area (Nameable)

namespace Placemark
variable {p q : Placemark} {ps : List Placemark}

/-- The points that the coordinates of a placemark give. -/
def Offers (p : Placemark) (qs : List (String × String)) : Prop :=
  ∃ ts, Text.Worded (p.coordinates.getD "") ts ∧ Area.Points ts qs

/-- A placemark with a usable coordinate. -/
def Usable (p : Placemark) : Prop := ∃ qs, qs ≠ [] ∧ p.Offers qs

lemma offers_iff {qs : List (String × String)} :
    p.Offers qs ↔ qs = Area.pairs (p.coordinates.getD "") := by
  simp only [Offers, Text.worded_iff, Area.points_iff, exists_eq_left]
  rfl

lemma usable_iff : p.Usable ↔ Area.pairs (p.coordinates.getD "") ≠ [] := by
  simp [Usable, offers_iff]

/-- What a placemark comes to: an area, an issue, or the launch point, which is skipped. -/
inductive Verdict where
  | area (a : Area)
  | issue (i : AreaIssue)
  | launch

def Verdict.area? : Verdict → Option Area
  | area a => some a
  | _ => none

def Verdict.issue? : Verdict → Option AreaIssue
  | issue i => some i
  | _ => none

/-- What becomes of a placemark that stands behind others. -/
inductive Becomes (before : List Placemark) (p : Placemark) : Verdict → Prop
  | nameless (name : p.name = none ∨ p.name = some "") :
      Becomes before p (.issue (.missingName before.length))
  | launch (name : p.name = some takeoffName) : Becomes before p .launch
  | duplicate {n} (name : p.name = some n) (nameable : Nameable n)
      (earlier : ∃ q ∈ before, q.name = some n ∧ q.Usable) :
      Becomes before p (.issue (.duplicate n))
  | missing {n} (name : p.name = some n) (nameable : Nameable n)
      (new : ∀ q ∈ before, q.name = some n → ¬ q.Usable) (useless : ¬ p.Usable) :
      Becomes before p (.issue (.missingCoordinates n))
  | area {n points} (name : p.name = some n) (nameable : Nameable n)
      (new : ∀ q ∈ before, q.name = some n → ¬ q.Usable) (offers : p.Offers points)
      (nonempty : points ≠ []) : Becomes before p (.area ⟨n, points⟩)

variable {vs : List Verdict} {name : String}

section Named
variable {before : List Placemark} {v : Verdict} (h : p.Becomes before v) (hp : p.name = some name)
  (hname : Nameable name)
include h hp hname

/-- A placemark whose name can be that of an area becomes one of three things. -/
lemma Becomes.cases_of_name :
    (v = .issue (.duplicate name) ∧ ∃ q ∈ before, q.name = some name ∧ q.Usable) ∨
    (∀ q ∈ before, q.name = some name → ¬ q.Usable) ∧
      (¬ p.Usable ∧ v = .issue (.missingCoordinates name) ∨
        p.Usable ∧ ∃ points, v = .area ⟨name, points⟩) := by
  cases h with
  | nameless hnone => rcases hnone with hnone | hnone <;> simp_all [hname.nonempty.symm]
  | launch htakeoff => exact absurd (Option.some.inj (hp.symm.trans htakeoff)) hname.not_takeoff
  | duplicate hn _ earlier =>
    cases hp.symm.trans hn
    exact .inl ⟨rfl, earlier⟩
  | missing hn _ new useless =>
    cases hp.symm.trans hn
    exact .inr ⟨new, .inl ⟨useless, rfl⟩⟩
  | area hn _ new offers nonempty =>
    cases hp.symm.trans hn
    exact .inr ⟨new, .inr ⟨⟨_, nonempty, offers⟩, _, rfl⟩⟩

lemma Becomes.eq_duplicate (hearlier : ∃ q ∈ before, q.name = some name ∧ q.Usable) :
    v = .issue (.duplicate name) := by
  obtain ⟨q, hq, hqname, husable⟩ := hearlier
  rcases h.cases_of_name hp hname with ⟨hv, -⟩ | ⟨hnew, -⟩
  · exact hv
  · exact absurd husable (hnew q hq hqname)

lemma Becomes.eq_missing (hnew : ∀ q ∈ before, q.name = some name → ¬ q.Usable)
    (huseless : ¬ p.Usable) : v = .issue (.missingCoordinates name) := by
  rcases h.cases_of_name hp hname with ⟨-, q, hq, hqname, husable⟩ | ⟨-, ⟨-, hv⟩ | ⟨husable, -⟩⟩
  · exact absurd husable (hnew q hq hqname)
  · exact hv
  · exact absurd husable huseless

end Named

/-- The verdicts on a list of placemarks, one for each. -/
inductive Tally : List Placemark → List Verdict → Prop
  | nil : Tally [] []
  | snoc {ps vs p v} (earlier : Tally ps vs) (last : p.Becomes ps v) : Tally (ps ++ [p]) (vs ++ [v])

lemma filterMap_concat {α β : Type} (f : α → Option β) (as : List α) (a : α) :
    (as ++ [a]).filterMap f = as.filterMap f ++ (f a).toList := by
  rw [List.filterMap_append]
  cases h : f a <;> simp [h]

/-- The areas have the names of the usable placemarks. -/
lemma Tally.exists_area_iff (h : Tally ps vs) :
    (∃ a ∈ vs.filterMap Verdict.area?, a.name = name) ↔
      Nameable name ∧ ∃ q ∈ ps, q.name = some name ∧ q.Usable := by
  induction h with
  | nil => simp
  | @snoc ps vs p v earlier last ih =>
    have hsplit : (∃ a ∈ (vs ++ [v]).filterMap Verdict.area?, a.name = name) ↔
        (∃ a ∈ vs.filterMap Verdict.area?, a.name = name) ∨ ∃ a, v.area? = some a ∧ a.name = name := by
      simp only [filterMap_concat, List.mem_append, or_and_right, exists_or, Option.mem_toList]
    have hlast : (∃ a, v.area? = some a ∧ a.name = name) →
        Nameable name ∧ p.name = some name ∧ p.Usable := by
      rintro ⟨a, ha, rfl⟩
      cases last with
      | area hname nameable new offers nonempty =>
        cases ha
        exact ⟨nameable, hname, _, nonempty, offers⟩
      | _ => cases ha
    rw [hsplit, ih]
    simp only [List.mem_append, List.mem_singleton]
    constructor
    · rintro (⟨hname, q, hq, hqname⟩ | hv)
      · exact ⟨hname, q, .inl hq, hqname⟩
      · obtain ⟨hname, hp⟩ := hlast hv
        exact ⟨hname, p, .inr rfl, hp⟩
    · rintro ⟨hname, q, hq | rfl, hqname, husable⟩
      · exact .inl ⟨hname, q, hq, hqname, husable⟩
      · -- The last placemark has the name: it is the area, or an earlier one is.
        rcases last.cases_of_name hqname hname with ⟨-, hq⟩ | ⟨-, ⟨huseless, -⟩ | ⟨-, points, rfl⟩⟩
        · exact .inl ⟨hname, hq⟩
        · exact absurd husable huseless
        · exact .inr ⟨_, rfl, rfl⟩

/-- Taking up a placemark adds what it becomes. -/
lemma Tally.exists_take (h : Tally ps vs) {f : Survey.Findings}
    (hareas : f.areas = vs.filterMap Verdict.area?) (p : Placemark) :
    ∃ v, p.Becomes ps v ∧ (f.take ps.length p).areas = f.areas ++ v.area?.toList ∧
      (f.take ps.length p).issues = f.issues ++ v.issue?.toList := by
  unfold Survey.Findings.take
  split
  · rename_i hname
    refine ⟨.issue (.missingName ps.length), .nameless ?_, by simp [Verdict.area?], rfl⟩
    cases hp : p.name with
    | none => exact .inl rfl
    | some n =>
      rw [hp, Option.filter_eq_none_iff] at hname
      exact .inr (by simpa using hname)
  · rename_i n hname
    obtain ⟨hp, hnonempty⟩ := Option.filter_eq_some_iff.1 hname
    have hearlier : (f.areas.any fun a => a.name = n) = true ↔
        Nameable n ∧ ∃ q ∈ ps, q.name = some n ∧ q.Usable := by
      rw [← h.exists_area_iff, hareas, List.any_eq_true]
      simp only [decide_eq_true_eq]
    split_ifs with htakeoff hknown
    · refine ⟨.launch, .launch ?_, by simp [Verdict.area?], by simp [Verdict.issue?]⟩
      rw [hp, htakeoff]
    · obtain ⟨hnameable, hq⟩ := hearlier.1 hknown
      exact ⟨.issue (.duplicate n), .duplicate hp hnameable hq, by simp [Verdict.area?], rfl⟩
    · have hnameable : Nameable n := ⟨by simpa using hnonempty, htakeoff⟩
      have hnew : ∀ q ∈ ps, q.name = some n → ¬ q.Usable := fun q hq hqname husable =>
        hknown (hearlier.2 ⟨hnameable, q, hq, hqname, husable⟩)
      cases hpoints : Area.pairs (p.coordinates.getD "") with
      | nil =>
        simp only [hpoints]
        have huseless : ¬ p.Usable := by simp [usable_iff, hpoints]
        exact ⟨.issue (.missingCoordinates n), .missing hp hnameable hnew huseless,
          by simp [Verdict.area?], rfl⟩
      | cons point points =>
        simp only [hpoints]
        refine ⟨.area ⟨n, point :: points⟩, .area hp hnameable hnew (offers_iff.2 hpoints.symm) ?_,
          rfl, by simp [Verdict.issue?]⟩
        exact List.cons_ne_nil point points

/-- A run over further placemarks adds what each of them becomes. -/
lemma Tally.exists_takeAll (h : Tally ps vs) {f : Survey.Findings}
    (hareas : f.areas = vs.filterMap Verdict.area?) (hissues : f.issues = vs.filterMap Verdict.issue?)
    (more : List Placemark) :
    ∃ us, Tally (ps ++ more) us ∧ (f.takeAll ps.length more).areas = us.filterMap Verdict.area? ∧
      (f.takeAll ps.length more).issues = us.filterMap Verdict.issue? := by
  induction more generalizing ps vs f with
  | nil => exact ⟨vs, by simpa using h, hareas, hissues⟩
  | cons p more ih =>
    obtain ⟨v, hv, hareas', hissues'⟩ := h.exists_take hareas p
    have hsplit : ps ++ p :: more = (ps ++ [p]) ++ more := by simp
    have hlength : ps.length + 1 = (ps ++ [p]).length := by simp
    rw [hsplit, Survey.Findings.takeAll, hlength]
    apply ih (h.snoc hv)
    · rw [hareas', hareas, filterMap_concat]
    · rw [hissues', hissues, filterMap_concat]

lemma exists_tally (ps : List Placemark) :
    ∃ vs, Tally ps vs ∧ (collect ps).areas = vs.filterMap Verdict.area? ∧
      (collect ps).issues = vs.filterMap Verdict.issue? :=
  Tally.nil.exists_takeAll rfl rfl ps

/-! What follows from the verdicts. -/

lemma Tally.length_eq (h : Tally ps vs) : vs.length = ps.length := by
  induction h with
  | nil => rfl
  | snoc _ _ ih => simp [ih]

lemma Tally.becomes (h : Tally ps vs) {i : ℕ} (hi : ps[i]? = some p) :
    ∃ v, vs[i]? = some v ∧ p.Becomes (ps.take i) v := by
  induction h with
  | nil => simp at hi
  | @snoc ps vs q v earlier last ih =>
    have hlength := earlier.length_eq
    by_cases hlt : i < ps.length
    · rw [List.getElem?_append_left hlt] at hi
      obtain ⟨u, hu, hbecomes⟩ := ih hi
      refine ⟨u, ?_, ?_⟩
      · rw [List.getElem?_append_left (by omega), hu]
      · rwa [List.take_append_of_le_length (by omega)]
    · obtain rfl : i = ps.length := by
        have := (List.getElem?_eq_some_iff.1 hi).1
        simp only [List.length_append, List.length_singleton] at this
        omega
      rw [List.getElem?_concat_length] at hi
      cases hi
      refine ⟨v, ?_, ?_⟩
      · rw [← hlength, List.getElem?_concat_length]
      · rwa [List.take_left]

lemma Tally.exists_placemark (h : Tally ps vs) {i : ℕ} {v : Verdict} (hi : vs[i]? = some v) :
    ∃ p, ps[i]? = some p ∧ p.Becomes (ps.take i) v := by
  have hlt : i < ps.length := h.length_eq ▸ (List.getElem?_eq_some_iff.1 hi).1
  have hp : ps[i]? = some ps[i] := List.getElem?_eq_getElem hlt
  obtain ⟨u, hu, hbecomes⟩ := h.becomes hp
  cases hi.symm.trans hu
  exact ⟨ps[i], hp, hbecomes⟩

/-- The launch points are the placemarks that are neither areas nor issues. -/
lemma Tally.length_eq_add (h : Tally ps vs) :
    ps.length = (vs.filterMap Verdict.area?).length + (vs.filterMap Verdict.issue?).length +
      (ps.filter fun p => p.name = some takeoffName).length := by
  induction h with
  | nil => rfl
  | @snoc ps vs p v earlier last ih =>
    have hlast : v.area?.toList.length + v.issue?.toList.length +
        ([p].filter fun p => p.name = some takeoffName).length = 1 := by
      cases last with
      | nameless name =>
        rcases name with name | name <;> simp [Verdict.area?, Verdict.issue?, name, takeoffName]
      | launch name => simp [Verdict.area?, Verdict.issue?, name]
      | duplicate name nameable => simp [Verdict.area?, Verdict.issue?, name, nameable.not_takeoff]
      | missing name nameable => simp [Verdict.area?, Verdict.issue?, name, nameable.not_takeoff]
      | area name nameable => simp [Verdict.area?, Verdict.issue?, name, nameable.not_takeoff]
    simp only [filterMap_concat, List.filter_append, List.length_append, List.length_singleton]
    omega

lemma Offers.isField {qs : List (String × String)} (h : p.Offers qs) {q : String × String}
    (hq : q ∈ qs) : Area.IsField q.1 ∧ Area.IsField q.2 := by
  obtain ⟨ts, hwords, hpoints⟩ := h
  obtain ⟨t, ht, hgives⟩ := hpoints.exists_token hq
  exact hgives.isField (hwords.solid_of_mem (List.mem_map_of_mem ht))

lemma Becomes.sound {before : List Placemark} {a : Area} (h : p.Becomes before (.area a)) :
    a.Sound := by
  cases h with
  | area _ nameable _ offers nonempty => exact ⟨nameable, nonempty, fun q hq => offers.isField hq⟩

/-- An area comes from the placemark at a place: that has its name and gives its points, those of its
name before it give none and are reported so, and those after it are reported as duplicates. -/
structure Source (ps : List Placemark) (vs : List Verdict) (i : ℕ) (a : Area) : Prop where
  placemark : ∃ p, ps[i]? = some p ∧ p.name = some a.name ∧ p.Offers a.points
  earlier : ∀ {j : ℕ} {q : Placemark}, j < i → ps[j]? = some q → q.name = some a.name →
    ¬ q.Usable ∧ vs[j]? = some (.issue (.missingCoordinates a.name))
  later : ∀ {j : ℕ} {q : Placemark}, i < j → ps[j]? = some q → q.name = some a.name →
    vs[j]? = some (.issue (.duplicate a.name))

lemma mem_take {j i : ℕ} (hij : j < i) (hj : ps[j]? = some q) : q ∈ ps.take i := by
  obtain ⟨hlt, rfl⟩ := List.getElem?_eq_some_iff.1 hj
  exact List.mem_take_iff_getElem.2 ⟨j, by omega, rfl⟩

lemma Tally.source (h : Tally ps vs) {i : ℕ} {a : Area} (hi : vs[i]? = some (.area a)) :
    Source ps vs i a := by
  obtain ⟨p, hp, hbecomes⟩ := h.exists_placemark hi
  cases hbecomes with
  | area name nameable new offers nonempty =>
    refine ⟨⟨p, hp, name, offers⟩, ?_, ?_⟩
    · intro j q hji hj hq
      obtain ⟨v, hv, hbecomes⟩ := h.becomes hj
      have huseless := new q (mem_take hji hj) hq
      refine ⟨huseless, hv.trans (congrArg some (hbecomes.eq_missing hq nameable ?_ huseless))⟩
      intro r hr
      exact new r ((List.take_prefix_take_left hji.le).subset hr)
    · intro j q hij hj hq
      obtain ⟨v, hv, hbecomes⟩ := h.becomes hj
      have hearlier : ∃ r ∈ ps.take j, r.name = some _ ∧ r.Usable :=
        ⟨p, mem_take hij hp, name, _, nonempty, offers⟩
      exact hv.trans (congrArg some (hbecomes.eq_duplicate hq nameable hearlier))

lemma exists_place_of_mem {a : Area} (ha : a ∈ vs.filterMap Verdict.area?) :
    ∃ i : ℕ, vs[i]? = some (.area a) := by
  obtain ⟨v, hv, harea⟩ := List.mem_filterMap.1 ha
  cases v with
  | area b =>
    cases harea
    exact List.mem_iff_getElem?.1 hv
  | _ => cases harea

/-- Every placemark gets one verdict, by which it is an area, an issue or the launch point, and the
areas and issues are listed in the order of the placemarks. Areas have distinct names, and of the
placemarks with one name the first with a usable coordinate becomes the area: those before it are
reported without coordinates, those after it as duplicates. -/
theorem collect_accounts (ps : List Placemark) :
    ∃ vs : List Verdict, vs.length = ps.length ∧
      (∀ (i : ℕ) (p : Placemark), ps[i]? = some p → ∃ v, vs[i]? = some v ∧ p.Becomes (ps.take i) v) ∧
      (collect ps).areas = vs.filterMap Verdict.area? ∧
      (collect ps).issues = vs.filterMap Verdict.issue? ∧
      ps.length = (collect ps).areas.length + (collect ps).issues.length +
        (ps.filter fun p => p.name = some takeoffName).length ∧
      ((collect ps).areas.map Area.name).Nodup ∧
      (∀ a ∈ (collect ps).areas, a.Sound ∧ ∃ i : ℕ, vs[i]? = some (.area a) ∧ Source ps vs i a) ∧
      ∀ name, (∃ a ∈ (collect ps).areas, a.name = name) ↔
        Nameable name ∧ ∃ p ∈ ps, p.name = some name ∧ p.Usable := by
  obtain ⟨vs, htally, hareas, hissues⟩ := exists_tally ps
  refine ⟨vs, htally.length_eq, fun i p => htally.becomes, hareas, hissues, ?_,
    (wellFormed_collect ps).names, ?_, fun name => ?_⟩
  · rw [hareas, hissues]
    exact htally.length_eq_add
  · intro a ha
    rw [hareas] at ha
    obtain ⟨i, hi⟩ := exists_place_of_mem ha
    obtain ⟨p, -, hbecomes⟩ := htally.exists_placemark hi
    exact ⟨hbecomes.sound, i, hi, htally.source hi⟩
  · rw [hareas]
    exact htally.exists_area_iff

end Placemark
end Sortie
