import Sortie.Proofs.Placemark.Tree

/-! Two spellings of an element without content: one tag that closes itself, or an opening tag and a
closing tag. They read the same, except for placemarks, and for names and coordinates within a name
or within coordinates. -/
namespace Sortie.Placemark
open Markup (localName)

/-- The elements whose text goes to a field of a placemark. -/
def isFieldTag (tag : String) : Bool := localName tag = "name" || localName tag = "coordinates"

lemma isFieldTag_iff {tag : String} :
    isFieldTag tag ↔ localName tag = "name" ∨ localName tag = "coordinates" := by
  simp [isFieldTag]

/-- Whether a name or coordinates have been opened since such an element was last closed. -/
def withinField (within : Bool) : Markup.Event → Bool
  | .opening tag => within || isFieldTag tag
  | .closing tag => within && !isFieldTag tag
  | _ => within

/-- The spelling of an element without content does not matter: it is not a placemark, and it is a
name or coordinates only outside of such elements. -/
def Neutral (within : Bool) (tag : String) : Prop :=
  localName tag ≠ "Placemark" ∧ (isFieldTag tag → within = false)

/-- The same events, but for the spelling of neutral elements without content. -/
inductive Respelled : Bool → List Markup.Event → List Markup.Event → Prop
  | nil {within} : Respelled within [] []
  | same {within e es fs} (rest : Respelled (withinField within e) es fs) :
      Respelled within (e :: es) (e :: fs)
  | parted {within tag es fs} (neutral : Neutral within tag) (rest : Respelled within es fs) :
      Respelled within (.empty tag :: es) (.opening tag :: .closing tag :: fs)
  | joined {within tag es fs} (neutral : Neutral within tag) (rest : Respelled within es fs) :
      Respelled within (.opening tag :: .closing tag :: es) (.empty tag :: fs)

/-! What an opening tag does with the closing tag right after it. -/

namespace Progress
variable {tag : String} {depth : ℕ} {current : Option (ℕ × Placemark)} {field : Option Field}
  {found : List Placemark}

/-- Only a placemark changes more than the depth and the field. -/
lemma exists_opening (h : localName tag ≠ "Placemark") :
    ∃ f, opening ⟨depth, current, field, found⟩ tag = ⟨depth + 1, current, f, found⟩ ∧
      (isFieldTag tag = false → f = field) := by
  unfold opening
  split
  · contradiction
  · rename_i hname hcurrent
    cases hcurrent
    dsimp only
    split
    · exact ⟨some .name, rfl, fun hplain => by simp [isFieldTag, hname] at hplain⟩
    · exact ⟨field, rfl, fun _ => rfl⟩
  · rename_i hcoordinates _
    exact ⟨some .coordinates, rfl, fun hplain => by simp [isFieldTag, hcoordinates] at hplain⟩
  · exact ⟨field, rfl, fun _ => rfl⟩

lemma closing_plain (h : localName tag ≠ "Placemark") (hplain : isFieldTag tag = false) :
    closing ⟨depth + 1, current, field, found⟩ tag = ⟨depth, current, field, found⟩ := by
  unfold closing
  split <;> simp_all [isFieldTag]

/-- A name or coordinates without content leave no field open. -/
lemma closing_opening_field (s : Progress) (h : isFieldTag tag) :
    (s.opening tag).closing tag = { s with field := none } := by
  have htag := isFieldTag_iff.1 h
  have hplacemark : localName tag ≠ "Placemark" := by
    rcases htag with htag | htag <;> simp [htag]
  obtain ⟨depth, current, field, found⟩ := s
  obtain ⟨f, hopening, -⟩ := exists_opening hplacemark
  rw [hopening, closing_field htag]

lemma closing_opening_plain (s : Progress) (h : localName tag ≠ "Placemark")
    (hplain : isFieldTag tag = false) : (s.opening tag).closing tag = s := by
  obtain ⟨depth, current, field, found⟩ := s
  obtain ⟨f, hopening, hf⟩ := exists_opening h
  rw [hopening, closing_plain h hplain, hf hplain]

/-- A placemark without content ends the placemark that is being read, or else is one itself. -/
lemma closing_opening_placemark (s : Progress) (h : localName tag = "Placemark") :
    (s.opening tag).closing tag =
      { s with current := none, found := s.found ++ [(s.current.map Prod.snd).getD blank] } := by
  obtain ⟨depth, current, field, found⟩ := s
  cases current with
  | none => rw [opening_placemark h, closing_placemark h]; rfl
  | some dp =>
    obtain ⟨d, p⟩ := dp
    rw [opening_inside (by simp [h]) (by simp [h]), closing_placemark h]
    rfl

lemma closing_opening_eq_self {s : Progress} (h : localName tag ≠ "Placemark")
    (hfield : isFieldTag tag → s.field = none) : (s.opening tag).closing tag = s := by
  cases htag : isFieldTag tag with
  | false => exact closing_opening_plain s h htag
  | true => rw [closing_opening_field s htag, ← hfield htag]

/-! Where a field is open. -/

lemma field_opening (s : Progress) (hplain : isFieldTag tag = false) :
    (s.opening tag).field = s.field := by
  unfold opening
  split <;> simp_all [isFieldTag]

lemma field_closing (s : Progress) :
    (s.closing tag).field = if isFieldTag tag then none else s.field := by
  unfold closing
  split <;> simp_all [isFieldTag]

lemma field_of_piece {s t : Progress} {r : Except DocumentFault String} (h : s.piece r = .ok t) :
    t.field = s.field := by
  unfold piece at h
  split at h
  · cases r with
    | error e => cases h
    | ok text => cases h; simp_all
  · cases h; rfl

/-- A field is open only within a name or within coordinates. -/
lemma field_of_step {s t : Progress} {e : Markup.Event} (h : s.step e = .ok t) {within : Bool}
    (hfield : within = false → s.field = none) (hwithin : withinField within e = false) :
    t.field = none := by
  cases e with
  | opening tag =>
    cases h
    obtain ⟨hwithin, hplain⟩ := Bool.or_eq_false_iff.1 hwithin
    rw [field_opening s hplain, hfield hwithin]
  | closing tag =>
    cases h
    rw [field_closing]
    cases htag : isFieldTag tag with
    | true => rfl
    | false => exact hfield (by simpa [withinField, htag] using hwithin)
  | empty tag =>
    cases h
    exact hfield hwithin
  | text raw => rw [field_of_piece h, hfield hwithin]
  | literal raw => rw [field_of_piece h, hfield hwithin]

lemma field_of_foldlM {s t : Progress} {es : List Markup.Event} {within : Bool}
    (hfield : within = false → s.field = none) (h : es.foldlM step s = .ok t)
    (hwithin : es.foldl withinField within = false) :
    t.field = none := by
  induction es generalizing s within with
  | nil =>
    cases h
    exact hfield hwithin
  | cons e es ih =>
    rw [List.foldlM_cons] at h
    cases hstep : s.step e with
    | error fault =>
      rw [hstep] at h
      cases h
    | ok u =>
      rw [hstep] at h
      exact ih (field_of_step hstep hfield) h hwithin

end Progress

/-! Documents that differ in spelling. -/

lemma Neutral.closing_opening {within : Bool} {tag : String} (h : Neutral within tag) {s : Progress}
    (hfield : within = false → s.field = none) : (s.opening tag).closing tag = s :=
  Progress.closing_opening_eq_self h.1 fun htag => hfield (h.2 htag)

lemma Respelled.foldlM_step {within : Bool} {es fs : List Markup.Event} (h : Respelled within es fs)
    {s : Progress} (hfield : within = false → s.field = none) :
    es.foldlM Progress.step s = fs.foldlM Progress.step s := by
  induction h generalizing s with
  | nil => rfl
  | @same within e es fs _ ih =>
    rw [List.foldlM_cons, List.foldlM_cons]
    cases hstep : s.step e with
    | error fault => rfl
    | ok t => exact ih (Progress.field_of_step hstep hfield)
  | @parted within tag es fs neutral _ ih =>
    change es.foldlM Progress.step s = fs.foldlM Progress.step ((s.opening tag).closing tag)
    rw [neutral.closing_opening hfield, ih hfield]
  | @joined within tag es fs neutral _ ih =>
    change es.foldlM Progress.step ((s.opening tag).closing tag) = fs.foldlM Progress.step s
    rw [neutral.closing_opening hfield, ih hfield]

/-- Documents with the same beginning. -/
lemma ofStream_append_congr {before es fs : List Markup.Event}
    {fault : Option (ℕ × Markup.Fault)}
    (h : ∀ s, before.foldlM Progress.step .initial = .ok s →
      es.foldlM Progress.step s = fs.foldlM Progress.step s) :
    ofStream ⟨before ++ es, fault⟩ = ofStream ⟨before ++ fs, fault⟩ := by
  have hrun : (before ++ es).foldlM Progress.step .initial =
      (before ++ fs).foldlM Progress.step .initial := by
    rw [List.foldlM_append, List.foldlM_append]
    cases hbefore : before.foldlM Progress.step .initial with
    | error e => rfl
    | ok s => exact h s hbefore
  unfold ofStream
  rw [hrun]

/-! What can follow to tell two spellings apart. -/

section Separation
variable {before es : List Markup.Event} {s : Progress} {tag : String}

lemma foldlM_after (h : before.foldlM Progress.step .initial = .ok s) :
    (before ++ es).foldlM Progress.step .initial = es.foldlM Progress.step s := by
  rw [List.foldlM_append, h]
  rfl

lemma ofStream_of_foldlM (h : es.foldlM Progress.step .initial = .ok s) :
    ofStream ⟨es, none⟩ = if s.current.isSome then .error .unterminated else .ok s.found := by
  unfold ofStream
  rw [h]
  obtain ⟨depth, current, field, found⟩ := s
  cases current <;> rfl

lemma append_ne (p : Placemark) (field : Field) : p.append field "" ≠ p := by
  have hjoin : ∀ slot : Option String, joinPiece slot "" ≠ slot := by
    intro slot h
    cases slot with
    | none => cases h
    | some text =>
      have hlength := congrArg String.length (Option.some.inj h)
      have hblank : " ".length = 1 := rfl
      rw [String.length_append, String.length_append] at hlength
      omega
  intro h
  cases field with
  | name => exact hjoin p.name (congrArg Placemark.name h)
  | coordinates => exact hjoin p.coordinates (congrArg Placemark.coordinates h)

/-- Text and the end of a placemark show whether a field is open. -/
lemma exists_separation {field : Field} (hfield : s.field = some field) :
    ∃ (later : List Markup.Event) (t u : Progress), later.foldlM Progress.step s = .ok t ∧
      later.foldlM Progress.step { s with field := none } = .ok u ∧
      t.current = none ∧ u.current = none ∧ t.found ≠ u.found := by
  obtain ⟨depth, current, _, found⟩ := s
  cases hfield
  cases current with
  | none =>
    refine ⟨[.opening "Placemark", .literal "", .closing "Placemark"], _, _, rfl, rfl, rfl, rfl, ?_⟩
    intro h
    change found ++ [blank.append field ""] = found ++ [blank] at h
    exact append_ne blank field (by simpa using h)
  | some dp =>
    obtain ⟨d, p⟩ := dp
    refine ⟨[.literal "", .closing "Placemark"], _, _, rfl, rfl, rfl, rfl, ?_⟩
    intro h
    change found ++ [p.append field ""] = found ++ [p] at h
    exact append_ne p field (by simpa using h)

/-- At a place where a spelling does not matter whatever follows, the element is no placemark, and a
name or coordinates only where no field is open. -/
lemma neutral_of_forall (h : before.foldlM Progress.step .initial = .ok s)
    (hsame : ∀ later : List Markup.Event, ofStream ⟨before ++ .empty tag :: later, none⟩ =
      ofStream ⟨before ++ .opening tag :: .closing tag :: later, none⟩) :
    localName tag ≠ "Placemark" ∧ (isFieldTag tag → s.field = none) := by
  constructor
  · intro htag
    have hshort : (before ++ [Markup.Event.empty tag]).foldlM Progress.step .initial = .ok s :=
      foldlM_after h
    have hlong : (before ++ [Markup.Event.opening tag, .closing tag]).foldlM Progress.step .initial =
        .ok ((s.opening tag).closing tag) := foldlM_after h
    have hnow := hsame []
    rw [ofStream_of_foldlM hshort, ofStream_of_foldlM hlong,
      Progress.closing_opening_placemark s htag] at hnow
    cases hcurrent : s.current <;> simp [hcurrent] at hnow
  · intro htag
    cases hfield : s.field with
    | none => rfl
    | some field =>
      obtain ⟨later, t, u, ht, hu, htcurrent, hucurrent, hne⟩ := exists_separation hfield
      rw [← Progress.closing_opening_field s htag] at hu
      have hshort : (before ++ .empty tag :: later).foldlM Progress.step .initial = .ok t := by
        rw [foldlM_after h]
        exact ht
      have hlong : (before ++ .opening tag :: .closing tag :: later).foldlM Progress.step .initial =
          .ok u := by
        rw [foldlM_after h]
        exact hu
      have hnow := hsame later
      rw [ofStream_of_foldlM hshort, ofStream_of_foldlM hlong, htcurrent, hucurrent] at hnow
      exact absurd (Except.ok.inj hnow) hne

end Separation

/-- At each place of a document, the spelling of an element without content does not matter, whatever
follows, if and only if the element is no placemark, and a name or coordinates only where no field is
open. From each place on, any number of elements can be respelled that are no placemarks, and a name
or coordinates only outside of such elements: the placemarks, or the fault, stay the same. -/
theorem ofStream_spelling_iff (before : List Markup.Event) (tag : String) :
    ((∀ later fault, ofStream ⟨before ++ .empty tag :: later, fault⟩ =
        ofStream ⟨before ++ .opening tag :: .closing tag :: later, fault⟩) ↔
      ∀ s, before.foldlM Progress.step .initial = .ok s →
        localName tag ≠ "Placemark" ∧ (isFieldTag tag → s.field = none)) ∧
    ∀ es fs fault, Respelled (before.foldl withinField false) es fs →
      ofStream ⟨before ++ es, fault⟩ = ofStream ⟨before ++ fs, fault⟩ ∧
      ∀ x y, Markup.scan x = ⟨before ++ es, fault⟩ → Markup.scan y = ⟨before ++ fs, fault⟩ →
        read x = read y := by
  refine ⟨⟨?_, ?_⟩, ?_⟩
  · intro hsame s hs
    exact neutral_of_forall hs fun later => hsame later none
  · intro hneutral later fault
    apply ofStream_append_congr
    intro s hs
    obtain ⟨hplacemark, hfield⟩ := hneutral s hs
    change later.foldlM Progress.step s = later.foldlM Progress.step ((s.opening tag).closing tag)
    rw [Progress.closing_opening_eq_self hplacemark hfield]
  · intro es fs fault h
    have hsame : ofStream ⟨before ++ es, fault⟩ = ofStream ⟨before ++ fs, fault⟩ := by
      apply ofStream_append_congr
      intro s hs
      exact h.foldlM_step (Progress.field_of_foldlM (fun _ => rfl) hs)
    refine ⟨hsame, ?_⟩
    intro x y hx hy
    unfold read
    rw [hx, hy, hsame]

/-- Elements without content around, beneath and within the name of a placemark. -/
def shortDocument : String :=
  "<k:Folder/><Placemark><name/><name>a<b/>c</name><coordinates></coordinates></Placemark>"

def longDocument : String :=
  "<k:Folder></k:Folder><Placemark><name></name><name>a<b></b>c</name><coordinates/></Placemark>"

theorem read_shortDocument :
    Respelled false (Markup.scan shortDocument).events (Markup.scan longDocument).events ∧
      read shortDocument = read longDocument ∧
      (read longDocument).result.toOption = some [⟨some "a c", none⟩] := by
  have hshort : Markup.scan shortDocument = ⟨[.empty "k:Folder", .opening "Placemark", .empty "name",
      .opening "name", .text "a", .empty "b", .text "c", .closing "name", .opening "coordinates",
      .closing "coordinates", .closing "Placemark"], none⟩ := by decide +kernel
  have hlong : Markup.scan longDocument = ⟨[.opening "k:Folder", .closing "k:Folder",
      .opening "Placemark", .opening "name", .closing "name", .opening "name", .text "a",
      .opening "b", .closing "b", .text "c", .closing "name", .empty "coordinates",
      .closing "Placemark"], none⟩ := by decide +kernel
  have h : Respelled false (Markup.scan shortDocument).events (Markup.scan longDocument).events := by
    rw [hshort, hlong]
    refine .parted ⟨by decide, by decide⟩ (.same (.parted ⟨by decide, by decide⟩ (.same (.same ?_))))
    refine .parted ⟨by decide, by decide⟩ (.same (.same (.joined ⟨by decide, by decide⟩ ?_)))
    exact .same .nil
  have hsame := (ofStream_spelling_iff [] "b").2 _ _ none h
  exact ⟨h, hsame.2 _ _ (by rw [hshort]; rfl) (by rw [hlong]; rfl), by decide +kernel⟩

/-- The spelling matters for a placemark, outside and within another, and for a name or coordinates
within such an element. -/
theorem read_differs_by_spelling :
    ((read "<Placemark/>").result.toOption = some [] ∧
      (read "<Placemark></Placemark>").result.toOption = some [⟨none, none⟩]) ∧
    ((read "<Placemark><Placemark/><name>a</name></Placemark>").result.toOption =
        some [⟨some "a", none⟩] ∧
      (read "<Placemark><Placemark></Placemark><name>a</name></Placemark>").result.toOption =
        some [⟨none, none⟩]) ∧
    ((read "<Placemark><coordinates>1,2<name/>3,4</coordinates></Placemark>").result.toOption =
        some [⟨none, some "1,2 3,4"⟩] ∧
      (read "<Placemark><coordinates>1,2<name></name>3,4</coordinates></Placemark>").result.toOption =
        some [⟨none, some "1,2"⟩]) ∧
    ((read "<Placemark><name>a<coordinates/>b</name></Placemark>").result.toOption =
        some [⟨some "a b", none⟩] ∧
      (read "<Placemark><name>a<coordinates></coordinates>b</name></Placemark>").result.toOption =
        some [⟨some "a", none⟩]) := by
  decide +kernel

end Sortie.Placemark
