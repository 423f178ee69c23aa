import Sortie.Program.Python
import Sortie.Proofs.Decimal.Longest
import Sortie.Proofs.Decimal.ReadBack

/-! Literals end by themselves: from the text of a value and whatever stands behind it the value can
be read off, and where it ends. So neither a string nor a number can be taken for something else. -/
namespace Sortie

/-- A way of writing things whose texts end by themselves. From a text and what follows it, the view
of what was written is known, and so is the rest. -/
def Delimited {α β : Type} (P : α → Prop) (view : α → β) (write : α → List Char) : Prop :=
  ∀ ⦃a b : α⦄, P a → P b → ∀ ⦃r s : List Char⦄, write a ++ r = write b ++ s →
    view a = view b ∧ r = s

namespace Delimited
variable {α β : Type} {P : α → Prop} {view : α → β} {write : α → List Char}

/-- Things written one after the other, up to a mark that none of them begins with. -/
lemma flatMap_append_inj (h : Delimited P view write) {stop : List Char}
    (hstop : ∀ a, P a → ∀ r s, write a ++ r ≠ stop ++ s) {l l' : List α} (hl : ∀ a ∈ l, P a)
    (hl' : ∀ a ∈ l', P a) {r s : List Char}
    (heq : l.flatMap write ++ (stop ++ r) = l'.flatMap write ++ (stop ++ s)) :
    l.map view = l'.map view ∧ r = s := by
  -- At each place the mark tells on both sides whether another thing follows.
  induction l generalizing l' with
  | nil =>
    cases l' with
    | nil => exact ⟨rfl, List.append_cancel_left heq⟩
    | cons b l' =>
      simp only [List.flatMap_nil, List.nil_append, List.flatMap_cons, List.append_assoc] at heq
      exact absurd heq.symm (hstop b (hl' b (by simp)) _ _)
  | cons a l ih =>
    cases l' with
    | nil =>
      simp only [List.flatMap_nil, List.nil_append, List.flatMap_cons, List.append_assoc] at heq
      exact absurd heq (hstop a (hl a (by simp)) _ _)
    | cons b l' =>
      simp only [List.flatMap_cons, List.append_assoc] at heq
      obtain ⟨hab, hrest⟩ := h (hl a (by simp)) (hl' b (by simp)) heq
      obtain ⟨htail, hrs⟩ := ih (fun x hx => hl x (List.mem_cons_of_mem a hx))
        (fun x hx => hl' x (List.mem_cons_of_mem b hx)) hrest
      exact ⟨by rw [List.map_cons, List.map_cons, hab, htail], hrs⟩

end Delimited

/-- A text that stops where its characters change is known, and so is the rest. -/
lemma append_inj_of_head {p : Char → Bool} {a b r s : List Char} (ha : ∀ c ∈ a, p c = true)
    (hb : ∀ c ∈ b, p c = true) (hr : r.head?.map p = some false) (hs : s.head?.map p = some false)
    (h : a ++ r = b ++ s) : a = b ∧ r = s := by
  have hnil : ∀ {t : List Char}, t.head?.map p = some false → t.takeWhile p = [] := by
    intro t ht
    cases t with
    | nil => rfl
    | cons c cs => exact List.takeWhile_cons_of_neg (by simpa using ht)
  have htake := congrArg (List.takeWhile p) h
  rw [List.takeWhile_append_of_pos ha, List.takeWhile_append_of_pos hb, hnil hr, hnil hs,
    List.append_nil, List.append_nil] at htake
  subst htake
  exact ⟨rfl, List.append_cancel_left h⟩

namespace Python

/-- The number below sixteen that a digit stands for. -/
def hexValue (c : Char) : ℕ := if c.isDigit then c.toNat - 48 else c.toNat - 87

lemma hexValue_hexDigit (n : ℕ) : hexValue (hexDigit n) = n % 16 := by
  have key : ∀ i : Fin 16, hexValue (Nat.digitChar i) = i := by decide
  exact key ⟨n % 16, Nat.mod_lt _ (by norm_num)⟩

/-- Reads one character of a string literal. -/
def unescape : List Char → Char × List Char
  | '\\' :: 'n' :: rest => ('\n', rest)
  | '\\' :: 'r' :: rest => ('\r', rest)
  | '\\' :: 't' :: rest => ('\t', rest)
  | '\\' :: 'x' :: high :: low :: rest =>
    (Char.ofNat (16 * hexValue high + hexValue low), rest)
  | '\\' :: c :: rest => (c, rest)
  | c :: rest => (c, rest)
  | [] => (' ', [])

lemma unescape_escapeChar (c : Char) (rest : List Char) :
    unescape (escapeChar c ++ rest) = (c, rest) := by
  unfold escapeChar
  split_ifs with hquote hback hnewline hreturn htab hcontrol
  · rw [hquote]
    rfl
  · rw [hback]
    rfl
  · rw [hnewline]
    rfl
  · rw [hreturn]
    rfl
  · rw [htab]
    rfl
  · have hvalue :
        16 * hexValue (hexDigit (c.toNat / 16)) + hexValue (hexDigit c.toNat) = c.toNat := by
      rw [hexValue_hexDigit, hexValue_hexDigit]
      omega
    change (Char.ofNat _, rest) = _
    rw [hvalue, Char.ofNat_toNat]
  · unfold unescape
    simp [hback]

lemma delimited_escapeChar : Delimited (fun _ => True) id escapeChar := by
  intro c d _ _ r s h
  have := congrArg unescape h
  rw [unescape_escapeChar, unescape_escapeChar, Prod.mk.injEq] at this
  exact this

lemma escapeChar_append_ne (c : Char) (r s : List Char) : escapeChar c ++ r ≠ ['"'] ++ s := by
  unfold escapeChar
  split_ifs <;> simp [*]

/-- A string literal ends at the first quote that is not escaped. -/
lemma delimited_string : Delimited (fun _ => True) id (fun s : String => (string s).toList) := by
  intro a b _ _ r s h
  simp only [string, stringChars, String.toList_ofList, List.cons_append, List.cons.injEq,
    true_and, List.append_assoc] at h
  obtain ⟨hab, hrs⟩ := delimited_escapeChar.flatMap_append_inj (fun c _ => escapeChar_append_ne c)
    (fun _ _ => trivial) (fun _ _ => trivial) h
  rw [List.map_id, List.map_id] at hab
  exact ⟨String.toList_injective hab, hrs⟩

section Float
open Decimal
variable {v w : Float} {negative : Bool} {mantissa : ℕ} {exponent : ℤ}

lemma float_of_finite (hv : Binary.ofFloat v = .finite negative mantissa exponent) :
    (float v).toList = (Layout.literalNumeral negative mantissa exponent).text := by
  unfold float
  rw [hv, Layout.text_literalNumeral]
  exact String.toList_ofList

lemma isNumeralChar_of_finite (hv : Binary.ofFloat v = .finite negative mantissa exponent) :
    ∀ c ∈ (float v).toList, isNumeralChar c = true := by
  rw [float_of_finite hv]
  exact isNumeralChar_of_mem_text
    (Layout.wellFormed_literalNumeral negative mantissa exponent).shaped

/-- A float without a literal is a call, which begins with a letter. -/
lemma float_cases (v : Float) :
    (∃ negative mantissa exponent, Binary.ofFloat v = .finite negative mantissa exponent) ∨
      (Binary.ofFloat v = .nan ∧ float v = "float(\"nan\")") ∨
      (Binary.ofFloat v = .infinite true ∧ float v = "float(\"-inf\")") ∨
      (Binary.ofFloat v = .infinite false ∧ float v = "float(\"inf\")") := by
  unfold float
  rcases Binary.ofFloat v with - | negative | ⟨negative, mantissa, exponent⟩
  · simp
  · cases negative <;> simp
  · exact Or.inl ⟨negative, mantissa, exponent, rfl⟩

lemma not_call_of_finite (hv : Binary.ofFloat v = .finite negative mantissa exponent) {s : String}
    (hs : 'f' ∈ s.toList) : float v ≠ s := by
  rintro rfl
  cases isNumeralChar_of_finite hv 'f' hs

lemma float_injective : Function.Injective float := by
  intro v w h
  rcases float_cases v with ⟨n, m, e, hv⟩ | hv | hv | hv
  · rcases float_cases w with ⟨n', m', e', hw⟩ | hw | hw | hw
    · have htext := congrArg String.toList h
      rw [float_of_finite hv, float_of_finite hw] at htext
      have hscan := congrArg Numeral.scan htext
      rw [Numeral.scan_text (Layout.wellFormed_literalNumeral n m e),
        Numeral.scan_text (Layout.wellFormed_literalNumeral n' m' e'), Prod.mk.injEq] at hscan
      rw [← Layout.toFloat_literalNumeral hv, ← Layout.toFloat_literalNumeral hw, hscan.1]
    all_goals exact absurd (h.trans hw.2) (not_call_of_finite hv (by decide))
  all_goals
    rcases float_cases w with ⟨n', m', e', hw⟩ | hw | hw | hw
    · exact absurd (h.symm.trans hv.2) (not_call_of_finite hw (by decide))
    all_goals
      first
      | exact ofFloat_injective (hv.1.trans hw.1.symm)
      | exact absurd (hv.2.symm.trans (h.trans hw.2)) (by decide)

/-- Neither a comma nor a brace stands in a float. -/
def isFloatChar (c : Char) : Bool := c != ',' && c != '\x7d'

lemma isFloatChar_of_mem_float : ∀ c ∈ (float v).toList, isFloatChar c = true := by
  rcases float_cases v with ⟨n, m, e, hv⟩ | hv | hv | hv
  · intro c hc
    have hchar := isNumeralChar_of_finite hv c hc
    unfold isFloatChar
    rw [Bool.and_eq_true, bne_iff_ne, bne_iff_ne]
    constructor
    · rintro rfl
      cases hchar
    · rintro rfl
      cases hchar
  all_goals
    rw [hv.2]
    simp [isFloatChar]

/-- A float literal is not a row of digits. -/
lemma exists_not_digit_mem_float (v : Float) : ∃ c ∈ (float v).toList, c.isDigit = false := by
  rcases float_cases v with ⟨n, m, e, hv⟩ | hv | hv | hv
  · rw [float_of_finite hv, Numeral.text_eq]
    rcases Layout.literalNumeral_not_integer n m e with h | h
    · obtain ⟨ds, hds⟩ := Option.ne_none_iff_exists'.1 h
      exact ⟨'.', by simp [hds, fractionChars], rfl⟩
    · obtain ⟨⟨mark, sign, ds⟩, hds⟩ := Option.ne_none_iff_exists'.1 h
      obtain ⟨rfl | rfl, -⟩ := (Layout.wellFormed_literalNumeral n m e).exponent _ _ _ hds
      · exact ⟨'e', by simp [hds, exponentChars], rfl⟩
      · exact ⟨'E', by simp [hds, exponentChars], rfl⟩
  all_goals
    rw [hv.2]
    exact ⟨'f', by decide, rfl⟩

lemma head_float (v : Float) :
    ∃ c cs, (float v).toList = c :: cs ∧ c ≠ '"' ∧ c ≠ 'N' ∧ c ≠ '[' := by
  obtain ⟨d, hd, -⟩ := exists_not_digit_mem_float v
  obtain ⟨c, cs, hcs⟩ := List.exists_cons_of_ne_nil (List.ne_nil_of_mem hd)
  refine ⟨c, cs, hcs, ?_⟩
  rcases float_cases v with ⟨n, m, e, hv⟩ | hv | hv | hv
  · have hchar := isNumeralChar_of_finite hv c (by simp [hcs])
    refine ⟨?_, ?_, ?_⟩
    all_goals
      rintro rfl
      cases hchar
  all_goals
    rw [hv.2] at hcs
    cases hcs
    decide

end Float

lemma float_append_inj {v w : Float} {r s : List Char} (hr : r.head?.map isFloatChar = some false)
    (hs : s.head?.map isFloatChar = some false)
    (h : (float v).toList ++ r = (float w).toList ++ s) : v = w ∧ r = s := by
  obtain ⟨htext, hrest⟩ :=
    append_inj_of_head isFloatChar_of_mem_float isFloatChar_of_mem_float hr hs h
  exact ⟨float_injective (String.toList_injective htext), hrest⟩

lemma toList_toString (n : ℕ) : (toString n).toList = Nat.toDigits 10 n := by
  rw [Nat.toString_eq_ofList_toDigits, String.toList_ofList]

lemma isDigit_of_mem_toString {n : ℕ} : ∀ c ∈ (toString n).toList, c.isDigit = true := by
  intro c hc
  rw [toList_toString] at hc
  exact Nat.isDigit_of_mem_toDigits (by norm_num) (by norm_num) hc

lemma toList_toString_cases (n : ℕ) :
    ∃ d ds, (toString n).toList = d :: ds ∧ ∀ c ∈ d :: ds, c.isDigit = true := by
  have hne : (toString n).toList ≠ [] := by
    rw [toList_toString]
    exact Nat.toDigits_ne_nil
  obtain ⟨d, ds, hds⟩ := List.exists_cons_of_ne_nil hne
  exact ⟨d, ds, hds, hds ▸ isDigit_of_mem_toString⟩

lemma toString_append_inj {m n : ℕ} {r s : List Char} (hr : r.head?.map Char.isDigit = some false)
    (hs : s.head?.map Char.isDigit = some false)
    (h : (toString m).toList ++ r = (toString n).toList ++ s) : m = n ∧ r = s := by
  obtain ⟨htext, hrest⟩ :=
    append_inj_of_head isDigit_of_mem_toString isDigit_of_mem_toString hr hs h
  rw [toList_toString, toList_toString] at htext
  have hvalue := congrArg (Nat.ofDigitChars 10 · 0) htext
  simp only [Nat.ofDigitChars_ten_toDigits] at hvalue
  exact ⟨hvalue, hrest⟩

end Python

lemma Point.delimited_python : Delimited (fun _ => True) id (fun p : Point => p.python.toList) := by
  intro p q _ _ r s h
  simp only at h
  unfold Point.python at h
  simp only [String.toList_append, List.append_assoc, List.append_cancel_left_eq] at h
  obtain ⟨hlongitude, h₁⟩ :=
    Python.float_append_inj (by simp [Python.isFloatChar]) (by simp [Python.isFloatChar]) h
  obtain ⟨hlatitude, h₂⟩ := Python.float_append_inj (by simp [Python.isFloatChar])
    (by simp [Python.isFloatChar]) (List.append_cancel_left h₁)
  obtain ⟨haltitude, h₃⟩ := Python.float_append_inj (by simp [Python.isFloatChar])
    (by simp [Python.isFloatChar]) (List.append_cancel_left h₂)
  refine ⟨?_, List.append_cancel_left h₃⟩
  obtain ⟨longitude, latitude, altitude⟩ := p
  obtain ⟨longitude', latitude', altitude'⟩ := q
  cases hlongitude
  cases hlatitude
  cases haltitude
  rfl

namespace Value

lemma toList_intercalate_newline (t : String) (l : List String) :
    (String.intercalate "\n" (t :: l)).toList =
      t.toList ++ l.flatMap fun x => '\n' :: x.toList := by
  induction l generalizing t with
  | nil => simp
  | cons u l ih =>
    rw [String.intercalate_cons_cons, String.toList_append, ih]
    simp

/-- A point on a line of its own. -/
def pointLine (p : Point) : List Char := "\n            ".toList ++ (p.python.toList ++ [','])

lemma toList_python_points (p : Point) (ps : List Point) :
    (points (p :: ps)).python.toList =
      '[' :: ((p :: ps).flatMap pointLine ++ "\n        ]".toList) := by
  have hline : ∀ a : Point, '\n' :: ("            " ++ a.python ++ ",").toList = pointLine a := by
    intro a
    unfold pointLine
    rw [String.toList_append, String.toList_append, List.append_assoc]
    rfl
  unfold python pythonLines
  rw [String.intercalate_append_of_ne_nil (by simp) (by simp), String.toList_append,
    String.toList_append, toList_intercalate_newline, String.intercalate_singleton,
    List.flatMap_map]
  simp only [hline]
  rw [List.append_assoc, List.append_assoc]
  rfl

lemma delimited_pointLine : Delimited (fun _ => True) id pointLine := by
  intro p q _ _ r s h
  unfold pointLine at h
  simp only [List.append_assoc, List.append_cancel_left_eq] at h
  obtain ⟨hpq, h⟩ := Point.delimited_python trivial trivial h
  exact ⟨hpq, List.append_cancel_left h⟩

lemma pointLine_append_ne (p : Point) (r s : List Char) :
    pointLine p ++ r ≠ "\n        ]".toList ++ s := by
  unfold pointLine
  simp

/-- The kinds of literals that the first characters tell apart. -/
inductive Form where
  | text
  | null
  | empty
  | points
  | colour
  | int
  | float
  deriving DecidableEq

/-- The form of the literal that a text begins with; a comma stands behind the literal. -/
def Form.read : List Char → Form
  | '"' :: _ => .text
  | 'N' :: _ => .null
  | '[' :: ']' :: _ => .empty
  | '[' :: '\n' :: _ => .points
  | '[' :: _ => .colour
  | cs => if (cs.takeWhile (· != ',')).all Char.isDigit then .int else .float

def form : Value → Form
  | .float _ => .float
  | .int _ => .int
  | .str _ => .text
  | .points [] => .empty
  | .points (_ :: _) => .points
  | .colour _ => .colour
  | .null => .null

/-- What begins like no text, list or name is a number, and an integer if all of it is digits. -/
lemma read_bare {t : List Char} (hhead : ∃ c cs, t = c :: cs ∧ c ≠ '"' ∧ c ≠ 'N' ∧ c ≠ '[')
    (hcomma : ∀ c ∈ t, (c != ',') = true) (rest : List Char) :
    Form.read (t ++ ',' :: rest) = if t.all Char.isDigit then .int else .float := by
  have htake : (t ++ ',' :: rest).takeWhile (· != ',') = t := by
    rw [List.takeWhile_append_of_pos hcomma, List.takeWhile_cons_of_neg (by simp), List.append_nil]
  obtain ⟨c, cs, rfl, hquote, hnull, hlist⟩ := hhead
  unfold Form.read
  split
  all_goals simp_all

lemma read_float (v : Float) (rest : List Char) :
    Form.read ((Python.float v).toList ++ ',' :: rest) = .float := by
  have hcomma : ∀ c ∈ (Python.float v).toList, (c != ',') = true := by
    intro c hc
    have := Python.isFloatChar_of_mem_float c hc
    unfold Python.isFloatChar at this
    exact (Bool.and_eq_true_iff.1 this).1
  rw [read_bare (Python.head_float v) hcomma, if_neg]
  obtain ⟨c, hc, hdigit⟩ := Python.exists_not_digit_mem_float v
  intro hall
  rw [List.all_eq_true] at hall
  exact absurd (hall c hc) (by simp [hdigit])

lemma read_int (n : ℕ) (rest : List Char) :
    Form.read ((toString n).toList ++ ',' :: rest) = .int := by
  obtain ⟨d, ds, htext, hdigits⟩ := Python.toList_toString_cases n
  have hne : ∀ c ∈ d :: ds, ∀ x : Char, x.isDigit = false → c ≠ x := by
    rintro c hc x hx rfl
    rw [hdigits c hc] at hx
    cases hx
  have hhead : d ≠ '"' ∧ d ≠ 'N' ∧ d ≠ '[' :=
    ⟨hne d (by simp) _ rfl, hne d (by simp) _ rfl, hne d (by simp) _ rfl⟩
  rw [htext, read_bare ⟨d, ds, rfl, hhead⟩ (fun c hc => bne_iff_ne.2 (hne c hc ',' rfl)), if_pos]
  exact List.all_eq_true.2 hdigits

lemma toList_python_float (v : Float) : (float v).python.toList = (Python.float v).toList := by
  unfold python pythonLines
  rw [String.intercalate_singleton]

lemma toList_python_int (n : ℕ) : (int n).python.toList = (toString n).toList := by
  unfold python pythonLines
  rw [String.intercalate_singleton]

lemma toList_python_str (s : String) : (str s).python.toList = (Python.string s).toList := by
  unfold python pythonLines
  rw [String.intercalate_singleton]

lemma toList_python_colour (c : Colour) :
    (colour c).python.toList = '[' :: ((toString c.first.toNat).toList ++ (", ".toList ++
      ((toString c.second.toNat).toList ++ (", ".toList ++
        ((toString c.third.toNat).toList ++ "]".toList))))) := by
  unfold python pythonLines
  rw [String.intercalate_singleton]
  simp only [String.toList_append, List.append_assoc]
  rfl

/-- The form of a value can be read off its text. -/
lemma read_python (v : Value) (rest : List Char) :
    Form.read (v.python.toList ++ ',' :: rest) = v.form := by
  cases v with
  | float v =>
    rw [toList_python_float]
    exact read_float v rest
  | int n =>
    rw [toList_python_int]
    exact read_int n rest
  | str s =>
    rw [toList_python_str]
    unfold Python.string Python.stringChars
    rw [String.toList_ofList]
    rfl
  | null => rfl
  | colour c =>
    obtain ⟨d, ds, htext, hdigits⟩ := Python.toList_toString_cases c.first.toNat
    have hd := hdigits d (by simp)
    rw [toList_python_colour, htext]
    unfold Form.read
    split
    all_goals simp_all [form]
  | points ps =>
    cases ps with
    | nil => rfl
    | cons p ps =>
      rw [toList_python_points]
      rfl

/-- A value is known by its text up to the comma behind it. -/
lemma python_append_inj {v w : Value} {r s : List Char}
    (h : v.python.toList ++ ',' :: r = w.python.toList ++ ',' :: s) : v = w ∧ r = s := by
  -- The text shows the form of both values, so that only pairs of one form are left.
  have hform : v.form = w.form := by
    rw [← read_python v r, h, read_python]
  cases v with
  | float x =>
    cases w with
    | float y =>
      rw [toList_python_float, toList_python_float] at h
      obtain ⟨rfl, hrest⟩ := Python.float_append_inj rfl rfl h
      exact ⟨rfl, List.tail_eq_of_cons_eq hrest⟩
    | points ps => cases ps <;> cases hform
    | _ => cases hform
  | int m =>
    cases w with
    | int n =>
      rw [toList_python_int, toList_python_int] at h
      obtain ⟨rfl, hrest⟩ := Python.toString_append_inj rfl rfl h
      exact ⟨rfl, List.tail_eq_of_cons_eq hrest⟩
    | points ps => cases ps <;> cases hform
    | _ => cases hform
  | str t =>
    cases w with
    | str u =>
      rw [toList_python_str, toList_python_str] at h
      obtain ⟨htext, hrest⟩ := Python.delimited_string trivial trivial h
      exact ⟨congrArg Value.str htext, List.tail_eq_of_cons_eq hrest⟩
    | points ps => cases ps <;> cases hform
    | _ => cases hform
  | null =>
    cases w with
    | null => exact ⟨rfl, List.tail_eq_of_cons_eq (List.append_cancel_left h)⟩
    | points ps => cases ps <;> cases hform
    | _ => cases hform
  | colour c =>
    cases w with
    | colour d =>
      rw [toList_python_colour, toList_python_colour] at h
      simp only [List.cons_append, List.append_assoc, List.cons.injEq, true_and] at h
      obtain ⟨hfirst, h₁⟩ := Python.toString_append_inj (by simp) (by simp) h
      obtain ⟨hsecond, h₂⟩ :=
        Python.toString_append_inj (by simp) (by simp) (List.append_cancel_left h₁)
      obtain ⟨hthird, h₃⟩ :=
        Python.toString_append_inj (by simp) (by simp) (List.append_cancel_left h₂)
      refine ⟨?_, List.tail_eq_of_cons_eq (List.append_cancel_left h₃)⟩
      obtain ⟨x, y, z⟩ := c
      obtain ⟨x', y', z'⟩ := d
      cases UInt8.toNat_inj.1 hfirst
      cases UInt8.toNat_inj.1 hsecond
      cases UInt8.toNat_inj.1 hthird
      rfl
    | points ps => cases ps <;> cases hform
    | _ => cases hform
  | points ps =>
    cases w with
    | points qs =>
      cases ps with
      | nil =>
        cases qs with
        | nil => exact ⟨rfl, List.tail_eq_of_cons_eq (List.append_cancel_left h)⟩
        | cons q qs => cases hform
      | cons p ps =>
        cases qs with
        | nil => cases hform
        | cons q qs =>
          rw [toList_python_points, toList_python_points, List.cons_append, List.cons_append,
            List.cons.injEq, List.append_assoc, List.append_assoc] at h
          obtain ⟨hlist, hrest⟩ := delimited_pointLine.flatMap_append_inj
            (fun p _ => pointLine_append_ne p) (fun _ _ => trivial) (fun _ _ => trivial) h.2
          rw [List.map_id, List.map_id] at hlist
          exact ⟨congrArg Value.points hlist, List.tail_eq_of_cons_eq hrest⟩
    | _ => cases ps <;> cases hform

end Value

end Sortie
