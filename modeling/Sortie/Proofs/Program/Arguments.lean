import Sortie.Proofs.Mission.Path
import Sortie.Proofs.Script.Reading

/-! The arguments of a task in a program, from the attributes of its declaration: which keys there
are, in which order, and what each value stands for. -/
namespace Sortie
open Mission (Demand)

lemma Except.toOption_eq_some_iff {ε α : Type} {x : Except ε α} {a : α} :
    x.toOption = some a ↔ x = .ok a := by
  cases x <;> simp [Except.toOption]

/-- A float that is this natural number. -/
def Decimal.IsNat (v : Float) (n : ℕ) : Prop := (Binary.ofFloat v).value? = some (n : ℚ)

namespace Expr
variable {areas : Waypoints} {e : Expr}

/-- The argument that a written value becomes where a demand is made of it. -/
inductive Converts (areas : Waypoints) : Demand → Expr → Value → Prop
  | number {v} : Converts areas .number (.number v) (.float v)
  | integer {n} : Converts areas .number (.integer n) (.float n.toFloat)
  | wholeNumber {v n} (is : Decimal.IsNat v n) (bound : n < 2 ^ 32) :
      Converts areas .count (.number v) (.int n)
  | count {n} (bound : n.toNat < 2 ^ 32) : Converts areas .count (.integer n) (.int n.toNat)
  | name {s} : Converts areas .word (.name s) (.str s)
  | text {s} : Converts areas .word (.text s) (.str s)
  | bounds {x y z c} (first : Decimal.IsNat x c.first.toNat) (second : Decimal.IsNat y c.second.toNat)
      (third : Decimal.IsNat z c.third.toNat) : Converts areas .bounds (.triple x y z) (.colour c)
  | tuples {ts ps}
      (points : List.Forall₂ (fun t p => t = [p.longitude, p.latitude, p.altitude]) ts ps) :
      Converts areas .path (.tuples ts) (.points ps)
  | triple {x y z} : Converts areas .path (.triple x y z) (.points [⟨x, y, z⟩])
  | area {name ws ps} (known : areas.get? name = some ws) (nonempty : ws ≠ [])
      (points : List.Forall₂ Waypoint.ReadsAs ws ps) :
      Converts areas .path (.area name) (.points ps)

lemma converts_number? {v : Float} (h : e.number? = some v) :
    e.Converts areas .number (.float v) := by
  cases e with
  | number v' =>
    cases h
    exact .number
  | integer n =>
    cases h
    exact .integer
  | _ => cases h

lemma converts_count? {n : UInt32} (h : e.count? = some n) :
    e.Converts areas .count (.int n.toNat) := by
  cases e with
  | integer m =>
    simp only [count?, Option.ite_none_right_eq_some] at h
    obtain ⟨hlt, hn⟩ := h
    cases hn
    rw [UInt32.toNat_ofNat_of_lt' hlt]
    exact .count hlt
  | number v =>
    simp only [count?] at h
    cases hnat : (Decimal.Binary.ofFloat v).toNat? with
    | none =>
      rw [hnat] at h
      cases h
    | some m =>
      simp only [hnat, Option.ite_none_right_eq_some] at h
      obtain ⟨hlt, hn⟩ := h
      cases hn
      rw [UInt32.toNat_ofNat_of_lt' hlt]
      exact .wholeNumber ((Decimal.Binary.toNat?_eq_some_iff _ _).1 hnat) hlt
  | _ => cases h

lemma converts_word? {s : String} (h : e.word? = some s) : e.Converts areas .word (.str s) := by
  cases e with
  | name s' =>
    cases h
    exact .name
  | text s' =>
    cases h
    exact .text
  | _ => cases h

lemma isNat_of_channel? {v : Float} {b : UInt8} (h : channel? v = some b) :
    Decimal.IsNat v b.toNat := by
  unfold channel? at h
  cases hnat : (Decimal.Binary.ofFloat v).toNat? with
  | none =>
    rw [hnat] at h
    cases h
  | some n =>
    simp only [hnat, Option.ite_none_right_eq_some] at h
    obtain ⟨hle, hb⟩ := h
    cases hb
    rw [UInt8.toNat_ofNat_of_lt' (Nat.lt_succ_of_le hle)]
    exact (Decimal.Binary.toNat?_eq_some_iff _ _).1 hnat

lemma converts_colour? {c : Colour} (h : e.colour? = some c) :
    e.Converts areas .bounds (.colour c) := by
  cases e with
  | triple x y z =>
    simp only [colour?, Option.bind_eq_bind, Option.bind_eq_some_iff] at h
    obtain ⟨first, hfirst, second, hsecond, third, hthird, hc⟩ := h
    cases hc
    exact .bounds (isNat_of_channel? hfirst) (isNat_of_channel? hsecond) (isNat_of_channel? hthird)
  | _ => cases h

lemma eq_of_point? {t : List Float} {p : Point} (h : point? t = some p) :
    t = [p.longitude, p.latitude, p.altitude] := by
  unfold point? at h
  split at h
  · cases h
    rfl
  · cases h

lemma forall₂_of_mapM_point? {ts : List (List Float)} {ps : List Point}
    (h : ts.mapM point? = some ps) :
    List.Forall₂ (fun t p => t = [p.longitude, p.latitude, p.altitude]) ts ps := by
  induction ts generalizing ps with
  | nil =>
    cases h
    exact .nil
  | cons t ts ih =>
    simp only [List.mapM_cons, Option.bind_eq_bind, Option.bind_eq_some_iff] at h
    obtain ⟨p, hp, qs, hqs, hps⟩ := h
    cases hps
    exact .cons (eq_of_point? hp) (ih hqs)

/-- A path is empty only where the list of tuples is. -/
lemma Converts.points_ne_nil {demand : Demand} {ps : List Point}
    (h : e.Converts areas demand (.points ps)) (he : e ≠ .tuples []) : ps ≠ [] := by
  rintro rfl
  cases h with
  | tuples points =>
    cases points
    exact he rfl
  | area _ nonempty points =>
    cases points
    exact nonempty rfl

end Expr

namespace TaskDecl
variable {areas : Waypoints} {d : TaskDecl} {key : String} {slot : Slot}
  {args more : List (String × Value)}

/-- A slot has an argument unless it may be left out and no attribute has its key. -/
def fills (d : TaskDecl) (slot : Slot) : Bool :=
  !slot.optional || d.attributes.any fun a => a.key = slot.key

/-- The argument of a slot is what the first attribute with its key becomes. -/
def Gives (areas : Waypoints) (d : TaskDecl) (slot : Slot) (arg : String × Value) : Prop :=
  arg.1 = slot.key ∧ ∃ a, d.Writes slot.key a ∧ a.value.Converts areas slot.demand arg.2

/-- Arguments are those of a run of slots, in order. -/
def Supplies (areas : Waypoints) (d : TaskDecl) (slots : List Slot)
    (args : List (String × Value)) : Prop :=
  List.Forall₂ (d.Gives areas) (slots.filter d.fills) args

lemma Supplies.append {slots others : List Slot} (h : d.Supplies areas slots args)
    (h' : d.Supplies areas others more) : d.Supplies areas (slots ++ others) (args ++ more) := by
  unfold Supplies
  rw [List.filter_append]
  exact List.rel_append h h'

lemma supplies_of_writes {a : Attribute} {v : Value} (h : d.Writes slot.key a)
    (hv : a.value.Converts areas slot.demand v) : d.Supplies areas [slot] [(slot.key, v)] := by
  have hfills : d.fills slot = true := by
    unfold fills
    rw [List.any_eq_true.2 ⟨a, h.mem, by simpa using h.1⟩, Bool.or_true]
  unfold Supplies
  rw [List.filter_cons_of_pos hfills]
  exact .cons ⟨rfl, a, h, hv⟩ .nil

/-- An attribute that may not be left out gives an argument. -/
lemma supplies_of_required {α : Type} {read : Attribute → Resolved α} {x : α} {v : Value}
    (h : d.required slot.key >>= read = .ok x)
    (hread : ∀ a, read a = .ok x → a.value.Converts areas slot.demand v) :
    d.Supplies areas [slot] [(slot.key, v)] := by
  obtain ⟨a, ha, hx⟩ := Except.bind_eq_ok_iff.1 h
  exact supplies_of_writes (required_eq_ok_iff.1 ha) (hread a hx)

lemma demand_eq_ok_iff {α : Type} {a : Attribute} {demand : Demand} {value : Option α} {x : α} :
    d.demand a demand value = .ok x ↔ value = some x := by
  unfold TaskDecl.demand
  cases value <;> simp

lemma supplies_number {v : Float} (h : d.number key = .ok v) :
    d.Supplies areas [⟨key, .number, false⟩] [(key, .float v)] :=
  supplies_of_required h fun _ ha => Expr.converts_number? (demand_eq_ok_iff.1 ha)

lemma supplies_count {n : UInt32} (h : d.count key = .ok n) :
    d.Supplies areas [⟨key, .count, false⟩] [(key, .int n.toNat)] :=
  supplies_of_required h fun _ ha => Expr.converts_count? (demand_eq_ok_iff.1 ha)

lemma supplies_word {s : String} (h : d.word key = .ok s) :
    d.Supplies areas [⟨key, .word, false⟩] [(key, .str s)] :=
  supplies_of_required h fun _ ha => Expr.converts_word? (demand_eq_ok_iff.1 ha)

lemma supplies_bounds {c : Option Colour} (h : d.bounds key = .ok c) :
    d.Supplies areas [⟨key, .bounds, true⟩] (c.toList.map fun c => (key, .colour c)) := by
  unfold bounds at h
  cases hfind : d.find? key with
  | none =>
    have hfills : d.fills ⟨key, .bounds, true⟩ = false := by
      simpa [fills] using find?_eq_none_iff.1 hfind
    rw [hfind] at h
    cases h
    unfold Supplies
    rw [List.filter_cons_of_neg (by simp [hfills])]
    exact .nil
  | some a =>
    simp only [hfind] at h
    cases hcolour : a.value.colour? with
    | none =>
      rw [hcolour] at h
      cases h
    | some colour =>
      rw [hcolour] at h
      cases h
      exact supplies_of_writes (find?_eq_some_iff.1 hfind) (Expr.converts_colour? hcolour)

lemma converts_area {a : Attribute} {name : String} {ps : List Point}
    (h : d.area a name areas = .ok ps) : (Expr.area name).Converts areas .path (.points ps) := by
  obtain ⟨ws, hws, hne, hpoints⟩ := exists_waypoints_of_area h
  exact .area hws hne hpoints

lemma supplies_path {ps : List Point} (h : d.path areas = .ok ps) :
    d.Supplies areas [⟨"way_points", .path, false⟩] [("way_points", .points ps)] := by
  unfold path at h
  refine supplies_of_required h fun a ha => ?_
  cases hvalue : a.value with
  | tuples ts =>
    rw [hvalue] at ha
    exact .tuples (Expr.forall₂_of_mapM_point? (demand_eq_ok_iff.1 ha))
  | triple x y z =>
    rw [hvalue] at ha
    cases ha
    exact .triple
  | area name =>
    rw [hvalue] at ha
    exact converts_area ha
  | _ =>
    rw [hvalue] at ha
    cases ha

lemma supplies_survey {s : Survey} (h : d.survey areas = .ok s) :
    d.Supplies areas TaskKind.schema.survey s.args := by
  unfold survey at h
  simp only [Except.bind_eq_ok_iff] at h
  obtain ⟨waypoints, hpath, pitch, hpitch, rotation, hrotation, rate, hrate, delay, hdelay, model,
    hmodel, hs⟩ := h
  cases hs
  exact (supplies_path hpath).append <| (supplies_number hpitch).append <|
    (supplies_number hrotation).append <| (supplies_count hrate).append <|
    (supplies_count hdelay).append (supplies_word hmodel)

lemma supplies_tracking {t : Tracking} (h : d.tracking = .ok t) :
    d.Supplies areas TaskKind.track.schema t.args := by
  unfold tracking at h
  simp only [Except.bind_eq_ok_iff] at h
  obtain ⟨pitch, hpitch, target, htarget, model, hmodel, lower, hlower, upper, hupper, ht⟩ := h
  cases ht
  have hrequired : d.Supplies areas
      [⟨"gimbal_pitch", .number, false⟩, ⟨"class", .word, false⟩, ⟨"model", .word, false⟩]
      [("gimbal_pitch", .float pitch), ("class", .str target), ("model", .str model)] :=
    (supplies_number hpitch).append <| (supplies_word htarget).append (supplies_word hmodel)
  exact (hrequired.append (supplies_bounds hlower)).append (supplies_bounds hupper)

end TaskDecl

/-- The class that carries out a kind of task. -/
def TaskKind.taskClass : TaskKind → TaskClass
  | detect => .detect
  | track => .track
  | avoid => .avoid
  | test => .test

namespace TaskDecl
variable {areas : Waypoints} {d : TaskDecl} {args : List (String × Value)} {work : Work}

lemma supplies_work (h : d.work areas = .ok work) :
    work.taskClass = d.kind.taskClass ∧ d.Supplies areas d.kind.schema work.args := by
  unfold TaskDecl.work at h
  cases hkind : d.kind with
  | detect =>
    simp only [hkind, Except.bind_eq_ok_iff] at h
    obtain ⟨s, hs, hwork⟩ := h
    cases hwork
    exact ⟨rfl, supplies_survey hs⟩
  | track =>
    simp only [hkind, Except.bind_eq_ok_iff] at h
    obtain ⟨t, ht, hwork⟩ := h
    cases hwork
    exact ⟨rfl, supplies_tracking ht⟩
  | avoid =>
    simp only [hkind, Except.bind_eq_ok_iff] at h
    obtain ⟨s, hs, speed, hspeed, hwork⟩ := h
    cases hwork
    exact ⟨rfl, (supplies_survey hs).append (supplies_number hspeed)⟩
  | test =>
    simp only [hkind] at h
    cases h
    exact ⟨rfl, .nil⟩

/-- Arguments that are the image of the attributes of a declaration. -/
structure ImageOf (areas : Waypoints) (d : TaskDecl) (args : List (String × Value)) : Prop where
  keys : args.map Prod.fst = (d.kind.schema.filter d.fills).map Slot.key
  nodup : (args.map Prod.fst).Nodup
  values : ∀ key v, (key, v) ∈ args → ∃ slot ∈ d.kind.schema, slot.key = key ∧
    ∃ a, d.Writes key a ∧ a.value.Converts areas slot.demand v

lemma Supplies.imageOf (h : d.Supplies areas d.kind.schema args) : d.ImageOf areas args := by
  have hkeys : args.map Prod.fst = (d.kind.schema.filter d.fills).map Slot.key :=
    map_eq_of_forall₂ (fun _ _ hgives => hgives.1) h
  refine ⟨hkeys, ?_, ?_⟩
  · rw [hkeys]
    exact d.kind.nodup_keys_schema.sublist (List.filter_sublist.map Slot.key)
  · intro key v hmem
    obtain ⟨slot, hslot, rfl, hvalue⟩ := exists_left_of_forall₂ h hmem
    exact ⟨slot, List.mem_of_mem_filter hslot, rfl, hvalue⟩

end TaskDecl

/-- A list of tuples that has been read is not empty. -/
lemma Script.value_ne_tuples_nil {tokens : List Token} {script : Script}
    (h : Script.parse tokens = .ok script) {d : TaskDecl} (hd : d ∈ script.tasks) {a : Attribute}
    (ha : a ∈ d.attributes) : a.value ≠ .tuples [] := by
  obtain ⟨_, _, _, _, declared, -⟩ := (Script.parse_eq_ok_iff.1 h).exists_parts
  obtain ⟨_, hdeclared, -⟩ := declared.exists_phrase hd
  obtain ⟨_, hkeyValue, -⟩ := hdeclared.exists_keyValue ha
  intro hnil
  cases hkeyValue with
  | mk word value =>
    cases hnil
    cases value with
    | tuples body => cases body
    | paren body => cases body

namespace Mission
variable {script : Script} {areas : Waypoints} {mission : Mission} {d : TaskDecl}

/-- Every declared task has a definition of its class in the program. Its arguments are what the
first attributes with the keys of its kind become, and a path that was read has points. -/
theorem definition_is_image_of_attributes (h : (ofScript script areas).result = .ok mission)
    (hd : d ∈ script.tasks) :
    ∃ e, (Program.ofMission mission).definition? d.name = some e ∧
      e.taskClass = d.kind.taskClass ∧ d.ImageOf areas e.args ∧
      ∀ tokens, Script.parse tokens = .ok script →
        ∀ ps, ("way_points", Value.points ps) ∈ e.args → ps ≠ [] := by
  have his := isOf_of_ofScript h
  obtain ⟨d', hd', hsame, work, hwork, hget⟩ := his.get?_of_mem (List.mem_map_of_mem hd)
  have hnames : (script.tasks.map TaskDecl.name).Nodup := his.keys_eq ▸ mission.tasks.nodup
  cases List.inj_on_of_nodup_map hnames hd' hd hsame
  obtain ⟨hclass, hsupplies⟩ := TaskDecl.supplies_work hwork
  have himage := hsupplies.imageOf
  refine ⟨(taskOf script d work).definition, ?_, ?_, ?_, ?_⟩
  · rw [Program.definition?_ofMission fun e he => his.id_eq he, hget]
    rfl
  · change (taskOf script d work).work.taskClass = _
    rw [taskOf_work, hclass]
  · change d.ImageOf areas (taskOf script d work).work.args
    rw [taskOf_work]
    exact himage
  · intro tokens hparse ps hps
    change _ ∈ (taskOf script d work).work.args at hps
    rw [taskOf_work] at hps
    obtain ⟨slot, -, -, a, ha, hconverts⟩ := himage.values _ _ hps
    exact hconverts.points_ne_nil (Script.value_ne_tuples_nil hparse hd ha.mem)

/-- A task that avoids obstacles, with a key written twice and one that its kind does not know. -/
def evasionSource : String :=
  "task \x7b avoid A \x7b way_points: [(1, 2, 3), (4, 5.5, 6)], gimbal_pitch: -45.5, " ++
    "gimbal_pitch: 9, drone_rotation: 0, sample_rate: 2.0, hover_delay: 0, colour: red, " ++
    "model: \"m\", speed: 3 \x7d \x7d mission \x7b start: A \x7d"

theorem definition_is_image_of_evasion :
    ∃ tokens script mission d e, Token.scan evasionSource = .ok tokens ∧
      Script.parse tokens = .ok script ∧ (ofScript script .empty).result = .ok mission ∧
      d ∈ script.tasks ∧ (Program.ofMission mission).definition? d.name = some e ∧
      e.taskClass = .avoid ∧ e.args.map Prod.fst = ["way_points", "gimbal_pitch", "drone_rotation",
        "sample_rate", "hover_delay", "model", "speed"] ∧ d.ImageOf .empty e.args ∧
      ∀ ps, ("way_points", Value.points ps) ∈ e.args → ps ≠ [] := by
  have hruns : ((Token.scan evasionSource).toOption.bind fun ts => (Script.parse ts).toOption).map
      (fun s => (s.tasks.map TaskDecl.kind, (ofScript s .empty).result.toOption.isSome)) =
        some ([.avoid], true) := by
    decide +kernel
  simp only [Option.map_eq_some_iff, Option.bind_eq_some_iff, Except.toOption_eq_some_iff,
    Prod.mk.injEq, List.map_eq_singleton_iff, Option.isSome_iff_exists] at hruns
  obtain ⟨script, ⟨tokens, hscan, hparse⟩, ⟨d, htasks, hkind⟩, mission, hmission⟩ := hruns
  have hd : d ∈ script.tasks := by simp [htasks]
  obtain ⟨e, he, hclass, himage, hpath⟩ := definition_is_image_of_attributes hmission hd
  refine ⟨tokens, script, mission, d, e, hscan, hparse, hmission, hd, he, ?_, ?_, himage,
    hpath tokens hparse⟩
  · rw [hclass, hkind]
    rfl
  · rw [himage.keys, hkind]
    rfl

end Mission
end Sortie
