import Sortie.Proofs.Compilation
import Sortie.Proofs.Mission.Analysis
import Sortie.Proofs.Script.Places
import Sortie.Proofs.Script.Reading
import Sortie.Proofs.Token.Layout

/-! Where errors point. Every error of a compilation has a place in the source: that of a token, of
a text that begins none, or of the end of the input. Faults of a mission point to the first token of
the part of the script that they are about. -/
namespace Sortie

namespace Script
open Grammar

/-- The places that a script records. -/
inductive Site (s : Script) : Position → Prop
  | task {d : TaskDecl} (mem : d ∈ s.tasks) : Site s d.position
  | keyValue {d : TaskDecl} {a : Attribute} (mem : d ∈ s.tasks) (own : a ∈ d.attributes) :
      Site s a.position
  | transition {t : TransitionDecl} (mem : t ∈ s.transitions) : Site s t.position
  | start : Site s s.startPosition

/-- The tokens that faults of a mission point to: the first one of a task declaration, of an
attribute or of a transition, and the name of the start task. -/
inductive Landmark (ts : List Token) (s : Script) : Token → Prop
  | task {d : TaskDecl} {t : Token} {us : List Token} (mem : d ∈ s.tasks)
      (phrase : Declaration Triple (t :: us) d) (within : t :: us <:+: ts) : Landmark ts s t
  | keyValue {d : TaskDecl} {a : Attribute} {t : Token} {us : List Token} (mem : d ∈ s.tasks)
      (own : a ∈ d.attributes) (phrase : KeyValue Triple (t :: us) a) (within : t :: us <:+: ts) :
      Landmark ts s t
  | transition {x : TransitionDecl} {t : Token} {us : List Token} (mem : x ∈ s.transitions)
      (phrase : Edge (t :: us) x) (within : t :: us <:+: ts) : Landmark ts s t
  | start {p q r : Position}
      (within : [⟨.keyword .start, p⟩, ⟨.mark .colon, q⟩, ⟨.name s.start, r⟩] <:+: ts) :
      Landmark ts s ⟨.name s.start, r⟩

lemma Landmark.mem {ts : List Token} {s : Script} {t : Token} (h : Landmark ts s t) : t ∈ ts := by
  cases h with
  | task mem phrase within => exact within.subset (by simp)
  | keyValue mem own phrase within => exact within.subset (by simp)
  | transition mem phrase within => exact within.subset (by simp)
  | start within => exact within.subset (by simp)

namespace Grammar

/-- The place of a part of a script is that of its first token. -/
theorem Sentence.exists_landmark {ts : List Token} {s : Script} (h : Sentence Triple ts s)
    {p : Position} (hp : s.Site p) : ∃ t, Landmark ts s t ∧ t.position = p := by
  obtain ⟨us, vs, p₁, p₂, declared, hus, written, hvs, hstart⟩ := h.exists_parts
  cases hp with
  | task mem =>
    obtain ⟨ws, hphrase, hws⟩ := declared.exists_phrase mem
    cases hphrase with
    | mk keyword body => exact ⟨_, .task mem (.mk keyword body) (hws.trans hus), rfl⟩
  | keyValue mem own =>
    obtain ⟨ws, hphrase, hws⟩ := declared.exists_phrase mem
    obtain ⟨xs, hkv, hxs⟩ := hphrase.exists_keyValue own
    cases hkv with
    | mk word value =>
      exact ⟨_, .keyValue mem own (.mk word value) ((hxs.trans hws).trans hus), rfl⟩
  | transition mem =>
    obtain ⟨ws, hphrase, hws⟩ := written.exists_phrase mem
    cases hphrase with
    | mk parens => exact ⟨_, .transition mem (.mk parens) (hws.trans hvs), rfl⟩
  | start => exact ⟨_, .start hstart, rfl⟩

end Grammar

/-- A fault of a mission has one of the places that the script records. -/
lemma site_of_mem_requirements {s : Script} {areas : Waypoints}
    {r : Requirement (Located Mission.Fault)} (h : r ∈ s.requirements areas) :
    s.Site r.fault.position := by
  simp only [requirements, List.mem_append, List.mem_cons, List.mem_map, List.mem_flatMap] at h
  rcases h with h | ⟨t, ht, rfl⟩ | ⟨d, hd, rfl⟩ | rfl | ⟨d, -, t, ht, rfl⟩
  · obtain ⟨d, hd, ⟨-, hposition⟩ | hr⟩ := mem_declarationRequirements h
    · rw [hposition]
      exact .task hd
    · obtain ⟨-, hposition | ⟨a, ha, hposition⟩⟩ := TaskDecl.fault_of_mem hr
      · rw [hposition]
        exact .task hd
      · rw [hposition]
        exact .keyValue hd ha
  · exact .transition ht
  · exact .task hd
  · exact .start
  · exact .transition (List.mem_filter.1 ht).1

lemma exists_mem_finishPosition {ts : List Token} (h : ts ≠ []) :
    ∃ t ∈ ts, t.position = finishPosition ts := by
  unfold finishPosition
  cases hdrop : ts.drop (content ts).length with
  | cons t us =>
    refine ⟨t, List.mem_of_mem_drop (i := (content ts).length) ?_, rfl⟩
    simp [hdrop]
  | nil =>
    rw [List.getLast?_eq_some_getLast h]
    exact ⟨ts.getLast h, List.getLast_mem h, rfl⟩

end Script

namespace Compilation

/-- The places that an error can have: where a token starts, where scanning stopped, and the end of
the input. -/
inductive Target (source : String) : Position → Prop
  | token {tokens : List Token} {t : Token} {before after l : List Char}
      (scanned : Token.scan source = .ok tokens) (mem : t ∈ tokens)
      (place : t.position = .behind before) (cut : source.toList = before ++ after)
      (spells : Token.Spells t.kind l) (starts : l <+: after) : Target source (.behind before)
  | stop {fault : Token.Fault} {before after : List Char}
      (stopped : Token.scan source = .error ⟨fault, .behind before⟩)
      (cut : source.toList = before ++ after) (stuck : Token.Stuck after) :
      Target source (.behind before)
  | finish : Target source (.behind source.toList)

variable {source : String} {areas : Waypoints}

lemma target_of_mem {tokens : List Token} (hscan : Token.scan source = .ok tokens) {t : Token}
    (ht : t ∈ tokens) : Target source t.position := by
  obtain ⟨before, after, hcut, hplace, hafter⟩ :=
    (Token.scan_eq_ok_iff.1 hscan).exists_spelling ht
  rw [List.nil_append] at hplace
  rcases hafter with ⟨-, rfl⟩ | ⟨l, hspells, hstarts⟩
  · rw [hplace, ← List.append_nil before, ← hcut]
    exact .finish
  · rw [hplace]
    exact .token hscan ht hplace hcut hspells hstarts

/-- A target is on a line of the source, at a character or behind the last one. -/
lemma Target.exists_line {p : Position} (h : Target source p) :
    p.line ≤ (Text.lines source.toList).length ∧
      ∃ l, (Text.lines source.toList)[p.line - 1]? = some l ∧ p.column ≤ l.length + 1 := by
  obtain ⟨before, after, hcut, rfl⟩ :
      ∃ before after, source.toList = before ++ after ∧ p = .behind before := by
    cases h with
    | token _ _ _ cut _ _ => exact ⟨_, _, cut, rfl⟩
    | stop _ cut _ => exact ⟨_, _, cut, rfl⟩
    | finish => exact ⟨_, [], by simp, rfl⟩
  rw [hcut]
  exact Position.exists_line_of_behind before after

lemma target_of_scan_error {f : Located Token.Fault} (h : Token.scan source = .error f) :
    Target source f.position := by
  obtain ⟨before, after, hcut, hposition, stuck⟩ := Token.exists_stuck_of_scan h
  obtain ⟨fault, position⟩ := f
  obtain rfl : position = .behind before := hposition
  exact .stop h hcut stuck

lemma target_of_parse_error {tokens : List Token} (hscan : Token.scan source = .ok tokens)
    {f : Located Script.Fault} (h : Script.parse tokens = .error f) : Target source f.position := by
  rcases Script.parse_error_position h with ⟨t, ht, hposition⟩ | hposition
  · rw [← hposition]
    exact target_of_mem hscan (List.takeWhile_subset _ ht)
  · obtain ⟨body, htokens, -⟩ := (Token.scan_eq_ok_iff.1 hscan).exists_finish
    have hne : tokens ≠ [] := by simp [htokens]
    obtain ⟨t, ht, hfinish⟩ := Script.exists_mem_finishPosition hne
    rw [← hposition, ← hfinish]
    exact target_of_mem hscan ht

lemma exists_landmark_of_error {tokens : List Token} {script : Script} {f : Located Mission.Fault}
    (hparse : Script.parse tokens = .ok script)
    (h : (Mission.ofScript script areas).result = .error f) :
    ∃ t, Script.Landmark (Script.content tokens) script t ∧ t.position = f.position := by
  obtain ⟨r, hr, -, rfl⟩ :=
    ((Mission.decides_ofScript script areas).eq_error_iff.1 h).exists_unmet
  exact (Script.parse_eq_ok_iff.1 hparse).exists_landmark (Script.site_of_mem_requirements hr)

/-- Every error of a compilation points into the source, on one of its lines. A fault of the mission
points to the first token of a task, an attribute or a transition, or to the name of the start. -/
theorem target_of_compile_error {e : CompileError} (h : (compile source areas).result = .error e) :
    Target source e.position ∧
      (e.position.line ≤ (Text.lines source.toList).length ∧
        ∃ l, (Text.lines source.toList)[e.position.line - 1]? = some l ∧
          e.position.column ≤ l.length + 1) ∧
      ∀ f, e.fault = .semantic f → ∃ tokens script t, Token.scan source = .ok tokens ∧
        Script.parse tokens = .ok script ∧ Script.Landmark (Script.content tokens) script t ∧
        t.position = e.position := by
  rcases compile_eq_error_iff.1 h with ⟨f, hscan, rfl⟩ | ⟨tokens, f, hscan, hparse, rfl⟩ |
    ⟨tokens, script, f, hscan, hparse, hmission, rfl⟩
  · have htarget := target_of_scan_error hscan
    exact ⟨htarget, htarget.exists_line, fun _ hf => by cases hf⟩
  · have htarget := target_of_parse_error hscan hparse
    exact ⟨htarget, htarget.exists_line, fun _ hf => by cases hf⟩
  · obtain ⟨t, hlandmark, hposition⟩ := exists_landmark_of_error hparse hmission
    have htarget : Target source f.position := by
      rw [← hposition]
      exact target_of_mem hscan (List.takeWhile_subset _ hlandmark.mem)
    exact ⟨htarget, htarget.exists_line,
      fun _ _ => ⟨tokens, script, t, hscan, hparse, hlandmark, hposition⟩⟩

/-- A script whose start is not declared. -/
def undeclaredStart : String := "task \x7b test hold \x7b \x7d \x7d\nmission \x7b start: go \x7d"

theorem target_of_undeclaredStart :
    ∃ e, (compile undeclaredStart .empty).result = .error e ∧ Target undeclaredStart e.position ∧
      (e.position.line ≤ (Text.lines undeclaredStart.toList).length ∧
        ∃ l, (Text.lines undeclaredStart.toList)[e.position.line - 1]? = some l ∧
          e.position.column ≤ l.length + 1) ∧
      ∀ f, e.fault = .semantic f → ∃ tokens script t, Token.scan undeclaredStart = .ok tokens ∧
        Script.parse tokens = .ok script ∧ Script.Landmark (Script.content tokens) script t ∧
        t.position = e.position := by
  have hfails : (compile undeclaredStart .empty).result.toOption.isSome = false := by decide +kernel
  cases h : (compile undeclaredStart .empty).result with
  | ok output =>
    rw [h] at hfails
    cases hfails
  | error e => exact ⟨e, rfl, target_of_compile_error h⟩

end Compilation
end Sortie
