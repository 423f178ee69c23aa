import Sortie.Proofs.Compilation
import Sortie.Proofs.Mission.Validity
import Sortie.Proofs.Program.Legibility
import Sortie.Proofs.Script.Reading
import Sortie.Proofs.Token.Layout

/-! Compiled programs are legible, so compilations with one text have one program, but for the flags
that mark implicit rules. -/
namespace Sortie

/-- Every task of a script that is read from a text has a word for its name. -/
theorem Script.isName_of_parse {source : String} {tokens : List Token} {script : Script}
    (hscan : Token.scan source = .ok tokens) (hparse : Script.parse tokens = .ok script)
    {d : TaskDecl} (hd : d ∈ script.tasks) : Token.IsName d.name := by
  obtain ⟨p, hp⟩ := (Script.parse_eq_ok_iff.1 hparse).name_mem hd
  exact Token.isName_of_mem_scan hscan (List.takeWhile_subset _ hp)

namespace Mission.IsOf
variable {mission : Mission} {script : Script} {areas : Waypoints}

/-- No task of a checked mission has the name that stands for the end. -/
lemma terminateName_not_mem_keys (h : mission.IsOf script areas) :
    terminateName ∉ mission.tasks.keys := by
  intro hmem
  obtain ⟨e, he, hname⟩ := List.mem_map.1 hmem
  have hsound := (validate_eq_ok_iff mission).1 h.valid
  apply hsound.ids e he
  rw [h.id_eq he, hname]
  decide

end Mission.IsOf

/-- The program of a mission whose tasks are named by words is legible. -/
lemma Program.legible_ofMission {mission : Mission} {script : Script} {areas : Waypoints}
    (h : mission.IsOf script areas) (hnames : ∀ d ∈ script.tasks, Token.IsName d.name) :
    (Program.ofMission mission).Legible := by
  have hsound := (Mission.validate_eq_ok_iff mission).1 h.valid
  have hkeys : ∀ id ∈ mission.tasks.keys, ∀ c ∈ id.toList, Token.isWordPart c = true := by
    intro id hid
    rw [h.keys_eq] at hid
    obtain ⟨d, hd, rfl⟩ := List.mem_map.1 hid
    exact (hnames d hd).isWordPart
  have hids : ∀ e ∈ mission.tasks.entries, ∀ c ∈ e.2.id.toList, Token.isWordPart c = true := by
    intro e he
    rw [h.id_eq he]
    exact hkeys e.1 (List.mem_map_of_mem he)
  refine ⟨hkeys _ hsound.start, ?_, ?_⟩
  · intro entry hentry
    obtain ⟨task, htask, rfl⟩ := List.mem_map.1 hentry
    obtain ⟨e, he, rfl⟩ := List.mem_map.1 htask
    refine ⟨hids e he, ?_⟩
    intro rule hrule htarget
    obtain ⟨t, ht, rfl⟩ := List.mem_map.1 hrule
    exact h.terminateName_not_mem_keys ((hsound.edges e he t ht).2 _ htarget)
  · intro d hd
    obtain ⟨task, htask, rfl⟩ := List.mem_map.1 hd
    obtain ⟨e, he, rfl⟩ := List.mem_map.1 htask
    exact hids e he

namespace Compilation
variable {source source' : String} {areas areas' : Waypoints} {output output' : Output}

lemma legible_of_compile (h : (compile source areas).result = .ok output) :
    output.program.Legible := by
  obtain ⟨tokens, script, mission, hscan, hparse, hmission, rfl⟩ := compile_eq_ok_iff.1 h
  exact Program.legible_ofMission (Mission.isOf_of_ofScript hmission)
    (fun d hd => Script.isName_of_parse hscan hparse hd)

lemma python_eq_of_compile (h : (compile source areas).result = .ok output) :
    output.python = output.program.python := by
  obtain ⟨tokens, script, mission, -, -, -, rfl⟩ := compile_eq_ok_iff.1 h
  rfl

/-- Two compilations that give the same text have programs that differ at most in the flags of
their rules. -/
theorem agrees_of_compile (h : (compile source areas).result = .ok output)
    (h' : (compile source' areas').result = .ok output') (hsame : output.python = output'.python) :
    output.program.Agrees output'.program := by
  rw [python_eq_of_compile h, python_eq_of_compile h'] at hsame
  exact Program.agrees_of_python_eq (legible_of_compile h) (legible_of_compile h') hsame

/-- A task without a written transition; it gets the edge from `done` to the end. -/
def quietSource : String := "task \x7b test A \x7b \x7d \x7d mission \x7b start: A \x7d"

/-- The same task with that edge written out. -/
def spokenSource : String :=
  "task \x7b test A \x7b \x7d \x7d mission \x7b start: A transition(done) A -> terminate \x7d"

theorem agrees_quiet_spoken :
    ∃ output output', (compile quietSource Catalog.empty).result = .ok output ∧
      (compile spokenSource Catalog.empty).result = .ok output' ∧
      output.python = output'.python ∧ output.program.Agrees output'.program := by
  have hcompiles : (compile quietSource Catalog.empty).result.toOption.isSome = true := by
    decide +kernel
  have hsame : (compile quietSource Catalog.empty).result.toOption.map Output.python =
      (compile spokenSource Catalog.empty).result.toOption.map Output.python := by
    decide +kernel
  cases h : (compile quietSource Catalog.empty).result with
  | error e =>
    rw [h] at hcompiles
    cases hcompiles
  | ok output =>
    cases h' : (compile spokenSource Catalog.empty).result with
    | error e =>
      rw [h, h'] at hsame
      cases hsame
    | ok output' =>
      rw [h, h'] at hsame
      have hpython : output.python = output'.python := Option.some.inj hsame
      exact ⟨output, output', rfl, rfl, hpython, agrees_of_compile h h' hpython⟩

end Compilation
end Sortie
