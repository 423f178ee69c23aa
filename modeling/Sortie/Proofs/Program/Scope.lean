import Sortie.Proofs.Program.Injectivity
import Sortie.Proofs.Program.Outline

/-! The names of a compiled program. All its parts list the declared tasks, and its text defines or
imports once whatever function or class of a task it refers to. -/
namespace Sortie

namespace Program

/-- The parts of a program speak of the same tasks. -/
structure Consistent (p : Program) (ids : List String) : Prop where
  entries : p.entries.map Entry.taskId = ids
  definitions : p.definitions.map Definition.taskId = ids
  tableKeys : p.tableKeys = ids
  distinct : ids.Nodup
  names : ∀ id ∈ ids, Token.IsName id ∧ id ≠ terminateName ∧ id ≠ defaultEntry
  start : p.start ∈ ids
  targets : ∀ e ∈ p.entries, ∀ r ∈ e.rules, ∀ id, r.target = .task id → id ∈ ids
  sorted : p.classes.Pairwise fun k k' => k.name < k'.name
  classes : ∀ k, k ∈ p.classes ↔ ∃ d ∈ p.definitions, d.taskClass = k

lemma sorted_classes (p : Program) : p.classes.Pairwise fun k k' => k.name < k'.name := by
  have hall : TaskClass.all.Pairwise fun k k' => k.name < k'.name := by decide
  exact hall.filter _

lemma mem_classes_iff (p : Program) (k : TaskClass) :
    k ∈ p.classes ↔ ∃ d ∈ p.definitions, d.taskClass = k := by
  have hall : k ∈ TaskClass.all := by cases k <;> decide
  simp [classes, hall]

lemma consistent_ofMission {mission : Mission} {script : Script} {areas : Waypoints}
    (h : mission.IsOf script areas) (hnames : ∀ d ∈ script.tasks, Token.IsName d.name) :
    (Program.ofMission mission).Consistent (script.tasks.map TaskDecl.name) := by
  have hsound := mission.validate_eq_ok_iff.1 h.valid
  have hids : mission.tasks.values.map Task.id = mission.tasks.keys := by
    unfold Catalog.values Catalog.keys
    rw [List.map_map]
    exact List.map_congr_left fun e he => h.id_eq he
  have hreserved : ∀ id ∈ mission.tasks.keys, id ∉ Mission.reservedIds := by
    intro id hid
    obtain ⟨e, he, rfl⟩ := List.mem_map.1 hid
    rw [← h.id_eq he]
    exact hsound.ids e he
  rw [← h.keys_eq]
  constructor
  · rw [← hids]
    exact List.map_map
  · rw [← hids]
    exact List.map_map
  · rfl
  · exact mission.tasks.nodup
  · intro id hid
    have hnew := hreserved id hid
    rw [h.keys_eq] at hid
    obtain ⟨d, hd, rfl⟩ := List.mem_map.1 hid
    exact ⟨hnames d hd, fun heq => hnew (by simp [heq, Mission.reservedIds]),
      fun heq => hnew (by simp [heq, Mission.reservedIds, defaultEntry])⟩
  · exact hsound.start
  · intro entry hentry rule hrule id htarget
    obtain ⟨task, htask, rfl⟩ := List.mem_map.1 hentry
    obtain ⟨e, he, rfl⟩ := List.mem_map.1 htask
    obtain ⟨t, ht, rfl⟩ := List.mem_map.1 hrule
    exact (hsound.edges e he t ht).2 id htarget
  · exact sorted_classes _
  · exact mem_classes_iff _

end Program

namespace Python

/-- The names of the functions made for tasks, and of the task classes. -/
def IsTaskName (f : String) : Prop :=
  "_dispatch_".toList <+: f.toList ∨ "_define_".toList <+: f.toList ∨ ∃ k : TaskClass, k.name = f

/-- The functions of a module with these tasks. -/
def functionsOf (ids : List String) : List String :=
  ids.map ("_dispatch_" ++ ·) ++ "_dispatch_default" :: (ids.map ("_define_" ++ ·) ++ ["bootstrap"])

/-- Lines in which every function of a task and every task class that is referred to is bound once,
and no key of a table is repeated. -/
structure WellScoped (ls : List (List Piece)) (ids : List String) (classes : List TaskClass) :
    Prop where
  functions : defined ls = functionsOf ids
  identifiers : ∀ f ∈ defined ls, Token.IsName f
  distinct : (defined ls).Nodup
  references : ∀ f ∈ used ls, IsTaskName f → (defined ls ++ imported ls).count f = 1
  dispatched : ∀ id ∈ "default" :: ids, "_dispatch_" ++ id ∈ used ls
  constructed : ∀ id ∈ ids, "_define_" ++ id ∈ used ls
  instantiated : ∀ k ∈ classes, k.name ∈ used ls
  transitions : keysOf "TRANSITIONS" ls = ids ++ ["default"]
  tasks : keysOf "TASKS" ls = ids
  keys : (ids ++ ["default"]).Nodup

section Names

lemma isNotable_dispatch (id : String) : isNotable ("_dispatch_" ++ id) = true := by
  simp [isNotable, String.toList_append, List.isPrefixOf]

lemma isNotable_define (id : String) : isNotable ("_define_" ++ id) = true := by
  simp [isNotable, String.toList_append, List.isPrefixOf]

lemma append_left_injective (s : String) : Function.Injective (s ++ ·) := by
  intro t u h
  simpa using h

lemma nodup_functionsOf {ids : List String} (hids : (ids ++ ["default"]).Nodup) :
    (functionsOf ids).Nodup := by
  have hdispatch := hids.map (append_left_injective "_dispatch_")
  have hdefine := (List.nodup_append.1 hids).1.map (append_left_injective "_define_")
  have hsplit : functionsOf ids = (ids ++ ["default"]).map ("_dispatch_" ++ ·) ++
      (ids.map ("_define_" ++ ·) ++ ["bootstrap"]) := by
    simp [functionsOf]
  rw [hsplit, List.nodup_append]
  refine ⟨hdispatch, ?_, ?_⟩
  · rw [List.nodup_append]
    refine ⟨hdefine, by simp, ?_⟩
    intro f hf g hg heq
    obtain ⟨id, -, rfl⟩ := List.mem_map.1 hf
    rw [List.mem_singleton.1 hg] at heq
    simpa using congrArg String.toList heq
  · intro f hf g hg heq
    obtain ⟨id, -, rfl⟩ := List.mem_map.1 hf
    rcases List.mem_append.1 hg with hg | hg
    · obtain ⟨id', -, rfl⟩ := List.mem_map.1 hg
      simpa using congrArg String.toList heq
    · rw [List.mem_singleton.1 hg] at heq
      simpa using congrArg String.toList heq

lemma mem_functionsOf_iff {ids : List String} {f : String} :
    f ∈ functionsOf ids ↔ (∃ id ∈ ids ++ ["default"], "_dispatch_" ++ id = f) ∨
      (∃ id ∈ ids, "_define_" ++ id = f) ∨ f = "bootstrap" := by
  have hdefault : "_dispatch_" ++ "default" = "_dispatch_default" := by decide
  simp only [functionsOf, List.mem_append, List.mem_cons, List.mem_map, List.not_mem_nil, or_false,
    or_and_right, exists_or, exists_eq_left, hdefault, eq_comm, or_assoc]

lemma isName_functionsOf {ids : List String}
    (hids : ∀ id ∈ ids ++ ["default"], ∀ c ∈ id.toList, Token.isWordPart c = true) :
    ∀ f ∈ functionsOf ids, Token.IsName f := by
  intro f hf
  rcases mem_functionsOf_iff.1 hf with ⟨id, hid, rfl⟩ | ⟨id, hid, rfl⟩ | rfl
  · refine ⟨'_', "dispatch_".toList ++ id.toList, String.toList_append, rfl, ?_⟩
    rw [← List.cons_append, List.forall_mem_append]
    exact ⟨by simp [Token.isWordPart], hids id hid⟩
  · refine ⟨'_', "define_".toList ++ id.toList, String.toList_append, rfl, ?_⟩
    rw [← List.cons_append, List.forall_mem_append]
    exact ⟨by simp [Token.isWordPart], hids id (List.mem_append_left _ hid)⟩
  · exact ⟨'b', "ootstrap".toList, rfl, rfl, by simp [Token.isWordPart]⟩

/-- No name is bound twice. -/
lemma nodup_bound {ids : List String} {classes : List TaskClass} (hids : (ids ++ ["default"]).Nodup)
    (hclasses : classes.Pairwise fun k k' => k.name < k'.name) :
    (functionsOf ids ++ "logging" :: classes.map TaskClass.name).Nodup := by
  have hmodule : ∀ k : TaskClass, k.name ≠ "logging" := by
    intro k
    cases k <;> decide
  have hfunction : ∀ f ∈ functionsOf ids, f ≠ "logging" ∧ ∀ k : TaskClass, k.name ≠ f := by
    intro f hf
    have hhead : f.toList.head? = some '_' ∨ f.toList.head? = some 'b' := by
      rcases mem_functionsOf_iff.1 hf with ⟨id, -, rfl⟩ | ⟨id, -, rfl⟩ | rfl
      · simp
      · simp
      · simp
    constructor
    · rintro rfl
      simp at hhead
    · rintro k rfl
      cases k <;> simp [TaskClass.name] at hhead
  rw [List.nodup_append, List.nodup_cons]
  refine ⟨nodup_functionsOf hids, ⟨?_, ?_⟩, ?_⟩
  · intro hmem
    obtain ⟨k, -, hk⟩ := List.mem_map.1 hmem
    exact hmodule k hk
  · rw [List.Nodup, List.pairwise_map]
    exact hclasses.imp fun hlt => ne_of_lt hlt
  · intro f hf g hg heq
    rcases List.mem_cons.1 hg with rfl | hg
    · exact (hfunction f hf).1 heq
    · obtain ⟨k, -, rfl⟩ := List.mem_map.1 hg
      exact (hfunction f hf).2 k heq.symm

lemma IsTaskName.isNotable {f : String} (h : IsTaskName f) : isNotable f = true := by
  rcases h with ⟨tail, h⟩ | ⟨tail, h⟩ | ⟨k, rfl⟩
  · simp [Python.isNotable, ← h, List.isPrefixOf]
  · simp [Python.isNotable, ← h, List.isPrefixOf]
  · cases k <;> decide

lemma not_isTaskName_table {f : String} (hf : f = "TRANSITIONS" ∨ f = "TASKS") :
    ¬ IsTaskName f := by
  rcases hf with rfl | rfl
  · rintro (h | h | ⟨k, hk⟩)
    · simp at h
    · simp at h
    · cases k <;> simp [TaskClass.name] at hk
  · rintro (h | h | ⟨k, hk⟩)
    · simp at h
    · simp at h
    · cases k <;> simp [TaskClass.name] at hk

end Names

end Python

open Python

namespace Program
variable {p : Program} {ids : List String}

/-- The rows of the transition table. -/
def transitionRows (p : Program) : List (String × String) :=
  (p.tableKeys ++ [defaultEntry]).map fun k => (k, "_dispatch_" ++ k)

/-- The rows of the task table. -/
def taskRows (p : Program) : List (String × String) :=
  p.definitions.map fun d => (d.taskId, "_define_" ++ d.taskId)

lemma isWordPart_of_consistent (h : p.Consistent ids) :
    ∀ id ∈ ids ++ [defaultEntry], ∀ c ∈ id.toList, Token.isWordPart c = true := by
  rw [List.forall_mem_append, List.forall_mem_singleton]
  exact ⟨fun id hid => (h.names id hid).1.isWordPart, by simp [defaultEntry, Token.isWordPart]⟩

lemma written_transitionTable (h : p.Consistent ids) :
    Written (lineChars (block p.transitionTable)) (tableLines "TRANSITIONS" p.transitionRows) := by
  apply written_table (by simp [Token.isWordPart]) (by decide)
  intro row hrow
  obtain ⟨key, hkey, rfl⟩ := List.mem_map.1 hrow
  rw [h.tableKeys] at hkey
  refine ⟨?_, by simp⟩
  rw [String.toList_append, List.forall_mem_append]
  exact ⟨by simp [Token.isWordPart], isWordPart_of_consistent h key hkey⟩

lemma written_taskTable (h : p.Consistent ids) :
    Written (lineChars (block p.taskTable)) (tableLines "TASKS" p.taskRows) := by
  apply written_table (by simp [Token.isWordPart]) (by decide)
  intro row hrow
  obtain ⟨d, hd, rfl⟩ := List.mem_map.1 hrow
  have hid : d.taskId ∈ ids := h.definitions ▸ List.mem_map_of_mem hd
  refine ⟨?_, by simp⟩
  rw [String.toList_append, List.forall_mem_append]
  exact ⟨by simp [Token.isWordPart], isWordPart_of_consistent h _ (List.mem_append_left _ hid)⟩

/-- The text of a program is its two tables with lines around them. -/
lemma exists_lines_python (h : p.Consistent ids) :
    ∃ before between after, Python.lines p.python.toList = before ++
        (tableLines "TRANSITIONS" p.transitionRows ++
          (between ++ (tableLines "TASKS" p.taskRows ++ after))) ∧
      Outlines before (p.entries.map (fun e => "_dispatch_" ++ e.taskId) ++ ["_dispatch_default"])
        ("logging" :: p.classes.map TaskClass.name) (p.entries.map fun _ => "_dispatch_default") ∧
      Outlines between (p.definitions.map fun d => "_define_" ++ d.taskId) []
        (p.definitions.map fun d => d.taskClass.name) ∧
      Outlines after ["bootstrap"] [] ["TASKS", "TRANSITIONS"] := by
  have hword : ∀ id ∈ ids, ∀ c ∈ id.toList, Token.isWordPart c = true :=
    fun id hid => (h.names id hid).1.isWordPart
  have hentries : Reads (p.entries.flatMap fun e => lineChars (block e.python))
      (p.entries.map fun e => "_dispatch_" ++ e.taskId) []
      (p.entries.map fun _ => "_dispatch_default") := by
    apply Reads.flatMap_map
    intro e he
    exact Entry.reads_block (hword _ (h.entries ▸ List.mem_map_of_mem he))
  have hdefinitions : Reads (p.definitions.flatMap fun d => lineChars (block d.python))
      (p.definitions.map fun d => "_define_" ++ d.taskId) []
      (p.definitions.map fun d => d.taskClass.name) := by
    apply Reads.flatMap_map
    intro d hd
    exact Definition.reads_block (hword _ (h.definitions ▸ List.mem_map_of_mem hd))
  have hblank : Outlines (Python.lines []) [] [] [] := ⟨rfl, rfl, rfl⟩
  obtain ⟨before, hbefore, houtbefore⟩ :=
    (reads_header (hword _ h.start)).append (hentries.append reads_defaultLines)
  obtain ⟨between, hbetween, houtbetween⟩ := hdefinitions
  obtain ⟨after, hafter, houtafter⟩ := reads_bootstrapLines
  have hall := hbefore.append ((written_transitionTable h).append (hbetween.append
    ((written_taskTable h).append hafter))) []
  refine ⟨before, between, after ++ Python.lines [], ?_, ?_, houtbetween, houtafter.append hblank⟩
  · rw [toList_python]
    simpa only [List.append_assoc, List.append_nil] using hall
  · simpa using houtbefore

lemma outlines_transitions (h : p.Consistent ids) :
    Outlines (tableLines "TRANSITIONS" p.transitionRows) [] []
      ("TRANSITIONS" :: (ids ++ [defaultEntry]).map ("_dispatch_" ++ ·)) := by
  have hrows : p.transitionRows.map Prod.snd = (ids ++ [defaultEntry]).map ("_dispatch_" ++ ·) := by
    unfold transitionRows
    rw [h.tableKeys, List.map_map]
    rfl
  rw [← hrows]
  apply outlines_tableLines ⟨rfl, rfl, rfl⟩
  intro row hrow
  obtain ⟨key, -, rfl⟩ := List.mem_map.1 hrow
  exact isNotable_dispatch key

lemma outlines_tasks (h : p.Consistent ids) :
    Outlines (tableLines "TASKS" p.taskRows) [] [] ("TASKS" :: ids.map ("_define_" ++ ·)) := by
  have hrows : p.taskRows.map Prod.snd = ids.map ("_define_" ++ ·) := by
    unfold taskRows
    rw [← h.definitions, List.map_map, List.map_map]
    rfl
  rw [← hrows]
  apply outlines_tableLines ⟨rfl, rfl, rfl⟩
  intro row hrow
  obtain ⟨d, -, rfl⟩ := List.mem_map.1 hrow
  exact isNotable_define d.taskId

lemma nodup_keys (h : p.Consistent ids) : (ids ++ [defaultEntry]).Nodup := by
  rw [List.nodup_append]
  refine ⟨h.distinct, by simp, ?_⟩
  intro id hid key hkey heq
  rw [List.mem_singleton.1 hkey] at heq
  exact (h.names id hid).2.2 heq

lemma map_escaped_keys (h : p.Consistent ids) {keys : List String}
    (hkeys : ∀ key ∈ keys, key ∈ ids ++ [defaultEntry]) : keys.map escaped = keys := by
  conv_rhs => rw [← List.map_id keys]
  apply List.map_congr_left
  intro key hkey
  exact escaped_of_word (isWordPart_of_consistent h key (hkeys key hkey))

/-- The notable words that the text of a program uses. -/
def references (p : Program) (ids : List String) : List String :=
  p.entries.map (fun _ => "_dispatch_default") ++
    ("TRANSITIONS" :: (ids ++ [defaultEntry]).map ("_dispatch_" ++ ·) ++
      (p.definitions.map (fun d => d.taskClass.name) ++
        ("TASKS" :: ids.map ("_define_" ++ ·) ++ ["TASKS", "TRANSITIONS"])))

lemma mem_bound_of_references (h : p.Consistent ids) {f : String} (hf : f ∈ p.references ids)
    (hname : IsTaskName f) : f ∈ functionsOf ids ++ "logging" :: p.classes.map TaskClass.name := by
  have htable : ¬ (f = "TRANSITIONS" ∨ f = "TASKS") := fun htable =>
    not_isTaskName_table htable hname
  rw [not_or] at htable
  simp only [references, List.mem_append, List.mem_cons, List.mem_map, List.not_mem_nil, or_false,
    htable, false_or] at hf
  rw [List.mem_append, mem_functionsOf_iff]
  rcases hf with ⟨e, -, rfl⟩ | ⟨id, hid, rfl⟩ | ⟨d, hd, rfl⟩ | ⟨id, hid, rfl⟩
  · exact .inl (.inl ⟨"default", by simp, by decide⟩)
  · exact .inl (.inl ⟨id, by simpa [defaultEntry] using hid, rfl⟩)
  · exact .inr (List.mem_cons_of_mem _ (List.mem_map_of_mem ((h.classes _).2 ⟨d, hd, rfl⟩)))
  · exact .inl (.inr (.inl ⟨id, hid, rfl⟩))

lemma map_fst_transitionRows (h : p.Consistent ids) :
    p.transitionRows.map (fun row => escaped row.1) = ids ++ [defaultEntry] := by
  rw [← map_escaped_keys h fun _ hkey => hkey, ← h.tableKeys]
  exact List.map_map

lemma map_fst_taskRows (h : p.Consistent ids) :
    p.taskRows.map (fun row => escaped row.1) = ids := by
  rw [← map_escaped_keys h fun _ hkey => List.mem_append_left _ hkey, ← h.definitions, taskRows,
    List.map_map, List.map_map]
  rfl

lemma functions_of_parts (h : p.Consistent ids) :
    p.entries.map (fun e => "_dispatch_" ++ e.taskId) ++ ["_dispatch_default"] ++
      (p.definitions.map (fun d => "_define_" ++ d.taskId) ++ ["bootstrap"]) = functionsOf ids := by
  have hentries : p.entries.map (fun e => "_dispatch_" ++ e.taskId) =
      ids.map ("_dispatch_" ++ ·) := by
    rw [← h.entries, List.map_map]
    rfl
  have hdefinitions : p.definitions.map (fun d => "_define_" ++ d.taskId) =
      ids.map ("_define_" ++ ·) := by
    rw [← h.definitions, List.map_map]
    rfl
  rw [hentries, hdefinitions]
  simp [functionsOf]

/-- Every part of a program is used in its text. -/
lemma mem_references (h : p.Consistent ids) :
    (∀ id ∈ "default" :: ids, "_dispatch_" ++ id ∈ p.references ids) ∧
      (∀ id ∈ ids, "_define_" ++ id ∈ p.references ids) ∧
      ∀ k ∈ p.classes, k.name ∈ p.references ids := by
  refine ⟨fun id hid => ?_, fun id hid => ?_, fun k hk => ?_⟩
  · rcases List.mem_cons.1 hid with rfl | hid
    · simp [references, defaultEntry]
    · simp [references, hid]
  · simp [references, hid]
  · obtain ⟨d, hd, rfl⟩ := (h.classes k).1 hk
    simp only [references, List.mem_append]
    exact .inr (.inr (.inl (List.mem_map_of_mem hd)))

lemma className_ne_tasks (k : TaskClass) : k.name ≠ "TASKS" := by
  cases k <;> decide

lemma dispatch_ne_tasks (id : String) : "_dispatch_" ++ id ≠ "TASKS" := by
  intro heq
  simpa using congrArg String.toList heq

/-- The text of a program with consistent parts is well scoped. -/
theorem wellScoped_python (h : p.Consistent ids) :
    WellScoped (Python.lines p.python.toList) ids p.classes := by
  obtain ⟨before, between, after, hlines, hbefore, hbetween, hafter⟩ := exists_lines_python h
  have hall := hbefore.append ((outlines_transitions h).append (hbetween.append
    ((outlines_tasks h).append hafter)))
  rw [← hlines] at hall
  have hfunctions : defined (Python.lines p.python.toList) = functionsOf ids := by
    rw [hall.defined, ← functions_of_parts h]
    simp
  have himports : imported (Python.lines p.python.toList) =
      "logging" :: p.classes.map TaskClass.name := by
    rw [hall.imported]
    simp
  have hused : ∀ f, isNotable f = true →
      (f ∈ used (Python.lines p.python.toList) ↔ f ∈ p.references ids) :=
    fun f hf => hall.mem_used_iff hf
  obtain ⟨hdispatch, hdefine, hclass⟩ := mem_references h
  constructor
  · exact hfunctions
  · rw [hfunctions]
    exact isName_functionsOf (isWordPart_of_consistent h)
  · rw [hfunctions]
    exact nodup_functionsOf (nodup_keys h)
  · intro f hf hname
    rw [hfunctions, himports]
    apply List.count_eq_one_of_mem (nodup_bound (nodup_keys h) h.sorted)
    exact mem_bound_of_references h ((hused f hname.isNotable).1 hf) hname
  · intro id hid
    exact (hused _ (isNotable_dispatch id)).2 (hdispatch id hid)
  · intro id hid
    exact (hused _ (isNotable_define id)).2 (hdefine id hid)
  · intro k hk
    exact (hused _ (IsTaskName.isNotable (.inr (.inr ⟨_, rfl⟩)))).2 (hclass k hk)
  · rw [hlines, keysOf_table rfl, map_fst_transitionRows h]
    · rfl
    · rw [hbefore.mem_used_iff rfl]
      simp
  · rw [hlines, ← List.append_assoc, ← List.append_assoc, keysOf_table rfl, map_fst_taskRows h]
    rw [((hbefore.append (outlines_transitions h)).append hbetween).mem_used_iff rfl]
    simp [className_ne_tasks, dispatch_ne_tasks, (dispatch_ne_tasks _).symm]
  · exact nodup_keys h

end Program

namespace Compilation

/-- All parts of a compiled program list the declared tasks, and its text binds once every function
and class of a task that it refers to. -/
theorem wellScoped_of_compile {source : String} {areas : Waypoints} {output : Output}
    (h : (compile source areas).result = .ok output) :
    ∃ tokens script, Token.scan source = .ok tokens ∧ Script.parse tokens = .ok script ∧
      output.program.Consistent (script.tasks.map TaskDecl.name) ∧
      WellScoped (Python.lines output.python.toList) (script.tasks.map TaskDecl.name)
        output.program.classes := by
  rw [python_eq_of_compile h]
  obtain ⟨tokens, script, mission, hscan, hparse, hmission, rfl⟩ := compile_eq_ok_iff.1 h
  have hconsistent := Program.consistent_ofMission (Mission.isOf_of_ofScript hmission)
    (fun d hd => Script.isName_of_parse hscan hparse hd)
  exact ⟨tokens, script, hscan, hparse, hconsistent, Program.wellScoped_python hconsistent⟩

/-- A track that hands over to a test. -/
def handoverSource : String :=
  "task \x7b track Follow \x7b gimbal_pitch: -1.5, class: car, model: coco \x7d " ++
    "test Idle \x7b \x7d \x7d mission \x7b start: Follow transition(lost) Follow -> Idle \x7d"

theorem wellScoped_handover :
    ∃ output tokens script, (compile handoverSource Catalog.empty).result = .ok output ∧
      Token.scan handoverSource = .ok tokens ∧ Script.parse tokens = .ok script ∧
      output.program.Consistent (script.tasks.map TaskDecl.name) ∧
      WellScoped (Python.lines output.python.toList) (script.tasks.map TaskDecl.name)
        output.program.classes := by
  have hcompiles : (compile handoverSource Catalog.empty).result.toOption.isSome = true := by
    decide +kernel
  cases h : (compile handoverSource Catalog.empty).result with
  | error e =>
    rw [h] at hcompiles
    cases hcompiles
  | ok output =>
    obtain ⟨tokens, script, hscan, hparse, hscoped⟩ := wellScoped_of_compile h
    exact ⟨output, tokens, script, rfl, hscan, hparse, hscoped⟩

end Compilation

end Sortie
