import Mathlib.Data.List.Forall2
import Sortie.Mission.Analysis
import Sortie.Proofs.Catalog

/-! What the mission of a script looks like: its tasks are the declared ones in order, each with the
transitions written for it and the default edge that it lacks. -/
namespace Sortie

lemma Except.bind_eq_ok_iff {ε α β : Type} {x : Except ε α} {f : α → Except ε β} {b : β} :
    (x >>= f) = .ok b ↔ ∃ a, x = .ok a ∧ f a = .ok b := by
  cases x with
  | error e => simp [bind, Except.bind]
  | ok a => simp [bind, Except.bind]

lemma exists_left_of_forall₂ {α β : Type} {R : α → β → Prop} {l : List α} {m : List β}
    (h : List.Forall₂ R l m) {b : β} (hb : b ∈ m) : ∃ a ∈ l, R a b := by
  induction h with
  | nil => cases hb
  | cons hr _ ih =>
    rcases List.mem_cons.1 hb with rfl | hb
    · exact ⟨_, List.mem_cons_self, hr⟩
    · obtain ⟨a, ha, hr⟩ := ih hb
      exact ⟨a, List.mem_cons_of_mem _ ha, hr⟩

lemma map_eq_of_forall₂ {α β γ : Type} {R : α → β → Prop} {f : α → γ} {g : β → γ}
    (hR : ∀ a b, R a b → g b = f a) {l : List α} {m : List β} (h : List.Forall₂ R l m) :
    m.map g = l.map f := by
  induction h with
  | nil => rfl
  | cons hr _ ih => rw [List.map_cons, List.map_cons, hR _ _ hr, ih]

lemma Traced.result_foldlM {ε α β : Type} (f : β → α → Traced ε β) (b : β) (xs : List α) :
    (xs.foldlM f b).result = xs.foldlM (fun b a => (f b a).result) b := by
  induction xs generalizing b with
  | nil => rfl
  | cons x xs ih =>
    rw [List.foldlM_cons, List.foldlM_cons, Traced.result_bind]
    congr 1
    funext b'
    exact ih b'

/-- The transitions that leave a task, in the order in which they are written. -/
def Script.leaving (s : Script) (id : String) : List TransitionDecl :=
  s.transitions.filter fun d => d.source = id

namespace Mission
variable {areas : Waypoints} {script : Script} {mission : Mission}

/-- A declared task as it is entered, without transitions. -/
def Enters (areas : Waypoints) (d : TaskDecl) (e : String × Task) : Prop :=
  ∃ work, d.work areas = .ok work ∧ e = (d.name, ⟨d.name, work, [], d.position⟩)

lemma result_resolve_eq_ok_iff {d : TaskDecl} {task : Task} :
    (d.resolve areas).result = .ok task ↔
      ∃ work, d.work areas = .ok work ∧ task = ⟨d.name, work, [], d.position⟩ := by
  unfold TaskDecl.resolve
  simp only [Traced.result_bind, Traced.result_emitAll, Traced.result_ofExcept, Traced.result_pure,
    Except.bind_eq_ok_iff]
  constructor
  · rintro ⟨-, -, work, hw, h⟩
    exact ⟨work, hw, (Except.ok.inj h).symm⟩
  · rintro ⟨work, hw, rfl⟩
    exact ⟨(), trivial, work, hw, rfl⟩

lemma declare_eq_ok_iff {tasks tasks' : Catalog Task} {d : TaskDecl} :
    (declare areas tasks d).result = .ok tasks' ↔
      d.name ∉ tasks.keys ∧ ∃ e, Enters areas d e ∧ tasks' = tasks.insert e.1 e.2 := by
  unfold declare Enters
  cases hget : tasks.get? d.name with
  | some earlier =>
    have hmem : d.name ∈ tasks.keys := by
      by_contra hn
      rw [(tasks.get?_eq_none_iff d.name).2 hn] at hget
      cases hget
    simp [hmem]
  | none =>
    have hnew : d.name ∉ tasks.keys := (tasks.get?_eq_none_iff d.name).1 hget
    simp only [Traced.result_bind, Traced.result_emit, Traced.result_pure, Except.bind_eq_ok_iff,
      result_resolve_eq_ok_iff]
    constructor
    · rintro ⟨task, ⟨work, hw, rfl⟩, -, -, h⟩
      exact ⟨hnew, _, ⟨work, hw, rfl⟩, (Except.ok.inj h).symm⟩
    · rintro ⟨-, e, ⟨work, hw, rfl⟩, rfl⟩
      exact ⟨_, ⟨work, hw, rfl⟩, (), trivial, rfl⟩

lemma fst_of_enters (d : TaskDecl) (e : String × Task) (h : Enters areas d e) : e.1 = d.name := by
  obtain ⟨work, -, rfl⟩ := h
  rfl

/-- Declaring tasks appends one entry for each, in order. -/
lemma foldlM_declare_entries {ds : List TaskDecl} {tasks tasks' : Catalog Task}
    (h : (ds.foldlM (declare areas) tasks).result = .ok tasks') :
    ∃ new, tasks'.entries = tasks.entries ++ new ∧ List.Forall₂ (Enters areas) ds new := by
  rw [Traced.result_foldlM] at h
  induction ds generalizing tasks with
  | nil =>
    cases h
    exact ⟨[], by simp, .nil⟩
  | cons d ds ih =>
    rw [List.foldlM_cons, Except.bind_eq_ok_iff] at h
    obtain ⟨mid, hd, hds⟩ := h
    obtain ⟨hnew, e, he, rfl⟩ := declare_eq_ok_iff.1 hd
    obtain ⟨new, hentries, hforall⟩ := ih hds
    rw [Catalog.entries_insert_of_new _ _ (fst_of_enters d e he ▸ hnew)] at hentries
    exact ⟨e :: new, by simp [hentries], .cons he hforall⟩

/-- The transitions of a task once the given ones have been listed. -/
def connected (ds : List TransitionDecl) (id : String) (t : Task) : Task :=
  { t with transitions := t.transitions ++ (ds.filter fun d => d.source = id).map .ofDecl }

lemma connect_eq_ok_iff {tasks tasks' : Catalog Task} {d : TransitionDecl} :
    connect tasks d = .ok tasks' ↔ d.source ∈ tasks.keys ∧ tasks' = tasks.map (connected [d]) := by
  unfold connect
  by_cases h : tasks.contains d.source = true
  · have hmod : (tasks.modify d.source fun t => { t with transitions := t.transitions ++ [.ofDecl d] })
        = tasks.map (connected [d]) := by
      unfold Catalog.modify
      congr 1
      funext n t
      by_cases hn : n = d.source
      · simp [connected, hn]
      · simp [connected, hn, Ne.symm hn]
    rw [if_pos h, hmod]
    simp [(tasks.contains_iff _).1 h, eq_comm]
  · have hm : d.source ∉ tasks.keys := fun hm => h ((tasks.contains_iff _).2 hm)
    rw [if_neg h]
    simp [hm]

/-- Listing transitions one after the other leaves each task with its own, in order. -/
lemma foldlM_connect {ds : List TransitionDecl} {tasks tasks' : Catalog Task}
    (h : ds.foldlM connect tasks = .ok tasks') :
    (∀ d ∈ ds, d.source ∈ tasks.keys) ∧ tasks' = tasks.map (connected ds) := by
  induction ds generalizing tasks with
  | nil =>
    cases h
    refine ⟨by simp, Catalog.ext_entries ?_⟩
    simp [connected]
  | cons d ds ih =>
    rw [List.foldlM_cons, Except.bind_eq_ok_iff] at h
    obtain ⟨mid, hd, hds⟩ := h
    obtain ⟨hsource, rfl⟩ := connect_eq_ok_iff.1 hd
    obtain ⟨hsources, rfl⟩ := ih hds
    rw [Catalog.keys_map_eq] at hsources
    refine ⟨List.forall_mem_cons.2 ⟨hsource, hsources⟩, Catalog.ext_entries ?_⟩
    simp only [Catalog.entries_map, List.map_map]
    congr 1
    funext e
    by_cases hn : d.source = e.1
    · simp [connected, hn]
    · simp [connected, hn]

/-- The task of a declaration, with the transitions of its script. -/
def taskOf (script : Script) (d : TaskDecl) (work : Work) : Task :=
  Task.withDefault ⟨d.name, work, (script.leaving d.name).map .ofDecl, d.position⟩

/-- The entry that a declaration has in the finished mission. -/
def Lists (script : Script) (areas : Waypoints) (d : TaskDecl) (e : String × Task) : Prop :=
  ∃ work, d.work areas = .ok work ∧ e = (d.name, taskOf script d work)

@[simp] lemma withDefault_id (t : Task) : t.withDefault.id = t.id := by
  unfold Task.withDefault
  split <;> rfl

lemma taskOf_id (script : Script) (d : TaskDecl) (work : Work) :
    (taskOf script d work).id = d.name := withDefault_id _

/-- A mission that a script describes: declared tasks in order, sources declared, rules kept. -/
structure IsOf (mission : Mission) (script : Script) (areas : Waypoints) : Prop where
  start : mission.start = script.start
  startPosition : mission.startPosition = script.startPosition
  tasks : List.Forall₂ (Lists script areas) script.tasks mission.tasks.entries
  sources : ∀ d ∈ script.transitions, d.source ∈ mission.tasks.keys
  valid : mission.validate = .ok ()

/-- Declared and connected tasks, each with the default edge that it lacks, are those of the
script. -/
lemma lists_of_connect {declared tasks : Catalog Task}
    (hdeclared : (script.tasks.foldlM (declare areas) Catalog.empty).result = .ok declared)
    (hconnect : script.transitions.foldlM connect declared = .ok tasks) :
    List.Forall₂ (Lists script areas) script.tasks (tasks.map fun _ t => t.withDefault).entries ∧
      ∀ d ∈ script.transitions, d.source ∈ tasks.keys := by
  obtain ⟨new, hnew, henters⟩ := foldlM_declare_entries hdeclared
  obtain ⟨hsources, rfl⟩ := foldlM_connect hconnect
  constructor
  · simp only [Catalog.entries_map, hnew, List.map_map, Catalog.empty, List.nil_append]
    rw [List.forall₂_map_right_iff]
    refine henters.imp ?_
    rintro d e ⟨work, hw, rfl⟩
    exact ⟨work, hw, rfl⟩
  · intro d hd
    rw [Catalog.keys_map_eq]
    exact hsources d hd

theorem isOf_of_ofScript (h : (ofScript script areas).result = .ok mission) :
    mission.IsOf script areas := by
  unfold ofScript at h
  simp only [Traced.result_bind, Traced.result_ofExcept, Except.bind_eq_ok_iff] at h
  obtain ⟨declared, hdeclared, tasks, hconnect, u, hvalid, -, -, hm⟩ := h
  obtain ⟨htasks, hsources⟩ := lists_of_connect hdeclared hconnect
  cases hm
  refine ⟨rfl, rfl, htasks, ?_, hvalid⟩
  intro d hd
  rw [Catalog.keys_map_eq]
  exact hsources d hd

lemma fst_of_lists (d : TaskDecl) (e : String × Task) (h : Lists script areas d e) :
    e.1 = d.name := by
  obtain ⟨work, -, rfl⟩ := h
  rfl

namespace IsOf
variable (h : mission.IsOf script areas)
include h

lemma keys_eq : mission.tasks.keys = script.tasks.map TaskDecl.name :=
  map_eq_of_forall₂ fst_of_lists h.tasks

/-- Every task is listed under its own name. -/
lemma id_eq {e : String × Task} (he : e ∈ mission.tasks.entries) : e.2.id = e.1 := by
  obtain ⟨d, -, work, -, rfl⟩ := exists_left_of_forall₂ h.tasks he
  exact taskOf_id script d work

lemma get?_of_mem {name : String} (hmem : name ∈ script.tasks.map TaskDecl.name) :
    ∃ d ∈ script.tasks, d.name = name ∧ ∃ work, d.work areas = .ok work ∧
      mission.tasks.get? name = some (taskOf script d work) := by
  rw [← h.keys_eq] at hmem
  obtain ⟨e, he, rfl⟩ := List.mem_map.1 hmem
  obtain ⟨d, hd, work, hw, rfl⟩ := exists_left_of_forall₂ h.tasks he
  exact ⟨d, hd, rfl, work, hw, (mission.tasks.get?_eq_some_iff _ _).2 he⟩

end IsOf

end Mission
end Sortie
