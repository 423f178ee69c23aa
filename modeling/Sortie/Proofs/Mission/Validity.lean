import Sortie.Mission.Validity
import Sortie.Proofs.Mission.Description

/-! What the rules of a mission graph amount to. -/
namespace Sortie

lemma Except.forM_eq_ok_iff {ε α : Type} {f : α → Except ε Unit} {xs : List α} :
    xs.forM f = .ok () ↔ ∀ x ∈ xs, f x = .ok () := by
  induction xs with
  | nil => simp [pure, Except.pure]
  | cons x xs ih =>
    change (f x >>= fun _ => xs.forM f) = .ok () ↔ _
    rw [Except.bind_eq_ok_iff, List.forall_mem_cons, ih]
    constructor
    · rintro ⟨u, hx, hxs⟩
      exact ⟨hx, hxs⟩
    · rintro ⟨hx, hxs⟩
      exact ⟨(), hx, hxs⟩

namespace Mission

/-- A transition that is listed under its source and leads to a declared task or to the end. -/
def KeepsEdge (m : Mission) (key : String) (t : Transition) : Prop :=
  t.source = key ∧ ∀ id, t.destination = .task id → id ∈ m.tasks.keys

/-- The rules that a checked mission keeps. -/
structure Sound (m : Mission) : Prop where
  ids : ∀ e ∈ m.tasks.entries, e.2.id ∉ reservedIds
  start : m.start ∈ m.tasks.keys
  edges : ∀ e ∈ m.tasks.entries, ∀ t ∈ e.2.transitions, m.KeepsEdge e.1 t

variable (m : Mission)

lemma checkIds_eq_ok_iff :
    m.checkIds = .ok () ↔ ∀ e ∈ m.tasks.entries, e.2.id ∉ reservedIds := by
  have hfind : m.checkIds = .ok () ↔
      (m.tasks.values.find? fun t => reservedIds.contains t.id) = none := by
    unfold checkIds
    cases m.tasks.values.find? fun t => reservedIds.contains t.id <;> simp
  rw [hfind, List.find?_eq_none]
  unfold Catalog.values
  rw [List.forall_mem_map]
  simp only [List.contains_iff_mem]

lemma checkStart_eq_ok_iff : m.checkStart = .ok () ↔ m.start ∈ m.tasks.keys := by
  unfold checkStart
  rw [← Catalog.contains_iff]
  split <;> simp_all

lemma checkTransition_eq_ok_iff (key : String) (t : Transition) :
    m.checkTransition key t = .ok () ↔ m.KeepsEdge key t := by
  unfold checkTransition KeepsEdge
  by_cases hs : t.source = key
  · cases hd : t.destination with
    | terminate => simp [hs]
    | task id =>
      simp only [hs, ne_eq, not_true_eq_false, if_false, true_and, Destination.task.injEq,
        forall_eq', ← Catalog.contains_iff]
      split <;> simp_all
  · simp [hs]

theorem validate_eq_ok_iff : m.validate = .ok () ↔ m.Sound := by
  unfold validate
  simp only [Except.bind_eq_ok_iff, Except.forM_eq_ok_iff, checkTransition_eq_ok_iff]
  constructor
  · rintro ⟨u, hids, v, hstart, hedges⟩
    exact ⟨m.checkIds_eq_ok_iff.1 hids, m.checkStart_eq_ok_iff.1 hstart, hedges⟩
  · rintro ⟨hids, hstart, hedges⟩
    exact ⟨(), m.checkIds_eq_ok_iff.2 hids, (), m.checkStart_eq_ok_iff.2 hstart, hedges⟩

end Mission
end Sortie
