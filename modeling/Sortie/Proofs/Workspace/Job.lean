import Mathlib.Tactic.Common
import Sortie.Workspace.Job

/-! Traced computations and jobs obey the laws of monads. A job on a disk held as a value comes to a
result and the disk that it leaves. -/
namespace Sortie

namespace Traced
variable {ε α β γ : Type}

lemma id_map (x : Traced ε α) : id <$> x = x := by
  obtain ⟨events, e | a⟩ := x
  · rfl
  · change (⟨events ++ [], .ok a⟩ : Traced ε α) = _
    rw [List.append_nil]

lemma pure_bind (a : α) (f : α → Traced ε β) : Pure.pure a >>= f = f a := rfl

lemma bind_assoc (x : Traced ε α) (f : α → Traced ε β) (g : β → Traced ε γ) :
    x >>= f >>= g = x >>= fun a => f a >>= g := by
  obtain ⟨events, e | a⟩ := x
  · rfl
  · change Traced.bind ⟨events ++ (f a).events, (f a).result⟩ g =
      ⟨events ++ (Traced.bind (f a) g).events, (Traced.bind (f a) g).result⟩
    rcases f a with ⟨events', e | b⟩
    · rfl
    · change (⟨events ++ events' ++ (g b).events, (g b).result⟩ : Traced ε γ) =
        ⟨events ++ (events' ++ (g b).events), (g b).result⟩
      rw [List.append_assoc]

instance : LawfulMonad (Traced ε) := LawfulMonad.mk' _ id_map pure_bind bind_assoc

end Traced

namespace Job
variable {ε α β γ : Type}

/-- A job is one traced computation and one change of the disk after the other. -/
lemma run_bind_apply (x : Job (StateM Disk) ε α) (f : α → Job (StateM Disk) ε β) (d : Disk) :
    (x >>= f).run d = match (x.run d).1.result with
      | .error e => (⟨(x.run d).1.events, .error e⟩, (x.run d).2)
      | .ok a => (⟨(x.run d).1.events ++ ((f a).run (x.run d).2).1.events,
          ((f a).run (x.run d).2).1.result⟩, ((f a).run (x.run d).2).2) := by
  rw [run_bind]
  rcases hrun : x.run d with ⟨⟨events, e | a⟩, d₁⟩
  · simp only [bind, StateT.bind, hrun]
    rfl
  · simp only [bind, StateT.bind, hrun]
    rfl

lemma ext_run {x y : Job (StateM Disk) ε α} (h : ∀ d, x.run d = y.run d) : x = y := by
  cases x
  cases y
  congr 1
  funext d
  exact h d

lemma id_map (x : Job (StateM Disk) ε α) : id <$> x = x := by
  apply ext_run
  intro d
  change (x >>= fun a => Pure.pure (id a)).run d = x.run d
  rw [run_bind_apply]
  rcases x.run d with ⟨⟨events, e | a⟩, d₁⟩
  · rfl
  · change ((⟨events ++ [], .ok a⟩ : Traced ε α), d₁) = _
    rw [List.append_nil]

lemma pure_bind (a : α) (f : α → Job (StateM Disk) ε β) : Pure.pure a >>= f = f a := by
  apply ext_run
  intro d
  rw [run_bind_apply]
  rfl

lemma bind_assoc (x : Job (StateM Disk) ε α) (f : α → Job (StateM Disk) ε β)
    (g : β → Job (StateM Disk) ε γ) : x >>= f >>= g = x >>= fun a => f a >>= g := by
  apply ext_run
  intro d
  simp only [run_bind_apply]
  rcases x.run d with ⟨⟨events, e | a⟩, d₁⟩
  · rfl
  · simp only
    rcases (f a).run d₁ with ⟨⟨events', e | b⟩, d₂⟩
    · rfl
    · simp only [List.append_assoc]

instance : LawfulMonad (Job (StateM Disk) ε) := LawfulMonad.mk' _ id_map pure_bind bind_assoc

end Job

section Change
variable {d d' : Disk} {f : Disk → Except DiskFault Disk}

lemma Disk.change_of_ok (h : f d = .ok d') : Disk.change f d = (.ok (), d') := by
  unfold Disk.change
  rw [h]

lemma Disk.change_of_error {fault : DiskFault} (h : f d = .error fault) :
    Disk.change f d = (.error fault, d) := by
  unfold Disk.change
  rw [h]

end Change

namespace Job
variable {ε α β : Type}

/-- The result of a job with the disk after it. -/
def outcome (j : Job (StateM Disk) ε α) (d : Disk) : Except ε α × Disk :=
  ((j.run d).1.result, (j.run d).2)

variable {x : Job (StateM Disk) ε α} {f : α → Job (StateM Disk) ε β} {d d' : Disk}

@[simp] lemma outcome_pure (a : α) :
    (Pure.pure a : Job (StateM Disk) ε α).outcome d = (.ok a, d) := rfl

@[simp] lemma outcome_lift (y : StateM Disk α) :
    (lift y : Job (StateM Disk) ε α).outcome d = (.ok (y d).1, (y d).2) := rfl

@[simp] lemma outcome_ofTraced (t : Traced ε α) :
    (ofTraced t : Job (StateM Disk) ε α).outcome d = (t.result, d) := rfl

@[simp] lemma outcome_fail (e : ε) :
    (fail e : Job (StateM Disk) ε α).outcome d = (.error e, d) := rfl

@[simp] lemma outcome_emit (e : Event) :
    (emit e : Job (StateM Disk) ε Unit).outcome d = (.ok (), d) := rfl

@[simp] lemma outcome_attempt (onFault : DiskFault → ε) (y : StateM Disk (Except DiskFault α)) :
    (attempt onFault y).outcome d = ((y d).1.mapError onFault, (y d).2) := rfl

section Attempt
variable {onFault : DiskFault → ε} {y : StateM Disk (Except DiskFault α)} {p q : Path}
  {text : String} {fault : DiskFault}

lemma outcome_attempt_of_ok {a : α} (h : y d = (.ok a, d')) :
    (attempt onFault y).outcome d = (.ok a, d') := by
  rw [outcome_attempt, h]
  rfl

lemma outcome_attempt_of_error (h : y d = (.error fault, d')) :
    (attempt onFault y).outcome d = (.error (onFault fault), d') := by
  rw [outcome_attempt, h]
  rfl

lemma outcome_makeFolder_of_ok (h : d.makeFolder p = .ok d') :
    (attempt onFault (Files.makeFolder p)).outcome d = (.ok (), d') :=
  outcome_attempt_of_ok (Disk.change_of_ok h)

lemma outcome_makeFolder_of_error (h : d.makeFolder p = .error fault) :
    (attempt onFault (Files.makeFolder p)).outcome d = (.error (onFault fault), d) :=
  outcome_attempt_of_error (Disk.change_of_error h)

lemma outcome_write_of_ok (h : d.write p text = .ok d') :
    (attempt onFault (Files.write p text)).outcome d = (.ok (), d') :=
  outcome_attempt_of_ok (Disk.change_of_ok h)

lemma outcome_write_of_error (h : d.write p text = .error fault) :
    (attempt onFault (Files.write p text)).outcome d = (.error (onFault fault), d) :=
  outcome_attempt_of_error (Disk.change_of_error h)

lemma outcome_move_of_ok (h : d.move p q = .ok d') :
    (attempt onFault (Files.move p q)).outcome d = (.ok (), d') :=
  outcome_attempt_of_ok (Disk.change_of_ok h)

lemma outcome_move_of_error (h : d.move p q = .error fault) :
    (attempt onFault (Files.move p q)).outcome d = (.error (onFault fault), d) :=
  outcome_attempt_of_error (Disk.change_of_error h)

end Attempt

lemma outcome_bind : (x >>= f).outcome d = match x.outcome d with
    | (.ok a, d₁) => (f a).outcome d₁
    | (.error e, d₁) => (.error e, d₁) := by
  unfold outcome
  rw [run_bind_apply]
  rcases x.run d with ⟨⟨events, e | a⟩, d₁⟩
  · rfl
  · rfl

lemma outcome_bind_eq_ok_iff {b : β} : (x >>= f).outcome d = (.ok b, d') ↔
    ∃ a d₁, x.outcome d = (.ok a, d₁) ∧ (f a).outcome d₁ = (.ok b, d') := by
  rw [outcome_bind]
  rcases x.outcome d with ⟨e | a, d₁⟩
  · simp
  · simp

lemma outcome_bind_of_ok {a : α} {d₁ : Disk} (h : x.outcome d = (.ok a, d₁)) :
    (x >>= f).outcome d = (f a).outcome d₁ := by
  rw [outcome_bind, h]

lemma outcome_bind_of_error {e : ε} {d₁ : Disk} (h : x.outcome d = (.error e, d₁)) :
    (x >>= f).outcome d = (.error e, d₁) := by
  rw [outcome_bind, h]

lemma outcome_onFailure (cleanup : StateM Disk Unit) :
    (x.onFailure cleanup).outcome d = match x.outcome d with
      | (.ok a, d₁) => (.ok a, d₁)
      | (.error e, d₁) => (.error e, (cleanup d₁).2) := by
  unfold outcome onFailure
  simp only [bind, StateT.bind]
  rcases x.run d with ⟨⟨events, e | a⟩, d₁⟩
  · rfl
  · rfl

lemma outcome_andFinally (cleanup : StateM Disk Unit) :
    (x.andFinally cleanup).outcome d = ((x.outcome d).1, (cleanup (x.outcome d).2).2) := by
  unfold outcome andFinally
  simp only [bind, StateT.bind]
  rcases x.run d with ⟨⟨events, r⟩, d₁⟩
  rfl

/-- A job that leaves the disk as it is. -/
def KeepsDisk (x : Job (StateM Disk) ε α) : Prop := ∀ d, (x.outcome d).2 = d

lemma KeepsDisk.bind (hx : x.KeepsDisk) (hf : ∀ a, (f a).KeepsDisk) : (x >>= f).KeepsDisk := by
  intro d
  have hx := hx d
  rcases h : x.outcome d with ⟨e | a, d₁⟩
  · rw [h] at hx
    rw [outcome_bind_of_error h]
    exact hx
  · rw [h] at hx
    rw [outcome_bind_of_ok h, hf a d₁]
    exact hx

/-- A loop of checks: where each leaves the disk as it is and decides something, the loop decides it
of all. -/
lemma forM_cases {g : α → Job (StateM Disk) ε Unit} {P : α → Prop}
    (hg : ∀ a r d', (g a).outcome d = (r, d') → d' = d ∧ (r = .ok () ↔ P a)) {as : List α}
    {r : Except ε Unit} (h : (as.forM g).outcome d = (r, d')) :
    d' = d ∧ (r = .ok () ↔ ∀ a ∈ as, P a) := by
  induction as with
  | nil =>
    obtain ⟨rfl, rfl⟩ : .ok () = r ∧ d = d' := by simpa using h
    exact ⟨rfl, by simp⟩
  | cons a as ih =>
    rw [List.forM] at h
    rw [List.forall_mem_cons]
    rcases hfirst : (g a).outcome d with ⟨e | u, d₁⟩
    · obtain ⟨rfl, ha⟩ := hg a _ _ hfirst
      rw [outcome_bind_of_error hfirst] at h
      obtain ⟨rfl, rfl⟩ := Prod.mk.inj h
      exact ⟨rfl, by simp [← ha]⟩
    · obtain ⟨rfl, ha⟩ := hg a _ _ hfirst
      rw [outcome_bind_of_ok hfirst] at h
      obtain ⟨hd, hrest⟩ := ih h
      exact ⟨hd, by simp [hrest, ← ha]⟩

end Job
end Sortie
