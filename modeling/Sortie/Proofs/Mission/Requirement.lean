import Mathlib.Data.List.Forall2

/-! Requirements that are checked one after the other, and checks that report the first one that is
not met. -/
namespace Sortie

/-- Something that has to hold, and the fault that is reported where it does not. -/
structure Requirement (ε : Type) where
  met : Prop
  fault : ε

namespace Requirement
variable {ε α β : Type} {rs ss : List (Requirement ε)} {e : ε} {x : Except ε α}

/-- The fault of the first requirement that is not met. -/
inductive FirstUnmet : List (Requirement ε) → ε → Prop
  | here {r rs} (unmet : ¬ r.met) : FirstUnmet (r :: rs) r.fault
  | later {r rs e} (met : r.met) (rest : FirstUnmet rs e) : FirstUnmet (r :: rs) e

lemma FirstUnmet.not_all_met (h : FirstUnmet rs e) : ¬ ∀ r ∈ rs, r.met := by
  induction h with
  | here unmet => simp [unmet]
  | later met _ ih => simpa [met] using ih

lemma FirstUnmet.exists_unmet (h : FirstUnmet rs e) : ∃ r ∈ rs, ¬ r.met ∧ r.fault = e := by
  induction h with
  | @here r rs unmet => exact ⟨r, by simp, unmet, rfl⟩
  | later _ _ ih =>
    obtain ⟨r, hr, hunmet⟩ := ih
    exact ⟨r, by simp [hr], hunmet⟩

lemma FirstUnmet.unique {e' : ε} (h : FirstUnmet rs e) (h' : FirstUnmet rs e') : e = e' := by
  induction h with
  | here unmet =>
    cases h' with
    | here _ => rfl
    | later met _ => exact absurd met unmet
  | later met _ ih =>
    cases h' with
    | here unmet => exact absurd met unmet
    | later _ rest => exact ih rest

lemma FirstUnmet.append (h : FirstUnmet rs e) (ss : List (Requirement ε)) :
    FirstUnmet (rs ++ ss) e := by
  induction h with
  | here unmet => exact .here unmet
  | later met _ ih => exact .later met ih

lemma FirstUnmet.append_left (h : FirstUnmet ss e) (hrs : ∀ r ∈ rs, r.met) :
    FirstUnmet (rs ++ ss) e := by
  induction rs with
  | nil => exact h
  | cons r rs ih =>
    rw [List.forall_mem_cons] at hrs
    exact .later hrs.1 (ih hrs.2)

/-- The outcomes of a check: success where all requirements are met, else the fault of the first one
that is not. -/
inductive Decides (rs : List (Requirement ε)) : Except ε α → Prop
  | passed {a : α} (all : ∀ r ∈ rs, r.met) : Decides rs (.ok a)
  | failed {e : ε} (first : FirstUnmet rs e) : Decides rs (.error e)

namespace Decides

lemma exists_ok_iff (h : Decides rs x) : (∃ a, x = .ok a) ↔ ∀ r ∈ rs, r.met := by
  cases h with
  | @passed a all => simpa using all
  | failed first => simpa using first.not_all_met

lemma eq_error_iff (h : Decides rs x) : x = .error e ↔ FirstUnmet rs e := by
  cases h with
  | passed all =>
    refine ⟨by simp, ?_⟩
    intro hfirst
    exact absurd all hfirst.not_all_met
  | failed first =>
    constructor
    · intro heq
      cases heq
      exact first
    · intro hother
      rw [first.unique hother]

lemma ok (a : α) : Decides ([] : List (Requirement ε)) (.ok a : Except ε α) := .passed (by simp)

lemma map (f : α → β) (hx : Decides rs x) : Decides rs (f <$> x) := by
  cases hx with
  | passed all => exact .passed all
  | failed first => exact .failed first

lemma cons_met {r : Requirement ε} (hr : r.met) (hx : Decides rs x) : Decides (r :: rs) x := by
  cases hx with
  | passed all => exact .passed (List.forall_mem_cons.2 ⟨hr, all⟩)
  | failed first => exact .failed (.later hr first)

/-- A check that goes on after its first part has succeeded. -/
lemma bind {f : α → Except ε β} (hx : Decides rs x) (hf : ∀ a, x = .ok a → Decides ss (f a)) :
    Decides (rs ++ ss) (x >>= f) := by
  cases hx with
  | failed first => exact .failed (first.append ss)
  | @passed a all =>
    change Decides (rs ++ ss) (f a)
    have hrest := hf a rfl
    generalize f a = y at hrest
    cases hrest with
    | passed more => exact .passed (List.forall_mem_append.2 ⟨all, more⟩)
    | failed first => exact .failed (first.append_left all)

lemma cons_bind {r : Requirement ε} {f : α → Except ε β} (hx : Decides [r] x)
    (hf : ∀ a, x = .ok a → Decides ss (f a)) : Decides (r :: ss) (x >>= f) :=
  hx.bind hf

/-- A check of several things, each of which stands for what is required of it. -/
lemma forM {xs : List α} {ys : List β} {f : β → Except ε Unit} {g : α → List (Requirement ε)}
    (h : List.Forall₂ (fun a b => Decides (g a) (f b)) xs ys) :
    Decides (xs.flatMap g) (ys.forM f) := by
  induction h with
  | nil => exact .ok ()
  | cons hd _ ih => exact hd.bind fun _ _ => ih

lemma forM_append {xs ys : List α} {f : α → Except ε Unit} (hxs : Decides rs (xs.forM f))
    (hys : Decides ss (ys.forM f)) : Decides (rs ++ ss) ((xs ++ ys).forM f) := by
  rw [List.forM_eq_forM, List.forM_append]
  exact hxs.bind fun _ _ => hys

end Decides

/-- The same requirement with its fault put into another form. -/
def mapFault {ε' : Type} (f : ε → ε') (r : Requirement ε) : Requirement ε' := ⟨r.met, f r.fault⟩

lemma Decides.mapError {ε' : Type} (f : ε → ε') (h : Decides rs x) :
    Decides (rs.map (mapFault f)) (x.mapError f) := by
  cases h with
  | passed all => exact .passed (by simpa [mapFault] using all)
  | failed first =>
    apply Decides.failed
    induction first with
    | here unmet => exact .here unmet
    | later met _ ih => exact .later met ih

/-- A requirement that is only made under a condition. -/
def provided (p : Prop) (r : Requirement ε) : Requirement ε := ⟨p → r.met, r.fault⟩

lemma FirstUnmet.provided {p : Prop} (hp : p) (h : FirstUnmet rs e) :
    FirstUnmet (rs.map (Requirement.provided p)) e := by
  induction h with
  | @here r rs unmet => exact .here (r := r.provided p) fun met => unmet (met hp)
  | later met _ ih => exact .later (fun _ => met) ih

/-- Where requirements are made of everything in a list under a condition, and only one thing meets
the condition, they are those of that thing. -/
lemma Decides.provided {xs : List β} {b : β} {p : β → Prop} {g : β → List (Requirement ε)}
    (hmem : b ∈ xs) (hp : p b) (honly : ∀ c ∈ xs, p c → c = b) (h : Decides (g b) x) :
    Decides (xs.flatMap fun c => (g c).map (Requirement.provided (p c))) x := by
  cases h with
  | passed all =>
    apply Decides.passed
    simp only [List.forall_mem_flatMap, List.forall_mem_map]
    intro c hc r hr hpc
    rw [honly c hc hpc] at hr
    exact all r hr
  | failed first =>
    apply Decides.failed
    induction xs with
    | nil => cases hmem
    | cons c xs ih =>
      rw [List.flatMap_cons]
      by_cases hpc : p c
      · rw [honly c List.mem_cons_self hpc]
        exact (first.provided hp).append _
      · have hrest : b ∈ xs := by
          rcases List.mem_cons.1 hmem with rfl | hrest
          · exact absurd hp hpc
          · exact hrest
        refine (ih hrest fun c hc => honly c (List.mem_cons_of_mem _ hc)).append_left ?_
        simp only [List.forall_mem_map]
        exact fun r _ hc => absurd hc hpc

end Requirement
end Sortie
