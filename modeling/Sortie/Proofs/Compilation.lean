import Sortie.Compilation
import Sortie.Proofs.Mission.Description

/-! The stages that a successful compilation has passed. -/
namespace Sortie

lemma Except.mapError_eq_ok_iff {ε ε' α : Type} {f : ε → ε'} {x : Except ε α} {a : α} :
    x.mapError f = .ok a ↔ x = .ok a := by
  cases x <;> simp [Except.mapError]

namespace Compilation
variable {source : String} {areas : Waypoints} {output : Output}

/-- A compilation that succeeds has tokens, a script and a mission, and its output is made from the
mission alone. -/
theorem compile_eq_ok_iff :
    (compile source areas).result = .ok output ↔
      ∃ tokens script mission, Token.scan source = .ok tokens ∧ Script.parse tokens = .ok script ∧
        (Mission.ofScript script areas).result = .ok mission ∧ output = ofMission mission := by
  unfold compile check analyze scan parse
  simp only [Traced.result_bind, Traced.result_ofExcept, Traced.result_mapError,
    Except.bind_eq_ok_iff, Except.mapError_eq_ok_iff]
  constructor
  · rintro ⟨mission, ⟨tokens, ht, script, hs, hm⟩, u, -, h⟩
    exact ⟨tokens, script, mission, ht, hs, hm, (Except.ok.inj h).symm⟩
  · rintro ⟨tokens, script, mission, ht, hs, hm, rfl⟩
    exact ⟨mission, ⟨tokens, ht, script, hs, hm⟩, (), rfl, rfl⟩

/-- A compilation that fails has failed at one of its stages, with the fault of that stage. -/
theorem compile_eq_error_iff {e : CompileError} :
    (compile source areas).result = .error e ↔
      (∃ f, Token.scan source = .error f ∧ e = f.map .lexical) ∨
      (∃ tokens f, Token.scan source = .ok tokens ∧ Script.parse tokens = .error f ∧
        e = f.map .grammatical) ∨
      ∃ tokens script f, Token.scan source = .ok tokens ∧ Script.parse tokens = .ok script ∧
        (Mission.ofScript script areas).result = .error f ∧ e = f.map .semantic := by
  unfold compile check analyze scan parse
  simp only [Traced.result_bind, Traced.result_ofExcept, Traced.result_mapError, Traced.result_emit]
  cases Token.scan source with
  | error f => simp [Except.mapError, bind, Except.bind, eq_comm]
  | ok tokens =>
    cases hparse : Script.parse tokens with
    | error f => simp [Except.mapError, bind, Except.bind, eq_comm, hparse]
    | ok script =>
      cases hmission : (Mission.ofScript script areas).result with
      | error f => simp [Except.mapError, bind, Except.bind, eq_comm, hparse, hmission]
      | ok mission => simp [Except.mapError, bind, Except.bind, hparse, hmission]

end Compilation
end Sortie
