import Rehearsal.Proofs.Number.Rounding
import Rehearsal.Value.Float

/-! Reading values as doubles. An integer for which there is no double fails in a way of its own. -/

namespace Rehearsal

namespace Binary64

theorem ofIntChecked_cases (n : Int) :
    (n.natAbs < tooLarge ∧ ∃ x, ofIntChecked n = .ok x) ∨
      (tooLarge ≤ n.natAbs ∧
        ofIntChecked n = .error (.raised .overflow "int too large to convert to float")) := by
  rcases lt_or_ge n.natAbs tooLarge with hlt | hle
  · refine .inl ⟨hlt, ofInt n, ?_⟩
    rw [ofIntChecked]
    split
    · rename_i negative hmade
      exact absurd (ofInt_eq_infinity.mp ⟨negative, hmade⟩) (not_le.mpr hlt)
    · rfl
  · obtain ⟨negative, hmade⟩ := ofInt_eq_infinity.mpr hle
    exact .inr ⟨hle, by rw [ofIntChecked, hmade]⟩

theorem ofIntChecked_ok {n : Int} {q : ℚ} (h : (ofInt n).toRat? = some q) :
    ofIntChecked n = .ok (ofInt n) := by
  rw [ofIntChecked]
  split
  · rename_i hinfinite
    rw [hinfinite] at h
    cases h
  · rfl

end Binary64

theorem Value.toFloat_error {value : Value} {fault : Fault}
    (h : value.toFloat = .error fault) :
    fault.kind = .wrongType ∨ fault.kind = .badValue ∨
      ∃ n : Int, value = .int n ∧ Binary64.tooLarge ≤ n.natAbs ∧
        fault = .raised .overflow "int too large to convert to float" := by
  have htext : ∀ {shown text : String}, Binary64.ofTextChecked shown text = .error fault →
      fault.kind = .badValue := by
    intro shown text hread
    unfold Binary64.ofTextChecked at hread
    split at hread <;> cases hread
    rfl
  cases value with
  | bool b => cases h
  | float x => cases h
  | decimal d => cases h
  | int n =>
    obtain ⟨-, x, hx⟩ | ⟨hlarge, herror⟩ := Binary64.ofIntChecked_cases n
    · cases hx.symm.trans h
    · exact .inr (.inr ⟨n, rfl, hlarge, Except.error.inj (h.symm.trans herror)⟩)
  | text s => exact .inr (.inl (htext h))
  | status s => exact .inr (.inl (htext h))
  | bytes b => exact .inr (.inl (htext h))
  | _ => cases h; exact .inl rfl

end Rehearsal
