import Rehearsal.Proofs.Number.Spelling
import Rehearsal.Proofs.Number.Decimal

/-! Integers and decimals are read without loss. What is read of a value as an integer is what is
read of it as a decimal, if that is whole; and the decimal of a text is the number the text spells,
however long it is. -/

namespace Rehearsal.Value

open Text

theorem coerce_int_eq_ok_iff (v : Value) (path : String) (n : Int) :
    v.coerce .int path = .ok (.int n) ↔ v.asInt? = some n := by
  simp only [coerce]
  cases v.asInt? with
  | none => exact ⟨nofun, nofun⟩
  | some m => simp

theorem coerce_decimal_eq_ok_iff (v : Value) (path : String) (d : Decimal) :
    v.coerce .decimal path = .ok (.decimal d) ↔ v.asDecimal? = some d := by
  simp only [coerce]
  cases v.asDecimal? with
  | none => exact ⟨nofun, nofun⟩
  | some m => simp

theorem coerce_int_cases (v : Value) (path : String) :
    (∃ n, v.coerce .int path = .ok (.int n)) ∨
      v.coerce .int path = .error (.typeMismatch path .int v) := by
  simp only [coerce]
  cases v.asInt? with
  | none => exact .inr rfl
  | some n => exact .inl ⟨n, rfl⟩

theorem coerce_decimal_cases (v : Value) (path : String) :
    (∃ d, v.coerce .decimal path = .ok (.decimal d)) ∨
      v.coerce .decimal path = .error (.typeMismatch path .decimal v) := by
  simp only [coerce]
  cases v.asDecimal? with
  | none => exact .inr rfl
  | some d => exact .inl ⟨d, rfl⟩

theorem asInt?_eq (v : Value) : v.asInt? = v.asDecimal?.bind Decimal.toInt? := by
  cases v with
  | int n => exact ((Decimal.toInt?_eq_some_iff _ _).mpr (Decimal.toRat?_ofInt n)).symm
  | _ => rfl

theorem asInt?_eq_some_iff (v : Value) (n : Int) :
    v.asInt? = some n ↔ ∃ d, v.asDecimal? = some d ∧ d.toRat? = some (n : ℚ) := by
  rw [asInt?_eq, Option.bind_eq_some_iff]
  exact exists_congr fun d => and_congr_right' (Decimal.toInt?_eq_some_iff d n)

theorem isSome_ofText?_iff (s : String) :
    (∃ d, Decimal.ofText? s = some d) ↔
      ∃ w : Spelling, trimBlank s.toList = w.text ∧ w.InLimits := by
  simp only [Decimal.ofText?_eq_some_iff, ← Spelling.toDecimal?_isSome_iff,
    Option.isSome_iff_exists]
  constructor
  · rintro ⟨d, w, htext, hd⟩
    exact ⟨w, htext, d, hd⟩
  · rintro ⟨w, htext, d, hd⟩
    exact ⟨d, w, htext, hd⟩

theorem toRat?_ofText?_iff (s : String) (q : ℚ) :
    (∃ d, Decimal.ofText? s = some d ∧ d.toRat? = some q) ↔
      ∃ w : Spelling, trimBlank s.toList = w.text ∧ w.InLimits ∧ w.value = q := by
  simp only [Decimal.ofText?_eq_some_iff, ← Spelling.toDecimal?_isSome_iff,
    Option.isSome_iff_exists]
  constructor
  · rintro ⟨d, ⟨w, htext, hd⟩, hq⟩
    have hvalue := w.toRat?_of_toDecimal? hd
    exact ⟨w, htext, ⟨d, hd⟩, Option.some_inj.mp (hvalue.symm.trans hq)⟩
  · rintro ⟨w, htext, ⟨d, hd⟩, rfl⟩
    exact ⟨d, ⟨w, htext, hd⟩, w.toRat?_of_toDecimal? hd⟩

example : (Value.text " 0.05e2").coerce .int "$" = .ok (.int 5) := by rfl

end Rehearsal.Value
