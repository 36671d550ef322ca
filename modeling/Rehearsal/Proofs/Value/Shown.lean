import Mathlib.Tactic.SplitIfs
import Rehearsal.Value.Shown

/-! What values are shown as. Every value is shown as something, and is displayed as something
unless it is the empty text. -/

namespace Rehearsal

theorem Binary64.text_ne_empty (x : Binary64) : x.text ≠ "" := by
  cases x with
  | nan => decide
  | infinity negative => simp [text]
  | finite negative significand exponent =>
    cases significand with
    | zero => simp [text]
    | succ n =>
      simp only [text, Layout.write]
      split_ifs
      · simp
      · simp [shortestLayout]
      · simp
      · split <;> simp

theorem Decimal.text_ne_empty (d : Decimal) : d.text ≠ "" := by
  cases d with
  | nan => decide
  | infinity negative => simp [text]
  | finite negative coefficient exponent =>
    have hdigits : Nat.toDigits 10 coefficient ≠ [] := Nat.toDigits_ne_nil
    simp only [text]
    split_ifs <;> simp [hdigits]

theorem toString_int_ne_empty (n : Int) : toString n ≠ "" := by
  rw [Int.toString_eq_repr, Int.repr_eq_if]
  split_ifs
  · simp [Nat.repr, Nat.toDigits_ne_nil]
  · simp

theorem Value.shown_ne_empty (value : Value) : value.shown ≠ "" := by
  rw [shown.eq_def]
  cases value with
  | bool b => cases b <;> simp [boolText]
  | int n => exact toString_int_ne_empty n
  | float x => exact x.text_ne_empty
  | text s => simp [Text.quoted, Text.enclose]
  | bytes b => simp [Text.quotedBytes]
  | tuple items =>
    dsimp only
    split <;> simp
  | instant t =>
    delta Instant.shown
    simp
  | span s =>
    delta Span.shown
    simp
  | date day =>
    delta CalendarDay.shown
    simp
  | _ => simp

theorem Value.display_ne_empty {value : Value} (h : value ≠ .text "") : value.display ≠ "" := by
  rw [display.eq_def]
  cases value with
  | text s =>
    rintro rfl
    exact h rfl
  | decimal d => exact d.text_ne_empty
  | instant t => simp [Instant.spacedText, Instant.textWith]
  | span s => simp [Span.text]
  | date day => simp [CalendarDay.text]
  | status s => simp
  | _ => exact shown_ne_empty _

end Rehearsal
