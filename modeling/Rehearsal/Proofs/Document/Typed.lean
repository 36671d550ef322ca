import Rehearsal.Document.Coerce
import Rehearsal.Proofs.Document.Encoded
import Rehearsal.Proofs.Value.Float
import Rehearsal.Validation

/-! Values read as a type. What a path leads to has the type that is asked for or is refused as a
value of another type, with one exception: an integer for which there is no double. The failure to
convert it is none of reading, and an assertion lets it through. -/

namespace Rehearsal

namespace Value

variable {v w : Value} {kind : Kind} {path : String}

/-- Whether a value is an integer that is asked for as a double and is too large for one. -/
def Overflows (v : Value) (kind : Kind) : Prop :=
  kind = .float ∧ ∃ n, v = .int n ∧ Binary64.tooLarge ≤ n.natAbs

/-- All that reading a value as a type can come to. -/
inductive Coerced (v : Value) (kind : Kind) (path : String) : Except Fault Value → Prop
  | made {w : Value} : w.isA kind = true → Coerced v kind path (.ok w)
  | refused : Coerced v kind path (.error (.typeMismatch path kind v))
  | overflow : v.Overflows kind →
      Coerced v kind path (.error (.raised .overflow "int too large to convert to float"))

theorem coerced_of_option {α : Type} {f : α → Value} (hf : ∀ a, (f a).isA kind = true)
    (made : Option α) :
    Coerced v kind path ((made.map fun a => .ok (f a)).getD (.error (.typeMismatch path kind v))) := by
  cases made with
  | none => exact .refused
  | some a => exact .made (hf a)

theorem coerced_as_it_is :
    Coerced v kind path (if v.isA kind then .ok v else .error (.typeMismatch path kind v)) := by
  split
  · rename_i h
    exact .made h
  · exact .refused

theorem coerced_float (v : Value) (path : String) :
    Coerced v .float path (v.coerce .float path) := by
  cases v with
  | int n =>
    rcases Binary64.ofIntChecked_cases n with ⟨-, x, hx⟩ | ⟨hlarge, herror⟩
    · simp only [coerce, hx, Except.map]
      exact .made rfl
    · simp only [coerce, herror, Except.map]
      exact .overflow ⟨rfl, n, rfl, hlarge⟩
  | float x => exact .made rfl
  | decimal d => exact .made rfl
  | text s => exact coerced_of_option (fun _ => rfl) (Decimal.ofText? s)
  | _ => exact .refused

theorem coerce_cases (v : Value) (kind : Kind) (path : String) :
    Coerced v kind path (v.coerce kind path) := by
  cases kind with
  | anything => exact .made (by cases v <;> rfl)
  | float => exact coerced_float v path
  | int => exact coerced_of_option (fun _ => rfl) v.asInt?
  | decimal => exact coerced_of_option (fun _ => rfl) v.asDecimal?
  | list => exact coerced_of_option (fun _ => rfl) v.items?
  | bool =>
    cases v with
    | bool b => exact .made rfl
    | _ => exact .refused
  | text => exact coerced_as_it_is
  | map => exact coerced_as_it_is
  | bytes => exact coerced_as_it_is
  | tuple => exact coerced_as_it_is
  | record name fields => exact coerced_as_it_is

end Value

namespace Document

variable {document tree v : Value} {path : Path} {kind : Kind}

theorem follow_cases (path : Path) (depth : Nat) (node : Value) (segments : List Segment) :
    (∃ v, follow path depth node segments = .ok v) ∨
      ∃ k reason, follow path depth node segments =
        .error (.pathNotFound path.text (path.upTo k) reason) := by
  induction segments generalizing depth node with
  | nil => exact .inl ⟨node, rfl⟩
  | cons segment rest ih =>
    rw [follow]
    split
    · rename_i reason _
      exact .inr ⟨depth + 1, reason, rfl⟩
    · rename_i next _
      exact ih (depth + 1) next

/-- Whether a path leads to an integer that is asked for as a double and is too large for one. -/
def Overflows (document : Value) (path : Path) (kind : Kind) : Prop :=
  ∃ v, evaluate document path = .ok v ∧ v.Overflows kind

/-- All that reading the value at a path as a type can come to. -/
inductive Answered (document : Value) (path : Path) (kind : Kind) : Except Fault Value → Prop
  | found {w : Value} : w.isA kind = true → Answered document path kind (.ok w)
  | missing (k : Nat) (reason : String) :
      Answered document path kind (.error (.pathNotFound path.text (path.upTo k) reason))
  | refused {v : Value} : evaluate document path = .ok v →
      Answered document path kind (.error (.typeMismatch path.text kind v))
  | overflow : Overflows document path kind →
      Answered document path kind
        (.error (.raised .overflow "int too large to convert to float"))

theorem evaluateAs_cases (hload : load document = .ok tree) (path : Path) (kind : Kind) :
    Answered document path kind (evaluateAs document path kind) := by
  have hfollow : evaluate document path = follow path 0 tree path.segments := by
    rw [evaluate, hload]
  rcases follow_cases path 0 tree path.segments with ⟨v, hv⟩ | ⟨k, reason, hfail⟩
  · have hfound : evaluate document path = .ok v := hfollow.trans hv
    have hcoerced := Value.coerce_cases v kind path.text
    rw [evaluateAs, hfound]
    dsimp only
    generalize v.coerce kind path.text = outcome at hcoerced ⊢
    cases hcoerced with
    | made hw => exact .found hw
    | refused => exact .refused hfound
    | overflow hlarge => exact .overflow ⟨v, hfound, hlarge⟩
  · rw [evaluateAs, hfollow, hfail]
    exact .missing k reason

theorem evaluateAs_of_overflows (h : Overflows document path kind) :
    evaluateAs document path kind =
      .error (.raised .overflow "int too large to convert to float") := by
  obtain ⟨v, hv, rfl, n, rfl, hlarge⟩ := h
  rcases Binary64.ofIntChecked_cases n with ⟨hsmall, -⟩ | ⟨-, herror⟩
  · exact absurd hsmall (not_lt.mpr hlarge)
  · simp only [evaluateAs, hv, Value.coerce, herror, Except.map]

end Document

namespace Validation

open Document

variable {r : StepResult} {tree : Value} {path : Path} {kind : Kind}

theorem judge_found {w : Value} (message : Option String)
    (h : evaluateAs r.payload path kind = .ok w) :
    judge r (.jsonPath (.ok path) none kind none message) = .ok () := by
  change checkJsonPath r path none kind none message = _
  unfold checkJsonPath
  rw [h]

theorem judge_failed {fault : Fault} (message : Option String)
    (h : evaluateAs r.payload path kind = .error fault) :
    ∃ text, judge r (.jsonPath (.ok path) none kind none message) =
      if isPathFault fault then
        .error (.assertionFailure text (some path.text) (.value .null) .nothing (some fault.kind))
      else .error fault := by
  change ∃ text, checkJsonPath r path none kind none message = _
  unfold checkJsonPath
  rw [h]
  exact ⟨_, rfl⟩

/-- Reading the value at a path as a type gives a value of the type, or fails as a path that is not
found or as a value of another type, which the failure names; an assertion that it is there passes or
fails as an assertion. This holds just if the path does not lead to an integer that is asked for as a
double and is too large for one; then both fail to convert it. -/
theorem jsonPath_typed (hload : load r.payload = .ok tree) (path : Path) (kind : Kind)
    (message : Option String) :
    let answer := evaluateAs r.payload path kind
    let verdict := judge r (.jsonPath (.ok path) none kind none message)
    ((∃ w, answer = .ok w ∧ w.isA kind = true) ∨
      (∃ k reason, answer = .error (.pathNotFound path.text (path.upTo k) reason)) ∨
      (∃ v, evaluate r.payload path = .ok v ∧ answer = .error (.typeMismatch path.text kind v)) ↔
        ¬Overflows r.payload path kind) ∧
    (verdict = .ok () ∨ (∃ text cause, verdict = .error
      (.assertionFailure text (some path.text) (.value .null) .nothing (some cause))) ↔
        ¬Overflows r.payload path kind) ∧
    (Overflows r.payload path kind →
      answer = .error (.raised .overflow "int too large to convert to float") ∧
        verdict = .error (.raised .overflow "int too large to convert to float")) := by
  intro answer verdict
  have hoverflow : Overflows r.payload path kind →
      answer = .error (.raised .overflow "int too large to convert to float") ∧
        verdict = .error (.raised .overflow "int too large to convert to float") := by
    intro h
    have hanswer := evaluateAs_of_overflows h
    obtain ⟨_, hverdict⟩ := judge_failed message hanswer
    exact ⟨hanswer, hverdict⟩
  -- all that reading can come to; only one of these is the overflow
  obtain ⟨outcome, houtcome, hanswered⟩ :
      ∃ outcome, answer = outcome ∧ Answered r.payload path kind outcome :=
    ⟨answer, rfl, evaluateAs_cases hload path kind⟩
  refine ⟨⟨?_, ?_⟩, ⟨?_, ?_⟩, hoverflow⟩
  · intro h hlarge
    rw [(hoverflow hlarge).1] at h
    rcases h with ⟨_, h, -⟩ | ⟨_, _, h⟩ | ⟨_, -, h⟩ <;> cases h
  · intro h
    rw [houtcome]
    cases hanswered with
    | found hw => exact .inl ⟨_, rfl, hw⟩
    | missing k reason => exact .inr (.inl ⟨k, reason, rfl⟩)
    | refused hv => exact .inr (.inr ⟨_, hv, rfl⟩)
    | overflow hlarge => exact absurd hlarge h
  · intro h hlarge
    rw [(hoverflow hlarge).2] at h
    rcases h with h | ⟨_, _, h⟩ <;> cases h
  · intro h
    cases hanswered with
    | found hw => exact .inl (judge_found message houtcome)
    | missing k reason =>
      obtain ⟨text, hverdict⟩ := judge_failed message houtcome
      exact .inr ⟨text, _, hverdict⟩
    | refused hv =>
      obtain ⟨text, hverdict⟩ := judge_failed message houtcome
      exact .inr ⟨text, _, hverdict⟩
    | overflow hlarge => exact absurd hlarge h

theorem jsonPath_typed_fraction :
    let r : StepResult := ⟨.http, true, some 200, none, .text "[0.5]", [], [], [], none, {}, []⟩
    let half : Value := .decimal (.finite false 5 (-1))
    load r.payload = .ok (.list [half]) ∧ ¬Overflows r.payload ⟨[.index 0]⟩ .int ∧
      judge r (.jsonPath (.ok ⟨[.index 0]⟩) none .int none none) ≠ .ok () ∧
      ∃ text cause, judge r (.jsonPath (.ok ⟨[.index 0]⟩) none .int none none) =
        .error (.assertionFailure text (some "$[0]") (.value .null) .nothing (some cause)) := by
  intro r half
  have hload : load r.payload = .ok (.list [half]) :=
    loadText_eq ['[', '0', '.', '5', ']'] (by rfl) (by rfl) (by rfl) (by simp)
  have hfits : ¬Overflows r.payload ⟨[.index 0]⟩ .int := by
    rintro ⟨_, _, hkind, _⟩
    cases hkind
  have hrefused : evaluateAs r.payload ⟨[.index 0]⟩ .int =
      .error (.typeMismatch "$[0]" .int half) := by
    rw [evaluateAs, evaluate, hload]
    rfl
  obtain ⟨_, hverdict⟩ := judge_failed none hrefused
  have hfails : judge r (.jsonPath (.ok ⟨[.index 0]⟩) none .int none none) ≠ .ok () := by
    rw [hverdict]
    intro hpassed
    cases hpassed
  refine ⟨hload, hfits, hfails, ?_⟩
  exact ((jsonPath_typed hload ⟨[.index 0]⟩ .int none).2.1.mpr hfits).resolve_left hfails

theorem load_list_int {n : Nat} (h : Json.WritableInt n) :
    loadText (String.ofList ('[' :: (Nat.toDigits 10 n ++ [']']))) = .ok (.list [.int n]) := by
  have hlist : Json.ReadsAs .exact (Json.enclose .plain 0 '[' ']' [Nat.toDigits 10 n])
      (.list [.int n]) :=
    Json.readsAs_list Json.spaced_plain 0 (.cons (Json.readsAs_toDigits h) .nil)
  refine Json.loadText_of_readsAs ?_ (by simp)
  rw [String.toList_ofList]
  simpa [Json.enclose, Json.Style.lineBreak, Json.Style.plain] using hlist

theorem judge_list_int {n : Nat} (hload : load r.payload = .ok (.list [.int n]))
    (hlarge : Binary64.tooLarge ≤ n) :
    evaluateAs r.payload ⟨[.index 0]⟩ .anything = .ok (.int n) ∧
      evaluateAs r.payload ⟨[.index 0]⟩ .float =
        .error (.raised .overflow "int too large to convert to float") ∧
      judge r (.jsonPath (.ok ⟨[.index 0]⟩) none .float none none) =
        .error (.raised .overflow "int too large to convert to float") := by
  have hfound : evaluate r.payload ⟨[.index 0]⟩ = .ok (.int n) := by
    rw [evaluate, hload]
    rfl
  have hanswer := evaluateAs_of_overflows ⟨_, hfound, rfl, n, rfl, hlarge⟩
  obtain ⟨_, hverdict⟩ := judge_failed none hanswer
  refine ⟨?_, hanswer, hverdict⟩
  rw [evaluateAs, hfound]
  rfl

/-- An integer of 310 digits is found as what it is, and asking for it as a double fails in a way that
neither reading nor an assertion promises. -/
theorem jsonPath_typed_tooLarge :
    let n : Nat := 10 ^ 309
    let text := String.ofList ('[' :: (Nat.toDigits 10 n ++ [']']))
    let r : StepResult := ⟨.http, true, some 200, none, .text text, [], [], [], none, {}, []⟩
    let overflow : Fault := .raised .overflow "int too large to convert to float"
    load r.payload = .ok (.list [.int n]) ∧
      evaluateAs r.payload ⟨[.index 0]⟩ .anything = .ok (.int n) ∧
      evaluateAs r.payload ⟨[.index 0]⟩ .float = .error overflow ∧
      judge r (.jsonPath (.ok ⟨[.index 0]⟩) none .float none none) = .error overflow := by
  intro n text r overflow
  have hload : load r.payload = .ok (.list [.int n]) := load_list_int (by decide +kernel)
  exact ⟨hload, judge_list_int hload (by decide +kernel)⟩

end Validation

end Rehearsal
