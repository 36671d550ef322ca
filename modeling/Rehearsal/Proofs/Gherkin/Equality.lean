import Rehearsal.Proofs.Gherkin.Judged
import Rehearsal.Proofs.Number.Spelling
import Rehearsal.Proofs.Validation.JsonPath

/-! Sentences that compare a text with what stands at a path. The quoted text is read as a scalar.
Texts that write a truth value, null or a number stand for these and never for themselves, every
other text stands for itself. -/

namespace Rehearsal.Gherkin

open Numeral (takeSign readInt? exists_sign takeSign_row takeSign_text isDigit_ne)

/-- Whether characters are a whole number: digits, with or without a sign. -/
def Whole (cs : List Char) : Prop := ∃ (sign : Sign) (row : DigitRow), cs = sign.text ++ row.digits

/-- Whether characters are digits on both sides of a point, with or without a sign. -/
def Pointed (cs : List Char) : Prop :=
  ∃ (sign : Sign) (row places : DigitRow), cs = sign.text ++ (row.digits ++ '.' :: places.digits)

/-- Whether a text writes a scalar other than a text: a word in whatever letter case, or a number. -/
inductive Typed (text : String) : Prop
  | word : Text.lower text ∈ ["true", "yes", "on", "false", "no", "off", "null"] → Typed text
  | whole : Whole text.toList → Typed text
  | pointed : Pointed text.toList → Typed text

variable {cs : List Char} {text : String} {v e : Value}

theorem isNumber_iff : isNumber cs = true ↔ ∃ row : DigitRow, row.digits = cs := by
  rw [isNumber, Bool.and_eq_true, Bool.not_eq_true', List.isEmpty_eq_false_iff, List.all_eq_true]
  constructor
  · rintro ⟨hne, hall⟩
    exact ⟨⟨cs, hall, hne⟩, rfl⟩
  · rintro ⟨row, rfl⟩
    exact ⟨row.ne_nil, row.isDigit_of_mem⟩

theorem isNumber_row (row : DigitRow) : isNumber row.digits = true := isNumber_iff.mpr ⟨row, rfl⟩

theorem isNumber_unsigned_iff : isNumber (takeSign cs).2 = true ↔ Whole cs := by
  rw [isNumber_iff]
  constructor
  · rintro ⟨row, hrow⟩
    obtain ⟨sign, hcs, -⟩ := exists_sign cs
    exact ⟨sign, row, by rw [hrow, ← hcs]⟩
  · rintro ⟨sign, row, rfl⟩
    exact ⟨row, by rw [takeSign_row]⟩

theorem readInt?_isSome_iff : (readInt? cs).isSome ↔ Whole cs := by
  rw [← isNumber_unsigned_iff, readInt?, isNumber]
  rcases takeSign cs with ⟨negative, digits⟩
  cases digits with
  | nil => simp
  | cons d ds => simp

theorem split_pointed (sign : Sign) (row places : DigitRow) :
    let rest := (takeSign (sign.text ++ (row.digits ++ '.' :: places.digits))).2
    rest.takeWhile (· != '.') = row.digits ∧ (rest.dropWhile (· != '.')).drop 1 = places.digits := by
  intro rest
  have hhead : ∀ c, Text.isDigit c = false →
      (row.digits ++ '.' :: places.digits).head? ≠ some c := by
    intro c hc hhead
    rw [List.head?_append_of_ne_nil _ row.ne_nil] at hhead
    exact isDigit_ne (row.isDigit_of_mem c (List.mem_of_mem_head? hhead)) hc rfl
  have hrest : rest = row.digits ++ '.' :: places.digits :=
    congrArg Prod.snd (takeSign_text sign (hhead '-' (by decide)) (hhead '+' (by decide)))
  have hrun : ∀ c ∈ row.digits, (c != '.') = true := fun c hc =>
    bne_iff_ne.mpr (isDigit_ne (row.isDigit_of_mem c hc) (by decide))
  obtain ⟨htake, hdrop⟩ := @Text.take_run _ _ row.digits ('.' :: places.digits) hrun (by simp)
  rw [hrest, htake, hdrop]
  exact ⟨rfl, rfl⟩

theorem exists_pointed (hwhole : isNumber ((takeSign cs).2.takeWhile (· != '.')) = true)
    (hplaces : isNumber (((takeSign cs).2.dropWhile (· != '.')).drop 1) = true) : Pointed cs := by
  obtain ⟨sign, hcs, -⟩ := exists_sign cs
  obtain ⟨row, hrow⟩ := isNumber_iff.mp hwhole
  obtain ⟨places, hplaces⟩ := isNumber_iff.mp hplaces
  have hsplit := List.takeWhile_append_dropWhile (p := (· != '.')) (l := (takeSign cs).2)
  have hpoint := List.head?_dropWhile_not (· != '.') (takeSign cs).2
  cases hdrop : (takeSign cs).2.dropWhile (· != '.') with
  | nil =>
    rw [hdrop] at hplaces
    exact absurd hplaces places.ne_nil
  | cons c rest =>
    rw [hdrop] at hplaces hsplit hpoint
    obtain rfl : c = '.' := by simpa using hpoint
    refine ⟨sign, row, places, ?_⟩
    rw [hrow, hplaces, List.drop_one, List.tail_cons, hsplit]
    exact hcs

theorem read_pointed_isSome (h : Pointed cs) : (Numeral.read cs).isSome := by
  obtain ⟨sign, row, places, rfl⟩ := h
  let spelling : Spelling := ⟨sign, row.digits, some places.digits, none, row.isDigit_of_mem,
    places.isDigit_of_mem, fun hnil => row.ne_nil (List.append_eq_nil_iff.mp hnil).1⟩
  have htext : spelling.text = sign.text ++ (row.digits ++ '.' :: places.digits) := by
    simp [spelling, Spelling.text, Spelling.pointText, Spelling.exponentText]
  rw [← htext, spelling.read_text]
  rfl

theorem number?_isSome_iff : (number? cs).isSome ↔ Whole cs ∨ Pointed cs := by
  rw [number?, ← readInt?_isSome_iff]
  cases readInt? cs with
  | some n => simp
  | none =>
    simp only [Option.isSome_none, Bool.false_eq_true, false_or]
    constructor
    · intro h
      split at h
      · rename_i hboth
        obtain ⟨hwhole, hplaces⟩ := Bool.and_eq_true_iff.mp hboth
        exact exists_pointed hwhole hplaces
      · cases h
    · intro h
      obtain ⟨n, hn⟩ := Option.isSome_iff_exists.mp (read_pointed_isSome h)
      obtain ⟨sign, row, places, rfl⟩ := h
      obtain ⟨htake, hdrop⟩ := split_pointed sign row places
      simp only [htake, hdrop, isNumber_row, Bool.and_self, if_true, hn, Option.map_some,
        Option.isSome_some]

theorem text?_of_number? (h : number? cs = some v) : v.text? = none := by
  rw [number?] at h
  split at h
  · cases h
    rfl
  · dsimp only at h
    split at h
    · obtain ⟨n, -, rfl⟩ := Option.map_eq_some_iff.mp h
      rfl
    · cases h

theorem checkDigits_of_not_whole (h : ¬Whole cs) : checkDigits cs = .ok () := by
  have hnone : isNumber (takeSign cs).2 = false :=
    Bool.eq_false_iff.mpr (mt isNumber_unsigned_iff.mp h)
  simp only [checkDigits, hnone, Bool.false_and, Bool.false_eq_true, if_false]

/-- A text that writes no other scalar stands for itself. -/
theorem scalar_of_not_typed (htrim : Text.trim text = text) (h : ¬Typed text) :
    scalar text = .ok (.text text) := by
  have hwords : ∀ word ∈ ["true", "yes", "on", "false", "no", "off", "null"],
      Text.lower text ≠ word := fun word hmem heq => h (.word (heq ▸ hmem))
  have hwhole : ¬Whole text.toList := fun hwhole => h (.whole hwhole)
  have hnumber : number? text.toList = none := by
    rw [← Option.not_isSome_iff_eq_none, number?_isSome_iff, not_or]
    exact ⟨hwhole, fun hpointed => h (.pointed hpointed)⟩
  simp only [List.forall_mem_cons] at hwords
  simp [scalar, htrim, trueWords, falseWords, hwords, checkDigits_of_not_whole hwhole, hnumber]

/-- A text that writes another scalar stands for no text. -/
theorem scalar_of_typed (htrim : Text.trim text = text) (h : Typed text)
    (hread : scalar text = .ok e) : e.text? = none := by
  have hwords : Text.lower text ∈ ["true", "yes", "on", "false", "no", "off", "null"] ↔
      trueWords.contains (Text.lower text) = true ∨ falseWords.contains (Text.lower text) = true ∨
        Text.lower text = "null" := by
    simp [trueWords, falseWords, or_assoc]
  rw [scalar, htrim] at hread
  split at hread
  · cases hread
    rfl
  split at hread
  · cases hread
    rfl
  split at hread
  · cases hread
    rfl
  obtain ⟨-, -, hread⟩ := bind_eq_ok.mp hread
  -- what is no word and yet typed is a number
  have hnumber : (number? text.toList).isSome := by
    refine number?_isSome_iff.mpr ?_
    cases h with
    | word hword =>
      rcases hwords.mp hword with htrue | hfalse | hnull
      · exact absurd htrue ‹_›
      · exact absurd hfalse ‹_›
      · exact absurd hnull ‹_›
    | whole hwhole => exact .inl hwhole
    | pointed hpointed => exact .inr hpointed
  obtain ⟨v, hv⟩ := Option.isSome_iff_exists.mp hnumber
  rw [hv] at hread
  cases hread
  exact text?_of_number? hv

theorem agree_text_eq_false (text : String) (he : e.text? = none) :
    Validation.agree (.text text) e = false := by
  cases e with
  | text other => cases he
  | status other => cases he
  | _ => simp [Validation.agree, Value.same, Value.text?]

namespace Scene

variable {σ : Type} {s : Scene} {world : σ}

theorem run_judge {validation : Validation} (hvalidation : s.validation = some validation)
    (given : Except Fault Assertion) (world : σ) :
    (judge given).run (s, world) = (given.bind validation.assert, s, world) := by
  rw [judge, Act.run_get_bind]
  simp only [hvalidation]
  cases given.bind validation.assert <;> rfl

theorem play_pathEquals (run : Runner σ) {r : StepResult} {attached : Bool} {pathText : String}
    {path : Path} {tree : Value}
    (hvalidation : s.validation = some (.forResult r attached))
    (hpath : Path.compile pathText = .ok path) (hdocument : JsonDocument r.payload tree)
    (hat : tree.At path.segments v) (world : σ) (attachment : Attachment) (text : String) :
    s.play run world attachment (.pathEquals pathText text) =
      ((scalar text).bind fun e =>
        if Validation.agree v e then .ok ()
        else Validation.refuse
          ("Expected " ++ path.text ++ " to equal " ++ e.shown ++ " but was " ++ v.shown)
          (some path.text) (.value e) (.value v), s, world) := by
  rw [play, perform_pathEquals, run_judge hvalidation, hpath]
  cases scalar text with
  | error fault => rfl
  | ok e =>
    exact congrArg (·, s, world)
      (Validation.judge_jsonPath none hdocument.load hdocument.tree hat)

/-- The sentence that a text stands at a path, played on a response that has it there, passes
exactly if the text writes no truth value, null or number. If it does, what it is read as is compared
with the text, to which it is never equal. -/
theorem equal_sentence_accepts (run : Runner σ) {r : StepResult} {attached : Bool}
    {pathText : String} {path : Path} {tree : Value}
    (hvalidation : s.validation = some (.forResult r attached))
    (hpath : Path.compile pathText = .ok path) (hdocument : JsonDocument r.payload tree)
    (hat : tree.At path.segments (.text text)) (htrim : Text.trim text = text) (world : σ)
    (attachment : Attachment) :
    let played := s.play run world attachment (.pathEquals pathText text)
    played.2 = (s, world) ∧ (played.1 = .ok () ↔ ¬Typed text) ∧
    ∀ e, Typed text → scalar text = .ok e → played.1 = .error (.assertionFailure
      ("Expected " ++ path.text ++ " to equal " ++ e.shown ++ " but was " ++ (Value.text text).shown)
      (some path.text) (.value e) (.value (.text text)) none) := by
  intro played
  have hplayed : played = _ :=
    play_pathEquals run hvalidation hpath hdocument hat world attachment text
  have hfails : ∀ e, Typed text → scalar text = .ok e → played.1 = .error (.assertionFailure
      ("Expected " ++ path.text ++ " to equal " ++ e.shown ++ " but was " ++ (Value.text text).shown)
      (some path.text) (.value e) (.value (.text text)) none) := by
    intro e htyped hread
    have hdiffer := agree_text_eq_false text (scalar_of_typed htrim htyped hread)
    simp [hplayed, hread, Except.bind, hdiffer, Validation.refuse]
  refine ⟨by rw [hplayed], ⟨fun hpass htyped => ?_, fun hplain => ?_⟩, hfails⟩
  · cases hread : scalar text with
    | error fault =>
      rw [hplayed, hread] at hpass
      cases hpass
    | ok e =>
      rw [hfails e htyped hread] at hpass
      cases hpass
  · have hagree : Validation.agree (.text text) (.text text) = true := by
      simp [Validation.agree, Value.same, Value.text?]
    simp [hplayed, scalar_of_not_typed htrim hplain, Except.bind, hagree]

theorem equal_sentence_accepts_plain :
    let r : StepResult :=
      ⟨.http, true, some 200, none, .text "[\"abc-1\"]", [], [], [], none, {}, []⟩
    let s : Scene := { engine := { settings := {} }, validation := some (.forResult r true) }
    JsonDocument r.payload (.list [.text "abc-1"]) ∧ Text.trim "abc-1" = "abc-1" ∧
      ¬Typed "abc-1" ∧
      s.play World.runner (.calm (.empty 1 .persisted 0)) {} (.pathEquals "$[0]" "abc-1") =
        (.ok (), s, .calm (.empty 1 .persisted 0)) := by
  intro r s
  have htree : (Value.list [.text "abc-1"]).Tree Value.JsonLeaf :=
    .list (List.forall_mem_singleton.mpr (.leaf rfl trivial))
  have hdocument : JsonDocument r.payload (.list [.text "abc-1"]) := by
    refine .text (Document.loadText_eq ['[', '"', 'a', 'b', 'c', '-', '1', '"', ']'] (by rfl)
      (by rfl) (by rfl) nofun) (finite_tree htree)
  have hat : (Value.list [.text "abc-1"]).At [.index 0] (.text "abc-1") := .index rfl (.here _)
  have hread : scalar "abc-1" = .ok (.text "abc-1") := toOption_eq_some.mp (by decide +kernel)
  have htrim : Text.trim "abc-1" = "abc-1" := by decide
  have hplain : ¬Typed "abc-1" := fun htyped => by
    cases scalar_of_typed htrim htyped hread
  have hpath : Path.compile "$[0]" = .ok ⟨[.index 0]⟩ := rfl
  obtain ⟨hkept, hpasses, -⟩ := equal_sentence_accepts (s := s) World.runner rfl hpath hdocument hat
    htrim (.calm (.empty 1 .persisted 0)) {}
  exact ⟨hdocument, htrim, hplain, Prod.ext (hpasses.mpr hplain) hkept⟩

/-- A word that stands for a truth value is refused where it stands as a text. -/
theorem quoted_word_refused :
    let r : StepResult :=
      ⟨.http, true, some 200, none, .text "[\"true\"]", [], [], [], none, {}, []⟩
    let s : Scene := { engine := { settings := {} }, validation := some (.forResult r true) }
    JsonDocument r.payload (.list [.text "true"]) ∧
      Path.compile "$[0]" = .ok ⟨[.index 0]⟩ ∧
      (Value.list [.text "true"]).At [.index 0] (.text "true") ∧ Text.trim "true" = "true" ∧
      (s.play World.runner (.calm (.empty 1 .persisted 0)) {} (.pathEquals "$[0]" "true")).1 ≠
        .ok () := by
  intro r s
  have htree : (Value.list [.text "true"]).Tree Value.JsonLeaf :=
    .list (List.forall_mem_singleton.mpr (.leaf rfl trivial))
  have hdocument : JsonDocument r.payload (.list [.text "true"]) := by
    refine .text (Document.loadText_eq ['[', '"', 't', 'r', 'u', 'e', '"', ']'] (by rfl) (by rfl)
      (by rfl) nofun) (finite_tree htree)
  have hat : (Value.list [.text "true"]).At [.index 0] (.text "true") := .index rfl (.here _)
  have hread : scalar "true" = .ok (.bool true) := toOption_eq_some.mp (by decide +kernel)
  have hpath : Path.compile "$[0]" = .ok ⟨[.index 0]⟩ := rfl
  refine ⟨hdocument, hpath, hat, by decide, fun hpass => ?_⟩
  rw [play_pathEquals (s := s) World.runner rfl hpath hdocument hat, hread] at hpass
  have hdiffer : Validation.agree (.text "true") (.bool true) = false := agree_text_eq_false _ rfl
  simp [Except.bind, hdiffer, Validation.refuse] at hpass

end Scene

end Rehearsal.Gherkin
