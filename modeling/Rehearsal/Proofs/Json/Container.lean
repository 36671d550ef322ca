import Mathlib.Data.List.Forall2
import Rehearsal.Proofs.Json.Number
import Rehearsal.Proofs.Json.Text
import Rehearsal.Proofs.Keyed

/-! Lists and mappings are read from what is written of their elements, with spaces and line breaks
in between. Fuel of twice the length of a text is enough to read it. -/

namespace Rehearsal.Json

def Gap (cs : List Char) : Prop := ∀ c ∈ cs, isSpace c

/-- Whether a text is read as a value, whatever follows that does not go on with a number. -/
structure ReadsAs (fractions : Fractions) (cs : List Char) (v : Value) : Prop where
  starts : ∃ c rest, cs = c :: rest ∧ StartsValue c
  read : ∀ fuel rest, 2 * cs.length ≤ fuel → EndsNumber rest →
    readValue fractions fuel (cs ++ rest) = .ok (v, rest)

theorem ReadsAs.of_succ {fractions : Fractions} {cs : List Char} {v : Value}
    (hstarts : ∃ c rest, cs = c :: rest ∧ StartsValue c)
    (hread : ∀ fuel rest, 2 * cs.length ≤ fuel + 1 → EndsNumber rest →
      readValue fractions (fuel + 1) (cs ++ rest) = .ok (v, rest)) : ReadsAs fractions cs v := by
  refine ⟨hstarts, ?_⟩
  intro fuel rest hfuel hrest
  cases fuel with
  | zero =>
    obtain ⟨c, more, rfl, -⟩ := hstarts
    cases hfuel
  | succ fuel => exact hread fuel rest hfuel hrest

/-- Whether a text is the name and the value of a field. -/
def ReadsField (fractions : Fractions) (cs : List Char) (field : String × Value) : Prop :=
  ∃ asciiOnly gap text, cs = writeText asciiOnly field.1 ++ ':' :: (gap ++ text) ∧ Gap gap ∧
    ReadsAs fractions text field.2

/-- Elements with separators in between. -/
def joined (gap first : List Char) (more : List (List Char)) : List Char :=
  first ++ more.flatMap fun part => ',' :: (gap ++ part)

variable {cs gap tail first rest : List Char} {more : List (List Char)} {v : Value}
  {field : String × Value} {fuel : Nat} {fractions : Fractions}

theorem Gap.append {more : List Char} (hgap : Gap gap) (hmore : Gap more) :
    Gap (gap ++ more) := by
  intro c hc
  rcases List.mem_append.mp hc with hc | hc
  · exact hgap c hc
  · exact hmore c hc

theorem skipSpace_gap (hgap : Gap gap) (hrest : ∀ c ∈ rest.head?, isSpace c = false) :
    skipSpace (gap ++ rest) = rest := (Text.take_run hgap hrest).2

theorem skipSpace_mark (hgap : Gap gap) {c : Char} (hc : isSpace c = false) :
    skipSpace (gap ++ c :: rest) = c :: rest :=
  skipSpace_gap hgap fun _ h => Option.some.inj h ▸ hc

theorem ReadsAs.skipSpace (h : ReadsAs fractions cs v) (hgap : Gap gap) :
    skipSpace (gap ++ (cs ++ rest)) = cs ++ rest := by
  obtain ⟨c, more, rfl, hc, -⟩ := h.starts
  exact skipSpace_mark hgap hc

theorem ReadsField.starts (h : ReadsField fractions cs field) : ∃ rest, cs = '"' :: rest := by
  obtain ⟨asciiOnly, _, _, rfl, -, -⟩ := h
  exact ⟨_, rfl⟩

theorem ReadsField.skipSpace (h : ReadsField fractions cs field) (hgap : Gap gap) :
    skipSpace (gap ++ (cs ++ rest)) = cs ++ rest := by
  obtain ⟨more, rfl⟩ := h.starts
  exact skipSpace_mark hgap (by decide)

theorem endsNumber_mark {c : Char} (h : c.isDigit = false ∧ c ≠ '.' ∧ c ≠ 'e' ∧ c ≠ 'E') :
    EndsNumber (c :: rest) := fun _ hc => Option.some.inj hc ▸ h

theorem endsNumber_gap (hgap : Gap gap) {c : Char}
    (h : c.isDigit = false ∧ c ≠ '.' ∧ c ≠ 'e' ∧ c ≠ 'E') : EndsNumber (gap ++ c :: rest) := by
  cases gap with
  | nil => exact endsNumber_mark h
  | cons d gap => exact endsNumber_mark (isSpace_ends (hgap d List.mem_cons_self))

theorem joined_cons (gap first second : List Char) (more : List (List Char)) :
    joined gap first (second :: more) = first ++ ',' :: (gap ++ joined gap second more) := by
  simp [joined]

theorem read_joined {α : Type} {R : List Char → α → Prop} {close : Char}
    {read : Nat → List Char → Except Stop (List α × List Char)}
    (hstart : ∀ {cs a gap rest}, R cs a → Gap gap → skipSpace (gap ++ (cs ++ rest)) = cs ++ rest)
    (hlast : ∀ {cs a tail rest fuel}, R cs a → Gap tail → 2 * cs.length ≤ fuel →
      read (fuel + 1) (cs ++ (tail ++ close :: rest)) = .ok ([a], rest))
    (hcons : ∀ {cs a text rest fuel found}, R cs a → 2 * cs.length ≤ fuel →
      read fuel (skipSpace text) = .ok (found, rest) →
      read (fuel + 1) (cs ++ ',' :: text) = .ok (a :: found, rest))
    (hgap : Gap gap) (htail : Gap tail) {a : α} {found : List α} (hfirst : R first a)
    (h : List.Forall₂ R more found) (hfuel : 2 * (joined gap first more).length < fuel) :
    read fuel (joined gap first more ++ (tail ++ close :: rest)) = .ok (a :: found, rest) := by
  -- an element takes one unit of fuel for itself, and its comma pays for that
  induction h generalizing first a fuel with
  | nil =>
    obtain ⟨fuel, rfl⟩ : ∃ n, fuel = n + 1 := ⟨fuel - 1, by omega⟩
    rw [joined, List.flatMap_nil, List.append_nil] at hfuel ⊢
    exact hlast hfirst htail (by omega)
  | @cons second _ more _ hsecond h ih =>
    obtain ⟨fuel, rfl⟩ : ∃ n, fuel = n + 1 := ⟨fuel - 1, by omega⟩
    rw [joined_cons] at hfuel ⊢
    simp only [List.length_append, List.length_cons] at hfuel
    rw [List.append_assoc, List.cons_append, List.append_assoc]
    refine hcons hfirst (by omega) ?_
    have hskip : skipSpace (gap ++ (joined gap second more ++ (tail ++ close :: rest))) =
        joined gap second more ++ (tail ++ close :: rest) := by
      rw [joined, List.append_assoc]
      exact hstart hsecond hgap
    rw [hskip]
    exact ih hsecond (by omega)

/-! The items of a list. -/

theorem readItems_last (h : ReadsAs fractions cs v) (htail : Gap tail)
    (hfuel : 2 * cs.length ≤ fuel) :
    readItems fractions (fuel + 1) (cs ++ (tail ++ ']' :: rest)) = .ok ([v], rest) := by
  rw [readItems, h.read fuel _ hfuel (endsNumber_gap htail (by decide))]
  dsimp only
  rw [skipSpace_mark htail (by decide)]
  rfl

theorem readItems_cons {text : List Char} {items : List Value}
    (h : ReadsAs fractions cs v) (hfuel : 2 * cs.length ≤ fuel)
    (hmore : readItems fractions fuel (skipSpace text) = .ok (items, rest)) :
    readItems fractions (fuel + 1) (cs ++ ',' :: text) = .ok (v :: items, rest) := by
  rw [readItems, h.read fuel _ hfuel (endsNumber_mark (by decide))]
  have hmark : skipSpace (',' :: text) = ',' :: text := rfl
  simp only [hmark, hmore]

theorem readItems_joined (hgap : Gap gap) (htail : Gap tail)
    {values : List Value} (hfirst : ReadsAs fractions first v)
    (h : List.Forall₂ (ReadsAs fractions) more values)
    (hfuel : 2 * (joined gap first more).length < fuel) :
    readItems fractions fuel (joined gap first more ++ (tail ++ ']' :: rest)) =
      .ok (v :: values, rest) :=
  read_joined ReadsAs.skipSpace readItems_last readItems_cons hgap htail
    hfirst h hfuel

/-! The fields of a mapping. -/

theorem ReadsField.parts (h : ReadsField fractions cs field) (rest : List Char) :
    ∃ inside behind text, cs ++ rest = '"' :: inside ∧
      readString inside = .ok (field.1, ':' :: behind) ∧ Json.skipSpace behind = text ++ rest ∧
      ReadsAs fractions text field.2 ∧ text.length ≤ cs.length := by
  obtain ⟨asciiOnly, gap, text, rfl, hgap, htext⟩ := h
  obtain ⟨inside, hinside, hread⟩ :=
    readString_writeText asciiOnly field.1 (':' :: (gap ++ (text ++ rest)))
  refine ⟨inside, gap ++ (text ++ rest), text, ?_, hread, htext.skipSpace hgap, htext, ?_⟩
  · rw [List.append_assoc, List.cons_append, List.append_assoc, hinside]
  · simp only [List.length_append, List.length_cons]
    omega

theorem readFields_last (h : ReadsField fractions cs field) (htail : Gap tail)
    (hfuel : 2 * cs.length ≤ fuel) :
    readFields fractions (fuel + 1) (cs ++ (tail ++ '\x7d' :: rest)) = .ok ([field], rest) := by
  obtain ⟨inside, behind, text, hcs, hname, hbehind, htext, hlen⟩ :=
    h.parts (tail ++ '\x7d' :: rest)
  have hmark : skipSpace (':' :: behind) = ':' :: behind := rfl
  have hvalue := htext.read fuel (tail ++ '\x7d' :: rest) (by omega)
    (endsNumber_gap htail (by decide))
  have hclose : skipSpace (tail ++ '\x7d' :: rest) = '\x7d' :: rest :=
    skipSpace_mark htail (by decide)
  rw [hcs, readFields]
  simp only [hname, hmark, hbehind, hvalue, hclose]

theorem readFields_cons {text : List Char}
    {fields : List (String × Value)} (h : ReadsField fractions cs field)
    (hfuel : 2 * cs.length ≤ fuel)
    (hmore : readFields fractions fuel (skipSpace text) = .ok (fields, rest)) :
    readFields fractions (fuel + 1) (cs ++ ',' :: text) = .ok (field :: fields, rest) := by
  obtain ⟨inside, behind, value, hcs, hname, hbehind, hreads, hlen⟩ := h.parts (',' :: text)
  have hmark : skipSpace (':' :: behind) = ':' :: behind := rfl
  have hvalue := hreads.read fuel (',' :: text) (by omega) (endsNumber_mark (by decide))
  have hcomma : skipSpace (',' :: text) = ',' :: text := rfl
  rw [hcs, readFields]
  simp only [hname, hmark, hbehind, hvalue, hcomma, hmore]

theorem readFields_joined (hgap : Gap gap) (htail : Gap tail)
    {fields : List (String × Value)} (hfirst : ReadsField fractions first field)
    (h : List.Forall₂ (ReadsField fractions) more fields)
    (hfuel : 2 * (joined gap first more).length < fuel) :
    readFields fractions fuel (joined gap first more ++ (tail ++ '\x7d' :: rest)) =
      .ok (field :: fields, rest) :=
  read_joined ReadsField.skipSpace readFields_last readFields_cons hgap
    htail hfirst h hfuel

theorem putField_eq (name : String) (value : Value) (made : Keyed String Value) :
    putField name value (made.map fun (name, value) => (.text name, value)) =
      (Keyed.put made name value).map fun (name, value) => (.text name, value) := by
  induction made with
  | nil => rfl
  | cons field made ih =>
    obtain ⟨other, old⟩ := field
    by_cases h : other = name
    · simp [putField, Keyed.put, Value.text?, h]
    · simp [putField, Keyed.put, Value.text?, h, ih]

theorem foldl_putField (fields : List (String × Value)) (made : Keyed String Value) :
    fields.foldl (fun made field => putField field.1 field.2 made)
        (made.map fun (name, value) => (.text name, value)) =
      (Keyed.putAll made fields).map fun (name, value) => (.text name, value) := by
  induction fields generalizing made with
  | nil => rfl
  | cons field fields ih =>
    rw [List.foldl_cons, putField_eq, ih]
    rfl

/-- The last value of each name stays, at the place of the first. -/
theorem fieldsOf_eq (fields : List (String × Value)) :
    .map (fieldsOf fields) = Value.ofFields (Keyed.putAll [] fields) :=
  congrArg Value.map (foldl_putField fields [])

theorem fieldsOf_nodup {fields : List (String × Value)} (h : (fields.map (·.1)).Nodup) :
    .map (fieldsOf fields) = Value.ofFields fields := by
  rw [fieldsOf_eq, Keyed.putAll_new (m := []) h]
  rfl

end Rehearsal.Json
