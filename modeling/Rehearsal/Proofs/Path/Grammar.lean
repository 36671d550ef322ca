import Rehearsal.Path
import Rehearsal.Proofs.Fallible
import Rehearsal.Proofs.Text.Digits

/-! Which texts are paths. The grammar is stated character by character, apart from the scanner. A
text is compiled just if the grammar derives it, and then into the one path that has this text; any
other text is refused as an invalid path. -/

/-! The text of a path is compiled into that path, if its fields have names that can be written in
one. -/

namespace Rehearsal

/-- Whether a field name can be written in a path. -/
def Path.IsIdentifier (name : String) : Prop :=
  ∃ c rest, name.toList = c :: rest ∧ isNameStart c ∧ ∀ d ∈ rest, isNamePart d

/-- Whether a segment can be written in a path. -/
def Segment.Writable : Segment → Prop
  | .field name => Path.IsIdentifier name
  | .index _ => True

theorem Segment.chars_ne_nil (s : Segment) : s.chars ≠ [] := by
  cases s <;> simp [chars]

namespace Path

theorem isIndexText_toDigits (n : Nat) : isIndexText (Nat.toDigits 10 n) := by
  rcases Nat.eq_zero_or_pos n with rfl | hn
  · rfl
  · obtain ⟨c, rest, hd, hc⟩ := Text.toDigits_pos n hn
    rw [hd]
    unfold isIndexText
    split
    · contradiction
    · rfl
    · simp_all

theorem takeSegment_field {name : String} {rest : List Char} (hname : IsIdentifier name)
    (hrest : ∀ c ∈ rest.head?, isNamePart c = false) :
    takeSegment ((Segment.field name).chars ++ rest) = some (.field name, rest) := by
  obtain ⟨c, tail, hchars, hc, htail⟩ := hname
  obtain ⟨htake, hdrop⟩ := Text.take_run htail hrest
  have hback : String.ofList (c :: tail) = name := by rw [← hchars, String.ofList_toList]
  simp only [Segment.chars, hchars, List.cons_append, takeSegment, hc, if_true, htake, hdrop,
    hback]

theorem takeSegment_index (n : Nat) (rest : List Char) :
    takeSegment ((Segment.index n).chars ++ rest) = some (.index n, rest) := by
  have hdigits : ∀ c ∈ Nat.toDigits 10 n, isAsciiDigit c :=
    fun _ => Text.isDigit_of_mem_toDigits
  have hclose : ∀ c ∈ (']' :: rest).head?, isAsciiDigit c = false :=
    fun _ h => Option.some.inj h ▸ rfl
  obtain ⟨htake, hdrop⟩ := Text.take_run hdigits hclose
  simp only [Segment.chars, List.cons_append, List.append_assoc, List.nil_append, takeSegment,
    htake, hdrop, isIndexText_toDigits, if_true, Text.digitsValue_toDigits]

theorem takeSegment_chars {s : Segment} {rest : List Char} (hs : s.Writable)
    (hrest : ∀ c ∈ rest.head?, isNamePart c = false) :
    takeSegment (s.chars ++ rest) = some (s, rest) := by
  cases s with
  | field name => exact takeSegment_field hs hrest
  | index n => exact takeSegment_index n rest

theorem head_chars (segments : List Segment) :
    ∀ c ∈ (segments.flatMap Segment.chars).head?, isNamePart c = false := by
  cases segments with
  | nil => simp
  | cons s rest => cases s <;> simp [Segment.chars] <;> decide

theorem takeSegments_chars (segments : List Segment) (h : ∀ s ∈ segments, s.Writable)
    (fuel : Nat) (hfuel : segments.length ≤ fuel) :
    takeSegments fuel (segments.flatMap Segment.chars) = .ok segments := by
  induction segments generalizing fuel with
  | nil => simp [takeSegments]
  | cons s rest ih =>
    obtain ⟨fuel, rfl⟩ : ∃ n, fuel = n + 1 := ⟨fuel - 1, by simp at hfuel; omega⟩
    have hrest := ih (fun t ht => h t (List.mem_cons_of_mem _ ht)) fuel (by simpa using hfuel)
    have hone := takeSegment_chars (h s List.mem_cons_self) (head_chars rest)
    rw [List.flatMap_cons, takeSegments]
    · simp only [hone, hrest]
      rfl
    · intro hnil
      exact s.chars_ne_nil (List.append_eq_nil_iff.mp hnil).1

theorem length_le_chars (segments : List Segment) :
    segments.length ≤ (segments.flatMap Segment.chars).length := by
  induction segments with
  | nil => simp
  | cons s rest ih =>
    have hs : 0 < s.chars.length := List.length_pos_iff.mpr s.chars_ne_nil
    simp only [List.flatMap_cons, List.length_append, List.length_cons]
    omega

theorem compile_text {p : Path} (hne : p.segments ≠ []) (h : ∀ s ∈ p.segments, s.Writable) :
    compile p.text = .ok p := by
  have htake := takeSegments_chars p.segments h _ (length_le_chars p.segments)
  simp only [compile, text, String.toList_ofList, charsOf, htake]

end Path

end Rehearsal

namespace Rehearsal.Path

/-! The grammar and the scanner. -/

/-- The texts of a segment: a name after a point, or an index without leading zeros in brackets. -/
inductive SegmentText : List Char → Prop where
  | field {c : Char} {rest : List Char} (hstart : c.isAlpha ∨ c = '_')
      (hrest : ∀ d ∈ rest, d.isAlphanum ∨ d = '_' ∨ d = '-') : SegmentText ('.' :: c :: rest)
  | zero : SegmentText ['[', '0', ']']
  | index {c : Char} {rest : List Char} (hdigit : c.isDigit) (hzero : c ≠ '0')
      (hrest : ∀ d ∈ rest, d.isDigit) : SegmentText ('[' :: c :: rest ++ [']'])

/-- The texts of paths: `$` and then segments, at least one. -/
def Grammatical (text : String) : Prop :=
  ∃ parts : List (List Char), parts ≠ [] ∧ (∀ part ∈ parts, SegmentText part) ∧
    text.toList = '$' :: parts.flatten

variable {cs rest : List Char} {s : Segment} {segments : List Segment} {t : String} {p : Path}

/-! The classes of characters. -/

theorem isNameStart_iff {c : Char} : isNameStart c ↔ c.isAlpha ∨ c = '_' := by
  have hupper : c.isUpper ↔ 'A' ≤ c ∧ c ≤ 'Z' := decide_eq_true_iff
  have hlower : c.isLower ↔ 'a' ≤ c ∧ c ≤ 'z' :=
    (Bool.and_eq_true_iff ..).trans (and_congr decide_eq_true_iff decide_eq_true_iff)
  have halpha : c.isAlpha ↔ c.isUpper ∨ c.isLower := Bool.or_eq_true_iff ..
  simp only [isNameStart, halpha, hupper, hlower, Bool.or_eq_true, Bool.and_eq_true,
    decide_eq_true_eq, beq_iff_eq]
  rw [or_comm (a := 'a' ≤ c ∧ c ≤ 'z')]

theorem isNamePart_iff {c : Char} : isNamePart c ↔ c.isAlphanum ∨ c = '_' ∨ c = '-' := by
  have hdigit : c.isDigit ↔ '0' ≤ c ∧ c ≤ '9' := by simp [Char.isDigit, Char.le_def]
  simp only [isNamePart, Bool.or_eq_true, isNameStart_iff, Char.isAlphanum, hdigit,
    Bool.and_eq_true, decide_eq_true_eq, beq_iff_eq]
  grind

/-! The texts of segments are those that the grammar derives. -/

theorem segmentText_chars (h : s.Writable) : SegmentText s.chars := by
  cases s with
  | field name =>
    obtain ⟨c, rest, hname, hc, hrest⟩ := h
    rw [Segment.chars, hname]
    exact .field (isNameStart_iff.mp hc) fun d hd => isNamePart_iff.mp (hrest d hd)
  | index n =>
    rcases Nat.eq_zero_or_pos n with rfl | hn
    · exact .zero
    · obtain ⟨c, rest, hdigits, hc⟩ := Text.toDigits_pos n hn
      have hall : ∀ d ∈ c :: rest, d.isDigit := fun d hd =>
        Text.isDigit_of_mem_toDigits (hdigits ▸ hd)
      rw [Segment.chars, hdigits]
      exact .index (hall c List.mem_cons_self) hc fun d hd => hall d (List.mem_cons_of_mem _ hd)

theorem SegmentText.exists_segment (h : SegmentText cs) :
    ∃ s : Segment, s.Writable ∧ s.chars = cs := by
  cases h with
  | @field c rest hstart hrest =>
    refine ⟨.field (String.ofList (c :: rest)), ⟨c, rest, String.toList_ofList, ?_, ?_⟩, ?_⟩
    · exact isNameStart_iff.mpr hstart
    · exact fun d hd => isNamePart_iff.mpr (hrest d hd)
    · rw [Segment.chars, String.toList_ofList]
  | zero => exact ⟨.index 0, trivial, rfl⟩
  | @index c rest hdigit hzero hrest =>
    refine ⟨.index (Text.digitsValue (c :: rest)), trivial, ?_⟩
    rw [Segment.chars, Text.toDigits_digitsValue hdigit hzero hrest]

theorem exists_segments {parts : List (List Char)} (h : ∀ part ∈ parts, SegmentText part) :
    ∃ segments : List Segment, (∀ s ∈ segments, s.Writable) ∧
      segments.map Segment.chars = parts := by
  induction parts with
  | nil => exact ⟨[], nofun, rfl⟩
  | cons part rest ih =>
    obtain ⟨s, hs, hpart⟩ := (h part List.mem_cons_self).exists_segment
    obtain ⟨segments, hall, hrest⟩ := ih fun q hq => h q (List.mem_cons_of_mem _ hq)
    refine ⟨s :: segments, List.forall_mem_cons.mpr ⟨hs, hall⟩, ?_⟩
    rw [List.map_cons, hpart, hrest]

theorem toList_text (p : Path) : p.text.toList = '$' :: p.segments.flatMap Segment.chars := by
  rw [text, String.toList_ofList, charsOf]

theorem grammatical_iff :
    Grammatical t ↔ ∃ p : Path, p.segments ≠ [] ∧ (∀ s ∈ p.segments, s.Writable) ∧ p.text = t := by
  constructor
  · rintro ⟨parts, hne, hparts, ht⟩
    obtain ⟨segments, hall, rfl⟩ := exists_segments hparts
    refine ⟨⟨segments⟩, ?_, hall, ?_⟩
    · rintro rfl
      exact hne rfl
    · apply String.toList_inj.mp
      rw [toList_text, ht, List.flatMap_def]
  · rintro ⟨p, hne, hall, rfl⟩
    refine ⟨p.segments.map Segment.chars, by simpa using hne, ?_, ?_⟩
    · intro part hpart
      obtain ⟨s, hs, rfl⟩ := List.mem_map.mp hpart
      exact segmentText_chars (hall s hs)
    · rw [toList_text, List.flatMap_def]

/-! What the scanner takes is what it puts together again. -/

theorem toDigits_of_isIndexText {digits : List Char} (h : isIndexText digits)
    (hall : ∀ d ∈ digits, d.isDigit) : Nat.toDigits 10 (Text.digitsValue digits) = digits := by
  unfold isIndexText at h
  split at h
  · cases h
  · rfl
  · obtain ⟨hc, hrest⟩ := List.forall_mem_cons.mp hall
    exact Text.toDigits_digitsValue hc (by simpa using h) hrest

theorem takeSegment_eq_some (h : takeSegment cs = some (s, rest)) :
    s.Writable ∧ s.chars ++ rest = cs := by
  unfold takeSegment at h
  -- a field, an index, or no segment
  split at h
  · rename_i c tail
    split at h
    · rename_i hc
      cases h
      refine ⟨⟨c, tail.takeWhile isNamePart, String.toList_ofList, hc, ?_⟩, ?_⟩
      · exact List.all_eq_true.mp List.all_takeWhile
      · simp [Segment.chars, List.takeWhile_append_dropWhile]
    · cases h
  · rename_i tail
    dsimp only at h
    split at h
    · rename_i after hclose
      split at h
      · rename_i hindex
        cases h
        have hdigits := toDigits_of_isIndexText hindex (List.all_eq_true.mp List.all_takeWhile)
        refine ⟨trivial, ?_⟩
        calc (Segment.index (Text.digitsValue (tail.takeWhile isAsciiDigit))).chars ++ rest
            = '[' :: (tail.takeWhile isAsciiDigit ++ ']' :: rest) := by
              rw [Segment.chars, hdigits]
              simp
          _ = '[' :: tail := by rw [← hclose, List.takeWhile_append_dropWhile]
      · cases h
    · cases h
  · cases h

theorem takeSegments_eq_ok {fuel : Nat} (h : takeSegments fuel cs = .ok segments) :
    (∀ s ∈ segments, s.Writable) ∧ segments.flatMap Segment.chars = cs := by
  induction fuel generalizing cs segments with
  | zero =>
    cases cs with
    | nil => cases h; exact ⟨nofun, rfl⟩
    | cons c rest => cases h
  | succ fuel ih =>
    cases cs with
    | nil => cases h; exact ⟨nofun, rfl⟩
    | cons c tail =>
      simp only [takeSegments] at h
      split at h
      · cases h
      · rename_i s rest hone
        obtain ⟨others, hothers, rfl⟩ := map_eq_ok.mp h
        obtain ⟨hs, hchars⟩ := takeSegment_eq_some hone
        obtain ⟨hall, hrest⟩ := ih hothers
        refine ⟨List.forall_mem_cons.mpr ⟨hs, hall⟩, ?_⟩
        rw [List.flatMap_cons, hrest, hchars]

/-- All that compiling can do: refuse the text as a path, or give the path that has this text. -/
theorem compile_cases (t : String) :
    (∃ why, compile t = .error (.invalidPath why (some t))) ∨
      ∃ p, compile t = .ok p ∧ p.segments ≠ [] ∧ (∀ s ∈ p.segments, s.Writable) ∧ p.text = t := by
  unfold compile
  split
  · rename_i tail ht
    split
    · exact .inl ⟨_, rfl⟩
    · exact .inl ⟨_, rfl⟩
    · rename_i segments hne htake
      obtain ⟨hall, hchars⟩ := takeSegments_eq_ok htake
      refine .inr ⟨⟨segments⟩, rfl, fun hnil => hne (by rw [← hnil]), hall, ?_⟩
      apply String.toList_inj.mp
      rw [toList_text, ht, hchars]
  · exact .inl ⟨_, rfl⟩

theorem compile_eq_ok_iff :
    compile t = .ok p ↔ p.segments ≠ [] ∧ (∀ s ∈ p.segments, s.Writable) ∧ p.text = t := by
  constructor
  · intro h
    rcases compile_cases t with ⟨why, herror⟩ | ⟨q, hok, hq⟩
    · rw [h] at herror
      cases herror
    · cases h.symm.trans hok
      exact hq
  · rintro ⟨hne, hall, rfl⟩
    exact compile_text hne hall

/-- A text is compiled just if the grammar derives it; what is compiled has the text it came from;
every other text is refused as an invalid path; and the text of segments that can be written is
compiled into them again. -/
theorem compile_iff_grammatical :
    (∀ t, (∃ p, compile t = .ok p) ↔ Grammatical t) ∧
    (∀ t p, compile t = .ok p → p.text = t) ∧
    (∀ t fault, compile t = .error fault → ∃ why, fault = .invalidPath why (some t)) ∧
    (∀ segments : List Segment, segments ≠ [] → (∀ s ∈ segments, s.Writable) →
      compile (text ⟨segments⟩) = .ok ⟨segments⟩) := by
  refine ⟨fun t => ?_, fun t p h => (compile_eq_ok_iff.mp h).2.2, fun t fault h => ?_, ?_⟩
  · rw [grammatical_iff]
    exact exists_congr fun p => compile_eq_ok_iff
  · rcases compile_cases t with ⟨why, herror⟩ | ⟨p, hok, -⟩
    · exact ⟨why, Except.error.inj (h.symm.trans herror)⟩
    · cases h.symm.trans hok
  · exact fun segments hne hall => compile_text hne hall

theorem compile_iff_grammatical_orders :
    let segments : List Segment := [.field "orders", .index 10, .field "line-no"]
    segments ≠ [] ∧ (∀ s ∈ segments, s.Writable) ∧
      compile "$.orders[10].line-no" = .ok ⟨segments⟩ := by
  intro segments
  have hall : ∀ s ∈ segments, s.Writable := by
    simp only [segments, List.forall_mem_cons]
    exact ⟨⟨'o', "rders".toList, rfl, by decide, List.all_eq_true.mp (by decide)⟩, trivial,
      ⟨'l', "ine-no".toList, rfl, by decide, List.all_eq_true.mp (by decide)⟩, nofun⟩
  exact ⟨nofun, hall, compile_iff_grammatical.2.2.2 segments nofun hall⟩

/-- A zero in front of a digit, an empty index and a name that starts with a digit are no paths. -/
example : ¬ (["$.a[01]", "$[]", "$.1a", "$"].any fun t => (compile t).isOk) := by decide

end Rehearsal.Path
