import Rehearsal.Json.Writer

/-! Text written as a JSON string is read back, whatever is escaped in it. A character outside the
first plane is written as two halves, and the reader joins them. -/

namespace Rehearsal.Json

variable {opened : Nat} {rest : List Char}

/-! Codes in four hexadecimal digits. -/

theorem hexValue?_digitChar : ∀ n < 16, hexValue? n.digitChar = some n := by decide

theorem toDigits_sixteen {n : Nat} (h : 16 ≤ n) :
    Nat.toDigits 16 n = Nat.toDigits 16 (n / 16) ++ [(n % 16).digitChar] :=
  Nat.toDigits_of_base_le (by decide) h

theorem hexDigits_four {n : Nat} (h : n < 0x10000) :
    (Text.hexDigits 4 n).toList = [(n / 4096).digitChar, (n / 256 % 16).digitChar,
      (n / 16 % 16).digitChar, (n % 16).digitChar] := by
  rw [Text.hexDigits, String.toList_ofList]
  rw [show n / 4096 = n / 16 / 16 / 16 by omega, show n / 256 = n / 16 / 16 by omega]
  by_cases h₁ : n < 16
  · rw [Nat.toDigits_of_lt_base h₁, show n / 16 = 0 by omega, Nat.mod_eq_of_lt h₁]
    rfl
  rw [toDigits_sixteen (by omega)]
  by_cases h₂ : n / 16 < 16
  · rw [Nat.toDigits_of_lt_base h₂, show n / 16 / 16 = 0 by omega, Nat.mod_eq_of_lt h₂]
    rfl
  rw [toDigits_sixteen (by omega)]
  by_cases h₃ : n / 16 / 16 < 16
  · rw [Nat.toDigits_of_lt_base h₃, show n / 16 / 16 / 16 = 0 by omega, Nat.mod_eq_of_lt h₃]
    rfl
  rw [toDigits_sixteen (by omega), Nat.toDigits_of_lt_base (show n / 16 / 16 / 16 < 16 by omega)]
  rfl

theorem hex4?_digits {n : Nat} (h : n < 0x10000) :
    hex4? (n / 4096).digitChar (n / 256 % 16).digitChar (n / 16 % 16).digitChar
      (n % 16).digitChar = some n := by
  rw [hex4?, hexValue?_digitChar _ (by omega), hexValue?_digitChar _ (by omega),
    hexValue?_digitChar _ (by omega), hexValue?_digitChar _ (by omega)]
  exact congrArg some (by omega)

theorem readChars_codeEscape {n : Nat} (h : n < 0x10000) (half : Option Nat) (hrest : rest ≠ []) :
    readChars opened half (codeEscape n ++ rest) =
      withFront (addCode half n).1 (readChars opened (addCode half n).2 rest) := by
  have hne : rest.isEmpty = false := by simpa using hrest
  simp only [codeEscape, hexDigits_four h, List.cons_append, List.nil_append, readChars,
    hex4?_digits h, hne]
  rfl

theorem readChars_letter {letter c : Char} (h : escaped? letter = some c) :
    readChars opened none ('\\' :: letter :: rest) =
      withFront [c] (readChars opened none rest) := by
  have hu : letter ≠ 'u' := by
    rintro rfl
    cases h
  rw [readChars]
  · simp only [h]
    rfl
  · exact fun _ _ _ _ _ hl => absurd hl hu
  · exact hu

theorem readChars_plain {c : Char} (hq : c ≠ '"') (hb : c ≠ '\\') (hc : ¬c.toNat < 0x20) :
    readChars opened none (c :: rest) = withFront [c] (readChars opened none rest) := by
  rw [readChars]
  · simp only [if_neg hc]
    rfl
  · exact hq
  all_goals simp [hb]

theorem readChars_code {c : Char} (h : c.toNat < 0x10000) (hrest : rest ≠ []) :
    readChars opened none (codeEscape c.toNat ++ rest) =
      withFront [c] (readChars opened none rest) := by
  have hvalid : c.toNat < 0xD800 ∨ (0xDFFF < c.toNat ∧ c.toNat < 0x110000) := c.valid
  have hhigh : isHighSurrogate c.toNat = false := by simp [isHighSurrogate]; omega
  have hlow : isLowSurrogate c.toNat = false := by simp [isLowSurrogate]; omega
  rw [readChars_codeEscape h none hrest]
  simp only [addCode, hhigh, hlow, c.ofNat_toNat]
  rfl

theorem withFront_append (front more : List Char) (answer : Except Stop (List Char × List Char)) :
    withFront front (withFront more answer) = withFront (front ++ more) answer := by
  rcases answer with stop | ⟨cs, rest⟩
  · rfl
  · exact congrArg Except.ok (congrArg (·, rest) (List.append_assoc front more cs).symm)

theorem readChars_halves {c : Char} {n : Nat} (h : c.toNat = 0x10000 + n) (hrest : rest ≠ []) :
    readChars opened none
        (codeEscape (0xD800 + n / 1024) ++ codeEscape (0xDC00 + n % 1024) ++ rest) =
      withFront [c] (readChars opened none rest) := by
  have hvalid : c.toNat < 0xD800 ∨ (0xDFFF < c.toNat ∧ c.toNat < 0x110000) := c.valid
  have hn : n < 0x100000 := by omega
  have hhigh : isHighSurrogate (0xD800 + n / 1024) = true := by simp [isHighSurrogate]; omega
  have hnot : isHighSurrogate (0xDC00 + n % 1024) = false := by simp [isHighSurrogate]
  have hlow : isLowSurrogate (0xDC00 + n % 1024) = true := by simp [isLowSurrogate]; omega
  have hjoin : joinSurrogates (0xD800 + n / 1024) (0xDC00 + n % 1024) = c := by
    rw [joinSurrogates, Nat.add_sub_cancel_left, Nat.add_sub_cancel_left,
      show 0x10000 + n / 1024 * 1024 + n % 1024 = c.toNat by omega, c.ofNat_toNat]
  have hfirst : addCode none (0xD800 + n / 1024) = ([], some (0xD800 + n / 1024)) := by
    rw [addCode, if_pos hhigh, flushHalf]
  have hsecond : addCode (some (0xD800 + n / 1024)) (0xDC00 + n % 1024) = ([c], none) := by
    rw [addCode, hnot, if_neg Bool.false_ne_true, if_pos hlow]
    exact congrArg (fun c => ([c], none)) hjoin
  rw [List.append_assoc, readChars_codeEscape (by omega) none (by simp [codeEscape]), hfirst,
    readChars_codeEscape (by omega) _ hrest, hsecond]
  exact withFront_append [] [c] _

theorem escapeControl?_cases (c : Char) :
    (∃ letter, escapeControl? c = some ['\\', letter] ∧ escaped? letter = some c) ∨
      (c.toNat < 0x20 ∧ escapeControl? c = some (codeEscape c.toNat)) ∨
      (escapeControl? c = none ∧ c ≠ '"' ∧ c ≠ '\\' ∧ ¬c.toNat < 0x20) := by
  rw [escapeControl?]
  -- the characters that have a letter, one after another
  iterate 7
    split
    · rename_i h
      subst h
      exact .inl ⟨_, rfl, rfl⟩
  split
  · exact .inr (.inl ⟨‹_›, rfl⟩)
  · exact .inr (.inr ⟨rfl, ‹_›, ‹_›, ‹_›⟩)

theorem readChars_escapeChar (asciiOnly : Bool) (c : Char) (hrest : rest ≠ []) :
    readChars opened none (escapeChar asciiOnly c ++ rest) =
      withFront [c] (readChars opened none rest) := by
  rw [escapeChar]
  rcases escapeControl?_cases c with ⟨letter, hesc, hletter⟩ | ⟨hc, hesc⟩ | ⟨hesc, hq, hb, hc⟩
  · rw [hesc]
    exact readChars_letter hletter
  · rw [hesc]
    exact readChars_code (by omega) hrest
  · rw [hesc]
    dsimp only
    split
    · exact readChars_plain hq hb hc
    split
    · exact readChars_code ‹_› hrest
    · exact readChars_halves (by omega) hrest

theorem readChars_escaped (asciiOnly : Bool) (cs : List Char) :
    readChars opened none (cs.flatMap (escapeChar asciiOnly) ++ '"' :: rest) = .ok (cs, rest) := by
  induction cs with
  | nil => rfl
  | cons c cs ih =>
    rw [List.flatMap_cons, List.append_assoc, readChars_escapeChar asciiOnly c (by simp), ih]
    rfl

theorem readString_writeText (asciiOnly : Bool) (s : String) (rest : List Char) :
    ∃ cs, writeText asciiOnly s ++ rest = '"' :: cs ∧ readString cs = .ok (s, rest) := by
  refine ⟨s.toList.flatMap (escapeChar asciiOnly) ++ '"' :: rest, ?_, ?_⟩
  · simp [writeText]
  · rw [readString, readChars_escaped]
    exact congrArg (fun s => Except.ok (s, rest)) s.ofList_toList

end Rehearsal.Json
