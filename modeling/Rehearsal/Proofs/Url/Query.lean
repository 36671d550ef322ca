import Rehearsal.Proofs.Text.Utf8
import Rehearsal.Proofs.Url.Reference
import Rehearsal.Url.Target

/-! The parameters of an address. A query is read as a list of names and values, and one that was
written from such a list is read back as that list. Writing leaves nothing in it that would have to
be quoted, so bringing an address into its normal form does not change it. -/

namespace Rehearsal.Url

/-- The byte that two hexadecimal digits write. -/
def byteOfDigits? (high low : Char) : Option UInt8 := do
  return (16 * (← Text.digitIn? 16 high) + (← Text.digitIn? 16 low)).toUInt8

/-- The bytes that a form text stands for; a percent sign without two digits stands for itself. -/
def formBytes : Chars → List UInt8
  | [] => []
  | '+' :: rest => 0x20 :: formBytes rest
  | '%' :: high :: low :: rest =>
    match byteOfDigits? high low with
    | some byte => byte :: formBytes rest
    | none => 0x25 :: formBytes (high :: low :: rest)
  | c :: rest => Utf8.encodeChar c ++ formBytes rest

def readFormText (cs : Chars) : String := Utf8.decodeLossy (formBytes cs)

/-- The name and the value that a part of a query writes, if it writes any; without a sign of
equality all of it is the name. -/
def readPair? (part : Chars) : Option (String × String) :=
  if part.isEmpty then none
  else some (readFormText (cutOff '=' part).1, readFormText (cutOff '=' part).2)

/-- The names and values that a query writes. -/
def readPairs (query : Chars) : List (String × String) :=
  (Text.parts '&' query).filterMap readPair?

/-- The query that stands in the text of an address or a path. -/
def queryOf (text : Chars) : Chars := (cutOff '?' (cutOff '#' text).1).2

/-- The parameters that an address carries. -/
def Target.parameters (t : Target) : List (String × String) := readPairs (t.query.getD [])

/-- Whether a character can stand in a form text. -/
def IsFormChar (c : Char) : Prop := c = '+' ∨ c = '%' ∨ isUnreserved c = true

variable {c : Char} {cs : Chars} {pairs : List (String × String)}

/-! What writing puts into a form text. -/

theorem upperHex_digit : ∀ n < 16, Text.digitIn? 16 (upperHex n) = some n ∧
    isUnreserved (upperHex n) = true := by decide +kernel

theorem byte_div_lt (byte : UInt8) : byte.toNat / 16 < 16 := by
  have := byte.toNat_lt
  omega

theorem isFormChar_percentByte {byte : UInt8} (h : c ∈ percentByte byte) : IsFormChar c := by
  have hhigh := (upperHex_digit _ (byte_div_lt byte)).2
  have hlow := (upperHex_digit _ (Nat.mod_lt byte.toNat (by decide : 0 < 16))).2
  simp only [percentByte, List.mem_cons, List.not_mem_nil, or_false] at h
  obtain rfl | rfl | rfl := h
  · exact .inr (.inl rfl)
  · exact .inr (.inr hhigh)
  · exact .inr (.inr hlow)

theorem isFormChar_formText {s : String} (h : c ∈ formText s) : IsFormChar c := by
  obtain ⟨given, -, hc⟩ := List.mem_flatMap.mp h
  split_ifs at hc with hspace hplain
  · exact .inl (List.mem_singleton.mp hc)
  · rw [List.mem_singleton.mp hc]
    exact .inr (.inr hplain)
  · obtain ⟨byte, -, hbyte⟩ := List.mem_flatMap.mp hc
    exact isFormChar_percentByte hbyte

theorem not_mem_formText (hc : ¬IsFormChar c) (s : String) : c ∉ formText s :=
  fun h => hc (isFormChar_formText h)

theorem not_isFormChar_ampersand : ¬IsFormChar '&' := by unfold IsFormChar; decide

theorem not_isFormChar_equality : ¬IsFormChar '=' := by unfold IsFormChar; decide

theorem IsFormChar.safe (h : IsFormChar c) : (isUnreserved c || isQuerySafe c) = true := by
  obtain rfl | rfl | h := h
  · decide
  · decide
  · rw [h, Bool.true_or]

theorem safe_formPairs (pairs : List (String × String)) :
    ∀ c ∈ formPairs pairs, (isUnreserved c || isQuerySafe c) = true := by
  have hpair : ∀ name value : String, ∀ c ∈ formText name ++ '=' :: formText value,
      (isUnreserved c || isQuerySafe c) = true := by
    intro name value c hc
    rcases List.mem_append.mp hc with hname | hrest
    · exact (isFormChar_formText hname).safe
    rcases List.mem_cons.mp hrest with rfl | hvalue
    · decide
    · exact (isFormChar_formText hvalue).safe
  induction pairs with
  | nil => exact nofun
  | cons pair rest ih =>
    cases rest with
    | nil => exact hpair pair.1 pair.2
    | cons next more =>
      intro c hc
      rcases List.mem_append.mp hc with hfirst | hrest
      · exact hpair pair.1 pair.2 c hfirst
      rcases List.mem_cons.mp hrest with rfl | hrest
      · decide
      · exact ih c hrest

theorem quote_eq_self {isSafe : Char → Bool} (h : ∀ c ∈ cs, (isUnreserved c || isSafe c) = true) :
    quote isSafe cs = cs := by
  induction cs with
  | nil => rfl
  | cons c rest ih =>
    obtain ⟨hc, hrest⟩ := List.forall_mem_cons.mp h
    rw [quote, List.flatMap_cons, if_pos hc, ← quote, ih hrest]
    rfl

theorem quote_formPairs (pairs : List (String × String)) :
    quote isQuerySafe (formPairs pairs) = formPairs pairs :=
  quote_eq_self (safe_formPairs pairs)

/-! Reading what was written. -/

theorem byteOfDigits?_upperHex (byte : UInt8) :
    byteOfDigits? (upperHex (byte.toNat / 16)) (upperHex (byte.toNat % 16)) = some byte := by
  have hsum : 16 * (byte.toNat / 16) + byte.toNat % 16 = byte.toNat := Nat.div_add_mod _ _
  simp only [byteOfDigits?, (upperHex_digit _ (byte_div_lt byte)).1,
    (upperHex_digit _ (Nat.mod_lt byte.toNat (by decide : 0 < 16))).1, Option.bind_eq_bind,
    Option.bind_some, hsum, pure]
  exact congrArg some (UInt8.ofNat_toNat)

theorem formBytes_percentBytes (bytes : List UInt8) (cs : Chars) :
    formBytes (bytes.flatMap percentByte ++ cs) = bytes ++ formBytes cs := by
  induction bytes with
  | nil => rfl
  | cons byte rest ih =>
    simp only [List.flatMap_cons, percentByte, List.cons_append, List.nil_append, formBytes,
      byteOfDigits?_upperHex, ih]

theorem formBytes_unreserved (h : isUnreserved c = true) (cs : Chars) :
    formBytes (c :: cs) = Utf8.encodeChar c ++ formBytes cs := by
  have hplus : c ≠ '+' := by rintro rfl; exact absurd h (by decide)
  have hpercent : c ≠ '%' := by rintro rfl; exact absurd h (by decide)
  rw [formBytes]
  · exact hplus
  · exact fun _ _ _ hcode => absurd hcode hpercent

theorem formBytes_formText (s : String) : formBytes (formText s) = Utf8.encode s := by
  rw [formText, Utf8.encode, Utf8.encodeChars]
  induction s.toList with
  | nil => rfl
  | cons c rest ih =>
    rw [List.flatMap_cons, List.flatMap_cons, ← ih]
    split_ifs with hspace hplain
    · rw [eq_of_beq hspace]
      rfl
    · exact formBytes_unreserved hplain _
    · exact formBytes_percentBytes _ _

theorem readFormText_formText (s : String) : readFormText (formText s) = s := by
  rw [readFormText, formBytes_formText, Utf8.decodeLossy_encode]

theorem parts_cons_mark (mark : Char) (cs : Chars) :
    Text.parts mark (mark :: cs) = [] :: Text.parts mark cs := by
  simp [Text.parts]

theorem parts_cons {mark : Char} (h : c ≠ mark) (cs : Chars) :
    ∃ first others, Text.parts mark cs = first :: others ∧
      Text.parts mark (c :: cs) = (c :: first) :: others :=
  ⟨_, _, rfl, by simp [Text.parts, h]⟩

theorem parts_of_not_mem {mark : Char} (h : mark ∉ cs) : Text.parts mark cs = [cs] := by
  induction cs with
  | nil => rfl
  | cons c rest ih =>
    obtain ⟨hc, hrest⟩ := not_or.mp (List.mem_cons.not.mp h)
    obtain ⟨first, others, hparts, hcons⟩ := parts_cons (Ne.symm hc) rest
    rw [ih hrest] at hparts
    cases hparts
    exact hcons

theorem parts_append {mark : Char} (h : mark ∉ cs) (ds : Chars) :
    Text.parts mark (cs ++ mark :: ds) = cs :: Text.parts mark ds := by
  induction cs with
  | nil => exact parts_cons_mark mark ds
  | cons c rest ih =>
    obtain ⟨hc, hrest⟩ := not_or.mp (List.mem_cons.not.mp h)
    obtain ⟨first, others, hparts, hcons⟩ := parts_cons (Ne.symm hc) (rest ++ mark :: ds)
    rw [ih hrest] at hparts
    cases hparts
    exact hcons

theorem not_mem_pair (name value : String) : '&' ∉ formText name ++ '=' :: formText value := by
  have hname := not_mem_formText not_isFormChar_ampersand name
  have hvalue := not_mem_formText not_isFormChar_ampersand value
  simp [hname, hvalue]

theorem readPair?_pair (name value : String) :
    readPair? (formText name ++ '=' :: formText value) = some (name, value) := by
  have hcut := cut_append (not_mem_formText not_isFormChar_equality name) (formText value)
  rw [readPair?, if_neg (by simp), cutOff, hcut]
  simp only [Option.getD_some, readFormText_formText]

theorem readPairs_formPairs (pairs : List (String × String)) :
    readPairs (formPairs pairs) = pairs := by
  induction pairs with
  | nil => rfl
  | cons pair rest ih =>
    obtain ⟨name, value⟩ := pair
    cases rest with
    | nil =>
      rw [formPairs, readPairs, parts_of_not_mem (not_mem_pair name value), List.filterMap_cons,
        readPair?_pair]
      rfl
    | cons next more =>
      have hsplit : formPairs ((name, value) :: next :: more) =
          (formText name ++ '=' :: formText value) ++ '&' :: formPairs (next :: more) := by
        simp only [formPairs, List.append_assoc, List.cons_append]
      rw [hsplit, readPairs, parts_append (not_mem_pair name value), List.filterMap_cons,
        readPair?_pair, ← readPairs, ih]

theorem Target.ofParts_query {scheme authority path : Chars} {query fragment : Option Chars}
    {t : Target} (h : ofParts scheme authority path query fragment = .ok t) :
    t.query = query.map (quote isQuerySafe) := by
  simp only [ofParts] at h
  generalize (if authority.contains '@' then cutLast '@' authority else ([], authority)) = cut at h
  obtain ⟨host, -, h⟩ := bind_eq_ok.mp h
  obtain ⟨port, -, h⟩ := bind_eq_ok.mp h
  -- what may still be refused is the path, before the parts are put together
  split at h
  · cases h
  split at h
  · cases h
  split at h
  · cases h
  cases h
  rfl

theorem Target.parameters_withQuery {t made : Target}
    (h : t.withQuery (if pairs.isEmpty then none else some (formPairs pairs)) = .ok made) :
    made.parameters = pairs := by
  have hquery : made.query = (if pairs.isEmpty then none else some (formPairs pairs)).map
      (quote isQuerySafe) :=
    ofParts_query h
  cases pairs with
  | nil => rw [parameters, hquery]; rfl
  | cons pair rest =>
    rw [parameters, hquery]
    exact (congrArg readPairs (quote_formPairs _)).trans (readPairs_formPairs _)

end Rehearsal.Url
