import Rehearsal.Auth.Reading
import Rehearsal.Proofs.Fallible

/-! What escapes the reading of an authentication besides the failures that are told as a
misconfiguration. A reading is a chain of stages, and what escapes is what escapes one of them after
those before it succeed. -/

namespace Rehearsal

section Leaks

variable {α β : Type} {x : Except Fault α} {fault other : Fault}

/-- A failure with a fault that is not told as a misconfiguration. -/
def Leaks (x : Except Fault α) (fault : Fault) : Prop :=
  x = .error fault ∧ fault.kind ≠ .configuration

@[simp] theorem not_leaks_ok (a : α) : ¬Leaks (.ok a) fault := by
  intro h
  cases h.1

@[simp] theorem not_leaks_pure (a : α) : ¬Leaks (pure a) fault := not_leaks_ok a

@[simp] theorem not_leaks_configuration (cause : Misconfiguration) :
    ¬Leaks (.error (.configuration cause) : Except Fault α) fault := by
  intro h
  cases h.1
  exact h.2 rfl

theorem leaks_raised {kind : FaultClass} {text : String} (hkind : kind ≠ .configuration) :
    Leaks (.error (.raised kind text) : Except Fault α) fault ↔ fault = .raised kind text := by
  rw [Leaks, Except.error.injEq, eq_comm]
  exact and_iff_left_of_imp fun h => h ▸ hkind

theorem leaks_bind {f : α → Except Fault β} : Leaks (x >>= f) fault ↔
    Leaks x fault ∨ ∃ a, x = .ok a ∧ Leaks (f a) fault := by
  cases x with
  | error other => simp [error_bind, Leaks]
  | ok a => simp [ok_bind]

theorem leaks_map {f : α → β} : Leaks (x.map f) fault ↔ Leaks x fault := by
  cases x <;> simp [Except.map, Leaks]

theorem leaks_tooLong : Leaks (.error Json.tooLong : Except Fault α) fault ↔
    fault = Json.tooLong := leaks_raised (by decide)

end Leaks

theorem leaks_displayChecked {value : Value} {fault : Fault} :
    Leaks value.displayChecked fault ↔ value.holdsLong = true ∧ fault = Json.tooLong := by
  unfold Value.displayChecked
  split <;> rename_i hlong <;> simp [hlong, leaks_tooLong]

theorem leaks_shownChecked {value : Value} {fault : Fault} :
    Leaks value.shownChecked fault ↔ value.holdsLong = true ∧ fault = Json.tooLong := by
  unfold Value.shownChecked
  split <;> rename_i hlong <;> simp [hlong, leaks_tooLong]

theorem displayChecked_eq_ok {value : Value} {text : String} :
    value.displayChecked = .ok text ↔ value.holdsLong = false ∧ value.display = text := by
  unfold Value.displayChecked
  split <;> rename_i hlong <;> simp [hlong]

namespace AuthReading

variable {α : Type} {raw entries key : Entries} {name : String} {value : Value} {fault : Fault}

/-- Whether a value can be taken apart into its items. -/
def listable : Value → Bool
  | .text _ => true
  | .list _ => true
  | .tuple _ => true
  | .map _ => true
  | .bytes _ => true
  | _ => false

/-- A value with an integer that is too long to be written is under a name. -/
def LongAt (entries : Entries) (name : String) : Prop :=
  ∃ value, Value.fieldIn? name entries = some value ∧ value.holdsLong = true

/-- A value that counts is under a name where a mapping should be, and is none. -/
structure NoMapping (entries : Entries) (name : String) (value : Value) : Prop where
  found : Value.fieldIn? name entries = some value
  counts : value.truthy = true
  other : ∀ given, value ≠ .map given

/-- What is said of a value that has no entries. -/
def noEntries (value : Value) : Fault :=
  .raised .missingAttribute ("'" ++ value.qualifiedTypeName ++ "' object has no attribute 'items'")

/-- What is said of a section that is no mapping. -/
def noSection (value : Value) : Fault :=
  .raised .missingAttribute ("'" ++ value.qualifiedTypeName ++ "' object has no attribute 'get'")

/-- What escapes the reading of the block of an API key. -/
inductive KeyLeak (key : Entries) : Fault → Prop
  | long : LongAt key "location" → KeyLeak key Json.tooLong
  | unknown {value : Value} : Value.fieldIn? "location" key = some value →
      value.holdsLong = false → Text.lower value.display ∉ ["header", "query"] →
      KeyLeak key (.badValue
        (Text.quoted (Text.lower value.display) ++ " is not a valid ApiKeyLocation"))

/-- What escapes the reading of an OAuth2 block. -/
inductive OAuth2Leak (entries : Entries) : Fault → Prop
  | grant : LongAt entries "grant_type" → OAuth2Leak entries Json.tooLong
  | scopes {value : Value} {grant : Grant} : grantOf entries = .ok grant →
      Value.fieldIn? "scopes" entries = some value → value.truthy = true →
      listable value = false →
      OAuth2Leak entries (.wrongType ("'" ++ value.qualifiedTypeName ++ "' object is not iterable"))
  | parameters {value : Value} {grant : Grant} {scopes : List Value} :
      grantOf entries = .ok grant → scopesOf entries = .ok scopes →
      NoMapping entries "additional_parameters" value → OAuth2Leak entries (noEntries value)

/-- What escapes the reading of an authentication of requests, after what is read before it. -/
inductive HttpLeak (raw : Entries) : Fault → Prop
  | type : LongAt raw "type" → HttpLeak raw Json.tooLong
  | apiKey {type : HttpAuthType} {key : Entries} {fault : Fault} :
      typeOf HttpAuthType.ofText? .unknownHttpAuth raw = .ok type →
      block raw "api_key" = .ok (some key) → KeyLeak key fault → HttpLeak raw fault
  | customHeader {type : HttpAuthType} {apiKey : Option Entries} {headers : Entries} :
      typeOf HttpAuthType.ofText? .unknownHttpAuth raw = .ok type →
      blockAs placedKey raw "api_key" = .ok apiKey →
      block raw "custom_header" = .ok (some headers) → (Value.map headers).holdsLong = true →
      HttpLeak raw Json.tooLong
  | oauth2 {type : HttpAuthType} {apiKey : Option Entries}
      {headers : Option CustomHeaderAuth} {oauth2 : Entries} {fault : Fault} :
      typeOf HttpAuthType.ofText? .unknownHttpAuth raw = .ok type →
      blockAs placedKey raw "api_key" = .ok apiKey →
      blockAs customHeaders raw "custom_header" = .ok headers →
      block raw "oauth2" = .ok (some oauth2) → OAuth2Leak oauth2 fault → HttpLeak raw fault

@[simp] theorem not_leaks_block : ¬Leaks (block raw name) fault := by
  unfold block
  split <;> simp

@[simp] theorem not_leaks_build {shape : RecordShape} {make : Given → α}
    {given : Option Entries} : ¬Leaks (build shape name make given) fault := by
  unfold build
  split
  · simp
  · split <;> simp

theorem leaks_typeOf {ofText? : String → Option α} {unknown : String → Misconfiguration} :
    Leaks (typeOf ofText? unknown raw) fault ↔ LongAt raw "type" ∧ fault = Json.tooLong := by
  have htext : Leaks (typeText raw) fault ↔ LongAt raw "type" ∧ fault = Json.tooLong := by
    rw [typeText, leaks_map, leaks_displayChecked, LongAt]
    cases Value.fieldIn? "type" raw with
    | none => simp [Value.holdsLong]
    | some value => simp
  rw [typeOf, leaks_bind, ← htext]
  refine or_iff_left ?_
  intro h
  obtain ⟨text, -, h⟩ := h
  split at h
  · exact not_leaks_pure _ h
  · exact not_leaks_configuration _ h

theorem leaks_blockAs {make : Entries → Except Fault α} : Leaks (blockAs make raw name) fault ↔
    ∃ entries, block raw name = .ok (some entries) ∧ Leaks (make entries) fault := by
  rw [blockAs, leaks_bind]
  constructor
  · intro h
    obtain hblock | ⟨given, hgiven, h⟩ := h
    · exact absurd hblock not_leaks_block
    · cases given with
      | none => exact absurd h (not_leaks_pure _)
      | some entries =>
        refine ⟨entries, hgiven, ?_⟩
        obtain hmake | ⟨made, -, h⟩ := leaks_bind.mp h
        · exact hmake
        · exact absurd h (not_leaks_pure _)
  · intro h
    obtain ⟨entries, hgiven, hmake⟩ := h
    exact .inr ⟨some entries, hgiven, leaks_bind.mpr (.inl hmake)⟩

theorem leaks_ofText {text : String} : Leaks (KeyLocation.ofText text) fault ↔
    text ∉ ["header", "query"] ∧
      fault = .badValue (Text.quoted text ++ " is not a valid ApiKeyLocation") := by
  rw [KeyLocation.ofText]
  by_cases hheader : text = "header"
  · simp [hheader]
  · by_cases hquery : text = "query"
    · simp [hquery]
    · rw [if_neg hheader, if_neg hquery, Fault.badValue, leaks_raised (by decide)]
      simp [hheader, hquery]

theorem leaks_placedKey : Leaks (placedKey key) fault ↔ KeyLeak key fault := by
  cases hvalue : Value.fieldIn? "location" key with
  | none =>
    rw [placedKey, hvalue]
    refine iff_of_false (not_leaks_ok _) fun h => ?_
    cases h with
    | long h =>
      obtain ⟨value, h, -⟩ := h
      cases hvalue.symm.trans h
    | unknown h => cases hvalue.symm.trans h
  | some value =>
    rw [placedKey, hvalue]
    simp only [leaks_bind, leaks_displayChecked, displayChecked_eq_ok, leaks_ofText,
      not_leaks_pure, and_false, exists_false, or_false]
    constructor
    · intro h
      obtain ⟨hlong, rfl⟩ | ⟨text, ⟨hshort, rfl⟩, hplace, rfl⟩ := h
      · exact .long ⟨value, hvalue, hlong⟩
      · exact .unknown hvalue hshort hplace
    · intro h
      cases h with
      | long h =>
        obtain ⟨value, h, hlong⟩ := h
        cases hvalue.symm.trans h
        exact .inl ⟨hlong, rfl⟩
      | unknown h hshort hplace =>
        cases hvalue.symm.trans h
        exact .inr ⟨_, ⟨hshort, rfl⟩, hplace, rfl⟩

theorem leaks_grantOf : Leaks (grantOf entries) fault ↔
    LongAt entries "grant_type" ∧ fault = Json.tooLong := by
  rw [grantOf, LongAt]
  cases Value.fieldIn? "grant_type" entries with
  | none => simp
  | some value =>
    simp only [Option.some.injEq, exists_eq_left']
    cases hgrant : Grant.ofValue value with
    | ok grant =>
      -- what names a grant is a text
      have hshort : value.holdsLong = false := by
        cases value <;> first | rfl | cases hgrant
      simp [hshort]
    | error other =>
      simp only [Value.shownChecked]
      cases value.holdsLong with
      | true => simp [Except.bind, leaks_tooLong]
      | false => simp [Except.bind]

theorem leaks_elements : Leaks (elements value) fault ↔ listable value = false ∧
    fault = .wrongType ("'" ++ value.qualifiedTypeName ++ "' object is not iterable") := by
  cases value <;> simp [elements, listable, Fault.wrongType, leaks_raised]

theorem leaks_entriesOf :
    Leaks (entriesOf value) fault ↔ (∀ given, value ≠ .map given) ∧ fault = noEntries value := by
  cases value <;> simp [entriesOf, noEntries, leaks_raised]

theorem leaks_scopesOf : Leaks (scopesOf entries) fault ↔ ∃ value,
    Value.fieldIn? "scopes" entries = some value ∧ value.truthy = true ∧ listable value = false ∧
      fault = .wrongType ("'" ++ value.qualifiedTypeName ++ "' object is not iterable") := by
  rw [scopesOf, leaks_elements]
  cases Value.fieldIn? "scopes" entries with
  | none => simp [orEmpty, listable]
  | some value => cases htruthy : value.truthy <;> simp [orEmpty, htruthy, listable]

theorem leaks_entriesUnder : Leaks (entriesOf (orEmpty (Value.fieldIn? name entries) (.map [])))
    fault ↔ ∃ value, NoMapping entries name value ∧ fault = noEntries value := by
  rw [leaks_entriesOf]
  constructor
  · intro h
    obtain ⟨hother, rfl⟩ := h
    cases hvalue : Value.fieldIn? name entries with
    | none =>
      rw [hvalue] at hother
      exact absurd rfl (hother [])
    | some value =>
      rw [hvalue, orEmpty] at hother
      rw [orEmpty]
      cases hcounts : value.truthy with
      | false => exact absurd (if_neg (Bool.eq_false_iff.mp hcounts)) (hother [])
      | true =>
        rw [if_pos hcounts] at hother
        exact ⟨value, ⟨hvalue, hcounts, hother⟩, rfl⟩
  · intro h
    obtain ⟨value, ⟨hvalue, hcounts, hother⟩, rfl⟩ := h
    rw [hvalue, orEmpty, if_pos hcounts]
    exact ⟨hother, rfl⟩

theorem leaks_oauth2Block : Leaks (oauth2Block entries) fault ↔ OAuth2Leak entries fault := by
  simp only [oauth2Block, leaks_bind, leaks_grantOf, leaks_scopesOf, additionalOf,
    leaks_entriesUnder, not_leaks_pure, and_false, exists_false, or_false]
  constructor
  · intro h
    obtain ⟨hlong, rfl⟩ | ⟨grant, hgrant, h⟩ := h
    · exact .grant hlong
    obtain ⟨value, hvalue, hcounts, hlist, rfl⟩ | ⟨scopes, hscopes, value, hother, rfl⟩ := h
    · exact .scopes hgrant hvalue hcounts hlist
    · exact .parameters hgrant hscopes hother
  · intro h
    cases h with
    | grant hlong => exact .inl ⟨hlong, rfl⟩
    | scopes hgrant hvalue hcounts hlist =>
      exact .inr ⟨_, hgrant, .inl ⟨_, hvalue, hcounts, hlist, rfl⟩⟩
    | parameters hgrant hscopes hother =>
      exact .inr ⟨_, hgrant, .inr ⟨_, hscopes, _, hother, rfl⟩⟩

theorem leaks_customHeaders : Leaks (customHeaders entries) fault ↔
    (Value.map entries).holdsLong = true ∧ fault = Json.tooLong := by
  unfold customHeaders
  split <;> rename_i hlong <;> simp [hlong, leaks_tooLong]

theorem not_leaks_httpConfig {type : HttpAuthType} {apiKey : Option Entries}
    {headers : Option CustomHeaderAuth} {oauth2 : Option OAuth2Block} :
    ¬Leaks (httpConfig raw type apiKey headers oauth2) fault := by
  rw [httpConfig]
  cases oauth2 <;>
    simp only [leaks_bind, not_leaks_block, not_leaks_build, not_leaks_pure, and_false, exists_false,
      or_false, not_false_iff]

theorem leaks_http : Leaks (http (.map raw)) fault ↔ HttpLeak raw fault := by
  cases raw with
  | nil =>
    -- an empty section counts as absent
    refine iff_of_false (not_leaks_pure _) fun h => ?_
    cases h with
    | type h =>
      obtain ⟨value, h, -⟩ := h
      cases h
    | apiKey _ h => cases h
    | customHeader _ _ h => cases h
    | oauth2 _ _ _ h => cases h
  | cons entry rest =>
    -- a block is read only if those before it are
    rw [http, section?]
    simp only [Value.truthy, List.isEmpty_cons, Bool.not_false, Bool.not_true, Bool.false_eq_true,
      if_false, ok_bind, leaks_bind, leaks_typeOf, leaks_blockAs, leaks_placedKey,
      leaks_customHeaders, leaks_oauth2Block, not_leaks_httpConfig, not_leaks_pure, and_false,
      exists_false, or_false]
    constructor
    · intro h
      obtain ⟨hlong, rfl⟩ | ⟨type, htype, h⟩ := h
      · exact .type hlong
      obtain ⟨key, hkey, hleak⟩ | ⟨apiKey, hplaced, h⟩ := h
      · exact .apiKey htype hkey hleak
      obtain ⟨headers, hheaders, hlong, rfl⟩ | ⟨headers, hmade, oauth2, hoauth2, hleak⟩ := h
      · exact .customHeader htype hplaced hheaders hlong
      · exact .oauth2 htype hplaced hmade hoauth2 hleak
    · intro h
      cases h with
      | type hlong => exact .inl ⟨hlong, rfl⟩
      | apiKey htype hkey hleak => exact .inr ⟨_, htype, .inl ⟨_, hkey, hleak⟩⟩
      | customHeader htype hplaced hheaders hlong =>
        exact .inr ⟨_, htype, .inr ⟨_, hplaced, .inl ⟨_, hheaders, hlong, rfl⟩⟩⟩
      | oauth2 htype hplaced hmade hoauth2 hleak =>
        exact .inr ⟨_, htype, .inr ⟨_, hplaced, .inr ⟨_, hmade, _, hoauth2, hleak⟩⟩⟩

theorem leaks_broker :
    Leaks (broker (.map raw)) fault ↔ LongAt raw "type" ∧ fault = Json.tooLong := by
  cases raw with
  | nil => exact iff_of_false (not_leaks_pure _) (by simp [LongAt, Value.fieldIn?])
  | cons entry rest =>
    rw [broker, section?]
    simp only [Value.truthy, List.isEmpty_cons, Bool.not_false, Bool.not_true, Bool.false_eq_true,
      if_false, ok_bind, leaks_bind, leaks_typeOf, not_leaks_block, not_leaks_build, not_leaks_pure,
      and_false, exists_false, or_false]

theorem section?_other (hother : ∀ raw, value ≠ .map raw) : section? value =
    if value.truthy then .error (noSection value) else .ok none := by
  unfold section?
  cases htruthy : value.truthy with
  | false => rfl
  | true =>
    cases value with
    | map raw => exact absurd rfl (hother raw)
    | _ => rfl

theorem HttpLeak.kind (h : HttpLeak raw fault) :
    fault.kind = .badValue ∨ fault.kind = .wrongType ∨ fault.kind = .missingAttribute := by
  cases h with
  | type => exact .inl rfl
  | apiKey _ _ hkey => cases hkey <;> exact .inl rfl
  | customHeader => exact .inl rfl
  | oauth2 _ _ _ _ hoauth2 =>
    cases hoauth2 with
    | grant => exact .inl rfl
    | scopes => exact .inr (.inl rfl)
    | parameters => exact .inr (.inr rfl)

theorem leaks_http_other (hother : ∀ raw, value ≠ .map raw) :
    Leaks (http value) fault ↔ value.truthy = true ∧ fault = noSection value := by
  rw [http, section?_other hother]
  cases value.truthy with
  | false => exact iff_of_false (not_leaks_pure _) nofun
  | true => simp [error_bind, noSection, leaks_raised]

theorem leaks_broker_other (hother : ∀ raw, value ≠ .map raw) :
    Leaks (broker value) fault ↔ value.truthy = true ∧ fault = noSection value := by
  rw [broker, section?_other hother]
  cases value.truthy with
  | false => exact iff_of_false (not_leaks_pure _) nofun
  | true => simp [error_bind, noSection, leaks_raised]

theorem leaks_under {read : Value → Except Fault α} {leak : Entries → Prop}
    (hmap : ∀ raw, Leaks (read (.map raw)) fault ↔ leak raw)
    (hother : ∀ value, (∀ raw, value ≠ .map raw) →
      (Leaks (read value) fault ↔ value.truthy = true ∧ fault = noSection value)) :
    Leaks (read ((Value.fieldIn? name entries).getD .null)) fault ↔
      (∃ value, NoMapping entries name value ∧ fault = noSection value) ∨
        ∃ raw, Value.fieldIn? name entries = some (.map raw) ∧ leak raw := by
  constructor
  · intro h
    cases hvalue : Value.fieldIn? name entries with
    | none =>
      rw [hvalue, Option.getD_none, hother .null nofun] at h
      cases h.1
    | some value =>
      rw [hvalue, Option.getD_some] at h
      by_cases hfound : ∃ raw, value = .map raw
      · obtain ⟨raw, rfl⟩ := hfound
        exact .inr ⟨raw, rfl, (hmap raw).mp h⟩
      · have hvalueOther : ∀ raw, value ≠ .map raw := fun raw heq => hfound ⟨raw, heq⟩
        obtain ⟨hcounts, rfl⟩ := (hother value hvalueOther).mp h
        exact .inl ⟨value, ⟨hvalue, hcounts, hvalueOther⟩, rfl⟩
  · intro h
    obtain ⟨value, ⟨hvalue, hcounts, hvalueOther⟩, rfl⟩ | ⟨raw, hvalue, hleak⟩ := h
    · rw [hvalue, Option.getD_some]
      exact (hother value hvalueOther).mpr ⟨hcounts, rfl⟩
    · rw [hvalue, Option.getD_some]
      exact (hmap raw).mpr hleak

end AuthReading

end Rehearsal
