import Rehearsal.Proofs.Auth.Reading
import Rehearsal.Proofs.Value.Float
import Rehearsal.Proofs.Value.Overlay
import Rehearsal.Proofs.Value.Sorting
import Rehearsal.Settings.Reading

/-! What escapes the reading of settings besides the failures that are told as a misconfiguration.
The tree of settings may hold anything. A value of a wrong type and a text that says nothing are told
as invalid settings; what is neither escapes, and so does what fails where nothing is told. -/

namespace Rehearsal.Settings

open AuthReading (orEmpty LongAt NoMapping noEntries noSection)

/-- Whether a failure in the sections is told as one of invalid settings. -/
def Told (fault : Fault) : Prop := (fault.kind.isA .wrongType || fault.kind.isA .badValue) = true

/-- Whether a name can be looked for in a value that should hold the environments. -/
def searchable : Value → Bool
  | .map _ => true
  | .text _ => true
  | .list _ => true
  | _ => false

/-- Whether a value that should hold the environments has a name in it. -/
def knows (name : String) : Value → Bool
  | .map entries => (Value.fieldIn? name entries).isSome
  | .text s => Text.holds s name
  | .list items => items.any fun item => item.same (.text name)
  | _ => false

/-- The names in a value that should hold the environments. -/
def namesIn : Value → List Value
  | .map entries => entries.map (·.1)
  | .text s => s.toList.map fun c => .text (String.ofList [c])
  | .list items => items
  | _ => []

/-- What escapes the choice of an environment from what should hold the environments. -/
inductive EnvironmentLeak (name : String) : Value → Fault → Prop
  | scalar {value : Value} : searchable value = false → EnvironmentLeak name value
      (.wrongType ("argument of type '" ++ value.qualifiedTypeName ++ "' is not iterable"))
  | inText {s : String} : Text.holds s name = true → EnvironmentLeak name (.text s)
      (.wrongType "string indices must be integers, not 'str'")
  | inList {items : List Value} : knows name (.list items) = true →
      EnvironmentLeak name (.list items)
        (.wrongType "list indices must be integers or slices, not str")
  | unordered {value : Value} {fault : Fault} : searchable value = true →
      knows name value = false → Value.sortBy id (namesIn value) = .error fault →
      EnvironmentLeak name value fault
  | longName {value : Value} {names : List Value} : searchable value = true →
      knows name value = false → Value.sortBy id (namesIn value) = .ok names →
      (Value.list names).holdsLong = true → EnvironmentLeak name value Json.tooLong
  | notMapping {entries : Section} {upper : Value} :
      Value.fieldIn? name entries = some upper → (∀ given, upper ≠ .map given) →
      EnvironmentLeak name (.map entries) (noEntries upper)

/-- What escapes the reading of the HTTP section, after what is read before it. -/
inductive HttpLeak (entries : Section) : Fault → Prop
  | timeout {baseUrl : String} {n : Int} : textOf entries "base_url" "" = .ok baseUrl →
      Value.fieldIn? "timeout" entries = some (.int n) → Binary64.tooLarge ≤ n.natAbs →
      HttpLeak entries (.raised .overflow "int too large to convert to float")
  | headers {baseUrl : String} {seconds : Binary64} {value : Value} :
      textOf entries "base_url" "" = .ok baseUrl → timeoutOf entries = .ok seconds →
      NoMapping entries "default_headers" value → HttpLeak entries (noEntries value)
  | noSection {baseUrl : String} {seconds : Binary64} {headers : List (String × String)}
      {on : Bool} {value : Value} :
      textOf entries "base_url" "" = .ok baseUrl → timeoutOf entries = .ok seconds →
      headersOf entries = .ok headers → flagOf entries "verify_tls" true = .ok on →
      NoMapping entries "authentication" value → HttpLeak entries (noSection value)
  | parameters {baseUrl : String} {seconds : Binary64} {headers : List (String × String)}
      {on : Bool} {raw : Section} {fault : Fault} :
      textOf entries "base_url" "" = .ok baseUrl → timeoutOf entries = .ok seconds →
      headersOf entries = .ok headers → flagOf entries "verify_tls" true = .ok on →
      Value.fieldIn? "authentication" entries = some (.map raw) →
      AuthReading.HttpLeak raw fault → fault.kind = .missingAttribute → HttpLeak entries fault

/-- What escapes the reading of the broker section, after what is read before it. -/
inductive BrokerLeak (entries : Section) : Fault → Prop
  | noSection {servers group client : String} {value : Value} :
      textOf entries "bootstrap_servers" "localhost:9092" = .ok servers →
      textOf entries "group_id" "assured-consumer" = .ok group →
      textOf entries "client_id_prefix" "assured" = .ok client →
      NoMapping entries "authentication" value → BrokerLeak entries (noSection value)

/-- What escapes the reading of the sections, which are mappings. -/
inductive SectionsLeak (raw : Section) : Fault → Prop
  | http {http broker report : Section} {fault : Fault} : sectionOf raw "http" = .ok http →
      sectionOf raw "broker" = .ok broker → sectionOf raw "export" = .ok report →
      HttpLeak http fault → SectionsLeak raw fault
  | broker {http broker report : Section} {made : HttpSettings} {fault : Fault} :
      sectionOf raw "http" = .ok http → sectionOf raw "broker" = .ok broker →
      sectionOf raw "export" = .ok report → httpOf http = .ok made →
      BrokerLeak broker fault → SectionsLeak raw fault
  | console {http broker report : Section} {made : HttpSettings} {brokered : BrokerSettings} :
      sectionOf raw "http" = .ok http → sectionOf raw "broker" = .ok broker →
      sectionOf raw "export" = .ok report → httpOf http = .ok made →
      brokerOf broker = .ok brokered → LongAt report "console" → SectionsLeak raw Json.tooLong

/-- What escapes the reading of settings from a tree. -/
inductive Leak (raw : Value) (environment : Option String) : Fault → Prop
  | environment {entries : Section} {name : String} {fault : Fault} :
      raw = .map entries → environment = some name → name ≠ "" →
      EnvironmentLeak name (orEmpty (Value.fieldIn? "environments" entries) (.map [])) fault →
      Leak raw environment fault
  | sections {merged : Section} {fault : Fault} : rooted raw environment = .ok merged →
      SectionsLeak merged fault → Leak raw environment fault

variable {α : Type} {x : Except Fault α} {entries raw : Section} {name default : String}
  {value : Value} {fault : Fault}

theorem leaks_mapError : Leaks (x.mapError invalid) fault ↔ Leaks x fault ∧ ¬Told fault := by
  cases x with
  | ok a => simp [Except.mapError]
  | error other =>
    change Leaks (.error (invalid other)) fault ↔ _
    by_cases htold : Told other
    · have hinvalid : invalid other = .configuration (.invalidSettings other.message) :=
        if_pos htold
      rw [hinvalid]
      refine iff_of_false (not_leaks_configuration _) fun h => ?_
      cases h.1.1
      exact h.2 htold
    · have hinvalid : invalid other = other := if_neg htold
      rw [hinvalid]
      refine (and_iff_left_of_imp fun h => ?_).symm
      cases h.1
      exact htold

theorem told_tooLong : Told Json.tooLong := rfl

theorem told_of_kind (h : fault.kind = .badValue ∨ fault.kind = .wrongType) : Told fault := by
  cases h with
  | inl h => rw [Told, h]; rfl
  | inr h => rw [Told, h]; rfl

theorem leaks_textOf (h : Leaks (textOf entries name default) fault) : Told fault := by
  unfold textOf at h
  split at h
  · split at h
    · exact (leaks_displayChecked.mp h).2 ▸ told_tooLong
    · exact absurd h (not_leaks_ok _)
  · exact absurd h (not_leaks_ok _)

theorem leaks_flagOf {default : Bool} : Leaks (flagOf entries name default) fault ↔
    LongAt entries name ∧ fault = Json.tooLong := by
  rw [flagOf, LongAt]
  cases Value.fieldIn? name entries with
  | none => simp
  | some value =>
    simp only [Option.some.injEq, exists_eq_left']
    unfold isOn
    split
    · simp [Value.holdsLong]
    · rw [leaks_map, leaks_displayChecked]

theorem leaks_timeoutOf : (Leaks (timeoutOf entries) fault ∧ ¬Told fault) ↔
    ∃ n, Value.fieldIn? "timeout" entries = some (.int n) ∧ Binary64.tooLarge ≤ n.natAbs ∧
      fault = .raised .overflow "int too large to convert to float" := by
  rw [timeoutOf]
  cases Value.fieldIn? "timeout" entries with
  | none => simp [Value.toFloat]
  | some value =>
    simp only [Option.getD_some, Option.some.injEq]
    constructor
    · intro h
      obtain ⟨⟨herror, -⟩, htold⟩ := h
      obtain hkind | hkind | hlarge := Value.toFloat_error herror
      · exact absurd (told_of_kind (.inr hkind)) htold
      · exact absurd (told_of_kind (.inl hkind)) htold
      · exact hlarge
    · intro h
      obtain ⟨n, rfl, hlarge, rfl⟩ := h
      obtain ⟨hsmall, -⟩ | ⟨-, herror⟩ := Binary64.ofIntChecked_cases n
      · exact absurd hlarge (Nat.not_le.mpr hsmall)
      · exact ⟨⟨herror, by decide⟩, Bool.false_ne_true⟩

theorem leaks_headersOf : (Leaks (headersOf entries) fault ∧ ¬Told fault) ↔
    ∃ value, NoMapping entries "default_headers" value ∧ fault = noEntries value := by
  rw [headersOf, leaks_bind, AuthReading.leaks_entriesUnder]
  constructor
  · intro h
    obtain ⟨hleak | ⟨given, -, hleak⟩, htold⟩ := h
    · exact hleak
    · split at hleak
      · exact absurd (leaks_tooLong.mp hleak ▸ told_tooLong) htold
      · exact absurd hleak (not_leaks_pure _)
  · intro h
    refine ⟨.inl h, ?_⟩
    obtain ⟨value, -, rfl⟩ := h
    exact Bool.false_ne_true

theorem leaks_http : (Leaks (AuthReading.http ((Value.fieldIn? name entries).getD .null)) fault ∧
    ¬Told fault) ↔ (∃ value, NoMapping entries name value ∧ fault = noSection value) ∨
      ∃ raw, Value.fieldIn? name entries = some (.map raw) ∧ AuthReading.HttpLeak raw fault ∧
        fault.kind = .missingAttribute := by
  rw [AuthReading.leaks_under (fun _ => AuthReading.leaks_http)
    (fun _ => AuthReading.leaks_http_other), or_and_right]
  refine or_congr ?_ ?_
  · refine and_iff_left_of_imp fun h => ?_
    obtain ⟨value, -, rfl⟩ := h
    exact Bool.false_ne_true
  · constructor
    · intro h
      obtain ⟨⟨raw, hraw, hleak⟩, htold⟩ := h
      obtain hkind | hkind | hkind := hleak.kind
      · exact absurd (told_of_kind (.inl hkind)) htold
      · exact absurd (told_of_kind (.inr hkind)) htold
      · exact ⟨raw, hraw, hleak, hkind⟩
    · intro h
      obtain ⟨raw, hraw, hleak, hkind⟩ := h
      exact ⟨⟨raw, hraw, hleak⟩, by rw [Told, hkind]; exact Bool.false_ne_true⟩

theorem leaks_broker : (Leaks (AuthReading.broker ((Value.fieldIn? name entries).getD .null)) fault ∧
    ¬Told fault) ↔ ∃ value, NoMapping entries name value ∧ fault = noSection value := by
  rw [AuthReading.leaks_under (fun _ => AuthReading.leaks_broker)
    (fun _ => AuthReading.leaks_broker_other)]
  constructor
  · intro h
    obtain ⟨hother | ⟨raw, -, -, rfl⟩, htold⟩ := h
    · exact hother
    · exact absurd told_tooLong htold
  · intro h
    refine ⟨.inl h, ?_⟩
    obtain ⟨value, -, rfl⟩ := h
    exact Bool.false_ne_true

theorem leaks_httpOf : (Leaks (httpOf entries) fault ∧ ¬Told fault) ↔ HttpLeak entries fault := by
  simp only [httpOf, leaks_bind, not_leaks_pure, and_false, exists_false, or_false]
  constructor
  · -- each reading may fail in a way that is told; what is left is what escapes
    intro h
    obtain ⟨h, htold⟩ := h
    obtain h | ⟨baseUrl, hbase, h⟩ := h
    · exact absurd (leaks_textOf h) htold
    obtain h | ⟨seconds, hseconds, h⟩ := h
    · obtain ⟨n, hn, hlarge, rfl⟩ := leaks_timeoutOf.mp ⟨h, htold⟩
      exact .timeout hbase hn hlarge
    obtain h | ⟨headers, hheaders, h⟩ := h
    · obtain ⟨value, hother, rfl⟩ := leaks_headersOf.mp ⟨h, htold⟩
      exact .headers hbase hseconds hother
    obtain h | ⟨on, hon, h⟩ := h
    · exact absurd ((leaks_flagOf.mp h).2 ▸ told_tooLong) htold
    obtain ⟨value, hother, rfl⟩ | ⟨raw, hraw, hleak, hkind⟩ := leaks_http.mp ⟨h, htold⟩
    · exact .noSection hbase hseconds hheaders hon hother
    · exact .parameters hbase hseconds hheaders hon hraw hleak hkind
  · intro h
    cases h with
    | timeout hbase hn hlarge =>
      obtain ⟨h, htold⟩ := leaks_timeoutOf.mpr ⟨_, hn, hlarge, rfl⟩
      exact ⟨.inr ⟨_, hbase, .inl h⟩, htold⟩
    | headers hbase hseconds hother =>
      obtain ⟨h, htold⟩ := leaks_headersOf.mpr ⟨_, hother, rfl⟩
      exact ⟨.inr ⟨_, hbase, .inr ⟨_, hseconds, .inl h⟩⟩, htold⟩
    | noSection hbase hseconds hheaders hon hother =>
      obtain ⟨h, htold⟩ := leaks_http.mpr (.inl ⟨_, hother, rfl⟩)
      exact ⟨.inr ⟨_, hbase, .inr ⟨_, hseconds, .inr ⟨_, hheaders, .inr ⟨_, hon, h⟩⟩⟩⟩, htold⟩
    | parameters hbase hseconds hheaders hon hraw hleak hkind =>
      obtain ⟨h, htold⟩ := leaks_http.mpr (.inr ⟨_, hraw, hleak, hkind⟩)
      exact ⟨.inr ⟨_, hbase, .inr ⟨_, hseconds, .inr ⟨_, hheaders, .inr ⟨_, hon, h⟩⟩⟩⟩, htold⟩

theorem leaks_brokerOf : (Leaks (brokerOf entries) fault ∧ ¬Told fault) ↔
    BrokerLeak entries fault := by
  simp only [brokerOf, leaks_bind, not_leaks_pure, and_false, exists_false, or_false]
  constructor
  · intro h
    obtain ⟨h, htold⟩ := h
    obtain h | ⟨servers, hservers, h⟩ := h
    · exact absurd (leaks_textOf h) htold
    obtain h | ⟨group, hgroup, h⟩ := h
    · exact absurd (leaks_textOf h) htold
    obtain h | ⟨client, hclient, h⟩ := h
    · exact absurd (leaks_textOf h) htold
    obtain ⟨value, hother, rfl⟩ := leaks_broker.mp ⟨h, htold⟩
    exact .noSection hservers hgroup hclient hother
  · intro h
    cases h with
    | noSection hservers hgroup hclient hother =>
      obtain ⟨h, htold⟩ := leaks_broker.mpr ⟨_, hother, rfl⟩
      exact ⟨.inr ⟨_, hservers, .inr ⟨_, hgroup, .inr ⟨_, hclient, h⟩⟩⟩, htold⟩

theorem not_leaks_sectionOf : ¬Leaks (sectionOf raw name) fault := by
  unfold sectionOf
  split
  · exact not_leaks_ok _
  · split
    · exact not_leaks_configuration _
    · exact not_leaks_ok _

theorem leaks_reportOf : Leaks (reportOf entries) fault ↔
    LongAt entries "console" ∧ fault = Json.tooLong := by
  rw [reportOf, leaks_map, leaks_flagOf]

theorem leaks_ofSections {environment : Option String} :
    Leaks (ofSections raw environment) fault ↔ SectionsLeak raw fault := by
  simp only [ofSections, leaks_bind, not_leaks_sectionOf, leaks_mapError, leaks_reportOf,
    not_leaks_pure, and_false, exists_false, or_false, false_or, mapError_eq_ok, bind_eq_ok]
  constructor
  · intro h
    obtain ⟨http, hhttp, broker, hbroker, report, hreport, h⟩ := h
    obtain ⟨hleak | ⟨made, hmade, hleak⟩, htold⟩ | ⟨both, hboth, hlong, rfl⟩ := h
    · exact .http hhttp hbroker hreport (leaks_httpOf.mp ⟨hleak, htold⟩)
    · exact .broker hhttp hbroker hreport hmade (leaks_brokerOf.mp ⟨hleak, htold⟩)
    · obtain ⟨made, hmade, brokered, hbrokered, -⟩ := hboth
      exact .console hhttp hbroker hreport hmade hbrokered hlong
  · intro h
    cases h with
    | http hhttp hbroker hreport hleak =>
      obtain ⟨hleak, htold⟩ := leaks_httpOf.mpr hleak
      exact ⟨_, hhttp, _, hbroker, _, hreport, .inl ⟨.inl hleak, htold⟩⟩
    | broker hhttp hbroker hreport hmade hleak =>
      obtain ⟨hleak, htold⟩ := leaks_brokerOf.mpr hleak
      exact ⟨_, hhttp, _, hbroker, _, hreport, .inl ⟨.inr ⟨_, hmade, hleak⟩, htold⟩⟩
    | console hhttp hbroker hreport hmade hbrokered hlong =>
      exact ⟨_, hhttp, _, hbroker, _, hreport,
        .inr ⟨_, ⟨_, hmade, _, hbrokered, rfl⟩, hlong, rfl⟩⟩

theorem holds_char {s : String} {c : Char} (h : c ∈ s.toList) :
    Text.holds s (String.ofList [c]) = true := by
  rw [Text.holds, String.toList_ofList]
  generalize s.toList = cs at h
  induction cs with
  | nil => cases h
  | cons first rest ih =>
    rw [Text.occursIn, Bool.or_eq_true]
    cases h with
    | head => exact .inl (by simp [List.isPrefixOf])
    | tail _ h => exact .inr (ih h)

theorem fieldIn?_eq_none {entries : Section} (h : ∀ entry ∈ entries, entry.1.text? ≠ some name) :
    Value.fieldIn? name entries = none := by
  induction entries with
  | nil => rfl
  | cons entry rest ih =>
    obtain ⟨key, value⟩ := entry
    have hkey : (key.text? == some name) = false := beq_false_of_ne (h _ List.mem_cons_self)
    rw [Value.fieldIn?, hkey]
    exact ih fun entry hentry => h entry (List.mem_cons_of_mem _ hentry)

/-- What can be looked into for a name that it does not have has no entry under it. -/
theorem knownIn_of_unknown (hsearch : searchable value = true) (hknows : knows name value = false) :
    ∃ known, knownIn value name = .ok known ∧ Value.fieldIn? name known = none ∧
      known.map (·.1) = namesIn value := by
  cases value with
  | map entries =>
    refine ⟨entries, rfl, ?_, rfl⟩
    rwa [knows, Option.isSome_eq_false_iff, Option.isNone_iff_eq_none] at hknows
  | text s =>
    refine ⟨_, if_neg (by rw [← knows, hknows]; decide), fieldIn?_eq_none ?_, by simp [namesIn]⟩
    intro entry hentry hname
    obtain ⟨c, hc, rfl⟩ := List.mem_map.mp hentry
    cases hname
    exact Bool.false_ne_true (hknows.symm.trans (holds_char hc))
  | list items =>
    refine ⟨_, if_neg (by rw [← knows, hknows]; decide), fieldIn?_eq_none ?_, ?_⟩
    · intro entry hentry hname
      obtain ⟨item, hitem, rfl⟩ := List.mem_map.mp hentry
      have hsame : item.same (.text name) = true := by
        rw [Value.same_text_key, hname, beq_self_eq_true]
      exact Bool.false_ne_true
        (hknows.symm.trans (List.any_eq_true.mpr ⟨item, hitem, hsame⟩))
    · rw [List.map_map]
      exact List.map_id items
  | _ => cases hsearch

theorem leaks_sortBy {xs : List Value} :
    Leaks (Value.sortBy id xs) fault ↔ Value.sortBy id xs = .error fault := by
  refine and_iff_left_of_imp fun h => ?_
  obtain ⟨v, w, hbelow⟩ := Value.sortBy_error h
  cases Value.isBelow_error_kind hbelow with
  | inl hkind => rw [hkind]; decide
  | inr hkind => rw [hkind]; decide

theorem knownIn_scalar (hsearch : searchable value = false) : knownIn value name =
    .error (.wrongType ("argument of type '" ++ value.qualifiedTypeName ++ "' is not iterable")) := by
  cases value <;> first | rfl | cases hsearch

section Within

variable (henvironments : orEmpty (Value.fieldIn? "environments" raw) (.map []) = value)
include henvironments

theorem leaks_within_error {text : String} (hknown : knownIn value name = .error (.wrongType text)) :
    Leaks (within raw name) fault ↔ fault = .wrongType text := by
  rw [within, henvironments, hknown, error_bind, Fault.wrongType, leaks_raised (by decide)]

theorem leaks_within_map {entries : Section} {upper : Value} (hvalue : value = .map entries)
    (hupper : Value.fieldIn? name entries = some upper) : Leaks (within raw name) fault ↔
      (∀ given, upper ≠ .map given) ∧ fault = noEntries upper := by
  have hknown : knownIn value name = .ok entries := hvalue ▸ rfl
  rw [within, henvironments, hknown, ok_bind]
  simp only [hupper, leaks_bind, AuthReading.leaks_entriesOf, not_leaks_pure, and_false,
    exists_false, or_false]

theorem leaks_within_unknown (hsearch : searchable value = true)
    (hknows : knows name value = false) : Leaks (within raw name) fault ↔
      Value.sortBy id (namesIn value) = .error fault ∨
        ∃ names, Value.sortBy id (namesIn value) = .ok names ∧
          (Value.list names).holdsLong = true ∧ fault = Json.tooLong := by
  obtain ⟨known, hknown, hnone, hnames⟩ := knownIn_of_unknown hsearch hknows
  rw [within, henvironments, hknown, ok_bind]
  simp only [hnone, hnames, leaks_bind, leaks_sortBy, leaks_shownChecked,
    not_leaks_configuration, and_false, exists_false, or_false]

end Within

theorem leaks_within : Leaks (within raw name) fault ↔
    EnvironmentLeak name (orEmpty (Value.fieldIn? "environments" raw) (.map [])) fault := by
  generalize henvironments : orEmpty (Value.fieldIn? "environments" raw) (.map []) = environments
  constructor
  · -- can a name be looked for, is it there, and is there a mapping under it
    intro h
    cases hsearch : searchable environments with
    | false =>
      exact (leaks_within_error henvironments (knownIn_scalar hsearch)).mp h ▸ .scalar hsearch
    | true =>
      cases hknows : knows name environments with
      | false =>
        obtain hsort | ⟨names, hsort, hlong, rfl⟩ :=
          (leaks_within_unknown henvironments hsearch hknows).mp h
        · exact .unordered hsearch hknows hsort
        · exact .longName hsearch hknows hsort hlong
      | true =>
        cases environments with
        | map entries =>
          obtain ⟨upper, hupper⟩ := Option.isSome_iff_exists.mp hknows
          obtain ⟨hother, rfl⟩ := (leaks_within_map henvironments rfl hupper).mp h
          exact .notMapping hupper hother
        | text s =>
          exact (leaks_within_error henvironments (if_pos hknows)).mp h ▸ .inText hknows
        | list items =>
          exact (leaks_within_error henvironments (if_pos hknows)).mp h ▸ .inList hknows
        | _ => cases hsearch
  · intro h
    cases h with
    | scalar hsearch => exact (leaks_within_error henvironments (knownIn_scalar hsearch)).mpr rfl
    | inText hknows => exact (leaks_within_error henvironments (if_pos hknows)).mpr rfl
    | inList hknows => exact (leaks_within_error henvironments (if_pos hknows)).mpr rfl
    | unordered hsearch hknows hsort =>
      exact (leaks_within_unknown henvironments hsearch hknows).mpr (.inl hsort)
    | longName hsearch hknows hsort hlong =>
      exact (leaks_within_unknown henvironments hsearch hknows).mpr
        (.inr ⟨_, hsort, hlong, rfl⟩)
    | notMapping hupper hother =>
      exact (leaks_within_map henvironments rfl hupper).mpr ⟨hother, rfl⟩

theorem leaks_rooted {raw : Value} {environment : Option String} :
    Leaks (rooted raw environment) fault ↔ ∃ entries name, raw = .map entries ∧
      environment = some name ∧ name ≠ "" ∧
      EnvironmentLeak name (orEmpty (Value.fieldIn? "environments" entries) (.map [])) fault := by
  unfold rooted
  split
  · rename_i entries
    cases environment with
    | none => simp
    | some name =>
      by_cases hname : name = ""
      · have hnone : (some name).filter (· != "") = none := by simp [hname]
        rw [hnone]
        simp [hname]
      · have hsome : (some name).filter (· != "") = some name := by simp [hname]
        rw [hsome]
        simp [hname, leaks_within]
  · rename_i hother
    refine iff_of_false (not_leaks_configuration _) fun h => ?_
    obtain ⟨entries, name, hmap, -⟩ := h
    exact hother entries hmap

theorem leaks_ofValue {raw : Value} {environment : Option String} :
    Leaks (ofValue raw environment) fault ↔ Leak raw environment fault := by
  rw [ofValue, leaks_bind, leaks_rooted]
  simp only [leaks_ofSections]
  constructor
  · intro h
    obtain ⟨entries, name, hmap, hnamed, hname, hleak⟩ | ⟨merged, hmerged, hleak⟩ := h
    · exact .environment hmap hnamed hname hleak
    · exact .sections hmerged hleak
  · intro h
    cases h with
    | environment hmap hnamed hname hleak => exact .inl ⟨_, _, hmap, hnamed, hname, hleak⟩
    | sections hmerged hleak => exact .inr ⟨_, hmerged, hleak⟩

/-- What is malformed is told as a misconfiguration but for what escapes: from a tree of settings,
from the mapping of an authentication of requests, and from one of a broker, where only the type can
be too long to be told. -/
theorem malformed_leaks (raw : Value) (environment : Option String) (entries : Section)
    (fault : Fault) :
    (Leaks (ofValue raw environment) fault ↔ Leak raw environment fault) ∧
    (Leaks (AuthReading.http (.map entries)) fault ↔ AuthReading.HttpLeak entries fault) ∧
    (Leaks (AuthReading.broker (.map entries)) fault ↔
      LongAt entries "type" ∧ fault = Json.tooLong) :=
  ⟨leaks_ofValue, AuthReading.leaks_http, AuthReading.leaks_broker⟩

/-- A list in the place of default headers is not told as a misconfiguration. -/
theorem malformed_leaks_headers :
    Leaks (ofValue (.map [(.text "http", .map [(.text "default_headers", .list [.text "a"])])]) none)
      (.raised .missingAttribute "'list' object has no attribute 'items'") :=
  ⟨rfl, by decide⟩

end Rehearsal.Settings
