import Rehearsal.Proofs.Keyed
import Rehearsal.Proofs.Value.Alike
import Rehearsal.Settings.Reading

/-! One mapping laid over another. What the upper one names by a path of keys it overrides, what it
passes over stays, and laying it over the result once more changes nothing. -/

namespace Rehearsal.Value

/-! What is found under a name in a mapping that one entry is laid over. -/

theorem same_text_key (v : Value) (key : String) :
    v.same (.text key) = (v.text? == some key) := by
  cases v <;> simp [same, sameNumber, text?, number?, Bool.beq_comm]

theorem fieldIn?_insert (value : Value) (name key : String) (below : List (Value × Value)) :
    fieldIn? name (insert (.text key) value below) =
      if key = name then some value else fieldIn? name below := by
  induction below with
  | nil => simp [insert, fieldIn?, text?]
  | cons entry rest ih =>
    obtain ⟨other, found⟩ := entry
    rw [insert, same_text_key]
    by_cases hother : other.text? = some key
    · by_cases hname : key = name <;> simp [fieldIn?, hother, hname]
    · by_cases hname : key = name
      · subst hname
        simp [fieldIn?, hother, ih]
      · simp [fieldIn?, hother, ih, hname]

theorem lookup?_text (key : String) (below : List (Value × Value)) :
    lookup? below (.text key) = fieldIn? key below := by
  induction below with
  | nil => rfl
  | cons entry rest ih =>
    obtain ⟨other, found⟩ := entry
    rw [lookup?] at ih ⊢
    rw [List.find?_cons, same_text_key, fieldIn?]
    by_cases hother : (other.text? == some key) = true <;> simp [hother, ih]

theorem fieldIn?_overlaid_one (name key : String) (value : Value) (below : List (Value × Value)) :
    fieldIn? name (overlaidEntries below [(.text key, value)]) =
      if key = name then some (overlaid ((fieldIn? key below).getD .null) value)
      else fieldIn? name below := by
  rw [overlaidEntries, overlaidEntries, fieldIn?_insert, lookup?_text]

/-! Mappings within mappings. -/

def IsLeaf (v : Value) : Prop := ∀ entries, v ≠ .map entries

/-- Whether mappings within a value, whose keys are distinct texts, are nested at most so deep. -/
inductive Nested : Nat → Value → Prop
  | leaf {depth : Nat} {v : Value} : v.IsLeaf → Nested depth v
  | node {depth : Nat} {fields : List (String × Value)} : (fields.map (·.1)).Nodup →
      (∀ field ∈ fields, Nested depth field.2) → Nested (depth + 1) (ofFields fields)

/-- What a path of keys leads to. -/
def under? : Value → List String → Option Value
  | v, [] => some v
  | .map entries, name :: rest => (fieldIn? name entries).bind (under? · rest)
  | _, _ :: _ => none

variable {depth : Nat} {v base upper : Value} {below entries : List (Value × Value)}
  {fields : List (String × Value)} {name : String} {path : List String}

theorem fieldIn?_named (name : String) (fields : List (String × Value)) :
    fieldIn? name (fields.map fun (name, value) => (.text name, value)) =
      Keyed.get? fields name := by
  induction fields with
  | nil => rfl
  | cons field rest ih =>
    obtain ⟨other, value⟩ := field
    simp only [List.map_cons, fieldIn?, Keyed.get?, ih, text?]
    by_cases h : other = name <;> simp [h]

theorem exists_entries (h : ¬v.IsLeaf) : ∃ entries, v = .map entries := by
  simpa [IsLeaf] using h

theorem overlaid_leaf (base : Value) (h : upper.IsLeaf) : overlaid base upper = upper := by
  rw [overlaid]
  exact h

theorem overlaid_above (h : base.IsLeaf) (upper : Value) : overlaid base upper = upper := by
  by_cases hupper : upper.IsLeaf
  · exact overlaid_leaf base hupper
  · obtain ⟨entries, rfl⟩ := exists_entries hupper
    rw [overlaid]
    exact h

theorem overlaid_map (below entries : List (Value × Value)) :
    overlaid (.map below) (.map entries) = .map (overlaidEntries below entries) := by
  rw [overlaid]

theorem isLeaf_null : IsLeaf .null := by rintro _ ⟨⟩

theorem isLeaf_text (text : String) : IsLeaf (.text text) := by rintro _ ⟨⟩

theorem overlaidEntries_cons (below : List (Value × Value)) (name : String) (v : Value)
    (rest : List (Value × Value)) :
    overlaidEntries below ((.text name, v) :: rest) =
      overlaidEntries (insert (.text name) (overlaid ((fieldIn? name below).getD .null) v) below)
        rest := by
  rw [overlaidEntries, lookup?_text]

theorem insert_named (name : String) (v : Value) (fields : List (String × Value)) :
    insert (.text name) v (fields.map fun (name, value) => (.text name, value)) =
      (Keyed.put fields name v).map fun (name, value) => (.text name, value) := by
  induction fields with
  | nil => rfl
  | cons field rest ih =>
    obtain ⟨other, found⟩ := field
    rw [List.map_cons, insert, same_text_key, Keyed.put]
    by_cases h : other = name <;> simp [text?, h, ih]

theorem overlaid_ofFields_nil (fields : List (String × Value)) :
    overlaid (.ofFields fields) (.ofFields []) = .ofFields fields := by
  rw [ofFields, ofFields, overlaid_map, List.map_nil, overlaidEntries]

theorem overlaid_ofFields_cons (fields : List (String × Value)) (name : String) (v : Value)
    (rest : List (String × Value)) :
    overlaid (.ofFields fields) (.ofFields ((name, v) :: rest)) =
      overlaid (.ofFields (Keyed.put fields name (overlaid ((Keyed.get? fields name).getD .null) v)))
        (.ofFields rest) := by
  simp only [ofFields, overlaid_map, List.map_cons, overlaidEntries_cons, fieldIn?_named,
    insert_named]

/-- Under each name stands what the upper mapping has there, laid over what was there. -/
theorem fieldIn?_overlaidEntries (hd : (fields.map (·.1)).Nodup) (name : String)
    (below : List (Value × Value)) :
    let entries := fields.map fun (name, value) => (Value.text name, value)
    fieldIn? name (overlaidEntries below entries) =
      ((fieldIn? name entries).map fun v => overlaid ((fieldIn? name below).getD .null) v).or
        (fieldIn? name below) := by
  intro entries
  simp only [entries, fieldIn?_named]
  induction fields generalizing below with
  | nil => rfl
  | cons field rest ih =>
    obtain ⟨key, v⟩ := field
    obtain ⟨hkey, hrest⟩ := List.nodup_cons.mp hd
    rw [List.map_cons, overlaidEntries_cons, ih hrest, fieldIn?_insert]
    by_cases hname : key = name
    · subst hname
      simp [Keyed.get?, Keyed.get?_eq_none hkey]
    · simp [Keyed.get?, hname]

theorem Nested.of_ofFields (h : (ofFields fields).Nested depth) :
    ∃ less, depth = less + 1 ∧ (fields.map (·.1)).Nodup ∧
      ∀ field ∈ fields, Nested less field.2 := by
  generalize hv : ofFields fields = v at h
  cases h with
  | leaf hleaf => exact absurd hv.symm (hleaf _)
  | node hd hfields =>
    cases ofFields_injective hv
    exact ⟨_, rfl, hd, hfields⟩

theorem Nested.exists_fields (h : (Value.map entries).Nested depth) :
    ∃ fields : List (String × Value), (fields.map (·.1)).Nodup ∧
      entries = fields.map fun (name, value) => (.text name, value) := by
  generalize hv : Value.map entries = v at h
  cases h with
  | leaf hleaf => exact absurd hv.symm (hleaf _)
  | node hd _ => exact ⟨_, hd, Value.map.inj hv⟩

theorem Nested.child (h : (Value.map entries).Nested depth)
    (hname : fieldIn? name entries = some v) : ∃ depth, v.Nested depth := by
  obtain ⟨fields, hd, rfl⟩ := h.exists_fields
  obtain ⟨less, -, -, hfields⟩ := Nested.of_ofFields h
  exact ⟨less, hfields _ ((fieldIn?_eq_some hd).mp hname)⟩

theorem under?_overlaid_found (h : (Value.map entries).Nested depth)
    (hname : fieldIn? name entries = some v) (rest : List String) :
    (overlaid (.map below) (.map entries)).under? (name :: rest) =
      (overlaid ((fieldIn? name below).getD .null) v).under? rest := by
  obtain ⟨fields, hd, rfl⟩ := h.exists_fields
  rw [overlaid_map, under?, fieldIn?_overlaidEntries hd, hname, Option.map_some, Option.some_or,
    Option.bind_some]

theorem under?_overlaid_missing (h : (Value.map entries).Nested depth)
    (hname : fieldIn? name entries = none) (rest : List String) :
    (overlaid (.map below) (.map entries)).under? (name :: rest) =
      (Value.map below).under? (name :: rest) := by
  obtain ⟨fields, hd, rfl⟩ := h.exists_fields
  rw [overlaid_map, under?, fieldIn?_overlaidEntries hd, hname, Option.map_none, Option.none_or,
    under?]

theorem exists_field_of_under? {rest : List String} (h : upper.under? (name :: rest) = some v) :
    ∃ entries child, upper = .map entries ∧ fieldIn? name entries = some child ∧
      child.under? rest = some v := by
  cases upper with
  | map entries =>
    obtain ⟨child, hchild, hrest⟩ := Option.bind_eq_some_iff.mp h
    exact ⟨entries, child, rfl, hchild, hrest⟩
  | _ => cases h

/-- What the upper value has at a path that leads to no mapping is there in the result. -/
theorem under?_overlaid_of_leaf (h : upper.Nested depth) (hpath : upper.under? path = some v)
    (hleaf : v.IsLeaf) (base : Value) : (overlaid base upper).under? path = some v := by
  induction path generalizing depth base upper with
  | nil =>
    cases hpath
    rw [overlaid_leaf base hleaf, under?]
  | cons name rest ih =>
    obtain ⟨entries, child, rfl, hchild, hrest⟩ := exists_field_of_under? hpath
    obtain ⟨depth', hnested⟩ := h.child hchild
    by_cases hbase : base.IsLeaf
    · rw [overlaid_above hbase, hpath]
    · obtain ⟨below, rfl⟩ := exists_entries hbase
      rw [under?_overlaid_found h hchild]
      exact ih hnested hrest _

/-- Where a path leaves the upper mapping, what was below stays. -/
theorem under?_overlaid_of_missing {key : String} (h : upper.Nested depth)
    (hbase : base.under? path = some (.map below)) (hupper : upper.under? path = some (.map entries))
    (hmissing : fieldIn? key entries = none) (rest : List String) :
    (overlaid base upper).under? (path ++ key :: rest) = base.under? (path ++ key :: rest) := by
  induction path generalizing depth base upper with
  | nil =>
    cases hbase
    cases hupper
    exact under?_overlaid_missing h hmissing rest
  | cons name path ih =>
    obtain ⟨lower, child, rfl, hchild, hpath⟩ := exists_field_of_under? hbase
    obtain ⟨higher, above, rfl, hover, hpath'⟩ := exists_field_of_under? hupper
    obtain ⟨depth', hnested⟩ := h.child hover
    rw [List.cons_append, under?_overlaid_found h hover, hchild, Option.getD_some,
      ih hnested hpath hpath', under?, hchild, Option.bind_some]

/-! Laying the same value over a result again. -/

theorem insert_found (h : fieldIn? name below = some v) : insert (.text name) v below = below := by
  induction below with
  | nil => cases h
  | cons entry rest ih =>
    obtain ⟨key, found⟩ := entry
    rw [fieldIn?] at h
    rw [insert, same_text_key]
    split at h
    · cases h
      rw [if_pos ‹_›]
    · rw [if_neg ‹_›, ih h]

theorem overlaidEntries_found
    (h : ∀ field ∈ fields, ∃ found, fieldIn? field.1 below = some found ∧
      overlaid found field.2 = found) :
    overlaidEntries below (fields.map fun (name, value) => (.text name, value)) = below := by
  induction fields with
  | nil => rw [List.map_nil, overlaidEntries]
  | cons field rest ih =>
    obtain ⟨found, hfound, hsame⟩ := h field List.mem_cons_self
    rw [List.map_cons, overlaidEntries_cons, hfound, Option.getD_some, hsame, insert_found hfound]
    exact ih fun field hfield => h field (List.mem_cons_of_mem _ hfield)

theorem overlaid_again (h : upper.Nested depth) (base : Value) :
    overlaid (overlaid base upper) upper = overlaid base upper := by
  induction h generalizing base with
  | leaf hleaf => rw [overlaid_leaf _ hleaf, overlaid_leaf _ hleaf]
  | @node depth fields hd hfields ih =>
    by_cases hbase : base.IsLeaf
    · rw [overlaid_above hbase, ofFields, overlaid_map, overlaidEntries_found]
      intro field hfield
      refine ⟨field.2, (fieldIn?_eq_some hd).mpr hfield, ?_⟩
      have hsame := ih field hfield .null
      rwa [overlaid_above isLeaf_null] at hsame
    · obtain ⟨below, rfl⟩ := exists_entries hbase
      rw [ofFields, overlaid_map, overlaid_map, overlaidEntries_found]
      intro field hfield
      refine ⟨_, ?_, ih field hfield ((fieldIn? field.1 below).getD .null)⟩
      rw [fieldIn?_overlaidEntries hd, (fieldIn?_eq_some hd).mpr hfield, Option.map_some,
        Option.some_or]

end Rehearsal.Value
