import Rehearsal.Proofs.Value.Tree
import Rehearsal.Step.Result

/-! What a report holds of a value: a tree of null, truth values, numbers and texts, which a report
holds as it is. -/

namespace Rehearsal.Value

inductive PlainLeaf : Value → Prop
  | null : PlainLeaf .null
  | bool (b : Bool) : PlainLeaf (.bool b)
  | int (n : Int) : PlainLeaf (.int n)
  | float (x : Binary64) : PlainLeaf (.float x)
  | text (s : String) : PlainLeaf (.text s)

variable {v : Value} {items : List Value} {entries : List (Value × Value)}
  {fields : List (String × Value)}

theorem plainItems_eq_map (items : List Value) : plainItems items = items.map plain := by
  induction items with
  | nil => rfl
  | cons item rest ih => rw [plainItems, ih, List.map_cons]

/-! Entries of a mapping, under the texts of their keys. -/

theorem lookup?_text_eq_none {name : String} :
    lookup? (fields.map fun (name, value) => (.text name, value)) (.text name) = none ↔
      name ∉ fields.map (·.1) := by
  have hother : ∀ field : String × Value,
      ¬(Value.text field.1).same (.text name) = true ↔ field.1 ≠ name := by
    intro field
    rw [ne_comm]
    simp [same, text?]
  rw [lookup?, Option.map_eq_none_iff, List.find?_eq_none, List.forall_mem_map, List.mem_map,
    not_exists]
  exact forall_congr' fun field => by rw [hother, not_and]

theorem filter_text (name : String) :
    (fields.map fun (name, value) => (Value.text name, value)).filter
        (fun entry => !(entry.1.same (.text name))) =
      (fields.filter (fun field => !(field.1 == name))).map
        fun (name, value) => (.text name, value) := by
  rw [List.filter_map]
  congr 1
  refine List.filter_congr fun field _ => ?_
  simp [same, text?, Bool.beq_comm]

theorem mem_of_lookup? {key : Value} (h : lookup? entries key = some v) :
    ∃ entry ∈ entries, entry.2 = v := by
  obtain ⟨entry, hfind, rfl⟩ := Option.map_eq_some_iff.mp h
  exact ⟨entry, List.mem_of_find?_eq_some hfind, rfl⟩

theorem plainEntries_eq_fields (entries : List (Value × Value)) :
    ∃ fields : List (String × Value), (fields.map (·.1)).Nodup ∧
      plainEntries entries = (fields.map fun (name, value) => (.text name, value)) ∧
      ∀ field ∈ fields, ∃ entry ∈ entries, field.2 = entry.2.plain := by
  induction entries with
  | nil => exact ⟨[], List.nodup_nil, rfl, fun _ h => nomatch h⟩
  | cons entry rest ih =>
    obtain ⟨key, value⟩ := entry
    obtain ⟨fields, hd, hrest, hfrom⟩ := ih
    have hlater : ∀ field ∈ fields, ∃ entry ∈ (key, value) :: rest, field.2 = entry.2.plain := by
      intro field hfield
      obtain ⟨entry, hentry, heq⟩ := hfrom field hfield
      exact ⟨entry, List.mem_cons_of_mem _ hentry, heq⟩
    -- of two entries under one text the first keeps its place and the last its value
    cases hlook : lookup? (plainEntries rest) (.text key.display) with
    | none =>
      refine ⟨(key.display, value.plain) :: fields, ?_, ?_, ?_⟩
      · rw [hrest, lookup?_text_eq_none] at hlook
        exact List.nodup_cons.mpr ⟨hlook, hd⟩
      · simp only [plainEntries, hlook]
        rw [hrest, List.map_cons]
      · rintro field (_ | ⟨_, hfield⟩)
        · exact ⟨(key, value), List.mem_cons_self, rfl⟩
        · exact hlater field hfield
    | some last =>
      refine ⟨(key.display, last) :: fields.filter (fun field => !(field.1 == key.display)),
        ?_, ?_, ?_⟩
      · refine List.nodup_cons.mpr ⟨fun hmem => ?_, hd.sublist (List.filter_sublist.map _)⟩
        obtain ⟨field, hfield, hname⟩ := List.mem_map.mp hmem
        simp [hname] at hfield
      · simp only [plainEntries, hlook]
        rw [hrest, filter_text, List.map_cons]
      · rintro field (_ | ⟨_, hfield⟩)
        · obtain ⟨entry, hentry, rfl⟩ := mem_of_lookup? hlook
          rw [hrest] at hentry
          obtain ⟨found, hfound, rfl⟩ := List.mem_map.mp hentry
          exact hlater found hfound
        · exact hlater field ((List.mem_filter.mp hfield).1)

theorem plainEntries_fields (hd : (fields.map (·.1)).Nodup) :
    plainEntries (fields.map fun (name, value) => (.text name, value)) =
      (fields.map fun field => (field.1, field.2.plain)).map
        fun (name, value) => (.text name, value) := by
  induction fields with
  | nil => rfl
  | cons field rest ih =>
    obtain ⟨name, value⟩ := field
    obtain ⟨hnew, hd⟩ := List.nodup_cons.mp hd
    have hnone : name ∉ (rest.map fun field => (field.1, field.2.plain)).map (·.1) := by
      rwa [List.map_map]
    simp only [List.map_cons, plainEntries, ih hd, display]
    rw [lookup?_text_eq_none.mpr hnone]

theorem plain_ofFields (hd : (fields.map (·.1)).Nodup) :
    (ofFields fields).plain = ofFields (fields.map fun field => (field.1, field.2.plain)) := by
  rw [ofFields, plain, plainEntries_fields hd, ofFields]

/-! Every value has a plain form, and it is its own. -/

mutual

theorem plain_tree (v : Value) : v.plain.Tree PlainLeaf := by
  cases v with
  | null => exact .leaf rfl .null
  | bool b => exact .leaf rfl (.bool b)
  | int n => exact .leaf rfl (.int n)
  | float x => exact .leaf rfl (.float x)
  | list items =>
    rw [plain, plainItems_eq_map]
    refine .list fun item hitem => ?_
    obtain ⟨v, hv, rfl⟩ := List.mem_map.mp hitem
    exact plainItems_tree items v hv
  | tuple items =>
    rw [plain, plainItems_eq_map]
    refine .list fun item hitem => ?_
    obtain ⟨v, hv, rfl⟩ := List.mem_map.mp hitem
    exact plainItems_tree items v hv
  | map entries =>
    obtain ⟨fields, hd, hfields, hfrom⟩ := plainEntries_eq_fields entries
    rw [plain, hfields]
    refine .map hd fun field hfield => ?_
    obtain ⟨entry, hentry, heq⟩ := hfrom field hfield
    rw [heq]
    exact plainEntries_tree entries entry hentry
  | _ => exact .leaf rfl (.text _)
termination_by structural v

theorem plainItems_tree (items : List Value) : ∀ item ∈ items, item.plain.Tree PlainLeaf := by
  cases items with
  | nil => nofun
  | cons first rest =>
    rintro item (_ | ⟨_, hitem⟩)
    · exact plain_tree first
    · exact plainItems_tree rest item hitem
termination_by structural items

theorem plainEntries_tree (entries : List (Value × Value)) :
    ∀ entry ∈ entries, entry.2.plain.Tree PlainLeaf := by
  cases entries with
  | nil => nofun
  | cons first rest =>
    obtain ⟨key, value⟩ := first
    rintro entry (_ | ⟨_, hentry⟩)
    · exact plain_tree value
    · exact plainEntries_tree rest entry hentry
termination_by structural entries

end

theorem Tree.plain (h : v.Tree PlainLeaf) : v.plain = v := by
  induction h with
  | leaf hs hl => cases hl <;> rfl
  | @list items _ ih =>
    rw [Value.plain, plainItems_eq_map, List.map_congr_left ih, List.map_id']
  | @map fields hd _ ih =>
    have hsame : ∀ field ∈ fields, (field.1, field.2.plain) = field := by
      intro field hfield
      rw [ih field hfield]
    rw [plain_ofFields hd, List.map_congr_left hsame, List.map_id']

theorem plain_plain (v : Value) : v.plain.plain = v.plain := (plain_tree v).plain

end Rehearsal.Value
