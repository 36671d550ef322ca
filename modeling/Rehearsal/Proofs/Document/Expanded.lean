import Rehearsal.Proofs.Json.Tree

/-! Documents with records in them. A record counts as the mapping of its fields, and the way of a
path through a document opens the records that it meets, one after the other. Opening all records of
a document beforehand comes to the same: a path finds the expanded form of what it finds otherwise,
and fails with the same fault. -/

namespace Rehearsal

namespace Value

/-- Whether no record stands in a value at any depth, the keys of mappings included. -/
inductive RecordFree : Value → Prop
  | scalar {v : Value} : v.isScalar → RecordFree v
  | list {items : List Value} : (∀ item ∈ items, RecordFree item) → RecordFree (.list items)
  | tuple {items : List Value} : (∀ item ∈ items, RecordFree item) → RecordFree (.tuple items)
  | map {entries : List (Value × Value)} : (∀ entry ∈ entries, RecordFree entry.1) →
      (∀ entry ∈ entries, RecordFree entry.2) → RecordFree (.map entries)

variable {v : Value} {name : String}

/-! Expanding leaves no record behind. -/

mutual

theorem expand_recordFree (v : Value) : v.expand.RecordFree := by
  cases v with
  | list items => exact .list (expandItems_recordFree items)
  | tuple items => exact .tuple (expandItems_recordFree items)
  | map entries =>
    exact .map (fun entry h => (expandEntries_recordFree entries entry h).1)
      fun entry h => (expandEntries_recordFree entries entry h).2
  | record type fields =>
    exact .map (fun entry h => (expandFields_recordFree fields entry h).1)
      fun entry h => (expandFields_recordFree fields entry h).2
  | _ => exact .scalar rfl

theorem expandItems_recordFree (items : List Value) :
    ∀ item ∈ expandItems items, item.RecordFree := by
  cases items with
  | nil => exact List.forall_mem_nil _
  | cons item rest =>
    exact List.forall_mem_cons.mpr ⟨expand_recordFree item, expandItems_recordFree rest⟩

theorem expandEntries_recordFree (entries : List (Value × Value)) :
    ∀ entry ∈ expandEntries entries, entry.1.RecordFree ∧ entry.2.RecordFree := by
  cases entries with
  | nil => exact List.forall_mem_nil _
  | cons entry rest =>
    obtain ⟨key, value⟩ := entry
    exact List.forall_mem_cons.mpr
      ⟨⟨expand_recordFree key, expand_recordFree value⟩, expandEntries_recordFree rest⟩

theorem expandFields_recordFree (fields : List (String × Value)) :
    ∀ entry ∈ expandFields fields, entry.1.RecordFree ∧ entry.2.RecordFree := by
  cases fields with
  | nil => exact List.forall_mem_nil _
  | cons field rest =>
    obtain ⟨name, value⟩ := field
    exact List.forall_mem_cons.mpr
      ⟨⟨.scalar rfl, expand_recordFree value⟩, expandFields_recordFree rest⟩

end

/-! Where there is no record there is nothing to expand. -/

theorem expandEntries_eq_self (entries : List (Value × Value))
    (hkeys : ∀ entry ∈ entries, entry.1.expand = entry.1)
    (hvalues : ∀ entry ∈ entries, entry.2.expand = entry.2) : expandEntries entries = entries := by
  induction entries with
  | nil => rfl
  | cons entry rest ih =>
    obtain ⟨key, value⟩ := entry
    rw [expandEntries, hkeys _ List.mem_cons_self, hvalues _ List.mem_cons_self,
      ih (fun e h => hkeys e (List.mem_cons_of_mem _ h))
        fun e h => hvalues e (List.mem_cons_of_mem _ h)]

theorem RecordFree.expand (h : v.RecordFree) : v.expand = v := by
  induction h with
  | @scalar v hs => cases v <;> first | rfl | cases hs
  | list _ ih => rw [Value.expand, expandItems_eq_self _ ih]
  | tuple _ ih => rw [Value.expand, expandItems_eq_self _ ih]
  | map _ _ ihkeys ihvalues => rw [Value.expand, expandEntries_eq_self _ ihkeys ihvalues]

theorem expand_expand (v : Value) : v.expand.expand = v.expand := (expand_recordFree v).expand

/-! One record opened, and all of them. -/

theorem expand_opened (v : Value) : v.opened.expand = v.expand := by
  cases v with
  | record type fields => exact expand_expand _
  | _ => rfl

theorem opened_expand (v : Value) : v.expand.opened = v.expand := by
  cases v <;> rfl

theorem opened_opened (v : Value) : v.opened.opened = v.opened := by
  cases v <;> rfl

theorem text?_expand (v : Value) : v.expand.text? = v.text? := by
  cases v <;> rfl

theorem fieldIn?_expand (name : String) (entries : List (Value × Value)) :
    fieldIn? name (expandEntries entries) = (fieldIn? name entries).map expand := by
  induction entries with
  | nil => rfl
  | cons entry rest ih =>
    obtain ⟨key, value⟩ := entry
    simp only [expandEntries, fieldIn?, text?_expand, ih]
    split <;> rfl

theorem expandItems_eq_map (items : List Value) : expandItems items = items.map expand := by
  induction items with
  | nil => rfl
  | cons item rest ih => rw [expandItems, ih, List.map_cons]

theorem items?_expand (v : Value) : v.expand.items? = v.items?.map (List.map expand) := by
  cases v with
  | list items => exact congrArg some (expandItems_eq_map items)
  | tuple items => exact congrArg some (expandItems_eq_map items)
  | _ => rfl

theorem nodeKind_expand (h : v.opened = v) : v.expand.nodeKind = v.nodeKind := by
  cases v with
  | record type fields => cases h
  | _ => rfl

end Value

namespace Document

open Value

variable {node : Value}

theorem step_expand (segment : Segment) (h : node.opened = node) :
    step segment node.expand = (step segment node).map expand := by
  cases segment with
  | field name =>
    cases node with
    | record type fields => cases h
    | map entries =>
      simp only [step, Value.expand, fieldIn?_expand]
      cases fieldIn? name entries <;> rfl
    | _ => rfl
  | index n =>
    simp only [step, items?_expand, nodeKind_expand h]
    cases node.items? with
    | none => rfl
    | some items =>
      simp only [Option.map_some, List.getElem?_map, List.length_map]
      cases items[n]? <;> rfl

theorem follow_expand (path : Path) (depth : Nat) (node : Value) (segments : List Segment) :
    follow path depth node.expand segments = (follow path depth node segments).map expand := by
  induction segments generalizing depth node with
  | nil => rfl
  | cons segment rest ih =>
    rw [follow, follow, opened_expand, ← expand_opened, step_expand segment (opened_opened node)]
    cases step segment node.opened with
    | error reason => rfl
    | ok next => exact ih (depth + 1) next

theorem loadText_expand (text : String) : (loadText text).map expand = loadText text := by
  cases h : loadText text with
  | error fault => rfl
  | ok tree => exact congrArg Except.ok (Json.loadText_tree h).expand

theorem load_expand (document : Value) : load document.expand = (load document).map expand := by
  cases document with
  | text s => exact (loadText_expand s).symm
  | status s => exact (loadText_expand s.text).symm
  | bytes bytes =>
    simp only [Value.expand, load]
    cases Utf8.decode bytes with
    | error e => rfl
    | ok text => exact (loadText_expand text).symm
  | record type fields => exact congrArg Except.ok (expand_expand _).symm
  | _ => rfl

example :
    let order := Value.record "Order" [("id", .int 7)]
    evaluate (.list [order]) ⟨[.index 0]⟩ = .ok order ∧
      evaluate (Value.list [order]).expand ⟨[.index 0]⟩ = .ok (ofFields [("id", .int 7)]) :=
  ⟨rfl, rfl⟩

end Document

end Rehearsal
