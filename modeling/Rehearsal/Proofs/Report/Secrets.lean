import Mathlib.Data.List.Forall2
import Rehearsal.Proofs.Value.Plain
import Rehearsal.Report

/-! What reports hold of headers. The values under the names that must not be shown leave no trace,
however deep the item is that has them; every other header is held with all its values. -/

namespace Rehearsal

namespace StepResult

/-- Headers of one name, whose values may differ if the name must not be shown. -/
def SameShown (h k : String × List Value) : Prop :=
  h.1 = k.1 ∧ (Headers.isSensitive h.1 = false → h.2 = k.2)

/-- Whether two results, with their items, are the same up to such values. -/
inductive SameButSecrets : StepResult → StepResult → Prop
  | of_parts {r : StepResult} {headers others : List (String × List Value)}
      {items counterparts : List StepResult} :
      List.Forall₂ SameShown headers others → List.Forall₂ SameButSecrets items counterparts →
      SameButSecrets { r with headers := headers, items := items }
        { r with headers := others, items := counterparts }

/-- Whether numbers of items lead from a result to another one. -/
inductive ItemAt : StepResult → List Nat → StepResult → Prop
  | here (r : StepResult) : ItemAt r [] r
  | item {r s t : StepResult} {n : Nat} {path : List Nat} :
      r.items[n]? = some s → ItemAt s path t → ItemAt r (n :: path) t

theorem redactedHeaders_eq {headers others : List (String × List Value)}
    (h : List.Forall₂ SameShown headers others) :
    redactedHeaders headers = redactedHeaders others := by
  induction h with
  | nil => rfl
  | @cons header other headers others hsame _ ih =>
    obtain ⟨name, values⟩ := header
    obtain ⟨_, hidden⟩ := other
    obtain ⟨rfl, hshown⟩ := hsame
    simp only [redactedHeaders, List.map_cons] at ih hshown ⊢
    rw [ih]
    cases hs : Headers.isSensitive name with
    | true => rfl
    | false => rw [hshown hs]

mutual

theorem redacted_eq (r : StepResult) {s : StepResult} (h : SameButSecrets r s) :
    r.redacted = s.redacted := by
  cases r with
  | mk _ _ _ _ _ headers _ _ _ _ items =>
    cases h with
    | of_parts hheaders hitems =>
      rw [redacted, redacted, redactedHeaders_eq hheaders, redactedItems_eq items hitems]
termination_by structural r

theorem redactedItems_eq (items : List StepResult) {others : List StepResult}
    (h : List.Forall₂ SameButSecrets items others) : redactedItems items = redactedItems others := by
  cases items with
  | nil =>
    cases h
    rfl
  | cons first rest =>
    cases h with
    | cons hfirst hrest =>
      rw [redactedItems, redactedItems, redacted_eq first hfirst, redactedItems_eq rest hrest]
termination_by structural items

end

theorem SameButSecrets.success_eq {r s : StepResult} (h : SameButSecrets r s) :
    r.success = s.success := by
  cases h
  rfl

/-! Items and headers of a result keep their places in what is reported of it. -/

theorem redactedItems_eq_map (items : List StepResult) :
    redactedItems items = items.map redacted := by
  induction items with
  | nil => rfl
  | cons item rest ih => rw [redactedItems, ih, List.map_cons]

theorem reports_eq_map (items : List StepResult) :
    reports items = items.map fun item => Value.ofFields item.report := by
  induction items with
  | nil => rfl
  | cons item rest ih => rw [reports, ih, List.map_cons]

theorem headers_redacted (r : StepResult) : r.redacted.headers = redactedHeaders r.headers := by
  cases r
  rfl

theorem items_redacted (r : StepResult) : r.redacted.items = r.items.map redacted := by
  cases r
  exact redactedItems_eq_map _

theorem headers_mem_report (r : StepResult) :
    ("headers", (Value.ofFields (r.headers.map fun (name, values) =>
      (name, .list values))).plain) ∈ r.report := by
  cases r
  simp [report]

theorem items_mem_report (r : StepResult) :
    ("items", Value.list (r.items.map fun item => .ofFields item.report)) ∈ r.report := by
  cases r
  simp [report, reports_eq_map]

theorem ItemAt.redacted {r s : StepResult} {path : List Nat} (h : ItemAt r path s) :
    ItemAt r.redacted path s.redacted := by
  induction h with
  | here r => exact .here _
  | @item r s t n path hitem _ ih =>
    refine .item ?_ ih
    rw [items_redacted, List.getElem?_map, hitem, Option.map_some]

def itemSegments (path : List Nat) : List Segment :=
  path.flatMap fun n => [.field "items", .index n]

theorem ItemAt.report {r s : StepResult} {path : List Nat} {segments : List Segment} {w : Value}
    (h : ItemAt r path s) (hw : (Value.ofFields s.report).At segments w) :
    (Value.ofFields r.report).At (itemSegments path ++ segments) w := by
  induction h with
  | here r => exact hw
  | @item r s t n path hitem _ ih =>
    have hindex : (Value.list (r.items.map fun item => .ofFields item.report)).At
        (.index n :: (itemSegments path ++ segments)) w := by
      refine .index ?_ (ih hw)
      rw [List.getElem?_map, hitem, Option.map_some]
    exact hindex.under (items_mem_report r)

theorem header_report {r : StepResult} {name : String} {values : List Value}
    (hd : (r.headers.map (·.1)).Nodup) (h : (name, values) ∈ r.headers) :
    (Value.ofFields r.report).At [.field "headers", .field name]
      (.list (values.map Value.plain)) := by
  have hnames : ((r.headers.map fun (name, values) => (name, Value.list values)).map
      (·.1)).Nodup := by
    rwa [List.map_map]
  have hplain : (Value.list values).plain = .list (values.map Value.plain) := by
    rw [Value.plain, Value.plainItems_eq_map]
  have hheaders : (Value.ofFields (r.headers.map fun (name, values) =>
      (name, Value.list values))).plain.At [.field name] (.list (values.map Value.plain)) := by
    rw [Value.plain_ofFields hnames, ← hplain]
    refine (Value.At.here _).under (List.mem_map.mpr ⟨(name, .list values), ?_, rfl⟩)
    exact List.mem_map.mpr ⟨(name, values), h, rfl⟩
  exact hheaders.under (headers_mem_report r)

/-- What a report shows of a header. -/
def shownValues (name : String) (values : List Value) : List Value :=
  if Headers.isSensitive name then [.text "***"] else values.map Value.plain

theorem header_redacted {r : StepResult} {name : String} {values : List Value}
    (hd : (r.headers.map (·.1)).Nodup) (h : (name, values) ∈ r.headers) :
    (Value.ofFields r.redacted.report).At [.field "headers", .field name]
      (.list (shownValues name values)) := by
  have hnames : (r.redacted.headers.map (·.1)).Nodup := by
    rw [headers_redacted, redactedHeaders, List.map_map]
    exact hd
  have hmem : (name, if Headers.isSensitive name then [.text "***"] else values) ∈
      r.redacted.headers := by
    rw [headers_redacted]
    exact List.mem_map.mpr ⟨(name, values), h, rfl⟩
  have hshown : shownValues name values =
      (if Headers.isSensitive name then [.text "***"] else values).map Value.plain := by
    rw [shownValues]
    split <;> rfl
  rw [hshown]
  exact header_report hnames hmem

end StepResult

namespace Report

open StepResult

variable {history other : List ExecutedStep}

theorem at_entry {executed : ExecutedStep} {name : String} {rest : List Segment} {w : Value}
    (h : (Value.ofFields executed.result.redacted.report).At (.field name :: rest) w) :
    (entry executed).At (.field name :: rest) w := by
  rcases h.of_ofFields with ⟨hnil, -⟩ | ⟨_, child, _, heq, hmem, hrest⟩
  · cases hnil
  · cases heq
    exact hrest.under (List.mem_append_left _ hmem)

theorem at_build (now : Instant) (scenario : String) {i : Nat} {executed : ExecutedStep}
    {segments : List Segment} {w : Value} (hi : history[i]? = some executed)
    (h : (entry executed).At segments w) :
    (build now scenario history).At (.field "steps" :: .index i :: segments) w := by
  have hindex : (Value.list (history.map entry)).At (.index i :: segments) w := by
    refine .index ?_ h
    rw [List.getElem?_map, hi, Option.map_some]
  exact hindex.under (by simp)

theorem build_eq (now : Instant) (scenario : String)
    (h : List.Forall₂ (fun x y => x.step = y.step ∧ SameButSecrets x.result y.result)
      history other) : build now scenario history = build now scenario other := by
  have hsame : history.map entry = other.map entry ∧
      history.all (·.result.success) = other.all (·.result.success) := by
    induction h with
    | nil => exact ⟨rfl, rfl⟩
    | @cons x y history other hxy _ ih =>
      obtain ⟨hstep, hresult⟩ := hxy
      have hentry : entry x = entry y := by
        rw [entry, entry, hstep, redacted_eq x.result hresult]
      simp only [List.map_cons, List.all_cons, hentry, hresult.success_eq, ih.1, ih.2, and_self]
  rw [build, build, hsame.1, hsame.2]

/-- Two histories that are the same but for the values of headers that must not be shown, in results
and in items at any depth, have one report. It holds every header of every result and item: under a
name that must not be shown three stars, under any other name all the values. -/
theorem secrets_hidden (now : Instant) (scenario : String)
    (h : List.Forall₂ (fun x y => x.step = y.step ∧ SameButSecrets x.result y.result)
      history other) :
    build now scenario history = build now scenario other ∧
    ∀ i executed path item name values, history[i]? = some executed →
      ItemAt executed.result path item → (item.headers.map (·.1)).Nodup →
      (name, values) ∈ item.headers →
      (build now scenario history).At
        (.field "steps" :: .index i :: (itemSegments path ++ [.field "headers", .field name]))
        (.list (shownValues name values)) := by
  refine ⟨build_eq now scenario h, ?_⟩
  intro i executed path item name values hi hitem hd hheader
  have hat := hitem.redacted.report (header_redacted hd hheader)
  refine at_build now scenario hi ?_
  cases path with
  | nil => exact at_entry hat
  | cons n path => exact at_entry hat

theorem secrets_hidden_item :
    let now := Instant.ofEpochMicros 0
    let item (token : String) : StepResult :=
      { kind := .consume, success := true
        headers := [("Authorization", [.text token]), ("trace", [.int 1, .bytes [116]])] }
    let history (token : String) : List ExecutedStep :=
      [⟨default, { kind := .batchConsume, success := true, items := [item token] }⟩]
    let report := build now "tea" (history "secret")
    let place : List Segment := [.field "steps", .index 0, .field "items", .index 0, .field "headers"]
    report = build now "tea" (history "other") ∧
      report.At (place ++ [.field "Authorization"]) (.list [.text "***"]) ∧
      report.At (place ++ [.field "trace"]) (.list [.int 1, .text "t"]) := by
  intro now item history report place
  have hsame : List.Forall₂ (fun x y => x.step = y.step ∧ SameButSecrets x.result y.result)
      (history "secret") (history "other") := by
    have hitem : SameButSecrets (item "secret") (item "other") := by
      apply SameButSecrets.of_parts (r := item "")
      · exact .cons ⟨rfl, nofun⟩ (.cons ⟨rfl, fun _ => rfl⟩ .nil)
      · exact .nil
    refine .cons ⟨rfl, ?_⟩ .nil
    exact .of_parts (r := { kind := .batchConsume, success := true }) .nil (.cons hitem .nil)
  obtain ⟨heq, hat⟩ := secrets_hidden now "tea" hsame
  have hitem : ItemAt (history "secret")[0].result [0] _ := .item rfl (.here _)
  have hdistinct : ["Authorization", "trace"].Nodup := by decide
  refine ⟨heq, ?_, ?_⟩
  · exact hat 0 _ [0] _ "Authorization" _ rfl hitem hdistinct List.mem_cons_self
  · exact hat 0 _ [0] _ "trace" _ rfl hitem hdistinct (List.mem_cons_of_mem _ List.mem_cons_self)

end Report

end Rehearsal
