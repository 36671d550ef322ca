import Rehearsal.Proofs.Json.Line
import Rehearsal.Proofs.Report.Secrets

/-! Reports in a file. Every report is a tree that JSON has a form for, so each is added to the file
as one line, which is read back as that report; only an integer that is too long to be written keeps
a report out of the file. -/

namespace Rehearsal

open Value Json

/-! Reports are trees. -/

namespace StepResult

theorem report_names (r : StepResult) : r.report.map (·.1) =
    ["kind", "success", "status_code", "delivery_status", "payload", "headers", "properties",
      "errors", "started_at", "status", "duration_ms", "items"] := by
  cases r
  rfl

theorem ofOption_tree {α : Type} {f : α → Value} (h : ∀ a, (f a).Tree PlainLeaf) (a : Option α) :
    (Value.ofOption f a).Tree PlainLeaf := by
  cases a with
  | none => exact .leaf rfl .null
  | some a => exact h a

mutual

theorem report_fields (r : StepResult) : ∀ field ∈ r.report, field.2.Tree PlainLeaf := by
  cases r with
  | mk kind success statusCode delivery payload headers properties errors _ metadata items =>
    simp only [report, List.forall_mem_cons]
    refine ⟨.leaf rfl (.text _), .leaf rfl (.bool _), ?_, ?_, plain_tree _, plain_tree _,
      plain_tree _, ?_, ?_, .leaf rfl (.text _), ?_, .list (reports_tree items), nofun⟩
    · exact ofOption_tree (fun n => .leaf rfl (.int n)) statusCode
    · exact ofOption_tree (fun status => .leaf rfl (.text _)) delivery
    · refine .list fun error herror => ?_
      obtain ⟨text, -, rfl⟩ := List.mem_map.mp herror
      exact .leaf rfl (.text text)
    · exact ofOption_tree (fun t => .leaf rfl (.text _)) metadata.started
    · exact ofOption_tree (fun x => .leaf rfl (.float x)) metadata.milliseconds?
termination_by structural r

theorem reports_tree (items : List StepResult) : ∀ item ∈ reports items, item.Tree PlainLeaf := by
  cases items with
  | nil => nofun
  | cons first rest =>
    rintro item (_ | ⟨_, hitem⟩)
    · exact .map (by rw [report_names]; decide) (report_fields first)
    · exact reports_tree rest item hitem
termination_by structural items

end

end StepResult

namespace Report

theorem entry_tree (executed : ExecutedStep) : (entry executed).Tree PlainLeaf := by
  refine .map ?_ ?_
  · rw [List.map_append, StepResult.report_names]
    simp
  · refine List.forall_mem_append.mpr ⟨StepResult.report_fields _, ?_⟩
    simp only [List.forall_mem_cons]
    exact ⟨.leaf rfl (.text _), .leaf rfl (.text _), nofun⟩

theorem build_tree (now : Instant) (scenario : String) (history : List ExecutedStep) :
    (build now scenario history).Tree PlainLeaf := by
  refine .map (by simp) ?_
  simp only [List.forall_mem_cons]
  refine ⟨.leaf rfl (.text _), .leaf rfl (.int _), .leaf rfl (.bool _), .list fun step hstep => ?_,
    nofun⟩
  obtain ⟨executed, -, rfl⟩ := List.mem_map.mp hstep
  exact entry_tree executed

/-- A report that is to be written: of which scenario and when, and whether it is printed too. -/
structure Call where
  now : Instant
  scenario : String
  history : List ExecutedStep
  console : Bool

namespace Call

def report (call : Call) : Value := build call.now call.scenario call.history

/-- The line that a report is kept as, or why there is none. -/
def line (call : Call) : Except Fault String := Json.text lineStyle call.report

theorem line_cases (call : Call) :
    (¬HasLongInt call.report ∧ ∃ line, call.line = .ok line) ∨
      (HasLongInt call.report ∧ call.line = .error tooLong) :=
  text_cases rfl rfl (build_tree call.now call.scenario call.history)

theorem printed_cases (call : Call) :
    (∃ printed, Json.text printedStyle call.report = .ok printed ∧ ∃ line, call.line = .ok line) ∨
      (Json.text printedStyle call.report = .error tooLong ∧ call.line = .error tooLong) := by
  have htree := build_tree call.now call.scenario call.history
  have hunsorted : printedStyle.sortKeys = false := rfl
  have hnan : printedStyle.allowNan = true := rfl
  rcases call.line_cases with ⟨hshort, hline⟩ | ⟨hlong, hline⟩
  · rcases text_cases hunsorted hnan htree with ⟨-, printed, hprinted⟩ | ⟨hlong, -⟩
    · exact .inl ⟨printed, hprinted, hline⟩
    · exact absurd hlong hshort
  · rcases text_cases hunsorted hnan htree with ⟨hshort, -⟩ | ⟨-, hprinted⟩
    · exact absurd hlong hshort
    · exact .inr ⟨hprinted, hline⟩

end Call

end Report

namespace Outlet

open Report (Call)

variable {o : Outlet} {path : String}

def writeCall (o : Outlet) (path : String) (call : Call) : Except Fault Unit × Outlet :=
  o.write { jsonPath := .text path, console := call.console } call.report

/-- Writes reports one after another, each to the outlet that the one before left. -/
def writeCalls (o : Outlet) (path : String) : List Call → List (Except Fault Unit) × Outlet
  | [] => ([], o)
  | call :: rest =>
    let next := o.writeCall path call
    let later := next.2.writeCalls path rest
    (next.1 :: later.1, later.2)

def ended (line : String) : String := line ++ "\n"

theorem content_extend (o : Outlet) (path more other : String) :
    (o.extend path more).content other =
      if other = path then o.content path ++ more else o.content other := by
  rw [content, extend, Keyed.get?_put]
  split_ifs <;> rfl

theorem content_of_files {other : Outlet} (h : other.files = o.files) (path : String) :
    other.content path = o.content path := by
  rw [content, content, h]

theorem write_silent (hpath : path ≠ "") (o : Outlet) (report : Value) :
    o.write { jsonPath := .text path, console := false } report = o.append path report := by
  have htruthy : (!(Value.text path).truthy) = false := by simp [truthy, hpath]
  simp [write, htruthy, text?]

theorem write_printed (hpath : path ≠ "") (o : Outlet) (report : Value) :
    o.write { jsonPath := .text path, console := true } report =
      match Json.text Report.printedStyle report with
      | .error fault => (.error fault, o)
      | .ok printed => { o with printed := o.printed ++ [printed] }.append path report := by
  have htruthy : (!(Value.text path).truthy) = false := by simp [truthy, hpath]
  cases hprinted : Json.text Report.printedStyle report <;>
    simp [write, print, hprinted, htruthy, text?, bind, Except.bind, pure, Except.pure]

theorem writeCall_ok (hpath : path ≠ "") {call : Call} {line : String}
    (hline : call.line = .ok line) :
    ∃ opened : Outlet, opened.files = o.files ∧
      o.writeCall path call = (.ok (), opened.extend path (ended line)) := by
  have hkept : Json.text Report.lineStyle call.report = .ok line := hline
  rcases call.printed_cases with ⟨printed, hprinted, -⟩ | ⟨-, hno⟩
  · cases hconsole : call.console with
    | false =>
      refine ⟨o, rfl, ?_⟩
      rw [writeCall, hconsole, write_silent hpath, append, hkept]
      rfl
    | true =>
      refine ⟨{ o with printed := o.printed ++ [printed] }, rfl, ?_⟩
      rw [writeCall, hconsole, write_printed hpath, hprinted]
      dsimp only
      rw [append, hkept]
      rfl
  · rw [hline] at hno
    cases hno

theorem writeCall_error (hpath : path ≠ "") {call : Call} (hline : call.line = .error tooLong) :
    (o.writeCall path call).1 = .error tooLong ∧
      ∀ other, (o.writeCall path call).2.content other = o.content other := by
  have hkept : Json.text Report.lineStyle call.report = .error tooLong := hline
  rcases call.printed_cases with ⟨-, -, line, hyes⟩ | ⟨hprinted, -⟩
  · rw [hline] at hyes
    cases hyes
  · cases hconsole : call.console with
    | false =>
      rw [writeCall, hconsole, write_silent hpath, append, hkept]
      refine ⟨rfl, fun other => ?_⟩
      rw [content_extend, String.append_empty]
      split_ifs with h
      · rw [h]
      · rfl
    | true =>
      rw [writeCall, hconsole, write_printed hpath, hprinted]
      exact ⟨rfl, fun _ => rfl⟩

theorem writeCall_spec (hpath : path ≠ "") (o : Outlet) (call : Call) :
    (o.writeCall path call).1 = call.line.map (fun _ => ()) ∧
    (o.writeCall path call).2.content path =
      o.content path ++ String.join (call.line.toOption.toList.map ended) ∧
    ∀ other ≠ path, (o.writeCall path call).2.content other = o.content other := by
  rcases call.line_cases with ⟨-, line, hline⟩ | ⟨-, hline⟩
  · obtain ⟨opened, hfiles, hwrite⟩ := writeCall_ok (o := o) hpath hline
    rw [hwrite, hline]
    refine ⟨rfl, ?_, fun other hne => ?_⟩
    · rw [content_extend, if_pos rfl, content_of_files hfiles]
      simp [Except.toOption]
    · rw [content_extend, if_neg hne, content_of_files hfiles]
  · obtain ⟨houtcome, hsame⟩ := writeCall_error (o := o) hpath hline
    rw [houtcome, hline]
    refine ⟨rfl, ?_, fun other _ => hsame other⟩
    rw [hsame path]
    simp [Except.toOption]

theorem writeCalls_spec (hpath : path ≠ "") (o : Outlet) (calls : List Call) :
    (o.writeCalls path calls).1 = calls.map (fun call => call.line.map fun _ => ()) ∧
    (o.writeCalls path calls).2.content path = o.content path ++
      String.join ((calls.filterMap fun call => call.line.toOption).map ended) ∧
    ∀ other ≠ path, (o.writeCalls path calls).2.content other = o.content other := by
  induction calls generalizing o with
  | nil => exact ⟨rfl, by simp [writeCalls], fun _ _ => rfl⟩
  | cons call rest ih =>
    obtain ⟨hfirst, hadded, hothers⟩ := writeCall_spec hpath o call
    obtain ⟨houtcomes, hcontent, hsame⟩ := ih (o.writeCall path call).2
    refine ⟨?_, ?_, fun other hne => (hsame other hne).trans (hothers other hne)⟩
    · rw [writeCalls, List.map_cons, ← houtcomes, ← hfirst]
    · rw [writeCalls, List.filterMap_cons]
      dsimp only
      rw [hcontent, hadded, String.append_assoc]
      cases call.line.toOption <;> simp

theorem writeCall_payload (hpath : path ≠ "") (o : Outlet) (now : Instant) (scenario : String)
    (console : Bool) {executed : ExecutedStep} {n : Int} (hn : ¬WritableInt n)
    (hpayload : executed.result.payload = .int n) :
    let outcome := o.writeCall path ⟨now, scenario, [executed], console⟩
    outcome.1 = .error tooLong ∧ ∀ other, outcome.2.content other = o.content other := by
  have hresult : (ofFields executed.result.redacted.report).At [.field "payload"] (.int n) := by
    refine (At.here _).under ?_
    cases hr : executed.result
    rw [hr] at hpayload
    obtain rfl : _ = Value.int n := hpayload
    simp [StepResult.redacted, StepResult.report, plain]
  have hlong : HasLongInt (Report.build now scenario [executed]) :=
    ⟨_, n, Report.at_build now scenario (i := 0) rfl (Report.at_entry hresult), hn⟩
  apply writeCall_error hpath
  rcases Call.line_cases ⟨now, scenario, [executed], console⟩ with ⟨hshort, -⟩ | ⟨-, hline⟩
  · exact absurd hlong hshort
  · exact hline

theorem not_writableInt : ¬WritableInt (10 ^ integerDigitLimit) := by
  have hlimit : 0 < integerDigitLimit := by decide
  have hten : (10 : Int).natAbs = 10 := rfl
  rw [WritableInt, Int.natAbs_pow, hten, Nat.length_toDigits_le_iff (by decide) hlimit]
  exact Nat.lt_irrefl _

end Outlet

end Rehearsal
