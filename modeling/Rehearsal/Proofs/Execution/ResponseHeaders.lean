import Rehearsal.Proofs.Execution.Laws
import Rehearsal.Proofs.Http.Headers
import Rehearsal.Proofs.Keyed
import Rehearsal.Validation

/-! The headers of a response in the result. They are gathered under their names in lower case, each
name with its values in the order received, and looked up without regard to case. A name in lower
case is its own lower case, so the two passes agree on which names are one: at most one group answers
a look-up, and it has exactly the values that were received under the name. -/

namespace Rehearsal

/-! Gathering values under names. -/

/-- Groups of headers: no name twice, no name that no header has, and under each name the values that
the headers have under it, in their order. -/
structure Gathers (headers : Headers) (groups : List (String × List Value)) : Prop where
  distinct : (groups.map (·.1)).Nodup
  names : ∀ name ∈ groups.map (·.1), name ∈ headers.map (·.1)
  values : ∀ name, (Keyed.get? groups name).getD [] =
    (headers.filter fun header => header.1 = name).map (·.2)

/-- A value is added to those that its name has. -/
theorem groupHeaders_add (groups : List (String × List Value)) (header : String × Value) :
    groupHeaders.add groups header =
      Keyed.put groups header.1 ((Keyed.get? groups header.1).getD [] ++ [header.2]) := by
  induction groups with
  | nil => rfl
  | cons group rest ih =>
    obtain ⟨name, values⟩ := group
    by_cases h : name = header.1
    · simp [groupHeaders.add, Keyed.put, Keyed.get?, h]
    · simp [groupHeaders.add, Keyed.put, Keyed.get?, h, ih]

theorem Gathers.add {headers : Headers} {groups : List (String × List Value)}
    (h : Gathers headers groups) (header : String × Value) :
    Gathers (headers ++ [header]) (groupHeaders.add groups header) := by
  rw [groupHeaders_add]
  refine ⟨Keyed.nodup_put h.distinct _ _, fun name hname => ?_, fun name => ?_⟩
  · rw [List.map_append, List.mem_append]
    rw [Keyed.map_put] at hname
    split_ifs at hname with hthere
    · exact .inl (h.names name hname)
    · exact (List.mem_append.mp hname).imp_left (h.names name)
  · rw [Keyed.get?_put, List.filter_append, List.map_append, ← h.values name]
    by_cases hname : name = header.1
    · simp [hname]
    · simp [hname, Ne.symm hname]

theorem gathers_groupHeaders (headers : Headers) : Gathers headers (groupHeaders headers) := by
  induction headers using List.reverseRecOn with
  | nil => exact ⟨List.nodup_nil, nofun, fun _ => rfl⟩
  | append_singleton front header ih =>
    have hlast : groupHeaders (front ++ [header]) = groupHeaders.add (groupHeaders front) header :=
      List.foldl_append
    rw [hlast]
    exact ih.add header

/-- Headers with their names in lower case. -/
def Headers.small (headers : Headers) : Headers :=
  headers.map fun (name, value) => (Text.lower name, value)

theorem StepResult.header_gathered {result : StepResult} {headers : Headers}
    (h : Gathers headers.small result.headers) (name : String) :
    result.header name = (headers.under name).map (·.2) := by
  -- every group has its name in lower case, so the look-up finds the one group of that name
  have hgroups : ∀ group ∈ result.headers, Text.sameIgnoringCase group.1 name =
      decide (group.1 = Text.lower name) := by
    intro group hgroup
    obtain ⟨small, hsmall, hname⟩ := List.mem_map.mp (h.names _ (List.mem_map_of_mem hgroup))
    obtain ⟨header, -, rfl⟩ := List.mem_map.mp hsmall
    rw [← hname, Text.sameIgnoringCase_lower, Text.sameIgnoringCase, Bool.beq_eq_decide_eq]
  have hunder : headers.small.filter (fun header => header.1 = Text.lower name) =
      (headers.under name).small := by
    rw [Headers.small, List.filter_map]
    rfl
  calc result.header name
    _ = (result.headers.filter fun group => group.1 = Text.lower name).flatMap (·.2) := by
      rw [header, List.filter_congr hgroups]
    _ = (Keyed.get? result.headers (Text.lower name)).getD [] := by
      rw [Keyed.filter_key h.distinct]
      cases Keyed.get? result.headers (Text.lower name) <;> simp
    _ = (headers.under name).small.map (·.2) := by rw [h.values, hunder]
    _ = (headers.under name).map (·.2) := List.map_map

/-- What an assertion about a header accepts: that the header is there, with the value if one is
asked for. -/
theorem Validation.assert_header_iff {result : StepResult} (hkind : result.kind = .http)
    (attached : Bool) (name : String) (wanted : Value) :
    (Validation.forResult result attached).assert (.header name (.value wanted)) = .ok () ↔
      result.header name ≠ [] ∧
        (wanted = .null ∨ ∃ value ∈ result.header name, value.same wanted = true) := by
  have hassert : (Validation.forResult result attached).assert (.header name (.value wanted)) =
      checkHeader result name (.value wanted) := by
    simp only [forResult, hkind, assert, offer, judge, requireKind]
    rfl
  rw [hassert, checkHeader.eq_def]
  split
  · rename_i hnone
    simp [hnone, refuse]
  · rename_i hexpected _
    cases hexpected
  · rename_i hexpected hthere
    cases hexpected
    simpa using hthere
  · rename_i hgiven hexpected hthere
    cases hexpected
    rw [← List.any_eq_true]
    split_ifs with hany
    · exact iff_of_true rfl ⟨hthere, .inr hany⟩
    · exact iff_of_false nofun fun h => h.2.elim hgiven hany

namespace Response

theorem headerValues_ascii {r : Response} {name : String} (hname : Text.IsAscii name)
    (hnames : ∀ header ∈ r.headers, Text.IsAscii header.1) :
    r.headerValues name = (r.headers.filter fun header =>
      header.1.toList.map Char.toLower = name.toList.map Char.toLower).map (·.2) := by
  rw [headerValues, List.filter_congr fun header hheader => ?_]
  rw [Bool.eq_iff_iff, decide_eq_true_iff]
  exact Text.sameIgnoringCase_ascii (hnames header hheader) hname

end Response

namespace HttpStep

/-- The result of a response has under each name what was received under it. -/
theorem received_header (step : HttpStep) (now : Instant) (address : String) (r : Response)
    (name : String) :
    (step.received now address r).header name = (r.headerValues name).map .text := by
  let given : Headers := r.headers.map fun header => (header.1, .text header.2)
  have hgathered : Gathers given.small (step.received now address r).headers := by
    have hsmall : (step.received now address r).headers = groupHeaders given.small := by
      rw [Headers.small, List.map_map]
      rfl
    rw [hsmall]
    exact gathers_groupHeaders _
  rw [StepResult.header_gathered hgathered, Headers.under, List.filter_map, List.map_map,
    Response.headerValues, List.map_map]
  rfl

/-- The headers of a response, asked for by any name. If the response arrives, the result of the
step is made of it. Under a name the result has the values of exactly the headers that have the name
in whatever case, in the order received; where names are of ASCII, those that have it letter by
letter. An assertion that the header has a value passes exactly if the value is one of them, and one
that asks for no value passes exactly if there is any. -/
theorem response_headers_found (step : HttpStep) (r : Response) :
    (∀ (w : World) (settings : Settings), w.response? settings step = some r →
      ∃ address, (w.run settings (.http step)).1 = .ok (step.received w.now address r)) ∧
    ∀ (now : Instant) (address name : String) (attached : Bool),
      let result := step.received now address r
      let validation := Validation.forResult result attached
      result.header name = (r.headerValues name).map .text ∧
      (Text.IsAscii name → (∀ header ∈ r.headers, Text.IsAscii header.1) →
        r.headerValues name = (r.headers.filter fun header =>
          header.1.toList.map Char.toLower = name.toList.map Char.toLower).map (·.2)) ∧
      (∀ wanted : Value, wanted ≠ .null →
        (validation.assert (.header name (.value wanted)) = .ok () ↔
          ∃ text ∈ r.headerValues name, wanted.text? = some text)) ∧
      (validation.assert (.header name (.value .null)) = .ok () ↔ r.headerValues name ≠ []) := by
  refine ⟨fun w settings => World.runHttp_response, fun now address name attached => ?_⟩
  intro result validation
  have hheader : result.header name = (r.headerValues name).map .text :=
    step.received_header now address r name
  have hkind : result.kind = .http := rfl
  have hassert := Validation.assert_header_iff hkind attached name
  rw [hheader] at hassert
  refine ⟨hheader, Response.headerValues_ascii, fun wanted hwanted => ?_, ?_⟩
  · rw [hassert]
    constructor
    · rintro ⟨-, hnull | ⟨value, hvalue, hsame⟩⟩
      · exact absurd hnull hwanted
      · obtain ⟨text, htext, rfl⟩ := List.mem_map.mp hvalue
        exact ⟨text, htext, by simpa [Value.same] using hsame⟩
    · rintro ⟨text, htext, hwanted⟩
      have hvalue : Value.text text ∈ (r.headerValues name).map .text := List.mem_map_of_mem htext
      exact ⟨List.ne_nil_of_mem hvalue, .inr ⟨_, hvalue, by simp [Value.same, hwanted]⟩⟩
  · rw [hassert]
    simp

/-- A header that comes three times, in three spellings and with another one in between. -/
theorem response_headers_found_interleaved :
    let r : Response :=
      { status := 200, body := []
        headers := [("Set-Cookie", "a=1"), ("X-Id", "7"), ("SET-COOKIE", "b=2"),
          ("set-cookie", "a=1")] }
    let step : HttpStep :=
      { url := "http://host.test/a", method := "GET", body := .null, headers := []
        queryParams := [], timeout := Binary64.ofNat 30, auth := none }
    let w : World :=
      { World.calm (.empty 1 .persisted 0) with
        web := ⟨[some (.response r)], fun _ => .unfinished, []⟩ }
    ∃ result, (w.run {} (.http step)).1 = .ok result ∧
      result.header "Set-cookie" = [.text "a=1", .text "b=2", .text "a=1"] ∧
      let validation := Validation.forResult result true
      validation.assert (.header "Set-cookie" (.value (.text "b=2"))) = .ok () ∧
      validation.assert (.header "Set-cookie" (.value (.text "7"))) ≠ .ok () ∧
      validation.assert (.header "X-ID" (.value .null)) = .ok () := by
  intro r step w
  obtain ⟨hran, hfound⟩ := response_headers_found step r
  obtain ⟨address, hresult⟩ := hran w {} (by decide +kernel)
  obtain ⟨hheader, hletters, hgiven, -⟩ := hfound w.now address "Set-cookie" true
  have hcookies : r.headerValues "Set-cookie" = ["a=1", "b=2", "a=1"] :=
    (hletters (by decide) (by decide)).trans (by decide +kernel)
  obtain ⟨-, -, -, hthere⟩ := hfound w.now address "X-ID" true
  rw [hcookies] at hheader hgiven
  refine ⟨_, hresult, hheader, (hgiven (.text "b=2") nofun).mpr ⟨"b=2", by decide, rfl⟩, ?_, ?_⟩
  · rw [ne_eq, hgiven (.text "7") nofun]
    decide
  · exact hthere.mpr (by decide +kernel)

end HttpStep

end Rehearsal
