import Rehearsal.Execution

/-! The laws of results. A result says several times over whether its step succeeded: by its flag,
its errors, its status and its fault. Whatever becomes of a request, of a send or of a poll, the
result that is made of it says the same every time, and so does each item of a batch. -/

namespace Rehearsal

/-- What a result says of itself in several places, it says alike. -/
structure StepResult.Coherent (r : StepResult) : Prop where
  errors : r.success = true ↔ r.errors = []
  status : r.success = true ↔ r.metadata.status = .succeeded
  error : r.kind ≠ .http → (r.error = none ↔ r.success = true)
  delivery : r.kind = .produce → (r.success = true ↔ r.delivery = some .persisted)
  batch : r.kind ∈ StepKind.batches → r.payload = .list (r.items.map (·.payload)) ∧
    ∃ expected, r.property? "expected_count" = some (.int expected) ∧
      (r.success = true ↔ r.items.length = expected ∧ ∀ item ∈ r.items, item.success = true)

/-- A result keeps the laws if it is coherent and each of its items keeps them. -/
inductive StepResult.Lawful : StepResult → Prop where
  | intro {r : StepResult} (coherent : r.Coherent) (items : ∀ item ∈ r.items, item.Lawful) :
      r.Lawful

namespace StepResult

theorem Lawful.coherent {r : StepResult} : r.Lawful → r.Coherent
  | .intro coherent _ => coherent

theorem lawful_single {r : StepResult} (h : r.Coherent) (hitems : r.items = []) : r.Lawful :=
  .intro h (by rw [hitems]; nofun)

def timedOut (r : StepResult) : Bool :=
  match r.error with
  | some (.stepTimeout _) => true
  | _ => false

theorem ofRun_status (now : Instant) (ok : Bool) :
    ok = true ↔ (StepMetadata.ofRun now ok).status = .succeeded := by
  cases ok <;> simp [StepMetadata.ofRun]

theorem failure_coherent (now : Instant) {kind : StepKind} (hkind : kind ∉ StepKind.batches)
    (fault : Fault) (payload : Value) (properties : List (String × Value)) :
    (failure now kind fault payload properties).Coherent where
  errors := by simp [failure]
  status := ofRun_status now false
  error := by simp [failure]
  delivery := by simp [failure]
  batch := fun h => absurd h hkind

theorem failure_lawful (now : Instant) {kind : StepKind} (hkind : kind ∉ StepKind.batches)
    (fault : Fault) (payload : Value) (properties : List (String × Value)) :
    (failure now kind fault payload properties).Lawful :=
  lawful_single (failure_coherent now hkind fault payload properties) rfl

end StepResult

/-! What becomes of a message. -/

section Message

variable (now : Instant) (topic : String) (deadline : Binary64) (headers : MessageHeaders)
  (key value : Value)

theorem reportedResult_coherent (report : DeliveryReport) :
    (reportedResult now topic headers key value report).Coherent := by
  unfold reportedResult
  split
  · rename_i hstatus
    exact ⟨by simp, StepResult.ofRun_status now true, by simp, by simp [hstatus],
      by simp [StepKind.batches]⟩
  · rename_i hstatus
    exact ⟨by simp, StepResult.ofRun_status now false, by simp, by simp [hstatus],
      by simp [StepKind.batches]⟩

theorem sendResult_coherent (outcome : SendOutcome) :
    (sendResult now topic deadline headers key value outcome).Coherent := by
  cases outcome with
  | delivered report => exact reportedResult_coherent now topic headers key value report
  | raised why => exact StepResult.failure_coherent now (by decide) _ _ _
  | late => exact StepResult.failure_coherent now (by decide) _ _ _

theorem sendResult_fields (outcome : SendOutcome) :
    let r := sendResult now topic deadline headers key value outcome
    r.kind = .produce ∧ r.items = [] ∧ r.payload = value ∧ r.property "key" = key := by
  cases outcome with
  | delivered report =>
    simp only [sendResult, reportedResult]
    split <;> exact ⟨rfl, rfl, rfl, rfl⟩
  | raised why => exact ⟨rfl, rfl, rfl, rfl⟩
  | late => exact ⟨rfl, rfl, rfl, rfl⟩

theorem sendResult_success (outcome : SendOutcome) :
    (sendResult now topic deadline headers key value outcome).success = true ↔
      ∃ report, outcome = .delivered report ∧ report.status = .persisted := by
  cases outcome with
  | delivered report =>
    simp only [sendResult, reportedResult]
    split <;> simp_all
  | raised why => simp [sendResult, StepResult.failure]
  | late => simp [sendResult, StepResult.failure]

theorem sendResult_timedOut (outcome : SendOutcome) :
    (sendResult now topic deadline headers key value outcome).timedOut = true ↔
      outcome = .late := by
  cases outcome with
  | delivered report =>
    simp only [sendResult, reportedResult]
    split <;> simp [StepResult.timedOut]
  | raised why => simp [sendResult, StepResult.failure, StepResult.timedOut]
  | late => simp [sendResult, StepResult.failure, StepResult.timedOut]

theorem messageResult_coherent (expected : Option Kind) (m : Message) :
    (messageResult now expected m).Coherent := by
  unfold messageResult
  split
  · exact ⟨by simp, StepResult.ofRun_status now true, by simp, by simp,
      by simp [StepKind.batches]⟩
  · exact ⟨by simp [StepResult.failure], StepResult.ofRun_status now false,
      by simp [StepResult.failure], by simp [StepResult.failure],
      by simp [StepResult.failure, StepKind.batches]⟩

theorem messageResult_fields (expected : Option Kind) (m : Message) :
    (messageResult now expected m).kind = .consume ∧ (messageResult now expected m).items = [] := by
  unfold messageResult
  split <;> exact ⟨rfl, rfl⟩

end Message

theorem ConsumeStep.result_lawful (step : ConsumeStep) (now : Instant) (outcome : PollOutcome) :
    (step.result now outcome).kind = .consume ∧ (step.result now outcome).Lawful := by
  have hsingle : StepKind.consume ∉ StepKind.batches := by decide
  cases outcome with
  | received m =>
    obtain ⟨hkind, hitems⟩ := messageResult_fields now step.expectedType m
    exact ⟨hkind, StepResult.lawful_single (messageResult_coherent now step.expectedType m) hitems⟩
  | nothing => exact ⟨rfl, StepResult.failure_lawful now hsingle _ _ _⟩
  | hung => exact ⟨rfl, StepResult.failure_lawful now hsingle _ _ _⟩
  | raised why => exact ⟨rfl, StepResult.failure_lawful now hsingle _ _ _⟩

/-! Batches. -/

theorem itemErrors_eq (start : Nat) (items : List StepResult) :
    itemErrors start items = (items.zipIdx start).flatMap fun entry =>
      if entry.1.success then []
      else entry.1.errors.map fun e => "message " ++ toString entry.2 ++ ": " ++ e := by
  induction items generalizing start with
  | nil => rfl
  | cons item rest ih => simp only [itemErrors, ih, List.zipIdx_cons, List.flatMap_cons]

theorem itemErrors_eq_nil {items : List StepResult} (h : ∀ item ∈ items, item.Coherent)
    (start : Nat) : itemErrors start items = [] ↔ ∀ item ∈ items, item.success = true := by
  induction items generalizing start with
  | nil => simp [itemErrors]
  | cons item rest ih =>
    obtain ⟨hitem, hrest⟩ := List.forall_mem_cons.mp h
    rw [itemErrors, List.append_eq_nil_iff, ih hrest, List.forall_mem_cons]
    refine and_congr_left fun _ => ?_
    cases hs : item.success with
    | true => simp
    | false =>
      have hne : item.errors ≠ [] := fun hnil => by simp [hitem.errors.mpr hnil] at hs
      simp [hne]

theorem batchFault_eq_none {items : List StepResult} (h : ∀ item ∈ items, item.Coherent)
    (hkind : ∀ item ∈ items, item.kind ≠ .http) :
    batchFault items none = none ↔ ∀ item ∈ items, item.success = true := by
  simp only [batchFault]
  cases hfind : items.find? fun item => !item.success with
  | none => simpa using List.find?_eq_none.mp hfind
  | some item =>
    have hmem := List.mem_of_find?_eq_some hfind
    have hfailed : item.success = false := by simpa using List.find?_some hfind
    have herror : item.error ≠ none := fun hnone => by
      simp [((h item hmem).error (hkind item hmem)).mp hnone] at hfailed
    refine iff_of_false herror fun hall => ?_
    simp [hall item hmem] at hfailed

/-- The result of a batch that falls short just if it has not as many items as expected. -/
theorem batchResult_lawful (now : Instant) {kind : StepKind} (hkind : kind ∈ StepKind.batches)
    (topic : String) {items : List StepResult} (hitems : ∀ item ∈ items, item.Lawful)
    (hmessages : ∀ item ∈ items, item.kind ≠ .http) {expected : Int} {shortfall : Option Fault}
    (hshort : shortfall = none ↔ items.length = expected) :
    let r := batchResult now kind topic items expected shortfall
    r.Lawful ∧ r.property? "expected_count" = some (.int expected) ∧
      (r.success = true ↔ items.length = expected ∧ ∀ item ∈ items, item.success = true) := by
  intro r
  have hcoherent : ∀ item ∈ items, item.Coherent := fun item h => (hitems item h).coherent
  have herrors : r.errors = [] ↔ items.length = expected ∧ ∀ item ∈ items, item.success = true := by
    change shortfallText shortfall ++ itemErrors 0 items = [] ↔ _
    rw [List.append_eq_nil_iff, itemErrors_eq_nil hcoherent, ← hshort]
    refine and_congr_left fun _ => ?_
    cases shortfall <;> simp [shortfallText]
  have hsuccess : r.success = true ↔
      items.length = expected ∧ ∀ item ∈ items, item.success = true := by
    change (r.errors.isEmpty && (items.length : Int) == expected) = true ↔ _
    rw [Bool.and_eq_true, List.isEmpty_iff, beq_iff_eq, herrors]
    exact ⟨fun h => h.1, fun h => ⟨h, h.1⟩⟩
  have hcount : r.property? "expected_count" = some (.int expected) := rfl
  refine ⟨.intro ⟨hsuccess.trans herrors.symm, StepResult.ofRun_status now r.success, ?_, ?_, ?_⟩
    hitems, hcount, hsuccess⟩
  · intro _
    change batchFault items shortfall = none ↔ _
    rw [hsuccess, ← hshort]
    cases shortfall with
    | none => simpa using batchFault_eq_none hcoherent hmessages
    | some fault => simp [batchFault]
  · rintro rfl
    exact absurd hkind (by decide)
  · exact fun _ => ⟨rfl, expected, hcount, hsuccess⟩

namespace BatchProduceStep

variable (step : BatchProduceStep) (now : Instant) (outcomes : Nat → SendOutcome)

theorem results_length : (step.results now outcomes).length = step.messages.length := by
  simp [results]

theorem mem_results {item : StepResult} (h : item ∈ step.results now outcomes) :
    item.kind = .produce ∧ item.Lawful := by
  obtain ⟨i, hi, rfl⟩ := List.mem_mapIdx.mp h
  have hfields := sendResult_fields now step.topic step.timeout step.headers
    (step.messages[i]).1 (step.messages[i]).2 (outcomes i)
  exact ⟨hfields.1, StepResult.lawful_single (sendResult_coherent ..) hfields.2.1⟩

theorem result_lawful :
    let r := step.result now outcomes
    r.Lawful ∧ r.property? "expected_count" = some (.int step.messages.length) ∧
      (r.success = true ↔ ∀ item ∈ r.items, item.success = true) := by
  have hlength : ((step.results now outcomes).length : Int) = step.messages.length := by
    rw [results_length]
  have hshort : (none : Option Fault) = none ↔
      ((step.results now outcomes).length : Int) = step.messages.length := iff_of_true rfl hlength
  obtain ⟨hlawful, hcount, hsuccess⟩ := batchResult_lawful now
    (show StepKind.batchProduce ∈ StepKind.batches by decide) step.topic
    (fun item h => (step.mem_results now outcomes h).2)
    (fun item h => by rw [(step.mem_results now outcomes h).1]; nofun) hshort
  exact ⟨hlawful, hcount, hsuccess.trans (and_iff_right hlength)⟩

end BatchProduceStep

theorem BatchConsumeStep.items_length (step : BatchConsumeStep) (now : Instant)
    (messages : List Message) (why : Option String) :
    (step.result now messages why).items.length = messages.length := List.length_map _

theorem BatchConsumeStep.result_lawful (step : BatchConsumeStep) (now : Instant)
    {messages : List Message} {why : Option String}
    (hle : (messages.length : Int) ≤ step.messageCount)
    (hwhy : why ≠ none → (messages.length : Int) < step.messageCount) :
    let r := step.result now messages why
    r.Lawful ∧ r.property? "expected_count" = some (.int step.messageCount) ∧
      (r.success = true ↔ r.items.length = step.messageCount ∧
        ∀ item ∈ r.items, item.success = true) := by
  have hshort : step.shortfall messages.length why = none ↔
      ((messages.map (messageResult now step.expectedType)).length : Int) = step.messageCount := by
    rw [List.length_map]
    cases why with
    | some why =>
      have hlt := hwhy (by simp)
      refine iff_of_false (by simp [shortfall]) (by omega)
    | none =>
      simp only [shortfall]
      split
      · exact iff_of_false (by simp) (by omega)
      · exact iff_of_true rfl (by omega)
  refine batchResult_lawful now (by decide) step.topic (fun item h => ?_) (fun item h => ?_) hshort
  · obtain ⟨m, -, rfl⟩ := List.mem_map.mp h
    exact StepResult.lawful_single (messageResult_coherent now step.expectedType m)
      (messageResult_fields now step.expectedType m).2
  · obtain ⟨m, -, rfl⟩ := List.mem_map.mp h
    rw [(messageResult_fields now step.expectedType m).1]
    nofun

end Rehearsal
