import Mathlib.Data.List.Forall2
import Rehearsal.Proofs.Scenario.HeaderCalls
import Rehearsal.Proofs.Step.Valid
import Rehearsal.Proofs.Text.LetterCase
import Rehearsal.Proofs.Value.Shown

/-! The fields of a step one by one. A change writes one field of a draft, a build looks at each
field for itself, and what it makes of one passes the same check again unchanged. Only a timeout can
fail there, for it is checked before it is rounded. So which changes a step takes, and what they
make of it, is a question about single fields. -/

namespace Rehearsal

/-- What the fields of a draft hold, each as the change that writes it. -/
def StepDraft.contents : StepDraft → List StepChange
  | .http d =>
    [.url d.url, .method d.method, .body d.body, .headers (Headers.entries d.headers),
      .queryParams (Headers.entries d.queryParams), .timeout d.timeout, .httpAuth d.auth]
  | .produce d =>
    [.topic d.topic, .value d.value, .key d.key, .headers d.headers, .partition d.partition,
      .timestamp d.timestamp, .timeout d.timeout, .tuning d.tuning,
      .bootstrapServers d.bootstrapServers, .brokerAuth d.auth, .jsonOptions d.jsonOptions]
  | .consume d =>
    [.topic d.topic, .groupId d.groupId, .timeout d.timeout, .expectedType d.expectedType,
      .autoOffsetReset d.autoOffsetReset, .bootstrapServers d.bootstrapServers, .brokerAuth d.auth]
  | .batchProduce d =>
    [.topic d.topic, .messages d.messages, .headers d.headers, .timeout d.timeout,
      .tuning d.tuning, .bootstrapServers d.bootstrapServers, .brokerAuth d.auth,
      .jsonOptions d.jsonOptions]
  | .batchConsume d =>
    [.topic d.topic, .messageCount d.messageCount, .groupId d.groupId, .timeout d.timeout,
      .expectedType d.expectedType, .autoOffsetReset d.autoOffsetReset,
      .bootstrapServers d.bootstrapServers, .brokerAuth d.auth]

namespace StepChange

/-- Whether a kind of step has what a change writes. -/
def applies (variant : Variant) : StepChange → Bool
  | .other _ => false
  | .httpAuth _ => variant == .http
  | .brokerAuth _ => variant != .http
  | _ => true

/-- What a change leaves in the field it writes; names of headers and parameters of a request
become texts, each there once. -/
def kept (variant : Variant) : StepChange → StepChange
  | .headers entries =>
    if variant = .http then .headers (Headers.entries (named entries)) else .headers entries
  | .queryParams entries => .queryParams (Headers.entries (named entries))
  | change => change

/-- What a field holds after a change. -/
def onto (variant : Variant) (change content : StepChange) : StepChange :=
  if change.applies variant = true ∧ content.name = change.name then change.kept variant
  else content

/-- What building makes of the content of a field, if the field passes its check. -/
def settle (variant : Variant) : StepChange → Option StepChange
  | .url given => if given.truthy then some (.url (.text given.display)) else none
  | .method s => some (.method (Text.upper s))
  | .timeout given =>
    (Draft.seconds variant.name given).toOption.map fun x => .timeout (.float x)
  | .topic given =>
    (Draft.topicName variant.name given).toOption.map fun name => .topic (.text name)
  | .headers entries =>
    if variant = .http then some (.headers entries)
    else (Draft.messageHeaders entries).toOption.map fun headers =>
      .headers (MessageHeaders.entries headers)
  | .partition number => (checkPartition number).toOption.map fun _ => .partition number
  | .messages pairs => if pairs.isEmpty then none else some (.messages pairs)
  | .messageCount count => if count < 1 then none else some (.messageCount count)
  | .autoOffsetReset given =>
    (OffsetReset.ofValue given).toOption.map fun reset => .autoOffsetReset (.text reset.text)
  | content => some content

end StepChange

theorem StepDraft.contents_set (draft : StepDraft) (change : StepChange) :
    (draft.set change).contents = draft.contents.map (change.onto draft.variant) := by
  cases draft <;> cases change <;>
    simp [contents, set, variant, StepChange.onto, StepChange.applies, StepChange.kept,
      StepChange.name, StepChange.toHttp, StepChange.toProduce, StepChange.toConsume,
      StepChange.toBatchProduce, StepChange.toBatchConsume]

/-- A draft can be built if each of its fields passes its check, and the step holds what the fields
come to. -/
theorem StepDraft.build_contents (draft : StepDraft) :
    draft.build.toOption.map (·.draft.contents) =
      draft.contents.mapM (StepChange.settle draft.variant) := by
  cases draft with
  | http d =>
    simp only [build, HttpDraft.build, contents, variant, List.mapM_cons, List.mapM_nil,
      StepChange.settle, Variant.name]
    cases d.url.truthy <;> cases Draft.seconds "HttpStep" d.timeout <;> rfl
  | produce d =>
    simp only [build, ProduceDraft.build, contents, variant, List.mapM_cons, List.mapM_nil,
      StepChange.settle, Variant.name]
    cases Draft.topicName "ProduceStep" d.topic <;> cases checkPartition d.partition <;>
      cases Draft.messageHeaders d.headers <;> cases Draft.seconds "ProduceStep" d.timeout <;> rfl
  | consume d =>
    simp only [build, ConsumeDraft.build, contents, variant, List.mapM_cons, List.mapM_nil,
      StepChange.settle, Variant.name]
    cases Draft.topicName "ConsumeStep" d.topic <;>
      cases OffsetReset.ofValue d.autoOffsetReset <;>
      cases Draft.seconds "ConsumeStep" d.timeout <;> rfl
  | batchProduce d =>
    simp only [build, BatchProduceDraft.build, contents, variant, List.mapM_cons, List.mapM_nil,
      StepChange.settle, Variant.name]
    cases Draft.topicName "BatchProduceStep" d.topic <;> cases d.messages.isEmpty <;>
      cases Draft.messageHeaders d.headers <;>
      cases Draft.seconds "BatchProduceStep" d.timeout <;> rfl
  | batchConsume d =>
    simp only [build, BatchConsumeDraft.build, contents, variant, List.mapM_cons, List.mapM_nil,
      StepChange.settle, Variant.name]
    by_cases hfew : d.messageCount < 1 <;> simp only [hfew, if_true, if_false] <;>
    cases Draft.topicName "BatchConsumeStep" d.topic <;>
      cases OffsetReset.ofValue d.autoOffsetReset <;>
      cases Draft.seconds "BatchConsumeStep" d.timeout <;> rfl

namespace StepChange

variable {variant : Variant} {x y z : StepChange}

theorem settle_timeout (variant : Variant) (t : Binary64) :
    (timeout (.float t)).settle variant =
      if t.atMost (Binary64.ofNat 0) = false then some (.timeout (.float t)) else none := by
  have hiff := Draft.seconds_iff variant.name t
  rw [settle]
  cases hseconds : Draft.seconds variant.name (.float t) with
  | error fault =>
    rw [if_neg (fun htime => by cases hseconds.symm.trans (hiff.mpr htime))]
    rfl
  | ok made =>
    obtain rfl := Draft.seconds_float hseconds
    rw [if_pos (hiff.mp hseconds)]
    rfl

/-- What has passed a check passes it again as it is; only a timeout may have come to nothing. -/
theorem settle_again (h : x.settle variant = some y) :
    y.settle variant = some y ∨ y.settle variant = none ∧ y.name = "timeout" := by
  -- only a timeout is not settled by being settled once
  cases x with
  | url given =>
    simp only [settle, Option.ite_none_right_eq_some, Option.some.injEq] at h
    obtain ⟨hgiven, rfl⟩ := h
    have hne : given.display ≠ "" := Value.display_ne_empty (by rintro rfl; cases hgiven)
    refine .inl ?_
    simp [settle, Value.truthy, hne]
    rfl
  | method s =>
    obtain rfl := Option.some.inj h
    exact .inl (congrArg (some ∘ method) (Text.upper_upper s))
  | timeout given =>
    obtain ⟨t, -, rfl⟩ := Option.map_eq_some_iff.mp h
    rw [settle_timeout]
    split_ifs
    · exact .inl rfl
    · exact .inr ⟨rfl, rfl⟩
  | topic given =>
    obtain ⟨name, hname, rfl⟩ := Option.map_eq_some_iff.mp h
    rw [settle, Draft.topicName_text (toOption_eq_some.mp hname)]
    exact .inl rfl
  | headers entries =>
    rw [settle] at h
    split_ifs at h with hhttp
    · obtain rfl := Option.some.inj h
      exact .inl (if_pos hhttp)
    · obtain ⟨headers, -, rfl⟩ := Option.map_eq_some_iff.mp h
      rw [settle, if_neg hhttp, Draft.messageHeaders_entries]
      exact .inl rfl
  | autoOffsetReset given =>
    obtain ⟨reset, -, rfl⟩ := Option.map_eq_some_iff.mp h
    rw [settle, OffsetReset.ofValue_text]
    exact .inl rfl
  | partition number =>
    obtain ⟨_, -, rfl⟩ := Option.map_eq_some_iff.mp h
    exact .inl h
  | messages pairs =>
    obtain ⟨-, hy⟩ := Option.ite_none_left_eq_some.mp h
    obtain rfl := Option.some.inj hy
    exact .inl h
  | messageCount count =>
    obtain ⟨-, hy⟩ := Option.ite_none_left_eq_some.mp h
    obtain rfl := Option.some.inj hy
    exact .inl h
  | _ =>
    obtain rfl := Option.some.inj h
    exact .inl h

theorem settle_name (h : x.settle variant = some y) : y.name = x.name := by
  cases x with
  | url given =>
    obtain ⟨-, hy⟩ := Option.ite_none_right_eq_some.mp h
    obtain rfl := Option.some.inj hy
    rfl
  | messages pairs =>
    obtain ⟨-, hy⟩ := Option.ite_none_left_eq_some.mp h
    obtain rfl := Option.some.inj hy
    rfl
  | messageCount count =>
    obtain ⟨-, hy⟩ := Option.ite_none_left_eq_some.mp h
    obtain rfl := Option.some.inj hy
    rfl
  | headers entries =>
    rw [settle] at h
    split_ifs at h
    · obtain rfl := Option.some.inj h
      rfl
    · obtain ⟨_, -, rfl⟩ := Option.map_eq_some_iff.mp h
      rfl
  | timeout _ | topic _ | partition _ | autoOffsetReset _ =>
    obtain ⟨_, -, rfl⟩ := Option.map_eq_some_iff.mp h
    rfl
  | _ =>
    obtain rfl := Option.some.inj h
    rfl

theorem settle_unique (h : x.settle variant = some y) (h' : y.settle variant = some z) : z = y := by
  rcases settle_again h with hsame | ⟨hnone, -⟩
  · exact Option.some.inj (h'.symm.trans hsame)
  · cases h'.symm.trans hnone

end StepChange

/-! Drafts by their fields. -/

theorem mapM_eq_some_iff {α β : Type} {f : α → Option β} {as : List α} {bs : List β} :
    as.mapM f = some bs ↔ List.Forall₂ (fun a b => f a = some b) as bs := by
  induction as generalizing bs with
  | nil => simp [eq_comm]
  | cons a as ih =>
    simp only [List.mapM_cons, Option.bind_eq_bind, Option.bind_eq_some_iff, ih,
      List.forall₂_cons_left_iff, pure, Option.some.injEq]
    constructor
    · rintro ⟨b, hb, bs, hbs, rfl⟩
      exact ⟨b, bs, hb, hbs, rfl⟩
    · rintro ⟨b, bs, hb, hbs, rfl⟩
      exact ⟨b, hb, bs, hbs, rfl⟩

theorem exists_left_of_forall₂ {α β : Type} {R : α → β → Prop} {as : List α} {bs : List β}
    (h : List.Forall₂ R as bs) {b : β} (hb : b ∈ bs) : ∃ a ∈ as, R a b := by
  induction h with
  | nil => cases hb
  | cons hab _ ih =>
    rcases List.mem_cons.mp hb with rfl | hb
    · exact ⟨_, List.mem_cons_self, hab⟩
    · obtain ⟨a, ha, hR⟩ := ih hb
      exact ⟨a, List.mem_cons_of_mem _ ha, hR⟩

theorem forall₂_comp {α β γ : Type} {R : α → β → Prop} {S : β → γ → Prop} {T : α → γ → Prop}
    {as : List α} {bs : List β} {cs : List γ} (h : List.Forall₂ R as bs) (h' : List.Forall₂ S bs cs)
    (hcomp : ∀ a b c, R a b → S b c → T a c) : List.Forall₂ T as cs := by
  induction h generalizing cs with
  | nil =>
    cases h'
    exact .nil
  | cons hab _ ih =>
    cases h' with
    | cons hbc h' => exact .cons (hcomp _ _ _ hab hbc) (ih h')

theorem Headers.entries_injective : Function.Injective Headers.entries := by
  refine List.map_injective_iff.mpr fun header other h => ?_
  obtain ⟨hname, hvalue⟩ := Prod.mk.inj h
  exact Prod.ext (Value.text.inj hname) hvalue

theorem MessageHeaders.entries_injective : Function.Injective MessageHeaders.entries := by
  intro headers others h
  have hread := Draft.messageHeaders_entries headers
  rw [h, Draft.messageHeaders_entries] at hread
  exact (Except.ok.inj hread).symm

theorem OffsetReset.text_injective : Function.Injective OffsetReset.text := by
  intro reset other h
  have hread := OffsetReset.ofValue_text reset
  rw [h, OffsetReset.ofValue_text] at hread
  exact (Except.ok.inj hread).symm

theorem Step.eq_of_contents {s other : Step} (hvariant : s.variant = other.variant)
    (h : s.draft.contents = other.draft.contents) : s = other := by
  cases s <;> cases other <;> try cases hvariant
  all_goals
    rename_i s other
    cases s
    cases other
    simp_all [draft, HttpStep.draft, ProduceStep.draft, ConsumeStep.draft, BatchProduceStep.draft,
      BatchConsumeStep.draft, StepDraft.contents, Headers.entries_injective.eq_iff,
      MessageHeaders.entries_injective.eq_iff, OffsetReset.text_injective.eq_iff]

/-- A draft builds a step just if each of its fields passes its check and comes to what the step
holds. -/
theorem StepDraft.build_iff {draft : StepDraft} {s : Step} :
    draft.build = .ok s ↔ s.variant = draft.variant ∧
      List.Forall₂ (fun x y => x.settle draft.variant = some y) draft.contents
        s.draft.contents := by
  have hbuild := draft.build_contents
  constructor
  · intro h
    rw [h] at hbuild
    exact ⟨variant_build h, mapM_eq_some_iff.mp hbuild.symm⟩
  · rintro ⟨hvariant, hfields⟩
    rw [mapM_eq_some_iff.mpr hfields] at hbuild
    obtain ⟨made, hmade, hcontents⟩ := Option.map_eq_some_iff.mp hbuild
    have hmade := toOption_eq_some.mp hmade
    rw [hmade, Step.eq_of_contents ((variant_build hmade).trans hvariant.symm) hcontents]

theorem StepDraft.exists_build {draft : StepDraft}
    (h : ∀ x ∈ draft.contents, ∃ y, x.settle draft.variant = some y) :
    ∃ s, draft.build = .ok s := by
  choose! made hmade using h
  have hsettled : draft.contents.mapM (StepChange.settle draft.variant) =
      some (draft.contents.map made) :=
    mapM_eq_some_iff.mpr (List.forall₂_map_right_iff.mpr (List.forall₂_same.mpr hmade))
  obtain ⟨s, hs, -⟩ := Option.map_eq_some_iff.mp (draft.build_contents.trans hsettled)
  exact ⟨s, toOption_eq_some.mp hs⟩

end Rehearsal
