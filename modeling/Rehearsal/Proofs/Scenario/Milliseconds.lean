import Rehearsal.Proofs.Broker.Stored
import Rehearsal.Proofs.Scenario.Modifiers
import Rehearsal.Proofs.Time.Epoch

/-! Milliseconds that a scenario gives to a message or to its producer. Both pass through seconds in
doubles, so what arrives may be one less than what was given; it never is for eighths of a second. -/

namespace Rehearsal

theorem Broker.append_stamped (b : Broker) {out : Outgoing} {millis : Int}
    (hout : out.timestamp = some millis) {report : DeliveryReport}
    (h : (b.append out).1 = .ok report) :
    report.timestamp = millis ∧ (report.status = .persisted →
      ∃ message ∈ (b.append out).2.messages out.topic, message.timestamp = millis ∧
        message.partition = report.partition ∧ (message.offset : Int) = report.offset) := by
  simp only [append, hout, Option.getD_some] at h ⊢
  cases hplace : (b.createTopic out.topic 0).place
      ((b.createTopic out.topic 0).partitions out.topic).length out with
  | error fault =>
    rw [hplace] at h
    cases h
  | ok partition =>
    rw [hplace] at h
    have hlt := place_lt hplace
    dsimp only at h ⊢
    split at h
    · cases h
      let made := (b.createTopic out.topic 0).takeTurn out
      let message : Message :=
        ⟨out.topic, partition, (made.log out.topic partition).length, out.key, out.value,
          out.headers, millis⟩
      refine ⟨rfl, fun _ => ⟨message, ?_, rfl, rfl, rfl⟩⟩
      refine (Broker.messages_perm _ _).mem_iff.mpr ?_
      rw [partitions_keep, if_pos rfl]
      have hwidth : partition < (((b.createTopic out.topic 0).takeTurn out).partitions
          out.topic).length := by
        simpa only [partitions, topics_takeTurn] using hlt
      exact (flatten_modify _ _ hwidth _).mem_iff.mpr (List.mem_append_right _ List.mem_cons_self)
    · rename_i hstatus
      cases h
      exact ⟨rfl, fun hpersisted => absurd hpersisted hstatus⟩

namespace Millis

theorem kept_nonneg {n : Int} (hn : 0 ≤ n) : 0 ≤ kept n := by
  rw [kept, Binary64.towardZero_of_nonneg (product_nonneg hn)]
  exact Int.natCast_nonneg _

/-- Whatever the number, no more is lost than one and a `2 ^ 51`th part. -/
theorem kept_error {n : Int} (h : |(n : ℚ)| < 2 ^ (1000 : Int)) :
    |(kept n : ℚ) - n| ≤ 1 + |(n : ℚ)| / 2 ^ 51 := by
  have hcut := (Binary64.sub_towardZero (product n)).1.le
  rw [abs_sub_comm] at hcut
  exact (abs_sub_le _ (product n) _).trans (add_le_add hcut (product_error h))

end Millis

namespace Engine

variable {e : Engine} {s : ProduceStep}

theorem construct_timestamp (hb : e.stage = .building) (hc : e.current = some (.produce s))
    (hs : s.Passes) {n : Int} {t : Instant} (ht : Instant.ofEpochMillis n = .ok t) :
    e.construct (.timestamp (.int n)) =
      .ok (e.setStep (.produce { s with timestamp := some t })) := by
  have hcontent : (Modifier.timestamp (.int n)).content = .ok (some t) := by
    simp only [Modifier.content, Construction.time, ht]
    rfl
  refine (construct_modifier hb hc (.timestamp (.int n))).mpr ⟨some t, ?_, rfl⟩
  exact (Modifier.suits_plain rfl).mpr ⟨hcontent, ⟨hs.topic, hs.partition, hs.timeout⟩, trivial⟩

theorem construct_linger (hb : e.stage = .building) (hc : e.current = some (.produce s))
    (hs : s.Passes) (ht : s.tuning.check = .ok s.tuning) (time : Value)
    (hcount : ProducerTuning.checkCount "linger_ms" (TuningChange.lingerMillis time) = .ok ()) :
    e.construct (.tune (.linger time)) = .ok (e.setStep (.produce
      { s with tuning := { s.tuning with lingerMs := TuningChange.lingerMillis time } })) := by
  obtain ⟨hall, -⟩ := (s.check_tuning_iff s.tuning).mp ht
  refine (construct_modifier hb hc (.tune (.linger time))).mpr
    ⟨TuningChange.lingerMillis time, ⟨rfl, hs.topic, fun f hf => ?_⟩, rfl⟩
  cases f with
  | linger => exact hcount
  | timeout => exact hs.timeout
  | partition => exact hs.partition
  | compression => exact hall .compression rfl
  | acks => exact hall .acks rfl
  | batchSize => exact hall .batchSize rfl
  | retries => exact hall .retries rfl
  | idempotence => trivial
  | _ => rcases hf with h | h | h | ⟨-, h⟩ <;> cases h

/-- What becomes of milliseconds. A number of them that is a time of the calendar is accepted for a
message, and any that make less than a billion days are for the lingering of its producer. The
message is stored and reported with, and the producer lingers for, what is left of the number: up to
`2 ^ 51` the number itself, exactly if the product of its seconds and a thousand reaches it as
doubles, else the number next to it on the side of zero. Eighths of a second are kept as they are. -/
theorem milliseconds_kept (hb : e.stage = .building) (hc : e.current = some (.produce s))
    (hs : s.Passes) (ht : s.tuning.check = .ok s.tuning) :
    (∀ n : Int, -62135596800000 ≤ n → n ≤ 253402300799999 → ∃ t,
      e.construct (.timestamp (.int n)) =
        .ok (e.setStep (.produce { s with timestamp := some t })) ∧
      t.epochMillis = Millis.kept n ∧
      ∀ out, encodeMessage s.topic s.headers s.jsonOptions s.partition (some t) s.key s.value =
        .ok out → ∀ (b : Broker) report, (b.append out).1 = .ok report →
          report.timestamp = Millis.kept n ∧ (report.status = .persisted →
            ∃ message ∈ (b.append out).2.messages out.topic,
              message.timestamp = Millis.kept n ∧ message.partition = report.partition ∧
                (message.offset : Int) = report.offset)) ∧
    (∀ n : Int, 0 ≤ n → n < 1000000000 * 86400000 →
      e.construct (.tune (.linger (.span ⟨1000 * n⟩))) = .ok (e.setStep (.produce
        { s with tuning := { s.tuning with lingerMs := .int (Millis.kept n) } }))) ∧
    (∀ n : Int, n.natAbs < 2 ^ 51 →
      Millis.kept n = n ∧ |(n : ℚ)| ≤ |Millis.product n| ∨
        Millis.kept n = n - n.sign ∧ |Millis.product n| < |(n : ℚ)|) ∧
    (∀ n : Int, |(n : ℚ)| < 2 ^ (1000 : Int) →
      |(Millis.kept n : ℚ) - n| ≤ 1 + |(n : ℚ)| / 2 ^ 51) ∧
    ∀ n : Int, 125 ∣ n → n.natAbs < 2 ^ 53 → Millis.kept n = n := by
  refine ⟨fun n hlow hhigh => ?_, fun n hn hlarge => ?_, fun n => Millis.kept_cases,
    fun n => Millis.kept_error, fun n => Millis.kept_of_dvd⟩
  · obtain ⟨t, hmade, hmillis, -⟩ := Instant.ofEpochMillis_ok hlow hhigh
    refine ⟨t, construct_timestamp hb hc hs hmade, hmillis, fun out hout b report happend => ?_⟩
    refine b.append_stamped ?_ happend
    obtain ⟨key, -, hout⟩ := bind_eq_ok.mp hout
    obtain ⟨value, -, hout⟩ := bind_eq_ok.mp hout
    cases hout
    exact congrArg some hmillis
  · have hsize : |(n : ℚ)| < 2 ^ (1000 : Int) := by
      have hcast : (n : ℚ) < 1000000000 * 86400000 := by exact_mod_cast hlarge
      rw [abs_of_nonneg (by exact_mod_cast hn)]
      refine hcast.trans_le ?_
      calc (1000000000 * 86400000 : ℚ) ≤ 2 ^ (57 : Int) := by norm_num
        _ ≤ 2 ^ (1000 : Int) := zpow_le_zpow_right₀ (by norm_num) (by decide)
    have hlinger := construct_linger hb hc hs ht (.span ⟨1000 * n⟩) (by
      rw [Millis.lingerMillis_span hsize, ProducerTuning.checkCount_int]
      exact Millis.kept_nonneg hn)
    rwa [Millis.lingerMillis_span hsize] at hlinger

/-- Thirteen eighths of a second are kept, by a message and by its producer. -/
theorem milliseconds_kept_eighths :
    let s : ProduceStep :=
      { topic := "times", value := .text "v", key := .null, headers := [], partition := none
        timestamp := none, timeout := Binary64.ofNat 30, tuning := .plain
        bootstrapServers := none, auth := none, jsonOptions := [] }
    let e : Engine := { settings := {}, current := some (.produce s) }
    ∃ t, e.construct (.timestamp (.int 1625)) =
        .ok (e.setStep (.produce { s with timestamp := some t })) ∧ t.epochMillis = 1625 ∧
      e.construct (.tune (.linger (.span ⟨1625000⟩))) = .ok (e.setStep (.produce
        { s with tuning := { s.tuning with lingerMs := .int 1625 } })) := by
  intro s e
  have hs : s.Passes := ⟨toOption_eq_some.mp (by decide +kernel), rfl, rfl⟩
  obtain ⟨htimes, hlingers, -, -, hexact⟩ := milliseconds_kept (e := e) (s := s) rfl rfl hs rfl
  have hkept : Millis.kept 1625 = 1625 := hexact 1625 (by decide) (by decide)
  obtain ⟨t, hmade, hmillis, -⟩ := htimes 1625 (by decide) (by decide)
  have hlinger := hlingers 1625 (by decide) (by decide)
  rw [hkept] at hmillis hlinger
  exact ⟨t, hmade, hmillis, hlinger⟩

/-- Of 1001 milliseconds one is lost, by a message and by its producer. -/
theorem milliseconds_lost :
    let s : ProduceStep :=
      { topic := "times", value := .text "v", key := .null, headers := [], partition := none
        timestamp := none, timeout := Binary64.ofNat 30, tuning := .plain
        bootstrapServers := none, auth := none, jsonOptions := [] }
    let e : Engine := { settings := {}, current := some (.produce s) }
    ∃ t, e.construct (.timestamp (.int 1001)) =
        .ok (e.setStep (.produce { s with timestamp := some t })) ∧ t.epochMillis = 1000 ∧
      e.construct (.tune (.linger (.span ⟨1001000⟩))) = .ok (e.setStep (.produce
        { s with tuning := { s.tuning with lingerMs := .int 1000 } })) := by
  intro s e
  have hs : s.Passes := ⟨toOption_eq_some.mp (by decide +kernel), rfl, rfl⟩
  have hlinger : TuningChange.lingerMillis (.span ⟨1001000⟩) = .int 1000 := by
    have hcut : ((Span.totalSeconds ⟨1001000⟩ * Binary64.ofNat 1000).truncate?).getD 0 = 1000 := by
      decide +kernel
    rw [TuningChange.lingerMillis, hcut]
  have htime : Instant.ofEpochMillis 1001 = .ok ⟨1001000, some 0⟩ :=
    toOption_eq_some.mp (by decide +kernel)
  refine ⟨⟨1001000, some 0⟩, construct_timestamp rfl rfl hs htime, by decide +kernel, ?_⟩
  have hmade := construct_linger (e := e) (s := s) rfl rfl hs rfl (.span ⟨1001000⟩)
    (by rw [hlinger, ProducerTuning.checkCount_int]; decide)
  rwa [hlinger] at hmade

end Engine

end Rehearsal
