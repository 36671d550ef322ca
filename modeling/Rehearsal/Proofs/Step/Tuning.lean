import Rehearsal.Proofs.Fallible
import Rehearsal.Step.Tuning

/-! What the check of a tuning asks of its settings, each by itself: a compression and a way of
confirming that there are, and counts that are not below zero. -/

namespace Rehearsal

theorem Value.isBelow_zero (k : Int) : (Value.int k).isBelow (.int 0) = .ok (decide (k < 0)) := by
  have hcompare : ((Decimal.ofInt k).compare? (.ofInt 0) == some .lt) = decide (k < 0) := by
    rcases Int.lt_trichotomy k 0 with hk | rfl | hk
    · simp [Decimal.ofInt, Decimal.compare?, hk, Int.ne_of_lt hk]
    · decide
    · simp [Decimal.ofInt, Decimal.compare?, Int.ne_of_gt hk, Int.not_lt.mpr (Int.le_of_lt hk)]
  have hless : (Value.int k).less (.int 0) = .ok (decide (k < 0)) := by
    simp [less, number?, mixesNan, hcompare]
  rw [isBelow, hless]
  rfl

def Value.IsCount (value : Value) : Prop := value = .null ∨ value.isBelow (.int 0) = .ok false

theorem Value.isCount_int (k : Int) : (Value.int k).IsCount ↔ 0 ≤ k := by
  simp [IsCount, isBelow_zero]

namespace ProducerTuning

variable (t made : ProducerTuning)

theorem isNull_iff (value : Value) : isNull value = true ↔ value = .null := by
  cases value <;> simp [isNull]

theorem knowsCompression_iff (value : Value) : knowsCompression value = true ↔
    value = .null ∨ ∃ name ∈ compressionTypes, value.text? = some name := by
  rw [knowsCompression, Bool.or_eq_true, isNull_iff, Option.any_eq_true]
  simp only [List.contains_iff_mem, and_comm]

theorem knowsAcks_iff (value : Value) :
    knowsAcks value = true ↔ value = .null ∨ value.display ∈ ackModes := by
  rw [knowsAcks, Bool.or_eq_true, isNull_iff, List.contains_iff_mem]

theorem checkCount_iff (field : String) (value : Value) :
    checkCount field value = .ok () ↔ value.IsCount := by
  simp only [checkCount, Value.IsCount]
  by_cases hnull : value = .null
  · simp [hnull, isNull]
  · have hgiven : ¬ isNull value = true := fun h => hnull ((isNull_iff value).mp h)
    rw [if_neg hgiven]
    cases value.isBelow (.int 0) with
    | error fault => simp [hnull]
    | ok below => cases below <;> simp [hnull]

theorem checkCount_int (field : String) (k : Int) : checkCount field (.int k) = .ok () ↔ 0 ≤ k :=
  (checkCount_iff field _).trans (Value.isCount_int k)

/-- What is asked of a tuning. -/
structure Valid : Prop where
  compression : t.compression = .null ∨
    ∃ name ∈ compressionTypes, t.compression.text? = some name
  acks : t.acks = .null ∨ t.acks.display ∈ ackModes
  batchSize : t.batchSize.IsCount
  lingerMs : t.lingerMs.IsCount
  retries : t.retries.IsCount

theorem check_iff : t.check = .ok made ↔ t.Valid ∧ made = t := by
  rw [check]
  constructor
  · intro h
    split at h
    · cases h
    · rename_i hcompression
      split at h
      · cases h
      · rename_i hacks
        obtain ⟨_, hbatch, h⟩ := bind_eq_ok.mp h
        obtain ⟨_, hlinger, h⟩ := bind_eq_ok.mp h
        obtain ⟨_, hretries, h⟩ := bind_eq_ok.mp h
        cases h
        rw [Bool.not_eq_true, Bool.not_eq_false'] at hcompression hacks
        exact ⟨⟨(knowsCompression_iff _).mp hcompression, (knowsAcks_iff _).mp hacks,
          (checkCount_iff _ _).mp hbatch, (checkCount_iff _ _).mp hlinger,
          (checkCount_iff _ _).mp hretries⟩, rfl⟩
  · rintro ⟨h, rfl⟩
    simp only [(knowsCompression_iff _).mpr h.compression, (knowsAcks_iff _).mpr h.acks,
      (checkCount_iff _ _).mpr h.batchSize, (checkCount_iff _ _).mpr h.lingerMs,
      (checkCount_iff _ _).mpr h.retries, Bool.not_true, ok_bind]
    rfl

end ProducerTuning

end Rehearsal
