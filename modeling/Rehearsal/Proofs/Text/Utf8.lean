import Mathlib.Tactic.SplitIfs
import Rehearsal.Proofs.Fallible
import Rehearsal.Text.Utf8

/-! Text written in UTF-8 is read back, by the reader that stops at a flaw and by the one that goes
on after it. -/

namespace Rehearsal.Utf8

variable {position : Nat} {rest : List UInt8}

theorem toNat_toUInt8 {n : Nat} (h : n < 256) : n.toUInt8.toNat = n := by
  rw [Nat.toUInt8_eq, UInt8.toNat_ofNat']
  exact Nat.mod_eq_of_lt h

theorem decodeFrom_single {n : Nat} (h : n < 0x80) :
    decodeFrom position none (n.toUInt8 :: rest) =
      (decodeFrom (position + 1) none rest).map (Char.ofNat n :: ·) := by
  simp only [decodeFrom, lead, toNat_toUInt8 (show n < 256 by omega), if_pos h]

theorem decodeFrom_opens {n : Nat} {p : Pending} (h : lead position n.toUInt8 = .opens p) :
    decodeFrom position none (n.toUInt8 :: rest) = decodeFrom (position + 1) (some p) rest := by
  simp only [decodeFrom, h]

theorem decodeFrom_last {p : Pending} {n : Nat} (hn : n < 256) (h : p.low ≤ n ∧ n ≤ p.high)
    (howed : p.owed = 1) :
    decodeFrom position (some p) (n.toUInt8 :: rest) =
      (decodeFrom (position + 1) none rest).map (Char.ofNat (64 * p.code + n % 64) :: ·) := by
  simp [decodeFrom, Pending.accepts, Pending.codeWith, toNat_toUInt8 hn, h, howed]

theorem decodeFrom_push {p : Pending} {n : Nat} (hn : n < 256) (h : p.low ≤ n ∧ n ≤ p.high)
    (howed : 1 < p.owed) :
    decodeFrom position (some p) (n.toUInt8 :: rest) =
      decodeFrom (position + 1)
        (some ⟨p.owed - 1, 0x80, 0xBF, 64 * p.code + n % 64, p.start, p.first⟩) rest := by
  have hmore : ¬p.owed ≤ 1 := by omega
  simp [decodeFrom, Pending.accepts, Pending.push, Pending.codeWith, toNat_toUInt8 hn, h, hmore]

/-! What a byte that begins a character of several bytes asks for. -/

theorem lead_two {n : Nat} (h : 2 ≤ n ∧ n < 0x20) : lead position (0xC0 + n).toUInt8 =
    .opens ⟨1, 0x80, 0xBF, n, position, (0xC0 + n).toUInt8⟩ := by
  rw [lead, toNat_toUInt8 (by omega), if_neg (by omega), if_neg (by omega), if_pos (by omega),
    Nat.add_sub_cancel_left]

theorem lead_three {n : Nat} (h : n < 16) : lead position (0xE0 + n).toUInt8 =
    .opens ⟨2, if n = 0 then 0xA0 else 0x80, if n = 13 then 0x9F else 0xBF, n, position,
      (0xE0 + n).toUInt8⟩ := by
  rcases Nat.eq_zero_or_pos n with rfl | hpos
  · rfl
  · by_cases hd : n = 13
    · subst hd
      rfl
    · rw [lead, toNat_toUInt8 (by omega), if_neg (by omega), if_neg (by omega),
        if_neg (by omega), if_neg (by omega), if_neg (by omega), if_pos (by omega),
        if_neg (by omega), if_neg hd, Nat.add_sub_cancel_left]

theorem lead_four {n : Nat} (h : n < 5) : lead position (0xF0 + n).toUInt8 =
    .opens ⟨3, if n = 0 then 0x90 else 0x80, if n = 4 then 0x8F else 0xBF, n, position,
      (0xF0 + n).toUInt8⟩ := by
  rcases Nat.eq_zero_or_pos n with rfl | hpos
  · rfl
  · by_cases hd : n = 4
    · subst hd
      rfl
    · rw [lead, toNat_toUInt8 (by omega), if_neg (by omega), if_neg (by omega),
        if_neg (by omega), if_neg (by omega), if_neg (by omega), if_neg (by omega),
        if_neg (by omega), if_pos (by omega), if_neg (by omega), if_neg hd,
        Nat.add_sub_cancel_left]

theorem decodeFrom_encodeChar (c : Char) (position : Nat) (rest : List UInt8) :
    ∃ next, decodeFrom position none (encodeChar c ++ rest) =
      (decodeFrom next none rest).map (c :: ·) := by
  have hvalid : c.toNat < 0xD800 ∨ (0xDFFF < c.toNat ∧ c.toNat < 0x110000) := c.valid
  have hback : ∀ n, n = c.toNat → Char.ofNat n = c := by
    intro n hn
    rw [hn, c.ofNat_toNat]
  simp only [encodeChar]
  -- one case for each number of bytes; in each the tail bits add up to the code again
  generalize c.toNat = n at hvalid hback
  split
  · refine ⟨position + 1, ?_⟩
    rw [List.singleton_append, decodeFrom_single ‹_›, hback n rfl]
  split
  · refine ⟨position + 1 + 1, ?_⟩
    rw [List.cons_append, List.singleton_append, decodeFrom_opens (lead_two (by omega)),
      decodeFrom_last (by omega) (by dsimp only; omega) rfl, hback _ (by dsimp only; omega)]
  split
  · refine ⟨position + 1 + 1 + 1, ?_⟩
    rw [List.cons_append, List.cons_append, List.singleton_append,
      decodeFrom_opens (lead_three (by omega)),
      decodeFrom_push (by omega) (by dsimp only; split <;> split <;> omega) (by dsimp only; omega),
      decodeFrom_last (by omega) (by dsimp only; omega) rfl, hback _ (by dsimp only; omega)]
  · refine ⟨position + 1 + 1 + 1 + 1, ?_⟩
    rw [List.cons_append, List.cons_append, List.cons_append, List.singleton_append,
      decodeFrom_opens (lead_four (by omega)),
      decodeFrom_push (by omega) (by dsimp only; split <;> split <;> omega) (by dsimp only; omega),
      decodeFrom_push (by omega) (by dsimp only; omega) (by dsimp only; omega),
      decodeFrom_last (by omega) (by dsimp only; omega) rfl, hback _ (by dsimp only; omega)]

theorem decodeFrom_encodeChars (cs : List Char) (position : Nat) :
    decodeFrom position none (encodeChars cs) = .ok cs := by
  induction cs generalizing position with
  | nil => rfl
  | cons c cs ih =>
    obtain ⟨next, hone⟩ := decodeFrom_encodeChar c position (encodeChars cs)
    rw [encodeChars, List.flatMap_cons, ← encodeChars, hone, ih]
    rfl

theorem decode_encode (s : String) : decode (encode s) = .ok s := by
  rw [decode, encode, decodeFrom_encodeChars]
  exact congrArg Except.ok s.ofList_toList

/-! Where a character has begun matters for what is told of a flaw only. -/

def Pending.startingAt (p : Pending) (start : Nat) : Pending := { p with start := start }

theorem lead_position (position : Nat) (byte : UInt8) :
    lead position byte =
      match lead 0 byte with
      | .single c => .single c
      | .opens p => .opens (p.startingAt position)
      | .wrong => .wrong := by
  unfold lead
  dsimp only
  split_ifs <;> rfl

/-- Bytes without a flaw are read alike by both readers. -/
theorem decodeLossyFrom_of_ok {bytes : List UInt8} {p : Option Pending} {start : Nat}
    {cs : List Char} (h : decodeFrom position (p.map (·.startingAt start)) bytes = .ok cs) :
    decodeLossyFrom p bytes = cs := by
  -- the strict reader has to have gone on at every byte
  induction bytes generalizing position p start cs with
  | nil =>
    cases p with
    | none =>
      cases h
      rfl
    | some p => cases h
  | cons byte rest ih =>
    cases p with
    | none =>
      simp only [Option.map_none, decodeFrom, lead_position position byte] at h
      rw [decodeLossyFrom]
      cases hlead : lead 0 byte with
      | single c =>
        simp only [hlead] at h
        obtain ⟨tail, htail, rfl⟩ := map_eq_ok.mp h
        exact congrArg (c :: ·) (@ih _ none 0 _ htail)
      | opens p =>
        simp only [hlead] at h
        exact ih (p := some p) h
      | wrong =>
        simp only [hlead] at h
        cases h
    | some p =>
      have haccepts : (p.startingAt start).accepts byte = p.accepts byte := rfl
      have howed : (p.startingAt start).owed = p.owed := rfl
      simp only [Option.map_some, decodeFrom, haccepts, howed] at h
      rw [decodeLossyFrom]
      split_ifs at h with haccepted hlast
      · obtain ⟨tail, htail, rfl⟩ := map_eq_ok.mp h
        rw [if_pos haccepted, if_pos hlast]
        exact congrArg (_ :: ·) (@ih _ none 0 _ htail)
      · rw [if_pos haccepted, if_neg hlast]
        exact ih (p := some (p.push byte)) h

theorem decodeLossy_encode (s : String) : decodeLossy (encode s) = s := by
  have hread : decodeLossyFrom none (encode s) = s.toList :=
    @decodeLossyFrom_of_ok 0 _ none 0 _ (decodeFrom_encodeChars s.toList 0)
  rw [decodeLossy, hread, s.ofList_toList]

end Rehearsal.Utf8
