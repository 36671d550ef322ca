import Mathlib.Data.List.Basic
import Mathlib.Tactic.SplitIfs
import Rehearsal.Text.Basic
import Rehearsal.Text.LetterCase

/-! What letter case leaves as it is. A blank stays one in lower case, so a text whose lower case
begins and ends with no blank has no blank at its own ends. A text in upper case stays as it is when
it is put in upper case again, and so does one in lower case: no letter that a table writes is one
that it changes. -/

namespace Rehearsal.Text

variable {c d : Char} {cs before : List Char} {s : String}

def blankCodes : List Nat :=
  [9, 10, 11, 12, 13, 28, 29, 30, 31, 32, 0x85, 0xA0, 0x1680, 0x2000, 0x2001, 0x2002, 0x2003, 0x2004,
    0x2005, 0x2006, 0x2007, 0x2008, 0x2009, 0x200A, 0x2028, 0x2029, 0x202F, 0x205F, 0x3000]

theorem isBlank_code (h : isBlank c = true) : c.toNat ∈ blankCodes := by
  simp only [isBlank, Bool.or_eq_true, Bool.and_eq_true, decide_eq_true_eq, beq_iff_eq] at h
  simp only [blankCodes, List.mem_cons, List.not_mem_nil, or_false]
  omega

theorem lowerChar_blank (h : isBlank c = true) : lowerChar c = [c] := by
  have hcodes : ∀ code ∈ blankCodes, lowerChar (Char.ofNat code) = [Char.ofNat code] := by decide
  have hc := hcodes c.toNat (isBlank_code h)
  rwa [Char.ofNat_toNat] at hc

theorem lowerAfter_blank (h : isBlank c = true) (rest : List Char) :
    lowerAfter before (c :: rest) = c :: lowerAfter (c :: before) rest := by
  have hcodes : ∀ code ∈ blankCodes, (code == 0x3A3) = false := by decide
  simp only [lowerAfter, hcodes _ (isBlank_code h), lowerChar_blank h]
  rfl

theorem lowerAfter_concat_blank (h : isBlank c = true) (before cs : List Char) :
    ∃ small, lowerAfter before (cs ++ [c]) = small ++ [c] := by
  induction cs generalizing before with
  | nil => exact ⟨[], lowerAfter_blank h []⟩
  | cons first rest ih =>
    obtain ⟨small, hsmall⟩ := ih (first :: before)
    rw [List.cons_append, lowerAfter, hsmall, ← List.append_assoc]
    exact ⟨_, rfl⟩

theorem trimBlank_eq_self (hfirst : cs.head?.any isBlank = false)
    (hlast : cs.getLast?.any isBlank = false) : trimBlank cs = cs := by
  have hkept : ∀ {cs : List Char}, cs.head?.any isBlank = false → cs.dropWhile isBlank = cs := by
    intro cs h
    cases cs with
    | nil => rfl
    | cons c rest => exact List.dropWhile_cons_of_neg (Bool.eq_false_iff.mp h)
  rw [List.getLast?_eq_head?_reverse] at hlast
  rw [trimBlank, hkept hfirst, hkept hlast, List.reverse_reverse]

theorem trim_of_lower {word : String} (hlower : lower s = word)
    (hfirst : word.toList.head?.any isBlank = false)
    (hlast : word.toList.getLast?.any isBlank = false) : trim s = s := by
  have hword : word.toList = lowerAfter [] s.toList := by rw [← hlower, lower, String.toList_ofList]
  rw [hword] at hfirst hlast
  rw [trim, trimBlank_eq_self, String.ofList_toList]
  · cases hs : s.toList with
    | nil => rfl
    | cons c rest =>
      refine Bool.eq_false_iff.mpr fun hblank => ?_
      rw [hs, lowerAfter_blank hblank] at hfirst
      exact Bool.false_ne_true (hfirst.symm.trans hblank)
  · cases hs : s.toList.getLast? with
    | none => rfl
    | some c =>
      refine Bool.eq_false_iff.mpr fun hblank => ?_
      obtain ⟨front, hfront⟩ := List.getLast?_eq_some_iff.mp hs
      obtain ⟨small, hsmall⟩ := lowerAfter_concat_blank hblank [] front
      rw [hfront, hsmall, List.getLast?_concat] at hlast
      exact Bool.false_ne_true (hlast.symm.trans hblank)

/-! Tables of letters. The letters that a table changes and those that it writes are compared as
numbers with a bit for each letter. -/

def CaseRun.codes (run : CaseRun) : List Nat :=
  (List.range ((run.last - run.first) / run.step + 1)).map fun i => run.first + i * run.step

theorem CaseRun.mem_codes {run : CaseRun} {code : Nat} (h : run.holds code = true) :
    code ∈ run.codes := by
  simp only [holds, Bool.and_eq_true, decide_eq_true_eq, beq_iff_eq] at h
  obtain ⟨⟨hfirst, hlast⟩, hstep⟩ := h
  refine List.mem_map.mpr ⟨(code - run.first) / run.step, List.mem_range.mpr ?_, ?_⟩
  · exact Nat.lt_succ_of_le (Nat.div_le_div_right (Nat.sub_le_sub_right hlast _))
  · have hsplit := Nat.div_add_mod (code - run.first) run.step
    rw [hstep, Nat.add_zero, Nat.mul_comm] at hsplit
    omega

/-- A set of numbers as one number, with a bit for each of them. -/
def bits : List Nat → Nat
  | [] => 0
  | n :: rest => Nat.pow 2 n ||| bits rest

theorem testBit_bits (ns : List Nat) (n : Nat) : (bits ns).testBit n = ns.contains n := by
  induction ns with
  | nil => simp [bits]
  | cons m rest ih =>
    rw [bits, Nat.testBit_or, Nat.pow_eq, Nat.testBit_two_pow, ih, List.contains_cons]
    simp [eq_comm, Bool.beq_eq_decide_eq]

section Table

variable {runs : List CaseRun} {expansions : List (Nat × List Nat)}

def changing (runs : List CaseRun) (expansions : List (Nat × List Nat)) : List Nat :=
  runs.flatMap (·.codes) ++ expansions.map (·.1)

def written (runs : List CaseRun) (expansions : List (Nat × List Nat)) : List Nat :=
  (runs.flatMap fun run => run.codes.map fun (code : Nat) => (code + run.shift).toNat) ++
    expansions.flatMap (·.2)

/-- No letter that a table writes is one that it changes. -/
structure Settled (runs : List CaseRun) (expansions : List (Nat × List Nat)) : Prop where
  apart : bits (changing runs expansions) &&& bits (written runs expansions) = 0
  valid : ∀ n ∈ written runs expansions, n.isValidChar

theorem Settled.not_mem_changing (h : Settled runs expansions) {n : Nat}
    (hn : n ∈ written runs expansions) : n ∉ changing runs expansions := by
  intro hchanging
  have hbit : (bits (changing runs expansions) &&& bits (written runs expansions)).testBit n =
      true := by
    rw [Nat.testBit_and, testBit_bits, testBit_bits]
    simp [hn, hchanging]
  rw [h.apart, Nat.zero_testBit] at hbit
  cases hbit

/-- What a table makes of a letter: the letter itself, or what a run or an expansion writes. -/
theorem changeCase_cases (runs : List CaseRun) (expansions : List (Nat × List Nat)) (c : Char) :
    changeCase runs expansions c = [c] ∨ c.toNat ∈ changing runs expansions ∧
      ∃ codes : List Nat, changeCase runs expansions c = codes.map Char.ofNat ∧
        ∀ n ∈ codes, n ∈ written runs expansions := by
  rw [changeCase]
  cases hrun : runs.find? (·.holds c.toNat) with
  | some run =>
    have hmem := List.mem_of_find?_eq_some hrun
    have hholds : run.holds c.toNat = true := by simpa using List.find?_some hrun
    have hcode := CaseRun.mem_codes hholds
    refine .inr ⟨List.mem_append_left _ (List.mem_flatMap.mpr ⟨run, hmem, hcode⟩), [_], rfl, ?_⟩
    exact List.forall_mem_singleton.mpr (List.mem_append_left _ (List.mem_flatMap.mpr
      ⟨run, hmem, List.mem_map.mpr ⟨c.toNat, hcode, rfl⟩⟩))
  | none =>
    cases hexpansion : expansions.find? (·.1 == c.toNat) with
    | some expansion =>
      have hmem := List.mem_of_find?_eq_some hexpansion
      have hcode : expansion.1 = c.toNat := by simpa using List.find?_some hexpansion
      refine .inr ⟨List.mem_append_right _ (List.mem_map.mpr ⟨_, hmem, hcode⟩), _, rfl, ?_⟩
      exact fun n hn => List.mem_append_right _ (List.mem_flatMap.mpr ⟨_, hmem, hn⟩)
    | none => exact .inl rfl

theorem Settled.changeCase_mem (h : Settled runs expansions)
    (hd : d ∈ changeCase runs expansions c) : changeCase runs expansions d = [d] := by
  rcases changeCase_cases runs expansions c with hsame | ⟨-, codes, hcodes, hwritten⟩
  · rw [hsame, List.mem_singleton] at hd
    rw [hd, hsame]
  · rw [hcodes] at hd
    obtain ⟨n, hn, rfl⟩ := List.mem_map.mp hd
    have hcode : (Char.ofNat n).toNat = n := by
      rw [Char.ofNat, dif_pos (h.valid n (hwritten n hn))]
      rfl
    rcases changeCase_cases runs expansions (Char.ofNat n) with hsame | ⟨hchanging, -⟩
    · exact hsame
    · rw [hcode] at hchanging
      exact absurd hchanging (h.not_mem_changing (hwritten n hn))

/-- What is changed at most by a settled table is in its last form at once. -/
theorem Settled.mem_fixed {change : Char → List Char} (h : Settled runs expansions)
    (hchange : ∀ c, change c = [c] ∨ change c = changeCase runs expansions c)
    (hd : d ∈ change c) : change d = [d] := by
  rcases hchange c with hsame | htable
  · rw [hsame, List.mem_singleton] at hd
    rw [hd, hsame]
  · rw [htable] at hd
    rcases hchange d with hsame | hagain
    · exact hsame
    · rw [hagain, h.changeCase_mem hd]

/-- Where a letter of ASCII follows a rule of its own and any other one a table, what becomes of it
is what the table makes of it with the run of the ASCII letters before it. -/
theorem changeCase_ascii (run : CaseRun) (runs : List CaseRun)
    (expansions : List (Nat × List Nat)) (hlast : run.last < 128) {ascii : Char → Char}
    (hascii : ∀ n < 128, ascii (Char.ofNat n) =
      if run.holds n then Char.ofNat ((n : Int) + run.shift).toNat else Char.ofNat n) (c : Char) :
    let made := if c.toNat < 128 then [ascii c] else changeCase runs expansions c
    made = [c] ∨ made = changeCase (run :: runs) expansions c := by
  intro made
  by_cases hc : c.toNat < 128
  · have hmade : made = [ascii c] := if_pos hc
    have hletter := hascii c.toNat hc
    rw [c.ofNat_toNat] at hletter
    rw [hmade, hletter]
    split_ifs with hholds
    · have hfirst : (run :: runs).find? (·.holds c.toNat) = some run := List.find?_cons_of_pos hholds
      exact .inr (by rw [changeCase, hfirst])
    · exact .inl rfl
  · have hmade : made = changeCase runs expansions c := if_neg hc
    have hbeyond : ¬run.holds c.toNat = true := by
      simp only [CaseRun.holds, Bool.and_eq_true, decide_eq_true_eq]
      omega
    have hskip : (run :: runs).find? (·.holds c.toNat) = runs.find? (·.holds c.toNat) :=
      List.find?_cons_of_neg hbeyond
    exact .inr (by rw [hmade, changeCase, changeCase, hskip])

end Table

/-! Upper case. -/

/-- The runs of letters whose capital is one letter, those of ASCII among them. -/
def capitalRuns : List CaseRun := ⟨97, 122, 1, -32⟩ :: upperRuns

theorem upper_settled : Settled capitalRuns upperExpansions :=
  ⟨by decide +kernel, by decide +kernel⟩

theorem upperChar_mem (h : d ∈ upperChar c) : upperChar d = [d] :=
  upper_settled.mem_fixed
    (changeCase_ascii ⟨97, 122, 1, -32⟩ upperRuns upperExpansions (by decide) (by decide +kernel)) h

theorem flatMap_upperChar (c : Char) : (upperChar c).flatMap upperChar = upperChar c := by
  rw [List.flatMap_congr fun _ => upperChar_mem, List.flatMap_singleton']

theorem upper_upper (s : String) : upper (upper s) = upper s := by
  simp only [upper, String.toList_ofList, List.flatMap_assoc, flatMap_upperChar]

/-! Lower case. The capital sigma is a letter that changes, so no text in lower case has one, and only
the small form of that letter depends on the letters around it. -/

/-- The runs of letters whose small form is one letter, those of ASCII among them. -/
def smallRuns : List CaseRun := ⟨65, 90, 1, 32⟩ :: lowerRuns

theorem lower_settled : Settled smallRuns lowerExpansions :=
  ⟨by decide +kernel, by decide +kernel⟩

theorem lowerChar_mem (h : d ∈ lowerChar c) : lowerChar d = [d] :=
  lower_settled.mem_fixed
    (changeCase_ascii ⟨65, 90, 1, 32⟩ lowerRuns lowerExpansions (by decide) (by decide +kernel)) h

theorem lowerAfter_mem (h : c ∈ lowerAfter before cs) : lowerChar c = [c] := by
  induction cs generalizing before with
  | nil => cases h
  | cons first rest ih =>
    rw [lowerAfter] at h
    rcases List.mem_append.mp h with hfirst | hrest
    · split at hfirst
      · rw [List.mem_singleton] at hfirst
        subst hfirst
        split <;> decide
      · exact lowerChar_mem hfirst
    · exact ih hrest

theorem lowerAfter_eq_self (h : ∀ c ∈ cs, lowerChar c = [c]) : lowerAfter before cs = cs := by
  induction cs generalizing before with
  | nil => rfl
  | cons c rest ih =>
    obtain ⟨hc, hrest⟩ := List.forall_mem_cons.mp h
    have hsigma : ¬(c.toNat == 0x3A3) = true := by
      intro heq
      have hcode : c = Char.ofNat 0x3A3 := by rw [← c.ofNat_toNat, beq_iff_eq.mp heq]
      rw [hcode] at hc
      revert hc
      decide
    rw [lowerAfter, if_neg hsigma, hc, ih hrest, List.singleton_append]

theorem lower_lower (s : String) : lower (lower s) = lower s := by
  rw [lower, lower, String.toList_ofList, lowerAfter_eq_self fun _ => lowerAfter_mem]

def IsAscii (s : String) : Prop := ∀ c ∈ s.toList, c.toNat < 128

instance (s : String) : Decidable (IsAscii s) :=
  decidable_of_iff (s.toList.all fun c => c.toNat < 128) (by simp [IsAscii])

theorem lower_ascii (h : IsAscii s) : lower s = String.ofList (s.toList.map Char.toLower) := by
  have hmap : ∀ before cs : List Char, (∀ c ∈ cs, c.toNat < 128) →
      lowerAfter before cs = cs.map Char.toLower := by
    intro before cs hcs
    induction cs generalizing before with
    | nil => rfl
    | cons c rest ih =>
      obtain ⟨hc, hrest⟩ := List.forall_mem_cons.mp hcs
      have hsigma : ¬(c.toNat == 0x3A3) = true := by
        rw [beq_iff_eq]
        omega
      rw [lowerAfter, if_neg hsigma, lowerChar, if_pos hc, ih _ hrest]
      rfl
  rw [lower, hmap [] s.toList h]

end Rehearsal.Text
