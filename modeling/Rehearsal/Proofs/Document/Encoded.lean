import Rehearsal.Proofs.Codec.RoundTrip
import Rehearsal.Proofs.Document.Lookup
import Rehearsal.Proofs.Json.Limit

/-! A document is the same in memory, as the bytes that carry it and as the text of these bytes. A
value is not carried only if an integer in it is longer than the longest that is written. -/

namespace Rehearsal

namespace Json

variable {style : Style} {fractions : Fractions} {fuel : Nat} {c : Char} {cs rest : List Char}
  {v : Value}

/-- The scalars of JSON, integers of any length among them. -/
inductive Scalar : Value → Prop
  | null : Scalar .null
  | bool (b : Bool) : Scalar (.bool b)
  | int (n : Int) : Scalar (.int n)
  | text (s : String) : Scalar (.text s)

theorem isBlank_digit (h : c.isDigit = true) : Text.isBlank c = false := by
  have hlow : 48 ≤ c.toNat := (Bool.and_eq_true_iff.mp h).1 |> of_decide_eq_true
  have hhigh : c.toNat ≤ 57 := (Bool.and_eq_true_iff.mp h).2 |> of_decide_eq_true
  simp only [Text.isBlank, Bool.or_eq_false_iff, Bool.and_eq_false_iff, decide_eq_false_iff_not,
    beq_eq_false_iff_ne]
  omega

theorem readValue_not_blank (h : readValue fractions fuel (c :: cs) = .ok (v, rest)) :
    Text.isBlank c = false := by
  cases fuel with
  | zero => cases h
  | succ fuel =>
    rw [readValue.eq_def] at h
    dsimp only at h
    split at h
    -- a digit; every other form begins with a character of its own
    case h_11 =>
      rw [readNumber] at h
      split at h
      · cases h
      · rename_i hwhole
        unfold takeWhole at hwhole
        split at hwhole
        · rename_i hcs
          cases hcs
          rfl
        · rename_i hcs
          cases hcs
          split at hwhole
          · rename_i hdigit
            exact isBlank_digit hdigit
          · cases hwhole
        · rename_i hcs
          cases hcs
    all_goals
      rename_i hcs
      cases hcs
      rfl

theorem loadText_of_readsAs {s : String} (h : ReadsAs .exact s.toList v) (hnull : v ≠ .null) :
    Document.loadText s = .ok v := by
  obtain ⟨c, more, hcs, -⟩ := h.starts
  have hread := h.read _ [] (Nat.le_refl _) nofun
  rw [hcs] at hread
  have hblank : Text.isBlankText s = false := by
    rw [Text.isBlankText, hcs, List.all_cons, readValue_not_blank hread, Bool.false_and]
  rw [Document.loadText, hblank, read_of_readsAs h]
  cases v with
  | null => exact absurd rfl hnull
  | _ => rfl

/-! An integer that is too long to be written keeps a value from being written. -/

theorem tree_leaf (h : v.Tree Scalar) (hshort : ¬HasLongInt v) : v.Tree Leaf := by
  refine h.of_positions fun segments w hat _ hscalar => ?_
  cases hscalar with
  | null => exact .null
  | bool b => exact .bool b
  | int n =>
    by_contra hlong
    exact hshort ⟨segments, n, hat, fun hn => hlong (.int hn)⟩
  | text s => exact .text s

theorem not_long (h : v.Tree Leaf) : ¬HasLongInt v := by
  rintro ⟨segments, n, hat, hlong⟩
  cases h.at hat with
  | leaf _ hleaf =>
    cases hleaf with
    | int hn => exact hlong hn

theorem scalar_cases {depth : Nat} (hs : v.isScalar = true) (h : Scalar v) :
    WrittenOrLong style depth v := by
  cases h with
  | null => exact .inl ⟨not_hasLongInt hs (by simp), _, by rw [write]⟩
  | bool b => exact .inl ⟨not_hasLongInt hs (by simp), _, by rw [write]⟩
  | int n => exact writtenOrLong_int n
  | text s => exact .inl ⟨not_hasLongInt hs (by simp), _, by rw [write]⟩

theorem write_long (h : v.Tree Scalar) (hlong : HasLongInt v) (depth : Nat) :
    write .plain depth v = .error tooLong := by
  have hunsorted : Style.plain.sortKeys = false := rfl
  rcases write_cases hunsorted scalar_cases h depth with ⟨hshort, -⟩ | ⟨-, hwrite⟩
  · exact absurd hlong hshort
  · exact hwrite

end Json

namespace Document

open Value Codec Json

variable {t document other : Value}

theorem evaluate_congr (h : load document = load other) (path : Path) :
    evaluate document path = evaluate other path := by
  rw [evaluate, evaluate, h]

theorem load_bytes (s : String) : load (.bytes (Utf8.encode s)) = load (.text s) := by
  rw [load, Utf8.decode_encode, load]

theorem memory_cases (h : t.Tree Scalar) : t = .null ∨ (∃ s, t = .text s) ∨ t.InMemory := by
  cases h with
  | leaf _ hscalar =>
    cases hscalar with
    | null => exact .inl rfl
    | text s => exact .inr (.inl ⟨s, rfl⟩)
    | bool b => exact .inr (.inr ⟨nofun, rfl, nofun⟩)
    | int n => exact .inr (.inr ⟨nofun, rfl, nofun⟩)
  | list _ => exact .inr (.inr ⟨nofun, rfl, nofun⟩)
  | map _ _ => exact .inr (.inr ⟨nofun, rfl, nofun⟩)

theorem load_encoded (h : t.Tree Scalar) (hm : t.InMemory) (hshort : ¬HasLongInt t) :
    ∃ s, encodeWith t [] = .ok (some (Utf8.encode s)) ∧ load (.text s) = load t := by
  obtain ⟨s, w, hencode, hread, -, hkept⟩ :=
    encode_json .exact (List.forall_mem_nil LayoutOption) hm h.opened (tree_leaf h hshort)
  obtain rfl : w = t := hkept .plain rfl rfl
  exact ⟨s, hencode, (loadText_of_readsAs hread hm.1).trans (load_tree h hm).symm⟩

theorem encode_long (h : t.Tree Scalar) (hlong : HasLongInt t) :
    encodeWith t [] = .error tooLong := by
  rcases memory_cases h with rfl | ⟨s, rfl⟩ | hm
  · obtain ⟨segments, n, hat, -⟩ := hlong
    cases (hat.of_scalar rfl).2
  · obtain ⟨segments, n, hat, -⟩ := hlong
    cases (hat.of_scalar rfl).2
  · have hplain : Style.ofOptions [] = .ok .plain := rfl
    rw [encodeWith_json hm, hplain, ok_bind, jsonText, h.opened, Json.text, write_long h hlong]
    rfl

end Document

end Rehearsal
