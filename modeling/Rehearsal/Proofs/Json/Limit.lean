import Rehearsal.Proofs.Json.RoundTrip

/-! Which trees are written. An integer that is longer than the longest one that is written keeps a
tree from being written, wherever it stands, and nothing else does if every other scalar is written. -/

namespace Rehearsal.Json

open Value

variable {style : Style} {depth : Nat} {v : Value} {leaf : Value → Prop}

/-- Whether an integer that is too long to be written stands in a value. -/
def HasLongInt (v : Value) : Prop := ∃ segments n, v.At segments (.int n) ∧ ¬WritableInt n

theorem hasLongInt_int {n : Int} : HasLongInt (.int n) ↔ ¬WritableInt n := by
  constructor
  · rintro ⟨segments, m, hat, hm⟩
    cases (hat.of_scalar rfl).2
    exact hm
  · exact fun hn => ⟨[], n, .here _, hn⟩

theorem not_hasLongInt (hs : v.isScalar = true) (hv : ∀ n, v ≠ .int n) : ¬HasLongInt v := by
  rintro ⟨segments, n, hat, -⟩
  exact hv n (hat.of_scalar hs).2.symm

theorem hasLongInt_list {items : List Value} :
    HasLongInt (.list items) ↔ ∃ item ∈ items, HasLongInt item := by
  constructor
  · rintro ⟨segments, n, hat, hn⟩
    cases hat with
    | index hget hrest => exact ⟨_, List.mem_of_getElem? hget, _, n, hrest, hn⟩
  · rintro ⟨item, hitem, segments, n, hat, hn⟩
    obtain ⟨i, hi⟩ := List.mem_iff_getElem?.mp hitem
    exact ⟨.index i :: segments, n, .index hi hat, hn⟩

theorem hasLongInt_fields {fields : List (String × Value)} :
    HasLongInt (ofFields fields) ↔ ∃ field ∈ fields, HasLongInt field.2 := by
  constructor
  · rintro ⟨segments, n, hat, hn⟩
    rcases hat.of_ofFields with ⟨-, hnone⟩ | ⟨name, child, rest, -, hmem, hrest⟩
    · cases hnone
    · exact ⟨_, hmem, rest, n, hrest, hn⟩
  · rintro ⟨field, hfield, segments, n, hat, hn⟩
    exact ⟨.field field.1 :: segments, n, hat.under hfield, hn⟩

/-- Whether a value is written, or else has such an integer in it and is refused for it. -/
def WrittenOrLong (style : Style) (depth : Nat) (v : Value) : Prop :=
  (¬HasLongInt v ∧ ∃ text, write style depth v = .ok text) ∨
    (HasLongInt v ∧ write style depth v = .error tooLong)

theorem writtenOrLong_int (n : Int) : WrittenOrLong style depth (.int n) := by
  rw [WrittenOrLong, hasLongInt_int, write, writeInt]
  by_cases hn : WritableInt n
  · rw [if_neg (Nat.not_lt.mpr hn)]
    exact .inl ⟨not_not.mpr hn, _, rfl⟩
  · rw [if_pos (Nat.not_le.mp hn)]
    exact .inr ⟨hn, rfl⟩

theorem allOf_cases {α : Type} {parts : List α} {value : α → Value}
    (shape : α → List Char → List Char)
    (h : ∀ part ∈ parts, WrittenOrLong style depth (value part)) :
    let all := allOf (parts.map fun part => (write style depth (value part)).map (shape part))
    ((¬∃ part ∈ parts, HasLongInt (value part)) ∧ ∃ texts, all = .ok texts) ∨
      ((∃ part ∈ parts, HasLongInt (value part)) ∧ all = .error tooLong) := by
  induction parts with
  | nil => exact .inl ⟨by simp, [], rfl⟩
  | cons part rest ih =>
    intro all
    have hrest := ih fun other hother => h other (List.mem_cons_of_mem _ hother)
    rcases h part List.mem_cons_self with ⟨hshort, text, hwrite⟩ | ⟨hlong, hwrite⟩
    · have hall : all = (allOf (rest.map fun part =>
          (write style depth (value part)).map (shape part))).map (shape part text :: ·) := by
        simp only [all, List.map_cons, hwrite]
        rfl
      rcases hrest with ⟨hnone, texts, hok⟩ | ⟨⟨other, hother, hlong⟩, herror⟩
      · refine .inl ⟨?_, shape part text :: texts, by rw [hall, hok]; rfl⟩
        rintro ⟨other, hother, hlong⟩
        rcases List.mem_cons.mp hother with rfl | hother
        · exact hshort hlong
        · exact hnone ⟨other, hother, hlong⟩
      · refine .inr ⟨⟨other, List.mem_cons_of_mem _ hother, hlong⟩, ?_⟩
        rw [hall, herror]
        rfl
    · refine .inr ⟨⟨part, List.mem_cons_self, hlong⟩, ?_⟩
      simp only [all, List.map_cons, hwrite]
      rfl

theorem WrittenOrLong.map_written {all : Except Fault (List (List Char))} {long : Prop}
    (close : List (List Char) → List Char) (hlong : HasLongInt v ↔ long)
    (hwrite : write style depth v = all.map close)
    (h : (¬long ∧ ∃ texts, all = .ok texts) ∨ (long ∧ all = .error tooLong)) :
    WrittenOrLong style depth v := by
  rw [WrittenOrLong, hlong, hwrite]
  rcases h with ⟨hshort, texts, rfl⟩ | ⟨hlong, rfl⟩
  · exact .inl ⟨hshort, close texts, rfl⟩
  · exact .inr ⟨hlong, rfl⟩

/-- A tree is written, in the order in which it is, exactly if no such integer stands in it. -/
theorem write_cases (hsort : style.sortKeys = false)
    (hleaf : ∀ {v depth}, v.isScalar = true → leaf v → WrittenOrLong style depth v)
    (h : v.Tree leaf) (depth : Nat) : WrittenOrLong style depth v := by
  induction h generalizing depth with
  | leaf hs hl => exact hleaf hs hl
  | @list items _ ih =>
    refine .map_written (enclose style depth '[' ']') hasLongInt_list ?_
      (allOf_cases (fun _ => id) fun item hitem => ih item hitem (depth + 1))
    rw [write, writeItems_eq_map]
    simp only [Except.map_id, id]
  | @map fields _ _ ih =>
    refine .map_written (enclose style depth '\x7b' '\x7d') hasLongInt_fields ?_
      (allOf_cases (fun field => (writeText style.asciiOnly field.1 ++ style.between.2.toList ++ ·))
        fun field hfield => ih field hfield (depth + 1))
    have hunsorted : ¬style.sortKeys = true := hsort ▸ Bool.false_ne_true
    rw [Value.ofFields, write, writeEntries_eq_map, arrange, if_neg hunsorted]
    dsimp only
    rw [List.map_map]
    rfl

end Rehearsal.Json
