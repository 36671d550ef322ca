import Mathlib.Data.List.Perm.Basic
import Mathlib.Tactic.Choose
import Rehearsal.Proofs.Json.Container
import Rehearsal.Proofs.Value.Alike
import Rehearsal.Proofs.Value.Sorting

/-! What is written of a tree is read as that tree again. A style may sort the names, escape other
scripts and break lines; sorting moves the entries of mappings, the rest changes nothing. -/

namespace Rehearsal.Json

/-- Whether a style puts nothing but spaces and line breaks between tokens. -/
structure Style.Spaced (style : Style) : Prop where
  separators : style.separators = none
  indent : ∀ unit, style.indent = some unit → Gap unit.toList

theorem spaced_plain : Style.plain.Spaced := ⟨rfl, nofun⟩

/-- The scalars that JSON has a form for and that are read again. -/
inductive Leaf : Value → Prop
  | null : Leaf .null
  | bool (b : Bool) : Leaf (.bool b)
  | int {n : Int} : WritableInt n → Leaf (.int n)
  | text (s : String) : Leaf (.text s)

variable {style : Style} {fractions : Fractions} {cs : List Char} {v : Value}

theorem Style.Spaced.lineBreak (h : style.Spaced) (depth : Nat) : Gap (style.lineBreak depth) := by
  intro c hc
  rw [Style.lineBreak] at hc
  split at hc
  · cases hc
  · rename_i unit hunit
    rcases List.mem_cons.mp hc with rfl | hc
    · rfl
    · obtain ⟨_, hunits, hc⟩ := List.mem_flatten.mp hc
      rw [List.eq_of_mem_replicate hunits] at hc
      exact h.indent unit hunit c hc

theorem Style.Spaced.between (h : style.Spaced) :
    (∃ gap, style.between.1.toList = ',' :: gap ∧ Gap gap) ∧
      ∃ gap, style.between.2.toList = ':' :: gap ∧ Gap gap := by
  have hspace : Gap [' '] := by
    intro c hc
    rw [List.mem_singleton.mp hc]
    rfl
  have hnone : Gap [] := fun _ hc => nomatch hc
  rw [Style.between, h.separators]
  cases style.indent with
  | none => exact ⟨⟨[' '], rfl, hspace⟩, [' '], rfl, hspace⟩
  | some unit => exact ⟨⟨[], by simp, hnone⟩, [' '], by simp, hspace⟩

/-! Texts that are read as a value. -/

theorem readsAs_null : ReadsAs fractions "null".toList .null :=
  .of_succ ⟨'n', _, rfl, by decide⟩ fun _ _ _ _ => rfl

theorem readsAs_bool (b : Bool) : ReadsAs fractions (writeBool b) (.bool b) := by
  cases b with
  | false => exact .of_succ ⟨'f', _, rfl, by decide⟩ fun _ _ _ _ => rfl
  | true => exact .of_succ ⟨'t', _, rfl, by decide⟩ fun _ _ _ _ => rfl

theorem readsAs_text (asciiOnly : Bool) (s : String) :
    ReadsAs fractions (writeText asciiOnly s) (.text s) := by
  refine .of_succ ⟨'"', _, rfl, by decide⟩ ?_
  intro fuel rest _ _
  obtain ⟨cs, hcs, hread⟩ := readString_writeText asciiOnly s rest
  rw [hcs, readValue]
  simp only [hread]

theorem readsAs_int {n : Int} (h : WritableInt n) :
    ∃ cs, writeInt n = .ok cs ∧ ReadsAs fractions cs (.int n) := by
  have hread := fun start negative rest => @readNumber_toDigits fractions start negative _ h rest
  obtain ⟨c, more, hd⟩ :=
    List.exists_cons_of_ne_nil (Nat.toDigits_ne_nil (n := n.natAbs) (b := 10))
  have hc : c.isDigit := Text.isDigit_of_mem_toDigits (n := n.natAbs) (hd ▸ List.mem_cons_self)
  rw [writeInt, if_neg (Nat.not_lt.mpr h)]
  refine ⟨_, rfl, ?_⟩
  rw [hd] at hread ⊢
  split
  · refine .of_succ ⟨'-', _, rfl, by decide⟩ ?_
    intro fuel rest _ hrest
    rw [List.cons_append, List.cons_append, readValue_minus fractions fuel hc, ← List.cons_append,
      hread _ _ _ hrest, if_pos rfl]
    congr 3
    omega
  · refine .of_succ ⟨c, more, rfl, digit_starts hc⟩ ?_
    intro fuel rest _ hrest
    rw [List.cons_append, readValue_digit fractions fuel hc, ← List.cons_append,
      hread _ _ _ hrest, if_neg Bool.false_ne_true]
    congr 3
    omega

theorem readsAs_toDigits {n : Nat} (h : WritableInt n) :
    ReadsAs fractions (Nat.toDigits 10 n) (.int n) := by
  have hint : ∃ cs, writeInt n = .ok cs ∧ ReadsAs fractions cs (.int n) := readsAs_int h
  obtain ⟨cs, hwrite, hread⟩ := hint
  rw [writeInt, if_neg (Nat.not_lt.mpr h), if_neg (by omega), Int.natAbs_natCast] at hwrite
  rwa [← Except.ok.inj hwrite] at hread

theorem enclose_cons (depth : Nat) {gap : List Char} (hgap : style.between.1.toList = ',' :: gap)
    (opening closing : Char) (first : List Char) (more : List (List Char)) :
    enclose style depth opening closing (first :: more) = opening ::
      (style.lineBreak (depth + 1) ++ (joined (gap ++ style.lineBreak (depth + 1)) first more ++
        (style.lineBreak depth ++ [closing]))) := by
  simp [enclose, joined, hgap]

theorem readsAs_list {parts : List (List Char)} {items : List Value} (hs : style.Spaced)
    (depth : Nat) (h : List.Forall₂ (ReadsAs fractions) parts items) :
    ReadsAs fractions (enclose style depth '[' ']' parts) (.list items) := by
  cases h with
  | nil => exact .of_succ ⟨'[', _, rfl, by decide⟩ fun _ _ _ _ => rfl
  | @cons first v more values hfirst h =>
    obtain ⟨gap, hgap, hspaces⟩ := hs.between.1
    have hbreak := hs.lineBreak (depth + 1)
    rw [enclose_cons depth hgap]
    refine .of_succ ⟨'[', _, rfl, by decide⟩ ?_
    intro fuel rest hfuel _
    simp only [List.length_cons, List.length_append] at hfuel
    have hitems : readItems fractions fuel _ = .ok (v :: values, rest) :=
      readItems_joined (hspaces.append hbreak) (hs.lineBreak depth) hfirst h (by omega)
    obtain ⟨c, text, rfl, hc, hclose, -⟩ := hfirst.starts
    simp only [joined, List.cons_append, List.append_assoc, List.nil_append] at hitems ⊢
    rw [readValue, skipSpace_mark hbreak hc]
    split
    · rename_i heq
      exact absurd (List.cons.inj heq).1 hclose
    · rw [hitems]

theorem readsAs_map {parts : List (List Char)} {fields : List (String × Value)}
    (hs : style.Spaced) (depth : Nat) (hd : (fields.map (·.1)).Nodup)
    (h : List.Forall₂ (ReadsField fractions) parts fields) :
    ReadsAs fractions (enclose style depth '\x7b' '\x7d' parts) (Value.ofFields fields) := by
  rw [← fieldsOf_nodup hd]
  cases h with
  | nil => exact .of_succ ⟨'\x7b', _, rfl, by decide⟩ fun _ _ _ _ => rfl
  | @cons first field more fields hfirst h =>
    obtain ⟨gap, hgap, hspaces⟩ := hs.between.1
    have hbreak := hs.lineBreak (depth + 1)
    rw [enclose_cons depth hgap]
    refine .of_succ ⟨'\x7b', _, rfl, by decide⟩ ?_
    intro fuel rest hfuel _
    simp only [List.length_cons, List.length_append] at hfuel
    have hfields : readFields fractions fuel _ = .ok (field :: fields, rest) :=
      readFields_joined (hspaces.append hbreak) (hs.lineBreak depth) hfirst h
        (by omega)
    obtain ⟨text, rfl⟩ := hfirst.starts
    simp only [joined, List.cons_append, List.append_assoc, List.nil_append] at hfields ⊢
    rw [readValue, skipSpace_mark hbreak (by decide)]
    split
    · rename_i heq
      cases heq
    · rw [hfields]

/-! Writing a tree. -/

theorem writeItems_eq_map (depth : Nat) (items : List Value) :
    writeItems style depth items = items.map (write style depth) := by
  induction items with
  | nil => rw [writeItems, List.map_nil]
  | cons item rest ih => rw [writeItems, ih, List.map_cons]

theorem allOf_ok {α : Type} (text : α → List Char) (xs : List α) :
    allOf (xs.map fun x => .ok (text x)) = .ok (xs.map text) := by
  induction xs with
  | nil => rfl
  | cons x xs ih =>
    rw [List.map_cons, allOf, ih]
    rfl

theorem forall₂_maps {α β γ : Type} {R : β → γ → Prop} {f : α → β} {g : α → γ} {xs : List α}
    (h : ∀ x ∈ xs, R (f x) (g x)) : List.Forall₂ R (xs.map f) (xs.map g) :=
  List.forall₂_map_left_iff.mpr (List.forall₂_map_right_iff.mpr (List.forall₂_same.mpr h))

theorem written_list (hs : style.Spaced) (depth : Nat) {items : List Value}
    {text : Value → List Char} {value : Value → Value}
    (hwrite : ∀ item ∈ items, write style (depth + 1) item = .ok (text item))
    (hread : ∀ item ∈ items, ReadsAs fractions (text item) (value item)) :
    ∃ cs, write style depth (.list items) = .ok cs ∧
      ReadsAs fractions cs (.list (items.map value)) := by
  refine ⟨_, ?_, readsAs_list hs depth (forall₂_maps hread)⟩
  rw [write, writeItems_eq_map, List.map_congr_left hwrite, allOf_ok]
  rfl

theorem writeEntries_eq_map (depth : Nat) (fields : List (String × Value)) :
    writeEntries style depth (fields.map fun (name, value) => (.text name, value)) =
      fields.map fun field => (.text field.1, (write style depth field.2).map
        (writeText style.asciiOnly field.1 ++ style.between.2.toList ++ ·)) := by
  induction fields with
  | nil => rw [List.map_nil, writeEntries, List.map_nil]
  | cons field rest ih =>
    rw [List.map_cons, writeEntries, ih]
    rfl

theorem writeEntries_fields (depth : Nat) (fields : List (String × Value))
    {text : String × Value → List Char}
    (h : ∀ field ∈ fields, write style depth field.2 = .ok (text field)) :
    writeEntries style depth (fields.map fun (name, value) => (.text name, value)) =
      fields.map fun field => (.text field.1,
        .ok (writeText style.asciiOnly field.1 ++ style.between.2.toList ++ text field)) := by
  rw [writeEntries_eq_map]
  refine List.map_congr_left fun field hfield => ?_
  rw [h field hfield]
  rfl

theorem arrange_fields (style : Style) (entry : String × Value → Except Fault (List Char))
    (fields : List (String × Value)) :
    ∃ moved, arrange style (fields.map fun field => (.text field.1, entry field)) =
        .ok (moved.map fun field => (.text field.1, entry field)) ∧
      moved.Perm fields ∧ (style.sortKeys = false → moved = fields) := by
  cases hsort : style.sortKeys with
  | false => exact ⟨fields, by rw [arrange, hsort]; rfl, .rfl, fun _ => rfl⟩
  | true =>
    have hkeys : ∀ x ∈ fields.map fun field => ((.text field.1, entry field) : Written),
        Value.TextKey (·.1) x := by
      intro x hx
      obtain ⟨field, -, rfl⟩ := List.mem_map.mp hx
      exact ⟨field.1, rfl⟩
    obtain ⟨sorted, hsorted, hperm⟩ := Value.sortBy_perm _ hkeys
    obtain ⟨moved, rfl, hmoved⟩ := (congrFun (congrFun (List.eq_map_comp_perm _) _) _).mpr hperm
    refine ⟨moved, ?_, hmoved, nofun⟩
    rw [arrange, hsort, if_pos rfl, hsorted]

theorem names_map (value : String × Value → Value) (fields : List (String × Value)) :
    (fields.map fun field => (field.1, value field)).map (·.1) = fields.map (·.1) := by
  rw [List.map_map]
  rfl

theorem written_map (hs : style.Spaced) (depth : Nat) {fields : List (String × Value)}
    (hd : (fields.map (·.1)).Nodup) {text : String × Value → List Char}
    {value : String × Value → Value}
    (hwrite : ∀ field ∈ fields, write style (depth + 1) field.2 = .ok (text field))
    (hread : ∀ field ∈ fields, ReadsAs fractions (text field) (value field)) :
    ∃ cs moved, write style depth (Value.ofFields fields) = .ok cs ∧ moved.Perm fields ∧
      (style.sortKeys = false → moved = fields) ∧
      ReadsAs fractions cs (Value.ofFields (moved.map fun field => (field.1, value field))) := by
  obtain ⟨gap, hgap, hspaces⟩ := hs.between.2
  -- the fields are written in the order `moved`, and each as if it stood alone
  obtain ⟨moved, harrange, hperm, hsame⟩ := arrange_fields style (fun field =>
    .ok (writeText style.asciiOnly field.1 ++ style.between.2.toList ++ text field)) fields
  have hmem : ∀ field ∈ moved, field ∈ fields := fun _ => hperm.mem_iff.mp
  have hparts : List.Forall₂ (ReadsField fractions)
      (moved.map fun field =>
        writeText style.asciiOnly field.1 ++ style.between.2.toList ++ text field)
      (moved.map fun field => (field.1, value field)) := by
    refine forall₂_maps fun field hf =>
      ⟨style.asciiOnly, gap, text field, ?_, hspaces, hread field (hmem field hf)⟩
    rw [hgap, List.append_assoc, List.cons_append]
  refine ⟨_, moved, ?_, hperm, hsame, readsAs_map hs depth ?_ hparts⟩
  · rw [Value.ofFields, write, writeEntries_fields (depth + 1) fields hwrite, harrange]
    dsimp only
    rw [List.map_map]
    exact congrArg (Except.map (enclose style depth '\x7b' '\x7d')) (allOf_ok _ moved)
  · rw [names_map]
    exact (hperm.map (·.1)).nodup_iff.mpr hd

/-- What is written of a value is read as a value alike, and as the value itself unless names are
sorted. -/
def WrittenBack (style : Style) (fractions : Fractions) (depth : Nat) (v : Value) : Prop :=
  ∃ cs w, write style depth v = .ok cs ∧ ReadsAs fractions cs w ∧ v.Alike w ∧
    (style.sortKeys = false → w = v)

theorem writtenBack_leaf (style : Style) (depth : Nat) (h : Leaf v) :
    WrittenBack style fractions depth v := by
  cases h with
  | null => exact ⟨_, _, by rw [write], readsAs_null, .scalar rfl, fun _ => rfl⟩
  | bool b => exact ⟨_, _, by rw [write], readsAs_bool b, .scalar rfl, fun _ => rfl⟩
  | int hn =>
    obtain ⟨cs, hwrite, hread⟩ := readsAs_int hn
    exact ⟨cs, _, by rw [write, hwrite], hread, .scalar rfl, fun _ => rfl⟩
  | text s => exact ⟨_, _, by rw [write], readsAs_text _ s, .scalar rfl, fun _ => rfl⟩

theorem writtenBack_list (hs : style.Spaced) (depth : Nat) {items : List Value}
    (h : ∀ item ∈ items, WrittenBack style fractions (depth + 1) item) :
    WrittenBack style fractions depth (.list items) := by
  choose! text value hwrite hread halike hkept using h
  obtain ⟨cs, hcs, hlist⟩ := written_list hs depth hwrite hread
  refine ⟨cs, _, hcs, hlist, .list ?_, ?_⟩
  · exact List.forall₂_map_right_iff.mpr (List.forall₂_same.mpr halike)
  · intro hsort
    rw [List.map_congr_left fun item hitem => hkept item hitem hsort, List.map_id']

theorem writtenBack_map (hs : style.Spaced) (depth : Nat) {fields : List (String × Value)}
    (hd : (fields.map (·.1)).Nodup)
    (h : ∀ field ∈ fields, WrittenBack style fractions (depth + 1) field.2) :
    WrittenBack style fractions depth (Value.ofFields fields) := by
  choose! text value hwrite hread halike hkept using h
  obtain ⟨cs, moved, hcs, hperm, hsame, hmap⟩ := written_map hs depth hd hwrite hread
  refine ⟨cs, _, hcs, hmap, ?_, ?_⟩
  · refine .map (names_map value fields).symm ?_ (hperm.symm.map fun field => (field.1, value field))
    rw [List.map_map]
    exact forall₂_maps halike
  · intro hsort
    rw [hsame hsort]
    refine congrArg Value.ofFields ?_
    rw [List.map_congr_left fun field hf => by rw [hkept field hf hsort], List.map_id']

/-- A tree is written and read again if its scalars are. -/
theorem writtenBack_of_leaves {leaf : Value → Prop} (hs : style.Spaced)
    (hleaf : ∀ {v}, leaf v → ∀ depth, WrittenBack style fractions depth v) (h : v.Tree leaf)
    (depth : Nat) : WrittenBack style fractions depth v := by
  induction h generalizing depth with
  | leaf _ hl => exact hleaf hl depth
  | list _ ih => exact writtenBack_list hs depth fun item hitem => ih item hitem (depth + 1)
  | map hd _ ih => exact writtenBack_map hs depth hd fun field hf => ih field hf (depth + 1)

theorem writtenBack_tree (hs : style.Spaced) (h : v.Tree Leaf) (depth : Nat) :
    WrittenBack style fractions depth v :=
  writtenBack_of_leaves hs (fun hl depth => writtenBack_leaf style depth hl) h depth

theorem read_of_readsAs {s : String} (h : ReadsAs fractions s.toList v) :
    read fractions s = .ok v := by
  obtain ⟨c, more, hcs, hc, -, hmark⟩ := h.starts
  have hhead : s.toList.head? ≠ some (Char.ofNat 0xFEFF) := by
    rw [hcs]
    exact fun heq => hmark (Option.some.inj heq)
  have hskip : skipSpace s.toList = s.toList ++ [] := by
    rw [hcs, List.append_nil]
    exact skipSpace_mark (show Gap [] from nofun) hc
  have hnil : EndsNumber [] := nofun
  simp only [read, readChars?, if_neg hhead, hskip,
    h.read _ [] (show 2 * s.toList.length ≤ 2 * s.toList.length + 2 by omega) hnil]
  rfl

end Rehearsal.Json
