import Mathlib.Data.List.Nodup
import Mathlib.Data.List.Perm.Subperm
import Rehearsal.Proofs.Number.Shortest
import Rehearsal.Proofs.Value.Alike
import Rehearsal.Value.Same

/-! When JSON values are equal, for a reading of scalars as numbers. Values in memory are compared by
the exact value of every number, a truth value being one. As JSON they are compared by the decimal
that a number is written as. -/

/-! Values that are identical are equal, so that equality of values is decided. -/

namespace Rehearsal.Value

mutual

theorem identical_iff (a b : Value) : a.identical b = true ↔ a = b := by
  cases a with
  | list as => cases b <;> simp [identical, identicalItems_iff as]
  | tuple as => cases b <;> simp [identical, identicalItems_iff as]
  | map as => cases b <;> simp [identical, identicalEntries_iff as]
  | record type as => cases b <;> simp [identical, identicalFields_iff as]
  | _ => cases b <;> simp [identical]
termination_by structural a

theorem identicalItems_iff (as bs : List Value) : identicalItems as bs = true ↔ as = bs := by
  cases as with
  | nil => cases bs <;> simp [identicalItems]
  | cons a as => cases bs <;> simp [identicalItems, identical_iff a, identicalItems_iff as]
termination_by structural as

theorem identicalEntries_iff (as bs : List (Value × Value)) :
    identicalEntries as bs = true ↔ as = bs := by
  cases as with
  | nil => cases bs <;> simp [identicalEntries]
  | cons a as =>
    obtain ⟨key, value⟩ := a
    cases bs with
    | nil => simp [identicalEntries]
    | cons b bs =>
      obtain ⟨other, b⟩ := b
      simp [identicalEntries, identical_iff key, identical_iff value, identicalEntries_iff as]
termination_by structural as

theorem identicalFields_iff (as bs : List (String × Value)) :
    identicalFields as bs = true ↔ as = bs := by
  cases as with
  | nil => cases bs <;> simp [identicalFields]
  | cons a as =>
    obtain ⟨name, value⟩ := a
    cases bs with
    | nil => simp [identicalFields]
    | cons b bs =>
      obtain ⟨other, b⟩ := b
      simp [identicalFields, identical_iff value, identicalFields_iff as]
termination_by structural as

end

instance : DecidableEq Value := fun a b => decidable_of_iff _ (identical_iff a b)

/-- The number that a value is exactly, a truth value counting as 0 or 1. -/
def exactValue? : Value → Option ℚ
  | .bool b => some (if b then 1 else 0)
  | .int n => some n
  | .float x => x.toRat?
  | .decimal d => d.toRat?
  | _ => none

/-- The number that a value is written as, which a truth value is not. -/
def writtenValue? : Value → Option ℚ
  | .int n => some n
  | .float x => (Decimal.ofShortest x).toRat?
  | .decimal d => d.toRat?
  | _ => none

/-- Equality of JSON values whose numbers are read by `number`: null and truth values equal
themselves, texts are compared by their characters, lists item by item, and mappings by the names
and the values under them. -/
inductive EqualBy (number : Value → Option ℚ) : Value → Value → Prop
  | null : EqualBy number .null .null
  | bool (b : Bool) : EqualBy number (.bool b) (.bool b)
  | text (s : String) : EqualBy number (.text s) (.text s)
  | number {v w : Value} {q : ℚ} : number v = some q → number w = some q → EqualBy number v w
  | list {items others : List Value} :
      List.Forall₂ (EqualBy number) items others → EqualBy number (.list items) (.list others)
  | map {fields others : List (String × Value)} :
      (∀ name, name ∈ fields.map (·.1) ↔ name ∈ others.map (·.1)) →
      (∀ name v w, (name, v) ∈ fields → (name, w) ∈ others → EqualBy number v w) →
      EqualBy number (ofFields fields) (ofFields others)

/-- Whether a scalar is one of JSON: null, a truth value, a text, an integer, a finite decimal or a
finite double in its one form. -/
def JsonLeaf : Value → Prop
  | .null => True
  | .bool _ => True
  | .text _ => True
  | .int _ => True
  | .decimal d => d.isFinite = true
  | .float (.finite _ significand exponent) => Binary64.Proper significand exponent
  | _ => False

variable {number : Value → Option ℚ} {v w : Value} {p q : ℚ} {items others : List Value}
  {fields moved : List (String × Value)}

theorem JsonLeaf.exact (h : JsonLeaf v) :
    v = .null ∨ (∃ s, v = .text s) ∨ ∃ q, exactValue? v = some q := by
  cases v with
  | null => exact .inl rfl
  | text s => exact .inr (.inl ⟨s, rfl⟩)
  | bool b => exact .inr (.inr ⟨_, rfl⟩)
  | int n => exact .inr (.inr ⟨_, rfl⟩)
  | decimal d =>
    cases d with
    | finite negative c e => exact .inr (.inr ⟨_, Decimal.toRat?_finite negative c e⟩)
    | _ => cases h
  | float x =>
    cases x with
    | finite negative s e => exact .inr (.inr ⟨_, Binary64.toRat?_finite negative s e⟩)
    | _ => cases h
  | _ => cases h

theorem same_null_iff : Value.null.same w = true ↔ w = .null := by
  cases w <;> simp [same]

theorem same_text_iff (h : w.Tree JsonLeaf) {s : String} :
    (Value.text s).same w = true ↔ w = .text s := by
  cases w with
  | text t => simp [same, text?]
  | status t =>
    cases h with
    | leaf _ hleaf => cases hleaf
  | _ => simp [same, text?]

theorem sameNumber_iff {d : Decimal} (hd : d.toRat? = some p) :
    sameNumber d w = true ↔ exactValue? w = some p := by
  cases w with
  | bool b =>
    simp only [sameNumber, number?, exactValue?, Decimal.equal_iff_toRat? hd, Decimal.toRat?_ofInt]
    cases b <;> simp
  | int n => simp only [sameNumber, number?, exactValue?, Decimal.equal_iff_toRat? hd,
      Decimal.toRat?_ofInt]
  | float x => simp only [sameNumber, number?, exactValue?, Decimal.equal_iff_toRat? hd,
      Decimal.toRat?_ofBinary64]
  | decimal d' => simp only [sameNumber, number?, exactValue?, Decimal.equal_iff_toRat? hd]
  | _ => simp [sameNumber, number?, exactValue?]

/-- A number equals the values that are exactly the same number. -/
theorem same_number_iff (hv : exactValue? v = some p) :
    v.same w = true ↔ exactValue? w = some p := by
  cases v with
  | bool b =>
    rw [same]
    refine sameNumber_iff ?_
    rw [Decimal.toRat?_ofInt, ← hv, exactValue?]
    cases b <;> simp
  | int n =>
    rw [same]
    exact sameNumber_iff ((Decimal.toRat?_ofInt n).trans hv)
  | float x =>
    rw [same]
    exact sameNumber_iff ((Decimal.toRat?_ofBinary64 x).trans hv)
  | decimal d =>
    rw [same]
    exact sameNumber_iff hv
  | _ => cases hv

theorem EqualBy.number_iff (hv : exactValue? v = some p) :
    EqualBy exactValue? v w ↔ exactValue? w = some p := by
  constructor
  · intro h
    cases h with
    | number hp hq => rwa [← hv, hp]
    | bool b => exact hv
    | _ => cases hv
  · exact .number hv

theorem sameItems_iff
    (h : ∀ item ∈ items, ∀ other ∈ others, item.same other = true ↔ EqualBy number item other) :
    sameItems items others = true ↔ List.Forall₂ (EqualBy number) items others := by
  induction items generalizing others with
  | nil =>
    cases others with
    | nil => simp [sameItems]
    | cons other rest => simp [sameItems]
  | cons item items ih =>
    cases others with
    | nil => simp [sameItems]
    | cons other others =>
      have hrest := ih fun i hi o ho => h i (List.mem_cons_of_mem _ hi) o (List.mem_cons_of_mem _ ho)
      rw [sameItems, Bool.and_eq_true, List.forall₂_cons, hrest,
        h item List.mem_cons_self other List.mem_cons_self]

theorem same_text_text {name other : String} :
    (Value.text name).same (.text other) = true ↔ name = other := by
  rw [same, text?, beq_iff_eq, Option.some.injEq, eq_comm]

theorem sameEntries_iff :
    sameEntries (fields.map fun (name, value) => (.text name, value))
        (moved.map fun (name, value) => (.text name, value)) = true ↔
      ∀ name v, (name, v) ∈ fields → ∃ w, (name, w) ∈ moved ∧ v.same w = true := by
  induction fields with
  | nil => simp [sameEntries]
  | cons field rest ih =>
    obtain ⟨name, v⟩ := field
    rw [List.map_cons, sameEntries, Bool.and_eq_true, ih, List.any_eq_true]
    constructor
    · rintro ⟨⟨entry, hentry, hsame⟩, hrest⟩ name' v' hmem
      rcases List.mem_cons.mp hmem with hhead | htail
      · cases hhead
        obtain ⟨⟨other, w⟩, hfield, rfl⟩ := List.mem_map.mp hentry
        rw [Bool.and_eq_true, same_text_text] at hsame
        obtain ⟨rfl, hvalue⟩ := hsame
        exact ⟨w, hfield, hvalue⟩
      · exact hrest name' v' htail
    · intro h
      refine ⟨?_, fun name' v' hmem => h name' v' (List.mem_cons_of_mem _ hmem)⟩
      obtain ⟨w, hfield, hvalue⟩ := h name v List.mem_cons_self
      refine ⟨(.text name, w), List.mem_map.mpr ⟨(name, w), hfield, rfl⟩, ?_⟩
      rw [Bool.and_eq_true, same_text_text]
      exact ⟨rfl, hvalue⟩

theorem same_ofFields_iff (hfields : (fields.map (·.1)).Nodup) (hmoved : (moved.map (·.1)).Nodup) :
    (ofFields fields).same (ofFields moved) = true ↔
      (∀ name, name ∈ fields.map (·.1) ↔ name ∈ moved.map (·.1)) ∧
        ∀ name v w, (name, v) ∈ fields → (name, w) ∈ moved → v.same w = true := by
  rw [ofFields, ofFields, same, Bool.and_eq_true, List.length_map, List.length_map, beq_iff_eq,
    sameEntries_iff]
  constructor
  · rintro ⟨hlength, hcounterpart⟩
    have hsub : fields.map (·.1) ⊆ moved.map (·.1) := by
      intro name hname
      obtain ⟨⟨_, v⟩, hmem, rfl⟩ := List.mem_map.mp hname
      obtain ⟨w, hw, -⟩ := hcounterpart _ v hmem
      exact List.mem_map.mpr ⟨_, hw, rfl⟩
    have hperm : (fields.map (·.1)).Perm (moved.map (·.1)) :=
      (List.Nodup.subperm hfields hsub).perm_of_length_le (by simp [hlength])
    refine ⟨fun name => hperm.mem_iff, ?_⟩
    intro name v w hv hw
    obtain ⟨w', hw', hsame⟩ := hcounterpart name v hv
    have hone : (name, w) = (name, w') := List.inj_on_of_nodup_map hmoved hw hw' rfl
    cases hone
    exact hsame
  · rintro ⟨hnames, hvalues⟩
    have hperm : (fields.map (·.1)).Perm (moved.map (·.1)) :=
      (List.perm_ext_iff_of_nodup hfields hmoved).mpr hnames
    refine ⟨by simpa using hperm.length_eq, ?_⟩
    intro name v hv
    obtain ⟨⟨_, w⟩, hw, rfl⟩ := List.mem_map.mp ((hnames name).mp (List.mem_map.mpr ⟨_, hv, rfl⟩))
    exact ⟨w, hw, hvalues _ v w hv hw⟩

theorem EqualBy.symm (hs : v.isScalar = true) (h : EqualBy number v w) : EqualBy number w v := by
  cases h with
  | null => exact .null
  | bool b => exact .bool b
  | text s => exact .text s
  | number hv hw => exact .number hw hv
  | list _ => cases hs
  | map _ _ => cases hs

theorem EqualBy.comm (hv : v.isScalar = true) (hw : w.isScalar = true) :
    EqualBy number v w ↔ EqualBy number w v :=
  ⟨EqualBy.symm hv, EqualBy.symm hw⟩

theorem EqualBy.of_list (h : EqualBy number (.list items) w) (hn : number (.list items) = none) :
    ∃ others, w = .list others ∧ List.Forall₂ (EqualBy number) items others := by
  cases h with
  | list hall => exact ⟨_, rfl, hall⟩
  | number hv _ =>
    rw [hn] at hv
    cases hv

theorem EqualBy.of_map (h : EqualBy number (ofFields fields) w)
    (hn : number (ofFields fields) = none) :
    ∃ moved, w = ofFields moved ∧
      (∀ name, name ∈ fields.map (·.1) ↔ name ∈ moved.map (·.1)) ∧
      ∀ name v w, (name, v) ∈ fields → (name, w) ∈ moved → EqualBy number v w := by
  generalize hv : ofFields fields = v at h
  cases h with
  | map hnames hvalues =>
    cases ofFields_injective hv
    exact ⟨_, rfl, hnames, hvalues⟩
  | number hq _ =>
    rw [← hv, hn] at hq
    cases hq
  | null => cases hv
  | bool _ => cases hv
  | text _ => cases hv
  | list _ => cases hv

theorem Tree.of_ofFields {leaf : Value → Prop} (h : (ofFields fields).Tree leaf) :
    (fields.map (·.1)).Nodup ∧ ∀ field ∈ fields, field.2.Tree leaf := by
  obtain ⟨others, hnodup, hall, hsame⟩ := h.of_map
  cases ofFields_injective hsame
  exact ⟨hnodup, hall⟩

/-- Values in memory are equal if they are equal as JSON whose numbers are taken exactly and whose
truth values are the numbers 0 and 1. -/
theorem same_iff_equalBy (hv : v.Tree JsonLeaf) (hw : w.Tree JsonLeaf) :
    v.same w = true ↔ EqualBy exactValue? v w := by
  -- the scalars are compared by what they are, the containers part by part
  induction hv generalizing w with
  | leaf _ hleaf =>
    rcases hleaf.exact with rfl | ⟨s, rfl⟩ | ⟨p, hp⟩
    · rw [same_null_iff]
      constructor
      · rintro rfl
        exact .null
      · intro h
        cases h with
        | null => rfl
        | number hq _ => cases hq
    · rw [same_text_iff hw]
      constructor
      · rintro rfl
        exact .text s
      · intro h
        cases h with
        | text _ => rfl
        | number hq _ => cases hq
    · rw [same_number_iff hp, EqualBy.number_iff hp]
  | @list items hitems ih =>
    constructor
    · intro h
      cases w with
      | list others =>
        rw [same] at h
        exact .list ((sameItems_iff fun item hi other ho => ih item hi (hw.of_list other ho)).mp h)
      | _ => simp [same] at h
    · intro h
      obtain ⟨others, rfl, hall⟩ := h.of_list rfl
      rw [same]
      exact (sameItems_iff fun item hi other ho => ih item hi (hw.of_list other ho)).mpr hall
  | @map fields hnodup hall ih =>
    constructor
    · intro h
      cases w with
      | map entries =>
        obtain ⟨moved, hmoved, htrees, hentries⟩ := hw.of_map
        rw [hentries] at h ⊢
        obtain ⟨hnames, hvalues⟩ := (same_ofFields_iff hnodup hmoved).mp h
        refine .map hnames fun name v w hv hw => ?_
        exact (ih _ hv (htrees _ hw)).mp (hvalues name v w hv hw)
      | _ => simp [same, ofFields] at h
    · intro h
      obtain ⟨moved, rfl, hnames, hvalues⟩ := h.of_map rfl
      obtain ⟨hmoved, htrees⟩ := hw.of_ofFields
      refine (same_ofFields_iff hnodup hmoved).mpr ⟨hnames, fun name v w hv hw => ?_⟩
      exact (ih _ hv (htrees _ hw)).mpr (hvalues name v w hv hw)

end Rehearsal.Value
