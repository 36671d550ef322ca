import Mathlib.Data.List.Forall2
import Rehearsal.Proofs.Value.Tree
import Rehearsal.Value.Same

/-! Values that differ in nothing but the order of the entries of their mappings. They are equal. -/

namespace Rehearsal.Value

/-- Whether one value is the other but for the order of entries. -/
inductive Alike : Value → Value → Prop
  | scalar {v : Value} : v.isScalar → Alike v v
  | list {items others : List Value} :
      List.Forall₂ Alike items others → Alike (.list items) (.list others)
  | map {fields others moved : List (String × Value)} :
      fields.map (·.1) = others.map (·.1) →
      List.Forall₂ Alike (fields.map (·.2)) (others.map (·.2)) →
      others.Perm moved → Alike (ofFields fields) (ofFields moved)
  | record {type : String} {fields others : List (String × Value)} :
      fields.map (·.1) = others.map (·.1) →
      List.Forall₂ Alike (fields.map (·.2)) (others.map (·.2)) →
      Alike (.record type fields) (.record type others)

def AlikeFields (fields others : List (String × Value)) : Prop :=
  fields.map (·.1) = others.map (·.1) ∧
    List.Forall₂ Alike (fields.map (·.2)) (others.map (·.2))

variable {leaf : Value → Prop} {v w : Value} {fields others moved : List (String × Value)}

theorem ofFields_injective (h : ofFields fields = ofFields others) : fields = others := by
  have hentries := Value.map.inj h
  refine List.map_injective_iff.mpr ?_ hentries
  rintro ⟨_, _⟩ ⟨_, _⟩ hfield
  cases hfield
  rfl

theorem Alike.of_list {items : List Value} (h : Alike (.list items) w) :
    ∃ others, w = .list others ∧ List.Forall₂ Alike items others := by
  cases h with
  | scalar hs => cases hs
  | list hall => exact ⟨_, rfl, hall⟩

theorem Alike.of_map (h : Alike (ofFields fields) w) :
    ∃ others moved, w = ofFields moved ∧ AlikeFields fields others ∧ others.Perm moved := by
  generalize hv : ofFields fields = v at h
  cases h with
  | scalar hs =>
    subst hv
    cases hs
  | list _ => cases hv
  | map hnames hvalues hperm =>
    cases ofFields_injective hv
    exact ⟨_, _, rfl, ⟨hnames, hvalues⟩, hperm⟩
  | record _ _ => cases hv

theorem AlikeFields.cons {field : String × Value} (h : AlikeFields (field :: fields) others) :
    ∃ value rest, others = (field.1, value) :: rest ∧ Alike field.2 value ∧
      AlikeFields fields rest := by
  obtain ⟨hnames, hvalues⟩ := h
  cases others with
  | nil => cases hnames
  | cons other rest =>
    obtain ⟨name, value⟩ := other
    simp only [List.map_cons, List.cons.injEq] at hnames
    simp only [List.map_cons, List.forall₂_cons] at hvalues
    obtain ⟨rfl, hnames⟩ := hnames
    exact ⟨value, rest, rfl, hvalues.1, hnames, hvalues.2⟩

theorem AlikeFields.length (h : AlikeFields fields others) : fields.length = others.length := by
  simpa using congrArg List.length h.1

/-! Equality, where every leaf equals itself. -/

theorem sameItems_of_alike {items others : List Value} (h : List.Forall₂ Alike items others)
    (hitems : ∀ item ∈ items, ∀ w, Alike item w → item.same w) : sameItems items others := by
  induction h with
  | nil => rw [sameItems]
  | cons hone _ ih =>
    rw [sameItems, hitems _ List.mem_cons_self _ hone,
      ih fun item hitem => hitems item (List.mem_cons_of_mem _ hitem)]
    rfl

theorem same_text (name : String) : (Value.text name).same (.text name) := by
  simp [same, text?]

theorem sameEntries_of_alike (h : AlikeFields fields others)
    (hfields : ∀ field ∈ fields, ∀ w, Alike field.2 w → field.2.same w)
    (hmem : ∀ field ∈ others, field ∈ moved) :
    sameEntries (fields.map fun (name, value) => (.text name, value))
      (moved.map fun (name, value) => (.text name, value)) := by
  induction fields generalizing others with
  | nil => rw [List.map_nil, sameEntries]
  | cons field rest ih =>
    obtain ⟨value, more, rfl, hone, hrest⟩ := h.cons
    have hsame := hfields field List.mem_cons_self value hone
    have hmore := ih hrest (fun f hf => hfields f (List.mem_cons_of_mem _ hf))
      fun f hf => hmem f (List.mem_cons_of_mem _ hf)
    rw [List.map_cons, sameEntries, hmore, Bool.and_true, List.any_eq_true]
    refine ⟨(.text field.1, value), ?_, ?_⟩
    · exact List.mem_map.mpr ⟨(field.1, value), hmem _ List.mem_cons_self, rfl⟩
    · rw [same_text, hsame]
      rfl

theorem sameFields_of_alike (h : AlikeFields fields others)
    (hfields : ∀ field ∈ fields, ∀ w, Alike field.2 w → field.2.same w) :
    sameFields fields others := by
  induction fields generalizing others with
  | nil =>
    have hnil : others = [] := List.length_eq_zero_iff.mp h.length.symm
    rw [hnil, sameFields]
  | cons field rest ih =>
    obtain ⟨value, more, rfl, hone, hrest⟩ := h.cons
    rw [sameFields, hfields field List.mem_cons_self value hone,
      ih hrest fun f hf => hfields f (List.mem_cons_of_mem _ hf)]
    simp

theorem equal_ofInt (n : Int) : (Decimal.ofInt n).equal (.ofInt n) := by
  by_cases h : n.natAbs = 0
  · simp [Decimal.equal, Decimal.ofInt, Decimal.compare?, h]
  · have hmagnitude : Decimal.compareMagnitude n.natAbs 0 n.natAbs 0 = .eq := by
      simp [Decimal.compareMagnitude, h]
    simp only [Decimal.equal, Decimal.ofInt, Decimal.compare?, h, and_self, if_false, hmagnitude]
    cases decide (n < 0) <;> rfl

theorem same_int (n : Int) : (Value.int n).same (.int n) := by
  simp only [same, sameNumber, number?]
  exact equal_ofInt n

theorem same_bool (b : Bool) : (Value.bool b).same (.bool b) := by
  simp only [same, sameNumber, number?]
  exact equal_ofInt _

theorem Tree.same (h : Tree leaf v) (hleaf : ∀ v, leaf v → v.same v) (ha : Alike v w) :
    v.same w := by
  induction h generalizing w with
  | leaf hs hl =>
    cases ha with
    | scalar _ => exact hleaf _ hl
    | list _ => cases hs
    | map _ _ _ => cases hs
    | record _ _ => cases hs
  | list _ ih =>
    obtain ⟨others, rfl, hall⟩ := ha.of_list
    rw [Value.same]
    exact sameItems_of_alike hall fun item hitem _ => ih item hitem
  | map _ _ ih =>
    obtain ⟨others, moved, rfl, hall, hperm⟩ := ha.of_map
    have hlength := hall.length.trans hperm.length_eq
    rw [ofFields, ofFields, Value.same, List.length_map, List.length_map, hlength,
      sameEntries_of_alike hall (fun field hf _ => ih field hf) fun _ => hperm.mem_iff.mp]
    simp

end Rehearsal.Value
