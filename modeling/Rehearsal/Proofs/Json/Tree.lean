import Rehearsal.Proofs.Document.Lookup
import Rehearsal.Proofs.Json.Container
import Rehearsal.Proofs.Value.Equality

/-! JSON text is read as a tree of mappings with distinct names, lists and scalars. The scalars are
those of JSON, but for the words that stand for what is no number. -/

namespace Rehearsal.Json

open Value

/-- The scalars that JSON text is read as: those of JSON, an infinity and what is no number. -/
def ReadLeaf (v : Value) : Prop := JsonLeaf v ∨ ∃ x, v = .float x ∧ x.isFinite = false

variable {cs rest : List Char} {v : Value} {items : List Value} {fields : List (String × Value)}
  {fuel : Nat}

theorem leaf_tree (hs : v.isScalar = true) (h : JsonLeaf v) : v.Tree ReadLeaf :=
  .leaf hs (.inl h)

theorem word_tree {x : Binary64} (h : x.isFinite = false) : (Value.float x).Tree ReadLeaf :=
  .leaf rfl (.inr ⟨x, rfl, h⟩)

theorem numberValue_tree {negative : Bool} {whole fraction : List Char} {exponent : Option Int}
    (h : numberValue .exact negative whole fraction exponent = .ok v) : v.Tree ReadLeaf := by
  rw [numberValue] at h
  split at h
  · split at h
    · cases h
    · cases h
      exact leaf_tree rfl trivial
  · dsimp only at h
    split at h
    · rename_i d hd
      cases h
      simp only [Numeral.toDecimal?, Decimal.make?] at hd
      split at hd
      · cases hd
      · cases hd
        exact leaf_tree rfl rfl
    · cases h

theorem readNumber_tree {start : Nat} {negative : Bool}
    (h : readNumber .exact start negative cs = .ok (v, rest)) : v.Tree ReadLeaf := by
  rw [readNumber] at h
  split at h
  · cases h
  · dsimp only at h
    split at h
    · rename_i value hvalue
      cases h
      exact numberValue_tree hvalue
    · cases h

theorem fieldsOf_tree (h : ∀ field ∈ fields, field.2.Tree ReadLeaf) :
    (Value.map (fieldsOf fields)).Tree ReadLeaf := by
  rw [fieldsOf_eq]
  refine .map (Keyed.nodup_putAll (m := []) List.nodup_nil fields) ?_
  intro field hfield
  rcases Keyed.mem_putAll hfield with hold | hnew
  · cases hold
  · exact h field hnew

/-- Whether the readers make trees with this fuel. -/
structure ReadsTrees (fuel : Nat) : Prop where
  value : ∀ {cs v rest}, readValue .exact fuel cs = .ok (v, rest) → v.Tree ReadLeaf
  items : ∀ {cs items rest}, readItems .exact fuel cs = .ok (items, rest) →
    ∀ item ∈ items, item.Tree ReadLeaf
  fields : ∀ {cs fields rest}, readFields .exact fuel cs = .ok (fields, rest) →
    ∀ field ∈ fields, field.2.Tree ReadLeaf

theorem readValue_tree (ih : ReadsTrees fuel)
    (h : readValue .exact (fuel + 1) cs = .ok (v, rest)) : v.Tree ReadLeaf := by
  rw [readValue.eq_def] at h
  dsimp only at h
  split at h
  · -- a text
    split at h
    · cases h
      exact leaf_tree rfl trivial
    · cases h
  · -- a mapping, empty or not
    split at h
    · cases h
      exact fieldsOf_tree (List.forall_mem_nil _)
    · split at h
      · rename_i hfields
        cases h
        exact fieldsOf_tree (ih.fields hfields)
      · cases h
  · -- a list, empty or not
    split at h
    · cases h
      exact .list (List.forall_mem_nil _)
    · split at h
      · rename_i hitems
        cases h
        exact .list (ih.items hitems)
      · cases h
  · -- null and the truth values
    cases h
    exact leaf_tree rfl trivial
  · cases h
    exact leaf_tree rfl trivial
  · cases h
    exact leaf_tree rfl trivial
  · -- what is no number, and the infinities
    cases h
    exact word_tree rfl
  · cases h
    exact word_tree rfl
  · cases h
    exact word_tree rfl
  · -- a number, with a sign or without
    exact readNumber_tree h
  · exact readNumber_tree h

theorem readItems_tree (ih : ReadsTrees fuel)
    (h : readItems .exact (fuel + 1) cs = .ok (items, rest)) :
    ∀ item ∈ items, item.Tree ReadLeaf := by
  rw [readItems.eq_def] at h
  dsimp only at h
  split at h
  · cases h
  · rename_i hitem
    have hone := ih.value hitem
    split at h
    · cases h
      exact List.forall_mem_singleton.mpr hone
    · split at h
      · rename_i hmore
        cases h
        exact List.forall_mem_cons.mpr ⟨hone, ih.items hmore⟩
      · cases h
    · cases h

theorem readFields_tree (ih : ReadsTrees fuel)
    (h : readFields .exact (fuel + 1) cs = .ok (fields, rest)) :
    ∀ field ∈ fields, field.2.Tree ReadLeaf := by
  rw [readFields.eq_def] at h
  dsimp only at h
  split at h
  · split at h
    · cases h
    · split at h
      · split at h
        · cases h
        · rename_i hvalue
          have hone := ih.value hvalue
          split at h
          · cases h
            exact List.forall_mem_singleton.mpr hone
          · split at h
            · rename_i hmore
              cases h
              exact List.forall_mem_cons.mpr ⟨hone, ih.fields hmore⟩
            · cases h
          · cases h
      · cases h
  · cases h

theorem readsTrees (fuel : Nat) : ReadsTrees fuel := by
  induction fuel with
  | zero => exact ⟨nofun, nofun, nofun⟩
  | succ fuel ih => exact ⟨readValue_tree ih, readItems_tree ih, readFields_tree ih⟩

theorem loadText_tree {text : String} (h : Document.loadText text = .ok v) : v.Tree ReadLeaf := by
  rw [Document.loadText] at h
  split at h
  · cases h
  · split at h
    · split at h <;> cases h
    · cases h
    · rename_i hread
      cases h
      simp only [read, readChars?] at hread
      split at hread
      · rename_i hchars
        cases hread
        split at hchars
        · cases hchars
        · split at hchars
          · cases hchars
          · rename_i hvalue
            split at hchars
            · cases hchars
              exact (readsTrees _).value hvalue
            · cases hchars
      · cases hread

end Rehearsal.Json

namespace Rehearsal

open Value

def Finite (v : Value) : Prop := ∀ segments x, v.At segments (.float x) → x.isFinite = true

/-- The documents that are JSON, with the tree of each: texts and bytes that are read as it, in which
every number is finite, and values in memory. -/
inductive JsonDocument : Value → Value → Prop
  | text {text : String} {tree : Value} :
      Document.loadText text = .ok tree → Finite tree → JsonDocument (.text text) tree
  | bytes {bytes : List UInt8} {text : String} {tree : Value} : Utf8.decode bytes = .ok text →
      Document.loadText text = .ok tree → Finite tree → JsonDocument (.bytes bytes) tree
  | memory {tree : Value} : tree.InMemory → tree.Tree JsonLeaf → JsonDocument tree tree
  | record {type : String} {fields : List (String × Value)} : (fields.map (·.1)).Nodup →
      (∀ field ∈ fields, field.2.Tree JsonLeaf) →
      JsonDocument (.record type fields) (ofFields fields)

theorem finite_tree {tree : Value} (h : tree.Tree JsonLeaf) : Finite tree := by
  intro segments x hat
  cases h.at hat with
  | leaf _ hleaf =>
    cases x with
    | finite _ _ _ => rfl
    | _ => cases hleaf

namespace JsonDocument

variable {document v : Value}

theorem load (h : JsonDocument document v) : Document.load document = .ok v := by
  cases h with
  | text htext _ => exact htext
  | bytes hdecode htext _ =>
    rw [Document.load, hdecode]
    exact htext
  | memory hmemory htree => exact Document.load_tree htree hmemory
  | record _ hfields => exact congrArg Except.ok (opened_record _ hfields)

theorem tree (h : JsonDocument document v) : v.Tree JsonLeaf := by
  have hread : ∀ {text}, Document.loadText text = .ok v → Finite v → v.Tree JsonLeaf := by
    intro text htext hfinite
    refine (Json.loadText_tree htext).of_positions ?_
    rintro segments w hat - (hleaf | ⟨x, rfl, hx⟩)
    · exact hleaf
    · rw [hfinite segments x hat] at hx
      cases hx
  cases h with
  | text htext hfinite => exact hread htext hfinite
  | bytes _ htext hfinite => exact hread htext hfinite
  | memory _ htree => exact htree
  | record hnodup hfields => exact .map hnodup hfields

end JsonDocument

end Rehearsal
