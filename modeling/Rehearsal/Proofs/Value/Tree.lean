import Rehearsal.Document

/-! Trees of mappings, lists and scalars, and the positions in them. A position is described by the
segments that lead to it, and in a tree no two values stand at one position. -/

namespace Rehearsal.Value

def isScalar : Value → Bool
  | .list _ => false
  | .tuple _ => false
  | .map _ => false
  | .record _ _ => false
  | _ => true

/-- Whether a value stands for itself: there is something, and it is not to be read first. -/
def InMemory (v : Value) : Prop := v ≠ .null ∧ v.text? = none ∧ ∀ b, v ≠ .bytes b

/-- Whether a value is built of such scalars by lists and by mappings whose keys are distinct
texts. -/
inductive Tree (leaf : Value → Prop) : Value → Prop
  | leaf {v : Value} : v.isScalar → leaf v → Tree leaf v
  | list {items : List Value} : (∀ item ∈ items, Tree leaf item) → Tree leaf (.list items)
  | map {fields : List (String × Value)} : (fields.map (·.1)).Nodup →
      (∀ field ∈ fields, Tree leaf field.2) → Tree leaf (ofFields fields)

/-- Whether segments lead from a value to another one. -/
inductive At : Value → List Segment → Value → Prop
  | here (v : Value) : At v [] v
  | field {entries : List (Value × Value)} {name : String} {child v : Value}
      {segments : List Segment} :
      (.text name, child) ∈ entries → At child segments v →
      At (.map entries) (.field name :: segments) v
  | index {items : List Value} {n : Nat} {child v : Value} {segments : List Segment} :
      items[n]? = some child → At child segments v → At (.list items) (.index n :: segments) v

/-- Whether segments lead anywhere. -/
def HasPosition (v : Value) (segments : List Segment) : Prop := ∃ w, At v segments w

variable {leaf : Value → Prop} {v w : Value} {segment : Segment} {segments rest : List Segment}

theorem at_cons : At v (segment :: rest) w ↔ ∃ child, At v [segment] child ∧ At child rest w := by
  constructor
  · intro h
    cases h with
    | field hmem hrest => exact ⟨_, .field hmem (.here _), hrest⟩
    | index hget hrest => exact ⟨_, .index hget (.here _), hrest⟩
  · rintro ⟨child, hone, hrest⟩
    cases hone with
    | field hmem hhere =>
      cases hhere
      exact .field hmem hrest
    | index hget hhere =>
      cases hhere
      exact .index hget hrest

theorem At.under {fields : List (String × Value)} {name : String} {segments : List Segment}
    (h : At v segments w) (hmem : (name, v) ∈ fields) :
    At (ofFields fields) (.field name :: segments) w :=
  .field (List.mem_map.mpr ⟨_, hmem, rfl⟩) h

theorem At.of_scalar (hs : v.isScalar = true) (h : At v segments w) : segments = [] ∧ w = v := by
  cases h with
  | here => exact ⟨rfl, rfl⟩
  | field _ _ => cases hs
  | index _ _ => cases hs

theorem At.of_ofFields {fields : List (String × Value)} (h : At (ofFields fields) segments w) :
    (segments = [] ∧ w = ofFields fields) ∨
      ∃ name child rest, segments = .field name :: rest ∧ (name, child) ∈ fields ∧
        At child rest w := by
  generalize hv : ofFields fields = v at h
  cases h with
  | here => exact .inl ⟨rfl, rfl⟩
  | field hmem hrest =>
    cases hv
    obtain ⟨field, hfield, heq⟩ := List.mem_map.mp hmem
    cases heq
    exact .inr ⟨_, _, _, rfl, hfield, hrest⟩
  | index _ _ => cases hv

theorem HasPosition.take (h : HasPosition v segments) (n : Nat) :
    HasPosition v (segments.take n) := by
  obtain ⟨w, h⟩ := h
  induction segments generalizing v n with
  | nil => exact ⟨w, by simpa using h⟩
  | cons segment rest ih =>
    cases n with
    | zero => exact ⟨v, .here v⟩
    | succ n =>
      obtain ⟨child, hone, hrest⟩ := at_cons.mp h
      obtain ⟨found, hfound⟩ := ih n hrest
      exact ⟨found, at_cons.mpr ⟨child, hone, hfound⟩⟩

theorem fieldIn?_eq_some {fields : List (String × Value)} (hd : (fields.map (·.1)).Nodup)
    {name : String} :
    fieldIn? name (fields.map fun (name, value) => (.text name, value)) = some v ↔
      (name, v) ∈ fields := by
  induction fields with
  | nil => simp [fieldIn?]
  | cons field rest ih =>
    obtain ⟨other, value⟩ := field
    simp only [List.map_cons, List.nodup_cons] at hd
    simp only [List.map_cons, fieldIn?, text?]
    by_cases hn : other = name
    · subst hn
      have hout : ∀ u, (other, u) ∉ rest :=
        fun u hu => hd.1 (List.mem_map.mpr ⟨(other, u), hu, rfl⟩)
      simp [hout, eq_comm]
    · simp [hn, Ne.symm hn, ih hd.2]

theorem Tree.of_map {entries : List (Value × Value)} (h : Tree leaf (.map entries)) :
    ∃ fields : List (String × Value), (fields.map (·.1)).Nodup ∧
      (∀ field ∈ fields, Tree leaf field.2) ∧ Value.map entries = ofFields fields := by
  generalize hv : Value.map entries = v at h
  cases h with
  | leaf hs _ =>
    subst hv
    cases hs
  | list _ => cases hv
  | map hd hf => exact ⟨_, hd, hf, rfl⟩

theorem Tree.of_list {items : List Value} (h : Tree leaf (.list items)) :
    ∀ item ∈ items, Tree leaf item := by
  generalize hv : Value.list items = v at h
  cases h with
  | leaf hs _ =>
    subst hv
    cases hs
  | list hi =>
    cases hv
    exact hi
  | map _ _ => cases hv

theorem Tree.fieldIn?_eq_some {entries : List (Value × Value)} {name : String}
    (h : Tree leaf (.map entries)) :
    fieldIn? name entries = some w ↔ (.text name, w) ∈ entries := by
  obtain ⟨fields, hd, -, hv⟩ := h.of_map
  cases hv
  rw [Value.fieldIn?_eq_some hd, List.mem_map]
  constructor
  · intro hmem
    exact ⟨_, hmem, rfl⟩
  · rintro ⟨_, hmem, heq⟩
    cases heq
    exact hmem

theorem Tree.at (h : Tree leaf v) (hat : At v segments w) : Tree leaf w := by
  induction hat with
  | here => exact h
  | field hmem _ ih =>
    obtain ⟨fields, -, hf, hv⟩ := h.of_map
    cases hv
    obtain ⟨field, hfield, heq⟩ := List.mem_map.mp hmem
    cases heq
    exact ih (hf field hfield)
  | index hget _ ih => exact ih (h.of_list _ (List.mem_of_getElem? hget))

/-- Scalars of a tree are known by their positions. -/
theorem Tree.of_positions {other : Value → Prop} (h : Tree leaf v)
    (hall : ∀ segments w, At v segments w → w.isScalar → leaf w → other w) : Tree other v := by
  induction h with
  | leaf hs hl => exact .leaf hs (hall [] _ (.here _) hs hl)
  | list _ ih =>
    refine .list fun item hitem => ?_
    obtain ⟨i, hi⟩ := List.mem_iff_getElem?.mp hitem
    exact ih item hitem fun segments w hat => hall (.index i :: segments) w (.index hi hat)
  | map hd _ ih =>
    refine .map hd fun field hfield => ?_
    exact ih field hfield fun segments w hat =>
      hall (.field field.1 :: segments) w (hat.under hfield)

/-! A tree has no records in it that would be replaced by mappings. -/

theorem expandItems_eq_self (items : List Value) (h : ∀ item ∈ items, item.expand = item) :
    expandItems items = items := by
  induction items with
  | nil => rfl
  | cons item rest ih =>
    rw [expandItems, h item List.mem_cons_self, ih fun v hv => h v (List.mem_cons_of_mem _ hv)]

theorem expandFields_eq (fields : List (String × Value))
    (h : ∀ field ∈ fields, field.2.expand = field.2) :
    expandFields fields = fields.map fun (name, value) => (.text name, value) := by
  induction fields with
  | nil => rfl
  | cons field rest ih =>
    obtain ⟨name, value⟩ := field
    rw [expandFields, h (name, value) List.mem_cons_self,
      ih fun f hf => h f (List.mem_cons_of_mem _ hf), List.map_cons]

theorem expandEntries_fields (fields : List (String × Value)) :
    expandEntries (fields.map fun (name, value) => (.text name, value)) =
      expandFields fields := by
  induction fields with
  | nil => rfl
  | cons field rest ih =>
    rw [List.map_cons, expandEntries, ih, Value.expand, expandFields]
    all_goals simp

theorem Tree.expand (h : Tree leaf v) : v.expand = v := by
  induction h with
  | @leaf v hs _ => cases v <;> first | rfl | cases hs
  | list _ ih => rw [Value.expand, expandItems_eq_self _ ih]
  | map _ _ ih => rw [ofFields, Value.expand, expandEntries_fields, expandFields_eq _ ih]

theorem opened_record (type : String) {fields : List (String × Value)}
    (h : ∀ field ∈ fields, Tree leaf field.2) : (record type fields).opened = ofFields fields := by
  rw [Value.opened, Value.expand, expandFields_eq fields fun field hf => (h field hf).expand,
    ofFields]

theorem Tree.opened (h : Tree leaf v) : v.opened = v := by
  cases h with
  | leaf hs _ => cases v <;> first | rfl | cases hs
  | list _ => rfl
  | map _ _ => rfl

end Rehearsal.Value
