import Rehearsal.Proofs.Document.Encoded
import Rehearsal.Proofs.Json.Fraction
import Rehearsal.Proofs.Json.Tree
import Rehearsal.Proofs.Number.Literal

/-! Numbers that are sent on. A decimal is read with all its digits but goes out as its nearest
double, so it comes back as the shortest decimal of that double. That is the decimal that was sent
exactly if it is a literal; everything else in a message stays as it is. -/

namespace Rehearsal

/-- A double as it is found in a document that it was written to. -/
def Binary64.found : Binary64 → Value
  | .nan => .float .nan
  | .infinity negative => .float (.infinity negative)
  | .finite negative significand exponent =>
    .decimal (Decimal.ofShortest (.finite negative significand exponent))

/-- A scalar as it is found in a document that it was written to. -/
def Value.resent : Value → Value
  | .decimal d => d.toBinary64.found
  | .float x => x.found
  | v => v

namespace Json

open Binary64 (Proper)

variable {style : Style} {v w : Value} {segments : List Segment}

/-- The scalars that can be sent: those of JSON, integers up to the longest that are written. -/
inductive Sendable : Value → Prop
  | null : Sendable .null
  | bool (b : Bool) : Sendable (.bool b)
  | int {n : Int} : WritableInt n → Sendable (.int n)
  | float {x : Binary64} : (∀ negative s e, x = .finite negative s e → Proper s e) →
      Sendable (.float x)
  | decimal (d : Decimal) : Sendable (.decimal d)
  | text (s : String) : Sendable (.text s)

/-- Whether the scalars of a value stand at the same positions of another one as they are found. -/
def Resent (v w : Value) : Prop :=
  ∀ segments a, v.At segments a → a.isScalar = true → w.At segments a.resent

theorem readsAs_found {x : Binary64} (hnan : style.allowNan = true)
    (h : ∀ negative s e, x = .finite negative s e → Proper s e) :
    ∃ cs, writeFloat style x = .ok cs ∧ ReadsAs .exact cs x.found := by
  cases x with
  | finite negative s e => exact ⟨_, rfl, readsAs_double negative (h negative s e rfl)⟩
  | nan =>
    refine ⟨"NaN".toList, by simp [writeFloat, hnan, Binary64.isFinite, Binary64.isNan], ?_⟩
    exact .of_succ ⟨'N', _, rfl, by decide⟩ fun _ _ _ _ => rfl
  | infinity negative =>
    cases negative with
    | false =>
      refine ⟨"Infinity".toList, by simp [writeFloat, hnan, Binary64.isFinite, Binary64.isNan,
        Binary64.isNegative], ?_⟩
      exact .of_succ ⟨'I', _, rfl, by decide⟩ fun _ _ _ _ => rfl
    | true =>
      refine ⟨"-Infinity".toList, by simp [writeFloat, hnan, Binary64.isFinite, Binary64.isNan,
        Binary64.isNegative], ?_⟩
      exact .of_succ ⟨'-', _, rfl, by decide⟩ fun _ _ _ _ => rfl

theorem proper_toBinary64 (d : Decimal) :
    ∀ negative s e, d.toBinary64 = .finite negative s e → Proper s e := by
  intro negative s e hmade
  cases d with
  | nan => cases hmade
  | infinity negative => cases hmade
  | finite m c f =>
    rcases Decimal.toBinary64_cases m c f with hinf | ⟨s', e', hproper, hfinite⟩
    · rw [hinf] at hmade
      cases hmade
    · rw [hfinite] at hmade
      cases hmade
      exact hproper

theorem resent_leaf (hnan : style.allowNan = true) (depth : Nat) (h : Sendable v) :
    ∃ cs, write style depth v = .ok cs ∧ ReadsAs .exact cs v.resent := by
  cases h with
  | null => exact ⟨_, by rw [write], readsAs_null⟩
  | bool b => exact ⟨_, by rw [write], readsAs_bool b⟩
  | int hn =>
    obtain ⟨cs, hwrite, hread⟩ := readsAs_int hn
    exact ⟨cs, by rw [write, hwrite], hread⟩
  | float hx =>
    obtain ⟨cs, hwrite, hread⟩ := readsAs_found hnan hx
    exact ⟨cs, by rw [write, hwrite], hread⟩
  | decimal d =>
    obtain ⟨cs, hwrite, hread⟩ := readsAs_found hnan (proper_toBinary64 d)
    exact ⟨cs, by rw [write, hwrite], hread⟩
  | text s => exact ⟨_, by rw [write], readsAs_text _ s⟩

theorem resent_list {items : List Value} {value : Value → Value}
    (h : ∀ item ∈ items, Resent item (value item)) :
    Resent (.list items) (.list (items.map value)) := by
  intro segments a hat hscalar
  cases hat with
  | here => cases hscalar
  | index hget hrest =>
    refine .index (List.getElem?_map.trans (congrArg _ hget)) ?_
    exact h _ (List.mem_of_getElem? hget) _ _ hrest hscalar

theorem resent_map {fields moved : List (String × Value)} {value : String × Value → Value}
    (hperm : moved.Perm fields) (h : ∀ field ∈ fields, Resent field.2 (value field)) :
    Resent (Value.ofFields fields)
      (Value.ofFields (moved.map fun field => (field.1, value field))) := by
  intro segments a hat hscalar
  rcases hat.of_ofFields with ⟨-, rfl⟩ | ⟨name, child, rest, rfl, hmem, hrest⟩
  · cases hscalar
  · refine (h _ hmem _ _ hrest hscalar).under ?_
    exact List.mem_map.mpr ⟨_, hperm.mem_iff.mpr hmem, rfl⟩

theorem resent_tree (hs : style.Spaced) (hnan : style.allowNan = true) (h : v.Tree Sendable)
    (depth : Nat) :
    ∃ cs w, write style depth v = .ok cs ∧ ReadsAs .exact cs w ∧ Resent v w := by
  induction h generalizing depth with
  | leaf hscalar hleaf =>
    obtain ⟨cs, hwrite, hread⟩ := resent_leaf hnan depth hleaf
    refine ⟨cs, _, hwrite, hread, fun segments a hat _ => ?_⟩
    obtain ⟨rfl, rfl⟩ := hat.of_scalar hscalar
    exact .here _
  | list _ ih =>
    choose! text value hwrite hread hresent using fun item hitem => ih item hitem (depth + 1)
    obtain ⟨cs, hcs, hlist⟩ := written_list hs depth hwrite hread
    exact ⟨cs, _, hcs, hlist, resent_list hresent⟩
  | map hd _ ih =>
    choose! text value hwrite hread hresent using fun field hfield => ih field hfield (depth + 1)
    obtain ⟨cs, moved, hcs, hperm, -, hmap⟩ := written_map hs depth hd hwrite hread
    exact ⟨cs, _, hcs, hmap, resent_map hperm hresent⟩

end Json

namespace Document

open Value Codec Json

variable {document tree body v w : Value} {d : Decimal} {path : Path} {segments : List Segment}
  {options : List (String × Value)}

theorem inMemory_of_at (hat : v.At segments w) (hinside : segments ≠ []) : v.InMemory := by
  cases hat with
  | here => exact absurd rfl hinside
  | field _ _ => exact ⟨nofun, rfl, nofun⟩
  | index _ _ => exact ⟨nofun, rfl, nofun⟩

theorem ofOptions_layout (hopt : ∀ option ∈ options, LayoutOption option) :
    ∃ style, Style.ofOptions options = .ok style ∧ style.Spaced ∧ style.allowNan = true := by
  refine ofOptions_induct hopt ⟨spaced_plain, rfl⟩ ?_
  rintro style option hoption ⟨hspaced, hnan⟩
  obtain ⟨style', hset, hspaced'⟩ := hspaced.set hoption
  refine ⟨style', hset, hspaced', ?_⟩
  obtain ⟨name, value⟩ := option
  rcases hoption with rfl | rfl | ⟨rfl, rfl | ⟨n, rfl⟩⟩
  all_goals
    cases hset
    exact hnan

theorem evaluate_resent (hopt : ∀ option ∈ options, LayoutOption option)
    (hbody : body.Tree Sendable) (hat : body.At segments v) (hscalar : v.isScalar = true)
    (hinside : segments ≠ []) :
    ∃ bytes, encodeWith body options = .ok (some bytes) ∧
      evaluate (.bytes bytes) ⟨segments⟩ = .ok v.resent := by
  obtain ⟨style, hstyle, hspaced, hnan⟩ := ofOptions_layout hopt
  obtain ⟨cs, w, hwrite, hread, hresent⟩ := resent_tree hspaced hnan hbody 0
  have hfound := hresent segments v hat hscalar
  refine ⟨Utf8.encode (String.ofList cs), ?_, ?_⟩
  · rw [encodeWith_json (inMemory_of_at hat hinside), hstyle, ok_bind, jsonText, hbody.opened,
      Json.text, hwrite]
    rfl
  · have hload : loadText (String.ofList cs) = .ok w := by
      refine loadText_of_readsAs ?_ (inMemory_of_at hfound hinside).1
      rwa [String.toList_ofList]
    have hbytes : load (.bytes (Utf8.encode (String.ofList cs))) = .ok w := by
      rw [load_bytes, load, hload]
    rw [evaluate, hbytes]
    exact follow_at (loadText_tree hload) hfound _ 0

theorem same_resent (d : Decimal) :
    (Value.resent (.decimal d)).same (.decimal d) = true ↔ d.Literal := by
  rw [Value.resent, Decimal.Literal]
  cases d.toBinary64 with
  | nan => rw [Binary64.found, Value.same]; rfl
  | infinity negative => rw [Binary64.found, Value.same]; rfl
  | finite negative s e => rw [Binary64.found, Value.same]; rfl

/-- A number that is read from a document and put anywhere into a message is found there with the
same value exactly if it is a literal. A number of up to fifteen digits is one, unless it is so large
or so small that its double has no full significand; no number of more than seventeen is. -/
theorem number_resent (hdocument : JsonDocument document tree)
    (hat : tree.At path.segments (.decimal d)) (hbody : body.Tree Sendable)
    (hplace : body.At segments (.decimal d)) (hinside : segments ≠ [])
    (hopt : ∀ option ∈ options, LayoutOption option) :
    evaluate document path = .ok (.decimal d) ∧
    (∃ bytes back, encodeWith body options = .ok (some bytes) ∧
      evaluate (.bytes bytes) ⟨segments⟩ = .ok back ∧
      (back.same (.decimal d) = true ↔ d.Literal)) ∧
    ∃ negative c e, d = .finite negative c e ∧
      (c < 10 ^ 15 → -307 ≤ Decimal.adjusted c e → Decimal.adjusted c e ≤ 307 → d.Literal) ∧
      (d.Literal → ∃ (m : Nat) (f : Int), m < 10 ^ 17 ∧ (c : ℚ) * 10 ^ e = m * 10 ^ f) := by
  refine ⟨?_, ?_, ?_⟩
  · rw [evaluate, hdocument.load]
    exact follow_at hdocument.tree hat path 0
  · obtain ⟨bytes, hencode, hfound⟩ := evaluate_resent hopt hbody hplace rfl hinside
    exact ⟨bytes, _, hencode, hfound, same_resent d⟩
  · cases hdocument.tree.at hat with
    | leaf _ hleaf =>
      cases d with
      | nan => cases hleaf
      | infinity negative => cases hleaf
      | finite negative c e =>
        exact ⟨negative, c, e, rfl, Decimal.literal_fifteen, Decimal.digits_of_literal⟩

theorem number_resent_price :
    let price : Decimal := .finite false 999 (-2)
    let order := ofFields [("name", .text "tea"), ("prices", .list [.decimal price])]
    JsonDocument (.text "[9.99]") (.list [.decimal price]) ∧ order.Tree Sendable ∧
      ∃ bytes back, encodeWith order [] = .ok (some bytes) ∧
        evaluate (.bytes bytes) ⟨[.field "prices", .index 0]⟩ = .ok back ∧
        back.same (.decimal price) = true := by
  intro price order
  have hdocument : JsonDocument (.text "[9.99]") (.list [.decimal price]) := by
    refine .text (loadText_eq ['[', '9', '.', '9', '9', ']'] (by rfl) (by rfl) (by rfl) nofun) ?_
    refine finite_tree (.list ?_)
    rintro item (_ | ⟨_, ⟨⟩⟩)
    exact .leaf rfl rfl
  have hprices : (Value.list [.decimal price]).Tree Sendable :=
    .list (by rintro item (_ | ⟨_, ⟨⟩⟩); exact .leaf rfl (.decimal price))
  have horder : order.Tree Sendable := by
    refine .map (by decide) ?_
    rintro field (_ | ⟨_, _ | ⟨_, ⟨⟩⟩⟩)
    · exact .leaf rfl (.text "tea")
    · exact hprices
  have hat : order.At [.field "prices", .index 0] (.decimal price) :=
    .field (List.mem_cons_of_mem _ List.mem_cons_self) (.index rfl (.here _))
  have hread : (Value.list [.decimal price]).At (Path.segments ⟨[.index 0]⟩) (.decimal price) :=
    .index rfl (.here _)
  obtain ⟨-, ⟨bytes, back, hencode, hfound, hsame⟩, negative, c, e, heq, hshort, -⟩ :=
    number_resent hdocument hread horder hat nofun (List.forall_mem_nil LayoutOption)
  obtain ⟨rfl, rfl, rfl⟩ := Decimal.finite.inj heq
  exact ⟨hdocument, horder, bytes, back, hencode, hfound,
    hsame.mpr (hshort (by decide) (by decide) (by decide))⟩

/-- A number of nineteen digits comes back as another one, and one beyond the doubles as no number. -/
theorem number_resent_digits :
    let amount : Decimal := .finite false 1234567890123456789 (-19)
    let huge : Decimal := .finite false 1 400
    let text := "[0.1234567890123456789, 1e+400]"
    let body := Value.list [.decimal amount, .decimal huge]
    evaluate (.text text) ⟨[.index 0]⟩ = .ok (.decimal amount) ∧
      evaluate (.text text) ⟨[.index 1]⟩ = .ok (.decimal huge) ∧
      ∃ bytes back, encodeWith body [] = .ok (some bytes) ∧
        evaluate (.bytes bytes) ⟨[.index 0]⟩ = .ok back ∧ back.same (.decimal amount) = false ∧
        evaluate (.bytes bytes) ⟨[.index 1]⟩ = .ok (.float (.infinity false)) := by
  intro amount huge text body
  -- the text is read part by part, the long fraction and the large exponent each as a decimal
  have hload : load (.text text) = .ok body := by
    have hdigits : Parts ['0'] "1234567890123456789".toList none false amount :=
      ⟨whole_zero, List.all_eq_true.mp (by decide), rfl, by decide +kernel⟩
    have hexponent : Parts ['1'] [] (some 400) false huge :=
      ⟨⟨'1', [], rfl, nofun, List.all_eq_true.mp (by decide)⟩, nofun, rfl, by decide +kernel⟩
    have hfirst := readsAs_parts hdigits ⟨_, _, rfl, by decide +kernel⟩
    have hsecond := readsAs_parts hexponent ⟨_, _, rfl, by decide +kernel⟩
    refine loadText_of_readsAs ?_ nofun
    convert readsAs_list spaced_plain 0 (.cons hfirst (.cons hsecond .nil)) using 1
    decide +kernel
  have hbody : body.Tree Sendable := by
    refine .list ?_
    rintro item (_ | ⟨_, _ | ⟨_, ⟨⟩⟩⟩)
    · exact .leaf rfl (.decimal amount)
    · exact .leaf rfl (.decimal huge)
  have hamount : body.At [.index 0] (.decimal amount) := .index rfl (.here _)
  have hhuge : body.At [.index 1] (.decimal huge) := .index rfl (.here _)
  have hnone := List.forall_mem_nil LayoutOption
  obtain ⟨bytes, hencode, hfirst⟩ := evaluate_resent hnone hbody hamount rfl nofun
  obtain ⟨bytes', hencode', hsecond⟩ := evaluate_resent hnone hbody hhuge rfl nofun
  obtain rfl : bytes = bytes' := Option.some.inj (Except.ok.inj (hencode.symm.trans hencode'))
  have hother : ¬amount.Literal := by
    have hdiffers : (Decimal.ofShortest amount.toBinary64).equal amount = false := by
      decide +kernel
    rw [Decimal.Literal, hdiffers]
    exact Bool.false_ne_true
  refine ⟨?_, ?_, bytes, _, hencode, hfirst, ?_, hsecond⟩
  · rw [evaluate, hload]
    rfl
  · rw [evaluate, hload]
    rfl
  · exact Bool.eq_false_iff.mpr (mt (same_resent amount).mp hother)

end Document

end Rehearsal
