import Rehearsal.Proofs.Json.Tree
import Rehearsal.Validation

/-! What an assertion about a value at a path decides. A decimal that is compared with a float itself
is rounded to it; every other number, and all numbers inside containers, are compared exactly, truth
values among them. This is JSON equality, with floats as they are written, as long as no number
stands in the place of a truth value or of a float that it equals in one of these readings only. -/

namespace Rehearsal

namespace Value

open Binary64 (Proper)

/-- Whether a float is exactly the number it is written as. -/
def Exact (x : Binary64) : Prop := (Decimal.ofShortest x).toRat? = x.toRat?

/-- Whether a number that equals a float, either exactly or as it is written, equals it both ways. -/
def Stands (x : Binary64) (q : ℚ) : Prop :=
  x.toRat? = some q ∨ (Decimal.ofShortest x).toRat? = some q → Exact x

/-- Whether two scalars that are compared cannot be mistaken for equal or for different. A number in
the place of a truth value is another one than its 0 or 1. An integer from `2 ^ 53` on, or a decimal
inside a container, that equals a float in its place equals it in both ways. A decimal that is
compared with a float directly and rounded to it is a literal. -/
def Clear (direct : Bool) : Value → Value → Prop
  | .bool _, .bool _ => True
  | .bool b, w => exactValue? w ≠ some (if b then 1 else 0)
  | v, .bool b => exactValue? v ≠ some (if b then 1 else 0)
  | .float x, .int n => 2 ^ 53 ≤ n.natAbs → Stands x n
  | .int n, .float x => 2 ^ 53 ≤ n.natAbs → Stands x n
  | .float x, .decimal d =>
    if direct then d.toBinary64.equal x = true → d.Literal else ∀ q, d.toRat? = some q → Stands x q
  | .decimal d, .float x =>
    if direct then d.toBinary64.equal x = true → d.Literal else ∀ q, d.toRat? = some q → Stands x q
  | _, _ => True

/-- Whether two values are one number. -/
def SameNumber (number : Value → Option ℚ) (v w : Value) : Prop :=
  ∃ q, number v = some q ∧ number w = some q

variable {v w e tree : Value} {x : Binary64} {q : ℚ} {n : Int} {direct : Bool}

theorem stands_iff (h : Stands x q) :
    x.toRat? = some q ↔ (Decimal.ofShortest x).toRat? = some q := by
  constructor
  · intro hexact
    rw [h (.inl hexact), hexact]
  · intro hwritten
    rw [← h (.inr hwritten), hwritten]

theorem SameNumber.comm {number : Value → Option ℚ} :
    SameNumber number v w ↔ SameNumber number w v := by
  simp only [SameNumber, and_comm]

theorem Clear.symm (h : Clear direct v w) : Clear direct w v := by
  cases v <;> cases w <;> exact h

theorem Tree.proper {x : Binary64} (h : (Value.float x).Tree JsonLeaf) :
    ∃ negative significand exponent,
      x = .finite negative significand exponent ∧ Proper significand exponent := by
  cases h with
  | leaf _ hleaf =>
    cases x with
    | finite negative s e => exact ⟨negative, s, e, rfl, hleaf⟩
    | _ => cases hleaf

theorem Tree.toRat?_decimal {d : Decimal} (h : (Value.decimal d).Tree JsonLeaf) :
    ∃ q, d.toRat? = some q := by
  cases h with
  | leaf _ hleaf =>
    cases d with
    | finite negative c e => exact ⟨_, Decimal.toRat?_finite negative c e⟩
    | _ => cases hleaf

theorem sameNumber_iff_left {number : Value → Option ℚ} (hv : number v = some q) :
    SameNumber number v w ↔ number w = some q := by
  constructor
  · rintro ⟨p, hp, hw⟩
    rwa [← hv, hp]
  · exact fun hw => ⟨q, hv, hw⟩

theorem sameNumber_float (hexact : exactValue? w = some q) (hwritten : writtenValue? w = some q)
    (h : x.toRat? = some q ↔ (Decimal.ofShortest x).toRat? = some q) :
    SameNumber exactValue? (.float x) w ↔ SameNumber writtenValue? (.float x) w := by
  rw [SameNumber.comm, sameNumber_iff_left hexact, SameNumber.comm, sameNumber_iff_left hwritten]
  exact h

theorem Clear.float (hv : (Value.float x).Tree JsonLeaf) (hw : w.Tree JsonLeaf)
    (h : Clear false (.float x) w) (hbool : ∀ b, w ≠ .bool b) :
    SameNumber exactValue? (.float x) w ↔ SameNumber writtenValue? (.float x) w := by
  obtain ⟨negative, s, e, rfl, hproper⟩ := hv.proper
  cases w with
  | bool b => exact absurd rfl (hbool b)
  | int n =>
    refine sameNumber_float rfl rfl ?_
    by_cases hsmall : n.natAbs < 2 ^ 53
    · exact Decimal.toRat?_iff_written hsmall hproper
    · exact stands_iff (h (not_lt.mp hsmall))
  | decimal d =>
    obtain ⟨q, hq⟩ := hw.toRat?_decimal
    exact sameNumber_float hq hq (stands_iff (h q hq))
  | float y =>
    obtain ⟨negative', t, f, rfl, hproper'⟩ := hw.proper
    obtain ⟨r, hr⟩ := Decimal.exists_toRat?_ofShortest negative' t f
    have hvalue := Binary64.toRat?_finite negative' t f
    have hsame := Decimal.toRat?_ofShortest_inj (a := negative) (b := negative') hproper hproper'
    rw [hvalue, hr] at hsame
    rw [SameNumber.comm, sameNumber_iff_left (v := .float (.finite negative' t f)) hvalue,
      SameNumber.comm, sameNumber_iff_left (v := .float (.finite negative' t f)) hr]
    exact hsame
  | _ => simp [SameNumber, exactValue?, writtenValue?]

theorem Clear.bool {b : Bool} (h : Clear false (.bool b) w) (hw : ∀ c, w ≠ .bool c) :
    ¬SameNumber exactValue? (.bool b) w := by
  rw [sameNumber_iff_left (q := if b then 1 else 0) rfl]
  cases w with
  | bool c => exact absurd rfl (hw c)
  | _ => exact h

theorem not_written_bool {b : Bool} : ¬SameNumber writtenValue? (.bool b) w := nofun

theorem writtenValue?_eq_exactValue? (hbool : ∀ b, v ≠ .bool b) (hfloat : ∀ x, v ≠ .float x) :
    writtenValue? v = exactValue? v := by
  cases v with
  | bool b => exact absurd rfl (hbool b)
  | float x => exact absurd rfl (hfloat x)
  | _ => rfl

theorem Clear.sameNumber_iff (hv : v.Tree JsonLeaf) (hw : w.Tree JsonLeaf) (h : Clear false v w) :
    SameNumber exactValue? v w ↔ SameNumber writtenValue? v w ∨ ∃ b, v = .bool b ∧ w = .bool b := by
  -- truth values first, then floats; what is neither is written exactly
  by_cases hbool : ∃ b, v = .bool b
  · obtain ⟨b, rfl⟩ := hbool
    by_cases hbool' : ∃ c, w = .bool c
    · obtain ⟨c, rfl⟩ := hbool'
      cases b <;> cases c <;> simp [SameNumber, exactValue?, writtenValue?]
    · have hno : ∀ c, w ≠ .bool c := fun c hc => hbool' ⟨c, hc⟩
      refine iff_of_false (h.bool hno) ?_
      rintro (hsame | ⟨c, -, hc⟩)
      · exact not_written_bool hsame
      · exact hno c hc
  · have hno : ∀ b, v ≠ .bool b := fun b hb => hbool ⟨b, hb⟩
    have hright : ¬∃ b, v = .bool b ∧ w = .bool b := by
      rintro ⟨b, hb, -⟩
      exact hno b hb
    rw [or_iff_left hright]
    by_cases hbool' : ∃ c, w = .bool c
    · obtain ⟨c, rfl⟩ := hbool'
      rw [SameNumber.comm, SameNumber.comm (v := v)]
      exact iff_of_false (h.symm.bool hno) not_written_bool
    · have hno' : ∀ c, w ≠ .bool c := fun c hc => hbool' ⟨c, hc⟩
      by_cases hfloat : ∃ x, v = .float x
      · obtain ⟨x, rfl⟩ := hfloat
        exact h.float hv hw hno'
      by_cases hfloat' : ∃ x, w = .float x
      · obtain ⟨x, rfl⟩ := hfloat'
        rw [SameNumber.comm, SameNumber.comm (v := v)]
        exact h.symm.float hw hv hno
      · rw [SameNumber, SameNumber, writtenValue?_eq_exactValue? hno fun x hx => hfloat ⟨x, hx⟩,
          writtenValue?_eq_exactValue? hno' fun x hx => hfloat' ⟨x, hx⟩]

theorem Clear.equalBy_iff (hs : v.isScalar = true) (hv : v.Tree JsonLeaf) (hw : w.Tree JsonLeaf)
    (h : Clear false v w) : EqualBy exactValue? v w ↔ EqualBy writtenValue? v w := by
  have hnumbers := h.sameNumber_iff hv hw
  constructor
  · intro hequal
    cases hequal with
    | null => exact .null
    | bool b => exact .bool b
    | text s => exact .text s
    | number hp hq =>
      rcases hnumbers.mp ⟨_, hp, hq⟩ with ⟨q, hp', hq'⟩ | ⟨b, rfl, rfl⟩
      · exact .number hp' hq'
      · exact .bool b
    | list _ => cases hs
    | map _ _ => cases hs
  · intro hequal
    cases hequal with
    | null => exact .null
    | bool b => exact .bool b
    | text s => exact .text s
    | number hp hq =>
      obtain ⟨q, hp', hq'⟩ := hnumbers.mpr (.inl ⟨_, hp, hq⟩)
      exact .number hp' hq'
    | list _ => cases hs
    | map _ _ => cases hs

theorem EqualBy.congr_list {f g : Value → Option ℚ} {items : List Value}
    (hf : f (.list items) = none)
    (h : ∀ others : List Value, w = .list others → ∀ (i : Nat) (a b : Value), items[i]? = some a →
      others[i]? = some b → EqualBy f a b → EqualBy g a b)
    (hequal : EqualBy f (.list items) w) : EqualBy g (.list items) w := by
  obtain ⟨others, rfl, hall⟩ := hequal.of_list hf
  refine .list (List.forall₂_iff_get.mpr ⟨hall.length_eq, ?_⟩)
  intro i hi ho
  refine h others rfl i _ _ (List.getElem?_eq_getElem hi) (List.getElem?_eq_getElem ho) ?_
  exact (List.forall₂_iff_get.mp hall).2 i hi ho

theorem EqualBy.congr_map {f g : Value → Option ℚ} {fields : List (String × Value)}
    (hf : f (ofFields fields) = none)
    (h : ∀ others, w = ofFields others → ∀ name a b, (name, a) ∈ fields → (name, b) ∈ others →
      EqualBy f a b → EqualBy g a b)
    (hequal : EqualBy f (ofFields fields) w) : EqualBy g (ofFields fields) w := by
  obtain ⟨others, rfl, hnames, hvalues⟩ := hequal.of_map hf
  exact .map hnames fun name a b ha hb => h others rfl name a b ha hb (hvalues name a b ha hb)

theorem equalBy_iff (hv : v.Tree JsonLeaf) (hw : w.Tree JsonLeaf)
    (h : ∀ segments a b, v.At segments a → w.At segments b → Clear false a b) :
    EqualBy exactValue? v w ↔ EqualBy writtenValue? v w := by
  induction hv generalizing w with
  | @leaf v hs hleaf => exact (h [] v w (.here v) (.here w)).equalBy_iff hs (.leaf hs hleaf) hw
  | @list items _ ih =>
    have hitem : ∀ others : List Value, w = .list others → ∀ (i : Nat) (a b : Value),
        items[i]? = some a → others[i]? = some b →
          (EqualBy exactValue? a b ↔ EqualBy writtenValue? a b) := by
      rintro others rfl i a b ha hb
      refine ih a (List.mem_of_getElem? ha) (hw.of_list _ (List.mem_of_getElem? hb)) ?_
      intro segments c d hc hd
      exact h (.index i :: segments) c d (.index ha hc) (.index hb hd)
    constructor
    · exact EqualBy.congr_list rfl fun others ho i a b ha hb => (hitem others ho i a b ha hb).mp
    · exact EqualBy.congr_list rfl fun others ho i a b ha hb => (hitem others ho i a b ha hb).mpr
  | @map fields _ _ ih =>
    have hfield : ∀ others, w = ofFields others → ∀ name a b, (name, a) ∈ fields →
        (name, b) ∈ others → (EqualBy exactValue? a b ↔ EqualBy writtenValue? a b) := by
      rintro others rfl name a b ha hb
      refine ih _ ha (hw.of_ofFields.2 _ hb) ?_
      intro segments c d hc hd
      exact h (.field name :: segments) c d (hc.under ha) (hd.under hb)
    constructor
    · exact EqualBy.congr_map rfl fun others ho n a b ha hb => (hfield others ho n a b ha hb).mp
    · exact EqualBy.congr_map rfl fun others ho n a b ha hb => (hfield others ho n a b ha hb).mpr

theorem ne_of_bool {b : Bool} (he : ∀ c, e ≠ .bool c)
    (h : EqualBy exactValue? (.bool b) e → EqualBy writtenValue? (.bool b) e) :
    exactValue? e ≠ some (if b then 1 else 0) := by
  intro hexact
  cases h (.number rfl hexact) with
  | bool _ => exact he b rfl
  | number hb _ => cases hb

theorem stands_of_iff {x : Binary64} {n : Int}
    (h : EqualBy exactValue? (.float x) (.int n) ↔ EqualBy writtenValue? (.float x) (.int n)) :
    Stands x n := by
  have hboth : x.toRat? = some (n : ℚ) ↔ (Decimal.ofShortest x).toRat? = some (n : ℚ) := by
    constructor
    · intro hexact
      cases h.mp (.number hexact rfl) with
      | number hx hn => exact hx.trans hn.symm
    · intro hwritten
      cases h.mpr (.number hwritten rfl) with
      | number hx hn => exact hx.trans hn.symm
  rintro (hexact | hwritten)
  · rw [Exact, hboth.mp hexact, hexact]
  · rw [Exact, hboth.mpr hwritten, hwritten]

theorem literal_of_equal {d : Decimal} {x : Binary64} (hd : (Value.decimal d).Tree JsonLeaf)
    (hx : (Value.float x).Tree JsonLeaf)
    (h : d.toBinary64.equal x = true → EqualBy writtenValue? (.float x) (.decimal d))
    (hequal : d.toBinary64.equal x = true) : d.Literal := by
  obtain ⟨q, hq⟩ := hd.toRat?_decimal
  obtain ⟨negative, s, e, rfl, hproper⟩ := hx.proper
  cases h hequal with
  | number hx hp =>
    exact (Decimal.literal_iff hq hproper hequal).mpr (hx.trans (hp.symm.trans hq))

end Value

namespace Validation

open Value

variable {r : StepResult} {path : Path} {tree v e : Value}

/-- When an expected value is found: a decimal and a float are compared as floats, everything else
exactly. -/
def Agrees : Value → Value → Prop
  | .decimal d, .float x => d.toBinary64.equal x = true
  | .float x, .decimal d => d.toBinary64.equal x = true
  | v, e => EqualBy exactValue? v e

theorem agree_iff (hv : v.Tree JsonLeaf) (he : e.Tree JsonLeaf) :
    agree v e = true ↔ Agrees v e := by
  have hsame := same_iff_equalBy hv he
  cases v with
  | decimal d =>
    cases e with
    | float x => rw [agree, Agrees]
    | _ => exact hsame
  | float x =>
    cases e with
    | decimal d => rw [agree, Agrees, Binary64.equal_comm]
    | _ => exact hsame
  | _ => exact hsame

theorem direct_iff {d : Decimal} {x : Binary64} (hd : (Value.decimal d).Tree JsonLeaf)
    (hx : (Value.float x).Tree JsonLeaf) (h : d.toBinary64.equal x = true → d.Literal) :
    d.toBinary64.equal x = true ↔ EqualBy writtenValue? (.decimal d) (.float x) := by
  obtain ⟨q, hq⟩ := hd.toRat?_decimal
  obtain ⟨negative, s, e, rfl, hproper⟩ := hx.proper
  constructor
  · intro hequal
    exact .number hq ((Decimal.literal_iff hq hproper hequal).mp (h hequal))
  · intro hequal
    cases hequal with
    | number hp hw => exact Decimal.equal_of_written hq hproper (hw.trans (hp.symm.trans hq))

/-- Where scalars that are compared are clear of each other, agreement is equality as JSON. -/
theorem agrees_iff (hv : v.Tree JsonLeaf) (he : e.Tree JsonLeaf)
    (h : ∀ segments a b, v.At segments a → e.At segments b → Clear segments.isEmpty a b) :
    Agrees v e ↔ EqualBy writtenValue? v e := by
  have hroot : Clear true v e := h [] v e (.here v) (.here e)
  -- only a decimal and a float are compared in another way directly than inside a container
  have hexact : Clear false v e → (EqualBy exactValue? v e ↔ EqualBy writtenValue? v e) := by
    intro hclear
    refine equalBy_iff hv he ?_
    intro segments a b ha hb
    cases segments with
    | nil =>
      cases ha
      cases hb
      exact hclear
    | cons segment rest => exact h _ a b ha hb
  cases v with
  | decimal d =>
    cases e with
    | float x => exact direct_iff hv he hroot
    | _ => exact hexact hroot
  | float x =>
    cases e with
    | decimal d => exact (direct_iff he hv hroot).trans (EqualBy.comm rfl rfl)
    | _ => exact hexact hroot
  | _ => cases e <;> exact hexact hroot

/-- Conversely, scalars are clear of each other if they agree exactly if they are equal as JSON. -/
theorem clear_of_agrees_iff (hv : v.Tree JsonLeaf) (he : e.Tree JsonLeaf) (hs : v.isScalar = true)
    (hs' : e.isScalar = true) (h : Agrees v e ↔ EqualBy writtenValue? v e) : Clear true v e := by
  have hright : ∀ {b}, (EqualBy exactValue? v (.bool b) → EqualBy writtenValue? v (.bool b)) →
      EqualBy exactValue? (.bool b) v → EqualBy writtenValue? (.bool b) v :=
    fun hb hequal => (hb (hequal.symm rfl)).symm hs
  cases v with
  | bool b =>
    cases e with
    | bool c => trivial
    | _ => exact ne_of_bool nofun h.mp
  | int n =>
    cases e with
    | bool b => exact ne_of_bool nofun (hright h.mp)
    | float x =>
      have hcomm := (EqualBy.comm rfl rfl).trans (h.trans (EqualBy.comm rfl rfl))
      exact fun _ => stands_of_iff hcomm
    | _ => trivial
  | float x =>
    cases e with
    | bool b => exact ne_of_bool nofun (hright h.mp)
    | int n => exact fun _ => stands_of_iff h
    | decimal d => exact literal_of_equal he hv h.mp
    | _ => trivial
  | decimal d =>
    cases e with
    | bool b => exact ne_of_bool nofun (hright h.mp)
    | float x => exact literal_of_equal hv he fun hequal => (h.mp hequal).symm rfl
    | _ => trivial
  | _ => cases e <;> first | trivial | exact ne_of_bool nofun (hright h.mp)

theorem judge_jsonPath (message : Option String) (hload : Document.load r.payload = .ok tree)
    (htree : tree.Tree JsonLeaf) (hat : tree.At path.segments v) :
    judge r (.jsonPath (.ok path) none .anything (some e) message) =
      if agree v e then .ok ()
      else refuse ("Expected " ++ path.text ++ " to equal " ++ e.shown ++ " but was " ++ v.shown)
        (some path.text) (.value e) (.value v) := by
  have hfound : Document.evaluateAs r.payload path .anything = .ok v := by
    rw [Document.evaluateAs, Document.evaluate, hload]
    dsimp only
    rw [Document.follow_at htree hat]
    rfl
  change checkJsonPath r path none .anything (some e) message = _
  unfold checkJsonPath
  rw [hfound]
  cases hagree : agree v e <;> simp [hagree]

/-- A value at a path is asserted to equal an expected one. The assertion passes exactly if they
agree, and else it fails and names the path and both values. Where the scalars that are compared are
clear of each other it passes exactly if both are one JSON value, floats being the decimals they are
written as, and of scalars compared directly it is right about no others. -/
theorem jsonPath_decides (message : Option String) (hdocument : JsonDocument r.payload tree)
    (hat : tree.At path.segments v) (he : e.Tree JsonLeaf) :
    (judge r (.jsonPath (.ok path) none .anything (some e) message) = .ok () ↔ Agrees v e) ∧
    (¬Agrees v e → judge r (.jsonPath (.ok path) none .anything (some e) message) =
      .error (.assertionFailure
        ("Expected " ++ path.text ++ " to equal " ++ e.shown ++ " but was " ++ v.shown)
        (some path.text) (.value e) (.value v) none)) ∧
    ((∀ segments a b, v.At segments a → e.At segments b → Clear segments.isEmpty a b) →
      (judge r (.jsonPath (.ok path) none .anything (some e) message) = .ok () ↔
        EqualBy writtenValue? v e)) ∧
    (v.isScalar = true → e.isScalar = true →
      (judge r (.jsonPath (.ok path) none .anything (some e) message) = .ok () ↔
        EqualBy writtenValue? v e) → Clear true v e) := by
  have hv := hdocument.tree.at hat
  have hjudge := judge_jsonPath (e := e) message hdocument.load hdocument.tree hat
  have hpasses : judge r (.jsonPath (.ok path) none .anything (some e) message) = .ok () ↔
      Agrees v e := by
    rw [hjudge, ← agree_iff hv he]
    cases agree v e <;> simp [refuse]
  refine ⟨hpasses, ?_, ?_, ?_⟩
  · intro hdiffer
    rw [hjudge, if_neg (mt (agree_iff hv he).mp hdiffer), refuse]
  · intro hclear
    rw [hpasses, agrees_iff hv he hclear]
  · intro hs hs' hright
    rw [hpasses] at hright
    exact clear_of_agrees_iff hv he hs hs' hright

theorem jsonPath_decides_order :
    let r : StepResult := ⟨.http, true, some 200, none,
      .text "\x7b\"a\":\x7b\"n\":0.5,\"q\":2\x7d\x7d", [], [], [], none, {}, []⟩
    let path : Path := ⟨[.field "a"]⟩
    let v := ofFields [("n", .decimal (.finite false 5 (-1))), ("q", .int 2)]
    let half : Binary64 := .finite false 4503599627370496 (-53)
    let two : Binary64 := .finite false 4503599627370496 (-51)
    let e := ofFields [("q", .float two), ("n", .float half)]
    JsonDocument r.payload (ofFields [("a", v)]) ∧ (ofFields [("a", v)]).At path.segments v ∧
      e.Tree JsonLeaf ∧
      (∀ segments a b, v.At segments a → e.At segments b → Clear segments.isEmpty a b) ∧
      judge r (.jsonPath (.ok path) none .anything (some e) none) = .ok () := by
  intro r path v half two e
  have hv : v.Tree JsonLeaf := by
    refine .map (by decide) ?_
    rintro field (_ | ⟨_, (_ | ⟨_, ⟨⟩⟩)⟩)
    · exact .leaf rfl rfl
    · exact .leaf rfl trivial
  have htree : (ofFields [("a", v)]).Tree JsonLeaf := by
    refine .map (by decide) ?_
    rintro field (_ | ⟨_, ⟨⟩⟩)
    exact hv
  have hat : (ofFields [("a", v)]).At path.segments v := .field List.mem_cons_self (.here v)
  have he : e.Tree JsonLeaf := by
    refine .map (by decide) ?_
    rintro field (_ | ⟨_, (_ | ⟨_, ⟨⟩⟩)⟩)
    · exact .leaf rfl ⟨by decide, by decide, by decide, by decide⟩
    · exact .leaf rfl ⟨by decide, by decide, by decide, by decide⟩
  have hhalf : Exact half := by
    rw [Exact]
    decide +kernel
  have hpair : ∀ name a b, (name, a) ∈ [("n", Value.decimal (.finite false 5 (-1))), ("q", .int 2)] →
      (name, b) ∈ [("q", Value.float two), ("n", .float half)] →
      (a = .decimal (.finite false 5 (-1)) ∧ b = .float half) ∨ (a = .int 2 ∧ b = .float two) := by
    intro name a b ha hb
    simp only [List.mem_cons, Prod.mk.injEq, List.not_mem_nil, or_false] at ha hb
    rcases ha with ⟨rfl, rfl⟩ | ⟨rfl, rfl⟩
    · simpa using hb
    · simpa using hb
  have hclear : ∀ segments a b, v.At segments a → e.At segments b →
      Clear segments.isEmpty a b := by
    intro segments a b ha hb
    rcases ha.of_ofFields with ⟨rfl, rfl⟩ | ⟨name, child, rest, rfl, hchild, hrest⟩
    · rcases hb.of_ofFields with ⟨-, rfl⟩ | ⟨_, _, _, hnil, -, -⟩
      · trivial
      · cases hnil
    · rcases hb.of_ofFields with ⟨hnil, -⟩ | ⟨other, child', rest', hcons, hchild', hrest'⟩
      · cases hnil
      · cases hcons
        rcases hpair _ _ _ hchild hchild' with ⟨rfl, rfl⟩ | ⟨rfl, rfl⟩
        · obtain ⟨rfl, rfl⟩ := hrest.of_scalar rfl
          obtain ⟨-, rfl⟩ := hrest'.of_scalar rfl
          exact fun _ _ _ => hhalf
        · obtain ⟨rfl, rfl⟩ := hrest.of_scalar rfl
          obtain ⟨-, rfl⟩ := hrest'.of_scalar rfl
          exact fun hlarge => absurd hlarge (by decide)
  have hdocument : JsonDocument r.payload (ofFields [("a", v)]) := by
    refine .text (Document.loadText_eq ['\x7b', '"', 'a', '"', ':', '\x7b', '"', 'n', '"', ':', '0',
      '.', '5', ',', '"', 'q', '"', ':', '2', '\x7d', '\x7d'] (by rfl) (by rfl) (by rfl) nofun)
      (finite_tree htree)
  refine ⟨hdocument, hat, he, hclear, ?_⟩
  refine ((jsonPath_decides none hdocument hat he).2.2.1 hclear).mpr ?_
  have hnames : ∀ name : String, name ∈ ["n", "q"] ↔ name ∈ ["q", "n"] := by
    intro name
    simp [or_comm]
  refine .map hnames ?_
  intro name a b ha hb
  rcases hpair name a b ha hb with ⟨rfl, rfl⟩ | ⟨rfl, rfl⟩
  · exact .number (q := 1 / 2) (by decide +kernel) (by decide +kernel)
  · exact .number (q := 2) (by decide +kernel) (by decide +kernel)

/-- Inside a container a float does not stand for the decimal it is written as, and a truth value
passes for a number. -/
theorem jsonPath_decides_nested :
    let found (text : String) : StepResult :=
      ⟨.http, true, some 200, none, .text text, [], [], [], none, {}, []⟩
    let passes (r : StepResult) (e : Value) : Prop :=
      judge r (.jsonPath (.ok ⟨[.index 0]⟩) none .anything (some e) none) = .ok ()
    let tenth : Binary64 := .finite false 7205759403792794 (-56)
    let v := Value.list [.decimal (.finite false 1 (-1))]
    let e := Value.list [.float tenth]
    JsonDocument (found "[[0.1]]").payload (.list [v]) ∧ (Value.list [v]).At [.index 0] v ∧
      e.Tree JsonLeaf ∧ EqualBy writtenValue? v e ∧ ¬passes (found "[[0.1]]") e ∧
    JsonDocument (found "[true]").payload (.list [.bool true]) ∧
      (Value.list [.bool true]).At [.index 0] (.bool true) ∧
      ¬EqualBy writtenValue? (.bool true) (.int 1) ∧ passes (found "[true]") (.int 1) := by
  intro found passes tenth v e
  have hlist : ∀ w : Value, w.Tree JsonLeaf → (Value.list [w]).Tree JsonLeaf := by
    intro w hw
    refine .list ?_
    rintro item (_ | ⟨_, ⟨⟩⟩)
    exact hw
  have hat : ∀ w : Value, (Value.list [w]).At [.index 0] w := fun w => .index rfl (.here w)
  have hv : v.Tree JsonLeaf := hlist _ (.leaf rfl rfl)
  have hdocument : JsonDocument (found "[[0.1]]").payload (.list [v]) := by
    refine .text (Document.loadText_eq ['[', '[', '0', '.', '1', ']', ']'] (by rfl) (by rfl) (by rfl)
      nofun) (finite_tree (hlist v hv))
  have hdocument' : JsonDocument (found "[true]").payload (.list [.bool true]) := by
    refine .text (Document.loadText_eq ['[', 't', 'r', 'u', 'e', ']'] (by rfl) (by rfl) (by rfl)
      nofun) (finite_tree (hlist _ (.leaf rfl trivial)))
  refine ⟨hdocument, hat v, hlist _ ?_, ?_, ?_, hdocument', hat _, ?_, ?_⟩
  · exact .leaf rfl ⟨by decide, by decide, by decide, by decide⟩
  · exact .list (.cons (.number (q := 1 / 10) (by decide +kernel) (by decide +kernel)) .nil)
  · have hdiffer : agree v e = false := by decide +kernel
    intro hpass
    change judge _ _ = _ at hpass
    rw [judge_jsonPath none hdocument.load hdocument.tree (hat v), hdiffer] at hpass
    cases hpass
  · intro hequal
    cases hequal with
    | number hb _ => cases hb
  · have hagree : agree (.bool true) (.int 1) = true := by decide +kernel
    change judge _ _ = _
    rw [judge_jsonPath none hdocument'.load hdocument'.tree (hat _), hagree]
    rfl

end Validation

end Rehearsal
