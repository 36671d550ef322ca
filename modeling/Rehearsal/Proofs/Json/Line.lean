import Rehearsal.Proofs.Fallible
import Rehearsal.Proofs.Json.Fraction
import Rehearsal.Proofs.Json.Limit
import Rehearsal.Proofs.Value.Plain

/-! Values in one line. What the plain style writes are spaces and visible characters of ASCII only,
whatever the texts in a value hold, and from it the value is read back. -/

namespace Rehearsal

/-- Whether a double is in its one form. -/
def Binary64.Canonical (x : Binary64) : Prop :=
  ∀ negative s e, x = .finite negative s e → Binary64.Proper s e

namespace Value

mutual

def doubles : Value → List Binary64
  | .float x => [x]
  | .list items => doublesIn items
  | .map entries => doublesUnder entries
  | _ => []

def doublesIn : List Value → List Binary64
  | [] => []
  | item :: rest => item.doubles ++ doublesIn rest

def doublesUnder : List (Value × Value) → List Binary64
  | [] => []
  | (_, value) :: rest => value.doubles ++ doublesUnder rest

end

theorem mem_doublesIn {items : List Value} {item : Value} {x : Binary64} (h : item ∈ items)
    (hx : x ∈ item.doubles) : x ∈ doublesIn items := by
  induction items with
  | nil => cases h
  | cons first rest ih =>
    rw [doublesIn, List.mem_append]
    rcases List.mem_cons.mp h with rfl | h
    · exact .inl hx
    · exact .inr (ih h)

theorem mem_doublesUnder {entries : List (Value × Value)} {entry : Value × Value} {x : Binary64}
    (h : entry ∈ entries) (hx : x ∈ entry.2.doubles) : x ∈ doublesUnder entries := by
  induction entries with
  | nil => cases h
  | cons first rest ih =>
    rw [doublesUnder, List.mem_append]
    rcases List.mem_cons.mp h with rfl | h
    · exact .inl hx
    · exact .inr (ih h)

theorem mem_doubles {v : Value} {segments : List Segment} {x : Binary64}
    (h : v.At segments (.float x)) : x ∈ v.doubles := by
  generalize hw : Value.float x = w at h
  induction h with
  | here v =>
    subst hw
    exact List.mem_singleton_self x
  | field hmem _ ih => exact mem_doublesUnder hmem (ih hw)
  | index hget _ ih => exact mem_doublesIn (List.mem_of_getElem? hget) (ih hw)

end Value

namespace Json

open Value

variable {cs ds : List Char} {c : Char} {n : Nat} {v : Value}

/-- Whether a text breaks no line and is spelt in ASCII. -/
def OneLine (cs : List Char) : Prop := ∀ c ∈ cs, 0x20 ≤ c.toNat ∧ c.toNat < 0x7F

instance (cs : List Char) : Decidable (OneLine cs) :=
  List.decidableBAll (fun c : Char => 0x20 ≤ c.toNat ∧ c.toNat < 0x7F) cs

theorem oneLine_nil : OneLine [] := List.forall_mem_nil _

theorem OneLine.append (hcs : OneLine cs) (hds : OneLine ds) : OneLine (cs ++ ds) :=
  List.forall_mem_append.mpr ⟨hcs, hds⟩

theorem OneLine.cons (hc : 0x20 ≤ c.toNat ∧ c.toNat < 0x7F) (hcs : OneLine cs) :
    OneLine (c :: cs) :=
  List.forall_mem_cons.mpr ⟨hc, hcs⟩

theorem oneLine_digits (h : ∀ c ∈ cs, c.isDigit) : OneLine cs := by
  intro c hc
  have hbounds := Text.toNat_of_isDigit (h c hc)
  omega

/-! Texts. -/

theorem oneLine_codeEscape (h : n < 0x10000) : OneLine (codeEscape n) := by
  have hhex : ∀ k < 16, 0x20 ≤ k.digitChar.toNat ∧ k.digitChar.toNat < 0x7F := by decide
  rw [codeEscape, hexDigits_four h]
  refine .cons (by decide) (.cons (by decide) ?_)
  exact .cons (hhex _ (by omega)) (.cons (hhex _ (by omega)) (.cons (hhex _ (by omega))
    (.cons (hhex _ (by omega)) oneLine_nil)))

theorem oneLine_escape {letter : Char} (h : escaped? letter = some c) :
    OneLine ['\\', letter] := by
  refine .cons (by decide) (.cons ?_ oneLine_nil)
  unfold escaped? at h
  split at h
  all_goals first | decide | cases h

theorem oneLine_escapeChar (c : Char) : OneLine (escapeChar true c) := by
  rw [escapeChar]
  rcases escapeControl?_cases c with ⟨letter, hesc, hletter⟩ | ⟨hc, hesc⟩ | ⟨hesc, -, -, hc⟩
  · rw [hesc]
    exact oneLine_escape hletter
  · rw [hesc]
    exact oneLine_codeEscape (by omega)
  · rw [hesc]
    dsimp only
    split_ifs with hlow hplane
    · have hvisible : c.toNat < 0x7F := by simpa using hlow
      exact .cons ⟨by omega, hvisible⟩ oneLine_nil
    · exact oneLine_codeEscape hplane
    · have hvalid : c.toNat < 0xD800 ∨ (0xDFFF < c.toNat ∧ c.toNat < 0x110000) := c.valid
      exact (oneLine_codeEscape (by omega)).append (oneLine_codeEscape (by omega))

theorem oneLine_writeText (s : String) : OneLine (writeText true s) := by
  refine .cons (by decide) (.append ?_ (.cons (by decide) oneLine_nil))
  intro c hc
  obtain ⟨d, -, hd⟩ := List.mem_flatMap.mp hc
  exact oneLine_escapeChar d c hd

/-! Numbers. -/

theorem oneLine_writeInt {n : Int} (h : writeInt n = .ok cs) : OneLine cs := by
  have hdigits : OneLine (Nat.toDigits 10 n.natAbs) :=
    oneLine_digits fun _ => Text.isDigit_of_mem_toDigits
  rw [writeInt] at h
  split at h
  · cases h
  · cases h
    split
    · exact .cons (by decide) hdigits
    · exact hdigits

theorem oneLine_double (negative : Bool) {significand : Nat} {exponent : Int}
    (h : Binary64.Proper significand exponent) :
    OneLine (Binary64.text (.finite negative significand exponent)).toList := by
  obtain ⟨whole, fraction, e, htext, hparts⟩ := double_parts negative h
  obtain ⟨c, rest, -, -, hwhole⟩ := hparts.digits
  have hsign : OneLine (Binary64.signText negative).toList := by
    cases negative
    · exact oneLine_nil
    · exact .cons (by decide) oneLine_nil
  have hfraction : OneLine (if fraction.isEmpty then [] else '.' :: fraction) := by
    split
    · exact oneLine_nil
    · exact .cons (by decide) (oneLine_digits hparts.decimals)
  have hexponent : OneLine (e.elim [] fun e => (Binary64.exponentText e).toList) := by
    cases e with
    | none => exact oneLine_nil
    | some e =>
      obtain ⟨run, hrun, -, hdigits, -⟩ := exponentText_eq e
      rw [Option.elim, hrun]
      refine .cons (by decide) (.cons ?_ (oneLine_digits hdigits))
      split <;> decide
  rw [htext]
  exact hsign.append ((oneLine_digits hwhole).append (hfraction.append hexponent))

theorem writeFloat_ok {style : Style} (h : style.allowNan = true) (x : Binary64) :
    ∃ cs, writeFloat style x = .ok cs := by
  have hallowed : (!style.allowNan) = false := by rw [h, Bool.not_true]
  rw [writeFloat, hallowed, if_neg Bool.false_ne_true]
  split_ifs <;> exact ⟨_, rfl⟩

theorem readsAs_writeFloat {x : Binary64} (hx : x.Canonical) (h : writeFloat .plain x = .ok cs) :
    OneLine cs ∧ ReadsAs .double cs (.float x) := by
  cases x with
  | finite negative s e =>
    cases h
    exact ⟨oneLine_double negative (hx negative s e rfl), readsAs_same negative (hx negative s e rfl)⟩
  | nan =>
    cases h
    exact ⟨by decide, .of_succ ⟨'N', _, rfl, by decide⟩ fun _ _ _ _ => rfl⟩
  | infinity negative =>
    cases h
    cases negative with
    | false => exact ⟨by decide, .of_succ ⟨'I', _, rfl, by decide⟩ fun _ _ _ _ => rfl⟩
    | true => exact ⟨by decide, .of_succ ⟨'-', _, rfl, by decide⟩ fun _ _ _ _ => rfl⟩

/-! Trees, with every double in its one form. -/

def SoundLeaf (v : Value) : Prop := PlainLeaf v ∧ ∀ x, v = .float x → x.Canonical

theorem sound_tree (h : v.Tree PlainLeaf) (hx : ∀ x ∈ v.doubles, x.Canonical) :
    v.Tree SoundLeaf := by
  refine h.of_positions fun segments w hat _ hl => ⟨hl, ?_⟩
  rintro x rfl
  exact hx x (mem_doubles hat)

theorem oneLine_leaf (depth : Nat) (h : SoundLeaf v) (hwrite : write .plain depth v = .ok cs) :
    OneLine cs := by
  obtain ⟨hplain, hfloat⟩ := h
  cases hplain <;> rw [write] at hwrite
  · cases hwrite
    decide
  · rename_i b
    cases hwrite
    cases b <;> decide
  · exact oneLine_writeInt hwrite
  · exact (readsAs_writeFloat (hfloat _ rfl) hwrite).1
  · cases hwrite
    exact oneLine_writeText _

theorem allOf_eq_ok {parts : List (Except Fault (List Char))} {texts : List (List Char)}
    (h : allOf parts = .ok texts) : parts = texts.map .ok := by
  induction parts generalizing texts with
  | nil =>
    cases h
    rfl
  | cons part rest ih =>
    cases part with
    | error fault => cases h
    | ok text =>
      rw [allOf] at h
      cases hrest : allOf rest with
      | error fault =>
        rw [hrest] at h
        cases h
      | ok others =>
        rw [hrest] at h
        cases h
        rw [ih hrest, List.map_cons]

theorem oneLine_enclose (depth : Nat) {opening closing : Char} {parts : List (List Char)}
    (hopening : 0x20 ≤ opening.toNat ∧ opening.toNat < 0x7F)
    (hclosing : 0x20 ≤ closing.toNat ∧ closing.toNat < 0x7F) (h : ∀ part ∈ parts, OneLine part) :
    OneLine (enclose .plain depth opening closing parts) := by
  cases parts with
  | nil => exact .cons hopening (.cons hclosing oneLine_nil)
  | cons first rest =>
    have hfirst : OneLine first := h first List.mem_cons_self
    have hseparator : OneLine [',', ' '] := by decide
    have hmore : OneLine (rest.flatMap ([',', ' '] ++ ·)) := by
      intro c hc
      obtain ⟨part, hpart, hmem⟩ := List.mem_flatMap.mp hc
      exact hseparator.append (h part (List.mem_cons_of_mem _ hpart)) c hmem
    have hshape : enclose .plain depth opening closing (first :: rest) =
        opening :: (first ++ (rest.flatMap ([',', ' '] ++ ·) ++ [closing])) := by
      simp [enclose, Style.lineBreak, Style.between, Style.plain]
    rw [hshape]
    exact .cons hopening (hfirst.append (hmore.append (.cons hclosing oneLine_nil)))

theorem oneLine_write (h : v.Tree SoundLeaf) (depth : Nat)
    (hwrite : write .plain depth v = .ok cs) : OneLine cs := by
  induction h generalizing depth cs with
  | leaf _ hl => exact oneLine_leaf depth hl hwrite
  | @list items _ ih =>
    rw [write, writeItems_eq_map] at hwrite
    obtain ⟨texts, htexts, rfl⟩ := map_eq_ok.mp hwrite
    refine oneLine_enclose depth (by decide) (by decide) fun text htext => ?_
    have hmem : Except.ok text ∈ items.map (write .plain (depth + 1)) := by
      rw [allOf_eq_ok htexts]
      exact List.mem_map_of_mem htext
    obtain ⟨item, hitem, hwrote⟩ := List.mem_map.mp hmem
    exact ih item hitem (depth + 1) hwrote
  | @map fields _ _ ih =>
    have hunsorted : ¬Style.plain.sortKeys = true := Bool.false_ne_true
    rw [Value.ofFields, write, writeEntries_eq_map, arrange, if_neg hunsorted] at hwrite
    dsimp only at hwrite
    rw [List.map_map] at hwrite
    obtain ⟨texts, htexts, rfl⟩ := map_eq_ok.mp hwrite
    refine oneLine_enclose depth (by decide) (by decide) fun text htext => ?_
    have hmem := List.mem_map_of_mem (f := Except.ok (ε := Fault)) htext
    rw [← allOf_eq_ok htexts] at hmem
    obtain ⟨field, hfield, hentry⟩ := List.mem_map.mp hmem
    obtain ⟨more, hwrote, rfl⟩ := map_eq_ok.mp hentry
    have hcolon : OneLine Style.plain.between.2.toList := by decide
    exact ((oneLine_writeText field.1).append hcolon).append (ih field hfield (depth + 1) hwrote)

theorem plainLeaf_cases {style : Style} {depth : Nat} (hnan : style.allowNan = true)
    (hs : v.isScalar = true) (h : PlainLeaf v) : WrittenOrLong style depth v := by
  cases h with
  | null => exact .inl ⟨not_hasLongInt hs (by simp), _, by rw [write]⟩
  | bool b => exact .inl ⟨not_hasLongInt hs (by simp), _, by rw [write]⟩
  | int n => exact writtenOrLong_int n
  | float x =>
    obtain ⟨cs, hcs⟩ := writeFloat_ok hnan x
    exact .inl ⟨not_hasLongInt hs (by simp), cs, by rw [write, hcs]⟩
  | text s => exact .inl ⟨not_hasLongInt hs (by simp), _, by rw [write]⟩

theorem text_cases {style : Style} (hsort : style.sortKeys = false) (hnan : style.allowNan = true)
    (h : v.Tree PlainLeaf) :
    (¬HasLongInt v ∧ ∃ line, text style v = .ok line) ∨
      (HasLongInt v ∧ text style v = .error tooLong) := by
  rcases write_cases hsort (plainLeaf_cases hnan) h 0 with ⟨hshort, cs, hwrite⟩ | ⟨hlong, hwrite⟩
  · exact .inl ⟨hshort, String.ofList cs, by rw [text, hwrite]; rfl⟩
  · exact .inr ⟨hlong, by rw [text, hwrite]; rfl⟩

theorem writtenBack_sound (depth : Nat) (h : SoundLeaf v) (hint : ∀ n, v = .int n → WritableInt n) :
    WrittenBack .plain .double depth v := by
  obtain ⟨hplain, hfloat⟩ := h
  cases hplain with
  | null => exact writtenBack_leaf _ depth .null
  | bool b => exact writtenBack_leaf _ depth (.bool b)
  | int n => exact writtenBack_leaf _ depth (.int (hint n rfl))
  | text s => exact writtenBack_leaf _ depth (.text s)
  | float x =>
    obtain ⟨cs, hcs⟩ : ∃ cs, writeFloat .plain x = .ok cs := writeFloat_ok rfl x
    have hread := (readsAs_writeFloat (hfloat x rfl) hcs).2
    exact ⟨cs, .float x, by rw [write, hcs], hread, .scalar rfl, fun _ => rfl⟩

/-- A tree that is written is written in one line, from which it is read back. -/
theorem read_line (h : v.Tree SoundLeaf) {line : String} (hline : text .plain v = .ok line) :
    OneLine line.toList ∧ read .double line = .ok v := by
  obtain ⟨cs, hwrite, rfl⟩ := map_eq_ok.mp hline
  have hplain : v.Tree PlainLeaf := h.of_positions fun _ _ _ _ hl => hl.1
  have hunsorted : Style.plain.sortKeys = false := rfl
  have hnan : Style.plain.allowNan = true := rfl
  have hshort : ¬HasLongInt v := by
    rcases text_cases hunsorted hnan hplain with ⟨hshort, -⟩ | ⟨-, herror⟩
    · exact hshort
    · rw [hline] at herror
      cases herror
  have hints : v.Tree fun w => SoundLeaf w ∧ ∀ n, w = .int n → WritableInt n := by
    refine h.of_positions fun segments w hat _ hl => ⟨hl, ?_⟩
    rintro n rfl
    by_contra hlong
    exact hshort ⟨segments, n, hat, hlong⟩
  have hback : WrittenBack .plain .double 0 v :=
    writtenBack_of_leaves spaced_plain (fun hl depth => writtenBack_sound depth hl.1 hl.2) hints 0
  obtain ⟨text, w, hwrote, hread, -, hkept⟩ := hback
  rw [hkept hunsorted] at hread
  obtain rfl : cs = text := by
    rw [hwrite] at hwrote
    exact Except.ok.inj hwrote
  rw [String.toList_ofList]
  refine ⟨oneLine_write h 0 hwrite, read_of_readsAs ?_⟩
  rwa [String.toList_ofList]

end Json

end Rehearsal
