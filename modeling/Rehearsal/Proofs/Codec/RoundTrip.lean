import Rehearsal.Codec
import Rehearsal.Proofs.Json.RoundTrip
import Rehearsal.Proofs.Text.Utf8

/-! What a message carries is what was put into it. Text, bytes and null take ways of their own, all
else goes through JSON, and a record comes back field by field. -/

namespace Rehearsal

/-- The kind of a value that JSON has a form for. -/
def Value.ownKind : Value → Kind
  | .bool _ => .bool
  | .int _ => .int
  | .text _ => .text
  | .list _ => .list
  | .map _ => .map
  | _ => .anything

/-- Whether an option is about the layout of JSON text and no more. -/
def Json.LayoutOption (option : String × Value) : Prop :=
  option.1 = "sort_keys" ∨ option.1 = "ensure_ascii" ∨
    option.1 = "indent" ∧ (option.2 = .null ∨ ∃ n : Nat, option.2 = .int n)

namespace Json

theorem Style.Spaced.set {style : Style} (hs : style.Spaced) {option : String × Value}
    (h : LayoutOption option) :
    ∃ style', style.set option.1 option.2 = .ok style' ∧ style'.Spaced := by
  obtain ⟨name, value⟩ := option
  rcases h with rfl | rfl | ⟨rfl, rfl | ⟨n, rfl⟩⟩
  · exact ⟨_, rfl, hs.separators, hs.indent⟩
  · exact ⟨_, rfl, hs.separators, hs.indent⟩
  · exact ⟨_, rfl, hs.separators, nofun⟩
  · refine ⟨_, rfl, hs.separators, ?_⟩
    intro unit hunit c hc
    cases hunit
    rw [String.toList_ofList] at hc
    rw [List.eq_of_mem_replicate hc]
    rfl

theorem ofOptions_induct {P : Style → Prop} {options : List (String × Value)}
    (h : ∀ option ∈ options, LayoutOption option) (hplain : P .plain)
    (hset : ∀ style option, LayoutOption option → P style →
      ∃ style', style.set option.1 option.2 = .ok style' ∧ P style') :
    ∃ style, Style.ofOptions options = .ok style ∧ P style := by
  have hall : ∀ style, P style → ∃ style',
      options.foldlM (fun style option => style.set option.1 option.2) style = .ok style' ∧
        P style' := by
    induction options with
    | nil => exact fun style hs => ⟨style, rfl, hs⟩
    | cons option rest ih =>
      intro style hs
      obtain ⟨next, hnext, hkept⟩ := hset style option (h option List.mem_cons_self) hs
      obtain ⟨last, hlast, hdone⟩ := ih (fun o ho => h o (List.mem_cons_of_mem _ ho)) next hkept
      refine ⟨last, ?_, hdone⟩
      rw [List.foldlM_cons, hnext, ok_bind, hlast]
  exact hall Style.plain hplain

theorem ofOptions_spaced {options : List (String × Value)}
    (h : ∀ option ∈ options, LayoutOption option) :
    ∃ style, Style.ofOptions options = .ok style ∧ style.Spaced :=
  ofOptions_induct h spaced_plain fun _ _ hoption hs => hs.set hoption

end Json

namespace RecordShape

variable {fields moved : List (String × Value)}

theorem namedEntries_fields (fields : List (String × Value)) :
    namedEntries (fields.map fun (name, value) => (.text name, value)) = .ok fields := by
  induction fields with
  | nil => rfl
  | cons field rest ih =>
    rw [List.map_cons, namedEntries, ih]
    rfl

theorem find?_name (hd : (moved.map (·.1)).Nodup) {field : String × Value} (h : field ∈ moved) :
    moved.find? (·.1 == field.1) = some field := by
  induction moved with
  | nil => cases h
  | cons first rest ih =>
    rw [List.map_cons, List.nodup_cons] at hd
    rcases List.mem_cons.mp h with rfl | h
    · simp
    · have hne : first.1 ≠ field.1 := fun heq => hd.1 (heq ▸ List.mem_map_of_mem h)
      rw [List.find?_cons_of_neg (by simpa using hne), ih hd.2 h]

theorem bind_perm (type : String) (h : fields.Perm moved) :
    bind ⟨type, fields.map (·.1), []⟩ (moved.map fun (name, value) => (.text name, value)) =
      .ok moved := by
  have hknown : moved.find? (fun entry =>
      !(fields.map (fun f : String × Value => f.1) ++ []).contains entry.1) = none := by
    rw [List.find?_eq_none]
    intro entry hentry
    have hmem : entry.1 ∈ fields.map (·.1) := List.mem_map_of_mem (h.mem_iff.mpr hentry)
    simpa using hmem
  have hgiven : (fields.map (·.1)).filter (fun name => !(moved.any (·.1 == name))) = [] := by
    rw [List.filter_eq_nil_iff]
    intro name hname
    obtain ⟨field, hfield, rfl⟩ := List.mem_map.mp hname
    simpa using ⟨field.2, h.mem_iff.mp hfield⟩
  simp only [bind, namedEntries_fields, RecordShape.fields, hknown, hgiven]

theorem build_perm (type : String) (hd : (fields.map (·.1)).Nodup) (h : fields.Perm moved) :
    build ⟨type, fields.map (·.1), []⟩ (Value.ofFields moved) = .ok (.record type fields) := by
  have hmoved : (moved.map (·.1)).Nodup := (h.map (·.1)).nodup_iff.mp hd
  have hvalues : (fields.map (·.1)).map (fun name =>
      (name, ((moved.find? (·.1 == name)).map (·.2)).getD .null)) = fields := by
    rw [List.map_map]
    refine (List.map_congr_left fun field hfield => ?_).trans (List.map_id' fields)
    simp only [Function.comp_apply, find?_name hmoved (h.mem_iff.mp hfield)]
    rfl
  simp only [build, Value.ofFields, bind_perm type h, RecordShape.fields, List.append_nil, hvalues]

end RecordShape

namespace Codec

open Json (Leaf LayoutOption)

variable {options : List (String × Value)} {v w : Value} {type : String}
  {fields : List (String × Value)}

theorem Leaf.same (h : Leaf v) : v.same v := by
  cases h with
  | null => rw [Value.same]
  | bool b => exact Value.same_bool b
  | int _ => exact Value.same_int _
  | text s => exact Value.same_text s

theorem decodeText_encode (s : String) : decodeText (Utf8.encode s) = .ok s := by
  rw [decodeText, Utf8.decode_encode]

theorem decode_json {s : String} (h : Json.ReadsAs .double s.toList w) (kind : Kind)
    (hbytes : kind ≠ .bytes) (htext : kind ≠ .text) :
    decode (some (Utf8.encode s)) (some kind) = expect w kind := by
  have hread : readJson s = .ok w := by rw [readJson, Json.read_of_readsAs h]
  cases kind with
  | bytes => exact absurd rfl hbytes
  | text => exact absurd rfl htext
  | _ => simp only [decode, decodeText_encode, hread]

theorem encodeWith_json (h : v.InMemory) :
    encodeWith v options = Json.Style.ofOptions options >>= fun style =>
      (jsonText v style).map fun s => some (Utf8.encode s) := by
  obtain ⟨hnull, htext, hbytes⟩ := h
  cases v with
  | null => exact absurd rfl hnull
  | text s => cases htext
  | status s => cases htext
  | bytes b => exact absurd rfl (hbytes b)
  | _ => rfl

theorem encode_json (fractions : Json.Fractions)
    (hopt : ∀ option ∈ options, LayoutOption option) (h : v.InMemory)
    {tree : Value} (hopen : v.opened = tree) (htree : tree.Tree Leaf) :
    ∃ s w, encodeWith v options = .ok (some (Utf8.encode s)) ∧
      Json.ReadsAs fractions s.toList w ∧ tree.Alike w ∧
      ∀ style, Json.Style.ofOptions options = .ok style → style.sortKeys = false → w = tree := by
  obtain ⟨style, hstyle, hspaced⟩ := Json.ofOptions_spaced hopt
  obtain ⟨cs, w, hwrite, hread, halike, hkept⟩ := Json.writtenBack_tree hspaced htree 0
  refine ⟨String.ofList cs, w, ?_, by rwa [String.toList_ofList], halike, ?_⟩
  · rw [encodeWith_json h, hstyle, ok_bind, jsonText, hopen, Json.text, hwrite]
    rfl
  · intro other hother
    cases hstyle.symm.trans hother
    exact hkept

theorem inMemory_tree (h : v.Tree Leaf) (hnull : v ≠ .null) (htext : ∀ s, v ≠ .text s) :
    v.InMemory := by
  refine ⟨hnull, ?_, ?_⟩
  · cases h with
    | leaf _ hl =>
      cases hl with
      | text s => exact absurd rfl (htext s)
      | _ => rfl
    | _ => rfl
  · rintro b rfl
    nomatch h

theorem expect_ownKind (h : v.Tree Leaf) (ha : v.Alike w) (hm : v.InMemory) :
    expect w v.ownKind = .ok w ∧ v.ownKind ≠ .bytes ∧ v.ownKind ≠ .text := by
  cases h with
  | leaf _ hl =>
    cases hl with
    | null => exact absurd rfl hm.1
    | text s => cases hm.2.1
    | _ =>
      cases ha
      exact ⟨rfl, nofun, nofun⟩
  | list _ =>
    obtain ⟨others, rfl, -⟩ := ha.of_list
    exact ⟨rfl, nofun, nofun⟩
  | map _ _ =>
    obtain ⟨_, moved, rfl, -⟩ := ha.of_map
    exact ⟨rfl, nofun, nofun⟩

end Codec

end Rehearsal
