import Mathlib.Data.Set.Basic
import Rehearsal.Proofs.Fallible
import Rehearsal.Proofs.Value.Equality
import Rehearsal.Proofs.Value.Overlay

/-! The environment of a tree of settings, laid over the rest of it. The tree and the environment
are mappings that others may hold too. Laying one over the other copies the lower mapping and writes
to the copy alone, so that both stay what they were. -/

namespace Rehearsal

/-- What a mapping in a store has under a key: the place of another mapping, or a value. -/
inductive Cell where
  | plain (v : Value)
  | mapping (place : Nat)

/-- The mappings that there are, at their places. -/
abbrev Store := List (Keyed String Cell)

namespace Store

def content (store : Store) (place : Nat) : Keyed String Cell := store[place]?.getD []

def write (store : Store) (place : Nat) (name : String) (cell : Cell) : Store :=
  store.modify place (Keyed.put · name cell)

/-- Lays one entry over the mapping that is being made; `lay` lays a mapping over another one. -/
def layEntry (lay : Store → Nat → Nat → Option (Store × Nat)) (made : Nat) (store : Store)
    (entry : String × Cell) : Option Store :=
  match entry.2, Keyed.get? (store.content made) entry.1 with
  | .mapping above, some (.mapping under) =>
    (lay store under above).map fun (store, merged) => store.write made entry.1 (.mapping merged)
  | cell, _ => some (store.write made entry.1 cell)

/-- Lays the mapping at one place over a copy of that at another, through at most so many levels. -/
def overlay : Nat → Store → Nat → Nat → Option (Store × Nat)
  | 0, _, _, _ => none
  | levels + 1, store, below, upper =>
    let made := store.length
    ((store.content upper).foldlM (layEntry (overlay levels) made)
      (store ++ [store.content below])).map (·, made)

/-- Whether a cell stands for a value: it holds what is no mapping, or is the place of a mapping
whose entries stand for those of the value. All places on the way are among the given ones. -/
inductive Shows (store : Store) (places : Set Nat) : Cell → Value → Prop
  | plain {v : Value} : v.IsLeaf → Shows store places (.plain v) v
  | mapping {place : Nat} {content : Keyed String Cell} {fields : List (String × Value)} :
      place ∈ places → store[place]? = some content → (fields.map (·.1)).Nodup →
      content.map (·.1) = fields.map (·.1) →
      (∀ name cell v, Keyed.get? content name = some cell → Keyed.get? fields name = some v →
        Shows store places cell v) →
      Shows store places (.mapping place) (.ofFields fields)

/-- Whether two mappings have the same keys in the same order, with related contents under each. -/
def Matches (related : Cell → Value → Prop) (content : Keyed String Cell)
    (fields : List (String × Value)) : Prop :=
  content.map (·.1) = fields.map (·.1) ∧
    ∀ name cell v, Keyed.get? content name = some cell → Keyed.get? fields name = some v →
      related cell v

variable {store after origin : Store} {places places' : Set Nat} {cell : Cell} {v : Value}
  {name : String} {content : Keyed String Cell} {fields : List (String × Value)}
  {related : Cell → Value → Prop}

theorem Matches.put (h : Matches related content fields) (hcell : related cell v) (name : String) :
    Matches related (Keyed.put content name cell) (Keyed.put fields name v) := by
  refine ⟨by rw [Keyed.map_put, Keyed.map_put, h.1], fun other found w hfound hw => ?_⟩
  rw [Keyed.get?_put] at hfound hw
  split at hfound
  · rw [if_pos ‹_›] at hw
    cases hfound
    cases hw
    exact hcell
  · rw [if_neg ‹_›] at hw
    exact h.2 other found w hfound hw

theorem Matches.imp {related' : Cell → Value → Prop} (h : Matches related content fields)
    (himp : ∀ {cell v}, related cell v → related' cell v) : Matches related' content fields :=
  ⟨h.1, fun name cell v hcell hv => himp (h.2 name cell v hcell hv)⟩

theorem Matches.isSome_get? (h : Matches related content fields) (name : String) :
    (Keyed.get? content name).isSome = (Keyed.get? fields name).isSome := by
  rw [Bool.eq_iff_iff, Keyed.isSome_get?_iff, Keyed.isSome_get?_iff, h.1]

theorem Matches.exists_field (h : Matches related content fields)
    (hcell : Keyed.get? content name = some cell) :
    ∃ v, Keyed.get? fields name = some v ∧ related cell v := by
  have hsome := h.isSome_get? name
  rw [hcell] at hsome
  obtain ⟨v, hv⟩ := Option.isSome_iff_exists.mp hsome.symm
  exact ⟨v, hv, h.2 name cell v hcell hv⟩

theorem matches_cons {entry : String × Cell} {field : String × Value}
    (hnew : field.1 ∉ fields.map (·.1)) :
    Matches related (entry :: content) (field :: fields) ↔
      (entry.1 = field.1 ∧ related entry.2 field.2) ∧ Matches related content fields := by
  obtain ⟨name, cell⟩ := entry
  obtain ⟨name', v⟩ := field
  constructor
  · rintro ⟨hkeys, hrelated⟩
    obtain ⟨hname, hrest⟩ := List.cons_eq_cons.mp hkeys
    obtain rfl : name = name' := hname
    refine ⟨⟨rfl, hrelated name cell v ?_ ?_⟩, hrest, fun other found w hfound hw => ?_⟩
    · rw [Keyed.get?, if_pos rfl]
    · rw [Keyed.get?, if_pos rfl]
    · have hother : name ≠ other := by
        rintro rfl
        rw [Keyed.get?_eq_none hnew] at hw
        cases hw
      exact hrelated other found w (by rwa [Keyed.get?, if_neg hother])
        (by rwa [Keyed.get?, if_neg hother])
  · rintro ⟨⟨hname, hfirst⟩, hkeys, hrelated⟩
    obtain rfl : name = name' := hname
    refine ⟨by rw [List.map_cons, List.map_cons, hkeys], fun other found w hfound hw => ?_⟩
    rw [Keyed.get?] at hfound hw
    split at hfound
    · rw [if_pos ‹_›] at hw
      cases hfound
      cases hw
      exact hfirst
    · rw [if_neg ‹_›] at hw
      exact hrelated other found w hfound hw

theorem matches_iff_forall₂ (hd : (fields.map (·.1)).Nodup) :
    Matches related content fields ↔
      List.Forall₂ (fun entry field => entry.1 = field.1 ∧ related entry.2 field.2)
        content fields := by
  induction fields generalizing content with
  | nil =>
    constructor
    · intro h
      rw [List.map_eq_nil_iff.mp h.1]
      exact .nil
    · rintro ⟨⟩
      exact ⟨rfl, nofun⟩
  | cons field rest ih =>
    obtain ⟨hnew, hd⟩ := List.nodup_cons.mp hd
    cases content with
    | nil =>
      constructor
      · rintro ⟨hkeys, -⟩
        cases hkeys
      · rintro ⟨⟩
    | cons entry content => rw [matches_cons hnew, List.forall₂_cons, ih hd]

theorem shows_mapping {place : Nat} : Shows store places (.mapping place) v ↔
    place ∈ places ∧ ∃ content fields, store[place]? = some content ∧
      (fields.map (·.1)).Nodup ∧ Matches (Shows store places) content fields ∧
      v = .ofFields fields := by
  constructor
  · intro h
    cases h with
    | mapping hplace hcontent hd hkeys hshows =>
      exact ⟨hplace, _, _, hcontent, hd, ⟨hkeys, hshows⟩, rfl⟩
  · rintro ⟨hplace, content, fields, hcontent, hd, ⟨hkeys, hshows⟩, rfl⟩
    exact .mapping hplace hcontent hd hkeys hshows

theorem Shows.of_forall₂ {place : Nat} (hplace : place ∈ places)
    (hcontent : store[place]? = some content) (hd : (fields.map (·.1)).Nodup)
    (hall : List.Forall₂ (fun entry field => entry.1 = field.1 ∧
      Shows store places entry.2 field.2) content fields) :
    Shows store places (.mapping place) (.ofFields fields) :=
  shows_mapping.mpr ⟨hplace, content, fields, hcontent, hd, (matches_iff_forall₂ hd).mpr hall, rfl⟩

theorem Shows.mono (h : Shows store places cell v)
    (hkept : ∀ place ∈ places, ∀ content, store[place]? = some content →
      place ∈ places' ∧ after[place]? = some content) : Shows after places' cell v := by
  induction h with
  | plain hleaf => exact .plain hleaf
  | mapping hplace hcontent hd hkeys _ ih =>
    obtain ⟨hplace', hcontent'⟩ := hkept _ hplace _ hcontent
    exact .mapping hplace' hcontent' hd hkeys ih

theorem Shows.plain_isLeaf {w : Value} (h : Shows store places (.plain w) v) : v.IsLeaf := by
  cases h with
  | plain hleaf => exact hleaf

/-! The mapping that is being made. -/

/-- The places that what is being made over a store may refer to: those given and the new ones, but
not its own. -/
def others (origin : Store) (places : Set Nat) : Set Nat :=
  {place | place ≠ origin.length ∧ (place ∈ places ∨ origin.length ≤ place)}

/-- Whether a store is as it was up to the place of what is being made, and that has such fields. -/
structure Making (origin : Store) (places : Set Nat) (store : Store)
    (fields : List (String × Value)) : Prop where
  kept : ∀ place < origin.length, store[place]? = origin[place]?
  nodup : (fields.map (·.1)).Nodup
  shown : ∃ content, store[origin.length]? = some content ∧
    Matches (Shows store (others origin places)) content fields

theorem getElem?_write (store : Store) (place other : Nat) (name : String) (cell : Cell) :
    (store.write place name cell)[other]? =
      if place = other then store[other]?.map (Keyed.put · name cell) else store[other]? := by
  rw [write, List.getElem?_modify]
  split
  · rfl
  · exact Option.map_id'

theorem Shows.write (h : Shows store (others origin places) cell v) (name : String) (put : Cell) :
    Shows (store.write origin.length name put) (others origin places) cell v := by
  refine h.mono fun place hplace content hcontent => ⟨hplace, ?_⟩
  rw [getElem?_write, if_neg (Ne.symm hplace.1), hcontent]

theorem Making.write (h : Making origin places store fields) (name : String)
    (hcell : Shows store (others origin places) cell v) :
    Making origin places (store.write origin.length name cell) (Keyed.put fields name v) := by
  obtain ⟨content, hcontent, hmatches⟩ := h.shown
  refine ⟨fun place hplace => ?_, Keyed.nodup_put h.nodup name v,
    Keyed.put content name cell, ?_, ?_⟩
  · rw [getElem?_write, if_neg hplace.ne', h.kept place hplace]
  · rw [getElem?_write, if_pos rfl, hcontent, Option.map_some]
  · exact (hmatches.imp fun hshows => hshows.write name cell).put (hcell.write name cell) name

theorem Making.extend (h : Making origin places store fields) (hafter : store <+: after) :
    Making origin places after fields := by
  have hkept : ∀ place content, store[place]? = some content → after[place]? = some content :=
    fun place content hcontent => by
      obtain ⟨hlt, rfl⟩ := List.getElem?_eq_some_iff.mp hcontent
      exact List.prefix_iff_getElem?.mp hafter place hlt
  obtain ⟨content, hcontent, hmatches⟩ := h.shown
  refine ⟨fun place hplace => ?_, h.nodup, content, hkept _ _ hcontent, hmatches.imp fun hshows =>
    hshows.mono fun place hplace content hcontent => ⟨hplace, hkept place content hcontent⟩⟩
  have horigin := List.getElem?_eq_getElem hplace
  rw [horigin]
  exact hkept place _ ((h.kept place hplace).trans horigin)

theorem Making.shows (h : Making origin places store fields) (hcell : Shows origin places cell v) :
    Shows store (others origin places) cell v := by
  refine hcell.mono fun place hplace content hcontent => ?_
  obtain ⟨hlt, -⟩ := List.getElem?_eq_some_iff.mp hcontent
  exact ⟨⟨hlt.ne, .inl hplace⟩, (h.kept place hlt).trans hcontent⟩

theorem Making.shownMatches (h : Making origin places store fields) :
    Matches (Shows store (others origin places)) (store.content origin.length) fields := by
  obtain ⟨content, hcontent, hmatches⟩ := h.shown
  rwa [Store.content, hcontent, Option.getD_some]

theorem Making.lt (h : Making origin places store fields) : origin.length < store.length := by
  obtain ⟨content, hcontent, -⟩ := h.shown
  exact (List.getElem?_eq_some_iff.mp hcontent).1

/-- What laying one mapping over another comes to: a new place that stands for the result, in a store
that holds what it held. -/
def Laid (store : Store) (places : Set Nat) (outcome : Option (Store × Nat)) (v : Value) : Prop :=
  ∃ after, outcome = some (after, store.length) ∧ store <+: after ∧
    Shows after (places ∪ {place | store.length ≤ place}) (.mapping store.length) v

theorem making_copy {below : Nat} (h : Shows store places (.mapping below) (.ofFields fields)) :
    Making store places (store ++ [store.content below]) fields := by
  obtain ⟨-, content, fields', hcontent, hd, hmatches, hsame⟩ := shows_mapping.mp h
  cases Value.ofFields_injective hsame
  refine ⟨fun place hplace => List.getElem?_append_left hplace, hd, content, ?_, ?_⟩
  · rw [Store.content, hcontent, Option.getD_some, List.getElem?_append_right (Nat.le_refl _),
      Nat.sub_self, List.getElem?_cons_zero]
  · refine hmatches.imp fun hshows => hshows.mono fun place hplace found hfound => ?_
    obtain ⟨hlt, -⟩ := List.getElem?_eq_some_iff.mp hfound
    exact ⟨⟨hlt.ne, .inl hplace⟩, by rw [List.getElem?_append_left hlt, hfound]⟩

theorem Making.layEntry (h : Making origin places store fields)
    {lay : Store → Nat → Nat → Option (Store × Nat)}
    (hlay : ∀ {store : Store} {places : Set Nat} {under above : Nat} {base : Value},
      Shows store places (.mapping under) base → Shows store places (.mapping above) v →
      Laid store places (lay store under above) (Value.overlaid base v))
    (hcell : Shows origin places cell v) (name : String) :
    ∃ after, Store.layEntry lay origin.length store (name, cell) = some after ∧
      Making origin places after
        (Keyed.put fields name (Value.overlaid ((Keyed.get? fields name).getD .null) v)) := by
  have hshows := h.shows hcell
  -- where one of the two is no mapping, the upper one is written as it is
  have hplainly (hsame : Value.overlaid ((Keyed.get? fields name).getD .null) v = v) :
      Making origin places (store.write origin.length name cell)
        (Keyed.put fields name (Value.overlaid ((Keyed.get? fields name).getD .null) v)) :=
    hsame.symm ▸ h.write name hshows
  cases cell with
  | plain w =>
    exact ⟨_, rfl, hplainly (Value.overlaid_leaf _ hcell.plain_isLeaf)⟩
  | mapping above =>
    rw [Store.layEntry]
    cases hunder : Keyed.get? (store.content origin.length) name with
    | none =>
      have hnone := h.shownMatches.isSome_get? name
      rw [hunder, eq_comm, Option.isSome_none, Option.isSome_eq_false_iff,
        Option.isNone_iff_eq_none] at hnone
      refine ⟨_, rfl, hplainly ?_⟩
      rw [hnone, Option.getD_none, Value.overlaid_above Value.isLeaf_null]
    | some found =>
      obtain ⟨base, hbase, hrelated⟩ := h.shownMatches.exists_field hunder
      rw [hbase, Option.getD_some] at hplainly ⊢
      cases found with
      | plain w =>
        exact ⟨_, rfl, hplainly (Value.overlaid_above hrelated.plain_isLeaf v)⟩
      | mapping under =>
        -- two mappings meet: one is laid over the other first
        obtain ⟨after, hafter, hprefix, hmerged⟩ := hlay hrelated hshows
        refine ⟨after.write origin.length name (.mapping store.length), ?_,
          (h.extend hprefix).write name (hmerged.mono ?_)⟩
        · simp only [hafter, Option.map_some]
        · rintro place (hplace | hplace) content hcontent
          · exact ⟨hplace, hcontent⟩
          · have hlt : origin.length < place := h.lt.trans_le hplace
            exact ⟨⟨hlt.ne', .inr hlt.le⟩, hcontent⟩

theorem Making.layEntries {upper : List (String × Value)} {entries : Keyed String Cell}
    (h : Making origin places store fields) {lay : Store → Nat → Nat → Option (Store × Nat)}
    (hentries : List.Forall₂ (fun entry field => entry.1 = field.1 ∧
      Shows origin places entry.2 field.2) entries upper)
    (hlay : ∀ field ∈ upper, ∀ {store : Store} {places : Set Nat} {under above : Nat} {base : Value},
      Shows store places (.mapping under) base → Shows store places (.mapping above) field.2 →
      Laid store places (lay store under above) (Value.overlaid base field.2)) :
    ∃ after last, entries.foldlM (Store.layEntry lay origin.length) store = some after ∧
      Making origin places after last ∧
      Value.overlaid (.ofFields fields) (.ofFields upper) = .ofFields last := by
  induction hentries generalizing store fields with
  | nil => exact ⟨store, fields, rfl, h, Value.overlaid_ofFields_nil fields⟩
  | @cons entry field entries upper hfirst _ ih =>
    obtain ⟨name, cell⟩ := entry
    obtain ⟨name', v⟩ := field
    obtain ⟨hname, hcell⟩ := hfirst
    obtain rfl : name = name' := hname
    obtain ⟨next, hnext, hmaking⟩ := h.layEntry (hlay _ List.mem_cons_self) hcell name
    obtain ⟨after, last, hafter, hlast, hover⟩ :=
      ih hmaking fun field hfield => hlay field (List.mem_cons_of_mem _ hfield)
    refine ⟨after, last, ?_, hlast, ?_⟩
    · rw [List.foldlM_cons, hnext]
      exact hafter
    · rw [← hover, Value.overlaid_ofFields_cons]

/-- Laying one mapping over another comes to a new place that shows the one laid over the other. -/
theorem overlay_laid {depth levels : Nat} {below upper : Nat} {base above : Value}
    (hlevels : depth ≤ levels) (hnested : above.Nested depth)
    (hbase : Shows store places (.mapping below) base)
    (hover : Shows store places (.mapping upper) above) :
    Laid store places (store.overlay levels below upper) (Value.overlaid base above) := by
  induction levels generalizing depth store places below upper base above with
  | zero =>
    obtain ⟨-, _, fields, -, -, -, rfl⟩ := shows_mapping.mp hover
    obtain ⟨less, rfl, -, -⟩ := hnested.of_ofFields
    exact absurd hlevels (Nat.not_succ_le_zero less)
  | succ levels ih =>
    obtain ⟨-, entries, fields, hentries, hd, hmatches, rfl⟩ := shows_mapping.mp hover
    obtain ⟨less, rfl, -, hfields⟩ := hnested.of_ofFields
    obtain ⟨-, _, lower, -, -, -, rfl⟩ := shows_mapping.mp hbase
    have hlay : ∀ field ∈ fields, ∀ {store : Store} {places : Set Nat} {under above : Nat}
        {base : Value}, Shows store places (.mapping under) base →
        Shows store places (.mapping above) field.2 →
        Laid store places (overlay levels store under above) (Value.overlaid base field.2) :=
      fun field hfield {_ _ _ _ _} hunder hover =>
        ih (Nat.le_of_succ_le_succ hlevels) (hfields field hfield) hunder hover
    obtain ⟨after, last, hafter, hlast, hresult⟩ :=
      (making_copy hbase).layEntries ((matches_iff_forall₂ hd).mp hmatches) hlay
    refine ⟨after, ?_, List.prefix_iff_getElem?.mpr fun place hplace => ?_, ?_⟩
    · simp only [overlay, Store.content, hentries, Option.getD_some] at hafter ⊢
      rw [hafter, Option.map_some]
    · rw [hlast.kept place hplace, List.getElem?_eq_getElem hplace]
    · rw [hresult]
      obtain ⟨content, hcontent, hshown⟩ := hlast.shown
      refine shows_mapping.mpr ⟨.inr (Nat.le_refl _), content, last, hcontent, hlast.nodup, ?_, rfl⟩
      exact hshown.imp fun hshows => hshows.mono fun place hplace found hfound =>
        ⟨hplace.2, hfound⟩

end Store

namespace Settings

open Value (fieldIn?)

theorem rooted_environment {below entries : Section} {name : String} (hname : name ≠ "")
    (h : (Value.map below).under? ["environments", name] = some (.map entries)) :
    rooted (.map below) (some name) = .ok (Value.overlaidEntries below entries) := by
  obtain ⟨tree, environments, htree, henvironments, hrest⟩ := Value.exists_field_of_under? h
  obtain ⟨known, found, rfl, hfound, hlast⟩ := Value.exists_field_of_under? hrest
  cases htree
  cases hlast
  have htruthy : (Value.map known).truthy = true := by
    cases known with
    | nil => cases hfound
    | cons => rfl
  have hor : AuthReading.orEmpty (fieldIn? "environments" below) (.map []) = .map known := by
    rw [henvironments, AuthReading.orEmpty]
    exact if_pos htruthy
  rw [rooted, Option.filter_some, if_pos (bne_iff_ne.mpr hname)]
  simp only [within, hor, knownIn, ok_bind, hfound, AuthReading.entriesOf]
  rfl

/-- An environment overrides exactly what it names. A path that leads through it to no mapping leads
to the same in the tree with the environment laid over it. A path that leaves it, where both are
mappings up to there, leads to what the tree has. Laid over once more it changes nothing. Settings
are read so in an environment, and where the tree and the environment lie in a store, all that the
store held it holds afterwards. -/
theorem environment_overrides_named {depth : Nat} {below entries : Section}
    (hnested : (Value.map entries).Nested depth) :
    let base := Value.map below
    let upper := Value.map entries
    let merged := Value.overlaid base upper
    (∀ path v, upper.under? path = some v → v.IsLeaf → merged.under? path = some v) ∧
    (∀ path key rest lower higher, base.under? path = some (.map lower) →
      upper.under? path = some (.map higher) → fieldIn? key higher = none →
      merged.under? (path ++ key :: rest) = base.under? (path ++ key :: rest)) ∧
    Value.overlaid merged upper = merged ∧
    (∀ name, name ≠ "" → base.under? ["environments", name] = some upper →
      (rooted base (some name)).map .map = .ok merged) ∧
    ∀ (store : Store) (lower higher levels : Nat), depth ≤ levels →
      store.Shows .univ (.mapping lower) base → store.Shows .univ (.mapping higher) upper →
      ∃ after, store.overlay levels lower higher = some (after, store.length) ∧
        store <+: after ∧ after.Shows .univ (.mapping store.length) merged := by
  intro base upper merged
  refine ⟨fun path v hpath hleaf => Value.under?_overlaid_of_leaf hnested hpath hleaf base,
    fun path key rest lower higher hbase hupper hmissing =>
      Value.under?_overlaid_of_missing hnested hbase hupper hmissing rest,
    Value.overlaid_again hnested base, fun name hname henvironment => ?_,
    fun store lower higher levels hlevels hbase hupper => ?_⟩
  · rw [rooted_environment hname henvironment]
    exact congrArg Except.ok (Value.overlaid_map below entries).symm
  · obtain ⟨after, hafter, hkept, hshows⟩ := Store.overlay_laid hlevels hnested hbase hupper
    rw [Set.univ_union] at hshows
    exact ⟨after, hafter, hkept, hshows⟩

theorem environment_overrides_timeout :
    let ci : Section := [(.text "http", .map [(.text "timeout", .int 9)])]
    let tree : Section :=
      [(.text "http", .map [(.text "timeout", .int 5), (.text "base_url", .null)]),
        (.text "environments", .map [(.text "ci", .map ci)])]
    let store : Store := [[("timeout", .plain (.int 5)), ("base_url", .plain .null)],
      [("timeout", .plain (.int 9))], [("http", .mapping 1)], [("ci", .mapping 2)],
      [("http", .mapping 0), ("environments", .mapping 3)]]
    let merged := Value.overlaid (.map tree) (.map ci)
    merged.under? ["http", "timeout"] = some (.int 9) ∧
      merged.under? ["http", "base_url"] = some .null ∧
      merged.under? ["http", "verify_tls"] = none ∧
      Value.overlaid merged (.map ci) = merged ∧
      (rooted (.map tree) (some "ci")).map .map = .ok merged ∧
      ∃ after, store.overlay 2 4 2 = some (after, 5) ∧ store <+: after ∧
        after.Shows .univ (.mapping 5) merged := by
  intro ci tree store merged
  have hleaf (n : Int) : (Value.int n).IsLeaf := by rintro _ ⟨⟩
  let inner := Value.ofFields [("timeout", .int 9)]
  let http := Value.ofFields [("timeout", .int 5), ("base_url", .null)]
  have hinner : inner.Nested 1 :=
    .node (by decide) (List.forall_mem_singleton.mpr (.leaf (hleaf 9)))
  have hnested : (Value.ofFields [("http", inner)]).Nested 2 :=
    .node (by decide) (List.forall_mem_singleton.mpr hinner)
  have hover : store.Shows .univ (.mapping 1) inner :=
    .of_forall₂ trivial rfl (by decide) (.cons ⟨rfl, .plain (hleaf 9)⟩ .nil)
  have hci : store.Shows .univ (.mapping 2) (.ofFields [("http", inner)]) :=
    .of_forall₂ trivial rfl (by decide) (.cons ⟨rfl, hover⟩ .nil)
  have hhttp : store.Shows .univ (.mapping 0) http :=
    .of_forall₂ trivial rfl (by decide)
      (.cons ⟨rfl, .plain (hleaf 5)⟩ (.cons ⟨rfl, .plain Value.isLeaf_null⟩ .nil))
  have hknown : store.Shows .univ (.mapping 3) (.ofFields [("ci", .map ci)]) :=
    .of_forall₂ trivial rfl (List.nodup_singleton _) (.cons ⟨rfl, hci⟩ .nil)
  have htree : store.Shows .univ (.mapping 4)
      (.ofFields [("http", http), ("environments", .ofFields [("ci", .map ci)])]) :=
    .of_forall₂ trivial rfl (by decide) (.cons ⟨rfl, hhttp⟩ (.cons ⟨rfl, hknown⟩ .nil))
  obtain ⟨hnamed, hpassed, hagain, hrooted, hplaced⟩ :=
    @environment_overrides_named 2 tree ci hnested
  exact ⟨hnamed ["http", "timeout"] (.int 9) rfl (hleaf 9),
    hpassed ["http"] "base_url" [] _ _ rfl rfl rfl,
    hpassed ["http"] "verify_tls" [] _ _ rfl rfl rfl, hagain,
    hrooted "ci" (by decide) rfl, hplaced store 4 2 2 (Nat.le_refl 2) htree hci⟩

end Settings

end Rehearsal
