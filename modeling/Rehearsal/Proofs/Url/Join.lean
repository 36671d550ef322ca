import Rehearsal.Proofs.Url.Reference

/-! References joined to a web address. What is joined stays on the site of the address exactly if
it names no other one. If the path of the address is a directory, what is joined is put behind it
exactly if it is all path and the path is plain; everything else comes out shorter. -/

namespace Rehearsal.Url

def IsWeb (scheme : Chars) : Prop := scheme = "http".toList ∨ scheme = "https".toList

/-- Whether a text is all path, and the path is plain. -/
def PlainPath (text : Chars) : Prop :=
  (Reference.parse [] text).fullPath = text ∧ PlainRelative (Reference.parse [] text).path

instance (text : Chars) : Decidable (PlainPath text) := inferInstanceAs (Decidable (_ ∧ _))

namespace Reference

def SameSite (r b : Reference) : Prop := r.scheme = b.scheme ∧ r.authority = b.authority

instance (r b : Reference) : Decidable (r.SameSite b) := inferInstanceAs (Decidable (_ ∧ _))

/-- Whether a reference names neither another scheme nor another authority. -/
def StaysOn (r b : Reference) : Prop :=
  (r.scheme = [] ∨ r.scheme = b.scheme) ∧ (r.authority = [] ∨ r.authority = b.authority)

instance (r b : Reference) : Decidable (r.StaysOn b) := inferInstanceAs (Decidable (_ ∧ _))

/-- A reference that takes a scheme if it has none. -/
def within (scheme : Chars) (r : Reference) : Reference :=
  { r with scheme := if r.scheme.isEmpty then scheme else r.scheme }

/-- Whether the path of a reference is a directory with one slash behind it. -/
structure IsDirectory (b : Reference) (directory : Chars) : Prop where
  path : b.path = directory ++ ['/']
  params : b.params = []
  rooted : Rooted directory
  front : front directory = directory
  kept : directory.filter isKept = directory

end Reference

/-- What a reference becomes when it is resolved against a base of its scheme. -/
inductive Placed (b r : Reference) : Reference → Prop
  | site : r.authority ≠ [] → Placed b r r
  | same (query : Chars) : r.authority = [] → r.fullPath = [] →
      Placed b r { r with
        authority := b.authority, path := b.path, params := b.params, query := query }
  | below : r.authority = [] → r.fullPath ≠ [] →
      Placed b r { r with authority := b.authority, path := resolvePath b.path r.path }

variable {base text directory scheme : Chars} {b r q : Reference}

theorem IsWeb.isScheme (h : IsWeb scheme) : IsScheme scheme := by
  obtain rfl | rfl := h
  · exact ⟨⟨'h', rfl, rfl⟩, List.all_eq_true.mp (by decide)⟩
  · exact ⟨⟨'h', rfl, rfl⟩, List.all_eq_true.mp (by decide)⟩

theorem IsWeb.toLower (h : IsWeb scheme) : scheme.map Char.toLower = scheme := by
  obtain rfl | rfl := h <;> decide

theorem IsWeb.knows_relative (h : IsWeb scheme) : knows relativeSchemes scheme = true := by
  obtain rfl | rfl := h <;> decide

theorem IsWeb.knows_authority (h : IsWeb scheme) : knows authoritySchemes scheme = true := by
  obtain rfl | rfl := h <;> decide

theorem IsWeb.knows_params (h : IsWeb scheme) : knows paramSchemes scheme = true := by
  obtain rfl | rfl := h <;> decide

theorem ofTail_known (h : knows paramSchemes scheme = true) (authority tail : Chars) :
    ofTail scheme authority tail = { ofTail [] authority tail with scheme := scheme } := by
  rw [ofTail_eq, ofTail_eq, pathParts_eq h, pathParts_eq (by decide)]

theorem parse_default (h : IsWeb scheme) (text : Chars) :
    Reference.parse scheme text = (Reference.parse [] text).within scheme := by
  rw [parse_eq, parse_eq]
  generalize (takeScheme (clean text)).1 = own
  cases own with
  | nil => exact ofTail_known h.knows_params _ _
  | cons c rest => rfl

theorem within_scheme_eq_iff :
    (r.within scheme).scheme = scheme ↔ r.scheme = [] ∨ r.scheme = scheme := by
  cases h : r.scheme with
  | nil => simp [Reference.within, h]
  | cons c rest => simp [Reference.within, h]

theorem within_fullPath (scheme : Chars) (r : Reference) :
    (r.within scheme).fullPath = r.fullPath := rfl

theorem Placed.scheme_eq (h : Placed b r q) : q.scheme = r.scheme := by
  cases h <;> rfl

theorem Placed.authority_eq (h : Placed b r q) :
    q.authority = if r.authority = [] then b.authority else r.authority := by
  cases h with
  | site hauthority => rw [if_neg hauthority]
  | same query hauthority hpath => rw [if_pos hauthority]
  | below hauthority hpath => rw [if_pos hauthority]

theorem join_nil (base : Chars) : join base [] = base := by
  cases base <;> rfl

section Join

variable (hb : Reference.parse [] base = b) (hweb : IsWeb b.scheme) (hauthority : b.authority ≠ [])

include hb hweb in
/-- A text of another scheme stays as it is; any other one is placed. -/
theorem join_eq (htext : text ≠ []) :
    ((Reference.parse [] text).within b.scheme).scheme ≠ b.scheme ∧ join base text = text ∨
      ((Reference.parse [] text).within b.scheme).scheme = b.scheme ∧
        ∃ q, Placed b ((Reference.parse [] text).within b.scheme) q ∧
          join base text = q.format := by
  have hbase : base.isEmpty = false := by
    cases base with
    | nil =>
      subst hb
      obtain h | h := hweb <;> cases h
    | cons => rfl
  have htext : text.isEmpty = false := by simpa using htext
  simp only [join, hbase, htext, hb, parse_default hweb, Bool.false_eq_true, if_false]
  generalize (Reference.parse [] text).within b.scheme = r
  by_cases hscheme : r.scheme = b.scheme
  · refine .inr ⟨hscheme, ?_⟩
    rw [hscheme, hweb.knows_relative, hweb.knows_authority, bne_self_eq_false]
    simp only [Bool.not_true, Bool.or_self, Bool.false_eq_true, if_false, Bool.true_and, if_true]
    by_cases hauthority : r.authority = []
    · simp only [hauthority, List.isEmpty_nil, Bool.not_true, Bool.false_eq_true, if_false]
      by_cases hpath : (r.path.isEmpty && r.params.isEmpty) = true
      · rw [if_pos hpath]
        exact ⟨_, .same _ hauthority (fullPath_eq_nil.mpr hpath), by rw [hscheme]⟩
      · rw [if_neg hpath]
        exact ⟨_, .below hauthority (fun h => hpath (fullPath_eq_nil.mp h)), by rw [hscheme]⟩
    · rw [if_pos (by simpa using hauthority)]
      exact ⟨r, .site hauthority, rfl⟩
  · refine .inl ⟨hscheme, ?_⟩
    rw [if_pos (by simp [hscheme])]

include hb hweb hauthority in
theorem join_cases (htext : text ≠ []) :
    ¬((Reference.parse [] text).scheme = [] ∨ (Reference.parse [] text).scheme = b.scheme) ∧
        join base text = text ∨
      ((Reference.parse [] text).scheme = [] ∨ (Reference.parse [] text).scheme = b.scheme) ∧
        ∃ q, Placed b ((Reference.parse [] text).within b.scheme) q ∧ q.Sited ∧
          q.scheme = b.scheme ∧ join base text = q.format := by
  have hinside := parse_authority [] base
  have hinside' := parse_authority [] text
  rw [hb] at hinside
  obtain ⟨hscheme, hjoin⟩ | ⟨hscheme, q, hplaced, hjoin⟩ := join_eq hb hweb htext
  · exact .inl ⟨mt within_scheme_eq_iff.mpr hscheme, hjoin⟩
  refine .inr ⟨within_scheme_eq_iff.mp hscheme, q, hplaced, ⟨?_, ?_, ?_⟩,
    hplaced.scheme_eq.trans hscheme, hjoin⟩
  · rw [hplaced.scheme_eq, hscheme]
    exact hweb.isScheme
  all_goals
    rw [hplaced.authority_eq]
    split_ifs with hnone
    · assumption
    · assumption

include hb hweb hauthority in
/-- A joined reference stays on the site of its base exactly if it names no other one. -/
theorem join_site (text : Chars) : (Reference.parse [] (join base text)).SameSite b ↔
    (Reference.parse [] text).StaysOn b := by
  by_cases htext : text = []
  · subst htext
    rw [join_nil, hb]
    exact ⟨fun _ => ⟨.inl rfl, .inl rfl⟩, fun _ => ⟨rfl, rfl⟩⟩
  rw [Reference.SameSite, Reference.StaysOn]
  obtain ⟨hother, hjoin⟩ | ⟨hstays, q, hplaced, hq, hscheme, hjoin⟩ :=
    join_cases hb hweb hauthority htext
  · rw [hjoin]
    exact ⟨fun h => absurd (.inr h.1) hother, fun h => absurd h.1 hother⟩
  · have hsite : q.authority = if (Reference.parse [] text).authority = [] then b.authority
        else (Reference.parse [] text).authority := hplaced.authority_eq
    rw [hjoin, hq.opens_format.parse, ofTail_scheme, ofTail_authority, hscheme, hweb.toLower, hsite]
    simp only [hstays, true_and]
    split_ifs with hnone
    · simp only [hnone, true_or]
    · simp only [hnone, false_or]

theorem Placed.fullPath_length (h : Placed b r q) (hdir : b.IsDirectory directory) {n : Nat}
    (hn : 0 < n) (hlength : r.fullPath.length ≤ n)
    (hsite : r.authority ≠ [] → r.fullPath.length < n) :
    (fromRoot q.fullPath).length ≤ directory.length + 1 + n ∧
      ((fromRoot q.fullPath).length = directory.length + 1 + n →
        r.fullPath.length = n ∧ PlainDirectory directory ∧ PlainRelative r.path) := by
  cases h with
  | site hauthority =>
    have hshort := hsite hauthority
    have hslash := fromRoot_length r.fullPath
    exact ⟨by omega, fun h => by omega⟩
  | same query _ hnone =>
    rw [fullPath_eq]
    simp only [hdir.path, hdir.params, List.isEmpty_nil, if_true, List.append_nil]
    rw [fromRoot_eq_self (hdir.rooted.append_slash []), List.length_append, List.length_singleton]
    exact ⟨by omega, fun h => by omega⟩
  | below _ hsome =>
    obtain ⟨hless, hplain⟩ := resolvePath_length hdir.rooted r.path
    rw [fullPath_eq r, List.length_append] at hlength ⊢
    rw [fullPath_eq]
    simp only [hdir.path]
    rw [fromRoot_append (resolvePath_ne_nil _ _), List.length_append]
    exact ⟨by omega, fun h => ⟨by omega, hplain (by omega)⟩⟩

theorem Placed.fullPath_plain (h : Placed b r q) (hdir : b.IsDirectory directory)
    (hdirectory : PlainDirectory directory) (hrelative : PlainRelative r.path)
    (hauthority : r.authority = []) (hsome : r.fullPath ≠ []) :
    q.fullPath = directory ++ '/' :: r.fullPath := by
  cases h with
  | site hother => exact absurd hauthority hother
  | same query _ hnone => exact absurd hnone hsome
  | below =>
    rw [fullPath_eq, fullPath_eq r]
    simp only [hdir.path]
    rw [resolvePath_plain hdir.rooted hdirectory hrelative, List.append_assoc, List.cons_append]

include hb hweb hauthority in
theorem join_path_length (hdir : b.IsDirectory directory) (htext : text ≠ []) :
    (Reference.parse [] (join base text)).fullPath.length ≤ directory.length + 1 + text.length ∧
      ((Reference.parse [] (join base text)).fullPath.length =
        directory.length + 1 + text.length → PlainDirectory directory ∧ PlainPath text) := by
  obtain ⟨hless, hall⟩ := parse_fullPath_length [] text
  obtain ⟨-, hjoin⟩ | ⟨-, q, hplaced, hq, -, hjoin⟩ := join_cases hb hweb hauthority htext
  · rw [hjoin]
    exact ⟨by omega, fun h => by omega⟩
  · have hread := hq.format_fullPath_length []
    -- A text that names an authority is longer than its path.
    have hsite : (Reference.parse [] text).authority ≠ [] →
        (Reference.parse [] text).fullPath.length < text.length := by
      intro hother
      refine Nat.lt_of_le_of_ne hless fun h => hother ?_
      rw [(hall h).2.1, ofTail_authority]
    obtain ⟨hplace, hplain⟩ :=
      hplaced.fullPath_length hdir (List.length_pos_iff.mpr htext) hless hsite
    rw [hjoin]
    refine ⟨by omega, fun h => ?_⟩
    obtain ⟨hwhole, hdirectory, hrelative⟩ := hplain (by omega)
    obtain ⟨-, hparse, -, hfull⟩ := hall hwhole
    exact ⟨hdirectory, by rw [hparse, hfull], hrelative⟩

include hb hweb hauthority in
theorem join_path_plain (hdir : b.IsDirectory directory) (htext : text ≠ [])
    (hdirectory : PlainDirectory directory) (hplain : PlainPath text) :
    (Reference.parse [] (join base text)).fullPath = directory ++ '/' :: text := by
  obtain ⟨hwhole, hrelative⟩ := hplain
  obtain ⟨hclean, hparse, hbefore, hfull⟩ :=
    (parse_fullPath_length [] text).2 (congrArg List.length hwhole)
  obtain ⟨hother, -⟩ | ⟨-, q, hplaced, hq, hscheme, hjoin⟩ := join_cases hb hweb hauthority htext
  · exact absurd (.inl (by rw [hparse, ofTail_scheme])) hother
  have hpath := hplaced.fullPath_plain hdir hdirectory hrelative
    (congrArg Reference.authority hparse)
  rw [within_fullPath, hwhole] at hpath
  have hpath := hpath htext
  have hparts : joinParams (takeParams text) = text := by
    rw [ofTail_fullPath, hbefore, pathParts_eq (by decide)] at hfull
    exact hfull
  have hkept : text.filter isKept = text := by rw [← hclean, filter_clean]
  have hknown : knows paramSchemes (q.scheme.map Char.toLower) = true := by
    rw [hscheme, hweb.toLower]
    exact hweb.knows_params
  rw [hjoin, hq.format_fullPath hknown] <;> rw [hpath]
  · exact hdir.rooted.append_slash text
  · rw [front_append hdir.front, front_cons (by decide), hbefore]
  · rw [List.filter_append, List.filter_cons_of_pos rfl, hdir.kept, hkept]
  · rw [joinParams_append, hparts]

include hb hweb hauthority in
/-- A text is put behind a directory exactly if it is plain, and the directory is too unless there
is no text. -/
theorem join_path (hdir : b.IsDirectory directory) (text : Chars) :
    (Reference.parse [] (join base text)).fullPath = directory ++ '/' :: text ↔
      (text = [] ∨ PlainDirectory directory) ∧ PlainPath text := by
  by_cases htext : text = []
  · subst htext
    rw [join_nil, hb, fullPath_eq, hdir.path, hdir.params]
    exact ⟨fun _ => ⟨.inl rfl, rfl, by decide⟩, fun _ => List.append_nil _⟩
  constructor
  · intro h
    have hlength := congrArg List.length h
    rw [List.length_append, List.length_cons] at hlength
    have hplain := (join_path_length hb hweb hauthority hdir htext).2 (by omega)
    exact ⟨.inr hplain.1, hplain.2⟩
  · rintro ⟨hdirectory, hplain⟩
    exact join_path_plain hb hweb hauthority hdir htext (hdirectory.resolve_left htext) hplain

end Join

end Rehearsal.Url
