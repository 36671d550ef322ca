import Mathlib.Data.List.DropRight
import Mathlib.Data.List.TakeWhile
import Rehearsal.Proofs.Url.Path

/-! The parts of references. A text opens a site if it begins with a scheme, two slashes and an
authority; what stands behind them does not change how they are read. The path of a text is never
longer than the text, and it is the whole text only if nothing else is in it. -/

namespace Rehearsal.Url

def isKept (c : Char) : Bool := c != '\t' && c != '\r' && c != '\n'

/-- A text without its query and its fragment. -/
def front (cs : Chars) : Chars := cs.takeWhile fun c => c != '?' && c != '#'

/-- The reference that a scheme, an authority and the text behind them make. -/
def ofTail (scheme authority tail : Chars) : Reference :=
  let (rest, fragment) := cutOff '#' tail
  let (path, query) := cutOff '?' rest
  let (path, params) :=
    if knows paramSchemes scheme && path.contains ';' then takeParams path else (path, [])
  ⟨scheme, authority, path, params, query, fragment⟩

/-- What stands behind the authority of a text. -/
def behind (text : Chars) : Chars := (takeAuthority (takeScheme (clean text)).2).2

def joinParams (parts : Chars × Chars) : Chars :=
  if parts.2.isEmpty then parts.1 else parts.1 ++ ';' :: parts.2

def Reference.fullPath (r : Reference) : Chars := joinParams (r.path, r.params)

structure IsScheme (s : Chars) : Prop where
  starts : ∃ c ∈ s.head?, isSchemeStart c = true
  parts : ∀ c ∈ s, isSchemePart c = true

/-- Whether a text can follow an authority. -/
def Ends (tail : Chars) : Prop := ∀ c ∈ tail.head?, isAuthorityEnd c = true

/-- Whether a text is read as a scheme, two slashes, an authority and what stands behind it. -/
structure Opens (text scheme authority tail : Chars) : Prop where
  isScheme : IsScheme scheme
  inside : ∀ c ∈ authority, isAuthorityEnd c = false
  ends : Ends tail
  clean_eq : clean text = scheme ++ ':' :: '/' :: '/' :: (authority ++ tail)

variable {text scheme authority tail cs ds : Chars}

theorem fullPath_eq (r : Reference) :
    r.fullPath = r.path ++ if r.params.isEmpty then [] else ';' :: r.params := by
  rw [Reference.fullPath, joinParams]
  split_ifs
  · rw [List.append_nil]
  · rfl

theorem fullPath_eq_nil {r : Reference} :
    r.fullPath = [] ↔ (r.path.isEmpty && r.params.isEmpty) = true := by
  rw [Reference.fullPath, joinParams]
  split_ifs with h <;> simp [h]

theorem parse_eq (default text : Chars) : Reference.parse default text =
    ofTail (if (takeScheme (clean text)).1.isEmpty then default else (takeScheme (clean text)).1)
      (takeAuthority (takeScheme (clean text)).2).1 (behind text) := rfl

@[simp] theorem ofTail_scheme (scheme authority tail : Chars) :
    (ofTail scheme authority tail).scheme = scheme := rfl

@[simp] theorem ofTail_authority (scheme authority tail : Chars) :
    (ofTail scheme authority tail).authority = authority := rfl

theorem cutOff_fst (mark : Char) (cs : Chars) :
    (cutOff mark cs).1 = cs.takeWhile (· != mark) := by
  rw [cutOff, cut]
  split
  · rename_i hdrop
    have hall := List.dropWhile_eq_nil_iff.mp hdrop
    exact (List.takeWhile_eq_self_iff.mpr hall).symm
  · rfl

theorem front_cutOff (tail : Chars) : (cutOff '?' (cutOff '#' tail).1).1 = front tail := by
  rw [cutOff_fst, cutOff_fst, List.takeWhile_takeWhile, front]
  simp only [Bool.decide_and, Bool.decide_eq_true]

theorem prefix_front (cs : Chars) : front cs <+: cs := List.takeWhile_prefix _

theorem front_eq_self_iff : front cs = cs ↔ ∀ c ∈ cs, c ≠ '?' ∧ c ≠ '#' := by
  rw [front, List.takeWhile_eq_self_iff]
  simp only [Bool.and_eq_true, bne_iff_ne]

theorem front_append (h : front cs = cs) (ds : Chars) : front (cs ++ ds) = cs ++ front ds := by
  rw [front, List.takeWhile_append_of_pos (List.takeWhile_eq_self_iff.mp h)]
  rfl

theorem front_cons {c : Char} (h : c ≠ '?' ∧ c ≠ '#') (cs : Chars) :
    front (c :: cs) = c :: front cs := by
  rw [front, List.takeWhile_cons_of_pos (by simpa using h)]
  rfl

theorem front_marked (h : ∀ c ∈ cs.head?, c = '?' ∨ c = '#') : front cs = [] := by
  cases cs with
  | nil => rfl
  | cons c rest => obtain rfl | rfl := h c rfl <;> rfl

theorem front_append_length (cs : Chars) (h : ∀ c ∈ ds.head?, c = '?' ∨ c = '#') :
    (front (cs ++ ds)).length ≤ cs.length := by
  rw [front, List.takeWhile_append]
  split_ifs
  · rw [← front, front_marked h, List.append_nil]
  · exact (prefix_front cs).length_le

theorem cut_eq_some {mark : Char} {before after : Chars} (h : cut mark cs = some (before, after)) :
    cs = before ++ mark :: after := by
  rw [cut] at h
  split at h
  · cases h
  rename_i c rest hdrop
  obtain ⟨rfl, rfl⟩ := Prod.mk.inj (Option.some.inj h)
  have hstop := List.head?_dropWhile_not (· != mark) cs
  rw [hdrop] at hstop
  have hc : c = mark := by simpa using hstop
  rw [hc] at hdrop
  rw [← hdrop, List.takeWhile_append_dropWhile]

theorem not_mem_of_cut {mark : Char} {before after : Chars}
    (h : cut mark cs = some (before, after)) : mark ∉ before := by
  rw [cut] at h
  split at h
  · cases h
  obtain ⟨rfl, -⟩ := Prod.mk.inj (Option.some.inj h)
  intro hmem
  simpa using List.mem_takeWhile_imp hmem

def lastSegment (cs : Chars) : Chars := cs.rtakeWhile (· != '/')

def parent (cs : Chars) : Chars := cs.rdropWhile (· != '/')

theorem parent_append_lastSegment (cs : Chars) : parent cs ++ lastSegment cs = cs :=
  List.rdropWhile_append_rtakeWhile

theorem lastSegment_append (cs ds : Chars) : lastSegment (cs ++ '/' :: ds) = lastSegment ds := by
  rw [lastSegment, List.rtakeWhile, List.reverse_append, List.reverse_cons, List.append_assoc,
    List.takeWhile_append]
  split_ifs with h
  · have hall : ds.reverse.takeWhile (· != '/') = ds.reverse :=
      List.IsPrefix.eq_of_length (List.takeWhile_prefix _) h
    rw [lastSegment, List.rtakeWhile, hall]
    exact congrArg List.reverse (List.append_nil _)
  · rfl

theorem parent_append (cs ds : Chars) : parent (cs ++ '/' :: ds) = cs ++ '/' :: parent ds := by
  have hwhole := parent_append_lastSegment (cs ++ '/' :: ds)
  rw [lastSegment_append] at hwhole
  refine List.append_cancel_right (hwhole.trans ?_)
  rw [List.append_assoc, List.cons_append, parent_append_lastSegment]

theorem takeParams_eq (cs : Chars) : takeParams cs =
    match cut ';' (lastSegment cs) with
    | some (name, params) => (parent cs ++ name, params)
    | none => (cs, []) := by
  have hparent : cs.take (cs.length - (lastSegment cs).length) = parent cs := by
    have hsuffix := List.suffix_iff_eq_append.mp (List.rtakeWhile_suffix (· != '/') cs)
    exact List.append_cancel_right (hsuffix.trans (parent_append_lastSegment cs).symm)
  rw [← hparent]
  rfl

/-- Nothing is lost but a semicolon at the end. -/
theorem joinParams_takeParams (cs : Chars) :
    joinParams (takeParams cs) = cs ∨ joinParams (takeParams cs) ++ [';'] = cs := by
  have hwhole := parent_append_lastSegment cs
  rw [takeParams_eq]
  split
  · rename_i name params hcut
    rw [cut_eq_some hcut, ← List.append_assoc] at hwhole
    cases params with
    | nil => exact .inr hwhole
    | cons c rest => exact .inl hwhole
  · exact .inl rfl

theorem takeParams_append (cs ds : Chars) :
    takeParams (cs ++ '/' :: ds) = (cs ++ '/' :: (takeParams ds).1, (takeParams ds).2) := by
  rw [takeParams_eq, takeParams_eq, lastSegment_append, parent_append]
  split
  · rw [List.append_assoc, List.cons_append]
  · rfl

theorem joinParams_append (cs ds : Chars) :
    joinParams (takeParams (cs ++ '/' :: ds)) = cs ++ '/' :: joinParams (takeParams ds) := by
  rw [takeParams_append, joinParams, joinParams]
  split_ifs
  · rfl
  · rw [List.append_assoc, List.cons_append]

theorem takeParams_of_not_mem (h : ';' ∉ cs) : takeParams cs = (cs, []) := by
  rw [takeParams_eq]
  split
  · rename_i name params hcut
    have hwhole := parent_append_lastSegment cs
    rw [cut_eq_some hcut] at hwhole
    exact absurd (hwhole ▸ List.mem_append_right _ (List.mem_append_right _ List.mem_cons_self)) h
  · rfl

def pathParts (scheme cs : Chars) : Chars × Chars :=
  if knows paramSchemes scheme && cs.contains ';' then takeParams cs else (cs, [])

theorem pathParts_eq (h : knows paramSchemes scheme = true) (cs : Chars) :
    pathParts scheme cs = takeParams cs := by
  rw [pathParts, h, Bool.true_and]
  split_ifs with hmem
  · rfl
  · exact (takeParams_of_not_mem (by simpa using hmem)).symm

theorem ofTail_eq (scheme authority tail : Chars) : ofTail scheme authority tail =
    ⟨scheme, authority, (pathParts scheme (front tail)).1, (pathParts scheme (front tail)).2,
      (cutOff '?' (cutOff '#' tail).1).2, (cutOff '#' tail).2⟩ := by
  rw [← front_cutOff]
  rfl

theorem ofTail_fullPath (scheme authority tail : Chars) :
    (ofTail scheme authority tail).fullPath = joinParams (pathParts scheme (front tail)) := by
  rw [ofTail_eq]
  rfl

theorem ofTail_fullPath_length (scheme authority tail : Chars) :
    (ofTail scheme authority tail).fullPath.length ≤ (front tail).length ∧
      ((ofTail scheme authority tail).fullPath.length = (front tail).length →
        (ofTail scheme authority tail).fullPath = front tail) := by
  rw [ofTail_fullPath, pathParts]
  split_ifs
  · obtain h | h := joinParams_takeParams (front tail)
    · exact ⟨Nat.le_of_eq (congrArg _ h), fun _ => h⟩
    · have hlength := congrArg List.length h
      rw [List.length_append, List.length_singleton] at hlength
      exact ⟨by omega, fun heq => by omega⟩
  · exact ⟨Nat.le_refl _, fun _ => rfl⟩

theorem clean_of_head (h : ∀ c ∈ cs.head?, 32 < c.toNat) : clean cs = cs.filter isKept := by
  cases cs with
  | nil => rfl
  | cons c rest =>
    have hc := h c rfl
    rw [clean, List.dropWhile_cons_of_neg (by simpa using hc)]
    rfl

theorem clean_append (cs : Chars) (h : ∀ c ∈ ds.head?, 32 < c.toNat) :
    clean (cs ++ ds) = clean cs ++ ds.filter isKept := by
  rw [clean, List.dropWhile_append]
  split_ifs with hblank
  · have hnil : cs.dropWhile (fun c => c.toNat ≤ 32) = [] := by simpa using hblank
    rw [clean, hnil]
    exact clean_of_head h
  · exact List.filter_append _ _

theorem clean_sublist (cs : Chars) : (clean cs).Sublist cs :=
  List.filter_sublist.trans (List.dropWhile_suffix _).sublist

theorem filter_clean (cs : Chars) : (clean cs).filter isKept = clean cs := by
  rw [List.filter_eq_self]
  exact fun c hc => (List.mem_filter.mp hc).2

theorem cut_append {mark : Char} (h : mark ∉ cs) (ds : Chars) :
    cut mark (cs ++ mark :: ds) = some (cs, ds) := by
  have hall : ∀ c ∈ cs, (c != mark) = true := by
    intro c hc
    rw [bne_iff_ne]
    rintro rfl
    exact h hc
  rw [cut, List.dropWhile_append_of_pos hall, List.takeWhile_append_of_pos hall,
    List.dropWhile_cons_of_neg (by simp), List.takeWhile_cons_of_neg (by simp), List.append_nil]

theorem IsScheme.ne_nil (h : IsScheme scheme) : scheme ≠ [] := by
  rintro rfl
  obtain ⟨c, hc, -⟩ := h.starts
  cases hc

theorem IsScheme.not_mem (h : IsScheme scheme) : ':' ∉ scheme := by
  intro hmem
  have := h.parts ':' hmem
  revert this
  decide

theorem takeScheme_append (h : IsScheme scheme) (rest : Chars) :
    takeScheme (scheme ++ ':' :: rest) = (scheme.map Char.toLower, rest) := by
  have hcut := cut_append h.not_mem rest
  have hall := List.all_eq_true.mpr h.parts
  obtain ⟨c, hc, hstart⟩ := h.starts
  obtain ⟨more, rfl⟩ := List.head?_eq_some_iff.mp hc
  rw [List.cons_append] at hcut ⊢
  simp only [takeScheme, hstart, hcut, hall, if_true]

theorem takeScheme_cases (cs : Chars) : takeScheme cs = ([], cs) ∨
    ∃ scheme rest, IsScheme scheme ∧ cs = scheme ++ ':' :: rest ∧
      takeScheme cs = (scheme.map Char.toLower, rest) := by
  cases cs with
  | nil => exact .inl rfl
  | cons c cs =>
    simp only [takeScheme]
    split_ifs with hstart
    · split
      · rename_i scheme rest hcut
        split_ifs with hall
        · have hwhole := cut_eq_some hcut
          refine .inr ⟨scheme, rest, ⟨⟨c, ?_, hstart⟩, List.all_eq_true.mp hall⟩, hwhole, rfl⟩
          cases scheme with
          | nil =>
            obtain rfl := (List.cons.inj hwhole).1
            revert hstart
            decide
          | cons first more => exact congrArg some (List.cons.inj hwhole).1.symm
        · exact .inl rfl
      · exact .inl rfl
    · exact .inl rfl

theorem takeAuthority_append (h : ∀ c ∈ authority, isAuthorityEnd c = false) (htail : Ends tail) :
    takeAuthority ('/' :: '/' :: (authority ++ tail)) = (authority, tail) := by
  have hall : ∀ c ∈ authority, (!isAuthorityEnd c) = true := fun c hc => by rw [h c hc]; rfl
  rw [takeAuthority, List.takeWhile_append_of_pos hall, List.dropWhile_append_of_pos hall]
  cases tail with
  | nil => rw [List.takeWhile_nil, List.dropWhile_nil, List.append_nil]
  | cons c rest =>
    have hend := htail c rfl
    simp only [List.takeWhile_cons, List.dropWhile_cons, hend, Bool.not_true, Bool.false_eq_true,
      if_false, List.append_nil]

theorem takeAuthority_cases (cs : Chars) : takeAuthority cs = ([], cs) ∨
    ∃ authority tail, (∀ c ∈ authority, isAuthorityEnd c = false) ∧ Ends tail ∧
      cs = '/' :: '/' :: (authority ++ tail) ∧ takeAuthority cs = (authority, tail) := by
  rw [takeAuthority.eq_def]
  split
  · rename_i rest
    refine .inr ⟨_, _, fun c hc => ?_, fun c hc => ?_, ?_, rfl⟩
    · simpa using List.mem_takeWhile_imp hc
    · have hstop := List.head?_dropWhile_not (fun c => !isAuthorityEnd c) rest
      rw [hc] at hstop
      simpa using hstop
    · rw [List.takeWhile_append_dropWhile]
  · exact .inl rfl

theorem takeScheme_length (cs : Chars) : (takeScheme cs).2.length ≤ cs.length ∧
    ((takeScheme cs).2.length = cs.length → takeScheme cs = ([], cs)) := by
  obtain h | ⟨scheme, rest, -, hcs, h⟩ := takeScheme_cases cs
  · exact ⟨by rw [h], fun _ => h⟩
  · have hlength := congrArg List.length hcs
    rw [List.length_append, List.length_cons] at hlength
    rw [h]
    exact ⟨by simp only; omega, fun heq => by simp only at heq; omega⟩

theorem takeAuthority_length (cs : Chars) : (takeAuthority cs).2.length ≤ cs.length ∧
    ((takeAuthority cs).2.length = cs.length → takeAuthority cs = ([], cs)) := by
  obtain h | ⟨authority, tail, -, -, hcs, h⟩ := takeAuthority_cases cs
  · exact ⟨by rw [h], fun _ => h⟩
  · have hlength := congrArg List.length hcs
    rw [List.length_cons, List.length_cons, List.length_append] at hlength
    rw [h]
    exact ⟨by simp only; omega, fun heq => by simp only at heq; omega⟩

/-- A path is the whole text only if the text has no other part and loses nothing. -/
theorem parse_fullPath_length (default text : Chars) :
    (Reference.parse default text).fullPath.length ≤ text.length ∧
      ((Reference.parse default text).fullPath.length = text.length →
        clean text = text ∧ Reference.parse default text = ofTail default [] text ∧
          front text = text ∧ (ofTail default [] text).fullPath = text) := by
  have hclean := (clean_sublist text).length_le
  obtain ⟨hscheme, hbare⟩ := takeScheme_length (clean text)
  obtain ⟨hauthority, halone⟩ := takeAuthority_length (takeScheme (clean text)).2
  have hfront := (prefix_front (behind text)).length_le
  obtain ⟨hpath, hwhole⟩ := ofTail_fullPath_length
    (if (takeScheme (clean text)).1.isEmpty then default else (takeScheme (clean text)).1)
    (takeAuthority (takeScheme (clean text)).2).1 (behind text)
  rw [← parse_eq] at hpath hwhole
  rw [← behind] at hauthority halone
  refine ⟨by omega, fun h => ?_⟩
  have hsame : clean text = text := (clean_sublist text).eq_of_length (by omega)
  have hbare := hbare (by omega)
  have halone := halone (by omega)
  have hbehind : behind text = text := by rw [behind, halone, hbare, hsame]
  have hparse : Reference.parse default text = ofTail default [] text := by
    rw [parse_eq, halone, hbehind, hbare]
    rfl
  have hfull := hwhole (by omega)
  have hbefore : front (behind text) = behind text :=
    (prefix_front (behind text)).eq_of_length (by omega)
  rw [hbehind] at hbefore hfull
  exact ⟨hsame, hparse, hbefore, by rw [← hparse, hfull, hbefore]⟩

theorem Opens.parse (h : Opens text scheme authority tail) (default : Chars) :
    Reference.parse default text = ofTail (scheme.map Char.toLower) authority tail := by
  have hscheme : (scheme.map Char.toLower).isEmpty = false := by simpa using h.isScheme.ne_nil
  rw [parse_eq, behind, h.clean_eq, takeScheme_append h.isScheme]
  simp only [takeAuthority_append h.inside h.ends, hscheme, Bool.false_eq_true, if_false]

theorem Opens.behind (h : Opens text scheme authority tail) : behind text = tail := by
  rw [Url.behind, h.clean_eq, takeScheme_append h.isScheme, takeAuthority_append h.inside h.ends]

theorem opens_of_parse (hscheme : (Reference.parse [] text).scheme ≠ [])
    (hauthority : (Reference.parse [] text).authority ≠ []) :
    ∃ scheme, scheme.map Char.toLower = (Reference.parse [] text).scheme ∧
      Opens text scheme (Reference.parse [] text).authority (behind text) := by
  obtain hnone | ⟨scheme, rest, hS, hclean, htake⟩ := takeScheme_cases (clean text)
  · exact absurd (by rw [parse_eq, hnone]; rfl) hscheme
  obtain hnone | ⟨authority, tail, hA, htail, hrest, -⟩ := takeAuthority_cases rest
  · exact absurd (by rw [parse_eq, htake, hnone]; rfl) hauthority
  have hopens : Opens text scheme authority tail := ⟨hS, hA, htail, by rw [hclean, hrest]⟩
  rw [hopens.parse, hopens.behind]
  exact ⟨scheme, rfl, hopens⟩

theorem isKept_of {p : Char → Bool} {c : Char} (h : p c = true) (htab : p '\t' = false)
    (hreturn : p '\r' = false) (hline : p '\n' = false) : isKept c = true := by
  have hne : ∀ d, p d = false → (c != d) = true := by
    intro d hd
    rw [bne_iff_ne]
    rintro rfl
    rw [h] at hd
    cases hd
  rw [isKept, hne _ htab, hne _ hreturn, hne _ hline]
  rfl

theorem IsScheme.filter_isKept (h : IsScheme scheme) : scheme.filter isKept = scheme :=
  List.filter_eq_self.mpr fun c hc =>
    isKept_of (h.parts c hc) (by decide) (by decide) (by decide)

theorem isSchemeStart_toNat {c : Char} (h : isSchemeStart c = true) : 32 < c.toNat := by
  have hle : 'a'.toNat ≤ c.toNat ∨ 'A'.toNat ≤ c.toNat := by
    simp only [isSchemeStart, Bool.or_eq_true, Bool.and_eq_true, decide_eq_true_eq] at h
    exact h.imp (fun h => h.1) fun h => h.1
  have ha : 'a'.toNat = 97 := rfl
  have hA : 'A'.toNat = 65 := rfl
  omega

theorem Ends.filter (h : Ends tail) : Ends (tail.filter isKept) := by
  cases tail with
  | nil => exact h
  | cons c rest =>
    have hend := h c rfl
    rw [List.filter_cons_of_pos (isKept_of hend (by decide) (by decide) (by decide))]
    exact h

theorem opens_append (hscheme : IsScheme scheme)
    (hauthority : ∀ c ∈ authority, isAuthorityEnd c = false ∧ isKept c = true)
    (htail : Ends tail) : Opens (scheme ++ ':' :: '/' :: '/' :: (authority ++ tail)) scheme
      authority (tail.filter isKept) := by
  refine ⟨hscheme, fun c hc => (hauthority c hc).1, htail.filter, ?_⟩
  have hhead : ∀ c ∈ (scheme ++ ':' :: '/' :: '/' :: (authority ++ tail)).head?,
      32 < c.toNat := by
    obtain ⟨c, hc, hstart⟩ := hscheme.starts
    rw [List.head?_append, hc]
    rintro _ ⟨⟩
    exact isSchemeStart_toNat hstart
  have hkept : authority.filter isKept = authority :=
    List.filter_eq_self.mpr fun c hc => (hauthority c hc).2
  rw [clean_of_head hhead, List.filter_append, hscheme.filter_isKept]
  refine congrArg (scheme ++ ·) ?_
  rw [List.filter_cons_of_pos rfl, List.filter_cons_of_pos rfl, List.filter_cons_of_pos rfl,
    List.filter_append, hkept]

def Reference.suffix (r : Reference) : Chars :=
  (if r.query.isEmpty then [] else '?' :: r.query) ++
    (if r.fragment.isEmpty then [] else '#' :: r.fragment)

theorem format_eq {r : Reference} (hscheme : r.scheme ≠ []) (hauthority : r.authority ≠ []) :
    r.format = r.scheme ++ ':' :: '/' :: '/' ::
      (r.authority ++ (fromRoot r.fullPath ++ r.suffix)) := by
  have hscheme : r.scheme.isEmpty = false := by simpa using hscheme
  have hauthority : r.authority.isEmpty = false := by simpa using hauthority
  simp only [Reference.format, Reference.suffix, fromRoot, Reference.fullPath, joinParams, hscheme,
    hauthority, Bool.not_false, Bool.true_or, if_true, Bool.false_eq_true, if_false]
  split_ifs <;> simp only [List.append_assoc, List.cons_append, List.append_nil, List.nil_append]

theorem parse_authority (default text : Chars) :
    ∀ c ∈ (Reference.parse default text).authority, isAuthorityEnd c = false ∧ isKept c = true := by
  have hkept : ∀ c ∈ (takeScheme (clean text)).2, isKept c = true := by
    intro c hc
    obtain h | ⟨scheme, rest, -, hclean, h⟩ := takeScheme_cases (clean text)
    · rw [h] at hc
      exact (List.mem_filter.mp hc).2
    · rw [h] at hc
      have hmem : c ∈ clean text := by
        rw [hclean]
        exact List.mem_append_right _ (List.mem_cons_of_mem _ hc)
      exact (List.mem_filter.mp hmem).2
  rw [parse_eq, ofTail_authority]
  obtain h | ⟨authority, tail, hinside, -, hrest, h⟩ :=
    takeAuthority_cases (takeScheme (clean text)).2
  · rw [h]
    nofun
  · rw [h]
    rw [hrest] at hkept
    exact fun c hc => ⟨hinside c hc, hkept c (List.mem_cons_of_mem _ (List.mem_cons_of_mem _
      (List.mem_append_left _ hc)))⟩

theorem suffix_head? (r : Reference) : ∀ c ∈ r.suffix.head?, c = '?' ∨ c = '#' := by
  rw [Reference.suffix]
  split_ifs <;> simp

theorem suffix_filter_head? (r : Reference) :
    ∀ c ∈ (r.suffix.filter isKept).head?, c = '?' ∨ c = '#' := by
  have hmarked := suffix_head? r
  cases hsuffix : r.suffix with
  | nil => nofun
  | cons c rest =>
    rw [hsuffix] at hmarked
    have hkept : isKept c = true := by obtain rfl | rfl := hmarked c rfl <;> rfl
    rw [List.filter_cons_of_pos hkept]
    exact hmarked

theorem ends_append {path : Chars} (h : Rooted path) (r : Reference) :
    Ends (path ++ r.suffix) := by
  cases path with
  | nil =>
    intro c hc
    obtain rfl | rfl := suffix_head? r c hc <;> rfl
  | cons c rest =>
    rintro _ ⟨⟩
    rw [h c rfl]
    rfl

/-- Whether a reference names a site that stays when it is written. -/
structure Reference.Sited (r : Reference) : Prop where
  isScheme : IsScheme r.scheme
  ne_nil : r.authority ≠ []
  inside : ∀ c ∈ r.authority, isAuthorityEnd c = false ∧ isKept c = true

namespace Reference.Sited

variable {r : Reference}

theorem opens_format (h : r.Sited) : Opens r.format r.scheme r.authority
    ((fromRoot r.fullPath).filter isKept ++ r.suffix.filter isKept) := by
  rw [format_eq h.isScheme.ne_nil h.ne_nil, ← List.filter_append]
  exact opens_append h.isScheme h.inside (ends_append (rooted_fromRoot _) r)

theorem format_fullPath_length (h : r.Sited) (default : Chars) :
    (Reference.parse default r.format).fullPath.length ≤ (fromRoot r.fullPath).length := by
  rw [h.opens_format.parse]
  calc (ofTail _ _ _).fullPath.length
      ≤ (front _).length := (ofTail_fullPath_length _ _ _).1
    _ ≤ ((fromRoot r.fullPath).filter isKept).length :=
        front_append_length _ (suffix_filter_head? r)
    _ ≤ (fromRoot r.fullPath).length := List.length_filter_le _ _

/-- A path without marks, and with no lone semicolon at its end, is read as it is written. -/
theorem format_fullPath (h : r.Sited) (hknown : knows paramSchemes (r.scheme.map Char.toLower))
    (hroot : Rooted r.fullPath) (hfront : front r.fullPath = r.fullPath)
    (hkept : r.fullPath.filter isKept = r.fullPath)
    (hparams : joinParams (takeParams r.fullPath) = r.fullPath) (default : Chars) :
    (Reference.parse default r.format).fullPath = r.fullPath := by
  rw [h.opens_format.parse, ofTail_fullPath, fromRoot_eq_self hroot, hkept, front_append hfront,
    front_marked (suffix_filter_head? r), List.append_nil, pathParts_eq hknown, hparams]

end Reference.Sited

end Rehearsal.Url
