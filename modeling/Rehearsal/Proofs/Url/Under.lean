import Rehearsal.Proofs.Url.Join

/-! Paths placed under a base address. The path loses the slashes it begins with and is then read as
a reference of its own, joined to the base with one slash at its end. -/

namespace Rehearsal.Url

def trimmed (cs : Chars) : Chars := cs.rdropWhile (· == '/')

/-- Whether a text has nothing but a scheme, an authority and a path, and loses nothing. -/
def Bare (text : Chars) : Prop :=
  clean text = text ∧ behind text = (Reference.parse [] text).fullPath

instance (text : Chars) : Decidable (Bare text) := inferInstanceAs (Decidable (_ ∧ _))

variable {base text scheme authority tail : Chars} {b : Reference}

theorem trimmed_append {slashes : Chars} (cs : Chars) (h : ∀ c ∈ slashes, c = '/') :
    trimmed (cs ++ slashes) = trimmed cs := by
  rw [trimmed, List.rdropWhile, List.reverse_append,
    List.dropWhile_append_of_pos (by simpa using h)]
  rfl

theorem trimmed_eq_self (h : text.getLast? ≠ some '/') : trimmed text = text := by
  refine List.rdropWhile_eq_self_iff.mpr fun hne hslash => h ?_
  rw [List.getLast?_eq_some_getLast hne, eq_of_beq hslash]

theorem trimmed_getLast? (cs : Chars) : (trimmed cs).getLast? ≠ some '/' := by
  intro h
  have hne : trimmed cs ≠ [] := by
    intro hnil
    rw [hnil] at h
    cases h
  have hlast := List.rdropWhile_last_not (· == '/') cs hne
  rw [List.getLast?_eq_some_getLast hne] at h
  exact hlast (beq_of_eq (Option.some.inj h))

theorem exists_slashes (cs : Chars) : ∃ slashes, cs = trimmed cs ++ slashes ∧
    ∀ c ∈ slashes, c = '/' :=
  ⟨_, List.rdropWhile_append_rtakeWhile.symm, fun _ hc => by simpa using List.mem_rtakeWhile_imp hc⟩

theorem clean_slashes {slashes : Chars} (cs : Chars) (h : ∀ c ∈ slashes, c = '/') :
    clean (cs ++ slashes) = clean cs ++ slashes := by
  have hkept : slashes.filter isKept = slashes :=
    List.filter_eq_self.mpr fun c hc => by rw [h c hc]; rfl
  rw [clean_append, hkept]
  intro c hc
  rw [h c (List.mem_of_mem_head? hc)]
  decide

theorem trimmed_site (h : ∀ c ∈ authority, isAuthorityEnd c = false) (hne : authority ≠ [])
    (scheme tail : Chars) : trimmed (scheme ++ ':' :: '/' :: '/' :: (authority ++ tail)) =
      scheme ++ ':' :: '/' :: '/' :: (authority ++ trimmed tail) := by
  obtain ⟨slashes, htail, hslashes⟩ := exists_slashes tail
  have hlast : (scheme ++ [':', '/', '/'] ++ (authority ++ trimmed tail)).getLast? ≠ some '/' := by
    have hauthority := List.getLast?_eq_some_getLast hne
    have hinside := h _ (List.getLast_mem hne)
    have htrimmed := trimmed_getLast? tail
    rw [List.getLast?_append, List.getLast?_append, hauthority]
    generalize (trimmed tail).getLast? = last at htrimmed
    cases last with
    | none =>
      intro hslash
      rw [Option.some.inj hslash] at hinside
      cases hinside
    | some c => exact htrimmed
  have hsplit : scheme ++ ':' :: '/' :: '/' :: (authority ++ tail) =
      scheme ++ [':', '/', '/'] ++ (authority ++ trimmed tail) ++ slashes := by
    rw [List.append_assoc, List.append_assoc, List.append_assoc, ← htail]
    rfl
  rw [hsplit, trimmed_append _ hslashes, trimmed_eq_self hlast, List.append_assoc]
  rfl

theorem opens_directory (h : Opens base scheme authority tail) (hauthority : authority ≠ []) :
    ∃ more, Opens (trimmed base ++ ['/']) scheme authority (trimmed tail ++ (more ++ ['/'])) ∧
      (∀ c ∈ more, c = '/') ∧ (clean base = base → more = []) := by
  obtain ⟨slashes, hbase, hslashes⟩ := exists_slashes base
  have hlast := trimmed_getLast? base
  generalize trimmed base = stripped at hbase hlast ⊢
  -- Characters that are dropped may stand between the slashes at the end, so some can be left.
  obtain ⟨more, hstripped, hmore⟩ := exists_slashes (clean stripped)
  have hclean : clean base = clean stripped ++ slashes := by rw [hbase, clean_slashes _ hslashes]
  have hsite : trimmed (clean stripped) =
      scheme ++ ':' :: '/' :: '/' :: (authority ++ trimmed tail) := by
    rw [← trimmed_append _ hslashes, ← hclean, h.clean_eq, trimmed_site h.inside hauthority]
  refine ⟨more, ⟨h.isScheme, h.inside, ?_, ?_⟩, hmore, fun hsame => ?_⟩
  · have htail := h.ends
    obtain ⟨rest, hrest, -⟩ := exists_slashes tail
    rw [hrest] at htail
    cases htrimmed : trimmed tail with
    | nil =>
      intro c hc
      rw [List.nil_append] at hc
      obtain hc | hc := List.mem_append.mp (List.mem_of_mem_head? hc)
      · rw [hmore c hc]
        rfl
      · rw [List.mem_singleton.mp hc]
        rfl
    | cons c cs =>
      rw [htrimmed] at htail
      exact htail
  · rw [clean_slashes _ (by simp), hstripped, hsite]
    simp only [List.append_assoc, List.cons_append]
  · rw [hsame, hbase] at hclean
    rw [← List.append_cancel_right hclean, trimmed_eq_self hlast] at hstripped
    simpa using hstripped

theorem mem_of_mem_trimmed {c : Char} (h : c ∈ trimmed text) : c ∈ text :=
  (List.rdropWhile_prefix _ _).subset h

theorem Bare.front_eq (h : Bare base) :
    front (Reference.parse [] base).fullPath = (Reference.parse [] base).fullPath := by
  have hlength : (Reference.parse [] base).fullPath.length ≤ (front (behind base)).length := by
    rw [parse_eq]
    exact (ofTail_fullPath_length _ _ _).1
  rw [h.2] at hlength
  exact (prefix_front _).eq_of_length (Nat.le_antisymm (prefix_front _).length_le hlength)

theorem parse_directory (hweb : IsWeb (Reference.parse [] base).scheme)
    (hauthority : (Reference.parse [] base).authority ≠ []) :
    (Reference.parse [] (trimmed base ++ ['/'])).SameSite (Reference.parse [] base) := by
  obtain ⟨scheme, hscheme, hopens⟩ := opens_of_parse hweb.isScheme.ne_nil hauthority
  obtain ⟨more, hdirectory, -, -⟩ := opens_directory hopens hauthority
  rw [Reference.SameSite, hdirectory.parse, ofTail_scheme, ofTail_authority]
  exact ⟨hscheme, rfl⟩

theorem Opens.isDirectory {directory : Chars}
    (h : Opens base scheme authority (directory ++ ['/']))
    (hknown : knows paramSchemes (scheme.map Char.toLower) = true)
    (hfront : front directory = directory) (hkept : directory.filter isKept = directory) :
    (Reference.parse [] base).IsDirectory directory := by
  have hroot : Rooted directory := by
    cases directory with
    | nil => nofun
    | cons c rest =>
      rintro _ ⟨⟩
      have hend : isAuthorityEnd c = true := h.ends c rfl
      have hplain := front_eq_self_iff.mp hfront c List.mem_cons_self
      simpa [isAuthorityEnd, hplain.1, hplain.2] using hend
  have hparts : pathParts (scheme.map Char.toLower) (front (directory ++ ['/'])) =
      (directory ++ ['/'], []) := by
    rw [front_append hfront, pathParts_eq hknown]
    exact takeParams_append directory []
  rw [h.parse, ofTail_eq, hparts]
  exact ⟨rfl, rfl, hroot, hfront, hkept⟩

theorem Bare.isDirectory (h : Bare base) (hweb : IsWeb (Reference.parse [] base).scheme)
    (hauthority : (Reference.parse [] base).authority ≠ []) :
    (Reference.parse [] (trimmed base ++ ['/'])).IsDirectory
      (trimmed (Reference.parse [] base).fullPath) := by
  have hplain := front_eq_self_iff.mp h.front_eq
  obtain ⟨hclean, hbehind⟩ := h
  obtain ⟨scheme, hscheme, hopens⟩ := opens_of_parse hweb.isScheme.ne_nil hauthority
  obtain ⟨more, hdirectory, -, hnone⟩ := opens_directory hopens hauthority
  have hsplit := hopens.clean_eq
  rw [hnone hclean, List.nil_append, hbehind] at hdirectory
  rw [hbehind] at hsplit
  refine hdirectory.isDirectory ?_ ?_ ?_
  · rw [hscheme]
    exact hweb.knows_params
  · exact front_eq_self_iff.mpr fun c hc => hplain c (mem_of_mem_trimmed hc)
  · rw [List.filter_eq_self]
    intro c hc
    have hmem : c ∈ clean base := by
      rw [hsplit]
      simp [mem_of_mem_trimmed hc]
    exact (List.mem_filter.mp hmem).2

/-- Where a path that is placed under a base comes to stand. -/
theorem under_ok {base path url : String} (h : under base path = .ok url) :
    url.toList = join (trimmed base.toList ++ ['/']) (path.toList.dropWhile (· == '/')) := by
  simp only [under] at h
  split at h
  · cases h
  · rw [← Except.ok.inj h, String.toList_ofList]
    rfl

section Under

variable {base path url : String} (hbase : Reference.parse [] base.toList = b)
  (hweb : IsWeb b.scheme) (hauthority : b.authority ≠ []) (h : under base path = .ok url)

include hbase hweb hauthority h in
theorem under_site : (Reference.parse [] url.toList).SameSite b ↔
    (Reference.parse [] (path.toList.dropWhile (· == '/'))).StaysOn b := by
  subst hbase
  obtain ⟨hscheme, hsite⟩ := parse_directory hweb hauthority
  rw [← hscheme] at hweb
  rw [← hsite] at hauthority
  have hjoin := join_site rfl hweb hauthority (path.toList.dropWhile (· == '/'))
  rw [← under_ok h] at hjoin
  simpa only [Reference.SameSite, Reference.StaysOn, hscheme, hsite] using hjoin

include hbase hweb hauthority h in
theorem under_path (hbare : Bare base.toList) :
    (Reference.parse [] url.toList).fullPath =
        trimmed b.fullPath ++ '/' :: path.toList.dropWhile (· == '/') ↔
      (path.toList.dropWhile (· == '/') = [] ∨ PlainDirectory (trimmed b.fullPath)) ∧
        PlainPath (path.toList.dropWhile (· == '/')) := by
  subst hbase
  have hdirectory := hbare.isDirectory hweb hauthority
  obtain ⟨hscheme, hsite⟩ := parse_directory hweb hauthority
  rw [← hscheme] at hweb
  rw [← hsite] at hauthority
  rw [under_ok h]
  exact join_path rfl hweb hauthority hdirectory _

end Under

end Rehearsal.Url
