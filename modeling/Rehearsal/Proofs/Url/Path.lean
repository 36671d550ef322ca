import Mathlib.Data.List.Basic
import Rehearsal.Url.Reference

/-! Paths below a directory. A relative path is put behind the directory as it is if it is plain: no
segment before the last one is empty, and none is made of one dot or two. Every other path comes out
shorter, because empty segments are left out and dots are taken away. -/

namespace Rehearsal.Url

/-- Whether a segment stands for the directory it is in or for the one above. -/
def Dots (s : Chars) : Prop := s = ['.'] ∨ s = ['.', '.']

instance (s : Chars) : Decidable (Dots s) := inferInstanceAs (Decidable (_ ∨ _))

def PlainSegment (s : Chars) : Prop := s ≠ [] ∧ ¬Dots s

instance (s : Chars) : Decidable (PlainSegment s) := inferInstanceAs (Decidable (_ ∧ _))

/-- Whether a path consists of names and may end with a slash. -/
def PlainRelative (path : Chars) : Prop :=
  (∀ s ∈ (segments path).dropLast, PlainSegment s) ∧ ∀ s ∈ (segments path).getLast?, ¬Dots s

instance (path : Chars) : Decidable (PlainRelative path) := inferInstanceAs (Decidable (_ ∧ _))

/-- Whether a path from the root, without a slash at its end, consists of names. -/
def PlainDirectory (path : Chars) : Prop := ∀ s ∈ (segments path).tail, PlainSegment s

instance (path : Chars) : Decidable (PlainDirectory path) :=
  inferInstanceAs (Decidable (∀ s ∈ _, _))

def Rooted (path : Chars) : Prop := ∀ c ∈ path.head?, c = '/'

/-- A path with a slash before it, unless it is empty or has one. -/
def fromRoot (path : Chars) : Chars :=
  if path.isEmpty || path.head? == some '/' then path else '/' :: path

variable {cs ds directory path : Chars} {parts kept rest : List Chars}

theorem fromRoot_eq_self (h : Rooted path) : fromRoot path = path := by
  cases path with
  | nil => rfl
  | cons c rest =>
    obtain rfl := h c rfl
    rfl

theorem Rooted.append_slash (h : Rooted directory) (path : Chars) :
    Rooted (directory ++ '/' :: path) := by
  cases directory with
  | nil =>
    rintro _ ⟨⟩
    rfl
  | cons c rest => exact h

theorem rooted_fromRoot (path : Chars) : Rooted (fromRoot path) := by
  cases path with
  | nil => nofun
  | cons c rest =>
    rw [fromRoot]
    split_ifs with h
    · rintro _ ⟨⟩
      simpa using h
    · rintro _ ⟨⟩
      rfl

theorem fromRoot_append (h : path ≠ []) (ds : Chars) :
    fromRoot (path ++ ds) = fromRoot path ++ ds := by
  obtain ⟨c, rest, rfl⟩ := List.exists_cons_of_ne_nil h
  by_cases hc : c = '/' <;> simp [fromRoot, hc]

theorem fromRoot_length (path : Chars) : (fromRoot path).length ≤ path.length + 1 := by
  rw [fromRoot]
  split_ifs
  · exact Nat.le_succ _
  · exact Nat.le_refl _

theorem segments_ne_nil (cs : Chars) : segments cs ≠ [] := by
  cases cs with
  | nil => nofun
  | cons c rest =>
    rw [segments]
    split_ifs
    · nofun
    · split <;> nofun

theorem segments_cons {c : Char} (hc : c ≠ '/') (cs : Chars) : ∃ first more,
    segments cs = first :: more ∧ segments (c :: cs) = (c :: first) :: more := by
  obtain ⟨first, more, hsegments⟩ := List.exists_cons_of_ne_nil (segments_ne_nil cs)
  exact ⟨first, more, hsegments, by rw [segments, if_neg hc, hsegments]⟩

theorem segments_slash (cs : Chars) : segments ('/' :: cs) = [] :: segments cs := by
  rw [segments, if_pos rfl]

theorem segments_append (cs ds : Chars) :
    segments (cs ++ '/' :: ds) = segments cs ++ segments ds := by
  induction cs with
  | nil => exact segments_slash ds
  | cons c rest ih =>
    by_cases hc : c = '/'
    · subst hc
      rw [List.cons_append, segments_slash, segments_slash, ih, List.cons_append]
    · obtain ⟨first, more, hrest, hcons⟩ := segments_cons hc rest
      obtain ⟨first', more', hboth, hcons'⟩ := segments_cons hc (rest ++ '/' :: ds)
      rw [ih, hrest, List.cons_append] at hboth
      obtain ⟨rfl, rfl⟩ := List.cons.inj hboth
      rw [List.cons_append, hcons', hcons, List.cons_append]

theorem segments_concat (cs : Chars) : ∃ inits last, segments cs = inits ++ [last] :=
  ⟨_, _, (List.dropLast_concat_getLast (segments_ne_nil cs)).symm⟩

theorem joinSegments_cons (s : Chars) (h : rest ≠ []) :
    joinSegments (s :: rest) = s ++ '/' :: joinSegments rest := by
  cases rest with
  | nil => exact absurd rfl h
  | cons t rest => rfl

theorem joinSegments_segments (cs : Chars) : joinSegments (segments cs) = cs := by
  induction cs with
  | nil => rfl
  | cons c rest ih =>
    by_cases hc : c = '/'
    · subst hc
      rw [segments_slash, joinSegments_cons [] (segments_ne_nil rest), ih]
      rfl
    · obtain ⟨first, more, hrest, hcons⟩ := segments_cons hc rest
      rw [hrest] at ih
      rw [hcons, ← ih]
      cases more <;> rfl

/-- The length of segments with a slash after each. -/
def weight : List Chars → Nat
  | [] => 0
  | s :: parts => s.length + 1 + weight parts

theorem weight_cons (s : Chars) (parts : List Chars) :
    weight (s :: parts) = s.length + 1 + weight parts := rfl

theorem countP_le_weight (parts : List Chars) :
    parts.length + parts.countP (fun s => decide (Dots s)) ≤ weight parts := by
  induction parts with
  | nil => exact Nat.le_refl _
  | cons s rest ih =>
    rw [weight_cons, List.length_cons, List.countP_cons]
    by_cases hs : Dots s
    · have hlength : 1 ≤ s.length := by obtain rfl | rfl := hs <;> decide
      rw [if_pos (decide_eq_true hs)]
      omega
    · rw [if_neg (by simpa using hs)]
      omega

theorem weight_append (parts more : List Chars) :
    weight (parts ++ more) = weight parts + weight more := by
  induction parts with
  | nil => exact (Nat.zero_add _).symm
  | cons s rest ih =>
    rw [List.cons_append, weight_cons, weight_cons, ih]
    omega

theorem weight_concat (parts : List Chars) (s : Chars) :
    weight (parts ++ [s]) = weight parts + (s.length + 1) := weight_append parts [s]

theorem weight_joinSegments (h : parts ≠ []) : (joinSegments parts).length + 1 = weight parts := by
  induction parts with
  | nil => exact absurd rfl h
  | cons s rest ih =>
    by_cases hrest : rest = []
    · subst hrest
      rfl
    · rw [joinSegments_cons s hrest, weight_cons, ← ih hrest, List.length_append,
        List.length_cons]
      omega

theorem weight_segments (cs : Chars) : weight (segments cs) = cs.length + 1 := by
  rw [← weight_joinSegments (segments_ne_nil cs), joinSegments_segments]

def filled (parts : List Chars) : List Chars := parts.filter fun s => !s.isEmpty

theorem filled_eq_self (h : ∀ s ∈ parts, s ≠ []) : filled parts = parts :=
  List.filter_eq_self.mpr fun s hs => by simpa using h s hs

theorem weight_filled (parts : List Chars) :
    weight (filled parts) ≤ weight parts ∧
      (weight (filled parts) = weight parts → ∀ s ∈ parts, s ≠ []) := by
  induction parts with
  | nil => exact ⟨Nat.le_refl _, nofun⟩
  | cons s rest ih =>
    obtain ⟨hle, hall⟩ := ih
    rw [weight_cons]
    by_cases hs : s = []
    · subst hs
      have hskip : filled ([] :: rest) = filled rest := rfl
      rw [hskip, List.length_nil]
      omega
    · have hkeep : filled (s :: rest) = s :: filled rest :=
        List.filter_cons_of_pos (by simpa using hs)
      rw [hkeep, weight_cons]
      refine ⟨by omega, fun heq => ?_⟩
      exact List.forall_mem_cons.mpr ⟨hs, hall (by omega)⟩

theorem removeDots_plain (h : ∀ s ∈ rest, ¬Dots s) : removeDots kept rest = kept ++ rest := by
  induction rest generalizing kept with
  | nil => rw [removeDots, List.append_nil]
  | cons s rest ih =>
    obtain ⟨hs, hrest⟩ := List.forall_mem_cons.mp h
    rw [removeDots, if_neg fun heq => hs (.inr heq), if_neg fun heq => hs (.inl heq), ih hrest,
      List.append_assoc]
    rfl

theorem weight_dropLast (hkept : kept ≠ []) : weight kept.dropLast + 1 ≤ weight kept := by
  have h := congrArg weight (List.dropLast_concat_getLast hkept)
  rw [weight_concat] at h
  omega

theorem weight_dropLast_le (kept : List Chars) : weight kept.dropLast ≤ weight kept := by
  by_cases hkept : kept = []
  · subst hkept
    exact Nat.le_refl _
  · have := weight_dropLast hkept
    omega

theorem removeDots_weight (kept rest : List Chars) :
    weight (removeDots kept rest) + 2 * rest.countP (fun s => decide (Dots s)) ≤
      weight kept + weight rest := by
  induction rest generalizing kept with
  | nil => exact Nat.le_refl _
  | cons s rest ih =>
    rw [removeDots, weight_cons, List.countP_cons]
    by_cases htwo : s = ['.', '.']
    · have hdots : Dots s := .inr htwo
      have hlength : s.length = 2 := congrArg List.length htwo
      have hdrop := weight_dropLast_le kept
      have hnext := ih kept.dropLast
      rw [if_pos htwo, if_pos (decide_eq_true hdots)]
      omega
    rw [if_neg htwo]
    by_cases hone : s = ['.']
    · have hdots : Dots s := .inl hone
      have hlength : s.length = 1 := congrArg List.length hone
      have hnext := ih kept
      rw [if_pos hone, if_pos (decide_eq_true hdots)]
      omega
    · have hdots : ¬Dots s := fun h => h.elim hone htwo
      have hnext := ih (kept ++ [s])
      rw [weight_concat] at hnext
      rw [if_neg hone, if_neg (by simpa using hdots)]
      omega

/-- The path of segments; the root if they are none or one empty one. -/
def pathOf (parts : List Chars) : Chars :=
  if (joinSegments parts).isEmpty then ['/'] else joinSegments parts

theorem pathOf_ne_nil (parts : List Chars) : pathOf parts ≠ [] := by
  rw [pathOf]
  split_ifs with h
  · nofun
  · exact fun hnil => h (by rw [hnil]; rfl)

theorem pathOf_length (parts : List Chars) : (pathOf parts).length + 1 ≤ max 2 (weight parts) := by
  rw [pathOf]
  split_ifs with h
  · exact Nat.le_max_left _ _
  · have hne : parts ≠ [] := by
      rintro rfl
      exact h rfl
    rw [weight_joinSegments hne]
    exact Nat.le_max_right _ _

theorem pathOf_rooted (h : parts.head? = some []) : Rooted (pathOf parts) := by
  obtain ⟨more, rfl⟩ := List.head?_eq_some_iff.mp h
  rw [pathOf]
  split_ifs with hempty
  · rintro _ ⟨⟩
    rfl
  · have hmore : more ≠ [] := by
      rintro rfl
      exact hempty rfl
    rw [joinSegments_cons [] hmore]
    rintro _ ⟨⟩
    rfl

theorem fromRoot_pathOf_length {bound : Nat}
    (h : parts.head? = some [] ∧ weight parts ≤ bound ∧ 2 ≤ bound ∨
      weight parts < bound ∧ 3 ≤ bound) : (fromRoot (pathOf parts)).length < bound := by
  have hpath := pathOf_length parts
  obtain ⟨hhead, hweight, hbound⟩ | ⟨hweight, hbound⟩ := h
  · rw [fromRoot_eq_self (pathOf_rooted hhead)]
    omega
  · have hroot := fromRoot_length (pathOf parts)
    omega

/-- The path that segments make once dots are taken out of them. -/
def settled (parts : List Chars) : Chars :=
  let kept := removeDots [] parts
  let last := parts.getLast?.getD []
  pathOf (if last = ['.'] ∨ last = ['.', '.'] then kept ++ [[]] else kept)

theorem resolvePath_eq (base path : Chars) : resolvePath base path =
    settled (if path.head? == some '/' then segments path
      else dropEmptyInside
        ((if (segments base).getLast? == some [] then segments base
          else (segments base).dropLast) ++ segments path)) := rfl

theorem resolvePath_ne_nil (base path : Chars) : resolvePath base path ≠ [] :=
  pathOf_ne_nil _

theorem settled_plain (hlength : 2 ≤ parts.length) (h : ∀ s ∈ parts, ¬Dots s) :
    settled parts = joinSegments parts := by
  have hne : parts ≠ [] := by
    rintro rfl
    cases hlength
  have hlast : ¬Dots (parts.getLast?.getD []) := by
    rw [List.getLast?_eq_some_getLast hne]
    exact h _ (List.getLast_mem hne)
  rw [Dots] at hlast
  have hweight := countP_le_weight parts
  have hjoined : joinSegments parts ≠ [] := by
    intro hnil
    have hjoin := weight_joinSegments hne
    rw [hnil] at hjoin
    simp only [List.length_nil] at hjoin
    omega
  simp only [settled, removeDots_plain h, List.nil_append]
  rw [if_neg hlast, pathOf, if_neg (by simpa using hjoined)]

theorem removeDots_head? (hkept : kept ≠ []) (rest : List Chars) :
    (removeDots kept rest).head? = kept.head? ∨
      weight (removeDots kept rest) + 4 ≤ weight kept + weight rest := by
  induction rest generalizing kept with
  | nil => exact .inl rfl
  | cons s rest ih =>
    rw [removeDots, weight_cons]
    by_cases htwo : s = ['.', '.']
    · have hlength : s.length = 2 := congrArg List.length htwo
      have hdrop := weight_dropLast hkept
      have hnext := removeDots_weight kept.dropLast rest
      rw [if_pos htwo]
      exact .inr (by omega)
    rw [if_neg htwo]
    split_ifs
    · exact (ih hkept).imp_right fun h => by omega
    · obtain h | h := ih (List.concat_ne_nil s kept)
      · rw [h, List.head?_append_of_ne_nil _ hkept]
        exact .inl rfl
      · rw [weight_concat] at h
        exact .inr (by omega)

theorem settled_length (hrest : rest ≠ []) :
    (fromRoot (settled ([] :: rest))).length ≤ weight rest ∧
      ((fromRoot (settled ([] :: rest))).length = weight rest → ∀ s ∈ rest, ¬Dots s) := by
  by_cases hplain : ∀ s ∈ rest, ¬Dots s
  · have hparts : ∀ s ∈ [] :: rest, ¬Dots s := List.forall_mem_cons.mpr ⟨by decide, hplain⟩
    have hlength : 2 ≤ ([] :: rest).length := by
      have := List.length_pos_iff.mpr hrest
      rw [List.length_cons]
      omega
    have hsettled : settled ([] :: rest) = '/' :: joinSegments rest := by
      rw [settled_plain hlength hparts, joinSegments_cons [] hrest]
      rfl
    have hlong : (fromRoot (settled ([] :: rest))).length = weight rest := by
      rw [hsettled, fromRoot_eq_self (by rintro _ ⟨⟩; rfl), List.length_cons,
        weight_joinSegments hrest]
    exact ⟨Nat.le_of_eq hlong, fun _ => hplain⟩
  suffices hshort : (fromRoot (settled ([] :: rest))).length < weight rest from
    ⟨Nat.le_of_lt hshort, fun h => absurd h (Nat.ne_of_lt hshort)⟩
  -- Dots lose more than the slash that is put before a path whose first segment they took away.
  have hcount : 0 < rest.countP (fun s => decide (Dots s)) := by
    rw [List.countP_pos_iff]
    push Not at hplain
    obtain ⟨s, hs, hdots⟩ := hplain
    exact ⟨s, hs, decide_eq_true hdots⟩
  have hleast := countP_le_weight rest
  have hrest := List.length_pos_iff.mpr hrest
  have hone : weight [[]] = 1 := rfl
  have hkept : removeDots [] ([] :: rest) = removeDots [[]] rest := rfl
  have hless := removeDots_weight [[]] rest
  have hhead := removeDots_head? (List.cons_ne_nil [] []) rest
  simp only [settled, hkept]
  generalize removeDots [[]] rest = kept at hless hhead
  split_ifs
  · refine fromRoot_pathOf_length (hhead.imp (fun h => ⟨?_, ?_⟩) fun h => ?_)
    · rw [List.head?_append, h]
      rfl
    all_goals
      rw [weight_concat, List.length_nil]
      omega
  · exact fromRoot_pathOf_length (hhead.imp (fun h => ⟨h, by omega⟩) fun h => by omega)

theorem dropEmptyInside_concat (first last : Chars) (inits : List Chars) :
    dropEmptyInside (first :: (inits ++ [last])) =
      first :: filled inits ++ [last] := by
  rw [dropEmptyInside, List.dropLast_concat, List.getLast?_concat]
  · rfl
  · exact fun h => by simp at h

theorem segments_rooted (h : Rooted directory) :
    segments directory = [] :: (segments directory).tail := by
  cases directory with
  | nil => rfl
  | cons c cs =>
    rw [h c rfl, segments_slash]
    rfl

theorem resolvePath_directory {inits : List Chars} {last : Chars} (hdirectory : Rooted directory)
    (hsegments : segments path = inits ++ [last]) (hpath : path.head? ≠ some '/') :
    resolvePath (directory ++ ['/']) path =
      settled ([] :: filled ((segments directory).tail ++ inits) ++ [last]) := by
  have hbase : segments (directory ++ ['/']) = [] :: (segments directory).tail ++ [[]] := by
    rw [segments_append, ← segments_rooted hdirectory]
    rfl
  have hlast : ([] :: (segments directory).tail ++ [[]]).getLast? = some ([] : Chars) :=
    List.getLast?_concat
  rw [resolvePath_eq, if_neg (by simpa using hpath), hbase, hlast, if_pos (by rfl), hsegments]
  have hinside := dropEmptyInside_concat [] last ((segments directory).tail ++ [[]] ++ inits)
  rw [List.append_assoc _ _ [last]] at hinside
  have hskip : filled ((segments directory).tail ++ [[]] ++ inits) =
      filled ((segments directory).tail ++ inits) := by
    rw [filled, filled, List.filter_append, List.filter_append, List.filter_append]
    exact congrArg (· ++ _) (List.append_nil _)
  rw [List.cons_append, List.cons_append, hinside, hskip]

theorem PlainRelative.inside {inits : List Chars} {last : Chars} (h : PlainRelative path)
    (hsegments : segments path = inits ++ [last]) :
    (∀ s ∈ inits, PlainSegment s) ∧ ¬Dots last := by
  obtain ⟨hinits, hlast⟩ := h
  rw [hsegments, List.dropLast_concat] at hinits
  rw [hsegments, List.getLast?_concat] at hlast
  exact ⟨hinits, hlast last rfl⟩

theorem PlainRelative.head? (h : PlainRelative path) : path.head? ≠ some '/' := by
  intro hslash
  obtain ⟨rest, rfl⟩ := List.head?_eq_some_iff.mp hslash
  refine (h.1 [] ?_).1 rfl
  rw [segments_slash, List.dropLast_cons_of_ne_nil (segments_ne_nil rest)]
  exact List.mem_cons_self

theorem resolvePath_plain (hdirectory : Rooted directory) (hnames : PlainDirectory directory)
    (hpath : PlainRelative path) :
    resolvePath (directory ++ ['/']) path = directory ++ '/' :: path := by
  obtain ⟨inits, last, hsegments⟩ := segments_concat path
  obtain ⟨hinits, hlast⟩ := hpath.inside hsegments
  have hinside : ∀ s ∈ (segments directory).tail ++ inits, PlainSegment s := by
    intro s hs
    exact (List.mem_append.mp hs).elim (hnames s) (hinits s)
  have hkept := filled_eq_self fun s hs => (hinside s hs).1
  have hparts : [] :: ((segments directory).tail ++ inits) ++ [last] =
      segments (directory ++ '/' :: path) := by
    rw [segments_append, hsegments, segments_rooted hdirectory]
    simp only [List.cons_append, List.append_assoc, List.tail_cons]
  have hdots : ∀ s ∈ segments (directory ++ '/' :: path), ¬Dots s := by
    intro s hs
    rw [← hparts] at hs
    obtain hs | hs := List.mem_append.mp hs
    · obtain rfl | hs := List.mem_cons.mp hs
      · decide
      · exact (hinside s hs).2
    · rw [List.mem_singleton.mp hs]
      exact hlast
  have hlength : 2 ≤ (segments (directory ++ '/' :: path)).length := by
    rw [← hparts, List.length_append, List.length_cons, List.length_singleton]
    omega
  rw [resolvePath_directory hdirectory hsegments hpath.head?, hkept, hparts,
    settled_plain hlength hdots, joinSegments_segments]

/-- No path comes out longer than the directory, a slash and itself, and it comes out shorter unless
both are plain. -/
theorem resolvePath_length (hdirectory : Rooted directory) (path : Chars) :
    (fromRoot (resolvePath (directory ++ ['/']) path)).length ≤
        directory.length + 1 + path.length ∧
      ((fromRoot (resolvePath (directory ++ ['/']) path)).length =
        directory.length + 1 + path.length → PlainDirectory directory ∧ PlainRelative path) := by
  have hpath := weight_segments path
  -- a path from the root loses the whole directory
  by_cases hslash : path.head? = some '/'
  · obtain ⟨rest, rfl⟩ := List.head?_eq_some_iff.mp hslash
    have hsettled := (settled_length (segments_ne_nil rest)).1
    rw [segments_slash, weight_cons, List.length_nil] at hpath
    rw [resolvePath_eq, if_pos (by rfl), segments_slash]
    exact ⟨by omega, fun h => by omega⟩
  obtain ⟨inits, last, hsegments⟩ := segments_concat path
  have hdir := weight_segments directory
  rw [segments_rooted hdirectory, weight_cons, List.length_nil] at hdir
  rw [hsegments, weight_concat] at hpath
  obtain ⟨hfilled, hfull⟩ := weight_filled ((segments directory).tail ++ inits)
  rw [weight_append] at hfilled hfull
  have hsome : filled ((segments directory).tail ++ inits) ++ [last] ≠ [] := by simp
  obtain ⟨hsettled, hdots⟩ := settled_length hsome
  rw [weight_concat] at hsettled hdots
  rw [resolvePath_directory hdirectory hsegments hslash, List.cons_append]
  refine ⟨by omega, fun h => ?_⟩
  -- nothing was lost, so no segment was empty and none a dot
  have hnames := hfull (by omega)
  have hdots := hdots (by omega)
  rw [filled_eq_self hnames] at hdots
  have hplain : ∀ s ∈ (segments directory).tail ++ inits, PlainSegment s :=
    fun s hs => ⟨hnames s hs, hdots s (List.mem_append_left _ hs)⟩
  refine ⟨fun s hs => hplain s (List.mem_append_left _ hs), fun s hs => ?_, fun s hs => ?_⟩
  · rw [hsegments, List.dropLast_concat] at hs
    exact hplain s (List.mem_append_right _ hs)
  · rw [hsegments, List.getLast?_concat] at hs
    obtain rfl := Option.some.inj hs
    exact hdots _ (List.mem_append_right _ List.mem_cons_self)

end Rehearsal.Url
