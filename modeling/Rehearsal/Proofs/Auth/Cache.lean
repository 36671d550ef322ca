import Mathlib.Algebra.Order.Ring.Rat
import Mathlib.Data.List.Induction
import Rehearsal.Auth.TokenService

/-! The cache of tokens as a map that expires. What is found under a key is the last token put
there, unless the key was removed or the cache cleared since, and only while that token is valid.
Dropping an expired token when it is asked for cannot be noticed: on a clock that does not run
backwards it would not have been found again. -/

namespace Rehearsal

variable {T α : Type}

inductive CacheOp (T α : Type) where
  | put (key : String) (access : α) (lifetime : T) (type : String)
  | get (key : String)
  | remove (key : String)
  | clear

namespace CacheOp

def puts (key : String) : CacheOp T α → Bool
  | .put k _ _ _ => k == key
  | _ => false

def drops (key : String) : CacheOp T α → Bool
  | .remove k => k == key
  | .clear => true
  | _ => false

def writes (key : String) (op : CacheOp T α) : Bool := op.puts key || op.drops key

end CacheOp

abbrev CacheHistory (T α : Type) := List (T × CacheOp T α)

namespace TokenCache

theorem lookup?_remove (cache : TokenCache T α) (key other : String) :
    (cache.remove key).lookup? other = if other = key then none else cache.lookup? other := by
  obtain ⟨entries⟩ := cache
  simp only [remove, lookup?]
  induction entries with
  | nil => simp
  | cons entry rest ih =>
    obtain ⟨k, token⟩ := entry
    by_cases hk : k = key
    · subst hk
      by_cases ho : other = k
      · simp [ho]
      · simpa [ho, Ne.symm ho] using ih
    · by_cases ho : k = other
      · subst ho
        simp [hk]
      · simpa [hk, ho] using ih

variable [Timeline T]

theorem lookup?_put (cache : TokenCache T α) (now : T) (key other : String) (access : α)
    (lifetime : T) (type : String) :
    (cache.put now key access lifetime type).lookup? other =
      if other = key then some ⟨access, Timeline.after now lifetime, type⟩
      else cache.lookup? other := by
  by_cases h : other = key
  · simp [put, lookup?, h]
  · have hrest := cache.lookup?_remove key other
    simp only [lookup?, if_neg h] at hrest
    simp [put, lookup?, h, Ne.symm h, hrest]

theorem get_eq (cache : TokenCache T α) (now : T) (key : String) :
    (cache.get now key).1 = (cache.lookup? key).filter (·.isValid now) := by
  rw [get]
  cases cache.lookup? key with
  | none => rfl
  | some token =>
    by_cases h : token.isValid now <;> simp [h, Option.filter]

theorem lookup?_get (cache : TokenCache T α) (now : T) (key other : String) :
    (cache.get now key).2.lookup? other =
      if other = key then (cache.lookup? key).filter (·.isValid now)
      else cache.lookup? other := by
  rw [get]
  cases hfound : cache.lookup? key with
  | none =>
    by_cases ho : other = key
    · simp [ho, hfound]
    · simp [ho]
  | some token =>
    by_cases h : token.isValid now
    · by_cases ho : other = key
      · simp [h, ho, hfound, Option.filter]
      · simp [h, ho]
    · simp [h, lookup?_remove, Option.filter]

def perform (cache : TokenCache T α) : T × CacheOp T α → TokenCache T α
  | (now, .put key access lifetime type) => cache.put now key access lifetime type
  | (now, .get key) => (cache.get now key).2
  | (_, .remove key) => cache.remove key
  | (_, .clear) => empty

def after (history : CacheHistory T α) : TokenCache T α := history.foldl perform empty

theorem after_snoc (history : CacheHistory T α) (event : T × CacheOp T α) :
    after (history ++ [event]) = (after history).perform event := by
  simp only [after, List.foldl_append, List.foldl_cons, List.foldl_nil]

/-- What a cache answers to a call for a key after a history. -/
def answer (history : CacheHistory T α) (now : T) (key : String) : Option (CachedToken T α) :=
  ((after history).get now key).1

/-- Whether a token is the last one put under a key, not removed and not cleared since. -/
def Standing (history : CacheHistory T α) (key : String) (token : CachedToken T α) : Prop :=
  ∃ before since now access lifetime type,
    history = before ++ (now, .put key access lifetime type) :: since ∧
    token = ⟨access, Timeline.after now lifetime, type⟩ ∧
    ∀ event ∈ since, event.2.writes key = false

variable {history : CacheHistory T α} {event : T × CacheOp T α} {key : String}
  {token : CachedToken T α}

theorem not_standing_nil : ¬ Standing ([] : CacheHistory T α) key token := by
  rintro ⟨before, since, now, access, lifetime, type, hsplit, -⟩
  simp at hsplit

theorem standing_snoc : Standing (history ++ [event]) key token ↔
    (∃ access lifetime type, event.2 = .put key access lifetime type ∧
      token = ⟨access, Timeline.after event.1 lifetime, type⟩) ∨
    (event.2.writes key = false ∧ Standing history key token) := by
  constructor
  · rintro ⟨before, since, now, access, lifetime, type, hsplit, rfl, hsince⟩
    rcases List.eq_nil_or_concat since with rfl | ⟨middle, last, rfl⟩
    · obtain ⟨-, hlast⟩ := List.append_inj' hsplit rfl
      obtain rfl := List.cons.inj hlast |>.1
      exact .inl ⟨access, lifetime, type, rfl, rfl⟩
    · have hends : history ++ [event] =
          (before ++ (now, .put key access lifetime type) :: middle) ++ [last] := by
        simpa using hsplit
      obtain ⟨rfl, hlast⟩ := List.append_inj' hends rfl
      obtain rfl := List.cons.inj hlast |>.1
      have hkept := hsince event (by simp)
      refine .inr ⟨hkept, before, middle, now, access, lifetime, type, rfl, rfl, ?_⟩
      intro other hother
      exact hsince other (by simp [hother])
  · rintro (⟨access, lifetime, type, hput, rfl⟩ |
      ⟨hkept, before, since, now, access, lifetime, type, rfl, rfl, hsince⟩)
    · obtain ⟨now, op⟩ := event
      obtain rfl : op = _ := hput
      exact ⟨history, [], now, access, lifetime, type, rfl, rfl, by simp⟩
    · refine ⟨before, since ++ [event], now, access, lifetime, type, by simp, rfl, ?_⟩
      intro other hother
      rcases List.mem_append.mp hother with hother | hother
      · exact hsince other hother
      · rwa [List.mem_singleton.mp hother]

theorem Standing.before_drop {since : CacheHistory T α} (h : Standing (history ++ since) key token)
    (hputs : ∀ event ∈ since, event.2.puts key = false) : Standing history key token := by
  induction since using List.reverseRecOn with
  | nil => simpa using h
  | append_singleton since event ih =>
    rw [← List.append_assoc, standing_snoc] at h
    have hrest : ∀ other ∈ since, other.2.puts key = false :=
      fun other hother => hputs other (List.mem_append_left _ hother)
    rcases h with ⟨access, lifetime, type, hput, -⟩ | ⟨-, h⟩
    · have hevent := hputs event (by simp)
      simp [hput, CacheOp.puts] at hevent
    · exact ih h hrest

theorem standing_filter :
    Standing (history.filter (·.2.writes key)) key token ↔ Standing history key token := by
  induction history using List.reverseRecOn with
  | nil => rfl
  | append_singleton history event ih =>
    rw [List.filter_append, standing_snoc]
    by_cases hw : event.2.writes key = true
    · rw [List.filter_cons_of_pos (by exact hw), List.filter_nil, standing_snoc, ih]
    · have hput : ∀ access lifetime type, event.2 ≠ .put key access lifetime type := by
        intro access lifetime type hput
        simp [hput, CacheOp.writes, CacheOp.puts] at hw
      rw [List.filter_cons_of_neg (by exact hw), List.filter_nil, List.append_nil, ih]
      simp [hput, hw]

/-- What an operation does to what is found under a key: it puts a token there, drops what is there,
or leaves it unless that has expired. -/
theorem lookup?_perform (cache : TokenCache T α) (event : T × CacheOp T α) (key : String) :
    (∃ access lifetime type, event.2 = .put key access lifetime type ∧
      (cache.perform event).lookup? key =
        some ⟨access, Timeline.after event.1 lifetime, type⟩) ∨
    (event.2.drops key = true ∧ (cache.perform event).lookup? key = none) ∨
    (event.2.writes key = false ∧ ((cache.perform event).lookup? key = cache.lookup? key ∨
      (cache.perform event).lookup? key = (cache.lookup? key).filter (·.isValid event.1))) := by
  obtain ⟨now, op⟩ := event
  cases op with
  | put k access lifetime type =>
    have hnew := cache.lookup?_put now k key access lifetime type
    by_cases hk : key = k
    · subst hk
      exact .inl ⟨access, lifetime, type, rfl, hnew.trans (if_pos rfl)⟩
    · have hleft : k ≠ key := Ne.symm hk
      refine .inr (.inr ⟨?_, .inl (hnew.trans (if_neg hk))⟩)
      simp [CacheOp.writes, CacheOp.puts, CacheOp.drops, hleft]
  | get k =>
    have hnew := cache.lookup?_get now k key
    by_cases hk : key = k
    · subst hk
      exact .inr (.inr ⟨rfl, .inr (hnew.trans (if_pos rfl))⟩)
    · exact .inr (.inr ⟨rfl, .inl (hnew.trans (if_neg hk))⟩)
  | remove k =>
    have hnew := cache.lookup?_remove k key
    by_cases hk : key = k
    · subst hk
      exact .inr (.inl ⟨beq_self_eq_true key, hnew.trans (if_pos rfl)⟩)
    · have hleft : k ≠ key := Ne.symm hk
      refine .inr (.inr ⟨?_, .inl (hnew.trans (if_neg hk))⟩)
      simp [CacheOp.writes, CacheOp.puts, CacheOp.drops, hleft]
  | clear => exact .inr (.inl ⟨rfl, rfl⟩)

/-- What a cache finds stands; what stands it finds, or it was asked for when already expired. -/
structure Faithful (history : CacheHistory T α) (cache : TokenCache T α) : Prop where
  stands : ∀ key token, cache.lookup? key = some token → Standing history key token
  finds : ∀ key token, Standing history key token → cache.lookup? key = some token ∨
    ∃ event ∈ history, token.isValid event.1 = false

theorem Faithful.perform {cache : TokenCache T α} (h : Faithful history cache)
    (event : T × CacheOp T α) : Faithful (history ++ [event]) (cache.perform event) := by
  constructor
  · intro key token hfound
    rw [standing_snoc]
    rcases cache.lookup?_perform event key with
      ⟨access, lifetime, type, hput, hnew⟩ | ⟨-, hnew⟩ | ⟨hleft, hnew | hnew⟩
    · rw [hnew] at hfound
      exact .inl ⟨access, lifetime, type, hput, (Option.some.inj hfound).symm⟩
    · rw [hnew] at hfound
      cases hfound
    · rw [hnew] at hfound
      exact .inr ⟨hleft, h.stands key token hfound⟩
    · rw [hnew] at hfound
      exact .inr ⟨hleft, h.stands key token (Option.filter_eq_some_iff.mp hfound).1⟩
  · intro key token hstands
    rcases standing_snoc.mp hstands with ⟨access, lifetime, type, hput, rfl⟩ | ⟨hleft, hstood⟩
    · -- only a put could have put it
      rcases cache.lookup?_perform event key with
        ⟨access', lifetime', type', hput', hnew⟩ | ⟨hdrops, -⟩ | ⟨hleft, -⟩
      · obtain ⟨-, rfl, rfl, rfl⟩ := CacheOp.put.inj (hput.symm.trans hput')
        exact .inl hnew
      · simp [hput, CacheOp.drops] at hdrops
      · simp [hput, CacheOp.writes, CacheOp.puts] at hleft
    · rcases h.finds key token hstood with hfound | ⟨earlier, hmem, hinvalid⟩
      · rcases cache.lookup?_perform event key with
          ⟨access, lifetime, type, hput, -⟩ | ⟨hdrops, -⟩ | ⟨-, hnew | hnew⟩
        · simp [hput, CacheOp.writes, CacheOp.puts] at hleft
        · simp [CacheOp.writes, hdrops] at hleft
        · exact .inl (hnew.trans hfound)
        · -- the token was there and was asked for
          by_cases hvalid : token.isValid event.1 = true
          · refine .inl ?_
            rw [hnew, hfound]
            simp [Option.filter, hvalid]
          · exact .inr ⟨event, by simp, by simpa using hvalid⟩
      · exact .inr ⟨earlier, List.mem_append_left _ hmem, hinvalid⟩

theorem faithful_after (history : CacheHistory T α) : Faithful history (after history) := by
  induction history using List.reverseRecOn with
  | nil => exact ⟨nofun, fun _ _ h => absurd h not_standing_nil⟩
  | append_singleton history event ih =>
    rw [after_snoc]
    exact ih.perform event

end TokenCache

theorem CachedToken.isValid_rat (token : CachedToken Rat α) (now : Rat) :
    token.isValid now = true ↔ now + 300 < token.expires := by
  exact decide_eq_true_iff

theorem CachedToken.isValid_earlier {token : CachedToken Rat α} {now later : Rat} (h : now ≤ later)
    (hvalid : token.isValid later = true) : token.isValid now = true := by
  rw [isValid_rat] at hvalid ⊢
  exact lt_of_le_of_lt (add_le_add_left h 300) hvalid

namespace TokenCache

variable {history : CacheHistory Rat α} {now : Rat} {key : String} {token : CachedToken Rat α}

/-- A token that stands and is valid was valid whenever it was asked for, so it is still there. -/
theorem Standing.found (hstands : Standing history key token)
    (h : ∀ event ∈ history, event.1 ≤ now) (hvalid : token.isValid now = true) :
    (after history).lookup? key = some token := by
  rcases (faithful_after history).finds key token hstands with hfound | ⟨event, hmem, hinvalid⟩
  · exact hfound
  · have hearlier := CachedToken.isValid_earlier (h event hmem) hvalid
    simp [hearlier] at hinvalid

theorem answer_eq_some_iff (h : ∀ event ∈ history, event.1 ≤ now) :
    answer history now key = some token ↔
      Standing history key token ∧ now + 300 < token.expires := by
  rw [answer, get_eq, Option.filter_eq_some_iff, ← CachedToken.isValid_rat]
  constructor
  · rintro ⟨hfound, hvalid⟩
    exact ⟨(faithful_after history).stands key token hfound, hvalid⟩
  · rintro ⟨hstands, hvalid⟩
    exact ⟨hstands.found h hvalid, hvalid⟩

theorem answer_eq_of_standing {other : CacheHistory Rat α} (h : ∀ event ∈ history, event.1 ≤ now)
    (ho : ∀ event ∈ other, event.1 ≤ now)
    (hstands : ∀ token, Standing other key token ↔ Standing history key token) :
    answer other now key = answer history now key := by
  ext token
  rw [answer_eq_some_iff ho, answer_eq_some_iff h, hstands]

theorem answer_after_refusal {before since : CacheHistory Rat α} {asked : Rat}
    (h : ∀ event ∈ before ++ (asked, .get key) :: since, event.1 ≤ now)
    (hrefused : answer before asked key = none)
    (hputs : ∀ event ∈ since, event.2.puts key = false) :
    answer (before ++ (asked, .get key) :: since) now key = none := by
  refine Option.eq_none_iff_forall_ne_some.mpr ?_
  intro token hserved
  obtain ⟨hstands, hvalid⟩ := (answer_eq_some_iff h).mp hserved
  rw [← CachedToken.isValid_rat] at hvalid
  have hstood : Standing before key token := by
    refine hstands.before_drop ?_
    intro event hevent
    rcases List.mem_cons.mp hevent with rfl | hevent
    · rfl
    · exact hputs event hevent
  have hfound := hstood.found (fun event hevent => h event (by simp [hevent])) hvalid
  have hearlier := CachedToken.isValid_earlier (h (asked, .get key) (by simp)) hvalid
  rw [answer, get_eq, hfound, Option.filter, if_pos hearlier] at hrefused
  cases hrefused

/-- A cache is a map whose entries expire. On a clock that does not run backwards, it answers with
the last token put under the key and neither removed nor cleared since, if that is valid, and
with nothing otherwise. -/
theorem expiring_map (h : ∀ event ∈ history, event.1 ≤ now) (key : String) :
    (∀ token, answer history now key = some token ↔
      Standing history key token ∧ now + 300 < token.expires) ∧
    (∀ before asked since, history = before ++ (asked, .get key) :: since →
      answer before asked key = none → (∀ event ∈ since, event.2.puts key = false) →
      answer history now key = none) ∧
    (∀ before event since, history = before ++ event :: since → event.2.writes key = false →
      answer (before ++ since) now key = answer history now key) := by
  refine ⟨fun token => answer_eq_some_iff h, ?_, ?_⟩
  · rintro before asked since rfl hrefused hputs
    exact answer_after_refusal h hrefused hputs
  · rintro before event since rfl hleft
    have hrest : ∀ other ∈ before ++ since, other.1 ≤ now := by
      intro other hother
      refine h other ?_
      rcases List.mem_append.mp hother with hother | hother
      · exact List.mem_append_left _ hother
      · exact List.mem_append_right _ (List.mem_cons_of_mem _ hother)
    have hfilter : (before ++ event :: since).filter (·.2.writes key) =
        (before ++ since).filter (·.2.writes key) := by
      rw [List.filter_append, List.filter_append, List.filter_cons_of_neg (by simp [hleft])]
    refine answer_eq_of_standing h hrest ?_
    intro token
    rw [← standing_filter, ← hfilter, standing_filter]

/-- A token that was asked for as it expired, and the one put in its place. -/
theorem expiring_map_renewed :
    let old : CacheHistory Rat String := [(1000, .put "a" "first" 600 "Bearer"), (1300, .get "a"),
      (1350, .get "a")]
    let new : CacheHistory Rat String :=
      old ++ [(1400, .put "a" "second" 600 "Bearer"), (1500, .remove "b")]
    (∀ event ∈ new, event.1 ≤ 1699) ∧ answer old 1699 "a" = none ∧
      answer new 1699 "a" = some ⟨"second", 2000, "Bearer"⟩ := by
  intro old new
  have hclock : ∀ event ∈ new, event.1 ≤ 1699 := by decide +kernel
  have hbefore : ∀ event ∈ old, event.1 ≤ 1699 :=
    fun event hevent => hclock event (List.mem_append_left _ hevent)
  refine ⟨hclock, ?_, ?_⟩
  · obtain ⟨-, hrefused, -⟩ := expiring_map hbefore "a"
    exact hrefused [(1000, .put "a" "first" 600 "Bearer")] 1300 [(1350, .get "a")] rfl
      (by decide +kernel) (by simp [CacheOp.puts])
  · obtain ⟨hanswer, -, -⟩ := expiring_map hclock "a"
    have hends : Timeline.after (1400 : Rat) 600 = 2000 := by decide +kernel
    have hstands : Standing new "a" ⟨"second", 2000, "Bearer"⟩ := by
      refine ⟨old, [(1500, .remove "b")], 1400, "second", 600, "Bearer", rfl, ?_, ?_⟩
      · rw [hends]
      · simp [CacheOp.writes, CacheOp.puts, CacheOp.drops]
    exact (hanswer _).mpr ⟨hstands, by decide +kernel⟩

end TokenCache

end Rehearsal
