import Rehearsal.Document
import Rehearsal.Proofs.Path.Grammar
import Rehearsal.Proofs.Value.Tree

/-! What a path finds in a document. In a tree it finds what stands at the position the path
describes, and where there is no such position it names the shortest part of the path that leads
nowhere. -/

namespace Rehearsal

namespace Document

open Value

variable {leaf : Value → Prop} {v w : Value} {segment : Segment} {segments : List Segment}

theorem load_tree (h : v.Tree leaf) (hm : v.InMemory) : load v = .ok v := by
  obtain ⟨hnull, htext, hbytes⟩ := hm
  cases v with
  | null => exact absurd rfl hnull
  | text s => cases htext
  | status s => cases htext
  | bytes b => exact absurd rfl (hbytes b)
  | _ => exact congrArg Except.ok h.opened

theorem loadText_eq {text : String} (cs : List Char) (hcs : text.toList = cs)
    (hblank : Text.isBlankText text = false) (hread : Json.readChars? .exact cs = .ok v)
    (hnull : v ≠ .null) : loadText text = .ok v := by
  rw [loadText, hblank, Json.read, hcs, hread]
  cases v with
  | null => exact absurd rfl hnull
  | _ => rfl

theorem step_ok (h : v.Tree leaf) : step segment v = .ok w ↔ At v [segment] w := by
  constructor
  · intro hstep
    cases segment with
    | field name =>
      cases v with
      | map entries =>
        simp only [step] at hstep
        split at hstep
        · rename_i hfield
          cases hstep
          exact .field (h.fieldIn?_eq_some.mp hfield) (.here w)
        · cases hstep
      | _ => cases hstep
    | index n =>
      cases v with
      | list items =>
        simp only [step, items?] at hstep
        split at hstep
        · rename_i hget
          cases hstep
          exact .index hget (.here w)
        · cases hstep
      | tuple items => nomatch h
      | _ => cases hstep
  · intro hat
    cases hat with
    | field hmem hhere =>
      cases hhere
      simp only [step, h.fieldIn?_eq_some.mpr hmem]
    | index hget hhere =>
      cases hhere
      simp only [step, items?, hget]

theorem follow_at (h : v.Tree leaf) (hat : At v segments w) (path : Path) (depth : Nat) :
    follow path depth v segments = .ok w := by
  induction segments generalizing v depth with
  | nil =>
    cases hat
    rfl
  | cons segment rest ih =>
    obtain ⟨child, hone, hrest⟩ := at_cons.mp hat
    rw [follow, h.opened, (step_ok h).mpr hone]
    exact ih (h.at hone) hrest (depth + 1)

/-- Where there is no position, some first segments lead nowhere and all before them somewhere, and
whatever follows them is not looked at. -/
theorem follow_missing (h : v.Tree leaf) (hat : ¬HasPosition v segments) :
    ∃ k reason, k < segments.length ∧ HasPosition v (segments.take k) ∧
      ¬HasPosition v (segments.take (k + 1)) ∧ ∀ path depth rest,
        follow path depth v (segments.take (k + 1) ++ rest) =
          .error (.pathNotFound path.text (path.upTo (depth + k + 1)) reason) := by
  -- either the first segment leads nowhere, or what is missing is missing below its child
  induction segments generalizing v with
  | nil => exact absurd ⟨v, .here v⟩ hat
  | cons segment rest ih =>
    cases hstep : step segment v with
    | error reason =>
      refine ⟨0, reason, Nat.succ_pos _, ⟨v, .here v⟩, ?_, ?_⟩
      · rintro ⟨w, hw⟩
        rw [(step_ok h).mpr hw] at hstep
        cases hstep
      · intro path depth more
        simp only [List.take_succ_cons, List.take_zero, List.cons_append, follow, h.opened,
          hstep, Nat.add_zero]
    | ok child =>
      have hone := (step_ok h).mp hstep
      have hchild : ¬HasPosition child rest :=
        fun ⟨w, hw⟩ => hat ⟨w, at_cons.mpr ⟨child, hone, hw⟩⟩
      obtain ⟨k, reason, hk, hbefore, hafter, hfollow⟩ := ih (h.at hone) hchild
      refine ⟨k + 1, reason, Nat.succ_lt_succ hk, ?_, ?_, ?_⟩
      · obtain ⟨w, hw⟩ := hbefore
        exact ⟨w, at_cons.mpr ⟨child, hone, hw⟩⟩
      · rintro ⟨w, hw⟩
        obtain ⟨other, hother, hrest⟩ := at_cons.mp hw
        rw [← step_ok h, hstep] at hother
        cases hother
        exact hafter ⟨w, hrest⟩
      · intro path depth more
        rw [List.take_succ_cons, List.cons_append, follow, h.opened, hstep]
        dsimp only
        rw [hfollow path (depth + 1) more]
        simp only [Nat.add_assoc, Nat.add_comm 1]

/-- A path finds what stands at its position. Where nothing does, the failure names the shortest
part that leads nowhere, whatever the path goes on with, and every shorter part is found. A position
whose fields have names that can be written is found under its text. -/
theorem evaluate_positions {leaf : Value → Prop} {document : Value} (h : document.Tree leaf)
    (hm : document.InMemory) :
    (∀ path w, document.At path.segments w → evaluate document path = .ok w) ∧
    (∀ path, ¬document.HasPosition path.segments → ∃ k reason,
      0 < k ∧ k ≤ path.segments.length ∧
      (∀ j < k, ∃ w, document.At (path.segments.take j) w ∧
        evaluate document ⟨path.segments.take j⟩ = .ok w) ∧
      ¬document.HasPosition (path.segments.take k) ∧
      evaluate document path = .error (.pathNotFound path.text (path.upTo k) reason) ∧
      ∀ rest, evaluate document ⟨path.segments.take k ++ rest⟩ =
        .error (.pathNotFound (Path.text ⟨path.segments.take k ++ rest⟩) (path.upTo k) reason)) ∧
    (∀ segments w, segments ≠ [] → (∀ s ∈ segments, s.Writable) → document.At segments w →
      ∃ path, Path.compile (Path.text ⟨segments⟩) = .ok path ∧
        evaluate document path = .ok w) := by
  have hfollow : ∀ path, evaluate document path = follow path 0 document path.segments := by
    intro path
    rw [evaluate, load_tree h hm]
  have hfound : ∀ path w, document.At path.segments w → evaluate document path = .ok w := by
    intro path w hat
    rw [hfollow, follow_at h hat]
  refine ⟨hfound, ?_, ?_⟩
  · intro path hat
    -- the first segments that lead nowhere
    obtain ⟨k, reason, hk, hbefore, hafter, hfail⟩ := follow_missing h hat
    have hsame : ∀ rest, Path.upTo ⟨path.segments.take (k + 1) ++ rest⟩ (k + 1) =
        path.upTo (k + 1) := by
      intro rest
      have hlen : (path.segments.take (k + 1)).length = k + 1 := by
        rw [List.length_take]
        omega
      rw [Path.upTo, Path.upTo, List.take_append_of_le_length (by omega), List.take_of_length_le]
      omega
    refine ⟨k + 1, reason, Nat.succ_pos k, hk, ?_, hafter, ?_, ?_⟩
    · intro j hj
      obtain ⟨w, hw⟩ := hbefore.take j
      rw [List.take_take, Nat.min_eq_left (by omega)] at hw
      exact ⟨w, hw, hfound ⟨path.segments.take j⟩ w hw⟩
    · rw [hfollow]
      have hpath := hfail path 0 (path.segments.drop (k + 1))
      rwa [List.take_append_drop, Nat.zero_add] at hpath
    · intro rest
      rw [hfollow, hfail _ 0 rest, Nat.zero_add, hsame]
  · intro segments w hne hwritable hat
    exact ⟨⟨segments⟩, Path.compile_text (p := ⟨segments⟩) hne hwritable,
      hfound ⟨segments⟩ w hat⟩

theorem evaluate_order :
    let order := ofFields [("items", .list [ofFields [("id", .int 7)]])]
    order.Tree (fun _ => True) ∧ order.InMemory ∧
      evaluate order ⟨[.field "items", .index 0, .field "id"]⟩ = .ok (.int 7) := by
  intro order
  have hitem : (ofFields [("id", .int 7)]).Tree (fun _ => True) :=
    .map (by decide) (by rintro field (_ | ⟨_, ⟨⟩⟩); exact .leaf rfl trivial)
  have hitems : (Value.list [ofFields [("id", .int 7)]]).Tree (fun _ => True) :=
    .list (by rintro item (_ | ⟨_, ⟨⟩⟩); exact hitem)
  have htree : order.Tree (fun _ => True) :=
    .map (by decide) (by rintro field (_ | ⟨_, ⟨⟩⟩); exact hitems)
  have hmemory : order.InMemory := by simp [order, ofFields, Value.InMemory, Value.text?]
  refine ⟨htree, hmemory, (evaluate_positions htree hmemory).1 _ _ ?_⟩
  exact .field List.mem_cons_self (.index rfl (.field List.mem_cons_self (.here _)))

end Document

end Rehearsal
