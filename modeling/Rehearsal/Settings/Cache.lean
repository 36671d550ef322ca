import Rehearsal.Settings.Loading

/-!
Settings that are loaded once and then kept until they are forgotten.

A failure to load them is not kept.
-/

namespace Rehearsal.Settings

structure Cache where
  loads : Nat := 0
  kept : Option Settings := none
  deriving Repr, Inhabited

namespace Cache

/-- The settings that are kept, loaded first if there are none. -/
def get (c : Cache) (m : Machine) : Except Fault Settings × Cache :=
  match c.kept with
  | some s => (.ok s, c)
  | none =>
    match load m none none with
    | .ok s => (.ok s, ⟨c.loads + 1, some s⟩)
    | .error fault => (.error fault, c)

def forget (c : Cache) : Cache := { c with kept := none }

/-- What has been got is got again, whatever has become of the machine. -/
theorem get_get {c after : Cache} {m other : Machine} {s : Settings}
    (h : c.get m = (.ok s, after)) : after.get other = (.ok s, after) := by
  unfold get at h
  split at h
  · rename_i kept hk
    simp only [Prod.mk.injEq, Except.ok.injEq] at h
    obtain ⟨rfl, rfl⟩ := h
    simp [get, hk]
  · split at h
    · simp only [Prod.mk.injEq, Except.ok.injEq] at h
      obtain ⟨rfl, rfl⟩ := h
      rfl
    · simp at h

end Cache

end Rehearsal.Settings
