import Mathlib.Logic.Function.Basic
/-!
# Readers and writers

A table of locks that each have one writer or any number of readers. What is said
about it is who holds which lock: taking one adds an entry to that relation, and
letting go removes one.
-/

namespace RwLocks

/-- A lock with its holders; it is free if it has no readers. -/
inductive RwLock (ε : Type*) where
  | exclusive (e : ε)
  | shared (es : List ε)
  deriving DecidableEq

variable {ι ε : Type*} [DecidableEq ι] [DecidableEq ε]

def RwLock.holds : RwLock ε → ε → Prop
  | .exclusive e', e => e = e'
  | .shared es, e => e ∈ es

def RwLock.lock (e : ε) : RwLock ε → Option (RwLock ε)
  | .shared [] => some (.exclusive e)
  | _ => none

def RwLock.lockShared (e : ε) : RwLock ε → Option (RwLock ε)
  | .shared es => some (.shared (e :: es))
  | _ => none

def RwLock.unlock (e : ε) : RwLock ε → RwLock ε
  | .exclusive _ => .shared []
  | .shared es => .shared (es.filter (· ≠ e))

/-- A table of locks. -/
abbrev Locks (ι ε : Type*) := ι → RwLock ε

namespace Locks

def Holds (t : Locks ι ε) (e : ε) (p : ι) : Prop := (t p).holds e

def lock (t : Locks ι ε) (e : ε) (p : ι) : Option (Locks ι ε) := ((t p).lock e).map (Function.update t p)

def lockShared (t : Locks ι ε) (e : ε) (p : ι) : Option (Locks ι ε) := ((t p).lockShared e).map (Function.update t p)

def unlock (t : Locks ι ε) (e : ε) (p : ι) : Locks ι ε := Function.update t p ((t p).unlock e)

variable {t t' : Locks ι ε} {e e' : ε} {p q : ι}

omit [DecidableEq ε] in
theorem holds_lock (h : t.lock e p = some t') (hh : t'.Holds e' q) : t.Holds e' q ∨ (e' = e ∧ q = p) := by
  obtain ⟨l, hl, rfl⟩ := Option.map_eq_some_iff.1 h
  by_cases hq : q = p
  · subst hq
    simp only [Holds, Function.update_self] at hh
    unfold RwLock.lock at hl
    split at hl
    · cases hl
      exact .inr ⟨hh, rfl⟩
    · cases hl
  · simp only [Holds, Function.update_of_ne hq] at hh
    exact .inl hh

omit [DecidableEq ε] in
theorem holds_lockShared (h : t.lockShared e p = some t') (hh : t'.Holds e' q) :
    t.Holds e' q ∨ (e' = e ∧ q = p) := by
  obtain ⟨l, hl, rfl⟩ := Option.map_eq_some_iff.1 h
  by_cases hq : q = p
  · subst hq
    simp only [Holds, Function.update_self] at hh
    unfold RwLock.lockShared at hl
    split at hl
    next es heq =>
      cases hl
      rcases List.mem_cons.1 hh with rfl | hes
      · exact .inr ⟨rfl, rfl⟩
      · refine .inl ?_
        rw [Holds, heq]
        exact hes
    · cases hl
  · simp only [Holds, Function.update_of_ne hq] at hh
    exact .inl hh

theorem holds_unlock (hh : (t.unlock e p).Holds e' q) : t.Holds e' q ∧ ¬ (e' = e ∧ q = p) := by
  by_cases hq : q = p
  · subst hq
    simp only [Holds, unlock, Function.update_self] at hh
    cases hl : t q with
    | exclusive e₀ =>
      rw [hl] at hh
      cases hh
    | shared es =>
      rw [hl] at hh
      obtain ⟨hes, hne⟩ := List.mem_filter.1 hh
      refine ⟨?_, fun h => by simp [h.1] at hne⟩
      rw [Holds, hl]
      exact hes
  · simp only [Holds, unlock, Function.update_of_ne hq] at hh
    exact ⟨hh, fun h => hq h.2⟩

omit [DecidableEq ε] in
/-- A free lock can be taken. -/
theorem lock_free (h : t p = .shared []) : t.lock e p = some (Function.update t p (.exclusive e)) := by
  simp [lock, h, RwLock.lock]

omit [DecidableEq ε] in
theorem holds_update : Holds (Function.update t p (.exclusive e)) e p := by
  simp [Holds, RwLock.holds]

end Locks

end RwLocks
