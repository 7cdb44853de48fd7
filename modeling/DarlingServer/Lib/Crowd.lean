import Mathlib.Data.List.Basic
/-!
# Crowds

Threads that are started one after the other, as the list of where each of them
is. The number of a thread is its position; a thread that has ended keeps it.
When one thread moves, the number of those at a kind of place changes by where it
was and where it is now, and what all of them have changes by what it had and has.
The lemmas say so without subtraction.
-/

namespace Crowd

variable {P : Type*} {l : List P} {i : Nat} {a : P}

theorem countP_set (h : l[i]? = some a) (b : P) (p : P → Bool) :
    (l.set i b).countP p + (p a).toNat = l.countP p + (p b).toNat := by
  induction l generalizing i with
  | nil => simp at h
  | cons x l ih =>
    cases i with
    | zero =>
      obtain rfl : x = a := by simpa using h
      cases hx : p x <;> cases hb : p b <;> simp [hx, hb]
    | succ i =>
      have := ih (by simpa using h)
      simp only [List.set_cons_succ, List.countP_cons]
      omega

theorem countP_join (l : List P) (b : P) (p : P → Bool) : (l ++ [b]).countP p = l.countP p + (p b).toNat := by
  rw [List.countP_append]
  cases hb : p b <;> simp [hb]

theorem toNat_le_countP (h : l[i]? = some a) (p : P → Bool) : (p a).toNat ≤ l.countP p := by
  have hmem : a ∈ l := List.mem_of_getElem? h
  cases ha : p a with
  | false => exact Nat.zero_le _
  | true => exact List.countP_pos_iff.2 ⟨a, hmem, ha⟩

theorem count_flatMap_set {H : Type*} [DecidableEq H] (h : l[i]? = some a) (b : P) (f : P → List H) (x : H) :
    ((l.set i b).flatMap f).count x + (f a).count x = (l.flatMap f).count x + (f b).count x := by
  induction l generalizing i with
  | nil => simp at h
  | cons y l ih =>
    cases i with
    | zero =>
      obtain rfl : y = a := by simpa using h
      simp only [List.set_cons_zero, List.flatMap_cons, List.count_append]
      omega
    | succ i =>
      have := ih (by simpa using h)
      simp only [List.set_cons_succ, List.flatMap_cons, List.count_append]
      omega

/-- Of the numbers below `n`, those with a property change by one of them. -/
theorem countP_range_at {n u : Nat} (hu : u < n) {p q : Nat → Bool} (h : ∀ i, i ≠ u → q i = p i) :
    (List.range n).countP q + (p u).toNat = (List.range n).countP p + (q u).toNat := by
  induction n with
  | zero => omega
  | succ n ih =>
    rw [List.range_succ, countP_join, countP_join]
    by_cases hn : u = n
    · subst hn
      have hsame : (List.range u).countP q = (List.range u).countP p :=
        List.countP_congr fun i hi => by rw [h i (Nat.ne_of_lt (List.mem_range.1 hi))]
      omega
    · have := ih (by omega)
      rw [h n (Ne.symm hn)]
      omega

end Crowd
