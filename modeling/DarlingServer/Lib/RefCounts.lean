import Mathlib.Data.List.Basic
/-!
# Reference counts

Objects that are made with one reference and disposed of when the last one is given up. The
number of an object is its position; one that was disposed of keeps it. `Balanced` compares
the counts with what the holders say, given as a number for each object.
-/

namespace RefCounts

structure Counted (α : Type*) where
  refcount : Nat
  /-- How often the object was disposed of. -/
  closes : Nat
  object : α

section
variable {α : Type*}

def create (l : List (Counted α)) (object : α) : List (Counted α) := l ++ [⟨1, 0, object⟩]

def retain (l : List (Counted α)) (d : Nat) : List (Counted α) :=
  l.modify d fun c => { c with refcount := c.refcount + 1 }

def Counted.release (c : Counted α) : Counted α :=
  { c with
    refcount := c.refcount - 1
    closes := if c.refcount - 1 = 0 then c.closes + 1 else c.closes }

def release (l : List (Counted α)) (d : Nat) : List (Counted α) := l.modify d Counted.release

/-- Every count is the number of holders, and what nobody holds has been disposed of once. -/
structure Balanced (l : List (Counted α)) (held : Nat → Nat) : Prop where
  count : ∀ d c, l[d]? = some c → c.refcount = held d ∧ c.closes = if held d = 0 then 1 else 0
  known : ∀ d, l.length ≤ d → held d = 0

variable {l : List (Counted α)} {held held' : Nat → Nat}

theorem Balanced.nil (h : ∀ d, held d = 0) : Balanced ([] : List (Counted α)) held where
  count := by simp
  known d _ := h d

/-- The object of a holder is there. -/
theorem Balanced.lt (h : Balanced l held) {d : Nat} (hd : 0 < held d) : d < l.length := by
  by_contra hge
  have := h.known d (Nat.le_of_not_lt hge)
  omega

theorem Balanced.congr (h : Balanced l held) (heq : ∀ d, held' d = held d) : Balanced l held' := by
  obtain rfl : held' = held := funext heq
  exact h

theorem Balanced.create (h : Balanced l held) (object : α)
    (hheld : ∀ d, held' d = held d + if d = l.length then 1 else 0) : Balanced (create l object) held' where
  count d c hc := by
    rw [hheld]
    by_cases hd : d = l.length
    · subst hd
      obtain rfl : c = ⟨1, 0, object⟩ := by simpa [RefCounts.create] using hc.symm
      simp [h.known l.length (Nat.le_refl _)]
    · have hlt : d < l.length := by
        have := (List.getElem?_eq_some_iff.1 hc).1
        simp only [RefCounts.create, List.length_append, List.length_singleton] at this
        omega
      rw [RefCounts.create, List.getElem?_append_left hlt] at hc
      simpa [hd] using h.count d c hc
  known d hd := by
    simp only [RefCounts.create, List.length_append, List.length_singleton] at hd
    rw [hheld, h.known d (by omega), if_neg (by omega)]

/-- Only the count of one object changes. -/
theorem Balanced.modify (h : Balanced l held) {d : Nat} {f : Counted α → Counted α}
    (hother : ∀ x, x ≠ d → held' x = held x) (hlt : d < l.length)
    (hf : ∀ c, l[d]? = some c → (f c).refcount = held' d ∧ (f c).closes = if held' d = 0 then 1 else 0) :
    Balanced (l.modify d f) held' where
  count x c hc := by
    by_cases hx : x = d
    · subst hx
      rw [List.getElem?_modify_eq] at hc
      obtain ⟨b, hb, rfl⟩ := Option.map_eq_some_iff.1 hc
      exact hf b hb
    · rw [List.getElem?_modify_ne _ _ (Ne.symm hx)] at hc
      rw [hother x hx]
      exact h.count x c hc
  known x hx := by
    rw [List.length_modify] at hx
    rw [hother x (by omega), h.known x hx]

/-- An object that somebody holds gets another holder. -/
theorem Balanced.retain (h : Balanced l held) {d : Nat} (hd : 0 < held d)
    (hheld : ∀ x, held' x = held x + if x = d then 1 else 0) : Balanced (retain l d) held' := by
  refine h.modify (fun x hx => by simp [hheld, hx]) (h.lt hd) fun c hc => ?_
  obtain ⟨hcount, hcloses⟩ := h.count d c hc
  have hd' : held' d = held d + 1 := by simp [hheld]
  exact ⟨by simp [hcount, hd'], by simp [hcloses, hd', Nat.ne_of_gt hd]⟩

/-- A holder gives up its reference. -/
theorem Balanced.release (h : Balanced l held) {d : Nat} (hheld : ∀ x, held x = held' x + if x = d then 1 else 0) :
    Balanced (release l d) held' := by
  have hd : held d = held' d + 1 := by simp [hheld]
  refine h.modify (fun x hx => by simp [hheld, hx]) (h.lt (by omega)) fun c hc => ?_
  obtain ⟨hcount, hcloses⟩ := h.count d c hc
  simp [Counted.release, hcount, hcloses, hd]

end

end RefCounts
