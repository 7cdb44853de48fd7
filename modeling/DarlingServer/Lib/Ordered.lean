import Mathlib.Data.List.Perm.Basic
import Mathlib.Order.Lattice
/-!
# Ordered collections

Elements in increasing order of a key, no two of them with the same one: what a search tree is
to code that only goes through it in order. Inserting an element whose key is there already
does nothing.
-/

namespace Ordered

variable {E K : Type*} [LinearOrder K]

/-- An element at its place in a list, unless its key is there. -/
def insertInto (key : E → K) (e : E) : List E → List E
  | [] => [e]
  | a :: l =>
    if key e < key a then e :: a :: l
    else if key a < key e then a :: insertInto key e l
    else a :: l

section
variable {key : E → K} {e : E} {l : List E}

theorem mem_insertInto {a : E} (h : a ∈ insertInto key e l) : a = e ∨ a ∈ l := by
  fun_induction insertInto key e l with
  | case1 => exact .inl (List.mem_singleton.1 h)
  | case2 b l hlt => exact List.mem_cons.1 h
  | case3 b l hlt hgt ih =>
    rcases List.mem_cons.1 h with rfl | h
    · exact .inr List.mem_cons_self
    · exact (ih h).imp_right (List.mem_cons_of_mem b)
  | case4 => exact .inr h

theorem sorted_insertInto (h : l.Pairwise fun a b => key a < key b) :
    (insertInto key e l).Pairwise fun a b => key a < key b := by
  fun_induction insertInto key e l with
  | case1 => exact List.pairwise_singleton _ _
  | case2 b l hlt =>
    refine List.pairwise_cons.2 ⟨fun c hc => ?_, h⟩
    rcases List.mem_cons.1 hc with rfl | hc
    · exact hlt
    · exact lt_trans hlt ((List.pairwise_cons.1 h).1 c hc)
  | case3 b l hlt hgt ih =>
    obtain ⟨hb, hl⟩ := List.pairwise_cons.1 h
    refine List.pairwise_cons.2 ⟨fun c hc => ?_, ih hl⟩
    rcases mem_insertInto hc with rfl | hc
    · exact hgt
    · exact hb c hc
  | case4 => exact h

/-- With a new key the element is added. -/
theorem insertInto_perm (h : ∀ a ∈ l, key a ≠ key e) : (insertInto key e l).Perm (e :: l) := by
  fun_induction insertInto key e l with
  | case1 => exact List.Perm.refl _
  | case2 => exact List.Perm.refl _
  | case3 b l hlt hgt ih =>
    have hrest := ih fun a ha => h a (List.mem_cons_of_mem b ha)
    exact (hrest.cons b).trans (List.Perm.swap e b l)
  | case4 b l hlt hgt => exact absurd (le_antisymm (not_lt.1 hlt) (not_lt.1 hgt)) (h b List.mem_cons_self)

end

structure Tree (key : E → K) where
  entries : List E
  sorted : entries.Pairwise fun a b => key a < key b

namespace Tree
variable {key : E → K}

def empty : Tree key := ⟨[], .nil⟩

def insert (tree : Tree key) (e : E) : Tree key := ⟨insertInto key e tree.entries, sorted_insertInto tree.sorted⟩

/-- Without the first element. -/
def tail (tree : Tree key) : Tree key := ⟨tree.entries.tail, tree.sorted.tail⟩

end Tree

end Ordered
