import Mathlib.Algebra.Order.BigOperators.Group.List
import Mathlib.Algebra.Order.Group.Nat
import Mathlib.Data.List.Nodup
import Mathlib.Data.List.Perm.Basic
/-!
# Areas mapped into an address space

A space has areas mapped, no two of which share a byte, and notes which were ever mapped
and which are mapped no more. An area can be mapped where nothing is. Unmapping a range
takes away every area that has a byte in it; of an area that is mapped, that is this area
and nothing else (`live_unmap`).
-/

namespace Mappings

/-- `length` bytes from `start` on. -/
structure Area where
  start : Nat
  length : Nat
deriving DecidableEq, Repr

/-- No byte is in both. -/
def Area.Apart (a b : Area) : Prop := a.start + a.length ≤ b.start ∨ b.start + b.length ≤ a.start

instance (a b : Area) : Decidable (a.Apart b) := inferInstanceAs (Decidable (_ ∨ _))

theorem Area.Apart.symm {a b : Area} (h : a.Apart b) : b.Apart a := Or.symm h

theorem Area.not_apart_self {a : Area} (h : 0 < a.length) : ¬ a.Apart a := by
  unfold Area.Apart
  omega

/-- What is mapped, what ever was, and what is no more. -/
structure Space where
  live : List Area
  mapped : List Area
  unmapped : List Area
  apart : live.Pairwise Area.Apart
  filled : ∀ a ∈ live, 0 < a.length
  account : (live ++ unmapped).Perm mapped

namespace Space

def empty : Space := ⟨[], [], [], .nil, by simp, .nil⟩

/-- Nothing is mapped in the area, and it is not empty. -/
def Vacant (m : Space) (a : Area) : Prop := 0 < a.length ∧ ∀ b ∈ m.live, a.Apart b

instance (m : Space) (a : Area) : Decidable (m.Vacant a) := inferInstanceAs (Decidable (_ ∧ _))

def map (m : Space) (a : Area) (h : m.Vacant a) : Space where
  live := a :: m.live
  mapped := a :: m.mapped
  unmapped := m.unmapped
  apart := m.apart.cons h.2
  filled := List.forall_mem_cons.2 ⟨h.1, m.filled⟩
  account := m.account.cons a

/-- Every area with a byte in the range goes. -/
def unmap (m : Space) (a : Area) : Space where
  live := m.live.filter fun b => a.Apart b
  mapped := m.mapped
  unmapped := (m.live.filter fun b => ¬ a.Apart b) ++ m.unmapped
  apart := m.apart.filter _
  filled := fun b hb => m.filled b (List.mem_of_mem_filter hb)
  account := by
    rw [← List.append_assoc]
    have hsplit := List.filter_append_perm (fun b => decide (a.Apart b)) m.live
    simp only [← decide_not] at hsplit
    exact (hsplit.append_right m.unmapped).trans m.account

theorem live_nodup (m : Space) : m.live.Nodup := by
  refine m.apart.imp_of_mem fun {a b} ha _ hab heq => ?_
  subst heq
  exact Area.not_apart_self (m.filled a ha) hab

variable {m : Space} {a : Area}

/-- The other areas have no byte in a mapped one. -/
theorem apart_of_mem_erase (h : a ∈ m.live) {b : Area} (hb : b ∈ m.live.erase a) : a.Apart b := by
  have hpair : (a :: m.live.erase a).Pairwise Area.Apart :=
    ((List.perm_cons_erase h).pairwise_iff Area.Apart.symm).1 m.apart
  exact List.rel_of_pairwise_cons hpair hb

theorem live_unmap (h : a ∈ m.live) : (a :: (m.unmap a).live).Perm m.live := by
  have hself := Area.not_apart_self (m.filled a h)
  have hrest : (m.live.erase a).filter (fun b => a.Apart b) = m.live.erase a :=
    List.filter_eq_self.2 fun b hb => decide_eq_true (apart_of_mem_erase h hb)
  have hfilter := (List.perm_cons_erase h).filter fun b => decide (a.Apart b)
  rw [List.filter_cons_of_neg (by simpa using hself), hrest] at hfilter
  exact (hfilter.cons a).trans (List.perm_cons_erase h).symm

/-- There is room for an area of any length behind the others. -/
theorem exists_vacant (m : Space) {length : Nat} (h : 0 < length) : ∃ start, m.Vacant ⟨start, length⟩ := by
  refine ⟨(m.live.map fun b => b.start + b.length).sum, h, fun b hb => .inr ?_⟩
  exact List.single_le_sum (fun _ _ => Nat.zero_le _) _ (List.mem_map_of_mem hb)

end Space

end Mappings
