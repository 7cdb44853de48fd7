import Mathlib.Data.List.Count
import Mathlib.Data.List.Nodup
import Mathlib.Data.List.Perm.Basic
/-!
# Who answers for a resource

An inventory notes where each resource that was taken has gone: it was closed, an owner
keeps it, or it was handed on. The inventory is settled if each has gone to exactly one
of these, and once.
-/

/-- The resources `φ` that were taken, and where they went. `ω` are the owners. -/
structure Inventory (ω φ : Type*) where
  taken : List φ := []
  closed : List φ := []
  owned : List (ω × φ) := []
  handed : List φ := []

namespace Inventory

variable {ω φ : Type*}

def take (l : Inventory ω φ) (rs : List φ) : Inventory ω φ := { l with taken := l.taken ++ rs }

def close (l : Inventory ω φ) (rs : List φ) : Inventory ω φ := { l with closed := l.closed ++ rs }

def own (l : Inventory ω φ) (o : ω) (r : φ) : Inventory ω φ := { l with owned := (o, r) :: l.owned }

def hand (l : Inventory ω φ) (r : φ) : Inventory ω φ := { l with handed := r :: l.handed }

/-- Everything that has become of resources. -/
def ends (l : Inventory ω φ) : List φ := l.closed ++ l.owned.map Prod.snd ++ l.handed

@[simp] theorem taken_take (l : Inventory ω φ) (rs : List φ) : (l.take rs).taken = l.taken ++ rs := rfl
@[simp] theorem taken_close (l : Inventory ω φ) (rs : List φ) : (l.close rs).taken = l.taken := rfl
@[simp] theorem taken_own (l : Inventory ω φ) (o : ω) (r : φ) : (l.own o r).taken = l.taken := rfl
@[simp] theorem taken_hand (l : Inventory ω φ) (r : φ) : (l.hand r).taken = l.taken := rfl
@[simp] theorem closed_take (l : Inventory ω φ) (rs : List φ) : (l.take rs).closed = l.closed := rfl
@[simp] theorem closed_own (l : Inventory ω φ) (o : ω) (r : φ) : (l.own o r).closed = l.closed := rfl
@[simp] theorem closed_hand (l : Inventory ω φ) (r : φ) : (l.hand r).closed = l.closed := rfl
@[simp] theorem ends_empty : ({} : Inventory ω φ).ends = [] := rfl
@[simp] theorem ends_take (l : Inventory ω φ) (rs : List φ) : (l.take rs).ends = l.ends := rfl

theorem ends_close (l : Inventory ω φ) (rs : List φ) : (l.close rs).ends.Perm (rs ++ l.ends) := by
  simp only [ends, close, List.append_assoc]
  exact List.perm_append_comm_assoc ..

theorem ends_own (l : Inventory ω φ) (o : ω) (r : φ) : (l.own o r).ends.Perm (r :: l.ends) := by
  simp only [ends, own, List.map_cons, List.append_assoc, List.cons_append]
  exact List.perm_middle

section

variable [DecidableEq φ]

/-- Each resource taken has gone to one place. -/
def Settled (l : Inventory ω φ) : Prop := ∀ r ∈ l.taken, l.ends.count r = 1

/-- The resources that are still open. -/
def live (l : Inventory ω φ) : List φ := l.taken.filter fun r => r ∉ l.closed

theorem settled_of_perm {l : Inventory ω φ} (hn : l.taken.Nodup) (h : l.ends.Perm l.taken) : l.Settled := by
  intro r hr
  rw [h.count_eq]
  exact List.count_eq_one_of_mem hn hr

/-- A resource that has gone nowhere, or to two places, leaves the inventory open. -/
theorem not_settled {l : Inventory ω φ} {rs : List φ} {r : φ} (hr : r ∈ l.taken) (h : l.ends.Perm rs)
    (hc : rs.count r ≠ 1) : ¬ l.Settled := fun hs => hc (h.count_eq r ▸ hs r hr)

end

end Inventory
