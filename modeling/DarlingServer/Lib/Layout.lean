import Mathlib.Data.List.Zip
/-!
# The layout of C structures

A structure is a list of members, each with a size and an alignment. Members
stand in order, each at the first offset that suits its alignment, and the
structure's size is rounded up to its own alignment.
-/

namespace Layout

structure Member where
  size : Nat
  align : Nat
  deriving DecidableEq, Repr

/-- A stretch of bytes. -/
structure Field where
  offset : Nat
  size : Nat
  deriving DecidableEq, Repr

def Field.stop (f : Field) : Nat := f.offset + f.size

def roundUp (n align : Nat) : Nat := (n + (align - 1)) / align * align

/-- The members as fields, the first at or after `start`. -/
def fields (start : Nat) : List Member → List Field
  | [] => []
  | m :: ms => ⟨roundUp start m.align, m.size⟩ :: fields (roundUp start m.align + m.size) ms

/-- Where the last member stops. -/
def stop (start : Nat) : List Member → Nat
  | [] => start
  | m :: ms => stop (roundUp start m.align + m.size) ms

def alignment (ms : List Member) : Nat := ms.foldr (fun m a => max m.align a) 1

def size (ms : List Member) : Nat := roundUp (stop 0 ms) (alignment ms)

/-- A structure as a member of another one. -/
def asMember (ms : List Member) : Member := ⟨size ms, alignment ms⟩

theorem le_roundUp {align : Nat} (h : 0 < align) (n : Nat) : n ≤ roundUp n align := by
  unfold roundUp
  have hdiv := Nat.div_add_mod (n + (align - 1)) align
  have hmod := Nat.mod_lt (n + (align - 1)) h
  rw [Nat.mul_comm] at hdiv
  omega

theorem alignment_pos (ms : List Member) : 0 < alignment ms := by
  induction ms with
  | nil => exact Nat.one_pos
  | cons m ms ih => exact lt_of_lt_of_le ih (Nat.le_max_right _ _)

section

variable {ms : List Member} (ha : ∀ m ∈ ms, 0 < m.align)

include ha

theorem start_le_stop (start : Nat) : start ≤ stop start ms := by
  induction ms generalizing start with
  | nil => exact Nat.le_refl _
  | cons m ms ih =>
    have hm := le_roundUp (ha m (List.mem_cons_self ..)) start
    have := ih (fun m' hm' => ha m' (List.mem_cons_of_mem _ hm')) (roundUp start m.align + m.size)
    simp only [stop]
    omega

/-- Every member lies within the structure. -/
theorem field_stop_le {start : Nat} {f : Field} (hf : f ∈ fields start ms) : f.stop ≤ stop start ms := by
  induction ms generalizing start with
  | nil => cases hf
  | cons m ms ih =>
    have ha' : ∀ m' ∈ ms, 0 < m'.align := fun m' hm' => ha m' (List.mem_cons_of_mem _ hm')
    rcases List.mem_cons.1 hf with rfl | hf
    · exact start_le_stop ha' _
    · exact ih ha' hf

end

theorem stop_le_size (ms : List Member) : stop 0 ms ≤ size ms := le_roundUp (alignment_pos ms) _

/-- The value of bytes, least significant first. -/
def littleEndian (bytes : List UInt8) : Nat := bytes.foldr (fun b acc => b.toNat + 256 * acc) 0

end Layout
