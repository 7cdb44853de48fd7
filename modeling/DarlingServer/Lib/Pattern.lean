import Mathlib.Data.List.TakeWhile
/-!
# Patterns of runs

A pattern is a sequence of pieces, each for one element of a class or for a run of them. A
run is taken as far as it goes. That is what a regular expression with greedy repetitions
finds when neighbouring classes have nothing in common, since a shorter run could not go
on with the next piece. A search finds the first place at which the pattern fits.
-/

namespace Pattern

variable {α : Type*}

structure Piece (α : Type*) where
  accepts : α → Bool
  repeated : Bool := true
  captured : Bool := true

/-- What the piece takes, and the rest. -/
def Piece.cut (piece : Piece α) (l : List α) : Option (List α × List α) :=
  if piece.repeated then
    if l.takeWhile piece.accepts = [] then none else some (l.takeWhile piece.accepts, l.dropWhile piece.accepts)
  else
    match l with
    | [] => none
    | a :: l => if piece.accepts a then some ([a], l) else none

/-- The groups captured by the pattern at the start of the input. -/
def matchAt : List (Piece α) → List α → Option (List (List α))
  | [], _ => some []
  | piece :: pieces, l =>
    match piece.cut l with
    | none => none
    | some (x, rest) => (matchAt pieces rest).map fun groups => if piece.captured then x :: groups else groups

def search (pieces : List (Piece α)) : List α → Option (List (List α))
  | [] => matchAt pieces []
  | a :: l =>
    match matchAt pieces (a :: l) with
    | some groups => some groups
    | none => search pieces l

theorem search_of_matchAt {pieces : List (Piece α)} {l : List α} {groups : List (List α)}
    (h : matchAt pieces l = some groups) : search pieces l = some groups := by
  cases l with
  | nil => exact h
  | cons a l => rw [search, h]

/-- A run that is not empty and that what follows does not continue. -/
theorem cut_append {piece : Piece α} (hrepeated : piece.repeated = true) {x rest : List α} (hne : x ≠ [])
    (hx : ∀ a ∈ x, piece.accepts a = true) (hrest : ∀ a ∈ rest.head?, piece.accepts a = false) :
    piece.cut (x ++ rest) = some (x, rest) := by
  have htake : rest.takeWhile piece.accepts = [] := by
    cases rest with
    | nil => rfl
    | cons a rest => simp [hrest a rfl]
  have hdrop : rest.dropWhile piece.accepts = rest := by
    cases rest with
    | nil => rfl
    | cons a rest => simp [hrest a rfl]
  simp only [Piece.cut, hrepeated, if_true, List.takeWhile_append_of_pos hx, List.dropWhile_append_of_pos hx, htake,
    hdrop, List.append_nil, hne, if_false]

theorem cut_cons {piece : Piece α} (hsingle : piece.repeated = false) {a : α} (rest : List α)
    (ha : piece.accepts a = true) : piece.cut (a :: rest) = some ([a], rest) := by
  simp [Piece.cut, hsingle, ha]

section Steps
variable {piece : Piece α} {pieces : List (Piece α)} {l x rest : List α} {groups : List (List α)}

theorem matchAt_captured (hcaptured : piece.captured = true) (hcut : piece.cut l = some (x, rest))
    (hrest : matchAt pieces rest = some groups) : matchAt (piece :: pieces) l = some (x :: groups) := by
  simp only [matchAt, hcut, hrest, Option.map_some, hcaptured, if_true]

theorem matchAt_skipped (hskipped : piece.captured = false) (hcut : piece.cut l = some (x, rest))
    (hrest : matchAt pieces rest = some groups) : matchAt (piece :: pieces) l = some groups := by
  simp only [matchAt, hcut, hrest, Option.map_some, hskipped, Bool.false_eq_true, if_false]

end Steps

end Pattern
