import Mathlib.Data.Nat.Bitwise
import Mathlib.Data.Nat.ModEq
/-!
# Pages of a byte range in word arithmetic

Addresses are numbers below a word size `W` and a page size `P` divides `W`. The pages of
a byte range go from the page of its start to the page its end is rounded up to. Rounded in
word arithmetic, the distance of the two ends is the length of these pages modulo `W`
(`sub_round_trunc`), so it is right exactly when that length is below `W`.
-/

namespace Pages

variable {W P : Nat}

/-! ## Word arithmetic -/

def add (W x y : Nat) : Nat := (x + y) % W

def sub (W x y : Nat) : Nat := (x + W - y) % W

/-- The start of the page of `x`. -/
def trunc (P x : Nat) : Nat := x / P * P

/-- The end of the last page below `x`, in words. -/
def round (W P x : Nat) : Nat := trunc P (add W x (P - 1))

/-- How many pages hold `n` bytes, in words. -/
def countUp (W P n : Nat) : Nat := add W n (P - 1) / P

/-- Masking the low bits of a word is truncating to a page. -/
theorem land_mask_eq_trunc {x w k : Nat} (hk : k ≤ w) (hx : x < 2 ^ w) :
    x &&& (2 ^ w - 1 - (2 ^ k - 1)) = trunc (2 ^ k) x := by
  have hmask : 2 ^ w - 1 - (2 ^ k - 1) = (2 ^ (w - k) - 1) <<< k := by
    have hpos : 0 < 2 ^ k := Nat.two_pow_pos k
    rw [Nat.shiftLeft_eq, Nat.sub_mul, ← Nat.pow_add, Nat.sub_add_cancel hk, Nat.one_mul]
    omega
  have htrunc : trunc (2 ^ k) x = (x >>> k) <<< k := by
    rw [trunc, Nat.shiftLeft_eq, Nat.shiftRight_eq_div_pow]
  rw [hmask, htrunc]
  apply Nat.eq_of_testBit_eq
  intro i
  rw [Nat.testBit_and, Nat.testBit_shiftLeft, Nat.testBit_shiftLeft, Nat.testBit_two_pow_sub_one,
    Nat.testBit_shiftRight]
  by_cases hi : k ≤ i
  · rw [Nat.add_sub_cancel' hi]
    by_cases hw : i < w
    · simp [hi, show i - k < w - k by omega]
    · have hbit : x.testBit i = false :=
        Nat.testBit_lt_two_pow (lt_of_lt_of_le hx (Nat.pow_le_pow_right (by decide) (Nat.le_of_not_lt hw)))
      simp [hbit]
  · simp [hi]

/-! ## The pages of a range -/

/-- The page `j` has a byte of the range. -/
def Touches (P start size j : Nat) : Prop := ∃ b, start ≤ b ∧ b < start + size ∧ b / P = j

/-- The first page that is past `x`. -/
def ceil (P x : Nat) : Nat := (x + (P - 1)) / P

/-- The bytes from the start of the first page of the range to the end of the last one. -/
def span (P start size : Nat) : Nat := ceil P (start + size) * P - trunc P start

/-- A request for `count` pages from the address `address` on is for exactly the pages of the range. -/
def Exact (P start size address count : Nat) : Prop :=
  address % P = 0 ∧ ∀ j, (address / P ≤ j ∧ j < address / P + count) ↔ Touches P start size j

theorem lt_ceil_iff (hP : 0 < P) {x j : Nat} : j < ceil P x ↔ j * P < x := by
  unfold ceil
  rw [Nat.lt_iff_add_one_le, Nat.le_div_iff_mul_le hP, Nat.add_mul, Nat.one_mul]
  omega

theorem touches_iff (hP : 0 < P) (start size j : Nat) :
    Touches P start size j ↔ 0 < size ∧ start / P ≤ j ∧ j < ceil P (start + size) := by
  constructor
  · rintro ⟨b, hstart, hend, rfl⟩
    refine ⟨by omega, Nat.div_le_div_right hstart, ?_⟩
    rw [lt_ceil_iff hP]
    exact lt_of_le_of_lt (Nat.div_mul_le_self b P) hend
  · rintro ⟨hsize, hstart, hend⟩
    rw [lt_ceil_iff hP] at hend
    by_cases hj : start ≤ j * P
    · exact ⟨j * P, hj, hend, Nat.mul_div_cancel j hP⟩
    · -- the page of the first byte
      have hle : j ≤ start / P := (Nat.le_div_iff_mul_le hP).2 (by omega)
      exact ⟨start, Nat.le_refl _, by omega, by omega⟩

theorem div_le_ceil (P start size : Nat) : start / P ≤ ceil P (start + size) := by
  unfold ceil
  exact Nat.div_le_div_right (by omega)

theorem span_eq (P start size : Nat) : span P start size = (ceil P (start + size) - start / P) * P := by
  rw [span, trunc, Nat.sub_mul]

theorem trunc_div (hP : 0 < P) (x : Nat) : trunc P x / P = x / P := Nat.mul_div_cancel _ hP

theorem trunc_mod (P x : Nat) : trunc P x % P = 0 := Nat.mul_mod_left _ _

theorem trunc_le (P x : Nat) : trunc P x ≤ x := Nat.div_mul_le_self _ _

theorem div_lt_ceil (hP : 0 < P) {start size : Nat} (hsize : 0 < size) : start / P < ceil P (start + size) := by
  rw [lt_ceil_iff hP]
  have := Nat.div_mul_le_self start P
  omega

/-- The pages from the start of the range on, if their number is right. -/
theorem exact_trunc_iff (hP : 0 < P) {start size count : Nat} (hsize : 0 < size) :
    Exact P start size (trunc P start) count ↔ count = ceil P (start + size) - start / P := by
  have hlt : start / P < ceil P (start + size) := div_lt_ceil hP hsize
  simp only [Exact, trunc_mod, trunc_div hP, touches_iff hP, hsize, true_and]
  constructor
  · intro h
    have hfew := (h (start / P + count)).2
    have hmany := (h (ceil P (start + size))).1
    omega
  · intro h j
    constructor <;> intro hj <;> omega

/-- No page, if the range is empty. -/
theorem exact_zero_iff (hP : 0 < P) {start count : Nat} : Exact P start 0 (trunc P start) count ↔ count = 0 := by
  simp only [Exact, trunc_mod, trunc_div hP, touches_iff hP, Nat.lt_irrefl, true_and, false_and, iff_false]
  constructor
  · intro h
    have := h (start / P)
    omega
  · intro h j hj
    omega

/-! ## Ranges in words -/

theorem trunc_mod_word (h : P ∣ W) (y : Nat) : trunc P (y % W) = trunc P y % W := by
  obtain ⟨Q, rfl⟩ := h
  rw [trunc, trunc, Nat.mod_mul_right_div_self, Nat.mul_comm P Q, Nat.mul_mod_mul_right]

/-- The end of a range, rounded in words. -/
theorem round_add (h : P ∣ W) (start size : Nat) :
    round W P (add W start size) = ceil P (start + size) * P % W := by
  rw [round, add, add, Nat.mod_add_mod, trunc_mod_word h]
  rfl

/-- The length between the two rounded ends is the length of the pages, in words. -/
theorem sub_round_trunc (h : P ∣ W) {start : Nat} (hstart : start < W) (size : Nat) :
    sub W (round W P (add W start size)) (trunc P start) = span P start size % W := by
  have hle : trunc P start ≤ ceil P (start + size) * P := Nat.mul_le_mul_right P (div_le_ceil P start size)
  have htrunc := trunc_le P start
  rw [round_add h, sub, span]
  calc (ceil P (start + size) * P % W + W - trunc P start) % W
      = (ceil P (start + size) * P % W + (W - trunc P start)) % W := by
        rw [Nat.add_sub_assoc (by omega)]
    _ = (ceil P (start + size) * P + (W - trunc P start)) % W := Nat.mod_add_mod _ _ _
    _ = (ceil P (start + size) * P - trunc P start + W) % W := by congr 1; omega
    _ = (ceil P (start + size) * P - trunc P start) % W := Nat.add_mod_right _ _

theorem dvd_span_mod (h : P ∣ W) (start size : Nat) : P ∣ span P start size % W :=
  (Nat.dvd_mod_iff h).2 (span_eq P start size ▸ Nat.dvd_mul_left _ _)

/-- Rounding up does not wrap for a whole number of pages. -/
theorem countUp_of_dvd (hP : 0 < P) (h : P ∣ W) {n : Nat} (hn : P ∣ n) (hlt : n < W) : countUp W P n = n / P := by
  obtain ⟨Q, rfl⟩ := h
  obtain ⟨m, rfl⟩ := hn
  have hm : m < Q := Nat.lt_of_mul_lt_mul_left hlt
  have hle : P * m + P ≤ P * Q := by
    calc P * m + P = P * (m + 1) := by rw [Nat.mul_add, Nat.mul_one]
      _ ≤ P * Q := Nat.mul_le_mul_left P hm
  rw [countUp, add, Nat.mod_eq_of_lt (by omega), Nat.mul_div_cancel_left m hP, Nat.add_comm,
    Nat.add_mul_div_left _ _ hP, Nat.div_eq_of_lt (by omega), Nat.zero_add]

/-- Rounding leaves the start of a page where it is. -/
theorem round_of_dvd (hP : 0 < P) (h : P ∣ W) {x : Nat} (hx : P ∣ x) (hlt : x < W) : round W P x = x := by
  have hcount := countUp_of_dvd hP h hx hlt
  rw [countUp] at hcount
  rw [round, trunc, hcount, Nat.div_mul_cancel hx]

theorem trunc_of_dvd {x : Nat} (hx : P ∣ x) : trunc P x = x := Nat.div_mul_cancel hx

theorem sub_add {x : Nat} (hx : x < W) (y : Nat) : sub W (add W x y) x = y % W := by
  rw [sub, add, Nat.add_sub_assoc (Nat.le_of_lt hx), Nat.mod_add_mod]
  calc (x + y + (W - x)) % W = (y + W) % W := by congr 1; omega
    _ = y % W := Nat.add_mod_right _ _

/-- A range that is not empty is requested exactly if its pages are shorter than a word. -/
theorem exact_span_iff (hP : 0 < P) (h : P ∣ W) (hW : 0 < W) {start size : Nat} (hsize : 0 < size) :
    Exact P start size (trunc P start) (span P start size % W / P) ↔ span P start size < W := by
  have hcount : span P start size / P = ceil P (start + size) - start / P := by
    rw [span_eq, Nat.mul_div_cancel _ hP]
  have hdvd : P ∣ span P start size := span_eq P start size ▸ Nat.dvd_mul_left _ _
  rw [exact_trunc_iff hP hsize, ← hcount]
  constructor
  · intro heq
    calc span P start size = span P start size / P * P := (Nat.div_mul_cancel hdvd).symm
      _ = span P start size % W / P * P := by rw [heq]
      _ = span P start size % W := Nat.div_mul_cancel (dvd_span_mod h start size)
      _ < W := Nat.mod_lt _ hW
  · intro hlt
    rw [Nat.mod_eq_of_lt hlt]

/-- An empty range is requested exactly if its start is the start of a page. -/
theorem exact_span_zero_iff (hP : 0 < P) (hPW : P < W) {start : Nat} :
    Exact P start 0 (trunc P start) (span P start 0 % W / P) ↔ start % P = 0 := by
  rw [exact_zero_iff hP]
  have hmod := Nat.mod_lt start hP
  have hdiv := Nat.div_add_mod start P
  -- the end is rounded up by one page unless it is the start of one
  have hceil : ceil P (start + 0) = start / P + if start % P = 0 then 0 else 1 := by
    rw [ceil, Nat.add_zero, ← hdiv, Nat.add_assoc, Nat.mul_add_div hP, Nat.mul_add_mod, Nat.mul_add_div hP,
      Nat.mod_mod, Nat.div_eq_of_lt hmod, Nat.add_zero]
    congr 1
    split
    · exact Nat.div_eq_of_lt (by omega)
    · exact (Nat.div_eq_iff hP).2 (by omega)
  rw [span_eq, hceil]
  by_cases h0 : start % P = 0
  · simp [h0]
  · simp only [h0, if_false, Nat.add_sub_cancel_left, Nat.one_mul, Nat.mod_eq_of_lt hPW, Nat.div_self hP, iff_false]
    decide

end Pages
