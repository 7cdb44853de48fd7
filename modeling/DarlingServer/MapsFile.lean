import Mathlib.Data.Nat.Digits.Defs
import DarlingServer.Lib.Pattern
import DarlingServer.PageRanges
/-!
# Reading the memory map of a process

The server reads `/proc/<pid>/maps` line by line, with one regular expression for all of a
line in `memoryRegionInfo` and another for the addresses only in `getNextRegion`. A line as
the kernel prints it is found by both (`search_entry`, `search_address`), so the two scans see
the same regions: `scanInfo_map` and `scanNext_map` say what they find in them.
-/

namespace DarlingServer.MapsFile

open PageRanges Pattern

/-! ## Lines -/

abbrev Line := List Char

def isHex (c : Char) : Bool := "0123456789abcdefABCDEF".toList.contains c

def isSpace (c : Char) : Bool := [' ', '\t', '\n', '\x0b', '\x0c', '\r'].contains c

def isPerm (c : Char) : Bool := ['r', 'w', 'x', 'p', 's', '-'].contains c

def hexRun : Piece Char := { accepts := isHex }

def dash : Piece Char := { accepts := (· = '-'), repeated := false, captured := false }

def spaces : Piece Char := { accepts := isSpace, captured := false }

def permRun : Piece Char := { accepts := isPerm }

def memoryRegionEntryRegex : List (Piece Char) := [hexRun, dash, hexRun, spaces, permRun, spaces, hexRun]

def memoryRegionEntryAddressRegex : List (Piece Char) := [hexRun, dash, hexRun]

/-- The value of a hexadecimal digit: its place in the table, where the capital letters
come after the others. -/
def hexValue (c : Char) : Nat :=
  let place := "0123456789abcdefABCDEF".toList.idxOf c
  if place < 16 then place else place - 6

def hexNumber (digits : Line) : Nat := digits.foldl (fun n c => 16 * n + hexValue c) 0

/-- What the functions throw. -/
inductive Thrown where
  | deadProcess
  | efault
  | outOfRange
  deriving DecidableEq

/-- `std::stoul` with base 16. -/
def stoul (digits : Line) : Except Thrown Nat :=
  if hexNumber digits < word then .ok (hexNumber digits) else .error .outOfRange

/-! ## The two scans -/

structure MemoryRegionInfo where
  startAddress : Nat
  pageCount : Nat
  mapOffset : Nat
  protection : Prot
  shared : Bool
  deriving DecidableEq

/-- What is there to read of a process. -/
structure Maps where
  isDead : Bool := false
  lines : List Line

/-- The loop of `memoryRegionInfo`. -/
def scanInfo (page : PageSize) (address : Nat) : List Line → Except Thrown MemoryRegionInfo
  | [] => .error .efault
  | line :: lines =>
    match search memoryRegionEntryRegex line with
    | some [first, second, perms, offset] => do
      let startAddress ← stoul first
      let endAddress ← stoul second
      if endAddress ≤ address ∨ startAddress > address then scanInfo page address lines
      else
        let mapOffset ← stoul offset
        return {
          startAddress
          pageCount := (endAddress - startAddress) / page.size
          mapOffset
          protection := { read := perms.contains 'r', write := perms.contains 'w', execute := perms.contains 'x' }
          shared := perms.contains 's' }
    -- a malformed entry is skipped with a warning
    | _ => scanInfo page address lines

def memoryRegionInfo (page : PageSize) (maps : Maps) (address : Nat) : Except Thrown MemoryRegionInfo :=
  if maps.isDead then .error .deadProcess else scanInfo page address maps.lines

/-- The loop of `getNextRegion`. -/
def scanNext (address : Nat) : List Line → Except Thrown Nat
  | [] => .ok 0
  | line :: lines =>
    match search memoryRegionEntryAddressRegex line with
    | some [first, second] => do
      let startAddress ← stoul first
      let _ ← stoul second
      if startAddress ≤ address then scanNext address lines else return startAddress
    | _ => scanNext address lines

def getNextRegion (maps : Maps) (address : Nat) : Except Thrown Nat :=
  if maps.isDead then .error .deadProcess else scanNext address maps.lines

/-! ## What the kernel prints -/

/-- A region as the kernel knows it; `rest` is the device, the inode and the path. -/
structure Vma where
  start : Nat
  stop : Nat
  offset : Nat
  prot : Prot
  shared : Bool
  rest : Line
  deriving DecidableEq

def hexChar (d : Nat) : Char := "0123456789abcdef".toList.getD d '0'

def hexDigits (n : Nat) : Line := (Nat.digits 16 n).reverse.map hexChar

/-- A number in hexadecimal with at least eight digits. -/
def hex8 (n : Nat) : Line := List.replicate (8 - (hexDigits n).length) '0' ++ hexDigits n

def permChars (prot : Prot) (shared : Bool) : Line :=
  [if prot.read then 'r' else '-', if prot.write then 'w' else '-', if prot.execute then 'x' else '-',
    if shared then 's' else 'p']

def Vma.perms (vma : Vma) : Line := permChars vma.prot vma.shared

def Vma.line (vma : Vma) : Line :=
  hex8 vma.start ++ '-' :: (hex8 vma.stop ++ ' ' :: (vma.perms ++ ' ' :: (hex8 vma.offset ++ ' ' :: vma.rest)))

/-- What the line prints fits in its fields. -/
structure Vma.Printable (vma : Vma) : Prop where
  start : vma.start < word
  stop : vma.stop < word
  offset : vma.offset < word

theorem hexChar_spec {d : Nat} (h : d < 16) : isHex (hexChar d) = true ∧ hexValue (hexChar d) = d := by
  have hall : ∀ d : Fin 16, isHex (hexChar d) = true ∧ hexValue (hexChar d) = d := by decide
  exact hall ⟨d, h⟩

theorem hexNumber_append_singleton (l : Line) (c : Char) : hexNumber (l ++ [c]) = 16 * hexNumber l + hexValue c := by
  simp [hexNumber]

theorem hexNumber_digits (ds : List Nat) (h : ∀ d ∈ ds, d < 16) :
    hexNumber (ds.reverse.map hexChar) = Nat.ofDigits 16 ds := by
  induction ds with
  | nil => rfl
  | cons d ds ih =>
    rw [List.forall_mem_cons] at h
    rw [List.reverse_cons, List.map_append, List.map_singleton, hexNumber_append_singleton, ih h.2,
      (hexChar_spec h.1).2, Nat.ofDigits_cons]
    exact Nat.add_comm _ _

theorem hexNumber_replicate (n : Nat) (l : Line) : hexNumber (List.replicate n '0' ++ l) = hexNumber l := by
  induction n with
  | zero => rfl
  | succ n ih => exact ih

theorem hexNumber_hex8 (n : Nat) : hexNumber (hex8 n) = n := by
  rw [hex8, hexNumber_replicate, hexDigits, hexNumber_digits _ fun d hd => Nat.digits_lt_base (by decide) hd,
    Nat.ofDigits_digits]

theorem isHex_hex8 (n : Nat) : ∀ c ∈ hex8 n, isHex c = true := by
  intro c hc
  rcases List.mem_append.1 hc with hc | hc
  · rw [(List.mem_replicate.1 hc).2]
    decide
  · obtain ⟨d, hd, rfl⟩ := List.mem_map.1 hc
    exact (hexChar_spec (Nat.digits_lt_base (by decide) (List.mem_reverse.1 hd))).1

theorem hex8_ne_nil (n : Nat) : hex8 n ≠ [] := by
  intro h
  have := congrArg List.length h
  simp only [hex8, List.length_append, List.length_replicate, List.length_nil] at this
  omega

theorem stoul_hex8 {n : Nat} (h : n < word) : stoul (hex8 n) = .ok n := by
  simp [stoul, hexNumber_hex8, h]

theorem permChars_spec (prot : Prot) (shared : Bool) :
    (∀ c ∈ permChars prot shared, isPerm c = true) ∧ (permChars prot shared).contains 'r' = prot.read ∧
      (permChars prot shared).contains 'w' = prot.write ∧ (permChars prot shared).contains 'x' = prot.execute ∧
      (permChars prot shared).contains 's' = shared := by
  have hall : (permChars prot shared).all isPerm = true ∧ (permChars prot shared).contains 'r' = prot.read ∧
      (permChars prot shared).contains 'w' = prot.write ∧ (permChars prot shared).contains 'x' = prot.execute ∧
      (permChars prot shared).contains 's' = shared := by
    obtain ⟨r, w, x⟩ := prot
    cases r <;> cases w <;> cases x <;> cases shared <;> decide
  exact ⟨List.all_eq_true.1 hall.1, hall.2⟩

/-- A number and what follows it, which is not a digit. -/
theorem cut_hex8 (n : Nat) {c : Char} (hc : isHex c = false) (rest : Line) :
    hexRun.cut (hex8 n ++ c :: rest) = some (hex8 n, c :: rest) :=
  cut_append rfl (hex8_ne_nil n) (isHex_hex8 n) (by rintro a ⟨⟩; exact hc)

/-- One space and what follows it, which is not one. -/
theorem cut_space {rest : Line} (h : ∀ c ∈ rest.head?, isSpace c = false) :
    spaces.cut (' ' :: rest) = some ([' '], rest) :=
  cut_append (x := [' ']) rfl (by simp) (List.all_eq_true.1 rfl) h

theorem not_isSpace_hex8 (n : Nat) (rest : Line) : ∀ c ∈ (hex8 n ++ rest).head?, isSpace c = false := by
  have hdigits : ("0123456789abcdefABCDEF".toList.all fun c => !isSpace c) = true := by decide
  obtain ⟨c, digits, hcons⟩ := List.exists_cons_of_ne_nil (hex8_ne_nil n)
  have hhex := isHex_hex8 n c (hcons ▸ List.mem_cons_self)
  rw [hcons]
  rintro _ ⟨⟩
  simpa using List.all_eq_true.1 hdigits c (List.contains_iff_mem.1 hhex)

theorem not_isSpace_perms (vma : Vma) (rest : Line) : ∀ c ∈ (vma.perms ++ rest).head?, isSpace c = false := by
  rintro _ ⟨⟩
  cases vma.prot.read <;> decide

theorem cut_perms (vma : Vma) (rest : Line) : permRun.cut (vma.perms ++ ' ' :: rest) = some (vma.perms, ' ' :: rest) :=
  cut_append rfl (List.cons_ne_nil _ _) (permChars_spec _ _).1 (by rintro _ ⟨⟩; decide)

theorem search_entry (vma : Vma) :
    search memoryRegionEntryRegex vma.line = some [hex8 vma.start, hex8 vma.stop, vma.perms, hex8 vma.offset] := by
  apply search_of_matchAt
  -- piece by piece along the line
  refine matchAt_captured rfl (cut_hex8 _ (by decide) _) ?_
  refine matchAt_skipped rfl (cut_cons rfl _ (by decide)) ?_
  refine matchAt_captured rfl (cut_hex8 _ (by decide) _) ?_
  refine matchAt_skipped rfl (cut_space (not_isSpace_perms _ _)) ?_
  refine matchAt_captured rfl (cut_perms _ _) ?_
  refine matchAt_skipped rfl (cut_space (not_isSpace_hex8 _ _)) ?_
  exact matchAt_captured rfl (cut_hex8 _ (by decide) _) rfl

theorem search_address (vma : Vma) :
    search memoryRegionEntryAddressRegex vma.line = some [hex8 vma.start, hex8 vma.stop] := by
  apply search_of_matchAt
  refine matchAt_captured rfl (cut_hex8 _ (by decide) _) ?_
  refine matchAt_skipped rfl (cut_cons rfl _ (by decide)) ?_
  exact matchAt_captured rfl (cut_hex8 _ (by decide) _) rfl

/-! ## What the scans find -/

/-- What `memoryRegionInfo` returns for a region. -/
def Vma.info (page : PageSize) (vma : Vma) : MemoryRegionInfo where
  startAddress := vma.start
  pageCount := (vma.stop - vma.start) / page.size
  mapOffset := vma.offset
  protection := vma.prot
  shared := vma.shared

def Vma.size (vma : Vma) : Nat := vma.stop - vma.start

/-- The region has the address. -/
def Vma.has (address : Nat) (vma : Vma) : Bool := vma.start ≤ address && address < vma.stop

/-- The first scan finds the first region that has the address. -/
theorem scanInfo_map (page : PageSize) (address : Nat) {vmas : List Vma} (h : ∀ vma ∈ vmas, vma.Printable) :
    scanInfo page address (vmas.map Vma.line) =
      match vmas.find? (Vma.has address) with
      | some vma => .ok (vma.info page)
      | none => .error .efault := by
  induction vmas with
  | nil => rfl
  | cons vma vmas ih =>
    rw [List.forall_mem_cons] at h
    obtain ⟨-, hr, hw, hx, hs⟩ := permChars_spec vma.prot vma.shared
    simp only [List.map_cons, scanInfo, search_entry, stoul_hex8 h.1.start, stoul_hex8 h.1.stop,
      stoul_hex8 h.1.offset, bind, Except.bind, pure, Except.pure]
    by_cases hhas : vma.has address = true
    · rw [List.find?_cons_of_pos hhas]
      simp only [Vma.has, Bool.and_eq_true, decide_eq_true_eq] at hhas
      rw [if_neg (by omega)]
      simp only [Vma.info, Vma.perms, hr, hw, hx, hs]
    · rw [List.find?_cons_of_neg hhas]
      simp only [Vma.has, Bool.and_eq_true, decide_eq_true_eq] at hhas
      rw [if_pos (by omega)]
      exact ih h.2

/-- The second one finds the first region that starts after the address. -/
theorem scanNext_map (address : Nat) {vmas : List Vma} (h : ∀ vma ∈ vmas, vma.Printable) :
    scanNext address (vmas.map Vma.line) =
      .ok (((vmas.find? fun vma => address < vma.start).map Vma.start).getD 0) := by
  induction vmas with
  | nil => rfl
  | cons vma vmas ih =>
    rw [List.forall_mem_cons] at h
    simp only [List.map_cons, scanNext, search_address, stoul_hex8 h.1.start, stoul_hex8 h.1.stop, bind, Except.bind,
      pure, Except.pure]
    by_cases hlt : address < vma.start
    · rw [if_neg (by omega), List.find?_cons_of_pos (by simpa using hlt)]
      rfl
    · rw [if_pos (by omega), List.find?_cons_of_neg (by simpa using hlt)]
      exact ih h.2

end DarlingServer.MapsFile
