import DarlingServer.Lib.Pages
/-!
# Operations on ranges of pages

`mach_vm_protect`, `mach_vm_deallocate` and the shared remap turn a byte range into whole
pages, in 64-bit arithmetic, and ask for them through a hook; the server's own memory is
unmapped directly. `mach_vm_deallocate` rejects a range whose end wraps, the others do not,
and an end that is rounded up can wrap as well. By `Pages.exact_span_iff` a request is for
the right pages exactly if these are together shorter than 2^64 bytes.
-/

namespace DarlingServer.PageRanges

/-! ## Pages -/

/-- The number of 64-bit words. -/
def word : Nat := 2 ^ 64

/-- The page size, a power of two. -/
structure PageSize where
  shift : Nat
  lt : shift < 64
  deriving DecidableEq

namespace PageSize

def size (page : PageSize) : Nat := 2 ^ page.shift

/-- `PAGE_MASK`, `VM_MAP_PAGE_MASK`. -/
def mask (page : PageSize) : Nat := page.size - 1

end PageSize

/-- The operator `~` on a word. -/
def complement (x : Nat) : Nat := word - 1 - x

def vmMapTruncPage (page : PageSize) (x : Nat) : Nat := x &&& complement page.mask

def vmMapRoundPage (page : PageSize) (x : Nat) : Nat := (x + page.mask) % word &&& complement page.mask

def machVmTruncPage (page : PageSize) (x : Nat) : Nat := vmMapTruncPage page x

def machVmRoundPage (page : PageSize) (x : Nat) : Nat := vmMapRoundPage page x

def byteCountToPageCountRoundUp (page : PageSize) (byteCount : Nat) : Nat :=
  (byteCount + (page.size - 1)) % word / page.size

def byteCountToPageCountRoundDown (page : PageSize) (byteCount : Nat) : Nat := byteCount / page.size

/-! ## The operations -/

inductive KernReturn where
  | success
  | invalidAddress
  | noSpace
  | invalidArgument
  | failure
  | resourceShortage
  deriving DecidableEq

/-- A C comparison returned as a `kern_return_t`: 0 is `KERN_SUCCESS` and 1 is
`KERN_INVALID_ADDRESS`. -/
def KernReturn.ofComparison (b : Bool) : KernReturn := if b then .invalidAddress else .success

/-- `kernel_map`, or the map of a task. -/
inductive Map where
  | kernel
  | task
  deriving DecidableEq

structure Prot where
  read : Bool := false
  write : Bool := false
  execute : Bool := false
  deriving DecidableEq

/-- What is asked of the kernel, directly or through a hook. -/
inductive Request where
  | munmap (start length : Nat)
  | freePages (address pageCount : Nat)
  | changeProtection (address pageCount : Nat) (prot : Prot)
  deriving DecidableEq

/-- `vm_map_remove`, if what it asks for is `granted`. -/
def vmMapRemove (page : PageSize) (map : Map) (start stop : Nat) (granted : Bool) : KernReturn × List Request :=
  let length := Pages.sub word stop start
  (if granted then .success else .failure,
    match map with
    | .kernel => [.munmap start length]
    | .task => [.freePages start (byteCountToPageCountRoundDown page length)])

def machVmDeallocate (page : PageSize) (map : Option Map) (start size : Nat) (granted : Bool) :
    KernReturn × List Request :=
  match map with
  | none => (.invalidArgument, [])
  | some map =>
    if Pages.add word start size < start then (.invalidArgument, [])
    else if size = 0 then (.success, [])
    else
      vmMapRemove page map (vmMapTruncPage page start) (vmMapRoundPage page (Pages.add word start size)) granted

/-- `vm_deallocate`, for the server's own memory. -/
def vmDeallocate (start size : Nat) (granted : Bool) : KernReturn × List Request :=
  (.ofComparison granted, [.munmap start size])

/-- The start and the size of what a range is extended to by `mach_vm_protect` and the
shared remap. -/
def pageRange (page : PageSize) (start size : Nat) : Nat × Nat :=
  let endMemaddr := machVmRoundPage page (Pages.add word start size)
  let startMemaddr := machVmTruncPage page start
  (startMemaddr, Pages.sub word endMemaddr startMemaddr)

/-- `mach_vm_protect`; `newProtection` is passed on bit by bit. -/
def machVmProtect (page : PageSize) (start size : Nat) (newProtection : Prot) (granted : Bool) :
    KernReturn × List Request :=
  let (startMemaddr, protectSize) := pageRange page start size
  (if granted then .success else .failure,
    [.changeProtection startMemaddr (byteCountToPageCountRoundUp page protectSize) newProtection])

/-! ## The pages a request is for -/

/-- A request for pages, as its address and how many of them; `munmap` wants bytes. -/
def Request.pages (page : PageSize) : Request → Nat × Nat
  | .munmap start length => (start, length / page.size)
  | .freePages address pageCount => (address, pageCount)
  | .changeProtection address pageCount _ => (address, pageCount)

/-- Either the arguments are rejected with an error, or nothing or exactly the pages of the
range are asked for. -/
def Correct (page : PageSize) (start size : Nat) (result : KernReturn × List Request) : Prop :=
  (result.2 = [] ∧ (result.1 ≠ .success ∨ size = 0)) ∨
  ∃ r, result.2 = [r] ∧ Pages.Exact page.size start size (r.pages page).1 (r.pages page).2

section Words
variable (page : PageSize)

theorem PageSize.pos : 0 < page.size := Nat.two_pow_pos _

theorem PageSize.lt_word : page.size < word := Nat.pow_lt_pow_right (by decide) page.lt

theorem PageSize.dvd_word : page.size ∣ word := Nat.pow_dvd_pow 2 (Nat.le_of_lt page.lt)

theorem vmMapTruncPage_eq {x : Nat} (hx : x < word) : vmMapTruncPage page x = Pages.trunc page.size x :=
  Pages.land_mask_eq_trunc (Nat.le_of_lt page.lt) hx

theorem vmMapRoundPage_eq (x : Nat) : vmMapRoundPage page x = Pages.round word page.size x :=
  Pages.land_mask_eq_trunc (Nat.le_of_lt page.lt) (Nat.mod_lt _ (by decide))

/-- The distance of the rounded ends of a range. -/
theorem sub_roundPage_truncPage {start : Nat} (hstart : start < word) (size : Nat) :
    Pages.sub word (vmMapRoundPage page (Pages.add word start size)) (vmMapTruncPage page start) =
      Pages.span page.size start size % word := by
  rw [vmMapRoundPage_eq, vmMapTruncPage_eq page hstart]
  exact Pages.sub_round_trunc page.dvd_word hstart size

theorem pageRange_eq {start : Nat} (hstart : start < word) (size : Nat) :
    pageRange page start size = (Pages.trunc page.size start, Pages.span page.size start size % word) := by
  have hsub := sub_roundPage_truncPage page hstart size
  simp only [pageRange, machVmRoundPage, machVmTruncPage, hsub]
  rw [vmMapTruncPage_eq page hstart]

theorem roundUp_span (start size : Nat) :
    byteCountToPageCountRoundUp page (Pages.span page.size start size % word) =
      Pages.span page.size start size % word / page.size :=
  Pages.countUp_of_dvd page.pos page.dvd_word (Pages.dvd_span_mod page.dvd_word start size)
    (Nat.mod_lt _ (by decide))

end Words

/-- The pages of the range are shorter than 2^64 bytes, and an empty range starts with a page. -/
def Fits (page : PageSize) (start size : Nat) : Prop :=
  (size = 0 → start % page.size = 0) ∧ (size ≠ 0 → Pages.span page.size start size < word)

theorem exact_span_fits (page : PageSize) (start size : Nat) :
    Pages.Exact page.size start size (Pages.trunc page.size start)
      (Pages.span page.size start size % word / page.size) ↔ Fits page start size := by
  unfold Fits
  by_cases hsize : size = 0
  · subst hsize
    simpa using Pages.exact_span_zero_iff page.pos page.lt_word
  · simpa [hsize] using Pages.exact_span_iff page.pos page.dvd_word (by decide) (Nat.pos_of_ne_zero hsize)

theorem pageRange_exact_iff (page : PageSize) {start : Nat} (hstart : start < word) (size : Nat) :
    Pages.Exact page.size start size (pageRange page start size).1
      (byteCountToPageCountRoundUp page (pageRange page start size).2) ↔ Fits page start size := by
  rw [pageRange_eq page hstart, roundUp_span]
  exact exact_span_fits page start size

theorem machVmProtect_correct_iff (page : PageSize) {start : Nat} (hstart : start < word) (size : Nat)
    (newProtection : Prot) (granted : Bool) :
    Correct page start size (machVmProtect page start size newProtection granted) ↔ Fits page start size := by
  rw [← pageRange_exact_iff page hstart]
  simp [Correct, machVmProtect, Request.pages]

/-- Both ways to unmap the pages of a range, which is not empty. -/
theorem vmMapRemove_correct_iff (page : PageSize) (map : Map) {start size : Nat} (hstart : start < word)
    (hsize : size ≠ 0) (granted : Bool) :
    Correct page start size (vmMapRemove page map (vmMapTruncPage page start)
      (vmMapRoundPage page (Pages.add word start size)) granted) ↔
      Pages.span page.size start size < word := by
  have hexact : Pages.Exact page.size start size _ _ ↔ _ :=
    Pages.exact_span_iff page.pos page.dvd_word (by decide) (Nat.pos_of_ne_zero hsize)
  have hsub := sub_roundPage_truncPage page hstart size
  rw [← hexact, ← vmMapTruncPage_eq page hstart]
  cases map <;> simp [Correct, vmMapRemove, hsub, Request.pages, byteCountToPageCountRoundDown]

/-- An end that wraps is below the start. -/
theorem add_lt_iff {start size : Nat} (hstart : start < word) (hsize : size < word) :
    Pages.add word start size < start ↔ word ≤ start + size := by
  unfold Pages.add
  constructor
  · intro h
    by_contra hlt
    rw [Nat.mod_eq_of_lt (by omega)] at h
    omega
  · intro h
    rw [Nat.mod_eq_sub_mod h, Nat.mod_eq_of_lt (by omega)]
    omega

theorem machVmDeallocate_correct_iff (page : PageSize) (map : Option Map) {start size : Nat} (hstart : start < word)
    (hword : size < word) (granted : Bool) :
    Correct page start size (machVmDeallocate page map start size granted) ↔
      (map ≠ none → start + size < word → size ≠ 0 → Pages.span page.size start size < word) := by
  cases map with
  | none => simp [Correct, machVmDeallocate]
  | some map =>
    by_cases hwrap : word ≤ start + size
    · simp [Correct, machVmDeallocate, (add_lt_iff hstart hword).2 hwrap, Nat.not_lt_of_le hwrap]
    · have hadd : ¬ Pages.add word start size < start := fun h => hwrap ((add_lt_iff hstart hword).1 h)
      by_cases hsize : size = 0
      · subst hsize
        simp [Correct, machVmDeallocate, hadd]
      · have hremove := vmMapRemove_correct_iff page map hstart hsize granted
        simpa [machVmDeallocate, hadd, hsize, Nat.lt_of_not_le hwrap] using hremove

/-! ## What is asked for and what is returned -/

theorem vmMapRemove_success_iff (page : PageSize) (map : Map) (start stop : Nat) (granted : Bool) :
    (vmMapRemove page map start stop granted).1 = .success ↔ granted = true := by
  cases granted <;> simp [vmMapRemove]

theorem vmMapRemove_requests (page : PageSize) (map : Map) (start stop : Nat) (granted : Bool) :
    (vmMapRemove page map start stop granted).2 ≠ [] := by
  cases map <;> simp [vmMapRemove]

theorem machVmDeallocate_success_iff (page : PageSize) (map : Option Map) {start size : Nat} (hstart : start < word)
    (granted : Bool) :
    (machVmDeallocate page map start size granted).1 = .success ↔
      ((machVmDeallocate page map start size granted).2 ≠ [] ∧ granted = true) ∨ (map ≠ none ∧ size = 0) := by
  cases map with
  | none => simp [machVmDeallocate]
  | some map =>
    by_cases hadd : Pages.add word start size < start
    · have hsize : size ≠ 0 := by
        rintro rfl
        rw [Pages.add, Nat.add_zero, Nat.mod_eq_of_lt hstart] at hadd
        exact Nat.lt_irrefl _ hadd
      simp [machVmDeallocate, hadd, hsize]
    · by_cases hsize : size = 0
      · subst hsize
        simp [machVmDeallocate, hadd]
      · simp [machVmDeallocate, hadd, hsize, vmMapRemove_success_iff, vmMapRemove_requests]

/-- Pages of 4096 bytes. -/
def page4K : PageSize := ⟨12, by decide⟩

end DarlingServer.PageRanges
