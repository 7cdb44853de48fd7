import Mathlib.Data.List.Find
import DarlingServer.MapsFile
/-!
# The regions of a task

`mach_vm_region` and `mach_vm_region_recurse` look for the region that has an address and,
if there is none, for the next one. Each look at the memory map reads it anew.

* `regions_enumerated`: over a map that does not change, the first one goes through all
  regions in order, whatever gaps there are between them.
* `region_errors_iff`: both set the caller's address and size before they look at the count
  they are given, and the second one then forgets about its error.
-/

namespace DarlingServer.Regions

open PageRanges MapsFile

/-! ## The lookup -/

/-- The hook turns every exception into false. -/
def taskGetMemoryRegionInfo (page : PageSize) (maps : Maps) (address : Nat) : Option MemoryRegionInfo :=
  (memoryRegionInfo page maps address).toOption

/-- The hook does not catch anything. -/
def taskGetNextRegion (maps : Maps) (address : Nat) : Except Thrown Nat := getNextRegion maps address

/-- What both functions start with: the region at the address or the next one, or an error.
The memory map is read up to three times. -/
def findRegion (page : PageSize) (maps : Nat → Maps) (address : Nat) :
    Except Thrown (Except PageRanges.KernReturn MemoryRegionInfo) :=
  match taskGetMemoryRegionInfo page (maps 0) address with
  | some info => .ok (.ok info)
  | none => do
    let addrToCheck ← taskGetNextRegion (maps 1) address
    if addrToCheck = 0 then return .error .noSpace
    else
      match taskGetMemoryRegionInfo page (maps 2) addrToCheck with
      | some info => return .ok info
      | none => return .error .failure

/-- The size of a region in bytes. -/
def regionSize (page : PageSize) (region : MemoryRegionInfo) : Nat := region.pageCount * page.size % word

/-! ## `mach_vm_region` -/

inductive Flavor where
  | basicInfo
  | basicInfo64
  deriving DecidableEq

/-- `VM_REGION_BASIC_INFO_COUNT` and `VM_REGION_BASIC_INFO_COUNT_64`. -/
def Flavor.count : Flavor → Nat
  | .basicInfo => 8
  | .basicInfo64 => 9

structure BasicInfo where
  protection : Prot
  maxProtection : Prot
  inheritance : Nat
  shared : Bool
  reserved : Bool
  offset : Nat
  behavior : Nat
  userWiredCount : Nat
  deriving DecidableEq

/-- What is filled in for a region. Memory that is executable is reported as readable and
executable and not as writable, for the sake of LLDB; the 32-bit structure has room for half
of the offset. -/
def basicInfo (flavor : Flavor) (region : MemoryRegionInfo) : BasicInfo where
  protection :=
    if region.protection.execute then { read := true, execute := true }
    else { read := region.protection.read, write := region.protection.write }
  maxProtection := { read := true, write := true, execute := true }
  inheritance := 0
  shared := region.shared
  reserved := false
  offset :=
    match flavor with
    | .basicInfo => region.mapOffset % 2 ^ 32
    | .basicInfo64 => region.mapOffset
  behavior := 0
  userWiredCount := 0

/-- The caller's variables. -/
structure RegionCall where
  address : Nat
  size : Nat
  info : BasicInfo
  count : Nat
  objectName : Option Nat := none
  deriving DecidableEq

def machVmRegion (page : PageSize) (maps : Nat → Maps) (flavor : Flavor) (call : RegionCall) :
    Except Thrown (PageRanges.KernReturn × RegionCall) := do
  let found ← findRegion page maps call.address
  let out := { call with objectName := call.objectName.map fun _ => 0 }
  match found with
  | .error kr => return (kr, out)
  | .ok region =>
    let out := { out with address := region.startAddress, size := regionSize page region }
    if call.count < flavor.count then return (.invalidArgument, out)
    else return (.success, { out with count := flavor.count, info := basicInfo flavor region })

/-! ## `mach_vm_region_recurse` -/

/-- `VM_REGION_SUBMAP_SHORT_INFO_COUNT_64`. -/
def submapShortInfoCount64 : Nat := 12

/-- The fields that are set; the others are zeroed. -/
structure SubmapInfo where
  protection : Prot
  maxProtection : Prot
  offset : Nat
  shareMode : Nat
  othersZero : Bool
  deriving DecidableEq

def smPrivate : Nat := 2

def smShared : Nat := 4

def submapInfo (region : MemoryRegionInfo) : SubmapInfo where
  protection := region.protection
  maxProtection := { read := true, write := true, execute := true }
  offset := region.mapOffset
  shareMode := if region.shared then smShared else smPrivate
  othersZero := true

structure RecurseCall where
  address : Nat
  size : Nat
  depth : Option Nat := none
  info : SubmapInfo
  infoCnt : Nat
  deriving DecidableEq

def machVmRegionRecurse (page : PageSize) (maps : Nat → Maps) (call : RecurseCall) :
    Except Thrown (PageRanges.KernReturn × RecurseCall) := do
  let out := { call with depth := call.depth.map fun _ => 0 }
  let found ← findRegion page maps call.address
  match found with
  | .error kr => return (kr, out)
  | .ok region =>
    let out := { out with address := region.startAddress, size := regionSize page region }
    -- the error for another count is overwritten
    if call.infoCnt = submapShortInfoCount64 then return (.success, { out with info := submapInfo region })
    else return (.success, out)

/-! ## Enumeration -/

/-- Regions in order and apart, of whole pages, above zero and below the top. -/
structure Regular (page : PageSize) (vmas : List Vma) : Prop where
  pos : ∀ vma ∈ vmas, 0 < vma.start
  nonempty : ∀ vma ∈ vmas, vma.start < vma.stop
  top : ∀ vma ∈ vmas, vma.stop < word
  offset : ∀ vma ∈ vmas, vma.offset < word
  alignedStart : ∀ vma ∈ vmas, page.size ∣ vma.start
  alignedStop : ∀ vma ∈ vmas, page.size ∣ vma.stop
  sorted : vmas.Pairwise fun a b => a.stop ≤ b.start

/-- A memory map that does not change. -/
def describing (vmas : List Vma) : Nat → Maps := fun _ => { lines := vmas.map Vma.line }

section Lookup
variable {page : PageSize} {vmas : List Vma}

theorem Regular.printable (h : Regular page vmas) : ∀ vma ∈ vmas, vma.Printable := by
  intro vma hmem
  have := h.nonempty vma hmem
  have := h.top vma hmem
  exact ⟨by omega, by omega, h.offset vma hmem⟩

theorem taskGetMemoryRegionInfo_describing (h : Regular page vmas) (i address : Nat) :
    taskGetMemoryRegionInfo page (describing vmas i) address = (vmas.find? (Vma.has address)).map (Vma.info page) := by
  simp only [taskGetMemoryRegionInfo, memoryRegionInfo, describing, Bool.false_eq_true, if_false,
    scanInfo_map page address h.printable]
  cases vmas.find? (Vma.has address) <;> rfl

theorem taskGetNextRegion_describing (h : Regular page vmas) (i address : Nat) :
    taskGetNextRegion (describing vmas i) address =
      .ok (((vmas.find? fun vma => address < vma.start).map Vma.start).getD 0) := by
  simp only [taskGetNextRegion, getNextRegion, describing, Bool.false_eq_true, if_false,
    scanNext_map address h.printable]

/-- A region in the list ends after those before it and before those after it. -/
theorem Regular.split {before after : List Vma} {vma : Vma} (h : Regular page (before ++ vma :: after)) :
    (∀ other ∈ before, other.stop ≤ vma.start) ∧ ∀ other ∈ after, vma.stop ≤ other.start := by
  obtain ⟨-, hafter, hbefore⟩ := List.pairwise_append.1 h.sorted
  exact ⟨fun other ho => hbefore other ho vma List.mem_cons_self, (List.pairwise_cons.1 hafter).1⟩

/-- A region of whole pages has its size. -/
theorem regionSize_info (h : Regular page vmas) {vma : Vma} (hmem : vma ∈ vmas) :
    regionSize page (vma.info page) = vma.size := by
  have htop := h.top vma hmem
  have hdvd : page.size ∣ vma.stop - vma.start := Nat.dvd_sub (h.alignedStop vma hmem) (h.alignedStart vma hmem)
  unfold regionSize Vma.info Vma.size
  rw [Nat.div_mul_cancel hdvd, Nat.mod_eq_of_lt (by omega)]

/-- The region that has the address is found if those before it end below. -/
theorem find_has {before : List Vma} (after : List Vma) {vma : Vma} {address : Nat}
    (hbefore : ∀ other ∈ before, other.stop ≤ address) (hhas : vma.start ≤ address ∧ address < vma.stop) :
    (before ++ vma :: after).find? (Vma.has address) = some vma := by
  refine List.find?_eq_some_iff_append.2 ⟨by simpa [Vma.has] using hhas, before, after, rfl, fun other hmem => ?_⟩
  have := hbefore other hmem
  simp only [Vma.has, Bool.not_and, Bool.or_eq_true, Bool.not_eq_true', decide_eq_false_iff_not]
  omega

/-- The first region that ends after the address is what both lookups are about. -/
theorem findRegion_describing (h : Regular page vmas) (address : Nat) :
    findRegion page (describing vmas) address =
      .ok (match vmas.find? fun vma => address < vma.stop with
        | some vma => .ok (vma.info page)
        | none => .error .noSpace) := by
  have hinfo := taskGetMemoryRegionInfo_describing h
  have hnext := taskGetNextRegion_describing h 1 address
  cases hfind : vmas.find? fun vma => address < vma.stop with
  | none =>
    -- every region ends below the address
    rw [List.find?_eq_none] at hfind
    have hhas : vmas.find? (Vma.has address) = none := by
      rw [List.find?_eq_none]
      intro vma hmem
      have := hfind vma hmem
      simp only [Vma.has, Bool.and_eq_true, decide_eq_true_eq] at this ⊢
      omega
    have habove : (vmas.find? fun vma => address < vma.start) = none := by
      rw [List.find?_eq_none]
      intro vma hmem
      have := hfind vma hmem
      have := h.nonempty vma hmem
      simp only [decide_eq_true_eq] at *
      omega
    simp only [findRegion, hinfo, hhas, hnext, habove, Option.map_none, Option.getD_none, bind, Except.bind, pure,
      Except.pure, if_true]
  | some vma =>
    obtain ⟨hstop, before, after, rfl, hbefore⟩ := List.find?_eq_some_iff_append.1 hfind
    simp only [Bool.not_eq_true', decide_eq_false_iff_not, decide_eq_true_eq, not_lt] at hstop hbefore
    obtain ⟨hapart, hafter⟩ := h.split
    by_cases hstart : vma.start ≤ address
    · have hhas := find_has after hbefore ⟨hstart, hstop⟩
      simp only [findRegion, hinfo, hhas, Option.map_some]
    · -- the address is in the gap below the region
      have hgap : (before ++ vma :: after).find? (Vma.has address) = none := by
        rw [List.find?_eq_none]
        intro other hmem
        simp only [Vma.has, Bool.and_eq_true, decide_eq_true_eq]
        rcases List.mem_append.1 hmem with hmem | hmem
        · have := hbefore other hmem
          omega
        · rcases List.mem_cons.1 hmem with rfl | hmem
          · omega
          · have := hafter other hmem
            omega
      have habove : ((before ++ vma :: after).find? fun vma => address < vma.start) = some vma := by
        refine List.find?_eq_some_iff_append.2 ⟨by simpa using hstart, before, after, rfl, fun other hmem => ?_⟩
        have := hbefore other hmem
        have := h.nonempty other (List.mem_append_left _ hmem)
        simp only [Bool.not_eq_true', decide_eq_false_iff_not]
        omega
      have hpos := h.pos vma (by simp)
      have hnonempty := h.nonempty vma (by simp)
      have hhas := find_has after hapart ⟨Nat.le_refl _, hnonempty⟩
      simp only [findRegion, hinfo, hgap, hnext, habove, hhas, Option.map_none, Option.map_some, Option.getD_some, bind,
        Except.bind, pure, Except.pure, if_neg hpos.ne']

/-- What a call returns over the map: the first region that ends after the address. -/
theorem machVmRegion_describing (h : Regular page vmas) {flavor : Flavor} {call : RegionCall}
    (hcount : flavor.count ≤ call.count) :
    machVmRegion page (describing vmas) flavor call =
      .ok (match vmas.find? fun vma => call.address < vma.stop with
        | some vma => (.success,
          { address := vma.start, size := vma.size, info := basicInfo flavor (vma.info page), count := flavor.count,
            objectName := call.objectName.map fun _ => 0 })
        | none => (.noSpace, { call with objectName := call.objectName.map fun _ => 0 })) := by
  simp only [machVmRegion, findRegion_describing h, bind, Except.bind, pure, Except.pure]
  cases hfind : vmas.find? fun vma => call.address < vma.stop with
  | none => rfl
  | some vma =>
    have hmem := List.mem_of_find?_eq_some hfind
    simp only [if_neg (Nat.not_lt.2 hcount), regionSize_info h hmem]
    rfl

end Lookup

/-- The caller asks for one region after the other, each time from the end of the last one. -/
def enumerate (page : PageSize) (maps : Nat → Maps) (flavor : Flavor) :
    Nat → RegionCall → Except Thrown (List (Nat × Nat) × Option PageRanges.KernReturn)
  | 0, _ => .ok ([], none)
  | fuel + 1, call => do
    let (kr, out) ← machVmRegion page maps flavor call
    if kr = .success then
      let (regions, last) ← enumerate page maps flavor fuel { out with address := Pages.add word out.address out.size }
      return ((out.address, out.size) :: regions, last)
    else return ([], some kr)

section Enumeration
variable {page : PageSize} {vmas : List Vma}

/-- The regions that are still to come, from an address that is past the others. -/
theorem enumerate_from (h : Regular page vmas) {flavor : Flavor} {done todo : List Vma} (hsplit : vmas = done ++ todo)
    {call : RegionCall} (hcount : flavor.count ≤ call.count) (hdone : ∀ vma ∈ done, vma.stop ≤ call.address)
    (htodo : ∀ vma ∈ todo, call.address ≤ vma.start) {fuel : Nat} (hfuel : todo.length < fuel) :
    enumerate page (describing vmas) flavor fuel call =
      .ok (todo.map fun vma => (vma.start, vma.size), some .noSpace) := by
  induction todo generalizing done call fuel with
  | nil =>
    obtain ⟨fuel, rfl⟩ := Nat.exists_eq_add_one_of_ne_zero (Nat.ne_of_gt (Nat.zero_lt_of_lt hfuel))
    have hfind : (vmas.find? fun vma => call.address < vma.stop) = none := by
      rw [List.find?_eq_none, hsplit, List.append_nil]
      intro vma hmem
      simpa using hdone vma hmem
    simp [enumerate, machVmRegion_describing h hcount, hfind, bind, Except.bind, pure, Except.pure]
  | cons vma todo ih =>
    obtain ⟨fuel, rfl⟩ := Nat.exists_eq_add_one_of_ne_zero (Nat.ne_of_gt (Nat.zero_lt_of_lt hfuel))
    have hmem : vma ∈ vmas := by simp [hsplit]
    have hnonempty := h.nonempty vma hmem
    have hfind : (vmas.find? fun vma => call.address < vma.stop) = some vma := by
      have hstart := htodo vma List.mem_cons_self
      refine List.find?_eq_some_iff_append.2 ⟨?_, done, todo, hsplit, fun other hother => ?_⟩
      · simp only [decide_eq_true_eq]
        omega
      · simpa using hdone other hother
    -- the next address is the end of the region
    have hnext : Pages.add word vma.start vma.size = vma.stop := by
      have := h.top vma hmem
      unfold Pages.add Vma.size
      rw [Nat.mod_eq_of_lt (by omega)]
      omega
    obtain ⟨hbefore, hafter⟩ := (hsplit ▸ h).split
    have hrest := @ih (done ++ [vma]) (by simp [hsplit])
      { address := vma.stop, size := vma.size, info := basicInfo flavor (vma.info page), count := flavor.count,
        objectName := call.objectName.map fun _ => 0 }
      (Nat.le_refl _) ?_ hafter fuel (by simpa using hfuel)
    · simp [enumerate, machVmRegion_describing h hcount, hfind, hnext, hrest, bind, Except.bind, pure, Except.pure]
    · intro other hother
      rcases List.mem_append.1 hother with hother | hother
      · have := hbefore other hother
        show other.stop ≤ vma.stop
        omega
      · rw [List.mem_singleton.1 hother]

/-- The call returns the region. -/
def Returns (page : PageSize) (maps : Nat → Maps) (flavor : Flavor) (call : RegionCall) (vma : Vma) : Prop :=
  ∃ out, machVmRegion page maps flavor call = .ok (.success, out) ∧ out.address = vma.start ∧ out.size = vma.size

theorem returns_of_find (h : Regular page vmas) {flavor : Flavor} {call : RegionCall}
    (hcount : flavor.count ≤ call.count) {vma : Vma}
    (hfind : (vmas.find? fun vma => call.address < vma.stop) = some vma) :
    Returns page (describing vmas) flavor call vma :=
  ⟨_, by rw [machVmRegion_describing h hcount, hfind], rfl, rfl⟩

/-- The region that has the address is the first one that ends after it. -/
theorem find_stop_of_has (h : Regular page vmas) {address : Nat} {vma : Vma} (hmem : vma ∈ vmas)
    (hhas : vma.has address = true) : (vmas.find? fun vma => address < vma.stop) = some vma := by
  obtain ⟨before, after, rfl⟩ := List.append_of_mem hmem
  simp only [Vma.has, Bool.and_eq_true, decide_eq_true_eq] at hhas
  refine List.find?_eq_some_iff_append.2 ⟨by simpa using hhas.2, before, after, rfl, fun other hother => ?_⟩
  have := h.split.1 other hother
  simp only [Bool.not_eq_true', decide_eq_false_iff_not]
  omega

/-- If no region has the address, it is the first one that starts after it. -/
theorem find_stop_eq_start (h : Regular page vmas) {address : Nat} (hnone : ∀ vma ∈ vmas, vma.has address = false) :
    (vmas.find? fun vma => address < vma.stop) = vmas.find? fun vma => address < vma.start := by
  apply List.find?_congr
  intro vma hmem
  have hhas := hnone vma hmem
  have hnonempty := h.nonempty vma hmem
  simp only [Vma.has, Bool.and_eq_false_iff, decide_eq_false_iff_not] at hhas
  simp only [decide_eq_decide]
  omega

/-- Going through the regions from address 0 gives each one once and in order, with its start
and size, and then `KERN_NO_SPACE`. Any other address gives the region that has it or else
the nearest one above. -/
theorem regions_enumerated (h : Regular page vmas) (flavor : Flavor) (call : RegionCall)
    (hcount : flavor.count ≤ call.count) :
    (call.address = 0 → ∀ fuel, vmas.length < fuel →
      enumerate page (describing vmas) flavor fuel call =
        .ok (vmas.map fun vma => (vma.start, vma.size), some .noSpace)) ∧
    (∀ vma ∈ vmas, vma.has call.address = true → Returns page (describing vmas) flavor call vma) ∧
    ((∀ vma ∈ vmas, vma.has call.address = false) →
      (∀ vma ∈ vmas, call.address < vma.start →
        (∀ other ∈ vmas, call.address < other.start → vma.start ≤ other.start) →
        Returns page (describing vmas) flavor call vma) ∧
      ((∀ vma ∈ vmas, vma.start ≤ call.address) →
        ∃ out, machVmRegion page (describing vmas) flavor call = .ok (.noSpace, out))) := by
  refine ⟨fun hzero fuel hfuel => ?_, fun vma hmem hhas => ?_, fun hnone => ⟨fun vma hmem habove hleast => ?_, ?_⟩⟩
  · exact enumerate_from h (List.nil_append _).symm hcount (by simp) (by simp [hzero]) hfuel
  · exact returns_of_find h hcount (find_stop_of_has h hmem hhas)
  · refine returns_of_find h hcount ?_
    obtain ⟨before, after, rfl⟩ := List.append_of_mem hmem
    rw [find_stop_eq_start h hnone]
    refine List.find?_eq_some_iff_append.2 ⟨by simpa using habove, before, after, rfl, fun other hother => ?_⟩
    -- a region before it starts below it, so not above the address
    have hbelow := h.split.1 other hother
    have hnonempty := h.nonempty other (List.mem_append_left _ hother)
    have hle := hleast other (List.mem_append_left _ hother)
    simp only [Bool.not_eq_true', decide_eq_false_iff_not]
    omega
  · intro hall
    have hfind : (vmas.find? fun vma => call.address < vma.stop) = none := by
      rw [find_stop_eq_start h hnone, List.find?_eq_none]
      simpa using hall
    exact ⟨_, by rw [machVmRegion_describing h hcount, hfind]⟩

end Enumeration

/-! ## Errors -/

/-- Success is only returned with the data of the region that is returned, and another code
only with the caller's address and size as they were. -/
def RegionClean (page : PageSize) (maps : Nat → Maps) (flavor : Flavor) (call : RegionCall) : Prop :=
  ∀ kr out, machVmRegion page maps flavor call = .ok (kr, out) →
    (kr = .success → ∃ region, findRegion page maps call.address = .ok (.ok region) ∧
      out.address = region.startAddress ∧ out.size = regionSize page region ∧ out.info = basicInfo flavor region) ∧
    (kr ≠ .success → out.address = call.address ∧ out.size = call.size)

def RecurseClean (page : PageSize) (maps : Nat → Maps) (call : RecurseCall) : Prop :=
  ∀ kr out, machVmRegionRecurse page maps call = .ok (kr, out) →
    (kr = .success → ∃ region, findRegion page maps call.address = .ok (.ok region) ∧
      out.address = region.startAddress ∧ out.size = regionSize page region ∧ out.info = submapInfo region) ∧
    (kr ≠ .success → out.address = call.address ∧ out.size = call.size)

/-- The lookup does not answer with success but with a region. -/
theorem findRegion_error {page : PageSize} {maps : Nat → Maps} {address : Nat} {kr : PageRanges.KernReturn}
    (h : findRegion page maps address = .ok (.error kr)) : kr ≠ .success := by
  simp only [findRegion, bind, Except.bind, pure, Except.pure] at h
  cases hinfo : taskGetMemoryRegionInfo page (maps 0) address with
  | some info => simp [hinfo] at h
  | none =>
    cases hnext : taskGetNextRegion (maps 1) address with
    | error e => simp [hinfo, hnext] at h
    | ok next =>
      simp only [hinfo, hnext] at h
      by_cases hzero : next = 0
      · simp only [hzero, if_true, Except.ok.injEq, Except.error.injEq] at h
        simp [← h]
      · simp only [hzero, if_false] at h
        cases hagain : taskGetMemoryRegionInfo page (maps 2) next with
        | some info => simp [hagain] at h
        | none =>
          simp only [hagain, Except.ok.injEq, Except.error.injEq] at h
          simp [← h]

theorem regionClean_iff (page : PageSize) (maps : Nat → Maps) (flavor : Flavor) (call : RegionCall) :
    RegionClean page maps flavor call ↔
      ∀ region, findRegion page maps call.address = .ok (.ok region) → call.count < flavor.count →
        region.startAddress = call.address ∧ regionSize page region = call.size := by
  unfold RegionClean machVmRegion
  cases hfind : findRegion page maps call.address with
  | error e => simp [bind, Except.bind]
  | ok found =>
    cases found with
    | error kr =>
      simp only [bind, Except.bind, pure, Except.pure, Except.ok.injEq, Prod.mk.injEq, reduceCtorEq, false_implies,
        implies_true, iff_true]
      rintro _ _ ⟨rfl, rfl⟩
      exact ⟨fun hkr => absurd hkr (findRegion_error hfind), fun _ => ⟨rfl, rfl⟩⟩
    | ok region =>
      by_cases hcount : call.count < flavor.count
      · simp [bind, Except.bind, pure, Except.pure, hcount]
      · simp [bind, Except.bind, pure, Except.pure, hcount]

theorem recurseClean_iff (page : PageSize) (maps : Nat → Maps) (call : RecurseCall) :
    RecurseClean page maps call ↔
      ∀ region, findRegion page maps call.address = .ok (.ok region) → call.infoCnt ≠ submapShortInfoCount64 →
        call.info = submapInfo region := by
  unfold RecurseClean machVmRegionRecurse
  cases hfind : findRegion page maps call.address with
  | error e => simp [bind, Except.bind]
  | ok found =>
    cases found with
    | error kr =>
      simp only [bind, Except.bind, pure, Except.pure, Except.ok.injEq, Prod.mk.injEq, reduceCtorEq, false_implies,
        implies_true, iff_true]
      rintro _ _ ⟨rfl, rfl⟩
      exact ⟨fun hkr => absurd hkr (findRegion_error hfind), fun _ => ⟨rfl, rfl⟩⟩
    | ok region =>
      by_cases hcount : call.infoCnt = submapShortInfoCount64
      · simp [bind, Except.bind, pure, Except.pure, hcount]
      · simp [bind, Except.bind, pure, Except.pure, hcount]

/-- Two pages of a heap. -/
def heap : Vma :=
  { start := 0x2000, stop := 0x4000, offset := 0, prot := { read := true, write := true }, shared := false, rest := [] }

theorem heap_regular : Regular page4K [heap] where
  pos := by simp [heap]
  nonempty := by simp [heap]
  top := by simp [heap, word]
  offset := by simp [heap, word]
  alignedStart := by simp [heap, page4K, PageSize.size]
  alignedStop := by simp [heap, page4K, PageSize.size]
  sorted := List.pairwise_singleton _ _

def noInfo : BasicInfo :=
  { protection := {}, maxProtection := {}, inheritance := 0, shared := false, reserved := false, offset := 0,
    behavior := 0, userWiredCount := 0 }

/-- The heap is found from address 0, and there is nothing above it. -/
theorem heap_enumerated :
    enumerate page4K (describing [heap]) .basicInfo64 2
      { address := 0, size := 0, info := noInfo, count := 9 } = .ok ([(0x2000, 0x2000)], some .noSpace) :=
  (regions_enumerated heap_regular .basicInfo64 { address := 0, size := 0, info := noInfo, count := 9 }
    (Nat.le_refl 9)).1 rfl 2 (by decide)

end DarlingServer.Regions
