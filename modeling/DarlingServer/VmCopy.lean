import DarlingServer.Transfers
/-!
# Copies of memory

`vm_map_copyin` makes a copy object with the bytes it has read, and the functions that copy
it out free it when they succeed. So the callers free it themselves when they fail, and those
that have allocated pages for it in the target give these back.

* `transfers_complete_iff`: which of the functions, down to `readMemory` and `writeMemory`,
  report success for a transfer that is not complete. All of them do, for the short transfers.
* `copies_freed_once`: each copy object is freed once, and what failed leaves no pages behind.
-/

namespace DarlingServer.VmCopy

open PageRanges Transfers

/-! ## What happens on the way -/

/-- The arguments of `task_allocate_pages`. -/
structure AllocateArgs where
  pageCount : Nat
  prot : Prot
  addressHint : Nat := 0
  fixed : Bool := false
  overwrite : Bool := false
  deriving DecidableEq

inductive Event where
  /-- A copy object is allocated. -/
  | malloc
  | free
  /-- Pages are allocated in a task, at `address`. -/
  | allocatePages (args : AllocateArgs) (address : Nat)
  /-- Pages are allocated in the server itself. -/
  | mmap (address length : Nat)
  | request (r : Request)
  deriving DecidableEq

/-- Where pages were allocated: at the start of a page, and not at zero, which the hook
uses for a failure. -/
structure PageAddress (page : PageSize) where
  address : Nat
  pos : 0 < address
  lt : address < word
  aligned : page.size ∣ address

/-- What comes back on the way: from `malloc`, with what the memory holds, from the two
transfers, from the allocation of pages and from their release. -/
structure Outcomes (page : PageSize) where
  fresh : Option Memory
  read : Result
  allocate : Option (PageAddress page)
  write : Result
  removed : Bool

/-- A `vm_map_copy` of type `VM_MAP_COPY_KERNEL_BUFFER`; `moved` records how many of its
bytes were transferred. -/
structure Copy where
  size : Nat
  kdata : List UInt8
  moved : Nat

variable {page : PageSize}

/-! ## The functions -/

def vmMapCopyDiscard (copy : Option Copy) : List Event := if copy.isSome then [.free] else []

def vmMapCopyinCommon (src : Space) (srcAddr len : Nat) (srcDestroy : Bool) (o : Outcomes page) :
    PageRanges.KernReturn × Option Copy × List Event :=
  match o.fresh with
  | none => (.resourceShortage, none, [])
  | some fresh =>
    let (kr, access) := copyinmap src srcAddr (load fresh 0 len) o.read
    if kr ≠ .success then (kr, none, [.malloc, .free])
    else
      let removal := vmMapRemove page src.map (vmMapTruncPage page srcAddr)
        (vmMapRoundPage page (Pages.add word srcAddr len)) o.removed
      (.success, some { size := len, kdata := access.buffer, moved := access.moved },
        .malloc :: if srcDestroy then removal.2.map Event.request else [])

/-- `vm_map_copyin`, without `use_maxprot`, which is not looked at. -/
def vmMapCopyin (src : Space) (srcAddr len : Nat) (srcDestroy : Bool) (o : Outcomes page) :
    PageRanges.KernReturn × Option Copy × List Event :=
  vmMapCopyinCommon src srcAddr len srcDestroy o

structure CopiedOut where
  kr : PageRanges.KernReturn
  addr : Nat
  access : Access
  events : List Event

/-- `MAP_FAILED`. -/
def mapFailed : Nat := word - 1

/-- `vm_map_copyout_kernel_buffer` once there is somewhere to copy to. -/
def copyOutTo (dst : Space) (addr : Nat) (copy : Copy) (copySize : Nat) (overwrite consumeOnSuccess : Bool)
    (o : Outcomes page) : CopiedOut :=
  let (kr, access) := copyoutmap dst (copy.kdata.take copySize) addr o.write
  if kr ≠ .success then
    if overwrite then { kr := .invalidAddress, addr, access, events := [] }
    else
      let removal := vmMapRemove page dst.map (vmMapTruncPage page addr)
        (vmMapRoundPage page (Pages.add word addr (vmMapRoundPage page copySize))) o.removed
      { kr := .invalidAddress, addr := 0, access, events := removal.2.map Event.request }
  else { kr := .success, addr, access, events := if consumeOnSuccess then [.free] else [] }

def vmMapCopyoutKernelBuffer (dst : Space) (addr : Nat) (copy : Copy) (copySize : Nat)
    (overwrite consumeOnSuccess : Bool) (o : Outcomes page) : CopiedOut :=
  if overwrite then copyOutTo dst addr copy copySize true consumeOnSuccess o
  else
    match o.allocate, dst.map with
    | none, map =>
      { kr := .resourceShortage
        addr := match map with | .kernel => mapFailed | .task => 0
        access := ⟨dst.memory, copy.kdata, 0⟩
        events := [] }
    | some pages, map =>
      let args : AllocateArgs := { pageCount := byteCountToPageCountRoundUp page copySize
                                   prot := { read := true, write := true } }
      let out := copyOutTo dst pages.address copy copySize false consumeOnSuccess o
      { out with
        events :=
          (match map with
            | .kernel => .mmap pages.address copySize
            | .task => .allocatePages args pages.address) :: out.events }

def vmMapCopyOverwrite (dst : Space) (dstAddr : Nat) (copy : Option Copy) (o : Outcomes page) : CopiedOut :=
  match copy with
  | none => { kr := .success, addr := dstAddr, access := ⟨dst.memory, [], 0⟩, events := [] }
  | some copy => vmMapCopyoutKernelBuffer dst dstAddr copy copy.size true true o

def vmMapCopyoutSize (dst : Space) (dstAddr : Nat) (copy : Option Copy) (copySize : Nat) (o : Outcomes page) :
    CopiedOut :=
  match copy with
  | none => { kr := .success, addr := 0, access := ⟨dst.memory, [], 0⟩, events := [] }
  | some copy =>
    if copy.size ≠ copySize then { kr := .failure, addr := 0, access := ⟨dst.memory, copy.kdata, 0⟩, events := [] }
    else vmMapCopyoutKernelBuffer dst dstAddr copy copySize false true o

def vmMapCopyout (dst : Space) (dstAddr : Nat) (copy : Option Copy) (o : Outcomes page) : CopiedOut :=
  vmMapCopyoutSize dst dstAddr copy ((copy.map (·.size)).getD 0) o

/-- What `mach_vm_copy` and `mach_vm_read_overwrite` share. -/
def copyThrough (src : Space) (srcAddr size : Nat) (dst : Space) (dstAddr : Nat) (o : Outcomes page) :
    PageRanges.KernReturn × List Event :=
  match vmMapCopyin src srcAddr size false o with
  | (.success, copy, events) =>
    let out := vmMapCopyOverwrite dst dstAddr copy o
    (out.kr, events ++ out.events ++ if out.kr ≠ .success then vmMapCopyDiscard copy else [])
  | (kr, _, events) => (kr, events)

def machVmCopy (map : Option Space) (sourceAddress size destAddress : Nat) (o : Outcomes page) :
    PageRanges.KernReturn × List Event :=
  match map with
  | none => (.invalidArgument, [])
  | some map => copyThrough map sourceAddress size map destAddress o

/-- `mach_vm_read_overwrite`, into the map of the current thread, and its `data_size`. -/
def machVmReadOverwrite (map : Option Space) (current : Space) (address size data dataSize : Nat)
    (o : Outcomes page) : PageRanges.KernReturn × List Event × Nat :=
  match map with
  | none => (.invalidArgument, [], dataSize)
  | some map =>
    let (kr, events) := copyThrough map address size current data o
    (kr, events, if kr = .success then size else dataSize)

/-- The flags of a remap. -/
structure RemapFlags where
  anywhere : Bool
  overwrite : Bool
  deriving DecidableEq

structure Remapped where
  kr : PageRanges.KernReturn
  address : Nat
  curProtection : Option Prot
  maxProtection : Option Prot
  events : List Event

/-- The allocation in the target. -/
def remapArgs (page : PageSize) (address size : Nat) (flags : RemapFlags) : AllocateArgs where
  pageCount := byteCountToPageCountRoundUp page size
  prot := { read := true, write := true, execute := true }
  addressHint := if flags.anywhere then 0 else address
  fixed := !flags.anywhere
  overwrite := flags.overwrite

/-- `mach_vm_remap_external` with `copy`. -/
def machVmRemapExternalCopy (target : Space) (address size : Nat) (flags : RemapFlags) (src : Space)
    (memoryAddress : Nat) (o : Outcomes page) : Remapped :=
  match vmMapCopyin src memoryAddress size false o with
  | (.success, memCopy, events) =>
    match o.allocate with
    | none =>
      { kr := .resourceShortage, address, curProtection := none, maxProtection := none,
        events := events ++ vmMapCopyDiscard memCopy }
    | some pages =>
      let out := vmMapCopyOverwrite target pages.address memCopy o
      let events := events ++ [Event.allocatePages (remapArgs page address size flags) pages.address] ++ out.events
      if out.kr ≠ .success then
        { kr := out.kr, address, curProtection := none, maxProtection := none
          events := events ++ vmMapCopyDiscard memCopy ++
            [Event.request (.freePages pages.address (byteCountToPageCountRoundUp page size))] }
      else
        { kr := .success, address := pages.address, curProtection := some { read := true, write := true }
          maxProtection := some { read := true, write := true, execute := true }, events }
  | (kr, _, events) => { kr, address, curProtection := none, maxProtection := none, events }

/-! ## Complete transfers -/

/-- `vm_map_copyin` fails and has freed what it allocated, or returns the copy it made. -/
theorem vmMapCopyin_cases (src : Space) (srcAddr len : Nat) (o : Outcomes page) :
    (∃ kr events, vmMapCopyin src srcAddr len false o = (kr, none, events) ∧ kr ≠ .success ∧
      (events = [] ∨ events = [.malloc, .free])) ∨
    ∃ fresh access, o.fresh = some fresh ∧ copyinmap src srcAddr (load fresh 0 len) o.read = (.success, access) ∧
      vmMapCopyin src srcAddr len false o =
        (.success, some { size := len, kdata := access.buffer, moved := access.moved }, [.malloc]) := by
  cases hfresh : o.fresh with
  | none => exact .inl ⟨.resourceShortage, [], by simp [vmMapCopyin, vmMapCopyinCommon, hfresh], by simp, .inl rfl⟩
  | some fresh =>
    cases hcopy : copyinmap src srcAddr (load fresh 0 len) o.read with
    | mk kr access =>
      by_cases hkr : kr = .success
      · subst hkr
        exact .inr ⟨fresh, access, rfl, hcopy, by simp [vmMapCopyin, vmMapCopyinCommon, hfresh, hcopy]⟩
      · exact .inl ⟨kr, [.malloc, .free], by simp [vmMapCopyin, vmMapCopyinCommon, hfresh, hcopy, hkr], hkr, .inr rfl⟩

/-- A copy made by `vm_map_copyin` has all the bytes, unless the transfer was cut short. -/
theorem vmMapCopyin_whole_iff {src : Space} {srcAddr len : Nat} {srcDestroy : Bool} {o : Outcomes page}
    (h : o.read.Within len) :
    (∀ copy events, vmMapCopyin src srcAddr len srcDestroy o = (.success, some copy, events) →
      copy.size = len ∧ copy.moved = len ∧ copy.kdata = load src.memory srcAddr len) ↔
    ¬ (o.fresh ≠ none ∧ CutShort src len o.read) := by
  have hwhole : ∀ fresh, ((copyinmap src srcAddr (load fresh 0 len) o.read).1 = .success →
      ReadWhole src srcAddr len (copyinmap src srcAddr (load fresh 0 len) o.read).2) ↔ ¬ CutShort src len o.read := by
    intro fresh
    have := @copyinmap_whole_iff src srcAddr (load fresh 0 len) o.read
    rw [length_load] at this
    exact this h
  cases hfresh : o.fresh with
  | none => simp [vmMapCopyin, vmMapCopyinCommon, hfresh]
  | some fresh =>
    simp only [ne_eq, reduceCtorEq, not_false_eq_true, true_and]
    rw [← hwhole fresh]
    cases hcopy : copyinmap src srcAddr (load fresh 0 len) o.read with
    | mk kr access =>
      by_cases hkr : kr = .success
      · subst hkr
        simp [vmMapCopyin, vmMapCopyinCommon, hfresh, hcopy, ReadWhole]
      · simp [vmMapCopyin, vmMapCopyinCommon, hfresh, hcopy, hkr]

theorem vmMapCopyOverwrite_some (dst : Space) (dstAddr : Nat) (copy : Copy) (o : Outcomes page) :
    vmMapCopyOverwrite dst dstAddr (some copy) o = copyOutTo dst dstAddr copy copy.size true true o := rfl

theorem copyOutTo_success_iff {dst : Space} {addr : Nat} {copy : Copy} {copySize : Nat} {overwrite consume : Bool}
    {o : Outcomes page} :
    (copyOutTo dst addr copy copySize overwrite consume o).kr = .success ↔
      (copyoutmap dst (copy.kdata.take copySize) addr o.write).1 = .success := by
  cases hcopy : copyoutmap dst (copy.kdata.take copySize) addr o.write with
  | mk kr access => by_cases hkr : kr = .success <;> cases overwrite <;> simp [copyOutTo, hcopy, hkr]

theorem copyOutTo_access (dst : Space) (addr : Nat) (copy : Copy) (copySize : Nat) (overwrite consume : Bool)
    (o : Outcomes page) :
    (copyOutTo dst addr copy copySize overwrite consume o).access =
      (copyoutmap dst (copy.kdata.take copySize) addr o.write).2 := by
  cases hcopy : copyoutmap dst (copy.kdata.take copySize) addr o.write with
  | mk kr access => by_cases hkr : kr = .success <;> cases overwrite <;> simp [copyOutTo, hcopy, hkr]

theorem vmMapCopyOverwrite_whole_iff {dst : Space} {dstAddr : Nat} {copy : Copy} {o : Outcomes page}
    (hsize : copy.size = copy.kdata.length) (h : o.write.Within copy.kdata.length) :
    ((vmMapCopyOverwrite dst dstAddr (some copy) o).kr = .success →
      WroteWhole dstAddr copy.kdata (vmMapCopyOverwrite dst dstAddr (some copy) o).access) ↔
    ¬ CutShort dst copy.kdata.length o.write := by
  rw [vmMapCopyOverwrite_some, copyOutTo_success_iff, copyOutTo_access, hsize, List.take_length]
  exact copyoutmap_whole_iff h

/-- Every one of the functions reports success for a complete transfer only, exactly if the
transfer is not cut short: if the process is dead, if the transfer fails or if all bytes are
transferred. Transfers within the server are never cut short. -/
theorem transfers_complete_iff (space : Space) (address : Nat) (buffer : List UInt8) (result : Result)
    (h : result.Within buffer.length) (srcDestroy : Bool) (o : Outcomes page) (hread : o.read = result)
    (hwrite : o.write = result) :
    (((readMemory space address buffer result).1 = true →
        ReadWhole space address buffer.length (readMemory space address buffer result).2.2) ↔
      ¬ (space.isDead = false ∧ result.Short buffer.length)) ∧
    (((writeMemory space address buffer result).1 = true →
        WroteWhole address buffer (writeMemory space address buffer result).2.2) ↔
      ¬ (space.isDead = false ∧ result.Short buffer.length)) ∧
    (((copyinmap space address buffer result).1 = .success →
        ReadWhole space address buffer.length (copyinmap space address buffer result).2) ↔
      ¬ CutShort space buffer.length result) ∧
    (((copyoutmap space buffer address result).1 = .success →
        WroteWhole address buffer (copyoutmap space buffer address result).2) ↔
      ¬ CutShort space buffer.length result) ∧
    (((copyin space address buffer result).1 = 0 →
        ReadWhole space address buffer.length (copyin space address buffer result).2) ↔
      ¬ CutShort space buffer.length result) ∧
    (((copyout space buffer address result).1 = 0 →
        WroteWhole address buffer (copyout space buffer address result).2) ↔
      ¬ CutShort space buffer.length result) ∧
    ((∀ copy events, vmMapCopyin space address buffer.length srcDestroy o = (.success, some copy, events) →
        copy.size = buffer.length ∧ copy.moved = buffer.length ∧
          copy.kdata = load space.memory address buffer.length) ↔
      ¬ (o.fresh ≠ none ∧ CutShort space buffer.length result)) ∧
    (∀ moved, ((vmMapCopyOverwrite space address (some ⟨buffer.length, buffer, moved⟩) o).kr = .success →
        WroteWhole address buffer (vmMapCopyOverwrite space address (some ⟨buffer.length, buffer, moved⟩) o).access) ↔
      ¬ CutShort space buffer.length result) := by
  refine ⟨readMemory_whole_iff h, writeMemory_whole_iff h, copyinmap_whole_iff h, copyoutmap_whole_iff h, ?_, ?_, ?_,
    fun moved => ?_⟩
  · rw [copyin_eq_zero]
    exact copyinmap_whole_iff h
  · rw [copyout_eq_zero]
    exact copyoutmap_whole_iff h
  · rw [← hread] at h ⊢
    exact vmMapCopyin_whole_iff h
  · rw [← hwrite] at h ⊢
    have hsize : (⟨buffer.length, buffer, moved⟩ : Copy).size = buffer.length := rfl
    exact vmMapCopyOverwrite_whole_iff hsize h

/-- Three bytes are read and all of them are transferred. -/
theorem transfers_complete_of_three :
    let process : Space := { map := .task, memory := fun a => UInt8.ofNat a }
    (copyin process 7 [0, 0, 0] (.moved 3)).1 = 0 ∧
      ReadWhole process 7 3 (copyin process 7 [0, 0, 0] (.moved 3)).2 := by
  intro process
  have hlaw := @transfers_complete_iff page4K process 7 [0, 0, 0] (.moved 3) (Nat.le_refl 3) false
    ⟨none, .moved 3, none, .moved 3, true⟩ rfl rfl
  have hnot : ¬ CutShort process 3 (.moved 3) := fun h => absurd h.2.2 (Nat.lt_irrefl 3)
  exact ⟨rfl, hlaw.2.2.2.2.1.2 hnot rfl⟩

/-- One byte of three is read and the others stay what they were; the read succeeds all the
way up. -/
theorem short_read_succeeds :
    let process : Space := { map := .task, memory := fun _ => 1 }
    let o : Outcomes page4K := ⟨some fun _ => 9, .moved 1, none, .moved 1, true⟩
    readMemory process 0x1fff [9, 9, 9] (.moved 1) = (true, 0, ⟨process.memory, [1, 9, 9], 1⟩) ∧
    (copyin process 0x1fff [9, 9, 9] (.moved 1)).1 = 0 ∧
    vmMapCopyin process 0x1fff 3 false o = (.success, some ⟨3, [1, 9, 9], 1⟩, [.malloc]) ∧
    load process.memory 0x1fff 3 = [1, 1, 1] :=
  ⟨rfl, rfl, rfl, rfl⟩

/-! ## Copies and pages -/

def Event.allocated (page : PageSize) : Event → List (Nat × Nat)
  | .allocatePages args address => [(address, args.pageCount)]
  | .mmap address length => [(address, Pages.ceil page.size length)]
  | _ => []

def Event.released (page : PageSize) : Event → List (Nat × Nat)
  | .request r => [r.pages page]
  | _ => []

/-- The copy object, if there is one, is freed once. -/
def FreedOnce (events : List Event) : Prop :=
  events.count .malloc ≤ 1 ∧ events.count .free = events.count .malloc

/-- All pages that were allocated, and no others, are given back. -/
def NothingLeft (page : PageSize) (events : List Event) : Prop :=
  events.flatMap (Event.released page) = events.flatMap (Event.allocated page)

/-- What `vm_map_remove` gives back after a failed copy is what was allocated for it. -/
theorem vmMapRemove_allocated (pages : PageAddress page) (size : Nat) (granted : Bool) :
    (vmMapRemove page .task (vmMapTruncPage page pages.address)
      (vmMapRoundPage page (Pages.add word pages.address (vmMapRoundPage page size))) granted).2 =
      [.freePages pages.address (byteCountToPageCountRoundUp page size)] := by
  have hround : page.size ∣ vmMapRoundPage page size := by
    rw [vmMapRoundPage_eq]
    exact Nat.dvd_of_mod_eq_zero (Pages.trunc_mod _ _)
  have hlt : vmMapRoundPage page size < word := by
    rw [vmMapRoundPage_eq]
    exact lt_of_le_of_lt (Pages.trunc_le _ _) (Nat.mod_lt _ (by decide))
  have hadd : page.size ∣ Pages.add word pages.address (vmMapRoundPage page size) :=
    (Nat.dvd_mod_iff page.dvd_word).2 (Nat.dvd_add pages.aligned hround)
  have hstop := Pages.round_of_dvd page.pos page.dvd_word hadd (Nat.mod_lt _ (by decide))
  simp only [vmMapRemove, vmMapRoundPage_eq page (Pages.add _ _ _), hstop, vmMapTruncPage_eq page pages.lt,
    Pages.trunc_of_dvd pages.aligned, Pages.sub_add pages.lt, Nat.mod_eq_of_lt hlt]
  rw [vmMapRoundPage_eq, Pages.round, Pages.trunc, byteCountToPageCountRoundDown, Nat.mul_div_cancel _ page.pos]
  rfl

/-- Copying over memory that is there frees the copy if it succeeds. -/
theorem copyOutTo_overwrite_events (dst : Space) (addr : Nat) (copy : Copy) (copySize : Nat) (o : Outcomes page) :
    (copyOutTo dst addr copy copySize true true o).events =
      if (copyOutTo dst addr copy copySize true true o).kr = .success then [.free] else [] := by
  cases hcopy : copyoutmap dst (copy.kdata.take copySize) addr o.write with
  | mk kr access => by_cases hkr : kr = .success <;> simp [copyOutTo, hcopy, hkr]

theorem copyThrough_events (src : Space) (srcAddr size : Nat) (dst : Space) (dstAddr : Nat) (o : Outcomes page) :
    (copyThrough src srcAddr size dst dstAddr o).2 = [] ∨
      (copyThrough src srcAddr size dst dstAddr o).2 = [.malloc, .free] := by
  rcases vmMapCopyin_cases src srcAddr size o with ⟨kr, events, heq, hkr, hevents⟩ | ⟨fresh, access, -, -, heq⟩
  · have hfail : copyThrough src srcAddr size dst dstAddr o = (kr, events) := by
      simp only [copyThrough, heq]
    rw [hfail]
    exact hevents
  · -- the copy is freed on the way out, or by the caller if that has failed
    simp only [copyThrough, heq, vmMapCopyOverwrite_some, copyOutTo_overwrite_events, vmMapCopyDiscard]
    by_cases hkr : (copyOutTo dst dstAddr ⟨size, access.buffer, access.moved⟩ size true true o).kr = .success
    · simp [hkr]
    · simp [hkr]

/-- The ways `mach_vm_remap_external` can go. -/
theorem machVmRemapExternalCopy_cases (target : Space) (address size : Nat) (flags : RemapFlags) (src : Space)
    (memoryAddress : Nat) (o : Outcomes page) :
    let r := machVmRemapExternalCopy target address size flags src memoryAddress o
    (r.kr ≠ .success ∧ r.address = address ∧ (r.events = [] ∨ r.events = [.malloc, .free])) ∨
    ∃ pages : PageAddress page,
      (r.kr ≠ .success ∧ r.address = address ∧
        r.events = [.malloc, .allocatePages (remapArgs page address size flags) pages.address, .free,
          .request (.freePages pages.address (byteCountToPageCountRoundUp page size))]) ∨
      (r.kr = .success ∧ r.address = pages.address ∧
        r.events = [.malloc, .allocatePages (remapArgs page address size flags) pages.address, .free]) := by
  intro r
  rcases vmMapCopyin_cases src memoryAddress size o with ⟨kr, events, heq, hkr, hevents⟩ | ⟨fresh, access, -, -, heq⟩
  · have hfail : r = { kr, address, curProtection := none, maxProtection := none, events } := by
      simp only [r, machVmRemapExternalCopy, heq]
    rw [hfail]
    exact .inl ⟨hkr, rfl, hevents⟩
  · cases hpages : o.allocate with
    | none =>
      refine .inl ⟨?_, ?_, .inr ?_⟩ <;> simp [r, machVmRemapExternalCopy, heq, hpages, vmMapCopyDiscard]
    | some pages =>
      refine .inr ⟨pages, ?_⟩
      have hevents := copyOutTo_overwrite_events target pages.address ⟨size, access.buffer, access.moved⟩ size o
      by_cases hkr : (copyOutTo target pages.address ⟨size, access.buffer, access.moved⟩ size true true o).kr = .success
      · rw [if_pos hkr] at hevents
        refine .inr ⟨?_, ?_, ?_⟩ <;>
          simp [r, machVmRemapExternalCopy, heq, hpages, vmMapCopyOverwrite_some, hevents, hkr]
      · rw [if_neg hkr] at hevents
        refine .inl ⟨?_, ?_, ?_⟩ <;>
          simp [r, machVmRemapExternalCopy, heq, hpages, vmMapCopyOverwrite_some, hevents, hkr, vmMapCopyDiscard]

/-- `vm_map_copyout` frees a copy exactly if it succeeds. If it fails, it has given back the
pages it allocated and does not return their address. -/
theorem vmMapCopyout_spec (dst : Space) (dstAddr : Nat) (copy : Copy) (o : Outcomes page) :
    let out := vmMapCopyout dst dstAddr (some copy) o
    out.events.count .free = (if out.kr = .success then 1 else 0) ∧
    (out.kr ≠ .success → NothingLeft page out.events ∧
      ∀ a n, (a, n) ∈ out.events.flatMap (Event.allocated page) → out.addr ≠ a) := by
  intro out
  have hout : out = vmMapCopyoutKernelBuffer dst dstAddr copy copy.size false true o := by
    simp [out, vmMapCopyout, vmMapCopyoutSize]
  cases hpages : o.allocate with
  | none => cases hmap : dst.map <;> simp [hout, vmMapCopyoutKernelBuffer, hpages, hmap, NothingLeft]
  | some pages =>
    have hremove := vmMapRemove_allocated pages copy.size o.removed
    cases hcopy : copyoutmap dst (copy.kdata.take copy.size) pages.address o.write with
    | mk kr access =>
      by_cases hkr : kr = .success
      · cases hmap : dst.map <;> simp [hout, vmMapCopyoutKernelBuffer, hpages, hmap, copyOutTo, hcopy, hkr]
      · cases hmap : dst.map with
        | kernel =>
          -- copying within the server does not fail
          simp only [copyoutmap, hmap, Prod.mk.injEq] at hcopy
          exact absurd hcopy.1.symm hkr
        | task =>
          simpa [hout, vmMapCopyoutKernelBuffer, hpages, copyOutTo, hcopy, hkr, hremove, hmap, NothingLeft,
            Event.allocated, Event.released, Request.pages] using pages.pos.ne

/-- A copy object is freed once, whether the operation that made it succeeds or fails, and
the functions that copy it out free it exactly if they succeed. An operation that fails has
given back the pages it allocated in the target, and no others, and does not return their
address. -/
theorem copies_freed_once (o : Outcomes page) (map : Option Space) (src dst : Space) (copy : Copy)
    (address size target dataSize : Nat) (flags : RemapFlags) :
    FreedOnce (machVmCopy map address size target o).2 ∧
    FreedOnce (machVmReadOverwrite map dst address size target dataSize o).2.1 ∧
    FreedOnce (machVmRemapExternalCopy dst target size flags src address o).events ∧
    ((vmMapCopyout dst target (some copy) o).events.count .free =
      if (vmMapCopyout dst target (some copy) o).kr = .success then 1 else 0) ∧
    ((vmMapCopyOverwrite dst target (some copy) o).events.count .free =
      if (vmMapCopyOverwrite dst target (some copy) o).kr = .success then 1 else 0) ∧
    NothingLeft page (machVmCopy map address size target o).2 ∧
    NothingLeft page (machVmReadOverwrite map dst address size target dataSize o).2.1 ∧
    ((machVmRemapExternalCopy dst target size flags src address o).kr ≠ .success →
      NothingLeft page (machVmRemapExternalCopy dst target size flags src address o).events ∧
        (machVmRemapExternalCopy dst target size flags src address o).address = target) ∧
    ((vmMapCopyout dst target (some copy) o).kr ≠ .success →
      NothingLeft page (vmMapCopyout dst target (some copy) o).events ∧
        ∀ a n, (a, n) ∈ (vmMapCopyout dst target (some copy) o).events.flatMap (Event.allocated page) →
          (vmMapCopyout dst target (some copy) o).addr ≠ a) ∧
    NothingLeft page (vmMapCopyOverwrite dst target (some copy) o).events := by
  have hfreed : ∀ events : List Event, events = [] ∨ events = [.malloc, .free] →
      FreedOnce events ∧ NothingLeft page events := by
    rintro events (rfl | rfl) <;> simp [FreedOnce, NothingLeft, Event.allocated, Event.released]
  have hcopy := hfreed (machVmCopy map address size target o).2 (by
    cases map with
    | none => exact .inl rfl
    | some map => exact copyThrough_events map address size map target o)
  have hread := hfreed (machVmReadOverwrite map dst address size target dataSize o).2.1 (by
    cases map with
    | none => exact .inl rfl
    | some map => exact copyThrough_events map address size dst target o)
  have hout := vmMapCopyout_spec dst target copy o
  have hover := copyOutTo_overwrite_events dst target copy copy.size o
  have hremap : FreedOnce (machVmRemapExternalCopy dst target size flags src address o).events ∧
      ((machVmRemapExternalCopy dst target size flags src address o).kr ≠ .success →
        NothingLeft page (machVmRemapExternalCopy dst target size flags src address o).events ∧
          (machVmRemapExternalCopy dst target size flags src address o).address = target) := by
    rcases machVmRemapExternalCopy_cases dst target size flags src address o with
      ⟨-, haddr, hevents⟩ | ⟨pages, ⟨-, haddr, hevents⟩ | ⟨hkr, -, hevents⟩⟩
    · exact ⟨(hfreed _ hevents).1, fun _ => ⟨(hfreed _ hevents).2, haddr⟩⟩
    · rw [hevents]
      refine ⟨by simp [FreedOnce], fun _ => ⟨?_, haddr⟩⟩
      simp [NothingLeft, Event.allocated, Event.released, Request.pages, remapArgs]
    · rw [hevents]
      exact ⟨by simp [FreedOnce], fun h => absurd hkr h⟩
  refine ⟨hcopy.1, hread.1, hremap.1, hout.1, ?_, hcopy.2, hread.2, hremap.2, hout.2, ?_⟩
  · rw [vmMapCopyOverwrite_some, hover]
    split <;> rfl
  · rw [vmMapCopyOverwrite_some, hover]
    split <;> rfl

end DarlingServer.VmCopy
