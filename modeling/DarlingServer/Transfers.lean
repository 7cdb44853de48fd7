import DarlingServer.PageRanges
/-!
# Transfers to and from the memory of a process

`process_vm_readv` and `process_vm_writev` fail or transfer some bytes from the start, and
`_readOrWriteMemory` takes everything but a failure for success. The wrappers above it,
up to `copyin` and `copyout`, hand that result on in their own conventions: a transfer that
stops at an unmapped page is a success for all of them.
-/

namespace DarlingServer.Transfers

open PageRanges

/-! ## Memory -/

abbrev Memory := Nat → UInt8

def load (memory : Memory) (address length : Nat) : List UInt8 := (List.range length).map fun i => memory (address + i)

def store (memory : Memory) (address : Nat) (bytes : List UInt8) : Memory := fun a =>
  if address ≤ a then (bytes[a - address]?).getD (memory a) else memory a

@[simp] theorem length_load (memory : Memory) (address length : Nat) :
    (load memory address length).length = length := by
  simp [load]

theorem load_store (memory : Memory) (address : Nat) (bytes : List UInt8) :
    load (store memory address bytes) address bytes.length = bytes := by
  apply List.ext_getElem
  · simp
  · intro i hi hi'
    simp [load, store, hi']

/-! ## The functions -/

/-- What `process_vm_readv` or `process_vm_writev` comes back with. -/
inductive Result where
  | failed (errno : Nat)
  | moved (count : Nat)
  deriving DecidableEq

/-- No more bytes are transferred than asked for. -/
def Result.Within (length : Nat) : Result → Prop
  | .failed _ => True
  | .moved count => count ≤ length

/-- Fewer bytes are transferred than asked for. -/
def Result.Short (length : Nat) : Result → Prop
  | .failed _ => False
  | .moved count => count < length

/-- An address space: the server's own, or that of a process. -/
structure Space where
  map : Map
  isDead : Bool := false
  memory : Memory

/-- Both sides after a transfer, and how many bytes were transferred. -/
structure Access where
  memory : Memory
  buffer : List UInt8
  moved : Nat

def ESRCH : Nat := 3

/-- `Process::_readOrWriteMemory`: its result, `errorCode` and what it has done. -/
def readOrWriteMemory (isWrite : Bool) (process : Space) (remoteAddress : Nat) (localBuffer : List UInt8)
    (result : Result) : Bool × Nat × Access :=
  if process.isDead then (false, ESRCH, ⟨process.memory, localBuffer, 0⟩)
  else
    match result with
    | .failed errno => (false, errno, ⟨process.memory, localBuffer, 0⟩)
    | .moved count =>
      (true, 0,
        if isWrite then ⟨store process.memory remoteAddress (localBuffer.take count), localBuffer, count⟩
        else ⟨process.memory, load process.memory remoteAddress count ++ localBuffer.drop count, count⟩)

def readMemory (process : Space) : Nat → List UInt8 → Result → Bool × Nat × Access := readOrWriteMemory false process

def writeMemory (process : Space) : Nat → List UInt8 → Result → Bool × Nat × Access := readOrWriteMemory true process

section

variable {isWrite : Bool} {process : Space} {address : Nat} {buffer : List UInt8} {errno count : Nat}

theorem readOrWriteMemory_dead {result : Result} (h : process.isDead = true) :
    readOrWriteMemory isWrite process address buffer result = (false, ESRCH, ⟨process.memory, buffer, 0⟩) := by
  simp [readOrWriteMemory, h]

theorem readOrWriteMemory_failed (h : process.isDead = false) :
    readOrWriteMemory isWrite process address buffer (.failed errno) = (false, errno, ⟨process.memory, buffer, 0⟩) := by
  simp [readOrWriteMemory, h]

theorem readMemory_moved (h : process.isDead = false) :
    readMemory process address buffer (.moved count) =
      (true, 0, ⟨process.memory, load process.memory address count ++ buffer.drop count, count⟩) := by
  simp [readMemory, readOrWriteMemory, h]

theorem writeMemory_moved (h : process.isDead = false) :
    writeMemory process address buffer (.moved count) =
      (true, 0, ⟨store process.memory address (buffer.take count), buffer, count⟩) := by
  simp [writeMemory, readOrWriteMemory, h]

end

/-- The conversion of a hook's answer. -/
def ofHook (answer : Bool) : PageRanges.KernReturn := if answer then .success else .failure

def copyoutmap (space : Space) (fromdata : List UInt8) (toaddr : Nat) (result : Result) :
    PageRanges.KernReturn × Access :=
  match space.map with
  | .kernel => (.success, ⟨store space.memory toaddr fromdata, fromdata, fromdata.length⟩)
  | .task =>
    let (answer, _, access) := writeMemory space toaddr fromdata result
    (ofHook answer, access)

def copyinmap (space : Space) (fromaddr : Nat) (todata : List UInt8) (result : Result) :
    PageRanges.KernReturn × Access :=
  match space.map with
  | .kernel => (.success, ⟨space.memory, load space.memory fromaddr todata.length, todata.length⟩)
  | .task =>
    let (answer, _, access) := readMemory space fromaddr todata result
    (ofHook answer, access)

/-- `copyin` from `current_map()`: 0 for success. -/
def copyin (current : Space) (userAddr : Nat) (kernelAddr : List UInt8) (result : Result) : Nat × Access :=
  let (kr, access) := copyinmap current userAddr kernelAddr result
  (if kr = .success then 0 else 1, access)

def copyout (current : Space) (kernelAddr : List UInt8) (userAddr : Nat) (result : Result) : Nat × Access :=
  let (kr, access) := copyoutmap current kernelAddr userAddr result
  (if kr = .success then 0 else 1, access)

/-! ## Whole transfers -/

/-- All bytes of the buffer were read from the remote memory. -/
def ReadWhole (space : Space) (address length : Nat) (access : Access) : Prop :=
  access.moved = length ∧ access.buffer = load space.memory address length

/-- All bytes were written to the remote memory. -/
def WroteWhole (address : Nat) (bytes : List UInt8) (access : Access) : Prop :=
  access.moved = bytes.length ∧ load access.memory address bytes.length = bytes

/-- A process is read or written that is alive, and the transfer is short. -/
def CutShort (space : Space) (length : Nat) (result : Result) : Prop :=
  space.map = .task ∧ space.isDead = false ∧ result.Short length

/-- A transfer that reports success is whole, unless it is cut short. `Whole` is what a whole
transfer has done. -/
theorem readOrWriteMemory_whole_iff {isWrite : Bool} {process : Space} {address : Nat} {buffer : List UInt8}
    {result : Result} (h : result.Within buffer.length) {Whole : Access → Prop}
    (hmoved : ∀ access, Whole access → access.moved = buffer.length)
    (hwhole : process.isDead = false →
      Whole (readOrWriteMemory isWrite process address buffer (.moved buffer.length)).2.2) :
    ((readOrWriteMemory isWrite process address buffer result).1 = true →
      Whole (readOrWriteMemory isWrite process address buffer result).2.2) ↔
    ¬ (process.isDead = false ∧ result.Short buffer.length) := by
  cases hdead : process.isDead with
  | true => simp [readOrWriteMemory, hdead]
  | false =>
    cases result with
    | failed errno => simp [readOrWriteMemory, hdead, Result.Short]
    | moved count =>
      have hle : count ≤ buffer.length := h
      simp only [Result.Short, true_and, Nat.not_lt]
      constructor
      · intro himp
        have hcount := hmoved _ (himp (by simp [readOrWriteMemory, hdead]))
        cases isWrite <;>
          simp only [readOrWriteMemory, hdead, Bool.false_eq_true, if_false, if_true] at hcount <;> omega
      · intro hge _
        obtain rfl : count = buffer.length := by omega
        exact hwhole hdead

theorem readMemory_whole_iff {process : Space} {address : Nat} {buffer : List UInt8} {result : Result}
    (h : result.Within buffer.length) :
    ((readMemory process address buffer result).1 = true →
      ReadWhole process address buffer.length (readMemory process address buffer result).2.2) ↔
    ¬ (process.isDead = false ∧ result.Short buffer.length) :=
  readOrWriteMemory_whole_iff h (fun _ hread => hread.1) fun hdead => by
    simp [readOrWriteMemory, hdead, ReadWhole]

theorem writeMemory_whole_iff {process : Space} {address : Nat} {buffer : List UInt8} {result : Result}
    (h : result.Within buffer.length) :
    ((writeMemory process address buffer result).1 = true →
      WroteWhole address buffer (writeMemory process address buffer result).2.2) ↔
    ¬ (process.isDead = false ∧ result.Short buffer.length) :=
  readOrWriteMemory_whole_iff h (fun _ hwrote => hwrote.1) fun hdead => by
    simp [readOrWriteMemory, hdead, WroteWhole, load_store]

theorem ofHook_eq_success (answer : Bool) : ofHook answer = .success ↔ answer = true := by
  cases answer <;> simp [ofHook]

theorem copyinmap_whole_iff {space : Space} {address : Nat} {buffer : List UInt8} {result : Result}
    (h : result.Within buffer.length) :
    ((copyinmap space address buffer result).1 = .success →
      ReadWhole space address buffer.length (copyinmap space address buffer result).2) ↔
    ¬ CutShort space buffer.length result := by
  unfold copyinmap CutShort
  cases hmap : space.map with
  | kernel => simp [ReadWhole]
  | task =>
    simp only [ofHook_eq_success, true_and]
    exact readMemory_whole_iff h

theorem copyoutmap_whole_iff {space : Space} {address : Nat} {buffer : List UInt8} {result : Result}
    (h : result.Within buffer.length) :
    ((copyoutmap space buffer address result).1 = .success →
      WroteWhole address buffer (copyoutmap space buffer address result).2) ↔
    ¬ CutShort space buffer.length result := by
  unfold copyoutmap CutShort
  cases hmap : space.map with
  | kernel => simp [WroteWhole, load_store]
  | task =>
    simp only [ofHook_eq_success, true_and]
    exact writeMemory_whole_iff h

theorem copyin_eq_zero (current : Space) (address : Nat) (buffer : List UInt8) (result : Result) :
    (copyin current address buffer result).1 = 0 ↔ (copyinmap current address buffer result).1 = .success := by
  simp [copyin]

theorem copyout_eq_zero (current : Space) (address : Nat) (buffer : List UInt8) (result : Result) :
    (copyout current buffer address result).1 = 0 ↔ (copyoutmap current buffer address result).1 = .success := by
  simp [copyout]

end DarlingServer.Transfers
