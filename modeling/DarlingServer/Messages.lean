import Mathlib.Data.List.GetD
import Mathlib.Data.List.Perm.Basic
import DarlingServer.Lib.Crowd
import DarlingServer.Lib.Runs
import DarlingServer.Wrappers
/-!
# The descriptors of a message

A `Message` has its credentials and its descriptors in one control buffer. The
descriptors are slots with holes, `-1` for a slot that is free. The buffer is
allocated anew when a credentials header has to go in and when a descriptor finds
no free slot, and in the second case the slots before the new one are not copied.

* `Laws`: what each operation does to the descriptors and to the credentials, for
  every content of the buffer. A push that must grow the array is the only one that
  breaks its law, and it does whenever there was a descriptor before.
* `step`: messages that are made, moved, operated on and destroyed. As long as no
  push grows an array that has slots, each descriptor given to a message is held by
  one message, was returned once or was closed once.
-/

namespace DarlingServer.Messages

open Runs Wrappers

/-! ## The control buffer -/

structure Ucred where
  pid : Int
  uid : Nat
  gid : Nat
  deriving DecidableEq

inductive Cmsg where
  | credentials (creds : Ucred)
  | rights (slots : List Int)
  deriving DecidableEq

/-- The headers in the buffer, first to last. -/
abbrev Control := List Cmsg

/-- What `_credentialsHeader` finds, as `copyCredentialsOut` copies it. -/
def copyCredentialsOut : Control → Option Ucred
  | [] => none
  | .credentials creds :: _ => some creds
  | .rights _ :: control => copyCredentialsOut control

/-- The slots of what `_descriptorHeader` finds; without such a header `_descriptorSpace`
is 0. -/
def descriptorSlots : Control → List Int
  | [] => []
  | .rights slots :: _ => slots
  | .credentials _ :: control => descriptorSlots control

def descriptors (control : Control) : List Int := present (descriptorSlots control)

/-- `memcpy` to the data of `_credentialsHeader`. -/
def writeCredentials (creds : Ucred) : Control → Control
  | [] => []
  | .credentials _ :: control => .credentials creds :: control
  | .rights slots :: control => .rights slots :: writeCredentials creds control

/-- `memcpy` to the slots of `_descriptorHeader`. -/
def writeSlots (slots : List Int) : Control → Control
  | [] => []
  | .rights _ :: control => .rights slots :: control
  | .credentials creds :: control => .credentials creds :: writeSlots slots control

/-- The constructor; `own` is what `getpid`, `getuid` and `getgid` return. -/
def construct (own : Ucred) (descriptorSpace : Nat) : Control :=
  .credentials own :: if 0 < descriptorSpace then [.rights (List.replicate descriptorSpace (-1))] else []

def ensureCredentialsHeader (own : Ucred) (control : Control) : Control :=
  match copyCredentialsOut control with
  | some _ => control
  | none =>
    .credentials own ::
      if 0 < (descriptorSlots control).length then [.rights (descriptorSlots control)] else []

def copyCredentialsIn (own creds : Ucred) (control : Control) : Control :=
  writeCredentials creds (ensureCredentialsHeader own control)

/-- What `setPID`, `setUID` and `setGID` share. -/
def changeCredentials (own : Ucred) (change : Ucred → Ucred) (control : Control) : Control :=
  let ensured := ensureCredentialsHeader own control
  match copyCredentialsOut ensured with
  | some creds => copyCredentialsIn own (change creds) ensured
  | none => ensured

def setPID (own : Ucred) (pid : Int) : Control → Control := changeCredentials own fun creds => { creds with pid }

def setUID (own : Ucred) (uid : Nat) : Control → Control := changeCredentials own fun creds => { creds with uid }

def setGID (own : Ucred) (gid : Nat) : Control → Control := changeCredentials own fun creds => { creds with gid }

/-- `_ensureDescriptorHeader`; of the old buffer only the credentials are copied. -/
def ensureDescriptorHeader (memory : Nat → Nat → Int) (control : Control) (newSpace : Nat) : Control :=
  if (descriptorSlots control).length = newSpace then control
  else
    ((copyCredentialsOut control).map Cmsg.credentials).toList ++
      if 0 < newSpace then [.rights (Wrappers.ensureDescriptorHeader memory (descriptorSlots control) newSpace)]
      else []

def pushDescriptor (memory : Nat → Nat → Int) (descriptor : Int) (control : Control) : Control :=
  let slots := descriptorSlots control
  match slots.findIdx? (· = -1) with
  | some i => writeSlots (slots.set i descriptor) control
  | none =>
    let grown := ensureDescriptorHeader memory control (slots.length + 1)
    writeSlots ((descriptorSlots grown).set slots.length descriptor) grown

def extractDescriptor (descriptor : Int) (control : Control) : Int × Control :=
  let slots := descriptorSlots control
  match slots.findIdx? (· = descriptor) with
  | some i => (descriptor, writeSlots (slots.set i (-1)) control)
  | none => (-1, control)

def extractDescriptorAtIndex (index : Nat) (control : Control) : Int × Control :=
  let r := Wrappers.extractDescriptorAtIndex 0 index (descriptorSlots control)
  (r.1, writeSlots r.2 control)

/-- What `_cleanupSelf` closes; there is no buffer after a move. -/
def cleanupSelf : Option Control → List Int
  | none => []
  | some control => (descriptorSlots control).filter (· ≠ -1)

/-- A push finds a free slot, or no slots at all. -/
def hasRoom (control : Control) : Bool :=
  (descriptorSlots control).isEmpty || (descriptorSlots control).contains (-1)

/-! ## Reading and writing headers -/

section
variable (creds : Ucred) (slots : List Int) (control : Control)

@[simp] theorem copyCredentialsOut_writeSlots :
    copyCredentialsOut (writeSlots slots control) = copyCredentialsOut control := by
  induction control with
  | nil => rfl
  | cons header control ih =>
    cases header with
    | credentials => rfl
    | rights => rfl

@[simp] theorem descriptorSlots_writeCredentials :
    descriptorSlots (writeCredentials creds control) = descriptorSlots control := by
  induction control with
  | nil => rfl
  | cons header control ih =>
    cases header with
    | credentials => rfl
    | rights => rfl

/-- Slots can be written if there were some. -/
theorem descriptorSlots_writeSlots (h : descriptorSlots control ≠ []) :
    descriptorSlots (writeSlots slots control) = slots := by
  induction control with
  | nil => exact absurd rfl h
  | cons header control ih =>
    cases header with
    | credentials => exact ih h
    | rights => rfl

theorem writeSlots_self : writeSlots (descriptorSlots control) control = control := by
  induction control with
  | nil => rfl
  | cons header control ih =>
    cases header with
    | credentials creds => exact congrArg (Cmsg.credentials creds :: ·) ih
    | rights => rfl

theorem copyCredentialsOut_writeCredentials {old : Ucred} (h : copyCredentialsOut control = some old) :
    copyCredentialsOut (writeCredentials creds control) = some creds := by
  induction control with
  | nil => cases h
  | cons header control ih =>
    cases header with
    | credentials => rfl
    | rights => exact ih h

end

/-! ## Credentials -/

section
variable (own : Ucred) (control : Control)

theorem copyCredentialsOut_ensure :
    copyCredentialsOut (ensureCredentialsHeader own control) = some ((copyCredentialsOut control).getD own) := by
  unfold ensureCredentialsHeader
  cases hc : copyCredentialsOut control with
  | none => rfl
  | some creds => exact hc

@[simp] theorem descriptorSlots_ensureCredentialsHeader :
    descriptorSlots (ensureCredentialsHeader own control) = descriptorSlots control := by
  unfold ensureCredentialsHeader
  cases copyCredentialsOut control with
  | some creds => rfl
  | none =>
    cases hs : descriptorSlots control with
    | nil => rfl
    | cons fd slots => rfl

@[simp] theorem descriptorSlots_copyCredentialsIn (creds : Ucred) :
    descriptorSlots (copyCredentialsIn own creds control) = descriptorSlots control := by
  simp [copyCredentialsIn]

theorem copyCredentialsOut_copyCredentialsIn (creds : Ucred) :
    copyCredentialsOut (copyCredentialsIn own creds control) = some creds :=
  copyCredentialsOut_writeCredentials creds _ (copyCredentialsOut_ensure own control)

theorem changeCredentials_eq (change : Ucred → Ucred) :
    changeCredentials own change control =
      copyCredentialsIn own (change ((copyCredentialsOut control).getD own))
        (ensureCredentialsHeader own control) := by
  simp only [changeCredentials, copyCredentialsOut_ensure]

/-- A change of credentials leaves the descriptors alone; without credentials it is made to
the process's own. -/
theorem changeCredentials_effect (change : Ucred → Ucred) :
    descriptors (changeCredentials own change control) = descriptors control ∧
      copyCredentialsOut (changeCredentials own change control) =
        some (change ((copyCredentialsOut control).getD own)) := by
  rw [changeCredentials_eq, copyCredentialsOut_copyCredentialsIn]
  simp [descriptors]

end

/-! ## Slots -/

section
variable {slots : List Int} {d : Int} {i : Nat}

theorem present_set_free (hd : d ≠ -1) (h : slots[i]? = some (-1)) :
    (present (slots.set i d)).Perm (d :: present slots) := by
  induction slots generalizing i with
  | nil => simp at h
  | cons fd slots ih =>
    cases i with
    | zero =>
      obtain rfl : fd = -1 := by simpa using h
      rw [List.set_cons_zero, present_cons hd, present_taken]
    | succ i =>
      have hperm := ih (by simpa using h)
      rw [List.set_cons_succ]
      by_cases hfd : fd = -1
      · rw [hfd, present_taken, present_taken]
        exact hperm
      · rw [present_cons hfd, present_cons hfd]
        exact (hperm.cons fd).trans (.swap d fd _)

theorem present_set_taken (hd : d ≠ -1) (h : slots.findIdx? (· = d) = some i) :
    present (slots.set i (-1)) = (present slots).erase d := by
  induction slots generalizing i with
  | nil => simp at h
  | cons fd slots ih =>
    rw [List.findIdx?_cons] at h
    by_cases hfd : fd = d
    · obtain rfl : 0 = i := by simpa [hfd] using h
      rw [List.set_cons_zero, present_taken, hfd, present_cons hd, List.erase_cons_head]
    · rw [if_neg (by simpa using hfd)] at h
      obtain ⟨j, hj, rfl⟩ := Option.map_eq_some_iff.1 h
      rw [List.set_cons_succ]
      by_cases hfree : fd = -1
      · rw [hfree, present_taken, present_taken]
        exact ih hj
      · rw [present_cons hfree, present_cons hfree, ih hj, List.erase_cons_tail (by simpa using hfd)]

theorem mem_present : d ∈ present slots ↔ d ∈ slots ∧ d ≠ -1 := by
  simp [present]

theorem getElem_of_findIdx {p : Int → Bool} (h : slots.findIdx? p = some i) : ∃ fd, slots[i]? = some fd ∧ p fd := by
  obtain ⟨hi, hp, -⟩ := List.findIdx?_eq_some_iff_getElem.1 h
  exact ⟨slots[i], List.getElem?_eq_getElem hi, hp⟩

/-- An index past the last one that is present finds nothing. -/
theorem extractDescriptorAtIndex_beyond (m k : Nat) (slots : List Int) (h : (present slots).length ≤ k) :
    Wrappers.extractDescriptorAtIndex m ↑(m + k) slots = (-1, slots) := by
  induction slots generalizing m k with
  | nil => rfl
  | cons fd slots ih =>
    rw [Wrappers.extractDescriptorAtIndex]
    by_cases hfd : fd = -1
    · rw [hfd, present_taken] at h
      rw [if_pos hfd, ih m k h]
    · rw [present_cons hfd, List.length_cons] at h
      have hne : (m : Int) ≠ ↑(m + k) := by omega
      have hrest := ih (m + 1) (k - 1) (by omega)
      rw [show m + 1 + (k - 1) = m + k by omega] at hrest
      rw [if_neg hfd, if_pos hne, hrest]

end

/-! ## Pushing and extracting -/

section
variable (memory : Nat → Nat → Int) (d : Int) (control : Control)

theorem copyCredentialsOut_ensureDescriptorHeader (newSpace : Nat) :
    copyCredentialsOut (ensureDescriptorHeader memory control newSpace) = copyCredentialsOut control := by
  unfold ensureDescriptorHeader
  split
  · rfl
  · cases copyCredentialsOut control with
    | some creds => rfl
    | none =>
      simp only [Option.map_none, Option.toList_none, List.nil_append]
      split <;> rfl

theorem descriptorSlots_ensureDescriptorHeader (newSpace : Nat) :
    descriptorSlots (ensureDescriptorHeader memory control newSpace) =
      Wrappers.ensureDescriptorHeader memory (descriptorSlots control) newSpace := by
  unfold ensureDescriptorHeader
  by_cases h : (descriptorSlots control).length = newSpace
  · rw [if_pos h, Wrappers.ensureDescriptorHeader, if_pos h]
  · rw [if_neg h]
    by_cases hpos : 0 < newSpace
    · rw [if_pos hpos]
      cases copyCredentialsOut control with
      | some creds => rfl
      | none => rfl
    · obtain rfl : newSpace = 0 := by omega
      rw [Wrappers.ensureDescriptorHeader, if_neg h]
      cases copyCredentialsOut control with
      | some creds => rfl
      | none => rfl

/-- On the slots, a push is the one that the reply wrappers make. -/
theorem descriptorSlots_pushDescriptor :
    descriptorSlots (pushDescriptor memory d control) = Wrappers.pushDescriptor memory (descriptorSlots control) d := by
  cases hfree : (descriptorSlots control).findIdx? (· = -1) with
  | some i =>
    simp only [pushDescriptor, Wrappers.pushDescriptor, hfree]
    refine descriptorSlots_writeSlots _ _ ?_
    intro hnil
    simp [hnil] at hfree
  | none =>
    simp only [pushDescriptor, Wrappers.pushDescriptor, hfree]
    have hgrown := descriptorSlots_ensureDescriptorHeader memory control ((descriptorSlots control).length + 1)
    rw [descriptorSlots_writeSlots, hgrown]
    rw [hgrown, Wrappers.ensureDescriptorHeader, if_neg (by omega)]
    simp

theorem copyCredentialsOut_pushDescriptor :
    copyCredentialsOut (pushDescriptor memory d control) = copyCredentialsOut control := by
  cases hfree : (descriptorSlots control).findIdx? (· = -1) with
  | some i =>
    simp only [pushDescriptor, hfree]
    exact copyCredentialsOut_writeSlots _ _
  | none =>
    simp only [pushDescriptor, hfree]
    rw [copyCredentialsOut_writeSlots, copyCredentialsOut_ensureDescriptorHeader]

theorem pushDescriptor_perm (hd : d ≠ -1) (h : hasRoom control = true) :
    (descriptors (pushDescriptor memory d control)).Perm (d :: descriptors control) := by
  rw [descriptors, descriptors, descriptorSlots_pushDescriptor]
  cases hfree : (descriptorSlots control).findIdx? (· = -1) with
  | some i =>
    obtain ⟨fd, hi, hfd⟩ := getElem_of_findIdx hfree
    obtain rfl : fd = -1 := by simpa using hfd
    simp only [Wrappers.pushDescriptor, hfree]
    exact present_set_free hd hi
  | none =>
    have hfull : -1 ∉ descriptorSlots control := by
      intro hmem
      simpa using List.findIdx?_eq_none_iff.1 hfree _ hmem
    have hnil : descriptorSlots control = [] := by
      simpa [hasRoom, hfull] using h
    rw [hnil, pushDescriptor_nil, present_cons hd]

/-- In memory full of `-1`, a push into a full array leaves nothing but the new
descriptor. -/
theorem pushDescriptor_loses (hd : d ≠ -1) (h : hasRoom control = false) :
    descriptors (pushDescriptor (fun _ _ => -1) d control) = [d] ∧ descriptors control ≠ [] := by
  have hroom : descriptorSlots control ≠ [] ∧ -1 ∉ descriptorSlots control := by
    simpa [hasRoom] using h
  refine ⟨?_, ?_⟩
  · rw [descriptors, descriptorSlots_pushDescriptor, pushDescriptor_filled hroom.2]
    simp [present, hd]
  · rw [descriptors]
    obtain ⟨fd, hfd⟩ := List.exists_mem_of_ne_nil _ hroom.1
    exact List.ne_nil_of_mem (mem_present.2 ⟨hfd, ne_of_mem_of_not_mem hfd hroom.2⟩)

theorem extractDescriptor_held (h : d ∈ descriptors control) :
    ∃ after, extractDescriptor d control = (d, after) ∧ descriptors after = (descriptors control).erase d ∧
      copyCredentialsOut after = copyCredentialsOut control := by
  obtain ⟨hmem, hd⟩ := mem_present.1 h
  cases hi : (descriptorSlots control).findIdx? (· = d) with
  | none => simpa using List.findIdx?_eq_none_iff.1 hi _ hmem
  | some i =>
    refine ⟨writeSlots ((descriptorSlots control).set i (-1)) control, ?_, ?_, ?_⟩
    · simp only [extractDescriptor, hi]
    · rw [descriptors, descriptorSlots_writeSlots _ _ (List.ne_nil_of_mem hmem)]
      exact present_set_taken hd hi
    · exact copyCredentialsOut_writeSlots _ _

theorem extractDescriptor_absent (h : d ∉ descriptors control) : extractDescriptor d control = (-1, control) := by
  cases hi : (descriptorSlots control).findIdx? (· = d) with
  | none => simp only [extractDescriptor, hi]
  | some i =>
    -- a slot matches, so `-1` was asked for and a free slot is freed again
    obtain ⟨fd, hget, hfd⟩ := getElem_of_findIdx hi
    obtain rfl : fd = d := by simpa using hfd
    obtain rfl : fd = -1 := by
      by_contra hne
      exact h (mem_present.2 ⟨List.mem_of_getElem? hget, hne⟩)
    obtain ⟨hlt, hval⟩ := List.getElem?_eq_some_iff.1 hget
    have hset : (descriptorSlots control).set i (-1) = descriptorSlots control := by
      conv_lhs => rw [← hval]
      exact List.set_getElem_self hlt
    simp only [extractDescriptor, hi, hset, writeSlots_self]

theorem extractDescriptorAtIndex_held {index : Nat} (h : index < (descriptors control).length) :
    ∃ after, extractDescriptorAtIndex index control = ((descriptors control)[index], after) ∧
      descriptors after = (descriptors control).eraseIdx index ∧
      copyCredentialsOut after = copyCredentialsOut control := by
  obtain ⟨hfst, hsnd⟩ := extractDescriptorAtIndex_present 0 index (descriptorSlots control)
  rw [Nat.zero_add] at hfst hsnd
  have hne : descriptorSlots control ≠ [] := by
    intro hnil
    simp [descriptors, hnil, present] at h
  refine ⟨(extractDescriptorAtIndex index control).2, Prod.ext ?_ rfl, ?_, copyCredentialsOut_writeSlots _ _⟩
  · exact hfst.trans (List.getD_eq_getElem _ _ h)
  · rw [extractDescriptorAtIndex, descriptors, descriptorSlots_writeSlots _ _ hne]
    exact hsnd

theorem extractDescriptorAtIndex_absent {index : Nat} (h : (descriptors control).length ≤ index) :
    extractDescriptorAtIndex index control = (-1, control) := by
  have hnone := extractDescriptorAtIndex_beyond 0 index _ h
  rw [Nat.zero_add] at hnone
  simp only [extractDescriptorAtIndex, hnone, writeSlots_self]

end

/-- What the operations do to one message. -/
structure Laws (own : Ucred) (control : Control) : Prop where
  push : ∀ d, 0 ≤ d →
    ((∀ memory, (descriptors (pushDescriptor memory d control)).Perm (d :: descriptors control)) ↔
      hasRoom control = true)
  push_credentials : ∀ memory d, copyCredentialsOut (pushDescriptor memory d control) = copyCredentialsOut control
  extract : ∀ d ∈ descriptors control, ∃ after, extractDescriptor d control = (d, after) ∧
    descriptors after = (descriptors control).erase d ∧ copyCredentialsOut after = copyCredentialsOut control
  extract_absent : ∀ d, d ∉ descriptors control → extractDescriptor d control = (-1, control)
  extractAtIndex : ∀ index, ∀ h : index < (descriptors control).length, ∃ after,
    extractDescriptorAtIndex index control = ((descriptors control)[index], after) ∧
      descriptors after = (descriptors control).eraseIdx index ∧
      copyCredentialsOut after = copyCredentialsOut control
  extractAtIndex_absent : ∀ index, (descriptors control).length ≤ index →
    extractDescriptorAtIndex index control = (-1, control)
  setPID : ∀ pid, descriptors (setPID own pid control) = descriptors control ∧
    copyCredentialsOut (setPID own pid control) = some { (copyCredentialsOut control).getD own with pid }
  setUID : ∀ uid, descriptors (setUID own uid control) = descriptors control ∧
    copyCredentialsOut (setUID own uid control) = some { (copyCredentialsOut control).getD own with uid }
  setGID : ∀ gid, descriptors (setGID own gid control) = descriptors control ∧
    copyCredentialsOut (setGID own gid control) = some { (copyCredentialsOut control).getD own with gid }
  copyCredentialsIn : ∀ creds, descriptors (copyCredentialsIn own creds control) = descriptors control ∧
    copyCredentialsOut (copyCredentialsIn own creds control) = some creds
  cleanup : cleanupSelf (some control) = descriptors control

theorem laws (own : Ucred) (control : Control) : Laws own control where
  push d hd := by
    have hne : d ≠ -1 := by omega
    refine ⟨fun hperm => ?_, fun hroom memory => pushDescriptor_perm memory d control hne hroom⟩
    by_contra hroom
    obtain ⟨hafter, hheld⟩ := pushDescriptor_loses d control hne (by simpa using hroom)
    have hlength := (hperm fun _ _ => -1).length_eq
    rw [hafter, List.length_cons] at hlength
    exact hheld (List.length_eq_zero_iff.1 (by simpa using hlength))
  push_credentials memory d := copyCredentialsOut_pushDescriptor memory d control
  extract d h := extractDescriptor_held d control h
  extract_absent d h := extractDescriptor_absent d control h
  extractAtIndex _ h := extractDescriptorAtIndex_held control h
  extractAtIndex_absent _ h := extractDescriptorAtIndex_absent control h
  setPID _ := changeCredentials_effect own control _
  setUID _ := changeCredentials_effect own control _
  setGID _ := changeCredentials_effect own control _
  copyCredentialsIn creds := ⟨congrArg present (descriptorSlots_copyCredentialsIn own control creds),
    copyCredentialsOut_copyCredentialsIn own control creds⟩
  cleanup := rfl

/-! ## Messages over their lives -/

inductive Op where
  | pushDescriptor (descriptor : Int) (memory : Nat → Nat → Int)
  | extractDescriptor (descriptor : Int)
  | extractDescriptorAtIndex (index : Nat)
  | setPID (pid : Int)
  | setUID (uid : Nat)
  | setGID (gid : Nat)
  | copyCredentialsIn (creds : Ucred)

/-- What an operation returns, `-1` for those that return nothing, and the buffer after it. -/
def Op.apply (own : Ucred) (control : Control) : Op → Int × Control
  | .pushDescriptor descriptor memory => (-1, Messages.pushDescriptor memory descriptor control)
  | .extractDescriptor descriptor => Messages.extractDescriptor descriptor control
  | .extractDescriptorAtIndex index => Messages.extractDescriptorAtIndex index control
  | .setPID pid => (-1, Messages.setPID own pid control)
  | .setUID uid => (-1, Messages.setUID own uid control)
  | .setGID gid => (-1, Messages.setGID own gid control)
  | .copyCredentialsIn creds => (-1, Messages.copyCredentialsIn own creds control)

/-- The descriptors that an operation hands to the message. -/
def Op.gives : Op → List Int
  | .pushDescriptor descriptor _ => [descriptor]
  | _ => []

inductive Label where
  | construct (descriptorSpace : Nat)
  /-- A message that was received, with the headers that came with it. -/
  | receive (control : Control)
  | operate (message : Nat) (op : Op)
  | moveConstruct (other : Nat)
  | moveAssign (message other : Nat)
  | destroy (message : Nat)

structure State where
  /-- The messages in the order of construction, `none` for one without a buffer. -/
  messages : List (Option Control) := []
  /-- The descriptors handed to messages, returned by them and closed by them. -/
  given : List Int := []
  returned : List Int := []
  closed : List Int := []

def init (s : State) : Prop := s = {}

/-- A message that was moved from is only assigned to or destroyed. In a self-assignment
the buffer is gone before it is moved. -/
def step (own : Ucred) (s : State) : Label → Option State
  | .construct descriptorSpace =>
    some { s with messages := s.messages ++ [some (Messages.construct own descriptorSpace)] }
  | .receive control =>
    some { s with messages := s.messages ++ [some control], given := s.given ++ descriptors control }
  | .operate message op =>
    (s.messages[message]?).join.map fun control =>
      { s with
        messages := s.messages.set message (some (op.apply own control).2)
        given := s.given ++ op.gives
        returned := s.returned ++ present [(op.apply own control).1] }
  | .moveConstruct other =>
    (s.messages[other]?).map fun moved => { s with messages := s.messages.set other none ++ [moved] }
  | .moveAssign message other =>
    (s.messages[message]?).bind fun old =>
      ((s.messages.set message none)[other]?).map fun moved =>
        { s with
          messages := ((s.messages.set message none).set other none).set message moved
          closed := s.closed ++ cleanupSelf old }
  | .destroy message =>
    (s.messages[message]?).map fun old =>
      { s with messages := s.messages.set message none, closed := s.closed ++ cleanupSelf old }

def held (s : State) : List Int := s.messages.flatMap cleanupSelf

/-- Descriptors that are pushed are valid. -/
def valid : Label → Bool
  | .operate _ (.pushDescriptor descriptor _) => 0 ≤ descriptor
  | _ => true

/-- And each push finds room. -/
def heeded (s : State) : Label → Bool
  | .operate message (.pushDescriptor descriptor _) =>
    decide (0 ≤ descriptor) && ((s.messages[message]?).join.map hasRoom).getD true
  | _ => true

/-- What a message had and was given, it has or has returned. -/
theorem Op.apply_perm (own : Ucred) (control : Control) (op : Op)
    (h : ∀ d memory, op = .pushDescriptor d memory → 0 ≤ d ∧ hasRoom control = true) :
    (descriptors (op.apply own control).2 ++ present [(op.apply own control).1]).Perm
      (op.gives ++ descriptors control) := by
  have hlaws := laws own control
  cases op with
  | pushDescriptor d memory =>
    obtain ⟨hd, hroom⟩ := h d memory rfl
    simp only [Op.apply, Op.gives, present_taken]
    exact (List.append_nil _).symm ▸ (hlaws.push d hd).2 hroom memory
  | extractDescriptor d =>
    by_cases hd : d ∈ descriptors control
    · obtain ⟨after, heq, hafter, -⟩ := hlaws.extract d hd
      simp only [Op.apply, Op.gives, heq, hafter, present_cons (mem_present.1 hd).2]
      exact (List.perm_append_singleton d _).trans (List.perm_cons_erase hd).symm
    · simp only [Op.apply, Op.gives, hlaws.extract_absent d hd, present_taken]
      exact .of_eq (List.append_nil _)
  | extractDescriptorAtIndex index =>
    by_cases hi : index < (descriptors control).length
    · obtain ⟨after, heq, hafter, -⟩ := hlaws.extractAtIndex index hi
      have hpresent := (mem_present.1 (List.getElem_mem hi)).2
      simp only [Op.apply, Op.gives, heq, hafter, present_cons hpresent]
      exact (List.perm_append_singleton _ _).trans (List.getElem_cons_eraseIdx_perm hi)
    · simp only [Op.apply, Op.gives, hlaws.extractAtIndex_absent index (by omega), present_taken]
      exact .of_eq (List.append_nil _)
  | setPID pid => exact .of_eq ((List.append_nil _).trans (hlaws.setPID pid).1)
  | setUID uid => exact .of_eq ((List.append_nil _).trans (hlaws.setUID uid).1)
  | setGID gid => exact .of_eq ((List.append_nil _).trans (hlaws.setGID gid).1)
  | copyCredentialsIn creds => exact .of_eq ((List.append_nil _).trans (hlaws.copyCredentialsIn creds).1)

/-- Each descriptor given to a message is somewhere, as often as it was given. -/
def Conserved (s : State) : Prop :=
  ∀ d, s.given.count d = (held s).count d + s.returned.count d + s.closed.count d

theorem Conserved.step {own : Ucred} {s s' : State} {l : Label} (h : Conserved s) (hg : heeded s l = true)
    (hst : step own s l = some s') : Conserved s' := by
  intro d
  have hd := h d
  simp only [held] at hd ⊢
  cases l with
  | construct descriptorSpace =>
    cases hst
    have hempty : (descriptors (Messages.construct own descriptorSpace)) = [] := by
      simp only [Messages.construct, descriptors, descriptorSlots]
      split <;> simp [descriptorSlots, present]
    have hnone : cleanupSelf (some (Messages.construct own descriptorSpace)) = [] := hempty
    simp [hnone, hd]
  | receive control =>
    cases hst
    simp only [List.flatMap_append, List.flatMap_singleton, List.count_append]
    have hheld : cleanupSelf (some control) = descriptors control := rfl
    rw [hheld]
    omega
  | operate message op =>
    obtain ⟨control, hm, rfl⟩ := Option.map_eq_some_iff.1 hst
    have hroom : ∀ d memory, op = .pushDescriptor d memory → 0 ≤ d ∧ hasRoom control = true := by
      rintro d memory rfl
      simpa [heeded, hm] using hg
    have hop := (op.apply_perm own control hroom).count_eq d
    have hset := Crowd.count_flatMap_set (Option.join_eq_some_iff.1 hm) (some (op.apply own control).2) cleanupSelf d
    have hbefore : cleanupSelf (some control) = descriptors control := rfl
    have hafter : cleanupSelf (some (op.apply own control).2) = descriptors (op.apply own control).2 := rfl
    rw [hbefore, hafter] at hset
    simp only [List.count_append] at hop ⊢
    omega
  | moveConstruct other =>
    obtain ⟨moved, hm, rfl⟩ := Option.map_eq_some_iff.1 hst
    have hset := Crowd.count_flatMap_set hm none cleanupSelf d
    have hnone : (cleanupSelf none).count d = 0 := rfl
    simp only [List.flatMap_append, List.flatMap_singleton, List.count_append]
    omega
  | moveAssign message other =>
    obtain ⟨old, hm, hst⟩ := Option.bind_eq_some_iff.1 hst
    obtain ⟨moved, ho, rfl⟩ := Option.map_eq_some_iff.1 hst
    have hnone : (cleanupSelf none).count d = 0 := rfl
    have hcleaned := Crowd.count_flatMap_set hm none cleanupSelf d
    have htaken := Crowd.count_flatMap_set ho none cleanupSelf d
    -- also after a self-assignment there is nothing in the place that is assigned to
    have hplace : ((s.messages.set message none).set other none)[message]? = some none := by
      have hlt := (List.getElem?_eq_some_iff.1 hm).1
      by_cases heq : other = message
      · simp [heq, hlt]
      · simp [heq, hlt]
    have hput := Crowd.count_flatMap_set hplace moved cleanupSelf d
    simp only [List.count_append]
    omega
  | destroy message =>
    obtain ⟨old, hm, rfl⟩ := Option.map_eq_some_iff.1 hst
    have hset := Crowd.count_flatMap_set hm none cleanupSelf d
    have hnone : (cleanupSelf none).count d = 0 := rfl
    simp only [List.count_append]
    omega

theorem conserved_init {s : State} (h : init s) : Conserved s := by
  intro d
  rw [h]
  rfl

/-- Every operation obeys its law in every state of a message. While pushes find room,
each descriptor given to a message is held by one, was returned or was closed, and
this once if it was given once. -/
theorem descriptors_owned_once (own : Ucred) {s : State}
    (h : Reach (step own) (fun s l => heeded s l = true) init s) :
    (∀ control, Laws own control) ∧ s.given.Perm (held s ++ s.returned ++ s.closed) ∧
      (s.given.Nodup → (held s ++ s.returned ++ s.closed).Nodup) := by
  have hconserved : Conserved s :=
    h.inv Conserved (fun _ hi => conserved_init hi) fun _ _ _ hi hg hst => hi.step hg hst
  have hperm : s.given.Perm (held s ++ s.returned ++ s.closed) := by
    refine List.perm_iff_count.2 fun d => ?_
    rw [List.count_append, List.count_append]
    exact hconserved d
  exact ⟨laws own, hperm, hperm.nodup⟩

def server : Ucred := { pid := 1, uid := 0, gid := 0 }

/-- A received descriptor is taken out of a message without credentials, another goes
into its slot, the message gets a PID, is moved to a new one and that one is destroyed. -/
def takenAndSent : List Label :=
  [.receive [.rights [7]], .operate 0 (.extractDescriptorAtIndex 0), .operate 0 (.pushDescriptor 8 fun _ _ => 0),
    .operate 0 (.setPID 4), .construct 0, .operate 1 (.pushDescriptor 9 fun _ _ => 0), .moveAssign 1 0,
    .destroy 0, .moveConstruct 1, .destroy 2]

theorem descriptors_owned_once_takenAndSent : ∃ s : State,
    s.given = [7, 8, 9] ∧ s.returned = [7] ∧ s.closed = [9, 8] ∧ (∀ control, Laws server control) ∧
      s.given.Perm (held s ++ s.returned ++ s.closed) ∧ (held s ++ s.returned ++ s.closed).Nodup := by
  have hrun : (exec (step server) heeded {} takenAndSent).map (fun s => (s.given, s.returned, s.closed)) =
      some ([7, 8, 9], [7], [9, 8]) := by decide
  obtain ⟨s, hs, hv⟩ := exists_reach (fun _ _ hg => hg) (.init (show init {} from rfl)) hrun
  simp only [Prod.mk.injEq] at hv
  obtain ⟨hlaws, hperm, hnodup⟩ := descriptors_owned_once server hs
  refine ⟨s, hv.1, hv.2.1, hv.2.2, hlaws, hperm, hnodup ?_⟩
  rw [hv.1]
  decide

/-- A message made without descriptor space gets a second descriptor, and the memory of
the new array has a 3 where the first was. Then 3 is closed, and 5 never is. -/
def secondPush : List Label :=
  [.construct 0, .operate 0 (.pushDescriptor 5 fun _ _ => 3), .operate 0 (.pushDescriptor 6 fun _ _ => 3), .destroy 0]

theorem descriptors_not_owned : ¬ ∀ s : State, Reach (step server) (fun _ l => valid l = true) init s →
    s.given.Nodup → s.given.Perm (held s ++ s.returned ++ s.closed) := by
  intro h
  have hrun : (exec (step server) (fun _ l => valid l) {} secondPush).map
      (fun s => (s.given, held s ++ s.returned ++ s.closed)) = some ([5, 6], [3, 6]) := by decide
  obtain ⟨s, hs, hv⟩ := exists_reach (fun _ _ hg => hg) (.init (show init {} from rfl)) hrun
  simp only [Prod.mk.injEq] at hv
  have hperm := h s hs (by rw [hv.1]; decide)
  rw [hv.1, hv.2] at hperm
  exact absurd hperm (by decide)

end DarlingServer.Messages
