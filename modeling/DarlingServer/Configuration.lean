import Mathlib.Data.List.TakeWhile
import DarlingServer.Transfers
import DarlingServer.Lib.Layout
import DarlingServer.Lib.Runs
/-!
# The settings of a process

A process has a vchroot, a list of groups and the path of its executable, and calls
that set each of them or read it back.

* Setting: `vchroot` puts the new descriptor in place before it asks for its path, and
  `groups` sets the new list before it writes the old one back, so both can fail with
  the setting changed.
* Reading: three calls write a path into a buffer of the client, each with its own way
  to cut it off. They agree as long as nothing has to be cut off for
  `get_executable_path` and `vchroot_path` has room for a byte; the length that
  `mldr_path` reports is that of another path.
-/

namespace DarlingServer.Configuration

open Runs Transfers

/-- `_thread.lock()` and `thread->process()`. -/
inductive Caller where
  | noThread
  | noProcess
  | process
  deriving DecidableEq

/-- What a process keeps of these calls. `δ` are the descriptors the server has received. -/
structure Settings (δ : Type*) where
  vchrootDescriptor : Option δ := none
  cachedVchrootPath : List UInt8 := []
  groups : List UInt32 := []
  executablePath : List UInt8 := []

structure Proc (δ : Type*) where
  settings : Settings δ
  space : Space

/-- What `readlink` finds under `/proc/self/fd/` for a descriptor. -/
abbrev Links (δ : Type*) := δ → Except Nat (List UInt8)

variable {δ : Type*}

/-! ## Setting -/

/-- `std::string(const char*)`. -/
def cString (bytes : List UInt8) : List UInt8 := bytes.takeWhile (· ≠ 0)

/-- `Process::setVchrootDirectory`, with the error it throws. -/
def setVchrootDirectory (links : Links δ) (s : Settings δ) (directoryDescriptor : δ) : Option Nat × Settings δ :=
  let s := { s with vchrootDescriptor := some directoryDescriptor }
  match links directoryDescriptor with
  | .error errno => (some errno, s)
  | .ok path => (none, { s with cachedVchrootPath := cString (path.take 4095) })

def vchroot (links : Links δ) (caller : Caller) (s : Settings δ) (directoryFd : δ) : Int × Settings δ :=
  match caller with
  | .process =>
    match setVchrootDirectory links s directoryFd with
    | (some errno, s) => (-errno, s)
    | (none, s) => (0, s)
  | _ => (-ESRCH, s)

structure GroupsBody where
  newGroups : UInt64
  newGroupCount : UInt64
  oldGroups : UInt64
  oldGroupSpace : UInt64

/-- The groups in a buffer of `count` of them. -/
def toGroups (buffer : List UInt8) (count : Nat) : List UInt32 :=
  (List.range count).map fun i => UInt32.ofNat (Layout.littleEndian ((buffer.drop (4 * i)).take 4))

def ofGroups (groups : List UInt32) : List UInt8 :=
  groups.flatMap fun (g : UInt32) => [g.toUInt8, (g >>> 8).toUInt8, (g >>> 16).toUInt8, (g >>> 24).toUInt8]

/-- There are new groups to set. -/
def GroupsBody.sets (body : GroupsBody) : Bool := body.newGroups ≠ 0 && 0 < body.newGroupCount

/-- There is room for the old groups. -/
def GroupsBody.gets (body : GroupsBody) : Bool := body.oldGroups ≠ 0 && 0 < body.oldGroupSpace

/-- The first half of `groups`. A vector that cannot be made that long throws, and nothing catches it. -/
def takeGroups (p : Proc δ) (body : GroupsBody) (allocates : Bool) (read : Result) : Option (Int × Settings δ) :=
  if body.sets then
    if allocates then
      let newGroups := List.replicate (4 * body.newGroupCount.toNat) 0
      match readMemory p.space body.newGroups.toNat newGroups read with
      | (false, errno, _) => some (-errno, p.settings)
      | (true, _, access) => some (0, { p.settings with groups := toGroups access.buffer body.newGroupCount.toNat })
    else none
  else some (0, p.settings)

/-- The second half: the old groups go to the client. -/
def giveGroups (p : Proc δ) (oldGroups : List UInt32) (body : GroupsBody) (write : Result) : Int × Memory :=
  if body.gets then
    let len := min oldGroups.length body.oldGroupSpace.toNat
    match writeMemory p.space body.oldGroups.toNat (ofGroups (oldGroups.take len)) write with
    | (false, errno, access) => (-errno, access.memory)
    | (true, _, access) => (0, access.memory)
  else (0, p.space.memory)

/-- `groups`: the code, the number of old groups, and the process. -/
def groups (caller : Caller) (p : Proc δ) (body : GroupsBody) (allocates : Bool) (read write : Result) :
    Option (Int × Nat × Proc δ) :=
  match caller with
  | .process =>
    let oldGroups := p.settings.groups
    match takeGroups p body allocates read with
    | none => none
    | some (code, s) =>
      if code = 0 then
        let (code, memory) := giveGroups p oldGroups body write
        some (code, oldGroups.length, ⟨s, { p.space with memory := memory }⟩)
      else some (code, oldGroups.length, ⟨s, p.space⟩)
  | _ => some (-ESRCH, 0, p)

def setExecutablePath (caller : Caller) (p : Proc δ) (buffer bufferSize : UInt64) (allocates : Bool) (read : Result) :
    Option (Int × Settings δ) :=
  match caller with
  | .process =>
    if allocates then
      match readMemory p.space buffer.toNat (List.replicate bufferSize.toNat 0) read with
      | (false, errno, _) => some (-errno, p.settings)
      | (true, _, access) => some (0, { p.settings with executablePath := cString access.buffer })
    else none
  | _ => some (-ESRCH, p.settings)

inductive Call (δ : Type*) where
  | vchroot (directoryFd : δ)
  | groups (body : GroupsBody)
  | setExecutablePath (buffer bufferSize : UInt64)

/-- What a call meets with while it is processed. -/
structure Outcomes where
  caller : Caller := .process
  allocates : Bool := true
  read : Result
  write : Result

/-- The code of the reply and the process after it; nothing if an exception ends the server. -/
def processCall (links : Links δ) (p : Proc δ) (o : Outcomes) : Call δ → Option (Int × Proc δ)
  | .vchroot directoryFd =>
    let (code, s) := vchroot links o.caller p.settings directoryFd
    some (code, { p with settings := s })
  | .groups body => (groups o.caller p body o.allocates o.read o.write).map fun (code, _, p) => (code, p)
  | .setExecutablePath buffer bufferSize =>
    (setExecutablePath o.caller p buffer bufferSize o.allocates o.read).map fun (code, s) =>
      (code, { p with settings := s })

/-- The descriptor and the path are those of one directory, or there is none. -/
def Settings.Agree (links : Links δ) (s : Settings δ) : Prop :=
  match s.vchrootDescriptor with
  | none => s.cachedVchrootPath = []
  | some directory => links directory = .ok s.cachedVchrootPath

/-- A reply with an error leaves the settings as they were, one without leaves the vchroot in order. -/
def Atomic (links : Links δ) (p : Proc δ) (o : Outcomes) (c : Call δ) : Prop :=
  ∀ code p', processCall links p o c = some (code, p') →
    (code ≠ 0 → p'.settings = p.settings) ∧ (code = 0 → p'.settings.Agree links)

/-- What `readlink` gives is a path that fits. -/
def Named (links : Links δ) (directory : δ) : Prop :=
  ∃ path, links directory = .ok path ∧ path.length ≤ 4095 ∧ (0 : UInt8) ∉ path

/-- New groups are set that are not the old ones, and the old ones cannot be written back. -/
def Stranded (p : Proc δ) (o : Outcomes) (body : GroupsBody) : Prop :=
  o.caller = .process ∧ body.sets = true ∧ body.gets = true ∧ o.allocates = true ∧ p.space.isDead = false ∧
    ∃ count errno, o.read = .moved count ∧ o.write = .failed errno ∧ errno ≠ 0 ∧
      toGroups (readMemory p.space body.newGroups.toNat (List.replicate (4 * body.newGroupCount.toNat) 0) o.read).2.2.buffer
        body.newGroupCount.toNat ≠ p.settings.groups

def Safe (links : Links δ) (p : Proc δ) (o : Outcomes) : Call δ → Prop
  | .vchroot directoryFd => o.caller = .process → Named links directoryFd
  | .groups body => ¬ Stranded p o body
  | .setExecutablePath _ _ => True

/-! ## What a call changes -/

/-- What the first half of `groups` leaves as settings, if it sets them. -/
def Settings.regroup (p : Proc δ) (body : GroupsBody) (read : Result) : Settings δ :=
  { p.settings with
    groups := toGroups
      (readMemory p.space body.newGroups.toNat (List.replicate (4 * body.newGroupCount.toNat) 0) read).2.2.buffer
      body.newGroupCount.toNat }

variable {links : Links δ} {p : Proc δ} {o : Outcomes} {s : Settings δ} {code : Int}

theorem takeGroups_cases {body : GroupsBody} {allocates : Bool} {read : Result}
    (h : takeGroups p body allocates read = some (code, s)) :
    s = p.settings ∨ (code = 0 ∧ s = .regroup p body read ∧ body.sets = true ∧ allocates = true ∧
      p.space.isDead = false ∧ ∃ count, read = .moved count) := by
  unfold takeGroups at h
  split at h
  next hsets =>
    split at h
    next halloc =>
      cases hdead : p.space.isDead with
      | true =>
        simp only [readMemory, readOrWriteMemory_dead hdead, Option.some.injEq, Prod.mk.injEq] at h
        exact .inl h.2.symm
      | false =>
        cases read with
        | failed errno =>
          simp only [readMemory, readOrWriteMemory_failed hdead, Option.some.injEq, Prod.mk.injEq] at h
          exact .inl h.2.symm
        | moved count =>
          simp only [readMemory_moved hdead, Option.some.injEq, Prod.mk.injEq] at h
          refine .inr ⟨h.1.symm, ?_, hsets, halloc, rfl, count, rfl⟩
          rw [Settings.regroup, readMemory_moved hdead]
          exact h.2.symm
    · cases h
  · simp only [Option.some.injEq, Prod.mk.injEq] at h
    exact .inl h.2.symm

theorem takeGroups_regroup {body : GroupsBody} {count : Nat} (hsets : body.sets = true)
    (hdead : p.space.isDead = false) :
    takeGroups p body true (.moved count) = some (0, .regroup p body (.moved count)) := by
  simp [takeGroups, hsets, Settings.regroup, readMemory_moved hdead]

theorem giveGroups_code {oldGroups : List UInt32} {body : GroupsBody} {write : Result}
    (hdead : p.space.isDead = false) (h : (giveGroups p oldGroups body write).1 ≠ 0) :
    body.gets = true ∧ ∃ errno, write = .failed errno ∧ errno ≠ 0 := by
  unfold giveGroups at h
  split at h
  next hgets =>
    refine ⟨hgets, ?_⟩
    cases write with
    | failed errno =>
      refine ⟨errno, rfl, ?_⟩
      rintro rfl
      simp [writeMemory, readOrWriteMemory_failed hdead] at h
    | moved count => simp [writeMemory_moved hdead] at h
  · cases h rfl

theorem giveGroups_failed {oldGroups : List UInt32} {body : GroupsBody} {errno : Nat}
    (hdead : p.space.isDead = false) (hgets : body.gets = true) :
    (giveGroups p oldGroups body (.failed errno)).1 = -errno := by
  simp [giveGroups, hgets, writeMemory, readOrWriteMemory_failed hdead]

/-- A reply to `groups` comes from its first half if that failed, and from the second otherwise. -/
theorem groups_reply {body : GroupsBody} {n : Nat} {p' : Proc δ}
    (h : groups .process p body o.allocates o.read o.write = some (code, n, p')) :
    ∃ taken, takeGroups p body o.allocates o.read = some (taken, p'.settings) ∧
      code = if taken = 0 then (giveGroups p p.settings.groups body o.write).1 else taken := by
  unfold groups at h
  cases htake : takeGroups p body o.allocates o.read with
  | none => simp [htake] at h
  | some r =>
    obtain ⟨taken, s⟩ := r
    by_cases hcode : taken = 0 <;>
      · simp only [htake, hcode, if_true, if_false, Option.some.injEq, Prod.mk.injEq] at h
        obtain ⟨rfl, -, rfl⟩ := h
        exact ⟨taken, rfl, by simp [hcode]⟩

theorem cString_of_notMem {bytes : List UInt8} (h : (0 : UInt8) ∉ bytes) : cString bytes = bytes := by
  simp only [cString, List.takeWhile_eq_self_iff, decide_eq_true_eq]
  rintro b hb rfl
  exact h hb

theorem zero_notMem_cString (bytes : List UInt8) : (0 : UInt8) ∉ cString bytes := by
  intro h
  simpa using List.mem_takeWhile_imp h

/-- A path is stored as it is exactly if it fits. -/
theorem cString_take_eq {path : List UInt8} :
    cString (path.take 4095) = path ↔ path.length ≤ 4095 ∧ (0 : UInt8) ∉ path := by
  constructor
  · intro h
    refine ⟨?_, h ▸ zero_notMem_cString _⟩
    calc path.length = (cString (path.take 4095)).length := by rw [h]
      _ ≤ (path.take 4095).length := (List.takeWhile_prefix _).length_le
      _ ≤ 4095 := by simp
  · rintro ⟨hlen, hzero⟩
    rw [List.take_of_length_le hlen, cString_of_notMem hzero]

theorem vchroot_atomic_iff (hp : p.settings.Agree links) (directoryFd : δ) :
    Atomic links p o (.vchroot directoryFd) ↔ (o.caller = .process → Named links directoryFd) := by
  by_cases hcaller : o.caller = .process
  · cases hlink : links directoryFd with
    | error errno =>
      -- the descriptor is in place whatever the code says
      have hnot : ¬ (p.settings.vchrootDescriptor = some directoryFd) := by
        intro hd
        simp only [Settings.Agree, hd, hlink] at hp
        cases hp
      refine iff_of_false ?_ (by simp [hcaller, Named, hlink])
      intro hatomic
      have hcall : processCall links p o (.vchroot directoryFd) =
          some (-(errno : Int), { p with settings := { p.settings with vchrootDescriptor := some directoryFd } }) := by
        simp [processCall, vchroot, setVchrootDirectory, hcaller, hlink]
      have h := hatomic _ _ hcall
      by_cases hzero : (-(errno : Int)) = 0
      · have hagree := h.2 hzero
        simp [Settings.Agree, hlink] at hagree
      · have hsame := congrArg Settings.vchrootDescriptor (h.1 hzero)
        exact hnot hsame.symm
    | ok path =>
      have hcall : processCall links p o (.vchroot directoryFd) = some (0, { p with settings :=
          { p.settings with vchrootDescriptor := some directoryFd, cachedVchrootPath := cString (path.take 4095) } }) := by
        simp [processCall, vchroot, setVchrootDirectory, hcaller, hlink]
      have hnamed : Named links directoryFd ↔ cString (path.take 4095) = path := by
        rw [cString_take_eq]
        simp [Named, hlink]
      simp only [Atomic, hcall, Option.some.injEq, Prod.mk.injEq, hcaller, true_implies, hnamed]
      constructor
      · intro h
        have hagree := (h 0 _ ⟨rfl, rfl⟩).2 rfl
        simp only [Settings.Agree, hlink, Except.ok.injEq] at hagree
        exact hagree.symm
      · rintro h code p' ⟨rfl, rfl⟩
        refine ⟨fun hne => absurd rfl hne, fun _ => ?_⟩
        simp only [Settings.Agree, hlink, h]
  · refine iff_of_true ?_ (fun h => absurd h hcaller)
    intro code p' h
    have hcall : processCall links p o (.vchroot directoryFd) = some (-(ESRCH : Int), p) := by
      cases hc : o.caller with
      | process => exact absurd hc hcaller
      | noThread => simp [processCall, vchroot, hc]
      | noProcess => simp [processCall, vchroot, hc]
    rw [hcall] at h
    cases h
    exact ⟨fun _ => rfl, fun _ => hp⟩

theorem groups_atomic_iff (hp : p.settings.Agree links) (body : GroupsBody) :
    Atomic links p o (.groups body) ↔ ¬ Stranded p o body := by
  constructor
  · rintro h ⟨hcaller, hsets, hgets, halloc, hdead, count, errno, hread, hwrite, herrno, hne⟩
    have hcall : groups o.caller p body o.allocates o.read o.write = some (-(errno : Int), p.settings.groups.length,
        ⟨.regroup p body o.read,
          { p.space with memory := (giveGroups p p.settings.groups body o.write).2 }⟩) := by
      simp only [groups, hcaller, halloc, hread, hwrite, takeGroups_regroup hsets hdead, if_true,
        giveGroups_failed hdead hgets]
    have hsame := (h _ _ (by rw [processCall, hcall]; rfl)).1 (by omega)
    exact hne (congrArg Settings.groups hsame)
  · intro hstranded code p' h
    simp only [processCall, Option.map_eq_some_iff, Prod.exists] at h
    obtain ⟨code', n, p₁, hgroups, h⟩ := h
    cases h
    by_cases hcaller : o.caller = .process
    · rw [hcaller] at hgroups
      obtain ⟨taken, htake, hcode⟩ := groups_reply hgroups
      rcases takeGroups_cases htake with hs | ⟨hzero, hs, hsets, halloc, hdead, count, hread⟩
      · exact ⟨fun _ => hs, fun _ => hs ▸ hp⟩
      · have hagree : p'.settings.Agree links := by
          rw [hs]
          exact hp
        refine ⟨fun hne => ?_, fun _ => hagree⟩
        rw [hcode, if_pos hzero] at hne
        obtain ⟨hgets, errno, hwrite, herrno⟩ := giveGroups_code hdead hne
        -- the old groups could not be written back, so the new ones are the same
        by_contra hdiff
        refine hstranded ⟨hcaller, hsets, hgets, halloc, hdead, count, errno, hread, hwrite, herrno, fun hsame => ?_⟩
        apply hdiff
        rw [hs, Settings.regroup, hsame]
    · cases hc : o.caller with
      | process => exact absurd hc hcaller
      | noThread => rw [hc] at hgroups; cases hgroups; exact ⟨fun _ => rfl, fun _ => hp⟩
      | noProcess => rw [hc] at hgroups; cases hgroups; exact ⟨fun _ => rfl, fun _ => hp⟩

theorem setExecutablePath_atomic (hp : p.settings.Agree links) (buffer bufferSize : UInt64) :
    Atomic links p o (.setExecutablePath buffer bufferSize) := by
  intro code p' h
  simp only [processCall, Option.map_eq_some_iff, Prod.exists] at h
  obtain ⟨code', s, hset, h⟩ := h
  cases h
  unfold setExecutablePath at hset
  split at hset
  · split at hset
    · split at hset <;> cases hset
      · exact ⟨fun _ => rfl, fun _ => hp⟩
      · exact ⟨fun hne => absurd rfl hne, fun _ => hp⟩
    · cases hset
  · cases hset
    exact ⟨fun _ => rfl, fun _ => hp⟩

theorem atomic_iff_safe (hp : p.settings.Agree links) (c : Call δ) : Atomic links p o c ↔ Safe links p o c := by
  cases c with
  | vchroot directoryFd => exact vchroot_atomic_iff hp directoryFd
  | groups body => exact groups_atomic_iff hp body
  | setExecutablePath buffer bufferSize => exact iff_of_true (setExecutablePath_atomic hp buffer bufferSize) trivial

/-! ## Runs -/

inductive Label (δ : Type*) where
  | call (c : Call δ) (o : Outcomes)
  /-- The process runs, or dies. -/
  | client (space : Space)

def step (links : Links δ) (p : Proc δ) : Label δ → Option (Proc δ)
  | .call c o => (processCall links p o c).map Prod.snd
  | .client space => some { p with space := space }

def safe (links : Links δ) (p : Proc δ) : Label δ → Prop
  | .call c o => Safe links p o c
  | .client _ => True

def Init (p : Proc δ) : Prop := p.settings = {}

theorem reach_agree (h : Reach (step links) (safe links) Init p) : p.settings.Agree links := by
  refine h.inv (fun p => p.settings.Agree links) ?_ ?_
  · intro p hp
    rw [show p.settings = {} from hp]
    rfl
  · intro p l p' hp hsafe hstep
    cases l with
    | client space =>
      cases hstep
      exact hp
    | call c o =>
      obtain ⟨⟨code, p₁⟩, hcall, rfl⟩ := Option.map_eq_some_iff.1 hstep
      have hatomic := (atomic_iff_safe hp c).2 hsafe code p₁ hcall
      by_cases hcode : code = 0
      · exact hatomic.2 hcode
      · exact (hatomic.1 hcode).symm ▸ hp

/-- A reply with a path, and the bytes that were written to the client's buffer. -/
structure PathReply where
  code : Int
  length : Nat
  written : List UInt8

/-- The first `len` bytes at `c_str()`. -/
def cStr (string : List UInt8) (len : Nat) : List UInt8 := (string ++ [0]).take len

/-- `writeMemory` to the client's buffer: the code and the bytes that got there. -/
def writePath (space : Space) (buffer : UInt64) (bytes : List UInt8) (write : List UInt8 → Result) :
    Int × List UInt8 :=
  match writeMemory space buffer.toNat bytes (write bytes) with
  | (true, _, access) => (0, bytes.take access.moved)
  | (false, errno, _) => (-errno, [])

def vchrootPath (caller : Caller) (p : Proc δ) (buffer bufferSize : UInt64) (write : List UInt8 → Result) :
    PathReply :=
  match caller with
  | .process =>
    if 0 < bufferSize then
      let tmpstr := p.settings.cachedVchrootPath.take (bufferSize - 1).toNat
      let len := min (tmpstr.length + 1) bufferSize.toNat
      let fullLength := p.settings.cachedVchrootPath.length
      let (code, written) := writePath p.space buffer (cStr tmpstr len) write
      ⟨code, fullLength, written⟩
    else ⟨0, 0, []⟩
  | _ => ⟨-ESRCH, 0, []⟩

def mldrPath (defaultMldrPath : List UInt8) (caller : Caller) (p : Proc δ) (buffer bufferSize : UInt64)
    (write : List UInt8 → Result) : PathReply :=
  match caller with
  | .process =>
    -- the size is not looked at, and 0 - 1 is the largest one
    let tmpstr := defaultMldrPath.take (bufferSize - 1).toNat
    let len := min (tmpstr.length + 1) bufferSize.toNat
    let fullLength := p.settings.cachedVchrootPath.length
    let (code, written) := writePath p.space buffer (cStr tmpstr len) write
    ⟨code, fullLength, written⟩
  | _ => ⟨-ESRCH, 0, []⟩

/-- `get_executable_path` of the process that was found. `fullLength` has `uninitialized` until it is set. -/
def getExecutablePath (uninitialized : Nat) (caller : Caller) (p : Proc δ) (targetProcess : Option (Settings δ))
    (buffer bufferSize : UInt64) (write : List UInt8 → Result) : PathReply :=
  match caller with
  | .process =>
    match targetProcess with
    | some target =>
      let path := target.executablePath
      let len := min (path.length + 1) bufferSize.toNat
      let (code, written) := writePath p.space buffer (cStr path len) write
      ⟨code, path.length, written⟩
    | none => ⟨ESRCH, uninitialized, []⟩
  | _ => ⟨-ESRCH, uninitialized, []⟩

inductive PathCall where
  | vchrootPath
  | mldrPath
  | getExecutablePath

/-- The paths there are to be read. -/
structure Paths (δ : Type*) where
  process : Proc δ
  target : Settings δ
  defaultMldrPath : List UInt8

def PathCall.path (w : Paths δ) : PathCall → List UInt8
  | .vchrootPath => w.process.settings.cachedVchrootPath
  | .mldrPath => w.defaultMldrPath
  | .getExecutablePath => w.target.executablePath

def PathCall.reply (w : Paths δ) (uninitialized : Nat) (buffer bufferSize : UInt64) (write : List UInt8 → Result) :
    PathCall → PathReply
  | .vchrootPath => Configuration.vchrootPath .process w.process buffer bufferSize write
  | .mldrPath => Configuration.mldrPath w.defaultMldrPath .process w.process buffer bufferSize write
  | .getExecutablePath =>
    Configuration.getExecutablePath uninitialized .process w.process (some w.target) buffer bufferSize write

/-- The bytes of a path that go to a buffer of `n` bytes: what fits, with a NUL at the end. -/
def terminated (path : List UInt8) (n : Nat) : List UInt8 := if n = 0 then [] else path.take (n - 1) ++ [0]

/-- The one rule for paths. -/
structure PathReply.Follows (path : List UInt8) (n : Nat) (r : PathReply) : Prop where
  bounded : r.written.length ≤ n
  written : r.written = terminated path n
  length : r.length = path.length

/-- When a call keeps to the rule. -/
def PathCall.Fits (w : Paths δ) (n : Nat) : PathCall → Prop
  | .vchrootPath => n ≠ 0 ∨ w.process.settings.cachedVchrootPath = []
  | .mldrPath => w.process.settings.cachedVchrootPath.length = w.defaultMldrPath.length
  | .getExecutablePath => n = 0 ∨ w.target.executablePath.length < n

theorem length_terminated_le (path : List UInt8) (n : Nat) : (terminated path n).length ≤ n := by
  unfold terminated
  split
  · simp
  · simp only [List.length_append, List.length_take, List.length_singleton]
    omega

theorem writePath_whole {space : Space} {buffer : UInt64} {bytes : List UInt8} {write : List UInt8 → Result}
    (hdead : space.isDead = false) (hwrite : ∀ bytes, write bytes = .moved bytes.length) :
    writePath space buffer bytes write = (0, bytes) := by
  simp [writePath, hwrite, writeMemory_moved hdead]

theorem follows_iff {path : List UInt8} {n : Nat} {r : PathReply} :
    r.Follows path n ↔ r.written = terminated path n ∧ r.length = path.length := by
  constructor
  · rintro ⟨-, hwritten, hlength⟩
    exact ⟨hwritten, hlength⟩
  · rintro ⟨hwritten, hlength⟩
    exact ⟨hwritten ▸ length_terminated_le path n, hwritten, hlength⟩

/-- Cutting first, for the byte that the NUL needs, gives what the rule says. -/
theorem cStr_take (path : List UInt8) (n : UInt64) :
    cStr (path.take (n - 1).toNat) (min ((path.take (n - 1).toNat).length + 1) n.toNat) = terminated path n.toNat := by
  by_cases hn : n = 0
  · subst hn
    simp [cStr, terminated]
  · have hpos : n.toNat ≠ 0 := fun h => hn (UInt64.toNat_inj.1 h)
    have hsub : (n - 1).toNat = n.toNat - 1 := by
      rw [UInt64.toNat_sub_of_le _ _ (by rw [UInt64.le_iff_toNat_le]; simp; omega)]
      rfl
    rw [hsub, terminated, if_neg hpos, cStr, List.take_of_length_le]
    simp only [List.length_append, List.length_take, List.length_singleton]
    omega

/-- Without that, the NUL is there only if everything fits. -/
theorem cStr_eq_terminated {path : List UInt8} {n : Nat} (hzero : (0 : UInt8) ∉ path) :
    cStr path (min (path.length + 1) n) = terminated path n ↔ n = 0 ∨ path.length < n := by
  by_cases hn : n = 0
  · subst hn
    simp [cStr, terminated]
  · simp only [hn, false_or]
    rw [terminated, if_neg hn]
    constructor
    · intro h
      by_contra hlong
      have hle : n ≤ path.length := by omega
      -- a path that is cut off ends in a byte of its own
      rw [cStr, Nat.min_eq_right (by omega), List.take_append_of_le_length hle] at h
      apply hzero
      apply List.mem_of_mem_take
      rw [h]
      simp
    · intro hlt
      rw [cStr, Nat.min_eq_left (by omega), List.take_of_length_le (by simp), List.take_of_length_le (by omega)]

/-- A path that is read follows the rule exactly where its call keeps to it. -/
theorem path_follows_iff (call : PathCall) (w : Paths δ) (uninitialized : Nat) (buffer n : UInt64)
    (write : List UInt8 → Result) (hwrite : ∀ bytes, write bytes = .moved bytes.length)
    (hdead : w.process.space.isDead = false) (hzero : (0 : UInt8) ∉ call.path w) :
    (call.reply w uninitialized buffer n write).Follows (call.path w) n.toNat ↔ call.Fits w n.toNat := by
  rw [follows_iff]
  cases call with
  | vchrootPath =>
    simp only [PathCall.reply, PathCall.path, PathCall.Fits, Configuration.vchrootPath,
      writePath_whole hdead hwrite, cStr_take]
    by_cases hn : n = 0
    · subst hn
      simp [terminated, eq_comm]
    · have hpos : 0 < n := by
        rw [UInt64.lt_iff_toNat_lt]
        exact Nat.pos_of_ne_zero fun h => hn (UInt64.toNat_inj.1 h)
      have hne : n.toNat ≠ 0 := fun h => hn (UInt64.toNat_inj.1 h)
      simp [hpos, hne]
  | mldrPath =>
    simp only [PathCall.reply, PathCall.path, PathCall.Fits, Configuration.mldrPath,
      writePath_whole hdead hwrite, cStr_take, true_and]
  | getExecutablePath =>
    simp only [PathCall.reply, PathCall.path, PathCall.Fits, Configuration.getExecutablePath,
      writePath_whole hdead hwrite, and_true]
    exact cStr_eq_terminated hzero

/-- `/a` as an executable, `/` as the vchroot and `/m` as the default. -/
def somePaths : Paths Unit where
  process := ⟨{ cachedVchrootPath := [47] }, ⟨.task, false, fun _ => 0⟩⟩
  target := { executablePath := [47, 97] }
  defaultMldrPath := [47, 109]

theorem path_follows_iff_exact :
    (0 : UInt8) ∉ PathCall.getExecutablePath.path somePaths ∧
    ((PathCall.getExecutablePath.reply somePaths 0 0x1000 3 fun bytes => .moved bytes.length).Follows [47, 97] 3 ↔
      PathCall.getExecutablePath.Fits somePaths 3) :=
  ⟨by decide, path_follows_iff .getExecutablePath somePaths 0 0x1000 3 _ (fun _ => rfl) rfl (by decide)⟩

/-- No length for an empty buffer, the length of another path, and no NUL after a path that is cut off. -/
theorem paths_break_rule :
    ¬ (PathCall.vchrootPath.reply somePaths 0 0x1000 0 fun bytes => .moved bytes.length).Follows [47] 0 ∧
    ¬ (PathCall.mldrPath.reply somePaths 0 0x1000 8 fun bytes => .moved bytes.length).Follows [47, 109] 8 ∧
    ¬ (PathCall.getExecutablePath.reply somePaths 0 0x1000 2 fun bytes => .moved bytes.length).Follows [47, 97] 2 := by
  simp only [follows_iff]
  decide

end DarlingServer.Configuration
