import DarlingServer.Configuration
import DarlingServer.Lib.Inventory
/-!
# Opening a channel

`kqchan_mach_port_open` and `kqchan_proc_open` make a channel, set it up and register
it with the process. The setup takes a reference on the task, a pair of sockets and a
place in the event loop, one after the other, and throws where a step fails. Only the
call catches that, and it undoes nothing: the channel is registered all the same, the
reference and the sockets stay.
-/

namespace DarlingServer.KqchanOpen

open DarlingServer.Configuration (Caller)
open Transfers (ESRCH)

/-- The `errno` of a system call that failed. -/
structure Errno where
  value : Nat
  pos : 0 < value

/-- The two descriptors of a `socketpair` or a `pipe`. -/
structure Pair (φ : Type*) where
  first : φ
  second : φ
  ne : first ≠ second

/-- What keeps a descriptor. -/
inductive Holder (κ : Type*) where
  | process
  | monitor
  | kqchan (k : κ)

/-- What opening a channel works on: the channels the process owns, those that listen on
the target, the references on the task and the descriptors. -/
structure Server (κ φ : Type*) where
  kqchannels : List κ := []
  listeningKqchannels : List κ := []
  taskReferences : Nat := 1
  descriptors : Inventory (Holder κ) φ := {}

/-- How the system calls of `Kqchan::setup` end; `none` is success. -/
structure SetupOutcomes (φ : Type*) where
  socketpair : Except Errno (Pair φ)
  getFlags : Option Errno := none
  setFlags : Option Errno := none
  addMonitor : Option Errno := none

structure MachPortOutcomes (φ : Type*) extends SetupOutcomes φ where
  malloc : Bool := true
  /-- `filt_machportattach` finds the port and links the knote. -/
  attach : Bool := true
  /-- The first notification, if there is an event already. -/
  notify : Option Errno := none

structure ProcOutcomes (φ : Type*) extends SetupOutcomes φ where
  /-- The target is in the process registry. -/
  found : Bool := true

variable {κ φ : Type*}

/-! ## The calls -/

def esrch : Errno := ⟨ESRCH, by decide⟩

/-- A step that throws if it fails. -/
def throwing {α : Type*} (failure : Option Errno) (next : Except Errno α) : Except Errno α :=
  match failure with
  | some errno => .error errno
  | none => next

/-- `Kqchan::setup`: the socket to give away, or what it throws. The channel keeps the other one. -/
def setup (k : κ) (w : Server κ φ) (o : SetupOutcomes φ) : Except Errno φ × Server κ φ :=
  match o.socketpair with
  | .error errno => (.error errno, w)
  | .ok fds =>
    (throwing o.getFlags (throwing o.setFlags (throwing o.addMonitor (.ok fds.second))),
      { w with descriptors := (w.descriptors.take [fds.first, fds.second]).own (.kqchan k) fds.first })

/-- `dtape_kqchan_mach_port_create`: whether there is a channel, and the references on the task. -/
def dtapeKqchanMachPortCreate (taskReferences : Nat) (o : MachPortOutcomes φ) : Bool × Nat :=
  if o.malloc then
    -- the channel is freed if it cannot be attached; its reference is not given back
    (o.attach, taskReferences + 1)
  else (false, taskReferences)

def setupMachPort (k : κ) (w : Server κ φ) (o : MachPortOutcomes φ) : Except Errno φ × Server κ φ :=
  let (created, taskReferences) := dtapeKqchanMachPortCreate w.taskReferences o
  let w := { w with taskReferences }
  if created then
    let (fd, w) := setup k w o.toSetupOutcomes
    (fd.bind fun fd => throwing o.notify (.ok fd), w)
  else (.error esrch, w)

def setupProc (k : κ) (w : Server κ φ) (o : ProcOutcomes φ) : Except Errno φ × Server κ φ :=
  if o.found then
    match setup k w o.toSetupOutcomes with
    | (.error errno, w) => (.error errno, w)
    | (.ok fd, w) => (.ok fd, { w with listeningKqchannels := k :: w.listeningKqchannels })
  else (.error esrch, w)

inductive OpenCall (φ : Type*) where
  | kqchanMachPortOpen (o : MachPortOutcomes φ)
  | kqchanProcOpen (o : ProcOutcomes φ)

def OpenCall.setup (k : κ) (w : Server κ φ) : OpenCall φ → Except Errno φ × Server κ φ
  | .kqchanMachPortOpen o => setupMachPort k w o
  | .kqchanProcOpen o => setupProc k w o

/-- Both `processCall`s, for the new channel `k`: the code of the reply and the server after it. -/
def processCall (caller : Caller) (k : κ) (w : Server κ φ) (call : OpenCall φ) : Int × Server κ φ :=
  match caller with
  | .process =>
    let (result, w) := call.setup k w
    let w := { w with kqchannels := k :: w.kqchannels }
    match result with
    | .ok socket => (0, { w with descriptors := w.descriptors.hand socket })
    | .error errno => (-errno.value, w)
  | _ => (-ESRCH, w)

/-! ## What is left -/

/-- Every step of `Kqchan::setup` succeeds. -/
def SetupOutcomes.Succeeds (o : SetupOutcomes φ) : Prop :=
  (∃ fds, o.socketpair = .ok fds) ∧ o.getFlags = none ∧ o.setFlags = none ∧ o.addMonitor = none

def OpenCall.Succeeds : OpenCall φ → Prop
  | .kqchanMachPortOpen o => o.malloc = true ∧ o.attach = true ∧ o.toSetupOutcomes.Succeeds ∧ o.notify = none
  | .kqchanProcOpen o => o.found = true ∧ o.toSetupOutcomes.Succeeds

theorem throwing_ok {α : Type*} {failure : Option Errno} {next : Except Errno α} {a : α} :
    throwing failure next = .ok a ↔ failure = none ∧ next = .ok a := by
  cases failure with
  | none => simp [throwing]
  | some errno => simp [throwing]

theorem bind_throwing_ok {α : Type*} {failure : Option Errno} {result : Except Errno α} {a : α} :
    (result.bind fun x => throwing failure (.ok x)) = .ok a ↔ result = .ok a ∧ failure = none := by
  cases result with
  | error errno => exact iff_of_false nofun (fun h => nomatch h.1)
  | ok x =>
    rw [and_comm]
    exact throwing_ok

theorem setup_ok_iff {k : κ} {w : Server κ φ} {o : SetupOutcomes φ} :
    (∃ fd, (setup k w o).1 = .ok fd) ↔ o.Succeeds := by
  unfold setup SetupOutcomes.Succeeds
  cases o.socketpair with
  | error errno => simp
  | ok fds => simp [throwing_ok]

theorem setupMachPort_ok_iff {k : κ} {w : Server κ φ} {o : MachPortOutcomes φ} :
    (∃ fd, (setupMachPort k w o).1 = .ok fd) ↔ (OpenCall.kqchanMachPortOpen o).Succeeds := by
  obtain ⟨o, malloc, attach, notify⟩ := o
  cases malloc with
  | false => simp [setupMachPort, dtapeKqchanMachPortCreate, OpenCall.Succeeds]
  | true =>
    cases attach with
    | false => simp [setupMachPort, dtapeKqchanMachPortCreate, OpenCall.Succeeds]
    | true =>
      simp only [setupMachPort, dtapeKqchanMachPortCreate, OpenCall.Succeeds, if_true, true_and,
        ← setup_ok_iff (k := k) (w := { w with taskReferences := w.taskReferences + 1 }), bind_throwing_ok,
        exists_and_right]

theorem setupProc_ok_iff {k : κ} {w : Server κ φ} {o : ProcOutcomes φ} :
    (∃ fd, (setupProc k w o).1 = .ok fd) ↔ (OpenCall.kqchanProcOpen o).Succeeds := by
  obtain ⟨o, found⟩ := o
  cases found with
  | false => simp [setupProc, OpenCall.Succeeds]
  | true =>
    simp only [setupProc, OpenCall.Succeeds, if_true, true_and, ← setup_ok_iff (k := k) (w := w)]
    split
    next h => simp [h]
    next h => simp [h]

theorem OpenCall.setup_ok_iff {k : κ} {w : Server κ φ} (call : OpenCall φ) :
    (∃ fd, (call.setup k w).1 = .ok fd) ↔ call.Succeeds := by
  cases call with
  | kqchanMachPortOpen o => exact setupMachPort_ok_iff
  | kqchanProcOpen o => exact setupProc_ok_iff

/-- The sockets that a `socketpair` has made. -/
def made : Except Errno (Pair φ) → List φ
  | .ok fds => [fds.first, fds.second]
  | .error _ => []

/-- The references that opening a channel takes on the task. -/
def OpenCall.references : OpenCall φ → Nat
  | .kqchanMachPortOpen o => if o.malloc then 1 else 0
  | .kqchanProcOpen _ => 0

/-- The sockets it makes. -/
def OpenCall.sockets : OpenCall φ → List φ
  | .kqchanMachPortOpen o => if o.malloc && o.attach then made o.socketpair else []
  | .kqchanProcOpen o => if o.found then made o.socketpair else []

/-- The descriptors after a setup: none were made, or the channel keeps the first of a
pair, and the second is what is given away if nothing was thrown. -/
def Connects (k : κ) (w : Server κ φ) (sockets : List φ) (r : Except Errno φ × Server κ φ) : Prop :=
  (sockets = [] ∧ r.2.descriptors = w.descriptors ∧ ∀ fd, r.1 ≠ .ok fd) ∨
  ∃ pair : Pair φ, sockets = [pair.first, pair.second] ∧
    r.2.descriptors = (w.descriptors.take [pair.first, pair.second]).own (.kqchan k) pair.first ∧
    ∀ fd, r.1 = .ok fd → fd = pair.second

theorem Connects.imp {k : κ} {w : Server κ φ} {sockets : List φ} {r r' : Except Errno φ × Server κ φ}
    (h : Connects k w sockets r) (hdescriptors : r'.2.descriptors = r.2.descriptors)
    (hok : ∀ fd, r'.1 = .ok fd → r.1 = .ok fd) : Connects k w sockets r' := by
  rcases h with ⟨hmade, hkeeps, hthrows⟩ | ⟨pair, hmade, hkeeps, hgives⟩
  · exact .inl ⟨hmade, hdescriptors.trans hkeeps, fun fd hfd => hthrows fd (hok fd hfd)⟩
  · exact .inr ⟨pair, hmade, hdescriptors.trans hkeeps, fun fd hfd => hgives fd (hok fd hfd)⟩

theorem setup_connects (k : κ) (w : Server κ φ) (o : SetupOutcomes φ) :
    Connects k w (made o.socketpair) (setup k w o) := by
  unfold setup
  cases o.socketpair with
  | error errno => exact .inl ⟨rfl, rfl, nofun⟩
  | ok fds =>
    refine .inr ⟨fds, rfl, rfl, fun fd hfd => ?_⟩
    simp only [throwing_ok, Except.ok.injEq] at hfd
    exact hfd.2.2.2.symm

theorem OpenCall.setup_connects (k : κ) (w : Server κ φ) (call : OpenCall φ) :
    Connects k w call.sockets (call.setup k w) := by
  cases call with
  | kqchanMachPortOpen o =>
    obtain ⟨o, malloc, attach, notify⟩ := o
    cases malloc with
    | false => exact .inl ⟨rfl, rfl, nofun⟩
    | true =>
      cases attach with
      | false => exact .inl ⟨rfl, rfl, nofun⟩
      | true =>
        have hsetup := KqchanOpen.setup_connects k { w with taskReferences := w.taskReferences + 1 } o
        exact hsetup.imp rfl fun fd hfd => (bind_throwing_ok.1 hfd).1
  | kqchanProcOpen o =>
    obtain ⟨o, found⟩ := o
    cases found with
    | false => exact .inl ⟨rfl, rfl, nofun⟩
    | true =>
      have hsetup := KqchanOpen.setup_connects k w o
      rcases hr : KqchanOpen.setup k w o with ⟨errno | fd, w'⟩ <;>
        · rw [hr] at hsetup
          simp only [OpenCall.setup, setupProc, hr, if_true]
          exact hsetup.imp rfl fun _ hfd => hfd

/-- A setup registers nothing with the process, and takes its references. -/
theorem setup_refers (k : κ) (w : Server κ φ) (o : SetupOutcomes φ) :
    (setup k w o).2.kqchannels = w.kqchannels ∧ (setup k w o).2.taskReferences = w.taskReferences ∧
    (setup k w o).2.listeningKqchannels = w.listeningKqchannels := by
  unfold setup
  cases o.socketpair <;> exact ⟨rfl, rfl, rfl⟩

theorem OpenCall.setup_refers (k : κ) (w : Server κ φ) (call : OpenCall φ) :
    (call.setup k w).2.kqchannels = w.kqchannels ∧
    (call.setup k w).2.taskReferences = w.taskReferences + call.references ∧
    ((∀ fd, (call.setup k w).1 ≠ .ok fd) → (call.setup k w).2.listeningKqchannels = w.listeningKqchannels) := by
  cases call with
  | kqchanMachPortOpen o =>
    obtain ⟨o, malloc, attach, notify⟩ := o
    cases malloc with
    | false => exact ⟨rfl, rfl, fun _ => rfl⟩
    | true =>
      cases attach with
      | false => exact ⟨rfl, rfl, fun _ => rfl⟩
      | true =>
        obtain ⟨hkq, hrefs, hlistening⟩ := KqchanOpen.setup_refers k { w with taskReferences := w.taskReferences + 1 } o
        exact ⟨hkq, hrefs, fun _ => hlistening⟩
  | kqchanProcOpen o =>
    obtain ⟨o, found⟩ := o
    cases found with
    | false => exact ⟨rfl, rfl, fun _ => rfl⟩
    | true =>
      have hsetup := KqchanOpen.setup_refers k w o
      rcases hr : KqchanOpen.setup k w o with ⟨errno | fd, w'⟩
      · rw [hr] at hsetup
        simp only [OpenCall.setup, setupProc, hr, if_true]
        exact ⟨hsetup.1, hsetup.2.1, fun _ => hsetup.2.2⟩
      · rw [hr] at hsetup
        simp only [OpenCall.setup, setupProc, hr, if_true]
        exact ⟨hsetup.1, hsetup.2.1, fun h => absurd rfl (h fd)⟩

/-- What a call leaves when it fails: a registered channel, its references and its sockets. -/
theorem processCall_failed {k : κ} {w : Server κ φ} {call : OpenCall φ} (h : ¬ call.Succeeds) :
    (processCall .process k w call).1 ≠ 0 ∧
    (processCall .process k w call).2.kqchannels = k :: w.kqchannels ∧
    (processCall .process k w call).2.listeningKqchannels = w.listeningKqchannels ∧
    (processCall .process k w call).2.taskReferences = w.taskReferences + call.references ∧
    (processCall .process k w call).2.descriptors = (call.setup k w).2.descriptors := by
  have hfails : ∀ fd, (call.setup k w).1 ≠ .ok fd := fun fd hfd => h (call.setup_ok_iff.1 ⟨fd, hfd⟩)
  obtain ⟨hkq, hrefs, hlistening⟩ := call.setup_refers k w
  rcases hr : call.setup k w with ⟨errno | fd, w'⟩
  · rw [hr] at hkq hrefs hlistening
    simp only [processCall, hr]
    refine ⟨?_, ?_, hlistening nofun, hrefs, trivial⟩
    · have := errno.pos
      omega
    · rw [hkq]
  · exact absurd (by rw [hr]) (hfails fd)

theorem processCall_succeeds {k : κ} {w : Server κ φ} {call : OpenCall φ} (h : call.Succeeds) :
    ∃ fd, (call.setup k w).1 = .ok fd ∧ (processCall .process k w call).1 = 0 ∧
      (processCall .process k w call).2.descriptors = (call.setup k w).2.descriptors.hand fd := by
  obtain ⟨fd, hfd⟩ := (call.setup_ok_iff (k := k) (w := w)).2 h
  refine ⟨fd, hfd, ?_⟩
  rcases hr : call.setup k w with ⟨errno | fd', w'⟩
  · rw [hr] at hfd
    cases hfd
  · rw [hr] at hfd
    cases hfd
    simp only [processCall, hr, and_self]

/-- Nothing of what opening a channel works on has changed. -/
structure Unchanged [DecidableEq φ] (w w' : Server κ φ) : Prop where
  kqchannels : w'.kqchannels = w.kqchannels
  listeningKqchannels : w'.listeningKqchannels = w.listeningKqchannels
  taskReferences : w'.taskReferences = w.taskReferences
  descriptors : w'.descriptors.live = w.descriptors.live

/-- An open that replies with an error changes nothing exactly if it got no further than the caller. -/
theorem failed_open_unchanged_iff [DecidableEq φ] (caller : Caller) (k : κ) (w : Server κ φ) (call : OpenCall φ) :
    ((processCall caller k w call).1 ≠ 0 → Unchanged w (processCall caller k w call).2) ↔
      (caller = .process → call.Succeeds) := by
  constructor
  · rintro h rfl
    by_contra hfails
    have hleft := processCall_failed (k := k) (w := w) hfails
    -- the channel is registered although it was never set up
    have hsame := (h hleft.1).kqchannels
    rw [hleft.2.1] at hsame
    exact List.cons_ne_self _ _ hsame
  · intro h hcode
    cases caller with
    | process =>
      obtain ⟨-, -, hzero, -⟩ := processCall_succeeds (k := k) (w := w) (h rfl)
      exact absurd hzero hcode
    | noThread => exact ⟨rfl, rfl, rfl, rfl⟩
    | noProcess => exact ⟨rfl, rfl, rfl, rfl⟩

/-- A port that cannot be attached to, a target that is not there, and sockets that cannot be made non-blocking. -/
theorem failed_open_leaves :
    let w : Server Nat Nat := {}
    let pair : Pair Nat := ⟨3, 4, by decide⟩
    let noPort := processCall .process 7 w (.kqchanMachPortOpen { socketpair := .ok pair, attach := false })
    let noTarget := processCall .process 7 w (.kqchanProcOpen { socketpair := .ok pair, found := false })
    let noFlags := processCall .process 7 w (.kqchanProcOpen { socketpair := .ok pair, getFlags := some ⟨9, by decide⟩ })
    (noPort.1 ≠ 0 ∧ ¬ Unchanged w noPort.2 ∧ noPort.2.taskReferences = 2 ∧ noPort.2.kqchannels = [7]) ∧
    (noTarget.1 ≠ 0 ∧ ¬ Unchanged w noTarget.2 ∧ noTarget.2.kqchannels = [7]) ∧
    (noFlags.1 ≠ 0 ∧ ¬ Unchanged w noFlags.2 ∧ noFlags.2.descriptors.live = [3, 4]) := by
  refine ⟨⟨by decide, fun h => ?_, rfl, rfl⟩, ⟨by decide, fun h => ?_, rfl⟩, ⟨by decide, fun h => ?_, rfl⟩⟩
  · cases h.taskReferences
  · cases h.kqchannels
  · cases h.kqchannels

end DarlingServer.KqchanOpen
