import DarlingServer.Datagram
/-!
# Checkins

`notifyCheckin` runs for every thread that checks in. It takes the process's
`_pendingReplacement` to tell an execve from a fork: with the flag set it makes
the process anew around its main thread, and without it it tells the parent that
a child has arrived. The replacement gives the main thread a new duct-taped
thread and new semaphores, and leaves the rest of the thread as it is.
-/

namespace DarlingServer

open Thread

/-! ## A process and its threads -/

/-- The duct-taped half of a thread, as `dtape_thread_create` makes it by default. -/
structure DtapeThread where
  /-- First of the list first. -/
  userStates : List UserState := [.defaultState]
  processingSignal : Bool := false
  waitingSuspended : Bool := false
  deriving DecidableEq, Repr

/-- The counts of a thread's S2C semaphores, as they are created by default. -/
structure S2CSemaphores where
  perform : Nat := 1
  reply : Nat := 0
  interruptEnter : Nat := 0
  interruptExit : Nat := 0
  deriving DecidableEq, Repr

/-- A thread in the `_threads` of its process. -/
structure TaskThread where
  nsid : Int
  th : Thread := {}
  processingSignal : Bool := false
  s2cReply : Option Datagram := none
  semaphores : S2CSemaphores := {}
  dtape : DtapeThread := {}
  /-- `_process` is not null. -/
  attached : Bool := true

structure Process where
  nsid : Int
  architecture : Nat
  pendingReplacement : Bool := false
  threads : List TaskThread := []
  forkWaitSemaphore : Nat := 0

inductive CheckinFault where
  | mainThreadDied
  | architectureChanged
  deriving DecidableEq, Repr

/-- The text of the exception. -/
def CheckinFault.what : CheckinFault → String
  | .mainThreadDied => "Main thread for process died?"
  | .architectureChanged => "Impossible: parent process architecture != child process architecture on fork"

/-- Which of its two cases `notifyCheckin` has gone through. -/
inductive Arrival where
  /-- With the threads that were dismissed. -/
  | exec (dismissed : List TaskThread)
  | fork

/-! ## notifyCheckin -/

namespace TaskThread

/-- `_process = nullptr` and `notifyDead`. -/
def dismiss (t : TaskThread) : TaskThread := { t with attached := false, th := t.th.notifyDead }

/-- The new duct-taped thread and S2C semaphores of the main thread. -/
def replace (t : TaskThread) : TaskThread := { t with dtape := {}, semaphores := {} }

end TaskThread

namespace Process

/-- `registerThread` of a thread that has just been made, unless there is one. -/
def registerThread (p : Process) (nstid : Int) : Process :=
  if p.threads.any (·.nsid = nstid) then p
  else { p with threads := p.threads ++ [{ nsid := nstid }] }

/-- The loop that empties `_threads`: the main thread, if it finds one, and the others dismissed. -/
def clearThreads (nspid : Int) : List TaskThread → Option TaskThread × List TaskThread
  | [] => (none, [])
  | t :: rest =>
    let (mainThread, dismissed) := clearThreads nspid rest
    -- a later match would overwrite `mainThread`
    if t.nsid = nspid then (mainThread.or (some t), dismissed)
    else (mainThread, t.dismiss :: dismissed)

def mainThread (p : Process) : Option TaskThread := (clearThreads p.nsid p.threads).1

def otherThreads (p : Process) : List TaskThread := (clearThreads p.nsid p.threads).2

def notifyCheckin (p : Process) (architecture : Nat) : Except CheckinFault (Process × Arrival) :=
  if p.pendingReplacement then
    match p.mainThread with
    | none => .error .mainThreadDied
    | some mainThread =>
      .ok ({ p with
        threads := [mainThread.replace], architecture, forkWaitSemaphore := 0, pendingReplacement := false },
        .exec p.otherThreads)
  else if architecture ≠ p.architecture then .error .architectureChanged
  else .ok (p, .fork)

def setPendingReplacement (p : Process) : Process := { p with pendingReplacement := true }

theorem clearThreads_fst_isSome (nspid : Int) (threads : List TaskThread) :
    (clearThreads nspid threads).1.isSome = threads.any (·.nsid = nspid) := by
  induction threads with
  | nil => rfl
  | cons t rest ih =>
    simp only [clearThreads, List.any_cons, ← ih]
    by_cases ht : t.nsid = nspid <;> simp [ht]

theorem clearThreads_fst_nsid {nspid : Int} {threads : List TaskThread} {t : TaskThread}
    (h : (clearThreads nspid threads).1 = some t) : t.nsid = nspid := by
  induction threads with
  | nil => cases h
  | cons u rest ih =>
    simp only [clearThreads] at h
    split at h
    · rename_i hu
      rcases Option.or_eq_some_iff.1 h with hr | ⟨-, hr⟩
      · exact ih hr
      · cases hr; exact hu
    · exact ih h

theorem registerThread_any (p : Process) (nstid : Int) :
    (p.registerThread nstid).threads.any (·.nsid = nstid) = true := by
  unfold registerThread
  split
  · assumption
  · simp

@[simp] theorem registerThread_nsid (p : Process) (nstid : Int) : (p.registerThread nstid).nsid = p.nsid := by
  unfold registerThread; split <;> rfl

@[simp] theorem registerThread_architecture (p : Process) (nstid : Int) :
    (p.registerThread nstid).architecture = p.architecture := by
  unfold registerThread; split <;> rfl

@[simp] theorem registerThread_pendingReplacement (p : Process) (nstid : Int) :
    (p.registerThread nstid).pendingReplacement = p.pendingReplacement := by
  unfold registerThread; split <;> rfl

@[simp] theorem registerThread_forkWaitSemaphore (p : Process) (nstid : Int) :
    (p.registerThread nstid).forkWaitSemaphore = p.forkWaitSemaphore := by
  unfold registerThread; split <;> rfl

/-- A main thread that checks in is there when its process looks for it. -/
theorem mainThread_registerThread (p : Process) : ∃ t, (p.registerThread p.nsid).mainThread = some t := by
  apply Option.isSome_iff_exists.1
  unfold mainThread
  rw [clearThreads_fst_isSome, registerThread_nsid]
  exact registerThread_any p p.nsid

/-! ## What a checkin does -/

/-- The two ways `notifyCheckin` returns. -/
inductive CheckedIn (p : Process) (architecture : Nat) : Process → Arrival → Prop
  | exec (mainThread : TaskThread) : p.pendingReplacement = true → p.mainThread = some mainThread →
      CheckedIn p architecture { p with
        threads := [mainThread.replace], architecture, forkWaitSemaphore := 0, pendingReplacement := false }
        (.exec p.otherThreads)
  | fork : p.pendingReplacement = false → architecture = p.architecture → CheckedIn p architecture p .fork

theorem notifyCheckin_ok {p p' : Process} {architecture : Nat} {a : Arrival}
    (h : p.notifyCheckin architecture = .ok (p', a)) : CheckedIn p architecture p' a := by
  unfold notifyCheckin at h
  split at h
  · split at h
    · cases h
    · cases h; exact .exec _ ‹_› ‹_›
  · split at h
    · cases h
    · rename_i hp ha
      cases h
      exact .fork (Bool.not_eq_true _ ▸ hp) (not_not.1 ha)

theorem notifyCheckin_exec {p : Process} {t : TaskThread} (hp : p.pendingReplacement = true)
    (ht : p.mainThread = some t) (architecture : Nat) :
    ∃ p', p.notifyCheckin architecture = .ok (p', .exec p.otherThreads) := by
  unfold notifyCheckin
  rw [if_pos hp, ht]
  exact ⟨_, rfl⟩

theorem notifyCheckin_fork {p : Process} (hp : p.pendingReplacement = false) :
    p.notifyCheckin p.architecture = .ok (p, .fork) := by
  unfold notifyCheckin
  rw [if_neg (by simp [hp]), if_neg (not_not.2 rfl)]

end Process

/-! ## What is left of the old image -/

namespace TaskThread

/-- Nothing of an earlier image in what the server keeps of the thread itself. -/
structure ServerHalfFresh (t : TaskThread) : Prop where
  interrupts : t.th.interrupts = []
  pendingSavedReply : t.th.pendingSavedReply = none
  deferredReply : t.th.deferredReply = none
  s2cReply : t.s2cReply = none
  pendingInterrupts : t.th.pendingInterrupts = []
  interruptedForSignal : t.th.interruptedForSignal = false
  didSyscallReturn : t.th.didSyscallReturnDuringInterrupt = false
  handlingInterruptedCall : t.th.handlingInterruptedCall = false
  pendingCallOverride : t.th.pendingCallOverride = false
  processingSignal : t.processingSignal = false
  deferReplyForS2C : t.th.deferReplyForS2C = false
  deferralState : t.th.deferralState = .notDeferred

/-- Nothing of an earlier image on the thread. An interrupt record is where a
saved reply would be. -/
structure Fresh (t : TaskThread) : Prop extends ServerHalfFresh t where
  semaphores : t.semaphores = {}
  userStates : t.dtape.userStates = [.defaultState]
  dtapeProcessingSignal : t.dtape.processingSignal = false

theorem replace_fresh_iff (t : TaskThread) : t.replace.Fresh ↔ t.ServerHalfFresh := by
  constructor
  · rintro ⟨h, -, -, -⟩
    exact ⟨h.1, h.2, h.3, h.4, h.5, h.6, h.7, h.8, h.9, h.10, h.11, h.12⟩
  · intro h
    refine ⟨⟨h.1, h.2, h.3, h.4, h.5, h.6, h.7, h.8, h.9, h.10, h.11, h.12⟩, rfl, rfl, rfl⟩

end TaskThread

/-- The replacement leaves nothing of the old image on the main thread exactly
if there was nothing in the fields of the thread that are not the duct-taped
thread and the S2C semaphores. -/
theorem Process.replaced_fresh_iff {p p' : Process} {architecture : Nat} {dismissed : List TaskThread}
    (h : p.notifyCheckin architecture = .ok (p', .exec dismissed)) :
    ∃ old new, p.mainThread = some old ∧ p'.mainThread = some new ∧ p'.threads = [new] ∧
      (new.Fresh ↔ old.ServerHalfFresh) := by
  cases notifyCheckin_ok h with
  | exec t hp ht =>
    have hn : t.nsid = p.nsid := clearThreads_fst_nsid ht
    refine ⟨t, t.replace, ht, ?_, rfl, t.replace_fresh_iff⟩
    simp [mainThread, clearThreads, TaskThread.replace, hn]

/-- A process whose program was replaced, with its main thread in the given state. -/
def Process.execing (t : TaskThread) : Process :=
  { nsid := t.nsid, architecture := 2, pendingReplacement := true, threads := [t, { nsid := t.nsid + 1 }] }

theorem Process.replaced_fresh_iff_plain :
    ∃ p' dismissed, (Process.execing { nsid := 7 }).notifyCheckin 1 = .ok (p', .exec dismissed) ∧
      ∃ old new, (Process.execing { nsid := 7 }).mainThread = some old ∧ p'.mainThread = some new ∧
        p'.threads = [new] ∧ (new.Fresh ↔ old.ServerHalfFresh) :=
  ⟨_, _, rfl, Process.replaced_fresh_iff rfl⟩

/-- A signal handler that calls execve: the thread has handled `interrupt_enter`,
and the new image finds the interrupt record and no user state that goes with it. -/
theorem Process.handler_exec_keeps_interrupt :
    ∃ n p' new dismissed, ({ architecture := .x86_64 } : Nested).run [.interruptEnter] = .ok n ∧
      (Process.execing { nsid := 7, th := n.th, dtape := { userStates := n.userStates } }).notifyCheckin 2 =
        .ok (p', .exec dismissed) ∧
      p'.threads = [new] ∧ new.th.interrupts.length = 1 ∧ new.dtape.userStates = [.defaultState] ∧ ¬ new.Fresh :=
  ⟨_, _, _, _, rfl, rfl, rfl, rfl, rfl, fun h => List.cons_ne_nil _ _ h.interrupts⟩

end DarlingServer
