import Mathlib.Logic.Basic
/-!
# A managed thread

`Thread` has the fields of the server's `Thread` class that its scheduling
reads, and each definition below is one critical section under `_rwlock` (or a
stretch of code that only the worker running the thread can touch). An
exception, a failed assertion or an access C++ leaves undefined is a `Fault`.

Stacks are names: `none` is an invalid stack, and giving a stack back to the
pool is the business of the caller, who gets the freed one returned.
-/

namespace DarlingServer

/-- The call numbers the scheduler tells apart. A `trap` answers through
`syscallReturn`, a `plain` call through its own `_sendReply`. -/
inductive Number where
  | interruptEnter
  | interruptExit
  | checkout
  | trap (n : Nat)
  | plain (n : Nat)
  deriving DecidableEq, Repr

structure Call where
  id : Nat
  number : Number
  deriving DecidableEq, Repr

def Call.isXNUTrap (c : Call) : Bool :=
  match c.number with
  | .trap _ => true
  | _ => false

/-- A reply, named by the call it answers. -/
structure Message where
  call : Call
  deriving DecidableEq, Repr

abbrev Stack := Nat

/-- A `std::function` given to `suspend`. -/
abbrev Continuation := Nat

/-- What can end a run of the scheduler. -/
inductive Fault where
  | pendingCallOverwritten
  | pendingCallAndContinuation
  | interruptWithPendingCall
  | wrongCallDeactivated
  | replyOverSavedReply
  | pendingSavedReplyOverSavedReply
  | pushOutsideInterrupt
  | pushOverSavedReply
  | noActiveSyscall
  /-- `_activeCall->processCall()` on a null call. -/
  | nullActiveCall
  /-- `_interrupts.top()` or `pop()` on an empty stack. -/
  | emptyInterrupts
  /-- `setcontext` to a context whose microthread is gone. -/
  | staleContext
  /-- `assert` on the validity of `_stack`. -/
  | stackAssertion
  deriving DecidableEq, Repr

/-- The text of the exception, where the source throws one. -/
def Fault.what : Fault → Option String
  | .pendingCallOverwritten => "Thread's pending call overwritten while active"
  | .pendingCallAndContinuation => "Thread has both a pending call and a pending continuation"
  | .interruptWithPendingCall => "Need to schedule interrupt for processing, but thread has pending call"
  | .wrongCallDeactivated => "Upon deactivating the active call found active/interrupted call != expected call"
  | .replyOverSavedReply => "New reply would overwrite existing saved reply"
  | .pendingSavedReplyOverSavedReply => "Pending saved reply would overwrite saved reply"
  | .pushOutsideInterrupt => "Client tried to push reply outside of interrupt"
  | .pushOverSavedReply => "Client-pushed reply overwriting existing saved reply"
  | .noActiveSyscall => "Attempt to return from syscall on thread with no active syscall"
  | .nullActiveCall | .emptyInterrupts | .staleContext | .stackAssertion => none

inductive DeferralState where
  | notDeferred
  | deferredNotPending
  | deferredPending
  deriving DecidableEq, Repr

/-- An interrupt record, `Thread::InterruptContext`. -/
structure InterruptContext where
  savedReply : Option Message := none
  interruptedCall : Option Call := none
  savedStack : Option Stack := none
  signal : Int := 0
  deriving DecidableEq, Repr

/-- Who called the code at the bottom of a microthread's stack:
`microthreadWorker`, `microthreadContinuation`, or the `interrupt_enter`
handler calling the interrupted continuation itself. -/
inductive Frame where
  | worker
  | continuation
  | handler
  deriving DecidableEq, Repr

/-- Where a `ucontext_t` goes on: the stack it was captured on, its bottom
frame, and the call whose `processCall` that frame made. -/
structure Context where
  stack : Stack
  frame : Frame
  call : Option Call
  deriving DecidableEq, Repr

structure Thread where
  pendingCall : Option Call := none
  stack : Option Stack := none
  suspended : Bool := false
  resumeContext : Option Context := none
  continuationCallback : Option Continuation := none
  running : Bool := false
  terminating : Bool := false
  activeCall : Option Call := none
  pendingCallOverride : Bool := false
  deferralState : DeferralState := .notDeferred
  interruptedForSignal : Bool := false
  interruptedContinuation : Option Continuation := none
  syscallReturnHereDuringInterrupt : Option Context := none
  didSyscallReturnDuringInterrupt : Bool := false
  handlingInterruptedCall : Bool := false
  deferReplyForS2C : Bool := false
  deferredReply : Option Message := none
  /-- Top of the stack first. -/
  interrupts : List InterruptContext := []
  /-- Front of the queue first. -/
  pendingInterrupts : List Call := []
  pendingSavedReply : Option Message := none
  dead : Bool := false

namespace Thread

/-! ## Calls and their replies -/

def setPendingCall (t : Thread) (newPendingCall : Call) : Except Fault Thread :=
  if t.pendingCall.isSome then
    if newPendingCall.number = .interruptEnter then
      .ok { t with pendingInterrupts := t.pendingInterrupts ++ [newPendingCall] }
    else .error .pendingCallOverwritten
  else .ok { t with pendingCall := some newPendingCall }

/-- With `microthreadWorker`'s call through the new `_activeCall`. -/
def makePendingCallActive (t : Thread) : Except Fault (Thread × Call) :=
  match t.pendingCall with
  | none => .error .nullActiveCall
  | some c => .ok ({ t with activeCall := some c, pendingCall := none }, c)

/-- The call that `syscallReturn` answers. -/
def currentCall (t : Thread) : Except Fault (Option Call) :=
  if t.interruptedForSignal then
    match t.interrupts with
    | [] => .error .emptyInterrupts
    | top :: _ => .ok top.interruptedCall
  else .ok t.activeCall

def deactivateCallLocked (t : Thread) (expectedCall : Call) : Except Fault Thread :=
  if t.interruptedForSignal then
    match t.interrupts with
    | [] => .error .emptyInterrupts
    | top :: rest =>
      if top.interruptedCall = some expectedCall then
        .ok { t with interrupts := { top with interruptedCall := none } :: rest }
      else .error .wrongCallDeactivated
  else if t.activeCall = some expectedCall then .ok { t with activeCall := none }
  else .error .wrongCallDeactivated

/-- Where `pushCallReply` left the reply. -/
inductive Delivery where
  | sent
  | saved
  | deferred
  | dropped
  deriving DecidableEq, Repr

/-- The part of `pushCallReply` after the deactivation. -/
def deliverReply (t : Thread) (reply : Message) : Except Fault (Thread × Delivery) :=
  if t.interruptedForSignal then
    match t.interrupts with
    | [] => .error .emptyInterrupts
    | top :: rest =>
      if top.savedReply.isSome then .error .replyOverSavedReply
      else .ok ({ t with interrupts := { top with savedReply := some reply } :: rest }, .saved)
  else if t.deferReplyForS2C then .ok ({ t with deferredReply := some reply }, .deferred)
  else if !t.dead then .ok (t, .sent)
  else .ok (t, .dropped)

def pushCallReply (t : Thread) (expectedCall : Call) (reply : Message) : Except Fault (Thread × Delivery) :=
  (t.deactivateCallLocked expectedCall).bind (·.deliverReply reply)

/-- The section of `InterruptExit::processCall` after its reply: the record
popped and the saved reply to send. -/
def exitInterrupt (t : Thread) : Except Fault (Thread × Option Message) :=
  match t.interrupts with
  | [] => .error .emptyInterrupts
  | top :: rest => .ok ({ t with interrupts := rest }, top.savedReply)

/-- The section of `callFromMessage` that stores a client-pushed reply. -/
def pushReply (t : Thread) (replyToSave : Message) : Except Fault Thread :=
  if (t.pendingCall.map (·.number)) = some .interruptEnter then
    .ok { t with pendingSavedReply := some replyToSave }
  else
    match t.interrupts with
    | [] => .error .pushOutsideInterrupt
    | top :: rest =>
      if top.savedReply.isSome then .error .pushOverSavedReply
      else .ok { t with interrupts := { top with savedReply := some replyToSave } :: rest }

/-! ## doWork -/

/-- What the entry checks of `doWork` decide. -/
inductive Entry where
  | deferred
  | alreadyRunning
  | doneWorking
  | entered
  deriving DecidableEq, Repr

def doWorkEntry (t : Thread) : Thread × Entry :=
  if t.deferralState ≠ .notDeferred then ({ t with deferralState := .deferredPending }, .deferred)
  else if t.running then (t, .alreadyRunning)
  else if t.terminating then (t, .doneWorking)
  else if t.dead && t.activeCall.isNone then ({ t with terminating := true }, .doneWorking)
  else ({ t with running := true }, .entered)

/-- The interrupt record `doWork` makes when it finds a pending `interrupt_enter`. -/
def beginInterrupt (t : Thread) : Thread :=
  if t.pendingCallOverride = false ∧ t.pendingCall.map (·.number) = some .interruptEnter then
    { t with
      interrupts := { savedStack := t.stack, interruptedCall := t.activeCall } :: t.interrupts
      stack := none
      interruptedContinuation := t.continuationCallback
      continuationCallback := none
      activeCall := none }
  else t

/-- What `doWork` does once it holds the thread. -/
inductive Dispatch where
  | resumeContinuation
  | resumeContext
  | startCall
  | doneWorking
  deriving DecidableEq, Repr

/-- The section of `doWork` after `getcontext`. -/
def doWorkDispatch (t : Thread) : Except Fault (Thread × Dispatch) :=
  let t := t.beginInterrupt
  if t.continuationCallback.isSome && t.pendingCall.isSome then .error .pendingCallAndContinuation
  else if t.suspended && (t.pendingCallOverride || t.pendingCall.isNone) then
    .ok ({ t with suspended := false },
      if t.continuationCallback.isSome then .resumeContinuation else .resumeContext)
  else if t.pendingCall.isNone then .ok (t, .doneWorking)
  else .ok ({ t with suspended := false }, .startCall)

/-- The stack work after a dispatch, with `fresh` what the pool hands out; also
the stack given back. `microthreadContinuation` takes the continuation. -/
def switchStack (t : Thread) (fresh : Stack) : Dispatch → Except Fault (Thread × Option Stack)
  | .resumeContinuation =>
    if t.stack.isSome then .error .stackAssertion
    else .ok ({ t with stack := some fresh, continuationCallback := none }, none)
  | .resumeContext => if t.stack.isSome then .ok (t, none) else .error .stackAssertion
  | .startCall => .ok ({ t with stack := some fresh }, t.stack)
  | .doneWorking => .ok (t, none)

/-- Back at the top: the stack is given back unless the microthread suspended
and will go on where it was. -/
def returnToTop (t : Thread) : Except Fault (Thread × Option Stack) :=
  if !t.suspended || t.continuationCallback.isSome then
    if t.stack.isSome then .ok ({ t with stack := none }, t.stack) else .error .stackAssertion
  else .ok (t, none)

/-- The done-working section of `doWork`, and whether it schedules the thread.
The `notifyDead` it may call once it has let go of the lock is a section of its own. -/
def doneWorking (t : Thread) : Except Fault (Thread × Bool) :=
  let t := { t with
    running := false
    terminating := t.terminating || (t.dead && t.activeCall.isNone) }
  if t.terminating || t.dead then .ok (t, false)
  else
    match t.pendingInterrupts with
    | [] => .ok (t, false)
    | i :: rest =>
      if t.pendingCall.isSome then .error .interruptWithPendingCall
      else .ok ({ t with pendingCall := some i, pendingInterrupts := rest }, true)

/-! ## Suspending and resuming -/

/-- The first section of `suspend`, with the context it captures. -/
def suspendBegin (t : Thread) (here : Context) : Thread :=
  { t with suspended := true, resumeContext := some here }

/-- The second section of `suspend`: whether it jumps back to the top. -/
def suspendCommit (t : Thread) (continuationCallback : Option Continuation) : Thread × Bool :=
  if t.suspended then
    match continuationCallback with
    | some k => ({ t with continuationCallback := some k }, true)
    | none => (t, true)
  else (t, false)

/-- Whether `resume` schedules the thread. -/
def resume (t : Thread) : Bool := t.suspended

/-- `setupKernelThread`. -/
def setupKernelThread (startupCallback : Continuation) : Thread :=
  { continuationCallback := some startupCallback, suspended := true }

def defer (t : Thread) : Thread :=
  if t.deferralState = .notDeferred then { t with deferralState := .deferredNotPending } else t

/-- `undefer`, and whether it schedules the thread. -/
def undefer (t : Thread) : Thread × Bool :=
  ({ t with deferralState := .notDeferred }, t.deferralState = .deferredPending)

/-- The locked section of `notifyDead`. The `resume` after it is a section of its own. -/
def notifyDead (t : Thread) : Thread :=
  if t.dead then t
  else { t with dead := true, terminating := t.terminating || t.activeCall.isNone }

def terminate (t : Thread) : Thread := { t with terminating := true }

/-! ## interrupt_enter -/

/-- How the handler restarts the interrupted call. -/
inductive Restart where
  | continuation
  | jumpToResume
  | nothing
  deriving DecidableEq, Repr

/-- `_handleInterruptEnterForCurrentThread`, running at `here`, up to the restart. -/
def interruptEnterBegin (t : Thread) (here : Context) : Except Fault (Thread × Restart) :=
  match t.interrupts with
  | [] => .error .emptyInterrupts
  | top :: rest =>
    if t.pendingSavedReply.isSome && top.savedReply.isSome then .error .pendingSavedReplyOverSavedReply
    else
      let top := { top with savedReply := t.pendingSavedReply.or top.savedReply }
      let t' := { t with
        interrupts := top :: rest
        pendingSavedReply := none
        interruptedForSignal := true
        interruptedContinuation := none
        didSyscallReturnDuringInterrupt := false
        syscallReturnHereDuringInterrupt := some here }
      if t.interruptedContinuation.isSome then .ok (t', .continuation)
      else if top.interruptedCall.isSome then
        .ok ({ t' with handlingInterruptedCall := true, pendingCallOverride := true }, .jumpToResume)
      else .ok (t', .nothing)

/-- The handler from where the interrupted call has come back to it, and the stack given back. -/
def interruptEnterEnd (t : Thread) : Except Fault (Thread × Option Stack) :=
  let back := t.didSyscallReturnDuringInterrupt && t.handlingInterruptedCall
  match t.interrupts with
  | [] => .error .emptyInterrupts
  | top :: rest =>
    .ok ({ t with
      handlingInterruptedCall := t.handlingInterruptedCall && !back
      pendingCallOverride := t.pendingCallOverride && !back
      interrupts := { top with savedStack := none, interruptedCall := none } :: rest
      interruptedForSignal := false }, top.savedStack)

/-- How the code of a call leaves its microthread. -/
inductive Exit where
  | byReturn
  | bySyscallReturn
  deriving DecidableEq, Repr

/-- Whether code that is done goes back to the `interrupt_enter` handler (and not to the top):
`syscallReturn` asks `_interruptedForSignal`, the two microthread entry points ask
`_handlingInterruptedCall`, and the handler's own frame is simply returned to. -/
def returnsToHandler (t : Thread) (frame : Frame) : Exit → Bool
  | .bySyscallReturn => t.interruptedForSignal
  | .byReturn =>
    match frame with
    | .handler => true
    | .worker | .continuation => t.handlingInterruptedCall

/-! ## Server-to-client calls -/

/-- The branch of `_s2cPerform` that holds replies back for another microthread. -/
def s2cDefer (t : Thread) : Thread := { t with deferReplyForS2C := true }

/-- The end of `_s2cPerform` that lets replies go again, and the one to send. -/
def s2cRelease (t : Thread) : Thread × Option Message :=
  if t.deferReplyForS2C then ({ t with deferReplyForS2C := false, deferredReply := none }, t.deferredReply)
  else (t, none)

end Thread

end DarlingServer
