import DarlingServer.Lib.Runs
import DarlingServer.Thread
/-!
# One thread between the main loop, the workers and its client

`Local` is what one thread's run touches: its `Thread`, where the worker that
holds it is, the stacks it gave back to the pool, and its client. `Local.core`
takes one critical section at a time. `State` adds what the rest of the server
keeps about the thread (entries in the work queue, a call the main loop has yet
to push, a `resume` that has yet to push), and `State.step` is the machine whose
runs the rest of the development is about.

Sending a call and `callFromMessage` handling it are one step: the socket keeps
the order, and the client does nothing in between that the server could see.
-/

namespace DarlingServer

open Thread

/-- Where the worker that holds the thread is. -/
inductive Phase where
  | off
  /-- Past the entry checks of `doWork`. -/
  | entered
  /-- In `microthreadWorker`, before `makePendingCallActive`. -/
  | starting
  /-- In the code of a call, other than `interrupt_enter`'s handler. -/
  | body
  /-- Between the two sections of `suspend`. -/
  | suspending (continuationCallback : Option Continuation)
  /-- On the way to the top of `doWork`. -/
  | returning
  /-- In `interrupt_enter`, before the interrupted call is restarted. -/
  | interrupting
  /-- In `interrupt_enter`, the interrupted call having come back. -/
  | returned
  /-- In `interrupt_enter`, before its reply. -/
  | answering
  /-- In `interrupt_exit`, after its reply. -/
  | exiting
  /-- Held by a kernel microthread that impersonates the thread. -/
  | impersonated
  deriving DecidableEq, Repr

/-! ## The client -/

/-- What a client suspended to handle a signal: the `interrupt_enter` it sent,
and the call it was waiting for. -/
structure Level where
  opener : Call
  awaiting : Option Call
  deriving DecidableEq, Repr

structure Client where
  /-- False for a kernel thread, which has no client. -/
  user : Bool := true
  awaiting : Option Call := none
  entering : Option Call := none
  levels : List Level := []
  /-- A reply that has to go back with `push_reply`. -/
  pushing : Option Message := none
  /-- Sent by the server and not yet received. -/
  wire : List Message := []

namespace Client

def send (k : Client) (c : Call) : Client :=
  if c.number = .interruptEnter then { k with entering := some c } else { k with awaiting := some c }

/-- What a reply means to a client that waits for nothing but its last call. -/
def expect (k : Client) (m : Message) : Client :=
  if k.awaiting = some m.call then
    if m.call.number = .interruptExit then
      { k with awaiting := (k.levels.head?.bind (·.awaiting)), levels := k.levels.tail }
    else { k with awaiting := none }
  else k

/-- The client takes the next message. While it waits for `interrupt_enter`,
any other reply is one to push back. -/
def receive (k : Client) : Option Client :=
  match k.wire with
  | [] => none
  | m :: wire =>
    match k.entering with
    | some i =>
      if m = ⟨i⟩ then
        some { k with wire, entering := none, awaiting := none, levels := ⟨i, k.awaiting⟩ :: k.levels }
      else some { k with wire, pushing := some m }
    | none => some ({ k with wire }.expect m)

end Client

/-! ## The critical sections -/

structure Local where
  th : Thread := {}
  phase : Phase := .off
  /-- What the microthread is executing, while a worker runs it. -/
  cur : Context := ⟨0, .worker, none⟩
  nextCall : Nat := 0
  nextStack : Stack := 0
  /-- The stacks given back to the pool. -/
  freed : List Stack := []
  client : Client := {}
  /-- The replies that calls have made, and what became of those that left the thread. -/
  handed : List Message := []
  sent : List Message := []
  dropped : List Message := []
  fault : Option Fault := none

inductive Label where
  | recv (number : Number)
  | push
  | pop
  | dispatch
  | activate
  | suspend (continuationCallback : Option Continuation)
  | commit
  | resume
  | resumePush
  | reply (exit : Exit)
  | replyDirect
  | finish
  | interruptBegin
  | interruptEnd
  | exitPop
  | done
  | receive
  | pushReply (reply : Message)
  | s2cDefer
  | s2cRelease
  | defer
  | undefer
  | impersonate
  /-- A microthread that has waited to impersonate the thread finds it not running. -/
  | claim
  | unimpersonate
  | notifyDead
  | terminate
  deriving DecidableEq, Repr

namespace Local

def recv (s : Local) (n : Number) : Except Fault Local := do
  let c : Call := ⟨s.nextCall, n⟩
  let t ← s.th.setPendingCall c
  return { s with th := t, nextCall := s.nextCall + 1, client := s.client.send c }

/-- `Server::sendMessage` to this client. -/
def sendMessage (s : Local) (m : Message) : Local :=
  { s with sent := s.sent ++ [m], client := { s.client with wire := s.client.wire ++ [m] } }

def free (s : Local) (stack : Option Stack) : Local :=
  { s with freed := s.freed ++ stack.toList }

/-- `setcontext`: the microthread goes on at `ctx`. -/
def setcontext (s : Local) (ctx : Option Context) (p : Phase) : Except Fault Local :=
  match ctx with
  | none => .error .staleContext
  | some ctx =>
    if ctx.stack ∈ s.freed then .error .staleContext else .ok { s with cur := ctx, phase := p }

def doneWorking (s : Local) : Except Fault (Local × Bool) := do
  let (t, schedule) ← s.th.doneWorking
  return ({ s with th := t, phase := .off }, schedule)

/-- A worker takes an entry of the thread and runs the entry checks. -/
def pop (s : Local) : Except Fault (Local × Bool) :=
  match s.th.doWorkEntry with
  | (t, .deferred) | (t, .alreadyRunning) => .ok ({ s with th := t }, false)
  | (t, .doneWorking) => { s with th := t }.doneWorking
  | (t, .entered) => .ok ({ s with th := t, phase := .entered }, false)

def dispatch (s : Local) : Except Fault (Local × Bool) := do
  let (t, d) ← s.th.doWorkDispatch
  let (t, old) ← t.switchStack s.nextStack d
  let s := { s with th := t }.free old
  match d with
  | .doneWorking => s.doneWorking
  | .resumeContext => return (← s.setcontext s.th.resumeContext .body, false)
  | .resumeContinuation =>
    return ({ s with nextStack := s.nextStack + 1, cur := ⟨s.nextStack, .continuation, none⟩, phase := .body }, false)
  | .startCall =>
    return ({ s with nextStack := s.nextStack + 1, cur := ⟨s.nextStack, .worker, none⟩, phase := .starting }, false)

def activate (s : Local) : Except Fault Local := do
  let (t, c) ← s.th.makePendingCallActive
  return { s with
    th := t
    cur := { s.cur with call := some c }
    phase := if c.number = .interruptEnter then .interrupting else .body }

def suspend (s : Local) (continuationCallback : Option Continuation) : Local :=
  { s with th := s.th.suspendBegin s.cur, phase := .suspending continuationCallback }

def commit (s : Local) (continuationCallback : Option Continuation) : Local :=
  let (t, toTop) := s.th.suspendCommit continuationCallback
  { s with th := t, phase := if toTop then .returning else .body }

/-- `pushCallReply` from the call `c`. -/
def answer (s : Local) (c : Call) : Except Fault Local := do
  let (t, d) ← s.th.pushCallReply c ⟨c⟩
  let s : Local := { s with th := t, handed := s.handed ++ [⟨c⟩] }
  match d with
  | .sent => return s.sendMessage ⟨c⟩
  | .dropped => return { s with dropped := s.dropped ++ [⟨c⟩] }
  | .saved | .deferred => return s

/-- The code of a call is done. -/
def leave (s : Local) (exit : Exit) : Except Fault Local :=
  if s.th.returnsToHandler s.cur.frame exit then
    if s.cur.frame = .handler ∧ exit = .byReturn then
      .ok { s with cur := { s.cur with frame := .worker }, phase := .returned }
    else
      { s with th := { s.th with didSyscallReturnDuringInterrupt := true } }.setcontext
        s.th.syscallReturnHereDuringInterrupt .returned
  else .ok { s with phase := .returning }

/-- `_sendReply` at the end of `processCall`; `interrupt_exit` still has its record to pop. -/
def replyByReturn (s : Local) (c : Call) : Except Fault Local := do
  let s ← s.answer c
  if c.number = .interruptExit then return { s with phase := .exiting } else s.leave .byReturn

def syscallReturn (s : Local) : Except Fault Local := do
  match ← s.th.currentCall with
  | none => .error .noActiveSyscall
  | some c => if c.isXNUTrap then (← s.answer c).leave .bySyscallReturn else .error .noActiveSyscall

/-- `checkout` clears its thread pointer first, so its reply goes out through
the server and the call stays active. -/
def replyDirect (s : Local) (c : Call) : Except Fault Local :=
  let s : Local := { s with handed := s.handed ++ [⟨c⟩] }
  (s.sendMessage ⟨c⟩).leave .byReturn

def interruptBegin (s : Local) : Except Fault Local := do
  let (t, r) ← s.th.interruptEnterBegin s.cur
  let s := { s with th := t }
  match r with
  | .continuation => return { s with cur := { s.cur with frame := .handler }, phase := .body }
  | .jumpToResume => s.setcontext t.resumeContext .body
  | .nothing => return { s with phase := .returned }

def interruptEnd (s : Local) : Except Fault Local := do
  let (t, old) ← s.th.interruptEnterEnd
  return { s with th := t, phase := .answering }.free old

def exitPop (s : Local) : Except Fault Local := do
  let (t, saved) ← s.th.exitInterrupt
  let s := { s with th := t }
  (saved.elim s s.sendMessage).leave .byReturn

def done (s : Local) : Except Fault (Local × Bool) := do
  let (t, old) ← s.th.returnToTop
  ({ s with th := t }.free old).doneWorking

def pushReply (s : Local) (m : Message) : Except Fault Local := do
  return { s with th := ← s.th.pushReply m, client := { s.client with pushing := none } }

def s2cRelease (s : Local) : Local :=
  let (t, deferred) := s.th.s2cRelease
  deferred.elim { s with th := t } { s with th := t }.sendMessage

def unimpersonate (s : Local) : Local × Bool :=
  let (t, schedule) := { s.th with running := false }.undefer
  ({ s with th := t, phase := .off }, schedule)

/-- The section a label stands for, where its code can run; with it, whether the
thread is scheduled. -/
def core (s : Local) : Label → Option (Except Fault (Local × Bool))
  | .recv n => some ((s.recv n).map (·, false))
  | .push | .resumePush => some (.ok (s, false))
  | .pop => some s.pop
  | .dispatch => if s.phase = .entered then some s.dispatch else none
  | .activate => if s.phase = .starting then some (s.activate.map (·, false)) else none
  | .suspend k => if s.phase = .body then some (.ok (s.suspend k, false)) else none
  | .commit =>
    match s.phase with
    | .suspending k => some (.ok (s.commit k, false))
    | _ => none
  | .resume => some (.ok (s, s.th.resume))
  | .reply .byReturn =>
    if (s.phase = .body ∨ s.phase = .answering) ∧ s.cur.frame = .worker then
      (s.cur.call.filter (·.number ≠ .checkout)).map fun c => (s.replyByReturn c).map (·, false)
    else none
  | .reply .bySyscallReturn => if s.phase = .body then some (s.syscallReturn.map (·, false)) else none
  | .replyDirect =>
    if s.phase = .body ∧ s.cur.frame = .worker then
      (s.cur.call.filter (·.number = .checkout)).map fun c => (s.replyDirect c).map (·, false)
    else none
  | .finish =>
    if s.phase = .body ∧ s.cur.frame ≠ .worker then some ((s.leave .byReturn).map (·, false)) else none
  | .interruptBegin => if s.phase = .interrupting then some (s.interruptBegin.map (·, false)) else none
  | .interruptEnd => if s.phase = .returned then some (s.interruptEnd.map (·, false)) else none
  | .exitPop => if s.phase = .exiting then some (s.exitPop.map (·, false)) else none
  | .done => if s.phase = .returning then some s.done else none
  | .receive => s.client.receive.map fun k => .ok ({ s with client := k }, false)
  | .pushReply m => some ((s.pushReply m).map (·, false))
  | .s2cDefer =>
    if s.th.activeCall.isSome then some (.ok ({ s with th := s.th.s2cDefer }, false)) else none
  | .s2cRelease => some (.ok (s.s2cRelease, false))
  | .defer => some (.ok ({ s with th := s.th.defer }, false))
  | .undefer => some (.ok ({ s with th := s.th.undefer.1 }, s.th.undefer.2))
  | .impersonate =>
    if s.phase = .off then
      some (.ok ({ s with th := { s.th.defer with running := true }, phase := .impersonated }, false))
    else none
  -- the thread was deferred before the wait, and is not deferred again
  | .claim =>
    if s.phase = .off then some (.ok ({ s with th := { s.th with running := true }, phase := .impersonated }, false))
    else none
  | .unimpersonate => if s.phase = .impersonated then some (.ok s.unimpersonate) else none
  | .notifyDead => some (.ok ({ s with th := s.th.notifyDead }, false))
  | .terminate =>
    if s.client.user then none else some (.ok ({ s with th := s.th.terminate }, false))

end Local

/-! ## The machine -/

structure State where
  loc : Local := {}
  /-- Entries of the thread in the work queue. -/
  entries : Nat := 0
  /-- The call `callFromMessage` has returned to the main loop, which has yet to push its thread. -/
  toPush : Option Call := none
  /-- Calls of `resume` that have seen the thread suspended and have yet to schedule it. -/
  resuming : Nat := 0

namespace State

def ready (s : State) : Label → Bool
  | .recv _ => s.toPush.isNone
  | .push => s.toPush.isSome
  | .pop => s.entries ≠ 0
  | .resumePush => s.resuming ≠ 0
  | _ => true

/-- The queue after a section that left the thread at `x` and asked for `schedule`. -/
def account (s : State) (x : Local) (schedule : Bool) : Label → State
  | .recv n => { s with loc := x, toPush := some ⟨s.loc.nextCall, n⟩ }
  | .push => { s with loc := x, toPush := none, entries := s.entries + 1 }
  | .pop => { s with loc := x, entries := s.entries - 1 + schedule.toNat }
  | .resume => { s with loc := x, resuming := s.resuming + schedule.toNat }
  | .resumePush => { s with loc := x, resuming := s.resuming - 1, entries := s.entries + 1 }
  | _ => { s with loc := x, entries := s.entries + schedule.toNat }

/-- After a fault nothing runs. -/
def step (s : State) (l : Label) : Option State :=
  if s.loc.fault.isSome || !s.ready l then none
  else
    match s.loc.core l with
    | none => none
    | some (.error f) => some { s with loc := { s.loc with fault := some f } }
    | some (.ok (x, schedule)) => some (s.account x schedule l)

/-- A thread that has just checked in, or a kernel thread `setupKernelThread` has just set up. -/
def Init (s : State) : Prop :=
  s = {} ∨ ∃ k, s = { loc := { th := setupKernelThread k, client := { user := false } } }

/-- A client that has one call outstanding, besides `interrupt_enter`, and sends
back the replies it has to. -/
def conforms (s : State) : Label → Bool
  | .recv n =>
    let k := s.loc.client
    k.user && k.pushing.isNone && k.entering.isNone && (n = .interruptEnter || k.awaiting.isNone)
  | .receive => s.loc.client.pushing.isNone
  | .pushReply m => s.loc.client.pushing = some m
  | _ => true

def Conforms (s : State) (l : Label) : Prop := s.conforms l = true

end State

end DarlingServer
