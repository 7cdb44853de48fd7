import DarlingServer.Thread
import Mathlib.Data.List.Count
import Mathlib.Data.List.Induction
/-!
# Nesting of interrupts

An `interrupt_enter` makes an interrupt record in the thread and a user state in
its duct-taped half; an `interrupt_exit` takes one of each away. Neither it nor
`sigprocess` looks how many there are. The calls here are whole: a client sends
each after the reply to the one before, and a worker takes each from `doWork`'s
entry checks to its done-working section.
-/

namespace DarlingServer

open Thread

/-! ## The duct-taped thread's user states -/

/-- A member of `user_states`: the one embedded in the thread, or one that was allocated. -/
inductive UserState where
  | defaultState
  | allocated
  deriving DecidableEq, Repr

inductive NestingFault where
  | thread (f : Fault)
  /-- `LIST_FIRST` of an empty list is used. -/
  | noUserState
  /-- `free` of the state embedded in the thread. -/
  | freesDefaultState
  /-- "Can't set pending signal with no active interrupts" -/
  | noActiveInterrupts
  /-- The call is not run to its end here: the thread was not idle. -/
  | notIdle
  deriving DecidableEq, Repr

/-- `dtape_thread_sigexc_enter2`. -/
def sigexcEnter2 (userStates : List UserState) : List UserState := .allocated :: userStates

/-- `dtape_thread_sigexc_exit`. -/
def sigexcExit : List UserState → Except NestingFault (List UserState)
  | [] => .error .noUserState
  | .defaultState :: _ => .error .freesDefaultState
  | .allocated :: rest => .ok rest

inductive Architecture where
  | x86_64
  | i386
  | other
  deriving DecidableEq, Repr

/-- The thread with both of its halves. -/
structure Nested where
  th : Thread := {}
  /-- First of the list first. -/
  userStates : List UserState := [.defaultState]
  architecture : Architecture

/-! ## The calls -/

/-- The body of a `sigprocess` call, by what becomes of it: whether the two user
states can be copied in and out, and the signals that
`dtape_thread_process_signal` sets through the `thread_set_pending_signal` hook. -/
structure SigprocessBody where
  copiedIn : Bool
  copiedOut : Bool
  signals : List Int
  deriving DecidableEq, Repr

inductive SignalCall where
  | interruptEnter
  | interruptExit
  | sigprocess (body : SigprocessBody)
  deriving DecidableEq, Repr

def SignalCall.number : SignalCall → Number
  | .interruptEnter => .interruptEnter
  | .interruptExit => .interruptExit
  | .sigprocess _ => .plain 0

/-- `dtape_thread_load_state_from_user` and `dtape_thread_save_state_to_user`, by
whether the copies succeed: `-EFAULT` or `-ENOSYS` on failure. -/
def Architecture.copyState (copied : Bool) : Architecture → Int
  | .x86_64 | .i386 => if copied then 0 else -14
  | .other => -38

/-- `_interrupts.top().signal = signal`. -/
def Thread.setTopSignal (t : Thread) (signal : Int) : Except Fault Thread :=
  match t.interrupts with
  | [] => .error .emptyInterrupts
  | top :: rest => .ok { t with interrupts := { top with signal } :: rest }

def Thread.setPendingSignal (t : Thread) (signal : Int) : Except NestingFault Thread :=
  match t.interrupts with
  | [] => .error .noActiveInterrupts
  | top :: rest => .ok { t with interrupts := { top with signal } :: rest }

def Thread.withInterrupts (t : Thread) (interrupts : List InterruptContext) : Thread := { t with interrupts }

def Thread.pendingSignal (t : Thread) : Int :=
  match t.interrupts with
  | [] => 0
  | top :: _ => top.signal

namespace Nested

/-- A section of the thread's server half. -/
def onThread (n : Nested) (section_ : Except Fault Thread) : Except NestingFault Nested :=
  match section_ with
  | .ok th => .ok { n with th }
  | .error f => .error (.thread f)

/-- `processSignal`, with the code of the `std::system_error` that
`Sigprocess::processCall` catches. -/
def processSignal (n : Nested) (body : SigprocessBody) : Except NestingFault (Nested × Int) :=
  let ret := n.architecture.copyState body.copiedIn
  if ret ≠ 0 then .ok (n, ret)
  -- `thread_set_state` writes to the first user state
  else if n.userStates = [] then .error .noUserState
  else do
    let n ← n.onThread (n.th.setTopSignal 0)
    let th ← body.signals.foldlM Thread.setPendingSignal n.th
    return ({ n with th }, n.architecture.copyState body.copiedOut)

/-- `Sigprocess::processCall` up to its reply, with the code and the signal it answers. -/
def sigprocess (n : Nested) (body : SigprocessBody) : Except NestingFault (Nested × Int × Int) := do
  let (n, code) ← n.processSignal body
  return (n, code, if code = 0 then n.th.pendingSignal else 0)

def sendReply (n : Nested) (c : Call) : Except NestingFault Nested :=
  n.onThread ((n.th.pushCallReply c ⟨c⟩).map Prod.fst)

/-- `_handleInterruptEnterForCurrentThread` when nothing was interrupted. -/
def handleInterruptEnter (n : Nested) (here : Context) : Except NestingFault Nested :=
  match n.th.interruptEnterBegin here with
  | .error f => .error (.thread f)
  | .ok (th, .nothing) => do
    let n ← { n with th }.onThread (th.interruptEnterEnd.map Prod.fst)
    return { n with userStates := sigexcEnter2 n.userStates }
  | .ok _ => .error .notIdle

/-- `processCall` of each of the three calls. -/
def processCall (n : Nested) (c : Call) (here : Context) : SignalCall → Except NestingFault Nested
  | .interruptEnter => do (← n.handleInterruptEnter here).sendReply c
  | .interruptExit => do
    let userStates ← sigexcExit n.userStates
    let n ← { n with userStates }.sendReply c
    n.onThread (n.th.exitInterrupt.map Prod.fst)
  | .sigprocess body => do
    let (n, _, _) ← n.sigprocess body
    n.sendReply c

/-- `doWork` up to the first instruction of the call, on a stack the pool hands out. -/
def startCall (n : Nested) (c : Call) (fresh : Stack) : Except NestingFault Nested :=
  match n.th.setPendingCall c with
  | .error f => .error (.thread f)
  | .ok th =>
    match th.doWorkEntry with
    | (th, .entered) =>
      match th.doWorkDispatch with
      | .error f => .error (.thread f)
      | .ok (th, .startCall) =>
        { n with th }.onThread
          ((th.switchStack fresh .startCall).bind fun r => r.1.makePendingCallActive.map Prod.fst)
      | .ok _ => .error .notIdle
    | _ => .error .notIdle

/-- `doWork` from the return of the call on. -/
def finishCall (n : Nested) : Except NestingFault Nested :=
  n.onThread (n.th.returnToTop.bind fun r => r.1.doneWorking.map Prod.fst)

/-- One call of the client, from its datagram to the end of `doWork`. -/
def handle (n : Nested) (call : SignalCall) : Except NestingFault Nested := do
  let c : Call := ⟨0, call.number⟩
  let n ← n.startCall c 0
  let n ← n.processCall c ⟨0, .worker, some c⟩ call
  n.finishCall

def run (n : Nested) (calls : List SignalCall) : Except NestingFault Nested := calls.foldlM handle n

/-! ## Signals and records -/

/-- The signals that are set all go to the top record. -/
theorem setPendingSignals (th : Thread) (top : InterruptContext) (rest : List InterruptContext) (signals : List Int) :
    ∃ signal, signals.foldlM Thread.setPendingSignal (th.withInterrupts (top :: rest)) =
      .ok (th.withInterrupts ({ top with signal } :: rest)) := by
  induction signals generalizing top with
  | nil => exact ⟨top.signal, rfl⟩
  | cons x signals ih =>
    obtain ⟨signal, h⟩ := ih { top with signal := x }
    refine ⟨signal, ?_⟩
    rw [List.foldlM_cons]
    exact h

theorem processSignal_records {n : Nested} {body : SigprocessBody} {top : InterruptContext}
    {rest : List InterruptContext} (hb : n.architecture.copyState body.copiedIn = 0) (hu : n.userStates ≠ [])
    (hi : n.th.interrupts = top :: rest) :
    ∃ signal code, n.processSignal body =
      .ok ({ n with th := n.th.withInterrupts ({ top with signal } :: rest) }, code) := by
  obtain ⟨signal, h⟩ := setPendingSignals n.th { top with signal := 0 } rest body.signals
  refine ⟨signal, n.architecture.copyState body.copiedOut, ?_⟩
  simp only [processSignal, hb, hu, ne_eq, not_true_eq_false, if_false, Thread.setTopSignal, hi]
  change (body.signals.foldlM Thread.setPendingSignal
    (n.th.withInterrupts ({ top with signal := 0 } :: rest))).bind _ = _
  rw [h]
  rfl

/-! ## One call on an idle thread -/

/-- A thread between two calls. Its last `interrupt_enter` left the handler's context behind. -/
def idle (interrupts : List InterruptContext) (here : Option Context) : Thread :=
  { interrupts, syscallReturnHereDuringInterrupt := here }

section

variable (is : List InterruptContext) (here : Option Context) (us : List UserState) (a : Architecture)

theorem handle_interruptEnter : ∃ here',
    handle ⟨idle is here, us, a⟩ .interruptEnter = .ok ⟨idle ({} :: is) here', .allocated :: us, a⟩ :=
  ⟨_, rfl⟩

theorem handle_interruptExit (top : InterruptContext) :
    handle ⟨idle (top :: is) here, .allocated :: us, a⟩ .interruptExit = .ok ⟨idle is here, us, a⟩ := rfl

theorem handle_interruptExit_default :
    handle ⟨idle is here, .defaultState :: us, a⟩ .interruptExit = .error .freesDefaultState := rfl

/-- A thread in the middle of a `sigprocess` call. -/
def busy (interrupts : List InterruptContext) (here : Option Context) : Thread :=
  { idle interrupts here with running := true, stack := some 0, activeCall := some ⟨0, .plain 0⟩ }

variable {a} {body : SigprocessBody}

theorem processSignal_loaded (hb : a.copyState body.copiedIn = 0) (hu : us ≠ []) (top : InterruptContext) :
    ∃ top' code, (⟨busy (top :: is) here, us, a⟩ : Nested).processSignal body =
      .ok (⟨busy (top' :: is) here, us, a⟩, code) := by
  obtain ⟨signal, code, h⟩ := processSignal_records (n := ⟨busy (top :: is) here, us, a⟩) hb hu rfl
  exact ⟨{ top with signal }, code, h⟩

variable {is here us}

theorem processSignal_empty (hb : a.copyState body.copiedIn = 0) (hu : us ≠ []) :
    (⟨busy [] here, us, a⟩ : Nested).processSignal body = .error (.thread .emptyInterrupts) := by
  simp only [processSignal, hb, hu, ne_eq, not_true_eq_false, if_false]
  rfl

theorem handle_sigprocess {is' : List InterruptContext} {code : Int}
    (h : (⟨busy is here, us, a⟩ : Nested).processSignal body = .ok (⟨busy is' here, us, a⟩, code)) :
    handle ⟨idle is here, us, a⟩ (.sigprocess body) = .ok ⟨idle is' here, us, a⟩ := by
  change (((⟨busy is here, us, a⟩ : Nested).processSignal body).bind _ |>.bind _).bind _ = _
  rw [h]
  rfl

theorem handle_sigprocess_error {f : NestingFault}
    (h : (⟨busy is here, us, a⟩ : Nested).processSignal body = .error f) :
    handle ⟨idle is here, us, a⟩ (.sigprocess body) = .error f := by
  change (((⟨busy is here, us, a⟩ : Nested).processSignal body).bind _ |>.bind _).bind _ = _
  rw [h]
  rfl

end

/-! ## Sequences of calls -/

/-- The depth of nesting: as many records, and as many states over the embedded one. -/
def AtDepth (d : Int) (n : Nested) : Prop :=
  ∃ is here, n.th = idle is here ∧ n.userStates = List.replicate is.length .allocated ++ [.defaultState] ∧
    is.length = d

end Nested

open Nested

/-- Whether the call uses a record: an `interrupt_exit`, or a `sigprocess` whose states can be read. -/
def SignalCall.usesRecord (a : Architecture) : SignalCall → Bool
  | .interruptEnter => false
  | .interruptExit => true
  | .sigprocess body => a.copyState body.copiedIn = 0

/-- Interrupts entered and not left. -/
def openInterrupts (calls : List SignalCall) : Int :=
  calls.count .interruptEnter - calls.count .interruptExit

namespace Nested

theorem AtDepth.balanced {d : Int} {n : Nested} (h : AtDepth d n) :
    n.userStates.length = n.th.interrupts.length + 1 := by
  obtain ⟨is, here, hn, hu, -⟩ := h
  simp [hn, hu, idle]

theorem AtDepth.nonneg {d : Int} {n : Nested} (h : AtDepth d n) : 0 ≤ d := by
  obtain ⟨is, here, -, -, hd⟩ := h
  omega

theorem AtDepth.handle_ok {d : Int} {n : Nested} (h : AtDepth d n) (c : SignalCall)
    (hc : c.usesRecord n.architecture → 0 < d) :
    ∃ n', n.handle c = .ok n' ∧ n'.architecture = n.architecture ∧ AtDepth (d + openInterrupts [c]) n' := by
  obtain ⟨th, us, a⟩ := n
  obtain ⟨is, here, rfl, rfl, rfl⟩ := h
  cases c with
  | interruptEnter =>
    obtain ⟨here', h⟩ := handle_interruptEnter is here _ a
    exact ⟨_, h, rfl, _, _, rfl, rfl, rfl⟩
  | interruptExit =>
    cases is with
    | nil => simp [SignalCall.usesRecord] at hc
    | cons top is =>
      refine ⟨_, handle_interruptExit is here _ a top, rfl, _, _, rfl, rfl, ?_⟩
      have : openInterrupts [.interruptExit] = -1 := rfl
      simp only [List.length_cons, this]
      omega
  | sigprocess body =>
    by_cases hb : a.copyState body.copiedIn = 0
    · cases is with
      | nil => simp [SignalCall.usesRecord, hb] at hc
      | cons top is =>
        obtain ⟨top', code, h⟩ := processSignal_loaded is here
          (List.replicate (top :: is).length .allocated ++ [.defaultState]) hb (by simp) top
        exact ⟨_, handle_sigprocess h, rfl, _, _, rfl, rfl, rfl⟩
    · exact ⟨_, handle_sigprocess (if_pos hb), rfl, _, _, rfl, rfl, rfl⟩

theorem AtDepth.handle_error {n : Nested} (h : AtDepth 0 n) (c : SignalCall)
    (hc : c.usesRecord n.architecture) : ∃ f, n.handle c = .error f := by
  obtain ⟨th, us, a⟩ := n
  obtain ⟨is, here, rfl, rfl, hd⟩ := h
  obtain rfl := List.length_eq_zero_iff.mp (Int.ofNat_eq_zero.mp hd)
  cases c with
  | interruptEnter => simp [SignalCall.usesRecord] at hc
  | interruptExit => exact ⟨_, handle_interruptExit_default [] here _ a⟩
  | sigprocess body =>
    exact ⟨_, handle_sigprocess_error (processSignal_empty (by simpa [SignalCall.usesRecord] using hc)
      (by simp))⟩

theorem openInterrupts_append (calls calls' : List SignalCall) :
    openInterrupts (calls ++ calls') = openInterrupts calls + openInterrupts calls' := by
  simp only [openInterrupts, List.count_append]
  omega

theorem run_append (n : Nested) (calls : List SignalCall) (c : SignalCall) :
    n.run (calls ++ [c]) = (n.run calls).bind (·.handle c) := by
  simp only [run, List.foldlM_append]
  congr 1
  funext n'
  simp

/-- Every call that uses a record comes while an interrupt is open. -/
def Nests (a : Architecture) (calls : List SignalCall) : Prop :=
  ∀ before c after, calls = before ++ c :: after → c.usesRecord a → 0 < openInterrupts before

/-- After each call there is one user state more than there are records. A call
that uses a record that is not there, or takes away the embedded state, has no
state after it. -/
def Balanced (a : Architecture) (calls : List SignalCall) : Prop :=
  ∀ before after, calls = before ++ after → ∃ n,
    ({ architecture := a } : Nested).run before = .ok n ∧ n.userStates.length = n.th.interrupts.length + 1

theorem nests_append {a : Architecture} {calls : List SignalCall} {c : SignalCall} :
    Nests a (calls ++ [c]) ↔ Nests a calls ∧ (c.usesRecord a → 0 < openInterrupts calls) := by
  refine ⟨fun h => ⟨fun before c' after hc => ?_, h calls c [] rfl⟩, fun h before c' after hc => ?_⟩
  · exact h before c' (after ++ [c]) (by simp [hc])
  · rcases List.eq_nil_or_concat after with rfl | ⟨after', x, rfl⟩
    · obtain ⟨rfl, hc'⟩ := List.append_inj' hc rfl
      cases hc'
      exact h.2
    · have hc' : calls ++ [c] = (before ++ c' :: after') ++ [x] := by simpa using hc
      exact h.1 before c' after' (List.append_inj' hc' rfl).1

theorem run_atDepth {a : Architecture} {calls : List SignalCall} (h : Nests a calls) : ∃ n,
    ({ architecture := a } : Nested).run calls = .ok n ∧ n.architecture = a ∧
      AtDepth (openInterrupts calls) n := by
  induction calls using List.reverseRecOn with
  | nil => exact ⟨_, rfl, rfl, [], none, rfl, rfl, rfl⟩
  | append_singleton calls c ih =>
    obtain ⟨hn, hc⟩ := nests_append.mp h
    obtain ⟨n, hr, rfl, hd⟩ := ih hn
    obtain ⟨n', hh, ha, hd'⟩ := hd.handle_ok c hc
    exact ⟨n', by rw [run_append, hr]; exact hh, ha, openInterrupts_append calls [c] ▸ hd'⟩

/-- For any client: nesting stays balanced, and no `interrupt_exit` or
`sigprocess` touches what is not there, exactly if each of them comes while an
interrupt is open. -/
theorem balanced_iff_nests (a : Architecture) (calls : List SignalCall) : Balanced a calls ↔ Nests a calls := by
  constructor
  · intro h
    induction calls using List.reverseRecOn with
    | nil => intro before c after hc; simp at hc
    | append_singleton calls c ih =>
      have hn := ih fun before after hc => h before (after ++ [c]) (by simp [hc])
      refine nests_append.mpr ⟨hn, fun hc => ?_⟩
      obtain ⟨n, hr, rfl, hd⟩ := run_atDepth hn
      rcases Int.lt_or_eq_of_le hd.nonneg with hpos | hzero
      · exact hpos
      -- at depth zero the call has no state after it
      · obtain ⟨f, hf⟩ := AtDepth.handle_error (hzero ▸ hd) c hc
        obtain ⟨n', hn', -⟩ := h (calls ++ [c]) [] (by simp)
        rw [run_append, hr] at hn'
        cases hf.symm.trans hn'
  · intro h before after hc
    have hb : Nests a before := fun b c' r hb => h b c' (r ++ after) (by simp [hc, hb])
    obtain ⟨n, hr, -, hd⟩ := run_atDepth hb
    exact ⟨n, hr, hd.balanced⟩

/-- One `interrupt_exit`, or one `sigprocess` with a readable state, is enough. -/
theorem unmatched_exit_unbalanced :
    ¬ Balanced .x86_64 [.interruptExit] ∧
      ({ architecture := .x86_64 } : Nested).run [.interruptExit] = .error .freesDefaultState ∧
      ¬ Balanced .x86_64 [.sigprocess ⟨true, true, []⟩] ∧
      ({ architecture := .x86_64 } : Nested).run [.sigprocess ⟨true, true, []⟩] =
        .error (.thread .emptyInterrupts) := by
  refine ⟨fun h => ?_, rfl, fun h => ?_, rfl⟩ <;>
  · obtain ⟨n, hn, -⟩ := h _ [] (List.append_nil _).symm
    cases hn

end Nested

end DarlingServer
