import DarlingServer.Lib.Runs
import Mathlib.Algebra.Group.Nat.Defs
/-!
# The outbox and the main loop's eventfd

Any thread may push a message into the outbox; it then writes to the eventfd. Once
round, the main loop resets the eventfd, sends what it can, arms the eventfd if it
could send everything and waits. A message pushed after the loop has sent leaves the
eventfd readable, since it was reset before; so the loop does not sleep on messages
it could send.
-/

namespace DarlingServer.Outbox

open Runs

/-! ## Sending -/

/-- What `sendmmsg` comes back with. -/
inductive Sent where
  | sent (count : Nat)
  | eagain
  | eintr
  /-- `EPIPE` or `ECONNREFUSED`: the first message's peer is dead. -/
  | refused
  | failed (errno : Nat)
  deriving DecidableEq

/-- How many messages are passed to `sendmmsg` at a time. -/
def batch : Nat := 16

/-- `sendMany`, with what each of its calls of `sendmmsg` comes back with: an exception,
or `canSendMore`, with what is left in the queue. -/
def sendMany {μ : Type*} : List Sent → List μ → Option (Except Nat Bool × List μ)
  | [], [] => some (.ok true, [])
  | _ :: _, [] => none
  | [], _ :: _ => none
  | .sent count :: results, message :: messages =>
    if count ≤ min (message :: messages).length batch then sendMany results ((message :: messages).drop count) else none
  | .eintr :: results, message :: messages => sendMany results (message :: messages)
  | .refused :: results, _ :: messages => sendMany results messages
  | .eagain :: results, message :: messages =>
    if results = [] then some (.ok false, message :: messages) else none
  | .failed errno :: results, message :: messages =>
    if results = [] then some (.error errno, message :: messages) else none

/-- All that can be sent is sent. -/
theorem sendMany_ok_true {μ : Type*} {results : List Sent} {messages left : List μ}
    (h : sendMany results messages = some (.ok true, left)) : left = [] := by
  fun_induction sendMany results messages with
  | case1 => cases h; rfl
  | case2 => cases h
  | case3 => cases h
  | case4 count results message messages hc ih => exact ih h
  | case5 => cases h
  | case6 results message messages ih => exact ih h
  | case7 results message messages ih => exact ih h
  | case8 => cases h
  | case9 => cases h
  | case10 => cases h
  | case11 => cases h

/-! ## The machine -/

/-- Where the main loop is. -/
inductive Loop where
  | top
  /-- The eventfd is reset. -/
  | reset
  /-- `sendMany` is done. -/
  | sent
  /-- Blocked in `epoll_wait`. -/
  | polling
  /-- Back from `epoll_wait`, perhaps with the listener writable. -/
  | handling (writable : Bool)
  /-- Left with an exception. -/
  | thrown
  deriving DecidableEq

/-- `pushing` counts the pushers that have unlocked the queue and not yet written to
the eventfd. `stalled` records that the last attempt to send ended with `EAGAIN` and
that the listener was not seen writable since. -/
structure State (μ : Type*) where
  outbox : List μ := []
  pushing : Nat := 0
  eventfd : Nat := 0
  armed : Bool := true
  canWrite : Bool := true
  stalled : Bool := false
  loop : Loop := .top
  deriving DecidableEq

variable {μ : Type*}

/-- The eventfd does not block; a write that would overflow it does nothing. -/
def eventfdWrite (value : Nat) : Nat := if value < 2 ^ 64 - 2 then value + 1 else value

inductive Label (μ : Type*) where
  /-- A thread's section in `push`. -/
  | push (message : μ)
  /-- The callback of `push`. -/
  | notify
  /-- The end of `removeMonitor`. -/
  | wakeup
  | reset
  | sendMany (results : List Sent)
  | arm
  /-- `epoll_wait` returns; whether the listener is writable and the eventfd is reported. -/
  | epollReturns (writable reported : Bool)
  /-- `epoll_wait` fails with `EINTR`. -/
  | interrupted
  | handle
  deriving DecidableEq

def step (s : State μ) : Label μ → Option (State μ)
  | .push message => some { s with outbox := s.outbox ++ [message], pushing := s.pushing + 1 }
  | .notify =>
    if 0 < s.pushing then some { s with pushing := s.pushing - 1, eventfd := eventfdWrite s.eventfd } else none
  | .wakeup => some { s with eventfd := eventfdWrite s.eventfd }
  | .reset => if s.loop = .top then some { s with eventfd := 0, loop := .reset } else none
  | .sendMany results =>
    if s.loop = .reset then
      if s.canWrite then
        match sendMany results s.outbox with
        | some (.ok canSendMore, left) =>
          some { s with outbox := left, canWrite := canSendMore, stalled := !canSendMore, loop := .sent }
        | some (.error _, left) => some { s with outbox := left, loop := .thrown }
        | none => none
      else some { s with loop := .sent }
    else none
  | .arm => if s.loop = .sent then some { s with armed := s.canWrite, loop := .polling } else none
  | .epollReturns writable reported =>
    if s.loop = .polling ∧ (reported = true → s.armed = true ∧ 0 < s.eventfd) then
      -- reporting disarms it
      some { s with armed := s.armed && !reported, loop := .handling writable }
    else none
  | .interrupted => if s.loop = .polling then some { s with loop := .top } else none
  | .handle =>
    match s.loop with
    | .handling writable =>
      some { s with canWrite := s.canWrite || writable, stalled := s.stalled && !writable, loop := .top }
    | _ => none

/-- Messages may be in the outbox before the loop starts. -/
def init (s : State μ) : Prop := ∃ outbox, s = { outbox }

/-! ## The invariant -/

/-- A message in the outbox has left, or will leave, the eventfd readable. -/
def Announced (s : State μ) : Prop := s.outbox = [] ∨ 0 < s.eventfd ∨ 0 < s.pushing

structure Sound (s : State μ) : Prop where
  stalled : s.canWrite = false → s.stalled = true
  sent : s.loop = .sent → s.canWrite = true → Announced s
  polling : s.loop = .polling → s.canWrite = true → s.armed = true ∧ Announced s

theorem eventfdWrite_pos (value : Nat) : 0 < eventfdWrite value := by
  unfold eventfdWrite
  split
  · exact Nat.succ_pos _
  · omega

/-- A step of another thread: it leaves the loop alone and the messages announced. -/
theorem Sound.other {s s' : State μ} (h : Sound s) (hc : s'.canWrite = s.canWrite) (hs : s'.stalled = s.stalled)
    (ha : s'.armed = s.armed) (hl : s'.loop = s.loop) (han : Announced s → Announced s') : Sound s' := by
  refine ⟨?_, ?_, ?_⟩
  · rw [hc, hs]
    exact h.stalled
  · rw [hl, hc]
    exact fun hl hc => han (h.sent hl hc)
  · rw [hl, hc, ha]
    exact fun hl hc => ⟨(h.polling hl hc).1, han (h.polling hl hc).2⟩

/-- Away from the end of the iteration there is nothing to show of the eventfd. -/
theorem Sound.elsewhere {s : State μ} (hs : s.canWrite = false → s.stalled = true) (h : s.loop ≠ .sent)
    (h' : s.loop ≠ .polling) : Sound s :=
  ⟨hs, fun hl => absurd hl h, fun hl => absurd hl h'⟩

theorem Sound.step {s s' : State μ} {l : Label μ} (h : Sound s) (hst : step s l = some s') : Sound s' := by
  cases l with
  | push message =>
    cases hst
    exact h.other rfl rfl rfl rfl fun _ => .inr (.inr (Nat.succ_pos _))
  | notify =>
    simp only [Outbox.step] at hst
    split at hst
    · cases hst
      exact h.other rfl rfl rfl rfl fun _ => .inr (.inl (eventfdWrite_pos _))
    · cases hst
  | wakeup =>
    cases hst
    exact h.other rfl rfl rfl rfl fun _ => .inr (.inl (eventfdWrite_pos _))
  | reset =>
    simp only [Outbox.step] at hst
    split at hst
    · cases hst
      exact .elsewhere h.stalled (by simp) (by simp)
    · cases hst
  | sendMany results =>
    simp only [Outbox.step] at hst
    split at hst
    · split at hst
      · split at hst
        · rename_i canSendMore left hsent
          cases hst
          refine ⟨?_, ?_, ?_⟩
          · intro hc
            exact congrArg not hc
          · intro _ hc
            cases hc
            exact .inl (sendMany_ok_true hsent)
          · intro hl
            cases hl
        · cases hst
          exact .elsewhere h.stalled (by simp) (by simp)
        · cases hst
      · rename_i hc
        cases hst
        refine ⟨h.stalled, fun _ hc' => absurd hc' hc, ?_⟩
        intro hl
        cases hl
    · cases hst
  | arm =>
    simp only [Outbox.step] at hst
    split at hst
    · rename_i hl
      cases hst
      refine ⟨h.stalled, ?_, fun _ hc => ⟨hc, h.sent hl hc⟩⟩
      intro hl
      cases hl
    · cases hst
  | epollReturns writable reported =>
    simp only [Outbox.step] at hst
    split at hst
    · cases hst
      exact .elsewhere h.stalled (by simp) (by simp)
    · cases hst
  | interrupted =>
    simp only [Outbox.step] at hst
    split at hst
    · cases hst
      exact .elsewhere h.stalled (by simp) (by simp)
    · cases hst
  | handle =>
    simp only [Outbox.step] at hst
    split at hst
    · rename_i writable hl
      cases hst
      refine .elsewhere ?_ (by simp) (by simp)
      intro hc
      obtain ⟨hc, hw⟩ := Bool.or_eq_false_iff.1 hc
      simp [h.stalled hc, hw]
    · cases hst

theorem sound_init {s : State μ} (h : init s) : Sound s := by
  obtain ⟨outbox, rfl⟩ := h
  refine .elsewhere ?_ (by simp) (by simp)
  intro hc
  cases hc

/-- While the main loop is blocked in `epoll_wait`, no push is under way and there is
something in the outbox, the last attempt to send ended with `EAGAIN` and the listener
was not seen writable since, or the eventfd is readable and armed, so that `epoll_wait`
can return. -/
theorem never_sleeps_on_sendable {s : State μ} (h : Reach step (fun _ _ => True) init s) (hl : s.loop = .polling)
    (hp : s.pushing = 0) (ho : s.outbox ≠ []) :
    (s.canWrite = false ∧ s.stalled = true) ∨
      (0 < s.eventfd ∧ s.armed = true ∧ ∃ s', step s (.epollReturns false true) = some s') := by
  have hs : Sound s := h.inv Sound (fun _ hi => sound_init hi) fun _ _ _ hi _ hst => hi.step hst
  cases hc : s.canWrite with
  | false => exact .inl ⟨rfl, hs.stalled hc⟩
  | true =>
    obtain ⟨harmed, hann⟩ := hs.polling hl hc
    have hfd : 0 < s.eventfd := by
      rcases hann with hnil | hfd | hpush
      · exact absurd hnil ho
      · exact hfd
      · omega
    exact .inr ⟨hfd, harmed, { s with armed := s.armed && !true, loop := .handling false },
      if_pos ⟨hl, fun _ => ⟨harmed, hfd⟩⟩⟩

/-- A message is pushed between the loop's sending and its waiting. -/
def latePush : List (Label Nat) :=
  [.push 10, .reset, .sendMany [.eintr, .sent 1], .push 11, .arm, .notify, .notify]

theorem never_sleeps_on_sendable_latePush : ∃ s : State Nat,
    s.loop = .polling ∧ s.outbox = [11] ∧
      ((s.canWrite = false ∧ s.stalled = true) ∨
        (0 < s.eventfd ∧ s.armed = true ∧ ∃ s', step s (.epollReturns false true) = some s')) := by
  have hrun : (exec step (fun _ _ => true) {} latePush).map (fun s => (s.loop, s.pushing, s.outbox)) =
      some (.polling, 0, [11]) := by decide
  obtain ⟨s, hs, hv⟩ := exists_reach (fun _ _ _ => trivial) (.init (show init {} from ⟨[], rfl⟩)) hrun
  simp only [Prod.mk.injEq] at hv
  refine ⟨s, hv.1, hv.2.2, never_sleeps_on_sendable hs hv.1 hv.2.1 ?_⟩
  rw [hv.2.2]
  exact List.cons_ne_nil _ _

end DarlingServer.Outbox
