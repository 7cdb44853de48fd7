import DarlingServer.Resumption
/-!
# Blocking in XNU code

Duct-taped code waits in two moves: it marks the XNU thread as waiting, and later
calls `thread_block`, which suspends the microthread if the mark is still there.
A wake is a `resume` by somebody who holds the thread lock. `resume` leaves no
trace when it finds the microthread not suspended, and `doWork` drops an entry it
takes too early, so a wake has to come late enough, and its entry to be taken
later still.
-/

namespace DarlingServer

open Thread Runs

/-! ## The XNU side of a thread -/

/-- The bits of `thread->state`. -/
structure XnuState where
  wait : Bool := false
  uninterruptible : Bool := false
  run : Bool := false
  terminate : Bool := false
  deriving DecidableEq, Repr

inductive WaitResult where
  | waiting
  | awakened
  | timedOut
  | interrupted
  | restart
  deriving DecidableEq, Repr

structure XnuThread where
  state : XnuState := {}
  waitResult : WaitResult := .awakened
  continuation : Option Continuation := none
  deriving DecidableEq, Repr

namespace XnuThread

/-- `thread_mark_wait_locked`. -/
def markWaitLocked (t : XnuThread) : XnuThread := { t with state := { wait := true }, waitResult := .waiting }

/-- `dtape_thread_entering`, called by `doWork` when it takes the thread. -/
def entering (t : XnuThread) : XnuThread :=
  { t with state := { t.state with wait := false, uninterruptible := false, run := true } }

/-- `dtape_thread_exiting`, called by `doWork` when it is done with the thread. -/
def exiting (t : XnuThread) : XnuThread := { t with state := { t.state with run := false } }

/-- `dtape_thread_dying`; a thread with `TH_TERMINATE` is not woken by `clear_wait_internal`. -/
def dying (t : XnuThread) : XnuThread :=
  { t with
    state := { t.state with wait := false, uninterruptible := false, terminate := true }
    waitResult := .interrupted }

/-- The first section of `thread_block_parameter`, and whether it goes on to suspend. -/
def blockParameter (t : XnuThread) (continuation : Option Continuation) : XnuThread × Bool :=
  ({ t with continuation }, t.state.wait)

/-- What `thread_unblock` writes before it calls the `thread_resume` hook. -/
def unblock (t : XnuThread) (waitResult : WaitResult) : XnuThread := { t with waitResult }

/-- `thread_continuation_callback`, or the end of `thread_block_parameter`: what the waiter gets. -/
def wokenWith (t : XnuThread) : XnuThread × WaitResult := ({ t with continuation := none }, t.waitResult)

/-- What a section of the thread's machine does on the XNU side. -/
def follow (t : XnuThread) (s x : Local) : XnuThread :=
  if s.phase ≠ .entered ∧ x.phase = .entered then t.entering
  else if s.phase ≠ .off ∧ s.phase ≠ .impersonated ∧ x.phase = .off then t.exiting
  else t

end XnuThread

/-! ## The machine -/

/-- Where the waiter is in its wait. -/
inductive Waiter where
  | idle
  | marked
  /-- In `thread_block_parameter`, past its first section. -/
  | blocking (waiting : Bool)
  /-- Suspended, or about to be, by `thread_block_parameter`. -/
  | suspended
  | resumed
  deriving DecidableEq, Repr

/-- The waiter runs the code between the mark and the suspension. -/
def Waiter.isBusy : Waiter → Bool
  | .marked | .blocking _ => true
  | _ => false

/-- Who holds the thread lock: nobody, or a waker at one of its steps. -/
inductive Waker where
  | none
  | unblocking
  /-- `resume` has found the thread suspended and has yet to schedule it. -/
  | scheduling
  | finished
  deriving DecidableEq, Repr

structure Blocking where
  st : State := {}
  xnu : XnuThread := {}
  waiter : Waiter := .idle
  waker : Waker := .none
  /-- A `thread_go` or `thread_unblock` has returned since the waiter was marked. -/
  issued : Bool := false

inductive BlockLabel where
  /-- A step of the thread's machine other than those below. -/
  | thread (l : Label)
  | dying
  | markWait
  | block (continuation : Option Continuation)
  | suspend
  | woken
  | unblock (waitResult : WaitResult)
  | resume
  | schedule
  | unlock
  deriving DecidableEq, Repr

namespace Blocking

/-- A step of the thread's machine may be taken: the waiter does nothing else between
its mark and its suspension, and nobody schedules for the waker. -/
def admits (b : Blocking) (l : Label) : Bool :=
  !(b.waiter.isBusy && l.onWorker && l ≠ .pop) && (l ≠ .resumePush || b.waker ≠ .scheduling || b.st.resuming ≠ 1)

/-- The waiter after the thread has gone from `b.st` to `st`. -/
def observe (b : Blocking) (st : State) : Blocking :=
  { b with
    st
    xnu := b.xnu.follow b.st.loc st.loc
    waiter := if b.waiter = .suspended ∧ st.loc.th.suspended = false then .resumed else b.waiter }

/-- The waiter's own sections under the thread lock. -/
def free (b : Blocking) : Bool := b.waker = .none && b.st.loc.fault.isNone

def step (b : Blocking) : BlockLabel → Option Blocking
  | .thread l => if b.admits l then (b.st.step l).map b.observe else none
  | .dying => if b.free && b.st.loc.th.dead then some { b with xnu := b.xnu.dying } else none
  | .markWait =>
    if b.free && b.st.loc.phase = .body && (b.waiter = .idle || b.waiter = .resumed) then
      some { b with xnu := b.xnu.markWaitLocked, waiter := .marked, issued := false }
    else none
  | .block k =>
    if b.free && b.waiter = .marked then
      let (xnu, waiting) := b.xnu.blockParameter k
      some { b with xnu, waiter := .blocking waiting }
    else none
  | .suspend =>
    if b.waiter = .blocking true then
      (b.st.step (.suspend b.xnu.continuation)).map fun st => { b with st, waiter := .suspended }
    else none
  | .woken =>
    if b.free && b.st.loc.phase = .body && (b.waiter = .resumed || b.waiter = .blocking false) then
      some { b with xnu := b.xnu.wokenWith.1, waiter := .idle }
    else none
  | .unblock r => if b.free && b.waiter ≠ .idle then some { b with xnu := b.xnu.unblock r, waker := .unblocking } else none
  | .resume =>
    if b.waker = .unblocking then
      (b.st.step .resume).map fun st =>
        { b with st, waker := if b.st.loc.th.suspended then .scheduling else .finished }
    else none
  | .schedule =>
    if b.waker = .scheduling then (b.st.step .resumePush).map fun st => { b with st, waker := .finished } else none
  | .unlock => if b.waker = .finished then some { b with waker := .none, issued := true } else none

def Init (b : Blocking) : Prop := b.st.Init ∧ b.waiter = .idle ∧ b.waker = .none ∧ b.issued = false

/-- A waiter that is suspended in its block and that nobody runs, and whose wake has been issued, has an
entry in the work queue. -/
def Awakened (b : Blocking) : Prop :=
  b.waiter = .suspended → b.st.loc.th.suspended = true → b.st.loc.th.running = false → b.issued = true →
    b.st.entries ≠ 0

/-- `resume` finds the waiter suspended, and `doWork` turns away no entry it takes. -/
def heard (b : Blocking) : BlockLabel → Bool
  | .resume => b.st.loc.th.suspended
  | .thread .pop =>
    let t := b.st.loc.th
    t.deferralState = .notDeferred && !t.running && !t.terminating && (!t.dead || t.activeCall.isSome)
  | _ => true

/-! ## No wake is lost -/

structure Heard (b : Blocking) : Prop where
  running : b.st.loc.th.running = true ↔ b.st.loc.phase ≠ .off
  awake : b.st.loc.phase = .starting ∨ b.st.loc.phase = .body ∨ b.st.loc.phase = .interrupting →
    b.st.loc.th.suspended = false
  busy : b.waiter.isBusy = true → b.st.loc.phase = .body ∧ b.issued = false ∧
    (b.waker = .none ∨ b.waker = .unblocking)
  held : b.waiter = .suspended → b.st.loc.th.suspended = true
  entry : b.waiter = .suspended → b.waker = .finished ∨ b.issued = true →
    b.st.entries ≠ 0 ∨ b.st.loc.phase = .entered

/-- Nobody but its worker takes a thread out of the code it runs. -/
theorem body_other {s x : Local} {l : Label} {b : Bool} (hl : l.onWorker = false) (he : Effect s l x b)
    (hp : s.phase = .body) : x.phase = .body := by
  cases he with
  | impersonate hp' | claim hp' | unimpersonate hp' => simp [hp] at hp'
  | recv | recvQueued | push | resumePush | resume | receive | pushPending | pushTop | s2cDefer | s2cIdle | s2cClear
  | s2cFlush | defer | undefer | notifyDead | terminate => exact hp
  | _ => simp [Label.onWorker] at hl

/-- An entry of a suspended thread is used up only to resume it. -/
theorem entry_effect {s : State} {x : Local} {l : Label} {b : Bool} (he : Effect s.loc l x b)
    (hg : l = .pop → s.loc.th.deferralState = .notDeferred ∧ s.loc.th.running = false ∧
      ¬(s.loc.th.terminating = true ∨ s.loc.th.dead = true ∧ s.loc.th.activeCall = none))
    (hi : s.entries ≠ 0 ∨ s.loc.phase = .entered) (hs : s.loc.th.suspended = true) (hx : x.th.suspended = true) :
    (s.account x b l).entries ≠ 0 ∨ x.phase = .entered := by
  cases he with
  | popDeferred hd => exact absurd (hg rfl).1 hd
  | popRunning _ hr => simp [(hg rfl).2.1] at hr
  | popDone _ _ hd => exact absurd hd (hg rfl).2.2
  | popEntered => exact .inr rfl
  | resumeContinuation | resumeContext | startCall | startInterrupt => cases hx
  | dispatchDone _ hn => simp [hs] at hn
  | push | resumePush => exact .inl (Nat.succ_ne_zero _)
  | recv | recvQueued | resume => exact hi
  | _ =>
    simp only [State.account]
    grind -linarith

theorem observe_suspended {b : Blocking} {st : State} (h : (b.observe st).waiter = .suspended) :
    b.waiter = .suspended ∧ st.loc.th.suspended = true := by
  simp only [observe] at h
  split at h
  · cases h
  · rename_i hn
    exact ⟨h, by simpa [h] using hn⟩

theorem heard_thread {b : Blocking} {l : Label} {x : Local} {c : Bool} (hi : Heard b) (hg : b.heard (.thread l) = true)
    (ha : b.admits l = true) (he : Effect b.st.loc l x c) : Heard (b.observe (b.st.account x c l)) := by
  have hpop : l = .pop → b.st.loc.th.deferralState = .notDeferred ∧ b.st.loc.th.running = false ∧
      ¬(b.st.loc.th.terminating = true ∨ b.st.loc.th.dead = true ∧ b.st.loc.th.activeCall = none) := by
    rintro rfl
    simp only [heard, Bool.and_eq_true, Bool.or_eq_true, decide_eq_true_eq, Bool.not_eq_true',
      Option.isSome_iff_ne_none] at hg
    grind -linarith
  refine ⟨?_, ?_, fun hb => ?_, fun hw => ?_, fun hw hd => ?_⟩
  · simpa [observe] using running_effect hi.running he
  · simpa [observe] using awake_effect hi.awake he
  · have hb' : b.waiter.isBusy = true := by
      simp only [observe] at hb
      split at hb
      · cases hb
      · exact hb
    obtain ⟨hp, h₂⟩ := hi.busy hb'
    have hl : l.onWorker = false := by
      simp only [admits, hb', Bool.true_and, Bool.and_eq_true, Bool.not_eq_true', Bool.and_eq_false_imp,
        decide_eq_false_iff_not, not_not] at ha
      by_contra hl
      -- the one worker label left is `pop`, by a worker that would find the thread running
      have := (hpop (ha.1 (by simpa using hl))).2.1
      simp [hi.running.2 (by simp [hp])] at this
    exact ⟨by simpa [observe] using body_other hl he hp, h₂⟩
  · exact (observe_suspended hw).2
  · obtain ⟨hb, hs⟩ := observe_suspended hw
    rw [account_loc] at hs
    simpa [observe] using entry_effect he hpop (hi.entry hb hd) (hi.held hb) hs

theorem heard_init {b : Blocking} (h : b.Init) : Heard b := by
  obtain ⟨hs, hw, hk, hi⟩ := h
  refine ⟨running_init hs, ?_, by simp [hw, Waiter.isBusy], by simp [hw], by simp [hw]⟩
  rcases hs with hs | ⟨k, hs⟩ <;> simp [hs]

theorem heard_step {b b' : Blocking} {l : BlockLabel} (hi : Heard b) (hg : b.heard l = true)
    (h : b.step l = some b') : Heard b' := by
  cases l with
  | thread l =>
    obtain ⟨ha, h⟩ := Option.ite_none_right_eq_some.1 h
    obtain ⟨st, hst, rfl⟩ := Option.map_eq_some_iff.1 h
    obtain ⟨-, -, ⟨f, -, rfl⟩ | ⟨x, c, he, rfl⟩⟩ := step_cases hst
    · refine ⟨hi.running, hi.awake, fun hb => ?_, fun hw => (observe_suspended hw).2, fun hw => ?_⟩
      · refine hi.busy ?_
        simp only [observe] at hb
        split at hb
        · cases hb
        · exact hb
      · exact hi.entry (observe_suspended hw).1
    · exact heard_thread hi hg ha he
  | dying =>
    obtain ⟨-, h⟩ := Option.ite_none_right_eq_some.1 h
    cases h
    exact { hi with }
  | markWait =>
    obtain ⟨hc, h⟩ := Option.ite_none_right_eq_some.1 h
    cases h
    simp only [free, Bool.and_eq_true, decide_eq_true_eq] at hc
    exact ⟨hi.running, hi.awake, fun _ => ⟨hc.1.2, rfl, .inl hc.1.1.1⟩, by simp, by simp⟩
  | block k =>
    obtain ⟨hc, h⟩ := Option.ite_none_right_eq_some.1 h
    cases h
    simp only [Bool.and_eq_true, decide_eq_true_eq] at hc
    exact ⟨hi.running, hi.awake, fun _ => hi.busy (by simp [hc.2, Waiter.isBusy]), by simp, by simp⟩
  | suspend =>
    obtain ⟨hc, h⟩ := Option.ite_none_right_eq_some.1 h
    obtain ⟨st, hst, rfl⟩ := Option.map_eq_some_iff.1 h
    obtain ⟨hp, hn, hk⟩ := hi.busy (by simp [hc, Waiter.isBusy])
    obtain ⟨-, -, ⟨f, hf, rfl⟩ | ⟨x, c, he, rfl⟩⟩ := step_cases hst
    · simp [Local.core, hp] at hf
    · cases he with
      | suspend => exact ⟨by simpa using hi.running.2 (by simp [hp]), by simp, by simp [Waiter.isBusy], fun _ => rfl, by grind⟩
  | woken =>
    obtain ⟨-, h⟩ := Option.ite_none_right_eq_some.1 h
    cases h
    exact ⟨hi.running, hi.awake, by simp [Waiter.isBusy], by simp, by simp⟩
  | unblock r =>
    obtain ⟨hc, h⟩ := Option.ite_none_right_eq_some.1 h
    cases h
    exact ⟨hi.running, hi.awake, fun hb => ⟨(hi.busy hb).1, (hi.busy hb).2.1, .inr rfl⟩, hi.held,
      fun hw hd => hi.entry hw (.inr (hd.resolve_left (by simp)))⟩
  | resume =>
    obtain ⟨hc, h⟩ := Option.ite_none_right_eq_some.1 h
    obtain ⟨st, hst, rfl⟩ := Option.map_eq_some_iff.1 h
    have hs : b.st.loc.th.suspended = true := hg
    have hnb : b.waiter.isBusy = false := by
      by_contra hb
      simp [hi.awake (.inr (.inl (hi.busy (by simpa using hb)).1))] at hs
    obtain ⟨-, -, ⟨f, hf, rfl⟩ | ⟨x, c, he, rfl⟩⟩ := step_cases hst
    · cases hf
    · cases he with
      | resume =>
        refine ⟨hi.running, hi.awake, by simp [hnb], hi.held, fun hw hd => hi.entry hw (.inr ?_)⟩
        simpa [hs] using hd
  | schedule =>
    obtain ⟨hc, h⟩ := Option.ite_none_right_eq_some.1 h
    obtain ⟨st, hst, rfl⟩ := Option.map_eq_some_iff.1 h
    obtain ⟨-, -, ⟨f, hf, rfl⟩ | ⟨x, c, he, rfl⟩⟩ := step_cases hst
    · cases hf
    · cases he with
      | resumePush =>
        refine ⟨hi.running, hi.awake, fun hb => ?_, hi.held, fun _ _ => .inl (Nat.succ_ne_zero _)⟩
        have := (hi.busy hb).2.2
        simp [hc] at this
  | unlock =>
    obtain ⟨hc, h⟩ := Option.ite_none_right_eq_some.1 h
    cases h
    refine ⟨hi.running, hi.awake, fun hb => ?_, hi.held, fun hw _ => hi.entry hw (.inl hc)⟩
    have := (hi.busy hb).2.2
    simp [hc] at this

/-- In every interleaving of a waiter with its wakers where `resume` finds the waiter suspended and `doWork`
turns away none of its entries, no wake is lost. -/
theorem wakeup_not_lost {b : Blocking} (h : Reach step (fun b l => b.heard l = true) Init b) : Awakened b := by
  have hi := h.inv Heard (fun _ => heard_init) fun _ _ _ hi hg hst => heard_step hi hg hst
  intro hw _ hr hd
  refine (hi.entry hw (.inr hd)).resolve_right fun hp => ?_
  have := hi.running.2 (by simp [hp])
  simp [hr] at this

/-- A call marks its thread as waiting. -/
def waitingCall : List BlockLabel :=
  [.thread (.recv (.trap 0)), .thread .push, .thread .pop, .thread .dispatch, .thread .activate, .markWait]

theorem wakeup_not_lost_late : ∃ b : Blocking,
    exec step heard {} (waitingCall ++ [.block none, .suspend, .thread .commit, .thread .done, .unblock .awakened,
      .resume, .schedule, .unlock]) = some b ∧
    b.waiter = .suspended ∧ b.issued = true ∧ b.st.loc.th.running = false ∧ Awakened b := by
  have hrun : (exec step heard {} (waitingCall ++ [BlockLabel.block none, .suspend, .thread .commit, .thread .done,
      .unblock .awakened, .resume, .schedule, .unlock])).map (fun b => (b.waiter, b.issued, b.st.loc.th.running)) =
      some (.suspended, true, false) := by decide
  obtain ⟨b, hb, hs⟩ := Option.map_eq_some_iff.1 hrun
  simp only [Prod.mk.injEq] at hs
  exact ⟨b, hb, hs.1, hs.2.1, hs.2.2,
    wakeup_not_lost (exec_reach (fun _ _ hg => hg) hb (.init ⟨.inl rfl, rfl, rfl, rfl⟩))⟩

/-- The wake comes between the mark and the suspension: `resume` finds nothing to do. -/
theorem wakeup_before_suspension_lost : ¬ ∀ b : Blocking, Reach step (fun _ _ => True) Init b → Awakened b := by
  intro h
  have hrun : (exec step (fun _ _ => true) {} (waitingCall ++ [BlockLabel.unblock .awakened, .resume, .unlock,
      .block none, .suspend, .thread .commit, .thread .done])).map (fun b => (b.waiter, b.st.loc.th.suspended,
        b.st.loc.th.running, b.issued, b.st.entries)) = some (.suspended, true, false, true, 0) := by decide
  obtain ⟨b, hb, hs⟩ := Option.map_eq_some_iff.1 hrun
  simp only [Prod.mk.injEq] at hs
  obtain ⟨h₁, h₂, h₃, h₄, h₅⟩ := hs
  exact h b (exec_reach (fun _ _ _ => trivial) hb (.init ⟨.inl rfl, rfl, rfl, rfl⟩)) h₁ h₂ h₃ h₄ h₅

end Blocking

end DarlingServer
