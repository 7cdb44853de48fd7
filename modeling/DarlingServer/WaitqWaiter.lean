import Mathlib.Logic.Function.Basic
import DarlingServer.Lib.Runs
/-!
# The waiter of a Mach port channel

A channel on a port set is linked to the set's wait queue, and a kernel thread waits
there for it. It tells the peer with the channel's callback, as `knote_post` does for
ports, and then waits on the read semaphore until a read has been made.
`knote_unlink_waitq` ends it: it clears the link, interrupts a waiter that is waiting,
and waits on the death semaphore.

* `knote_post` looks whether there still is a callback, the waiter does not. Once
  notifications are disabled, the waiter's next message makes it call through the
  cleared pointer, and so does a `knote_post` that had looked before.
* The interrupt has no effect on a waiter that has read the link and is not waiting
  yet, or has been woken and has its wait for a read ahead of it.

The waiter, the unlinker and the `knote_post`s are taken one access at a time. A wait
is what `ThreadBlock` says of it: the thread is marked, and whoever clears the mark
says with which result.
-/

namespace DarlingServer.WaitqWaiter

open Runs

/-- Where `kqchan_waitq_waiter_entry` is. -/
inductive Waiter where
  /-- At the head of the loop. -/
  | test
  /-- Has a `wq`. -/
  | assertWait
  /-- Marked as waiting on the queue. -/
  | waiting
  | resumed (interrupted : Bool)
  | peek
  /-- At the call, and with what it has read for it. -/
  | load
  | loadContext (callback : Bool)
  | call (callback context : Bool)
  | down
  /-- Marked as waiting on the read semaphore. -/
  | waitingRead
  | loadDeath
  | upDeath
  | terminated
  deriving DecidableEq

/-- Where `knote_unlink_waitq` is. -/
inductive Unlinker where
  | idle
  | cleared
  | waitingDeath
  | destroyingDeath
  | destroyingRead
  | done
  deriving DecidableEq

/-- Where a `knote_post` is. -/
inductive Post where
  | idle
  | checked
  | loadContext (callback : Bool)
  | call (callback context : Bool)
  deriving DecidableEq

/-- Where `dtape_kqchan_mach_port_disable_notifications` is. -/
inductive Disabling where
  | enabled
  | clearing
  | disabled
  deriving DecidableEq

/-- A call through `kqchan->callback`: whether the two pointers were there, and whether
notifications had been disabled. -/
structure Invocation where
  callback : Bool
  context : Bool
  late : Bool
  deriving DecidableEq

/-- A linked channel; pointers are there or not, and a semaphore is its count. -/
structure State where
  callback : Bool := true
  context : Bool := true
  disabling : Disabling := .enabled
  waitq : Bool := true
  death : Option Nat := some 0
  read : Option Nat := some 0
  vanished : Bool := false
  waiter : Waiter := .test
  unlinker : Unlinker := .idle
  post : Nat → Post := fun _ => .idle
  invocations : List Invocation := []

inductive Label where
  /-- The waiter. The queue may have a message already, or not any more. -/
  | test
  | assertWait (preposted : Bool)
  | result
  | peek (active : Bool)
  | load
  | loadContext
  | call
  | down
  | loadDeath
  | upDeath
  /-- The queue is woken. -/
  | wake
  /-- `dtape_kqchan_mach_port_fill`. -/
  | fill
  | unlink
  | clearWait
  | downDeath
  | destroyDeath
  | destroyRead
  /-- `knote_vanish`, up to the `knote_post`s it makes. -/
  | vanish
  | post (i : Nat)
  | postLoad (i : Nat)
  | postLoadContext (i : Nat)
  | postCall (i : Nat)
  | disableCallback
  | disableContext
  deriving DecidableEq

def Label.ofWaiter : Label → Bool
  | .test | .assertWait _ | .result | .peek _ | .load | .loadContext | .call | .down | .loadDeath | .upDeath => true
  | _ => false

namespace State

def goto (s : State) (x : Waiter) : State := { s with waiter := x }

def setPost (s : State) (i : Nat) (x : Post) : State := { s with post := Function.update s.post i x }

def invoke (s : State) (callback context : Bool) : State :=
  { s with invocations := ⟨callback, context, s.disabling = .disabled⟩ :: s.invocations }

/-- `clear_wait(waiter_thread, THREAD_INTERRUPTED)`. -/
def clearWait (s : State) : State :=
  match s.waiter with
  | .waiting => s.goto (.resumed true)
  | .waitingRead => s.goto .loadDeath
  | _ => s

/-- `dtape_semaphore_up` of the read semaphore: a waiter takes it over. -/
def upRead (s : State) : State :=
  match s.read with
  | some n => if s.waiter = .waitingRead then s.goto .test else { s with read := some (n + 1) }
  | none => s

def step (s : State) : Label → Option State
  | .test => if s.waiter = .test then some (s.goto (if s.waitq then .assertWait else .loadDeath)) else none
  | .assertWait preposted =>
    if s.waiter = .assertWait then some (s.goto (if preposted then .resumed false else .waiting)) else none
  | .result =>
    match s.waiter with
    | .resumed true => some (s.goto .loadDeath)
    | .resumed false => some (s.goto .peek)
    | _ => none
  | .peek active => if s.waiter = .peek then some (s.goto (if active then .load else .down)) else none
  | .load => if s.waiter = .load then some (s.goto (.loadContext s.callback)) else none
  | .loadContext =>
    match s.waiter with
    | .loadContext callback => some (s.goto (.call callback s.context))
    | _ => none
  | .call =>
    match s.waiter with
    | .call callback context => some ((s.invoke callback context).goto .down)
    | _ => none
  | .down =>
    if s.waiter = .down then
      match s.read with
      | some 0 => some (s.goto .waitingRead)
      | some (n + 1) => some ({ s with read := some n }.goto .test)
      | none => none
    else none
  | .loadDeath => if s.waiter = .loadDeath then some (s.goto .upDeath) else none
  | .upDeath =>
    match s.waiter, s.death with
    | .upDeath, some n => some ({ s with death := some (n + 1) }.goto .terminated)
    | _, _ => none
  | .wake => if s.waiter = .waiting then some (s.goto (.resumed false)) else some s
  | .fill => if s.vanished then some s else some s.upRead
  | .unlink => if s.unlinker = .idle then some { s with waitq := false, unlinker := .cleared } else none
  | .clearWait => if s.unlinker = .cleared then some { s.clearWait with unlinker := .waitingDeath } else none
  | .downDeath =>
    match s.unlinker, s.death with
    | .waitingDeath, some (n + 1) => some { s with death := some n, unlinker := .destroyingDeath }
    | _, _ => none
  | .destroyDeath =>
    if s.unlinker = .destroyingDeath then some { s with death := none, unlinker := .destroyingRead } else none
  | .destroyRead => if s.unlinker = .destroyingRead then some { s with read := none, unlinker := .done } else none
  | .vanish => some { s with vanished := true }
  | .post i =>
    if s.post i = .idle then some (if s.callback then s.setPost i .checked else s) else none
  | .postLoad i => if s.post i = .checked then some (s.setPost i (.loadContext s.callback)) else none
  | .postLoadContext i =>
    match s.post i with
    | .loadContext callback => some (s.setPost i (.call callback s.context))
    | _ => none
  | .postCall i =>
    match s.post i with
    | .call callback context => some ((s.invoke callback context).setPost i .idle)
    | _ => none
  | .disableCallback =>
    if s.disabling = .enabled then some { s with callback := false, disabling := .clearing } else none
  | .disableContext =>
    if s.disabling = .clearing then some { s with context := false, disabling := .disabled } else none

def Init (s : State) : Prop := s = {}

/-! ## After notifications are disabled -/

/-- The waiter is about to call. -/
def calling (s : State) : Bool :=
  match s.waiter with
  | .load | .loadContext _ | .call _ _ => true
  | _ => false

/-- Nobody is past its last look when disabling is over, and the waiter finds nothing afterwards. -/
def Quiet (s : State) : Label → Prop
  | .disableContext => (∀ i, s.post i = .idle) ∧ s.calling = false
  | .peek active => s.disabling = .disabled → active = false
  | _ => True

/-- What holds once notifications are disabled. -/
structure Silent (s : State) : Prop where
  callback : s.disabling ≠ .enabled → s.callback = false
  post : s.disabling = .disabled → ∀ i, s.post i = .idle
  waiter : s.disabling = .disabled → s.calling = false
  early : ∀ c ∈ s.invocations, c.late = false

theorem Silent.goto {s : State} (h : s.Silent) {x : Waiter}
    (hx : s.disabling = .disabled → (s.goto x).calling = false) : (s.goto x).Silent :=
  ⟨h.callback, h.post, hx, h.early⟩

/-- A call before disabling is over is not late. -/
theorem Silent.invoke {s : State} (h : s.Silent) (hd : s.disabling ≠ .disabled) (callback context : Bool) :
    (s.invoke callback context).Silent := by
  refine ⟨h.callback, h.post, h.waiter, ?_⟩
  intro c hc
  rcases List.mem_cons.1 hc with rfl | hc
  · simpa using hd
  · exact h.early c hc

theorem Silent.setPost {s : State} (h : s.Silent) {i : Nat} {x : Post} (hx : s.disabling = .disabled → x = .idle) :
    (s.setPost i x).Silent := by
  refine ⟨h.callback, fun hd j => ?_, h.waiter, h.early⟩
  by_cases hj : j = i
  · subst hj
    simpa [State.setPost] using hx hd
  · simpa [State.setPost, hj] using h.post hd j

theorem Silent.step {s s' : State} {l : Label} (h : s.Silent) (hq : s.Quiet l) (hstep : s.step l = some s') :
    s'.Silent := by
  cases l with
  | test =>
    obtain ⟨-, hs⟩ := Option.ite_none_right_eq_some.1 hstep
    cases hs
    exact h.goto fun _ => by split <;> rfl
  | assertWait preposted =>
    obtain ⟨-, hs⟩ := Option.ite_none_right_eq_some.1 hstep
    cases hs
    exact h.goto fun _ => by split <;> rfl
  | result =>
    simp only [State.step] at hstep
    split at hstep <;> cases hstep <;> exact h.goto fun _ => rfl
  | peek active =>
    obtain ⟨-, hs⟩ := Option.ite_none_right_eq_some.1 hstep
    cases hs
    refine h.goto fun hd => ?_
    rw [hq hd]
    rfl
  | load =>
    obtain ⟨hpc, hs⟩ := Option.ite_none_right_eq_some.1 hstep
    cases hs
    -- the waiter would not be here
    refine h.goto fun hd => ?_
    simpa [calling, hpc] using h.waiter hd
  | loadContext =>
    simp only [State.step] at hstep
    split at hstep
    next hpc =>
      cases hstep
      refine h.goto fun hd => ?_
      simpa [calling, hpc] using h.waiter hd
    · cases hstep
  | call =>
    simp only [State.step] at hstep
    split at hstep
    next hpc =>
      cases hstep
      have hd : s.disabling ≠ .disabled := fun hd => by simpa [calling, hpc] using h.waiter hd
      exact (h.invoke hd _ _).goto fun _ => rfl
    · cases hstep
  | down =>
    obtain ⟨-, hs⟩ := Option.ite_none_right_eq_some.1 hstep
    split at hs <;> cases hs
    · exact h.goto fun _ => rfl
    · exact ⟨h.callback, h.post, fun _ => rfl, h.early⟩
  | loadDeath =>
    obtain ⟨-, hs⟩ := Option.ite_none_right_eq_some.1 hstep
    cases hs
    exact h.goto fun _ => rfl
  | upDeath =>
    simp only [State.step] at hstep
    split at hstep <;> cases hstep
    exact ⟨h.callback, h.post, fun _ => rfl, h.early⟩
  | wake =>
    simp only [State.step] at hstep
    split at hstep <;> cases hstep
    · exact h.goto fun _ => rfl
    · exact h
  | fill =>
    simp only [State.step] at hstep
    split at hstep <;> cases hstep
    · exact h
    · unfold upRead
      split
      · split
        · exact h.goto fun _ => rfl
        · exact ⟨h.callback, h.post, h.waiter, h.early⟩
      · exact h
  | unlink =>
    obtain ⟨-, hs⟩ := Option.ite_none_right_eq_some.1 hstep
    cases hs
    exact ⟨h.callback, h.post, h.waiter, h.early⟩
  | clearWait =>
    obtain ⟨-, hs⟩ := Option.ite_none_right_eq_some.1 hstep
    cases hs
    have hcleared : s.clearWait.Silent := by
      unfold State.clearWait
      split
      · exact h.goto fun _ => rfl
      · exact h.goto fun _ => rfl
      · exact h
    exact ⟨hcleared.callback, hcleared.post, hcleared.waiter, hcleared.early⟩
  | downDeath =>
    simp only [State.step] at hstep
    split at hstep <;> cases hstep
    exact ⟨h.callback, h.post, h.waiter, h.early⟩
  | destroyDeath =>
    obtain ⟨-, hs⟩ := Option.ite_none_right_eq_some.1 hstep
    cases hs
    exact ⟨h.callback, h.post, h.waiter, h.early⟩
  | destroyRead =>
    obtain ⟨-, hs⟩ := Option.ite_none_right_eq_some.1 hstep
    cases hs
    exact ⟨h.callback, h.post, h.waiter, h.early⟩
  | vanish =>
    cases hstep
    exact ⟨h.callback, h.post, h.waiter, h.early⟩
  | post i =>
    obtain ⟨-, hs⟩ := Option.ite_none_right_eq_some.1 hstep
    cases hs
    split
    next hcallback =>
      refine h.setPost fun hd => ?_
      rw [h.callback (by simp [hd])] at hcallback
      cases hcallback
    · exact h
  | postLoad i =>
    obtain ⟨hpc, hs⟩ := Option.ite_none_right_eq_some.1 hstep
    cases hs
    refine h.setPost fun hd => ?_
    rw [h.post hd i] at hpc
    cases hpc
  | postLoadContext i =>
    simp only [State.step] at hstep
    split at hstep
    next hpc =>
      cases hstep
      refine h.setPost fun hd => ?_
      rw [h.post hd i] at hpc
      cases hpc
    · cases hstep
  | postCall i =>
    simp only [State.step] at hstep
    split at hstep
    next hpc =>
      cases hstep
      have hd : s.disabling ≠ .disabled := fun hd => by simp [h.post hd i] at hpc
      exact (h.invoke hd _ _).setPost fun _ => rfl
    · cases hstep
  | disableCallback =>
    obtain ⟨-, hs⟩ := Option.ite_none_right_eq_some.1 hstep
    cases hs
    exact ⟨fun _ => rfl, nofun, nofun, h.early⟩
  | disableContext =>
    obtain ⟨hpc, hs⟩ := Option.ite_none_right_eq_some.1 hstep
    cases hs
    exact ⟨fun _ => h.callback (by simp [hpc]), fun _ => hq.1, fun _ => hq.2, h.early⟩

/-- In a quiet run nothing is called once notifications are disabled. -/
theorem no_late_call {s : State} (h : Reach step Quiet Init s) : ∀ c ∈ s.invocations, c.late = false := by
  have hsilent : s.Silent := by
    refine h.inv Silent ?_ fun s l s' hs hq hstep => hs.step hq hstep
    rintro s rfl
    exact ⟨fun hd => absurd rfl hd, nofun, nofun, nofun⟩
  exact hsilent.early

/-- A `knote_post` after disabling. -/
theorem no_late_call_disabled : ∃ s, Reach step Quiet Init s ∧ s.disabling = .disabled ∧
    ∀ c ∈ s.invocations, c.late = false := by
  have hinit : Reach step Quiet Init {} := .init rfl
  have hclearing : Reach step Quiet Init { callback := false, disabling := .clearing } :=
    .step (l := Label.disableCallback) hinit trivial rfl
  have hdisabled : Reach step Quiet Init { callback := false, context := false, disabling := .disabled } :=
    .step (l := Label.disableContext) hclearing ⟨fun _ => rfl, rfl⟩ rfl
  have hposted : Reach step Quiet Init { callback := false, context := false, disabling := .disabled } :=
    .step (l := Label.post 0) hdisabled trivial rfl
  exact ⟨_, hposted, rfl, no_late_call hposted⟩

end State

/-- The waiter finds a message after notifications were disabled and calls through the
cleared pointer; nothing is interleaved with `disable_notifications`. -/
theorem disabled_waiter_calls : ∃ s, Reach State.step (fun _ _ => True) State.Init s ∧
    (⟨false, false, true⟩ : Invocation) ∈ s.invocations := by
  have hrun : (exec State.step (fun _ _ => true) {} [.test, .assertWait false, .disableCallback, .disableContext,
      .wake, .result, .peek true, .load, .loadContext, .call]).map (·.invocations) = some [⟨false, false, true⟩] := rfl
  have hinit : Reach State.step (fun _ _ => True) State.Init {} := .init rfl
  obtain ⟨s, hs, hv⟩ := exists_reach (fun _ _ _ => trivial) hinit hrun
  exact ⟨s, hs, by rw [hv]; exact List.mem_singleton.2 rfl⟩

/-! ## Unlinking -/

/-- The part of the state the waiter and the unlinker meet in. -/
structure Link where
  waitq : Bool
  death : Option Nat
  read : Option Nat
  waiter : Waiter
  unlinker : Unlinker

def State.link (s : State) : Link := ⟨s.waitq, s.death, s.read, s.waiter, s.unlinker⟩

/-- The waiter's moves that leave the semaphores alone, while `kqchan->waitq` is set or not. -/
inductive Walk (waitq : Bool) : Waiter → Waiter → Prop
  | enter (h : waitq = true) : Walk waitq .test .assertWait
  | leave (h : waitq = false) : Walk waitq .test .loadDeath
  | wait : Walk waitq .assertWait .waiting
  | preposted : Walk waitq .assertWait (.resumed false)
  | wake : Walk waitq .waiting (.resumed false)
  | interrupted : Walk waitq (.resumed true) .loadDeath
  | resumed : Walk waitq (.resumed false) .peek
  | active : Walk waitq .peek .load
  | inactive : Walk waitq .peek .down
  | load (callback : Bool) : Walk waitq .load (.loadContext callback)
  | loadContext (callback context : Bool) : Walk waitq (.loadContext callback) (.call callback context)
  | call (callback context : Bool) : Walk waitq (.call callback context) .down
  | loadDeath : Walk waitq .loadDeath .upDeath

/-- Where `clear_wait` leaves a waiter. -/
def Waiter.interrupt : Waiter → Waiter
  | .waiting => .resumed true
  | .waitingRead => .loadDeath
  | x => x

/-- What a step does to the link. -/
inductive Turn (k : Link) : Label → Link → Prop
  | rest {l} : Turn k l k
  | walk {l x} (hw : Walk k.waitq k.waiter x) : Turn k l { k with waiter := x }
  | down {n} (hw : k.waiter = .down) (hr : k.read = some (n + 1)) :
    Turn k .down { k with read := some n, waiter := .test }
  | block (hw : k.waiter = .down) (hr : k.read = some 0) : Turn k .down { k with waiter := .waitingRead }
  | upDeath {n} (hw : k.waiter = .upDeath) (hd : k.death = some n) :
    Turn k .upDeath { k with death := some (n + 1), waiter := .terminated }
  | upRead {n} (hr : k.read = some n) : Turn k .fill { k with read := some (n + 1) }
  | handRead (hw : k.waiter = .waitingRead) : Turn k .fill { k with waiter := .test }
  | unlink (hu : k.unlinker = .idle) : Turn k .unlink { k with waitq := false, unlinker := .cleared }
  | clearWait (hu : k.unlinker = .cleared) :
    Turn k .clearWait { k with waiter := k.waiter.interrupt, unlinker := .waitingDeath }
  | downDeath {n} (hu : k.unlinker = .waitingDeath) (hd : k.death = some (n + 1)) :
    Turn k .downDeath { k with death := some n, unlinker := .destroyingDeath }
  | destroyDeath (hu : k.unlinker = .destroyingDeath) :
    Turn k .destroyDeath { k with death := none, unlinker := .destroyingRead }
  | destroyRead (hu : k.unlinker = .destroyingRead) : Turn k .destroyRead { k with read := none, unlinker := .done }

theorem State.upRead_turn (s : State) : Turn s.link .fill s.upRead.link := by
  unfold State.upRead
  split
  next hr =>
    split
    next hw => exact .handRead hw
    · exact .upRead hr
  · exact .rest

theorem State.clearWait_link (s : State) : s.clearWait.link = { s.link with waiter := s.waiter.interrupt } := by
  unfold State.clearWait Waiter.interrupt
  split <;> rename_i hw <;> simp only [State.link, State.goto, hw]

theorem State.goto_turn {s : State} {l : Label} {x : Waiter} (h : Walk s.waitq s.waiter x) :
    Turn s.link l (s.goto x).link :=
  .walk h

theorem State.step_turn {s s' : State} {l : Label} (h : s.step l = some s') : Turn s.link l s'.link := by
  cases l with
  | test =>
    obtain ⟨hw, hs⟩ := Option.ite_none_right_eq_some.1 h
    cases hs
    refine State.goto_turn ?_
    rw [hw]
    split
    next hq => exact .enter hq
    next hq => exact .leave (by simpa using hq)
  | assertWait preposted =>
    obtain ⟨hw, hs⟩ := Option.ite_none_right_eq_some.1 h
    cases hs
    refine State.goto_turn ?_
    rw [hw]
    split
    · exact .preposted
    · exact .wait
  | result =>
    simp only [State.step] at h
    split at h <;> cases h
    next hw => exact State.goto_turn (hw ▸ .interrupted)
    next hw => exact State.goto_turn (hw ▸ .resumed)
  | peek active =>
    obtain ⟨hw, hs⟩ := Option.ite_none_right_eq_some.1 h
    cases hs
    refine State.goto_turn ?_
    rw [hw]
    split
    · exact .active
    · exact .inactive
  | load =>
    obtain ⟨hw, hs⟩ := Option.ite_none_right_eq_some.1 h
    cases hs
    exact State.goto_turn (hw ▸ .load _)
  | loadContext =>
    simp only [State.step] at h
    split at h <;> cases h
    next hw => exact State.goto_turn (hw ▸ .loadContext _ _)
  | call =>
    simp only [State.step] at h
    split at h <;> cases h
    next hw => exact State.goto_turn (hw ▸ .call _ _)
  | down =>
    obtain ⟨hw, hs⟩ := Option.ite_none_right_eq_some.1 h
    split at hs <;> cases hs
    next hr => exact .block (k := s.link) hw hr
    next hr => exact .down (k := s.link) hw hr
  | loadDeath =>
    obtain ⟨hw, hs⟩ := Option.ite_none_right_eq_some.1 h
    cases hs
    exact State.goto_turn (hw ▸ .loadDeath)
  | upDeath =>
    simp only [State.step] at h
    split at h <;> cases h
    next hw hd => exact .upDeath (k := s.link) hw hd
  | wake =>
    simp only [State.step] at h
    split at h <;> cases h
    next hw => exact State.goto_turn (hw ▸ .wake)
    · exact .rest
  | fill =>
    simp only [State.step] at h
    split at h <;> cases h
    · exact .rest
    · exact s.upRead_turn
  | unlink =>
    obtain ⟨hu, hs⟩ := Option.ite_none_right_eq_some.1 h
    cases hs
    exact .unlink (k := s.link) hu
  | clearWait =>
    obtain ⟨hu, hs⟩ := Option.ite_none_right_eq_some.1 h
    cases hs
    have hlink : ({ s.clearWait with unlinker := .waitingDeath } : State).link =
        { s.link with waiter := s.waiter.interrupt, unlinker := .waitingDeath } := by
      rw [show ({ s.clearWait with unlinker := .waitingDeath } : State).link =
        { s.clearWait.link with unlinker := .waitingDeath } from rfl, s.clearWait_link]
    rw [hlink]
    exact .clearWait (k := s.link) hu
  | downDeath =>
    simp only [State.step] at h
    split at h <;> cases h
    next hu hd => exact .downDeath (k := s.link) hu hd
  | destroyDeath =>
    obtain ⟨hu, hs⟩ := Option.ite_none_right_eq_some.1 h
    cases hs
    exact .destroyDeath (k := s.link) hu
  | destroyRead =>
    obtain ⟨hu, hs⟩ := Option.ite_none_right_eq_some.1 h
    cases hs
    exact .destroyRead (k := s.link) hu
  | post i =>
    obtain ⟨-, hs⟩ := Option.ite_none_right_eq_some.1 h
    cases hs
    split <;> exact .rest
  | vanish =>
    cases h
    exact .rest
  | postLoad i =>
    obtain ⟨-, hs⟩ := Option.ite_none_right_eq_some.1 h
    cases hs
    exact .rest
  | postLoadContext i =>
    simp only [State.step] at h
    split at h <;> cases h
    exact .rest
  | postCall i =>
    simp only [State.step] at h
    split at h <;> cases h
    exact .rest
  | disableCallback =>
    obtain ⟨-, hs⟩ := Option.ite_none_right_eq_some.1 h
    cases hs
    exact .rest
  | disableContext =>
    obtain ⟨-, hs⟩ := Option.ite_none_right_eq_some.1 h
    cases hs
    exact .rest

/-! ### The death semaphore -/

/-- `knote_unlink_waitq` has not come past the death semaphore. -/
def Unlinker.awaits : Unlinker → Bool
  | .idle | .cleared | .waitingDeath => true
  | .destroyingDeath | .destroyingRead | .done => false

/-- The death semaphore is up when the waiter is over, nobody comes past it before, and
the read semaphore stays that long. -/
structure Counted (k : Link) : Prop where
  read : k.unlinker.awaits = true → ∃ n, k.read = some n
  death : k.unlinker.awaits = true → k.death = some (if k.waiter = .terminated then 1 else 0)
  terminated : k.unlinker.awaits = false → k.waiter = .terminated

theorem Walk.not_terminated {waitq : Bool} {x y : Waiter} (h : Walk waitq x y) :
    x ≠ .terminated ∧ y ≠ .terminated := by
  cases h <;> exact ⟨nofun, nofun⟩

/-- A move of a waiter that is not over, and is not over after it. -/
theorem Counted.move {k : Link} (h : Counted k) {x : Waiter} (hk : k.waiter ≠ .terminated) (hx : x ≠ .terminated) :
    Counted { k with waiter := x } := by
  refine ⟨h.read, ?_, ?_⟩
  · intro ha
    simpa only [hk, hx, if_false] using h.death ha
  · intro ha
    exact absurd (h.terminated ha) hk

theorem Counted.turn {k k' : Link} {l : Label} (h : Counted k) (ht : Turn k l k') : Counted k' := by
  cases ht with
  | rest => exact h
  | walk hw => exact h.move hw.not_terminated.1 hw.not_terminated.2
  | down hw hr =>
    have htest := h.move (by simp [hw]) (x := .test) nofun
    exact ⟨fun _ => ⟨_, rfl⟩, htest.death, htest.terminated⟩
  | block hw hr => exact h.move (by simp [hw]) nofun
  | upDeath hw hd =>
    have ha : k.unlinker.awaits = true := by
      by_contra ha
      simp [h.terminated (by simpa using ha)] at hw
    have hzero := h.death ha
    simp only [hd, hw] at hzero
    cases hzero
    exact ⟨h.read, fun _ => rfl, fun hu => absurd ha (by simp [hu])⟩
  | upRead hr => exact ⟨fun _ => ⟨_, rfl⟩, h.death, h.terminated⟩
  | handRead hw => exact h.move (by simp [hw]) nofun
  | unlink hu =>
    have ha : k.unlinker.awaits = true := by rw [hu]; rfl
    exact ⟨fun _ => h.read ha, fun _ => h.death ha, nofun⟩
  | clearWait hu =>
    have ha : k.unlinker.awaits = true := by rw [hu]; rfl
    refine ⟨fun _ => h.read ha, fun _ => (h.death ha).trans ?_, nofun⟩
    cases k.waiter <;> rfl
  | downDeath hu hd =>
    have hup := h.death (by simp [hu, Unlinker.awaits])
    rw [hd] at hup
    refine ⟨nofun, nofun, fun _ => ?_⟩
    by_contra hw
    simp [hw] at hup
  | destroyDeath hu => exact ⟨nofun, nofun, fun _ => h.terminated (by simp [hu, Unlinker.awaits])⟩
  | destroyRead hu => exact ⟨nofun, nofun, fun _ => h.terminated (by simp [hu, Unlinker.awaits])⟩

theorem State.counted {guard : State → Label → Prop} {s : State} (h : Reach State.step guard State.Init s) :
    Counted s.link := by
  refine h.inv (fun s => Counted s.link) ?_ fun s l s' hs _ hstep => hs.turn (State.step_turn hstep)
  rintro s rfl
  exact ⟨fun _ => ⟨0, rfl⟩, fun _ => rfl, nofun⟩

/-- A waiter that is over takes no step. -/
theorem State.step_terminated {s : State} (hw : s.waiter = .terminated) {l : Label} (hl : l.ofWaiter = true) :
    s.step l = none := by
  cases l <;> simp_all [State.step, Label.ofWaiter]

/-! ### The interrupt -/

/-- On its way out, as long as `kqchan->waitq` is cleared. -/
def Waiter.leaving : Waiter → Bool
  | .test | .resumed true | .loadDeath | .upDeath | .terminated => true
  | _ => false

/-- Between a wake-up and the wait for a read. -/
def Waiter.passing : Waiter → Bool
  | .resumed false | .peek | .load | .loadContext _ | .call _ _ | .down => true
  | _ => false

theorem Walk.leaving {x y : Waiter} (h : Walk false x y) (hx : x.leaving = true) : y.leaving = true := by
  cases h <;> first | rfl | cases hx
  next hq => cases hq

theorem Walk.passing {waitq : Bool} {x y : Waiter} (h : Walk waitq x y) (hx : x.passing = true) :
    y.passing = true := by
  cases h <;> first | rfl | cases hx

/-- The interrupt is heard, or a read is there for the wait that is still ahead. -/
structure Heard (k : Link) : Prop where
  waitq : k.unlinker ≠ .idle → k.waitq = false
  waiter : k.unlinker = .waitingDeath →
    k.waiter.leaving = true ∨ k.waiter.passing = true ∧ ∃ n, k.read = some (n + 1)

/-- The interrupt comes when the waiter waits, or before it reads the link again, or
with a read already made for the wait that is ahead of it. -/
def State.Prompt (s : State) : Label → Prop
  | .clearWait => s.waiter ≠ .assertWait ∧ (s.waiter.passing = true → ∃ n, s.read = some (n + 1))
  | _ => True

theorem Waiter.interrupt_leaving {x : Waiter} (hx : x ≠ .assertWait) (hp : x.passing = false) :
    x.interrupt.leaving = true := by
  cases x with
  | assertWait => exact absurd rfl hx
  | resumed interrupted => cases interrupted <;> first | rfl | cases hp
  | test | waiting | waitingRead | loadDeath | upDeath | terminated => rfl
  | peek | load | loadContext | call | down => cases hp

theorem Waiter.interrupt_passing {x : Waiter} (hp : x.passing = true) : x.interrupt = x := by
  cases x <;> first | rfl | cases hp

theorem Heard.turn {s : State} {k' : Link} {l : Label} (h : Heard s.link) (hp : s.Prompt l)
    (ht : Turn s.link l k') : Heard k' := by
  cases ht with
  | rest => exact h
  | walk hw =>
    refine ⟨h.waitq, fun hi => ?_⟩
    have hu : s.link.unlinker ≠ .idle := ne_of_eq_of_ne hi nofun
    rw [h.waitq hu] at hw
    exact (h.waiter hi).imp hw.leaving fun hx => ⟨hw.passing hx.1, hx.2⟩
  | down hw hr => exact ⟨h.waitq, fun _ => .inl rfl⟩
  | block hw hr =>
    refine ⟨h.waitq, fun hi => ?_⟩
    rcases h.waiter hi with hx | ⟨-, n, hn⟩
    · simp [hw, Waiter.leaving] at hx
    · simp [hr] at hn
  | upDeath hw hd => exact ⟨h.waitq, fun _ => .inl rfl⟩
  | upRead hr => exact ⟨h.waitq, fun hi => (h.waiter hi).imp_right fun hx => ⟨hx.1, _, rfl⟩⟩
  | handRead hw => exact ⟨h.waitq, fun _ => .inl rfl⟩
  | unlink hu => exact ⟨fun _ => rfl, nofun⟩
  | clearWait hu =>
    refine ⟨fun _ => h.waitq (by simp [hu]), fun _ => ?_⟩
    cases hpass : s.waiter.passing with
    | true => exact .inr ⟨(congrArg Waiter.passing (Waiter.interrupt_passing hpass)).trans hpass, hp.2 hpass⟩
    | false => exact .inl (Waiter.interrupt_leaving hp.1 hpass)
  | downDeath hu hd => exact ⟨fun _ => h.waitq (by simp [hu]), nofun⟩
  | destroyDeath hu => exact ⟨fun _ => h.waitq (by simp [hu]), nofun⟩
  | destroyRead hu => exact ⟨fun _ => h.waitq (by simp [hu]), nofun⟩

theorem State.heard {s : State} (h : Reach State.step State.Prompt State.Init s) : Heard s.link := by
  refine h.inv (fun s => Heard s.link) ?_ fun s l s' hs hp hstep => hs.turn hp (State.step_turn hstep)
  rintro s rfl
  exact ⟨fun hu => absurd rfl hu, nofun⟩

/-- The unlinker waits for the death of a waiter that is waiting itself. -/
def State.Stuck (s : State) : Prop :=
  s.unlinker = .waitingDeath ∧ s.death = some 0 ∧ (s.waiter = .waiting ∨ s.waiter = .waitingRead)

/-- In a run whose interrupts are prompt unlinking is never stuck, and once the death
semaphore has been destroyed the waiter does nothing more. -/
theorem unlink_never_stuck {s : State} (h : Reach State.step State.Prompt State.Init s) :
    ¬ s.Stuck ∧ (s.death = none → ∀ l, l.ofWaiter = true → s.step l = none) := by
  constructor
  · rintro ⟨hu, -, hw⟩
    rcases (State.heard h).waiter hu with hx | ⟨hx, -⟩
    · rcases hw with hw | hw <;> simp [State.link, hw, Waiter.leaving] at hx
    · rcases hw with hw | hw <;> simp [State.link, hw, Waiter.passing] at hx
  · intro hdeath l hl
    have hcounted := State.counted h
    have hover : s.unlinker.awaits = false := by
      cases ha : s.unlinker.awaits with
      | false => rfl
      | true => simpa [State.link, hdeath] using hcounted.death ha
    exact State.step_terminated (hcounted.terminated hover) hl

/-- A whole unlinking of a waiter that waits on the queue. -/
theorem unlink_never_stuck_waiting : ∃ s, Reach State.step State.Prompt State.Init s ∧
    s.unlinker = .done ∧ s.death = none ∧ ¬ s.Stuck ∧ s.step .test = none := by
  have hrun : (exec State.step (fun s l => l ≠ .clearWait || s.waiter = .waiting) {} [.test, .assertWait false,
      .unlink, .clearWait, .result, .loadDeath, .upDeath, .downDeath, .destroyDeath, .destroyRead]).map
        (fun s => (s.unlinker, s.death)) = some (.done, none) := by decide
  have hok : ∀ (s : State) (l : Label), (l ≠ .clearWait || s.waiter = .waiting) = true → s.Prompt l := by
    intro s l hl
    cases l <;> simp_all [State.Prompt, Waiter.passing]
  have hinit : Reach State.step State.Prompt State.Init {} := .init rfl
  obtain ⟨s, hs, hv⟩ := exists_reach hok hinit hrun
  simp only [Prod.mk.injEq] at hv
  have hnever := unlink_never_stuck hs
  exact ⟨s, hs, hv.1, hv.2, hnever.1, hnever.2 hv.2 .test rfl⟩

/-! ### The interrupt is lost -/

/-- A waiter of some run that was interrupted when it did not wait, with no read to take. -/
structure Missed (s : State) : Prop where
  reach : Reach State.step (fun _ _ => True) State.Init s
  unlinker : s.unlinker = .waitingDeath
  death : s.death = some 0
  read : s.read = some 0

/-- A step that only moves the waiter. -/
theorem Missed.step {s s' : State} {l : Label} {x : Waiter} (h : Missed s) (hstep : s.step l = some s')
    (hlink : s'.link = { s.link with waiter := x }) : Missed s' := by
  simp only [State.link, Link.mk.injEq] at hlink
  obtain ⟨-, hdeath, hread, -, hunlinker⟩ := hlink
  exact ⟨.step h.reach trivial hstep, hunlinker.trans h.unlinker, hdeath.trans h.death, hread.trans h.read⟩

theorem Missed.down {s : State} (h : Missed s) (hw : s.waiter = .down) :
    ∃ s', Missed s' ∧ s'.waiter = .waitingRead := by
  have hstep : s.step .down = some (s.goto .waitingRead) := by simp [State.step, hw, h.read]
  exact ⟨_, h.step hstep rfl, rfl⟩

theorem Missed.peek {s : State} (h : Missed s) (hw : s.waiter = .peek) :
    ∃ s', Missed s' ∧ s'.waiter = .waitingRead := by
  have hstep : s.step (.peek false) = some (s.goto .down) := by simp [State.step, hw]
  exact (h.step hstep rfl).down rfl

theorem Missed.call {s : State} (h : Missed s) {callback context : Bool} (hw : s.waiter = .call callback context) :
    ∃ s', Missed s' ∧ s'.waiter = .waitingRead := by
  have hstep : s.step .call = some ((s.invoke callback context).goto .down) := by simp [State.step, hw]
  exact (h.step hstep rfl).down rfl

theorem Missed.loadContext {s : State} (h : Missed s) {callback : Bool} (hw : s.waiter = .loadContext callback) :
    ∃ s', Missed s' ∧ s'.waiter = .waitingRead := by
  have hstep : s.step .loadContext = some (s.goto (.call callback s.context)) := by simp [State.step, hw]
  exact (h.step hstep rfl).call rfl

/-- A waiter that passes without a read comes to wait for one. -/
theorem Missed.passing {s : State} (h : Missed s) (hp : s.waiter.passing = true) :
    ∃ s', Missed s' ∧ s'.waiter = .waitingRead := by
  cases hw : s.waiter with
  | resumed interrupted =>
    cases interrupted with
    | true => simp [hw, Waiter.passing] at hp
    | false =>
      have hstep : s.step .result = some (s.goto .peek) := by simp [State.step, hw]
      exact (h.step hstep rfl).peek rfl
  | peek => exact h.peek hw
  | load =>
    have hstep : s.step .load = some (s.goto (.loadContext s.callback)) := by simp [State.step, hw]
    exact (h.step hstep rfl).loadContext rfl
  | loadContext callback => exact h.loadContext hw
  | call callback context => exact h.call hw
  | down => exact h.down hw
  | test | assertWait | waiting | waitingRead | loadDeath | upDeath | terminated => simp [hw, Waiter.passing] at hp

/-- An interrupt that is not prompt can be lost: from there a run gets stuck. -/
theorem stuck_of_not_prompt {s : State} (h : Reach State.step (fun _ _ => True) State.Init s)
    (hu : s.unlinker = .cleared) (hp : ¬ s.Prompt .clearWait) :
    ∃ s', Reach State.step (fun _ _ => True) State.Init s' ∧ s'.Stuck := by
  have hcounted := State.counted h
  have hawaits : s.unlinker.awaits = true := by rw [hu]; rfl
  have hstep : s.step .clearWait = some { s.clearWait with unlinker := .waitingDeath } := by simp [State.step, hu]
  have hreach := Reach.step h trivial hstep
  by_cases hassert : s.waiter = .assertWait
  · -- it has read the link, and waits without anybody left to interrupt it
    have hsame : s.clearWait = s := by simp [State.clearWait, hassert]
    rw [hsame] at hreach
    have hwait : ({ s with unlinker := .waitingDeath } : State).step (.assertWait false) =
        some ({ s with unlinker := .waitingDeath }.goto .waiting) := by simp [State.step, hassert]
    have hdeath : s.death = some 0 := by simpa [State.link, hassert] using hcounted.death hawaits
    exact ⟨_, .step hreach trivial hwait, rfl, hdeath, .inl rfl⟩
  · have hpass : s.waiter.passing = true ∧ ¬ ∃ n, s.read = some (n + 1) := by
      simpa only [State.Prompt, hassert, ne_eq, not_false_eq_true, true_and, Classical.not_imp] using hp
    have hsame : s.clearWait = s := by
      unfold State.clearWait
      split <;> rename_i hw
      · simp [hw, Waiter.passing] at hpass
      · simp [hw, Waiter.passing] at hpass
      · rfl
    have hdeath : s.death = some 0 := by
      have hw : s.waiter ≠ .terminated := fun hw => by simp [hw, Waiter.passing] at hpass
      simpa [State.link, hw] using hcounted.death hawaits
    have hread : s.read = some 0 := by
      obtain ⟨n, hn⟩ := hcounted.read hawaits
      cases n with
      | zero => exact hn
      | succ n => exact absurd ⟨n, hn⟩ hpass.2
    rw [hsame] at hreach
    have hmissed : Missed { s with unlinker := .waitingDeath } := ⟨hreach, rfl, hdeath, hread⟩
    obtain ⟨s', hs', hw⟩ := hmissed.passing hpass.1
    exact ⟨s', hs'.reach, hs'.unlinker, hs'.death, .inr hw⟩

/-- The interrupt is lost before the wait on the queue, and before the wait for a read. -/
theorem unlink_stuck :
    (∃ s, Reach State.step (fun _ _ => True) State.Init s ∧ s.Stuck ∧ s.waiter = .waiting) ∧
    (∃ s, Reach State.step (fun _ _ => True) State.Init s ∧ s.Stuck ∧ s.waiter = .waitingRead ∧ s.read = some 0) := by
  have hinit : Reach State.step (fun _ _ => True) State.Init {} := .init rfl
  constructor
  · have hrun : (exec State.step (fun _ _ => true) {} [.test, .unlink, .clearWait, .assertWait false]).map
        (fun s => (s.unlinker, s.death, s.waiter)) = some (.waitingDeath, some 0, .waiting) := by decide
    obtain ⟨s, hs, hv⟩ := exists_reach (fun _ _ _ => trivial) hinit hrun
    simp only [Prod.mk.injEq] at hv
    obtain ⟨hu, hd, hw⟩ := hv
    exact ⟨s, hs, ⟨hu, hd, .inl hw⟩, hw⟩
  · have hrun : (exec State.step (fun _ _ => true) {} [.test, .assertWait false, .wake, .result, .unlink, .clearWait,
        .peek false, .down]).map (fun s => (s.unlinker, s.death, s.waiter, s.read)) =
          some (.waitingDeath, some 0, .waitingRead, some 0) := by decide
    obtain ⟨s, hs, hv⟩ := exists_reach (fun _ _ _ => trivial) hinit hrun
    simp only [Prod.mk.injEq] at hv
    obtain ⟨hu, hd, hw, hr⟩ := hv
    exact ⟨s, hs, ⟨hu, hd, .inr hw⟩, hw, hr⟩

end DarlingServer.WaitqWaiter
