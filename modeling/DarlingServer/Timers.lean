import DarlingServer.Lib.Runs
import Mathlib.Logic.Function.Basic
import Mathlib.Algebra.Group.Nat.Defs
/-!
# The timer queue and the hardware timer

The duct-taped timer queue tells the server the earliest deadline through
`dtape_hook_timer_arm`, which records it in `_currentTimerDeadline` and sets the
timerfd. A call is armed before it is queued, and the deadline an expiry found is
armed after the queue has been unlocked, so the two can disagree. Each step below
is one section under the queue lock or under `_timerLock`; a cancelled call is the
only one that takes the second with the first held.

The timer covers the queue where no overriding arm comes between another call's
`timer_queue_assign` and its insertion with a later deadline, no call is inserted
between an expiry and its re-arming with an earlier one, and no call for the end of
time is armed while others wait.
-/

set_option linter.unusedSectionVars false

namespace DarlingServer

open Runs

/-! ## Deadlines -/

/-- `UINT64_MAX`, the deadline that stands for none. -/
def uint64Max : Nat := 2 ^ 64 - 1

def pastDeadlineTimerAdjustment : Nat := 10 * 1000

structure TimerCall (ι : Type*) where
  entry : ι
  deadline : Nat
  softDeadline : Nat
  rateLimited : Bool
  deriving DecidableEq

/-- The deadlines `timer_call_enter_internal` computes at `ctime`. -/
def TimerCall.enter {ι : Type*} (entry : ι) (deadline slop : Nat) (rateLimited : Bool) (ctime : Nat) : TimerCall ι :=
  let hard := if uint64Max - deadline ≤ slop then uint64Max else deadline + slop
  if hard < ctime then
    ⟨entry, ctime + pastDeadlineTimerAdjustment, ctime + pastDeadlineTimerAdjustment, rateLimited⟩
  else ⟨entry, hard, deadline, rateLimited⟩

/-- Whether `timer_queue_expire` takes a call at the head of the queue. -/
def TimerCall.due {ι : Type*} (call : TimerCall ι) (now : Nat) : Bool :=
  call.softDeadline ≤ now && !(call.rateLimited && now < call.deadline)

/-- The deadline of `priority_queue_min`. -/
def headDeadline {ι : Type*} (queue : List (TimerCall ι)) : Nat := ((queue.map (·.deadline)).min?).getD uint64Max

theorem headDeadline_le {ι : Type*} {queue : List (TimerCall ι)} {c : TimerCall ι} (hc : c ∈ queue) :
    headDeadline queue ≤ c.deadline := by
  have hm : c.deadline ∈ queue.map (·.deadline) := List.mem_map_of_mem hc
  unfold headDeadline
  cases h : (queue.map (·.deadline)).min? with
  | none =>
    rw [List.min?_eq_none_iff.1 h] at hm
    cases hm
  | some n => exact (List.min?_eq_some_iff.1 h).2 _ hm

theorem headDeadline_attained {ι : Type*} (queue : List (TimerCall ι)) :
    headDeadline queue = uint64Max ∨ ∃ c ∈ queue, headDeadline queue = c.deadline := by
  unfold headDeadline
  cases h : (queue.map (·.deadline)).min? with
  | none => exact .inl rfl
  | some n =>
    obtain ⟨c, hc, hn⟩ := List.mem_map.1 (List.min?_eq_some_iff.1 h).1
    exact .inr ⟨c, hc, hn.symm⟩

/-! ## Steps -/

/-- Where a microthread is in the operations on timers. -/
inductive TimerPc (ι : Type*) where
  | idle
  /-- Before `timer_queue_assign`. -/
  | assigning (call : TimerCall ι)
  | inserting (call : TimerCall ι)
  /-- In `timer_call_cancel`, the call dequeued. -/
  | cancelling
  /-- Before `timer_queue_cancel`, with the queue locked. -/
  | overriding (newDeadline : Nat)
  /-- In `timer_queue_expire`; the first turn of its loop has the time as a parameter. -/
  | expiring (deadline : Option Nat)
  /-- In `dtape_timer_fired`, before it arms the timer. -/
  | rearming (nextDeadline : Nat)
  deriving DecidableEq

/-- In `dtape_timer_fired`. -/
def TimerPc.firing {ι : Type*} : TimerPc ι → Bool
  | .expiring _ | .rearming _ => true
  | _ => false

/-- The deadline of the call that is to be assigned. -/
def TimerPc.assigns {ι : Type*} : TimerPc ι → Option Nat
  | .assigning call => some call.deadline
  | _ => none

/-- The deadline of the call that is armed and to be inserted. -/
def TimerPc.inserts {ι : Type*} : TimerPc ι → Option Nat
  | .inserting call => some call.deadline
  | _ => none

/-- The deadline an expiry is about to arm. -/
def TimerPc.rearms {ι : Type*} : TimerPc ι → Option Nat
  | .rearming n => some n
  | _ => none

/-- The deadline the timer is about to be overridden with. -/
def TimerPc.overrides {ι : Type*} : TimerPc ι → Option Nat
  | .overriding n | .rearming n => some n
  | _ => none

structure Timers (ι ν : Type*) where
  /-- `mach_absolute_time`. -/
  now : Nat
  queue : List (TimerCall ι) := []
  /-- `tc_async_dequeue`: taken off the queue by an expiry that could not lock the call. -/
  asyncDequeue : ι → Bool := fun _ => false
  queueLock : Option ν := none
  currentTimerDeadline : Nat := 0
  /-- When the timerfd is set to expire; it is readable from then on, until it is read or set again. -/
  timerFD : Option Nat := none
  /-- The kernel microthreads for `dtape_timer_fired` that have not started. -/
  fires : Nat := 0
  pc : ν → TimerPc ι := fun _ => .idle

inductive TimerLabel (ι ν : Type*) where
  | tick (now : Nat)
  | enter (p : ν) (entry : ι) (deadline slop : Nat) (rateLimited : Bool)
  | assign (p : ν)
  | insert (p : ν)
  | cancel (p : ν) (entry : ι)
  | lockHead (p : ν)
  | cancelArm (p : ν)
  /-- The main loop reads the timerfd. -/
  | expiry
  | timerFired (p : ν)
  /-- A turn of the loop of `timer_queue_expire`, which finds `head`; `tryLock` is what
  `simple_lock_try` answers. -/
  | expire (p : ν) (head : Option (TimerCall ι)) (tryLock : Bool)
  | rearm (p : ν)

namespace Timers

variable {ι ν : Type*} [DecidableEq ι] [DecidableEq ν]

def goto (s : Timers ι ν) (p : ν) (x : TimerPc ι) : Timers ι ν := { s with pc := Function.update s.pc p x }

/-- `dtape_hook_timer_arm`, its section under `_timerLock`. -/
def timerArm (s : Timers ι ν) (deadline : Nat) (override : Bool) : Timers ι ν :=
  let deadline := if deadline = uint64Max then 0 else deadline
  if !override && s.currentTimerDeadline ≠ 0 && s.currentTimerDeadline ≤ deadline then s
  else
    -- a timerfd set to zero is disarmed
    { s with currentTimerDeadline := deadline, timerFD := if deadline = 0 then none else some deadline }

def dequeue (s : Timers ι ν) (entry : ι) : Timers ι ν := { s with queue := s.queue.filter (·.entry ≠ entry) }

/-- The section of `timer_call_enqueue_deadline_unlocked`: a call that is queued already only
changes its deadline. -/
def enqueue (s : Timers ι ν) (call : TimerCall ι) : Timers ι ν :=
  { s with
    queue := (s.dequeue call.entry).queue ++ [call]
    asyncDequeue := Function.update s.asyncDequeue call.entry false }

/-- The section of `timer_call_dequeue_unlocked`, and whether it returns a queue. -/
def dequeueUnlocked (s : Timers ι ν) (entry : ι) : Timers ι ν × Bool :=
  if s.asyncDequeue entry then ({ s with asyncDequeue := Function.update s.asyncDequeue entry false }, true)
  else (s.dequeue entry, s.queue.any (·.entry = entry))

/-- A turn of the loop of `timer_queue_expire`, or what follows it. -/
def expireTurn (s : Timers ι ν) (p : ν) (cur : Nat) (head : Option (TimerCall ι)) (tryLock : Bool) : Timers ι ν :=
  match head with
  | none => { s with queueLock := none }.goto p (.rearming (headDeadline s.queue))
  | some call =>
    if call.due cur then
      -- the queue is unlocked only for the callout
      if tryLock then { s.dequeue call.entry with queueLock := none }.goto p (.expiring none)
      else { s.dequeue call.entry with
        queueLock := some p, asyncDequeue := Function.update s.asyncDequeue call.entry true }.goto p (.expiring none)
    else { s with queueLock := none }.goto p (.rearming (headDeadline s.queue))

/-- `head` is a possible result of `priority_queue_min`. -/
def isHead (queue : List (TimerCall ι)) : Option (TimerCall ι) → Bool
  | none => queue.isEmpty
  | some call => queue.contains call && queue.all (call.deadline ≤ ·.deadline)

def step (s : Timers ι ν) : TimerLabel ι ν → Option (Timers ι ν)
  | .tick now => if s.now ≤ now ∧ now + pastDeadlineTimerAdjustment ≤ uint64Max then some { s with now } else none
  | .enter p entry deadline slop rateLimited =>
    if s.pc p = .idle ∧ deadline ≤ uint64Max then
      some (s.goto p (.assigning (.enter entry deadline slop rateLimited s.now)))
    else none
  | .assign p =>
    match s.pc p with
    | .assigning call => some ((s.timerArm call.deadline false).goto p (.inserting call))
    | _ => none
  | .insert p =>
    match s.pc p with
    | .inserting call => if s.queueLock = none then some ((s.enqueue call).goto p .idle) else none
    | _ => none
  | .cancel p entry =>
    if s.pc p = .idle ∧ s.queueLock = none then
      let (s', found) := s.dequeueUnlocked entry
      some (s'.goto p (if found then .cancelling else .idle))
    else none
  | .lockHead p =>
    if s.pc p = .cancelling ∧ s.queueLock = none then
      some ({ s with queueLock := some p }.goto p (.overriding (headDeadline s.queue)))
    else none
  | .cancelArm p =>
    match s.pc p with
    | .overriding n => some ({ s.timerArm n true with queueLock := none }.goto p .idle)
    | _ => none
  | .expiry =>
    match s.timerFD with
    | some t => if t ≤ s.now then some { s with timerFD := none, fires := s.fires + 1 } else none
    | none => none
  | .timerFired p =>
    if s.pc p = .idle ∧ 0 < s.fires then
      some ({ s with fires := s.fires - 1 }.goto p (.expiring (some s.now)))
    else none
  | .expire p head tryLock =>
    match s.pc p with
    | .expiring cur =>
      if (s.queueLock = none ∨ s.queueLock = some p) ∧ isHead s.queue head then
        some (s.expireTurn p (cur.getD s.now) head tryLock)
      else none
    | _ => none
  | .rearm p =>
    match s.pc p with
    | .rearming n => some ((s.timerArm n true).goto p .idle)
    | _ => none

def Init (s : Timers ι ν) : Prop :=
  0 < s.now ∧ s.now + pastDeadlineTimerAdjustment ≤ uint64Max ∧ s = { now := s.now }

/-- What a step does, with what it found. -/
inductive Moves (s : Timers ι ν) : TimerLabel ι ν → Timers ι ν → Prop
  | tick {now} : s.now ≤ now → now + pastDeadlineTimerAdjustment ≤ uint64Max → Moves s (.tick now) { s with now }
  | enter {p entry deadline slop rateLimited} : s.pc p = .idle → deadline ≤ uint64Max →
      Moves s (.enter p entry deadline slop rateLimited)
        (s.goto p (.assigning (.enter entry deadline slop rateLimited s.now)))
  | assign {p call} : s.pc p = .assigning call →
      Moves s (.assign p) ((s.timerArm call.deadline false).goto p (.inserting call))
  | insert {p call} : s.pc p = .inserting call → s.queueLock = none →
      Moves s (.insert p) ((s.enqueue call).goto p .idle)
  | cancel {p entry s' found} : s.pc p = .idle → s.queueLock = none → s.dequeueUnlocked entry = (s', found) →
      Moves s (.cancel p entry) (s'.goto p (if found then .cancelling else .idle))
  | lockHead {p} : s.pc p = .cancelling → s.queueLock = none →
      Moves s (.lockHead p) ({ s with queueLock := some p }.goto p (.overriding (headDeadline s.queue)))
  | cancelArm {p n} : s.pc p = .overriding n →
      Moves s (.cancelArm p) ({ s.timerArm n true with queueLock := none }.goto p .idle)
  | expiry {t} : s.timerFD = some t → t ≤ s.now →
      Moves s .expiry { s with timerFD := none, fires := s.fires + 1 }
  | timerFired {p} : s.pc p = .idle → 0 < s.fires →
      Moves s (.timerFired p) ({ s with fires := s.fires - 1 }.goto p (.expiring (some s.now)))
  | expire {p cur head tryLock} : s.pc p = .expiring cur → s.queueLock = none ∨ s.queueLock = some p →
      Moves s (.expire p head tryLock) (s.expireTurn p (cur.getD s.now) head tryLock)
  | rearm {p n} : s.pc p = .rearming n → Moves s (.rearm p) ((s.timerArm n true).goto p .idle)

theorem step_moves {s s' : Timers ι ν} {l : TimerLabel ι ν} (h : s.step l = some s') : Moves s l s' := by
  cases l with
  | tick now =>
    obtain ⟨⟨h1, h2⟩, rfl⟩ := by simpa [step] using h
    exact .tick h1 h2
  | enter p entry deadline slop rateLimited =>
    obtain ⟨⟨h1, h2⟩, rfl⟩ := by simpa [step] using h
    exact .enter h1 h2
  | assign p =>
    simp only [step] at h
    split at h <;> cases h
    exact .assign ‹_›
  | insert p =>
    simp only [step] at h
    split at h
    · split at h <;> cases h
      exact .insert ‹_› ‹_›
    · cases h
  | cancel p entry =>
    simp only [step] at h
    split at h <;> cases h
    rename_i hc
    exact .cancel hc.1 hc.2 rfl
  | lockHead p =>
    obtain ⟨⟨h1, h2⟩, rfl⟩ := by simpa [step] using h
    exact .lockHead h1 h2
  | cancelArm p =>
    simp only [step] at h
    split at h <;> cases h
    exact .cancelArm ‹_›
  | expiry =>
    simp only [step] at h
    split at h
    · split at h <;> cases h
      exact .expiry ‹_› ‹_›
    · cases h
  | timerFired p =>
    obtain ⟨⟨h1, h2⟩, rfl⟩ := by simpa [step] using h
    exact .timerFired h1 h2
  | expire p head tryLock =>
    simp only [step] at h
    split at h
    · split at h <;> cases h
      rename_i hc
      exact .expire ‹_› hc.1
    · cases h
  | rearm p =>
    simp only [step] at h
    split at h <;> cases h
    exact .rearm ‹_›

/-! ## Arming -/

@[simp] theorem goto_pc (s : Timers ι ν) (p : ν) (x : TimerPc ι) (q : ν) :
    (s.goto p x).pc q = if q = p then x else s.pc q := Function.update_apply ..

/-- Arming touches the recorded deadline and the timerfd only. -/
theorem timerArm_frame (s : Timers ι ν) (d : Nat) (b : Bool) :
    ∃ cur fd, s.timerArm d b = { s with currentTimerDeadline := cur, timerFD := fd } := by
  unfold timerArm
  dsimp only
  generalize (if d = uint64Max then 0 else d) = e
  split
  · exact ⟨_, _, rfl⟩
  · exact ⟨_, _, rfl⟩

@[simp] theorem timerArm_pc (s : Timers ι ν) (d : Nat) (b : Bool) : (s.timerArm d b).pc = s.pc := by
  obtain ⟨_, _, h⟩ := s.timerArm_frame d b; rw [h]

@[simp] theorem timerArm_queue (s : Timers ι ν) (d : Nat) (b : Bool) : (s.timerArm d b).queue = s.queue := by
  obtain ⟨_, _, h⟩ := s.timerArm_frame d b; rw [h]

@[simp] theorem timerArm_queueLock (s : Timers ι ν) (d : Nat) (b : Bool) :
    (s.timerArm d b).queueLock = s.queueLock := by
  obtain ⟨_, _, h⟩ := s.timerArm_frame d b; rw [h]

@[simp] theorem timerArm_now (s : Timers ι ν) (d : Nat) (b : Bool) : (s.timerArm d b).now = s.now := by
  obtain ⟨_, _, h⟩ := s.timerArm_frame d b; rw [h]

@[simp] theorem timerArm_fires (s : Timers ι ν) (d : Nat) (b : Bool) : (s.timerArm d b).fires = s.fires := by
  obtain ⟨_, _, h⟩ := s.timerArm_frame d b; rw [h]

/-- The recorded deadline comes in time for `d`. -/
def Covers (s : Timers ι ν) (d : Nat) : Prop :=
  d < uint64Max → s.currentTimerDeadline ≠ 0 ∧ s.currentTimerDeadline ≤ d

theorem covers_timerArm (s : Timers ι ν) {d : Nat} (hd : 0 < d) : (s.timerArm d false).Covers d := by
  intro hlt
  unfold timerArm
  simp only [Nat.ne_of_lt hlt, if_false, Bool.not_false, Bool.true_and, Bool.and_eq_true, decide_eq_true_eq]
  split
  · assumption
  · exact ⟨Nat.ne_of_gt hd, Nat.le_refl d⟩

/-- Arming without overriding only brings the deadline forward, unless the deadline is the end of time. -/
theorem Covers.timerArm {s : Timers ι ν} {d e : Nat} (h : s.Covers e) (hd : 0 < d) (hmax : d ≠ uint64Max) :
    (s.timerArm d false).Covers e := by
  intro hlt
  obtain ⟨hne, hle⟩ := h hlt
  unfold Timers.timerArm
  simp only [hmax, if_false, Bool.not_false, Bool.true_and, Bool.and_eq_true, decide_eq_true_eq]
  split
  · exact ⟨hne, hle⟩
  · have hde : d ≤ e := by omega
    exact ⟨Nat.ne_of_gt hd, hde⟩

theorem covers_override (s : Timers ι ν) {n e : Nat} (hn : 0 < n) (hle : n ≤ e) : (s.timerArm n true).Covers e := by
  intro hlt
  unfold timerArm
  simp only [Nat.ne_of_lt (Nat.lt_of_le_of_lt hle hlt), if_false, Bool.not_true, Bool.false_and]
  exact ⟨Nat.ne_of_gt hn, hle⟩

/-! ## What every run keeps -/

/-- What a microthread at `x` has in hand: a call or a deadline to arm is a time, and the queue does
not change between reading its head and `timer_queue_cancel`. -/
def InHand (s : Timers ι ν) (p : ν) : TimerPc ι → Prop
  | .assigning call | .inserting call => 0 < call.deadline
  | .rearming n => 0 < n
  | .overriding n => s.queueLock = some p ∧ n = headDeadline s.queue
  | _ => True

structure Timed (s : Timers ι ν) : Prop where
  clock : 0 < s.now
  queued : ∀ call ∈ s.queue, 0 < call.deadline
  inHand : ∀ p, s.InHand p (s.pc p)

theorem enter_pos (entry : ι) (deadline slop : Nat) (rateLimited : Bool) {ctime : Nat} (h : 0 < ctime) :
    0 < (TimerCall.enter entry deadline slop rateLimited ctime).deadline := by
  unfold TimerCall.enter
  dsimp only
  generalize (if uint64Max - deadline ≤ slop then uint64Max else deadline + slop) = hard
  split
  · exact Nat.lt_of_lt_of_le h (Nat.le_add_right ..)
  · have hc : 0 < hard := by omega
    exact hc

theorem headDeadline_pos {queue : List (TimerCall ι)} (h : ∀ call ∈ queue, 0 < call.deadline) :
    0 < headDeadline queue := by
  rcases headDeadline_attained queue with hm | ⟨c, hc, hm⟩
  · rw [hm]; decide
  · rw [hm]; exact h c hc

theorem mem_enqueue {s : Timers ι ν} {call c : TimerCall ι} (h : c ∈ (s.enqueue call).queue) :
    c ∈ s.queue ∨ c = call := by
  simp only [enqueue, dequeue, List.mem_append, List.mem_filter, List.mem_singleton] at h
  exact h.imp_left And.left

theorem dequeueUnlocked_spec (s : Timers ι ν) (entry : ι) :
    ∃ queue async, (s.dequeueUnlocked entry).1 = { s with queue := queue, asyncDequeue := async } ∧
      ∀ c ∈ queue, c ∈ s.queue := by
  unfold dequeueUnlocked
  split
  · exact ⟨_, _, rfl, fun c hc => hc⟩
  · exact ⟨_, _, rfl, fun c hc => (List.mem_filter.1 hc).1⟩

/-- A turn of the expiry takes a call off the queue, or ends with the deadline of its head. -/
theorem expireTurn_spec (s : Timers ι ν) (p : ν) (cur : Nat) (head : Option (TimerCall ι)) (tryLock : Bool) :
    ∃ queue async lock x, s.expireTurn p cur head tryLock =
        { s with queue := queue, asyncDequeue := async, queueLock := lock }.goto p x ∧
      (∀ c ∈ queue, c ∈ s.queue) ∧ (x = .expiring none ∨ x = .rearming (headDeadline queue)) := by
  unfold expireTurn
  split
  · exact ⟨_, _, _, _, rfl, fun c hc => hc, .inr rfl⟩
  · split
    · split
      · exact ⟨_, _, _, _, rfl, fun c hc => (List.mem_filter.1 hc).1, .inl rfl⟩
      · exact ⟨_, _, _, _, rfl, fun c hc => (List.mem_filter.1 hc).1, .inl rfl⟩
    · exact ⟨_, _, _, _, rfl, fun c hc => hc, .inr rfl⟩

theorem Timed.goto {s : Timers ι ν} (h : s.Timed) {p : ν} {x : TimerPc ι} (hx : s.InHand p x) :
    (s.goto p x).Timed where
  clock := h.clock
  queued := h.queued
  inHand q := by
    rw [goto_pc]
    split
    · subst q; exact hx
    · exact h.inHand q

theorem InHand.timerArm {s : Timers ι ν} {p : ν} {x : TimerPc ι} (h : s.InHand p x) (d : Nat) (b : Bool) :
    (s.timerArm d b).InHand p x := by
  cases x with
  | overriding n => simpa [InHand] using h
  | _ => exact h

theorem Timed.timerArm {s : Timers ι ν} (h : s.Timed) (d : Nat) (b : Bool) : (s.timerArm d b).Timed where
  clock := by simpa using h.clock
  queued := by simpa using h.queued
  inHand p := by rw [timerArm_pc]; exact (h.inHand p).timerArm d b

/-- A section under the queue lock: nobody else is about to override with the head of the old queue. -/
theorem Timed.locked {s : Timers ι ν} (h : s.Timed) {p : ν} (hl : s.queueLock = none ∨ s.queueLock = some p)
    {queue : List (TimerCall ι)} (hq : ∀ call ∈ queue, 0 < call.deadline) {async : ι → Bool} {lock : Option ν}
    {x : TimerPc ι} (hx : { s with queue := queue, asyncDequeue := async, queueLock := lock }.InHand p x) :
    ({ s with queue := queue, asyncDequeue := async, queueLock := lock }.goto p x).Timed where
  clock := h.clock
  queued := hq
  inHand q := by
    have hold := h.inHand q
    rw [goto_pc]
    split
    · subst q; exact hx
    · rename_i hqp
      show InHand _ q (s.pc q)
      generalize s.pc q = y at hold
      cases y with
      | overriding n =>
        obtain ⟨hlock, -⟩ := hold
        rcases hl with hl | hl
        · rw [hl] at hlock; cases hlock
        · rw [hl] at hlock
          exact absurd (Option.some.inj hlock).symm hqp
      | _ => exact hold

theorem timed_moves {s s' : Timers ι ν} {l : TimerLabel ι ν} (h : s.Timed) (hm : Moves s l s') : s'.Timed := by
  cases hm with
  | tick hle _ => exact ⟨Nat.lt_of_lt_of_le h.clock hle, h.queued, h.inHand⟩
  | enter _ _ => exact h.goto (enter_pos _ _ _ _ h.clock)
  | @assign p call hp =>
    have hx := h.inHand p
    rw [hp] at hx
    exact (h.timerArm _ _).goto hx
  | @insert p call hp hl =>
    have hx := h.inHand p
    rw [hp] at hx
    refine h.locked (.inl hl) ?_ trivial
    intro c hc
    rcases mem_enqueue hc with hc | rfl
    · exact h.queued c hc
    · exact hx
  | @cancel p entry s' found hp hl hd =>
    obtain ⟨queue, async, he, hsub⟩ := s.dequeueUnlocked_spec entry
    rw [hd] at he
    subst he
    refine h.locked (.inl hl) (fun c hc => h.queued c (hsub c hc)) ?_
    split <;> trivial
  | lockHead _ hl => exact h.locked (.inl hl) h.queued ⟨rfl, rfl⟩
  | @cancelArm p n hp =>
    have hx := (h.timerArm n true).inHand p
    rw [timerArm_pc, hp] at hx
    exact (h.timerArm n true).locked (.inr hx.1) (h.timerArm n true).queued trivial
  | expiry _ _ => exact ⟨h.clock, h.queued, h.inHand⟩
  | timerFired _ _ => exact Timed.goto (s := { s with fires := s.fires - 1 }) ⟨h.clock, h.queued, h.inHand⟩ trivial
  | @expire p cur head tryLock hp hl =>
    obtain ⟨queue, async, lock, x, he, hsub, hx⟩ := s.expireTurn_spec p (cur.getD s.now) head tryLock
    have hq : ∀ c ∈ queue, 0 < c.deadline := fun c hc => h.queued c (hsub c hc)
    rw [he]
    refine h.locked hl hq ?_
    rcases hx with rfl | rfl
    · trivial
    · exact headDeadline_pos hq
  | rearm _ => exact (h.timerArm _ _).goto trivial

/-- The timerfd is set to the recorded deadline. -/
def InSync (s : Timers ι ν) : Prop :=
  s.timerFD = if s.currentTimerDeadline = 0 then none else some s.currentTimerDeadline

/-- An expiry that was read and has not armed the timer again. -/
def Firing (s : Timers ι ν) : Prop := 0 < s.fires ∨ ∃ p, (s.pc p).firing = true

theorem timerArm_override (s : Timers ι ν) (d : Nat) : (s.timerArm d true).InSync := rfl

theorem InSync.timerArm {s : Timers ι ν} (h : s.InSync) (d : Nat) (b : Bool) : (s.timerArm d b).InSync := by
  unfold Timers.timerArm
  dsimp only
  generalize (if d = uint64Max then 0 else d) = e
  split
  · exact h
  · rfl

theorem Firing.goto {s : Timers ι ν} (h : s.Firing) {p : ν} {x : TimerPc ι} (hp : (s.pc p).firing = false) :
    (s.goto p x).Firing := by
  rcases h with h | ⟨q, hq⟩
  · exact .inl h
  · have hqp : q ≠ p := by
      rintro rfl
      rw [hp] at hq
      cases hq
    exact .inr ⟨q, by simpa [hqp] using hq⟩

theorem firing_goto (s : Timers ι ν) (p : ν) {x : TimerPc ι} (hx : x.firing = true) : (s.goto p x).Firing :=
  .inr ⟨p, by simpa using hx⟩

theorem inSync_moves {s s' : Timers ι ν} {l : TimerLabel ι ν} (h : s.InSync ∨ s.Firing) (hm : Moves s l s') :
    s'.InSync ∨ s'.Firing := by
  cases hm with
  | tick _ _ => exact h
  | enter hp _ => exact h.imp id fun h => h.goto (by rw [hp]; rfl)
  | @assign p call hp =>
    refine h.imp (fun h => h.timerArm call.deadline false) fun h => Firing.goto ?_ (by rw [timerArm_pc, hp]; rfl)
    simpa [Firing] using h
  | @insert p call hp _ =>
    have hf : (s.pc p).firing = false := by rw [hp]; rfl
    exact h.imp id fun h => Firing.goto (s := s.enqueue call) h hf
  | @cancel p entry s' found hp _ hd =>
    obtain ⟨queue, async, he, -⟩ := s.dequeueUnlocked_spec entry
    rw [hd] at he
    subst he
    exact h.imp id fun h => Firing.goto (s := { s with queue := queue, asyncDequeue := async }) h (by rw [hp]; rfl)
  | @lockHead p hp _ => exact h.imp id fun h => Firing.goto (s := { s with queueLock := some p }) h (by rw [hp]; rfl)
  | cancelArm _ => exact .inl (s.timerArm_override _)
  | expiry _ _ => exact .inr (.inl (Nat.succ_pos _))
  | timerFired _ _ => exact .inr (firing_goto _ _ rfl)
  | @expire p cur head tryLock _ _ =>
    obtain ⟨queue, async, lock, x, he, -, hx⟩ := s.expireTurn_spec p (cur.getD s.now) head tryLock
    rw [he]
    refine .inr (firing_goto _ _ ?_)
    rcases hx with rfl | rfl <;> rfl
  | rearm _ => exact .inl (s.timerArm_override _)

/-! ## When the timer covers the queue -/

/-- No overriding arm falls with a later deadline between the assignment of a call and its insertion, no
insertion with an earlier deadline falls between an expiry and its re-arming, and a call for the end of
time, which disarms the timer, is assigned only where nothing else waits. -/
def Timely (s : Timers ι ν) : TimerLabel ι ν → Prop
  | .assign p => (s.pc p).assigns = some uint64Max → s.currentTimerDeadline = 0 ∨
      (∀ c ∈ s.queue, c.deadline = uint64Max) ∧ ∀ q, ∀ d ∈ (s.pc q).inserts, d = uint64Max
  | .cancelArm p | .rearm p => ∀ n ∈ (s.pc p).overrides, ∀ q, ∀ d ∈ (s.pc q).inserts, n ≤ d
  | .insert p => ∀ d ∈ (s.pc p).inserts, ∀ q, ∀ n ∈ (s.pc q).rearms, n ≤ d
  | _ => True

/-- Every call that is armed or queued is covered, and an expiry re-arms for all that are queued. -/
structure Covered (s : Timers ι ν) : Prop where
  armed : ∀ p, ∀ d ∈ (s.pc p).inserts, s.Covers d
  queued : ∀ call ∈ s.queue, s.Covers call.deadline
  next : ∀ p, ∀ n ∈ (s.pc p).rearms, ∀ call ∈ s.queue, n ≤ call.deadline

/-- A step of `p` that arms nothing and adds nothing to the queue. -/
theorem Covered.goto {s : Timers ι ν} (h : s.Covered) {p : ν} {queue : List (TimerCall ι)} {async : ι → Bool}
    {lock : Option ν} {fires : Nat} {x : TimerPc ι} (hq : ∀ c ∈ queue, c ∈ s.queue) (hi : x.inserts = none)
    (hr : ∀ n ∈ x.rearms, ∀ call ∈ queue, n ≤ call.deadline) :
    ({ s with queue := queue, asyncDequeue := async, queueLock := lock, fires := fires }.goto p x).Covered where
  armed q d := by
    rw [goto_pc]
    split
    · rw [hi]; nofun
    · exact h.armed q d
  queued c hc := h.queued c (hq c hc)
  next q n := by
    rw [goto_pc]
    split
    · exact hr n
    · exact fun hn c hc => h.next q n hn c (hq c hc)

/-- An overriding arm whose deadline comes before all that is armed or queued. -/
theorem Covered.override {s : Timers ι ν} (h : s.Covered) {n : Nat} (hn : 0 < n)
    (hi : ∀ q, ∀ d ∈ (s.pc q).inserts, n ≤ d) (hq : ∀ c ∈ s.queue, n ≤ c.deadline) :
    (s.timerArm n true).Covered where
  armed q d hd := s.covers_override hn (hi q d (by simpa using hd))
  queued c hc := s.covers_override hn (hq c (by simpa using hc))
  next q m hm c hc := h.next q m (by simpa using hm) c (by simpa using hc)

theorem Covers.not_lt {s : Timers ι ν} {d : Nat} (h : s.Covers d)
    (hz : s.currentTimerDeadline = 0 ∨ d = uint64Max) : ¬ d < uint64Max := by
  intro hlt
  have := h hlt
  omega

theorem Covered.assign {s : Timers ι ν} (h : s.Covered) {p : ν} {call : TimerCall ι} (hp : s.pc p = .assigning call)
    (hd : 0 < call.deadline) (hg : s.Timely (.assign p)) :
    ((s.timerArm call.deadline false).goto p (.inserting call)).Covered := by
  have keep : ∀ d, s.Covers d →
      (call.deadline = uint64Max → s.currentTimerDeadline = 0 ∨ d = uint64Max) →
      (s.timerArm call.deadline false).Covers d := by
    intro d hc hz
    by_cases hmax : call.deadline = uint64Max
    · exact fun hlt => absurd hlt (hc.not_lt (hz hmax))
    · exact hc.timerArm hd hmax
  replace hg : call.deadline = uint64Max → _ := fun hmax => hg (by rw [hp, ← hmax]; rfl)
  constructor
  · intro q d
    rw [goto_pc]
    split
    · rintro ⟨⟩
      exact s.covers_timerArm hd
    · rw [timerArm_pc]
      intro hd
      exact keep d (h.armed q d hd) fun hmax => (hg hmax).imp id fun hg => hg.2 q d hd
  · intro c hc
    replace hc : c ∈ s.queue := by simpa [Timers.goto] using hc
    exact keep c.deadline (h.queued c hc) fun hmax => (hg hmax).imp id fun hg => hg.1 c hc
  · intro q n
    rw [goto_pc]
    split
    · nofun
    · rw [timerArm_pc]
      exact fun hn c hc => h.next q n hn c (by simpa [Timers.goto] using hc)

theorem Covered.insert {s : Timers ι ν} (h : s.Covered) {p : ν} {call : TimerCall ι} (hp : s.pc p = .inserting call)
    (hg : s.Timely (.insert p)) : ((s.enqueue call).goto p .idle).Covered := by
  have hi : (s.pc p).inserts = some call.deadline := by rw [hp]; rfl
  constructor
  · intro q d
    rw [goto_pc]
    split
    · nofun
    · exact h.armed q d
  · intro c hc
    rcases mem_enqueue hc with hc | rfl
    · exact h.queued c hc
    · exact h.armed p _ hi
  · intro q n
    rw [goto_pc]
    split
    · nofun
    · intro hn c hc
      rcases mem_enqueue hc with hc | rfl
      · exact h.next q n hn c hc
      · exact hg _ hi q n hn

theorem covered_moves {s s' : Timers ι ν} {l : TimerLabel ι ν} (ht : s.Timed) (h : s.Covered) (hg : s.Timely l)
    (hm : Moves s l s') : s'.Covered := by
  cases hm with
  | tick _ _ => exact ⟨h.armed, h.queued, h.next⟩
  | enter _ _ => exact h.goto (fun c hc => hc) rfl nofun
  | @assign p call hp =>
    have hd := ht.inHand p
    rw [hp] at hd
    exact h.assign hp hd hg
  | insert hp _ => exact h.insert hp hg
  | @cancel p entry s' found _ _ hd =>
    obtain ⟨queue, async, he, hsub⟩ := s.dequeueUnlocked_spec entry
    rw [hd] at he
    subst he
    refine h.goto hsub ?_ ?_ <;> split <;> first | rfl | nofun
  | lockHead _ _ => exact h.goto (fun c hc => hc) rfl nofun
  | @cancelArm p n hp =>
    have hx := ht.inHand p
    rw [hp] at hx
    have hn : n = headDeadline s.queue := hx.2
    have hpos : 0 < n := hn ▸ headDeadline_pos ht.queued
    refine (h.override hpos (hg n (by rw [hp]; rfl)) ?_).goto (fun c hc => hc) rfl nofun
    exact fun c hc => hn ▸ headDeadline_le hc
  | expiry _ _ => exact ⟨h.armed, h.queued, h.next⟩
  | timerFired _ _ => exact h.goto (fun c hc => hc) rfl nofun
  | @expire p cur head tryLock _ _ =>
    obtain ⟨queue, async, lock, x, he, hsub, hx⟩ := s.expireTurn_spec p (cur.getD s.now) head tryLock
    rw [he]
    rcases hx with rfl | rfl
    · exact h.goto hsub rfl nofun
    · refine h.goto hsub rfl ?_
      rintro n ⟨⟩ c hc
      exact headDeadline_le hc
  | @rearm p n hp =>
    have hpos := ht.inHand p
    rw [hp] at hpos
    refine (h.override hpos (hg n (by rw [hp]; rfl)) ?_).goto (fun c hc => hc) rfl nofun
    exact h.next p n (by rw [hp]; rfl)

/-- No operation is in progress and no expiry is pending. -/
def Quiet (s : Timers ι ν) : Prop := (∀ p, s.pc p = .idle) ∧ s.fires = 0 ∧ ∀ t ∈ s.timerFD, s.now < t

theorem timed_reach {G : Timers ι ν → TimerLabel ι ν → Prop} {s : Timers ι ν} (h : Reach step G Init s) :
    s.Timed := by
  refine h.inv Timed ?_ fun s l s' hi _ hs => timed_moves hi (step_moves hs)
  rintro s ⟨hn, -, hs⟩
  rw [hs]
  exact ⟨hn, nofun, fun p => trivial⟩

theorem inSync_reach {G : Timers ι ν → TimerLabel ι ν → Prop} {s : Timers ι ν} (h : Reach step G Init s) :
    s.InSync ∨ s.Firing := by
  refine h.inv (fun s => s.InSync ∨ s.Firing) ?_ fun s l s' hi _ hs => inSync_moves hi (step_moves hs)
  rintro s ⟨-, -, hs⟩
  rw [hs]
  exact .inl rfl

theorem covered_reach {s : Timers ι ν} (h : Reach step Timely Init s) : s.Covered := by
  refine h.inv_with Timed Covered (fun s => timed_reach) ?_
    fun s l s' ht hi hg hs => covered_moves ht hi hg (step_moves hs)
  rintro s ⟨-, -, hs⟩
  rw [hs]
  exact ⟨fun p d => nofun, nofun, fun p n => nofun⟩

theorem Quiet.not_firing {s : Timers ι ν} (h : s.Quiet) : ¬ s.Firing := by
  rintro (hf | ⟨p, hp⟩)
  · rw [h.2.1] at hf
    cases hf
  · rw [h.1 p] at hp
    cases hp

/-- In every quiet state of a timely run a queue with a deadline below `UINT64_MAX` finds the timer
armed, in the record and in the timerfd, for no later than its earliest one. -/
theorem timer_covers_queue {s : Timers ι ν} (h : Reach step Timely Init s) (hq : s.Quiet)
    (hd : ∃ call ∈ s.queue, call.deadline < uint64Max) :
    s.currentTimerDeadline ≠ 0 ∧ s.currentTimerDeadline ≤ headDeadline s.queue ∧
      s.timerFD = some s.currentTimerDeadline := by
  obtain ⟨call, hc, hlt⟩ := hd
  have hcov := covered_reach h
  obtain ⟨hne, -⟩ := hcov.queued call hc hlt
  have hle : s.currentTimerDeadline ≤ headDeadline s.queue := by
    rcases headDeadline_attained s.queue with hm | ⟨c, hc', hm⟩
    · have := headDeadline_le hc
      omega
    · have := headDeadline_le hc
      exact hm ▸ (hcov.queued c hc' (by omega)).2
  have hsync := (inSync_reach h).resolve_right hq.not_firing
  exact ⟨hne, hle, hsync.trans (if_neg hne)⟩

instance (s : Timers ι Bool) : Decidable s.Quiet :=
  inferInstanceAs (Decidable ((∀ p, s.pc p = .idle) ∧ s.fires = 0 ∧ ∀ t ∈ s.timerFD, s.now < t))

instance (s : Timers ι Bool) : (l : TimerLabel ι Bool) → Decidable (s.Timely l)
  | .assign p => inferInstanceAs (Decidable ((s.pc p).assigns = some uint64Max → s.currentTimerDeadline = 0 ∨
      (∀ c ∈ s.queue, c.deadline = uint64Max) ∧ ∀ q, ∀ d ∈ (s.pc q).inserts, d = uint64Max))
  | .cancelArm p | .rearm p =>
    inferInstanceAs (Decidable (∀ n ∈ (s.pc p).overrides, ∀ q, ∀ d ∈ (s.pc q).inserts, n ≤ d))
  | .insert p => inferInstanceAs (Decidable (∀ d ∈ (s.pc p).inserts, ∀ q, ∀ n ∈ (s.pc q).rearms, n ≤ d))
  | .tick _ | .enter .. | .cancel .. | .lockHead _ | .expiry | .timerFired _ | .expire .. =>
    inferInstanceAs (Decidable True)

def boot : Timers Nat Bool := { now := 1 }

theorem boot_init : Init boot := ⟨Nat.one_pos, by decide, rfl⟩

/-- A call is entered with nothing in between. -/
def enterCall (p : Bool) (entry deadline : Nat) : List (TimerLabel Nat Bool) :=
  [.enter p entry deadline 0 false, .assign p, .insert p]

/-- Call 0 expires and the loop of the expiry has ended, with `rest` at the head of the queue. -/
def expireFirst (deadline : Nat) (rest : Option (TimerCall Nat)) : List (TimerLabel Nat Bool) :=
  [.tick deadline, .expiry, .timerFired false, .expire false (some ⟨0, deadline, deadline, false⟩) true,
    .expire false rest true]

/-- Two calls of which the first has expired. -/
theorem timer_covers_queue_expired : ∃ s : Timers Nat Bool, s.queue.map (·.deadline) = [300] ∧
    s.currentTimerDeadline ≠ 0 ∧ s.currentTimerDeadline ≤ headDeadline s.queue ∧
      s.timerFD = some s.currentTimerDeadline := by
  have hrun : (exec step (fun s l => decide (s.Timely l)) boot
      (enterCall false 0 100 ++ enterCall true 1 300 ++ expireFirst 100 (some ⟨1, 300, 300, false⟩) ++
        [.rearm false])).map
      (fun s => (decide s.Quiet, decide (∃ call ∈ s.queue, call.deadline < uint64Max), s.queue.map (·.deadline))) =
      some (true, true, [300]) := by decide +kernel
  obtain ⟨s, hs, hv⟩ := exists_reach (fun _ _ hg => of_decide_eq_true hg) (.init boot_init) hrun
  obtain ⟨hq, hd, hl⟩ : _ ∧ _ ∧ _ := by simpa only [Prod.mk.injEq] using hv
  exact ⟨s, hl, timer_covers_queue hs (of_decide_eq_true hq) (of_decide_eq_true hd)⟩

/-- The queue has a deadline, nothing is in progress and no timer is set. -/
def Missed (s : Timers ι ν) : Prop :=
  s.Quiet ∧ (∃ call ∈ s.queue, call.deadline < uint64Max) ∧ s.currentTimerDeadline = 0 ∧ s.timerFD = none

instance (s : Timers ι Bool) : Decidable s.Missed :=
  inferInstanceAs (Decidable (s.Quiet ∧ (∃ call ∈ s.queue, call.deadline < uint64Max) ∧
    s.currentTimerDeadline = 0 ∧ s.timerFD = none))

/-- A call is inserted after the expiry has found the queue empty and before it disarms the timer; a
cancelled call disarms the timer between the assignment and the insertion of another; a call for the
end of time disarms it for a call that is queued. Each run breaks one condition only. -/
theorem timer_misses_queue :
    let missed (clause : TimerLabel Nat Bool → Bool) := ∃ s : Timers Nat Bool,
      Reach step (fun s l => clause l = false → s.Timely l) Init s ∧ s.Missed
    missed (fun | .insert _ => true | _ => false) ∧
    missed (fun | .cancelArm _ => true | _ => false) ∧
    missed (fun | .assign _ => true | _ => false) := by
  intro missed
  have hrun (clause : TimerLabel Nat Bool → Bool) (ls : List (TimerLabel Nat Bool))
      (h : (exec step (fun s l => clause l || decide (s.Timely l)) boot ls).map (fun s => decide s.Missed) =
        some true) :
      missed clause := by
    obtain ⟨s, hs, hv⟩ : ∃ s, Reach step (fun s l => clause l = false → s.Timely l) Init s ∧
        decide s.Missed = true :=
      exists_reach (fun s l hok hc => by simpa [hc] using hok) (.init boot_init) h
    exact ⟨s, hs, of_decide_eq_true hv⟩
  refine ⟨?_, ?_, ?_⟩
  · exact hrun _ (enterCall false 0 100 ++ expireFirst 100 none ++ enterCall true 1 300 ++ [TimerLabel.rearm false])
      (by decide +kernel)
  · exact hrun _ (enterCall false 0 100 ++ [TimerLabel.cancel false 0, .enter true 1 300 0 false, .assign true,
      .lockHead false, .cancelArm false, .insert true]) (by decide +kernel)
  · exact hrun _ (enterCall false 0 100 ++ enterCall true 1 uint64Max) (by decide +kernel)

end Timers

end DarlingServer
