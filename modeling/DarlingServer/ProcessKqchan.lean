import Mathlib.Logic.Basic
import DarlingServer.Kqchan
/-!
# Process channels

`Kqchan::Process` keeps a queue of events under `_mutex`. `_notify` adds one and
asks for a notification before it lets the lock go; `_read` takes one at a time,
and takes the next one if the user is not interested in it. Events that come while
a notification is out are found by the check that the next reply schedules. A
section under `_mutex` is one step, with the section of `_sendNotification` in it;
only the check looks at the queue without the lock, and may see an event before
that section is over.

`_read` and `_modify` run on the main loop, so one at a time; `_notify` and the
checks on any thread.
-/

namespace DarlingServer

open Runs Kqchan

namespace ProcessKqchan

/-- An event of a channel, and for a fork the channel on the child. -/
structure Event (κ : Type*) where
  events : BitVec 32
  data : BitVec 64
  newKqchan : Option κ

inductive SetupStage where
  | begun
  /-- `_socket` is set. -/
  | connected
  /-- In the section under `_mutex`, before a notification is pushed. -/
  | pushing
  | finished
  deriving DecidableEq

inductive NotifyStage (κ : Type*) where
  /-- In the section under `_mutex`, before the event is in the queue. -/
  | locked (newEvent : Event κ)
  /-- In that section, before a notification is pushed. -/
  | pushing

inductive MainLoop where
  | idle
  /-- In the loop of `_read`. -/
  | reading (r : Nat)
  /-- Before the reply is pushed. -/
  | replying (r : Nat)
  /-- Before `_sendDeferredNotification`. -/
  | releasing (r : Nat)
  | pushing
  /-- In `_modify`, before the reply is pushed. -/
  | modifying
  deriving DecidableEq

end ProcessKqchan

open ProcessKqchan

structure ProcessKqchan (κ : Type*) where
  flags : BitVec 32
  events : List (Event κ) := []
  setup : SetupStage := .begun
  notifying : Option (NotifyStage κ) := none
  mainLoop : MainLoop := .idle
  /-- The checks that are scheduled and have not looked at the queue. -/
  scheduled : Nat := 0
  /-- The checks that have seen an event and have yet to ask for a notification. -/
  checking : Nat := 0
  checkPushing : Nat := 0

inductive ProcessKqchanLabel (κ : Type*) where
  | connect
  | attach
  | setupPush
  | notifyLock (newEvent : Event κ)
  | notify
  | notifyPush
  | read
  | readTurn
  | readReply
  | readRelease
  | readPush
  | modify (flags : BitVec 32)
  | modifyReply
  | transmit
  /-- Whether the check looks while a `_notify` holds the lock and has added its event. -/
  | check (early : Bool)
  | checkNotify
  | checkPush
  | receive
  | request

namespace ProcessKqchan

variable {κ : Type*}

def mutexFree (c : ProcessKqchan κ) : Bool := c.setup ≠ .pushing && c.notifying.isNone

/-- Whether a `_notify` holds the lock and has yet to ask for a notification. -/
def adding (c : ProcessKqchan κ) : Bool :=
  match c.notifying with
  | some (.locked _) => true
  | _ => false

/-- One turn of the loop of `_read`. -/
def readTurn (c : ProcessKqchan κ) (r : Nat) : ProcessKqchan κ :=
  match c.events with
  | [] => { c with mainLoop := .replying r }
  | event :: events =>
    { c with events, mainLoop := if event.events &&& c.flags = 0 then .reading r else .replying r }

theorem readTurn_frame (c : ProcessKqchan κ) (r : Nat) :
    c.readTurn r = { c with events := c.events.tail, mainLoop := (c.readTurn r).mainLoop } := by
  unfold readTurn
  split <;> simp_all

def threads (k : Kqchan) (c : ProcessKqchan κ) : ProcessKqchanLabel κ → Option (Option KqchanLabel × ProcessKqchan κ)
  | .connect => if c.setup = .begun then some (none, { c with setup := .connected }) else none
  | .attach =>
    if c.setup = .connected && c.mutexFree then
      if c.events.isEmpty then some (none, { c with setup := .finished })
      else some (some .sendNotification, { c with setup := if k.sendsNow then .pushing else .finished })
    else none
  | .setupPush => if c.setup = .pushing then some (some .push, { c with setup := .finished }) else none
  | .notifyLock e => if c.mutexFree then some (none, { c with notifying := some (.locked e) }) else none
  | .notify =>
    match c.notifying with
    | some (.locked e) =>
      let c := { c with events := c.events ++ [e] }
      if c.setup = .begun then some (none, { c with notifying := none })
      else some (some .sendNotification, { c with notifying := if k.sendsNow then some .pushing else none })
    | _ => none
  | .notifyPush =>
    match c.notifying with
    | some .pushing => some (some .push, { c with notifying := none })
    | _ => none
  | .read => if c.mainLoop = .idle then some (some .read, { c with mainLoop := .reading k.nextRead }) else none
  | .readTurn =>
    match c.mainLoop with
    | .reading r => if c.mutexFree then some (none, c.readTurn r) else none
    | _ => none
  | .readReply =>
    match c.mainLoop with
    | .replying r => some (some (.reply r), { c with mainLoop := .releasing r })
    | _ => none
  | .readRelease =>
    match c.mainLoop with
    | .releasing r =>
      some (some (.sendDeferredNotification r),
        { c with mainLoop := if k.deferredNotification then .pushing else .idle })
    | _ => none
  | .readPush => if c.mainLoop = .pushing then some (some .push, { c with mainLoop := .idle }) else none
  | .modify flags =>
    if c.mainLoop = .idle && c.mutexFree then some (none, { c with flags, mainLoop := .modifying }) else none
  | .modifyReply => if c.mainLoop = .modifying then some (some .pushReply, { c with mainLoop := .idle }) else none
  -- the callback of a reply schedules a check
  | .transmit =>
    if c.setup = .begun then none else some (some .transmit, { c with scheduled := c.scheduled + k.callbacks })
  | .check early =>
    if c.scheduled = 0 then none
    else
      let sees := !c.events.isEmpty || (early && c.adding)
      some (none, { c with scheduled := c.scheduled - 1, checking := c.checking + sees.toNat })
  | .checkNotify =>
    if c.checking = 0 then none
    else some (some .sendNotification,
      { c with checking := c.checking - 1, checkPushing := c.checkPushing + k.sendsNow.toNat })
  | .checkPush =>
    if c.checkPushing = 0 then none else some (some .push, { c with checkPushing := c.checkPushing - 1 })
  | .receive => some (some .receive, c)
  | .request => some (some .request, c)

def Init (s : Kqchan × ProcessKqchan κ) : Prop := s.1.Init ∧ ∃ flags, s.2 = { flags }

/-! ## Events are not lost -/

/-- The checks that are scheduled or under way. -/
def checks (c : ProcessKqchan κ) : Nat := c.scheduled + c.checking

/-- Something will make the peer read: a notification is out, a read is going on, or a check is to come. -/
def Alerted (k : Kqchan) (checks : Nat) : Prop :=
  k.canSendNotification = false ∨ k.handling ≠ [] ∨ .reply ∈ k.outbox ∨ 0 < checks

theorem Alerted.mono {k : Kqchan} {m n : Nat} (h : Alerted k m) (hmn : m ≤ n) : Alerted k n :=
  h.imp_right (.imp_right (.imp_right (Nat.lt_of_lt_of_le · hmn)))

/-- A section of the channel takes the cause away only to put another in its place. -/
theorem Alerted.move {k k' : Kqchan} {l : KqchanLabel} {n : Nat} (hm : Moves k l k') (h : Alerted k n) :
    Alerted k' (n + if l = .transmit then k.callbacks else 0) := by
  cases hm with
  | defers | sends => exact .inl rfl
  | read => exact .inr (.inl (List.cons_ne_nil _ _))
  | reply | pushReply => exact .inr (.inr (.inl (by simp)))
  | push => exact h.imp_right (.imp_right (.imp_left (List.mem_append_left _)))
  | held | sendDeferred | undefer | receiveNotification | receiveReply | request => exact h
  | @transmit m outbox hout =>
    rcases h with h | h | h | h
    · exact .inl h
    · exact .inr (.inl h)
    · -- the reply is called back for, or is still behind another message
      rw [hout] at h
      cases m with
      | reply => exact .inr (.inr (.inr (by simp [callbacks, hout])))
      | notification => exact .inr (.inr (.inl (by simpa using h)))
    · exact .inr (.inr (.inr (by omega)))

theorem alerted_sendNotification (k : Kqchan) (n : Nat) : Alerted k.sendNotification n := by
  refine .inl ?_
  unfold sendNotification
  split
  · simp_all
  · split <;> rfl

/-- `setup` has looked at the queue. -/
def Attached (c : ProcessKqchan κ) : Prop := c.setup = .pushing ∨ c.setup = .finished

/-- Whoever leaves an event in the queue asks for a notification, or it was there before and as many checks
are to come. -/
theorem threads_events {k : Kqchan} {c c' : ProcessKqchan κ} {l : ProcessKqchanLabel κ} {label : Option KqchanLabel}
    (h : threads k c l = some (label, c')) (ha : c'.Attached) (he : c'.events ≠ []) :
    label = some .sendNotification ∨ c.Attached ∧ c.events ≠ [] ∧
      c.checks + (if label = some .transmit then k.callbacks else 0) ≤ c'.checks := by
  cases l with
  | connect =>
    obtain ⟨-, h⟩ := Option.ite_none_right_eq_some.1 h
    cases h
    exact absurd ha (by simp [Attached])
  | attach =>
    obtain ⟨-, h⟩ := Option.ite_none_right_eq_some.1 h
    split at h <;> cases h
    · exact absurd (List.isEmpty_iff.1 ‹_›) he
    · exact .inl rfl
  | setupPush =>
    obtain ⟨hs, h⟩ := Option.ite_none_right_eq_some.1 h
    cases h
    exact .inr ⟨.inl hs, he, Nat.le_refl _⟩
  | notify =>
    simp only [threads] at h
    split at h
    · split at h <;> cases h
      · exact absurd ha (by simp_all [Attached])
      · exact .inl rfl
    · cases h
  | readTurn =>
    simp only [threads] at h
    split at h
    · obtain ⟨-, h⟩ := Option.ite_none_right_eq_some.1 h
      cases h
      rw [readTurn_frame] at ha he ⊢
      exact .inr ⟨ha, fun hn => he (by simp [hn]), Nat.le_refl _⟩
    · cases h
  | checkNotify =>
    obtain ⟨-, h⟩ := Option.ite_none_left_eq_some.1 h
    cases h
    exact .inl rfl
  | check early =>
    obtain ⟨hn, h⟩ := Option.ite_none_left_eq_some.1 h
    cases h
    refine .inr ⟨ha, he, ?_⟩
    simp only [checks, List.isEmpty_eq_false_iff.2 he]
    simp
    omega
  | transmit =>
    obtain ⟨-, h⟩ := Option.ite_none_left_eq_some.1 h
    cases h
    refine .inr ⟨ha, he, ?_⟩
    simp only [checks, if_true]
    omega
  | notifyLock | read | readPush | modify | modifyReply =>
    obtain ⟨-, h⟩ := Option.ite_none_right_eq_some.1 h
    cases h
    exact .inr ⟨ha, he, Nat.le_refl _⟩
  | checkPush =>
    obtain ⟨-, h⟩ := Option.ite_none_left_eq_some.1 h
    cases h
    exact .inr ⟨ha, he, Nat.le_refl _⟩
  | notifyPush | readReply | readRelease =>
    simp only [threads] at h
    split at h <;> cases h
    exact .inr ⟨ha, he, Nat.le_refl _⟩
  | receive | request =>
    cases h
    exact .inr ⟨ha, he, Nat.le_refl _⟩

theorem alerted_step {s s' : Kqchan × ProcessKqchan κ} {l : ProcessKqchanLabel κ} (h : driven threads s l = some s')
    (hi : s.2.Attached → s.2.events ≠ [] → Alerted s.1 s.2.checks) :
    s'.2.Attached → s'.2.events ≠ [] → Alerted s'.1 s'.2.checks := by
  intro ha he
  obtain ⟨label, ht, hk⟩ := driven_some h
  rcases threads_events ht ha he with rfl | ⟨ha, he, hle⟩
  · obtain ⟨l', hl', hk⟩ := hk.resolve_left nofun
    cases hl'
    rw [← (Option.some.inj hk : s.1.sendNotification = s'.1)]
    exact alerted_sendNotification ..
  · rcases hk with ⟨rfl, hk⟩ | ⟨l', rfl, hk⟩
    · rw [hk]
      exact (hi ha he).mono (by simpa using hle)
    · exact ((hi ha he).move (step_moves hk)).mono (by simpa using hle)

/-- Once `setup` is done an event in the queue is announced or will be, and a notification that keeps others
back is in one place: deferred, about to be pushed, in the outbox, or with the peer. -/
theorem no_event_lost (s : Kqchan × ProcessKqchan κ) (h : Reach (driven threads) (fun _ _ => True) Init s) :
    (s.2.setup = .finished → s.2.events ≠ [] →
      s.1.canSendNotification = false ∨ s.1.handling ≠ [] ∨ .reply ∈ s.1.outbox ∨ 0 < s.2.checks) ∧
    (s.1.canSendNotification = false →
      s.1.deferredNotification.toNat + s.1.pushing + s.1.outbox.count .notification +
        (s.1.wire.count .notification + s.1.received + s.1.requests) = 1) := by
  constructor
  · intro hs
    refine h.inv (fun s => s.2.Attached → s.2.events ≠ [] → Alerted s.1 s.2.checks) ?_
      (fun _ _ _ hi _ hst => alerted_step hst hi) (.inr hs)
    rintro ⟨k, c⟩ ⟨-, flags, rfl⟩ _ he
    exact absurd rfl he
  · intro hc
    have := (disciplined (driven_reach (fun _ hi => hi.1) h)).once
    simp only [outstanding, unanswered, unread, hc, Bool.not_false, Bool.toNat_true] at this
    omega

/-- A channel whose user is interested in `NOTE_EXEC` and `NOTE_EXIT`. -/
def execAndExit : Kqchan × ProcessKqchan Unit := ({}, { flags := 0xa0000000 })

/-- The target executes a program; the peer is notified, and the target exits while it reads. -/
def busyRun : List (ProcessKqchanLabel Unit) :=
  [.connect, .attach, .notifyLock ⟨0x20000000, 0, none⟩, .notify, .notifyPush, .transmit, .receive, .request, .read,
    .notifyLock ⟨0x80000000, 0, none⟩, .notify, .readTurn]

theorem no_event_lost_busy : ∃ s : Kqchan × ProcessKqchan Unit,
    exec (driven threads) (fun _ _ => true) execAndExit busyRun = some s ∧
      s.2.setup = .finished ∧ s.2.events ≠ [] ∧ s.1.canSendNotification = false ∧
      (s.1.canSendNotification = false ∨ s.1.handling ≠ [] ∨ .reply ∈ s.1.outbox ∨ 0 < s.2.checks) ∧
      s.1.deferredNotification.toNat + s.1.pushing + s.1.outbox.count .notification +
        (s.1.wire.count .notification + s.1.received + s.1.requests) = 1 := by
  have hrun : (exec (driven threads) (fun _ _ => true) execAndExit busyRun).map (fun s =>
      (s.2.setup, s.2.events.isEmpty, s.1.canSendNotification)) = some (.finished, false, false) := rfl
  obtain ⟨s, hs, hv⟩ := Option.map_eq_some_iff.1 hrun
  simp only [Prod.mk.injEq] at hv
  obtain ⟨h₁, h₂, h₃⟩ := hv
  have hinit : Reach (driven threads) (fun _ _ => True) Init execAndExit := .init ⟨rfl, _, rfl⟩
  have h := no_event_lost s (exec_reach (fun _ _ _ => trivial) hs hinit)
  have he : s.2.events ≠ [] := List.isEmpty_eq_false_iff.1 h₂
  exact ⟨s, hs, h₁, he, h₃, h.1 h₁ he, h.2 h₃⟩

end ProcessKqchan

end DarlingServer
