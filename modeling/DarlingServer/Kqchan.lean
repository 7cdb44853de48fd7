import Mathlib.Logic.Basic
import DarlingServer.Lib.Runs
/-!
# Kqueue channels

A channel tells its peer once that there is something to read, and not again
before the peer has asked to read (`_canSendNotification`). From the moment a read
starts until its reply is in the outbox a notification is put aside
(`_deferNotification`). Both flags are guarded by `_notificationMutex`, and the
outbox by a lock of its own, so a notification is between the two for a while.

`Kqchan` is that protocol with its peer, for any number of threads. A kind of
channel is given by what its threads do around it: `driven` runs the two together,
and what holds of the protocol in every run holds of every kind.
-/

namespace DarlingServer

open Runs

/-- What a channel sends its peer. A reply carries the callback that checks for events. -/
inductive Outgoing where
  | notification
  | reply
  deriving DecidableEq

structure Kqchan where
  canSendNotification : Bool := true
  deferNotification : Bool := false
  /-- Whether `_deferredNotification` holds a message. -/
  deferredNotification : Bool := false
  /-- The notifications whose sender has left `_notificationMutex` and has yet to push them. -/
  pushing : Nat := 0
  outbox : List Outgoing := []
  /-- The reads that have started and have yet to push their reply. -/
  handling : List Nat := []
  /-- The reads that have pushed their reply and have yet to send what was deferred. -/
  replied : List Nat := []
  nextRead : Nat := 0
  /-- Sent and not yet received by the peer. -/
  wire : List Outgoing := []
  /-- The notifications that the peer has received and not yet answered. -/
  received : Nat := 0
  /-- The read requests that the peer has sent and that have yet to start. -/
  requests : Nat := 0

inductive KqchanLabel where
  | sendNotification
  | push
  | read
  | reply (r : Nat)
  | sendDeferredNotification (r : Nat)
  /-- The reply to a modification. -/
  | pushReply
  /-- One message of `sendMany`. -/
  | transmit
  | receive
  | request
  deriving DecidableEq

namespace Kqchan

/-! ## The sections -/

/-- Whether `_sendNotification` goes on to push a notification. -/
def sendsNow (k : Kqchan) : Bool := k.canSendNotification && !k.deferNotification

def sendNotification (k : Kqchan) : Kqchan :=
  if !k.canSendNotification then k
  else if k.deferNotification then { k with canSendNotification := false, deferredNotification := true }
  else { k with canSendNotification := false, pushing := k.pushing + 1 }

def sendDeferredNotification (k : Kqchan) : Kqchan :=
  if k.deferredNotification then
    { k with deferNotification := false, deferredNotification := false, pushing := k.pushing + 1 }
  else { k with deferNotification := false }

/-- The first section of `_read`: the request acknowledges the notification. -/
def acknowledge (k : Kqchan) : Kqchan := { k with canSendNotification := true, deferNotification := true }

/-- The peer reads once for each notification it has received, and does not hang up. -/
def step (k : Kqchan) : KqchanLabel → Option Kqchan
  | .sendNotification => some k.sendNotification
  | .push =>
    if k.pushing = 0 then none
    else some { k with pushing := k.pushing - 1, outbox := k.outbox ++ [.notification] }
  | .read =>
    if k.requests = 0 then none
    else some { k.acknowledge with
      requests := k.requests - 1, handling := k.nextRead :: k.handling, nextRead := k.nextRead + 1 }
  | .reply r =>
    if r ∈ k.handling then
      some { k with handling := k.handling.erase r, replied := r :: k.replied, outbox := k.outbox ++ [.reply] }
    else none
  | .sendDeferredNotification r =>
    if r ∈ k.replied then some { k.sendDeferredNotification with replied := k.replied.erase r } else none
  | .pushReply => some { k with outbox := k.outbox ++ [.reply] }
  | .transmit =>
    match k.outbox with
    | [] => none
    | m :: outbox => some { k with outbox, wire := k.wire ++ [m] }
  | .receive =>
    match k.wire with
    | [] => none
    | .notification :: wire => some { k with wire, received := k.received + 1 }
    | .reply :: wire => some { k with wire }
  | .request =>
    if k.received = 0 then none else some { k with received := k.received - 1, requests := k.requests + 1 }

/-- How often `sendMany` calls back for the next message. -/
def callbacks (k : Kqchan) : Nat := if k.outbox.head? = some .reply then 1 else 0

def Init (k : Kqchan) : Prop := k = {}

/-- What a step does, with what it found. -/
inductive Moves (k : Kqchan) : KqchanLabel → Kqchan → Prop
  | held : k.canSendNotification = false → Moves k .sendNotification k
  | defers : k.canSendNotification = true → k.deferNotification = true →
      Moves k .sendNotification { k with canSendNotification := false, deferredNotification := true }
  | sends : k.canSendNotification = true → k.deferNotification = false →
      Moves k .sendNotification { k with canSendNotification := false, pushing := k.pushing + 1 }
  | push {n} : k.pushing = n + 1 → Moves k .push { k with pushing := n, outbox := k.outbox ++ [.notification] }
  | read {n} : k.requests = n + 1 →
      Moves k .read { k.acknowledge with
        requests := n, handling := k.nextRead :: k.handling, nextRead := k.nextRead + 1 }
  | reply {r} : r ∈ k.handling →
      Moves k (.reply r) { k with
        handling := k.handling.erase r, replied := r :: k.replied, outbox := k.outbox ++ [.reply] }
  | sendDeferred {r} : r ∈ k.replied → k.deferredNotification = true →
      Moves k (.sendDeferredNotification r) { k with
        deferNotification := false, deferredNotification := false, pushing := k.pushing + 1
        replied := k.replied.erase r }
  | undefer {r} : r ∈ k.replied → k.deferredNotification = false →
      Moves k (.sendDeferredNotification r) { k with deferNotification := false, replied := k.replied.erase r }
  | pushReply : Moves k .pushReply { k with outbox := k.outbox ++ [.reply] }
  | transmit {m outbox} : k.outbox = m :: outbox → Moves k .transmit { k with outbox, wire := k.wire ++ [m] }
  | receiveNotification {wire} : k.wire = .notification :: wire →
      Moves k .receive { k with wire, received := k.received + 1 }
  | receiveReply {wire} : k.wire = .reply :: wire → Moves k .receive { k with wire }
  | request {n} : k.received = n + 1 → Moves k .request { k with received := n, requests := k.requests + 1 }

theorem step_moves {k k' : Kqchan} {l : KqchanLabel} (h : k.step l = some k') : Moves k l k' := by
  cases l with
  | sendNotification =>
    simp only [step, sendNotification, Option.some.injEq] at h
    split at h
    · subst h; exact .held (by simp_all)
    · split at h
      · subst h; exact .defers (by simp_all) ‹_›
      · subst h; exact .sends (by simp_all) (Bool.of_not_eq_true ‹_›)
  | push =>
    obtain ⟨hn, h⟩ := Option.ite_none_left_eq_some.1 h
    cases h
    exact .push (Nat.succ_pred_eq_of_ne_zero hn).symm
  | read =>
    obtain ⟨hn, h⟩ := Option.ite_none_left_eq_some.1 h
    cases h
    exact .read (Nat.succ_pred_eq_of_ne_zero hn).symm
  | reply r =>
    obtain ⟨hr, h⟩ := Option.ite_none_right_eq_some.1 h
    cases h
    exact .reply hr
  | sendDeferredNotification r =>
    obtain ⟨hr, h⟩ := Option.ite_none_right_eq_some.1 h
    simp only [sendDeferredNotification] at h
    split at h <;> cases h
    · exact .sendDeferred hr ‹_›
    · exact .undefer hr (Bool.of_not_eq_true ‹_›)
  | pushReply => cases h; exact .pushReply
  | transmit =>
    simp only [step] at h
    split at h
    · cases h
    · cases h; exact .transmit ‹_›
  | receive =>
    simp only [step] at h
    split at h
    · cases h
    · cases h; exact .receiveNotification ‹_›
    · cases h; exact .receiveReply ‹_›
  | request =>
    obtain ⟨hn, h⟩ := Option.ite_none_left_eq_some.1 h
    cases h
    exact .request (Nat.succ_pred_eq_of_ne_zero hn).symm

/-! ## One notification at a time -/

/-- The notifications in the outbox or on their way to the peer, and those it has yet to ask about. -/
def unread (k : Kqchan) : Nat := k.outbox.count .notification + k.wire.count .notification + k.received

/-- The notifications that have been pushed and have not been answered by a read. -/
def unanswered (k : Kqchan) : Nat := k.unread + k.requests

/-- Where a notification can be from when it is sent until a read answers it. -/
def outstanding (k : Kqchan) : Nat := k.deferredNotification.toNat + k.pushing + k.unanswered

structure Disciplined (k : Kqchan) : Prop where
  once : k.outstanding = (!k.canSendNotification).toNat
  /-- While notifications are deferred there is none anywhere else. -/
  quiet : k.deferNotification = true → k.pushing = 0 ∧ k.unanswered = 0
  /-- They are deferred exactly while a read is going on, and there is one at most. -/
  reading : k.handling.length + k.replied.length = k.deferNotification.toNat

/-- A message or a request that moves on changes nothing else. -/
theorem Disciplined.moved {k k' : Kqchan} (hi : k.Disciplined) (hu : k'.unanswered = k.unanswered)
    (hc : k'.canSendNotification = k.canSendNotification) (hd : k'.deferNotification = k.deferNotification)
    (hm : k'.deferredNotification = k.deferredNotification) (hp : k'.pushing = k.pushing)
    (hr : k'.handling.length + k'.replied.length = k.handling.length + k.replied.length) : k'.Disciplined := by
  refine ⟨?_, fun h => ?_, ?_⟩
  · rw [hc, ← hi.once]
    simp only [outstanding, hu, hm, hp]
  · rw [hp, hu]
    exact hi.quiet (hd ▸ h)
  · rw [hr, hd]
    exact hi.reading

theorem unread_transmit {k : Kqchan} {m : Outgoing} {outbox : List Outgoing} (hm : k.outbox = m :: outbox) :
    unread { k with outbox, wire := k.wire ++ [m] } = k.unread := by
  simp only [unread, hm, List.count_cons, List.count_append, List.count_nil]
  omega

theorem unread_receive {k : Kqchan} {wire : List Outgoing} (hw : k.wire = .notification :: wire) :
    unread { k with wire, received := k.received + 1 } = k.unread := by
  simp only [unread, hw, List.count_cons_self]
  omega

theorem disciplined_step {k k' : Kqchan} {l : KqchanLabel} (h : Moves k l k') (hi : k.Disciplined) :
    k'.Disciplined := by
  have ⟨honce, hquiet, hreading⟩ := hi
  simp only [outstanding, unanswered, unread] at honce hquiet
  cases h with
  | held => exact ⟨honce, hquiet, hreading⟩
  | defers hc hd =>
    refine ⟨?_, hquiet, hreading⟩
    simp_all [outstanding, unanswered, unread]
  | sends hc hd =>
    refine ⟨?_, fun h => absurd h (by simp [hd]), hreading⟩
    simp_all [outstanding, unanswered, unread]
  | push hn =>
    refine ⟨?_, fun hd => ?_, hreading⟩
    · simp only [outstanding, unanswered, unread, List.count_append, List.count_singleton_self]
      omega
    · have := (hquiet hd).1
      omega
  | @read n hn =>
    -- the request was the one outstanding notification, and nothing was deferred
    have hd : k.deferNotification = false := Bool.of_not_eq_true fun hd => by have := (hquiet hd).2; omega
    have hc := Bool.toNat_le (!k.canSendNotification)
    refine ⟨?_, fun _ => ⟨?_, ?_⟩, ?_⟩
    · simp only [outstanding, unanswered, unread, acknowledge, Bool.not_true, Bool.toNat_false]
      omega
    · change k.pushing = 0
      omega
    · simp only [unanswered, unread, acknowledge]
      omega
    · simp only [hd, Bool.toNat_false] at hreading
      simp only [acknowledge, List.length_cons, Bool.toNat_true]
      omega
  | reply hr =>
    refine hi.moved (by simp [unanswered, unread]) rfl rfl rfl rfl ?_
    have := List.length_pos_of_mem hr
    simp only [List.length_erase_of_mem hr, List.length_cons]
    omega
  | sendDeferred hr hd =>
    refine ⟨?_, nofun, ?_⟩
    · simp only [hd, Bool.toNat_true] at honce
      simp only [outstanding, unanswered, unread, Bool.toNat_false]
      omega
    · have := List.length_pos_of_mem hr
      have := Bool.toNat_le k.deferNotification
      simp only [List.length_erase_of_mem hr, Bool.toNat_false]
      omega
  | undefer hr hd =>
    refine ⟨honce, nofun, ?_⟩
    have := List.length_pos_of_mem hr
    have := Bool.toNat_le k.deferNotification
    simp only [List.length_erase_of_mem hr, Bool.toNat_false]
    omega
  | pushReply => exact hi.moved (by simp [unanswered, unread]) rfl rfl rfl rfl rfl
  | transmit hm => exact hi.moved (congrArg (· + k.requests) (unread_transmit hm)) rfl rfl rfl rfl rfl
  | receiveNotification hw => exact hi.moved (congrArg (· + k.requests) (unread_receive hw)) rfl rfl rfl rfl rfl
  | receiveReply hw => exact hi.moved (by simp [unanswered, unread, hw]) rfl rfl rfl rfl rfl
  | request hn =>
    refine hi.moved ?_ rfl rfl rfl rfl rfl
    simp only [unanswered, unread, hn]
    omega

theorem disciplined {k : Kqchan} (h : Reach step (fun _ _ => True) Init k) : k.Disciplined := by
  refine h.inv Disciplined ?_ fun _ _ _ hi _ hst => disciplined_step (step_moves hst) hi
  rintro k rfl
  exact ⟨rfl, nofun, rfl⟩

/-! ## The order of messages -/

inductive Entry where
  | requested
  | started (r : Nat)
  | replied (r : Nat)
  | notified
  deriving DecidableEq

def Entry.isRequest : Entry → Bool
  | .requested => true
  | _ => false

def Entry.isStart : Entry → Bool
  | .started _ => true
  | _ => false

/-- What the history keeps of a step. -/
def entry (k : Kqchan) : KqchanLabel → Option Entry
  | .push => some .notified
  | .read => some (.started k.nextRead)
  | .reply r => some (.replied r)
  | .request => some .requested
  | _ => none

/-- The newest entry comes first. -/
def record (k : Kqchan) (l : KqchanLabel) (_ : Kqchan) (log : List Entry) : List Entry := (k.entry l).toList ++ log

/-- No notification enters the outbox from when a read starts until its reply does, and at most one from
one read to the next, be it from when the peer asks or from when the read starts. -/
structure InOrder (log : List Entry) : Prop where
  undisturbed : ∀ {later r earlier}, log = later ++ .started r :: earlier → .replied r ∉ later → .notified ∉ later
  atMostOne : ∀ {mark : Entry → Bool}, mark = Entry.isRequest ∨ mark = Entry.isStart →
    ∀ {later e earlier}, log = later ++ e :: earlier → mark e = true → (∀ e ∈ later, mark e = false) →
      later.count .notified ≤ 1

/-- The notifications since the last entry that `mark` picks. -/
def notifiedSince (mark : Entry → Bool) (log : List Entry) : Nat :=
  (log.takeWhile fun e => !mark e).count .notified

structure Logged (k : Kqchan) (log : List Entry) : Prop where
  unfinished : ∀ {later r earlier}, log = later ++ .started r :: earlier → .replied r ∉ later →
    .notified ∉ later ∧ r ∈ k.handling
  sinceRequest : notifiedSince Entry.isRequest log = k.unread
  sinceStart : notifiedSince Entry.isStart log = k.unanswered

theorem Logged.inOrder {k : Kqchan} {log : List Entry} (h : Logged k log) (hk : k.Disciplined) : InOrder log := by
  refine ⟨fun hl hr => (h.unfinished hl hr).1, fun {mark} hmark {later e earlier} hl he hlater => ?_⟩
  have hsince : notifiedSince mark log = later.count .notified := by
    unfold notifiedSince
    rw [hl, List.takeWhile_append_of_pos (by simpa using hlater), List.takeWhile_cons_of_neg (by simp [he]),
      List.append_nil]
  have hbound := Bool.toNat_le (!k.canSendNotification)
  have honce := hk.once
  simp only [outstanding, unanswered] at honce
  rcases hmark with rfl | rfl
  · have := h.sinceRequest
    omega
  · have := h.sinceStart
    simp only [unanswered] at this
    omega

theorem notifiedSince_mark {mark : Entry → Bool} {e : Entry} (he : mark e = true) (log : List Entry) :
    notifiedSince mark (e :: log) = 0 := by
  simp [notifiedSince, he]

theorem notifiedSince_other {mark : Entry → Bool} (e : Entry) (he : mark e = false) (hn : e ≠ .notified)
    (log : List Entry) : notifiedSince mark (e :: log) = notifiedSince mark log := by
  simp [notifiedSince, he, hn]

theorem notifiedSince_notified {mark : Entry → Bool} (he : mark .notified = false) (log : List Entry) :
    notifiedSince mark (.notified :: log) = notifiedSince mark log + 1 := by
  simp [notifiedSince, he]

/-- What is not on record does not matter. -/
theorem Logged.moved {k k' : Kqchan} {log : List Entry} (h : Logged k log) (hh : k'.handling = k.handling)
    (hu : k'.unread = k.unread) (hr : k'.requests = k.requests) : Logged k' log := by
  refine ⟨fun hl hn => ?_, h.sinceRequest.trans hu.symm, h.sinceStart.trans ?_⟩
  · rw [hh]
    exact h.unfinished hl hn
  · simp only [unanswered, hu, hr]

/-- A read that has not replied after a new entry is the one that starts with it, or had not replied before. -/
theorem Logged.unfinished_cons {k : Kqchan} {log later earlier : List Entry} {e : Entry} {r : Nat} (h : Logged k log)
    (hl : e :: log = later ++ .started r :: earlier) (hn : .replied r ∉ later) :
    (later = [] ∧ e = .started r) ∨ e ≠ .replied r ∧ r ∈ k.handling ∧ (e ≠ .notified → .notified ∉ later) := by
  rcases List.cons_eq_append_iff.1 hl with ⟨rfl, hl⟩ | ⟨newer, rfl, hold⟩
  · cases hl
    exact .inl ⟨rfl, rfl⟩
  · obtain ⟨hne, hmem⟩ : Entry.replied r ≠ e ∧ .replied r ∉ newer := by simpa using hn
    obtain ⟨h₁, h₂⟩ := h.unfinished hold hmem
    exact .inr ⟨hne.symm, h₂, fun hne => by simp [h₁, hne.symm]⟩

theorem logged_step {k k' : Kqchan} {l : KqchanLabel} {log : List Entry} (h : Moves k l k') (hk : k.Disciplined)
    (hi : Logged k log) : Logged k' (record k l k' log) := by
  have hk' := disciplined_step h hk
  cases h with
  | held | defers | sends | sendDeferred | undefer => exact hi.moved rfl rfl rfl
  | pushReply => exact hi.moved rfl (by simp [unread]) rfl
  | transmit hm => exact hi.moved rfl (unread_transmit hm) rfl
  | receiveNotification hw => exact hi.moved rfl (unread_receive hw) rfl
  | receiveReply hw => exact hi.moved rfl (by simp [unread, hw]) rfl
  | @push n hn =>
    have hunread : unread { k with pushing := n, outbox := k.outbox ++ [.notification] } = k.unread + 1 := by
      simp only [unread, List.count_append, List.count_singleton_self]
      omega
    refine ⟨fun {later r earlier} hl hr => ?_, ?_, ?_⟩
    · -- a read that has not replied defers notifications, so that none is about to be pushed
      obtain ⟨-, hmem, -⟩ := (hi.unfinished_cons hl hr).resolve_left nofun
      have hlen := List.length_pos_of_mem hmem
      have hd : k.deferNotification = true := Bool.of_not_eq_false fun hd => by
        have := hk.reading
        simp only [hd, Bool.toNat_false] at this
        omega
      have := (hk.quiet hd).1
      omega
    · exact (notifiedSince_notified rfl log).trans (by rw [hi.sinceRequest, hunread])
    · refine (notifiedSince_notified rfl log).trans ?_
      rw [hi.sinceStart]
      simp only [unanswered, hunread]
      omega
  | read hn =>
    refine ⟨fun {later r earlier} hl hr => ?_, ?_, ?_⟩
    · rcases hi.unfinished_cons hl hr with ⟨rfl, he⟩ | ⟨-, hmem, hlater⟩
      · cases he
        exact ⟨nofun, List.mem_cons_self⟩
      · exact ⟨hlater nofun, List.mem_cons_of_mem _ hmem⟩
    · exact (notifiedSince_other (.started _) rfl nofun log).trans hi.sinceRequest
    · exact (notifiedSince_mark rfl log).trans (hk'.quiet rfl).2.symm
  | @reply r₀ hr₀ =>
    have hunread : unread { k with outbox := k.outbox ++ [.reply] } = k.unread := by simp [unread]
    refine ⟨fun {later r earlier} hl hr => ?_, ?_, ?_⟩
    · obtain ⟨hne, hmem, hlater⟩ := (hi.unfinished_cons hl hr).resolve_left nofun
      have hne : r ≠ r₀ := fun h => hne (by rw [h])
      exact ⟨hlater nofun, (List.mem_erase_of_ne hne).2 hmem⟩
    · exact (notifiedSince_other (.replied _) rfl nofun log).trans (hi.sinceRequest.trans hunread.symm)
    · refine (notifiedSince_other (.replied _) rfl nofun log).trans (hi.sinceStart.trans ?_)
      exact congrArg (· + k.requests) hunread.symm
  | request hn =>
    refine ⟨fun {later r earlier} hl hr => ?_, ?_, ?_⟩
    · obtain ⟨-, hmem, hlater⟩ := (hi.unfinished_cons hl hr).resolve_left nofun
      exact ⟨hlater nofun, hmem⟩
    · -- the notification the peer asks about was the only one
      refine (notifiedSince_mark rfl log).trans ?_
      have honce := hk.once
      have hbound := Bool.toNat_le (!k.canSendNotification)
      simp only [outstanding, unanswered, unread] at honce ⊢
      omega
    · refine (notifiedSince_other .requested rfl nofun log).trans (hi.sinceStart.trans ?_)
      simp only [unanswered, unread]
      omega

def Begins (p : Kqchan × List Entry) : Prop := p.1.Init ∧ p.2 = []

theorem logged {p : Kqchan × List Entry}
    (h : Reach (track step record) (fun _ _ => True) Begins p) : Logged p.1 p.2 := by
  refine h.inv_with (fun p => p.1.Disciplined) (fun p => Logged p.1 p.2)
    (fun p hp => disciplined (hp.untracked (fun _ _ _ => trivial) fun _ hi => hi.1)) ?_ fun p l p' hk hi _ hst => ?_
  · rintro ⟨k, log⟩ ⟨rfl, rfl⟩
    exact ⟨fun hl => by simp at hl, rfl, rfl⟩
  · obtain ⟨hs, hlog⟩ := track_some hst
    rw [hlog]
    exact logged_step (step_moves hs) hk hi

theorem inOrder {p : Kqchan × List Entry}
    (h : Reach (track step record) (fun _ _ => True) Begins p) : InOrder p.2 :=
  (logged h).inOrder (disciplined (h.untracked (fun _ _ _ => trivial) fun _ hi => hi.1))

/-! ## Kinds of channels -/

section Driven

variable {C L : Type*}

/-- What the threads of a kind of channel do: given the channel and their own state, a label says which
section of the channel runs, if any, and where the threads are after it. -/
abbrev Threads (C L : Type*) := Kqchan → C → L → Option (Option KqchanLabel × C)

def driven (threads : Threads C L) (s : Kqchan × C) (l : L) : Option (Kqchan × C) :=
  (threads s.1 s.2 l).bind fun (label, c) => (label.elim (some s.1) s.1.step).map (·, c)

/-- The history of the channel, kept along the steps of the threads. -/
def drivenRecord (threads : Threads C L) (s : Kqchan × C) (l : L) (s' : Kqchan × C) (log : List Entry) : List Entry :=
  ((threads s.1 s.2 l).bind (·.1)).elim log fun l => record s.1 l s'.1 log

/-- A channel with its history. -/
def recorded (threads : Threads C L) : (Kqchan × C) × List Entry → L → Option ((Kqchan × C) × List Entry) :=
  track (driven threads) (drivenRecord threads)

/-- A channel with its history, at the beginning. -/
def Unused (init : Kqchan × C → Prop) (p : (Kqchan × C) × List Entry) : Prop := init p.1 ∧ p.2 = []

theorem driven_some {threads : Threads C L} {s s' : Kqchan × C} {l : L} (h : driven threads s l = some s') :
    ∃ label, threads s.1 s.2 l = some (label, s'.2) ∧
      ((label = none ∧ s'.1 = s.1) ∨ ∃ l', label = some l' ∧ s.1.step l' = some s'.1) := by
  obtain ⟨⟨label, c⟩, ht, h⟩ := Option.bind_eq_some_iff.1 h
  obtain ⟨k, hk, rfl⟩ := Option.map_eq_some_iff.1 h
  refine ⟨label, ht, ?_⟩
  cases label with
  | none => cases hk; exact .inl ⟨rfl, rfl⟩
  | some l' => exact .inr ⟨l', rfl, hk⟩

theorem driven_reach {threads : Threads C L} {init : Kqchan × C → Prop} {G : Kqchan × C → L → Prop}
    (h0 : ∀ s, init s → Init s.1) {s : Kqchan × C} (h : Reach (driven threads) G init s) :
    Reach step (fun _ _ => True) Init s.1 := by
  refine h.view Prod.fst h0 fun s l s' _ hst => ?_
  obtain ⟨-, -, ⟨-, hs⟩ | ⟨l', -, hs⟩⟩ := driven_some hst
  · exact .inl hs
  · exact .inr ⟨l', trivial, hs⟩

theorem driven_logged {threads : Threads C L} {init : Kqchan × C → Prop} {G : (Kqchan × C) × List Entry → L → Prop}
    (h0 : ∀ s, init s → Init s.1) {p : (Kqchan × C) × List Entry}
    (h : Reach (recorded threads) G (Unused init) p) :
    Reach (track step record) (fun _ _ => True) Begins (p.1.1, p.2) := by
  refine h.view (fun p => (p.1.1, p.2)) ?_ fun p l p' _ hst => ?_
  · exact fun p hp => ⟨h0 _ hp.1, hp.2⟩
  obtain ⟨hs, hlog⟩ := track_some hst
  obtain ⟨label, ht, ⟨rfl, hk⟩ | ⟨l', rfl, hk⟩⟩ := driven_some hs
  · exact .inl (by simp [hlog, drivenRecord, ht, hk])
  · exact .inr ⟨l', trivial, by simp [track, hk, hlog, drivenRecord, ht]⟩

end Driven

end Kqchan

end DarlingServer
