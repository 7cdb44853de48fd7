import DarlingServer.ProcessKqchan
/-!
# Mach port channels

`Kqchan::MachPort` asks the duct-taped channel whether there is something to read.
`_read` and `_modify` start on the main loop and are completed on kernel
microthreads, any number of them at a time. What a `_read` for an unknown thread
throws ends the server, so that no step follows.

The order of messages is that of the protocol, for this kind of channel and for
process channels.
-/

namespace DarlingServer

open Runs Kqchan

structure MachPortKqchan where
  setup : ProcessKqchan.SetupStage := .begun
  /-- What `dtape_kqchan_mach_port_has_events` returns. -/
  hasEvents : Bool := false
  /-- The microthreads of `_modify` that have yet to push their reply. -/
  modifying : Nat := 0
  scheduled : Nat := 0
  checking : Nat := 0

inductive MachPortKqchanLabel where
  /-- Messages come to the port, or are received from it. -/
  | port (hasEvents : Bool)
  | notify
  | connect
  | setupCheck
  | push
  | read
  | readReply (r : Nat)
  | readRelease (r : Nat)
  | modify
  | modifyReply
  | transmit
  | check
  | checkNotify
  | receive
  | request

namespace MachPortKqchan

def threads (k : Kqchan) (c : MachPortKqchan) : MachPortKqchanLabel → Option (Option KqchanLabel × MachPortKqchan)
  | .port hasEvents => some (none, { c with hasEvents })
  -- the duct-taped channel calls back from its creation on
  | .notify => some (some .sendNotification, c)
  | .connect => if c.setup = .begun then some (none, { c with setup := .connected }) else none
  | .setupCheck =>
    if c.setup = .connected then
      some (if c.hasEvents then some .sendNotification else none, { c with setup := .finished })
    else none
  | .push => some (some .push, c)
  | .read => some (some .read, c)
  | .readReply r => some (some (.reply r), c)
  | .readRelease r => some (some (.sendDeferredNotification r), c)
  | .modify => some (none, { c with modifying := c.modifying + 1 })
  | .modifyReply =>
    if c.modifying = 0 then none else some (some .pushReply, { c with modifying := c.modifying - 1 })
  | .transmit =>
    if c.setup = .begun then none else some (some .transmit, { c with scheduled := c.scheduled + k.callbacks })
  | .check =>
    if c.scheduled = 0 then none
    else some (none, { c with scheduled := c.scheduled - 1, checking := c.checking + c.hasEvents.toNat })
  | .checkNotify =>
    if c.checking = 0 then none else some (some .sendNotification, { c with checking := c.checking - 1 })
  | .receive => some (some .receive, c)
  | .request => some (some .request, c)

def Init (s : Kqchan × MachPortKqchan) : Prop := s.1.Init ∧ s.2 = {}

end MachPortKqchan

namespace Kqchan

/-- In every run of a channel of either kind its messages are in order. -/
theorem messages_in_order {κ : Type*} :
    (∀ p, Reach (recorded MachPortKqchan.threads) (fun _ _ => True) (Unused MachPortKqchan.Init) p → InOrder p.2) ∧
    ∀ p : (Kqchan × ProcessKqchan κ) × List Entry,
      Reach (recorded ProcessKqchan.threads) (fun _ _ => True) (Unused ProcessKqchan.Init) p → InOrder p.2 :=
  ⟨fun _ h => inOrder (driven_logged (fun _ hi => hi.1) h), fun _ h => inOrder (driven_logged (fun _ hi => hi.1) h)⟩

/-- A message comes to the port while the peer reads. -/
def portRun : List MachPortKqchanLabel :=
  [.connect, .setupCheck, .notify, .push, .transmit, .receive, .request, .read, .notify, .readReply 0, .readRelease 0,
    .push]

/-- In both runs the notification that comes while the read goes on is pushed after the reply. -/
theorem messages_in_order_deferred :
    (∃ p, exec (recorded MachPortKqchan.threads) (fun _ _ => true) (({}, {}), []) portRun = some p ∧
      p.2 = [.notified, .replied 0, .started 0, .requested, .notified] ∧ InOrder p.2) ∧
    ∃ p, exec (recorded ProcessKqchan.threads) (fun _ _ => true) (ProcessKqchan.execAndExit, [])
        (ProcessKqchan.busyRun ++ [.readReply, .readRelease, .readPush]) = some p ∧
      p.2 = [.notified, .replied 0, .started 0, .requested, .notified] ∧ InOrder p.2 := by
  constructor
  · have hrun : (exec (recorded MachPortKqchan.threads) (fun _ _ => true) (({}, {}), []) portRun).map (·.2) =
        some [.notified, .replied 0, .started 0, .requested, .notified] := rfl
    obtain ⟨p, hp, hlog⟩ := Option.map_eq_some_iff.1 hrun
    have hinit : Reach (recorded MachPortKqchan.threads) (fun _ _ => True) (Unused MachPortKqchan.Init)
        (({}, {}), []) := .init ⟨⟨rfl, rfl⟩, rfl⟩
    exact ⟨p, hp, hlog, (@messages_in_order Unit).1 p (exec_reach (fun _ _ _ => trivial) hp hinit)⟩
  · have hrun : (exec (recorded ProcessKqchan.threads) (fun _ _ => true) (ProcessKqchan.execAndExit, [])
        (ProcessKqchan.busyRun ++ [ProcessKqchanLabel.readReply, .readRelease, .readPush])).map (·.2) =
        some [.notified, .replied 0, .started 0, .requested, .notified] := rfl
    obtain ⟨p, hp, hlog⟩ := Option.map_eq_some_iff.1 hrun
    have hinit : Reach (recorded ProcessKqchan.threads) (fun _ _ => True) (Unused ProcessKqchan.Init)
        (ProcessKqchan.execAndExit, []) := .init ⟨⟨rfl, _, rfl⟩, rfl⟩
    exact ⟨p, hp, hlog, messages_in_order.2 p (exec_reach (fun _ _ _ => trivial) hp hinit)⟩

end Kqchan

end DarlingServer
