import DarlingServer.Lib.Layout
import DarlingServer.Lib.Loop
/-!
# Draining a channel's socket

When the socket of a kqueue channel becomes readable, the handler takes everything
off it with `receiveMany` and then processes what came. Both loops end on `EAGAIN`
alone. The peer acts between the `recvmmsg` calls, and once it has closed its end
and nothing is queued there is no `EAGAIN` any more: every call comes back with a
full batch of empty messages. So the handler ends exactly if the first call that
finds nothing queued finds the peer's end open (`findsOpen`).
-/

namespace DarlingServer.Drain

open Layout Loop

/-! ## The socket -/

abbrev Packet := List UInt8

inductive PeerAct where
  | send (message : Packet)
  | close
  deriving DecidableEq

structure Socket where
  queue : List Packet
  peerOpen : Bool
  deriving DecidableEq

/-- Nothing can be sent from an end that is closed. -/
def Socket.act (s : Socket) : PeerAct → Socket
  | .send message => if s.peerOpen then { s with queue := s.queue ++ [message] } else s
  | .close => { s with peerOpen := false }

def Socket.acts (s : Socket) (acts : List PeerAct) : Socket := acts.foldl Socket.act s

inductive Errno where
  | eagain
  | eintr
  | other (code : Nat)
  deriving DecidableEq

inductive Recv where
  | received (messages : List Packet)
  | failed (errno : Errno)

/-- How many messages `receiveMany` asks for at a time. -/
def batch : Nat := 16

/-- `recvmmsg` with `MSG_DONTWAIT`. The end of the stream shows as an empty message,
as often as one asks. -/
def Socket.recvmmsg (s : Socket) : Recv × Socket :=
  match s.queue with
  | [] => if s.peerOpen then (.failed .eagain, s) else (.received (List.replicate batch []), s)
  | _ :: _ => (.received (s.queue.take batch), { s with queue := s.queue.drop batch })

/-! ## The handler -/

/-- A channel's socket and inbox. The script is what the peer does before each of
the `recvmmsg` calls to come. -/
structure Channel where
  socket : Socket
  script : List (List PeerAct)
  inbox : List Packet
  deriving DecidableEq

/-- The socket at the next `recvmmsg`. -/
def Channel.ready (c : Channel) : Socket := c.socket.acts (c.script.headD [])

/-- Once round the loop of `receiveMany`; the flag it leaves with is `canReadMore`. -/
def receiveTurn (c : Channel) : Turn Channel (Except Errno Bool × Channel) :=
  match c.ready.recvmmsg with
  | (.failed .eagain, s) => .leave (.ok false, ⟨s, c.script.tail, c.inbox⟩)
  | (.failed .eintr, s) => .again ⟨s, c.script.tail, c.inbox⟩
  | (.failed errno, s) => .leave (.error errno, ⟨s, c.script.tail, c.inbox⟩)
  | (.received messages, s) => .again ⟨s, c.script.tail, c.inbox ++ messages⟩

def receiveMany (turns : Nat) (c : Channel) : Option (Except Errno Bool × Channel) :=
  run (fun c => some (receiveTurn c)) turns c

/-- `while (receiveMany(fd));` -/
def drain (turns : Nat) (c : Channel) : Option (Except Errno Unit × Channel) :=
  run (fun c => (receiveMany turns c).map fun
    | (.ok true, c') => .again c'
    | (.ok false, c') => .leave (.ok (), c')
    | (.error errno, c') => .leave (.error errno, c')) turns c

/-- `dserver_kqchan_callhdr_t`: number, pid and tid. -/
def callhdr : List Member := [⟨4, 4⟩, ⟨4, 4⟩, ⟨4, 4⟩]

/-- `dserver_kqchan_msgnum`, without the invalid one. -/
inductive Msgnum where
  | notification
  | machPortModify
  | machPortRead
  | procModify
  | procRead
  deriving DecidableEq

def Msgnum.ofNumber : Nat → Option Msgnum
  | 1 => some .notification
  | 2 => some .machPortModify
  | 3 => some .machPortRead
  | 4 => some .procModify
  | 5 => some .procRead
  | _ => none

/-- A kind of message that a channel takes: its structure, and the text of the
exception for one that is cut short. -/
structure CallKind where
  number : Msgnum
  members : List Member
  tooSmall : String

/-- The two kinds that each sort of channel takes. -/
structure Calls where
  modify : CallKind
  read : CallKind

def machPortCalls : Calls where
  modify := ⟨.machPortModify, [asMember callhdr, ⟨8, 8⟩, ⟨8, 8⟩, ⟨8, 8⟩],
    "Message buffer was too small for dserver_kqchan_msgnum_mach_port_modify"⟩
  read := ⟨.machPortRead, [asMember callhdr, ⟨8, 8⟩, ⟨8, 8⟩],
    "Message buffer was too small for dserver_kqchan_call_mach_port_read"⟩

def procCalls : Calls where
  modify := ⟨.procModify, [asMember callhdr, ⟨4, 4⟩],
    "Message buffer was too small for dserver_kqchan_call_proc_modify_"⟩
  read := ⟨.procRead, [asMember callhdr],
    "Message buffer was too small for dserver_kqchan_call_proc_read"⟩

/-- What the handler hands on to `_modify` and `_read`. -/
inductive Request where
  | modify (message : Packet)
  | read (message : Packet)
  deriving DecidableEq

inductive Exception where
  | systemError (errno : Errno)
  | invalidArgument (what : String)
  deriving DecidableEq

def processMessage (calls : Calls) (message : Packet) : Except Exception Request :=
  if message.length < Layout.size callhdr then
    .error (.invalidArgument "Message buffer was too small for kqchan call header")
  else
    let number := Msgnum.ofNumber (littleEndian (message.take 4))
    if number = some calls.modify.number then
      if message.length < Layout.size calls.modify.members then
        .error (.invalidArgument calls.modify.tooSmall)
      else .ok (.modify message)
    else if number = some calls.read.number then
      if message.length < Layout.size calls.read.members then
        .error (.invalidArgument calls.read.tooSmall)
      else .ok (.read message)
    else .error (.invalidArgument "Unknown/invalid kqchan msgnum")

structure Processed where
  handled : List Request := []
  /-- Still in the inbox. -/
  left : List Packet := []
  exception : Option Exception := none
  deriving DecidableEq

/-- `_processMessages`; an exception leaves the messages after it where they are. -/
def processMessages (calls : Calls) : List Packet → Processed
  | [] => {}
  | message :: rest =>
    match processMessage calls message with
    | .error e => { left := rest, exception := some e }
    | .ok request =>
      let p := processMessages calls rest
      { p with handled := request :: p.handled }

/-- What a readable event comes to: the inbox after the drain, and what was made of it. -/
structure Outcome where
  queued : List Packet
  processed : Processed
  channel : Channel
  deriving DecidableEq

def handleReadable (calls : Calls) (turns : Nat) (c : Channel) : Option Outcome :=
  (drain turns c).map fun
    | (.error errno, c') => ⟨c'.inbox, { left := c'.inbox, exception := some (.systemError errno) }, c'⟩
    | (.ok (), c') =>
      let p := processMessages calls c'.inbox
      ⟨c'.inbox, p, { c' with inbox := p.left }⟩

inductive Handled where
  /-- The monitor is removed and the channel unregistered. -/
  | hungUp
  | processed (out : Outcome)
  | nothing
  deriving DecidableEq

/-- The monitor's callback, without what it does about sending. -/
def onEvent (calls : Calls) (turns : Nat) (hangUp readable : Bool) (c : Channel) : Option Handled :=
  if hangUp then some .hungUp
  else if readable then (handleReadable calls turns c).map .processed
  else some .nothing

/-! ## What the peer sent -/

/-- The messages sent by an end that is open or closed at first. -/
def sent : Bool → List PeerAct → List Packet
  | false, _ => []
  | true, [] => []
  | true, .send message :: acts => message :: sent true acts
  | true, .close :: _ => []

@[simp] theorem sent_closed (acts : List PeerAct) : sent false acts = [] := by
  cases acts <;> rfl

theorem length_sent_le (o : Bool) (acts : List PeerAct) : (sent o acts).length ≤ acts.length := by
  fun_induction sent o acts with
  | case1 => exact Nat.zero_le _
  | case2 => exact Nat.le_refl _
  | case3 message acts ih => exact Nat.succ_le_succ ih
  | case4 => exact Nat.zero_le _

theorem acts_closed {s : Socket} (h : s.peerOpen = false) (acts : List PeerAct) : s.acts acts = s := by
  induction acts with
  | nil => rfl
  | cons a acts ih =>
    have ha : s.act a = s := by
      cases a with
      | send message => simp [Socket.act, h]
      | close => simp [Socket.act, ← h]
    simpa only [Socket.acts, List.foldl_cons, ha] using ih

theorem acts_queue (s : Socket) (acts : List PeerAct) :
    (s.acts acts).queue = s.queue ++ sent s.peerOpen acts := by
  induction acts generalizing s with
  | nil => cases ho : s.peerOpen <;> simp [Socket.acts, sent]
  | cons a acts ih =>
    cases ho : s.peerOpen with
    | false => rw [acts_closed ho, sent_closed, List.append_nil]
    | true =>
      have hstep := ih (s.act a)
      cases a with
      | send message => simpa [Socket.acts, Socket.act, ho, sent] using hstep
      | close => simpa [Socket.acts, Socket.act, ho, sent] using hstep

theorem sent_append (s : Socket) (acts more : List PeerAct) :
    sent s.peerOpen (acts ++ more) = sent s.peerOpen acts ++ sent (s.acts acts).peerOpen more := by
  induction acts generalizing s with
  | nil => cases ho : s.peerOpen <;> simp [Socket.acts, sent, ho]
  | cons a acts ih =>
    cases ho : s.peerOpen with
    | false => simp [acts_closed ho, ho]
    | true =>
      have hstep := ih (s.act a)
      cases a with
      | send message => simpa [Socket.acts, Socket.act, ho, sent] using hstep
      | close =>
        have hclosed : s.acts (.close :: acts) = s.act .close := acts_closed rfl acts
        rw [hclosed]
        simp [sent, Socket.act]

/-! ## When the drain ends -/

/-- The first `recvmmsg` that finds nothing queued finds the peer's end open. When
the script is over the peer stays as it is. -/
def findsOpen : Socket → List (List PeerAct) → Bool
  | s, [] => s.peerOpen
  | s, acts :: rest =>
    let s' := s.acts acts
    if s'.queue = [] then s'.peerOpen else findsOpen { s' with queue := s'.queue.drop batch } rest

theorem findsOpen_closed {s : Socket} (h : s.peerOpen = false) (script : List (List PeerAct)) :
    findsOpen s script = false := by
  induction script generalizing s with
  | nil => exact h
  | cons acts rest ih =>
    rw [findsOpen, acts_closed h]
    split
    · exact h
    · exact ih h

/-- `findsOpen` by way of one call, also when the script is over. -/
theorem findsOpen_ready (c : Channel) :
    findsOpen c.socket c.script = if c.ready.queue = [] then c.ready.peerOpen
      else findsOpen { c.ready with queue := c.ready.queue.drop batch } c.script.tail := by
  obtain ⟨s, script, inbox⟩ := c
  cases script with
  | nil => simp [findsOpen, Channel.ready, Socket.acts]
  | cons acts rest => rfl

theorem receiveTurn_empty_open {c : Channel} (hq : c.ready.queue = []) (ho : c.ready.peerOpen = true) :
    receiveTurn c = .leave (.ok false, ⟨c.ready, c.script.tail, c.inbox⟩) := by
  simp [receiveTurn, Socket.recvmmsg, hq, ho]

theorem receiveTurn_empty_closed {c : Channel} (hq : c.ready.queue = []) (ho : c.ready.peerOpen = false) :
    receiveTurn c = .again ⟨c.ready, c.script.tail, c.inbox ++ List.replicate batch []⟩ := by
  simp [receiveTurn, Socket.recvmmsg, hq, ho]

theorem receiveTurn_queued {c : Channel} (hq : c.ready.queue ≠ []) :
    receiveTurn c = .again ⟨{ c.ready with queue := c.ready.queue.drop batch }, c.script.tail,
      c.inbox ++ c.ready.queue.take batch⟩ := by
  obtain ⟨m, ms, hm⟩ := List.exists_cons_of_ne_nil hq
  simp [receiveTurn, Socket.recvmmsg, hm]

/-- `c'` is `c` after some rounds of the script, with all that was queued or sent by
then in the inbox. -/
def Drained (c c' : Channel) : Prop :=
  ∃ rounds, c'.script = c.script.drop rounds ∧ c'.socket.queue = [] ∧
    c'.inbox = c.inbox ++ c.socket.queue ++ sent c.socket.peerOpen (c.script.take rounds).flatten

theorem flatten_take_succ (script : List (List PeerAct)) (rounds : Nat) :
    (script.take (rounds + 1)).flatten = script.headD [] ++ (script.tail.take rounds).flatten := by
  cases script <;> simp

theorem drained_empty {c : Channel} (hq : c.ready.queue = []) :
    Drained c ⟨c.ready, c.script.tail, c.inbox⟩ := by
  refine ⟨1, (List.drop_one).symm, hq, ?_⟩
  have hsent := acts_queue c.socket (c.script.headD [])
  rw [show c.socket.acts (c.script.headD []) = c.ready from rfl, hq] at hsent
  rw [List.append_assoc, flatten_take_succ, List.take_zero, List.flatten_nil, List.append_nil, ← hsent,
    List.append_nil]

/-- A batch off the queue is only moved to the inbox. -/
theorem Drained.batch {c c' : Channel}
    (h : Drained ⟨{ c.ready with queue := c.ready.queue.drop batch }, c.script.tail,
      c.inbox ++ c.ready.queue.take batch⟩ c') : Drained c c' := by
  obtain ⟨rounds, hscript, hempty, hinbox⟩ := h
  refine ⟨rounds + 1, ?_, hempty, ?_⟩
  · rw [hscript, ← List.drop_one, List.drop_drop, Nat.add_comm]
  · have hqueue : c.ready.queue = c.socket.queue ++ sent c.socket.peerOpen (c.script.headD []) :=
      acts_queue _ _
    dsimp only at hinbox
    rw [hinbox, List.append_assoc c.inbox, List.take_append_drop, flatten_take_succ, sent_append, hqueue]
    simp only [List.append_assoc]
    rfl

/-- What is queued, and the acts and the rounds that the script has left. -/
def remaining (c : Channel) : Nat := c.socket.queue.length + c.script.flatten.length + c.script.length

theorem remaining_batch {c : Channel} (hq : c.ready.queue ≠ []) (inbox : List Packet) :
    remaining ⟨{ c.ready with queue := c.ready.queue.drop batch }, c.script.tail, inbox⟩ < remaining c := by
  have hpos := List.length_pos_iff.mpr hq
  have hqueue : c.ready.queue.length ≤ c.socket.queue.length + (c.script.headD []).length := by
    rw [Channel.ready, acts_queue, List.length_append]
    exact Nat.add_le_add_left (length_sent_le _ _) _
  have hscript : (c.script.headD []).length + c.script.tail.flatten.length = c.script.flatten.length := by
    cases c.script with
    | nil => rfl
    | cons acts rest => rw [List.headD_cons, List.tail_cons, List.flatten_cons, List.length_append]
  simp only [remaining, List.length_drop, List.length_tail, Drain.batch]
  omega

theorem receiveMany_leaves {c : Channel} (h : findsOpen c.socket c.script = true) :
    ∃ c', Leaves (fun c => some (receiveTurn c)) c (.ok false, c') ∧ Drained c c' := by
  obtain ⟨_, hl, c', rfl, hd⟩ := leaves_of_measure (fun c => some (receiveTurn c)) remaining
    (fun c => findsOpen c.socket c.script = true) (fun c r => ∃ c', r = (.ok false, c') ∧ Drained c c')
    (fun c hopen => by
      rw [findsOpen_ready] at hopen
      by_cases hq : c.ready.queue = []
      · rw [if_pos hq] at hopen
        exact .inl ⟨_, congrArg some (receiveTurn_empty_open hq hopen), _, rfl, drained_empty hq⟩
      · rw [if_neg hq] at hopen
        refine .inr ⟨_, congrArg some (receiveTurn_queued hq), hopen, remaining_batch hq _, ?_⟩
        rintro _ ⟨c', rfl, hd⟩
        exact ⟨c', rfl, hd.batch⟩) c h
  exact ⟨c', hl, hd⟩

/-- Once a call finds the peer gone and nothing queued, so does every later one. -/
theorem receiveMany_stuck {c : Channel} (h : findsOpen c.socket c.script = false) (turns : Nat) :
    receiveMany turns c = none := by
  refine run_eq_none (fun c => findsOpen c.socket c.script = false) (fun c hclosed => ?_) turns c h
  rw [findsOpen_ready] at hclosed
  by_cases hq : c.ready.queue = []
  · rw [if_pos hq] at hclosed
    exact ⟨_, congrArg some (receiveTurn_empty_closed hq hclosed), findsOpen_closed hclosed _⟩
  · rw [if_neg hq] at hclosed
    exact ⟨_, congrArg some (receiveTurn_queued hq), hclosed⟩

theorem drain_stuck {c : Channel} (h : findsOpen c.socket c.script = false) (turns : Nat) :
    drain turns c = none := by
  cases turns with
  | zero => rfl
  | succ turns => simp only [drain, run, receiveMany_stuck h, Option.map_none]

/-- `receiveMany` never asks to be called again, so the outer loop goes round once. -/
theorem drain_leaves {c : Channel} (h : findsOpen c.socket c.script = true) :
    ∃ c', (∃ enough, ∀ turns ≥ enough, drain turns c = some (.ok (), c')) ∧ Drained c c' := by
  obtain ⟨c', ⟨enough, hl⟩, hd⟩ := receiveMany_leaves h
  refine ⟨c', ⟨enough + 1, fun turns hle => ?_⟩, hd⟩
  obtain ⟨n, rfl⟩ := Nat.exists_eq_add_of_le' hle
  have hmany : receiveMany (n + (enough + 1)) c = some (.ok false, c') := hl _ (by omega)
  rw [← Nat.add_assoc] at hmany ⊢
  exact run_leave (by rw [hmany]; rfl) _

theorem onEvent_stuck (calls : Calls) {c : Channel} (h : findsOpen c.socket c.script = false) (turns : Nat) :
    onEvent calls turns false true c = none := by
  show (handleReadable calls turns c).map Handled.processed = none
  rw [handleReadable, drain_stuck h turns]
  rfl

theorem processMessages_ok {calls : Calls} {messages : List Packet}
    (h : ∀ m ∈ messages, (processMessage calls m).isOk) : (processMessages calls messages).exception = none := by
  induction messages with
  | nil => rfl
  | cons m rest ih =>
    obtain ⟨hm, hrest⟩ := List.forall_mem_cons.mp h
    cases hp : processMessage calls m with
    | error e => rw [hp] at hm; cases hm
    | ok request => simpa only [processMessages, hp] using ih hrest

/-! ## The handler ends -/

/-- A `proc_read` message of a thread. -/
def procRead : Packet := [5, 0, 0, 0, 1, 0, 0, 0, 1, 0, 0, 0]

end DarlingServer.Drain
