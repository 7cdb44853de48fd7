import DarlingServer.Wire
import DarlingServer.Nesting
import DarlingServer.Registry
/-!
# Datagrams

`callFromMessage` takes a datagram from the listener socket to a call pending on a
thread, making the process and the thread on the way if they are new. It runs on
the main loop, which catches nothing, and what it changed before it threw stays
changed; so a `Handled` result has the server next to the exception. A field read
beyond the bytes received has whatever value stands in the buffer there, and the
read is noted.
-/

namespace DarlingServer

open Layout

/-! ## The server as a datagram finds it -/

/-- A socket address, by name; 0 is the empty one. -/
abbrev Address := Nat

structure Datagram where
  data : List UInt8
  /-- The descriptors that came along, in order. -/
  descriptors : List Int
  /-- The sender, as the system reports it. -/
  pid : Int
  address : Address
  deriving DecidableEq, Repr

/-- A process, with what never changes about it; `handle` tells objects apart. -/
structure ProcessRef where
  handle : Nat
  id : Int
  nsid : Int
  architecture : Nat
  deriving DecidableEq, Repr

structure ThreadRef where
  handle : Nat
  id : Int
  nsid : Int
  process : ProcessRef
  /-- Made by the kernel thread constructor, which makes no semaphores. -/
  kernel : Bool
  deriving DecidableEq, Repr

/-- What changes about a thread. -/
structure ThreadState where
  address : Address
  nested : Nested
  s2cReply : Option Datagram := none
  s2cReplySemaphore : Nat := 0

structure Server where
  processes : Registry ProcessRef Int Int
  threads : Registry ThreadRef Int Int := {}
  state : ThreadRef → ThreadState
  /-- How many objects were made so far. -/
  made : Nat
  nextCall : Nat := 0

def processKeys : Keys ProcessRef Int Int := ⟨ProcessRef.id, ProcessRef.nsid⟩

def threadKeys : Keys ThreadRef Int Int := ⟨ThreadRef.id, ThreadRef.nsid⟩

/-- How the constructor of an entry ends: a `std::system_error` is caught and
leaves a null pointer, anything else goes on. -/
inductive Made (α : Type) where
  | made (entry : α)
  | failed
  | threw (what : String)

/-- What the system answers while a datagram is handled. -/
structure World where
  /-- The buffer from the end of the datagram on. -/
  beyond : Nat → UInt8
  /-- The `Process` constructor, for an ID and a lifetime pipe. -/
  makeProcess : Int → Int → Made Unit
  /-- Whether the process' descriptor can be added to the epoll context. -/
  monitorProcess : Int → Int → Bool
  /-- The `Thread` constructor, for a namespace ID and a stack hint: the ID it finds. -/
  makeThread : ProcessRef → Int → Nat → Made Int
  /-- Whether there is memory for a message of that size. -/
  allocates : Nat → Bool
  /-- `readMemory`, for an address and a size. -/
  readMemory : ProcessRef → Nat → Nat → Option Message

inductive Abort where
  | threw (what : String)
  | thread (f : Fault)
  /-- `dtape_semaphore_up` of a thread without semaphores. -/
  | nullSemaphore
  /-- A null thread is used. -/
  | nullThread
  deriving DecidableEq, Repr

/-- What `callFromMessage` did, up to its return or its exception. -/
structure Handled (α : Type) where
  server : Server
  /-- A field was read beyond the bytes received. -/
  overran : Bool
  result : Except Abort α

namespace Handled

variable {α β : Type}

def ok (s : Server) (a : α) : Handled α := ⟨s, false, .ok a⟩

def abort (s : Server) (e : Abort) : Handled α := ⟨s, false, .error e⟩

def bind (h : Handled α) (f : Server → α → Handled β) : Handled β :=
  match h.result with
  | .error e => ⟨h.server, h.overran, .error e⟩
  | .ok a => { f h.server a with overran := h.overran || (f h.server a).overran }

/-- With fields of the datagram read first. -/
def reading (d : Datagram) (fields : List Field) (h : Handled α) : Handled α :=
  { h with overran := fields.any (fun f => d.data.length < f.stop) || h.overran }

section

variable (s : Server) (d : Datagram) (fields : List Field) (f : Server → α → Handled β)

@[simp]
theorem bind_ok (a : α) : (Handled.ok s a).bind f = f s a := rfl

@[simp]
theorem bind_abort (e : Abort) : (Handled.abort s e).bind f = .abort s e := rfl

@[simp]
theorem bind_reading (h : Handled α) : (Handled.reading d fields h).bind f = .reading d fields (h.bind f) := by
  obtain ⟨s, o, a | a⟩ := h
  · rfl
  · simp [Handled.reading, Handled.bind, Bool.or_assoc]

end

end Handled

/-! ## Reading a datagram -/

namespace Datagram

def read (w : World) (d : Datagram) (f : Field) : Nat :=
  littleEndian ((List.range f.size).map fun i => d.data.getD (f.offset + i) (w.beyond (f.offset + i)))

/-- `extractDescriptorAtIndex`, with the index a `size_t`. -/
def extractDescriptorAtIndex (d : Datagram) (index : Int) : Int :=
  if 0 ≤ index then d.descriptors.getD index.toNat (-1) else -1

end Datagram

def toInt32 (n : Nat) : Int := if n < 2 ^ 31 then n else n - 2 ^ 32

structure Header where
  number : Nat
  pid : Int
  tid : Int
  architecture : Nat
  deriving DecidableEq, Repr

def Datagram.header (w : World) (d : Datagram) : Header where
  number := d.read w ⟨0, 4⟩
  pid := toInt32 (d.read w ⟨4, 4⟩)
  tid := toInt32 (d.read w ⟨8, 4⟩)
  architecture := d.read w ⟨12, 4⟩

example : Layout.fields 0 callhdr = [⟨0, 4⟩, ⟨4, 4⟩, ⟨8, 4⟩, ⟨12, 4⟩] := rfl

/-- The two fields of a checkin that are read before its size is known. -/
def stackHint : Field := ⟨24, 8⟩
def lifetimeListenerPipe : Field := ⟨32, 4⟩

example : calls[checkinIndex]?.map CallSpec.fields = some [⟨16, 1⟩, stackHint, lifetimeListenerPipe] := rfl

def pushedReply : Field := ⟨16, 8⟩
def pushedReplySize : Field := ⟨24, 8⟩

example : Layout.fields 0 pushReplyMembers = [⟨0, 16⟩, pushedReply, pushedReplySize] := rfl

def Announced.isCheckin : Announced → Bool
  | .call _ index => index = checkinIndex
  | _ => false

/-! ## callFromMessage -/

/-- A call that waits for a worker. -/
structure Queued where
  thread : ThreadRef
  call : Call
  index : Nat
  body : List Nat
  deriving DecidableEq, Repr

inductive Received where
  /-- The process or the thread could not be made. -/
  | ignored
  /-- A reply to the server, stored. -/
  | stored
  | queued (q : Queued)
  /-- An unmanaged call, handed to `kernelAsync`. -/
  | async (call : Call)
  deriving DecidableEq, Repr

namespace Server

/-- The server when the main loop starts. -/
def boot : Server where
  processes := Registry.enter processKeys {} ⟨0, -1, 0, 2⟩
  state := fun _ => { address := 0, nested := { architecture := .x86_64 } }
  made := 1

variable (w : World) (s : Server) (d : Datagram)

def setState (t : ThreadRef) (st : ThreadState) : Server := { s with state := Function.update s.state t st }

def setAddress (t : ThreadRef) (address : Address) : Server := s.setState t { s.state t with address }

/-- The thread's server half. -/
def setThread (t : ThreadRef) (th : Thread) : Server :=
  s.setState t { s.state t with nested := { (s.state t).nested with th } }

/-- `Architecture` by its number on the wire. -/
def architecture : Nat → Architecture
  | 1 => .i386
  | 2 => .x86_64
  | _ => .other

/-- The lifetime pipe of a checkin, -1 otherwise. -/
def lifetimePipe (a : Announced) : Int :=
  if a.isCheckin then
    let index := toInt32 (d.read w lifetimeListenerPipe)
    if index ≠ -1 then d.extractDescriptorAtIndex index else -1
  else -1

def processFactory (a : Announced) : Handled (Option ProcessRef) :=
  let hdr := d.header w
  let pipe := lifetimePipe w d a
  .reading d (if a.isCheckin then [lifetimeListenerPipe] else [])
    (match w.makeProcess d.pid pipe with
    | .threw what => .abort s (.threw what)
    | .failed => .ok s none
    | .made _ =>
      -- the exception of `monitorProcess` is not caught
      if w.monitorProcess d.pid pipe then
        .ok { s with made := s.made + 1 } (some ⟨s.made, d.pid, hdr.pid, hdr.architecture⟩)
      else .abort s (.threw "Failed to add descriptor to epoll context"))

def registerProcess (a : Announced) : Handled (Option ProcessRef) :=
  match s.processes.nsmap (d.header w).pid with
  | some p => .ok s (some p)
  | none =>
    (processFactory w s d a).bind fun s entry =>
      let r := s.processes.registerIfAbsent processKeys (d.header w).pid entry
      .ok { s with processes := r.1 } r.2

/-- The state of a thread that was just made. -/
def freshState (address : Address) (p : ProcessRef) : ThreadState :=
  { address, nested := { architecture := architecture p.architecture } }

def threadFactory (a : Announced) (p : ProcessRef) : Handled (Option ThreadRef) :=
  let hdr := d.header w
  .reading d (if a.isCheckin then [stackHint] else [])
    (match w.makeThread p hdr.tid (if a.isCheckin then d.read w stackHint else 0) with
    | .threw what => .abort s (.threw what)
    | .failed => .ok s none
    | .made id =>
      let t : ThreadRef := ⟨s.made, id, hdr.tid, p, false⟩
      .ok { s.setState t (freshState d.address p) with made := s.made + 1 } (some t))

def registerThread (a : Announced) (p : ProcessRef) : Handled (Option ThreadRef) :=
  match s.threads.nsmap (d.header w).tid with
  | some t => .ok s (some t)
  | none =>
    (threadFactory w s d a p).bind fun s entry =>
      let r := s.threads.registerIfAbsent threadKeys (d.header w).tid entry
      .ok { s with threads := r.1 } r.2

/-- An S2C reply. -/
def storeS2CReply (t : ThreadRef) : Handled Received :=
  let st := s.state t
  if st.s2cReply.isSome then .abort s (.threw "Received S2C reply but thread already had one pending")
  else if t.kernel then .abort (s.setState t { st with s2cReply := some d }) .nullSemaphore
  else .ok (s.setState t { st with s2cReply := some d, s2cReplySemaphore := st.s2cReplySemaphore + 1 }) .stored

/-- A reply pushed back by the client. -/
def storePushedReply (p : ProcessRef) (t : ThreadRef) : Handled Received :=
  let size := d.read w pushedReplySize
  .reading d [pushedReply, pushedReplySize]
    (if w.allocates size = false then .abort s (.threw "std::bad_alloc")
    else if d.descriptors = [] then .abort s (.threw "Failed to extract reply-push synchronization pipe")
    else
      match w.readMemory p (d.read w pushedReply) size with
      | none => .abort s (.threw "Failed to read client-pushed reply body")
      | some replyToSave =>
        match (s.state t).nested.th.pushReply replyToSave with
        | .error f => .abort s (.thread f)
        | .ok th => .ok (s.setThread t th) .stored)

/-- The construction of the call, and its way to the thread. -/
def construct (thread : Option ThreadRef) (spec : CallSpec) (index : Nat) : Handled Received :=
  if d.data.length < spec.size then
    .abort s (.threw ("Message buffer was too small for dserver_call_" ++ spec.name ++ "_t"))
  else
    let call : Call := ⟨s.nextCall, spec.number index⟩
    let s := { s with nextCall := s.nextCall + 1 }
    .reading d spec.fields
      (match thread with
      | none => .ok s (.async call)
      | some t =>
        match (s.state t).nested.th.setPendingCall call with
        | .error f => .abort s (.thread f)
        | .ok th => .ok (s.setThread t th) (.queued ⟨t, call, index, spec.fields.map (d.read w)⟩))

def deliver (p : ProcessRef) (t : ThreadRef) : Announced → Handled Received
  | .s2c => storeS2CReply s d t
  | .pushReply => storePushedReply w s d p t
  | .call spec index => construct w s d (some t) spec index

/-- A managed datagram once its process is known: its thread, then what it brings. -/
def handleThread (a : Announced) (p : ProcessRef) : Handled Received :=
  (registerThread w s d a p).bind fun s t =>
    match t with
    | none => .ok s .ignored
    | some t =>
      let s := s.setAddress t d.address
      if p.id ≠ d.pid then
        .abort s (.threw "System-reported message PID != darlingserver-recorded PID")
      else deliver w s d p t a

def handleManaged (a : Announced) : Handled Received :=
  (registerProcess w s d a).bind fun s p =>
    match p with
    | none => .ok s .ignored
    | some p => handleThread w s d a p

def callFromMessage : Handled Received :=
  if d.data.length < Layout.size callhdr then
    .abort s (.threw "Message buffer was too small for call header")
  else
    .reading d (Layout.fields 0 callhdr)
      (match announced (d.header w).number with
      | none => .abort s (.threw "Invalid call number")
      | some a =>
        if (d.header w).number.testBit 31 then
          match a with
          | .call spec index => construct w s d none spec index
          | _ => .abort s .nullThread
        else handleManaged w s d a)

/-! ## The registrations -/

section

variable {w s d} {a : Announced} {p : ProcessRef}

theorem registerProcess_found (h : s.processes.nsmap (d.header w).pid = some p) :
    registerProcess w s d a = .ok s (some p) := by
  simp [registerProcess, h]

/-- With a new process the server has one object more, and the process is registered. -/
theorem registerProcess_absent (h : s.processes.nsmap (d.header w).pid = none) :
    registerProcess w s d a = .reading d (if a.isCheckin then [lifetimeListenerPipe] else [])
      (match w.makeProcess d.pid (lifetimePipe w d a) with
      | .threw what => .abort s (.threw what)
      | .failed => .ok s none
      | .made _ =>
        if w.monitorProcess d.pid (lifetimePipe w d a) then
          let p : ProcessRef := ⟨s.made, d.pid, (d.header w).pid, (d.header w).architecture⟩
          .ok { s with made := s.made + 1, processes := s.processes.enter processKeys p } (some p)
        else .abort s (.threw "Failed to add descriptor to epoll context")) := by
  simp only [registerProcess, h, processFactory, Handled.bind_reading]
  congr 1
  cases w.makeProcess d.pid (lifetimePipe w d a) with
  | threw what => rfl
  | failed => simp [Registry.registerIfAbsent, h]
  | made _ => cases w.monitorProcess d.pid (lifetimePipe w d a) <;> simp [Registry.registerIfAbsent, h]

theorem registerThread_found {t : ThreadRef} (h : s.threads.nsmap (d.header w).tid = some t) :
    registerThread w s d a p = .ok s (some t) := by
  simp [registerThread, h]

theorem registerThread_absent (h : s.threads.nsmap (d.header w).tid = none) :
    registerThread w s d a p = .reading d (if a.isCheckin then [stackHint] else [])
      (match w.makeThread p (d.header w).tid (if a.isCheckin then d.read w stackHint else 0) with
      | .threw what => .abort s (.threw what)
      | .failed => .ok s none
      | .made id =>
        let t : ThreadRef := ⟨s.made, id, (d.header w).tid, p, false⟩
        .ok { s.setState t (freshState d.address p) with
          made := s.made + 1, threads := s.threads.enter threadKeys t } (some t)) := by
  simp only [registerThread, h, threadFactory, Handled.bind_reading]
  congr 1
  cases w.makeThread p (d.header w).tid (if a.isCheckin then d.read w stackHint else 0) with
  | threw what => rfl
  | failed => simp [Registry.registerIfAbsent, h]
  | made id => simp [Registry.registerIfAbsent, setState, h]

end

/-! ## Running the call -/

/-- A section of one thread. -/
def onNested (t : ThreadRef) (section_ : Nested → Except NestingFault Nested) : Except NestingFault Server :=
  (section_ (s.state t).nested).map fun nested => s.setState t { s.state t with nested }

/-- The target's part of `PtraceThupdate::processCall`. -/
def setPendingSignal (target signum : Int) : Except NestingFault Server :=
  match s.threads.nsmap target with
  | none => .ok s
  | some t => s.onNested t fun n => (n.th.setPendingSignal signum).map fun th => { n with th }

/-- `processCall` of `interrupt_exit`, `sigprocess` and `ptrace_thupdate`; the others are not run here. -/
def processCall (q : Queued) (here : Context) (outcome : SigprocessBody) : Except NestingFault Server :=
  if q.index = interruptExitIndex then s.onNested q.thread (·.processCall q.call here .interruptExit)
  else if q.index = sigprocessIndex then
    s.onNested q.thread (·.processCall q.call here (.sigprocess outcome))
  else if q.index = ptraceThupdateIndex then
    (s.setPendingSignal (toInt32 (q.body.getD 0 0)) (toInt32 (q.body.getD 1 0))).bind
      (·.onNested q.thread (·.sendReply q.call))
  else .ok s

end Server

end DarlingServer
