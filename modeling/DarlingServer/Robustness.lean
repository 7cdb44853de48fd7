import DarlingServer.Datagram
/-!
# Which datagrams the server survives

Nothing between a datagram and the main loop catches an exception, so a datagram
is survived exactly if every check on its way passes and every field read lies
within it. `Acceptable` lists what that takes; `Runnable` says the same of the
three calls whose code relies on interrupts the client may not have entered.
-/

namespace DarlingServer

open Layout

namespace Handled

variable {α β : Type}

/-- It came to its end without an exception and without a read beyond the datagram. -/
def Survives (h : Handled α) : Prop := h.overran = false ∧ ∃ a, h.result = .ok a

@[simp]
theorem survives_ok (s : Server) (a : α) : (Handled.ok s a).Survives := ⟨rfl, a, rfl⟩

@[simp]
theorem survives_abort (s : Server) (e : Abort) : ¬(Handled.abort s e : Handled α).Survives := by
  rintro ⟨-, a, h⟩
  cases h

theorem survives_reading {d : Datagram} {fields : List Field} {h : Handled α} :
    (Handled.reading d fields h).Survives ↔ (∀ f ∈ fields, f.stop ≤ d.data.length) ∧ h.Survives := by
  simp [Survives, Handled.reading, and_assoc]

end Handled

namespace Server

variable (w : World) (s : Server) (d : Datagram)

/-! ## What it takes -/

/-- Registering the caller's process. -/
def AcceptsProcess (a : Announced) : Prop :=
  s.processes.nsmap (d.header w).pid = none →
    (a.isCheckin = true → lifetimeListenerPipe.stop ≤ d.data.length) ∧
    match w.makeProcess d.pid (lifetimePipe w d a) with
    | .threw _ => False
    | .failed => True
    | .made _ => w.monitorProcess d.pid (lifetimePipe w d a) = true

/-- The process the call is from: the one registered, or a new one. -/
def caller (a : Announced) : Option ProcessRef :=
  match s.processes.nsmap (d.header w).pid with
  | some p => some p
  | none =>
    match w.makeProcess d.pid (lifetimePipe w d a) with
    | .made _ => some ⟨s.made, d.pid, (d.header w).pid, (d.header w).architecture⟩
    | _ => none

/-- Registering the caller's thread. -/
def AcceptsThread (a : Announced) (p : ProcessRef) : Prop :=
  s.threads.nsmap (d.header w).tid = none →
    (a.isCheckin = true → stackHint.stop ≤ d.data.length) ∧
    ∀ what, w.makeThread p (d.header w).tid (if a.isCheckin then d.read w stackHint else 0) ≠ .threw what

/-- The state of the thread the call is for, and whether it is a kernel thread. -/
def receiver (a : Announced) (p : ProcessRef) : Option (Bool × ThreadState) :=
  match s.threads.nsmap (d.header w).tid with
  | some t => some (t.kernel, s.state t)
  | none =>
    match w.makeThread p (d.header w).tid (if a.isCheckin then d.read w stackHint else 0) with
    | .made _ => some (false, freshState d.address p)
    | _ => none

/-- Room for a pushed reply: an `interrupt_enter` is pending, or the top record has none. -/
def TakesPushedReply (th : Thread) : Prop :=
  th.pendingCall.map Call.number = some .interruptEnter ∨
    ∃ top rest, th.interrupts = top :: rest ∧ top.savedReply = none

def AcceptsDelivery (p : ProcessRef) (kernel : Bool) (st : ThreadState) : Announced → Prop
  | .s2c => st.s2cReply = none ∧ kernel = false
  | .pushReply =>
    pushedReplySize.stop ≤ d.data.length ∧ w.allocates (d.read w pushedReplySize) = true ∧ d.descriptors ≠ [] ∧
      (w.readMemory p (d.read w pushedReply) (d.read w pushedReplySize)).isSome ∧ TakesPushedReply st.nested.th
  | .call spec index =>
    spec.size ≤ d.data.length ∧ (st.nested.th.pendingCall = none ∨ spec.number index = .interruptEnter)

/-- A datagram that `callFromMessage` takes without an exception and without reading beyond it. -/
def Acceptable : Prop :=
  Layout.size callhdr ≤ d.data.length ∧ ∃ a, announced (d.header w).number = some a ∧
    if (d.header w).number.testBit 31 then ∃ spec index, a = .call spec index ∧ spec.size ≤ d.data.length
    else
      AcceptsProcess w s d a ∧ ∀ p, caller w s d a = some p →
        AcceptsThread w s d a p ∧ ∀ kernel st, receiver w s d a p = some (kernel, st) →
          p.id = d.pid ∧ AcceptsDelivery w d p kernel st a

/-- The call's reply finds the call where `pushCallReply` looks for it. -/
def CanAnswer (th : Thread) (c : Call) : Prop :=
  if th.interruptedForSignal then
    ∃ top rest, th.interrupts = top :: rest ∧ top.interruptedCall = some c ∧ top.savedReply = none
  else th.activeCall = some c

/-- A queued call whose code meets the interrupt records and user states it uses. -/
def Runnable (q : Queued) (outcome : SigprocessBody) : Prop :=
  let n := (s.state q.thread).nested
  if q.index = interruptExitIndex then
    (∃ rest, n.userStates = .allocated :: rest) ∧ n.th.interrupts ≠ [] ∧ CanAnswer n.th q.call
  else if q.index = sigprocessIndex then
    (n.architecture.copyState outcome.copiedIn = 0 → n.userStates ≠ [] ∧ n.th.interrupts ≠ []) ∧
      CanAnswer n.th q.call
  else if q.index = ptraceThupdateIndex then
    (∀ t, s.threads.nsmap (toInt32 (q.body.getD 0 0)) = some t → (s.state t).nested.th.interrupts ≠ []) ∧
      CanAnswer n.th q.call
  else True

/-! ## Stage by stage -/

variable {w s d} {a : Announced} {p : ProcessRef}

theorem setPendingCall_ok {th : Thread} {c : Call} :
    (∃ th', th.setPendingCall c = .ok th') ↔ th.pendingCall = none ∨ c.number = .interruptEnter := by
  unfold Thread.setPendingCall
  split
  · rename_i h
    rw [Option.isSome_iff_ne_none] at h
    split <;> simp_all
  · simp_all

theorem pushReply_ok {th : Thread} {m : Message} :
    (∃ th', th.pushReply m = .ok th') ↔ TakesPushedReply th := by
  unfold Thread.pushReply TakesPushedReply
  split
  · simp_all
  · split
    · simp_all
    · split <;> simp_all [Option.isSome_iff_ne_none]

theorem survives_storeS2CReply {t : ThreadRef} :
    (storeS2CReply s d t).Survives ↔ (s.state t).s2cReply = none ∧ t.kernel = false := by
  unfold storeS2CReply
  cases hr : (s.state t).s2cReply with
  | some reply => simp [hr]
  | none => cases t.kernel <;> simp [hr]

theorem survives_storePushedReply {t : ThreadRef} :
    (storePushedReply w s d p t).Survives ↔ AcceptsDelivery w d p t.kernel (s.state t) .pushReply := by
  simp only [storePushedReply, Handled.survives_reading, AcceptsDelivery]
  have hfields : (∀ f ∈ [pushedReply, pushedReplySize], f.stop ≤ d.data.length) ↔
      pushedReplySize.stop ≤ d.data.length := by
    simp only [List.mem_cons, List.not_mem_nil, or_false, forall_eq_or_imp, forall_eq, and_iff_right_iff_imp]
    have : pushedReply.stop ≤ pushedReplySize.stop := by decide
    omega
  rw [hfields]
  refine and_congr_right fun _ => ?_
  cases w.allocates (d.read w pushedReplySize) with
  | false => simp
  | true =>
    by_cases hd : d.descriptors = []
    · simp [hd]
    · cases hm : w.readMemory p (d.read w pushedReply) (d.read w pushedReplySize) with
      | none => simp [hd]
      | some m =>
        rw [← pushReply_ok (m := m)]
        simp only [hd, if_false, Bool.true_eq_false, Option.isSome_some, ne_eq, not_false_eq_true, true_and]
        cases (s.state t).nested.th.pushReply m <;> simp

theorem survives_construct_thread {t : ThreadRef} {spec : CallSpec} {index : Nat} :
    (construct w s d (some t) spec index).Survives ↔
      AcceptsDelivery w d p t.kernel (s.state t) (.call spec index) := by
  unfold construct AcceptsDelivery
  split
  · simp only [Handled.survives_abort, false_iff, not_and]
    omega
  · rename_i h
    have hlen : spec.size ≤ d.data.length := by omega
    have hfields : ∀ f ∈ spec.fields, f.stop ≤ d.data.length :=
      fun f hf => Nat.le_trans (spec.field_stop_le hf) hlen
    simp only [Handled.survives_reading, hlen, true_and]
    rw [and_iff_right hfields, ← setPendingCall_ok (c := ⟨s.nextCall, spec.number index⟩)]
    cases (s.state t).nested.th.setPendingCall ⟨s.nextCall, spec.number index⟩ <;> simp

theorem survives_construct_async {spec : CallSpec} {index : Nat} :
    (construct w s d none spec index).Survives ↔ spec.size ≤ d.data.length := by
  unfold construct
  split
  · simp only [Handled.survives_abort, false_iff]
    omega
  · rename_i h
    have hlen : spec.size ≤ d.data.length := by omega
    simp only [Handled.survives_reading, Handled.survives_ok, and_true, hlen, iff_true]
    exact fun f hf => Nat.le_trans (spec.field_stop_le hf) hlen

theorem survives_deliver {t : ThreadRef} :
    (deliver w s d p t a).Survives ↔ AcceptsDelivery w d p t.kernel (s.state t) a := by
  cases a with
  | s2c => exact survives_storeS2CReply
  | pushReply => exact survives_storePushedReply
  | call spec index => exact survives_construct_thread

/-- The reads of a factory. -/
theorem reads_factory {f : Field} {b : Bool} :
    (∀ g ∈ (if b then [f] else []), g.stop ≤ d.data.length) ↔ (b = true → f.stop ≤ d.data.length) := by
  cases b <;> simp

theorem survives_handleThread :
    (handleThread w s d a p).Survives ↔
      AcceptsThread w s d a p ∧ ∀ kernel st, receiver w s d a p = some (kernel, st) →
        p.id = d.pid ∧ AcceptsDelivery w d p kernel st a := by
  have hdeliver (s' : Server) (t : ThreadRef) :
      (if p.id ≠ d.pid then .abort (s'.setAddress t d.address)
          (.threw "System-reported message PID != darlingserver-recorded PID")
        else deliver w (s'.setAddress t d.address) d p t a).Survives ↔
      p.id = d.pid ∧ AcceptsDelivery w d p t.kernel (s'.state t) a := by
    split
    · simp_all
    · rw [survives_deliver]
      simp_all only [ne_eq, not_not, true_and]
      -- what a delivery takes does not depend on the address
      cases a <;> simp [AcceptsDelivery, setAddress, setState]
  unfold handleThread
  cases ht : s.threads.nsmap (d.header w).tid with
  | some t =>
    rw [registerThread_found ht]
    simp only [Handled.bind_ok, hdeliver, AcceptsThread, receiver, ht, reduceCtorEq, false_imp_iff, true_and,
      Option.some.injEq, Prod.mk.injEq]
    exact ⟨fun h kernel st hk => hk.1 ▸ hk.2 ▸ h, fun h => h _ _ ⟨rfl, rfl⟩⟩
  | none =>
    simp only [registerThread_absent ht, Handled.bind_reading, Handled.survives_reading, AcceptsThread, receiver,
      ht, reads_factory, forall_const, and_assoc]
    refine and_congr_right fun _ => ?_
    cases w.makeThread p (d.header w).tid (if a.isCheckin then d.read w stackHint else 0) with
    | threw what => simp
    | failed => simp
    | made id =>
      simp only [Handled.bind_ok, hdeliver, setState, Function.update_self, ne_eq, reduceCtorEq, not_false_eq_true,
        implies_true, true_and, Option.some.injEq, Prod.mk.injEq]
      exact ⟨fun h kernel st hk => hk.1 ▸ hk.2 ▸ h, fun h => h _ _ ⟨rfl, rfl⟩⟩

theorem survives_handleManaged :
    (handleManaged w s d a).Survives ↔
      AcceptsProcess w s d a ∧ ∀ p, caller w s d a = some p →
        AcceptsThread w s d a p ∧ ∀ kernel st, receiver w s d a p = some (kernel, st) →
          p.id = d.pid ∧ AcceptsDelivery w d p kernel st a := by
  unfold handleManaged
  cases hp : s.processes.nsmap (d.header w).pid with
  | some p =>
    rw [registerProcess_found hp]
    simp only [Handled.bind_ok, AcceptsProcess, caller, hp, reduceCtorEq, false_imp_iff, true_and,
      Option.some.injEq, forall_eq']
    exact survives_handleThread
  | none =>
    simp only [registerProcess_absent hp, Handled.bind_reading, Handled.survives_reading, AcceptsProcess, caller,
      hp, reads_factory, forall_const, and_assoc]
    refine and_congr_right fun _ => ?_
    cases w.makeProcess d.pid (lifetimePipe w d a) with
    | threw what => simp
    | failed => simp
    | made _ =>
      cases w.monitorProcess d.pid (lifetimePipe w d a) with
      | false => simp
      | true =>
        simp only [if_true, Handled.bind_ok, Option.some.injEq, forall_eq']
        refine survives_handleThread.trans ?_
        simp [AcceptsThread, receiver]

theorem survives_callFromMessage : (callFromMessage w s d).Survives ↔ Acceptable w s d := by
  unfold callFromMessage Acceptable
  split
  · simp only [Handled.survives_abort, false_iff, not_and]
    omega
  · rename_i h
    have hlen : Layout.size callhdr ≤ d.data.length := by omega
    have hfields : ∀ f ∈ Layout.fields 0 callhdr, f.stop ≤ d.data.length := by
      have hin : ∀ f ∈ Layout.fields 0 callhdr, f.stop ≤ Layout.size callhdr := by decide
      exact fun f hf => Nat.le_trans (hin f hf) hlen
    rw [Handled.survives_reading, and_iff_right hfields, and_iff_right hlen]
    cases announced (d.header w).number with
    | none => simp
    | some a =>
      simp only [Option.some.injEq, exists_eq_left']
      split
      · cases a with
        | s2c => simp
        | pushReply => simp
        | call spec index => simp [survives_construct_async]
      · exact survives_handleManaged

/-! ## The calls that follow -/

variable {n : Nested} {c : Call} {here : Context} {outcome : SigprocessBody}

theorem sendReply_ok : (∃ n', n.sendReply c = .ok n') ↔ CanAnswer n.th c := by
  simp only [Nested.sendReply, Nested.onThread, Thread.pushCallReply, Thread.deactivateCallLocked, CanAnswer]
  cases hs : n.th.interruptedForSignal with
  | false =>
    by_cases hc : n.th.activeCall = some c
    · simp only [hc, if_true, Bool.false_eq_true, if_false, Except.bind, Thread.deliverReply, iff_true]
      cases n.th.deferReplyForS2C <;> cases n.th.dead <;> exact ⟨_, rfl⟩
    · simp [hc, Except.bind, Except.map]
  | true =>
    cases hi : n.th.interrupts with
    | nil => simp [Except.bind, Except.map]
    | cons top rest =>
      by_cases hc : top.interruptedCall = some c
      · cases hr : top.savedReply <;> simp [hc, hr, Except.bind, Except.map, Thread.deliverReply]
      · simp [hc, Except.bind, Except.map]

/-- A reply leaves as many records as there were. -/
theorem sendReply_interrupts {n' : Nested} (h : n.sendReply c = .ok n') :
    n'.th.interrupts = [] ↔ n.th.interrupts = [] := by
  have hlen : ∀ {th th' : Thread} {m : Message} {v}, th.deliverReply m = .ok (th', v) →
      (th'.interrupts = [] ↔ th.interrupts = []) := by
    intro th th' m v hd
    unfold Thread.deliverReply at hd
    split at hd
    · split at hd
      · cases hd
      · split at hd <;> cases hd
        simp_all
    · split at hd
      · cases hd; rfl
      · split at hd <;> cases hd <;> rfl
  have hlen' : ∀ {th th' : Thread}, th.deactivateCallLocked c = .ok th' →
      (th'.interrupts = [] ↔ th.interrupts = []) := by
    intro th th' hd
    unfold Thread.deactivateCallLocked at hd
    split at hd
    · split at hd
      · cases hd
      · split at hd <;> cases hd
        simp_all
    · split at hd <;> cases hd
      rfl
  unfold Nested.sendReply Nested.onThread Thread.pushCallReply at h
  cases h₁ : n.th.deactivateCallLocked c with
  | error f => simp [h₁, Except.bind, Except.map] at h
  | ok th =>
    cases h₂ : th.deliverReply ⟨c⟩ with
    | error f => simp [h₁, h₂, Except.bind, Except.map] at h
    | ok r =>
      simp only [h₁, h₂, Except.bind, Except.map, Except.ok.injEq] at h
      subst h
      exact (hlen h₂).trans (hlen' h₁)

theorem canAnswer_signal {th : Thread} {top : InterruptContext} {rest : List InterruptContext} {signal : Int}
    (h : th.interrupts = top :: rest) :
    CanAnswer (th.withInterrupts ({ top with signal } :: rest)) c ↔ CanAnswer th c := by
  simp only [CanAnswer, Thread.withInterrupts, h, List.cons.injEq]
  split
  · constructor <;>
    · rintro ⟨_, _, ⟨rfl, rfl⟩, hc, hr⟩
      exact ⟨_, _, ⟨rfl, rfl⟩, hc, hr⟩
  · rfl

theorem interruptExit_ok :
    (∃ n', n.processCall c here .interruptExit = .ok n') ↔
      (∃ rest, n.userStates = .allocated :: rest) ∧ n.th.interrupts ≠ [] ∧ CanAnswer n.th c := by
  simp only [Nested.processCall]
  match hu : n.userStates with
  | [] => simp [sigexcExit, bind, Except.bind]
  | .defaultState :: rest => simp [sigexcExit, bind, Except.bind]
  | .allocated :: rest =>
    simp only [sigexcExit, bind, Except.bind, List.cons.injEq, true_and, exists_eq', ← sendReply_ok]
    have hsame : (∃ n', ({ n with userStates := rest } : Nested).sendReply c = .ok n') ↔
        ∃ n', n.sendReply c = .ok n' := by rw [sendReply_ok, sendReply_ok]
    cases hr : ({ n with userStates := rest } : Nested).sendReply c with
    | error e => simp_all
    | ok n' =>
      have hi := sendReply_interrupts hr
      have hex : ∃ n', n.sendReply c = .ok n' := hsame.1 ⟨n', hr⟩
      simp only [and_iff_left hex, ne_eq]
      rw [← show _ ↔ n.th.interrupts = [] from hi]
      cases hn : n'.th.interrupts <;> simp [Thread.exitInterrupt, Nested.onThread, Except.map, hn]

theorem sigprocess_ok :
    (∃ n', n.processCall c here (.sigprocess outcome) = .ok n') ↔
      (n.architecture.copyState outcome.copiedIn = 0 → n.userStates ≠ [] ∧ n.th.interrupts ≠ []) ∧
        CanAnswer n.th c := by
  simp only [Nested.processCall, Nested.sigprocess]
  by_cases hb : n.architecture.copyState outcome.copiedIn = 0
  · by_cases hu : n.userStates = []
    · simp [Nested.processSignal, hb, hu, bind, Except.bind]
    · cases hi : n.th.interrupts with
      | nil => simp [Nested.processSignal, hb, hu, hi, bind, Except.bind, Nested.onThread, Thread.setTopSignal]
      | cons top rest =>
        obtain ⟨signal, code, hs⟩ := Nested.processSignal_records hb hu hi
        simp [hs, hb, hu, bind, Except.bind, pure, Except.pure, sendReply_ok, canAnswer_signal hi]
  · simp [Nested.processSignal, hb, bind, Except.bind, pure, Except.pure, sendReply_ok]

theorem onNested_ok {t : ThreadRef} {section_ : Nested → Except NestingFault Nested} :
    (∃ s', s.onNested t section_ = .ok s') ↔ ∃ n, section_ (s.state t).nested = .ok n := by
  unfold onNested
  cases section_ (s.state t).nested <;> simp [Except.map]

/-- Setting a signal of any thread takes a record there and leaves every answer where it was. -/
theorem setPendingSignal_ok (target signum : Int) :
    (∃ s', s.setPendingSignal target signum = .ok s') ↔
      ∀ t, s.threads.nsmap target = some t → (s.state t).nested.th.interrupts ≠ [] := by
  unfold setPendingSignal
  cases ht : s.threads.nsmap target with
  | none => simp
  | some t =>
    simp only [onNested_ok, Option.some.injEq, forall_eq']
    cases hi : (s.state t).nested.th.interrupts <;> simp [Thread.setPendingSignal, hi, Except.map]

theorem canAnswer_setPendingSignal {s' : Server} {target signum : Int}
    (h : s.setPendingSignal target signum = .ok s') (u : ThreadRef) :
    CanAnswer (s'.state u).nested.th c ↔ CanAnswer (s.state u).nested.th c := by
  unfold setPendingSignal at h
  cases ht : s.threads.nsmap target with
  | none =>
    simp only [ht, Except.ok.injEq] at h
    rw [← h]
  | some t =>
    cases hi : (s.state t).nested.th.interrupts with
    | nil => simp [ht, onNested, Thread.setPendingSignal, hi, Except.map] at h
    | cons top rest =>
      simp only [ht, onNested, Thread.setPendingSignal, hi, Except.map, Except.ok.injEq] at h
      subst h
      by_cases hu : u = t
      · subst hu
        simp only [setState, Function.update_self]
        exact canAnswer_signal hi
      · simp [setState, Function.update_of_ne hu]

theorem processCall_ok {q : Queued} :
    (∃ s', s.processCall q here outcome = .ok s') ↔ Runnable s q outcome := by
  unfold processCall Runnable
  split
  · exact onNested_ok.trans interruptExit_ok
  · split
    · exact onNested_ok.trans sigprocess_ok
    · split
      · rw [← setPendingSignal_ok _ (toInt32 (q.body.getD 1 0))]
        cases hs : s.setPendingSignal (toInt32 (q.body.getD 0 0)) (toInt32 (q.body.getD 1 0)) with
        | error f => simp [Except.bind]
        | ok s' =>
          simp only [Except.bind, onNested_ok, sendReply_ok, canAnswer_setPendingSignal hs, Except.ok.injEq,
            exists_eq', true_and]
      · simp

/-- A system that grants everything. -/
def granting : World where
  beyond := fun _ => 0
  makeProcess := fun _ _ => .made ()
  monitorProcess := fun _ _ => true
  makeThread := fun _ nsid _ => .made (1000 + nsid)
  allocates := fun _ => true
  readMemory := fun _ _ _ => some ⟨⟨0, .plain 0⟩⟩

/-- A datagram with a header of small numbers. -/
def smallDatagram (number pid tid : UInt8) (body : List UInt8) (sender : Int) (address : Address) : Datagram :=
  ⟨[number, 0, 0, 0, pid, 0, 0, 0, tid, 0, 0, 0, 2, 0, 0, 0] ++ body, [], sender, address⟩

end Server

end DarlingServer
