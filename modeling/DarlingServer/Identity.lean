import DarlingServer.Robustness
/-!
# Who a datagram acts for

A datagram names its process and its thread itself; the sender that the system
reports is compared with the process only after both were registered and the
thread's address was taken over, and that the thread belongs to the process is
never asked. This module says exactly which datagrams change nothing.
-/

namespace DarlingServer

open Layout Runs

/-! ## Runs of the server -/

inductive Event where
  | datagram (w : World) (d : Datagram)
  /-- Anything else that happens to a thread. -/
  | work (t : ThreadRef) (st : ThreadState)
  /-- A kernel thread, registered by the hook that makes it. -/
  | kernelThread (nsid : Int)
  | unregisterThread (t : ThreadRef)
  | unregisterProcess (p : ProcessRef)

namespace Server

/-- A server that threw is gone. -/
def step (s : Server) : Event → Option Server
  | .datagram w d =>
    match (callFromMessage w s d).result with
    | .ok _ => some (callFromMessage w s d).server
    | .error _ => none
  | .work t st => if t.handle < s.made then some (s.setState t st) else none
  | .kernelThread nsid =>
    let t : ThreadRef := ⟨s.made, -1, nsid, ⟨0, -1, 0, 2⟩, true⟩
    some { s with made := s.made + 1, threads := (s.threads.registerEntry threadKeys t true).1 }
  | .unregisterThread t => some { s with threads := (s.threads.unregisterEntry threadKeys t).1 }
  | .unregisterProcess p => some { s with processes := (s.processes.unregisterEntry processKeys p).1 }

/-- The threads that are found were made. -/
def Known (s : Server) : Prop := ∀ n t, s.threads.nsmap n = some t → t.handle < s.made

/-! ## What a datagram may change -/

/-- What of a thread another process must not change: its reply address, pending
call, pending interrupts, saved replies and S2C reply. -/
def visible (st : ThreadState) :
    Address × Option Call × List Call × Option Message × List (Option Message) × Option Datagram :=
  (st.address, st.nested.th.pendingCall, st.nested.th.pendingInterrupts, st.nested.th.pendingSavedReply,
    st.nested.th.interrupts.map InterruptContext.savedReply, st.s2cReply)

structure Unchanged (s s' : Server) : Prop where
  processes : s'.processes = s.processes
  threads : s'.threads = s.threads
  visible : ∀ t : ThreadRef, t.handle < s.made → visible (s'.state t) = visible (s.state t)

/-- The process the header names is the sender, or is new and so is the sender;
and the thread it names is new or belongs to that process. -/
def Identifies (s : Server) (sender : Int) (hdr : Header) : Prop :=
  (match s.processes.nsmap hdr.pid with
    | some p => p.id = sender
    | none => ∀ n p, s.processes.nsmap n = some p → p.id ≠ sender) ∧
  ∀ t, s.threads.nsmap hdr.tid = some t → s.processes.nsmap hdr.pid = some t.process

/-- The thread turns down what the datagram brings, or holds it already. -/
def Refuses (w : World) (d : Datagram) (p : ProcessRef) (st : ThreadState) : Announced → Prop
  | .s2c => st.s2cReply ≠ none
  | .pushReply => w.allocates (d.read w pushedReplySize) = true → d.descriptors ≠ [] →
    ∀ m, w.readMemory p (d.read w pushedReply) (d.read w pushedReplySize) = some m →
      TakesPushedReply st.nested.th →
      st.nested.th.pendingCall.map Call.number = some .interruptEnter ∧ st.nested.th.pendingSavedReply = some m
  | .call spec index => spec.size ≤ d.data.length →
    st.nested.th.pendingCall ≠ none ∧ spec.number index ≠ .interruptEnter

/-- Nothing is made, and the thread that is reached has the datagram's address
already and gets nothing from it. -/
def NoEffect (w : World) (s : Server) (d : Datagram) (a : Announced) : Prop :=
  match s.processes.nsmap (d.header w).pid with
  | none => ∀ u, w.makeProcess d.pid (lifetimePipe w d a) = .made u →
    w.monitorProcess d.pid (lifetimePipe w d a) = false
  | some p =>
    match s.threads.nsmap (d.header w).tid with
    | none => ∀ id, w.makeThread p (d.header w).tid (if a.isCheckin then d.read w stackHint else 0) ≠ .made id
    | some t => (s.state t).address = d.address ∧ (p.id = d.pid → Refuses w d p (s.state t) a)

end Server

namespace Handled

variable {α β : Type}

@[simp]
theorem reading_server (d : Datagram) (fields : List Field) (h : Handled α) :
    (Handled.reading d fields h).server = h.server := rfl

end Handled

namespace Server

variable {w : World} {s : Server} {d : Datagram} {a : Announced} {p : ProcessRef} {t : ThreadRef}

/-! ## What each stage writes -/

theorem pushReply_visible {th th' : Thread} {m : Message} (h : th.pushReply m = .ok th') (st : ThreadState)
    (hst : st.nested.th = th) :
    visible { st with nested := { st.nested with th := th' } } = visible st ↔
      th.pendingCall.map Call.number = some .interruptEnter ∧ th.pendingSavedReply = some m := by
  unfold Thread.pushReply at h
  split at h
  · rename_i hp
    cases h
    subst hst
    simp [visible, hp, eq_comm]
  · rename_i hp
    split at h
    · cases h
    · rename_i top rest hi
      split at h
      · cases h
      · rename_i hn
        cases h
        subst hst
        -- the top record had no reply and has one now
        have : some m ≠ top.savedReply := fun he => hn (by simp [← he])
        simp [visible, hi, hp, this]

theorem setPendingCall_visible {th th' : Thread} {c : Call} (h : th.setPendingCall c = .ok th') (st : ThreadState)
    (hst : st.nested.th = th) : visible { st with nested := { st.nested with th := th' } } ≠ visible st := by
  unfold Thread.setPendingCall at h
  subst hst
  split at h
  · split at h <;> cases h
    simp [visible]
  · rename_i hp
    cases h
    simp only [Option.not_isSome_iff_eq_none] at hp
    simp [visible, hp]

/-- A delivery touches its thread only, and never the address. -/
structure Delivered (s : Server) (t : ThreadRef) (s' : Server) : Prop where
  processes : s'.processes = s.processes
  threads : s'.threads = s.threads
  made : s'.made = s.made
  others : ∀ u, u ≠ t → s'.state u = s.state u
  address : (s'.state t).address = (s.state t).address

theorem delivered_refl : Delivered s t s := ⟨rfl, rfl, rfl, fun _ _ => rfl, rfl⟩

theorem delivered_setState {st : ThreadState} (h : st.address = (s.state t).address) :
    Delivered s t (s.setState t st) :=
  ⟨rfl, rfl, rfl, fun u hu => by simp [setState, Function.update_of_ne hu], by simp [setState, h]⟩

theorem deliver_delivered : Delivered s t (deliver w s d p t a).server := by
  cases a with
  | s2c =>
    simp only [deliver, storeS2CReply]
    split
    · exact delivered_refl
    · split <;> exact delivered_setState rfl
  | pushReply =>
    simp only [deliver, storePushedReply, Handled.reading_server]
    split
    · exact delivered_refl
    · split
      · exact delivered_refl
      · split
        · exact delivered_refl
        · split
          · exact delivered_refl
          · exact delivered_setState rfl
  | call spec index =>
    simp only [deliver, construct]
    split
    · exact delivered_refl
    · simp only [Handled.reading_server]
      split
      · exact ⟨rfl, rfl, rfl, fun _ _ => rfl, rfl⟩
      · exact ⟨rfl, rfl, rfl, fun u hu => by simp [setThread, setState, Handled.ok, Function.update_of_ne hu],
          by simp [setThread, setState, Handled.ok]⟩

theorem deliver_visible :
    visible ((deliver w s d p t a).server.state t) = visible (s.state t) ↔ Refuses w d p (s.state t) a := by
  cases a with
  | s2c =>
    simp only [deliver, storeS2CReply, Refuses]
    cases hr : (s.state t).s2cReply with
    | some reply => simp [Handled.abort]
    | none => cases t.kernel <;> simp [Handled.abort, Handled.ok, setState, visible, hr]
  | pushReply =>
    simp only [deliver, storePushedReply, Handled.reading_server, Refuses]
    cases w.allocates (d.read w pushedReplySize) with
    | false => simp [Handled.abort]
    | true =>
      by_cases hd : d.descriptors = []
      · simp [hd, Handled.abort]
      · cases hm : w.readMemory p (d.read w pushedReply) (d.read w pushedReplySize) with
        | none => simp [hd, Handled.abort]
        | some m =>
          simp only [hd, Bool.true_eq_false, if_false, not_false_eq_true, ne_eq, forall_const, Option.some.injEq,
            forall_eq']
          cases hp : (s.state t).nested.th.pushReply m with
          | error f =>
            have hno : ¬TakesPushedReply (s.state t).nested.th := fun h => by
              obtain ⟨th', hth⟩ := pushReply_ok.2 h
              exact absurd (hp.symm.trans hth) (by simp)
            simp [Handled.abort, hno]
          | ok th' =>
            have hyes : TakesPushedReply (s.state t).nested.th := pushReply_ok.1 ⟨_, hp⟩
            simpa [Handled.ok, setThread, setState, hyes] using pushReply_visible hp (s.state t) rfl
  | call spec index =>
    simp only [deliver, construct, Refuses]
    split
    · rename_i hlen
      simp only [Handled.abort, true_iff]
      omega
    · rename_i hlen
      have hlen : spec.size ≤ d.data.length := by omega
      simp only [Handled.reading_server, hlen, forall_const]
      cases hc : (s.state t).nested.th.setPendingCall ⟨s.nextCall, spec.number index⟩ with
      | error f =>
        have hno := (setPendingCall_ok (c := ⟨s.nextCall, spec.number index⟩)).not.1
          (by rw [hc]; simp : ¬∃ th', (s.state t).nested.th.setPendingCall _ = .ok th')
        simpa [Handled.abort, not_or] using hno
      | ok th' =>
        have hyes := setPendingCall_ok.1 ⟨_, hc⟩
        have hne := setPendingCall_visible hc (s.state t) rfl
        simp only [Handled.ok, setThread, setState, Function.update_self, hne, false_iff, not_and, not_not]
        intro hp
        exact hyes.resolve_left hp

/-- The end of `handleThread`, once the thread is known. -/
def arrive (w : World) (s : Server) (d : Datagram) (a : Announced) (p : ProcessRef) (t : ThreadRef) :
    Handled Received :=
  if p.id ≠ d.pid then
    .abort (s.setAddress t d.address) (.threw "System-reported message PID != darlingserver-recorded PID")
  else deliver w (s.setAddress t d.address) d p t a

theorem arrive_delivered : Delivered (s.setAddress t d.address) t (arrive w s d a p t).server := by
  unfold arrive
  split
  · exact delivered_refl
  · exact deliver_delivered

theorem handleThread_found (h : s.threads.nsmap (d.header w).tid = some t) :
    handleThread w s d a p = arrive w s d a p t := by
  simp [handleThread, registerThread_found h, arrive]

theorem handleThread_absent (h : s.threads.nsmap (d.header w).tid = none) :
    (handleThread w s d a p).server =
      match w.makeThread p (d.header w).tid (if a.isCheckin then d.read w stackHint else 0) with
      | .made id =>
        let t : ThreadRef := ⟨s.made, id, (d.header w).tid, p, false⟩
        (arrive w { s.setState t (freshState d.address p) with
          made := s.made + 1, threads := s.threads.enter threadKeys t } d a p t).server
      | _ => s := by
  simp only [handleThread, registerThread_absent h, Handled.bind_reading, Handled.reading_server]
  cases w.makeThread p (d.header w).tid (if a.isCheckin then d.read w stackHint else 0) <;> rfl

theorem unchanged_found (hk : t.handle < s.made) (h : s.threads.nsmap (d.header w).tid = some t) :
    Unchanged s (handleThread w s d a p).server ↔
      (s.state t).address = d.address ∧ (p.id = d.pid → Refuses w d p (s.state t) a) := by
  rw [handleThread_found h]
  have hd := arrive_delivered (w := w) (s := s) (d := d) (a := a) (p := p) (t := t)
  -- with the address in place `setAddress` does nothing
  have hsame : (s.state t).address = d.address → s.setAddress t d.address = s := fun he => by
    simp only [setAddress, setState]
    rw [show ({ s.state t with address := d.address } : ThreadState) = s.state t by rw [← he],
      Function.update_eq_self]
  unfold arrive at hd ⊢
  split at hd
  · rename_i hp
    rw [if_pos hp]
    constructor
    · intro hu
      have := congrArg Prod.fst (hu.visible t hk)
      simp only [Handled.abort, setAddress, setState, Function.update_self, visible] at this
      exact ⟨this.symm, fun he => absurd he hp⟩
    · rintro ⟨he, -⟩
      rw [hsame he]
      exact ⟨rfl, rfl, fun _ _ => rfl⟩
  · rename_i hp
    rw [if_neg hp]
    constructor
    · intro hu
      have hv := hu.visible t hk
      have he : (s.state t).address = d.address := by
        have := congrArg Prod.fst hv
        simp only [visible, hd.address] at this
        simpa [setAddress, setState] using this.symm
      rw [hsame he] at hv
      exact ⟨he, fun _ => deliver_visible.1 hv⟩
    · rintro ⟨he, hr⟩
      rw [hsame he] at hd ⊢
      refine ⟨hd.processes, hd.threads, fun u _ => ?_⟩
      by_cases hu : u = t
      · rw [hu]
        exact deliver_visible.2 (hr (not_not.1 hp))
      · rw [hd.others u hu]

theorem unchanged_absent (h : s.threads.nsmap (d.header w).tid = none) :
    Unchanged s (handleThread w s d a p).server ↔
      ∀ id, w.makeThread p (d.header w).tid (if a.isCheckin then d.read w stackHint else 0) ≠ .made id := by
  rw [handleThread_absent h]
  cases w.makeThread p (d.header w).tid (if a.isCheckin then d.read w stackHint else 0) with
  | threw what => exact ⟨fun _ _ => by simp, fun _ => ⟨rfl, rfl, fun _ _ => rfl⟩⟩
  | failed => exact ⟨fun _ _ => by simp, fun _ => ⟨rfl, rfl, fun _ _ => rfl⟩⟩
  | made id =>
    refine ⟨fun hu => ?_, fun hne => absurd rfl (hne id)⟩
    -- the thread is in the registry now
    have ht := congrArg (Registry.nsmap · (d.header w).tid) (arrive_delivered.threads.symm.trans hu.threads)
    simp [setAddress, setState, Registry.enter, threadKeys, h] at ht

/-- No process is registered or unregistered once it is known. -/
theorem handleThread_processes : (handleThread w s d a p).server.processes = s.processes := by
  cases h : s.threads.nsmap (d.header w).tid with
  | some t =>
    rw [handleThread_found h]
    exact arrive_delivered.processes
  | none =>
    rw [handleThread_absent h]
    split
    · exact arrive_delivered.processes
    · rfl

theorem handleThread_known (hk : s.Known) : (handleThread w s d a p).server.Known := by
  cases h : s.threads.nsmap (d.header w).tid with
  | some t =>
    rw [handleThread_found h]
    intro n u hu
    rw [arrive_delivered.threads] at hu
    rw [arrive_delivered.made]
    exact hk n u hu
  | none =>
    rw [handleThread_absent h]
    split
    · intro n u hu
      rw [arrive_delivered.threads] at hu
      rw [arrive_delivered.made]
      simp only [setAddress, setState, Registry.enter, Function.update_apply] at hu ⊢
      split at hu
      · cases hu
        exact Nat.lt_succ_self _
      · exact Nat.lt_succ_of_lt (hk n u hu)
    · exact hk

theorem handleManaged_absent (h : s.processes.nsmap (d.header w).pid = none) :
    (handleManaged w s d a).server =
      match w.makeProcess d.pid (lifetimePipe w d a) with
      | .made _ =>
        if w.monitorProcess d.pid (lifetimePipe w d a) then
          let p : ProcessRef := ⟨s.made, d.pid, (d.header w).pid, (d.header w).architecture⟩
          (handleThread w { s with made := s.made + 1, processes := s.processes.enter processKeys p } d a p).server
        else s
      | _ => s := by
  simp only [handleManaged, registerProcess_absent h, Handled.bind_reading, Handled.reading_server]
  cases w.makeProcess d.pid (lifetimePipe w d a) with
  | threw what => rfl
  | failed => rfl
  | made _ => cases w.monitorProcess d.pid (lifetimePipe w d a) <;> rfl

theorem handleManaged_found (h : s.processes.nsmap (d.header w).pid = some p) :
    handleManaged w s d a = handleThread w s d a p := by
  simp [handleManaged, registerProcess_found h]

theorem handleManaged_known (hk : s.Known) : (handleManaged w s d a).server.Known := by
  cases h : s.processes.nsmap (d.header w).pid with
  | some p =>
    rw [handleManaged_found h]
    exact handleThread_known hk
  | none =>
    rw [handleManaged_absent h]
    split
    · split
      · exact handleThread_known fun n t ht => Nat.lt_succ_of_lt (hk n t ht)
      · exact hk
    · exact hk

theorem unchanged_iff (hk : s.Known) : Unchanged s (handleManaged w s d a).server ↔ NoEffect w s d a := by
  unfold NoEffect
  cases hp : s.processes.nsmap (d.header w).pid with
  | some p =>
    rw [handleManaged_found hp]
    cases ht : s.threads.nsmap (d.header w).tid with
    | some t => exact unchanged_found (hk _ _ ht) ht
    | none => exact unchanged_absent ht
  | none =>
    rw [handleManaged_absent hp]
    have hrefl : Unchanged s s := ⟨rfl, rfl, fun _ _ => rfl⟩
    cases w.makeProcess d.pid (lifetimePipe w d a) with
    | threw what => simp [hrefl]
    | failed => simp [hrefl]
    | made u =>
      cases w.monitorProcess d.pid (lifetimePipe w d a) with
      | false => simp [hrefl]
      | true =>
        refine ⟨fun hu => ?_, fun hne => absurd (hne u rfl) (by simp)⟩
        -- the process is in the registry now
        have := congrArg (Registry.nsmap · (d.header w).pid) (handleThread_processes.symm.trans hu.processes)
        simp [Registry.enter, processKeys, hp] at this

/-! ## Every run -/

theorem callFromMessage_known (hk : s.Known) : (callFromMessage w s d).server.Known := by
  unfold callFromMessage
  split
  · exact hk
  · simp only [Handled.reading_server]
    split
    · exact hk
    · split
      · split
        · simp only [construct]
          split <;> exact hk
        · exact hk
      · exact handleManaged_known hk

theorem known_step {s' : Server} {e : Event} (hk : s.Known) (h : s.step e = some s') : s'.Known := by
  cases e with
  | datagram w d =>
    simp only [step] at h
    split at h <;> cases h
    exact callFromMessage_known hk
  | work t st =>
    simp only [step] at h
    split at h <;> cases h
    exact hk
  | kernelThread nsid =>
    cases h
    intro n t ht
    simp only [Registry.registerEntry, Bool.not_true, Bool.false_and, Bool.false_eq_true, if_false, Registry.enter,
      Function.update_apply] at ht ⊢
    split at ht
    · cases ht
      exact Nat.lt_succ_self _
    · exact Nat.lt_succ_of_lt (hk n t ht)
  | unregisterThread t =>
    cases h
    intro n u hu
    simp only [Registry.unregisterEntry] at hu
    split at hu
    · simp only [Registry.erase, Function.update_apply] at hu
      split at hu
      · cases hu
      · exact hk n u hu
    · exact hk n u hu
  | unregisterProcess p =>
    cases h
    exact hk

theorem known_reach {s : Server} (h : Reach step (fun _ _ => True) (· = boot) s) : s.Known :=
  h.inv Known (fun s hs n t ht => by rw [show s = boot from hs] at ht; cases ht) fun _ _ _ hk _ hst => known_step hk hst

/-- In every reachable state a managed datagram that does not identify its sender
leaves the registries and every thread alone exactly if it makes nothing and the
thread it names takes nothing from it. -/
theorem unidentified_unchanged_iff {s : Server} (hr : Reach step (fun _ _ => True) (· = boot) s) {w : World}
    {d : Datagram} {a : Announced} (hlen : Layout.size callhdr ≤ d.data.length)
    (ha : announced (d.header w).number = some a) (hm : (d.header w).number.testBit 31 = false) :
    (¬Identifies s d.pid (d.header w) → Unchanged s (callFromMessage w s d).server) ↔
      (¬Identifies s d.pid (d.header w) → NoEffect w s d a) := by
  have hserver : (callFromMessage w s d).server = (handleManaged w s d a).server := by
    simp [callFromMessage, Nat.not_lt.2 hlen, ha, hm]
  rw [hserver, unchanged_iff (known_reach hr)]

/-- Two processes check in, each with one thread. -/
def checkedIn : List Event :=
  [.datagram granting (smallDatagram 1 7 7 (List.replicate 24 0) 70 5),
    .datagram granting (smallDatagram 1 8 8 (List.replicate 24 0) 80 6)]

/-- A call of the second process under the first one's PID. -/
def borrowed : Datagram := smallDatagram 5 7 8 [] 80 6

theorem unidentified_unchanged_iff_checkedIn : ∃ s a, exec step (fun _ _ => true) boot checkedIn = some s ∧
    announced (borrowed.header granting).number = some a ∧
    ¬Identifies s borrowed.pid (borrowed.header granting) ∧
    ((¬Identifies s borrowed.pid (borrowed.header granting) →
        Unchanged s (callFromMessage granting s borrowed).server) ↔
      (¬Identifies s borrowed.pid (borrowed.header granting) → NoEffect granting s borrowed a)) := by
  refine ⟨_, _, rfl, rfl, fun h => ?_, unidentified_unchanged_iff (w := granting) (d := borrowed)
    (exec_reach (fun _ _ _ => trivial) (rfl : exec step (fun _ _ => true) boot checkedIn = some _) (.init rfl))
    ?_ rfl rfl⟩
  · exact absurd (show (70 : Int) = 80 from h.1) (by decide)
  · decide

/-- The second process names the first one's thread under its own PID: nothing
finds it out, its `interrupt_enter` waits on the other's thread, and the other's
replies go to it from then on. -/
theorem sender_acts_as_other :
    ¬ ∀ s w d a, Reach step (fun _ _ => True) (· = boot) s → Layout.size callhdr ≤ d.data.length →
      announced (d.header w).number = some a → (d.header w).number.testBit 31 = false →
      ¬Identifies s d.pid (d.header w) → Unchanged s (callFromMessage w s d).server := by
  intro h
  have hr : Reach step (fun _ _ => True) (· = boot) _ :=
    exec_reach (fun _ _ _ => trivial) (rfl : exec step (fun _ _ => true) boot checkedIn = some _) (.init rfl)
  have hu := h _ granting (smallDatagram 14 8 7 [] 80 6) _ hr (by decide) rfl rfl (fun hid => by
    have := hid.2 ⟨2, 1007, 7, ⟨1, 70, 7, 2⟩, false⟩ rfl
    exact absurd this (by decide))
  have hv := hu.visible ⟨2, 1007, 7, ⟨1, 70, 7, 2⟩, false⟩ (by decide)
  exact absurd (congrArg (fun v => v.2.2.1) hv) (by decide)

end Server

end DarlingServer
