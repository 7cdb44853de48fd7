import DarlingServer.Machine
/-!
# What a step does

`Effect` lists every way a critical section can end without a fault, with the
conditions it was taken under and the state it leaves. `core_effect` is the only
proof that looks into the code; the invariants are case analyses over `Effect`.
-/

namespace DarlingServer

open Thread

theorem bind_ok {α β : Type} {x : Except Fault α} {f : α → Except Fault β} {b : β} (h : x >>= f = .ok b) :
    ∃ a, x = .ok a ∧ f a = .ok b := by
  cases x with
  | error e => cases h
  | ok a => exact ⟨a, rfl, h⟩

theorem map_ok {α β : Type} {x : Except Fault α} {f : α → β} {b : β} (h : x.map f = .ok b) :
    ∃ a, x = .ok a ∧ f a = b := by
  cases x with
  | error e => cases h
  | ok a => exact ⟨a, rfl, Except.ok.inj h⟩

/-! ## The pieces -/

/-- The done-working section of `doWork`. -/
inductive DoneWorking (t : Thread) : Thread → Bool → Prop
  | idle : (t.terminating = false → t.dead = false → t.pendingInterrupts = []) →
      DoneWorking t
        { t with running := false, terminating := t.terminating || (t.dead && t.activeCall.isNone) } false
  | promote {i rest} : t.terminating = false → t.dead = false → t.pendingCall = none →
      t.pendingInterrupts = i :: rest →
      DoneWorking t { t with running := false, pendingCall := some i, pendingInterrupts := rest } true

theorem doneWorking_ok {t t' : Thread} {b : Bool} (h : t.doneWorking = .ok (t', b)) : DoneWorking t t' b := by
  simp only [Thread.doneWorking] at h
  split at h
  · cases h
    refine .idle fun ht hd => ?_
    simp_all
  · rename_i hn
    split at h
    · cases h
      exact .idle fun _ _ => ‹_›
    · split at h
      · cases h
      · cases h
        have hd : t.dead = false := by simp_all
        have ht : t.terminating = false := by simp_all
        have := DoneWorking.promote ht hd (by simp_all) ‹_›
        simpa [ht, hd] using this

/-- The reply of `c` is made, and ends up in one of four places. -/
inductive Answer (s : Local) (c : Call) : Local → Prop
  | saved {top rest} : s.th.interruptedForSignal = true → s.th.interrupts = top :: rest →
      top.interruptedCall = some c → top.savedReply = none →
      Answer s c { s with
        th := { s.th with interrupts := { top with interruptedCall := none, savedReply := some ⟨c⟩ } :: rest }
        handed := s.handed ++ [⟨c⟩] }
  | deferred : s.th.interruptedForSignal = false → s.th.activeCall = some c → s.th.deferReplyForS2C = true →
      Answer s c { s with
        th := { s.th with activeCall := none, deferredReply := some ⟨c⟩ }
        handed := s.handed ++ [⟨c⟩] }
  | sent : s.th.interruptedForSignal = false → s.th.activeCall = some c → s.th.deferReplyForS2C = false →
      s.th.dead = false →
      Answer s c { s with
        th := { s.th with activeCall := none }
        handed := s.handed ++ [⟨c⟩]
        sent := s.sent ++ [⟨c⟩]
        client := { s.client with wire := s.client.wire ++ [⟨c⟩] } }
  | dropped : s.th.interruptedForSignal = false → s.th.activeCall = some c → s.th.deferReplyForS2C = false →
      s.th.dead = true →
      Answer s c { s with
        th := { s.th with activeCall := none }
        handed := s.handed ++ [⟨c⟩]
        dropped := s.dropped ++ [⟨c⟩] }

theorem deactivateCallLocked_ok {t t' : Thread} {c : Call} (h : t.deactivateCallLocked c = .ok t') :
    (∃ top rest, t.interruptedForSignal = true ∧ t.interrupts = top :: rest ∧ top.interruptedCall = some c ∧
      t' = { t with interrupts := { top with interruptedCall := none } :: rest }) ∨
    (t.interruptedForSignal = false ∧ t.activeCall = some c ∧ t' = { t with activeCall := none }) := by
  simp only [deactivateCallLocked] at h
  split at h
  · split at h
    · cases h
    · split at h
      · cases h
        exact .inl ⟨_, _, ‹_›, ‹_›, ‹_›, rfl⟩
      · cases h
  · split at h
    · cases h
      exact .inr ⟨by simp_all, ‹_›, rfl⟩
    · cases h

theorem answer_ok {s x : Local} {c : Call} (h : s.answer c = .ok x) : Answer s c x := by
  obtain ⟨⟨t, d⟩, hp, h⟩ := bind_ok h
  obtain ⟨t₁, h₁, h₂⟩ := bind_ok hp
  obtain ⟨top, rest, hi, hr, hc, rfl⟩ | ⟨hi, hc, rfl⟩ := deactivateCallLocked_ok h₁
  · rw [deliverReply, if_pos hi] at h₂
    dsimp only at h₂
    split at h₂
    · cases h₂
    · cases h₂
      cases h
      exact .saved hi hr hc (by simp_all)
  · rw [deliverReply, if_neg (by simp [hi])] at h₂
    split at h₂
    · cases h₂
      cases h
      exact .deferred hi hc ‹_›
    · split at h₂
      · cases h₂
        cases h
        exact .sent hi hc (by simp_all) (by simp_all)
      · cases h₂
        cases h
        exact .dropped hi hc (by simp_all) (by simp_all)

/-- Code that is done goes to the top, returns to the handler's frame, or jumps to the handler. -/
inductive Leave (s : Local) (exit : Exit) : Local → Prop
  | top : s.th.returnsToHandler s.cur.frame exit = false → Leave s exit { s with phase := .returning }
  | unwind : s.cur.frame = .handler → exit = .byReturn →
      Leave s exit { s with cur := { s.cur with frame := .worker }, phase := .returned }
  | jump {ctx} : s.th.returnsToHandler s.cur.frame exit = true → ¬(s.cur.frame = .handler ∧ exit = .byReturn) →
      s.th.syscallReturnHereDuringInterrupt = some ctx → ctx.stack ∉ s.freed →
      Leave s exit { s with
        th := { s.th with didSyscallReturnDuringInterrupt := true }
        cur := ctx
        phase := .returned }

theorem setcontext_ok {s x : Local} {ctx : Option Context} {p : Phase} (h : s.setcontext ctx p = .ok x) :
    ∃ c, ctx = some c ∧ c.stack ∉ s.freed ∧ x = { s with cur := c, phase := p } := by
  unfold Local.setcontext at h
  split at h
  · cases h
  · split at h
    · cases h
    · cases h
      exact ⟨_, rfl, ‹_›, rfl⟩

theorem leave_ok {s x : Local} {exit : Exit} (h : s.leave exit = .ok x) : Leave s exit x := by
  unfold Local.leave at h
  split at h
  · split at h
    · cases h
      rename_i hf
      exact .unwind hf.1 hf.2
    · obtain ⟨ctx, hc, hs, rfl⟩ := setcontext_ok h
      exact .jump ‹_› ‹_› hc hs
  · cases h
    exact .top (by simp_all)

/-! ## The labels -/

/-- A section labelled `l` that takes `s` to the given state, and whether it schedules the thread. -/
inductive Effect (s : Local) : Label → Local → Bool → Prop
  | recv {n} : s.th.pendingCall = none →
      Effect s (.recv n) { s with
        th := { s.th with pendingCall := some ⟨s.nextCall, n⟩ }
        nextCall := s.nextCall + 1
        client := s.client.send ⟨s.nextCall, n⟩ } false
  | recvQueued {c} : s.th.pendingCall = some c →
      Effect s (.recv .interruptEnter) { s with
        th := { s.th with pendingInterrupts := s.th.pendingInterrupts ++ [⟨s.nextCall, .interruptEnter⟩] }
        nextCall := s.nextCall + 1
        client := s.client.send ⟨s.nextCall, .interruptEnter⟩ } false
  | push : Effect s .push s false
  | resumePush : Effect s .resumePush s false
  | popDeferred : s.th.deferralState ≠ .notDeferred →
      Effect s .pop { s with th := { s.th with deferralState := .deferredPending } } false
  | popRunning : s.th.deferralState = .notDeferred → s.th.running = true → Effect s .pop s false
  | popDone : s.th.deferralState = .notDeferred → s.th.running = false →
      (s.th.terminating = true ∨ s.th.dead = true ∧ s.th.activeCall = none) →
      Effect s .pop { s with th := { s.th with running := false, terminating := true }, phase := .off } false
  | popEntered : s.th.deferralState = .notDeferred → s.th.running = false → s.th.terminating = false →
      (s.th.dead = true → s.th.activeCall ≠ none) →
      Effect s .pop { s with th := { s.th with running := true }, phase := .entered } false
  | resumeContinuation {k} : s.phase = .entered → s.th.suspended = true → s.th.pendingCall = none →
      s.th.continuationCallback = some k → s.th.stack = none →
      Effect s .dispatch { s with
        th := { s.th with suspended := false, stack := some s.nextStack, continuationCallback := none }
        nextStack := s.nextStack + 1
        cur := ⟨s.nextStack, .continuation, none⟩
        phase := .body } false
  | resumeContext {ctx} : s.phase = .entered → s.th.suspended = true →
      (s.th.pendingCallOverride = true ∨ s.th.pendingCall = none) → s.th.continuationCallback = none →
      s.th.stack ≠ none → s.th.resumeContext = some ctx → ctx.stack ∉ s.freed →
      Effect s .dispatch { s with th := { s.th with suspended := false }, cur := ctx, phase := .body } false
  | startCall {c} : s.phase = .entered → s.th.pendingCall = some c →
      (s.th.pendingCallOverride = true ∨ c.number ≠ .interruptEnter) → s.th.continuationCallback = none →
      (s.th.suspended = true → s.th.pendingCallOverride = false) →
      Effect s .dispatch { s with
        th := { s.th with suspended := false, stack := some s.nextStack }
        freed := s.freed ++ s.th.stack.toList
        nextStack := s.nextStack + 1
        cur := ⟨s.nextStack, .worker, none⟩
        phase := .starting } false
  | startInterrupt {c} : s.phase = .entered → s.th.pendingCall = some c → s.th.pendingCallOverride = false →
      c.number = .interruptEnter →
      Effect s .dispatch { s with
        th := { s.th with
          suspended := false
          stack := some s.nextStack
          interrupts := { savedStack := s.th.stack, interruptedCall := s.th.activeCall } :: s.th.interrupts
          interruptedContinuation := s.th.continuationCallback
          continuationCallback := none
          activeCall := none }
        nextStack := s.nextStack + 1
        cur := ⟨s.nextStack, .worker, none⟩
        phase := .starting } false
  | dispatchDone {t b} : s.phase = .entered → s.th.suspended = false → s.th.pendingCall = none →
      DoneWorking s.th t b → Effect s .dispatch { s with th := t, phase := .off } b
  | activate {c} : s.phase = .starting → s.th.pendingCall = some c →
      Effect s .activate { s with
        th := { s.th with activeCall := some c, pendingCall := none }
        cur := { s.cur with call := some c }
        phase := if c.number = .interruptEnter then .interrupting else .body } false
  | suspend {k} : s.phase = .body →
      Effect s (.suspend k) { s with
        th := { s.th with suspended := true, resumeContext := some s.cur }
        phase := .suspending k } false
  | commit {k} : s.phase = .suspending k → s.th.suspended = true →
      Effect s .commit { s with
        th := { s.th with continuationCallback := k.or s.th.continuationCallback }
        phase := .returning } false
  | commitResumed {k} : s.phase = .suspending k → s.th.suspended = false →
      Effect s .commit { s with phase := .body } false
  | resume : Effect s .resume s s.th.suspended
  | replyReturn {c x y} : s.phase = .body ∨ s.phase = .answering → s.cur.frame = .worker →
      s.cur.call = some c → c.number ≠ .checkout → c.number ≠ .interruptExit →
      Answer s c x → Leave x .byReturn y → Effect s (.reply .byReturn) y false
  | replyExit {c x} : s.phase = .body ∨ s.phase = .answering → s.cur.frame = .worker →
      s.cur.call = some c → c.number = .interruptExit →
      Answer s c x → Effect s (.reply .byReturn) { x with phase := .exiting } false
  | syscallReturn {c x y} : s.phase = .body → s.th.currentCall = .ok (some c) → c.isXNUTrap = true →
      Answer s c x → Leave x .bySyscallReturn y → Effect s (.reply .bySyscallReturn) y false
  | replyDirect {c y} : s.phase = .body → s.cur.frame = .worker → s.cur.call = some c → c.number = .checkout →
      Leave { s with
        handed := s.handed ++ [⟨c⟩]
        sent := s.sent ++ [⟨c⟩]
        client := { s.client with wire := s.client.wire ++ [⟨c⟩] } } .byReturn y →
      Effect s .replyDirect y false
  | finish {y} : s.phase = .body → s.cur.frame ≠ .worker → Leave s .byReturn y → Effect s .finish y false
  | interruptContinuation {top rest k} : s.phase = .interrupting → s.th.interrupts = top :: rest →
      (s.th.pendingSavedReply = none ∨ top.savedReply = none) → s.th.interruptedContinuation = some k →
      Effect s .interruptBegin { s with
        th := { s.th with
          interrupts := { top with savedReply := s.th.pendingSavedReply.or top.savedReply } :: rest
          pendingSavedReply := none
          interruptedForSignal := true
          interruptedContinuation := none
          didSyscallReturnDuringInterrupt := false
          syscallReturnHereDuringInterrupt := some s.cur }
        cur := { s.cur with frame := .handler }
        phase := .body } false
  | interruptJump {top rest a ctx} : s.phase = .interrupting → s.th.interrupts = top :: rest →
      (s.th.pendingSavedReply = none ∨ top.savedReply = none) → s.th.interruptedContinuation = none →
      top.interruptedCall = some a → s.th.resumeContext = some ctx → ctx.stack ∉ s.freed →
      Effect s .interruptBegin { s with
        th := { s.th with
          interrupts := { top with savedReply := s.th.pendingSavedReply.or top.savedReply } :: rest
          pendingSavedReply := none
          interruptedForSignal := true
          interruptedContinuation := none
          didSyscallReturnDuringInterrupt := false
          syscallReturnHereDuringInterrupt := some s.cur
          handlingInterruptedCall := true
          pendingCallOverride := true }
        cur := ctx
        phase := .body } false
  | interruptNothing {top rest} : s.phase = .interrupting → s.th.interrupts = top :: rest →
      (s.th.pendingSavedReply = none ∨ top.savedReply = none) → s.th.interruptedContinuation = none →
      top.interruptedCall = none →
      Effect s .interruptBegin { s with
        th := { s.th with
          interrupts := { top with savedReply := s.th.pendingSavedReply.or top.savedReply } :: rest
          pendingSavedReply := none
          interruptedForSignal := true
          interruptedContinuation := none
          didSyscallReturnDuringInterrupt := false
          syscallReturnHereDuringInterrupt := some s.cur }
        phase := .returned } false
  | interruptEnd {top rest back} : s.phase = .returned → s.th.interrupts = top :: rest →
      back = (s.th.didSyscallReturnDuringInterrupt && s.th.handlingInterruptedCall) →
      Effect s .interruptEnd { s with
        th := { s.th with
          handlingInterruptedCall := s.th.handlingInterruptedCall && !back
          pendingCallOverride := s.th.pendingCallOverride && !back
          interrupts := { top with savedStack := none, interruptedCall := none } :: rest
          interruptedForSignal := false }
        freed := s.freed ++ top.savedStack.toList
        phase := .answering } false
  | exitPop {top rest y} : s.phase = .exiting → s.th.interrupts = top :: rest → top.savedReply = none →
      Leave { s with th := { s.th with interrupts := rest } } .byReturn y → Effect s .exitPop y false
  | exitPopSaved {top rest m y} : s.phase = .exiting → s.th.interrupts = top :: rest → top.savedReply = some m →
      Leave { s with
        th := { s.th with interrupts := rest }
        sent := s.sent ++ [m]
        client := { s.client with wire := s.client.wire ++ [m] } } .byReturn y →
      Effect s .exitPop y false
  | doneFree {st t b} : s.phase = .returning → (s.th.suspended = false ∨ s.th.continuationCallback ≠ none) →
      s.th.stack = some st → DoneWorking { s.th with stack := none } t b →
      Effect s .done { s with th := t, freed := s.freed ++ [st], phase := .off } b
  | doneKeep {t b} : s.phase = .returning → s.th.suspended = true → s.th.continuationCallback = none →
      DoneWorking s.th t b → Effect s .done { s with th := t, phase := .off } b
  | receive {k} : s.client.receive = some k → Effect s .receive { s with client := k } false
  | pushPending {m i} : s.th.pendingCall = some i → i.number = .interruptEnter →
      Effect s (.pushReply m) { s with
        th := { s.th with pendingSavedReply := some m }
        client := { s.client with pushing := none } } false
  | pushTop {m top rest} : (∀ c, s.th.pendingCall = some c → c.number ≠ .interruptEnter) →
      s.th.interrupts = top :: rest → top.savedReply = none →
      Effect s (.pushReply m) { s with
        th := { s.th with interrupts := { top with savedReply := some m } :: rest }
        client := { s.client with pushing := none } } false
  | s2cDefer : s.th.activeCall ≠ none →
      Effect s .s2cDefer { s with th := { s.th with deferReplyForS2C := true } } false
  | s2cIdle : s.th.deferReplyForS2C = false → Effect s .s2cRelease s false
  | s2cClear : s.th.deferReplyForS2C = true → s.th.deferredReply = none →
      Effect s .s2cRelease { s with th := { s.th with deferReplyForS2C := false, deferredReply := none } } false
  | s2cFlush {m} : s.th.deferReplyForS2C = true → s.th.deferredReply = some m →
      Effect s .s2cRelease { s with
        th := { s.th with deferReplyForS2C := false, deferredReply := none }
        sent := s.sent ++ [m]
        client := { s.client with wire := s.client.wire ++ [m] } } false
  | defer {d} : (d = s.th.deferralState ∨ d = .deferredNotPending ∧ s.th.deferralState = .notDeferred) →
      d ≠ .notDeferred → Effect s .defer { s with th := { s.th with deferralState := d } } false
  | undefer : Effect s .undefer { s with th := { s.th with deferralState := .notDeferred } }
      (s.th.deferralState = .deferredPending)
  | impersonate {d} : s.phase = .off →
      (d = s.th.deferralState ∨ d = .deferredNotPending ∧ s.th.deferralState = .notDeferred) → d ≠ .notDeferred →
      Effect s .impersonate { s with
        th := { s.th with deferralState := d, running := true }
        phase := .impersonated } false
  | claim : s.phase = .off →
      Effect s .claim { s with th := { s.th with running := true }, phase := .impersonated } false
  | unimpersonate : s.phase = .impersonated →
      Effect s .unimpersonate { s with
        th := { s.th with deferralState := .notDeferred, running := false }
        phase := .off } (s.th.deferralState = .deferredPending)
  | notifyDead {tm} : (tm = s.th.terminating ∨ tm = true ∧ s.th.activeCall = none) →
      Effect s .notifyDead { s with th := { s.th with dead := true, terminating := tm } } false
  | terminate : s.client.user = false →
      Effect s .terminate { s with th := { s.th with terminating := true } } false

/-! ## Every section is one of these -/

theorem local_doneWorking_ok {s x : Local} {b : Bool} (h : s.doneWorking = .ok (x, b)) :
    ∃ t, DoneWorking s.th t b ∧ x = { s with th := t, phase := .off } := by
  obtain ⟨⟨t, b'⟩, ht, h⟩ := bind_ok h
  cases h
  exact ⟨t, doneWorking_ok ht, rfl⟩

theorem recv_effect {s x : Local} {n : Number} (h : s.recv n = .ok x) : Effect s (.recv n) x false := by
  obtain ⟨t, ht, h⟩ := bind_ok h
  cases h
  unfold setPendingCall at ht
  split at ht
  · rename_i hp
    obtain ⟨c, hc⟩ := Option.isSome_iff_exists.1 hp
    split at ht
    · rename_i hn
      cases ht
      dsimp only at hn
      subst hn
      exact .recvQueued hc
    · cases ht
  · cases ht
    exact .recv (by simp_all)

theorem pop_effect {s x : Local} {b : Bool} (h : s.pop = .ok (x, b)) : Effect s .pop x b := by
  unfold Local.pop doWorkEntry at h
  by_cases hd : s.th.deferralState = .notDeferred
  · by_cases hr : s.th.running = true
    · simp only [hd, hr] at h
      cases h
      exact .popRunning hd hr
    · have hr : s.th.running = false := by simpa using hr
      by_cases ht : s.th.terminating = true
      · rw [if_neg (by simp [hd]), if_neg (by simp [hr]), if_pos ht] at h
        obtain ⟨t, hw, rfl⟩ := local_doneWorking_ok h
        cases hw with
        | idle _ =>
          have := Effect.popDone hd hr (.inl ht)
          simpa [ht] using this
        | promote hf => simp_all
      · have ht : s.th.terminating = false := by simpa using ht
        by_cases ha : s.th.dead = true ∧ s.th.activeCall = none
        · rw [if_neg (by simp [hd]), if_neg (by simp [hr]), if_neg (by simp [ht]), if_pos (by simp [ha])] at h
          obtain ⟨t, hw, rfl⟩ := local_doneWorking_ok h
          cases hw with
          | idle _ => exact .popDone hd hr (.inr ha)
          | promote hf => cases hf
        · rw [if_neg (by simp [hd]), if_neg (by simp [hr]), if_neg (by simp [ht]), if_neg (by simpa using ha)] at h
          cases h
          exact .popEntered hd hr ht fun hx hn => ha ⟨hx, hn⟩
  · rw [if_pos hd] at h
    cases h
    exact .popDeferred hd

/-- A pending `interrupt_enter` is started, over a new record, whatever else the thread was at. -/
theorem doWorkDispatch_interrupt {t : Thread} {c : Call} (hc : t.pendingCall = some c)
    (hn : c.number = .interruptEnter) (ho : t.pendingCallOverride = false) :
    t.doWorkDispatch = .ok ({ t with
      suspended := false
      interrupts := { savedStack := t.stack, interruptedCall := t.activeCall } :: t.interrupts
      stack := none
      interruptedContinuation := t.continuationCallback
      continuationCallback := none
      activeCall := none }, .startCall) := by
  have hb : t.beginInterrupt = { t with
      interrupts := { savedStack := t.stack, interruptedCall := t.activeCall } :: t.interrupts
      stack := none
      interruptedContinuation := t.continuationCallback
      continuationCallback := none
      activeCall := none } := if_pos ⟨ho, by simp [hc, hn]⟩
  simp [doWorkDispatch, hb, hc, ho]

/-- The dispatch of a thread with no `interrupt_enter` to begin. -/
theorem doWorkDispatch_ok {t t' : Thread} {d : Dispatch} (h : t.doWorkDispatch = .ok (t', d))
    (hn : t.beginInterrupt = t) :
    (t.suspended = true ∧ t.pendingCall = none ∧ (∃ k, t.continuationCallback = some k) ∧
      t' = { t with suspended := false } ∧ d = .resumeContinuation) ∨
    (t.suspended = true ∧ (t.pendingCallOverride = true ∨ t.pendingCall = none) ∧ t.continuationCallback = none ∧
      t' = { t with suspended := false } ∧ d = .resumeContext) ∨
    (t.suspended = false ∧ t.pendingCall = none ∧ t' = t ∧ d = .doneWorking) ∨
    ((∃ c, t.pendingCall = some c) ∧ (t.suspended = true → t.pendingCallOverride = false) ∧
      t.continuationCallback = none ∧ t' = { t with suspended := false } ∧ d = .startCall) := by
  simp only [doWorkDispatch, hn] at h
  split at h
  · cases h
  · rename_i hc
    cases hk : t.continuationCallback <;> cases hp : t.pendingCall <;> simp only [hk, hp] at hc h
    · split at h <;> cases h <;> simp_all
    · split at h <;> cases h <;> simp_all
    · split at h <;> cases h <;> simp_all
    · simp at hc

theorem dispatch_effect {s x : Local} {b : Bool} (hp : s.phase = .entered) (h : s.dispatch = .ok (x, b)) :
    Effect s .dispatch x b := by
  obtain ⟨⟨t, d⟩, hd, h⟩ := bind_ok h
  obtain ⟨⟨t', old⟩, hs, h⟩ := bind_ok h
  by_cases hi : s.th.pendingCallOverride = false ∧ s.th.pendingCall.map (·.number) = some .interruptEnter
  · obtain ⟨c, hc, hn⟩ := Option.map_eq_some_iff.1 hi.2
    rw [doWorkDispatch_interrupt hc hn hi.1] at hd
    cases hd
    cases hs
    cases h
    simpa [Local.free] using Effect.startInterrupt hp hc hi.1 hn
  · obtain ⟨hsu, hpe, ⟨k, hk⟩, rfl, rfl⟩ | ⟨hsu, ho, hk, rfl, rfl⟩ | ⟨hsu, hpe, rfl, rfl⟩ |
      ⟨⟨c, hc⟩, ho, hk, rfl, rfl⟩ := doWorkDispatch_ok hd (if_neg hi)
    · simp only [switchStack] at hs
      split at hs
      · cases hs
      · rename_i hst
        cases hs
        cases h
        simpa [Local.free] using Effect.resumeContinuation hp hsu hpe hk (by simpa using hst)
    · simp only [switchStack] at hs
      split at hs
      · rename_i hst
        cases hs
        obtain ⟨y, hy, h⟩ := bind_ok h
        obtain ⟨ctx, hctx, hf, rfl⟩ := setcontext_ok hy
        cases h
        simp only [Local.free, Option.toList_none, List.append_nil] at hf hctx ⊢
        exact .resumeContext hp hsu ho hk (Option.isSome_iff_ne_none.1 hst) hctx hf
      · cases hs
    · cases hs
      obtain ⟨t, hw, rfl⟩ := local_doneWorking_ok h
      simpa [Local.free] using Effect.dispatchDone hp hsu hpe hw
    · cases hs
      cases h
      refine .startCall hp hc ?_ hk ho
      simpa [hc, Decidable.or_iff_not_imp_left] using hi

theorem activate_effect {s x : Local} (hp : s.phase = .starting) (h : s.activate = .ok x) :
    Effect s .activate x false := by
  obtain ⟨⟨t, c⟩, ht, h⟩ := bind_ok h
  cases h
  unfold makePendingCallActive at ht
  split at ht
  · cases ht
  · cases ht
    exact .activate hp ‹_›

theorem commit_effect {s : Local} {k : Option Continuation} (hp : s.phase = .suspending k) :
    Effect s .commit (s.commit k) false := by
  unfold Local.commit suspendCommit
  by_cases hs : s.th.suspended = true
  · rw [if_pos hs]
    cases k <;> exact .commit hp hs
  · rw [if_neg hs]
    exact .commitResumed hp (by simpa using hs)

theorem replyByReturn_effect {s x : Local} {c : Call} (hp : s.phase = .body ∨ s.phase = .answering)
    (hf : s.cur.frame = .worker) (hc : s.cur.call = some c) (hn : c.number ≠ .checkout)
    (h : s.replyByReturn c = .ok x) : Effect s (.reply .byReturn) x false := by
  obtain ⟨y, hy, h⟩ := bind_ok h
  split at h
  · cases h
    exact .replyExit hp hf hc ‹_› (answer_ok hy)
  · exact .replyReturn hp hf hc hn ‹_› (answer_ok hy) (leave_ok h)

theorem syscallReturn_effect {s x : Local} (hp : s.phase = .body) (h : s.syscallReturn = .ok x) :
    Effect s (.reply .bySyscallReturn) x false := by
  obtain ⟨c, hc, h⟩ := bind_ok h
  cases c with
  | none => cases h
  | some c =>
    dsimp only at h
    split at h
    · obtain ⟨y, hy, h⟩ := bind_ok h
      exact .syscallReturn hp hc ‹_› (answer_ok hy) (leave_ok h)
    · cases h

theorem interruptBegin_effect {s x : Local} (hp : s.phase = .interrupting) (h : s.interruptBegin = .ok x) :
    Effect s .interruptBegin x false := by
  obtain ⟨⟨t, r⟩, ht, h⟩ := bind_ok h
  unfold interruptEnterBegin at ht
  split at ht
  · cases ht
  · rename_i top rest hr
    split at ht
    · cases ht
    · rename_i hsv
      have hsv : s.th.pendingSavedReply = none ∨ top.savedReply = none := by
        cases hq : s.th.pendingSavedReply <;> simp_all
      dsimp only at ht
      split at ht
      · rename_i hk
        obtain ⟨k, hk⟩ := Option.isSome_iff_exists.1 hk
        cases ht
        cases h
        exact .interruptContinuation hp hr hsv hk
      · rename_i hk
        have hk : s.th.interruptedContinuation = none := by simpa using hk
        split at ht
        · rename_i ha
          obtain ⟨a, ha⟩ := Option.isSome_iff_exists.1 ha
          cases ht
          obtain ⟨ctx, hctx, hf, rfl⟩ := setcontext_ok h
          exact .interruptJump hp hr hsv hk ha hctx hf
        · cases ht
          cases h
          exact .interruptNothing hp hr hsv hk (by simp_all)

theorem interruptEnd_effect {s x : Local} (hp : s.phase = .returned) (h : s.interruptEnd = .ok x) :
    Effect s .interruptEnd x false := by
  obtain ⟨⟨t, old⟩, ht, h⟩ := bind_ok h
  cases h
  unfold interruptEnterEnd at ht
  dsimp only at ht
  split at ht
  · cases ht
  · cases ht
    exact .interruptEnd hp ‹_› rfl

theorem exitPop_effect {s x : Local} (hp : s.phase = .exiting) (h : s.exitPop = .ok x) :
    Effect s .exitPop x false := by
  obtain ⟨⟨t, saved⟩, ht, h⟩ := bind_ok h
  unfold exitInterrupt at ht
  split at ht
  · cases ht
  · rename_i top rest hr
    cases ht
    cases hm : top.savedReply with
    | none => exact .exitPop hp hr hm (leave_ok (by simpa [hm] using h))
    | some m => exact .exitPopSaved hp hr hm (leave_ok (by simpa [hm, Local.sendMessage] using h))

theorem done_effect {s x : Local} {b : Bool} (hp : s.phase = .returning) (h : s.done = .ok (x, b)) :
    Effect s .done x b := by
  obtain ⟨⟨t, old⟩, ht, h⟩ := bind_ok h
  obtain ⟨t', hw, rfl⟩ := local_doneWorking_ok h
  unfold returnToTop at ht
  split at ht
  · rename_i hs
    split at ht
    · rename_i hst
      obtain ⟨st, hst⟩ := Option.isSome_iff_exists.1 hst
      cases ht
      have hs : s.th.suspended = false ∨ s.th.continuationCallback ≠ none := by
        simpa [Option.isSome_iff_ne_none] using hs
      simpa [Local.free, hst] using Effect.doneFree hp hs hst hw
    · cases ht
  · rename_i hs
    cases ht
    simp only [Bool.or_eq_true, Bool.not_eq_true', Option.isSome_iff_ne_none, not_or, Bool.not_eq_false,
      ne_eq, not_not] at hs
    simpa [Local.free] using Effect.doneKeep hp hs.1 hs.2 hw

theorem pushReply_effect {s x : Local} {m : Message} (h : s.pushReply m = .ok x) :
    Effect s (.pushReply m) x false := by
  obtain ⟨t, ht, h⟩ := bind_ok h
  cases h
  unfold Thread.pushReply at ht
  split at ht
  · rename_i hi
    obtain ⟨i, hc, hn⟩ := Option.map_eq_some_iff.1 hi
    cases ht
    exact .pushPending hc hn
  · rename_i hi
    split at ht
    · cases ht
    · split at ht
      · cases ht
      · cases ht
        exact .pushTop (fun c hc hn => hi (by simp [hc, hn])) ‹_› (by simp_all)

theorem s2cRelease_effect (s : Local) : Effect s .s2cRelease s.s2cRelease false := by
  unfold Local.s2cRelease Thread.s2cRelease
  by_cases hd : s.th.deferReplyForS2C = true
  · rw [if_pos hd]
    cases hm : s.th.deferredReply with
    | none => exact .s2cClear hd hm
    | some m => exact .s2cFlush hd hm
  · rw [if_neg hd]
    exact .s2cIdle (by simpa using hd)

theorem defer_effect {t : Thread} : t.defer = { t with deferralState := t.defer.deferralState } ∧
    (t.defer.deferralState = t.deferralState ∨
      t.defer.deferralState = .deferredNotPending ∧ t.deferralState = .notDeferred) ∧
    t.defer.deferralState ≠ .notDeferred := by
  unfold Thread.defer
  split
  · exact ⟨rfl, .inr ⟨rfl, ‹_›⟩, by simp⟩
  · exact ⟨rfl, .inl rfl, ‹_›⟩

theorem notifyDead_effect (s : Local) : Effect s .notifyDead { s with th := s.th.notifyDead } false := by
  unfold Thread.notifyDead
  split
  · rename_i hd
    have := Effect.notifyDead (s := s) (.inl rfl)
    rwa [show { s.th with dead := true, terminating := s.th.terminating } = s.th by rw [← hd]] at this
  · refine .notifyDead ?_
    cases s.th.activeCall <;> simp

theorem core_effect {s x : Local} {l : Label} {b : Bool} (h : s.core l = some (.ok (x, b))) : Effect s l x b := by
  cases l with
  | recv n =>
    obtain ⟨y, hy, h⟩ := map_ok (Option.some.inj h)
    cases h
    exact recv_effect hy
  | push => cases h; exact .push
  | resumePush => cases h; exact .resumePush
  | pop => exact pop_effect (Option.some.inj h)
  | dispatch =>
    obtain ⟨hp, h⟩ := Option.ite_none_right_eq_some.1 h
    exact dispatch_effect hp (Option.some.inj h)
  | activate =>
    obtain ⟨hp, h⟩ := Option.ite_none_right_eq_some.1 h
    obtain ⟨y, hy, h⟩ := map_ok (Option.some.inj h)
    cases h
    exact activate_effect hp hy
  | suspend k =>
    obtain ⟨hp, h⟩ := Option.ite_none_right_eq_some.1 h
    cases h
    exact .suspend hp
  | commit =>
    simp only [Local.core] at h
    split at h
    · cases h
      exact commit_effect ‹_›
    · cases h
  | resume => cases h; exact .resume
  | reply e =>
    cases e with
    | byReturn =>
      obtain ⟨hp, h⟩ := Option.ite_none_right_eq_some.1 h
      obtain ⟨c, hc, h⟩ := Option.map_eq_some_iff.1 h
      obtain ⟨hc, hn⟩ := Option.filter_eq_some_iff.1 hc
      obtain ⟨y, hy, h⟩ := map_ok h
      cases h
      exact replyByReturn_effect hp.1 hp.2 hc (by simpa using hn) hy
    | bySyscallReturn =>
      obtain ⟨hp, h⟩ := Option.ite_none_right_eq_some.1 h
      obtain ⟨y, hy, h⟩ := map_ok (Option.some.inj h)
      cases h
      exact syscallReturn_effect hp hy
  | replyDirect =>
    obtain ⟨hp, h⟩ := Option.ite_none_right_eq_some.1 h
    obtain ⟨c, hc, h⟩ := Option.map_eq_some_iff.1 h
    obtain ⟨hc, hn⟩ := Option.filter_eq_some_iff.1 hc
    obtain ⟨y, hy, h⟩ := map_ok h
    cases h
    exact .replyDirect hp.1 hp.2 hc (by simpa using hn) (leave_ok hy)
  | finish =>
    obtain ⟨hp, h⟩ := Option.ite_none_right_eq_some.1 h
    obtain ⟨y, hy, h⟩ := map_ok (Option.some.inj h)
    cases h
    exact .finish hp.1 hp.2 (leave_ok hy)
  | interruptBegin =>
    obtain ⟨hp, h⟩ := Option.ite_none_right_eq_some.1 h
    obtain ⟨y, hy, h⟩ := map_ok (Option.some.inj h)
    cases h
    exact interruptBegin_effect hp hy
  | interruptEnd =>
    obtain ⟨hp, h⟩ := Option.ite_none_right_eq_some.1 h
    obtain ⟨y, hy, h⟩ := map_ok (Option.some.inj h)
    cases h
    exact interruptEnd_effect hp hy
  | exitPop =>
    obtain ⟨hp, h⟩ := Option.ite_none_right_eq_some.1 h
    obtain ⟨y, hy, h⟩ := map_ok (Option.some.inj h)
    cases h
    exact exitPop_effect hp hy
  | done =>
    obtain ⟨hp, h⟩ := Option.ite_none_right_eq_some.1 h
    exact done_effect hp (Option.some.inj h)
  | receive =>
    obtain ⟨k, hk, h⟩ := Option.map_eq_some_iff.1 h
    cases h
    exact .receive hk
  | pushReply m =>
    obtain ⟨y, hy, h⟩ := map_ok (Option.some.inj h)
    cases h
    exact pushReply_effect hy
  | s2cDefer =>
    obtain ⟨hp, h⟩ := Option.ite_none_right_eq_some.1 h
    cases h
    exact .s2cDefer (Option.isSome_iff_ne_none.1 hp)
  | s2cRelease => cases h; exact s2cRelease_effect s
  | defer =>
    cases h
    obtain ⟨he, hd, hn⟩ := defer_effect (t := s.th)
    rw [he]
    exact .defer hd hn
  | undefer => cases h; exact .undefer
  | impersonate =>
    obtain ⟨hp, h⟩ := Option.ite_none_right_eq_some.1 h
    cases h
    obtain ⟨he, hd, hn⟩ := defer_effect (t := s.th)
    rw [he]
    exact .impersonate hp hd hn
  | claim =>
    simp only [Local.core] at h
    split at h
    · cases h
      exact .claim ‹_›
    · cases h
  | unimpersonate =>
    obtain ⟨hp, h⟩ := Option.ite_none_right_eq_some.1 h
    cases h
    exact .unimpersonate hp
  | notifyDead => cases h; exact notifyDead_effect s
  | terminate =>
    simp only [Local.core] at h
    split at h
    · cases h
    · cases h
      exact .terminate (by simp_all)

/-- A step is a fault, which leaves everything else as it was, or an effect. -/
theorem step_cases {s s' : State} {l : Label} (h : s.step l = some s') :
    s.loc.fault = none ∧ s.ready l = true ∧
    ((∃ f, s.loc.core l = some (.error f) ∧ s' = { s with loc := { s.loc with fault := some f } }) ∨
      ∃ x b, Effect s.loc l x b ∧ s' = s.account x b l) := by
  unfold State.step at h
  split at h
  · cases h
  · rename_i hn
    simp only [Bool.or_eq_true, Option.isSome_iff_ne_none, Bool.not_eq_true', not_or, ne_eq, not_not,
      Bool.not_eq_false] at hn
    refine ⟨hn.1, hn.2, ?_⟩
    split at h
    · cases h
    · cases h
      exact .inl ⟨_, ‹_›, rfl⟩
    · cases h
      exact .inr ⟨_, _, core_effect ‹_›, rfl⟩

@[simp] theorem account_loc (s : State) (x : Local) (b : Bool) (l : Label) : (s.account x b l).loc = x := by
  cases l <;> rfl

/-- An invariant that no fault can break is kept in every run if every effect keeps it. -/
theorem reach_inv {G : State → Label → Prop} (I : State → Prop) (h0 : ∀ s, State.Init s → I s)
    (hf : ∀ s f, I s → I { s with loc := { s.loc with fault := some f } })
    (he : ∀ s l x b, I s → G s l → s.ready l = true → Effect s.loc l x b → I (s.account x b l))
    {s : State} (h : Runs.Reach State.step G State.Init s) : I s := by
  refine h.inv I h0 fun s l s' hi hg hst => ?_
  obtain ⟨-, hr, ⟨f, -, rfl⟩ | ⟨x, b, he', rfl⟩⟩ := step_cases hst
  · exact hf s f hi
  · exact he s l x b hi hg hr he'

/-- The same for a machine that keeps a history. -/
theorem tracked_inv {H : Type*} {upd : State → Label → State → H → H} {G : State × H → Label → Prop}
    {init : State × H → Prop} (I : State × H → Prop) (h0 : ∀ p, init p → I p)
    (hf : ∀ s h l f, I (s, h) → G (s, h) l → s.loc.core l = some (.error f) →
      I ({ s with loc := { s.loc with fault := some f } },
        upd s l { s with loc := { s.loc with fault := some f } } h))
    (he : ∀ s h l x b, I (s, h) → G (s, h) l → s.loc.fault = none → s.ready l = true → Effect s.loc l x b →
      I (s.account x b l, upd s l (s.account x b l) h))
    {p : State × H} (h : Runs.Reach (Runs.track State.step upd) G init p) : I p := by
  refine h.inv I h0 fun p l p' hi hg hst => ?_
  obtain ⟨hs, hh⟩ := Runs.track_some hst
  obtain ⟨s, h⟩ := p
  obtain ⟨s', h'⟩ := p'
  dsimp only at hs hh
  subst hh
  obtain ⟨hn, hr, ⟨f, hc, rfl⟩ | ⟨x, b, he', rfl⟩⟩ := step_cases hs
  · exact hf s h l f hi hg hc
  · exact he s h l x b hi hg hn hr he'

/-! ## Answering and leaving -/

/-- What neither an answer nor a way out of the code touches. -/
structure Keeps (s x : Local) : Prop where
  running : x.th.running = s.th.running
  suspended : x.th.suspended = s.th.suspended
  dead : x.th.dead = s.th.dead
  terminating : x.th.terminating = s.th.terminating
  deferralState : x.th.deferralState = s.th.deferralState
  pendingCall : x.th.pendingCall = s.th.pendingCall
  pendingInterrupts : x.th.pendingInterrupts = s.th.pendingInterrupts
  nextCall : x.nextCall = s.nextCall
  user : x.client.user = s.client.user
  fault : x.fault = s.fault

theorem Keeps.trans {s x y : Local} (h : Keeps s x) (h' : Keeps x y) : Keeps s y where
  running := h'.running.trans h.running
  suspended := h'.suspended.trans h.suspended
  dead := h'.dead.trans h.dead
  terminating := h'.terminating.trans h.terminating
  deferralState := h'.deferralState.trans h.deferralState
  pendingCall := h'.pendingCall.trans h.pendingCall
  pendingInterrupts := h'.pendingInterrupts.trans h.pendingInterrupts
  nextCall := h'.nextCall.trans h.nextCall
  user := h'.user.trans h.user
  fault := h'.fault.trans h.fault

theorem answer_keeps {s x : Local} {c : Call} (ha : Answer s c x) : Keeps s x := by
  cases ha <;> constructor <;> rfl

theorem leave_keeps {s x : Local} {e : Exit} (hl : Leave s e x) : Keeps s x := by
  cases hl <;> constructor <;> rfl

theorem leave_phase {s x : Local} {e : Exit} (hl : Leave s e x) :
    x.phase = .returning ∨ x.phase = .returned ∨ x.phase = .exiting := by
  cases hl with
  | top => exact .inl rfl
  | unwind | jump => exact .inr (.inl rfl)

theorem leave_not_exiting {s x : Local} {e : Exit} (hl : Leave s e x) : x.phase ≠ .exiting := by
  cases hl with
  | top | unwind | jump => simp

/-- The sections of code that answers its call, or is over. -/
def Label.windsUp : Label → Bool
  | .reply _ | .replyDirect | .finish | .exitPop => true
  | _ => false

structure WindUp (s x : Local) : Prop extends Keeps s x where
  was : s.phase = .body ∨ s.phase = .answering ∨ s.phase = .exiting
  phase : x.phase = .returning ∨ x.phase = .returned ∨ x.phase = .exiting

theorem windUp_effect {s x : Local} {l : Label} {b : Bool} (he : Effect s l x b) (hl : l.windsUp = true) :
    WindUp s x := by
  cases he with
  | replyReturn hp _ _ _ _ ha hy =>
    exact ⟨(answer_keeps ha).trans (leave_keeps hy), hp.imp_right .inl, leave_phase hy⟩
  | syscallReturn hp _ _ ha hy => exact ⟨(answer_keeps ha).trans (leave_keeps hy), .inl hp, leave_phase hy⟩
  | replyExit hp _ _ _ ha =>
    exact ⟨(answer_keeps ha).trans (by constructor <;> rfl), hp.imp_right .inl, .inr (.inr rfl)⟩
  | replyDirect hp _ _ _ hy =>
    exact ⟨.trans (by constructor <;> rfl) (leave_keeps hy), .inl hp, leave_phase hy⟩
  | finish hp _ hy => exact ⟨leave_keeps hy, .inl hp, leave_phase hy⟩
  | exitPop hp _ _ hy | exitPopSaved hp _ _ hy =>
    exact ⟨.trans (by constructor <;> rfl) (leave_keeps hy), .inr (.inr hp), leave_phase hy⟩
  | _ => cases hl

/-- Such a section schedules nothing. -/
theorem account_windsUp {s : State} {x : Local} {l : Label} {b : Bool} (he : Effect s.loc l x b)
    (hl : l.windsUp = true) : s.account x b l = { s with loc := x } := by
  cases he <;> first | rfl | cases hl

theorem fault_effect {s x : Local} {l : Label} {b : Bool} (he : Effect s l x b) : x.fault = s.fault := by
  have hwind := windUp_effect he
  cases he with
  | replyReturn | syscallReturn | replyExit | replyDirect | finish | exitPop | exitPopSaved => exact (hwind rfl).fault
  | _ => rfl

/-- A worker is in `doWork` for the thread, or somebody impersonates it, exactly
while it is marked running. -/
theorem running_effect {s x : Local} {l : Label} {b : Bool} (hi : s.th.running = true ↔ s.phase ≠ .off)
    (he : Effect s l x b) : x.th.running = true ↔ x.phase ≠ .off := by
  by_cases hl : l.windsUp = true
  · have hw := windUp_effect he hl
    rw [hw.running, hi]
    rcases hw.was with hs | hs | hs <;> rcases hw.phase with hx | hx | hx <;> simp [hs, hx]
  cases he with
  | dispatchDone _ _ _ hw | doneFree _ _ _ hw | doneKeep _ _ _ hw => cases hw <;> simp
  | activate => simp_all; split <;> simp
  | replyReturn | syscallReturn | replyExit | replyDirect | finish | exitPop | exitPopSaved => exact absurd rfl hl
  | _ => simp_all

theorem running_init {s : State} (h : s.Init) : s.loc.th.running = true ↔ s.loc.phase ≠ .off := by
  rcases h with rfl | ⟨k, rfl⟩ <;> simp [setupKernelThread]

theorem running_iff {G : State → Label → Prop} {s : State} (h : Runs.Reach State.step G State.Init s) :
    s.loc.th.running = true ↔ s.loc.phase ≠ .off := by
  refine reach_inv (fun s => s.loc.th.running = true ↔ s.loc.phase ≠ .off) (fun _ => running_init)
    (fun _ _ hi => hi) (fun s l x b hi _ _ he => ?_) h
  rw [account_loc]
  exact running_effect hi he

end DarlingServer
