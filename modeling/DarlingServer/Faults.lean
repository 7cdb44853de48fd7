import DarlingServer.Protocol
import DarlingServer.System
/-!
# Why a section throws

`Throws` lists the conditions under which a critical section ends in a fault, as
`Effect` does for those that do not. With it, the scheduler's own internal errors
are shown out of reach for a client that keeps one call outstanding and does not
interrupt a call that is still queued behind the previous one.
-/

namespace DarlingServer

open Thread Runs

theorem bind_error {α β : Type} {x : Except Fault α} {f : α → Except Fault β} {e : Fault} (h : x >>= f = .error e) :
    x = .error e ∨ ∃ a, x = .ok a ∧ f a = .error e := by
  cases x with
  | error e' => exact .inl (congrArg _ (Except.error.inj h))
  | ok a => exact .inr ⟨a, rfl, h⟩

theorem map_error {α β : Type} {x : Except Fault α} {f : α → β} {e : Fault} (h : x.map f = .error e) :
    x = .error e := by
  cases x with
  | error e' => exact congrArg _ (Except.error.inj h)
  | ok a => cases h

/-! ## The pieces -/

/-- `pushCallReply` for `c` throws. -/
inductive BadAnswer (t : Thread) (c : Call) : Fault → Prop
  | noRecord : t.interruptedForSignal = true → t.interrupts = [] → BadAnswer t c .emptyInterrupts
  | notInterrupted {top rest} : t.interruptedForSignal = true → t.interrupts = top :: rest →
      top.interruptedCall ≠ some c → BadAnswer t c .wrongCallDeactivated
  | notActive : t.interruptedForSignal = false → t.activeCall ≠ some c → BadAnswer t c .wrongCallDeactivated
  | overSaved {top rest m} : t.interruptedForSignal = true → t.interrupts = top :: rest →
      top.interruptedCall = some c → top.savedReply = some m → BadAnswer t c .replyOverSavedReply

theorem answer_error {s : Local} {c : Call} {f : Fault} (h : s.answer c = .error f) : BadAnswer s.th c f := by
  rcases bind_error h with h | ⟨⟨t, d⟩, -, h⟩
  · rcases bind_error h with h | ⟨t₁, h₁, h₂⟩
    · unfold deactivateCallLocked at h
      split at h
      · split at h
        · cases h
          exact .noRecord ‹_› ‹_›
        · split at h
          · cases h
          · cases h
            exact .notInterrupted ‹_› ‹_› ‹_›
      · split at h
        · cases h
        · cases h
          exact .notActive (by simp_all) ‹_›
    · obtain ⟨top, rest, hi, hr, hc, rfl⟩ | ⟨hi, hc, rfl⟩ := deactivateCallLocked_ok h₁
      · rw [deliverReply, if_pos hi] at h₂
        dsimp only at h₂
        split at h₂
        · cases h₂
          obtain ⟨m, hm⟩ := Option.isSome_iff_exists.1 ‹_›
          exact .overSaved hi hr hc hm
        · cases h₂
      · rw [deliverReply, if_neg (by simp [hi])] at h₂
        split at h₂
        · cases h₂
        · split at h₂ <;> cases h₂
  · cases d <;> cases h

/-- There is no microthread to go on in. -/
def Stale (s : Local) (ctx : Option Context) : Prop := ∀ c, ctx = some c → c.stack ∈ s.freed

theorem setcontext_error {s : Local} {ctx : Option Context} {p : Phase} {f : Fault}
    (h : s.setcontext ctx p = .error f) : f = .staleContext ∧ Stale s ctx := by
  unfold Local.setcontext at h
  split at h
  · cases h
    exact ⟨rfl, by simp [Stale]⟩
  · split at h
    · cases h
      exact ⟨rfl, by simpa [Stale]⟩
    · cases h

/-- The handler that done code has to go back to is gone. -/
def BadLeave (s : Local) (exit : Exit) : Prop :=
  s.th.returnsToHandler s.cur.frame exit = true ∧ ¬(s.cur.frame = .handler ∧ exit = .byReturn) ∧
    Stale s s.th.syscallReturnHereDuringInterrupt

theorem leave_error {s : Local} {exit : Exit} {f : Fault} (h : s.leave exit = .error f) :
    f = .staleContext ∧ BadLeave s exit := by
  unfold Local.leave at h
  split at h
  · split at h
    · cases h
    · obtain ⟨rfl, hs⟩ := setcontext_error h
      exact ⟨rfl, ‹_›, ‹_›, hs⟩
  · cases h

theorem doneWorking_error {t : Thread} {f : Fault} (h : t.doneWorking = .error f) :
    f = .interruptWithPendingCall ∧ t.pendingInterrupts ≠ [] ∧ t.pendingCall ≠ none ∧ t.terminating = false ∧
      t.dead = false := by
  simp only [Thread.doneWorking] at h
  split at h
  · cases h
  · split at h
    · cases h
    · split at h
      · cases h
        simp_all [Option.isSome_iff_ne_none]
      · cases h

/-! ## The labels -/

inductive Throws (s : Local) : Label → Fault → Prop
  | recv {n c} : s.th.pendingCall = some c → n ≠ .interruptEnter → Throws s (.recv n) .pendingCallOverwritten
  | dispatch {c} : s.phase = .entered → s.th.continuationCallback ≠ none → s.th.pendingCall = some c →
      (s.th.pendingCallOverride = true ∨ c.number ≠ .interruptEnter) →
      Throws s .dispatch .pendingCallAndContinuation
  | continueOver : s.phase = .entered → s.th.suspended = true → s.th.continuationCallback ≠ none →
      s.th.stack ≠ none → Throws s .dispatch .stackAssertion
  | resumeNowhere : s.phase = .entered → s.th.suspended = true → s.th.continuationCallback = none →
      s.th.stack = none → Throws s .dispatch .stackAssertion
  | resumeStale : s.phase = .entered → s.th.suspended = true → s.th.continuationCallback = none →
      (s.th.pendingCallOverride = true ∨ s.th.pendingCall = none) → Stale s s.th.resumeContext →
      Throws s .dispatch .staleContext
  | activate : s.phase = .starting → s.th.pendingCall = none → Throws s .activate .nullActiveCall
  | reply {c f} : s.phase = .body ∨ s.phase = .answering → s.cur.frame = .worker → s.cur.call = some c →
      BadAnswer s.th c f → Throws s (.reply .byReturn) f
  | replyLeave {c x} : s.phase = .body ∨ s.phase = .answering → s.cur.frame = .worker → s.cur.call = some c →
      c.number ≠ .interruptExit → Answer s c x → BadLeave x .byReturn → Throws s (.reply .byReturn) .staleContext
  | noRecord : s.phase = .body → s.th.interruptedForSignal = true → s.th.interrupts = [] →
      Throws s (.reply .bySyscallReturn) .emptyInterrupts
  | noSyscall : s.phase = .body → (∀ c, s.th.currentCall = .ok (some c) → c.isXNUTrap = false) →
      Throws s (.reply .bySyscallReturn) .noActiveSyscall
  | syscallReturn {c f} : s.phase = .body → s.th.currentCall = .ok (some c) → BadAnswer s.th c f →
      Throws s (.reply .bySyscallReturn) f
  | syscallLeave {c x} : s.phase = .body → s.th.currentCall = .ok (some c) → Answer s c x →
      BadLeave x .bySyscallReturn → Throws s (.reply .bySyscallReturn) .staleContext
  | replyDirect : s.phase = .body → s.cur.frame = .worker → BadLeave s .byReturn →
      Throws s .replyDirect .staleContext
  | finish : s.phase = .body → s.cur.frame ≠ .worker → BadLeave s .byReturn → Throws s .finish .staleContext
  | interruptNowhere : s.phase = .interrupting → s.th.interrupts = [] → Throws s .interruptBegin .emptyInterrupts
  | interruptOver {top rest} : s.phase = .interrupting → s.th.interrupts = top :: rest →
      s.th.pendingSavedReply ≠ none → top.savedReply ≠ none →
      Throws s .interruptBegin .pendingSavedReplyOverSavedReply
  | interruptStale {top rest a} : s.phase = .interrupting → s.th.interrupts = top :: rest →
      s.th.interruptedContinuation = none → top.interruptedCall = some a → Stale s s.th.resumeContext →
      Throws s .interruptBegin .staleContext
  | interruptEnd : s.phase = .returned → s.th.interrupts = [] → Throws s .interruptEnd .emptyInterrupts
  | exitPop : s.phase = .exiting → s.th.interrupts = [] → Throws s .exitPop .emptyInterrupts
  | exitStale : s.phase = .exiting → BadLeave s .byReturn → Throws s .exitPop .staleContext
  | doneNowhere : s.phase = .returning → (s.th.suspended = false ∨ s.th.continuationCallback ≠ none) →
      s.th.stack = none → Throws s .done .stackAssertion
  | done : s.phase = .returning → s.th.pendingInterrupts ≠ [] → s.th.pendingCall ≠ none →
      Throws s .done .interruptWithPendingCall
  | pushOutside {m} : (∀ c, s.th.pendingCall = some c → c.number ≠ .interruptEnter) → s.th.interrupts = [] →
      Throws s (.pushReply m) .pushOutsideInterrupt
  | pushOver {m top rest} : (∀ c, s.th.pendingCall = some c → c.number ≠ .interruptEnter) →
      s.th.interrupts = top :: rest → top.savedReply ≠ none → Throws s (.pushReply m) .pushOverSavedReply

theorem recv_throws {s : Local} {n : Number} {f : Fault} (h : s.recv n = .error f) : Throws s (.recv n) f := by
  rcases bind_error h with h | ⟨t, -, h⟩
  · unfold setPendingCall at h
    split at h
    · obtain ⟨c, hc⟩ := Option.isSome_iff_exists.1 ‹_›
      split at h
      · cases h
      · cases h
        exact .recv hc ‹_›
    · cases h
  · cases h

theorem local_doneWorking_error {s : Local} {f : Fault} (h : s.doneWorking = .error f) :
    f = .interruptWithPendingCall ∧ s.th.pendingInterrupts ≠ [] ∧ s.th.pendingCall ≠ none ∧
      s.th.terminating = false ∧ s.th.dead = false := by
  rcases bind_error h with h | ⟨⟨t, b⟩, -, h⟩
  · exact doneWorking_error h
  · cases h

theorem pop_throws {s : Local} {f : Fault} (h : s.pop = .error f) : False := by
  unfold Local.pop doWorkEntry at h
  split at h
  · cases h
  · cases h
  · obtain ⟨-, -, -, ht, hd⟩ := local_doneWorking_error h
    rename_i heq
    split at heq
    · cases heq
    · split at heq
      · cases heq
      · split at heq
        · cases heq
          simp_all
        · split at heq
          · cases heq
            simp_all
          · cases heq
  · cases h

theorem dispatch_throws {s : Local} {f : Fault} (hp : s.phase = .entered) (h : s.dispatch = .error f) :
    Throws s .dispatch f := by
  by_cases hi : s.th.pendingCallOverride = false ∧ s.th.pendingCall.map (·.number) = some .interruptEnter
  · obtain ⟨c, hc, hn⟩ := Option.map_eq_some_iff.1 hi.2
    rcases bind_error h with h | ⟨⟨t, d⟩, hd, h⟩
    · rw [doWorkDispatch_interrupt hc hn hi.1] at h
      cases h
    · rw [doWorkDispatch_interrupt hc hn hi.1] at hd
      cases hd
      rcases bind_error h with h | ⟨⟨t', old⟩, -, h⟩ <;> cases h
  · have hb : s.th.beginInterrupt = s.th := if_neg hi
    rcases bind_error h with h | ⟨⟨t, d⟩, hd, h⟩
    · simp only [doWorkDispatch, hb] at h
      split at h
      · rename_i hkp
        cases h
        rw [Bool.and_eq_true] at hkp
        obtain ⟨c, hc⟩ := Option.isSome_iff_exists.1 hkp.2
        refine .dispatch hp (Option.isSome_iff_ne_none.1 hkp.1) hc ?_
        simpa [hc, Decidable.or_iff_not_imp_left] using hi
      · split at h
        · cases h
        · split at h <;> cases h
    · obtain ⟨hsu, hpe, ⟨k, hk⟩, rfl, rfl⟩ | ⟨hsu, ho, hk, rfl, rfl⟩ | ⟨hsu, hpe, rfl, rfl⟩ |
        ⟨⟨c, hc⟩, ho, hk, rfl, rfl⟩ := doWorkDispatch_ok hd hb
      · rcases bind_error h with h | ⟨⟨t', old⟩, -, h⟩
        · simp only [switchStack] at h
          split at h
          · cases h
            exact .continueOver hp hsu (by simp [hk]) (Option.isSome_iff_ne_none.1 ‹_›)
          · cases h
        · cases h
      · rcases bind_error h with h | ⟨⟨t', old⟩, hs, h⟩
        · simp only [switchStack] at h
          split at h
          · cases h
          · cases h
            exact .resumeNowhere hp hsu hk (by simp_all)
        · simp only [switchStack] at hs
          split at hs
          · cases hs
            rcases bind_error h with h | ⟨y, -, h⟩
            · obtain ⟨rfl, hst⟩ := setcontext_error h
              refine .resumeStale hp hsu hk ho ?_
              simpa [Stale, Local.free] using hst
            · cases h
          · cases hs
      · rcases bind_error h with h | ⟨⟨t', old⟩, hs, h⟩
        · cases h
        · cases hs
          exact absurd hpe (local_doneWorking_error h).2.2.1
      · rcases bind_error h with h | ⟨⟨t', old⟩, -, h⟩ <;> cases h

theorem replyByReturn_throws {s : Local} {c : Call} {f : Fault} (hp : s.phase = .body ∨ s.phase = .answering)
    (hf : s.cur.frame = .worker) (hc : s.cur.call = some c) (h : s.replyByReturn c = .error f) :
    Throws s (.reply .byReturn) f := by
  rcases bind_error h with h | ⟨x, hx, h⟩
  · exact .reply hp hf hc (answer_error h)
  · split at h
    · cases h
    · obtain ⟨rfl, hb⟩ := leave_error h
      exact .replyLeave hp hf hc ‹_› (answer_ok hx) hb

theorem syscallReturn_throws {s : Local} {f : Fault} (hp : s.phase = .body) (h : s.syscallReturn = .error f) :
    Throws s (.reply .bySyscallReturn) f := by
  rcases bind_error h with h | ⟨c, hc, h⟩
  · unfold currentCall at h
    split at h
    · split at h
      · cases h
        exact .noRecord hp ‹_› ‹_›
      · cases h
    · cases h
  · cases c with
    | none =>
      cases h
      exact .noSyscall hp (by simp [hc])
    | some c =>
      dsimp only at h
      split at h
      · rcases bind_error h with h | ⟨x, hx, h⟩
        · exact .syscallReturn hp hc (answer_error h)
        · obtain ⟨rfl, hb⟩ := leave_error h
          exact .syscallLeave hp hc (answer_ok hx) hb
      · cases h
        exact .noSyscall hp (by simp_all)

theorem interruptBegin_throws {s : Local} {f : Fault} (hp : s.phase = .interrupting)
    (h : s.interruptBegin = .error f) : Throws s .interruptBegin f := by
  rcases bind_error h with h | ⟨⟨t, r⟩, ht, h⟩
  · unfold interruptEnterBegin at h
    split at h
    · cases h
      exact .interruptNowhere hp ‹_›
    · split at h
      · rename_i hs
        cases h
        rw [Bool.and_eq_true, Option.isSome_iff_ne_none, Option.isSome_iff_ne_none] at hs
        exact .interruptOver hp ‹_› hs.1 hs.2
      · dsimp only at h
        split at h
        · cases h
        · split at h <;> cases h
  · unfold interruptEnterBegin at ht
    split at ht
    · cases ht
    · split at ht
      · cases ht
      · dsimp only at ht
        split at ht
        · cases ht
          cases h
        · rename_i hk
          split at ht
          · obtain ⟨a, ha⟩ := Option.isSome_iff_exists.1 ‹_›
            cases ht
            obtain ⟨rfl, hst⟩ := setcontext_error h
            exact .interruptStale hp ‹_› (by simpa using hk) ha hst
          · cases ht
            cases h

theorem exitPop_throws {s : Local} {f : Fault} (hp : s.phase = .exiting) (h : s.exitPop = .error f) :
    Throws s .exitPop f := by
  rcases bind_error h with h | ⟨⟨t, saved⟩, ht, h⟩
  · unfold exitInterrupt at h
    split at h
    · cases h
      exact .exitPop hp ‹_›
    · cases h
  · unfold exitInterrupt at ht
    split at ht
    · cases ht
    · rename_i top rest hr
      cases ht
      obtain ⟨rfl, hb⟩ := leave_error h
      refine .exitStale hp ?_
      cases hm : top.savedReply <;> rw [hm] at hb <;> exact hb

theorem done_throws {s : Local} {f : Fault} (hp : s.phase = .returning) (h : s.done = .error f) :
    Throws s .done f := by
  rcases bind_error h with h | ⟨⟨t, old⟩, ht, h⟩
  · unfold returnToTop at h
    split at h
    · rename_i hs
      split at h
      · cases h
      · cases h
        exact .doneNowhere hp (by simpa [Option.isSome_iff_ne_none] using hs) (by simp_all)
    · cases h
  · obtain ⟨rfl, hq, hpe, -, -⟩ := local_doneWorking_error h
    unfold returnToTop at ht
    split at ht
    · split at ht
      · cases ht
        exact .done hp hq hpe
      · cases ht
    · cases ht
      exact .done hp hq hpe

theorem pushReply_throws {s : Local} {m : Message} {f : Fault} (h : s.pushReply m = .error f) :
    Throws s (.pushReply m) f := by
  rcases bind_error h with h | ⟨t, -, h⟩
  · unfold Thread.pushReply at h
    split at h
    · cases h
    · rename_i hi
      have hi : ∀ c, s.th.pendingCall = some c → c.number ≠ .interruptEnter :=
        fun c hc hn => hi (by simp [hc, hn])
      split at h
      · cases h
        exact .pushOutside hi ‹_›
      · split at h
        · cases h
          exact .pushOver hi ‹_› (Option.isSome_iff_ne_none.1 ‹_›)
        · cases h
  · cases h

theorem core_throws {s : Local} {l : Label} {f : Fault} (h : s.core l = some (.error f)) : Throws s l f := by
  cases l with
  | recv n => exact recv_throws (map_error (Option.some.inj h))
  | pop => exact (pop_throws (Option.some.inj h)).elim
  | dispatch =>
    obtain ⟨hp, h⟩ := Option.ite_none_right_eq_some.1 h
    exact dispatch_throws hp (Option.some.inj h)
  | activate =>
    obtain ⟨hp, h⟩ := Option.ite_none_right_eq_some.1 h
    rcases bind_error (map_error (Option.some.inj h)) with h | ⟨⟨t, c⟩, -, h⟩
    · unfold makePendingCallActive at h
      split at h
      · cases h
        exact .activate hp ‹_›
      · cases h
    · cases h
  | reply e =>
    cases e with
    | byReturn =>
      obtain ⟨hp, h⟩ := Option.ite_none_right_eq_some.1 h
      obtain ⟨c, hc, h⟩ := Option.map_eq_some_iff.1 h
      exact replyByReturn_throws hp.1 hp.2 (Option.filter_eq_some_iff.1 hc).1 (map_error h)
    | bySyscallReturn =>
      obtain ⟨hp, h⟩ := Option.ite_none_right_eq_some.1 h
      exact syscallReturn_throws hp (map_error (Option.some.inj h))
  | replyDirect =>
    obtain ⟨hp, h⟩ := Option.ite_none_right_eq_some.1 h
    obtain ⟨c, hc, h⟩ := Option.map_eq_some_iff.1 h
    obtain ⟨rfl, hb⟩ := leave_error (map_error h)
    exact .replyDirect hp.1 hp.2 hb
  | finish =>
    obtain ⟨hp, h⟩ := Option.ite_none_right_eq_some.1 h
    obtain ⟨rfl, hb⟩ := leave_error (map_error (Option.some.inj h))
    exact .finish hp.1 hp.2 hb
  | interruptBegin =>
    obtain ⟨hp, h⟩ := Option.ite_none_right_eq_some.1 h
    exact interruptBegin_throws hp (map_error (Option.some.inj h))
  | interruptEnd =>
    obtain ⟨hp, h⟩ := Option.ite_none_right_eq_some.1 h
    rcases bind_error (map_error (Option.some.inj h)) with h | ⟨⟨t, old⟩, -, h⟩
    · unfold interruptEnterEnd at h
      dsimp only at h
      split at h
      · cases h
        exact .interruptEnd hp ‹_›
      · cases h
    · cases h
  | exitPop =>
    obtain ⟨hp, h⟩ := Option.ite_none_right_eq_some.1 h
    exact exitPop_throws hp (map_error (Option.some.inj h))
  | done =>
    obtain ⟨hp, h⟩ := Option.ite_none_right_eq_some.1 h
    exact done_throws hp (Option.some.inj h)
  | pushReply m => exact pushReply_throws (map_error (Option.some.inj h))
  | commit =>
    simp only [Local.core] at h
    split at h <;> cases h
  | suspend | s2cDefer | impersonate | claim | unimpersonate =>
    obtain ⟨-, h⟩ := Option.ite_none_right_eq_some.1 h
    cases h
  | terminate =>
    simp only [Local.core] at h
    split at h <;> cases h
  | receive =>
    obtain ⟨k, -, h⟩ := Option.map_eq_some_iff.1 h
    cases h
  | push | resumePush | resume | s2cRelease | defer | undefer | notifyDead => cases h

/-! ## No internal errors -/

/-- The errors the scheduler throws at its own state. -/
def Fault.isInternal : Fault → Bool
  | .pendingCallOverwritten | .pendingCallAndContinuation | .interruptWithPendingCall | .wrongCallDeactivated
  | .nullActiveCall => true
  | _ => false

/-- The client is disciplined, and the main loop takes no `interrupt_enter` for a call that is
pending while the worker is still busy with an earlier one. -/
def State.unhurried (s : State) (l : Label) : Bool :=
  s.disciplined l && (l ≠ .recv .interruptEnter || s.loc.th.pendingCall.isNone ||
    s.loc.phase = .off || s.loc.phase = .entered || s.loc.phase = .starting || s.loc.phase = .impersonated)

/-- An interrupt is queued behind a pending call only until that call starts. -/
def QueueWaits (s : Local) : Prop :=
  s.th.pendingInterrupts ≠ [] → s.th.pendingCall ≠ none →
    s.phase = .off ∨ s.phase = .entered ∨ s.phase = .starting ∨ s.phase = .impersonated

theorem State.unhurried.disciplined {s : State} {l : Label} (h : s.unhurried l = true) : s.disciplined l = true := by
  rw [State.unhurried, Bool.and_eq_true] at h
  exact h.1

theorem queueWaits_busy {s : Local} (hq : QueueWaits s)
    (hp : s.phase ≠ .off ∧ s.phase ≠ .entered ∧ s.phase ≠ .starting ∧ s.phase ≠ .impersonated) :
    s.th.pendingInterrupts = [] ∨ s.th.pendingCall = none := by
  by_contra hn
  rw [not_or] at hn
  rcases hq hn.1 hn.2 with hx | hx | hx | hx
  · exact hp.1 hx
  · exact hp.2.1 hx
  · exact hp.2.2.1 hx
  · exact hp.2.2.2 hx

theorem queueWaits_answer {s x : Local} {c : Call} (ha : Answer s c x) :
    x.th.pendingInterrupts = s.th.pendingInterrupts ∧ x.th.pendingCall = s.th.pendingCall := by
  cases ha <;> exact ⟨rfl, rfl⟩

theorem queueWaits_leave {s y : Local} {e : Exit} (hq : s.th.pendingInterrupts = [] ∨ s.th.pendingCall = none)
    (hl : Leave s e y) : QueueWaits y := by
  intro h₁ h₂
  cases hl <;> exact (hq.elim h₁ h₂).elim

theorem queueWaits_effect {s : State} {l : Label} {x : Local} {b : Bool} (h : Orderly s.loc)
    (hq : QueueWaits s.loc) (hg : s.unhurried l = true) (he : Effect s.loc l x b) : QueueWaits x := by
  cases he with
  | recv hp =>
    intro hne
    obtain ⟨j, hj⟩ := List.exists_mem_of_ne_nil _ hne
    have he := h.entering_of_queued hj
    simp [(disciplined_recv (State.unhurried.disciplined hg)).2.2.1] at he
  | recvQueued hp =>
    intro _ _
    simp only [State.unhurried, Bool.and_eq_true, Bool.or_eq_true, decide_eq_true_eq] at hg
    simpa [hp, or_assoc] using hg.2
  | popDone | dispatchDone | doneFree | doneKeep | unimpersonate => exact fun _ _ => .inl rfl
  | popEntered => exact fun _ _ => .inr (.inl rfl)
  | startCall | startInterrupt => exact fun _ _ => .inr (.inr (.inl rfl))
  | impersonate | claim => exact fun _ _ => .inr (.inr (.inr rfl))
  | resumeContinuation _ _ hp => exact fun _ hn => absurd hp hn
  | resumeContext _ _ ho =>
    refine fun _ hn => absurd ?_ hn
    rcases ho with ho | ho
    · exact h.pending_none (h.shape.handling (h.shape.override.symm.trans ho))
    · exact ho
  | activate => exact fun _ hn => absurd rfl hn
  | replyReturn hp _ _ _ _ ha hl =>
    refine queueWaits_leave ?_ hl
    rw [(queueWaits_answer ha).1, (queueWaits_answer ha).2]
    exact queueWaits_busy hq (by rcases hp with hp | hp <;> simp [hp])
  | syscallReturn hp _ _ ha hl =>
    refine queueWaits_leave ?_ hl
    rw [(queueWaits_answer ha).1, (queueWaits_answer ha).2]
    exact queueWaits_busy hq (by simp [hp])
  | replyExit hp _ _ _ ha =>
    intro h₁ h₂
    rw [(queueWaits_answer ha).1] at h₁
    rw [(queueWaits_answer ha).2] at h₂
    exact ((queueWaits_busy hq (by rcases hp with hp | hp <;> simp [hp])).elim h₁ h₂).elim
  | replyDirect hp _ _ _ hl | finish hp _ hl | exitPop hp _ _ hl | exitPopSaved hp _ _ hl =>
    refine queueWaits_leave ?_ hl
    exact queueWaits_busy hq (by simp [hp])
  | suspend hp | commit hp | commitResumed hp | interruptContinuation hp | interruptJump hp | interruptNothing hp
  | interruptEnd hp =>
    exact fun h₁ h₂ => ((queueWaits_busy hq (by simp [hp])).elim h₁ h₂).elim
  | _ => exact hq

/-- The code whose reply is pushed belongs to the call the thread expects it from. -/
theorem answer_expected {s : Local} (h : Orderly s) {c : Call} {f : Fault}
    (hc : s.phase = .body ∧ slot s.th = some c ∨ s.phase = .answering ∧ s.cur.call = some c)
    (hb : BadAnswer s.th c f) : f.isInternal = false := by
  cases hb with
  | noRecord | overSaved => rfl
  | notInterrupted hf hr hne =>
    rcases hc with ⟨-, hc⟩ | ⟨hp, -⟩
    · simp [slot, hf, hr, hne] at hc
    · have := (h.shape.answering hp).1
      simp [hf] at this
  | notActive hf hne =>
    rcases hc with ⟨-, hc⟩ | ⟨hp, hc⟩
    · simp [slot, hf, hne] at hc
    · exact absurd ((h.shape.answering hp).2.1.2.symm.trans hc) hne

/-- A suspended call waits for its answer, so its client has nothing else pending but an interrupt. -/
theorem continuation_alone {s : Local} (h : Orderly s) (hk : s.th.continuationCallback ≠ none) {c : Call}
    (hc : s.th.pendingCall = some c) : c.number = .interruptEnter := by
  have hi := h.not_interrupted hc
  have hlive := mem_live.2 (.inl hc)
  have hu : s.client.user = true := by
    by_contra hu
    simp [h.debts.kernel (by simpa using hu)] at hlive
  obtain ⟨a, hs, hua, hna⟩ := h.frames.parked (h.shape.continued hk) hu
  have hwa : s.client.awaiting = some a := by
    rcases h.debts.owed a (slot_mem_live hs) with ⟨-, hw | hw⟩ | ⟨hw, -⟩
    · exact hw
    · exact absurd (h.names.entering a hw) hna
    · exact absurd hw hua
  rcases h.debts.owed c hlive with ⟨-, hw | hw⟩ | ⟨hw, -⟩
  · exact absurd (Option.some.inj (hw.symm.trans hwa)) (h.debts.waiting_ne (.inl hc) (slot_mem hs))
  · exact h.names.entering c hw
  · exact absurd hw (h.debts.pending c hc)

theorem currentCall_slot {t : Thread} {c : Call} (h : t.currentCall = .ok (some c)) : slot t = some c := by
  unfold currentCall at h
  split at h
  · split at h
    · cases h
    · simp_all [slot]
  · simp_all [slot]

theorem throws_not_internal {s : State} {l : Label} {f : Fault} (h : Orderly s.loc) (hq : QueueWaits s.loc)
    (hg : s.unhurried l = true) (ht : Throws s.loc l f) : f.isInternal = false := by
  cases ht with
  | @recv n c hc hn =>
    -- the pending call has no answer yet, so the client would have two calls outstanding
    have hc' := h.debts.owed c (mem_live.2 (.inl hc))
    have hu := h.debts.pending c hc
    obtain ⟨-, -, hent, haw⟩ := disciplined_recv (State.unhurried.disciplined hg)
    rcases hc' with ⟨-, hw | hw⟩ | ⟨hw, -⟩
    · exact absurd (haw c hw).1 hn
    · simp [hent] at hw
    · exact absurd hw hu
  | dispatch _ hk hc ho =>
    rcases ho with ho | ho
    · have := h.no_handling (h.not_interrupted hc)
      simp [ho] at this
    · exact absurd (continuation_alone h hk hc) ho
  | activate hp hc => exact absurd hc (h.shape.starting hp).2.1
  | reply hp hw hc hb =>
    refine answer_expected h ?_ hb
    rcases hp with hp | hp
    · exact .inl ⟨hp, ((h.frames.body hp).2.1 hw).2.symm.trans hc⟩
    · exact .inr ⟨hp, hc⟩
  | syscallReturn hp hc hb =>
    exact answer_expected h (.inl ⟨hp, currentCall_slot hc⟩) hb
  | done hp hi hc =>
    rcases queueWaits_busy hq (by simp [hp]) with hn | hn
    · exact absurd hn hi
    · exact absurd hn hc
  | _ => rfl

theorem queueWaits {s : State} (h : Reach State.step (fun s l => s.unhurried l = true) State.Init s) :
    QueueWaits s.loc := by
  refine h.inv_with (fun s => Orderly s.loc) (fun s => QueueWaits s.loc)
    (fun _ => orderly fun _ _ => State.unhurried.disciplined) ?_ fun s l s' ho hi hg hst => ?_
  · rintro s (rfl | ⟨k, rfl⟩) <;> simp [QueueWaits, setupKernelThread]
  · obtain ⟨-, -, ⟨f, -, rfl⟩ | ⟨x, b, he, rfl⟩⟩ := step_cases hst
    · exact hi
    · rw [account_loc]
      exact queueWaits_effect ho hi hg he

theorem fault_not_internal {s : State} (h : Reach State.step (fun s l => s.unhurried l = true) State.Init s) :
    ∀ f, s.loc.fault = some f → f.isInternal = false := by
  refine h.inv_with (fun s => Orderly s.loc ∧ QueueWaits s.loc)
    (fun s => ∀ f, s.loc.fault = some f → f.isInternal = false)
    (fun s hr => ⟨orderly (fun _ _ => State.unhurried.disciplined) hr, queueWaits hr⟩) ?_
    fun s l s' ho hi hg hst => ?_
  · rintro s (rfl | ⟨k, rfl⟩) <;> simp
  · obtain ⟨hn, -, ⟨f, hc, rfl⟩ | ⟨x, b, he, rfl⟩⟩ := step_cases hst
    · rintro f' hf
      cases hf
      exact throws_not_internal ho.1 ho.2 hg (core_throws hc)
    · rw [account_loc, fault_effect he, hn]
      simp

/-- No internal error of the scheduler is thrown, for any threads and workers, in a run whose clients
are disciplined and interrupt no call that waits for the worker to finish the one before. -/
theorem no_internal_error {ι ω : Type*} [DecidableEq ι] [DecidableEq ω] {s : System ι ω}
    (h : Reach System.step (fun s a => (s.view a.thread).unhurried a.label = true) System.Init s) (i : ι) (f : Fault)
    (hf : f.isInternal = true) : (s.threads i).fault ≠ some f := by
  intro he
  have hv := System.reach_view (G := fun s l => s.unhurried l = true) (fun _ _ hg => hg) h i
  simp [fault_not_internal hv f he] at hf

/-- A call suspends, is interrupted and finishes in the handler; the client sends its next call. -/
def interruptedCall : List (Action Unit (Fin 2)) :=
  [byOther (.recv (.trap 0)), byOther .push, byWorker 0 .pop, byWorker 0 .dispatch, byWorker 0 .activate,
    byWorker 0 (.suspend none), byWorker 0 .commit, byWorker 0 .done, byOther (.recv .interruptEnter), byOther .push,
    byWorker 0 .pop, byWorker 0 .dispatch, byWorker 0 .activate, byWorker 0 .interruptBegin,
    byWorker 0 (.reply .bySyscallReturn), byWorker 0 .interruptEnd, byWorker 0 (.reply .byReturn), byOther .receive,
    byWorker 0 .done, byOther (.recv (.plain 1))]

theorem no_internal_error_interrupted : ∃ s : System Unit (Fin 2),
    exec System.step (fun s a => (s.view a.thread).unhurried a.label) System.start interruptedCall = some s ∧
    (s.threads ()).th.pendingCall = some ⟨2, .plain 1⟩ ∧ (s.threads ()).fault ≠ some .interruptWithPendingCall := by
  have hrun : (exec System.step (fun s a => (s.view a.thread).unhurried a.label) System.start interruptedCall).map
      (fun s => (s.threads ()).th.pendingCall) = some (some ⟨2, .plain 1⟩) := by decide
  obtain ⟨s, hs, hp⟩ := Option.map_eq_some_iff.1 hrun
  exact ⟨s, hs, hp, no_internal_error (exec_reach (fun _ _ hg => hg) hs (.init System.start_init)) () _ rfl⟩

/-- The client has its first reply and sends a second call, which a signal interrupts, while worker 0 is
still on its way back to the top. -/
theorem interrupt_scheduled_over_pending_call : ¬ ∀ s : System Unit (Fin 2),
    Reach System.step (fun s a => System.conforms s a = true) System.Init s →
    ∀ i f, f.isInternal = true → (s.threads i).fault ≠ some f := by
  intro h
  have hrun : (exec System.step System.conforms System.start
      (oneCall ++ [byOther (.recv (.plain 1)), byOther .push, byOther (.recv .interruptEnter), byOther .push,
        byWorker 0 .done])).map (fun s => (s.threads ()).fault) = some (some .interruptWithPendingCall) := by decide
  obtain ⟨s, hs, hf⟩ := Option.map_eq_some_iff.1 hrun
  exact h s (exec_reach (fun _ _ hg => hg) hs (.init System.start_init)) () .interruptWithPendingCall rfl hf

end DarlingServer
