import DarlingServer.Activation
import DarlingServer.S2C
/-!
# Unsignalled requests

`_s2cPerform` takes an active call to mean that the client waits for its reply
and listens. A `checkout` clears its thread pointer and answers through the
server, so nothing deactivates it; after a failed `execve` its client goes on
with an answered call active.
-/

namespace DarlingServer

open Thread Runs

/-- The call was received, and its reply has not been made. -/
def Outstanding (s : Local) (c : Call) : Prop := c.id < s.nextCall ∧ ⟨c⟩ ∉ s.handed

namespace S2C

variable {ι : Type*} [DecidableEq ι] {inv : ι → Invocation} {x x' : S2C ι} {l : S2CLabel ι}

/-- Seen from the thread, a step of the invocations is one of its own or none. -/
theorem thread_step (h : x.step inv l = some x') :
    x'.thread = x.thread ∨ ∃ l', (l' = .replyDirect → l = .thread .replyDirect) ∧ x.thread.step l' = some x'.thread := by
  have hm := step_effect h
  cases hm with
  | @thread l' _ _ _ hst => exact .inr ⟨l', fun h => h ▸ rfl, hst⟩
  | lookDefer _ hst => exact .inr ⟨.s2cDefer, by simp, hst⟩
  | take _ _ hst => exact .inr ⟨.s2cRelease, by simp, hst⟩
  | _ => exact .inl rfl

theorem thread_reach {G : S2C ι → S2CLabel ι → Prop} (h : Reach (step inv) G Init x) :
    Reach State.step (fun _ _ => True) State.Init x.thread := by
  refine h.view S2C.thread ?_ fun x l x' _ hst => ?_
  · rintro _ ⟨s, hs, rfl⟩
    exact hs
  · rcases thread_step hst with he | ⟨l', -, hst⟩
    · exact .inl he
    · exact .inr ⟨l', trivial, hst⟩

/-- No `checkout` sends its reply while it is the active call. -/
def answersThrough (x : S2C ι) : S2CLabel ι → Bool
  | .thread .replyDirect => x.thread.loc.cur.call ≠ x.thread.loc.th.activeCall
  | _ => true

theorem unanswered (h : Reach (step inv) (fun x l => x.answersThrough l = true) Init x) :
    Unanswered x.thread.loc := by
  refine h.inv_with (fun x => ∃ n, Sequenced n x.thread.loc) (fun x => Unanswered x.thread.loc)
    (fun _ hr => sequenced (thread_reach hr)) ?_ fun x l x' ⟨n, hn⟩ hu hg hst => ?_
  · rintro _ ⟨s, hs, rfl⟩
    exact unanswered_init hs
  · rcases thread_step hst with he | ⟨l', hl, hst⟩
    · rw [he]
      exact hu
    · obtain ⟨-, -, ⟨f, -, hx⟩ | ⟨y, b, he, hx⟩⟩ := step_cases hst
      · rw [hx]
        exact hu
      · rw [hx, account_loc]
        refine unanswered_effect hn hu he fun hd => ?_
        rw [hl hd] at hg
        simpa [answersThrough] using hg

/-- In every run of calls and invocations in which no `checkout` answers while it
is the active call: an answered call is never the active one, and an invocation
that goes on without the signal finds a call whose client waits. -/
theorem unsignalled_request_awaited (h : Reach (step inv) (fun x l => x.answersThrough l = true) Init x) :
    (∀ c, x.thread.loc.th.activeCall = some c → Outstanding x.thread.loc c) ∧
      ∀ i x', x.step inv (.look i) = some x' → x'.phase i = .sending false →
        ∃ c, x.thread.loc.th.activeCall = some c ∧ Outstanding x.thread.loc c := by
  have hawaited : ∀ c, x.thread.loc.th.activeCall = some c → Outstanding x.thread.loc c := by
    intro c hc
    obtain ⟨n, hn⟩ := sequenced (thread_reach h)
    have hid := hn.begun c (.inl hc)
    have hbound := hn.bound
    exact ⟨by omega, unanswered h c hc⟩
  refine ⟨hawaited, fun i x' hst hp => ?_⟩
  cases ha : x.thread.loc.th.activeCall with
  | some c => exact ⟨c, rfl, hawaited c ha⟩
  | none =>
    -- without an active call the invocation goes on to signal
    simp only [step, look, ha, Option.isNone_none, if_true] at hst
    split at hst
    · cases hst
    · split at hst
      · cases hst
        simp [go] at hp
      · cases hst

/-- A plain call in progress, and another microthread's invocation. -/
def duringCall : List (S2CLabel Nat) :=
  [.thread (.recv (.plain 0)), .thread .push, .thread .pop, .thread .dispatch, .thread .activate, .down 0]

theorem unsignalled_request_awaited_call : ∃ x x' : S2C Nat,
    exec (step mmapInvocation) (fun x l => x.answersThrough l) {} duringCall = some x ∧
    x.step mmapInvocation (.look 0) = some x' ∧ x'.phase 0 = .sending false ∧
    ∃ c, x.thread.loc.th.activeCall = some c ∧ Outstanding x.thread.loc c := by
  have hrun : (exec (step mmapInvocation) (fun x l => x.answersThrough l) {} duringCall).bind (fun x =>
      (x.step mmapInvocation (.look 0)).map fun x' => x'.phase 0) = some (.sending false) := by decide
  obtain ⟨x, hx, hs⟩ := Option.bind_eq_some_iff.1 hrun
  obtain ⟨x', hx', hp⟩ := Option.map_eq_some_iff.1 hs
  exact ⟨x, x', hx, hx', hp, (unsignalled_request_awaited
    (exec_reach (fun _ _ hg => hg) hx (.init ⟨{}, .inl rfl, rfl⟩))).2 0 x' hx' hp⟩

/-- A `checkout` has answered and is done; the next invocation holds back replies
for it and sends its request without a signal. -/
theorem checkout_stays_active : ¬ ∀ (x x' : S2C Nat), Reach (step mmapInvocation) (fun _ _ => True) Init x →
    x.step mmapInvocation (.look 0) = some x' → x'.phase 0 = .sending false →
    ∃ c, x.thread.loc.th.activeCall = some c ∧ Outstanding x.thread.loc c := by
  intro h
  have hrun : (exec (step mmapInvocation) (fun _ _ => true) {} [.thread (.recv .checkout), .thread .push, .thread .pop,
      .thread .dispatch, .thread .activate, .thread .replyDirect, .thread .done, .down 0]).bind (fun x =>
      (x.step mmapInvocation (.look 0)).map fun x' =>
        (x'.phase 0, x.thread.loc.th.activeCall, x.thread.loc.handed)) =
      some (.sending false, some ⟨0, .checkout⟩, [⟨⟨0, .checkout⟩⟩]) := by decide
  obtain ⟨x, hx, hs⟩ := Option.bind_eq_some_iff.1 hrun
  obtain ⟨x', hx', hp⟩ := Option.map_eq_some_iff.1 hs
  simp only [Prod.mk.injEq] at hp
  obtain ⟨c, hc, hw⟩ := h x x' (exec_reach (fun _ _ _ => trivial) hx (.init ⟨{}, .inl rfl, rfl⟩)) hx' hp.1
  obtain rfl : ⟨0, .checkout⟩ = c := by simpa [hp.2.1] using hc
  exact hw.2 (by simp [hp.2.2])

end S2C

end DarlingServer
