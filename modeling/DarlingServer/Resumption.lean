import DarlingServer.System
/-!
# Suspensions end by a resume

The work queue holds threads, not reasons: an entry pushed for a call, or for an
interrupt that was queued, wakes whatever suspension it finds. Entries are
matched here against what they were pushed for. As long as every entry is for
the one pending call or the one resume of the current suspension, an entry that
finds a suspended thread with no call was pushed by a resume of that suspension.
-/

namespace DarlingServer

open Thread Runs

/-- What is remembered of a thread's resumes. -/
structure Wakes where
  /-- The thread has been resumed since it last began to suspend. -/
  resumed : Bool := false
  /-- `doWork` has jumped to the `_resumeContext` of a suspension that nobody had resumed. -/
  spurious : Bool := false
  deriving DecidableEq

/-- Only a jump to a `_resumeContext` takes `doWork` from its dispatch into the code of a call. -/
def noteResume (s : State) (l : Label) (s' : State) (h : Wakes) : Wakes :=
  match l with
  | .suspend _ => { h with resumed := false }
  | .resume => { h with resumed := h.resumed || s.loc.th.suspended }
  | .dispatch => { h with spurious := h.spurious || (s'.loc.phase = .body && !h.resumed) }
  | _ => h

/-- No interrupt is queued behind a pending call, no suspension is resumed twice, and no suspended
thread is dispatched with a pending call once it has been resumed or has the override. -/
def oneReason (p : State × Wakes) : Label → Bool
  | .recv n => n ≠ .interruptEnter || p.1.loc.th.pendingCall.isNone
  | .resume => !p.1.loc.th.suspended || !p.2.resumed
  | .dispatch =>
    !p.1.loc.th.suspended || p.1.loc.th.pendingCall.isNone || (!p.1.loc.th.pendingCallOverride && !p.2.resumed)
  | _ => true

/-- The entry a worker is about to use up. -/
def Phase.taken : Phase → Nat
  | .entered | .starting => 1
  | _ => 0

/-- The entry that `undefer` will push. -/
def DeferralState.kept : DeferralState → Nat
  | .deferredPending => 1
  | _ => 0

/-- The entries of a thread, with those on their way and the one in use. -/
def supply (s : State) : Nat :=
  s.entries + s.resuming + s.toPush.isSome.toNat + s.loc.phase.taken + s.loc.th.deferralState.kept

/-- What they can be for. -/
def demand (s : State) (resumed : Bool) : Nat :=
  s.loc.th.pendingCall.isSome.toNat + (s.loc.th.suspended && resumed).toNat

structure Balanced (p : State × Wakes) : Prop where
  supply_le : supply p.1 ≤ demand p.1 p.2.resumed
  awake : p.1.loc.phase = .starting ∨ p.1.loc.phase = .body ∨ p.1.loc.phase = .interrupting →
    p.1.loc.th.suspended = false
  wanted : p.2.spurious = false

theorem supply_effect {s : State} {h : Wakes} {l : Label} {x : Local} {b : Bool} (hi : Balanced (s, h))
    (hg : oneReason (s, h) l = true) (hr : s.ready l = true) (he : Effect s.loc l x b) :
    supply (s.account x b l) ≤ demand (s.account x b l) (noteResume s l (s.account x b l) h).resumed := by
  obtain ⟨hs, ha, -⟩ := hi
  obtain ⟨h, sp⟩ := h
  by_cases hl : l.windsUp = true
  · -- nothing is used up and nothing is pushed
    have hw := windUp_effect he hl
    have hn : noteResume s l { s with loc := x } ⟨h, sp⟩ = ⟨h, sp⟩ := by cases l <;> first | rfl | cases hl
    have ht : x.phase.taken = 0 := by rcases hw.phase with hx | hx | hx <;> rw [hx] <;> rfl
    rw [account_windsUp he hl, hn]
    simp only [supply, demand, hw.pendingCall, hw.suspended, hw.deferralState, ht] at hs ⊢
    omega
  simp only [supply, demand, noteResume, State.account] at hs ha ⊢
  cases he with
  | replyReturn | syscallReturn | replyExit | replyDirect | finish | exitPop | exitPopSaved => exact absurd rfl hl
  | dispatchDone _ _ hp hw | doneFree _ _ _ hw | doneKeep _ _ _ hw =>
    cases hw <;> simp_all [Phase.taken] <;> omega
  | resumeContinuation _ hsu hpe | resumeContext _ hsu hpe | startCall _ _ _ _ hsu | startInterrupt _ _ hsu =>
    cases h <;> cases hq : s.loc.th.suspended <;> cases hm : s.toPush <;> simp_all [Phase.taken, oneReason] <;> omega
  | suspend hp => simp_all [Phase.taken]
  | resume =>
    cases h <;> cases hq : s.loc.th.suspended <;> simp_all [oneReason]
    omega
  | popDeferred hd | popDone hd | popEntered hd =>
    simp_all [DeferralState.kept, Phase.taken, State.ready]
    omega
  | defer hd hn | impersonate _ hd hn =>
    rcases hd with rfl | ⟨rfl, hd⟩ <;> simp_all [Phase.taken, DeferralState.kept]
  | undefer | unimpersonate =>
    by_cases hd : s.loc.th.deferralState = .deferredPending
    · simp_all [Phase.taken, DeferralState.kept]
      omega
    · simp_all [Phase.taken, DeferralState.kept]
  | @activate c hp hc =>
    have ht : (if c.number = .interruptEnter then Phase.interrupting else .body).taken = 0 := by split <;> rfl
    cases hm : s.toPush <;> simp_all [Phase.taken] <;> omega
  | _ => simp_all [oneReason, State.ready, Phase.taken] <;> omega

theorem awake_effect {s x : Local} {l : Label} {b : Bool}
    (hi : s.phase = .starting ∨ s.phase = .body ∨ s.phase = .interrupting → s.th.suspended = false)
    (he : Effect s l x b) :
    x.phase = .starting ∨ x.phase = .body ∨ x.phase = .interrupting → x.th.suspended = false := by
  by_cases hl : l.windsUp = true
  · rcases (windUp_effect he hl).phase with hx | hx | hx <;> simp [hx]
  cases he with
  | dispatchDone _ _ _ hw | doneFree _ _ _ hw | doneKeep _ _ _ hw => cases hw <;> simp
  | replyReturn | syscallReturn | replyExit | replyDirect | finish | exitPop | exitPopSaved => exact absurd rfl hl
  | _ => simp_all

/-- An entry in use on a suspended thread with no call was pushed by a resume. -/
theorem resumed_of_entered {s : State} {h : Wakes} (hi : Balanced (s, h)) (hp : s.loc.phase = .entered)
    (hs : s.loc.th.suspended = true) (hc : s.loc.th.pendingCall = none) : h.resumed = true := by
  have := hi.supply_le
  simp only [supply, demand, hp, hc, hs, Phase.taken] at this
  cases hr : h.resumed
  · simp [hr] at this
  · rfl

theorem wanted_effect {s : State} {h : Wakes} {l : Label} {x : Local} {b : Bool} (hi : Balanced (s, h))
    (hg : oneReason (s, h) l = true) (he : Effect s.loc l x b) :
    (noteResume s l (s.account x b l) h).spurious = false := by
  have hw := hi.wanted
  cases he with
  | dispatchDone _ _ _ hw => cases hw <;> simp_all [noteResume]
  | resumeContinuation hp hs hc => simp_all [noteResume, resumed_of_entered hi hp hs hc]
  | resumeContext hp hs ho =>
    have hc : s.loc.th.pendingCall = none := by
      rcases ho with ho | hc
      · simpa [oneReason, hs, ho] using hg
      · exact hc
    simp_all [noteResume, resumed_of_entered hi hp hs hc]
  | _ => simp_all [noteResume]

theorem balanced {p : State × Wakes}
    (h : Reach (track State.step noteResume) (fun p l => oneReason p l = true)
      (fun p => State.Init p.1 ∧ p.2 = {}) p) : Balanced p := by
  refine tracked_inv Balanced ?_ ?_ ?_ h
  · rintro ⟨s, r⟩ ⟨rfl | ⟨k, rfl⟩, rfl⟩ <;>
      exact ⟨by simp [supply, Phase.taken, DeferralState.kept, setupKernelThread], by simp, rfl⟩
  · intro s h l f hi _ hc
    -- `suspend` and `resume` do not throw, and a dispatch that throws does not jump.
    have hn : noteResume s l { s with loc := { s.loc with fault := some f } } h = h := by
      cases l <;> first | rfl | simp_all [Local.core, noteResume]
    rw [hn]
    exact ⟨hi.supply_le, hi.awake, hi.wanted⟩
  · intro s h l x b hi hg _ hr he
    exact ⟨supply_effect hi hg hr he, by simpa using awake_effect hi.awake he, wanted_effect hi hg he⟩

/-- Every jump to a `_resumeContext` leaves a suspension that was resumed, in every run whose entries have
one reason each: for any threads, any number of workers and any clients. -/
theorem suspension_ends_by_resume {ι ω : Type*} [DecidableEq ι] [DecidableEq ω] {p : System ι ω × (ι → Wakes)}
    (h : Reach (System.tracked noteResume) (fun p a => oneReason (p.1.view a.thread, p.2 a.thread) a.label = true)
      (fun p => System.Init p.1 ∧ ∀ i, p.2 i = {}) p) (i : ι) : (p.2 i).spurious = false :=
  (balanced (System.reach_tracked (G := fun p l => oneReason p l = true) (fun _ _ hg => hg) h i)).wanted

/-- A call that suspends. -/
def suspendedCall : List (Action Unit (Fin 2)) :=
  [byOther (.recv (.plain 0)), byOther .push, byWorker 0 .pop, byWorker 0 .dispatch, byWorker 0 .activate,
    byWorker 0 (.suspend none), byWorker 0 .commit, byWorker 0 .done]

theorem suspension_ends_by_resume_once : ∃ p : System Unit (Fin 2) × (Unit → Wakes),
    exec (System.tracked noteResume) (fun p a => oneReason (p.1.view a.thread, p.2 a.thread) a.label)
      (System.start, fun _ => {})
      (suspendedCall ++ [byOther .resume, byOther .resumePush, byWorker 1 .pop, byWorker 1 .dispatch]) = some p ∧
    (p.1.threads ()).phase = .body ∧ (p.2 ()).spurious = false := by
  have hrun : (exec (System.tracked noteResume) (fun p a => oneReason (p.1.view a.thread, p.2 a.thread) a.label)
      (System.start, fun _ => {})
      (suspendedCall ++ [byOther .resume, byOther .resumePush, byWorker 1 .pop, byWorker 1 .dispatch])).map
      (fun p => (p.1.threads ()).phase) = some .body := by decide
  obtain ⟨p, hp, hb⟩ := Option.map_eq_some_iff.1 hrun
  exact ⟨p, hp, hb, suspension_ends_by_resume
    (exec_reach (fun _ _ hg => hg) hp (.init ⟨System.start_init, fun _ => rfl⟩)) ()⟩

/-- `interrupt_enter` is queued behind the first call and leaves one entry too many: its own, pushed by the
main loop, and the one pushed when it is promoted. The next call is started by the entry left over and
suspends, and its own entry wakes it. -/
theorem suspension_ends_without_resume : ¬ ∀ p : System Unit (Fin 2) × (Unit → Wakes),
    Reach (System.tracked noteResume) (fun p a => System.conforms p.1 a = true)
      (fun p => System.Init p.1 ∧ ∀ i, p.2 i = {}) p → ∀ i, (p.2 i).spurious = false := by
  intro h
  have hrun : (exec (System.tracked noteResume) (fun p a => System.conforms p.1 a) (System.start, fun _ => {})
      [byOther (.recv (.plain 0)), byOther .push, byOther (.recv .interruptEnter), byOther .push,
        byWorker 0 .pop, byWorker 0 .dispatch, byWorker 0 .activate, byWorker 0 (.reply .byReturn), byWorker 0 .done,
        byOther .receive, byOther (.pushReply ⟨⟨0, .plain 0⟩⟩),
        byWorker 0 .pop, byWorker 0 .dispatch, byWorker 0 .activate, byWorker 0 .interruptBegin,
        byWorker 0 .interruptEnd, byWorker 0 (.reply .byReturn), byWorker 0 .done, byOther .receive,
        byOther (.recv (.plain 1)), byOther .push, byWorker 0 .pop, byWorker 0 .dispatch, byWorker 0 .activate,
        byWorker 0 (.suspend none), byWorker 0 .commit, byWorker 0 .done,
        byWorker 0 .pop, byWorker 0 .dispatch]).map (fun p => (p.2 ()).spurious) = some true := by decide
  obtain ⟨p, hp, hs⟩ := Option.map_eq_some_iff.1 hrun
  have := h p (exec_reach (fun _ _ hg => hg) hp (.init ⟨System.start_init, fun _ => rfl⟩)) ()
  simp_all

end DarlingServer
