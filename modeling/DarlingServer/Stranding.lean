import DarlingServer.System
/-!
# Pending calls keep an entry

A pending call is picked up only through an entry of its thread in the work
queue. `doWork` drops an entry it takes while the thread is running, and the
done-working section does not look at `_pendingCall`, so a call can be left
behind. None is left behind when no entry of a thread with a pending call is
taken while the thread runs, and no override makes `doWork` resume past one.
-/

namespace DarlingServer

open Thread Runs

/-- Every pending call of a thread that nobody runs has an entry, or is in the main loop's hands. -/
def Served {ι ω : Type*} (s : System ι ω) : Prop :=
  ∀ i c, (s.threads i).th.pendingCall = some c → (s.threads i).th.running = false → (s.threads i).th.dead = false →
    (s.threads i).th.terminating = false → (s.threads i).th.deferralState = .notDeferred →
    i ∈ s.queue ∨ s.mainLoop = some (i, c)

/-- No entry is dropped, and no suspension resumed, over a pending call. -/
def attentive (s : State) : Label → Bool
  | .pop => s.loc.th.pendingCall.isNone || !s.loc.th.running || s.loc.th.deferralState ≠ .notDeferred
  | .dispatch => s.loc.th.pendingCall.isNone || !s.loc.th.suspended || !s.loc.th.pendingCallOverride
  | _ => true

/-- What a pending call waits for. -/
def Awaited (s : State) : Prop :=
  ∀ c, s.loc.th.pendingCall = some c → 0 < s.entries ∨ s.toPush = some c ∨
    s.loc.phase = .entered ∨ s.loc.phase = .starting ∨ s.loc.th.dead = true ∨ s.loc.th.terminating = true ∨
    s.loc.th.deferralState = .deferredPending

theorem awaited_effect {s : State} {l : Label} {x : Local} {b : Bool} (hi : Awaited s) (hg : attentive s l = true)
    (hr : s.ready l = true) (he : Effect s.loc l x b) : Awaited (s.account x b l) := by
  intro c hc
  rw [account_loc] at hc
  replace hi := hi c
  by_cases hl : l.windsUp = true
  · -- the call was not in the phases in which one is picked up, and is where it was
    have hw := windUp_effect he hl
    have hs := hi (hw.pendingCall ▸ hc)
    rw [account_windsUp he hl]
    simp only [hw.dead, hw.terminating, hw.deferralState]
    rcases hw.was with hp | hp | hp <;> simp only [hp, reduceCtorEq, false_or] at hs
    all_goals exact hs.imp_right (Or.imp_right fun hs => .inr (.inr hs))
  cases he with
  | replyReturn | syscallReturn | replyExit | replyDirect | finish | exitPop | exitPopSaved => exact absurd rfl hl
  | dispatchDone _ _ hp hw =>
    cases hw with
    | idle _ => simp_all
    | promote => simp [State.account]
  | doneFree _ _ _ hw | doneKeep _ _ _ hw =>
    cases hw with
    | idle _ =>
      have := hi hc
      simp only [State.account, Bool.or_eq_true]
      grind -linarith
    | promote => simp [State.account]
  | recvQueued hp =>
    have := hi hc
    simp_all only [State.account, State.ready, Option.isNone_iff_eq_none]
    grind -linarith
  | defer hd | impersonate _ hd | notifyDead hd =>
    have := hi hc
    simp only [State.account]
    grind -linarith
  | undefer | unimpersonate _ =>
    have := hi hc
    by_cases hd : s.loc.th.deferralState = .deferredPending
    · simp [State.account, hd]
    · simp_all [State.account]
  | _ => simp_all [State.account, attentive, State.ready]

theorem awaited {s : State} (h : Reach State.step (fun s l => attentive s l = true) State.Init s) : Awaited s := by
  refine reach_inv Awaited ?_ (fun _ _ hi => hi) (fun s l x b hi hg hr he => awaited_effect hi hg hr he) h
  rintro s (rfl | ⟨k, rfl⟩) <;> simp [Awaited, setupKernelThread]

/-- No call is stranded in a run whose workers drop no entry, and resume no suspension, over a pending
call: for any threads, any number of workers and any clients. -/
theorem pending_call_served {ι ω : Type*} [DecidableEq ι] [DecidableEq ω] {s : System ι ω}
    (h : Reach System.step (fun s a => attentive (s.view a.thread) a.label = true) System.Init s) : Served s := by
  intro i c hc hr hd ht hn
  have hv := System.reach_view (G := fun s l => attentive s l = true) (fun _ _ hg => hg) h i
  have hoff : (s.threads i).phase = .off := by
    have := running_iff hv
    simp_all
  rcases awaited hv c hc with he | hp | he | he | he | he | he
  · exact .inl (Multiset.count_pos.1 he)
  · obtain ⟨⟨j, d⟩, hm, hj⟩ := Option.bind_eq_some_iff.1 hp
    dsimp only at hj
    split at hj
    · cases hj
      subst j
      exact .inr hm
    · cases hj
  all_goals simp_all

theorem pending_call_served_one_call : ∃ s : System Unit (Fin 2),
    exec System.step (fun s a => attentive (s.view a.thread) a.label) System.start
      (oneCall ++ [byWorker 0 .done, byOther (.recv (.plain 1)), byOther .push]) = some s ∧
    (s.threads ()).th.pendingCall = some ⟨1, .plain 1⟩ ∧ Served s := by
  have hrun : (exec System.step (fun s a => attentive (s.view a.thread) a.label) System.start
      (oneCall ++ [byWorker 0 .done, byOther (.recv (.plain 1)), byOther .push])).map
      (fun s => (s.threads ()).th.pendingCall) = some (some ⟨1, .plain 1⟩) := by decide
  obtain ⟨s, hs, hp⟩ := Option.map_eq_some_iff.1 hrun
  exact ⟨s, hs, hp, pending_call_served (exec_reach (fun _ _ hg => hg) hs (.init System.start_init))⟩

/-- The client has its first reply and sends again while worker 0 is still on its way back to the
top; worker 1 takes the new entry, sees the thread running and drops it. -/
theorem call_stranded : ¬ ∀ s : System Unit (Fin 2),
    Reach System.step (fun s a => System.conforms s a = true) System.Init s → Served s := by
  intro h
  have hrun : (exec System.step System.conforms System.start
      (oneCall ++ [byOther (.recv (.plain 1)), byOther .push, byWorker 1 .pop, byWorker 0 .done])).map
      (fun s => decide ((s.threads ()).th.pendingCall = some ⟨1, .plain 1⟩ ∧ (s.threads ()).th.running = false ∧
        (s.threads ()).th.dead = false ∧ (s.threads ()).th.terminating = false ∧
        (s.threads ()).th.deferralState = .notDeferred ∧ () ∉ s.queue ∧ s.mainLoop = none)) = some true := by
    decide
  obtain ⟨s, hs, hp⟩ := Option.map_eq_some_iff.1 hrun
  obtain ⟨hc, hr, hd, ht, hn, hq, hm⟩ := of_decide_eq_true hp
  have := h s (exec_reach (fun _ _ hg => hg) hs (.init System.start_init)) () _ hc hr hd ht hn
  simp_all

end DarlingServer
