import DarlingServer.Activation
/-!
# Releasing a dead thread

A thread that dies is released once its last call is over: by `notifyDead` if no
call is active, and otherwise by the done-working section that finds it dead with
no active call. Each decides under the thread's lock and calls `_scheduleRelease`
after it has let go, so a decision is a step of its own here.
-/

namespace DarlingServer

open Thread Runs

/-! ## The decisions -/

/-- `canRelease` in `notifyDead`. -/
def Thread.notifyDeadReleases (t : Thread) : Bool := !t.dead && t.activeCall.isNone

/-- `canRelease` in the done-working section of `doWork`. -/
def Thread.doneWorkingReleases (t : Thread) : Bool := t.dead && t.activeCall.isNone && !t.terminating

/-- Whether a section that leaves the thread at `x` decides to release it. -/
def canRelease (s x : Local) : Label → Bool
  | .notifyDead => s.th.notifyDeadReleases
  | .pop => s.th.doWorkEntry.2 = .doneWorking && s.th.doWorkEntry.1.doneWorkingReleases
  | .dispatch | .done => x.phase = .off && s.th.doneWorkingReleases
  | _ => false

/-- A thread, the decisions to release it that have yet to be carried out, and
how often `_scheduleRelease` ran. -/
structure Dying where
  state : State := {}
  releasing : Nat := 0
  released : Nat := 0

inductive DyingLabel where
  | thread (l : Label)
  | scheduleRelease
  deriving DecidableEq, Repr

namespace Dying

def step (p : Dying) : DyingLabel → Option Dying
  | .thread l =>
    (p.state.step l).map fun state =>
      { p with
        state
        releasing := p.releasing + (state.loc.fault.isNone && canRelease p.state.loc state.loc l).toNat }
  | .scheduleRelease =>
    if p.releasing = 0 then none else some { p with releasing := p.releasing - 1, released := p.released + 1 }

def Init (p : Dying) : Prop := ∃ s : State, s.Init ∧ p = { state := s }

/-- No checkout answers on a dead thread while it is the active call; `notifyDead`
finds no answered call active; and a kernel thread gets no calls. -/
def heeded (p : Dying) : DyingLabel → Bool
  | .thread (.recv _) => p.state.loc.client.user
  | .thread .replyDirect => !p.state.loc.th.dead || p.state.loc.cur.call ≠ p.state.loc.th.activeCall
  | .thread .notifyDead => p.state.loc.th.dead || p.state.loc.th.activeCall.all fun c => ⟨c⟩ ∉ p.state.loc.handed
  | _ => true

/-- Dead, not running, with no entry in the work queue; the last call received has
had its reply sent or dropped; and nothing decided is left to be carried out. -/
structure AtRest (p : Dying) : Prop where
  dead : p.state.loc.th.dead = true
  notRunning : p.state.loc.th.running = false
  noEntry : p.state.entries = 0
  answered : p.state.loc.nextCall ≠ 0 → ∃ m ∈ p.state.loc.handed, m.call.id + 1 = p.state.loc.nextCall ∧
    (m ∈ p.state.loc.sent ∨ m ∈ p.state.loc.dropped)
  carriedOut : p.releasing = 0

end Dying

/-! ## What a section decides -/

variable {s x : Local} {l : Label} {b : Bool}

/-- A thread that has been marked dead and terminating. -/
def Gone (t : Thread) : Prop := t.dead = true ∧ t.terminating = true

theorem step_notifyDead {s s' : State} (h : s.step .notifyDead = some s') :
    s'.loc = { s.loc with th := s.loc.th.notifyDead } := by
  unfold State.step at h
  split at h
  · cases h
  · cases h
    rfl

theorem canRelease_pop : canRelease s x .pop = false := by
  simp only [canRelease, doWorkEntry]
  split
  · simp
  · split
    · simp
    · split
      · rename_i ht
        simp [doneWorkingReleases, ht]
      · split <;> simp [doneWorkingReleases]

theorem gone_doneWorking {t t' : Thread} (hw : DoneWorking t t' b) :
    (t.doneWorkingReleases = true → ¬Gone t ∧ Gone t') ∧ (Gone t' → Gone t ∨ t.doneWorkingReleases = true) ∧
      (Gone t → Gone t') := by
  unfold Gone doneWorkingReleases
  cases hw with
  | idle => cases t.dead <;> cases t.terminating <;> cases t.activeCall <;> simp
  | promote ht hd => simp [ht, hd]

/-- Sections other than `notifyDead`: a decision is what makes a thread gone that
was not, but for an entry check that finds a dead thread with no call. -/
theorem gone_effect (he : Effect s l x b) (hl : l ≠ .notifyDead) :
    (canRelease s x l = true → ¬Gone s.th ∧ Gone x.th) ∧ (Gone s.th → Gone x.th) ∧
      (Gone x.th → Gone s.th ∨ canRelease s x l = true ∨
        (s.client.user = false ∧ s.th.dead = true) ∨
        (s.th.running = false ∧ s.th.dead = true ∧ s.th.activeCall = none ∧ s.th.terminating = false)) := by
  have hwind := windUp_effect he
  cases he with
  | dispatchDone _ _ _ hw | doneKeep _ _ _ hw =>
    obtain ⟨h₁, h₂, h₃⟩ := gone_doneWorking hw
    simp only [canRelease, decide_true, Bool.true_and]
    exact ⟨h₁, h₃, fun h => (h₂ h).imp_right .inl⟩
  | doneFree _ _ _ hw =>
    obtain ⟨h₁, h₂, h₃⟩ := gone_doneWorking hw
    simp only [canRelease, decide_true, Bool.true_and]
    exact ⟨h₁, h₃, fun h => (h₂ h).imp_right .inl⟩
  | popDone _ hr ht =>
    rw [canRelease_pop]
    simp only [Gone]
    grind -linarith
  | popDeferred | popRunning | popEntered =>
    rw [canRelease_pop]
    exact ⟨by simp, id, .inl⟩
  | replyReturn | syscallReturn | replyExit | replyDirect | finish | exitPop | exitPopSaved =>
    rw [Gone, Gone, (hwind rfl).dead, (hwind rfl).terminating]
    exact ⟨by simp [canRelease], id, .inl⟩
  | terminate hu =>
    refine ⟨by simp [canRelease], fun h => ⟨h.1, rfl⟩, fun h => .inr (.inr (.inl ⟨hu, h.1⟩))⟩
  | notifyDead => exact absurd rfl hl
  | _ => exact ⟨by simp [canRelease], id, .inl⟩

theorem gone_notifyDead (t : Thread) :
    (t.notifyDeadReleases = true → ¬Gone t ∧ Gone t.notifyDead) ∧ (Gone t → Gone t.notifyDead) ∧
      (Gone t.notifyDead → Gone t ∨ t.notifyDeadReleases = true ∨
        (t.dead = false ∧ t.terminating = true ∧ t.activeCall ≠ none)) := by
  simp only [Gone, notifyDeadReleases, Thread.notifyDead]
  cases hd : t.dead <;> cases ht : t.terminating <;> cases t.activeCall <;> simp [hd, ht]

/-! ## Who a thread belongs to -/

theorem user_expect (k : Client) (m : Message) : (k.expect m).user = k.user := by
  unfold Client.expect
  split
  · split <;> rfl
  · rfl

theorem user_receive {k k' : Client} (h : k.receive = some k') : k'.user = k.user := by
  unfold Client.receive at h
  split at h
  · cases h
  · split at h
    · split at h <;> cases h <;> rfl
    · cases h
      exact user_expect _ _

theorem user_send (k : Client) (c : Call) : (k.send c).user = k.user := by
  unfold Client.send
  split <;> rfl

theorem user_effect (he : Effect s l x b) : x.client.user = s.client.user := by
  have hwind := windUp_effect he
  cases he with
  | recv | recvQueued => exact user_send _ _
  | receive hk => exact user_receive hk
  | replyReturn | syscallReturn | replyExit | replyDirect | finish | exitPop | exitPopSaved => exact (hwind rfl).user
  | dispatchDone _ _ _ hw | doneFree _ _ _ hw | doneKeep _ _ _ hw => cases hw <;> rfl
  | _ => rfl

/-- No call at all, as on a kernel thread. -/
def Callless (t : Thread) : Prop := t.activeCall = none ∧ t.pendingCall = none ∧ t.pendingInterrupts = []

theorem callless_effect (hrun : s.th.running = true ↔ s.phase ≠ .off) (h : Callless s.th) (he : Effect s l x b)
    (hl : ∀ n, l ≠ .recv n) : Callless x.th := by
  obtain ⟨ha, hp, hq⟩ := h
  by_cases hact : l = .activate
  · subst hact
    cases he with
    | activate _ hc => simp [hp] at hc
  · have hnone : x.th.activeCall = none := Option.eq_none_iff_forall_ne_some.2 fun c hc => by
      simpa [ha] using (active_effect he hact hc).1
    cases queueing_effect hrun he hact with
    | same hpx hqx => exact ⟨hnone, hpx.trans hp, hqx.trans hq⟩
    | received hr => exact absurd hr (hl _)
    | queued hp' => simp [hp] at hp'
    | promoted _ hq' => simp [hq] at hq'

/-! ## Every step -/

/-- A worker has yet to come to the done-working section. -/
def Phase.isWorking : Phase → Bool
  | .off | .impersonated => false
  | _ => true

/-- A dead thread that is not gone has a call to finish, or a worker that will see it is over. -/
def WillFinish (s : Local) : Prop :=
  s.th.dead = true → s.th.terminating = false → s.th.activeCall ≠ none ∨ s.phase.isWorking = true

theorem willFinish_doneWorking {t t' : Thread} (hw : DoneWorking t t' b) (hd : t'.dead = true) (ht : t'.terminating = false) :
    t'.activeCall ≠ none := by
  cases hw with
  | idle => cases ha : t.activeCall <;> simp_all
  | promote _ hdead => simp [hdead] at hd

theorem willFinish_effect (h : WillFinish s) (he : Effect s l x b) (hl : l ≠ .notifyDead) : WillFinish x := by
  intro hd ht
  cases he with
  | dispatchDone _ _ _ hw | doneFree _ _ _ hw | doneKeep _ _ _ hw => exact .inl (willFinish_doneWorking hw hd ht)
  | activate => exact .inl (by simp)
  | replyReturn _ _ _ _ _ ha hl | syscallReturn _ _ _ ha hl => cases hl <;> exact .inr rfl
  | replyDirect _ _ _ _ hl | finish _ _ hl | exitPop _ _ _ hl | exitPopSaved _ _ _ hl => cases hl <;> exact .inr rfl
  | popDone | terminate => cases ht
  | impersonate hp | claim hp | unimpersonate hp =>
    have := h hd ht
    simp only [hp, Phase.isWorking, Bool.false_eq_true, or_false] at this
    exact .inl this
  | notifyDead => exact absurd rfl hl
  | popEntered | resumeContinuation | resumeContext | startCall | startInterrupt | suspend | commit | commitResumed
  | replyExit | interruptContinuation | interruptJump | interruptNothing | interruptEnd => exact .inr rfl
  | _ => exact h hd ht

theorem willFinish_notifyDead (h : WillFinish s) : WillFinish { s with th := s.th.notifyDead } := by
  intro _ ht
  simp only [Thread.notifyDead] at ht ⊢
  by_cases hd : s.th.dead = true
  · rw [if_pos hd] at ht ⊢
    exact h hd ht
  · rw [if_neg hd] at ht ⊢
    exact .inl fun hnone => by simp_all

namespace Dying

variable {p q : Dying}

/-- How often a release was decided on. -/
def decided (p : Dying) : Nat := p.releasing + p.released

theorem thread_reach {G : Dying → DyingLabel → Prop} (h : Reach step G Init p) :
    Reach State.step (fun _ _ => True) State.Init p.state := by
  refine h.view Dying.state ?_ fun p l q _ hst => ?_
  · rintro _ ⟨s, hs, rfl⟩
    exact hs
  · cases l with
    | thread l =>
      obtain ⟨s', hs, rfl⟩ := Option.map_eq_some_iff.1 hst
      exact .inr ⟨l, trivial, hs⟩
    | scheduleRelease =>
      simp only [step] at hst
      split at hst <;> cases hst
      exact .inl rfl

/-- A step of the thread and what it decides, with `notifyDead` apart; or a decision carried out. -/
inductive Steps (p : Dying) : DyingLabel → Dying → Prop
  | fault {k f} : Steps p (.thread k) { p with state := { p.state with loc := { p.state.loc with fault := some f } } }
  | effect {k y c} : k ≠ .notifyDead → Effect p.state.loc k y c →
      Steps p (.thread k) ⟨p.state.account y c k, p.releasing + (canRelease p.state.loc y k).toNat, p.released⟩
  | notifyDead {state} : state.loc = { p.state.loc with th := p.state.loc.th.notifyDead } →
      Steps p (.thread .notifyDead)
        ⟨state, p.releasing + p.state.loc.th.notifyDeadReleases.toNat, p.released⟩
  | scheduleRelease : p.releasing ≠ 0 →
      Steps p .scheduleRelease { p with releasing := p.releasing - 1, released := p.released + 1 }

theorem steps {l : DyingLabel} (h : p.step l = some q) : Steps p l q := by
  cases l with
  | thread l =>
    obtain ⟨s', hs, rfl⟩ := Option.map_eq_some_iff.1 h
    obtain ⟨hf, -, hc⟩ := step_cases hs
    by_cases hl : l = .notifyDead
    · subst hl
      have hloc := step_notifyDead hs
      have hnone : s'.loc.fault = none := by rw [hloc]; exact hf
      simpa [hnone, canRelease] using Steps.notifyDead (p := p) hloc
    · obtain ⟨f, -, rfl⟩ | ⟨x, b, he, rfl⟩ := hc
      · simpa using Steps.fault
      · have hnone : x.fault = none := (fault_effect he).trans hf
        simpa [hnone] using Steps.effect (p := p) hl he
  | scheduleRelease =>
    simp only [step] at h
    split at h <;> cases h
    exact .scheduleRelease ‹_›

/-- A release is only decided on by a thread that goes with it. -/
theorem decided_turn {n n' : Nat} {t t' : Thread} {b : Bool} (hi : n = 0 ∨ n = 1 ∧ Gone t)
    (hgoes : b = true → ¬ Gone t ∧ Gone t') (hstays : Gone t → Gone t') (hfalse : b = false → n' = n)
    (htrue : b = true → n' = n + 1) : n' = 0 ∨ n' = 1 ∧ Gone t' := by
  cases hb : b with
  | false =>
    rw [hfalse hb]
    exact hi.imp_right fun h => ⟨h.1, hstays h.2⟩
  | true =>
    obtain ⟨hnot, hgone⟩ := hgoes hb
    have hzero := hi.resolve_right fun h => hnot h.2
    exact .inr ⟨by rw [htrue hb, hzero], hgone⟩

/-- In every run: a release is decided on once at most, and then the thread is gone. -/
theorem decided_step {l : DyingLabel} (hi : p.decided = 0 ∨ p.decided = 1 ∧ Gone p.state.loc.th)
    (h : Steps p l q) : q.decided = 0 ∨ q.decided = 1 ∧ Gone q.state.loc.th := by
  unfold decided at *
  cases h with
  | fault => exact hi
  | effect hl he =>
    obtain ⟨h₁, h₂, -⟩ := gone_effect he hl
    rw [account_loc]
    refine decided_turn hi h₁ h₂ (fun hc => ?_) fun hc => ?_
    · simp [hc]
    · simp [hc]
      omega
  | notifyDead hs =>
    obtain ⟨h₁, h₂, -⟩ := gone_notifyDead p.state.loc.th
    simp only [hs]
    refine decided_turn hi h₁ h₂ (fun hc => ?_) fun hc => ?_
    · simp [hc]
    · simp [hc]
      omega
  | scheduleRelease hr =>
    simp only
    rcases hi with hi | ⟨hi, hg⟩
    · exact .inl (by omega)
    · exact .inr ⟨by omega, hg⟩

theorem decided_reach {G : Dying → DyingLabel → Prop} (h : Reach step G Init p) :
    p.decided = 0 ∨ p.decided = 1 ∧ Gone p.state.loc.th := by
  refine h.inv (fun p => p.decided = 0 ∨ p.decided = 1 ∧ Gone p.state.loc.th) ?_
    fun p l q hi _ hst => decided_step hi (steps hst)
  rintro _ ⟨s, hs, rfl⟩
  exact .inl rfl

/-- What holds in runs that heed the condition. -/
structure Heeds (p : Dying) : Prop where
  decided : Gone p.state.loc.th → p.decided = 1
  willFinish : WillFinish p.state.loc
  user : p.state.loc.client.user = true → p.state.loc.th.terminating = true → p.state.loc.th.dead = true
  kernel : p.state.loc.client.user = false → Callless p.state.loc.th ∧
    (p.state.loc.th.dead = true → p.state.loc.th.terminating = true)
  unanswered : p.state.loc.th.dead = true → Unanswered p.state.loc

theorem heeds_init (h : Init p) : Heeds p := by
  obtain ⟨s, hs, rfl⟩ := h
  have hd : s.loc.th.dead = false ∧ s.loc.th.terminating = false ∧ Callless s.loc.th := by
    rcases hs with rfl | ⟨k, rfl⟩ <;> exact ⟨rfl, rfl, rfl, rfl, rfl⟩
  obtain ⟨hd, ht, hc⟩ := hd
  exact ⟨by simp [Gone, hd], by simp [WillFinish, hd], by simp [ht], by simp [hd, hc], by simp [hd]⟩

theorem dead_doneWorking {t t' : Thread} (hw : DoneWorking t t' b) :
    t'.dead = t.dead ∧ (t'.terminating = true → t.terminating = true ∨ t.dead = true) := by
  cases hw with
  | idle =>
    refine ⟨rfl, fun h => ?_⟩
    simp only [Bool.or_eq_true, Bool.and_eq_true] at h
    exact h.imp_right And.left
  | promote => exact ⟨rfl, .inl⟩

/-- A section other than `notifyDead` leaves a thread alive, and one alive and not terminating so. -/
theorem dead_effect (he : Effect s l x b) (hl : l ≠ .notifyDead) :
    x.th.dead = s.th.dead ∧ (x.th.terminating = true → s.th.terminating = true ∨ s.th.dead = true ∨
      s.client.user = false) := by
  have hwind := windUp_effect he
  cases he with
  | dispatchDone _ _ _ hw | doneFree _ _ _ hw | doneKeep _ _ _ hw =>
    obtain ⟨hd, ht⟩ := dead_doneWorking hw
    exact ⟨hd, fun h => (ht h).imp_right .inl⟩
  | popDone _ _ ht => exact ⟨rfl, fun _ => ht.imp_right fun h => .inl h.1⟩
  | terminate hu => exact ⟨rfl, fun _ => .inr (.inr hu)⟩
  | notifyDead => exact absurd rfl hl
  | replyReturn | syscallReturn | replyExit | replyDirect | finish | exitPop | exitPopSaved =>
    rw [(hwind rfl).terminating]
    exact ⟨(hwind rfl).dead, .inl⟩
  | _ => exact ⟨rfl, .inl⟩

theorem terminating_effect (he : Effect s l x b) (ht : s.th.terminating = true) : x.th.terminating = true := by
  have hwind := windUp_effect he
  cases he with
  | dispatchDone _ _ _ hw | doneFree _ _ _ hw | doneKeep _ _ _ hw => cases hw <;> simp_all
  | notifyDead htm => rcases htm with rfl | ⟨rfl, -⟩ <;> simp [ht]
  | replyReturn | syscallReturn | replyExit | replyDirect | finish | exitPop | exitPopSaved =>
    exact (hwind rfl).terminating.trans ht
  | popDone | terminate => rfl
  | _ => exact ht

theorem heeds_step {l : DyingLabel} {n : Nat} (hn : Sequenced n p.state.loc)
    (hrun : p.state.loc.th.running = true ↔ p.state.loc.phase ≠ .off)
    (hc : p.decided = 0 ∨ p.decided = 1 ∧ Gone p.state.loc.th) (h : Heeds p) (hg : p.heeded l = true)
    (hs : Steps p l q) : Heeds q := by
  have hq := decided_step hc hs
  cases hs with
  | fault => exact ⟨h.decided, h.willFinish, h.user, h.kernel, h.unanswered⟩
  | @effect l x b hl he =>
    obtain ⟨hd, ht⟩ := dead_effect he hl
    refine ⟨fun hgone => ?_, ?_, ?_, ?_, ?_⟩ <;> simp only [account_loc] at *
    · obtain ⟨-, -, hwhy⟩ := gone_effect he hl
      have hold : p.decided = 1 → (p.releasing + (canRelease p.state.loc x l).toNat) + p.released ≠ 0 := by
        unfold decided
        omega
      refine (hq.resolve_left ?_).1
      unfold decided
      rcases hwhy hgone with hg' | hg' | ⟨hu, hdead⟩ | ⟨hr, hdead, ha, hterm⟩
      · exact hold (h.decided hg')
      · simp [hg']
      · exact hold (h.decided ⟨hdead, (h.kernel hu).2 hdead⟩)
      -- the entry check that finds a dead thread without a call: a worker has been there before
      · have hoff : p.state.loc.phase = .off := Decidable.not_not.1 fun hne => by
          simp [hrun.2 hne] at hr
        have := h.willFinish hdead hterm
        simp [ha, hoff, Phase.isWorking] at this
    · exact willFinish_effect h.willFinish he hl
    · rw [user_effect he, hd]
      intro hu hterm
      rcases ht hterm with h' | h' | h'
      · exact h.user hu h'
      · exact h'
      · simp [hu] at h'
    · rw [user_effect he, hd]
      intro hu
      refine ⟨callless_effect hrun (h.kernel hu).1 he fun n hr => ?_, fun hdead => ?_⟩
      · subst hr
        simp [heeded, hu] at hg
      · exact terminating_effect he ((h.kernel hu).2 hdead)
    · rw [hd]
      intro hdead
      refine unanswered_effect hn (h.unanswered hdead) he fun hr => ?_
      subst hr
      simpa [heeded, hdead] using hg
  | notifyDead hs =>
    obtain ⟨-, -, hwhy⟩ := gone_notifyDead p.state.loc.th
    simp only [heeded, Bool.or_eq_true] at hg
    refine ⟨fun hgone => ?_, ?_, ?_, ?_, ?_⟩ <;> simp only [hs] at *
    · refine (hq.resolve_left ?_).1
      unfold decided
      rcases hwhy hgone with hg' | hg' | ⟨hdead, hterm, ha⟩
      · have := h.decided hg'
        unfold decided at this
        simp only
        omega
      · simp [hg']
      · -- a user's thread is not terminating while it lives, and a kernel thread has no call
        cases hu : p.state.loc.client.user with
        | true => simp [h.user hu hterm] at hdead
        | false => exact absurd (h.kernel hu).1.1 ha
    · exact willFinish_notifyDead h.willFinish
    · intro _ _
      unfold Thread.notifyDead
      split <;> simp_all
    · intro hu
      obtain ⟨hcl, hterm⟩ := h.kernel hu
      unfold Thread.notifyDead
      split
      · exact ⟨hcl, hterm⟩
      · exact ⟨hcl, fun _ => by simp [hcl.1]⟩
    · intro _ c hcall
      unfold Thread.notifyDead at hcall
      split at hcall
      · exact h.unanswered ‹_› c hcall
      · rename_i hd
        have := hg.resolve_left hd
        simpa [show p.state.loc.th.activeCall = some c from hcall] using this
  | scheduleRelease hr =>
    refine ⟨fun hgone => ?_, h.willFinish, h.user, h.kernel, h.unanswered⟩
    have := h.decided hgone
    unfold decided at *
    simp only
    omega

theorem heeds (h : Reach step (fun p l => p.heeded l = true) Init p) : Heeds p := by
  refine h.inv_with
    (fun p => (∃ n, Sequenced n p.state.loc) ∧ (p.state.loc.th.running = true ↔ p.state.loc.phase ≠ .off) ∧
      (p.decided = 0 ∨ p.decided = 1 ∧ Gone p.state.loc.th)) Heeds
    (fun p hr => ⟨sequenced (thread_reach hr), running_iff (thread_reach hr), decided_reach hr⟩)
    (fun _ => heeds_init) ?_
  rintro p l q ⟨⟨n, hn⟩, hrun, hc⟩ hi hg hst
  exact heeds_step hn hrun hc hi hg (steps hst)

/-- The last call that was received is the active one, or none is. -/
theorem active_eq_last {n : Nat} (hn : Sequenced n s) {c : Call} (hc : s.th.activeCall = some c) {m : Message}
    (hm : m ∈ s.handed) (hlast : m.call.id + 1 = s.nextCall) : m.call = c := by
  have hbegun : Begun s m.call := .inr (.inr (.inr (.inr (.inr hm))))
  have h₁ := hn.begun _ hbegun
  have h₂ := hn.bound
  have h₃ := hn.active c hc
  exact hn.unique _ _ hbegun (.inl hc) (by omega)

/-- `_scheduleRelease` runs at most once in every run; and in every run that heeds
the condition it has run whenever the thread is dead and at rest. -/
theorem thread_released_once (p : Dying) :
    (Reach step (fun _ _ => True) Init p → p.released ≤ 1) ∧
      (Reach step (fun p l => p.heeded l = true) Init p → p.AtRest → p.released = 1) := by
  refine ⟨fun h => ?_, fun h hr => ?_⟩
  · have := decided_reach h
    unfold decided at this
    omega
  · have hi := heeds h
    obtain ⟨n, hn⟩ := sequenced (thread_reach h)
    have hrest := hr.notRunning
    have hnone : p.state.loc.th.activeCall = none := Option.eq_none_iff_forall_ne_some.2 fun c hc => by
      have hid := hn.begun c (.inl hc)
      have hbound := hn.bound
      obtain ⟨m, hm, hlast, -⟩ := hr.answered (by omega)
      exact hi.unanswered hr.dead c hc (active_eq_last hn hc hm hlast ▸ hm)
    have hoff : p.state.loc.phase = .off := Decidable.not_not.1 fun hne => by
      simp [(running_iff (thread_reach h)).2 hne] at hrest
    have hgone : Gone p.state.loc.th := by
      refine ⟨hr.dead, Bool.of_not_eq_false fun hterm => ?_⟩
      have := hi.willFinish hr.dead hterm
      simp [hnone, hoff, Phase.isWorking] at this
    have := hi.decided hgone
    unfold decided at this
    have := hr.carriedOut
    omega

/-- The process dies while a call of the thread waits; `notifyDead` resumes the call, which finishes. -/
def dyingInCall : List DyingLabel :=
  [.thread (.recv (.plain 0)), .thread .push, .thread .pop, .thread .dispatch, .thread .activate,
    .thread (.suspend none), .thread .commit, .thread .done, .thread .notifyDead, .thread .resume, .thread .resumePush,
    .thread .pop, .thread .dispatch, .thread (.reply .byReturn), .thread .done, .scheduleRelease]

theorem thread_released_once_call : ∃ p : Dying,
    exec step (fun p l => p.heeded l) {} dyingInCall = some p ∧ p.AtRest ∧ p.released = 1 := by
  have hrun : (exec step (fun p l => p.heeded l) {} dyingInCall).map (fun p =>
      (p.state.loc.th.dead, p.state.loc.th.running, p.state.entries, p.releasing, p.state.loc.nextCall,
        p.state.loc.handed, p.state.loc.dropped)) =
      some (true, false, 0, 0, 1, [⟨⟨0, .plain 0⟩⟩], [⟨⟨0, .plain 0⟩⟩]) := rfl
  obtain ⟨p, hp, hs⟩ := Option.map_eq_some_iff.1 hrun
  simp only [Prod.mk.injEq] at hs
  obtain ⟨h₁, h₂, h₃, h₄, h₅, h₆, h₇⟩ := hs
  have hrest : p.AtRest := ⟨h₁, h₂, h₃, fun _ => ⟨⟨⟨0, .plain 0⟩⟩, by simp [h₆], by simp [h₅], by simp [h₇]⟩, h₄⟩
  exact ⟨p, hp, hrest, (thread_released_once p).2
    (exec_reach (fun _ _ hg => hg) hp (.init ⟨{}, .inl rfl, rfl⟩)) hrest⟩

/-- A thread checks out: it dies while its `checkout` is active, and nothing deactivates the call. -/
theorem checked_out_not_released :
    ¬ ∀ p, Reach step (fun _ _ => True) Init p → p.AtRest → p.released = 1 := by
  intro h
  have hrun : (exec step (fun _ _ => true) {} [.thread (.recv .checkout), .thread .push, .thread .pop, .thread .dispatch,
      .thread .activate, .thread .notifyDead, .thread .replyDirect, .thread .done]).map (fun p =>
      (p.state.loc.th.dead, p.state.loc.th.running, p.state.entries, p.releasing, p.state.loc.nextCall,
        p.state.loc.handed, p.state.loc.sent, p.released)) =
      some (true, false, 0, 0, 1, [⟨⟨0, .checkout⟩⟩], [⟨⟨0, .checkout⟩⟩], 0) := rfl
  obtain ⟨p, hp, hs⟩ := Option.map_eq_some_iff.1 hrun
  simp only [Prod.mk.injEq] at hs
  obtain ⟨h₁, h₂, h₃, h₄, h₅, h₆, h₇, h₈⟩ := hs
  have := h p (exec_reach (fun _ _ _ => trivial) hp (.init ⟨{}, .inl rfl, rfl⟩))
    ⟨h₁, h₂, h₃, fun _ => ⟨⟨⟨0, .checkout⟩⟩, by simp [h₆], by simp [h₅], by simp [h₇]⟩, h₄⟩
  simp [h₈] at this

end Dying

end DarlingServer
