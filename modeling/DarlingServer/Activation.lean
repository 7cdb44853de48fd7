import DarlingServer.Effects
/-!
# The order in which calls begin

Calls are numbered as they are received. Whatever a client sends, a thread that
may still run its calls begins them in that order: the active call is the last
one that began, and every call that is answered, interrupted or captured in a
context began before it or is that one. An answered call is the active one only
if it is a `checkout`, which answers past the thread.
-/

namespace DarlingServer

open Thread Runs

/-- A call that `makePendingCallActive` has been through. -/
def Begun (s : Local) (c : Call) : Prop :=
  s.th.activeCall = some c ∨ (∃ r ∈ s.th.interrupts, r.interruptedCall = some c) ∨ s.cur.call = some c ∨
    (∃ ctx, s.th.resumeContext = some ctx ∧ ctx.call = some c) ∨
    (∃ ctx, s.th.syscallReturnHereDuringInterrupt = some ctx ∧ ctx.call = some c) ∨ ⟨c⟩ ∈ s.handed

/-- The done-working section would still promote a queued interrupt. -/
def mayPromote (t : Thread) : Bool := !t.dead && !t.terminating

/-- No call has begun since the worker, if any, took the thread. -/
def Phase.isWaiting : Phase → Bool
  | .off | .entered | .starting | .impersonated => true
  | _ => false

/-- The first `n` calls received may have begun, and no other. -/
structure Sequenced (n : Nat) (s : Local) : Prop where
  bound : n ≤ s.nextCall
  begun : ∀ c, Begun s c → c.id < n
  unique : ∀ c d, Begun s c → Begun s d → c.id = d.id → c = d
  active : ∀ c, s.th.activeCall = some c → c.id + 1 = n
  records : ∀ c, s.th.activeCall = some c → ∀ r ∈ s.th.interrupts, ∀ d, r.interruptedCall = some d → d.id < c.id
  pending : ∀ c, s.th.pendingCall = some c → n ≤ c.id ∧ c.id < s.nextCall
  queued : ∀ c ∈ s.th.pendingInterrupts, c.id < s.nextCall
  sorted : s.th.pendingInterrupts.Pairwise (·.id < ·.id)
  queue : mayPromote s.th = true → ∀ c ∈ s.th.pendingInterrupts, n ≤ c.id
  waiting : mayPromote s.th = true → s.phase.isWaiting = true →
    (s.th.pendingCall = none → s.th.pendingInterrupts = []) ∧
      ∀ c, s.th.pendingCall = some c → ∀ i ∈ s.th.pendingInterrupts, c.id < i.id

/-! ## What begins, and what is answered -/

theorem begun_leave {s y : Local} {e : Exit} (hl : Leave s e y) {c : Call} (hc : Begun y c) : Begun s c := by
  unfold Begun at *
  cases hl <;> grind -linarith

theorem begun_answer {s x : Local} {d : Call} (ha : Answer s d x) {c : Call} (hc : Begun x c) : Begun s c := by
  unfold Begun at *
  cases ha with
  | saved _ hi hr => simp only [hi, List.mem_append, List.mem_singleton, Message.mk.injEq] at *; grind -linarith
  | deferred _ hr | sent _ hr | dropped _ hr =>
    simp only [List.mem_append, List.mem_singleton, Message.mk.injEq] at *
    grind -linarith

theorem begun_effect {s x : Local} {l : Label} {b : Bool} (he : Effect s l x b) {c : Call} (hc : Begun x c) :
    Begun s c ∨ l = .activate ∧ s.th.pendingCall = some c := by
  cases he with
  | replyReturn _ _ _ _ _ ha hl | syscallReturn _ _ _ ha hl =>
    exact .inl (begun_answer ha (begun_leave hl hc))
  | replyExit _ _ _ _ ha => exact .inl (begun_answer ha hc)
  | replyDirect _ _ hcall _ hl =>
    refine .inl ?_
    have := begun_leave hl hc
    simp only [Begun, List.mem_append, List.mem_singleton, Message.mk.injEq] at this ⊢
    grind -linarith
  | finish _ _ hl => exact .inl (begun_leave hl hc)
  | exitPop _ hi _ hl | exitPopSaved _ hi _ hl =>
    have := begun_leave hl hc
    simp only [Begun, hi] at this ⊢
    grind -linarith
  | dispatchDone _ _ _ hw | doneFree _ _ _ hw | doneKeep _ _ _ hw => cases hw <;> exact .inl hc
  | activate _ hp =>
    simp only [Begun] at hc ⊢
    grind -linarith
  | _ =>
    simp only [Begun] at hc ⊢
    grind -linarith

/-! ## Every step keeps the order -/

/-- The calls that wait, as a step that begins none can leave them. -/
inductive Queueing (s : Local) (l : Label) (x : Local) : Prop
  | same : x.th.pendingCall = s.th.pendingCall → x.th.pendingInterrupts = s.th.pendingInterrupts →
      x.nextCall = s.nextCall → (mayPromote x.th = true → mayPromote s.th = true) →
      (mayPromote x.th = true → x.phase.isWaiting = true →
        s.phase.isWaiting = true ∨ x.th.pendingInterrupts = []) → Queueing s l x
  | received {n c} : l = .recv n → s.th.pendingCall = none → x.th.pendingCall = some c → c.id = s.nextCall →
      x.th.pendingInterrupts = s.th.pendingInterrupts → x.nextCall = s.nextCall + 1 → x.phase = s.phase →
      mayPromote x.th = mayPromote s.th → Queueing s l x
  | queued {c i} : s.th.pendingCall = some c → x.th.pendingCall = some c → i.id = s.nextCall →
      x.th.pendingInterrupts = s.th.pendingInterrupts ++ [i] → x.nextCall = s.nextCall + 1 → x.phase = s.phase →
      mayPromote x.th = mayPromote s.th → Queueing s l x
  | promoted {i rest} : mayPromote s.th = true → s.th.pendingInterrupts = i :: rest → x.th.pendingCall = some i →
      x.th.pendingInterrupts = rest → x.nextCall = s.nextCall → mayPromote x.th = true → Queueing s l x

theorem queueing_doneWorking {s : Local} {t : Thread} {b : Bool} (hw : DoneWorking s.th t b) (l : Label)
    (freed : List Stack) : Queueing s l { s with th := t, freed, phase := .off } := by
  cases hw with
  | idle h =>
    refine .same rfl rfl rfl ?_ ?_
    · intro hm
      simp_all [mayPromote]
    · intro hm _
      simp only [mayPromote, Bool.and_eq_true, Bool.not_eq_true', Bool.or_eq_false_iff] at hm
      exact .inr (h hm.2.1 hm.1)
  | promote ht hd hp hq => exact .promoted (by simp [mayPromote, ht, hd]) hq rfl rfl rfl (by simp [mayPromote, ht, hd])

theorem queueing_effect {s x : Local} {l : Label} {b : Bool} (hrun : s.th.running = true ↔ s.phase ≠ .off)
    (he : Effect s l x b) (hl : l ≠ .activate) : Queueing s l x := by
  have hwind := windUp_effect he
  cases he with
  | recv hp => exact .received rfl hp rfl rfl rfl rfl rfl rfl
  | recvQueued hp => exact .queued hp hp rfl rfl rfl rfl rfl
  | dispatchDone _ _ _ hw => exact queueing_doneWorking hw _ s.freed
  | doneKeep _ _ _ hw => exact queueing_doneWorking hw _ s.freed
  | @doneFree st _ _ _ _ _ hw =>
    have := queueing_doneWorking (s := { s with th := { s.th with stack := none } }) hw .done (s.freed ++ [st])
    cases this with
    | same h₁ h₂ h₃ h₄ h₅ => exact .same h₁ h₂ h₃ h₄ h₅
    | received h₁ => cases h₁
    | queued h₁ h₂ h₃ h₄ h₅ h₆ h₇ => exact .queued h₁ h₂ h₃ h₄ h₅ h₆ h₇
    | promoted h₁ h₂ h₃ h₄ h₅ h₆ => exact .promoted h₁ h₂ h₃ h₄ h₅ h₆
  | activate => exact absurd rfl hl
  | replyReturn | syscallReturn | replyExit | replyDirect | finish | exitPop | exitPopSaved =>
    have hw := hwind rfl
    refine .same hw.pendingCall hw.pendingInterrupts hw.nextCall ?_ fun _ hx => ?_
    · rw [mayPromote, mayPromote, hw.dead, hw.terminating]
      exact id
    · rcases hw.phase with hp | hp | hp <;> rw [hp] at hx <;> cases hx
  | popEntered _ hr => exact .same rfl rfl rfl id (fun _ _ => .inl (by simp_all [Phase.isWaiting]))
  | popDone => exact .same rfl rfl rfl (by simp [mayPromote]) (by simp [mayPromote])
  | notifyDead => exact .same rfl rfl rfl (by simp [mayPromote]) (by simp [mayPromote])
  | terminate => exact .same rfl rfl rfl (by simp [mayPromote]) (by simp [mayPromote])
  | _ => exact .same rfl rfl rfl id (by simp_all [Phase.isWaiting])

/-- What a step leaves active: nothing new, but for the call that begins. -/
theorem active_effect {s x : Local} {l : Label} {b : Bool} (he : Effect s l x b) (hl : l ≠ .activate) {c : Call}
    (hc : x.th.activeCall = some c) : s.th.activeCall = some c ∧
      ∀ r ∈ x.th.interrupts, ∀ d, r.interruptedCall = some d → ∃ r ∈ s.th.interrupts, r.interruptedCall = some d := by
  cases he with
  | replyReturn _ _ _ _ _ ha hl | syscallReturn _ _ _ ha hl => cases hl <;> cases ha <;> grind -linarith
  | replyExit _ _ _ _ ha => cases ha <;> grind -linarith
  | replyDirect _ _ _ _ hl | finish _ _ hl | exitPop _ _ _ hl | exitPopSaved _ _ _ hl => cases hl <;> grind -linarith
  | dispatchDone _ _ _ hw | doneFree _ _ _ hw | doneKeep _ _ _ hw => cases hw <;> grind -linarith
  | activate => exact absurd rfl hl
  | _ => grind -linarith

theorem sequenced_queueing {n : Nat} {s x : Local} {l : Label} (h : Sequenced n s) (hw : Queueing s l x)
    (hb : ∀ c, Begun x c → Begun s c)
    (ha : ∀ c, x.th.activeCall = some c → s.th.activeCall = some c ∧
      ∀ r ∈ x.th.interrupts, ∀ d, r.interruptedCall = some d → ∃ r ∈ s.th.interrupts, r.interruptedCall = some d) :
    Sequenced n x := by
  have hbegun : ∀ c, Begun x c → c.id < n := fun c hc => h.begun c (hb c hc)
  have hunique : ∀ c d, Begun x c → Begun x d → c.id = d.id → c = d :=
    fun c d hc hd => h.unique c d (hb c hc) (hb d hd)
  have hactive : ∀ c, x.th.activeCall = some c → c.id + 1 = n := fun c hc => h.active c (ha c hc).1
  have hrecords : ∀ c, x.th.activeCall = some c → ∀ r ∈ x.th.interrupts, ∀ d, r.interruptedCall = some d →
      d.id < c.id := by
    intro c hc r hr d hd
    obtain ⟨r', hr', hd'⟩ := (ha c hc).2 r hr d hd
    exact h.records c (ha c hc).1 r' hr' d hd'
  cases hw with
  | same hp hq hn hm hph =>
    refine ⟨hn ▸ h.bound, hbegun, hunique, hactive, hrecords, hn ▸ hp ▸ h.pending, hn ▸ hq ▸ h.queued, hq ▸ h.sorted,
      fun hx => hq ▸ h.queue (hm hx), fun hx hphase => ?_⟩
    rcases hph hx hphase with hs | hs
    · exact hp ▸ hq ▸ h.waiting (hm hx) hs
    · simp [hs]
  | @received _ c _ hp hc hid hq hn hph hm =>
    have hbound := h.bound
    have hqueued := h.queued
    refine ⟨by omega, hbegun, hunique, hactive, hrecords, ?_, ?_, hq ▸ h.sorted, fun hx => hq ▸ h.queue (hm ▸ hx), ?_⟩
    · intro d hd
      obtain rfl : c = d := by simpa [hc] using hd
      omega
    · intro d hd
      have := hqueued d (hq ▸ hd)
      omega
    · intro hx hphase
      have := (h.waiting (hm ▸ hx) (hph ▸ hphase)).1 hp
      simp [hq, this]
  | @queued c i hp hc hid hq hn hph hm =>
    have hbound := h.bound
    have hqueued := h.queued
    refine ⟨by omega, hbegun, hunique, hactive, hrecords, ?_, ?_, ?_, ?_, ?_⟩
    · intro d hd
      have := h.pending d (by rw [hp, ← hc, hd])
      omega
    · intro d hd
      rw [hq, List.mem_append, List.mem_singleton] at hd
      rcases hd with hd | rfl
      · have := hqueued d hd
        omega
      · omega
    · rw [hq, List.pairwise_append]
      refine ⟨h.sorted, List.pairwise_singleton _ _, fun d hd j hj => ?_⟩
      obtain rfl := List.mem_singleton.1 hj
      have := hqueued d hd
      omega
    · intro hx d hd
      rw [hq, List.mem_append, List.mem_singleton] at hd
      rcases hd with hd | rfl
      · exact h.queue (hm ▸ hx) d hd
      · omega
    · intro hx hphase
      refine ⟨by simp [hc], fun d hd j hj => ?_⟩
      rw [hq, List.mem_append, List.mem_singleton] at hj
      have hd : s.th.pendingCall = some d := by rw [hp, ← hc, hd]
      rcases hj with hj | rfl
      · exact (h.waiting (hm ▸ hx) (hph ▸ hphase)).2 d hd j hj
      · have := (h.pending d hd).2
        omega
  | @promoted i rest hs hsq hp hq hn hm =>
    have hsorted := h.sorted
    rw [hsq, List.pairwise_cons] at hsorted
    refine ⟨hn ▸ h.bound, hbegun, hunique, hactive, hrecords, ?_, ?_, hq ▸ hsorted.2, ?_, ?_⟩
    · intro d hd
      obtain rfl : i = d := by simpa [hp] using hd
      exact ⟨h.queue hs i (by simp [hsq]), hn ▸ h.queued i (by simp [hsq])⟩
    · intro d hd
      exact hn ▸ h.queued d (by rw [hsq]; exact List.mem_cons_of_mem _ (hq ▸ hd))
    · intro _ d hd
      exact h.queue hs d (by rw [hsq]; exact List.mem_cons_of_mem _ (hq ▸ hd))
    · intro _ _
      refine ⟨by simp [hp], fun d hd j hj => ?_⟩
      obtain rfl : i = d := by simpa [hp] using hd
      exact hsorted.1 j (hq ▸ hj)

theorem sequenced_effect {n : Nat} {s x : Local} {l : Label} {b : Bool} (h : Sequenced n s)
    (hrun : s.th.running = true ↔ s.phase ≠ .off) (he : Effect s l x b) : ∃ n', n ≤ n' ∧ Sequenced n' x := by
  by_cases hl : l = .activate
  · subst hl
    cases he with
    | @activate c hph hp =>
      -- the call that begins is the latest one
      have hc := h.pending c hp
      refine ⟨c.id + 1, by omega, ?_⟩
      have hq : mayPromote s.th = true → ∀ i ∈ s.th.pendingInterrupts, c.id < i.id :=
        fun hm => (h.waiting hm (by simp [hph, Phase.isWaiting])).2 c hp
      have hbegun : ∀ {d}, Begun _ d → Begun s d ∧ d.id < c.id ∨ d = c := fun {d} hd => by
        rcases begun_effect (Effect.activate hph hp) hd with hd | ⟨-, hd⟩
        · have := h.begun d hd
          exact .inl ⟨hd, by omega⟩
        · exact .inr (by simpa [hp] using hd.symm)
      refine ⟨hc.2, fun d hd => ?_, fun d e hd he hid => ?_, ?_, ?_, by simp, h.queued, h.sorted,
        fun hm i hi => hq hm i hi, ?_⟩
      · rcases hbegun hd with hd | rfl
        · omega
        · exact Nat.lt_succ_self _
      · rcases hbegun hd with ⟨hd, hdc⟩ | rfl <;> rcases hbegun he with ⟨he, hec⟩ | rfl
        · exact h.unique d e hd he hid
        · omega
        · omega
        · rfl
      · intro d hd
        obtain rfl : c = d := by simpa using hd
        rfl
      · intro d hd r hr e hre
        obtain rfl : c = d := by simpa using hd
        have := h.begun e (.inr (.inl ⟨r, hr, hre⟩))
        omega
      · simp only
        split <;> simp [Phase.isWaiting]
  · refine ⟨n, Nat.le_refl n, sequenced_queueing h (queueing_effect hrun he hl) (fun c hc => ?_)
      fun c hc => active_effect he hl hc⟩
    exact (begun_effect he hc).resolve_right fun h => hl h.1

theorem sequenced_init {s : State} (h : s.Init) : Sequenced 0 s.loc := by
  have hnone : ∀ c, ¬Begun s.loc c := by
    rcases h with rfl | ⟨k, rfl⟩ <;> simp [Begun, setupKernelThread]
  refine ⟨Nat.zero_le _, fun c hc => absurd hc (hnone c), fun c _ hc => absurd hc (hnone c),
    fun c hc => absurd (.inl hc) (hnone c), fun c hc => absurd (.inl hc) (hnone c), ?_, ?_, ?_, ?_, ?_⟩ <;>
  rcases h with rfl | ⟨k, rfl⟩ <;> simp [setupKernelThread]

/-- Whatever the client sends, in every run. -/
theorem sequenced {G : State → Label → Prop} {s : State} (h : Reach State.step G State.Init s) :
    ∃ n, Sequenced n s.loc := by
  refine h.inv_with (fun s => s.loc.th.running = true ↔ s.loc.phase ≠ .off) (fun s => ∃ n, Sequenced n s.loc)
    (fun _ => running_iff) (fun _ h0 => ⟨0, sequenced_init h0⟩) fun s l s' hrun hi _ hst => ?_
  obtain ⟨n, hn⟩ := hi
  obtain ⟨-, -, ⟨f, -, rfl⟩ | ⟨x, b, he, rfl⟩⟩ := step_cases hst
  · exact ⟨n, hn.bound, hn.begun, hn.unique, hn.active, hn.records, hn.pending, hn.queued, hn.sorted, hn.queue, hn.waiting⟩
  · obtain ⟨n', -, h'⟩ := sequenced_effect hn hrun he
    exact ⟨n', by rwa [account_loc]⟩

/-! ## Answers -/

/-- The reply of the active call, if there is one, has not been made. -/
def Unanswered (s : Local) : Prop := ∀ c, s.th.activeCall = some c → ⟨c⟩ ∉ s.handed

theorem leave_active {s y : Local} {e : Exit} (hl : Leave s e y) :
    y.th.activeCall = s.th.activeCall ∧ y.handed = s.handed := by
  cases hl <;> exact ⟨rfl, rfl⟩

theorem unanswered_answer {n : Nat} {s x : Local} {c : Call} (h : Sequenced n s) (hu : Unanswered s)
    (ha : Answer s c x) : Unanswered x := by
  intro d hd
  cases ha with
  | @saved top rest _ hi hr _ =>
    have hlt := h.records d hd top (by simp [hi]) c hr
    have hold := hu d hd
    have hne : d ≠ c := by
      rintro rfl
      omega
    simp [hold, hne]
  | deferred | sent | dropped => cases hd

/-- Only a `checkout` that answers while it is the active call leaves an answered call active. -/
theorem unanswered_effect {n : Nat} {s x : Local} {l : Label} {b : Bool} (h : Sequenced n s) (hu : Unanswered s)
    (he : Effect s l x b) (hl : l = .replyDirect → s.cur.call ≠ s.th.activeCall) : Unanswered x := by
  cases he with
  | replyReturn _ _ _ _ _ ha hl | syscallReturn _ _ _ ha hl =>
    intro d hd
    rw [(leave_active hl).1] at hd
    rw [(leave_active hl).2]
    exact unanswered_answer h hu ha d hd
  | replyExit _ _ _ _ ha => exact fun d hd => unanswered_answer h hu ha d hd
  | @replyDirect c _ _ _ hc _ hlv =>
    intro d hd
    rw [(leave_active hlv).1] at hd
    rw [(leave_active hlv).2]
    have hne : d ≠ c := fun hdc => hl rfl (by rw [hc, ← hdc]; exact hd.symm)
    simp [hu d hd, hne]
  | finish _ _ hl | exitPop _ _ _ hl | exitPopSaved _ _ _ hl =>
    intro d hd
    rw [(leave_active hl).1] at hd
    rw [(leave_active hl).2]
    exact hu d hd
  | @activate c _ hp =>
    intro d hd hm
    obtain rfl : c = d := by simpa using hd
    have hbegun := h.begun c (.inr (.inr (.inr (.inr (.inr hm)))))
    have hpending := h.pending c hp
    omega
  | dispatchDone _ _ _ hw | doneFree _ _ _ hw | doneKeep _ _ _ hw => cases hw <;> exact hu
  | startInterrupt => intro d hd; cases hd
  | _ => exact hu

theorem unanswered_init {s : State} (h : s.Init) : Unanswered s.loc := by
  rcases h with rfl | ⟨k, rfl⟩ <;> intro c hc <;> cases hc

end DarlingServer
