import DarlingServer.System
/-!
# Microthreads that impersonate the same thread

`Thread::impersonate` defers the thread, waits until nobody runs it and marks it
running; the thread impersonated before is let go and undeferred. The deferral is
a flag, and the one who lets the thread go clears it for those who wait to
impersonate it too. They then impersonate a thread that is not deferred, and a
`doWork` on it is dropped instead of being kept for later.

A thread has one impersonator at a time in every run. It stays deferred, and what
is missed is made up for, where no microthread lets a thread go while another
waits for it.
-/

namespace DarlingServer

open Thread Runs

/-- The labels of `impersonate`. -/
def Label.impersonates : Label → Bool
  | .defer | .undefer | .impersonate | .claim | .unimpersonate => true
  | _ => false

/-! ## What a thread does meanwhile -/

/-- Only `doWork` touches the deferral state of a thread, and only if the thread is deferred. -/
theorem deferral_effect {s x : Local} {l : Label} {b : Bool} (he : Effect s l x b) (hl : l.impersonates = false) :
    x.th.deferralState = s.th.deferralState ∨
      s.th.deferralState ≠ .notDeferred ∧ x.th.deferralState = .deferredPending := by
  have hwind := windUp_effect he
  cases he with
  | popDeferred hd => exact .inr ⟨hd, rfl⟩
  | dispatchDone _ _ _ hw | doneFree _ _ _ hw | doneKeep _ _ _ hw => cases hw <;> exact .inl rfl
  | replyReturn | syscallReturn | replyExit | replyDirect | finish | exitPop | exitPopSaved =>
    exact .inl (hwind rfl).deferralState
  | defer | undefer | impersonate | claim | unimpersonate => cases hl
  | _ => exact .inl rfl

/-- A thread that is impersonated stays so. -/
theorem phase_effect {s x : Local} {l : Label} {b : Bool} (he : Effect s l x b) (hl : l.impersonates = false)
    (hp : s.phase = .impersonated) (hr : s.th.running = true) : x.phase = .impersonated := by
  cases he with
  | replyReturn h | replyExit h => simp [hp] at h
  | _ => simp_all [Label.impersonates]

theorem deferred_step {s s' : State} {l : Label} (h : s.step l = some s') (hl : l.impersonates = false)
    (hd : s.loc.th.deferralState ≠ .notDeferred) : s'.loc.th.deferralState ≠ .notDeferred := by
  obtain ⟨-, -, ⟨f, -, rfl⟩ | ⟨x, b, he, rfl⟩⟩ := step_cases h
  · exact hd
  · rw [account_loc]
    rcases deferral_effect he hl with hs | ⟨-, hs⟩
    · rw [hs]; exact hd
    · rw [hs]; nofun

theorem phase_step {s s' : State} {l : Label} (h : s.step l = some s') (hl : l.impersonates = false)
    (hp : s.loc.phase = .impersonated) (hr : s.loc.th.running = true) : s'.loc.phase = .impersonated := by
  obtain ⟨-, -, ⟨f, -, rfl⟩ | ⟨x, b, he, rfl⟩⟩ := step_cases h
  · exact hp
  · rw [account_loc]
    exact phase_effect he hl hp hr

/-- A `doWork` on a deferred thread is remembered, and remembered for good. -/
theorem pending_step {s s' : State} {l : Label} (h : s.step l = some s') (hl : l.impersonates = false)
    (hd : s.loc.th.deferralState ≠ .notDeferred) (hp : l = .pop ∨ s.loc.th.deferralState = .deferredPending) :
    s'.loc.th.deferralState = .deferredPending := by
  obtain ⟨-, -, ⟨f, hf, rfl⟩ | ⟨x, b, he, rfl⟩⟩ := step_cases h
  · rcases hp with rfl | hp
    · simp [Local.core, Local.pop, doWorkEntry, hd] at hf
    · exact hp
  · rw [account_loc]
    rcases deferral_effect he hl with hs | ⟨-, hs⟩
    · rcases hp with rfl | hp
      · cases he with
        | popDeferred => rfl
        | popRunning hn | popDone hn | popEntered hn => exact absurd hn hd
      · rw [hs, hp]
    · exact hs

theorem defer_step {s s' : State} (h : s.step .defer = some s') :
    s'.loc.phase = s.loc.phase ∧ s'.loc.th.deferralState ≠ .notDeferred ∧
      (s.loc.th.deferralState = .deferredPending → s'.loc.th.deferralState = .deferredPending) := by
  obtain ⟨-, -, ⟨f, hf, rfl⟩ | ⟨x, b, he, rfl⟩⟩ := step_cases h
  · simp [Local.core] at hf
  · rw [account_loc]
    cases he with
    | defer hd hn => exact ⟨rfl, hn, fun hp => by rcases hd with rfl | ⟨-, hd⟩ <;> simp_all⟩

/-- A thread is claimed off the workers; it is deferred then if the claim defers it, or if it was before. -/
theorem claim_step {s s' : State} {l : Label} (h : s.step l = some s') (hl : l = .impersonate ∨ l = .claim) :
    s.loc.phase = .off ∧ s'.loc.phase = .impersonated ∧
      (l = .impersonate ∨ s.loc.th.deferralState ≠ .notDeferred → s'.loc.th.deferralState ≠ .notDeferred) := by
  obtain ⟨-, -, ⟨f, hf, rfl⟩ | ⟨x, b, he, rfl⟩⟩ := step_cases h
  · rcases hl with rfl | rfl <;> simp [Local.core] at hf
  · rw [account_loc]
    rcases hl with rfl | rfl
    · cases he with
      | impersonate hp _ hn => exact ⟨hp, rfl, fun _ => hn⟩
    · cases he with
      | claim hp => exact ⟨hp, rfl, fun hd => hd.resolve_left fun hl => by cases hl⟩

/-- A thread that is let go is scheduled if a `doWork` on it was put off. -/
theorem unimpersonate_step {s s' : State} (h : s.step .unimpersonate = some s') :
    s.loc.phase = .impersonated ∧ (s.loc.th.deferralState = .deferredPending → s'.entries = s.entries + 1) := by
  obtain ⟨-, -, ⟨f, hf, rfl⟩ | ⟨x, b, he, rfl⟩⟩ := step_cases h
  · simp [Local.core] at hf
  · cases he with
    | unimpersonate hp => exact ⟨hp, fun hd => by simp [State.account, hd]⟩

/-! ## Steps -/

/-- Where a microthread is in `impersonate`. -/
inductive ImpersonatePc (ι : Type*) where
  | idle
  /-- It has deferred the thread and waits on `_runningCondvar`. -/
  | waiting (thread : ι)
  /-- Before the section that sets `_impersonating`. -/
  | claimed (thread : Option ι)
  /-- Before it lets the old thread go. -/
  | releasing (oldThread : ι)
  deriving DecidableEq

structure Impersonators (ι ω : Type*) where
  sys : System ι ω
  impersonating : ι → Option ι
  pc : ι → ImpersonatePc ι

inductive ImpersonateLabel (ι ω : Type*) where
  | act (a : Action ι ω)
  | impersonate (k : ι) (thread : Option ι)
  | wake (k : ι)
  | switch (k : ι)
  | release (k : ι)

namespace Impersonators

variable {ι ω : Type*}

/-! ## What a microthread holds -/

/-- The threads a microthread can hold at the same time. -/
inductive Slot where
  | current
  /-- Marked running, before `_impersonating` is set. -/
  | next
  /-- Before it is let go. -/
  | previous
  deriving DecidableEq

def slotAt (impersonating : Option ι) : ImpersonatePc ι → Slot → Option ι
  | _, .current => impersonating
  | .claimed thread, .next => thread
  | .releasing o, .previous => some o
  | _, _ => none

def slot (d : Impersonators ι ω) (k : ι) : Slot → Option ι := slotAt (d.impersonating k) (d.pc k)

/-- Who is impersonated is impersonated once, and is off the workers. -/
structure Exclusive (d : Impersonators ι ω) : Prop where
  unique : ∀ {k k' i j t}, d.slot k i = some t → d.slot k' j = some t → k = k' ∧ i = j
  held : ∀ {k i t}, d.slot k i = some t → (d.sys.threads t).phase = .impersonated

theorem Exclusive.sub {d d' : Impersonators ι ω} (hi : d.Exclusive)
    (hs : ∀ {k i t}, d'.slot k i = some t → d.slot k i = some t ∧ (d'.sys.threads t).phase = (d.sys.threads t).phase) :
    d'.Exclusive :=
  ⟨fun h h' => hi.unique (hs h).1 (hs h').1, fun h => (hs h).2.trans (hi.held (hs h).1)⟩

/-- A thread is held by nobody while it is off, so who claims it is the only one. -/
theorem Exclusive.claim {d d' : Impersonators ι ω} {k t : ι} (hi : d.Exclusive)
    (hoff : (d.sys.threads t).phase = .off) (ht : (d'.sys.threads t).phase = .impersonated)
    (hs : ∀ {k' u i}, d'.slot k' i = some u → k' = k ∧ i = .next ∧ u = t ∨ d.slot k' i = some u)
    (hp : ∀ {u}, u ≠ t → (d'.sys.threads u).phase = (d.sys.threads u).phase) : d'.Exclusive := by
  have hfree : ∀ {k' i}, d.slot k' i ≠ some t := fun h => by simp [hi.held h] at hoff
  refine ⟨fun {k₁ k₂ i j u} h₁ h₂ => ?_, fun h => ?_⟩
  · rcases hs h₁ with ⟨rfl, rfl, hu⟩ | h₁ <;> rcases hs h₂ with ⟨rfl, rfl, hu'⟩ | h₂
    · exact ⟨rfl, rfl⟩
    · exact absurd (hu ▸ h₂) hfree
    · exact absurd (hu' ▸ h₁) hfree
    · exact hi.unique h₁ h₂
  · rcases hs h with ⟨-, -, rfl⟩ | h
    · exact ht
    · exact (hp fun hu => hfree (hu ▸ h)).trans (hi.held h)

/-! ## Steps of a microthread -/

variable [DecidableEq ι]

def goto (d : Impersonators ι ω) (k : ι) (x : ImpersonatePc ι) : Impersonators ι ω :=
  { d with pc := Function.update d.pc k x }

@[simp] theorem goto_pc (d : Impersonators ι ω) (k : ι) (x : ImpersonatePc ι) (j : ι) :
    (d.goto k x).pc j = if j = k then x else d.pc j := Function.update_apply ..

theorem slot_goto (d : Impersonators ι ω) (k : ι) (x : ImpersonatePc ι) (k' : ι) (i : Slot) :
    (d.goto k x).slot k' i = if k' = k then slotAt (d.impersonating k) x i else d.slot k' i := by
  by_cases hk : k' = k
  · subst hk; simp [slot, goto]
  · simp [slot, goto, hk]

/-- `switch` moves what a microthread holds on by one slot. -/
theorem slot_switch {d : Impersonators ι ω} {k : ι} {thread : Option ι} (hp : d.pc k = .claimed thread) {k' t : ι}
    {i : Slot} (h : ({ d with impersonating := Function.update d.impersonating k thread }.goto k
      ((d.impersonating k).elim .idle .releasing)).slot k' i = some t) :
    ∃ j, d.slot k' j = some t ∧
      (k' = k ∧ (i = .current ∧ j = .next ∨ i = .previous ∧ j = .current) ∨ k' ≠ k ∧ i = j) := by
  rw [slot_goto] at h
  split at h
  · subst k'
    cases i with
    | current => exact ⟨.next, by simpa [slot, hp, slotAt] using h, .inl ⟨rfl, .inl ⟨rfl, rfl⟩⟩⟩
    | next => cases hc : d.impersonating k <;> simp [hc, slotAt] at h
    | previous =>
      cases hc : d.impersonating k with
      | none => simp [hc, slotAt] at h
      | some o => exact ⟨.current, by simpa [hc, slot, slotAt] using h, .inl ⟨rfl, .inr ⟨rfl, rfl⟩⟩⟩
  · rename_i hk
    exact ⟨i, by simpa [slot, hk] using h, .inr ⟨hk, rfl⟩⟩

theorem slot_claim {d : Impersonators ι ω} {k t : ι} (sys : System ι ω) {k' u : ι} {i : Slot}
    (h : ({ d with sys := sys }.goto k (.claimed (some t))).slot k' i = some u) :
    k' = k ∧ i = .next ∧ u = t ∨ d.slot k' i = some u := by
  rw [slot_goto] at h
  split at h
  · subst k'
    cases i with
    | current => exact .inr h
    | next => exact .inl ⟨rfl, rfl, (Option.some.inj h).symm⟩
    | previous => cases h
  · exact .inr h

/-- A microthread goes on to a place with nothing claimed and nothing to let go. -/
theorem slot_leave {d : Impersonators ι ω} {k : ι} {x : ImpersonatePc ι}
    (hx : ∀ c, slotAt c x .next = none ∧ slotAt c x .previous = none) (sys : System ι ω) {k' u : ι} {i : Slot}
    (h : ({ d with sys := sys }.goto k x).slot k' i = some u) :
    d.slot k' i = some u ∧ (k' = k → i = .current) := by
  rw [slot_goto] at h
  split at h
  · subst k'
    cases i with
    | current => exact ⟨h, fun _ => rfl⟩
    | next => simp [hx] at h
    | previous => simp [hx] at h
  · exact ⟨h, fun hk => absurd hk ‹_›⟩

variable [DecidableEq ω]

def onThread (d : Impersonators ι ω) (t : ι) (l : Label) : Option (Impersonators ι ω) :=
  (d.sys.step ⟨t, none, l⟩).map ({ d with sys := · })

/-- The section of `impersonate` for the new thread, up to where it has to wait. -/
def take (d : Impersonators ι ω) (k t : ι) : Option (Impersonators ι ω) :=
  if (d.sys.threads t).th.running then (d.onThread t .defer).map (·.goto k (.waiting t))
  else (d.onThread t .impersonate).map (·.goto k (.claimed (some t)))

def step (d : Impersonators ι ω) : ImpersonateLabel ι ω → Option (Impersonators ι ω)
  | .act a =>
    -- a microthread in `impersonate` does nothing else
    if a.label.impersonates || (a.label.onWorker && a.label ≠ .pop && d.pc a.thread ≠ .idle) then none
    else (d.sys.step a).map ({ d with sys := · })
  | .impersonate k thread =>
    if (d.sys.threads k).phase = .body ∧ d.pc k = .idle then
      match thread with
      | none => some (d.goto k (.claimed none))
      | some t => d.take k t
    else none
  | .wake k =>
    match d.pc k with
    | .waiting t =>
      if (d.sys.threads t).th.running then none else (d.onThread t .claim).map (·.goto k (.claimed (some t)))
    | _ => none
  | .switch k =>
    match d.pc k with
    | .claimed thread =>
      some ({ d with impersonating := Function.update d.impersonating k thread }.goto k
        ((d.impersonating k).elim .idle .releasing))
    | _ => none
  | .release k =>
    match d.pc k with
    | .releasing o => (d.onThread o .unimpersonate).map (·.goto k .idle)
    | _ => none

def Init (d : Impersonators ι ω) : Prop :=
  d.sys.Init ∧ (∀ k, d.impersonating k = none) ∧ ∀ k, d.pc k = .idle

/-- What a step does, with what it found. -/
inductive Moves (d : Impersonators ι ω) : ImpersonateLabel ι ω → Impersonators ι ω → Prop
  | act {a} (sys : System ι ω) : a.label.impersonates = false → d.sys.step a = some sys →
      Moves d (.act a) { d with sys := sys }
  | none {k} : d.pc k = .idle → Moves d (.impersonate k none) (d.goto k (.claimed none))
  | wait {k t} (sys : System ι ω) : d.pc k = .idle → (d.sys.threads t).th.running = true →
      d.sys.step ⟨t, .none, .defer⟩ = some sys →
      Moves d (.impersonate k (some t)) ({ d with sys := sys }.goto k (.waiting t))
  | take {k t} (sys : System ι ω) : d.pc k = .idle → (d.sys.threads t).th.running = false →
      d.sys.step ⟨t, .none, .impersonate⟩ = some sys →
      Moves d (.impersonate k (some t)) ({ d with sys := sys }.goto k (.claimed (some t)))
  | wake {k t} (sys : System ι ω) : d.pc k = .waiting t → d.sys.step ⟨t, .none, .claim⟩ = some sys →
      Moves d (.wake k) ({ d with sys := sys }.goto k (.claimed (some t)))
  | switch {k thread} : d.pc k = .claimed thread →
      Moves d (.switch k) ({ d with impersonating := Function.update d.impersonating k thread }.goto k
        ((d.impersonating k).elim .idle .releasing))
  | release {k o} (sys : System ι ω) : d.pc k = .releasing o → d.sys.step ⟨o, .none, .unimpersonate⟩ = some sys →
      Moves d (.release k) ({ d with sys := sys }.goto k .idle)

theorem onThread_some {d d' : Impersonators ι ω} {k t : ι} {l : Label} {x : ImpersonatePc ι}
    (h : (d.onThread t l).map (·.goto k x) = some d') :
    ∃ sys, d.sys.step ⟨t, none, l⟩ = some sys ∧ d' = { d with sys := sys }.goto k x := by
  obtain ⟨d₁, h₁, rfl⟩ := Option.map_eq_some_iff.1 h
  obtain ⟨sys, hs, rfl⟩ := Option.map_eq_some_iff.1 h₁
  exact ⟨sys, hs, rfl⟩

theorem step_moves {d d' : Impersonators ι ω} {l : ImpersonateLabel ι ω} (h : d.step l = some d') : Moves d l d' := by
  cases l with
  | act a =>
    obtain ⟨hc, h⟩ := Option.ite_none_left_eq_some.1 h
    obtain ⟨sys, hs, rfl⟩ := Option.map_eq_some_iff.1 h
    simp only [Bool.or_eq_true, not_or, Bool.not_eq_true] at hc
    exact .act sys hc.1 hs
  | impersonate k thread =>
    obtain ⟨⟨-, hp⟩, h⟩ := Option.ite_none_right_eq_some.1 h
    cases thread with
    | none => cases h; exact .none hp
    | some t =>
      simp only [take] at h
      split at h
      · obtain ⟨sys, hs, rfl⟩ := onThread_some h
        exact .wait sys hp ‹_› hs
      · obtain ⟨sys, hs, rfl⟩ := onThread_some h
        exact .take sys hp (Bool.of_not_eq_true ‹_›) hs
  | wake k =>
    simp only [step] at h
    split at h
    · split at h
      · cases h
      · obtain ⟨sys, hs, rfl⟩ := onThread_some h
        exact .wake sys ‹_› hs
    · cases h
  | switch k =>
    simp only [step] at h
    split at h <;> cases h
    exact .switch ‹_›
  | release k =>
    simp only [step] at h
    split at h
    · obtain ⟨sys, hs, rfl⟩ := onThread_some h
      exact .release sys ‹_› hs
    · cases h

/-! ## One impersonator at a time -/

/-- A step of the server that is for another thread does not show. -/
theorem threads_of_ne {s s' : System ι ω} {a : Action ι ω} (h : s.step a = some s') {t : ι} (ht : t ≠ a.thread) :
    s'.threads t = s.threads t :=
  congrArg State.loc ((System.view_step h).2 t ht)

theorem exclusive_step {d d' : Impersonators ι ω} {l : ImpersonateLabel ι ω} (h : Moves d l d') (hi : d.Exclusive)
    (hr : ∀ i, (d.sys.threads i).th.running = true ↔ (d.sys.threads i).phase ≠ .off) : d'.Exclusive := by
  cases h with
  | @act a sys hl hs =>
    refine ⟨fun h h' => hi.unique h h', fun {k i t} h => ?_⟩
    have hp : (d.sys.threads t).phase = .impersonated := hi.held h
    by_cases ht : t = a.thread
    · subst ht
      exact phase_step (System.view_step hs).1 hl hp ((hr _).2 (by simp [hp]))
    · rw [show ({ d with sys := sys } : Impersonators ι ω).sys.threads t = _ from threads_of_ne hs ht]
      exact hp
  | @none k hp => exact hi.sub fun h => ⟨(slot_leave (fun _ => ⟨rfl, rfl⟩) d.sys h).1, rfl⟩
  | @wait k t sys hp _ hs =>
    refine hi.sub fun {k' i u} h => ⟨(slot_leave (fun _ => ⟨rfl, rfl⟩) sys h).1, ?_⟩
    by_cases hu : u = t
    · subst hu; exact (defer_step (System.view_step hs).1).1
    · exact congrArg Local.phase (threads_of_ne hs hu)
  | @take k t sys hp _ hs =>
    obtain ⟨hoff, himp, -⟩ := claim_step (System.view_step hs).1 (.inl rfl)
    exact hi.claim hoff himp (slot_claim sys) fun hu => congrArg Local.phase (threads_of_ne hs hu)
  | @wake k t sys hp hs =>
    obtain ⟨hoff, himp, -⟩ := claim_step (System.view_step hs).1 (.inr rfl)
    exact hi.claim hoff himp (slot_claim sys) fun hu => congrArg Local.phase (threads_of_ne hs hu)
  | @switch k thread hp =>
    refine ⟨fun h₁ h₂ => ?_, fun h => ?_⟩
    · obtain ⟨i', h₁, hi'⟩ := slot_switch hp h₁
      obtain ⟨j', h₂, hj'⟩ := slot_switch hp h₂
      obtain ⟨rfl, rfl⟩ := hi.unique h₁ h₂
      grind
    · obtain ⟨j, h, -⟩ := slot_switch hp h
      exact hi.held h
  | @release k o sys hp hs =>
    refine hi.sub fun {k' i u} h => ?_
    obtain ⟨h, hk⟩ := slot_leave (fun _ => ⟨rfl, rfl⟩) sys h
    refine ⟨h, congrArg Local.phase (threads_of_ne hs fun hu => ?_)⟩
    -- the one who lets it go was the only one to hold it
    have hprev : d.slot k .previous = some u := by simp [slot, hp, slotAt, show u = o from hu]
    obtain ⟨rfl, rfl⟩ := hi.unique hprev h
    exact absurd (hk rfl) nofun

theorem sys_reach {G : Impersonators ι ω → ImpersonateLabel ι ω → Prop} {d : Impersonators ι ω}
    (h : Reach step G Init d) : Reach System.step (fun _ _ => True) System.Init d.sys := by
  refine h.view (·.sys) (fun _ hd => hd.1) fun d l d' _ hst => ?_
  cases step_moves hst with
  | none | switch => exact .inl rfl
  | act _ _ hs => exact .inr ⟨_, trivial, hs⟩
  | wait _ _ _ hs | take _ _ _ hs | wake _ _ hs | release _ _ hs => exact .inr ⟨_, trivial, hs⟩

theorem exclusive {G : Impersonators ι ω → ImpersonateLabel ι ω → Prop} {d : Impersonators ι ω}
    (h : Reach step G Init d) : d.Exclusive := by
  refine h.inv_with (fun d => ∀ i, (d.sys.threads i).th.running = true ↔ (d.sys.threads i).phase ≠ .off) Exclusive
    (fun d hd i => ?_) (fun d hd => ?_) fun d l d' hr hi _ hst => exclusive_step (step_moves hst) hi hr
  · exact running_iff (System.reach_view (G := fun _ _ => True) (fun _ _ _ => trivial) (sys_reach hd) i)
  · have hnone : ∀ {k i t}, d.slot k i ≠ some t := fun {k i t} hs => by
      cases i <;> simp [slot, slotAt, hd.2.1 k, hd.2.2 k] at hs
    exact ⟨fun hs => absurd hs hnone, fun hs => absurd hs hnone⟩

/-! ## Deferral -/

/-- Nobody lets a thread go while another microthread waits for it. -/
def Heeded (d : Impersonators ι ω) (l : ImpersonateLabel ι ω) : Prop :=
  ∀ k, l = .release k → ∀ o, d.pc k = .releasing o → ∀ j, d.pc j ≠ .waiting o

/-- Some microthread impersonates `t` or waits to. -/
def Wanted (d : Impersonators ι ω) (t : ι) : Prop := (∃ k i, d.slot k i = some t) ∨ ∃ k, d.pc k = .waiting t

def Deferred (d : Impersonators ι ω) : Prop :=
  ∀ t, d.Wanted t → (d.sys.threads t).th.deferralState ≠ .notDeferred

/-- Who is wanted after a step was so before, except the thread of an `impersonate`. -/
theorem wanted_step {d d' : Impersonators ι ω} {l : ImpersonateLabel ι ω} (h : Moves d l d') {t : ι}
    (hw : d'.Wanted t) : d.Wanted t ∨ ∃ k, l = .impersonate k (some t) := by
  rcases hw with ⟨k', i, hs⟩ | ⟨k', hs⟩
  · cases h with
    | act => exact .inl (.inl ⟨k', i, hs⟩)
    | none => exact .inl (.inl ⟨k', i, (slot_leave (fun _ => ⟨rfl, rfl⟩) d.sys hs).1⟩)
    | wait sys | release sys => exact .inl (.inl ⟨k', i, (slot_leave (fun _ => ⟨rfl, rfl⟩) sys hs).1⟩)
    | take sys =>
      rcases slot_claim sys hs with ⟨-, -, rfl⟩ | hs
      · exact .inr ⟨_, rfl⟩
      · exact .inl (.inl ⟨k', i, hs⟩)
    | wake sys hp =>
      rcases slot_claim sys hs with ⟨-, -, rfl⟩ | hs
      · exact .inl (.inr ⟨_, hp⟩)
      · exact .inl (.inl ⟨k', i, hs⟩)
    | switch hp =>
      obtain ⟨j, hs, -⟩ := slot_switch hp hs
      exact .inl (.inl ⟨k', j, hs⟩)
  · cases h with
    | act => exact .inl (.inr ⟨k', hs⟩)
    | wait =>
      rw [goto_pc] at hs
      split at hs
      · cases hs; exact .inr ⟨_, rfl⟩
      · exact .inl (.inr ⟨k', hs⟩)
    | @switch k =>
      rw [goto_pc] at hs
      split at hs
      · cases hc : d.impersonating k <;> simp [hc] at hs
      · exact .inl (.inr ⟨k', hs⟩)
    | none | take | wake | release =>
      rw [goto_pc] at hs
      split at hs
      · cases hs
      · exact .inl (.inr ⟨k', hs⟩)

omit [DecidableEq ω] in
/-- The one who lets a thread go was the only one to hold it, and nobody waits for it. -/
theorem not_wanted_released {d : Impersonators ι ω} {k o : ι} (he : d.Exclusive) (hp : d.pc k = .releasing o)
    (hg : d.Heeded (.release k)) (sys : System ι ω) : ¬ ({ d with sys := sys }.goto k .idle).Wanted o := by
  rintro (⟨k', i, hs⟩ | ⟨k', hs⟩)
  · obtain ⟨hs, hk⟩ := slot_leave (fun _ => ⟨rfl, rfl⟩) sys hs
    have hprev : d.slot k .previous = some o := by simp [slot, hp, slotAt]
    obtain ⟨rfl, rfl⟩ := he.unique hprev hs
    exact absurd (hk rfl) nofun
  · rw [goto_pc] at hs
    split at hs
    · cases hs
    · exact hg k rfl o hp k' hs

theorem deferred_moves {d d' : Impersonators ι ω} {l : ImpersonateLabel ι ω} (h : Moves d l d') (he : d.Exclusive)
    (hd : d.Deferred) (hg : d.Heeded l) : d'.Deferred := by
  intro t hw
  have hold := wanted_step h hw
  have hkept : ∀ {a : Action ι ω} {sys}, d.sys.step a = some sys → t ≠ a.thread → (∀ k, l ≠ .impersonate k (some t)) →
      (sys.threads t).th.deferralState ≠ .notDeferred := fun hs ht hl => by
    rw [threads_of_ne hs ht]
    exact hd t (hold.resolve_right fun ⟨k, hk⟩ => hl k hk)
  cases h with
  | @act a sys hl hs =>
    by_cases ht : t = a.thread
    · subst ht
      exact deferred_step (System.view_step hs).1 hl (hd _ (hold.resolve_right nofun))
    · exact hkept hs ht nofun
  | none | switch => exact hd t (hold.resolve_right nofun)
  | @wait k u sys _ _ hs =>
    by_cases ht : t = u
    · subst ht
      exact (defer_step (System.view_step hs).1).2.1
    · exact hkept hs ht fun _ hk => ht (by cases hk; rfl)
  | @take k u sys _ _ hs =>
    by_cases ht : t = u
    · subst ht
      exact (claim_step (System.view_step hs).1 (.inl rfl)).2.2 (.inl rfl)
    · exact hkept hs ht fun _ hk => ht (by cases hk; rfl)
  | @wake k u sys hp hs =>
    by_cases ht : t = u
    · subst ht
      -- the claim does not defer the thread; the microthread has waited for it and it is deferred still
      exact (claim_step (System.view_step hs).1 (.inr rfl)).2.2 (.inr (hd t (.inr ⟨k, hp⟩)))
    · exact hkept hs ht nofun
  | @release k o sys hp hs =>
    refine hkept hs (fun ht => ?_) nofun
    subst ht
    exact not_wanted_released he hp hg sys hw

/-! ## Missed work -/

/-- The threads that a worker has tried to run since they were claimed last. -/
def attempt (d : Impersonators ι ω) (l : ImpersonateLabel ι ω) (_ : Impersonators ι ω) (h : ι → Bool) : ι → Bool :=
  match l with
  | .act ⟨t, _, .pop⟩ => Function.update h t true
  | .impersonate _ (some t) => if (d.sys.threads t).th.running then h else Function.update h t false
  | .wake k =>
    match d.pc k with
    | .waiting t => Function.update h t false
    | _ => h
  | _ => h

/-- What a worker has missed of an impersonated thread is kept for when it is let go. -/
def Remembered (p : Impersonators ι ω × (ι → Bool)) : Prop :=
  ∀ k i t, p.1.slot k i = some t → p.2 t = true → (p.1.sys.threads t).th.deferralState = .deferredPending

theorem remembered_moves {d d' : Impersonators ι ω} {l : ImpersonateLabel ι ω} {h : ι → Bool} (hm : Moves d l d')
    (he : d.Exclusive) (hd : d.Deferred) (hr : Remembered (d, h)) (hg : d.Heeded l) :
    Remembered (d', attempt d l d' h) := by
  intro k' i t hs ha
  cases hm with
  | @act a sys hl hst =>
    have hw : d.Wanted t := .inl ⟨k', i, hs⟩
    by_cases ht : t = a.thread
    · subst ht
      refine pending_step (System.view_step hst).1 hl (hd _ hw) ?_
      by_cases hpop : a.label = .pop
      · exact .inl hpop
      · refine .inr (hr _ _ _ hs ?_)
        obtain ⟨j, w, l⟩ := a
        cases l <;> first | exact absurd rfl hpop | exact ha
    · have hkept : h t = true := by
        obtain ⟨j, w, l⟩ := a
        cases l <;> simp_all [attempt]
      exact (congrArg (·.th.deferralState) (threads_of_ne hst ht)).trans (hr _ _ _ hs hkept)
  | none => exact hr _ _ _ (slot_leave (fun _ => ⟨rfl, rfl⟩) d.sys hs).1 ha
  | @wait k u sys _ hrun hst =>
    have hp := hr _ _ _ (slot_leave (fun _ => ⟨rfl, rfl⟩) sys hs).1 (by simpa [attempt, hrun] using ha)
    by_cases ht : t = u
    · subst ht
      exact (defer_step (System.view_step hst).1).2.2 hp
    · exact (congrArg (·.th.deferralState) (threads_of_ne hst ht)).trans hp
  | @take k u sys _ hrun hst =>
    have ht : t ≠ u := by rintro rfl; simp [attempt, hrun] at ha
    have hs := (slot_claim sys hs).resolve_left fun hc => ht hc.2.2
    refine (congrArg (·.th.deferralState) (threads_of_ne hst ht)).trans (hr _ _ _ hs ?_)
    simpa [attempt, hrun, ht] using ha
  | @wake k u sys hp hst =>
    have ht : t ≠ u := by rintro rfl; simp [attempt, hp] at ha
    have hs := (slot_claim sys hs).resolve_left fun hc => ht hc.2.2
    refine (congrArg (·.th.deferralState) (threads_of_ne hst ht)).trans (hr _ _ _ hs ?_)
    simpa [attempt, hp, ht] using ha
  | switch hp =>
    obtain ⟨j, hs, -⟩ := slot_switch hp hs
    exact hr _ _ _ hs ha
  | @release k o sys hp hst =>
    have ht : t ≠ o := by
      rintro rfl
      exact not_wanted_released he hp hg sys (.inl ⟨k', i, hs⟩)
    have hs := (slot_leave (fun _ => ⟨rfl, rfl⟩) sys hs).1
    exact (congrArg (·.th.deferralState) (threads_of_ne hst ht)).trans (hr _ _ _ hs ha)

def Fresh (p : Impersonators ι ω × (ι → Bool)) : Prop := p.1.Init ∧ ∀ t, p.2 t = false

theorem untracked_reach {p : Impersonators ι ω × (ι → Bool)}
    (h : Reach (track step attempt) (fun p l => p.1.Heeded l) Fresh p) :
    Reach step Heeded Init p.1 :=
  h.untracked (fun _ _ hg => hg) fun _ hp => hp.1

theorem deferred {d : Impersonators ι ω} (h : Reach step Heeded Init d) : d.Deferred := by
  refine h.inv_with Exclusive Deferred (fun _ => exclusive) (fun d hd t hw => ?_)
    fun d l d' he hd hg hst => deferred_moves (step_moves hst) he hd hg
  rcases hw with ⟨k, i, hs⟩ | ⟨k, hs⟩
  · cases i <;> simp [slot, slotAt, hd.2.1 k, hd.2.2 k] at hs
  · simp [hd.2.2 k] at hs

theorem remembered {p : Impersonators ι ω × (ι → Bool)}
    (h : Reach (track step attempt) (fun p l => p.1.Heeded l) Fresh p) : Remembered p := by
  refine h.inv_with (fun p => p.1.Exclusive ∧ p.1.Deferred) Remembered
    (fun p hp => ⟨exclusive (untracked_reach hp), deferred (untracked_reach hp)⟩)
    (fun p hp k i t _ ha => by simp [hp.2 t] at ha) fun p l p' hj hr hg hst => ?_
  obtain ⟨hs, ha⟩ := track_some hst
  have := remembered_moves (step_moves hs) hj.1 hj.2 hr hg
  rwa [← ha] at this

/-- In every run an impersonated thread is impersonated by one microthread and no
worker runs it. In every run that heeds the condition it stays deferred, and the
end of the impersonation schedules it if a worker has tried to run it meanwhile. -/
theorem impersonated_deferred (p : Impersonators ι ω × (ι → Bool)) :
    (∀ d : Impersonators ι ω, Reach step (fun _ _ => True) Init d → ∀ k i t, d.slot k i = some t →
      ((d.sys.threads t).phase = .impersonated ∧ ∀ w, d.sys.worker w ≠ some t) ∧
        ∀ k' j, d.slot k' j = some t → k' = k ∧ j = i) ∧
    (Reach (track step attempt) (fun p l => p.1.Heeded l) Fresh p →
      (∀ k i t, p.1.slot k i = some t → (p.1.sys.threads t).th.deferralState ≠ .notDeferred) ∧
        ∀ k o d, p.1.slot k .previous = some o → p.2 o = true → p.1.step (.release k) = some d →
          d.sys.queue.count o = p.1.sys.queue.count o + 1) := by
  refine ⟨fun d h k i t hs => ?_, fun h => ⟨fun k i t hs => ?_, fun k o d hs ha hst => ?_⟩⟩
  · have he := exclusive h
    refine ⟨⟨he.held hs, fun w hw => ?_⟩, fun k' j hs' => he.unique hs' hs⟩
    exact ((System.staffing (sys_reach h)).working hw).2 (he.held hs)
  · exact deferred (untracked_reach h) t (.inl ⟨k, i, hs⟩)
  · have hp := remembered h _ _ _ hs ha
    cases step_moves hst with
    | @release _ o' sys hpc hstep =>
      simp only [slot, hpc, slotAt, Option.some.injEq] at hs
      subst hs
      exact (unimpersonate_step (System.view_step hstep).1).2 hp

/-! ## Two microthreads and one thread -/

/-- Two kernel microthreads and a thread of a client, and the workers that run them. -/
inductive Actor where
  | first
  | second
  | target
  deriving DecidableEq

/-- The kernel microthreads are set up and the client has checked in. -/
def ready : Impersonators Actor Actor where
  sys := { (System.start : System Actor Actor) with
    threads := fun
      | .target => {}
      | _ => { th := setupKernelThread 0, client := { user := false } } }
  impersonating := fun _ => none
  pc := fun _ => .idle

theorem ready_init : Init ready := by
  refine ⟨⟨fun i => ?_, fun _ => rfl⟩, fun _ => rfl, fun _ => rfl⟩
  cases i with
  | target => exact .inl rfl
  | first | second => exact .inr ⟨0, rfl⟩

def byActor (k : Actor) (l : Label) : ImpersonateLabel Actor Actor := .act ⟨k, some k, l⟩

def byNobody (k : Actor) (l : Label) : ImpersonateLabel Actor Actor := .act ⟨k, none, l⟩

def startMicrothread (k : Actor) : List (ImpersonateLabel Actor Actor) :=
  [byNobody k .resume, byNobody k .resumePush, byActor k .pop, byActor k .dispatch]

/-- The client sends a call, and a worker tries to run it. -/
def tryTarget : List (ImpersonateLabel Actor Actor) :=
  [byNobody .target (.recv (.plain 0)), byNobody .target .push, byActor .target .pop]

/-- A microthread stops impersonating, up to where it lets the thread go. -/
def stop (k : Actor) : List (ImpersonateLabel Actor Actor) := [.impersonate k none, .switch k]

def calmRun : List (ImpersonateLabel Actor Actor) :=
  startMicrothread .first ++ [.impersonate .first (some .target), .switch .first] ++ tryTarget ++ stop .first

/-- The second microthread waits for the thread while the first lets it go. -/
def contendedRun : List (ImpersonateLabel Actor Actor) :=
  startMicrothread .first ++ startMicrothread .second ++ [.impersonate .first (some .target), .switch .first,
    .impersonate .second (some .target)] ++ stop .first ++ [.release .first, .wake .second, .switch .second] ++
    tryTarget ++ stop .second

theorem impersonated_deferred_attempt : ∃ p : Impersonators Actor Actor × (Actor → Bool),
    Reach (track step attempt) (fun p l => p.1.Heeded l) Fresh p ∧
      p.1.slot .first .previous = some .target ∧ p.2 .target = true ∧
      (p.1.sys.threads .target).th.deferralState ≠ .notDeferred ∧
      ∀ d, p.1.step (.release .first) = some d → d.sys.queue.count .target = p.1.sys.queue.count .target + 1 := by
  have hok : ∀ (p : Impersonators Actor Actor × (Actor → Bool)) l,
      (match l with | .release _ => false | _ => true) = true → p.1.Heeded l := by
    rintro p l hl k rfl
    cases hl
  have hrun : (exec (track step attempt) (fun _ l => match l with | .release _ => false | _ => true)
      (ready, fun _ => false) calmRun).map (fun p => (p.1.slot .first .previous, p.2 .target)) =
      some (some .target, true) := rfl
  have hinit : Reach (track step attempt) (fun p l => p.1.Heeded l) Fresh (ready, fun _ => false) :=
    .init ⟨ready_init, fun _ => rfl⟩
  obtain ⟨p, hp, hs⟩ := exists_reach hok hinit hrun
  simp only [Prod.mk.injEq] at hs
  have h := (impersonated_deferred p).2 hp
  exact ⟨p, hp, hs.1, hs.2, h.1 _ _ _ hs.1, fun d => h.2 _ _ d hs.1 hs.2⟩

/-- The second microthread impersonates the thread while it is not deferred, and the
work a worker has missed then is lost when it lets the thread go. -/
theorem impersonated_undeferred : ∃ p : Impersonators Actor Actor × (Actor → Bool),
    Reach (track step attempt) (fun _ _ => True) Fresh p ∧
      p.1.slot .second .previous = some .target ∧ p.2 .target = true ∧
      (p.1.sys.threads .target).th.deferralState = .notDeferred ∧
      ∃ d, p.1.step (.release .second) = some d ∧ (d.sys.threads .target).th.pendingCall.isSome = true ∧
        d.sys.queue.count .target = 0 := by
  have hrun : (exec (track step attempt) (fun _ _ => true) (ready, fun _ => false) contendedRun).map (fun p =>
      (p.1.slot .second .previous, p.2 .target, (p.1.sys.threads .target).th.deferralState,
        (p.1.step (.release .second)).map fun d =>
          ((d.sys.threads .target).th.pendingCall.isSome, d.sys.queue.count .target))) =
      some (some .target, true, .notDeferred, some (true, 0)) := rfl
  have hinit : Reach (track step attempt) (fun _ _ => True) Fresh (ready, fun _ => false) :=
    .init ⟨ready_init, fun _ => rfl⟩
  obtain ⟨p, hp, hs⟩ := exists_reach (fun _ _ _ => trivial) hinit hrun
  simp only [Prod.mk.injEq] at hs
  obtain ⟨h₁, h₂, h₃, h₄⟩ := hs
  obtain ⟨d, hd, h₅⟩ := Option.map_eq_some_iff.1 h₄
  simp only [Prod.mk.injEq] at h₅
  exact ⟨p, hp, h₁, h₂, h₃, d, hd, h₅⟩

end Impersonators

end DarlingServer
