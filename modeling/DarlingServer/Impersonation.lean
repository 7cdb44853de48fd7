import DarlingServer.ThreadBlock
import DarlingServer.TailQueue
/-!
# Blocking under another thread's name

A kernel microthread may impersonate a managed thread. Duct-taped code it runs
then finds the other thread as the current one and queues that one when it has to
wait, while the `thread_suspend` hook suspends the microthread itself. A wake goes
to the thread that is queued. The link of an impersonated thread may already be in
use.
-/

namespace DarlingServer

open Thread Runs

/-! ## The duct-taped server -/

/-- The server with what duct-taped code adds to it. -/
structure Duct (ι ω σ : Type*) where
  sys : System ι ω
  impersonating : ι → Option ι
  xnu : ι → XnuThread
  links : Links ι σ
  owner : σ → Option ι
  /-- The microthread that has locked a queue and unlocks it once it is suspended. -/
  lockedBy : WaitQueue σ → Option ι

/-- A step by microthread `k`, on worker `w` where it may suspend. -/
inductive DuctLabel (ι ω σ : Type*) where
  | act (a : Action ι ω)
  | impersonate (k : ι) (thread : Option ι)
  | mutexLock (k : ι) (w : ω) (m : σ)
  /-- A waiter of `dtape_mutex_lock` that has been resumed. -/
  | mutexRetry (k : ι) (w : ω) (m : σ)
  | mutexUnlock (k : ι) (m : σ)
  | condvarWait (k : ι) (w : ω) (c m : σ)
  /-- One turn of the loop of `dtape_condvar_signal`. -/
  | condvarSignal (c : σ)
  | markWait (k : ι)
  | threadBlock (k : ι) (w : ω) (continuation : Option Continuation)
  | threadGo (thread : ι) (waitResult : WaitResult)

namespace Duct

variable {ι ω σ : Type*} [DecidableEq ι] [DecidableEq ω] [DecidableEq σ]

/-- `dtape_hook_current_thread`, for the microthread `k`. -/
def currentThread (d : Duct ι ω σ) (k : ι) : ι := (d.impersonating k).getD k

/-- `dtape_hook_thread_suspend`, called by the microthread `k`. `Thread::suspend` throws unless it is
called on the current thread. -/
def threadSuspend (d : Duct ι ω σ) (k : ι) (w : ω) (context : ι) (callback : Option Continuation) :
    Option (Duct ι ω σ) :=
  let target := if d.impersonating k = some context then k else context
  if target = k then (d.sys.step ⟨k, some w, .suspend callback⟩).map ({ d with sys := · }) else none

/-- `dtape_hook_thread_resume`. -/
def threadResume (d : Duct ι ω σ) (context : ι) : Option (Duct ι ω σ) :=
  (d.sys.step ⟨context, none, .resume⟩).map ({ d with sys := · })

/-- The part of `dtape_mutex_lock` and `dtape_condvar_wait` that waits. -/
def waitOn (d : Duct ι ω σ) (k : ι) (w : ω) (q : WaitQueue σ) : Option (Duct ι ω σ) :=
  let thread := d.currentThread k
  { d with links := d.links.insertTail q thread, lockedBy := Function.update d.lockedBy q (some k) }.threadSuspend
    k w thread none

/-- The part of `dtape_mutex_unlock` and `dtape_condvar_signal` that wakes the oldest waiter. -/
def wakeOn (d : Duct ι ω σ) (q : WaitQueue σ) : Option (Duct ι ω σ) :=
  match d.links.pointer (.first q) with
  | none => some d
  | some link => { d with links := d.links.remove q link }.threadResume link

/-- One turn of the loop of `dtape_mutex_lock`. -/
def mutexTake (d : Duct ι ω σ) (k : ι) (w : ω) (m : σ) : Option (Duct ι ω σ) :=
  if d.owner m = none ∨ d.owner m = some (d.currentThread k) then
    some { d with owner := Function.update d.owner m (some (d.currentThread k)) }
  else d.waitOn k w (.mutex m)

/-- `dtape_mutex_lock`, which panics if the current thread already owns the mutex. -/
def mutexLock (d : Duct ι ω σ) (k : ι) (w : ω) (m : σ) : Option (Duct ι ω σ) :=
  if d.owner m = some (d.currentThread k) then none else d.mutexTake k w m

/-- `dtape_mutex_unlock`, which panics if the current thread does not own the mutex. -/
def mutexUnlock (d : Duct ι ω σ) (k : ι) (m : σ) : Option (Duct ι ω σ) :=
  if d.owner m = some (d.currentThread k) then { d with owner := Function.update d.owner m none }.wakeOn (.mutex m)
  else none

/-- `dtape_condvar_wait`, up to the suspension. -/
def condvarWait (d : Duct ι ω σ) (k : ι) (w : ω) (c m : σ) : Option (Duct ι ω σ) :=
  (d.mutexUnlock k m).bind fun d => d.waitOn k w (.condvar c)

def setXnu (d : Duct ι ω σ) (thread : ι) (x : XnuThread) : Duct ι ω σ :=
  { d with xnu := Function.update d.xnu thread x }

/-- `thread_block_parameter`, up to the suspension. -/
def threadBlock (d : Duct ι ω σ) (k : ι) (w : ω) (continuation : Option Continuation) : Option (Duct ι ω σ) :=
  let thread := d.currentThread k
  let (x, waiting) := (d.xnu thread).blockParameter continuation
  if waiting then (d.setXnu thread x).threadSuspend k w thread continuation else some (d.setXnu thread x)

def threadGo (d : Duct ι ω σ) (thread : ι) (r : WaitResult) : Option (Duct ι ω σ) :=
  (d.setXnu thread ((d.xnu thread).unblock r)).threadResume thread

/-- A microthread that has gone off the worker has unlocked its queue. -/
def settle (d : Duct ι ω σ) (i : ι) : Duct ι ω σ :=
  if (d.sys.threads i).phase = .off then
    { d with lockedBy := fun q => if d.lockedBy q = some i then none else d.lockedBy q }
  else d

/-- `Thread::impersonate`. -/
def impersonate (d : Duct ι ω σ) (k : ι) (thread : Option ι) : Option (Duct ι ω σ) :=
  let sys := thread.elim (some d.sys) fun t => d.sys.step ⟨t, none, .impersonate⟩
  let sys := sys.bind fun sys => (d.impersonating k).elim (some sys) fun o => sys.step ⟨o, none, .unimpersonate⟩
  sys.map fun sys => { d with sys, impersonating := Function.update d.impersonating k thread }

/-- The code of the microthread `k` runs. -/
def runs (d : Duct ι ω σ) (k : ι) : Bool := (d.sys.threads k).phase = .body

def step (d : Duct ι ω σ) : DuctLabel ι ω σ → Option (Duct ι ω σ)
  | .act a => (d.sys.step a).map fun sys => ({ d with
      sys
      xnu := Function.update d.xnu a.thread
        ((d.xnu a.thread).follow (d.sys.threads a.thread) (sys.threads a.thread)) } : Duct ι ω σ).settle a.thread
  | .impersonate k t => if d.runs k then d.impersonate k t else none
  | .mutexLock k w m => if d.runs k && (d.lockedBy (.mutex m)).isNone then d.mutexLock k w m else none
  | .mutexRetry k w m => if d.runs k && (d.lockedBy (.mutex m)).isNone then d.mutexTake k w m else none
  | .mutexUnlock k m => if d.runs k && (d.lockedBy (.mutex m)).isNone then d.mutexUnlock k m else none
  | .condvarWait k w c m =>
    if d.runs k && (d.lockedBy (.condvar c)).isNone && (d.lockedBy (.mutex m)).isNone then d.condvarWait k w c m
    else none
  | .condvarSignal c => if (d.lockedBy (.condvar c)).isNone then d.wakeOn (.condvar c) else none
  | .markWait k =>
    if d.runs k then some (d.setXnu (d.currentThread k) (d.xnu (d.currentThread k)).markWaitLocked) else none
  | .threadBlock k w continuation => if d.runs k then d.threadBlock k w continuation else none
  | .threadGo t r => d.threadGo t r

/-! ## Who is woken -/

/-- The entries of a thread in the work queue, with those a `resume` is about to push. -/
def scheduled (d : Duct ι ω σ) (i : ι) : Nat := (d.sys.view i).entries + (d.sys.view i).resuming

/-- The wake schedules the waiter `k`, and not the thread `t` that it impersonates. -/
def Serves (d d' : Duct ι ω σ) (k t : ι) : Prop :=
  d'.scheduled k = d.scheduled k + 1 ∧ d'.scheduled t = d.scheduled t

/-- `l` is a step in which `k` may block, and what the wait is recorded in. -/
def blocksIn (k : ι) : DuctLabel ι ω σ → Option (Option (WaitQueue σ))
  | .mutexLock k' _ m | .mutexRetry k' _ m => if k' = k then some (some (.mutex m)) else none
  | .condvarWait k' _ c _ => if k' = k then some (some (.condvar c)) else none
  | .threadBlock k' _ _ => if k' = k then some none else none
  | _ => none

/-- The thread `t` is recorded as waiting: its link is the last in the queue, or it is marked for
`thread_block`. -/
def Recorded (d : Duct ι ω σ) (t : ι) : Option (WaitQueue σ) → Prop
  | some q => d.links.EndsIn q t
  | none => (d.xnu t).state.wait = true

/-- `l` is a wake that removes the wait of `t`. -/
def removes (d : Duct ι ω σ) (t : ι) : DuctLabel ι ω σ → Bool
  | .mutexUnlock _ m | .condvarWait _ _ _ m => d.links.pointer (.first (.mutex m)) = some t
  | .condvarSignal c => d.links.pointer (.first (.condvar c)) = some t
  | .threadGo t' _ => t' = t
  | _ => false

omit [DecidableEq σ] in
theorem threadResume_scheduled {d d' : Duct ι ω σ} {t : ι} (h : d.threadResume t = some d') {i : ι} (hi : i ≠ t) :
    d'.scheduled i = d.scheduled i := by
  obtain ⟨sys, hs, rfl⟩ := Option.map_eq_some_iff.1 h
  have hv := (System.view_step hs).2 i hi
  simp only [scheduled, hv]

theorem wakeOn_scheduled {d d' : Duct ι ω σ} {q : WaitQueue σ} {t : ι} (hq : d.links.pointer (.first q) = some t)
    (h : d.wakeOn q = some d') {i : ι} (hi : i ≠ t) : d'.scheduled i = d.scheduled i := by
  rw [wakeOn, hq] at h
  exact threadResume_scheduled h hi

theorem mutexUnlock_scheduled {d d' : Duct ι ω σ} {k t : ι} {m : σ}
    (hq : d.links.pointer (.first (.mutex m)) = some t) (h : d.mutexUnlock k m = some d') {i : ι} (hi : i ≠ t) :
    d'.scheduled i = d.scheduled i := by
  obtain ⟨-, h⟩ := Option.ite_none_right_eq_some.1 h
  refine wakeOn_scheduled ?_ h hi
  exact hq

omit [DecidableEq σ] in
theorem threadSuspend_some {d d' : Duct ι ω σ} {k c : ι} {w : ω} {cb : Option Continuation}
    (h : d.threadSuspend k w c cb = some d') :
    ∃ sys, d.sys.step ⟨k, some w, .suspend cb⟩ = some sys ∧ d' = { d with sys } := by
  obtain ⟨-, h⟩ := Option.ite_none_right_eq_some.1 h
  obtain ⟨sys, hs, rfl⟩ := Option.map_eq_some_iff.1 h
  exact ⟨sys, hs, rfl⟩

omit [DecidableEq σ] in
/-- Suspending schedules nobody. -/
theorem threadSuspend_scheduled {d d' : Duct ι ω σ} {k c : ι} {w : ω} {cb : Option Continuation}
    (h : d.threadSuspend k w c cb = some d') (i : ι) : d'.scheduled i = d.scheduled i := by
  obtain ⟨sys, hs, rfl⟩ := threadSuspend_some h
  obtain ⟨h₁, h₂⟩ := System.view_step hs
  by_cases hi : i = k
  · subst hi
    obtain ⟨-, -, ⟨f, -, hv⟩ | ⟨x, b, he, hv⟩⟩ := step_cases h₁
    · simp only [scheduled, hv]
    · cases he
      simp only [scheduled, hv]
      rfl
  · simp only [scheduled, h₂ i hi]

/-- A wake goes to the thread whose wait it removes, whoever waits under its name. -/
theorem wake_goes_to_recorded {d d' : Duct ι ω σ} {t : ι} {l : DuctLabel ι ω σ} (hr : d.removes t l = true)
    (h : d.step l = some d') {i : ι} (hi : i ≠ t) : d'.scheduled i = d.scheduled i := by
  cases l with
  | mutexUnlock k m =>
    obtain ⟨-, h⟩ := Option.ite_none_right_eq_some.1 h
    exact mutexUnlock_scheduled (by simpa [removes] using hr) h hi
  | condvarWait k w c m =>
    obtain ⟨-, h⟩ := Option.ite_none_right_eq_some.1 h
    obtain ⟨d₁, h₁, h₂⟩ := Option.bind_eq_some_iff.1 h
    rw [← mutexUnlock_scheduled (by simpa [removes] using hr) h₁ hi]
    exact (threadSuspend_scheduled h₂ i).trans rfl
  | condvarSignal c =>
    obtain ⟨-, h⟩ := Option.ite_none_right_eq_some.1 h
    exact wakeOn_scheduled (by simpa [removes] using hr) h hi
  | threadGo t' r =>
    obtain rfl : t' = t := by simpa [removes] using hr
    exact threadResume_scheduled h hi
  | act | impersonate | mutexLock | mutexRetry | markWait | threadBlock => simp [removes] at hr

omit [DecidableEq σ] in
theorem threadSuspend_suspends {d d' : Duct ι ω σ} {k c : ι} {w : ω} {cb : Option Continuation}
    (h : d.threadSuspend k w c cb = some d') : (d'.sys.threads k).th.suspended = true := by
  obtain ⟨sys, hs, rfl⟩ := threadSuspend_some h
  obtain ⟨-, -, ⟨f, hf, -⟩ | ⟨x, b, he, hv⟩⟩ := step_cases (System.view_step hs).1
  · obtain ⟨-, hf⟩ := Option.ite_none_right_eq_some.1 hf
    cases hf
  · have hloc := congrArg State.loc hv
    cases he
    exact congrArg (·.th.suspended) hloc

theorem waitOn_records {d d' : Duct ι ω σ} {k t : ι} {w : ω} {q : WaitQueue σ} (hk : d.impersonating k = some t)
    (h : d.waitOn k w q = some d') : d'.links.EndsIn q t ∧ (d'.sys.threads k).th.suspended = true := by
  refine ⟨?_, threadSuspend_suspends h⟩
  obtain ⟨sys, -, rfl⟩ := threadSuspend_some h
  have hc : d.currentThread k = t := by simp [currentThread, hk]
  rw [hc]
  exact Links.insertTail_endsIn _ _ _

theorem wakeOn_impersonating {d d' : Duct ι ω σ} {q : WaitQueue σ} (h : d.wakeOn q = some d') :
    d'.impersonating = d.impersonating := by
  unfold wakeOn at h
  split at h
  · cases h
    rfl
  · obtain ⟨sys, -, rfl⟩ := Option.map_eq_some_iff.1 h
    rfl

/-- A microthread that blocks while it impersonates a thread is suspended itself, but the wait is recorded
for that thread. -/
theorem block_records_impersonated {d d' : Duct ι ω σ} {k t : ι} {l : DuctLabel ι ω σ} {r : Option (WaitQueue σ)}
    (hk : d.impersonating k = some t) (hl : blocksIn k l = some r) (h : d.step l = some d')
    (hb : (d'.sys.threads k).phase ≠ .body) : Recorded d' t r ∧ (d'.sys.threads k).th.suspended = true := by
  have htake : ∀ {w m}, d.runs k = true → d.mutexTake k w m = some d' →
      d'.links.EndsIn (.mutex m) t ∧ (d'.sys.threads k).th.suspended = true := by
    intro w m hr h
    unfold mutexTake at h
    split at h
    · cases h
      exact absurd (by simpa [runs] using hr) hb
    · exact waitOn_records hk h
  cases l with
  | mutexLock k' w m =>
    obtain ⟨rfl, hr⟩ := Option.ite_none_right_eq_some.1 hl
    cases hr
    obtain ⟨hc, h⟩ := Option.ite_none_right_eq_some.1 h
    obtain ⟨-, h⟩ := Option.ite_none_left_eq_some.1 h
    exact htake (by simp_all) h
  | mutexRetry k' w m =>
    obtain ⟨rfl, hr⟩ := Option.ite_none_right_eq_some.1 hl
    cases hr
    obtain ⟨hc, h⟩ := Option.ite_none_right_eq_some.1 h
    exact htake (by simp_all) h
  | condvarWait k' w c m =>
    obtain ⟨rfl, hr⟩ := Option.ite_none_right_eq_some.1 hl
    cases hr
    obtain ⟨-, h⟩ := Option.ite_none_right_eq_some.1 h
    obtain ⟨d₁, h₁, h₂⟩ := Option.bind_eq_some_iff.1 h
    obtain ⟨-, h₁⟩ := Option.ite_none_right_eq_some.1 h₁
    exact waitOn_records ((congrFun (wakeOn_impersonating h₁) k').trans hk) h₂
  | threadBlock k' w cont =>
    obtain ⟨rfl, hr⟩ := Option.ite_none_right_eq_some.1 hl
    cases hr
    obtain ⟨hc, h⟩ := Option.ite_none_right_eq_some.1 h
    have hcur : d.currentThread k' = t := by simp [currentThread, hk]
    simp only [threadBlock, XnuThread.blockParameter, hcur] at h
    split at h
    · rename_i hw
      refine ⟨?_, threadSuspend_suspends h⟩
      obtain ⟨sys, -, rfl⟩ := threadSuspend_some h
      simpa [Recorded, setXnu] using hw
    · cases h
      exact absurd (by simpa [runs, setXnu] using hc) hb
  | act | impersonate | mutexUnlock | condvarSignal | markWait | threadGo => cases hl

/-- Whatever the state of the thread a microthread impersonates when it blocks: from then on no wake that
removes the wait schedules the microthread. -/
theorem impersonated_wait_never_served {d d₁ : Duct ι ω σ} {k t : ι} {l : DuctLabel ι ω σ}
    {r : Option (WaitQueue σ)} (hk : d.impersonating k = some t) (hne : k ≠ t) (hl : blocksIn k l = some r)
    (h : d.step l = some d₁) (hb : (d₁.sys.threads k).phase ≠ .body) :
    Recorded d₁ t r ∧ (d₁.sys.threads k).th.suspended = true ∧
      ∀ d₂ d₃ : Duct ι ω σ, ∀ l', d₂.removes t l' = true → d₂.step l' = some d₃ → ¬Serves d₂ d₃ k t := by
  obtain ⟨h₁, h₂⟩ := block_records_impersonated hk hl h hb
  refine ⟨h₁, h₂, fun d₂ d₃ l' hr hst hs => ?_⟩
  have := wake_goes_to_recorded hr hst hne
  have := hs.1
  omega

/-- A kernel microthread `0` and two managed threads. -/
def start : Duct (Fin 3) (Fin 2) Unit where
  sys := { (System.start : System (Fin 3) (Fin 2)) with
    threads := fun i => if i = 0 then { th := setupKernelThread 0, client := { user := false } } else {} }
  impersonating := fun _ => none
  xnu := fun _ => {}
  links := ⟨fun _ => none, .first, .next⟩
  owner := fun _ => none
  lockedBy := fun _ => none

/-- The microthread impersonates thread `1` while a call of thread `2` owns the mutex. -/
def contended : List (DuctLabel (Fin 3) (Fin 2) Unit) :=
  [.act ⟨0, none, .resume⟩, .act ⟨0, none, .resumePush⟩, .act ⟨0, some (nthWorker 0), .pop⟩,
    .act ⟨0, some (nthWorker 0), .dispatch⟩, .act ⟨2, none, .recv (.trap 0)⟩, .act ⟨2, none, .push⟩,
    .act ⟨2, some (nthWorker 1), .pop⟩, .act ⟨2, some (nthWorker 1), .dispatch⟩,
    .act ⟨2, some (nthWorker 1), .activate⟩, .mutexLock 2 (nthWorker 1) (), .impersonate 0 (some 1)]

theorem impersonated_wait_never_served_mutex : ∃ d d₁ : Duct (Fin 3) (Fin 2) Unit,
    exec step (fun _ _ => true) start contended = some d ∧ d.step (.mutexLock 0 0 ()) = some d₁ ∧
    Recorded d₁ 1 (some (.mutex ())) ∧ (d₁.sys.threads 0).th.suspended = true ∧
      ∀ d₂ d₃ : Duct (Fin 3) (Fin 2) Unit, ∀ l', d₂.removes 1 l' = true → d₂.step l' = some d₃ → ¬Serves d₂ d₃ 0 1 := by
  have hrun : ((exec step (fun _ _ => true) start contended).bind fun d =>
      (d.step (.mutexLock 0 0 ())).map fun d₁ => (d.impersonating 0, decide ((d₁.sys.threads 0).phase = .body))) =
      some (some 1, false) := by decide
  obtain ⟨d, hd, h⟩ := Option.bind_eq_some_iff.1 hrun
  obtain ⟨d₁, h₁, hs⟩ := Option.map_eq_some_iff.1 h
  simp only [Prod.mk.injEq, decide_eq_false_iff_not] at hs
  exact ⟨d, d₁, hd, h₁, impersonated_wait_never_served hs.1 (by decide) rfl h₁ hs.2⟩

/-- The owner unlocks the mutex: it takes the link off the queue, resumes thread `1`, which has nothing to
resume, and the microthread stays suspended. -/
theorem impersonated_mutex_wait_lost : ¬ ∀ (d d' : Duct (Fin 3) (Fin 2) Unit) k t l',
    Reach step (fun _ _ => True) (· = start) d → d.impersonating k = some t → (d.sys.threads k).phase = .off →
    (d.sys.threads k).th.suspended = true → (∃ r, Recorded d t r) → d.removes t l' = true → d.step l' = some d' →
    Serves d d' k t := by
  intro h
  have hrun : ((exec step (fun _ _ => true) start (contended ++ [DuctLabel.mutexLock 0 0 (), .act ⟨0, some 0, .commit⟩,
      .act ⟨0, some 0, .done⟩])).bind fun d => (d.step (.mutexUnlock 2 ())).map fun d' =>
        decide (d.impersonating 0 = some 1 ∧ (d.sys.threads 0).phase = .off ∧ (d.sys.threads 0).th.suspended = true ∧
          d.links.last (.mutex ()) = .next 1 ∧ d.links.pointer (d.links.prev 1) = some 1 ∧
          d.removes 1 (.mutexUnlock 2 ()) = true ∧ d'.scheduled 0 = d.scheduled 0)) = some true := by decide
  obtain ⟨d, hd, hw⟩ := Option.bind_eq_some_iff.1 hrun
  obtain ⟨d', hd', hb⟩ := Option.map_eq_some_iff.1 hw
  obtain ⟨h₁, h₂, h₃, h₄, h₅, h₆, h₇⟩ := of_decide_eq_true hb
  have hs := h d d' 0 1 _ (exec_reach (fun _ _ _ => trivial) hd (.init rfl)) h₁ h₂ h₃ ⟨some _, h₄, h₅⟩ h₆ hd'
  have := hs.1
  omega

end Duct

end DarlingServer
