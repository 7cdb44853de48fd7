import DarlingServer.Wakeups
import DarlingServer.ThreadBlock
import DarlingServer.Suspension
/-!
# Threads that wait while they are suspended

A thread whose `suspend_count` is positive sleeps in
`dtape_thread_wait_while_user_suspended`, and `thread_wait` waits for it to get
there. The loop checks the count, announces itself under its suspension mutex and
suspends, each a step of its own, on top of the mutexes and condition variables
that the lock functions make. `thread_release` lowers the count and then resumes
the thread, which does nothing to a thread that is not suspended yet.

A sleeper is let go where no `thread_release` finds the loop between its check and
its suspension with the count at zero, and no worker turns an entry of the sleeper
away.
-/

set_option linter.unusedSectionVars false

namespace DarlingServer

open Thread Runs

/-! ## Steps -/

/-- Where a microthread is in the functions that suspend threads. -/
inductive SuspensionStage (ι : Type*) where
  | elsewhere
  /-- At the top of the loop of `dtape_thread_wait_while_user_suspended`. -/
  | checking
  /-- In `dtape_mutex_lock`, to set `waiting_suspended` to `announce`. -/
  | locking (announce : Bool)
  | unlocking (announce : Bool)
  | signalling (announce : Bool)
  /-- Before the first section of `suspend`. -/
  | suspending
  | committing
  | leaving
  | asleep
  /-- In the lock functions that `thread_wait` calls to see `waiting_suspended` of `t`. -/
  | waiting (t : ι)
  /-- At the end of `thread_wait`. -/
  | waitUnlocking (t : ι)
  /-- In `thread_release`, with the count lowered. -/
  | releasing (t : ι)
  deriving DecidableEq

/-- After the check and before the thread counts as suspended. -/
def SuspensionStage.entering {ι : Type*} : SuspensionStage ι → Bool
  | .locking true | .unlocking true | .signalling true | .suspending => true
  | _ => false

/-- Suspended by the loop. -/
def SuspensionStage.suspended {ι : Type*} : SuspensionStage ι → Bool
  | .committing | .leaving | .asleep => true
  | _ => false

theorem SuspensionStage.not_suspended {ι : Type*} {x : SuspensionStage ι} (h : x.entering = true) :
    x.suspended = false := by
  cases x <;> first | rfl | cases h

structure UserSuspension (ι ν : Type*) where
  /-- The suspension mutex and condition variable of each thread. -/
  locks : Locks ι ν ι
  stage : ι → SuspensionStage ι
  suspendCount : ι → Int
  waitingSuspended : ι → Bool
  waitResult : ι → WaitResult

inductive SuspensionLabel (ι ν : Type*) where
  /-- The thread calls `dtape_thread_wait_while_user_suspended`. -/
  | enter (i : ι)
  | threadHold (i t : ι)
  | threadRelease (i t : ι)
  | threadWait (i t : ι)
  /-- The microthread goes on outside of the lock functions. -/
  | go (i : ι)
  | lockGo (p : Party ι ν)
  | handOver (q : WaitQueue ι)
  | doWork (i : ι) (reason : Wakeup)
  /-- The thread's wait is interrupted. -/
  | interrupt (i : ι)
  | elsewhere (i : ι) (t : Thread)

/-- `SIZE_MAX`. -/
def sizeMax : Nat := 2 ^ 64 - 1

namespace UserSuspension

variable {ι ν : Type*} [DecidableEq ι] [DecidableEq ν]

def goto (s : UserSuspension ι ν) (i : ι) (x : SuspensionStage ι) : UserSuspension ι ν :=
  { s with stage := Function.update s.stage i x }

def withLocks (s : UserSuspension ι ν) (l : LockLabel ι ν ι) : Option (UserSuspension ι ν) :=
  (s.locks.step l).map fun locks => { s with locks }

/-- A call of a lock function. -/
def call (s : UserSuspension ι ν) (i : ι) (l : LockLabel ι ν ι) (x : SuspensionStage ι) : Option (UserSuspension ι ν) :=
  (s.withLocks l).map (·.goto i x)

/-- The loop from where it has come out of `suspend`. -/
def woken (s : UserSuspension ι ν) (i : ι) : Option (UserSuspension ι ν) :=
  s.call i (.lock (.microthread i) i) (.locking false)

/-- A step between two lock functions. -/
def goOn (s : UserSuspension ι ν) (i : ι) : Option (UserSuspension ι ν) :=
  match s.stage i with
  | .elsewhere | .asleep => none
  | .checking =>
    if 0 < s.suspendCount i then s.call i (.lock (.microthread i) i) (.locking true) else some (s.goto i .elsewhere)
  | .locking announce =>
    { s with waitingSuspended := Function.update s.waitingSuspended i announce }.call i (.unlock (.microthread i) i)
      (.unlocking announce)
  | .unlocking announce => s.call i (.condvarSignal (.microthread i) i sizeMax) (.signalling announce)
  | .signalling true => some ({ s with waitResult := Function.update s.waitResult i .waiting }.goto i .suspending)
  | .signalling false => some (s.goto i (if s.waitResult i = .interrupted then .elsewhere else .checking))
  | .suspending =>
    some ({ s with locks := s.locks.setThread i ((s.locks.th i).suspendBegin (Locks.here (s.locks.th i))) }.goto i
      .committing)
  | .committing =>
    match (s.locks.th i).suspendCommit none with
    | (t, true) => some ({ s with locks := s.locks.setThread i t }.goto i .leaving)
    | (t, false) => { s with locks := s.locks.setThread i t }.woken i
  | .leaving =>
    match (s.locks.th i).returnToTop with
    | .error f => some { s with locks := s.locks.crash (.thread f) }
    | .ok (t, _) => some ({ s with locks := s.locks.doneWorking i t }.goto i .asleep)
  | .waiting t =>
    if s.waitingSuspended t then s.call i (.unlock (.microthread i) t) (.waitUnlocking t)
    else s.call i (.condvarWait (.microthread i) t t) (.waiting t)
  | .waitUnlocking _ => some (s.goto i .elsewhere)
  | .releasing t => some ({ s with locks := s.locks.resume t .outside }.goto i .elsewhere)

/-- `doWork` on a thread that the loop has put to sleep. -/
def wake (s : UserSuspension ι ν) (i : ι) : Option (UserSuspension ι ν) :=
  match (s.locks.th i).doWorkEntry with
  | (t, .deferred) | (t, .alreadyRunning) => some { s with locks := s.locks.setThread i t }
  | (t, .doneWorking) => some { s with locks := s.locks.doneWorking i t }
  | (t, .entered) =>
    match t.doWorkDispatch with
    | .error f => some { s with locks := s.locks.crash (.thread f) }
    | .ok (t, .resumeContext) =>
      match t.switchStack 0 .resumeContext with
      | .error f => some { s with locks := s.locks.crash (.thread f) }
      | .ok (t, _) => { s with locks := s.locks.setThread i t }.woken i
    | .ok (t, .doneWorking) => some { s with locks := s.locks.doneWorking i t }
    -- the loop leaves no continuation, and nobody sends the thread a call here
    | .ok (_, .startCall) | .ok (_, .resumeContinuation) => none

def step (s : UserSuspension ι ν) (l : SuspensionLabel ι ν) : Option (UserSuspension ι ν) :=
  if s.locks.fault.isSome then none
  else
    match l with
    | .enter i => if s.stage i = .elsewhere then some (s.goto i .checking) else none
    | .threadHold i t =>
      if s.stage i = .elsewhere then
        some { s with suspendCount := Function.update s.suspendCount t (int16 (s.suspendCount t + 1)) }
      else none
    | .threadRelease i t =>
      if s.stage i = .elsewhere then
        some ({ s with suspendCount := Function.update s.suspendCount t (int16 (s.suspendCount t - 1)) }.goto i
          (.releasing t))
      else none
    | .threadWait i t =>
      if s.stage i = .elsewhere then s.call i (.lock (.microthread i) t) (.waiting t) else none
    | .go i => if s.locks.pc (.microthread i) = .outside then s.goOn i else none
    | .lockGo p => s.withLocks (.go p)
    | .handOver q => s.withLocks (.handOver q)
    | .doWork i reason =>
      if s.stage i = .asleep then
        if s.locks.workQueue.contains (i, reason) then { s with locks := s.locks.popped i reason }.wake i else none
      else s.withLocks (.doWork i reason)
    | .interrupt i => some { s with waitResult := Function.update s.waitResult i .interrupted }
    | .elsewhere i t => if s.stage i = .elsewhere then s.withLocks (.elsewhere i t) else none

/-- Nobody is suspended, and every thread is in the middle of a call. -/
structure Init (s : UserSuspension ι ν) : Prop where
  locks : s.locks.Init
  stage : ∀ i, s.stage i = .elsewhere
  suspendCount : ∀ i, s.suspendCount i = 0
  waitingSuspended : ∀ i, s.waitingSuspended i = false

/-- Suspended in the loop and off its worker with nothing to hold it, not scheduled, and nobody is in
`thread_release` for it. -/
def Stranded (s : UserSuspension ι ν) (i : ι) : Prop :=
  s.stage i = .asleep ∧ (∀ r, (i, r) ∉ s.locks.workQueue) ∧ s.suspendCount i ≤ 0 ∧ ∀ j, s.stage j ≠ .releasing i

/-- `doWork` takes the thread and goes on where it was suspended. -/
def resumes (t : Thread) : Bool :=
  match t.doWorkEntry with
  | (t, .entered) =>
    match t.doWorkDispatch with
    | .ok (t, .resumeContext) => (t.switchStack 0 .resumeContext).isOk
    | _ => false
  | _ => false

/-- `thread_release` resumes no thread that has checked its count and is not yet suspended, unless it is
still held. -/
def releasedInTime (s : UserSuspension ι ν) : SuspensionLabel ι ν → Bool
  | .go i =>
    match s.stage i with
    | .releasing t => !(s.stage t).entering || 0 < s.suspendCount t
    | _ => true
  | _ => true

/-- No worker turns away an entry of a thread that the loop has suspended. -/
def taken (s : UserSuspension ι ν) : SuspensionLabel ι ν → Bool
  | .doWork i _ => !(s.stage i).suspended || resumes (s.locks.th i)
  | _ => true

/-- No count is at its maximum when it goes up. -/
def bounded (s : UserSuspension ι ν) : SuspensionLabel ι ν → Bool
  | .threadHold _ t => s.suspendCount t < 32767
  | _ => true

def heeded (s : UserSuspension ι ν) (l : SuspensionLabel ι ν) : Bool := s.releasedInTime l && s.taken l && s.bounded l

theorem heeded_iff {s : UserSuspension ι ν} {l : SuspensionLabel ι ν} :
    s.heeded l = true ↔ s.releasedInTime l = true ∧ s.taken l = true ∧ s.bounded l = true := by
  simp only [heeded, Bool.and_eq_true, and_assoc]

/-! ## What a step does -/

/-- The lock function that `i` calls, and where it goes on. -/
inductive Calls (s : UserSuspension ι ν) (i : ι) : LockLabel ι ν ι → SuspensionStage ι → Prop
  | announce : s.stage i = .checking → 0 < s.suspendCount i → Calls s i (.lock (.microthread i) i) (.locking true)
  | unlock {b} : s.stage i = .locking b → Calls s i (.unlock (.microthread i) i) (.unlocking b)
  | signal {b} : s.stage i = .unlocking b → Calls s i (.condvarSignal (.microthread i) i sizeMax) (.signalling b)
  | wait {t} : s.stage i = .elsewhere → Calls s i (.lock (.microthread i) t) (.waiting t)
  | waitMore {t} : s.stage i = .waiting t → Calls s i (.condvarWait (.microthread i) t t) (.waiting t)
  | waitDone {t} : s.stage i = .waiting t → s.waitingSuspended t = true →
      Calls s i (.unlock (.microthread i) t) (.waitUnlocking t)

/-- The steps of `i` that concern nobody else. -/
inductive Turns (s : UserSuspension ι ν) (i : ι) : SuspensionStage ι → Prop
  | enter : s.stage i = .elsewhere → Turns s i .checking
  | exit : s.stage i = .checking → Turns s i .elsewhere
  | suspend : s.stage i = .signalling true → Turns s i .suspending
  | again : s.stage i = .signalling false → Turns s i .checking
  | interrupted : s.stage i = .signalling false → Turns s i .elsewhere
  | waited {t} : s.stage i = .waitUnlocking t → Turns s i .elsewhere

/-- A step of the lock functions, or of a worker, or of a thread that is elsewhere. -/
inductive Works (s : UserSuspension ι ν) : SuspensionLabel ι ν → LockLabel ι ν ι → Prop
  | go {p} : Works s (.lockGo p) (.go p)
  | handOver {q} : Works s (.handOver q) (.handOver q)
  | doWork {i r} : s.stage i ≠ .asleep → Works s (.doWork i r) (.doWork i r)
  | elsewhere {i t} : s.stage i = .elsewhere → Works s (.elsewhere i t) (.elsewhere i t)

inductive Moves (s : UserSuspension ι ν) : SuspensionLabel ι ν → UserSuspension ι ν → Prop
  | call {l i c x flags} (locks : Locks ι ν ι) : Calls s i c x → s.locks.step c = some locks →
      Moves s l ({ s with locks := locks, waitingSuspended := flags }.goto i x)
  | turn {l i x} (results : ι → WaitResult) : Turns s i x → Moves s l ({ s with waitResult := results }.goto i x)
  | work {l c} (locks : Locks ι ν ι) : Works s l c → s.locks.step c = some locks → Moves s l { s with locks := locks }
  | hold {i t} : Moves s (.threadHold i t)
      { s with suspendCount := Function.update s.suspendCount t (int16 (s.suspendCount t + 1)) }
  | release {i t} : s.stage i = .elsewhere → Moves s (.threadRelease i t)
      ({ s with suspendCount := Function.update s.suspendCount t (int16 (s.suspendCount t - 1)) }.goto i (.releasing t))
  | resume {i t} : s.stage i = .releasing t →
      Moves s (.go i) ({ s with locks := s.locks.resume t .outside }.goto i .elsewhere)
  | suspendBegin {i} : s.stage i = .suspending → s.locks.pc (.microthread i) = .outside →
      Moves s (.go i) ({ s with
        locks := s.locks.setThread i ((s.locks.th i).suspendBegin (Locks.here (s.locks.th i))) }.goto i .committing)
  | suspendCommit {i} : s.stage i = .committing → (s.locks.th i).suspended = true →
      Moves s (.go i) ({ s with locks := s.locks.setThread i (s.locks.th i) }.goto i .leaving)
  | notSuspended {i} (locks : Locks ι ν ι) : s.stage i = .committing → (s.locks.th i).suspended = false →
      Moves s (.go i) ({ s with locks := locks }.goto i (.locking false))
  | leave {i} (t : Thread) : s.stage i = .leaving → t.suspended = (s.locks.th i).suspended →
      Moves s (.go i) ({ s with locks := s.locks.doneWorking i t }.goto i .asleep)
  | leaveFails {i} (f : LockFault) : Moves s (.go i) { s with locks := s.locks.crash f }
  | wake {i r} (t : Thread) (locks : Locks ι ν ι) : s.stage i = .asleep →
      ((s.locks.popped i r).setThread i t).step (.lock (.microthread i) i) = some locks →
      Moves s (.doWork i r) ({ s with locks := locks }.goto i (.locking false))
  | turnedAway {i r} (locks : Locks ι ν ι) : s.stage i = .asleep → resumes (s.locks.th i) = false →
      Moves s (.doWork i r) { s with locks := locks }
  | interrupt {i} (results : ι → WaitResult) : Moves s (.interrupt i) { s with waitResult := results }

theorem call_eq_some {s s' : UserSuspension ι ν} {i : ι} {l : LockLabel ι ν ι} {x : SuspensionStage ι}
    (h : s.call i l x = some s') :
    ∃ locks, s.locks.step l = some locks ∧ s' = { s with locks := locks }.goto i x := by
  obtain ⟨s₁, h₁, rfl⟩ := Option.map_eq_some_iff.1 h
  obtain ⟨locks, hl, rfl⟩ := Option.map_eq_some_iff.1 h₁
  exact ⟨locks, hl, rfl⟩

theorem returnToTop_suspended {t t' : Thread} {freed : Option Stack} (h : t.returnToTop = .ok (t', freed)) :
    t'.suspended = t.suspended := by
  unfold Thread.returnToTop at h
  split at h
  · split at h <;> cases h
    rfl
  · cases h
    rfl

theorem goOn_moves {s s' : UserSuspension ι ν} {i : ι} (ho : s.locks.pc (.microthread i) = .outside)
    (h : s.goOn i = some s') : Moves s (.go i) s' := by
  unfold goOn at h
  split at h
  case h_1 | h_2 => cases h
  case h_3 hx =>
    split at h
    · obtain ⟨locks, hl, rfl⟩ := call_eq_some h
      exact .call locks (.announce hx ‹_›) hl
    · cases h; exact .turn s.waitResult (.exit hx)
  case h_4 hx =>
    obtain ⟨locks, hl, rfl⟩ := call_eq_some h
    exact .call locks (.unlock hx) hl
  case h_5 hx =>
    obtain ⟨locks, hl, rfl⟩ := call_eq_some h
    exact .call locks (.signal hx) hl
  case h_6 hx => cases h; exact .turn _ (.suspend hx)
  case h_7 hx =>
    cases h
    split
    · exact .turn s.waitResult (.interrupted hx)
    · exact .turn s.waitResult (.again hx)
  case h_8 hx => cases h; exact .suspendBegin hx ho
  case h_9 hx =>
    simp only [Thread.suspendCommit] at h
    cases hs : (s.locks.th i).suspended with
    | true => simp only [hs, if_true] at h; cases h; exact .suspendCommit hx hs
    | false =>
      simp only [hs, Bool.false_eq_true, if_false] at h
      obtain ⟨locks, -, rfl⟩ := call_eq_some h
      exact .notSuspended locks hx hs
  case h_10 hx =>
    split at h
    · cases h; exact .leaveFails _
    · cases h; exact .leave _ hx (returnToTop_suspended ‹_›)
  case h_11 hx =>
    split at h
    · obtain ⟨locks, hl, rfl⟩ := call_eq_some h
      exact .call locks (.waitDone hx ‹_›) hl
    · obtain ⟨locks, hl, rfl⟩ := call_eq_some h
      exact .call locks (.waitMore hx) hl
  case h_12 hx => cases h; exact .turn s.waitResult (.waited hx)
  case h_13 hx => cases h; exact .resume hx

theorem wake_moves {s s' : UserSuspension ι ν} {i : ι} {r : Wakeup} (hx : s.stage i = .asleep)
    (h : { s with locks := s.locks.popped i r }.wake i = some s') : Moves s (.doWork i r) s' := by
  have away : resumes (s.locks.th i) = false → (∃ locks, s' = { s with locks := locks }) →
      Moves s (.doWork i r) s' := by
    rintro hr ⟨locks, rfl⟩
    exact .turnedAway locks hx hr
  have hth : (s.locks.popped i r).th i = s.locks.th i := rfl
  unfold wake at h
  rw [hth] at h
  unfold resumes at away
  split at h
  case h_1 heq | h_2 heq => cases h; exact away (by rw [heq]) ⟨_, rfl⟩
  case h_3 heq => cases h; exact away (by rw [heq]) ⟨_, rfl⟩
  case h_4 heq =>
    rw [heq] at away
    simp only at away
    split at h
    case h_1 hd => cases h; exact away (by rw [hd]) ⟨_, rfl⟩
    case h_2 hd =>
      rw [hd] at away
      simp only at away
      split at h
      · rename_i hst
        cases h; exact away (by rw [hst]; rfl) ⟨_, rfl⟩
      · obtain ⟨locks, hl, rfl⟩ := call_eq_some h
        exact .wake _ locks hx hl
    case h_3 hd => cases h; exact away (by rw [hd]) ⟨_, rfl⟩
    case h_4 | h_5 => cases h

theorem withLocks_moves {s s' : UserSuspension ι ν} {l : SuspensionLabel ι ν} {c : LockLabel ι ν ι}
    (hw : Works s l c) (h : s.withLocks c = some s') : Moves s l s' := by
  obtain ⟨locks, hl, rfl⟩ := Option.map_eq_some_iff.1 h
  exact .work locks hw hl

theorem step_moves {s s' : UserSuspension ι ν} {l : SuspensionLabel ι ν} (h : s.step l = some s') : Moves s l s' := by
  unfold step at h
  split at h
  · cases h
  cases l with
  | enter i =>
    obtain ⟨hx, h⟩ := Option.ite_none_right_eq_some.1 h
    cases h; exact .turn s.waitResult (.enter hx)
  | threadHold i t =>
    obtain ⟨-, h⟩ := Option.ite_none_right_eq_some.1 h
    cases h; exact .hold
  | threadRelease i t =>
    obtain ⟨hx, h⟩ := Option.ite_none_right_eq_some.1 h
    cases h; exact .release hx
  | threadWait i t =>
    obtain ⟨hx, h⟩ := Option.ite_none_right_eq_some.1 h
    obtain ⟨locks, hl, rfl⟩ := call_eq_some h
    exact .call locks (.wait hx) hl
  | go i =>
    obtain ⟨ho, h⟩ := Option.ite_none_right_eq_some.1 h
    exact goOn_moves ho h
  | lockGo p => exact withLocks_moves .go h
  | handOver q => exact withLocks_moves .handOver h
  | doWork i r =>
    simp only at h
    split at h
    · obtain ⟨-, h⟩ := Option.ite_none_right_eq_some.1 h
      exact wake_moves ‹_› h
    · exact withLocks_moves (.doWork ‹_›) h
  | interrupt i => cases h; exact .interrupt _
  | elsewhere i t =>
    obtain ⟨hx, h⟩ := Option.ite_none_right_eq_some.1 h
    exact withLocks_moves (.elsewhere hx) h

/-! ## What the lock functions leave alone -/

/-- The label is about microthread `i`, and not a step of the lock function it is in. -/
def concerns (i : ι) : LockLabel ι ν ι → Bool
  | .lock p _ | .unlock p _ | .condvarWait p _ _ | .condvarSignal p _ _ => p = .microthread i
  | .doWork j _ | .elsewhere j _ | .notifyDead j | .interruptEnter j _ => j = i
  | .go _ | .handOver _ | .threadRelease _ => false

/-- A thread outside of the lock functions keeps its state and its entries. -/
structure Spared (k k' : Locks ι ν ι) (i : ι) : Prop where
  outside : k'.pc (.microthread i) = .outside
  suspended : (k'.th i).suspended = (k.th i).suspended
  entries : ∀ r, (i, r) ∈ k.workQueue → (i, r) ∈ k'.workQueue

theorem spared_resume {k : Locks ι ν ι} {i : ι} (ho : k.pc (.microthread i) = .outside) (j : ι) (r : Wakeup) :
    Spared k (k.resume j r) i := by
  obtain ⟨wq, he, hw⟩ := k.resume_eq j r
  rw [he]
  refine ⟨ho, rfl, fun r' hr' => ?_⟩
  rw [hw]
  split
  · exact List.mem_append_left _ hr'
  · exact hr'

theorem doneWorking_workQueue (k : Locks ι ν ι) (j : ι) (t : Thread) {e : ι × Wakeup} (he : e ∈ k.workQueue) :
    e ∈ (k.doneWorking j t).workQueue := by
  unfold Locks.doneWorking
  split
  · exact he
  · dsimp only
    split
    · exact List.mem_append_left _ he
    · exact he

theorem spared_doneWorking {k : Locks ι ν ι} {i : ι} (ho : k.pc (.microthread i) = .outside) {j : ι} (hj : j ≠ i)
    (t : Thread) : Spared k (k.doneWorking j t) i := by
  refine ⟨?_, ?_, fun r hr => doneWorking_workQueue k j t hr⟩
  · obtain ⟨_, _, _, he, -⟩ := k.doneWorking_eq j t
    rw [he]; exact ho
  · obtain ⟨_, _, _, he, hth⟩ := k.doneWorking_eq j t
    rw [he]
    exact congrArg _ (hth i hj.symm)

theorem spared_goes {k k' : Locks ι ν ι} {p : Party ι ν} {i : ι} (ho : k.pc (.microthread i) = .outside)
    (h : Locks.Goes k p k') : Spared k k' i := by
  have hp : p ≠ .microthread i := by
    rintro rfl
    cases h <;> simp_all
  have houtside : k'.pc (.microthread i) = .outside := (h.pc_other hp.symm).trans ho
  have hth {j : ι} (hj : p = .microthread j) (t : Thread) : (k.setThread j t).th i = k.th i := by
    rw [Locks.setThread_th, if_neg]
    rintro rfl
    exact hp hj
  cases h with
  | suspendBegin | suspendCommit | notSuspended => exact ⟨houtside, congrArg _ (hth rfl _), fun r hr => hr⟩
  | @leave j w t freed =>
    have hd := spared_doneWorking ho (j := j) (by rintro rfl; exact hp rfl) t
    exact ⟨houtside, hd.suspended, hd.entries⟩
  | @wake _ _ link | @signalWake _ _ _ link =>
    have hr := spared_resume ho link .dequeued
    exact ⟨houtside, hr.suspended, hr.entries⟩
  | _ => exact ⟨houtside, rfl, fun r hr => hr⟩

theorem mem_popped {k : Locks ι ν ι} {i j : ι} {r r' : Wakeup} (hj : j ≠ i) (h : (i, r) ∈ k.workQueue) :
    (i, r) ∈ (k.popped j r').workQueue :=
  (List.mem_erase_of_ne fun he => hj (Prod.mk.inj he).1.symm).2 h

theorem spared_step {k k' : Locks ι ν ι} {l : LockLabel ι ν ι} {i : ι} (ho : k.pc (.microthread i) = .outside)
    (hc : concerns i l = false) (h : k.step l = some k') : Spared k k' i := by
  have hpc {p : Party ι ν} (hp : decide (p = .microthread i) = false) (x : Pc ι ι) :
      (k.setPc p x).pc (.microthread i) = .outside := by
    rw [Locks.setPc_pc, if_neg (fun e => of_decide_eq_false hp e.symm), ho]
  have hth {j : ι} (hj : j ≠ i) (t : Thread) : (k.setThread j t).th i = k.th i := by
    rw [Locks.setThread_th, if_neg hj.symm]
  cases (Locks.step_moves h).2 with
  | stillOwned => exact ⟨ho, rfl, fun r hr => hr⟩
  | lock | unlock | condvarWait | condvarSignal => exact ⟨hpc hc _, rfl, fun r hr => hr⟩
  | go _ hg => exact spared_goes ho hg
  | handOver => exact ⟨ho, rfl, fun r hr => hr⟩
  | crashAtWork => exact ⟨ho, rfl, fun r hr => mem_popped (of_decide_eq_false hc) hr⟩
  | ignored t =>
    have hj := of_decide_eq_false hc
    exact ⟨ho, congrArg _ (hth hj t), fun r hr => mem_popped hj hr⟩
  | @ended j reason w t =>
    have hd := spared_doneWorking (k := k.popped j reason) ho (of_decide_eq_false hc) t
    exact ⟨hd.outside, hd.suspended, fun r hr => hd.entries r (mem_popped (of_decide_eq_false hc) hr)⟩
  | resumed t =>
    have hj := of_decide_eq_false hc
    refine ⟨?_, congrArg _ (hth hj t), fun r hr => mem_popped hj hr⟩
    exact hpc (p := .microthread _) (decide_eq_false fun e => hj (by injection e)) _
  | elsewhere => exact ⟨ho, congrArg _ (hth (of_decide_eq_false hc) _), fun r hr => hr⟩
  | stillDead => exact ⟨ho, rfl, fun r hr => hr⟩
  | deadIdle => exact ⟨ho, congrArg _ (hth (of_decide_eq_false hc) _), fun r hr => hr⟩
  | @deadBusy j =>
    have hr := spared_resume (k := k.setThread j (k.th j).notifyDead) ho j .outside
    exact ⟨hr.outside, hr.suspended.trans (congrArg _ (hth (of_decide_eq_false hc) _)), hr.entries⟩
  | threadRelease => exact spared_resume ho _ _
  | interruptFails => exact ⟨ho, rfl, fun r hr => hr⟩
  | interruptEnter t =>
    exact ⟨ho, congrArg _ (hth (of_decide_eq_false hc) t), fun r hr => List.mem_append_left _ hr⟩

/-! ## What a suspended thread waits for -/

/-- A thread that the loop has suspended is outside of the lock functions; one that is to sleep with
nothing to hold it will be resumed, or is scheduled. -/
structure Sleeper (s : UserSuspension ι ν) (i : ι) : Prop where
  outside : (s.stage i).suspended = true → s.locks.pc (.microthread i) = .outside ∧ (s.locks.th i).suspended = true
  due : (s.stage i).entering = true ∨ (s.stage i).suspended = true → s.suspendCount i ≤ 0 →
    (∃ j, s.stage j = .releasing i) ∨ (s.stage i).suspended = true ∧ ∃ r, (i, r) ∈ s.locks.workQueue

@[simp] theorem goto_stage (s : UserSuspension ι ν) (i : ι) (x : SuspensionStage ι) (j : ι) :
    (s.goto i x).stage j = if j = i then x else s.stage j := Function.update_apply ..

theorem Spared.refl {k : Locks ι ν ι} {i : ι} (ho : k.pc (.microthread i) = .outside) : Spared k k i :=
  ⟨ho, rfl, fun _ hr => hr⟩

theorem Spared.trans {k k' k'' : Locks ι ν ι} {i : ι} (h : Spared k k' i) (h' : Spared k' k'' i) : Spared k k'' i :=
  ⟨h'.outside, h'.suspended.trans h.suspended, fun r hr => h'.entries r (h.entries r hr)⟩

theorem spared_setThread {k : Locks ι ν ι} {i j : ι} (ho : k.pc (.microthread i) = .outside) (hj : i ≠ j) (t : Thread) :
    Spared k (k.setThread j t) i :=
  ⟨ho, congrArg _ ((k.setThread_th j i t).trans (if_neg hj)), fun _ hr => hr⟩

variable {s s' : UserSuspension ι ν} {i : ι}

/-- A thread that does not move, while its count does not fall and nobody leaves `thread_release`. -/
theorem Sleeper.keep (h : s.Sleeper i) (hx : s'.stage i = s.stage i)
    (hs : s.locks.pc (.microthread i) = .outside → (s.stage i).suspended = true → Spared s.locks s'.locks i)
    (hc : s'.suspendCount i ≤ 0 → s.suspendCount i ≤ 0)
    (hr : ∀ j, s.stage j = .releasing i → s'.stage j = .releasing i) : s'.Sleeper i where
  outside hsus := by
    rw [hx] at hsus
    have ho := h.outside hsus
    have hsp := hs ho.1 hsus
    exact ⟨hsp.outside, hsp.suspended.trans ho.2⟩
  due hst hle := by
    rw [hx] at hst ⊢
    rcases h.due hst (hc hle) with ⟨j, hj⟩ | ⟨hsus, r, he⟩
    · exact .inl ⟨j, hr j hj⟩
    · exact .inr ⟨hsus, r, (hs (h.outside hsus).1 hsus).entries r he⟩

/-- A thread that is not on its way to sleep. -/
theorem Sleeper.awake (he : (s.stage i).entering = false) (hs : (s.stage i).suspended = false) : s.Sleeper i where
  outside hsus := by rw [hs] at hsus; cases hsus
  due hst := by
    rw [he, hs] at hst
    rcases hst with h | h <;> cases h

/-- The thread goes on from a place before its suspension to another. -/
theorem Sleeper.enters (h : s.Sleeper i) (hold : (s.stage i).entering = true) (hnew : (s'.stage i).suspended = false)
    (hc : s'.suspendCount i = s.suspendCount i) (hr : ∀ j, s.stage j = .releasing i → s'.stage j = .releasing i) :
    s'.Sleeper i where
  outside hsus := by rw [hnew] at hsus; cases hsus
  due _ hle := by
    rw [hc] at hle
    rcases h.due (.inl hold) hle with ⟨j, hj⟩ | ⟨hsus, -⟩
    · exact .inl ⟨j, hr j hj⟩
    · rw [SuspensionStage.not_suspended hold] at hsus
      cases hsus

/-- The thread goes on in its suspension. -/
theorem Sleeper.suspends (h : s.Sleeper i) (hold : (s.stage i).entering = true ∨ (s.stage i).suspended = true)
    (hnew : (s'.stage i).suspended = true) (ho : s'.locks.pc (.microthread i) = .outside)
    (hs : (s'.locks.th i).suspended = true) (he : ∀ r, (i, r) ∈ s.locks.workQueue → (i, r) ∈ s'.locks.workQueue)
    (hc : s'.suspendCount i = s.suspendCount i) (hr : ∀ j, s.stage j = .releasing i → s'.stage j = .releasing i) :
    s'.Sleeper i where
  outside _ := ⟨ho, hs⟩
  due _ hle := by
    rw [hc] at hle
    rcases h.due hold hle with ⟨j, hj⟩ | ⟨-, r, hm⟩
    · exact .inl ⟨j, hr j hj⟩
    · exact .inr ⟨hnew, r, he r hm⟩

/-- Nobody but `i`, which is not in `thread_release` before, changes its place. -/
theorem releasing_goto {s₁ : UserSuspension ι ν} {j t : ι} {x : SuspensionStage ι} (hs : s₁.stage = s.stage)
    (hi : s.stage i ≠ .releasing t) (hj : s.stage j = .releasing t) : (s₁.goto i x).stage j = .releasing t := by
  rw [goto_stage, if_neg, hs, hj]
  rintro rfl
  exact hi hj

theorem sleeper_call {c : LockLabel ι ν ι} {x : SuspensionStage ι} {j : ι} {locks : Locks ι ν ι} {flags : ι → Bool}
    (h : s.Sleeper i) (hc : Calls s j c x) (hl : s.locks.step c = some locks) :
    ({ s with locks := locks, waitingSuspended := flags }.goto j x).Sleeper i := by
  have hnot : ∀ t, s.stage j ≠ .releasing t := by cases hc <;> simp_all
  have hr : ∀ k, s.stage k = .releasing i →
      ({ s with locks := locks, waitingSuspended := flags }.goto j x).stage k = .releasing i :=
    fun k => releasing_goto rfl (hnot i)
  by_cases hij : i = j
  · subst j
    cases hc with
    | announce _ hpos =>
      refine ⟨by simp [SuspensionStage.suspended], fun _ hle => ?_⟩
      exact absurd hpos (Int.not_lt.2 hle)
    | @unlock b hx =>
      cases b with
      | true => exact h.enters (by rw [hx]; rfl) (by simp [SuspensionStage.suspended]) rfl hr
      | false => exact .awake (by simp [SuspensionStage.entering]) (by simp [SuspensionStage.suspended])
    | @signal b hx =>
      cases b with
      | true => exact h.enters (by rw [hx]; rfl) (by simp [SuspensionStage.suspended]) rfl hr
      | false => exact .awake (by simp [SuspensionStage.entering]) (by simp [SuspensionStage.suspended])
    | _ => exact .awake (by simp [SuspensionStage.entering]) (by simp [SuspensionStage.suspended])
  · refine h.keep (by simp [hij]) (fun ho _ => spared_step ho ?_ hl) id hr
    have hne : ¬ Party.microthread (ν := ν) j = .microthread i := by
      rintro ⟨⟩
      exact hij rfl
    cases hc <;> exact decide_eq_false hne

theorem sleeper_turn {x : SuspensionStage ι} {j : ι} {results : ι → WaitResult} (h : s.Sleeper i) (ht : Turns s j x) :
    ({ s with waitResult := results }.goto j x).Sleeper i := by
  have hnot : ∀ t, s.stage j ≠ .releasing t := by cases ht <;> simp_all
  have hr : ∀ k, s.stage k = .releasing i → ({ s with waitResult := results }.goto j x).stage k = .releasing i :=
    fun k => releasing_goto rfl (hnot i)
  by_cases hij : i = j
  · subst j
    cases ht with
    | suspend hx => exact h.enters (by rw [hx]; rfl) (by simp [SuspensionStage.suspended]) rfl hr
    | _ => exact .awake (by simp [SuspensionStage.entering]) (by simp [SuspensionStage.suspended])
  · exact h.keep (by simp [hij]) (fun ho _ => .refl ho) id hr

/-- The lock functions do not run a thread that `doWork` would resume from elsewhere. -/
theorem doWork_outside {k k' : Locks ι ν ι} {r : Wakeup} (ho : k.pc (.microthread i) = .outside)
    (h : k.step (.doWork i r) = some k') : resumes (k.th i) = false := by
  unfold Locks.step at h
  split at h
  · cases h
  obtain ⟨-, h⟩ := Option.ite_none_right_eq_some.1 h
  have hpc : (k.popped i r).pc (.microthread i) = .outside := ho
  have hth : (k.popped i r).th i = k.th i := rfl
  simp only [Locks.runEntry, hpc, hth] at h
  unfold resumes
  split at h
  case h_1 heq | h_2 heq => rw [heq]
  case h_3 => cases h

theorem sleeper_work {l : SuspensionLabel ι ν} {c : LockLabel ι ν ι} {locks : Locks ι ν ι} (h : s.Sleeper i)
    (hg : s.taken l = true) (hw : Works s l c) (hl : s.locks.step c = some locks) :
    Sleeper { s with locks := locks } i := by
  refine h.keep rfl (fun ho hsus => ?_) id fun _ hj => hj
  cases hw with
  | go | handOver => exact spared_step ho rfl hl
  | @doWork j r hx =>
    apply spared_step ho _ hl
    refine decide_eq_false ?_
    rintro rfl
    simp only [taken, hsus, Bool.not_true, Bool.false_or] at hg
    rw [doWork_outside ho hl] at hg
    cases hg
  | @elsewhere j t hx =>
    apply spared_step ho _ hl
    refine decide_eq_false ?_
    rintro rfl
    rw [hx] at hsus
    cases hsus

theorem doneWorking_suspended {k : Locks ι ν ι} {t : Thread} (ht : t.suspended = (k.th i).suspended) :
    ((k.doneWorking i t).th i).suspended = (k.th i).suspended := by
  have hkeep : ∀ t' b, t.doneWorking = .ok (t', b) → t'.suspended = t.suspended := by
    intro t' b hd
    unfold Thread.doneWorking at hd
    dsimp only at hd
    split at hd
    · cases hd; rfl
    split at hd
    · cases hd; rfl
    split at hd
    · cases hd
    · cases hd; rfl
  have hth : ∀ t', ((k.setThread i t').th i).suspended = t'.suspended := by
    intro t'
    rw [Locks.setThread_th, if_pos rfl]
  unfold Locks.doneWorking
  split
  · rfl
  · rename_i t' b hd
    dsimp only
    split <;> exact (hth t').trans ((hkeep t' b hd).trans ht)

theorem int16_succ_pos {n : Int} (h1 : 0 < n) (h2 : n < 32767) : 0 < int16 (n + 1) := by
  rw [int16_eq (by omega) (by omega)]
  omega

theorem sleeper_moves {l : SuspensionLabel ι ν} (h : ∀ i, s.Sleeper i) (hg : s.heeded l = true) (hm : Moves s l s')
    (i : ι) : s'.Sleeper i := by
  have hi := h i
  obtain ⟨hrel, htaken, hbound⟩ := heeded_iff.1 hg
  cases hm with
  | call locks hc hl => exact sleeper_call hi hc hl
  | turn results ht => exact sleeper_turn hi ht
  | work locks hw hl => exact sleeper_work hi htaken hw hl
  | @hold j t =>
    refine hi.keep rfl (fun ho _ => .refl ho) ?_ fun _ hj => hj
    intro hle
    by_cases hit : i = t
    · subst t
      have hmax : s.suspendCount i < 32767 := of_decide_eq_true hbound
      simp only [Function.update_self] at hle
      by_contra hpos
      have := int16_succ_pos (Int.not_le.1 hpos) hmax
      omega
    · simpa [hit] using hle
  | @release j t hx =>
    by_cases hij : i = j
    · subst j
      exact .awake (by simp [SuspensionStage.entering]) (by simp [SuspensionStage.suspended])
    · by_cases hit : i = t
      · subst t
        have hold := hi.outside
        refine ⟨fun hsus => hold ?_, fun _ _ => .inl ⟨j, by simp⟩⟩
        simpa [hij] using hsus
      · refine hi.keep (by simp [hij]) (fun ho _ => .refl ho) (by simp [goto, hit]) fun k => releasing_goto rfl ?_
        rw [hx]
        nofun
  | @resume j t hx =>
    by_cases hij : i = j
    · subst j
      exact .awake (by simp [SuspensionStage.entering]) (by simp [SuspensionStage.suspended])
    · by_cases hit : i = t
      · subst t
        have hstage : ({ s with locks := s.locks.resume i .outside }.goto j .elsewhere).stage i = s.stage i := by
          simp [hij]
        constructor
        · intro hsus
          rw [hstage] at hsus
          have hold := hi.outside hsus
          have hsp := spared_resume hold.1 i .outside
          exact ⟨hsp.outside, hsp.suspended.trans hold.2⟩
        · intro hst hle
          rw [hstage] at hst ⊢
          rcases hst with hent | hsus
          -- the release has come too early, which the condition rules out
          · simp only [releasedInTime, hx, hent, Bool.not_true, Bool.false_or, decide_eq_true_eq] at hrel
            exact absurd hrel (Int.not_lt.2 hle)
          · obtain ⟨wq, he, hw⟩ := s.locks.resume_eq i .outside
            refine .inr ⟨hsus, .outside, ?_⟩
            show _ ∈ (s.locks.resume i .outside).workQueue
            rw [he]
            show _ ∈ wq
            rw [hw, if_pos (hi.outside hsus).2]
            exact List.mem_append_right _ (List.mem_singleton.2 rfl)
      · refine hi.keep (by simp [hij]) (fun ho _ => spared_resume ho t .outside) id fun k => releasing_goto rfl ?_
        rw [hx]
        rintro ⟨⟩
        exact hit rfl
  | @suspendBegin j hx ho =>
    have hnot : s.stage j ≠ .releasing i := by rw [hx]; nofun
    by_cases hij : i = j
    · subst j
      refine hi.suspends (.inl (by rw [hx]; rfl)) (by simp [SuspensionStage.suspended]) ho ?_ (fun _ he => he) rfl
        fun k => releasing_goto rfl hnot
      show ((s.locks.setThread i _).th i).suspended = true
      rw [Locks.setThread_th, if_pos rfl]
      rfl
    · exact hi.keep (by simp [hij]) (fun ho _ => spared_setThread ho hij _) id fun k => releasing_goto rfl hnot
  | @suspendCommit j hx hs =>
    have hnot : s.stage j ≠ .releasing i := by rw [hx]; nofun
    by_cases hij : i = j
    · subst j
      have hsus : (s.stage i).suspended = true := by rw [hx]; rfl
      refine hi.suspends (.inr hsus) (by simp [SuspensionStage.suspended]) (hi.outside hsus).1 ?_ (fun _ he => he) rfl
        fun k => releasing_goto rfl hnot
      show ((s.locks.setThread i _).th i).suspended = true
      rw [Locks.setThread_th, if_pos rfl]
      exact hs
    · exact hi.keep (by simp [hij]) (fun ho _ => spared_setThread ho hij _) id fun k => releasing_goto rfl hnot
  | @notSuspended j locks hx hs =>
    have := ((h j).outside (by rw [hx]; rfl)).2
    rw [hs] at this
    cases this
  | @leave j t hx ht =>
    have hnot : s.stage j ≠ .releasing i := by rw [hx]; nofun
    by_cases hij : i = j
    · subst j
      have hsus : (s.stage i).suspended = true := by rw [hx]; rfl
      have hold := hi.outside hsus
      refine hi.suspends (.inr hsus) (by simp [SuspensionStage.suspended]) ?_ ((doneWorking_suspended ht).trans hold.2)
        (fun _ he => doneWorking_workQueue _ i t he) rfl fun k => releasing_goto rfl hnot
      obtain ⟨_, _, _, he, -⟩ := s.locks.doneWorking_eq i t
      show (s.locks.doneWorking i t).pc _ = _
      rw [he]
      exact hold.1
    · exact hi.keep (by simp [hij]) (fun ho _ => spared_doneWorking ho (Ne.symm hij) t) id
        fun k => releasing_goto rfl hnot
  | leaveFails f => exact hi.keep rfl (fun ho _ => ⟨ho, rfl, fun r hr => hr⟩) id fun _ hj => hj
  | @wake j r t locks hx hl =>
    by_cases hij : i = j
    · subst j
      exact .awake (by simp [SuspensionStage.entering]) (by simp [SuspensionStage.suspended])
    · refine hi.keep (by simp [hij]) (fun ho _ => ?_) id fun k => releasing_goto rfl (by rw [hx]; nofun)
      have hpop : Spared s.locks (s.locks.popped j r) i := ⟨ho, rfl, fun _ he => mem_popped (Ne.symm hij) he⟩
      have hset := spared_setThread hpop.outside hij t
      have hne : ¬ Party.microthread (ν := ν) j = .microthread i := by
        rintro ⟨⟩
        exact hij rfl
      exact (hpop.trans hset).trans (spared_step hset.outside (l := .lock (.microthread j) j) (decide_eq_false hne) hl)
  | turnedAway locks hx hr =>
    simp only [taken, hx, hr, SuspensionStage.suspended] at htaken
    cases htaken
  | interrupt results => exact hi.keep rfl (fun ho _ => .refl ho) id fun _ hj => hj

theorem sleeper_reach (h : Reach step (fun s l => s.heeded l = true) Init s) : ∀ i, s.Sleeper i := by
  refine h.inv (fun s => ∀ i, s.Sleeper i) ?_ fun s l s' hi hg hs => sleeper_moves hi hg (step_moves hs)
  intro s hs i
  refine .awake ?_ ?_ <;> rw [hs.stage] <;> rfl

/-! ## What thread_wait has seen -/

/-- Whether `waiting_suspended` of the thread that a microthread waits for has been set since it called
`thread_wait`, which it does after the hold. -/
def note (s : UserSuspension ι ν) (_ : SuspensionLabel ι ν) (s' : UserSuspension ι ν) (seen : ι → Bool) (i : ι) :
    Bool :=
  match s'.stage i with
  | .waiting t | .waitUnlocking t => (s.stage i ≠ .elsewhere && seen i) || s.waitingSuspended t
  | _ => false

/-- `thread_wait` comes to its end from a look at `waiting_suspended`. -/
theorem waitUnlocking_moves {l : SuspensionLabel ι ν} {t : ι} (hm : Moves s l s') (hx : s'.stage i = .waitUnlocking t) :
    s.stage i = .waitUnlocking t ∨ s.waitingSuspended t = true := by
  have other {s₁ : UserSuspension ι ν} {j : ι} {x : SuspensionStage ι} (hs : s₁.stage = s.stage)
      (hx : (s₁.goto j x).stage i = .waitUnlocking t) (hj : x = .waitUnlocking t → s.waitingSuspended t = true) :
      s.stage i = .waitUnlocking t ∨ s.waitingSuspended t = true := by
    rw [goto_stage, hs] at hx
    split at hx
    · exact .inr (hj hx)
    · exact .inl hx
  cases hm with
  | call _ hc _ =>
    refine other rfl hx ?_
    rintro rfl
    cases hc
    assumption
  | turn _ ht =>
    refine other rfl hx ?_
    rintro rfl
    cases ht
  | work | hold | leaveFails | turnedAway | interrupt => exact .inl hx
  | release | resume | suspendBegin | suspendCommit | notSuspended | leave | wake => exact other rfl hx nofun

theorem seen_reach {p : UserSuspension ι ν × (ι → Bool)}
    (h : Reach (track step note) (fun _ _ => True) (fun p => Init p.1) p) (i t : ι)
    (hx : p.1.stage i = .waitUnlocking t) : p.2 i = true := by
  revert i t hx
  refine h.inv (fun p => ∀ i t, p.1.stage i = .waitUnlocking t → p.2 i = true) ?_ ?_
  · intro p hp i t hx
    rw [hp.stage] at hx
    cases hx
  · intro p l p' hi _ hs i t hx
    obtain ⟨hs, hn⟩ := track_some hs
    rw [hn, note, hx]
    rcases waitUnlocking_moves (step_moves hs) hx with hold | hset
    · simp [hold, hi i t hold]
    · simp [hset]

/-- The threads of the runs below. -/
inductive Duo where
  | sleeper
  | other
  deriving DecidableEq

/-- Both threads are in the middle of a call, and nobody is in a lock function. -/
def start : UserSuspension Duo Unit where
  locks :=
    { th _ := { running := true, stack := some 0, activeCall := some ⟨0, .plain 0⟩ }
      pc _ := .outside
      owner _ := none
      queueLock _ := none
      links := ⟨fun _ => none, .first, fun _ => .first (.mutex .sleeper)⟩
      workQueue := []
      holds _ _ := false
      fault := none }
  stage _ := .elsewhere
  suspendCount _ := 0
  waitingSuspended _ := false
  waitResult _ := .awakened

theorem start_init : Init start where
  locks :=
    ⟨fun _ => ⟨rfl, rfl⟩, fun _ => rfl, fun _ => rfl, fun _ => rfl, fun _ => ⟨rfl, rfl⟩, rfl, fun _ _ => rfl, rfl⟩
  stage _ := rfl
  suspendCount _ := rfl
  waitingSuspended _ := rfl

/-- The lock function that a thread is in goes on, `n` times. -/
def locking (i : Duo) (n : Nat) : List (SuspensionLabel Duo Unit) := List.replicate n (.lockGo (.microthread i))

/-- The sleeper is held, announces itself and is about to suspend. -/
def announced : List (SuspensionLabel Duo Unit) :=
  .threadHold .other .sleeper :: .enter .sleeper :: .go .sleeper :: locking .sleeper 2 ++
    .go .sleeper :: locking .sleeper 3 ++ .go .sleeper :: locking .sleeper 2 ++ [.go .sleeper]

def released : List (SuspensionLabel Duo Unit) := [.threadRelease .other .sleeper, .go .other]

/-- The other thread waits for the sleeper, up to the end of its `thread_wait`. -/
def waited : List (SuspensionLabel Duo Unit) := .threadWait .other .sleeper :: locking .other 2 ++ [.go .other]

end UserSuspension

end DarlingServer
