import DarlingServer.TailQueue
import DarlingServer.Thread
import DarlingServer.Lib.Runs
/-!
# Duct-taped locks

Mutexes and condition variables, step by step. A queue has a native lock of its
own, which is held for as long as it takes to look at the owner or at the queue;
but a microthread that goes to sleep leaves it to the done-working code of its
worker to unlock it, and a native caller that locks a mutex keeps the queue lock
itself. Each step below is what happens between two points at which another party
can come in: a native lock taken or dropped, one section under a thread's `_rwlock`.

A microthread that waits can also be resumed from outside: `notifyDead` and
`thread_release` resume it, and an `interrupt_enter` restarts the call it waits in.
-/

set_option linter.unusedSectionVars false

namespace DarlingServer

open Thread Runs

/-! ## Parties -/

/-- A caller of the lock functions. -/
inductive Party (ι ν : Type*) where
  | microthread (i : ι)
  /-- A native thread without a microthread. -/
  | native (v : ν)
  deriving DecidableEq

/-- Who has locked a queue. -/
inductive QueueHolder (ι ν : Type*) where
  | party (p : Party ι ν)
  /-- The worker that has just put `i` to sleep. -/
  | worker (i : ι)
  deriving DecidableEq

/-- What a microthread sleeps in: `dtape_mutex_lock`, or `dtape_condvar_wait` with the mutex it
will lock again. -/
inductive Wait (σ : Type*) where
  | mutex (m : σ)
  | condvar (c m : σ)
  deriving DecidableEq

def Wait.queue {σ : Type*} : Wait σ → WaitQueue σ
  | .mutex m => .mutex m
  | .condvar c _ => .condvar c

/-- What put a microthread on the work queue: an unlock or signal that has
dequeued it, or something else. -/
inductive Wakeup where
  | dequeued
  | outside
  deriving DecidableEq, Repr

/-- Where a party is in the four functions. -/
inductive Pc (ι σ : Type*) where
  | outside
  /-- Before it locks the queue of `m`, for the first time or after it was woken. -/
  | locking (m : σ) (retry : Bool)
  | looking (m : σ) (retry : Bool)
  /-- Linked, before the first section of `suspend`. -/
  | suspending (w : Wait σ)
  /-- Before the second section of `suspend`. -/
  | committing (w : Wait σ)
  /-- Back at the top of `doWork`, before the done-working section. -/
  | leaving (w : Wait σ)
  /-- Off its worker. -/
  | waiting (w : Wait σ)
  /-- In `dtape_condvar_wait`, before it locks the queue of `c`. -/
  | waitLocking (c m : σ)
  | inserting (c m : σ)
  /-- In `dtape_mutex_unlock`, before it locks the queue of `m`; called by `dtape_condvar_wait`
  with the queue of the condition variable locked, or not. -/
  | unlocking (m : σ) (after : Option σ)
  | releasing (m : σ) (after : Option σ)
  /-- It has dequeued `link` and is about to resume it. -/
  | waking (m : σ) (link : ι) (after : Option σ)
  | dropping (m : σ) (after : Option σ)
  | signalLocking (c : σ) (count : Nat)
  | signalling (c : σ) (count : Nat)
  | signalWaking (c : σ) (count : Nat) (link : ι)
  deriving DecidableEq

/-- Where a microthread goes on when it is resumed. -/
def Wait.resumed {ι σ : Type*} : Wait σ → Pc ι σ
  | .mutex m => .locking m true
  | .condvar _ m => .locking m false

inductive LockFault where
  | expectedOwned
  | expectedNotOwned
  /-- The link of a null thread is used. -/
  | nullThread
  | thread (f : Fault)
  deriving DecidableEq, Repr

/-- The text of the panic. -/
def LockFault.what : LockFault → Option String
  | .expectedOwned => "Lock assertion failed (not owned but expected to be owned)"
  | .expectedNotOwned => "Lock assertion failed (owned but expected not to be owned)"
  | .nullThread => none
  | .thread f => f.what

structure Locks (ι ν σ : Type*) where
  th : ι → Thread
  pc : Party ι ν → Pc ι σ
  /-- `dtape_owner`. -/
  owner : σ → Option ι
  queueLock : WaitQueue σ → Option (QueueHolder ι ν)
  links : Links ι σ
  workQueue : List (ι × Wakeup)
  /-- The party has locked the mutex and not unlocked it since. -/
  holds : Party ι ν → σ → Bool
  fault : Option LockFault

inductive LockLabel (ι ν σ : Type*) where
  | lock (p : Party ι ν) (m : σ)
  | unlock (p : Party ι ν) (m : σ)
  | condvarWait (p : Party ι ν) (c m : σ)
  | condvarSignal (p : Party ι ν) (c : σ) (count : Nat)
  /-- The party goes on in the function it is in. -/
  | go (p : Party ι ν)
  /-- A worker unlocks the queue that was handed to it. -/
  | handOver (q : WaitQueue σ)
  /-- A worker takes an entry of the work queue. -/
  | doWork (i : ι) (reason : Wakeup)
  /-- The microthread has done something else in the meantime. -/
  | elsewhere (i : ι) (t : Thread)
  | notifyDead (i : ι)
  | threadRelease (i : ι)
  | interruptEnter (i : ι) (c : Call)

namespace Locks

variable {ι ν σ : Type*} [DecidableEq ι] [DecidableEq ν] [DecidableEq σ]

/-! ## Steps -/

def setPc (s : Locks ι ν σ) (p : Party ι ν) (x : Pc ι σ) : Locks ι ν σ := { s with pc := Function.update s.pc p x }

def setThread (s : Locks ι ν σ) (i : ι) (t : Thread) : Locks ι ν σ := { s with th := Function.update s.th i t }

def setLock (s : Locks ι ν σ) (q : WaitQueue σ) (h : Option (QueueHolder ι ν)) : Locks ι ν σ :=
  { s with queueLock := Function.update s.queueLock q h }

def setHolds (s : Locks ι ν σ) (p : Party ι ν) (m : σ) (b : Bool) : Locks ι ν σ :=
  { s with holds := Function.update s.holds p (Function.update (s.holds p) m b) }

def setOwner (s : Locks ι ν σ) (m : σ) (o : Option ι) : Locks ι ν σ :=
  { s with owner := Function.update s.owner m o }

theorem setPc_pc (s : Locks ι ν σ) (p p' : Party ι ν) (x : Pc ι σ) :
    (s.setPc p x).pc p' = if p' = p then x else s.pc p' :=
  Function.update_apply _ _ _ _

theorem setThread_th (s : Locks ι ν σ) (i j : ι) (t : Thread) :
    (s.setThread i t).th j = if j = i then t else s.th j :=
  Function.update_apply _ _ _ _

theorem setLock_queueLock (s : Locks ι ν σ) (q q' : WaitQueue σ) (h : Option (QueueHolder ι ν)) :
    (s.setLock q h).queueLock q' = if q' = q then h else s.queueLock q' :=
  Function.update_apply _ _ _ _

theorem setOwner_owner (s : Locks ι ν σ) (m m' : σ) (o : Option ι) :
    (s.setOwner m o).owner m' = if m' = m then o else s.owner m' :=
  Function.update_apply _ _ _ _

theorem setHolds_holds (s : Locks ι ν σ) (p p' : Party ι ν) (m m' : σ) (b : Bool) :
    (s.setHolds p m b).holds p' m' = if p' = p ∧ m' = m then b else s.holds p' m' := by
  simp only [setHolds, Function.update_apply]
  by_cases hp : p' = p
  · subst p'; simp [Function.update_apply]
  · simp [hp]

def crash (s : Locks ι ν σ) (f : LockFault) : Locks ι ν σ := { s with fault := some f }

/-- `libsimple_lock_lock`, which blocks. -/
def takeLock (s : Locks ι ν σ) (p : Party ι ν) (q : WaitQueue σ) : Option (Locks ι ν σ) :=
  if s.queueLock q = none then some (s.setLock q (some (.party p))) else none

/-- `Thread::resume`. -/
def resume (s : Locks ι ν σ) (i : ι) (reason : Wakeup) : Locks ι ν σ :=
  if (s.th i).resume then { s with workQueue := s.workQueue ++ [(i, reason)] } else s

/-- Where `suspend` captures its context. -/
def here (t : Thread) : Context := ⟨t.stack.getD 0, .worker, t.activeCall⟩

/-- The done-working section of `doWork` for `i`. -/
def doneWorking (s : Locks ι ν σ) (i : ι) (t : Thread) : Locks ι ν σ :=
  match t.doneWorking with
  | .error f => s.crash (.thread f)
  | .ok (t, scheduled) =>
    let s := s.setThread i t
    if scheduled then { s with workQueue := s.workQueue ++ [(i, .outside)] } else s

/-- A turn of the loop of `dtape_mutex_lock`, with the queue locked. -/
def look (s : Locks ι ν σ) (m : σ) : Party ι ν → Locks ι ν σ
  | .native v =>
    if s.owner m = none then (s.setHolds (.native v) m true).setPc (.native v) .outside
    else (s.setLock (.mutex m) none).setPc (.native v) (.locking m false)
  | .microthread i =>
    if s.owner m = none ∨ s.owner m = some i then
      (((s.setOwner m (some i)).setHolds (.microthread i) m true).setLock (.mutex m) none).setPc
        (.microthread i) .outside
    else
      { s with links := s.links.insertTail (.mutex m) i }.setPc (.microthread i) (.suspending (.mutex m))

/-- The steps of `suspend`, and of `doWork` until it is left. -/
def suspendStep (s : Locks ι ν σ) (i : ι) : Pc ι σ → Option (Locks ι ν σ)
  | .suspending w =>
    some ((s.setThread i ((s.th i).suspendBegin (here (s.th i)))).setPc (.microthread i) (.committing w))
  | .committing w =>
    match (s.th i).suspendCommit none with
    | (t, true) => some ((s.setThread i t).setPc (.microthread i) (.leaving w))
    | (t, false) => some ((s.setThread i t).setPc (.microthread i) w.resumed)
  | .leaving w =>
    match (s.th i).returnToTop with
    | .error f => some (s.crash (.thread f))
    | .ok (t, _) =>
      some (((s.doneWorking i t).setLock w.queue (some (.worker i))).setPc (.microthread i) (.waiting w))
  | _ => none

/-- `dtape_mutex_unlock` from where it has locked the queue. -/
def release (s : Locks ι ν σ) (p : Party ι ν) (m : σ) (after : Option σ) : Locks ι ν σ :=
  let s := (s.setOwner m none).setHolds p m false
  match s.links.pointer (.first (.mutex m)) with
  | none => s.setPc p (.dropping m after)
  | some link => { s with links := s.links.remove (.mutex m) link }.setPc p (.waking m link after)

/-- Where a caller of `dtape_mutex_unlock` goes on. -/
def afterUnlock (m : σ) : Option σ → Pc ι σ
  | none => .outside
  | some c => .inserting c m

/-- A turn of the loop of `dtape_condvar_signal`. -/
def signalTurn (s : Locks ι ν σ) (p : Party ι ν) (c : σ) : Nat → Locks ι ν σ
  | 0 => (s.setLock (.condvar c) none).setPc p .outside
  | count + 1 =>
    match s.links.pointer (.first (.condvar c)) with
    | none => (s.setLock (.condvar c) none).setPc p .outside
    | some link => { s with links := s.links.remove (.condvar c) link }.setPc p (.signalWaking c count link)

/-- The steps of the four functions. -/
def go (s : Locks ι ν σ) (p : Party ι ν) : Option (Locks ι ν σ) :=
  match s.pc p with
  | .outside | .waiting _ => none
  | .locking m retry => (s.takeLock p (.mutex m)).map (·.setPc p (.looking m retry))
  | .looking m _ => some (s.look m p)
  | .suspending _ | .committing _ | .leaving _ =>
    match p with
    | .native _ => none
    | .microthread i => s.suspendStep i (s.pc p)
  | .waitLocking c m => (s.takeLock p (.condvar c)).map (·.setPc p (.unlocking m (some c)))
  | .unlocking m after =>
    match p with
    -- a native caller just unlocks the queue
    | .native _ => some (((s.setLock (.mutex m) none).setHolds p m false).setPc p (afterUnlock m after))
    | .microthread i =>
      if s.owner m ≠ some i then some (s.crash .expectedOwned)
      else (s.takeLock p (.mutex m)).map (·.setPc p (.releasing m after))
  | .releasing m after => some (s.release p m after)
  | .waking m link after => some ((s.resume link .dequeued).setPc p (.dropping m after))
  | .dropping m after => some ((s.setLock (.mutex m) none).setPc p (afterUnlock m after))
  | .inserting c m =>
    match p with
    | .native _ => some (s.crash .nullThread)
    | .microthread i =>
      some ({ s with links := s.links.insertTail (.condvar c) i }.setPc p (.suspending (.condvar c m)))
  | .signalLocking c count => (s.takeLock p (.condvar c)).map (·.setPc p (.signalling c count))
  | .signalling c count => some (s.signalTurn p c count)
  | .signalWaking c count link => some ((s.resume link .dequeued).setPc p (.signalling c count))

/-- A call of one of the four functions. -/
def call (s : Locks ι ν σ) (p : Party ι ν) (x : Pc ι σ) : Option (Locks ι ν σ) :=
  if s.pc p = .outside then some (s.setPc p x) else none

/-- The assertion at the top of `dtape_mutex_lock`. -/
def callLock (s : Locks ι ν σ) (p : Party ι ν) (m : σ) : Option (Locks ι ν σ) :=
  match p with
  | .native _ => s.call p (.locking m false)
  | .microthread i =>
    if s.pc p = .outside ∧ s.owner m = some i then some (s.crash .expectedNotOwned)
    else s.call p (.locking m false)

/-- `doWork` with a pending `interrupt_enter`, up to where the handler jumps back into the wait. -/
def restart (t : Thread) : Option Thread := do
  let (t, _) ← (t.switchStack 0 .startCall).toOption
  let (t, c) ← t.makePendingCallActive.toOption
  if c.number = .interruptEnter then
    let (t, r) ← (t.interruptEnterBegin ⟨0, .worker, some c⟩).toOption
    if r = .jumpToResume then some t else none
  else none

/-- `doWork` on a microthread that sleeps in `w`. -/
def doWork (s : Locks ι ν σ) (i : ι) (w : Wait σ) : Option (Locks ι ν σ) :=
  match (s.th i).doWorkEntry with
  | (t, .deferred) | (t, .alreadyRunning) => some (s.setThread i t)
  | (t, .doneWorking) => some (s.doneWorking i t)
  | (t, .entered) =>
    match t.doWorkDispatch with
    | .error f => some (s.crash (.thread f))
    | .ok (t, .resumeContext) =>
      match t.switchStack 0 .resumeContext with
      | .error f => some (s.crash (.thread f))
      | .ok (t, _) => some ((s.setThread i t).setPc (.microthread i) w.resumed)
    | .ok (t, .startCall) => (restart t).map fun t => (s.setThread i t).setPc (.microthread i) w.resumed
    | .ok (t, .doneWorking) => some (s.doneWorking i t)
    -- the waits here leave no continuation
    | .ok (_, .resumeContinuation) => none

/-- `doWork`, wherever the microthread is. -/
def runEntry (s : Locks ι ν σ) (i : ι) : Option (Locks ι ν σ) :=
  match s.pc (.microthread i) with
  | .waiting w => s.doWork i w
  | _ =>
    match (s.th i).doWorkEntry with
    | (t, .deferred) | (t, .alreadyRunning) => some (s.setThread i t)
    | _ => none

/-- The entry that a worker has taken is gone. -/
def popped (s : Locks ι ν σ) (i : ι) (reason : Wakeup) : Locks ι ν σ :=
  { s with workQueue := s.workQueue.erase (i, reason) }

def step (s : Locks ι ν σ) (l : LockLabel ι ν σ) : Option (Locks ι ν σ) :=
  if s.fault.isSome then none
  else
    match l with
    | .lock p m => s.callLock p m
    | .unlock p m => s.call p (.unlocking m none)
    | .condvarWait p c m => s.call p (.waitLocking c m)
    | .condvarSignal p c count => s.call p (.signalLocking c count)
    | .go p => s.go p
    | .handOver q =>
      match s.queueLock q with
      | some (.worker _) => some (s.setLock q none)
      | _ => none
    | .doWork i reason => if (i, reason) ∈ s.workQueue then (s.popped i reason).runEntry i else none
    | .elsewhere i t =>
      if s.pc (.microthread i) = .outside ∧ t.running = true ∧ t.suspended = false then some (s.setThread i t)
      else none
    | .notifyDead i =>
      if (s.th i).dead then some s
      else
        let s' := s.setThread i (s.th i).notifyDead
        if (s.th i).activeCall.isNone then some s' else some (s'.resume i .outside)
    | .threadRelease i => some (s.resume i .outside)
    | .interruptEnter i c =>
      if c.number = .interruptEnter then
        match (s.th i).setPendingCall c with
        | .error f => some (s.crash (.thread f))
        | .ok t =>
          let s := s.setThread i t
          some { s with workQueue := s.workQueue ++ [(i, .outside)] }
      else none

/-! ## What a step does -/

/-- The ways a party goes on. -/
inductive Goes (s : Locks ι ν σ) : Party ι ν → Locks ι ν σ → Prop
  | leaveFails {i w} (f : Fault) : s.pc (.microthread i) = .leaving w → (s.th i).returnToTop = .error f →
      Goes s (.microthread i) (s.crash (.thread f))
  | notOwned {i m after} : s.pc (.microthread i) = .unlocking m after → s.owner m ≠ some i →
      Goes s (.microthread i) (s.crash .expectedOwned)
  | nativeInsert {v c m} : s.pc (.native v) = .inserting c m → Goes s (.native v) (s.crash .nullThread)
  | lockQueue {p m retry} : s.pc p = .locking m retry → s.queueLock (.mutex m) = none →
      Goes s p ((s.setLock (.mutex m) (some (.party p))).setPc p (.looking m retry))
  | nativeTake {v m retry} : s.pc (.native v) = .looking m retry → s.owner m = none →
      Goes s (.native v) ((s.setHolds (.native v) m true).setPc (.native v) .outside)
  | nativeSpin {v m retry} : s.pc (.native v) = .looking m retry → s.owner m ≠ none →
      Goes s (.native v) ((s.setLock (.mutex m) none).setPc (.native v) (.locking m false))
  | take {i m retry} : s.pc (.microthread i) = .looking m retry → s.owner m = none ∨ s.owner m = some i →
      Goes s (.microthread i) ((((s.setOwner m (some i)).setHolds (.microthread i) m true).setLock (.mutex m) none
        ).setPc (.microthread i) .outside)
  | enqueue {i m retry} : s.pc (.microthread i) = .looking m retry → s.owner m ≠ none → s.owner m ≠ some i →
      Goes s (.microthread i)
        ({ s with links := s.links.insertTail (.mutex m) i }.setPc (.microthread i) (.suspending (.mutex m)))
  | suspendBegin {i w} : s.pc (.microthread i) = .suspending w →
      Goes s (.microthread i)
        ((s.setThread i ((s.th i).suspendBegin (here (s.th i)))).setPc (.microthread i) (.committing w))
  | suspendCommit {i w} : s.pc (.microthread i) = .committing w → (s.th i).suspended = true →
      Goes s (.microthread i) ((s.setThread i (s.th i)).setPc (.microthread i) (.leaving w))
  | notSuspended {i w} : s.pc (.microthread i) = .committing w → (s.th i).suspended = false →
      Goes s (.microthread i) ((s.setThread i (s.th i)).setPc (.microthread i) w.resumed)
  | leave {i w} (t : Thread) (freed : Option Stack) : s.pc (.microthread i) = .leaving w →
      (s.th i).returnToTop = .ok (t, freed) →
      Goes s (.microthread i)
        (((s.doneWorking i t).setLock w.queue (some (.worker i))).setPc (.microthread i) (.waiting w))
  | waitLock {p c m} : s.pc p = .waitLocking c m → s.queueLock (.condvar c) = none →
      Goes s p ((s.setLock (.condvar c) (some (.party p))).setPc p (.unlocking m (some c)))
  | nativeUnlock {v m after} : s.pc (.native v) = .unlocking m after →
      Goes s (.native v)
        (((s.setLock (.mutex m) none).setHolds (.native v) m false).setPc (.native v) (afterUnlock m after))
  | unlockQueue {i m after} : s.pc (.microthread i) = .unlocking m after → s.owner m = some i →
      s.queueLock (.mutex m) = none →
      Goes s (.microthread i)
        ((s.setLock (.mutex m) (some (.party (.microthread i)))).setPc (.microthread i) (.releasing m after))
  | releaseEmpty {p m after} : s.pc p = .releasing m after → s.links.pointer (.first (.mutex m)) = none →
      Goes s p (((s.setOwner m none).setHolds p m false).setPc p (.dropping m after))
  | releaseWake {p m after} (link : ι) : s.pc p = .releasing m after →
      s.links.pointer (.first (.mutex m)) = some link →
      Goes s p ({ ((s.setOwner m none).setHolds p m false) with links := s.links.remove (.mutex m) link }.setPc p
        (.waking m link after))
  | wake {p m link after} : s.pc p = .waking m link after →
      Goes s p ((s.resume link .dequeued).setPc p (.dropping m after))
  | drop {p m after} : s.pc p = .dropping m after →
      Goes s p ((s.setLock (.mutex m) none).setPc p (afterUnlock m after))
  | insert {i c m} : s.pc (.microthread i) = .inserting c m →
      Goes s (.microthread i)
        ({ s with links := s.links.insertTail (.condvar c) i }.setPc (.microthread i) (.suspending (.condvar c m)))
  | signalLock {p c count} : s.pc p = .signalLocking c count → s.queueLock (.condvar c) = none →
      Goes s p ((s.setLock (.condvar c) (some (.party p))).setPc p (.signalling c count))
  | signalDone {p c count} : s.pc p = .signalling c count →
      count = 0 ∨ s.links.pointer (.first (.condvar c)) = none →
      Goes s p ((s.setLock (.condvar c) none).setPc p .outside)
  | signalDequeue {p c count} (link : ι) : s.pc p = .signalling c (count + 1) →
      s.links.pointer (.first (.condvar c)) = some link →
      Goes s p ({ s with links := s.links.remove (.condvar c) link }.setPc p (.signalWaking c count link))
  | signalWake {p c count link} : s.pc p = .signalWaking c count link →
      Goes s p ((s.resume link .dequeued).setPc p (.signalling c count))

theorem takeLock_some {s s' : Locks ι ν σ} {p : Party ι ν} {q : WaitQueue σ} {x : Pc ι σ}
    (h : (s.takeLock p q).map (·.setPc p x) = some s') :
    s.queueLock q = none ∧ s' = (s.setLock q (some (.party p))).setPc p x := by
  obtain ⟨s₁, h₁, rfl⟩ := Option.map_eq_some_iff.1 h
  obtain ⟨hq, hs⟩ := Option.ite_none_right_eq_some.1 h₁
  cases hs
  exact ⟨hq, rfl⟩

theorem look_goes {s : Locks ι ν σ} {p : Party ι ν} {m : σ} {retry : Bool} (hp : s.pc p = .looking m retry) :
    Goes s p (s.look m p) := by
  cases p with
  | native v =>
    simp only [look]
    split
    · exact .nativeTake hp ‹_›
    · exact .nativeSpin hp ‹_›
  | microthread i =>
    simp only [look]
    split
    · exact .take hp ‹_›
    · rename_i h
      rw [not_or] at h
      exact .enqueue hp h.1 h.2

theorem suspendStep_goes {s s' : Locks ι ν σ} {i : ι} (h : s.suspendStep i (s.pc (.microthread i)) = some s') :
    Goes s (.microthread i) s' := by
  cases hp : s.pc (.microthread i) with
  | suspending w => rw [hp] at h; cases h; exact .suspendBegin hp
  | committing w =>
    rw [hp] at h
    simp only [suspendStep, Thread.suspendCommit] at h
    cases hs : (s.th i).suspended with
    | true => simp only [hs, if_true] at h; cases h; exact .suspendCommit hp hs
    | false => simp only [hs] at h; cases h; exact .notSuspended hp hs
  | leaving w =>
    rw [hp] at h
    simp only [suspendStep] at h
    split at h
    · cases h; exact .leaveFails _ hp ‹_›
    · cases h; exact .leave _ _ hp ‹_›
  | _ => rw [hp] at h; cases h

theorem release_goes {s : Locks ι ν σ} {p : Party ι ν} {m : σ} {after : Option σ} (hp : s.pc p = .releasing m after) :
    Goes s p (s.release p m after) := by
  simp only [release]
  split
  · exact .releaseEmpty hp ‹_›
  · exact .releaseWake _ hp ‹_›

theorem signalTurn_goes {s : Locks ι ν σ} {p : Party ι ν} {c : σ} {count : Nat} (hp : s.pc p = .signalling c count) :
    Goes s p (s.signalTurn p c count) := by
  cases count with
  | zero => exact .signalDone hp (.inl rfl)
  | succ count =>
    simp only [signalTurn]
    split
    · exact .signalDone hp (.inr ‹_›)
    · exact .signalDequeue _ hp ‹_›

theorem go_goes {s s' : Locks ι ν σ} {p : Party ι ν} (h : s.go p = some s') : Goes s p s' := by
  unfold go at h
  split at h
  case h_1 | h_2 => cases h
  case h_3 hp => obtain ⟨hq, rfl⟩ := takeLock_some h; exact .lockQueue hp hq
  case h_4 hp => cases h; exact look_goes hp
  case h_5 | h_6 | h_7 =>
    cases p with
    | native v => cases h
    | microthread i => exact suspendStep_goes h
  case h_8 hp => obtain ⟨hq, rfl⟩ := takeLock_some h; exact .waitLock hp hq
  case h_9 hp =>
    cases p with
    | native v => cases h; exact .nativeUnlock hp
    | microthread i =>
      simp only at h
      split at h
      · cases h; exact .notOwned hp ‹_›
      · rename_i ho
        obtain ⟨hq, rfl⟩ := takeLock_some h
        exact .unlockQueue hp (not_not.1 ho) hq
  case h_10 hp => cases h; exact release_goes hp
  case h_11 hp => cases h; exact .wake hp
  case h_12 hp => cases h; exact .drop hp
  case h_13 hp =>
    cases p with
    | native v => cases h; exact .nativeInsert hp
    | microthread i => cases h; exact .insert hp
  case h_14 hp => obtain ⟨hq, rfl⟩ := takeLock_some h; exact .signalLock hp hq
  case h_15 hp => cases h; exact signalTurn_goes hp
  case h_16 hp => cases h; exact .signalWake hp

/-- `resume` changes the work queue only. -/
theorem resume_eq (s : Locks ι ν σ) (i : ι) (r : Wakeup) :
    ∃ workQueue, s.resume i r = { s with workQueue } ∧
      workQueue = if (s.th i).suspended then s.workQueue ++ [(i, r)] else s.workQueue := by
  unfold resume Thread.resume
  split
  · exact ⟨_, rfl, rfl⟩
  · exact ⟨_, rfl, rfl⟩

/-- `doneWorking` changes the thread, the work queue or the fault. -/
theorem doneWorking_eq (s : Locks ι ν σ) (i : ι) (t : Thread) :
    ∃ th workQueue fault, s.doneWorking i t = { s with th, workQueue, fault } ∧ ∀ j, j ≠ i → th j = s.th j := by
  unfold doneWorking
  split
  · exact ⟨_, _, _, rfl, fun _ _ => rfl⟩
  · have hth : ∀ t j, j ≠ i → (s.setThread i t).th j = s.th j := fun t j hj => Function.update_of_ne hj _ _
    simp only
    split
    · exact ⟨_, _, _, rfl, hth _⟩
    · exact ⟨_, _, _, rfl, hth _⟩

/-- A party that goes on moves nobody else. -/
theorem Goes.pc_other {s s' : Locks ι ν σ} {p p' : Party ι ν} (h : Goes s p s') (hp : p' ≠ p) :
    s'.pc p' = s.pc p' := by
  cases h with
  | leaveFails | notOwned | nativeInsert => rfl
  | leave t =>
    obtain ⟨_, _, _, hd, -⟩ := doneWorking_eq s _ t
    rw [hd]
    exact Function.update_of_ne hp _ _
  | wake | signalWake =>
    obtain ⟨_, hr, -⟩ := resume_eq s _ .dequeued
    rw [hr]
    exact Function.update_of_ne hp _ _
  | _ => exact Function.update_of_ne hp _ _

theorem Goes.not_waiting {s s' : Locks ι ν σ} {p : Party ι ν} (h : Goes s p s') (w : Wait σ) : s.pc p ≠ .waiting w := by
  cases h with
  | leaveFails _ hp | notOwned hp | nativeInsert hp | lockQueue hp | nativeTake hp | nativeSpin hp | take hp
  | enqueue hp | suspendBegin hp | suspendCommit hp | notSuspended hp | leave _ _ hp | waitLock hp
  | nativeUnlock hp | unlockQueue hp | releaseEmpty hp
  | releaseWake _ hp | wake hp | drop hp | insert hp | signalLock hp | signalDone hp | signalDequeue _ hp
  | signalWake hp => rw [hp]; nofun

inductive Moves (s : Locks ι ν σ) : LockLabel ι ν σ → Locks ι ν σ → Prop
  | stillOwned {i m} : s.owner m = some i → Moves s (.lock (.microthread i) m) (s.crash .expectedNotOwned)
  | crashAtWork {i reason} (f : LockFault) : (i, reason) ∈ s.workQueue →
      Moves s (.doWork i reason) ((s.popped i reason).crash f)
  | lock {p m} : s.pc p = .outside → (∀ i, p = .microthread i → s.owner m ≠ some i) →
      Moves s (.lock p m) (s.setPc p (.locking m false))
  | unlock {p m} : s.pc p = .outside → Moves s (.unlock p m) (s.setPc p (.unlocking m none))
  | condvarWait {p c m} : s.pc p = .outside → Moves s (.condvarWait p c m) (s.setPc p (.waitLocking c m))
  | condvarSignal {p c count} : s.pc p = .outside →
      Moves s (.condvarSignal p c count) (s.setPc p (.signalLocking c count))
  | go {p} (s' : Locks ι ν σ) : Goes s p s' → Moves s (.go p) s'
  | handOver {q} (i : ι) : s.queueLock q = some (.worker i) → Moves s (.handOver q) (s.setLock q none)
  | ignored {i reason} (t : Thread) : (i, reason) ∈ s.workQueue → t.suspended = (s.th i).suspended →
      Moves s (.doWork i reason) ((s.popped i reason).setThread i t)
  | ended {i reason w} (t : Thread) : (i, reason) ∈ s.workQueue → s.pc (.microthread i) = .waiting w →
      Moves s (.doWork i reason) ((s.popped i reason).doneWorking i t)
  | resumed {i reason w} (t : Thread) : (i, reason) ∈ s.workQueue → s.pc (.microthread i) = .waiting w →
      Moves s (.doWork i reason) (((s.popped i reason).setThread i t).setPc (.microthread i) w.resumed)
  | elsewhere {i t} : s.pc (.microthread i) = .outside → t.running = true → t.suspended = false →
      Moves s (.elsewhere i t) (s.setThread i t)
  | stillDead {i} : Moves s (.notifyDead i) s
  | deadIdle {i} : (s.th i).activeCall = none → Moves s (.notifyDead i) (s.setThread i (s.th i).notifyDead)
  | deadBusy {i} : (s.th i).activeCall ≠ none →
      Moves s (.notifyDead i) ((s.setThread i (s.th i).notifyDead).resume i .outside)
  | threadRelease {i} : Moves s (.threadRelease i) (s.resume i .outside)
  | interruptFails {i c} (f : Fault) : Moves s (.interruptEnter i c) (s.crash (.thread f))
  | interruptEnter {i c} (t : Thread) : (s.th i).setPendingCall c = .ok t →
      Moves s (.interruptEnter i c)
        { (s.setThread i t) with workQueue := s.workQueue ++ [(i, .outside)] }

theorem call_some {s s' : Locks ι ν σ} {p : Party ι ν} {x : Pc ι σ} (h : s.call p x = some s') :
    s.pc p = .outside ∧ s' = s.setPc p x := by
  obtain ⟨hp, hs⟩ := Option.ite_none_right_eq_some.1 h
  cases hs
  exact ⟨hp, rfl⟩

theorem callLock_moves {s s' : Locks ι ν σ} {p : Party ι ν} {m : σ} (h : s.callLock p m = some s') :
    Moves s (.lock p m) s' := by
  cases p with
  | native v =>
    obtain ⟨hp, rfl⟩ := call_some h
    exact .lock hp nofun
  | microthread i =>
    simp only [callLock] at h
    split at h
    · rename_i ho
      cases h; exact .stillOwned ho.2
    · rename_i hn
      obtain ⟨hp, rfl⟩ := call_some h
      refine .lock hp ?_
      rintro _ ⟨⟩ ho
      exact hn ⟨hp, ho⟩

omit [DecidableEq ι] [DecidableEq ν] [DecidableEq σ] in
theorem doWorkEntry_suspended {t t' : Thread} {e : Entry} (h : t.doWorkEntry = (t', e)) :
    t'.suspended = t.suspended := by
  unfold Thread.doWorkEntry at h
  repeat' split at h
  all_goals cases h; rfl

theorem doWork_moves {s s' : Locks ι ν σ} {i : ι} {reason : Wakeup} {w : Wait σ} (he : (i, reason) ∈ s.workQueue)
    (hp : s.pc (.microthread i) = .waiting w) (h : (s.popped i reason).doWork i w = some s') :
    Moves s (.doWork i reason) s' := by
  unfold doWork at h
  split at h
  case h_1 heq | h_2 heq => cases h; exact .ignored _ he (doWorkEntry_suspended heq)
  case h_3 => cases h; exact .ended _ he hp
  case h_4 =>
    split at h
    case h_1 => cases h; exact .crashAtWork _ he
    case h_2 =>
      split at h
      · cases h; exact .crashAtWork _ he
      · cases h; exact .resumed _ he hp
    case h_3 =>
      obtain ⟨t, -, rfl⟩ := Option.map_eq_some_iff.1 h
      exact .resumed t he hp
    case h_4 => cases h; exact .ended _ he hp
    case h_5 => cases h

theorem step_moves {s s' : Locks ι ν σ} {l : LockLabel ι ν σ} (h : s.step l = some s') :
    s.fault = none ∧ Moves s l s' := by
  unfold step at h
  split at h
  · cases h
  refine ⟨Option.not_isSome_iff_eq_none.1 ‹_›, ?_⟩
  cases l with
  | lock p m => exact callLock_moves h
  | unlock p m => obtain ⟨hp, rfl⟩ := call_some h; exact .unlock hp
  | condvarWait p c m => obtain ⟨hp, rfl⟩ := call_some h; exact .condvarWait hp
  | condvarSignal p c count => obtain ⟨hp, rfl⟩ := call_some h; exact .condvarSignal hp
  | go p => exact .go s' (go_goes h)
  | handOver q =>
    simp only at h
    split at h
    · cases h; exact .handOver _ ‹_›
    · cases h
  | doWork i reason =>
    obtain ⟨he, h⟩ := Option.ite_none_right_eq_some.1 h
    unfold runEntry at h
    split at h
    · rename_i w hp
      exact doWork_moves he hp h
    · split at h
      case h_1 heq | h_2 heq => cases h; exact .ignored _ he (doWorkEntry_suspended heq)
      case h_3 => cases h
  | elsewhere i t =>
    obtain ⟨⟨hp, hr, hs⟩, h⟩ := Option.ite_none_right_eq_some.1 h
    cases h; exact .elsewhere hp hr hs
  | notifyDead i =>
    simp only at h
    split at h
    · cases h; exact .stillDead
    · split at h
      · cases h; exact .deadIdle (Option.isNone_iff_eq_none.1 ‹_›)
      · cases h; exact .deadBusy fun hn => absurd (Option.isNone_iff_eq_none.2 hn) ‹_›
  | threadRelease i => cases h; exact .threadRelease
  | interruptEnter i c =>
    obtain ⟨-, h⟩ := Option.ite_none_right_eq_some.1 h
    split at h
    · cases h; exact .interruptFails _
    · cases h; exact .interruptEnter _ ‹_›

end Locks

end DarlingServer
