import DarlingServer.Locks
/-!
# Trying to lock a mutex

`dtape_mutex_lock`, `dtape_mutex_try_lock` and `dtape_mutex_unlock` on one mutex, at the
grain of single reads and writes of `dtape_owner` and single operations on the queue lock.

A microthread that locks the mutex looks at the owner with the queue locked. One that
tries to lock it looks without, and if it finds the mutex free it still unlocks the queue
at the end, as the function it was copied from does. Such a try always unlocks a lock
that it has not taken, and two of them can both find the mutex free.

Where no try of a microthread finds the mutex free, the mutex has one holder and the
queue lock is unlocked by whoever locked it (`Sound`). What a try tells about itself holds
in every run (`Told`).
-/

set_option linter.unusedSectionVars false

namespace DarlingServer.TryLock

open Runs

/-! ## The three functions -/

/-- The two functions that acquire the mutex. -/
inductive Kind where
  | lock
  | tryLock
  deriving DecidableEq

/-- What a party is about to do. -/
inductive Pc where
  | outside
  /-- The assertion that a microthread does not own the mutex. -/
  | assert (k : Kind)
  /-- `libsimple_lock_lock` of a microthread that locks the mutex. -/
  | take
  /-- The read of the owner that compares it with null. -/
  | read (k : Kind)
  /-- The read of the owner that compares it with the thread itself. -/
  | readAgain (k : Kind)
  | write (k : Kind)
  /-- `libsimple_lock_unlock` after the write. -/
  | drop (k : Kind)
  | insert
  | suspend
  /-- Off its worker. -/
  | wait
  /-- `libsimple_lock_lock` of a native caller that locks the mutex. -/
  | spin
  /-- `libsimple_lock_try_lock`. -/
  | probe
  /-- The read of the owner by a native caller that has locked the queue. -/
  | peek (k : Kind)
  /-- A native caller unlocks the queue again. -/
  | back (k : Kind)
  /-- The assertion that a microthread owns the mutex it unlocks. -/
  | assertOwned
  | takeToUnlock
  /-- The write of null to the owner. -/
  | clear
  /-- `TAILQ_FIRST`, and the first waiter dequeued and resumed. -/
  | first
  | dropToUnlock
  /-- `libsimple_lock_unlock` of a native caller that unlocks the mutex. -/
  | unlockNative
  deriving DecidableEq

/-- What a party does to the mutex and to the queue lock. -/
inductive Op where
  | acquire
  | release
  | write
  deriving DecidableEq

/-- What a call of `dtape_mutex_try_lock` has returned, what it has done since it was
called and whether the queue lock is its own as it returns. -/
structure Answer (ι ν : Type*) where
  party : Party ι ν
  result : Bool
  ops : List Op
  keepsQueueLock : Bool

/-- Who has locked the mutex and its queue. -/
structure Core (ι ν : Type*) where
  pc : Party ι ν → Pc := fun _ => .outside
  /-- `dtape_owner`. -/
  owner : Option ι := none
  /-- `dtape_queue_lock`. -/
  queueLock : Option (QueueHolder ι ν) := none
  /-- The worker that has put the microthread to sleep is to unlock the queue. -/
  handing : ι → Bool := fun _ => false
  /-- The party has locked the mutex and not unlocked it since. -/
  holds : Party ι ν → Bool := fun _ => false
  /-- Who has unlocked the queue, and who had locked it then. -/
  released : List (QueueHolder ι ν × Option (QueueHolder ι ν)) := []

structure State (ι ν : Type*) extends Core ι ν where
  /-- `dtape_queue_head`. -/
  queue : List ι := []
  resumed : ι → Bool := fun _ => false
  /-- What each party has done since it last called `dtape_mutex_try_lock`. -/
  ops : Party ι ν → List Op := fun _ => []
  answers : List (Answer ι ν) := []
  panicked : Option LockFault := none

inductive Label (ι ν : Type*) where
  | lock (p : Party ι ν)
  | tryLock (p : Party ι ν)
  | unlock (p : Party ι ν)
  /-- The party goes on in the function it is in. -/
  | go (p : Party ι ν)
  /-- The worker unlocks the queue for the microthread it has put to sleep. -/
  | handOver (i : ι)
  /-- Something else resumes the microthread. -/
  | resume (i : ι)
  /-- A microthread that was resumed runs again. -/
  | wake (i : ι)

variable {ι ν : Type*} [DecidableEq ι] [DecidableEq ν]

namespace Core

def goto (c : Core ι ν) (p : Party ι ν) (x : Pc) : Core ι ν := { c with pc := Function.update c.pc p x }

def acquire (c : Core ι ν) (p : Party ι ν) : Core ι ν := { c with queueLock := some (.party p) }

/-- `libsimple_lock_unlock` frees the lock, whoever calls it. -/
def release (c : Core ι ν) (h : QueueHolder ι ν) : Core ι ν :=
  { c with queueLock := none, released := c.released ++ [(h, c.queueLock)] }

def setHolds (c : Core ι ν) (p : Party ι ν) (b : Bool) : Core ι ν := { c with holds := Function.update c.holds p b }

/-- The microthread writes itself to the owner. -/
def own (c : Core ι ν) (i : ι) : Core ι ν := { c with owner := some i }.setHolds (.microthread i) true

/-- The microthread writes null to the owner. -/
def disown (c : Core ι ν) (i : ι) : Core ι ν := { c with owner := none }.setHolds (.microthread i) false

/-- `thread_suspend` takes the queue lock along: if it is the microthread's, its worker
has it from now on. -/
def sleep (c : Core ι ν) (i : ι) : Core ι ν :=
  { c with
    queueLock := if c.queueLock = some (.party (.microthread i)) then some (.worker i) else c.queueLock
    handing := Function.update c.handing i true }

def handOver (c : Core ι ν) (i : ι) : Core ι ν :=
  { c.release (.worker i) with handing := Function.update c.handing i false }

end Core

namespace State

def goto (s : State ι ν) (p : Party ι ν) (x : Pc) : State ι ν := { s with toCore := s.toCore.goto p x }

/-- The party has changed the mutex or the queue lock. -/
def did (s : State ι ν) (p : Party ι ν) (op : Op) (c : Core ι ν) : State ι ν :=
  { s with toCore := c, ops := Function.update s.ops p (s.ops p ++ [op]) }

def acquire (s : State ι ν) (p : Party ι ν) : State ι ν := s.did p .acquire (s.toCore.acquire p)

def release (s : State ι ν) (p : Party ι ν) : State ι ν := s.did p .release (s.toCore.release (.party p))

/-- The return of the function that acquires the mutex. -/
def leave (s : State ι ν) (p : Party ι ν) (k : Kind) (result : Bool) : State ι ν :=
  match k with
  | .lock => s.goto p .outside
  | .tryLock =>
    let answer : Answer ι ν := { party := p, result, ops := s.ops p, keepsQueueLock := s.queueLock = some (.party p) }
    goto { s with answers := s.answers ++ [answer] } p .outside

/-- The steps of a microthread. -/
def goMicrothread (s : State ι ν) (i : ι) : Option (State ι ν) :=
  let p : Party ι ν := .microthread i
  match s.pc p with
  | .assert k =>
    if s.owner = some i then some { s with panicked := some .expectedNotOwned }
    else
      match k with
      | .lock => some (s.goto p .take)
      | .tryLock => some (s.goto p (.read .tryLock))
  | .take => if s.queueLock = none then some ((s.acquire p).goto p (.read .lock)) else none
  | .read k => some (s.goto p (if s.owner = none then .write k else .readAgain k))
  | .readAgain k =>
    if s.owner = some i then some (s.goto p (.write k))
    else
      match k with
      | .lock => some (s.goto p .insert)
      | .tryLock => some (s.leave p .tryLock false)
  | .write k => some ((s.did p .write (s.toCore.own i)).goto p (.drop k))
  | .drop k => some ((s.release p).leave p k true)
  | .insert => some ({ s with queue := s.queue ++ [i] }.goto p .suspend)
  | .suspend => some ({ s with toCore := s.toCore.sleep i }.goto p .wait)
  | .assertOwned =>
    if s.owner = some i then some (s.goto p .takeToUnlock) else some { s with panicked := some .expectedOwned }
  | .takeToUnlock => if s.queueLock = none then some ((s.acquire p).goto p .clear) else none
  | .clear => some ((s.did p .write (s.toCore.disown i)).goto p .first)
  | .first =>
    match s.queue with
    | [] => some (s.goto p .dropToUnlock)
    | link :: queue =>
      some ({ s with queue, resumed := Function.update s.resumed link true }.goto p .dropToUnlock)
  | .dropToUnlock => some ((s.release p).goto p .outside)
  | _ => none

/-- The steps of a native caller. -/
def goNative (s : State ι ν) (v : ν) : Option (State ι ν) :=
  let p : Party ι ν := .native v
  match s.pc p with
  | .spin => if s.queueLock = none then some ((s.acquire p).goto p (.peek .lock)) else none
  | .probe =>
    if s.queueLock = none then some ((s.acquire p).goto p (.peek .tryLock)) else some (s.leave p .tryLock false)
  | .peek k =>
    if s.owner = none then some ({ s with toCore := s.toCore.setHolds p true }.leave p k true)
    else some (s.goto p (.back k))
  | .back .lock => some ((s.release p).goto p .spin)
  | .back .tryLock => some ((s.release p).leave p .tryLock false)
  | .unlockNative => some ((s.did p .release ((s.toCore.release (.party p)).setHolds p false)).goto p .outside)
  | _ => none

/-- Where a function starts. -/
def callLock : Party ι ν → Pc
  | .microthread _ => .assert .lock
  | .native _ => .spin

def callTryLock : Party ι ν → Pc
  | .microthread _ => .assert .tryLock
  | .native _ => .probe

def callUnlock : Party ι ν → Pc
  | .microthread _ => .assertOwned
  | .native _ => .unlockNative

def step (s : State ι ν) (l : Label ι ν) : Option (State ι ν) :=
  if s.panicked.isSome then none
  else
    match l with
    | .lock p => if s.pc p = .outside then some (s.goto p (callLock p)) else none
    | .tryLock p =>
      if s.pc p = .outside then some ({ s with ops := Function.update s.ops p [] }.goto p (callTryLock p)) else none
    | .unlock p => if s.pc p = .outside then some (s.goto p (callUnlock p)) else none
    | .go (.microthread i) => s.goMicrothread i
    | .go (.native v) => s.goNative v
    | .handOver i => if s.handing i then some { s with toCore := s.toCore.handOver i } else none
    | .resume i => some { s with resumed := Function.update s.resumed i true }
    | .wake i =>
      if s.pc (.microthread i) = .wait ∧ s.resumed i = true then
        some ({ s with resumed := Function.update s.resumed i false }.goto (.microthread i) .take)
      else none

/-- At the start nobody is in the functions and the mutex is free. -/
def Init (s : State ι ν) : Prop := s = {}

/-- A native caller unlocks only what it has locked, and no try of a microthread finds the
mutex free. -/
def Careful (s : State ι ν) : Label ι ν → Prop
  | .unlock (.native v) => s.holds (.native v) = true
  | .go (.microthread i) => s.pc (.microthread i) = .read .tryLock → s.owner ≠ none
  | _ => True

instance (s : State ι ν) : (l : Label ι ν) → Decidable (s.Careful l)
  | .unlock (.native v) => inferInstanceAs (Decidable (s.holds (.native v) = true))
  | .go (.microthread i) => inferInstanceAs (Decidable (s.pc (.microthread i) = .read .tryLock → s.owner ≠ none))
  | .unlock (.microthread _) | .go (.native _) | .lock _ | .tryLock _ | .handOver _ | .resume _ | .wake _ =>
    inferInstanceAs (Decidable True)

end State

/-! ## What a place tells -/

/-- The queue is locked here, by the party itself. -/
def Pc.locked : Pc → Bool
  | .read .lock | .readAgain .lock | .write .lock | .drop .lock | .insert | .suspend | .peek _ | .back _
  | .clear | .first | .dropToUnlock => true
  | _ => false

/-- A microthread here has seen that it does not own the mutex. -/
def Pc.seeks : Pc → Bool
  | .take | .read _ | .readAgain _ | .write _ | .insert | .suspend | .wait => true
  | _ => false

/-- A microthread here has seen that it owns the mutex. -/
def Pc.owns : Pc → Bool
  | .takeToUnlock | .clear => true
  | _ => false

namespace Core

/-- What holds when a party is at `x`. -/
def Enters (c : Core ι ν) : Party ι ν → Pc → Prop
  | .microthread i, x =>
    (x.seeks = true → c.owner ≠ some i) ∧ (x.owns = true → c.owner = some i) ∧
      (x = .write .lock → c.owner = none) ∧ x ≠ .write .tryLock ∧ x ≠ .drop .tryLock
  | .native v, x =>
    (x.locked = true → c.holds (.native v) = false) ∧ (x = .unlockNative → c.holds (.native v) = true)

/-- The party has locked the queue: on the way, or as a native caller that holds the mutex. -/
def keeps (c : Core ι ν) (p : Party ι ν) : Bool :=
  (c.pc p).locked ||
    match p with
    | .native _ => c.holds p
    | .microthread _ => false

structure Sound (c : Core ι ν) : Prop where
  party : ∀ p, c.queueLock = some (.party p) ↔ c.keeps p = true
  worker : ∀ i, c.queueLock = some (.worker i) ↔ c.handing i = true
  owner : ∀ i, c.owner = some i ↔ c.holds (.microthread i) = true
  native : ∀ v, c.holds (.native v) = true → c.owner = none
  places : ∀ p, c.Enters p (c.pc p)
  released : ∀ r ∈ c.released, r.2 = some r.1

/-- What a careful step does to the mutex and the queue lock. -/
inductive Moves (c : Core ι ν) : Core ι ν → Prop where
  | stay : Moves c c
  | pass {p x} (hx : x.locked = (c.pc p).locked) (hin : c.Enters p x) : Moves c (c.goto p x)
  | acquire {p x} (hfree : c.queueLock = none) (hx : x.locked = true) (hin : c.Enters p x) :
    Moves c ((c.acquire p).goto p x)
  | release {p x} (hp : (c.pc p).locked = true) (hx : x.locked = false) (hin : c.Enters p x) :
    Moves c ((c.release (.party p)).goto p x)
  | own {i} (hp : c.pc (.microthread i) = .write .lock) : Moves c ((c.own i).goto (.microthread i) (.drop .lock))
  | disown {i} (hp : c.pc (.microthread i) = .clear) : Moves c ((c.disown i).goto (.microthread i) .first)
  | sleep {i} (hp : c.pc (.microthread i) = .suspend) : Moves c ((c.sleep i).goto (.microthread i) .wait)
  | handOver {i} (hi : c.handing i = true) : Moves c (c.handOver i)
  | keep {v k} (hp : c.pc (.native v) = .peek k) (ho : c.owner = none) :
    Moves c ((c.setHolds (.native v) true).goto (.native v) .outside)
  | unlockNative {v} (hp : c.pc (.native v) = .unlockNative) :
    Moves c (((c.release (.party (.native v))).setHolds (.native v) false).goto (.native v) .outside)

end Core

namespace State

@[simp] theorem goto_toCore (s : State ι ν) (p : Party ι ν) (x : Pc) : (s.goto p x).toCore = s.toCore.goto p x := rfl

@[simp] theorem leave_toCore (s : State ι ν) (p : Party ι ν) (k : Kind) (result : Bool) :
    (s.leave p k result).toCore = s.toCore.goto p .outside := by
  cases k <;> rfl

open DarlingServer.TryLock.Core in
theorem moves_goMicrothread {s s' : State ι ν} {i : ι} (hs : s.Sound)
    (hg : s.pc (.microthread i) = .read .tryLock → s.owner ≠ none) (h : s.goMicrothread i = some s') :
    Moves s.toCore s'.toCore := by
  have hin := hs.places (.microthread i)
  cases hp : s.pc (.microthread i) with
  | assert k =>
    simp only [goMicrothread, hp] at h
    split at h
    · cases h
      exact .stay
    · rename_i hne
      cases k <;> (cases h; exact .pass (by rw [hp]; rfl) (by simp [Enters, Pc.seeks, Pc.owns, hne]))
  | take =>
    simp only [goMicrothread, hp, Option.ite_none_right_eq_some, Option.some.injEq] at h
    obtain ⟨hfree, rfl⟩ := h
    rw [hp] at hin
    exact .acquire hfree rfl (by simpa [Enters, Pc.seeks, Pc.owns] using hin.1 rfl)
  | read k =>
    simp only [goMicrothread, hp, Option.some.injEq] at h
    subst h
    rw [hp] at hin
    by_cases ho : s.owner = none
    · -- only a caller of `dtape_mutex_lock` may find the mutex free
      cases k with
      | lock => exact .pass (by simp [ho, hp, Pc.locked]) (by simp [Enters, Pc.seeks, Pc.owns, ho])
      | tryLock => exact absurd ho (hg hp)
    · simp only [if_neg ho]
      exact .pass (by cases k <;> rw [hp] <;> rfl) (by simpa [Enters, Pc.seeks, Pc.owns] using hin.1 rfl)
  | readAgain k =>
    rw [hp] at hin
    have hne : s.owner ≠ some i := hin.1 rfl
    simp only [goMicrothread, hp, if_neg hne] at h
    cases k with
    | lock =>
      cases h
      exact .pass (by rw [hp]; rfl) (by simp [Enters, Pc.seeks, Pc.owns, hne])
    | tryLock =>
      cases h
      exact .pass (by rw [hp]; rfl) (by simp [Enters, Pc.seeks, Pc.owns])
  | write k =>
    rw [hp] at hin
    cases k with
    | lock =>
      simp only [goMicrothread, hp, Option.some.injEq] at h
      subst h
      exact .own hp
    | tryLock => exact absurd rfl hin.2.2.2.1
  | drop k =>
    rw [hp] at hin
    cases k with
    | lock =>
      simp only [goMicrothread, hp, Option.some.injEq] at h
      subst h
      exact .release (by rw [hp]; rfl) rfl (by simp [Enters, Pc.seeks, Pc.owns])
    | tryLock => exact absurd rfl hin.2.2.2.2
  | insert =>
    simp only [goMicrothread, hp, Option.some.injEq] at h
    subst h
    rw [hp] at hin
    exact .pass (by rw [hp]; rfl) (by simpa [Enters, Pc.seeks, Pc.owns] using hin.1 rfl)
  | suspend =>
    simp only [goMicrothread, hp, Option.some.injEq] at h
    subst h
    exact .sleep hp
  | assertOwned =>
    simp only [goMicrothread, hp] at h
    split at h
    · rename_i howned
      cases h
      exact .pass (by rw [hp]; rfl) (by simp [Enters, Pc.seeks, Pc.owns, howned])
    · cases h
      exact .stay
  | takeToUnlock =>
    simp only [goMicrothread, hp, Option.ite_none_right_eq_some, Option.some.injEq] at h
    obtain ⟨hfree, rfl⟩ := h
    rw [hp] at hin
    exact .acquire hfree rfl (by simpa [Enters, Pc.seeks, Pc.owns] using hin.2.1 rfl)
  | clear =>
    simp only [goMicrothread, hp, Option.some.injEq] at h
    subst h
    exact .disown hp
  | first =>
    simp only [goMicrothread, hp] at h
    split at h <;> cases h <;> exact .pass (by rw [hp]; rfl) (by simp [Enters, Pc.seeks, Pc.owns])
  | dropToUnlock =>
    simp only [goMicrothread, hp, Option.some.injEq] at h
    subst h
    exact .release (by rw [hp]; rfl) rfl (by simp [Enters, Pc.seeks, Pc.owns])
  | outside | wait | spin | probe | peek | back | unlockNative =>
    simp only [goMicrothread, hp] at h
    cases h

open DarlingServer.TryLock.Core in
theorem moves_goNative {s s' : State ι ν} {v : ν} (hs : s.Sound) (h : s.goNative v = some s') :
    Moves s.toCore s'.toCore := by
  have hin := hs.places (.native v)
  -- a native caller that holds the mutex has locked the queue
  have hholds : s.queueLock = none → s.holds (.native v) = false := by
    intro hfree
    rw [Bool.eq_false_iff]
    intro hh
    have hkeeps := (hs.party (.native v)).2 (by simp [keeps, hh])
    rw [hfree] at hkeeps
    cases hkeeps
  cases hp : s.pc (.native v) with
  | spin =>
    simp only [goNative, hp, Option.ite_none_right_eq_some, Option.some.injEq] at h
    obtain ⟨hfree, rfl⟩ := h
    exact .acquire hfree rfl ⟨fun _ => hholds hfree, by simp⟩
  | probe =>
    simp only [goNative, hp] at h
    split at h
    · rename_i hfree
      cases h
      exact .acquire hfree rfl ⟨fun _ => hholds hfree, by simp⟩
    · cases h
      exact .pass (by rw [hp]; rfl) (by simp [Enters, Pc.locked])
  | peek k =>
    rw [hp] at hin
    simp only [goNative, hp] at h
    split at h
    · rename_i ho
      cases h
      rw [leave_toCore]
      exact .keep hp ho
    · cases h
      exact .pass (by rw [hp]; rfl) ⟨fun _ => hin.1 rfl, by simp⟩
  | back k =>
    cases k with
    | lock =>
      simp only [goNative, hp, Option.some.injEq] at h
      subst h
      exact .release (by rw [hp]; rfl) rfl (by simp [Enters, Pc.locked])
    | tryLock =>
      simp only [goNative, hp, Option.some.injEq] at h
      subst h
      exact .release (by rw [hp]; rfl) rfl (by simp [Enters, Pc.locked])
  | unlockNative =>
    simp only [goNative, hp, Option.some.injEq] at h
    subst h
    exact .unlockNative hp
  | outside | assert | take | read | readAgain | write | drop | insert | suspend | wait | assertOwned
  | takeToUnlock | clear | first | dropToUnlock =>
    simp only [goNative, hp] at h
    cases h

open DarlingServer.TryLock.Core in
theorem moves_step {s s' : State ι ν} {l : Label ι ν} (hs : s.Sound) (hg : s.Careful l) (h : s.step l = some s') :
    Moves s.toCore s'.toCore := by
  simp only [step, Option.ite_none_left_eq_some] at h
  obtain ⟨-, h⟩ := h
  cases l with
  | lock p | tryLock p =>
    simp only [Option.ite_none_right_eq_some, Option.some.injEq] at h
    obtain ⟨hp, rfl⟩ := h
    cases p <;> exact .pass (by rw [hp]; rfl) (by simp [Enters, callLock, callTryLock, Pc.seeks, Pc.owns, Pc.locked])
  | unlock p =>
    simp only [Option.ite_none_right_eq_some, Option.some.injEq] at h
    obtain ⟨hp, rfl⟩ := h
    cases p with
    | microthread i => exact .pass (by rw [hp]; rfl) (by simp [Enters, callUnlock, Pc.seeks, Pc.owns])
    | native v => exact .pass (by rw [hp]; rfl) ⟨by simp [callUnlock, Pc.locked], fun _ => hg⟩
  | go p =>
    cases p with
    | microthread i => exact moves_goMicrothread hs hg h
    | native v => exact moves_goNative hs h
  | handOver i =>
    simp only [Option.ite_none_right_eq_some, Option.some.injEq] at h
    obtain ⟨hi, rfl⟩ := h
    exact .handOver hi
  | resume i =>
    cases h
    exact .stay
  | wake i =>
    simp only [Option.ite_none_right_eq_some, Option.some.injEq] at h
    obtain ⟨⟨hp, -⟩, rfl⟩ := h
    have hin := hs.places (.microthread i)
    rw [hp] at hin
    exact .pass (by rw [hp]; rfl) (by simpa [Enters, Pc.seeks, Pc.owns] using hin.1 rfl)

end State

/-! ## One holder -/

namespace Core

variable {c c' : Core ι ν}

theorem goto_pc (c : Core ι ν) (p q : Party ι ν) (x : Pc) : (c.goto p x).pc q = if q = p then x else c.pc q :=
  Function.update_apply _ _ _ _

theorem keeps_goto_of_ne (c : Core ι ν) {p q : Party ι ν} (x : Pc) (h : q ≠ p) : (c.goto p x).keeps q = c.keeps q := by
  unfold keeps
  rw [goto_pc, if_neg h]
  rfl

/-- What holds at a place stays true when neither the owner nor what the party holds changes. -/
theorem Enters.frame {p : Party ι ν} {x : Pc} (h : c.Enters p x) (ho : c'.owner = c.owner)
    (hh : ∀ v, p = .native v → c'.holds p = c.holds p) : c'.Enters p x := by
  cases p with
  | microthread i =>
    simp only [Enters, ho]
    exact h
  | native v =>
    simp only [Enters, hh v rfl]
    exact h

theorem Sound.places_goto (h : c.Sound) {p : Party ι ν} {x : Pc} (hin : c.Enters p x) (q : Party ι ν) :
    c.Enters q ((c.goto p x).pc q) := by
  rw [goto_pc]
  split
  · rename_i hq
    exact hq ▸ hin
  · exact h.places q

theorem Sound.pass (h : c.Sound) {p : Party ι ν} {x : Pc} (hx : x.locked = (c.pc p).locked) (hin : c.Enters p x) :
    (c.goto p x).Sound where
  party q := by
    have hkeeps : (c.goto p x).keeps q = c.keeps q := by
      by_cases hq : q = p
      · subst hq
        simp only [keeps, goto_pc, if_pos, hx]
        rfl
      · exact keeps_goto_of_ne c x hq
    rw [hkeeps]
    exact h.party q
  worker := h.worker
  owner := h.owner
  native := h.native
  places q := (h.places_goto hin q).frame rfl fun _ _ => rfl
  released := h.released

theorem Sound.acquire (h : c.Sound) {p : Party ι ν} {x : Pc} (hfree : c.queueLock = none) (hx : x.locked = true)
    (hin : c.Enters p x) : ((c.acquire p).goto p x).Sound where
  party q := by
    by_cases hq : q = p
    · subst hq
      simp [Core.acquire, Core.goto, keeps, hx]
    · have hnot : c.keeps q ≠ true := fun hk => by simpa [hfree] using (h.party q).2 hk
      rw [keeps_goto_of_ne _ x hq]
      constructor
      · intro he
        cases he
        exact absurd rfl hq
      · exact fun hk => absurd hk hnot
  worker i := by
    constructor
    · intro he
      cases he
    · intro hi
      have := (h.worker i).2 hi
      rw [hfree] at this
      cases this
  owner := h.owner
  native := h.native
  places q := (h.places_goto hin q).frame rfl fun _ _ => rfl
  released := h.released

/-- Nobody else has locked the queue. -/
theorem Sound.only (h : c.Sound) {p q : Party ι ν} (hp : c.queueLock = some (.party p)) (hq : c.keeps q = true) :
    q = p := by
  have := (h.party q).2 hq
  rw [hp] at this
  cases this
  rfl

theorem Sound.not_handing (h : c.Sound) {p : Party ι ν} (hp : c.queueLock = some (.party p)) (i : ι) :
    c.handing i ≠ true := by
  intro hi
  have := (h.worker i).2 hi
  rw [hp] at this
  cases this

theorem Sound.locked (h : c.Sound) {p : Party ι ν} (hp : (c.pc p).locked = true) :
    c.queueLock = some (.party p) :=
  (h.party p).2 (by simp [keeps, hp])

theorem Sound.native_locked (h : c.Sound) {v : ν} (hv : c.holds (.native v) = true) :
    c.queueLock = some (.party (.native v)) :=
  (h.party (.native v)).2 (by simp [keeps, hv])

/-- The queue is unlocked by whoever has locked it. -/
theorem Sound.released_append (h : c.Sound) {holder : QueueHolder ι ν} (hh : c.queueLock = some holder) :
    ∀ r ∈ (c.release holder).released, r.2 = some r.1 := by
  intro r hr
  rcases List.mem_append.1 hr with hr | hr
  · exact h.released r hr
  · rw [List.mem_singleton.1 hr]
    exact hh

theorem Sound.release (h : c.Sound) {p : Party ι ν} {x : Pc} (hp : (c.pc p).locked = true) (hx : x.locked = false)
    (hin : c.Enters p x) : ((c.release (.party p)).goto p x).Sound where
  party q := by
    have hlock := h.locked hp
    refine ⟨(by rintro ⟨⟩), fun hk => ?_⟩
    by_cases hq : q = p
    · subst hq
      cases q with
      | microthread i => simp [keeps, goto_pc, hx] at hk
      | native v =>
        have hh : c.holds (.native v) = false := (h.places (.native v)).1 hp
        simp [keeps, hx, Core.goto, Core.release, hh] at hk
    · rw [keeps_goto_of_ne _ x hq] at hk
      exact absurd (h.only hlock hk) hq
  worker i := ⟨(by rintro ⟨⟩), fun hi => absurd hi (h.not_handing (h.locked hp) i)⟩
  owner := h.owner
  native := h.native
  places q := (h.places_goto hin q).frame rfl fun _ _ => rfl
  released := h.released_append (h.locked hp)

theorem Sound.own (h : c.Sound) {i : ι} (hp : c.pc (.microthread i) = .write .lock) :
    ((c.own i).goto (.microthread i) (.drop .lock)).Sound := by
  have hlock : c.queueLock = some (.party (.microthread i)) := h.locked (by rw [hp]; rfl)
  have hnone : c.owner = none := (h.places (.microthread i)).2.2.1 hp
  have hnative : ∀ v, c.holds (.native v) ≠ true := by
    intro v hv
    have := h.native_locked hv
    rw [hlock] at this
    cases this
  refine ⟨fun q => ?_, h.worker, fun j => ?_, fun v hv => ?_, fun q => ?_, h.released⟩
  · have hkeeps : ((c.own i).goto (.microthread i) (.drop .lock)).keeps q = c.keeps q := by
      by_cases hq : q = .microthread i
      · subst hq
        simp [keeps, goto_pc, hp, Pc.locked]
      · rw [keeps_goto_of_ne _ _ hq]
        cases q <;> simp [keeps, Core.own, setHolds]
    rw [hkeeps]
    exact h.party q
  · have hj := h.owner j
    rw [hnone] at hj
    by_cases hji : j = i
    · subst hji
      simp [Core.own, setHolds, Core.goto]
    · simp only [Core.goto, Core.own, setHolds, Option.some.injEq, Function.update_apply,
        Party.microthread.injEq, if_neg hji, ← hj]
      exact ⟨fun he => absurd he.symm hji, fun he => by cases he⟩
  · exact absurd (by simpa [Core.own, setHolds, Core.goto] using hv) (hnative v)
  · rw [goto_pc]
    split
    · rename_i hq
      subst hq
      simp [Enters, Pc.seeks, Pc.owns]
    · rename_i hq
      cases q with
      | microthread j =>
        have hin := h.places (.microthread j)
        refine ⟨fun _ he => hq ?_, fun hj => ?_, fun hj => ?_, hin.2.2.2⟩
        · simp only [Core.own, setHolds, Core.goto, Option.some.injEq] at he
          rw [he]
        · have := hin.2.1 hj
          rw [hnone] at this
          cases this
        · have hj' : c.pc (.microthread j) = .write .lock := hj
          exact absurd (h.only hlock (by simp [keeps, hj', Pc.locked])) hq
      | native v =>
        have hin := h.places (.native v)
        simpa [Enters, Core.own, setHolds, Core.goto] using hin

theorem Sound.disown (h : c.Sound) {i : ι} (hp : c.pc (.microthread i) = .clear) :
    ((c.disown i).goto (.microthread i) .first).Sound := by
  have howner : c.owner = some i := (h.places (.microthread i)).2.1 (by rw [hp]; rfl)
  refine ⟨fun q => ?_, h.worker, fun j => ?_, fun v hv => rfl, fun q => ?_, h.released⟩
  · have hkeeps : ((c.disown i).goto (.microthread i) .first).keeps q = c.keeps q := by
      by_cases hq : q = .microthread i
      · subst hq
        simp [keeps, goto_pc, hp, Pc.locked]
      · rw [keeps_goto_of_ne _ _ hq]
        cases q <;> simp [keeps, Core.disown, setHolds]
    rw [hkeeps]
    exact h.party q
  · have hj := h.owner j
    rw [howner] at hj
    by_cases hji : j = i
    · subst hji
      simp [Core.disown, setHolds, Core.goto]
    · simp only [Core.goto, Core.disown, setHolds, Function.update_apply, Party.microthread.injEq, if_neg hji, ← hj,
        Option.some.injEq]
      exact ⟨(by rintro ⟨⟩), fun he => absurd he.symm hji⟩
  · rw [goto_pc]
    split
    · rename_i hq
      subst hq
      simp [Enters, Pc.seeks, Pc.owns]
    · rename_i hq
      cases q with
      | microthread j =>
        have hin := h.places (.microthread j)
        refine ⟨(by rintro - ⟨⟩), fun hj => ?_, fun _ => rfl, hin.2.2.2⟩
        have := hin.2.1 hj
        rw [howner] at this
        cases this
        exact absurd rfl hq
      | native v =>
        have hin := h.places (.native v)
        simpa [Enters, Core.disown, setHolds, Core.goto] using hin

theorem Sound.sleep (h : c.Sound) {i : ι} (hp : c.pc (.microthread i) = .suspend) :
    ((c.sleep i).goto (.microthread i) .wait).Sound := by
  have hlock : c.queueLock = some (.party (.microthread i)) := h.locked (by rw [hp]; rfl)
  have hseeks : c.owner ≠ some i := (h.places (.microthread i)).1 (by rw [hp]; rfl)
  have hlock' : ((c.sleep i).goto (.microthread i) .wait).queueLock = some (.worker i) := by
    simp [Core.goto, Core.sleep, hlock]
  refine ⟨fun q => ?_, fun j => ?_, h.owner, h.native, fun q => ?_, h.released⟩
  · rw [hlock']
    refine ⟨(by rintro ⟨⟩), fun hk => ?_⟩
    by_cases hq : q = .microthread i
    · subst hq
      simp [keeps, goto_pc, Pc.locked] at hk
    · rw [keeps_goto_of_ne _ _ hq] at hk
      exact absurd (h.only hlock hk) hq
  · rw [hlock']
    by_cases hj : j = i
    · subst hj
      simp [Core.goto, Core.sleep]
    · simp only [Core.goto, Core.sleep, Function.update_apply, if_neg hj, Option.some.injEq, QueueHolder.worker.injEq]
      exact ⟨fun he => absurd he.symm hj, fun hh => absurd hh (h.not_handing hlock j)⟩
  · have hin : c.Enters (.microthread i) .wait := by simp [Enters, Pc.seeks, Pc.owns, hseeks]
    exact (h.places_goto hin q).frame rfl fun _ _ => rfl

theorem Sound.handOver (h : c.Sound) {i : ι} (hi : c.handing i = true) : (c.handOver i).Sound := by
  have hlock := (h.worker i).2 hi
  refine ⟨fun q => ⟨(by rintro ⟨⟩), fun hk => ?_⟩, fun j => ⟨(by rintro ⟨⟩), fun hj => ?_⟩, h.owner,
    h.native, fun q => (h.places q).frame rfl fun _ _ => rfl, h.released_append hlock⟩
  · have := (h.party q).2 hk
    rw [hlock] at this
    cases this
  · by_cases hji : j = i
    · subst hji
      simp [Core.handOver] at hj
    · simp only [Core.handOver, Function.update_apply, if_neg hji] at hj
      have := (h.worker j).2 hj
      rw [hlock] at this
      cases this
      exact absurd rfl hji

/-- What the other parties hold and where they are does not matter when a native caller
changes what it holds. -/
theorem Sound.places_native (h : c.Sound) {v : ν} {b : Bool} (q : Party ι ν) :
    (c.setHolds (.native v) b).Enters q ((c.goto (.native v) .outside).pc q) := by
  rw [goto_pc]
  split
  · rename_i hq
    subst hq
    simp [Enters, Pc.locked]
  · rename_i hq
    refine (h.places q).frame rfl fun _ _ => ?_
    simp [setHolds, hq]

theorem keeps_native_of_ne (c : Core ι ν) {v : ν} {b : Bool} {q : Party ι ν} (hq : q ≠ .native v) :
    ((c.setHolds (.native v) b).goto (.native v) .outside).keeps q = c.keeps q := by
  rw [keeps_goto_of_ne _ _ hq]
  simp [keeps, setHolds, Function.update_of_ne hq]

theorem Sound.keep (h : c.Sound) {v : ν} {k : Kind} (hp : c.pc (.native v) = .peek k) (ho : c.owner = none) :
    ((c.setHolds (.native v) true).goto (.native v) .outside).Sound := by
  have hlock : c.queueLock = some (.party (.native v)) := h.locked (by rw [hp]; rfl)
  refine ⟨fun q => ?_, h.worker, fun i => ?_, fun _ _ => ho, h.places_native, h.released⟩
  · by_cases hq : q = .native v
    · subst hq
      simp [keeps, Core.goto, setHolds, hlock]
    · rw [keeps_native_of_ne c hq]
      exact h.party q
  · simpa [Core.goto, setHolds] using h.owner i

theorem Sound.unlockNative (h : c.Sound) {v : ν} (hp : c.pc (.native v) = .unlockNative) :
    (((c.release (.party (.native v))).setHolds (.native v) false).goto (.native v) .outside).Sound := by
  have hlock : c.queueLock = some (.party (.native v)) := h.native_locked ((h.places (.native v)).2 hp)
  refine ⟨fun q => ⟨(by rintro ⟨⟩), fun hk => ?_⟩,
    fun i => ⟨(by rintro ⟨⟩), fun hi => absurd hi (h.not_handing hlock i)⟩, fun i => ?_, fun w hw => ?_,
    fun q => (h.places_native (v := v) (b := false) q).frame rfl fun _ _ => rfl, h.released_append hlock⟩
  · by_cases hq : q = .native v
    · subst hq
      simp [keeps, Core.goto, setHolds, Pc.locked] at hk
    · rw [keeps_native_of_ne _ hq] at hk
      exact absurd (h.only hlock hk) hq
  · simpa [Core.goto, setHolds, Core.release] using h.owner i
  · by_cases hwv : w = v
    · subst hwv
      simp [Core.goto, setHolds] at hw
    · exact h.native w (by simpa [Core.goto, setHolds, Core.release, hwv] using hw)

theorem Sound.moves (h : c.Sound) (hm : Moves c c') : c'.Sound := by
  cases hm with
  | stay => exact h
  | pass hx hin => exact h.pass hx hin
  | acquire hfree hx hin => exact h.acquire hfree hx hin
  | release hp hx hin => exact h.release hp hx hin
  | own hp => exact h.own hp
  | disown hp => exact h.disown hp
  | sleep hp => exact h.sleep hp
  | handOver hi => exact h.handOver hi
  | keep hp ho => exact h.keep hp ho
  | unlockNative hp => exact h.unlockNative hp

theorem Sound.exclusive (h : c.Sound) {p q : Party ι ν} (hp : c.holds p = true) (hq : c.holds q = true) : p = q := by
  cases p with
  | microthread i =>
    have hi := (h.owner i).2 hp
    cases q with
    | microthread j =>
      have hj := (h.owner j).2 hq
      rw [hi] at hj
      cases hj
      rfl
    | native v =>
      rw [h.native v hq] at hi
      cases hi
  | native v =>
    have hv := h.native v hp
    cases q with
    | microthread j =>
      rw [(h.owner j).2 hq] at hv
      cases hv
    | native w => exact h.only (h.native_locked hq) (by simp [keeps, hp])

end Core

/-! ## What a try tells -/

/-- What a call of `dtape_mutex_try_lock` that is here has done so far. -/
def Pc.tells : Pc → Option (List Op)
  | .assert .tryLock | .read .tryLock | .readAgain .tryLock | .probe => some []
  | .peek .tryLock | .back .tryLock => some [.acquire]
  | _ => none

/-- A try that fails has at most locked the queue and unlocked it again, and a microthread's
has done nothing. One of a microthread that succeeds does not keep the queue lock. -/
def Answer.Ok (a : Answer ι ν) : Prop :=
  (a.result = false → a.ops = [] ∨ a.ops = [.acquire, .release]) ∧
  ∀ i, a.party = .microthread i → (a.result = false → a.ops = []) ∧ (a.result = true → a.keepsQueueLock = false)

namespace State

/-- Holds in every run, careful or not. -/
structure Told (s : State ι ν) : Prop where
  places : ∀ p ops, (s.pc p).tells = some ops → s.ops p = ops
  answers : ∀ a ∈ s.answers, a.Ok
  locked : ∀ i, s.queueLock = some (.party (.microthread i)) → (s.pc (.microthread i)).locked = true

variable {s s' : State ι ν}

/-- The step of one party. -/
theorem Told.next (h : s.Told) {p : Party ι ν} {x : Pc} (hpc : s'.pc = Function.update s.pc p x)
    (hops : ∀ q, q ≠ p → s'.ops q = s.ops q) (hx : ∀ ops, x.tells = some ops → s'.ops p = ops)
    (ha : ∀ a ∈ s'.answers, a ∈ s.answers ∨ a.Ok)
    (hlock : ∀ i, s'.queueLock = some (.party (.microthread i)) →
      (.microthread i = p → x.locked = true) ∧
        (.microthread i ≠ p → s.queueLock = some (.party (.microthread i)))) : s'.Told where
  places q ops hq := by
    rw [hpc, Function.update_apply] at hq
    split at hq
    · rename_i he
      exact he ▸ hx ops hq
    · rename_i he
      rw [hops q he]
      exact h.places q ops hq
  answers a hmem := (ha a hmem).elim (h.answers a) id
  locked i hi := by
    rw [hpc, Function.update_apply]
    split
    · rename_i he
      exact (hlock i hi).1 he
    · rename_i he
      exact h.locked i ((hlock i hi).2 he)

/-- The party only goes on. -/
theorem Told.goto (h : s.Told) {p : Party ι ν} {x : Pc} (hx : ∀ ops, x.tells = some ops → s.ops p = ops)
    (hlock : x.locked = (s.pc p).locked) : (s.goto p x).Told :=
  h.next (p := p) (x := x) rfl (fun _ _ => rfl) hx (fun _ hmem => .inl hmem) fun i hi =>
    ⟨fun he => by rw [hlock, ← he]; exact h.locked i hi, fun _ => hi⟩

theorem Told.acquire (h : s.Told) {p : Party ι ν} {x : Pc}
    (hx : ∀ ops, x.tells = some ops → s.ops p ++ [Op.acquire] = ops) (hlock : x.locked = true) :
    ((s.acquire p).goto p x).Told := by
  refine h.next (p := p) (x := x) rfl (fun q hq => Function.update_of_ne hq _ _) ?_ (fun _ hmem => .inl hmem) ?_
  · intro ops hops
    exact (Function.update_self ..).trans (hx ops hops)
  · intro i hi
    cases hi
    exact ⟨fun _ => hlock, fun he => absurd rfl he⟩

/-- The party unlocks the queue and goes where a try tells nothing more. -/
theorem Told.unlocks (h : s.Told) {p : Party ι ν} {x : Pc} (hpc : s'.pc = Function.update s.pc p x)
    (hops : ∀ q, q ≠ p → s'.ops q = s.ops q) (hx : x.tells = none) (ha : ∀ a ∈ s'.answers, a ∈ s.answers ∨ a.Ok)
    (hlock : s'.queueLock = none) : s'.Told := by
  refine h.next hpc hops ?_ ha ?_
  · intro ops hops
    rw [hx] at hops
    cases hops
  · intro i hi
    rw [hlock] at hi
    cases hi

/-- A try returns. -/
theorem Told.leave (h : s.Told) {p : Party ι ν} {result : Bool}
    (hp : ∀ i, .microthread i = p → (s.pc p).locked = false)
    (hok : Answer.Ok ⟨p, result, s.ops p, s.queueLock = some (.party p)⟩) : (s.leave p .tryLock result).Told := by
  refine h.next (p := p) (x := .outside) rfl (fun _ _ => rfl) (fun ops hops => by cases hops) ?_ ?_
  · intro a hmem
    rcases List.mem_append.1 hmem with hmem | hmem
    · exact .inl hmem
    · exact .inr (List.mem_singleton.1 hmem ▸ hok)
  · intro i hi
    refine ⟨fun he => ?_, fun _ => hi⟩
    have := h.locked i hi
    rw [he, hp i he] at this
    cases this

theorem told_goMicrothread (h : s.Told) {i : ι} (hgo : s.goMicrothread i = some s') : s'.Told := by
  have htells := h.places (.microthread i)
  cases hp : s.pc (.microthread i) with
  | assert k =>
    simp only [goMicrothread, hp] at hgo
    split at hgo
    · cases hgo
      exact ⟨h.places, h.answers, h.locked⟩
    · cases k with
      | lock =>
        cases hgo
        exact h.goto (fun ops hops => by cases hops) (by rw [hp]; rfl)
      | tryLock =>
        cases hgo
        exact h.goto (fun ops hops => htells ops (hp ▸ hops)) (by rw [hp]; rfl)
  | take =>
    simp only [goMicrothread, hp, Option.ite_none_right_eq_some, Option.some.injEq] at hgo
    obtain ⟨-, rfl⟩ := hgo
    exact h.acquire (fun ops hops => by cases hops) rfl
  | read k =>
    simp only [goMicrothread, hp, Option.some.injEq] at hgo
    subst hgo
    split
    · exact h.goto (fun ops hops => by cases k <;> cases hops) (by cases k <;> rw [hp] <;> rfl)
    · exact h.goto (fun ops hops => htells ops (by cases k <;> exact hp ▸ hops)) (by cases k <;> rw [hp] <;> rfl)
  | readAgain k =>
    simp only [goMicrothread, hp] at hgo
    split at hgo
    · cases hgo
      exact h.goto (fun ops hops => by cases k <;> cases hops) (by cases k <;> rw [hp] <;> rfl)
    · cases k with
      | lock =>
        cases hgo
        exact h.goto (fun ops hops => by cases hops) (by rw [hp]; rfl)
      | tryLock =>
        cases hgo
        have hnone : s.ops (.microthread i) = [] := htells [] (by rw [hp]; rfl)
        exact h.leave (fun _ _ => by rw [hp]; rfl) ⟨fun _ => .inl hnone, fun _ _ => ⟨fun _ => hnone, by rintro ⟨⟩⟩⟩
  | write k =>
    simp only [goMicrothread, hp, Option.some.injEq] at hgo
    subst hgo
    refine h.next (p := .microthread i) (x := .drop k) rfl (fun q hq => Function.update_of_ne hq _ _)
      (fun ops hops => by cases k <;> cases hops) (fun _ hmem => .inl hmem) ?_
    intro j hj
    refine ⟨fun he => ?_, fun _ => hj⟩
    have := h.locked j hj
    rw [he, hp] at this
    cases k <;> exact this
  | drop k =>
    simp only [goMicrothread, hp, Option.some.injEq] at hgo
    subst hgo
    cases k with
    | lock =>
      exact h.unlocks (p := .microthread i) (x := .outside) rfl (fun q hq => Function.update_of_ne hq _ _) rfl
        (fun _ hmem => .inl hmem) rfl
    | tryLock =>
      refine h.unlocks (p := .microthread i) (x := .outside) rfl (fun q hq => Function.update_of_ne hq _ _) rfl ?_ rfl
      intro a hmem
      rcases List.mem_append.1 hmem with hmem | hmem
      · exact .inl hmem
      · rw [List.mem_singleton.1 hmem]
        exact .inr ⟨by rintro ⟨⟩, fun _ _ => ⟨by rintro ⟨⟩, fun _ => rfl⟩⟩
  | insert =>
    simp only [goMicrothread, hp, Option.some.injEq] at hgo
    subst hgo
    exact h.next (p := .microthread i) (x := .suspend) rfl (fun _ _ => rfl) (fun ops hops => by cases hops)
      (fun _ hmem => .inl hmem) fun j hj => ⟨fun _ => rfl, fun _ => hj⟩
  | suspend =>
    simp only [goMicrothread, hp, Option.some.injEq] at hgo
    subst hgo
    refine h.next (p := .microthread i) (x := .wait) rfl (fun _ _ => rfl) (fun ops hops => by cases hops)
      (fun _ hmem => .inl hmem) ?_
    intro j hj
    simp only [State.goto, Core.goto, Core.sleep] at hj
    split at hj
    · cases hj
    · rename_i hne
      exact ⟨fun he => absurd (he ▸ hj) hne, fun _ => hj⟩
  | assertOwned =>
    simp only [goMicrothread, hp] at hgo
    split at hgo
    · cases hgo
      exact h.goto (fun ops hops => by cases hops) (by rw [hp]; rfl)
    · cases hgo
      exact ⟨h.places, h.answers, h.locked⟩
  | takeToUnlock =>
    simp only [goMicrothread, hp, Option.ite_none_right_eq_some, Option.some.injEq] at hgo
    obtain ⟨-, rfl⟩ := hgo
    exact h.acquire (fun ops hops => by cases hops) rfl
  | clear =>
    simp only [goMicrothread, hp, Option.some.injEq] at hgo
    subst hgo
    exact h.next (p := .microthread i) (x := .first) rfl (fun q hq => Function.update_of_ne hq _ _)
      (fun ops hops => by cases hops) (fun _ hmem => .inl hmem) fun j hj => ⟨fun _ => rfl, fun _ => hj⟩
  | first =>
    simp only [goMicrothread, hp] at hgo
    split at hgo <;> cases hgo <;>
      exact h.next (p := .microthread i) (x := .dropToUnlock) rfl (fun _ _ => rfl) (fun ops hops => by cases hops)
        (fun _ hmem => .inl hmem) fun j hj => ⟨fun _ => rfl, fun _ => hj⟩
  | dropToUnlock =>
    simp only [goMicrothread, hp, Option.some.injEq] at hgo
    subst hgo
    exact h.unlocks (p := .microthread i) (x := .outside) rfl (fun q hq => Function.update_of_ne hq _ _) rfl
      (fun _ hmem => .inl hmem) rfl
  | outside | wait | spin | probe | peek | back | unlockNative =>
    simp only [goMicrothread, hp] at hgo
    cases hgo

/-- A native caller's steps do not touch a microthread's queue lock, except to unlock it. -/
theorem told_goNative (h : s.Told) {v : ν} (hgo : s.goNative v = some s') : s'.Told := by
  have htells := h.places (.native v)
  cases hp : s.pc (.native v) with
  | spin =>
    simp only [goNative, hp, Option.ite_none_right_eq_some, Option.some.injEq] at hgo
    obtain ⟨-, rfl⟩ := hgo
    exact h.acquire (fun ops hops => by cases hops) rfl
  | probe =>
    have hnone : s.ops (.native v) = [] := htells [] (by rw [hp]; rfl)
    simp only [goNative, hp] at hgo
    split at hgo
    · cases hgo
      refine h.acquire (fun ops hops => ?_) rfl
      cases hops
      rw [hnone]
      rfl
    · cases hgo
      exact h.leave (by rintro i ⟨⟩) ⟨fun _ => .inl hnone, by rintro i ⟨⟩⟩
  | peek k =>
    simp only [goNative, hp] at hgo
    split at hgo
    · cases hgo
      have hheld : State.Told { s with toCore := s.toCore.setHolds (.native v) true } :=
        ⟨h.places, h.answers, h.locked⟩
      cases k with
      | lock =>
        exact hheld.next (p := .native v) (x := .outside) rfl (fun _ _ => rfl) (fun ops hops => by cases hops)
          (fun _ hmem => .inl hmem) fun i hi => ⟨by rintro ⟨⟩, fun _ => hi⟩
      | tryLock => exact hheld.leave (by rintro i ⟨⟩) ⟨by rintro ⟨⟩, by rintro i ⟨⟩⟩
    · cases hgo
      exact h.goto (fun ops hops => htells ops (by cases k <;> exact hp ▸ hops)) (by rw [hp]; rfl)
  | back k =>
    cases k with
    | lock =>
      simp only [goNative, hp, Option.some.injEq] at hgo
      subst hgo
      exact h.unlocks (p := .native v) (x := .spin) rfl (fun q hq => Function.update_of_ne hq _ _) rfl
        (fun _ hmem => .inl hmem) rfl
    | tryLock =>
      have hops : s.ops (.native v) = [.acquire] := htells [.acquire] (by rw [hp]; rfl)
      simp only [goNative, hp, Option.some.injEq] at hgo
      subst hgo
      refine h.unlocks (p := .native v) (x := .outside) rfl (fun q hq => Function.update_of_ne hq _ _) rfl ?_ rfl
      intro a hmem
      rcases List.mem_append.1 hmem with hmem | hmem
      · exact .inl hmem
      · rw [List.mem_singleton.1 hmem]
        refine .inr ⟨fun _ => .inr ?_, by rintro i ⟨⟩⟩
        exact (Function.update_self ..).trans (by rw [hops]; rfl)
  | unlockNative =>
    simp only [goNative, hp, Option.some.injEq] at hgo
    subst hgo
    exact h.unlocks (p := .native v) (x := .outside) rfl (fun q hq => Function.update_of_ne hq _ _) rfl
      (fun _ hmem => .inl hmem) rfl
  | outside | assert | take | read | readAgain | write | drop | insert | suspend | wait | assertOwned
  | takeToUnlock | clear | first | dropToUnlock =>
    simp only [goNative, hp] at hgo
    cases hgo

theorem Told.step (h : s.Told) {l : Label ι ν} (hstep : s.step l = some s') : s'.Told := by
  simp only [State.step, Option.ite_none_left_eq_some] at hstep
  obtain ⟨-, hstep⟩ := hstep
  cases l with
  | lock p =>
    simp only [Option.ite_none_right_eq_some, Option.some.injEq] at hstep
    obtain ⟨hp, rfl⟩ := hstep
    exact h.goto (fun ops hops => by cases p <;> cases hops) (by rw [hp]; cases p <;> rfl)
  | tryLock p =>
    simp only [Option.ite_none_right_eq_some, Option.some.injEq] at hstep
    obtain ⟨hp, rfl⟩ := hstep
    refine h.next (p := p) (x := callTryLock p) rfl (fun q hq => Function.update_of_ne hq _ _) ?_
      (fun _ hmem => .inl hmem) ?_
    · intro ops hops
      refine (Function.update_self ..).trans ?_
      cases p <;> (cases hops; rfl)
    · intro i hi
      refine ⟨fun he => ?_, fun _ => hi⟩
      have := h.locked i hi
      rw [he, hp] at this
      cases this
  | unlock p =>
    simp only [Option.ite_none_right_eq_some, Option.some.injEq] at hstep
    obtain ⟨hp, rfl⟩ := hstep
    exact h.goto (fun ops hops => by cases p <;> cases hops) (by rw [hp]; cases p <;> rfl)
  | go p =>
    cases p with
    | microthread i => exact told_goMicrothread h hstep
    | native v => exact told_goNative h hstep
  | handOver i =>
    simp only [Option.ite_none_right_eq_some, Option.some.injEq] at hstep
    obtain ⟨-, rfl⟩ := hstep
    exact ⟨h.places, h.answers, by rintro j ⟨⟩⟩
  | resume i =>
    cases hstep
    exact ⟨h.places, h.answers, h.locked⟩
  | wake i =>
    simp only [Option.ite_none_right_eq_some, Option.some.injEq] at hstep
    obtain ⟨⟨hp, -⟩, rfl⟩ := hstep
    refine h.next (p := .microthread i) (x := .take) rfl (fun _ _ => rfl) (fun ops hops => by cases hops)
      (fun _ hmem => .inl hmem) ?_
    intro j hj
    refine ⟨fun he => ?_, fun _ => hj⟩
    have := h.locked j hj
    rw [he, hp] at this
    cases this

/-! ## Every run -/

theorem sound_reach (h : Reach step Careful Init s) : s.Sound := by
  refine h.inv (fun s => s.Sound) ?_ fun s l s' hs hg hst => hs.moves (moves_step hs hg hst)
  rintro s rfl
  refine ⟨fun p => ?_, fun i => by simp, fun i => by simp, fun v hv => rfl, fun p => ?_, by simp⟩
  · cases p <;> simp [Core.keeps, Pc.locked]
  · cases p <;> simp [Core.Enters, Pc.seeks, Pc.owns, Pc.locked]

theorem told_reach {guard : State ι ν → Label ι ν → Prop} (h : Reach step guard Init s) : s.Told := by
  refine h.inv Told ?_ fun s l s' hs _ hst => hs.step hst
  rintro s rfl
  exact ⟨by rintro p ops ⟨⟩, by simp, by rintro i ⟨⟩⟩

end State

end DarlingServer.TryLock
