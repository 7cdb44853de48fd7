import DarlingServer.KernelAsync
import Mathlib.Logic.Function.Basic
import Mathlib.Algebra.Group.Nat.Defs
/-!
# Destroying threads

A process finds its threads by NSID in `_threads`, and the destructor of a thread
that still has a process takes its NSID off that map. It finds its own entry if

- the thread was registered at all, which the runners of `kernelAsync` never are
  (the permanent ones are kept, and a temporary one ends in a call that does not
  return, with a reference to itself on the stack it leaves behind),
- nobody was registered under an NSID that was still in use, and
- an exec replacement, which empties the map itself, met no thread that was already
  being destroyed.

A step is a section under the process's lock or something done outside of it. The
replacement drops the lock in the middle of each iteration.
-/

namespace DarlingServer.Destruction

open Runs

/-! ## The map -/

/-- `_threads`: the threads by NSID. -/
abbrev Entries := List (Nat × Nat)

def Entries.get : Entries → Nat → Option Nat
  | [], _ => none
  | (nsid, thread) :: m, k => if k = nsid then some thread else Entries.get m k

def Entries.remove (m : Entries) (nsid : Nat) : Entries := m.filter (·.1 ≠ nsid)

/-- `_threads[nsid] = thread`. -/
def Entries.enter (m : Entries) (nsid thread : Nat) : Entries := (nsid, thread) :: m.remove nsid

theorem Entries.get_remove (m : Entries) (nsid k : Nat) :
    (m.remove nsid).get k = if k = nsid then none else m.get k := by
  induction m with
  | nil => simp [Entries.remove, Entries.get]
  | cons e m ih =>
    obtain ⟨k', t⟩ := e
    unfold Entries.remove at ih ⊢
    by_cases hk : k' = nsid
    · subst hk
      rw [List.filter_cons_of_neg (by simp), ih, Entries.get]
      split <;> rfl
    · rw [List.filter_cons_of_pos (by simpa using hk), Entries.get, Entries.get, ih]
      by_cases hkk : k = k'
      · subst hkk
        simp [hk]
      · simp [hkk]

theorem Entries.get_enter (m : Entries) (nsid thread k : Nat) :
    (m.enter nsid thread).get k = if k = nsid then some thread else m.get k := by
  rw [Entries.enter, Entries.get, Entries.get_remove]
  split <;> rfl

theorem Entries.of_get_remove {m : Entries} {nsid k t : Nat} (h : (m.remove nsid).get k = some t) :
    k ≠ nsid ∧ m.get k = some t := by
  rw [Entries.get_remove] at h
  split at h
  · cases h
  · exact ⟨‹_›, h⟩

theorem Entries.of_get_enter {m : Entries} {nsid thread k t : Nat} (h : (m.enter nsid thread).get k = some t) :
    k = nsid ∧ t = thread ∨ m.get k = some t := by
  rw [Entries.get_enter] at h
  split at h
  · cases h
    exact .inl ⟨‹_›, rfl⟩
  · exact .inr h

/-! ## The model -/

/-- Who made a thread. -/
inductive Origin where
  /-- A call from a thread that has none yet. -/
  | user
  /-- `dtape_hook_thread_create_kernel`. -/
  | kernel
  /-- `kernelAsync`. -/
  | runner (permanent : Bool)
  deriving DecidableEq

def Origin.isRunner : Origin → Bool
  | .runner _ => true
  | _ => false

inductive Stage where
  /-- Its creator is about to register it. -/
  | constructed
  | alive
  /-- The last reference is gone, and the destructor has not locked the process yet. -/
  | dying
  | destroyed
  /-- The destructor has thrown. -/
  | threw
  deriving DecidableEq

structure Thread (π : Type*) where
  origin : Origin
  process : Option π
  nsid : Nat
  stage : Stage
  deriving DecidableEq

/-- Where an exec replacement is in emptying `_threads`. -/
inductive Clearing where
  | idle
  /-- At the head of the loop, with the lock. -/
  | scanning (mainThread : Option Nat)
  /-- Has an iterator and what it could lock of the thread there, without the lock. -/
  | found (it : Nat) (thread mainThread : Option Nat)
  /-- The thread is remembered or dismissed, and the entry not yet erased. -/
  | passed (it : Nat) (thread mainThread : Option Nat)
  deriving DecidableEq

def Clearing.mainThread : Clearing → Option Nat
  | .idle => none
  | .scanning mainThread | .found _ _ mainThread | .passed _ _ mainThread => mainThread

def Clearing.thread : Clearing → Option Nat
  | .found _ thread _ | .passed _ thread _ => thread
  | _ => none

/-- The replacement has locked the thread. -/
def Clearing.locks (clearing : Clearing) (t : Nat) : Bool :=
  clearing.thread = some t || clearing.mainThread = some t

/-- The replacement has the process's lock. -/
def Clearing.locked : Clearing → Bool
  | .scanning _ => true
  | _ => false

/-- The kernel's process, and the NSIDs of all. -/
structure Config (π : Type*) where
  kernelProcess : π
  nsid : π → Nat

/-- `DTAPE_KERNEL_THREAD_ID_THRESHOLD`. -/
def kernelThreadIDThreshold : Nat := 2 ^ 22

/-- Threads are numbered in the order they are made. -/
structure State (π : Type*) where
  thread : Nat → Option (Thread π) := fun _ => none
  made : Nat := 0
  threads : π → Entries := fun _ => []
  clearing : π → Clearing := fun _ => .idle
  kernelThreadIDCounter : Nat := kernelThreadIDThreshold
  permanentRunners : Nat := 0

variable {π : Type*} [DecidableEq π]

def State.setThread (s : State π) (t : Nat) (th : Thread π) : State π :=
  { s with thread := Function.update s.thread t (some th) }

def State.setThreads (s : State π) (p : π) (m : Entries) : State π :=
  { s with threads := Function.update s.threads p m }

def State.setClearing (s : State π) (p : π) (c : Clearing) : State π :=
  { s with clearing := Function.update s.clearing p c }

def State.make (s : State π) (th : Thread π) : State π := { s.setThread s.made th with made := s.made + 1 }

/-- The constructor of kernel threads. -/
def State.makeKernel (c : Config π) (s : State π) (origin : Origin) (stage : Stage) : State π :=
  let counter := (s.kernelThreadIDCounter + 1) % 2 ^ 64
  { s.make ⟨origin, some c.kernelProcess, s.kernelThreadIDCounter, stage⟩ with
    kernelThreadIDCounter := if counter = 0 then kernelThreadIDThreshold else counter }

inductive Label (π : Type*) where
  | createUser (p : π) (nsid : Nat)
  | createKernel
  | createRunner
  | registerWithProcess (t : Nat)
  /-- The last reference goes. -/
  | release (t : Nat)
  /-- The destructor's section. -/
  | destroy (t : Nat)
  /-- `notifyCheckin` of a process that is pending replacement, and the end of its loop. -/
  | clearBegin (p : π)
  | clearEnd (p : π)
  /-- An iteration: `begin()` and `lock()`, what is done without the lock, `erase(it)`. -/
  | clearFind (p : π) (it : Nat)
  | clearPass (p : π)
  | clearErase (p : π)
  deriving DecidableEq

/-- `weak_ptr::lock` of the thread in an entry. -/
def State.lockEntry (s : State π) (t : Nat) : Option Nat :=
  match s.thread t with
  | some th => if th.stage = .alive then some t else none
  | none => none

def State.registerWithProcess (s : State π) (t : Nat) : Option (State π) :=
  match s.thread t with
  | some ⟨origin, some p, nsid, .constructed⟩ =>
    if (s.clearing p).locked then none
    else some ((s.setThread t ⟨origin, some p, nsid, .alive⟩).setThreads p ((s.threads p).enter nsid t))
  | _ => none

/-- References are not counted, but `kernelAsync` keeps its permanent runners and a
replacement the threads it has locked. -/
def State.release (s : State π) (t : Nat) : Option (State π) :=
  match s.thread t with
  | some ⟨origin, process, nsid, .alive⟩ =>
    if origin = .runner true || process.any (fun p => (s.clearing p).locks t) then none
    else some (s.setThread t ⟨origin, process, nsid, .dying⟩)
  | _ => none

/-- `~Thread`. -/
def State.destroy (s : State π) (t : Nat) : Option (State π) :=
  match s.thread t with
  | some ⟨origin, none, nsid, .dying⟩ => some (s.setThread t ⟨origin, none, nsid, .destroyed⟩)
  | some ⟨origin, some p, nsid, .dying⟩ =>
    if (s.clearing p).locked then none
    else if ((s.threads p).get nsid).isNone then some (s.setThread t ⟨origin, some p, nsid, .threw⟩)
    else some ((s.setThread t ⟨origin, some p, nsid, .destroyed⟩).setThreads p ((s.threads p).remove nsid))
  | _ => none

/-- The exception "Main thread for process died?" leaves the map empty. -/
def State.clearEnd (s : State π) (p : π) : Option (State π) :=
  match s.clearing p with
  | .scanning mainThread =>
    if s.threads p = [] then
      match mainThread.bind fun t => (s.thread t).map fun th => (th.nsid, t) with
      | some (nsid, t) => some ((s.setThreads p (Entries.enter [] nsid t)).setClearing p .idle)
      | none => some (s.setClearing p .idle)
    else none
  | _ => none

def State.clearFind (s : State π) (p : π) (it : Nat) : Option (State π) :=
  match s.clearing p with
  | .scanning mainThread =>
    match (s.threads p).get it with
    | some t => some (s.setClearing p (.found it (s.lockEntry t) mainThread))
    | none => none
  | _ => none

def State.clearPass (c : Config π) (s : State π) (p : π) : Option (State π) :=
  match s.clearing p with
  | .found it none mainThread => some (s.setClearing p (.passed it none mainThread))
  | .found it (some t) mainThread =>
    match s.thread t with
    | some th =>
      if th.nsid = c.nsid p then some (s.setClearing p (.passed it (some t) (some t)))
      else some ((s.setThread t { th with process := none }).setClearing p (.passed it (some t) mainThread))
    | none => none
  | _ => none

/-- Erasing through an iterator whose entry is gone is undefined, and does nothing here. -/
def State.clearErase (s : State π) (p : π) : Option (State π) :=
  match s.clearing p with
  | .passed it _ mainThread =>
    some ((s.setThreads p ((s.threads p).remove it)).setClearing p (.scanning mainThread))
  | _ => none

def step (c : Config π) (s : State π) : Label π → Option (State π)
  | .createUser p nsid => if p = c.kernelProcess then none else some (s.make ⟨.user, some p, nsid, .constructed⟩)
  | .createKernel => some (s.makeKernel c .kernel .constructed)
  | .createRunner =>
    let permanent := decide (s.permanentRunners < KernelAsync.maxPermanentKernelRunners)
    some { s.makeKernel c (.runner permanent) .alive with
      permanentRunners := if permanent then s.permanentRunners + 1 else s.permanentRunners }
  | .registerWithProcess t => s.registerWithProcess t
  | .release t => s.release t
  | .destroy t => s.destroy t
  | .clearBegin p =>
    if s.clearing p = .idle ∧ p ≠ c.kernelProcess then some (s.setClearing p (.scanning none)) else none
  | .clearEnd p => s.clearEnd p
  | .clearFind p it => s.clearFind p it
  | .clearPass p => s.clearPass c p
  | .clearErase p => s.clearErase p

def init (s : State π) : Prop := s = {}

/-! ## When a destructor finds its entry -/

/-- Registered, and not destroyed. -/
def Thread.isRegistered (th : Thread π) : Bool :=
  !th.origin.isRunner && (th.stage = .alive || th.stage = .dying)

/-- Another registered thread of the process has the NSID. -/
def State.inUse (s : State π) (p : π) (nsid : Nat) : Bool :=
  ((s.threads p).get nsid).isSome || (List.range s.made).any fun t =>
    (s.thread t).any fun th => th.isRegistered && th.process = some p && th.nsid = nsid

/-- The three conditions: on what is released, registered and met by a replacement. -/
def heeded (s : State π) : Label π → Bool
  | .release t => (s.thread t).all fun th => !th.origin.isRunner
  | .registerWithProcess t => (s.thread t).all fun th => th.process.all fun p => !s.inUse p th.nsid
  | .clearFind p it => ((s.threads p).get it).all fun t => (s.lockEntry t).isSome
  | _ => true

/-! ## One process -/

/-- What holds of one process: `A` are its registered threads that still have it as
their process and `N` the NSIDs of all threads, with the process's map, replacement
and NSID. -/
structure ProcessSound (A : Nat → Thread π → Prop) (N : Nat → Option Nat) (m : Entries) (clearing : Clearing)
    (nspid : Nat) : Prop where
  /-- A thread has its entry, unless it is the main thread and a replacement has it. -/
  own : ∀ t th, A t th → m.get th.nsid = some t ∨ clearing.mainThread = some t
  unique : ∀ t th t' th', A t th → A t' th' → th.nsid = th'.nsid → t = t'
  named : ∀ k t, m.get k = some t → N t = some k
  entry : ∀ k t, m.get k = some t → (∃ th, A t th) ∨ ∃ main, clearing = .passed k (some t) main
  found : ∀ it o main, clearing = .found it o main →
    ∃ t th, o = some t ∧ A t th ∧ th.stage = .alive ∧ m.get it = some t
  passed : ∀ it o main, clearing = .passed it o main →
    ∃ t, o = some t ∧ m.get it = some t ∧ (main = some t ∨ ∀ th, ¬ A t th)
  main : ∀ t, clearing.mainThread = some t → ∃ th, A t th ∧ th.stage = .alive ∧ th.nsid = nspid

namespace ProcessSound

omit [DecidableEq π]

variable {A A' : Nat → Thread π → Prop} {N N' : Nat → Option Nat} {m : Entries} {clearing : Clearing} {nspid : Nat}

/-- Threads change and stay the process's own; one that the replacement has locked stays alive. -/
theorem relabel (h : ProcessSound A N m clearing nspid) (hN : ∀ t n, N t = some n → N' t = some n)
    (back : ∀ t th', A' t th' → ∃ th, A t th ∧ th.nsid = th'.nsid)
    (fwd : ∀ t th, A t th →
      ∃ th', A' t th' ∧ th'.nsid = th.nsid ∧ (clearing.locks t = true → th.stage = .alive → th'.stage = .alive)) :
    ProcessSound A' N' m clearing nspid := by
  refine ⟨?_, ?_, fun k t hk => hN _ _ (h.named k t hk), ?_, ?_, ?_, ?_⟩
  · intro t th' h'
    obtain ⟨th, hth, hn⟩ := back t th' h'
    rw [← hn]
    exact h.own t th hth
  · intro t th t' th' h1 h2 hn
    obtain ⟨a, ha, hna⟩ := back t th h1
    obtain ⟨b, hb, hnb⟩ := back t' th' h2
    exact h.unique t a t' b ha hb (hna.trans (hn.trans hnb.symm))
  · intro k t hget
    refine (h.entry k t hget).imp_left ?_
    rintro ⟨th, hth⟩
    obtain ⟨th', hth', -⟩ := fwd t th hth
    exact ⟨th', hth'⟩
  · intro it o main hf
    obtain ⟨t, th, rfl, hth, hal, hget⟩ := h.found it o main hf
    obtain ⟨th', hth', -, hal'⟩ := fwd t th hth
    have hlock : clearing.locks t = true := by simp [Clearing.locks, hf, Clearing.thread]
    exact ⟨t, th', rfl, hth', hal' hlock hal, hget⟩
  · intro it o main hp
    obtain ⟨t, rfl, hget, hm⟩ := h.passed it o main hp
    refine ⟨t, rfl, hget, hm.imp_right fun hno th' h' => ?_⟩
    obtain ⟨th, hth, -⟩ := back t th' h'
    exact hno th hth
  · intro t hm
    obtain ⟨th, hth, hal, hn⟩ := h.main t hm
    obtain ⟨th', hth', hn', hal'⟩ := fwd t th hth
    have hlock : clearing.locks t = true := by simp [Clearing.locks, hm]
    exact ⟨th', hth', hal' hlock hal, hn'.trans hn⟩

/-- A thread is registered under an NSID that is not in use. -/
theorem register (h : ProcessSound A N m clearing nspid) {t : Nat} {th : Thread π}
    (hA : ∀ t' th', A' t' th' ↔ (t' = t ∧ th' = th) ∨ A t' th') (hN : N t = some th.nsid)
    (hget : m.get th.nsid = none) (hfree : ∀ t' th', A t' th' → th'.nsid ≠ th.nsid) :
    ProcessSound A' N (m.enter th.nsid t) clearing nspid := by
  have hne {k u : Nat} (hk : m.get k = some u) : k ≠ th.nsid := by
    rintro rfl
    rw [hget] at hk
    cases hk
  have hkeep {k u : Nat} (hk : m.get k = some u) : (m.enter th.nsid t).get k = some u := by
    rw [Entries.get_enter, if_neg (hne hk)]
    exact hk
  refine ⟨?_, ?_, ?_, ?_, ?_, ?_, ?_⟩
  · intro u x hx
    rcases (hA u x).1 hx with ⟨rfl, rfl⟩ | hx
    · exact .inl (by rw [Entries.get_enter, if_pos rfl])
    · exact (h.own u x hx).imp_left hkeep
  · intro u x v y hx hy hn
    rcases (hA u x).1 hx with ⟨rfl, rfl⟩ | hx <;> rcases (hA v y).1 hy with ⟨rfl, rfl⟩ | hy
    · rfl
    · exact absurd hn.symm (hfree v y hy)
    · exact absurd hn (hfree u x hx)
    · exact h.unique u x v y hx hy hn
  · intro k u hk
    rcases Entries.of_get_enter hk with ⟨rfl, rfl⟩ | hk
    · exact hN
    · exact h.named k u hk
  · intro k u hk
    rcases Entries.of_get_enter hk with ⟨rfl, rfl⟩ | hk
    · exact .inl ⟨th, (hA _ _).2 (.inl ⟨rfl, rfl⟩)⟩
    · refine (h.entry k u hk).imp_left ?_
      rintro ⟨x, hx⟩
      exact ⟨x, (hA u x).2 (.inr hx)⟩
  · intro it o main hf
    obtain ⟨u, x, rfl, hx, hal, hk⟩ := h.found it o main hf
    exact ⟨u, x, rfl, (hA u x).2 (.inr hx), hal, hkeep hk⟩
  · intro it o main hp
    obtain ⟨u, rfl, hk, hm⟩ := h.passed it o main hp
    refine ⟨u, rfl, hkeep hk, hm.imp_right fun hno x hx => ?_⟩
    rcases (hA u x).1 hx with ⟨rfl, rfl⟩ | hx
    · -- it has an entry already, and that is under its NSID
      exact hne hk (Option.some.inj ((h.named it u hk).symm.trans hN))
    · exact hno x hx
  · intro u hm
    obtain ⟨x, hx, hal, hn⟩ := h.main u hm
    exact ⟨x, (hA u x).2 (.inr hx), hal, hn⟩

/-- A thread that nobody has locked takes its own entry off the map. -/
theorem destroy (h : ProcessSound A N m clearing nspid) {t : Nat} {th : Thread π}
    (hA : ∀ t' th', A' t' th' ↔ t' ≠ t ∧ A t' th') (ht : A t th) (hs : th.stage ≠ .alive)
    (hone : ∀ th', A t th' → th' = th) : ProcessSound A' N (m.remove th.nsid) clearing nspid := by
  have hmain {u : Nat} (hu : clearing.mainThread = some u) : u ≠ t := by
    rintro rfl
    obtain ⟨x, hx, hal, -⟩ := h.main u hu
    exact hs (hone x hx ▸ hal)
  have hget : m.get th.nsid = some t := (h.own t th ht).resolve_right fun hm => hmain hm rfl
  have hkeep {k u : Nat} (hk : m.get k = some u) (hu : u ≠ t) : (m.remove th.nsid).get k = some u := by
    rw [Entries.get_remove, if_neg]
    · exact hk
    · rintro rfl
      rw [hget] at hk
      exact hu (Option.some.inj hk).symm
  refine ⟨?_, ?_, ?_, ?_, ?_, ?_, ?_⟩
  · intro u x hx
    obtain ⟨hu, hx⟩ := (hA u x).1 hx
    exact (h.own u x hx).imp_left fun hk => hkeep hk hu
  · intro u x v y hx hy
    exact h.unique u x v y ((hA u x).1 hx).2 ((hA v y).1 hy).2
  · intro k u hk
    exact h.named k u (Entries.of_get_remove hk).2
  · intro k u hk
    obtain ⟨hkn, hk⟩ := Entries.of_get_remove hk
    refine (h.entry k u hk).imp_left ?_
    rintro ⟨x, hx⟩
    refine ⟨x, (hA u x).2 ⟨?_, hx⟩⟩
    rintro rfl
    -- its one entry is under its NSID
    have := (h.named k u hk).symm.trans (h.named th.nsid u hget)
    exact hkn (Option.some.inj this)
  · intro it o main hf
    obtain ⟨u, x, rfl, hx, hal, hk⟩ := h.found it o main hf
    have hu : u ≠ t := by
      rintro rfl
      exact hs (hone x hx ▸ hal)
    exact ⟨u, x, rfl, (hA u x).2 ⟨hu, hx⟩, hal, hkeep hk hu⟩
  · intro it o main hp
    obtain ⟨u, rfl, hk, hm⟩ := h.passed it o main hp
    have hu : u ≠ t := by
      rintro rfl
      rcases hm with rfl | hno
      · exact hmain (by rw [hp]; rfl) rfl
      · exact hno th ht
    exact ⟨u, rfl, hkeep hk hu, hm.imp_right fun hno x hx => hno x ((hA u x).1 hx).2⟩
  · intro u hm
    obtain ⟨x, hx, hal, hn⟩ := h.main u hm
    exact ⟨x, (hA u x).2 ⟨hmain hm, hx⟩, hal, hn⟩

/-- Outside of an iteration the entries are those of the process's own threads. -/
theorem entry_of_not_passed (h : ProcessSound A N m clearing nspid) (hc : ∀ it o main, clearing ≠ .passed it o main)
    {k t : Nat} (hk : m.get k = some t) : ∃ th, A t th :=
  (h.entry k t hk).resolve_right fun ⟨main, hp⟩ => hc _ _ main hp

/-- Between iterations of a replacement, and without one. -/
theorem between (hf : ∀ it o main, clearing ≠ .found it o main) (hp : ∀ it o main, clearing ≠ .passed it o main)
    (own : ∀ t th, A t th → m.get th.nsid = some t ∨ clearing.mainThread = some t)
    (unique : ∀ t th t' th', A t th → A t' th' → th.nsid = th'.nsid → t = t')
    (named : ∀ k t, m.get k = some t → N t = some k) (entry : ∀ k t, m.get k = some t → ∃ th, A t th)
    (main : ∀ t, clearing.mainThread = some t → ∃ th, A t th ∧ th.stage = .alive ∧ th.nsid = nspid) :
    ProcessSound A N m clearing nspid where
  own := own
  unique := unique
  named := named
  entry k t hk := .inl (entry k t hk)
  found it o main hc := absurd hc (hf it o main)
  passed it o main hc := absurd hc (hp it o main)
  main := main

theorem clearBegin (h : ProcessSound A N m .idle nspid) : ProcessSound A N m (.scanning none) nspid := by
  refine between (by simp) (by simp) ?_ h.unique h.named ?_ ?_
  · intro t th hth
    exact (h.own t th hth).imp_right fun hm => by cases hm
  · intro k t hk
    exact h.entry_of_not_passed (by simp) hk
  · intro t hm
    cases hm

theorem clearFind {it t : Nat} {o main : Option Nat} (h : ProcessSound A N m (.scanning main) nspid)
    (hk : m.get it = some t) (ho : o = some t) (hal : ∀ th, A t th → th.stage = .alive) :
    ProcessSound A N m (.found it o main) nspid := by
  refine ⟨h.own, h.unique, h.named, ?_, ?_, ?_, h.main⟩
  · intro k u hku
    exact .inl (h.entry_of_not_passed (by simp) hku)
  · intro it' o' main' hc
    cases hc
    obtain ⟨th, hth⟩ := h.entry_of_not_passed (by simp) hk
    exact ⟨t, th, ho, hth, hal th hth, hk⟩
  · intro it' o' main' hc
    cases hc

/-- The main thread is remembered; there was none before, or it was the same. -/
theorem clearPass_main {it t : Nat} {main : Option Nat} {th : Thread π}
    (h : ProcessSound A N m (.found it (some t) main) nspid) (ht : A t th) (hal : th.stage = .alive)
    (hn : th.nsid = nspid) (hk : m.get it = some t) :
    ProcessSound A N m (.passed it (some t) (some t)) nspid := by
  refine ⟨?_, h.unique, h.named, ?_, ?_, ?_, ?_⟩
  · intro u x hx
    refine (h.own u x hx).imp_right fun hm => ?_
    obtain ⟨y, hy, -, hyn⟩ := h.main u hm
    exact congrArg some (h.unique t th u y ht hy (hn.trans hyn.symm))
  · intro k u hku
    exact .inl (h.entry_of_not_passed (by simp) hku)
  · intro it' o' main' hc
    cases hc
  · intro it' o' main' hc
    cases hc
    exact ⟨t, rfl, hk, .inl rfl⟩
  · intro u hm
    cases hm
    exact ⟨th, ht, hal, hn⟩

/-- Another thread is dismissed. -/
theorem clearPass_other {it t : Nat} {main : Option Nat} {th : Thread π}
    (h : ProcessSound A N m (.found it (some t) main) nspid) (hA : ∀ t' th', A' t' th' ↔ t' ≠ t ∧ A t' th')
    (hone : ∀ th', A t th' → th' = th) (hn : th.nsid ≠ nspid) (hk : m.get it = some t) :
    ProcessSound A' N m (.passed it (some t) main) nspid := by
  refine ⟨?_, ?_, h.named, ?_, ?_, ?_, ?_⟩
  · intro u x hx
    exact h.own u x ((hA u x).1 hx).2
  · intro u x v y hx hy
    exact h.unique u x v y ((hA u x).1 hx).2 ((hA v y).1 hy).2
  · intro k u hku
    by_cases hu : u = t
    · subst hu
      have hki : k = it := Option.some.inj ((h.named k u hku).symm.trans (h.named it u hk))
      exact .inr ⟨main, by rw [hki]⟩
    · obtain ⟨x, hx⟩ := h.entry_of_not_passed (by simp) hku
      exact .inl ⟨x, (hA u x).2 ⟨hu, hx⟩⟩
  · intro it' o' main' hc
    cases hc
  · intro it' o' main' hc
    cases hc
    exact ⟨t, rfl, hk, .inr fun x hx => ((hA t x).1 hx).1 rfl⟩
  · intro u hm
    obtain ⟨x, hx, hal, hxn⟩ := h.main u hm
    refine ⟨x, (hA u x).2 ⟨?_, hx⟩, hal, hxn⟩
    rintro rfl
    exact hn (hone x hx ▸ hxn)

theorem clearErase {it : Nat} {o main : Option Nat} (h : ProcessSound A N m (.passed it o main) nspid) :
    ProcessSound A N (m.remove it) (.scanning main) nspid := by
  obtain ⟨t, rfl, hk, hm⟩ := h.passed it o main rfl
  refine between (by simp) (by simp) ?_ h.unique ?_ ?_ h.main
  · intro u x hx
    rcases h.own u x hx with hku | hmu
    · by_cases hxn : x.nsid = it
      · -- the thread that was passed: it is not the process's any more, or remembered
        rw [hxn, hk] at hku
        cases hku
        exact hm.elim .inr fun hno => absurd hx (hno x)
      · exact .inl (by rw [Entries.get_remove, if_neg hxn]; exact hku)
    · exact .inr hmu
  · intro k u hku
    exact h.named k u (Entries.of_get_remove hku).2
  · intro k u hku
    obtain ⟨hki, hku⟩ := Entries.of_get_remove hku
    refine (h.entry k u hku).resolve_right ?_
    rintro ⟨main', hp⟩
    cases hp
    exact hki rfl

/-- The map is empty, so every thread the process still has is the main thread. -/
theorem clearEnd_main {t : Nat} {th : Thread π} (h : ProcessSound A N [] (.scanning (some t)) nspid) (ht : A t th)
    (hN : N t = some th.nsid) (hone : ∀ th', A t th' → th' = th) :
    ProcessSound A N (Entries.enter [] th.nsid t) .idle nspid := by
  have hself : ∀ u x, A u x → u = t := by
    intro u x hx
    rcases h.own u x hx with hk | hm
    · cases hk
    · exact (Option.some.inj hm).symm
  have hentry {k u : Nat} (hk : (Entries.enter [] th.nsid t).get k = some u) : k = th.nsid ∧ u = t :=
    (Entries.of_get_enter hk).resolve_right fun hnil => by cases hnil
  refine between (by simp) (by simp) ?_ h.unique ?_ ?_ ?_
  · intro u x hx
    obtain rfl := hself u x hx
    obtain rfl := hone x hx
    exact .inl (by rw [Entries.get_enter, if_pos rfl])
  · intro k u hk
    obtain ⟨rfl, rfl⟩ := hentry hk
    exact hN
  · intro k u hk
    obtain ⟨-, rfl⟩ := hentry hk
    exact ⟨th, ht⟩
  · intro u hm
    cases hm

theorem clearEnd_none (h : ProcessSound A N [] (.scanning none) nspid) : ProcessSound A N [] .idle nspid := by
  have hno : ∀ t th, ¬ A t th := by
    intro t th hth
    rcases h.own t th hth with hk | hm
    · cases hk
    · cases hm
  refine between (by simp) (by simp) (fun t th hth => absurd hth (hno t th)) h.unique h.named ?_ ?_
  · intro k t hk
    cases hk
  · intro t hm
    cases hm

end ProcessSound

/-! ## All processes -/

/-- A registered thread that still has its process. -/
def Attached (s : State π) (p : π) (t : Nat) (th : Thread π) : Prop :=
  s.thread t = some th ∧ th.process = some p ∧ th.isRegistered = true

def State.nsidOf (s : State π) (t : Nat) : Option Nat := (s.thread t).map Thread.nsid

structure Sound (c : Config π) (s : State π) : Prop where
  made : ∀ t th, s.thread t = some th → t < s.made
  fine : ∀ t th, s.thread t = some th → th.stage ≠ .threw ∧ (th.origin.isRunner = true → th.stage = .alive)
  process : ∀ p, ProcessSound (Attached s p) s.nsidOf (s.threads p) (s.clearing p) (c.nsid p)

section

omit [DecidableEq π]

variable {c : Config π} {s s' : State π} {p : π} {t : Nat} {th th' : Thread π}

theorem Attached.eq (h : Attached s p t th) (ht : s.thread t = some th') : th = th' :=
  Option.some.inj (h.1.symm.trans ht)

@[simp] theorem setThread_thread_self (s : State π) (t : Nat) (th : Thread π) :
    (s.setThread t th).thread t = some th := Function.update_self ..

theorem setThread_thread_ne {t t' : Nat} (h : t' ≠ t) (s : State π) (th : Thread π) :
    (s.setThread t th).thread t' = s.thread t' := Function.update_of_ne h ..

/-- A thread keeps its NSID. -/
theorem nsidOf_setThread (ht : s.thread t = some th) (hn : th'.nsid = th.nsid) :
    (s.setThread t th').nsidOf = s.nsidOf := by
  funext u
  unfold State.nsidOf
  by_cases hu : u = t
  · subst hu
    rw [setThread_thread_self, ht]
    exact congrArg some hn
  · rw [setThread_thread_ne hu]

theorem attached_setThread_ne {t' : Nat} (hne : t' ≠ t) :
    Attached (s.setThread t th) p t' th' ↔ Attached s p t' th' := by
  unfold Attached
  rw [setThread_thread_ne hne]

theorem attached_setThread_self :
    Attached (s.setThread t th) p t th' ↔ th' = th ∧ th.process = some p ∧ th.isRegistered = true := by
  unfold Attached
  rw [setThread_thread_self]
  constructor
  · rintro ⟨he, hp, hr⟩
    cases he
    exact ⟨rfl, hp, hr⟩
  · rintro ⟨rfl, hp, hr⟩
    exact ⟨rfl, hp, hr⟩

/-- A thread that is attached neither before nor after is all that changes. -/
theorem attached_setThread_of_not (ho : ∀ th', ¬ Attached s p t th')
    (hn : th.process ≠ some p ∨ th.isRegistered = false) (u : Nat) (x : Thread π) :
    Attached (s.setThread t th) p u x ↔ Attached s p u x := by
  by_cases hu : u = t
  · subst hu
    refine iff_of_false (fun h => ?_) (ho x)
    obtain ⟨-, hp, hr⟩ := attached_setThread_self.1 h
    rcases hn with hn | hn
    · exact hn hp
    · rw [hn] at hr
      cases hr
  · exact attached_setThread_ne hu

/-- A thread that is no longer attached is gone from the process's own. -/
theorem attached_setThread_gone (hn : th.process ≠ some p ∨ th.isRegistered = false) (u : Nat) (x : Thread π) :
    Attached (s.setThread t th) p u x ↔ u ≠ t ∧ Attached s p u x := by
  by_cases hu : u = t
  · subst hu
    refine iff_of_false (fun h => ?_) fun h => h.1 rfl
    obtain ⟨-, hp, hr⟩ := attached_setThread_self.1 h
    rcases hn with hn | hn
    · exact hn hp
    · rw [hn] at hr
      cases hr
  · rw [attached_setThread_ne hu]
    exact (and_iff_right hu).symm

theorem made_setThread (h : Sound c s) (ht : s.thread t = some th) :
    ∀ u x, (s.setThread t th').thread u = some x → u < s.made := by
  intro u x hx
  by_cases hu : u = t
  · subst hu
    exact h.made _ _ ht
  · rw [setThread_thread_ne hu] at hx
    exact h.made u x hx

theorem fine_setThread (h : Sound c s) (hs : th.stage ≠ .threw)
    (hr : th.origin.isRunner = true → th.stage = .alive) :
    ∀ u x, (s.setThread t th).thread u = some x → x.stage ≠ .threw ∧ (x.origin.isRunner = true → x.stage = .alive) := by
  intro u x hx
  by_cases hu : u = t
  · subst hu
    rw [setThread_thread_self] at hx
    cases hx
    exact ⟨hs, hr⟩
  · rw [setThread_thread_ne hu] at hx
    exact h.fine u x hx

/-- A runner is not registered, and is alive from the start. -/
theorem Sound.not_runner (h : Sound c s) (ht : s.thread t = some th) (hs : th.stage ≠ .alive) :
    th.origin.isRunner = false := by
  cases hr : th.origin.isRunner with
  | false => rfl
  | true => exact absurd ((h.fine t th ht).2 hr) hs

/-- Processes whose threads, map and replacement are as before. -/
theorem Sound.elsewhere (h : Sound c s) (hA : ∀ u x, Attached s' p u x ↔ Attached s p u x) (hN : s'.nsidOf = s.nsidOf)
    (hm : s'.threads p = s.threads p) (hc : s'.clearing p = s.clearing p) :
    ProcessSound (Attached s' p) s'.nsidOf (s'.threads p) (s'.clearing p) (c.nsid p) := by
  have hA : Attached s' p = Attached s p := by
    funext u x
    exact propext (hA u x)
  rw [hA, hN, hm, hc]
  exact h.process p

theorem sound_init (h : init s) : Sound c s := by
  subst h
  have hno : ∀ (p : π) t th, ¬ Attached ({} : State π) p t th := fun p t th h => by cases h.1
  refine ⟨?_, ?_, fun p => .between (by simp) (by simp) ?_ ?_ ?_ ?_ ?_⟩
  · intro t th h
    cases h
  · intro t th h
    cases h
  · exact fun t th h => absurd h (hno p t th)
  · exact fun t th t' th' h => absurd h (hno p t th)
  · intro k t h
    cases h
  · intro k t h
    cases h
  · intro t h
    cases h

/-- A thread that is made is not registered. -/
theorem Sound.make (h : Sound c s) (hs : th.stage ≠ .threw) (hr : th.origin.isRunner = true → th.stage = .alive)
    (hn : th.isRegistered = false) : Sound c (s.make th) := by
  have hnew : s.thread s.made = none := by
    cases hm : s.thread s.made with
    | none => rfl
    | some x => exact absurd (h.made _ _ hm) (Nat.lt_irrefl _)
  have hold : ∀ p th', ¬ Attached s p s.made th' := by
    intro p th' hth
    rw [hth.1] at hnew
    cases hnew
  refine ⟨?_, fine_setThread h hs hr, fun p => ?_⟩
  · intro t x hx
    by_cases ht : t = s.made
    · subst ht
      exact Nat.lt_succ_self _
    · have hx : (s.setThread s.made th).thread t = some x := hx
      rw [setThread_thread_ne ht] at hx
      exact Nat.lt_succ_of_lt (h.made t x hx)
  · have hA := attached_setThread_of_not (hold p) (.inr hn)
    refine (h.process p).relabel ?_ ?_ ?_
    · intro t n ht
      have hne : t ≠ s.made := by
        rintro rfl
        rw [State.nsidOf, hnew] at ht
        cases ht
      show (s.setThread s.made th).nsidOf t = some n
      rw [State.nsidOf, setThread_thread_ne hne]
      exact ht
    · exact fun t x hx => ⟨x, (hA t x).1 hx, rfl⟩
    · exact fun t x hx => ⟨x, (hA t x).2 hx, rfl, fun _ hal => hal⟩

end

variable {c : Config π} {s s' : State π} {p : π} {t : Nat}

theorem setThreads_self (s : State π) (p : π) : s.setThreads p (s.threads p) = s := by
  unfold State.setThreads
  rw [Function.update_eq_self]

theorem setClearing_self (s : State π) (p : π) : s.setClearing p (s.clearing p) = s := by
  unfold State.setClearing
  rw [Function.update_eq_self]

/-- A step of one process that leaves the threads as they are. -/
theorem Sound.replace (h : Sound c s) {m : Entries} {clearing : Clearing}
    (hp : ProcessSound (Attached s p) s.nsidOf m clearing (c.nsid p)) :
    Sound c ((s.setThreads p m).setClearing p clearing) := by
  refine ⟨h.made, h.fine, fun q => ?_⟩
  by_cases hq : q = p
  · subst hq
    show ProcessSound _ _ (Function.update s.threads q m q) (Function.update s.clearing q clearing q) _
    rw [Function.update_self, Function.update_self]
    exact hp
  · exact h.elsewhere (fun _ _ => Iff.rfl) rfl (Function.update_of_ne hq ..) (Function.update_of_ne hq ..)

/-- A step of one process that changes one of its threads, which does not go to another. -/
theorem Sound.alter (h : Sound c s) {th th' : Thread π} {m : Entries} {clearing : Clearing}
    (hdone : ProcessSound (Attached (s.setThread t th') p) s.nsidOf m clearing (c.nsid p))
    (ht : s.thread t = some th) (hp : th.process = some p) (hp' : ∀ q, th'.process = some q → q = p)
    (hn : th'.nsid = th.nsid) (hs : th'.stage ≠ .threw) (hr : th'.origin.isRunner = true → th'.stage = .alive) :
    Sound c (((s.setThread t th').setThreads p m).setClearing p clearing) := by
  have hN : (s.setThread t th').nsidOf = s.nsidOf := nsidOf_setThread ht hn
  refine ⟨made_setThread h ht, fine_setThread h hs hr, fun q => ?_⟩
  by_cases hq : q = p
  · subst hq
    show ProcessSound _ (s.setThread t th').nsidOf (Function.update s.threads q m q)
      (Function.update s.clearing q clearing q) _
    rw [Function.update_self, Function.update_self, hN]
    exact hdone
  · refine h.elsewhere (attached_setThread_of_not ?_ (.inl fun hth' => hq (hp' q hth'))) hN
      (Function.update_of_ne hq ..) (Function.update_of_ne hq ..)
    intro x hx
    have hxq := hx.2.1
    rw [hx.eq ht, hp] at hxq
    exact hq (Option.some.inj hxq).symm

theorem Sound.release (h : Sound c s) (hg : heeded s (.release t) = true) (hst : s.release t = some s') :
    Sound c s' := by
  unfold State.release at hst
  split at hst
  · rename_i origin process nsid ht
    have hrun : origin.isRunner = false := by simpa [heeded, ht] using hg
    split at hst
    · cases hst
    · rename_i hc
      cases hst
      simp only [Bool.or_eq_true, decide_eq_true_eq, not_or, Bool.not_eq_true] at hc
      have hold {q : π} {x : Thread π} (hx : Attached s q t x) : x = ⟨origin, process, nsid, .alive⟩ := hx.eq ht
      have hN : (s.setThread t ⟨origin, process, nsid, .dying⟩).nsidOf = s.nsidOf := nsidOf_setThread ht rfl
      refine ⟨made_setThread h ht, fine_setThread h (by simp) (fun hr => ?_), fun q => ?_⟩
      · rw [hrun] at hr
        cases hr
      · refine (h.process q).relabel (fun u n hu => by rw [hN]; exact hu) ?_ ?_
        · intro u x hx
          by_cases hu : u = t
          · subst hu
            obtain ⟨rfl, hxp, -⟩ := attached_setThread_self.1 hx
            exact ⟨_, ⟨ht, hxp, by simp [Thread.isRegistered, hrun]⟩, rfl⟩
          · exact ⟨x, (attached_setThread_ne hu).1 hx, rfl⟩
        · intro u x hx
          by_cases hu : u = t
          · subst hu
            have hxq := hx.2.1
            obtain rfl := hold hx
            refine ⟨_, attached_setThread_self.2 ⟨rfl, hxq, by simp [Thread.isRegistered, hrun]⟩, rfl, fun hl => ?_⟩
            have hxq : process = some q := hxq
            simp [hxq, hl] at hc
          · exact ⟨x, (attached_setThread_ne hu).2 hx, rfl, fun _ hal => hal⟩
  · cases hst

omit [DecidableEq π] in
/-- A thread whose destructor is about to run was registered. -/
theorem Sound.dying_attached (h : Sound c s) {th : Thread π} (ht : s.thread t = some th) (hs : th.stage = .dying)
    (hp : th.process = some p) : Attached s p t th := by
  have hrun := h.not_runner ht (by simp [hs])
  exact ⟨ht, hp, by simp [Thread.isRegistered, hrun, hs]⟩

omit [DecidableEq π] in
/-- A destructor that is about to run finds its own entry. -/
theorem Sound.dying_entry (h : Sound c s) {th : Thread π} (ht : s.thread t = some th) (hs : th.stage = .dying)
    (hp : th.process = some p) : (s.threads p).get th.nsid = some t := by
  refine ((h.process p).own t th (h.dying_attached ht hs hp)).resolve_right fun hm => ?_
  obtain ⟨x, hx, hal, -⟩ := (h.process p).main t hm
  obtain rfl := hx.eq ht
  rw [hs] at hal
  cases hal

theorem Sound.destroy (h : Sound c s) (hst : s.destroy t = some s') : Sound c s' := by
  unfold State.destroy at hst
  split at hst
  · rename_i origin nsid ht
    cases hst
    have hrun : origin.isRunner = false := h.not_runner ht (by simp)
    have hN : (s.setThread t ⟨origin, none, nsid, .destroyed⟩).nsidOf = s.nsidOf := nsidOf_setThread ht rfl
    refine ⟨made_setThread h ht, fine_setThread h (by simp) (by simp [hrun]), fun q => ?_⟩
    refine h.elsewhere (attached_setThread_of_not ?_ (.inl (by simp))) hN rfl rfl
    intro x hx
    have hxq := hx.2.1
    rw [hx.eq ht] at hxq
    cases hxq
  · rename_i origin p nsid ht
    have hrun : origin.isRunner = false := h.not_runner ht (by simp)
    have hget := h.dying_entry ht rfl rfl
    split at hst
    · cases hst
    · split at hst
      · rename_i hnone
        rw [hget] at hnone
        cases hnone
      · cases hst
        have hreg : Thread.isRegistered ⟨origin, some p, nsid, .destroyed⟩ = false := by simp [Thread.isRegistered]
        have hdone := (h.process p).destroy (attached_setThread_gone (.inr hreg)) (h.dying_attached ht rfl rfl)
          (by simp) fun x hx => hx.eq ht
        have hs := h.alter hdone ht rfl (by simp) rfl (by simp) (by simp [hrun])
        exact setClearing_self (State.setThreads _ p _) p ▸ hs
  · cases hst

/-- What is not in use: no entry, and no thread of the process. -/
theorem not_inUse {nsid : Nat} (h : Sound c s) (hu : s.inUse p nsid = false) :
    (s.threads p).get nsid = none ∧ ∀ t th, Attached s p t th → th.nsid ≠ nsid := by
  obtain ⟨hget, hany⟩ := Bool.or_eq_false_iff.1 hu
  refine ⟨by simpa using hget, fun t th hth hn => ?_⟩
  have := List.any_eq_false.1 hany t (List.mem_range.2 (h.made t th hth.1))
  simp [hth.1, hth.2.1, hth.2.2, hn] at this

theorem Sound.registerWithProcess (h : Sound c s) (hg : heeded s (.registerWithProcess t) = true)
    (hst : s.registerWithProcess t = some s') : Sound c s' := by
  unfold State.registerWithProcess at hst
  split at hst
  · rename_i origin p nsid ht
    split at hst
    · cases hst
    · cases hst
      have hrun : origin.isRunner = false := h.not_runner ht (by simp)
      have hu : s.inUse p nsid = false := by simpa [heeded, ht] using hg
      obtain ⟨hget, hfree⟩ := not_inUse h hu
      have hold : ∀ x, ¬ Attached s p t x := by
        intro x hx
        have hreg := hx.2.2
        rw [hx.eq ht] at hreg
        simp [Thread.isRegistered] at hreg
      have hA : ∀ u x, Attached (s.setThread t ⟨origin, some p, nsid, .alive⟩) p u x ↔
          (u = t ∧ x = ⟨origin, some p, nsid, .alive⟩) ∨ Attached s p u x := by
        intro u x
        by_cases hu : u = t
        · subst hu
          rw [attached_setThread_self]
          constructor
          · exact fun hx => .inl ⟨rfl, hx.1⟩
          · rintro (hx | hx)
            · exact ⟨hx.2, rfl, by simp [Thread.isRegistered, hrun]⟩
            · exact absurd hx (hold x)
        · rw [attached_setThread_ne hu]
          simp [hu]
      have hdone := (h.process p).register hA (by simp [State.nsidOf, ht]) hget hfree
      have hs := h.alter hdone ht rfl (by simp) rfl (by simp) fun _ => rfl
      exact setClearing_self (State.setThreads _ p _) p ▸ hs
  · cases hst

/-! ## Replacements -/

theorem Sound.setClearing (h : Sound c s) {clearing : Clearing}
    (hp : ProcessSound (Attached s p) s.nsidOf (s.threads p) clearing (c.nsid p)) :
    Sound c (s.setClearing p clearing) := by
  have hs := h.replace hp
  rwa [setThreads_self] at hs

theorem Sound.clearFind {it : Nat} (h : Sound c s) (hg : heeded s (.clearFind p it) = true)
    (hst : s.clearFind p it = some s') : Sound c s' := by
  unfold State.clearFind at hst
  split at hst
  · rename_i main hc
    split at hst
    · rename_i t hk
      cases hst
      have hal : (s.lockEntry t).isSome = true := by simpa [heeded, hk] using hg
      have hsome : s.lockEntry t = some t ∧ ∀ x, Attached s p t x → x.stage = .alive := by
        unfold State.lockEntry at hal ⊢
        split at hal
        · rename_i th ht
          split at hal
          · rename_i hs
            refine ⟨by simp [hs], fun x hx => ?_⟩
            rw [hx.eq ht]
            exact hs
          · cases hal
        · cases hal
      have hps := h.process p
      rw [hc] at hps
      exact h.setClearing (hps.clearFind hk hsome.1 hsome.2)
    · cases hst
  · cases hst

theorem Sound.clearPass (h : Sound c s) (hst : s.clearPass c p = some s') : Sound c s' := by
  unfold State.clearPass at hst
  have hps := h.process p
  split at hst
  · rename_i it main hc
    obtain ⟨t, -, ho, -⟩ := hps.found it none main hc
    cases ho
  · rename_i it t main hc
    obtain ⟨t', x, ho, hx, hal, hk⟩ := hps.found it (some t) main hc
    cases ho
    rw [hc] at hps
    split at hst
    · rename_i th ht
      obtain rfl := hx.eq ht
      split at hst
      · rename_i hn
        cases hst
        exact h.setClearing (hps.clearPass_main hx hal hn hk)
      · rename_i hn
        cases hst
        have hA : ∀ u y, Attached (s.setThread t { x with process := none }) p u y ↔ u ≠ t ∧ Attached s p u y :=
          attached_setThread_gone (.inl (by simp))
        have hfine := h.fine t x ht
        have hdone := hps.clearPass_other hA (fun y hy => hy.eq ht) hn hk
        have hs := h.alter hdone ht hx.2.1 (by simp) rfl hfine.1 hfine.2
        have hsame := setThreads_self (s.setThread t { x with process := none }) p
        exact hsame ▸ hs
    · cases hst
  · cases hst

theorem Sound.clearErase (h : Sound c s) (hst : s.clearErase p = some s') : Sound c s' := by
  unfold State.clearErase at hst
  split at hst
  · rename_i it o main hc
    cases hst
    have hps := h.process p
    rw [hc] at hps
    exact h.replace hps.clearErase
  · cases hst

theorem Sound.clearEnd (h : Sound c s) (hst : s.clearEnd p = some s') : Sound c s' := by
  unfold State.clearEnd at hst
  split at hst
  · rename_i main hc
    have hps := h.process p
    rw [hc] at hps
    split at hst
    · rename_i hnil
      rw [hnil] at hps
      cases main with
      | none =>
        cases hst
        exact h.setClearing (hnil ▸ hps.clearEnd_none)
      | some t =>
        obtain ⟨th, hth, -, -⟩ := hps.main t rfl
        simp only [Option.bind_some, hth.1, Option.map_some, Option.some.injEq] at hst
        cases hst
        exact h.replace (hps.clearEnd_main hth (by simp [State.nsidOf, hth.1]) fun x hx => hx.eq hth.1)
    · cases hst
  · cases hst

omit [DecidableEq π] in
theorem Sound.makeKernel (h : Sound c s) {origin : Origin} {stage : Stage} (hs : stage ≠ .threw)
    (hr : origin.isRunner = true → stage = .alive)
    (hn : Thread.isRegistered ⟨origin, some c.kernelProcess, s.kernelThreadIDCounter, stage⟩ = false) :
    Sound c (s.makeKernel c origin stage) := by
  have hm : Sound c (s.make ⟨origin, some c.kernelProcess, s.kernelThreadIDCounter, stage⟩) := h.make hs hr hn
  exact ⟨hm.made, hm.fine, hm.process⟩

theorem Sound.step {l : Label π} (h : Sound c s) (hg : heeded s l = true) (hst : step c s l = some s') :
    Sound c s' := by
  cases l with
  | createUser p nsid =>
    simp only [Destruction.step] at hst
    split at hst
    · cases hst
    · cases hst
      exact h.make (by simp) (by simp [Origin.isRunner]) (by simp [Thread.isRegistered])
  | createKernel =>
    cases hst
    exact h.makeKernel (by simp) (by simp [Origin.isRunner]) (by simp [Thread.isRegistered])
  | createRunner =>
    cases hst
    have hm (permanent : Bool) : Sound c (s.makeKernel c (.runner permanent) .alive) :=
      h.makeKernel (by simp) (fun _ => rfl) (by simp [Thread.isRegistered, Origin.isRunner])
    exact ⟨(hm _).made, (hm _).fine, (hm _).process⟩
  | registerWithProcess t => exact h.registerWithProcess hg hst
  | release t => exact h.release hg hst
  | destroy t => exact h.destroy hst
  | clearBegin p =>
    simp only [Destruction.step] at hst
    split at hst
    · rename_i hc
      cases hst
      have hps := h.process p
      rw [hc.1] at hps
      exact h.setClearing hps.clearBegin
    · cases hst
  | clearEnd p => exact h.clearEnd hst
  | clearFind p it => exact h.clearFind hg hst
  | clearPass p => exact h.clearPass hst
  | clearErase p => exact h.clearErase hst

/-- If no runner of `kernelAsync` is released, no thread is registered under an NSID in
use and no replacement meets a thread that is being destroyed: a destructor that runs
with a process finds the entry that its own thread made, and none has thrown. -/
theorem destructor_finds_entry (h : Reach (step c) (fun s l => heeded s l = true) init s) :
    (∀ t th p, s.thread t = some th → th.stage = .dying → th.process = some p →
      (s.threads p).get th.nsid = some t) ∧ ∀ t th, s.thread t = some th → th.stage ≠ .threw := by
  have hs : Sound c s := h.inv (Sound c) (fun _ hi => sound_init hi) fun _ _ _ hi hg hst => hi.step hg hst
  exact ⟨fun t th p ht hd hp => hs.dying_entry ht hd hp, fun t th ht => (hs.fine t th ht).1⟩

/-- The kernel's process, and one with NSID 7. -/
def twoProcesses : Config Bool := ⟨false, fun p => if p then 7 else 0⟩

/-- A process with two threads, and a kernel thread. -/
def threeThreads : List (Label Bool) :=
  [.createUser true 7, .registerWithProcess 0, .createUser true 8, .registerWithProcess 1, .createKernel,
    .registerWithProcess 2]

/-- The process is replaced, the dismissed thread destroyed, and the main thread about to be. -/
theorem destructor_finds_entry_replaced : ∃ s : State Bool,
    s.thread 0 = some ⟨.user, some true, 7, .dying⟩ ∧ s.thread 1 = some ⟨.user, none, 8, .destroyed⟩ ∧
      (s.threads true).get 7 = some 0 := by
  have hrun : (exec (step twoProcesses) heeded {}
      (threeThreads ++ [Label.clearBegin true, .clearFind true 7, .clearPass true, .clearErase true, .clearFind true 8,
        .clearPass true, .clearErase true, .clearEnd true, .release 1, .destroy 1, .release 0])).map
      (fun s => (s.thread 0, s.thread 1)) =
        some (some ⟨.user, some true, 7, .dying⟩, some ⟨.user, none, 8, .destroyed⟩) := by decide
  obtain ⟨s, hs, hv⟩ := exists_reach (fun _ _ hg => hg) (.init (show init {} from rfl)) hrun
  simp only [Prod.mk.injEq] at hv
  exact ⟨s, hv.1, hv.2, (destructor_finds_entry hs).1 0 _ true hv.1 rfl rfl⟩

/-- A replacement meets a thread whose destructor is about to run, and erases its entry. -/
def dyingMet : List (Label Bool) :=
  threeThreads ++ [.release 1, .clearBegin true, .clearFind true 8, .clearPass true, .clearErase true,
    .clearFind true 7, .clearPass true, .clearErase true, .clearEnd true]

theorem replacement_takes_entry :
    ¬ ∀ s : State Bool, Reach (step twoProcesses) (fun _ _ => True) init s →
      ∀ t th p, s.thread t = some th → th.stage = .dying → th.process = some p →
        (s.threads p).get th.nsid = some t := by
  intro h
  have hrun : (exec (step twoProcesses) (fun _ _ => true) {} dyingMet).map
      (fun s => (s.thread 1, (s.threads true).get 8)) = some (some ⟨.user, some true, 8, .dying⟩, none) := by decide
  obtain ⟨s, hs, hv⟩ := exists_reach (fun _ _ _ => trivial) (.init (show init {} from rfl)) hrun
  simp only [Prod.mk.injEq] at hv
  have := h s hs 1 _ true hv.1 rfl rfl
  rw [hv.2] at this
  cases this

/-- The destructor then throws. -/
example : (exec (step twoProcesses) (fun _ _ => true) {} (dyingMet ++ [Label.destroy 1])).map
    (fun s => (s.thread 1).map Thread.stage) = some (some .threw) := by decide

/-- A thread takes over the NSID of one that is not destroyed yet. -/
example : (exec (step twoProcesses) (fun _ _ => true) {}
    (threeThreads ++ [Label.createUser true 8, .registerWithProcess 3, .release 1, .destroy 1, .release 3,
      .destroy 3])).map
    (fun s => (s.thread 3).map Thread.stage) = some (some .threw) := by decide

end DarlingServer.Destruction
