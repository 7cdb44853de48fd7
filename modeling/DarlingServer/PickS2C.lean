import Mathlib.Data.List.Basic
import Mathlib.Logic.Function.Basic
import DarlingServer.Destruction
/-!
# Picking a thread for an S2C call

`_pickS2CThread` takes the first thread of `_threads` that can be locked. Threads leave
that map when they are destroyed, and a thread that dies is kept by itself until its
duct-taped half is disposed of, and by whoever else has it. So what is picked is alive
exactly if every dead thread of the process has lost its last reference; the map is
unordered, and any of its threads may come first.
-/

namespace DarlingServer.PickS2C

open Runs
open Destruction (Entries)

/-- A thread, with what keeps it: the registry, itself, and references elsewhere. -/
structure Thread where
  nsid : Nat
  dead : Bool := false
  registered : Bool := true
  selfReference : Bool := false
  held : Nat := 0
  destroyed : Bool := false

/-- A process and its threads, numbered in the order they are made. -/
structure State where
  thread : Nat → Option Thread := fun _ => none
  made : Nat := 0
  threads : Entries := []
  dead : Bool := false

inductive Label where
  /-- A call from a thread that has none yet. -/
  | create (nsid : Nat)
  | hold (t : Nat)
  | drop (t : Nat)
  /-- `Thread::notifyDead` by a checkout or by the process. -/
  | notifyDead (t : Nat)
  /-- Its last statement. -/
  | unregister (t : Nat)
  | dispose (t : Nat)
  /-- `~Thread`. -/
  | destroy (t : Nat)
  /-- `Process::notifyDead`. -/
  | notifyProcessDead

namespace State

def modify (s : State) (t : Nat) (f : Thread → Thread) : State :=
  { s with thread := Function.update s.thread t ((s.thread t).map f) }

/-- `weak_ptr::lock`. -/
def lock (s : State) (t : Nat) : Option Nat :=
  match s.thread t with
  | some th => if !th.destroyed && (th.registered || th.selfReference || 0 < th.held) then some t else none
  | none => none

def isDead (s : State) (t : Nat) : Bool := (s.thread t).any Thread.dead

/-- The thread registry has a thread under the NSID. -/
def taken (s : State) (nsid : Nat) : Bool :=
  (List.range s.made).any fun t => (s.thread t).any fun th => th.registered && th.nsid == nsid

/-- `registerIfAbsent` with a new thread, and `registerWithProcess`. -/
def create (s : State) (nsid : Nat) : State :=
  { s with
    thread := Function.update s.thread s.made (some { nsid })
    made := s.made + 1
    threads := s.threads.enter nsid s.made }

/-- The destructor takes the thread's NSID off the map; the last one ends the process. -/
def destroy (s : State) (t : Nat) (nsid : Nat) : State :=
  let threads := s.threads.remove nsid
  { s.modify t (fun th => { th with destroyed := true }) with threads, dead := s.dead || threads.isEmpty }

def step (s : State) : Label → Option State
  | .create nsid => if s.taken nsid then none else some (s.create nsid)
  | .hold t => if (s.lock t).isSome then some (s.modify t fun th => { th with held := th.held + 1 }) else none
  | .drop t => if (s.thread t).any (0 < ·.held) then some (s.modify t fun th => { th with held := th.held - 1 }) else none
  | .notifyDead t =>
    if (s.lock t).isSome then
      if s.isDead t then some s else some (s.modify t fun th => { th with dead := true, selfReference := true })
    else none
  | .unregister t => if s.isDead t then some (s.modify t fun th => { th with registered := false }) else none
  | .dispose t => if s.isDead t then some (s.modify t fun th => { th with selfReference := false }) else none
  | .destroy t =>
    match s.thread t with
    | some th =>
      -- a destructor that finds no entry throws
      if th.destroyed || (s.lock t).isSome || (s.threads.get th.nsid).isNone then none else some (s.destroy t th.nsid)
    | none => none
  | .notifyProcessDead => some { s with dead := true }

def Init (s : State) : Prop := s = {}

/-- `Process::_pickS2CThread`, with the threads in the order the map has them. `current` is the
current thread if it is one of the process. -/
def pickS2CThread (s : State) (current : Option Nat) (order : Entries) : Option Nat :=
  if s.dead then none
  else
    match current with
    | some thread => some thread
    | none => order.findSome? fun e => s.lock e.2

/-- Whether `sendSignal` sends anything. -/
def sendSignal (s : State) (t : Nat) : Bool := !s.isDead t

/-! ## Threads that can be locked -/

/-- A thread that is not dead is in the registry, and what is in the map is there. -/
structure Kept (s : State) : Prop where
  alive : ∀ t th, s.thread t = some th → th.dead = false → th.registered = true ∧ th.destroyed = false
  entry : ∀ e ∈ s.threads, (s.thread e.2).isSome

theorem modify_thread (s : State) (t : Nat) (f : Thread → Thread) (t' : Nat) :
    (s.modify t f).thread t' = if t' = t then (s.thread t).map f else s.thread t' := by
  by_cases h : t' = t
  · subst h
    simp [modify]
  · simp [modify, h]

/-- A change to a thread that does not bring it back and does not take a live one away. -/
theorem Kept.modify {s : State} (h : s.Kept) {t : Nat} {f : Thread → Thread}
    (hf : ∀ th, s.thread t = some th → (f th).dead = false →
      th.dead = false ∧ (f th).registered = th.registered ∧ (f th).destroyed = th.destroyed) : (s.modify t f).Kept where
  alive := by
    intro t' th' hth' hdead
    rw [modify_thread] at hth'
    split at hth'
    · obtain ⟨th, hth, rfl⟩ := Option.map_eq_some_iff.1 hth'
      obtain ⟨halive, hreg, hdes⟩ := hf th hth hdead
      rw [hreg, hdes]
      exact h.alive t th hth halive
    · exact h.alive t' th' hth' hdead
  entry := by
    intro e he
    rw [modify_thread]
    split
    next heq => simpa [heq] using h.entry e he
    · exact h.entry e he

theorem Kept.create {s : State} (h : s.Kept) (nsid : Nat) : (s.create nsid).Kept where
  alive := by
    intro t th hth hdead
    by_cases ht : t = s.made
    · subst ht
      simp only [State.create, Function.update_self, Option.some.injEq] at hth
      subst hth
      exact ⟨rfl, rfl⟩
    · simp only [State.create, Function.update_of_ne ht] at hth
      exact h.alive t th hth hdead
  entry := by
    intro e he
    by_cases ht : e.2 = s.made
    · simp [State.create, ht]
    · simp only [State.create, Function.update_of_ne ht]
      rcases List.mem_cons.1 he with rfl | he
      · exact absurd rfl ht
      · exact h.entry e (List.mem_filter.1 he).1

/-- A thread that has lost its references was dead. -/
theorem Kept.dead_of_lock {s : State} (h : s.Kept) {t : Nat} {th : Thread} (hth : s.thread t = some th)
    (hlock : (s.lock t).isSome = false) : th.dead = true := by
  by_contra hdead
  obtain ⟨hreg, hdes⟩ := h.alive t th hth (by simpa using hdead)
  simp [lock, hth, hreg, hdes] at hlock

theorem isDead_eq {s : State} {t : Nat} {th : Thread} (hth : s.thread t = some th) : s.isDead t = th.dead := by
  simp [isDead, hth]

theorem Kept.step {s s' : State} {l : Label} (h : s.Kept) (hstep : s.step l = some s') : s'.Kept := by
  cases l with
  | create nsid =>
    obtain ⟨-, hs⟩ := Option.ite_none_left_eq_some.1 hstep
    cases hs
    exact h.create nsid
  | hold t =>
    obtain ⟨-, hs⟩ := Option.ite_none_right_eq_some.1 hstep
    cases hs
    exact h.modify fun th _ hdead => ⟨hdead, rfl, rfl⟩
  | drop t =>
    obtain ⟨-, hs⟩ := Option.ite_none_right_eq_some.1 hstep
    cases hs
    exact h.modify fun th _ hdead => ⟨hdead, rfl, rfl⟩
  | notifyDead t =>
    obtain ⟨-, hs⟩ := Option.ite_none_right_eq_some.1 hstep
    split at hs <;> cases hs
    · exact h
    · exact h.modify fun th _ hdead => nomatch hdead
  | unregister t =>
    obtain ⟨ht, hs⟩ := Option.ite_none_right_eq_some.1 hstep
    cases hs
    refine h.modify fun th hth hdead => ?_
    rw [isDead_eq hth] at ht
    exact absurd (ht.symm.trans hdead) (by decide)
  | dispose t =>
    obtain ⟨-, hs⟩ := Option.ite_none_right_eq_some.1 hstep
    cases hs
    exact h.modify fun th _ hdead => ⟨hdead, rfl, rfl⟩
  | destroy t =>
    simp only [State.step] at hstep
    split at hstep
    next th hth =>
      obtain ⟨hgone, hs⟩ := Option.ite_none_left_eq_some.1 hstep
      cases hs
      have hdead : th.dead = true := h.dead_of_lock hth (by simp_all)
      have hkept : (s.modify t fun th => { th with destroyed := true }).Kept :=
        h.modify fun th' hth' halive => by
          rw [hth, Option.some.injEq] at hth'
          subst hth'
          exact absurd (hdead.symm.trans halive) (by decide)
      exact ⟨hkept.alive, fun e he => hkept.entry e (List.mem_filter.1 he).1⟩
    · cases hstep
  | notifyProcessDead =>
    cases hstep
    exact ⟨h.alive, h.entry⟩

theorem reach_kept {s : State} (h : Reach step (fun _ _ => True) Init s) : s.Kept := by
  refine h.inv Kept ?_ fun s l s' hs _ hstep => hs.step hstep
  rintro s rfl
  exact ⟨(fun t th hth => nomatch hth), (fun e he => nomatch he)⟩

/-! ## What is picked -/

/-- A search finds what it should in every order exactly if nothing else can be found. -/
theorem findSome_perm_iff {α β : Type} [DecidableEq α] (l : List α) (f : α → Option β) (P : β → Prop) :
    (∀ order : List α, order.Perm l → ∃ b, order.findSome? f = some b ∧ P b) ↔
      (∃ x ∈ l, (f x).isSome) ∧ ∀ x ∈ l, ∀ b, f x = some b → P b := by
  constructor
  · intro h
    constructor
    · obtain ⟨b, hb, -⟩ := h l (.refl l)
      exact List.findSome?_isSome_iff.1 (by rw [hb]; rfl)
    · intro x hx b hb
      -- put it first
      obtain ⟨b', hb', hP⟩ := h (x :: l.erase x) (List.perm_cons_erase hx).symm
      rw [List.findSome?_cons, hb, Option.some.injEq] at hb'
      exact hb' ▸ hP
  · rintro ⟨⟨x, hx, hsome⟩, hall⟩ order hperm
    have hfound : (order.findSome? f).isSome := List.findSome?_isSome_iff.2 ⟨x, hperm.mem_iff.2 hx, hsome⟩
    obtain ⟨b, hb⟩ := Option.isSome_iff_exists.1 hfound
    obtain ⟨y, hy, hyb⟩ := List.exists_of_findSome?_eq_some hb
    exact ⟨b, hb, hall y (hperm.mem_iff.1 hy) b hyb⟩

theorem lock_eq {s : State} {t t' : Nat} (h : s.lock t = some t') : t' = t := by
  unfold lock at h
  split at h
  · obtain ⟨-, h⟩ := Option.ite_none_right_eq_some.1 h
    exact (Option.some.inj h).symm
  · cases h

/-- In a process that is alive and has a live thread, whatever the order of the map, a thread
of another process picks one that gets its signal exactly if no dead thread can be locked. -/
theorem pick_alive_iff {s : State} (h : Reach step (fun _ _ => True) Init s) (hdead : s.dead = false)
    (hlive : ∃ e ∈ s.threads, s.isDead e.2 = false) :
    (∀ order : Entries, order.Perm s.threads →
      ∃ t, s.pickS2CThread none order = some t ∧ s.isDead t = false ∧ s.sendSignal t = true) ↔
    ∀ e ∈ s.threads, s.isDead e.2 = true → s.lock e.2 = none := by
  have hkept := reach_kept h
  have hlockable : ∃ e ∈ s.threads, (s.lock e.2).isSome := by
    obtain ⟨e, he, halive⟩ := hlive
    obtain ⟨th, hth⟩ := Option.isSome_iff_exists.1 (hkept.entry e he)
    refine ⟨e, he, ?_⟩
    by_contra hnone
    have hgone := hkept.dead_of_lock hth (by simpa using hnone)
    rw [isDead_eq hth, hgone] at halive
    cases halive
  have hpick := findSome_perm_iff s.threads (fun e => s.lock e.2) fun t => s.isDead t = false ∧ s.sendSignal t = true
  simp only [pickS2CThread, hdead, Bool.false_eq_true, if_false]
  rw [hpick]
  constructor
  · rintro ⟨-, hall⟩ e he hd
    cases hlock : s.lock e.2 with
    | none => rfl
    | some t =>
      obtain rfl := lock_eq hlock
      rw [(hall e he _ hlock).1] at hd
      cases hd
  · intro hall
    refine ⟨hlockable, fun e he t hlock => ?_⟩
    obtain rfl := lock_eq hlock
    cases hd : s.isDead e.2 with
    | true => rw [hall e he hd] at hlock; cases hlock
    | false => exact ⟨rfl, by simp [sendSignal, hd]⟩

/-- Two threads have checked in. -/
theorem pick_alive_iff_two :
    ∃ s, Reach step (fun _ _ => True) Init s ∧ s.threads = [(11, 1), (10, 0)] ∧
    ((∀ order : Entries, order.Perm s.threads →
      ∃ t, s.pickS2CThread none order = some t ∧ s.isDead t = false ∧ s.sendSignal t = true) ↔
    ∀ e ∈ s.threads, s.isDead e.2 = true → s.lock e.2 = none) := by
  have hrun : (exec step (fun _ _ => true) {} [.create 10, .create 11]).map
      (fun s => (s.threads, s.dead, s.isDead 0)) = some ([(11, 1), (10, 0)], false, false) := rfl
  have hinit : Reach step (fun _ _ => True) Init {} := .init rfl
  obtain ⟨s, hs, hv⟩ := exists_reach (fun _ _ _ => trivial) hinit hrun
  simp only [Prod.mk.injEq] at hv
  exact ⟨s, hs, hv.1, pick_alive_iff hs hv.2.1 ⟨(10, 0), by rw [hv.1]; decide, hv.2.2⟩⟩

/-- A thread that has checked out is picked before the other one and gets no signal. -/
theorem pick_dead :
    ∃ s, Reach step (fun _ _ => True) Init s ∧ s.dead = false ∧ (∃ e ∈ s.threads, s.isDead e.2 = false) ∧
      ∃ order : Entries, order.Perm s.threads ∧ ∃ t, s.pickS2CThread none order = some t ∧ s.isDead t = true ∧
        s.sendSignal t = false := by
  have hrun : (exec step (fun _ _ => true) {} [.create 10, .create 11, .notifyDead 0, .unregister 0]).map
      (fun s => (s.threads, s.dead, s.isDead 1, s.pickS2CThread none [(10, 0), (11, 1)], s.isDead 0, s.sendSignal 0)) =
      some ([(11, 1), (10, 0)], false, false, some 0, true, false) := rfl
  have hinit : Reach step (fun _ _ => True) Init {} := .init rfl
  obtain ⟨s, hs, hv⟩ := exists_reach (fun _ _ _ => trivial) hinit hrun
  simp only [Prod.mk.injEq] at hv
  obtain ⟨hthreads, hdead, hlive, hpick, hgone, hsignal⟩ := hv
  refine ⟨s, hs, hdead, ⟨(11, 1), by rw [hthreads]; decide, hlive⟩, [(10, 0), (11, 1)], ?_, 0, hpick, hgone, hsignal⟩
  rw [hthreads]
  decide

end State

end DarlingServer.PickS2C
