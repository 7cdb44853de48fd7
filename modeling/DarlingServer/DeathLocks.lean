import Mathlib.Logic.Function.Basic
import Mathlib.Data.List.Basic
import DarlingServer.Lib.Runs
import DarlingServer.Lib.RwLocks
/-!
# Locks that the death of a process takes

`Process::notifyDead` drops the channels the process owns while it has the process's
`_rwlock`. A channel that listens on another process takes that one's `_rwlock` in its
destructor, so the locks are taken along the arrows of "owns a channel that listens
on". A process that listens on itself waits for its own lock, and two that listen on
each other can wait for each other's. Nothing else holds one of these locks while it
takes another: a hang-up keeps its channel until it has let go of the owner, and the
listeners are told after the lock is released.
-/

namespace DarlingServer.DeathLocks

open Runs RwLocks

/-- The process channels of a set of processes. -/
structure Topology (ι κ : Type*) where
  owner : κ → ι
  target : κ → ι
  /-- `_kqchannels` of each process at first. -/
  owned : ι → List κ
  mem_owned : ∀ p k, k ∈ owned p ↔ owner k = p

/-- Where an execution is. The list is what is left of the copy of the listeners. -/
inductive Pc (ι κ : Type*) where
  | idle
  /-- At the start of `notifyDead`. -/
  | locking (p : ι)
  | checking (p : ι)
  /-- In `_kqchannels.clear()`, and in the destructor of one of the channels. -/
  | clearing (p : ι)
  | destroying (p : ι) (k : κ)
  | erasing (p : ι) (k : κ)
  /-- In `_notifyListeningKqchannels`. -/
  | copying (p : ι)
  | copied (p : ι)
  | notifying (rest : List κ)
  /-- A hang-up, with a reference to its channel. -/
  | hanging (k : κ)
  | unregistering (k : κ)
  /-- A reference is given up; if it was the last one, the destructor runs here. -/
  | dropping (k : κ) (rest : List κ)
  | closing (k : κ) (rest : List κ)
  | closed (k : κ) (rest : List κ)

structure State (ι κ : Type*) where
  pc : Nat → Pc ι κ := fun _ => .idle
  rwlock : Locks ι Nat := fun _ => .shared []
  dead : ι → Bool := fun _ => false
  kqchannels : ι → List κ
  listeningKqchannels : ι → List κ
  /-- References to a channel outside of its owner. -/
  references : κ → Nat := fun _ => 0

inductive Label (ι κ : Type*) where
  | notifyDead (e : Nat) (p : ι)
  | hangUp (e : Nat) (k : κ)
  /-- The lock that the execution is at. -/
  | lock (e : Nat)
  | check (e : Nat)
  | clear (e : Nat) (k : κ)
  /-- The target of the channel is gone, or the owner of one that hangs up. -/
  | expired (e : Nat)
  | erase (e : Nat)
  | cleared (e : Nat)
  | copy (e : Nat)
  | notify (e : Nat)
  | drop (e : Nat)

variable {ι κ : Type*}

/-- The locks an execution has. -/
def Pc.locks (T : Topology ι κ) : Pc ι κ → List ι
  | .checking p | .clearing p | .destroying p _ | .copied p => [p]
  | .erasing p k => [T.target k, p]
  | .unregistering k => [T.owner k]
  | .closed k _ => [T.target k]
  | _ => []

/-- The lock it is at. -/
def Pc.wants (T : Topology ι κ) : Pc ι κ → Option ι
  | .locking p | .copying p => some p
  | .destroying _ k | .closing k _ => some (T.target k)
  | .hanging k => some (T.owner k)
  | _ => none

/-- A channel is destroyed by its owner. -/
def Pc.Proper (T : Topology ι κ) : Pc ι κ → Prop
  | .destroying p k | .erasing p k => T.owner k = p
  | _ => True

variable [DecidableEq ι] [DecidableEq κ]

namespace State

def goto (s : State ι κ) (e : Nat) (x : Pc ι κ) : State ι κ := { s with pc := Function.update s.pc e x }

def unlock (s : State ι κ) (e : Nat) (p : ι) : State ι κ := { s with rwlock := s.rwlock.unlock e p }

/-- `unique_lock`, and on to `x`. -/
def lockThen (s : State ι κ) (e : Nat) (p : ι) (x : Pc ι κ) : Option (State ι κ) :=
  (s.rwlock.lock e p).map fun t => { s with rwlock := t }.goto e x

def lockSharedThen (s : State ι κ) (e : Nat) (p : ι) (x : Pc ι κ) : Option (State ι κ) :=
  (s.rwlock.lockShared e p).map fun t => { s with rwlock := t }.goto e x

def addReference (s : State ι κ) (k : κ) : State ι κ :=
  { s with references := Function.update s.references k (s.references k + 1) }

def dropReference (s : State ι κ) (k : κ) : State ι κ :=
  { s with references := Function.update s.references k (s.references k - 1) }

/-- The owner drops a channel. -/
def forget (T : Topology ι κ) (s : State ι κ) (k : κ) : State ι κ :=
  { s with kqchannels := Function.update s.kqchannels (T.owner k) ((s.kqchannels (T.owner k)).erase k) }

/-- The target drops a channel from its listeners. -/
def unlisten (T : Topology ι κ) (s : State ι κ) (k : κ) : State ι κ :=
  { s with
    listeningKqchannels :=
      Function.update s.listeningKqchannels (T.target k) ((s.listeningKqchannels (T.target k)).erase k) }

/-- `weak_ptr::lock` of a channel succeeds. -/
def referenced (T : Topology ι κ) (s : State ι κ) (k : κ) : Bool :=
  (s.kqchannels (T.owner k)).contains k || 0 < s.references k

def step (T : Topology ι κ) (s : State ι κ) : Label ι κ → Option (State ι κ)
  | .notifyDead e p =>
    match s.pc e with
    | .idle => some (s.goto e (.locking p))
    | _ => none
  | .hangUp e k =>
    match s.pc e with
    | .idle => if s.referenced T k then some ((s.addReference k).goto e (.hanging k)) else none
    | _ => none
  | .lock e =>
    match s.pc e with
    | .locking p => s.lockThen e p (.checking p)
    | .destroying p k => s.lockThen e (T.target k) (.erasing p k)
    | .copying p => s.lockSharedThen e p (.copied p)
    | .hanging k => s.lockThen e (T.owner k) (.unregistering k)
    | .closing k rest => s.lockThen e (T.target k) (.closed k rest)
    | _ => none
  | .check e =>
    match s.pc e with
    | .checking p =>
      if s.dead p then some ((s.unlock e p).goto e .idle)
      else some ({ s with dead := Function.update s.dead p true }.goto e (.clearing p))
    | _ => none
  | .clear e k =>
    match s.pc e with
    | .clearing p =>
      if k ∈ s.kqchannels p then
        -- a channel that somebody else has a reference to outlives its place in the map
        some ((s.forget T k).goto e (if s.references k = 0 then .destroying p k else .clearing p))
      else none
    | _ => none
  | .expired e =>
    match s.pc e with
    | .destroying p _ => some (s.goto e (.clearing p))
    | .hanging k => some (s.goto e (.dropping k []))
    | .closing _ rest => some (s.goto e (.notifying rest))
    | _ => none
  | .erase e =>
    match s.pc e with
    | .erasing p k => some (((s.unlisten T k).unlock e (T.target k)).goto e (.clearing p))
    | .unregistering k => some (((s.forget T k).unlock e (T.owner k)).goto e (.dropping k []))
    | .closed k rest => some (((s.unlisten T k).unlock e (T.target k)).goto e (.notifying rest))
    | _ => none
  | .cleared e =>
    match s.pc e with
    | .clearing p => if s.kqchannels p = [] then some ((s.unlock e p).goto e (.copying p)) else none
    | _ => none
  | .copy e =>
    match s.pc e with
    | .copied p => some ((s.unlock e p).goto e (.notifying (s.listeningKqchannels p)))
    | _ => none
  | .notify e =>
    match s.pc e with
    | .notifying [] => some (s.goto e .idle)
    | .notifying (k :: rest) =>
      if s.referenced T k then some ((s.addReference k).goto e (.dropping k rest))
      else some (s.goto e (.notifying rest))
    | _ => none
  | .drop e =>
    match s.pc e with
    | .dropping k rest =>
      let s := s.dropReference k
      some (s.goto e (if s.referenced T k then .notifying rest else .closing k rest))
    | _ => none

/-- Every process owns its channels, and nothing is under way. -/
def Init (T : Topology ι κ) (s : State ι κ) : Prop :=
  s.pc = (fun _ => .idle) ∧ s.rwlock = (fun _ => .shared []) ∧ s.dead = (fun _ => false) ∧ s.kqchannels = T.owned ∧
    s.references = fun _ => 0

/-! ## What is held and what is waited for -/

/-- What a step of `e` to `x` does with the locks. -/
inductive Locking (T : Topology ι κ) (t t' : Locks ι Nat) (e : Nat) (before x : Pc ι κ) : Prop
  | keeps : t' = t → before.locks T ⊆ x.locks T → Locking T t t' e before x
  | takes {p} : t.lock e p = some t' → x.locks T = p :: before.locks T → Locking T t t' e before x
  | shares {p} : t.lockShared e p = some t' → x.locks T = p :: before.locks T → Locking T t t' e before x
  | gives {p} : t' = t.unlock e p → before.locks T ⊆ p :: x.locks T → Locking T t t' e before x

/-- What a step does. -/
structure Turn (T : Topology ι κ) (s s' : State ι κ) (e : Nat) (x : Pc ι κ) : Prop where
  pc : s'.pc = Function.update s.pc e x
  proper : x.Proper T
  channels : ∀ p k, k ∈ s'.kqchannels p → k ∈ s.kqchannels p
  locking : Locking T s.rwlock s'.rwlock e (s.pc e) x

theorem mem_forget {T : Topology ι κ} {s : State ι κ} {k k' : κ} {p : ι} (h : k' ∈ (s.forget T k).kqchannels p) :
    k' ∈ s.kqchannels p := by
  by_cases hp : p = T.owner k
  · subst hp
    simp only [forget, Function.update_self] at h
    exact List.mem_of_mem_erase h
  · simpa only [forget, Function.update_of_ne hp] using h

omit [DecidableEq κ] in
theorem lockThen_turn {T : Topology ι κ} {s s' : State ι κ} {e : Nat} {p : ι} {x : Pc ι κ}
    (h : s.lockThen e p x = some s') (hx : x.Proper T) (hlocks : x.locks T = p :: (s.pc e).locks T) :
    Turn T s s' e x := by
  obtain ⟨t, ht, rfl⟩ := Option.map_eq_some_iff.1 h
  exact ⟨rfl, hx, fun _ _ hk => hk, .takes ht hlocks⟩

/-- Every step is a turn of one execution. -/
theorem step_turn {T : Topology ι κ} {s s' : State ι κ} {l : Label ι κ} (h : s.step T l = some s')
    (hproper : ∀ e, (s.pc e).Proper T) (hchannels : ∀ p k, k ∈ s.kqchannels p → T.owner k = p) :
    ∃ e x, Turn T s s' e x := by
  cases l with
  | notifyDead e p =>
    simp only [step] at h
    split at h <;> cases h
    next hpc => exact ⟨e, _, rfl, trivial, fun _ _ hk => hk, .keeps rfl (by simp [hpc, Pc.locks])⟩
  | hangUp e k =>
    simp only [step] at h
    split at h
    next hpc =>
      obtain ⟨-, h⟩ := Option.ite_none_right_eq_some.1 h
      cases h
      exact ⟨e, _, rfl, trivial, fun _ _ hk => hk, .keeps rfl (by simp [hpc, Pc.locks])⟩
    · cases h
  | lock e =>
    have hown := hproper e
    simp only [step] at h
    split at h
    next hpc => exact ⟨e, _, lockThen_turn h trivial (by simp [hpc, Pc.locks])⟩
    next hpc =>
      rw [hpc] at hown
      exact ⟨e, _, lockThen_turn h hown (by simp [hpc, Pc.locks])⟩
    next hpc =>
      obtain ⟨t, ht, rfl⟩ := Option.map_eq_some_iff.1 h
      exact ⟨e, _, rfl, trivial, fun _ _ hk => hk, .shares ht (by simp [hpc, Pc.locks])⟩
    next hpc => exact ⟨e, _, lockThen_turn h trivial (by simp [hpc, Pc.locks])⟩
    next hpc => exact ⟨e, _, lockThen_turn h trivial (by simp [hpc, Pc.locks])⟩
    · cases h
  | check e =>
    simp only [step] at h
    split at h
    next hpc =>
      split at h <;> cases h
      · exact ⟨e, _, rfl, trivial, fun _ _ hk => hk, .gives rfl (by simp [hpc, Pc.locks])⟩
      · exact ⟨e, _, rfl, trivial, fun _ _ hk => hk, .keeps rfl (by simp [hpc, Pc.locks])⟩
    · cases h
  | clear e k =>
    simp only [step] at h
    split at h
    next p hpc =>
      obtain ⟨hk, h⟩ := Option.ite_none_right_eq_some.1 h
      cases h
      refine ⟨e, _, rfl, ?_, fun _ _ hk' => mem_forget hk', .keeps rfl ?_⟩
      · split
        · exact hchannels p k hk
        · trivial
      · split <;> simp [hpc, Pc.locks]
    · cases h
  | expired e =>
    simp only [step] at h
    split at h <;> cases h <;>
      next hpc => exact ⟨e, _, rfl, trivial, fun _ _ hk => hk, .keeps rfl (by simp [hpc, Pc.locks])⟩
  | erase e =>
    simp only [step] at h
    split at h <;> cases h
    next hpc => exact ⟨e, _, rfl, trivial, fun _ _ hk => hk, .gives rfl (by simp [hpc, Pc.locks])⟩
    next hpc => exact ⟨e, _, rfl, trivial, fun _ _ hk => mem_forget hk, .gives rfl (by simp [hpc, Pc.locks])⟩
    next hpc => exact ⟨e, _, rfl, trivial, fun _ _ hk => hk, .gives rfl (by simp [hpc, Pc.locks])⟩
  | cleared e =>
    simp only [step] at h
    split at h
    next hpc =>
      obtain ⟨-, h⟩ := Option.ite_none_right_eq_some.1 h
      cases h
      exact ⟨e, _, rfl, trivial, fun _ _ hk => hk, .gives rfl (by simp [hpc, Pc.locks])⟩
    · cases h
  | copy e =>
    simp only [step] at h
    split at h <;> cases h
    next hpc => exact ⟨e, _, rfl, trivial, fun _ _ hk => hk, .gives rfl (by simp [hpc, Pc.locks])⟩
  | notify e =>
    simp only [step] at h
    split at h
    next hpc =>
      cases h
      exact ⟨e, _, rfl, trivial, fun _ _ hk => hk, .keeps rfl (by simp [hpc, Pc.locks])⟩
    next hpc =>
      split at h <;> cases h <;>
        exact ⟨e, _, rfl, trivial, fun _ _ hk => hk, .keeps rfl (by simp [hpc, Pc.locks])⟩
    · cases h
  | drop e =>
    simp only [step] at h
    split at h <;> cases h
    next hpc =>
      refine ⟨e, _, rfl, ?_, fun _ _ hk => hk, .keeps rfl (by simp [hpc, Pc.locks])⟩
      split <;> trivial

/-- Who holds a lock is where it is held, and only owners destroy channels under a lock. -/
structure Accounted (T : Topology ι κ) (s : State ι κ) : Prop where
  held : ∀ e p, s.rwlock.Holds e p → p ∈ (s.pc e).locks T
  proper : ∀ e, (s.pc e).Proper T
  channels : ∀ p k, k ∈ s.kqchannels p → T.owner k = p

omit [DecidableEq κ] in
theorem Accounted.turn {T : Topology ι κ} {s s' : State ι κ} {e : Nat} {x : Pc ι κ} (h : s.Accounted T)
    (ht : Turn T s s' e x) : s'.Accounted T where
  held := by
    intro e' p hp
    rw [ht.pc]
    by_cases he : e' = e
    · subst he
      rw [Function.update_self]
      cases ht.locking with
      | keeps htable hsub => exact hsub (h.held _ _ (htable ▸ hp))
      | takes htable hx =>
        rw [hx]
        rcases Locks.holds_lock htable hp with hold | ⟨-, rfl⟩
        · exact List.mem_cons_of_mem _ (h.held _ _ hold)
        · exact List.mem_cons_self
      | shares htable hx =>
        rw [hx]
        rcases Locks.holds_lockShared htable hp with hold | ⟨-, rfl⟩
        · exact List.mem_cons_of_mem _ (h.held _ _ hold)
        · exact List.mem_cons_self
      | gives htable hsub =>
        rw [htable] at hp
        obtain ⟨hold, hne⟩ := Locks.holds_unlock hp
        rcases List.mem_cons.1 (hsub (h.held _ _ hold)) with rfl | hx
        · exact absurd ⟨rfl, rfl⟩ hne
        · exact hx
    · rw [Function.update_of_ne he]
      cases ht.locking with
      | keeps htable hsub => exact h.held _ _ (htable ▸ hp)
      | takes htable hx =>
        rcases Locks.holds_lock htable hp with hold | ⟨rfl, -⟩
        · exact h.held _ _ hold
        · exact absurd rfl he
      | shares htable hx =>
        rcases Locks.holds_lockShared htable hp with hold | ⟨rfl, -⟩
        · exact h.held _ _ hold
        · exact absurd rfl he
      | gives htable hsub =>
        rw [htable] at hp
        exact h.held _ _ (Locks.holds_unlock hp).1
  proper := by
    intro e'
    rw [ht.pc]
    by_cases he : e' = e
    · subst he
      rw [Function.update_self]
      exact ht.proper
    · rw [Function.update_of_ne he]
      exact h.proper e'
  channels := fun p k hk => h.channels p k (ht.channels p k hk)

theorem reach_accounted {T : Topology ι κ} {s : State ι κ} (h : Reach (step T) (fun _ _ => True) (Init T) s) :
    s.Accounted T := by
  refine h.inv (Accounted T) ?_ ?_
  · rintro s ⟨hpc, hlock, -, hkq, -⟩
    refine ⟨fun e p hp => ?_, fun e => ?_, fun p k hk => ?_⟩
    · rw [hlock] at hp
      cases hp
    · rw [hpc]
      trivial
    · rw [hkq] at hk
      exact (T.mem_owned p k).1 hk
  · intro s l s' hs _ hstep
    obtain ⟨e, x, hturn⟩ := step_turn hstep hs.proper hs.channels
    exact hs.turn hturn

omit [DecidableEq ι] [DecidableEq κ] in
/-- An execution that has one lock and is at another is destroying a channel from the one to the other. -/
theorem Accounted.wait {T : Topology ι κ} {s : State ι κ} (h : s.Accounted T) {e : Nat} {p q : ι}
    (hp : s.rwlock.Holds e p) (hq : (s.pc e).wants T = some q) : ∃ k, T.owner k = p ∧ T.target k = q := by
  have hheld := h.held e p hp
  have hproper := h.proper e
  cases hpc : s.pc e with
  | destroying p' k =>
    rw [hpc] at hheld hproper hq
    refine ⟨k, ?_, Option.some.inj hq⟩
    rw [List.mem_singleton.1 hheld]
    exact hproper
  | _ => simp [hpc, Pc.locks, Pc.wants] at hheld hq

/-! ## Deadlocks -/

/-- An execution is at a lock that it has already. -/
def SelfWait (T : Topology ι κ) (s : State ι κ) : Prop := ∃ e p, s.rwlock.Holds e p ∧ (s.pc e).wants T = some p

/-- Two executions have a lock each and are at the other's. -/
def MutualWait (T : Topology ι κ) (s : State ι κ) : Prop :=
  ∃ e e' p q, e ≠ e' ∧ s.rwlock.Holds e p ∧ (s.pc e).wants T = some q ∧ s.rwlock.Holds e' q ∧
    (s.pc e').wants T = some p

end State

/-- No process listens on one that listens on it. -/
def Topology.Asymmetric (T : Topology ι κ) : Prop :=
  ∀ k k', ¬ (T.target k = T.owner k' ∧ T.target k' = T.owner k)

namespace State

theorem no_deadlock {T : Topology ι κ} {s : State ι κ} (hT : T.Asymmetric)
    (h : Reach (step T) (fun _ _ => True) (Init T) s) : ¬ s.SelfWait T ∧ ¬ s.MutualWait T := by
  have hs := reach_accounted h
  constructor
  · rintro ⟨e, p, hp, hw⟩
    obtain ⟨k, rfl, hk⟩ := hs.wait hp hw
    exact hT k k ⟨hk, hk⟩
  · rintro ⟨e, e', p, q, -, hp, hq, hq', hp'⟩
    obtain ⟨k, rfl, rfl⟩ := hs.wait hp hq
    obtain ⟨k', hk', hk⟩ := hs.wait hq' hp'
    exact hT k k' ⟨hk'.symm, hk⟩

/-- A process that nobody has locked gets to the destructor of any of its channels. -/
theorem reach_destroying {T : Topology ι κ} {s : State ι κ} (hs : Reach (step T) (fun _ _ => True) (Init T) s)
    {e : Nat} {k : κ} (hpc : s.pc e = .idle) (hlock : s.rwlock (T.owner k) = .shared [])
    (hdead : s.dead (T.owner k) = false) (hk : k ∈ s.kqchannels (T.owner k)) (href : s.references k = 0) :
    Reach (step T) (fun _ _ => True) (Init T)
      { s with
        pc := Function.update s.pc e (.destroying (T.owner k) k)
        rwlock := Function.update s.rwlock (T.owner k) (.exclusive e)
        dead := Function.update s.dead (T.owner k) true
        kqchannels := Function.update s.kqchannels (T.owner k) ((s.kqchannels (T.owner k)).erase k) } := by
  have hstart : s.step T (.notifyDead e (T.owner k)) = some (s.goto e (.locking (T.owner k))) := by
    simp [step, hpc]
  have hlocked : (s.goto e (.locking (T.owner k))).step T (.lock e) =
      some ({ s with rwlock := Function.update s.rwlock (T.owner k) (.exclusive e) }.goto e (.checking (T.owner k))) := by
    simp [step, goto, lockThen, Locks.lock_free hlock]
  have hchecked : ({ s with rwlock := Function.update s.rwlock (T.owner k) (.exclusive e) }.goto e
        (.checking (T.owner k))).step T (.check e) =
      some ({ s with
        rwlock := Function.update s.rwlock (T.owner k) (.exclusive e)
        dead := Function.update s.dead (T.owner k) true }.goto e (.clearing (T.owner k))) := by
    simp [step, goto, hdead]
  have hcleared : ({ s with
        rwlock := Function.update s.rwlock (T.owner k) (.exclusive e)
        dead := Function.update s.dead (T.owner k) true }.goto e (.clearing (T.owner k))).step T (.clear e k) =
      some { s with
        pc := Function.update s.pc e (.destroying (T.owner k) k)
        rwlock := Function.update s.rwlock (T.owner k) (.exclusive e)
        dead := Function.update s.dead (T.owner k) true
        kqchannels := Function.update s.kqchannels (T.owner k) ((s.kqchannels (T.owner k)).erase k) } := by
    simp [step, goto, forget, hk, href]
  exact .step (.step (.step (.step hs trivial hstart) trivial hlocked) trivial hchecked) trivial hcleared

/-- Everything as it is at first. -/
def initial (T : Topology ι κ) : State ι κ := { kqchannels := T.owned, listeningKqchannels := fun _ => [] }

theorem reach_initial (T : Topology ι κ) : Reach (step T) (fun _ _ => True) (Init T) (initial T) :=
  .init ⟨rfl, rfl, rfl, rfl, rfl⟩

theorem reach_selfWait {T : Topology ι κ} (k : κ) (hk : T.target k = T.owner k) :
    ∃ s, Reach (step T) (fun _ _ => True) (Init T) s ∧ s.SelfWait T := by
  have h := reach_destroying (reach_initial T) (e := 0) (k := k) rfl rfl rfl ((T.mem_owned _ k).2 rfl) rfl
  refine ⟨_, h, 0, T.owner k, Locks.holds_update, ?_⟩
  simp [Pc.wants, hk]

theorem reach_mutualWait {T : Topology ι κ} (k k' : κ) (hne : T.owner k ≠ T.owner k')
    (hk : T.target k = T.owner k') (hk' : T.target k' = T.owner k) :
    ∃ s, Reach (step T) (fun _ _ => True) (Init T) s ∧ s.MutualWait T := by
  have h := reach_destroying (reach_initial T) (e := 0) (k := k) rfl rfl rfl ((T.mem_owned _ k).2 rfl) rfl
  -- the other process goes as far, with its own lock
  have h' := reach_destroying h (e := 1) (k := k') (by simp [initial]) (by simp [initial, hne.symm])
    (by simp [initial, hne.symm]) (by simp [initial, hne.symm, T.mem_owned]) rfl
  refine ⟨_, h', 0, 1, T.owner k, T.owner k', by decide, ?_, ?_, Locks.holds_update, ?_⟩
  · simp [Locks.Holds, hne, RwLock.holds]
  · simp [Pc.wants, hk]
  · simp [Pc.wants, hk']

/-- The death of processes is free of deadlocks exactly if no process listens on one that listens on it. -/
theorem death_deadlock_free_iff (T : Topology ι κ) :
    (∀ s, Reach (step T) (fun _ _ => True) (Init T) s → ¬ s.SelfWait T ∧ ¬ s.MutualWait T) ↔ T.Asymmetric := by
  constructor
  · rintro h k k' ⟨hk, hk'⟩
    by_cases hne : T.owner k = T.owner k'
    · obtain ⟨s, hs, hwait⟩ := reach_selfWait k (hk.trans hne.symm)
      exact (h s hs).1 hwait
    · obtain ⟨s, hs, hwait⟩ := reach_mutualWait k k' hne hk hk'
      exact (h s hs).2 hwait
  · intro hT s hs
    exact no_deadlock hT hs

end State

/-- A process that listens on itself. -/
def selfListener : Topology Unit Unit where
  owner _ := ()
  target _ := ()
  owned _ := [()]
  mem_owned := by simp

/-- Two processes that listen on each other. -/
def eachOther : Topology Bool Bool where
  owner k := k
  target k := !k
  owned p := [p]
  mem_owned := by simp

theorem death_deadlocks :
    (∃ s, Reach (State.step selfListener) (fun _ _ => True) (State.Init selfListener) s ∧
      s.SelfWait selfListener) ∧
    (∃ s, Reach (State.step eachOther) (fun _ _ => True) (State.Init eachOther) s ∧ s.MutualWait eachOther) := by
  refine ⟨State.reach_selfWait () rfl, ?_⟩
  exact State.reach_mutualWait true false (by decide) rfl rfl

end DarlingServer.DeathLocks
