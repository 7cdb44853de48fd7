import Mathlib.Logic.Function.Basic
import Mathlib.Data.List.Count
import Mathlib.Data.List.Nodup
import DarlingServer.Lib.Runs
/-!
# Listening to a process that dies

A channel is opened on a target in sections of their own: the lookup in the process
registry, the socket, the registration as a listener. `Process::notifyDead` marks
the target dead, copies its listeners, notifies the copy and takes the target out
of the registry last. A channel that is found in the registry and registered after
the copy was made is never told.
-/

namespace DarlingServer

open Runs

def noteExit : BitVec 32 := 0x80000000

/-- Where the open of a channel is. -/
inductive OpenPc where
  | idle
  /-- The target was found in the registry. -/
  | found
  /-- The socket is there. -/
  | connected
  /-- The channel is among the listeners. -/
  | registered
  | opened
  | failed
  | closed
  deriving DecidableEq

/-- Where `notifyDead` is. -/
inductive DeathPc (κ : Type*) where
  | alive
  | marked
  /-- In `_notifyListeningKqchannels`, with the rest of the copy. -/
  | notifying (listeningKqchannels : List κ)
  | notified
  | unregistered

structure Listening (κ : Type*) where
  pc : κ → OpenPc := fun _ => .idle
  death : DeathPc κ := .alive
  listeners : List κ := []
  /-- The events a channel has been notified of. -/
  received : κ → List (BitVec 32) := fun _ => []

inductive ListeningLabel (κ : Type*) where
  | lookup (k : κ)
  | connect (k : κ) (fails : Bool)
  | register (k : κ)
  | finish (k : κ)
  | close (k : κ)
  /-- Another event of the target. -/
  | notifyOther (k : κ) (event : BitVec 32)
  | notifyDead
  | snapshot
  | notify
  | unregister

namespace Listening

variable {κ : Type*} [DecidableEq κ]

/-! ## Steps -/

def goto (d : Listening κ) (k : κ) (x : OpenPc) : Listening κ := { d with pc := Function.update d.pc k x }

def receive (d : Listening κ) (k : κ) (event : BitVec 32) : Listening κ :=
  { d with received := Function.update d.received k (d.received k ++ [event]) }

def step (d : Listening κ) : ListeningLabel κ → Option (Listening κ)
  | .lookup k =>
    if d.pc k = .idle then
      match d.death with
      | .unregistered => some (d.goto k .failed)
      | _ => some (d.goto k .found)
    else none
  | .connect k fails =>
    if d.pc k = .found then some (d.goto k (if fails then .failed else .connected)) else none
  | .register k =>
    if d.pc k = .connected then some ({ d with listeners := k :: d.listeners }.goto k .registered) else none
  | .finish k => if d.pc k = .registered then some (d.goto k .opened) else none
  | .close k =>
    if d.pc k = .opened then some ({ d with listeners := d.listeners.erase k }.goto k .closed) else none
  | .notifyOther k event => if k ∈ d.listeners ∧ event ≠ noteExit then some (d.receive k event) else none
  | .notifyDead =>
    match d.death with
    | .alive => some { d with death := .marked }
    | _ => some d
  | .snapshot =>
    match d.death with
    | .marked => some { d with death := .notifying d.listeners }
    | _ => none
  | .notify =>
    match d.death with
    | .notifying [] => some { d with death := .notified }
    -- a channel that is gone is passed over
    | .notifying (k :: rest) =>
      let d := { d with death := .notifying rest }
      some (if d.pc k = .closed then d else d.receive k noteExit)
    | _ => none
  | .unregister =>
    match d.death with
    | .notified => some { d with death := .unregistered }
    | _ => none

def Init (d : Listening κ) : Prop := d = {}

def dead (d : Listening κ) : Bool :=
  match d.death with
  | .alive => false
  | _ => true

/-- Nobody is in `notifyDead` before its listeners are notified. -/
def settled (d : Listening κ) : Bool :=
  match d.death with
  | .marked | .notifying _ => false
  | _ => true

/-- The copy of the listeners has not been made. -/
def unnoticed (d : Listening κ) : Bool :=
  match d.death with
  | .alive | .marked => true
  | _ => false

/-- A channel is registered before the copy is made. -/
def heeded (d : Listening κ) : ListeningLabel κ → Bool
  | .register _ => d.unnoticed
  | _ => true

/-! ## Exits -/

def exits (d : Listening κ) (k : κ) : Nat := (d.received k).count noteExit

/-- The channels that `notifyDead` has yet to notify. -/
def pending (d : Listening κ) : List κ :=
  match d.death with
  | .notifying rest => rest
  | _ => []

def listens (d : Listening κ) (k : κ) : Bool := d.pc k = .registered || d.pc k = .opened

/-- What a step does, with what it found. -/
inductive Moves (d : Listening κ) : ListeningLabel κ → Listening κ → Prop
  /-- The open goes on, or fails, before the registration. -/
  | prepare {l k x} : d.listens k = false → x ≠ .registered → x ≠ .opened → Moves d l (d.goto k x)
  | register {k} : d.pc k = .connected →
      Moves d (.register k) ({ d with listeners := k :: d.listeners }.goto k .registered)
  | finish {k} : d.pc k = .registered → Moves d (.finish k) (d.goto k .opened)
  | close {k} : Moves d (.close k) ({ d with listeners := d.listeners.erase k }.goto k .closed)
  | notifyOther {k event} : event ≠ noteExit → Moves d (.notifyOther k event) (d.receive k event)
  | mark : d.death = .alive → Moves d .notifyDead { d with death := .marked }
  | again : Moves d .notifyDead d
  | snapshot : d.death = .marked → Moves d .snapshot { d with death := .notifying d.listeners }
  | tell {k rest} : d.death = .notifying (k :: rest) →
      Moves d .notify ({ d with death := .notifying rest }.receive k noteExit)
  | skip {k rest} : d.death = .notifying (k :: rest) → d.pc k = .closed →
      Moves d .notify { d with death := .notifying rest }
  | told : d.death = .notifying [] → Moves d .notify { d with death := .notified }
  | unregister : d.death = .notified → Moves d .unregister { d with death := .unregistered }

theorem step_moves {d d' : Listening κ} {l : ListeningLabel κ} (h : d.step l = some d') : Moves d l d' := by
  cases l with
  | lookup k =>
    obtain ⟨hp, h⟩ := Option.ite_none_right_eq_some.1 h
    split at h <;> cases h <;> exact .prepare (by simp [listens, hp]) nofun nofun
  | connect k fails =>
    obtain ⟨hp, h⟩ := Option.ite_none_right_eq_some.1 h
    cases h
    cases fails <;> exact .prepare (by simp [listens, hp]) nofun nofun
  | register k =>
    obtain ⟨hp, h⟩ := Option.ite_none_right_eq_some.1 h
    cases h
    exact .register hp
  | finish k =>
    obtain ⟨hp, h⟩ := Option.ite_none_right_eq_some.1 h
    cases h
    exact .finish hp
  | close k =>
    obtain ⟨-, h⟩ := Option.ite_none_right_eq_some.1 h
    cases h
    exact .close
  | notifyOther k event =>
    obtain ⟨hp, h⟩ := Option.ite_none_right_eq_some.1 h
    cases h
    exact .notifyOther hp.2
  | notifyDead =>
    simp only [step] at h
    split at h <;> cases h
    · exact .mark ‹_›
    · exact .again
  | snapshot =>
    simp only [step] at h
    split at h <;> cases h
    exact .snapshot ‹_›
  | notify =>
    simp only [step] at h
    split at h
    · cases h; exact .told ‹_›
    · split at h <;> cases h
      · exact .skip ‹_› ‹_›
      · exact .tell ‹_›
    · cases h
  | unregister =>
    simp only [step] at h
    split at h <;> cases h
    exact .unregister ‹_›

theorem listens_goto (d : Listening κ) (k : κ) (x : OpenPc) (j : κ) :
    (d.goto k x).listens j = if j = k then x = .registered || x = .opened else d.listens j := by
  by_cases h : j = k
  · subst h; simp [listens, goto]
  · simp [listens, goto, h]

theorem exits_receive (d : Listening κ) (k : κ) (event : BitVec 32) (j : κ) :
    (d.receive k event).exits j = d.exits j + if j = k ∧ event = noteExit then 1 else 0 := by
  by_cases h : j = k
  · subst h; simp [exits, receive, List.count_append, List.count_singleton]
  · simp [exits, receive, h]

/-- How often a channel has been told of the exit, or is going to be. -/
def owed (d : Listening κ) (k : κ) : Nat := d.exits k + d.pending.count k

theorem owed_tell {d : Listening κ} {k : κ} {rest : List κ} (hd : d.death = .notifying (k :: rest)) (j : κ) :
    ({ d with death := .notifying rest }.receive k noteExit).owed j = d.owed j := by
  have hafter : ({ d with death := .notifying rest }.receive k noteExit).pending = rest := rfl
  have hbefore : d.pending = k :: rest := by simp [pending, hd]
  rw [owed, owed, exits_receive, hafter, hbefore]
  change d.exits j + _ + _ = _
  by_cases hjk : j = k
  · subst hjk
    rw [if_pos ⟨rfl, rfl⟩, List.count_cons_self]
    omega
  · rw [if_neg fun h => hjk h.1, List.count_cons_of_ne (Ne.symm hjk), Nat.add_zero]

theorem owed_skip {d : Listening κ} {k : κ} {rest : List κ} (hd : d.death = .notifying (k :: rest)) (j : κ) :
    owed { d with death := .notifying rest } j + (if k = j then 1 else 0) = d.owed j := by
  simp only [owed, exits, pending, hd, List.count_cons, beq_iff_eq]
  omega

theorem owed_told {d : Listening κ} (hd : d.death = .notifying []) (j : κ) :
    owed { d with death := .notified } j = d.owed j := by
  simp only [owed, exits, pending, hd]

theorem owed_unregister {d : Listening κ} (hd : d.death = .notified) (j : κ) :
    owed { d with death := .unregistered } j = d.owed j := by
  simp only [owed, exits, pending, hd]

theorem owed_other (d : Listening κ) (k : κ) {event : BitVec 32} (he : event ≠ noteExit) (j : κ) :
    (d.receive k event).owed j = d.owed j := by
  simp only [owed, exits_receive, he, and_false, if_false]
  rfl

structure Counted (d : Listening κ) : Prop where
  nodup : d.listeners.Nodup
  listener : ∀ {k}, k ∈ d.listeners → d.listens k = true
  early : d.unnoticed = true → ∀ k, d.owed k = 0
  once : ∀ k, d.owed k ≤ 1

theorem counted_step {d d' : Listening κ} {l : ListeningLabel κ} (h : Moves d l d') (hi : d.Counted) : d'.Counted := by
  cases h with
  | @prepare _ k x hk hr ho =>
    refine ⟨hi.nodup, fun {j} hj => ?_, hi.early, hi.once⟩
    have hl := hi.listener hj
    have hjk : j ≠ k := fun h => by simp [h, hk] at hl
    rw [listens_goto, if_neg hjk]
    exact hl
  | @register k hk =>
    refine ⟨List.nodup_cons.2 ⟨fun hmem => ?_, hi.nodup⟩, fun {j} hj => ?_, hi.early, hi.once⟩
    · have := hi.listener hmem
      simp [listens, hk] at this
    · rw [listens_goto]
      split
      · rfl
      · exact hi.listener (List.mem_of_ne_of_mem ‹_› hj)
  | @finish k hk =>
    refine ⟨hi.nodup, fun {j} hj => ?_, hi.early, hi.once⟩
    rw [listens_goto]
    split
    · rfl
    · exact hi.listener hj
  | @close k =>
    refine ⟨hi.nodup.erase k, fun {j} hj => ?_, hi.early, hi.once⟩
    obtain ⟨hjk, hj⟩ := (hi.nodup.mem_erase_iff).1 hj
    rw [listens_goto, if_neg hjk]
    exact hi.listener hj
  | @notifyOther k _ he =>
    refine ⟨hi.nodup, hi.listener, fun hu j => ?_, fun j => ?_⟩
    · rw [owed_other d k he]
      exact hi.early hu j
    · rw [owed_other d k he]
      exact hi.once j
  | mark hd =>
    have h : ∀ j, d.owed j = 0 := hi.early (by simp [unnoticed, hd])
    have h' : ∀ j, owed { d with death := .marked } j = 0 := fun j => by simpa [owed, exits, pending, hd] using h j
    exact ⟨hi.nodup, hi.listener, fun _ => h', fun j => by simp [h' j]⟩
  | again => exact hi
  | snapshot hd =>
    -- nobody has been told, and each listener is in the copy once
    refine ⟨hi.nodup, hi.listener, nofun, fun k => ?_⟩
    have h₀ := hi.early (by simp [unnoticed, hd]) k
    have h₁ := List.nodup_iff_count_le_one.1 hi.nodup k
    change d.exits k + d.listeners.count k ≤ 1
    simp only [owed] at h₀
    omega
  | tell hd => exact ⟨hi.nodup, hi.listener, nofun, fun j => owed_tell hd j ▸ hi.once j⟩
  | skip hd =>
    refine ⟨hi.nodup, hi.listener, nofun, fun j => ?_⟩
    have := owed_skip hd j
    have := hi.once j
    omega
  | told hd => exact ⟨hi.nodup, hi.listener, nofun, fun j => owed_told hd j ▸ hi.once j⟩
  | unregister hd => exact ⟨hi.nodup, hi.listener, nofun, fun j => owed_unregister hd j ▸ hi.once j⟩

/-- Every listener is there for the copy, or is in it. -/
structure Covered (d : Listening κ) : Prop where
  early : d.unnoticed = true → ∀ k, d.listens k = true → k ∈ d.listeners
  once : d.unnoticed = false → ∀ k, d.listens k = true → d.owed k = 1

theorem covered_step {d d' : Listening κ} {l : ListeningLabel κ} (h : Moves d l d') (hc : d.Counted) (hi : d.Covered)
    (hg : d.heeded l = true) : d'.Covered := by
  cases h with
  | @prepare _ k x hk hr ho =>
    have hold : ∀ {j}, (d.goto k x).listens j = true → d.listens j = true := fun {j} hj => by
      rw [listens_goto] at hj
      split at hj
      · simp [hr, ho] at hj
      · exact hj
    exact ⟨fun hu j hj => hi.early hu j (hold hj), fun hu j hj => hi.once hu j (hold hj)⟩
  | @register k hk =>
    refine ⟨fun hu j hj => ?_, fun hu => absurd (hg.symm.trans hu) nofun⟩
    rw [listens_goto] at hj
    split at hj
    · exact ‹j = k› ▸ List.mem_cons_self
    · exact List.mem_cons_of_mem _ (hi.early hu j hj)
  | @finish k hk =>
    have hold : ∀ {j}, (d.goto k .opened).listens j = true → d.listens j = true := fun {j} hj => by
      rw [listens_goto] at hj
      split at hj
      · simp [listens, ‹j = k›, hk]
      · exact hj
    exact ⟨fun hu j hj => hi.early hu j (hold hj), fun hu j hj => hi.once hu j (hold hj)⟩
  | @close k =>
    have hold : ∀ {j}, ({ d with listeners := d.listeners.erase k }.goto k .closed).listens j = true →
        j ≠ k ∧ d.listens j = true := fun {j} hj => by
      rw [listens_goto] at hj
      split at hj
      · cases hj
      · exact ⟨‹_›, hj⟩
    exact ⟨fun hu j hj => (List.mem_erase_of_ne (hold hj).1).2 (hi.early hu j (hold hj).2),
      fun hu j hj => hi.once hu j (hold hj).2⟩
  | @notifyOther k _ he => exact ⟨hi.early, fun hu j hj => (owed_other d k he j).trans (hi.once hu j hj)⟩
  | mark hd => exact ⟨fun _ => hi.early (by simp [unnoticed, hd]), nofun⟩
  | again => exact hi
  | snapshot hd =>
    refine ⟨nofun, fun _ j hj => ?_⟩
    have hu : d.unnoticed = true := by simp [unnoticed, hd]
    have h₀ := hc.early hu j
    have h₁ := List.count_eq_one_of_mem hc.nodup (hi.early hu j hj)
    change d.exits j + d.listeners.count j = 1
    simp only [owed] at h₀
    omega
  | tell hd => exact ⟨nofun, fun _ j hj => (owed_tell hd j).trans (hi.once (by simp [unnoticed, hd]) j hj)⟩
  | @skip k rest hd hp =>
    refine ⟨nofun, fun _ j hj => ?_⟩
    have hne : k ≠ j := fun h => by
      subst h
      change d.listens k = true at hj
      simp [listens, hp] at hj
    have := owed_skip hd j
    rw [if_neg hne] at this
    exact this.trans (hi.once (by simp [unnoticed, hd]) j hj)
  | told hd => exact ⟨nofun, fun _ j hj => (owed_told hd j).trans (hi.once (by simp [unnoticed, hd]) j hj)⟩
  | unregister hd => exact ⟨nofun, fun _ j hj => (owed_unregister hd j).trans (hi.once (by simp [unnoticed, hd]) j hj)⟩

theorem counted {G : Listening κ → ListeningLabel κ → Prop} {d : Listening κ} (h : Reach step G Init d) :
    d.Counted := by
  refine h.inv Counted ?_ fun _ _ _ hi _ hst => counted_step (step_moves hst) hi
  rintro d rfl
  exact ⟨List.nodup_nil, nofun, fun _ _ => rfl, fun _ => Nat.zero_le _⟩

theorem covered {d : Listening κ} (h : Reach step (fun d l => d.heeded l = true) Init d) : d.Covered := by
  refine h.inv_with Counted Covered (fun _ => counted) ?_
    fun _ _ _ hc hi hg hst => covered_step (step_moves hst) hc hi hg
  rintro d rfl
  exact ⟨fun _ _ h => absurd h (by simp [listens]), nofun⟩

/-- A channel is told of the exit once at most, and only of a target that is dead; if it was registered before the
copy was made and stays open, it is told once `notifyDead` has notified its listeners. -/
theorem exit_noticed (d : Listening κ) :
    (Reach step (fun _ _ => True) Init d → ∀ k, d.exits k ≤ 1 ∧ (d.dead = false → d.exits k = 0)) ∧
      (Reach step (fun d l => d.heeded l = true) Init d → d.settled = true → ∀ k, d.pc k = .opened →
        d.dead = false ∨ d.exits k = 1) := by
  refine ⟨fun h k => ⟨?_, fun hd => ?_⟩, fun h hs k hk => ?_⟩
  · exact Nat.le_of_add_right_le ((counted h).once k)
  · have hu : d.unnoticed = true := by
      unfold dead at hd
      split at hd
      · simp [unnoticed, ‹d.death = _›]
      · cases hd
    have := (counted h).early hu k
    simp only [owed] at this
    omega
  · cases hd : d.death with
    | alive => exact .inl (by simp [dead, hd])
    | marked | notifying => simp [settled, hd] at hs
    | notified | unregistered =>
      have := (covered h).once (by simp [unnoticed, hd]) k (by simp [listens, hk])
      exact .inr (by simpa [owed, pending, hd] using this)

/-! ## A late registration -/

/-- The channel is registered in time. -/
def timelyOpen : List (ListeningLabel Unit) :=
  [.lookup (), .notifyDead, .connect () false, .register (), .snapshot, .finish (), .notify, .notify, .unregister]

theorem exit_noticed_timely : ∃ d : Listening Unit,
    exec step (fun d l => d.heeded l) {} timelyOpen = some d ∧ d.pc () = .opened ∧ d.dead = true ∧ d.exits () = 1 := by
  have hrun : (exec step (fun d l => d.heeded l) {} timelyOpen).map (fun d => (d.pc (), d.dead, d.settled)) =
      some (.opened, true, true) := rfl
  obtain ⟨d, hd, hv⟩ := Option.map_eq_some_iff.1 hrun
  simp only [Prod.mk.injEq] at hv
  obtain ⟨h₁, h₂, h₃⟩ := hv
  have h := (exit_noticed d).2 (exec_reach (fun _ _ hg => hg) hd (.init rfl)) h₃ () h₁
  exact ⟨d, hd, h₁, h₂, h.resolve_left (by simp [h₂])⟩

/-- The target dies between the lookup and the registration: the open succeeds and nothing tells the channel. -/
theorem exit_missed : ∃ d : Listening Unit, Reach step (fun _ _ => True) Init d ∧
    d.settled = true ∧ d.pc () = .opened ∧ d.dead = true ∧ d.exits () = 0 := by
  have hrun : (exec step (fun _ _ => true) {} [.lookup (), .connect () false, .notifyDead, .snapshot, .register (),
      .notify, .unregister, .finish ()]).map (fun d : Listening Unit => (d.settled, d.pc (), d.dead, d.exits ())) =
      some (true, .opened, true, 0) := rfl
  have hinit : Reach step (fun _ _ => True) Init ({} : Listening Unit) := .init rfl
  obtain ⟨d, hd, hv⟩ := exists_reach (fun _ _ _ => trivial) hinit hrun
  simp only [Prod.mk.injEq] at hv
  exact ⟨d, hd, hv⟩

end Listening

end DarlingServer
