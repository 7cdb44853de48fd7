import DarlingServer.Lib.Runs
import DarlingServer.Lib.Crowd
/-!
# The work queue

Workers take items off a queue under its mutex; `push` starts a temporary worker
if the counter says that none is available. A step is one section under the mutex,
or something a thread does outside of it. The counter is raised by a worker that
is about to wait and lowered where the predicate of its wait comes out true; a
temporary worker whose wait runs out leaves without lowering it. So the counter
is the number of waiting workers exactly as long as none has left
(`threadsAvailable_exact_iff`).
-/

namespace DarlingServer.WorkQueue

open Runs

/-! ## The model -/

structure Config where
  singleThreadedWorkQueue : Bool
  hardwareConcurrency : Nat
  deriving DecidableEq

def Config.minimumThreads (c : Config) : Nat := if c.singleThreadedWorkQueue then 1 else 2

def Config.maximumThreads (c : Config) : Nat :=
  if !c.singleThreadedWorkQueue && decide (0 < c.hardwareConcurrency) &&
      decide (c.minimumThreads < c.hardwareConcurrency) then c.hardwareConcurrency
  else c.minimumThreads

/-- Where a worker is between two sections. -/
inductive Place (ι : Type*) where
  /-- Has not locked the mutex yet. -/
  | started
  /-- Asleep on the condition variable. -/
  | waiting
  /-- Woken, and has not yet evaluated the predicate. -/
  | woken
  | working (item : ι)
  /-- Done with its item, and has not yet locked the mutex again. -/
  | finished
  /-- Ran out of time, and is off `_workerThreads`. -/
  | expired
  /-- Returned because the queue is dying. -/
  | exited
  deriving DecidableEq

def Place.waits {ι : Type*} : Place ι → Bool
  | .waiting | .woken => true
  | _ => false

def Place.asleep {ι : Type*} : Place ι → Bool
  | .waiting => true
  | _ => false

def Place.isExpired {ι : Type*} : Place ι → Bool
  | .expired => true
  | _ => false

/-- In `_workerThreads`. -/
def Place.live {ι : Type*} : Place ι → Bool
  | .expired => false
  | _ => true

/-- Waiting, or started and without an item so far. -/
def Place.spare {ι : Type*} : Place ι → Bool
  | .started | .waiting | .woken => true
  | _ => false

structure Worker (ι : Type*) where
  permanent : Bool
  place : Place ι
  deriving DecidableEq

/-- The queue and its workers in the order they were started. `notifying` counts the
pushers that have unlocked the mutex and not yet notified; `pushed` and `given`
record what was pushed and which worker was given what. -/
structure State (ι : Type*) where
  workItems : List ι := []
  workers : List (Worker ι) := []
  threadsAvailable : Int := 0
  dying : Bool := false
  notifying : Nat := 0
  pushed : List ι := []
  given : List (Nat × ι) := []
  deriving DecidableEq

variable {ι : Type*}

/-- How many workers are at a place that `p` admits. -/
def State.count (s : State ι) (p : Place ι → Bool) : Nat := s.workers.countP fun k => p k.place

/-- Worker `w`, which is `k`, goes to `place`. -/
def State.put (s : State ι) (w : Nat) (k : Worker ι) (place : Place ι) : State ι :=
  { s with workers := s.workers.set w { k with place } }

/-- The predicate, evaluated by worker `w` under the mutex, with where it goes if
there is nothing for it. -/
def State.predicate (s : State ι) (w : Nat) (k : Worker ι) (otherwise : Place ι) : State ι :=
  if s.dying then { s.put w k .exited with threadsAvailable := s.threadsAvailable - 1 }
  else
    match s.workItems with
    | [] => s.put w k otherwise
    | item :: rest =>
      { s.put w k (.working item) with
        workItems := rest
        threadsAvailable := s.threadsAvailable - 1
        given := s.given ++ [(w, item)] }

inductive Label (ι : Type*) where
  | push (item : ι)
  /-- A pusher notifies, and wakes the worker named. -/
  | notify (w : Option Nat)
  /-- A spurious wake-up, or one by `notify_all`. -/
  | wake (w : Nat)
  /-- A worker locks the mutex to wait for work. -/
  | enter (w : Nat)
  /-- A woken worker has the mutex again. -/
  | check (w : Nat)
  /-- A temporary worker's wait ran out, and it has the mutex again. -/
  | timeout (w : Nat)
  | finish (w : Nat)
  /-- The destructor. -/
  | destroy
  deriving DecidableEq

def step (c : Config) (s : State ι) : Label ι → Option (State ι)
  | .push item =>
    let s' := { s with workItems := s.workItems ++ [item], pushed := s.pushed ++ [item] }
    if s.threadsAvailable = 0 ∧ s.count Place.live < c.maximumThreads then
      some { s' with workers := s.workers ++ [⟨false, .started⟩] }
    else some { s' with notifying := s.notifying + 1 }
  | .notify none =>
    -- nobody is woken only if nobody sleeps
    if 0 < s.notifying ∧ s.count Place.asleep = 0 then some { s with notifying := s.notifying - 1 } else none
  | .notify (some w) =>
    match s.workers[w]? with
    | some ⟨permanent, .waiting⟩ =>
      if 0 < s.notifying then some { s.put w ⟨permanent, .waiting⟩ .woken with notifying := s.notifying - 1 } else none
    | _ => none
  | .wake w =>
    match s.workers[w]? with
    | some ⟨permanent, .waiting⟩ => some (s.put w ⟨permanent, .waiting⟩ .woken)
    | _ => none
  | .enter w =>
    match s.workers[w]? with
    | some k =>
      match k.place with
      | .started | .finished =>
        some ({ s with threadsAvailable := s.threadsAvailable + 1 }.predicate w k .waiting)
      | _ => none
    | none => none
  | .check w =>
    match s.workers[w]? with
    | some k =>
      match k.place with
      | .woken => some (s.predicate w k .waiting)
      | _ => none
    | none => none
  | .timeout w =>
    match s.workers[w]? with
    | some ⟨false, place⟩ =>
      match place with
      | .waiting | .woken => some (s.predicate w ⟨false, place⟩ .expired)
      | _ => none
    | _ => none
  | .finish w =>
    match s.workers[w]? with
    | some ⟨permanent, .working item⟩ => some (s.put w ⟨permanent, .working item⟩ .finished)
    | _ => none
  | .destroy => some { s with dying := true }

/-- The constructor starts the permanent workers. -/
def init (c : Config) (s : State ι) : Prop :=
  s = { workers := List.replicate c.minimumThreads ⟨true, .started⟩ }

/-! ## What a step does -/

/-- A worker goes from one place to another without an item, and adds to the
counter. One whose time has run out has found the queue empty. -/
inductive Shifts (items : List ι) : Place ι → Int → Place ι → Prop
  | wakes : Shifts items .waiting 0 .woken
  | starts : Shifts items .started 1 .waiting
  | returns : Shifts items .finished 1 .waiting
  | sleeps : Shifts items .woken 0 .waiting
  | expires {place : Place ι} : place.waits = true → items = [] → Shifts items place 0 .expired
  | finishes {item : ι} : Shifts items (.working item) 0 .finished

/-- A worker may take an item, and adds to the counter before it does. -/
inductive Takes : Place ι → Int → Prop
  | starts : Takes .started 1
  | returns : Takes .finished 1
  | waits {place : Place ι} : place.waits = true → Takes place 0

inductive Moves (c : Config) (s : State ι) : Label ι → State ι → Prop
  | spawned {item} : s.threadsAvailable = 0 → s.count Place.live < c.maximumThreads →
      Moves c s (.push item)
        { s with
          workItems := s.workItems ++ [item]
          pushed := s.pushed ++ [item]
          workers := s.workers ++ [⟨false, .started⟩] }
  | queued {item} : ¬(s.threadsAvailable = 0 ∧ s.count Place.live < c.maximumThreads) →
      Moves c s (.push item)
        { s with
          workItems := s.workItems ++ [item]
          pushed := s.pushed ++ [item]
          notifying := s.notifying + 1 }
  | unheard {n} : Moves c s (.notify none) { s with notifying := n }
  | shifted {l w k d t place n} : (∀ item, l ≠ .push item) → s.workers[w]? = some k →
      Shifts s.workItems k.place d place → t = s.threadsAvailable + d →
      Moves c s l { s.put w k place with threadsAvailable := t, notifying := n }
  | took {l w k d t item rest} : (∀ item, l ≠ .push item) → s.workers[w]? = some k → Takes k.place d →
      s.workItems = item :: rest → t = s.threadsAvailable + d →
      Moves c s l
        { s.put w k (.working item) with
          workItems := rest
          threadsAvailable := t - 1
          given := s.given ++ [(w, item)] }
  | ended {l s'} : s'.dying = true → Moves c s l s'

/-- A worker that evaluates the predicate shifts, takes or ends. -/
theorem moves_predicate {c : Config} {s : State ι} {l : Label ι} {w : Nat} {k : Worker ι} {d t : Int} {place : Place ι}
    (hl : ∀ item, l ≠ .push item) (hw : s.workers[w]? = some k) (ht : Takes k.place d)
    (hs : s.workItems = [] → Shifts s.workItems k.place d place) (hd : t = s.threadsAvailable + d) :
    Moves c s l ({ s with threadsAvailable := t }.predicate w k place) := by
  unfold State.predicate
  split
  · exact .ended ‹_›
  · split
    · exact .shifted hl hw (hs ‹_›) hd
    · exact .took hl hw ht ‹_› hd

theorem step_moves {c : Config} {s s' : State ι} {l : Label ι} (h : step c s l = some s') : Moves c s l s' := by
  have hzero : s.threadsAvailable = s.threadsAvailable + 0 := (Int.add_zero _).symm
  cases l with
  | push item =>
    simp only [step] at h
    split at h
    · rename_i hc
      cases h
      exact .spawned hc.1 hc.2
    · cases h
      exact .queued ‹_›
  | notify w =>
    cases w with
    | none =>
      simp only [step] at h
      split at h
      · cases h
        exact .unheard
      · cases h
    | some w =>
      simp only [step] at h
      split at h
      · rename_i hw
        split at h
        · cases h
          exact .shifted (by simp) hw .wakes hzero
        · cases h
      · cases h
  | wake w =>
    simp only [step] at h
    split at h
    · rename_i hw
      cases h
      exact .shifted (by simp) hw .wakes hzero
    · cases h
  | enter w =>
    simp only [step] at h
    split at h
    · rename_i k hw
      split at h
      · rename_i hp
        cases h
        exact moves_predicate (by simp) hw (hp ▸ .starts) (fun _ => hp ▸ .starts) rfl
      · rename_i hp
        cases h
        exact moves_predicate (by simp) hw (hp ▸ .returns) (fun _ => hp ▸ .returns) rfl
      · cases h
    · cases h
  | check w =>
    simp only [step] at h
    split at h
    · rename_i k hw
      split at h
      · rename_i hp
        cases h
        have hk : k.place.waits = true := by rw [hp]; rfl
        exact moves_predicate (by simp) hw (.waits hk) (fun _ => hp ▸ .sleeps) hzero
      · cases h
    · cases h
  | timeout w =>
    simp only [step] at h
    split at h
    · rename_i place hw
      have hexp (hp : place.waits = true) : Moves c s (.timeout w) (s.predicate w ⟨false, place⟩ .expired) :=
        moves_predicate (by simp) hw (.waits hp) (fun hnil => .expires hp hnil) hzero
      split at h
      · cases h
        exact hexp rfl
      · cases h
        exact hexp rfl
      · cases h
    · cases h
  | finish w =>
    simp only [step] at h
    split at h
    · rename_i hw
      cases h
      exact .shifted (by simp) hw .finishes hzero
    · cases h
  | destroy =>
    cases h
    exact .ended rfl

/-- Once the queue is dying it stays so. -/
theorem Moves.not_dying {c : Config} {s s' : State ι} {l : Label ι} (h : Moves c s l s') (hd : s'.dying = false) :
    s.dying = false := by
  cases h with
  | ended hd' => rw [hd'] at hd; cases hd
  | _ => exact hd

/-! ## Counting -/

theorem count_put {s : State ι} {w : Nat} {k : Worker ι} (h : s.workers[w]? = some k) (place : Place ι)
    (p : Place ι → Bool) : (s.put w k place).count p + (p k.place).toNat = s.count p + (p place).toNat :=
  Crowd.countP_set h _ _

theorem count_spawn (s : State ι) (p : Place ι → Bool) :
    List.countP (fun k : Worker ι => p k.place) (s.workers ++ [⟨false, .started⟩]) = s.count p + (p .started).toNat :=
  Crowd.countP_join ..

theorem Place.isExpired_of_waits {place : Place ι} (h : place.waits = true) : place.isExpired = false := by
  cases place with
  | waiting => rfl
  | woken => rfl
  | _ => cases h

theorem Shifts.counts {items : List ι} {a b : Place ι} {d : Int} (h : Shifts items a d b) :
    (a.waits.toNat : Int) + a.isExpired.toNat + d = b.waits.toNat + b.isExpired.toNat := by
  cases h with
  | expires hw => rw [hw, Place.isExpired_of_waits hw]; rfl
  | _ => rfl

theorem Takes.counts {a : Place ι} {d : Int} (h : Takes a d) : (a.waits.toNat : Int) + a.isExpired.toNat + d = 1 := by
  cases h with
  | waits hw => rw [hw, Place.isExpired_of_waits hw]; rfl
  | _ => rfl

/-- The counter, and what was pushed. -/
structure Accounted (s : State ι) : Prop where
  available : s.threadsAvailable = s.count Place.waits + s.count Place.isExpired
  fifo : s.pushed = s.given.map Prod.snd ++ s.workItems

theorem Accounted.push {s : State ι} (h : Accounted s) (item : ι) :
    s.pushed ++ [item] = s.given.map Prod.snd ++ (s.workItems ++ [item]) := by
  rw [h.fifo, List.append_assoc]

theorem Accounted.moves {c : Config} {s s' : State ι} {l : Label ι} (h : Accounted s) (hm : Moves c s l s')
    (hd : s'.dying = false) : Accounted s' := by
  have hav := h.available
  cases hm with
  | spawned h0 hlt =>
    refine ⟨?_, h.push _⟩
    simp only [State.count, count_spawn]
    exact hav
  | queued hn => exact ⟨hav, h.push _⟩
  | unheard => exact ⟨hav, h.fifo⟩
  | @shifted l w k d t place n hl hw hs ht =>
    have hwaits := count_put hw place Place.waits
    have hexp := count_put hw place Place.isExpired
    have hcounts := hs.counts
    refine ⟨?_, h.fifo⟩
    show t = ((s.put w k place).count Place.waits : Int) + (s.put w k place).count Place.isExpired
    omega
  | @took l w k d t item rest hl hw htk hcons ht =>
    have hwaits : _ = s.count Place.waits + 0 := count_put hw (.working item) Place.waits
    have hexp : _ = s.count Place.isExpired + 0 := count_put hw (.working item) Place.isExpired
    have hcounts := htk.counts
    refine ⟨?_, ?_⟩
    · show t - 1 = ((s.put w k (.working item)).count Place.waits : Int) +
        (s.put w k (.working item)).count Place.isExpired
      omega
    · show s.pushed = (s.given ++ [(w, item)]).map Prod.snd ++ rest
      simp [h.fifo, hcons]
  | ended hd' => rw [hd'] at hd; cases hd

theorem accounted_init {c : Config} {s : State ι} (h : init c s) : Accounted s := by
  subst h
  refine ⟨?_, rfl⟩
  simp [State.count, List.countP_replicate, Place.waits, Place.isExpired]

theorem accounted {c : Config} {s : State ι} (h : Reach (step c) (fun _ _ => True) (init c) s) :
    s.dying = false → Accounted s := by
  refine h.inv (fun s => s.dying = false → Accounted s) (fun s hs _ => accounted_init hs) ?_
  intro s l s' hi _ hst hd
  have hm := step_moves hst
  exact (hi (hm.not_dying hd)).moves hm hd

/-- As long as the queue is not being destroyed, the counter is the number of waiting
workers exactly if no temporary worker has run out of time so far; and what was
pushed is what has been given to a worker, in order, and then what is queued. -/
theorem threadsAvailable_exact_iff {c : Config} {s : State ι} (h : Reach (step c) (fun _ _ => True) (init c) s)
    (hd : s.dying = false) :
    (s.threadsAvailable = s.count Place.waits ↔ s.count Place.isExpired = 0) ∧
      s.pushed = s.given.map Prod.snd ++ s.workItems := by
  have ha := accounted h hd
  refine ⟨?_, ha.fifo⟩
  have := ha.available
  omega

/-- Two permanent workers, and room for two temporary ones. -/
def fourCores : Config := ⟨false, 4⟩

def fresh : State Nat := { workers := [⟨true, .started⟩, ⟨true, .started⟩] }

theorem fresh_reach {guard : State Nat → Label Nat → Prop} : Reach (step fourCores) guard (init fourCores) fresh :=
  .init rfl

/-- Both permanent workers are busy, and a temporary one is done with its item and waits. -/
def temporaryWaits : List (Label Nat) :=
  [.enter 0, .enter 1, .push 10, .notify (some 0), .push 11, .notify (some 1), .check 0, .check 1, .push 12, .enter 2,
    .finish 2, .enter 2]

theorem threadsAvailable_exact_temporary : ∃ s : State Nat,
    s.dying = false ∧ s.threadsAvailable = 1 ∧ s.threadsAvailable = s.count Place.waits ∧
      s.pushed = s.given.map Prod.snd ++ s.workItems := by
  have hrun : (exec (step fourCores) (fun _ _ => true) fresh temporaryWaits).map
      (fun s => (s.dying, s.threadsAvailable, s.count Place.isExpired)) = some (false, 1, 0) := by decide
  obtain ⟨s, hs, hv⟩ := exists_reach (fun _ _ _ => trivial) fresh_reach hrun
  simp only [Prod.mk.injEq] at hv
  have h := threadsAvailable_exact_iff hs hv.1
  exact ⟨s, hv.1, hv.2.1, h.1.2 hv.2.2, h.2⟩

/-- After it has run out of time the counter is one, and nobody waits. -/
theorem threadsAvailable_inexact :
    ¬ ∀ s : State Nat, Reach (step fourCores) (fun _ _ => True) (init fourCores) s → s.dying = false →
      s.threadsAvailable = s.count Place.waits := by
  intro h
  have hrun : (exec (step fourCores) (fun _ _ => true) fresh (temporaryWaits ++ [Label.timeout 2])).map
      (fun s => (s.dying, s.threadsAvailable, s.count Place.waits)) = some (false, 1, 0) := by decide
  obtain ⟨s, hs, hv⟩ := exists_reach (fun _ _ _ => trivial) fresh_reach hrun
  simp only [Prod.mk.injEq] at hv
  have := h s hs hv.1
  rw [hv.2.1, hv.2.2] at this
  exact absurd this (by decide)

/-! ## Items and spare workers -/

/-- Below the limit there is a spare worker for every item. -/
def Served (c : Config) (s : State ι) : Prop :=
  s.count Place.live < c.maximumThreads → s.workItems.length ≤ s.count Place.spare

/-- A push that finds the counter above zero finds fewer items queued than there are
spare workers, or no further worker may be started. -/
def heeded (c : Config) (s : State ι) : Label ι → Bool
  | .push _ => decide (s.threadsAvailable = 0) || decide (c.maximumThreads ≤ s.count Place.live) ||
      decide (s.workItems.length < s.count Place.spare)
  | _ => true

theorem Shifts.spare {items : List ι} {a b : Place ι} {d : Int} (h : Shifts items a d b) :
    (a.spare.toNat ≤ b.spare.toNat ∧ a.live = b.live) ∨ items = [] := by
  cases h with
  | expires _ hnil => exact .inr hnil
  | _ => exact .inl ⟨by simp [Place.spare], rfl⟩

theorem Takes.live {a : Place ι} {d : Int} (h : Takes a d) : a.live = true := by
  cases h with
  | waits hw =>
    cases a with
    | expired => cases hw
    | _ => rfl
  | _ => rfl

/-- A push keeps the items served exactly if it heeds the condition. -/
theorem served_push_iff {c : Config} {s s' : State ι} {item : ι} (h : Served c s)
    (hst : step c s (.push item) = some s') : Served c s' ↔ heeded c s (.push item) = true := by
  unfold Served at h ⊢
  simp only [heeded, Bool.or_eq_true, decide_eq_true_eq]
  simp only [step] at hst
  split at hst
  · rename_i hc
    cases hst
    have hlive := count_spawn s Place.live
    have hspare : _ = s.count Place.spare + 1 := count_spawn s Place.spare
    simp only [State.count, List.length_append, List.length_singleton] at *
    omega
  · rename_i hc
    cases hst
    simp only [State.count, List.length_append, List.length_singleton] at *
    omega

theorem Served.moves {c : Config} {s s' : State ι} {l : Label ι} (h : Served c s) (hl : ∀ item, l ≠ .push item)
    (hm : Moves c s l s') (hd : s'.dying = false) : Served c s' := by
  unfold Served at h ⊢
  cases hm with
  | spawned => exact absurd rfl (hl _)
  | queued => exact absurd rfl (hl _)
  | unheard => exact h
  | @shifted l w k d t place n _ hw hs ht =>
    have hlive := count_put hw place Place.live
    have hspare := count_put hw place Place.spare
    show (s.put w k place).count Place.live < c.maximumThreads →
      s.workItems.length ≤ (s.put w k place).count Place.spare
    rcases hs.spare with ⟨hle, heq⟩ | hnil
    · rw [heq] at hlive
      omega
    · rw [hnil]
      exact fun _ => Nat.zero_le _
  | @took l w k d t item rest _ hw htk hcons ht =>
    have hlive : _ = s.count Place.live + 1 := count_put hw (.working item) Place.live
    have hspare : _ = s.count Place.spare + 0 := count_put hw (.working item) Place.spare
    have hone : k.place.spare.toNat ≤ 1 := Bool.toNat_le _
    rw [htk.live] at hlive
    rw [hcons, List.length_cons] at h
    show (s.put w k (.working item)).count Place.live < c.maximumThreads →
      rest.length ≤ (s.put w k (.working item)).count Place.spare
    simp only [Bool.toNat_true] at hlive
    omega
  | ended hd' => rw [hd'] at hd; cases hd

theorem served_init {c : Config} {s : State ι} (h : init c s) : Served c s := by
  subst h
  exact fun _ => Nat.zero_le _

/-- If every push heeds the condition, there is a spare worker for every item
whenever another worker could be started; and a push that does not heed it leaves
an item without one. -/
theorem items_served {c : Config} {s : State ι}
    (h : Reach (step c) (fun s l => heeded c s l = true) (init c) s) (hd : s.dying = false) :
    (s.count Place.live < c.maximumThreads → s.workItems.length ≤ s.count Place.spare) ∧
      ∀ item s', step c s (.push item) = some s' → (Served c s' ↔ heeded c s (.push item) = true) := by
  have hs : s.dying = false → Served c s := by
    refine h.inv (fun s => s.dying = false → Served c s) (fun s hs _ => served_init hs) ?_
    intro s l s' hi hg hst hd
    have hm := step_moves hst
    have hi := hi (hm.not_dying hd)
    by_cases hl : ∃ item, l = .push item
    · obtain ⟨item, rfl⟩ := hl
      exact (served_push_iff hi hst).2 hg
    · exact hi.moves (fun item he => hl ⟨item, he⟩) hm hd
  exact ⟨hs hd, fun item s' hst => served_push_iff (hs hd) hst⟩

/-- A push for which a worker is started, and one for which a worker waits. -/
theorem items_served_waiting : ∃ s : State Nat,
    s.dying = false ∧ s.workItems.length = 1 ∧ s.count Place.live < fourCores.maximumThreads ∧
      s.workItems.length ≤ s.count Place.spare := by
  have hrun : (exec (step fourCores) (heeded fourCores) fresh (temporaryWaits ++ [Label.push 13])).map
      (fun s => (s.dying, s.workItems.length, decide (s.count Place.live < fourCores.maximumThreads))) =
        some (false, 1, true) := by decide
  obtain ⟨s, hs, hv⟩ := exists_reach (fun _ _ hg => hg) fresh_reach hrun
  simp only [Prod.mk.injEq, decide_eq_true_eq] at hv
  exact ⟨s, hv.1, hv.2.1, hv.2.2, (items_served hs hv.1).1 hv.2.2⟩

/-- Two items pushed while one worker waits and another one is busy. Two more could be started. -/
theorem items_stranded :
    ¬ ∀ s : State Nat, Reach (step fourCores) (fun _ _ => True) (init fourCores) s → s.dying = false →
      s.count Place.live < fourCores.maximumThreads → s.workItems.length ≤ s.count Place.spare := by
  intro h
  have hrun : (exec (step fourCores) (fun _ _ => true) fresh
      [.enter 0, .enter 1, .push 10, .notify (some 0), .check 0, .push 11, .push 12]).map
      (fun s => (s.dying, s.count Place.live, s.workItems.length, s.count Place.spare)) = some (false, 2, 2, 1) := by
    decide
  obtain ⟨s, hs, hv⟩ := exists_reach (fun _ _ _ => trivial) fresh_reach hrun
  simp only [Prod.mk.injEq] at hv
  have := h s hs hv.1 (by rw [hv.2.1]; decide)
  rw [hv.2.2.1, hv.2.2.2] at this
  exact absurd this (by decide)

end DarlingServer.WorkQueue
