import DarlingServer.Lib.Runs
import DarlingServer.Lib.Crowd
/-!
# Functions run by the kernel's runners

`kernelAsync` pushes a function under the queue's lock and raises a semaphore after
that; a runner waits on the semaphore and then takes a function under the lock. A
runner announces itself as available before it waits, and is available until it has
taken a function or given up. Between a push and the take there is always one caller,
one unit of the semaphore or one woken runner for each function in the queue.
-/

namespace DarlingServer.KernelAsync

open Runs

/-! ## The model -/

/-- Where a runner is. -/
inductive Place (φ : Type*) where
  /-- Has not announced itself yet. -/
  | started
  /-- Announced, and in `dtape_semaphore_down_simple`. -/
  | waiting
  /-- Interrupted in its wait, and has not yet given up. -/
  | interrupted
  /-- Has completed its wait, and not yet locked the queue. -/
  | woken
  | running (func : φ)
  /-- About to go round again. -/
  | returning
  /-- Out of the loop. -/
  | terminated
  deriving DecidableEq

/-- Between announcing itself and giving that up. -/
def Place.available {φ : Type*} : Place φ → Bool
  | .waiting | .interrupted | .woken => true
  | _ => false

def Place.isWoken {φ : Type*} : Place φ → Bool
  | .woken => true
  | _ => false

def Place.isInterrupted {φ : Type*} : Place φ → Bool
  | .interrupted => true
  | _ => false

/-- Available, or started and not announced so far. -/
def Place.spare {φ : Type*} : Place φ → Bool
  | .started | .waiting | .interrupted | .woken => true
  | _ => false

structure Runner (φ : Type*) where
  permanent : Bool
  place : Place φ
  deriving DecidableEq

/-- `MAX_PERMANENT_KERNEL_RUNNERS`. -/
def maxPermanentKernelRunners : Nat := 10

/-- The queue and the runners in the order they were started. `ups` counts the callers
that have unlocked the queue and not yet raised the semaphore; `pushed` and `taken`
record what was pushed and which runner took what. -/
structure State (φ : Type*) where
  queue : List φ := []
  runnersAvailable : Int := 0
  permanentRunners : Nat := 0
  runners : List (Runner φ) := []
  semaphore : Nat := 0
  ups : Nat := 0
  pushed : List φ := []
  taken : List (Nat × φ) := []
  deriving DecidableEq

variable {φ : Type*}

/-- How many runners are at a place that `p` admits. -/
def State.count (s : State φ) (p : Place φ → Bool) : Nat := s.runners.countP fun k => p k.place

/-- Runner `r`, which is `k`, goes to `place`. -/
def State.put (s : State φ) (r : Nat) (k : Runner φ) (place : Place φ) : State φ :=
  { s with runners := s.runners.set r { k with place } }

/-- The end of the loop's body: `while (permanent)`. -/
def Runner.goOn (k : Runner φ) : Place φ := if k.permanent then .returning else .terminated

inductive Label (φ : Type*) where
  /-- The caller's section under the lock. -/
  | kernelAsync (fn : φ)
  /-- `dtape_semaphore_up`. -/
  | up
  | announce (r : Nat)
  /-- The wait is completed with a unit of the semaphore. -/
  | down (r : Nat)
  | interrupt (r : Nat)
  | giveUp (r : Nat)
  | take (r : Nat)
  | finish (r : Nat)
  deriving DecidableEq

def step (s : State φ) : Label φ → Option (State φ)
  | .kernelAsync fn =>
    let s' := { s with queue := s.queue ++ [fn], pushed := s.pushed ++ [fn], ups := s.ups + 1 }
    if s.runnersAvailable = 0 then
      if s.permanentRunners < maxPermanentKernelRunners then
        some { s' with runners := s.runners ++ [⟨true, .started⟩], permanentRunners := s.permanentRunners + 1 }
      else some { s' with runners := s.runners ++ [⟨false, .started⟩] }
    else some s'
  | .up => if 0 < s.ups then some { s with ups := s.ups - 1, semaphore := s.semaphore + 1 } else none
  | .announce r =>
    match s.runners[r]? with
    | some k =>
      match k.place with
      | .started | .returning => some { s.put r k .waiting with runnersAvailable := s.runnersAvailable + 1 }
      | _ => none
    | none => none
  | .down r =>
    match s.runners[r]? with
    | some k =>
      match k.place with
      | .waiting => if 0 < s.semaphore then some { s.put r k .woken with semaphore := s.semaphore - 1 } else none
      | _ => none
    | none => none
  | .interrupt r =>
    match s.runners[r]? with
    | some k =>
      match k.place with
      | .waiting => some (s.put r k .interrupted)
      | _ => none
    | none => none
  | .giveUp r =>
    match s.runners[r]? with
    | some k =>
      match k.place with
      | .interrupted => some { s.put r k k.goOn with runnersAvailable := s.runnersAvailable - 1 }
      | _ => none
    | none => none
  | .take r =>
    match s.runners[r]? with
    | some k =>
      match k.place with
      | .woken =>
        match s.queue with
        | [] => some { s.put r k k.goOn with runnersAvailable := s.runnersAvailable - 1 }
        | func :: rest =>
          some { s.put r k (.running func) with
            runnersAvailable := s.runnersAvailable - 1, queue := rest, taken := s.taken ++ [(r, func)] }
      | _ => none
    | none => none
  | .finish r =>
    match s.runners[r]? with
    | some k =>
      match k.place with
      | .running _ => some (s.put r k k.goOn)
      | _ => none
    | none => none

def init (s : State φ) : Prop := s = {}

/-! ## What a step does -/

/-- A runner goes from one place to another without a function, and adds to the
counter. -/
inductive Shifts : Place φ → Int → Place φ → Prop
  | starts : Shifts .started 1 .waiting
  | returns : Shifts .returning 1 .waiting
  | gaveUp {k : Runner φ} : Shifts .interrupted (-1) k.goOn
  | finishes {func : φ} {k : Runner φ} : Shifts (.running func) 0 k.goOn

inductive Moves (s : State φ) : Label φ → State φ → Prop
  | spawned {fn permanent n} : s.runnersAvailable = 0 →
      Moves s (.kernelAsync fn)
        { s with
          queue := s.queue ++ [fn]
          pushed := s.pushed ++ [fn]
          ups := s.ups + 1
          runners := s.runners ++ [⟨permanent, .started⟩]
          permanentRunners := n }
  | queued {fn} : s.runnersAvailable ≠ 0 →
      Moves s (.kernelAsync fn)
        { s with queue := s.queue ++ [fn], pushed := s.pushed ++ [fn], ups := s.ups + 1 }
  | upped : 0 < s.ups → Moves s .up { s with ups := s.ups - 1, semaphore := s.semaphore + 1 }
  | downed {r k} : s.runners[r]? = some k → k.place = .waiting → 0 < s.semaphore →
      Moves s (.down r) { s.put r k .woken with semaphore := s.semaphore - 1 }
  | interrupted {r k} : s.runners[r]? = some k → k.place = .waiting → Moves s (.interrupt r) (s.put r k .interrupted)
  | shifted {l r k d t place} : (∀ fn, l ≠ .kernelAsync fn) → s.runners[r]? = some k → Shifts k.place d place →
      t = s.runnersAvailable + d →
      Moves s l { s.put r k place with runnersAvailable := t }
  | foundNothing {r k} : s.runners[r]? = some k → k.place = .woken → s.queue = [] →
      Moves s (.take r) { s.put r k k.goOn with runnersAvailable := s.runnersAvailable - 1 }
  | took {r k func rest} : s.runners[r]? = some k → k.place = .woken → s.queue = func :: rest →
      Moves s (.take r)
        { s.put r k (.running func) with
          runnersAvailable := s.runnersAvailable - 1, queue := rest, taken := s.taken ++ [(r, func)] }

theorem step_moves {s s' : State φ} {l : Label φ} (h : step s l = some s') : Moves s l s' := by
  have hzero : s.runnersAvailable = s.runnersAvailable + 0 := (Int.add_zero _).symm
  cases l with
  | kernelAsync fn =>
    simp only [step] at h
    split at h
    · split at h
      · cases h
        exact .spawned ‹_›
      · cases h
        exact .spawned ‹_›
    · cases h
      exact .queued ‹_›
  | up =>
    simp only [step] at h
    split at h
    · cases h
      exact .upped ‹_›
    · cases h
  | announce r =>
    simp only [step] at h
    split at h
    · rename_i k hr
      split at h
      · rename_i hp
        cases h
        exact .shifted (by simp) hr (hp ▸ .starts) rfl
      · rename_i hp
        cases h
        exact .shifted (by simp) hr (hp ▸ .returns) rfl
      · cases h
    · cases h
  | down r =>
    simp only [step] at h
    split at h
    · rename_i k hr
      split at h
      · rename_i hp
        split at h
        · cases h
          exact .downed hr hp ‹_›
        · cases h
      · cases h
    · cases h
  | interrupt r =>
    simp only [step] at h
    split at h
    · rename_i k hr
      split at h
      · rename_i hp
        cases h
        exact .interrupted hr hp
      · cases h
    · cases h
  | giveUp r =>
    simp only [step] at h
    split at h
    · rename_i k hr
      split at h
      · rename_i hp
        cases h
        exact .shifted (by simp) hr (hp ▸ .gaveUp) rfl
      · cases h
    · cases h
  | take r =>
    simp only [step] at h
    split at h
    · rename_i k hr
      split at h
      · rename_i hp
        split at h
        · cases h
          exact .foundNothing hr hp ‹_›
        · cases h
          exact .took hr hp ‹_›
      · cases h
    · cases h
  | finish r =>
    simp only [step] at h
    split at h
    · rename_i k hr
      split at h
      · rename_i hp
        cases h
        exact .shifted (by simp) hr (hp ▸ .finishes) hzero
      · cases h
    · cases h

/-! ## Counting -/

theorem count_put {s : State φ} {r : Nat} {k : Runner φ} (h : s.runners[r]? = some k) (place : Place φ)
    (p : Place φ → Bool) : (s.put r k place).count p + (p k.place).toNat = s.count p + (p place).toNat :=
  Crowd.countP_set h _ _

theorem count_spawn (s : State φ) (permanent : Bool) (p : Place φ → Bool) :
    List.countP (fun k : Runner φ => p k.place) (s.runners ++ [⟨permanent, .started⟩]) =
      s.count p + (p .started).toNat :=
  Crowd.countP_join ..

/-- A runner that goes on is at none of the places counted. -/
theorem Runner.goOn_eq_false {p : Place φ → Bool} (hr : p .returning = false) (ht : p .terminated = false)
    (k : Runner φ) : p k.goOn = false := by
  unfold Runner.goOn
  split
  · exact hr
  · exact ht

theorem Runner.goOn_available (k : Runner φ) : k.goOn.available = false := k.goOn_eq_false rfl rfl

theorem Runner.goOn_isWoken (k : Runner φ) : k.goOn.isWoken = false := k.goOn_eq_false rfl rfl

theorem Shifts.counts {a b : Place φ} {d : Int} (h : Shifts a d b) :
    (a.available.toNat : Int) + d = b.available.toNat ∧ a.isWoken = false ∧ b.isWoken = false := by
  cases h with
  | @gaveUp k =>
    rw [k.goOn_available]
    exact ⟨rfl, rfl, k.goOn_isWoken⟩
  | @finishes func k =>
    rw [k.goOn_available]
    exact ⟨rfl, rfl, k.goOn_isWoken⟩
  | _ => exact ⟨rfl, rfl, rfl⟩

/-- The counter, where the functions in the queue are, and what was pushed. -/
structure Accounted (s : State φ) : Prop where
  available : s.runnersAvailable = s.count Place.available
  waited : s.queue.length = s.ups + s.semaphore + s.count Place.isWoken
  fifo : s.pushed = s.taken.map Prod.snd ++ s.queue

theorem Accounted.push {s : State φ} (h : Accounted s) (fn : φ) :
    s.pushed ++ [fn] = s.taken.map Prod.snd ++ (s.queue ++ [fn]) := by
  rw [h.fifo, List.append_assoc]

/-- A runner that has completed its wait finds a function. -/
theorem Accounted.queue_ne_nil {s : State φ} (h : Accounted s) {r : Nat} {k : Runner φ} (hr : s.runners[r]? = some k)
    (hp : k.place = .woken) : s.queue ≠ [] := by
  have hone := Crowd.toNat_le_countP hr fun k => k.place.isWoken
  rw [hp] at hone
  have hlen := h.waited
  intro hnil
  rw [hnil] at hlen
  simp only [State.count, Place.isWoken, Bool.toNat_true, List.length_nil] at hone hlen
  omega

theorem Accounted.moves {s s' : State φ} {l : Label φ} (h : Accounted s) (hm : Moves s l s') : Accounted s' := by
  have hav := h.available
  have hwait := h.waited
  cases hm with
  | @spawned fn permanent n h0 =>
    have ha : _ = s.count Place.available + 0 := count_spawn s permanent Place.available
    have hw : _ = s.count Place.isWoken + 0 := count_spawn s permanent Place.isWoken
    refine ⟨hav.trans (congrArg Nat.cast ha.symm), ?_, h.push _⟩
    show (s.queue ++ [fn]).length = s.ups + 1 + s.semaphore + List.countP _ _
    rw [hw, List.length_append, List.length_singleton]
    omega
  | @queued fn hn =>
    refine ⟨hav, ?_, h.push _⟩
    show (s.queue ++ [fn]).length = s.ups + 1 + s.semaphore + s.count Place.isWoken
    rw [List.length_append, List.length_singleton]
    omega
  | upped hpos =>
    refine ⟨hav, ?_, h.fifo⟩
    show s.queue.length = s.ups - 1 + (s.semaphore + 1) + s.count Place.isWoken
    omega
  | @downed r k hr hp hpos =>
    have ha := count_put hr .woken Place.available
    have hw := count_put hr .woken Place.isWoken
    rw [hp] at ha hw
    refine ⟨?_, ?_, h.fifo⟩
    · have ha : _ + 1 = s.count Place.available + 1 := ha
      show s.runnersAvailable = (s.put r k .woken).count Place.available
      omega
    · have hw : _ + 0 = s.count Place.isWoken + 1 := hw
      show s.queue.length = s.ups + (s.semaphore - 1) + (s.put r k .woken).count Place.isWoken
      omega
  | @interrupted r k hr hp =>
    have ha := count_put hr .interrupted Place.available
    have hw := count_put hr .interrupted Place.isWoken
    rw [hp] at ha hw
    refine ⟨?_, ?_, h.fifo⟩
    · have ha : _ + 1 = s.count Place.available + 1 := ha
      show s.runnersAvailable = (s.put r k .interrupted).count Place.available
      omega
    · have hw : _ + 0 = s.count Place.isWoken + 0 := hw
      show s.queue.length = s.ups + s.semaphore + (s.put r k .interrupted).count Place.isWoken
      omega
  | @shifted l r k d t place hl hr hs ht =>
    have ha := count_put hr place Place.available
    have hw := count_put hr place Place.isWoken
    obtain ⟨hc, hka, hkb⟩ := hs.counts
    rw [hka, hkb] at hw
    refine ⟨?_, ?_, h.fifo⟩
    · show t = (s.put r k place).count Place.available
      omega
    · show s.queue.length = s.ups + s.semaphore + (s.put r k place).count Place.isWoken
      omega
  | @foundNothing r k hr hp hnil => exact absurd hnil (h.queue_ne_nil hr hp)
  | @took r k func rest hr hp hcons =>
    have ha := count_put hr (.running func) Place.available
    have hw := count_put hr (.running func) Place.isWoken
    rw [hp] at ha hw
    refine ⟨?_, ?_, ?_⟩
    · have ha : _ + 1 = s.count Place.available + 0 := ha
      show s.runnersAvailable - 1 = (s.put r k (.running func)).count Place.available
      omega
    · have hw : _ + 1 = s.count Place.isWoken + 0 := hw
      rw [hcons, List.length_cons] at hwait
      show rest.length = s.ups + s.semaphore + (s.put r k (.running func)).count Place.isWoken
      omega
    · show s.pushed = (s.taken ++ [(r, func)]).map Prod.snd ++ rest
      simp [h.fifo, hcons]

theorem accounted_init {s : State φ} (h : init s) : Accounted s := by
  subst h
  exact ⟨rfl, rfl, rfl⟩

theorem accounted {guard : State φ → Label φ → Prop} {s : State φ} (h : Reach step guard init s) : Accounted s :=
  h.inv Accounted (fun _ hs => accounted_init hs) fun _ _ _ hi _ hst => hi.moves (step_moves hst)

/-- In every run of callers and runners: the counter is not negative and is the
number of runners that are available, a runner that has completed its wait finds
the queue non-empty, and what was pushed is what has been taken, in order and each
by one runner, and then what is queued. -/
theorem functions_taken_once {s : State φ} (h : Reach step (fun _ _ => True) init s) :
    0 ≤ s.runnersAvailable ∧ s.runnersAvailable = s.count Place.available ∧
      (∀ (r : Nat) (k : Runner φ), s.runners[r]? = some k → k.place = .woken → s.queue ≠ []) ∧
      s.pushed = s.taken.map Prod.snd ++ s.queue := by
  have ha := accounted h
  have hav := ha.available
  exact ⟨by omega, hav, fun r k hr hp => ha.queue_ne_nil hr hp, ha.fifo⟩

/-- Two pushes that rely on one runner. The first function is taken, and the runner
goes round again, is interrupted and gives up, while the second is still queued. -/
def interruptedRun : List (Label Nat) :=
  [.kernelAsync 10, .up, .announce 0, .kernelAsync 11, .up, .down 0, .take 0, .finish 0, .announce 0, .interrupt 0,
    .giveUp 0, .announce 0, .down 0]

theorem functions_taken_once_interrupted : ∃ s : State Nat,
    s.runnersAvailable = 1 ∧ s.taken = [(0, 10)] ∧ 0 ≤ s.runnersAvailable ∧
      s.runnersAvailable = s.count Place.available ∧
      (∀ (r : Nat) (k : Runner Nat), s.runners[r]? = some k → k.place = .woken → s.queue ≠ []) ∧
      s.pushed = s.taken.map Prod.snd ++ s.queue := by
  have hrun : (exec step (fun _ _ => true) {} interruptedRun).map (fun s => (s.runnersAvailable, s.taken)) =
      some (1, [(0, 10)]) := by decide
  obtain ⟨s, hs, hv⟩ := exists_reach (fun _ _ _ => trivial) (.init (show init {} from rfl)) hrun
  simp only [Prod.mk.injEq] at hv
  exact ⟨s, hv.1, hv.2, functions_taken_once hs⟩

/-! ## Functions and spare runners -/

/-- There is a spare runner for every function. -/
def Served (s : State φ) : Prop := s.queue.length ≤ s.count Place.spare

/-- No semaphore wait is interrupted. -/
def uninterrupted : Label φ → Bool
  | .interrupt _ => false
  | _ => true

/-- A push that finds the counter above zero finds fewer functions queued than there
are spare runners. -/
def heeded (s : State φ) : Label φ → Bool
  | .kernelAsync _ => decide (s.runnersAvailable = 0) || decide (s.queue.length < s.count Place.spare)
  | _ => true

theorem Shifts.spare {a b : Place φ} {d : Int} (h : Shifts a d b) :
    b.isInterrupted = false ∧ (a.spare.toNat ≤ b.spare.toNat ∨ a.isInterrupted = true) := by
  cases h with
  | @gaveUp k => exact ⟨k.goOn_eq_false rfl rfl, .inr rfl⟩
  | @finishes func k => exact ⟨k.goOn_eq_false rfl rfl, .inl (Nat.zero_le _)⟩
  | _ => exact ⟨rfl, .inl (by simp [Place.spare])⟩

/-- A push keeps the functions served exactly if it heeds the condition. -/
theorem served_push_iff {s s' : State φ} {fn : φ} (h : Served s) (hst : step s (.kernelAsync fn) = some s') :
    Served s' ↔ heeded s (.kernelAsync fn) = true := by
  unfold Served at h ⊢
  simp only [heeded, Bool.or_eq_true, decide_eq_true_eq]
  have hm := step_moves hst
  cases hm with
  | @spawned fn permanent n h0 =>
    have hspare : _ = s.count Place.spare + 1 := count_spawn s permanent Place.spare
    show (s.queue ++ [fn]).length ≤ List.countP _ _ ↔ _
    rw [hspare, List.length_append, List.length_singleton]
    omega
  | @queued fn hn =>
    show (s.queue ++ [fn]).length ≤ s.count Place.spare ↔ _
    rw [List.length_append, List.length_singleton]
    omega
  | shifted hl => exact absurd rfl (hl fn)

theorem Served.moves {s s' : State φ} {l : Label φ} (ha : Accounted s) (hi : s.count Place.isInterrupted = 0)
    (h : Served s) (hl : ∀ fn, l ≠ .kernelAsync fn) (hni : ∀ r, l ≠ .interrupt r) (hm : Moves s l s') :
    Served s' := by
  unfold Served at h ⊢
  cases hm with
  | spawned => exact absurd rfl (hl _)
  | queued => exact absurd rfl (hl _)
  | upped => exact h
  | @downed r k hr hp hpos =>
    have hspare := count_put hr .woken Place.spare
    rw [hp] at hspare
    have hspare : _ + 1 = s.count Place.spare + 1 := hspare
    show s.queue.length ≤ (s.put r k .woken).count Place.spare
    omega
  | interrupted => exact absurd rfl (hni _)
  | @shifted l r k d t place _ hr hs ht =>
    have hspare := count_put hr place Place.spare
    have hone := Crowd.toNat_le_countP hr fun k => k.place.isInterrupted
    show s.queue.length ≤ (s.put r k place).count Place.spare
    rcases hs.spare.2 with hle | hk
    · omega
    · rw [hk] at hone
      change 1 ≤ s.count Place.isInterrupted at hone
      omega
  | foundNothing hr hp hnil => exact absurd hnil (ha.queue_ne_nil hr hp)
  | @took r k func rest hr hp hcons =>
    have hspare := count_put hr (.running func) Place.spare
    rw [hp] at hspare
    have hspare : _ + 1 = s.count Place.spare + 0 := hspare
    rw [hcons, List.length_cons] at h
    show rest.length ≤ (s.put r k (.running func)).count Place.spare
    omega

theorem count_isInterrupted_put {s : State φ} {r : Nat} {k : Runner φ} {place : Place φ}
    (h : s.count Place.isInterrupted = 0) (hr : s.runners[r]? = some k) (hp : place.isInterrupted = false) :
    (s.put r k place).count Place.isInterrupted = 0 := by
  have hput := count_put hr place Place.isInterrupted
  rw [hp, Bool.toNat_false] at hput
  omega

/-- Without an interrupted wait nobody is about to give up. -/
theorem undisturbed {s s' : State φ} {l : Label φ} (h : s.count Place.isInterrupted = 0) (hl : ∀ r, l ≠ .interrupt r)
    (hm : Moves s l s') : s'.count Place.isInterrupted = 0 := by
  cases hm with
  | @spawned fn permanent n h0 => exact (count_spawn s permanent Place.isInterrupted).trans h
  | queued => exact h
  | upped => exact h
  | downed hr => exact count_isInterrupted_put h hr rfl
  | interrupted => exact absurd rfl (hl _)
  | shifted _ hr hs => exact count_isInterrupted_put h hr hs.spare.1
  | @foundNothing r k hr => exact count_isInterrupted_put h hr (k.goOn_eq_false rfl rfl)
  | took hr => exact count_isInterrupted_put h hr rfl

/-- If every push heeds the condition and no wait is interrupted, there is a spare
runner for every function in the queue; and a push that does not heed it leaves a
function without one. -/
theorem functions_served {s : State φ} (h : Reach step (fun s l => (uninterrupted l && heeded s l) = true) init s) :
    s.queue.length ≤ s.count Place.spare ∧
      ∀ fn s', step s (.kernelAsync fn) = some s' → (Served s' ↔ heeded s (.kernelAsync fn) = true) := by
  have hs : s.count Place.isInterrupted = 0 ∧ Served s := by
    refine h.inv_with Accounted (fun s => s.count Place.isInterrupted = 0 ∧ Served s) (fun _ hr => accounted hr) ?_ ?_
    · intro s hs
      subst hs
      exact ⟨rfl, Nat.le_refl _⟩
    · intro s l s' ha hi hg hst
      have hm := step_moves hst
      obtain ⟨hu, hg⟩ := Bool.and_eq_true_iff.1 hg
      have hni : ∀ r, l ≠ .interrupt r := by
        rintro r rfl
        cases hu
      refine ⟨undisturbed hi.1 hni hm, ?_⟩
      by_cases hl : ∃ fn, l = .kernelAsync fn
      · obtain ⟨fn, rfl⟩ := hl
        exact (served_push_iff hi.2 hst).2 hg
      · exact Served.moves ha hi.1 hi.2 (fun fn he => hl ⟨fn, he⟩) hni hm
  exact ⟨hs.2, fun fn s' hst => served_push_iff hs.2 hst⟩

/-- Two functions, each with a runner started for it. -/
theorem functions_served_two : ∃ s : State Nat, s.queue.length = 2 ∧ s.queue.length ≤ s.count Place.spare := by
  have hrun : (exec step (fun s l => uninterrupted l && heeded s l) {}
      [.kernelAsync 10, .up, .kernelAsync 11, .up, .announce 0, .announce 1]).map
      (fun s => s.queue.length) = some 2 := by decide
  obtain ⟨s, hs, hv⟩ := exists_reach (fun _ _ hg => hg) (.init (show init {} from rfl)) hrun
  exact ⟨s, hv, (functions_served hs).1⟩

/-- Two pushes in a row both rely on the one runner that is available. -/
theorem functions_stranded :
    ¬ ∀ s : State Nat, Reach step (fun _ l => uninterrupted l = true) init s →
      s.queue.length ≤ s.count Place.spare := by
  intro h
  have hrun : (exec step (fun _ l => uninterrupted l) {}
      [.kernelAsync 10, .up, .announce 0, .down 0, .take 0, .finish 0, .announce 0, .kernelAsync 11, .up,
        .kernelAsync 12, .up]).map (fun s => (s.queue.length, s.count Place.spare)) = some (2, 1) := by decide
  obtain ⟨s, hs, hv⟩ := exists_reach (fun _ _ hg => hg) (.init (show init {} from rfl)) hrun
  simp only [Prod.mk.injEq] at hv
  have := h s hs
  rw [hv.1, hv.2] at this
  exact absurd this (by decide)

end DarlingServer.KernelAsync
