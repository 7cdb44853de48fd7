import DarlingServer.Effects
import Mathlib.Logic.Function.Basic
import Mathlib.Data.List.Nodup
/-!
# Server-to-client calls

`_s2cPerform` asks the client of a thread to do something and waits for its
answer. Any number of invocations compete for the thread's perform semaphore. An
invocation that finds no active call first sends a signal; the client answers it
with an `s2c_perform` call, which raises the enter semaphore and then waits for
the exit semaphore. An invocation that finds an active call of somebody else
holds the thread's replies back instead.

The semaphores are counters, and a wait for one can be interrupted at any time.
The rest of the thread moves as its own machine does.
-/

namespace DarlingServer

open Thread Runs

/-! ## Invocations -/

/-- An S2C reply: the invocation whose request it answers, and what `_s2cPerform` checks. -/
structure S2CReply (ι : Type*) where
  request : ι
  size : Nat
  number : Nat
  deriving DecidableEq, Repr

/-- What an invocation is called with, and who calls it. -/
structure Invocation where
  expectedReplyNumber : Nat
  expectedReplySize : Nat
  /-- `currentThread()` is not null. -/
  onMicrothread : Bool := true
  /-- `currentThread()` is the thread itself. -/
  onThread : Bool := false

inductive S2CFault where
  | notOnMicrothread
  | noReplyPresent
  | unexpectedSize
  | unexpectedNumber
  deriving DecidableEq, Repr

/-- The text of the exception. -/
def S2CFault.what : S2CFault → String
  | .notOnMicrothread => "Must be in a microthread (any microthread) to wait for S2C reply"
  | .noReplyPresent => "S2C reply semaphore incremented, but no reply present"
  | .unexpectedSize => "Invalid S2C reply: unxpected size"
  | .unexpectedNumber => "Invalid S2C reply: unexpected S2C reply number"

/-- Where an invocation is. -/
inductive Performing (ι : Type*) where
  | waitingPerform
  /-- Holding the perform semaphore, before it looks for an active call. -/
  | looking
  | signalling
  | waitingEnter
  | sending (usingInterrupt : Bool)
  | waitingReply (usingInterrupt : Bool)
  | taking (usingInterrupt : Bool)
  | releasing (usingInterrupt : Bool) (reply : S2CReply ι)
  /-- The perform semaphore raised, and the exit semaphore to be raised. -/
  | handing (reply : S2CReply ι)
  | validating (reply : S2CReply ι)
  | returned (reply : Option (S2CReply ι))
  | threw (f : S2CFault)
  deriving DecidableEq, Repr

namespace Performing

variable {ι : Type*}

/-- The invocation holds the perform semaphore. -/
def holds : Performing ι → Bool
  | .looking | .signalling | .waitingEnter | .sending _ | .waitingReply _ | .taking _ | .releasing _ _ => true
  | .waitingPerform | .handing _ | .validating _ | .returned _ | .threw _ => false

/-- It may be holding the thread's replies back. -/
def defers : Performing ι → Bool
  | .sending u | .waitingReply u | .taking u => !u
  | _ => false

def awaitsEnter : Performing ι → Bool
  | .waitingEnter => true
  | _ => false

/-- It has an enter token and has not given the exit token for it, or raised the perform semaphore yet. -/
def owesExit : Performing ι → Bool
  | .sending u | .waitingReply u | .taking u | .releasing u _ => u
  | _ => false

/-- It stands between raising the perform semaphore and giving the exit token. -/
def hands : Performing ι → Bool
  | .handing _ => true
  | _ => false

theorem hands_of_holds {p : Performing ι} (h : p.holds = true) : p.hands = false := by
  cases p with
  | handing => cases h
  | _ => rfl

/-- The reply it took. -/
def reply : Performing ι → Option (S2CReply ι)
  | .releasing _ r | .handing r | .validating r => some r
  | .returned r => r
  | _ => none

end Performing

structure S2C (ι : Type*) where
  thread : State := {}
  phase : ι → Performing ι := fun _ => .waitingPerform
  performSemaphore : Nat := 1
  replySemaphore : Nat := 0
  enterSemaphore : Nat := 0
  exitSemaphore : Nat := 0
  s2cReply : Option (S2CReply ι) := none
  /-- `callFromMessage` has stored a reply and has yet to raise the reply semaphore. -/
  storing : Bool := false
  /-- The requests sent to the client that it has not answered. -/
  requests : List ι := []
  /-- The signals sent to the client that it has not answered with `s2c_perform`. -/
  signals : Nat := 0
  /-- The `s2c_perform` calls that wait for the exit semaphore. -/
  waitingExit : Nat := 0
  /-- How often the enter semaphore was raised, and an exit token given. -/
  enterRaised : Nat := 0
  exitGiven : Nat := 0
  /-- "Received S2C reply but thread already had one pending" was thrown. -/
  down : Bool := false

inductive S2CLabel (ι : Type*) where
  | thread (l : Label)
  | down (i : ι)
  | interrupt (i : ι)
  | look (i : ι)
  | signal (i : ι)
  | send (i : ι)
  | take (i : ι)
  | release (i : ι)
  | hand (i : ι)
  | validate (i : ι)
  | answer (reply : S2CReply ι)
  | raiseReply
  | raiseEnter
  | downExit
  | interruptExit

namespace S2C

variable {ι : Type*} [DecidableEq ι]

def go (x : S2C ι) (i : ι) (p : Performing ι) : S2C ι := { x with phase := Function.update x.phase i p }

/-- `dtape_semaphore_up(_s2cPerformSempahore)`. -/
def upPerform (x : S2C ι) : S2C ι := { x with performSemaphore := x.performSemaphore + 1 }

/-! ## The sections of `_s2cPerform` -/

/-- A `dtape_semaphore_down_simple` that gets what it waits for. -/
def downSimple (x : S2C ι) (i : ι) : Option (S2C ι) :=
  match x.phase i with
  | .waitingPerform =>
    if x.performSemaphore = 0 then none
    else some ({ x with performSemaphore := x.performSemaphore - 1 }.go i .looking)
  | .waitingEnter =>
    if x.enterSemaphore = 0 then none
    else some ({ x with enterSemaphore := x.enterSemaphore - 1 }.go i (.sending true))
  | .waitingReply u =>
    if x.replySemaphore = 0 then none
    else some ({ x with replySemaphore := x.replySemaphore - 1 }.go i (.taking u))
  | _ => none

/-- A wait that is interrupted. -/
def interrupted (x : S2C ι) (i : ι) : Option (S2C ι) :=
  match x.phase i with
  | .waitingPerform => some (x.go i (.returned none))
  | .waitingEnter | .waitingReply _ => some (x.upPerform.go i (.returned none))
  | _ => none

def look (inv : ι → Invocation) (x : S2C ι) (i : ι) : Option (S2C ι) :=
  if x.thread.loc.th.activeCall.isNone then some (x.go i .signalling)
  else if (inv i).onThread then some (x.go i (.sending false))
  else (x.thread.step .s2cDefer).map fun thread => { x with thread }.go i (.sending false)

def send (inv : ι → Invocation) (x : S2C ι) (i : ι) (usingInterrupt : Bool) : S2C ι :=
  if (inv i).onMicrothread then { x with requests := x.requests ++ [i] }.go i (.waitingReply usingInterrupt)
  else x.upPerform.go i (.threw .notOnMicrothread)

def take (x : S2C ι) (i : ι) (usingInterrupt : Bool) : Option (S2C ι) :=
  match x.s2cReply with
  | none => some (x.upPerform.go i (.threw .noReplyPresent))
  | some r =>
    (x.thread.step .s2cRelease).map fun thread =>
      { x with thread, s2cReply := none }.go i (.releasing usingInterrupt r)

def validate (inv : ι → Invocation) (x : S2C ι) (i : ι) (r : S2CReply ι) : S2C ι :=
  if r.size ≠ (inv i).expectedReplySize then x.go i (.threw .unexpectedSize)
  else if r.number ≠ (inv i).expectedReplyNumber then x.go i (.threw .unexpectedNumber)
  else x.go i (.returned (some r))

/-! ## The client -/

/-- The section of `callFromMessage` that stores an S2C reply. -/
def answer (x : S2C ι) (r : S2CReply ι) : Option (S2C ι) :=
  if x.storing || r.request ∉ x.requests then none
  else if x.s2cReply.isSome then some { x with down := true }
  else some { x with requests := x.requests.erase r.request, s2cReply := some r, storing := true }

/-- `S2CPerform::processCall` of the call that answers a signal, up to its wait. -/
def raiseEnter (x : S2C ι) : Option (S2C ι) :=
  if x.signals = 0 then none
  else some { x with
    signals := x.signals - 1
    enterSemaphore := x.enterSemaphore + 1
    enterRaised := x.enterRaised + 1
    waitingExit := x.waitingExit + 1 }

def step (inv : ι → Invocation) (x : S2C ι) (l : S2CLabel ι) : Option (S2C ι) :=
  if x.down then none
  else
    match l with
    | .thread l =>
      if l = .s2cDefer ∨ l = .s2cRelease then none
      else (x.thread.step l).map fun thread => { x with thread }
    | .down i => x.downSimple i
    | .interrupt i => x.interrupted i
    | .look i => if x.phase i = .looking then x.look inv i else none
    | .signal i => if x.phase i = .signalling then some ({ x with signals := x.signals + 1 }.go i .waitingEnter) else none
    | .send i =>
      match x.phase i with
      | .sending u => some (x.send inv i u)
      | _ => none
    | .take i =>
      match x.phase i with
      | .taking u => x.take i u
      | _ => none
    | .release i =>
      match x.phase i with
      | .releasing u r => some (x.upPerform.go i (if u then .handing r else .validating r))
      | _ => none
    | .hand i =>
      match x.phase i with
      | .handing r =>
        some ({ x with exitSemaphore := x.exitSemaphore + 1, exitGiven := x.exitGiven + 1 }.go i (.validating r))
      | _ => none
    | .validate i =>
      match x.phase i with
      | .validating r => some (x.validate inv i r)
      | _ => none
    | .answer r => x.answer r
    | .raiseReply =>
      if x.storing then some { x with storing := false, replySemaphore := x.replySemaphore + 1 } else none
    | .raiseEnter => x.raiseEnter
    | .downExit =>
      if x.exitSemaphore = 0 ∨ x.waitingExit = 0 then none
      else some { x with exitSemaphore := x.exitSemaphore - 1, waitingExit := x.waitingExit - 1 }
    | .interruptExit => if x.waitingExit = 0 then none else some { x with waitingExit := x.waitingExit - 1 }

def Init (x : S2C ι) : Prop := ∃ s : State, s.Init ∧ x = { thread := s }

/-! ## What a step does -/

/-- The steps, with the conditions under which they are taken. -/
inductive Moves (inv : ι → Invocation) (x : S2C ι) : S2CLabel ι → S2C ι → Prop
  | thread {l thread} : l ≠ .s2cDefer → l ≠ .s2cRelease → x.thread.step l = some thread →
      Moves inv x (.thread l) { x with thread }
  | downPerform {i} : x.phase i = .waitingPerform → x.performSemaphore ≠ 0 →
      Moves inv x (.down i) ({ x with performSemaphore := x.performSemaphore - 1 }.go i .looking)
  | downEnter {i} : x.phase i = .waitingEnter → x.enterSemaphore ≠ 0 →
      Moves inv x (.down i) ({ x with enterSemaphore := x.enterSemaphore - 1 }.go i (.sending true))
  | downReply {i u} : x.phase i = .waitingReply u → x.replySemaphore ≠ 0 →
      Moves inv x (.down i) ({ x with replySemaphore := x.replySemaphore - 1 }.go i (.taking u))
  | interruptPerform {i} : x.phase i = .waitingPerform → Moves inv x (.interrupt i) (x.go i (.returned none))
  | interruptEnter {i} : x.phase i = .waitingEnter →
      Moves inv x (.interrupt i) (x.upPerform.go i (.returned none))
  | interruptReply {i u} : x.phase i = .waitingReply u →
      Moves inv x (.interrupt i) (x.upPerform.go i (.returned none))
  | lookIdle {i} : x.phase i = .looking → Moves inv x (.look i) (x.go i .signalling)
  | lookOwn {i} : x.phase i = .looking → Moves inv x (.look i) (x.go i (.sending false))
  | lookDefer {i thread} : x.phase i = .looking → x.thread.step .s2cDefer = some thread →
      Moves inv x (.look i) ({ x with thread }.go i (.sending false))
  | signal {i} : x.phase i = .signalling →
      Moves inv x (.signal i) ({ x with signals := x.signals + 1 }.go i .waitingEnter)
  | send {i u} : x.phase i = .sending u → (inv i).onMicrothread = true →
      Moves inv x (.send i) ({ x with requests := x.requests ++ [i] }.go i (.waitingReply u))
  | sendRefused {i u} : x.phase i = .sending u → (inv i).onMicrothread = false →
      Moves inv x (.send i) (x.upPerform.go i (.threw .notOnMicrothread))
  | takeNothing {i u} : x.phase i = .taking u → x.s2cReply = none →
      Moves inv x (.take i) (x.upPerform.go i (.threw .noReplyPresent))
  | take {i u r thread} : x.phase i = .taking u → x.s2cReply = some r → x.thread.step .s2cRelease = some thread →
      Moves inv x (.take i) ({ x with thread, s2cReply := none }.go i (.releasing u r))
  | release {i r} : x.phase i = .releasing false r → Moves inv x (.release i) (x.upPerform.go i (.validating r))
  | releaseSignalled {i r} : x.phase i = .releasing true r →
      Moves inv x (.release i) (x.upPerform.go i (.handing r))
  | hand {i r} : x.phase i = .handing r →
      Moves inv x (.hand i)
        ({ x with exitSemaphore := x.exitSemaphore + 1, exitGiven := x.exitGiven + 1 }.go i (.validating r))
  | validate {i r} : x.phase i = .validating r → Moves inv x (.validate i) (x.go i (.returned (some r)))
  | refuse {i r f} : x.phase i = .validating r → Moves inv x (.validate i) (x.go i (.threw f))
  | answerTwice {r} : Moves inv x (.answer r) { x with down := true }
  | answer {r} : x.storing = false → r.request ∈ x.requests → x.s2cReply = none →
      Moves inv x (.answer r)
        { x with requests := x.requests.erase r.request, s2cReply := some r, storing := true }
  | raiseReply : x.storing = true →
      Moves inv x .raiseReply { x with storing := false, replySemaphore := x.replySemaphore + 1 }
  | raiseEnter : x.signals ≠ 0 →
      Moves inv x .raiseEnter { x with
        signals := x.signals - 1
        enterSemaphore := x.enterSemaphore + 1
        enterRaised := x.enterRaised + 1
        waitingExit := x.waitingExit + 1 }
  | downExit :
      Moves inv x .downExit { x with exitSemaphore := x.exitSemaphore - 1, waitingExit := x.waitingExit - 1 }
  | interruptExit : Moves inv x .interruptExit { x with waitingExit := x.waitingExit - 1 }

variable {inv : ι → Invocation} {x x' : S2C ι} {l : S2CLabel ι} {i : ι}

theorem downSimple_effect (h : x.downSimple i = some x') : Moves inv x (.down i) x' := by
  unfold downSimple at h
  split at h
  · split at h <;> cases h
    exact .downPerform ‹_› ‹_›
  · split at h <;> cases h
    exact .downEnter ‹_› ‹_›
  · split at h <;> cases h
    exact .downReply ‹_› ‹_›
  · cases h

theorem interrupted_effect (h : x.interrupted i = some x') : Moves inv x (.interrupt i) x' := by
  unfold interrupted at h
  split at h <;> cases h
  · exact .interruptPerform ‹_›
  · exact .interruptEnter ‹_›
  · exact .interruptReply ‹_›

theorem look_effect (hp : x.phase i = .looking) (h : x.look inv i = some x') : Moves inv x (.look i) x' := by
  unfold look at h
  split at h
  · cases h; exact .lookIdle hp
  · split at h
    · cases h; exact .lookOwn hp
    · obtain ⟨thread, ht, rfl⟩ := Option.map_eq_some_iff.1 h
      exact .lookDefer hp ht

theorem send_effect {u : Bool} (hp : x.phase i = .sending u) : Moves inv x (.send i) (x.send inv i u) := by
  unfold send
  split
  · exact .send hp ‹_›
  · exact .sendRefused hp (Bool.eq_false_iff.2 ‹_›)

theorem take_effect {u : Bool} (hp : x.phase i = .taking u) (h : x.take i u = some x') :
    Moves inv x (.take i) x' := by
  unfold take at h
  split at h
  · cases h; exact .takeNothing hp ‹_›
  · obtain ⟨thread, ht, rfl⟩ := Option.map_eq_some_iff.1 h
    exact .take hp ‹_› ht

theorem validate_effect {r : S2CReply ι} (hp : x.phase i = .validating r) :
    Moves inv x (.validate i) (x.validate inv i r) := by
  unfold validate
  split
  · exact .refuse hp
  · split
    · exact .refuse hp
    · exact .validate hp

theorem answer_effect {r : S2CReply ι} (h : x.answer r = some x') : Moves inv x (.answer r) x' := by
  unfold answer at h
  split at h
  · cases h
  · rename_i hn
    simp only [Bool.or_eq_true, decide_eq_true_eq, not_or, Bool.not_eq_true, not_not] at hn
    split at h <;> cases h
    · exact .answerTwice
    · exact .answer hn.1 hn.2 (Option.not_isSome_iff_eq_none.1 ‹_›)

theorem step_effect (h : x.step inv l = some x') : Moves inv x l x' := by
  unfold step at h
  split at h
  · cases h
  cases l with
  | thread l =>
    simp only at h
    split at h
    · cases h
    · rename_i hl
      obtain ⟨thread, ht, rfl⟩ := Option.map_eq_some_iff.1 h
      exact .thread (fun h => hl (.inl h)) (fun h => hl (.inr h)) ht
  | down i => exact downSimple_effect h
  | interrupt i => exact interrupted_effect h
  | look i =>
    simp only at h
    split at h
    · exact look_effect ‹_› h
    · cases h
  | signal i =>
    simp only at h
    split at h <;> cases h
    exact .signal ‹_›
  | send i =>
    simp only at h
    split at h <;> cases h
    exact send_effect ‹_›
  | take i =>
    simp only at h
    split at h
    · exact take_effect ‹_› h
    · cases h
  | release i =>
    simp only at h
    split at h <;> cases h
    rename_i u r hp
    cases u with
    | false => exact .release hp
    | true => exact .releaseSignalled hp
  | hand i =>
    simp only at h
    split at h <;> cases h
    exact .hand ‹_›
  | validate i =>
    simp only at h
    split at h <;> cases h
    exact validate_effect ‹_›
  | answer r => exact answer_effect h
  | raiseReply =>
    simp only at h
    split at h <;> cases h
    exact .raiseReply ‹_›
  | raiseEnter =>
    simp only [raiseEnter] at h
    split at h <;> cases h
    exact .raiseEnter ‹_›
  | downExit =>
    simp only at h
    split at h <;> cases h
    exact .downExit
  | interruptExit =>
    simp only at h
    split at h <;> cases h
    exact .interruptExit

section

variable {ι : Type*}

/-! ## Who holds the perform semaphore -/

/-- `h` is the invocation that holds the perform semaphore. -/
def Holder (x : S2C ι) (h : Option ι) : Prop :=
  x.performSemaphore = h.isNone.toNat ∧ ∀ i, (x.phase i).holds = true ↔ h = some i

/-- The holder's phase; a thread nobody performs on is as before an invocation. -/
def stage (x : S2C ι) (h : Option ι) : Performing ι := h.elim .waitingPerform x.phase

theorem Holder.eq_some {x : S2C ι} {h : Option ι} {i : ι} (hh : x.Holder h) (hi : (x.phase i).holds = true) :
    h = some i := (hh.2 i).1 hi

theorem Holder.eq_none {x : S2C ι} {h : Option ι} (hh : x.Holder h) (hc : x.performSemaphore ≠ 0) : h = none := by
  cases h with
  | none => rfl
  | some i => exact absurd hh.1 hc

/-! ## What the holder's phase says of the rest -/

/-- Nothing is asked and nothing is answered. -/
def Quiet (x : S2C ι) : Prop :=
  x.requests = [] ∧ x.s2cReply = none ∧ x.storing = false ∧ x.replySemaphore = 0

/-- The request of `i`, or the reply to it, is on its way, and nothing else is. -/
def Asked (x : S2C ι) (i : ι) : Prop :=
  x.requests = [i] ∧ x.s2cReply = none ∧ x.storing = false ∧ x.replySemaphore = 0 ∨
  x.requests = [] ∧ (∃ r, x.s2cReply = some r ∧ r.request = i) ∧ x.storing.toNat + x.replySemaphore = 1

/-- The reply to `i` is there and its token is taken. -/
def Answered (x : S2C ι) (i : ι) : Prop :=
  x.requests = [] ∧ (∃ r, x.s2cReply = some r ∧ r.request = i) ∧ x.storing = false ∧ x.replySemaphore = 0

def Slots (x : S2C ι) (h : Option ι) : Performing ι → Prop
  | .waitingReply _ => ∃ i, h = some i ∧ x.Asked i
  | .taking _ => ∃ i, h = some i ∧ x.Answered i
  | _ => x.Quiet

structure Matched (x : S2C ι) (h : Option ι) : Prop where
  holder : x.Holder h
  slots : x.Slots h (x.stage h)
  defers : x.thread.loc.th.deferReplyForS2C = true → (x.stage h).defers = true
  deferred : x.thread.loc.th.deferredReply ≠ none → x.thread.loc.th.deferReplyForS2C = true
  signalled : x.signals + x.enterSemaphore = (x.stage h).awaitsEnter.toNat
  tokens : ∃ handing : List ι, handing.Nodup ∧ (∀ i, i ∈ handing ↔ (x.phase i).hands = true) ∧
    x.enterRaised = x.exitGiven + handing.length + (x.stage h).owesExit.toNat + x.enterSemaphore
  own : ∀ i r, (x.phase i).reply = some r → r.request = i

/-- The invariant at an invocation that holds the semaphore, read off its phase. -/
theorem Matched.at_phase {x : S2C ι} {h : Option ι} {i : ι} {p : Performing ι} (hm : x.Matched h)
    (hp : x.phase i = p) (hold : p.holds = true) :
    h = some i ∧ x.Slots h p ∧ (x.thread.loc.th.deferReplyForS2C = true → p.defers = true) ∧
      x.signals + x.enterSemaphore = p.awaitsEnter.toNat := by
  have hi : h = some i := hm.holder.eq_some (hp ▸ hold)
  have hs : x.stage h = p := by rw [hi]; exact hp
  exact ⟨hi, hs ▸ hm.slots, hs ▸ hm.defers, hs ▸ hm.signalled⟩

end

/-! ## How the parts change -/

theorem go_phase (i j : ι) (p : Performing ι) : (x.go i p).phase j = if j = i then p else x.phase j :=
  Function.update_apply ..

section holder

variable {h : Option ι} {p : Performing ι}

/-- The invocation that moves is the only one whose hold can change. -/
theorem Holder.holds_go {h' : Option ι} (hh : x.Holder h) (hi : p.holds = true ↔ h' = some i)
    (ho : ∀ j, j ≠ i → (h = some j ↔ h' = some j)) (j : ι) : ((x.go i p).phase j).holds = true ↔ h' = some j := by
  rw [go_phase]
  split
  · subst j; exact hi
  · exact (hh.2 j).trans (ho j ‹_›)

theorem Holder.take (hh : x.Holder none) (hp : p.holds = true) (n : Nat) (hn : n = 0) :
    ({ x with performSemaphore := n }.go i p).Holder (some i) := by
  refine ⟨hn, hh.holds_go (iff_of_true hp rfl) ?_⟩
  intro j hj
  simp [Ne.symm hj]

theorem Holder.keep (hh : x.Holder (some i)) (hp : p.holds = true) : (x.go i p).Holder (some i) :=
  ⟨hh.1, hh.holds_go (iff_of_true hp rfl) fun _ _ => Iff.rfl⟩

theorem Holder.drop (hh : x.Holder (some i)) (hp : p.holds = false) : (x.upPerform.go i p).Holder none := by
  refine ⟨congrArg (· + 1) hh.1, hh.holds_go (by simp [hp]) ?_⟩
  intro j hj
  simp [Ne.symm hj]

theorem Holder.out (hh : x.Holder h) (hi : (x.phase i).holds = false) (hp : p.holds = false) :
    (x.go i p).Holder h := by
  refine ⟨hh.1, hh.holds_go (iff_of_false (by simp [hp]) ?_) fun _ _ => Iff.rfl⟩
  intro he
  rw [(hh.2 i).2 he] at hi; cases hi

theorem Holder.stage_out (hh : x.Holder h) (hi : (x.phase i).holds = false) : (x.go i p).stage h = x.stage h := by
  cases h with
  | none => rfl
  | some j =>
    have hj := (hh.2 j).2 rfl
    have hne : j ≠ i := fun e => by rw [e, hi] at hj; cases hj
    simp [stage, go_phase, hne]

theorem stage_go : (x.go i p).stage (some i) = p := by simp [stage, go_phase]

end holder

theorem own_go {p : Performing ι} (h : ∀ j r, (x.phase j).reply = some r → r.request = j)
    (hp : ∀ r, p.reply = some r → r.request = i) (j : ι) (r : S2CReply ι)
    (hr : ((x.go i p).phase j).reply = some r) : r.request = j := by
  rw [go_phase] at hr
  split at hr
  · subst j; exact hp r hr
  · exact h j r hr

theorem hands_go {p : Performing ι} (hp : (x.phase i).hands = p.hands) (j : ι) :
    ((x.go i p).phase j).hands = (x.phase j).hands := by
  rw [go_phase]
  split
  · subst j; exact hp.symm
  · rfl

/-- The thread's own steps leave the flag alone, and only store a reply under it. -/
theorem thread_defers {s s' : State} {l : Label} (h : s.step l = some s') (hd : l ≠ .s2cDefer)
    (hr : l ≠ .s2cRelease) :
    s'.loc.th.deferReplyForS2C = s.loc.th.deferReplyForS2C ∧
      (s'.loc.th.deferredReply ≠ none → s.loc.th.deferredReply ≠ none ∨ s.loc.th.deferReplyForS2C = true) := by
  obtain ⟨-, -, ⟨f, -, rfl⟩ | ⟨y, b, he, rfl⟩⟩ := step_cases h
  · exact ⟨rfl, .inl⟩
  · rw [account_loc]
    cases he with
    | replyReturn _ _ _ _ _ ha hl | syscallReturn _ _ _ ha hl =>
      cases hl <;> cases ha <;> first | exact ⟨rfl, .inl⟩ | exact ⟨rfl, fun _ => .inr ‹_›⟩
    | replyExit _ _ _ _ ha => cases ha <;> first | exact ⟨rfl, .inl⟩ | exact ⟨rfl, fun _ => .inr ‹_›⟩
    | replyDirect _ _ _ _ hl | finish _ _ hl | exitPop _ _ _ hl | exitPopSaved _ _ _ hl =>
      cases hl <;> exact ⟨rfl, .inl⟩
    | dispatchDone _ _ _ hw | doneFree _ _ _ hw | doneKeep _ _ _ hw => cases hw <;> exact ⟨rfl, .inl⟩
    | s2cDefer => exact absurd rfl hd
    | s2cIdle | s2cClear | s2cFlush => exact absurd rfl hr
    | _ => exact ⟨rfl, .inl⟩

/-- No wait for the enter or the reply semaphore is interrupted, and every
invocation is made by a microthread. -/
def calm (inv : ι → Invocation) (x : S2C ι) : S2CLabel ι → Bool
  | .interrupt i => x.phase i = .waitingPerform
  | .send i => (inv i).onMicrothread
  | _ => true

variable {h : Option ι}

/-- A step of the holder that keeps the semaphore. -/
theorem Matched.keep {y : S2C ι} {p : Performing ι} (hm : x.Matched (some i)) (hp : p.holds = true)
    (hy : y.phase = x.phase) (hc : y.performSemaphore = x.performSemaphore)
    (slots : (y.go i p).Slots (some i) p)
    (defers : y.thread.loc.th.deferReplyForS2C = true → p.defers = true)
    (deferred : y.thread.loc.th.deferredReply ≠ none → y.thread.loc.th.deferReplyForS2C = true)
    (signalled : y.signals + y.enterSemaphore = p.awaitsEnter.toNat)
    (raised : y.enterRaised = x.enterRaised) (given : y.exitGiven = x.exitGiven)
    (tokens : p.owesExit.toNat + y.enterSemaphore = (x.phase i).owesExit.toNat + x.enterSemaphore)
    (own : ∀ r, p.reply = some r → r.request = i) : (y.go i p).Matched (some i) where
  holder := Holder.keep ⟨hc ▸ hm.holder.1, hy ▸ hm.holder.2⟩ hp
  slots := by rw [stage_go]; exact slots
  defers := by rw [stage_go]; exact defers
  deferred := deferred
  signalled := by rw [stage_go]; exact signalled
  tokens := by
    obtain ⟨handing, hn, hi, ht⟩ := hm.tokens
    have hold := (hm.holder.2 i).2 rfl
    have hh : (y.phase i).hands = p.hands := by
      rw [hy, Performing.hands_of_holds hold, Performing.hands_of_holds hp]
    refine ⟨handing, hn, fun j => by rw [hands_go hh, hy]; exact hi j, ?_⟩
    rw [stage_go]
    simp only [stage, Option.elim_some] at ht
    simp only [go, raised, given]
    omega
  own := own_go (hy ▸ hm.own) own

/-- A step of the holder that raises the semaphore. -/
theorem Matched.drop {p : Performing ι} (hm : x.Matched (some i)) (hp : p.holds = false) (quiet : x.Quiet)
    (defers : x.thread.loc.th.deferReplyForS2C = false) (waits : (x.phase i).awaitsEnter = false)
    (hands : p.hands = (x.phase i).owesExit) (own : ∀ r, p.reply = some r → r.request = i) :
    (x.upPerform.go i p).Matched none where
  holder := hm.holder.drop hp
  slots := quiet
  defers hd := by cases defers.symm.trans hd
  deferred := hm.deferred
  signalled := by
    have hs := hm.signalled
    rw [show x.stage (some i) = x.phase i from rfl, waits] at hs
    exact hs
  tokens := by
    obtain ⟨handing, hn, hi, ht⟩ := hm.tokens
    have hnot : (x.phase i).hands = false := Performing.hands_of_holds ((hm.holder.2 i).2 rfl)
    rw [show x.stage (some i) = x.phase i from rfl] at ht
    cases ho : (x.phase i).owesExit with
    | false =>
      refine ⟨handing, hn, fun j => ?_, ?_⟩
      · rw [hands_go (x := x.upPerform) (hnot.trans (hands.trans ho).symm)]
        exact hi j
      · rw [ho] at ht
        exact ht
    | true =>
      refine ⟨i :: handing, List.nodup_cons.2 ⟨fun hj => ?_, hn⟩, fun j => ?_, ?_⟩
      · cases hnot.symm.trans ((hi i).1 hj)
      · have := hi j
        simp only [List.mem_cons, go_phase, upPerform]
        split <;> simp_all
      · rw [ho, Bool.toNat_true] at ht
        change x.enterRaised = x.exitGiven + (handing.length + 1) + 0 + x.enterSemaphore
        omega
  own := own_go (x := x.upPerform) hm.own own

/-- A step of an invocation that does not hold the semaphore, before or after. -/
theorem Matched.out {p : Performing ι} (hm : x.Matched h) (hi : (x.phase i).holds = false) (hp : p.holds = false)
    (hands : (x.phase i).hands = p.hands) (own : ∀ r, p.reply = some r → r.request = i) :
    (x.go i p).Matched h where
  holder := hm.holder.out hi hp
  slots := by
    rw [hm.holder.stage_out hi]
    have hs := hm.slots
    cases hx : x.stage h <;> rw [hx] at hs <;> exact hs
  defers := by rw [hm.holder.stage_out hi]; exact hm.defers
  deferred := hm.deferred
  signalled := by rw [hm.holder.stage_out hi]; exact hm.signalled
  tokens := by
    rw [hm.holder.stage_out hi]
    obtain ⟨handing, hn, hj, ht⟩ := hm.tokens
    exact ⟨handing, hn, fun j => by rw [hands_go hands]; exact hj j, ht⟩
  own := own_go hm.own own

/-- `hand` takes the invocation off the list of those that owe an exit token. -/
theorem Matched.hand {r : S2CReply ι} (hm : x.Matched h) (hp : x.phase i = .handing r) :
    ({ x with exitSemaphore := x.exitSemaphore + 1, exitGiven := x.exitGiven + 1 }.go i (.validating r)).Matched h := by
  have hi : (x.phase i).holds = false := by rw [hp]; rfl
  have hst : ({ x with exitSemaphore := x.exitSemaphore + 1, exitGiven := x.exitGiven + 1 }.go i
    (.validating r)).stage h = x.stage h := hm.holder.stage_out hi
  obtain ⟨handing, hn, hj, ht⟩ := hm.tokens
  have hmem : i ∈ handing := (hj i).2 (by rw [hp]; rfl)
  refine ⟨hm.holder.out hi rfl, ?_, ?_, hm.deferred, ?_, ⟨handing.erase i, hn.erase i, fun j => ?_, ?_⟩, ?_⟩
  · rw [hst]
    have hs := hm.slots
    cases hx : x.stage h <;> rw [hx] at hs <;> exact hs
  · rw [hst]; exact hm.defers
  · rw [hst]; exact hm.signalled
  · rw [hn.mem_erase_iff, go_phase, hj j]
    split
    · simp_all [Performing.hands]
    · simp_all
  · rw [hst, List.length_erase_of_mem hmem]
    have := List.length_pos_of_mem hmem
    change x.enterRaised = x.exitGiven + 1 + _ + _ + x.enterSemaphore
    omega
  · exact own_go hm.own (hm.own i · <| by rw [hp]; exact ·)

/-- `s2cDefer` sets the flag and nothing else of it; `s2cRelease` clears both. -/
theorem s2cDefer_deferred {s s' : State} (h : s.step .s2cDefer = some s') :
    s'.loc.th.deferReplyForS2C = true := by
  obtain ⟨-, -, ⟨f, hf, -⟩ | ⟨y, b, he, rfl⟩⟩ := step_cases h
  · simp [Local.core] at hf
  · cases he; rfl

theorem s2cRelease_deferred {s s' : State} (h : s.step .s2cRelease = some s')
    (hd : s.loc.th.deferredReply ≠ none → s.loc.th.deferReplyForS2C = true) :
    s'.loc.th.deferReplyForS2C = false ∧ s'.loc.th.deferredReply = none := by
  obtain ⟨-, -, ⟨f, hf, -⟩ | ⟨y, b, he, rfl⟩⟩ := step_cases h
  · simp [Local.core] at hf
  · rw [account_loc]
    cases he with
    | s2cIdle hf =>
      refine ⟨hf, ?_⟩
      by_contra hn
      cases hf.symm.trans (hd hn)
    | s2cClear | s2cFlush => exact ⟨rfl, rfl⟩

/-- The client answers a request. -/
theorem Asked.answer {r : S2CReply ι} (ha : x.Asked i) (hr : r.request ∈ x.requests) :
    ({ x with requests := x.requests.erase r.request, s2cReply := some r, storing := true } : S2C ι).Asked i := by
  rcases ha with ⟨hq, -, -, hc⟩ | ⟨hq, -, -⟩
  · obtain rfl : r.request = i := by simpa [hq] using hr
    exact .inr ⟨by simp [hq], ⟨r, rfl, rfl⟩, by simp [hc]⟩
  · simp [hq] at hr

omit [DecidableEq ι] in
/-- Only while a reply is awaited is there a request to answer or a reply to announce. -/
theorem Matched.asked (hm : x.Matched h) (hx : x.requests ≠ [] ∨ x.storing = true) :
    ∃ i u, h = some i ∧ x.phase i = .waitingReply u ∧ x.Asked i := by
  have hs := hm.slots
  cases h with
  | none => exact absurd hs fun hq : x.Quiet => by rcases hx with hx | hx <;> simp [hq.1, hq.2.2.1] at hx
  | some i =>
    change x.Slots (some i) (x.phase i) at hs
    cases hp : x.phase i with
    | waitingReply u =>
      rw [hp] at hs
      obtain ⟨j, hj, ha⟩ := hs
      cases hj
      exact ⟨i, u, rfl, hp, ha⟩
    | taking u =>
      rw [hp] at hs
      obtain ⟨j, -, hq, -, ht, -⟩ := hs
      simp [hq, ht] at hx
    | _ =>
      rw [hp] at hs
      have hq : x.Quiet := hs
      simp [hq.1, hq.2.2.1] at hx

theorem Matched.answer {r : S2CReply ι} (hm : x.Matched h) (hr : r.request ∈ x.requests) :
    ({ x with requests := x.requests.erase r.request, s2cReply := some r, storing := true } : S2C ι).Matched h := by
  obtain ⟨i, u, rfl, hp, ha⟩ := hm.asked (.inl (List.ne_nil_of_mem hr))
  refine { hm with slots := (?_ : S2C.Slots _ (some i) (x.phase i)) }
  rw [hp]
  exact ⟨i, rfl, ha.answer hr⟩

omit [DecidableEq ι] in
theorem Matched.raiseReply (hm : x.Matched h) (hs : x.storing = true) :
    ({ x with storing := false, replySemaphore := x.replySemaphore + 1 } : S2C ι).Matched h := by
  obtain ⟨i, u, rfl, hp, ha⟩ := hm.asked (.inr hs)
  refine { hm with slots := (?_ : S2C.Slots _ (some i) (x.phase i)) }
  rw [hp]
  refine ⟨i, rfl, .inr ?_⟩
  rcases ha with ⟨-, -, hn, -⟩ | ⟨hq, hr, hc⟩
  · cases hn.symm.trans hs
  · refine ⟨hq, hr, ?_⟩
    simp only [hs, Bool.toNat_true, Bool.toNat_false] at hc ⊢
    omega

omit [DecidableEq ι] in
theorem Matched.raiseEnter (hm : x.Matched h) (hs : x.signals ≠ 0) :
    ({ x with
      signals := x.signals - 1
      enterSemaphore := x.enterSemaphore + 1
      enterRaised := x.enterRaised + 1
      waitingExit := x.waitingExit + 1 } : S2C ι).Matched h := by
  refine { hm with signalled := ?_, tokens := ?_ }
  · have hw := hm.signalled
    change x.signals - 1 + (x.enterSemaphore + 1) = (x.stage h).awaitsEnter.toNat
    omega
  · obtain ⟨handing, hn, hj, ht⟩ := hm.tokens
    refine ⟨handing, hn, hj, ?_⟩
    change x.enterRaised + 1 = x.exitGiven + handing.length + (x.stage h).owesExit.toNat + (x.enterSemaphore + 1)
    omega

theorem matched_effect (hm : x.Matched h) (hg : calm inv x l = true) (he : Moves inv x l x') :
    ∃ h', x'.Matched h' := by
  cases he with
  | thread hd hr ht =>
    obtain ⟨hf, hdr⟩ := thread_defers ht hd hr
    refine ⟨h, { hm with defers := fun hx => hm.defers (hf ▸ hx), deferred := fun hx => ?_ }⟩
    rcases hdr hx with hx | hx
    · exact hf.trans (hm.deferred hx)
    · exact hf.trans hx
  | @downPerform i hp hc =>
    obtain rfl := hm.holder.eq_none hc
    obtain ⟨handing, hn, hj, ht⟩ := hm.tokens
    refine ⟨some i, hm.holder.take rfl _ ?_, ?_, ?_, hm.deferred, ?_, ⟨handing, hn, fun j => ?_, ?_⟩, ?_⟩
    · rw [hm.holder.1]; rfl
    · rw [stage_go]; exact hm.slots
    · rw [stage_go]; exact hm.defers
    · rw [stage_go]; exact hm.signalled
    · rw [hands_go (by change (x.phase i).hands = _; rw [hp]; rfl)]; exact hj j
    · rw [stage_go]; exact ht
    · exact own_go hm.own fun r hr => by cases hr
  | downEnter hp hc =>
    obtain ⟨rfl, hq, hd, hw⟩ := hm.at_phase hp rfl
    simp only [Performing.awaitsEnter, Bool.toNat_true] at hw
    refine ⟨_, hm.keep rfl rfl rfl hq (fun hx => by cases hd hx) hm.deferred ?_ rfl rfl ?_ fun r hr => by cases hr⟩
    · change x.signals + (x.enterSemaphore - 1) = 0
      omega
    · rw [hp]
      change 1 + (x.enterSemaphore - 1) = 0 + x.enterSemaphore
      omega
  | @downReply i _ hp hc =>
    obtain ⟨rfl, ⟨j, hj, hq⟩, hd, hw⟩ := hm.at_phase hp rfl
    cases hj
    have ha : x.requests = [] ∧ (∃ r, x.s2cReply = some r ∧ r.request = i) ∧ x.storing = false ∧
        x.replySemaphore - 1 = 0 := by
      rcases hq with ⟨-, -, -, hn⟩ | ⟨hq, hr, hs⟩
      · exact absurd hn hc
      · cases hst : x.storing <;> simp [hst] at hs
        · exact ⟨hq, hr, rfl, by omega⟩
        · exact absurd hs hc
    exact ⟨_, hm.keep rfl rfl rfl ⟨_, rfl, ha⟩ hd hm.deferred hw rfl rfl (by rw [hp]; rfl) fun r hr => by cases hr⟩
  | interruptPerform hp => exact ⟨h, hm.out (by rw [hp]; rfl) rfl (by rw [hp]; rfl) (fun r hr => by cases hr)⟩
  | interruptEnter hp => simp [calm, hp] at hg
  | interruptReply hp => simp [calm, hp] at hg
  | lookIdle hp | lookOwn hp =>
    obtain ⟨rfl, hq, hd, hw⟩ := hm.at_phase hp rfl
    exact ⟨_, hm.keep rfl rfl rfl hq (fun hx => by cases hd hx) hm.deferred hw rfl rfl (by rw [hp]; rfl)
      fun r hr => by cases hr⟩
  | lookDefer hp ht =>
    obtain ⟨rfl, hq, hd, hw⟩ := hm.at_phase hp rfl
    exact ⟨_, hm.keep rfl rfl rfl hq (fun _ => rfl) (fun _ => s2cDefer_deferred ht) hw rfl rfl (by rw [hp]; rfl)
      fun r hr => by cases hr⟩
  | signal hp =>
    obtain ⟨rfl, hq, hd, hw⟩ := hm.at_phase hp rfl
    refine ⟨_, hm.keep rfl rfl rfl hq (fun hx => by cases hd hx) hm.deferred ?_ rfl rfl (by rw [hp]; rfl)
      fun r hr => by cases hr⟩
    change x.signals + 1 + x.enterSemaphore = 1
    change x.signals + x.enterSemaphore = 0 at hw
    omega
  | @send i u hp hi =>
    obtain ⟨rfl, hq, hd, hw⟩ := hm.at_phase hp rfl
    have hq : x.Quiet := hq
    refine ⟨_, hm.keep rfl rfl rfl ⟨_, rfl, .inl ⟨?_, hq.2⟩⟩ hd hm.deferred hw rfl rfl (by rw [hp]; rfl)
      fun r hr => by cases hr⟩
    change x.requests ++ [i] = [i]
    rw [hq.1]; rfl
  | sendRefused hp hi => cases hi.symm.trans hg
  | takeNothing hp hr =>
    obtain ⟨rfl, ⟨i, hi, -, ⟨r, hs, -⟩, -⟩, -⟩ := hm.at_phase hp rfl
    cases hr.symm.trans hs
  | take hp hr ht =>
    obtain ⟨rfl, ⟨i, hi, hq, ⟨r, hs, hown⟩, hst, hc⟩, hd, hw⟩ := hm.at_phase hp rfl
    cases hi
    cases hr.symm.trans hs
    obtain ⟨hf, hdr⟩ := s2cRelease_deferred ht hm.deferred
    exact ⟨_, hm.keep rfl rfl rfl ⟨hq, rfl, hst, hc⟩ (fun hx => by cases hf.symm.trans hx)
      (fun hx => absurd hdr hx) hw rfl rfl (by rw [hp]; rfl) fun r hr => by cases hr; exact hown⟩
  | release hp | releaseSignalled hp =>
    obtain ⟨rfl, hq, hd, hw⟩ := hm.at_phase hp rfl
    exact ⟨_, hm.drop rfl hq (Bool.eq_false_iff.2 fun hx => by cases hd hx) (by rw [hp]; rfl) (by rw [hp]; rfl)
      fun r hr => hm.own _ r (by rw [hp]; exact hr)⟩
  | hand hp => exact ⟨h, hm.hand hp⟩
  | validate hp =>
    exact ⟨h, hm.out (by rw [hp]; rfl) rfl (by rw [hp]; rfl) (fun r hr => hm.own _ r (by rw [hp]; exact hr))⟩
  | refuse hp => exact ⟨h, hm.out (by rw [hp]; rfl) rfl (by rw [hp]; rfl) (fun r hr => by cases hr)⟩
  | answer hs hr hn => exact ⟨h, hm.answer hr⟩
  | raiseReply hs => exact ⟨h, hm.raiseReply hs⟩
  | raiseEnter hs => exact ⟨h, hm.raiseEnter hs⟩
  | answerTwice | downExit | interruptExit => exact ⟨h, { hm with }⟩

/-! ## Every run -/

theorem matched (hr : Reach (step inv) (fun x l => calm inv x l = true) Init x) : ∃ h, x.Matched h := by
  refine hr.inv (fun x => ∃ h, x.Matched h) ?_ fun x l x' ⟨h, hm⟩ hg hst => matched_effect hm hg (step_effect hst)
  rintro x ⟨s, hs, rfl⟩
  have hd : s.loc.th.deferReplyForS2C = false ∧ s.loc.th.deferredReply = none := by
    rcases hs with rfl | ⟨k, rfl⟩ <;> exact ⟨rfl, rfl⟩
  exact ⟨none, ⟨rfl, fun i => by simp [Performing.holds]⟩, ⟨rfl, rfl, rfl, rfl⟩, fun h => (by cases hd.1.symm.trans h),
    fun h => absurd hd.2 h, rfl, ⟨[], List.nodup_nil, fun i => by simp [Performing.hands], rfl⟩, fun i r h => by cases h⟩

/-- No invocation holds the perform semaphore. -/
def Free (x : S2C ι) : Prop := ∀ i, (x.phase i).holds = false

/-- Invocations return the replies to their own requests and leave nothing behind. -/
structure Answers (x : S2C ι) : Prop where
  own : ∀ i r, x.phase i = .returned (some r) → r.request = i
  deferReply : x.Free → x.thread.loc.th.deferReplyForS2C = false
  deferredReply : x.Free → x.thread.loc.th.deferredReply = none
  s2cReply : x.Free → x.s2cReply = none
  replySemaphore : x.Free → x.replySemaphore = 0
  exits : x.Free → (∀ i, (x.phase i).hands = false) → x.enterRaised = x.exitGiven

/-- In every interleaving of invocations by microthreads, with the thread's own
steps and the client's, in which no wait for the enter or the reply semaphore is
interrupted, replies match requests and every path out restores what it found. -/
theorem s2c_replies_matched (hr : Reach (step inv) (fun x l => calm inv x l = true) Init x) : x.Answers := by
  obtain ⟨h, hm⟩ := matched hr
  have free : x.Free → h = none := by
    intro hf
    cases h with
    | none => rfl
    | some i => cases (hf i).symm.trans ((hm.holder.2 i).2 rfl)
  have settled (hf : x.Free) : x.Quiet ∧ x.thread.loc.th.deferReplyForS2C = false := by
    obtain rfl := free hf
    exact ⟨hm.slots, Bool.eq_false_iff.2 fun hd => by cases hm.defers hd⟩
  refine ⟨fun i r hp => hm.own i r (by rw [hp]; rfl), fun hf => (settled hf).2, fun hf => ?_,
    fun hf => (settled hf).1.2.1, fun hf => (settled hf).1.2.2.2, fun hf hh => ?_⟩
  · by_contra hn
    cases (settled hf).2.symm.trans (hm.deferred hn)
  · obtain rfl := free hf
    obtain ⟨handing, -, hi, ht⟩ := hm.tokens
    have hnil : handing = [] := List.eq_nil_iff_forall_not_mem.2 fun i hi' => by
      cases (hh i).symm.trans ((hi i).1 hi')
    have hw := hm.signalled
    simp only [stage, Option.elim_none, Performing.awaitsEnter, Performing.owesExit, hnil, List.length_nil,
      Bool.toNat_false] at ht hw
    omega

def mmapInvocation (_ : Nat) : Invocation := { expectedReplyNumber := 1, expectedReplySize := 16 }

/-- One invocation that signals the client, and one that holds back the reply of a call in progress. -/
def twoPerforms : List (S2CLabel Nat) :=
  [.down 0, .look 0, .signal 0, .raiseEnter, .down 0, .send 0, .answer ⟨0, 16, 1⟩, .raiseReply, .down 0, .take 0,
    .release 0, .hand 0, .downExit, .validate 0, .thread (.recv (.plain 0)), .thread .push, .thread .pop,
    .thread .dispatch, .thread .activate, .down 1, .look 1, .send 1, .thread (.reply .byReturn), .answer ⟨1, 16, 1⟩,
    .raiseReply, .down 1, .take 1, .release 1, .validate 1]

theorem s2c_replies_matched_two : ∃ x : S2C Nat,
    exec (step mmapInvocation) (calm mmapInvocation) {} twoPerforms = some x ∧
    x.phase 0 = .returned (some ⟨0, 16, 1⟩) ∧ x.phase 1 = .returned (some ⟨1, 16, 1⟩) ∧
    x.thread.loc.sent = [⟨⟨0, .plain 0⟩⟩] ∧ x.enterRaised = 1 ∧ x.Answers := by
  have hrun : (exec (step mmapInvocation) (calm mmapInvocation) {} twoPerforms).map
      (fun x => (x.phase 0, x.phase 1, x.thread.loc.sent, x.enterRaised)) =
      some (.returned (some ⟨0, 16, 1⟩), .returned (some ⟨1, 16, 1⟩), [⟨⟨0, .plain 0⟩⟩], 1) := by decide
  obtain ⟨x, hx, hs⟩ := Option.map_eq_some_iff.1 hrun
  simp only [Prod.mk.injEq] at hs
  obtain ⟨h₁, h₂, h₃, h₄⟩ := hs
  exact ⟨x, hx, h₁, h₂, h₃, h₄,
    s2c_replies_matched (exec_reach (fun _ _ hg => hg) hx (.init ⟨{}, .inl rfl, rfl⟩))⟩

/-- The first invocation is interrupted while it waits for its reply. The reply
comes late, and the second invocation takes it for its own. -/
theorem late_reply_taken : ¬ ∀ (inv : Nat → Invocation) (x : S2C Nat), (∀ i, (inv i).onMicrothread = true) →
    Reach (step inv) (fun _ _ => True) Init x → x.Answers := by
  intro h
  have hrun : (exec (step mmapInvocation) (fun _ _ => true) {} ([.thread (.recv (.plain 0)), .thread .push,
      .thread .pop, .thread .dispatch, .thread .activate, .down 0, .look 0, .send 0, .interrupt 0, .down 1, .look 1,
      .send 1, .answer ⟨0, 16, 1⟩, .raiseReply, .down 1, .take 1, .release 1, .validate 1])).map (·.phase 1) =
      some (.returned (some ⟨0, 16, 1⟩)) := by decide
  obtain ⟨x, hx, hs⟩ := Option.map_eq_some_iff.1 hrun
  have := (h mmapInvocation x (fun _ => rfl)
    (exec_reach (fun _ _ _ => trivial) hx (.init ⟨{}, .inl rfl, rfl⟩))).own 1 _ hs
  exact absurd this (by decide)

end S2C

end DarlingServer
