import DarlingServer.Checkin
import DarlingServer.Lib.Runs
import Mathlib.Data.List.Nodup
import Mathlib.Logic.Function.Basic
/-!
# Processes, forks and execves

The processes of the server, with what their clients are up to: every thread of
a program checks in, a program may be replaced by an execve, and
`fork_wait_for_child` waits on the semaphore that the checkins of children raise.

The hang-up of an exec pipe reaches the main loop through epoll, and the checkin of
the new image comes as a datagram that a worker handles; nothing orders the two.

Fork accounting is by checkin and not by child: a second thread of a child counts
as another child.
-/

namespace DarlingServer

open Runs

/-! ## The machine -/

/-- What becomes of an execve. -/
inductive Execve where
  /-- Replaced by a Darling program, for the given architecture. -/
  | darling (architecture : Nat)
  | foreign
  | failed
  deriving DecidableEq, Repr

/-- How the exec pipe ends: on success it is closed with nothing in it. -/
inductive PipeEnd where
  | darling
  | foreign
  | failed
  deriving DecidableEq, Repr

def Execve.pipeEnd : Execve → PipeEnd
  | .darling _ => .darling
  | .foreign => .foreign
  | .failed => .failed

/-- The program of a process. -/
inductive Image where
  | running (architecture : Nat)
  /-- Loaded by an execve, with its checkin still to be handled. -/
  | execed (architecture : Nat)
  | foreign
  deriving DecidableEq, Repr

def Image.after (image : Image) : Execve → Image
  | .darling architecture => .execed architecture
  | .foreign => .foreign
  | .failed => image

/-- A process with its program, and what has happened to it so far. -/
structure Relative (ι : Type*) where
  process : Process
  /-- `_parentProcess`. -/
  parent : Option ι
  image : Image
  /-- The process is registered, and a weak pointer to it can be locked. -/
  alive : Bool := true
  /-- The exec pipes that have hung up, with the monitor still to be called. -/
  pipes : List PipeEnd := []
  execves : Nat := 0
  replacements : Nat := 0
  noteExecs : Nat := 0
  /-- How often its fork-wait semaphore was raised. -/
  increments : Nat := 0
  /-- The data of the `NOTE_FORK` events sent to its listeners. -/
  noteForks : List Int := []
  /-- How many `fork_wait_for_child` calls have returned. -/
  returned : Nat := 0

structure Family (ι : Type*) where
  entry : ι → Option (Relative ι) := fun _ => none
  /-- The processes that have had a checkin handled, each once. -/
  arrived : List ι := []
  /-- The exception that ended the server. -/
  down : Option CheckinFault := none

inductive FamilyLabel (ι : Type*) where
  | create (i : ι) (nsid : Int) (architecture : Nat) (parent : Option ι)
  /-- A thread of the running program checks in. -/
  | checkin (i : ι) (nstid : Int)
  /-- A thread checks out, and is unregistered. -/
  | checkout (i : ι) (nstid : Int)
  /-- The checkout with the exec pipe was answered, and the client went on to its execve. -/
  | execve (i : ι) (e : Execve)
  /-- The main thread of the new program checks in. -/
  | execCheckin (i : ι)
  | hangUp (i : ι) (pipe : PipeEnd)
  | forkWait (i : ι) (interrupted : Bool)
  | exit (i : ι)

namespace Relative

variable {ι : Type*}

/-- `dtape_semaphore_up` and `NOTE_FORK`, for the child with the given nsid. -/
def credit (e : Relative ι) (nsid : Int) : Relative ι :=
  { e with
    process := { e.process with forkWaitSemaphore := e.process.forkWaitSemaphore + 1 }
    increments := e.increments + 1
    noteForks := e.noteForks ++ [nsid] }

/-- The monitor of the exec pipe. -/
def hangUp (e : Relative ι) (pipe : PipeEnd) : Relative ι :=
  let e := { e with pipes := e.pipes.erase pipe }
  match pipe with
  | .darling => { e with process := e.process.setPendingReplacement }
  | .foreign => { e with alive := false }
  | .failed => e

/-- `waitForChildAfterFork`: the result of the wait is not looked at. -/
def forkWait (e : Relative ι) (interrupted : Bool) : Option (Relative ι) :=
  if interrupted then some { e with returned := e.returned + 1 }
  else if e.process.forkWaitSemaphore = 0 then none
  else some { e with
    process := { e.process with forkWaitSemaphore := e.process.forkWaitSemaphore - 1 }
    returned := e.returned + 1 }

def execve (e : Relative ι) (x : Execve) : Relative ι :=
  { e with
    image := e.image.after x
    pipes := e.pipes ++ [x.pipeEnd]
    execves := e.execves + if x.pipeEnd = .darling then 1 else 0 }

end Relative

namespace Family

variable {ι : Type*} [DecidableEq ι]

def set (s : Family ι) (i : ι) (e : Relative ι) : Family ι :=
  { s with entry := Function.update s.entry i (some e) }

omit [DecidableEq ι] in
/-- What the registry finds, or a weak pointer gives. -/
def lock (s : Family ι) (i : ι) : Option (Relative ι) := (s.entry i).filter (·.alive)

/-- What `notifyCheckin` does for the parent. -/
def notifyParent (s : Family ι) (parent : Option ι) (nsid : Int) : Family ι :=
  match parent with
  | none => s
  | some j =>
    match s.lock j with
    | none => s
    | some e => s.set j (e.credit nsid)

/-- Notes that a checkin of the process has been handled. -/
def noteArrival (s : Family ι) (i : ι) : Family ι := { s with arrived := s.arrived.insert i }

/-- `Checkin::processCall` for the thread `nstid` of process `i`, in state `e`. -/
def processCheckin (s : Family ι) (i : ι) (e : Relative ι) (nstid : Int) (architecture : Nat) : Family ι :=
  match (e.process.registerThread nstid).notifyCheckin architecture with
  | .error f => { s with down := some f }
  | .ok (process, .exec _) =>
    (s.set i { e with
      process, image := .running architecture
      replacements := e.replacements + 1, noteExecs := e.noteExecs + 1 }).noteArrival i
  | .ok (process, .fork) =>
    ((s.set i { e with process, image := .running architecture }).notifyParent e.parent process.nsid).noteArrival i

def step (s : Family ι) (l : FamilyLabel ι) : Option (Family ι) :=
  if s.down.isSome then none
  else
    match l with
    | .create i nsid architecture parent =>
      if (s.entry i).isNone && parent.all fun j => (s.lock j).isSome then
        some (s.set i { process := { nsid, architecture }, parent, image := .running architecture })
      else none
    | .checkin i nstid => do
      let e ← s.lock i
      match e.image with
      | .running architecture => some (s.processCheckin i e nstid architecture)
      | _ => none
    | .checkout i nstid => do
      let e ← s.lock i
      some (s.set i { e with
        process := { e.process with threads := e.process.threads.filter (·.nsid ≠ nstid) } })
    | .execve i x => do
      let e ← s.lock i
      match e.image with
      | .running _ => some (s.set i (e.execve x))
      | _ => none
    | .execCheckin i => do
      let e ← s.lock i
      match e.image with
      | .execed architecture => some (s.processCheckin i e e.process.nsid architecture)
      | _ => none
    | .hangUp i pipe => do
      let e ← s.lock i
      if pipe ∈ e.pipes then some (s.set i (e.hangUp pipe)) else none
    | .forkWait i interrupted => do
      let e ← s.lock i
      (e.forkWait interrupted).map (s.set i)
    | .exit i => do
      let e ← s.lock i
      some (s.set i { e with alive := false })

def Init (s : Family ι) : Prop := s = {}

/-! ## What a step does -/

inductive Moves (s : Family ι) : FamilyLabel ι → Family ι → Prop
  | create {i nsid architecture parent} : s.entry i = none → (∀ j, parent = some j → ∃ e, s.lock j = some e) →
      Moves s (.create i nsid architecture parent)
        (s.set i { process := { nsid, architecture }, parent, image := .running architecture })
  | checkin {i nstid architecture} (e : Relative ι) : s.lock i = some e → e.image = .running architecture →
      Moves s (.checkin i nstid) (s.processCheckin i e nstid architecture)
  | checkout {i nstid} (e : Relative ι) (threads : List TaskThread) : s.lock i = some e →
      Moves s (.checkout i nstid) (s.set i { e with process := { e.process with threads } })
  | execve {i x architecture} (e : Relative ι) : s.lock i = some e → e.image = .running architecture →
      Moves s (.execve i x) (s.set i (e.execve x))
  | execCheckin {i architecture} (e : Relative ι) : s.lock i = some e → e.image = .execed architecture →
      Moves s (.execCheckin i) (s.processCheckin i e e.process.nsid architecture)
  | hangUp {i pipe} (e : Relative ι) : s.lock i = some e → pipe ∈ e.pipes →
      Moves s (.hangUp i pipe) (s.set i (e.hangUp pipe))
  | forkWait {i interrupted} (e e' : Relative ι) : s.lock i = some e → e.forkWait interrupted = some e' →
      Moves s (.forkWait i interrupted) (s.set i e')
  | exit {i} (e : Relative ι) : s.lock i = some e → Moves s (.exit i) (s.set i { e with alive := false })

theorem step_moves {s s' : Family ι} {l : FamilyLabel ι} (h : s.step l = some s') :
    s.down = none ∧ Moves s l s' := by
  unfold step at h
  split at h
  · cases h
  refine ⟨Option.not_isSome_iff_eq_none.1 ‹_›, ?_⟩
  cases l with
  | create i nsid architecture parent =>
    simp only at h
    split at h
    · rename_i hc
      simp only [Bool.and_eq_true, Option.isNone_iff_eq_none, Option.all_eq_true, Option.isSome_iff_exists] at hc
      cases h; exact .create hc.1 hc.2
    · cases h
  | checkin i nstid =>
    obtain ⟨e, he, h⟩ := Option.bind_eq_some_iff.1 h
    split at h
    · cases h; exact .checkin e he ‹_›
    · cases h
  | checkout i nstid =>
    obtain ⟨e, he, h⟩ := Option.bind_eq_some_iff.1 h
    cases h; exact .checkout e _ he
  | execve i x =>
    obtain ⟨e, he, h⟩ := Option.bind_eq_some_iff.1 h
    split at h
    · cases h; exact .execve e he ‹_›
    · cases h
  | execCheckin i =>
    obtain ⟨e, he, h⟩ := Option.bind_eq_some_iff.1 h
    split at h
    · cases h; exact .execCheckin e he ‹_›
    · cases h
  | hangUp i pipe =>
    obtain ⟨e, he, h⟩ := Option.bind_eq_some_iff.1 h
    split at h
    · cases h; exact .hangUp e he ‹_›
    · cases h
  | forkWait i interrupted =>
    obtain ⟨e, he, h⟩ := Option.bind_eq_some_iff.1 h
    obtain ⟨e', he', rfl⟩ := Option.map_eq_some_iff.1 h
    exact .forkWait e e' he he'
  | exit i =>
    obtain ⟨e, he, h⟩ := Option.bind_eq_some_iff.1 h
    cases h; exact .exit e he

omit [DecidableEq ι] in
theorem lock_eq_some {s : Family ι} {i : ι} {e : Relative ι} :
    s.lock i = some e ↔ s.entry i = some e ∧ e.alive = true := by
  unfold lock
  exact Option.filter_eq_some_iff

theorem set_entry (s : Family ι) (i j : ι) (e : Relative ι) :
    (s.set i e).entry j = if j = i then some e else s.entry j := by
  simp only [set, Function.update_apply]

/-- What is true of every process stays so when one is set to something it is true of. -/
theorem forall_set {P : ι → Relative ι → Prop} {s : Family ι} (h : ∀ j e, s.entry j = some e → P j e) {i : ι}
    {e : Relative ι} (hi : P i e) : ∀ j e', (s.set i e).entry j = some e' → P j e' := by
  intro j e' hj
  rw [set_entry] at hj
  split at hj
  · cases hj; subst j; exact hi
  · exact h j e' hj

theorem exists_set {s : Family ι} {i j : ι} {e : Relative ι} (h : ∃ e, s.entry j = some e) :
    ∃ e', (s.set i e).entry j = some e' := by
  rw [set_entry]
  split
  · exact ⟨_, rfl⟩
  · exact h

/-- The parent is credited, or there is none to be. -/
theorem notifyParent_cases (s : Family ι) (parent : Option ι) (nsid : Int) :
    (s.notifyParent parent nsid = s ∧ ∀ j, parent = some j → s.lock j = none) ∨
      ∃ j e, parent = some j ∧ s.lock j = some e ∧ s.notifyParent parent nsid = s.set j (e.credit nsid) := by
  cases parent with
  | none => exact .inl ⟨rfl, nofun⟩
  | some j =>
    cases hj : s.lock j with
    | none =>
      refine .inl ⟨by simp [notifyParent, hj], ?_⟩
      intro k hk; cases hk; exact hj
    | some e => exact .inr ⟨j, e, rfl, hj, by simp [notifyParent, hj]⟩

/-! ## Fork accounting -/

def parentOf (s : Family ι) (i : ι) : Option ι := (s.entry i).bind (·.parent)

/-- How many children of the process have had their first checkin handled. -/
def children (s : Family ι) (j : ι) : Nat := s.arrived.countP fun i => s.parentOf i = some j

/-- Nobody calls execve. -/
def noExecve (_ : Family ι) : FamilyLabel ι → Bool
  | .execve .. | .execCheckin .. | .hangUp .. => false
  | _ => true

/-- And only one thread of each process checks in, and no wait for a child is interrupted. -/
def counted (s : Family ι) : FamilyLabel ι → Bool
  | .checkin i _ => i ∉ s.arrived
  | .forkWait _ interrupted => !interrupted
  | l => s.noExecve l

/-- The counts of a process are those of a parent of `n` children. -/
def Relative.Counts (e : Relative ι) (n : Nat) : Prop :=
  e.increments = n ∧ e.noteForks.length = n ∧ e.returned + e.process.forkWaitSemaphore = n

structure Accounted (s : Family ι) : Prop where
  nodup : s.arrived.Nodup
  made : ∀ i ∈ s.arrived, ∃ e, s.entry i = some e
  parents : ∀ i j, s.parentOf i = some j → ∃ e, s.entry j = some e
  idle : ∀ i e, s.entry i = some e → e.process.pendingReplacement = false
  counts : ∀ j e, s.entry j = some e → e.alive = true → Relative.Counts e (s.children j)

theorem parentOf_set (s : Family ι) (i j : ι) (e : Relative ι) :
    (s.set i e).parentOf j = if j = i then e.parent else s.parentOf j := by
  simp only [parentOf, set_entry]
  split <;> rfl

/-- A process keeps its parent for life. -/
theorem parentOf_set_same {s : Family ι} {i : ι} {e e' : Relative ι} (he : s.entry i = some e)
    (hp : e'.parent = e.parent) : (s.set i e').parentOf = s.parentOf := by
  funext j
  rw [parentOf_set]
  split
  · subst j; simp [parentOf, he, hp]
  · rfl

theorem children_set_same {s : Family ι} {i : ι} {e e' : Relative ι} (he : s.entry i = some e)
    (hp : e'.parent = e.parent) (j : ι) : (s.set i e').children j = s.children j := by
  unfold children
  rw [parentOf_set_same he hp]
  rfl

theorem Accounted.set {s : Family ι} (h : Accounted s) {i : ι} {e e' : Relative ι} (he : s.entry i = some e)
    (hp : e'.parent = e.parent) (hr : e'.process.pendingReplacement = false)
    (hc : e'.alive = true → Relative.Counts e' (s.children i)) : Accounted (s.set i e') where
  nodup := h.nodup
  made := fun j hj => exists_set (h.made j hj)
  parents := by
    intro j k hk
    rw [parentOf_set_same he hp] at hk
    exact exists_set (h.parents j k hk)
  idle := forall_set h.idle hr
  counts := by
    refine forall_set (P := fun j e => e.alive = true → Relative.Counts e ((s.set i e').children j)) ?_ ?_
    · intro j e hj
      rw [children_set_same he hp]
      exact h.counts j e hj
    · rw [children_set_same he hp]
      exact hc

theorem Accounted.create {s : Family ι} (h : Accounted s) {i : ι} {e : Relative ι} (hi : s.entry i = none)
    (hp : ∀ j, e.parent = some j → ∃ e, s.lock j = some e) (hr : e.process.pendingReplacement = false)
    (hc : Relative.Counts e 0) : Accounted (s.set i e) := by
  -- the new process has not arrived, so it is nobody's child yet
  have hchildren : ∀ j, (s.set i e).children j = s.children j := by
    intro j
    refine List.countP_congr fun k hk => ?_
    have hki : k ≠ i := by
      rintro rfl
      obtain ⟨e', he'⟩ := h.made k hk
      rw [hi] at he'; cases he'
    rw [parentOf_set, if_neg hki]
  have hnone : s.children i = 0 := by
    refine List.countP_eq_zero.2 fun k _ => ?_
    simp only [decide_eq_true_eq]
    intro hk
    obtain ⟨e', he'⟩ := h.parents k i hk
    rw [hi] at he'; cases he'
  constructor
  · exact h.nodup
  · exact fun j hj => exists_set (h.made j hj)
  · intro j k hk
    apply exists_set
    rw [parentOf_set] at hk
    split at hk
    · obtain ⟨e', he'⟩ := hp k hk
      exact ⟨e', (lock_eq_some.1 he').1⟩
    · exact h.parents j k hk
  · exact forall_set h.idle hr
  · refine forall_set (P := fun j e' => e'.alive = true → Relative.Counts e' ((s.set i e).children j)) ?_ ?_
    · intro j e' hj
      rw [hchildren]
      exact h.counts j e' hj
    · intro _
      rw [hchildren, hnone]
      exact hc

theorem children_noteArrival {s : Family ι} {i : ι} (hi : i ∉ s.arrived) (j : ι) :
    (s.noteArrival i).children j = s.children j + if s.parentOf i = some j then 1 else 0 := by
  show ((s.arrived.insert i).countP fun k => s.parentOf k = some j) = _
  rw [List.insert_of_not_mem hi, List.countP_cons]
  simp only [children, decide_eq_true_eq]

/-- A process arrives for the first time, and its parent is told. -/
theorem Accounted.arrive {s : Family ι} (h : Accounted s) {i : ι} (he : ∃ e, s.entry i = some e)
    {parent : Option ι} (hparent : s.parentOf i = parent) (hi : i ∉ s.arrived) (nsid : Int) :
    Accounted ((s.notifyParent parent nsid).noteArrival i) := by
  have hnodup : (s.arrived.insert i).Nodup := h.nodup.insert
  have hmade : ∀ k ∈ s.arrived.insert i, ∃ e, s.entry k = some e := by
    intro k hk
    rcases List.mem_insert_iff.1 hk with rfl | hk
    · exact he
    · exact h.made k hk
  rcases notifyParent_cases s parent nsid with ⟨hs, hnone⟩ | ⟨j, ej, hj, hlock, hs⟩
  · rw [hs]
    refine ⟨hnodup, hmade, h.parents, h.idle, ?_⟩
    intro j ej hj ha
    have hl : s.lock j = some ej := lock_eq_some.2 ⟨hj, ha⟩
    have hne : s.parentOf i ≠ some j := by
      intro hp
      rw [hnone j (hparent ▸ hp)] at hl; cases hl
    rw [children_noteArrival hi, if_neg hne]
    exact h.counts j ej hj ha
  · obtain ⟨hentry, halive⟩ := lock_eq_some.1 hlock
    have hsame : (s.set j (ej.credit nsid)).parentOf = s.parentOf := parentOf_set_same hentry rfl
    have hold : ∀ k, (s.set j (ej.credit nsid)).children k = s.children k := children_set_same hentry rfl
    have hchildren : ∀ k, ((s.set j (ej.credit nsid)).noteArrival i).children k =
        s.children k + if k = j then 1 else 0 := by
      intro k
      rw [children_noteArrival (s := s.set j (ej.credit nsid)) hi, hsame, hold, hparent, hj]
      simp only [Option.some.injEq, eq_comm]
    rw [hs]
    refine ⟨hnodup, fun k hk => exists_set (hmade k hk), ?_, forall_set h.idle (h.idle j ej hentry), ?_⟩
    · intro k m hm
      exact exists_set (h.parents k m (hsame ▸ hm))
    · intro k ek hk ha
      rw [hchildren]
      rw [show ((s.set j (ej.credit nsid)).noteArrival i).entry k = (s.set j (ej.credit nsid)).entry k from rfl,
        set_entry] at hk
      split at hk
      · cases hk
        subst k
        obtain ⟨h1, h2, h3⟩ := h.counts j ej hentry halive
        rw [if_pos rfl]
        refine ⟨?_, ?_, ?_⟩ <;> simp [Relative.credit] <;> omega
      · rename_i hne
        rw [if_neg hne]
        exact h.counts k ek hk ha

theorem Accounted.forkWait {s : Family ι} (h : Accounted s) {i : ι} {e e' : Relative ι} (he : s.lock i = some e)
    (hw : e.forkWait false = some e') : Accounted (s.set i e') := by
  obtain ⟨he, ha⟩ := lock_eq_some.1 he
  obtain ⟨h1, h2, h3⟩ := h.counts i e he ha
  unfold Relative.forkWait at hw
  simp only [Bool.false_eq_true, if_false] at hw
  split at hw
  · cases hw
  · cases hw
    refine h.set he rfl (h.idle i e he) fun _ => ⟨h1, h2, ?_⟩
    simp only
    omega

/-- While no execve is about, every checkin goes by the fork case. -/
theorem Accounted.checkin {s : Family ι} (h : Accounted s) {i : ι} {e : Relative ι} (he : s.lock i = some e)
    (hi : i ∉ s.arrived) (nstid : Int) (architecture : Nat) :
    Accounted (s.processCheckin i e nstid architecture) := by
  obtain ⟨he, ha⟩ := lock_eq_some.1 he
  have hidle := h.idle i e he
  have hcounts := h.counts i e he
  unfold processCheckin
  split
  · exact ⟨h.nodup, h.made, h.parents, h.idle, h.counts⟩
  · rename_i heq
    cases Process.notifyCheckin_ok heq with
    | exec t hr => simp [hidle] at hr
  · rename_i heq
    cases Process.notifyCheckin_ok heq with
    | fork hr =>
      have hset : Accounted (s.set i
          { e with process := e.process.registerThread nstid, image := .running architecture }) :=
        h.set he rfl hr fun ha => by simpa [Relative.Counts] using hcounts ha
      exact hset.arrive ⟨_, by rw [set_entry, if_pos rfl]⟩ (by rw [parentOf_set, if_pos rfl]) hi _

theorem accounted_step {s s' : Family ι} {l : FamilyLabel ι} (h : Accounted s) (hg : s.counted l = true)
    (hs : s.step l = some s') : Accounted s' := by
  cases (step_moves hs).2 with
  | create hi hp => exact h.create hi hp rfl ⟨rfl, rfl, rfl⟩
  | checkin e he ha => exact h.checkin he (by simpa [counted] using hg) _ _
  | checkout e threads he =>
    obtain ⟨he, ha⟩ := lock_eq_some.1 he
    exact h.set he rfl (h.idle _ e he) fun ha => h.counts _ e he ha
  | execve | execCheckin | hangUp => cases hg
  | forkWait e e' he hw =>
    cases (by simpa [counted] using hg : _ = false)
    exact h.forkWait he hw
  | exit e he =>
    obtain ⟨he, -⟩ := lock_eq_some.1 he
    exact h.set he rfl (h.idle _ e he) nofun

/-- Where each process checks in once and no wait is interrupted, the semaphore
of a live process was raised, and its listeners told, once for each child that has
checked in, and no more waits have returned than children have checked in. -/
theorem forks_counted {s : Family ι} (h : Reach step (fun s l => s.counted l = true) Init s) {j : ι}
    {e : Relative ι} (hj : s.entry j = some e) (ha : e.alive = true) :
    s.arrived.Nodup ∧ e.increments = s.children j ∧ e.noteForks.length = s.children j ∧
      e.returned ≤ s.children j := by
  have hacc : Accounted s := by
    refine h.inv Accounted ?_ fun _ _ _ => accounted_step
    rintro _ rfl
    exact ⟨List.nodup_nil, nofun, nofun, nofun, nofun⟩
  obtain ⟨h1, h2, h3⟩ := hacc.counts j e hj ha
  exact ⟨hacc.nodup, h1, h2, by omega⟩

/-- A parent forks, the child's only thread checks in, and the parent's wait returns. -/
theorem forks_counted_single :
    ∃ (s : Family Nat) (e : Relative Nat), s.entry 0 = some e ∧ e.alive = true ∧ e.returned = 1 ∧
      s.arrived.Nodup ∧ e.increments = s.children 0 ∧ e.noteForks.length = s.children 0 ∧
      e.returned ≤ s.children 0 := by
  have hrun : (exec step counted ({} : Family Nat)
      [.create 0 1 2 none, .checkin 0 1, .create 1 5 2 (some 0), .checkin 1 5, .forkWait 0 false]).map
        (fun s => (s.entry 0).map fun e => (e.alive, e.returned)) = some (some (true, 1)) := by decide
  obtain ⟨s, hs, he⟩ := Option.map_eq_some_iff.1 hrun
  obtain ⟨e, hj, he⟩ := Option.map_eq_some_iff.1 he
  obtain ⟨ha, hr⟩ := Prod.mk.inj he
  exact ⟨s, e, hj, ha, hr, forks_counted (exec_reach (fun _ _ hg => hg) hs (.init rfl)) hj ha⟩

/-- A child with two threads counts as two children, and lets two waits return. -/
theorem two_threads_counted_twice :
    ∃ (s : Family Nat) (e : Relative Nat), Reach step (fun s l => s.noExecve l = true) Init s ∧
      s.entry 0 = some e ∧ e.alive = true ∧ s.arrived = [1, 0] ∧ s.children 0 = 1 ∧
      e.increments = 2 ∧ e.noteForks = [5, 5] ∧ e.returned = 2 := by
  have hrun : (exec step noExecve ({} : Family Nat)
      [.create 0 1 2 none, .checkin 0 1, .create 1 5 2 (some 0), .checkin 1 5, .checkin 1 6,
        .forkWait 0 false, .forkWait 0 false]).map
      (fun s => ((s.entry 0).map fun e => (e.alive, e.increments, e.noteForks, e.returned),
        s.arrived, s.children 0)) = some (some (true, 2, [5, 5], 2), [1, 0], 1) := rfl
  obtain ⟨s, hs, he⟩ := Option.map_eq_some_iff.1 hrun
  simp only [Prod.mk.injEq] at he
  obtain ⟨e, hj, he'⟩ := Option.map_eq_some_iff.1 he.1
  simp only [Prod.mk.injEq] at he'
  exact ⟨s, e, exec_reach (fun _ _ hg => hg) hs (.init rfl), hj, he'.1, he.2.1, he.2.2, he'.2.1, he'.2.2.1, he'.2.2.2⟩

end Family

end DarlingServer
