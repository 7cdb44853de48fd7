import DarlingServer.Family
import Mathlib.Data.List.Count
/-!
# Execve

An execve is in flight from the moment the program is replaced until the checkin
of the new image is handled. Its hang-up sets `_pendingReplacement` and its checkin
takes the flag down again, so each execve replaces the process once if the hang-up
comes first. If the checkin comes first it passes for a fork, and the flag stays
for the next thread that checks in.
-/

namespace DarlingServer

open Runs

/-- How many execves wait for their checkin. -/
def Image.inFlight : Image → Nat
  | .execed _ => 1
  | .running _ | .foreign => 0

namespace Relative

variable {ι : Type*}

/-- Every execve has replaced the process once, save one whose checkin is to come,
and nothing is left to replace it without an execve. -/
structure ReplacedOnce (e : Relative ι) : Prop where
  replacements : e.replacements + e.image.inFlight = e.execves
  noteExecs : e.noteExecs = e.replacements
  pendingReplacement : e.image.inFlight = 0 → e.process.pendingReplacement = false

/-- An execve in flight has its hang-up before it or its flag set. -/
structure InOrder (e : Relative ι) : Prop where
  replacements : e.replacements + e.image.inFlight = e.execves
  noteExecs : e.noteExecs = e.replacements
  flag : e.pipes.count .darling + e.process.pendingReplacement.toNat = e.image.inFlight
  architecture : ∀ a, e.image = .running a → e.process.architecture = a

theorem InOrder.replacedOnce {e : Relative ι} (h : InOrder e) : ReplacedOnce e where
  replacements := h.replacements
  noteExecs := h.noteExecs
  pendingReplacement := by
    intro h0
    have hf := h.flag
    cases hp : e.process.pendingReplacement with
    | false => rfl
    | true => rw [hp, h0] at hf; simp at hf

theorem InOrder.credit {e : Relative ι} (h : InOrder e) (nsid : Int) : InOrder (e.credit nsid) :=
  ⟨h.replacements, h.noteExecs, h.flag, h.architecture⟩

theorem InOrder.execve {e : Relative ι} (h : InOrder e) {a : Nat} (hi : e.image = .running a) (x : Execve) :
    InOrder (e.execve x) := by
  have hr := h.replacements
  have hf := h.flag
  rw [hi] at hr hf
  unfold Relative.execve
  cases x with
  | darling b =>
    refine ⟨?_, h.noteExecs, ?_, nofun⟩
    · simpa [Image.after, Image.inFlight, Execve.pipeEnd] using hr
    · simp only [Image.after, Image.inFlight, Execve.pipeEnd, List.count_append, List.count_singleton_self] at hf ⊢
      omega
  | foreign =>
    refine ⟨?_, h.noteExecs, ?_, nofun⟩
    · simpa [Image.after, Image.inFlight, Execve.pipeEnd] using hr
    · simpa [Image.after, Image.inFlight, Execve.pipeEnd, List.count_append] using hf
  | failed =>
    refine ⟨?_, h.noteExecs, ?_, h.architecture⟩
    · simpa [Image.after, hi, Image.inFlight, Execve.pipeEnd] using hr
    · simpa [Image.after, hi, Image.inFlight, Execve.pipeEnd, List.count_append] using hf

theorem InOrder.hangUp {e : Relative ι} (h : InOrder e) {pipe : PipeEnd} (hp : pipe ∈ e.pipes) :
    InOrder (e.hangUp pipe) := by
  have hf := h.flag
  unfold Relative.hangUp
  cases pipe with
  | darling =>
    have hpos : 0 < e.pipes.count .darling := List.count_pos_iff.2 hp
    have hle : e.image.inFlight ≤ 1 := by cases e.image <;> simp [Image.inFlight]
    refine ⟨h.replacements, h.noteExecs, ?_, h.architecture⟩
    simp only [List.count_erase_self, Process.setPendingReplacement, Bool.toNat_true]
    cases hr : e.process.pendingReplacement <;> simp only [hr, Bool.toNat_false, Bool.toNat_true] at hf <;> omega
  | foreign =>
    refine ⟨h.replacements, h.noteExecs, ?_, h.architecture⟩
    rw [List.count_erase_of_ne (by decide)]
    exact hf
  | failed =>
    refine ⟨h.replacements, h.noteExecs, ?_, h.architecture⟩
    rw [List.count_erase_of_ne (by decide)]
    exact hf

theorem InOrder.forkWait {e e' : Relative ι} (h : InOrder e) {interrupted : Bool}
    (hw : e.forkWait interrupted = some e') : InOrder e' := by
  unfold Relative.forkWait at hw
  split at hw
  · cases hw; exact ⟨h.replacements, h.noteExecs, h.flag, h.architecture⟩
  · split at hw
    · cases hw
    · cases hw; exact ⟨h.replacements, h.noteExecs, h.flag, h.architecture⟩

end Relative

namespace Family

variable {ι : Type*} [DecidableEq ι]

/-- The hang-up of an exec pipe is handled before the checkin of the new image. -/
def hangUpFirst (s : Family ι) : FamilyLabel ι → Bool
  | .execCheckin i => (s.entry i).all fun e => .darling ∉ e.pipes
  | _ => true

/-- The checkin of an execve replaces the process, and is a fork to nobody. -/
structure Replaces (s : Family ι) (i : ι) (s' : Family ι) : Prop where
  up : s'.down = none
  replaced : ∃ e e', s.entry i = some e ∧ s'.entry i = some e' ∧ e'.replacements = e.replacements + 1 ∧
    e'.noteExecs = e.noteExecs + 1 ∧ e'.process.pendingReplacement = false
  forks : ∀ j, (s'.entry j).map (fun e => (e.increments, e.noteForks)) =
    (s.entry j).map fun e => (e.increments, e.noteForks)

theorem processCheckin_fork (s : Family ι) (i : ι) {e : Relative ι} (hp : e.process.pendingReplacement = false)
    (nstid : Int) :
    s.processCheckin i e nstid e.process.architecture =
      ((s.set i { e with process := e.process.registerThread nstid, image := .running e.process.architecture }
        ).notifyParent e.parent e.process.nsid).noteArrival i := by
  have hn := Process.notifyCheckin_fork (p := e.process.registerThread nstid) (by simpa using hp)
  rw [Process.registerThread_architecture] at hn
  simp only [processCheckin, hn, Process.registerThread_nsid]

/-- The main thread finds the flag of its hang-up: the whole of the exec case. -/
theorem processCheckin_exec (s : Family ι) (i : ι) {e : Relative ι} (hp : e.process.pendingReplacement = true)
    (architecture : Nat) :
    ∃ process : Process, process.pendingReplacement = false ∧ process.architecture = architecture ∧
      s.processCheckin i e e.process.nsid architecture =
        (s.set i { e with
          process, image := .running architecture
          replacements := e.replacements + 1, noteExecs := e.noteExecs + 1 }).noteArrival i := by
  obtain ⟨t, ht⟩ := Process.mainThread_registerThread e.process
  obtain ⟨process, hn⟩ := Process.notifyCheckin_exec (by simpa using hp) ht architecture
  refine ⟨process, ?_, ?_, ?_⟩
  · cases Process.notifyCheckin_ok hn; rfl
  · cases Process.notifyCheckin_ok hn; rfl
  · simp only [processCheckin, hn]

/-- The server is up, and every process is in order. -/
def AllInOrder (s : Family ι) : Prop := s.down = none ∧ ∀ i e, s.entry i = some e → e.InOrder

theorem AllInOrder.set {s : Family ι} (h : AllInOrder s) {i : ι} {e : Relative ι} (he : e.InOrder) :
    AllInOrder (s.set i e) :=
  ⟨h.1, forall_set h.2 he⟩

theorem AllInOrder.notifyParent {s : Family ι} (h : AllInOrder s) (parent : Option ι) (nsid : Int) :
    AllInOrder (s.notifyParent parent nsid) := by
  rcases notifyParent_cases s parent nsid with ⟨hs, -⟩ | ⟨j, e, -, hj, hs⟩
  · rw [hs]; exact h
  · rw [hs]
    exact h.set ((h.2 j e (lock_eq_some.1 hj).1).credit nsid)

omit [DecidableEq ι] in
/-- Under the order the hang-up has set the flag by the time the checkin comes. -/
theorem pendingReplacement_of_hangUpFirst {s : Family ι} {i : ι} {e : Relative ι} {architecture : Nat}
    (h : e.InOrder) (he : s.entry i = some e) (hi : e.image = .execed architecture)
    (hg : s.hangUpFirst (.execCheckin i) = true) : e.process.pendingReplacement = true := by
  have hf := h.flag
  have hnone : .darling ∉ e.pipes := by simpa [hangUpFirst, he] using hg
  rw [List.count_eq_zero_of_not_mem hnone, hi] at hf
  cases hp : e.process.pendingReplacement with
  | true => rfl
  | false => rw [hp] at hf; simp [Image.inFlight] at hf

theorem allInOrder_step {s s' : Family ι} {l : FamilyLabel ι} (h : AllInOrder s) (hg : s.hangUpFirst l = true)
    (hs : s.step l = some s') : AllInOrder s' := by
  cases (step_moves hs).2 with
  | create hi hp => exact h.set ⟨rfl, rfl, rfl, fun a ha => by cases ha; rfl⟩
  | checkin e he hi =>
    have ho := h.2 _ e (lock_eq_some.1 he).1
    have hp := ho.replacedOnce.pendingReplacement (by rw [hi]; rfl)
    rw [← ho.architecture _ hi, processCheckin_fork s _ hp]
    refine AllInOrder.notifyParent (h.set ?_) _ _
    rw [ho.architecture _ hi, ← hi]
    exact ⟨ho.replacements, ho.noteExecs, by simpa using ho.flag, by simpa using ho.architecture⟩
  | checkout e threads he =>
    have ho := h.2 _ e (lock_eq_some.1 he).1
    exact h.set ⟨ho.replacements, ho.noteExecs, ho.flag, ho.architecture⟩
  | execve e he hi => exact h.set ((h.2 _ e (lock_eq_some.1 he).1).execve hi _)
  | execCheckin e he hi =>
    have ho := h.2 _ e (lock_eq_some.1 he).1
    have hp := pendingReplacement_of_hangUpFirst ho (lock_eq_some.1 he).1 hi hg
    obtain ⟨process, hr, ha, hs⟩ := processCheckin_exec s _ hp _
    have hcount := ho.replacements
    have hflag := ho.flag
    rw [hs]
    refine h.set ⟨?_, ?_, ?_, ?_⟩
    · simpa [hi, Image.inFlight] using hcount
    · simpa using ho.noteExecs
    · simpa [hi, hp, hr, Image.inFlight] using hflag
    · intro a hrun; cases hrun; exact ha
  | hangUp e he hp => exact h.set ((h.2 _ e (lock_eq_some.1 he).1).hangUp hp)
  | forkWait e e' he hw => exact h.set ((h.2 _ e (lock_eq_some.1 he).1).forkWait hw)
  | exit e he =>
    have ho := h.2 _ e (lock_eq_some.1 he).1
    exact h.set ⟨ho.replacements, ho.noteExecs, ho.flag, ho.architecture⟩

theorem AllInOrder.replaces {s s' : Family ι} {i : ι} (h : AllInOrder s)
    (hg : s.hangUpFirst (.execCheckin i) = true) (hs : s.step (.execCheckin i) = some s') : Replaces s i s' := by
  cases (step_moves hs).2 with
  | execCheckin e he hi =>
    obtain ⟨he, -⟩ := lock_eq_some.1 he
    have hp := pendingReplacement_of_hangUpFirst (h.2 i e he) he hi hg
    obtain ⟨process, hr, -, hs⟩ := processCheckin_exec s i hp _
    rw [hs]
    refine ⟨h.1, ⟨e, _, he, set_entry s i i _ |>.trans (if_pos rfl), rfl, rfl, hr⟩, ?_⟩
    intro j
    show ((s.set i _).entry j).map _ = _
    rw [set_entry]
    split
    · subst j; rw [he]; rfl
    · rfl

/-- A child of process 0 that calls execve, up to the checkin of the new image. -/
def childExecs (architecture : Nat) : List (FamilyLabel Nat) :=
  [.create 0 1 2 none, .checkin 0 1, .create 1 5 2 (some 0), .checkin 1 5, .execve 1 (.darling architecture),
    .execCheckin 1]

end Family

end DarlingServer
