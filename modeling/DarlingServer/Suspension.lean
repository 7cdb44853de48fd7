import DarlingServer.Lib.Runs
import Mathlib.Logic.Function.Basic
import Mathlib.Algebra.Group.Nat.Defs
/-!
# Suspension counts

A thread is held once for its task and once for its own `thread_suspend` calls,
however many of each there are. The task holds and releases the threads it has at
that moment. `dtape_thread_create` does not look at the task's count, so a thread
created in a suspended task is released without having been held. The counts are
exact where no thread is created in a suspended task and no counter wraps around.
-/

set_option linter.unusedSectionVars false

namespace DarlingServer

open Runs

/-- What an `int16_t` makes of a value. -/
def int16 (n : Int) : Int := n.bmod (2 ^ 16)

def int32 (n : Int) : Int := n.bmod (2 ^ 32)

theorem int16_eq {n : Int} (h1 : -32768 ≤ n) (h2 : n ≤ 32767) : int16 n = n :=
  Int.bmod_eq_of_le (by omega) (by omega)

theorem int32_eq {n : Int} (h1 : -2147483648 ≤ n) (h2 : n ≤ 2147483647) : int32 n = n :=
  Int.bmod_eq_of_le (by omega) (by omega)

inductive KernReturn where
  | success
  | invalidArgument
  | failure
  | terminated
  deriving DecidableEq, Repr

/-! ## Threads -/

structure ThreadCounts where
  suspendCount : Int := 0
  userStopCount : Int := 0
  active : Bool := true
  /-- The suspension signals sent to the thread. -/
  signals : Nat := 0
  deriving DecidableEq, Repr

namespace ThreadCounts

def threadHold (t : ThreadCounts) : ThreadCounts :=
  { t with
    suspendCount := int16 (t.suspendCount + 1)
    signals := if t.suspendCount = 0 then t.signals + 1 else t.signals }

def threadRelease (t : ThreadCounts) : ThreadCounts := { t with suspendCount := int16 (t.suspendCount - 1) }

/-- `thread_suspend`, up to the `thread_wait` at its end. -/
def threadSuspend (t : ThreadCounts) (kernelTask : Bool) : ThreadCounts × KernReturn :=
  if kernelTask then (t, .invalidArgument)
  else if t.active then
    let t' := { t with userStopCount := int16 (t.userStopCount + 1) }
    (if t.userStopCount = 0 then t'.threadHold else t', .success)
  else (t, .terminated)

theorem threadSuspend_active (t : ThreadCounts) (kernelTask : Bool) :
    (t.threadSuspend kernelTask).1.active = t.active := by
  unfold threadSuspend
  split
  · rfl
  split
  · dsimp only
    split <;> rfl
  · rfl

theorem threadSuspend_userStopCount {t : ThreadCounts} (ha : t.active = true) :
    (t.threadSuspend false).1.userStopCount = int16 (t.userStopCount + 1) := by
  simp only [threadSuspend, ha, Bool.false_eq_true, if_false, if_true]
  split <;> rfl

def threadResume (t : ThreadCounts) (kernelTask : Bool) : ThreadCounts × KernReturn :=
  if kernelTask then (t, .invalidArgument)
  else if t.active then
    if 0 < t.userStopCount then
      let t' := { t with userStopCount := int16 (t.userStopCount - 1) }
      (if t'.userStopCount = 0 then t'.threadRelease else t', .success)
    else (t, .failure)
  else (t, .terminated)

/-- The count of a thread whose task is `held`, with its own stops. -/
def due (t : ThreadCounts) (held : Bool) : Int := (if held then 1 else 0) + (if 0 < t.userStopCount then 1 else 0)

/-- The thread is held once for each reason. -/
structure Exact (t : ThreadCounts) (held : Bool) : Prop where
  nonneg : 0 ≤ t.userStopCount
  le : t.userStopCount ≤ 32767
  count : t.suspendCount = t.due held

theorem due_bounds (t : ThreadCounts) (held : Bool) : 0 ≤ t.due held ∧ t.due held ≤ 2 := by
  unfold due
  split <;> split <;> decide

theorem due_held (t : ThreadCounts) : t.due true = t.due false + 1 := by
  simp only [due, if_true, Bool.false_eq_true, if_false]
  omega

theorem Exact.threadHold {t : ThreadCounts} (h : t.Exact false) : t.threadHold.Exact true where
  nonneg := h.nonneg
  le := h.le
  count := by
    have hb := t.due_bounds false
    show int16 (t.suspendCount + 1) = t.due true
    rw [h.count, int16_eq (by omega) (by omega), due_held]

theorem Exact.threadRelease {t : ThreadCounts} (h : t.Exact true) : t.threadRelease.Exact false where
  nonneg := h.nonneg
  le := h.le
  count := by
    have hb := t.due_bounds true
    have hd := t.due_held
    show int16 (t.suspendCount - 1) = t.due false
    rw [h.count, int16_eq (by omega) (by omega)]
    omega

/-- The first stop holds the thread, a further one only counts. -/
theorem Exact.threadSuspend {t : ThreadCounts} {held : Bool} (h : t.Exact held) (hmax : t.userStopCount < 32767)
    (kernelTask : Bool) : (t.threadSuspend kernelTask).1.Exact held := by
  obtain ⟨h0, hle, hc⟩ := h
  have hu : int16 (t.userStopCount + 1) = t.userStopCount + 1 := int16_eq (by omega) (by omega)
  unfold ThreadCounts.threadSuspend
  rw [hu]
  split
  · exact ⟨h0, hle, hc⟩
  split
  · dsimp only
    split
    · rename_i hz
      simp only [due, hz] at hc
      refine ⟨by simp [ThreadCounts.threadHold, hz], by simp [ThreadCounts.threadHold, hz], ?_⟩
      simp only [ThreadCounts.threadHold, due, hz, hc]
      cases held <;> decide
    · have h1 : 0 < t.userStopCount := by omega
      have h2 : 0 < t.userStopCount + 1 := by omega
      refine ⟨Int.le_of_lt h2, by dsimp only; omega, ?_⟩
      simp only [due, h1, h2, if_true] at hc ⊢
      exact hc
  · exact ⟨h0, hle, hc⟩

/-- The last resume releases the thread. -/
theorem Exact.threadResume {t : ThreadCounts} {held : Bool} (h : t.Exact held) (kernelTask : Bool) :
    (t.threadResume kernelTask).1.Exact held := by
  obtain ⟨h0, hle, hc⟩ := h
  have hu : int16 (t.userStopCount - 1) = t.userStopCount - 1 := int16_eq (by omega) (by omega)
  unfold ThreadCounts.threadResume
  rw [hu]
  split
  · exact ⟨h0, hle, hc⟩
  split
  · split
    · rename_i hpos
      simp only [due, hpos, if_true] at hc
      dsimp only
      split
      · rename_i hz
        refine ⟨by simp [ThreadCounts.threadRelease, hz], by simp [ThreadCounts.threadRelease, hz], ?_⟩
        simp only [ThreadCounts.threadRelease, due, hz, hc]
        cases held <;> decide
      · have h2 : 0 < t.userStopCount - 1 := by omega
        refine ⟨Int.le_of_lt h2, by dsimp only; omega, ?_⟩
        simp only [due, h2, if_true]
        exact hc
    · exact ⟨h0, hle, hc⟩
  · exact ⟨h0, hle, hc⟩

/-- How `t'` is signalled on the way from `t`: once if the count rises from 0 to 1, else not. -/
def Signalled (t t' : ThreadCounts) : Prop :=
  t'.signals = t.signals + if t.suspendCount = 0 ∧ t'.suspendCount = 1 then 1 else 0

theorem signalled_of_count {t t' : ThreadCounts} (hs : t'.signals = t.signals)
    (hc : t'.suspendCount = t.suspendCount ∨ t.suspendCount ≠ 0 ∨ t'.suspendCount ≠ 1) : t.Signalled t' := by
  unfold Signalled
  rw [hs, if_neg]
  · rfl
  · rintro ⟨h0, h1⟩
    omega

theorem signalled_hold {t t' : ThreadCounts} (hc : t'.suspendCount = t.suspendCount) (hs : t'.signals = t.signals) :
    t.Signalled t'.threadHold := by
  unfold Signalled threadHold
  rw [hc, hs]
  by_cases h0 : t.suspendCount = 0
  · have h1 : int16 (t.suspendCount + 1) = 1 := by rw [h0]; decide
    rw [if_pos h0, if_pos ⟨h0, h1⟩]
  · rw [if_neg h0, if_neg fun h => h0 h.1]
    rfl

theorem signalled_release {t t' : ThreadCounts} (hc : t'.suspendCount = t.suspendCount) (hs : t'.signals = t.signals) :
    t.Signalled t'.threadRelease := by
  have hcount : t'.threadRelease.signals = t.signals := hs
  refine signalled_of_count hcount ?_
  by_cases h0 : t.suspendCount = 0
  · right; right
    show int16 (t'.suspendCount - 1) ≠ 1
    rw [hc, h0]
    decide
  · exact .inr (.inl h0)

theorem signalled_suspend (t : ThreadCounts) (kernelTask : Bool) : t.Signalled (t.threadSuspend kernelTask).1 := by
  unfold threadSuspend
  split
  · exact signalled_of_count rfl (.inl rfl)
  split
  · dsimp only
    split
    · exact signalled_hold rfl rfl
    · exact signalled_of_count rfl (.inl rfl)
  · exact signalled_of_count rfl (.inl rfl)

theorem signalled_resume (t : ThreadCounts) (kernelTask : Bool) : t.Signalled (t.threadResume kernelTask).1 := by
  unfold threadResume
  split
  · exact signalled_of_count rfl (.inl rfl)
  split
  · split
    · dsimp only
      split
      · exact signalled_release rfl rfl
      · exact signalled_of_count rfl (.inl rfl)
    · exact signalled_of_count rfl (.inl rfl)
  · exact signalled_of_count rfl (.inl rfl)

end ThreadCounts

/-! ## Tasks -/

structure TaskCounts (κ : Type*) where
  kernelTask : Bool := false
  suspendCount : Int := 0
  threads : κ → Option ThreadCounts := fun _ => none

inductive TaskLabel (κ : Type*) where
  | threadCreate (k : κ)
  | threadDestroy (k : κ)
  | holdLocked
  | releaseLocked
  | threadSuspend (k : κ)
  | threadResume (k : κ)

namespace TaskCounts

variable {κ : Type*} [DecidableEq κ]

def held (s : TaskCounts κ) : Bool := 0 < s.suspendCount

def set (s : TaskCounts κ) (k : κ) (t : Option ThreadCounts) : TaskCounts κ :=
  { s with threads := Function.update s.threads k t }

def taskHoldLocked (s : TaskCounts κ) : TaskCounts κ :=
  let s' := { s with suspendCount := int32 (s.suspendCount + 1) }
  if 0 < s.suspendCount then s' else { s' with threads := fun k => (s.threads k).map (·.threadHold) }

def taskReleaseLocked (s : TaskCounts κ) : TaskCounts κ :=
  let s' := { s with suspendCount := int32 (s.suspendCount - 1) }
  if 0 < s'.suspendCount then s' else { s' with threads := fun k => (s.threads k).map (·.threadRelease) }

def step (s : TaskCounts κ) : TaskLabel κ → Option (TaskCounts κ)
  -- `memset` clears the counts, whatever the task's count is
  | .threadCreate k => if (s.threads k).isNone then some (s.set k (some {})) else none
  | .threadDestroy k => if (s.threads k).isSome then some (s.set k none) else none
  | .holdLocked => some s.taskHoldLocked
  -- its caller has held the task before
  | .releaseLocked => if 0 < s.suspendCount then some s.taskReleaseLocked else none
  | .threadSuspend k => (s.threads k).map fun t => s.set k (some (t.threadSuspend s.kernelTask).1)
  | .threadResume k => (s.threads k).map fun t => s.set k (some (t.threadResume s.kernelTask).1)

def Init (s : TaskCounts κ) : Prop := s = { kernelTask := s.kernelTask }

/-- No thread is created in a suspended task, and no counter is at its maximum when it goes up. -/
def orderly (s : TaskCounts κ) : TaskLabel κ → Bool
  | .threadCreate _ => s.suspendCount ≤ 0
  | .holdLocked => s.suspendCount < 2147483647
  | .threadSuspend k => (s.threads k).all (·.userStopCount < 32767)
  | _ => true

structure AllExact (s : TaskCounts κ) : Prop where
  nonneg : 0 ≤ s.suspendCount
  le : s.suspendCount ≤ 2147483647
  threads : ∀ k t, s.threads k = some t → t.Exact s.held

@[simp] theorem set_threads (s : TaskCounts κ) (k : κ) (x : Option ThreadCounts) (j : κ) :
    (s.set k x).threads j = if j = k then x else s.threads j := Function.update_apply ..

theorem AllExact.set {s : TaskCounts κ} (h : s.AllExact) {k : κ} {x : Option ThreadCounts}
    (hx : ∀ t, x = some t → t.Exact s.held) : (s.set k x).AllExact := by
  refine ⟨h.nonneg, h.le, ?_⟩
  intro j t hj
  rw [set_threads] at hj
  split at hj
  · exact hx t hj
  · exact h.threads j t hj

theorem AllExact.hold {s : TaskCounts κ} (h : s.AllExact) (hmax : s.suspendCount < 2147483647) :
    s.taskHoldLocked.AllExact := by
  obtain ⟨h0, hle, hall⟩ := h
  have hu : int32 (s.suspendCount + 1) = s.suspendCount + 1 := int32_eq (by omega) (by omega)
  have hheld : 0 < s.suspendCount + 1 := by omega
  unfold taskHoldLocked
  rw [hu]
  dsimp only
  split
  · rename_i hpos
    refine ⟨Int.le_of_lt hheld, by dsimp only; omega, ?_⟩
    intro k t hk
    have ht := hall k t hk
    simp only [held, hpos, hheld] at ht ⊢
    exact ht
  · rename_i hpos
    refine ⟨Int.le_of_lt hheld, by dsimp only; omega, ?_⟩
    intro k t hk
    obtain ⟨t', hk', rfl⟩ := Option.map_eq_some_iff.1 hk
    have ht := hall k t' hk'
    simp only [held, hpos, hheld, decide_true, decide_false] at ht ⊢
    exact ht.threadHold

theorem AllExact.release {s : TaskCounts κ} (h : s.AllExact) (hpos : 0 < s.suspendCount) :
    s.taskReleaseLocked.AllExact := by
  obtain ⟨h0, hle, hall⟩ := h
  have hu : int32 (s.suspendCount - 1) = s.suspendCount - 1 := int32_eq (by omega) (by omega)
  unfold taskReleaseLocked
  rw [hu]
  dsimp only
  split
  · rename_i hheld
    refine ⟨Int.le_of_lt hheld, by dsimp only; omega, ?_⟩
    intro k t hk
    have ht := hall k t hk
    simp only [held, hpos, hheld] at ht ⊢
    exact ht
  · rename_i hheld
    refine ⟨by dsimp only; omega, by dsimp only; omega, ?_⟩
    intro k t hk
    obtain ⟨t', hk', rfl⟩ := Option.map_eq_some_iff.1 hk
    have ht := hall k t' hk'
    simp only [held, hpos, hheld, decide_true, decide_false] at ht ⊢
    exact ht.threadRelease

theorem allExact_step {s s' : TaskCounts κ} {l : TaskLabel κ} (h : s.AllExact) (hg : s.orderly l = true)
    (hs : s.step l = some s') : s'.AllExact := by
  cases l with
  | threadCreate k =>
    obtain ⟨-, rfl⟩ := by simpa [step] using hs
    have hn : s.suspendCount ≤ 0 := of_decide_eq_true hg
    have hheld : s.held = false := by simpa [held] using hn
    apply h.set
    rintro t ⟨⟩
    rw [hheld]
    exact ⟨by decide, by decide, rfl⟩
  | threadDestroy k =>
    obtain ⟨-, rfl⟩ := by simpa [step] using hs
    exact h.set nofun
  | holdLocked =>
    cases hs
    exact h.hold (of_decide_eq_true hg)
  | releaseLocked =>
    obtain ⟨hpos, rfl⟩ := by simpa [step] using hs
    exact h.release hpos
  | threadSuspend k =>
    obtain ⟨t, ht, rfl⟩ := Option.map_eq_some_iff.1 hs
    have hmax : t.userStopCount < 32767 := by simpa [orderly, ht] using hg
    apply h.set
    rintro _ ⟨⟩
    exact (h.threads k t ht).threadSuspend hmax _
  | threadResume k =>
    obtain ⟨t, ht, rfl⟩ := Option.map_eq_some_iff.1 hs
    apply h.set
    rintro _ ⟨⟩
    exact (h.threads k t ht).threadResume _

/-- Whatever the counts are, a step signals a thread exactly if its count rises from 0 to 1. -/
theorem signalled_step {s s' : TaskCounts κ} {l : TaskLabel κ} (hs : s.step l = some s') {k : κ} {t t' : ThreadCounts}
    (ht : s.threads k = some t) (ht' : s'.threads k = some t') : t.Signalled t' := by
  have same : t' = t → t.Signalled t' := by
    rintro rfl
    exact ThreadCounts.signalled_of_count rfl (.inl rfl)
  have atKey : ∀ {j x}, (s.set j x).threads k = some t' →
      (j = k → x = some t' → t.Signalled t') → t.Signalled t' := by
    intro j x hx hj
    rw [set_threads] at hx
    split at hx
    · exact hj (Eq.symm ‹_›) hx
    · exact same (Option.some.inj (hx.symm.trans ht))
  cases l with
  | threadCreate j =>
    obtain ⟨hn, rfl⟩ := by simpa [step] using hs
    refine atKey ht' ?_
    rintro rfl
    rw [hn] at ht
    cases ht
  | threadDestroy j =>
    obtain ⟨-, rfl⟩ := by simpa [step] using hs
    exact atKey ht' fun _ => nofun
  | holdLocked =>
    cases hs
    unfold taskHoldLocked at ht'
    dsimp only at ht'
    split at ht'
    · exact same (Option.some.inj (ht'.symm.trans ht))
    · simp only [ht, Option.map_some, Option.some.injEq] at ht'
      exact ht' ▸ ThreadCounts.signalled_hold rfl rfl
  | releaseLocked =>
    obtain ⟨-, rfl⟩ := by simpa [step] using hs
    unfold taskReleaseLocked at ht'
    dsimp only at ht'
    split at ht'
    · exact same (Option.some.inj (ht'.symm.trans ht))
    · simp only [ht, Option.map_some, Option.some.injEq] at ht'
      exact ht' ▸ ThreadCounts.signalled_release rfl rfl
  | threadSuspend j =>
    obtain ⟨u, hu, rfl⟩ := Option.map_eq_some_iff.1 hs
    refine atKey ht' ?_
    rintro rfl ⟨⟩
    cases ht.symm.trans hu
    exact ThreadCounts.signalled_suspend _ _
  | threadResume j =>
    obtain ⟨u, hu, rfl⟩ := Option.map_eq_some_iff.1 hs
    refine atKey ht' ?_
    rintro rfl ⟨⟩
    cases ht.symm.trans hu
    exact ThreadCounts.signalled_resume _ _

/-- In an orderly run every active thread is held once for its task and once for its own stops. In any
run a thread is signalled exactly where its count rises from 0 to 1. -/
theorem suspension_counts_exact {s : TaskCounts κ} :
    (Reach step (fun s l => s.orderly l = true) Init s →
      ∀ k t, s.threads k = some t → t.active = true →
        t.suspendCount = (if 0 < s.suspendCount then 1 else 0) + (if 0 < t.userStopCount then 1 else 0) ∧
        0 ≤ t.suspendCount) ∧
    (Reach step (fun _ _ => True) Init s → ∀ l s', s.step l = some s' →
      ∀ k t t', s.threads k = some t → s'.threads k = some t' → t.Signalled t') := by
  constructor
  · intro h k t ht _
    have hall : s.AllExact := by
      refine h.inv AllExact ?_ fun s l s' hi hg hs => allExact_step hi hg hs
      intro s hs
      rw [hs]
      exact ⟨Int.le_refl 0, show (0 : Int) ≤ 2147483647 by decide, nofun⟩
    have hc := (hall.threads k t ht).count
    refine ⟨by simpa [ThreadCounts.due, held] using hc, ?_⟩
    rw [hc]
    exact (t.due_bounds _).1
  · intro _ l s' hs k t t' ht ht'
    exact signalled_step hs ht ht'

/-- A thread of a task that is held twice, suspended twice and resumed once. -/
theorem suspension_counts_exact_nested :
    (∃ s : TaskCounts Nat, ∃ t, s.threads 0 = some t ∧ t.userStopCount = 1 ∧
      t.suspendCount = (if 0 < s.suspendCount then 1 else 0) + (if 0 < t.userStopCount then 1 else 0) ∧
      0 ≤ t.suspendCount) ∧
    ∃ t' : ThreadCounts, t'.signals = 1 ∧ ThreadCounts.Signalled {} t' := by
  constructor
  · have hrun : (exec step orderly ({} : TaskCounts Nat)
        [.threadCreate 0, .holdLocked, .threadSuspend 0, .holdLocked, .threadSuspend 0, .threadResume 0]).map
        (fun s => (s.threads 0).map fun t => (t.active, t.userStopCount)) = some (some (true, 1)) := by decide
    obtain ⟨s, hs, hv⟩ := exists_reach (fun _ _ hg => hg) (.init (show Init {} from rfl)) hrun
    obtain ⟨t, ht, hv⟩ := Option.map_eq_some_iff.1 hv
    obtain ⟨ha, hu⟩ := Prod.mk.inj hv
    exact ⟨s, t, ht, hu, suspension_counts_exact.1 hs 0 t ht ha⟩
  · have hr : Reach step (fun _ _ => True) Init (({} : TaskCounts Nat).set 0 (some {})) :=
      .step (l := .threadCreate 0) (.init (show Init {} from rfl)) trivial rfl
    exact ⟨_, rfl, suspension_counts_exact.2 hr (.threadSuspend 0) _ rfl 0 {} _ rfl rfl⟩

/-- As many `thread_suspend` calls as an `int16_t` can count. -/
theorem suspended_reach : ∀ n : Nat, n ≤ 32767 → ∃ s : TaskCounts Nat, Reach step (fun _ _ => True) Init s ∧
    s.kernelTask = false ∧ s.suspendCount = 0 ∧
    ∃ t, s.threads 0 = some t ∧ t.active = true ∧ t.userStopCount = n ∧ t.Exact false
  | 0, _ => by
    refine ⟨({} : TaskCounts Nat).set 0 (some {}), ?_, rfl, rfl, {}, rfl, rfl, rfl, by decide, by decide, rfl⟩
    exact .step (l := .threadCreate 0) (.init (show Init {} from rfl)) trivial rfl
  | n + 1, hn => by
    obtain ⟨s, hs, hk, h0, t, ht, ha, hu, he⟩ := suspended_reach n (by omega)
    refine ⟨s.set 0 (some (t.threadSuspend s.kernelTask).1), ?_, hk, h0, _, by simp, ?_, ?_,
      he.threadSuspend (by omega) s.kernelTask⟩
    · exact .step (l := .threadSuspend 0) hs trivial (by simp [step, ht])
    · rw [hk, ThreadCounts.threadSuspend_active, ha]
    · rw [hk, ThreadCounts.threadSuspend_userStopCount ha, hu, int16_eq] <;> omega

/-- A thread created in a suspended task is not held for it; when the task is released its count falls
below zero, and the next `thread_suspend` sends no signal. And the 32768th `thread_suspend` in a row
makes the number of stops negative. -/
theorem suspension_counts_inexact :
    let reached (P : TaskCounts Nat → ThreadCounts → Prop) := ∃ s : TaskCounts Nat,
      Reach step (fun _ _ => True) Init s ∧ ∃ t, s.threads 0 = some t ∧ t.active = true ∧ P s t
    reached (fun s t => s.suspendCount = 1 ∧ t.userStopCount = 0 ∧ t.suspendCount = 0) ∧
    reached (fun s t => s.suspendCount = 0 ∧ t.userStopCount = 0 ∧ t.suspendCount = -1) ∧
    reached (fun s t => s.suspendCount = 0 ∧ t.userStopCount = 1 ∧ t.suspendCount = 0 ∧ t.signals = 0) ∧
    reached (fun s t => s.suspendCount = 0 ∧ t.userStopCount = -32768 ∧ t.suspendCount = 1) := by
  intro reached
  have hrun (ls : List (TaskLabel Nat)) (P : TaskCounts Nat → ThreadCounts → Prop) [∀ s t, Decidable (P s t)]
      (h : (exec step (fun _ _ => true) {} ls).map (fun s => (s.threads 0).any fun t => t.active && decide (P s t)) =
        some true) : reached P := by
    obtain ⟨s, hs, hv⟩ := exists_reach (fun _ _ _ => trivial) (.init (show Init {} from rfl)) h
    obtain ⟨t, ht, hv⟩ := (Option.any_eq_true _ _).1 hv
    obtain ⟨ha, hp⟩ := (Bool.and_eq_true _ _).mp hv
    exact ⟨s, hs, t, ht, ha, of_decide_eq_true hp⟩
  refine ⟨hrun [.holdLocked, .threadCreate 0] _ (by decide),
    hrun [.holdLocked, .threadCreate 0, .releaseLocked] _ (by decide),
    hrun [.holdLocked, .threadCreate 0, .releaseLocked, .threadSuspend 0] _ (by decide), ?_⟩
  obtain ⟨s, hs, hk, h0, t, ht, ha, hu, he⟩ := suspended_reach 32767 (Nat.le_refl _)
  refine ⟨s.set 0 (some (t.threadSuspend s.kernelTask).1), ?_, (t.threadSuspend s.kernelTask).1, by simp, ?_, h0,
    ?_, ?_⟩
  · exact .step (l := .threadSuspend 0) hs trivial (by simp [step, ht])
  · rw [ThreadCounts.threadSuspend_active, ha]
  · rw [hk, ThreadCounts.threadSuspend_userStopCount ha, hu]
    decide
  · have hc := he.count
    simp [ThreadCounts.threadSuspend, ThreadCounts.due, hk, ha, hu] at hc ⊢
    exact hc

end TaskCounts

end DarlingServer
