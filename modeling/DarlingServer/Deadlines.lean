import Mathlib.Order.Lattice.Nat
import Mathlib.Order.WithBot
import DarlingServer.Timers
/-!
# What the timer is armed for

`dtape_hook_timer_arm` gets `UINT64_MAX` for "never" and uses zero for it from there on,
in `_currentTimerDeadline` and in the timerfd. A zero compares as the smallest deadline,
though: a request for "never" that does not override disarms a timer that is armed, and
a request for the time zero is taken for "never".

With deadlines as elements of `WithTop Nat`, an arm that does not override is a minimum
unless it is one of these two, and the timerfd and `_currentTimerDeadline` always agree.
-/

namespace DarlingServer.Deadlines

structure Timespec where
  tvSec : Nat := 0
  tvNsec : Nat := 0
  deriving DecidableEq

def Timespec.ofNanoseconds (ns : Nat) : Timespec := { tvSec := ns / 1000000000, tvNsec := ns % 1000000000 }

/-- `_currentTimerDeadline` and the `it_value` last given to `timerfd_settime`; a timerfd
starts disarmed. -/
structure Arming where
  currentTimerDeadline : Nat := 0
  itValue : Timespec := {}
  deriving DecidableEq

/-- `dtape_hook_timer_arm`. -/
def Arming.timerArm (s : Arming) (deadline : Nat) (override : Bool) : Arming :=
  let deadline := if deadline = uint64Max then 0 else deadline
  let newSpec := Timespec.ofNanoseconds deadline
  if !override && s.currentTimerDeadline ≠ 0 && s.currentTimerDeadline ≤ deadline then s
  else { currentTimerDeadline := deadline, itValue := newSpec }

/-- A run of `timer_queue_assign`. -/
def Arming.assignAll (s : Arming) (deadlines : List Nat) : Arming :=
  deadlines.foldl (fun s deadline => s.timerArm deadline false) s

/-! ## The deadlines that are meant -/

/-- What a value of `_currentTimerDeadline` means. -/
def recorded (c : Nat) : WithTop Nat := if c = 0 then ⊤ else WithTop.some c

/-- What a request means. -/
def requested (d : Nat) : WithTop Nat := if d = uint64Max then ⊤ else WithTop.some d

/-- When a timerfd with this `it_value` expires. -/
def Timespec.expires (spec : Timespec) : WithTop Nat :=
  if spec = {} then ⊤ else WithTop.some (spec.tvSec * 1000000000 + spec.tvNsec)

/-- The timerfd and `_currentTimerDeadline` agree. -/
def Arming.InSync (s : Arming) : Prop := s.itValue.expires = recorded s.currentTimerDeadline

/-- What is asked for can be told apart: not the time zero, and "never" only while the
timer is not armed. -/
def Heard (c d : Nat) : Prop := d ≠ 0 ∧ (d = uint64Max → c = 0)

@[simp] theorem recorded_zero : recorded 0 = ⊤ := rfl

@[simp] theorem requested_max : requested uint64Max = ⊤ := rfl

theorem recorded_of_ne {c : Nat} (h : c ≠ 0) : recorded c = WithTop.some c := if_neg h

theorem requested_of_ne {d : Nat} (h : d ≠ uint64Max) : requested d = WithTop.some d := if_neg h

theorem expires_ofNanoseconds (ns : Nat) : (Timespec.ofNanoseconds ns).expires = recorded ns := by
  have hzero : Timespec.ofNanoseconds ns = {} ↔ ns = 0 := by
    simp only [Timespec.ofNanoseconds, Timespec.mk.injEq]
    omega
  unfold Timespec.expires recorded
  by_cases h : ns = 0
  · rw [if_pos h, if_pos (hzero.2 h)]
  · rw [if_neg h, if_neg (fun he => h (hzero.1 he))]
    simp only [Timespec.ofNanoseconds, Nat.div_add_mod']

/-! ## One arm -/

/-- The deadline after an arm: the zero that stands for "never", what was recorded before,
or what is asked for. -/
theorem currentTimerDeadline_timerArm (s : Arming) (d : Nat) (override : Bool) :
    (s.timerArm d override).currentTimerDeadline =
      if d = uint64Max then 0
      else if override = false ∧ s.currentTimerDeadline ≠ 0 ∧ s.currentTimerDeadline ≤ d then s.currentTimerDeadline
      else d := by
  unfold Arming.timerArm
  by_cases hmax : d = uint64Max
  · simp only [if_pos hmax]
    split
    · rename_i h
      simp only [Bool.and_eq_true, decide_eq_true_eq] at h
      omega
    · rfl
  · cases override <;> simp [if_neg hmax, apply_ite Arming.currentTimerDeadline]

theorem recorded_assign (s : Arming) {d : Nat} (h : Heard s.currentTimerDeadline d) :
    recorded (s.timerArm d false).currentTimerDeadline = min (recorded s.currentTimerDeadline) (requested d) := by
  rw [currentTimerDeadline_timerArm]
  by_cases hmax : d = uint64Max
  · simp [hmax, h.2 hmax]
  by_cases hc : s.currentTimerDeadline = 0
  · simp [hmax, hc, recorded_of_ne h.1, requested_of_ne]
  · rw [if_neg hmax, requested_of_ne hmax, recorded_of_ne hc]
    by_cases hle : s.currentTimerDeadline ≤ d
    · rw [if_pos ⟨rfl, hc, hle⟩, recorded_of_ne hc, min_eq_left (WithTop.coe_le_coe.2 hle)]
    · rw [if_neg (fun h => hle h.2.2), recorded_of_ne h.1, min_eq_right (WithTop.coe_le_coe.2 (Nat.le_of_not_le hle))]

theorem heard_of_recorded_assign {s : Arming} {d : Nat}
    (h : recorded (s.timerArm d false).currentTimerDeadline = min (recorded s.currentTimerDeadline) (requested d)) :
    Heard s.currentTimerDeadline d := by
  rw [currentTimerDeadline_timerArm] at h
  constructor
  · rintro rfl
    -- the time zero is recorded as never
    rw [if_neg (by decide), if_neg (fun h => h.2.1 (Nat.le_zero.1 h.2.2)), recorded_zero,
      requested_of_ne (by decide)] at h
    exact absurd (h ▸ min_le_right _ _) (by simp)
  · rintro rfl
    by_contra hc
    rw [if_pos rfl, recorded_zero, requested_max, min_eq_left le_top, recorded_of_ne hc] at h
    exact absurd h.symm (WithTop.coe_ne_top)

theorem recorded_override (s : Arming) (d : Nat) :
    recorded (s.timerArm d true).currentTimerDeadline = requested d ↔ d ≠ 0 := by
  rw [currentTimerDeadline_timerArm]
  by_cases hmax : d = uint64Max
  · subst hmax
    exact ⟨fun _ => by decide, fun _ => rfl⟩
  · rw [if_neg hmax, if_neg (by simp), requested_of_ne hmax]
    constructor
    · rintro h rfl
      exact absurd h (by simp [recorded])
    · exact recorded_of_ne

theorem Arming.InSync.timerArm {s : Arming} (h : s.InSync) (d : Nat) (override : Bool) :
    (s.timerArm d override).InSync := by
  unfold Arming.timerArm
  generalize (if d = uint64Max then 0 else d) = n
  dsimp only
  split
  · exact h
  · exact expires_ofNanoseconds n

theorem inSync_override (s : Arming) (d : Nat) : (s.timerArm d true).InSync :=
  expires_ofNanoseconds (if d = uint64Max then 0 else d)

/-! ## A run of assignments -/

theorem Arming.InSync.assignAll {s : Arming} (h : s.InSync) (deadlines : List Nat) :
    (s.assignAll deadlines).InSync := by
  induction deadlines generalizing s with
  | nil => exact h
  | cons d deadlines ih => exact ih (h.timerArm d false)

/-- The induction for `recorded_assignAll`. Once the timer is armed, no request for "never"
may follow. -/
theorem recorded_assignAll_of_armed {deadlines : List Nat} {s : Arming} (hpos : ∀ d ∈ deadlines, d ≠ 0)
    (hlater : deadlines.Pairwise fun e d => d = uint64Max → e = uint64Max)
    (harmed : s.currentTimerDeadline ≠ 0 → ∀ d ∈ deadlines, d ≠ uint64Max) :
    recorded (s.assignAll deadlines).currentTimerDeadline =
      (deadlines.map requested).foldl min (recorded s.currentTimerDeadline) := by
  induction deadlines generalizing s with
  | nil => rfl
  | cons d deadlines ih =>
    rw [List.forall_mem_cons] at hpos
    rw [List.pairwise_cons] at hlater
    have heard : Heard s.currentTimerDeadline d := by
      refine ⟨hpos.1, fun hmax => ?_⟩
      by_contra hc
      exact harmed hc d List.mem_cons_self hmax
    have harmed' : (s.timerArm d false).currentTimerDeadline ≠ 0 → ∀ e ∈ deadlines, e ≠ uint64Max := by
      intro hc e he hmax
      by_cases hs : s.currentTimerDeadline = 0
      · -- only this request can have armed the timer
        have hd : d = uint64Max := hlater.1 e he hmax
        rw [currentTimerDeadline_timerArm, if_pos hd] at hc
        exact hc rfl
      · exact harmed hs e (List.mem_cons_of_mem _ he) hmax
    have hrest := ih hpos.2 hlater.2 harmed'
    rw [recorded_assign s heard] at hrest
    exact hrest

theorem recorded_assignAll (s : Arming) {first : Nat} {deadlines : List Nat} (hpos : ∀ d ∈ first :: deadlines, d ≠ 0)
    (hlater : (first :: deadlines).Pairwise fun e d => d = uint64Max → e = uint64Max) :
    recorded ((s.timerArm first true).assignAll deadlines).currentTimerDeadline =
      (deadlines.map requested).foldl min (requested first) := by
  rw [List.forall_mem_cons] at hpos
  rw [List.pairwise_cons] at hlater
  rw [recorded_assignAll_of_armed hpos.2 hlater.2, (recorded_override s first).2 hpos.1]
  intro hc d hd hmax
  rw [currentTimerDeadline_timerArm, if_pos (hlater.1 d hd hmax)] at hc
  exact hc rfl

/-- What an arm leaves the timer at. One that does not override leaves the earlier of the
two deadlines exactly if the request is heard, an overriding one leaves the request unless
it is the time zero, and both keep the timerfd and `_currentTimerDeadline` the same. So
after an overriding arm and any assignments the timer is armed for the earliest of all,
where no request is for the time zero and none for "never" comes after another one. -/
theorem timerArm_earliest_iff (s : Arming) (d : Nat) :
    (recorded (s.timerArm d false).currentTimerDeadline = min (recorded s.currentTimerDeadline) (requested d) ↔
      d ≠ 0 ∧ (d = uint64Max → s.currentTimerDeadline = 0)) ∧
    (recorded (s.timerArm d true).currentTimerDeadline = requested d ↔ d ≠ 0) ∧
    (s.itValue.expires = recorded s.currentTimerDeadline → ∀ override,
      (s.timerArm d override).itValue.expires = recorded (s.timerArm d override).currentTimerDeadline) ∧
    ∀ deadlines : List Nat, (∀ e ∈ d :: deadlines, e ≠ 0) →
      ((d :: deadlines).Pairwise fun e e' => e' = uint64Max → e = uint64Max) →
      recorded ((s.timerArm d true).assignAll deadlines).currentTimerDeadline =
        (deadlines.map requested).foldl min (requested d) ∧
      ((s.timerArm d true).assignAll deadlines).itValue.expires =
        (deadlines.map requested).foldl min (requested d) := by
  refine ⟨⟨heard_of_recorded_assign, recorded_assign s⟩, recorded_override s d,
    fun h override => Arming.InSync.timerArm h d override, fun deadlines hpos hlater => ?_⟩
  have hrecorded := recorded_assignAll s hpos hlater
  exact ⟨hrecorded, ((inSync_override s d).assignAll deadlines).trans hrecorded⟩

/-- After an overriding arm, an earlier and a later request. -/
theorem timerArm_earliest_of_three :
    ((({} : Arming).timerArm 700 true).assignAll [500, 900]).itValue.expires = WithTop.some 500 := by
  have harm := (timerArm_earliest_iff {} 700).2.2.2 [500, 900] (by decide) (by decide)
  exact harm.2

/-- A timer armed for 500 is disarmed by a call for the end of time. -/
theorem never_disarms_timer :
    ¬ ∀ s : Arming, s.InSync → ∀ d < 2 ^ 64,
      recorded (s.timerArm d false).currentTimerDeadline = min (recorded s.currentTimerDeadline) (requested d) := by
  intro h
  have harmed : (({} : Arming).timerArm 500 false).InSync := rfl
  exact absurd (h _ harmed uint64Max (by decide)) (by decide)

/-! ## The timer queue's view -/

/-- The timer queue's model records the same deadline. -/
theorem timers_timerArm {ι ν : Type*} [DecidableEq ι] [DecidableEq ν] {timers : Timers ι ν} {s : Arming}
    (h : timers.currentTimerDeadline = s.currentTimerDeadline) (d : Nat) (override : Bool) :
    (timers.timerArm d override).currentTimerDeadline = (s.timerArm d override).currentTimerDeadline := by
  unfold Timers.timerArm Arming.timerArm
  rw [h]
  generalize (if d = uint64Max then 0 else d) = n
  dsimp only
  split
  · exact h
  · rfl

end DarlingServer.Deadlines
