import Mathlib.Data.Multiset.AddSub
import Mathlib.Logic.Function.Basic
import DarlingServer.Effects
/-!
# Threads, workers and the work queue

The whole server: threads `ι`, any number of workers `ω` that serve one work
queue (a multiset: the properties below do not depend on its order), and the
main loop, which handles one message at a time. `view` is what one thread sees
of it, and `view_step` sends every step of the server to a step of that thread's
machine, so what is proved about one thread in every run holds of each thread of
the server. `Staffing` says that a worker has its thread for itself.
-/

namespace DarlingServer

/-- The labels a worker takes while it runs a thread. -/
def Label.onWorker : Label → Bool
  | .pop | .dispatch | .activate | .suspend _ | .commit | .reply _ | .replyDirect | .finish
  | .interruptBegin | .interruptEnd | .exitPop | .done => true
  | _ => false

/-- A step for a thread, by a worker or by somebody else (main loop, client, a waker). -/
structure Action (ι ω : Type*) where
  thread : ι
  worker : Option ω
  label : Label
  deriving DecidableEq

/-- A worker of a server with two. -/
def nthWorker (n : Nat) : Fin 2 := Fin.ofNat 2 n

/-- A step for the only thread of a server with one thread and two workers. -/
def byWorker (w : Nat) (l : Label) : Action Unit (Fin 2) := ⟨(), some (nthWorker w), l⟩

def byOther (l : Label) : Action Unit (Fin 2) := ⟨(), none, l⟩

/-- A client sends a call and gets its reply; the worker is still on its way back to the top. -/
def oneCall : List (Action Unit (Fin 2)) :=
  [byOther (.recv (.plain 0)), byOther .push, byWorker 0 .pop, byWorker 0 .dispatch, byWorker 0 .activate,
    byWorker 0 (.reply .byReturn), byOther .receive]

structure System (ι ω : Type*) where
  threads : ι → Local
  /-- The thread each worker is in `doWork` for. -/
  worker : ω → Option ι
  queue : Multiset ι
  mainLoop : Option (ι × Call)
  resuming : Multiset ι

/-- A step that is not of the worker that runs the thread leaves the worker where it is. -/
theorem phase_effect_other {s x : Local} {l : Label} {b : Bool} (he : Effect s l x b)
    (hl : l.onWorker = false ∨ l = .pop) (hr : s.th.running = true) (hn : s.phase ≠ .off)
    (hm : s.phase ≠ .impersonated) : x.phase = s.phase := by
  cases he <;> simp_all [Label.onWorker]

theorem phase_effect_worker {s x : Local} {l : Label} {b : Bool} (he : Effect s l x b) (hl : l.onWorker = true)
    (hm : s.phase ≠ .impersonated) : x.phase ≠ .impersonated := by
  by_cases hw : l.windsUp = true
  · rcases (windUp_effect he hw).phase with hx | hx | hx <;> rw [hx] <;> nofun
  cases he with
  | dispatchDone _ _ _ hw | doneFree _ _ _ hw | doneKeep _ _ _ hw => cases hw <;> nofun
  | activate => dsimp only; split <;> nofun
  | replyReturn | syscallReturn | replyExit | replyDirect | finish | exitPop | exitPopSaved => exact absurd rfl hw
  | _ => simp_all [Label.onWorker]

namespace System

variable {ι ω : Type*} [DecidableEq ι]

def ready (s : System ι ω) (i : ι) : Label → Bool
  | .recv _ => s.mainLoop.isNone
  | .push => s.mainLoop.map (·.1) = some i
  | .pop => i ∈ s.queue
  | .resumePush => i ∈ s.resuming
  | _ => true

/-- Whether the worker of the action is there to take it. -/
def staffed (s : System ι ω) (a : Action ι ω) : Bool :=
  match a.worker with
  | none => !a.label.onWorker
  | some w => a.label.onWorker && s.worker w = if a.label = .pop then none else some a.thread

def account (s : System ι ω) (i : ι) (x : Local) (schedule : Bool) : Label → System ι ω
  | .recv n =>
    { s with threads := Function.update s.threads i x, mainLoop := some (i, ⟨(s.threads i).nextCall, n⟩) }
  | .push => { s with threads := Function.update s.threads i x, mainLoop := none, queue := i ::ₘ s.queue }
  | .pop =>
    { s with threads := Function.update s.threads i x, queue := s.queue.erase i + if schedule then {i} else 0 }
  | .resume =>
    { s with threads := Function.update s.threads i x, resuming := s.resuming + if schedule then {i} else 0 }
  | .resumePush =>
    { s with threads := Function.update s.threads i x, resuming := s.resuming.erase i, queue := i ::ₘ s.queue }
  | _ => { s with threads := Function.update s.threads i x, queue := s.queue + if schedule then {i} else 0 }

/-- What thread `i` sees of the server. -/
def view (s : System ι ω) (i : ι) : State where
  loc := s.threads i
  entries := s.queue.count i
  toPush := s.mainLoop.bind fun p => if p.1 = i then some p.2 else none
  resuming := s.resuming.count i

def Init (s : System ι ω) : Prop := (∀ i, (s.view i).Init) ∧ ∀ w, s.worker w = none

/-- The server whose threads have all just checked in. -/
def start : System ι ω := ⟨fun _ => {}, fun _ => none, 0, none, 0⟩

theorem start_init : Init (start : System ι ω) := ⟨fun _ => .inl rfl, fun _ => rfl⟩

/-- Every client conforms. -/
def conforms (s : System ι ω) (a : Action ι ω) : Bool := (s.view a.thread).conforms a.label

@[simp] theorem view_loc (s : System ι ω) (i : ι) : (s.view i).loc = s.threads i := rfl

theorem view_account_self (s : System ι ω) (i : ι) (x : Local) (b : Bool) (l : Label) :
    (s.account i x b l).view i = (s.view i).account x b l := by
  cases l <;> cases b <;> simp [account, view, State.account]

theorem view_account_ne (s : System ι ω) {i j : ι} (hij : j ≠ i) (x : Local) (b : Bool) (l : Label)
    (hr : s.ready i l = true) : (s.account i x b l).view j = s.view j := by
  cases l <;> cases b <;>
    simp_all [account, view, ready, Multiset.count_cons_of_ne, Multiset.count_erase_of_ne, Ne.symm hij]
  all_goals
    obtain ⟨c, hc⟩ := hr
    simp [hc, Ne.symm hij]

theorem ready_view {s : System ι ω} {i : ι} {l : Label} (h : s.ready i l = true) :
    (s.view i).ready l = true := by
  cases l <;> simp_all [ready, view, State.ready, Multiset.count_eq_zero]
  obtain ⟨c, hc⟩ := h
  simp [hc]

/-- A thread that a worker is in `doWork` for is that worker's only. -/
structure Staffing (s : System ι ω) : Prop where
  working : ∀ {w i}, s.worker w = some i → (s.threads i).phase ≠ .off ∧ (s.threads i).phase ≠ .impersonated
  unique : ∀ {w w' i}, s.worker w = some i → s.worker w' = some i → w = w'

theorem account_worker (s : System ι ω) (i : ι) (x : Local) (b : Bool) (l : Label) :
    (s.account i x b l).worker = s.worker := by
  cases l <;> rfl

theorem account_threads (s : System ι ω) (i : ι) (x : Local) (b : Bool) (l : Label) :
    (s.account i x b l).threads = Function.update s.threads i x := by
  cases l <;> rfl

/-- Nobody but the worker that runs a thread takes it off the worker. -/
theorem staffing_other {s s' : System ι ω} {i : ι} {x : Local} {l : Label} {b : Bool} (hi : s.Staffing)
    (he : Effect (s.threads i) l x b) (hl : l.onWorker = false ∨ l = .pop)
    (hr : (s.threads i).th.running = true ↔ (s.threads i).phase ≠ .off) (hw : s'.worker = s.worker)
    (ht : s'.threads = Function.update s.threads i x) : s'.Staffing := by
  refine ⟨fun {w j} hj => ?_, fun hj hj' => hi.unique (hw ▸ hj) (hw ▸ hj')⟩
  have hp := hi.working (hw ▸ hj)
  rw [ht]
  by_cases hji : j = i
  · subst hji
    rw [Function.update_self, phase_effect_other he hl (hr.2 hp.1) hp.1 hp.2]
    exact hp
  · rw [Function.update_of_ne hji]
    exact hp

variable [DecidableEq ω]

/-- A worker leaves `doWork` when the thread is off again, and at once when the entry checks turn it away. -/
def release (s : System ι ω) (a : Action ι ω) (x : Local) : System ι ω :=
  match a.worker with
  | none => s
  | some w =>
    let stays := if a.label = .pop then (s.threads a.thread).phase = .off && x.phase = .entered else x.phase ≠ .off
    { s with worker := Function.update s.worker w (if stays then some a.thread else none) }

def step (s : System ι ω) (a : Action ι ω) : Option (System ι ω) :=
  if (s.threads a.thread).fault.isSome || !s.ready a.thread a.label || !s.staffed a then none
  else
    match (s.threads a.thread).core a.label with
    | none => none
    | some (.error f) =>
      some { s with
        threads := Function.update s.threads a.thread { s.threads a.thread with fault := some f } }
    | some (.ok (x, schedule)) => some ((s.release a x).account a.thread x schedule a.label)

@[simp] theorem view_release (s : System ι ω) (a : Action ι ω) (x : Local) (i : ι) :
    (s.release a x).view i = s.view i := by
  unfold release
  split <;> rfl

@[simp] theorem ready_release (s : System ι ω) (a : Action ι ω) (x : Local) (i : ι) (l : Label) :
    (s.release a x).ready i l = s.ready i l := by
  unfold release
  split <;> rfl

/-- A step of the server is a step of the machine of the thread it is for, and no other thread sees it. -/
theorem view_step {s s' : System ι ω} {a : Action ι ω} (h : s.step a = some s') :
    (s.view a.thread).step a.label = some (s'.view a.thread) ∧ ∀ j ≠ a.thread, s'.view j = s.view j := by
  unfold step at h
  split at h
  · cases h
  · rename_i hn
    simp only [Bool.or_eq_true, Option.isSome_iff_ne_none, Bool.not_eq_true', not_or, ne_eq, not_not,
      Bool.not_eq_false] at hn
    obtain ⟨⟨hf, hr⟩, -⟩ := hn
    have hv : ((s.threads a.thread).fault.isSome || !(s.view a.thread).ready a.label) = false := by
      simp [ready_view hr, hf]
    simp only [State.step, view_loc, hv, Bool.false_eq_true, if_false]
    rcases hc : (s.threads a.thread).core a.label with _ | f | ⟨x, b⟩
    · rw [hc] at h
      cases h
    · rw [hc] at h
      cases h
      refine ⟨?_, fun j hj => ?_⟩
      · simp [view]
      · simp [view, hj]
    · rw [hc] at h
      cases h
      refine ⟨?_, fun j hj => ?_⟩
      · simp [view_account_self]
      · rw [view_account_ne _ hj x b a.label (by simpa using hr), view_release]

/-- What one thread sees of a run of the server is a run of its machine. -/
theorem reach_view {guard : System ι ω → Action ι ω → Prop} {G : State → Label → Prop}
    (hg : ∀ s a, guard s a → G (s.view a.thread) a.label) {s : System ι ω}
    (h : Runs.Reach step guard Init s) (i : ι) : Runs.Reach State.step G State.Init (s.view i) := by
  refine h.view (fun s => s.view i) (fun s hs => hs.1 i) fun s a s' hga hst => ?_
  obtain ⟨h₁, h₂⟩ := view_step hst
  by_cases hi : i = a.thread
  · subst hi
    exact .inr ⟨a.label, hg s a hga, h₁⟩
  · exact .inl (h₂ i hi)

theorem step_effect {s s' : System ι ω} {a : Action ι ω} (h : s.step a = some s') :
    s.staffed a = true ∧
      ((∃ f, s' = { s with
          threads := Function.update s.threads a.thread { s.threads a.thread with fault := some f } }) ∨
        ∃ x b, Effect (s.threads a.thread) a.label x b ∧ s' = (s.release a x).account a.thread x b a.label) := by
  obtain ⟨hn, h⟩ := Option.ite_none_left_eq_some.1 h
  simp only [Bool.or_eq_true, not_or, Bool.not_eq_true', Bool.not_eq_false] at hn
  refine ⟨hn.2, ?_⟩
  split at h
  · cases h
  · cases h; exact .inl ⟨_, rfl⟩
  · cases h; exact .inr ⟨_, _, core_effect ‹_›, rfl⟩

/-- A worker that has the thread for itself keeps it or goes. -/
theorem staffing_own {s s' : System ι ω} {i : ι} {x : Local} (w : ω) (stays : Bool) (hi : s.Staffing)
    (hown : ∀ w', s.worker w' = some i → w' = w)
    (hx : stays = true → x.phase ≠ .off ∧ x.phase ≠ .impersonated)
    (hw : s'.worker = Function.update s.worker w (if stays then some i else none))
    (ht : s'.threads = Function.update s.threads i x) : s'.Staffing := by
  have hold : ∀ {w' j}, s'.worker w' = some j → w' = w ∧ stays = true ∧ j = i ∨ s.worker w' = some j ∧ j ≠ i := by
    intro w' j hj
    rw [hw] at hj
    by_cases hww : w' = w
    · subst hww
      cases stays <;> simp_all
    · rw [Function.update_of_ne hww] at hj
      exact .inr ⟨hj, fun hji => hww (hown w' (hji ▸ hj))⟩
  refine ⟨fun {w' j} hj => ?_, fun {w₁ w₂ j} h₁ h₂ => ?_⟩
  · rw [ht]
    rcases hold hj with ⟨-, hst, rfl⟩ | ⟨hj, hji⟩
    · rw [Function.update_self]
      exact hx hst
    · rw [Function.update_of_ne hji]
      exact hi.working hj
  · rcases hold h₁ with ⟨rfl, -, rfl⟩ | ⟨h₁, hj₁⟩
    · exact ((hold h₂).resolve_right fun h => h.2 rfl).1.symm
    · exact hi.unique h₁ ((hold h₂).resolve_left fun h => hj₁ h.2.2).1

theorem staffing_step {s s' : System ι ω} {a : Action ι ω} (h : s.step a = some s') (hi : s.Staffing)
    (hr : (s.threads a.thread).th.running = true ↔ (s.threads a.thread).phase ≠ .off) : s'.Staffing := by
  obtain ⟨i, worker, l⟩ := a
  obtain ⟨hs, ⟨f, rfl⟩ | ⟨x, b, he, rfl⟩⟩ := step_effect h
  · refine ⟨fun {w j} hj => ?_, hi.unique⟩
    have hp := hi.working hj
    by_cases hji : j = i
    · subst hji; simpa using hp
    · simpa [hji] using hp
  · cases worker with
    | none =>
      exact staffing_other hi he (.inl (by simpa [staffed] using hs)) hr (account_worker ..) (account_threads ..)
    | some w =>
      simp only [staffed, Bool.and_eq_true, decide_eq_true_eq] at hs
      obtain ⟨hl, hs⟩ := hs
      by_cases hpop : l = .pop
      · subst hpop
        rw [if_pos rfl] at hs
        by_cases hst : (s.threads i).phase = .off ∧ x.phase = .entered
        · have hnone : ∀ w', s.worker w' ≠ some i := fun w' hw' => (hi.working hw').1 hst.1
          refine staffing_own w true hi (fun w' hw' => absurd hw' (hnone w')) (fun _ => by simp [hst.2]) ?_
            (account_threads ..)
          simp [account_worker, release, hst]
        · refine staffing_other hi he (.inr rfl) hr ?_ (account_threads ..)
          rw [account_worker]
          simp [release, hst, ← hs]
      · rw [if_neg hpop] at hs
        refine staffing_own w (x.phase ≠ .off) hi (fun w' hw' => hi.unique hw' hs)
          (fun hst => ⟨by simpa using hst, phase_effect_worker he hl (hi.working hs).2⟩) ?_ (account_threads ..)
        simp [account_worker, release, hpop]

theorem staffing {guard : System ι ω → Action ι ω → Prop} {s : System ι ω} (h : Runs.Reach step guard Init s) :
    s.Staffing := by
  refine h.inv_with (fun s => ∀ i, (s.threads i).th.running = true ↔ (s.threads i).phase ≠ .off) Staffing
    (fun s hs i => ?_) (fun s hs => ?_) fun s a s' hr hi _ hst => staffing_step hst hi (hr a.thread)
  · exact running_iff (reach_view (G := fun _ _ => True) (fun _ _ _ => trivial) hs i)
  · exact ⟨fun {w _} hw => by simp [hs.2 w] at hw, fun {w _ _} hw => by simp [hs.2 w] at hw⟩

/-- The server with a history kept for each thread. -/
def tracked {H : Type*} (upd : State → Label → State → H → H) :
    System ι ω × (ι → H) → Action ι ω → Option (System ι ω × (ι → H)) :=
  Runs.track step fun s a s' h =>
    Function.update h a.thread (upd (s.view a.thread) a.label (s'.view a.thread) (h a.thread))

theorem reach_tracked {H : Type*} {upd : State → Label → State → H → H} {h₀ : H}
    {guard : System ι ω × (ι → H) → Action ι ω → Prop} {G : State × H → Label → Prop}
    (hg : ∀ p a, guard p a → G (p.1.view a.thread, p.2 a.thread) a.label) {p : System ι ω × (ι → H)}
    (h : Runs.Reach (tracked upd) guard (fun p => Init p.1 ∧ ∀ i, p.2 i = h₀) p) (i : ι) :
    Runs.Reach (Runs.track State.step upd) G (fun p => State.Init p.1 ∧ p.2 = h₀) (p.1.view i, p.2 i) := by
  refine h.view (fun p => (p.1.view i, p.2 i)) ?_ fun p a p' hga hst => ?_
  · exact fun p hp => ⟨hp.1.1 i, hp.2 i⟩
  obtain ⟨hs, hh⟩ := Runs.track_some hst
  obtain ⟨h₁, h₂⟩ := view_step hs
  by_cases hi : i = a.thread
  · subst hi
    refine .inr ⟨a.label, hg p a hga, ?_⟩
    simp [Runs.track, h₁, hh]
  · exact .inl (by simp [h₂ i hi, hh, hi])

end System

end DarlingServer
