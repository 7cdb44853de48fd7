import DarlingServer.Lib.Runs
import Mathlib.Data.List.Basic
/-!
# Monitors

The kernel knows a monitor by its address alone, and a batch of events is handled
while monitors come and go. So a monitor that is removed is kept until the batch is
done: its address cannot be given to another one as long as an event may mention it.

Sections under `_monitorsLock` are steps, cut in two where `epoll_ctl` lies within
one, since the main loop may be in `epoll_wait` then. A monitor is destroyed at some
point after its last reference is gone, and its address may be used again at once.
-/

namespace DarlingServer.Monitors

open Runs

/-! ## The model -/

/-- No two monitors ever have the same `id`; two may have the same address, one after
the other. -/
structure Monitor (α φ : Type*) where
  id : Nat
  address : α
  fd : φ
  deriving DecidableEq

/-- An event for the address `ptr`, with the monitor that was registered under it. -/
structure Event (α φ : Type*) where
  ptr : α
  monitor : Monitor α φ
  deriving DecidableEq

/-- Who has `_monitorsLock` in the middle of a section. -/
inductive Lock (α φ : Type*) where
  | free
  /-- In `addMonitor`, after `EPOLL_CTL_ADD`. -/
  | adding (m : Monitor α φ)
  /-- In `removeMonitor`, before `EPOLL_CTL_DEL`. -/
  | removing (m : Monitor α φ)
  deriving DecidableEq

/-- Where the main loop is. -/
inductive Loop (α φ : Type*) where
  | polling
  | handling (batch : List (Event α φ))
  /-- In a callback; the monitor is `aliveMonitor`. -/
  | calling (m : Monitor α φ) (batch : List (Event α φ))
  deriving DecidableEq

/-- `heap` has the monitors that are not destroyed, `held` the references other than
the server's own, `interest` what the kernel knows. `called` records the callbacks. -/
structure State (α φ : Type*) where
  heap : List (Monitor α φ) := []
  born : Nat := 0
  held : List (Monitor α φ) := []
  monitors : List (Monitor α φ) := []
  monitorsWaitingToDie : List (Monitor α φ) := []
  interest : List (φ × Event α φ) := []
  lock : Lock α φ := .free
  loop : Loop α φ := .polling
  called : List (Event α φ × Monitor α φ) := []
  deriving DecidableEq

variable {α φ : Type*}

def Lock.refs : Lock α φ → List (Monitor α φ)
  | .free => []
  | .adding m | .removing m => [m]

/-- The events that are not handled yet. -/
def Loop.batch : Loop α φ → List (Event α φ)
  | .polling => []
  | .handling batch | .calling _ batch => batch

def Loop.refs : Loop α φ → List (Monitor α φ)
  | .calling m _ => [m]
  | _ => []

/-- References that can be passed to `addMonitor` and `removeMonitor`. -/
def State.passed (s : State α φ) : List (Monitor α φ) := s.held ++ s.loop.refs

def State.refs (s : State α φ) : List (Monitor α φ) :=
  s.passed ++ s.monitors ++ s.monitorsWaitingToDie ++ s.lock.refs

variable [DecidableEq α] [DecidableEq φ]

/-- `make_shared<Monitor>`, at any address that is not in use. -/
def create (s : State α φ) (address : α) (fd : φ) : Option (State α φ) :=
  if s.heap.any (·.address = address) then none
  else
    let m : Monitor α φ := ⟨s.born, address, fd⟩
    some { s with heap := m :: s.heap, born := s.born + 1, held := m :: s.held }

def share (s : State α φ) (m : Monitor α φ) : Option (State α φ) :=
  if m ∈ s.passed then some { s with held := m :: s.held } else none

def drop (s : State α φ) (m : Monitor α φ) : Option (State α φ) :=
  if m ∈ s.held then some { s with held := s.held.erase m } else none

def destroy (s : State α φ) (m : Monitor α φ) : Option (State α φ) :=
  if m ∈ s.refs then none else some { s with heap := s.heap.filter (· ≠ m) }

/-- Up to `EPOLL_CTL_ADD`, which succeeds if the descriptor is not registered. -/
def addMonitor (s : State α φ) (m : Monitor α φ) : Option (State α φ) :=
  if s.lock = .free ∧ m ∈ s.passed then
    if s.monitors.any (·.address = m.address) then some s
    else if s.interest.any (·.1 = m.fd) then none
    else some { s with interest := s.interest ++ [(m.fd, ⟨m.address, m⟩)], lock := .adding m }
  else none

def addMonitorEnd (s : State α φ) : Option (State α φ) :=
  match s.lock with
  | .adding m => some { s with monitors := s.monitors ++ [m], lock := .free }
  | _ => none

/-- Up to `EPOLL_CTL_DEL`. -/
def removeMonitor (s : State α φ) (m : Monitor α φ) : Option (State α φ) :=
  if s.lock = .free ∧ m ∈ s.passed then
    if s.monitors.any (·.address = m.address) then
      some { s with
        monitorsWaitingToDie := s.monitorsWaitingToDie ++ [m]
        monitors := s.monitors.eraseP (·.address = m.address)
        lock := .removing m }
    else some s
  else none

def removeMonitorEnd (s : State α φ) : Option (State α φ) :=
  match s.lock with
  | .removing m => some { s with interest := s.interest.filter (·.1 ≠ m.fd), lock := .free }
  | _ => none

/-- The events that `epoll_wait` harvests are of descriptors registered then. -/
def epollWait (s : State α φ) (batch : List (Event α φ)) : Option (State α φ) :=
  if s.loop = .polling ∧ batch.length ≤ 16 ∧ ∀ e ∈ batch, e ∈ s.interest.map Prod.snd then
    some { s with loop := .handling batch }
  else none

/-- The next event: its callback is called if a monitor with its address is there. -/
def handleEvent (s : State α φ) : Option (State α φ) :=
  match s.loop with
  | .handling (e :: batch) =>
    if s.lock = .free then
      match s.monitors.find? (·.address = e.ptr) with
      | none => some { s with loop := .handling batch }
      | some m => some { s with loop := .calling m batch, called := s.called ++ [(e, m)] }
    else none
  | _ => none

def callbackReturns (s : State α φ) : Option (State α φ) :=
  match s.loop with
  | .calling _ batch => some { s with loop := .handling batch }
  | _ => none

/-- The end of the iteration. -/
def clear (s : State α φ) : Option (State α φ) :=
  if s.loop = .handling [] ∧ s.lock = .free then some { s with monitorsWaitingToDie := [], loop := .polling } else none

inductive Label (α φ : Type*) where
  | create (address : α) (fd : φ)
  | share (m : Monitor α φ)
  | drop (m : Monitor α φ)
  | destroy (m : Monitor α φ)
  | addMonitor (m : Monitor α φ)
  | addMonitorEnd
  | removeMonitor (m : Monitor α φ)
  | removeMonitorEnd
  | epollWait (batch : List (Event α φ))
  | handleEvent
  | callbackReturns
  | clear

def step (s : State α φ) : Label α φ → Option (State α φ)
  | .create address fd => create s address fd
  | .share m => share s m
  | .drop m => drop s m
  | .destroy m => destroy s m
  | .addMonitor m => addMonitor s m
  | .addMonitorEnd => addMonitorEnd s
  | .removeMonitor m => removeMonitor s m
  | .removeMonitorEnd => removeMonitorEnd s
  | .epollWait batch => epollWait s batch
  | .handleEvent => handleEvent s
  | .callbackReturns => callbackReturns s
  | .clear => clear s

def init (s : State α φ) : Prop := s = {}

/-! ## The invariant -/

/-- The server, or one that is adding it, still has the monitor. -/
def State.Keeps (s : State α φ) (m : Monitor α φ) : Prop :=
  m ∈ s.monitors ∨ m ∈ s.monitorsWaitingToDie ∨ s.lock = .adding m

structure Sound (s : State α φ) : Prop where
  /-- Monitors that live at the same time have different addresses. -/
  apart : ∀ m ∈ s.heap, ∀ m' ∈ s.heap, m.address = m'.address → m = m'
  alive : ∀ m ∈ s.refs, m ∈ s.heap
  registered : ∀ p ∈ s.interest, p.1 = p.2.monitor.fd ∧ p.2.ptr = p.2.monitor.address ∧
    (p.2.monitor ∈ s.monitors ∨ p.2.monitor ∈ s.lock.refs)
  removing : ∀ m, s.lock = .removing m → m ∈ s.monitorsWaitingToDie
  batch : ∀ e ∈ s.loop.batch, e.ptr = e.monitor.address ∧ s.Keeps e.monitor
  called : ∀ c ∈ s.called, c.1.monitor = c.2

variable {s s' : State α φ} {m : Monitor α φ}

section

omit [DecidableEq α] [DecidableEq φ]

theorem State.mem_refs : m ∈ s.refs ↔
    m ∈ s.passed ∨ m ∈ s.monitors ∨ m ∈ s.monitorsWaitingToDie ∨ m ∈ s.lock.refs := by
  simp only [State.refs, List.mem_append, or_assoc]

theorem State.Keeps.mem_refs (h : s.Keeps m) : m ∈ s.refs := by
  refine State.mem_refs.2 (.inr ?_)
  rcases h with h | h | h
  · exact .inl h
  · exact .inr (.inl h)
  · rw [h]
    exact .inr (.inr (List.mem_singleton_self m))

/-- Unless it is being added, the server has it in one of its lists. -/
theorem State.Keeps.listed (h : s.Keeps m) (hl : s.lock ≠ .adding m) :
    m ∈ s.monitors ∨ m ∈ s.monitorsWaitingToDie := by
  rcases h with h | h | h
  · exact .inl h
  · exact .inr h
  · exact absurd h hl

/-- A monitor that can be passed on is alive. -/
theorem Sound.passed_alive (h : Sound s) (hm : m ∈ s.passed) : m ∈ s.heap := h.alive m (State.mem_refs.2 (.inl hm))

/-- The monitors found under an address are the one that lives there. -/
theorem Sound.eq_of_address (h : Sound s) {x : Monitor α φ} (hx : x ∈ s.monitors) (hm : m ∈ s.heap)
    (he : x.address = m.address) : x = m :=
  h.apart x (h.alive x (State.mem_refs.2 (.inr (.inl hx)))) m hm he

end

omit [DecidableEq φ] in
theorem Sound.create (h : Sound s) {address : α} {fd : φ} (hst : create s address fd = some s') : Sound s' := by
  unfold Monitors.create at hst
  split at hst
  · cases hst
  · rename_i hnew
    cases hst
    have hne : ∀ x ∈ s.heap, x.address ≠ address := by simpa using hnew
    refine { h with apart := ?_, alive := ?_ }
    · intro x hx y hy hxy
      rcases List.mem_cons.1 hx with rfl | hx <;> rcases List.mem_cons.1 hy with rfl | hy
      · rfl
      · exact absurd hxy.symm (hne y hy)
      · exact absurd hxy (hne x hx)
      · exact h.apart x hx y hy hxy
    · intro x hx
      rcases List.mem_cons.1 hx with rfl | hx
      · exact List.mem_cons_self
      · exact List.mem_cons_of_mem _ (h.alive x hx)

theorem Sound.share (h : Sound s) (hst : share s m = some s') : Sound s' := by
  unfold Monitors.share at hst
  split at hst
  · rename_i hm
    cases hst
    refine { h with alive := fun x hx => ?_ }
    rcases List.mem_cons.1 hx with rfl | hx
    · exact h.passed_alive hm
    · exact h.alive x hx
  · cases hst

theorem Sound.drop (h : Sound s) (hst : drop s m = some s') : Sound s' := by
  unfold Monitors.drop at hst
  split at hst
  · cases hst
    refine { h with alive := fun x hx => h.alive x ?_ }
    rcases State.mem_refs.1 hx with hx | hx
    · refine State.mem_refs.2 (.inl ?_)
      rcases List.mem_append.1 hx with hx | hx
      · exact List.mem_append_left _ (List.mem_of_mem_erase hx)
      · exact List.mem_append_right _ hx
    · exact State.mem_refs.2 (.inr hx)
  · cases hst

theorem Sound.destroy (h : Sound s) (hst : destroy s m = some s') : Sound s' := by
  unfold Monitors.destroy at hst
  split at hst
  · cases hst
  · rename_i hm
    cases hst
    refine { h with apart := ?_, alive := ?_ }
    · intro x hx y hy
      exact h.apart x (List.mem_filter.1 hx).1 y (List.mem_filter.1 hy).1
    · intro x hx
      have hne : x ≠ m := by
        rintro rfl
        exact hm hx
      exact List.mem_filter.2 ⟨h.alive x hx, by simpa using hne⟩

theorem Sound.addMonitor (h : Sound s) (hst : addMonitor s m = some s') : Sound s' := by
  unfold Monitors.addMonitor at hst
  split at hst
  · rename_i hfree
    obtain ⟨hfree, hm⟩ := hfree
    split at hst
    · cases hst
      exact h
    · split at hst
      · cases hst
      · cases hst
        have hnone : s.lock.refs = [] := by rw [hfree]; rfl
        refine { h with alive := ?_, registered := ?_, removing := ?_, batch := ?_ }
        · intro x hx
          rcases State.mem_refs.1 hx with hx | hx | hx | hx
          · exact h.passed_alive hx
          · exact h.alive x (State.mem_refs.2 (.inr (.inl hx)))
          · exact h.alive x (State.mem_refs.2 (.inr (.inr (.inl hx))))
          · obtain rfl := List.mem_singleton.1 hx
            exact h.passed_alive hm
        · intro p hp
          rcases List.mem_append.1 hp with hp | hp
          · obtain ⟨hfd, hptr, hin⟩ := h.registered p hp
            rw [hnone] at hin
            exact ⟨hfd, hptr, .inl (hin.resolve_right List.not_mem_nil)⟩
          · obtain rfl := List.mem_singleton.1 hp
            exact ⟨rfl, rfl, .inr (List.mem_singleton_self m)⟩
        · intro x hx
          cases hx
        · intro e he
          obtain ⟨hptr, hk⟩ := h.batch e he
          exact ⟨hptr, (hk.listed (by simp [hfree])).imp_right .inl⟩
  · cases hst

omit [DecidableEq α] [DecidableEq φ] in
theorem Sound.addMonitorEnd (h : Sound s) (hst : addMonitorEnd s = some s') : Sound s' := by
  unfold Monitors.addMonitorEnd at hst
  split at hst
  · rename_i m hlock
    cases hst
    have hrefs : s.lock.refs = [m] := by rw [hlock]; rfl
    refine { h with alive := ?_, registered := ?_, removing := ?_, batch := ?_ }
    · intro x hx
      apply h.alive x
      rw [State.mem_refs, hrefs]
      rcases State.mem_refs.1 hx with hx | hx | hx | hx
      · exact .inl hx
      · rcases List.mem_append.1 hx with hx | hx
        · exact .inr (.inl hx)
        · exact .inr (.inr (.inr hx))
      · exact .inr (.inr (.inl hx))
      · cases hx
    · intro p hp
      obtain ⟨hfd, hptr, hin⟩ := h.registered p hp
      rw [hrefs] at hin
      refine ⟨hfd, hptr, .inl ?_⟩
      rcases hin with hin | hin
      · exact List.mem_append_left _ hin
      · exact List.mem_append_right _ hin
    · intro x hx
      cases hx
    · intro e he
      obtain ⟨hptr, hk⟩ := h.batch e he
      refine ⟨hptr, ?_⟩
      rcases hk with hk | hk | hk
      · exact .inl (List.mem_append_left _ hk)
      · exact .inr (.inl hk)
      · rw [hlock] at hk
        cases hk
        exact .inl (List.mem_append_right _ (List.mem_singleton_self _))
  · cases hst

omit [DecidableEq φ] in
/-- Removing a monitor takes none other off the list. -/
theorem Sound.mem_eraseP (h : Sound s) (hm : m ∈ s.heap) {x : Monitor α φ} (hx : x ∈ s.monitors) :
    x ∈ s.monitors.eraseP (·.address = m.address) ∨ x = m := by
  by_cases he : x.address = m.address
  · exact .inr (h.eq_of_address hx hm he)
  · exact .inl ((List.mem_eraseP_of_neg (by simpa using he)).2 hx)

theorem Sound.removeMonitor (h : Sound s) (hst : removeMonitor s m = some s') : Sound s' := by
  unfold Monitors.removeMonitor at hst
  split at hst
  · rename_i hfree
    obtain ⟨hfree, hm⟩ := hfree
    have hm := h.passed_alive hm
    split at hst
    · cases hst
      have hnone : s.lock.refs = [] := by rw [hfree]; rfl
      refine { h with alive := ?_, registered := ?_, removing := ?_, batch := ?_ }
      · intro x hx
        rcases State.mem_refs.1 hx with hx | hx | hx | hx
        · exact h.passed_alive hx
        · exact h.alive x (State.mem_refs.2 (.inr (.inl (List.mem_of_mem_eraseP hx))))
        · rcases List.mem_append.1 hx with hx | hx
          · exact h.alive x (State.mem_refs.2 (.inr (.inr (.inl hx))))
          · obtain rfl := List.mem_singleton.1 hx
            exact hm
        · obtain rfl := List.mem_singleton.1 hx
          exact hm
      · intro p hp
        obtain ⟨hfd, hptr, hin⟩ := h.registered p hp
        rw [hnone] at hin
        refine ⟨hfd, hptr, ?_⟩
        rcases h.mem_eraseP hm (hin.resolve_right List.not_mem_nil) with hin | rfl
        · exact .inl hin
        · exact .inr (List.mem_singleton_self _)
      · intro x hx
        cases hx
        exact List.mem_append_right _ (List.mem_singleton_self _)
      · intro e he
        obtain ⟨hptr, hk⟩ := h.batch e he
        refine ⟨hptr, ?_⟩
        rcases hk.listed (by simp [hfree]) with hk | hk
        · rcases h.mem_eraseP hm hk with hk | hk
          · exact .inl hk
          · rw [hk]
            exact .inr (.inl (List.mem_append_right _ (List.mem_singleton_self _)))
        · exact .inr (.inl (List.mem_append_left _ hk))
    · cases hst
      exact h
  · cases hst

omit [DecidableEq α] in
theorem Sound.removeMonitorEnd (h : Sound s) (hst : removeMonitorEnd s = some s') : Sound s' := by
  unfold Monitors.removeMonitorEnd at hst
  split at hst
  · rename_i m hlock
    cases hst
    have hrefs : s.lock.refs = [m] := by rw [hlock]; rfl
    refine { h with alive := ?_, registered := ?_, removing := ?_, batch := ?_ }
    · intro x hx
      apply h.alive x
      rw [State.mem_refs, hrefs]
      rcases State.mem_refs.1 hx with hx | hx | hx | hx
      · exact .inl hx
      · exact .inr (.inl hx)
      · exact .inr (.inr (.inl hx))
      · cases hx
    · intro p hp
      obtain ⟨hp, hne⟩ := List.mem_filter.1 hp
      obtain ⟨hfd, hptr, hin⟩ := h.registered p hp
      rw [hrefs] at hin
      refine ⟨hfd, hptr, .inl ?_⟩
      rcases hin with hin | hin
      · exact hin
      · -- the monitor's own registration is the one that goes
        rw [List.mem_singleton.1 hin] at hfd
        simp [hfd] at hne
    · intro x hx
      cases hx
    · intro e he
      obtain ⟨hptr, hk⟩ := h.batch e he
      exact ⟨hptr, (hk.listed (by simp [hlock])).imp_right .inl⟩
  · cases hst

theorem Sound.epollWait (h : Sound s) {batch : List (Event α φ)} (hst : epollWait s batch = some s') : Sound s' := by
  unfold Monitors.epollWait at hst
  split at hst
  · rename_i hc
    obtain ⟨hpoll, -, hin⟩ := hc
    cases hst
    refine { h with alive := ?_, batch := ?_ }
    · intro x hx
      apply h.alive x
      rw [State.mem_refs, State.passed, hpoll]
      exact State.mem_refs.1 hx
    · intro e he
      obtain ⟨p, hp, rfl⟩ := List.mem_map.1 (hin e he)
      obtain ⟨-, hptr, hreg⟩ := h.registered p hp
      refine ⟨hptr, ?_⟩
      rcases hreg with hreg | hreg
      · exact .inl hreg
      · cases hlock : s.lock with
        | free =>
          rw [hlock] at hreg
          cases hreg
        | adding m =>
          rw [hlock] at hreg
          obtain rfl := List.mem_singleton.1 hreg
          exact .inr (.inr rfl)
        | removing m =>
          rw [hlock] at hreg
          obtain rfl := List.mem_singleton.1 hreg
          exact .inr (.inl (h.removing _ hlock))
  · cases hst

theorem Sound.handleEvent (h : Sound s) (hst : handleEvent s = some s') : Sound s' := by
  unfold Monitors.handleEvent at hst
  split at hst
  · rename_i e batch hloop
    have hbatch : ∀ e' ∈ e :: batch, e'.ptr = e'.monitor.address ∧ s.Keeps e'.monitor := by
      have := h.batch
      rwa [hloop] at this
    have hpassed : s.passed = s.held := by rw [State.passed, hloop]; exact List.append_nil _
    split at hst
    · split at hst
      · cases hst
        refine { h with alive := ?_, batch := fun e' he' => hbatch e' (List.mem_cons_of_mem _ he') }
        intro x hx
        apply h.alive x
        rw [State.mem_refs, hpassed]
        simpa [State.passed, Loop.refs] using State.mem_refs.1 hx
      · rename_i m hfind
        cases hst
        have hmem : m ∈ s.monitors := List.mem_of_find?_eq_some hfind
        have haddr : m.address = e.ptr := by simpa using List.find?_some hfind
        obtain ⟨hptr, hk⟩ := hbatch e List.mem_cons_self
        refine { h with
          alive := ?_
          batch := fun e' he' => hbatch e' (List.mem_cons_of_mem _ he')
          called := ?_ }
        · intro x hx
          rcases State.mem_refs.1 hx with hx | hx
          · rcases List.mem_append.1 hx with hx | hx
            · exact h.passed_alive (List.mem_append_left _ hx)
            · obtain rfl := List.mem_singleton.1 hx
              exact h.alive x (State.mem_refs.2 (.inr (.inl hmem)))
          · exact h.alive x (State.mem_refs.2 (.inr hx))
        · intro c hc
          rcases List.mem_append.1 hc with hc | hc
          · exact h.called c hc
          · obtain rfl := List.mem_singleton.1 hc
            -- the event's monitor still lives, so nobody else can be at its address
            exact (h.eq_of_address hmem (h.alive _ hk.mem_refs) (haddr.trans hptr)).symm
    · cases hst
  · cases hst

omit [DecidableEq α] [DecidableEq φ] in
theorem Sound.callbackReturns (h : Sound s) (hst : callbackReturns s = some s') : Sound s' := by
  unfold Monitors.callbackReturns at hst
  split at hst
  · rename_i m batch hloop
    cases hst
    refine { h with alive := ?_, batch := ?_ }
    · intro x hx
      apply h.alive x
      rcases State.mem_refs.1 hx with hx | hx
      · refine State.mem_refs.2 (.inl (List.mem_append_left _ ?_))
        simpa [State.passed, Loop.refs] using hx
      · exact State.mem_refs.2 (.inr hx)
    · have hb := h.batch
      rw [hloop] at hb
      exact hb
  · cases hst

theorem Sound.clear (h : Sound s) (hst : clear s = some s') : Sound s' := by
  unfold Monitors.clear at hst
  split at hst
  · rename_i hc
    obtain ⟨hloop, hfree⟩ := hc
    cases hst
    refine { h with alive := ?_, removing := ?_, batch := ?_ }
    · intro x hx
      apply h.alive x
      rw [State.mem_refs, State.passed, hloop]
      rcases State.mem_refs.1 hx with hx | hx | hx | hx
      · exact .inl hx
      · exact .inr (.inl hx)
      · cases hx
      · exact .inr (.inr (.inr hx))
    · intro x hx
      change s.lock = _ at hx
      rw [hfree] at hx
      cases hx
    · intro e he
      cases he
  · cases hst

theorem Sound.step {l : Label α φ} (h : Sound s) (hst : step s l = some s') : Sound s' := by
  cases l with
  | create address fd => exact h.create hst
  | share m => exact h.share hst
  | drop m => exact h.drop hst
  | destroy m => exact h.destroy hst
  | addMonitor m => exact h.addMonitor hst
  | addMonitorEnd => exact h.addMonitorEnd hst
  | removeMonitor m => exact h.removeMonitor hst
  | removeMonitorEnd => exact h.removeMonitorEnd hst
  | epollWait batch => exact h.epollWait hst
  | handleEvent => exact h.handleEvent hst
  | callbackReturns => exact h.callbackReturns hst
  | clear => exact h.clear hst

omit [DecidableEq α] [DecidableEq φ] in
theorem sound_init (h : init s) : Sound s := by
  subst h
  refine ⟨?_, ?_, ?_, ?_, ?_, ?_⟩
  all_goals simp [State.refs, State.passed, Loop.refs, Lock.refs, Loop.batch]

/-- Whatever monitors are added and removed in between: every callback was made on the
monitor that was registered when its event was harvested, and the monitor of an
event that is still to be handled is alive and cannot be destroyed. -/
theorem events_reach_monitor (h : Reach step (fun _ _ => True) init s) :
    (∀ c ∈ s.called, c.1.monitor = c.2) ∧
      ∀ e ∈ s.loop.batch, e.monitor ∈ s.heap ∧ destroy s e.monitor = none := by
  have hs : Sound s := h.inv Sound (fun _ hi => sound_init hi) fun _ _ _ hi _ hst => hi.step hst
  refine ⟨hs.called, fun e he => ?_⟩
  have hk := (hs.batch e he).2.mem_refs
  exact ⟨hs.alive _ hk, if_pos hk⟩

/-- Two monitors that have the same address and descriptor, one after the other. -/
def first : Monitor Nat Nat := ⟨0, 0x1000, 5⟩
def second : Monitor Nat Nat := ⟨1, 0x1000, 5⟩

/-- The first one is removed while its event is pending, and the second one takes its place. -/
def replacement : List (Label Nat Nat) :=
  [.create 0x1000 5, .addMonitor first, .addMonitorEnd, .epollWait [⟨0x1000, first⟩], .removeMonitor first,
    .removeMonitorEnd, .drop first, .handleEvent, .clear, .destroy first, .create 0x1000 5, .addMonitor second,
    .addMonitorEnd, .epollWait [⟨0x1000, second⟩], .handleEvent]

theorem events_reach_monitor_replacement : ∃ s : State Nat Nat,
    s.called = [(⟨0x1000, second⟩, second)] ∧ (∀ c ∈ s.called, c.1.monitor = c.2) ∧
      ∀ e ∈ s.loop.batch, e.monitor ∈ s.heap ∧ destroy s e.monitor = none := by
  have hrun : (exec step (fun _ _ => true) {} replacement).map (fun s => s.called) =
      some [(⟨0x1000, second⟩, second)] := by decide
  obtain ⟨s, hs, hv⟩ := exists_reach (fun _ _ _ => trivial) (.init (show init {} from rfl)) hrun
  exact ⟨s, hv, events_reach_monitor hs⟩

end DarlingServer.Monitors
