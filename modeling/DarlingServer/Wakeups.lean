import DarlingServer.Locks
/-!
# Links and outside wakeups

A link is on a queue exactly while its microthread sleeps there, as long as no
microthread is resumed before it is dequeued. Nothing but the unlock or signal
dequeues it: a wait that is resumed from outside goes on with its link in place.
-/

set_option linter.unusedSectionVars false

namespace DarlingServer

open Thread Runs

/-- The wait that a microthread has put its link on a queue for. -/
def Pc.sleep {ι σ : Type*} : Pc ι σ → Option (Wait σ)
  | .suspending w | .committing w | .leaving w | .waiting w => some w
  | _ => none

namespace Locks

variable {ι ν σ : Type*} [DecidableEq ι] [DecidableEq ν] [DecidableEq σ]

/-- Everybody is outside of the four functions, and every queue is empty. -/
structure Init (s : Locks ι ν σ) : Prop where
  running : ∀ i, (s.th i).running = true ∧ (s.th i).suspended = false
  pc : ∀ p, s.pc p = .outside
  owner : ∀ m, s.owner m = none
  queueLock : ∀ q, s.queueLock q = none
  links : ∀ q, s.links.pointer (.first q) = none ∧ s.links.last q = .first q
  workQueue : s.workQueue = []
  holds : ∀ p m, s.holds p m = false
  fault : s.fault = none

/-! ## Where the links are -/

/-- The queues are the lists `queue`, and who is on one sleeps there. -/
structure Linked (s : Locks ι ν σ) (queue : WaitQueue σ → List ι) : Prop where
  represents : s.links.Represents queue
  asleep : ∀ q i, i ∈ queue q → ∃ w, (s.pc (.microthread i)).sleep = some w ∧ w.queue = q
  committing : ∀ i w, s.pc (.microthread i) = .committing w → (s.th i).suspended = true

variable {s s' : Locks ι ν σ} {queue : WaitQueue σ → List ι}

theorem linked_init (h : Init s) : Linked s fun _ => [] where
  represents := ⟨h.links, fun _ => List.nodup_nil, nofun⟩
  asleep := nofun
  committing := by
    intro i w hp
    rw [h.pc] at hp
    cases hp

theorem Linked.congr (h : Linked s queue) (hl : s'.links = s.links) (hp : s'.pc = s.pc)
    (ht : ∀ i, (s'.th i).suspended = (s.th i).suspended) : Linked s' queue where
  represents := hl ▸ h.represents
  asleep := hp ▸ h.asleep
  committing := by
    intro i w hw
    rw [ht]
    exact h.committing i w (hp ▸ hw)

/-- A party goes on without a change to where its link belongs. -/
theorem Linked.move (h : Linked s queue) {p : Party ι ν} {x : Pc ι σ} (hl : s'.links = s.links)
    (hp : s'.pc = Function.update s.pc p x)
    (ht : ∀ i, .microthread i ≠ p → (s'.th i).suspended = (s.th i).suspended) (hx : x.sleep = (s.pc p).sleep)
    (hc : ∀ i w, p = .microthread i → x = .committing w → (s'.th i).suspended = true) : Linked s' queue where
  represents := hl ▸ h.represents
  asleep := by
    intro q i hi
    rw [hp, Function.update_apply]
    split
    · subst p; rw [hx]; exact h.asleep q i hi
    · exact h.asleep q i hi
  committing := by
    intro i w hw
    rw [hp, Function.update_apply] at hw
    split at hw
    · exact hc i w (Eq.symm ‹_›) hw
    · rw [ht i ‹_›]
      exact h.committing i w hw

/-- Who does not sleep is on no queue. -/
theorem Linked.not_mem (h : Linked s queue) {i : ι} (hs : (s.pc (.microthread i)).sleep = none) (q : WaitQueue σ) :
    i ∉ queue q := by
  intro hi
  obtain ⟨w, hw, -⟩ := h.asleep q i hi
  rw [hs] at hw
  cases hw

/-- A microthread that sleeps nowhere puts its link on a queue. -/
theorem Linked.insert (h : Linked s queue) {i : ι} (hs : (s.pc (.microthread i)).sleep = none) (w : Wait σ) :
    Linked ({ s with links := s.links.insertTail w.queue i }.setPc (.microthread i) (.suspending w))
      (Function.update queue w.queue (queue w.queue ++ [i])) where
  represents := h.represents.insertTail (h.not_mem hs) w.queue
  asleep := by
    intro q j hj
    rw [setPc_pc]
    split
    · rename_i hji
      cases hji
      refine ⟨w, rfl, ?_⟩
      by_cases hq : q = w.queue
      · exact hq.symm
      · rw [Function.update_of_ne hq] at hj
        exact absurd hj (h.not_mem hs q)
    · rename_i hji
      have hji : j ≠ i := fun he => hji (he ▸ rfl)
      refine h.asleep q j ?_
      by_cases hq : q = w.queue
      · subst q
        rw [Function.update_self, List.mem_append, List.mem_singleton] at hj
        exact hj.resolve_right hji
      · rwa [Function.update_of_ne hq] at hj
  committing := by
    intro j w' hw
    rw [setPc_pc] at hw
    split at hw
    · cases hw
    · exact h.committing j w' hw

/-- The oldest waiter of a queue is dequeued. -/
theorem Linked.dequeue (h : Linked s queue) {q : WaitQueue σ} {link : ι}
    (hl : s.links.pointer (.first q) = some link) :
    ∃ rest, queue q = link :: rest ∧
      Linked { s with links := s.links.remove q link } (Function.update queue q rest) := by
  rw [h.represents.first_eq] at hl
  cases hq : queue q with
  | nil => rw [hq] at hl; cases hl
  | cons x rest =>
    rw [hq] at hl
    cases hl
    refine ⟨rest, rfl, h.represents.removeFirst hq, ?_, h.committing⟩
    intro q' i hi
    refine h.asleep q' i ?_
    by_cases hq' : q' = q
    · subst q'
      rw [Function.update_self] at hi
      exact hq ▸ List.mem_cons_of_mem _ hi
    · rwa [Function.update_of_ne hq'] at hi

/-! ## Every step -/

theorem Linked.setThread (h : Linked s queue) {i : ι} {t : Thread}
    (ht : ∀ w, s.pc (.microthread i) = .committing w → t.suspended = true) : Linked (s.setThread i t) queue where
  represents := h.represents
  asleep := h.asleep
  committing := by
    intro j w hw
    rw [setThread_th]
    split
    · subst j; exact ht w hw
    · exact h.committing j w hw

theorem Linked.resume (h : Linked s queue) (i : ι) (r : Wakeup) : Linked (s.resume i r) queue := by
  obtain ⟨_, hr, -⟩ := resume_eq s i r
  rw [hr]
  exact h.congr rfl rfl fun _ => rfl

/-- The queues after the party goes on. -/
def advance (s : Locks ι ν σ) (queue : WaitQueue σ → List ι) (p : Party ι ν) : WaitQueue σ → List ι :=
  match p, s.pc p with
  | .microthread i, .looking m _ =>
    if s.owner m = none ∨ s.owner m = some i then queue
    else Function.update queue (.mutex m) (queue (.mutex m) ++ [i])
  | .microthread i, .inserting c _ => Function.update queue (.condvar c) (queue (.condvar c) ++ [i])
  | _, .releasing m _ => Function.update queue (.mutex m) (queue (.mutex m)).tail
  | _, .signalling c (_ + 1) => Function.update queue (.condvar c) (queue (.condvar c)).tail
  | _, _ => queue

/-- Removing the first of no links changes nothing. -/
theorem Linked.update_tail (h : Linked s queue) {q : WaitQueue σ} (hq : s.links.pointer (.first q) = none) :
    Function.update queue q (queue q).tail = queue := by
  rw [h.represents.first_eq, List.head?_eq_none_iff] at hq
  rw [hq, List.tail_nil, ← hq, Function.update_eq_self]

theorem Linked.advance_signalDone (h : Linked s queue) {p : Party ι ν} {c : σ} {count : Nat}
    (hp : s.pc p = .signalling c count) (hn : count = 0 ∨ s.links.pointer (.first (.condvar c)) = none) :
    s.advance queue p = queue := by
  cases count with
  | zero => simp only [advance, hp]
  | succ n =>
    simp only [advance, hp]
    exact h.update_tail (hn.resolve_left nofun)

theorem linked_goes {p : Party ι ν} (h : Linked s queue) (hg : Goes s p s') : Linked s' (s.advance queue p) := by
  cases hg with
  | leaveFails _ hp | notOwned hp | nativeInsert hp =>
    simp only [advance, hp]
    exact h.congr rfl rfl fun _ => rfl
  | lockQueue hp | waitLock hp | unlockQueue hp | signalLock hp | nativeSpin hp | nativeTake hp =>
    simp only [advance, hp]
    exact h.move rfl rfl (fun _ _ => rfl) (by rw [hp]; rfl) nofun
  | take hp ho =>
    simp only [advance, hp, ho, if_true]
    exact h.move rfl rfl (fun _ _ => rfl) (by rw [hp]; rfl) nofun
  | signalDone hp hn =>
    rw [h.advance_signalDone hp hn]
    exact h.move rfl rfl (fun _ _ => rfl) (by rw [hp]; rfl) nofun
  | releaseEmpty hp hn =>
    simp only [advance, hp]
    rw [h.update_tail hn]
    exact h.move rfl rfl (fun _ _ => rfl) (by rw [hp]; rfl) nofun
  | nativeUnlock hp | drop hp =>
    rename_i after
    simp only [advance, hp]
    refine h.move rfl rfl (fun _ _ => rfl) ?_ ?_
    · rw [hp]; cases after <;> rfl
    · cases after <;> nofun
  | enqueue hp hn hi =>
    simp only [advance, hp, hn, hi, or_self, if_false]
    exact h.insert (by rw [hp]; rfl) (.mutex _)
  | insert hp =>
    simp only [advance, hp]
    exact h.insert (by rw [hp]; rfl) (.condvar _ _)
  | suspendBegin hp =>
    simp only [advance, hp]
    refine h.move rfl rfl ?_ (by rw [hp]; rfl) ?_
    · intro j hj
      rw [setPc, setThread_th, if_neg (by rintro rfl; exact hj rfl)]
    · rintro _ w ⟨⟩ -
      rw [setPc, setThread_th, if_pos rfl]
      rfl
  | suspendCommit hp hs =>
    simp only [advance, hp]
    refine h.move rfl rfl ?_ (by rw [hp]; rfl) nofun
    intro j _
    rw [setPc, setThread_th]
    split
    · subst j; rfl
    · rfl
  | notSuspended hp hs =>
    -- nobody has resumed it in between
    have := h.committing _ _ hp
    rw [hs] at this; cases this
  | leave t freed hp =>
    obtain ⟨_, _, _, hd, hth⟩ := doneWorking_eq s _ t
    simp only [advance, hp]
    rw [hd]
    refine h.move rfl rfl ?_ (by rw [hp]; rfl) nofun
    intro j hj
    exact congrArg Thread.suspended (hth j fun he => hj (he ▸ rfl))
  | releaseWake link hp hl | signalDequeue link hp hl =>
    obtain ⟨rest, hq, hd⟩ := h.dequeue hl
    simp only [advance, hp, hq, List.tail_cons]
    exact hd.move rfl rfl (fun _ _ => rfl) (by rw [hp]; rfl) nofun
  | wake hp | signalWake hp =>
    simp only [advance, hp]
    obtain ⟨_, hr, -⟩ := resume_eq s _ .dequeued
    rw [hr]
    exact h.move rfl rfl (fun _ _ => rfl) (by rw [hp]; rfl) nofun

/-- A worker resumes the microthread with this step. -/
def resumes (s : Locks ι ν σ) (i : ι) (l : LockLabel ι ν σ) : Bool :=
  (s.step l).any fun s' => s'.pc (.microthread i) ≠ s.pc (.microthread i)

/-- Nobody is resumed from a wait before an unlock or signal has dequeued them. -/
def WokenDequeued (s : Locks ι ν σ) (l : LockLabel ι ν σ) : Prop :=
  ∀ i w, s.pc (.microthread i) = .waiting w → s.resumes i l = true → ¬ s.links.OnQueue w.queue i

theorem notifyDead_suspended (t : Thread) : t.notifyDead.suspended = t.suspended := by
  unfold Thread.notifyDead
  split <;> rfl

theorem setPendingCall_suspended {t t' : Thread} {c : Call} (h : t.setPendingCall c = .ok t') :
    t'.suspended = t.suspended := by
  unfold Thread.setPendingCall at h
  split at h
  · split at h <;> cases h
    rfl
  · cases h; rfl

/-- A change to a thread that is neither suspended nor resumed by it. -/
theorem Linked.update (h : Linked s queue) {i : ι} {t : Thread} (ht : t.suspended = (s.th i).suspended) :
    Linked (s.setThread i t) queue :=
  h.setThread fun w hw => ht ▸ h.committing i w hw

theorem Linked.popped (h : Linked s queue) (i : ι) (r : Wakeup) : Linked (s.popped i r) queue :=
  h.congr rfl rfl fun _ => rfl

/-- A microthread whose link is on no queue leaves its wait. -/
theorem Linked.wake (h : Linked s queue) {i : ι} (hi : ∀ q, i ∉ queue q) (t : Thread) (w : Wait σ) :
    Linked ((s.setThread i t).setPc (.microthread i) w.resumed) queue where
  represents := h.represents
  asleep := by
    intro q j hj
    rw [setPc_pc]
    split
    · rename_i he
      cases he
      exact absurd hj (hi q)
    · exact h.asleep q j hj
  committing := by
    intro j w' hw
    rw [setPc_pc] at hw
    split at hw
    · cases w <;> cases hw
    · rename_i hj
      rw [setPc, setThread_th, if_neg (by rintro rfl; exact hj rfl)]
      exact h.committing j w' hw

theorem linked_step {l : LockLabel ι ν σ} (h : Linked s queue) (hg : WokenDequeued s l) (hs : s.step l = some s') :
    ∃ queue', Linked s' queue' := by
  have hm := (step_moves hs).2
  cases hm with
  | go _ hgo => exact ⟨_, linked_goes h hgo⟩
  | stillOwned | crashAtWork | handOver | interruptFails => exact ⟨queue, h.congr rfl rfl fun _ => rfl⟩
  | lock hp | unlock hp | condvarWait hp | condvarSignal hp =>
    exact ⟨queue, h.move rfl rfl (fun _ _ => rfl) (by rw [hp]; rfl) nofun⟩
  | ignored t _ ht => exact ⟨queue, (h.popped _ _).update ht⟩
  | ended t he hp =>
    rename_i i reason w'
    obtain ⟨_, _, _, hd, hth⟩ := doneWorking_eq (s.popped i reason) i t
    rw [hd]
    refine ⟨queue, h.represents, h.asleep, ?_⟩
    intro j w hw
    have hj : j ≠ i := by
      rintro rfl
      exact absurd (hp.symm.trans hw) nofun
    exact (congrArg Thread.suspended (hth j hj)).trans (h.committing j w hw)
  | resumed t he hp =>
    rename_i i reason w
    have hr : s.resumes i (.doWork i reason) = true := by
      rw [resumes, hs, Option.any_some, setPc_pc, if_pos rfl, hp]
      cases w <;> rfl
    have hi : ∀ q, i ∉ queue q := by
      intro q hi
      obtain ⟨w', hw, rfl⟩ := h.asleep q i hi
      rw [hp] at hw
      cases hw
      exact hg i w hp hr ((h.represents.onQueue_iff _ _).2 hi)
    exact ⟨queue, (h.popped i reason).wake hi t w⟩
  | elsewhere hp hr hsus =>
    refine ⟨queue, h.setThread ?_⟩
    intro w hw
    exact absurd (hp.symm.trans hw) nofun
  | stillDead => exact ⟨queue, h⟩
  | deadIdle => exact ⟨queue, h.update (notifyDead_suspended _)⟩
  | deadBusy => exact ⟨queue, (h.update (notifyDead_suspended _)).resume _ _⟩
  | threadRelease => exact ⟨queue, h.resume _ _⟩
  | interruptEnter t ht =>
    exact ⟨queue, (h.update (setPendingCall_suspended ht)).congr rfl rfl fun _ => rfl⟩

/-- Only a worker that takes an entry resumes a microthread that waits. -/
theorem resumes_doWork {l : LockLabel ι ν σ} {i : ι} {w : Wait σ} (hp : s.pc (.microthread i) = .waiting w)
    (hr : s.resumes i l = true) : ∃ reason, l = .doWork i reason := by
  unfold resumes at hr
  cases hs : s.step l with
  | none => rw [hs] at hr; cases hr
  | some s' =>
    rw [hs, Option.any_some, decide_eq_true_eq] at hr
    -- it does not go on by itself, and nobody else moves it
    cases (step_moves hs).2 with
    | go _ hg =>
      refine absurd (hg.pc_other ?_) hr
      rintro rfl
      exact hg.not_waiting w hp
    | lock h | unlock h | condvarWait h | condvarSignal h =>
      rw [setPc_pc] at hr
      split at hr
      · rename_i he
        rw [← he, hp] at h; cases h
      · exact absurd rfl hr
    | resumed t =>
      rw [setPc_pc] at hr
      split at hr
      · rename_i he
        cases he
        exact ⟨_, rfl⟩
      · exact absurd rfl hr
    | ended t =>
      obtain ⟨_, _, _, hd, -⟩ := doneWorking_eq (s.popped _ _) _ t
      rw [hd] at hr
      exact absurd rfl hr
    | deadBusy =>
      obtain ⟨_, he, -⟩ := resume_eq (s.setThread _ _) _ .outside
      rw [he] at hr
      exact absurd rfl hr
    | threadRelease =>
      obtain ⟨_, he, -⟩ := resume_eq s _ .outside
      rw [he] at hr
      exact absurd rfl hr
    | _ => exact absurd rfl hr

/-! ## Runs -/

/-- The links are in order: no link is inserted while it is on a queue, nobody goes
on from a wait with their link still on a queue, and who is dequeued is waiting there. -/
structure LinksSurvive (s : Locks ι ν σ) : Prop where
  represents : ∃ queue, s.links.Represents queue
  inserts : ∀ i, (∃ m r, s.pc (.microthread i) = .looking m r) ∨ (∃ c m, s.pc (.microthread i) = .inserting c m) →
    ∀ q, ¬ s.links.OnQueue q i
  leaves : ∀ i q, s.links.OnQueue q i → ∃ w, (s.pc (.microthread i)).sleep = some w ∧ w.queue = q
  dequeues : ∀ q i, s.links.pointer (.first q) = some i → ∃ w, (s.pc (.microthread i)).sleep = some w ∧ w.queue = q

theorem Linked.survive (h : Linked s queue) : LinksSurvive s := by
  have hleaves : ∀ i q, s.links.OnQueue q i → ∃ w, (s.pc (.microthread i)).sleep = some w ∧ w.queue = q := by
    intro i q hi
    exact h.asleep q i ((h.represents.onQueue_iff q i).1 hi)
  refine ⟨⟨queue, h.represents⟩, ?_, hleaves, fun q i hi => hleaves i q (.first hi)⟩
  intro i hi q hq
  obtain ⟨w, hw, -⟩ := hleaves i q hq
  rcases hi with ⟨m, r, hp⟩ | ⟨c, m, hp⟩ <;> rw [hp] at hw <;> cases hw

/-- Where no microthread is resumed from a wait before it was dequeued, by whatever
wakes it, the links are in order. -/
theorem links_survive (h : Reach step WokenDequeued Init s) : LinksSurvive s := by
  have hl : ∃ queue, Linked s queue := by
    refine h.inv (fun s => ∃ queue, Linked s queue) (fun s hs => ⟨_, linked_init hs⟩) ?_
    rintro s l s' ⟨queue, hl⟩ hg hs
    exact linked_step hl hg hs
  obtain ⟨queue, hl⟩ := hl
  exact hl.survive

/-- Microthreads in the middle of a call, and nobody in a lock function. -/
def quiet : Locks Nat Nat Nat where
  th _ := { running := true, stack := some 0, activeCall := some ⟨0, .plain 0⟩ }
  pc _ := .outside
  owner _ := none
  queueLock _ := none
  links := ⟨fun _ => none, .first, fun _ => .first (.mutex 0)⟩
  workQueue := []
  holds _ _ := false
  fault := none

theorem quiet_init : Init quiet :=
  ⟨fun _ => ⟨rfl, rfl⟩, fun _ => rfl, fun _ => rfl, fun _ => rfl, fun _ => ⟨rfl, rfl⟩, rfl, fun _ _ => rfl, rfl⟩

/-- Microthread 0 locks the mutex, and microthread 1 comes to wait for it. -/
def contend : List (LockLabel Nat Nat Nat) :=
  [.lock (.microthread 0) 0, .go (.microthread 0), .go (.microthread 0),
    .lock (.microthread 1) 0, .go (.microthread 1), .go (.microthread 1), .go (.microthread 1), .go (.microthread 1),
    .go (.microthread 1), .handOver (.mutex 0)]

/-- Microthread 1 locks the mutex and waits on the condition variable. -/
def awaitSignal : List (LockLabel Nat Nat Nat) :=
  [.lock (.microthread 1) 0, .go (.microthread 1), .go (.microthread 1), .condvarWait (.microthread 1) 0 0] ++
    List.replicate 8 (.go (.microthread 1)) ++ [.handOver (.condvar 0)]

/-- Only microthreads whose queue is empty are resumed. -/
def emptied (s : Locks Nat Nat Nat) : LockLabel Nat Nat Nat → Bool
  | .doWork i _ =>
    match s.pc (.microthread i) with
    | .waiting w => (s.links.pointer (.first w.queue)).isNone
    | _ => true
  | _ => true

theorem emptied_wokenDequeued (s : Locks Nat Nat Nat) (l : LockLabel Nat Nat Nat) (h : emptied s l = true) :
    WokenDequeued s l := by
  intro i w hp hr
  obtain ⟨reason, rfl⟩ := resumes_doWork hp hr
  simp only [emptied, hp, Option.isNone_iff_eq_none] at h
  exact Links.not_onQueue_of_empty h i

/-- The mutex is unlocked, and the waiter is resumed by a `thread_release` after it was dequeued. -/
theorem links_survive_released :
    ∃ s : Locks Nat Nat Nat, s.pc (.microthread 1) = .locking 0 true ∧ LinksSurvive s := by
  have hrun : (exec step emptied quiet (contend ++ [LockLabel.unlock (.microthread 0) 0, .go (.microthread 0),
      .go (.microthread 0), .threadRelease 1, .doWork 1 .outside])).map (fun s => s.pc (.microthread 1)) =
        some (.locking 0 true) := by rfl
  obtain ⟨s, hs, hp⟩ := Option.map_eq_some_iff.1 hrun
  exact ⟨s, hp, links_survive (exec_reach emptied_wokenDequeued hs (.init quiet_init))⟩

/-- Each resume from outside finds the link on its queue: `thread_release` lets the microthread insert it
again, which makes it its own successor; after `notifyDead` it leaves `dtape_condvar_wait` and the next
signal will dequeue it; and after an `interrupt_enter` it is about to insert it again. -/
theorem outside_wakeups_break_links :
    (∃ s : Locks Nat Nat Nat, Reach step (fun _ _ => True) Init s ∧ s.pc (.microthread 1) = .looking 0 true ∧
      s.owner 0 = some 0 ∧ s.links.OnQueue (.mutex 0) 1) ∧
    (∃ s : Locks Nat Nat Nat, Reach step (fun _ _ => True) Init s ∧ s.links.pointer (.next 1) = some 1) ∧
    (∃ s : Locks Nat Nat Nat, Reach step (fun _ _ => True) Init s ∧ s.pc (.microthread 1) = .outside ∧
      s.links.pointer (.first (.condvar 0)) = some 1) ∧
    (∃ s : Locks Nat Nat Nat, Reach step (fun _ _ => True) Init s ∧ s.pc (.microthread 1) = .looking 0 true ∧
      s.owner 0 = some 0 ∧ s.links.OnQueue (.mutex 0) 1) := by
  have hrun {α : Type} {f : Locks Nat Nat Nat → α} {v : α} (l : List (LockLabel Nat Nat Nat))
      (h : (exec step (fun _ _ => true) quiet l).map f = some v) :
      ∃ s, Reach step (fun _ _ => True) Init s ∧ f s = v :=
    exists_reach (fun _ _ _ => trivial) (.init quiet_init) h
  have hlook (l : List (LockLabel Nat Nat Nat)) (h : (exec step (fun _ _ => true) quiet l).map (fun s =>
      (s.pc (.microthread 1), s.owner 0, s.links.pointer (.first (.mutex 0)))) =
        some (.looking 0 true, some 0, some 1)) :
      ∃ s : Locks Nat Nat Nat, Reach step (fun _ _ => True) Init s ∧ s.pc (.microthread 1) = .looking 0 true ∧
        s.owner 0 = some 0 ∧ s.links.OnQueue (.mutex 0) 1 := by
    obtain ⟨s, hs, hv⟩ := hrun l h
    simp only [Prod.mk.injEq] at hv
    exact ⟨s, hs, hv.1, hv.2.1, .first hv.2.2⟩
  refine ⟨?_, ?_, ?_, ?_⟩
  · exact hlook (contend ++ [LockLabel.threadRelease 1, .doWork 1 .outside, .go (.microthread 1)]) rfl
  · exact hrun
      (contend ++ [LockLabel.threadRelease 1, .doWork 1 .outside, .go (.microthread 1), .go (.microthread 1)]) rfl
  · obtain ⟨s, hs, hv⟩ := hrun
      (awaitSignal ++ [LockLabel.notifyDead 1, .doWork 1 .outside, .go (.microthread 1), .go (.microthread 1)])
      (f := fun s => (s.pc (.microthread 1), s.links.pointer (.first (.condvar 0)))) rfl
    exact ⟨s, hs, (Prod.mk.inj hv).1, (Prod.mk.inj hv).2⟩
  · exact hlook
      (contend ++ [LockLabel.interruptEnter 1 ⟨1, .interruptEnter⟩, .doWork 1 .outside, .go (.microthread 1)]) rfl

end Locks

end DarlingServer
