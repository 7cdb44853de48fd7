import DarlingServer.Waiters
/-!
# Correctness of the duct-taped locks

Where nothing but an unlock or signal that dequeued it resumes a microthread, a
mutex has one holder, a link is on one queue, a mutex with waiters is looked at
again once it is free, and no wakeup is lost.
-/

set_option linter.unusedSectionVars false

namespace DarlingServer

open Thread Runs

section

variable {ι σ : Type*}

/-- The mutex that a waiter will look at again, or does. -/
def Pc.retries : Pc ι σ → Option σ
  | .locking m true | .looking m true | .waiting (.mutex m) => some m
  | _ => none

/-- Where a call begins. -/
def Pc.begins : Pc ι σ → Bool
  | .locking _ false | .unlocking _ none | .waitLocking .. | .signalLocking .. => true
  | _ => false

theorem Pc.begins_spec [DecidableEq σ] {x : Pc ι σ} (h : x.begins = true) :
    (∀ q, x.locks q = false) ∧ x.apart = true ∧ x.sleep = none ∧ x.settling = none ∧ x.isWaiting = false ∧
      x.isSuspended = false := by
  cases x with
  | unlocking m after =>
    cases after with
    | none => exact ⟨fun _ => rfl, rfl, rfl, rfl, rfl, rfl⟩
    | some c => cases h
  | locking | waitLocking | signalLocking => exact ⟨fun _ => rfl, rfl, rfl, rfl, rfl, rfl⟩
  | _ => cases h

end

namespace Locks

variable {ι ν σ : Type*} [DecidableEq ι] [DecidableEq ν] [DecidableEq σ] {s s' : Locks ι ν σ}
  {queue queue' : WaitQueue σ → List ι}

/-! ## Retries -/

/-- If the mutex has waiters and no owner, someone is off its queue and will look at it again. -/
def Retried (s : Locks ι ν σ) (queue : WaitQueue σ → List ι) (m : σ) : Prop :=
  s.owner m = none → queue (.mutex m) ≠ [] → ∃ i, (s.pc (.microthread i)).retries = some m ∧ i ∉ queue (.mutex m)

theorem Retried.frame {m : σ} (h : Retried s queue m)
    (hm : s'.owner m = none → s.owner m = none ∧ queue' (.mutex m) = queue (.mutex m))
    (hr : s'.owner m = none → ∀ i, (s.pc (.microthread i)).retries = some m →
      (s'.pc (.microthread i)).retries = some m) : Retried s' queue' m := by
  intro ho hq
  obtain ⟨ho', he⟩ := hm ho
  rw [he] at hq ⊢
  obtain ⟨i, hi, hn⟩ := h ho' hq
  exact ⟨i, hr ho i hi, hn⟩

/-- A party goes on that does not change the owner of the mutex or its queue. -/
theorem Retried.move {p : Party ι ν} {x : Pc ι σ} {m : σ} (h : Retried s queue m)
    (hm : s'.owner m = none → s.owner m = none ∧ queue' (.mutex m) = queue (.mutex m))
    (hp : s'.pc = Function.update s.pc p x)
    (hx : s'.owner m = none → (s.pc p).retries = some m → x.retries = some m) : Retried s' queue' m := by
  refine h.frame hm ?_
  intro ho i hi
  rw [hp, Function.update_apply]
  split
  · subst p; exact hx ho hi
  · exact hi

/-- Somebody goes on who was not to look at a mutex again. -/
theorem Retried.moveAside {p : Party ι ν} {x : Pc ι σ} {m : σ} (h : Retried s queue m)
    (hm : s'.owner m = none → s.owner m = none ∧ queue' (.mutex m) = queue (.mutex m))
    (hp : s'.pc = Function.update s.pc p x) (hr : (s.pc p).retries = none) : Retried s' queue' m := by
  refine h.move hm hp ?_
  intro _ hx
  rw [hr] at hx; cases hx

theorem retried_goes {p : Party ι ν} (h : ∀ m, Retried s queue m) (hl : Linked s queue) (hown : Owned s)
    (hf : ∀ i, Flagged (s.pc (.microthread i)) (s.th i)) (hg : Goes s p s') (m : σ) : Retried s' (s.advance queue p) m := by
  cases hg with
  | leaveFails _ hp | notOwned hp | nativeInsert hp =>
    simp only [advance, hp]
    exact h m
  | lockQueue hp =>
    simp only [advance, hp]
    refine (h m).move (fun ho => ⟨ho, rfl⟩) rfl ?_
    rw [hp]
    cases ‹Bool› <;> exact fun _ hr => hr
  | waitLock hp | unlockQueue hp | signalLock hp | suspendBegin hp | suspendCommit hp =>
    simp only [advance, hp]
    exact (h m).moveAside (fun ho => ⟨ho, rfl⟩) rfl (by rw [hp]; rfl)
  | nativeSpin hp | nativeTake hp =>
    simp only [advance, hp]
    refine (h m).frame (fun ho => ⟨ho, rfl⟩) ?_
    intro _ i hi
    rwa [setPc_pc, if_neg (by rintro ⟨⟩)]
  | take hp ht =>
    rename_i i m' retry
    simp only [advance, hp, ht, if_true]
    have howner : (s.setOwner m' (some i)).owner m = none → m ≠ m' ∧ s.owner m = none := by
      rw [setOwner_owner]
      split
      · rintro ⟨⟩
      · exact fun ho => ⟨‹_›, ho⟩
    refine (h m).move (fun ho => ⟨(howner ho).2, rfl⟩) rfl ?_
    intro ho hr
    rw [hp] at hr
    cases retry with
    | true => cases hr; exact absurd rfl (howner ho).1
    | false => cases hr
  | notSuspended hp hs => rw [(hf _).suspended, hp] at hs; cases hs
  | signalDone hp hn =>
    rw [hl.advance_signalDone hp hn]
    exact (h m).moveAside (fun ho => ⟨ho, rfl⟩) rfl (by rw [hp]; rfl)
  | releaseEmpty hp hn =>
    rename_i m' after
    simp only [advance, hp]
    rw [hl.update_tail hn]
    by_cases hm : m = m'
    · subst m'
      intro _ hq
      rw [hl.represents.first_eq, List.head?_eq_none_iff] at hn
      exact absurd hn hq
    · refine (h m).moveAside (fun ho => ⟨?_, rfl⟩) rfl (by rw [hp]; rfl)
      exact (Function.update_of_ne hm _ _).symm.trans ho
  | nativeUnlock hp | drop hp =>
    simp only [advance, hp]
    exact (h m).moveAside (fun ho => ⟨ho, rfl⟩) rfl (by rw [hp]; rfl)
  | enqueue hp hn hi =>
    rename_i i m' retry
    simp only [advance, hp, hn, hi, or_self, if_false]
    have hne : s.owner m = none → m ≠ m' := by rintro ho rfl; exact hn ho
    refine (h m).move (fun ho => ⟨ho, Function.update_of_ne ?_ _ _⟩) rfl ?_
    · rintro ⟨⟩; exact hne ho rfl
    · intro ho hr
      rw [hp] at hr
      cases retry with
      | true => cases hr; exact absurd rfl (hne ho)
      | false => cases hr
  | insert hp =>
    simp only [advance, hp]
    refine (h m).moveAside (fun ho => ⟨ho, Function.update_of_ne ?_ _ _⟩) rfl (by rw [hp]; rfl)
    rintro ⟨⟩
  | leave t freed hp ht =>
    obtain ⟨_, _, _, hd, -⟩ := doneWorking_eq s ‹ι› t
    simp only [advance, hp]
    rw [hd]
    exact (h m).moveAside (fun ho => ⟨ho, rfl⟩) rfl (by rw [hp]; rfl)
  | releaseWake link hp hk =>
    rename_i m' after
    obtain ⟨rest, hq, -⟩ := hl.dequeue hk
    simp only [advance, hp, hq, List.tail_cons]
    by_cases hm : m = m'
    · subst m'
      -- the waiter that was dequeued is the one that will look again
      obtain ⟨w, hw, hwq⟩ := dequeue_waiting (p := p) hl hown hq (by simp [hp, Pc.locks]) (by rw [hp]; rfl)
      have hwm : w = .mutex m := by cases w <;> cases hwq; rfl
      subst hwm
      intro _ _
      refine ⟨link, ?_, ?_⟩
      · rw [setPc_pc, if_neg (by rintro rfl; rw [hw] at hp; cases hp)]
        exact congrArg Pc.retries hw
      · rw [Function.update_self]
        exact (List.nodup_cons.1 (hq ▸ hl.represents.nodup _)).1
    · refine (h m).moveAside (fun ho => ⟨?_, Function.update_of_ne ?_ _ _⟩) rfl (by rw [hp]; rfl)
      · exact (Function.update_of_ne hm _ _).symm.trans ho
      · rintro ⟨⟩; exact hm rfl
  | signalDequeue link hp hk =>
    simp only [advance, hp]
    refine (h m).moveAside (fun ho => ⟨ho, Function.update_of_ne ?_ _ _⟩) rfl (by rw [hp]; rfl)
    rintro ⟨⟩
  | wake hp | signalWake hp =>
    simp only [advance, hp]
    obtain ⟨_, hr, -⟩ := resume_eq s _ .dequeued
    rw [hr]
    exact (h m).moveAside (fun ho => ⟨ho, rfl⟩) rfl (by rw [hp]; rfl)

/-! ## Runs -/

/-- A step of a run in which the locks are used in a balanced way, and in which a suspended
microthread is left to those who dequeue it. -/
def undisturbed (s : Locks ι ν σ) : LockLabel ι ν σ → Bool
  | .lock p m => !s.holds p m
  | .unlock p m | .condvarWait p _ m => s.holds p m
  | .elsewhere _ t => t.plain
  | .notifyDead i => !(s.th i).suspended && (s.th i).activeCall.isSome
  | .threadRelease i => !(s.th i).suspended
  | .interruptEnter .. => false
  | .condvarSignal .. | .go _ | .handOver _ | .doWork .. => true

structure Sound (s : Locks ι ν σ) (queue : WaitQueue σ → List ι) : Prop where
  linked : Linked s queue
  owned : Owned s
  flagged : ∀ i, Flagged (s.pc (.microthread i)) (s.th i)
  standing : Standing s queue
  retried : ∀ m, Retried s queue m
  /-- Only a native caller of `dtape_condvar_wait` can bring the server down. -/
  fault : s.fault = none ∨ s.fault = some .nullThread

theorem sound_init (h : Init s) (hp : ∀ i, (s.th i).plain = true) : Sound s fun _ => [] where
  linked := linked_init h
  owned := by
    refine ⟨?_, ⟨?_, ?_⟩, ?_⟩
    · intro q p
      rw [h.queueLock, locks, h.pc]
      cases p with
      | microthread i => simp [Pc.locks]
      | native v => cases q <;> simp [Pc.locks, Party.keeps, h.holds]
    · simp [h.holds, h.owner]
    · simp [h.holds]
    · intro p
      rw [h.pc]
      exact .idle rfl rfl rfl
  flagged := by
    intro i
    rw [h.pc]
    exact ⟨hp i, (h.running i).1, (h.running i).2⟩
  standing := by
    refine ⟨?_, ?_, ?_, ?_, ?_⟩
    · intro i w hi; rw [h.pc] at hi; cases hi
    · intro i w hi; rw [h.pc] at hi; cases hi
    · intro p i hi; rw [h.pc] at hi; cases hi
    · intro i r hi; rw [h.workQueue] at hi; cases hi
    · rw [h.workQueue]; exact List.nodup_nil
  retried _ _ hq := absurd rfl hq
  fault := .inl h.fault

theorem Sound.fault_goes {p : Party ι ν} (h : Sound s queue) (hf : s.fault = none) (hg : Goes s p s') :
    s'.fault = none ∨ s'.fault = some .nullThread := by
  cases hg with
  | leaveFails f hp ht =>
    have hi := h.flagged ‹ι›
    rw [hp] at hi
    rw [plain_returnToTop hi.plain hi.suspended] at ht; cases ht
  | notOwned hp ho =>
    have hi := h.owned.fits (.microthread ‹ι›)
    rw [hp] at hi
    exact absurd ((h.owned.holding.owned _ _).1 (hi.entitled _ rfl)) ho
  | nativeInsert => exact .inr rfl
  | leave t freed hp ht =>
    have hi := h.flagged ‹ι›
    rw [hp] at hi
    rw [plain_returnToTop hi.plain hi.suspended] at ht; cases ht
    rw [doneWorking_plain _ _ hi.plain]
    exact .inl hf
  | wake | signalWake => obtain ⟨_, hr, -⟩ := resume_eq s _ .dequeued; rw [hr]; exact .inl hf
  | _ => exact .inl hf

theorem Sound.goes {p : Party ι ν} (h : Sound s queue) (hf : s.fault = none) (hg : Goes s p s') :
    Sound s' (s.advance queue p) where
  linked := linked_goes h.linked hg
  owned := owned_goes h.owned h.linked.committing hg
  flagged := flagged_goes h.flagged hg
  standing := standing_goes h.standing h.linked h.owned h.flagged hg
  retried := retried_goes h.retried h.linked h.owned h.flagged hg
  fault := h.fault_goes hf hg

/-- A call of one of the four functions. -/
theorem Sound.call {p : Party ι ν} {x : Pc ι σ} (h : Sound s queue) (hp : s.pc p = .outside) (hx : x.begins = true)
    (hf : Fits p x (s.holds p)) : Sound (s.setPc p x) queue := by
  obtain ⟨hl, ha, hsleep, hset, hw, hsus⟩ := Pc.begins_spec hx
  constructor
  · refine h.linked.move rfl rfl (fun _ _ => rfl) (by rw [hp, hsleep]; rfl) ?_
    rintro _ w - rfl
    cases hx
  · exact h.owned.move (by rw [hp]; exact hl) hf
  · intro i
    have hi := h.flagged i
    rw [setPc_pc]
    split
    · subst p
      rw [hp] at hi
      exact ⟨hi.plain, hi.running.trans (congrArg not hw.symm), hi.suspended.trans hsus.symm⟩
    · exact hi
  · exact h.standing.move rfl rfl (by rw [hp]; rfl) ha (by rw [hp, hset]; rfl)
  · exact fun m => (h.retried m).moveAside (fun ho => ⟨ho, rfl⟩) rfl (by rw [hp]; rfl)
  · exact h.fault

/-- A microthread changes without being suspended or resumed. -/
theorem Sound.setThread {i : ι} {t : Thread} (h : Sound s queue) (ht : Flagged (s.pc (.microthread i)) t) :
    Sound (s.setThread i t) queue where
  linked := h.linked.update (ht.suspended.trans (h.flagged i).suspended.symm)
  owned := h.owned.congr rfl rfl rfl rfl
  flagged := by
    intro j
    rw [setThread_th]
    split
    · subst j; exact ht
    · exact h.flagged j
  standing := h.standing.frame rfl (fun _ => .inl rfl) (fun _ _ _ => Iff.rfl) h.standing.settled
  retried := h.retried
  fault := h.fault

/-- What a worker does with the entry of a waiter. -/
def takenUp (s : Locks ι ν σ) (i : ι) (r : Wakeup) (w : Wait σ) : Locks ι ν σ :=
  ((s.popped i r).setThread i { s.th i with running := true, suspended := false }).setPc (.microthread i) w.resumed

/-- An entry is a waiter's, and the worker that takes it resumes the waiter. -/
theorem Sound.doWork {i : ι} {r : Wakeup} (h : Sound s queue) (hf : s.fault = none) (he : (i, r) ∈ s.workQueue) :
    ∃ w, s.pc (.microthread i) = .waiting w ∧ s.step (.doWork i r) = some (s.takenUp i r w) := by
  obtain ⟨-, w, hw, -⟩ := h.standing.entry i r he
  have hi := h.flagged i
  rw [hw] at hi
  obtain ⟨h1, h2, h3⟩ := plain_doWork hi.plain hi.running hi.suspended
  refine ⟨w, hw, ?_⟩
  have hrun : (s.popped i r).runEntry i = (s.popped i r).doWork i w := by
    unfold runEntry
    rw [show (s.popped i r).pc (.microthread i) = .waiting w from hw]
  have hdo : (s.popped i r).doWork i w = some (s.takenUp i r w) := by
    unfold Locks.doWork
    rw [show (s.popped i r).th i = s.th i from rfl, h1]
    simp only
    rw [h2]
    simp only
    rw [h3]
    rfl
  simp only [step, hf, Option.isSome_none, Bool.false_eq_true, if_false, if_pos he]
  rw [hrun, hdo]

theorem Sound.takenUp {i : ι} {r : Wakeup} {w : Wait σ} (h : Sound s queue) (he : (i, r) ∈ s.workQueue)
    (hw : s.pc (.microthread i) = .waiting w) : Sound (s.takenUp i r w) queue where
  linked := by
    refine (h.linked.popped i r).wake ?_ _ w
    intro q hq
    obtain ⟨w', hw', rfl⟩ := h.linked.asleep q i hq
    obtain ⟨-, w₀, h1, h2⟩ := h.standing.entry i r he
    rw [h1] at hw'
    cases hw'
    exact h2 hq
  owned := by
    have ho : Owned ((s.popped i r).setThread i { s.th i with running := true, suspended := false }) :=
      h.owned.congr rfl rfl rfl rfl
    refine ho.move ?_ (.microthread_idle ?_)
    · intro q
      show _ = (s.pc (.microthread i)).locks q
      rw [hw]
      cases w <;> rfl
    · cases w <;> rfl
  flagged := by
    intro j
    by_cases hj : j = i
    · subst j
      have hi := h.flagged i
      rw [Locks.takenUp, setPc_pc, if_pos rfl, setPc, setThread_th, if_pos rfl]
      cases w <;> exact ⟨hi.plain, rfl, rfl⟩
    · rw [Locks.takenUp, setPc_pc, if_neg (by rintro ⟨⟩; exact hj rfl), setPc, setThread_th, if_neg hj]
      exact h.flagged j
  standing := h.standing.resumed he rfl rfl
  retried m := by
    refine (h.retried m).move (fun ho => ⟨ho, rfl⟩) rfl ?_
    rw [hw]
    intro _ hr
    cases w with
    | mutex => exact hr
    | condvar => cases hr
  fault := h.fault

theorem Sound.resume_running {i : ι} (h : Sound s queue) (hs : (s.th i).suspended = false) (r : Wakeup) :
    Sound (s.resume i r) queue := by
  rw [Locks.resume, Thread.resume, if_neg (by simp [hs])]
  exact h

/-- Nobody is linked but by themselves. -/
theorem mem_advance {p : Party ι ν} {q : WaitQueue σ} {i : ι} (hi : i ∈ s.advance queue p q) :
    i ∈ queue q ∨ p = .microthread i := by
  have happend : ∀ j q', i ∈ Function.update queue q' (queue q' ++ [j]) q → i ∈ queue q ∨ i = j := by
    intro j q' h
    rw [Function.update_apply] at h
    split at h
    · subst q; simpa using h
    · exact .inl h
  have htail : ∀ q', i ∈ Function.update queue q' (queue q').tail q → i ∈ queue q := by
    intro q' h
    rw [Function.update_apply] at h
    split at h
    · subst q; exact List.mem_of_mem_tail h
    · exact h
  unfold advance at hi
  generalize s.pc p = x at hi
  cases x with
  | releasing m after => exact .inl (htail _ (by cases p <;> exact hi))
  | signalling c count =>
    cases count with
    | zero => exact .inl (by cases p <;> exact hi)
    | succ n => exact .inl (htail _ (by cases p <;> exact hi))
  | looking m retry =>
    cases p with
    | native v => exact .inl hi
    | microthread j =>
      simp only at hi
      split at hi
      · exact .inl hi
      · exact (happend j _ hi).imp_right fun (h : i = j) => h ▸ rfl
  | inserting c m =>
    cases p with
    | native v => exact .inl hi
    | microthread j => exact (happend j _ hi).imp_right fun (h : i = j) => h ▸ rfl
  | _ => exact .inl (by cases p <;> exact hi)

theorem sound_step {l : LockLabel ι ν σ} (h : Sound s queue) (hg : s.undisturbed l = true) (hs : s.step l = some s') :
    ∃ queue', Sound s' queue' ∧ ∀ i q, i ∈ queue' q → i ∈ queue q ∨ l = .go (.microthread i) := by
  obtain ⟨hf, hm⟩ := step_moves hs
  have hsame : Sound s' queue → ∃ queue', Sound s' queue' ∧ ∀ i q, i ∈ queue' q → i ∈ queue q ∨ l = .go (.microthread i) :=
    fun h' => ⟨queue, h', fun _ _ => .inl⟩
  cases hm with
  | crashAtWork _ he | ignored _ he | ended _ he | resumed _ he =>
    obtain ⟨w, hw, hst⟩ := h.doWork hf he
    have hs' := Option.some.inj (hst.symm.trans hs)
    exact hsame (hs' ▸ h.takenUp he hw)
  | stillOwned ho =>
    simp only [undisturbed, Bool.not_eq_true'] at hg
    rw [(h.owned.holding.owned _ _).2 ho] at hg; cases hg
  | lock hp ho =>
    simp only [undisturbed, Bool.not_eq_true'] at hg
    refine hsame (h.call hp rfl (.seeking rfl rfl ?_))
    rintro v rfl _ ⟨⟩
    exact hg
  | unlock hp | condvarWait hp =>
    refine hsame (h.call hp rfl ⟨?_, fun _ _ => rfl, fun _ _ => nofun⟩)
    rintro _ ⟨⟩
    exact hg
  | condvarSignal hp => exact hsame (h.call hp rfl (.idle rfl rfl rfl))
  | go _ hgo =>
    refine ⟨_, h.goes hf hgo, ?_⟩
    intro i q hi
    exact (mem_advance hi).imp_right (congrArg _)
  | handOver i hq =>
    exact hsame ⟨h.linked.congr rfl rfl fun _ => rfl, h.owned.handOver hq, h.flagged,
      h.standing.frame rfl (fun _ => .inl rfl) (fun _ _ _ => Iff.rfl) h.standing.settled, h.retried, h.fault⟩
  | elsewhere hp hr hsus =>
    refine hsame (h.setThread ?_)
    rw [hp]
    exact ⟨hg, hr, hsus⟩
  | stillDead => exact hsame h
  | deadIdle ha => simp [undisturbed, ha] at hg
  | deadBusy ha =>
    rename_i i
    simp only [undisturbed, Bool.and_eq_true, Bool.not_eq_true'] at hg
    have hi := h.flagged i
    have hfl : Flagged (s.pc (.microthread i)) (s.th i).notifyDead := by
      refine ⟨plain_notifyDead hi.plain hg.2, ?_, (notifyDead_suspended _).trans hi.suspended⟩
      rw [← hi.running]
      unfold Thread.notifyDead
      split <;> rfl
    refine hsame ((h.setThread hfl).resume_running ?_ _)
    rw [setThread_th, if_pos rfl, notifyDead_suspended]
    exact hg.1
  | threadRelease =>
    simp only [undisturbed, Bool.not_eq_true'] at hg
    exact hsame (h.resume_running hg _)
  | interruptFails | interruptEnter => cases hg

/-- What the locks promise to the callers. -/
structure Correct (s : Locks ι ν σ) : Prop where
  exclusive : ∀ m p p', s.holds p m = true → s.holds p' m = true → p = p'
  owner : ∀ m i, s.holds (.microthread i) m = true ↔ s.owner m = some i
  native : ∀ m v, s.holds (.native v) m = true →
    s.owner m = none ∧ s.queueLock (.mutex m) = some (.party (.native v))
  /-- Each queue is a list of links, and no link is on two of them. -/
  queues : ∃ queue, s.links.Represents queue
  oneQueue : ∀ i q q', s.links.OnQueue q i → s.links.OnQueue q' i → q = q'
  /-- A mutex with waiters that nobody holds will be looked at again. -/
  retries : ∀ m i, s.links.OnQueue (.mutex m) i → (∀ p, s.holds p m = false) →
    ∃ j, (s.pc (.microthread j)).retries = some m ∧ ¬ s.links.OnQueue (.mutex m) j
  /-- A signal with a count left dequeues a waiter that is asleep. -/
  reached : s.fault = none → ∀ p c count i, s.pc p = .signalling c (count + 1) →
    s.links.pointer (.first (.condvar c)) = some i →
      ∃ s', s.step (.go p) = some s' ∧ (s'.pc p).wakes = some i ∧ (s'.th i).suspended = true ∧ (s'.th i).running = false
  /-- Whoever sleeps off its queue has someone who will resume it, or is on the work queue, -/
  awaited : ∀ i w, s.pc (.microthread i) = .waiting w → ¬ s.links.OnQueue w.queue i →
    (∃ p, (s.pc p).wakes = some i) ∨ (i, .dequeued) ∈ s.workQueue
  /-- the one that will resume it puts it there, -/
  scheduled : s.fault = none → ∀ p i, (s.pc p).wakes = some i →
    ∃ s', s.step (.go p) = some s' ∧ (i, .dequeued) ∈ s'.workQueue
  /-- the worker that takes it from there resumes it, -/
  resumed : s.fault = none → ∀ i r, (i, r) ∈ s.workQueue → ∃ s', s.step (.doWork i r) = some s' ∧
    (s'.th i).suspended = false ∧ (s'.th i).running = true ∧ ∀ w, s'.pc (.microthread i) ≠ .waiting w
  /-- and nothing else changes that. -/
  kept : ∀ i w l s', s.pc (.microthread i) = .waiting w → ¬ s.links.OnQueue w.queue i → s.undisturbed l = true →
    s.step l = some s' → (∃ r, l = .doWork i r) ∨ s'.pc (.microthread i) = .waiting w ∧ ¬ s'.links.OnQueue w.queue i
  fault : s.fault = none ∨ s.fault = some .nullThread

theorem Sound.exclusive {m : σ} {p p' : Party ι ν} (h : Sound s queue) (hp : s.holds p m = true)
    (hp' : s.holds p' m = true) : p = p' := by
  have ho := h.owned.holding
  cases p with
  | microthread i =>
    cases p' with
    | microthread j =>
      have he := ((ho.owned i m).1 hp).symm.trans ((ho.owned j m).1 hp')
      cases he; rfl
    | native v =>
      exact absurd (ho.native v m hp') (by rw [(ho.owned i m).1 hp]; nofun)
  | native v =>
    cases p' with
    | microthread j => exact absurd (ho.native v m hp) (by rw [(ho.owned j m).1 hp']; nofun)
    | native v' =>
      have he := (h.owned.locked_of_native hp).symm.trans (h.owned.locked_of_native hp')
      cases he; rfl

theorem step_go {p : Party ι ν} (hf : s.fault = none) : s.step (.go p) = s.go p := by
  simp [step, hf]

/-- The party that has dequeued a waiter puts it on the work queue. -/
theorem Sound.scheduled {p : Party ι ν} {i : ι} (h : Sound s queue) (hf : s.fault = none) (hp : (s.pc p).wakes = some i) :
    ∃ s', s.step (.go p) = some s' ∧ (i, .dequeued) ∈ s'.workQueue := by
  obtain ⟨w, hw, -⟩ := h.standing.waker p i hp
  have hsus : (s.th i).suspended = true := by rw [(h.flagged i).suspended, hw]; rfl
  have hmem : (i, .dequeued) ∈ (s.resume i .dequeued).workQueue := by
    obtain ⟨_, hr, hq⟩ := resume_eq s i .dequeued
    rw [hr, hq, if_pos hsus]
    exact List.mem_append_right _ List.mem_cons_self
  cases hx : s.pc p with
  | waking m link after =>
    rw [hx] at hp; cases hp
    refine ⟨(s.resume i .dequeued).setPc p (.dropping m after), ?_, hmem⟩
    rw [step_go hf]
    simp only [go, hx]
  | signalWaking c count link =>
    rw [hx] at hp; cases hp
    refine ⟨(s.resume i .dequeued).setPc p (.signalling c count), ?_, hmem⟩
    rw [step_go hf]
    simp only [go, hx]
  | _ => rw [hx] at hp; cases hp

/-- A signal that finds a waiter finds it asleep. -/
theorem Sound.reached {p : Party ι ν} {c : σ} {count : Nat} {i : ι} (h : Sound s queue) (hf : s.fault = none)
    (hp : s.pc p = .signalling c (count + 1)) (hi : s.links.pointer (.first (.condvar c)) = some i) :
    ∃ s', s.step (.go p) = some s' ∧ (s'.pc p).wakes = some i ∧ (s'.th i).suspended = true ∧
      (s'.th i).running = false := by
  obtain ⟨rest, hq, -⟩ := h.linked.dequeue hi
  obtain ⟨w, hw, -⟩ := dequeue_waiting (p := p) h.linked h.owned hq (by simp [hp, Pc.locks]) (by rw [hp]; rfl)
  have hfl := h.flagged i
  rw [hw] at hfl
  refine ⟨{ s with links := s.links.remove (.condvar c) i }.setPc p (.signalWaking c count i), ?_, ?_,
    hfl.suspended, hfl.running⟩
  · rw [step_go hf]
    simp only [go, hp, signalTurn, hi]
  · rw [setPc_pc, if_pos rfl]
    rfl

/-- A waiter that was dequeued stays so until a worker resumes it. -/
theorem Sound.kept {i : ι} {w : Wait σ} {l : LockLabel ι ν σ} (h : Sound s queue)
    (hw : s.pc (.microthread i) = .waiting w) (hi : ¬ s.links.OnQueue w.queue i) (hg : s.undisturbed l = true)
    (hs : s.step l = some s') :
    (∃ r, l = .doWork i r) ∨ s'.pc (.microthread i) = .waiting w ∧ ¬ s'.links.OnQueue w.queue i := by
  by_cases hr : s.resumes i l = true
  · exact .inl (resumes_doWork hw hr)
  · have hsame : s'.pc (.microthread i) = s.pc (.microthread i) := by
      simpa [resumes, hs] using hr
    refine .inr ⟨hsame.trans hw, ?_⟩
    obtain ⟨queue', h', hmem⟩ := sound_step h hg hs
    rw [h.linked.represents.onQueue_iff] at hi
    rw [h'.linked.represents.onQueue_iff]
    intro hi'
    rcases hmem i _ hi' with hq | rfl
    · exact hi hq
    · -- whoever sleeps does not go on
      obtain ⟨-, hm⟩ := step_moves hs
      cases hm with
      | go _ hgo => exact hgo.not_waiting w hw

theorem Sound.correct (h : Sound s queue) : Correct s where
  exclusive _ _ _ := h.exclusive
  owner m i := h.owned.holding.owned i m
  native m v hv := ⟨h.owned.holding.native v m hv, h.owned.locked_of_native hv⟩
  queues := ⟨queue, h.linked.represents⟩
  oneQueue i q q' hq hq' := by
    rw [h.linked.represents.onQueue_iff] at hq hq'
    exact h.linked.represents.disjoint q q' i hq hq'
  retries m i hi hn := by
    rw [h.linked.represents.onQueue_iff] at hi
    have ho : s.owner m = none := by
      cases ho : s.owner m with
      | none => rfl
      | some j => exact absurd ((h.owned.holding.owned j m).2 ho) (by simp [hn])
    obtain ⟨j, hj, hjn⟩ := h.retried m ho (List.ne_nil_of_mem hi)
    exact ⟨j, hj, by rwa [h.linked.represents.onQueue_iff]⟩
  reached hf _ _ _ _ := h.reached hf
  awaited i w hw hi := by
    rw [h.linked.represents.onQueue_iff] at hi
    exact (h.standing.stage i w hw).resolve_left hi
  scheduled hf _ _ := h.scheduled hf
  resumed hf i r he := by
    obtain ⟨w, hw, hst⟩ := h.doWork hf he
    refine ⟨_, hst, ?_⟩
    have hfl := (h.takenUp he hw).flagged i
    have hpc : (s.takenUp i r w).pc (.microthread i) = w.resumed := by
      rw [Locks.takenUp, setPc_pc, if_pos rfl]
    rw [hpc] at hfl ⊢
    refine ⟨hfl.suspended.trans ?_, hfl.running.trans ?_, ?_⟩ <;> cases w <;> first | rfl | nofun
  kept _ _ _ _ := h.kept
  fault := h.fault

/-- Where the locks are used in a balanced way and a suspended microthread is resumed only after it
was dequeued, the locks are correct in every state, with any number of callers. -/
theorem locks_correct (h : Reach step (fun s l => s.undisturbed l = true)
    (fun s => Init s ∧ ∀ i, (s.th i).plain = true) s) : Correct s := by
  have hs : ∃ queue, Sound s queue := by
    refine h.inv (fun s => ∃ queue, Sound s queue) (fun s hs => ⟨_, sound_init hs.1 hs.2⟩) ?_
    rintro s l s' ⟨queue, hs⟩ hg hst
    obtain ⟨queue', h', -⟩ := sound_step hs hg hst
    exact ⟨queue', h'⟩
  obtain ⟨queue, hs⟩ := hs
  exact hs.correct

/-- A contended mutex changes hands. -/
theorem locks_correct_contended :
    ∃ s : Locks Nat Nat Nat, s.holds (.microthread 1) 0 = true ∧ Correct s := by
  have hrun : (exec step undisturbed quiet (contend ++ [LockLabel.unlock (.microthread 0) 0] ++
      List.replicate 4 (LockLabel.go (.microthread 0)) ++
        [LockLabel.doWork 1 .dequeued, .go (.microthread 1), .go (.microthread 1)])).map
          (fun s => s.holds (.microthread 1) 0) = some true := by rfl
  obtain ⟨s, hs, hh⟩ := Option.map_eq_some_iff.1 hrun
  exact ⟨s, hh, locks_correct (exec_reach (fun _ _ hg => hg) hs (.init ⟨quiet_init, fun _ => rfl⟩))⟩

end Locks

end DarlingServer
