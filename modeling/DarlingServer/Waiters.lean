import DarlingServer.Ownership
/-!
# Waiters

A waiter is in exactly one of three states: linked, dequeued by someone who is
about to resume it, or on the work queue. While it is still on its way to sleep it
has the queue locked, or its worker has; so whoever dequeues it finds it suspended
and off its worker, and its resume is not lost.
-/

set_option linter.unusedSectionVars false

namespace DarlingServer

open Thread Runs

/-! ## Flags of the microthreads -/

/-- Nothing is pending for the thread, and nothing keeps a worker from running it. -/
def Thread.plain (t : Thread) : Bool :=
  t.deferralState = .notDeferred && !t.terminating && (!t.dead || t.activeCall.isSome) && t.pendingCall.isNone &&
    t.pendingInterrupts.isEmpty && t.continuationCallback.isNone && t.stack.isSome

namespace Thread

variable {t : Thread}

/-- A thread that is not about to end. -/
theorem plain_alive (h : t.plain = true) : t.terminating = false ∧ (t.dead && t.activeCall.isNone) = false := by
  simp only [plain, Bool.and_eq_true, Bool.or_eq_true, Bool.not_eq_true'] at h
  refine ⟨h.1.1.1.1.1.2, ?_⟩
  rcases h.1.1.1.1.2 with ha | ha <;> simp [ha]

/-- A worker that takes up a suspended thread goes on where it was. -/
theorem plain_doWork (h : t.plain = true) (hr : t.running = false) (hs : t.suspended = true) :
    t.doWorkEntry = ({ t with running := true }, .entered) ∧
      ({ t with running := true } : Thread).doWorkDispatch =
        .ok ({ t with running := true, suspended := false }, .resumeContext) ∧
      ({ t with running := true, suspended := false } : Thread).switchStack 0 .resumeContext =
        .ok ({ t with running := true, suspended := false }, none) := by
  obtain ⟨ht, hdead⟩ := plain_alive h
  simp only [plain, Bool.and_eq_true, decide_eq_true_eq, Option.isNone_iff_eq_none] at h
  obtain ⟨⟨⟨⟨⟨⟨hd, -⟩, -⟩, hp⟩, -⟩, hk⟩, hst⟩ := h
  refine ⟨?_, ?_, ?_⟩
  · simp [doWorkEntry, hd, hr, ht, hdead]
  · simp [doWorkDispatch, beginInterrupt, hp, hk, hs]
  · simp [switchStack, hst]

theorem plain_returnToTop (h : t.plain = true) (hs : t.suspended = true) : t.returnToTop = .ok (t, none) := by
  simp only [plain, Bool.and_eq_true, Option.isNone_iff_eq_none] at h
  simp [returnToTop, hs, h.1.2]

theorem plain_doneWorking (h : t.plain = true) : t.doneWorking = .ok ({ t with running := false }, false) := by
  obtain ⟨ht, hdead⟩ := plain_alive h
  simp only [plain, Bool.and_eq_true, List.isEmpty_iff] at h
  simp [doneWorking, ht, hdead, h.1.1.2]

theorem plain_notifyDead (h : t.plain = true) (ha : t.activeCall.isSome = true) : t.notifyDead.plain = true := by
  unfold notifyDead
  split
  · exact h
  · simp only [plain, Bool.and_eq_true] at h ⊢
    simp [h, ha]

end Thread

section

variable {ι σ : Type*}

def Pc.isWaiting : Pc ι σ → Bool
  | .waiting _ => true
  | _ => false

/-- Past the first section of `suspend`, and not resumed yet. -/
def Pc.isSuspended : Pc ι σ → Bool
  | .committing _ | .leaving _ | .waiting _ => true
  | _ => false

/-- The wait that the microthread is on its way to sleep in. -/
def Pc.settling : Pc ι σ → Option (Wait σ)
  | .suspending w | .committing w | .leaving w => some w
  | _ => none

/-- Neither asleep nor about to wake somebody. -/
def Pc.apart : Pc ι σ → Bool
  | .waiting _ | .waking .. | .signalWaking .. => false
  | _ => true

theorem Pc.apart_wakes {x : Pc ι σ} (h : x.apart = true) : x.wakes = none := by
  cases x with
  | waking | signalWaking => cases h
  | _ => rfl

theorem Pc.apart_waiting {x : Pc ι σ} (h : x.apart = true) (w : Wait σ) : x ≠ .waiting w := by
  rintro rfl
  cases h

/-- The flags of a microthread that is there. -/
structure Flagged (x : Pc ι σ) (t : Thread) : Prop where
  plain : t.plain = true
  running : t.running = !x.isWaiting
  suspended : t.suspended = x.isSuspended

end

namespace Locks

variable {ι ν σ : Type*} [DecidableEq ι] [DecidableEq ν] [DecidableEq σ] {s s' : Locks ι ν σ}

theorem Goes.th_other {p : Party ι ν} {j : ι} (h : Goes s p s') (hp : .microthread j ≠ p) : s'.th j = s.th j := by
  have hne : ∀ i, p = .microthread i → j ≠ i := by
    rintro i rfl rfl
    exact hp rfl
  cases h with
  | suspendBegin | suspendCommit | notSuspended => exact Function.update_of_ne (hne _ rfl) _ _
  | leave t =>
    obtain ⟨_, _, _, hd, hth⟩ := doneWorking_eq s _ t
    rw [hd]
    exact hth j (hne _ rfl)
  | wake | signalWake => obtain ⟨_, hr, -⟩ := resume_eq s _ .dequeued; rw [hr]; rfl
  | _ => rfl

/-- Where a microthread leaves its worker, it is off for good. -/
theorem doneWorking_plain (s : Locks ι ν σ) (i : ι) {t : Thread} (h : t.plain = true) :
    s.doneWorking i t = s.setThread i { t with running := false } := by
  rw [doneWorking, plain_doneWorking h]
  rfl

theorem flagged_goes {p : Party ι ν} (h : ∀ i, Flagged (s.pc (.microthread i)) (s.th i)) (hg : Goes s p s') (i : ι) :
    Flagged (s'.pc (.microthread i)) (s'.th i) := by
  by_cases hi : .microthread i = p
  case neg => rw [hg.pc_other hi, hg.th_other hi]; exact h i
  subst hi
  have hf := h i
  cases hg with
  | leaveFails | notOwned => exact hf
  | lockQueue hp | take hp | enqueue hp | waitLock hp | unlockQueue hp | releaseEmpty hp | releaseWake _ hp | insert hp
  | signalLock hp | signalDone hp | signalDequeue _ hp =>
    rw [hp] at hf
    rw [setPc_pc, if_pos rfl]
    exact ⟨hf.plain, hf.running, hf.suspended⟩
  | drop hp =>
    rename_i m after
    rw [hp] at hf
    rw [setPc_pc, if_pos rfl]
    cases after <;> exact ⟨hf.plain, hf.running, hf.suspended⟩
  | wake hp | signalWake hp =>
    rw [hp] at hf
    obtain ⟨_, hr, -⟩ := resume_eq s _ .dequeued
    rw [hr, setPc_pc, if_pos rfl]
    exact ⟨hf.plain, hf.running, hf.suspended⟩
  | suspendBegin hp =>
    rw [hp] at hf
    rw [setPc_pc, if_pos rfl, setPc, setThread_th, if_pos rfl]
    exact ⟨hf.plain, hf.running, rfl⟩
  | suspendCommit hp hs =>
    rw [hp] at hf
    rw [setPc_pc, if_pos rfl, setPc, setThread_th, if_pos rfl]
    exact ⟨hf.plain, hf.running, hf.suspended⟩
  | notSuspended hp hs =>
    rw [hp] at hf
    rw [hf.suspended] at hs; cases hs
  | leave t freed hp ht =>
    rw [hp] at hf
    rw [plain_returnToTop hf.plain hf.suspended] at ht
    cases ht
    rw [setPc_pc, if_pos rfl, doneWorking_plain _ _ hf.plain, setPc, setLock, setThread_th, if_pos rfl]
    exact ⟨hf.plain, rfl, hf.suspended⟩

/-! ## Waiters -/

/-- Where the waiters are: who is going to sleep is linked, and who sleeps is linked, about to be
resumed by the party that dequeued it, or on the work queue. -/
structure Standing (s : Locks ι ν σ) (queue : WaitQueue σ → List ι) : Prop where
  settled : ∀ i w, (s.pc (.microthread i)).settling = some w → i ∈ queue w.queue
  stage : ∀ i w, s.pc (.microthread i) = .waiting w →
    i ∈ queue w.queue ∨ (∃ p, (s.pc p).wakes = some i) ∨ (i, .dequeued) ∈ s.workQueue
  waker : ∀ p i, (s.pc p).wakes = some i → ∃ w, s.pc (.microthread i) = .waiting w ∧ (s.pc p).locks w.queue = true ∧
    i ∉ queue w.queue ∧ (i, .dequeued) ∉ s.workQueue
  entry : ∀ i r, (i, r) ∈ s.workQueue → r = .dequeued ∧ ∃ w, s.pc (.microthread i) = .waiting w ∧ i ∉ queue w.queue
  nodup : s.workQueue.Nodup

variable {queue queue' : WaitQueue σ → List ι}

/-- A step of somebody who neither wakes anybody nor sleeps. -/
theorem Standing.frame (h : Standing s queue) (hw : s'.workQueue = s.workQueue)
    (hpc : ∀ p, s'.pc p = s.pc p ∨ (s.pc p).apart = true ∧ (s'.pc p).apart = true)
    (hq : ∀ j w, s.pc (.microthread j) = .waiting w → (j ∈ queue' w.queue ↔ j ∈ queue w.queue))
    (hset : ∀ j w, (s'.pc (.microthread j)).settling = some w → j ∈ queue' w.queue) : Standing s' queue' := by
  have hwait : ∀ p w, s'.pc p = .waiting w ↔ s.pc p = .waiting w := by
    intro p w
    rcases hpc p with he | ⟨ha, ha'⟩
    · rw [he]
    · exact iff_of_false (Pc.apart_waiting ha' w) (Pc.apart_waiting ha w)
  have hwakes : ∀ p j, (s.pc p).wakes = some j ∨ (s'.pc p).wakes = some j → s'.pc p = s.pc p := by
    intro p j hj
    rcases hpc p with he | ⟨ha, ha'⟩
    · exact he
    · rw [Pc.apart_wakes ha, Pc.apart_wakes ha'] at hj
      rcases hj with hj | hj <;> cases hj
  refine ⟨hset, ?_, ?_, ?_, hw ▸ h.nodup⟩
  · intro j w hj
    rw [hwait] at hj
    rw [hq j w hj, hw]
    refine (h.stage j w hj).imp_right (Or.imp_left ?_)
    rintro ⟨p, hp⟩
    exact ⟨p, by rwa [hwakes p j (.inl hp)]⟩
  · intro p j hp
    have he := hwakes p j (.inr hp)
    rw [he] at hp ⊢
    obtain ⟨w, h1, h2, h3, h4⟩ := h.waker p j hp
    exact ⟨w, (hwait _ w).2 h1, h2, by rwa [hq j w h1], hw ▸ h4⟩
  · intro j r hj
    rw [hw] at hj
    obtain ⟨hr, w, h1, h2⟩ := h.entry j r hj
    exact ⟨hr, w, (hwait _ w).2 h1, by rwa [hq j w h1]⟩

/-- A party that neither sleeps nor wakes goes on, and does not go to sleep either. -/
theorem Standing.move {p : Party ι ν} {x : Pc ι σ} (h : Standing s queue) (hw : s'.workQueue = s.workQueue)
    (hp : s'.pc = Function.update s.pc p x) (ha : (s.pc p).apart = true) (hx : x.apart = true)
    (hset : x.settling = (s.pc p).settling) : Standing s' queue := by
  refine h.frame hw ?_ (fun _ _ _ => Iff.rfl) ?_
  · intro p'
    rw [hp, Function.update_apply]
    split
    · subst p'; exact .inr ⟨ha, hx⟩
    · exact .inl rfl
  · intro j w hj
    rw [hp, Function.update_apply] at hj
    split at hj
    · subst p; exact h.settled j w (hset ▸ hj)
    · exact h.settled j w hj

/-- A microthread links itself and begins to suspend. -/
theorem Standing.insert {i : ι} {w : Wait σ} (h : Standing s queue) (ha : (s.pc (.microthread i)).apart = true)
    (hw : s'.workQueue = s.workQueue) (hp : s'.pc = Function.update s.pc (.microthread i) (.suspending w)) :
    Standing s' (Function.update queue w.queue (queue w.queue ++ [i])) := by
  have hmem : ∀ j q, j ≠ i → (j ∈ Function.update queue w.queue (queue w.queue ++ [i]) q ↔ j ∈ queue q) := by
    intro j q hj
    rw [Function.update_apply]
    split
    · subst q; simp [hj]
    · rfl
  refine h.frame hw ?_ ?_ ?_
  · intro p
    rw [hp, Function.update_apply]
    split
    · subst p; exact .inr ⟨ha, rfl⟩
    · exact .inl rfl
  · intro j w' hj
    refine hmem j _ ?_
    rintro rfl
    exact Pc.apart_waiting ha w' hj
  · intro j w' hj
    rw [hp, Function.update_apply] at hj
    split at hj
    · rename_i hji
      cases hji; cases hj
      simp
    · rename_i hji
      exact (hmem j _ fun he => hji (he ▸ rfl)).2 (h.settled j w' hj)

theorem pc_update {p : Party ι ν} {x : Pc ι σ} (hp : s'.pc = Function.update s.pc p x) :
    s'.pc p = x ∧ ∀ p', p' ≠ p → s'.pc p' = s.pc p' := by
  refine ⟨by rw [hp, Function.update_self], ?_⟩
  intro p' hne
  rw [hp, Function.update_of_ne hne]

/-- The worker of a microthread is done with it. -/
theorem Standing.leave {i : ι} {w : Wait σ} (h : Standing s queue) (hi : s.pc (.microthread i) = .leaving w)
    (hw : s'.workQueue = s.workQueue) (hp : s'.pc = Function.update s.pc (.microthread i) (.waiting w)) :
    Standing s' queue := by
  obtain ⟨hself, hpc⟩ := pc_update hp
  -- nobody who sleeps or wakes is the one that leaves
  have hkeep : ∀ j w', s.pc (.microthread j) = .waiting w' → s'.pc (.microthread j) = .waiting w' := by
    intro j w' hj
    rw [hpc _ (by rintro ⟨⟩; rw [hi] at hj; cases hj)]
    exact hj
  refine ⟨?_, ?_, ?_, ?_, hw ▸ h.nodup⟩
  · intro j w' hj
    by_cases hji : j = i
    · subst j; rw [hself] at hj; cases hj
    · rw [hpc _ (by rintro ⟨⟩; exact hji rfl)] at hj
      exact h.settled j w' hj
  · intro j w' hj
    by_cases hji : j = i
    · subst j
      rw [hself] at hj; cases hj
      exact .inl (h.settled i w (by rw [hi]; rfl))
    · rw [hpc _ (by rintro ⟨⟩; exact hji rfl)] at hj
      rw [hw]
      refine (h.stage j w' hj).imp_right (Or.imp_left ?_)
      rintro ⟨p, hp⟩
      exact ⟨p, by rwa [hpc p (by rintro rfl; rw [hi] at hp; cases hp)]⟩
  · intro p j hj
    have hne : p ≠ .microthread i := by rintro rfl; rw [hself] at hj; cases hj
    rw [hpc p hne] at hj ⊢
    obtain ⟨w', h1, h2⟩ := h.waker p j hj
    exact ⟨w', hkeep j w' h1, hw ▸ h2⟩
  · intro j r hj
    rw [hw] at hj
    obtain ⟨hr, w', h1, h2⟩ := h.entry j r hj
    exact ⟨hr, w', hkeep j w' h1, h2⟩

/-- A party takes the oldest waiter off a queue. -/
theorem Standing.dequeue {p : Party ι ν} {x : Pc ι σ} {q : WaitQueue σ} {link : ι} {rest : List ι} {w : Wait σ}
    (h : Standing s queue) (ha : (s.pc p).apart = true) (hs : (s.pc p).settling = none) (hq : queue q = link :: rest)
    (hn : (queue q).Nodup) (hl : s.pc (.microthread link) = .waiting w) (hwq : w.queue = q)
    (hw : s'.workQueue = s.workQueue) (hp : s'.pc = Function.update s.pc p x) (hx : x.wakes = some link)
    (hxq : x.locks q = true) : Standing s' (Function.update queue q rest) := by
  subst hwq
  obtain ⟨hself, hpc⟩ := pc_update hp
  have hxw : ∀ w', x ≠ .waiting w' := by rintro w' rfl; cases hx
  have hxs : x.settling = none := by
    cases x with
    | waking | signalWaking => rfl
    | _ => cases hx
  have hgone : link ∉ Function.update queue w.queue rest w.queue := by
    rw [Function.update_self]
    rw [hq] at hn
    exact (List.nodup_cons.1 hn).1
  have hmem : ∀ j q', j ≠ link → (j ∈ Function.update queue w.queue rest q' ↔ j ∈ queue q') := by
    intro j q' hj
    rw [Function.update_apply]
    split
    · subst q'; rw [hq]; simp [hj]
    · rfl
  have hwait : ∀ j w', s'.pc (.microthread j) = .waiting w' ↔ s.pc (.microthread j) = .waiting w' := by
    intro j w'
    by_cases hjp : .microthread j = p
    · rw [hjp, hself]
      exact iff_of_false (hxw w') (Pc.apart_waiting ha w')
    · rw [hpc _ hjp]
  have hlinked : link ∈ queue w.queue := by rw [hq]; exact List.mem_cons_self
  -- who is on its queue is on nobody's way yet
  have hfresh : ∀ r, (link, r) ∉ s.workQueue := by
    intro r hr
    obtain ⟨-, w', h1, h2⟩ := h.entry link r hr
    rw [hl] at h1; cases h1
    exact h2 hlinked
  have hother : ∀ p' j, (s.pc p').wakes = some j → p' ≠ p ∧ j ≠ link := by
    intro p' j hj
    refine ⟨?_, ?_⟩
    · rintro rfl; rw [Pc.apart_wakes ha] at hj; cases hj
    · rintro rfl
      obtain ⟨w', h1, -, h2, -⟩ := h.waker p' j hj
      rw [hl] at h1; cases h1
      exact h2 hlinked
  refine ⟨?_, ?_, ?_, ?_, hw ▸ h.nodup⟩
  · intro j w' hj
    by_cases hjp : .microthread j = p
    · rw [hjp, hself, hxs] at hj; cases hj
    · rw [hpc _ hjp] at hj
      refine (hmem j _ ?_).2 (h.settled j w' hj)
      rintro rfl; rw [hl] at hj; cases hj
  · intro j w' hj
    by_cases hjl : j = link
    · exact .inr (.inl ⟨p, by rw [hself, hx, hjl]⟩)
    · rw [hwait] at hj
      rw [hmem j _ hjl, hw]
      refine (h.stage j w' hj).imp_right (Or.imp_left ?_)
      rintro ⟨p', hp'⟩
      exact ⟨p', by rwa [hpc p' (hother p' j hp').1]⟩
  · intro p' j hj
    by_cases hpp : p' = p
    · subst p'
      rw [hself, hx] at hj; cases hj
      exact ⟨w, (hwait _ w).2 hl, by rwa [hself], hgone, hw ▸ hfresh _⟩
    · rw [hpc p' hpp] at hj ⊢
      obtain ⟨w', h1, h2, h3, h4⟩ := h.waker p' j hj
      exact ⟨w', (hwait _ w').2 h1, h2, by rwa [hmem j _ (hother p' j hj).2], hw ▸ h4⟩
  · intro j r hj
    rw [hw] at hj
    obtain ⟨hr, w', h1, h2⟩ := h.entry j r hj
    refine ⟨hr, w', (hwait _ w').2 h1, ?_⟩
    rwa [hmem j _ (by rintro rfl; exact hfresh r hj)]

/-- A party resumes the waiter it has dequeued. -/
theorem Standing.wake {p : Party ι ν} {x : Pc ι σ} {link : ι} (h : Standing s queue) (ho : Owned s)
    (hl : (s.pc p).wakes = some link) (hw : s'.workQueue = s.workQueue ++ [(link, .dequeued)])
    (hp : s'.pc = Function.update s.pc p x) (hx : x.apart = true) (hxs : x.settling = none) : Standing s' queue := by
  obtain ⟨w, hlw, hlq, hln, hle⟩ := h.waker p link hl
  obtain ⟨hself, hpc⟩ := pc_update hp
  have hwait : ∀ j w', s'.pc (.microthread j) = .waiting w' ↔ s.pc (.microthread j) = .waiting w' := by
    intro j w'
    by_cases hjp : .microthread j = p
    · rw [hjp, hself]
      refine iff_of_false (Pc.apart_waiting hx w') ?_
      intro he
      rw [he] at hl; cases hl
    · rw [hpc _ hjp]
  -- two wakers of one microthread would both have its queue locked
  have honly : ∀ p', (s.pc p').wakes = some link → p' = p := by
    intro p' hp'
    obtain ⟨w', h1, h2, -⟩ := h.waker p' link hp'
    rw [hlw] at h1; cases h1
    exact ho.locks_unique (q := w.queue) (by rw [locks, h2, Bool.true_or]) (by rw [locks, hlq, Bool.true_or])
  refine ⟨?_, ?_, ?_, ?_, ?_⟩
  · intro j w' hj
    by_cases hjp : .microthread j = p
    · rw [hjp, hself, hxs] at hj; cases hj
    · rw [hpc _ hjp] at hj
      exact h.settled j w' hj
  · intro j w' hj
    rw [hwait] at hj
    rw [hw, List.mem_append]
    rcases h.stage j w' hj with hj | ⟨p', hp'⟩ | hj
    · exact .inl hj
    · by_cases hpp : p' = p
      · subst p'
        rw [hl] at hp'; cases hp'
        exact .inr (.inr (.inr List.mem_cons_self))
      · exact .inr (.inl ⟨p', by rwa [hpc p' hpp]⟩)
    · exact .inr (.inr (.inl hj))
  · intro p' j hj
    have hpp : p' ≠ p := by
      rintro rfl
      rw [hself, Pc.apart_wakes hx] at hj; cases hj
    rw [hpc p' hpp] at hj ⊢
    obtain ⟨w', h1, h2, h3, h4⟩ := h.waker p' j hj
    refine ⟨w', (hwait _ w').2 h1, h2, h3, ?_⟩
    rw [hw, List.mem_append, List.mem_singleton]
    rintro (hj' | hj')
    · exact h4 hj'
    · cases hj'
      exact hpp (honly p' hj)
  · intro j r hj
    rw [hw, List.mem_append, List.mem_singleton] at hj
    rcases hj with hj | hj
    · obtain ⟨hr, w', h1, h2⟩ := h.entry j r hj
      exact ⟨hr, w', (hwait _ w').2 h1, h2⟩
    · cases hj
      exact ⟨rfl, w, (hwait _ w).2 hlw, hln⟩
  · rw [hw]
    refine List.nodup_append.2 ⟨h.nodup, List.nodup_singleton _, ?_⟩
    rintro a ha b hb rfl
    rw [List.mem_singleton] at hb
    exact hle (hb ▸ ha)

/-- A worker takes the entry of a waiter. -/
theorem Standing.resumed {i : ι} {w : Wait σ} {r : Wakeup} (h : Standing s queue) (he : (i, r) ∈ s.workQueue)
    (hw : s'.workQueue = s.workQueue.erase (i, r)) (hp : s'.pc = Function.update s.pc (.microthread i) w.resumed) :
    Standing s' queue := by
  obtain ⟨rfl, w₀, hi, hin⟩ := h.entry i r he
  obtain ⟨hself, hpc⟩ := pc_update hp
  have hres : (w.resumed : Pc ι σ).apart = true ∧ (w.resumed : Pc ι σ).settling = none := by
    cases w <;> exact ⟨rfl, rfl⟩
  have hwait : ∀ j w', s'.pc (.microthread j) = .waiting w' ↔ s.pc (.microthread j) = .waiting w' ∧ j ≠ i := by
    intro j w'
    by_cases hji : j = i
    · subst j
      rw [hself]
      exact iff_of_false (Pc.apart_waiting hres.1 w') (fun hn => hn.2 rfl)
    · rw [hpc _ (by rintro ⟨⟩; exact hji rfl)]
      exact ⟨fun h => ⟨h, hji⟩, fun h => h.1⟩
  have hmem : ∀ j r, (j, r) ∈ s.workQueue.erase (i, .dequeued) ↔ (j, r) ∈ s.workQueue ∧ j ≠ i := by
    intro j r
    rw [h.nodup.mem_erase_iff]
    constructor
    · rintro ⟨hne, hj⟩
      refine ⟨hj, ?_⟩
      rintro rfl
      exact hne (by rw [(h.entry j r hj).1])
    · rintro ⟨hj, hne⟩
      exact ⟨by rintro ⟨⟩; exact hne rfl, hj⟩
  refine ⟨?_, ?_, ?_, ?_, ?_⟩
  · intro j w' hj
    by_cases hji : j = i
    · subst j; rw [hself, hres.2] at hj; cases hj
    · rw [hpc _ (by rintro ⟨⟩; exact hji rfl)] at hj
      exact h.settled j w' hj
  · intro j w' hj
    obtain ⟨hj, hji⟩ := (hwait j w').1 hj
    rw [hw, hmem]
    rcases h.stage j w' hj with hq | ⟨p, hq⟩ | hq
    · exact .inl hq
    · refine .inr (.inl ⟨p, ?_⟩)
      rwa [hpc p (by rintro rfl; rw [hi] at hq; cases hq)]
    · exact .inr (.inr ⟨hq, hji⟩)
  · intro p j hj
    have hne : p ≠ .microthread i := by
      rintro rfl
      rw [hself, Pc.apart_wakes hres.1] at hj; cases hj
    rw [hpc p hne] at hj ⊢
    obtain ⟨w', h1, h2, h3, h4⟩ := h.waker p j hj
    have hji : j ≠ i := by rintro rfl; exact h4 he
    exact ⟨w', (hwait j w').2 ⟨h1, hji⟩, h2, h3, by rw [hw, hmem]; exact fun hj => h4 hj.1⟩
  · intro j r hj
    rw [hw, hmem] at hj
    obtain ⟨hr, w', h1, h2⟩ := h.entry j r hj.1
    exact ⟨hr, w', (hwait j w').2 ⟨h1, hj.2⟩, h2⟩
  · rw [hw]
    exact h.nodup.erase _

/-- Whoever has a queue locked finds its oldest waiter asleep. -/
theorem dequeue_waiting {p : Party ι ν} {q : WaitQueue σ} {link : ι} {rest : List ι} (hl : Linked s queue) (ho : Owned s)
    (hq : queue q = link :: rest) (hp : (s.pc p).locks q = true) (hs : (s.pc p).settling = none) :
    ∃ w, s.pc (.microthread link) = .waiting w ∧ w.queue = q := by
  obtain ⟨w, hw, hwq⟩ := hl.asleep q link (by rw [hq]; exact List.mem_cons_self)
  -- on its way to sleep it would have the queue locked itself
  have hlocks : ∀ x : Pc ι σ, s.pc (.microthread link) = x → x.settling = some w → False := by
    intro x hx hxs
    have hxq : x.locks q = true := by
      cases x with
      | suspending | committing | leaving => cases hxs; simp [Pc.locks, hwq]
      | _ => cases hxs
    have hlink : s.locks (.microthread link) q = true := by rw [locks, hx, hxq, Bool.true_or]
    have hmine : s.locks p q = true := by rw [locks, hp, Bool.true_or]
    have he := ho.locks_unique hlink hmine
    subst he
    rw [hx, hxs] at hs; cases hs
  cases hx : s.pc (.microthread link) with
  | waiting w' => rw [hx] at hw; cases hw; exact ⟨w, rfl, hwq⟩
  | suspending w' | committing w' | leaving w' =>
    rw [hx] at hw; cases hw
    exact absurd rfl (hlocks _ hx)
  | _ => rw [hx] at hw; cases hw

theorem standing_goes {p : Party ι ν} (h : Standing s queue) (hl : Linked s queue) (ho : Owned s)
    (hf : ∀ i, Flagged (s.pc (.microthread i)) (s.th i)) (hg : Goes s p s') : Standing s' (s.advance queue p) := by
  cases hg with
  | leaveFails _ hp | notOwned hp | nativeInsert hp =>
    simp only [advance, hp]
    exact h.frame rfl (fun _ => .inl rfl) (fun _ _ _ => Iff.rfl) h.settled
  | lockQueue hp | waitLock hp | unlockQueue hp | signalLock hp | nativeSpin hp | nativeTake hp | suspendBegin hp
  | suspendCommit hp =>
    simp only [advance, hp]
    exact h.move rfl rfl (by rw [hp]; rfl) rfl (by rw [hp]; rfl)
  | take hp ht =>
    simp only [advance, hp, ht, if_true]
    exact h.move rfl rfl (by rw [hp]; rfl) rfl (by rw [hp]; rfl)
  | notSuspended hp hs => rw [(hf _).suspended, hp] at hs; cases hs
  | signalDone hp hn =>
    rw [hl.advance_signalDone hp hn]
    exact h.move rfl rfl (by rw [hp]; rfl) rfl (by rw [hp]; rfl)
  | releaseEmpty hp hn =>
    simp only [advance, hp]
    rw [hl.update_tail hn]
    exact h.move rfl rfl (by rw [hp]; rfl) rfl (by rw [hp]; rfl)
  | nativeUnlock hp | drop hp =>
    rename_i after
    simp only [advance, hp]
    refine h.move rfl rfl (by rw [hp]; rfl) ?_ ?_
    · cases after <;> rfl
    · rw [hp]; cases after <;> rfl
  | enqueue hp hn hi =>
    simp only [advance, hp, hn, hi, or_self, if_false]
    exact h.insert (w := .mutex _) (by rw [hp]; rfl) rfl rfl
  | insert hp =>
    simp only [advance, hp]
    exact h.insert (w := .condvar _ _) (by rw [hp]; rfl) rfl rfl
  | leave t freed hp ht =>
    have hfi := hf ‹ι›
    rw [hp] at hfi
    rw [plain_returnToTop hfi.plain hfi.suspended] at ht
    cases ht
    simp only [advance, hp]
    rw [doneWorking_plain _ _ hfi.plain]
    exact h.leave hp rfl rfl
  | releaseWake link hp hk | signalDequeue link hp hk =>
    obtain ⟨rest, hq, hd⟩ := hl.dequeue hk
    obtain ⟨w, hw, hwq⟩ := dequeue_waiting (p := p) hl ho hq (by simp [hp, Pc.locks]) (by rw [hp]; rfl)
    simp only [advance, hp, hq, List.tail_cons]
    exact h.dequeue (by rw [hp]; rfl) (by rw [hp]; rfl) hq (hl.represents.nodup _) hw hwq rfl rfl rfl (by simp [Pc.locks])
  | wake hp | signalWake hp =>
    simp only [advance, hp]
    have hk := hp ▸ h.waker _ _ (by rw [hp]; rfl)
    obtain ⟨w, hw, -⟩ := hk
    obtain ⟨_, hr, hq⟩ := resume_eq s _ .dequeued
    rw [(hf _).suspended, hw] at hq
    rw [hr]
    exact h.wake ho (by rw [hp]; rfl) hq rfl rfl rfl

end Locks

end DarlingServer
