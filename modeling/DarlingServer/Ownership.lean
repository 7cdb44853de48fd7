import DarlingServer.Wakeups
/-!
# Owners of the duct-taped locks

Who has locked a queue can be told from where the parties are, and from the mutexes
that native callers hold. A microthread is the owner of the mutexes it holds.
-/

set_option linter.unusedSectionVars false

namespace DarlingServer

open Thread Runs

/-! ## Where the parties are -/

section

variable {ι ν σ : Type*} [DecidableEq σ]

/-- The party has locked the queue, going by where it is. -/
def Pc.locks : Pc ι σ → WaitQueue σ → Bool
  | .looking m _, q => q = .mutex m
  | .unlocking _ after, q => after.any (q = .condvar ·)
  | .releasing m after, q | .waking m _ after, q | .dropping m after, q => q = .mutex m || after.any (q = .condvar ·)
  | .inserting c _, q | .signalling c _, q | .signalWaking c _ _, q => q = .condvar c
  | .suspending w, q | .committing w, q | .leaving w, q => q = w.queue
  | .outside, _ | .locking .., _ | .waiting _, _ | .waitLocking .., _ | .signalLocking .., _ => false

/-- The mutex that the party is about to release. -/
def Pc.releases : Pc ι σ → Option σ
  | .waitLocking _ m | .unlocking m _ | .releasing m _ => some m
  | _ => none

/-- The mutex that the party is about to take. -/
def Pc.wants : Pc ι σ → Option σ
  | .locking m _ | .looking m _ => some m
  | _ => none

/-- The waiter that the party has dequeued and not resumed yet. -/
def Pc.wakes : Pc ι σ → Option ι
  | .waking _ link _ | .signalWaking _ _ link => some link
  | _ => none

/-- A native caller can be here. -/
def Pc.isNative : Pc ι σ → Bool
  | .outside | .locking .. | .looking .. | .waitLocking .. | .unlocking .. | .inserting .. | .signalLocking ..
  | .signalling .. | .signalWaking .. => true
  | _ => false

/-- A native caller that holds a mutex has its queue locked. -/
def Party.keeps : Party ι ν → (σ → Bool) → WaitQueue σ → Bool
  | .native _, holds, .mutex m => holds m
  | _, _, _ => false

end

namespace Locks

variable {ι ν σ : Type*} [DecidableEq ι] [DecidableEq ν] [DecidableEq σ] {s s' : Locks ι ν σ}

def locks (s : Locks ι ν σ) (p : Party ι ν) (q : WaitQueue σ) : Bool := (s.pc p).locks q || p.keeps (s.holds p) q

/-! ## Owners -/

/-- A party that is there holds what it is about to release; a native one is nowhere
that only microthreads go, and does not hold what it is about to take. -/
structure Fits (p : Party ι ν) (x : Pc ι σ) (holds : σ → Bool) : Prop where
  entitled : ∀ m, x.releases = some m → holds m = true
  native : ∀ v, p = .native v → x.isNative = true
  wanting : ∀ v, p = .native v → ∀ m, x.wants = some m → holds m = false

theorem Fits.seeking {p : Party ι ν} {x : Pc ι σ} {holds : σ → Bool} (hr : x.releases = none) (hn : x.isNative = true)
    (hw : ∀ v, p = .native v → ∀ m, x.wants = some m → holds m = false) : Fits p x holds := by
  refine ⟨?_, fun _ _ => hn, hw⟩
  intro m hm
  rw [hr] at hm; cases hm

theorem Fits.idle {p : Party ι ν} {x : Pc ι σ} {holds : σ → Bool} (hr : x.releases = none) (hn : x.isNative = true)
    (hw : x.wants = none) : Fits p x holds := by
  refine .seeking hr hn ?_
  intro _ _ m hm
  rw [hw] at hm; cases hm

/-- A microthread can be anywhere. -/
theorem Fits.microthread {i : ι} {x : Pc ι σ} {holds : σ → Bool} (hr : ∀ m, x.releases = some m → holds m = true) :
    Fits (.microthread i : Party ι ν) x holds := by
  refine ⟨hr, ?_, ?_⟩
  · rintro v ⟨⟩
  · rintro v ⟨⟩

theorem Fits.microthread_idle {i : ι} {x : Pc ι σ} {holds : σ → Bool} (hr : x.releases = none) :
    Fits (.microthread i : Party ι ν) x holds := by
  refine .microthread ?_
  intro m hm
  rw [hr] at hm; cases hm

/-- A microthread holds the mutexes it owns, and a native caller only some without an owner. -/
structure Holding (s : Locks ι ν σ) : Prop where
  owned : ∀ i m, s.holds (.microthread i) m = true ↔ s.owner m = some i
  native : ∀ v m, s.holds (.native v) m = true → s.owner m = none

theorem Holding.take (h : Holding s) {i : ι} {m : σ} (ho : s.owner m = none ∨ s.owner m = some i)
    (hn : ∀ v, s.holds (.native v) m = false) :
    Holding ((s.setOwner m (some i)).setHolds (.microthread i) m true) := by
  constructor
  · intro j m'
    show (s.setHolds (.microthread i) m true).holds (.microthread j) m' = true ↔ (s.setOwner m (some i)).owner m' = some j
    rw [setHolds_holds, setOwner_owner]
    have hj := h.owned j m'
    by_cases hm : m' = m
    · subst m'
      by_cases hi : j = i
      · simp [hi]
      · have hne : s.owner m ≠ some j := by
          rcases ho with ho | ho <;> simp [ho, Ne.symm hi]
        have hno : ¬ s.holds (.microthread j) m = true := fun hh => hne (hj.1 hh)
        simpa [hi, Ne.symm hi] using hno
    · simpa [hm] using hj
  · intro v m' hh
    change (s.setHolds (.microthread i) m true).holds (.native v) m' = true at hh
    rw [setHolds_holds, if_neg (by nofun)] at hh
    show (s.setOwner m (some i)).owner m' = none
    rw [setOwner_owner]
    by_cases hm : m' = m
    · subst m'
      exact absurd hh (by simpa using hn v)
    · rw [if_neg hm]; exact h.native v m' hh

theorem Holding.release (h : Holding s) {i : ι} {m : σ} (hi : s.holds (.microthread i) m = true) :
    Holding ((s.setOwner m none).setHolds (.microthread i) m false) := by
  constructor
  · intro j m'
    show (s.setHolds (.microthread i) m false).holds (.microthread j) m' = true ↔ (s.setOwner m none).owner m' = some j
    rw [setHolds_holds, setOwner_owner]
    have hj := h.owned j m'
    by_cases hm : m' = m
    · subst m'
      by_cases hij : j = i
      · simp [hij]
      · have hno : ¬ s.holds (.microthread j) m = true := by
          rw [hj, (h.owned i m).1 hi]
          simpa using Ne.symm hij
        simpa [hij] using hno
    · simpa [hm] using hj
  · intro v m' hh
    change (s.setHolds (.microthread i) m false).holds (.native v) m' = true at hh
    rw [setHolds_holds, if_neg (by nofun)] at hh
    show (s.setOwner m none).owner m' = none
    rw [setOwner_owner]
    split
    · rfl
    · exact h.native v m' hh

theorem Holding.setNative (h : Holding s) (v : ν) {m : σ} {b : Bool} (hb : b = true → s.owner m = none) :
    Holding (s.setHolds (.native v) m b) := by
  constructor
  · intro i m'
    rw [setHolds_holds, if_neg (by nofun)]
    exact h.owned i m'
  · intro v' m' hh
    rw [setHolds_holds] at hh
    split at hh
    · rename_i he; rw [he.2]; exact hb hh
    · exact h.native v' m' hh

structure Owned (s : Locks ι ν σ) : Prop where
  locked : ∀ q p, s.queueLock q = some (.party p) ↔ s.locks p q = true
  holding : Holding s
  fits : ∀ p, Fits p (s.pc p) (s.holds p)

theorem Holding.congr (h : Holding s) (ho : s'.owner = s.owner) (hh : s'.holds = s.holds) : Holding s' :=
  ⟨by rw [ho, hh]; exact h.owned, by rw [ho, hh]; exact h.native⟩

/-- A mutex that a native caller holds has its queue locked by it. -/
theorem Owned.locked_of_native (h : Owned s) {v : ν} {m : σ} (hh : s.holds (.native v) m = true) :
    s.queueLock (.mutex m) = some (.party (.native v)) := by
  refine (h.locked _ _).2 ?_
  rw [locks, Party.keeps, hh, Bool.or_true]

theorem Goes.holds_other {p p' : Party ι ν} (h : Goes s p s') (hp : p' ≠ p) : s'.holds p' = s.holds p' := by
  cases h with
  | nativeTake | take | nativeUnlock | releaseEmpty | releaseWake => exact Function.update_of_ne hp _ _
  | leave t => obtain ⟨_, _, _, hd, -⟩ := doneWorking_eq s _ t; rw [hd]; rfl
  | wake | signalWake => obtain ⟨_, hr, -⟩ := resume_eq s _ .dequeued; rw [hr]; rfl
  | _ => rfl

/-- What the step of a party does to the queue locks: nothing, or it takes a lock
that is free, or it gives up one it has. -/
inductive LockMove (s s' : Locks ι ν σ) (p : Party ι ν) : Prop
  | same : s'.queueLock = s.queueLock → (∀ q, s'.locks p q = s.locks p q) → LockMove s s' p
  | take (q : WaitQueue σ) : s.queueLock q = none →
      s'.queueLock = Function.update s.queueLock q (some (.party p)) →
      (∀ q', s'.locks p q' = (s.locks p q' || q' = q)) → LockMove s s' p
  | drop (q : WaitQueue σ) (next : Option ι) : s.locks p q = true →
      s'.queueLock = Function.update s.queueLock q (next.map .worker) →
      (∀ q', s'.locks p q' = (s.locks p q' && q' ≠ q)) → LockMove s s' p

theorem LockMove.locked {p : Party ι ν} (hm : LockMove s s' p)
    (h : ∀ q p, s.queueLock q = some (.party p) ↔ s.locks p q = true)
    (hother : ∀ p', p' ≠ p → ∀ q, s'.locks p' q = s.locks p' q) :
    ∀ q p', s'.queueLock q = some (.party p') ↔ s'.locks p' q = true := by
  intro q p'
  have hq := h q p'
  cases hm with
  | same h1 h2 =>
    by_cases hp : p' = p
    · subst p'; rw [h1, h2]; exact hq
    · rw [h1, hother p' hp]; exact hq
  | take q₀ hn h1 h2 =>
    have hfree : s.locks p' q₀ = false := by
      have := h q₀ p'
      rw [hn] at this
      simpa using this
    rw [h1, Function.update_apply]
    by_cases hp : p' = p
    · subst p'
      rw [h2]
      by_cases hq₀ : q = q₀ <;> simp [hq₀, hq]
    · rw [hother p' hp]
      by_cases hq₀ : q = q₀
      · simp [hq₀, hfree, Ne.symm hp]
      · simp [hq₀, hq]
  | drop q₀ next hl h1 h2 =>
    have hto : ∀ p', next.map QueueHolder.worker ≠ some (.party p' : QueueHolder ι ν) := by
      intro p' he
      cases next <;> cases he
    rw [h1, Function.update_apply]
    by_cases hp : p' = p
    · subst p'
      rw [h2]
      by_cases hq₀ : q = q₀ <;> simp [hq₀, hq, hto]
    · have hfree : s.locks p' q₀ = false := by
        have := h q₀ p'
        rw [(h q₀ p).2 hl] at this
        simpa [Ne.symm hp] using this
      rw [hother p' hp]
      by_cases hq₀ : q = q₀
      · simp [hq₀, hfree, hto]
      · simp [hq₀, hq]

theorem locks_eq {p : Party ι ν} {x : Pc ι σ} (hp : s.pc p = x) (q : WaitQueue σ) :
    s.locks p q = (x.locks q || p.keeps (s.holds p) q) := by
  rw [locks, hp]

@[simp] theorem keeps_microthread (i : ι) (holds : σ → Bool) (q : WaitQueue σ) :
    (.microthread i : Party ι ν).keeps holds q = false := rfl

theorem owned_goes {p : Party ι ν} (h : Owned s)
    (hc : ∀ i w, s.pc (.microthread i) = .committing w → (s.th i).suspended = true) (hg : Goes s p s') : Owned s' := by
  have hother : ∀ p', p' ≠ p → ∀ q, s'.locks p' q = s.locks p' q := by
    intro p' hp q
    rw [locks, hg.pc_other hp, hg.holds_other hp]
    rfl
  have hfits : ∀ {x}, s'.pc p = x → Fits p x (s'.holds p) → ∀ p', Fits p' (s'.pc p') (s'.holds p') := by
    rintro _ rfl hf p'
    by_cases hp : p' = p
    · subst p'; exact hf
    · rw [hg.pc_other hp, hg.holds_other hp]; exact h.fits p'
  have hf := h.fits p
  -- a native caller is in none of the sections that only a microthread goes through
  have hmicro : (s.pc p).isNative = false → ∃ i, p = .microthread i := by
    intro hn
    cases p with
    | microthread i => exact ⟨i, rfl⟩
    | native v => rw [hf.native v rfl] at hn; cases hn
  have hnew : ∀ {x}, s'.pc p = x → ∀ q, s'.locks p q = (x.locks q || p.keeps (s'.holds p) q) := fun hx => locks_eq hx
  have hlocked := fun hm : LockMove s s' p => hm.locked h.locked hother
  have hsame : s'.owner = s.owner → s'.holds = s.holds → Holding s' := h.holding.congr
  cases hg with
  | leaveFails | notOwned | nativeInsert => exact ⟨h.locked, h.holding.congr rfl rfl, h.fits⟩
  | lockQueue hp hn =>
    rw [hp] at hf
    refine ⟨hlocked (.take _ hn rfl fun q => ?_), hsame rfl rfl,
      hfits (Function.update_self ..) (.seeking rfl rfl hf.wanting)⟩
    rw [hnew (Function.update_self ..), locks_eq hp]
    simp [Pc.locks, setPc, setLock, Bool.or_comm]
  | waitLock hp hn =>
    rw [hp] at hf
    refine ⟨hlocked (.take _ hn rfl fun q => ?_), hsame rfl rfl,
      hfits (Function.update_self ..) ⟨hf.entitled, fun _ _ => rfl, fun _ _ m hm => by cases hm⟩⟩
    rw [hnew (Function.update_self ..), locks_eq hp]
    simp [Pc.locks, setPc, setLock, Bool.or_comm]
  | unlockQueue hp ho hn =>
    rw [hp] at hf
    refine ⟨hlocked (.take _ hn rfl fun q => ?_), hsame rfl rfl,
      hfits (Function.update_self ..) (.microthread hf.entitled)⟩
    rw [hnew (Function.update_self ..), locks_eq hp]
    simp [Pc.locks, Bool.or_comm]
  | signalLock hp hn =>
    refine ⟨hlocked (.take _ hn rfl fun q => ?_), hsame rfl rfl,
      hfits (Function.update_self ..) (.idle rfl rfl rfl)⟩
    rw [hnew (Function.update_self ..), locks_eq hp]
    simp [Pc.locks, setPc, setLock, Bool.or_comm]
  | nativeTake hp ho =>
    rename_i v m retry
    refine ⟨hlocked (.same rfl fun q => ?_), (h.holding.setNative v fun _ => ho).congr rfl rfl,
      hfits (Function.update_self ..) (.idle rfl rfl rfl)⟩
    rw [hnew (Function.update_self ..), locks_eq hp]
    cases q with
    | mutex m' => by_cases hm : m' = m <;> simp [Pc.locks, setPc, setHolds, Party.keeps, hm]
    | condvar c => simp [Pc.locks, Party.keeps]
  | nativeSpin hp ho =>
    rename_i v m retry
    rw [hp] at hf
    have hw : s.holds (.native v) m = false := hf.wanting v rfl m rfl
    refine ⟨hlocked (.drop (.mutex m) none (by simp [locks_eq hp, Pc.locks]) rfl fun q => ?_), hsame rfl rfl,
      hfits (Function.update_self ..) (.seeking rfl rfl hf.wanting)⟩
    rw [hnew (Function.update_self ..), locks_eq hp]
    cases q with
    | mutex m' => by_cases hm : m' = m <;> simp [Pc.locks, setPc, setLock, Party.keeps, hm, hw]
    | condvar c => simp [Pc.locks, Party.keeps]
  | take hp ho =>
    rename_i i m retry
    have hmine : s.locks (.microthread i) (.mutex m) = true := by simp [locks_eq hp, Pc.locks]
    have hn : ∀ v, s.holds (.native v) m = false := by
      intro v
      by_contra hh
      have := h.locked_of_native (Bool.not_eq_false _ ▸ hh)
      rw [(h.locked _ _).2 hmine] at this
      cases this
    refine ⟨hlocked (.drop (.mutex m) none hmine rfl fun q => ?_), (h.holding.take ho hn).congr rfl rfl,
      hfits (Function.update_self ..) (.microthread_idle rfl)⟩
    rw [hnew (Function.update_self ..), locks_eq hp]
    by_cases hq : q = .mutex m <;> simp [Pc.locks, hq]
  | enqueue hp | insert hp =>
    refine ⟨hlocked (.same rfl fun q => ?_), hsame rfl rfl, hfits (Function.update_self ..) (.microthread_idle rfl)⟩
    rw [hnew (Function.update_self ..), locks_eq hp]
    rfl
  | suspendBegin hp | suspendCommit hp =>
    refine ⟨hlocked (.same rfl fun q => ?_), hsame rfl rfl, hfits (Function.update_self ..) (.microthread_idle rfl)⟩
    rw [hnew (Function.update_self ..), locks_eq hp]
    simp [Pc.locks]
  | notSuspended hp hs => rw [hc _ _ hp] at hs; cases hs
  | leave t freed hp _ =>
    rename_i i w _
    obtain ⟨_, _, _, hd, -⟩ := doneWorking_eq s i t
    rw [hd] at hnew hlocked hfits ⊢
    refine ⟨hlocked (.drop w.queue (some i) (by simp [locks_eq hp, Pc.locks]) rfl fun q => ?_),
      h.holding.congr rfl rfl, hfits (Function.update_self ..) (.microthread_idle rfl)⟩
    rw [hnew (Function.update_self ..), locks_eq hp]
    by_cases hq : q = w.queue <;> simp [Pc.locks, hq]
  | nativeUnlock hp =>
    rename_i v m after
    rw [hp] at hf
    have hm : s.holds (.native v) m = true := hf.entitled m rfl
    refine ⟨hlocked (.drop (.mutex m) none (by simp [locks, Party.keeps, hm]) rfl fun q => ?_),
      (h.holding.setNative v (m := m) (b := false) fun hb => absurd hb Bool.false_ne_true).congr rfl rfl,
      hfits (Function.update_self ..) ?_⟩
    · rw [hnew (Function.update_self ..), locks_eq hp]
      cases after <;> cases q with
      | mutex m' => by_cases hm : m' = m <;> simp [Pc.locks, setPc, setHolds, setLock, Party.keeps, afterUnlock, hm]
      | condvar c => simp [Pc.locks, Party.keeps, afterUnlock, eq_comm]
    · cases after <;> exact .idle rfl rfl rfl
  | releaseEmpty hp | releaseWake _ hp =>
    obtain ⟨i, rfl⟩ := hmicro (by rw [hp]; rfl)
    rw [hp] at hf
    refine ⟨hlocked (.same rfl fun q => ?_), (h.holding.release (hf.entitled _ rfl)).congr rfl rfl,
      hfits (Function.update_self ..) (.microthread_idle rfl)⟩
    rw [hnew (Function.update_self ..), locks_eq hp]
    simp [Pc.locks]
  | wake hp =>
    obtain ⟨i, rfl⟩ := hmicro (by rw [hp]; rfl)
    obtain ⟨_, hr, -⟩ := resume_eq s _ .dequeued
    rw [hr] at hnew hlocked hfits ⊢
    refine ⟨hlocked (.same rfl fun q => ?_), h.holding.congr rfl rfl,
      hfits (Function.update_self ..) (.microthread_idle rfl)⟩
    rw [hnew (Function.update_self ..), locks_eq hp]
    simp [Pc.locks]
  | drop hp =>
    rename_i m after
    obtain ⟨i, rfl⟩ := hmicro (by rw [hp]; rfl)
    refine ⟨hlocked (.drop (.mutex m) none (by simp [locks_eq hp, Pc.locks]) rfl fun q => ?_), hsame rfl rfl,
      hfits (Function.update_self ..) ?_⟩
    · rw [hnew (Function.update_self ..), locks_eq hp]
      cases after <;> by_cases hq : q = .mutex m <;> simp [Pc.locks, afterUnlock, hq, eq_comm]
    · cases after <;> exact .microthread_idle rfl
  | signalDone hp =>
    rename_i c count _
    refine ⟨hlocked (.drop (.condvar c) none (by simp [locks_eq hp, Pc.locks]) rfl fun q => ?_), hsame rfl rfl,
      hfits (Function.update_self ..) (.idle rfl rfl rfl)⟩
    rw [hnew (Function.update_self ..), locks_eq hp]
    by_cases hq : q = .condvar c
    · subst q; cases p <;> simp [Pc.locks, Party.keeps]
    · simp [Pc.locks, setPc, setLock, hq]
  | signalDequeue link hp =>
    refine ⟨hlocked (.same rfl fun q => ?_), hsame rfl rfl,
      hfits (Function.update_self ..) (.idle rfl rfl rfl)⟩
    rw [hnew (Function.update_self ..), locks_eq hp]
    simp [Pc.locks, setPc]
  | signalWake hp =>
    obtain ⟨_, hr, -⟩ := resume_eq s _ .dequeued
    rw [hr] at hnew hlocked hfits ⊢
    refine ⟨hlocked (.same rfl fun q => ?_), h.holding.congr rfl rfl,
      hfits (Function.update_self ..) (.idle rfl rfl rfl)⟩
    rw [hnew (Function.update_self ..), locks_eq hp]
    simp [Pc.locks, setPc]

/-- A party moves between places where it has no lock. -/
theorem Owned.move {p : Party ι ν} {x : Pc ι σ} (h : Owned s) (hp : ∀ q, x.locks q = (s.pc p).locks q)
    (hf : Fits p x (s.holds p)) : Owned (s.setPc p x) := by
  refine ⟨?_, h.holding.congr rfl rfl, ?_⟩
  · intro q p'
    rw [locks, setPc_pc]
    split
    · subst p'
      rw [hp]
      exact h.locked q p
    · exact h.locked q p'
  · intro p'
    rw [setPc_pc]
    split
    · subst p'; exact hf
    · exact h.fits p'

/-- Only the queue locks, the places of the parties and who holds what matter. -/
theorem Owned.congr (h : Owned s) (hl : s'.queueLock = s.queueLock) (hp : s'.pc = s.pc) (ho : s'.owner = s.owner)
    (hh : s'.holds = s.holds) : Owned s' := by
  refine ⟨?_, h.holding.congr ho hh, by rw [hp, hh]; exact h.fits⟩
  intro q p
  rw [locks, hl, hp, hh]
  exact h.locked q p

theorem Owned.handOver (h : Owned s) {q : WaitQueue σ} {i : ι} (hq : s.queueLock q = some (.worker i)) :
    Owned (s.setLock q none) := by
  refine ⟨?_, h.holding.congr rfl rfl, h.fits⟩
  intro q' p
  have hp := h.locked q' p
  rw [setLock_queueLock]
  split
  · subst q'
    rw [hq] at hp
    exact ⟨nofun, fun hl => absurd (hp.2 hl) nofun⟩
  · exact hp

/-- A queue is locked by one party. -/
theorem Owned.locks_unique (h : Owned s) {q : WaitQueue σ} {p p' : Party ι ν} (hp : s.locks p q = true)
    (hp' : s.locks p' q = true) : p = p' := by
  have he := ((h.locked q p).2 hp).symm.trans ((h.locked q p').2 hp')
  cases he
  rfl

end Locks

end DarlingServer
