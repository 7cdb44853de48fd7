import DarlingServer.Lib.Crowd
import DarlingServer.Lib.Runs
import DarlingServer.PsynchMutex
/-!
# Runs of a contended mutex

Any number of threads make calls on one mutex. Where a call gives up the lock of the queue the
others go on, waits are cut short and threads die. A drop of a first-fit mutex is lost only where a
thread dies with it, or where a wait is cut short after its thread was woken, for
`psynch_mtxcontinue` looks only at the result of the wait.
-/

namespace DarlingServer.PsynchMutex

open Runs

inductive Call where
  | mutexwait (args : MutexwaitArgs)
  | mutexdrop (mgen ugen : UInt32) (firstfit : Bool)
  | cvclrprepost (cvgen : UInt32) (firstfit : Bool)

/-- Where a call takes the lock. A wait takes it again once the thread of its hint is found. -/
inductive Point where
  | mutexwait (args : MutexwaitArgs) (tidTh : Option Tid)
  | mutexdrop (mgen ugen : UInt32) (firstfit : Bool)
  | redrive (mgen : UInt32)
  | cvclrprepost (cvgen : UInt32) (firstfit : Bool)

def Call.start : Call → Point
  | .mutexwait args => .mutexwait args none
  | .mutexdrop mgen ugen firstfit => .mutexdrop mgen ugen firstfit
  | .cvclrprepost cvgen firstfit => .cvclrprepost cvgen firstfit

inductive Phase where
  | user
  | entered (p : Point)
  /-- In `task_findtid`. -/
  | resolving (args : MutexwaitArgs)
  | blocked
  | releasing (ret : Ret)
  /-- Gone, in a call or not. -/
  | dead (inCall : Bool)

/-- The thread has a reference to the queue. `kw_iocount` counts those that do. -/
def Phase.holds : Phase → Bool
  | .user => false
  | .dead inCall => inCall
  | _ => true

def DropEnd.phase (mgen : UInt32) : DropEnd → Phase
  | .dropped => .releasing (.ok 0)
  | .redrive => .entered (.redrive mgen)

def WaitEnd.phase (args : MutexwaitArgs) : WaitEnd → Phase
  | .leave ret => .releasing ret
  | .block => .blocked
  | .resolve => .resolving args

/-- A call from where it takes the lock to where it gives it up; `none` is a panic. -/
def runPoint (l : Locked) (thread : Tid) : Point → Option (Locked × Phase)
  | .mutexwait args tidTh => some (Prod.map id (WaitEnd.phase args) (psynchMutexwait l thread args tidTh))
  | .mutexdrop mgen ugen firstfit =>
    (psynchMutexdropInternal l mgen ugen firstfit).map (Prod.map id (DropEnd.phase mgen))
  | .redrive mgen => (firstfitDrop l mgen).map (Prod.map id (DropEnd.phase mgen))
  | .cvclrprepost cvgen firstfit => some (psynchCvclrprepost l cvgen firstfit, .releasing (.ok 0))

structure St extends Locked where
  threads : List Phase := []

inductive Server where
  | up (s : St)
  | panicked

def St.moved (s : St) (t : Tid) (p : Phase) (l : Locked) : St := { toLocked := l, threads := s.threads.set t p }

def kwqIsUsed (kwq : Kwq) : Bool := kwq.inqueue ≠ 0 || kwq.prepost.count ≠ 0 || kwq.intr.count ≠ 0

/-- `ksyn_wqrelease`: the queue goes with the last reference, unless it is used. -/
def St.release (s : St) (t : Tid) : St :=
  let s := s.moved t .user s.toLocked
  if s.threads.any Phase.holds || kwqIsUsed s.kwq then s else { s with kwq := {} }

/-- What a thread does, or what happens to it. -/
inductive Act where
  /-- `ksyn_wqfind` gives the call a reference to the queue. -/
  | call (c : Call)
  | run
  /-- The thread of a hint is found, or not. -/
  | resolve (found : Bool)
  /-- A wait is interrupted or times out. -/
  | clearWait (timedOut : Bool)
  | resume
  | die

/-- Where the thread is afterwards, with the queue as it leaves it. The inner `none` is a panic. -/
def turn (l : Locked) (thread : Tid) : Phase → Act → Option (Option (Locked × Phase))
  | .user, .call c => some (some (l, .entered c.start))
  | .entered p, .run => some (runPoint l thread p)
  | .resolving args, .resolve found =>
    match args.tid, found with
    | .thread th, true => some (some (l, .entered (.mutexwait args (some th))))
    | .thread _, false => some (some (l, .entered (.mutexwait { args with tid := .zero } none)))
    | _, _ => none
  | .blocked, .clearWait timedOut =>
    let result := if timedOut then WaitResult.timedOut else .interrupted
    some (some ({ l with waits := Function.update l.waits thread { l.waits thread with result } }, .blocked))
  | .blocked, .resume =>
    if (l.waits thread).result = .waiting then none
    else some ((psynchMtxcontinue l thread).map (Prod.map id .releasing))
  | .blocked, .die => some ((withdraw l thread).map (·, .dead true))
  | p, .die => some (some (l, .dead p.holds))
  | _, _ => none

inductive Label where
  | spawn
  | act (t : Tid) (a : Act)
  | release (t : Tid)

def St.step (s : St) : Label → Option Server
  | .spawn => some (.up { s with threads := s.threads ++ [.user] })
  | .act t a => do
    let p ← s.threads[t]?
    let r ← turn s.toLocked t p a
    some (r.elim .panicked fun r => .up (s.moved t r.2 r.1))
  | .release t =>
    match s.threads[t]? with
    | some (.releasing _) => some (.up (s.release t))
    | _ => none

def step : Server → Label → Option Server
  | .up s, l => s.step l
  | .panicked, _ => none

def Init (server : Server) : Prop := server = .up {}

/-! ## Nobody who sleeps is lost -/

variable {s s' : St} {l : Locked} {t : Tid} {p p' : Phase} {blocked : Tid → Prop}

def St.Inv (s : St) : Prop := Sleepers (fun u => s.threads[u]? = some .blocked) s.toLocked

theorem Sleepers.of_iff {blocked' : Tid → Prop} (h : Sleepers blocked l) (hb : ∀ u, blocked u ↔ blocked' u) :
    Sleepers blocked' l :=
  (funext fun u => propext (hb u) : blocked = blocked') ▸ h

theorem kwq_moved : (s.moved t p l).kwq = l.kwq := rfl

theorem blocked_set (ht : s.threads[t]? = some p) (p' : Phase) (u : Tid) :
    (s.threads.set t p')[u]? = some .blocked ↔ u = t ∧ p' = .blocked ∨ u ≠ t ∧ s.threads[u]? = some .blocked := by
  have hlt := (List.getElem?_eq_some_iff.1 ht).1
  by_cases hu : u = t
  · subst hu
    simp [hlt]
  · simp [hu, List.getElem?_set_ne (Ne.symm hu)]

/-- The threads in the queue once `t` has come to `p`. -/
def After (t : Tid) (p : Phase) (blocked : Tid → Prop) (u : Tid) : Prop := u = t ∧ p = .blocked ∨ u ≠ t ∧ blocked u

theorem Sleepers.out (h : Sleepers (fun u => u ≠ t ∧ blocked u) l) (hp : p ≠ .blocked) :
    Sleepers (After t p blocked) l :=
  h.of_iff fun u => by simp [After, hp]

theorem Sleepers.goOn (h : Sleepers blocked l) (hb : ¬ blocked t) (hp : p ≠ .blocked) :
    Sleepers (After t p blocked) l :=
  (h.of_iff fun _ => ⟨fun hu => ⟨fun heq => hb (heq ▸ hu), hu⟩, fun hu => hu.2⟩).out hp

theorem runPoint_sleepers (h : Sleepers blocked l) (hb : ¬ blocked t) (point : Point) :
    ∃ r, runPoint l t point = some r ∧ Sleepers (After t r.2 blocked) r.1 := by
  have hdropped : ∀ mgen (ending : DropEnd), ending.phase mgen ≠ .blocked := by
    rintro mgen (_ | _) <;> simp [DropEnd.phase]
  cases point with
  | mutexwait args tidTh =>
    refine ⟨_, rfl, ?_⟩
    have hturn := mutexwait_turn l t args tidTh
    generalize psynchMutexwait l t args tidTh = r at hturn
    obtain ⟨l', ending⟩ := r
    cases hturn with
    | kept hstill _ => exact (h.still hstill).goOn hb (by simp [WaitEnd.phase])
    | refused owner heq hne _ =>
      subst heq
      refine (h.owned owner).goOn hb ?_
      cases ending <;> simp_all [WaitEnd.phase]
    | @block owner _ _ hwait _ =>
      refine ((h.owned owner).wait hb hwait).of_iff fun u => ?_
      by_cases hu : u = t <;> simp [After, WaitEnd.phase, hu]
  | mutexdrop mgen ugen firstfit =>
    obtain ⟨r, heq, hs, -⟩ := mutexdrop_sleepers h mgen ugen firstfit
    exact ⟨_, by rw [runPoint, heq]; rfl, hs.goOn hb (hdropped mgen r.2)⟩
  | redrive mgen =>
    obtain ⟨r, heq, hs, -⟩ := firstfitDrop_turn h mgen
    exact ⟨_, by rw [runPoint, heq]; rfl, hs.goOn hb (hdropped mgen r.2)⟩
  | cvclrprepost cvgen firstfit =>
    refine ⟨_, rfl, Sleepers.goOn (h.still ?_) hb (by simp)⟩
    unfold psynchCvclrprepost
    split <;> exact ⟨rfl, rfl, rfl⟩

theorem mtxcontinue_sleepers (h : Sleepers blocked l) (hw : (l.waits t).result ≠ .waiting) :
    ∃ r, psynchMtxcontinue l t = some r ∧ Sleepers (fun u => u ≠ t ∧ blocked u) r.1 ∧
      r.1.kwq.inqueue ≤ l.kwq.inqueue ∧ r.1.kwq.prepost = l.kwq.prepost ∧ r.1.kwq.intr = l.kwq.intr ∧
      r.1.waits = l.waits ∧ r.2.isOk = decide ((l.waits t).result = .awakened) := by
  obtain ⟨kwq', heq, hs, hle, hprepost, hintr⟩ := h.withdraw t
  unfold psynchMtxcontinue
  cases hres : (l.waits t).result with
  | waiting => exact absurd hres hw
  | awakened => exact ⟨_, rfl, h.gone fun hmem => (h.inside t hmem).2 hres, Nat.le_refl _, rfl, rfl, rfl, rfl⟩
  | interrupted | timedOut =>
    simp only [waitResultToErrno, heq, Option.bind_eq_bind, Option.bind_some]
    exact ⟨_, rfl, hs, hle, hprepost, hintr, rfl, rfl⟩

/-- A turn does not panic, and the thread is in the queue afterwards exactly if it has gone to sleep. -/
theorem turn_sleepers (h : Sleepers blocked l) (hb : blocked t ↔ p = .blocked) {a : Act}
    {r : Option (Locked × Phase)} (heq : turn l t p a = some r) :
    ∃ r', r = some r' ∧ Sleepers (After t r'.2 blocked) r'.1 := by
  unfold turn at heq
  -- the cases of `turn`, in its order
  split at heq
  · cases heq
    exact ⟨_, rfl, h.goOn (by simp [hb]) (by simp)⟩
  · obtain ⟨r', heq', hr⟩ := runPoint_sleepers h (by simp [hb] : ¬ blocked t) _
    exact ⟨r', (Option.some.inj heq).symm.trans heq', hr⟩
  · split at heq <;> cases heq <;> exact ⟨_, rfl, h.goOn (by simp [hb]) (by simp)⟩
  · rename_i timedOut
    cases heq
    refine ⟨_, rfl, @Sleepers.of_iff _ blocked _ ⟨h.counted, h.nodup, fun u hu => ⟨(h.inside u hu).1, ?_⟩,
      fun u hu hres => h.asleep u hu ?_⟩ fun u => by by_cases hut : u = t <;> simp [After, hut, hb]⟩
    all_goals by_cases hut : u = t
    · cases timedOut <;> simp [hut]
    · simpa [hut] using (h.inside u hu).2
    · cases timedOut <;> simp [hut] at hres
    · simpa [hut] using hres
  · split at heq
    · cases heq
    · obtain ⟨r', heq', hs, -⟩ := mtxcontinue_sleepers h ‹_›
      rw [heq'] at heq
      cases heq
      exact ⟨_, rfl, hs.out (by simp)⟩
  · obtain ⟨kwq', heq', hs, -⟩ := h.withdraw t
    rw [heq'] at heq
    cases heq
    exact ⟨_, rfl, hs.out (by simp)⟩
  · cases heq
    exact ⟨_, rfl, h.goOn (hb.not.2 (by simpa using ‹_›)) (by simp)⟩
  · cases heq

theorem release_cases (s : St) (t : Tid) : s.release t = s.moved t .user s.toLocked ∨
    s.kwq.inqueue = 0 ∧ s.kwq.prepost.count = 0 ∧ s.release t = { s.moved t .user s.toLocked with kwq := {} } := by
  unfold St.release
  simp only
  split
  · exact .inl rfl
  · rename_i hfree
    rw [Bool.or_eq_true, not_or, Bool.not_eq_true, Bool.not_eq_true] at hfree
    have hunused : s.kwq.inqueue = 0 ∧ s.kwq.prepost.count = 0 ∧ s.kwq.intr.count = 0 := by
      simpa [kwqIsUsed, and_assoc] using (show kwqIsUsed s.kwq = false from hfree.2)
    exact .inr ⟨hunused.1, hunused.2.1, rfl⟩

theorem step_inv (hi : s.Inv) {label : Label} {server : Server} (h : s.step label = some server) :
    ∃ s', server = .up s' ∧ s'.Inv := by
  cases label with
  | spawn =>
    cases h
    refine ⟨_, rfl, Sleepers.of_iff hi fun u => ?_⟩
    rw [List.getElem?_append]
    split
    · rfl
    · rename_i hge
      simp [List.getElem?_eq_none (Nat.le_of_not_lt hge), List.getElem?_singleton]
  | act t a =>
    obtain ⟨p, ht, h⟩ := Option.bind_eq_some_iff.1 h
    obtain ⟨r, heq, h⟩ := Option.bind_eq_some_iff.1 h
    obtain ⟨r', rfl, hs⟩ := turn_sleepers hi (by simp [ht]) heq
    cases h
    exact ⟨_, rfl, hs.of_iff fun u => (blocked_set ht r'.2 u).symm⟩
  | release t =>
    simp only [St.step] at h
    split at h <;> cases h
    rename_i ret ht
    have hout : (s.moved t .user s.toLocked).Inv := Sleepers.of_iff hi fun u => by
      by_cases hu : u = t <;> simp [St.moved, blocked_set ht, hu, ht]
    refine ⟨_, rfl, ?_⟩
    rcases release_cases s t with heq | ⟨hin, -, heq⟩ <;> rw [heq]
    · exact hout
    · refine ⟨⟨rfl, rfl⟩, .nil, by simp [Kwq.sleepers], fun u hb hw => ?_⟩
      have hnil := List.eq_nil_of_length_eq_zero (hi.counted.inqueue.symm.trans hin)
      exact absurd (hnil ▸ hout.asleep u hb hw) List.not_mem_nil

theorem inv_empty : ({} : St).Inv := ⟨⟨rfl, rfl⟩, .nil, by simp [Kwq.sleepers], by simp⟩

theorem reach_inv {guard : Server → Label → Prop} {server : Server} (hr : Reach step guard Init server) :
    ∃ s, server = .up s ∧ s.Inv := by
  refine hr.inv (fun server => ∃ s, server = .up s ∧ s.Inv) ?_ ?_
  · rintro _ rfl
    exact ⟨{}, rfl, inv_empty⟩
  · rintro _ label server ⟨s, rfl, hi⟩ - hstep
    exact step_inv hi hstep

/-- Thread 1 drops the mutex twice while thread 0, which the first drop wakes, has not run yet. -/
def twoDrops : List Label :=
  [.spawn, .spawn, .act 0 (.call (.mutexwait { mgen := 0x203, ugen := 0x100, tid := .zero, firstfit := true })),
    .act 0 .run, .act 1 (.call (.mutexdrop 0x203 0x100 true)), .act 1 .run, .release 1,
    .act 1 (.call (.mutexdrop 0x303 0x200 true)), .act 1 .run]

def Phase.isFirstfit : Phase → Bool
  | .entered (.mutexwait args _) | .resolving args => args.firstfit
  | .entered (.mutexdrop _ _ firstfit) => firstfit
  | _ => true

/-- The mutex is used as a first-fit one. -/
def FirstfitOnly (_ : Server) : Label → Prop
  | .act _ (.call c) => (Phase.entered c.start).isFirstfit = true
  | _ => True

instance (server : Server) (label : Label) : Decidable (FirstfitOnly server label) := by
  unfold FirstfitOnly
  split <;> infer_instance

/-- A drop is kept only while nobody waits. -/
structure St.Firstfit (s : St) : Prop where
  intr : s.kwq.intr.count = 0
  kept : s.kwq.prepost.count ≠ 0 → s.kwq.inqueue = 0
  calls : ∀ p ∈ s.threads, p.isFirstfit = true

/-- The thread tries a drop again, or has been woken with it and has not run yet. -/
def Phase.carries (w : Wait) : Phase → Bool
  | .entered (.redrive _) => true
  | .blocked => w.result = .awakened
  | _ => false

def St.carries (s : St) (t : Tid) : Bool := s.threads[t]?.any (Phase.carries (s.waits t))

def St.carriers (s : St) : Nat := (List.range s.threads.length).countP s.carries

def Phase.isGranted : Phase → Bool
  | .releasing ret => ret.isOk
  | _ => false

structure Tally where
  drops : Nat := 0
  granted : Nat := 0
  cleared : Nat := 0
  lost : Nat := 0

/-- What a turn adds: the thread drops the mutex, clears what was kept, comes to return with the
mutex, or loses what it had. -/
def turnTally (l l' : Locked) (t : Tid) (p' : Phase) (n : Tally) : Phase → Act → Tally
  | .entered (.mutexdrop ..), .run => { n with drops := n.drops + 1 }
  | .entered (.cvclrprepost ..), .run =>
    { n with cleared := n.cleared + (l.kwq.prepost.count - l'.kwq.prepost.count) }
  | .entered (.mutexwait ..), .run | .blocked, .resume => { n with granted := n.granted + p'.isGranted.toNat }
  | p, .clearWait _ | p, .die => { n with lost := n.lost + (p.carries (l.waits t)).toNat }
  | _, _ => n

def tally (server : Server) (label : Label) (server' : Server) (n : Tally) : Tally :=
  match server, label, server' with
  | .up s, .act t a, .up s' =>
    match s.threads[t]?, s'.threads[t]? with
    | some p, some p' => turnTally s.toLocked s'.toLocked t p' n p a
    | _, _ => n
  | _, _, _ => n

/-- Every drop is somewhere. -/
def Accounted (s : St) (n : Tally) : Prop :=
  n.drops = s.kwq.prepost.count + s.carriers + n.granted + n.cleared + n.lost

theorem threads_moved (ht : s.threads[t]? = some p) : (s.moved t p' l).threads[t]? = some p' := by
  simp [St.moved, (List.getElem?_eq_some_iff.1 ht).1]

theorem carriers_moved (ht : s.threads[t]? = some p) (p' : Phase) (hw : ∀ u, u ≠ t → l.waits u = s.waits u) :
    (s.moved t p' l).carriers + (p.carries (s.waits t)).toNat = s.carriers + (p'.carries (l.waits t)).toNat := by
  have hlen : (s.moved t p' l).threads.length = s.threads.length := List.length_set
  have hother : ∀ u, u ≠ t → (s.moved t p' l).carries u = s.carries u := fun u hu => by
    simp [St.carries, St.moved, List.getElem?_set_ne (Ne.symm hu), hw u hu]
  have hcount := Crowd.countP_range_at (List.getElem?_eq_some_iff.1 ht).1 hother
  rw [St.carries, St.carries, ht, threads_moved ht, ← hlen] at hcount
  rw [St.carriers, St.carriers, ← hlen]
  exact hcount

/-- A thread goes on that has signalled another one, which now is awake if it was asleep. -/
theorem carriers_woke (hi : s.Inv) {u : Tid} (hu : u ∈ s.kwq.sleepers) {updateval : UInt32}
    (hwaits : l.waits = Function.update s.waits u ((s.waits u).wakeup updateval)) {point : Point}
    (ht : s.threads[t]? = some (.entered point)) (p' : Phase) :
    (s.moved t p' l).carriers + ((Phase.entered point).carries (s.waits t)).toNat =
      s.carriers + (p'.carries (l.waits t)).toNat + (decide ((s.waits u).result = .waiting)).toNat := by
  obtain ⟨hblocked, hne⟩ := hi.inside u hu
  let s₁ : St := { s with waits := l.waits }
  have hother : ∀ v, v ≠ u → s₁.carries v = s.carries v := fun v hv => by simp [s₁, St.carries, hwaits, hv]
  have hwoken : s₁.carriers + _ = s.carriers + _ :=
    Crowd.countP_range_at (List.getElem?_eq_some_iff.1 hblocked).1 hother
  have hbefore : s.carries u = false := by simp [St.carries, hblocked, Phase.carries, hne]
  have hafter : s₁.carries u = decide ((s.waits u).result = .waiting) := by
    by_cases hw : (s.waits u).result = .waiting <;>
      simp [s₁, St.carries, hblocked, Phase.carries, hwaits, Wait.wakeup, hw, hne]
  have hmoved : (s.moved t p' l).carriers + ((Phase.entered point).carries (l.waits t)).toNat = s₁.carriers + _ :=
    carriers_moved (s := s₁) ht p' fun _ _ => rfl
  rw [hbefore, hafter, Bool.toNat_false] at hwoken
  rw [show (Phase.entered point).carries (l.waits t) = (Phase.entered point).carries (s.waits t) by
    cases point <;> rfl] at hmoved
  omega

theorem St.Firstfit.nobody (hf : s.Firstfit) (hi : s.Inv) (hkept : s.kwq.prepost.count ≠ 0) : s.kwq.sleepers = [] :=
  List.eq_nil_of_length_eq_zero (hi.counted.inqueue.symm.trans (hf.kept hkept))

theorem St.Firstfit.moved (hf : s.Firstfit) (hintr : l.kwq.intr = s.kwq.intr)
    (hkept : l.kwq.prepost.count ≠ 0 → l.kwq.inqueue = 0) (hp : p.isFirstfit = true) : (s.moved t p l).Firstfit := by
  refine ⟨hintr ▸ hf.intr, hkept, fun q hq => ?_⟩
  rcases List.mem_or_eq_of_mem_set hq with hq | rfl
  · exact hf.calls q hq
  · exact hp

theorem St.Firstfit.fewer (hf : s.Firstfit) (hintr : l.kwq.intr = s.kwq.intr) (hprepost : l.kwq.prepost = s.kwq.prepost)
    (hle : l.kwq.inqueue ≤ s.kwq.inqueue) (hp : p.isFirstfit = true) : (s.moved t p l).Firstfit :=
  hf.moved hintr (fun hne => Nat.le_zero.1 (hf.kept (hprepost ▸ hne) ▸ hle)) hp

/-- A drop is kept or goes on its way, where it has not been on it. -/
theorem DropTurn.keeps {ending : DropEnd} (hturn : DropTurn s.toLocked l ending) (hi : s.Inv) (hf : s.Firstfit)
    {point : Point} (ht : s.threads[t]? = some (.entered point)) (mgen : UInt32) :
    (s.moved t (ending.phase mgen) l).Firstfit ∧
      l.kwq.prepost.count + (s.moved t (ending.phase mgen) l).carriers +
        ((Phase.entered point).carries (s.waits t)).toNat = s.kwq.prepost.count + s.carriers + 1 := by
  cases hturn with
  | kept hin hcount hintr hwaits =>
    refine ⟨hf.moved hintr (fun _ => hin) rfl, ?_⟩
    have := carriers_moved (l := l) ht (DropEnd.dropped.phase mgen) fun u _ => by rw [hwaits]
    simp only [DropEnd.phase, Phase.carries, Bool.toNat_false] at this ⊢
    omega
  | head u updateval hu hprepost hintr hwaits =>
    have hnone : s.kwq.prepost.count = 0 := by_contra fun hne => List.not_mem_nil (hf.nobody hi hne ▸ hu)
    rw [hprepost]
    refine ⟨hf.moved hintr (fun hne => absurd (hprepost ▸ hnone) hne) (by split <;> rfl), ?_⟩
    have := carriers_woke hi hu hwaits ht
      (DropEnd.phase mgen (if (s.waits u).result = .waiting then .dropped else .redrive))
    by_cases hw : (s.waits u).result = .waiting <;> simp [hw, DropEnd.phase, Phase.carries] at this ⊢ <;> omega

theorem WaitTurn.keeps {ending : WaitEnd} (hturn : WaitTurn s.toLocked l t true ending) (hi : s.Inv) (hf : s.Firstfit)
    {point : Point} (ht : s.threads[t]? = some (.entered point))
    (hpoint : (Phase.entered point).carries (s.waits t) = false) {args : MutexwaitArgs} (hff : args.firstfit = true) :
    (s.moved t (ending.phase args) l).Firstfit ∧
      l.kwq.prepost.count + (s.moved t (ending.phase args) l).carriers + (ending.phase args).isGranted.toNat =
        s.kwq.prepost.count + s.carriers := by
  have hcarriers := carriers_moved (l := l) ht (ending.phase args)
  rw [hpoint] at hcarriers
  cases hturn with
  | kept hstill hkept =>
    obtain ⟨hne, hcount, hintr, hok⟩ := hkept rfl hf.intr
    refine ⟨hf.moved hintr (fun _ => hstill.inqueue.trans (hf.kept hne)) rfl, ?_⟩
    have := hcarriers fun u _ => by rw [hstill.waits]
    simp only [WaitEnd.phase, Phase.isGranted, Phase.carries, hok, Bool.toNat_true, Bool.toNat_false] at this ⊢
    omega
  | refused owner heq hne hret =>
    subst heq
    refine ⟨hf.moved rfl hf.kept ?_, ?_⟩
    · cases ending <;> first | rfl | exact hff
    · have := hcarriers fun _ _ => rfl
      cases ending with
      | leave ret => cases ret <;> simp_all [WaitEnd.phase, Phase.isGranted, Phase.carries, Ret.isOk, kwqSetOwner]
      | block => exact absurd rfl hne
      | resolve => simpa [WaitEnd.phase, Phase.isGranted, Phase.carries, kwqSetOwner] using this
  | block hwait hnone =>
    obtain ⟨hprepost, hintr, hwaits⟩ := wait_kept (hi.owned _).counted hwait
    refine ⟨hf.moved hintr (fun hne => absurd (hprepost ▸ hnone rfl) hne) rfl, ?_⟩
    have := hcarriers fun u hu => by rw [hwaits, Function.update_of_ne hu]; rfl
    rw [hprepost]
    simpa [WaitEnd.phase, Phase.isGranted, Phase.carries, hwaits, kwqSetOwner] using this

theorem Accounted.after {n m : Tally} (ha : Accounted s n)
    (hm : l.kwq.prepost.count + (s.moved t p l).carriers + m.granted + m.cleared + m.lost + n.drops =
      s.kwq.prepost.count + s.carriers + n.granted + n.cleared + n.lost + m.drops) : Accounted (s.moved t p l) m := by
  unfold Accounted at *
  rw [kwq_moved]
  omega

theorem Accounted.moved {n m : Tally} (ha : Accounted s n) (ht : s.threads[t]? = some p)
    (hw : ∀ u, u ≠ t → l.waits u = s.waits u)
    (hm : l.kwq.prepost.count + (p'.carries (l.waits t)).toNat + m.granted + m.cleared + m.lost + n.drops =
      s.kwq.prepost.count + (p.carries (s.waits t)).toNat + n.granted + n.cleared + n.lost + m.drops) :
    Accounted (s.moved t p' l) m := by
  have := carriers_moved ht p' hw
  exact ha.after (by omega)

theorem run_firstfit (hi : s.Inv) (hf : s.Firstfit) {point : Point} (ht : s.threads[t]? = some (.entered point))
    {r : Locked × Phase} (heq : runPoint s.toLocked t point = some r) :
    (s.moved t r.2 r.1).Firstfit ∧ ∀ n, Accounted s n →
      Accounted (s.moved t r.2 r.1) (turnTally s.toLocked r.1 t r.2 n (.entered point) .run) := by
  have hff : (Phase.entered point).isFirstfit = true := hf.calls _ (List.mem_of_getElem? ht)
  cases point with
  | mutexwait args tidTh =>
    cases heq
    obtain ⟨hf', hcount⟩ :=
      ((show args.firstfit = true from hff) ▸ mutexwait_turn s.toLocked t args tidTh).keeps hi hf ht rfl hff
    exact ⟨hf', fun n ha => ha.after (by simp [turnTally]; omega)⟩
  | mutexdrop mgen ugen firstfit =>
    obtain ⟨r', heq', -, hturn⟩ := mutexdrop_sleepers hi mgen ugen firstfit
    rw [runPoint, heq'] at heq
    cases heq
    obtain ⟨hf', hcount⟩ := (hturn hff).keeps hi hf ht mgen
    exact ⟨hf', fun n ha => ha.after (by simp [turnTally, Phase.carries] at hcount ⊢; omega)⟩
  | redrive mgen =>
    obtain ⟨r', heq', -, hturn⟩ := firstfitDrop_turn hi mgen
    rw [runPoint, heq'] at heq
    cases heq
    obtain ⟨hf', hcount⟩ := hturn.keeps hi hf ht mgen
    exact ⟨hf', fun n ha => ha.after (by simp [turnTally, Phase.carries] at hcount ⊢; omega)⟩
  | cvclrprepost cvgen firstfit =>
    cases heq
    simp only [turnTally]
    unfold psynchCvclrprepost
    split
    · refine ⟨hf.moved rfl (fun hne => absurd rfl hne) rfl, fun n ha => ha.moved ht (fun _ _ => rfl) ?_⟩
      simp [kwqClearPrepostedWakeup, Phase.carries]
      omega
    · exact ⟨hf.moved rfl hf.kept rfl, fun n ha => ha.moved ht (fun _ _ => rfl) (by simp [Phase.carries])⟩

theorem turn_firstfit (hi : s.Inv) (hf : s.Firstfit) (ht : s.threads[t]? = some p) {a : Act}
    (hg : FirstfitOnly (.up s) (.act t a)) {r : Locked × Phase} (heq : turn s.toLocked t p a = some (some r)) :
    (s.moved t r.2 r.1).Firstfit ∧ ∀ n, Accounted s n →
      Accounted (s.moved t r.2 r.1) (turnTally s.toLocked r.1 t r.2 n p a) := by
  have hff : p.isFirstfit = true := hf.calls _ (List.mem_of_getElem? ht)
  unfold turn at heq
  -- the cases of `turn`, in its order
  split at heq
  · cases heq
    exact ⟨hf.moved rfl hf.kept hg, fun n ha => ha.moved ht (fun _ _ => rfl) (by cases ‹Call› <;> rfl)⟩
  · exact run_firstfit hi hf ht (Option.some.inj heq)
  · split at heq <;> cases heq <;>
      exact ⟨hf.moved rfl hf.kept hff, fun n ha => ha.moved ht (fun _ _ => rfl) rfl⟩
  · rename_i timedOut
    cases heq
    refine ⟨hf.moved rfl hf.kept rfl, fun n ha => ha.moved ht (fun u hu => by simp [hu]) ?_⟩
    cases timedOut <;> simp [turnTally, Phase.carries] <;> omega
  · split at heq
    · cases heq
    · obtain ⟨r', heq', -, hle, hprepost, hintr, hwaits, hok⟩ := mtxcontinue_sleepers hi ‹_›
      rw [heq'] at heq
      cases heq
      refine ⟨hf.fewer hintr hprepost hle rfl, fun n ha =>
        ha.moved ht (fun _ _ => by rw [Prod.map_fst, id_eq, hwaits]) ?_⟩
      simp [turnTally, Phase.isGranted, hok, Phase.carries, hprepost]
      omega
  · obtain ⟨kwq', heq', -, hle, hprepost, hintr⟩ := hi.withdraw t
    rw [heq'] at heq
    cases heq
    refine ⟨hf.fewer hintr hprepost hle rfl, fun n ha => ha.moved ht (fun _ _ => rfl) ?_⟩
    simp [turnTally, Phase.carries, hprepost]
    omega
  · cases heq
    refine ⟨hf.moved rfl hf.kept rfl, fun n ha => ha.moved ht (fun _ _ => rfl) ?_⟩
    simp [turnTally, Phase.carries]
    omega
  · cases heq

theorem step_firstfit (hi : s.Inv) (hf : s.Firstfit) {label : Label} (hg : FirstfitOnly (.up s) label)
    (h : s.step label = some (.up s')) :
    s'.Firstfit ∧ ∀ n, Accounted s n → Accounted s' (tally (.up s) label (.up s') n) := by
  cases label with
  | spawn =>
    cases h
    refine ⟨⟨hf.intr, hf.kept, by simpa [Phase.isFirstfit, or_imp, forall_and] using hf.calls⟩, fun n ha => ?_⟩
    have hsame : St.carriers { s with threads := s.threads ++ [.user] } = s.carriers := by
      simp only [St.carriers, List.length_append, List.length_singleton, List.range_succ, Crowd.countP_join]
      rw [show St.carries _ s.threads.length = false by simp [St.carries, Phase.carries]]
      exact List.countP_congr fun u hu => by
        simp only [St.carries, List.getElem?_append_left (List.mem_range.1 hu)]
    exact (congrArg (n.drops = s.kwq.prepost.count + · + n.granted + n.cleared + n.lost) hsame).mpr ha
  | act t a =>
    obtain ⟨p, ht, h⟩ := Option.bind_eq_some_iff.1 h
    obtain ⟨r, heq, h⟩ := Option.bind_eq_some_iff.1 h
    obtain ⟨r', rfl, -⟩ := turn_sleepers hi (by simp [ht]) heq
    cases h
    obtain ⟨hf', hacc⟩ := turn_firstfit hi hf ht hg heq
    refine ⟨hf', fun n ha => ?_⟩
    simp only [tally, ht, threads_moved ht]
    exact hacc n ha
  | release t =>
    simp only [St.step] at h
    split at h <;> cases h
    rename_i ret ht
    have hout : (s.moved t .user s.toLocked).Firstfit := hf.moved rfl hf.kept rfl
    have hsame : ∀ n, Accounted s n → Accounted (s.moved t .user s.toLocked) n := fun n ha =>
      ha.moved ht (fun _ _ => rfl) rfl
    rcases release_cases s t with heq | ⟨-, hnone, heq⟩ <;> rw [heq]
    · exact ⟨hout, hsame⟩
    · refine ⟨⟨rfl, fun hne => absurd rfl hne, hout.calls⟩, fun n ha => (hsame n ha).trans ?_⟩
      rw [kwq_moved, hnone]
      rfl

theorem reach_firstfit {server : Server} (hr : Reach step FirstfitOnly Init server) :
    ∃ s, server = .up s ∧ s.Inv ∧ s.Firstfit := by
  refine hr.inv (fun server => ∃ s, server = .up s ∧ s.Inv ∧ s.Firstfit) ?_ ?_
  · rintro _ rfl
    exact ⟨{}, rfl, inv_empty, rfl, fun h => absurd rfl h, by simp⟩
  · rintro _ label server ⟨s, rfl, hi, hf⟩ hg hstep
    obtain ⟨s', rfl, hi'⟩ := step_inv hi hstep
    exact ⟨s', rfl, hi', (step_firstfit hi hf hg hstep).1⟩

end DarlingServer.PsynchMutex
