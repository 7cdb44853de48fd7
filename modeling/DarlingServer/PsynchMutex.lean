import Mathlib.Data.List.Nodup
import Mathlib.Data.List.Perm.Basic
import Mathlib.Logic.Function.Basic
/-!
# Contended mutexes

`psynch_mutexdrop` hands a contended mutex on and `psynch_mutexwait` waits for it. A drop that
finds nobody is kept for the waiter on its way (`kw_prepost`). A first-fit mutex goes to the head
of the queue, and to the next one if the head has stopped waiting. A fair-share mutex goes to the
number after the one unlocked; if that thread has stopped waiting, `kw_intr` keeps it for its
return. Mutexes use the write queue of the `ksyn_wait_queue` only, and its entries are threads.
-/

namespace DarlingServer.PsynchMutex

abbrev Tid := Nat

inductive Errno where
  | EINTR
  | EBUSY
  | ESRCH
  | EINVAL
  | ETIMEDOUT

/-! ## Numbers -/

def pthrwInc : UInt32 := (1 : UInt32) <<< 8
def pthrwCountMask : UInt32 := ~~~(pthrwInc - 1)
def pthrwMaxReaders : UInt32 := pthrwCountMask

def rwlKbit : UInt32 := 0x01
def rwlEbit : UInt32 := 0x02
def rwlMtxWait : UInt32 := 0x20
def pthrwRwlInit : UInt32 := 0x80

def isSeqlower (x y : UInt32) : Bool :=
  let x := x &&& pthrwCountMask
  let y := y &&& pthrwCountMask
  if x < y then y - x < pthrwMaxReaders / 2 else x - y > pthrwMaxReaders / 2

def isSeqlowerEq (x y : UInt32) : Bool :=
  if x &&& pthrwCountMask = y &&& pthrwCountMask then true else isSeqlower x y

def isSeqhigher (x y : UInt32) : Bool :=
  let x := x &&& pthrwCountMask
  let y := y &&& pthrwCountMask
  if x > y then x - y < pthrwMaxReaders / 2 else y - x > pthrwMaxReaders / 2

/-! ## The queue -/

/-- `ksyn_waitq_element` of a waiting thread. -/
structure Kwe where
  thread : Tid
  lockseq : UInt32

/-- `ksyn_queue`. -/
structure Ksynq where
  kwelist : List Kwe := []
  count : Nat := 0
  firstnum : UInt32 := 0
  lastnum : UInt32 := 0

inductive Fit where
  | seqfit
  | firstfit
  deriving DecidableEq

/-- `kw_prepost`, whose `sseq` is for read-write locks. -/
structure Prepost where
  count : Nat := 0
  lseq : UInt32 := 0

/-- `kwq_intr_type_t`. -/
inductive IntrType where
  | none
  | read
  | write
  deriving DecidableEq

/-- `kw_intr`. -/
structure Intr where
  type : IntrType := .none
  count : Nat := 0
  seq : UInt32 := 0
  returnbits : UInt32 := 0

/-- What a mutex has of its `ksyn_wait_queue`. -/
structure Kwq where
  owner : Option Tid := none
  inqueue : Nat := 0
  lowseq : UInt32 := 0
  highseq : UInt32 := 0
  lastunlockseq : UInt32 := pthrwRwlInit
  prepost : Prepost := {}
  intr : Intr := {}
  writeq : Ksynq := {}

def updateLowHigh (kwq : Kwq) (lockseq : UInt32) : Kwq :=
  if kwq.inqueue = 1 then { kwq with lowseq := lockseq, highseq := lockseq }
  else
    { kwq with
      lowseq := if isSeqlower lockseq kwq.lowseq then lockseq else kwq.lowseq
      highseq := if isSeqhigher lockseq kwq.highseq then lockseq else kwq.highseq }

def ksynQueueFindSeq (kq : Ksynq) (seq : UInt32) : Option Nat :=
  kq.kwelist.findIdx? fun kwe => kwe.lockseq &&& pthrwCountMask = seq

/-- `TAILQ_INSERT_BEFORE` the first entry with a higher number. -/
def insertBeforeHigher (kwe : Kwe) (lockseq : UInt32) : List Kwe → Option (List Kwe)
  | [] => none
  | q :: l =>
    if isSeqhigher q.lockseq lockseq then some (kwe :: q :: l)
    else (insertBeforeHigher kwe lockseq l).map (q :: ·)

/-- The list and the ends of the queue after `ksyn_queue_insert`. -/
def Ksynq.place (kq : Ksynq) (kwe : Kwe) (lockseq : UInt32) (fit : Fit) : Except Errno Ksynq :=
  if kq.count = 0 then
    .ok { kq with kwelist := kwe :: kq.kwelist, firstnum := lockseq, lastnum := lockseq }
  else if fit = .firstfit then
    .ok { kq with
      kwelist := kq.kwelist ++ [kwe]
      firstnum := if isSeqlower lockseq kq.firstnum then lockseq else kq.firstnum
      lastnum := if isSeqhigher lockseq kq.lastnum then lockseq else kq.lastnum }
  else if lockseq = kq.firstnum ∨ lockseq = kq.lastnum then .error .EBUSY
  else if isSeqlower kq.lastnum lockseq then
    .ok { kq with kwelist := kq.kwelist ++ [kwe], lastnum := lockseq }
  else if isSeqlower lockseq kq.firstnum then
    .ok { kq with kwelist := kwe :: kq.kwelist, firstnum := lockseq }
  else
    match insertBeforeHigher kwe lockseq kq.kwelist with
    | some kwelist => .ok { kq with kwelist }
    | none => .error .ESRCH

def ksynQueueInsert (kwq : Kwq) (kwe : Kwe) (mgen : UInt32) (fit : Fit) : Except Errno Kwq :=
  match kwq.writeq.place kwe (mgen &&& pthrwCountMask) fit with
  | .error e => .error e
  | .ok kq =>
    let kwq := { kwq with writeq := { kq with count := kq.count + 1 }, inqueue := kwq.inqueue + 1 }
    .ok (updateLowHigh kwq (mgen &&& pthrwCountMask))

/-- The queue without its entry at `i`. There is nothing to read the ends from when the
count is above the length. -/
def Ksynq.remove (kq : Ksynq) (i : Nat) : Option Ksynq :=
  let kwelist := kq.kwelist.eraseIdx i
  let count := kq.count - 1
  if 0 < count then do
    let first ← kwelist.head?
    let last ← kwelist.getLast?
    some { kwelist, count
           firstnum := first.lockseq &&& pthrwCountMask
           lastnum := last.lockseq &&& pthrwCountMask }
  else some { kwelist, count, firstnum := 0, lastnum := 0 }

/-- The lowest and highest number after an entry with the number `curseq` has left.
`find_nextlowseq` and `find_nexthighseq` find those of the one queue that is in use. -/
def Kwq.leaveLowHigh (kwq : Kwq) (curseq : UInt32) : Kwq :=
  if 0 < kwq.inqueue then
    { kwq with
      lowseq := if kwq.lowseq = curseq then (if kwq.writeq.count > 0 then kwq.writeq.firstnum else 0) else kwq.lowseq
      highseq := if kwq.highseq = curseq then (if kwq.writeq.count > 0 then kwq.writeq.lastnum else 0)
        else kwq.highseq }
  else { kwq with lowseq := 0, highseq := 0 }

/-- Removes the entry at `i`; `none` is a panic, removing from an empty queue or an entry
that is not in it. -/
def ksynQueueRemoveItem (kwq : Kwq) (i : Nat) : Option Kwq :=
  if kwq.writeq.count = 0 then none
  else do
    let kwe ← kwq.writeq.kwelist[i]?
    let kq ← kwq.writeq.remove i
    let kwq := { kwq with writeq := kq, inqueue := kwq.inqueue - 1 }
    some (kwq.leaveLowHigh (kwe.lockseq &&& pthrwCountMask))

/-! ## Waiting and waking -/

/-- The `wait_result` of a thread that sleeps, or has slept, on the mutex. -/
inductive WaitResult where
  | waiting
  | awakened
  | interrupted
  | timedOut
  deriving DecidableEq

structure Wait where
  result : WaitResult := .awakened
  /-- `kwe_psynchretval` of the thread's entry. -/
  psynchretval : UInt32 := 0

/-- What a call works on while it holds the lock. -/
structure Locked where
  kwq : Kwq := {}
  waits : Tid → Wait := fun _ => {}

/-- `KERN_SUCCESS` or `KERN_NOT_WAITING`. -/
inductive Wakeup where
  | success
  | notWaiting
  deriving DecidableEq

/-- `ksyn_wait` up to where the thread blocks. -/
def ksynWait (s : Locked) (thread : Tid) (lockseq : UInt32) (fit : Fit) : Except Errno Locked :=
  match ksynQueueInsert s.kwq { thread, lockseq := lockseq &&& pthrwCountMask } lockseq fit with
  | .error e => .error e
  | .ok kwq => .ok { s with kwq, waits := Function.update s.waits thread { result := .waiting } }

/-- `psynch_wait_wakeup`: a thread whose wait is over already is not woken. The value is left in
its entry either way. -/
def Wait.wakeup (w : Wait) (updateval : UInt32) : Wait :=
  { result := if w.result = .waiting then .awakened else w.result, psynchretval := updateval }

/-- Takes the thread at `i` out of the queue and wakes it; `none` is a panic. -/
def ksynSignal (s : Locked) (i : Nat) (updateval : UInt32) : Option (Locked × Wakeup) := do
  let kwe ← s.kwq.writeq.kwelist[i]?
  let kwq ← ksynQueueRemoveItem s.kwq i
  let w := s.waits kwe.thread
  some ({ s with kwq, waits := Function.update s.waits kwe.thread (w.wakeup updateval) },
    if w.result = .waiting then .success else .notWaiting)

/-- What `psynch_mtxcontinue` and `dtape_psynch_thread_dying` do first: an entry that nobody has
taken out leaves. -/
def withdraw (s : Locked) (thread : Tid) : Option Locked :=
  match s.kwq.writeq.kwelist.findIdx? fun kwe => kwe.thread = thread with
  | some i => do
    let kwq ← ksynQueueRemoveItem s.kwq i
    some { s with kwq }
  | none => some s

/-- `_kwq_set_owner`, without the references that are taken to the new owner and given back to
the old one. -/
def kwqSetOwner (s : Locked) (owner : Option Tid) : Locked := { s with kwq := { s.kwq with owner } }

/-! ## Wakeups that are kept -/

def kwqClearPrepostedWakeup (kwq : Kwq) : Kwq := { kwq with prepost := { lseq := 0, count := 0 } }

def kwqMarkPrepostedWakeup (kwq : Kwq) (count : Nat) (lseq : UInt32) : Kwq := { kwq with prepost := { count, lseq } }

def kwqClearInterruptedWakeup (kwq : Kwq) : Kwq :=
  { kwq with intr := { type := .none, count := 0, seq := 0, returnbits := 0 } }

def kwqMarkInterruptedWakeup (kwq : Kwq) (type : IntrType) (count : Nat) (lseq returnbits : UInt32) : Kwq :=
  { kwq with intr := { count, seq := lseq, returnbits, type } }

def kwqHandleInterruptedWakeup (kwq : Kwq) (type : IntrType) (lseq : UInt32) : Option (Kwq × UInt32) :=
  if kwq.intr.count ≠ 0 && kwq.intr.type = type && (kwq.intr.seq = 0 || isSeqlowerEq lseq kwq.intr.seq) then
    let retval := kwq.intr.returnbits
    let kwq := { kwq with intr := { kwq.intr with count := kwq.intr.count - 1 } }
    some (if retval = 0 then kwqClearInterruptedWakeup kwq else kwq, retval)
  else none

/-- What a system call returns. -/
inductive Ret where
  | ok (retval : UInt32)
  | err (errno : Errno)

def Ret.isOk : Ret → Bool
  | .ok _ => true
  | .err _ => false

/-! ## Unlocking -/

/-- `ksyn_mtxsignal` of the entry at `i`, which is zero for "the first": the thread becomes the
owner if it was woken. -/
def ksynMtxsignal (s : Locked) (i : Nat) (updateval : UInt32) : Option (Locked × Wakeup) := do
  let kwe ← s.kwq.writeq.kwelist[i]?
  let (s, ret) ← ksynSignal s i updateval
  some (kwqSetOwner s (if ret = .success then some kwe.thread else none), ret)

inductive DropEnd where
  | dropped
  /-- The lock is given up for a moment before the drop is tried again. -/
  | redrive

/-- What a woken waiter is told. -/
def mutexdropBits (kwq : Kwq) : UInt32 := kwq.highseq &&& pthrwCountMask ||| (rwlEbit ||| rwlKbit)

/-- The drop of a first-fit mutex from `redrive` on. -/
def firstfitDrop (s : Locked) (mgen : UInt32) : Option (Locked × DropEnd) :=
  if s.kwq.inqueue = 0 then
    let kwq := kwqMarkPrepostedWakeup s.kwq (s.kwq.prepost.count + 1) (mgen &&& pthrwCountMask)
    some (kwqSetOwner { s with kwq } none, .dropped)
  else do
    let (s, ret) ← ksynMtxsignal s 0 (mutexdropBits s.kwq)
    some (s, if ret = .notWaiting then .redrive else .dropped)

/-- The `prepost` part of a fair-share drop. -/
def fairsharePrepost (s : Locked) (nextgen : UInt32) : Locked :=
  let kwq := if s.kwq.prepost.count ≠ 0 then s.kwq else kwqMarkPrepostedWakeup s.kwq 1 (nextgen &&& pthrwCountMask)
  kwqSetOwner { s with kwq } none

/-- The drop of a fair-share mutex from `redrive` on. Each turn takes an entry out, so there are at
most as many as entries. -/
def fairshareDrop (nextgen : UInt32) : Nat → Locked → Option Locked
  | 0, _ => none
  | turns + 1, s =>
    let updatebits := mutexdropBits s.kwq
    if s.kwq.inqueue = 0 then some (fairsharePrepost s nextgen)
    else
      let lowWriter := s.kwq.writeq.firstnum &&& pthrwCountMask
      if lowWriter = nextgen then do
        let (s, ret) ← ksynMtxsignal s 0 (updatebits ||| rwlMtxWait)
        some (if ret = .notWaiting then { s with kwq := kwqMarkInterruptedWakeup s.kwq .write 1 nextgen updatebits }
          else s)
      else if isSeqhigher lowWriter nextgen then some (fairsharePrepost s nextgen)
      else
        match ksynQueueFindSeq s.kwq.writeq nextgen with
        | some i => do
          let (s, ret) ← ksynMtxsignal s i (updatebits ||| rwlMtxWait)
          if ret = .notWaiting then fairshareDrop nextgen turns s else some s
        | none => some (fairsharePrepost s nextgen)

/-- `_psynch_mutexdrop_internal` until it gives up the lock. -/
def psynchMutexdropInternal (s : Locked) (mgen ugen : UInt32) (firstfit : Bool) : Option (Locked × DropEnd) :=
  let s := { s with kwq := { s.kwq with lastunlockseq := ugen &&& pthrwCountMask } }
  if firstfit then firstfitDrop s mgen
  else (fairshareDrop (ugen + pthrwInc) (s.kwq.writeq.kwelist.length + 1) s).map (·, .dropped)

/-- `_psynch_cvclrprepost` of a mutex. -/
def psynchCvclrprepost (s : Locked) (cvgen : UInt32) (firstfit : Bool) : Locked :=
  if firstfit && s.kwq.prepost.count ≠ 0 && isSeqlowerEq s.kwq.prepost.lseq cvgen then
    { s with kwq := kwqClearPrepostedWakeup s.kwq }
  else s

/-! ## Locking -/

/-- The owner that userland saw: none yet, one that is switching, or a thread. -/
inductive Hint where
  | zero
  | switching
  | thread (t : Tid)
  deriving DecidableEq

def threadTid : Option Tid → Hint
  | none => .zero
  | some t => .thread t

structure MutexwaitArgs where
  mgen : UInt32
  ugen : UInt32
  tid : Hint
  firstfit : Bool

inductive WaitEnd where
  | leave (ret : Ret)
  | block
  /-- The lock is given up to look for the thread of the hint. -/
  | resolve

/-- The caller becomes the owner and returns. -/
def mutexwaitOwn (s : Locked) (thread : Tid) (retval : UInt32) : Locked × WaitEnd :=
  (kwqSetOwner s (some thread), .leave (.ok retval))

/-- The value returned for a wakeup that was kept. -/
def prepostBits (kwq : Kwq) (lseq : UInt32) : UInt32 :=
  let updatebits :=
    if kwq.inqueue = 0 then lseq ||| (rwlKbit ||| rwlEbit)
    else kwq.highseq &&& pthrwCountMask ||| (rwlKbit ||| rwlEbit)
  updatebits &&& ~~~rwlMtxWait

/-- Whether the hint names an owner that the server does not know of. -/
def hintIsNews (kwq : Kwq) (ugen : UInt32) (tid : Hint) : Bool :=
  !(tid = threadTid kwq.owner || tid = .zero ||
    (kwq.lastunlockseq ≠ pthrwRwlInit && isSeqlower ugen kwq.lastunlockseq) || tid = .switching)

/-- `_psynch_mutexwait` where a drop has been kept for the caller. -/
def mutexwaitPreposted (s : Locked) (thread : Tid) (args : MutexwaitArgs) : Locked × WaitEnd :=
  let lseq := args.mgen &&& pthrwCountMask
  let prepost := { s.kwq.prepost with count := s.kwq.prepost.count - 1 }
  if args.firstfit then mutexwaitOwn { s with kwq := { s.kwq with prepost } } thread (prepostBits s.kwq lseq)
  else if prepost.count > 0 then
    let prepost := { prepost with lseq := prepost.lseq + pthrwInc }
    ({ s with kwq := { s.kwq with prepost } }, .leave (.err .EINVAL))
  else mutexwaitOwn { s with kwq := kwqClearPrepostedWakeup s.kwq } thread (prepostBits s.kwq lseq)

/-- `_psynch_mutexwait` on its way to block. -/
def mutexwaitBlock (s : Locked) (thread : Tid) (args : MutexwaitArgs) (tidTh : Option Tid) : Locked × WaitEnd :=
  let news := hintIsNews s.kwq args.ugen args.tid
  if news && tidTh = none then (s, .resolve)
  else
    let s := if news then kwqSetOwner s tidTh else s
    match ksynWait s thread args.mgen (if args.firstfit then .firstfit else .seqfit) with
    | .ok s => (s, .block)
    | .error e => (s, .leave (.err e))

/-- `_psynch_mutexwait` from `again` on, with the thread `tidTh` found for the hint. -/
def psynchMutexwait (s : Locked) (thread : Tid) (args : MutexwaitArgs) (tidTh : Option Tid) : Locked × WaitEnd :=
  let lseq := args.mgen &&& pthrwCountMask
  match kwqHandleInterruptedWakeup s.kwq .write lseq with
  | some (kwq, retval) => mutexwaitOwn { s with kwq } thread retval
  | none =>
    if s.kwq.prepost.count ≠ 0 && (args.firstfit || lseq = s.kwq.prepost.lseq) then mutexwaitPreposted s thread args
    else mutexwaitBlock s thread args tidTh

def waitResultToErrno : WaitResult → Option Errno
  | .timedOut => some .ETIMEDOUT
  | .interrupted => some .EINTR
  | _ => none

def psynchMtxcontinue (s : Locked) (thread : Tid) : Option (Locked × Ret) :=
  match waitResultToErrno (s.waits thread).result with
  | some error => do
    let s ← withdraw s thread
    some (s, .err error)
  | none => some (s, .ok ((s.waits thread).psynchretval &&& ~~~rwlMtxWait))

/-! ## What the calls do to the queue -/

/-- The threads in the queue. -/
def Kwq.sleepers (kwq : Kwq) : List Tid := kwq.writeq.kwelist.map (·.thread)

/-- The counts kept beside the list are its length. -/
structure Kwq.Counted (kwq : Kwq) : Prop where
  count : kwq.writeq.count = kwq.sleepers.length
  inqueue : kwq.inqueue = kwq.sleepers.length

/-- `kwq'` has the thread in the queue besides those of `kwq`. -/
structure Joins (t : Tid) (kwq kwq' : Kwq) : Prop where
  sleepers : kwq'.sleepers.Perm (t :: kwq.sleepers)
  prepost : kwq'.prepost = kwq.prepost
  intr : kwq'.intr = kwq.intr

variable {kwq kwq' : Kwq} {kwe : Kwe} {i : Nat}

theorem updateLowHigh_eq (kwq : Kwq) (lockseq : UInt32) :
    ∃ lowseq highseq, updateLowHigh kwq lockseq = { kwq with lowseq, highseq } := by
  unfold updateLowHigh
  split <;> exact ⟨_, _, rfl⟩

theorem leaveLowHigh_eq (kwq : Kwq) (curseq : UInt32) :
    ∃ lowseq highseq, kwq.leaveLowHigh curseq = { kwq with lowseq, highseq } := by
  unfold Kwq.leaveLowHigh
  split <;> exact ⟨_, _, rfl⟩

theorem insertBeforeHigher_perm {lockseq : UInt32} {l l' : List Kwe} (h : insertBeforeHigher kwe lockseq l = some l') :
    l'.Perm (kwe :: l) := by
  induction l generalizing l' with
  | nil => cases h
  | cons q l ih =>
    rw [insertBeforeHigher] at h
    split at h
    · cases h
      exact .refl _
    · obtain ⟨m, hm, rfl⟩ := Option.map_eq_some_iff.1 h
      exact ((ih hm).cons q).trans (.swap kwe q l)

theorem place_perm {kq kq' : Ksynq} {lockseq : UInt32} {fit : Fit} (h : kq.place kwe lockseq fit = .ok kq') :
    kq'.kwelist.Perm (kwe :: kq.kwelist) ∧ kq'.count = kq.count := by
  unfold Ksynq.place at h
  repeat' split at h
  all_goals cases h
  all_goals first
    | exact ⟨.refl _, rfl⟩
    | exact ⟨List.perm_append_singleton _ _, rfl⟩
    | exact ⟨insertBeforeHigher_perm ‹_›, rfl⟩

theorem insert_joins {mgen : UInt32} {fit : Fit} (hc : kwq.Counted) (h : ksynQueueInsert kwq kwe mgen fit = .ok kwq') :
    Joins kwe.thread kwq kwq' ∧ kwq'.Counted := by
  unfold ksynQueueInsert at h
  split at h
  · cases h
  · rename_i kq hplace
    obtain ⟨hperm, hcount⟩ := place_perm hplace
    obtain ⟨lowseq, highseq, heq⟩ := updateLowHigh_eq
      { kwq with writeq := { kq with count := kq.count + 1 }, inqueue := kwq.inqueue + 1 } (mgen &&& pthrwCountMask)
    simp only [Except.ok.injEq] at h
    rw [← h, heq]
    have hsleepers : (kq.kwelist.map (·.thread)).Perm (kwe.thread :: kwq.sleepers) := hperm.map _
    have hlen := hsleepers.length_eq
    rw [List.length_cons] at hlen
    refine ⟨⟨hsleepers, rfl, rfl⟩, ?_, ?_⟩
    · change kq.count + 1 = (kq.kwelist.map (·.thread)).length
      rw [hlen, hcount, hc.count]
    · change kwq.inqueue + 1 = (kq.kwelist.map (·.thread)).length
      rw [hlen, hc.inqueue]

/-- An entry can be removed from where it is. -/
theorem Kwq.Counted.remove (hc : kwq.Counted) (hi : kwq.writeq.kwelist[i]? = some kwe) :
    ∃ kwq', ksynQueueRemoveItem kwq i = some kwq' ∧ Joins kwe.thread kwq' kwq ∧ kwq'.Counted := by
  obtain ⟨hlt, rfl⟩ := List.getElem?_eq_some_iff.1 hi
  have hcount : kwq.writeq.count = kwq.writeq.kwelist.length := by simpa [Kwq.sleepers] using hc.count
  have hinqueue : kwq.inqueue = kwq.writeq.kwelist.length := by simpa [Kwq.sleepers] using hc.inqueue
  have hlen := List.length_eraseIdx_of_lt hlt
  have hperm : kwq.writeq.kwelist.Perm (kwq.writeq.kwelist[i] :: kwq.writeq.kwelist.eraseIdx i) :=
    (List.getElem_cons_eraseIdx_perm hlt).symm
  obtain ⟨kq, hkq, hentries, hcount'⟩ : ∃ kq, kwq.writeq.remove i = some kq ∧
      kq.kwelist = kwq.writeq.kwelist.eraseIdx i ∧ kq.count = kwq.writeq.count - 1 := by
    unfold Ksynq.remove
    generalize kwq.writeq.kwelist.eraseIdx i = l at *
    by_cases hpos : 0 < kwq.writeq.count - 1
    · cases l with
      | nil =>
        simp only [List.length_nil] at hlen
        omega
      | cons a l =>
        simp only [hpos, if_true, List.head?_cons, List.getLast?_cons]
        exact ⟨_, rfl, rfl, rfl⟩
    · simp only [hpos, if_false]
      exact ⟨_, rfl, rfl, rfl⟩
  obtain ⟨lowseq, highseq, heq⟩ := leaveLowHigh_eq { kwq with writeq := kq, inqueue := kwq.inqueue - 1 }
    (kwq.writeq.kwelist[i].lockseq &&& pthrwCountMask)
  refine ⟨{ kwq with writeq := kq, inqueue := kwq.inqueue - 1, lowseq, highseq }, ?_, ⟨?_, rfl, rfl⟩, ?_, ?_⟩
  · simp [ksynQueueRemoveItem, hi, hkq, show kwq.writeq.count ≠ 0 by omega, heq]
  · simp only [Kwq.sleepers, hentries]
    exact hperm.map (·.thread)
  · simp only [Kwq.sleepers, List.length_map, hentries, hlen, hcount']
    omega
  · simp only [Kwq.sleepers, List.length_map, hentries, hlen]
    omega

variable {l l' : Locked} {t u : Tid} {blocked : Tid → Prop}

/-- `l` after `u` has been taken out of the queue, which leaves `kwq'`, and has been woken. -/
def Locked.woke (l : Locked) (u : Tid) (updateval : UInt32) (kwq' : Kwq) : Locked :=
  { l with kwq := kwq', waits := Function.update l.waits u ((l.waits u).wakeup updateval) }

/-- `ksyn_mtxsignal` takes the thread out, wakes it and makes it the owner. -/
theorem mtxsignal_eq (hc : l.kwq.Counted) (hi : l.kwq.writeq.kwelist[i]? = some kwe) (updateval : UInt32) :
    ∃ kwq' owner, Joins kwe.thread kwq' l.kwq ∧ kwq'.Counted ∧ ksynMtxsignal l i updateval =
      some (kwqSetOwner (l.woke kwe.thread updateval kwq') owner,
        if (l.waits kwe.thread).result = .waiting then .success else .notWaiting) := by
  obtain ⟨kwq', hremove, hj, hc'⟩ := hc.remove hi
  exact ⟨kwq', _, hj, hc', by simp [ksynMtxsignal, ksynSignal, hi, hremove, Locked.woke]; rfl⟩

/-! ## Who sleeps -/

/-- The queue has those of the blocked threads that sleep. -/
structure Sleepers (blocked : Tid → Prop) (l : Locked) : Prop where
  counted : l.kwq.Counted
  nodup : l.kwq.sleepers.Nodup
  inside : ∀ u ∈ l.kwq.sleepers, blocked u ∧ (l.waits u).result ≠ .awakened
  asleep : ∀ u, blocked u → (l.waits u).result = .waiting → u ∈ l.kwq.sleepers

/-- Neither the queue nor a wait has changed. -/
structure Still (l l' : Locked) : Prop where
  writeq : l'.kwq.writeq = l.kwq.writeq
  inqueue : l'.kwq.inqueue = l.kwq.inqueue
  waits : l'.waits = l.waits

theorem Still.sleepers (h : Still l l') : l'.kwq.sleepers = l.kwq.sleepers :=
  congrArg (·.kwelist.map (·.thread)) h.writeq

theorem Still.counted (h : Still l l') (hc : l.kwq.Counted) : l'.kwq.Counted :=
  ⟨by rw [h.writeq, h.sleepers]; exact hc.count, by rw [h.inqueue, h.sleepers]; exact hc.inqueue⟩

theorem Sleepers.still (h : Sleepers blocked l) (hs : Still l l') : Sleepers blocked l' := by
  refine ⟨hs.counted h.counted, ?_, ?_, ?_⟩
  · rw [hs.sleepers]
    exact h.nodup
  · rw [hs.sleepers, hs.waits]
    exact h.inside
  · rw [hs.sleepers, hs.waits]
    exact h.asleep

theorem Sleepers.owned (h : Sleepers blocked l) (owner : Option Tid) : Sleepers blocked (kwqSetOwner l owner) :=
  h.still ⟨rfl, rfl, rfl⟩

theorem Sleepers.woke (h : Sleepers blocked l) (hj : Joins u kwq' l.kwq) (hc : kwq'.Counted) (updateval : UInt32) :
    Sleepers blocked (l.woke u updateval kwq') := by
  obtain ⟨hnot, hnodup⟩ := List.nodup_cons.1 (hj.sleepers.nodup_iff.1 h.nodup)
  refine ⟨hc, hnodup, fun x hx => ?_, fun x hb hw => ?_⟩
  · have hne : x ≠ u := fun heq => hnot (heq ▸ hx)
    simp only [Locked.woke, Function.update_of_ne hne]
    exact h.inside x (hj.sleepers.mem_iff.2 (List.mem_cons_of_mem _ hx))
  · have hne : x ≠ u := by
      rintro rfl
      simp only [Locked.woke, Function.update_self, Wait.wakeup] at hw
      split at hw
      · cases hw
      · contradiction
    simp only [Locked.woke, Function.update_of_ne hne] at hw
    exact (List.mem_cons.1 (hj.sleepers.mem_iff.1 (h.asleep x hb hw))).resolve_left hne

/-- The thread falls asleep. -/
theorem Sleepers.wait {lockseq : UInt32} {fit : Fit} (h : Sleepers blocked l) (hb : ¬ blocked t)
    (hwait : ksynWait l t lockseq fit = .ok l') : Sleepers (fun u => u = t ∨ blocked u) l' := by
  unfold ksynWait at hwait
  split at hwait
  · cases hwait
  · rename_i kwq' hinsert
    cases hwait
    obtain ⟨hj, hc⟩ := insert_joins h.counted hinsert
    have hnot : t ∉ l.kwq.sleepers := fun hmem => hb (h.inside t hmem).1
    refine ⟨hc, hj.sleepers.nodup_iff.2 (List.nodup_cons.2 ⟨hnot, h.nodup⟩), fun u hu => ?_, fun u hu hw => ?_⟩
    · rcases List.mem_cons.1 (hj.sleepers.mem_iff.1 hu) with rfl | hu
      · simp
      · have hne : u ≠ t := fun heq => hnot (heq ▸ hu)
        simp only [Function.update_of_ne hne]
        exact ⟨.inr (h.inside u hu).1, (h.inside u hu).2⟩
    · apply hj.sleepers.mem_iff.2
      by_cases hut : u = t
      · exact hut ▸ List.mem_cons_self
      · simp only [Function.update_of_ne hut] at hw
        exact List.mem_cons_of_mem _ (h.asleep u (hu.resolve_left hut) hw)

/-- The thread is not in the queue. -/
theorem Sleepers.gone (h : Sleepers blocked l) (hnot : t ∉ l.kwq.sleepers) : Sleepers (fun u => u ≠ t ∧ blocked u) l :=
  ⟨h.counted, h.nodup, fun u hu => ⟨⟨fun heq => hnot (heq ▸ hu), (h.inside u hu).1⟩, (h.inside u hu).2⟩,
    fun u hu => h.asleep u hu.2⟩

/-- The thread leaves the queue if it is still in it. -/
theorem Sleepers.withdraw (h : Sleepers blocked l) (t : Tid) :
    ∃ kwq', withdraw l t = some { l with kwq := kwq' } ∧
      Sleepers (fun u => u ≠ t ∧ blocked u) { l with kwq := kwq' } ∧ kwq'.inqueue ≤ l.kwq.inqueue ∧
      kwq'.prepost = l.kwq.prepost ∧ kwq'.intr = l.kwq.intr := by
  unfold PsynchMutex.withdraw
  cases hfind : l.kwq.writeq.kwelist.findIdx? (fun kwe => kwe.thread = t) with
  | none =>
    have hnot : t ∉ l.kwq.sleepers := by
      simp only [Kwq.sleepers, List.mem_map, not_exists, not_and]
      simpa using List.findIdx?_eq_none_iff.1 hfind
    exact ⟨l.kwq, rfl, h.gone hnot, Nat.le_refl _, rfl, rfl⟩
  | some i =>
    obtain ⟨hlt, hthread, -⟩ := List.findIdx?_eq_some_iff_getElem.1 hfind
    have hthread : l.kwq.writeq.kwelist[i].thread = t := by simpa using hthread
    obtain ⟨kwq', hremove, hj, hc⟩ := h.counted.remove (List.getElem?_eq_getElem hlt)
    rw [hthread] at hj
    obtain ⟨hnot, hnodup⟩ := List.nodup_cons.1 (hj.sleepers.nodup_iff.1 h.nodup)
    have hle : kwq'.inqueue ≤ l.kwq.inqueue := by
      rw [hc.inqueue, h.counted.inqueue, hj.sleepers.length_eq]
      exact Nat.le_succ _
    refine ⟨kwq', by simp [hremove], ⟨hc, hnodup, fun u hu => ?_, fun u hu hw => ?_⟩, hle, hj.prepost.symm,
      hj.intr.symm⟩
    · have hmem := hj.sleepers.mem_iff.2 (List.mem_cons_of_mem _ hu)
      exact ⟨⟨fun heq => hnot (heq ▸ hu), (h.inside u hmem).1⟩, (h.inside u hmem).2⟩
    · exact (List.mem_cons.1 (hj.sleepers.mem_iff.1 (h.asleep u hu.2 hw))).resolve_left hu.1

/-! ## Drops -/

theorem Sleepers.head (h : Sleepers blocked l) (hin : l.kwq.inqueue ≠ 0) :
    ∃ kwe, l.kwq.writeq.kwelist[0]? = some kwe := by
  have hlen : l.kwq.inqueue = l.kwq.writeq.kwelist.length := by simpa [Kwq.sleepers] using h.counted.inqueue
  exact ⟨_, List.getElem?_eq_getElem (by omega)⟩

theorem mtxsignal_sleepers (h : Sleepers blocked l) (hi : l.kwq.writeq.kwelist[i]? = some kwe) (updateval : UInt32) :
    ∃ r, ksynMtxsignal l i updateval = some r ∧ Sleepers blocked r.1 ∧
      r.1.kwq.sleepers.length + 1 = l.kwq.sleepers.length := by
  obtain ⟨kwq', owner, hj, hc, heq⟩ := mtxsignal_eq h.counted hi updateval
  refine ⟨_, heq, (h.woke hj hc updateval).owned owner, ?_⟩
  rw [hj.sleepers.length_eq]
  rfl

theorem fairsharePrepost_still (l : Locked) (nextgen : UInt32) : Still l (fairsharePrepost l nextgen) := by
  unfold fairsharePrepost
  split <;> exact ⟨rfl, rfl, rfl⟩

/-- A fair-share drop does not run out of turns, for each takes a thread out of the queue. -/
theorem fairshareDrop_sleepers (nextgen : UInt32) (turns : Nat) (h : Sleepers blocked l)
    (hturns : l.kwq.sleepers.length < turns) :
    ∃ l', fairshareDrop nextgen turns l = some l' ∧ Sleepers blocked l' := by
  induction turns generalizing l with
  | zero => omega
  | succ turns ih =>
    have hpost := h.still (fairsharePrepost_still l nextgen)
    rw [fairshareDrop]
    by_cases hin : l.kwq.inqueue = 0
    · exact ⟨_, if_pos hin, hpost⟩
    simp only [if_neg hin]
    split
    · obtain ⟨kwe, hi⟩ := h.head hin
      obtain ⟨r, heq, hs, -⟩ := mtxsignal_sleepers h hi (mutexdropBits l.kwq ||| rwlMtxWait)
      rw [heq]
      refine ⟨_, rfl, ?_⟩
      split
      · exact hs.still ⟨rfl, rfl, rfl⟩
      · exact hs
    split
    · exact ⟨_, rfl, hpost⟩
    split
    · rename_i i hfind
      have hi := List.getElem?_eq_getElem (List.findIdx?_eq_some_iff_getElem.1 hfind).1
      obtain ⟨r, heq, hs, hlen⟩ := mtxsignal_sleepers h hi (mutexdropBits l.kwq ||| rwlMtxWait)
      rw [heq]
      simp only [Option.bind_eq_bind, Option.bind_some]
      split
      · exact ih hs (by omega)
      · exact ⟨_, rfl, hs⟩
    · exact ⟨_, rfl, hpost⟩

/-- A drop of a first-fit mutex is kept, or wakes the thread at the head, or takes out one that has
stopped waiting and is to be tried again. -/
inductive DropTurn (l l' : Locked) : DropEnd → Prop
  | kept : l'.kwq.inqueue = 0 → l'.kwq.prepost.count = l.kwq.prepost.count + 1 → l'.kwq.intr = l.kwq.intr →
      l'.waits = l.waits → DropTurn l l' .dropped
  | head (u : Tid) (updateval : UInt32) : u ∈ l.kwq.sleepers → l'.kwq.prepost = l.kwq.prepost →
      l'.kwq.intr = l.kwq.intr → l'.waits = Function.update l.waits u ((l.waits u).wakeup updateval) →
      DropTurn l l' (if (l.waits u).result = .waiting then .dropped else .redrive)

theorem firstfitDrop_turn (h : Sleepers blocked l) (mgen : UInt32) :
    ∃ r, firstfitDrop l mgen = some r ∧ Sleepers blocked r.1 ∧ DropTurn l r.1 r.2 := by
  unfold firstfitDrop
  by_cases hin : l.kwq.inqueue = 0
  · exact ⟨_, if_pos hin, h.still ⟨rfl, rfl, rfl⟩, .kept hin rfl rfl rfl⟩
  · rw [if_neg hin]
    obtain ⟨kwe, hi⟩ := h.head hin
    obtain ⟨kwq', owner, hj, hc, heq⟩ := mtxsignal_eq h.counted hi (mutexdropBits l.kwq)
    have hturn : DropTurn l (kwqSetOwner (l.woke kwe.thread (mutexdropBits l.kwq) kwq') owner)
        (if (l.waits kwe.thread).result = .waiting then .dropped else .redrive) :=
      .head kwe.thread _ (List.mem_map_of_mem (List.mem_of_getElem? hi)) hj.prepost.symm hj.intr.symm rfl
    rw [heq]
    refine ⟨_, rfl, (h.woke hj hc _).owned owner, ?_⟩
    by_cases hw : (l.waits kwe.thread).result = .waiting <;> simpa [hw] using hturn

theorem mutexdrop_sleepers (h : Sleepers blocked l) (mgen ugen : UInt32) (firstfit : Bool) :
    ∃ r, psynchMutexdropInternal l mgen ugen firstfit = some r ∧ Sleepers blocked r.1 ∧
      (firstfit = true → DropTurn l r.1 r.2) := by
  have hnoted : Sleepers blocked { l with kwq := { l.kwq with lastunlockseq := ugen &&& pthrwCountMask } } :=
    h.still ⟨rfl, rfl, rfl⟩
  unfold psynchMutexdropInternal
  cases firstfit with
  | true =>
    obtain ⟨r, heq, hs, hturn⟩ := firstfitDrop_turn hnoted mgen
    refine ⟨r, heq, hs, fun _ => ?_⟩
    generalize r.2 = ending at *
    cases hturn with
    | kept hin hcount hintr hwaits => exact .kept hin hcount hintr hwaits
    | head u updateval hmem hprepost hintr hwaits => exact .head u updateval hmem hprepost hintr hwaits
  | false =>
    obtain ⟨l', heq, hs⟩ := fairshareDrop_sleepers (ugen + pthrwInc) (l.kwq.writeq.kwelist.length + 1) hnoted
      (by simp [Kwq.sleepers])
    exact ⟨(l', .dropped), by simp [heq], hs, by simp⟩

/-! ## Waits -/

theorem handleInterrupted_writeq {type : IntrType} {lseq : UInt32} {r : Kwq × UInt32}
    (h : kwqHandleInterruptedWakeup kwq type lseq = some r) :
    kwq.intr.count ≠ 0 ∧ r.1.writeq = kwq.writeq ∧ r.1.inqueue = kwq.inqueue := by
  unfold kwqHandleInterruptedWakeup at h
  split at h
  · rename_i hkept
    simp only [Bool.and_eq_true, decide_eq_true_eq] at hkept
    refine ⟨hkept.1.1, ?_⟩
    rw [← Option.some.inj h]
    simp only
    split <;> exact ⟨rfl, rfl⟩
  · cases h

theorem wait_kept {lockseq : UInt32} {fit : Fit} (hc : l.kwq.Counted) (h : ksynWait l t lockseq fit = .ok l') :
    l'.kwq.prepost = l.kwq.prepost ∧ l'.kwq.intr = l.kwq.intr ∧
      l'.waits = Function.update l.waits t { result := .waiting } := by
  unfold ksynWait at h
  split at h
  · cases h
  · cases h
    obtain ⟨hj, -⟩ := insert_joins hc ‹_›
    exact ⟨hj.prepost, hj.intr, rfl⟩

/-- How a wait leaves the queue: the caller returns with what was kept for it, goes on without the
mutex, or goes to sleep. On a first-fit mutex a drop that is kept is for whoever comes. -/
inductive WaitTurn (l l' : Locked) (t : Tid) (firstfit : Bool) : WaitEnd → Prop
  | kept {ret : Ret} : Still l l' → (firstfit = true → l.kwq.intr.count = 0 → l.kwq.prepost.count ≠ 0 ∧
      l'.kwq.prepost.count + 1 = l.kwq.prepost.count ∧ l'.kwq.intr = l.kwq.intr ∧ ret.isOk = true) →
      WaitTurn l l' t firstfit (.leave ret)
  | refused {ending : WaitEnd} (owner : Option Tid) : l' = kwqSetOwner l owner → ending ≠ .block →
      (∀ retval, ending ≠ .leave (.ok retval)) → WaitTurn l l' t firstfit ending
  | block {owner : Option Tid} {lockseq : UInt32} {fit : Fit} : ksynWait (kwqSetOwner l owner) t lockseq fit = .ok l' →
      (firstfit = true → l.kwq.prepost.count = 0) → WaitTurn l l' t firstfit .block

theorem mutexwait_turn (l : Locked) (t : Tid) (args : MutexwaitArgs) (tidTh : Option Tid) :
    WaitTurn l (psynchMutexwait l t args tidTh).1 t args.firstfit (psynchMutexwait l t args tidTh).2 := by
  unfold psynchMutexwait
  simp only
  split
  · obtain ⟨hne, hwriteq, hinqueue⟩ := handleInterrupted_writeq ‹_›
    exact .kept ⟨hwriteq, hinqueue, rfl⟩ fun _ hnone => absurd hnone hne
  split
  · rename_i hkept
    simp only [Bool.and_eq_true, decide_eq_true_eq] at hkept
    unfold mutexwaitPreposted mutexwaitOwn
    simp only
    split_ifs with hff
    · refine .kept ⟨rfl, rfl, rfl⟩ fun _ _ => ⟨hkept.1, ?_, rfl, rfl⟩
      exact Nat.sub_add_cancel (Nat.pos_of_ne_zero hkept.1)
    all_goals exact .kept ⟨rfl, rfl, rfl⟩ fun h => absurd h hff
  · have hnone : args.firstfit = true → l.kwq.prepost.count = 0 := fun hff => by simp_all
    obtain ⟨owner, howner⟩ : ∃ owner, (if hintIsNews l.kwq args.ugen args.tid = true then kwqSetOwner l tidTh else l) =
        kwqSetOwner l owner := by
      split
      · exact ⟨_, rfl⟩
      · exact ⟨l.kwq.owner, rfl⟩
    unfold mutexwaitBlock
    simp only [howner]
    split
    · exact .refused l.kwq.owner rfl (by simp) (by simp)
    split
    · exact .block ‹_› hnone
    · exact .refused owner rfl (by simp) (by simp)

end DarlingServer.PsynchMutex
