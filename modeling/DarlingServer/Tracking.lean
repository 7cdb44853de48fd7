import Mathlib.Logic.Function.Basic
import DarlingServer.ProcessKqchan
/-!
# Following a process over fork

When a process has forked and the child checks in, each channel that listens to
the parent gets a `NOTE_FORK` event. `_notify` makes a channel on the child for it
and tells that one about `NOTE_CHILD` first. A `_read` that takes the event hands
the new channel out if the user has asked for `NOTE_TRACK` by then.

Events are masked with the requested flags before anything else is looked at: a
fork event is dropped if `NOTE_FORK` is not requested, whatever `NOTE_TRACK` says,
and so is `NOTE_CHILD`. The new channel is registered with the child before
`NOTE_CHILD` is queued, PIDs are cut to twenty bits, and the second lookup of the
child, in `setup`, may find another process.
-/

namespace DarlingServer

open Runs ProcessKqchan

def noteFork : BitVec 32 := 0x40000000
def noteTrack : BitVec 32 := 0x00000001
def noteTrackErr : BitVec 32 := 0x00000002
def noteChild : BitVec 32 := 0x00000004
def notePDataMask : BitVec 64 := 0x000fffff

/-- PIDs, as the data of an event carries them, and parents. -/
structure Kinship (π : Type*) where
  nsid : π → BitVec 64
  parentProcess : π → Option π

structure ForkKqchan (κ π : Type*) where
  /-- The listening process. -/
  process : π
  nspid : BitVec 64
  flags : BitVec 32
  events : List (Event κ) := []
  targetProcess : Option π := none
  attached : Bool := false
  /-- Whether the peer has its end of the socket. -/
  connected : Bool := false
  /-- What the channel was made for, if for a fork: the child that has checked in and its parent. -/
  origin : Option (π × π) := none

structure ReadReply (κ : Type*) where
  code : Nat := 0
  data : BitVec 64 := 0
  fflags : BitVec 32 := 0
  descriptor : Option κ := none

/-- The next section of a `_notify` that has made a channel on the child. -/
inductive ForkStage where
  | registering
  | attaching
  | informing

/-- Where a thread is that notifies the channel `c` of a fork. -/
inductive ForkPc (κ π : Type*) where
  | idle
  | making (stage : ForkStage) (c newKqchan : κ) (child : π) (data : BitVec 64)
  | queuing (c : κ) (newEvent : Event κ)

structure Tracking (κ π ν : Type*) where
  channels : κ → Option (ForkKqchan κ π)
  replies : κ → List (ReadReply κ)
  /-- `_kqchannels` and `_listeningKqchannels` of a process. -/
  kqchannels : π → List κ
  listeners : π → List κ
  /-- `lookupEntryByNSID`. -/
  registry : BitVec 64 → Option π
  /-- The processes nobody refers to any more. -/
  gone : π → Bool
  pc : ν → ForkPc κ π

inductive TrackingLabel (κ π ν : Type*) where
  | registry (lookup : BitVec 64 → Option π)
  | expire (p : π)
  | create (k : κ) (process : π) (nspid : BitVec 64) (flags : BitVec 32)
  | modify (c : κ) (flags : BitVec 32)
  /-- An event of the process `p` that is not a fork. -/
  | notify (p : π) (c : κ) (event : BitVec 32) (data : BitVec 64)
  /-- The child checks in and the channel `c` on its parent is notified, with `k` as the new channel. -/
  | fork (n : ν) (c : κ) (child : π) (k : κ)
  | forkRegister (n : ν)
  | forkAttach (n : ν)
  | forkInform (n : ν)
  | forkQueue (n : ν)
  /-- A turn of the loop of `_read`; `fails` if no socket can be made. -/
  | read (c : κ) (fails : Bool)

namespace Tracking

section Steps

variable {κ π ν : Type*}

/-! ## Steps -/

def setChannel [DecidableEq κ] (d : Tracking κ π ν) (k : κ) (ch : ForkKqchan κ π) : Tracking κ π ν :=
  { d with channels := Function.update d.channels k (some ch) }

def goto [DecidableEq ν] (d : Tracking κ π ν) (n : ν) (x : ForkPc κ π) : Tracking κ π ν :=
  { d with pc := Function.update d.pc n x }

def reply [DecidableEq κ] (d : Tracking κ π ν) (c : κ) (r : ReadReply κ) : Tracking κ π ν :=
  { d with replies := Function.update d.replies c (d.replies c ++ [r]) }

def listen [DecidableEq π] (d : Tracking κ π ν) (p : π) (k : κ) : Tracking κ π ν :=
  { d with listeners := Function.update d.listeners p (k :: d.listeners p) }

def registerKqchan [DecidableEq π] (d : Tracking κ π ν) (p : π) (k : κ) : Tracking κ π ν :=
  { d with kqchannels := Function.update d.kqchannels p (k :: d.kqchannels p) }

theorem channels_setChannel [DecidableEq κ] (d : Tracking κ π ν) (k : κ) (ch : ForkKqchan κ π) (j : κ) :
    (d.setChannel k ch).channels j = if j = k then some ch else d.channels j := Function.update_apply ..

theorem pc_goto [DecidableEq ν] (d : Tracking κ π ν) (n : ν) (x : ForkPc κ π) (m : ν) :
    (d.goto n x).pc m = if m = n then x else d.pc m := Function.update_apply ..

theorem replies_reply [DecidableEq κ] (d : Tracking κ π ν) (c : κ) (r : ReadReply κ) (k : κ) :
    (d.reply c r).replies k = if k = c then d.replies c ++ [r] else d.replies k := Function.update_apply ..

variable [DecidableEq κ] [DecidableEq π] [DecidableEq ν] (K : Kinship π)

/-- The section at the end of `_notify`. -/
def push (d : Tracking κ π ν) (c : κ) (e : Event κ) : Option (Tracking κ π ν) :=
  (d.channels c).map fun ch => d.setChannel c { ch with events := ch.events ++ [e] }

/-- `setup`, or nothing where it throws. -/
def setup (d : Tracking κ π ν) (k : κ) (ch : ForkKqchan κ π) (fails : Bool) : Option (Tracking κ π ν) :=
  (d.registry ch.nspid).bind fun p =>
    if fails then none
    else
      let d := if ch.attached then d else d.listen p k
      some (d.setChannel k { ch with targetProcess := some p, attached := true, connected := true })

/-- The new channel of an event that the channel `ch` hands out, or nothing where that fails. -/
def track (d : Tracking κ π ν) (ch : ForkKqchan κ π) (k : κ) (fails : Bool) : Option (Tracking κ π ν) :=
  (d.channels k).bind fun new => (d.setup k { new with flags := ch.flags } fails).map (·.registerKqchan ch.process k)

/-- A turn of the loop of `_read`, up to the reply. -/
def read (d : Tracking κ π ν) (c : κ) (ch : ForkKqchan κ π) (fails : Bool) : Tracking κ π ν :=
  match ch.events with
  | [] => d.reply c { code := 0xdead }
  | e :: events =>
    let d := d.setChannel c { ch with events }
    let fflags := e.events &&& ch.flags
    if fflags = 0 then d
    else if ch.flags &&& noteTrack ≠ 0 then
      match e.newKqchan with
      | some k =>
        match d.track ch k fails with
        | some d => d.reply c { data := e.data, fflags, descriptor := some k }
        | none => d.reply c { data := e.data, fflags := fflags ||| noteTrackErr }
      | none =>
        d.reply c { data := e.data, fflags := if e.events &&& noteFork ≠ 0 then fflags ||| noteTrackErr else fflags }
    else d.reply c { data := e.data, fflags }

/-- `_notify` for a fork, up to where it has made the new channel. -/
def fork (d : Tracking κ π ν) (n : ν) (c : κ) (ch : ForkKqchan κ π) (child parent : π) (k : κ) :
    Option (Tracking κ π ν) :=
  if d.gone ch.process then some d
  else
    match d.registry (K.nsid child &&& notePDataMask) with
    | none => some (d.goto n (.queuing c ⟨noteFork, K.nsid child, none⟩))
    | some found =>
      if (d.channels k).isSome then none
      else
        some ((d.setChannel k {
            process := ch.process
            nspid := K.nsid child &&& notePDataMask
            flags := ch.flags
            origin := some (child, parent) }).goto n (.making .registering c k found (K.nsid child)))

def step (d : Tracking κ π ν) : TrackingLabel κ π ν → Option (Tracking κ π ν)
  | .registry lookup => some { d with registry := lookup }
  | .expire p => some { d with gone := Function.update d.gone p true }
  | .create k process nspid flags =>
    if (d.channels k).isSome then none
    else (d.setup k { process, nspid, flags } false).map (·.registerKqchan process k)
  | .modify c flags =>
    match d.channels c with
    | some ch => if ch.connected then some (d.setChannel c { ch with flags }) else none
    | none => none
  | .notify p c event data =>
    if c ∈ d.listeners p ∧ event ≠ noteFork then d.push c ⟨event, data, none⟩ else none
  | .fork n c child k =>
    match d.pc n, K.parentProcess child, d.channels c with
    | .idle, some parent, some ch => if c ∈ d.listeners parent then d.fork K n c ch child parent k else none
    | _, _, _ => none
  | .forkRegister n =>
    match d.pc n with
    | .making .registering c k child data => some ((d.listen child k).goto n (.making .attaching c k child data))
    | _ => none
  | .forkAttach n =>
    match d.pc n with
    | .making .attaching c k child data =>
      (d.channels k).map fun new =>
        (d.setChannel k { new with targetProcess := some child, attached := true }).goto n
          (.making .informing c k child data)
    | _ => none
  | .forkInform n =>
    match d.pc n with
    | .making .informing c k child data =>
      (d.push k ⟨noteChild, (K.parentProcess child).elim 0 K.nsid &&& notePDataMask, none⟩).map
        (·.goto n (.queuing c ⟨noteFork, data, some k⟩))
    | _ => none
  | .forkQueue n =>
    match d.pc n with
    | .queuing c e => (d.push c e).map (·.goto n .idle)
    | _ => none
  | .read c fails =>
    match d.channels c with
    | some ch => if ch.connected && !d.gone ch.process then some (d.read c ch fails) else none
    | none => none

def Init (d : Tracking κ π ν) : Prop :=
  (∀ k, d.channels k = none) ∧ (∀ k, d.replies k = []) ∧ ∀ n, d.pc n = .idle

end Steps

/-! ## New channels -/

variable {κ π ν : Type*} (K : Kinship π)

/-- The channel of a fork that has yet to be told about `NOTE_CHILD`. -/
def expecting (ch : ForkKqchan κ π) : Bool := ch.origin.isSome && ch.events.isEmpty && !ch.connected

/-- `NOTE_CHILD` is the first event of the channel, and its first reply reports it. -/
def Started (parent : π) (ch : ForkKqchan κ π) : List (ReadReply κ) → Prop
  | [] => ch.events = [] ∧ ch.connected = false ∨ ch.events.head? = some ⟨noteChild, K.nsid parent, none⟩
  | r :: _ => r.code = 0 ∧ r.fflags &&& noteChild ≠ 0 ∧ r.data = K.nsid parent

/-- `k` was made for the fork of the child with the PID `data`, and knows about `NOTE_CHILD`. -/
def Child (d : Tracking κ π ν) (k : κ) (data : BitVec 64) : Prop :=
  ∃ new child parent, d.channels k = some new ∧ new.origin = some (child, parent) ∧ data = K.nsid child ∧
    (d.replies k = [] → new.events ≠ [])

/-- A thread that makes `k` for the fork of `child`. -/
def Making (d : Tracking κ π ν) (n : ν) (k : κ) (child : π) (data : BitVec 64) : Prop :=
  ∃ stage c, d.pc n = .making stage c k child data

/-- A channel that is being made: nobody has notified it and nobody reads from it. -/
def Bare (d : Tracking κ π ν) (k : κ) (child : π) (data : BitVec 64) : Prop :=
  ∃ new parent, d.channels k = some new ∧ new.origin = some (child, parent) ∧
    K.nsid parent &&& notePDataMask = K.nsid parent ∧ data = K.nsid child ∧ new.events = [] ∧
    new.connected = false ∧ d.replies k = []

structure Sound (d : Tracking κ π ν) : Prop where
  unborn : ∀ {k}, d.channels k = none → d.replies k = []
  bare : ∀ {n k child data}, d.Making n k child data → d.Bare K k child data
  unique : ∀ {n n' k child child' data data'}, d.Making n k child data → d.Making n' k child' data' → n = n'
  queued : ∀ {c ch e k}, d.channels c = some ch → e ∈ ch.events → e.newKqchan = some k → d.Child K k e.data
  queuing : ∀ {n c e k}, d.pc n = .queuing c e → e.newKqchan = some k → d.Child K k e.data
  started : ∀ {k ch child parent}, d.channels k = some ch → ch.origin = some (child, parent) →
    K.parentProcess child = some parent ∧ Started K parent ch (d.replies k)

variable {K}

/-- What the invariant is about. -/
theorem Sound.congr {d d' : Tracking κ π ν} (hi : d.Sound K) (hc : d'.channels = d.channels)
    (hr : d'.replies = d.replies) (hp : d'.pc = d.pc) : d'.Sound K := by
  cases d
  cases d'
  cases hc
  cases hr
  cases hp
  exact ⟨hi.unborn, hi.bare, hi.unique, hi.queued, hi.queuing, hi.started⟩

theorem Child.not_bare {d : Tracking κ π ν} {k : κ} {child : π} {data data' : BitVec 64} (h : d.Child K k data)
    (hb : d.Bare K k child data') : False := by
  obtain ⟨new, _, _, hn, -, -, he⟩ := h
  obtain ⟨new', _, hn', -, -, -, he', -, hr⟩ := hb
  rw [hn] at hn'
  cases hn'
  exact he hr he'

/-- The channel `c` changes, and nobody is making it. -/
theorem Sound.put [DecidableEq κ] {d : Tracking κ π ν} {c : κ} {ch ch' : ForkKqchan κ π} (hi : d.Sound K)
    (hc : d.channels c = some ch) (ho : ch'.origin = ch.origin) (hm : ∀ {n child data}, ¬ d.Making n c child data)
    (he : ∀ e ∈ ch'.events, e ∈ ch.events ∨ ∀ k, e.newKqchan = some k → d.Child K k e.data)
    (hkeep : ch.origin ≠ none → d.replies c = [] → ch.events ≠ [] → ch'.events ≠ [])
    (hst : ∀ {child parent}, ch.origin = some (child, parent) → Started K parent ch (d.replies c) →
      Started K parent ch' (d.replies c)) : (d.setChannel c ch').Sound K := by
  have hchild : ∀ {k data}, d.Child K k data → (d.setChannel c ch').Child K k data := by
    rintro k data ⟨new, child, parent, hn, hon, hd, hev⟩
    by_cases hk : k = c
    · subst hk
      rw [hc] at hn
      cases hn
      exact ⟨ch', child, parent, by simp [channels_setChannel], ho.trans hon, hd,
        fun hr => hkeep (by simp [hon]) hr (hev hr)⟩
    · exact ⟨new, child, parent, by simpa [channels_setChannel, hk] using hn, hon, hd, hev⟩
  refine ⟨fun {k} hn => ?_, fun {n k child data} hmk => ?_, hi.unique, fun {j chj e k} hj hej hek => ?_,
    fun hq hek => hchild (hi.queuing hq hek), fun {k chk child parent} hk hok => ?_⟩
  · rw [channels_setChannel] at hn
    split at hn
    · cases hn
    · exact hi.unborn hn
  · have hk : k ≠ c := fun hk => hm (hk ▸ hmk)
    obtain ⟨new, parent, hn, hrest⟩ := hi.bare hmk
    exact ⟨new, parent, by simpa [channels_setChannel, hk] using hn, hrest⟩
  · rw [channels_setChannel] at hj
    split at hj
    · cases hj
      rcases he e hej with h | h
      · exact hchild (hi.queued hc h hek)
      · exact hchild (h k hek)
    · exact hchild (hi.queued hj hej hek)
  · rw [channels_setChannel] at hk
    split at hk
    · cases hk
      subst k
      have := hi.started hc (ho ▸ hok)
      exact ⟨this.1, hst (ho ▸ hok) this.2⟩
    · exact hi.started hk hok

/-- A channel that is new has no events; if it is for a fork, nobody reads from it. -/
theorem Sound.insert [DecidableEq κ] {d : Tracking κ π ν} {k : κ} {new : ForkKqchan κ π} (hi : d.Sound K)
    (hk : d.channels k = none) (he : new.events = []) (hst : ∀ {child parent}, new.origin = some (child, parent) →
      K.parentProcess child = some parent ∧ new.connected = false) : (d.setChannel k new).Sound K := by
  have hset : ∀ {j ch}, d.channels j = some ch → (d.setChannel k new).channels j = some ch := fun {j ch} hj => by
    have hjk : j ≠ k := fun h => by simp [h, hk] at hj
    simpa [channels_setChannel, hjk] using hj
  have hchild : ∀ {j data}, d.Child K j data → (d.setChannel k new).Child K j data :=
    fun ⟨ch, child, parent, hj, hrest⟩ => ⟨ch, child, parent, hset hj, hrest⟩
  refine ⟨fun {j} hn => ?_, fun hm => ?_, hi.unique, fun {j chj e j'} hj hej hek => ?_,
    fun hq hek => hchild (hi.queuing hq hek), fun {j chj child parent} hj hoj => ?_⟩
  · rw [channels_setChannel] at hn
    split at hn
    · cases hn
    · exact hi.unborn hn
  · obtain ⟨ch, parent, hj, hrest⟩ := hi.bare hm
    exact ⟨ch, parent, hset hj, hrest⟩
  · rw [channels_setChannel] at hj
    split at hj
    · cases hj
      rw [he] at hej
      cases hej
    · exact hchild (hi.queued hj hej hek)
  · rw [channels_setChannel] at hj
    split at hj
    · cases hj
      subst j
      refine ⟨(hst hoj).1, ?_⟩
      rw [show (d.setChannel k new).replies k = [] from hi.unborn hk]
      exact .inl ⟨he, (hst hoj).2⟩
    · exact hi.started hj hoj

/-- A channel with a reader gets a reply. -/
theorem Sound.reply [DecidableEq κ] {d : Tracking κ π ν} {c : κ} {ch : ForkKqchan κ π} {r : ReadReply κ}
    (hi : d.Sound K) (hc : d.channels c = some ch) (hconn : ch.connected = true)
    (hr : ∀ {child parent}, ch.origin = some (child, parent) → d.replies c = [] → Started K parent ch [r]) :
    (d.reply c r).Sound K := by
  have hchild : ∀ {k data}, d.Child K k data → (d.reply c r).Child K k data := by
    rintro k data ⟨new, child, parent, hn, hon, hd, hev⟩
    refine ⟨new, child, parent, hn, hon, hd, fun h => hev ?_⟩
    rw [replies_reply] at h
    split at h
    · simp at h
    · exact h
  refine ⟨fun {k} hn => ?_, fun {n k child data} hm => ?_, hi.unique, fun hj hej hek => hchild (hi.queued hj hej hek),
    fun hq hek => hchild (hi.queuing hq hek), fun {k chk child parent} hk hok => ?_⟩
  · have hkc : k ≠ c := by rintro rfl; exact absurd (hc.symm.trans hn) nofun
    rw [replies_reply, if_neg hkc]
    exact hi.unborn hn
  · obtain ⟨new, parent, hn, ho, hp, hd, he, hcn, hrep⟩ := hi.bare hm
    have hkc : k ≠ c := by
      rintro rfl
      cases hc.symm.trans hn
      exact absurd (hconn.symm.trans hcn) nofun
    refine ⟨new, parent, hn, ho, hp, hd, he, hcn, ?_⟩
    rw [replies_reply, if_neg hkc]
    exact hrep
  · have hold := hi.started hk hok
    refine ⟨hold.1, ?_⟩
    rw [replies_reply]
    split
    · subst k
      cases hc.symm.trans hk
      cases hrep : d.replies c with
      | nil => exact hr hok hrep
      | cons r' rs => simpa [hrep, Started] using hold.2
    · exact hold.2

/-- A thread goes on to where it has to be allowed to be. -/
theorem Sound.goto [DecidableEq ν] {d : Tracking κ π ν} {n : ν} {x : ForkPc κ π} (hi : d.Sound K)
    (hq : ∀ {c e k}, x = .queuing c e → e.newKqchan = some k → d.Child K k e.data)
    (hm : ∀ {stage c k child data}, x = .making stage c k child data →
      d.Bare K k child data ∧ ∀ {m child' data'}, d.Making m k child' data' → m = n) : (d.goto n x).Sound K := by
  have hmaking : ∀ {m k child data}, (d.goto n x).Making m k child data →
      (m = n ∧ ∃ stage c, x = .making stage c k child data) ∨ m ≠ n ∧ d.Making m k child data := by
    rintro m k child data ⟨stage, c, h⟩
    rw [pc_goto] at h
    split at h
    · exact .inl ⟨‹_›, stage, c, h⟩
    · exact .inr ⟨‹_›, stage, c, h⟩
  refine ⟨hi.unborn, fun h => ?_, fun {m m' k _ _ _ _} h h' => ?_, hi.queued, fun {m c e k} h hek => ?_, hi.started⟩
  · rcases hmaking h with ⟨-, stage, c, h⟩ | ⟨-, h⟩
    · exact (hm h).1
    · exact hi.bare h
  · rcases hmaking h with ⟨hn, stage, c, hx⟩ | ⟨-, ho⟩ <;> rcases hmaking h' with ⟨hn', stage', c', hx'⟩ | ⟨-, ho'⟩
    · rw [hn, hn']
    · rw [hn, (hm hx).2 ho']
    · rw [hn', (hm hx').2 ho]
    · exact hi.unique ho ho'
  · rw [pc_goto] at h
    split at h
    · exact hq h hek
    · exact hi.queuing h hek

/-- A thread that is making a channel changes it on the way to where it has to be allowed to be. -/
theorem Sound.rework [DecidableEq κ] [DecidableEq ν] {d : Tracking κ π ν} {n : ν} {k : κ} {child : π}
    {data : BitVec 64} {new new' : ForkKqchan κ π} {x : ForkPc κ π} (hi : d.Sound K) (hmk : d.Making n k child data)
    (hk : d.channels k = some new) (ho : new'.origin = new.origin) (he : ∀ e ∈ new'.events, e.newKqchan = none)
    (hst : ∀ {child parent}, new.origin = some (child, parent) → Started K parent new' [])
    (hq : ∀ {c e j}, x = .queuing c e → e.newKqchan = some j → (d.setChannel k new').Child K j e.data)
    (hm : ∀ {stage c j child data}, x = .making stage c j child data → j = k ∧
      (d.setChannel k new').Bare K k child data) : ((d.setChannel k new').goto n x).Sound K := by
  obtain ⟨bare, parent, hb, -, -, -, hbe, -, hrep⟩ := hi.bare hmk
  cases hk.symm.trans hb
  have hidle : (d.goto n .idle).Sound K := hi.goto nofun nofun
  have hnone : ∀ {m child data}, ¬ (d.goto n .idle).Making m k child data := by
    rintro m child data ⟨stage, c, h⟩
    rw [pc_goto] at h
    split at h
    · cases h
    · exact absurd (hi.unique ⟨stage, c, h⟩ hmk) ‹_›
  have hput : ((d.goto n .idle).setChannel k new').Sound K := by
    refine hidle.put hk ho hnone (fun e hen => .inr fun j hj => ?_) (fun _ _ h => absurd hbe h) fun h _ => ?_
    · simp [he e hen] at hj
    · rw [show (d.goto n .idle).replies k = [] from hrep]
      exact hst h
  have heq : (d.setChannel k new').goto n x = ((d.goto n .idle).setChannel k new').goto n x := by
    simp [Tracking.goto, setChannel]
  rw [heq]
  refine hput.goto hq fun h => ?_
  obtain ⟨rfl, hbare⟩ := hm h
  exact ⟨hbare, fun h => absurd h hnone⟩

/-! ## Every step -/

/-- The parent's PID fits the mask; who is looked up by a PID is the child or nobody; nothing but `NOTE_CHILD` is
queued first on the channel of a fork; `NOTE_FORK` is requested with `NOTE_TRACK` when a fork event is taken, and
`NOTE_CHILD` when the first event of the channel of a fork is. -/
def heeded [DecidableEq π] (K : Kinship π) (d : Tracking κ π ν) : TrackingLabel κ π ν → Bool
  | .fork _ _ child _ =>
    (d.registry (K.nsid child &&& notePDataMask)).all (· = child) &&
      (K.parentProcess child).all fun parent => K.nsid parent &&& notePDataMask = K.nsid parent
  | .notify _ c _ _ => (d.channels c).all fun ch => !expecting ch
  | .forkQueue n =>
    match d.pc n with
    | .queuing c _ => (d.channels c).all fun ch => !expecting ch
    | _ => true
  | .read c _ => (d.channels c).all fun ch =>
    match ch.events with
    | [] => true
    | e :: _ =>
      (e.events ≠ noteFork || ch.flags &&& noteTrack = 0 || ch.flags &&& noteFork ≠ 0) &&
      ((e.newKqchan.bind d.channels).all fun new => new.origin.all fun o => (d.registry new.nspid).all (· = o.1)) &&
      (ch.origin.isNone || !(d.replies c).isEmpty || ch.flags &&& noteChild ≠ 0)
  | _ => true

theorem heeded_fork [DecidableEq π] {d : Tracking κ π ν} {n : ν} {c k : κ} {child : π}
    (h : d.heeded K (.fork n c child k) = true) :
    (∀ p, d.registry (K.nsid child &&& notePDataMask) = some p → p = child) ∧
      ∀ parent, K.parentProcess child = some parent → K.nsid parent &&& notePDataMask = K.nsid parent := by
  simp only [heeded, Bool.and_eq_true] at h
  exact ⟨fun p hp => by simpa [hp] using h.1, fun parent hp => by simpa [hp] using h.2⟩

theorem heeded_read [DecidableEq π] {d : Tracking κ π ν} {c : κ} {fails : Bool} {ch : ForkKqchan κ π} {e : Event κ}
    {events : List (Event κ)} (h : d.heeded K (.read c fails) = true) (hc : d.channels c = some ch)
    (he : ch.events = e :: events) :
    (e.events = noteFork → ch.flags &&& noteTrack ≠ 0 → ch.flags &&& noteFork ≠ 0) ∧
      (∀ {k new child parent p}, e.newKqchan = some k → d.channels k = some new → new.origin = some (child, parent) →
        d.registry new.nspid = some p → p = child) ∧
      (ch.origin ≠ none → d.replies c = [] → ch.flags &&& noteChild ≠ 0) := by
  simp only [heeded, hc, Option.all_some, he, Bool.and_eq_true, Bool.or_eq_true, decide_eq_true_eq] at h
  obtain ⟨⟨h₁, h₂⟩, h₃⟩ := h
  refine ⟨fun hf ht => ?_, fun {k new child parent p} hk hn ho hp => ?_, fun ho hr => ?_⟩
  · exact h₁.resolve_left fun h => h.elim (absurd hf) ht
  · simpa [hk, hn, ho, hp] using h₂
  · simpa [ho, hr] using h₃

variable [DecidableEq κ]

theorem Sound.push {d d' : Tracking κ π ν} {c : κ} {e : Event κ} (hi : d.Sound K) (h : d.push c e = some d')
    (hx : (d.channels c).all (fun ch => !expecting ch) = true) (he : ∀ k, e.newKqchan = some k → d.Child K k e.data) :
    d'.Sound K := by
  obtain ⟨ch, hc, rfl⟩ := Option.map_eq_some_iff.1 h
  have hx : ∀ {o}, ch.origin = some o → ch.events = [] → ch.connected = false → False := fun ho he hcn => by
    simp [hc, expecting, ho, he, hcn] at hx
  refine hi.put hc rfl (fun hm => ?_) (fun e' he' => ?_) (fun _ _ _ => by simp) fun {child parent} ho hst => ?_
  · obtain ⟨new, parent, hn, ho, -, -, hev, hcn, -⟩ := hi.bare hm
    cases hc.symm.trans hn
    exact hx ho hev hcn
  · rcases List.mem_append.1 he' with h | h
    · exact .inl h
    · cases List.mem_singleton.1 h
      exact .inr he
  · cases hrep : d.replies c with
    | nil =>
      rw [hrep] at hst
      rcases hst with ⟨hev, hcn⟩ | hst
      · exact absurd hcn (hx ho hev)
      · exact .inr (by simp [List.head?_append, hst])
    | cons r rs => rw [hrep] at hst; exact hst

/-- An event is taken from a channel and reported. -/
theorem Sound.answer {d : Tracking κ π ν} {c : κ} {ch : ForkKqchan κ π} {r : ReadReply κ} {e : Event κ}
    {events : List (Event κ)} (hi : d.Sound K) (hc : d.channels c = some ch) (hconn : ch.connected = true)
    (he : ch.events = e :: events)
    (hr : ∀ {child parent}, ch.origin = some (child, parent) → d.replies c = [] → Started K parent ch [r]) :
    ((d.setChannel c { ch with events }).reply c r).Sound K := by
  have hreply : (d.reply c r).Sound K := hi.reply hc hconn hr
  have hne : (d.reply c r).replies c ≠ [] := by simp [replies_reply]
  refine Sound.put (d := d.reply c r) hreply hc rfl (fun hm => ?_) (fun e' he' => ?_) (fun _ h => absurd h hne)
    fun _ hst => ?_
  · obtain ⟨new, _, hn, -, -, -, -, hcn, -⟩ := hi.bare hm
    cases hc.symm.trans hn
    exact absurd (hconn.symm.trans hcn) nofun
  · exact .inl (by simp [he, he'])
  · cases hrep : (d.reply c r).replies c with
    | nil => exact absurd hrep hne
    | cons r' rs => rw [hrep] at hst; exact hst

theorem Child.answer {d : Tracking κ π ν} {c k : κ} {ch : ForkKqchan κ π} {data : BitVec 64}
    (h : d.Child K k data) (hc : d.channels c = some ch) (r : ReadReply κ) (events : List (Event κ)) :
    ((d.setChannel c { ch with events }).reply c r).Child K k data := by
  obtain ⟨new, child, parent, hn, ho, hd, hev⟩ := h
  by_cases hk : k = c
  · subst hk
    cases hc.symm.trans hn
    exact ⟨{ ch with events }, child, parent, by simp [Tracking.reply, channels_setChannel], ho, hd,
      fun h => absurd h (by simp [replies_reply])⟩
  · refine ⟨new, child, parent, by simpa [Tracking.reply, channels_setChannel, hk] using hn, ho, hd, fun h => hev ?_⟩
    simpa [replies_reply, hk, setChannel] using h

/-- A channel that knows about `NOTE_CHILD` is handed out. -/
theorem Sound.handOut {d : Tracking κ π ν} {k : κ} {data : BitVec 64} {new : ForkKqchan κ π} (hi : d.Sound K)
    (new' : ForkKqchan κ π) (hchild : d.Child K k data) (hn : d.channels k = some new) (ho : new'.origin = new.origin)
    (he : new'.events = new.events) : (d.setChannel k new').Sound K := by
  refine hi.put hn ho (fun hm => hchild.not_bare (hi.bare hm)) (fun e h => .inl (he ▸ h)) (fun _ _ h => he ▸ h)
    fun _ hst => ?_
  obtain ⟨ch, _, _, hch, -, -, hev⟩ := hchild
  cases hn.symm.trans hch
  cases hrep : d.replies k with
  | nil =>
    rw [hrep] at hst
    exact .inr (he ▸ hst.resolve_left fun h => hev hrep h.1)
  | cons r rs => rw [hrep] at hst; exact hst

omit [DecidableEq κ] in
/-- The first event that is read from the channel of a fork. -/
theorem Sound.first_event {d : Tracking κ π ν} {c : κ} {ch : ForkKqchan κ π} {child parent : π} (hi : d.Sound K)
    (hc : d.channels c = some ch) (hconn : ch.connected = true) (ho : ch.origin = some (child, parent))
    (hrep : d.replies c = []) : ch.events.head? = some ⟨noteChild, K.nsid parent, none⟩ := by
  have := (hi.started hc ho).2
  rw [hrep] at this
  exact this.resolve_left fun h => absurd (hconn.symm.trans h.2) nofun

variable [DecidableEq π]

/-- What a turn of the loop of `_read` comes to. -/
inductive Reads (d : Tracking κ π ν) (c : κ) (ch : ForkKqchan κ π) (fails : Bool) : Tracking κ π ν → Prop
  | empty : ch.events = [] → Reads d c ch fails (d.reply c { code := 0xdead })
  | dropped {e events} : ch.events = e :: events → e.events &&& ch.flags = 0 →
      Reads d c ch fails (d.setChannel c { ch with events })
  | handedOut {e events k d'} : ch.events = e :: events → e.newKqchan = some k →
      (d.setChannel c { ch with events }).track ch k fails = some d' →
      Reads d c ch fails (d'.reply c { data := e.data, fflags := e.events &&& ch.flags, descriptor := some k })
  | trackErr {e events} : ch.events = e :: events → e.newKqchan ≠ none ∨ e.events &&& noteFork ≠ 0 →
      Reads d c ch fails ((d.setChannel c { ch with events }).reply c
        { data := e.data, fflags := e.events &&& ch.flags ||| noteTrackErr })
  | plain {e events} : ch.events = e :: events →
      ch.flags &&& noteTrack = 0 ∨ e.newKqchan = none ∧ e.events &&& noteFork = 0 →
      Reads d c ch fails ((d.setChannel c { ch with events }).reply c
        { data := e.data, fflags := e.events &&& ch.flags })

theorem reads (d : Tracking κ π ν) (c : κ) (ch : ForkKqchan κ π) (fails : Bool) :
    Reads d c ch fails (d.read c ch fails) := by
  unfold read
  split
  · exact .empty ‹_›
  · rename_i e events he
    dsimp only
    split
    · exact .dropped he ‹_›
    · split
      · split
        · rename_i k hk
          split
          · exact .handedOut he hk ‹_›
          · exact .trackErr he (.inl (by simp [hk]))
        · rename_i hk
          split
          · exact .trackErr he (.inr ‹_›)
          · exact .plain he (.inr ⟨hk, Decidable.not_not.1 ‹_›⟩)
      · exact .plain he (.inl (Decidable.not_not.1 ‹_›))

theorem setup_some {d d' : Tracking κ π ν} {k : κ} {ch : ForkKqchan κ π} {fails : Bool}
    (h : d.setup k ch fails = some d') : ∃ p, d.registry ch.nspid = some p ∧
      d'.channels = (d.setChannel k { ch with targetProcess := some p, attached := true, connected := true }).channels ∧
      d'.replies = d.replies ∧ d'.pc = d.pc := by
  obtain ⟨p, hp, h⟩ := Option.bind_eq_some_iff.1 h
  obtain ⟨-, h⟩ := Option.ite_none_left_eq_some.1 h
  cases h
  exact ⟨p, hp, by split <;> exact ⟨rfl, rfl, rfl⟩⟩

theorem track_some {d d' : Tracking κ π ν} {ch : ForkKqchan κ π} {k : κ} {fails : Bool}
    (h : d.track ch k fails = some d') : ∃ new p, d.channels k = some new ∧ d.registry new.nspid = some p ∧
      d'.channels = (d.setChannel k { new with
        flags := ch.flags, targetProcess := some p, attached := true, connected := true }).channels ∧
      d'.replies = d.replies ∧ d'.pc = d.pc ∧ k ∈ d'.kqchannels ch.process := by
  obtain ⟨new, hn, h⟩ := Option.bind_eq_some_iff.1 h
  obtain ⟨d₁, hsetup, rfl⟩ := Option.map_eq_some_iff.1 h
  obtain ⟨p, hp, hc, hr, hpc⟩ := setup_some hsetup
  exact ⟨new, p, hn, hp, hc, hr, hpc, by simp [registerKqchan]⟩

omit [DecidableEq κ] in
/-- What is read first from the channel of a fork, and that the user wants to know. -/
theorem Sound.first_read {d : Tracking κ π ν} {c : κ} {ch : ForkKqchan κ π} {fails : Bool} {e : Event κ}
    {events : List (Event κ)} {child parent : π} (hi : d.Sound K) (hc : d.channels c = some ch)
    (hconn : ch.connected = true) (hg : d.heeded K (.read c fails) = true) (he : ch.events = e :: events)
    (ho : ch.origin = some (child, parent)) (hrep : d.replies c = []) :
    e = ⟨noteChild, K.nsid parent, none⟩ ∧ noteChild &&& ch.flags ≠ 0 := by
  have hfirst := hi.first_event hc hconn ho hrep
  rw [he] at hfirst
  refine ⟨Option.some.inj hfirst, ?_⟩
  rw [BitVec.and_comm]
  exact (heeded_read hg hc he).2.2 (by simp [ho]) hrep

theorem sound_read {d : Tracking κ π ν} {c : κ} {ch : ForkKqchan κ π} {fails : Bool} (hi : d.Sound K)
    (hc : d.channels c = some ch) (hconn : ch.connected = true) (hg : d.heeded K (.read c fails) = true) :
    (d.read c ch fails).Sound K := by
  have hread := reads d c ch fails
  generalize d.read c ch fails = d' at hread ⊢
  have hmaking : ∀ {n child data}, ¬ d.Making n c child data := fun hm => by
    obtain ⟨new, _, hn, -, -, -, -, hcn, -⟩ := hi.bare hm
    cases hc.symm.trans hn
    exact absurd (hconn.symm.trans hcn) nofun
  cases hread with
  | empty he =>
    refine hi.reply hc hconn fun ho hrep => ?_
    have := hi.first_event hc hconn ho hrep
    simp [he] at this
  | @dropped e events he hzero =>
    have hfirst : ∀ {child parent}, ch.origin = some (child, parent) → d.replies c ≠ [] := fun ho hrep => by
      obtain ⟨rfl, hne⟩ := hi.first_read hc hconn hg he ho hrep
      exact hne hzero
    refine hi.put hc rfl hmaking (fun e' he' => .inl (by simp [he, he'])) (fun ho hrep => ?_) fun ho hst => ?_
    · obtain ⟨⟨child, parent⟩, ho⟩ := Option.ne_none_iff_exists'.1 ho
      exact absurd hrep (hfirst ho)
    · cases hrep : d.replies c with
      | nil => exact absurd hrep (hfirst ho)
      | cons r rs => rw [hrep] at hst; exact hst
  | @handedOut e events k d₁ he hk htrack =>
    obtain ⟨new, p, hn, -, hch, hrep, hpc, -⟩ := track_some htrack
    have hanswer := hi.answer (r := ⟨0, e.data, e.events &&& ch.flags, some k⟩) hc hconn he fun ho hrep => by
      obtain ⟨rfl, -⟩ := hi.first_read hc hconn hg he ho hrep
      cases hk
    have hchild := (hi.queued hc (by simp [he]) hk).answer hc ⟨0, e.data, e.events &&& ch.flags, some k⟩ events
    have hhand := hanswer.handOut
      { new with flags := ch.flags, targetProcess := some p, attached := true, connected := true } hchild hn rfl rfl
    exact hhand.congr hch (by rw [Tracking.reply, hrep]; rfl) hpc
  | @trackErr e events he hcause =>
    refine hi.answer hc hconn he fun ho hrep => ?_
    obtain ⟨rfl, -⟩ := hi.first_read hc hconn hg he ho hrep
    exact hcause.elim (absurd rfl) (absurd (by decide : noteChild &&& noteFork = 0))
  | @plain e events he _ =>
    refine hi.answer hc hconn he fun ho hrep => ?_
    obtain ⟨rfl, hne⟩ := hi.first_read hc hconn hg he ho hrep
    refine ⟨rfl, ?_, rfl⟩
    rwa [BitVec.and_assoc, BitVec.and_comm ch.flags, ← BitVec.and_assoc, BitVec.and_self]

variable [DecidableEq ν]

theorem sound_fork {d d' : Tracking κ π ν} {n : ν} {c k : κ} {ch : ForkKqchan κ π} {child parent : π} (hi : d.Sound K)
    (hpar : K.parentProcess child = some parent) (hg : d.heeded K (.fork n c child k) = true)
    (h : d.fork K n c ch child parent k = some d') : d'.Sound K := by
  unfold fork at h
  split at h
  · cases h; exact hi
  · split at h
    · cases h
      exact hi.goto (fun hq hk => by cases hq; cases hk) nofun
    · rename_i found hfound
      obtain ⟨hk, h⟩ := Option.ite_none_left_eq_some.1 h
      cases h
      -- who is found is the child
      obtain rfl := (heeded_fork hg).1 found hfound
      have hk : d.channels k = none := by simpa using hk
      refine Sound.goto (hi.insert hk rfl fun ho => ?_) nofun fun hm => ?_
      · cases ho
        exact ⟨hpar, rfl⟩
      · cases hm
        have hmask := (heeded_fork hg).2 parent hpar
        refine ⟨⟨_, parent, (channels_setChannel ..).trans (if_pos rfl), rfl, hmask, rfl, rfl, rfl, hi.unborn hk⟩, ?_⟩
        intro m child' data' hmk
        obtain ⟨new, _, hn, -⟩ := hi.bare hmk
        exact absurd (hk.symm.trans hn) nofun

theorem sound_step {d d' : Tracking κ π ν} {l : TrackingLabel κ π ν} (h : d.step K l = some d') (hi : d.Sound K)
    (hg : d.heeded K l = true) : d'.Sound K := by
  cases l with
  | registry | expire => cases h; exact hi.congr rfl rfl rfl
  | create k process nspid flags =>
    obtain ⟨hk, h⟩ := Option.ite_none_left_eq_some.1 h
    obtain ⟨d₁, hsetup, rfl⟩ := Option.map_eq_some_iff.1 h
    obtain ⟨p, -, hc, hr, hpc⟩ := setup_some hsetup
    have hk : d.channels k = none := by simpa using hk
    let new : ForkKqchan κ π := ⟨process, nspid, flags, [], some p, true, true, none⟩
    have hinsert : (d.setChannel k new).Sound K := hi.insert hk rfl nofun
    exact hinsert.congr hc hr hpc
  | modify c flags =>
    simp only [step] at h
    split at h
    · rename_i ch hc
      obtain ⟨hconn, h⟩ := Option.ite_none_right_eq_some.1 h
      cases h
      refine hi.put hc rfl (fun hm => ?_) (fun _ h => .inl h) (fun _ _ h => h) fun _ h => h
      obtain ⟨new, _, hn, -, -, -, -, hcn, -⟩ := hi.bare hm
      cases hc.symm.trans hn
      exact absurd (hconn.symm.trans hcn) nofun
    · cases h
  | notify p c event data =>
    obtain ⟨-, h⟩ := Option.ite_none_right_eq_some.1 h
    exact hi.push h hg nofun
  | fork n c child k =>
    simp only [step] at h
    split at h
    · obtain ⟨-, h⟩ := Option.ite_none_right_eq_some.1 h
      exact sound_fork hi ‹_› hg h
    · cases h
  | forkRegister n =>
    simp only [step] at h
    split at h <;> cases h
    rename_i c k child data hpc
    have hm : d.Making n k child data := ⟨_, c, hpc⟩
    refine Sound.congr (hi.goto (x := .making .attaching c k child data) nofun fun h => ?_) rfl rfl rfl
    cases h
    exact ⟨hi.bare hm, fun h => hi.unique h hm⟩
  | forkAttach n =>
    simp only [step] at h
    split at h
    · rename_i c k child data hpc
      obtain ⟨new, hn, rfl⟩ := Option.map_eq_some_iff.1 h
      have hm : d.Making n k child data := ⟨_, c, hpc⟩
      obtain ⟨new', parent, hn', ho, hp, hd, he, hcn, hrep⟩ := hi.bare hm
      cases hn.symm.trans hn'
      refine hi.rework hm hn rfl (fun e h => by simp [he] at h) (fun _ => .inl ⟨he, hcn⟩) nofun fun h => ?_
      cases h
      exact ⟨rfl, _, parent, (channels_setChannel ..).trans (if_pos rfl), ho, hp, hd, he, hcn, hrep⟩
    · cases h
  | forkInform n =>
    simp only [step] at h
    split at h
    · rename_i c k child data hpc
      obtain ⟨d₁, hpush, rfl⟩ := Option.map_eq_some_iff.1 h
      obtain ⟨new, hn, rfl⟩ := Option.map_eq_some_iff.1 hpush
      have hm : d.Making n k child data := ⟨_, c, hpc⟩
      obtain ⟨new', parent, hn', ho, hp, hd, he, hcn, hrep⟩ := hi.bare hm
      cases hn.symm.trans hn'
      have hpar := (hi.started hn ho).1
      refine hi.rework hm hn rfl (fun e h => ?_) (fun ho' => .inr ?_) (fun hq hk => ?_) nofun
      · simp only [he, List.nil_append, List.mem_singleton] at h
        rw [h]
      · cases ho.symm.trans ho'
        simp [he, hpar, hp]
      · cases hq
        cases hk
        exact ⟨_, child, parent, (channels_setChannel ..).trans (if_pos rfl), ho, hd, fun _ => by simp⟩
    · cases h
  | forkQueue n =>
    simp only [step] at h
    split at h
    · rename_i c e hpc
      obtain ⟨d₁, hpush, rfl⟩ := Option.map_eq_some_iff.1 h
      have hx : (d.channels c).all (fun ch => !expecting ch) = true := by simpa [heeded, hpc] using hg
      exact (hi.push hpush hx fun k hk => hi.queuing hpc hk).goto nofun nofun
    · cases h
  | read c fails =>
    simp only [step] at h
    split at h
    · rename_i ch hc
      obtain ⟨hconn, h⟩ := Option.ite_none_right_eq_some.1 h
      cases h
      simp only [Bool.and_eq_true] at hconn
      exact sound_read hi hc hconn.1 hg
    · cases h

theorem sound {d : Tracking κ π ν} (h : Reach (step K) (fun d l => d.heeded K l = true) Init d) : d.Sound K := by
  refine h.inv (Sound K) (fun d hd => ?_) fun _ _ _ hi hg hst => sound_step hst hi hg
  have hm : ∀ {n k child data}, ¬ d.Making n k child data := fun {n _ _ _} ⟨_, _, h⟩ => by simp [hd.2.2 n] at h
  exact ⟨fun _ => hd.2.1 _, fun h => absurd h hm, fun h => absurd h hm, fun {c _ _ _} hc => by simp [hd.1 c] at hc,
    fun {n _ _ _} h => by simp [hd.2.2 n] at h, fun {k _ _ _} hk => by simp [hd.1 k] at hk⟩

theorem or_and_self (x y : BitVec 32) : (x ||| y) &&& y = y := by
  ext i
  simpa using Or.inr

/-- In a run that heeds the condition, the read that takes a fork event hands out a channel on the child, registered
with the listening process and with the current flags, or reports `NOTE_TRACKERR`; and the first reply of the
channel of a fork reports `NOTE_CHILD` with the parent's PID. -/
theorem fork_tracked (d : Tracking κ π ν) (h : Reach (step K) (fun d l => d.heeded K l = true) Init d) :
    (∀ c ch e events fails d', d.channels c = some ch → ch.events = e :: events → e.events = noteFork →
      ch.flags &&& noteTrack ≠ 0 → d.heeded K (.read c fails) = true → d.step K (.read c fails) = some d' →
      ∃ r, d'.replies c = d.replies c ++ [r] ∧ (r.fflags &&& noteTrackErr ≠ 0 ∨
        ∃ k new child parent, r.descriptor = some k ∧ d'.channels k = some new ∧ new.origin = some (child, parent) ∧
          e.data = K.nsid child ∧ new.targetProcess = some child ∧ k ∈ d'.kqchannels ch.process ∧
          new.flags = ch.flags)) ∧
    ∀ k ch child parent r, d.channels k = some ch → ch.origin = some (child, parent) → (d.replies k).head? = some r →
      r.code = 0 ∧ r.fflags &&& noteChild ≠ 0 ∧ r.data = K.nsid parent ∧ K.parentProcess child = some parent := by
  have hi := sound h
  refine ⟨fun c ch e events fails d' hc he hfork htrack hg hst => ?_, fun k ch child parent r hk ho hr => ?_⟩
  · obtain ⟨hwant, hfound, -⟩ := heeded_read hg hc he
    simp only [step, hc] at hst
    obtain ⟨-, hst⟩ := Option.ite_none_right_eq_some.1 hst
    have hread := reads d c ch fails
    rw [Option.some.inj hst] at hread
    cases hread with
    | empty he' => simp [he] at he'
    | dropped he' hzero =>
      cases he.symm.trans he'
      rw [hfork, BitVec.and_comm] at hzero
      exact absurd hzero (hwant hfork htrack)
    | trackErr he' =>
      refine ⟨_, (replies_reply ..).trans (if_pos rfl), .inl ?_⟩
      rw [or_and_self]
      decide
    | plain he' hcause =>
      cases he.symm.trans he'
      rw [hfork, BitVec.and_self] at hcause
      exact hcause.elim (absurd · htrack) fun h => absurd h.2 (by decide)
    | @handedOut _ _ k d₁ he' hk htrk =>
      cases he.symm.trans he'
      obtain ⟨new, p, hn, hp, hch, hrep, -, hmem⟩ := track_some htrk
      obtain ⟨old, child, parent, hold, ho, hdata, -⟩ := hi.queued hc (by simp [he]) hk
      have hsame : new.origin = old.origin ∧ new.nspid = old.nspid := by
        rw [channels_setChannel] at hn
        split at hn
        · subst k
          cases hn
          cases hc.symm.trans hold
          exact ⟨rfl, rfl⟩
        · cases hn.symm.trans hold
          exact ⟨rfl, rfl⟩
      obtain rfl := hfound hk hold ho (hsame.2 ▸ hp)
      refine ⟨_, (replies_reply ..).trans ((if_pos rfl).trans (by rw [hrep]; rfl)), .inr ?_⟩
      exact ⟨k, _, p, parent, rfl, (congrFun hch k).trans ((channels_setChannel ..).trans (if_pos rfl)),
        hsame.1.trans ho, hdata, rfl, hmem, rfl⟩
  · obtain ⟨hpar, hst⟩ := hi.started hk ho
    cases hrep : d.replies k with
    | nil => simp [hrep] at hr
    | cons r' rs =>
      rw [hrep] at hst hr
      cases hr
      exact ⟨hst.1, hst.2.1, hst.2.2, hpar⟩

/-! ## One fork -/

inductive Relative where
  | listener
  | parent
  | child
  deriving DecidableEq

/-- The channel on the parent, and the one that is made on the child. -/
inductive Line where
  | onParent
  | onChild
  deriving DecidableEq

def family : Kinship Relative where
  nsid
    | .listener => 10
    | .parent => 11
    | .child => 12
  parentProcess
    | .child => some .parent
    | _ => none

def familyLookup (nspid : BitVec 64) : Option Relative :=
  if nspid = 11 then some .parent else if nspid = 12 then some .child else none

def noChannels : Tracking Line Relative Unit where
  channels _ := none
  replies _ := []
  kqchannels _ := []
  listeners _ := []
  registry := familyLookup
  gone _ := false
  pc _ := .idle

theorem noChannels_init : Init noChannels := ⟨fun _ => rfl, fun _ => rfl, fun _ => rfl⟩

/-- The parent forks while somebody listens to it. -/
def forkRun (flags : BitVec 32) : List (TrackingLabel Line Relative Unit) :=
  [.create .onParent .listener 11 flags, .fork () .onParent .child .onChild, .forkRegister (), .forkAttach (),
    .forkInform (), .forkQueue ()]

def allFlags : BitVec 32 := noteFork ||| noteTrack ||| noteChild

/-- With all three flags the read hands out the channel on the child, and the first read on that reports the fork. -/
theorem fork_tracked_child :
    (∃ d d' : Tracking Line Relative Unit,
      exec (step family) (fun d l => d.heeded family l) noChannels (forkRun allFlags) = some d ∧
      d.step family (.read .onParent false) = some d' ∧
      ∃ r, d'.replies .onParent = d.replies .onParent ++ [r] ∧ (r.fflags &&& noteTrackErr ≠ 0 ∨ r.descriptor ≠ none)) ∧
    ∃ d : Tracking Line Relative Unit, exec (step family) (fun d l => d.heeded family l) noChannels
        (forkRun allFlags ++ [.read .onParent false, .read .onChild false]) = some d ∧
      ∃ r, (d.replies .onChild).head? = some r ∧ r.fflags &&& noteChild ≠ 0 ∧ r.data = 11 := by
  have hinit : Reach (step family) (fun d l => d.heeded family l = true) Init noChannels := .init noChannels_init
  constructor
  · have hrun : (exec (step family) (fun d l => d.heeded family l) noChannels (forkRun allFlags)).map (fun d =>
        ((d.channels .onParent).map fun ch => (ch.flags, ch.events.map (·.events)),
          d.heeded family (.read .onParent false), (d.step family (.read .onParent false)).isSome)) =
        some (some (allFlags, [noteFork]), true, true) := rfl
    obtain ⟨d, hd, hv⟩ := Option.map_eq_some_iff.1 hrun
    simp only [Prod.mk.injEq, Option.map_eq_some_iff] at hv
    obtain ⟨⟨ch, hch, hflags, hevents⟩, hg, hst⟩ := hv
    obtain ⟨d', hst⟩ := Option.isSome_iff_exists.1 hst
    obtain ⟨e, he, hfork⟩ := List.map_eq_singleton_iff.1 hevents
    obtain ⟨r, hr, hr'⟩ := (fork_tracked d (exec_reach (fun _ _ hg => hg) hd hinit)).1 .onParent ch e [] false d' hch he
      hfork (by rw [hflags]; decide) hg hst
    exact ⟨d, d', hd, hst, r, hr, hr'.imp_right fun ⟨k, _, _, _, hk, _⟩ => by simp [hk]⟩
  · have hrun : (exec (step family) (fun d l => d.heeded family l) noChannels
        (forkRun allFlags ++ [TrackingLabel.read .onParent false, .read .onChild false])).map (fun d =>
        ((d.channels .onChild).map (·.origin), (d.replies .onChild).head?.isSome)) =
        some (some (some (.child, .parent)), true) := rfl
    obtain ⟨d, hd, hv⟩ := Option.map_eq_some_iff.1 hrun
    simp only [Prod.mk.injEq, Option.map_eq_some_iff] at hv
    obtain ⟨⟨ch, hch, ho⟩, hr⟩ := hv
    obtain ⟨r, hr⟩ := Option.isSome_iff_exists.1 hr
    obtain ⟨-, h₁, h₂, -⟩ :=
      (fork_tracked d (exec_reach (fun _ _ hg => hg) hd hinit)).2 .onChild ch _ _ r hch ho hr
    exact ⟨d, hd, r, hr, h₁, h₂⟩

/-- With `NOTE_TRACK` and no `NOTE_FORK` the fork event is taken and nothing is reported; with both, the first reply
of the channel on the child has no `NOTE_CHILD`. -/
theorem fork_untracked :
    (∃ d d' : Tracking Line Relative Unit, Reach (step family) (fun _ _ => True) Init d ∧
      (d.channels .onParent).map (fun ch => (ch.flags, ch.events.map (·.events))) = some (noteTrack, [noteFork]) ∧
      d.step family (.read .onParent false) = some d' ∧
      (d'.channels .onParent).map (·.events.length) = some 0 ∧ d'.replies .onParent = []) ∧
    ∃ d : Tracking Line Relative Unit, Reach (step family) (fun _ _ => True) Init d ∧
      (d.replies .onParent).map (·.descriptor) = [some .onChild] ∧
      (d.replies .onChild).map (fun r => (r.code, r.fflags)) = [(0xdead, 0)] := by
  have hinit : Reach (step family) (fun _ _ => True) Init noChannels := .init noChannels_init
  constructor
  · have hrun : (exec (step family) (fun _ _ => true) noChannels (forkRun noteTrack)).map (fun d =>
        ((d.channels .onParent).map fun ch => (ch.flags, ch.events.map (·.events)),
          (d.step family (.read .onParent false)).map fun d' =>
            ((d'.channels .onParent).map (·.events.length), (d'.replies .onParent).length))) =
        some (some (noteTrack, [noteFork]), some (some 0, 0)) := rfl
    obtain ⟨d, hd, hv⟩ := exists_reach (fun _ _ _ => trivial) hinit hrun
    simp only [Prod.mk.injEq] at hv
    obtain ⟨d', hst, hv'⟩ := Option.map_eq_some_iff.1 hv.2
    simp only [Prod.mk.injEq, List.length_eq_zero_iff] at hv'
    exact ⟨d, d', hd, hv.1, hst, hv'⟩
  · have hrun : (exec (step family) (fun _ _ => true) noChannels (forkRun (noteFork ||| noteTrack) ++
        [TrackingLabel.read .onParent false, .read .onChild false, .read .onChild false])).map (fun d =>
        ((d.replies .onParent).map (·.descriptor), (d.replies .onChild).map fun r => (r.code, r.fflags))) =
        some ([some .onChild], [(0xdead, 0)]) := rfl
    obtain ⟨d, hd, hv⟩ := exists_reach (fun _ _ _ => trivial) hinit hrun
    exact ⟨d, hd, Prod.mk.inj hv⟩

end Tracking

end DarlingServer
