import DarlingServer.Nesting
/-!
# Register states

`thread_set_state` and `thread_get_state` keep a thread's registers in the first of
its `user_states`. The generic flavors carry a header that names a specific one; both
functions turn a generic flavor into a specific one in a first `switch` and serve that
in a second. `dtape_thread_sigexc_enter2` puts a zeroed state in front, and
`dtape_thread_sigexc_exit` takes it away.

* What a successful `thread_set_state` stored, `thread_get_state` gives back, with the
  flavor and the count of the task's architecture; the other registers stay.
* Calls that are properly nested between an enter and its exit leave the thread as it was.

States are arrays of 32-bit words, as `mach_msg_type_number_t` counts them. The headers
of the two stored records are never used and left out.
-/

namespace DarlingServer.RegisterState

abbrev Word := UInt32

/-- The registers that are stored. -/
inductive Kind where
  | thread
  | float
  deriving DecidableEq, Repr

inductive Width where
  | w32
  | w64
  deriving DecidableEq, Repr

inductive Flavor where
  /-- `x86_THREAD_STATE`, `x86_FLOAT_STATE`. -/
  | generic (k : Kind)
  /-- `x86_THREAD_STATE32` and so on. -/
  | specific (k : Kind) (w : Width)
  | debug
  | debug32
  | debug64
  /-- No `case` names it. -/
  | unlisted
  deriving DecidableEq, Repr

inductive KernReturn where
  | success
  | invalidArgument
  | failure
  | notSupported
  deriving DecidableEq, Repr

/-- The flavor a header has for a specific state. -/
def Kind.code : Kind → Width → Word
  | .thread, .w32 => 1
  | .float, .w32 => 2
  | .thread, .w64 => 4
  | .float, .w64 => 5

def debugCode : Width → Word
  | .w32 => 10
  | .w64 => 11

/-- `x86_THREAD_STATE32_COUNT` and so on. -/
def Kind.count : Kind → Width → Nat
  | .thread, .w32 => 16
  | .thread, .w64 => 42
  | .float, _ => 131

/-- The words of the union of a kind's two states. -/
def Kind.unionCount (k : Kind) : Nat := max (k.count .w32) (k.count .w64)

/-- `x86_THREAD_STATE_COUNT` and `x86_FLOAT_STATE_COUNT`: a header and the union. -/
def Kind.genericCount (k : Kind) : Nat := 2 + k.unionCount

/-- `x86_DEBUG_STATE32_COUNT` and `x86_DEBUG_STATE64_COUNT`. -/
def debugCount : Width → Nat
  | .w32 => 8
  | .w64 => 16

/-- `x86_DEBUG_STATE_COUNT`. -/
def debugGenericCount : Nat := 2 + max (debugCount .w32) (debugCount .w64)

theorem Kind.count_le (k : Kind) (w : Width) : k.count w ≤ k.unionCount := by
  cases w
  · exact Nat.le_max_left _ _
  · exact Nat.le_max_right _ _

/-- A count is the same when it has been through a header. -/
theorem Kind.count_toNat (k : Kind) (w : Width) : (UInt32.ofNat (k.count w)).toNat = k.count w := by
  cases k <;> cases w <;> rfl

/-! ## The stored states -/

/-- `memcpy` of `k` words. -/
def memcpy {n : Nat} (dst : Vector Word n) (src : List Word) (k : Nat) : Vector Word n :=
  Vector.ofFn fun i => if i.1 < k then src.getD i.1 dst[i] else dst[i]

/-- The first `k` words are those copied. -/
theorem take_memcpy {n k : Nat} (dst : Vector Word n) {src : List Word} (hn : k ≤ n) (hs : k ≤ src.length) :
    (memcpy dst src k).toList.take k = src.take k := by
  refine List.ext_getElem (by simp [hn, hs]) fun i h _ => ?_
  have hi : i < k := by simp at h; omega
  have hsrc : i < src.length := by omega
  simp [memcpy, hi, hsrc]

/-- `dtape_thread_user_state_t`. -/
structure Registers where
  threadState : Vector Word Kind.thread.unionCount
  floatState : Vector Word Kind.float.unionCount
  deriving DecidableEq

namespace Registers

def zeroed : Registers := ⟨.replicate _ 0, .replicate _ 0⟩

def area (r : Registers) : (k : Kind) → Vector Word k.unionCount
  | .thread => r.threadState
  | .float => r.floatState

def setArea (r : Registers) : (k : Kind) → Vector Word k.unionCount → Registers
  | .thread, v => { r with threadState := v }
  | .float, v => { r with floatState := v }

@[simp] theorem area_setArea (r : Registers) (k : Kind) (v : Vector Word k.unionCount) :
    (r.setArea k v).area k = v := by
  cases k <;> rfl

theorem area_setArea_other (r : Registers) {k k' : Kind} (v : Vector Word k.unionCount) (h : k' ≠ k) :
    (r.setArea k v).area k' = r.area k' := by
  cases k <;> cases k' <;> first | rfl | exact absurd rfl h

end Registers

/-- The part of `dtape_thread_t` that is used here. `user_states` is `allocated`
followed by the state embedded in the thread. -/
structure Dthread where
  architecture : Architecture
  defaultState : Registers
  allocated : List Registers

namespace Dthread

/-- `LIST_FIRST(&dthread->user_states)`. -/
def userState (d : Dthread) : Registers := d.allocated.headD d.defaultState

def setUserState (d : Dthread) (r : Registers) : Dthread :=
  match d.allocated with
  | [] => { d with defaultState := r }
  | _ :: rest => { d with allocated := r :: rest }

@[simp] theorem userState_setUserState (d : Dthread) (r : Registers) : (d.setUserState r).userState = r := by
  obtain ⟨architecture, defaultState, allocated⟩ := d
  cases allocated <;> rfl

@[simp] theorem architecture_setUserState (d : Dthread) (r : Registers) :
    (d.setUserState r).architecture = d.architecture := by
  obtain ⟨architecture, defaultState, allocated⟩ := d
  cases allocated <;> rfl

theorem setUserState_userState (d : Dthread) : d.setUserState d.userState = d := by
  obtain ⟨architecture, defaultState, allocated⟩ := d
  cases allocated <;> rfl

theorem setUserState_setUserState (d : Dthread) (r r' : Registers) :
    (d.setUserState r).setUserState r' = d.setUserState r' := by
  obtain ⟨architecture, defaultState, allocated⟩ := d
  cases allocated <;> rfl

end Dthread

/-! ## `thread_set_state` -/

/-- The check on the architecture that the cases of the second `switch` make. -/
def Width.refused : Width → Architecture → Bool
  | .w32, architecture => architecture = .x86_64
  | .w64, architecture => architecture ≠ .x86_64

/-- A case of the second `switch` for the stored registers. -/
def setSpecific (d : Dthread) (k : Kind) (w : Width) (state : List Word) (stateCount : Nat) :
    KernReturn × Dthread :=
  if stateCount < k.count w then (.invalidArgument, d)
  else if w.refused d.architecture then (.invalidArgument, d)
  else (.success, d.setUserState (d.userState.setArea k (memcpy (d.userState.area k) state (k.count w))))

/-- `case x86_DEBUG_STATE64`. -/
def setDebug64 (d : Dthread) : KernReturn × Dthread := (.notSupported, d)

/-- `case x86_DEBUG_STATE32`, which calls `thread_set_state` with the other flavor. -/
def setDebug32 (d : Dthread) : KernReturn × Dthread :=
  if d.architecture = .x86_64 then (.invalidArgument, d) else setDebug64 d

/-- A case of the first `switch`: the width a header's flavor stands for, if the task may use it. -/
def headerWidth (architecture : Architecture) (code : Width → Word) (flavor : Word) : Option Width :=
  if flavor = code .w32 then
    if architecture = .x86_64 then none else some .w32
  else if flavor = code .w64 then
    if architecture ≠ .x86_64 then none else some .w64
  else none

/-- An array with its count; the header of a generic state is its first two words. -/
def threadSetState (d : Dthread) (flavor : Flavor) (state : List Word) : KernReturn × Dthread :=
  if d.architecture = .other then (.failure, d)
  else
    match flavor with
    | .generic k =>
      if state.length < k.genericCount then (.invalidArgument, d)
      else
        match headerWidth d.architecture k.code (state.getD 0 0) with
        | none => (.invalidArgument, d)
        -- the count is the header's from here on
        | some w => setSpecific d k w (state.drop 2) (state.getD 1 0).toNat
    | .specific k w => setSpecific d k w state state.length
    | .debug =>
      if state.length < debugGenericCount then (.invalidArgument, d)
      else
        match headerWidth d.architecture debugCode (state.getD 0 0) with
        | none => (.invalidArgument, d)
        | some .w32 => setDebug32 d
        | some .w64 => setDebug64 d
    | .debug32 => setDebug32 d
    | .debug64 => setDebug64 d
    | .unlisted => (.invalidArgument, d)

/-! ## `thread_get_state` -/

/-- The caller's array and its `*state_count`. -/
structure Out where
  state : List Word
  count : Nat
  deriving DecidableEq

/-- Where `state_count` points. -/
inductive CountAt where
  | caller
  | header
  deriving DecidableEq

namespace Out

def stateCount (o : Out) : CountAt → Nat
  | .caller => o.count
  | .header => (o.state.getD 1 0).toNat

def setStateCount (o : Out) : CountAt → Nat → Out
  | .caller, n => { o with count := n }
  | .header, n => { o with state := o.state.set 1 (.ofNat n) }

def write (o : Out) (offset : Nat) (src : List Word) : Out :=
  { o with state := o.state.take offset ++ src ++ o.state.drop (offset + src.length) }

end Out

/-- As `Width.refused`, but `x86_FLOAT_STATE64` is for every task. -/
def Kind.refusedByGet : Kind → Width → Architecture → Bool
  | .float, .w64, _ => false
  | _, w, architecture => w.refused architecture

def getSpecific (d : Dthread) (k : Kind) (w : Width) (at_ : CountAt) (offset : Nat) (o : Out) : KernReturn × Out :=
  if o.stateCount at_ < k.count w then (.invalidArgument, o)
  else if k.refusedByGet w d.architecture then (.invalidArgument, o)
  else (.success, (o.setStateCount at_ (k.count w)).write offset ((d.userState.area k).toList.take (k.count w)))

/-- `case x86_DEBUG_STATE64`. -/
def getDebug64 (o : Out) : KernReturn × Out := (.notSupported, o)

/-- `case x86_DEBUG_STATE32`: calls itself with the other flavor and an array of its own. -/
def getDebug32 (d : Dthread) (at_ : CountAt) (o : Out) : KernReturn × Out :=
  if o.stateCount at_ < debugCount .w32 then (.invalidArgument, o)
  else if d.architecture = .x86_64 then (.invalidArgument, o)
  else ((getDebug64 ⟨[], debugCount .w64⟩).1, o.setStateCount at_ (debugCount .w32))

/-- The width the generic flavors select "based on process type". -/
def width : Architecture → Width
  | .x86_64 => .w64
  | _ => .w32

/-- A generic case of the first `switch`: the header, and the caller's count. -/
def Out.begin (o : Out) (code : Word) (count genericCount : Nat) : Out :=
  { o.write 0 [code, .ofNat count] with count := genericCount }

def threadGetStateInternal (d : Dthread) (flavor : Flavor) (o : Out) : KernReturn × Out :=
  if d.architecture = .other then (.failure, o)
  else
    let w := width d.architecture
    match flavor with
    | .generic k =>
      if o.count < k.genericCount then (.invalidArgument, o)
      else getSpecific d k w .header 2 (o.begin (k.code w) (k.count w) k.genericCount)
    | .specific k w => getSpecific d k w .caller 0 o
    | .debug =>
      if o.count < debugGenericCount then (.invalidArgument, o)
      else
        let o := o.begin (debugCode w) (debugCount w) debugGenericCount
        match w with
        | .w32 => getDebug32 d .header o
        | .w64 => getDebug64 o
    | .debug32 => getDebug32 d .caller o
    | .debug64 => getDebug64 o
    | .unlisted => (.invalidArgument, o)

def threadGetState (d : Dthread) (flavor : Flavor) (o : Out) : KernReturn × Out := threadGetStateInternal d flavor o

/-! ## What is set is got back -/

/-- The stored registers a flavor is about. -/
def Flavor.kind : Flavor → Option Kind
  | .generic k | .specific k _ => some k
  | .debug | .debug32 | .debug64 | .unlisted => none

/-- The registers in a state array of a flavor. -/
def Flavor.registers : Flavor → List Word → List Word
  | .generic _, state => state.drop 2
  | _, state => state

theorem width_eq {w : Width} {architecture : Architecture} (h : w.refused architecture = false) :
    width architecture = w := by
  cases w <;> cases architecture <;> first | rfl | cases h

/-- The two outcomes of a set: the registers were there and are copied, or nothing happens. -/
inductive Outcome (d : Dthread) (k : Kind) (state : List Word) : KernReturn × Dthread → Prop
  | stored (hlength : k.count (width d.architecture) ≤ state.length) :
    Outcome d k state (.success, d.setUserState (d.userState.setArea k
      (memcpy (d.userState.area k) state (k.count (width d.architecture)))))
  | failed {kr : KernReturn} (hkr : kr ≠ .success) : Outcome d k state (kr, d)

theorem setSpecific_outcome (d : Dthread) (k : Kind) (w : Width) {state : List Word} {stateCount : Nat}
    (hstate : k.count w ≤ stateCount → k.count w ≤ state.length) :
    Outcome d k state (setSpecific d k w state stateCount) := by
  unfold setSpecific
  split
  · exact .failed nofun
  next hcount =>
    split
    · exact .failed nofun
    next hrefused =>
      obtain rfl := width_eq (Bool.eq_false_iff.2 hrefused)
      exact .stored (hstate (Nat.le_of_not_lt hcount))

theorem threadSetState_outcome (d : Dthread) {flavor : Flavor} {k : Kind} (hk : flavor.kind = some k)
    (state : List Word) : Outcome d k (flavor.registers state) (threadSetState d flavor state) := by
  unfold threadSetState
  split
  · exact .failed nofun
  · cases flavor with
    | generic k' =>
      cases hk
      dsimp only
      split
      · exact .failed nofun
      next hlength =>
        split
        · exact .failed nofun
        next w hw =>
          -- the array is long enough for either width, whatever count the header has
          refine setSpecific_outcome d k w fun _ => ?_
          have hle := k.count_le w
          simp only [Kind.genericCount] at hlength
          simp only [Flavor.registers, List.length_drop]
          omega
    | specific k' w =>
      cases hk
      exact setSpecific_outcome d k w fun h => h
    | debug | debug32 | debug64 | unlisted => cases hk

theorem setDebug32_failed (d : Dthread) : (setDebug32 d).1 ≠ .success ∧ (setDebug32 d).2 = d := by
  unfold setDebug32
  split <;> exact ⟨nofun, rfl⟩

/-- The other flavors never succeed. -/
theorem threadSetState_unstored (d : Dthread) {flavor : Flavor} (hk : flavor.kind = none) (state : List Word) :
    (threadSetState d flavor state).1 ≠ .success ∧ (threadSetState d flavor state).2 = d := by
  unfold threadSetState
  split
  · exact ⟨nofun, rfl⟩
  · cases flavor with
    | generic | specific => cases hk
    | debug =>
      dsimp only
      split
      · exact ⟨nofun, rfl⟩
      · split
        · exact ⟨nofun, rfl⟩
        · exact setDebug32_failed d
        · exact ⟨nofun, rfl⟩
    | debug32 => exact setDebug32_failed d
    | debug64 | unlisted => exact ⟨nofun, rfl⟩

/-- Only the first user state is touched. -/
theorem threadSetState_frame (d : Dthread) (flavor : Flavor) (state : List Word) :
    ∃ r, (threadSetState d flavor state).2 = d.setUserState r := by
  cases hk : flavor.kind with
  | none => exact ⟨d.userState, by rw [(threadSetState_unstored d hk state).2, d.setUserState_userState]⟩
  | some k =>
    have houtcome := threadSetState_outcome d hk state
    generalize threadSetState d flavor state = r at houtcome
    cases houtcome with
    | stored => exact ⟨_, rfl⟩
    | failed => exact ⟨d.userState, d.setUserState_userState.symm⟩

/-- The registers a task reads of a kind. -/
def Dthread.registers (d : Dthread) (k : Kind) : List Word :=
  (d.userState.area k).toList.take (k.count (width d.architecture))

theorem Dthread.length_registers (d : Dthread) (k : Kind) :
    (d.registers k).length = k.count (width d.architecture) := by
  simp [Dthread.registers, k.count_le]

/-- Its own width is never refused. -/
theorem refusedByGet_width {architecture : Architecture} (h : architecture ≠ .other) (k : Kind) :
    k.refusedByGet (width architecture) architecture = false := by
  cases architecture with
  | x86_64 | i386 => cases k <;> rfl
  | other => exact absurd rfl h

/-- The task's own specific flavor. -/
theorem threadGetState_specific {d : Dthread} (ha : d.architecture ≠ .other) {k : Kind} {o : Out}
    (hcount : k.count (width d.architecture) ≤ o.count) :
    threadGetState d (.specific k (width d.architecture)) o =
      (.success, ⟨d.registers k ++ o.state.drop (k.count (width d.architecture)), k.count (width d.architecture)⟩) := by
  have hnot : ¬ o.stateCount .caller < k.count (width d.architecture) := Nat.not_lt.2 hcount
  simp only [threadGetState, threadGetStateInternal, if_neg ha, getSpecific, if_neg hnot, refusedByGet_width ha k]
  have hlength := d.length_registers k
  simp only [Dthread.registers] at hlength ⊢
  simp [Out.write, Out.setStateCount, hlength]

/-- The generic flavor: the header, and behind it the same. -/
theorem threadGetState_generic {d : Dthread} (ha : d.architecture ≠ .other) {k : Kind} {o : Out}
    (hcount : k.genericCount ≤ o.count) :
    threadGetState d (.generic k) o =
      (.success, ⟨k.code (width d.architecture) :: .ofNat (k.count (width d.architecture)) ::
        (d.registers k ++ o.state.drop (2 + k.count (width d.architecture))), k.genericCount⟩) := by
  have hnot : ¬ o.count < k.genericCount := Nat.not_lt.2 hcount
  have hbegin : o.begin (k.code (width d.architecture)) (k.count (width d.architecture)) k.genericCount =
      ⟨k.code (width d.architecture) :: .ofNat (k.count (width d.architecture)) :: o.state.drop 2,
        k.genericCount⟩ := rfl
  simp only [threadGetState, threadGetStateInternal, if_neg ha, if_neg hnot, hbegin, getSpecific]
  have hheader : ¬ (⟨k.code (width d.architecture) :: .ofNat (k.count (width d.architecture)) :: o.state.drop 2,
      k.genericCount⟩ : Out).stateCount .header < k.count (width d.architecture) :=
    Nat.not_lt.2 (Nat.le_of_eq (k.count_toNat _).symm)
  have hlength := d.length_registers k
  simp only [if_neg hheader, refusedByGet_width ha k, Dthread.registers] at hlength ⊢
  simp [Out.write, Out.setStateCount, hlength, Nat.add_comm 2]

/-- What `thread_get_state` answers depends on the architecture and the flavor's own registers. -/
theorem threadGetState_congr {d d' : Dthread} {flavor : Flavor} {k : Kind} (hk : flavor.kind = some k)
    (ha : d'.architecture = d.architecture) (harea : d'.userState.area k = d.userState.area k) (o : Out) :
    threadGetState d' flavor o = threadGetState d flavor o := by
  cases flavor with
  | generic k' | specific k' w =>
    cases hk
    simp only [threadGetState, threadGetStateInternal, getSpecific, ha, harea]
  | debug | debug32 | debug64 | unlisted => cases hk

/-! ## Nested signals -/

namespace Dthread

def sigexcEnter2 (d : Dthread) : Dthread := { d with allocated := .zeroed :: d.allocated }

/-- `free` of the state embedded in the thread is not survived. -/
def sigexcExit (d : Dthread) : Except NestingFault Dthread :=
  match d.allocated with
  | [] => .error .freesDefaultState
  | _ :: rest => .ok { d with allocated := rest }

/-- What `Nesting` keeps of the user states. -/
def userStates (d : Dthread) : List UserState := d.allocated.map (fun _ => .allocated) ++ [.defaultState]

theorem sigexcEnter2_userStates (d : Dthread) : d.sigexcEnter2.userStates = DarlingServer.sigexcEnter2 d.userStates :=
  rfl

theorem sigexcExit_userStates (d : Dthread) :
    DarlingServer.sigexcExit d.userStates = d.sigexcExit.map userStates := by
  obtain ⟨architecture, defaultState, allocated⟩ := d
  cases allocated <;> rfl

end Dthread

inductive Op where
  | set (flavor : Flavor) (state : List Word)
  | get (flavor : Flavor) (o : Out)
  | enter2
  | exit
  deriving DecidableEq

def Dthread.op (d : Dthread) : Op → Except NestingFault Dthread
  | .set flavor state => .ok (threadSetState d flavor state).2
  | .get _ _ => .ok d
  | .enter2 => .ok d.sigexcEnter2
  | .exit => d.sigexcExit

def Dthread.run (d : Dthread) : List Op → Except NestingFault Dthread
  | [] => .ok d
  | op :: ops =>
    match d.op op with
    | .ok d => d.run ops
    | .error fault => .error fault

/-- Sets and gets with properly nested enters and exits. -/
inductive Balanced : List Op → Prop
  | nil : Balanced []
  | set {flavor state ops} : Balanced ops → Balanced (.set flavor state :: ops)
  | get {flavor o ops} : Balanced ops → Balanced (.get flavor o :: ops)
  | nest {inner ops} : Balanced inner → Balanced ops → Balanced (.enter2 :: (inner ++ .exit :: ops))

theorem Dthread.run_append {d d' : Dthread} {ops : List Op} (h : d.run ops = .ok d') (rest : List Op) :
    d.run (ops ++ rest) = d'.run rest := by
  induction ops generalizing d with
  | nil =>
    cases h
    rfl
  | cons op ops ih =>
    simp only [List.cons_append, Dthread.run] at h ⊢
    split at h
    · exact ih h
    · cases h

/-- A state that was entered and left again, whatever became of it. -/
theorem Dthread.run_exit (d : Dthread) (r : Registers) (ops : List Op) :
    (d.sigexcEnter2.setUserState r).run (.exit :: ops) = d.run ops := rfl

/-- Balanced calls reach no deeper than the first user state. -/
theorem Balanced.run {ops : List Op} (h : Balanced ops) (d : Dthread) : ∃ r, d.run ops = .ok (d.setUserState r) := by
  induction h generalizing d with
  | nil => exact ⟨d.userState, by rw [d.setUserState_userState]; rfl⟩
  | @set flavor state ops _ ih =>
    obtain ⟨r, hr⟩ := threadSetState_frame d flavor state
    obtain ⟨r', hr'⟩ := ih (d.setUserState r)
    refine ⟨r', ?_⟩
    rw [← d.setUserState_setUserState r r', ← hr', ← hr]
    rfl
  | get _ ih => exact ih d
  | nest _ _ ihInner ih =>
    obtain ⟨r, hr⟩ := ihInner d.sigexcEnter2
    obtain ⟨r', hr'⟩ := ih d
    refine ⟨r', ?_⟩
    rw [← hr', ← d.run_exit r]
    exact Dthread.run_append hr _

/-- Between an enter and its exit: nothing is left. -/
theorem Balanced.restores {ops : List Op} (h : Balanced ops) (d : Dthread) :
    d.run (.enter2 :: (ops ++ [.exit])) = .ok d := by
  obtain ⟨r, hr⟩ := h.run d.sigexcEnter2
  calc d.run (.enter2 :: (ops ++ [.exit]))
      = d.sigexcEnter2.run (ops ++ [.exit]) := rfl
    _ = (d.sigexcEnter2.setUserState r).run [.exit] := Dthread.run_append hr _
    _ = .ok d := rfl

/-! ## Together -/

/-- With the task's own flavor and with the generic one `thread_get_state` gives these
registers, under the flavor and the count of the task's architecture. -/
structure Gives (d : Dthread) (k : Kind) (registers : List Word) : Prop where
  specific : ∀ o : Out, k.count (width d.architecture) ≤ o.count →
    threadGetState d (.specific k (width d.architecture)) o =
      (.success, ⟨registers ++ o.state.drop (k.count (width d.architecture)), k.count (width d.architecture)⟩)
  generic : ∀ o : Out, k.genericCount ≤ o.count →
    threadGetState d (.generic k) o =
      (.success, ⟨k.code (width d.architecture) :: .ofNat (k.count (width d.architecture)) ::
        (registers ++ o.state.drop (2 + k.count (width d.architecture))), k.genericCount⟩)

theorem Dthread.gives {d : Dthread} (ha : d.architecture ≠ .other) (k : Kind) : Gives d k (d.registers k) :=
  ⟨fun _ hcount => threadGetState_specific ha hcount, fun _ hcount => threadGetState_generic ha hcount⟩

/-- What a successful set leaves. -/
structure Stored (d d' : Dthread) (k : Kind) (registers : List Word) : Prop where
  gives : Gives d' k registers
  length : registers.length = k.count (width d.architecture)
  other : ∀ flavor k', flavor.kind = some k' → k' ≠ k → ∀ o, threadGetState d' flavor o = threadGetState d flavor o

theorem stored_of_success {d : Dthread} (ha : d.architecture ≠ .other) {flavor : Flavor} {k : Kind}
    (hk : flavor.kind = some k) {state : List Word} (hsuccess : (threadSetState d flavor state).1 = .success) :
    Stored d (threadSetState d flavor state).2 k
      ((flavor.registers state).take (k.count (width d.architecture))) := by
  have houtcome := threadSetState_outcome d hk state
  generalize threadSetState d flavor state = r at houtcome hsuccess
  cases houtcome with
  | failed hkr => exact absurd hsuccess hkr
  | stored hlength =>
    refine ⟨?_, by simp [hlength], ?_⟩
    · have hgives := Dthread.gives (d := d.setUserState (d.userState.setArea k
        (memcpy (d.userState.area k) (flavor.registers state) (k.count (width d.architecture)))))
        (by simpa using ha) k
      simpa [Dthread.registers, take_memcpy _ (k.count_le _) hlength] using hgives
    · intro flavor' k' hk' hne o
      exact threadGetState_congr hk' (by simp) (by simp [Registers.area_setArea_other _ _ hne]) o

theorem unchanged_of_failure (d : Dthread) (flavor : Flavor) (state : List Word)
    (hfailure : (threadSetState d flavor state).1 ≠ .success) : (threadSetState d flavor state).2 = d := by
  cases hk : flavor.kind with
  | none => exact (threadSetState_unstored d hk state).2
  | some k =>
    have houtcome := threadSetState_outcome d hk state
    generalize threadSetState d flavor state = r at houtcome hfailure
    cases houtcome with
    | stored => exact absurd rfl hfailure
    | failed => rfl

/-- The registers of a thread go round and are apart for every signal level. -/
theorem registers_round_trip {d : Dthread} (ha : d.architecture ≠ .other) :
    (∀ flavor k state, flavor.kind = some k → (threadSetState d flavor state).1 = .success →
      Stored d (threadSetState d flavor state).2 k
        ((flavor.registers state).take (k.count (width d.architecture)))) ∧
    (∀ flavor state, (threadSetState d flavor state).1 ≠ .success → (threadSetState d flavor state).2 = d) ∧
    (∀ ops, Balanced ops → d.run (.enter2 :: (ops ++ [.exit])) = .ok d) :=
  ⟨fun _ _ _ hk hsuccess => stored_of_success ha hk hsuccess, unchanged_of_failure d, fun _ hops => hops.restores d⟩

/-- A generic set on a 32-bit task, and a signal that sets other registers and is left again. -/
theorem registers_round_trip_i386 : ∃ d : Dthread, d.architecture = .i386 ∧
    (threadSetState d (.generic .thread) (1 :: 16 :: List.replicate 42 7)).1 = .success ∧
    Gives (threadSetState d (.generic .thread) (1 :: 16 :: List.replicate 42 7)).2 .thread (List.replicate 16 7) ∧
    (threadSetState d (.specific .thread .w64) (List.replicate 42 7)).2 = d ∧
    d.run [.enter2, .set (.specific .float .w32) (List.replicate 131 1), .exit] = .ok d := by
  have hround := registers_round_trip (d := ⟨.i386, .zeroed, []⟩) nofun
  exact ⟨⟨.i386, .zeroed, []⟩, rfl, rfl, (hround.1 (.generic .thread) .thread _ rfl rfl).gives,
    hround.2.1 (.specific .thread .w64) _ nofun, hround.2.2 [_] (.set .nil)⟩

end DarlingServer.RegisterState
