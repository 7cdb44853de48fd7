import DarlingServer.Lib.Mappings
import DarlingServer.Lib.Runs
/-!
# The stack pool

`StackPool` (stack-pool.cpp) keeps stacks of one size for the microthreads. `allocate` hands
out an idle stack, or maps one if there is none; `free` takes a stack back and keeps it idle,
or unmaps it. Both run under the pool's mutex, so a step is a whole call. The answers of
`mmap` and `munmap` are part of the call: an error, or what they did.

`Sound`: what is idle or outstanding is exactly what is mapped, so no stack is handed out
twice and none is lost (`Accounted`). The number of idle stacks is another matter. `free`
unmaps a stack only if there are already more idle ones than the pool wants, so a free that
finds as many as it wants makes one more (`idle_le_iff`), and no free after it makes fewer.
There is never more than one too many (`idle_le_succ`), and every pool can get there
(`exists_one_too_many`).
-/

namespace DarlingServer.StackPool

open Runs Mappings

abbrev Errno := Nat

/-- What the pool is built with, and the system's page size. -/
structure Pool where
  idleStackCount : Nat
  stackSize : Nat
  useGuardPages : Bool
  pageSize : Nat

/-- `StackPool::Stack`. -/
structure Stack where
  base : Nat := 0
  size : Nat := 0
  usesGuardPages : Bool := false
deriving DecidableEq, Repr

/-- The pool's `_stacks`, last one first to go, the stacks handed out, and the areas mapped for all of them. -/
structure State where
  idleStacks : List Nat := []
  outstanding : List Stack := []
  memory : Space := Space.empty

/-! ## Mapping and unmapping a stack -/

/-- `_allocate`, with the answer of `mmap`: where the new area is, which has to be vacant. -/
def allocateStack (pageSize stackSize : Nat) (useGuardPages : Bool) (memory : Space) :
    Except Errno Nat → Option (Except Errno Nat × Space)
  | .error errno => some (.error errno, memory)
  | .ok start =>
    let area : Area := ⟨start, if useGuardPages then stackSize + pageSize * 2 else stackSize⟩
    if h : memory.Vacant area then
      some (.ok (if useGuardPages then start + pageSize else start), memory.map area h)
    else none

/-- The range that `_free` unmaps. -/
def stackArea (pageSize stackSize : Nat) (useGuardPages : Bool) (stack : Nat) : Area :=
  if useGuardPages then ⟨stack - pageSize, stackSize + pageSize * 2⟩ else ⟨stack, stackSize⟩

/-- `_free`, with the answer of `munmap`. -/
def freeStack (pageSize stackSize : Nat) (useGuardPages : Bool) (stack : Nat) (memory : Space) :
    Except Errno Unit → Except Errno Unit × Space
  | .error errno => (.error errno, memory)
  | .ok () => (.ok (), memory.unmap (stackArea pageSize stackSize useGuardPages stack))

/-! ## The calls -/

/-- The loop of the constructor, with the answers of `mmap`. There is no pool if one of them is an error. -/
def fill (p : Pool) : Nat → List (Except Errno Nat) → State → Option State
  | 0, _, s => some s
  | _ + 1, [], _ => none
  | i + 1, mmap :: mmaps, s =>
    match allocateStack p.pageSize p.stackSize p.useGuardPages s.memory mmap with
    | some (.ok stack, memory) => fill p i mmaps { s with idleStacks := s.idleStacks ++ [stack], memory := memory }
    | _ => none

/-- `StackPool::StackPool`. -/
def stackPool (p : Pool) (mmaps : List (Except Errno Nat)) : Option State := fill p p.idleStackCount mmaps {}

/-- `Stack` as `allocate` fills it in. -/
def Pool.stack (p : Pool) (base : Nat) : Stack := ⟨base, p.stackSize, p.useGuardPages⟩

/-- `allocate`. What `_allocate` throws comes out of it. -/
def State.allocate (p : Pool) (s : State) (mmap : Except Errno Nat) : Option (Except Errno Stack × State) :=
  match s.idleStacks.getLast? with
  | some base =>
    some (.ok (p.stack base),
      { s with idleStacks := s.idleStacks.dropLast, outstanding := p.stack base :: s.outstanding })
  | none =>
    match allocateStack p.pageSize p.stackSize p.useGuardPages s.memory mmap with
    | some (.ok base, memory) =>
      some (.ok (p.stack base), { s with outstanding := p.stack base :: s.outstanding, memory := memory })
    | some (.error errno, memory) => some (.error errno, { s with memory := memory })
    | none => none

/-- `free`; `none` if an assertion fails. What `_free` throws comes out of it before the stack is cleared. -/
def State.free (p : Pool) (s : State) (stack : Stack) (munmap : Except Errno Unit) :
    Option (Except Errno Unit × State) :=
  if stack.size = p.stackSize ∧ stack.usesGuardPages = p.useGuardPages then
    if s.idleStacks.length > p.idleStackCount then
      match freeStack p.pageSize stack.size stack.usesGuardPages stack.base s.memory munmap with
      | (.ok (), memory) => some (.ok (), { s with outstanding := s.outstanding.erase stack, memory := memory })
      | (.error errno, memory) => some (.error errno, { s with memory := memory })
    else
      some (.ok (), { s with idleStacks := s.idleStacks ++ [stack.base], outstanding := s.outstanding.erase stack })
  else none

/-! ## Runs -/

inductive Label
  | allocate (mmap : Except Errno Nat)
  | free (stack : Stack) (munmap : Except Errno Unit)

def step (p : Pool) (s : State) : Label → Option State
  | .allocate mmap => (s.allocate p mmap).map Prod.snd
  | .free stack munmap => (s.free p stack munmap).map Prod.snd

/-- A pool just built. -/
def Init (p : Pool) (s : State) : Prop := ∃ mmaps, stackPool p mmaps = some s

/-- Only outstanding stacks are freed. -/
def Proper (s : State) : Label → Prop
  | .allocate _ => True
  | .free stack _ => stack ∈ s.outstanding

instance (s : State) : (l : Label) → Decidable (Proper s l)
  | .allocate _ => inferInstanceAs (Decidable True)
  | .free stack _ => inferInstanceAs (Decidable (stack ∈ s.outstanding))

/-- A free finds fewer idle stacks than the pool wants. -/
def HasRoom (p : Pool) (s : State) : Label → Prop
  | .allocate _ => True
  | .free _ _ => s.idleStacks.length < p.idleStackCount

instance (p : Pool) (s : State) : (l : Label) → Decidable (HasRoom p s l)
  | .allocate _ => inferInstanceAs (Decidable True)
  | .free _ _ => inferInstanceAs (Decidable (s.idleStacks.length < p.idleStackCount))

/-! ## What a call does -/

/-- The area of one of the pool's stacks. -/
def Pool.area (p : Pool) (base : Nat) : Area := stackArea p.pageSize p.stackSize p.useGuardPages base

/-- A new stack is one whose area is what was mapped for it, guard pages included. -/
theorem allocateStack_ok {p : Pool} {memory memory' : Space} {mmap : Except Errno Nat} {base : Nat}
    (h : allocateStack p.pageSize p.stackSize p.useGuardPages memory mmap = some (.ok base, memory')) :
    ∃ hv : memory.Vacant (p.area base), memory' = memory.map (p.area base) hv := by
  cases mmap with
  | error errno => simp [allocateStack] at h
  | ok start =>
    have harea : p.area (if p.useGuardPages then start + p.pageSize else start) =
        ⟨start, if p.useGuardPages then p.stackSize + p.pageSize * 2 else p.stackSize⟩ := by
      cases hg : p.useGuardPages <;> simp [Pool.area, stackArea, hg]
    rw [allocateStack, ← harea] at h
    by_cases hv : memory.Vacant (p.area (if p.useGuardPages then start + p.pageSize else start))
    · simp only [dif_pos hv, Option.some.injEq, Prod.mk.injEq, Except.ok.injEq] at h
      obtain ⟨rfl, rfl⟩ := h
      exact ⟨hv, rfl⟩
    · simp only [dif_neg hv] at h
      cases h

theorem allocateStack_error {pageSize stackSize : Nat} {useGuardPages : Bool} {memory memory' : Space}
    {mmap : Except Errno Nat} {errno : Errno}
    (h : allocateStack pageSize stackSize useGuardPages memory mmap = some (.error errno, memory')) :
    memory' = memory := by
  cases mmap with
  | error e =>
    simp only [allocateStack, Option.some.injEq, Prod.mk.injEq] at h
    exact h.2.symm
  | ok start =>
    dsimp only [allocateStack] at h
    split at h <;> simp at h

/-- What a call can do to the pool. -/
inductive Moves (p : Pool) (s : State) : Label → State → Prop
  | reuse {mmap idleStacks base} : s.idleStacks = idleStacks ++ [base] →
      Moves p s (.allocate mmap) { s with idleStacks := idleStacks, outstanding := p.stack base :: s.outstanding }
  | map {mmap base} (hv : s.memory.Vacant (p.area base)) : s.idleStacks = [] →
      Moves p s (.allocate mmap)
        { s with outstanding := p.stack base :: s.outstanding, memory := s.memory.map (p.area base) hv }
  | mapFails {mmap} : s.idleStacks = [] → Moves p s (.allocate mmap) s
  | keep {base munmap} : s.idleStacks.length ≤ p.idleStackCount →
      Moves p s (.free (p.stack base) munmap)
        { s with idleStacks := s.idleStacks ++ [base], outstanding := s.outstanding.erase (p.stack base) }
  | unmap {base munmap} : p.idleStackCount < s.idleStacks.length →
      Moves p s (.free (p.stack base) munmap)
        { s with outstanding := s.outstanding.erase (p.stack base), memory := s.memory.unmap (p.area base) }
  | unmapFails {stack munmap} : p.idleStackCount < s.idleStacks.length → Moves p s (.free stack munmap) s

theorem allocate_moves {p : Pool} {s : State} {mmap : Except Errno Nat} {r : Except Errno Stack × State}
    (h : s.allocate p mmap = some r) : Moves p s (.allocate mmap) r.2 := by
  unfold State.allocate at h
  split at h
  · next base hlast =>
    simp only [Option.some.injEq] at h
    subst h
    exact .reuse (List.dropLast_append_getLast? base hlast).symm
  · next hlast =>
    have hnil : s.idleStacks = [] := List.getLast?_eq_none_iff.1 hlast
    split at h
    · next base memory halloc =>
      obtain ⟨hv, rfl⟩ := allocateStack_ok halloc
      simp only [Option.some.injEq] at h
      subst h
      exact .map hv hnil
    · next errno memory halloc =>
      simp only [Option.some.injEq, allocateStack_error halloc] at h
      subst h
      exact .mapFails hnil
    · cases h

theorem outstanding_allocate {p : Pool} {s s' : State} {mmap : Except Errno Nat} {stack : Stack}
    (h : s.allocate p mmap = some (.ok stack, s')) : s'.outstanding = stack :: s.outstanding := by
  unfold State.allocate at h
  split at h
  · cases h
    rfl
  · split at h <;> cases h
    rfl

theorem free_moves {p : Pool} {s : State} {stack : Stack} {munmap : Except Errno Unit}
    {r : Except Errno Unit × State} (h : s.free p stack munmap = some r) : Moves p s (.free stack munmap) r.2 := by
  obtain ⟨base, size, usesGuardPages⟩ := stack
  unfold State.free at h
  split at h
  · next hassert =>
    obtain ⟨rfl, rfl⟩ := hassert
    split at h
    · next hmore =>
      cases munmap with
      | ok =>
        simp only [freeStack, Option.some.injEq] at h
        subst h
        exact .unmap hmore
      | error errno =>
        simp only [freeStack, Option.some.injEq] at h
        subst h
        exact .unmapFails hmore
    · next hmore =>
      simp only [Option.some.injEq] at h
      subst h
      exact .keep (Nat.le_of_not_lt hmore)
  · cases h

theorem step_moves {p : Pool} {s s' : State} {l : Label} (h : step p s l = some s') : Moves p s l s' := by
  cases l with
  | allocate mmap =>
    obtain ⟨r, hr, rfl⟩ := Option.map_eq_some_iff.1 h
    exact allocate_moves hr
  | free stack munmap =>
    obtain ⟨r, hr, rfl⟩ := Option.map_eq_some_iff.1 h
    exact free_moves hr

/-! ## Where the stacks are -/

/-- The stacks that are idle or outstanding. -/
def State.held (s : State) : List Nat := s.idleStacks ++ s.outstanding.map Stack.base

/-- What is mapped is what the pool has idle or handed out, and it handed out its own kind of stack. -/
structure Sound (p : Pool) (s : State) : Prop where
  kind : ∀ stack ∈ s.outstanding, stack = p.stack stack.base
  live : (s.held.map p.area).Perm s.memory.live

/-- A stack that is given back leaves the others. -/
theorem held_erase {s : State} {stack : Stack} (h : stack ∈ s.outstanding) :
    s.held.Perm (stack.base :: (s.idleStacks ++ (s.outstanding.erase stack).map Stack.base)) := by
  have hout := (List.perm_cons_erase h).map Stack.base
  exact (hout.append_left s.idleStacks).trans List.perm_middle

/-- A stack pushed on the idle ones joins those held. -/
theorem perm_push (idle outstanding : List Nat) (base : Nat) :
    ((idle ++ [base]) ++ outstanding).Perm (base :: (idle ++ outstanding)) := by
  rw [List.append_assoc, List.singleton_append]
  exact List.perm_middle

theorem Sound.fill {p : Pool} (i : Nat) (mmaps : List (Except Errno Nat)) {s s' : State} (hs : Sound p s)
    (h : fill p i mmaps s = some s') :
    Sound p s' ∧ s'.idleStacks.length = s.idleStacks.length + i := by
  induction i generalizing mmaps s with
  | zero =>
    simp only [StackPool.fill, Option.some.injEq] at h
    subst h
    exact ⟨hs, rfl⟩
  | succ i ih =>
    cases mmaps with
    | nil => simp [StackPool.fill] at h
    | cons mmap mmaps =>
      simp only [StackPool.fill] at h
      split at h
      · next base memory halloc =>
        obtain ⟨hv, rfl⟩ := allocateStack_ok halloc
        have hnext : Sound p
            { s with idleStacks := s.idleStacks ++ [base], memory := s.memory.map (p.area base) hv } := by
          refine ⟨hs.kind, ?_⟩
          exact ((perm_push _ _ base).map p.area).trans (hs.live.cons _)
        obtain ⟨hsound, hlen⟩ := ih mmaps hnext h
        simp only [List.length_append, List.length_singleton] at hlen
        exact ⟨hsound, by omega⟩
      · cases h

/-- A pool just built has as many idle stacks as it wants. -/
theorem sound_init {p : Pool} {s : State} (h : Init p s) : Sound p s ∧ s.idleStacks.length = p.idleStackCount := by
  obtain ⟨mmaps, h⟩ := h
  have hempty : Sound p {} := ⟨by simp, .nil⟩
  obtain ⟨hsound, hlen⟩ := hempty.fill p.idleStackCount mmaps h
  exact ⟨hsound, by simpa using hlen⟩

theorem Sound.moves {p : Pool} {s s' : State} {l : Label} (hs : Sound p s) (hl : Proper s l)
    (h : Moves p s l s') : Sound p s' := by
  cases h with
  | reuse hstacks =>
    refine ⟨List.forall_mem_cons.2 ⟨rfl, hs.kind⟩, ?_⟩
    have hlive := hs.live
    simp only [State.held, hstacks, List.append_assoc, List.singleton_append] at hlive
    exact hlive
  | map hv hstacks =>
    refine ⟨List.forall_mem_cons.2 ⟨rfl, hs.kind⟩, ?_⟩
    have hlive := hs.live
    simp only [State.held, hstacks, List.nil_append] at hlive ⊢
    exact hlive.cons _
  | mapFails | unmapFails => exact hs
  | @keep base munmap _ =>
    refine ⟨fun stack h => hs.kind stack (List.mem_of_mem_erase h), ?_⟩
    exact (((perm_push _ _ base).trans (held_erase hl).symm).map p.area).trans hs.live
  | @unmap base munmap _ =>
    refine ⟨fun stack h => hs.kind stack (List.mem_of_mem_erase h), ?_⟩
    -- `munmap` gets the range of a mapped area, so it takes away no other stack
    have hheld := ((held_erase hl).map p.area).symm.trans hs.live
    have hmem : p.area base ∈ s.memory.live := hheld.subset List.mem_cons_self
    exact (hheld.trans (Space.live_unmap hmem).symm).cons_inv

theorem sound_reach {p : Pool} {guard : State → Label → Prop} (hg : ∀ s l, guard s l → Proper s l) {s : State}
    (h : Reach (step p) guard (Init p) s) : Sound p s :=
  h.inv (Sound p) (fun _ h0 => (sound_init h0).1) fun s l _ hs hl hstep => hs.moves (hg s l hl) (step_moves hstep)

/-- Idle and outstanding are apart, neither has a stack twice, and each area ever mapped is
that of one of them or was unmapped. An area may be mapped again after it was unmapped, which
makes it two. -/
structure Accounted (p : Pool) (s : State) : Prop where
  idle : s.idleStacks.Nodup
  outstanding : (s.outstanding.map Stack.base).Nodup
  disjoint : s.idleStacks.Disjoint (s.outstanding.map Stack.base)
  once : (s.idleStacks.map p.area ++ (s.outstanding.map Stack.base).map p.area ++ s.memory.unmapped).Perm
    s.memory.mapped

theorem Sound.accounted {p : Pool} {s : State} (h : Sound p s) : Accounted p s := by
  have hheld : s.held.Nodup := List.Nodup.of_map p.area (h.live.nodup_iff.2 s.memory.live_nodup)
  obtain ⟨hidle, hout, hne⟩ := List.nodup_append.1 hheld
  refine ⟨hidle, hout, fun base hi ho => hne base hi base ho rfl, ?_⟩
  rw [← List.map_append]
  exact (h.live.append_right s.memory.unmapped).trans s.memory.account

/-- The stack that `allocate` hands out is one that nobody has. -/
theorem Sound.allocate_fresh {p : Pool} {s s' : State} {mmap : Except Errno Nat} {stack : Stack} (h : Sound p s)
    (halloc : s.allocate p mmap = some (.ok stack, s')) : ∀ other ∈ s.outstanding, other.base ≠ stack.base := by
  have hproper : Proper s (.allocate mmap) := trivial
  have hsound : Sound p s' := h.moves hproper (allocate_moves halloc)
  have hnext := hsound.accounted.outstanding
  rw [outstanding_allocate halloc, List.map_cons, List.nodup_cons] at hnext
  intro other hother heq
  exact hnext.1 (heq ▸ List.mem_map_of_mem hother)

/-- The assertions of `free` hold for every outstanding stack. -/
theorem Sound.free_isSome {p : Pool} {s : State} (h : Sound p s) {stack : Stack} (hs : stack ∈ s.outstanding)
    (munmap : Except Errno Unit) : (s.free p stack munmap).isSome := by
  have hkind : stack.size = p.stackSize ∧ stack.usesGuardPages = p.useGuardPages := by
    rw [h.kind stack hs]
    exact ⟨rfl, rfl⟩
  unfold State.free
  rw [if_pos hkind]
  split
  · cases munmap <;> rfl
  · rfl

/-! ## How many are idle -/

/-- There is at most one idle stack too many. -/
theorem idle_le_succ {p : Pool} {guard : State → Label → Prop} {s : State}
    (h : Reach (step p) guard (Init p) s) : s.idleStacks.length ≤ p.idleStackCount + 1 := by
  refine h.inv (fun s => s.idleStacks.length ≤ p.idleStackCount + 1) (fun s h0 => ?_) fun s l s' hle _ hstep => ?_
  · rw [(sound_init h0).2]
    exact Nat.le_succ _
  · cases step_moves hstep with
    | reuse hstacks =>
      rw [hstacks, List.length_append] at hle
      exact Nat.le_of_add_right_le hle
    | keep hroom =>
      simp only [List.length_append, List.length_singleton]
      exact Nat.succ_le_succ hroom
    | map | mapFails | unmap | unmapFails => exact hle

/-- A call ends with no more idle stacks than wanted exactly if it does not free one
into a pool that has as many already. -/
theorem idle_le_iff {p : Pool} {s s' : State} {l : Label} (hle : s.idleStacks.length ≤ p.idleStackCount + 1)
    (h : Moves p s l s') : s'.idleStacks.length ≤ p.idleStackCount ↔ HasRoom p s l := by
  cases h with
  | reuse hstacks =>
    rw [hstacks, List.length_append, List.length_singleton] at hle
    exact iff_of_true (Nat.le_of_succ_le_succ hle) trivial
  | map _ hstacks | mapFails hstacks =>
    refine iff_of_true ?_ trivial
    simp [hstacks]
  | keep =>
    simp only [HasRoom, List.length_append, List.length_singleton]
    exact Nat.succ_le_iff
  | unmap hmore | unmapFails hmore =>
    refine iff_of_false (Nat.not_le_of_lt hmore) ?_
    simp only [HasRoom]
    omega

/-- In every run that frees outstanding stacks only, the stacks are accounted for, and a call
keeps the bound exactly if it is no free that finds as many idle stacks as the pool wants. A
run without such a free keeps the bound in every state. -/
theorem pool_bound_iff (p : Pool) :
    (∀ s, Reach (step p) Proper (Init p) s → Accounted p s ∧
      ∀ l s', Proper s l → step p s l = some s' → (s'.idleStacks.length ≤ p.idleStackCount ↔ HasRoom p s l)) ∧
    ∀ s, Reach (step p) (fun s l => Proper s l ∧ HasRoom p s l) (Init p) s →
      Accounted p s ∧ s.idleStacks.length ≤ p.idleStackCount := by
  constructor
  · intro s h
    refine ⟨(sound_reach (fun _ _ hl => hl) h).accounted, fun l s' _ hstep => ?_⟩
    exact idle_le_iff (idle_le_succ h) (step_moves hstep)
  · intro s h
    refine ⟨(sound_reach (fun _ _ hl => hl.1) h).accounted, ?_⟩
    cases h with
    | init h0 => exact Nat.le_of_eq (sound_init h0).2
    | step hr hl hstep => exact (idle_le_iff (idle_le_succ hr) (step_moves hstep)).2 hl.2

/-- The stacks of `Thread::stackPool` on pages of 4 KiB, in a pool that wants one idle. -/
def onePool : Pool := ⟨1, 64 * 1024, true, 4096⟩

/-- A pool built and a list of calls replayed on it. -/
theorem exists_reach_built {p : Pool} {guard : State → Label → Prop} {ok : State → Label → Bool}
    (hok : ∀ s l, ok s l = true → guard s l) {mmaps : List (Except Errno Nat)} {ls : List Label} {idle : List Nat}
    (h : ((stackPool p mmaps).bind (exec (step p) ok · ls)).map (·.idleStacks) = some idle) :
    ∃ s, Reach (step p) guard (Init p) s ∧ s.idleStacks = idle := by
  cases hbuilt : stackPool p mmaps with
  | none => simp [hbuilt] at h
  | some s₀ =>
    rw [hbuilt] at h
    have hinit : Init p s₀ := ⟨mmaps, hbuilt⟩
    exact exists_reach hok (.init hinit) h

/-- A stack taken and given back. -/
theorem onePool_bound : ∃ s, Reach (step onePool) (fun s l => Proper s l ∧ HasRoom onePool s l) (Init onePool) s ∧
    s.idleStacks = [0x101000] ∧ Accounted onePool s ∧ s.idleStacks.length ≤ onePool.idleStackCount := by
  have hrun : ((stackPool onePool [.ok 0x100000]).bind
      (exec (step onePool) (fun s l => decide (Proper s l ∧ HasRoom onePool s l)) ·
        [Label.allocate (.ok 0x200000), .free (onePool.stack 0x101000) (.ok ())])).map (·.idleStacks) =
      some [0x101000] := by
    decide
  obtain ⟨s, hs, hstacks⟩ := exists_reach_built (fun _ _ h => of_decide_eq_true h) hrun
  exact ⟨s, hs, hstacks, (pool_bound_iff onePool).2 s hs⟩

/-- Two stacks taken and given back: the second finds one idle and is kept too. -/
theorem onePool_exceeds : ∃ s, Reach (step onePool) Proper (Init onePool) s ∧
    s.idleStacks = [0x101000, 0x201000] ∧ ¬ s.idleStacks.length ≤ onePool.idleStackCount := by
  have hrun : ((stackPool onePool [.ok 0x100000]).bind
      (exec (step onePool) (fun s l => decide (Proper s l)) ·
        [Label.allocate (.ok 0x200000), .allocate (.ok 0x200000), .free (onePool.stack 0x101000) (.ok ()),
          .free (onePool.stack 0x201000) (.ok ())])).map (·.idleStacks) =
      some [0x101000, 0x201000] := by
    decide
  obtain ⟨s, hs, hstacks⟩ := exists_reach_built (fun _ _ h => of_decide_eq_true h) hrun
  refine ⟨s, hs, hstacks, ?_⟩
  rw [hstacks]
  decide

/-! ## One too many

`pool_bound_iff` says which frees break the bound. They come up in every pool: one more
stack out than the pool wants idle, and all of them given back. -/

section

variable {p : Pool} {s : State}

theorem exists_allocateStack (memory : Space) (h : 0 < (p.area 0).length) :
    ∃ mmap base memory', allocateStack p.pageSize p.stackSize p.useGuardPages memory mmap =
      some (.ok base, memory') := by
  have hlength : (p.area 0).length = if p.useGuardPages then p.stackSize + p.pageSize * 2 else p.stackSize := by
    cases hg : p.useGuardPages <;> simp [Pool.area, stackArea, hg]
  obtain ⟨start, hv⟩ := memory.exists_vacant (hlength ▸ h)
  exact ⟨.ok start, _, _, dif_pos hv⟩

theorem exists_fill (h : 0 < (p.area 0).length) (i : Nat) (s : State) : ∃ mmaps s', fill p i mmaps s = some s' := by
  induction i generalizing s with
  | zero => exact ⟨[], s, rfl⟩
  | succ i ih =>
    obtain ⟨mmap, base, memory, halloc⟩ := exists_allocateStack s.memory h
    obtain ⟨mmaps, s', hfill⟩ := ih { s with idleStacks := s.idleStacks ++ [base], memory := memory }
    refine ⟨mmap :: mmaps, s', ?_⟩
    rw [fill, halloc]
    exact hfill

/-- Taking every idle stack. -/
theorem exists_drained (h : Reach (step p) Proper (Init p) s) :
    ∃ s', Reach (step p) Proper (Init p) s' ∧ s'.idleStacks = [] ∧
      s'.outstanding.length = s.outstanding.length + s.idleStacks.length := by
  generalize hk : s.idleStacks.length = k
  induction k generalizing s with
  | zero => exact ⟨s, h, List.length_eq_zero_iff.1 hk, rfl⟩
  | succ k ih =>
    have hne : s.idleStacks ≠ [] := List.ne_nil_of_length_eq_add_one hk
    obtain ⟨base, hlast⟩ := Option.ne_none_iff_exists'.1 (mt List.getLast?_eq_none_iff.1 hne)
    have hproper : Proper s (.allocate (.error 0)) := trivial
    have hstep : step p s (.allocate (.error 0)) =
        some { s with idleStacks := s.idleStacks.dropLast, outstanding := p.stack base :: s.outstanding } := by
      simp [step, State.allocate, hlast]
    obtain ⟨s', hr, hnil, hout⟩ := ih (h.step hproper hstep) (by simp [hk])
    refine ⟨s', hr, hnil, ?_⟩
    simp only [List.length_cons] at hout
    omega

/-- Giving `k` stacks back to a pool that keeps them. -/
theorem exists_refilled (h : Reach (step p) Proper (Init p) s) (k : Nat) (hk : k ≤ s.outstanding.length)
    (hle : s.idleStacks.length + k ≤ p.idleStackCount + 1) :
    ∃ s', Reach (step p) Proper (Init p) s' ∧ s'.idleStacks.length = s.idleStacks.length + k := by
  induction k generalizing s with
  | zero => exact ⟨s, h, rfl⟩
  | succ k ih =>
    obtain ⟨stack, hmem⟩ : ∃ stack, stack ∈ s.outstanding :=
      List.exists_mem_of_length_pos (by omega)
    have hkind := (sound_reach (fun _ _ hl => hl) h).kind stack hmem
    have hroom : ¬ s.idleStacks.length > p.idleStackCount := by omega
    have hproper : Proper s (.free stack (.ok ())) := hmem
    have hstep : step p s (.free stack (.ok ())) =
        some { s with idleStacks := s.idleStacks ++ [stack.base], outstanding := s.outstanding.erase stack } := by
      rw [hkind]
      simp [step, State.free, Pool.stack, hroom]
    have hout : (s.outstanding.erase stack).length = s.outstanding.length - 1 := List.length_erase_of_mem hmem
    obtain ⟨s', hr, hlen⟩ := ih (h.step hproper hstep) (by simp only [hout]; omega)
      (by simp only [List.length_append, List.length_singleton]; omega)
    refine ⟨s', hr, ?_⟩
    simp only [List.length_append, List.length_singleton] at hlen
    omega

/-- Whatever number of idle stacks a pool wants, it can end up with one more. -/
theorem exists_one_too_many (h : 0 < (p.area 0).length) :
    ∃ s, Reach (step p) Proper (Init p) s ∧ s.idleStacks.length = p.idleStackCount + 1 := by
  obtain ⟨mmaps, s₀, h₀⟩ := exists_fill h p.idleStackCount {}
  have hinit : Init p s₀ := ⟨mmaps, h₀⟩
  obtain ⟨s₁, hr₁, hnil, hout₁⟩ := exists_drained (.init hinit)
  -- all are out, and one more has to be mapped
  obtain ⟨mmap, base, memory, halloc⟩ := exists_allocateStack s₁.memory h
  have hproper : Proper s₁ (.allocate mmap) := trivial
  have hstep : step p s₁ (.allocate mmap) =
      some { s₁ with outstanding := p.stack base :: s₁.outstanding, memory := memory } := by
    simp [step, State.allocate, hnil, halloc]
  have hlen := (sound_init hinit).2
  obtain ⟨s, hr, hs⟩ := exists_refilled (hr₁.step hproper hstep) (p.idleStackCount + 1)
    (by simp only [List.length_cons]; omega) (by simp [hnil])
  exact ⟨s, hr, by simpa [hnil] using hs⟩

theorem onePool_one_too_many : ∃ s, Reach (step onePool) Proper (Init onePool) s ∧ s.idleStacks.length = 2 :=
  exists_one_too_many (by decide)

end

end DarlingServer.StackPool
