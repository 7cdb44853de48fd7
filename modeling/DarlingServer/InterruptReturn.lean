import DarlingServer.Faults
/-!
# Control comes back to interrupt_enter

`interrupt_enter` captures where it is, restarts the call it interrupted, and
expects to go on when that call is done. Meanwhile the call may suspend and be
resumed. Every stack is in one place throughout (given back, the thread's own, or
saved in a record), and the captured context stays good as long as the restarted
call does not suspend with a continuation: `doWork` then gives back the thread's
stack, which is the handler's.
-/

namespace DarlingServer

open Thread Runs

/-! ## Stacks -/

/-- The stacks a thread has not given back. -/
def held (t : Thread) : List Stack := t.stack.toList ++ t.interrupts.filterMap (·.savedStack)

/-- Every stack ever handed out is in one place. -/
def StacksOnce (s : Local) : Prop := (s.freed ++ held s.th).Perm (List.range s.nextStack)

theorem held_leave {s y : Local} {e : Exit} (hl : Leave s e y) :
    y.nextStack = s.nextStack ∧ y.freed = s.freed ∧ held y.th = held s.th := by
  cases hl <;> exact ⟨rfl, rfl, rfl⟩

theorem held_answer {s x : Local} {c : Call} (ha : Answer s c x) :
    x.nextStack = s.nextStack ∧ x.freed = s.freed ∧ held x.th = held s.th := by
  cases ha with
  | saved _ hr => exact ⟨rfl, rfl, by simp [held, hr, List.filterMap_cons]⟩
  | deferred | sent | dropped => exact ⟨rfl, rfl, rfl⟩

theorem held_doneWorking {t t' : Thread} {b : Bool} (hw : DoneWorking t t' b) : held t' = held t := by
  cases hw <;> rfl

/-- A section moves stacks between the thread and the pool, or takes a new one. -/
theorem held_effect {s x : Local} {l : Label} {b : Bool} (h : Orderly s) (he : Effect s l x b) :
    x.nextStack = s.nextStack ∧ (x.freed ++ held x.th).Perm (s.freed ++ held s.th) ∨
    x.nextStack = s.nextStack + 1 ∧ (x.freed ++ held x.th).Perm (s.freed ++ held s.th ++ [s.nextStack]) := by
  have same : ∀ {y : Local}, y.nextStack = s.nextStack ∧ y.freed = s.freed ∧ held y.th = held s.th →
      y.nextStack = s.nextStack ∧ (y.freed ++ held y.th).Perm (s.freed ++ held s.th) := by
    rintro y ⟨hn, hf, hh⟩
    exact ⟨hn, by rw [hf, hh]⟩
  cases he with
  | resumeContinuation _ _ _ _ hst =>
    refine .inr ⟨rfl, ?_⟩
    simp only [held, hst]
    rw [List.perm_iff_count]
    intro d
    simp only [List.count_append, Option.toList_some, Option.toList_none, List.count_nil]
    omega
  | startCall =>
    refine .inr ⟨rfl, ?_⟩
    rw [List.perm_iff_count]
    intro d
    simp only [held, List.count_append, Option.toList_some]
    omega
  | startInterrupt =>
    refine .inr ⟨rfl, ?_⟩
    rw [List.perm_iff_count]
    intro d
    cases hst : s.th.stack <;>
      simp only [held, hst, List.count_append, Option.toList_some, Option.toList_none, List.filterMap_cons,
        List.count_cons, List.count_nil] <;> omega
  | dispatchDone _ _ _ hw | doneKeep _ _ _ hw => exact .inl (same ⟨rfl, rfl, held_doneWorking hw⟩)
  | doneFree _ _ hst hw =>
    refine .inl ⟨rfl, ?_⟩
    rw [held_doneWorking hw]
    simp [held, hst]
  | replyReturn _ _ _ _ _ ha hl | syscallReturn _ _ _ ha hl =>
    obtain ⟨h₁, h₂, h₃⟩ := held_answer ha
    obtain ⟨h₄, h₅, h₆⟩ := held_leave hl
    exact .inl (same ⟨h₄.trans h₁, h₅.trans h₂, h₆.trans h₃⟩)
  | replyExit _ _ _ _ ha =>
    obtain ⟨h₁, h₂, h₃⟩ := held_answer ha
    exact .inl (same ⟨h₁, h₂, h₃⟩)
  | replyDirect _ _ _ _ hl | finish _ _ hl =>
    obtain ⟨h₄, h₅, h₆⟩ := held_leave hl
    exact .inl (same ⟨h₄, h₅, h₆⟩)
  | @exitPop top rest _ hp hr _ hl | @exitPopSaved top rest _ _ hp hr _ hl =>
    -- the record popped holds no stack any more
    have hc := h.shape.closed (not_opening (by simp [hp]) (by simp [hp])) (h.shape.exiting hp).1 top (by simp [hr])
    obtain ⟨h₄, h₅, h₆⟩ := held_leave hl
    refine .inl (same ⟨h₄, h₅, h₆.trans ?_⟩)
    simp [held, hr, hc.1]
  | interruptContinuation _ hr | interruptJump _ hr | interruptNothing _ hr | pushTop _ hr =>
    exact .inl (same ⟨rfl, rfl, by simp [held, hr, List.filterMap_cons]⟩)
  | @interruptEnd top rest _ _ hr =>
    refine .inl ⟨rfl, ?_⟩
    rw [List.perm_iff_count]
    intro d
    cases hst : top.savedStack <;>
      simp [held, hr, hst, List.count_append, List.count_cons]
    omega
  | _ => exact .inl (same ⟨rfl, rfl, rfl⟩)

theorem stacksOnce_effect {s x : Local} {l : Label} {b : Bool} (h : Orderly s) (hi : StacksOnce s)
    (he : Effect s l x b) : StacksOnce x := by
  unfold StacksOnce at hi ⊢
  rcases held_effect h he with ⟨hn, hp⟩ | ⟨hn, hp⟩
  · rw [hn]
    exact hp.trans hi
  · rw [hn, List.range_succ]
    exact hp.trans (hi.append_right _)

theorem StacksOnce.not_freed {s : Local} (hi : StacksOnce s) {st : Stack} (hh : st ∈ held s.th) : st ∉ s.freed := by
  intro hf
  have hn : (s.freed ++ held s.th).Nodup := hi.nodup_iff.2 List.nodup_range
  exact (List.nodup_append.1 hn).2.2 st hf st hh rfl

/-- A thread that nobody runs keeps a stack only to be resumed on it. -/
def Idle (s : Local) : Prop :=
  s.phase = .off ∨ s.phase = .entered ∨ s.phase = .impersonated → s.th.suspended = false → s.th.stack = none

theorem idle_effect {s x : Local} {l : Label} {b : Bool} (h : Orderly s) (hi : Idle s) (he : Effect s l x b) :
    Idle x := by
  have hr := h.running
  have hwind := windUp_effect he
  unfold Idle at hi ⊢
  cases he with
  | dispatchDone _ _ _ hw | doneFree _ _ _ hw | doneKeep _ _ _ hw => cases hw <;> simp_all
  | replyReturn | syscallReturn | replyExit | replyDirect | finish | exitPop | exitPopSaved =>
    -- code that winds up is not off the worker yet
    rcases (hwind rfl).phase with hx | hx | hx <;> simp [hx]
  | activate => split <;> simp
  | popDone | popEntered | impersonate | claim | unimpersonate => simp_all
  | _ => first | exact hi | simp

/-! ## The way back -/

/-- The branch of `suspend` that goes wrong is not taken: no suspension with a continuation is
committed while a call is interrupted for a signal. -/
def State.keepsHandler (s : State) : Label → Bool
  | .commit =>
    match s.loc.phase with
    | .suspending (some _) => !s.loc.th.interruptedForSignal || !s.loc.th.suspended
    | _ => true
  | _ => true

/-- Code at `ctx` will find its way back to the handler at `here`: it is the handler's own frame, or it
runs on the saved stack with `_handlingInterruptedCall` set. -/
def Returns (t : Thread) (here ctx : Context) : Prop :=
  if t.handlingInterruptedCall then
    ctx.frame ≠ .handler ∧ t.interrupts.head?.bind (·.savedStack) = some ctx.stack
  else ctx = { here with frame := .handler }

theorem Returns.congr {t t' : Thread} {here ctx : Context} (h : Returns t here ctx)
    (hh : t'.handlingInterruptedCall = t.handlingInterruptedCall)
    (hs : t'.interrupts.head?.bind (·.savedStack) = t.interrupts.head?.bind (·.savedStack)) : Returns t' here ctx := by
  unfold Returns at h ⊢
  rwa [hh, hs]

/-- What stays true of the captured context while a call is interrupted for a signal. -/
structure Captured (s : Local) (here : Context) : Prop where
  context : s.th.syscallReturnHereDuringInterrupt = some here
  worker : here.frame = .worker
  stack : s.th.stack = some here.stack
  back : s.phase = .returned → s.cur = here
  code : s.phase = .body ∨ (∃ k, s.phase = .suspending k) → Returns s.th here s.cur
  parked : s.th.suspended = true → s.th.continuationCallback = none ∧
    ∀ ctx, s.th.resumeContext = some ctx → Returns s.th here ctx
  away : s.phase = .off ∨ s.phase = .entered ∨ s.phase = .impersonated ∨ s.phase = .returning → s.th.suspended = true

structure Homing (s : Local) : Prop where
  capture : s.phase = .starting ∨ s.phase = .interrupting → s.th.stack = some s.cur.stack
  aside : opening s → ∀ ctx, s.th.resumeContext = some ctx →
    ctx.stack ∈ s.freed ∨ s.th.interrupts.head?.bind (·.savedStack) = some ctx.stack
  captured : s.th.interruptedForSignal = true → ∃ here, Captured s here

/-- Nothing is captured in these phases, so only the captured context has to be followed. -/
theorem Homing.elsewhere {s x : Local} (hi : Homing s) (hp : x.phase ≠ .starting) (hp' : x.phase ≠ .interrupting)
    (hf : x.th.interruptedForSignal = s.th.interruptedForSignal)
    (hc : ∀ here, s.th.interruptedForSignal = true → Captured s here → Captured x here) : Homing x where
  capture := fun h => absurd h (by simp [hp, hp'])
  aside := fun ho => absurd ho (not_opening hp hp')
  captured := by
    intro hf'
    rw [hf] at hf'
    obtain ⟨here, h⟩ := hi.captured hf'
    exact ⟨here, hc here hf' h⟩

theorem captured_leave {s y : Local} {e : Exit} {here : Context}
    (hi : s.th.interruptedForSignal = true) (hs : s.th.suspended = false) (hp : s.phase = .body)
    (hc : Captured s here) (hl : Leave s e y) : Captured y here := by
  have hcur := hc.code (.inl hp)
  unfold Returns at hcur
  cases hl with
  | top hb =>
    cases e with
    | bySyscallReturn => simp [returnsToHandler, hi] at hb
    | byReturn => cases hf : s.cur.frame <;> simp_all [returnsToHandler]
  | unwind hf =>
    rw [if_neg (fun hh => by simp [hh, hf] at hcur)] at hcur
    refine ⟨hc.context, hc.worker, hc.stack, fun _ => ?_, by simp, by simp [hs], by simp⟩
    simp [hcur, ← hc.worker]
  | jump hb hn hctx hfr =>
    obtain rfl := Option.some.inj (hctx.symm.trans hc.context)
    exact ⟨hc.context, hc.worker, hc.stack, fun _ => rfl, by simp, by simp [hs], by simp⟩

/-- The top record may change as long as it keeps its stack. -/
theorem Captured.setTop {s x : Local} {here : Context} {top top' : InterruptContext} {rest : List InterruptContext}
    (hc : Captured s here) (hr : s.th.interrupts = top :: rest) (hx : x.th = { s.th with interrupts := top' :: rest })
    (hs : top'.savedStack = top.savedStack) (hp : x.phase = s.phase) (hcur : x.cur = s.cur) : Captured x here := by
  have hret : ∀ ctx, Returns s.th here ctx → Returns x.th here ctx := by
    intro ctx h
    exact h.congr (by rw [hx]) (by simp [hx, hr, hs])
  refine ⟨by rw [hx]; exact hc.context, hc.worker, by rw [hx]; exact hc.stack, ?_, ?_, ?_, ?_⟩
  · rw [hp, hcur]; exact hc.back
  · rw [hp, hcur]; exact fun h => hret _ (hc.code h)
  · intro hsus
    have hpk := hc.parked (by rw [hx] at hsus; exact hsus)
    rw [hx]
    exact ⟨hpk.1, fun ctx hctx => hx ▸ hret ctx (hpk.2 ctx hctx)⟩
  · rw [hp, hx]; exact hc.away

theorem captured_answer {s x : Local} {c : Call} {here : Context} (hc : Captured s here)
    (hi : s.th.interruptedForSignal = true) (ha : Answer s c x) : Captured x here := by
  cases ha with
  | saved _ hr => exact hc.setTop hr rfl rfl rfl rfl
  | deferred hf | sent hf | dropped hf => simp [hi] at hf

theorem homing_leave {s y : Local} {e : Exit} (hc : s.th.interruptedForSignal = true →
    s.th.suspended = false ∧ s.phase = .body ∧ ∃ here, Captured s here) (hl : Leave s e y) : Homing y := by
  have hf : y.th.interruptedForSignal = s.th.interruptedForSignal := by cases hl <;> rfl
  refine ⟨?_, ?_, fun hi => ?_⟩
  · cases hl <;> simp
  · cases hl <;> simp [opening]
  · obtain ⟨hs, hp, here, hc⟩ := hc (hf ▸ hi)
    exact ⟨here, captured_leave (hf ▸ hi) hs hp hc hl⟩

theorem homing_reply {s x y : Local} {c : Call} {e : Exit} (h : Orderly s) (hi : Homing s)
    (hp : s.phase = .body ∨ s.phase = .answering) (ha : Answer s c x) (hl : Leave x e y) : Homing y := by
  obtain ⟨hph, -, -, hsu, hif, -⟩ := answer_frame ha
  refine homing_leave (fun hf => ?_) hl
  rw [hif] at hf
  have hb : s.phase = .body := by
    rcases hp with hp | hp
    · exact hp
    · simp [(h.shape.answering hp).1] at hf
  obtain ⟨here, hc⟩ := hi.captured hf
  exact ⟨hsu.trans (h.shape.awake (by simp [Phase.isAwake, hb])), hph.trans hb, here, captured_answer hc hf ha⟩

theorem homing_effect {s : State} {l : Label} {x : Local} {b : Bool} (h : Orderly s.loc) (hi : Homing s.loc)
    (hg : s.keepsHandler l = true) (he : Effect s.loc l x b) : Homing x := by
  have hr := h.running
  cases he with
  | push | resumePush | popRunning | resume | s2cIdle => exact hi
  | popDeferred | s2cDefer | s2cClear | s2cFlush | defer | undefer | notifyDead | terminate
  | pushPending | receive | recvQueued =>
    refine { hi with captured := fun hf => ?_ }
    obtain ⟨here, hc⟩ := hi.captured hf
    exact ⟨here, { hc with }⟩
  | replyReturn hp _ _ _ _ ha hl => exact homing_reply h hi hp ha hl
  | syscallReturn hp _ _ ha hl => exact homing_reply h hi (.inl hp) ha hl
  | replyDirect hp _ _ _ hl | finish hp _ hl =>
    refine homing_leave (fun hf => ?_) hl
    obtain ⟨here, hc⟩ := hi.captured hf
    exact ⟨h.shape.awake (by simp [Phase.isAwake, hp]), hp, here, { hc with }⟩
  | replyExit hp _ hc hn ha =>
    refine ⟨by simp, by simp [opening], fun hf => ?_⟩
    cases ha with
    | saved hf hr hc => exact absurd hn (h.interrupted_not_exit hf hr hc)
    | deferred hf' | sent hf' | dropped hf' => simp [hf'] at hf
  | exitPop hp _ _ hl | exitPopSaved hp _ _ hl =>
    refine homing_leave (fun hf => ?_) hl
    simp [(h.shape.exiting hp).1] at hf
  | @commit k hp hs =>
    refine hi.elsewhere (by simp) (by simp) rfl fun here hf hc => ?_
    have hk : k = none := by
      cases k with
      | none => rfl
      | some k => simp [State.keepsHandler, hp, hs, hf] at hg
    subst hk
    exact { hc with back := by simp, code := by simp, away := fun _ => hs }
  | startInterrupt hp hc =>
    refine ⟨fun _ => rfl, fun _ ctx hctx => ?_, fun hf => ?_⟩
    · exact located_clean h (by simp [hp]) (by simp [hp]) (h.not_interrupted hc) hctx
    · simp [h.not_interrupted hc] at hf
  | @activate c hp hc =>
    refine ⟨fun _ => hi.capture (.inl hp), fun ho => hi.aside (.inl ⟨hp, c, hc, ?_⟩), fun hf => ?_⟩
    · by_contra hn
      simp [opening, hn] at ho
    · simp [(h.shape.starting hp).1] at hf
  | interruptContinuation hp hr _ hk =>
    obtain ⟨hi', ⟨hw, -⟩, -⟩ := h.shape.interrupting hp
    have hs := h.shape.awake (by simp [Phase.isAwake, hp])
    refine ⟨by simp, by simp [opening], fun _ => ⟨s.loc.cur, rfl, hw, hi.capture (.inr hp), by simp, fun _ => ?_,
      by simp [hs], by simp⟩⟩
    simp [Returns, (h.no_handling hi').1]
  | @interruptJump top rest a ctx hp hr _ hk ha hctx hfr =>
    obtain ⟨-, ⟨hw, -⟩, -⟩ := h.shape.interrupting hp
    have hs := h.shape.awake (by simp [Phase.isAwake, hp])
    refine ⟨by simp, by simp [opening], fun _ => ⟨s.loc.cur, rfl, hw, hi.capture (.inr hp), by simp, fun _ => ?_,
      by simp [hs], by simp⟩⟩
    have hst := (hi.aside (.inr hp) ctx hctx).resolve_left hfr
    have hfm := ((h.frames.interrupted (.inr hp) top rest hr).2 a ctx ha hk hctx hfr).2.2.2
    simpa [Returns, hr] using And.intro hfm hst
  | interruptNothing hp =>
    obtain ⟨-, ⟨hw, -⟩, -⟩ := h.shape.interrupting hp
    have hs := h.shape.awake (by simp [Phase.isAwake, hp])
    exact ⟨by simp, by simp [opening], fun _ => ⟨s.loc.cur, rfl, hw, hi.capture (.inr hp), fun _ => rfl, by simp,
      by simp [hs], by simp⟩⟩
  | dispatchDone hp hs _ hw =>
    have hgone : ∀ here, ¬Captured s.loc here := by
      intro here hc
      rw [hc.away (.inr (.inl hp))] at hs; cases hs
    cases hw with
    | idle | promote => exact hi.elsewhere (by simp) (by simp) rfl fun here _ hc => absurd hc (hgone here)
  | doneFree hp hs _ hw =>
    -- a call that keeps its stack for the handler is suspended without a continuation
    have hgone : ∀ here, ¬Captured s.loc here := by
      intro here hc
      have hsus := hc.away (.inr (.inr (.inr hp)))
      rcases hs with hs | hk
      · rw [hsus] at hs; cases hs
      · exact hk (hc.parked hsus).1
    cases hw with
    | idle | promote => exact hi.elsewhere (by simp) (by simp) rfl fun here _ hc => absurd hc (hgone here)
  | doneKeep hp hs _ hw =>
    cases hw with
    | idle | promote =>
      exact hi.elsewhere (by simp) (by simp) rfl fun here _ hc =>
        { hc with back := by simp, code := by simp, away := fun _ => hs }
  | popDone _ hrun | popEntered _ hrun =>
    have hoff := h.off hrun
    exact hi.elsewhere (by simp) (by simp) rfl fun here _ hc =>
      { hc with back := by simp, code := by simp, away := fun _ => hc.away (.inl hoff) }
  | impersonate hp | claim hp | unimpersonate hp =>
    exact hi.elsewhere (by simp) (by simp) rfl fun here _ hc =>
      { hc with back := by simp, code := by simp, away := fun _ => hc.away (by simp [hp]) }
  | recv hn =>
    refine ⟨hi.capture, fun ho => hi.aside ?_, fun hf => ?_⟩
    · exact .inr (ho.resolve_left fun hx => (h.shape.starting hx.1).2.1 hn)
    · obtain ⟨here, hc⟩ := hi.captured hf
      exact ⟨here, { hc with }⟩
  | resumeContinuation hp hsus _ hk =>
    refine hi.elsewhere (by simp) (by simp) rfl fun here _ hc => ?_
    rw [(hc.parked hsus).1] at hk; cases hk
  | resumeContext hp hsus _ _ _ hctx =>
    exact hi.elsewhere (by simp) (by simp) rfl fun here _ hc => { hc with
      back := by simp
      code := fun _ => (hc.parked hsus).2 _ hctx
      parked := by simp
      away := by simp }
  | @startCall c hp hc ho =>
    have hni := h.not_interrupted hc
    have hn : c.number ≠ .interruptEnter := ho.resolve_left (by simp [(h.no_handling hni).2])
    refine ⟨fun _ => rfl, ?_, fun hf => absurd (hni.symm.trans hf) Bool.false_ne_true⟩
    rintro (⟨-, i, hi, hn'⟩ | hx)
    · cases hc.symm.trans hi
      exact absurd hn' hn
    · cases hx
  | suspend hp =>
    have hsus := h.shape.awake (by simp [Phase.isAwake, hp])
    have hk : s.loc.th.continuationCallback = none := by
      by_contra hk
      rw [h.shape.continued hk] at hsus; cases hsus
    refine hi.elsewhere (by simp) (by simp) rfl fun here _ hc => ?_
    have hcode := hc.code (.inl hp)
    refine { hc with back := by simp, code := fun _ => hcode, parked := fun _ => ⟨hk, ?_⟩, away := by simp }
    rintro _ ⟨⟩
    exact hcode
  | commitResumed hp hsus =>
    exact hi.elsewhere (by simp) (by simp) rfl fun here _ hc => { hc with
      back := by simp
      code := fun _ => hc.code (.inr ⟨_, hp⟩)
      away := by simp }
  | interruptEnd => exact ⟨by simp, by simp [opening], fun hf => by cases hf⟩
  | pushTop _ hr =>
    refine ⟨hi.capture, fun ho => ?_, fun hf => ?_⟩
    · simpa [hr] using hi.aside ho
    · obtain ⟨here, hc⟩ := hi.captured hf
      exact ⟨here, hc.setTop hr rfl rfl rfl rfl⟩

/-! ## Every run -/

/-- Calls finish as calls do: `syscallReturn` is for XNU traps, and the interrupted call finds the place for
its reply empty. -/
def State.finishesWell (s : State) : Label → Bool
  | .reply e =>
    (e = .byReturn || (slot s.loc.th).any (·.isXNUTrap)) &&
      (!s.loc.th.interruptedForSignal || (s.loc.th.interrupts.head?.bind (·.savedReply)).isNone)
  | _ => true

/-- A disciplined client, and calls that finish as calls do. -/
def State.ordinary (s : State) (l : Label) : Bool := s.disciplined l && s.finishesWell l

def State.homing (s : State) (l : Label) : Bool := s.ordinary l && s.keepsHandler l

/-- The code of a call is done with this step. -/
def Label.finishes : Label → Bool
  | .reply _ | .replyDirect | .finish => true
  | _ => false

/-- When the interrupted call finishes, execution continues in the handler, where it was captured, on a
stack that has not been given back. -/
def ComesBack (G : State → Label → Bool) (s : State) : Prop :=
  ∀ l s', G s l = true → l.finishes = true → s.loc.phase = .body → s.loc.th.interruptedForSignal = true →
    s.step l = some s' → s'.loc.fault = none ∧ s'.loc.phase = .returned ∧
      s.loc.th.syscallReturnHereDuringInterrupt = some s'.loc.cur ∧ s'.loc.cur.stack ∉ s'.loc.freed

/-- The interrupts whose handlers have restarted a call, and those they have come back to. -/
structure Restarts where
  restarted : List Call := []
  cameBack : List Call := []

def noteRestart (s : State) (l : Label) (s' : State) (h : Restarts) : Restarts :=
  if l = .interruptBegin ∧ s'.loc.phase = .body then
    { h with restarted := h.restarted ++ s'.loc.th.activeCall.toList }
  else if s.loc.phase = .body ∧ s'.loc.phase = .returned then
    { h with cameBack := h.cameBack ++ s'.loc.th.activeCall.toList }
  else h

/-- The interrupt whose restarted call has not come back. -/
def underway (s : Local) : List Call :=
  if s.th.interruptedForSignal ∧ s.phase ≠ .returned then s.th.activeCall.toList else []

theorem leave_back {s y : Local} {e : Exit} {here : Context} (hi : s.th.interruptedForSignal = true)
    (hs : s.th.suspended = false) (hp : s.phase = .body) (hc : Captured s here) (hl : Leave s e y) :
    y.phase = .returned ∧ y.cur = here ∧ y.th.stack = some here.stack := by
  have hc' := captured_leave hi hs hp hc hl
  have hph : y.phase = .returned := by
    cases hl with
    | top => exact absurd (hc'.away (by simp)) (by simp [hs])
    | unwind | jump => rfl
  exact ⟨hph, hc'.back hph, hc'.stack⟩

theorem finishes_back {s x : Local} {l : Label} {b : Bool} (h : Orderly s) (hi : Homing s) (hl : l.finishes = true)
    (hp : s.phase = .body) (hf : s.th.interruptedForSignal = true) (he : Effect s l x b) :
    x.phase = .returned ∧ s.th.syscallReturnHereDuringInterrupt = some x.cur ∧ x.th.stack = some x.cur.stack := by
  obtain ⟨here, hc⟩ := hi.captured hf
  have hs := h.shape.awake (by simp [Phase.isAwake, hp])
  have hback : x.phase = .returned ∧ x.cur = here ∧ x.th.stack = some here.stack := by
    cases he with
    | replyReturn _ _ _ _ _ ha hl | syscallReturn _ _ _ ha hl =>
      obtain ⟨hph, -, -, hsu, hif, -⟩ := answer_frame ha
      exact leave_back (hif.trans hf) (hsu.trans hs) (hph.trans hp) (captured_answer hc hf ha) hl
    | replyExit _ _ _ hn ha =>
      cases ha with
      | saved hf hr hc => exact absurd hn (h.interrupted_not_exit hf hr hc)
      | deferred hf' | sent hf' | dropped hf' => simp [hf'] at hf
    | finish _ _ hl => exact leave_back hf hs hp hc hl
    | replyDirect _ _ _ _ hl =>
      refine leave_back ?_ ?_ ?_ ?_ hl
      · exact hf
      · exact hs
      · exact hp
      · exact { hc with }
    | _ => cases hl
  obtain ⟨h₁, h₂, h₃⟩ := hback
  exact ⟨h₁, h₂ ▸ hc.context, h₂ ▸ h₃⟩

theorem not_badLeave {s : Local} {here : Context} {e : Exit} (hc : Captured s here) (hst : StacksOnce s) :
    ¬BadLeave s e := by
  rintro ⟨-, -, hstale⟩
  exact hst.not_freed (by simp [held, hc.stack]) (hstale here hc.context)

theorem not_badAnswer {s : State} {c : Call} {f : Fault} (h : Orderly s.loc) (hf : s.loc.th.interruptedForSignal = true)
    (hc : slot s.loc.th = some c) (hs : (s.loc.th.interrupts.head?.bind (·.savedReply)).isNone = true) :
    ¬BadAnswer s.loc.th c f := by
  intro hb
  cases hb with
  | noRecord _ hr =>
    obtain ⟨top, rest, hr', -⟩ := h.shape.opened (.inr hf)
    simp [hr] at hr'
  | notInterrupted _ hr hne => simp [slot, hf, hr, hne] at hc
  | notActive hf' => simp [hf] at hf'
  | overSaved _ hr _ hm => simp [hr, hm] at hs

/-- No fault keeps the interrupted call from finishing. -/
theorem finishes_no_fault {s : State} {l : Label} {f : Fault} (h : Orderly s.loc) (hi : Homing s.loc)
    (hst : StacksOnce s.loc) (hg : s.finishesWell l = true) (hl : l.finishes = true) (hp : s.loc.phase = .body)
    (hf : s.loc.th.interruptedForSignal = true) : ¬Throws s.loc l f := by
  intro ht
  obtain ⟨here, hc⟩ := hi.captured hf
  have hanswer : ∀ {c x}, Answer s.loc c x → ∀ e, ¬BadLeave x e := by
    intro c x ha e
    obtain ⟨h₁, h₂, h₃⟩ := held_answer ha
    refine not_badLeave (captured_answer hc hf ha) ?_
    rwa [StacksOnce, h₁, h₂, h₃]
  cases ht with
  | reply _ hw hcall hb =>
    have hs := ((h.frames.body hp).2.1 hw).2.symm.trans hcall
    exact not_badAnswer h hf hs (by simpa [State.finishesWell, hf] using hg) hb
  | replyLeave _ _ _ _ ha hb | syscallLeave _ _ ha hb => exact hanswer ha _ hb
  | noRecord _ _ hr =>
    obtain ⟨top, rest, hr', -⟩ := h.shape.opened (.inr hf)
    simp [hr] at hr'
  | noSyscall _ hn =>
    obtain ⟨top, rest, hr, -⟩ := h.shape.opened (.inr hf)
    simp only [State.finishesWell, Bool.and_eq_true, Bool.or_eq_true, Option.any_eq_true] at hg
    obtain ⟨c, hs, hx⟩ := hg.1.resolve_left (by simp)
    have := hn c (by simpa [currentCall, slot, hf, hr] using hs)
    simp [hx] at this
  | syscallReturn _ hcall hb =>
    refine not_badAnswer h hf (currentCall_slot hcall) ?_ hb
    simp only [State.finishesWell, hf, Bool.and_eq_true] at hg
    simpa using hg.2
  | replyDirect _ _ hb | finish _ _ hb => exact not_badLeave hc hst hb
  | _ => cases hl

theorem comesBack {G : State → Label → Bool} (hG : ∀ s l, G s l = true → s.finishesWell l = true) {s : State}
    (h : Orderly s.loc) (hi : Homing s.loc) (hst : StacksOnce s.loc) : ComesBack G s := by
  intro l s' hg hl hp hf hs
  obtain ⟨hn, -, ⟨f, hc, rfl⟩ | ⟨x, b, he, rfl⟩⟩ := step_cases hs
  · exact absurd (core_throws hc) (finishes_no_fault h hi hst (hG s l hg) hl hp hf)
  · rw [account_loc]
    obtain ⟨h₁, h₂, h₃⟩ := finishes_back h hi hl hp hf he
    refine ⟨(fault_effect he).trans hn, h₁, h₂, (stacksOnce_effect h hst he).not_freed ?_⟩
    simp [held, h₃]

theorem cleared_before_reply {s s' : State} {e : Exit} {i : Call} (h : Orderly s.loc) (hn : i.number = .interruptEnter)
    (hs : s.step (.reply e) = some s') (hh : s'.loc.handed = s.loc.handed ++ [⟨i⟩]) :
    s.loc.th.interruptedForSignal = false ∧ s.loc.th.handlingInterruptedCall = false ∧
      s.loc.th.pendingCallOverride = false := by
  have hbody : ∀ c, slot s.loc.th = some c → s.loc.phase = .body → c ≠ i := by
    rintro c hc hp rfl
    have hu : s.loc.client.user = true := by
      by_contra hu
      have := slot_mem_live hc
      simp [h.debts.kernel (by simpa using hu)] at this
    obtain ⟨a, ha, -, hna⟩ := (h.frames.body hp).1 hu
    obtain rfl := Option.some.inj (ha.symm.trans hc)
    exact hna hn
  have hcleared : s.loc.phase = .answering → s.loc.th.interruptedForSignal = false ∧
      s.loc.th.handlingInterruptedCall = false ∧ s.loc.th.pendingCallOverride = false :=
    fun hp => ⟨(h.shape.answering hp).1, h.no_handling (h.shape.answering hp).1⟩
  obtain ⟨-, -, ⟨f, -, rfl⟩ | ⟨x, b, he, rfl⟩⟩ := step_cases hs
  · simp at hh
  · rw [account_loc] at hh
    cases he with
    | @replyReturn c _ _ hp hw hc _ _ ha hl =>
      rw [(live_leave hl).2, (live_answer ha).2] at hh
      rcases hp with hp | hp
      · exact absurd (by simpa using hh) (hbody c (((h.frames.body hp).2.1 hw).2.symm.trans hc) hp)
      · exact hcleared hp
    | @replyExit c _ hp hw hc _ ha =>
      have hh' := (live_answer ha).2.symm.trans hh
      rcases hp with hp | hp
      · exact absurd (by simpa using hh') (hbody c (((h.frames.body hp).2.1 hw).2.symm.trans hc) hp)
      · exact hcleared hp
    | @syscallReturn c _ _ hp hc _ ha hl =>
      rw [(live_leave hl).2, (live_answer ha).2] at hh
      exact absurd (by simpa using hh) (hbody c (currentCall_slot hc) hp)

theorem State.homing.disciplined {s : State} {l : Label} (h : s.homing l = true) : s.disciplined l = true := by
  simp only [State.homing, State.ordinary, Bool.and_eq_true] at h
  exact h.1.1

theorem homing_run {s : State} (h : Reach State.step (fun s l => s.homing l = true) State.Init s) :
    StacksOnce s.loc ∧ Idle s.loc ∧ Homing s.loc := by
  refine h.inv_with (fun s => Orderly s.loc) (fun s => StacksOnce s.loc ∧ Idle s.loc ∧ Homing s.loc)
    (fun s hr => orderly (fun _ _ => State.homing.disciplined) hr) ?_ fun s l s' ho hi hg hst => ?_
  · rintro s (rfl | ⟨k, rfl⟩)
    all_goals
      refine ⟨?_, ?_, ?_⟩
      · simp [StacksOnce, held, setupKernelThread]
      · simp [Idle, setupKernelThread]
      · constructor <;> simp [opening, setupKernelThread]
  · obtain ⟨h₁, h₂, h₃⟩ := hi
    obtain ⟨-, -, ⟨f, -, rfl⟩ | ⟨x, b, he, rfl⟩⟩ := step_cases hst
    · refine ⟨h₁, h₂, { h₃ with captured := fun hf => ?_ }⟩
      obtain ⟨here, hc⟩ := h₃.captured hf
      exact ⟨here, { hc with }⟩
    · rw [account_loc]
      rw [State.homing, Bool.and_eq_true] at hg
      exact ⟨stacksOnce_effect ho h₁ he, idle_effect ho h₂ he, homing_effect ho h₃ hg.2 he⟩

/-- A thread that is off and not suspended has given back every stack. -/
theorem all_freed {s : Local} (h : Orderly s) (hst : StacksOnce s) (hi : Idle s) (hh : Homing s) (hp : s.phase = .off)
    (hs : s.th.suspended = false) : s.freed.Perm (List.range s.nextStack) := by
  have hf : s.th.interruptedForSignal = false := by
    by_contra hf
    obtain ⟨here, hc⟩ := hh.captured (by simpa using hf)
    exact absurd (hc.away (.inl hp)) (by simp [hs])
  have hclean := h.shape.closed (not_opening (by simp [hp]) (by simp [hp])) hf
  have hheld : held s.th = [] := by
    simpa [held, hi (.inl hp) hs] using fun r hr => (hclean r hr).1
  simpa [StacksOnce, hheld] using hst

/-! ## Restarts and returns -/

/-- An `interrupt_enter` whose handler has restarted a call is active past its beginning, or answered. -/
def Noted (s : Local) (i : Call) : Prop :=
  ⟨i⟩ ∈ s.handed ∨ s.th.activeCall = some i ∧ i.number = .interruptEnter ∧ s.phase ≠ .starting ∧
    s.phase ≠ .interrupting

theorem noted_effect {s x : Local} {l : Label} {b : Bool} (h : Orderly s) (he : Effect s l x b) {i : Call}
    (hi : Noted s i) : Noted x i := by
  rcases hi with hh | ⟨ha, hn, h₁, h₂⟩
  · exact .inl (ledger_handed (ledger_effect he) hh)
  · have hq := h.debts.quiet i ha hn
    cases he with
    | dispatchDone _ _ _ hw | doneFree _ _ _ hw | doneKeep _ _ _ hw => cases hw <;> exact .inr ⟨ha, hn, by simp⟩
    | activate hp => exact absurd hp h₁
    | startCall _ hc | startInterrupt _ hc => simp [hq] at hc
    | replyReturn _ _ _ _ _ hans hl | syscallReturn _ _ _ hans hl =>
      cases hans with
      | saved => cases hl <;> exact .inr ⟨ha, hn, by simp⟩
      | deferred _ hc | sent _ hc | dropped _ hc =>
        obtain rfl := Option.some.inj (hc.symm.trans ha)
        exact .inl ((live_leave hl).2 ▸ by simp)
    | replyExit _ _ _ _ hans =>
      cases hans with
      | saved => exact .inr ⟨ha, hn, by simp⟩
      | deferred _ hc | sent _ hc | dropped _ hc =>
        obtain rfl := Option.some.inj (hc.symm.trans ha)
        exact .inl (by simp)
    | replyDirect _ _ _ _ hl | finish _ _ hl | exitPop _ _ _ hl | exitPopSaved _ _ _ hl =>
      cases hl <;> exact .inr ⟨ha, hn, by simp⟩
    | interruptContinuation hp | interruptJump hp | interruptNothing hp => exact absurd hp h₂
    | _ => exact .inr ⟨ha, hn, by simp_all⟩

theorem finishes_signal {s x : Local} {l : Label} {b : Bool} (he : Effect s l x b) (hl : l.finishes = true) :
    x.th.interruptedForSignal = s.th.interruptedForSignal ∧
      (s.th.interruptedForSignal = true → x.th.activeCall = s.th.activeCall) := by
  cases he with
  | replyReturn _ _ _ _ _ ha hlv | syscallReturn _ _ _ ha hlv =>
    obtain ⟨-, -, -, -, hif, -, hac⟩ := answer_frame ha
    cases hlv <;> exact ⟨hif, hac⟩
  | replyExit _ _ _ _ ha =>
    obtain ⟨-, -, -, -, hif, -, hac⟩ := answer_frame ha
    exact ⟨hif, hac⟩
  | replyDirect _ _ _ _ hlv | finish _ _ hlv => cases hlv <;> exact ⟨rfl, fun _ => rfl⟩
  | _ => cases hl

theorem underway_nil {s : Local} (h : s.th.interruptedForSignal = false) : underway s = [] := by
  simp [underway, h]

/-- A step restarts a call, comes back from one, or does neither. -/
theorem underway_effect {s x : Local} {l : Label} {b : Bool} (h : Orderly s) (hx : Orderly x) (hi : Homing s)
    (he : Effect s l x b) :
    (l = .interruptBegin ∧ x.phase = .body) ∧ s.phase = .interrupting ∧ underway s = [] ∧
        underway x = x.th.activeCall.toList ∧ x.th.activeCall = s.th.activeCall ∨
      ¬(l = .interruptBegin ∧ x.phase = .body) ∧ (s.phase = .body ∧ x.phase = .returned) ∧
        underway s = x.th.activeCall.toList ∧ underway x = [] ∨
      ¬(l = .interruptBegin ∧ x.phase = .body) ∧ ¬(s.phase = .body ∧ x.phase = .returned) ∧
        underway x = underway s := by
  by_cases hl : l.finishes = true
  · have hb : l ≠ .interruptBegin := by rintro rfl; cases hl
    obtain ⟨hif, hac⟩ := finishes_signal he hl
    by_cases hf : s.th.interruptedForSignal = true
    · have hp : s.phase = .body := by
        cases he with
        | replyReturn hp | replyExit hp =>
          exact hp.resolve_right fun hp => by simp [(h.shape.answering hp).1] at hf
        | syscallReturn hp | replyDirect hp | finish hp => exact hp
        | _ => cases hl
      have hr := (finishes_back h hi hl hp hf he).1
      refine .inr (.inl ⟨by simp [hb], ⟨hp, hr⟩, ?_, ?_⟩)
      · simp [underway, hf, hp, hac hf]
      · simp [underway, hr]
    · have hf : s.th.interruptedForSignal = false := by simpa using hf
      refine .inr (.inr ⟨by simp [hb], fun hr => ?_, ?_⟩)
      · have := (hx.shape.returned hr.2).1
        simp [hif, hf] at this
      · rw [underway_nil hf, underway_nil (hif.trans hf)]
  · cases he with
    | interruptContinuation hp | interruptJump hp =>
      exact .inl ⟨⟨rfl, rfl⟩, hp, underway_nil (h.shape.interrupting hp).1, by simp [underway], rfl⟩
    | interruptNothing hp =>
      refine .inr (.inr ⟨by simp, by simp [hp], ?_⟩)
      rw [underway_nil (h.shape.interrupting hp).1]
      simp [underway]
    | interruptEnd hp => exact .inr (.inr ⟨by simp, by simp [hp], by simp [underway, hp]⟩)
    | startCall _ hc | startInterrupt _ hc =>
      refine .inr (.inr ⟨by simp, by simp, ?_⟩)
      simp [underway, h.not_interrupted hc]
    | activate hp =>
      refine .inr (.inr ⟨by simp, by simp [hp], ?_⟩)
      simp [underway, (h.shape.starting hp).1]
    | exitPop hp _ _ hl | exitPopSaved hp _ _ hl =>
      have hf := (h.shape.exiting hp).1
      refine .inr (.inr ⟨by simp, by simp [hp], ?_⟩)
      cases hl <;> simp [underway, hf]
    | dispatchDone hp _ _ hw | doneFree hp _ _ hw | doneKeep hp _ _ hw =>
      refine .inr (.inr ⟨by simp, by simp, ?_⟩)
      cases hw <;> simp [underway, hp]
    | popDone _ hr | popEntered _ hr =>
      have hp : s.phase = .off := by simpa [hr] using h.running
      exact .inr (.inr ⟨by simp, by simp, by simp [underway, hp]⟩)
    | replyReturn | replyExit | syscallReturn | replyDirect | finish => simp [Label.finishes] at hl
    | _ => exact .inr (.inr ⟨by simp_all, by simp_all, by simp_all [underway]⟩)

structure Counted (s : Local) (h : Restarts) : Prop where
  order : h.restarted = h.cameBack ++ underway s
  noted : ∀ i ∈ h.restarted, Noted s i
  nodup : h.restarted.Nodup

theorem counted_effect {s : State} {x : Local} {l : Label} {b : Bool} {h : Restarts} (ho : Orderly s.loc)
    (hx : Orderly x) (hi : Homing s.loc) (hc : Counted s.loc h) (he : Effect s.loc l x b) :
    Counted x (noteRestart s l (s.account x b l) h) := by
  obtain ⟨h₁, h₂, h₃⟩ := hc
  have hnoted : ∀ i ∈ h.restarted, Noted x i := fun i hm => noted_effect ho he (h₂ i hm)
  unfold noteRestart
  rw [account_loc]
  rcases underway_effect ho hx hi he with ⟨hb, hp, hu, hu', ha⟩ | ⟨hb, hr, hu, hu'⟩ | ⟨hb, hr, hu⟩
  · rw [if_pos hb]
    obtain ⟨-, -, i, hact, hn⟩ := ho.shape.interrupting hp
    -- the handler has not run before for an interrupt that is only beginning
    have hnew : i ∉ h.restarted := by
      intro hm
      rcases h₂ i hm with hh | ⟨-, -, -, hne⟩
      · exact (ho.entering_of_active hact hn).2 hh
      · exact hne hp
    rw [hu, List.append_nil] at h₁
    refine ⟨by simp [hu', h₁], fun j hm => ?_, ?_⟩
    · rcases List.mem_append.1 hm with hm | hm
      · exact hnoted j hm
      · obtain rfl : j = i := by simpa [ha, hact] using hm
        exact .inr ⟨ha.trans hact, hn, by simp [hb.2], by simp [hb.2]⟩
    · rw [ha, hact]
      exact List.nodup_append.2 ⟨h₃, by simp, by simpa using fun j hj => ne_of_mem_of_not_mem hj hnew⟩
  · rw [if_neg hb, if_pos hr]
    exact ⟨by simp [hu', h₁, hu], hnoted, h₃⟩
  · rw [if_neg hb, if_neg hr]
    exact ⟨by rw [hu, h₁], hnoted, h₃⟩

theorem counted {p : State × Restarts}
    (h : Reach (track State.step noteRestart) (fun p l => p.1.homing l = true) (fun p => p.1.Init ∧ p.2 = {}) p) :
    Counted p.1.loc p.2 := by
  refine h.inv_with (fun p => Reach State.step (fun s l => s.homing l = true) State.Init p.1)
    (fun p => Counted p.1.loc p.2) (fun _ hr => hr.untracked (fun _ _ hg => hg) fun _ hp => hp.1) ?_
    fun p l p' hr hi hg hst => ?_
  · rintro ⟨s, h⟩ ⟨hs, rfl⟩
    rcases hs with rfl | ⟨k, rfl⟩ <;> exact ⟨by simp [underway, setupKernelThread], by simp, by simp⟩
  · obtain ⟨hs, hh⟩ := track_some hst
    rw [hh]
    have ho := orderly (fun _ _ => State.homing.disciplined) hr
    obtain ⟨-, -, ⟨f, hc, hs'⟩ | ⟨x, b, he, hs'⟩⟩ := step_cases hs
    · have hb : ¬(l = .interruptBegin ∧ p.1.loc.phase = .body) := by
        rintro ⟨rfl, hb⟩
        cases core_throws hc <;> simp_all
      rw [hs', noteRestart, if_neg hb, if_neg (by simp_all)]
      exact ⟨hi.order, hi.noted, hi.nodup⟩
    · have hx := orderly_effect ho (State.homing.disciplined hg) he
      rw [hs', account_loc]
      exact counted_effect ho hx (homing_run hr).2.2 hi he

/-- What the interrupted calls of a run keep to. -/
structure ControlReturns (G : State → Label → Bool) (s : State) (h : Restarts) : Prop where
  back : ComesBack G s
  once : h.restarted = h.cameBack ++ underway s.loc ∧ h.restarted.Nodup
  /-- The flags are cleared before the reply of `interrupt_enter` is pushed. -/
  cleared : ∀ e s' i, i.number = .interruptEnter → s.step (.reply e) = some s' →
    s'.loc.handed = s.loc.handed ++ [⟨i⟩] → s.loc.th.interruptedForSignal = false ∧
      s.loc.th.handlingInterruptedCall = false ∧ s.loc.th.pendingCallOverride = false
  owned : StacksOnce s.loc
  freed : s.loc.phase = .off → s.loc.th.suspended = false → s.loc.freed.Perm (List.range s.loc.nextStack)

/-- Every restarted call comes back to its `interrupt_enter` once, on the handler's own stack, in every run
where no call suspends with a continuation while it is interrupted for a signal. -/
theorem interrupted_call_comes_back {p : State × Restarts}
    (h : Reach (track State.step noteRestart) (fun p l => p.1.homing l = true) (fun p => p.1.Init ∧ p.2 = {}) p) :
    ControlReturns State.homing p.1 p.2 := by
  have hr : Reach State.step (fun s l => State.homing s l = true) State.Init p.1 :=
    h.untracked (fun _ _ hg => hg) fun _ hp => hp.1
  have ho := orderly (fun _ _ => State.homing.disciplined) hr
  obtain ⟨hst, hid, hhm⟩ := homing_run hr
  have hc := counted h
  refine ⟨comesBack (fun s l hg => ?_) ho hhm hst, ⟨hc.order, hc.nodup⟩, fun e s' i => cleared_before_reply ho, hst,
    all_freed ho hst hid hhm⟩
  simp only [State.homing, State.ordinary, Bool.and_eq_true] at hg
  exact hg.1.2

/-- A call suspends and is interrupted; its handler restarts it. -/
def restartedCall : List Label :=
  [.recv (.trap 0), .push, .pop, .dispatch, .activate, .suspend none, .commit, .done, .recv .interruptEnter, .push,
    .pop, .dispatch, .activate, .interruptBegin]

/-- The restarted call suspends once more, is resumed and returns. -/
theorem interrupted_call_comes_back_suspended : ∃ p : State × Restarts,
    exec (track State.step noteRestart) (fun p l => p.1.homing l) ({}, {})
      (restartedCall ++ [.suspend none, .commit, .done, .resume, .resumePush, .pop, .dispatch,
        .reply .bySyscallReturn]) = some p ∧
    p.2.cameBack = [⟨1, .interruptEnter⟩] ∧ ControlReturns State.homing p.1 p.2 := by
  have hrun : (exec (track State.step noteRestart) (fun p l => p.1.homing l) ({}, {})
      (restartedCall ++ [Label.suspend none, .commit, .done, .resume, .resumePush, .pop, .dispatch,
        .reply .bySyscallReturn])).map (fun p => p.2.cameBack) = some [⟨1, .interruptEnter⟩] := by decide
  obtain ⟨p, hp, hb⟩ := Option.map_eq_some_iff.1 hrun
  exact ⟨p, hp, hb, interrupted_call_comes_back (exec_reach (fun _ _ hg => hg) hp (.init ⟨.inl rfl, rfl⟩))⟩

/-- The restarted call suspends with a continuation: `doWork` gives back the handler's stack, and the
continuation has nowhere to return to. -/
theorem handler_stack_given_back : ¬ ∀ p : State × Restarts,
    Reach (track State.step noteRestart) (fun p l => p.1.ordinary l = true) (fun p => p.1.Init ∧ p.2 = {}) p →
    ControlReturns State.ordinary p.1 p.2 := by
  intro h
  have hrun : (exec (track State.step noteRestart) (fun p l => p.1.ordinary l) ({}, {})
      (restartedCall ++ [Label.suspend (some 7), .commit, .done, .resume, .resumePush, .pop, .dispatch])).map
      (fun p => decide (p.1.loc.phase = .body ∧ p.1.loc.th.interruptedForSignal = true ∧
        p.1.ordinary (.reply .bySyscallReturn) = true ∧
        (p.1.step (.reply .bySyscallReturn)).map (·.loc.fault) = some (some .staleContext))) = some true := by decide
  obtain ⟨p, hp, hb⟩ := Option.map_eq_some_iff.1 hrun
  obtain ⟨h₁, h₂, h₃, h₄⟩ := of_decide_eq_true hb
  obtain ⟨s', hs, hf⟩ := Option.map_eq_some_iff.1 h₄
  have := (h p (exec_reach (fun _ _ hg => hg) hp (.init ⟨.inl rfl, rfl⟩))).back _ s' h₃ rfl h₁ h₂ hs
  simp [hf] at this

end DarlingServer
