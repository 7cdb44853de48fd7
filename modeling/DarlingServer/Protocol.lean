import DarlingServer.Ledger
/-!
# A thread and its client, in step

What holds between a thread and a client that conforms and sends no
`interrupt_enter` while it waits for an `interrupt_exit` (the client library
blocks signals there). The facts come in four groups, each kept by every effect
given the others: the names of calls, the answers that are owed, the shape of
interrupt handling, and the contexts code runs in.
-/

namespace DarlingServer

open Thread Runs

/-- The client conforms, and no signal interrupts an `interrupt_exit`. -/
def State.disciplined (s : State) (l : Label) : Bool :=
  s.conforms l && (l ≠ .recv .interruptEnter || s.loc.client.awaiting.all (·.number ≠ .interruptExit))

/-- What a client that sends a call waits for: nothing, or a call that `interrupt_enter` may interrupt. -/
theorem disciplined_recv {s : State} {n : Number} (hg : s.disciplined (.recv n) = true) :
    s.loc.client.user = true ∧ s.loc.client.pushing = none ∧ s.loc.client.entering = none ∧
      ∀ a, s.loc.client.awaiting = some a → n = .interruptEnter ∧ a.number ≠ .interruptExit := by
  simp only [State.disciplined, State.conforms, Bool.and_eq_true, Bool.or_eq_true, decide_eq_true_eq,
    Option.isNone_iff_eq_none] at hg
  obtain ⟨⟨⟨⟨hu, hp⟩, he⟩, hn⟩, hx⟩ := hg
  refine ⟨hu, hp, he, fun a ha => ?_⟩
  have hn : n = .interruptEnter := hn.resolve_right (by simp [ha])
  exact ⟨hn, by simpa [ha, hn] using hx⟩

/-! ## Names -/

/-- The calls a thread, its replies and its client mention. -/
def Known (s : Local) (c : Call) : Prop :=
  c ∈ live s.th ∨ ⟨c⟩ ∈ s.handed ∨ s.client.awaiting = some c ∨ s.client.entering = some c ∨
    ∃ v ∈ s.client.levels, v.awaiting = some c

structure Names (s : Local) : Prop where
  ids : ∀ c, Known s c → c.id < s.nextCall
  entering : ∀ i, s.client.entering = some i → i.number = .interruptEnter
  awaiting : ∀ a, s.client.awaiting = some a → a.number ≠ .interruptEnter
  levels : ∀ v ∈ s.client.levels, ∀ a, v.awaiting = some a → a.number ≠ .interruptEnter
  noExit : ∀ i a, s.client.entering = some i → s.client.awaiting = some a → a.number ≠ .interruptExit
  circulating : ∀ m, m ∈ s.client.wire ∨ m ∈ stored s.th ∨ s.client.pushing = some m → m ∈ s.handed

theorem ledger_handed {s x : Local} {l : Label} (h : Ledger s l x) {m : Message} (hm : m ∈ s.handed) :
    m ∈ x.handed := by
  cases h with
  | keep _ _ hh => exact hh ▸ hm
  | owe _ _ hh => exact hh ▸ hm
  | pay _ hh => exact hh ▸ List.mem_append_left _ hm
  | direct _ hh => exact hh ▸ List.mem_append_left _ hm

/-- A step mentions no call that was not known, but for the one it receives. -/
theorem known_ledger {s x : Local} {l : Label} (h : Ledger s l x) (hp : s.phase = .body → s.cur.frame = .worker →
    ∀ c, s.cur.call = some c → Known s c) {c : Call} (hc : c ∈ live x.th ∨ ⟨c⟩ ∈ x.handed) :
    Known s c ∨ ∃ n, l = .recv n ∧ c = ⟨s.nextCall, n⟩ := by
  cases h with
  | keep lost hl hh =>
    rw [hh] at hc
    refine .inl (hc.elim (fun hx => .inl ?_) fun hx => .inr (.inl hx))
    exact hl.mem_iff.2 (List.mem_append_right _ hx)
  | owe hr hl hh =>
    rw [hl.mem_iff, hh, List.mem_cons] at hc
    rcases hc with (rfl | hc) | hc
    · exact .inr ⟨_, hr, rfl⟩
    · exact .inl (.inl hc)
    · exact .inl (.inr (.inl hc))
  | @pay d hl hh =>
    -- the call that is answered was among the live ones
    rw [hh, List.mem_append, List.mem_singleton, Message.mk.injEq] at hc
    rcases hc with hc | hc | rfl
    · exact .inl (.inl (hl.mem_iff.2 (List.mem_cons_of_mem _ hc)))
    · exact .inl (.inr (.inl hc))
    · exact .inl (.inl (hl.mem_iff.2 List.mem_cons_self))
  | @direct d hl hh hn hb hf hcd =>
    rw [hl, hh, List.mem_append, List.mem_singleton, Message.mk.injEq] at hc
    rcases hc with hc | hc | rfl
    · exact .inl (.inl hc)
    · exact .inl (.inr (.inl hc))
    · exact .inl (hp hb hf c hcd)

/-- A call that the client waits for, now or at a level below. -/
def Client.Waits (k : Client) (c : Call) : Prop :=
  k.awaiting = some c ∨ k.entering = some c ∨ ∃ v ∈ k.levels, v.awaiting = some c

theorem waits_head {k : Client} {c : Call} (h : k.levels.head?.bind (·.awaiting) = some c) :
    ∃ v ∈ k.levels, v.awaiting = some c := by
  obtain ⟨v, hv, hc⟩ := Option.bind_eq_some_iff.1 h
  exact ⟨v, List.mem_of_head? hv, hc⟩

theorem waits_receives {k k' : Client} {m : Message} {wire : List Message} (h : Receives k m wire k') {c : Call}
    (hc : k'.Waits c) : k.Waits c := by
  cases h with
  | entered =>
    obtain hc | hc | ⟨v, hv, hc⟩ := hc
    · cases hc
    · cases hc
    · obtain rfl | hv := List.mem_cons.1 hv
      · exact .inl hc
      · exact .inr (.inr ⟨v, hv, hc⟩)
  | exited =>
    obtain hc | hc | ⟨v, hv, hc⟩ := hc
    · exact .inr (.inr (waits_head hc))
    · exact .inr (.inl hc)
    · exact .inr (.inr ⟨v, List.mem_of_mem_tail hv, hc⟩)
  | answered =>
    obtain hc | hc := hc
    · cases hc
    · exact .inr hc
  | unexpected | ignored => exact hc

/-- The client waits for no call that it did not wait for, but for the one it sends. -/
theorem waits_talk {s x : Local} {l : Label} (h : Talk s l x) {c : Call} (hc : x.client.Waits c) :
    s.client.Waits c ∨ ∃ n, l = .recv n ∧ c = ⟨s.nextCall, n⟩ := by
  cases h with
  | @send n hr hx =>
    rw [hx, Client.send] at hc
    split at hc
    · obtain hc | hc | hc := hc
      · exact .inl (.inl hc)
      · exact .inr ⟨n, hr, (Option.some.inj hc).symm⟩
      · exact .inl (.inr (.inr hc))
    · obtain hc | hc := hc
      · exact .inr ⟨n, hr, (Option.some.inj hc).symm⟩
      · exact .inl (.inr hc)
  | receive _ hx =>
    obtain ⟨m, wire, -, hk⟩ := receive_some hx
    exact .inl (waits_receives hk hc)
  | pushed _ hx =>
    rw [hx] at hc
    exact .inl hc
  | hear _ _ _ hx =>
    rw [hx] at hc
    exact .inl hc

/-- The kinds of calls a client waits for. -/
structure Client.Asks (k : Client) : Prop where
  entering : ∀ i, k.entering = some i → i.number = .interruptEnter
  awaiting : ∀ a, k.awaiting = some a → a.number ≠ .interruptEnter
  levels : ∀ v ∈ k.levels, ∀ a, v.awaiting = some a → a.number ≠ .interruptEnter
  noExit : ∀ i a, k.entering = some i → k.awaiting = some a → a.number ≠ .interruptExit

theorem asks_send {k : Client} (h : k.Asks) (hk : k.entering = none) {c : Call}
    (ha : ∀ a, k.awaiting = some a → c.number = .interruptEnter ∧ a.number ≠ .interruptExit) :
    (k.send c).Asks := by
  unfold Client.send
  split
  case isTrue hc =>
    refine ⟨fun i hi => ?_, h.awaiting, h.levels, fun _ a _ hx => (ha a hx).2⟩
    rw [← Option.some.inj hi, hc]
  case isFalse hc =>
    refine ⟨h.entering, fun a hx => ?_, h.levels, fun i _ hi => ?_⟩
    · rw [← Option.some.inj hx]
      exact hc
    · rw [hk] at hi
      cases hi

theorem asks_receives {k k' : Client} {m : Message} {wire : List Message} (h : k.Asks)
    (hr : Receives k m wire k') : k'.Asks := by
  cases hr with
  | entered =>
    refine ⟨nofun, nofun, fun v hv a ha => ?_, nofun⟩
    obtain rfl | hv := List.mem_cons.1 hv
    · exact h.awaiting a ha
    · exact h.levels v hv a ha
  | exited hk =>
    refine ⟨h.entering, fun a ha => ?_, fun v hv => h.levels v (List.mem_of_mem_tail hv), fun i _ hi => ?_⟩
    · obtain ⟨v, hv, ha⟩ := waits_head ha
      exact h.levels v hv a ha
    · rw [show k.entering = some i from hi] at hk
      cases hk
  | answered => exact ⟨h.entering, nofun, h.levels, fun _ _ _ => nofun⟩
  | unexpected | ignored => exact ⟨h.entering, h.awaiting, h.levels, h.noExit⟩

theorem asks_talk {s : State} {l : Label} {x : Local} (h : s.loc.client.Asks) (hg : s.disciplined l = true)
    (ht : Talk s.loc l x) : x.client.Asks := by
  cases ht with
  | send hr hx =>
    subst hr
    obtain ⟨-, -, hk, ha⟩ := disciplined_recv hg
    rw [hx]
    exact asks_send h hk ha
  | receive _ hx =>
    obtain ⟨m, wire, -, hk⟩ := receive_some hx
    exact asks_receives h hk
  | pushed _ hx => rw [hx]; exact ⟨h.entering, h.awaiting, h.levels, h.noExit⟩
  | hear _ _ _ hx => rw [hx]; exact ⟨h.entering, h.awaiting, h.levels, h.noExit⟩

/-- A message that reaches the client, or that it has to push back, was on its way or is new. -/
theorem wire_talk {s x : Local} {l : Label} (h : Talk s l x) {m : Message}
    (hm : m ∈ x.client.wire ∨ x.client.pushing = some m) :
    m ∈ s.client.wire ∨ m ∈ stored s.th ∨ s.client.pushing = some m ∨ m ∈ x.handed := by
  cases h with
  | send _ hx =>
    rw [hx, Client.send] at hm
    split at hm
    all_goals exact hm.imp_right fun hp => .inr (.inl hp)
  | receive _ hx =>
    obtain ⟨m', wire, hw, hk⟩ := receive_some hx
    have hin : ∀ m ∈ wire, m ∈ s.client.wire := fun m hm => hw ▸ List.mem_cons_of_mem _ hm
    generalize x.client = k at hk hm
    cases hk with
    | unexpected =>
      obtain hm | hm := hm
      · exact .inl (hin m hm)
      · exact .inl (hw ▸ Option.some.inj hm ▸ List.mem_cons_self)
    | entered | exited | answered | ignored => exact hm.imp (hin m) fun hp => .inr (.inl hp)
  | pushed _ hx =>
    rw [hx] at hm
    exact .inl (hm.resolve_right nofun)
  | hear ms _ _ hx hms =>
    rw [hx, List.mem_append] at hm
    obtain (hm | hm) | hm := hm
    · exact .inl hm
    · obtain hm | hm := hms m hm
      · exact .inr (.inr (.inr hm))
      · exact .inr (.inl hm)
    · exact .inr (.inr (.inl hm))

theorem nextCall_talk {s x : Local} {l : Label} (h : Talk s l x) :
    s.nextCall ≤ x.nextCall ∧ ∀ n, l = .recv n → s.nextCall < x.nextCall := by
  cases h with
  | send _ _ hn =>
    rw [hn]
    exact ⟨Nat.le_succ _, fun _ _ => Nat.lt_succ_self _⟩
  | receive hr _ hn | pushed hr _ hn => exact ⟨Nat.le_of_eq hn.symm, fun n hl => by rw [hr] at hl; cases hl⟩
  | hear _ hl _ _ _ hn => exact ⟨Nat.le_of_eq hn.symm, fun n hr => absurd hr (hl n)⟩

theorem names_effect {s : State} {l : Label} {x : Local} {b : Bool} (hi : Names s.loc)
    (hg : s.disciplined l = true) (he : Effect s.loc l x b)
    (hp : s.loc.phase = .body → s.loc.cur.frame = .worker → ∀ c, s.loc.cur.call = some c → Known s.loc c) :
    Names x := by
  have hl := ledger_effect he
  have ht := talk_effect he
  have hasks := asks_talk ⟨hi.entering, hi.awaiting, hi.levels, hi.noExit⟩ hg ht
  refine ⟨fun c hc => ?_, hasks.entering, hasks.awaiting, hasks.levels, hasks.noExit, fun m hm => ?_⟩
  · have hold : Known s.loc c ∨ ∃ n, l = .recv n ∧ c = ⟨s.loc.nextCall, n⟩ := by
      obtain hc | hc | hc := hc
      · exact known_ledger hl hp (.inl hc)
      · exact known_ledger hl hp (.inr hc)
      · exact (waits_talk ht hc).imp_left fun hc => .inr (.inr hc)
    obtain ⟨hle, hlt⟩ := nextCall_talk ht
    obtain hc | ⟨n, hr, rfl⟩ := hold
    · exact Nat.lt_of_lt_of_le (hi.ids c hc) hle
    · exact hlt n hr
  · have hpushed : l = .pushReply m → s.loc.client.pushing = some m := by
      rintro rfl
      simpa [State.disciplined, State.conforms] using hg
    have hold : m ∈ s.loc.client.wire ∨ m ∈ stored s.loc.th ∨ s.loc.client.pushing = some m ∨ m ∈ x.handed := by
      obtain hm | hm | hm := hm
      · exact wire_talk ht (.inl hm)
      · obtain hm | hm | hm := stored_effect he hm
        · exact .inr (.inl hm)
        · exact .inr (.inr (.inr hm))
        · exact .inr (.inr (.inl (hpushed hm)))
      · exact wire_talk ht (.inr hm)
    obtain hm | hm | hm | hm := hold
    · exact ledger_handed hl (hi.circulating m (.inl hm))
    · exact ledger_handed hl (hi.circulating m (.inr (.inl hm)))
    · exact ledger_handed hl (hi.circulating m (.inr (.inr hm)))
    · exact hm

/-! ## Answers owed -/

structure Debts (s : Local) : Prop where
  kernel : s.client.user = false → live s.th = []
  nodup : (live s.th).Nodup
  /-- A call is waited for until it is answered, but a `checkout` stays active after its answer. -/
  owed : ∀ c ∈ live s.th, ⟨c⟩ ∉ s.handed ∧ (s.client.awaiting = some c ∨ s.client.entering = some c) ∨
    ⟨c⟩ ∈ s.handed ∧ c.number = .checkout
  pending : ∀ c, s.th.pendingCall = some c → ⟨c⟩ ∉ s.handed
  queued : ∀ i ∈ s.th.pendingInterrupts, i.number = .interruptEnter
  quiet : ∀ i, s.th.activeCall = some i → i.number = .interruptEnter → s.th.pendingCall = none
  settled : ∀ i, s.client.entering = some i → ⟨i⟩ ∈ s.handed → ∀ c ∈ live s.th, ⟨c⟩ ∈ s.handed

/-! ## The shape of interrupt handling -/

/-- A record has been made for an `interrupt_enter` whose handler has not begun. -/
def opening (s : Local) : Prop :=
  s.phase = .starting ∧ (∃ i, s.th.pendingCall = some i ∧ i.number = .interruptEnter) ∨ s.phase = .interrupting

/-- The record of an interrupt whose `interrupt_enter` is done. -/
def InterruptContext.Clean (r : InterruptContext) : Prop := r.savedStack = none ∧ r.interruptedCall = none

/-- The microthread runs and has not begun to suspend. -/
def Phase.isAwake : Phase → Bool
  | .starting | .body | .interrupting | .returned | .answering | .exiting => true
  | _ => false

/-- Code of `interrupt_enter` itself, for the active call. -/
def AtHandler (t : Thread) (ctx : Context) : Prop := ctx.frame = .worker ∧ ctx.call = t.activeCall

/-- The flags and the records, where `isOpening` says that the top record's handler has not begun. -/
structure Records (isOpening : Prop) (t : Thread) : Prop where
  signal : t.interruptedForSignal = true → ∃ i, t.activeCall = some i ∧ i.number = .interruptEnter
  override : t.pendingCallOverride = t.handlingInterruptedCall
  handling : t.handlingInterruptedCall = true → t.interruptedForSignal = true
  opened : isOpening ∨ t.interruptedForSignal = true → ∃ top rest, t.interrupts = top :: rest ∧ ∀ r ∈ rest, r.Clean
  closed : ¬isOpening → t.interruptedForSignal = false → ∀ r ∈ t.interrupts, r.Clean
  continued : t.continuationCallback ≠ none → t.suspended = true
  handler : t.interruptedForSignal = true →
    ∃ ctx, t.syscallReturnHereDuringInterrupt = some ctx ∧ AtHandler t ctx

structure Shape (s : Local) : Prop extends Records (opening s) s.th where
  starting : s.phase = .starting →
    s.th.interruptedForSignal = false ∧ s.th.pendingCall ≠ none ∧ s.cur.frame = .worker
  interrupting : s.phase = .interrupting → s.th.interruptedForSignal = false ∧ AtHandler s.th s.cur ∧
    ∃ i, s.th.activeCall = some i ∧ i.number = .interruptEnter
  returned : s.phase = .returned → s.th.interruptedForSignal = true ∧ AtHandler s.th s.cur ∧
    (s.th.handlingInterruptedCall = true → s.th.didSyscallReturnDuringInterrupt = true)
  answering : s.phase = .answering → s.th.interruptedForSignal = false ∧ AtHandler s.th s.cur ∧
    ∃ i, s.th.activeCall = some i ∧ i.number = .interruptEnter
  exiting : s.phase = .exiting → s.th.interruptedForSignal = false ∧ s.cur.frame = .worker
  awake : s.phase.isAwake = true → s.th.suspended = false

/-! ## Contexts -/

/-- The call whose code runs, or is suspended. -/
def slot (t : Thread) : Option Call :=
  if t.interruptedForSignal then t.interrupts.head?.bind (·.interruptedCall) else t.activeCall

/-- The call in the slot waits for its answer. -/
def Busy (s : Local) : Prop :=
  s.client.user = true → ∃ a, slot s.th = some a ∧ ⟨a⟩ ∉ s.handed ∧ a.number ≠ .interruptEnter

/-- Code at `ctx` is the code of the call in the slot. -/
def Fits (s : Local) (ctx : Context) : Prop :=
  Busy s ∧ (ctx.frame = .worker → ctx.call ≠ none ∧ ctx.call = slot s.th) ∧
    (ctx.frame = .handler → s.th.interruptedForSignal = true ∧ s.th.handlingInterruptedCall = false ∧
      ctx.call = s.th.activeCall)

/-- Where the stack of a context that has not been given back is. -/
def Held (s : Local) (st : Stack) : Prop :=
  s.th.stack = some st ∨ ∃ top rest, s.th.interrupts = top :: rest ∧ top.savedStack = some st

structure Stacks (s : Local) : Prop where
  located : ∀ ctx, s.th.resumeContext = some ctx → ctx.stack ∈ s.freed ∨ Held s ctx.stack
  here : s.phase = .starting ∨ s.phase = .interrupting ∨ s.phase = .body ∨ (∃ k, s.phase = .suspending k) →
    Held s s.cur.stack
  /-- A thread that is off and not suspended has no context left. -/
  spent : s.phase = .off ∨ s.phase = .entered ∨ s.phase = .impersonated → s.th.suspended = false →
    s.th.interruptedForSignal = false → ∀ ctx, s.th.resumeContext = some ctx → ctx.stack ∈ s.freed

structure Frames (s : Local) : Prop where
  body : s.phase = .body → Fits s s.cur
  suspending : ∀ k, s.phase = .suspending k → Fits s s.cur
  parked : s.th.suspended = true → Busy s
  resumable : s.th.suspended = true → s.th.continuationCallback = none →
    ∃ ctx, s.th.resumeContext = some ctx ∧ Fits s ctx
  /-- The interrupted call, as `interrupt_enter` will find it. -/
  interrupted : opening s → ∀ top rest, s.th.interrupts = top :: rest →
    (s.th.interruptedContinuation ≠ none →
      ∃ a, top.interruptedCall = some a ∧ ⟨a⟩ ∉ s.handed ∧ a.number ≠ .interruptEnter) ∧
    ∀ a ctx, top.interruptedCall = some a → s.th.interruptedContinuation = none →
      s.th.resumeContext = some ctx → ctx.stack ∉ s.freed →
      ⟨a⟩ ∉ s.handed ∧ a.number ≠ .interruptEnter ∧ (ctx.frame = .worker → ctx.call = some a) ∧ ctx.frame ≠ .handler

structure Orderly (s : Local) : Prop where
  running : s.th.running = true ↔ s.phase ≠ .off
  names : Names s
  debts : Debts s
  shape : Shape s
  places : Stacks s
  frames : Frames s

theorem slot_mem {t : Thread} {a : Call} (h : slot t = some a) :
    t.activeCall = some a ∨ ∃ r ∈ t.interrupts, r.interruptedCall = some a := by
  unfold slot at h
  split at h
  · obtain ⟨r, hr, ha⟩ := Option.bind_eq_some_iff.1 h
    exact .inr ⟨r, List.mem_of_head? hr, ha⟩
  · exact .inl h

theorem slot_mem_live {t : Thread} {a : Call} (h : slot t = some a) : a ∈ live t :=
  mem_live.2 (.inr (.inr (slot_mem h)))

/-- A call that waits for its turn is none of those that had it. -/
theorem Debts.waiting_ne {s : Local} (hd : Debts s) {a c : Call}
    (hc : s.th.pendingCall = some c ∨ c ∈ s.th.pendingInterrupts)
    (ha : s.th.activeCall = some a ∨ ∃ r ∈ s.th.interrupts, r.interruptedCall = some a) : c ≠ a := by
  have hn : ((s.th.pendingCall.toList ++ s.th.pendingInterrupts) ++
      (s.th.activeCall.toList ++ s.th.interrupts.filterMap (·.interruptedCall))).Nodup := by
    simpa [live] using hd.nodup
  exact (List.nodup_append.1 hn).2.2 c (by simpa using hc) a (by simpa using ha)

namespace Orderly

variable {s : Local}

theorem off (h : Orderly s) (hr : s.th.running = false) : s.phase = .off := by
  by_contra hp
  rw [h.running.2 hp] at hr; cases hr

theorem entering_of_active (h : Orderly s) {i : Call} (ha : s.th.activeCall = some i)
    (hn : i.number = .interruptEnter) : s.client.entering = some i ∧ ⟨i⟩ ∉ s.handed := by
  rcases h.debts.owed i (mem_live.2 (.inr (.inr (.inl ha)))) with ⟨hu, hw | he⟩ | ⟨-, hc⟩
  · exact absurd hn (h.names.awaiting i hw)
  · exact ⟨he, hu⟩
  · simp [hn] at hc

/-- Nothing is pending while a call is interrupted for a signal. -/
theorem pending_none (h : Orderly s) (hf : s.th.interruptedForSignal = true) : s.th.pendingCall = none := by
  obtain ⟨i, ha, hn⟩ := h.shape.signal hf
  exact h.debts.quiet i ha hn

theorem not_interrupted (h : Orderly s) {c : Call} (hp : s.th.pendingCall = some c) :
    s.th.interruptedForSignal = false := by
  by_contra hf
  have := h.pending_none (by simpa using hf)
  simp [hp] at this

theorem no_handling (h : Orderly s) (hf : s.th.interruptedForSignal = false) :
    s.th.handlingInterruptedCall = false ∧ s.th.pendingCallOverride = false := by
  have : s.th.handlingInterruptedCall = false := by
    by_contra hh
    have := h.shape.handling (by simpa using hh)
    simp [hf] at this
  exact ⟨this, h.shape.override.trans this⟩

/-- The interrupted call is no `interrupt_exit`. -/
theorem interrupted_not_exit (h : Orderly s) (hf : s.th.interruptedForSignal = true) {top : InterruptContext}
    {rest : List InterruptContext} {c : Call} (hr : s.th.interrupts = top :: rest) (hc : top.interruptedCall = some c) :
    c.number ≠ .interruptExit := by
  obtain ⟨i, ha, hn⟩ := h.shape.signal hf
  have he := (h.entering_of_active ha hn).1
  rcases h.debts.owed c (mem_live.2 (.inr (.inr (.inr ⟨top, by simp [hr], hc⟩)))) with ⟨-, hw | hw⟩ | ⟨-, hw⟩
  · exact h.names.noExit i c he hw
  · simp [h.names.entering c hw]
  · simp [hw]

/-- The interrupted call is not the `interrupt_enter` that interrupts it. -/
theorem interrupted_not_entering (h : Orderly s) (hf : s.th.interruptedForSignal = true) {top : InterruptContext}
    {rest : List InterruptContext} {c : Call} (hr : s.th.interrupts = top :: rest) (hc : top.interruptedCall = some c) :
    s.client.entering ≠ some c := by
  intro hi
  obtain ⟨i, ha, hn⟩ := h.shape.signal hf
  obtain rfl : i = c := by simpa [hi] using (h.entering_of_active ha hn).1.symm
  have hnd := (List.nodup_append.1 h.debts.nodup).2.2 i (by simp [ha]) i (by simp [hr, hc])
  exact hnd rfl

end Orderly

/-! ## Every effect keeps the shape -/

theorem records_answer {s x : Local} {c : Call} (hr : Records False s.th) (ha : Answer s c x) :
    Records False x.th := by
  cases ha with
  | saved hf hi =>
    obtain ⟨_, _, hi', hclean⟩ := hr.opened (.inr hf)
    obtain ⟨rfl, rfl⟩ := List.cons.inj (hi.symm.trans hi')
    exact { hr with
      opened := fun _ => ⟨_, _, rfl, hclean⟩
      closed := fun _ hf' => absurd (hf.symm.trans hf') (by simp) }
  | deferred hf | sent hf | dropped hf =>
    exact { hr with
      signal := fun hf' => absurd (hf.symm.trans hf') Bool.false_ne_true
      handler := fun hf' => absurd (hf.symm.trans hf') Bool.false_ne_true }

/-- Only an interrupted call jumps back to the handler. -/
theorem Records.interrupted_of_jump {o : Prop} {t : Thread} (hr : Records o t) {f : Frame} {e : Exit}
    (hb : t.returnsToHandler f e = true) (hn : ¬(f = .handler ∧ e = .byReturn)) : t.interruptedForSignal = true := by
  cases e with
  | bySyscallReturn => exact hb
  | byReturn =>
    cases f with
    | handler => simp at hn
    | worker | continuation => exact hr.handling hb

theorem not_opening {s : Local} (h₁ : s.phase ≠ .starting) (h₂ : s.phase ≠ .interrupting) : ¬opening s := by
  simp [opening, h₁, h₂]

/-- No code of the microthread runs, or it is about to stop. -/
def Phase.isResting : Phase → Bool
  | .off | .entered | .suspending _ | .returning | .impersonated => true
  | _ => false

theorem Records.of_closed {o : Prop} {t : Thread} (h : Records False t) (ho : ¬o) : Records o t :=
  { h with
    opened := fun hf => h.opened (.inr (hf.resolve_left ho))
    closed := fun _ => h.closed id }

theorem Shape.resting {s : Local} (hp : s.phase.isResting = true) (hr : Records False s.th) : Shape s := by
  have hne : ∀ p : Phase, p.isResting = false → s.phase ≠ p := by
    rintro _ hn rfl
    rw [hp] at hn; cases hn
  have hawake : s.phase.isAwake = false := by
    cases hph : s.phase <;> first | rfl | exact absurd hph (hne _ rfl)
  exact { hr.of_closed (not_opening (hne _ rfl) (hne _ rfl)) with
    starting := fun h => absurd h (hne _ rfl)
    interrupting := fun h => absurd h (hne _ rfl)
    returned := fun h => absurd h (hne _ rfl)
    answering := fun h => absurd h (hne _ rfl)
    exiting := fun h => absurd h (hne _ rfl)
    awake := fun h => absurd (hawake.symm.trans h) Bool.false_ne_true }

theorem Shape.body {s : Local} (hp : s.phase = .body) (hr : Records False s.th) (hs : s.th.suspended = false) :
    Shape s where
  toRecords := hr.of_closed (not_opening (by simp [hp]) (by simp [hp]))
  starting := by simp [hp]
  interrupting := by simp [hp]
  returned := by simp [hp]
  answering := by simp [hp]
  exiting := by simp [hp]
  awake := fun _ => hs

/-- The interrupted call has come back to the handler. -/
theorem Shape.returnedAt {s : Local} (hp : s.phase = .returned) (hr : Records False s.th) (hs : s.th.suspended = false)
    (hi : s.th.interruptedForSignal = true) (hat : AtHandler s.th s.cur)
    (hb : s.th.handlingInterruptedCall = true → s.th.didSyscallReturnDuringInterrupt = true) : Shape s where
  toRecords := hr.of_closed (not_opening (by simp [hp]) (by simp [hp]))
  starting := by simp [hp]
  interrupting := by simp [hp]
  returned := fun _ => ⟨hi, hat, hb⟩
  answering := by simp [hp]
  exiting := by simp [hp]
  awake := fun _ => hs

/-- The interrupted call is being restarted: what `interrupt_enter` leaves in the thread. -/
theorem Shape.restarted {s : Local} (h : Shape s) (hp : s.phase = .interrupting) {top : InterruptContext}
    {rest : List InterruptContext} (hr : s.th.interrupts = top :: rest) (m : Option Message) (b : Bool) :
    Records False { s.th with
      interrupts := { top with savedReply := m } :: rest
      pendingSavedReply := none
      interruptedForSignal := true
      interruptedContinuation := none
      didSyscallReturnDuringInterrupt := false
      syscallReturnHereDuringInterrupt := some s.cur
      handlingInterruptedCall := b
      pendingCallOverride := b } := by
  obtain ⟨-, hat, hi⟩ := h.interrupting hp
  obtain ⟨_, _, hr', hclean⟩ := h.opened (.inl (.inr hp))
  obtain ⟨rfl, rfl⟩ := List.cons.inj (hr.symm.trans hr')
  exact {
    signal := fun _ => hi
    override := rfl
    handling := fun _ => rfl
    opened := fun _ => ⟨_, _, rfl, hclean⟩
    closed := fun _ hf => absurd hf (by simp)
    continued := h.continued
    handler := fun _ => ⟨_, rfl, hat⟩ }

theorem shape_leave {s y : Local} {e : Exit} (hr : Records False s.th) (hs : s.th.suspended = false)
    (hh : s.cur.frame = .handler → s.th.interruptedForSignal = true ∧ s.th.handlingInterruptedCall = false ∧
      s.cur.call = s.th.activeCall) (hl : Leave s e y) : Shape y := by
  cases hl with
  | top => exact .resting rfl hr
  | unwind hw =>
    obtain ⟨hi, hno, hc⟩ := hh hw
    exact .returnedAt rfl hr hs hi ⟨rfl, hc⟩ fun hh' => absurd (hno.symm.trans hh') Bool.false_ne_true
  | jump hb hn hctx =>
    have hi := hr.interrupted_of_jump hb hn
    obtain ⟨_, hctx', hat⟩ := hr.handler hi
    cases hctx.symm.trans hctx'
    exact .returnedAt rfl { hr with } hs hi hat fun _ => rfl

theorem Shape.records {s : Local} (h : Shape s) (hp : ¬opening s) : Records False s.th := by
  obtain ⟨⟨h₁, h₂, h₃, h₄, h₅, h₆, h₇⟩, -⟩ := h
  exact ⟨h₁, h₂, h₃, fun hf => h₄ (.inr (by simpa using hf)), fun _ => h₅ hp, h₆, h₇⟩

theorem answer_frame {s x : Local} {c : Call} (ha : Answer s c x) :
    x.phase = s.phase ∧ x.cur = s.cur ∧ x.freed = s.freed ∧ x.th.suspended = s.th.suspended ∧
    x.th.interruptedForSignal = s.th.interruptedForSignal ∧
    x.th.handlingInterruptedCall = s.th.handlingInterruptedCall ∧
    (s.th.interruptedForSignal = true → x.th.activeCall = s.th.activeCall) := by
  cases ha <;> simp_all

/-- A call that answers and is done. -/
theorem shape_reply {s x y : Local} {c : Call} {e : Exit} (h : Orderly s) (hp : s.phase = .body ∨ s.phase = .answering)
    (ha : Answer s c x) (hl : Leave x e y) : Shape y := by
  obtain ⟨-, hcur, -, hsu, hif, hha, hac⟩ := answer_frame ha
  refine shape_leave (records_answer (h.shape.records ?_) ha) ?_ (fun hf => ?_) hl
  · exact not_opening (by rcases hp with hp | hp <;> simp [hp]) (by rcases hp with hp | hp <;> simp [hp])
  · rw [hsu]
    exact h.shape.awake (by rcases hp with hp | hp <;> simp [Phase.isAwake, hp])
  · rw [hcur] at hf ⊢
    rcases hp with hp | hp
    · obtain ⟨h₁, h₂, h₃⟩ := (h.frames.body hp).2.2 hf
      exact ⟨hif.trans h₁, hha.trans h₂, h₃.trans (hac h₁).symm⟩
    · exact absurd hf (by simp [(h.shape.answering hp).2.1.1])

theorem shape_effect {s x : Local} {l : Label} {b : Bool} (h : Orderly s)
    (he : Effect s l x b) : Shape x := by
  have hr := h.running
  have hs := h.shape
  cases he with
  | push | resumePush | popRunning | resume | s2cIdle => exact hs
  | popDeferred | receive | s2cDefer | s2cClear | s2cFlush | defer | undefer | notifyDead | terminate
  | pushPending | recvQueued => exact { hs with }
  | replyReturn hp _ _ _ _ ha hl => exact shape_reply h hp ha hl
  | syscallReturn hp _ _ ha hl => exact shape_reply h (.inl hp) ha hl
  | replyDirect hp _ _ _ hl | finish hp _ hl =>
    refine shape_leave ?_ ?_ ?_ hl
    · exact hs.records (not_opening (by simp [hp]) (by simp [hp]))
    · exact hs.awake (by simp [Phase.isAwake, hp])
    · exact (h.frames.body hp).2.2
  | exitPop hp hr _ hl | exitPopSaved hp hr _ hl =>
    obtain ⟨hf, hw⟩ := hs.exiting hp
    refine shape_leave ?_ ?_ ?_ hl
    · obtain ⟨h₁, h₂, h₃, -, h₅, h₆, h₇⟩ := hs.records (not_opening (by simp [hp]) (by simp [hp]))
      exact ⟨h₁, h₂, h₃, by simp [hf], fun hn hf r hm => h₅ hn hf r (by simp [hr, hm]), h₆, h₇⟩
    · exact hs.awake (by simp [Phase.isAwake, hp])
    · exact fun hf => absurd hf (by simp [hw])
  | replyExit hp hw hc hn ha =>
    have hf : s.th.interruptedForSignal = false := by
      by_contra hf
      cases ha with
      | saved hf hr hc => exact h.interrupted_not_exit hf hr hc hn
      | _ => simp_all
    have hd := hs.records (not_opening (by rcases hp with hp | hp <;> simp [hp]) (by rcases hp with hp | hp <;> simp [hp]))
    have hw' := hs.awake (by rcases hp with hp | hp <;> simp [Phase.isAwake, hp])
    obtain ⟨-, hcur, -, hsu, hif, -⟩ := answer_frame ha
    refine ⟨?_, by simp, by simp, by simp, by simp, fun _ => ⟨hif.trans hf, by simp [hcur, hw]⟩, fun _ => hsu.trans hw'⟩
    obtain ⟨h₁, h₂, h₃, h₄, h₅, h₆, h₇⟩ := records_answer hd ha
    exact ⟨h₁, h₂, h₃, fun hf => h₄ (.inr (by simpa [opening] using hf)), fun _ => h₅ (by simp), h₆, h₇⟩
  | dispatchDone hp _ _ hw | doneFree hp _ _ hw | doneKeep hp _ _ hw =>
    have hd := hs.records (not_opening (by simp [hp]) (by simp [hp]))
    cases hw with
    | idle | promote => exact .resting rfl { hd with }
  | @pushTop m top rest _ hr _ =>
    refine { hs with opened := fun ho => ?_, closed := fun hn hf r hm => ?_ }
    · obtain ⟨_, _, hr', hc⟩ := hs.opened ho
      obtain ⟨rfl, rfl⟩ := List.cons.inj (hr.symm.trans hr')
      exact ⟨_, _, rfl, hc⟩
    · have hc := hs.closed hn hf
      rcases List.mem_cons.1 hm with rfl | hm
      · exact hc top (by simp [hr])
      · exact hc r (by simp [hr, hm])
  | recv hn =>
    have ho : s.phase ≠ .starting := fun hp => (hs.starting hp).2.1 hn
    refine { hs with
      opened := fun hx => hs.opened (hx.imp_left ?_)
      closed := fun hx => hs.closed fun hop => hx ?_
      starting := fun hp => absurd hp ho }
    · exact fun hop => .inr (hop.resolve_left fun hx => ho hx.1)
    · exact .inr (hop.resolve_left fun hx => ho hx.1)
  | popDone _ hrun | popEntered _ hrun =>
    have hoff := h.off hrun
    exact .resting rfl { hs.records (not_opening (by simp [hoff]) (by simp [hoff])) with }
  | impersonate hp | claim hp | unimpersonate hp =>
    exact .resting rfl { hs.records (not_opening (by simp [hp]) (by simp [hp])) with }
  | resumeContinuation hp =>
    refine .body rfl { hs.records (not_opening (by simp [hp]) (by simp [hp])) with continued := ?_ } rfl
    exact fun hk => absurd rfl hk
  | resumeContext hp _ _ hk =>
    refine .body rfl { hs.records (not_opening (by simp [hp]) (by simp [hp])) with continued := ?_ } rfl
    exact fun hk' => absurd hk hk'
  | @startCall c hp hc ho hk =>
    have hi := h.not_interrupted hc
    have hn : c.number ≠ .interruptEnter := ho.resolve_left (by simp [(h.no_handling hi).2])
    have hd := hs.records (not_opening (by simp [hp]) (by simp [hp]))
    refine {
      toRecords := Records.of_closed { hd with continued := fun hk' => absurd hk hk' } ?_
      starting := fun _ => ⟨hi, by simp [hc], rfl⟩
      interrupting := by simp
      returned := by simp
      answering := by simp
      exiting := by simp
      awake := fun _ => rfl }
    rintro (⟨-, i, hi', hn'⟩ | hx)
    · cases hc.symm.trans hi'
      exact hn hn'
    · cases hx
  | @startInterrupt c hp hc ho hn =>
    have hi := h.not_interrupted hc
    have hno : ¬opening s := not_opening (by simp [hp]) (by simp [hp])
    exact {
      signal := fun hf => absurd (hi.symm.trans hf) Bool.false_ne_true
      override := hs.override
      handling := hs.handling
      opened := fun _ => ⟨_, _, rfl, hs.closed hno hi⟩
      closed := fun hx => absurd (.inl ⟨rfl, c, hc, hn⟩) hx
      continued := fun hk => absurd rfl hk
      handler := fun hf => absurd (hi.symm.trans hf) Bool.false_ne_true
      starting := fun _ => ⟨hi, by simp [hc], rfl⟩
      interrupting := by simp
      returned := by simp
      answering := by simp
      exiting := by simp
      awake := fun _ => rfl }
  | @activate c hp hc =>
    obtain ⟨hi, -, hw⟩ := hs.starting hp
    have hsus := hs.awake (by simp [Phase.isAwake, hp])
    by_cases hn : c.number = .interruptEnter
    · exact {
        signal := fun hf => absurd (hi.symm.trans hf) Bool.false_ne_true
        override := hs.override
        handling := hs.handling
        opened := fun _ => hs.opened (.inl (.inl ⟨hp, c, hc, hn⟩))
        closed := fun hx => absurd (.inr (by simp [hn])) hx
        continued := hs.continued
        handler := fun hf => absurd (hi.symm.trans hf) Bool.false_ne_true
        starting := by simp [hn]
        interrupting := fun _ => ⟨hi, ⟨hw, rfl⟩, c, rfl, hn⟩
        returned := by simp [hn]
        answering := by simp [hn]
        exiting := by simp [hn]
        awake := fun _ => hsus }
    · have hno : ¬opening s := by
        rintro (⟨-, i, hi', hn'⟩ | hx)
        · cases hc.symm.trans hi'
          exact hn hn'
        · rw [hp] at hx; cases hx
      refine .body (by simp [hn]) { hs.records hno with signal := ?_, handler := ?_ } hsus
      · exact fun hf => absurd (hi.symm.trans hf) Bool.false_ne_true
      · exact fun hf => absurd (hi.symm.trans hf) Bool.false_ne_true
  | suspend hp =>
    exact .resting rfl { hs.records (not_opening (by simp [hp]) (by simp [hp])) with continued := fun _ => rfl }
  | commit hp hsus =>
    exact .resting rfl { hs.records (not_opening (by simp [hp]) (by simp [hp])) with continued := fun _ => hsus }
  | commitResumed hp hsus =>
    exact .body rfl { hs.records (not_opening (by simp [hp]) (by simp [hp])) with } hsus
  | interruptContinuation hp hr | interruptJump hp hr =>
    have hsus := hs.awake (by simp [Phase.isAwake, hp])
    have hno := h.no_handling (hs.interrupting hp).1
    exact .body rfl (by simpa [hno] using hs.restarted hp hr _ _) hsus
  | interruptNothing hp hr =>
    have hsus := hs.awake (by simp [Phase.isAwake, hp])
    obtain ⟨hi, hat, -⟩ := hs.interrupting hp
    have hno := h.no_handling hi
    refine .returnedAt rfl (by simpa [hno] using hs.restarted hp hr _ _) hsus rfl hat ?_
    exact fun hh => absurd (hno.1.symm.trans hh) Bool.false_ne_true
  | @interruptEnd top rest back hp hr hb =>
    obtain ⟨hi, hat, hback⟩ := hs.returned hp
    obtain ⟨_, _, hr', hclean⟩ := hs.opened (.inr hi)
    obtain ⟨rfl, rfl⟩ := List.cons.inj (hr.symm.trans hr')
    -- a call that is handled through a jump has come back by `syscallReturn`
    have hdone : (s.th.handlingInterruptedCall && !back) = false := by
      cases hh : s.th.handlingInterruptedCall with
      | false => rfl
      | true => simp [hb, hh, hback hh]
    have hd : Records False { s.th with
        handlingInterruptedCall := s.th.handlingInterruptedCall && !back
        pendingCallOverride := s.th.pendingCallOverride && !back
        interrupts := { top with savedStack := none, interruptedCall := none } :: rest
        interruptedForSignal := false } := by
      refine ⟨fun hf => absurd hf (by simp), congrArg (· && !back) hs.override,
        fun hh => absurd (hdone.symm.trans hh) Bool.false_ne_true, by simp, fun _ _ r hm => ?_, hs.continued,
        fun hf => absurd hf (by simp)⟩
      rcases List.mem_cons.1 hm with rfl | hm
      · exact ⟨rfl, rfl⟩
      · exact hclean r hm
    exact { hd.of_closed (not_opening (by simp) (by simp)) with
      starting := by simp
      interrupting := by simp
      returned := by simp
      answering := fun _ => ⟨rfl, hat, hs.signal hi⟩
      exiting := by simp
      awake := fun _ => hs.awake (by simp [Phase.isAwake, hp]) }

/-! ## Every effect keeps the debts -/

theorem ledger_live {s x : Local} {l : Label} (hl : Ledger s l x) (hn : (live s.th).Nodup) {c : Call}
    (hc : c ∈ live x.th) : (c ∈ live s.th ∨ ∃ n, l = .recv n ∧ c = ⟨s.nextCall, n⟩) ∧
      (⟨c⟩ ∈ x.handed → ⟨c⟩ ∈ s.handed ∨ c.number = .checkout) := by
  cases hl with
  | keep lost hp hh => exact ⟨.inl (hp.mem_iff.2 (by simp [hc])), fun h => .inl (hh ▸ h)⟩
  | owe hr hp hh =>
    refine ⟨?_, fun h => .inl (hh ▸ h)⟩
    rcases List.mem_cons.1 (hp.mem_iff.1 hc) with rfl | hc
    · exact .inr ⟨_, hr, rfl⟩
    · exact .inl hc
  | @pay d hp hh =>
    refine ⟨.inl (hp.mem_iff.2 (by simp [hc])), fun h => ?_⟩
    rw [hh, List.mem_append, List.mem_singleton] at h
    rcases h with h | h
    · exact .inl h
    · obtain rfl : c = d := by simpa using h
      exact absurd hc (List.nodup_cons.1 (hp.nodup_iff.1 hn)).1
  | @direct d hp hh hk =>
    refine ⟨.inl (hp ▸ hc), fun h => ?_⟩
    rw [hh, List.mem_append, List.mem_singleton] at h
    rcases h with h | h
    · exact .inl h
    · obtain rfl : c = d := by simpa using h
      exact .inr hk

theorem nodup_ledger {s x : Local} {l : Label} (hl : Ledger s l x) (hn : (live s.th).Nodup)
    (hid : ∀ c ∈ live s.th, c.id < s.nextCall) : (live x.th).Nodup := by
  cases hl with
  | keep lost hp => exact (List.nodup_append.1 (hp.nodup_iff.1 hn)).2.1
  | owe _ hp =>
    refine hp.nodup_iff.2 (List.nodup_cons.2 ⟨fun h => ?_, hn⟩)
    exact absurd (hid _ h) (by simp)
  | pay hp => exact (List.nodup_cons.1 (hp.nodup_iff.1 hn)).2
  | direct hp => exact hp ▸ hn

/-- A call that is waited for and has not been answered is still waited for after a step. -/
theorem waiting_talk {s : State} {x : Local} {l : Label} (h : Orderly s.loc) (hg : s.disciplined l = true)
    (ht : Talk s.loc l x) {c : Call} (hc : c ∈ live s.loc.th) (hu : ⟨c⟩ ∉ s.loc.handed)
    (hw : s.loc.client.awaiting = some c ∨ s.loc.client.entering = some c) :
    x.client.awaiting = some c ∨ x.client.entering = some c := by
  cases ht with
  | @send n hr hk =>
    subst hr
    obtain ⟨-, -, hent, hn⟩ := disciplined_recv hg
    rcases hw with hw | hw
    · simp [hk, (hn c hw).1, Client.send, hw]
    · simp [hw] at hent
  | receive hr hk =>
    obtain ⟨m, wire, hwm, hk⟩ := receive_some hk
    have hm : m ∈ s.loc.handed := h.names.circulating m (.inl (by simp [hwm]))
    generalize x.client = k at hk
    cases hk with
    | entered he hmi => exact absurd (h.debts.settled _ he (hmi ▸ hm) c hc) hu
    | unexpected | ignored => exact hw
    | exited he ha | answered he ha =>
      rcases hw with hw | hw
      · obtain rfl : c = m.call := by simpa [hw] using ha
        exact absurd hm hu
      · simp [he] at hw
  | pushed _ hk => simpa [hk] using hw
  | hear _ _ _ hk => simpa [hk] using hw

theorem owed_effect {s : State} {l : Label} {x : Local} {b : Bool} (h : Orderly s.loc) (hg : s.disciplined l = true)
    (he : Effect s.loc l x b) {c : Call} (hc : c ∈ live x.th) :
    ⟨c⟩ ∉ x.handed ∧ (x.client.awaiting = some c ∨ x.client.entering = some c) ∨
      ⟨c⟩ ∈ x.handed ∧ c.number = .checkout := by
  have ht := talk_effect he
  obtain ⟨hs, hh⟩ := ledger_live (ledger_effect he) h.debts.nodup hc
  have hm := fun m => ledger_handed (m := m) (ledger_effect he)
  rcases hs with hs | ⟨n, rfl, rfl⟩
  · rcases h.debts.owed c hs with ⟨hu, hw⟩ | ⟨hu, hk⟩
    · by_cases hx : ⟨c⟩ ∈ x.handed
      · exact .inr ⟨hx, (hh hx).resolve_left hu⟩
      · exact .inl ⟨hx, waiting_talk h hg ht hs hu hw⟩
    · exact .inr ⟨hm _ hu, hk⟩
  · have hu : ⟨⟨s.loc.nextCall, n⟩⟩ ∉ s.loc.handed :=
      fun hu => absurd (h.names.ids _ (.inr (.inl hu))) (by simp)
    refine .inl ?_
    cases he with
    | recvQueued => exact ⟨hu, by simp [Client.send]⟩
    | recv =>
      refine ⟨hu, ?_⟩
      by_cases hn : n = .interruptEnter <;> simp [Client.send, hn]

theorem queue_effect {s x : Local} {l : Label} {b : Bool} (he : Effect s l x b) :
    (∀ c, x.th.pendingCall = some c → s.th.pendingCall = some c ∨ c ∈ s.th.pendingInterrupts ∨
      ∃ n, l = .recv n ∧ c = ⟨s.nextCall, n⟩) ∧
    ∀ i ∈ x.th.pendingInterrupts, i ∈ s.th.pendingInterrupts ∨ i = ⟨s.nextCall, .interruptEnter⟩ := by
  by_cases hl : l.windsUp = true
  · have hw := windUp_effect he hl
    rw [hw.pendingCall, hw.pendingInterrupts]
    exact ⟨fun _ => .inl, fun _ => .inl⟩
  cases he with
  | dispatchDone _ _ _ hw | doneFree _ _ _ hw | doneKeep _ _ _ hw => cases hw <;> simp_all
  | replyReturn | syscallReturn | replyExit | replyDirect | finish | exitPop | exitPopSaved => exact absurd rfl hl
  | _ => simp +contextual

theorem pending_effect {s : State} {l : Label} {x : Local} {b : Bool} (h : Orderly s.loc)
    (he : Effect s.loc l x b) {c : Call} (hp : x.th.pendingCall = some c) : ⟨c⟩ ∉ x.handed := by
  have hu : ⟨c⟩ ∉ s.loc.handed := by
    rcases (queue_effect he).1 c hp with hs | hs | ⟨n, -, rfl⟩
    · exact h.debts.pending c hs
    · rcases h.debts.owed c (mem_live.2 (.inr (.inl hs))) with ⟨hu, -⟩ | ⟨-, hn⟩
      · exact hu
      · simp [h.debts.queued c hs] at hn
    · exact fun hu => absurd (h.names.ids _ (.inr (.inl hu))) (by simp)
  have hc : c ∈ live x.th := mem_live.2 (.inl hp)
  cases ledger_effect he with
  | keep _ _ hh | owe _ _ hh => exact hh ▸ hu
  | @pay d hl hh =>
    rw [hh, List.mem_append, List.mem_singleton]
    rintro (hm | hm)
    · exact hu hm
    · obtain rfl : c = d := by simpa using hm
      exact (List.nodup_cons.1 (hl.nodup_iff.1 h.debts.nodup)).1 hc
  | @direct d hl hh hk hb hf hcall =>
    rw [hh, List.mem_append, List.mem_singleton]
    rintro (hm | hm)
    · exact hu hm
    · obtain rfl : c = d := by simpa using hm
      have hs := slot_mem (((h.frames.body hb).2.1 hf).2.symm.trans hcall)
      rcases (queue_effect he).1 c hp with hw | hw | ⟨n, rfl, rfl⟩
      · exact h.debts.waiting_ne (.inl hw) hs rfl
      · exact h.debts.waiting_ne (.inr hw) hs rfl
      · have := h.names.ids _ (.inl (mem_live.2 (.inr (.inr hs))))
        simp at this

theorem Orderly.entering_of_queued {s : Local} (h : Orderly s) {j : Call} (hj : j ∈ s.th.pendingInterrupts) :
    s.client.entering = some j := by
  have hq := h.debts.queued j hj
  rcases h.debts.owed j (mem_live.2 (.inr (.inl hj))) with ⟨-, hw | hw⟩ | ⟨-, hw⟩
  · exact absurd hq (h.names.awaiting j hw)
  · exact hw
  · simp [hq] at hw

/-- No interrupt is queued behind an `interrupt_enter`. -/
theorem Orderly.queue_empty {s : Local} (h : Orderly s) {i : Call} (ha : s.th.activeCall = some i)
    (hn : i.number = .interruptEnter) : s.th.pendingInterrupts = [] := by
  refine List.eq_nil_iff_forall_not_mem.2 fun j hj => ?_
  have hj' := h.entering_of_queued hj
  rw [(h.entering_of_active ha hn).1] at hj'
  exact h.debts.waiting_ne (.inr hj) (.inl ha) (Option.some.inj hj').symm

theorem quiet_answer {s x : Local} {c : Call} (hq : ∀ i, s.th.activeCall = some i → i.number = .interruptEnter →
    s.th.pendingCall = none) (ha : Answer s c x) (i : Call) (hi : x.th.activeCall = some i)
    (hn : i.number = .interruptEnter) : x.th.pendingCall = none := by
  cases ha with
  | saved => exact hq i hi hn
  | deferred | sent | dropped => cases hi

theorem quiet_effect {s : State} {l : Label} {x : Local} {b : Bool} (h : Orderly s.loc) (hg : s.disciplined l = true)
    (he : Effect s.loc l x b) (i : Call) (hi : x.th.activeCall = some i) (hn : i.number = .interruptEnter) :
    x.th.pendingCall = none := by
  have hq := h.debts.quiet
  cases he with
  | recv =>
    have he := (h.entering_of_active hi hn).1
    simp [(disciplined_recv hg).2.2.1] at he
  | activate => rfl
  | startInterrupt => cases hi
  | dispatchDone _ _ _ hw | doneFree _ _ _ hw | doneKeep _ _ _ hw =>
    cases hw with
    | idle => exact hq i hi hn
    | promote _ _ _ hr =>
      have := h.queue_empty hi hn
      simp_all
  | replyReturn _ _ _ _ _ ha hl | syscallReturn _ _ _ ha hl =>
    have hq' := quiet_answer hq ha i
    cases hl <;> exact hq' hi hn
  | replyExit _ _ _ _ ha =>
    have hq' := quiet_answer hq ha i
    exact hq' hi hn
  | replyDirect _ _ _ _ hl | finish _ _ hl | exitPop _ _ _ hl | exitPopSaved _ _ _ hl =>
    cases hl <;> exact hq i hi hn
  | _ => exact hq i hi hn

/-- Once `interrupt_enter` has been answered the thread holds no call. -/
theorem live_answer_nil {s x : Local} {i : Call} (h : Orderly s) (ho : ¬opening s) (ha : Answer s i x)
    (hi : s.client.entering = some i) : live x.th = [] := by
  have hn := h.names.entering i hi
  have hdone : s.th.interruptedForSignal = false → s.th.activeCall = some i →
      s.th.pendingCall = none ∧ s.th.pendingInterrupts = [] ∧
        ∀ r ∈ s.th.interrupts, r.interruptedCall = none := fun hf ha =>
    ⟨h.debts.quiet i ha hn, h.queue_empty ha hn, fun r hr => (h.shape.closed ho hf r hr).2⟩
  cases ha with
  | saved hf hr hc => exact absurd hi (h.interrupted_not_entering hf hr hc)
  | deferred hf ha | sent hf ha | dropped hf ha =>
    obtain ⟨h₁, h₂, h₃⟩ := hdone hf ha
    simpa [live, h₁, h₂] using h₃

theorem entering_talk {s x : Local} {l : Label} (ht : Talk s l x) {i : Call} (hi : x.client.entering = some i) :
    s.client.entering = some i ∨ ∃ n, l = .recv n ∧ i = ⟨s.nextCall, n⟩ := by
  cases ht with
  | @send n hr hk =>
    rw [hk, Client.send] at hi
    split at hi
    · exact .inr ⟨n, hr, (Option.some.inj hi).symm⟩
    · exact .inl hi
  | receive _ hk =>
    obtain ⟨m, wire, -, hk⟩ := receive_some hk
    generalize x.client = k at hi hk
    cases hk with
    | entered => cases hi
    | unexpected | exited | answered | ignored => exact .inl hi
  | pushed _ hk | hear _ _ _ hk => exact .inl (by simpa [hk] using hi)

theorem settled_effect {s : State} {l : Label} {x : Local} {b : Bool} (h : Orderly s.loc)
    (hg : s.disciplined l = true) (he : Effect s.loc l x b) (i : Call) (hi : x.client.entering = some i)
    (hm : ⟨i⟩ ∈ x.handed) (c : Call) (hc : c ∈ live x.th) : ⟨c⟩ ∈ x.handed := by
  have hfresh : ∀ n, ⟨⟨s.loc.nextCall, n⟩⟩ ∉ s.loc.handed :=
    fun n hu => absurd (h.names.ids _ (.inr (.inl hu))) (by simp)
  rcases entering_talk (talk_effect he) hi with hi | ⟨n, rfl, rfl⟩
  · have hr : ∀ n, l ≠ .recv n := by
      rintro n rfl
      simp [(disciplined_recv hg).2.2.1] at hi
    have hold : ⟨i⟩ ∈ s.loc.handed → ⟨c⟩ ∈ x.handed := by
      intro hm
      rcases (ledger_live (ledger_effect he) h.debts.nodup hc).1 with hs | ⟨n, hn, -⟩
      · exact ledger_handed (ledger_effect he) (h.debts.settled i hi hm c hs)
      · exact absurd hn (hr n)
    cases ledger_effect he with
    | keep _ _ hh | owe _ _ hh => exact hold (hh ▸ hm)
    | @direct d _ hh hk =>
      rw [hh, List.mem_append, List.mem_singleton] at hm
      rcases hm with hm | hm
      · exact hold hm
      · obtain rfl : i = d := by simpa using hm
        simp [h.names.entering i hi] at hk
    | @pay d _ hh hp ha =>
      rw [hh, List.mem_append, List.mem_singleton] at hm
      rcases hm with hm | hm
      · exact hold hm
      · obtain rfl : i = d := by simpa using hm
        obtain ⟨y, ha, hy⟩ := ha
        have ho : ¬opening s.loc :=
          not_opening (by rcases hp with hp | hp <;> simp [hp]) (by rcases hp with hp | hp <;> simp [hp])
        simp [hy, live_answer_nil h ho ha hi] at hc
  · cases he with
    | recv | recvQueued => exact absurd hm (hfresh _)

theorem user_talk {s x : Local} {l : Label} (ht : Talk s l x) : x.client.user = s.client.user := by
  cases ht with
  | send _ hk => simp only [hk, Client.send]; split <;> rfl
  | receive _ hk =>
    obtain ⟨m, wire, -, hk⟩ := receive_some hk
    generalize x.client = k at hk
    cases hk <;> rfl
  | pushed _ hk | hear _ _ _ hk => simp [hk]

theorem debts_effect {s : State} {l : Label} {x : Local} {b : Bool} (h : Orderly s.loc) (hg : s.disciplined l = true)
    (he : Effect s.loc l x b) : Debts x where
  kernel hu := by
    rw [user_talk (talk_effect he)] at hu
    refine List.eq_nil_iff_forall_not_mem.2 fun c hc => ?_
    rcases (ledger_live (ledger_effect he) h.debts.nodup hc).1 with hs | ⟨n, rfl, -⟩
    · simp [h.debts.kernel hu] at hs
    · simp [(disciplined_recv hg).1] at hu
  nodup := nodup_ledger (ledger_effect he) h.debts.nodup fun c hc => h.names.ids c (.inl hc)
  owed c hc := owed_effect h hg he hc
  pending c hc := pending_effect h he hc
  queued i hi := by
    rcases (queue_effect he).2 i hi with hq | rfl
    · exact h.debts.queued i hq
    · rfl
  quiet := quiet_effect h hg he
  settled := settled_effect h hg he

/-! ## Every effect keeps the contexts -/

def Located (s : Local) : Prop := ∀ ctx, s.th.resumeContext = some ctx → ctx.stack ∈ s.freed ∨ Held s ctx.stack

/-- A top record that keeps its stack. -/
theorem Held.of_top {s x : Local} {st : Stack} {top top' : InterruptContext} {rest : List InterruptContext}
    (h : Held s st) (hr : s.th.interrupts = top :: rest) (hst : x.th.stack = s.th.stack)
    (hx : x.th.interrupts = top' :: rest) (hs : top'.savedStack = top.savedStack) : Held x st := by
  rcases h with h | ⟨_, _, hr', h⟩
  · exact .inl (hst.trans h)
  · obtain ⟨rfl, rfl⟩ := List.cons.inj (hr.symm.trans hr')
    exact .inr ⟨_, _, hx, hs.trans h⟩

theorem located_answer {s x : Local} {c : Call} (hl : Located s) (ha : Answer s c x) : Located x := by
  intro ctx hc
  cases ha with
  | saved _ hr =>
    exact (hl ctx hc).imp_right fun hh => hh.of_top hr rfl rfl rfl
  | deferred | sent | dropped => exact hl ctx hc

theorem stacks_leave {s y : Local} {e : Exit} (h : Located s) (hl : Leave s e y) : Stacks y := by
  cases hl <;> exact ⟨h, by simp, by simp⟩

/-- Outside interrupt handling no record holds a stack. -/
theorem located_clean {s : Local} (h : Orderly s) (h₁ : s.phase ≠ .starting) (h₂ : s.phase ≠ .interrupting)
    (hf : s.th.interruptedForSignal = false) {ctx : Context} (hc : s.th.resumeContext = some ctx) :
    ctx.stack ∈ s.freed ∨ s.th.stack = some ctx.stack := by
  rcases h.places.located ctx hc with hs | hs | ⟨top, rest, hr, hs⟩
  · exact .inl hs
  · exact .inr hs
  · have hclean := h.shape.closed (not_opening h₁ h₂) hf top (by simp [hr])
    simp [hclean.1] at hs

theorem stacks_effect {s x : Local} {l : Label} {b : Bool} (h : Orderly s)
    (he : Effect s l x b) : Stacks x := by
  have hr := h.running
  have hf := h.places
  cases he with
  | push | resumePush | popRunning | resume | s2cIdle => exact hf
  | popDeferred | s2cDefer | s2cClear | s2cFlush | defer | undefer | notifyDead | terminate
  | pushPending | receive | recvQueued | recv => exact { hf with }
  | replyReturn _ _ _ _ _ ha hl | syscallReturn _ _ _ ha hl => exact stacks_leave (located_answer hf.located ha) hl
  | replyExit _ _ _ _ ha =>
    have hl := located_answer hf.located ha
    exact ⟨hl, by simp, by simp⟩
  | replyDirect _ _ _ _ hl | finish _ _ hl =>
    refine stacks_leave ?_ hl
    exact hf.located
  | exitPop hp hr _ hl | exitPopSaved hp hr _ hl =>
    refine stacks_leave (fun ctx hc => ?_) hl
    exact (located_clean h (by simp [hp]) (by simp [hp]) (h.shape.exiting hp).1 hc).imp_right .inl
  | startInterrupt hp hc =>
    refine ⟨fun ctx hctx => ?_, fun _ => .inl rfl, by simp⟩
    rcases located_clean h (by simp [hp]) (by simp [hp]) (h.not_interrupted hc) hctx with hs | hs
    · exact .inl hs
    · exact .inr (.inr ⟨_, _, rfl, hs⟩)
  | @doneFree st t b hp _ hst hw =>
    have hl : ∀ ctx, s.th.resumeContext = some ctx → ctx.stack ∈ s.freed ++ [st] ∨ Held { s with
        th := { s.th with stack := none } } ctx.stack := by
      intro ctx hc
      rcases hf.located ctx hc with hx | hx | hx
      · exact .inl (List.mem_append_left _ hx)
      · cases hst.symm.trans hx
        exact .inl (List.mem_append_right _ List.mem_cons_self)
      · exact .inr (.inr hx)
    have hspent : ∀ ctx, s.th.resumeContext = some ctx → s.th.interruptedForSignal = false →
        ctx.stack ∈ s.freed ++ [st] := by
      intro ctx hc hi
      rcases located_clean h (by simp [hp]) (by simp [hp]) hi hc with hx | hx
      · exact List.mem_append_left _ hx
      · cases hst.symm.trans hx
        exact List.mem_append_right _ List.mem_cons_self
    cases hw with
    | idle | promote => exact ⟨hl, by simp, fun _ _ hi ctx hc => hspent ctx hc hi⟩
  | dispatchDone hp _ _ hw =>
    cases hw with
    | idle | promote => exact ⟨hf.located, by simp, fun _ => hf.spent (.inr (.inl hp))⟩
  | doneKeep hp hsus _ hw =>
    cases hw with
    | idle | promote => exact ⟨hf.located, by simp, fun _ hs => absurd (hsus.symm.trans hs) (by simp)⟩
  | popDone _ hrun | popEntered _ hrun =>
    have hoff := h.off hrun
    exact ⟨hf.located, by simp, fun _ => hf.spent (.inl hoff)⟩
  | impersonate hp | claim hp => exact ⟨hf.located, by simp, fun _ => hf.spent (.inl hp)⟩
  | unimpersonate hp => exact ⟨hf.located, by simp, fun _ => hf.spent (.inr (.inr hp))⟩
  | resumeContinuation hp _ _ _ hst =>
    refine ⟨fun ctx hc => ?_, fun _ => .inl rfl, by simp⟩
    rcases hf.located ctx hc with hx | hx | hx
    · exact .inl hx
    · rw [hst] at hx; cases hx
    · exact .inr (.inr hx)
  | resumeContext hp _ _ _ _ hc hfr =>
    exact ⟨hf.located, fun _ => (hf.located _ hc).resolve_left hfr, by simp⟩
  | startCall hp =>
    refine ⟨fun ctx hc => ?_, fun _ => .inl rfl, by simp⟩
    rcases hf.located ctx hc with hx | hx | hx
    · exact .inl (List.mem_append_left _ hx)
    · exact .inl (List.mem_append_right _ (by simp [hx]))
    · exact .inr (.inr hx)
  | @activate c hp =>
    refine ⟨hf.located, fun _ => hf.here (.inl hp), ?_⟩
    by_cases hn : c.number = .interruptEnter <;> simp [hn]
  | suspend hp =>
    have hh := hf.here (.inr (.inr (.inl hp)))
    refine ⟨fun ctx hc => ?_, fun _ => hh, by simp⟩
    cases hc
    exact .inr hh
  | commit => exact ⟨hf.located, by simp, by simp⟩
  | commitResumed hp => exact ⟨hf.located, fun _ => hf.here (.inr (.inr (.inr ⟨_, hp⟩))), by simp⟩
  | interruptContinuation hp hr =>
    refine ⟨fun ctx hc => ?_, fun _ => ?_, by simp⟩
    · exact (hf.located ctx hc).imp_right fun hh => hh.of_top hr rfl rfl rfl
    · exact (hf.here (.inr (.inl hp))).of_top hr rfl rfl rfl
  | interruptJump hp hr _ _ _ hc hfr =>
    refine ⟨fun ctx hc => ?_, fun _ => ?_, by simp⟩
    · exact (hf.located ctx hc).imp_right fun hh => hh.of_top hr rfl rfl rfl
    · exact ((hf.located _ hc).resolve_left hfr).of_top hr rfl rfl rfl
  | interruptNothing hp hr =>
    refine ⟨fun ctx hc => ?_, by simp, by simp⟩
    exact (hf.located ctx hc).imp_right fun hh => hh.of_top hr rfl rfl rfl
  | interruptEnd hp hr =>
    refine ⟨fun ctx hc => ?_, by simp, by simp⟩
    rcases hf.located ctx hc with hx | hx | ⟨_, _, hr', hx⟩
    · exact .inl (List.mem_append_left _ hx)
    · exact .inr (.inl hx)
    · -- the stack in the record is given back here
      obtain ⟨rfl, rfl⟩ := List.cons.inj (hr.symm.trans hr')
      exact .inl (List.mem_append_right _ (by simp [hx]))
  | pushTop _ hr =>
    refine ⟨fun ctx hc => ?_, fun hp => ?_, hf.spent⟩
    · exact (hf.located ctx hc).imp_right fun hh => hh.of_top hr rfl rfl rfl
    · exact (hf.here hp).of_top hr rfl rfl rfl

/-- Between two pieces of code there is no context to speak of. -/
theorem frames_between {s : Local} (hs : s.th.suspended = false)
    (hp : s.phase = .returning ∨ s.phase = .returned ∨ s.phase = .answering ∨ s.phase = .exiting) : Frames s := by
  rcases hp with hp | hp | hp | hp <;> constructor <;> simp [hp, hs, opening]

theorem frames_body {s : Local} (hp : s.phase = .body) (hs : s.th.suspended = false) (hf : Fits s s.cur) :
    Frames s := by
  refine ⟨fun _ => hf, ?_, ?_, ?_, ?_⟩ <;> simp [hp, hs, opening]

theorem frames_leave {s y : Local} {e : Exit} (hs : s.th.suspended = false) (hl : Leave s e y) : Frames y := by
  cases hl with
  | top => exact frames_between hs (.inl rfl)
  | unwind | jump => exact frames_between hs (.inr (.inl rfl))

/-- The two states have the same call in the slot. -/
structure SameSlot (s x : Local) : Prop where
  user : x.client.user = s.client.user
  slot : slot x.th = slot s.th
  handed : x.handed = s.handed
  signal : x.th.interruptedForSignal = s.th.interruptedForSignal
  handling : x.th.handlingInterruptedCall = s.th.handlingInterruptedCall
  active : x.th.activeCall = s.th.activeCall

/-- The two states have the same code suspended. -/
structure SameCode (s x : Local) : Prop extends SameSlot s x where
  suspended : x.th.suspended = s.th.suspended
  continuation : x.th.continuationCallback = s.th.continuationCallback
  context : x.th.resumeContext = s.th.resumeContext

theorem Busy.congr {s x : Local} (h : Busy s) (hx : SameSlot s x) : Busy x := by
  unfold Busy at h ⊢
  rwa [hx.user, hx.slot, hx.handed]

theorem Fits.congr {s x : Local} {ctx : Context} (h : Fits s ctx) (hx : SameSlot s x) : Fits x ctx := by
  obtain ⟨hb, hw, hf⟩ := h
  refine ⟨hb.congr hx, ?_, ?_⟩
  · rwa [hx.slot]
  · rwa [hx.signal, hx.handling, hx.active]

theorem Frames.parked_congr {s x : Local} (h : Frames s) (hx : SameCode s x) (hs : x.th.suspended = true) : Busy x :=
  (h.parked (hx.suspended ▸ hs)).congr hx.toSameSlot

theorem Frames.resumable_congr {s x : Local} (h : Frames s) (hx : SameCode s x) (hs : x.th.suspended = true)
    (hk : x.th.continuationCallback = none) : ∃ ctx, x.th.resumeContext = some ctx ∧ Fits x ctx := by
  obtain ⟨ctx, hc, hf⟩ := h.resumable (hx.suspended ▸ hs) (hx.continuation ▸ hk)
  exact ⟨ctx, hx.context.trans hc, hf.congr hx.toSameSlot⟩

/-- A thread off its worker keeps what it was suspended with. -/
theorem Frames.resting {s x : Local} (h : Frames s) (hx : SameCode s x)
    (hp : x.phase = .off ∨ x.phase = .entered ∨ x.phase = .impersonated) : Frames x := by
  have hno : ¬opening x := not_opening (by rcases hp with hp | hp | hp <;> simp [hp])
    (by rcases hp with hp | hp | hp <;> simp [hp])
  refine ⟨?_, ?_, h.parked_congr hx, h.resumable_congr hx, fun ho => absurd ho hno⟩
  · intro hb; rcases hp with hp | hp | hp <;> rw [hp] at hb <;> cases hb
  · intro k hb; rcases hp with hp | hp | hp <;> rw [hp] at hb <;> cases hb

/-- A step beside the microthread. -/
theorem Frames.beside {s x : Local} (h : Frames s) (hx : SameCode s x) (hp : x.phase = s.phase) (hc : x.cur = s.cur)
    (hi : opening x → ∀ top rest, x.th.interrupts = top :: rest →
      (x.th.interruptedContinuation ≠ none →
        ∃ a, top.interruptedCall = some a ∧ ⟨a⟩ ∉ x.handed ∧ a.number ≠ .interruptEnter) ∧
      ∀ a ctx, top.interruptedCall = some a → x.th.interruptedContinuation = none →
        x.th.resumeContext = some ctx → ctx.stack ∉ x.freed →
        ⟨a⟩ ∉ x.handed ∧ a.number ≠ .interruptEnter ∧ (ctx.frame = .worker → ctx.call = some a) ∧
          ctx.frame ≠ .handler) : Frames x where
  body hb := hc ▸ (h.body (hp ▸ hb)).congr hx.toSameSlot
  suspending k hb := hc ▸ (h.suspending k (hp ▸ hb)).congr hx.toSameSlot
  parked := h.parked_congr hx
  resumable := h.resumable_congr hx
  interrupted := hi

/-- What `doWork` finds when it makes a record for an interrupt. -/
theorem interrupted_found {s : Local} (h : Orderly s) (hp : s.phase = .entered) {c : Call}
    (hc : s.th.pendingCall = some c) :
    (s.th.continuationCallback ≠ none →
      ∃ a, s.th.activeCall = some a ∧ ⟨a⟩ ∉ s.handed ∧ a.number ≠ .interruptEnter) ∧
    ∀ a ctx, s.th.activeCall = some a → s.th.continuationCallback = none →
      s.th.resumeContext = some ctx → ctx.stack ∉ s.freed →
      ⟨a⟩ ∉ s.handed ∧ a.number ≠ .interruptEnter ∧ (ctx.frame = .worker → ctx.call = some a) ∧
        ctx.frame ≠ .handler := by
  have hi := h.not_interrupted hc
  have hs : slot s.th = s.th.activeCall := by simp [slot, hi]
  have hu : s.client.user = true := by
    by_contra hu
    have := mem_live.2 (.inl hc)
    simp [h.debts.kernel (by simpa using hu)] at this
  refine ⟨fun hk => hs ▸ h.frames.parked (h.shape.continued hk) hu, fun a ctx ha hk hr hfr => ?_⟩
  by_cases hsu : s.th.suspended = true
  · obtain ⟨ctx', hr', hb, hw, hh⟩ := h.frames.resumable hsu hk
    obtain rfl : ctx = ctx' := by simpa [hr] using hr'
    obtain ⟨a', ha', hu', hn'⟩ := hb hu
    obtain rfl : a = a' := by simpa [hs, ha] using ha'
    exact ⟨hu', hn', fun hw' => (hw hw').2.trans ha', fun hh' => by simp [hi] at hh; exact hh hh'⟩
  · exact absurd (h.places.spent (.inr (.inl hp)) (by simpa using hsu) hi ctx hr) hfr

theorem frames_effect {s x : Local} {l : Label} {b : Bool} (h : Orderly s)
    (he : Effect s l x b) : Frames x := by
  have hr := h.running
  have hf := h.frames
  have hu := user_talk (talk_effect he)
  have hawake : s.phase = .body ∨ s.phase = .answering → s.th.suspended = false := by
    intro hp
    exact h.shape.awake (by rcases hp with hp | hp <;> simp [Phase.isAwake, hp])
  cases he with
  | push | resumePush | popRunning | resume | s2cIdle => exact hf
  | popDeferred | s2cDefer | s2cClear | s2cFlush | defer | undefer | notifyDead | terminate
  | pushPending => exact { hf with }
  | replyReturn hp _ _ _ _ ha hl => exact frames_leave ((answer_frame ha).2.2.2.1.trans (hawake hp)) hl
  | syscallReturn hp _ _ ha hl => exact frames_leave ((answer_frame ha).2.2.2.1.trans (hawake (.inl hp))) hl
  | replyExit hp _ _ _ ha =>
    exact frames_between ((answer_frame ha).2.2.2.1.trans (hawake hp)) (.inr (.inr (.inr rfl)))
  | replyDirect hp _ _ _ hl | finish hp _ hl =>
    refine frames_leave ?_ hl
    exact hawake (.inl hp)
  | exitPop hp _ _ hl | exitPopSaved hp _ _ hl =>
    refine frames_leave ?_ hl
    exact h.shape.awake (by simp [Phase.isAwake, hp])
  | interruptNothing hp => exact frames_between (h.shape.awake (by simp [Phase.isAwake, hp])) (.inr (.inl rfl))
  | interruptEnd hp => exact frames_between (h.shape.awake (by simp [Phase.isAwake, hp])) (.inr (.inr (.inl rfl)))
  | startInterrupt hp hc =>
    refine ⟨by simp, by simp, by simp, by simp, fun _ top rest hr => ?_⟩
    obtain ⟨rfl, rfl⟩ := List.cons.inj hr
    exact interrupted_found h hp hc
  | @activate c hp hc =>
    obtain ⟨hi, -, hw⟩ := h.shape.starting hp
    have hs := h.shape.awake (by simp [Phase.isAwake, hp])
    have hpend := h.debts.pending c hc
    by_cases hn : c.number = .interruptEnter
    · refine ⟨by simp [hn], by simp [hn], by simp [hs], by simp [hs], fun _ => ?_⟩
      exact hf.interrupted (.inl ⟨hp, c, hc, hn⟩)
    · refine frames_body (by simp [hn]) hs ⟨fun _ => ⟨c, by simp [slot, hi], hpend, hn⟩, fun _ => ?_, fun hh => ?_⟩
      · simp [slot, hi]
      · simp [hw] at hh
  | @interruptContinuation top rest k hp hr _ hk =>
    obtain ⟨hi, ⟨-, hc⟩, -⟩ := h.shape.interrupting hp
    have hs := h.shape.awake (by simp [Phase.isAwake, hp])
    obtain ⟨a, ha, hu, hn⟩ := (hf.interrupted (.inr hp) top rest hr).1 (by simp [hk])
    refine frames_body rfl hs ⟨fun _ => ⟨a, by simp [slot, ha], hu, hn⟩, by simp, fun _ => ?_⟩
    exact ⟨rfl, (h.no_handling hi).1, hc⟩
  | @interruptJump top rest a ctx hp hr _ hk ha hctx hfr =>
    have hs := h.shape.awake (by simp [Phase.isAwake, hp])
    obtain ⟨hu, hn, hw, hh⟩ := (hf.interrupted (.inr hp) top rest hr).2 a ctx ha hk hctx hfr
    refine frames_body rfl hs ⟨fun _ => ⟨a, by simp [slot, ha], hu, hn⟩, fun hf => ?_, fun hf => absurd hf hh⟩
    simp [slot, ha, hw hf]
  | dispatchDone _ _ _ hw | doneFree _ _ _ hw | doneKeep _ _ _ hw =>
    cases hw with
    | idle | promote => exact hf.resting ⟨⟨rfl, rfl, rfl, rfl, rfl, rfl⟩, rfl, rfl, rfl⟩ (.inl rfl)
  | popDone | unimpersonate => exact hf.resting ⟨⟨rfl, rfl, rfl, rfl, rfl, rfl⟩, rfl, rfl, rfl⟩ (.inl rfl)
  | popEntered => exact hf.resting ⟨⟨rfl, rfl, rfl, rfl, rfl, rfl⟩, rfl, rfl, rfl⟩ (.inr (.inl rfl))
  | impersonate | claim => exact hf.resting ⟨⟨rfl, rfl, rfl, rfl, rfl, rfl⟩, rfl, rfl, rfl⟩ (.inr (.inr rfl))
  | resumeContinuation hp hsus =>
    refine frames_body rfl rfl ⟨(hf.parked hsus).congr ⟨rfl, rfl, rfl, rfl, rfl, rfl⟩, ?_, ?_⟩ <;> simp
  | resumeContext hp hsus _ hk _ hc =>
    obtain ⟨ctx, hctx, hfit⟩ := hf.resumable hsus hk
    cases hc.symm.trans hctx
    exact frames_body rfl rfl (hfit.congr ⟨rfl, rfl, rfl, rfl, rfl, rfl⟩)
  | @startCall c hp hc ho =>
    have hn : c.number ≠ .interruptEnter := ho.resolve_left (by simp [(h.no_handling (h.not_interrupted hc)).2])
    refine ⟨by simp, by simp, by simp, by simp, ?_⟩
    rintro (⟨-, i, hi, hn'⟩ | hx)
    · cases hc.symm.trans hi
      exact absurd hn' hn
    · cases hx
  | suspend hp =>
    have hfit : Fits _ s.cur := (hf.body hp).congr ⟨rfl, rfl, rfl, rfl, rfl, rfl⟩
    exact ⟨by simp, fun _ _ => hfit, fun _ => hfit.1, fun _ _ => ⟨_, rfl, hfit⟩, by simp [opening]⟩
  | commit hp =>
    refine ⟨by simp, by simp, fun hs => ?_, fun hs hk => ?_, by simp [opening]⟩
    · exact (hf.parked hs).congr ⟨rfl, rfl, rfl, rfl, rfl, rfl⟩
    · obtain ⟨ctx, hctx, hfit⟩ := hf.resumable hs (Option.or_eq_none_iff.1 hk).2
      exact ⟨ctx, hctx, hfit.congr ⟨rfl, rfl, rfl, rfl, rfl, rfl⟩⟩
  | commitResumed hp hsus =>
    exact frames_body rfl hsus ((hf.suspending _ hp).congr ⟨rfl, rfl, rfl, rfl, rfl, rfl⟩)
  | @pushTop _ top rest _ hr =>
    refine hf.beside ⟨⟨rfl, ?_, rfl, rfl, rfl, rfl⟩, rfl, rfl, rfl⟩ rfl rfl ?_
    · simp [slot, hr]
    · intro ho _ _ hx
      cases hx
      exact hf.interrupted ho top rest hr
  | recv hn =>
    refine hf.beside ⟨⟨hu, rfl, rfl, rfl, rfl, rfl⟩, rfl, rfl, rfl⟩ rfl rfl fun ho => hf.interrupted ?_
    exact .inr (ho.resolve_left fun hx => (h.shape.starting hx.1).2.1 hn)
  | recvQueued | receive => exact hf.beside ⟨⟨hu, rfl, rfl, rfl, rfl, rfl⟩, rfl, rfl, rfl⟩ rfl rfl hf.interrupted

/-! ## Every run -/

theorem orderly_init {s : State} (h : s.Init) : Orderly s.loc := by
  rcases h with rfl | ⟨k, rfl⟩
  all_goals
    refine ⟨by simp [setupKernelThread], ?_, ?_, ?_, ?_, ?_⟩
    · constructor <;> simp [Known, live, stored, setupKernelThread]
    · constructor <;> simp [live, setupKernelThread]
    · refine ⟨?_, ?_, ?_, ?_, ?_, ?_, ?_⟩
      · constructor <;> simp [opening, setupKernelThread]
      all_goals simp [Phase.isAwake]
    · constructor <;> simp [setupKernelThread]
    · constructor <;> simp [Busy, opening, setupKernelThread]

theorem orderly_fault {s : Local} (h : Orderly s) (f : Fault) : Orderly { s with fault := some f } where
  running := h.running
  names := { h.names with }
  debts := { h.debts with }
  shape := { h.shape with }
  places := { h.places with }
  frames := { h.frames with }

theorem orderly_effect {s : State} {l : Label} {x : Local} {b : Bool} (h : Orderly s.loc)
    (hg : s.disciplined l = true) (he : Effect s.loc l x b) : Orderly x where
  running := running_effect h.running he
  names := names_effect h.names hg he fun hp hf _ hc =>
    .inl (slot_mem_live (((h.frames.body hp).2.1 hf).2.symm.trans hc))
  debts := debts_effect h hg he
  shape := shape_effect h he
  places := stacks_effect h he
  frames := frames_effect h he

theorem orderly {G : State → Label → Prop} (hG : ∀ s l, G s l → s.disciplined l = true) {s : State}
    (h : Reach State.step G State.Init s) : Orderly s.loc := by
  refine h.inv (fun s => Orderly s.loc) (fun _ => orderly_init) fun s l s' hi hg hst => ?_
  obtain ⟨-, -, ⟨f, -, rfl⟩ | ⟨x, b, he, rfl⟩⟩ := step_cases hst
  · exact orderly_fault hi f
  · rw [account_loc]
    exact orderly_effect hi (hG s l hg) he

end DarlingServer
