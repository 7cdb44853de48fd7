import Mathlib.Data.List.Forall2
import Mathlib.Data.List.Nodup
import DarlingServer.Protocol
/-!
# Records and levels

The thread keeps a record for every interrupt it has begun and not left, the
client a level for every one it has entered and not left, and messages are under
way between the two. `frames` is what the client's side says the records should
be. With a client that pushes nothing back for an interrupt that is still queued,
and replies that go straight out, the two sides match record by record, and every
reply under way is one the client expects.
-/

namespace DarlingServer

open Thread Runs

/-- The thread has a record for the `interrupt_enter` `i`. -/
def made (s : Local) (i : Call) : Bool :=
  (s.phase = .starting && s.th.pendingCall = some i) || s.th.activeCall = some i || ⟨i⟩ ∈ s.handed

/-- The client waits for an `interrupt_exit` that has been answered. -/
def exitAnswered (s : Local) : Bool :=
  s.client.awaiting.any fun x => x.number = .interruptExit && ⟨x⟩ ∈ s.handed

/-- The interrupts that should have a record, with the call that each of them makes the client wait for. -/
def frames (s : Local) : List Level :=
  (s.client.entering.filter (made s)).toList.map (⟨·, s.client.awaiting⟩) ++
    if exitAnswered s then s.client.levels.tail else s.client.levels

/-- The replies in the records, but for one that is being left. -/
def replies (s : Local) : List (Option Message) :=
  (if s.phase = .exiting then s.th.interrupts.tail else s.th.interrupts).map (·.savedReply)

/-- Nothing is pushed back for an interrupt in the queue, and replies go straight out: they are not held
back for a server-to-client call, and the thread is not dead. -/
def State.directly (s : State) : Label → Bool
  | .pushReply _ => s.loc.client.entering.all (· ∉ s.loc.th.pendingInterrupts)
  | .reply _ => s.loc.th.interruptedForSignal || (!s.loc.th.deferReplyForS2C && !s.loc.th.dead)
  | _ => true

def State.straight (s : State) (l : Label) : Bool := s.disciplined l && s.directly l

theorem State.straight.disciplined {s : State} {l : Label} (h : s.straight l = true) : s.disciplined l = true := by
  rw [State.straight, Bool.and_eq_true] at h
  exact h.1

/-! ## Frames -/

theorem made_iff {s : Local} {i : Call} : made s i = true ↔
    s.phase = .starting ∧ s.th.pendingCall = some i ∨ s.th.activeCall = some i ∨ ⟨i⟩ ∈ s.handed := by
  simp [made, or_assoc]

theorem exitAnswered_iff {s : Local} : exitAnswered s = true ↔
    ∃ x, s.client.awaiting = some x ∧ x.number = .interruptExit ∧ ⟨x⟩ ∈ s.handed := by
  simp [exitAnswered, Option.any_eq_true]

theorem frames_congr {s x : Local} (hk : x.client.entering = s.client.entering ∧ x.client.awaiting = s.client.awaiting ∧
    x.client.levels = s.client.levels) (hm : ∀ i, s.client.entering = some i → made x i = made s i)
    (he : exitAnswered x = exitAnswered s) : frames x = frames s := by
  obtain ⟨h₁, h₂, h₃⟩ := hk
  simp only [frames, h₁, h₂, h₃, he]
  cases hi : s.client.entering with
  | none => rfl
  | some i => simp [Option.filter, hm i hi]

/-- The code of a call that answers is owed: it has not been answered, and the client waits for it. -/
theorem Orderly.answer_owed {s : Local} (h : Orderly s) {c : Call}
    (hc : s.phase = .body ∧ slot s.th = some c ∨ s.phase = .answering ∧ s.cur.call = some c) :
    ⟨c⟩ ∉ s.handed ∧ (s.client.awaiting = some c ∨ s.client.entering = some c) := by
  have hu : ⟨c⟩ ∉ s.handed ∧ c ∈ live s.th := by
    rcases hc with ⟨hp, hc⟩ | ⟨hp, hc⟩
    · have hm := slot_mem_live hc
      have hk : s.client.user = true := by
        by_contra hk
        simp [h.debts.kernel (by simpa using hk)] at hm
      obtain ⟨a, ha, hu, -⟩ := (h.frames.body hp).1 hk
      obtain rfl := Option.some.inj (ha.symm.trans hc)
      exact ⟨hu, hm⟩
    · obtain ⟨-, ⟨-, hcall⟩, i, ha, hn⟩ := h.shape.answering hp
      obtain rfl : i = c := Option.some.inj (ha.symm.trans (hcall.symm.trans hc))
      exact ⟨(h.entering_of_active ha hn).2, mem_live.2 (.inr (.inr (.inl ha)))⟩
  rcases h.debts.owed c hu.2 with ⟨-, hw⟩ | ⟨hh, -⟩
  · exact ⟨hu.1, hw⟩
  · exact absurd hh hu.1

/-- Where no call is being started, an interrupt has its record by the active call and the replies. -/
theorem made_elsewhere {s x : Local} {i : Call} (hs : s.phase ≠ .starting) (hx : x.phase ≠ .starting)
    (ha : x.th.activeCall = s.th.activeCall) (hh : x.handed = s.handed) : made x i = made s i := by
  simp [made, hs, hx, ha, hh]

theorem made_leave {s y : Local} {e : Exit} {i : Call} (hl : Leave s e y) (hp : s.phase ≠ .starting) :
    made y i = made s i := by
  cases hl with
  | top | unwind | jump => exact made_elsewhere hp (by simp) rfl rfl

theorem made_answer {s x : Local} {c i : Call} (hp : s.phase ≠ .starting)
    (hsig : s.th.interruptedForSignal = true → s.th.activeCall = some i) (ha : Answer s c x) : made x i = made s i := by
  cases ha with
  | saved hf => simp [made, hsig hf]
  | deferred _ hc | sent _ hc | dropped _ hc => simp [made, hp, hc, or_comm, eq_comm]

/-- Whether an interrupt has its record changes only when `doWork` begins it. -/
theorem made_effect {s x : Local} {l : Label} {b : Bool} (h : Orderly s) (he : Effect s l x b) (hr : ∀ n, l ≠ .recv n)
    {i : Call} (hi : s.client.entering = some i) (hs : ¬(l = .dispatch ∧ s.th.pendingCall = some i)) :
    made x i = made s i := by
  have hn := h.names.entering i hi
  have hsig : s.th.interruptedForSignal = true → s.th.activeCall = some i := by
    intro hf
    obtain ⟨j, ha, hj⟩ := h.shape.signal hf
    rw [ha, ← (h.entering_of_active ha hj).1, hi]
  cases he with
  | recv | recvQueued => simp at hr
  | dispatchDone hp _ _ hw | doneFree hp _ _ hw | doneKeep hp _ _ hw =>
    cases hw with
    | idle | promote => exact made_elsewhere (by simp [hp]) (by simp) rfl rfl
  | replyReturn hp _ _ _ _ ha hl =>
    have hp : s.phase ≠ .starting := by rcases hp with hp | hp <;> simp [hp]
    rw [made_leave hl (by rwa [(answer_frame ha).1])]
    exact made_answer hp hsig ha
  | syscallReturn hp _ _ ha hl =>
    have hp : s.phase ≠ .starting := by simp [hp]
    rw [made_leave hl (by rwa [(answer_frame ha).1])]
    exact made_answer hp hsig ha
  | replyExit hp _ _ _ ha =>
    have hp : s.phase ≠ .starting := by rcases hp with hp | hp <;> simp [hp]
    rw [← made_answer hp hsig ha]
    exact made_elsewhere (by rwa [(answer_frame ha).1]) (by simp) rfl rfl
  | replyDirect hp _ _ hc hl =>
    rw [made_leave hl (by simp [hp]), Bool.eq_iff_iff, made_iff, made_iff]
    -- the call that is answered is a `checkout`
    have hne : ∀ c : Call, c.number = .checkout → i ≠ c := by
      rintro _ hc rfl
      rw [hn] at hc; cases hc
    simp [hne _ hc]
  | finish hp _ hl => exact made_leave hl (by simp [hp])
  | exitPop hp _ _ hl | exitPopSaved hp _ _ hl =>
    rw [made_leave hl (by simp [hp])]
    rfl
  | popDone _ hrun | popEntered _ hrun =>
    have hoff := h.off hrun
    exact made_elsewhere (by simp [hoff]) (by simp) rfl rfl
  | resumeContinuation hp | resumeContext hp | suspend hp | commit hp | commitResumed hp | interruptContinuation hp
  | interruptJump hp | interruptNothing hp | interruptEnd hp | impersonate hp | claim hp | unimpersonate hp =>
    exact made_elsewhere (by simp [hp]) (by simp) rfl rfl
  | startCall hp hc =>
    have hne : s.th.pendingCall ≠ some i := fun hx => hs ⟨rfl, hx⟩
    simp [made, hp, hne]
  | startInterrupt hp hc =>
    have hne : s.th.pendingCall ≠ some i := fun hx => hs ⟨rfl, hx⟩
    have hna : s.th.activeCall ≠ some i := fun ha => by rw [h.debts.quiet i ha hn] at hc; cases hc
    simp [made, hp, hne, hna]
  | @activate c hp hc =>
    have hna : s.th.activeCall ≠ some i := fun ha => by rw [h.debts.quiet i ha hn] at hc; cases hc
    simp [made, hp, hc, hna]
  | _ => rfl

/-- The reply of another call does not answer an `interrupt_exit`. -/
theorem exitAnswered_handed {s x : Local} {c : Call} (hn : c.number ≠ .interruptExit)
    (hk : x.client.awaiting = s.client.awaiting) (hh : x.handed = s.handed ++ [⟨c⟩]) :
    exitAnswered x = exitAnswered s := by
  rw [Bool.eq_iff_iff, exitAnswered_iff, exitAnswered_iff, hk, hh]
  refine exists_congr fun a => and_congr_right fun _ => and_congr_right fun ha => ?_
  have hne : a ≠ c := by
    rintro rfl
    exact hn ha
  simp [hne]

theorem exitAnswered_answer {s x : Local} {c : Call} (ha : Answer s c x) (hn : c.number ≠ .interruptExit) :
    exitAnswered x = exitAnswered s := by
  cases ha with
  | saved | deferred | sent | dropped => exact exitAnswered_handed hn rfl rfl

theorem exitAnswered_effect {s x : Local} {l : Label} {b : Bool} (he : Effect s l x b) (hr : ∀ n, l ≠ .recv n)
    (hl : l ≠ .receive) (hx : s.phase = .exiting ∨ x.phase ≠ .exiting) : exitAnswered x = exitAnswered s := by
  cases he with
  | recv | recvQueued => simp at hr
  | receive => simp at hl
  | replyReturn _ _ _ _ hn ha hlv =>
    rw [← exitAnswered_answer ha hn]
    cases hlv <;> rfl
  | syscallReturn _ _ ht ha hlv =>
    rw [← exitAnswered_answer ha (fun hn => by simp [Call.isXNUTrap, hn] at ht)]
    cases hlv <;> rfl
  | replyExit hp => rcases hp with hp | hp <;> simp [hp] at hx
  | replyDirect _ _ _ hn hlv =>
    cases hlv with
    | top | unwind | jump => exact exitAnswered_handed (by simp [hn]) rfl rfl
  | finish _ _ hlv | exitPop _ _ _ hlv | exitPopSaved _ _ _ hlv => cases hlv <;> rfl
  | _ => rfl

theorem frames_eq_levels {s : Local} (h₁ : s.client.entering = none) (h₂ : exitAnswered s = false) :
    frames s = s.client.levels := by
  simp [frames, h₁, h₂]

theorem exitAnswered_none {s : Local} (h : ∀ a, s.client.awaiting = some a → a.number ≠ .interruptExit) :
    exitAnswered s = false := by
  by_contra hx
  obtain ⟨a, ha, hn, -⟩ := exitAnswered_iff.1 (by simpa using hx)
  exact h a ha hn

/-- What the client does, short of beginning and leaving interrupts, leaves the frames as they are. -/
theorem frames_receive {s : Local} {k : Client} (h : Orderly s)
    (hv : ∀ v ∈ s.client.levels, ∀ a, v.awaiting = some a → a.number ≠ .interruptExit)
    (hk : s.client.receive = some k) : frames { s with client := k } = frames s := by
  obtain ⟨m, wire, hw, hk⟩ := receive_some hk
  have hm : m ∈ s.handed := h.names.circulating m (.inl (by simp [hw]))
  cases hk with
  | @entered i hi hmi =>
    have hx : exitAnswered s = false := exitAnswered_none (h.names.noExit i · hi)
    have hmade : made s i = true := made_iff.2 (.inr (.inr (hmi ▸ hm)))
    refine (frames_eq_levels rfl (exitAnswered_none (by simp))).trans ?_
    simp [frames, hi, hmade, hx, Option.filter]
  | unexpected | ignored => rfl
  | exited he ha hn =>
    have hx : exitAnswered s = true := exitAnswered_iff.2 ⟨_, ha, hn, hm⟩
    refine (frames_eq_levels ?_ (exitAnswered_none fun a ha' => ?_)).trans ?_
    · exact he
    · obtain ⟨v, hv', hva⟩ := Option.bind_eq_some_iff.1 ha'
      exact hv v (List.mem_of_head? hv') a hva
    · simp [frames, he, hx]
  | answered he ha hn =>
    have hx : exitAnswered s = false := exitAnswered_none fun a ha' => by
      obtain rfl := Option.some.inj (ha.symm.trans ha')
      exact hn
    refine (frames_eq_levels ?_ (exitAnswered_none (by simp))).trans (frames_eq_levels he hx).symm
    exact he

theorem frames_recv {s : State} {x : Local} {n : Number} {b : Bool} (h : Orderly s.loc)
    (hg : s.disciplined (.recv n) = true) (he : Effect s.loc (.recv n) x b) : frames x = frames s.loc := by
  have hfresh : ∀ n, ⟨⟨s.loc.nextCall, n⟩⟩ ∉ s.loc.handed :=
    fun n hu => absurd (h.names.ids _ (.inr (.inl hu))) (by simp)
  have hh : x.handed = s.loc.handed := by cases he <;> rfl
  have hc : x.client = s.loc.client.send ⟨s.loc.nextCall, n⟩ := by cases he <;> rfl
  obtain ⟨-, -, hent, haw⟩ := disciplined_recv hg
  have hx : exitAnswered s.loc = false := exitAnswered_none fun a ha => (haw a ha).2
  by_cases hn : n = .interruptEnter
  · subst hn
    have hmade : made x ⟨s.loc.nextCall, .interruptEnter⟩ = false := by
      have hnew : ⟨s.loc.nextCall, .interruptEnter⟩ ∉ live s.loc.th :=
        fun hl => absurd (h.names.ids _ (.inl hl)) (by simp)
      have hna : s.loc.th.activeCall ≠ some ⟨s.loc.nextCall, .interruptEnter⟩ :=
        fun ha => hnew (mem_live.2 (.inr (.inr (.inl ha))))
      cases he with
      | recv hp =>
        have hst : s.loc.phase ≠ .starting := fun hs => (h.shape.starting hs).2.1 hp
        simp [made, hst, hna, hfresh]
      | recvQueued hp =>
        have hnp : s.loc.th.pendingCall ≠ some ⟨s.loc.nextCall, .interruptEnter⟩ :=
          fun hp => hnew (mem_live.2 (.inl hp))
        simp [made, hnp, hna, hfresh]
    rw [frames_eq_levels hent hx]
    simp only [Client.send, if_true] at hc
    have hx' : exitAnswered x = false := exitAnswered_none fun a ha => (haw a (by simpa [hc] using ha)).2
    simp [frames, hx', hc, hmade, Option.filter]
  · simp only [Client.send, hn, if_false] at hc
    have hx' : exitAnswered x = false := by simp [exitAnswered, hc, hh, hfresh]
    rw [frames_eq_levels hent hx, frames_eq_levels (by simp [hc, hent]) hx', hc]

/-- A step that neither begins an interrupt nor leaves one. -/
structure Within (s : Local) (l : Label) (x : Local) : Prop where
  begun : l = .dispatch → ∀ c, s.th.pendingCall = some c → c.number ≠ .interruptEnter
  left : s.phase = .exiting ∨ x.phase ≠ .exiting

theorem frames_within {s : State} {x : Local} {l : Label} {b : Bool} (h : Orderly s.loc)
    (hv : ∀ v ∈ s.loc.client.levels, ∀ a, v.awaiting = some a → a.number ≠ .interruptExit)
    (hg : s.disciplined l = true) (hw : Within s.loc l x) (he : Effect s.loc l x b) : frames x = frames s.loc := by
  have hkeep : (∀ n, l ≠ .recv n) → l ≠ .receive →
      x.client.entering = s.loc.client.entering ∧ x.client.awaiting = s.loc.client.awaiting ∧
        x.client.levels = s.loc.client.levels → frames x = frames s.loc := by
    intro hr hl hk
    refine frames_congr hk (fun i hi => made_effect h he hr hi ?_) (exitAnswered_effect he hr hl hw.left)
    rintro ⟨hd, hp⟩
    exact hw.begun hd i hp (h.names.entering i hi)
  cases talk_effect he with
  | send hr =>
    subst hr
    exact frames_recv h hg he
  | receive hr hk =>
    subst hr
    cases he with
    | receive hk => exact frames_receive h hv hk
  | pushed hr hk =>
    subst hr
    exact hkeep (by simp) (by simp) (by simp [hk])
  | hear ms hr _ hk =>
    by_cases hl : l = .receive
    · subst hl
      cases he with
      | receive hk' => exact frames_receive h hv hk'
    · exact hkeep hr hl (by simp [hk])

/-- A pending `interrupt_enter` is the one the client waits for. -/
theorem Orderly.entering_of_pending {s : Local} (h : Orderly s) {c : Call} (hp : s.th.pendingCall = some c)
    (hn : c.number = .interruptEnter) : s.client.entering = some c ∧ made { s with phase := .entered } c = false := by
  have hu := h.debts.pending c hp
  have ha : s.th.activeCall ≠ some c := fun ha => h.debts.waiting_ne (.inl hp) (.inl ha) rfl
  refine ⟨?_, by simp [made, hu, ha]⟩
  rcases h.debts.owed c (mem_live.2 (.inl hp)) with ⟨-, hw | hw⟩ | ⟨hw, -⟩
  · exact absurd hn (h.names.awaiting c hw)
  · exact hw
  · exact absurd hw hu

theorem frames_begun {s x : Local} (h : Orderly s) {c : Call} (hp : s.phase = .entered) (hc : s.th.pendingCall = some c)
    (hn : c.number = .interruptEnter) (hx : x.phase = .starting ∧ x.th.pendingCall = some c)
    (hk : x.client = s.client) (hh : x.handed = s.handed) : frames x = ⟨c, s.client.awaiting⟩ :: frames s := by
  obtain ⟨hi, hm⟩ := h.entering_of_pending hc hn
  have hm : made s c = false := by rw [← hm, ← hp]
  have hm' : made x c = true := made_iff.2 (.inl hx)
  have he : exitAnswered x = exitAnswered s := by simp only [exitAnswered, hk, hh]
  simp [frames, hk, hi, hm, hm', he, Option.filter]

/-- Until its `interrupt_exit` is answered the innermost level has its frame. -/
theorem frames_unanswered {s : Local} (h : Orderly s) {c : Call} (hw : s.client.awaiting = some c)
    (hn : c.number = .interruptExit) (hu : ⟨c⟩ ∉ s.handed) :
    s.client.entering = none ∧ frames s = s.client.levels := by
  have hi : s.client.entering = none := by
    by_contra hi
    obtain ⟨i, hi⟩ := Option.ne_none_iff_exists'.1 hi
    exact h.names.noExit i c hi hw hn
  refine ⟨hi, frames_eq_levels hi ?_⟩
  by_contra hs
  obtain ⟨a, ha, -, hm⟩ := exitAnswered_iff.1 (by simpa using hs)
  obtain rfl := Option.some.inj (hw.symm.trans ha)
  exact hu hm

/-- An `interrupt_exit` that is answered leaves the innermost frame. -/
theorem frames_left {s x : Local} (h : Orderly s) {c : Call} (hw : s.client.awaiting = some c)
    (hn : c.number = .interruptExit) (hu : ⟨c⟩ ∉ s.handed) (hh : ⟨c⟩ ∈ x.handed)
    (hk : x.client.entering = s.client.entering ∧ x.client.awaiting = s.client.awaiting ∧
      x.client.levels = s.client.levels) : frames x = s.client.levels.tail := by
  obtain ⟨h₁, h₂, h₃⟩ := hk
  have hi := (frames_unanswered h hw hn hu).1
  have hx : exitAnswered x = true := exitAnswered_iff.2 ⟨c, h₂.trans hw, hn, hh⟩
  simp [frames, h₁, hi, hx, h₃]

/-! ## The records match the frames -/

/-- A reply in the record of a frame is for the call the frame makes the client wait for. -/
def Waits (v : Level) (r : Option Message) : Prop := ∀ m, r = some m → v.awaiting = some m.call

structure Levels (s : Local) : Prop where
  exiting : s.phase = .exiting → s.th.activeCall = none ∧ ∀ i, s.client.entering = some i → ⟨i⟩ ∉ s.handed
  owner : ∀ i, s.client.entering = some i → ⟨i⟩ ∈ s.handed ∨ s.th.pendingCall = some i ∨
    i ∈ s.th.pendingInterrupts ∨ s.th.activeCall = some i
  noExit : ∀ v ∈ s.client.levels, ∀ a, v.awaiting = some a → a.number ≠ .interruptExit
  handed : ∀ v ∈ s.client.levels, ⟨v.opener⟩ ∈ s.handed
  matched : List.Forall₂ Waits (frames s) (replies s)

theorem noExit_effect {s : State} {x : Local} {l : Label} {b : Bool} (h : Orderly s.loc) (hi : Levels s.loc)
    (he : Effect s.loc l x b) : ∀ v ∈ x.client.levels, ⟨v.opener⟩ ∈ x.handed ∧
      ∀ a, v.awaiting = some a → a.number ≠ .interruptExit := by
  have hold : ∀ v ∈ s.loc.client.levels, ⟨v.opener⟩ ∈ x.handed ∧
      ∀ a, v.awaiting = some a → a.number ≠ .interruptExit :=
    fun v hv => ⟨ledger_handed (ledger_effect he) (hi.handed v hv), hi.noExit v hv⟩
  cases talk_effect he with
  | send _ hk =>
    intro v hv
    refine hold v ?_
    rw [hk, Client.send] at hv
    split at hv <;> exact hv
  | receive hr hk =>
    obtain ⟨m, wire, hw, hk⟩ := receive_some hk
    have hm : m ∈ x.handed :=
      ledger_handed (ledger_effect he) (h.names.circulating m (.inl (by simp [hw])))
    generalize x.client = k at hk
    cases hk with
    | @entered i hi hmi =>
      intro v hv
      rcases List.mem_cons.1 hv with rfl | hv
      · exact ⟨hmi ▸ hm, fun a ha => h.names.noExit i a hi ha⟩
      · exact hold v hv
    | exited => exact fun v hv => hold v (List.mem_of_mem_tail hv)
    | unexpected | answered | ignored => exact hold
  | pushed _ hk | hear _ _ _ hk => simpa [hk] using hold

/-- The phase becomes `exiting` only when an `interrupt_exit` answers. -/
theorem exiting_cases {s x : Local} {l : Label} {b : Bool} (he : Effect s l x b) (hp : x.phase = .exiting) :
    s.phase = .exiting ∧ x.th.activeCall = s.th.activeCall ∧ x.handed = s.handed ∧ x.cur = s.cur ∨
      ∃ c y, l = .reply .byReturn ∧ (s.phase = .body ∨ s.phase = .answering) ∧ s.cur.frame = .worker ∧
        s.cur.call = some c ∧ c.number = .interruptExit ∧ Answer s c y ∧ x = { y with phase := .exiting } := by
  cases he with
  | replyExit h₁ h₂ h₃ h₄ ha => exact .inr ⟨_, _, rfl, h₁, h₂, h₃, h₄, ha, rfl⟩
  | dispatchDone _ _ _ hw | doneFree _ _ _ hw | doneKeep _ _ _ hw => cases hp
  | replyReturn _ _ _ _ _ _ hl | syscallReturn _ _ _ _ hl | replyDirect _ _ _ _ hl | finish _ _ hl
  | exitPop _ _ _ hl | exitPopSaved _ _ _ hl => exact absurd hp (leave_not_exiting hl)
  | activate => split at hp <;> cases hp
  | _ => first | cases hp | exact .inl ⟨hp, rfl, rfl, rfl⟩

/-- The call that leaves an interrupt is the one the client waits for. -/
theorem Orderly.exit_awaited {s : Local} (h : Orderly s) {c : Call} (hp : s.phase = .body ∨ s.phase = .answering)
    (hw : s.cur.frame = .worker) (hc : s.cur.call = some c) (hn : c.number = .interruptExit) :
    s.phase = .body ∧ ⟨c⟩ ∉ s.handed ∧ s.client.awaiting = some c ∧ s.client.entering = none ∧
      s.th.interruptedForSignal = false := by
  have hb : s.phase = .body ∧ slot s.th = some c := by
    rcases hp with hp | hp
    · exact ⟨hp, ((h.frames.body hp).2.1 hw).2.symm.trans hc⟩
    · obtain ⟨-, ⟨-, hcall⟩, i, ha, hni⟩ := h.shape.answering hp
      obtain rfl := Option.some.inj (ha.symm.trans (hcall.symm.trans hc))
      simp [hn] at hni
  obtain ⟨hu, hwait⟩ := h.answer_owed (.inl hb)
  have haw : s.client.awaiting = some c := by
    rcases hwait with hwait | hwait
    · exact hwait
    · simp [h.names.entering c hwait] at hn
  have hent := (frames_unanswered h haw hn hu).1
  refine ⟨hb.1, hu, haw, hent, ?_⟩
  by_contra hf
  obtain ⟨i, ha, hni⟩ := h.shape.signal (by simpa using hf)
  simp [(h.entering_of_active ha hni).1] at hent

theorem exiting_effect {s : State} {x : Local} {l : Label} {b : Bool} (h : Orderly s.loc) (hi : Levels s.loc)
    (he : Effect s.loc l x b) (hp : x.phase = .exiting) :
    x.th.activeCall = none ∧ ∀ i, x.client.entering = some i → ⟨i⟩ ∉ x.handed := by
  rcases exiting_cases he hp with ⟨hs, ha, hh, -⟩ | ⟨c, y, rfl, h₁, h₂, h₃, h₄, ha, rfl⟩
  · obtain ⟨h₁, h₂⟩ := hi.exiting hs
    refine ⟨ha.trans h₁, fun i hx => ?_⟩
    rw [hh]
    rcases entering_talk (talk_effect he) hx with hx | ⟨n, -, rfl⟩
    · exact h₂ i hx
    · exact fun hu => absurd (h.names.ids _ (.inr (.inl hu))) (by simp)
  · obtain ⟨-, -, -, hent, hf⟩ := h.exit_awaited h₁ h₂ h₃ h₄
    cases ha with
    | saved hf' => simp [hf] at hf'
    | deferred | sent | dropped => exact ⟨rfl, by simp [hent]⟩

/-- The owner of an interrupt that is answered leaves its reply behind. -/
theorem owned_answer {s x : Local} {c i : Call} (ha : Answer s c x)
    (ho : s.th.pendingCall = some i ∨ i ∈ s.th.pendingInterrupts ∨ s.th.activeCall = some i) :
    ⟨i⟩ ∈ x.handed ∨ x.th.pendingCall = some i ∨ i ∈ x.th.pendingInterrupts ∨ x.th.activeCall = some i := by
  cases ha with
  | saved => exact .inr ho
  | deferred _ hc | sent _ hc | dropped _ hc =>
    rcases ho with ho | ho | ho
    · exact .inr (.inl ho)
    · exact .inr (.inr (.inl ho))
    · cases hc.symm.trans ho
      exact .inl (List.mem_append_right _ List.mem_cons_self)

theorem owner_effect {s : State} {x : Local} {l : Label} {b : Bool} (h : Orderly s.loc) (hi : Levels s.loc)
    (he : Effect s.loc l x b) {i : Call} (hx : x.client.entering = some i) :
    ⟨i⟩ ∈ x.handed ∨ x.th.pendingCall = some i ∨ i ∈ x.th.pendingInterrupts ∨ x.th.activeCall = some i := by
  have hm := fun m => ledger_handed (m := m) (ledger_effect he)
  rcases entering_talk (talk_effect he) hx with hs | ⟨n, rfl, rfl⟩
  · have hn := h.names.entering i hs
    have hq := fun ha => h.debts.quiet i ha hn
    rcases hi.owner i hs with ho | ho
    · exact .inl (hm _ ho)
    · cases he with
      | dispatchDone _ _ _ hw | doneFree _ _ _ hw | doneKeep _ _ _ hw =>
        cases hw with
        | idle => exact .inr ho
        | promote _ _ hp hrest =>
          -- the first of the queue becomes the pending call
          have hp : s.loc.th.pendingCall = none := hp
          have hrest : s.loc.th.pendingInterrupts = _ :: _ := hrest
          rw [hp, hrest, List.mem_cons] at ho
          rcases ho with ho | (rfl | ho) | ho
          · cases ho
          · exact .inr (.inl rfl)
          · exact .inr (.inr (.inl ho))
          · exact .inr (.inr (.inr ho))
      | replyReturn _ _ _ _ _ ha hl | syscallReturn _ _ _ ha hl =>
        have hown := owned_answer ha ho
        cases hl <;> exact hown
      | replyExit _ _ _ _ ha =>
        have hown := owned_answer ha ho
        exact hown
      | replyDirect _ _ _ _ hl | finish _ _ hl | exitPop _ _ _ hl | exitPopSaved _ _ _ hl => cases hl <;> exact .inr ho
      | recv hp =>
        rw [hp] at ho
        exact .inr (ho.elim (fun ho => by cases ho) .inr)
      | recvQueued => exact .inr (ho.imp_right (Or.imp_left (List.mem_append_left _)))
      | startInterrupt _ hc =>
        refine .inr (ho.imp_right (Or.imp_right fun ha => ?_))
        rw [hq ha] at hc; cases hc
      | activate _ hc =>
        rcases ho with ho | ho | ha
        · cases hc.symm.trans ho
          exact .inr (.inr (.inr rfl))
        · exact .inr (.inr (.inl ho))
        · rw [hq ha] at hc; cases hc
      | _ => exact .inr ho
  · cases he with
    | recv => exact .inr (.inl rfl)
    | recvQueued => exact .inr (.inr (.inl (by simp)))

/-! ## Circulation -/

/-- The replies under way: to the client, back from it, or put aside. -/
def circulating (s : Local) : List Message := s.client.wire ++ s.client.pushing.toList ++ stored s.th

/-- The client will know what to do with the reply to `c`. -/
def Expected (s : Local) (c : Call) : Prop :=
  s.client.entering = some c ∨ s.client.awaiting = some c ∨
    exitAnswered s = true ∧ s.client.levels.head?.bind (·.awaiting) = some c

/-- A reply pushed ahead of its interrupt is for a call the client waits for under an `interrupt_enter`
that has yet to begin. -/
def Early (s : Local) (m : Message) : Prop :=
  s.client.awaiting = some m.call ∧ ∃ i, s.client.entering = some i ∧
    (s.th.pendingCall = some i ∨ s.th.activeCall = some i ∧ s.phase = .interrupting)

structure Circulation (s : Local) : Prop where
  single : (circulating s).Nodup
  wire : ∀ m ∈ s.client.wire, Expected s m.call
  pushing : ∀ m, s.client.pushing = some m → s.client.awaiting = some m.call ∧ s.client.entering ≠ none
  early : ∀ m, s.th.pendingSavedReply = some m → Early s m
  leaving : s.phase = .exiting → ∀ top rest m, s.th.interrupts = top :: rest → top.savedReply = some m →
    Expected s m.call
  last : ∀ i, s.client.entering = some i → ⟨i⟩ ∈ s.handed → s.client.wire.getLast? = some ⟨i⟩
  direct : s.th.deferredReply = none

theorem circulating_leave {s y : Local} {e : Exit} (hl : Leave s e y) :
    circulating y = circulating s ∧ y.handed = s.handed := by
  cases hl <;> exact ⟨rfl, rfl⟩

theorem circulating_answer {s x : Local} {c : Call} (ha : Answer s c x) (m : Message) :
    (circulating x).count m + s.handed.count m ≤ (circulating s).count m + x.handed.count m := by
  cases ha with
  | saved _ hr _ hs =>
    simp only [circulating, stored, hr, hs, List.filterMap_cons, List.count_append, List.count_cons, List.count_nil]
    omega
  | deferred =>
    simp only [circulating, stored, Option.toList_some, List.count_append, List.count_cons, List.count_nil]
    omega
  | sent | dropped =>
    simp only [circulating, stored, List.count_append]
    omega

theorem circulating_receive {k k' : Client} (h : k.receive = some k') (m : Message) :
    (k'.wire ++ k'.pushing.toList).count m ≤ (k.wire ++ k.pushing.toList).count m := by
  obtain ⟨m', wire, hw, hk⟩ := receive_some h
  cases hk <;> simp [hw, List.count_append, List.count_cons]

/-- What a step adds to the replies under way is the reply it makes. -/
theorem circulating_effect {s : State} {x : Local} {l : Label} {b : Bool} (hg : s.disciplined l = true)
    (he : Effect s.loc l x b) (m : Message) :
    (circulating x).count m + s.loc.handed.count m ≤ (circulating s.loc).count m + x.handed.count m := by
  cases he with
  | replyReturn _ _ _ _ _ ha hl | syscallReturn _ _ _ ha hl =>
    rw [(circulating_leave hl).1, (circulating_leave hl).2]
    exact circulating_answer ha m
  | replyExit _ _ _ _ ha => exact circulating_answer ha m
  | replyDirect _ _ _ _ hl =>
    rw [(circulating_leave hl).1, (circulating_leave hl).2]
    simp only [circulating, stored, List.count_append]
    omega
  | finish _ _ hl => exact Nat.le_of_eq (by rw [(circulating_leave hl).1, (circulating_leave hl).2])
  | exitPop _ hr hs hl | exitPopSaved _ hr hs hl =>
    rw [(circulating_leave hl).1, (circulating_leave hl).2]
    simp only [circulating, stored, hr, hs, List.filterMap_cons, List.count_append, List.count_cons, List.count_nil]
    omega
  | dispatchDone _ _ _ hw | doneFree _ _ _ hw | doneKeep _ _ _ hw => cases hw <;> exact Nat.le_refl _
  | interruptContinuation _ hr hs | interruptJump _ hr hs | interruptNothing _ hr hs =>
    have := stored_interruptBegin hr hs m
    simp only [circulating, stored, List.count_append] at this ⊢
    omega
  | interruptEnd _ hr =>
    simp only [circulating, stored, hr, List.filterMap_cons]
    omega
  | receive hk =>
    have := circulating_receive hk m
    simp only [circulating, List.count_append] at this ⊢
    omega
  | @pushPending m' =>
    have hp : s.loc.client.pushing = some m' := by simpa [State.disciplined, State.conforms] using hg
    simp only [circulating, stored, hp, Option.toList_some, Option.toList_none, List.count_append, List.count_nil]
    omega
  | @pushTop m' _ _ _ hr hs =>
    have hp : s.loc.client.pushing = some m' := by simpa [State.disciplined, State.conforms] using hg
    simp only [circulating, stored, hp, hr, hs, List.filterMap_cons, Option.toList_some, Option.toList_none,
      List.count_append, List.count_cons, List.count_nil]
    omega
  | s2cClear _ hs | s2cFlush _ hs =>
    simp only [circulating, stored, hs, Option.toList_some, Option.toList_none, List.count_append, List.count_nil]
    omega
  | recv | recvQueued =>
    unfold Client.send
    split <;> exact Nat.le_refl _
  | _ => exact Nat.le_refl _

theorem answer_slot {s y : Local} {c : Call} (h : Orderly s) (hp : s.phase = .body ∨ s.phase = .answering)
    (ha : Answer s c y) : s.phase = .body ∧ slot s.th = some c ∨ s.phase = .answering ∧ s.cur.call = some c := by
  rcases hp with hp | hp
  · refine .inl ⟨hp, ?_⟩
    cases ha with
    | saved hf hr hc => simp [slot, hf, hr, hc]
    | deferred hf hc | sent hf hc | dropped hf hc => simp [slot, hf, hc]
  · obtain ⟨hf, ⟨-, hcall⟩, -⟩ := h.shape.answering hp
    refine .inr ⟨hp, hcall.trans ?_⟩
    cases ha with
    | saved hf' => simp [hf] at hf'
    | deferred _ hc | sent _ hc | dropped _ hc => exact hc

/-- A step makes at most one reply, to a call that the client waits for and that has had none. -/
theorem handed_effect {s x : Local} {l : Label} {b : Bool} (h : Orderly s) (he : Effect s l x b) :
    x.handed = s.handed ∨ ∃ c, x.handed = s.handed ++ [⟨c⟩] ∧ c ∈ live s.th ∧ ⟨c⟩ ∉ s.handed ∧
      (s.client.awaiting = some c ∨ s.client.entering = some c) := by
  cases ledger_effect he with
  | keep _ _ hh | owe _ _ hh => exact .inl hh
  | pay hl hh hp ha =>
    obtain ⟨y, ha, -⟩ := ha
    exact .inr ⟨_, hh, hl.mem_iff.2 (by simp), h.answer_owed (answer_slot h hp ha)⟩
  | direct _ hh _ hp hw hc =>
    have hs := ((h.frames.body hp).2.1 hw).2.symm.trans hc
    exact .inr ⟨_, hh, slot_mem_live hs, h.answer_owed (.inl ⟨hp, hs⟩)⟩

theorem single_effect {s : State} {x : Local} {l : Label} {b : Bool} (h : Orderly s.loc)
    (hg : s.disciplined l = true) (hi : (circulating s.loc).Nodup) (he : Effect s.loc l x b) :
    (circulating x).Nodup := by
  rw [List.nodup_iff_count_le_one] at hi ⊢
  intro m
  have hc := circulating_effect hg he m
  rcases handed_effect h he with hh | ⟨c, hh, -, hu, -⟩
  · have := hi m
    rw [hh] at hc
    omega
  · have := hi m
    rw [hh, List.count_append] at hc
    by_cases hm : m = ⟨c⟩
    · subst hm
      have hz : (circulating s.loc).count ⟨c⟩ = 0 := by
        refine List.count_eq_zero.2 fun hm => hu (h.names.circulating _ ?_)
        simpa [circulating, or_assoc, or_comm, or_left_comm] using hm
      simp only [List.count_singleton_self] at hc
      omega
    · rw [List.count_singleton, if_neg (by simpa using fun e => hm e.symm)] at hc
      omega

/-- What the server puts on the wire: a reply it just made, the one in the record it leaves, or a deferred one. -/
theorem wire_effect {s x : Local} {l : Label} {b : Bool} (he : Effect s l x b) (hl : l ≠ .receive) :
    x.client.wire = s.client.wire ∧ x.sent = s.sent ∨
      ∃ m, x.client.wire = s.client.wire ++ [m] ∧ x.sent = s.sent ++ [m] ∧ (x.handed = s.handed ++ [m] ∨
        (l = .exitPop ∧ s.phase = .exiting ∧ ∃ top rest, s.th.interrupts = top :: rest ∧ top.savedReply = some m) ∨
        s.th.deferredReply = some m) := by
  cases he with
  | receive => simp at hl
  | recv | recvQueued =>
    refine .inl ⟨?_, rfl⟩
    unfold Client.send
    split <;> rfl
  | replyReturn _ _ _ _ _ ha hlv | syscallReturn _ _ _ ha hlv => cases hlv <;> cases ha <;> simp
  | replyExit _ _ _ _ ha => cases ha <;> simp
  | replyDirect _ _ _ _ hlv => cases hlv <;> exact .inr ⟨_, rfl, rfl, .inl rfl⟩
  | finish _ _ hlv | exitPop _ _ _ hlv => cases hlv <;> exact .inl ⟨rfl, rfl⟩
  | exitPopSaved hp hr hs hlv => cases hlv <;> exact .inr ⟨_, rfl, rfl, .inr (.inl ⟨rfl, hp, _, _, hr, hs⟩)⟩
  | s2cFlush _ hs => exact .inr ⟨_, rfl, rfl, .inr (.inr hs)⟩
  | _ => exact .inl ⟨rfl, rfl⟩

theorem exitAnswered_mono {s x : Local} (hk : x.client.awaiting = s.client.awaiting)
    (hh : ∀ m, m ∈ s.handed → m ∈ x.handed) (h : exitAnswered s = true) : exitAnswered x = true := by
  obtain ⟨a, ha, hn, hm⟩ := exitAnswered_iff.1 h
  exact exitAnswered_iff.2 ⟨a, hk.trans ha, hn, hh _ hm⟩

theorem Expected.mono {s x : Local} {c : Call} (h : Expected s c)
    (hk : x.client.entering = s.client.entering ∧ x.client.awaiting = s.client.awaiting ∧
      x.client.levels = s.client.levels) (hh : ∀ m, m ∈ s.handed → m ∈ x.handed) : Expected x c := by
  obtain ⟨h₁, h₂, h₃⟩ := hk
  rcases h with h | h | ⟨hx, h⟩
  · exact .inl (h₁.trans h)
  · exact .inr (.inl (h₂.trans h))
  · exact .inr (.inr ⟨exitAnswered_mono h₂ hh hx, by rw [h₃]; exact h⟩)

/-- A client that sends a call expects no reply, but for the one that `interrupt_enter` interrupts. -/
theorem Expected.send {s : State} {x : Local} {n : Number} {c : Call} (h : Expected s.loc c)
    (hg : s.disciplined (.recv n) = true) (hk : x.client = s.loc.client.send ⟨s.loc.nextCall, n⟩) : Expected x c := by
  obtain ⟨-, -, hent, haw⟩ := disciplined_recv hg
  rcases h with h | h | ⟨h, -⟩
  · simp [hent] at h
  · simp [Expected, hk, Client.send, (haw c h).1, h]
  · obtain ⟨a, ha, hax, -⟩ := exitAnswered_iff.1 h
    exact absurd hax (haw a ha).2

/-- Only its own sending and receiving changes what a client waits for. -/
theorem client_effect {s x : Local} {l : Label} {b : Bool} (he : Effect s l x b) (hr : ∀ n, l ≠ .recv n)
    (hl : l ≠ .receive) : x.client.entering = s.client.entering ∧ x.client.awaiting = s.client.awaiting ∧
      x.client.levels = s.client.levels := by
  cases talk_effect he with
  | send h => exact absurd h (hr _)
  | receive h => exact absurd h hl
  | pushed _ hk | hear _ _ _ hk => simp [hk]

theorem Expected.receive {s : Local} {k : Client} {m : Message} {wire : List Message} {c : Call} (h : Expected s c)
    (hk : Receives s.client m wire k) (hne : ⟨c⟩ ≠ m) (hent : ∀ i, s.client.entering = some i → m ≠ ⟨i⟩) :
    Expected { s with client := k } c := by
  have hcall : ∀ {d}, some m.call = some d → d ≠ c := by
    rintro d hd rfl
    obtain rfl := Option.some.inj hd
    exact hne rfl
  cases hk with
  | entered hi hmi => exact absurd hmi (hent _ hi)
  | unexpected | ignored => exact h
  | exited he ha hn =>
    rcases h with h | h | ⟨-, h⟩
    · simp [he] at h
    · exact absurd rfl (hcall (ha.symm.trans h))
    · exact .inr (.inl h)
  | answered he ha hn =>
    rcases h with h | h | ⟨h, -⟩
    · simp [he] at h
    · exact absurd rfl (hcall (ha.symm.trans h))
    · obtain ⟨a, ha', hax, -⟩ := exitAnswered_iff.1 h
      obtain rfl := Option.some.inj (ha.symm.trans ha')
      exact absurd hax hn

/-- The reply to `interrupt_enter` is the last one on the wire when the client takes it. -/
theorem wire_entered {s : Local} (hc : Circulation s) {i : Call} {wire : List Message}
    (hi : s.client.entering = some i) (hh : ⟨i⟩ ∈ s.handed) (hw : s.client.wire = ⟨i⟩ :: wire) : wire = [] := by
  have hl := hc.last i hi hh
  have hn : s.client.wire.Nodup := (List.nodup_append.1 (List.nodup_append.1 hc.single).1).1
  cases wire with
  | nil => rfl
  | cons m ms =>
    rw [hw] at hl hn
    rw [List.getLast?_cons_cons] at hl
    exact absurd (List.mem_of_getLast? hl) (List.nodup_cons.1 hn).1

theorem expected_effect {s : State} {x : Local} {l : Label} {b : Bool} (h : Orderly s.loc) (hc : Circulation s.loc)
    (hg : s.disciplined l = true) (he : Effect s.loc l x b) {m : Message} (hm : m ∈ x.client.wire) :
    Expected x m.call := by
  have hh := fun m => ledger_handed (m := m) (ledger_effect he)
  by_cases hl : l = .receive
  · subst hl
    cases he with
    | receive hk =>
      obtain ⟨m', wire, hw, hk⟩ := receive_some hk
      have hn : s.loc.client.wire.Nodup := (List.nodup_append.1 (List.nodup_append.1 hc.single).1).1
      have hm' : m ∈ wire := by cases hk <;> exact hm
      have hmw : m ∈ s.loc.client.wire := by simp [hw, hm']
      refine (hc.wire m hmw).receive hk ?_ fun i hi hmi => ?_
      · rw [hw] at hn
        exact ne_of_mem_of_not_mem hm' (List.nodup_cons.1 hn).1
      · subst hmi
        have := wire_entered hc hi (h.names.circulating _ (.inl (by simp [hw]))) hw
        simp [this] at hm'
  · by_cases hr : ∃ n, l = .recv n
    · obtain ⟨n, rfl⟩ := hr
      have hk : x.client = s.loc.client.send ⟨s.loc.nextCall, n⟩ := by cases he <;> rfl
      refine (hc.wire m ?_).send hg hk
      rw [hk, Client.send] at hm
      split at hm <;> exact hm
    · have hk := client_effect he (fun n hn => hr ⟨n, hn⟩) hl
      rcases wire_effect he hl with ⟨hw, -⟩ | ⟨m', hw, -, hnew⟩
      · exact (hc.wire m (hw ▸ hm)).mono hk hh
      rw [hw, List.mem_append, List.mem_singleton] at hm
      rcases hm with hm | rfl
      · exact (hc.wire m hm).mono hk hh
      rcases hnew with hnew | ⟨-, hp, top, rest, hi, hs⟩ | hd
      · rcases handed_effect h he with he' | ⟨c, he', -, -, ho⟩
        · simp [he'] at hnew
        · obtain rfl : m = ⟨c⟩ := by simpa [hnew] using he'
          exact (ho.elim (fun h => .inr (.inl h)) .inl : Expected s.loc c).mono hk hh
      · exact (hc.leaving hp top rest m hi hs).mono hk hh
      · simp [hc.direct] at hd

theorem direct_answer {s x : Local} {c : Call} (hd : s.th.deferredReply = none)
    (hg : (s.th.interruptedForSignal || (!s.th.deferReplyForS2C && !s.th.dead)) = true) (ha : Answer s c x) :
    x.th.deferredReply = none := by
  cases ha with
  | deferred hf _ hx => simp [hf, hx] at hg
  | saved | sent | dropped => exact hd

theorem direct_effect {s : State} {x : Local} {l : Label} {b : Bool} (hd : s.loc.th.deferredReply = none)
    (hg : s.directly l = true) (he : Effect s.loc l x b) : x.th.deferredReply = none := by
  cases he with
  | replyReturn _ _ _ _ _ ha hl | syscallReturn _ _ _ ha hl =>
    have hx := direct_answer hd hg ha
    cases hl <;> exact hx
  | replyExit _ _ _ _ ha =>
    have hx := direct_answer hd hg ha
    exact hx
  | replyDirect _ _ _ _ hl | finish _ _ hl | exitPop _ _ _ hl | exitPopSaved _ _ _ hl => cases hl <;> exact hd
  | dispatchDone _ _ _ hw | doneFree _ _ _ hw | doneKeep _ _ _ hw => cases hw <;> exact hd
  | s2cClear | s2cFlush => rfl
  | _ => exact hd

/-- The record being left is not written to. -/
theorem exiting_not_pushed {s : State} {m : Message} (h : Orderly s.loc) (hl : Levels s.loc) (hc : Circulation s.loc)
    (hg : s.straight (.pushReply m) = true) (hp : s.loc.phase = .exiting) :
    ∃ i, s.loc.th.pendingCall = some i ∧ i.number = .interruptEnter := by
  rw [State.straight, Bool.and_eq_true] at hg
  have hpush : s.loc.client.pushing = some m := by simpa [State.disciplined, State.conforms] using hg.1
  obtain ⟨i, hi⟩ := Option.ne_none_iff_exists'.1 (hc.pushing m hpush).2
  obtain ⟨hact, hun⟩ := hl.exiting hp
  have hq : i ∉ s.loc.th.pendingInterrupts := by simpa [State.directly, hi] using hg.2
  rcases hl.owner i hi with ho | ho | ho | ho
  · exact absurd ho (hun i hi)
  · exact ⟨i, ho, h.names.entering i hi⟩
  · exact absurd ho hq
  · simp [hact] at ho

theorem exiting_interrupts {s : State} {x : Local} {l : Label} {b : Bool} (h : Orderly s.loc) (hl : Levels s.loc)
    (hc : Circulation s.loc) (hg : s.straight l = true) (he : Effect s.loc l x b) (hp : s.loc.phase = .exiting)
    (hx : x.phase = .exiting) : x.th.interrupts = s.loc.th.interrupts := by
  cases he with
  | pushTop hn =>
    obtain ⟨i, hi, hin⟩ := exiting_not_pushed h hl hc hg hp
    exact absurd hin (hn i hi)
  | dispatchDone _ _ _ hw | doneFree _ _ _ hw | doneKeep _ _ _ hw => cases hx
  | replyReturn hb | replyExit hb => rcases hb with hb | hb <;> simp [hb] at hp
  | syscallReturn hb | replyDirect hb | finish hb | startInterrupt hb | interruptContinuation hb | interruptJump hb
  | interruptNothing hb | interruptEnd hb => simp [hb] at hp
  | exitPop _ _ _ hl | exitPopSaved _ _ _ hl => exact absurd hx (leave_not_exiting hl)
  | _ => rfl

theorem leaving_effect {s : State} {x : Local} {l : Label} {b : Bool} (h : Orderly s.loc) (hl : Levels s.loc)
    (hc : Circulation s.loc) (hg : s.straight l = true) (he : Effect s.loc l x b) (hp : x.phase = .exiting)
    {top : InterruptContext} {rest : List InterruptContext} {m : Message} (hr : x.th.interrupts = top :: rest)
    (hm : top.savedReply = some m) : Expected x m.call := by
  have hd := State.straight.disciplined hg
  have hh := fun m => ledger_handed (m := m) (ledger_effect he)
  rcases exiting_cases he hp with ⟨hs, -, -⟩ | ⟨c, y, rfl, h₁, h₂, h₃, h₄, ha, rfl⟩
  · have hr' := (exiting_interrupts h hl hc hg he hs hp).symm.trans hr
    have hexp := hc.leaving hs top rest m hr' hm
    by_cases hlr : l = .receive
    · subst hlr
      cases he with
      | receive hk =>
        obtain ⟨m', wire, hw, hk⟩ := receive_some hk
        refine hexp.receive hk ?_ fun i hi hmi => ?_
        · -- the saved reply is not on the wire as well
          have hst : m ∈ stored s.loc.th := mem_stored.2 (.inl ⟨top, by simp [hr'], hm⟩)
          exact ((List.nodup_append.1 hc.single).2.2 m' (by simp [hw]) m hst).symm
        · refine (hl.exiting hs).2 i hi (h.names.circulating _ (.inl ?_))
          simp [hw, hmi]
    · by_cases hrv : ∃ n, l = .recv n
      · obtain ⟨n, rfl⟩ := hrv
        exact hexp.send hd (by cases he <;> rfl)
      · exact hexp.mono (client_effect he (fun n hn => hrv ⟨n, hn⟩) hlr) hh
  · obtain ⟨hb, hu, haw, hent, hf⟩ := h.exit_awaited h₁ h₂ h₃ h₄
    have hk := client_effect he (by simp) (by simp)
    have hcm : ⟨c⟩ ∈ y.handed := by simp [(live_answer ha).2]
    have hfr := (frames_unanswered h haw h₄ hu).2
    have hi : s.loc.th.interrupts = top :: rest := by
      cases ha with
      | saved hf' => simp [hf] at hf'
      | deferred | sent | dropped => exact hr
    have hmat := hl.matched
    rw [hfr, replies, if_neg (by simp [hb]), hi, List.map_cons] at hmat
    obtain ⟨v, vs, hv, -, hlv⟩ := List.forall₂_cons_right_iff.1 hmat
    refine .inr (.inr ⟨exitAnswered_iff.2 ⟨c, hk.2.1.trans haw, h₄, hcm⟩, ?_⟩)
    rw [hk.2.2, hlv]
    exact hv m hm

theorem pushing_effect {s : State} {x : Local} {l : Label} {b : Bool} (h : Orderly s.loc) (hc : Circulation s.loc)
    (hg : s.disciplined l = true) (he : Effect s.loc l x b) {m : Message} (hm : x.client.pushing = some m) :
    x.client.awaiting = some m.call ∧ x.client.entering ≠ none := by
  cases talk_effect he with
  | @send n hr hk =>
    subst hr
    have hn : s.loc.client.pushing = none := (disciplined_recv hg).2.1
    rw [hk, Client.send] at hm
    split at hm <;> simp [hn] at hm
  | receive hr hk =>
    subst hr
    have hn : s.loc.client.pushing = none := by simpa [State.disciplined, State.conforms] using hg
    obtain ⟨m', wire, hw, hk⟩ := receive_some hk
    have hexp := hc.wire m' (by simp [hw])
    generalize x.client = k at hk hm
    cases hk with
    | @unexpected i hi hne =>
      obtain rfl : m' = m := Option.some.inj hm
      refine ⟨?_, by simp [hi]⟩
      rcases hexp with hexp | hexp | ⟨hx, -⟩
      · obtain rfl := Option.some.inj (hi.symm.trans hexp)
        exact absurd rfl hne
      · exact hexp
      · obtain ⟨a, ha, hax, -⟩ := exitAnswered_iff.1 hx
        exact absurd hax (h.names.noExit i a hi ha)
    | entered | exited | answered | ignored => simp [hn] at hm
  | pushed _ hk => simp [hk] at hm
  | hear _ _ _ hk =>
    rw [hk] at hm ⊢
    exact hc.pushing m hm

theorem Early.keep {s x : Local} {m : Message} (h : Early s m)
    (hk : x.client.awaiting = s.client.awaiting ∧ x.client.entering = s.client.entering)
    (hp : x.th.pendingCall = s.th.pendingCall) (hi : s.phase ≠ .interrupting) : Early x m := by
  obtain ⟨haw, i, hent, hpi | ⟨-, hph⟩⟩ := h
  · exact ⟨hk.1.trans haw, i, hk.2.trans hent, .inl (hp.trans hpi)⟩
  · exact absurd hph hi

theorem early_effect {s : State} {x : Local} {l : Label} {b : Bool} (h : Orderly s.loc) (hc : Circulation s.loc)
    (hg : s.disciplined l = true) (he : Effect s.loc l x b) {m : Message} (hm : x.th.pendingSavedReply = some m) :
    Early x m := by
  have hrun := h.running
  have hold : s.loc.th.pendingSavedReply = some m → Early s.loc m := hc.early m
  have hen := h.names.entering
  have hun : ∀ i, s.loc.client.entering = some i → (s.loc.th.pendingCall = some i ∨
      s.loc.th.activeCall = some i ∧ s.loc.phase = .interrupting) → ⟨i⟩ ∉ s.loc.handed := by
    rintro i hi (hp | ⟨ha, -⟩)
    · exact h.debts.pending i hp
    · exact (h.entering_of_active ha (hen i hi)).2
  cases he with
  | recv | recvQueued =>
    obtain ⟨-, i, hi, -⟩ := hold hm
    simp [(disciplined_recv hg).2.2.1] at hi
  | receive hk =>
    obtain ⟨haw, i, hi, hp⟩ := hold hm
    obtain ⟨m', wire, hw, hk⟩ := receive_some hk
    have hm' : m' ∈ s.loc.handed := h.names.circulating m' (.inl (by simp [hw]))
    cases hk with
    | entered hi' hmi =>
      obtain rfl := Option.some.inj (hi.symm.trans hi')
      exact absurd (hmi ▸ hm') (hun i hi hp)
    | unexpected => exact ⟨haw, i, hi, hp⟩
    | exited hi' | answered hi' | ignored hi' => simp [hi] at hi'
  | @pushPending m' i hp hn =>
    obtain rfl : m' = m := Option.some.inj hm
    have hpush : s.loc.client.pushing = some m' := by simpa [State.disciplined, State.conforms] using hg
    exact ⟨(hc.pushing m' hpush).1, i, (h.entering_of_pending hp hn).1, .inl hp⟩
  | interruptContinuation | interruptJump | interruptNothing => cases hm
  | dispatchDone hp _ _ hw | doneFree hp _ _ hw | doneKeep hp _ _ hw =>
    cases hw with
    | idle => exact (hold hm).keep ⟨rfl, rfl⟩ rfl (by simp [hp])
    | promote _ _ hn =>
      -- the interrupt that the reply was pushed for is pending
      obtain ⟨-, i, -, hi | ⟨-, hi⟩⟩ := hold hm
      · cases hi.symm.trans hn
      · rw [hp] at hi; cases hi
  | replyReturn hp _ _ _ _ ha hl =>
    have hp : s.loc.phase ≠ .interrupting := by rcases hp with hp | hp <;> simp [hp]
    cases hl <;> cases ha <;> exact (hold hm).keep ⟨rfl, rfl⟩ rfl hp
  | syscallReturn hp _ _ ha hl => cases hl <;> cases ha <;> exact (hold hm).keep ⟨rfl, rfl⟩ rfl (by simp [hp])
  | replyExit hp _ _ _ ha =>
    have hp : s.loc.phase ≠ .interrupting := by rcases hp with hp | hp <;> simp [hp]
    cases ha <;> exact (hold hm).keep ⟨rfl, rfl⟩ rfl hp
  | replyDirect hp _ _ _ hl | finish hp _ hl | exitPop hp _ _ hl | exitPopSaved hp _ _ hl =>
    cases hl <;> exact (hold hm).keep ⟨rfl, rfl⟩ rfl (by simp [hp])
  | popDone _ hr | popEntered _ hr =>
    have hoff := h.off hr
    exact (hold hm).keep ⟨rfl, rfl⟩ rfl (by simp [hoff])
  | resumeContinuation hp | resumeContext hp | startCall hp | startInterrupt hp | suspend hp | commit hp
  | commitResumed hp | interruptEnd hp | impersonate hp | claim hp | unimpersonate hp =>
    exact (hold hm).keep ⟨rfl, rfl⟩ rfl (by simp [hp])
  | @activate c hp hc =>
    obtain ⟨haw, i, hi, hi' | ⟨-, hi'⟩⟩ := hold hm
    · obtain rfl : c = i := Option.some.inj (hc.symm.trans hi')
      exact ⟨haw, c, hi, .inr ⟨rfl, if_pos (hen c hi)⟩⟩
    · rw [hp] at hi'; cases hi'
  | _ => exact hold hm

/-- The reply to `interrupt_enter` goes straight out. -/
theorem entered_answer {s y : Local} {i : Call} (h : Orderly s) (hi : s.client.entering = some i)
    (hg : (s.th.interruptedForSignal || (!s.th.deferReplyForS2C && !s.th.dead)) = true) (ha : Answer s i y) :
    y.client.wire = s.client.wire ++ [⟨i⟩] := by
  cases ha with
  | saved hf hr hc => exact absurd hi (h.interrupted_not_entering hf hr hc)
  | sent => rfl
  | deferred hf _ hx | dropped hf _ _ hx => simp [hf, hx] at hg

theorem entered_effect {s : State} {x : Local} {l : Label} {b : Bool} (h : Orderly s.loc) (hg : s.directly l = true)
    (he : Effect s.loc l x b) {i : Call} (hi : s.loc.client.entering = some i)
    (hh : x.handed = s.loc.handed ++ [⟨i⟩]) : x.client.wire = s.loc.client.wire ++ [⟨i⟩] := by
  have hcall : ∀ {c y}, Answer s.loc c y → y.handed = x.handed → c = i := by
    intro c y ha hy
    rw [(live_answer ha).2, hh] at hy
    simpa using hy
  cases he with
  | replyReturn _ _ _ _ _ ha hl | syscallReturn _ _ _ ha hl =>
    obtain ⟨hk, hx, -⟩ := leave_client hl
    obtain rfl := hcall ha hx.symm
    rw [hk]
    exact entered_answer h hi hg ha
  | replyExit _ _ _ _ ha =>
    obtain rfl := hcall ha rfl
    have hw := entered_answer h hi hg ha
    exact hw
  | @replyDirect c _ _ _ _ hn hl =>
    rw [(leave_client hl).2.1] at hh
    obtain rfl : c = i := by simpa using hh
    simp [h.names.entering c hi] at hn
  | dispatchDone _ _ _ hw | doneFree _ _ _ hw | doneKeep _ _ _ hw => simp at hh
  | finish _ _ hl | exitPop _ _ _ hl | exitPopSaved _ _ _ hl => simp [(leave_client hl).2.1] at hh
  | _ => simp at hh

theorem last_effect {s : State} {x : Local} {l : Label} {b : Bool} (h : Orderly s.loc) (hl : Levels s.loc)
    (hc : Circulation s.loc) (hg : s.straight l = true) (he : Effect s.loc l x b) {i : Call}
    (hi : x.client.entering = some i) (hm : ⟨i⟩ ∈ x.handed) : x.client.wire.getLast? = some ⟨i⟩ := by
  have hd := State.straight.disciplined hg
  rw [State.straight, Bool.and_eq_true] at hg
  rcases entering_talk (talk_effect he) hi with hs | ⟨n, rfl, rfl⟩
  · by_cases hold : ⟨i⟩ ∈ s.loc.handed
    · have hlast := hc.last i hs hold
      by_cases hlr : l = .receive
      · subst hlr
        cases he with
        | receive hk =>
          obtain ⟨m, wire, hw, hk⟩ := receive_some hk
          rw [hw] at hlast
          cases hk with
          | entered => cases hi
          | @unexpected j hj hne =>
            obtain rfl := Option.some.inj (hj.symm.trans hs)
            cases wire with
            | nil => exact absurd (by simpa using hlast) hne
            | cons m' ms => rwa [List.getLast?_cons_cons] at hlast
          | exited hj | answered hj | ignored hj => simp [hs] at hj
      · rcases wire_effect he hlr with ⟨hw, -⟩ | ⟨m, hw, -, hnew | ⟨-, hp, -⟩ | hdf⟩
        · rwa [hw]
        · -- every call the thread holds has been answered
          rcases handed_effect h he with he' | ⟨c, -, hlive, hu, -⟩
          · simp [he'] at hnew
          · exact absurd (h.debts.settled i hs hold c hlive) hu
        · exact absurd hold ((hl.exiting hp).2 i hs)
        · simp [hc.direct] at hdf
    · rcases handed_effect h he with he' | ⟨c, he', -⟩
      · exact absurd (he' ▸ hm) hold
      · obtain rfl : i = c := by simpa [he', hold] using hm
        simp [entered_effect h hg.2 he hs he']
  · have hh : x.handed = s.loc.handed := by cases he <;> rfl
    exact absurd (h.names.ids _ (.inr (.inl (hh ▸ hm)))) (by simp)

/-! ## Every effect keeps the match -/

/-- The reply comes to a record: pushed ahead of it, pushed to it, or made under it. -/
def Arrives (s : Local) (l : Label) (x : Local) (m : Message) : Prop :=
  s.th.pendingSavedReply = some m ∨ l = .pushReply m ∨ x.handed = s.handed ++ [m]

/-- What a step does to the frames and to the replies in their records. -/
inductive Filing (s : Local) (l : Label) (x : Local) : Prop
  | same : frames x = frames s → replies x = replies s → Filing s l x
  | begun (v : Level) : frames x = v :: frames s → replies x = none :: replies s → Filing s l x
  | left {c} : s.phase ≠ .exiting → x.phase = .exiting → x.cur = s.cur → x.th.interrupts = s.th.interrupts →
      s.cur.call = some c → c.number = .interruptExit → s.client.awaiting = some c → frames s = s.client.levels →
      frames x = (frames s).tail → replies x = (replies s).tail → Filing s l x
  | filed {i m rs} : s.client.entering = some i → made s i = true → s.client.awaiting = some m.call →
      frames x = frames s → replies s = none :: rs → replies x = some m :: rs → Arrives s l x m → Filing s l x

theorem replies_eq {s : Local} (hp : s.phase ≠ .exiting) : replies s = s.th.interrupts.map (·.savedReply) := by
  rw [replies, if_neg hp]

theorem replies_leave {s y : Local} {e : Exit} (hl : Leave s e y) :
    replies y = s.th.interrupts.map (·.savedReply) := by
  cases hl <;> rfl

/-- A call that is interrupted for a signal puts its reply in the top record; any other reply leaves the
records as they are. -/
theorem filing_answer {s x y : Local} {l : Label} {c : Call} (h : Orderly s) (hp : s.phase = .body ∨ s.phase = .answering)
    (ha : Answer s c y) (hh : x.handed = y.handed) (hf : frames x = frames s)
    (hr : replies x = y.th.interrupts.map (·.savedReply)) : Filing s l x := by
  have hne : s.phase ≠ .exiting := by rcases hp with hp | hp <;> simp [hp]
  obtain ⟨-, hw⟩ := h.answer_owed (answer_slot h hp ha)
  cases ha with
  | @saved top rest hs hi hc hn =>
    obtain ⟨i, hact, hni⟩ := h.shape.signal hs
    refine .filed (h.entering_of_active hact hni).1 (made_iff.2 (.inr (.inl hact))) ?_ hf ?_ hr (.inr (.inr hh))
    · exact hw.resolve_right (h.interrupted_not_entering hs hi hc)
    · rw [replies_eq hne, hi, List.map_cons, hn]
  | deferred | sent | dropped => exact .same hf (hr.trans (replies_eq hne).symm)

theorem filing_interruptBegin {s x : Local} {l : Label} (h : Orderly s) (hc : Circulation s)
    (hp : s.phase = .interrupting) {top : InterruptContext} {rest : List InterruptContext}
    (hi : s.th.interrupts = top :: rest) (hs : s.th.pendingSavedReply = none ∨ top.savedReply = none)
    (hf : frames x = frames s)
    (hr : replies x = (s.th.pendingSavedReply.or top.savedReply) :: rest.map (·.savedReply)) : Filing s l x := by
  have hrs : replies s = top.savedReply :: rest.map (·.savedReply) := by
    rw [replies_eq (by simp [hp]), hi, List.map_cons]
  cases hm : s.th.pendingSavedReply with
  | none => exact .same hf (by rw [hr, hrs, hm, Option.none_or])
  | some m =>
    obtain ⟨-, -, i, hact, hn⟩ := h.shape.interrupting hp
    have hnone : top.savedReply = none := hs.resolve_left (by simp [hm])
    rw [hnone] at hrs
    rw [hm, Option.some_or] at hr
    exact .filed (h.entering_of_active hact hn).1 (made_iff.2 (.inr (.inl hact))) (hc.early m hm).1 hf hrs hr (.inl hm)

/-- A reply pushed back for an interrupt that is not pending finds the record of that interrupt on top. -/
theorem pushed_made {s : State} {m : Message} (h : Orderly s.loc) (hl : Levels s.loc) (hc : Circulation s.loc)
    (hg : s.straight (.pushReply m) = true) (hn : ∀ c, s.loc.th.pendingCall = some c → c.number ≠ .interruptEnter) :
    s.loc.phase ≠ .exiting ∧ s.loc.client.pushing = some m ∧ s.loc.client.awaiting = some m.call ∧
      ∃ i, s.loc.client.entering = some i ∧ made s.loc i = true := by
  have hp : s.loc.phase ≠ .exiting := by
    intro hp
    obtain ⟨i, hi, hin⟩ := exiting_not_pushed h hl hc hg hp
    exact hn i hi hin
  rw [State.straight, Bool.and_eq_true] at hg
  have hpush : s.loc.client.pushing = some m := by simpa [State.disciplined, State.conforms] using hg.1
  obtain ⟨haw, hent⟩ := hc.pushing m hpush
  obtain ⟨i, hi⟩ := Option.ne_none_iff_exists'.1 hent
  have hq : i ∉ s.loc.th.pendingInterrupts := by simpa [State.directly, hi] using hg.2
  refine ⟨hp, hpush, haw, i, hi, made_iff.2 ?_⟩
  rcases hl.owner i hi with ho | ho | ho | ho
  · exact .inr (.inr ho)
  · exact absurd (h.names.entering i hi) (hn i ho)
  · exact absurd ho hq
  · exact .inr (.inl ho)

theorem filing_effect {s : State} {x : Local} {l : Label} {b : Bool} (h : Orderly s.loc) (hl : Levels s.loc)
    (hc : Circulation s.loc) (hg : s.straight l = true) (he : Effect s.loc l x b) : Filing s.loc l x := by
  have hd := State.straight.disciplined hg
  have hrun := h.running
  have hwi := fun hw => frames_within h hl.noExit hd hw he
  have hbegin := fun {c} => frames_begun (c := c) (x := x) h
  have hleft := fun {c} => frames_left (c := c) (x := x) h
  have hke := client_effect he
  have hset : ∀ c, s.loc.th.pendingCall = some c → s.loc.th.pendingCallOverride = false :=
    fun c hc => (h.no_handling (h.not_interrupted hc)).2
  have hsame : (l = .dispatch → ∀ c, s.loc.th.pendingCall = some c → c.number ≠ .interruptEnter) →
      (x.phase = .exiting ↔ s.loc.phase = .exiting) → x.th.interrupts = s.loc.th.interrupts → Filing s.loc l x := by
    intro hb hp hi
    have hx : s.loc.phase = .exiting ∨ x.phase ≠ .exiting := by
      by_cases hx : s.loc.phase = .exiting
      · exact .inl hx
      · exact .inr fun hx' => hx (hp.1 hx')
    refine .same (hwi ⟨hb, hx⟩) ?_
    simp only [replies, hp, hi]
  cases he with
  | @startInterrupt c hp hpc ho hn =>
    refine .begun _ (hbegin hp hpc hn ⟨rfl, hpc⟩ rfl rfl) ?_
    rw [replies_eq (by simp), replies_eq (by simp [hp]), List.map_cons]
  | resumeContinuation hp _ hpc => exact hsame (by simp [hpc]) (by simp [hp]) rfl
  | resumeContext hp _ ho =>
    refine hsame (fun _ c hc => ?_) (by simp [hp]) rfl
    simp [hset c hc, hc] at ho
  | startCall hp hpc ho =>
    refine hsame (fun _ c hc => ?_) (by simp [hp]) rfl
    obtain rfl := Option.some.inj (hpc.symm.trans hc)
    exact ho.resolve_left (by simp [hset _ hc])
  | dispatchDone hp _ hpc hw =>
    cases hw <;> exact hsame (by simp [hpc]) (by simp [hp]) rfl
  | doneFree hp _ _ hw | doneKeep hp _ _ hw => cases hw <;> exact hsame (by simp) (by simp [hp]) rfl
  | replyReturn hp _ _ _ _ ha hlv =>
    refine filing_answer h hp ha (leave_client hlv).2.1 (hwi ⟨by simp, .inr ?_⟩) (replies_leave hlv)
    cases hlv <;> simp
  | syscallReturn hp _ _ ha hlv =>
    refine filing_answer h (.inl hp) ha (leave_client hlv).2.1 (hwi ⟨by simp, .inr ?_⟩) (replies_leave hlv)
    cases hlv <;> simp
  | replyDirect hp _ _ _ hlv | finish hp _ hlv =>
    refine .same (hwi ⟨by simp, .inr ?_⟩) ((replies_leave hlv).trans (replies_eq (by simp [hp])).symm)
    cases hlv <;> simp
  | exitPop hp hr _ hlv | exitPopSaved hp hr _ hlv =>
    refine .same (hwi ⟨by simp, .inl hp⟩) ?_
    rw [replies_leave hlv, replies, if_pos hp, hr, List.tail_cons]
  | @replyExit c y hp hw hcall hn ha =>
    obtain ⟨hb, hu, haw, -, hf⟩ := h.exit_awaited hp hw hcall hn
    have hcm : ⟨c⟩ ∈ y.handed := by simp [(live_answer ha).2]
    have hfr := (frames_unanswered h haw hn hu).2
    have hfx := hleft haw hn hu hcm (hke (by simp) (by simp))
    have hi : y.th.interrupts = s.loc.th.interrupts ∧ y.cur = s.loc.cur := by
      cases ha with
      | saved hf' => simp [hf] at hf'
      | deferred | sent | dropped => exact ⟨rfl, rfl⟩
    refine .left (by simp [hb]) rfl hi.2 hi.1 hcall hn haw hfr (by rw [hfx, hfr]) ?_
    rw [replies, if_pos rfl, replies_eq (by simp [hb]), List.map_tail, hi.1]
  | interruptContinuation hp hr hs | interruptJump hp hr hs | interruptNothing hp hr hs =>
    refine filing_interruptBegin h hc hp hr hs (hwi ⟨by simp, .inr (by simp)⟩) ?_
    rw [replies_eq (by simp), List.map_cons]
  | interruptEnd hp hr =>
    refine .same (hwi ⟨by simp, .inr (by simp)⟩) ?_
    rw [replies_eq (by simp), List.map_cons, replies_eq (by simp [hp]), hr, List.map_cons]
  | pushTop hn hr hs =>
    obtain ⟨hp, -, haw, i, hi, hm⟩ := pushed_made h hl hc hg hn
    have hrs := replies_eq hp
    rw [hr, List.map_cons, hs] at hrs
    refine .filed hi hm haw (hwi ⟨by simp, .inr (by simpa using hp)⟩) hrs ?_ (.inr (.inl rfl))
    rw [replies_eq (by simpa using hp), List.map_cons]
  | popDone _ hr | popEntered _ hr =>
    have hoff := h.off hr
    exact hsame (by simp) (by simp [hoff]) rfl
  | activate hp =>
    refine hsame (by simp) ?_ rfl
    rw [hp]
    split <;> simp
  | suspend hp | commit hp | commitResumed hp | impersonate hp | claim hp | unimpersonate hp =>
    exact hsame (by simp) (by simp [hp]) rfl
  | _ => exact hsame (by simp) Iff.rfl rfl

/-- The record of an interrupt the client is entering is the top one. -/
theorem frames_made {s : Local} {i : Call} (hi : s.client.entering = some i) (hm : made s i = true) :
    ∃ vs, frames s = ⟨i, s.client.awaiting⟩ :: vs := by
  simp [frames, hi, hm, Option.filter]

theorem matched_filing {s x : Local} {l : Label} (hl : Levels s) (hf : Filing s l x) :
    List.Forall₂ Waits (frames x) (replies x) := by
  have hmat := hl.matched
  cases hf with
  | same hf hr => rwa [hf, hr]
  | begun v hf hr =>
    rw [hf, hr]
    exact .cons (fun m hm => by cases hm) hmat
  | left _ _ _ _ _ _ _ _ hf hr =>
    rw [hf, hr, ← List.drop_one, ← List.drop_one]
    exact List.forall₂_drop 1 hmat
  | filed hi hm haw hf hr hr' =>
    obtain ⟨vs, hv⟩ := frames_made hi hm
    rw [hr, hv, List.forall₂_cons] at hmat
    rw [hf, hr', hv]
    refine .cons (fun m' hm' => ?_) hmat.2
    rwa [← Option.some.inj hm']

/-! ## Every run -/

/-- The thread and its client agree on the interrupts under way and on the replies put aside for them. -/
structure Matching (s : Local) : Prop extends Levels s, Circulation s where
  orderly : Orderly s

theorem matching_init {s : State} (h : s.Init) : Matching s.loc := by
  refine ⟨⟨?_, ?_, ?_, ?_, ?_⟩, ⟨?_, ?_, ?_, ?_, ?_, ?_, ?_⟩, orderly_init h⟩ <;> rcases h with rfl | ⟨k, rfl⟩ <;>
    simp [frames, replies, exitAnswered, circulating, stored, setupKernelThread]

theorem matching_fault {s : Local} (h : Matching s) (f : Fault) : Matching { s with fault := some f } where
  toLevels := { h.toLevels with }
  toCirculation := { h.toCirculation with }
  orderly := orderly_fault h.orderly f

theorem matching_effect {s : State} {x : Local} {l : Label} {b : Bool} (h : Matching s.loc)
    (hg : s.straight l = true) (he : Effect s.loc l x b) : Matching x := by
  obtain ⟨hl, hc, ho⟩ := h
  have hd := State.straight.disciplined hg
  refine ⟨⟨?_, ?_, ?_, ?_, ?_⟩, ⟨?_, ?_, ?_, ?_, ?_, ?_, ?_⟩, orderly_effect ho hd he⟩
  · exact exiting_effect ho hl he
  · exact fun i => owner_effect ho hl he
  · exact fun v hv => (noExit_effect ho hl he v hv).2
  · exact fun v hv => (noExit_effect ho hl he v hv).1
  · exact matched_filing hl (filing_effect ho hl hc hg he)
  · exact single_effect ho hd hc.single he
  · exact fun m hm => expected_effect ho hc hd he hm
  · exact fun m hm => pushing_effect ho hc hd he hm
  · exact fun m hm => early_effect ho hc hd he hm
  · exact fun hp top rest m hr hm => leaving_effect ho hl hc hg he hp hr hm
  · exact fun i hi hm => last_effect ho hl hc hg he hi hm
  · rw [State.straight, Bool.and_eq_true] at hg
    exact direct_effect hc.direct hg.2 he

end DarlingServer
