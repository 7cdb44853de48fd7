import DarlingServer.Effects
/-!
# Where replies are

A reply that a call has made, or that the client has pushed back, is on its way
to the client, waits in one of four places, or was dropped with a dead thread.
Two of those places are written without looking: `_deferredReply` by
`pushCallReply`, and `_pendingSavedReply` by a `push_reply`. And `interrupt_exit`
sends the saved reply of its record itself, past whatever holds its own reply back.
-/

namespace DarlingServer

open Thread Runs

/-- The replies that wait in the thread. -/
def stored (t : Thread) : List Message :=
  t.interrupts.filterMap (·.savedReply) ++ t.pendingSavedReply.toList ++ t.deferredReply.toList

/-- The replies the client has pushed back. -/
def notePush (_ : State) (l : Label) (s' : State) (pushed : List Message) : List Message :=
  match l with
  | .pushReply m => if s'.loc.fault.isNone then pushed ++ [m] else pushed
  | _ => pushed

/-- Replies made or pushed back are, each as often as that happened, sent, stored or dropped; and an
`interrupt_exit` about to send the saved reply of another call has sent its own. -/
structure RepliesKept (p : State × List Message) : Prop where
  conserved : ∀ m, p.1.loc.handed.count m + p.2.count m =
    p.1.loc.sent.count m + (stored p.1.loc.th).count m + p.1.loc.dropped.count m
  ordered : p.1.loc.phase = .exiting → ∃ e, p.1.loc.cur.call = some e ∧ e.number = .interruptExit ∧
    ∀ top rest m, p.1.loc.th.interrupts = top :: rest → top.savedReply = some m → m = ⟨e⟩ ∨ ⟨e⟩ ∈ p.1.loc.sent

/-- The call that answers at the end of its `processCall` is an `interrupt_exit` with a reply to send after its own. -/
def exitsOverReply (s : Local) : Bool :=
  (s.cur.call.map (·.number)) = some .interruptExit && s.th.interrupts.head?.any (·.savedReply.isSome)

/-- Nothing is written over a stored reply, and `interrupt_exit` answers at once where a saved reply follows. -/
def spacious (s : State) : Label → Bool
  | .reply e =>
    let t := s.loc.th
    (t.interruptedForSignal || !t.deferReplyForS2C || t.deferredReply.isNone) &&
      (e = .bySyscallReturn || !exitsOverReply s.loc || t.interruptedForSignal || (!t.deferReplyForS2C && !t.dead))
  | .pushReply _ =>
    if s.loc.th.pendingCall.map (·.number) = some .interruptEnter then s.loc.th.pendingSavedReply.isNone
    else s.loc.phase ≠ .exiting
  | _ => true

theorem answer_conserved {s x : Local} {c : Call} (ha : Answer s c x) (pushed : List Message)
    (hd : s.th.interruptedForSignal = true ∨ s.th.deferReplyForS2C = false ∨ s.th.deferredReply = none)
    (hi : ∀ m, s.handed.count m + pushed.count m = s.sent.count m + (stored s.th).count m + s.dropped.count m)
    (m : Message) :
    x.handed.count m + pushed.count m = x.sent.count m + (stored x.th).count m + x.dropped.count m := by
  replace hi := hi m
  cases ha with
  | saved _ hr _ hs =>
    simp only [stored, hr, hs, List.filterMap_cons, List.count_append, List.count_cons, List.count_nil] at hi ⊢
    omega
  | deferred hf _ hx =>
    have hn : s.th.deferredReply = none := by simp_all
    simp only [stored, hn, Option.toList_none, Option.toList_some, List.count_append, List.count_cons,
      List.count_nil] at hi ⊢
    omega
  | sent | dropped =>
    simp only [stored, List.count_append, List.count_cons, List.count_nil] at hi ⊢
    omega

theorem leave_frame {s y : Local} {e : Exit} (hl : Leave s e y) :
    y.handed = s.handed ∧ y.sent = s.sent ∧ y.dropped = s.dropped ∧ stored y.th = stored s.th ∧
      (y.phase = .returning ∨ y.phase = .returned) := by
  cases hl <;> simp [stored]

theorem doneWorking_stored {t t' : Thread} {b : Bool} (hw : DoneWorking t t' b) : stored t' = stored t := by
  cases hw <;> rfl

/-- The replies stored after the handler has taken the pushed one into its record. -/
theorem stored_interruptBegin {t : Thread} {top : InterruptContext} {rest : List InterruptContext}
    (hr : t.interrupts = top :: rest) (hs : t.pendingSavedReply = none ∨ top.savedReply = none) (m : Message) :
    ((({ top with savedReply := t.pendingSavedReply.or top.savedReply } :: rest).filterMap (·.savedReply) ++
      (none : Option Message).toList ++ t.deferredReply.toList).count m) = (stored t).count m := by
  simp only [stored, hr, List.filterMap_cons]
  rcases hs with hs | hs <;> simp only [hs, Option.none_or, Option.or_none]
  cases t.pendingSavedReply <;> simp [List.count_cons]
  omega

theorem conserved_effect {s : State} {pushed : List Message} {l : Label} {x : Local} {b : Bool}
    (hi : RepliesKept (s, pushed)) (hg : spacious s l = true) (hn : s.loc.fault = none) (he : Effect s.loc l x b)
    (m : Message) : x.handed.count m + (notePush s l (s.account x b l) pushed).count m =
      x.sent.count m + (stored x.th).count m + x.dropped.count m := by
  have hc := hi.conserved
  have hd : ∀ e, l = .reply e →
      s.loc.th.interruptedForSignal = true ∨ s.loc.th.deferReplyForS2C = false ∨ s.loc.th.deferredReply = none := by
    rintro e rfl
    simp only [spacious, Bool.and_eq_true, Bool.or_eq_true, Bool.not_eq_true', Option.isNone_iff_eq_none] at hg
    exact or_assoc.1 hg.1
  cases he with
  | replyReturn _ _ _ _ _ ha hl | syscallReturn _ _ _ ha hl =>
    obtain ⟨h₁, h₂, h₃, h₄, -⟩ := leave_frame hl
    rw [h₁, h₂, h₃, h₄]
    exact answer_conserved ha pushed (hd _ rfl) hc m
  | replyExit _ _ _ _ ha => exact answer_conserved ha pushed (hd _ rfl) hc m
  | replyDirect _ _ _ _ hl | finish _ _ hl =>
    obtain ⟨h₁, h₂, h₃, h₄, -⟩ := leave_frame hl
    have := hc m
    rw [h₁, h₂, h₃, h₄]
    simp only [stored, notePush, List.count_append] at this ⊢
    omega
  | exitPop _ hr hs hl =>
    obtain ⟨h₁, h₂, h₃, h₄, -⟩ := leave_frame hl
    have := hc m
    rw [h₁, h₂, h₃, h₄]
    simp only [stored, notePush, hr, hs, List.filterMap_cons] at this ⊢
    exact this
  | exitPopSaved _ hr hs hl =>
    obtain ⟨h₁, h₂, h₃, h₄, -⟩ := leave_frame hl
    have := hc m
    rw [h₁, h₂, h₃, h₄]
    simp only [stored, notePush, hr, hs, List.filterMap_cons, List.count_append, List.count_cons,
      List.count_nil] at this ⊢
    omega
  | dispatchDone _ _ _ hw | doneKeep _ _ _ hw =>
    rw [doneWorking_stored hw]
    exact hc m
  | doneFree _ _ _ hw =>
    rw [doneWorking_stored hw]
    exact hc m
  | interruptContinuation _ hr hs | interruptJump _ hr hs | interruptNothing _ hr hs =>
    have := hc m
    rw [← stored_interruptBegin hr hs] at this
    exact this
  | interruptEnd _ hr =>
    have := hc m
    simp only [stored, notePush, hr, List.filterMap_cons] at this ⊢
    exact this
  | pushPending hp hi =>
    have := hc m
    have hs : s.loc.th.pendingSavedReply = none := by simpa [spacious, hp, hi] using hg
    simp only [stored, notePush, account_loc, hn, hs, Option.isNone_none, if_true, Option.toList_some,
      Option.toList_none, List.count_append, List.count_cons, List.count_nil] at this ⊢
    omega
  | pushTop _ hr hs =>
    have := hc m
    simp only [stored, notePush, account_loc, hn, hr, hs, Option.isNone_none, if_true, List.filterMap_cons,
      List.count_append, List.count_cons, List.count_nil] at this ⊢
    omega
  | s2cClear _ hs =>
    have := hc m
    simpa [stored, notePush, hs] using this
  | s2cFlush _ hs =>
    have := hc m
    simp only [stored, notePush, hs, Option.toList_some, Option.toList_none, List.count_append, List.count_cons,
      List.count_nil] at this ⊢
    omega
  | _ => exact hc m

/-- `interrupt_exit` has answered: its reply is out, or is what the record holds, or the record holds none. -/
theorem ordered_replyExit {s x : Local} {c : Call} (ha : Answer s c x)
    (hg : exitsOverReply s = true → s.th.interruptedForSignal = true ∨ s.th.deferReplyForS2C = false ∧ s.th.dead = false)
    (hc : s.cur.call = some c) (hn : c.number = .interruptExit) {top : InterruptContext} {rest : List InterruptContext}
    {m : Message} (hr : x.th.interrupts = top :: rest) (hm : top.savedReply = some m) : m = ⟨c⟩ ∨ ⟨c⟩ ∈ x.sent := by
  cases ha with
  | saved _ hr' _ _ =>
    cases hr
    exact .inl (Option.some.inj hm).symm
  | deferred | dropped =>
    dsimp only at hr
    have hx : exitsOverReply s = true := by simp [exitsOverReply, hc, hn, hr, hm]
    simp_all
  | sent => simp

theorem ordered_effect {s : State} {pushed : List Message} {l : Label} {x : Local} {b : Bool}
    (hi : RepliesKept (s, pushed)) (hg : spacious s l = true) (he : Effect s.loc l x b) (hp : x.phase = .exiting) :
    ∃ e, x.cur.call = some e ∧ e.number = .interruptExit ∧
      ∀ top rest m, x.th.interrupts = top :: rest → top.savedReply = some m → m = ⟨e⟩ ∨ ⟨e⟩ ∈ x.sent := by
  have ho := hi.ordered
  cases he with
  | replyExit _ _ hc hn ha =>
    refine ⟨_, ?_, hn, fun top rest m hr hm => ordered_replyExit ha ?_ hc hn hr hm⟩
    · cases ha <;> exact hc
    · simp only [spacious, Bool.and_eq_true, Bool.or_eq_true, Bool.not_eq_true'] at hg
      intro hx
      simpa [hx] using hg.2
  | replyReturn _ _ _ _ _ _ hl | syscallReturn _ _ _ _ hl | replyDirect _ _ _ _ hl | finish _ _ hl
  | exitPop _ _ _ hl | exitPopSaved _ _ _ hl =>
    have := (leave_frame hl).2.2.2.2
    simp [hp] at this
  | activate => simp only at hp; split at hp <;> cases hp
  | pushTop hq hr hs =>
    simp only [spacious] at hg
    split at hg
    · rename_i hq'
      obtain ⟨c, hc, hn⟩ := Option.map_eq_some_iff.1 hq'
      exact absurd hn (hq c hc)
    · simp_all
  | s2cFlush =>
    obtain ⟨e, hc, hn, h⟩ := ho hp
    exact ⟨e, hc, hn, fun top rest m hr hm => (h top rest m hr hm).imp_right (List.mem_append_left _)⟩
  | startInterrupt | interruptContinuation | interruptJump | interruptNothing | interruptEnd => cases hp
  | _ => first | exact ho hp | cases hp

/-- On one thread, in every run of calls, interrupts, pushed replies and server-to-client calls that writes
over no stored reply and lets `interrupt_exit` answer at once where a saved reply follows, replies are conserved
and ordered: for any client. -/
theorem replies_kept {p : State × List Message}
    (h : Reach (track State.step notePush) (fun p l => spacious p.1 l = true)
      (fun p => State.Init p.1 ∧ p.2 = []) p) : RepliesKept p := by
  refine tracked_inv RepliesKept ?_ ?_ ?_ h
  · rintro ⟨s, q⟩ ⟨rfl | ⟨k, rfl⟩, rfl⟩ <;> exact ⟨fun m => rfl, by simp⟩
  · intro s q l f hi _ _
    have hn : notePush s l { s with loc := { s.loc with fault := some f } } q = q := by
      cases l <;> rfl
    rw [hn]
    exact ⟨hi.conserved, hi.ordered⟩
  · intro s q l x b hi hg hn _ he
    refine ⟨fun m => ?_, fun hp => ?_⟩
    · simpa using conserved_effect hi hg hn he m
    · simpa using ordered_effect hi hg he (by simpa using hp)

/-- A call whose reply is held back for a server-to-client call. -/
def deferredCall : List Label :=
  [.recv (.plain 0), .push, .pop, .dispatch, .activate, .s2cDefer, .reply .byReturn, .done]

theorem replies_kept_deferred : ∃ p : State × List Message,
    exec (track State.step notePush) (fun p l => spacious p.1 l) ({}, []) (deferredCall ++ [.s2cRelease]) = some p ∧
    p.1.loc.sent = [⟨⟨0, .plain 0⟩⟩] ∧ RepliesKept p := by
  have hrun : (exec (track State.step notePush) (fun p l => spacious p.1 l) ({}, [])
      (deferredCall ++ [Label.s2cRelease])).map (·.1.loc.sent) = some [⟨⟨0, .plain 0⟩⟩] := by decide
  obtain ⟨p, hp, hs⟩ := Option.map_eq_some_iff.1 hrun
  exact ⟨p, hp, hs, replies_kept (exec_reach (fun _ _ hg => hg) hp (.init ⟨.inl rfl, rfl⟩))⟩

/-- A signal interrupts the client while the reply it waits for is held back: the reply to
`interrupt_enter` is held back too, in the same place, and the first one is gone. -/
theorem reply_overwritten : ¬ ∀ p : State × List Message,
    Reach (track State.step notePush) (fun p l => State.Conforms p.1 l) (fun p => State.Init p.1 ∧ p.2 = []) p →
    RepliesKept p := by
  intro h
  have hrun : (exec (track State.step notePush) (fun p l => p.1.conforms l) ({}, [])
      (deferredCall ++ [Label.recv .interruptEnter, .push, .pop, .dispatch, .activate, .interruptBegin, .interruptEnd,
        .reply .byReturn])).map (fun p => (p.1.loc.handed, p.2, p.1.loc.sent, stored p.1.loc.th, p.1.loc.dropped)) =
      some ([⟨⟨0, .plain 0⟩⟩, ⟨⟨1, .interruptEnter⟩⟩], [], [], [⟨⟨1, .interruptEnter⟩⟩], []) := by decide
  obtain ⟨p, hp, hs⟩ := Option.map_eq_some_iff.1 hrun
  have := (h p (exec_reach (fun _ _ hg => hg) hp (.init ⟨.inl rfl, rfl⟩))).conserved ⟨⟨0, .plain 0⟩⟩
  simp only [Prod.mk.injEq] at hs
  obtain ⟨h₁, h₂, h₃, h₄, h₅⟩ := hs
  rw [h₁, h₂, h₃, h₄, h₅] at this
  exact absurd this (by decide)

end DarlingServer
