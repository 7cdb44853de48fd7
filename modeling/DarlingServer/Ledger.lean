import Mathlib.Data.List.Perm.Basic
import Mathlib.Tactic.Tauto
import DarlingServer.Replies
/-!
# Calls that are owed an answer

`live` are the calls a thread holds: pending, queued, active, interrupted. Seen
from there a step does one of four things: it takes in the call it receives,
answers one, answers a `checkout` past the thread, or at most forgets some.
`Talk` says the same of the client's side: what is sent, received, heard.
-/

namespace DarlingServer

open Thread Runs

def live (t : Thread) : List Call :=
  t.pendingCall.toList ++ t.pendingInterrupts ++ t.activeCall.toList ++ t.interrupts.filterMap (·.interruptedCall)

theorem mem_live {t : Thread} {c : Call} : c ∈ live t ↔ t.pendingCall = some c ∨ c ∈ t.pendingInterrupts ∨
    t.activeCall = some c ∨ ∃ r ∈ t.interrupts, r.interruptedCall = some c := by
  simp [live]

/-- What a step does to the calls of a thread and to the replies it has made. -/
inductive Ledger (s : Local) (l : Label) (x : Local) : Prop
  | keep (lost : List Call) : (live s.th).Perm (lost ++ live x.th) → x.handed = s.handed → Ledger s l x
  | owe {n} : l = .recv n → (live x.th).Perm (⟨s.nextCall, n⟩ :: live s.th) → x.handed = s.handed → Ledger s l x
  | pay {c} : (live s.th).Perm (c :: live x.th) → x.handed = s.handed ++ [⟨c⟩] →
      s.phase = .body ∨ s.phase = .answering → (∃ y, Answer s c y ∧ live x.th = live y.th) → Ledger s l x
  | direct {c} : live x.th = live s.th → x.handed = s.handed ++ [⟨c⟩] → c.number = .checkout → s.phase = .body →
      s.cur.frame = .worker → s.cur.call = some c → Ledger s l x

theorem Ledger.same {s x : Local} {l : Label} (h : live x.th = live s.th) (hh : x.handed = s.handed) :
    Ledger s l x := .keep [] (h ▸ .refl _) hh

theorem live_leave {s y : Local} {e : Exit} (hl : Leave s e y) : live y.th = live s.th ∧ y.handed = s.handed := by
  cases hl <;> exact ⟨rfl, rfl⟩

theorem live_answer {s x : Local} {c : Call} (ha : Answer s c x) :
    (live s.th).Perm (c :: live x.th) ∧ x.handed = s.handed ++ [⟨c⟩] := by
  cases ha with
  | saved _ hr hc _ =>
    refine ⟨?_, rfl⟩
    simpa [live, hr, hc] using
      @List.perm_middle _ c (s.th.pendingCall.toList ++ s.th.pendingInterrupts ++ s.th.activeCall.toList) _
  | deferred _ hc | sent _ hc | dropped _ hc =>
    refine ⟨?_, rfl⟩
    simpa [live, hc] using @List.perm_middle _ c (s.th.pendingCall.toList ++ s.th.pendingInterrupts) _

theorem live_doneWorking {t t' : Thread} {b : Bool} (hw : DoneWorking t t' b) : live t' = live t := by
  cases hw with
  | idle => rfl
  | promote _ _ hp hq => simp [live, hp, hq]

theorem ledger_effect {s x : Local} {l : Label} {b : Bool} (he : Effect s l x b) : Ledger s l x := by
  cases he with
  | recv hp => exact .owe rfl (by simp [live, hp]) rfl
  | recvQueued hp =>
    refine .owe rfl ?_ rfl
    simpa [live] using @List.perm_middle _ _ (s.th.pendingCall.toList ++ s.th.pendingInterrupts) _
  | startInterrupt _ hp =>
    refine .same ?_ rfl
    cases ha : s.th.activeCall <;> simp [live, ha]
  | dispatchDone _ _ _ hw => exact .same (live_doneWorking hw) rfl
  | doneFree _ _ _ hw => exact .same ((live_doneWorking hw).trans rfl) rfl
  | doneKeep _ _ _ hw => exact .same (live_doneWorking hw) rfl
  | activate _ hp =>
    refine .keep s.th.activeCall.toList ?_ rfl
    rw [List.perm_iff_count]
    intro d
    simp only [live, hp, Option.toList_some, Option.toList_none, List.count_append, List.count_nil]
    omega
  | replyReturn hp _ _ _ _ ha hl =>
    obtain ⟨h₁, h₂⟩ := live_answer ha
    obtain ⟨h₃, h₄⟩ := live_leave hl
    exact .pay (h₃ ▸ h₁) (h₄ ▸ h₂) hp ⟨_, ha, h₃⟩
  | syscallReturn hp _ _ ha hl =>
    obtain ⟨h₁, h₂⟩ := live_answer ha
    obtain ⟨h₃, h₄⟩ := live_leave hl
    exact .pay (h₃ ▸ h₁) (h₄ ▸ h₂) (.inl hp) ⟨_, ha, h₃⟩
  | replyExit hp _ _ _ ha =>
    obtain ⟨h₁, h₂⟩ := live_answer ha
    exact .pay h₁ h₂ hp ⟨_, ha, rfl⟩
  | replyDirect hp hf hc hn hl =>
    obtain ⟨h₃, h₄⟩ := live_leave hl
    exact .direct h₃ h₄ hn hp hf hc
  | finish _ _ hl =>
    obtain ⟨h₃, h₄⟩ := live_leave hl
    exact .same h₃ h₄
  | @exitPop top _ _ _ hr _ hl | @exitPopSaved top _ _ _ _ hr _ hl =>
    obtain ⟨h₃, h₄⟩ := live_leave hl
    refine .keep top.interruptedCall.toList ?_ h₄
    rw [h₃, List.perm_iff_count]
    intro d
    cases hi : top.interruptedCall <;> simp [live, hr, hi, List.count_append, List.count_cons]
    omega
  | @interruptEnd top _ _ _ hr =>
    refine .keep top.interruptedCall.toList ?_ rfl
    rw [List.perm_iff_count]
    intro d
    cases hi : top.interruptedCall <;> simp [live, hr, hi, List.count_append, List.count_cons]
    omega
  | interruptContinuation _ hr | interruptJump _ hr | interruptNothing _ hr | pushTop _ hr =>
    exact .same (by simp [live, hr, List.filterMap_cons]) rfl
  | _ => exact .same rfl rfl

/-- What a step does to the client. -/
inductive Talk (s : Local) (l : Label) (x : Local) : Prop
  | send {n} : l = .recv n → x.client = s.client.send ⟨s.nextCall, n⟩ → x.nextCall = s.nextCall + 1 → Talk s l x
  | receive : l = .receive → s.client.receive = some x.client → x.nextCall = s.nextCall → Talk s l x
  | pushed {m} : l = .pushReply m → x.client = { s.client with pushing := none } → x.nextCall = s.nextCall →
      Talk s l x
  | hear (ms : List Message) : (∀ n, l ≠ .recv n) → (∀ m, l ≠ .pushReply m) →
      x.client = { s.client with wire := s.client.wire ++ ms } →
      (∀ m ∈ ms, m ∈ x.handed ∨ m ∈ stored s.th) → x.nextCall = s.nextCall → Talk s l x

theorem Talk.silent {s x : Local} {l : Label} (hl : ∀ n, l ≠ .recv n) (hp : ∀ m, l ≠ .pushReply m)
    (hc : x.client = s.client) (hn : x.nextCall = s.nextCall) : Talk s l x :=
  .hear [] hl hp (by simp [hc]) (by simp) hn

theorem leave_client {s y : Local} {e : Exit} (hl : Leave s e y) :
    y.client = s.client ∧ y.handed = s.handed ∧ y.nextCall = s.nextCall := by
  cases hl <;> exact ⟨rfl, rfl, rfl⟩

theorem answer_client {s x : Local} {c : Call} (ha : Answer s c x) :
    (∃ ms, x.client = { s.client with wire := s.client.wire ++ ms } ∧ ∀ m ∈ ms, m ∈ x.handed) ∧
      x.nextCall = s.nextCall := by
  cases ha with
  | sent => exact ⟨⟨[⟨c⟩], rfl, by simp⟩, rfl⟩
  | saved | deferred | dropped => exact ⟨⟨[], by simp, by simp⟩, rfl⟩

theorem talk_effect {s x : Local} {l : Label} {b : Bool} (he : Effect s l x b) : Talk s l x := by
  cases he with
  | recv | recvQueued => exact .send rfl rfl rfl
  | receive hk => exact .receive rfl hk rfl
  | pushPending | pushTop => exact .pushed rfl rfl rfl
  | replyReturn _ _ _ _ _ ha hl | syscallReturn _ _ _ ha hl =>
    obtain ⟨⟨ms, h₁, h₂⟩, h₃⟩ := answer_client ha
    obtain ⟨h₄, h₅, h₆⟩ := leave_client hl
    exact .hear ms (by simp) (by simp) (h₄ ▸ h₁) (fun m hm => .inl (h₅ ▸ h₂ m hm)) (h₆ ▸ h₃)
  | replyExit _ _ _ _ ha =>
    obtain ⟨⟨ms, h₁, h₂⟩, h₃⟩ := answer_client ha
    exact .hear ms (by simp) (by simp) h₁ (fun m hm => .inl (h₂ m hm)) h₃
  | @replyDirect c _ _ _ _ _ hl =>
    obtain ⟨h₄, h₅, h₆⟩ := leave_client hl
    exact .hear [⟨c⟩] (by simp) (by simp) h₄ (by simp [h₅]) h₆
  | finish _ _ hl | exitPop _ _ _ hl =>
    obtain ⟨h₄, -, h₆⟩ := leave_client hl
    exact .silent (by simp) (by simp) h₄ h₆
  | @exitPopSaved top _ m _ _ hr hm hl =>
    obtain ⟨h₄, -, h₆⟩ := leave_client hl
    exact .hear [m] (by simp) (by simp) h₄ (by simp [stored, hr, hm]) h₆
  | @s2cFlush m _ hm => exact .hear [m] (by simp) (by simp) rfl (by simp [stored, hm]) rfl
  | _ => exact .silent (by simp) (by simp) rfl rfl

/-- How a client takes a message. -/
inductive Receives (k : Client) (m : Message) (wire : List Message) : Client → Prop
  | entered {i} : k.entering = some i → m = ⟨i⟩ →
      Receives k m wire { k with wire, entering := none, awaiting := none, levels := ⟨i, k.awaiting⟩ :: k.levels }
  | unexpected {i} : k.entering = some i → m ≠ ⟨i⟩ → Receives k m wire { k with wire, pushing := some m }
  | exited : k.entering = none → k.awaiting = some m.call → m.call.number = .interruptExit →
      Receives k m wire
        { k with wire, awaiting := k.levels.head?.bind (·.awaiting), levels := k.levels.tail }
  | answered : k.entering = none → k.awaiting = some m.call → m.call.number ≠ .interruptExit →
      Receives k m wire { k with wire, awaiting := none }
  | ignored : k.entering = none → k.awaiting ≠ some m.call → Receives k m wire { k with wire }

theorem receive_some {k k' : Client} (h : k.receive = some k') :
    ∃ m wire, k.wire = m :: wire ∧ Receives k m wire k' := by
  unfold Client.receive at h
  split at h
  · cases h
  · rename_i m wire hw
    refine ⟨m, wire, hw, ?_⟩
    split at h
    · split at h
      · cases h
        exact .entered ‹_› ‹_›
      · cases h
        exact .unexpected ‹_› ‹_›
    · cases h
      unfold Client.expect
      split
      · split
        · exact .exited ‹_› ‹_› ‹_›
        · exact .answered ‹_› ‹_› ‹_›
      · exact .ignored ‹_› ‹_›

theorem mem_stored {t : Thread} {m : Message} : m ∈ stored t ↔ (∃ r ∈ t.interrupts, r.savedReply = some m) ∨
    t.pendingSavedReply = some m ∨ t.deferredReply = some m := by
  simp [stored]

theorem mem_stored_cons {t : Thread} {top : InterruptContext} {rest : List InterruptContext}
    (hr : t.interrupts = top :: rest) {m : Message} :
    m ∈ stored t ↔ (top.savedReply = some m ∨ ∃ r ∈ rest, r.savedReply = some m) ∨
      t.pendingSavedReply = some m ∨ t.deferredReply = some m := by
  rw [mem_stored, hr, List.exists_mem_cons_iff]

theorem stored_leave {s y : Local} {e : Exit} (hl : Leave s e y) :
    stored y.th = stored s.th ∧ y.handed = s.handed := by
  cases hl <;> exact ⟨rfl, rfl⟩

/-- An answer that does not go out at once is kept on the thread. -/
theorem stored_answer {s x : Local} {c : Call} (ha : Answer s c x) {m : Message} (hm : m ∈ stored x.th) :
    m ∈ stored s.th ∨ m ∈ x.handed := by
  cases ha with
  | saved _ hi _ =>
    rw [mem_stored_cons rfl] at hm
    rw [mem_stored_cons hi]
    rcases hm with (hm | hm) | hm
    · cases hm
      exact .inr (by simp)
    · exact .inl (.inl (.inr hm))
    · exact .inl (.inr hm)
  | deferred _ _ =>
    rw [mem_stored] at hm ⊢
    rcases hm with hm | hm | hm
    · exact .inl (.inl hm)
    · exact .inl (.inr (.inl hm))
    · cases hm
      exact .inr (by simp)
  | sent | dropped => exact .inl hm

/-- What is stored after a step was stored before, is a reply just made, or has just been pushed. -/
theorem stored_effect {s x : Local} {l : Label} {b : Bool} (he : Effect s l x b) {m : Message}
    (hm : m ∈ stored x.th) : m ∈ stored s.th ∨ m ∈ x.handed ∨ l = .pushReply m := by
  cases he with
  | dispatchDone _ _ _ hw | doneFree _ _ _ hw | doneKeep _ _ _ hw => cases hw <;> exact .inl hm
  | replyReturn _ _ _ _ _ ha hl | syscallReturn _ _ _ ha hl =>
    rw [(stored_leave hl).1] at hm
    rw [(stored_leave hl).2]
    exact (stored_answer ha hm).imp_right .inl
  | replyExit _ _ _ _ ha => exact (stored_answer ha hm).imp_right .inl
  | replyDirect _ _ _ _ hl | finish _ _ hl => exact .inl ((stored_leave hl).1 ▸ hm)
  | exitPop _ hr _ hl | exitPopSaved _ hr _ hl =>
    -- the level's own reply goes out with it, those below stay where they are
    rw [(stored_leave hl).1, mem_stored] at hm
    rw [mem_stored_cons hr]
    exact .inl (hm.imp_left .inr)
  | interruptContinuation _ hr hs | interruptJump _ hr hs | interruptNothing _ hr hs =>
    -- a reply pushed before the level was made moves to its record
    rw [mem_stored_cons rfl] at hm
    rw [mem_stored_cons hr]
    rcases hm with (hm | hm) | hm | hm
    · rcases Option.or_eq_some_iff.1 hm with hm | ⟨-, hm⟩
      · exact .inl (.inr (.inl hm))
      · exact .inl (.inl (.inl hm))
    · exact .inl (.inl (.inr hm))
    · cases hm
    · exact .inl (.inr (.inr hm))
  | interruptEnd _ hr =>
    rw [mem_stored_cons rfl] at hm
    rw [mem_stored_cons hr]
    exact .inl hm
  | pushTop _ hr =>
    rw [mem_stored_cons rfl] at hm
    rw [mem_stored_cons hr]
    rcases hm with (hm | hm) | hm
    · cases hm
      exact .inr (.inr rfl)
    · exact .inl (.inl (.inr hm))
    · exact .inl (.inr hm)
  | startInterrupt =>
    rw [mem_stored_cons rfl] at hm
    rw [mem_stored]
    exact .inl (hm.imp_left fun h => h.elim nofun id)
  | pushPending =>
    rw [mem_stored] at hm ⊢
    rcases hm with hm | hm | hm
    · exact .inl (.inl hm)
    · cases hm
      exact .inr (.inr rfl)
    · exact .inl (.inr (.inr hm))
  | s2cClear | s2cFlush =>
    rw [mem_stored] at hm ⊢
    exact .inl (hm.imp_right fun h => h.elim .inl nofun)
  | _ => exact .inl hm

end DarlingServer
