import DarlingServer.Faults
import DarlingServer.Levels
/-!
# Replies pushed back

A signal can catch a client whose reply is already on the way. The client, waiting
for `interrupt_enter`, sends the reply back with `push_reply`, and gets it again
when it leaves the interrupt. Here each pushed reply is followed from the push,
through `_pendingSavedReply` and the record of its interrupt, to the place behind
the reply of the matching `interrupt_exit`.
-/

namespace DarlingServer

open Thread Runs

/-- The replies pushed back, with the `interrupt_enter` the client was waiting in, and the `interrupt_exit`s
sent, with the `interrupt_enter` they match. -/
structure Signals where
  pushed : List (Call × Message) := []
  exits : List (Call × Call) := []
  deriving DecidableEq

def State.pushing (s : State) : Label → List (Call × Message)
  | .pushReply m => s.loc.client.entering.toList.map (·, m)
  | _ => []

def State.leaving (s : State) : Label → List (Call × Call)
  | .recv n =>
    if n = .interruptExit then s.loc.client.levels.head?.toList.map (⟨s.loc.nextCall, n⟩, ·.opener) else []
  | _ => []

def noteSignal (s : State) (l : Label) (s' : State) (h : Signals) : Signals :=
  if s'.loc.fault.isSome then h else { pushed := h.pushed ++ s.pushing l, exits := h.exits ++ s.leaving l }

theorem mem_pushing {s : State} {l : Label} {i : Call} {m : Message} :
    (i, m) ∈ s.pushing l ↔ l = .pushReply m ∧ s.loc.client.entering = some i := by
  cases l with
  | pushReply m' =>
    simp only [State.pushing, List.mem_map, Option.mem_toList, Prod.mk.injEq, Label.pushReply.injEq]
    grind -linarith
  | _ => simp [State.pushing]

theorem mem_leaving {s : State} {l : Label} {x i : Call} : (x, i) ∈ s.leaving l ↔
    l = .recv .interruptExit ∧ x = ⟨s.loc.nextCall, .interruptExit⟩ ∧
      s.loc.client.levels.head?.map (·.opener) = some i := by
  cases l with
  | recv n =>
    by_cases hn : n = .interruptExit <;> simp only [State.leaving, hn, if_true, if_false]
    · simp only [List.mem_map, Option.mem_toList, Prod.mk.injEq, Option.map_eq_some_iff]
      grind -linarith
    · simp [hn]
  | _ => simp [State.leaving]

/-! ## Matching exits -/

/-- The client has sent the `interrupt_exit` `x` to leave `i`, and has or has not had its reply. -/
def Leaves (s : Local) (x i : Call) : Prop :=
  s.client.awaiting = some x ∧ s.client.levels.head?.map (·.opener) = some i ∨
    ⟨x⟩ ∈ s.handed ∧ i ∉ s.client.levels.map (·.opener)

structure Exits (s : Local) (exits : List (Call × Call)) : Prop where
  leaves : ∀ e ∈ exits, Leaves s e.1 e.2
  number : ∀ e ∈ exits, e.1.number = .interruptExit
  ids : ∀ e ∈ exits, e.1.id < s.nextCall ∧ e.2.id < s.nextCall
  entering : ∀ e ∈ exits, s.client.entering ≠ some e.2
  openers : (s.client.entering.toList ++ s.client.levels.map (·.opener)).Nodup
  one : (exits.map (·.1)).Nodup ∧ (exits.map (·.2)).Nodup
  awaited : ∀ x v, s.client.awaiting = some x → x.number = .interruptExit → s.client.levels.head? = some v →
    (x, v.opener) ∈ exits

theorem Leaves.hear {s x : Local} {e i : Call} (h : Leaves s e i) (hk : x.client.awaiting = s.client.awaiting ∧
    x.client.levels = s.client.levels) (hh : ∀ m, m ∈ s.handed → m ∈ x.handed) : Leaves x e i := by
  obtain ⟨h₁, h₂⟩ := hk
  rw [Leaves, h₁, h₂]
  exact h.imp_right fun h => ⟨hh _ h.1, h.2⟩

theorem Exits.hear {s x : Local} {exits : List (Call × Call)} (h : Exits s exits)
    (hk : x.client.entering = s.client.entering ∧ x.client.awaiting = s.client.awaiting ∧
      x.client.levels = s.client.levels) (hn : x.nextCall = s.nextCall) (hh : ∀ m, m ∈ s.handed → m ∈ x.handed) :
    Exits x exits := by
  obtain ⟨h₁, h₂, h₃⟩ := hk
  refine ⟨fun e he => (h.leaves e he).hear ⟨h₂, h₃⟩ hh, h.number, ?_, ?_, ?_, h.one, ?_⟩
  · rw [hn]
    exact h.ids
  · rw [h₁]
    exact h.entering
  · rw [h₁, h₃]
    exact h.openers
  · rw [h₂, h₃]
    exact h.awaited

theorem Exits.receive {s : Local} {exits : List (Call × Call)} (h : Exits s exits) (ho : Orderly s) (hl : Levels s)
    {k : Client} (hk : s.client.receive = some k) : Exits { s with client := k } exits := by
  obtain ⟨m, wire, hw, hk⟩ := receive_some hk
  have hm : m ∈ s.handed := ho.names.circulating m (.inl (by simp [hw]))
  cases hk with
  | unexpected | ignored => exact h.hear ⟨rfl, rfl, rfl⟩ rfl fun _ hm => hm
  | @entered i hi hmi =>
    refine ⟨fun e he => ?_, h.number, h.ids, by simp, ?_, h.one, by simp⟩
    · rcases h.leaves e he with ⟨ha, -⟩ | ⟨hh, hn⟩
      · exact absurd (h.number e he) (ho.names.noExit i e.1 hi ha)
      · refine .inr ⟨hh, ?_⟩
        have hne : e.2 ≠ i := fun hx => h.entering e he (by rw [hi, hx])
        simpa [hne] using hn
    · simpa [hi] using h.openers
  | exited hi ha hn =>
    have hnd : (s.client.levels.map (·.opener)).Nodup := by simpa [hi] using h.openers
    refine ⟨fun e he => ?_, h.number, h.ids, by simp [hi], ?_, h.one, fun x v hx hxn => ?_⟩
    · rcases h.leaves e he with ⟨ha', hv⟩ | ⟨hh, hv⟩
      · have hem : e.1 = m.call := Option.some.inj (ha'.symm.trans ha)
        refine .inr ⟨by rwa [hem], ?_⟩
        cases hlv : s.client.levels with
        | nil => simp
        | cons v vs =>
          rw [hlv] at hv hnd
          have hve : v.opener = e.2 := by simpa using hv
          rw [← hve]
          exact (List.nodup_cons.1 hnd).1
      · refine .inr ⟨hh, fun hmem => hv ?_⟩
        obtain ⟨v, hvt, hve⟩ := List.mem_map.1 hmem
        exact List.mem_map.2 ⟨v, List.mem_of_mem_tail hvt, hve⟩
    · simp only [hi, Option.toList_none, List.nil_append, List.map_tail]
      exact hnd.sublist (List.tail_sublist _)
    · obtain ⟨w, hw, hwa⟩ := Option.bind_eq_some_iff.1 hx
      exact absurd hxn (hl.noExit w (List.mem_of_head? hw) x hwa)
  | answered hi ha hn =>
    refine ⟨fun e he => ?_, h.number, h.ids, h.entering, h.openers, h.one, by simp⟩
    rcases h.leaves e he with ⟨ha', hv⟩ | hr
    · have hem : e.1 = m.call := Option.some.inj (ha'.symm.trans ha)
      exact absurd (hem ▸ h.number e he) hn
    · exact .inr hr

theorem Exits.send {s : State} {x : Local} {exits : List (Call × Call)} {n : Number} {b : Bool} (h : Exits s.loc exits)
    (ho : Orderly s.loc) (hl : Levels s.loc) (hg : s.disciplined (.recv n) = true) (he : Effect s.loc (.recv n) x b) :
    Exits x (exits ++ s.leaving (.recv n)) := by
  have hk : x.client = s.loc.client.send ⟨s.loc.nextCall, n⟩ := by cases he <;> rfl
  have hn : x.nextCall = s.loc.nextCall + 1 := by cases he <;> rfl
  have hh : x.handed = s.loc.handed := by cases he <;> rfl
  obtain ⟨-, -, hent, haw⟩ := disciplined_recv hg
  have hopen : ∀ v ∈ s.loc.client.levels, v.opener.id < s.loc.nextCall :=
    fun v hv => ho.names.ids _ (.inr (.inl (hl.handed v hv)))
  have hnd : (s.loc.client.levels.map (·.opener)).Nodup := by simpa [hent] using h.openers
  have hids : ∀ e ∈ exits, e.1.id < x.nextCall ∧ e.2.id < x.nextCall := by
    intro e he
    have := h.ids e he
    omega
  by_cases hi : n = .interruptEnter
  · subst hi
    have hlv : s.leaving (.recv .interruptEnter) = [] := rfl
    simp only [Client.send, if_true] at hk
    rw [hlv, List.append_nil]
    refine ⟨fun e he => ?_, h.number, hids, fun e he hx => ?_, ?_, h.one, fun y v hy hyn => ?_⟩
    · exact (h.leaves e he).hear (by simp [hk]) (by simp [hh])
    · have := (h.ids e he).2
      rw [hk] at hx
      simp [← Option.some.inj hx] at this
    · simp only [hk, Option.toList_some, List.singleton_append, List.nodup_cons]
      refine ⟨fun hmem => ?_, hnd⟩
      obtain ⟨v, hv, hve⟩ := List.mem_map.1 hmem
      have := hopen v hv
      simp [hve] at this
    · exact absurd hyn (haw y (by simpa [hk] using hy)).2
  · simp only [Client.send, hi, if_false] at hk
    -- nothing was awaited, so every interrupt with an exit has been left
    have hleft : ∀ e ∈ exits, ⟨e.1⟩ ∈ s.loc.handed ∧ e.2 ∉ s.loc.client.levels.map (·.opener) := by
      intro e he
      exact (h.leaves e he).resolve_left fun hx => hi (haw _ hx.1).1
    have hnew : ∀ e ∈ s.leaving (.recv n), n = .interruptExit ∧ e.1 = ⟨s.loc.nextCall, n⟩ ∧
        s.loc.client.levels.head?.map (·.opener) = some e.2 ∧ e.2 ∈ s.loc.client.levels.map (·.opener) := by
      rintro ⟨y, i⟩ he
      obtain ⟨hn, rfl, hv⟩ := mem_leaving.1 he
      obtain rfl := Label.recv.inj hn
      obtain ⟨v, hv', rfl⟩ := Option.map_eq_some_iff.1 hv
      exact ⟨rfl, rfl, hv, List.mem_map.2 ⟨v, List.mem_of_head? hv', rfl⟩⟩
    refine ⟨fun e he => ?_, fun e he => ?_, fun e he => ?_, ?_, ?_, ⟨?_, ?_⟩, fun y v hy hyn hv => ?_⟩
    · rcases List.mem_append.1 he with he | he
      · refine .inr ?_
        rw [hh, hk]
        exact hleft e he
      · obtain ⟨-, h₁, h₂, -⟩ := hnew e he
        exact .inl ⟨by rw [hk, h₁], by rw [hk, h₂]⟩
    · rcases List.mem_append.1 he with he | he
      · exact h.number e he
      · obtain ⟨h₀, h₁, -⟩ := hnew e he
        rw [h₁, h₀]
    · rcases List.mem_append.1 he with he | he
      · exact hids e he
      · obtain ⟨-, h₁, -, h₂⟩ := hnew e he
        obtain ⟨v, hv, hve⟩ := List.mem_map.1 h₂
        have := hopen v hv
        rw [h₁, ← hve, hn]
        dsimp only
        omega
    · simp [hk, hent]
    · simpa [hk, hent] using hnd
    · rw [List.map_append]
      refine List.nodup_append.2 ⟨h.one.1, ?_, ?_⟩
      · simp only [State.leaving]
        split <;> cases s.loc.client.levels.head? <;> simp
      · simp only [List.mem_map]
        rintro _ ⟨e, he, rfl⟩ _ ⟨e', he', rfl⟩ heq
        have := (h.ids e he).1
        simp [heq, (hnew e' he').2.1] at this
    · rw [List.map_append]
      refine List.nodup_append.2 ⟨h.one.2, ?_, ?_⟩
      · simp only [State.leaving]
        split <;> cases s.loc.client.levels.head? <;> simp
      · simp only [List.mem_map]
        rintro _ ⟨e, he, rfl⟩ _ ⟨e', he', rfl⟩ heq
        exact (hleft e he).2 (heq ▸ (hnew e' he').2.2.2)
    · rw [hk] at hy hv
      obtain rfl := Option.some.inj hy
      dsimp only at hyn
      subst hyn
      exact List.mem_append_right _ (mem_leaving.2 ⟨rfl, rfl, by rw [hv, Option.map_some]⟩)

theorem exits_effect {s : State} {x : Local} {exits : List (Call × Call)} {l : Label} {b : Bool} (h : Exits s.loc exits)
    (ho : Orderly s.loc) (hl : Levels s.loc) (hg : s.disciplined l = true) (he : Effect s.loc l x b) :
    Exits x (exits ++ s.leaving l) := by
  by_cases hr : ∃ n, l = .recv n
  · obtain ⟨n, rfl⟩ := hr
    exact h.send ho hl hg he
  · have hlv : s.leaving l = [] := by
      cases l with
      | recv n => simp at hr
      | _ => rfl
    rw [hlv, List.append_nil]
    by_cases hlr : l = .receive
    · subst hlr
      cases he with
      | receive hk => exact h.receive ho hl hk
    · refine h.hear (client_effect he (fun n hn => hr ⟨n, hn⟩) hlr) ?_ fun m => ledger_handed (ledger_effect he)
      cases talk_effect he with
      | send hn => exact absurd ⟨_, hn⟩ hr
      | receive _ _ hn | pushed _ _ hn | hear _ _ _ _ _ hn => exact hn

/-- An interrupt whose exit has been answered has no frame any more. -/
theorem Exits.closed {s : Local} {exits : List (Call × Call)} (h : Exits s exits) {x i : Call} (he : (x, i) ∈ exits)
    (hx : ⟨x⟩ ∈ s.handed) : ∀ v ∈ frames s, v.opener ≠ i := by
  rintro v hv rfl
  rw [frames, List.mem_append] at hv
  rcases hv with hv | hv
  · obtain ⟨j, hj, rfl⟩ := List.mem_map.1 hv
    have hj := (Option.filter_eq_some_iff.1 (Option.mem_toList.1 hj)).1
    exact h.entering _ he hj
  · have hmem : v ∈ s.client.levels := by
      split at hv
      · exact List.mem_of_mem_tail hv
      · exact hv
    rcases h.leaves _ he with ⟨ha, hd⟩ | ⟨-, hn⟩
    · -- it is the innermost level, which an answered exit takes off the frames
      have hxa : exitAnswered s = true := exitAnswered_iff.2 ⟨x, ha, h.number _ he, hx⟩
      rw [if_pos hxa] at hv
      have hnd := (List.nodup_append.1 h.openers).2.1
      cases hlv : s.client.levels with
      | nil => simp [hlv] at hmem
      | cons w ws =>
        rw [hlv] at hd hnd hv
        have hw : w.opener = v.opener := by simpa using hd
        exact (List.nodup_cons.1 hnd).1 (List.mem_map.2 ⟨v, hv, hw.symm⟩)
    · exact hn (List.mem_map.2 ⟨v, hmem, rfl⟩)

/-! ## Replies on their way back -/

/-- The record of the interrupt that `i` began holds the reply. -/
def Filed (s : Local) (i : Call) (m : Message) : Prop := ∃ v, v.opener = i ∧ (v, some m) ∈ (frames s).zip (replies s)

/-- Where the thread keeps a reply for the interrupt that `i` begins. -/
inductive Kept (s : Local) (exits : List (Call × Call)) (i : Call) (m : Message) : Prop
  | early : s.client.entering = some i → s.th.pendingSavedReply = some m → Kept s exits i m
  | filed : Filed s i m → Kept s exits i m
  | leaving {x top rest} : s.phase = .exiting → s.cur.call = some x → (x, i) ∈ exits →
      s.th.interrupts = top :: rest → top.savedReply = some m → Kept s exits i m

theorem Kept.mem_stored {s : Local} {exits : List (Call × Call)} {i : Call} {m : Message} (h : Kept s exits i m) :
    m ∈ stored s.th := by
  rw [DarlingServer.mem_stored]
  cases h with
  | early _ hm => exact .inr (.inl hm)
  | filed hf =>
    obtain ⟨v, -, hz⟩ := hf
    obtain ⟨r, hr, hm⟩ := List.mem_map.1 (List.of_mem_zip hz).2
    refine .inl ⟨r, ?_, hm⟩
    split at hr
    · exact List.mem_of_mem_tail hr
    · exact hr
  | leaving _ _ _ hi hm => exact .inl ⟨_, by simp [hi], hm⟩

theorem filed_filing {s x : Local} {l : Label} {i : Call} {m : Message} (hf : Filing s l x) (h : Filed x i m) :
    Filed s i m ∨ s.client.entering = some i ∧ Arrives s l x m := by
  obtain ⟨v, hv, hz⟩ := h
  cases hf with
  | same hf hr =>
    rw [hf, hr] at hz
    exact .inl ⟨v, hv, hz⟩
  | begun w hf hr =>
    rw [hf, hr, List.zip_cons_cons, List.mem_cons] at hz
    rcases hz with hz | hz
    · simp at hz
    · exact .inl ⟨v, hv, hz⟩
  | left _ _ _ _ _ _ _ _ hf hr =>
    rw [hf, hr, ← List.drop_one, ← List.drop_one, List.zip, ← List.drop_zipWith] at hz
    exact .inl ⟨v, hv, List.mem_of_mem_drop hz⟩
  | filed hi hmade _ hf hr hr' ha =>
    obtain ⟨vs, hvs⟩ := frames_made hi hmade
    rw [hf, hr', hvs, List.zip_cons_cons, List.mem_cons] at hz
    rcases hz with hz | hz
    · obtain ⟨rfl, hm⟩ := Prod.mk.inj hz
      obtain rfl := Option.some.inj hm
      exact .inr ⟨hv ▸ hi, ha⟩
    · refine .inl ⟨v, hv, ?_⟩
      rw [hvs, hr, List.zip_cons_cons]
      exact List.mem_cons_of_mem _ hz

theorem filing_filed {s x : Local} {l : Label} {exits : List (Call × Call)} {i : Call} {m : Message}
    (hx : Exits s exits) (hf : Filing s l x) (h : Filed s i m) : Filed x i m ∨ Kept x exits i m := by
  obtain ⟨v, hv, hz⟩ := h
  cases hf with
  | same hf hr => exact .inl ⟨v, hv, by rwa [hf, hr]⟩
  | begun w hf hr =>
    refine .inl ⟨v, hv, ?_⟩
    rw [hf, hr, List.zip_cons_cons]
    exact List.mem_cons_of_mem _ hz
  | left hp hpx hcur hi hc hn haw hlv hf hr =>
    rw [replies_eq hp, hlv] at hz
    cases hls : s.client.levels with
    | nil => simp [hls] at hz
    | cons w ws =>
      cases his : s.th.interrupts with
      | nil => simp [his] at hz
      | cons top rest =>
        rw [hls, his, List.map_cons, List.zip_cons_cons, List.mem_cons] at hz
        rcases hz with hz | hz
        · obtain ⟨rfl, hm⟩ := Prod.mk.inj hz
          refine .inr (.leaving hpx (hcur ▸ hc) ?_ (hi.trans his) hm.symm)
          rw [← hv]
          exact hx.awaited _ v haw hn (by simp [hls])
        · refine .inl ⟨v, hv, ?_⟩
          rw [hf, hr, hlv, hls, replies_eq hp, his]
          exact hz
  | filed hi hmade _ hf hr hr' =>
    obtain ⟨vs, hvs⟩ := frames_made hi hmade
    rw [hvs, hr, List.zip_cons_cons, List.mem_cons] at hz
    rcases hz with hz | hz
    · simp at hz
    · refine .inl ⟨v, hv, ?_⟩
      rw [hf, hr', hvs, List.zip_cons_cons]
      exact List.mem_cons_of_mem _ hz

/-- A reply that waits for its interrupt to begin goes on waiting, or into the record. -/
theorem early_kept {s : State} {x : Local} {l : Label} {b : Bool} (h : Orderly s.loc) (hl : Levels s.loc)
    (hc : Circulation s.loc) (hg : s.straight l = true) (he : Effect s.loc l x b) {i : Call} {m : Message}
    (hi : s.loc.client.entering = some i) (hm : s.loc.th.pendingSavedReply = some m) :
    x.th.pendingSavedReply = some m ∨ Filed x i m := by
  have hd := State.straight.disciplined hg
  have hwi := fun hw => frames_within h hl.noExit hd hw he
  have hbegin : s.loc.phase = .interrupting → frames x = frames s.loc → (replies x).head? = some (some m) →
      Filed x i m := by
    intro hp hf hr
    obtain ⟨rs, hr⟩ := List.head?_eq_some_iff.1 hr
    obtain ⟨-, -, j, hact, hn⟩ := h.shape.interrupting hp
    obtain rfl := Option.some.inj (hi.symm.trans (h.entering_of_active hact hn).1)
    obtain ⟨vs, hvs⟩ := frames_made hi (made_iff.2 (.inr (.inl hact)))
    exact ⟨_, rfl, by rw [hf, hr, hvs, List.zip_cons_cons]; exact List.mem_cons_self⟩
  cases he with
  | interruptContinuation hp hr | interruptJump hp hr | interruptNothing hp hr =>
    refine .inr (hbegin hp (hwi ⟨by simp, .inr (by simp)⟩) ?_)
    rw [replies_eq (by simp), List.map_cons, hm, Option.some_or, List.head?_cons]
  | @pushPending m' =>
    -- the client would be sending back a reply that the thread already has
    have hp : s.loc.client.pushing = some m' := by simpa [State.disciplined, State.conforms] using hd
    have hcall := (hc.early m hm).1.symm.trans (hc.pushing m' hp).1
    obtain rfl : m = m' := by cases m; cases m'; simpa using hcall
    have hst : m ∈ stored s.loc.th := mem_stored.2 (.inr (.inl hm))
    exact absurd rfl ((List.nodup_append.1 hc.single).2.2 m (by simp [hp]) m hst)
  | dispatchDone _ _ _ hw | doneFree _ _ _ hw | doneKeep _ _ _ hw => cases hw <;> exact .inl hm
  | replyReturn _ _ _ _ _ ha hlv | syscallReturn _ _ _ ha hlv => cases hlv <;> cases ha <;> exact .inl hm
  | replyExit _ _ _ _ ha => cases ha <;> exact .inl hm
  | replyDirect _ _ _ _ hlv | finish _ _ hlv | exitPop _ _ _ hlv | exitPopSaved _ _ _ hlv =>
    cases hlv <;> exact .inl hm
  | _ => exact .inl hm

theorem early_origin {s x : Local} {l : Label} {b : Bool} (he : Effect s l x b) {m : Message}
    (hm : x.th.pendingSavedReply = some m) : s.th.pendingSavedReply = some m ∨ l = .pushReply m := by
  cases he with
  | interruptContinuation | interruptJump | interruptNothing => cases hm
  | pushPending => exact .inr (by rw [Option.some.inj hm])
  | dispatchDone _ _ _ hw | doneFree _ _ _ hw | doneKeep _ _ _ hw => cases hw <;> exact .inl hm
  | replyReturn _ _ _ _ _ ha hlv | syscallReturn _ _ _ ha hlv => cases hlv <;> cases ha <;> exact .inl hm
  | replyExit _ _ _ _ ha => cases ha <;> exact .inl hm
  | replyDirect _ _ _ _ hlv | finish _ _ hlv | exitPop _ _ _ hlv | exitPopSaved _ _ _ hlv =>
    cases hlv <;> exact .inl hm
  | _ => exact .inl hm

/-- `interrupt_exit` goes on only by popping its record. -/
theorem exiting_left {s x : Local} {l : Label} {b : Bool} (hr : s.th.running = true ↔ s.phase ≠ .off)
    (he : Effect s l x b) (hp : s.phase = .exiting) (hx : x.phase ≠ .exiting) :
    ∀ top rest m, s.th.interrupts = top :: rest → top.savedReply = some m → x.sent = s.sent ++ [m] := by
  intro top rest m hi hm
  cases he with
  | exitPop _ hi' hn =>
    rw [hi] at hi'
    obtain ⟨rfl, rfl⟩ := List.cons.inj hi'
    simp [hm] at hn
  | exitPopSaved _ hi' hn hlv =>
    rw [hi] at hi'
    obtain ⟨rfl, rfl⟩ := List.cons.inj hi'
    obtain rfl := Option.some.inj (hm.symm.trans hn)
    cases hlv <;> rfl
  | replyReturn hb | replyExit hb => rcases hb with hb | hb <;> simp [hb] at hp
  | _ => simp_all

/-! ## The run so far -/

/-- Every repetition in `sent` is a pushed reply, behind the reply to the exit of its interrupt. -/
def RepeatsPushed (sent : List Message) (h : Signals) : Prop :=
  ∀ l m r, sent = l ++ m :: r → m ∈ l → ∃ x i, l.getLast? = some ⟨x⟩ ∧ (x, i) ∈ h.exits ∧ (i, m) ∈ h.pushed

/-- `interrupt_exit` has sent its reply and has its record to pop. -/
structure Exiting (s : Local) (exits : List (Call × Call)) (x : Call) : Prop where
  call : s.cur.call = some x
  handed : ⟨x⟩ ∈ s.handed
  last : s.sent.getLast? = some ⟨x⟩
  matched : s.th.interrupts ≠ [] → ∃ i, (x, i) ∈ exits

structure Logged (s : Local) (h : Signals) : Prop where
  exits : Exits s h.exits
  made : ∀ m ∈ s.sent, m ∈ s.handed
  exiting : s.phase = .exiting → ∃ x, Exiting s h.exits x
  plain : ∀ i m, (i, m) ∈ h.pushed → m.call.number ≠ .interruptExit
  delivered : ∀ i m, (i, m) ∈ h.pushed → Kept s h.exits i m ∨ ∃ x, (x, i) ∈ h.exits ∧ [⟨x⟩, m] <:+: s.sent
  unsent : ∀ i m, Kept s h.exits i m → (i, m) ∈ h.pushed ∨ m ∉ s.sent
  repeats : RepeatsPushed s.sent h

section Step

variable {s : State} {h : Signals} {x : Local} {l : Label} {b : Bool}

/-- What a step sends is a reply it just made, or the one in the record it leaves. -/
theorem sent_effect (hm : Matching s.loc) (he : Effect s.loc l x b) : x.sent = s.loc.sent ∨ ∃ m, x.sent = s.loc.sent ++ [m] ∧
    m ∈ x.client.wire ∧ (x.handed = s.loc.handed ++ [m] ∧ m ∉ s.loc.handed ∨
      l = .exitPop ∧ s.loc.phase = .exiting ∧ ∃ top rest, s.loc.th.interrupts = top :: rest ∧ top.savedReply = some m) := by
  by_cases hl : l = .receive
  · subst hl
    cases he with
    | receive => exact .inl rfl
  · rcases wire_effect he hl with ⟨-, hs⟩ | ⟨m, hw, hs, hn | hn | hn⟩
    · exact .inl hs
    · refine .inr ⟨m, hs, by simp [hw], .inl ⟨hn, ?_⟩⟩
      rcases handed_effect hm.orderly he with hh | ⟨c, hh, -, hu, -⟩
      · simp [hh] at hn
      · obtain rfl : m = ⟨c⟩ := by simpa [hn] using hh
        exact hu
    · exact .inr ⟨m, hs, by simp [hw], .inr hn⟩
    · simp [hm.direct] at hn

theorem made_sent (hi : Logged s.loc h) (hm : Matching s.loc) (he : Effect s.loc l x b) : ∀ m ∈ x.sent, m ∈ x.handed := by
  have hh := fun m => ledger_handed (m := m) (ledger_effect he)
  intro m hmem
  rcases sent_effect hm he with hs | ⟨m', hs, -, ⟨hn, -⟩ | ⟨-, -, top, rest, ht, hr⟩⟩
  · exact hh m (hi.made m (hs ▸ hmem))
  · rw [hs, List.mem_append, List.mem_singleton] at hmem
    rcases hmem with hmem | rfl
    · exact hh m (hi.made m hmem)
    · simp [hn]
  · rw [hs, List.mem_append, List.mem_singleton] at hmem
    rcases hmem with hmem | rfl
    · exact hh m (hi.made m hmem)
    · refine hh m (hm.orderly.names.circulating m (.inr (.inl ?_)))
      exact mem_stored.2 (.inl ⟨top, by simp [ht], hr⟩)

/-- The innermost frame, where there is a record to pop, is that of the interrupt the exit matches. -/
theorem exit_frame (hi : Logged s.loc h) (hm : Matching s.loc) {c : Call} (hp : s.loc.phase = .body)
    (hu : ⟨c⟩ ∉ s.loc.handed) (hw : s.loc.client.awaiting = some c) (hn : c.number = .interruptExit)
    {top : InterruptContext} {rest : List InterruptContext} (ht : s.loc.th.interrupts = top :: rest) :
    ∃ v vs, frames s.loc = v :: vs ∧ (c, v.opener) ∈ h.exits := by
  have hfr := (frames_unanswered hm.orderly hw hn hu).2
  have hmat := hm.matched
  rw [hfr, replies_eq (by simp [hp]), ht, List.map_cons] at hmat
  obtain ⟨v, vs, -, -, hlv⟩ := List.forall₂_cons_right_iff.1 hmat
  exact ⟨v, vs, hfr.trans hlv, hi.exits.awaited c v hw hn (by simp [hlv])⟩

theorem exiting_log (hi : Logged s.loc h) (hm : Matching s.loc) (hg : s.straight l = true) (he : Effect s.loc l x b)
    (hp : x.phase = .exiting) : ∃ e, Exiting x (h.exits ++ s.leaving l) e := by
  rcases exiting_cases he hp with ⟨hs, -, hh, hcur⟩ | ⟨c, y, rfl, h₁, h₂, h₃, h₄, ha, rfl⟩
  · obtain ⟨e, h₁, h₂, h₃, h₄⟩ := hi.exiting hs
    have hint := exiting_interrupts hm.orderly hm.toLevels hm.toCirculation hg he hs hp
    refine ⟨e, hcur ▸ h₁, hh ▸ h₂, ?_, fun hne => ?_⟩
    · rcases sent_effect hm he with hsent | ⟨m, -, -, ⟨hn, -⟩ | ⟨rfl, -⟩⟩
      · rwa [hsent]
      · simp [hh] at hn
      · cases he with
        | exitPop _ _ _ hlv | exitPopSaved _ _ _ hlv => cases hlv <;> cases hp
    · obtain ⟨i, hei⟩ := h₄ (hint ▸ hne)
      exact ⟨i, List.mem_append_left _ hei⟩
  · obtain ⟨hb, hu, haw, -, hf⟩ := hm.orderly.exit_awaited h₁ h₂ h₃ h₄
    rw [State.straight, Bool.and_eq_true] at hg
    have hsent : y.sent = s.loc.sent ++ [⟨c⟩] ∧ y.handed = s.loc.handed ++ [⟨c⟩] ∧ y.cur = s.loc.cur ∧
        y.th.interrupts = s.loc.th.interrupts := by
      have hd : (!s.loc.th.deferReplyForS2C && !s.loc.th.dead) = true := by simpa [State.directly, hf] using hg.2
      cases ha with
      | saved hf' => simp [hf] at hf'
      | sent => exact ⟨rfl, rfl, rfl, rfl⟩
      | deferred _ _ hx | dropped _ _ _ hx => simp [hx] at hd
    obtain ⟨hs₁, hs₂, hs₃, hs₄⟩ := hsent
    refine ⟨c, by simpa [hs₃] using h₃, by simp [hs₂], by simp [hs₁], fun hne => ?_⟩
    obtain ⟨top, rest, ht⟩ := List.exists_cons_of_ne_nil (hs₄ ▸ hne)
    obtain ⟨v, vs, -, hv⟩ := exit_frame hi hm hb hu haw h₄ ht
    exact ⟨v.opener, List.mem_append_left _ hv⟩

theorem kept_or_sent (hi : Logged s.loc h) (hm : Matching s.loc) (hx : Matching x) (hg : s.straight l = true)
    (he : Effect s.loc l x b) {i : Call} {m : Message} (hk : Kept s.loc h.exits i m) :
    Kept x (h.exits ++ s.leaving l) i m ∨ ∃ e, (e, i) ∈ h.exits ++ s.leaving l ∧ [⟨e⟩, m] <:+: x.sent := by
  have hmono : ∀ {e}, e ∈ h.exits → e ∈ h.exits ++ s.leaving l := fun he => List.mem_append_left _ he
  cases hk with
  | early hi' hm' =>
    refine .inl ?_
    rcases early_kept hm.orderly hm.toLevels hm.toCirculation hg he hi' hm' with hmx | hf
    · obtain ⟨-, j, hj, -⟩ := hx.early m hmx
      rcases entering_talk (talk_effect he) hj with hjs | ⟨n, rfl, -⟩
      · exact .early (hj.trans (hjs.symm.trans hi')) hmx
      · simp [(disciplined_recv (State.straight.disciplined hg)).2.2.1] at hi'
    · exact .filed hf
  | filed hf =>
    have hf' := filing_filed hi.exits (filing_effect hm.orderly hm.toLevels hm.toCirculation hg he) hf
    rcases hf' with hf' | hf'
    · exact .inl (.filed hf')
    · cases hf' with
      | early h₁ h₂ => exact .inl (.early h₁ h₂)
      | filed h₁ => exact .inl (.filed h₁)
      | leaving h₁ h₂ h₃ h₄ h₅ => exact .inl (.leaving h₁ h₂ (hmono h₃) h₄ h₅)
  | @leaving e top rest hp hc hei ht hs =>
    by_cases hpx : x.phase = .exiting
    · refine .inl (.leaving hpx ?_ (hmono hei)
        ((exiting_interrupts hm.orderly hm.toLevels hm.toCirculation hg he hp hpx).trans ht) hs)
      rcases exiting_cases he hpx with ⟨-, -, -, hcur⟩ | ⟨c, y, -, h₁ | h₁, -⟩
      · rw [hcur, hc]
      · simp [h₁] at hp
      · simp [h₁] at hp
    · -- the record is popped, and its reply sent behind the exit's own
      obtain ⟨e', h₁, -, h₃, -⟩ := hi.exiting hp
      obtain rfl := Option.some.inj (hc.symm.trans h₁)
      obtain ⟨sent, hsent⟩ := List.getLast?_eq_some_iff.1 h₃
      refine .inr ⟨e, hmono hei, sent, [], ?_⟩
      rw [exiting_left hm.orderly.running he hp hpx top rest m ht hs, hsent]
      simp

theorem kept_origin (hi : Logged s.loc h) (hm : Matching s.loc) (hg : s.straight l = true)
    (he : Effect s.loc l x b) {i : Call} {m : Message} (hk : Kept x (h.exits ++ s.leaving l) i m) :
    Kept s.loc h.exits i m ∨ (i, m) ∈ s.pushing l ∨ m ∉ s.loc.handed := by
  have hd := State.straight.disciplined hg
  have hclient : ∀ {m'}, l = .pushReply m' → x.client.entering = s.loc.client.entering := by
    rintro m' rfl
    exact (client_effect he (by simp) (by simp)).1
  cases hk with
  | early hj hmx =>
    rcases early_origin he hmx with hms | rfl
    · obtain ⟨-, k, hk, -⟩ := hm.early m hms
      rcases entering_talk (talk_effect he) hj with hjs | ⟨n, rfl, -⟩
      · exact .inl (.early hjs hms)
      · simp [(disciplined_recv hd).2.2.1] at hk
    · exact .inr (.inl (mem_pushing.2 ⟨rfl, hclient rfl ▸ hj⟩))
  | filed hf =>
    rcases filed_filing (filing_effect hm.orderly hm.toLevels hm.toCirculation hg he) hf with hf | ⟨hj, ha⟩
    · exact .inl (.filed hf)
    · rcases ha with ha | rfl | ha
      · exact .inl (.early hj ha)
      · exact .inr (.inl (mem_pushing.2 ⟨rfl, hj⟩))
      · rcases handed_effect hm.orderly he with hh | ⟨c, hh, -, hu, -⟩
        · simp [hh] at ha
        · obtain rfl : m = ⟨c⟩ := by simpa [ha] using hh
          exact .inr (.inr hu)
  | @leaving e top rest hp hc hei ht hs =>
    rcases exiting_cases he hp with ⟨hps, -, -, hcur⟩ | ⟨c, y, rfl, h₁, h₂, h₃, h₄, ha, rfl⟩
    · have hint := exiting_interrupts hm.orderly hm.toLevels hm.toCirculation hg he hps hp
      refine .inl (.leaving hps (hcur ▸ hc) ?_ (hint ▸ ht) hs)
      refine (List.mem_append.1 hei).resolve_right fun hnew => ?_
      obtain ⟨e', h₁, h₂, -⟩ := hi.exiting hps
      obtain rfl : e = e' := Option.some.inj (hc.symm.trans (hcur ▸ h₁))
      have hid := hm.orderly.names.ids e (.inr (.inl h₂))
      simp [(mem_leaving.1 hnew).2.1] at hid
    · obtain ⟨hb, hu, haw, -, hf⟩ := hm.orderly.exit_awaited h₁ h₂ h₃ h₄
      have hy : y.th.interrupts = s.loc.th.interrupts ∧ y.cur = s.loc.cur := by
        cases ha with
        | saved hf' => simp [hf] at hf'
        | deferred | sent | dropped => exact ⟨rfl, rfl⟩
      have hts : s.loc.th.interrupts = top :: rest := hy.1 ▸ ht
      obtain ⟨v, vs, hfr, hv⟩ := exit_frame hi hm hb hu haw h₄ hts
      obtain rfl : e = c := Option.some.inj (hc.symm.trans (by rw [← h₃]; exact congrArg _ hy.2))
      have hei : (e, i) ∈ h.exits := (List.mem_append.1 hei).resolve_right (by simp [mem_leaving])
      have hvi := List.inj_on_of_nodup_map hi.exits.one.1 hv hei rfl
      refine .inl (.filed ⟨v, congrArg Prod.snd hvi, ?_⟩)
      rw [hfr, replies_eq (by simp [hb]), hts, List.map_cons, hs, List.zip_cons_cons]
      exact List.mem_cons_self

theorem pushed_kept (hm : Matching s.loc) (hg : s.straight l = true) (he : Effect s.loc l x b) {i : Call} {m : Message}
    (hp : (i, m) ∈ s.pushing l) : Kept x (h.exits ++ s.leaving l) i m ∧ m.call.number ≠ .interruptExit := by
  obtain ⟨rfl, hi⟩ := mem_pushing.1 hp
  have hd := State.straight.disciplined hg
  have hpush : s.loc.client.pushing = some m := by simpa [State.disciplined, State.conforms] using hd
  refine ⟨?_, hm.orderly.names.noExit i _ hi (hm.pushing m hpush).1⟩
  have hwi := fun hw => frames_within hm.orderly hm.noExit hd hw he
  cases he with
  | pushPending => exact .early hi rfl
  | pushTop hn hr hs =>
    obtain ⟨hp, -, -, j, hj, hmade⟩ := pushed_made hm.orderly hm.toLevels hm.toCirculation hg hn
    obtain rfl := Option.some.inj (hi.symm.trans hj)
    obtain ⟨vs, hvs⟩ := frames_made hi hmade
    refine .filed ⟨⟨i, s.loc.client.awaiting⟩, rfl, ?_⟩
    rw [hwi ⟨by simp, .inr (by simpa using hp)⟩, hvs, replies_eq (by simpa using hp), List.map_cons, List.zip_cons_cons]
    exact List.mem_cons_self

/-- A reply that is kept is not the one a step sends. -/
theorem unsent_effect (hm : Matching s.loc) (hx : Matching x) (he : Effect s.loc l x b) {m : Message}
    (hst : m ∈ stored x.th) (hn : m ∉ s.loc.sent) : m ∉ x.sent := by
  rcases sent_effect hm he with hs | ⟨m', hs, hw, -⟩
  · rwa [hs]
  · rw [hs, List.mem_append, List.mem_singleton]
    rintro (hmem | rfl)
    · exact hn hmem
    · exact absurd rfl ((List.nodup_append.1 hx.single).2.2 m (by simp [hw]) m hst)

theorem sent_extends (hm : Matching s.loc) (he : Effect s.loc l x b) : ∃ ms, x.sent = s.loc.sent ++ ms := by
  rcases sent_effect hm he with hs | ⟨m', hs, -⟩
  · exact ⟨[], by simp [hs]⟩
  · exact ⟨[m'], hs⟩

theorem repeats_effect (hi : Logged s.loc h) (hm : Matching s.loc) (he : Effect s.loc l x b) :
    RepeatsPushed x.sent ⟨h.pushed ++ s.pushing l, h.exits ++ s.leaving l⟩ := by
  have hold : ∀ {l' m r}, s.loc.sent = l' ++ m :: r → m ∈ l' → ∃ x i, l'.getLast? = some ⟨x⟩ ∧
      (x, i) ∈ h.exits ++ s.leaving l ∧ (i, m) ∈ h.pushed ++ s.pushing l := by
    intro l' m r hs hmem
    obtain ⟨e, i, h₁, h₂, h₃⟩ := hi.repeats l' m r hs hmem
    exact ⟨e, i, h₁, List.mem_append_left _ h₂, List.mem_append_left _ h₃⟩
  intro l' m r hs hmem
  rcases sent_effect hm he with hs' | ⟨m', hs', -, hnew⟩
  · exact hold (hs' ▸ hs) hmem
  · rw [hs'] at hs
    rcases List.eq_nil_or_concat r with rfl | ⟨r', m'', rfl⟩
    · -- the reply just sent was sent before, so it was pushed back
      obtain ⟨rfl, hlast⟩ := List.append_inj' hs rfl
      obtain rfl : m' = m := by simpa using hlast
      rcases hnew with ⟨-, hu⟩ | ⟨-, hp, top, rest, ht, hr⟩
      · exact absurd (hi.made m' hmem) hu
      · obtain ⟨e, h₁, -, h₃, h₄⟩ := hi.exiting hp
        obtain ⟨i, hei⟩ := h₄ (by simp [ht])
        have hpu := (hi.unsent i m' (.leaving hp h₁ hei ht hr)).resolve_right (fun hn => hn hmem)
        exact ⟨e, i, h₃, List.mem_append_left _ hei, List.mem_append_left _ hpu⟩
    · rw [List.concat_eq_append, ← List.cons_append, ← List.append_assoc] at hs
      exact hold (List.append_inj' hs rfl).1 hmem

theorem logged_effect (hi : Logged s.loc h) (hm : Matching s.loc) (hg : s.straight l = true)
    (he : Effect s.loc l x b) : Logged x ⟨h.pushed ++ s.pushing l, h.exits ++ s.leaving l⟩ := by
  have hx := matching_effect hm hg he
  refine ⟨?_, made_sent hi hm he, exiting_log hi hm hg he, fun i m hp => ?_, fun i m hp => ?_, fun i m hk => ?_,
    repeats_effect hi hm he⟩
  · exact exits_effect hi.exits hm.orderly hm.toLevels (State.straight.disciplined hg) he
  · rcases List.mem_append.1 hp with hp | hp
    · exact hi.plain i m hp
    · exact (pushed_kept (h := h) hm hg he hp).2
  · rcases List.mem_append.1 hp with hp | hp
    · rcases hi.delivered i m hp with hk | ⟨e, hei, hinf⟩
      · exact kept_or_sent hi hm hx hg he hk
      · obtain ⟨ms, hs⟩ := sent_extends hm he
        obtain ⟨a, r, hr⟩ := hinf
        exact .inr ⟨e, List.mem_append_left _ hei, a, r ++ ms, by rw [hs, ← hr]; simp⟩
    · exact .inl (pushed_kept hm hg he hp).1
  · rcases kept_origin hi hm hg he hk with hs | hs | hs
    · rcases hi.unsent i m hs with hp | hn
      · exact .inl (List.mem_append_left _ hp)
      · exact .inr (unsent_effect hm hx he hk.mem_stored hn)
    · exact .inl (List.mem_append_right _ hs)
    · exact .inr (unsent_effect hm hx he hk.mem_stored fun hmem => hs (hi.made m hmem))

end Step

/-! ## Every run -/

theorem logged_init {s : State} (h : s.Init) : Logged s.loc {} := by
  have hk : ∀ i m, ¬Kept s.loc [] i m := by
    intro i m hk
    have hm := hk.mem_stored
    rcases h with rfl | ⟨k, rfl⟩ <;> simp [stored, setupKernelThread] at hm
  refine ⟨⟨?_, ?_, ?_, ?_, ?_, ?_, ?_⟩, ?_, ?_, ?_, ?_, fun i m h => absurd h (hk i m), fun l m r hs => ?_⟩
  all_goals rcases h with rfl | ⟨k, rfl⟩
  all_goals simp at *

theorem logged_fault {s : Local} {h : Signals} (hi : Logged s h) (f : Fault) : Logged { s with fault := some f } h := by
  obtain ⟨h₁, h₂, h₃, h₄, h₅, h₆, h₇⟩ := hi
  refine ⟨{ h₁ with }, h₂, fun hp => ?_, h₄, fun i m hp => ?_, fun i m hk => h₆ i m ?_, h₇⟩
  · obtain ⟨x, hx⟩ := h₃ hp
    exact ⟨x, { hx with }⟩
  · refine (h₅ i m hp).imp_left fun hk => ?_
    cases hk with
    | early a b => exact .early a b
    | filed a => exact .filed a
    | leaving a b c d e => exact .leaving a b c d e
  · cases hk with
    | early a b => exact .early a b
    | filed a => exact .filed a
    | leaving a b c d e => exact .leaving a b c d e

/-- `callFromMessage` never refuses a reply that is pushed back. -/
theorem push_accepted {s : State} {l : Label} {f : Fault} (hm : Matching s.loc) (hg : s.straight l = true)
    (ht : Throws s.loc l f) : f ≠ .pushOutsideInterrupt ∧ f ≠ .pushOverSavedReply := by
  cases ht with
  | pushOutside hn hi =>
    obtain ⟨hp, -, -, i, hent, hmade⟩ := pushed_made hm.orderly hm.toLevels hm.toCirculation hg hn
    obtain ⟨vs, hvs⟩ := frames_made hent hmade
    have hmat := hm.matched
    simp [hvs, replies_eq hp, hi] at hmat
  | @pushOver m top rest hn hi hs =>
    -- the record would hold the very reply the client sends back
    obtain ⟨hp, hpush, haw, i, hent, hmade⟩ := pushed_made hm.orderly hm.toLevels hm.toCirculation hg hn
    obtain ⟨vs, hvs⟩ := frames_made hent hmade
    obtain ⟨m', hm'⟩ := Option.ne_none_iff_exists'.1 hs
    have hmat := hm.matched
    rw [hvs, replies_eq hp, hi, List.map_cons, List.forall₂_cons] at hmat
    have hcall := haw.symm.trans (hmat.1 m' hm')
    obtain rfl : m = m' := by cases m; cases m'; simpa using hcall
    have hst : m ∈ stored s.loc.th := mem_stored.2 (.inl ⟨top, by simp [hi], hm'⟩)
    exact absurd rfl ((List.nodup_append.1 hm.single).2.2 m (by simp [hpush]) m hst)
  | reply _ _ _ hb | syscallReturn _ _ hb => cases hb <;> simp
  | _ => simp

/-- What holds along a run of the pushed replies and of what is sent. -/
structure Tracked (p : State × Signals) : Prop where
  matching : Matching p.1.loc
  logged : Logged p.1.loc p.2
  accepted : p.1.loc.fault ≠ some .pushOutsideInterrupt ∧ p.1.loc.fault ≠ some .pushOverSavedReply

theorem tracked {p : State × Signals} (h : Reach (track State.step noteSignal) (fun p l => p.1.straight l = true)
    (fun p => State.Init p.1 ∧ p.2 = {}) p) : Tracked p := by
  refine tracked_inv Tracked ?_ ?_ ?_ h
  · rintro ⟨s, q⟩ ⟨hs, rfl⟩
    refine ⟨matching_init hs, logged_init hs, ?_⟩
    rcases hs with rfl | ⟨k, rfl⟩ <;> simp
  · intro s q l f hi hg hc
    have hn : noteSignal s l { s with loc := { s.loc with fault := some f } } q = q := if_pos rfl
    rw [hn]
    refine ⟨matching_fault hi.matching f, logged_fault hi.logged f, ?_⟩
    obtain ⟨h₁, h₂⟩ := push_accepted hi.matching hg (core_throws hc)
    exact ⟨fun hf => h₁ (Option.some.inj hf), fun hf => h₂ (Option.some.inj hf)⟩
  · intro s q l x b hi hg hn _ he
    have hf : x.fault = none := (fault_effect he).trans hn
    have hnote : noteSignal s l (s.account x b l) q = ⟨q.pushed ++ s.pushing l, q.exits ++ s.leaving l⟩ :=
      if_neg (by simp [hf])
    rw [hnote]
    refine ⟨?_, ?_, ?_⟩ <;> rw [account_loc]
    · exact matching_effect hi.matching hg he
    · exact logged_effect hi.logged hi.matching hg he
    · simp [hf]

/-- Pushed replies are accepted, kept while their interrupt lasts, and sent again, once, right behind the reply
to the `interrupt_exit` that matches it; no other reply is ever sent twice. -/
structure Redelivered (p : State × Signals) : Prop where
  accepted : p.1.loc.fault ≠ some .pushOutsideInterrupt ∧ p.1.loc.fault ≠ some .pushOverSavedReply
  /-- An `interrupt_exit` matches one `interrupt_enter`, and is answered once. -/
  exits : (p.2.exits.map (·.1)).Nodup ∧ (p.2.exits.map (·.2)).Nodup ∧ ∀ e ∈ p.2.exits, p.1.loc.sent.count ⟨e.1⟩ ≤ 1
  kept : ∀ i m, (i, m) ∈ p.2.pushed → (∀ x, (x, i) ∈ p.2.exits → ⟨x⟩ ∉ p.1.loc.handed) → m ∈ stored p.1.loc.th
  /-- With its own reply sent, `interrupt_exit` has only to send the pushed one. -/
  next : ∀ i m x, (i, m) ∈ p.2.pushed → (x, i) ∈ p.2.exits → p.1.loc.phase = .exiting → p.1.loc.cur.call = some x →
    p.1.loc.sent.getLast? = some ⟨x⟩ ∧ ∃ y, p.1.loc.exitPop = .ok y ∧ y.sent = p.1.loc.sent ++ [m]
  again : ∀ i m x, (i, m) ∈ p.2.pushed → (x, i) ∈ p.2.exits → ⟨x⟩ ∈ p.1.loc.handed →
    ¬(p.1.loc.phase = .exiting ∧ p.1.loc.cur.call = some x) → [⟨x⟩, m] <:+: p.1.loc.sent
  once : RepeatsPushed p.1.loc.sent p.2

section Tracked

variable {p : State × Signals}

theorem two_occurrences {α : Type*} [DecidableEq α] {a : α} {l : List α} (h : 1 < l.count a) :
    ∃ l₁ l₂, l = l₁ ++ a :: l₂ ∧ a ∈ l₁ := by
  obtain ⟨l₁, l₂, rfl, hn⟩ := List.eq_append_cons_of_mem (List.count_pos_iff.1 (Nat.lt_trans Nat.zero_lt_one h))
  rw [List.count_append, List.count_cons_self, List.count_eq_zero.2 hn] at h
  obtain ⟨l₃, l₄, rfl⟩ := List.append_of_mem (List.count_pos_iff.1 (by omega : 0 < l₂.count a))
  exact ⟨l₁ ++ a :: l₃, l₄, by simp, by simp⟩

theorem exit_once (h : Tracked p) {x i : Call} (he : (x, i) ∈ p.2.exits) : p.1.loc.sent.count ⟨x⟩ ≤ 1 := by
  by_contra hc
  obtain ⟨l₁, l₂, hs, hm⟩ := two_occurrences (Nat.lt_of_not_le hc)
  obtain ⟨y, j, -, -, hp⟩ := h.logged.repeats l₁ ⟨x⟩ l₂ hs hm
  exact h.logged.plain j ⟨x⟩ hp (h.logged.exits.number _ he)

theorem exit_unique (h : Tracked p) {x y i : Call} (hx : (x, i) ∈ p.2.exits) (hy : (y, i) ∈ p.2.exits) : x = y :=
  congrArg Prod.fst (List.inj_on_of_nodup_map h.logged.exits.one.2 hx hy rfl)

/-- A reply kept for an interrupt that has been left is the one its exit is about to send. -/
theorem kept_left (h : Tracked p) {x i : Call} {m : Message} (he : (x, i) ∈ p.2.exits) (hx : ⟨x⟩ ∈ p.1.loc.handed)
    (hk : Kept p.1.loc p.2.exits i m) : p.1.loc.phase = .exiting ∧ p.1.loc.cur.call = some x ∧
      ∃ top rest, p.1.loc.th.interrupts = top :: rest ∧ top.savedReply = some m := by
  cases hk with
  | early hi => exact absurd hi (h.logged.exits.entering _ he)
  | filed hf =>
    obtain ⟨v, hv, hz⟩ := hf
    exact absurd hv (h.logged.exits.closed he hx v (List.of_mem_zip hz).1)
  | @leaving y top rest hp hc hy ht hs =>
    obtain rfl := exit_unique h hy he
    exact ⟨hp, hc, top, rest, ht, hs⟩

/-- A reply that is sent behind the one reply to an exit is not about to be sent behind it. -/
theorem behind_not_last {l : List Message} {a m : Message} (hc : l.count a ≤ 1) (hb : [a, m] <:+: l) :
    l.getLast? ≠ some a := by
  obtain ⟨l₁, l₂, rfl⟩ := hb
  intro hl
  rw [List.append_assoc, List.getLast?_append] at hl
  have hm : a ∈ m :: l₂ := by
    refine List.mem_of_getLast? ?_
    simpa [List.getLast?_cons] using hl
  have := List.count_pos_iff.2 hm
  simp only [List.count_append, List.count_cons, beq_self_eq_true, if_true] at hc this
  omega

theorem exitPop_sends {s : Local} (hs : Shape s) (hp : s.phase = .exiting) {top : InterruptContext}
    {rest : List InterruptContext} {m : Message} (ht : s.th.interrupts = top :: rest) (hm : top.savedReply = some m) :
    ∃ y, s.exitPop = .ok y ∧ y.sent = s.sent ++ [m] := by
  obtain ⟨hf, hw⟩ := hs.exiting hp
  have hh : s.th.handlingInterruptedCall = false := by
    by_contra hh
    simp [hs.handling (by simpa using hh)] at hf
  have he : s.th.exitInterrupt = .ok ({ s.th with interrupts := rest }, some m) := by
    simp [exitInterrupt, ht, hm]
  have hr : returnsToHandler { s.th with interrupts := rest } s.cur.frame .byReturn = false := by
    simp [returnsToHandler, hw, hh]
  refine ⟨{ { s with th := { s.th with interrupts := rest } }.sendMessage m with phase := .returning }, ?_, rfl⟩
  rw [Local.exitPop, he]
  exact if_neg (by simp [Local.sendMessage, hr])

theorem redelivered (h : Reach (track State.step noteSignal) (fun p l => p.1.straight l = true)
    (fun p => State.Init p.1 ∧ p.2 = {}) p) : Redelivered p := by
  have ht := tracked h
  have hl := ht.logged
  refine ⟨ht.accepted, ⟨hl.exits.one.1, hl.exits.one.2, fun e he => exit_once ht he⟩, fun i m hp hn => ?_,
    fun i m x hp he hph hc => ?_, fun i m x hp he hx hne => ?_, hl.repeats⟩
  · rcases hl.delivered i m hp with hk | ⟨y, hy, hb⟩
    · exact hk.mem_stored
    · exact absurd (hl.made _ (hb.subset (by simp))) (hn y hy)
  · obtain ⟨y, h₁, h₂, h₃, -⟩ := hl.exiting hph
    obtain rfl := Option.some.inj (hc.symm.trans h₁)
    refine ⟨h₃, ?_⟩
    rcases hl.delivered i m hp with hk | ⟨y, hy, hb⟩
    · obtain ⟨-, -, top, rest, hi, hm⟩ := kept_left ht he h₂ hk
      exact exitPop_sends ht.matching.orderly.shape hph hi hm
    · obtain rfl := exit_unique ht he hy
      exact absurd h₃ (behind_not_last (exit_once ht he) hb)
  · rcases hl.delivered i m hp with hk | ⟨y, hy, hb⟩
    · obtain ⟨h₁, h₂, -⟩ := kept_left ht he hx hk
      exact absurd ⟨h₁, h₂⟩ hne
    · obtain rfl := exit_unique ht he hy
      exact hb

end Tracked

/-- With clients that push nothing back for an interrupt in the queue, and replies that go straight out, every
pushed reply is redelivered: in every interleaving of the main loop and the workers. -/
theorem pushed_reply_redelivered {ι ω : Type*} [DecidableEq ι] [DecidableEq ω] {p : System ι ω × (ι → Signals)}
    (h : Reach (System.tracked noteSignal) (fun p a => (p.1.view a.thread).straight a.label = true)
      (fun p => System.Init p.1 ∧ ∀ i, p.2 i = {}) p) (i : ι) : Redelivered (p.1.view i, p.2 i) :=
  redelivered (System.reach_tracked (G := fun p l => p.1.straight l = true) (fun _ _ hg => hg) h i)

/-- The reply to a call is on its way when the client sends `interrupt_enter`. The client pushes it back
while `interrupt_enter` is pending, and later leaves the interrupt. -/
def racedCall : List (Action Unit (Fin 2)) :=
  [byOther (.recv (.plain 0)), byOther .push, byWorker 0 .pop, byWorker 0 .dispatch, byWorker 0 .activate,
    byWorker 0 (.reply .byReturn), byWorker 0 .done, byOther (.recv .interruptEnter), byOther .push, byOther .receive,
    byOther (.pushReply ⟨⟨0, .plain 0⟩⟩), byWorker 1 .pop, byWorker 1 .dispatch, byWorker 1 .activate,
    byWorker 1 .interruptBegin, byWorker 1 .interruptEnd, byWorker 1 (.reply .byReturn), byWorker 1 .done,
    byOther .receive, byOther (.recv .interruptExit), byOther .push, byWorker 0 .pop, byWorker 0 .dispatch,
    byWorker 0 .activate, byWorker 0 (.reply .byReturn), byWorker 0 .exitPop, byWorker 0 .done]

theorem pushed_reply_redelivered_raced : ∃ p : System Unit (Fin 2) × (Unit → Signals),
    exec (System.tracked noteSignal) (fun p a => (p.1.view a.thread).straight a.label) (System.start, fun _ => {})
      racedCall = some p ∧
    (p.1.threads ()).sent.map (·.call.id) = [0, 1, 2, 0] ∧ Redelivered (p.1.view (), p.2 ()) := by
  have hrun : (exec (System.tracked noteSignal) (fun p a => (p.1.view a.thread).straight a.label)
      (System.start, fun _ => {}) racedCall).map (fun p => (p.1.threads ()).sent.map (·.call.id)) =
      some [0, 1, 2, 0] := by decide
  obtain ⟨p, hp, hs⟩ := Option.map_eq_some_iff.1 hrun
  exact ⟨p, hp, hs, pushed_reply_redelivered
    (exec_reach (fun _ _ hg => hg) hp (.init ⟨System.start_init, fun _ => rfl⟩)) ()⟩

/-- `interrupt_enter` is queued behind the call it interrupts; when the client pushes the reply back, it is
not the pending call yet, and there is no record. -/
theorem push_before_promotion_refused : ¬ ∀ p : System Unit (Fin 2) × (Unit → Signals),
    Reach (System.tracked noteSignal) (fun p a => (p.1.view a.thread).disciplined a.label = true)
      (fun p => System.Init p.1 ∧ ∀ i, p.2 i = {}) p → Redelivered (p.1.view (), p.2 ()) := by
  intro h
  have hrun : (exec (System.tracked noteSignal) (fun p a => (p.1.view a.thread).disciplined a.label)
      (System.start, fun _ => {})
      [byOther (.recv (.plain 0)), byOther .push, byOther (.recv .interruptEnter), byOther .push, byWorker 0 .pop,
        byWorker 0 .dispatch, byWorker 0 .activate, byWorker 0 (.reply .byReturn), byOther .receive,
        byOther (.pushReply ⟨⟨0, .plain 0⟩⟩)]).map (fun p => (p.1.threads ()).fault) =
      some (some .pushOutsideInterrupt) := by decide
  obtain ⟨p, hp, hf⟩ := Option.map_eq_some_iff.1 hrun
  exact (h p (exec_reach (fun _ _ hg => hg) hp (.init ⟨System.start_init, fun _ => rfl⟩))).accepted.1 hf

end DarlingServer
