import DarlingServer.Outbox
/-!
# Sending the queued messages

`sendMany` hands the first messages of the queue to `sendmmsg`, at most sixteen at a
time, until the queue is empty or a call fails for good. A call sends the first few
messages of its batch or fails on the first one. A message leaves the queue when it was
sent, and its callback is then called, or when its peer is found dead.

`trace_of_sendMany` says what every round contributes; the law about whole calls,
`sendMany_accounts_for_queue`, is read off the trace.
-/

namespace DarlingServer.Sending

/-! ## The messages -/

/-- A queued message: its `sun_path`, and `sendNotificationCallback` if it is set. -/
structure Message (μ κ : Type*) where
  body : μ
  sunPath : List Nat
  sendNotificationCallback : Option κ := none
  deriving DecidableEq

/-- What `sendmmsg` gets for a message. -/
structure Header (μ : Type*) where
  body : μ
  msgName : Option (List Nat)
  deriving DecidableEq

variable {μ κ : Type*}

def isAddressEmpty (sunPath : List Nat) : Bool := sunPath.all (· = 0)

/-- The header in the batch; an address of null bytes only is left out of it. -/
def Message.header (message : Message μ κ) : Header μ where
  body := message.body
  msgName := if isAddressEmpty message.sunPath then none else some message.sunPath

def EINTR : Nat := 4
def EAGAIN : Nat := 11
def EPIPE : Nat := 32
def ECONNREFUSED : Nat := 111

/-- What `sendmmsg` comes back with. -/
inductive Sent where
  | sent (count : Nat)
  | failed (errno : Nat)
  deriving DecidableEq

/-- The text of the exception. -/
def sendFailure : String := "Failed to send messages through socket"

/-- What `sendMany` does, step by step: a call of `sendmmsg` and what it came back with,
a message popped as sent or as dropped, a callback called. -/
inductive Event (μ κ : Type*) where
  | sendmmsg (mmsgs : List (Header μ)) (result : Sent)
  | popped (message : Message μ κ)
  | dropped (message : Message μ κ)
  | called (callback : κ)
  deriving DecidableEq

/-- An exception, or `canSendMore`. -/
abbrev Result := Except (Nat × String) Bool

structure Report (μ κ : Type*) where
  events : List (Event μ κ)
  left : List (Message μ κ)
  result : Result

/-! ## The loop -/

/-- The front message leaves the queue as sent and its callback is called if it is set. -/
def notifySent (message : Message μ κ) : List (Event μ κ) :=
  .popped message :: (message.sendNotificationCallback.map Event.called).toList

/-- The loop over the messages that were sent. -/
def popSent : Nat → List (Message μ κ) → List (Event μ κ) × List (Message μ κ)
  | 0, messages => ([], messages)
  | _ + 1, [] => ([], [])
  | count + 1, message :: messages =>
    let (events, left) := popSent count messages
    (notifySent message ++ events, left)

/-- What happens after `sendmmsg` has failed: whether the loop goes on, and with which
messages. -/
def afterFailure (errno : Nat) (messages : List (Message μ κ)) :
    List (Event μ κ) × List (Message μ κ) × Option Result :=
  if errno = EAGAIN then ([], messages, some (.ok false))
  else if errno = EINTR then ([], messages, none)
  else if errno = EPIPE ∨ errno = ECONNREFUSED then ((messages.take 1).map Event.dropped, messages.tail, none)
  else ([], messages, some (.error (errno, sendFailure)))

/-- The batch: the headers of the first messages. -/
def batch (messages : List (Message μ κ)) : List (Header μ) := (messages.take Outbox.batch).map Message.header

/-- One round, for a queue that is not empty. -/
def round (result : Sent) (messages : List (Message μ κ)) :
    Option (List (Event μ κ) × List (Message μ κ) × Option Result) :=
  match result with
  | .sent count =>
    if 0 < count ∧ count ≤ (batch messages).length then
      let (events, left) := popSent count messages
      some (.sendmmsg (batch messages) (.sent count) :: events, left, none)
    else none
  | .failed errno =>
    let (events, left, ended) := afterFailure errno messages
    some (.sendmmsg (batch messages) (.failed errno) :: events, left, ended)

/-- `sendMany`, with what its calls of `sendmmsg` come back with. There is no report when
it needs more results or fewer, or when a result is not one `sendmmsg` can have. -/
def sendMany : List Sent → List (Message μ κ) → Option (Report μ κ)
  | [], [] => some { events := [], left := [], result := .ok true }
  | [], _ :: _ => none
  | _ :: _, [] => none
  | sent :: results, message :: messages =>
    match round sent (message :: messages) with
    | none => none
    | some (events, left, some result) => if results = [] then some { events, left, result } else none
    | some (events, left, none) =>
      (sendMany results left).map fun report => { report with events := events ++ report.events }

/-! ## What a round contributes -/

/-- The headers the kernel took. -/
def Event.taken : Event μ κ → List (Header μ)
  | .sendmmsg mmsgs (.sent count) => mmsgs.take count
  | _ => []

def Event.sent : Event μ κ → List (Message μ κ)
  | .popped message => [message]
  | _ => []

/-- The messages sent or dropped. -/
def Event.handled : Event μ κ → List (Message μ κ)
  | .popped message => [message]
  | .dropped message => [message]
  | _ => []

def Event.callback : Event μ κ → List κ
  | .called callback => [callback]
  | _ => []

/-- What a call of `sendmmsg` came back with. -/
def Event.attempt : Event μ κ → List Sent
  | .sendmmsg _ result => [result]
  | _ => []

/-- The peer of the first message was found dead. -/
def peerDied (errno : Nat) : Prop := errno = EPIPE ∨ errno = ECONNREFUSED

/-- The other failures, those `sendMany` does not expect. -/
def unexpected (errno : Nat) : Prop := errno ≠ EAGAIN ∧ errno ≠ EINTR ∧ ¬ peerDied errno

/-- The ways a round can go. -/
inductive Goes (messages : List (Message μ κ)) : List (Event μ κ) → List (Message μ κ) → Option Result → Prop where
  | sent {count : Nat} (hpos : 0 < count) (hle : count ≤ Outbox.batch) (hle' : count ≤ messages.length) :
    Goes messages (.sendmmsg (batch messages) (.sent count) :: (messages.take count).flatMap notifySent)
      (messages.drop count) none
  | eagain : Goes messages [.sendmmsg (batch messages) (.failed EAGAIN)] messages (some (.ok false))
  | eintr : Goes messages [.sendmmsg (batch messages) (.failed EINTR)] messages none
  | died {errno : Nat} (herrno : peerDied errno) :
    Goes messages (.sendmmsg (batch messages) (.failed errno) :: (messages.take 1).map Event.dropped)
      messages.tail none
  | thrown {errno : Nat} (herrno : unexpected errno) :
    Goes messages [.sendmmsg (batch messages) (.failed errno)] messages (some (.error (errno, sendFailure)))

theorem popSent_eq (count : Nat) (messages : List (Message μ κ)) :
    popSent count messages = ((messages.take count).flatMap notifySent, messages.drop count) := by
  induction count generalizing messages with
  | zero => rfl
  | succ count ih =>
    cases messages with
    | nil => rfl
    | cons message messages => simp [popSent, ih]

theorem round_goes {result : Sent} {messages left : List (Message μ κ)} {events : List (Event μ κ)}
    {ended : Option Result} (h : round result messages = some (events, left, ended)) :
    Goes messages events left ended := by
  cases result with
  | sent count =>
    simp only [round, popSent_eq, Option.ite_none_right_eq_some, Option.some.injEq, Prod.mk.injEq] at h
    obtain ⟨⟨hpos, hle⟩, rfl, rfl, rfl⟩ := h
    simp only [batch, List.length_map, List.length_take] at hle
    exact .sent hpos (by omega) (by omega)
  | failed errno =>
    simp only [round, afterFailure, Option.some.injEq, Prod.mk.injEq] at h
    obtain ⟨rfl, rfl, rfl⟩ := h
    by_cases hagain : errno = EAGAIN
    · subst hagain
      exact .eagain
    by_cases hintr : errno = EINTR
    · subst hintr
      exact .eintr
    by_cases hdied : errno = EPIPE ∨ errno = ECONNREFUSED
    · simp only [if_neg hagain, if_neg hintr, if_pos hdied]
      exact .died hdied
    · simp only [if_neg hagain, if_neg hintr, if_neg hdied]
      exact .thrown ⟨hagain, hintr, hdied⟩

/-- A whole call as a sequence of rounds. -/
inductive Trace : List (Message μ κ) → Report μ κ → Prop where
  | empty : Trace [] { events := [], left := [], result := .ok true }
  | ended {messages left : List (Message μ κ)} {events : List (Event μ κ)} {result : Result}
    (hgoes : Goes messages events left (some result)) : Trace messages { events, left, result }
  | more {messages left : List (Message μ κ)} {events : List (Event μ κ)} {report : Report μ κ}
    (hgoes : Goes messages events left none) (hrest : Trace left report) :
    Trace messages { report with events := events ++ report.events }

theorem trace_of_sendMany {results : List Sent} {messages : List (Message μ κ)} {report : Report μ κ}
    (h : sendMany results messages = some report) : Trace messages report := by
  fun_induction sendMany results messages generalizing report with
  | case1 => cases h; exact .empty
  | case2 => cases h
  | case3 => cases h
  | case4 => cases h
  | case5 sent message messages events left result hround =>
    cases h
    exact .ended (round_goes hround)
  | case6 => cases h
  | case7 sent results message messages events left hround ih =>
    obtain ⟨rest, hrest, rfl⟩ := Option.map_eq_some_iff.1 h
    exact .more (round_goes hround) (ih hrest)

/-! ## What a call does to the queue -/

theorem flatMap_notifySent {α : Type*} {f : Event μ κ → List α} (hcalled : ∀ callback, f (.called callback) = [])
    (messages : List (Message μ κ)) :
    (messages.flatMap notifySent).flatMap f = messages.flatMap fun message => f (.popped message) := by
  induction messages with
  | nil => rfl
  | cons message messages ih =>
    cases hcb : message.sendNotificationCallback <;> simp [notifySent, hcb, hcalled, ih]

theorem callbacks_notifySent (messages : List (Message μ κ)) :
    (messages.flatMap notifySent).flatMap Event.callback = messages.filterMap (·.sendNotificationCallback) := by
  induction messages with
  | nil => rfl
  | cons message messages ih =>
    cases hcb : message.sendNotificationCallback <;> simp [notifySent, Event.callback, hcb, ih]

theorem take_batch {count : Nat} (messages : List (Message μ κ)) (h : count ≤ Outbox.batch) :
    (batch messages).take count = (messages.take count).map Message.header := by
  rw [batch, ← List.map_take, List.take_take, Nat.min_eq_left h]

/-- The messages accounted for, in order, and what was done for each kind of them. -/
structure Accounts (messages : List (Message μ κ)) (events : List (Event μ κ)) (left : List (Message μ κ)) :
    Prop where
  queue : messages = events.flatMap Event.handled ++ left
  taken : events.flatMap Event.taken = (events.flatMap Event.sent).map Message.header
  callbacks : events.flatMap Event.callback =
    (events.flatMap Event.sent).filterMap (·.sendNotificationCallback)

/-- Each message dropped was the first of a batch that has just failed since its peer died. -/
def DropsFirst (events : List (Event μ κ)) : Prop :=
  ∀ before message after, events = before ++ Event.dropped message :: after →
    ∃ earlier mmsgs errno,
      before = earlier ++ [Event.sendmmsg (message.header :: mmsgs) (.failed errno)] ∧ peerDied errno

theorem goes_accounts {messages left : List (Message μ κ)} {events : List (Event μ κ)} {ended : Option Result}
    (h : Goes messages events left ended) : Accounts messages events left := by
  cases h with
  | @sent count hpos hle hle' =>
    have hsent := flatMap_notifySent (f := Event.sent) (fun _ => rfl) (messages.take count)
    constructor
    · simp [flatMap_notifySent (f := Event.handled) (fun _ => rfl), Event.handled]
    · simp [hsent, flatMap_notifySent (f := Event.taken) (fun _ => rfl), Event.taken, Event.sent,
        take_batch messages hle]
    · simp [hsent, callbacks_notifySent, Event.callback, Event.sent]
  | eagain => exact ⟨rfl, rfl, rfl⟩
  | eintr => exact ⟨rfl, rfl, rfl⟩
  | died => cases messages <;> exact ⟨rfl, rfl, rfl⟩
  | thrown => exact ⟨rfl, rfl, rfl⟩

theorem Accounts.append {messages left left' : List (Message μ κ)} {events events' : List (Event μ κ)}
    (h : Accounts messages events left) (h' : Accounts left events' left') :
    Accounts messages (events ++ events') left' where
  queue := by rw [h.queue, h'.queue]; simp
  taken := by simp [h.taken, h'.taken]
  callbacks := by simp [h.callbacks, h'.callbacks]

theorem dropsFirst_of_not_mem {events : List (Event μ κ)} (h : ∀ message, .dropped message ∉ events) :
    DropsFirst events := by
  rintro before message after rfl
  exact absurd (by simp) (h message)

theorem goes_dropsFirst {messages left : List (Message μ κ)} {events : List (Event μ κ)} {ended : Option Result}
    (h : Goes messages events left ended) : DropsFirst events := by
  cases h with
  | sent => exact dropsFirst_of_not_mem fun message => by simp [notifySent]
  | eagain => exact dropsFirst_of_not_mem fun message => by simp
  | eintr => exact dropsFirst_of_not_mem fun message => by simp
  | thrown => exact dropsFirst_of_not_mem fun message => by simp
  | @died errno herrno =>
    cases messages with
    | nil => exact dropsFirst_of_not_mem fun message => by simp
    | cons first messages =>
      intro before message after heq
      -- the two events are the failed call and the drop of its first message
      match before, heq with
      | [], heq => simp at heq
      | [event], heq =>
        simp only [List.take_succ_cons, List.take_zero, List.map_cons, List.map_nil, List.cons_append,
          List.nil_append, List.cons.injEq, Event.dropped.injEq] at heq
        obtain ⟨rfl, rfl, -⟩ := heq
        exact ⟨[], (messages.take 15).map Message.header, errno, rfl, herrno⟩
      | _ :: _ :: _, heq => simp at heq

theorem DropsFirst.append {events events' : List (Event μ κ)} (h : DropsFirst events) (h' : DropsFirst events') :
    DropsFirst (events ++ events') := by
  intro before message after heq
  rcases List.append_eq_append_iff.1 heq with ⟨between, rfl, hafter⟩ | ⟨between, rfl, hafter⟩
  · obtain ⟨earlier, mmsgs, errno, rfl, herrno⟩ := h' between message after hafter
    exact ⟨events ++ earlier, mmsgs, errno, (List.append_assoc ..).symm, herrno⟩
  · cases between with
    | nil => exact absurd (h' [] message after (by simpa using hafter.symm)) (by simp)
    | cons event between =>
      obtain ⟨rfl, -⟩ := List.cons.inj hafter
      exact h before message between rfl

theorem trace_accounts {messages : List (Message μ κ)} {report : Report μ κ} (h : Trace messages report) :
    Accounts messages report.events report.left ∧ DropsFirst report.events := by
  induction h with
  | empty => exact ⟨⟨rfl, rfl, rfl⟩, dropsFirst_of_not_mem fun _ => List.not_mem_nil⟩
  | ended hgoes => exact ⟨goes_accounts hgoes, goes_dropsFirst hgoes⟩
  | more hgoes _ ih => exact ⟨(goes_accounts hgoes).append ih.1, (goes_dropsFirst hgoes).append ih.2⟩

/-! ## What a call reports -/

/-- What the calls of `sendmmsg` came back with. -/
def attempts (events : List (Event μ κ)) : List Sent := events.flatMap Event.attempt

/-- The results after which the loop goes on. -/
def Sent.goesOn : Sent → Prop
  | .sent _ => True
  | .failed errno => errno = EINTR ∨ peerDied errno

theorem goes_attempts {messages left : List (Message μ κ)} {events : List (Event μ κ)} {ended : Option Result}
    (h : Goes messages events left ended) :
    ∃ attempt, attempts events = [attempt] ∧
      (ended = none ∧ attempt.goesOn ∨ ended = some (.ok false) ∧ attempt = .failed EAGAIN ∨
        ∃ errno, unexpected errno ∧ attempt = .failed errno ∧ ended = some (.error (errno, sendFailure))) := by
  cases h with
  | @sent count =>
    refine ⟨.sent count, ?_, .inl ⟨rfl, trivial⟩⟩
    simp [attempts, Event.attempt, flatMap_notifySent (f := Event.attempt) (fun _ => rfl)]
  | eagain => exact ⟨_, rfl, .inr (.inl ⟨rfl, rfl⟩)⟩
  | eintr => exact ⟨_, rfl, .inl ⟨rfl, .inl rfl⟩⟩
  | @died errno herrno =>
    refine ⟨.failed errno, ?_, .inl ⟨rfl, .inr herrno⟩⟩
    cases messages <;> rfl
  | @thrown errno herrno => exact ⟨_, rfl, .inr (.inr ⟨errno, herrno, rfl, rfl⟩)⟩

/-- How a call ends: the attempts before the last one let the loop go on. -/
inductive Ends (attempts : List Sent) (left : List (Message μ κ)) : Result → Prop where
  | empty (hall : ∀ attempt ∈ attempts, attempt.goesOn) (hleft : left = []) : Ends attempts left (.ok true)
  | eagain (earlier : List Sent) (hall : ∀ attempt ∈ earlier, attempt.goesOn)
    (hlast : attempts = earlier ++ [Sent.failed EAGAIN]) : Ends attempts left (.ok false)
  | thrown (earlier : List Sent) (errno : Nat) (hall : ∀ attempt ∈ earlier, attempt.goesOn)
    (herrno : unexpected errno) (hlast : attempts = earlier ++ [Sent.failed errno]) :
    Ends attempts left (.error (errno, sendFailure))

theorem Ends.cons {attempts : List Sent} {left : List (Message μ κ)} {result : Result} {attempt : Sent}
    (hgo : attempt.goesOn) (h : Ends attempts left result) : Ends (attempt :: attempts) left result := by
  cases h with
  | empty hall hleft => exact .empty (List.forall_mem_cons.2 ⟨hgo, hall⟩) hleft
  | eagain earlier hall hlast =>
    exact .eagain (attempt :: earlier) (List.forall_mem_cons.2 ⟨hgo, hall⟩) (by rw [hlast]; rfl)
  | thrown earlier errno hall herrno hlast =>
    exact .thrown (attempt :: earlier) errno (List.forall_mem_cons.2 ⟨hgo, hall⟩) herrno (by rw [hlast]; rfl)

theorem trace_ends {messages : List (Message μ κ)} {report : Report μ κ} (h : Trace messages report) :
    Ends (attempts report.events) report.left report.result := by
  induction h with
  | empty => exact .empty (by simp [attempts]) rfl
  | ended hgoes =>
    obtain ⟨attempt, hat, ⟨hend, -⟩ | ⟨hend, rfl⟩ | ⟨errno, herrno, rfl, hend⟩⟩ := goes_attempts hgoes
    · cases hend
    · cases hend
      exact .eagain [] (by simp) hat
    · cases hend
      exact .thrown [] errno (by simp) herrno hat
  | more hgoes _ ih =>
    obtain ⟨attempt, hat, ⟨-, hgo⟩ | ⟨hend, -⟩ | ⟨errno, -, -, hend⟩⟩ := goes_attempts hgoes
    · have happend := ih.cons hgo
      rw [show attempt :: attempts _ = [attempt] ++ attempts _ from rfl, ← hat] at happend
      simpa [attempts] using happend
    · cases hend
    · cases hend

theorem not_goesOn_eagain : ¬ (Sent.failed EAGAIN).goesOn := by
  simp [Sent.goesOn, peerDied, EAGAIN, EINTR, EPIPE, ECONNREFUSED]

theorem not_goesOn_of_unexpected {errno : Nat} (h : unexpected errno) : ¬ (Sent.failed errno).goesOn := by
  rintro (hintr | hdied)
  · exact h.2.1 hintr
  · exact h.2.2 hdied

theorem ends_report {attempts : List Sent} {left : List (Message μ κ)} {result : Result}
    (h : Ends attempts left result) :
    (result = .ok false ↔ attempts.getLast? = some (.failed EAGAIN)) ∧
    (result = .ok true → left = []) ∧
    (∀ errno, unexpected errno → (.failed errno ∈ attempts ↔ result = .error (errno, sendFailure))) ∧
    (∀ errno text, result = .error (errno, text) → unexpected errno ∧ text = sendFailure) := by
  cases h with
  | empty hall hleft =>
    refine ⟨⟨nofun, fun hlast => ?_⟩, fun _ => hleft, fun errno herrno => ⟨fun hmem => ?_, nofun⟩, nofun⟩
    · exact absurd (hall _ (List.mem_of_getLast? hlast)) not_goesOn_eagain
    · exact absurd (hall _ hmem) (not_goesOn_of_unexpected herrno)
  | eagain earlier hall hlast =>
    subst hlast
    refine ⟨⟨fun _ => by simp, fun _ => rfl⟩, nofun, fun errno herrno => ⟨fun hmem => ?_, nofun⟩, nofun⟩
    rcases List.mem_append.1 hmem with hmem | hmem
    · exact absurd (hall _ hmem) (not_goesOn_of_unexpected herrno)
    · exact absurd (by simpa using hmem) herrno.1
  | thrown earlier errno hall herrno hlast =>
    subst hlast
    refine ⟨⟨nofun, fun hlast => ?_⟩, nofun, fun errno' herrno' => ⟨fun hmem => ?_, fun heq => ?_⟩, ?_⟩
    · exact absurd (by simpa using hlast) herrno.1
    · rcases List.mem_append.1 hmem with hmem | hmem
      · exact absurd (hall _ hmem) (not_goesOn_of_unexpected herrno')
      · simp only [List.mem_singleton, Sent.failed.injEq] at hmem
        rw [hmem]
    · simp only [Except.error.injEq, Prod.mk.injEq] at heq
      simp [heq.1]
    · intro errno' text heq
      simp only [Except.error.injEq, Prod.mk.injEq] at heq
      exact ⟨heq.1 ▸ herrno, heq.2.symm⟩

/-! ## The law -/

/-- What a call of `sendMany` that ends has done. The queue is what was sent or dropped,
in order, followed by what is left. The kernel took what was popped as sent, and for
exactly these messages the callbacks were called, in order. Only the first message of a
batch is dropped, and only since its peer died. -/
theorem sendMany_accounts_for_queue {results : List Sent} {queue : List (Message μ κ)} {report : Report μ κ}
    (h : sendMany results queue = some report) :
    queue = report.events.flatMap Event.handled ++ report.left ∧
    report.events.flatMap Event.taken = (report.events.flatMap Event.sent).map Message.header ∧
    report.events.flatMap Event.callback =
      (report.events.flatMap Event.sent).filterMap (·.sendNotificationCallback) ∧
    (∀ before message after, report.events = before ++ Event.dropped message :: after →
      ∃ earlier mmsgs errno,
        before = earlier ++ [Event.sendmmsg (message.header :: mmsgs) (.failed errno)] ∧ peerDied errno) ∧
    (report.result = .ok false ↔ (attempts report.events).getLast? = some (.failed EAGAIN)) ∧
    (report.result = .ok true → report.left = []) ∧
    (∀ errno, unexpected errno →
      (.failed errno ∈ attempts report.events ↔ report.result = .error (errno, sendFailure))) ∧
    (∀ errno text, report.result = .error (errno, text) → unexpected errno ∧ text = sendFailure) := by
  have htrace := trace_of_sendMany h
  obtain ⟨haccounts, hdrops⟩ := trace_accounts htrace
  refine ⟨haccounts.queue, haccounts.taken, haccounts.callbacks, hdrops, ?_⟩
  exact ends_report (trace_ends htrace)

/-- The first of three messages is sent, the second one's peer is dead and the third has
to wait. -/
theorem sendMany_accounts_for_three :
    let queue : List (Message Nat Nat) := [⟨1, [47], some 10⟩, ⟨2, [47], some 20⟩, ⟨3, [0, 0], some 30⟩]
    ∃ report, sendMany [.sent 1, .failed EPIPE, .failed EINTR, .failed EAGAIN] queue = some report ∧
      report.left = [⟨3, [0, 0], some 30⟩] ∧ report.result = .ok false ∧
      report.events.flatMap Event.callback = [10] := by
  intro queue
  have law := @sendMany_accounts_for_queue Nat Nat
    [.sent 1, .failed EPIPE, .failed EINTR, .failed EAGAIN] queue
  exact ⟨_, rfl, rfl, (law rfl).2.2.2.2.1.2 rfl, (law rfl).2.2.1⟩

/-! ## The main loop's view -/

/-- What the main loop's model distinguishes of a result. -/
def Sent.kind : Sent → Outbox.Sent
  | .sent count => .sent count
  | .failed errno =>
    if errno = EAGAIN then .eagain
    else if errno = EINTR then .eintr
    else if errno = EPIPE ∨ errno = ECONNREFUSED then .refused
    else .failed errno

theorem outbox_round {sent : Sent} {message : Message μ κ} {messages left : List (Message μ κ)}
    {events : List (Event μ κ)} {ended : Option Result}
    (h : round sent (message :: messages) = some (events, left, ended)) (results : List Outbox.Sent) :
    Outbox.sendMany (sent.kind :: results) (message :: messages) =
      ended.elim (Outbox.sendMany results left) fun result =>
        if results = [] then some (result.mapError Prod.fst, left) else none := by
  cases sent with
  | sent count =>
    simp only [round, popSent_eq, Option.ite_none_right_eq_some, Option.some.injEq, Prod.mk.injEq] at h
    obtain ⟨⟨-, hle⟩, -, rfl, rfl⟩ := h
    simp only [batch, List.length_map, List.length_take] at hle
    simp only [Sent.kind, Outbox.sendMany, Option.elim_none]
    rw [if_pos (by omega)]
  | failed errno =>
    simp only [round, afterFailure, Option.some.injEq, Prod.mk.injEq] at h
    obtain ⟨-, rfl, rfl⟩ := h
    by_cases hagain : errno = EAGAIN
    · simp only [Sent.kind, Outbox.sendMany, if_pos hagain, Option.elim_some]
      rfl
    by_cases hintr : errno = EINTR
    · simp only [Sent.kind, Outbox.sendMany, if_neg hagain, if_pos hintr, Option.elim_none]
    by_cases hdied : errno = EPIPE ∨ errno = ECONNREFUSED
    · simp only [Sent.kind, Outbox.sendMany, if_neg hagain, if_neg hintr, if_pos hdied, List.tail_cons,
        Option.elim_none]
    · simp only [Sent.kind, Outbox.sendMany, if_neg hagain, if_neg hintr, if_neg hdied, Option.elim_some]
      rfl

/-- `Outbox.sendMany`, which the main loop's model uses, is what remains of `sendMany` when
one forgets its events. -/
theorem outbox_sendMany {results : List Sent} {queue : List (Message μ κ)} {report : Report μ κ}
    (h : sendMany results queue = some report) :
    Outbox.sendMany (results.map Sent.kind) queue = some (report.result.mapError Prod.fst, report.left) := by
  fun_induction sendMany results queue generalizing report with
  | case1 => cases h; rfl
  | case2 => cases h
  | case3 => cases h
  | case4 => cases h
  | case5 sent message messages events left result hround =>
    cases h
    exact outbox_round hround []
  | case6 => cases h
  | case7 sent results message messages events left hround ih =>
    obtain ⟨rest, hrest, rfl⟩ := Option.map_eq_some_iff.1 h
    have hleft := ih hrest
    rw [List.map_cons, outbox_round hround]
    exact hleft

theorem outbox_sendMany_full : ∃ report, sendMany [.failed EAGAIN] [(⟨2, [], none⟩ : Message Nat Nat)] = some report ∧
    Outbox.sendMany ([.failed EAGAIN].map Sent.kind) [(⟨2, [], none⟩ : Message Nat Nat)] =
      some (report.result.mapError Prod.fst, report.left) :=
  ⟨_, rfl, outbox_sendMany rfl⟩

end DarlingServer.Sending
