import Mathlib.Data.List.Perm.Basic
import DarlingServer.KqchanOpen
/-!
# The descriptors of a call

A call takes its descriptors out of its message when it is made, and closes those it
still has when it is destroyed; `processCall` takes one over by setting the field to
-1. What it opens it closes, gives to an object of the server, or puts into the reply.

Each call is run here from its message to its destruction, with the end of every
system call given. Three kinds of outcome leave a descriptor unaccounted for: a
`vchroot` that throws after the process has taken the descriptor over, a channel whose
setup fails once it has its sockets, and a listing of ports, members or messages, which
never closes the end of the pipe it writes to.
-/

namespace DarlingServer.CallDescriptors

open DarlingServer.Configuration (Caller)
open KqchanOpen

variable {φ : Type*}

/-- A message with descriptors, and what its body has for the `@fd` parameter. -/
structure Request (φ : Type*) where
  received : List φ
  nodup : received.Nodup
  index : Int

abbrev Account (φ : Type*) := Inventory (Holder Unit) φ

/-! ## The generated code -/

/-- `Message::extractDescriptorAtIndex`, with the index a `size_t`. -/
def extractDescriptorAtIndex (received : List φ) (index : Int) : Option φ × List φ :=
  if 0 ≤ index then (received[index.toNat]?, received.eraseIdx index.toNat) else (none, received)

/-- The constructor of a call with a descriptor: the field of its body, and the message
closes what is left. -/
def construct (l : Account φ) (received : List φ) (index : Int) : Option φ × Account φ :=
  let (body, rest) := extractDescriptorAtIndex received index
  (body, l.close rest)

/-- A call as it is made from a message. -/
def Request.construct (r : Request φ) : Option φ × Account φ :=
  CallDescriptors.construct (({} : Account φ).take r.received) r.received r.index

/-- The destructor. -/
def destroy (body : Option φ) (l : Account φ) : Account φ := l.close body.toList

/-- A descriptor parameter of `_sendReply`. -/
def sendReply (fd : Option φ) (l : Account φ) : Account φ :=
  match fd with
  | some fd => l.hand fd
  | none => l

/-! ## The handlers -/

/-- An object that keeps a descriptor, if there is one. -/
def keep (o : Holder Unit) (fd : Option φ) (l : Account φ) : Account φ :=
  match fd with
  | some fd => l.own o fd
  | none => l

/-- `vchroot`. `named` says that `readlink` succeeds. -/
def vchroot (caller : Caller) (named : Bool) (r : Request φ) : Account φ :=
  let (body, l) := r.construct
  match caller with
  | .process =>
    let l := keep .process body l
    -- the field is cleared only if nothing was thrown
    destroy (if named then none else body) l
  | _ => destroy body l

/-- `checkin`. The process that is made for it takes the pipe out of the message first. -/
def checkin (registered : Bool) (r : Request φ) : Account φ :=
  if registered then
    let (body, l) := r.construct
    destroy body l
  else
    let (lifetimePipe, rest) :=
      if r.index ≠ -1 then extractDescriptorAtIndex r.received r.index else (none, r.received)
    let l := keep .process lifetimePipe (({} : Account φ).take r.received)
    let (body, l) := construct l rest (-1)
    destroy body l

/-- `checkout`; nothing if `addMonitor` throws, which ends the server. -/
def checkout (caller : Caller) (getFlags setFlags addMonitor : Bool) (r : Request φ) : Option (Account φ) :=
  let (body, l) := r.construct
  match caller, body with
  | .process, some execListenerPipe =>
    if getFlags && setFlags then
      if addMonitor then some (destroy none (l.own .monitor execListenerPipe)) else none
    else some (destroy body l)
  | _, _ => some (destroy body l)

def consoleOpen (socketpair : Option (Pair φ)) (getFlags setFlags addMonitor : Bool) : Option (Account φ) :=
  match socketpair with
  | none => some (sendReply none {})
  | some sockets =>
    let l := ({} : Account φ).take [sockets.first, sockets.second]
    if getFlags && setFlags then
      if addMonitor then some (sendReply (some sockets.second) (l.own .monitor sockets.first)) else none
    else some (sendReply none (l.close [sockets.first, sockets.second]))

def kqchanOpen (caller : Caller) (call : OpenCall φ) : Account φ := (processCall caller () {} call).2.descriptors

def debugListProcesses (pipe : Option (Pair φ)) : Account φ :=
  match pipe with
  | none => sendReply none {}
  | some pipes =>
    sendReply (some pipes.first) ((({} : Account φ).take [pipes.first, pipes.second]).close [pipes.second])

/-- The listings of one process: the writing end of the pipe stays open. -/
def debugList (found : Bool) (pipe : Option (Pair φ)) : Account φ :=
  if found then
    match pipe with
    | none => sendReply none {}
    | some pipes => sendReply (some pipes.first) (({} : Account φ).take [pipes.first, pipes.second])
  else sendReply none {}

def debugListPorts (found : Bool) (pipe : Option (Pair φ)) : Account φ := debugList found pipe

def debugListMembers (found : Bool) (pipe : Option (Pair φ)) : Account φ := debugList found pipe

def debugListMessages (found : Bool) (pipe : Option (Pair φ)) : Account φ := debugList found pipe

/-- A call with the outcome of everything it does. -/
inductive FdCall (φ : Type*) where
  | vchroot (caller : Caller) (named : Bool) (r : Request φ)
  | checkin (registered : Bool) (r : Request φ)
  | checkout (caller : Caller) (getFlags setFlags addMonitor : Bool) (r : Request φ)
  | consoleOpen (socketpair : Option (Pair φ)) (getFlags setFlags addMonitor : Bool)
  | kqchanOpen (caller : Caller) (call : OpenCall φ)
  | debugListProcesses (pipe : Option (Pair φ))
  | debugListPorts (found : Bool) (pipe : Option (Pair φ))
  | debugListMembers (found : Bool) (pipe : Option (Pair φ))
  | debugListMessages (found : Bool) (pipe : Option (Pair φ))

/-- The descriptors once the reply is sent and the call destroyed. -/
def FdCall.run : FdCall φ → Option (Account φ)
  | .vchroot caller named r => some (CallDescriptors.vchroot caller named r)
  | .checkin registered r => some (CallDescriptors.checkin registered r)
  | .checkout caller getFlags setFlags addMonitor r =>
    CallDescriptors.checkout caller getFlags setFlags addMonitor r
  | .consoleOpen socketpair getFlags setFlags addMonitor =>
    CallDescriptors.consoleOpen socketpair getFlags setFlags addMonitor
  | .kqchanOpen caller call => some (CallDescriptors.kqchanOpen caller call)
  | .debugListProcesses pipe => some (CallDescriptors.debugListProcesses pipe)
  | .debugListPorts found pipe => some (CallDescriptors.debugListPorts found pipe)
  | .debugListMembers found pipe => some (CallDescriptors.debugListMembers found pipe)
  | .debugListMessages found pipe => some (CallDescriptors.debugListMessages found pipe)

/-- When a call accounts for its descriptors. -/
def FdCall.Clean : FdCall φ → Prop
  | .vchroot caller named r =>
    caller = .process → named = true ∨ r.construct.1 = none
  | .checkin _ _ | .checkout .. | .consoleOpen .. | .debugListProcesses _ => True
  | .kqchanOpen caller call => caller = .process → call.Succeeds ∨ call.sockets = []
  | .debugListPorts found pipe | .debugListMembers found pipe | .debugListMessages found pipe =>
    found = false ∨ pipe = none

/-! ## Accounts -/

theorem ends_keep (o : Holder Unit) (fd : Option φ) (l : Account φ) :
    (keep o fd l).ends.Perm (fd.toList ++ l.ends) := by
  cases fd with
  | none => exact .refl _
  | some fd => exact l.ends_own o fd

theorem taken_keep (o : Holder Unit) (fd : Option φ) (l : Account φ) : (keep o fd l).taken = l.taken := by
  cases fd <;> rfl

theorem ends_destroy (body : Option φ) (l : Account φ) : (destroy body l).ends.Perm (body.toList ++ l.ends) :=
  l.ends_close _

/-- What is extracted and what stays in the message is what was received. -/
theorem extract_perm (received : List φ) (index : Int) :
    ((extractDescriptorAtIndex received index).1.toList ++ (extractDescriptorAtIndex received index).2).Perm received := by
  unfold extractDescriptorAtIndex
  split
  · by_cases hlt : index.toNat < received.length
    · simp only [List.getElem?_eq_getElem hlt, Option.toList_some, List.singleton_append]
      exact List.getElem_cons_eraseIdx_perm hlt
    · have hge : received.length ≤ index.toNat := by omega
      simp [List.getElem?_eq_none hge, List.eraseIdx_of_length_le hge]
  · simp

theorem construct_perm (r : Request φ) : (r.construct.1.toList ++ r.construct.2.ends).Perm r.received := by
  refine List.Perm.trans ?_ (extract_perm r.received r.index)
  have hclose := (({} : Account φ).take r.received).ends_close (extractDescriptorAtIndex r.received r.index).2
  rw [Inventory.ends_take, Inventory.ends_empty, List.append_nil] at hclose
  exact hclose.append_left _

section

variable [DecidableEq φ]

/-- The descriptor of the body goes to one place. -/
theorem settled_of_construct {r : Request φ} {l : Account φ} (htaken : l.taken = r.received)
    (h : l.ends.Perm (r.construct.1.toList ++ r.construct.2.ends)) : l.Settled := by
  apply Inventory.settled_of_perm
  · rw [htaken]
    exact r.nodup
  · rw [htaken]
    exact h.trans (construct_perm r)

theorem vchroot_settled_iff (caller : Caller) (named : Bool) (r : Request φ) :
    (vchroot caller named r).Settled ↔ (FdCall.vchroot caller named r).Clean := by
  by_cases hcaller : caller = .process
  · subst hcaller
    have htaken : (vchroot .process named r).taken = r.received := by
      simp only [vchroot, destroy, Inventory.taken_close, taken_keep]
      rfl
    simp only [FdCall.Clean, true_implies]
    cases named with
    | true =>
      refine iff_of_true (settled_of_construct htaken ?_) (.inl rfl)
      exact (ends_destroy none _).trans (ends_keep ..)
    | false =>
      have hends : (vchroot .process false r).ends.Perm
          (r.construct.1.toList ++ (r.construct.1.toList ++ r.construct.2.ends)) :=
        (ends_destroy r.construct.1 _).trans ((ends_keep ..).append_left _)
      cases hbody : r.construct.1 with
      | none =>
        refine iff_of_true (settled_of_construct htaken ?_) (.inr rfl)
        simpa [hbody] using hends
      | some fd =>
        -- the process keeps the descriptor that the call closes
        refine iff_of_false (Inventory.not_settled (r := fd) ?_ hends ?_) (by simp)
        · rw [htaken, ← (construct_perm r).mem_iff]
          simp [hbody]
        · simp [hbody]
  · have hrun : vchroot caller named r = destroy r.construct.1 r.construct.2 := by
      cases caller with
      | process => exact absurd rfl hcaller
      | noThread => rfl
      | noProcess => rfl
    refine iff_of_true ?_ (fun h => absurd h hcaller)
    rw [hrun]
    exact settled_of_construct rfl (ends_destroy ..)

theorem checkin_settled (registered : Bool) (r : Request φ) : (checkin registered r).Settled := by
  cases registered with
  | true => exact settled_of_construct rfl (ends_destroy ..)
  | false =>
    -- the process takes what the call would have taken, and the call finds nothing
    have hextract : (if r.index ≠ -1 then extractDescriptorAtIndex r.received r.index else (none, r.received)) =
        extractDescriptorAtIndex r.received r.index := by
      split
      · rfl
      next h =>
        rw [not_not.1 h]
        rfl
    have hrun : checkin false r = destroy none ((keep .process (extractDescriptorAtIndex r.received r.index).1
        (({} : Account φ).take r.received)).close (extractDescriptorAtIndex r.received r.index).2) := by
      simp only [checkin, Bool.false_eq_true, if_false, hextract]
      rfl
    rw [hrun]
    apply Inventory.settled_of_perm
    · simpa [destroy, taken_keep] using r.nodup
    · have hends := (ends_destroy none _).trans (Inventory.ends_close (keep .process
        (extractDescriptorAtIndex r.received r.index).1 (({} : Account φ).take r.received))
        (extractDescriptorAtIndex r.received r.index).2)
      refine hends.trans ?_
      refine ((ends_keep ..).append_left _).trans ?_
      simp only [destroy, Inventory.taken_close, taken_keep, Inventory.taken_take, Inventory.ends_take,
        Inventory.ends_empty,
        List.append_nil]
      exact List.perm_append_comm.trans (extract_perm r.received r.index)

theorem checkout_settled {caller : Caller} {getFlags setFlags addMonitor : Bool} {r : Request φ} {l : Account φ}
    (h : checkout caller getFlags setFlags addMonitor r = some l) : l.Settled := by
  simp only [checkout] at h
  split at h
  next hbody =>
    split at h
    · split at h
      · cases h
        refine settled_of_construct rfl ((ends_destroy none _).trans ?_)
        rw [hbody]
        exact Inventory.ends_own ..
      · cases h
    · cases h
      exact settled_of_construct rfl (ends_destroy ..)
  · cases h
    exact settled_of_construct rfl (ends_destroy ..)

/-- Both ends of a pair have gone somewhere. -/
theorem settled_of_pair {pair : Pair φ} {l : Account φ} (htaken : l.taken = [pair.first, pair.second])
    (h : l.ends.Perm [pair.first, pair.second]) : l.Settled := by
  apply Inventory.settled_of_perm
  · simp [htaken, pair.ne]
  · rw [htaken]
    exact h

/-- One end of a pair has gone nowhere. -/
theorem not_settled_of_pair {pair : Pair φ} {l : Account φ} (htaken : l.taken = [pair.first, pair.second])
    (h : l.ends = [pair.first]) : ¬ l.Settled := by
  refine Inventory.not_settled (r := pair.second) (by simp [htaken]) (.refl _) ?_
  simp [h, pair.ne]

theorem settled_of_none {l : Account φ} (htaken : l.taken = []) : l.Settled := by
  intro fd hfd
  rw [htaken] at hfd
  cases hfd

theorem consoleOpen_settled {socketpair : Option (Pair φ)} {getFlags setFlags addMonitor : Bool} {l : Account φ}
    (h : consoleOpen socketpair getFlags setFlags addMonitor = some l) : l.Settled := by
  cases socketpair with
  | none =>
    cases h
    exact settled_of_none rfl
  | some sockets =>
    simp only [consoleOpen] at h
    split at h
    · split at h
      · cases h
        exact settled_of_pair rfl (.refl _)
      · cases h
    · cases h
      exact settled_of_pair rfl (.refl _)

theorem debugListProcesses_settled (pipe : Option (Pair φ)) : (debugListProcesses pipe).Settled := by
  cases pipe with
  | none => exact settled_of_none rfl
  | some pipes => exact settled_of_pair rfl (List.Perm.swap ..)

theorem debugList_settled_iff (found : Bool) (pipe : Option (Pair φ)) :
    (debugList found pipe).Settled ↔ found = false ∨ pipe = none := by
  cases found with
  | false => exact iff_of_true (settled_of_none rfl) (.inl rfl)
  | true =>
    cases pipe with
    | none => exact iff_of_true (settled_of_none rfl) (.inr rfl)
    | some pipes => exact iff_of_false (not_settled_of_pair rfl rfl) (by simp)

theorem kqchanOpen_settled_iff (caller : Caller) (call : OpenCall φ) :
    (kqchanOpen caller call).Settled ↔ (FdCall.kqchanOpen caller call).Clean := by
  by_cases hcaller : caller = .process
  · subst hcaller
    simp only [FdCall.Clean, true_implies]
    have hconnects := call.setup_connects () ({} : Server Unit φ)
    by_cases hcall : call.Succeeds
    · refine iff_of_true ?_ (.inl hcall)
      obtain ⟨fd, hfd, -, hhand⟩ := processCall_succeeds (k := ()) (w := ({} : Server Unit φ)) hcall
      rcases hconnects with ⟨-, -, hthrows⟩ | ⟨pair, -, hkeeps, hgives⟩
      · exact absurd hfd (hthrows fd)
      · obtain rfl := hgives fd hfd
        rw [kqchanOpen, hhand, hkeeps]
        exact settled_of_pair rfl (.refl _)
    · have hleft := (processCall_failed (k := ()) (w := ({} : Server Unit φ)) hcall).2.2.2.2
      rw [kqchanOpen, hleft]
      rcases hconnects with ⟨hmade, hkeeps, -⟩ | ⟨pair, hmade, hkeeps, -⟩
      · rw [hkeeps]
        exact iff_of_true (settled_of_none rfl) (.inr hmade)
      · rw [hkeeps]
        exact iff_of_false (not_settled_of_pair rfl rfl) (by simp [hcall, hmade])
  · refine iff_of_true ?_ (fun h => absurd h hcaller)
    cases caller with
    | process => exact absurd rfl hcaller
    | noThread => exact settled_of_none rfl
    | noProcess => exact settled_of_none rfl

theorem settled_some {l : Account φ} : (∀ l', some l = some l' → l'.Settled) ↔ l.Settled := by
  simp

/-- A call accounts for every descriptor exactly if it is clean. -/
theorem call_settled_iff (call : FdCall φ) : (∀ l, call.run = some l → l.Settled) ↔ call.Clean := by
  cases call with
  | vchroot caller named r => exact settled_some.trans (vchroot_settled_iff caller named r)
  | checkin registered r => exact settled_some.trans (iff_of_true (checkin_settled registered r) trivial)
  | checkout caller getFlags setFlags addMonitor r => exact iff_of_true (fun _ h => checkout_settled h) trivial
  | consoleOpen socketpair getFlags setFlags addMonitor =>
    exact iff_of_true (fun _ h => consoleOpen_settled h) trivial
  | kqchanOpen caller call => exact settled_some.trans (kqchanOpen_settled_iff caller call)
  | debugListProcesses pipe => exact settled_some.trans (iff_of_true (debugListProcesses_settled pipe) trivial)
  | debugListPorts found pipe => exact settled_some.trans (debugList_settled_iff found pipe)
  | debugListMembers found pipe => exact settled_some.trans (debugList_settled_iff found pipe)
  | debugListMessages found pipe => exact settled_some.trans (debugList_settled_iff found pipe)

/-- A directory without a path is kept and closed, a channel's second socket is lost, and so is the end of
a pipe that a listing writes to. -/
theorem call_not_settled :
    ¬ (∀ l, (FdCall.vchroot .process false ⟨[3], by decide, 0⟩ : FdCall Nat).run = some l → l.Settled) ∧
    ¬ (∀ l, (FdCall.kqchanOpen .process (.kqchanProcOpen
      { socketpair := .ok ⟨3, 4, by decide⟩, addMonitor := some ⟨28, by decide⟩ }) : FdCall Nat).run = some l →
      l.Settled) ∧
    ¬ (∀ l, (FdCall.debugListPorts true (some ⟨3, 4, by decide⟩) : FdCall Nat).run = some l → l.Settled) := by
  refine ⟨fun h => ?_, fun h => ?_, fun h => ?_⟩
  · have hcount := h _ rfl 3 (by decide)
    revert hcount
    decide
  · have hcount := h _ rfl 4 (by decide)
    revert hcount
    decide
  · have hcount := h _ rfl 4 (by decide)
    revert hcount
    decide

end

end DarlingServer.CallDescriptors
