import DarlingServer.Lib.Runs
import Mathlib.Logic.Function.Basic
import Mathlib.Algebra.Group.Int.Defs
import Mathlib.Algebra.Group.Nat.Defs
/-!
# Registries

A registry finds its entries under three keys: the ID, the ID in the container's
namespace, and an eternal ID that it hands out itself. Each operation is one
section under the registry's lock. An entry's own IDs never change, so they are
given by `Keys`; its eternal ID is a field the registry writes, kept here in
`eternalID`.
-/

namespace DarlingServer

open Runs

structure Keys (ε α β : Type*) where
  id : ε → α
  nsid : ε → β

/-- `EternalIDInvalid`, the eternal ID of an entry that was never registered. -/
def eternalIDInvalid : Nat := 2 ^ 64 - 1

structure Registry (ε α β : Type*) where
  map : α → Option ε := fun _ => none
  nsmap : β → Option ε := fun _ => none
  emap : Nat → Option ε := fun _ => none
  eternalID : ε → Nat := fun _ => eternalIDInvalid
  eternalCounter : Nat := 0

namespace Registry

variable {ε α β : Type*} [DecidableEq ε] [DecidableEq α] [DecidableEq β]

/-! ## The operations -/

/-- The end of both ways to register, with the counter's wrap-around. -/
def enter (K : Keys ε α β) (r : Registry ε α β) (entry : ε) : Registry ε α β where
  map := Function.update r.map (K.id entry) (some entry)
  nsmap := Function.update r.nsmap (K.nsid entry) (some entry)
  emap := Function.update r.emap r.eternalCounter (some entry)
  eternalID := Function.update r.eternalID entry r.eternalCounter
  eternalCounter := (r.eternalCounter + 1) % 2 ^ 64

def registerIfAbsent (K : Keys ε α β) (r : Registry ε α β) (nsid : β) (entryFactory : Option ε) :
    Registry ε α β × Option ε :=
  match r.nsmap nsid with
  | some entry => (r, some entry)
  | none =>
    match entryFactory with
    | none => (r, none)
    | some entry => (r.enter K entry, some entry)

def registerEntry (K : Keys ε α β) (r : Registry ε α β) (entry : ε) (replace : Bool) : Registry ε α β × Bool :=
  if !replace && ((r.map (K.id entry)).isSome || (r.nsmap (K.nsid entry)).isSome) then (r, false)
  else (r.enter K entry, true)

def erase (r : Registry ε α β) (id : α) (nsid : β) (eid : Nat) : Registry ε α β :=
  { r with
    map := Function.update r.map id none
    nsmap := Function.update r.nsmap nsid none
    emap := Function.update r.emap eid none }

/-- The three ways to unregister by a key: whatever stands under the other two keys of the entry goes too. -/
def eraseFound (r : Registry ε α β) (id : α) (nsid : β) (eid : Nat) : Registry ε α β × Bool :=
  if (r.map id).isSome && (r.nsmap nsid).isSome && (r.emap eid).isSome then (r.erase id nsid eid, true)
  else (r, false)

def unregisterEntryByID (K : Keys ε α β) (r : Registry ε α β) (id : α) : Registry ε α β × Bool :=
  match r.map id with
  | none => (r, false)
  | some entry => r.eraseFound id (K.nsid entry) (r.eternalID entry)

def unregisterEntryByNSID (K : Keys ε α β) (r : Registry ε α β) (nsid : β) : Registry ε α β × Bool :=
  match r.nsmap nsid with
  | none => (r, false)
  | some entry => r.eraseFound (K.id entry) nsid (r.eternalID entry)

def unregistryEntryByEternalID (K : Keys ε α β) (r : Registry ε α β) (eid : Nat) : Registry ε α β × Bool :=
  match r.emap eid with
  | none => (r, false)
  | some entry => r.eraseFound (K.id entry) (K.nsid entry) eid

/-- Compares the entries, not only their keys. -/
def unregisterEntry (K : Keys ε α β) (r : Registry ε α β) (entry : ε) : Registry ε α β × Bool :=
  if r.map (K.id entry) = some entry ∧ r.nsmap (K.nsid entry) = some entry ∧
      r.emap (r.eternalID entry) = some entry then
    (r.erase (K.id entry) (K.nsid entry) (r.eternalID entry), true)
  else (r, false)

/-! ## Sequences of operations -/

inductive Op (ε α β : Type*) where
  | registerIfAbsent (nsid : β) (entryFactory : Option ε)
  | registerEntry (entry : ε) (replace : Bool)
  | unregisterEntryByID (id : α)
  | unregisterEntryByNSID (nsid : β)
  | unregistryEntryByEternalID (eid : Nat)
  | unregisterEntry (entry : ε)

/-- The registry after an operation, and whether it unregistered an entry. -/
def perform (K : Keys ε α β) (r : Registry ε α β) : Op ε α β → Registry ε α β × Bool
  | .registerIfAbsent nsid entryFactory => ((r.registerIfAbsent K nsid entryFactory).1, false)
  | .registerEntry entry replace => ((r.registerEntry K entry replace).1, false)
  | .unregisterEntryByID id => r.unregisterEntryByID K id
  | .unregisterEntryByNSID nsid => r.unregisterEntryByNSID K nsid
  | .unregistryEntryByEternalID eid => r.unregistryEntryByEternalID K eid
  | .unregisterEntry entry => r.unregisterEntry K entry

def step (K : Keys ε α β) (r : Registry ε α β) (op : Op ε α β) : Option (Registry ε α β) := some (r.perform K op).1

/-- The entry an operation registers, if it comes to that. -/
def registers (K : Keys ε α β) (r : Registry ε α β) : Op ε α β → Option ε
  | .registerIfAbsent nsid entryFactory => if (r.nsmap nsid).isSome then none else entryFactory
  | .registerEntry entry replace => if (r.registerEntry K entry replace).2 then some entry else none
  | _ => none

/-- The entry an operation finds to unregister. -/
def finds (r : Registry ε α β) : Op ε α β → Option ε
  | .unregisterEntryByID id => r.map id
  | .unregisterEntryByNSID nsid => r.nsmap nsid
  | .unregistryEntryByEternalID eid => r.emap eid
  | .unregisterEntry entry => some entry
  | _ => none

/-- The entries registered and not yet unregistered or replaced. -/
def note (K : Keys ε α β) (r : Registry ε α β) (op : Op ε α β) (_ : Registry ε α β) (current : ε → Bool) : ε → Bool :=
  match r.registers K op with
  | some e => fun x => x = e || (current x && r.map (K.id e) ≠ some x && r.nsmap (K.nsid e) ≠ some x)
  | none => fun x => current x && !((r.perform K op).2 && r.finds op = some x)

/-- Found under some eternal ID. -/
def Listed (r : Registry ε α β) (e : ε) : Prop := ∃ k, r.emap k = some e

/-- The three maps agree, and what was registered can be unregistered. -/
structure Consistent (K : Keys ε α β) (r : Registry ε α β) (current : ε → Bool) : Prop where
  listed : ∀ e, r.Listed e ↔ r.map (K.id e) = some e ∧ r.nsmap (K.nsid e) = some e
  distinct : ∀ e f, r.Listed e → r.Listed f → r.eternalID e = r.eternalID f → e = f
  unregisters : ∀ e, current e = true → (r.unregisterEntry K e).2 = true ∧
    (∀ i, (r.unregisterEntry K e).1.map i ≠ some e) ∧ (∀ n, (r.unregisterEntry K e).1.nsmap n ≠ some e) ∧
    ¬(r.unregisterEntry K e).1.Listed e

/-- No entry is registered under an ID, a namespace ID or an eternal ID that is in use. -/
def unused (K : Keys ε α β) (r : Registry ε α β) (op : Op ε α β) : Bool :=
  match r.registers K op with
  | some e => (r.map (K.id e)).isNone && (r.nsmap (K.nsid e)).isNone && (r.emap r.eternalCounter).isNone
  | none => true

/-! ## The invariant -/

/-- An entry is under all of its keys or under none, and under no other key. -/
structure Agreed (K : Keys ε α β) (r : Registry ε α β) : Prop where
  map : ∀ i e, r.map i = some e ↔ K.id e = i ∧ r.emap (r.eternalID e) = some e
  nsmap : ∀ n e, r.nsmap n = some e ↔ K.nsid e = n ∧ r.emap (r.eternalID e) = some e
  emap : ∀ k e, r.emap k = some e → r.eternalID e = k

variable {K : Keys ε α β} {r : Registry ε α β} {e : ε}

theorem Agreed.enter (ha : r.Agreed K) (hi : r.map (K.id e) = none) (hn : r.nsmap (K.nsid e) = none)
    (hk : r.emap r.eternalCounter = none) : (r.enter K e).Agreed K := by
  have hout : r.emap (r.eternalID e) ≠ some e := fun h => by
    have := (ha.map (K.id e) e).2 ⟨rfl, h⟩
    simp [hi] at this
  have hin (x : ε) : (r.enter K e).emap ((r.enter K e).eternalID x) = some x ↔
      x = e ∨ r.emap (r.eternalID x) = some x := by
    by_cases hx : x = e
    · subst hx; simp [Registry.enter]
    · have hne : r.emap (r.eternalID x) = some x → r.eternalID x ≠ r.eternalCounter :=
        fun h hk' => by simp [← hk', h] at hk
      simp only [Registry.enter, Function.update_of_ne hx, Function.update_apply, hx, false_or]
      split
      · have := hne
        simp_all [eq_comm]
      · rfl
  refine ⟨fun i x => ?_, fun n x => ?_, fun k x hx => ?_⟩
  · rw [hin]
    simp only [Registry.enter, Function.update_apply]
    have hx := ha.map i x
    split <;> grind -linarith
  · rw [hin]
    simp only [Registry.enter, Function.update_apply]
    have hx := ha.nsmap n x
    split <;> grind -linarith
  · simp only [Registry.enter, Function.update_apply] at hx ⊢
    have hk' := ha.emap k x
    split at hx <;> grind -linarith

omit [DecidableEq ε] in
theorem Agreed.erase (ha : r.Agreed K) (he : r.emap (r.eternalID e) = some e) :
    (r.erase (K.id e) (K.nsid e) (r.eternalID e)).Agreed K := by
  have hin (x : ε) : (r.erase (K.id e) (K.nsid e) (r.eternalID e)).emap (r.eternalID x) = some x ↔
      x ≠ e ∧ r.emap (r.eternalID x) = some x := by
    simp only [Registry.erase, Function.update_apply]
    split <;> grind -linarith
  refine ⟨fun i x => ?_, fun n x => ?_, fun k x hx => ?_⟩
  · refine Iff.trans ?_ (and_congr_right fun _ => (hin x).symm)
    simp only [Registry.erase, Function.update_apply]
    have hx := ha.map i x
    have hmap := (ha.map _ e).2 ⟨rfl, he⟩
    split <;> grind -linarith
  · refine Iff.trans ?_ (and_congr_right fun _ => (hin x).symm)
    simp only [Registry.erase, Function.update_apply]
    have hx := ha.nsmap n x
    have hmap := (ha.nsmap _ e).2 ⟨rfl, he⟩
    split <;> grind -linarith
  · simp only [Registry.erase, Function.update_apply] at hx
    split at hx
    · cases hx
    · exact ha.emap k x hx

/-- What an operation does to maps that agree. -/
inductive Performed (K : Keys ε α β) (r : Registry ε α β) (op : Op ε α β) : Registry ε α β × Bool → Prop
  | registered {x} : r.registers K op = some x → Performed K r op (r.enter K x, false)
  | unchanged : r.registers K op = none → Performed K r op (r, false)
  | unregistered {x} : r.registers K op = none → r.finds op = some x → r.emap (r.eternalID x) = some x →
      Performed K r op (r.erase (K.id x) (K.nsid x) (r.eternalID x), true)

omit [DecidableEq ε] in
theorem Agreed.eraseFound (ha : r.Agreed K) (he : r.emap (r.eternalID e) = some e) :
    r.eraseFound (K.id e) (K.nsid e) (r.eternalID e) = (r.erase (K.id e) (K.nsid e) (r.eternalID e), true) := by
  simp [Registry.eraseFound, (ha.map (K.id e) e).2 ⟨rfl, he⟩, (ha.nsmap (K.nsid e) e).2 ⟨rfl, he⟩, he]

theorem performed (ha : r.Agreed K) (op : Op ε α β) : Performed K r op (r.perform K op) := by
  cases op with
  | registerIfAbsent nsid entryFactory =>
    simp only [perform, registerIfAbsent]
    split
    · exact .unchanged (by simp [registers, *])
    · split
      · exact .unchanged (by simp [registers])
      · exact .registered (by simp [registers, *])
  | registerEntry entry replace =>
    by_cases h : (!replace && ((r.map (K.id entry)).isSome || (r.nsmap (K.nsid entry)).isSome)) = true
    · have hr : r.registerEntry K entry replace = (r, false) := if_pos h
      rw [perform, hr]
      exact .unchanged (by simp [registers, hr])
    · have hr : r.registerEntry K entry replace = (r.enter K entry, true) := if_neg h
      rw [perform, hr]
      exact .registered (by simp [registers, hr])
  | unregisterEntryByID id =>
    simp only [perform, unregisterEntryByID]
    split
    · exact .unchanged rfl
    · obtain ⟨rfl, he⟩ := (ha.map id _).1 ‹_›
      rw [ha.eraseFound he]
      exact .unregistered rfl ‹_› he
  | unregisterEntryByNSID nsid =>
    simp only [perform, unregisterEntryByNSID]
    split
    · exact .unchanged rfl
    · obtain ⟨rfl, he⟩ := (ha.nsmap nsid _).1 ‹_›
      rw [ha.eraseFound he]
      exact .unregistered rfl ‹_› he
  | unregistryEntryByEternalID eid =>
    simp only [perform, unregistryEntryByEternalID]
    split
    · exact .unchanged rfl
    · rename_i e he
      obtain rfl := ha.emap eid e he
      rw [ha.eraseFound he]
      exact .unregistered rfl he he
  | unregisterEntry entry =>
    simp only [perform, unregisterEntry]
    split
    · rename_i h
      exact .unregistered rfl rfl h.2.2
    · exact .unchanged rfl

/-- What is registered now is listed. -/
theorem current_step {current : ε → Bool} (ha : r.Agreed K) (op : Op ε α β) (hu : r.unused K op = true)
    (hc : ∀ e, current e = true → r.emap (r.eternalID e) = some e) :
    (r.perform K op).1.Agreed K ∧
      ∀ e, r.note K op (r.perform K op).1 current e = true →
        (r.perform K op).1.emap ((r.perform K op).1.eternalID e) = some e := by
  have hp := performed ha op
  generalize hq : r.perform K op = q at hp
  cases hp with
  | @registered e hr =>
    simp only [unused, hr, Bool.and_eq_true, Option.isNone_iff_eq_none] at hu
    obtain ⟨⟨hi, hn⟩, hk⟩ := hu
    refine ⟨ha.enter hi hn hk, fun x hx => ?_⟩
    simp only [note, hr, Bool.or_eq_true, Bool.and_eq_true, decide_eq_true_eq] at hx
    simp only [Registry.enter, Function.update_apply]
    rcases hx with rfl | ⟨⟨hx, -⟩, -⟩
    · simp
    · have hx := hc x hx
      have hne : x ≠ e := fun h => by
        subst h
        have := (ha.map _ x).2 ⟨rfl, hx⟩
        simp [hi] at this
      have hke : r.eternalID x ≠ r.eternalCounter := fun h => by simp [← h, hx] at hk
      simp [hne, hke, hx]
  | unchanged hr =>
    refine ⟨ha, fun x hx => hc x ?_⟩
    simp only [note, hr, hq, Bool.and_eq_true] at hx
    exact hx.1
  | @unregistered e hr hf he =>
    refine ⟨ha.erase he, fun x hx => ?_⟩
    simp only [note, hr, hq, hf, Bool.true_and, Bool.and_eq_true, Bool.not_eq_true', decide_eq_false_iff_not,
      Option.some.injEq] at hx
    have hx' := hc x hx.1
    have hke : r.eternalID x ≠ r.eternalID e := fun h => by
      rw [h, he] at hx'
      exact hx.2 (Option.some.inj hx')
    simpa [Registry.erase, Function.update_of_ne hke] using hx'

omit [DecidableEq ε] [DecidableEq α] [DecidableEq β] in
theorem Agreed.listed (ha : r.Agreed K) : r.Listed e ↔ r.emap (r.eternalID e) = some e :=
  ⟨fun ⟨k, hk⟩ => by rw [ha.emap k e hk]; exact hk, fun h => ⟨_, h⟩⟩

theorem Agreed.consistent {current : ε → Bool} (ha : r.Agreed K)
    (hc : ∀ e, current e = true → r.emap (r.eternalID e) = some e) : r.Consistent K current := by
  refine ⟨fun e => ?_, fun e f he hf hk => ?_, fun e hx => ?_⟩
  · rw [ha.listed, ha.map, ha.nsmap]
    simp
  · rw [ha.listed] at he hf
    rw [hk, hf] at he
    exact (Option.some.inj he).symm
  · have he := hc e hx
    have hu : r.unregisterEntry K e = (r.erase (K.id e) (K.nsid e) (r.eternalID e), true) :=
      if_pos ⟨(ha.map _ e).2 ⟨rfl, he⟩, (ha.nsmap _ e).2 ⟨rfl, he⟩, he⟩
    rw [hu]
    have ha' := ha.erase he
    have hout : (r.erase (K.id e) (K.nsid e) (r.eternalID e)).emap (r.eternalID e) ≠ some e := by
      simp [Registry.erase]
    refine ⟨rfl, fun i hi => hout ((ha'.map i e).1 hi).2, fun n hn => hout ((ha'.nsmap n e).1 hn).2, ?_⟩
    exact fun hl => hout (ha'.listed.1 hl)

/-- In every sequence of operations that never registers an entry under a key in use, the maps stay consistent. -/
theorem registry_consistent {p : Registry ε α β × (ε → Bool)}
    (h : Reach (track (step K) (note K)) (fun p op => p.1.unused K op = true)
      (fun p => p.1 = {} ∧ p.2 = fun _ => false) p) : p.1.Consistent K p.2 := by
  have hi : p.1.Agreed K ∧ ∀ e, p.2 e = true → p.1.emap (p.1.eternalID e) = some e := by
    refine h.inv (fun p => p.1.Agreed K ∧ ∀ e, p.2 e = true → p.1.emap (p.1.eternalID e) = some e) ?_ ?_
    · rintro ⟨r, c⟩ ⟨rfl, rfl⟩
      exact ⟨⟨by simp, by simp, by simp⟩, by simp⟩
    · rintro ⟨r, c⟩ op ⟨r', c'⟩ ⟨ha, hc⟩ hu hst
      obtain ⟨hr, hn⟩ := track_some hst
      cases hr
      exact hn ▸ current_step ha op hu hc
  exact hi.1.consistent hi.2

/-- Threads as the registry knows them, by ID and namespace ID. A kernel thread
has ID -1 and takes its namespace ID from a counter that starts at 2^22. -/
def threadKeys : Keys (Int × Nat) Int Nat := ⟨Prod.fst, Prod.snd⟩

def kernelThread (n : Nat) : Int × Nat := (-1, 2 ^ 22 + n)

theorem registry_consistent_threads : ∃ p : Registry (Int × Nat) Int Nat × (Int × Nat → Bool),
    exec (track (step threadKeys) (note threadKeys)) (fun p op => p.1.unused threadKeys op) ({}, fun _ => false)
      [.registerIfAbsent 7 (some (100, 7)), .registerEntry (kernelThread 0) true, .registerEntry (200, 7) false,
        .registerIfAbsent 8 (some (101, 8)), .unregisterEntryByNSID 7] = some p ∧
    p.2 (101, 8) = true ∧ p.1.nsmap 7 = none ∧ p.1.Consistent threadKeys p.2 := by
  have hrun : (exec (track (step threadKeys) (note threadKeys)) (fun p op => p.1.unused threadKeys op)
      ({}, fun _ => false) [.registerIfAbsent 7 (some (100, 7)), .registerEntry (kernelThread 0) true,
        .registerEntry (200, 7) false, .registerIfAbsent 8 (some (101, 8)), .unregisterEntryByNSID 7]).map
      (fun p => (p.2 (101, 8), p.1.nsmap 7)) = some (true, none) := by decide
  obtain ⟨p, hp, hs⟩ := Option.map_eq_some_iff.1 hrun
  simp only [Prod.mk.injEq] at hs
  exact ⟨p, hp, hs.1, hs.2, registry_consistent (exec_reach (fun _ _ hg => hg) hp (.init ⟨rfl, rfl⟩))⟩

/-- The second kernel thread takes the first one's place in the ID map, and only there. -/
theorem kernel_threads_inconsistent :
    ¬ ∀ p : Registry (Int × Nat) Int Nat × (Int × Nat → Bool),
      Reach (track (step threadKeys) (note threadKeys)) (fun _ _ => True) (fun p => p.1 = {} ∧ p.2 = fun _ => false) p →
      p.1.Consistent threadKeys p.2 := by
  intro h
  have hrun : (exec (track (step threadKeys) (note threadKeys)) (fun _ _ => true) ({}, fun _ => false)
      [.registerEntry (kernelThread 0) true, .registerEntry (kernelThread 1) true]).map
      (fun p => (p.1.emap 0, p.1.map (-1))) = some (some (kernelThread 0), some (kernelThread 1)) := by decide
  obtain ⟨p, hp, hs⟩ := Option.map_eq_some_iff.1 hrun
  simp only [Prod.mk.injEq] at hs
  have hl := ((h p (exec_reach (fun _ _ _ => trivial) hp (.init ⟨rfl, rfl⟩))).listed (kernelThread 0)).1 ⟨0, hs.1⟩
  have := hs.2.symm.trans hl.1
  exact absurd this (by decide)

end Registry

end DarlingServer
