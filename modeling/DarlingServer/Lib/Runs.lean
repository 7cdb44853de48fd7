import Mathlib.Logic.Basic
/-!
# Runs of a machine

A machine is a step function on labels, `step : S → L → Option S`. A guard says
which labels may be taken in which states, so "every run whose steps all meet a
condition" is `Reach` under that condition. `exec` replays a list of labels,
checking the guard on the way, and is how a concrete run is exhibited.
-/

namespace Runs

variable {S L S' L' : Type*}

/-- The states reached from `init` by steps that all meet `guard`. -/
inductive Reach (step : S → L → Option S) (guard : S → L → Prop) (init : S → Prop) : S → Prop
  | init {s} : init s → Reach step guard init s
  | step {s l s'} : Reach step guard init s → guard s l → step s l = some s' → Reach step guard init s'

variable {step : S → L → Option S} {guard guard' : S → L → Prop} {init : S → Prop}

/-- What holds at first and is kept by every guarded step holds in every state reached. -/
theorem Reach.inv (I : S → Prop) (h0 : ∀ s, init s → I s)
    (hs : ∀ s l s', I s → guard s l → step s l = some s' → I s') {s} (h : Reach step guard init s) : I s := by
  induction h with
  | init hi => exact h0 _ hi
  | step _ hg hst ih => exact hs _ _ _ ih hg hst

/-- An invariant whose step may use another one that is already known. -/
theorem Reach.inv_with (J I : S → Prop) (hJ : ∀ s, Reach step guard init s → J s) (h0 : ∀ s, init s → I s)
    (hs : ∀ s l s', J s → I s → guard s l → step s l = some s' → I s')
    {s} (h : Reach step guard init s) : I s := by
  induction h with
  | init hi => exact h0 _ hi
  | step hr hg hst ih => exact hs _ _ _ (hJ _ hr) ih hg hst

theorem Reach.mono (hg : ∀ s l, guard s l → guard' s l) {s} (h : Reach step guard init s) :
    Reach step guard' init s := by
  induction h with
  | init hi => exact .init hi
  | step _ hgs hst ih => exact .step ih (hg _ _ hgs) hst

/-- A view of the states that each step either leaves alone or moves by one
guarded step of another machine sends runs to runs. -/
theorem Reach.view {step' : S' → L' → Option S'} {guard₂ : S' → L' → Prop} {init' : S' → Prop} (v : S → S')
    (h0 : ∀ s, init s → init' (v s))
    (hs : ∀ s l s', guard s l → step s l = some s' →
      v s' = v s ∨ ∃ l', guard₂ (v s) l' ∧ step' (v s) l' = some (v s'))
    {s} (h : Reach step guard init s) : Reach step' guard₂ init' (v s) := by
  induction h with
  | init hi => exact .init (h0 _ hi)
  | step _ hg hst ih =>
    rcases hs _ _ _ hg hst with e | ⟨l', hg', hst'⟩
    · rw [e]; exact ih
    · exact .step ih hg' hst'

/-- The machine with a history `H` alongside, which each step updates. -/
def track {H : Type*} (step : S → L → Option S) (upd : S → L → S → H → H) : S × H → L → Option (S × H) :=
  fun p l => (step p.1 l).map fun s' => (s', upd p.1 l s' p.2)

theorem track_some {H : Type*} {upd : S → L → S → H → H} {p p' : S × H} {l : L}
    (h : track step upd p l = some p') : step p.1 l = some p'.1 ∧ p'.2 = upd p.1 l p'.1 p.2 := by
  obtain ⟨s', hs, rfl⟩ := Option.map_eq_some_iff.1 h
  exact ⟨hs, rfl⟩

/-- A run with a history is a run without it. -/
theorem Reach.untracked {H : Type*} {upd : S → L → S → H → H} {G : S × H → L → Prop} {init' : S × H → Prop}
    (hg : ∀ p l, G p l → guard p.1 l) (h0 : ∀ p, init' p → init p.1) {p : S × H}
    (h : Reach (track step upd) G init' p) : Reach step guard init p.1 :=
  h.view Prod.fst h0 fun p l _ hgp hst => .inr ⟨l, hg p l hgp, (track_some hst).1⟩

/-- Replay `ls` from `s`; fails at the first label that `ok` refuses or `step` does not take. -/
def exec (step : S → L → Option S) (ok : S → L → Bool) : S → List L → Option S
  | s, [] => some s
  | s, l :: ls => if ok s l then (step s l).bind (exec step ok · ls) else none

theorem exec_reach {ok : S → L → Bool} (hok : ∀ s l, ok s l = true → guard s l) {s s' : S} {ls : List L}
    (h : exec step ok s ls = some s') (hs : Reach step guard init s) : Reach step guard init s' := by
  induction ls generalizing s with
  | nil =>
    simp only [exec, Option.some.injEq] at h
    exact h ▸ hs
  | cons l ls ih =>
    simp only [exec] at h
    split at h
    · obtain ⟨t, ht, h⟩ := Option.bind_eq_some_iff.1 h
      exact ih h (.step hs (hok _ _ ‹_›) ht)
    · cases h

/-- A replay reaches a state at which every function has the value it has where the replay ends. -/
theorem exists_reach {α : Type*} {ok : S → L → Bool} (hok : ∀ s l, ok s l = true → guard s l) {s : S}
    (hs : Reach step guard init s) {f : S → α} {v : α} {ls : List L} (h : (exec step ok s ls).map f = some v) :
    ∃ s', Reach step guard init s' ∧ f s' = v := by
  obtain ⟨s', hs', hv⟩ := Option.map_eq_some_iff.1 h
  exact ⟨s', exec_reach hok hs' hs, hv⟩

end Runs
