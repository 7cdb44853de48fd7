import Mathlib.Logic.Basic
import Mathlib.Order.Basic
/-!
# Loops

A loop is its body: a turn either goes round again or leaves with a result, and a
body that does not come back itself is `none`. `run` takes as many turns as it is
given. A loop whose turns lower a measure leaves; one that keeps an invariant
under which every turn goes round again never does.
-/

namespace Loop

variable {σ β : Type*}

/-- What a turn comes to. -/
inductive Turn (σ β : Type*) where
  | again (s : σ)
  | leave (b : β)

def run (body : σ → Option (Turn σ β)) : Nat → σ → Option β
  | 0, _ => none
  | turns + 1, s =>
    match body s with
    | none => none
    | some (.again s') => run body turns s'
    | some (.leave b) => some b

variable {body : σ → Option (Turn σ β)} {s s' : σ} {b : β}

theorem run_leave (h : body s = some (.leave b)) (turns : Nat) : run body (turns + 1) s = some b := by
  simp only [run, h]

theorem run_again (h : body s = some (.again s')) (turns : Nat) :
    run body (turns + 1) s = run body turns s' := by
  simp only [run, h]

/-- Any number of turns from some number on is enough, and all give `b`. -/
def Leaves (body : σ → Option (Turn σ β)) (s : σ) (b : β) : Prop :=
  ∃ enough, ∀ turns ≥ enough, run body turns s = some b

theorem Leaves.now (h : body s = some (.leave b)) : Leaves body s b := by
  refine ⟨1, fun turns hle => ?_⟩
  obtain ⟨n, rfl⟩ := Nat.exists_eq_add_of_le' hle
  exact run_leave h n

theorem Leaves.later (h : body s = some (.again s')) (hl : Leaves body s' b) : Leaves body s b := by
  obtain ⟨enough, hl⟩ := hl
  refine ⟨enough + 1, fun turns hle => ?_⟩
  obtain ⟨n, rfl⟩ := Nat.exists_eq_add_of_le' hle
  rw [← Nat.add_assoc, run_again h]
  exact hl _ (Nat.le_add_left enough n)

/-- A loop whose turns keep `I` and lower `μ` leaves, with what `Q` asks for if a
turn hands `Q` down from the state after it. -/
theorem leaves_of_measure (body : σ → Option (Turn σ β)) (μ : σ → Nat) (I : σ → Prop) (Q : σ → β → Prop)
    (hs : ∀ s, I s → (∃ b, body s = some (.leave b) ∧ Q s b) ∨
      ∃ s', body s = some (.again s') ∧ I s' ∧ μ s' < μ s ∧ ∀ b, Q s' b → Q s b)
    (s : σ) (hi : I s) : ∃ b, Leaves body s b ∧ Q s b := by
  induction hm : μ s using Nat.strongRecOn generalizing s with
  | ind n ih =>
    obtain ⟨b, hb, hq⟩ | ⟨s', hb, hi', hlt, hq⟩ := hs s hi
    · exact ⟨b, .now hb, hq⟩
    · obtain ⟨b, hl, hb'⟩ := ih (μ s') (hm ▸ hlt) s' hi' rfl
      exact ⟨b, hl.later hb, hq b hb'⟩

/-- A loop with an invariant under which every turn goes round again never leaves. -/
theorem run_eq_none (I : σ → Prop) (hs : ∀ s, I s → ∃ s', body s = some (.again s') ∧ I s')
    (turns : Nat) (s : σ) (hi : I s) : run body turns s = none := by
  induction turns generalizing s with
  | zero => rfl
  | succ turns ih =>
    obtain ⟨s', hb, hi'⟩ := hs s hi
    rw [run_again hb]
    exact ih s' hi'

end Loop
