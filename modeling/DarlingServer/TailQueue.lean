import Mathlib.Data.List.Nodup
import Mathlib.Logic.Function.Basic
/-!
# Tail queues

The queues of mutexes and condition variables are `TAILQ`s, here link by link: a
thread has one `mutex_link` for all of them, and nothing but its caller keeps it
from being inserted twice. As long as that does not happen the queues are lists
that share no element.
-/

namespace DarlingServer

/-- The queue of a mutex or of a condition variable. -/
inductive WaitQueue (σ : Type*) where
  | mutex (m : σ)
  | condvar (c : σ)
  deriving DecidableEq

/-- Where a pointer to a link is kept: `tqh_first` of a queue or `tqe_next` of a link. -/
inductive Slot (ι σ : Type*) where
  | first (q : WaitQueue σ)
  | next (link : ι)
  deriving DecidableEq

/-- The memory of all queues. The link of a thread is its one `mutex_link`. -/
structure Links (ι σ : Type*) where
  pointer : Slot ι σ → Option ι
  /-- `tqh_last`. -/
  last : WaitQueue σ → Slot ι σ
  /-- `tqe_prev`. -/
  prev : ι → Slot ι σ

namespace Links

variable {ι σ : Type*} [DecidableEq ι] [DecidableEq σ]

/-- `TAILQ_INSERT_TAIL`. -/
def insertTail (l : Links ι σ) (q : WaitQueue σ) (link : ι) : Links ι σ where
  pointer := Function.update (Function.update l.pointer (.next link) none) (l.last q) (some link)
  last := Function.update l.last q (.next link)
  prev := Function.update l.prev link (l.last q)

/-- `TAILQ_REMOVE`. -/
def remove (l : Links ι σ) (q : WaitQueue σ) (link : ι) : Links ι σ :=
  match l.pointer (.next link) with
  | some next =>
    { l with
      prev := Function.update l.prev next (l.prev link)
      pointer := Function.update l.pointer (l.prev link) (some next) }
  | none =>
    { l with
      last := Function.update l.last q (l.prev link)
      pointer := Function.update l.pointer (l.prev link) none }

/-- The link is the last one of the queue. -/
def EndsIn (l : Links ι σ) (q : WaitQueue σ) (link : ι) : Prop :=
  l.last q = .next link ∧ l.pointer (l.prev link) = some link

theorem insertTail_endsIn (l : Links ι σ) (q : WaitQueue σ) (link : ι) : (l.insertTail q link).EndsIn q link := by
  simp [insertTail, EndsIn]

/-! ## Queues as lists -/

/-- The link is found by following the pointers from the head of the queue. -/
inductive OnQueue (l : Links ι σ) (q : WaitQueue σ) : ι → Prop
  | first {i} : l.pointer (.first q) = some i → OnQueue l q i
  | next {i j} : OnQueue l q i → l.pointer (.next i) = some j → OnQueue l q j

omit [DecidableEq ι] [DecidableEq σ] in
theorem not_onQueue_of_empty {l : Links ι σ} {q : WaitQueue σ} (h : l.pointer (.first q) = none) (i : ι) :
    ¬ OnQueue l q i := by
  intro hi
  induction hi with
  | first hf => rw [h] at hf; cases hf
  | next _ _ ih => exact ih

/-- The links `xs` hang one after the other on the slot `s`, and `e` is the slot at the end. -/
def Chain (l : Links ι σ) : Slot ι σ → List ι → Slot ι σ → Prop
  | s, [], e => l.pointer s = none ∧ e = s
  | s, x :: xs, e => l.pointer s = some x ∧ l.prev x = s ∧ Chain l (.next x) xs e

/-- Each queue is the list `queue` says, and no link is on two of them or twice on one. -/
structure Represents (l : Links ι σ) (queue : WaitQueue σ → List ι) : Prop where
  chain : ∀ q, Chain l (.first q) (queue q) (l.last q)
  nodup : ∀ q, (queue q).Nodup
  disjoint : ∀ q q' i, i ∈ queue q → i ∈ queue q' → q = q'

omit [DecidableEq ι] [DecidableEq σ] in
/-- A chain only reads the slots it goes through and the way back from its links. -/
theorem Chain.congr {l l' : Links ι σ} {s e : Slot ι σ} {xs : List ι} (h : Chain l s xs e)
    (hs : l'.pointer s = l.pointer s) (hx : ∀ x ∈ xs, l'.pointer (.next x) = l.pointer (.next x) ∧ l'.prev x = l.prev x) :
    Chain l' s xs e := by
  induction xs generalizing s with
  | nil => exact ⟨hs.trans h.1, h.2⟩
  | cons x xs ih =>
    obtain ⟨h1, h2, h3⟩ := h
    have hx0 := hx x List.mem_cons_self
    refine ⟨hs.trans h1, hx0.2.trans h2, ih h3 hx0.1 ?_⟩
    intro y hy
    exact hx y (List.mem_cons_of_mem _ hy)

omit [DecidableEq ι] [DecidableEq σ] in
/-- The end of a chain is where it starts, or the slot of one of its links. -/
theorem Chain.end_eq {l : Links ι σ} {s e : Slot ι σ} {xs : List ι} (h : Chain l s xs e) :
    e = s ∨ ∃ x ∈ xs, e = .next x := by
  induction xs generalizing s with
  | nil => exact .inl h.2
  | cons x xs ih =>
    refine .inr ?_
    rcases ih h.2.2 with rfl | ⟨y, hy, rfl⟩
    · exact ⟨x, List.mem_cons_self, rfl⟩
    · exact ⟨y, List.mem_cons_of_mem _ hy, rfl⟩

theorem insertTail_pointer {l : Links ι σ} {q : WaitQueue σ} {i : ι} {s : Slot ι σ} (hl : s ≠ l.last q)
    (hs : s ≠ .next i) : (l.insertTail q i).pointer s = l.pointer s :=
  (Function.update_of_ne hl _ _).trans (Function.update_of_ne hs _ _)

theorem insertTail_prev {l : Links ι σ} {q : WaitQueue σ} {i x : ι} (h : x ≠ i) :
    (l.insertTail q i).prev x = l.prev x :=
  Function.update_of_ne h _ _

/-- A link at the end of a chain, as `TAILQ_INSERT_TAIL` puts it there. -/
theorem Chain.insertTail {l : Links ι σ} {s : Slot ι σ} {xs : List ι} {q : WaitQueue σ} {i : ι}
    (h : Chain l s xs (l.last q)) (hs : s ≠ .next i) (hi : i ∉ xs) (hn : xs.Nodup) (hne : ∀ x ∈ xs, s ≠ .next x) :
    Chain (l.insertTail q i) s (xs ++ [i]) (.next i) := by
  induction xs generalizing s with
  | nil =>
    obtain ⟨-, he⟩ := h
    simp [Chain, Links.insertTail, he, Ne.symm hs]
  | cons x xs ih =>
    obtain ⟨h1, h2, h3⟩ := h
    obtain ⟨hx, hn⟩ := List.nodup_cons.1 hn
    have hix : i ≠ x := fun h => hi (h ▸ List.mem_cons_self)
    -- the end is further on, so the slot at hand keeps its pointer
    have hlast : s ≠ l.last q := by
      rcases h3.end_eq with he | ⟨y, hy, he⟩
      · rw [he]; exact hne x List.mem_cons_self
      · rw [he]; exact hne y (List.mem_cons_of_mem _ hy)
    refine ⟨?_, ?_, ih h3 ?_ ?_ hn ?_⟩
    · exact (insertTail_pointer hlast hs).trans h1
    · exact (insertTail_prev hix.symm).trans h2
    · simpa using hix.symm
    · exact fun h => hi (List.mem_cons_of_mem _ h)
    · intro y hy he
      cases he
      exact hx hy

theorem Represents.insertTail {l : Links ι σ} {queue : WaitQueue σ → List ι} (h : Represents l queue) {i : ι}
    (hi : ∀ q, i ∉ queue q) (q : WaitQueue σ) :
    Represents (l.insertTail q i) (Function.update queue q (queue q ++ [i])) := by
  constructor
  · intro q'
    by_cases hq : q' = q
    · subst q'
      simp only [Function.update_self]
      have hlast : (l.insertTail q i).last q = .next i := by simp [Links.insertTail]
      rw [hlast]
      exact (h.chain q).insertTail nofun (hi q) (h.nodup q) (fun _ _ => nofun)
    · rw [Function.update_of_ne hq]
      have hlast : (l.insertTail q i).last q' = l.last q' := by simp [Links.insertTail, hq]
      rw [hlast]
      -- the other queue has neither the new link nor the end of this one
      have hend : ∀ x ∈ queue q', .next x ≠ l.last q := by
        intro x hx he
        rcases (h.chain q).end_eq with h' | ⟨y, hy, h'⟩
        · rw [h'] at he; cases he
        · rw [h'] at he; cases he
          exact hq (h.disjoint q' q x hx hy)
      have hfirst : .first q' ≠ l.last q := by
        rcases (h.chain q).end_eq with h' | ⟨y, hy, h'⟩
        · rw [h']; intro he; cases he; exact hq rfl
        · rw [h']; nofun
      refine (h.chain q').congr ?_ ?_
      · exact insertTail_pointer hfirst nofun
      · intro x hx
        have hxi : x ≠ i := fun he => hi q' (he ▸ hx)
        exact ⟨insertTail_pointer (hend x hx) (by simpa using hxi), insertTail_prev hxi⟩
  · intro q'
    by_cases hq : q' = q
    · subst q'
      rw [Function.update_self]
      refine List.nodup_append.2 ⟨h.nodup q, List.nodup_singleton i, ?_⟩
      intro a ha b hb
      rw [List.mem_singleton.1 hb]
      exact fun he => hi q (he ▸ ha)
    · rw [Function.update_of_ne hq]
      exact h.nodup q'
  · intro q1 q2 j h1 h2
    by_cases hj : j = i
    · subst j
      -- only the queue it was inserted in has the new link
      have honly : ∀ q', i ∈ Function.update queue q (queue q ++ [i]) q' → q' = q := by
        intro q' hq'
        by_cases hq : q' = q
        · exact hq
        · rw [Function.update_of_ne hq] at hq'
          exact absurd hq' (hi q')
      rw [honly q1 h1, honly q2 h2]
    · have hold : ∀ q', j ∈ Function.update queue q (queue q ++ [i]) q' → j ∈ queue q' := by
        intro q' hq'
        by_cases hq : q' = q
        · subst q'
          rw [Function.update_self, List.mem_append, List.mem_singleton] at hq'
          exact hq'.resolve_right hj
        · rwa [Function.update_of_ne hq] at hq'
      exact h.disjoint q1 q2 j (hold q1 h1) (hold q2 h2)

omit [DecidableEq ι] [DecidableEq σ] in
/-- What comes after the first link of a chain. -/
theorem Chain.removeFirst {l : Links ι σ} {s e : Slot ι σ} {x : ι} {xs : List ι} (h : Chain l s (x :: xs) e) :
    (xs = [] ∧ l.pointer (.next x) = none ∧ e = .next x) ∨
      ∃ y ys, xs = y :: ys ∧ l.pointer (.next x) = some y ∧ Chain l (.next y) ys e := by
  obtain ⟨-, -, h⟩ := h
  cases xs with
  | nil => exact .inl ⟨rfl, h.1, h.2⟩
  | cons y ys => exact .inr ⟨y, ys, rfl, h.1, h.2.2⟩

omit [DecidableEq ι] in
/-- Queues that are lists stay so when one of them loses links. -/
theorem Represents.shrink {l l' : Links ι σ} {queue : WaitQueue σ → List ι} (h : Represents l queue)
    {q : WaitQueue σ} {xs : List ι} (hsub : xs.Sublist (queue q)) (hchain : Chain l' (.first q) xs (l'.last q))
    (hother : ∀ q', q' ≠ q → Chain l' (.first q') (queue q') (l'.last q')) :
    Represents l' (Function.update queue q xs) := by
  have hmem : ∀ q' i, i ∈ Function.update queue q xs q' → i ∈ queue q' := by
    intro q' i hi
    by_cases hq : q' = q
    · subst q'
      rw [Function.update_self] at hi
      exact hsub.subset hi
    · rwa [Function.update_of_ne hq] at hi
  constructor
  · intro q'
    by_cases hq : q' = q
    · subst q'; rw [Function.update_self]; exact hchain
    · rw [Function.update_of_ne hq]; exact hother q' hq
  · intro q'
    by_cases hq : q' = q
    · subst q'; rw [Function.update_self]; exact (h.nodup q).sublist hsub
    · rw [Function.update_of_ne hq]; exact h.nodup q'
  · intro q1 q2 i h1 h2
    exact h.disjoint q1 q2 i (hmem q1 i h1) (hmem q2 i h2)

theorem Represents.removeFirst {l : Links ι σ} {queue : WaitQueue σ → List ι} (h : Represents l queue)
    {q : WaitQueue σ} {x : ι} {xs : List ι} (hq : queue q = x :: xs) :
    Represents (l.remove q x) (Function.update queue q xs) := by
  have hc := h.chain q
  have hn := h.nodup q
  rw [hq] at hc hn
  obtain ⟨hx, hn⟩ := List.nodup_cons.1 hn
  have hprev : l.prev x = .first q := hc.2.1
  have hsub : xs.Sublist (queue q) := hq ▸ List.sublist_cons_self x xs
  have hfirst : ∀ q', q' ≠ q → (.first q' : Slot ι σ) ≠ .first q := by
    intro q' hne he
    cases he
    exact hne rfl
  have hnext : ∀ v z, Function.update l.pointer (.first q) v (.next z) = l.pointer (.next z) :=
    fun _ z => Function.update_of_ne (nofun : (.next z : Slot ι σ) ≠ .first q) _ _
  rcases hc.removeFirst with ⟨rfl, hnone, he⟩ | ⟨y, ys, rfl, hsome, hrest⟩
  · have hl : l.remove q x = { l with
        last := Function.update l.last q (.first q), pointer := Function.update l.pointer (.first q) none } := by
      rw [remove, hnone, hprev]
    rw [hl]
    refine h.shrink hsub ?_ ?_
    · exact ⟨Function.update_self _ _ _, Function.update_self _ _ _⟩
    · intro q' hne
      show Chain _ _ _ (Function.update l.last q (.first q) q')
      rw [Function.update_of_ne hne]
      exact (h.chain q').congr (Function.update_of_ne (hfirst q' hne) _ _)
        fun z _ => ⟨hnext none z, rfl⟩
  · have hl : l.remove q x = { l with
        prev := Function.update l.prev y (.first q), pointer := Function.update l.pointer (.first q) (some y) } := by
      rw [remove, hsome, hprev]
    rw [hl]
    refine h.shrink hsub ?_ ?_
    · refine ⟨Function.update_self _ _ _, Function.update_self _ _ _, hrest.congr (hnext (some y) y) ?_⟩
      intro z hz
      have hzy : z ≠ y := by
        rintro rfl
        exact (List.nodup_cons.1 hn).1 hz
      exact ⟨hnext (some y) z, Function.update_of_ne hzy _ _⟩
    · intro q' hne
      refine (h.chain q').congr (Function.update_of_ne (hfirst q' hne) _ _) ?_
      intro z hz
      have hzy : z ≠ y := by
        rintro rfl
        exact hne (h.disjoint q' q z hz (hq ▸ by simp))
      exact ⟨hnext (some y) z, Function.update_of_ne hzy _ _⟩

omit [DecidableEq ι] [DecidableEq σ] in
theorem Represents.first_eq {l : Links ι σ} {queue : WaitQueue σ → List ι} (h : Represents l queue)
    (q : WaitQueue σ) : l.pointer (.first q) = (queue q).head? := by
  have hc := h.chain q
  cases hq : queue q with
  | nil => rw [hq] at hc; exact hc.1
  | cons x xs => rw [hq] at hc; exact hc.1

omit [DecidableEq ι] [DecidableEq σ] in
theorem Represents.next_mem {l : Links ι σ} {queue : WaitQueue σ → List ι} (h : Represents l queue)
    {q : WaitQueue σ} {i j : ι} (hi : i ∈ queue q) (hn : l.pointer (.next i) = some j) : j ∈ queue q := by
  have hc := h.chain q
  generalize Slot.first q = s at hc
  generalize queue q = xs at hc hi
  induction xs generalizing s with
  | nil => cases hi
  | cons x xs ih =>
    obtain ⟨-, -, hc⟩ := hc
    rcases List.mem_cons.1 hi with rfl | hi
    · cases xs with
      | nil => rw [hc.1] at hn; cases hn
      | cons y ys =>
        rw [hc.1] at hn; cases hn
        exact List.mem_cons_of_mem _ List.mem_cons_self
    · exact List.mem_cons_of_mem _ (ih _ hc hi)

omit [DecidableEq ι] [DecidableEq σ] in
/-- The links found from the head of a queue are those on its list. -/
theorem Represents.onQueue_iff {l : Links ι σ} {queue : WaitQueue σ → List ι} (h : Represents l queue)
    (q : WaitQueue σ) (i : ι) : OnQueue l q i ↔ i ∈ queue q := by
  constructor
  · intro hi
    induction hi with
    | first hf => exact List.mem_of_mem_head? (h.first_eq q ▸ hf)
    | next _ hn ih => exact h.next_mem ih hn
  · intro hi
    have hc := h.chain q
    have hstart : ∀ x, l.pointer (.first q) = some x → OnQueue l q x := fun _ => .first
    generalize Slot.first q = s at hc hstart
    generalize queue q = xs at hc hi
    induction xs generalizing s with
    | nil => cases hi
    | cons x xs ih =>
      obtain ⟨h1, -, hc⟩ := hc
      rcases List.mem_cons.1 hi with rfl | hi
      · exact hstart i h1
      · exact ih _ (fun y hy => .next (hstart x h1) hy) hc hi

end Links

end DarlingServer
