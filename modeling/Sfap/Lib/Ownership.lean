import Mathlib.Logic.Function.Basic
import Sfap.Lib.Memory

/-!
This module contains exclusive ownership: holders that each hold at most one resource, such that every
resource that is alive has exactly one holder, and memory whose blocks are owned in this way.
-/

namespace Ownership

variable {ι κ : Type}

structure Exclusive (holds : ι → Option κ) (alive : κ → Prop) : Prop where
  held : ∀ i k, holds i = some k → alive k
  unique : ∀ i j k, holds i = some k → holds j = some k → i = j
  covered : ∀ k, alive k → ∃ i, holds i = some k

namespace Exclusive

variable {holds : ι → Option κ} {alive alive' : κ → Prop} {i j : ι} {k : κ}

theorem nothing (h : ∀ k, ¬ alive k) : Exclusive (fun _ : ι => none) alive := by
  constructor
  . simp
  . simp
  . intro k hk
    exact absurd hk (h k)

theorem alive_iff (h : Exclusive holds alive) (k : κ) : alive k ↔ ∃ i, holds i = some k := by
  constructor
  . apply h.covered
  . rintro ⟨i, hi⟩
    apply h.held i k hi

theorem not_alive (h : Exclusive holds alive) (hnone : ∀ i, holds i = none) (k : κ) : ¬ alive k := by
  intro hk
  rcases h.covered k hk with ⟨i, hi⟩
  rw [hnone i] at hi
  simp at hi

theorem congr (h : Exclusive holds alive) (halive : ∀ k, alive' k ↔ alive k) : Exclusive holds alive' := by
  have heq : alive' = alive := by
    funext k
    apply propext
    apply halive
  rw [heq]
  exact h

variable [DecidableEq ι]

theorem acquire (h : Exclusive holds alive) (hi : holds i = none) (hk : ¬ alive k)
    (halive : ∀ l, alive' l ↔ l = k ∨ alive l)
    : Exclusive (Function.update holds i (some k)) alive' := by
  have hother (j : ι) (l : κ) (hj : Function.update holds i (some k) j = some l)
      : (j = i ∧ l = k) ∨ (j ≠ i ∧ holds j = some l) := by
    by_cases heq : j = i
    . rw [heq, Function.update_self, Option.some.injEq] at hj
      exact .inl ⟨heq, hj.symm⟩
    . rw [Function.update_of_ne heq] at hj
      exact .inr ⟨heq, hj⟩
  constructor
  . intro j l hj
    rw [halive]
    rcases hother j l hj with ⟨_, hl⟩ | ⟨_, hl⟩
    . exact .inl hl
    . exact .inr (h.held j l hl)
  . intro j₁ j₂ l h₁ h₂
    rcases hother j₁ l h₁ with ⟨heq₁, hl₁⟩ | ⟨_, hl₁⟩
    . rcases hother j₂ l h₂ with ⟨heq₂, _⟩ | ⟨_, hl₂⟩
      . rw [heq₁, heq₂]
      . rw [hl₁] at hl₂
        exact absurd (h.held j₂ k hl₂) hk
    . rcases hother j₂ l h₂ with ⟨_, hl₂⟩ | ⟨_, hl₂⟩
      . rw [hl₂] at hl₁
        exact absurd (h.held j₁ k hl₁) hk
      . apply h.unique j₁ j₂ l hl₁ hl₂
  . intro l hl
    rw [halive] at hl
    rcases hl with rfl | hl
    . exact ⟨i, Function.update_self ..⟩
    . rcases h.covered l hl with ⟨j, hj⟩
      have hne : j ≠ i := by
        rintro rfl
        rw [hi] at hj
        simp at hj
      exact ⟨j, by rw [Function.update_of_ne hne, hj]⟩

theorem release (h : Exclusive holds alive) (halive : ∀ l, alive' l ↔ alive l ∧ holds i ≠ some l)
    : Exclusive (Function.update holds i none) alive' := by
  have hother (j : ι) (l : κ) (hj : Function.update holds i none j = some l) : j ≠ i ∧ holds j = some l := by
    by_cases heq : j = i
    . rw [heq, Function.update_self] at hj
      simp at hj
    . rw [Function.update_of_ne heq] at hj
      exact ⟨heq, hj⟩
  constructor
  . intro j l hj
    rcases hother j l hj with ⟨hne, hl⟩
    rw [halive]
    refine ⟨h.held j l hl, ?_⟩
    intro hi
    apply hne
    apply h.unique j i l hl hi
  . intro j₁ j₂ l h₁ h₂
    apply h.unique j₁ j₂ l (hother j₁ l h₁).2 (hother j₂ l h₂).2
  . intro l hl
    rw [halive] at hl
    rcases h.covered l hl.1 with ⟨j, hj⟩
    have hne : j ≠ i := by
      rintro rfl
      exact hl.2 hj
    exact ⟨j, by rw [Function.update_of_ne hne, hj]⟩

theorem move (h : Exclusive holds alive) (hi : holds i = none)
    : Exclusive (Function.update (Function.update holds j none) i (holds j)) alive := by
  have hother (l : ι) (k : κ) (hl : Function.update (Function.update holds j none) i (holds j) l = some k)
      : (l = i ∧ holds j = some k) ∨ (l ≠ i ∧ l ≠ j ∧ holds l = some k) := by
    by_cases heq : l = i
    . rw [heq, Function.update_self] at hl
      exact .inl ⟨heq, hl⟩
    . rw [Function.update_of_ne heq] at hl
      by_cases heq' : l = j
      . rw [heq', Function.update_self] at hl
        simp at hl
      . rw [Function.update_of_ne heq'] at hl
        exact .inr ⟨heq, heq', hl⟩
  constructor
  . intro l k hl
    rcases hother l k hl with ⟨_, hk⟩ | ⟨_, _, hk⟩
    . apply h.held j k hk
    . apply h.held l k hk
  . intro l₁ l₂ k h₁ h₂
    rcases hother l₁ k h₁ with ⟨heq₁, hk₁⟩ | ⟨_, hne₁, hk₁⟩
    . rcases hother l₂ k h₂ with ⟨heq₂, _⟩ | ⟨_, hne₂, hk₂⟩
      . rw [heq₁, heq₂]
      . exact absurd (h.unique l₂ j k hk₂ hk₁) hne₂
    . rcases hother l₂ k h₂ with ⟨_, hk₂⟩ | ⟨_, _, hk₂⟩
      . exact absurd (h.unique l₁ j k hk₁ hk₂) hne₁
      . apply h.unique l₁ l₂ k hk₁ hk₂
  . intro k hk
    rcases h.covered k hk with ⟨l, hl⟩
    by_cases heq : l = j
    . exact ⟨i, by rw [Function.update_self, ← heq, hl]⟩
    . have hne : l ≠ i := by
        rintro rfl
        rw [hi] at hl
        simp at hl
      exact ⟨l, by rw [Function.update_of_ne hne, Function.update_of_ne heq, hl]⟩

theorem replace (h : Exclusive holds alive) (halive : ∀ l, alive' l ↔ alive l ∧ holds i ≠ some l) (hne : j ≠ i)
    : Exclusive (Function.update (Function.update holds j none) i (holds j)) alive' := by
  have hmove := (h.release halive).move (i := i) (j := j) (Function.update_self ..)
  rw [Function.update_of_ne hne, Function.update_comm hne, Function.update_idem,
    Function.update_comm hne.symm] at hmove
  exact hmove

end Exclusive

open Memory (Allocated)

/--
`m₀` is the memory that a program has started with. The blocks in it are its callers', every block that
has been allocated since is in the custody of exactly one holder.
-/
structure Custody {α : Type} (m₀ m : Memory α) (holds : ι → Option Nat) : Prop where
  exclusive : Exclusive holds fun b => m₀.next ≤ b ∧ m.Allocated b
  callers : ∀ b < m₀.next, m.Allocated b ↔ m₀.Allocated b
  next : m₀.next ≤ m.next

namespace Custody

variable {α : Type} {m₀ m m' : Memory α} {holds : ι → Option Nat} {i j : ι}

theorem init (m : Memory α) : Custody m m fun _ : ι => none := by
  constructor
  . apply Exclusive.nothing
    rintro b ⟨hle, halloc⟩
    exact absurd halloc.lt (Nat.not_lt.mpr hle)
  . intro b _
    rfl
  . apply Nat.le_refl

theorem congr (h : Custody m₀ m holds) (hallocated : ∀ b, m'.Allocated b ↔ m.Allocated b)
    (hnext : m'.next = m.next)
    : Custody m₀ m' holds := by
  constructor
  . apply h.exclusive.congr
    intro b
    rw [hallocated]
  . intro b hb
    rw [hallocated]
    apply h.callers b hb
  . rw [hnext]
    exact h.next

theorem allocated_iff (h : Custody m₀ m holds) {b : Nat} (hb : m₀.next ≤ b)
    : m.Allocated b ↔ ∃ i, holds i = some b := by
  have halive := h.exclusive.alive_iff b
  rw [and_iff_right hb] at halive
  exact halive

theorem allocated_of_none (h : Custody m₀ m holds) (hnone : ∀ i, holds i = none) (b : Nat)
    : m.Allocated b ↔ m₀.Allocated b := by
  rcases Nat.lt_or_ge b m₀.next with hlt | hge
  . apply h.callers b hlt
  . constructor
    . intro halloc
      exact absurd ⟨hge, halloc⟩ (h.exclusive.not_alive hnone b)
    . intro halloc
      exact absurd halloc.lt (Nat.not_lt.mpr hge)

variable [DecidableEq ι]

theorem alloc (h : Custody m₀ m holds) (hi : holds i = none) (bs : List α)
    : Custody m₀ (m.alloc bs).2 (Function.update holds i (some m.next)) := by
  have hfresh : ¬ (m₀.next ≤ m.next ∧ m.Allocated m.next) := by
    rintro ⟨_, halloc⟩
    exact Nat.lt_irrefl _ halloc.lt
  constructor
  . apply h.exclusive.acquire hi hfresh
    intro b
    rw [m.allocated_alloc]
    constructor
    . rintro ⟨hle, rfl | halloc⟩
      . exact .inl rfl
      . exact .inr ⟨hle, halloc⟩
    . rintro (rfl | ⟨hle, halloc⟩)
      . exact ⟨h.next, .inl rfl⟩
      . exact ⟨hle, .inr halloc⟩
  . intro b hb
    rw [m.allocated_alloc, h.callers b hb]
    have := h.next
    simp only [or_iff_right_iff_imp]
    omega
  . apply Nat.le_succ_of_le h.next

theorem release (h : Custody m₀ m holds) (hallocated : ∀ b, m'.Allocated b ↔ m.Allocated b ∧ holds i ≠ some b)
    (hnext : m'.next = m.next)
    : Custody m₀ m' (Function.update holds i none) := by
  constructor
  . apply h.exclusive.release
    intro b
    rw [hallocated, and_assoc]
  . intro b hb
    rw [hallocated, h.callers b hb, and_iff_left_iff_imp]
    intro _ hheld
    have := (h.exclusive.held i b hheld).1
    omega
  . rw [hnext]
    exact h.next

theorem move (h : Custody m₀ m holds) (hi : holds i = none)
    : Custody m₀ m (Function.update (Function.update holds j none) i (holds j)) :=
  ⟨h.exclusive.move hi, h.callers, h.next⟩

theorem replace (h : Custody m₀ m holds) (hallocated : ∀ b, m'.Allocated b ↔ m.Allocated b ∧ holds i ≠ some b)
    (hnext : m'.next = m.next) (hne : j ≠ i)
    : Custody m₀ m' (Function.update (Function.update holds j none) i (holds j)) := by
  have hmove : Custody m₀ m' (Function.update _ i (Function.update holds i none j)) :=
    (h.release hallocated hnext).move (Function.update_self ..)
  rw [Function.update_of_ne hne, Function.update_comm hne, Function.update_idem,
    Function.update_comm hne.symm] at hmove
  exact hmove

end Custody

end Ownership
