import Mathlib.Data.List.Infix
import Mathlib.Order.Bounds.Defs

/-!
This module contains the naive scan for a pattern and the fact that it finds the first occurrence.
-/

namespace Search

variable {α : Type}

def Occurs (pattern xs : List α) (i : Nat) : Prop :=
  i + pattern.length ≤ xs.length ∧ (xs.drop i).take pattern.length = pattern

structure First (pattern xs : List α) (start i : Nat) : Prop where
  le : start ≤ i
  occurs : Occurs pattern xs i
  least : ∀ j, start ≤ j → j < i → ¬ Occurs pattern xs j

variable {pattern xs : List α} {start i j : Nat}

theorem First.unique (hi : First pattern xs start i) (hj : First pattern xs start j) : i = j := by
  rcases Nat.lt_trichotomy i j with hlt | heq | hgt
  . exact absurd hi.occurs (hj.least i hi.le hlt)
  . exact heq
  . exact absurd hj.occurs (hi.least j hj.le hgt)

theorem first_iff_isLeast
    : First pattern xs start i ↔ IsLeast {j | start ≤ j ∧ Occurs pattern xs j} i := by
  constructor
  . intro h
    refine ⟨⟨h.le, h.occurs⟩, ?_⟩
    intro j hj
    apply Nat.le_of_not_lt
    intro hlt
    exact h.least j hj.1 hlt hj.2
  . intro h
    refine ⟨h.1.1, h.1.2, ?_⟩
    intro j hj hlt hocc
    have := h.2 ⟨hj, hocc⟩
    omega

theorem Occurs.lt_length (h : Occurs pattern xs i) (hne : pattern ≠ []) : i < xs.length := by
  have := h.1
  have := List.length_pos_of_ne_nil hne
  omega

theorem occurs_zero : Occurs pattern xs 0 ↔ pattern <+: xs := by
  unfold Occurs
  rw [List.prefix_iff_eq_take, List.drop_zero, Nat.zero_add]
  constructor
  . intro h
    exact h.2.symm
  . intro h
    refine ⟨?_, h.symm⟩
    rw [h, List.length_take]
    omega

theorem occurs_cons_succ {x : α} : Occurs pattern (x :: xs) (i + 1) ↔ Occurs pattern xs i := by
  unfold Occurs
  rw [List.length_cons, List.drop_succ_cons, Nat.add_right_comm, Nat.add_le_add_iff_right]

theorem occurs_drop (hne : pattern ≠ [])
    : Occurs pattern (xs.drop start) i ↔ Occurs pattern xs (start + i) := by
  have hpos := List.length_pos_of_ne_nil hne
  unfold Occurs
  rw [List.length_drop, List.drop_drop]
  apply and_congr_left'
  omega

theorem occurs_concat {x : α} (hne : pattern ≠ [])
    : Occurs pattern (xs ++ [x]) i
        ↔
      Occurs pattern xs i
        ∨ (i + pattern.length = xs.length + 1 ∧ pattern = xs.drop i ++ [x]) := by
  have hpos := List.length_pos_of_ne_nil hne
  unfold Occurs
  rw [List.length_append, List.length_singleton]
  rcases Nat.lt_or_ge xs.length (i + pattern.length) with hlt | hge
  . constructor
    . intro h
      right
      have heq : i + pattern.length = xs.length + 1 := by omega
      refine ⟨heq, ?_⟩
      have htake := h.2
      rw [List.drop_append_of_le_length (by omega), List.take_of_length_le] at htake
      . exact htake.symm
      . rw [List.length_append, List.length_drop, List.length_singleton]
        omega
    . intro h
      rcases h with h | ⟨heq, h⟩
      . omega
      . refine ⟨by omega, ?_⟩
        rw [List.drop_append_of_le_length (by omega), ← h]
        apply List.take_length
  . rw [List.drop_append_of_le_length (by omega), List.take_append_of_le_length]
    . constructor
      . intro h
        exact Or.inl ⟨hge, h.2⟩
      . intro h
        rcases h with h | h
        . exact ⟨by omega, h.2⟩
        . omega
    . rw [List.length_drop]
      omega

section Concat

variable {x : α} (hne : pattern ≠ [])
  (hend : pattern = xs.drop (xs.length + 1 - pattern.length) ++ [x] →
    ∃ i, start ≤ i ∧ Occurs pattern xs i)

include hne hend

theorem first_concat : First pattern (xs ++ [x]) start i ↔ First pattern xs start i := by
  have hlater : ∀ {j k}, Occurs pattern xs j → k + pattern.length = xs.length + 1 → j < k := by
    intro j k hj hk
    have := hj.1
    omega
  constructor
  . intro h
    rcases (occurs_concat hne).mp h.occurs with hocc | ⟨hlast, heq⟩
    . refine ⟨h.le, hocc, ?_⟩
      intro j hj hlt hoccj
      apply h.least j hj hlt ((occurs_concat hne).mpr (Or.inl hoccj))
    . have hi : xs.length + 1 - pattern.length = i := by omega
      rw [hi] at hend
      rcases hend heq with ⟨j, hj, hoccj⟩
      exact absurd ((occurs_concat hne).mpr (Or.inl hoccj)) (h.least j hj (hlater hoccj hlast))
  . intro h
    refine ⟨h.le, (occurs_concat hne).mpr (Or.inl h.occurs), ?_⟩
    intro j hj hlt hocc
    rcases (occurs_concat hne).mp hocc with hoccj | ⟨hlast, _⟩
    . apply h.least j hj hlt hoccj
    . have := hlater h.occurs hlast
      omega

theorem absent_concat
    : (∀ j, start ≤ j → ¬ Occurs pattern (xs ++ [x]) j) ↔ ∀ j, start ≤ j → ¬ Occurs pattern xs j := by
  constructor
  . intro h j hj hocc
    apply h j hj ((occurs_concat hne).mpr (Or.inl hocc))
  . intro h j hj hocc
    rcases (occurs_concat hne).mp hocc with hocc | ⟨hlast, heq⟩
    . apply h j hj hocc
    . have hj' : xs.length + 1 - pattern.length = j := by omega
      rw [hj'] at hend
      rcases hend heq with ⟨i, hi, hocci⟩
      apply h i hi hocci

end Concat

section Scan

variable [DecidableEq α]

-- `std::search` as an offset from the start, `xs.length` is the end
def search (pattern : List α) : List α → Nat
  | [] => 0
  | x :: xs => if pattern.isPrefixOf (x :: xs) then 0 else search pattern xs + 1

theorem search_le (pattern xs : List α) : search pattern xs ≤ xs.length := by
  induction xs with
  | nil => exact Nat.le_refl 0
  | cons x xs ih =>
    unfold search
    rw [List.length_cons]
    split <;> omega

theorem not_occurs_of_lt_search (h : j < search pattern xs) : ¬ Occurs pattern xs j := by
  induction xs generalizing j with
  | nil => simp [search] at h
  | cons x xs ih =>
    unfold search at h
    split at h
    . omega
    . next hprefix =>
      cases j with
      | zero =>
        rw [occurs_zero]
        rw [List.isPrefixOf_iff_prefix] at hprefix
        exact hprefix
      | succ j =>
        rw [occurs_cons_succ]
        apply ih
        omega

theorem occurs_search (h : search pattern xs < xs.length) : Occurs pattern xs (search pattern xs) := by
  induction xs with
  | nil => simp at h
  | cons x xs ih =>
    unfold search at h ⊢
    split at h
    . next hprefix =>
      rw [if_pos hprefix, occurs_zero]
      rw [List.isPrefixOf_iff_prefix] at hprefix
      exact hprefix
    . next hprefix =>
      rw [if_neg hprefix, occurs_cons_succ]
      apply ih
      rw [List.length_cons] at h
      omega

-- the scan of what follows `start`, `none` for the end
def searchFrom (pattern xs : List α) (start : Nat) : Option Nat :=
  let range := xs.drop start
  let position := search pattern range
  if position = range.length then none else some (start + position)

theorem searchFrom_eq_none_iff (hne : pattern ≠ [])
    : searchFrom pattern xs start = none ↔ ∀ j, start ≤ j → ¬ Occurs pattern xs j := by
  have hle := search_le pattern (xs.drop start)
  unfold searchFrom
  dsimp only
  split
  . next hend =>
    simp only [true_iff]
    intro j hj hocc
    rcases Nat.exists_eq_add_of_le hj with ⟨k, rfl⟩
    rw [← occurs_drop hne] at hocc
    have := hocc.lt_length hne
    apply not_occurs_of_lt_search (by omega) hocc
  . next hend =>
    simp only [reduceCtorEq, false_iff, not_forall, not_not]
    have hocc : Occurs pattern (xs.drop start) _ := occurs_search (Nat.lt_of_le_of_ne hle hend)
    rw [occurs_drop hne] at hocc
    exact ⟨_, by omega, hocc⟩

theorem searchFrom_eq_some_iff (hne : pattern ≠ [])
    : searchFrom pattern xs start = some i ↔ First pattern xs start i := by
  have hfirst : ∀ k, searchFrom pattern xs start = some k → First pattern xs start k := by
    intro k hk
    have hle := search_le pattern (xs.drop start)
    unfold searchFrom at hk
    dsimp only at hk
    split at hk
    . simp at hk
    . next hend =>
      rw [Option.some.injEq] at hk
      have hocc : Occurs pattern (xs.drop start) _ := occurs_search (Nat.lt_of_le_of_ne hle hend)
      rw [occurs_drop hne, hk] at hocc
      refine ⟨by omega, hocc, ?_⟩
      intro j hj hlt
      rcases Nat.exists_eq_add_of_le hj with ⟨d, rfl⟩
      rw [← occurs_drop hne]
      apply not_occurs_of_lt_search
      omega
  constructor
  . apply hfirst i
  . intro h
    cases hs : searchFrom pattern xs start with
    | none => exact absurd h.occurs ((searchFrom_eq_none_iff hne).mp hs i h.le)
    | some k => rw [(hfirst k hs).unique h]

theorem search_singleton (x : α) (xs : List α) : search [x] xs = xs.findIdx (· == x) := by
  induction xs with
  | nil => rfl
  | cons y ys ih =>
    unfold search
    rw [List.findIdx_cons, ih]
    by_cases h : x = y
    . simp [h]
    . rw [beq_false_of_ne (Ne.symm h)]
      simp [h]

end Scan

end Search
