import Mathlib.Data.List.TakeWhile

/-!
This module contains what can be said about a list of events, the oldest first: what has happened
since an event of a kind, and what the last event that says something says.
-/

namespace History

variable {ε α : Type}

-- behind the last event that satisfies `p`, or everything
def since (p : ε → Bool) (h : List ε) : List ε :=
  (h.reverse.takeWhile (!p ·)).reverse

-- from the first event that satisfies `p` on
def onward (p : ε → Bool) (h : List ε) : List ε :=
  h.dropWhile (!p ·)

def last (f : ε → Option α) (h : List ε) : Option α :=
  (h.filterMap f).getLast?

variable {p : ε → Bool} {f : ε → Option α} {e : ε}

@[simp]
theorem since_nil : since p [] = [] := by
  rfl

@[simp]
theorem onward_nil : onward p [] = [] := by
  rfl

@[simp]
theorem last_nil : last f [] = none := by
  rfl

theorem since_snoc (h : List ε) : since p (h ++ [e]) = if p e then [] else since p h ++ [e] := by
  unfold since
  rw [List.reverse_append, List.reverse_singleton, List.singleton_append, List.takeWhile_cons]
  cases p e with
  | true => simp
  | false => simp

theorem onward_snoc (h : List ε)
    : onward p (h ++ [e])
        =
      if h.any p then onward p h ++ [e] else if p e then [e] else [] := by
  unfold onward
  rw [List.dropWhile_append]
  by_cases hany : h.any p
  . have hne : (h.dropWhile (!p ·)).isEmpty = false := by
      rw [Bool.eq_false_iff]
      intro hempty
      rw [List.isEmpty_iff, List.dropWhile_eq_nil_iff] at hempty
      rw [List.any_eq_true] at hany
      rcases hany with ⟨x, hx, hpx⟩
      have := hempty x hx
      rw [hpx] at this
      simp at this
    rw [if_pos hany, hne]
    rfl
  . have hnil : h.dropWhile (!p ·) = [] := by
      rw [List.dropWhile_eq_nil_iff]
      intro x hx
      rw [Bool.not_eq_true, List.any_eq_false] at hany
      rw [Bool.not_eq_true', ← Bool.not_eq_true]
      apply hany x hx
    rw [if_neg hany, hnil, List.dropWhile_cons]
    cases p e with
    | true => simp
    | false => simp

theorem last_snoc (h : List ε) : last f (h ++ [e]) = (f e).or (last f h) := by
  unfold last
  rw [List.filterMap_append]
  cases hf : f e with
  | none => simp [hf]
  | some a => simp [hf]

theorem last_eq_none_iff {h : List ε} (hp : ∀ e, (f e).isSome = p e)
    : last f h = none ↔ h.any p = false := by
  unfold last
  rw [List.getLast?_eq_none_iff, List.filterMap_eq_nil_iff, List.any_eq_false]
  constructor
  . intro hnone x hx
    rw [← hp x, hnone x hx]
    simp
  . intro hfalse x hx
    have := hfalse x hx
    rw [← hp x] at this
    simpa using this

end History
