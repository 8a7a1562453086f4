/-!
This module contains the loop over a list that may leave early, and when leaving early cannot be seen.
-/

namespace EarlyExit

variable {σ α β : Type}

def foldUntil (body : σ → α → σ × Bool) (s : σ) : List α → σ
  | [] => s
  | x :: xs =>
    let (s, stop) := body s x
    if stop then s else foldUntil body s xs

def foldAll (body : σ → α → σ × Bool) (s : σ) (xs : List α) : σ :=
  xs.foldl (fun s x => (body s x).1) s

structure Settles (body : σ → α → σ × Bool) (see : σ → β) (Settled : σ → Prop) : Prop where
  stop : ∀ s x, (body s x).2 = true → Settled (body s x).1
  step : ∀ s x, Settled s → Settled (body s x).1
  see : ∀ s x, Settled s → see (body s x).1 = see s

variable {body : σ → α → σ × Bool} {see : σ → β} {Settled : σ → Prop}

theorem Settles.see_foldAll (h : Settles body see Settled) {s : σ} (hs : Settled s) (xs : List α)
    : see (foldAll body s xs) = see s := by
  induction xs generalizing s with
  | nil => rfl
  | cons x xs ih =>
    have hstep := ih (h.step s x hs)
    exact hstep.trans (h.see s x hs)

theorem Settles.see_foldUntil (h : Settles body see Settled) (s : σ) (xs : List α)
    : see (foldUntil body s xs) = see (foldAll body s xs) := by
  induction xs generalizing s with
  | nil => rfl
  | cons x xs ih =>
    unfold foldUntil
    dsimp only
    split
    . next hstop =>
      exact (h.see_foldAll (h.stop s x hstop) xs).symm
    . apply ih

theorem see_foldAll_or {first : σ → Option β} {f : α → Option β}
    (h : ∀ s x, first (body s x).1 = (first s).or (f x)) (s : σ) (xs : List α)
    : first (foldAll body s xs) = (first s).or (xs.findSome? f) := by
  induction xs generalizing s with
  | nil => exact Option.or_none.symm
  | cons x xs ih =>
    have hstep : first (foldAll body s (x :: xs)) = ((first s).or (f x)).or (xs.findSome? f) := by
      rw [← h]
      apply ih
    rw [hstep, Option.or_assoc, List.findSome?_cons]
    cases f x with
    | none => rfl
    | some y => rfl

theorem findSome?_eq_bind_find? {f : α → Option β} {p : α → Bool} (h : ∀ x, p x = (f x).isSome)
    (xs : List α)
    : xs.findSome? f = (xs.find? p).bind f := by
  induction xs with
  | nil => rfl
  | cons x xs ih =>
    rw [List.findSome?_cons, List.find?_cons, h x]
    cases hf : f x with
    | none => exact ih
    | some y => exact hf.symm

end EarlyExit
