import Mathlib.Data.List.Basic

/-!
This module contains the pieces of a list between its separators: how one pass over the list finds them,
and what it means to read one of them element by element.
-/

namespace Pieces

variable {α : Type}

def slice (xs : List α) (start len : Nat) : List α :=
  (xs.drop start).take len

/--
Whether `len` elements from `start` on satisfy `p`. The first one that does not ends the search, and `none`
means that an element behind the end has been read.
-/
def allFrom (p : α → Bool) (xs : List α) (start : Nat) : Nat → Option Bool
  | 0 => some true
  | len + 1 =>
    match xs[start]? with
    | none => none
    | some x => if p x then allFrom p xs (start + 1) len else some false

theorem length_slice {xs : List α} {start len : Nat} (h : start + len ≤ xs.length)
    : (slice xs start len).length = len := by
  unfold slice
  rw [List.length_take, List.length_drop]
  omega

theorem getElem?_slice {xs : List α} {start len i : Nat} (h : i < len)
    : (slice xs start len)[i]? = xs[start + i]? := by
  unfold slice
  rw [List.getElem?_take_of_lt h, List.getElem?_drop]

theorem slice_succ {xs : List α} {start len : Nat} {x : α} (h : xs[start + len]? = some x)
    : slice xs start (len + 1) = slice xs start len ++ [x] := by
  unfold slice
  rw [List.take_add_one, List.getElem?_drop, h]
  rfl

theorem slice_cons {xs : List α} {start len : Nat} {x : α} (h : xs[start]? = some x)
    : slice xs start (len + 1) = x :: slice xs (start + 1) len := by
  rcases List.getElem?_eq_some_iff.mp h with ⟨hlt, hget⟩
  unfold slice
  rw [List.drop_eq_getElem_cons hlt, hget, List.take_succ_cons]

theorem allFrom_eq (p : α → Bool) {xs : List α} {start len : Nat} (h : start + len ≤ xs.length)
    : allFrom p xs start len = some ((slice xs start len).all p) := by
  induction len generalizing start with
  | zero => simp [allFrom, slice]
  | succ len ih =>
    have hget : xs[start]? = some xs[start] := List.getElem?_eq_getElem (by omega)
    unfold allFrom
    rw [hget, slice_cons hget, List.all_cons]
    dsimp only
    cases p xs[start] with
    | false => simp
    | true =>
      rw [if_pos rfl, ih (by omega)]
      simp

section Pass

variable [DecidableEq α] {sep : α} {xs : List α} {i start : Nat} {done : List (List α)}

/--
The first `i` elements have been read. The piece that is being read begins at `start`, and `done` are those in
front of it.
-/
structure At (sep : α) (xs : List α) (i start : Nat) (done : List (List α)) : Prop where
  start_le : start ≤ i
  le : i ≤ xs.length
  clean : sep ∉ slice xs start (i - start)
  front : (start = 0 ∧ done = [])
    ∨ ∃ n, start = n + 1 ∧ xs[n]? = some sep ∧ (xs.take n).splitOn sep = done

theorem At.init (sep : α) (xs : List α) : At sep xs 0 0 [] := by
  refine ⟨Nat.le_refl 0, Nat.zero_le _, ?_, .inl ⟨rfl, rfl⟩⟩
  simp [slice]

theorem At.split (h : At sep xs i start done)
    : (xs.take i).splitOn sep = done ++ [slice xs start (i - start)] := by
  rcases h.front with ⟨rfl, rfl⟩ | ⟨n, rfl, hsep, rfl⟩
  . have hclean := h.clean
    unfold slice at hclean ⊢
    rw [List.drop_zero, Nat.sub_zero] at hclean ⊢
    rw [List.splitOn_eq_singleton hclean, List.nil_append]
  . rcases List.getElem?_eq_some_iff.mp hsep with ⟨hlt, hget⟩
    have hstart := h.start_le
    have htake : xs.take i = xs.take n ++ sep :: slice xs (n + 1) (i - (n + 1)) := by
      have hi : i = n + (i - (n + 1) + 1) := by omega
      have hslice : slice xs n (i - (n + 1) + 1) = sep :: slice xs (n + 1) (i - (n + 1)) := slice_cons hsep
      rw [← hslice]
      nth_rewrite 1 [hi]
      rw [List.take_add]
      rfl
    rw [htake, List.splitOn_append_cons_self, List.splitOn_eq_singleton h.clean]

theorem At.next (h : At sep xs i start done) {x : α} (hx : xs[i]? = some x) (hne : x ≠ sep)
    : At sep xs (i + 1) start done := by
  have hstart := h.start_le
  have hsub : i + 1 - start = i - start + 1 := by omega
  have hget : xs[start + (i - start)]? = some x := by
    rw [Nat.add_sub_cancel' hstart]
    exact hx
  refine ⟨by omega, (List.getElem?_eq_some_iff.mp hx).1, ?_, h.front⟩
  rw [hsub, slice_succ hget, List.mem_append, List.mem_singleton, not_or]
  exact ⟨h.clean, Ne.symm hne⟩

theorem At.cut (h : At sep xs i start done) (hsep : xs[i]? = some sep)
    : At sep xs (i + 1) (i + 1) (done ++ [slice xs start (i - start)]) := by
  refine ⟨Nat.le_refl _, (List.getElem?_eq_some_iff.mp hsep).1, ?_, .inr ⟨i, rfl, hsep, h.split⟩⟩
  simp [slice]

theorem At.last (h : At sep xs xs.length start done)
    : xs.splitOn sep = done ++ [slice xs start (xs.length - start)] := by
  have hsplit := h.split
  rw [List.take_length] at hsplit
  exact hsplit

theorem At.mem_dropLast (h : At sep xs i start done) (hsep : xs[i]? = some sep)
    : slice xs start (i - start) ∈ (xs.splitOn sep).dropLast := by
  rcases List.getElem?_eq_some_iff.mp hsep with ⟨hlt, hget⟩
  have hxs : xs = xs.take i ++ sep :: xs.drop (i + 1) := by
    rw [← hget, ← List.drop_eq_getElem_cons hlt, List.take_append_drop]
  have hsplit : xs.splitOn sep
      = done ++ [slice xs start (i - start)] ++ (xs.drop (i + 1)).splitOn sep := by
    rw [← h.split, ← List.splitOn_append_cons_self, ← hxs]
  rw [hsplit, List.dropLast_append_of_ne_nil (List.splitOn_ne_nil _ _)]
  simp

end Pass

theorem splitOn_map [DecidableEq α] {sep : α} {f : α → α} (hf : ∀ x, f x = sep ↔ x = sep)
    (xs : List α)
    : (xs.map f).splitOn sep = (xs.splitOn sep).map (·.map f) := by
  induction xs with
  | nil => simp
  | cons x xs ih =>
    rw [List.map_cons, List.splitOn_cons_eq_if_modifyHead, List.splitOn_cons_eq_if_modifyHead, ih]
    by_cases hx : x = sep
    . simp [hx, (hf sep).mpr rfl]
    . have hne : f x ≠ sep := mt (hf x).mp hx
      simp only [beq_iff_eq, hx, hne, ↓reduceIte]
      cases xs.splitOn sep with
      | nil => rfl
      | cons y ys => rfl

end Pieces
