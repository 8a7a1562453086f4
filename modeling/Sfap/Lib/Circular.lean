import Mathlib.Data.List.Nodup
import Mathlib.Data.List.Range
import Mathlib.Data.Nat.ModEq

/-!
This module contains circular windows: runs of consecutive slots of a ring with `C` slots, named by
an unbounded start position, and what reading and writing storage through them does.
-/

namespace Circular

variable {α : Type}

/--
The `len` slots that follow position `start` in a ring of `C` slots.
-/
def slots (C start len : Nat) : List Nat :=
  (List.range len).map fun i => (start + i) % C

@[simp]
theorem length_slots (C start len : Nat) : (slots C start len).length = len := by
  simp [slots]

@[simp]
theorem slots_zero (C start : Nat) : slots C start 0 = [] := by
  rfl

@[simp]
theorem slots_one (C start : Nat) : slots C start 1 = [start % C] := by
  rfl

@[simp]
theorem getElem_slots (C start len i : Nat) (h : i < (slots C start len).length)
    : (slots C start len)[i] = (start + i) % C := by
  simp [slots]

theorem mem_slots {C start len p : Nat}
    : p ∈ slots C start len ↔ ∃ i < len, (start + i) % C = p := by
  simp [slots]

theorem lt_of_mem_slots {C start len p : Nat} (hC : 0 < C) (h : p ∈ slots C start len) : p < C := by
  rcases mem_slots.mp h with ⟨i, _, rfl⟩
  apply Nat.mod_lt
  exact hC

theorem slots_append (C start a b : Nat)
    : slots C start (a + b) = slots C start a ++ slots C (start + a) b := by
  simp only [slots, List.range_add, List.map_append, List.map_map]
  congr 1
  apply List.map_congr_left
  intro i _
  simp [Nat.add_assoc]

theorem slots_congr {C start start' : Nat} (h : start % C = start' % C) (len : Nat)
    : slots C start len = slots C start' len := by
  apply List.map_congr_left
  intro i _
  rw [Nat.add_mod, h, ← Nat.add_mod]

theorem slots_mod {C M : Nat} (h : C ∣ M) (start len : Nat)
    : slots C (start % M) len = slots C start len := by
  apply slots_congr
  apply Nat.mod_mod_of_dvd start h

theorem take_slots {C start len k : Nat} (h : k ≤ len)
    : (slots C start len).take k = slots C start k := by
  rcases Nat.exists_eq_add_of_le h with ⟨r, rfl⟩
  rw [slots_append]
  simp

theorem drop_slots {C start len k : Nat} (h : k ≤ len)
    : (slots C start len).drop k = slots C (start + k) (len - k) := by
  rcases Nat.exists_eq_add_of_le h with ⟨r, rfl⟩
  rw [slots_append]
  simp

theorem add_mod_inj {C start i j : Nat} (hi : i < C) (hj : j < C)
    (h : (start + i) % C = (start + j) % C)
    : i = j := by
  have := Nat.ModEq.add_left_cancel' start h
  rw [Nat.ModEq, Nat.mod_eq_of_lt hi, Nat.mod_eq_of_lt hj] at this
  exact this

theorem nodup_slots {C start len : Nat} (h : len ≤ C) : (slots C start len).Nodup := by
  apply List.Nodup.map_on
  . intro i hi j hj heq
    rw [List.mem_range] at hi hj
    apply add_mod_inj (by omega) (by omega) heq
  . exact List.nodup_range

theorem le_of_nodup_slots {C start len : Nat} (hC : 0 < C) (h : (slots C start len).Nodup)
    : len ≤ C := by
  rcases Nat.lt_or_ge C len with hlt | hge
  . have hfirst : 0 < (slots C start len).length := by simp; omega
    have hlast : C < (slots C start len).length := by simpa using hlt
    have heq : (slots C start len)[0] = (slots C start len)[C] := by simp
    have := (List.Nodup.getElem_inj_iff h).mp heq
    omega
  . exact hge

theorem disjoint_slots {C start a b : Nat} (h : a + b ≤ C)
    : (slots C start a).Disjoint (slots C (start + a) b) := by
  have : (slots C start (a + b)).Nodup := by
    apply nodup_slots
    exact h
  rw [slots_append] at this
  apply List.disjoint_of_nodup_append this

theorem slots_eq_range' {C start len : Nat} (hC : 0 < C) (h : len ≤ C)
    : slots C start len
        =
      List.range' (start % C) (min len (C - start % C))
        ++ List.range' 0 (len - min len (C - start % C)) := by
  have hlt := Nat.mod_lt start hC
  rw [slots_congr (Nat.mod_mod start C).symm]
  apply List.ext_getElem
  . simp
  . intro i hi₁ hi₂
    rw [getElem_slots, List.getElem_append]
    simp only [length_slots] at hi₁
    split
    . next hfirst =>
      simp only [List.length_range'] at hfirst
      rw [List.getElem_range', Nat.mod_eq_of_lt (by omega)]
      omega
    . next hsecond =>
      simp only [List.length_range'] at hsecond
      rw [List.getElem_range', List.length_range', Nat.mod_eq_sub_mod (by omega),
        Nat.mod_eq_of_lt (by omega)]
      omega

def read [Inhabited α] (xs : List α) (ps : List Nat) : List α :=
  ps.map fun p => xs.getD p default

def write (xs : List α) : List Nat → List α → List α
  | [], _ => xs
  | _ :: _, [] => xs
  | p :: ps, b :: bs => write (xs.set p b) ps bs

section Read

variable [Inhabited α]

@[simp]
theorem length_read (xs : List α) (ps : List Nat) : (read xs ps).length = ps.length := by
  simp [read]

@[simp]
theorem read_nil (xs : List α) : read xs [] = [] := by
  rfl

theorem read_append (xs : List α) (ps qs : List Nat)
    : read xs (ps ++ qs) = read xs ps ++ read xs qs := by
  simp [read]

theorem take_read (xs : List α) (ps : List Nat) (k : Nat)
    : (read xs ps).take k = read xs (ps.take k) := by
  simp [read]

theorem drop_read (xs : List α) (ps : List Nat) (k : Nat)
    : (read xs ps).drop k = read xs (ps.drop k) := by
  simp [read]

theorem getElem?_read (xs : List α) (ps : List Nat) (i : Nat)
    : (read xs ps)[i]? = ps[i]?.map fun p => xs.getD p default := by
  simp [read]

theorem getElem?_read_slots {C start len i : Nat} (xs : List α) (h : i < len)
    : (read xs (slots C start len))[i]? = some (xs.getD ((start + i) % C) default) := by
  rw [getElem?_read, List.getElem?_eq_getElem (by simpa using h), getElem_slots]
  rfl

theorem read_set_of_notMem (xs : List α) (ps : List Nat) (p : Nat) (b : α) (h : p ∉ ps)
    : read (xs.set p b) ps = read xs ps := by
  apply List.map_congr_left
  intro q hq
  have hne : p ≠ q := by
    intro heq
    rw [heq] at h
    apply h hq
  simp [List.getElem?_set_ne hne]

theorem read_set_of_nodup (xs : List α) (ps : List Nat) (b : α) (i : Nat) (hi : i < ps.length)
    (hnodup : ps.Nodup) (hlt : ps[i] < xs.length)
    : read (xs.set ps[i] b) ps = (read xs ps).set i b := by
  apply List.ext_getElem
  . simp
  . intro j hj _
    simp only [length_read] at hj
    simp only [read, List.getElem_map, List.getElem_set]
    split
    . next heq =>
      subst heq
      simp [hlt]
    . next hne =>
      have : ps[i] ≠ ps[j] := by
        intro heq
        apply hne ((List.Nodup.getElem_inj_iff hnodup).mp heq)
      simp [List.getElem?_set_ne this]

end Read

@[simp]
theorem length_write (xs : List α) (ps : List Nat) (bs : List α)
    : (write xs ps bs).length = xs.length := by
  induction ps generalizing xs bs with
  | nil => simp [write]
  | cons p ps ih =>
    cases bs with
    | nil => simp [write]
    | cons b bs => simp [write, ih]

section Write

variable [Inhabited α]

theorem read_write_of_disjoint (xs : List α) (ps qs : List Nat) (bs : List α)
    (h : ps.Disjoint qs)
    : read (write xs ps bs) qs = read xs qs := by
  induction ps generalizing xs bs with
  | nil => simp [write]
  | cons p ps ih =>
    rw [List.disjoint_cons_left] at h
    cases bs with
    | nil => simp [write]
    | cons b bs =>
      simp only [write]
      rw [ih _ _ h.2, read_set_of_notMem _ _ _ _ h.1]

theorem read_write (xs : List α) (ps : List Nat) (bs : List α) (hnodup : ps.Nodup)
    (hlen : bs.length = ps.length) (hlt : ∀ p ∈ ps, p < xs.length)
    : read (write xs ps bs) ps = bs := by
  induction ps generalizing xs bs with
  | nil =>
    rw [List.length_nil, List.length_eq_zero_iff] at hlen
    simp [hlen]
  | cons p ps ih =>
    cases bs with
    | nil => simp at hlen
    | cons b bs =>
      simp only [write]
      rw [List.nodup_cons] at hnodup
      have htail : read (write (xs.set p b) ps bs) ps = bs := by
        apply ih
        . exact hnodup.2
        . simpa using hlen
        . intro q hq
          rw [List.length_set]
          apply hlt q (List.mem_cons_of_mem p hq)
      have hhead : read (write (xs.set p b) ps bs) [p] = [b] := by
        rw [read_write_of_disjoint _ _ _ _ (by simpa using hnodup.1)]
        have : p < xs.length := hlt p List.mem_cons_self
        simp [read, this]
      change read _ ([p] ++ ps) = [b] ++ bs
      rw [read_append, hhead, htail]

end Write

end Circular
