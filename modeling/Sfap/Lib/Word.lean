import Mathlib.Algebra.Group.Nat.Defs
/-!
This module contains the arithmetic of free running 64 bit counters: unsigned distances that
survive the wrap at `2 ^ 64`, and indexing by a mask when the number of slots is a power of two.
-/

namespace Word

@[simp]
theorem toNat_min (a b : UInt64) : (min a b).toNat = min a.toNat b.toNat := by
  change (if a ≤ b then a else b).toNat = _
  split
  . next h =>
    rw [UInt64.le_iff_toNat_le] at h
    omega
  . next h =>
    rw [UInt64.le_iff_toNat_le] at h
    omega

theorem eq_zero_iff_toNat (a : UInt64) : a = 0 ↔ a.toNat = 0 := by
  rw [← UInt64.toNat_inj]
  rfl

@[simp]
theorem zero_min (a : UInt64) : min 0 a = 0 := by
  rw [eq_zero_iff_toNat, toNat_min]
  simp

theorem toNat_sub_of_toNat_le {a b : UInt64} (h : b.toNat ≤ a.toNat)
    : (a - b).toNat = a.toNat - b.toNat := by
  apply UInt64.toNat_sub_of_le
  rw [UInt64.le_iff_toNat_le]
  exact h

-- `none` where the difference wraps
def sub? (a b : UInt64) : Option UInt64 :=
  if a < b then none else some (a - b)

theorem sub?_eq_some {a b : UInt64} (h : b.toNat ≤ a.toNat) : sub? a b = some (a - b) := by
  unfold sub?
  rw [if_neg]
  rw [UInt64.lt_iff_toNat_lt]
  omega

theorem toNat_add_of_lt {a b : UInt64} (h : a.toNat + b.toNat < 2 ^ 64)
    : (a + b).toNat = a.toNat + b.toNat := by
  rw [UInt64.toNat_add]
  apply Nat.mod_eq_of_lt h

theorem toNat_add_ofNat {a : UInt64} {n : Nat} (h : a.toNat + n < 2 ^ 64)
    : (a + .ofNat n).toNat = a.toNat + n := by
  have hn : (UInt64.ofNat n).toNat = n := by
    apply UInt64.toNat_ofNat_of_lt'
    apply Nat.lt_of_le_of_lt (Nat.le_add_left n a.toNat) h
  rw [toNat_add_of_lt, hn]
  rw [hn]
  exact h

theorem toNat_ite_sub (a b : UInt64)
    : (if a > b then a - b else 0).toNat = a.toNat - b.toNat := by
  split
  . next h =>
    have := UInt64.lt_iff_toNat_lt.mp h
    apply toNat_sub_of_toNat_le
    omega
  . next h =>
    have := mt UInt64.lt_iff_toNat_lt.mpr h
    simp only [UInt64.toNat_zero]
    omega

theorem add_distance (h t : UInt64) : (t.toNat + (h - t).toNat) % 2 ^ 64 = h.toNat := by
  have := UInt64.toNat_lt h
  have := UInt64.toNat_lt t
  rw [UInt64.toNat_sub]
  omega

theorem distance_add (h t k : UInt64) (hk : (h - t).toNat + k.toNat < 2 ^ 64)
    : (h + k - t).toNat = (h - t).toNat + k.toNat := by
  have := UInt64.toNat_lt h
  have := UInt64.toNat_lt t
  rw [UInt64.toNat_sub] at hk ⊢
  rw [UInt64.toNat_sub, UInt64.toNat_add]
  omega

theorem distance_sub (h t k : UInt64) (hk : k.toNat ≤ (h - t).toNat)
    : (h - (t + k)).toNat = (h - t).toNat - k.toNat := by
  have := UInt64.toNat_lt h
  have := UInt64.toNat_lt t
  rw [UInt64.toNat_sub] at hk ⊢
  rw [UInt64.toNat_sub, UInt64.toNat_add]
  omega

theorem distance_ofNat (H T : Nat) (hle : T ≤ H) (hlt : H - T < 2 ^ 64)
    : (UInt64.ofNat H - UInt64.ofNat T).toNat = H - T := by
  rw [UInt64.toNat_sub, UInt64.toNat_ofNat', UInt64.toNat_ofNat']
  omega

/--
`std::has_single_bit`
-/
def hasSingleBit (n : UInt64) : Bool :=
  n != 0 && (n &&& (n - 1)) == 0

theorem hasSingleBit_iff (n : UInt64) : hasSingleBit n = true ↔ ∃ b, n.toNat = 2 ^ b := by
  have hone : ∀ h : n ≠ 0, (n - 1).toNat = n.toNat - 1 := by
    intro h
    apply toNat_sub_of_toNat_le
    have := mt (eq_zero_iff_toNat n).mpr h
    simp only [UInt64.toNat_one]
    omega
  simp only [hasSingleBit, Bool.and_eq_true, bne_iff_ne, beq_iff_eq, ne_eq]
  constructor
  . intro h
    rcases h with ⟨hne, hand⟩
    rw [eq_zero_iff_toNat, UInt64.toNat_and, hone hne] at hand
    exact (Nat.and_sub_one_eq_zero_iff_isPowerOfTwo (mt (eq_zero_iff_toNat n).mpr hne)).mp hand
  . intro h
    rcases h with ⟨b, hb⟩
    have hne : n ≠ 0 := by
      intro h
      rw [eq_zero_iff_toNat] at h
      have := Nat.two_pow_pos b
      omega
    refine ⟨hne, ?_⟩
    rw [eq_zero_iff_toNat, UInt64.toNat_and, hone hne]
    exact (Nat.and_sub_one_eq_zero_iff_isPowerOfTwo (mt (eq_zero_iff_toNat n).mpr hne)).mpr ⟨b, hb⟩

theorem dvd_of_two_pow {n : UInt64} {b : Nat} (h : n.toNat = 2 ^ b) : n.toNat ∣ 2 ^ 64 := by
  rw [h]
  apply Nat.pow_dvd_pow
  have hlt := UInt64.toNat_lt n
  rw [h] at hlt
  apply Nat.le_of_lt ((Nat.pow_lt_pow_iff_right (by omega)).mp hlt)

theorem toNat_and_mask (x n : UInt64) (b : Nat) (h : n.toNat = 2 ^ b)
    : (x &&& (n - 1)).toNat = x.toNat % n.toNat := by
  have hpos := Nat.two_pow_pos b
  have hone : (n - 1).toNat = 2 ^ b - 1 := by
    rw [toNat_sub_of_toNat_le] <;> simp only [UInt64.toNat_one] <;> omega
  rw [UInt64.toNat_and, hone, Nat.and_two_pow_sub_one_eq_mod, h]

end Word
