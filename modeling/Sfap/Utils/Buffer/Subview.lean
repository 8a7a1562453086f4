import Sfap.Utils.Buffer.Lemmas

/-!
This module contains when the subviews of `Buffer` stay inside the bytes in use, and when its two overloads agree.
-/

namespace Sfap

def StaysInside (heap : Heap) (stored : ByteSpan) (start : SizeT) (sub : Option ByteSpan) : Prop :=
  ∀ view, sub = some view →
    stored.data.isSome = true ∧ start.toNat + view.size.toNat ≤ stored.size.toNat
      ∧ heap.bytes view = ((heap.bytes stored).drop start.toNat).take view.size.toNat

theorem bytes_inside {heap : Heap} {p : Ptr} {size start count : SizeT}
    (h : start.toNat + count.toNat ≤ size.toNat)
    : heap.bytes ⟨some (p.add start.toNat), count⟩
        =
      ((heap.bytes ⟨some p, size⟩).drop start.toNat).take count.toNat := by
  apply Memory.load_add
  exact h

namespace Buffer

/--
The end of the range that is asked for does not wrap, or there is nothing to hand out anyway.
-/
def RangeFits (stored : ByteSpan) (start count : SizeT) : Prop :=
  stored.data = none ∨ stored.size.toNat < start.toNat ∨ start.toNat + count.toNat < 2 ^ 64

variable {heap : Heap} {b : Buffer} {p : Ptr} {start count : SizeT}

theorem staysInside_of_none {stored : ByteSpan} : StaysInside heap stored start none := by
  intro view hview
  simp at hview

theorem staysInside_some (hp : b.data = some p)
    : StaysInside heap b.view start (some ⟨some (p.add start.toNat), count⟩)
        ↔
      start.toNat + count.toNat ≤ b.size.toNat := by
  rw [view_eq hp]
  constructor
  . intro h
    exact (h _ rfl).2.1
  . intro h view hview
    cases hview
    exact ⟨rfl, h, bytes_inside h⟩

theorem subviewMut_staysInside : StaysInside heap b.view start (b.subviewMut start count) := by
  unfold subviewMut
  split
  . apply staysInside_of_none
  . next p hp =>
    split
    . apply staysInside_of_none
    . next hstart =>
      split
      . apply staysInside_of_none
      . next hcount =>
        rw [gt_iff_lt, UInt64.lt_iff_toNat_lt] at hstart hcount
        rw [Word.toNat_sub_of_toNat_le (by omega)] at hcount
        rw [staysInside_some hp]
        omega

theorem subview_staysInside_iff
    : StaysInside heap b.view start (b.subview start count) ↔ RangeFits b.view start count := by
  unfold subview
  split
  . next hp =>
    rw [view_null hp]
    constructor
    . intro _
      exact Or.inl rfl
    . intro _
      apply staysInside_of_none
  . next p hp =>
    have hfits : RangeFits b.view start count
        ↔ b.size.toNat < start.toNat ∨ start.toNat + count.toNat < 2 ^ 64 := by
      unfold RangeFits
      rw [view_eq hp]
      simp
    have hsize := UInt64.toNat_lt b.size
    have hstart' := UInt64.toNat_lt start
    have hcount' := UInt64.toNat_lt count
    rw [hfits]
    split
    . next hstart =>
      rw [gt_iff_lt, UInt64.lt_iff_toNat_lt] at hstart
      constructor
      . intro _
        exact Or.inl hstart
      . intro _
        apply staysInside_of_none
    . next hstart =>
      rw [gt_iff_lt, UInt64.lt_iff_toNat_lt] at hstart
      split
      . next hzero =>
        rw [beq_iff_eq, Word.eq_zero_iff_toNat] at hzero
        rw [staysInside_some hp, Word.toNat_sub_of_toNat_le (by omega)]
        omega
      . split
        . next hguard =>
          rw [gt_iff_lt, UInt64.lt_iff_toNat_lt, UInt64.toNat_add] at hguard
          constructor
          . intro _
            right
            omega
          . intro _
            apply staysInside_of_none
        . next hguard =>
          rw [gt_iff_lt, UInt64.lt_iff_toNat_lt, UInt64.toNat_add] at hguard
          rw [staysInside_some hp]
          omega

-- the range `[start, start + count)` if the stored bytes have it
def range (b : Buffer) (start count : SizeT) : Option ByteSpan :=
  match b.data with
  | none => none
  | some p =>
    if start.toNat + count.toNat ≤ b.size.toNat then
      some ⟨some (p.add start.toNat), count⟩
    else
      none

/--
The range is not empty and its end does not wrap, or it is the empty one at the very end, or there is nothing to
hand out anyway.
-/
def RangeAgrees (b : Buffer) (start count : SizeT) : Prop :=
  b.data = none ∨ b.size.toNat < start.toNat
    ∨ (count = 0 ∧ start = b.size)
    ∨ (count ≠ 0 ∧ start.toNat + count.toNat < 2 ^ 64)

theorem range_of_null (hp : b.data = none) : b.range start count = none := by
  unfold range
  rw [hp]

theorem range_of_le (hp : b.data = some p) (h : start.toNat + count.toNat ≤ b.size.toNat)
    : b.range start count = some ⟨some (p.add start.toNat), count⟩ := by
  unfold range
  rw [hp]
  exact if_pos h

theorem range_of_lt (h : b.size.toNat < start.toNat + count.toNat) : b.range start count = none := by
  unfold range
  split
  . rfl
  . exact if_neg (Nat.not_le.mpr h)

theorem subviewMut_eq_range (b : Buffer) (start count : SizeT)
    : b.subviewMut start count = b.range start count := by
  unfold subviewMut
  split
  . next hp => rw [range_of_null hp]
  . next p hp =>
    split
    . next hstart =>
      rw [gt_iff_lt, UInt64.lt_iff_toNat_lt] at hstart
      rw [range_of_lt (by omega)]
    . next hstart =>
      rw [gt_iff_lt, UInt64.lt_iff_toNat_lt] at hstart
      have hsub := @Word.toNat_sub_of_toNat_le b.size start (by omega)
      split
      . next hcount =>
        rw [gt_iff_lt, UInt64.lt_iff_toNat_lt, hsub] at hcount
        rw [range_of_lt (by omega)]
      . next hcount =>
        rw [gt_iff_lt, UInt64.lt_iff_toNat_lt, hsub] at hcount
        rw [range_of_le hp (by omega)]

theorem subview_eq_range_iff (b : Buffer) (start count : SizeT)
    : b.subview start count = b.range start count ↔ RangeAgrees b start count := by
  have hsize := UInt64.toNat_lt b.size
  have hcount' := UInt64.toNat_lt count
  unfold subview RangeAgrees
  split
  . next hp => simp [hp, range_of_null hp]
  . next p hp =>
    split
    . next hstart =>
      rw [gt_iff_lt, UInt64.lt_iff_toNat_lt] at hstart
      rw [range_of_lt (by omega)]
      simp [hstart]
    . next hstart =>
      rw [gt_iff_lt, UInt64.lt_iff_toNat_lt] at hstart
      split
      . next hzero =>
        rw [beq_iff_eq] at hzero
        subst hzero
        rw [range_of_le hp (by rw [UInt64.toNat_zero]; omega)]
        have hrest : b.size - start = 0 ↔ start = b.size := by
          rw [Word.eq_zero_iff_toNat, Word.toNat_sub_of_toNat_le (by omega), ← UInt64.toNat_inj]
          omega
        simp [hp, hstart, hrest]
      . next hzero =>
        rw [beq_iff_eq] at hzero
        have hcount : RangeAgrees b start count ↔ start.toNat + count.toNat < 2 ^ 64 := by
          simp [RangeAgrees, hp, hstart, hzero]
        unfold RangeAgrees at hcount
        rw [hcount]
        split
        . next hguard =>
          rw [gt_iff_lt, UInt64.lt_iff_toNat_lt, UInt64.toNat_add] at hguard
          rw [range_of_lt (by omega)]
          simp only [true_iff]
          omega
        . next hguard =>
          rw [gt_iff_lt, UInt64.lt_iff_toNat_lt, UInt64.toNat_add] at hguard
          by_cases hwrap : start.toNat + count.toNat < 2 ^ 64
          . rw [range_of_le hp (by omega)]
            exact iff_of_true rfl hwrap
          . rw [range_of_lt (by omega)]
            exact iff_of_false (Option.some_ne_none _) hwrap

/--
Both overloads hand out exactly the range that is asked for, unless it is an empty one before the end or its end
wraps.
-/
theorem subviews_agree_iff (b : Buffer) (start count : SizeT)
    : (b.subviewMut start count = b.range start count ∧ b.subview start count = b.range start count)
        ↔
      RangeAgrees b start count := by
  rw [← subview_eq_range_iff]
  exact and_iff_right (subviewMut_eq_range b start count)

-- an empty range at the beginning of one stored byte
theorem subviews_differ_at_zero
    : let b := ((ofCapacity Memory.empty 2 (some fun _ => 7)).1.resize 1).2
      b.subviewMut 0 0 = some ⟨some ⟨0, 0⟩, 0⟩ ∧ b.subview 0 0 = some ⟨some ⟨0, 0⟩, 1⟩
        ∧ b.subviewMut 1 18446744073709551615 = none
        ∧ b.subview 1 18446744073709551615 = some ⟨some ⟨0, 1⟩, 18446744073709551615⟩ := by
  decide

end Buffer

end Sfap
