import Sfap.Utils.Buffer.Impl

/-!
This module contains the basic facts about the operations of `Buffer`.
-/

namespace Sfap

namespace Buffer

variable (b : Buffer)

def withSize (n : SizeT) (h : n.toNat ≤ b.capacity.toNat) : Buffer :=
  { b with size := n, wellFormed := ⟨h, b.wellFormed.2⟩ }

section WithSize

variable {n : SizeT} (h : n.toNat ≤ b.capacity.toNat)

@[simp]
theorem data_withSize : (b.withSize n h).data = b.data := by
  rfl

@[simp]
theorem capacity_withSize : (b.withSize n h).capacity = b.capacity := by
  rfl

@[simp]
theorem size_withSize : (b.withSize n h).size = n := by
  rfl

theorem resize_eq : b.resize n = (true, b.withSize n h) := by
  unfold resize
  rw [dif_neg]
  . rfl
  . rw [gt_iff_lt, UInt64.lt_iff_toNat_lt]
    omega

end WithSize

theorem size_le : b.size.toNat ≤ b.capacity.toNat := by
  exact b.wellFormed.1

theorem isValid_of_data {p : Ptr} (h : b.data = some p) : b.isValid = true := by
  unfold isValid
  simp [h]

theorem isValid_of_null (h : b.data = none) : b.isValid = false := by
  unfold isValid
  simp [h]

section View

variable {b} {heap : Heap} {p : Ptr}

theorem view_eq (hp : b.data = some p) : b.view = ⟨some p, b.size⟩ := by
  unfold view
  rw [if_pos (b.isValid_of_data hp), hp]

theorem view_null (hp : b.data = none) : b.view = ⟨none, 0⟩ := by
  unfold view
  rw [if_neg]
  rw [b.isValid_of_null hp]
  exact Bool.false_ne_true

theorem bytes_view (hp : b.data = some p) : heap.bytes b.view = heap.load p b.size.toNat := by
  rw [view_eq hp]
  rfl

theorem bytes_view_null (hp : b.data = none) : heap.bytes b.view = [] := by
  rw [view_null hp]
  rfl

theorem getElem?_load {n : Nat} {i : SizeT} (hp : b.data = some p) (hbacks : heap.Backs p n) (hi : i.toNat < n)
    : (heap.load p n)[i.toNat]? = some (b.loadAt heap i) := by
  have hlt : i.toNat < (heap.load p n).length := by
    rw [hbacks.length_load]
    exact hi
  have hone := heap.load_add (p := p) (n := n) (i := i.toNat) (k := 1) (by omega)
  unfold loadAt
  rw [hp]
  dsimp only
  rw [hone, List.drop_eq_getElem_cons hlt, List.getElem?_eq_getElem hlt]
  rfl

theorem atIndex_eq (hp : b.data = some p) (hbacks : heap.Backs p b.size.toNat) (i : SizeT)
    : b.atIndex heap i = (heap.bytes b.view)[i.toNat]? := by
  unfold atIndex
  rw [bytes_view hp, if_neg (by simp [isValid_of_data b hp])]
  split
  . next hge =>
    rw [List.getElem?_eq_none]
    rw [hbacks.length_load]
    exact UInt64.le_iff_toNat_le.mp hge
  . next hlt =>
    rw [ge_iff_le, UInt64.le_iff_toNat_le, Nat.not_le] at hlt
    rw [getElem?_load hp hbacks hlt]

theorem length_view_le (heap : Heap) (b : Buffer) : (heap.bytes b.view).length ≤ b.size.toNat := by
  cases hp : b.data with
  | none =>
    rw [bytes_view_null hp]
    apply Nat.zero_le
  | some p =>
    rw [bytes_view hp]
    apply Memory.length_load_le

end View

theorem capacity_of_null (hp : b.data = none) : b.capacity.toNat = 0 := by
  rw [b.wellFormed.2 hp]
  rfl

theorem size_of_null (hp : b.data = none) : b.size = 0 := by
  have hle := b.size_le
  rw [b.capacity_of_null hp] at hle
  rw [Word.eq_zero_iff_toNat]
  apply Nat.eq_zero_of_le_zero hle

theorem copyAt_eq (heap : Heap) {p : Ptr} (h : b.data = some p) (i : SizeT) (bytes : List Byte)
    : b.copyAt heap i bytes = heap.store (p.add i.toNat) bytes := by
  unfold copyAt
  rw [h]

theorem storeAt_eq (heap : Heap) {p : Ptr} (h : b.data = some p) (i : SizeT) (c : Byte)
    : b.storeAt heap i c = heap.store (p.add i.toNat) [c] := by
  unfold storeAt
  rw [h]

theorem ofCapacity_cases (heap : Heap) (capacity : SizeT) (garbage : Option (Nat → Byte))
    : (∃ g p, garbage = some g ∧ 0 < capacity.toNat ∧ capacity.toNat ≤ ptrdiffMax
          ∧ (ofCapacity heap capacity garbage).1.data = some p
          ∧ (ofCapacity heap capacity garbage).1.capacity = capacity
          ∧ (ofCapacity heap capacity garbage).1.size = 0
          ∧ p.block = heap.next
          ∧ (ofCapacity heap capacity garbage).2.Backs p capacity.toNat
          ∧ ∀ q < heap.next, (ofCapacity heap capacity garbage).2.blocks q = heap.blocks q)
        ∨
      (¬ (garbage.isSome = true ∧ 0 < capacity.toNat ∧ capacity.toNat ≤ ptrdiffMax)
          ∧ (ofCapacity heap capacity garbage).1.data = none
          ∧ (ofCapacity heap capacity garbage).2 = heap) := by
  unfold ofCapacity
  by_cases hzero : capacity = 0
  . right
    simp [hzero]
  . have hpos : 0 < capacity.toNat := by
      have := mt (Word.eq_zero_iff_toNat capacity).mpr hzero
      omega
    cases garbage with
    | none =>
      right
      simp [hzero, Heap.newBytes]
    | some g =>
      by_cases hmax : capacity.toNat ≤ ptrdiffMax
      . left
        have hbacks := heap.alloc_backs ((List.range capacity.toNat).map g)
        rw [List.length_map, List.length_range] at hbacks
        refine ⟨g, (heap.alloc ((List.range capacity.toNat).map g)).1, rfl, hpos, hmax, ?_⟩
        simp only [bne_iff_ne, ne_eq, hzero, not_false_eq_true, ↓reduceIte, Heap.newBytes, hmax,
          Option.isSome_some, true_and]
        refine ⟨rfl, hbacks, ?_⟩
        intro q hq
        apply heap.alloc_blocks _ hq
      . right
        simp [hzero, Heap.newBytes, hmax]

theorem destroy_blocks (heap : Heap) {q : Nat} (hq : ∀ p, b.data = some p → q ≠ p.block)
    : (b.destroy heap).blocks q = heap.blocks q := by
  unfold destroy
  split
  . unfold Heap.deleteBytes
    split
    . rfl
    . next p hp => exact Memory.free_blocks heap (hq p hp)
  . rfl

end Buffer

end Sfap
