import Sfap.Utils.Buffer.World

/-!
This module contains when `operator==` of `Buffer` is the equality of contents.
-/

namespace Sfap

namespace Buffer

-- the sizes are equal, and the used bytes are position by position
def SameContent (heap : Heap) (a b : Buffer) : Prop :=
  a.size = b.size ∧ ∀ i < a.size.toNat, (heap.bytes a.view)[i]? = (heap.bytes b.view)[i]?

def Comparable (a b : Buffer) : Prop :=
  a.isValid = b.isValid ∨ a.size ≠ b.size

variable {heap : Heap} {a b : Buffer}

theorem sameContent_iff : SameContent heap a b ↔ a.size = b.size ∧ heap.bytes a.view = heap.bytes b.view := by
  unfold SameContent
  apply and_congr_right
  intro hsize
  constructor
  . intro h
    apply List.ext_getElem?
    intro i
    rcases Nat.lt_or_ge i a.size.toNat with hlt | hge
    . apply h i hlt
    . have hle := length_view_le heap a
      have hle' := length_view_le heap b
      rw [← hsize] at hle'
      rw [List.getElem?_eq_none (by omega), List.getElem?_eq_none (by omega)]
  . intro h i _
    rw [h]

theorem sameContent_equivalence (heap : Heap) : Equivalence (SameContent heap) where
  refl a := ⟨rfl, fun _ _ => rfl⟩
  symm h := by
    rw [sameContent_iff] at h ⊢
    exact ⟨h.1.symm, h.2.symm⟩
  trans h h' := by
    rw [sameContent_iff] at h h' ⊢
    exact ⟨h.1.trans h'.1, h.2.trans h'.2⟩

theorem sameContent_of_data (hsize : a.size = b.size) (hdata : a.data = b.data) : SameContent heap a b := by
  rw [sameContent_iff]
  refine ⟨hsize, ?_⟩
  unfold view isValid
  rw [hsize, hdata]

theorem sameContent_of_empty (ha : a.size = 0) (hb : b.size = 0) : SameContent heap a b := by
  refine ⟨ha.trans hb.symm, ?_⟩
  intro i hi
  rw [ha] at hi
  exact absurd hi (Nat.not_lt_zero i)

theorem eq_iff (heap : Heap) (a b : Buffer)
    : a.eq heap b = true ↔ SameContent heap a b ∧ a.isValid = b.isValid := by
  unfold eq
  split
  . next hsize =>
    rw [bne_iff_ne] at hsize
    simp [SameContent, hsize]
  . next hsize =>
    have hsize : a.size = b.size := by simpa using hsize
    split
    . next hdata =>
      rw [beq_iff_eq] at hdata
      refine iff_of_true rfl ⟨sameContent_of_data hsize hdata, ?_⟩
      unfold isValid
      rw [hdata]
    . next hdata =>
      cases hp : a.data with
      | none =>
        cases hq : b.data with
        | none => simp [hp, hq] at hdata
        | some q => simp [a.isValid_of_null hp, b.isValid_of_data hq]
      | some p =>
        cases hq : b.data with
        | none => simp [a.isValid_of_data hp, b.isValid_of_null hq]
        | some q =>
          dsimp only
          rw [beq_iff_eq, sameContent_iff, bytes_view hp, bytes_view hq, a.isValid_of_data hp,
            b.isValid_of_data hq, hsize]
          simp

theorem size_of_invalid (h : a.isValid = false) : a.size = 0 := by
  apply size_of_null
  unfold isValid at h
  simpa using h

theorem sameContent_of_not_comparable (h : ¬ Comparable a b) : SameContent heap a b := by
  unfold Comparable at h
  rw [not_or, not_not] at h
  rcases h with ⟨hvalid, hsize⟩
  cases ha : a.isValid with
  | false =>
    have hzero := size_of_invalid ha
    exact sameContent_of_empty hzero (hsize ▸ hzero)
  | true =>
    have hb : b.isValid = false := by
      rw [ha] at hvalid
      simpa using hvalid
    have hzero := size_of_invalid hb
    exact sameContent_of_empty (hsize.trans hzero) hzero

/--
`operator==` compares contents, except for an empty buffer and a null one, which it tells apart. It is an equivalence
all the same, and where it leaves early for one pointer the contents are equal.
-/
theorem eq_sameContent_iff (heap : Heap)
    : (∀ a b : Buffer, (a.eq heap b = true ↔ SameContent heap a b) ↔ Comparable a b)
        ∧ (Equivalence fun a b : Buffer => a.eq heap b = true)
        ∧ ∀ a b : Buffer, a.size = b.size → a.data = b.data → a.eq heap b = true ∧ SameContent heap a b := by
  have hequiv := sameContent_equivalence heap
  refine ⟨?_, ⟨?_, ?_, ?_⟩, ?_⟩
  . intro a b
    rw [eq_iff]
    constructor
    . intro h
      by_contra hnot
      have hsame : SameContent heap a b := sameContent_of_not_comparable hnot
      exact hnot (.inl (h.mpr hsame).2)
    . rintro (hvalid | hsize)
      . exact and_iff_left hvalid
      . exact iff_of_false (fun h => hsize h.1.1) (fun h => hsize h.1)
  . intro a
    rw [eq_iff]
    exact ⟨hequiv.refl a, rfl⟩
  . intro a b h
    rw [eq_iff] at h ⊢
    exact ⟨hequiv.symm h.1, h.2.symm⟩
  . intro a b c h h'
    rw [eq_iff] at h h' ⊢
    exact ⟨hequiv.trans h.1 h'.1, h.2.trans h'.2⟩
  . intro a b hsize hdata
    have hsame : SameContent heap a b := sameContent_of_data hsize hdata
    rw [eq_iff]
    refine ⟨⟨hsame, ?_⟩, hsame⟩
    unfold isValid
    rw [hdata]

-- a buffer without capacity, and one that nothing has been put into
theorem eq_tells_null_from_empty
    : ∃ trace w a b, Transition.Run (Transition.ofStep World.step) (World.init Memory.empty) trace w
        ∧ w.buffers 0 = some a ∧ w.buffers 1 = some b
        ∧ SameContent w.heap a b ∧ a.eq w.heap b = false := by
  let ops : List Op := [.ofCapacity 0 0 (some fun _ => 7), .ofCapacity 1 4 (some fun _ => 7)]
  have hexec : ((Transition.exec World.step (World.init Memory.empty) ops).map fun r =>
      ((r.1.buffers 0).bind fun a => (r.1.buffers 1).map fun b => (a.size, b.size, a.eq r.1.heap b)))
        = some (some (0, 0, false)) := by decide
  rcases Option.map_eq_some_iff.mp hexec with ⟨⟨w, outs⟩, hexec, heq⟩
  rcases Option.bind_eq_some_iff.mp heq with ⟨a, ha, heq⟩
  rcases Option.map_eq_some_iff.mp heq with ⟨b, hb, heq⟩
  simp only [Prod.mk.injEq] at heq
  have hsame : SameContent w.heap a b := sameContent_of_empty heq.1 heq.2.1
  exact ⟨_, w, a, b, Transition.run_of_exec hexec, ha, hb, hsame, heq.2.2⟩

end Buffer

end Sfap
