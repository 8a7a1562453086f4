import Sfap.Utils.Buffer.Subview
import Sfap.Utils.String.Simulation

/-!
This module contains when the subviews of `Buffer` and `String` stay inside what is stored.
-/

namespace Sfap

namespace String

variable {heap : Heap} {s : String} {p : Ptr} {start count : SizeT}

theorem subview_eq_buffer (hok : s.Ok heap) (start count : SizeT)
    : ∃ b : Buffer, b.view = s.view ∧ s.subview start count = b.subview start count := by
  cases hp : s.data.data with
  | none =>
    refine ⟨s.data, ?_, ?_⟩
    . rw [Buffer.view_null hp]
      unfold view
      rw [if_neg]
      rw [isValid_of_null hp]
      exact Bool.false_ne_true
    . unfold subview Buffer.subview
      rw [hp]
  | some p =>
    have hle : s.size.toNat ≤ s.data.capacity.toNat := by
      have := s.data.size_le
      rw [toNat_size hok hp]
      omega
    have hp' : (s.data.withSize s.size hle).data = some p := hp
    refine ⟨s.data.withSize s.size hle, ?_, ?_⟩
    . rw [Buffer.view_eq hp']
      unfold view
      rw [if_pos (isValid_of_data hp), hp]
      rfl
    . unfold subview Buffer.subview
      rw [hp, hp']
      rfl

theorem subview_staysInside_iff (hok : s.Ok heap)
    : StaysInside heap s.view start (s.subview start count)
        ↔
      Buffer.RangeFits s.view start count := by
  rcases subview_eq_buffer hok start count with ⟨b, hview, hsub⟩
  rw [hsub, ← hview]
  apply Buffer.subview_staysInside_iff

end String

theorem subview_inside_iff {heap₀ : Heap} {trace : List (String.Op × String.Out)} {w : String.World}
    {v : Nat} {s : String}
    (hrun : Transition.Run (Transition.ofStep String.World.step) (.init heap₀) trace w)
    (hs : w.strings v = some s) (heap : Heap) (b : Buffer) (start count : SizeT)
    : StaysInside heap b.view start (b.subviewMut start count)
        ∧
      (StaysInside heap b.view start (b.subview start count)
          ↔ Buffer.RangeFits b.view start count)
        ∧
      (StaysInside w.heap s.view start (s.subview start count)
          ↔ Buffer.RangeFits s.view start count) := by
  refine ⟨Buffer.subviewMut_staysInside, Buffer.subview_staysInside_iff, ?_⟩
  apply String.subview_staysInside_iff (String.World.run_ok hrun hs)

theorem subview_inside_of_small
    : ∃ trace w s, Transition.Run (Transition.ofStep String.World.step) (.init Memory.empty) trace w
        ∧ w.strings 0 = some s ∧ s.subview 1 1 = some ⟨some ⟨0, 1⟩, 1⟩
        ∧ StaysInside w.heap s.view 1 (s.subview 1 1)
        ∧ StaysInside w.heap s.data.view 1 (s.data.subview 1 1) := by
  let ops : List String.Op := [.ofView 0 ⟨[97, 98], by decide⟩ (some fun _ => 7)]
  have hexec : ((Transition.exec String.World.step (.init Memory.empty) ops).map fun r =>
      (r.1.strings 0).map fun s => s.subview 1 1) = some (some (some ⟨some ⟨0, 1⟩, 1⟩)) := by decide
  rcases Option.map_eq_some_iff.mp hexec with ⟨⟨w, outs⟩, hexec, heq⟩
  rcases Option.map_eq_some_iff.mp heq with ⟨s, hs, hview⟩
  have hrun := Transition.run_of_exec hexec
  have hinside := subview_inside_iff hrun hs w.heap s.data 1 1
  refine ⟨_, w, s, hrun, hs, hview, ?_, ?_⟩
  . rw [hinside.2.2]
    right
    right
    decide
  . rw [hinside.2.1]
    right
    right
    decide

-- the range wraps for a buffer of one byte and for the string `"a"`
theorem subview_outside_of_wrap
    : let (b, heap) := Buffer.ofCapacity Memory.empty 1 (some fun _ => 7)
      let b := (b.resize 1).2
      (¬ StaysInside heap b.view 1 (b.subview 1 18446744073709551615))
        ∧
      ¬ ∀ trace w v s start count,
          Transition.Run (Transition.ofStep String.World.step) (.init Memory.empty) trace w →
          w.strings v = some s → StaysInside w.heap s.view start (s.subview start count) := by
  constructor
  . intro hinside
    have hsub : (((Buffer.ofCapacity Memory.empty 1 (some fun _ => 7)).1.resize 1).2.subview 1
        18446744073709551615) = some ⟨some ⟨0, 1⟩, 18446744073709551615⟩ := by decide
    exact absurd (hinside _ hsub).2.1 (by decide)
  . intro h
    let ops : List String.Op := [.ofView 0 ⟨[97], by decide⟩ (some fun _ => 7)]
    have hexec : ((Transition.exec String.World.step (.init Memory.empty) ops).map fun r =>
        (r.1.strings 0).map fun s => (s.subview 1 18446744073709551615, s.view))
          = some (some (some ⟨some ⟨0, 1⟩, 18446744073709551615⟩, ⟨some ⟨0, 0⟩, 1⟩)) := by decide
    rcases Option.map_eq_some_iff.mp hexec with ⟨⟨w, outs⟩, hexec, heq⟩
    rcases Option.map_eq_some_iff.mp heq with ⟨s, hs, hview⟩
    simp only [Prod.mk.injEq] at hview
    have hinside := h _ w 0 s 1 18446744073709551615 (Transition.run_of_exec hexec) hs _ hview.1
    rw [hview.2] at hinside
    exact absurd hinside.2.1 (by decide)

end Sfap
