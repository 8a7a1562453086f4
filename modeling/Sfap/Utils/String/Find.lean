import Sfap.Utils.Buffer.Find
import Sfap.Utils.String.Simulation

/-!
This module contains what `String::find` finds: the scan takes the terminator for part of the content.
-/

namespace Sfap

namespace String

def FindsFirst (heap : Heap) (s : String) (pattern : Source) (start : SizeT) : Prop :=
  (∀ i, s.find heap pattern start = some i
      ↔ Search.First pattern.bytes (heap.bytes s.view) start.toNat i.toNat)
    ∧ (s.find heap pattern start = none
      ↔ ∀ i, start.toNat ≤ i → ¬ Search.Occurs pattern.bytes (heap.bytes s.view) i)

/--
The guard lets the search start, and the pattern is the end of the content with the terminator.
-/
def EndsWithTerminator (content pattern : List Byte) (start : Nat) : Prop :=
  start + pattern.length ≤ content.length
    ∧ pattern = content.drop (content.length + 1 - pattern.length) ++ [0]

variable {heap : Heap} {s : String} {p : Ptr} {pattern : Source} {start : SizeT}

theorem load_size_eq (hok : s.Ok heap) (hp : s.data.data = some p)
    : heap.load p s.data.size.toNat = heap.bytes s.view ++ [0] := by
  have hused := hok.used p hp
  have hlast : s.data.size.toNat - 1 + 1 = s.data.size.toNat := by omega
  have hlength := ((hok.backs p hp).mono s.data.size_le).length_load
  have hsplit := List.take_add_one (l := heap.load p s.data.size.toNat) (i := s.data.size.toNat - 1)
  rw [hlast, List.take_of_length_le (by omega), hok.terminator p hp] at hsplit
  rw [hsplit, Memory.take_load (by omega), bytes_view hp, toNat_size hok hp]
  rfl

theorem find_out_of_range (hok : s.Ok heap) (hp : s.data.data = some p)
    (h : s.size.toNat < start.toNat + pattern.bytes.length)
    : s.find heap pattern start = none := by
  have hused := hok.used p hp
  have hsize := toNat_size hok hp
  unfold find
  split
  . rfl
  . split
    . rfl
    . next hguard =>
      rw [gt_iff_lt, UInt64.lt_iff_toNat_lt, UInt64.toNat_add, pattern.toNat_size] at hguard
      apply Buffer.find_out_of_range
      have := UInt64.toNat_lt s.size
      have := s.data.size.toNat_lt
      omega

theorem find_in_range (hok : s.Ok heap) (hp : s.data.data = some p) (hne : pattern.bytes ≠ [])
    (h : start.toNat + pattern.bytes.length ≤ s.size.toNat)
    : (s.find heap pattern start).map UInt64.toNat
        =
      Search.searchFrom pattern.bytes (heap.bytes s.view ++ [0]) start.toNat := by
  have hguard : ¬ start + pattern.size > s.size := by
    have := UInt64.toNat_lt s.size
    rw [gt_iff_lt, UInt64.lt_iff_toNat_lt, Word.toNat_add_of_lt] <;> rw [pattern.toNat_size] <;> omega
  unfold find
  rw [isValid_of_data hp, Bool.not_true, if_neg Bool.false_ne_true, if_neg hguard,
    Buffer.find_eq_searchFrom heap s.data hne start, Buffer.bytes_view hp, load_size_eq hok hp]

theorem findChar_eq_find (hok : s.Ok heap) (hp : s.data.data = some p) (c : Byte)
    : s.findChar heap c start = s.find heap (.single c) start := by
  have hlength : (Source.single c).bytes.length = 1 := rfl
  unfold findChar
  rw [isValid_of_data hp, Bool.not_true, if_neg Bool.false_ne_true]
  split
  . next hge =>
    rw [ge_iff_le, UInt64.le_iff_toNat_le] at hge
    rw [find_out_of_range hok hp]
    omega
  . next hlt =>
    rw [ge_iff_le, UInt64.le_iff_toNat_le] at hlt
    have hguard : ¬ start + (Source.single c).size > s.size := by
      have := UInt64.toNat_lt s.size
      rw [gt_iff_lt, UInt64.lt_iff_toNat_lt, Word.toNat_add_of_lt] <;>
        rw [Source.toNat_size, hlength] <;> omega
    unfold find
    rw [isValid_of_data hp, Bool.not_true, if_neg Bool.false_ne_true, if_neg hguard]
    apply Buffer.findByte_eq_find

theorem length_view (hok : s.Ok heap) (hp : s.data.data = some p)
    : (heap.bytes s.view).length = s.size.toNat := by
  rw [bytes_view hp]
  apply length_load_size hok hp

theorem findsFirst_iff (hok : s.Ok heap) (hp : s.data.data = some p) (hne : pattern.bytes ≠ [])
    : FindsFirst heap s pattern start
        ↔
      (EndsWithTerminator (heap.bytes s.view) pattern.bytes start.toNat →
        ∃ i, start.toNat ≤ i ∧ Search.Occurs pattern.bytes (heap.bytes s.view) i) := by
  have hlength := length_view hok hp
  rcases Nat.lt_or_ge s.size.toNat (start.toNat + pattern.bytes.length) with hout | hin
  . have habsent : ∀ i, start.toNat ≤ i → ¬ Search.Occurs pattern.bytes (heap.bytes s.view) i := by
      intro i hi hocc
      have := hocc.1
      omega
    unfold FindsFirst EndsWithTerminator
    rw [find_out_of_range hok hp hout, hlength]
    constructor
    . intro _ hends
      omega
    . intro _
      refine ⟨?_, ?_⟩
      . intro i
        simp only [reduceCtorEq, false_iff]
        intro hfirst
        apply habsent _ hfirst.le hfirst.occurs
      . simp only [true_iff]
        exact habsent
  . have hsearch := find_in_range hok hp hne hin
    have hsome : ∀ i, s.find heap pattern start = some i
        ↔ Search.First pattern.bytes (heap.bytes s.view ++ [0]) start.toNat i.toNat := by
      intro i
      rw [← Search.searchFrom_eq_some_iff hne, ← hsearch, Option.map_eq_some_iff]
      simp only [UInt64.toNat_inj, exists_eq_right]
    have hnone : s.find heap pattern start = none
        ↔ ∀ i, start.toNat ≤ i → ¬ Search.Occurs pattern.bytes (heap.bytes s.view ++ [0]) i := by
      rw [← Search.searchFrom_eq_none_iff hne, ← hsearch, Option.map_eq_none_iff]
    constructor
    . intro hfinds hends
      by_contra habsent
      simp only [not_exists, not_and] at habsent
      have hnot := hnone.mp (hfinds.2.mpr habsent)
      have hpos := List.length_pos_of_ne_nil hne
      apply hnot ((heap.bytes s.view).length + 1 - pattern.bytes.length)
      . have := hends.1
        omega
      . rw [Search.occurs_concat hne]
        right
        refine ⟨?_, hends.2⟩
        have := hends.1
        omega
    . intro hcond
      have hend : pattern.bytes = (heap.bytes s.view).drop
          ((heap.bytes s.view).length + 1 - pattern.bytes.length) ++ [0] →
          ∃ i, start.toNat ≤ i ∧ Search.Occurs pattern.bytes (heap.bytes s.view) i := by
        intro heq
        apply hcond ⟨_, heq⟩
        omega
      refine ⟨?_, ?_⟩
      . intro i
        rw [hsome, Search.first_concat hne hend]
      . rw [hnone, Search.absent_concat hne hend]

theorem find_sees_content_iff {heap : Heap} {trace : List (Op × Out)} {w : World} {v : Nat}
    {s : String} (hrun : Transition.Run (Transition.ofStep World.step) (World.init heap) trace w)
    (hs : w.strings v = some s) (hvalid : s.isValid = true) (start : SizeT)
    : (∀ pattern : Source, pattern.bytes ≠ [] →
          (FindsFirst w.heap s pattern start
              ↔
            (EndsWithTerminator (w.heap.bytes s.view) pattern.bytes start.toNat →
              ∃ i, start.toNat ≤ i ∧ Search.Occurs pattern.bytes (w.heap.bytes s.view) i)))
        ∧
      ∀ c, s.findChar w.heap c start = s.find w.heap (.single c) start := by
  have hok := World.run_ok hrun hs
  rcases Option.isSome_iff_exists.mp hvalid with ⟨p, hp⟩
  constructor
  . intro pattern hne
    apply findsFirst_iff hok hp hne
  . intro c
    apply findChar_eq_find hok hp c

theorem find_sees_content_of_char
    : ∃ trace w s, Transition.Run (Transition.ofStep World.step) (World.init Memory.empty) trace w
        ∧ w.strings 0 = some s ∧ FindsFirst w.heap s (.single 98) 0
        ∧ s.findChar w.heap 98 0 = s.find w.heap (.single 98) 0 := by
  let ops : List Op := [.ofView 0 ⟨[97, 98], by decide⟩ (some fun _ => 7)]
  have hexec : ((Transition.exec World.step (World.init Memory.empty) ops).map fun r =>
      (r.1.strings 0).map fun s => (s.isValid, r.1.heap.bytes s.view))
        = some (some (true, [97, 98])) := by decide
  rcases Option.map_eq_some_iff.mp hexec with ⟨⟨w, outs⟩, hexec, heq⟩
  rcases Option.map_eq_some_iff.mp heq with ⟨s, hs, hview⟩
  simp only [Prod.mk.injEq] at hview
  have hrun := Transition.run_of_exec hexec
  have hfind := find_sees_content_iff hrun hs hview.1 0
  refine ⟨_, w, s, hrun, hs, ?_, hfind.2 98⟩
  rw [hfind.1 (.single 98) (by simp [Source.single]), hview.2]
  intro hends
  exact absurd hends.2 (by decide)

-- `"ab"` is searched for `"b\0"`
theorem find_matches_terminator
    : ¬ ∀ trace w v s (pattern : Source) start,
        Transition.Run (Transition.ofStep World.step) (World.init Memory.empty) trace w →
        w.strings v = some s → s.isValid = true → pattern.bytes ≠ [] →
        FindsFirst w.heap s pattern start := by
  intro h
  let ops : List Op := [.ofView 0 ⟨[97, 98], by decide⟩ (some fun _ => 7)]
  have hexec : ((Transition.exec World.step (World.init Memory.empty) ops).map fun r =>
      (r.1.strings 0).map fun s =>
        (s.isValid, s.find r.1.heap ⟨[98, 0], by decide⟩ 0, r.1.heap.bytes s.view))
        = some (some (true, some 1, [97, 98])) := by decide
  rcases Option.map_eq_some_iff.mp hexec with ⟨⟨w, outs⟩, hexec, heq⟩
  rcases Option.map_eq_some_iff.mp heq with ⟨s, hs, hview⟩
  simp only [Prod.mk.injEq] at hview
  have hfinds := h _ w 0 s ⟨[98, 0], by decide⟩ 0 (Transition.run_of_exec hexec) hs hview.1 (by simp)
  have hocc := ((hfinds.1 1).mp hview.2.1).occurs
  rw [hview.2.2] at hocc
  exact absurd hocc.1 (by decide)

end String

end Sfap
