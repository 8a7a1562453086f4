import Sfap.Utils.Buffer.Lemmas

/-!
This module contains the two searches of `Buffer`: they are scans of its used bytes, so they find the first match.
-/

namespace Sfap

namespace Buffer

variable {heap : Heap} {b : Buffer} {p : Ptr} {pattern : Source} {start : SizeT}

theorem load_rest (h : start.toNat ≤ b.size.toNat)
    : heap.load (p.add start.toNat) (b.size - start).toNat
        =
      (heap.load p b.size.toNat).drop start.toNat := by
  have hsub : (b.size - start).toNat = b.size.toNat - start.toNat := by
    apply Word.toNat_sub_of_toNat_le h
  have hlength := heap.length_load_le p b.size.toNat
  rw [hsub, Memory.load_add (n := b.size.toNat) (by omega), List.take_of_length_le]
  rw [List.length_drop]
  omega

theorem toNat_size_sub (h : pattern.bytes.length ≤ b.size.toNat)
    : (b.size - pattern.size).toNat = b.size.toNat - pattern.bytes.length := by
  rw [← pattern.toNat_size]
  apply Word.toNat_sub_of_toNat_le
  rw [pattern.toNat_size]
  exact h

theorem find_out_of_range (h : b.size.toNat < start.toNat + pattern.bytes.length)
    : b.find heap pattern start = none := by
  unfold find
  split
  . rfl
  . split
    . rfl
    . split
      . rfl
      . next hle =>
        rw [UInt64.lt_iff_toNat_lt, pattern.toNat_size, Nat.not_lt] at hle
        have hlast := toNat_size_sub hle
        rw [if_pos]
        rw [gt_iff_lt, UInt64.lt_iff_toNat_lt]
        omega

theorem find_in_range (hp : b.data = some p) (hne : pattern.bytes ≠ [])
    (h : start.toNat + pattern.bytes.length ≤ b.size.toNat)
    : b.find heap pattern start
        =
      let range := (heap.load p b.size.toNat).drop start.toNat
      let position := Search.search pattern.bytes range
      if position = range.length then none else some (start + .ofNat position) := by
  have hpos := List.length_pos_of_ne_nil hne
  have hlast : (b.size - pattern.size).toNat = b.size.toNat - pattern.bytes.length := by
    apply toNat_size_sub
    omega
  have hempty : ¬ pattern.empty = true := by
    unfold Source.empty
    rw [beq_iff_eq, Word.eq_zero_iff_toNat, pattern.toNat_size]
    omega
  have hfits : ¬ b.size < pattern.size := by
    rw [UInt64.lt_iff_toNat_lt, pattern.toNat_size]
    omega
  have hstart : ¬ start > b.size - pattern.size := by
    rw [gt_iff_lt, UInt64.lt_iff_toNat_lt]
    omega
  unfold find
  rw [hp]
  dsimp only
  rw [if_neg hempty, if_neg hfits, if_neg hstart, load_rest (by omega)]

theorem find_of_empty (hnil : pattern.bytes = []) : b.find heap pattern start = none := by
  have hempty : pattern.empty = true := by
    unfold Source.empty
    rw [beq_iff_eq, Word.eq_zero_iff_toNat, pattern.toNat_size, hnil]
    rfl
  unfold find
  split
  . rfl
  . exact if_pos hempty

theorem find_eq_searchFrom (heap : Heap) (b : Buffer) (hne : pattern.bytes ≠ []) (start : SizeT)
    : (b.find heap pattern start).map UInt64.toNat
        =
      Search.searchFrom pattern.bytes (heap.bytes b.view) start.toNat := by
  have hlength := length_view_le heap b
  rcases Nat.lt_or_ge b.size.toNat (start.toNat + pattern.bytes.length) with hout | hin
  . have hnone : Search.searchFrom pattern.bytes (heap.bytes b.view) start.toNat = none := by
      rw [Search.searchFrom_eq_none_iff hne]
      intro j hj hocc
      have := hocc.1
      omega
    rw [find_out_of_range hout, hnone]
    rfl
  . cases hp : b.data with
    | none =>
      have hsize := (Word.eq_zero_iff_toNat b.size).mp (b.size_of_null hp)
      have hpos := List.length_pos_of_ne_nil hne
      omega
    | some p =>
      rw [bytes_view hp] at hlength ⊢
      have hle := Search.search_le pattern.bytes ((heap.load p b.size.toNat).drop start.toNat)
      rw [find_in_range hp hne hin]
      unfold Search.searchFrom
      dsimp only
      rw [List.length_drop] at hle ⊢
      split
      . rfl
      . rw [Option.map_some, Option.some.injEq]
        have := UInt64.toNat_lt b.size
        apply Word.toNat_add_ofNat
        omega

theorem findByte_eq_find (c : Byte)
    : b.findByte heap c start = b.find heap (.single c) start := by
  cases hp : b.data with
  | none =>
    unfold findByte find
    rw [hp]
  | some p =>
    rcases Nat.lt_or_ge start.toNat b.size.toNat with hlt | hge
    . have hstart : ¬ start ≥ b.size := by
        rw [ge_iff_le, UInt64.le_iff_toNat_le]
        omega
      rw [find_in_range hp (by simp [Source.single])]
      . unfold findByte
        rw [hp]
        dsimp only [Source.single]
        rw [if_neg hstart, load_rest (by omega)]
        simp only [Search.search_singleton]
      . exact hlt
    . have hstart : start ≥ b.size := by
        rw [ge_iff_le, UInt64.le_iff_toNat_le]
        exact hge
      rw [find_out_of_range]
      . unfold findByte
        rw [hp]
        dsimp only
        rw [if_pos hstart]
      . dsimp only [Source.single, List.length_singleton]
        omega

-- `view()[i .. i + pattern.size())` is the pattern
def MatchesAt (heap : Heap) (b : Buffer) (pattern : Source) (i : Nat) : Prop :=
  i + pattern.bytes.length ≤ b.size.toNat
    ∧ ((heap.bytes b.view).drop i).take pattern.bytes.length = pattern.bytes

theorem matchesAt_iff_occurs (hne : pattern.bytes ≠ []) (i : Nat)
    : b.MatchesAt heap pattern i ↔ Search.Occurs pattern.bytes (heap.bytes b.view) i := by
  have hpos := List.length_pos_of_ne_nil hne
  have hle := length_view_le heap b
  unfold MatchesAt Search.Occurs
  constructor
  . intro h
    refine ⟨?_, h.2⟩
    have hlength := congrArg List.length h.2
    rw [List.length_take, List.length_drop] at hlength
    omega
  . intro h
    exact ⟨Nat.le_trans h.1 hle, h.2⟩

theorem find_eq_some_iff (heap : Heap) (b : Buffer) (pattern : Source) (start i : SizeT)
    : b.find heap pattern start = some i
        ↔
      pattern.bytes ≠ [] ∧ IsLeast {j | start.toNat ≤ j ∧ b.MatchesAt heap pattern j} i.toNat := by
  by_cases hnil : pattern.bytes = []
  . rw [find_of_empty hnil]
    simp [hnil]
  . have hsome : b.find heap pattern start = some i
        ↔ Search.searchFrom pattern.bytes (heap.bytes b.view) start.toNat = some i.toNat := by
      rw [← find_eq_searchFrom heap b hnil start, Option.map_eq_some_iff]
      simp only [UInt64.toNat_inj, exists_eq_right]
    rw [hsome, Search.searchFrom_eq_some_iff hnil, Search.first_iff_isLeast]
    simp only [matchesAt_iff_occurs hnil, ne_eq, hnil, not_false_eq_true, true_and]

theorem find_eq_none_iff (heap : Heap) (b : Buffer) (pattern : Source) (start : SizeT)
    : b.find heap pattern start = none
        ↔
      pattern.bytes = [] ∨ ∀ j, start.toNat ≤ j → ¬ b.MatchesAt heap pattern j := by
  by_cases hnil : pattern.bytes = []
  . rw [find_of_empty hnil]
    simp [hnil]
  . rw [← Option.map_eq_none_iff (f := UInt64.toNat), find_eq_searchFrom heap b hnil start,
      Search.searchFrom_eq_none_iff hnil]
    simp only [matchesAt_iff_occurs hnil, hnil, false_or]

-- from `begin() + from` to `end()`, `none` if that begins behind its end
def rest? (heap : Heap) (b : Buffer) (p : Ptr) (start : SizeT) : Option (List Byte) :=
  (Word.sub? b.size start).map fun length => heap.load (p.add start.toNat) length.toNat

-- the two searches with their differences checked, `none` where one of them wraps
def findByteChecked (heap : Heap) (b : Buffer) (c : Byte) (start : SizeT) : Option (Option SizeT) :=
  match b.data with
  | none => some none
  | some p =>
    if start ≥ b.size then
      some none
    else
      match b.rest? heap p start with
      | none => none
      | some range =>
        let position := range.findIdx (· == c)
        if position = range.length then some none else some (some (start + .ofNat position))

def findChecked (heap : Heap) (b : Buffer) (pattern : Source) (start : SizeT) : Option (Option SizeT) :=
  match b.data with
  | none => some none
  | some p =>
    if pattern.empty then
      some none
    else if b.size < pattern.size then
      some none
    else
      match Word.sub? b.size pattern.size with
      | none => none
      | some last =>
        if start > last then
          some none
        else
          match b.rest? heap p start with
          | none => none
          | some range =>
            let position := Search.search pattern.bytes range
            if position = range.length then some none else some (some (start + .ofNat position))

theorem rest?_eq_some (heap : Heap) (p : Ptr) (h : start.toNat ≤ b.size.toNat)
    : b.rest? heap p start = some (heap.load (p.add start.toNat) (b.size - start).toNat) := by
  unfold rest?
  rw [Word.sub?_eq_some h]
  rfl

theorem findByteChecked_eq (heap : Heap) (b : Buffer) (c : Byte) (start : SizeT)
    : b.findByteChecked heap c start = some (b.findByte heap c start) := by
  unfold findByteChecked findByte
  cases b.data with
  | none => rfl
  | some p =>
    dsimp only
    split
    . rfl
    . next hstart =>
      rw [ge_iff_le, UInt64.le_iff_toNat_le] at hstart
      rw [rest?_eq_some heap p (by omega)]
      dsimp only
      split <;> rfl

theorem findChecked_eq (heap : Heap) (b : Buffer) (pattern : Source) (start : SizeT)
    : b.findChecked heap pattern start = some (b.find heap pattern start) := by
  unfold findChecked find
  cases b.data with
  | none => rfl
  | some p =>
    dsimp only
    split
    . rfl
    . split
      . rfl
      . next hfits =>
        rw [UInt64.lt_iff_toNat_lt, Nat.not_lt] at hfits
        rw [Word.sub?_eq_some hfits]
        dsimp only
        split
        . rfl
        . next hstart =>
          rw [gt_iff_lt, UInt64.lt_iff_toNat_lt, Word.toNat_sub_of_toNat_le hfits] at hstart
          rw [rest?_eq_some heap p (by omega)]
          dsimp only
          split <;> rfl

/--
`find` returns the first match from `start` on, the search for a byte is the one for the pattern of this byte, and
neither of them computes a difference that wraps.
-/
theorem find_returns_first (heap : Heap) (b : Buffer) (start : SizeT)
    : (∀ pattern i, b.find heap pattern start = some i
          ↔
        pattern.bytes ≠ [] ∧ IsLeast {j | start.toNat ≤ j ∧ b.MatchesAt heap pattern j} i.toNat)
        ∧ (∀ pattern, b.find heap pattern start = none
          ↔
        pattern.bytes = [] ∨ ∀ j, start.toNat ≤ j → ¬ b.MatchesAt heap pattern j)
        ∧ (∀ c, b.findByte heap c start = b.find heap (.single c) start)
        ∧ (∀ pattern, b.findChecked heap pattern start = some (b.find heap pattern start))
        ∧ ∀ c, b.findByteChecked heap c start = some (b.findByte heap c start) := by
  refine ⟨?_, ?_, ?_, ?_, ?_⟩
  . intro pattern i
    apply find_eq_some_iff
  . intro pattern
    apply find_eq_none_iff
  . intro c
    apply findByte_eq_find
  . intro pattern
    apply findChecked_eq
  . intro c
    apply findByteChecked_eq

end Buffer

end Sfap
