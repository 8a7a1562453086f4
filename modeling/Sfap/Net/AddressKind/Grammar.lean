import Sfap.Lib.Pieces
import Sfap.Utils.Memory

/-!
This module contains what a hostname is: labels between dots, of which the last one is a top level label.
-/

namespace Sfap

namespace Net

namespace Hostname

def Letter (c : Byte) : Prop :=
  (65 ≤ c.toNat ∧ c.toNat ≤ 90) ∨ (97 ≤ c.toNat ∧ c.toNat ≤ 122)

def Digit (c : Byte) : Prop :=
  48 ≤ c.toNat ∧ c.toNat ≤ 57

structure IsLabel (l : List Byte) : Prop where
  pos : 1 ≤ l.length
  le : l.length ≤ 63
  chars : ∀ c ∈ l, Letter c ∨ Digit c ∨ c = 45
  first : l.head? ≠ some 45
  last : l.getLast? ≠ some 45

-- `"xn--"` in lower case
def Puny (l : List Byte) : Prop :=
  [120, 110, 45, 45] <+: l

def IsTopLabel (l : List Byte) : Prop :=
  (Puny l ∧ 5 ≤ l.length) ∨ (2 ≤ l.length ∧ ∀ c ∈ l, Letter c)

def labels (s : List Byte) : List (List Byte) :=
  s.splitOn 46

theorem labels_ne_nil (s : List Byte) : labels s ≠ [] := by
  apply List.splitOn_ne_nil

def top (s : List Byte) : List Byte :=
  (labels s).getLast (labels_ne_nil s)

def Labelled (s : List Byte) : Prop :=
  ∀ l ∈ labels s, IsLabel l

structure IsRelative (s : List Byte) : Prop where
  le : s.length ≤ 253
  labelled : Labelled s
  top : IsTopLabel (top s)

instance (c : Byte) : Decidable (Letter c) :=
  inferInstanceAs (Decidable (_ ∨ _))

instance (c : Byte) : Decidable (Digit c) :=
  inferInstanceAs (Decidable (_ ∧ _))

instance (l : List Byte) : Decidable (IsLabel l) :=
  decidable_of_iff (1 ≤ l.length ∧ l.length ≤ 63
      ∧ l.all (fun c => decide (Letter c ∨ Digit c ∨ c = 45)) = true
      ∧ l.head? ≠ some 45 ∧ l.getLast? ≠ some 45)
    ⟨fun h => ⟨h.1, h.2.1, by simpa using h.2.2.1, h.2.2.2.1, h.2.2.2.2⟩,
      fun h => ⟨h.pos, h.le, by simpa using h.chars, h.first, h.last⟩⟩

instance (l : List Byte) : Decidable (Puny l) :=
  inferInstanceAs (Decidable (_ <+: _))

instance (l : List Byte) : Decidable (IsTopLabel l) :=
  inferInstanceAs (Decidable (_ ∨ _))

instance (s : List Byte) : Decidable (Labelled s) :=
  inferInstanceAs (Decidable (∀ l ∈ labels s, IsLabel l))

instance (s : List Byte) : Decidable (IsRelative s) :=
  decidable_of_iff (s.length ≤ 253 ∧ Labelled s ∧ IsTopLabel (top s))
    ⟨fun h => ⟨h.1, h.2.1, h.2.2⟩, fun h => ⟨h.le, h.labelled, h.top⟩⟩

theorem getLast?_labels (s : List Byte) : (labels s).getLast? = some (top s) := by
  apply List.getLast?_eq_some_getLast

theorem top_mem (s : List Byte) : top s ∈ labels s := by
  apply List.getLast_mem

theorem labels_dot (s : List Byte) : labels (s ++ [46]) = labels s ++ [[]] := by
  unfold labels
  rw [List.splitOn_append_cons_self, List.splitOn_nil]

def lower (c : Byte) : Byte :=
  if 65 ≤ c.toNat ∧ c.toNat ≤ 90 then c + 32 else c

-- `s` and `s'` differ only in the case of letters
def SameName (s s' : List Byte) : Prop :=
  s.map lower = s'.map lower

instance (s s' : List Byte) : Decidable (SameName s s') :=
  inferInstanceAs (Decidable (_ = _))

theorem toNat_lower (c : Byte)
    : (lower c).toNat = if 65 ≤ c.toNat ∧ c.toNat ≤ 90 then c.toNat + 32 else c.toNat := by
  unfold lower
  split
  . next h =>
    rw [UInt8.toNat_add]
    apply Nat.mod_eq_of_lt
    have : (32 : Byte).toNat = 32 := rfl
    omega
  . rfl

theorem letter_lower (c : Byte) : Letter (lower c) ↔ Letter c := by
  unfold Letter
  rw [toNat_lower]
  split <;> omega

theorem digit_lower (c : Byte) : Digit (lower c) ↔ Digit c := by
  unfold Digit
  rw [toNat_lower]
  split <;> omega

theorem lower_eq_iff {c d : Byte} (hd : d.toNat < 65) : lower c = d ↔ c = d := by
  rw [← UInt8.toNat_inj, ← UInt8.toNat_inj, toNat_lower]
  split <;> omega

theorem isLabel_lower (l : List Byte) : IsLabel (l.map lower) ↔ IsLabel l := by
  have hhyphen : ∀ x : Option Byte, x.map lower ≠ some 45 ↔ x ≠ some 45 := by
    intro x
    cases x with
    | none => simp
    | some c =>
      have := lower_eq_iff (c := c) (d := 45) (by decide)
      simp [this]
  have hchars : (∀ c ∈ l.map lower, Letter c ∨ Digit c ∨ c = 45)
      ↔ ∀ c ∈ l, Letter c ∨ Digit c ∨ c = 45 := by
    have hc : ∀ c, lower c = 45 ↔ c = 45 := fun c => lower_eq_iff (by decide)
    simp only [List.forall_mem_map, letter_lower, digit_lower, hc]
  constructor
  . intro h
    refine ⟨?_, ?_, hchars.mp h.chars, ?_, ?_⟩
    . simpa using h.pos
    . simpa using h.le
    . have := h.first
      rw [List.head?_map] at this
      apply (hhyphen _).mp this
    . have := h.last
      rw [List.getLast?_map] at this
      apply (hhyphen _).mp this
  . intro h
    refine ⟨?_, ?_, hchars.mpr h.chars, ?_, ?_⟩
    . simpa using h.pos
    . simpa using h.le
    . rw [List.head?_map]
      apply (hhyphen _).mpr h.first
    . rw [List.getLast?_map]
      apply (hhyphen _).mpr h.last

theorem labels_lower (s : List Byte) : labels (s.map lower) = (labels s).map (·.map lower) := by
  apply Pieces.splitOn_map
  intro c
  apply lower_eq_iff
  decide

theorem labelled_lower (s : List Byte) : Labelled (s.map lower) ↔ Labelled s := by
  unfold Labelled
  rw [labels_lower, List.forall_mem_map]
  simp only [isLabel_lower]

theorem top_lower (s : List Byte) : top (s.map lower) = (top s).map lower := by
  have hlast := getLast?_labels (s.map lower)
  rw [labels_lower, List.getLast?_map, getLast?_labels] at hlast
  simpa using hlast.symm

variable {s s' : List Byte}

theorem SameName.length_eq (h : SameName s s') : s.length = s'.length := by
  have := congrArg List.length h
  simpa using this

theorem SameName.eq_nil_iff (h : SameName s s') : s = [] ↔ s' = [] := by
  rw [← List.length_eq_zero_iff, ← List.length_eq_zero_iff, h.length_eq]

theorem SameName.labelled_iff (h : SameName s s') : Labelled s ↔ Labelled s' := by
  rw [← labelled_lower s, ← labelled_lower s', h]

theorem SameName.top (h : SameName s s') : SameName (top s) (top s') := by
  unfold SameName
  rw [← top_lower, ← top_lower, h]

theorem SameName.getLast?_eq_dot (h : SameName s s') : s.getLast? = some 46 ↔ s'.getLast? = some 46 := by
  have hlast := congrArg List.getLast? h
  rw [List.getLast?_map, List.getLast?_map] at hlast
  have hdot : ∀ x : Option Byte, x = some 46 ↔ x.map lower = some 46 := by
    intro x
    cases x with
    | none => simp
    | some c =>
      have := lower_eq_iff (c := c) (d := 46) (by decide)
      simp [this]
  rw [hdot s.getLast?, hlast, ← hdot]

theorem SameName.letters_iff (h : SameName s s') : (∀ c ∈ s, Letter c) ↔ ∀ c ∈ s', Letter c := by
  have hlower : ∀ t : List Byte, (∀ c ∈ t, Letter c) ↔ ∀ c ∈ t.map lower, Letter c := by
    intro t
    simp only [List.forall_mem_map, letter_lower]
  rw [hlower s, h, ← hlower]

theorem Puny.not_letters (h : Puny s) : ¬ ∀ c ∈ s, Letter c := by
  intro hletters
  have hmem : (45 : Byte) ∈ s := h.subset (by decide)
  exact absurd (hletters 45 hmem) (by decide)

theorem Puny.lt_length (h : Puny s) (hlabel : IsLabel s) : 5 ≤ s.length := by
  rcases h with ⟨rest, rfl⟩
  cases rest with
  | nil => exact absurd rfl hlabel.last
  | cons c rest => simp

theorem isTopLabel_iff_of_label (h : IsLabel s)
    : IsTopLabel s ↔ Puny s ∨ (2 ≤ s.length ∧ ∀ c ∈ s, Letter c) := by
  unfold IsTopLabel
  constructor
  . rintro (⟨hpuny, _⟩ | hletters)
    . exact .inl hpuny
    . exact .inr hletters
  . rintro (hpuny | hletters)
    . exact .inl ⟨hpuny, hpuny.lt_length h⟩
    . exact .inr hletters

theorem SameName.isTopLabel_iff_iff (h : SameName s s') (hs : IsLabel s) (hs' : IsLabel s')
    : (IsTopLabel s ↔ IsTopLabel s') ↔ (Puny s ↔ Puny s') := by
  have hletters := h.letters_iff
  have hlength := h.length_eq
  rw [isTopLabel_iff_of_label hs, isTopLabel_iff_of_label hs', hlength, ← hletters]
  have hnot := Puny.not_letters (s := s)
  have hnot' := Puny.not_letters (s := s')
  rw [← hletters] at hnot'
  by_cases hpuny : Puny s
  . have := hnot hpuny
    simp [hpuny, this]
  . by_cases hpuny' : Puny s'
    . have := hnot' hpuny'
      simp [hpuny, hpuny', this]
    . simp [hpuny, hpuny']

end Hostname

end Net

end Sfap
