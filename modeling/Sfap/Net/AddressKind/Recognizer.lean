import Sfap.Net.AddressKind.Grammar
import Sfap.Net.AddressKind.Impl

/-!
This module contains the proof that the detection recognizes the hostnames of the grammar, and that it never
reads outside of its argument.
-/

namespace Sfap

namespace Net

open Hostname Pieces

theorem isAlpha_iff (c : Byte) : isAlpha c = true ↔ Letter c := by
  unfold isAlpha Letter
  simp [UInt8.le_iff_toNat_le]

theorem isAlnumHyph_iff (c : Byte) : isAlnumHyph c = true ↔ Letter c ∨ Digit c ∨ c = 45 := by
  unfold isAlnumHyph Digit
  rw [Bool.or_eq_true, Bool.or_eq_true, isAlpha_iff, or_assoc]
  simp [UInt8.le_iff_toNat_le, hyphen]

variable {s : List Byte}

theorem checkLabel_eq {start len : Nat} (h : start + len ≤ s.length)
    : checkLabel s start len = some (decide (IsLabel (slice s start len))) := by
  have hlen := length_slice h
  unfold checkLabel
  split
  . next hbad =>
    rw [Bool.or_eq_true, beq_iff_eq, decide_eq_true_eq] at hbad
    have hnot : ¬ IsLabel (slice s start len) := by
      intro hlabel
      have hpos := hlabel.pos
      have hle := hlabel.le
      omega
    rw [decide_eq_false hnot]
  . next hgood =>
    rw [Bool.or_eq_true, beq_iff_eq, decide_eq_true_eq, not_or] at hgood
    have hfirst : (slice s start len).head? = some s[start] := by
      rw [List.head?_eq_getElem?, getElem?_slice (by omega)]
      apply List.getElem?_eq_getElem
    have hlast : (slice s start len).getLast? = some s[start + len - 1] := by
      rw [List.getLast?_eq_getElem?, hlen, getElem?_slice (by omega), ← Nat.add_sub_assoc (by omega)]
      apply List.getElem?_eq_getElem
    rw [List.getElem?_eq_getElem (by omega), List.getElem?_eq_getElem (by omega), allFrom_eq _ h]
    dsimp only
    split
    . next heq =>
      have hnot : ¬ IsLabel (slice s start len) := by
        intro hlabel
        apply hlabel.first
        rw [hfirst, beq_iff_eq.mp heq]
        rfl
      rw [decide_eq_false hnot]
    . next hne =>
      split
      . next heq =>
        have hnot : ¬ IsLabel (slice s start len) := by
          intro hlabel
          apply hlabel.last
          rw [hlast, beq_iff_eq.mp heq]
          rfl
        rw [decide_eq_false hnot]
      . next hne' =>
        have hchars : (slice s start len).all isAlnumHyph = true ↔ IsLabel (slice s start len) := by
          simp only [List.all_eq_true, isAlnumHyph_iff]
          constructor
          . intro hall
            refine ⟨by omega, by omega, hall, ?_, ?_⟩
            . rw [hfirst]
              simpa [hyphen] using hne
            . rw [hlast]
              simpa [hyphen] using hne'
          . intro hlabel
            exact hlabel.chars
        congr 1
        rw [Bool.eq_iff_iff, hchars, decide_eq_true_eq]

theorem isPrefixOf_xn (l : List Byte) : xn.isPrefixOf l = true ↔ Puny l := by
  rw [List.isPrefixOf_iff_prefix]
  rfl

theorem checkTld_eq {l : List Byte} (h : IsLabel l) : checkTld l = some (decide (IsTopLabel l)) := by
  have hle := h.le
  unfold checkTld
  dsimp only
  split
  . next hpuny =>
    rw [isPrefixOf_xn] at hpuny
    have hlong := hpuny.lt_length h
    have htop : IsTopLabel l := .inl ⟨hpuny, hlong⟩
    rw [if_neg, allFrom_eq _ (by omega), decide_eq_true htop]
    . congr 1
      rw [List.all_eq_true]
      intro c hc
      rw [isAlnumHyph_iff]
      apply h.chars
      apply List.mem_of_mem_drop
      apply List.mem_of_mem_take hc
    . rw [Bool.or_eq_true, decide_eq_true_eq, decide_eq_true_eq]
      omega
  . next hpuny =>
    rw [isPrefixOf_xn] at hpuny
    have htop : IsTopLabel l ↔ 2 ≤ l.length ∧ ∀ c ∈ l, Letter c := by
      rw [isTopLabel_iff_of_label h]
      simp [hpuny]
    have hletters : l.all isAlpha = true ↔ ∀ c ∈ l, Letter c := by
      simp only [List.all_eq_true, isAlpha_iff]
    split
    . next hbad =>
      rw [Bool.or_eq_true, decide_eq_true_eq, decide_eq_true_eq] at hbad
      have hnot : ¬ IsTopLabel l := by
        rw [htop]
        omega
      rw [decide_eq_false hnot]
    . next hgood =>
      rw [Bool.or_eq_true, decide_eq_true_eq, decide_eq_true_eq] at hgood
      congr 1
      rw [Bool.eq_iff_iff, hletters, decide_eq_true_eq, htop]
      have htwo : 2 ≤ l.length := by omega
      simp [htwo]

/--
Where the loop stands: the labels in front of the one that it is in have passed their check.
-/
structure Scan.Ok (s : List Byte) (i : Nat) (scan : Scan) (done : List (List Byte)) : Prop where
  place : At dot s i scan.labelStart done
  labelLen : scan.labelLen = i - scan.labelStart
  labels : scan.labels = done.length
  passed : ∀ l ∈ done, IsLabel l

theorem Scan.Ok.init (s : List Byte) : Scan.Ok s 0 ⟨0, 0, 0⟩ [] := by
  refine ⟨.init dot s, rfl, rfl, ?_⟩
  simp

theorem Scan.Ok.room {i : Nat} {scan : Scan} {done : List (List Byte)} (h : scan.Ok s i done)
    : scan.labelStart + scan.labelLen = i ∧ i ≤ s.length := by
  have := h.place.start_le
  have := h.place.le
  rw [h.labelLen]
  omega

theorem scanFrom_cases {i : Nat} {scan : Scan} {done : List (List Byte)} {left : Nat}
    (h : scan.Ok s i done) (hleft : i + left = s.length)
    : (∃ scan' done', scanFrom s i scan left = some (some scan') ∧ scan'.Ok s s.length done')
        ∨
      (scanFrom s i scan left = some none ∧ ∃ l ∈ (labels s).dropLast, ¬ IsLabel l) := by
  induction left generalizing i scan done with
  | zero =>
    left
    have hi : i = s.length := hleft
    rw [hi] at h
    exact ⟨scan, done, rfl, h⟩
  | succ left ih =>
    have hget : s[i]? = some s[i] := List.getElem?_eq_getElem (by omega)
    have hroom := h.room
    unfold scanFrom
    rw [hget]
    dsimp only
    split
    . next hdot =>
      rw [beq_iff_eq] at hdot
      rw [hdot] at hget
      have hpiece : slice s scan.labelStart scan.labelLen ∈ (labels s).dropLast := by
        rw [h.labelLen]
        apply h.place.mem_dropLast hget
      rw [checkLabel_eq (by omega)]
      cases hlabel : decide (IsLabel (slice s scan.labelStart scan.labelLen)) with
      | false =>
        right
        exact ⟨rfl, _, hpiece, of_decide_eq_false hlabel⟩
      | true =>
        dsimp only
        apply ih _ (by omega)
        . exact done ++ [slice s scan.labelStart (i - scan.labelStart)]
        . refine ⟨h.place.cut hget, (Nat.sub_self _).symm, ?_, ?_⟩
          . rw [List.length_append, h.labels]
            rfl
          . intro l hl
            rw [List.mem_append, List.mem_singleton] at hl
            rcases hl with hl | rfl
            . apply h.passed l hl
            . rw [← h.labelLen]
              apply of_decide_eq_true hlabel
    . next hdot =>
      have hne : s[i] ≠ dot := by simpa using hdot
      apply ih _ (by omega)
      . exact done
      . refine ⟨h.place.next hget hne, ?_, h.labels, h.passed⟩
        have := h.labelLen
        dsimp only
        omega

theorem Scan.Ok.whole {scan : Scan} {done : List (List Byte)} (h : scan.Ok s s.length done)
    : Hostname.labels s = done ++ [slice s scan.labelStart scan.labelLen] := by
  rw [h.labelLen]
  apply h.place.last

theorem isFqdn_relative (hdot : s.getLast? ≠ some 46) : isFqdn s = some (decide (IsRelative s)) := by
  unfold isFqdn
  cases hlast : s.getLast? with
  | none =>
    have hnil : s = [] := by simpa using hlast
    rw [hnil]
    rfl
  | some back =>
    have hback : (back == dot) = false := by
      rw [beq_eq_false_iff_ne]
      rintro rfl
      exact hdot hlast
    dsimp only
    rw [hback]
    simp only [Bool.not_false, Bool.true_and, Bool.false_and, Bool.or_false, decide_eq_true_eq,
      Bool.false_eq_true, ↓reduceIte]
    split
    . next hlong =>
      have hnot : ¬ IsRelative s := by
        intro h
        have := h.le
        omega
      rw [decide_eq_false hnot]
    . next hshort =>
      rcases scanFrom_cases (.init s) (Nat.zero_add s.length) with
        ⟨scan, done, heq, hok⟩ | ⟨heq, l, hl, hbad⟩
      . have hlabels := hok.whole
        have hroom := hok.room
        have htop : top s = slice s scan.labelStart scan.labelLen := by
          have hlast := getLast?_labels s
          rw [hlabels] at hlast
          simpa using hlast.symm
        have hlabelled : Labelled s ↔ IsLabel (top s) := by
          unfold Labelled
          rw [hlabels, htop]
          simp only [List.mem_append, List.mem_singleton, or_imp, forall_and, forall_eq]
          exact and_iff_right hok.passed
        rw [heq]
        dsimp only
        rw [checkLabel_eq (by omega), ← htop]
        by_cases hlabel : IsLabel (top s)
        . rw [decide_eq_true hlabel]
          dsimp only
          rw [if_neg (by omega), if_neg (by omega), checkTld_eq hlabel]
          congr 1
          rw [Bool.eq_iff_iff, decide_eq_true_eq, decide_eq_true_eq]
          constructor
          . intro h
            exact ⟨by omega, hlabelled.mpr hlabel, h⟩
          . intro h
            exact h.top
        . rw [decide_eq_false hlabel]
          have hnot : ¬ IsRelative s := fun h => hlabel (hlabelled.mp h.labelled)
          rw [decide_eq_false hnot]
      . rw [heq]
        have hnot : ¬ IsRelative s := fun h => hbad (h.labelled l (List.mem_of_mem_dropLast hl))
        rw [decide_eq_false hnot]

theorem isFqdn_dot (s : List Byte)
    : isFqdn (s ++ [46]) = some (decide (s.length ≤ 253 ∧ Labelled s)) := by
  have hinit : (labels (s ++ [46])).dropLast = labels s := by
    rw [labels_dot, List.dropLast_concat]
  unfold isFqdn
  rw [List.getLast?_concat, List.length_append]
  have hback : ((46 : Byte) == dot) = true := rfl
  dsimp only
  rw [hback]
  simp only [Bool.not_true, Bool.false_and, Bool.true_and, Bool.false_or, decide_eq_true_eq,
    List.length_singleton, ↓reduceIte]
  split
  . next hlong =>
    have hnot : ¬ (s.length ≤ 253 ∧ Labelled s) := by omega
    rw [decide_eq_false hnot]
  . next hshort =>
    have hleft : 0 + (s.length + 1) = (s ++ [46]).length := by simp
    rcases scanFrom_cases (.init (s ++ [46])) hleft with ⟨scan, done, heq, hok⟩ | ⟨heq, l, hl, hbad⟩
    . have hlabels := hok.whole
      have hdone : done = labels s := by
        rw [← hinit, hlabels, List.dropLast_concat]
      have hpos : scan.labels ≥ 1 := by
        rw [hok.labels, hdone]
        apply List.length_pos_of_ne_nil
        apply labels_ne_nil
      have hyes : s.length ≤ 253 ∧ Labelled s := by
        refine ⟨by omega, ?_⟩
        intro l hl
        rw [← hdone] at hl
        apply hok.passed l hl
      rw [heq]
      dsimp only
      rw [decide_eq_true hpos, decide_eq_true hyes]
    . rw [hinit] at hl
      have hnot : ¬ (s.length ≤ 253 ∧ Labelled s) := fun h => hbad (h.2 l hl)
      rw [heq, decide_eq_false hnot]

end Net

end Sfap
