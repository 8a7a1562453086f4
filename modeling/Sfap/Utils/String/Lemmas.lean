import Sfap.Utils.Buffer.Lemmas
import Sfap.Utils.String.Impl

/-!
This module contains the class invariant of `String` and what its constructors and mutators do, stated
on lists of bytes.
-/

namespace Sfap

namespace String

/--
The class invariant: a valid string owns storage that no object could exceed, and its last used byte
is the terminator.
-/
structure Ok (heap : Heap) (s : String) : Prop where
  backs : ∀ p, s.data.data = some p → heap.Backs p s.data.capacity.toNat
  bound : s.data.capacity.toNat ≤ ptrdiffMax
  used : ∀ p, s.data.data = some p → 0 < s.data.size.toNat
  terminator : ∀ p, s.data.data = some p →
    (heap.load p s.data.size.toNat)[s.data.size.toNat - 1]? = some 0

variable {heap heap' : Heap} {s s' : String} {p : Ptr} {n : SizeT}

theorem Ok.of_null (h : s.data.data = none) : s.Ok heap := by
  have hcapacity := s.data.wellFormed.2 h
  constructor
  . simp [h]
  . simp [hcapacity]
  . simp [h]
  . simp [h]

theorem Ok.frame (hok : s.Ok heap)
    (h : ∀ p, s.data.data = some p → heap'.blocks p.block = heap.blocks p.block)
    : s.Ok heap' := by
  constructor
  . intro p hp
    exact (hok.backs p hp).congr (h p hp)
  . exact hok.bound
  . exact hok.used
  . intro p hp
    rw [Memory.load_congr (h p hp)]
    apply hok.terminator p hp

theorem isValid_of_data (hp : s.data.data = some p) : s.isValid = true := by
  apply s.data.isValid_of_data hp

theorem isValid_of_null (hp : s.data.data = none) : s.isValid = false := by
  apply s.data.isValid_of_null hp

theorem guard_fails (h : s.isValid = false ∨ s.capacity.toNat < n.toNat)
    : (!s.isValid || decide (n > s.capacity)) = true := by
  rw [Bool.or_eq_true, Bool.not_eq_true', decide_eq_true_eq, gt_iff_lt, UInt64.lt_iff_toNat_lt]
  exact h

theorem guard_holds (hp : s.data.data = some p) (h : n.toNat ≤ s.capacity.toNat)
    : ¬ (!s.isValid || decide (n > s.capacity)) = true := by
  rw [isValid_of_data hp, Bool.not_true, Bool.false_or, decide_eq_true_eq, gt_iff_lt,
    UInt64.lt_iff_toNat_lt]
  omega

theorem resize_fail (h : s.isValid = false ∨ s.capacity.toNat < n.toNat)
    : s.resize heap n = (false, s, heap) := by
  unfold resize
  rw [if_pos (guard_fails h)]

structure Storage (heap : Heap) (s : String) (p : Ptr) : Prop where
  data_eq : s.data.data = some p
  backs : heap.Backs p s.data.capacity.toNat
  bound : s.data.capacity.toNat ≤ ptrdiffMax
  pos : 0 < s.data.capacity.toNat

theorem Ok.storage (hok : s.Ok heap) (hp : s.data.data = some p) : s.Storage heap p := by
  refine ⟨hp, hok.backs p hp, hok.bound, ?_⟩
  have := hok.used p hp
  have := s.data.size_le
  omega

theorem Storage.toNat_capacity (hst : s.Storage heap p)
    : s.capacity.toNat = s.data.capacity.toNat - 1 := by
  have := hst.pos
  unfold capacity
  rw [if_pos (isValid_of_data hst.data_eq)]
  apply Word.toNat_sub_of_toNat_le
  simp only [UInt64.toNat_one]
  omega

theorem bytes_view (hp : s.data.data = some p) : heap.bytes s.view = heap.load p s.size.toNat := by
  unfold view
  rw [if_pos (isValid_of_data hp), hp]
  rfl

section Valid

variable (hok : s.Ok heap) (hp : s.data.data = some p)

include hok hp

theorem toNat_size : s.size.toNat = s.data.size.toNat - 1 := by
  have := hok.used p hp
  unfold size
  rw [if_pos (isValid_of_data hp)]
  apply Word.toNat_sub_of_toNat_le
  simp only [UInt64.toNat_one]
  omega

theorem size_le_capacity : s.size.toNat ≤ s.capacity.toNat := by
  have := s.data.size_le
  rw [toNat_size hok hp, (hok.storage hp).toNat_capacity]
  omega

theorem capacity_lt : s.capacity.toNat < ptrdiffMax := by
  have := (hok.storage hp).pos
  have := hok.bound
  rw [(hok.storage hp).toNat_capacity]
  omega

theorem length_load_size : (heap.load p s.size.toNat).length = s.size.toNat := by
  apply Memory.Backs.length_load
  apply (hok.backs p hp).mono
  have := s.data.size_le
  rw [toNat_size hok hp]
  omega

theorem write {i : Nat} {bs : List Byte} (hi : i + bs.length ≤ s.size.toNat)
    : s.Ok (heap.store (p.add i) bs)
        ∧ (heap.store (p.add i) bs).load p s.size.toNat
            = (heap.load p s.size.toNat).splice i bs := by
  have hused := hok.used p hp
  have hle := s.data.size_le
  have hsize := toNat_size hok hp
  have hbacks := hok.backs p hp
  constructor
  . constructor
    . intro q hq
      cases hp.symm.trans hq
      apply hbacks.store
      omega
    . exact hok.bound
    . exact hok.used
    . intro q hq
      cases hp.symm.trans hq
      have hlength := (hbacks.mono hle).length_load
      rw [Memory.load_store (hbacks.mono hle) (by omega), List.getElem?_splice (by omega),
        if_neg (by omega)]
      apply hok.terminator p hp
  . apply Memory.load_store (hbacks.mono (by omega)) hi

end Valid

structure Resized (heap : Heap) (s : String) (p : Ptr) (n : Nat) (heap' : Heap) (s' : String)
    : Prop where
  ok : s'.Ok heap'
  data_eq : s'.data.data = some p
  capacity_eq : s'.data.capacity = s.data.capacity
  size_eq : s'.data.size.toNat = n + 1
  sameBut : heap.SameBut heap' p
  stays : heap'.load p n = heap.load p n

theorem Storage.resize_eq (hst : s.Storage heap p) (hn : n.toNat ≤ s.capacity.toNat)
    : ∃ s' heap', s.resize heap n = (true, s', heap') ∧ Resized heap s p n.toNat heap' s' := by
  have hp := hst.data_eq
  have hpos := hst.pos
  have hbound := hst.bound
  have hcapacity := hst.toNat_capacity
  unfold ptrdiffMax at hbound
  have hnext : (n + 1).toNat = n.toNat + 1 := by
    rw [Word.toNat_add_of_lt] <;> simp only [UInt64.toNat_one]
    omega
  have hfits : (n + 1).toNat ≤ s.data.capacity.toNat := by omega
  have hslot : (⟨s.data.withSize (n + 1) hfits⟩ : String).size.toNat = n.toNat := by
    have hvalid : (⟨s.data.withSize (n + 1) hfits⟩ : String).isValid = true :=
      isValid_of_data hp
    unfold size
    rw [if_pos hvalid, Buffer.size_withSize, Word.toNat_sub_of_toNat_le]
    . simp only [UInt64.toNat_one]
      omega
    . simp only [UInt64.toNat_one]
      omega
  refine ⟨⟨s.data.withSize (n + 1) hfits⟩, heap.store (p.add n.toNat) [0], ?_, ?_⟩
  . unfold resize
    rw [if_neg (guard_holds hp hn), s.data.resize_eq hfits]
    simp only [Bool.not_true, Bool.false_eq_true, ↓reduceIte]
    rw [Buffer.storeAt_eq (s.data.withSize (n + 1) hfits) heap hp, hslot]
  . have hbacks := hst.backs
    have hroom : n.toNat + [(0 : Byte)].length ≤ s.data.capacity.toNat := by
      rw [List.length_singleton]
      omega
    have hend := Memory.load_store_end hbacks hroom
    constructor
    . constructor
      . intro q hq
        cases hp.symm.trans hq
        apply hbacks.store hroom
      . exact hst.bound
      . intro q hq
        rw [Buffer.size_withSize]
        omega
      . intro q hq
        cases hp.symm.trans hq
        rw [Buffer.size_withSize, hnext]
        rw [List.length_singleton] at hend
        rw [hend, Nat.add_sub_cancel, List.getElem?_append_right]
        . rw [(hbacks.mono (by omega)).length_load]
          simp
        . rw [(hbacks.mono (by omega)).length_load]
    . exact hp
    . rfl
    . exact hnext
    . apply Memory.sameBut_store
    . apply Memory.load_store_front hbacks hroom

structure Rewritten (heap : Heap) (s : String) (p : Ptr) (chars : List Byte) (heap' : Heap)
    (s' : String) : Prop where
  ok : s'.Ok heap'
  data_eq : s'.data.data = some p
  capacity_eq : s'.capacity = s.capacity
  sameBut : heap.SameBut heap' p
  size_eq : s'.size.toNat = chars.length
  load_eq : heap'.load p s'.size.toNat = chars

theorem Storage.rewrite_eq (hst : s.Storage heap p) (hn : n.toNat ≤ s.capacity.toNat) {i : Nat}
    {bs : List Byte} (hbs : i + bs.length = n.toNat)
    : ∃ s' heap', s.resize heap n = (true, s', heap') ∧ s'.data.data = some p
        ∧ s'.size.toNat = n.toNat
        ∧ Rewritten heap s p (heap.load p i ++ bs) (heap'.store (p.add i) bs) s' := by
  have hcapacity := hst.toNat_capacity
  have hlength : (heap.load p i).length = i := by
    apply Memory.Backs.length_load
    apply hst.backs.mono
    omega
  rcases hst.resize_eq hn with ⟨s', heap', heq, hres⟩
  have hsize : s'.size.toNat = n.toNat := by
    rw [toNat_size hres.ok hres.data_eq, hres.size_eq]
    rfl
  refine ⟨s', heap', heq, hres.data_eq, hsize, ?_⟩
  have hroom : i + bs.length ≤ s'.size.toNat := by omega
  have hwrite := write hres.ok hres.data_eq hroom
  constructor
  . exact hwrite.1
  . exact hres.data_eq
  . rw [← UInt64.toNat_inj, (hres.ok.storage hres.data_eq).toNat_capacity, hres.capacity_eq,
      hcapacity]
  . apply hres.sameBut.trans (Memory.sameBut_store _ _ _ _)
  . rw [hsize, List.length_append, hlength, hbs]
  . have hstays : (heap'.load p n.toNat).take i = heap.load p i := by
      rw [hres.stays]
      apply Memory.take_load
      omega
    rw [hwrite.2, List.splice_end, hsize, hstays]
    rw [length_load_size hres.ok hres.data_eq]
    omega

theorem Storage.assign_eq (hst : s.Storage heap p) {source : Source}
    (hle : source.bytes.length ≤ s.capacity.toNat)
    : ∃ s' heap', s.assign heap source = (true, s', heap')
        ∧ Rewritten heap s p source.bytes heap' s' := by
  rw [← source.toNat_size] at hle
  have hlength : 0 + source.bytes.length = source.size.toNat := by
    rw [source.toNat_size, Nat.zero_add]
  rcases hst.rewrite_eq hle hlength with ⟨s₁, heap₁, heq, hdata, _, hr⟩
  refine ⟨s₁, heap₁.store (p.add 0) source.bytes, ?_, ?_⟩
  . unfold assign
    rw [if_neg (guard_holds hst.data_eq hle), heq]
    simp only [Bool.not_true, Bool.false_eq_true, ↓reduceIte]
    rw [s₁.data.copyAt_eq heap₁ hdata]
    rfl
  . exact hr

end String

end Sfap
