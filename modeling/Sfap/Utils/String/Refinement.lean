import Sfap.Utils.String.Chars
import Sfap.Utils.String.Lemmas

/-!
This module contains the proof that each constructor and each mutator of `String` does to the string
what the operation is for does to a bounded list of characters.
-/

namespace Sfap

namespace String

def Represents (heap : Heap) (s : String) : Option Chars → Prop
  | none => s.data.data = none
  | some c =>
    ∃ p, s.data.data = some p ∧ s.capacity.toNat = c.capacity
      ∧ heap.load p s.size.toNat = c.chars

structure Mutation (heap : Heap) (s : String) (x : Option Chars) (heap' : Heap) (s' : String)
    : Prop where
  ok : s'.Ok heap'
  represents : s'.Represents heap' x
  data_eq : s'.data.data = s.data.data
  outside : ∀ q, (∀ p, s.data.data = some p → q ≠ p.block) → heap'.blocks q = heap.blocks q

def Replaces (heap : Heap) (s : String) (x : Option Chars) (content : List Byte → List Byte)
    (result : Bool × String × Heap) : Prop :=
  result.1 = (Chars.replace x content).1
    ∧ Mutation heap s (Chars.replace x content).2 result.2.2 result.2.1
    ∧ (result.1 = false → result.2 = (s, heap))

variable {heap heap' : Heap} {s s' : String} {p : Ptr} {x : Option Chars} {c : Chars}

theorem Represents.frame (h : s.Represents heap x)
    (hblocks : ∀ p, s.data.data = some p → heap'.blocks p.block = heap.blocks p.block)
    : s.Represents heap' x := by
  cases x with
  | none => exact h
  | some c =>
    rcases h with ⟨p, hp, hcapacity, hload⟩
    exact ⟨p, hp, hcapacity, (Memory.load_congr (hblocks p hp) _).trans hload⟩

theorem view_spec (hok : s.Ok heap) (hx : s.Represents heap x)
    : heap.bytes s.view = Chars.charsOf x ∧ s.size.toNat = (Chars.charsOf x).length := by
  cases x with
  | none =>
    have hvalid := isValid_of_null hx
    unfold view size
    rw [hvalid]
    exact ⟨rfl, rfl⟩
  | some c =>
    rcases hx with ⟨p, hp, _, hload⟩
    constructor
    . rw [bytes_view hp]
      exact hload
    . rw [← length_load_size hok hp, hload]
      rfl

theorem Mutation.refl (hok : s.Ok heap) (hx : s.Represents heap x) : Mutation heap s x heap s := by
  exact ⟨hok, hx, rfl, fun _ _ => rfl⟩

theorem Rewritten.mutation {chars : List Byte} (hr : Rewritten heap s p chars heap' s')
    (hp : s.data.data = some p) (hcapacity : s.capacity.toNat = c.capacity)
    (hle : chars.length ≤ c.capacity)
    : Mutation heap s (some ⟨c.capacity, chars, hle⟩) heap' s' := by
  constructor
  . exact hr.ok
  . refine ⟨p, hr.data_eq, ?_, hr.load_eq⟩
    rw [hr.capacity_eq]
    exact hcapacity
  . apply hr.data_eq.trans hp.symm
  . intro q hq
    exact hr.sameBut.2 q (hq p hp)

theorem replaces_null (hok : s.Ok heap) (hx : s.Represents heap none)
    (content : List Byte → List Byte)
    : Replaces heap s none content (false, s, heap) := by
  exact ⟨rfl, .refl hok hx, fun _ => rfl⟩

theorem replaces_full (hok : s.Ok heap) (hx : s.Represents heap (some c))
    {content : List Byte → List Byte} (h : c.capacity < (content c.chars).length)
    : Replaces heap s (some c) content (false, s, heap) := by
  unfold Replaces Chars.replace
  simp only [Nat.not_le.mpr h, ↓reduceDIte]
  exact ⟨trivial, .refl hok hx, fun _ => trivial⟩

theorem replaces_fits {content : List Byte → List Byte} (hp : s.data.data = some p)
    (hcapacity : s.capacity.toNat = c.capacity) (h : (content c.chars).length ≤ c.capacity)
    (hr : Rewritten heap s p (content c.chars) heap' s')
    : Replaces heap s (some c) content (true, s', heap') := by
  unfold Replaces Chars.replace
  simp only [h, ↓reduceDIte]
  exact ⟨trivial, hr.mutation hp hcapacity h, fun hfalse => by simp at hfalse⟩

theorem assign_spec (hok : s.Ok heap) (hx : s.Represents heap x) (source : Source)
    : Replaces heap s x (fun _ => source.bytes) (s.assign heap source) := by
  cases x with
  | none =>
    unfold assign
    rw [if_pos (guard_fails (Or.inl (isValid_of_null hx)))]
    apply replaces_null hok hx
  | some c =>
    have hx' := hx
    rcases hx with ⟨p, hp, hcapacity, hload⟩
    rcases Nat.lt_or_ge s.capacity.toNat source.size.toNat with hlt | hle
    . unfold assign
      rw [if_pos (guard_fails (Or.inr hlt))]
      apply replaces_full hok hx'
      rw [source.toNat_size] at hlt
      omega
    . rw [source.toNat_size] at hle
      rcases (hok.storage hp).assign_eq hle with ⟨s₁, heap₁, heq, hr⟩
      rw [heq]
      apply replaces_fits hp hcapacity
      . omega
      . exact hr

theorem append_spec (hok : s.Ok heap) (hx : s.Represents heap x) (source : Source)
    (hsource : source.bytes.length ≤ ptrdiffMax)
    : Replaces heap s x (fun chars => chars ++ source.bytes) (s.append heap source) := by
  unfold append
  cases x with
  | none =>
    rw [if_pos (guard_fails (Or.inl (isValid_of_null hx)))]
    apply replaces_null hok hx
  | some c =>
    have hx' := hx
    rcases hx with ⟨p, hp, hcapacity, hload⟩
    have hchars : c.chars.length = s.size.toNat := by
      rw [← hload]
      apply length_load_size hok hp
    have hsum : (s.size + source.size).toNat = s.size.toNat + source.bytes.length := by
      have := capacity_lt hok hp
      have := size_le_capacity hok hp
      unfold ptrdiffMax at *
      rw [Word.toNat_add_of_lt] <;> rw [source.toNat_size]
      omega
    rcases Nat.lt_or_ge s.capacity.toNat (s.size + source.size).toNat with hlt | hle
    . rw [if_pos (guard_fails (Or.inr hlt))]
      apply replaces_full hok hx'
      rw [List.length_append]
      omega
    . rw [if_neg (guard_holds hp hle)]
      rcases (hok.storage hp).rewrite_eq hle hsum.symm with ⟨s₁, heap₁, heq, hdata, _, hr⟩
      simp only [heq, Bool.not_true, Bool.false_eq_true, ↓reduceIte]
      rw [s₁.data.copyAt_eq heap₁ hdata]
      rw [hload] at hr
      apply replaces_fits hp hcapacity
      . rw [List.length_append]
        omega
      . exact hr

theorem pushBack_spec (hok : s.Ok heap) (hx : s.Represents heap x) (ch : Byte)
    : Replaces heap s x (fun chars => chars ++ [ch]) (s.pushBack heap ch) := by
  unfold pushBack
  cases x with
  | none =>
    rw [if_pos (by rw [isValid_of_null hx]; rfl)]
    apply replaces_null hok hx
  | some c =>
    have hx' := hx
    rcases hx with ⟨p, hp, hcapacity, hload⟩
    have hchars : c.chars.length = s.size.toNat := by
      rw [← hload]
      apply length_load_size hok hp
    rw [if_neg (by rw [isValid_of_data hp]; simp)]
    rcases Nat.lt_or_ge s.size.toNat s.capacity.toNat with hlt | hge
    . have hnext : (s.size + 1).toNat = s.size.toNat + 1 := by
        have := UInt64.toNat_lt s.capacity
        rw [Word.toNat_add_of_lt] <;> simp only [UInt64.toNat_one]
        omega
      rw [if_neg (by rw [ge_iff_le, UInt64.le_iff_toNat_le]; omega)]
      have hlength : s.size.toNat + [ch].length = (s.size + 1).toNat := by
        rw [hnext, List.length_singleton]
      rcases (hok.storage hp).rewrite_eq (by omega) hlength with
        ⟨s₁, heap₁, heq, hdata, hsize, hr⟩
      have hlast : (s₁.size - 1).toNat = s.size.toNat := by
        rw [Word.toNat_sub_of_toNat_le] <;> simp only [UInt64.toNat_one] <;> omega
      simp only [heq, Bool.not_true, Bool.false_eq_true, ↓reduceIte]
      rw [s₁.data.storeAt_eq heap₁ hdata, hlast]
      rw [hload] at hr
      apply replaces_fits hp hcapacity
      . rw [List.length_append, List.length_singleton]
        omega
      . exact hr
    . rw [if_pos (by rw [ge_iff_le, UInt64.le_iff_toNat_le]; omega)]
      apply replaces_full hok hx'
      rw [List.length_append, List.length_singleton]
      omega

theorem resize_spec (hok : s.Ok heap) (hx : s.Represents heap x) (n : SizeT)
    : ∃ x', Chars.Resizes x n.toNat (s.resize heap n).1 x'
        ∧ Mutation heap s x' (s.resize heap n).2.2 (s.resize heap n).2.1
        ∧ ((s.resize heap n).1 = false → (s.resize heap n).2 = (s, heap)) := by
  cases x with
  | none =>
    rw [resize_fail (Or.inl (isValid_of_null hx))]
    exact ⟨none, ⟨rfl, rfl⟩, .refl hok hx, fun _ => rfl⟩
  | some c =>
    have hx' := hx
    rcases hx with ⟨p, hp, hcapacity, hload⟩
    rcases Nat.lt_or_ge s.capacity.toNat n.toNat with hlt | hle
    . rw [resize_fail (Or.inr hlt)]
      rw [hcapacity] at hlt
      exact ⟨some c, (Chars.resizes_of_lt hlt).mpr ⟨rfl, rfl⟩, .refl hok hx', fun _ => rfl⟩
    . rcases (hok.storage hp).resize_eq hle with ⟨s₁, heap₁, heq, hres⟩
      have hsize : s₁.size.toNat = n.toNat := by
        rw [toNat_size hres.ok hres.data_eq, hres.size_eq]
        rfl
      have hlength := length_load_size hres.ok hres.data_eq
      have hcapacity₁ : s₁.capacity.toNat = c.capacity := by
        rw [(hres.ok.storage hres.data_eq).toNat_capacity, hres.capacity_eq,
          ← (hok.storage hp).toNat_capacity]
        exact hcapacity
      have hchars : c.chars.length = s.size.toNat := by
        rw [← hload]
        apply length_load_size hok hp
      rw [heq]
      rw [hsize] at hlength
      rw [hcapacity] at hle
      refine ⟨some ⟨c.capacity, heap₁.load p n.toNat, by omega⟩,
        (Chars.resizes_of_le hle).mpr ⟨rfl, _, rfl, rfl, hlength, ?_⟩, ?_,
        fun hfalse => by simp at hfalse⟩
      . dsimp only
        rw [hchars, ← hload, hres.stays]
        unfold Memory.load
        rw [List.take_take, List.take_take, Nat.min_comm]
      . constructor
        . exact hres.ok
        . refine ⟨p, hres.data_eq, hcapacity₁, ?_⟩
          rw [hsize]
        . apply hres.data_eq.trans hp.symm
        . intro q hq
          exact hres.sameBut.2 q (hq p hp)

theorem clean_spec (hok : s.Ok heap) (hx : s.Represents heap x)
    : Mutation heap s (Chars.replace x fun _ => []).2 (s.clean heap).2 (s.clean heap).1 := by
  rcases resize_spec hok hx 0 with ⟨x', hres, hmut, _⟩
  have hx' : (Chars.replace x fun _ => []).2 = x' := by
    cases x with
    | none => exact hres.2.symm
    | some c =>
      have hres := (Chars.resizes_of_le (Nat.zero_le c.capacity)).mp hres
      rcases hres.2 with ⟨c', rfl, hcapacity, hlength, _⟩
      rcases c' with ⟨capacity, chars, hle⟩
      dsimp at hcapacity hlength
      subst hcapacity
      rw [List.length_eq_zero_iff] at hlength
      subst hlength
      rfl
  rw [hx']
  exact hmut

structure Construction (heap : Heap) (x : Option Chars) (heap' : Heap) (s : String) : Prop where
  ok : s.Ok heap'
  represents : s.Represents heap' x
  new : ∀ p, s.data.data = some p → p.block = heap.next
  outside : ∀ q < heap.next, heap'.blocks q = heap.blocks q

theorem ofCapacity_storage (heap : Heap) (n : SizeT) (garbage : Option (Nat → Byte))
    : (∃ p, Chars.Allocated n.toNat garbage
          ∧ Storage (Buffer.ofCapacity heap (n + 1) garbage).2
              ⟨(Buffer.ofCapacity heap (n + 1) garbage).1⟩ p
          ∧ (⟨(Buffer.ofCapacity heap (n + 1) garbage).1⟩ : String).capacity = n
          ∧ p.block = heap.next
          ∧ ∀ q < heap.next, (Buffer.ofCapacity heap (n + 1) garbage).2.blocks q = heap.blocks q)
        ∨
      (¬ Chars.Allocated n.toNat garbage
          ∧ (Buffer.ofCapacity heap (n + 1) garbage).1.data = none
          ∧ (Buffer.ofCapacity heap (n + 1) garbage).2 = heap) := by
  have hnext : 0 < (n + 1).toNat ∧ (n + 1).toNat ≤ ptrdiffMax ↔ n.toNat + 1 ≤ ptrdiffMax := by
    have := UInt64.toNat_lt n
    unfold ptrdiffMax
    rw [UInt64.toNat_add]
    simp only [UInt64.toNat_one]
    omega
  rcases Buffer.ofCapacity_cases heap (n + 1) garbage with
    ⟨g, p, hg, hpos, hmax, hdata, hcapacity, _, hblock, hbacks, hframe⟩ | ⟨hnot, hdata, hheap⟩
  . left
    have hst : Storage (Buffer.ofCapacity heap (n + 1) garbage).2
        ⟨(Buffer.ofCapacity heap (n + 1) garbage).1⟩ p := by
      constructor
      . exact hdata
      . dsimp only
        rw [hcapacity]
        exact hbacks
      . dsimp only
        rw [hcapacity]
        exact hmax
      . dsimp only
        rw [hcapacity]
        exact hpos
    refine ⟨p, ⟨by rw [hg]; rfl, hnext.mp ⟨hpos, hmax⟩⟩, hst, ?_, hblock, hframe⟩
    rw [← UInt64.toNat_inj, hst.toNat_capacity]
    dsimp only
    rw [hcapacity, ← UInt64.toNat_one, ← Word.toNat_sub_of_toNat_le]
    . rw [UInt64.add_sub_cancel]
    . rw [UInt64.toNat_one]
      omega
  . right
    unfold Chars.Allocated
    rw [← hnext]
    exact ⟨hnot, hdata, hheap⟩

theorem Construction.mutate {x' : Option Chars} {heap₁ heap₂ : Heap} {s₁ s₂ : String}
    (hc : Construction heap x heap₁ s₁) (hm : Mutation heap₁ s₁ x' heap₂ s₂)
    : Construction heap x' heap₂ s₂ := by
  constructor
  . exact hm.ok
  . exact hm.represents
  . intro p hp
    rw [hm.data_eq] at hp
    apply hc.new p hp
  . intro q hq
    rw [hm.outside q, hc.outside q hq]
    intro p hp
    have := hc.new p hp
    omega

theorem Construction.of_null {heap : Heap} {data : Buffer} (h : data.data = none)
    : Construction heap none heap ⟨data⟩ := by
  constructor
  . apply Ok.of_null h
  . exact h
  . intro p hp
    rw [h] at hp
    simp at hp
  . intro q _
    rfl

theorem Construction.of_storage {heap₁ heap₂ : Heap} {s₁ : String} {n : Nat} {chars : List Byte}
    (hok : s₁.Ok heap₂) (hp : s₁.data.data = some p) (hcapacity : s₁.capacity.toNat = n)
    (hload : heap₂.load p s₁.size.toNat = chars) (hsame : heap₁.SameBut heap₂ p)
    (hblock : p.block = heap.next) (hframe : ∀ q < heap.next, heap₁.blocks q = heap.blocks q)
    (hle : chars.length ≤ n)
    : Construction heap (some ⟨n, chars, hle⟩) heap₂ s₁ := by
  constructor
  . exact hok
  . exact ⟨p, hp, hcapacity, hload⟩
  . intro q hq
    cases hp.symm.trans hq
    exact hblock
  . intro q hq
    rw [hsame.2 q (by omega), hframe q hq]

theorem ofSize_spec (heap : Heap) (n : SizeT) (garbage : Option (Nat → Byte))
    : Construction heap (Chars.reserve n.toNat garbage) (ofSize heap n garbage).2
        (ofSize heap n garbage).1 := by
  have hcases := ofCapacity_storage heap n garbage
  unfold ofSize Chars.reserve
  generalize Buffer.ofCapacity heap (n + 1) garbage = r at hcases ⊢
  rcases r with ⟨data, heap₀⟩
  dsimp only at hcases ⊢
  rcases hcases with ⟨p, hallocated, hst, hcapacity, hblock, hframe⟩ | ⟨hnot, hdata, rfl⟩
  . have hzero : (0 : SizeT).toNat ≤ (⟨data⟩ : String).capacity.toNat := Nat.zero_le _
    rcases hst.resize_eq hzero with ⟨s₁, heap₁, heq, hres⟩
    have hst₁ := hres.ok.storage hres.data_eq
    rw [if_pos hallocated, heq]
    apply Construction.of_storage hres.ok hres.data_eq
    . rw [hst₁.toNat_capacity, hres.capacity_eq, ← hst.toNat_capacity, hcapacity]
    . rw [toNat_size hres.ok hres.data_eq, hres.size_eq]
      rfl
    . exact hres.sameBut
    . exact hblock
    . exact hframe
  . rw [if_neg hnot, resize_fail (Or.inl (isValid_of_null hdata))]
    apply Construction.of_null hdata

theorem fill_spec {source : Source} {garbage : Option (Nat → Byte)} {heap₁ : Heap} {s₁ : String}
    (hc : Construction heap (Chars.reserve source.bytes.length garbage) heap₁ s₁)
    : Construction heap (Chars.make source.bytes garbage)
        (if s₁.isValid then (s₁.assign heap₁ source).2 else (s₁, heap₁)).2
        (if s₁.isValid then (s₁.assign heap₁ source).2 else (s₁, heap₁)).1 := by
  unfold Chars.reserve at hc
  unfold Chars.make
  split at hc
  . next hallocated =>
    rcases hc.represents with ⟨p, hp, _⟩
    have hassign := (assign_spec hc.ok hc.represents source).2.1
    unfold Chars.replace at hassign
    simp only [Nat.le_refl, ↓reduceDIte] at hassign
    rw [if_pos (isValid_of_data hp), if_pos hallocated]
    apply hc.mutate hassign
  . next hnot =>
    have hnull : s₁.data.data = none := hc.represents
    rw [isValid_of_null hnull, if_neg hnot]
    exact hc

theorem ofView_spec (heap : Heap) (source : Source) (garbage : Option (Nat → Byte))
    : Construction heap (Chars.make source.bytes garbage) (ofView heap source garbage).2
        (ofView heap source garbage).1 := by
  have hc := ofSize_spec heap source.size garbage
  rw [source.toNat_size] at hc
  have hfill := fill_spec hc
  unfold ofView
  dsimp only
  split
  . next hvalid =>
    rw [if_pos hvalid] at hfill
    exact hfill
  . next hvalid =>
    rw [if_neg hvalid] at hfill
    exact hfill

theorem copy_spec {x : Option Chars} {other : String} (hok : other.Ok heap)
    (hx : other.Represents heap x) (garbage : Option (Nat → Byte))
    : Construction heap (Chars.make (Chars.charsOf x) garbage) (copy heap other garbage).2
        (copy heap other garbage).1 := by
  have hc := ofSize_spec heap other.size garbage
  have hframe : ∀ p, other.data.data = some p →
      (ofSize heap other.size garbage).2.blocks p.block = heap.blocks p.block := by
    intro p hp
    apply hc.outside
    exact (hok.backs p hp).block_lt
  have hbytes : (Source.ofSpan (ofSize heap other.size garbage).2 other.view).bytes
      = Chars.charsOf x := by
    have hview := view_spec (hok.frame hframe) (hx.frame hframe)
    exact hview.1
  have hsize : other.size.toNat = (Chars.charsOf x).length := by
    exact (view_spec hok hx).2
  rw [hsize, ← hbytes] at hc
  have hfill := fill_spec hc
  rw [hbytes] at hfill
  unfold copy
  dsimp only
  split
  . next hvalid =>
    rw [if_pos hvalid] at hfill
    exact hfill
  . next hvalid =>
    rw [if_neg hvalid] at hfill
    exact hfill

theorem toNat_strlen (source : CString)
    : source.strlen.toNat = source.bytes.findIdx (· == 0)
        ∧ source.strlen.toNat < source.bytes.length := by
  have hlt : source.bytes.findIdx (· == 0) < source.bytes.length := by
    rw [List.findIdx_lt_length]
    exact ⟨0, source.terminated, rfl⟩
  have hbound := source.le
  unfold ptrdiffMax at hbound
  unfold CString.strlen
  rw [UInt64.toNat_ofNat', Nat.mod_eq_of_lt (by omega)]
  exact ⟨rfl, hlt⟩

theorem chars_bytes (source : CString)
    : source.chars.bytes = CharsWorld.upToNul (some source) := by
  unfold CString.chars CharsWorld.upToNul
  dsimp only
  rw [(toNat_strlen source).1, List.takeWhile_eq_take_findIdx_not]
  simp only [bne, Bool.not_not]

theorem charsOf_bytes (source : Option CString)
    : (CString.charsOf source).bytes = CharsWorld.upToNul source := by
  cases source with
  | none => rfl
  | some source => exact chars_bytes source

theorem length_charsOf_le (source : Option CString)
    : (CString.charsOf source).bytes.length ≤ ptrdiffMax := by
  cases source with
  | none => exact Nat.zero_le _
  | some source =>
    have := source.le
    unfold CString.charsOf CString.chars
    dsimp only
    rw [List.length_take]
    omega

theorem ofCString_null_spec (heap : Heap) (garbage : Option (Nat → Byte))
    : Construction heap none (ofCString heap none garbage).2 (ofCString heap none garbage).1 := by
  have hcases := Buffer.ofCapacity_cases heap 0 garbage
  unfold ofCString
  generalize Buffer.ofCapacity heap 0 garbage = r at hcases ⊢
  rcases r with ⟨data, heap₀⟩
  dsimp only at hcases ⊢
  rcases hcases with ⟨_, _, _, hpos, _⟩ | ⟨_, hdata, rfl⟩
  . simp at hpos
  . apply Construction.of_null hdata

theorem ofCString_spec (heap : Heap) (source : CString) (garbage : Option (Nat → Byte))
    : Construction heap (Chars.make (CharsWorld.upToNul (some source)) garbage)
        (ofCString heap (some source) garbage).2 (ofCString heap (some source) garbage).1 := by
  have hlength : source.chars.bytes.length = source.strlen.toNat := by
    have := (toNat_strlen source).2
    unfold CString.chars
    dsimp only
    rw [List.length_take]
    omega
  have hcases := ofCapacity_storage heap source.strlen garbage
  rw [← hlength] at hcases
  rw [← chars_bytes]
  unfold ofCString Chars.make
  dsimp only
  generalize Buffer.ofCapacity heap (source.strlen + 1) garbage = r at hcases ⊢
  rcases r with ⟨data, heap₀⟩
  dsimp only at hcases ⊢
  rcases hcases with ⟨p, hallocated, hst, hcapacity, hblock, hframe⟩ | ⟨hnot, hdata, rfl⟩
  . have hle : source.chars.bytes.length ≤ (⟨data⟩ : String).capacity.toNat := by
      rw [hcapacity]
      omega
    rcases hst.assign_eq hle with ⟨s₁, heap₁, heq, hr⟩
    have hassign : assignCString heap₀ ⟨data⟩ (some source) = (true, s₁, heap₁) := heq
    rw [if_pos hallocated, if_pos (isValid_of_data hst.data_eq), hassign]
    apply Construction.of_storage hr.ok hr.data_eq
    . rw [hr.capacity_eq, hcapacity, hlength]
    . exact hr.load_eq
    . exact hr.sameBut
    . exact hblock
    . exact hframe
  . rw [if_neg hnot, isValid_of_null hdata]
    apply Construction.of_null hdata

end String

end Sfap
