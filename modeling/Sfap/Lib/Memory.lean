import Mathlib.Data.List.Basic

/-!
This module contains a memory of separately allocated blocks, pointers into it, and what storing at
one pointer does to what is loaded through another.
-/

variable {α : Type}

namespace List

def splice (xs : List α) (i : Nat) (ys : List α) : List α :=
  xs.take i ++ ys ++ xs.drop (i + ys.length)

@[simp]
theorem splice_nil (xs : List α) (i : Nat) : xs.splice i [] = xs := by
  simp [splice]

theorem length_splice {xs ys : List α} {i : Nat} (h : i + ys.length ≤ xs.length)
    : (xs.splice i ys).length = xs.length := by
  unfold splice
  simp only [length_append, length_take, length_drop]
  omega

theorem take_splice {xs ys : List α} {i n : Nat} (h : n ≤ i) (hi : i ≤ xs.length)
    : (xs.splice i ys).take n = xs.take n := by
  unfold splice
  rw [append_assoc, take_append_of_le_length]
  . rw [take_take, Nat.min_eq_left h]
  . rw [length_take]
    omega

theorem take_splice_end {xs ys : List α} {i : Nat} (hi : i ≤ xs.length)
    : (xs.splice i ys).take (i + ys.length) = xs.take i ++ ys := by
  unfold splice
  apply take_left'
  rw [length_append, length_take]
  omega

theorem splice_end {xs ys : List α} {i : Nat} (h : i + ys.length = xs.length)
    : xs.splice i ys = xs.take i ++ ys := by
  unfold splice
  rw [h, drop_length, append_nil]

theorem splice_singleton {xs : List α} {i : Nat} (h : i < xs.length) (x : α) : xs.splice i [x] = xs.set i x := by
  unfold splice
  rw [set_eq_take_append_cons_drop, if_pos h, append_assoc]
  rfl

theorem getElem?_splice {xs ys : List α} {i : Nat} (h : i + ys.length ≤ xs.length) (j : Nat)
    : (xs.splice i ys)[j]?
        =
      if i ≤ j ∧ j < i + ys.length then ys[j - i]? else xs[j]? := by
  have hlen : (xs.take i).length = i := by
    rw [length_take]
    omega
  unfold splice
  rcases Nat.lt_or_ge j i with hlt | hge
  . rw [append_assoc, getElem?_append_left (by omega), getElem?_take_of_lt hlt]
    simp only [Nat.not_le.mpr hlt, false_and, ↓reduceIte]
  . rcases Nat.lt_or_ge j (i + ys.length) with hlt | hge'
    . rw [append_assoc, getElem?_append_right (by omega), getElem?_append_left (by omega), hlen]
      simp only [hge, hlt, and_self, ↓reduceIte]
    . rw [getElem?_append_right (by rw [length_append]; omega), getElem?_drop, length_append, hlen,
        Nat.add_sub_cancel' hge']
      simp only [Nat.not_lt.mpr hge', and_false, ↓reduceIte]

theorem take_drop_splice {xs ys : List α} {i o n : Nat} (hn : o + n ≤ xs.length)
    (hi : i + ys.length ≤ n)
    : ((xs.splice (o + i) ys).drop o).take n = ((xs.drop o).take n).splice i ys := by
  have hlen : ((xs.drop o).take n).length = n := by
    rw [length_take, length_drop]
    omega
  apply ext_getElem?
  intro j
  rw [getElem?_splice (by omega)]
  rcases Nat.lt_or_ge j n with hlt | hge
  . rw [getElem?_take_of_lt hlt, getElem?_drop, getElem?_splice (by omega),
      getElem?_take_of_lt hlt, getElem?_drop]
    have hcond : (o + i ≤ o + j ∧ o + j < o + i + ys.length) ↔ (i ≤ j ∧ j < i + ys.length) := by
      omega
    rw [if_congr hcond rfl rfl, Nat.add_sub_add_left]
  . rw [getElem?_take_eq_none hge, getElem?_take_eq_none hge]
    simp only [Nat.not_lt.mpr (Nat.le_trans hi hge), and_false, ↓reduceIte]

theorem splice_append {xs ys zs : List α} {i : Nat} (h : i ≤ xs.length)
    : (xs.splice i ys).splice (i + ys.length) zs = xs.splice i (ys ++ zs) := by
  have htake : ((xs.splice i ys).take (i + ys.length)) = xs.take i ++ ys := take_splice_end h
  have hlen : (xs.take i ++ ys).length = i + ys.length := by
    rw [length_append, length_take, Nat.min_eq_left h]
  have hdrop : (xs.splice i ys).drop (i + ys.length + zs.length) = xs.drop (i + (ys ++ zs).length) := by
    unfold splice
    rw [drop_append, drop_eq_nil_of_le (by omega), nil_append, drop_drop, hlen, length_append]
    congr 1
    omega
  rw [splice, htake, hdrop, splice]
  simp only [append_assoc]

end List

structure Ptr where
  block : Nat
  offset : Nat
  deriving DecidableEq, Repr

def Ptr.add (p : Ptr) (i : Nat) : Ptr :=
  { p with offset := p.offset + i }

structure Memory (α : Type) where
  blocks : Nat → Option (List α)
  next : Nat
  fresh : ∀ b, next ≤ b → blocks b = none

namespace Memory

def empty : Memory α where
  blocks _ := none
  next := 0
  fresh _ _ := rfl

def alloc (m : Memory α) (bs : List α) : Ptr × Memory α :=
  (⟨m.next, 0⟩, {
    blocks := fun b => if b = m.next then some bs else m.blocks b
    next := m.next + 1
    fresh := by
      intro b hb
      rw [if_neg (by omega)]
      apply m.fresh b (by omega)
  })

def free (m : Memory α) (p : Ptr) : Memory α where
  blocks b := if b = p.block then none else m.blocks b
  next := m.next
  fresh := by
    intro b hb
    split
    . rfl
    . apply m.fresh b hb

def load (m : Memory α) (p : Ptr) (n : Nat) : List α :=
  (((m.blocks p.block).getD []).drop p.offset).take n

def store (m : Memory α) (p : Ptr) (bs : List α) : Memory α where
  blocks b := if b = p.block then (m.blocks b).map (·.splice p.offset bs) else m.blocks b
  next := m.next
  fresh := by
    intro b hb
    rw [m.fresh b hb]
    simp

/--
The `n` cells from `p` on are allocated.
-/
def Backs (m : Memory α) (p : Ptr) (n : Nat) : Prop :=
  ∃ bs, m.blocks p.block = some bs ∧ p.offset + n ≤ bs.length

def SameBut (m m' : Memory α) (p : Ptr) : Prop :=
  m'.next = m.next ∧ ∀ b, b ≠ p.block → m'.blocks b = m.blocks b

variable {m : Memory α} {p q : Ptr} {n : Nat} {bs : List α}

theorem Backs.block_lt (h : m.Backs p n) : p.block < m.next := by
  rcases h with ⟨bs, hbs, _⟩
  apply Nat.lt_of_not_le
  intro hle
  rw [m.fresh p.block hle] at hbs
  simp at hbs

instance (m : Memory α) (p : Ptr) (n : Nat) : Decidable (m.Backs p n) :=
  match h : m.blocks p.block with
  | none => .isFalse (by simp [Backs, h])
  | some bs => decidable_of_iff (p.offset + n ≤ bs.length) (by simp [Backs, h])

theorem Backs.mono {k : Nat} (h : m.Backs p n) (hk : k ≤ n) : m.Backs p k := by
  rcases h with ⟨bs, hbs, hle⟩
  exact ⟨bs, hbs, by omega⟩

theorem Backs.congr {m' : Memory α} (h : m.Backs p n) (heq : m'.blocks p.block = m.blocks p.block)
    : m'.Backs p n := by
  rcases h with ⟨bs, hbs, hle⟩
  exact ⟨bs, heq.trans hbs, hle⟩

theorem Backs.length_load (h : m.Backs p n) : (m.load p n).length = n := by
  rcases h with ⟨bs, hbs, hle⟩
  unfold load
  rw [hbs, List.length_take, Option.getD_some, List.length_drop]
  omega

theorem length_load_le (m : Memory α) (p : Ptr) (n : Nat) : (m.load p n).length ≤ n := by
  unfold load
  rw [List.length_take]
  omega

theorem load_congr {m' : Memory α} (h : m'.blocks p.block = m.blocks p.block) (n : Nat)
    : m'.load p n = m.load p n := by
  unfold load
  rw [h]

theorem take_load {k : Nat} (h : k ≤ n) : (m.load p n).take k = m.load p k := by
  unfold load
  rw [List.take_take, Nat.min_eq_left h]

theorem load_add {i k : Nat} (h : i + k ≤ n)
    : m.load (p.add i) k = ((m.load p n).drop i).take k := by
  unfold load Ptr.add
  rw [List.drop_take, List.take_take, List.drop_drop, Nat.min_eq_left (by omega)]

theorem Backs.store (h : m.Backs p n) {i : Nat} (hi : i + bs.length ≤ n)
    : (m.store (p.add i) bs).Backs p n := by
  rcases h with ⟨cs, hcs, hle⟩
  refine ⟨cs.splice (p.offset + i) bs, ?_, ?_⟩
  . simp [Memory.store, Ptr.add, hcs]
  . rw [List.length_splice (by omega)]
    exact hle

theorem Backs.store_of_backs (h : m.Backs p n) {i k : Nat} (hi : i + bs.length ≤ n)
    (hq : m.Backs q k)
    : (m.store (p.add i) bs).Backs q k := by
  rcases hq with ⟨ds, hds, hlength⟩
  rcases h with ⟨cs, hcs, hroom⟩
  unfold Backs Memory.store Ptr.add
  dsimp only
  by_cases heq : q.block = p.block
  . rw [heq, hcs] at hds
    cases hds
    rw [if_pos heq, heq, hcs]
    refine ⟨_, rfl, ?_⟩
    rw [List.length_splice (by omega)]
    exact hlength
  . rw [if_neg heq]
    exact ⟨ds, hds, hlength⟩

theorem load_store (h : m.Backs p n) {i : Nat} (hi : i + bs.length ≤ n)
    : (m.store (p.add i) bs).load p n = (m.load p n).splice i bs := by
  rcases h with ⟨cs, hcs, hle⟩
  unfold load store Ptr.add
  simp only [↓reduceIte, hcs, Option.map_some, Option.getD_some]
  apply List.take_drop_splice hle hi

theorem load_store_front (h : m.Backs p n) {i : Nat} (hi : i + bs.length ≤ n)
    : (m.store (p.add i) bs).load p i = m.load p i := by
  rw [← take_load (by omega : i ≤ n), load_store h hi, List.take_splice (Nat.le_refl i)]
  . apply take_load
    omega
  . rw [h.length_load]
    omega

theorem load_store_end (h : m.Backs p n) {i : Nat} (hi : i + bs.length ≤ n)
    : (m.store (p.add i) bs).load p (i + bs.length) = m.load p i ++ bs := by
  rw [← take_load hi, load_store h hi, List.take_splice_end]
  . rw [take_load (by omega)]
  . rw [h.length_load]
    omega

@[simp]
theorem store_nil (m : Memory α) (p : Ptr) : m.store p [] = m := by
  unfold store
  congr 1
  funext b
  simp

theorem store_append (h : m.Backs p n) (bs cs : List α)
    : (m.store p bs).store (p.add bs.length) cs = m.store p (bs ++ cs) := by
  rcases h with ⟨ds, hds, hle⟩
  unfold store Ptr.add
  congr 1
  funext b
  dsimp only
  split
  . next heq =>
    rw [heq, hds, Option.map_some, Option.map_some, List.splice_append (by omega)]
    rfl
  . rfl

theorem sameBut_store (m : Memory α) (p : Ptr) (i : Nat) (bs : List α)
    : m.SameBut (m.store (p.add i) bs) p := by
  refine ⟨rfl, ?_⟩
  intro b hb
  apply if_neg
  exact hb

theorem SameBut.refl (m : Memory α) (p : Ptr) : m.SameBut m p := by
  exact ⟨rfl, fun _ _ => rfl⟩

theorem SameBut.trans {m₁ m₂ : Memory α} (h₁ : m.SameBut m₁ p) (h₂ : m₁.SameBut m₂ p)
    : m.SameBut m₂ p := by
  refine ⟨h₂.1.trans h₁.1, ?_⟩
  intro b hb
  rw [h₂.2 b hb, h₁.2 b hb]

def Apart (p : Ptr) (n : Nat) (q : Ptr) (k : Nat) : Prop :=
  p.block ≠ q.block ∨ p.offset + n ≤ q.offset ∨ q.offset + k ≤ p.offset

theorem Apart.symm {k : Nat} (h : Apart p n q k) : Apart q k p n := by
  rcases h with hblock | hbefore | hbehind
  . exact .inl hblock.symm
  . exact .inr (.inr hbefore)
  . exact .inr (.inl hbehind)

theorem load_store_apart (h : m.Backs p n) {i k : Nat} (hi : i + bs.length ≤ n) (hapart : Apart p n q k)
    : (m.store (p.add i) bs).load q k = m.load q k := by
  rcases h with ⟨cs, hcs, hle⟩
  by_cases hblock : q.block = p.block
  . unfold load store Ptr.add
    dsimp only
    rw [if_pos hblock, hblock, hcs, Option.map_some, Option.getD_some, Option.getD_some]
    apply List.ext_getElem?
    intro j
    rw [List.getElem?_take, List.getElem?_take, List.getElem?_drop, List.getElem?_drop]
    split
    . next hlt =>
      rw [List.getElem?_splice (by omega), if_neg]
      rcases hapart with hne | hbefore | hbehind
      . exact absurd hblock.symm hne
      . omega
      . omega
    . rfl
  . apply load_congr
    exact if_neg hblock

theorem alloc_backs (m : Memory α) (bs : List α) : (m.alloc bs).2.Backs (m.alloc bs).1 bs.length := by
  refine ⟨bs, ?_, ?_⟩
  . simp [alloc]
  . simp [alloc]

theorem load_alloc (m : Memory α) (bs : List α) : (m.alloc bs).2.load (m.alloc bs).1 bs.length = bs := by
  simp [load, alloc]

theorem alloc_blocks (m : Memory α) (bs : List α) {b : Nat} (hb : b < m.next)
    : (m.alloc bs).2.blocks b = m.blocks b := by
  unfold alloc
  dsimp only
  rw [if_neg (by omega)]

theorem free_blocks (m : Memory α) {p : Ptr} {b : Nat} (hb : b ≠ p.block)
    : (m.free p).blocks b = m.blocks b := by
  simp only [free, if_neg hb]

def Allocated (m : Memory α) (b : Nat) : Prop :=
  m.blocks b ≠ none

theorem Allocated.lt {b : Nat} (h : m.Allocated b) : b < m.next := by
  apply Nat.lt_of_not_le
  intro hle
  exact h (m.fresh b hle)

theorem allocated_store (m : Memory α) (p : Ptr) (bs : List α) (b : Nat)
    : (m.store p bs).Allocated b ↔ m.Allocated b := by
  unfold Allocated store
  dsimp only
  split
  . simp
  . rfl

theorem allocated_alloc (m : Memory α) (bs : List α) (b : Nat)
    : (m.alloc bs).2.Allocated b ↔ b = m.next ∨ m.Allocated b := by
  unfold Allocated alloc
  dsimp only
  split
  . next heq => simp [heq]
  . next hne => simp [hne]

theorem allocated_free (m : Memory α) (p : Ptr) (b : Nat)
    : (m.free p).Allocated b ↔ m.Allocated b ∧ b ≠ p.block := by
  unfold Allocated free
  dsimp only
  split
  . next heq => simp [heq]
  . next hne => simp [hne]

end Memory
