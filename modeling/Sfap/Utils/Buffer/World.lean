import Sfap.Lib.Transition
import Sfap.Utils.Buffer.Arrays
import Sfap.Utils.Buffer.Lemmas

/-!
This module contains any number of buffers on one heap, over storage of their own or over memory of
their callers.
-/

namespace Sfap

namespace Buffer

/--
What a mutator returns that puts `bs` behind the first `start` bytes of the storage and makes that
the end of what is in use.
-/
def Puts (heap : Heap) (b : Buffer) (start : Nat) (bs : List Byte)
    (result : Bool × Buffer × Heap) : Prop :=
  (∃ p n h, b.data = some p ∧ n.toNat = start + bs.length
      ∧ result = (true, b.withSize n h, heap.store (p.add start) bs))
    ∨
  ((b.data = none ∨ b.capacity.toNat < start + bs.length) ∧ result = (false, b, heap))

section Puts

variable {heap : Heap} {b : Buffer} {start : Nat} {bs : List Byte}

theorem puts_null (h : b.data = none) : b.Puts heap start bs (false, b, heap) := by
  exact .inr ⟨.inl h, rfl⟩

theorem puts_full (h : b.capacity.toNat < start + bs.length)
    : b.Puts heap start bs (false, b, heap) := by
  exact .inr ⟨.inr h, rfl⟩

theorem isEmpty_of_empty {source : Source} (h : source.empty = true) : source.bytes = [] := by
  unfold Source.empty at h
  rw [beq_iff_eq, Word.eq_zero_iff_toNat, source.toNat_size] at h
  apply List.eq_nil_of_length_eq_zero h

theorem Puts.ok_iff {result : Bool × Buffer × Heap} (h : b.Puts heap start bs result)
    : result.1 = true ↔ b.isValid = true ∧ start + bs.length ≤ b.capacity.toNat := by
  rcases h with ⟨p, n, hn, hp, hsize, rfl⟩ | ⟨hnot, rfl⟩
  . rw [b.isValid_of_data hp]
    simp only [true_and, true_iff]
    omega
  . cases hnot with
    | inl hp => simp [b.isValid_of_null hp]
    | inr hlt =>
      simp only [Bool.false_eq_true, false_iff, not_and]
      omega

theorem puts_nil {p : Ptr} {n : SizeT} (hp : b.data = some p) (h : n.toNat ≤ b.capacity.toNat)
    : b.Puts heap n.toNat [] (true, b.withSize n h, heap) := by
  refine .inl ⟨p, n, h, hp, ?_, ?_⟩
  . rw [List.length_nil, Nat.add_zero]
  . rw [Memory.store_nil]

theorem assign_puts (heap : Heap) (b : Buffer) (source : Source)
    : b.Puts heap 0 source.bytes (b.assign heap source) := by
  unfold assign
  cases hp : b.data with
  | none =>
    rw [if_pos (by rw [b.isValid_of_null hp]; rfl)]
    apply puts_null hp
  | some p =>
    rw [if_neg (by rw [b.isValid_of_data hp]; simp)]
    split
    . next hempty =>
      have hzero : (0 : SizeT).toNat ≤ b.capacity.toNat := Nat.zero_le _
      rw [isEmpty_of_empty hempty]
      apply puts_nil hp hzero
    . split
      . next hgt =>
        apply puts_full
        rw [gt_iff_lt, UInt64.lt_iff_toNat_lt, source.toNat_size] at hgt
        omega
      . next hle =>
        rw [gt_iff_lt, UInt64.lt_iff_toNat_lt, Nat.not_lt] at hle
        rw [b.copyAt_eq heap hp, b.resize_eq hle]
        refine .inl ⟨p, source.size, hle, hp, ?_, rfl⟩
        rw [source.toNat_size, Nat.zero_add]

theorem append_puts (heap : Heap) (hbound : b.capacity.toNat ≤ ptrdiffMax) {source : Source}
    (hsource : source.bytes.length ≤ ptrdiffMax)
    : b.Puts heap b.size.toNat source.bytes (b.append heap source) := by
  have hsum : (b.size + source.size).toNat = b.size.toNat + source.bytes.length := by
    have := b.size_le
    unfold ptrdiffMax at *
    rw [Word.toNat_add_of_lt] <;> rw [source.toNat_size]
    omega
  unfold append
  cases hp : b.data with
  | none =>
    rw [if_pos (by rw [b.isValid_of_null hp]; rfl)]
    apply puts_null hp
  | some p =>
    rw [if_neg (by rw [b.isValid_of_data hp]; simp)]
    split
    . next hempty =>
      rw [isEmpty_of_empty hempty]
      apply puts_nil hp b.size_le
    . split
      . next hgt =>
        apply puts_full
        rw [gt_iff_lt, UInt64.lt_iff_toNat_lt] at hgt
        omega
      . next hle =>
        rw [gt_iff_lt, UInt64.lt_iff_toNat_lt, Nat.not_lt] at hle
        rw [b.resize_eq hle]
        dsimp only
        rw [if_neg (by simp), copyAt_eq (b.withSize _ hle) heap hp]
        exact .inl ⟨p, b.size + source.size, hle, hp, hsum, rfl⟩

theorem pushBack_puts (heap : Heap) (b : Buffer) (byte : Byte)
    : b.Puts heap b.size.toNat [byte] (b.pushBack heap byte) := by
  unfold pushBack
  rcases Option.eq_none_or_eq_some b.data with hp | ⟨p, hp⟩
  . rw [if_pos (by rw [b.isValid_of_null hp]; rfl)]
    apply puts_null hp
  . rw [if_neg (by rw [b.isValid_of_data hp]; simp)]
    split
    . next hge =>
      apply puts_full
      rw [ge_iff_le, UInt64.le_iff_toNat_le] at hge
      rw [List.length_singleton]
      omega
    . next hlt =>
      have hnext : (b.size + 1).toNat = b.size.toNat + 1 := by
        have := UInt64.toNat_lt b.capacity
        rw [ge_iff_le, UInt64.le_iff_toNat_le] at hlt
        rw [Word.toNat_add_of_lt] <;> simp only [UInt64.toNat_one]
        omega
      have hle : (b.size + 1).toNat ≤ b.capacity.toNat := by
        rw [ge_iff_le, UInt64.le_iff_toNat_le] at hlt
        omega
      dsimp only
      rw [b.storeAt_eq heap hp]
      exact .inl ⟨p, b.size + 1, hle, hp, hnext, rfl⟩

end Puts

def Live (heap : Heap) (b : Buffer) : Prop :=
  match b.data with
  | none => True
  | some p => heap.Backs p b.capacity.toNat

instance (heap : Heap) (b : Buffer) : Decidable (b.Live heap) := by
  unfold Live
  split <;> infer_instance

-- memory for a buffer to be put over, which like any object is not larger than `PTRDIFF_MAX`
def Provided (heap : Heap) (external : ByteSpan) : Prop :=
  external.size.toNat ≤ ptrdiffMax
    ∧ match external.data with
      | none => True
      | some p => heap.Backs p external.size.toNat

instance (heap : Heap) (external : ByteSpan) : Decidable (Provided heap external) := by
  unfold Provided
  split <;> infer_instance

structure World where
  heap : Heap
  buffers : Nat → Option Buffer

namespace World

def init (heap : Heap) : World := ⟨heap, fun _ => none⟩

def set (w : World) (heap : Heap) (v : Nat) (r : Option Buffer) : World where
  heap := heap
  buffers := Function.update w.buffers v r

def construct (w : World) (v : Nat) (result : Buffer × Heap) : Option (World × Out) :=
  match w.buffers v with
  | some _ => none
  | none => some (w.set result.2 v (some result.1), .valid result.1.isValid)

def mutate (w : World) (v : Nat) (f : Buffer → Bool × Buffer × Heap) : Option (World × Out) :=
  match w.buffers v with
  | none => none
  | some b =>
    if b.Live w.heap then
      let (ok, b, heap) := f b
      some (w.set heap v (some b), .flag ok)
    else
      none

def step (w : World) (op : Op) : Option (World × Out) :=
  match op with
  | .ofCapacity v capacity garbage => w.construct v (ofCapacity w.heap capacity garbage)
  | .ofExternal v external =>
    if Provided w.heap external then w.construct v (ofExternal external, w.heap) else none
  | .destroy v =>
    match w.buffers v with
    | none => none
    | some b => some (w.set (b.destroy w.heap) v none, .done)
  | .assign v source =>
    if source.bytes.length ≤ ptrdiffMax then w.mutate v (·.assign w.heap source) else none
  | .append v source =>
    if source.bytes.length ≤ ptrdiffMax then w.mutate v (·.append w.heap source) else none
  | .pushBack v byte => w.mutate v (·.pushBack w.heap byte)
  | .resize v n =>
    match w.buffers v with
    | none => none
    | some b =>
      let (ok, b) := b.resize n
      some (w.set w.heap v (some b), .flag ok)
  | .clean v =>
    match w.buffers v with
    | none => none
    | some b => some (w.set w.heap v (some b.clean), .done)
  | .moveConstruct v u =>
    match w.buffers v, w.buffers u with
    | none, some other =>
      let (b, rest) := other.moveConstruct
      some ((w.set w.heap u (some rest)).set w.heap v (some b), .done)
    | _, _ => none
  | .moveAssign v u =>
    match w.buffers v, w.buffers u with
    | some b, some other =>
      if v = u then
        some (w, .done)
      else
        let (b, rest, heap) := b.moveAssign w.heap other
        some ((w.set w.heap u (some rest)).set heap v (some b), .done)
    | _, _ => none

end World

/--
The target of `assign`, `append` or `push_back`, how many of its bytes stay in front, and what comes
behind them.
-/
def Op.put? : Op → Option (Nat × (Buffer → Nat) × List Byte)
  | assign v source => some (v, fun _ => 0, source.bytes)
  | append v source => some (v, fun b => b.size.toNat, source.bytes)
  | pushBack v byte => some (v, fun b => b.size.toNat, [byte])
  | _ => none

def window (b : Buffer) : Option Window :=
  match b.data with
  | none => none
  | some p => some ⟨p.block, p.offset, b.capacity.toNat, b.size.toNat, b.size_le⟩

structure Ok (n : Nat) (heap : Heap) (b : Buffer) : Prop where
  bound : b.capacity.toNat ≤ ptrdiffMax
  live : ∀ p, b.data = some p → b.owner = true ∨ p.block < n → heap.Backs p b.capacity.toNat
  own : ∀ p, b.data = some p → b.owner = true → n ≤ p.block

namespace World

structure Inv (n : Nat) (w : World) : Prop where
  ok : ∀ v b, w.buffers v = some b → b.Ok n w.heap
  apart : ∀ v u b c p q, w.buffers v = some b → w.buffers u = some c → v ≠ u → b.owner = true →
    c.owner = true → b.data = some p → c.data = some q → p.block ≠ q.block
  next : n ≤ w.heap.next

structure Refines (n : Nat) (w : World) (a : ArrayWorld) : Prop where
  inv : w.Inv n
  windows : ∀ v, a.windows v = (w.buffers v).map window
  arrays : ∀ q bs, w.heap.blocks q = some bs → a.arrays q = some bs
  fresh : ∀ q, w.heap.next ≤ q → a.arrays q = none

end World

variable {n : Nat} {heap heap' : Heap} {b : Buffer} {w : World} {a : ArrayWorld} {v : Nat}

theorem Ok.frame (h : b.Ok n heap)
    (hbacks : ∀ p k, b.data = some p → b.owner = true ∨ p.block < n → heap.Backs p k →
      heap'.Backs p k)
    : b.Ok n heap' := by
  constructor
  . exact h.bound
  . intro p hp hkept
    apply hbacks p _ hp hkept
    apply h.live p hp hkept
  . exact h.own

theorem Ok.withSize (h : b.Ok n heap) {k : SizeT} (hk : k.toNat ≤ b.capacity.toNat)
    : (b.withSize k hk).Ok n heap := by
  constructor
  . exact h.bound
  . exact h.live
  . exact h.own

theorem Ok.of_null (hbound : b.capacity.toNat ≤ ptrdiffMax) (h : b.data = none) : b.Ok n heap := by
  constructor
  . exact hbound
  . simp [h]
  . simp [h]

theorem Live.backs {p : Ptr} (h : b.Live heap) (hp : b.data = some p)
    : heap.Backs p b.capacity.toNat := by
  unfold Live at h
  rw [hp] at h
  exact h

namespace World

theorem mutate_cases {f : Buffer → Bool × Buffer × Heap} {w' : World} {o : Out}
    (h : w.mutate v f = some (w', o))
    : ∃ b, w.buffers v = some b ∧ b.Live w.heap ∧ w' = w.set (f b).2.2 v (some (f b).2.1)
        ∧ o = .flag (f b).1 := by
  unfold mutate at h
  split at h
  . simp at h
  . next b hb =>
    split at h
    . next hlive =>
      cases h
      exact ⟨b, hb, hlive, rfl, rfl⟩
    . simp at h

theorem Inv.step_put (h : w.Inv n) {op : Op} {start : Buffer → Nat} {bs : List Byte} {w' : World}
    {o : Out} (hput : op.put? = some (v, start, bs)) (hstep : w.step op = some (w', o))
    : ∃ b result, w.buffers v = some b ∧ b.Live w.heap ∧ b.Puts w.heap (start b) bs result
        ∧ w' = w.set result.2.2 v (some result.2.1) ∧ o = .flag result.1 := by
  cases op with
  | assign v source =>
    cases hput
    unfold step at hstep
    dsimp only at hstep
    split at hstep
    . rcases mutate_cases hstep with ⟨b, hb, hlive, hw, ho⟩
      exact ⟨b, _, hb, hlive, assign_puts w.heap b source, hw, ho⟩
    . simp at hstep
  | append v source =>
    cases hput
    unfold step at hstep
    dsimp only at hstep
    split at hstep
    . next hsource =>
      rcases mutate_cases hstep with ⟨b, hb, hlive, hw, ho⟩
      have hbound := (h.ok v b hb).bound
      exact ⟨b, _, hb, hlive, append_puts w.heap hbound hsource, hw, ho⟩
    . simp at hstep
  | pushBack v byte =>
    cases hput
    rcases mutate_cases hstep with ⟨b, hb, hlive, hw, ho⟩
    exact ⟨b, _, hb, hlive, pushBack_puts w.heap b byte, hw, ho⟩
  | _ => simp [Op.put?] at hput

theorem set_self (h : w.buffers v = some b) : w.set w.heap v (some b) = w := by
  unfold set
  rw [← h, Function.update_eq_self]

theorem step_resize {k : SizeT} {w' : World} {o : Out}
    (h : w.step (.resize v k) = some (w', o))
    : ∃ b, w.buffers v = some b
        ∧ ((∃ hk, w' = w.set w.heap v (some (b.withSize k hk)) ∧ o = .flag true)
            ∨
          (b.capacity.toNat < k.toNat ∧ w' = w ∧ o = .flag false)) := by
  unfold step at h
  dsimp only at h
  split at h
  . simp at h
  . next b hb =>
    refine ⟨b, hb, ?_⟩
    rcases Nat.lt_or_ge b.capacity.toNat k.toNat with hlt | hle
    . have hfail : b.resize k = (false, b) := by
        unfold resize
        rw [dif_pos (by rw [gt_iff_lt, UInt64.lt_iff_toNat_lt]; exact hlt)]
      rw [hfail] at h
      cases h
      exact .inr ⟨hlt, set_self hb, rfl⟩
    . rw [b.resize_eq hle] at h
      cases h
      exact .inl ⟨hle, rfl, rfl⟩

theorem Refines.init (heap : Heap)
    : (init heap).Refines heap.next (.init heap.blocks) := by
  constructor
  . constructor
    . intro v b hb
      simp [World.init] at hb
    . intro v u b c p q hb
      simp [World.init] at hb
    . apply Nat.le_refl _
  . intro v
    rfl
  . intro q bs hbs
    exact hbs
  . exact heap.fresh

theorem Refines.update (h : w.Refines n a) {r : Option Buffer} {arrays : Nat → Option (List Byte)}
    (hnext : w.heap.next ≤ heap'.next) (hok : ∀ b, r = some b → b.Ok n heap')
    (hapart : ∀ b p u c q, r = some b → b.owner = true → b.data = some p → u ≠ v →
      w.buffers u = some c → c.owner = true → c.data = some q → p.block ≠ q.block)
    (hframe : ∀ u c q k, u ≠ v → w.buffers u = some c → c.data = some q →
      c.owner = true ∨ q.block < n → w.heap.Backs q k → heap'.Backs q k)
    (harrays : ∀ q bs, heap'.blocks q = some bs → arrays q = some bs)
    (hfresh : ∀ q, heap'.next ≤ q → arrays q = none)
    : (w.set heap' v r).Refines n ⟨arrays, Function.update a.windows v (r.map window)⟩ := by
  constructor
  . constructor
    . unfold set
      dsimp only
      intro u c hc
      by_cases hu : u = v
      . rw [hu, Function.update_self] at hc
        apply hok c hc
      . rw [Function.update_of_ne hu] at hc
        apply (h.inv.ok u c hc).frame
        intro q k hq hkept hbacks
        apply hframe u c q k hu hc hq hkept hbacks
    . unfold set
      dsimp only
      intro u₁ u₂ c₁ c₂ p q hc₁ hc₂ hne ho₁ ho₂ hp hq
      by_cases hu₁ : u₁ = v
      . have hu₂ : u₂ ≠ v := fun heq => hne (hu₁.trans heq.symm)
        rw [hu₁, Function.update_self] at hc₁
        rw [Function.update_of_ne hu₂] at hc₂
        apply hapart c₁ p u₂ c₂ q hc₁ ho₁ hp hu₂ hc₂ ho₂ hq
      . rw [Function.update_of_ne hu₁] at hc₁
        by_cases hu₂ : u₂ = v
        . rw [hu₂, Function.update_self] at hc₂
          exact (hapart c₂ q u₁ c₁ p hc₂ ho₂ hq hu₁ hc₁ ho₁ hp).symm
        . rw [Function.update_of_ne hu₂] at hc₂
          apply h.inv.apart u₁ u₂ c₁ c₂ p q hc₁ hc₂ hne ho₁ ho₂ hp hq
    . apply Nat.le_trans h.inv.next hnext
  . unfold set
    dsimp only
    intro u
    by_cases hu : u = v
    . rw [hu, Function.update_self, Function.update_self]
    . rw [Function.update_of_ne hu, Function.update_of_ne hu]
      apply h.windows u
  . exact harrays
  . exact hfresh

end World

end Buffer

end Sfap
