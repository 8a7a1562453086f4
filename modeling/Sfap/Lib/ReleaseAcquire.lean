import Mathlib.Data.List.Induction
import Mathlib.Logic.Function.Basic
import Mathlib.Logic.Relation

/-!
This module contains the happens-before order of threads that synchronise by release stores and acquire
loads, data races, and the rule that such a store publishes all that its thread has done before.
-/

namespace ReleaseAcquire

/--
What a thread does to memory: accesses to the plain objects `X`, and release stores and acquire loads of
the atomic ones `L`. `load l k` reads the `k`-th store to `l`, and for `k = 0` the initial value.
-/
inductive Action (X L : Type) where
  | internal
  | read (x : X)
  | write (x : X)
  | store (l : L)
  | load (l : L) (k : Nat)
  deriving DecidableEq, Repr

structure Event (T X L : Type) where
  thread : T
  action : Action X L
  deriving DecidableEq, Repr

variable {T X L : Type}

namespace Action

def object : Action X L → Option X
  | .read x => some x
  | .write x => some x
  | _ => none

def isWrite : Action X L → Bool
  | .write _ => true
  | _ => false

def storesTo [DecidableEq L] (l : L) : Action X L → Bool
  | .store l' => l' = l
  | _ => false

theorem storesTo_iff [DecidableEq L] {l : L} {a : Action X L} : a.storesTo l = true ↔ a = .store l := by
  cases a <;> simp [storesTo]

end Action

-- two threads access one object, and not both read it
def Event.Conflicts (e e' : Event T X L) : Prop :=
  e.thread ≠ e'.thread
    ∧ (∃ x, e.action.object = some x ∧ e'.action.object = some x)
    ∧ (e.action.isWrite = true ∨ e'.action.isWrite = true)

theorem lt_length {es : List (Event T X L)} {e : Event T X L} {i : Nat} (h : es[i]? = some e)
    : i < es.length :=
  (List.getElem?_eq_some_iff.mp h).1

theorem getElem?_append {es : List (Event T X L)} {e : Event T X L} {i : Nat} (h : es[i]? = some e)
    (more : List (Event T X L))
    : (es ++ more)[i]? = some e := by
  rw [List.getElem?_append_left (lt_length h)]
  exact h

theorem getElem?_snoc_cases {es : List (Event T X L)} {e e' : Event T X L} {i : Nat}
    (h : (es ++ [e])[i]? = some e')
    : es[i]? = some e' ∨ (i = es.length ∧ e' = e) := by
  rcases Nat.lt_or_ge i es.length with hlt | hge
  . rw [List.getElem?_append_left hlt] at h
    exact .inl h
  . have hlen := lt_length h
    rw [List.length_append, List.length_singleton] at hlen
    have heq : i = es.length := by omega
    rw [heq, List.getElem?_concat_length, Option.some.injEq] at h
    exact .inr ⟨heq, h.symm⟩

section Order

variable [DecidableEq L]

def stores (es : List (Event T X L)) (l : L) : Nat :=
  es.countP fun e => e.action.storesTo l

def ProgramOrder (es : List (Event T X L)) (i j : Nat) : Prop :=
  i < j ∧ ∃ e e', es[i]? = some e ∧ es[j]? = some e' ∧ e.thread = e'.thread

def SynchronizesWith (es : List (Event T X L)) (i j : Nat) : Prop :=
  i < j ∧ ∃ l e e', es[i]? = some e ∧ es[j]? = some e' ∧ e.action = .store l
    ∧ e'.action = .load l (stores (es.take i) l + 1)

def Direct (es : List (Event T X L)) (i j : Nat) : Prop :=
  ProgramOrder es i j ∨ SynchronizesWith es i j

def HappensBefore (es : List (Event T X L)) : Nat → Nat → Prop :=
  Relation.TransGen (Direct es)

def RaceFree (es : List (Event T X L)) : Prop :=
  ∀ i j e e', i < j → es[i]? = some e → es[j]? = some e' → e.Conflicts e' → HappensBefore es i j

variable {es : List (Event T X L)} {e e' : Event T X L} {l : L} {i j : Nat}

theorem Direct.append (h : Direct es i j) (more : List (Event T X L)) : Direct (es ++ more) i j := by
  rcases h with ⟨hlt, e, e', hi, hj, hthread⟩ | ⟨hlt, l, e, e', hi, hj, hstore, hload⟩
  . exact .inl ⟨hlt, e, e', getElem?_append hi more, getElem?_append hj more, hthread⟩
  . refine .inr ⟨hlt, l, e, e', getElem?_append hi more, getElem?_append hj more, hstore, ?_⟩
    rw [List.take_append_of_le_length (Nat.le_of_lt (lt_length hi))]
    exact hload

theorem HappensBefore.append (h : HappensBefore es i j) (more : List (Event T X L))
    : HappensBefore (es ++ more) i j := by
  have hsub : ∀ i j, Direct es i j → Direct (es ++ more) i j := by
    intro i j hdirect
    apply hdirect.append
  exact Relation.TransGen.mono hsub i j h

theorem RaceFree.nil : RaceFree ([] : List (Event T X L)) := by
  intro i j e e' _ hi
  simp at hi

theorem RaceFree.snoc (h : RaceFree es)
    (hnew : ∀ i e', es[i]? = some e' → e'.Conflicts e → HappensBefore (es ++ [e]) i es.length)
    : RaceFree (es ++ [e]) := by
  intro i j e₁ e₂ hlt hi hj hconf
  rcases getElem?_snoc_cases hj with hj | ⟨rfl, rfl⟩
  . have hlen := lt_length hj
    rw [List.getElem?_append_left (by omega)] at hi
    apply (h i j e₁ e₂ hlt hi hj hconf).append
  . rw [List.getElem?_append_left hlt] at hi
    apply hnew i e₁ hi hconf

theorem stores_append (es more : List (Event T X L)) (l : L)
    : stores (es ++ more) l = stores es l + stores more l := by
  apply List.countP_append

theorem stores_snoc (es : List (Event T X L)) (e : Event T X L) (l : L)
    : stores (es ++ [e]) l = stores es l + if e.action.storesTo l then 1 else 0 := by
  rw [stores_append]
  unfold stores
  rw [List.countP_singleton]

theorem stores_take_le (es : List (Event T X L)) (l : L) {i j : Nat} (h : i ≤ j)
    : stores (es.take i) l ≤ stores (es.take j) l := by
  apply List.Sublist.countP_le
  apply List.IsPrefix.sublist
  apply List.take_prefix_take_left h

theorem exists_store {k : Nat} (hk : 0 < k) (hle : k ≤ stores es l)
    : ∃ i e, es[i]? = some e ∧ e.action = .store l ∧ stores (es.take i) l + 1 = k := by
  induction es using List.reverseRecOn with
  | nil => simp [stores] at hle; omega
  | append_singleton es e ih =>
    rcases Nat.lt_or_ge (stores es l) k with hlt | hge
    . rw [stores_snoc] at hle
      split at hle
      . next hstore =>
        refine ⟨es.length, e, List.getElem?_concat_length, Action.storesTo_iff.mp hstore, ?_⟩
        rw [List.take_left]
        omega
      . omega
    . rcases ih hge with ⟨i, e', hi, hstore, hcount⟩
      refine ⟨i, e', getElem?_append hi _, hstore, ?_⟩
      rw [List.take_append_of_le_length (Nat.le_of_lt (lt_length hi))]
      exact hcount

def Acquired (es : List (Event T X L)) (t : T) (l : L) (k : Nat) : Prop :=
  k = 0 ∨ ∃ r, es[r]? = some ⟨t, .load l k⟩ ∧ k ≤ stores (es.take r) l

theorem Acquired.append {t : T} {k : Nat} (h : Acquired es t l k) (more : List (Event T X L))
    : Acquired (es ++ more) t l k := by
  rcases h with hzero | ⟨r, hr, hle⟩
  . exact .inl hzero
  . refine .inr ⟨r, getElem?_append hr more, ?_⟩
    rw [List.take_append_of_le_length (Nat.le_of_lt (lt_length hr))]
    exact hle

theorem Acquired.load {t : T} {k : Nat} (hle : k ≤ stores es l) : Acquired (es ++ [⟨t, .load l k⟩]) t l k := by
  refine .inr ⟨es.length, List.getElem?_concat_length, ?_⟩
  rw [List.take_left]
  exact hle

/--
What the only thread that stores to `l` has done before its `k`-th store happens before all that a thread
does once it has read this store.
-/
theorem Acquired.happensBefore {t u : T} {k : Nat} (hacq : Acquired es t l k)
    (howner : ∀ e ∈ es, e.action = .store l → e.thread = u) (hi : es[i]? = some e) (hthread : e.thread = u)
    (hbefore : stores (es.take i) l < k) {next : Event T X L} (hnext : next.thread = t)
    : HappensBefore (es ++ [next]) i es.length := by
  rcases hacq with rfl | ⟨r, hr, hle⟩
  . exact absurd hbefore (Nat.not_lt_zero _)
  . rcases exists_store (Nat.zero_lt_of_lt hbefore) hle with ⟨j, e', hj, hstore, hcount⟩
    have hjr : j < r := by
      have hlen := lt_length hj
      rw [List.length_take] at hlen
      omega
    rw [List.getElem?_take_of_lt hjr] at hj
    rw [List.take_take, Nat.min_eq_left (Nat.le_of_lt hjr)] at hcount
    have hsync : Direct es j r := by
      refine .inr ⟨hjr, l, e', _, hj, hr, hstore, ?_⟩
      rw [hcount]
    have hlast : Direct (es ++ [next]) r es.length := by
      refine .inl ⟨lt_length hr, _, next, getElem?_append hr _, List.getElem?_concat_length, ?_⟩
      exact hnext.symm
    have hpublished : HappensBefore es j r := .single hsync
    have hij : i ≤ j := by
      by_contra hlt
      have hsucc : stores (es.take (j + 1)) l = stores (es.take j) l + 1 := by
        rw [List.take_add_one, hj, Option.toList_some, stores_snoc, if_pos (Action.storesTo_iff.mpr hstore)]
      have hmono := stores_take_le es l (i := j + 1) (j := i) (by omega)
      omega
    apply Relation.TransGen.tail _ hlast
    rcases Nat.lt_or_eq_of_le hij with hlt | rfl
    . have howned := howner e' (List.mem_of_getElem? hj) hstore
      have hprogram : Direct es i j := .inl ⟨hlt, e, e', hi, hj, hthread.trans howned.symm⟩
      exact HappensBefore.append (.head hprogram hpublished) _
    . exact hpublished.append _

end Order

section Handover

variable [DecidableEq L] {counter : T → L} {slot : Nat → X} {es : List (Event T X L)} {e : Event T X L}
  {positions : L → List Nat} {bound : T → Nat}

def Touched (slot : Nat → X) (es : List (Event T X L)) (positions : List Nat) (l : L) (bound i : Nat) (x : X)
    : Prop :=
  ∃ p m, x = slot p ∧ positions[stores (es.take i) l]? = some m ∧ m ≤ p ∧ p < bound

/--
Every thread goes through the positions in order and stores in its own counter how far it has come. A slot
serves many positions, `positions l` are all that have been stored to `l`.
-/
structure Handover (counter : T → L) (slot : Nat → X) (es : List (Event T X L)) (positions : L → List Nat)
    (bound : T → Nat) : Prop where
  stored : ∀ l, (positions l).length = stores es l + 1
  sorted : ∀ l, (positions l).Pairwise (· ≤ ·)
  owner : ∀ e ∈ es, ∀ t, e.action = .store (counter t) → e.thread = t
  touched : ∀ (i : Nat) e x, es[i]? = some e → e.action.object = some x →
    Touched slot es (positions (counter e.thread)) (counter e.thread) (bound e.thread) i x
  raceFree : RaceFree es

theorem Touched.append {ps ps' : List Nat} {l : L} {b b' i : Nat} {x : X} (h : Touched slot es ps l b i x)
    (hps : ps <+: ps') (hb : b ≤ b') (hi : i ≤ es.length) (more : List (Event T X L))
    : Touched slot (es ++ more) ps' l b' i x := by
  rcases h with ⟨p, m, hx, hm, hle, hlt⟩
  refine ⟨p, m, hx, ?_, hle, by omega⟩
  rw [List.take_append_of_le_length hi]
  rcases hps with ⟨rest, rfl⟩
  rw [List.getElem?_append_left (List.getElem?_eq_some_iff.mp hm).1]
  exact hm

theorem Handover.init (counter : T → L) (slot : Nat → X) (bound : T → Nat)
    : Handover counter slot [] (fun _ => [0]) bound := by
  constructor
  . intro l
    rfl
  . intro l
    apply List.pairwise_singleton
  . simp
  . simp
  . exact .nil

theorem Handover.lt_of_lt (h : Handover counter slot es positions bound) {l : L} {i j p q : Nat}
    (hi : (positions l)[i]? = some p) (hj : (positions l)[j]? = some q) (hlt : p < q)
    : i < j := by
  rcases List.getElem?_eq_some_iff.mp hi with ⟨hi', rfl⟩
  rcases List.getElem?_eq_some_iff.mp hj with ⟨hj', rfl⟩
  by_contra hge
  rcases Nat.lt_or_eq_of_le (Nat.not_lt.mp hge) with hji | rfl
  . have := List.pairwise_iff_getElem.mp (h.sorted l) j i hj' hi' hji
    omega
  . omega

theorem Handover.le_of_le (h : Handover counter slot es positions bound) {l : L} {i j p q : Nat}
    (hi : (positions l)[i]? = some p) (hj : (positions l)[j]? = some q) (hle : i ≤ j)
    : p ≤ q := by
  by_contra hlt
  have := h.lt_of_lt hj hi (by omega)
  omega

theorem Handover.touched_append (h : Handover counter slot es positions bound) {positions' : L → List Nat}
    {bound' : T → Nat} (hpositions : ∀ l, positions l <+: positions' l) (hbound : ∀ t, bound t ≤ bound' t)
    {i : Nat} {e' : Event T X L} {x : X} (hi : es[i]? = some e') (hx : e'.action.object = some x)
    : Touched slot (es ++ [e]) (positions' (counter e'.thread)) (counter e'.thread) (bound' e'.thread) i x := by
  apply (h.touched i e' x hi hx).append (hpositions _) (hbound _)
  apply Nat.le_of_lt (lt_length hi)

theorem Handover.quiet (h : Handover counter slot es positions bound) {bound' : T → Nat}
    (hbound : ∀ t, bound t ≤ bound' t) (hobject : e.action.object = none)
    (hstore : ∀ l, e.action.storesTo l = false)
    : Handover counter slot (es ++ [e]) positions bound' := by
  constructor
  . intro l
    rw [stores_snoc, hstore l, h.stored l]
    rfl
  . exact h.sorted
  . intro e' he' t ht
    rw [List.mem_append, List.mem_singleton] at he'
    rcases he' with he' | rfl
    . apply h.owner e' he' t ht
    . have := hstore (counter t)
      rw [Action.storesTo_iff.mpr ht] at this
      simp at this
  . intro i e' x hi hx
    rcases getElem?_snoc_cases hi with hi | ⟨_, rfl⟩
    . apply h.touched_append (fun _ => List.prefix_rfl) hbound hi hx
    . rw [hobject] at hx
      simp at hx
  . apply h.raceFree.snoc
    rintro i e' _ ⟨_, ⟨x, _, hx⟩, _⟩
    rw [hobject] at hx
    simp at hx

theorem Handover.store (h : Handover counter slot es positions bound) (hinj : Function.Injective counter)
    {bound' : T → Nat} (hbound : ∀ t, bound t ≤ bound' t) (t : T) {p : Nat}
    (hle : ∀ m ∈ positions (counter t), m ≤ p)
    : Handover counter slot (es ++ [⟨t, .store (counter t)⟩])
        (Function.update positions (counter t) (positions (counter t) ++ [p])) bound' := by
  have hpre (l : L) : positions l <+: Function.update positions (counter t) (positions (counter t) ++ [p]) l := by
    by_cases hl : l = counter t
    . rw [hl, Function.update_self]
      apply List.prefix_append
    . refine ⟨[], ?_⟩
      rw [List.append_nil, Function.update_of_ne hl]
  constructor
  . intro l
    rw [stores_snoc]
    by_cases hl : l = counter t
    . rw [hl, Function.update_self, List.length_append, h.stored, if_pos (Action.storesTo_iff.mpr rfl)]
      rfl
    . rw [Function.update_of_ne hl, h.stored, if_neg]
      intro hstore
      rw [Action.storesTo_iff, Action.store.injEq] at hstore
      exact hl hstore.symm
  . intro l
    by_cases hl : l = counter t
    . rw [hl, Function.update_self, List.pairwise_append]
      refine ⟨h.sorted _, List.pairwise_singleton _ _, ?_⟩
      intro m hm m' hm'
      rw [List.mem_singleton] at hm'
      rw [hm']
      apply hle m hm
    . rw [Function.update_of_ne hl]
      apply h.sorted
  . intro e' he' u hu
    rw [List.mem_append, List.mem_singleton] at he'
    rcases he' with he' | rfl
    . apply h.owner e' he' u hu
    . rw [Action.store.injEq] at hu
      apply hinj hu
  . intro i e' x hi hx
    rcases getElem?_snoc_cases hi with hi | ⟨_, rfl⟩
    . apply h.touched_append hpre hbound hi hx
    . simp [Action.object] at hx
  . apply h.raceFree.snoc
    rintro i e' _ ⟨_, ⟨x, _, hx⟩, _⟩
    simp [Action.object] at hx

theorem Handover.access (h : Handover counter slot es positions bound) {bound' : T → Nat}
    (hbound : ∀ t, bound t ≤ bound' t) {q m : Nat}
    (hobject : e.action.object = some (slot q))
    (hlast : (positions (counter e.thread))[stores es (counter e.thread)]? = some m) (hle : m ≤ q)
    (hlt : q < bound' e.thread)
    (hpassed : ∀ u, u ≠ e.thread → ∃ k seen, Acquired es e.thread (counter u) k
      ∧ (positions (counter u))[k]? = some seen ∧ ∀ p < bound u, slot p = slot q → p < seen)
    : Handover counter slot (es ++ [e]) positions bound' := by
  have hstore (l : L) : e.action.storesTo l = false := by
    cases ha : e.action <;> rw [ha] at hobject <;> simp [Action.object, Action.storesTo] at hobject ⊢
  constructor
  . intro l
    rw [stores_snoc, hstore l, h.stored l]
    rfl
  . exact h.sorted
  . intro e' he' t ht
    rw [List.mem_append, List.mem_singleton] at he'
    rcases he' with he' | rfl
    . apply h.owner e' he' t ht
    . have := hstore (counter t)
      rw [Action.storesTo_iff.mpr ht] at this
      simp at this
  . intro i e' x hi hx
    rcases getElem?_snoc_cases hi with hi | ⟨rfl, rfl⟩
    . apply h.touched_append (fun _ => List.prefix_rfl) hbound hi hx
    . rw [hobject, Option.some.injEq] at hx
      refine ⟨q, m, hx.symm, ?_, hle, hlt⟩
      rw [List.take_left]
      exact hlast
  . apply h.raceFree.snoc
    rintro i e' hi ⟨hne, ⟨x, hx, hx'⟩, _⟩
    rw [hobject, Option.some.injEq] at hx'
    rcases h.touched i e' x hi hx with ⟨p, m', hp, hm', hm'p, hpb⟩
    rcases hpassed e'.thread hne with ⟨k, seen, hacq, hseen, hpast⟩
    have hpseen := hpast p hpb (hp.symm.trans hx'.symm)
    apply hacq.happensBefore _ hi rfl _ rfl
    . intro e₁ he₁
      apply h.owner e₁ he₁
    . apply h.lt_of_lt hm' hseen (by omega)

end Handover

end ReleaseAcquire
