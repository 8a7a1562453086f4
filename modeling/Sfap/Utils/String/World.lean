import Sfap.Lib.Transition
import Sfap.Utils.String.Refinement

/-!
This module contains any number of strings on one heap, as a program that constructs, mutates, moves
and destroys them would see them.
-/

namespace Sfap

namespace String

structure World where
  heap : Heap
  strings : Nat → Option String

namespace World

def init (heap : Heap) : World := ⟨heap, fun _ => none⟩

def set (strings : Nat → Option String) (v : Nat) (s : Option String) : Nat → Option String :=
  fun u => if u = v then s else strings u

def construct (w : World) (v : Nat) (result : String × Heap) : Option (World × Out) :=
  match w.strings v with
  | some _ => none
  | none =>
    some (⟨result.2, set w.strings v (some result.1)⟩, .valid result.1.isValid)

def mutate (w : World) (v : Nat) (f : String → Bool × String × Heap) : Option (World × Out) :=
  match w.strings v with
  | none => none
  | some s =>
    let (ok, s, heap) := f s
    some (⟨heap, set w.strings v (some s)⟩, .flag ok)

def step (w : World) (op : Op) : Option (World × Out) :=
  match op with
  | .ofView v source garbage => w.construct v (ofView w.heap source garbage)
  | .ofCString v source garbage => w.construct v (ofCString w.heap source garbage)
  | .ofSize v n garbage => w.construct v (ofSize w.heap n garbage)
  | .copy v u garbage =>
    match w.strings u with
    | none => none
    | some other => w.construct v (copy w.heap other garbage)
  | .destroy v =>
    match w.strings v with
    | none => none
    | some s => some (⟨s.destroy w.heap, set w.strings v none⟩, .done)
  -- no object is larger than `PTRDIFF_MAX`
  | .assign v source =>
    if source.bytes.length ≤ ptrdiffMax then w.mutate v (·.assign w.heap source) else none
  | .assignCString v source => w.mutate v (·.assignCString w.heap source)
  | .append v source =>
    if source.bytes.length ≤ ptrdiffMax then w.mutate v (·.append w.heap source) else none
  | .appendCString v source => w.mutate v (·.appendCString w.heap source)
  | .pushBack v ch => w.mutate v (·.pushBack w.heap ch)
  | .resize v n => w.mutate v (·.resize w.heap n)
  | .clean v =>
    match w.strings v with
    | none => none
    | some s =>
      let (s, heap) := s.clean w.heap
      some (⟨heap, set w.strings v (some s)⟩, .done)
  | .moveConstruct v u =>
    match w.strings v, w.strings u with
    | none, some other =>
      let (s, rest) := other.moveConstruct
      some (⟨w.heap, set (set w.strings v (some s)) u (some rest)⟩, .done)
    | _, _ => none
  | .moveAssign v u =>
    match w.strings v, w.strings u with
    | some s, some other =>
      if v = u then
        some (w, .done)
      else
        let (s, rest, heap) := s.moveAssign w.heap other
        some (⟨heap, set (set w.strings v (some s)) u (some rest)⟩, .done)
    | _, _ => none

structure Inv (w : World) : Prop where
  ok : ∀ v s, w.strings v = some s → s.Ok w.heap
  apart : ∀ v u s t p q, w.strings v = some s → w.strings u = some t → v ≠ u →
    s.data.data = some p → t.data.data = some q → p.block ≠ q.block

structure Refines (w : World) (a : CharsWorld) : Prop where
  inv : w.Inv
  stands : ∀ v, Option.Rel (Represents w.heap) (w.strings v) (a v)

variable {w w' : World} {a : CharsWorld} {v u : Nat} {s s' t : String} {x : Option Chars}
  {heap' : Heap} {o : Out}

theorem strings_set (strings : Nat → Option String) (v : Nat) (s : Option String)
    : set strings v s v = s := by
  unfold set
  rw [if_pos rfl]

theorem strings_set_ne (strings : Nat → Option String) (s : Option String) (h : u ≠ v)
    : set strings v s u = strings u := by
  unfold set
  rw [if_neg h]

theorem set_self (h : w.strings v = some s) : set w.strings v (some s) = w.strings := by
  funext u
  by_cases hu : u = v
  . rw [hu, strings_set, h]
  . rw [strings_set_ne _ _ hu]

theorem set_comm (strings : Nat → Option String) (s t : Option String) (h : u ≠ v)
    : set (set strings v s) u t = set (set strings u t) v s := by
  funext i
  unfold set
  by_cases hi : i = u
  . rw [if_pos hi, if_neg (hi ▸ h), if_pos hi]
  . rw [if_neg hi, if_neg hi]

theorem Refines.init (heap : Heap) : (init heap).Refines fun _ => none := by
  constructor
  . constructor
    . intro v s hs
      simp [World.init] at hs
    . intro v u s t p q hs
      simp [World.init] at hs
  . intro v
    exact .none

theorem Refines.of_some (h : w.Refines a) (hs : w.strings v = some s)
    : ∃ x, a v = some x ∧ s.Ok w.heap ∧ s.Represents w.heap x := by
  have hrel := h.stands v
  rw [hs] at hrel
  generalize a v = y at hrel
  cases hrel with
  | some hx => exact ⟨_, rfl, h.inv.ok v s hs, hx⟩

theorem Refines.of_none (h : w.Refines a) (hs : w.strings v = none) : a v = none := by
  have hrel := h.stands v
  rw [hs] at hrel
  generalize a v = y at hrel
  cases hrel with
  | none => rfl

theorem Refines.update (h : w.Refines a) {r : Option String} {y : Option (Option Chars)}
    (hok : ∀ s, r = some s → s.Ok heap') (hrel : Option.Rel (Represents heap') r y)
    (hapart : ∀ s p u t q, r = some s → s.data.data = some p → u ≠ v → w.strings u = some t →
      t.data.data = some q → p.block ≠ q.block)
    (hframe : ∀ u t q, u ≠ v → w.strings u = some t → t.data.data = some q →
      heap'.blocks q.block = w.heap.blocks q.block)
    : (World.mk heap' (set w.strings v r)).Refines (a.set v y) := by
  constructor
  . constructor
    . dsimp only
      intro u t ht
      by_cases hu : u = v
      . rw [hu, strings_set] at ht
        apply hok t ht
      . rw [strings_set_ne _ _ hu] at ht
        apply (h.inv.ok u t ht).frame
        intro q hq
        apply hframe u t q hu ht hq
    . dsimp only
      intro u₁ u₂ t₁ t₂ p q ht₁ ht₂ hne hp hq
      by_cases hu₁ : u₁ = v
      . rw [hu₁, strings_set] at ht₁
        have hu₂ : u₂ ≠ v := fun heq => hne (hu₁.trans heq.symm)
        rw [strings_set_ne _ _ hu₂] at ht₂
        apply hapart t₁ p u₂ t₂ q ht₁ hp hu₂ ht₂ hq
      . rw [strings_set_ne _ _ hu₁] at ht₁
        by_cases hu₂ : u₂ = v
        . rw [hu₂, strings_set] at ht₂
          exact (hapart t₂ q u₁ t₁ p ht₂ hq hu₁ ht₁ hp).symm
        . rw [strings_set_ne _ _ hu₂] at ht₂
          apply h.inv.apart u₁ u₂ t₁ t₂ p q ht₁ ht₂ hne hp hq
  . intro u
    dsimp only
    unfold CharsWorld.set
    by_cases hu : u = v
    . rw [hu, strings_set, if_pos rfl]
      exact hrel
    . rw [strings_set_ne _ _ hu, if_neg hu]
      have hold := h.stands u
      generalize ht : w.strings u = r' at hold ⊢
      generalize a u = y' at hold ⊢
      cases hold with
      | none => exact .none
      | some hx =>
        apply Option.Rel.some
        apply hx.frame
        intro q hq
        apply hframe u _ q hu ht hq

end World

end String

end Sfap
