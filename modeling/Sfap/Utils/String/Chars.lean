import Sfap.Utils.String.Impl

/-!
This module contains what a string is for: a list of characters with a bound on its length. A
variable holds such a list or nothing, when its string is invalid.
-/

namespace Sfap

structure Chars where
  capacity : Nat
  chars : List Byte
  le : chars.length ≤ capacity

namespace Chars

-- new content, which has to fit
def replace (x : Option Chars) (content : List Byte → List Byte) : Bool × Option Chars :=
  match x with
  | none => (false, none)
  | some c =>
    if h : (content c.chars).length ≤ c.capacity then
      (true, some ⟨c.capacity, content c.chars, h⟩)
    else
      (false, some c)

def charsOf : Option Chars → List Byte
  | none => []
  | some c => c.chars

-- an allocation has succeeded that has room for `n` characters and the terminator
def Allocated (n : Nat) (garbage : Option (Nat → Byte)) : Prop :=
  garbage.isSome = true ∧ n + 1 ≤ ptrdiffMax

instance (n : Nat) (garbage : Option (Nat → Byte)) : Decidable (Allocated n garbage) := by
  unfold Allocated
  infer_instance

def make (bs : List Byte) (garbage : Option (Nat → Byte)) : Option Chars :=
  if Allocated bs.length garbage then some ⟨bs.length, bs, Nat.le_refl _⟩ else none

def reserve (n : Nat) (garbage : Option (Nat → Byte)) : Option Chars :=
  if Allocated n garbage then some ⟨n, [], Nat.zero_le _⟩ else none

/--
`resize(n)` keeps the first `min(n, size())` characters, nothing is said about those it exposes.
-/
def Resizes (x : Option Chars) (n : Nat) (ok : Bool) (x' : Option Chars) : Prop :=
  match x with
  | none => ok = false ∧ x' = none
  | some c =>
    if n ≤ c.capacity then
      ok = true ∧ ∃ c' : Chars, x' = some c' ∧ c'.capacity = c.capacity ∧ c'.chars.length = n
        ∧ c'.chars.take c.chars.length = c.chars.take n
    else
      ok = false ∧ x' = some c

theorem resizes_of_lt {c : Chars} {n : Nat} {ok : Bool} {x' : Option Chars} (h : c.capacity < n)
    : Resizes (some c) n ok x' ↔ ok = false ∧ x' = some c := by
  unfold Resizes
  dsimp only
  rw [if_neg (Nat.not_le.mpr h)]

theorem resizes_of_le {c : Chars} {n : Nat} {ok : Bool} {x' : Option Chars} (h : n ≤ c.capacity)
    : Resizes (some c) n ok x'
        ↔
      ok = true ∧ ∃ c' : Chars, x' = some c' ∧ c'.capacity = c.capacity ∧ c'.chars.length = n
        ∧ c'.chars.take c.chars.length = c.chars.take n := by
  unfold Resizes
  dsimp only
  rw [if_pos h]

end Chars

namespace String

inductive Op where
  | ofView (v : Nat) (source : Source) (garbage : Option (Nat → Byte))
  | ofCString (v : Nat) (source : Option CString) (garbage : Option (Nat → Byte))
  | ofSize (v : Nat) (n : SizeT) (garbage : Option (Nat → Byte))
  | copy (v u : Nat) (garbage : Option (Nat → Byte))
  | destroy (v : Nat)
  | assign (v : Nat) (source : Source)
  | assignCString (v : Nat) (source : Option CString)
  | append (v : Nat) (source : Source)
  | appendCString (v : Nat) (source : Option CString)
  | pushBack (v : Nat) (ch : Byte)
  | resize (v : Nat) (n : SizeT)
  | clean (v : Nat)
  | moveConstruct (v u : Nat)
  | moveAssign (v u : Nat)

inductive Out where
  | done
  | flag (ok : Bool)
  -- `operator bool` of what has been constructed
  | valid (b : Bool)
  deriving DecidableEq

end String

-- `none` is a variable without an object, `some none` one whose string is invalid
abbrev CharsWorld := Nat → Option (Option Chars)

namespace CharsWorld

def set (a : CharsWorld) (v : Nat) (x : Option (Option Chars)) : CharsWorld :=
  fun u => if u = v then x else a u

def Constructs (a : CharsWorld) (v : Nat) (x : Option Chars) (o : String.Out) (a' : CharsWorld)
    : Prop :=
  a v = none ∧ o = .valid x.isSome ∧ a' = a.set v (some x)

def Replaces (a : CharsWorld) (v : Nat) (content : List Byte → List Byte) (o : String.Out)
    (a' : CharsWorld) : Prop :=
  ∃ x, a v = some x ∧ o = .flag (Chars.replace x content).1
    ∧ a' = a.set v (some (Chars.replace x content).2)

def upToNul : Option CString → List Byte
  | none => []
  | some source => source.bytes.takeWhile (· != 0)

def Step (a : CharsWorld) (op : String.Op) (o : String.Out) (a' : CharsWorld) : Prop :=
  match op with
  | .ofView v source garbage => a.Constructs v (Chars.make source.bytes garbage) o a'
  | .ofCString v none _ => a.Constructs v none o a'
  | .ofCString v (some source) garbage =>
    a.Constructs v (Chars.make (upToNul (some source)) garbage) o a'
  | .ofSize v n garbage => a.Constructs v (Chars.reserve n.toNat garbage) o a'
  | .copy v u garbage =>
    ∃ x, a u = some x ∧ a.Constructs v (Chars.make (Chars.charsOf x) garbage) o a'
  | .destroy v => (∃ x, a v = some x) ∧ o = .done ∧ a' = a.set v none
  | .assign v source => a.Replaces v (fun _ => source.bytes) o a'
  | .assignCString v source => a.Replaces v (fun _ => upToNul source) o a'
  | .append v source => a.Replaces v (fun chars => chars ++ source.bytes) o a'
  | .appendCString v source => a.Replaces v (fun chars => chars ++ upToNul source) o a'
  | .pushBack v ch => a.Replaces v (fun chars => chars ++ [ch]) o a'
  | .resize v n =>
    ∃ x ok x', a v = some x ∧ Chars.Resizes x n.toNat ok x' ∧ o = .flag ok
      ∧ a' = a.set v (some x')
  | .clean v =>
    ∃ x, a v = some x ∧ o = .done ∧ a' = a.set v (some (Chars.replace x fun _ => []).2)
  | .moveConstruct v u =>
    ∃ x, a v = none ∧ a u = some x ∧ o = .done ∧ a' = (a.set v (some x)).set u (some none)
  | .moveAssign v u =>
    ∃ x, (∃ y, a v = some y) ∧ a u = some x ∧ o = .done
      ∧ a' = if v = u then a else (a.set v (some x)).set u (some none)

end CharsWorld

end Sfap
