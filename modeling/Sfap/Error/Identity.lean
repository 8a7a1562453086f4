import Sfap.Error
import Sfap.Lib.Transition

/-!
This module contains the category objects that error codes point to, and when two codes are equal.
-/

-- `String` is the class of the source in `Sfap`
abbrev Text := String

namespace Sfap

def ErrorCategory.name : ErrorCategory → Text
  | .generic => "generic"
  | .system => "system"
  | .network => "network"
  | .resolve => "resolve"

structure Messages where
  strerror : Int32 → Text
  gaiStrerror : Int32 → Text

def ErrorCategory.message (messages : Messages) : ErrorCategory → Int32 → Text
  | .generic, code =>
    if code == Errc.ok.toInt then "ok"
    else if code == Errc.invalidArgument.toInt then "invalid argument"
    else if code == Errc.notEnoughMemory.toInt then "not enough memory"
    else "unknown error"
  | .system, code => messages.strerror code
  | .network, code => messages.strerror code
  | .resolve, code => messages.gaiStrerror code

def CategoryRef.category : CategoryRef → ErrorCategory
  | .static category => category
  | .temporary _ => .generic

namespace ErrorCode

-- `objects` are the category objects that exist, `none` is a call on one that does not
def callOn {α : Type} (objects : List CategoryRef) (error : ErrorCode) (unspecified : α)
    (f : ErrorCategory → α) : Option α :=
  match error.category with
  | none => some unspecified
  | some object => if object ∈ objects then some (f object.category) else none

def name (objects : List CategoryRef) (error : ErrorCode) : Option Text :=
  error.callOn objects "unspecifed" (·.name)

def message (messages : Messages) (objects : List CategoryRef) (error : ErrorCode) : Option Text :=
  error.callOn objects "" (·.message messages error.code)

def Exists (objects : List CategoryRef) (error : ErrorCode) : Prop :=
  ∀ object, error.category = some object → object ∈ objects

theorem callOn_isSome_iff {α : Type} (objects : List CategoryRef) (error : ErrorCode) (unspecified : α)
    (f : ErrorCategory → α)
    : (error.callOn objects unspecified f).isSome = true ↔ error.Exists objects := by
  unfold callOn Exists
  cases error.category with
  | none => simp
  | some object => simp

end ErrorCode

/--
A call that makes an error, without an argument its code is `errno`.
-/
inductive Factory where
  | noError
  -- `errc` is an `int`
  | genericError (code : Int32)
  | systemError (code : Int32)
  | networkError (code : Int32)
  deriving DecidableEq, Repr

namespace Factory

def kind : Factory → ErrorCategory
  | noError => .generic
  | genericError _ => .generic
  | systemError _ => .system
  | networkError _ => .network

def code : Factory → Int32
  | noError => Errc.ok.toInt
  | genericError code => code
  | systemError code => code
  | networkError code => code

-- a static object is there from the first call on
def construct (category : ErrorCategory) (objects : List CategoryRef) : List CategoryRef :=
  if .static category ∈ objects then objects else objects ++ [.static category]

def error (n : Nat) : Factory → ErrorCode
  | noError => .noError n
  | genericError code => ⟨code, some (.static .generic)⟩
  | systemError code => .systemError code
  | networkError code => .networkError code

def call (n : Nat) (objects : List CategoryRef) (f : Factory) : ErrorCode × List CategoryRef :=
  match f with
  | noError =>
    let objects := objects ++ [.temporary n]
    -- the full expression ends
    (f.error n, objects.erase (.temporary n))
  | genericError _ => (f.error n, construct .generic objects)
  | systemError _ => (f.error n, construct .system objects)
  | networkError _ => (f.error n, construct .network objects)

def Same (f g : Factory) : Prop :=
  f.kind = g.kind ∧ f.code = g.code

end Factory

structure Errors where
  objects : List CategoryRef
  obtained : List (Factory × ErrorCode)

namespace Errors

open Transition

def init : Errors := ⟨[], []⟩

def step (w : Errors) (f : Factory) : Option (Errors × ErrorCode) :=
  let (error, objects) := f.call w.obtained.length w.objects
  some (⟨objects, w.obtained ++ [(f, error)]⟩, error)

structure Agrees (w : Errors) (f g : Factory) (a b : ErrorCode) : Prop where
  eq : a.eq b = true ↔ f.Same g
  left : a.Exists w.objects
  right : b.Exists w.objects

structure Inv (w : Errors) : Prop where
  error : ∀ i (f : Factory) a, w.obtained[i]? = some (f, a) → a = f.error i
  static : ∀ (f : Factory) a, (f, a) ∈ w.obtained → f ≠ .noError → .static f.kind ∈ w.objects
  temporary : ∀ n, .temporary n ∉ w.objects

variable {w w' : Errors} {f g : Factory} {a b error : ErrorCode} {objects : List CategoryRef} {i j : Nat}

theorem step_eq (w : Errors) (f : Factory)
    : w.step f
        =
      some (⟨(f.call w.obtained.length w.objects).2, w.obtained ++ [(f, f.error w.obtained.length)]⟩,
        f.error w.obtained.length) := by
  cases f <;> rfl

theorem mem_construct (category : ErrorCategory) (objects : List CategoryRef) (object : CategoryRef)
    : object ∈ Factory.construct category objects ↔ object ∈ objects ∨ object = .static category := by
  unfold Factory.construct
  split
  . next hmem =>
    constructor
    . exact .inl
    . rintro (h | rfl)
      . exact h
      . exact hmem
  . rw [List.mem_append, List.mem_singleton]

theorem mem_call (n : Nat) (htemporary : .temporary n ∉ objects) (f : Factory) (object : CategoryRef)
    : object ∈ (f.call n objects).2
        ↔
      object ∈ objects ∨ (f ≠ .noError ∧ object = .static f.kind) := by
  cases f with
  | noError =>
    have herase : (objects ++ [CategoryRef.temporary n]).erase (.temporary n) = objects := by
      rw [List.erase_append_right _ htemporary]
      simp
    have hcall : (Factory.noError.call n objects).2 = objects := herase
    rw [hcall]
    simp
  | genericError code =>
    have hcall := mem_construct .generic objects object
    simpa [Factory.call, Factory.kind] using hcall
  | systemError code =>
    have hcall := mem_construct .system objects object
    simpa [Factory.call, Factory.kind] using hcall
  | networkError code =>
    have hcall := mem_construct .network objects object
    simpa [Factory.call, Factory.kind] using hcall

theorem inv_init : Inv init := by
  constructor <;> simp [init]

theorem inv_step (h : Inv w) (hstep : w.step f = some (w', error)) : Inv w' := by
  have hmem := mem_call w.obtained.length (h.temporary _) f
  rw [step_eq] at hstep
  generalize (f.call w.obtained.length w.objects).2 = objects at hmem hstep
  cases hstep
  constructor
  . intro i g b hget
    dsimp only at hget
    rw [List.getElem?_append] at hget
    split at hget
    . exact h.error i g b hget
    . next hge =>
      rw [List.getElem?_singleton] at hget
      split at hget
      . next hzero =>
        cases hget
        congr 1
        omega
      . simp at hget
  . intro g b hg hne
    rw [List.mem_append, List.mem_singleton] at hg
    rw [hmem]
    rcases hg with hg | hg
    . exact .inl (h.static g b hg hne)
    . cases hg
      exact .inr ⟨hne, rfl⟩
  . intro n
    rw [hmem]
    rintro (hn | hn)
    . exact h.temporary n hn
    . simp at hn

theorem inv_of_run {trace : List (Factory × ErrorCode)} (h : Run (ofStep step) init trace w) : Inv w := by
  apply h.invariant inv_init
  intro w₁ f error w₂ hinv hstep
  apply inv_step hinv hstep

theorem error_eq_iff (f g : Factory) (i j : Nat)
    : (f.error i).eq (g.error j) = true
        ↔
      f.Same g ∧ (f = .noError ∨ g = .noError → f = g ∧ i = j) := by
  unfold ErrorCode.eq Factory.Same
  rw [Bool.and_eq_true, beq_iff_eq, beq_iff_eq]
  cases f <;> cases g <;>
    simp [Factory.error, Factory.kind, Factory.code, ErrorCode.noError, ErrorCode.systemError,
      ErrorCode.networkError]

theorem exists_error_iff (h : Inv w) (hi : w.obtained[i]? = some (f, a)) : a.Exists w.objects ↔ f ≠ .noError := by
  rw [h.error i f a hi]
  constructor
  . rintro hexists rfl
    exact h.temporary i (hexists _ rfl)
  . intro hne object hobject
    have hstatic := h.static f a (List.mem_of_getElem? hi) hne
    cases f with
    | noError => exact absurd rfl hne
    | genericError code | systemError code | networkError code =>
      cases hobject
      exact hstatic

/--
Equality of error codes is that of the errors they stand for, and their categories exist, as long as neither of
them comes from `no_error()`. Equality alone also holds for one `no_error()` and itself, and there is a `name()`
and a `message()` of every other code.
-/
theorem agrees_iff {trace : List (Factory × ErrorCode)} (hrun : Run (ofStep step) init trace w)
    (hi : w.obtained[i]? = some (f, a)) (hj : w.obtained[j]? = some (g, b))
    : (Agrees w f g a b ↔ f ≠ .noError ∧ g ≠ .noError)
        ∧ ((a.eq b = true ↔ f.Same g)
          ↔
        (f = .noError ∨ g = .noError → f.Same g → f = g ∧ i = j))
        ∧ ((a.name w.objects).isSome = true ↔ f ≠ .noError)
        ∧ ∀ messages, (a.message messages w.objects).isSome = true ↔ f ≠ .noError := by
  have hinv := inv_of_run hrun
  have heq : a.eq b = true ↔ f.Same g ∧ (f = .noError ∨ g = .noError → f = g ∧ i = j) := by
    rw [hinv.error i f a hi, hinv.error j g b hj]
    apply error_eq_iff
  have ha := exists_error_iff hinv hi
  have hb := exists_error_iff hinv hj
  refine ⟨?_, by grind, ?_, ?_⟩
  . constructor
    . intro h
      exact ⟨ha.mp h.left, hb.mp h.right⟩
    . rintro ⟨hf, hg⟩
      refine ⟨?_, ha.mpr hf, hb.mpr hg⟩
      rw [heq]
      simp [hf, hg]
  . unfold ErrorCode.name
    rw [ErrorCode.callOn_isSome_iff, ha]
  . intro messages
    unfold ErrorCode.message
    rw [ErrorCode.callOn_isSome_iff, ha]

-- the same code of two categories
theorem agrees_of_system_and_network
    : ∃ trace w, Run (ofStep step) init trace w
        ∧ Agrees w (.systemError 5) (.networkError 5) (.systemError 5) (.networkError 5) := by
  have hexec : exec step init [.systemError 5, .networkError 5]
      = some (⟨[.static .system, .static .network],
          [(.systemError 5, .systemError 5), (.networkError 5, .networkError 5)]⟩, _) := rfl
  have hrun := run_of_exec hexec
  exact ⟨_, _, hrun, (@agrees_iff _ _ _ _ _ 0 1 _ hrun rfl rfl).1.mpr ⟨by decide, by decide⟩⟩

-- `no_error()` twice, and `generic_error(errc::OK)`
theorem noError_differs
    : ∃ trace w, Run (ofStep step) init trace w
        ∧ w.obtained = [(.noError, .noError 0), (.noError, .noError 1),
            (.genericError 0, ErrorCode.genericError .ok)]
        ∧ (ErrorCode.noError 0).eq (.noError 1) = false
        ∧ (ErrorCode.noError 0).eq (.genericError .ok) = false
        ∧ (ErrorCode.noError 0).name w.objects = none := by
  have hexec : exec step init [.noError, .noError, .genericError 0]
      = some (⟨[.static .generic], [(.noError, .noError 0), (.noError, .noError 1),
          (.genericError 0, ErrorCode.genericError .ok)]⟩, _) := rfl
  exact ⟨_, _, run_of_exec hexec, rfl, by decide, by decide, by decide⟩

end Errors

end Sfap
