/-!
This module contains the error codes of `sfap`.
-/

namespace Sfap

inductive ErrorCategory where
  | generic
  | system
  | network
  -- only `resolve` has it
  | resolve
  deriving DecidableEq, Repr

/--
The object that an error code points to: a static one, or the unnamed `generic_category()` of one
call of `no_error()`.
-/
inductive CategoryRef where
  | static (category : ErrorCategory)
  | temporary (call : Nat)
  deriving DecidableEq, Repr

structure ErrorCode where
  code : Int32
  category : Option CategoryRef
  deriving DecidableEq, Repr

inductive Errc where
  | ok
  | invalidArgument
  | notEnoughMemory
  deriving DecidableEq, Repr

def Errc.toInt : Errc → Int32
  | .ok => 0
  | .invalidArgument => 1
  | .notEnoughMemory => 2

namespace ErrorCode

def default : ErrorCode := ⟨0, none⟩

def toBool (error : ErrorCode) : Bool :=
  error.code != 0

def eq (left right : ErrorCode) : Bool :=
  left.code == right.code && left.category == right.category

def noError (call : Nat) : ErrorCode :=
  ⟨Errc.ok.toInt, some (.temporary call)⟩

def genericError (code : Errc) : ErrorCode :=
  ⟨code.toInt, some (.static .generic)⟩

def systemError (code : Int32) : ErrorCode :=
  ⟨code, some (.static .system)⟩

-- without an argument the code is `errno`
def networkError (code : Int32) : ErrorCode :=
  ⟨code, some (.static .network)⟩

@[simp]
theorem toBool_default : default.toBool = false := by
  decide

@[simp]
theorem toBool_noError (call : Nat) : (noError call).toBool = false := by
  rfl

@[simp]
theorem toBool_genericError (code : Errc) : (genericError code).toBool = (code != .ok) := by
  cases code <;> decide

@[simp]
theorem toBool_networkError (code : Int32) : (networkError code).toBool = (code != 0) := by
  rfl

theorem toBool_networkError_neg {result : Int32} (h : result < 0)
    : (networkError (-result)).toBool = true := by
  rw [toBool_networkError, bne_iff_ne, Int32.neg_ne_zero]
  intro heq
  rw [heq] at h
  exact absurd h (by decide)

end ErrorCode

end Sfap
