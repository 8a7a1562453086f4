import Mathlib.Data.List.TakeWhile
import Sfap.Utils.String.Refinement

/-!
This module contains `const char*` arguments: what there is to read behind the pointer when it is read.
-/

namespace Sfap

inductive CharPtr where
  | null
  -- the literal `""`
  | literal
  | memory (p : Ptr)
  deriving DecidableEq

-- `none` if there is no terminator in front of the end of the object
def CString.ofBytes (bytes : List Byte) : Option CString :=
  let chars := bytes.takeWhile (· != 0)
  if h : chars.length < bytes.length ∧ chars.length < ptrdiffMax then
    some {
      bytes := chars ++ [0]
      terminated := by simp
      le := by
        rw [List.length_append, List.length_singleton]
        omega
    }
  else
    none

def Heap.cString (heap : Heap) (p : Ptr) : Option CString :=
  CString.ofBytes (((heap.blocks p.block).getD []).drop p.offset)

namespace CharPtr

def empty : CString where
  bytes := [0]
  terminated := by simp
  le := by decide

-- `none` where reading through the pointer is undefined
def read (heap : Heap) : CharPtr → Option (Option CString)
  | null => some none
  | literal => some (some empty)
  | memory p => (heap.cString p).map some

def Outside (block : Option Nat) : CharPtr → Prop
  | null => True
  | literal => True
  | memory p => some p.block ≠ block

instance (block : Option Nat) (hostname : CharPtr) : Decidable (hostname.Outside block) := by
  unfold Outside
  cases hostname <;> infer_instance

end CharPtr

namespace String

def cStr (s : String) : CharPtr :=
  match s.data.data with
  | none => .literal
  | some p => .memory p

end String

variable {heap heap' : Heap} {s : String} {p : Ptr}

theorem CharPtr.read_congr {source : CharPtr}
    (h : ∀ p, source = .memory p → heap'.blocks p.block = heap.blocks p.block)
    : source.read heap' = source.read heap := by
  cases source with
  | null => rfl
  | literal => rfl
  | memory p =>
    unfold read Heap.cString
    dsimp only
    rw [h p rfl]

theorem takeWhile_bytes (front rest : List Byte)
    : (front ++ 0 :: rest).takeWhile (· != 0) = front.takeWhile (· != 0) := by
  rw [List.takeWhile_append]
  split
  . next heq =>
    have hwhole : front.takeWhile (· != 0) = front := by
      apply (List.takeWhile_prefix _).eq_of_length heq
    rw [hwhole]
    simp
  . rfl

theorem CString.ofBytes_bytes {bytes : List Byte} {source : CString}
    (h : ofBytes bytes = some source)
    : CharsWorld.upToNul (some source) = bytes.takeWhile (· != 0) := by
  unfold ofBytes at h
  dsimp only at h
  split at h
  . cases h
    unfold CharsWorld.upToNul
    dsimp only
    rw [takeWhile_bytes, List.takeWhile_idem]
  . simp at h

theorem CString.ofBytes_isSome {bytes : List Byte}
    (hlt : (bytes.takeWhile (· != 0)).length < bytes.length)
    (hmax : (bytes.takeWhile (· != 0)).length < ptrdiffMax)
    : ∃ source, ofBytes bytes = some source := by
  unfold ofBytes
  dsimp only
  rw [dif_pos ⟨hlt, hmax⟩]
  exact ⟨_, rfl⟩

theorem String.cStr_read (hok : s.Ok heap)
    : ∃ source, s.cStr.read heap = some (some source)
        ∧ CharsWorld.upToNul (some source) = (heap.bytes s.view).takeWhile (· != 0) := by
  cases hp : s.data.data with
  | none =>
    refine ⟨CharPtr.empty, ?_, ?_⟩
    . unfold cStr
      rw [hp]
      rfl
    . unfold view
      rw [isValid_of_null hp]
      rfl
  | some p =>
    have hused := hok.used p hp
    have hsize := toNat_size hok hp
    have hbound := hok.bound
    have hle := s.data.size_le
    have hlength := length_load_size hok hp
    have hterminator := hok.terminator p hp
    generalize hbytes : ((heap.blocks p.block).getD []).drop p.offset = bytes
    have hload : ∀ n, heap.load p n = bytes.take n := by
      intro n
      rw [← hbytes]
      rfl
    rw [hload, ← hsize, List.getElem?_take_of_lt (by omega)] at hterminator
    rw [hload] at hlength
    have hsplit : bytes = bytes.take s.size.toNat ++ 0 :: bytes.drop (s.size.toNat + 1) := by
      have hlt := (List.getElem?_eq_some_iff.mp hterminator).1
      have hget := (List.getElem?_eq_some_iff.mp hterminator).2
      rw [← hget, ← List.drop_eq_getElem_cons hlt, List.take_append_drop]
    have hchars : bytes.takeWhile (· != 0) = (bytes.take s.size.toNat).takeWhile (· != 0) := by
      rw [hsplit, takeWhile_bytes, ← hsplit]
    have hshort : (bytes.takeWhile (· != 0)).length ≤ s.size.toNat := by
      rw [hchars]
      apply Nat.le_trans (List.takeWhile_prefix _).length_le
      rw [hlength]
    have hmore : s.size.toNat < bytes.length := (List.getElem?_eq_some_iff.mp hterminator).1
    have hfits : (bytes.takeWhile (· != 0)).length < bytes.length
        ∧ (bytes.takeWhile (· != 0)).length < ptrdiffMax := by
      omega
    rcases CString.ofBytes_isSome hfits.1 hfits.2 with ⟨source, hsource⟩
    refine ⟨source, ?_, ?_⟩
    . unfold cStr CharPtr.read Heap.cString
      simp only [hp, hbytes, hsource, Option.map_some]
    . rw [CString.ofBytes_bytes hsource, bytes_view hp, hload]
      exact hchars

end Sfap
