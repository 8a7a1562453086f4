import Sfap.Net.Address.Endpoint
import Sfap.Net.Address.Impl

/-!
This module contains the proof that each operation on an `Address` does to it what the events it stands
for do to an endpoint.
-/

namespace Sfap

namespace Net

namespace Answers

def found (answers : Answers) : Option Ipx :=
  match answers.kind with
  | .ok .empty => none
  | .ok .unknown => none
  | _ => answers.resolved.toOption

def events (answers : Answers) (chars : List Byte) : List Endpoint.Event :=
  match answers.found with
  | none => []
  | some ip => [.place ip (if answers.isKind .hostname then some chars else none)]

variable {answers : Answers}

theorem found_of_refused (h : (answers.isKind .empty || answers.isKind .unknown) = true)
    : answers.found = none := by
  unfold isKind at h
  unfold found
  cases hkind : answers.kind with
  | error error => simp [hkind] at h
  | ok kind => cases kind <;> simp_all

theorem found_of_passed (h : (answers.isKind .empty || answers.isKind .unknown) = false)
    : answers.found = answers.resolved.toOption := by
  unfold isKind at h
  unfold found
  cases hkind : answers.kind with
  | error error => rfl
  | ok kind => cases kind <;> simp_all

end Answers

namespace Address

open Endpoint

-- a stored name, whose characters are those of its string
def Keeps (heap : Heap) (s : String) (chars : List Byte) : Prop :=
  s.Ok heap ∧ ∃ x, s.Represents heap x ∧ Chars.charsOf x = chars

def Stands (heap : Heap) (a : Address) : Option Endpoint → Prop
  | none => a.address = none ∧ a.origin = none
  | some e => a.address = some ⟨e.ip, e.port⟩ ∧ Option.Rel (Keeps heap) a.origin e.origin

def originBlock (a : Address) : Option Nat :=
  match a.origin with
  | none => none
  | some origin => origin.data.data.map (·.block)

def Given (heap : Heap) (a : Address) (hostname : CharPtr) (chars : List Byte) (answers : Answers)
    : Prop :=
  hostname.Outside a.originBlock ∧ (hostname.read heap).map CharsWorld.upToNul = some chars
    ∧ answers.garbage.isSome = true

instance (heap : Heap) (a : Address) (hostname : CharPtr) (chars : List Byte) (answers : Answers)
    : Decidable (a.Given heap hostname chars answers) := by
  unfold Given
  infer_instance

variable {heap heap' : Heap} {a : Address} {x : Option Endpoint} {e : Endpoint} {s : String}
  {chars : List Byte} {hostname : CharPtr} {answers : Answers}

theorem Keeps.frame (h : Keeps heap s chars)
    (hblocks : ∀ p, s.data.data = some p → heap'.blocks p.block = heap.blocks p.block)
    : Keeps heap' s chars := by
  rcases h with ⟨hok, x, hx, hchars⟩
  exact ⟨hok.frame hblocks, x, hx.frame hblocks, hchars⟩

theorem Keeps.bytes_view (h : Keeps heap s chars) : heap.bytes s.view = chars := by
  rcases h with ⟨hok, x, hx, hchars⟩
  rw [(String.view_spec hok hx).1]
  exact hchars

theorem Stands.frame (h : a.Stands heap x)
    (hblocks : ∀ q, a.originBlock = some q → heap'.blocks q = heap.blocks q)
    : a.Stands heap' x := by
  cases x with
  | none => exact h
  | some e =>
    refine ⟨h.1, ?_⟩
    have hrel := h.2
    unfold originBlock at hblocks
    generalize a.origin = origin at hblocks hrel
    generalize e.origin = chars at hrel
    cases hrel with
    | none => exact .none
    | some hkeeps =>
      apply Option.Rel.some
      apply hkeeps.frame
      intro p hp
      apply hblocks
      simp [hp]

theorem Stands.address_eq (h : a.Stands heap x) : a.address = x.map fun e => ⟨e.ip, e.port⟩ := by
  cases x with
  | none => exact h.1
  | some e => exact h.1

theorem Stands.getOrigin_eq (h : a.Stands heap x)
    : a.getOrigin.map heap.bytes = x.bind (·.origin) := by
  cases x with
  | none =>
    unfold getOrigin
    rw [h.2]
    rfl
  | some e =>
    have hrel := h.2
    unfold getOrigin
    rw [Option.bind_some]
    generalize a.origin = origin at hrel
    generalize e.origin = chars at hrel
    cases hrel with
    | none => rfl
    | some hkeeps =>
      rw [← hkeeps.bytes_view]
      rfl

theorem resetOrigin_address (heap : Heap) (a : Address)
    : (a.resetOrigin heap).1.address = a.address ∧ (a.resetOrigin heap).1.origin = none := by
  unfold resetOrigin
  split
  . exact ⟨rfl, rfl⟩
  . next hnone => exact ⟨rfl, hnone⟩

theorem resetOrigin_blocks (heap : Heap) (a : Address) {q : Nat} (hq : a.originBlock ≠ some q)
    : (a.resetOrigin heap).2.blocks q = heap.blocks q := by
  unfold resetOrigin
  split
  . next origin horigin =>
    apply origin.data.destroy_blocks
    intro p hp heq
    apply hq
    unfold originBlock
    rw [horigin]
    dsimp only
    rw [hp, heq]
    rfl
  . rfl

theorem putIp_stands (h : a.address = x.map fun e => ⟨e.ip, e.port⟩) (horigin : a.origin = none)
    (ip : Ipx)
    : (a.putIp ip).Stands heap (apply x (.place ip none)) := by
  unfold putIp
  cases x with
  | none =>
    rw [h]
    exact ⟨rfl, horigin ▸ .none⟩
  | some e =>
    rw [h]
    exact ⟨rfl, horigin ▸ .none⟩

theorem fromIp_stands (h : a.Stands heap x) (ip : Ipx)
    : (a.fromIp heap ip).1.Stands (a.fromIp heap ip).2 (apply x (.place ip none)) := by
  have hreset := resetOrigin_address heap a
  unfold fromIp
  dsimp only
  apply putIp_stands
  . rw [hreset.1]
    apply h.address_eq
  . exact hreset.2

theorem setPort_stands (h : a.Stands heap x) (port : PortT)
    : (a.setPort port).Stands heap (apply x (.port port)) := by
  unfold setPort
  cases x with
  | none =>
    rw [h.1]
    exact h
  | some e =>
    rw [h.1]
    exact ⟨rfl, h.2⟩

theorem clear_stands (heap : Heap) (a : Address)
    : (a.clear heap).1.Stands (a.clear heap).2 none := by
  have hreset := resetOrigin_address heap { a with address := none }
  exact hreset

theorem default_stands (heap : Heap) : default.Stands heap none := by
  exact ⟨rfl, rfl⟩

theorem ofCString_holds (heap : Heap) (source : Option CString) {garbage : Option (Nat → Byte)}
    (hgarbage : garbage.isSome = true)
    : ∃ x, String.Construction heap x (String.ofCString heap source garbage).2
          (String.ofCString heap source garbage).1
        ∧ Chars.charsOf x = CharsWorld.upToNul source := by
  cases source with
  | none => exact ⟨none, String.ofCString_null_spec heap garbage, rfl⟩
  | some source =>
    refine ⟨_, String.ofCString_spec heap source garbage, ?_⟩
    have hlt : (CharsWorld.upToNul (some source)).length < source.bytes.length := by
      have hstrlen := (String.toNat_strlen source).2
      rw [← String.chars_bytes]
      unfold CString.chars
      rw [List.length_take]
      omega
    have hle := source.le
    unfold Chars.make
    rw [if_pos ⟨hgarbage, by omega⟩]
    rfl

theorem given_of_string (hok : s.Ok heap) (houtside : s.cStr.Outside a.originBlock)
    (hgarbage : answers.garbage.isSome = true)
    : a.Given heap s.cStr ((heap.bytes s.view).takeWhile (· != 0)) answers := by
  rcases String.cStr_read hok with ⟨source, hread, hchars⟩
  refine ⟨houtside, ?_, hgarbage⟩
  rw [hread, Option.map_some, hchars]

theorem Given.read_reset (h : a.Given heap hostname chars answers)
    : ∃ source, hostname.read (a.resetOrigin heap).2 = some source
        ∧ CharsWorld.upToNul source = chars := by
  have hread : hostname.read (a.resetOrigin heap).2 = hostname.read heap := by
    apply CharPtr.read_congr
    intro p hp
    apply resetOrigin_blocks
    intro heq
    have houtside := h.1
    rw [hp] at houtside
    apply houtside heq.symm
  have hsource := h.2.1
  rw [Option.map_eq_some_iff] at hsource
  rw [hread]
  exact hsource

structure Called (heap : Heap) (a : Address) (x : Option Endpoint) (chars : List Byte)
    (answers : Answers) (error : ErrorCode) (a' : Address) (heap' : Heap) : Prop where
  stands : a'.Stands heap' ((answers.events chars).foldl apply x)
  succeeds : answers.found.isSome = true → error = .noError answers.call
  fails : answers.found = none → a' = a ∧ heap' = heap

theorem Called.of_error (h : a.Stands heap x) (hfound : answers.found = none) (error : ErrorCode)
    : Called heap a x chars answers error a heap := by
  constructor
  . unfold Answers.events
    rw [hfound]
    exact h
  . rw [hfound]
    simp
  . intro _
    exact ⟨rfl, rfl⟩

theorem fromHostname_spec (h : a.Stands heap x) (hgiven : a.Given heap hostname chars answers)
    : ∃ error a' heap', a.fromHostname heap hostname answers = some (error, a', heap')
        ∧ Called heap a x chars answers error a' heap' := by
  unfold fromHostname
  split
  . next hrefused =>
    refine ⟨_, _, _, rfl, ?_⟩
    apply Called.of_error h (Answers.found_of_refused hrefused)
  . next hpassed =>
    rw [Bool.not_eq_true] at hpassed
    have hfound := Answers.found_of_passed hpassed
    split
    . next error hresolved =>
      rw [hresolved] at hfound
      refine ⟨_, _, _, rfl, ?_⟩
      apply Called.of_error h hfound
    . next ip hresolved =>
      rw [hresolved] at hfound
      have hfound : answers.found = some ip := hfound
      have hreset := resetOrigin_address heap a
      have hstands : ((a.resetOrigin heap).1.putIp ip).Stands (a.resetOrigin heap).2
          (apply x (.place ip none)) := by
        apply fromIp_stands h ip
      dsimp only
      split
      . next hkind =>
        rcases hgiven.read_reset with ⟨source, hread, hchars⟩
        rcases ofCString_holds (a.resetOrigin heap).2 source hgiven.2.2 with ⟨y, hc, hy⟩
        rw [hread]
        refine ⟨_, _, _, rfl, ?_, fun _ => rfl, ?_⟩
        . unfold Answers.events
          rw [hfound, hkind]
          have hkeeps : Keeps (String.ofCString (a.resetOrigin heap).2 source answers.garbage).2
              (String.ofCString (a.resetOrigin heap).2 source answers.garbage).1 chars := by
            exact ⟨hc.ok, y, hc.represents, hy.trans hchars⟩
          cases x with
          | none => exact ⟨hstands.1, .some hkeeps⟩
          | some e => exact ⟨hstands.1, .some hkeeps⟩
        . rw [hfound]
          simp
      . next hkind =>
        refine ⟨_, _, _, rfl, ?_, fun _ => rfl, ?_⟩
        . unfold Answers.events
          rw [hfound]
          dsimp only
          rw [if_neg hkind]
          exact hstands
        . rw [hfound]
          simp

end Address

end Net

end Sfap
