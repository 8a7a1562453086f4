import Sfap.Net.Address.Refinement
import Sfap.Net.AddressKind.Classification
import Sfap.Net.Resolve.Impl

/-!
This module contains `from_hostname` with all that it reads through its argument, and what comes of an argument
that belongs to the name that the address holds.
-/

namespace Sfap

namespace CharPtr

def ofData : Option Ptr → CharPtr
  | none => .null
  | some p => .memory p

end CharPtr

namespace Net

structure Names where
  pton : InetPton
  getaddrinfo : GetAddrInfo
  mode : ResolveMode

def Names.Finds (names : Names) (source : Option CString) : Prop :=
  detectAddressKind names.pton source = some (.ok .hostname)
    ∧ ∃ ip, resolve names.getaddrinfo source names.mode = .ok ip

-- `inet_pton` accepts nothing
def Names.finding (infos : List AddrInfo) : Names :=
  ⟨⟨fun _ => (0, 0), fun _ => (0, 0)⟩, fun _ _ => (0, infos), .preferIpv4⟩

namespace Address

-- the characters are read by `detect_address_kind`, by `resolve` and for the new origin
def fromHostnameWith (names : Names) (heap : Heap) (a : Address) (hostname : CharPtr)
    (garbage : Option (Nat → Byte)) (call : Nat) : Option (ErrorCode × Address × Heap) :=
  match hostname.read heap with
  | none => none
  | some source =>
    match detectAddressKind names.pton source with
    | none => none
    | some kind =>
      let resolved := resolve names.getaddrinfo source names.mode
      a.fromHostname heap hostname ⟨kind, resolved, garbage, call⟩

def movedFrom (a : Address) : Address :=
  { a with origin := a.origin.map fun origin => origin.moveConstruct.2 }

def copy (heap : Heap) (a : Address) (garbage : Option (Nat → Byte)) : Address × Heap :=
  match a.origin with
  | none => (a, heap)
  | some origin =>
    let (origin, heap) := origin.copy heap garbage
    ({ a with origin := some origin }, heap)

inductive Reachable : Heap → Address → Prop where
  | default (heap : Heap) : Reachable heap .default
  | ofIp (heap : Heap) (ip : Ipx) (port : PortT) : Reachable (ofIp heap ip port).2 (ofIp heap ip port).1
  | ofHostname {heap heap' : Heap} {a : Address} {hostname : CharPtr} {port : PortT} {answers : Answers} :
      Address.ofHostname heap hostname port answers = some (a, heap') → Reachable heap' a
  | fromIp {heap : Heap} {a : Address} (ip : Ipx) :
      Reachable heap a → Reachable (a.fromIp heap ip).2 (a.fromIp heap ip).1
  | fromHostname {heap heap' : Heap} {a a' : Address} {hostname : CharPtr} {answers : Answers}
      {error : ErrorCode} :
      Reachable heap a → a.fromHostname heap hostname answers = some (error, a', heap') → Reachable heap' a'
  | setPort {heap : Heap} {a : Address} (port : PortT) : Reachable heap a → Reachable heap (a.setPort port)
  | clear {heap : Heap} {a : Address} : Reachable heap a → Reachable (a.clear heap).2 (a.clear heap).1
  | movedFrom {heap : Heap} {a : Address} : Reachable heap a → Reachable heap a.movedFrom
  | copy {heap : Heap} {a : Address} (garbage : Option (Nat → Byte)) :
      Reachable heap a → Reachable (a.copy heap garbage).2 (a.copy heap garbage).1
  -- the rest of the program leaves the stored name alone
  | elsewhere {heap heap' : Heap} {a : Address} :
      Reachable heap a → (∀ q, a.originBlock = some q → heap'.blocks q = heap.blocks q) → Reachable heap' a

-- the string that the name is stored in owns its characters
structure Kept (heap : Heap) (s : String) : Prop where
  ok : s.Ok heap
  owner : ∀ p, s.data.data = some p → s.data.owner = true

def InOrder (heap : Heap) (a : Address) : Prop :=
  ∀ s, a.origin = some s → Kept heap s

variable {names : Names} {heap heap' : Heap} {a a' : Address} {hostname : CharPtr} {answers : Answers}
  {error : ErrorCode} {s : String} {view : ByteSpan}

theorem inOrder_of_none (h : a.origin = none) : a.InOrder heap := by
  intro s hs
  rw [h] at hs
  simp at hs

theorem InOrder.congr (h : a.InOrder heap) (horigin : a'.origin = a.origin) : a'.InOrder heap := by
  unfold InOrder
  rw [horigin]
  exact h

theorem owner_resize (heap : Heap) (s : String) (n : SizeT)
    : (s.resize heap n).2.1.data.owner = s.data.owner := by
  have hdata : (s.data.resize (n + 1)).2.owner = s.data.owner := by
    unfold Buffer.resize
    split <;> rfl
  unfold String.resize
  split
  . rfl
  . dsimp only
    split
    . rfl
    . exact hdata

theorem owner_assign (heap : Heap) (s : String) (source : Source)
    : (s.assign heap source).2.1.data.owner = s.data.owner := by
  have hresize := owner_resize heap s source.size
  unfold String.assign
  split
  . rfl
  . dsimp only
    split <;> exact hresize

theorem owner_ofSize (heap : Heap) (n : SizeT) (garbage : Option (Nat → Byte))
    : (String.ofSize heap n garbage).1.data.owner = true := by
  unfold String.ofSize
  dsimp only
  rw [owner_resize]
  rfl

theorem owner_ofCString (heap : Heap) (source : Option CString) (garbage : Option (Nat → Byte))
    : (String.ofCString heap source garbage).1.data.owner = true := by
  unfold String.ofCString
  split
  . rfl
  . dsimp only
    split
    . unfold String.assignCString
      dsimp only
      rw [owner_assign]
      rfl
    . rfl

theorem owner_copy (heap : Heap) (other : String) (garbage : Option (Nat → Byte))
    : (String.copy heap other garbage).1.data.owner = true := by
  have hsize := owner_ofSize heap other.size garbage
  unfold String.copy
  dsimp only
  split
  . dsimp only
    rw [owner_assign]
    exact hsize
  . exact hsize

theorem ok_ofCString (heap : Heap) (source : Option CString) (garbage : Option (Nat → Byte))
    : (String.ofCString heap source garbage).1.Ok (String.ofCString heap source garbage).2 := by
  cases source with
  | none => exact (String.ofCString_null_spec heap garbage).ok
  | some source => exact (String.ofCString_spec heap source garbage).ok

theorem ok_copy (hok : s.Ok heap) (garbage : Option (Nat → Byte))
    : (String.copy heap s garbage).1.Ok (String.copy heap s garbage).2 := by
  cases hp : s.data.data with
  | none =>
    have hx : s.Represents heap none := hp
    exact (String.copy_spec hok hx garbage).ok
  | some p =>
    have hle : (heap.load p s.size.toNat).length ≤ s.capacity.toNat :=
      Nat.le_trans (heap.length_load_le p _) (String.size_le_capacity hok hp)
    have hx : s.Represents heap (some ⟨s.capacity.toNat, heap.load p s.size.toNat, hle⟩) :=
      ⟨p, hp, rfl, rfl⟩
    exact (String.copy_spec hok hx garbage).ok

theorem kept_movedFrom (heap : Heap) (s : String) : Kept heap s.moveConstruct.2 := by
  exact ⟨.of_null rfl, fun _ hp => absurd hp (Option.some_ne_none _).symm⟩

theorem inOrder_fromHostname (h : a.InOrder heap)
    (heq : a.fromHostname heap hostname answers = some (error, a', heap'))
    : a'.InOrder heap' := by
  unfold fromHostname at heq
  split at heq
  . cases heq
    exact h
  . split at heq
    . cases heq
      exact h
    . next ip _ =>
      have hnone : ((a.resetOrigin heap).1.putIp ip).origin = none := by
        have hreset := (resetOrigin_address heap a).2
        unfold putIp
        split <;> exact hreset
      dsimp only at heq
      split at heq
      . split at heq
        . simp at heq
        . next source _ =>
          cases heq
          intro s hs
          cases hs
          exact ⟨ok_ofCString _ _ _, fun _ _ => owner_ofCString _ _ _⟩
      . cases heq
        apply inOrder_of_none hnone

theorem Reachable.inOrder (h : Reachable heap a) : a.InOrder heap := by
  induction h with
  | default heap => apply inOrder_of_none rfl
  | ofIp heap ip port =>
    apply inOrder_of_none
    rfl
  | @ofHostname heap heap' a hostname port answers heq =>
    unfold Address.ofHostname at heq
    split at heq
    . simp at heq
    . next error a₁ heap₁ hcall =>
      cases heq
      have hcalled := inOrder_fromHostname (inOrder_of_none rfl) hcall
      apply hcalled.congr
      unfold Address.setPort
      split <;> rfl
  | @fromIp heap a ip _ ih =>
    apply inOrder_of_none
    have hreset := (resetOrigin_address heap a).2
    unfold Address.fromIp putIp
    dsimp only
    split <;> exact hreset
  | fromHostname _ heq ih => exact inOrder_fromHostname ih heq
  | setPort port _ ih =>
    apply ih.congr
    unfold Address.setPort
    split <;> rfl
  | @clear heap a _ ih =>
    apply inOrder_of_none
    exact (resetOrigin_address heap { a with address := none }).2
  | @movedFrom heap a _ ih =>
    intro s hs
    rcases Option.map_eq_some_iff.mp hs with ⟨origin, _, rfl⟩
    apply kept_movedFrom
  | @copy heap a garbage _ ih =>
    unfold Address.copy
    split
    . next hnone => exact inOrder_of_none hnone
    . next origin horigin =>
      intro s hs
      cases hs
      exact ⟨ok_copy (ih origin horigin).ok garbage, fun _ _ => owner_copy _ _ _⟩
  | @elsewhere heap heap' a _ hblocks ih =>
    intro s hs
    refine ⟨(ih s hs).ok.frame ?_, (ih s hs).owner⟩
    intro p hp
    apply hblocks
    unfold originBlock
    rw [hs]
    simp [hp]

theorem cString_eq_of_bytes {source source' : CString}
    (h : source.bytes = source'.bytes) : source = source' := by
  cases source
  cases source'
  cases h
  rfl

theorem read_eq_of_chars {p q : CharPtr} {source source' : Option CString}
    (hp : p.read heap = some source) (hq : q.read heap = some source')
    (hchars : CharsWorld.upToNul source = CharsWorld.upToNul source')
    (hne : CharsWorld.upToNul source ≠ []) : source = source' := by
  have hbytes : ∀ (p : CharPtr) (source : Option CString), p.read heap = some source →
      CharsWorld.upToNul source ≠ [] →
      ∃ c, source = some c ∧ c.bytes = CharsWorld.upToNul source ++ [0] := by
    intro p source hp hne
    cases p with
    | null =>
      cases hp
      exact absurd rfl hne
    | literal =>
      cases hp
      exact absurd rfl hne
    | memory p =>
      rcases Option.map_eq_some_iff.mp hp with ⟨c, hc, rfl⟩
      refine ⟨c, rfl, ?_⟩
      unfold Heap.cString at hc
      rw [CString.ofBytes_bytes hc]
      unfold CString.ofBytes at hc
      dsimp only at hc
      split at hc
      . cases hc
        rfl
      . simp at hc
  rcases hbytes p source hp hne with ⟨c, rfl, hc⟩
  rcases hbytes q source' hq (hchars ▸ hne) with ⟨c', rfl, hc'⟩
  rw [cString_eq_of_bytes (hc.trans (hchars ▸ hc'.symm))]

theorem takeWhile_upToNul (source : Option CString)
    : (CharsWorld.upToNul source).takeWhile (· != 0) = CharsWorld.upToNul source := by
  cases source with
  | none => rfl
  | some source => exact List.takeWhile_idem

theorem detect_of_no_chars {pton : InetPton} {source : Option CString}
    (h : CharsWorld.upToNul source = []) : detectAddressKind pton source = some (.ok .empty) := by
  cases source with
  | none => rfl
  | some source =>
    apply detect_empty
    rw [String.chars_bytes]
    exact h

theorem ofData_view {p : Ptr} (hp : s.data.data = some p) : CharPtr.ofData s.view.data = .memory p := by
  unfold String.view
  rw [if_pos (String.isValid_of_data hp), hp]
  rfl

theorem view_of_null (hp : s.data.data = none) : s.view = ⟨none, 0⟩ := by
  unfold String.view
  rw [String.isValid_of_null hp]
  rfl

theorem read_origin (hkept : Kept heap s)
    : ∃ source, (CharPtr.ofData s.view.data).read heap = some source
        ∧ CharsWorld.upToNul source = (heap.bytes s.view).takeWhile (· != 0) := by
  cases hp : s.data.data with
  | none =>
    rw [view_of_null hp]
    exact ⟨none, rfl, rfl⟩
  | some p =>
    have hptr : s.cStr = .memory p := by
      unfold String.cStr
      rw [hp]
    rcases String.cStr_read hkept.ok with ⟨source, hread, hchars⟩
    rw [ofData_view hp, ← hptr]
    exact ⟨some source, hread, hchars⟩

theorem fromHostname_of_unread (heap : Heap) (a : Address)
    (h : ∀ ip, answers.isKind .hostname = true → answers.resolved ≠ .ok ip)
    : ∃ r, ∀ hostname, a.fromHostname heap hostname answers = some r := by
  unfold fromHostname
  split
  . exact ⟨_, fun _ => rfl⟩
  . split
    . exact ⟨_, fun _ => rfl⟩
    . next ip hip =>
      have hkind : ¬ answers.isKind .hostname = true := fun hkind => h ip hkind hip
      dsimp only
      simp only [hkind, Bool.false_eq_true, ↓reduceIte]
      exact ⟨_, fun _ => rfl⟩

theorem read_of_freed {p : Ptr} (h : heap.blocks p.block = none) : (CharPtr.memory p).read heap = none := by
  unfold CharPtr.read Heap.cString
  dsimp only
  rw [h, Option.getD_none, List.drop_nil]
  rfl

theorem fromHostname_of_stored {p : Ptr} {ip : Ipx} (hs : a.origin = some s) (hkept : Kept heap s)
    (hp : s.data.data = some p) (hkind : answers.isKind .hostname = true)
    (hresolved : answers.resolved = .ok ip)
    : a.fromHostname heap (.memory p) answers = none := by
  have hpassed : (answers.isKind .empty || answers.isKind .unknown) = false := by
    unfold Answers.isKind at hkind ⊢
    cases hanswer : answers.kind with
    | error error => rfl
    | ok kind =>
      rw [hanswer, beq_iff_eq] at hkind
      rw [hkind]
      rfl
  have hfreed : (a.resetOrigin heap).2.blocks p.block = none := by
    unfold resetOrigin
    rw [hs]
    dsimp only
    unfold String.destroy Buffer.destroy Heap.deleteBytes
    rw [hkept.owner p hp, if_pos rfl, hp]
    exact if_pos rfl
  unfold fromHostname
  rw [hpassed, hresolved]
  dsimp only
  rw [if_neg Bool.false_ne_true, if_pos hkind, read_of_freed hfreed]

def seen (result : Option (ErrorCode × Address × Heap))
    : Option (ErrorCode × Option InternalAddress × Option (List Byte)) :=
  result.map fun (error, a, heap) => (error, a.getAddress, a.getOrigin.map heap.bytes)

theorem fromHostnameWith_eq {source : Option CString} {kind : Except ErrorCode AddressKind}
    (hread : hostname.read heap = some source) (hkind : detectAddressKind names.pton source = some kind)
    (garbage : Option (Nat → Byte)) (call : Nat)
    : fromHostnameWith names heap a hostname garbage call
        =
      a.fromHostname heap hostname ⟨kind, resolve names.getaddrinfo source names.mode, garbage, call⟩ := by
  unfold fromHostnameWith
  rw [hread]
  dsimp only
  rw [hkind]

theorem finds_iff {source : Option CString} {kind : Except ErrorCode AddressKind}
    (hkind : detectAddressKind names.pton source = some kind) {garbage : Option (Nat → Byte)} {call : Nat}
    (hanswers : ⟨kind, resolve names.getaddrinfo source names.mode, garbage, call⟩ = answers)
    : Names.Finds names source ↔ answers.isKind .hostname = true ∧ ∃ ip, answers.resolved = .ok ip := by
  subst hanswers
  unfold Names.Finds Answers.isKind
  rw [hkind]
  cases kind with
  | error error => simp
  | ok kind => simp

theorem same_of_no_chars {p q : CharPtr} {source source' : Option CString} (hp : p.read heap = some source)
    (hq : q.read heap = some source') (hnil : CharsWorld.upToNul source = [])
    (hnil' : CharsWorld.upToNul source' = []) (garbage : Option (Nat → Byte)) (call : Nat)
    : fromHostnameWith names heap a p garbage call = fromHostnameWith names heap a q garbage call
        ∧ (∃ r, seen (fromHostnameWith names heap a q garbage call) = some r)
        ∧ ¬ Names.Finds names source' := by
  have hkind : detectAddressKind names.pton source = some (.ok .empty) := detect_of_no_chars hnil
  have hkind' : detectAddressKind names.pton source' = some (.ok .empty) := detect_of_no_chars hnil'
  rw [fromHostnameWith_eq hp hkind, fromHostnameWith_eq hq hkind']
  refine ⟨rfl, ⟨_, rfl⟩, ?_⟩
  intro hfinds
  have hhostname := hkind'.symm.trans hfinds.1
  simp at hhostname

/--
To resolve the name of an address again through a pointer to it is the same as through a pointer to a copy, unless
the name is a hostname that is found.
-/
theorem refresh_same_iff {copy : CharPtr} {source : Option CString} (h : Reachable heap a)
    (hview : a.getOrigin = some view) (hread : copy.read heap = some source)
    (hcopy : CharsWorld.upToNul source = heap.bytes view) (names : Names)
    (garbage : Option (Nat → Byte)) (call : Nat)
    : (∃ r, seen (fromHostnameWith names heap a (.ofData view.data) garbage call) = some r
        ∧ seen (fromHostnameWith names heap a copy garbage call) = some r)
        ↔
      ¬ Names.Finds names source := by
  unfold getOrigin at hview
  cases hs : a.origin with
  | none => simp [hs] at hview
  | some s =>
    rw [hs] at hview
    cases hview
    have hkept := h.inOrder s hs
    rcases read_origin hkept with ⟨source', hread', hchars'⟩
    have hchars : CharsWorld.upToNul source' = CharsWorld.upToNul source := by
      rw [hchars', ← hcopy, takeWhile_upToNul]
    by_cases hnil : CharsWorld.upToNul source = []
    . rcases @same_of_no_chars names heap a _ _ _ _ hread' hread (hchars.trans hnil) hnil garbage call with
        ⟨heq, ⟨r, hr⟩, hnot⟩
      rw [heq]
      exact iff_of_true ⟨r, hr, hr⟩ hnot
    . have hsource : source' = source := read_eq_of_chars hread' hread hchars (hchars ▸ hnil)
      subst hsource
      rcases detect_isSome names.pton source' with ⟨kind, hkind⟩
      rw [fromHostnameWith_eq hread' hkind, fromHostnameWith_eq hread hkind]
      generalize hanswers : (⟨kind, resolve names.getaddrinfo source' names.mode, garbage, call⟩ : Answers)
        = answers
      rw [finds_iff hkind hanswers]
      constructor
      . rintro ⟨r, hr, _⟩ ⟨hisKind, ip, hip⟩
        cases hp : s.data.data with
        | none =>
          rw [view_of_null hp] at hchars'
          exact hnil hchars'
        | some p =>
          rw [ofData_view hp, fromHostname_of_stored hs hkept hp hisKind hip] at hr
          simp [seen] at hr
      . intro hnot
        have hunread : ∀ ip, answers.isKind .hostname = true → answers.resolved ≠ .ok ip :=
          fun ip hisKind hip => hnot ⟨hisKind, ip, hip⟩
        rcases fromHostname_of_unread heap a hunread with ⟨r, hr⟩
        rw [hr, hr]
        exact ⟨_, rfl, rfl⟩

-- `"ab"` with the port 80, and the copy that it has been resolved from in front of it
def ab : Option (Address × Heap) :=
  ofHostname (Memory.empty.alloc [97, 98, 0]).2 (.memory ⟨0, 0⟩) 80
    ⟨.ok .hostname, .ok (.v4 (.replicate 4 1)), some fun _ => 7, 0⟩

theorem refresh_same_of_not_found
    : ∃ heap a view, Reachable heap a ∧ a.getOrigin = some view ∧ heap.bytes view = [97, 98]
        ∧ ∃ r, seen (fromHostnameWith (Names.finding []) heap a (.ofData view.data) none 1) = some r
          ∧ seen (fromHostnameWith (Names.finding []) heap a (.memory ⟨0, 0⟩) none 1) = some r := by
  have hab : (ab.map fun r => (r.1.getOrigin.map r.2.bytes,
      ((CharPtr.memory ⟨0, 0⟩).read r.2).map CharsWorld.upToNul)) = some (some [97, 98], some [97, 98]) := by
    decide +kernel
  rcases Option.map_eq_some_iff.mp hab with ⟨⟨a, heap⟩, hresult, heq⟩
  simp only [Prod.mk.injEq] at heq
  rcases Option.map_eq_some_iff.mp heq.1 with ⟨view, hview, hbytes⟩
  rcases Option.map_eq_some_iff.mp heq.2 with ⟨source, hread, hchars⟩
  have hreachable := Reachable.ofHostname hresult
  refine ⟨heap, a, view, hreachable, hview, hbytes, ?_⟩
  apply (refresh_same_iff hreachable hview hread (hchars.trans hbytes.symm) (Names.finding []) none 1).mpr
  rintro ⟨_, ip, hip⟩
  cases source with
  | none => cases hip
  | some source => cases hip

-- the name is found again
theorem refresh_dangles
    : ∃ heap a view, Reachable heap a ∧ a.getOrigin = some view ∧ heap.bytes view = [97, 98]
        ∧ ((CharPtr.memory ⟨0, 0⟩).read heap).map CharsWorld.upToNul = some [97, 98]
        ∧ let names := Names.finding
            [⟨afInet, [2, 0, 0, 0, 127, 0, 0, 2] ++ List.replicate 8 0, by decide, by decide⟩]
          fromHostnameWith names heap a (.ofData view.data) (some fun _ => 7) 1 = none
            ∧ seen (fromHostnameWith names heap a (.memory ⟨0, 0⟩) (some fun _ => 7) 1)
              = some (.noError 1, some ⟨.v4 #v[127, 0, 0, 2], 80⟩, some [97, 98]) := by
  let names := Names.finding
    [⟨afInet, [2, 0, 0, 0, 127, 0, 0, 2] ++ List.replicate 8 0, by decide, by decide⟩]
  have hab : (ab.bind fun r => r.1.getOrigin.map fun view => decide (r.2.bytes view = [97, 98]
        ∧ ((CharPtr.memory ⟨0, 0⟩).read r.2).map CharsWorld.upToNul = some [97, 98]
        ∧ (fromHostnameWith names r.2 r.1 (.ofData view.data) (some fun _ => 7) 1).isNone = true
        ∧ seen (fromHostnameWith names r.2 r.1 (.memory ⟨0, 0⟩) (some fun _ => 7) 1)
          = some (.noError 1, some ⟨.v4 #v[127, 0, 0, 2], 80⟩, some [97, 98]))) = some true := by
    decide +kernel
  rcases Option.bind_eq_some_iff.mp hab with ⟨⟨a, heap⟩, hresult, heq⟩
  rcases Option.map_eq_some_iff.mp heq with ⟨view, hview, heq⟩
  rw [decide_eq_true_eq, Option.isNone_iff_eq_none] at heq
  exact ⟨heap, a, view, .ofHostname hresult, hview, heq⟩

end Address

end Net

end Sfap
