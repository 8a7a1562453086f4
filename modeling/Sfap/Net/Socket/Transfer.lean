import Mathlib.Data.List.Induction
import Sfap.Net.Socket.Impl

/-!
This module contains the transfer loops of a socket: they move through the data in order, whatever their
requests are answered with.
-/

namespace Sfap

-- `subspan(offset)`
def ByteSpan.subspan (span : ByteSpan) (offset : SizeT) : ByteSpan :=
  ⟨span.data.map (·.add offset.toNat), span.size - offset⟩

-- what is received is stored from the front of the chunk on
def Heap.fill (heap : Heap) (chunk : ByteSpan) (answer : Except ErrorCode (List Byte)) : Heap :=
  match chunk.data, answer with
  | some p, .ok bytes => heap.store p bytes
  | _, _ => heap

namespace Net

inductive Transfer where
  | awaiting (offset : SizeT)
  | returned
  deriving DecidableEq, Repr

-- the arguments of `socket_send` or `socket_recv`
structure Asked where
  handle : SocketT
  chunk : ByteSpan
  deriving DecidableEq, Repr

abbrev Answer := Except ErrorCode SizeT

namespace Transfer

def loop (data : ByteSpan) (offset : SizeT) : Transfer :=
  if offset < data.size then .awaiting offset else .returned

def start (s : Socket) (data : ByteSpan) : Transfer :=
  if !s.isValid || data.size == 0 then .returned else loop data 0

-- from the answer to a request on
def resume (data : ByteSpan) (exact : Bool) (offset : SizeT) (answer : Answer) : Transfer :=
  match answer with
  | .error _ => .returned
  | .ok n =>
    if n == 0 then
      .returned
    else
      let offset := offset + n
      if !exact then .returned else loop data offset

def step (s : Socket) (data : ByteSpan) (exact : Bool) (t : Transfer) (answer : Answer)
    : Option (Transfer × Asked) :=
  match t with
  | .awaiting offset => some (resume data exact offset answer, ⟨s.handle, data.subspan offset⟩)
  | .returned => none

end Transfer

structure Receipt where
  transfer : Transfer
  heap : Heap

namespace Socket

def sendBytes (s : Socket) (data : ByteSpan) : Transfer → Answer → Option (Transfer × Asked) :=
  Transfer.step s data true

-- the answer is an error or the bytes that have been received
def recvBytes (s : Socket) (data : ByteSpan) (exact : Bool) (r : Receipt)
    (answer : Except ErrorCode (List Byte))
    : Option (Receipt × Asked) :=
  (Transfer.step s data exact r.transfer (answer.map fun bytes => .ofNat bytes.length)).map
    fun (t, asked) => (⟨t, r.heap.fill asked.chunk answer⟩, asked)

end Socket

namespace Transfer

open Transition

def amount : Answer → Nat
  | .ok n => n.toNat
  | .error _ => 0

def Accepts (answer : Answer) : Prop :=
  amount answer ≠ 0

instance (answer : Answer) : Decidable (Accepts answer) :=
  inferInstanceAs (Decidable (_ ≠ _))

def total (log : List (Answer × Asked)) : Nat :=
  log.foldl (fun sum entry => sum + amount entry.1) 0

def Fits (data : ByteSpan) (t : Transfer) (answer : Answer) : Prop :=
  ∀ offset, t = .awaiting offset → amount answer ≤ (data.subspan offset).size.toNat

@[simp]
theorem total_nil : total [] = 0 := rfl

@[simp]
theorem total_snoc (log : List (Answer × Asked)) (entry : Answer × Asked)
    : total (log ++ [entry]) = total log + amount entry.1 := by
  simp [total]

theorem size_subspan (data : ByteSpan) {offset : SizeT} (h : offset.toNat ≤ data.size.toNat)
    : (data.subspan offset).size.toNat = data.size.toNat - offset.toNat := by
  apply Word.toNat_sub_of_toNat_le h

theorem loop_eq_awaiting {data : ByteSpan} {offset offset' : SizeT}
    (h : loop data offset = .awaiting offset')
    : offset' = offset ∧ offset.toNat < data.size.toNat := by
  unfold loop at h
  split at h
  . next hlt =>
    rw [awaiting.injEq] at h
    exact ⟨h.symm, UInt64.lt_iff_toNat_lt.mp hlt⟩
  . simp at h

theorem loop_eq_returned {data : ByteSpan} {offset : SizeT} (h : loop data offset = .returned)
    : data.size.toNat ≤ offset.toNat := by
  unfold loop at h
  split at h
  . simp at h
  . next hge =>
    have := mt UInt64.lt_iff_toNat_lt.mpr hge
    omega

structure Stands (s : Socket) (data : ByteSpan) (exact : Bool) (log : List (Answer × Asked))
    (t : Transfer) : Prop where
  offset : ∀ offset, t = .awaiting offset → offset.toNat = total log ∧ total log < data.size.toNat
  total_le : total log ≤ data.size.toNat
  accepts : t ≠ .returned → ∀ entry ∈ log, Accepts entry.1
  before : ∀ entry ∈ log.dropLast, Accepts entry.1
  returned : exact = true → t = .returned → total log = data.size.toNat ∨ ∃ entry ∈ log, ¬ Accepts entry.1
  once : exact = false → log.length = if t = .returned then 1 else 0
  asked : ∀ (i : Nat) entry, log[i]? = some entry →
    entry.2 = ⟨s.handle, data.subspan (.ofNat (total (log.take i)))⟩

theorem Stands.start {s : Socket} {data : ByteSpan} {exact : Bool} (hvalid : s.isValid = true)
    (hdata : data.size ≠ 0)
    : Stands s data exact [] (start s data) := by
  have hpos : 0 < data.size.toNat := by
    rw [Nat.pos_iff_ne_zero]
    intro heq
    apply hdata ((Word.eq_zero_iff_toNat data.size).mpr heq)
  have hstart : Transfer.start s data = .awaiting 0 := by
    unfold Transfer.start loop
    rw [if_neg, if_pos]
    . rw [UInt64.lt_iff_toNat_lt]
      exact hpos
    . simp [hvalid, hdata]
  rw [hstart]
  constructor
  . intro offset heq
    rw [awaiting.injEq] at heq
    rw [← heq]
    exact ⟨rfl, hpos⟩
  . apply Nat.zero_le _
  . simp
  . simp
  . simp
  . simp
  . simp

theorem resume_cases (data : ByteSpan) (exact : Bool) (offset : SizeT) (answer : Answer)
    : (¬ Accepts answer ∧ resume data exact offset answer = .returned)
        ∨
      (Accepts answer ∧ exact = false ∧ resume data exact offset answer = .returned)
        ∨
      (Accepts answer ∧ exact = true
        ∧ resume data exact offset answer = loop data (offset + .ofNat (amount answer))) := by
  cases answer with
  | error e => exact .inl ⟨fun h => h rfl, rfl⟩
  | ok n =>
    unfold Accepts amount resume
    dsimp only
    rw [UInt64.ofNat_toNat]
    by_cases hn : n = 0
    . left
      rw [hn]
      exact ⟨fun h => h rfl, rfl⟩
    . have hne : n.toNat ≠ 0 := mt (Word.eq_zero_iff_toNat n).mpr hn
      right
      rw [if_neg (by simpa using hn)]
      cases exact with
      | false => exact .inl ⟨hne, rfl, rfl⟩
      | true => exact .inr ⟨hne, rfl, rfl⟩

theorem dropLast_snoc (log : List (Answer × Asked)) (entry : Answer × Asked)
    : (log ++ [entry]).dropLast = log := by
  simp

theorem Stands.step {s : Socket} {data : ByteSpan} {exact : Bool} {log : List (Answer × Asked)}
    {t t' : Transfer} {answer : Answer} {asked : Asked} (h : Stands s data exact log t)
    (hfits : Fits data t answer) (hstep : Transfer.step s data exact t answer = some (t', asked))
    : Stands s data exact (log ++ [(answer, asked)]) t' := by
  cases t with
  | returned => simp [Transfer.step] at hstep
  | awaiting offset =>
    rcases h.offset offset rfl with ⟨htotal, hlt⟩
    have hamount : amount answer ≤ data.size.toNat - total log := by
      rw [← htotal, ← size_subspan data (by omega)]
      apply hfits offset rfl
    have hsum : (offset + .ofNat (amount answer)).toNat = total log + amount answer := by
      have := UInt64.toNat_lt data.size
      rw [Word.toNat_add_ofNat, htotal]
      omega
    have haccepts := h.accepts (by simp)
    unfold Transfer.step at hstep
    rw [Option.some.injEq, Prod.mk.injEq] at hstep
    rcases hstep with ⟨rfl, rfl⟩
    have hcases := resume_cases data exact offset answer
    constructor
    . intro offset' heq
      rw [total_snoc]
      rcases hcases with ⟨_, hres⟩ | ⟨_, _, hres⟩ | ⟨_, _, hres⟩
      . simp [hres] at heq
      . simp [hres] at heq
      . rw [hres] at heq
        rcases loop_eq_awaiting heq with ⟨rfl, hlt'⟩
        rw [hsum] at hlt'
        exact ⟨hsum, hlt'⟩
    . rw [total_snoc]
      dsimp only
      omega
    . intro hne entry hentry
      rw [List.mem_append, List.mem_singleton] at hentry
      rcases hentry with hentry | rfl
      . apply haccepts entry hentry
      . rcases hcases with ⟨_, hres⟩ | ⟨_, _, hres⟩ | ⟨haccept, _, _⟩
        . exact absurd hres hne
        . exact absurd hres hne
        . exact haccept
    . rw [dropLast_snoc]
      exact haccepts
    . intro hexact hret
      rcases hcases with ⟨hfail, _⟩ | ⟨_, hfalse, _⟩ | ⟨_, _, hres⟩
      . right
        exact ⟨_, List.mem_append_right _ (List.mem_singleton_self _), hfail⟩
      . simp [hexact] at hfalse
      . left
        rw [hres] at hret
        have hge := loop_eq_returned hret
        rw [hsum] at hge
        rw [total_snoc]
        dsimp only
        omega
    . intro hexact
      have hlen := h.once hexact
      rw [if_neg (by simp)] at hlen
      rw [List.length_append, hlen, if_pos]
      . rfl
      . rcases hcases with ⟨_, hres⟩ | ⟨_, _, hres⟩ | ⟨_, htrue, _⟩
        . exact hres
        . exact hres
        . simp [hexact] at htrue
    . intro i entry hentry
      rw [List.getElem?_append] at hentry
      split at hentry
      . next hlt =>
        rw [List.take_append_of_le_length (by omega)]
        apply h.asked i entry hentry
      . next hge =>
        rw [List.getElem?_singleton] at hentry
        split at hentry
        . rw [Option.some.injEq] at hentry
          rw [← hentry]
          have hi : i = log.length := by omega
          rw [hi, List.take_left', ← htotal, UInt64.ofNat_toNat]
          rfl
        . simp at hentry

theorem stands {s : Socket} {data : ByteSpan} {exact : Bool} {log : List (Answer × Asked)} {t : Transfer}
    (hvalid : s.isValid = true) (hdata : data.size ≠ 0)
    (hrun : Run (restrict (Fits data) (ofStep (Transfer.step s data exact))) (Transfer.start s data) log t)
    : Stands s data exact log t := by
  induction hrun with
  | nil => exact .start hvalid hdata
  | snoc _ hstep ih => exact ih.step hstep.1 hstep.2

/--
The requests of `log` move through `data` in order: each one is for what lies behind the bytes accepted so
far, and none comes after one that has accepted nothing.
-/
structure InOrder (s : Socket) (data : ByteSpan) (log : List (Answer × Asked)) : Prop where
  asked : ∀ (i : Nat) entry, log[i]? = some entry →
    entry.2 = ⟨s.handle, data.subspan (.ofNat (total (log.take i)))⟩
  total_le : total log ≤ data.size.toNat
  stops : ∀ entry ∈ log.dropLast, Accepts entry.1
  accepting : log.countP (fun entry => Accepts entry.1) ≤ data.size.toNat
  requests : log.length ≤ log.countP (fun entry => Accepts entry.1) + 1

theorem countP_le_total (log : List (Answer × Asked))
    : log.countP (fun entry => Accepts entry.1) ≤ total log := by
  induction log using List.reverseRecOn with
  | nil => exact Nat.le_refl 0
  | append_singleton log entry ih =>
    rw [List.countP_append, List.countP_singleton, total_snoc]
    split
    . next haccept =>
      have hpos : amount entry.1 ≠ 0 := of_decide_eq_true haccept
      omega
    . omega

theorem Stands.inOrder {s : Socket} {data : ByteSpan} {exact : Bool} {log : List (Answer × Asked)}
    {t : Transfer} (h : Stands s data exact log t)
    : InOrder s data log := by
  refine ⟨h.asked, h.total_le, h.before, Nat.le_trans (countP_le_total log) h.total_le, ?_⟩
  have hinit : log.dropLast.countP (fun entry => Accepts entry.1) = log.dropLast.length := by
    rw [List.countP_eq_length]
    intro entry hentry
    apply decide_eq_true (h.before entry hentry)
  have hsub : log.dropLast.countP (fun entry => Accepts entry.1)
      ≤ log.countP (fun entry => Accepts entry.1) :=
    (List.dropLast_sublist log).countP_le
  rw [hinit, List.length_dropLast] at hsub
  omega

theorem Stands.returned_iff {s : Socket} {data : ByteSpan} {log : List (Answer × Asked)} {t : Transfer}
    (h : Stands s data true log t)
    : t = .returned ↔ total log = data.size.toNat ∨ ∃ entry ∈ log, ¬ Accepts entry.1 := by
  constructor
  . apply h.returned rfl
  . intro hcases
    cases t with
    | returned => rfl
    | awaiting offset =>
      rcases hcases with htotal | ⟨entry, hentry, hfail⟩
      . have := (h.offset offset rfl).2
        omega
      . exact absurd (h.accepts (by simp) entry hentry) hfail

def sent (heap : Heap) (log : List (Answer × Asked)) : List Byte :=
  log.flatMap fun entry => (heap.bytes entry.2.chunk).take (amount entry.1)

theorem bytes_subspan (heap : Heap) (data : ByteSpan) {offset : SizeT}
    (h : offset.toNat ≤ data.size.toNat)
    : heap.bytes (data.subspan offset) = (heap.bytes data).drop offset.toNat := by
  have hsize := size_subspan data h
  unfold Heap.bytes
  rw [hsize]
  cases hdata : data.data with
  | none =>
    unfold ByteSpan.subspan
    rw [hdata]
    exact List.drop_nil.symm
  | some p =>
    unfold ByteSpan.subspan
    rw [hdata]
    dsimp only [Option.map_some]
    rw [Memory.load_add (Nat.le_of_eq (Nat.add_sub_of_le h)), List.take_of_length_le]
    rw [List.length_drop]
    have := Memory.length_load_le heap p data.size.toNat
    omega

theorem sent_eq (heap : Heap) {s : Socket} {data : ByteSpan} {exact : Bool} {log : List (Answer × Asked)}
    {t : Transfer} (hvalid : s.isValid = true) (hdata : data.size ≠ 0)
    (hrun : Run (restrict (Fits data) (ofStep (Transfer.step s data exact))) (Transfer.start s data) log t)
    : sent heap log = (heap.bytes data).take (total log) := by
  induction hrun with
  | nil => rfl
  | @snoc log t₁ t₂ answer asked hrun hstep ih =>
    have hstands := stands hvalid hdata hrun
    have hstep := hstep.2
    cases t₁ with
    | returned => simp [ofStep, Transfer.step] at hstep
    | awaiting offset =>
      unfold ofStep Transfer.step at hstep
      rw [Option.some.injEq, Prod.mk.injEq] at hstep
      rcases hstands.offset offset rfl with ⟨htotal, hlt⟩
      have hsnoc : sent heap (log ++ [(answer, asked)])
          = sent heap log ++ (heap.bytes asked.chunk).take (amount answer) := by
        simp [sent]
      rw [hsnoc, ih, ← hstep.2, bytes_subspan heap data (by omega), htotal, total_snoc, List.take_add]

theorem step_isSome (s : Socket) (data : ByteSpan) (exact : Bool) {t : Transfer} (ht : t ≠ .returned)
    (answer : Answer)
    : (Transfer.step s data exact t answer).isSome = true := by
  cases t with
  | awaiting offset => rfl
  | returned => contradiction

theorem send_bytes_in_order (heap : Heap) {s : Socket} {data : ByteSpan} {log : List (Answer × Asked)}
    {t : Transfer} (hvalid : s.isValid = true) (hdata : data.size ≠ 0)
    (hrun : Run (restrict (Fits data) (ofStep (s.sendBytes data))) (Transfer.start s data) log t)
    : InOrder s data log
        ∧ sent heap log = (heap.bytes data).take (total log)
        ∧ (t = .returned ↔ total log = data.size.toNat ∨ ∃ entry ∈ log, ¬ Accepts entry.1)
        ∧ (t ≠ .returned → ∀ answer, (s.sendBytes data t answer).isSome = true) := by
  have h := stands hvalid hdata hrun
  exact ⟨h.inOrder, sent_eq heap hvalid hdata hrun, h.returned_iff, step_isSome s data true⟩

def answered (answer : Except ErrorCode (List Byte)) : Answer :=
  answer.map fun bytes => .ofNat bytes.length

def received (log : List (Except ErrorCode (List Byte) × Asked)) : List Byte :=
  log.flatMap fun entry =>
    match entry.1 with
    | .ok bytes => bytes
    | .error _ => []

def answers (log : List (Except ErrorCode (List Byte) × Asked)) : List (Answer × Asked) :=
  log.map fun entry => (answered entry.1, entry.2)

def FitsBytes (data : ByteSpan) (r : Receipt) (answer : Except ErrorCode (List Byte)) : Prop :=
  ∀ offset, r.transfer = .awaiting offset → ∀ bytes, answer = .ok bytes →
    bytes.length ≤ (data.subspan offset).size.toNat

variable {s : Socket} {data : ByteSpan} {exact : Bool} {r r' : Receipt} {p : Ptr} {heap : Heap}
  {log : List (Except ErrorCode (List Byte) × Asked)}

theorem recvBytes_eq_some {answer : Except ErrorCode (List Byte)} {asked : Asked}
    (hstep : s.recvBytes data exact r answer = some (r', asked))
    : Transfer.step s data exact r.transfer (answered answer) = some (r'.transfer, asked)
        ∧ r'.heap = r.heap.fill asked.chunk answer := by
  unfold Socket.recvBytes at hstep
  rw [Option.map_eq_some_iff] at hstep
  rcases hstep with ⟨⟨t, asked'⟩, hstep, heq⟩
  rw [Prod.mk.injEq] at heq
  rcases heq with ⟨rfl, rfl⟩
  exact ⟨hstep, rfl⟩

theorem FitsBytes.fits {answer : Except ErrorCode (List Byte)} (h : FitsBytes data r answer)
    : Fits data r.transfer (answered answer) := by
  intro offset hoffset
  cases answer with
  | error e => exact Nat.zero_le _
  | ok bytes =>
    have hle := h offset hoffset bytes rfl
    have := UInt64.toNat_lt (data.subspan offset).size
    have hamount : amount (answered (.ok bytes)) = bytes.length := by
      apply UInt64.toNat_ofNat_of_lt'
      apply Nat.lt_of_le_of_lt hle this
    rw [hamount]
    exact hle

theorem run_answers
    (hrun : Run (restrict (FitsBytes data) (ofStep (s.recvBytes data exact))) ⟨Transfer.start s data, heap⟩ log r)
    : Run (restrict (Fits data) (ofStep (Transfer.step s data exact))) (Transfer.start s data) (answers log)
        r.transfer := by
  induction hrun with
  | nil => exact .nil
  | snoc _ hstep ih =>
    have hsnoc := Run.snoc ih ⟨hstep.1.fits, (recvBytes_eq_some hstep.2).1⟩
    unfold answers at hsnoc ⊢
    rw [List.map_append]
    exact hsnoc

theorem heap_received (hvalid : s.isValid = true) (hdata : data.size ≠ 0) (hp : data.data = some p)
    (hbacks : heap.Backs p data.size.toNat)
    (hrun : Run (restrict (FitsBytes data) (ofStep (s.recvBytes data exact))) ⟨Transfer.start s data, heap⟩ log r)
    : r.heap = heap.store p (received log) ∧ (received log).length = total (answers log) := by
  induction hrun with
  | nil => exact ⟨(Memory.store_nil heap p).symm, rfl⟩
  | @snoc log r₁ r₂ answer asked hrun hstep ih =>
    have hstands := stands hvalid hdata (run_answers hrun)
    rcases hstep with ⟨hfits, hstep⟩
    rcases recvBytes_eq_some hstep with ⟨htransfer, hheap⟩
    rcases ih with ⟨hstore, hlength⟩
    cases ht : r₁.transfer with
    | returned =>
      rw [ht] at htransfer
      simp [Transfer.step] at htransfer
    | awaiting offset =>
      rw [ht] at htransfer hstands
      unfold Transfer.step at htransfer
      rw [Option.some.injEq, Prod.mk.injEq] at htransfer
      have htotal := (hstands.offset offset rfl).1
      have hchunk : asked.chunk.data = some (p.add (received log).length) := by
        rw [← htransfer.2, hlength, ← htotal]
        unfold ByteSpan.subspan
        rw [hp]
        rfl
      have htotal_snoc : total (answers (log ++ [(answer, asked)]))
          = total (answers log) + amount (answered answer) := by
        simp [answers]
      cases answer with
      | error e =>
        have hsnoc : received (log ++ [(.error e, asked)]) = received log := by simp [received]
        rw [hheap, hsnoc, htotal_snoc, hlength]
        unfold Heap.fill
        rw [hchunk]
        exact ⟨hstore, rfl⟩
      | ok bytes =>
        have hsnoc : received (log ++ [(.ok bytes, asked)]) = received log ++ bytes := by simp [received]
        rw [hheap, hsnoc, htotal_snoc, List.length_append, hlength]
        unfold Heap.fill
        rw [hchunk]
        dsimp only
        rw [hstore, Memory.store_append hbacks]
        refine ⟨rfl, ?_⟩
        have hle := hfits offset ht bytes rfl
        have := UInt64.toNat_lt (data.subspan offset).size
        have hamount : amount (answered (.ok bytes)) = bytes.length := by
          apply UInt64.toNat_ofNat_of_lt'
          apply Nat.lt_of_le_of_lt hle this
        rw [hamount]

theorem recv_bytes_in_order (hvalid : s.isValid = true) (hdata : data.size ≠ 0) (hp : data.data = some p)
    (hbacks : heap.Backs p data.size.toNat)
    (hrun : Run (restrict (FitsBytes data) (ofStep (s.recvBytes data exact))) ⟨Transfer.start s data, heap⟩ log r)
    : InOrder s data (answers log)
        ∧ r.heap = heap.store p (received log)
        ∧ r.heap.bytes data = received log ++ (heap.bytes data).drop (received log).length
        ∧ (exact = true → (r.transfer = .returned ↔
          (received log).length = data.size.toNat ∨ ∃ entry ∈ answers log, ¬ Accepts entry.1))
        ∧ (exact = false → log.length = if r.transfer = .returned then 1 else 0)
        ∧ (r.transfer ≠ .returned → ∀ answer, (s.recvBytes data exact r answer).isSome = true) := by
  have h := stands hvalid hdata (run_answers hrun)
  rcases heap_received hvalid hdata hp hbacks hrun with ⟨hheap, hlength⟩
  refine ⟨h.inOrder, hheap, ?_, ?_, ?_, ?_⟩
  . have hle : 0 + (received log).length ≤ data.size.toNat := by
      rw [hlength, Nat.zero_add]
      exact h.total_le
    unfold Heap.bytes
    rw [hp, hheap]
    dsimp only
    have hload := Memory.load_store hbacks hle
    have hzero : p.add 0 = p := rfl
    rw [hzero] at hload
    rw [hload]
    unfold List.splice
    rw [List.take_zero, List.nil_append, Nat.zero_add]
  . intro hexact
    subst hexact
    rw [hlength]
    exact h.returned_iff
  . intro hexact
    have honce := h.once hexact
    unfold answers at honce
    rw [List.length_map] at honce
    exact honce
  . intro hne answer
    unfold Socket.recvBytes
    rw [Option.isSome_map]
    apply step_isSome s data exact hne

theorem transfer_loops_in_order (hvalid : s.isValid = true) (hdata : data.size ≠ 0)
    : (∀ heap log t,
        Run (restrict (Fits data) (ofStep (s.sendBytes data))) (Transfer.start s data) log t →
        InOrder s data log
          ∧ sent heap log = (heap.bytes data).take (total log)
          ∧ (t = .returned ↔ total log = data.size.toNat ∨ ∃ entry ∈ log, ¬ Accepts entry.1)
          ∧ (t ≠ .returned → ∀ answer, (s.sendBytes data t answer).isSome = true))
        ∧
      ∀ heap p exact log r, data.data = some p → heap.Backs p data.size.toNat →
        Run (restrict (FitsBytes data) (ofStep (s.recvBytes data exact))) ⟨Transfer.start s data, heap⟩ log r →
        InOrder s data (answers log)
          ∧ r.heap = heap.store p (received log)
          ∧ r.heap.bytes data = received log ++ (heap.bytes data).drop (received log).length
          ∧ (exact = true → (r.transfer = .returned ↔
            (received log).length = data.size.toNat ∨ ∃ entry ∈ answers log, ¬ Accepts entry.1))
          ∧ (exact = false → log.length = if r.transfer = .returned then 1 else 0)
          ∧ (r.transfer ≠ .returned → ∀ answer, (s.recvBytes data exact r answer).isSome = true) := by
  constructor
  . intro heap log t hrun
    apply send_bytes_in_order heap hvalid hdata hrun
  . intro heap p exact log r hp hbacks hrun
    apply recv_bytes_in_order hvalid hdata hp hbacks hrun

-- three bytes are sent and received with two requests each, and one byte with a single one
theorem transfer_loops_of_two_requests
    : let s : Socket := ⟨some 0, 1⟩
      let data : ByteSpan := ⟨some ⟨0, 0⟩, 3⟩
      let heap : Heap := ((Memory.empty : Heap).alloc [7, 8, 9]).2
      let receipt : Receipt := ⟨Transfer.start s data, heap⟩
      (∃ log t, Run (restrict (Fits data) (ofStep (s.sendBytes data))) (Transfer.start s data) log t
          ∧ log.length = 2 ∧ t = Transfer.returned ∧ InOrder s data log ∧ sent heap log = [7, 8, 9])
        ∧ (∃ log r, Run (restrict (FitsBytes data) (ofStep (s.recvBytes data true))) receipt log r
          ∧ log.length = 2 ∧ r.transfer = .returned ∧ InOrder s data (answers log)
          ∧ r.heap.bytes data = [4, 5, 6])
        ∧ ∃ log r, Run (restrict (FitsBytes data) (ofStep (s.recvBytes data false))) receipt log r
          ∧ log.length = 1 ∧ r.transfer = .returned ∧ InOrder s data (answers log)
          ∧ r.heap.bytes data = [4, 8, 9] := by
  intro s data heap receipt
  have hvalid : s.isValid = true := rfl
  have hdata : data.size ≠ 0 := by decide
  have hbacks : heap.Backs ⟨0, 0⟩ data.size.toNat := by decide
  rcases transfer_loops_in_order hvalid hdata with ⟨hsend, hrecv⟩
  have hfits (answer : Answer) (offset : SizeT) (h : amount answer ≤ (data.subspan offset).size.toNat)
      : Fits data (.awaiting offset) answer := by
    intro offset' heq
    cases heq
    exact h
  have hfitsBytes (bytes : List Byte) (heap : Heap) (offset : SizeT)
      (h : bytes.length ≤ (data.subspan offset).size.toNat)
      : FitsBytes data ⟨.awaiting offset, heap⟩ (.ok bytes) := by
    intro offset' heq bytes' heq'
    cases heq
    cases heq'
    exact h
  refine ⟨?_, ?_, ?_⟩
  . have hrun : Run (restrict (Fits data) (ofStep (s.sendBytes data))) (Transfer.start s data)
        [(.ok 2, ⟨1, data.subspan 0⟩), (.ok 1, ⟨1, data.subspan 2⟩)] .returned :=
      .snoc (.snoc .nil ⟨hfits (.ok 2) 0 (by decide), rfl⟩) ⟨hfits (.ok 1) 2 (by decide), rfl⟩
    rcases hsend heap _ _ hrun with ⟨horder, hsent, _⟩
    refine ⟨_, _, hrun, rfl, rfl, horder, ?_⟩
    rw [hsent]
    rfl
  . have hrun : Run (restrict (FitsBytes data) (ofStep (s.recvBytes data true))) receipt
        [(.ok [4, 5], ⟨1, data.subspan 0⟩), (.ok [6], ⟨1, data.subspan 2⟩)] ⟨.returned, _⟩ :=
      .snoc (.snoc .nil ⟨hfitsBytes [4, 5] _ 0 (by decide), rfl⟩) ⟨hfitsBytes [6] _ 2 (by decide), rfl⟩
    rcases hrecv heap _ true _ _ rfl hbacks hrun with ⟨horder, _, hbytes, _⟩
    refine ⟨_, _, hrun, rfl, rfl, horder, ?_⟩
    rw [hbytes]
    rfl
  . have hrun : Run (restrict (FitsBytes data) (ofStep (s.recvBytes data false))) receipt
        [(.ok [4], ⟨1, data.subspan 0⟩)] ⟨.returned, _⟩ :=
      .snoc .nil ⟨hfitsBytes [4] _ 0 (by decide), rfl⟩
    rcases hrecv heap _ false _ _ rfl hbacks hrun with ⟨horder, _, hbytes, _⟩
    refine ⟨_, _, hrun, rfl, rfl, horder, ?_⟩
    rw [hbytes]
    rfl

end Transfer

end Net

end Sfap
