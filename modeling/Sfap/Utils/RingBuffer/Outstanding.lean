import Sfap.Utils.RingBuffer.Lemmas

/-!
This module contains what several `prepare` calls in a row return. The pending counters limit how
much each of them offers but not where its view starts.
-/

namespace Sfap

namespace RingBuffer

def prepareAll (prepare : RingBuffer → SizeT → View × RingBuffer) (rb : RingBuffer)
    : List SizeT → List View × RingBuffer
  | [] => ([], rb)
  | n :: ns =>
    let (view, rb) := prepare rb n
    let (views, rb) := prepareAll prepare rb ns
    (view :: views, rb)

def prepareWrites (rb : RingBuffer) (ns : List SizeT) : List View × RingBuffer :=
  prepareAll prepareWrite rb ns

def prepareReads (rb : RingBuffer) (ns : List SizeT) : List View × RingBuffer :=
  prepareAll prepareRead rb ns

def slotsOf (views : List View) : List Nat :=
  views.flatMap View.slots

def fill (rb : RingBuffer) : List Nat → List Byte → RingBuffer
  | [], _ => rb
  | _ :: _, [] => rb
  | slot :: slots, c :: cs => (rb.storeByte slot c).fill slots cs

/--
The views returned for the requests `ns` are disjoint and follow each other from `head_`, and filling
all of them and committing their total publishes what has been written.
-/
structure WritesConsecutive (rb : RingBuffer) (ns : List SizeT) : Prop where
  nodup : (slotsOf (rb.prepareWrites ns).1).Nodup
  slots_eq : slotsOf (rb.prepareWrites ns).1
    = Circular.slots rb.capacity.toNat rb.head.toNat (slotsOf (rb.prepareWrites ns).1).length
  publish : ∀ bs : List Byte, bs.length = (slotsOf (rb.prepareWrites ns).1).length →
    (((rb.prepareWrites ns).2.fill (slotsOf (rb.prepareWrites ns).1) bs).commitWrite
        (.ofNat bs.length)).2.content
      = rb.content ++ bs

structure ReadsConsecutive (rb : RingBuffer) (ns : List SizeT) : Prop where
  nodup : (slotsOf (rb.prepareReads ns).1).Nodup
  slots_eq : slotsOf (rb.prepareReads ns).1
    = Circular.slots rb.capacity.toNat rb.tail.toNat (slotsOf (rb.prepareReads ns).1).length
  spell : Circular.read rb.bytes (slotsOf (rb.prepareReads ns).1)
    = rb.content.take (slotsOf (rb.prepareReads ns).1).length

def draws (ns : List SizeT) : List SizeT :=
  ns.filter (· ≠ 0)

def NoDraw (amount pending : Nat) (ns : List SizeT) : Prop :=
  draws ns = [] ∨ amount ≤ pending

/--
Of the requests that ask for bytes, the first takes all that is left unreserved or is the only one.
-/
def SingleDraw (amount pending : Nat) (ns : List SizeT) : Prop :=
  match draws ns with
  | [] => True
  | n :: rest => rest = [] ∨ amount ≤ n.toNat + pending

def firstDraw (amount pending : Nat) (ns : List SizeT) : Nat :=
  match draws ns with
  | [] => 0
  | n :: _ => min n.toNat (amount - pending)

section Calls

variable (prepare : RingBuffer → SizeT → View × RingBuffer) (rb : RingBuffer)

theorem slotsOf_prepareAll_cons (n : SizeT) (ns : List SizeT)
    : slotsOf (prepareAll prepare rb (n :: ns)).1
        =
      (prepare rb n).1.slots ++ slotsOf (prepareAll prepare (prepare rb n).2 ns).1 := by
  simp [prepareAll, slotsOf]

theorem prepareAll_cons_snd (n : SizeT) (ns : List SizeT)
    : (prepareAll prepare rb (n :: ns)).2 = (prepareAll prepare (prepare rb n).2 ns).2 := by
  rfl

theorem prepareAll_draws (hzero : ∀ rb, prepare rb 0 = (.empty, rb)) (ns : List SizeT)
    : slotsOf (prepareAll prepare rb (draws ns)).1 = slotsOf (prepareAll prepare rb ns).1
        ∧ (prepareAll prepare rb (draws ns)).2 = (prepareAll prepare rb ns).2 := by
  unfold draws
  induction ns generalizing rb with
  | nil => simp
  | cons n ns ih =>
    by_cases hn : n = 0
    . rw [List.filter_cons_of_neg (by simpa using hn)]
      rw [slotsOf_prepareAll_cons, prepareAll_cons_snd, hn, hzero]
      simpa using ih rb
    . rw [List.filter_cons_of_pos (by simpa using hn)]
      simp only [slotsOf_prepareAll_cons, prepareAll_cons_snd]
      rw [(ih _).1, (ih _).2]
      exact ⟨rfl, rfl⟩

theorem prepareAll_idle (hidle : ∀ n, (prepare rb n).1.slots = [] ∧ (prepare rb n).2 = rb)
    (ns : List SizeT)
    : slotsOf (prepareAll prepare rb ns).1 = [] ∧ (prepareAll prepare rb ns).2 = rb := by
  induction ns with
  | nil => exact ⟨rfl, rfl⟩
  | cons n ns ih =>
    rw [slotsOf_prepareAll_cons, prepareAll_cons_snd, (hidle n).1, (hidle n).2]
    exact ih

theorem draws_ne_zero {n : SizeT} {rest ns : List SizeT} (h : draws ns = n :: rest)
    : ∀ m ∈ n :: rest, 0 < m.toNat := by
  intro m hm
  rw [← h] at hm
  have hne : m ≠ 0 := by simpa [draws] using (List.mem_filter.mp hm).2
  have := mt (Word.eq_zero_iff_toNat m).mpr hne
  omega

end Calls

theorem slots_split_cons (rb : RingBuffer) (hv : rb.isValid = true) (start take : SizeT)
    (hpos : 0 < take.toNat)
    : ∃ ps, (View.split rb.capacity rb.mask start take).slots
        = start.toNat % rb.capacity.toNat :: ps := by
  have hlt := Nat.mod_lt start.toNat (rb.isValid_iff.mp hv)
  unfold View.split View.slots
  dsimp
  have hfirst : 0 < (min take (rb.capacity - (start &&& rb.mask))).toNat := by
    rw [Word.toNat_min, Word.toNat_sub_of_toNat_le]
    . rw [rb.toNat_and_mask hv]
      omega
    . rw [rb.toNat_and_mask hv]
      omega
  rcases Nat.exists_eq_succ_of_ne_zero (Nat.ne_of_gt hfirst) with ⟨k, hk⟩
  rw [hk, List.range'_succ, rb.toNat_and_mask hv]
  exact ⟨_, rfl⟩

theorem length_slots_split (capacity mask start take : SizeT)
    : (View.split capacity mask start take).slots.length = take.toNat := by
  rw [View.length_slots]
  unfold View.split
  dsimp
  rw [Word.toNat_sub_of_toNat_le]
  . rw [Word.toNat_min]
    omega
  . rw [Word.toNat_min]
    omega

section Writes

variable (rb : RingBuffer)

theorem fill_frame (slots : List Nat) (bs : List Byte)
    : (rb.fill slots bs).capacity = rb.capacity
        ∧ (rb.fill slots bs).head = rb.head
        ∧ (rb.fill slots bs).tail = rb.tail
        ∧ (rb.fill slots bs).pendingW = rb.pendingW
        ∧ (rb.fill slots bs).isValid = rb.isValid
        ∧ (rb.fill slots bs).bytes = Circular.write rb.bytes slots bs := by
  induction slots generalizing rb bs with
  | nil => simp [fill, Circular.write]
  | cons slot slots ih =>
    cases bs with
    | nil => simp [fill, Circular.write]
    | cons b bs => simpa [fill, Circular.write] using ih (rb.storeByte slot b) bs

theorem prepareWrite_zero : rb.prepareWrite 0 = (.empty, rb) := by
  unfold prepareWrite
  simp

theorem prepareWrites_draws (ns : List SizeT)
    : slotsOf (rb.prepareWrites (draws ns)).1 = slotsOf (rb.prepareWrites ns).1
        ∧ (rb.prepareWrites (draws ns)).2 = (rb.prepareWrites ns).2 := by
  apply prepareAll_draws
  exact prepareWrite_zero

theorem prepareWrites_snd (ns : List SizeT)
    : ∃ p, (rb.prepareWrites ns).2 = rb.producer rb.head p := by
  unfold prepareWrites
  induction ns generalizing rb with
  | nil => exact ⟨rb.pendingW, rfl⟩
  | cons n ns ih =>
    rw [prepareAll_cons_snd, prepareWrite_snd]
    rcases ih (rb.producer rb.head (rb.pendingW + (rb.prepareWrite n).1.size)) with ⟨p, hp⟩
    exact ⟨p, hp⟩

theorem prepareWrites_idle (hv : rb.isValid = true) (h : rb.free.toNat ≤ rb.pendingW.toNat)
    (ns : List SizeT)
    : slotsOf (rb.prepareWrites ns).1 = [] ∧ (rb.prepareWrites ns).2 = rb := by
  apply prepareAll_idle
  intro n
  have hsize : (rb.prepareWrite n).1.size = 0 := by
    rw [Word.eq_zero_iff_toNat, rb.toNat_size_prepareWrite hv]
    omega
  constructor
  . rw [rb.slots_prepareWrite n (by simp [hsize]), hsize]
    rfl
  . rw [prepareWrite_snd, hsize]
    simp [producer]

theorem slots_prepareWrite_cons (hv : rb.isValid = true) {n : SizeT} (hn : 0 < n.toNat)
    (hdraw : rb.pendingW.toNat < rb.free.toNat)
    : ∃ ps, (rb.prepareWrite n).1.slots = rb.head.toNat % rb.capacity.toNat :: ps := by
  have htake : 0 < (min n (rb.availableW rb.tail rb.head)).toNat := by
    rw [Word.toNat_min, toNat_availableW]
    change 0 < min n.toNat (rb.free.toNat - rb.pendingW.toNat)
    omega
  have hne := mt (Word.eq_zero_iff_toNat _).mp (Nat.ne_of_gt htake)
  rw [rb.prepareWrite_eq hv]
  unfold prepareWriteAt
  simp only [beq_iff_eq, hne, ↓reduceIte]
  apply rb.slots_split_cons hv
  exact htake

theorem pendingW_prepareWrite (hv : rb.isValid = true) (n : SizeT)
    : (rb.prepareWrite n).2.pendingW.toNat
        =
      rb.pendingW.toNat + min n.toNat (rb.free.toNat - rb.pendingW.toNat) := by
  have := UInt64.toNat_lt rb.free
  have := UInt64.toNat_lt rb.pendingW
  rw [prepareWrite_snd, pendingW_producer, Word.toNat_add_of_lt]
  . rw [rb.toNat_size_prepareWrite hv]
  . rw [rb.toNat_size_prepareWrite hv]
    omega

theorem writesConsecutive_draws (ns : List SizeT)
    : rb.WritesConsecutive (draws ns) ↔ rb.WritesConsecutive ns := by
  rcases rb.prepareWrites_draws ns with ⟨hslots, hsnd⟩
  constructor
  . intro h
    exact ⟨hslots ▸ h.nodup, hslots ▸ h.slots_eq, hslots ▸ hsnd ▸ h.publish⟩
  . intro h
    exact ⟨hslots ▸ h.nodup, hslots ▸ h.slots_eq, hslots ▸ hsnd ▸ h.publish⟩

theorem writesConsecutive_idle {ns : List SizeT}
    (h : slotsOf (rb.prepareWrites ns).1 = [] ∧ (rb.prepareWrites ns).2 = rb)
    : rb.WritesConsecutive ns := by
  constructor
  . simp [h.1]
  . simp [h.1]
  . intro bs hlen
    rw [h.1, List.length_nil, List.length_eq_zero_iff] at hlen
    rw [h.1, h.2, hlen]
    simp [fill, commitWrite_eq, producer]

theorem free_prepareWrite (n : SizeT) : (rb.prepareWrite n).2.free = rb.free := by
  rw [prepareWrite_snd]
  rfl

theorem not_writesConsecutive_two (hv : rb.isValid = true) {n m : SizeT} (rest : List SizeT)
    (hn : 0 < n.toNat) (hm : 0 < m.toNat)
    (hdraw : n.toNat + rb.pendingW.toNat < rb.free.toNat)
    : ¬ rb.WritesConsecutive (n :: m :: rest) := by
  intro h
  rcases rb.slots_prepareWrite_cons hv hn (by omega) with ⟨ps, hps⟩
  have hpending : (rb.prepareWrite n).2.pendingW.toNat < (rb.prepareWrite n).2.free.toNat := by
    rw [rb.pendingW_prepareWrite hv, free_prepareWrite]
    omega
  have hv₁ : (rb.prepareWrite n).2.isValid = true := by
    rw [prepareWrite_snd]
    exact hv
  rcases (rb.prepareWrite n).2.slots_prepareWrite_cons hv₁ hm hpending with ⟨qs, hqs⟩
  have hnodup := h.nodup
  unfold prepareWrites at hnodup
  rw [slotsOf_prepareAll_cons, slotsOf_prepareAll_cons, hps, hqs, rb.prepareWrite_snd] at hnodup
  simp at hnodup

theorem content_filled (slots : List Nat) (bs : List Byte)
    (hdisj : slots.Disjoint (Circular.slots rb.capacity.toNat rb.tail.toNat rb.size.toNat))
    : (rb.fill slots bs).content = rb.content := by
  rcases rb.fill_frame slots bs with ⟨hcap, hhead, htail, _, _, hbytes⟩
  unfold content size
  rw [hcap, hhead, htail, hbytes]
  apply Circular.read_write_of_disjoint
  exact hdisj

theorem commitWrite_filled (hv : rb.isValid = true) (slots : List Nat) (bs : List Byte)
    (hbs : rb.size.toNat + bs.length ≤ rb.capacity.toNat)
    (hpending : bs.length ≤ rb.pendingW.toNat)
    : ((rb.fill slots bs).commitWrite (.ofNat bs.length)).2.content
        =
      (rb.fill slots bs).content
        ++ Circular.read (rb.fill slots bs).bytes
          (Circular.slots rb.capacity.toNat rb.head.toNat bs.length) := by
  rcases rb.fill_frame slots bs with ⟨hcap, hhead, htail, hpend, hvalid, _⟩
  have hlt := UInt64.toNat_lt rb.capacity
  have hcan : (min (UInt64.ofNat bs.length) (rb.fill slots bs).pendingW).toNat = bs.length := by
    rw [Word.toNat_min, hpend, UInt64.toNat_ofNat', Nat.mod_eq_of_lt (by omega)]
    omega
  have hsize : (rb.fill slots bs).size = rb.size := by
    unfold size
    rw [hhead, htail]
  rw [commitWrite_eq]
  dsimp
  rw [content_producer]
  . rw [hcan, hcap, hhead]
  . rw [hvalid]
    exact hv
  . rw [hsize, hcan, hcap]
    exact hbs

theorem prepareWrites_one (hv : rb.isValid = true) {n : SizeT} {rest : List SizeT}
    (hsingle : rest = [] ∨ rb.free.toNat ≤ n.toNat + rb.pendingW.toNat)
    : slotsOf (rb.prepareWrites (n :: rest)).1 = (rb.prepareWrite n).1.slots
        ∧ (rb.prepareWrites (n :: rest)).2 = (rb.prepareWrite n).2 := by
  have hrest : slotsOf ((rb.prepareWrite n).2.prepareWrites rest).1 = []
      ∧ ((rb.prepareWrite n).2.prepareWrites rest).2 = (rb.prepareWrite n).2 := by
    rcases hsingle with hnil | hall
    . rw [hnil]
      exact ⟨rfl, rfl⟩
    . apply prepareWrites_idle
      . rw [prepareWrite_snd]
        exact hv
      . rw [rb.pendingW_prepareWrite hv, free_prepareWrite]
        omega
  unfold prepareWrites at hrest ⊢
  rw [slotsOf_prepareAll_cons, prepareAll_cons_snd, hrest.1, List.append_nil]
  exact ⟨rfl, hrest.2⟩

theorem writesConsecutive_one (hv : rb.isValid = true) (hle : rb.size.toNat ≤ rb.capacity.toNat)
    {n : SizeT} {rest : List SizeT}
    (hsingle : rest = [] ∨ rb.free.toNat ≤ n.toNat + rb.pendingW.toNat)
    : rb.WritesConsecutive (n :: rest) := by
  rcases rb.size_prepareWrite_le hle n with ⟨hfits, _, hnowrap⟩
  have hslots := rb.slots_prepareWrite n (by omega)
  have hlen : (rb.prepareWrite n).1.slots.length = (rb.prepareWrite n).1.size.toNat := by
    rw [hslots, Circular.length_slots]
  have hnodup : (rb.prepareWrite n).1.slots.Nodup := by
    rw [hslots]
    apply Circular.nodup_slots
    omega
  rcases rb.prepareWrites_one hv hsingle with ⟨hone, hsnd⟩
  constructor
  . rw [hone]
    exact hnodup
  . rw [hone, hlen]
    exact hslots
  . intro bs hbs
    rw [hone, hlen] at hbs
    rw [hone, hsnd, prepareWrite_snd]
    rw [commitWrite_filled]
    . rw [content_filled]
      . rw [content_producer_head, (fill_frame _ _ _).2.2.2.2.2]
        congr 1
        simp only [capacity_producer, head_producer, bytes_producer]
        rw [hbs, ← hslots]
        apply Circular.read_write
        . exact hnodup
        . rw [hbs, hlen]
        . intro p hp
          rw [hslots] at hp
          rw [length_bytes]
          apply Circular.lt_of_mem_slots (rb.isValid_iff.mp hv) hp
      . -- the bytes that were stored before lie outside of the view
        have hdisj : (Circular.slots rb.capacity.toNat rb.tail.toNat rb.size.toNat).Disjoint
            (Circular.slots rb.capacity.toNat (rb.tail.toNat + rb.size.toNat)
              (rb.prepareWrite n).1.size.toNat) := by
          apply Circular.disjoint_slots
          exact hfits
        unfold size at hdisj
        rw [rb.slots_distance hv] at hdisj
        rw [hslots]
        apply List.disjoint_comm.mp hdisj
    . exact hv
    . simp only [size_producer_head, capacity_producer]
      omega
    . rw [pendingW_producer, Word.toNat_add_of_lt hnowrap]
      omega

theorem size_le_of_writesConsecutive (hv : rb.isValid = true) {ns : List SizeT}
    (h : rb.WritesConsecutive ns) (hne : slotsOf (rb.prepareWrites ns).1 ≠ [])
    : rb.size.toNat ≤ rb.capacity.toNat := by
  apply Nat.le_of_not_lt
  intro hlt
  have hpos := rb.isValid_iff.mp hv
  rcases h with ⟨hnodup, hslots, hpublish⟩
  generalize slotsOf (rb.prepareWrites ns).1 = slots at *
  have hlen : 0 < slots.length := List.length_pos_of_ne_nil hne
  have hfirst : slots[0] = rb.head.toNat % rb.capacity.toNat := by
    have hlast := Circular.getElem_slots rb.capacity.toNat rb.head.toNat slots.length 0
      (by simpa using hlen)
    simpa only [← hslots, Nat.add_zero] using hlast
  let x := rb.bytes.getD slots[0] default
  let bs : List Byte := .replicate slots.length (x + 1)
  have hbs : bs.length = slots.length := List.length_replicate
  have hpub := hpublish bs hbs
  rcases rb.prepareWrites_snd ns with ⟨p, hp⟩
  rw [hp, commitWrite_eq] at hpub
  dsimp only at hpub
  rcases fill_frame (rb.producer rb.head p) slots bs with ⟨hcap, _, htail, _, _, hbytes⟩
  generalize (rb.producer rb.head p).fill slots bs = rb₁ at *
  -- byte `size() - capacity_` of the old content lies in the slot at `head_`
  have hslot : (rb.tail.toNat + (rb.size.toNat - rb.capacity.toNat)) % rb.capacity.toNat
      = slots[0] := by
    have hdistance := rb.slots_distance hv rb.head rb.tail 1
    rw [Circular.slots_one, Circular.slots_one, List.cons.injEq] at hdistance
    rw [hfirst, ← hdistance.1, ← Nat.add_mod_right, Nat.add_assoc]
    unfold size at hlt ⊢
    rw [Nat.sub_add_cancel (by omega)]
  have hlength := congrArg List.length hpub
  rw [List.length_append, length_content, length_content] at hlength
  have hget := congrArg (fun bytes => bytes[rb.size.toNat - rb.capacity.toNat]?) hpub
  rw [List.getElem?_append_left (by rw [length_content]; omega)] at hget
  unfold content at hget
  rw [Circular.getElem?_read_slots _ (by omega)] at hget
  rw [Circular.getElem?_read_slots _ (by omega)] at hget
  simp only [capacity_producer, tail_producer, bytes_producer, hcap, htail, hbytes, hslot] at hget
  have hwritten : Circular.read (Circular.write rb.bytes slots bs) slots = bs := by
    apply Circular.read_write
    . exact hnodup
    . exact hbs
    . intro q hq
      rw [hslots] at hq
      rw [length_bytes]
      apply Circular.lt_of_mem_slots hpos hq
  have hbyte := congrArg (fun bytes => bytes[0]?) hwritten
  rw [Circular.getElem?_read, List.getElem?_eq_getElem hlen, List.getElem?_replicate_of_lt hlen,
    Option.map_some, hget] at hbyte
  simp [x] at hbyte

theorem writesConsecutive_iff (hv : rb.isValid = true) (ns : List SizeT)
    : rb.WritesConsecutive ns
        ↔
      NoDraw rb.free.toNat rb.pendingW.toNat ns
        ∨ (rb.size.toNat ≤ rb.capacity.toNat
            ∧ SingleDraw rb.free.toNat rb.pendingW.toNat ns) := by
  rw [← writesConsecutive_draws]
  unfold NoDraw SingleDraw
  cases hdraws : draws ns with
  | nil => simpa using rb.writesConsecutive_idle ⟨rfl, rfl⟩
  | cons n rest =>
    have hpos := draws_ne_zero hdraws
    rcases Nat.lt_or_ge rb.pendingW.toNat rb.free.toNat with hdraw | hidle
    . have hn := hpos n List.mem_cons_self
      constructor
      . intro h
        right
        constructor
        . apply rb.size_le_of_writesConsecutive hv h
          rcases rb.slots_prepareWrite_cons hv hn hdraw with ⟨ps, hps⟩
          unfold prepareWrites
          rw [slotsOf_prepareAll_cons, hps]
          simp
        . cases rest with
          | nil => exact Or.inl rfl
          | cons m rest =>
            right
            apply Nat.le_of_not_lt
            intro hlt
            apply rb.not_writesConsecutive_two hv rest hn (hpos m (by simp)) hlt h
      . intro h
        rcases h with (hnil | hle) | ⟨hle, hsingle⟩
        . simp at hnil
        . omega
        . apply rb.writesConsecutive_one hv hle hsingle
    . have := rb.writesConsecutive_idle (rb.prepareWrites_idle hv hidle (n :: rest))
      simp [this, hidle]

end Writes

section Reads

variable (rb : RingBuffer)

theorem prepareRead_zero : rb.prepareRead 0 = (.empty, rb) := by
  unfold prepareRead
  simp

theorem prepareReads_draws (ns : List SizeT)
    : slotsOf (rb.prepareReads (draws ns)).1 = slotsOf (rb.prepareReads ns).1
        ∧ (rb.prepareReads (draws ns)).2 = (rb.prepareReads ns).2 := by
  apply prepareAll_draws
  exact prepareRead_zero

theorem prepareReads_idle (hv : rb.isValid = true) (h : rb.size.toNat ≤ rb.pendingR.toNat)
    (ns : List SizeT)
    : slotsOf (rb.prepareReads ns).1 = [] ∧ (rb.prepareReads ns).2 = rb := by
  apply prepareAll_idle
  intro n
  have hsize : (rb.prepareRead n).1.size = 0 := by
    rw [Word.eq_zero_iff_toNat, rb.toNat_size_prepareRead hv]
    omega
  constructor
  . rw [rb.slots_prepareRead n (by simp [hsize]), hsize]
    rfl
  . rw [prepareRead_snd, hsize]
    simp [consumer]

theorem prepareRead_split (hv : rb.isValid = true) {n : SizeT} (hn : 0 < n.toNat)
    (hdraw : rb.pendingR.toNat < rb.size.toNat)
    : (rb.prepareRead n).1
        =
      .split rb.capacity rb.mask rb.tail (rb.prepareRead n).1.size := by
  have htake : 0 < (min n (rb.availR rb.head rb.tail)).toNat := by
    rw [Word.toNat_min, toNat_availR]
    change 0 < min n.toNat (rb.size.toNat - rb.pendingR.toNat)
    omega
  have hne := mt (Word.eq_zero_iff_toNat _).mp (Nat.ne_of_gt htake)
  rw [rb.prepareRead_eq hv, size_prepareReadAt]
  unfold prepareReadAt
  simp only [beq_iff_eq, hne, ↓reduceIte]

theorem slots_prepareRead_cons (hv : rb.isValid = true) {n : SizeT} (hn : 0 < n.toNat)
    (hdraw : rb.pendingR.toNat < rb.size.toNat)
    : ∃ ps, (rb.prepareRead n).1.slots = rb.tail.toNat % rb.capacity.toNat :: ps := by
  rw [rb.prepareRead_split hv hn hdraw]
  apply rb.slots_split_cons hv
  rw [rb.toNat_size_prepareRead hv]
  omega

theorem length_slots_prepareRead (hv : rb.isValid = true) {n : SizeT} (hn : 0 < n.toNat)
    (hdraw : rb.pendingR.toNat < rb.size.toNat)
    : (rb.prepareRead n).1.slots.length = min n.toNat (rb.size.toNat - rb.pendingR.toNat) := by
  rw [rb.prepareRead_split hv hn hdraw, length_slots_split]
  apply rb.toNat_size_prepareRead hv

theorem pendingR_prepareRead (hv : rb.isValid = true) (n : SizeT)
    : (rb.prepareRead n).2.pendingR.toNat
        =
      rb.pendingR.toNat + min n.toNat (rb.size.toNat - rb.pendingR.toNat) := by
  rw [prepareRead_snd, pendingR_consumer,
    Word.toNat_add_of_lt (rb.size_prepareRead_le n).2.2, rb.toNat_size_prepareRead hv]

theorem size_prepareRead (n : SizeT) : (rb.prepareRead n).2.size = rb.size := by
  rw [prepareRead_snd]
  rfl

theorem isValid_prepareRead (n : SizeT) : (rb.prepareRead n).2.isValid = rb.isValid := by
  rw [prepareRead_snd]
  rfl

theorem readsConsecutive_draws (ns : List SizeT)
    : rb.ReadsConsecutive (draws ns) ↔ rb.ReadsConsecutive ns := by
  have hslots := (rb.prepareReads_draws ns).1
  constructor
  . intro h
    exact ⟨hslots ▸ h.nodup, hslots ▸ h.slots_eq, hslots ▸ h.spell⟩
  . intro h
    exact ⟨hslots ▸ h.nodup, hslots ▸ h.slots_eq, hslots ▸ h.spell⟩

theorem readsConsecutive_idle {ns : List SizeT} (h : slotsOf (rb.prepareReads ns).1 = [])
    : rb.ReadsConsecutive ns := by
  constructor
  . simp [h]
  . simp [h]
  . simp [h]

theorem not_readsConsecutive_two (hv : rb.isValid = true) {n m : SizeT} (rest : List SizeT)
    (hn : 0 < n.toNat) (hm : 0 < m.toNat) (hdraw : n.toNat + rb.pendingR.toNat < rb.size.toNat)
    : ¬ rb.ReadsConsecutive (n :: m :: rest) := by
  intro h
  rcases rb.slots_prepareRead_cons hv hn (by omega) with ⟨ps, hps⟩
  have hpending : (rb.prepareRead n).2.pendingR.toNat < (rb.prepareRead n).2.size.toNat := by
    rw [rb.pendingR_prepareRead hv, size_prepareRead]
    omega
  have hv₁ : (rb.prepareRead n).2.isValid = true := by
    rw [isValid_prepareRead]
    exact hv
  rcases (rb.prepareRead n).2.slots_prepareRead_cons hv₁ hm hpending with ⟨qs, hqs⟩
  have hnodup := h.nodup
  unfold prepareReads at hnodup
  rw [slotsOf_prepareAll_cons, slotsOf_prepareAll_cons, hps, hqs, rb.prepareRead_snd] at hnodup
  simp at hnodup

theorem readsConsecutive_one (hv : rb.isValid = true) {n : SizeT} {rest : List SizeT}
    (hle : min n.toNat (rb.size.toNat - rb.pendingR.toNat) ≤ rb.capacity.toNat)
    (hsingle : rest = [] ∨ rb.size.toNat ≤ n.toNat + rb.pendingR.toNat)
    : rb.ReadsConsecutive (n :: rest) := by
  have hone : slotsOf (rb.prepareReads (n :: rest)).1 = (rb.prepareRead n).1.slots := by
    have hrest : slotsOf ((rb.prepareRead n).2.prepareReads rest).1 = [] := by
      rcases hsingle with hnil | hall
      . rw [hnil]
        rfl
      . apply And.left
        apply prepareReads_idle
        . rw [isValid_prepareRead]
          exact hv
        . rw [rb.pendingR_prepareRead hv, size_prepareRead]
          omega
    unfold prepareReads at hrest ⊢
    rw [slotsOf_prepareAll_cons, hrest, List.append_nil]
  rw [← rb.toNat_size_prepareRead hv] at hle
  have hslots := rb.slots_prepareRead n hle
  have hlen : (rb.prepareRead n).1.slots.length = (rb.prepareRead n).1.size.toNat := by
    rw [hslots, Circular.length_slots]
  constructor
  . rw [hone, hslots]
    apply Circular.nodup_slots
    exact hle
  . rw [hone, hlen]
    exact hslots
  . rw [hone, hlen, hslots]
    unfold content
    rw [Circular.take_read, Circular.take_slots]
    exact (rb.size_prepareRead_le n).1

theorem readsConsecutive_iff (hv : rb.isValid = true) (ns : List SizeT)
    : rb.ReadsConsecutive ns
        ↔
      firstDraw rb.size.toNat rb.pendingR.toNat ns ≤ rb.capacity.toNat
        ∧ SingleDraw rb.size.toNat rb.pendingR.toNat ns := by
  rw [← readsConsecutive_draws]
  unfold firstDraw SingleDraw
  cases hdraws : draws ns with
  | nil => simpa using rb.readsConsecutive_idle rfl
  | cons n rest =>
    have hpos := draws_ne_zero hdraws
    have hn := hpos n List.mem_cons_self
    constructor
    . intro h
      rcases Nat.lt_or_ge rb.pendingR.toNat rb.size.toNat with hdraw | hidle
      . constructor
        . have hle := Circular.le_of_nodup_slots (rb.isValid_iff.mp hv) (h.slots_eq ▸ h.nodup)
          unfold prepareReads at hle
          rw [slotsOf_prepareAll_cons, List.length_append,
            rb.length_slots_prepareRead hv hn hdraw] at hle
          dsimp
          omega
        . cases rest with
          | nil => exact Or.inl rfl
          | cons m rest =>
            right
            apply Nat.le_of_not_lt
            intro hlt
            apply rb.not_readsConsecutive_two hv rest hn (hpos m (by simp)) hlt h
      . constructor
        . dsimp
          omega
        . right
          omega
    . intro h
      apply rb.readsConsecutive_one hv h.1 h.2

end Reads

/--
Views that `prepare` calls return in a row are consecutive exactly when at most one of the calls draws
any bytes, as each view starts at `head_` (or `tail_`) whatever is outstanding. The bounds by
`capacity_` hold unless the buffer has been overfilled.
-/
theorem prepares_consecutive_iff (rb : RingBuffer) (hv : rb.isValid = true) (ns : List SizeT)
    : (rb.WritesConsecutive ns
        ↔
        NoDraw rb.free.toNat rb.pendingW.toNat ns
          ∨ (rb.size.toNat ≤ rb.capacity.toNat
              ∧ SingleDraw rb.free.toNat rb.pendingW.toNat ns))
      ∧
      (rb.ReadsConsecutive ns
        ↔
        firstDraw rb.size.toNat rb.pendingR.toNat ns ≤ rb.capacity.toNat
          ∧ SingleDraw rb.size.toNat rb.pendingR.toNat ns) := by
  exact ⟨rb.writesConsecutive_iff hv ns, rb.readsConsecutive_iff hv ns⟩

-- one call that draws, a second one after the first has taken all, and the same for two bytes to read
theorem prepares_consecutive_single
    : let rb := ofSize 8 (some (.replicate 8 0))
      rb.WritesConsecutive [0, 5, 0] ∧ rb.WritesConsecutive [0, 8, 0, 3]
        ∧ ((rb.put 1).2.put 2).2.ReadsConsecutive [3, 0, 1] := by
  intro rb
  refine ⟨?_, ?_, ?_⟩
  . apply ((prepares_consecutive_iff _ rfl _).1).mpr
    right
    exact ⟨by decide, .inl rfl⟩
  . apply ((prepares_consecutive_iff _ rfl _).1).mpr
    right
    exact ⟨by decide, .inr (by decide)⟩
  . apply ((prepares_consecutive_iff _ (by decide) _).2).mpr
    exact ⟨by decide, .inr (by decide)⟩

theorem prepares_return_same_slots
    : ¬ (ofSize 8 (some (.replicate 8 0))).WritesConsecutive [2, 2] := by
  intro h
  have hnodup := h.nodup
  revert hnodup
  decide

end RingBuffer

end Sfap
