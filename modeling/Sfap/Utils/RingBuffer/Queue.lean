import Sfap.Utils.RingBuffer.Client

/-!
This module contains the bounded byte queue that a `RingBuffer` implements, and the proof that every
run of a buffer and its users is a run of the queue.
-/

namespace Sfap

/--
`reserved` is what the producer has in its outstanding view, `offered` is the length of the
consumer's outstanding view.
-/
structure Queue where
  capacity : Nat
  queue : List Byte
  reserved : Option (List Byte)
  offered : Option Nat

namespace Queue

open RingBuffer (Op Out)

inductive Step : Queue → Op → Out → Queue → Prop where
  | put (q : Queue) (c : Byte) (hidle : q.reserved = none) (hlt : q.queue.length < q.capacity) :
      Step q (.put c) (.flag true) { q with queue := q.queue ++ [c] }
  | putFull (q : Queue) (c : Byte) (hidle : q.reserved = none)
      (hge : ¬ q.queue.length < q.capacity) :
      Step q (.put c) (.flag false) q
  | prepareWrite (q : Queue) (n : SizeT) (bs : List Byte) (hidle : q.reserved = none)
      (hn : bs.length ≤ n.toNat) (hfits : q.queue.length + bs.length ≤ q.capacity) :
      Step q (.prepareWrite n) (.count bs.length) { q with reserved := some bs }
  | writeView (q : Queue) (bs : List Byte) (i : Nat) (c : Byte) (hres : q.reserved = some bs)
      (hi : i < bs.length) :
      Step q (.writeView i c) .done { q with reserved := some (bs.set i c) }
  | commitWrite (q : Queue) (bs : List Byte) (k : SizeT) (hres : q.reserved = some bs)
      (hk : k.toNat ≤ bs.length) :
      Step q (.commitWrite k) (.count k.toNat)
        { q with queue := q.queue ++ bs.take k.toNat, reserved := none }
  | pop (q : Queue) (c : Byte) (rest : List Byte) (hidle : q.offered = none)
      (hq : q.queue = c :: rest) :
      Step q .pop (.byte (some c)) { q with queue := rest }
  | popEmpty (q : Queue) (hidle : q.offered = none) (hq : q.queue = []) :
      Step q .pop (.byte none) q
  | prepareRead (q : Queue) (n : SizeT) (m : Nat) (hidle : q.offered = none) (hn : m ≤ n.toNat)
      (hm : m ≤ q.queue.length) :
      Step q (.prepareRead n) (.count m) { q with offered := some m }
  | readView (q : Queue) (m i : Nat) (hoff : q.offered = some m) (hi : i < m)
      (hlt : i < q.queue.length) :
      Step q (.readView i) (.byte (some q.queue[i])) q
  | commitRead (q : Queue) (m : Nat) (k : SizeT) (hoff : q.offered = some m) (hk : k.toNat ≤ m) :
      Step q (.commitRead k) (.count k.toNat)
        { q with queue := q.queue.drop k.toNat, offered := none }
  | clean (q : Queue) (hw : q.reserved = none) (hr : q.offered = none) :
      Step q .clean .done { q with queue := [] }

end Queue

namespace RingBuffer

namespace Client

def abs (s : Client) : Queue where
  capacity := s.rb.capacity.toNat
  queue := s.rb.content
  reserved := s.writing.map fun view => Circular.read s.rb.bytes view.slots
  offered := s.reading.map fun view => view.size.toNat

variable {s s' : Client} {o : Out}

theorem Inv.length_slots (hinv : s.Inv) {view : View} (hw : s.writing = some view)
    : view.slots.length = view.size.toNat := by
  rw [hinv.writing_slots view hw]
  simp

theorem Inv.slot_lt (hinv : s.Inv) {view : View} (hw : s.writing = some view) {slot : Nat}
    (hmem : slot ∈ view.slots)
    : slot < s.rb.capacity.toNat := by
  have hpos := List.length_pos_of_mem hmem
  rw [hinv.length_slots hw] at hpos
  have := (hinv.writing_le view hw).1
  rw [hinv.writing_slots view hw] at hmem
  apply Circular.lt_of_mem_slots _ hmem
  omega

theorem Inv.disjoint_writing (hinv : s.Inv) (hv : s.rb.isValid = true) {view : View}
    (hw : s.writing = some view)
    : (Circular.slots s.rb.capacity.toNat s.rb.tail.toNat s.rb.size.toNat).Disjoint
        view.slots := by
  rw [hinv.writing_slots view hw]
  rw [← s.rb.slots_distance hv s.rb.head s.rb.tail]
  apply Circular.disjoint_slots
  exact (hinv.writing_le view hw).1

theorem step_put (hinv : s.Inv) (c : Byte) (h : s.step (.put c) = some (s', o))
    : s'.Inv ∧ Queue.Step s.abs (.put c) o s'.abs := by
  have hle := hinv.size_le
  rcases of_step_put h with ⟨hw, rfl, rfl⟩
  by_cases hlt : s.rb.size.toNat < s.rb.capacity.toNat
  . have hsize := (s.rb.storeByte (s.rb.head.toNat % s.rb.capacity.toNat) c).size_producer 1
      s.rb.pendingW hlt
    simp only [head_storeByte, size_storeByte] at hsize
    rw [s.rb.put_eq c hlt]
    constructor
    . constructor
      . simp only [hsize]
        exact hlt
      . simp [hw]
      . simp [hw]
      . simpa using hinv.reading_slots
      . intro view hview
        have := hinv.reading_le view hview
        simp only [hsize, pendingR_producer, pendingR_storeByte]
        exact ⟨by omega, this.2⟩
    . convert Queue.Step.put s.abs c (by simp [abs, hw]) (by simpa [abs] using hlt) using 1
      simp [abs, s.rb.content_put c hlt, hw]
  . have hfull : s.rb.size.toNat = s.rb.capacity.toNat := by omega
    rw [s.rb.put_full c hfull]
    refine ⟨hinv, ?_⟩
    apply Queue.Step.putFull
    . simp [abs, hw]
    . simpa [abs] using hlt

theorem step_prepareWrite (hinv : s.Inv) (n : SizeT)
    (h : s.step (.prepareWrite n) = some (s', o))
    : s'.Inv ∧ Queue.Step s.abs (.prepareWrite n) o s'.abs := by
  have hle := hinv.size_le
  rcases of_step_prepareWrite h with ⟨hw, rfl, rfl⟩
  rw [s.rb.prepareWrite_snd]
  have hfits := s.rb.size_prepareWrite_le hle n
  have hslots := s.rb.slots_prepareWrite n (by omega)
  generalize (s.rb.prepareWrite n).1 = view at *
  constructor
  . constructor
    . simpa using hle
    . simpa using hslots
    . intro view' hview
      simp only [Option.some.injEq] at hview
      rw [← hview]
      simp only [size_producer_head, capacity_producer, pendingW_producer]
      rw [Word.toNat_add_of_lt hfits.2.2]
      omega
    . simpa using hinv.reading_slots
    . simpa using hinv.reading_le
  . have hlen : (Circular.read s.rb.bytes view.slots).length = view.size.toNat := by
      rw [hslots]
      simp
    convert Queue.Step.prepareWrite s.abs n (Circular.read s.rb.bytes view.slots)
      (by simp [abs, hw]) (by omega) (by simpa [abs, hlen] using hfits.1) using 1
    . rw [hlen]
    . simp [abs]

theorem step_writeView (hinv : s.Inv) (i : Nat) (c : Byte)
    (h : s.step (.writeView i c) = some (s', o))
    : s'.Inv ∧ Queue.Step s.abs (.writeView i c) o s'.abs := by
  rcases of_step_writeView h with ⟨view, hw, hi, rfl, rfl⟩
  have hlen := hinv.length_slots hw
  have hfits := (hinv.writing_le view hw).1
  have hv : s.rb.isValid = true := by
    rw [isValid_iff]
    omega
  have hmem : view.slots[i] ∈ view.slots := by simp
  have hfree : view.slots[i]
      ∉ Circular.slots s.rb.capacity.toNat s.rb.tail.toNat s.rb.size.toNat := by
    intro hstored
    apply hinv.disjoint_writing hv hw hstored hmem
  have hlt : view.slots[i] < s.rb.bytes.length := by
    rw [length_bytes]
    apply hinv.slot_lt hw hmem
  constructor
  . constructor
    . simpa using hinv.size_le
    . simpa using hinv.writing_slots
    . simpa using hinv.writing_le
    . simpa using hinv.reading_slots
    . simpa using hinv.reading_le
  . convert Queue.Step.writeView s.abs (Circular.read s.rb.bytes view.slots) i c
      (by simp [abs, hw]) (by simpa using hi) using 1
    have hnodup : view.slots.Nodup := by
      rw [hinv.writing_slots view hw]
      apply Circular.nodup_slots
      omega
    simp [abs, hw, s.rb.content_storeByte _ c hfree,
      Circular.read_set_of_nodup _ _ _ _ hi hnodup hlt]

theorem step_commitWrite (hinv : s.Inv) (k : SizeT) (h : s.step (.commitWrite k) = some (s', o))
    : s'.Inv ∧ Queue.Step s.abs (.commitWrite k) o s'.abs := by
  rcases of_step_commitWrite h with ⟨view, hw, hk, rfl, rfl⟩
  have hview := hinv.writing_le view hw
  have hcan : min k s.rb.pendingW = k := by
    rw [← UInt64.toNat_inj, Word.toNat_min]
    omega
  have hfits : s.rb.size.toNat + k.toNat ≤ s.rb.capacity.toNat := by omega
  have hsize := s.rb.size_producer k (s.rb.pendingW - k) hfits
  rw [s.rb.commitWrite_eq, hcan]
  constructor
  . constructor
    . simpa only [hsize, capacity_producer] using hfits
    . simp
    . simp
    . simpa using hinv.reading_slots
    . intro view' hview'
      have := hinv.reading_le view' hview'
      simp only [hsize, pendingR_producer]
      omega
  . have hlen : (Circular.read s.rb.bytes view.slots).length = view.size.toNat := by
      simpa using hinv.length_slots hw
    convert Queue.Step.commitWrite s.abs (Circular.read s.rb.bytes view.slots) k
      (by simp [abs, hw]) (by omega) using 1
    have hcontent : (s.rb.producer (s.rb.head + k) (s.rb.pendingW - k)).content
        = s.rb.content ++ (Circular.read s.rb.bytes view.slots).take k.toNat := by
      cases hv : s.rb.isValid with
      | true =>
        rw [s.rb.content_producer hv _ _ hfits]
        rw [Circular.take_read, hinv.writing_slots view hw, Circular.take_slots hk]
      | false =>
        have hzero : k = 0 := by
          rw [Word.eq_zero_iff_toNat]
          have := s.rb.capacity_null hv
          omega
        simp [hzero]
    simp [abs, hcontent]

theorem step_pop (hinv : s.Inv) (h : s.step .pop = some (s', o))
    : s'.Inv ∧ Queue.Step s.abs .pop o s'.abs := by
  have hle := hinv.size_le
  rcases of_step_pop h with ⟨hr, rfl, rfl⟩
  by_cases hempty : s.rb.size.toNat = 0
  . rw [s.rb.pop_empty hempty]
    refine ⟨hinv, ?_⟩
    apply Queue.Step.popEmpty
    . simp [abs, hr]
    . rw [← List.length_eq_zero_iff]
      simpa [abs] using hempty
  . have hpos : 0 < s.rb.size.toNat := by omega
    have hv : s.rb.isValid = true := by
      rw [isValid_iff]
      omega
    have hsize := s.rb.size_consumer 1 s.rb.pendingR hpos
    rw [s.rb.pop_eq hv hpos]
    constructor
    . constructor
      . simp only [hsize, capacity_consumer]
        omega
      . simpa using hinv.writing_slots
      . intro view hview
        have := hinv.writing_le view hview
        simp only [hsize, capacity_consumer, pendingW_consumer]
        omega
      . simp [hr]
      . simp [hr]
    . convert Queue.Step.pop s.abs _ _ (by simp [abs, hr]) (s.rb.content_eq_cons hpos) using 1
      have hcontent := s.rb.content_consumer hv 1 s.rb.pendingR hpos
      simp only [abs, hcontent, hr]
      simp

theorem step_prepareRead (hinv : s.Inv) (n : SizeT) (h : s.step (.prepareRead n) = some (s', o))
    : s'.Inv ∧ Queue.Step s.abs (.prepareRead n) o s'.abs := by
  have hle := hinv.size_le
  rcases of_step_prepareRead h with ⟨hr, rfl, rfl⟩
  rw [s.rb.prepareRead_snd]
  have hfits := s.rb.size_prepareRead_le n
  have hslots := s.rb.slots_prepareRead n (by omega)
  generalize (s.rb.prepareRead n).1 = view at *
  constructor
  . constructor
    . simpa using hle
    . simpa using hinv.writing_slots
    . simpa using hinv.writing_le
    . simpa using hslots
    . intro view' hview
      simp only [Option.some.injEq] at hview
      rw [← hview]
      simp only [size_consumer_tail, pendingR_consumer]
      rw [Word.toNat_add_of_lt hfits.2.2]
      omega
  . convert Queue.Step.prepareRead s.abs n view.size.toNat (by simp [abs, hr]) hfits.2.1
      (by simpa [abs] using hfits.1) using 1
    simp [abs]

theorem step_readView (hinv : s.Inv) (i : Nat) (h : s.step (.readView i) = some (s', o))
    : s'.Inv ∧ Queue.Step s.abs (.readView i) o s'.abs := by
  rcases of_step_readView h with ⟨view, hr, hi, rfl, rfl⟩
  refine ⟨hinv, ?_⟩
  have hslots := hinv.reading_slots view hr
  have hsub := (hinv.reading_le view hr).1
  have hlt : i < view.size.toNat := by
    rw [hslots] at hi
    simpa using hi
  have hstored : i < s'.rb.content.length := by
    rw [length_content]
    omega
  have hbyte : s'.rb.content[i] = s'.rb.loadByte view.slots[i] := by
    simp [content, Circular.read, loadByte, hslots]
  convert Queue.Step.readView s'.abs view.size.toNat i (by simp [abs, hr]) hlt
    (by simp [abs]; omega) using 1
  simp [abs, hbyte]

theorem step_commitRead (hinv : s.Inv) (k : SizeT) (h : s.step (.commitRead k) = some (s', o))
    : s'.Inv ∧ Queue.Step s.abs (.commitRead k) o s'.abs := by
  have hle := hinv.size_le
  rcases of_step_commitRead h with ⟨view, hr, hk, rfl, rfl⟩
  have hview := hinv.reading_le view hr
  have hcan : min k s.rb.pendingR = k := by
    rw [← UInt64.toNat_inj, Word.toNat_min]
    omega
  have hstored : k.toNat ≤ s.rb.size.toNat := by omega
  have hsize := s.rb.size_consumer k (s.rb.pendingR - k) hstored
  rw [s.rb.commitRead_eq, hcan]
  constructor
  . constructor
    . simp only [hsize, capacity_consumer]
      omega
    . simpa using hinv.writing_slots
    . intro view' hview'
      have := hinv.writing_le view' hview'
      simp only [hsize, capacity_consumer, pendingW_consumer]
      omega
    . simp
    . simp
  . convert Queue.Step.commitRead s.abs view.size.toNat k (by simp [abs, hr]) hk using 1
    have hcontent : (s.rb.consumer (s.rb.tail + k) (s.rb.pendingR - k)).content
        = s.rb.content.drop k.toNat := by
      cases hv : s.rb.isValid with
      | true => exact s.rb.content_consumer hv k _ hstored
      | false =>
        have hzero : k = 0 := by
          rw [Word.eq_zero_iff_toNat]
          have := s.rb.capacity_null hv
          omega
        simp [hzero]
    simp [abs, hcontent]

theorem step_clean (h : s.step .clean = some (s', o))
    : s'.Inv ∧ Queue.Step s.abs .clean o s'.abs := by
  rcases of_step_clean h with ⟨hw, hr, rfl, rfl⟩
  constructor
  . constructor
    . simp [size, clean]
    . simp [hw]
    . simp [hw]
    . simp [hr]
    . simp [hr]
  . convert Queue.Step.clean s.abs (by simp [abs, hw]) (by simp [abs, hr]) using 1
    simp [abs, hw, hr, content, size, clean]

theorem step_refines (hinv : s.Inv) (op : Op) (h : s.step op = some (s', o))
    : s'.Inv ∧ Queue.Step s.abs op o s'.abs := by
  cases op with
  | put c => exact step_put hinv c h
  | prepareWrite n => exact step_prepareWrite hinv n h
  | writeView i c => exact step_writeView hinv i c h
  | commitWrite k => exact step_commitWrite hinv k h
  | pop => exact step_pop hinv h
  | prepareRead n => exact step_prepareRead hinv n h
  | readView i => exact step_readView hinv i h
  | commitRead k => exact step_commitRead hinv k h
  | clean => exact step_clean h

theorem Inv.of_size_le (rb : RingBuffer) (h : rb.size.toNat ≤ rb.capacity.toNat)
    : (fresh rb).Inv := by
  constructor
  . exact h
  all_goals simp [fresh]

end Client

inductive Fresh : RingBuffer → Prop where
  | ofSize (n : SizeT) (storage : Option (Vector Byte n.toNat)) : Fresh (ofSize n storage)
  | ofExternal (n : SizeT) (external : Vector Byte n.toNat) : Fresh (ofExternal n external)

theorem Fresh.counters {rb : RingBuffer} (h : rb.Fresh)
    : rb.head = 0 ∧ rb.tail = 0 ∧ rb.pendingW = 0 ∧ rb.pendingR = 0 := by
  cases h with
  | ofSize => exact ⟨rfl, rfl, rfl, rfl⟩
  | ofExternal => exact ⟨rfl, rfl, rfl, rfl⟩

theorem Fresh.size_eq {rb : RingBuffer} (h : rb.Fresh) : rb.size = 0 := by
  unfold size
  simp [h.counters]

theorem Fresh.content_eq {rb : RingBuffer} (h : rb.Fresh) : rb.content = [] := by
  unfold content
  simp [h.size_eq]

abbrev World := Nat → Client

inductive WorldOp where
  | on (v : Nat) (op : Op)
  | moveConstruct (dst src : Nat)
  | moveAssign (dst src : Nat)

def Client.idle (s : Client) : Bool :=
  s.writing.isNone && s.reading.isNone

def World.set (w : World) (v : Nat) (s : Client) : World :=
  Function.update w v s

def World.step (w : World) (op : WorldOp) : Option (World × Out) :=
  match op with
  | .on v op => (w v).step op |>.map fun (s, o) => (w.set v s, o)
  | .moveConstruct dst src =>
    if dst ≠ src && (w src).idle then
      let (new, old) := RingBuffer.moveConstruct (w src).rb
      some ((w.set src (.fresh old)).set dst (.fresh new), .done)
    else
      none
  | .moveAssign dst src =>
    if (w dst).idle && (w src).idle then
      -- `this != &other`
      if dst = src then
        some (w, .done)
      else
        let (new, old) := RingBuffer.moveAssign (w dst).rb (w src).rb
        some ((w.set src (.fresh old)).set dst (.fresh new), .done)
    else
      none

end RingBuffer

namespace Queue

open RingBuffer (Out WorldOp)

def empty (capacity : Nat) : Queue := ⟨capacity, [], none, none⟩

def idle (q : Queue) : Prop :=
  q.reserved = none ∧ q.offered = none

inductive WorldStep : (Nat → Queue) → WorldOp → Out → (Nat → Queue) → Prop where
  | on {qs : Nat → Queue} {v : Nat} {op : RingBuffer.Op} {o : Out} {q : Queue}
      (hstep : Step (qs v) op o q) :
      WorldStep qs (.on v op) o (Function.update qs v q)
  | moveConstruct {qs : Nat → Queue} {dst src : Nat} (hne : dst ≠ src) (hidle : (qs src).idle) :
      WorldStep qs (.moveConstruct dst src) .done
        (Function.update (Function.update qs src (empty 0)) dst (qs src))
  | moveAssign {qs : Nat → Queue} {dst src : Nat} (hne : dst ≠ src) (hdst : (qs dst).idle)
      (hidle : (qs src).idle) :
      WorldStep qs (.moveAssign dst src) .done
        (Function.update (Function.update qs src (empty 0)) dst (qs src))
  | moveAssignSelf {qs : Nat → Queue} {v : Nat} (hidle : (qs v).idle) :
      WorldStep qs (.moveAssign v v) .done qs

end Queue

namespace RingBuffer

def World.abs (w : World) : Nat → Queue :=
  fun v => (w v).abs

theorem World.abs_set (w : World) (v : Nat) (s : Client)
    : (w.set v s).abs = Function.update w.abs v s.abs := by
  funext u
  unfold World.abs World.set
  by_cases h : u = v
  . simp [h]
  . simp [h]

theorem World.inv_set {w : World} (hinv : ∀ v, (w v).Inv) (v : Nat) {s : Client} (hs : s.Inv)
    : ∀ u, ((w.set v s) u).Inv := by
  intro u
  unfold World.set
  by_cases h : u = v
  . simpa [h] using hs
  . simpa [h] using hinv u

theorem Client.idle_abs {s : Client} (h : s.idle = true) : s.abs.idle := by
  simp only [idle, Bool.and_eq_true, Option.isNone_iff_eq_none] at h
  simp [Queue.idle, Client.abs, h]

theorem Client.fresh_of_idle {s : Client} (h : s.idle = true) : Client.fresh s.rb = s := by
  rcases s with ⟨rb, writing, reading⟩
  simp only [idle, Bool.and_eq_true, Option.isNone_iff_eq_none] at h
  simp [fresh, h]

theorem Client.abs_movedFrom : (Client.fresh movedFrom).abs = Queue.empty 0 := by
  rfl

theorem World.step_move {w : World} (hinv : ∀ v, (w v).Inv) (dst src : Nat)
    (hidle : (w src).idle = true)
    : (∀ v, (((w.set src (.fresh movedFrom)).set dst (.fresh (w src).rb)) v).Inv)
        ∧ ((w.set src (.fresh movedFrom)).set dst (.fresh (w src).rb)).abs
            = Function.update (Function.update w.abs src (Queue.empty 0)) dst (w.abs src) := by
  constructor
  . apply World.inv_set
    . apply World.inv_set hinv
      apply Client.Inv.of_size_le
      simp [size, movedFrom]
    . rw [Client.fresh_of_idle hidle]
      apply hinv
  . rw [World.abs_set, World.abs_set]
    rw [Client.fresh_of_idle hidle]
    rw [Client.abs_movedFrom]
    rfl

theorem World.step_refines {w w' : World} {op : WorldOp} {o : Out} (hinv : ∀ v, (w v).Inv)
    (h : w.step op = some (w', o))
    : (∀ v, (w' v).Inv) ∧ Queue.WorldStep w.abs op o w'.abs := by
  cases op with
  | on v op =>
    simp only [step, Option.map_eq_some_iff, Prod.mk.injEq] at h
    rcases h with ⟨⟨s', o'⟩, hstep, rfl, rfl⟩
    rcases Client.step_refines (hinv v) op hstep with ⟨hinv', hq⟩
    constructor
    . apply World.inv_set hinv v hinv'
    . rw [World.abs_set]
      exact .on hq
  | moveConstruct dst src =>
    simp only [step] at h
    split at h
    . next hcond =>
      simp only [Bool.and_eq_true, decide_eq_true_eq] at hcond
      simp only [RingBuffer.moveConstruct, Option.some.injEq, Prod.mk.injEq] at h
      rcases h with ⟨rfl, rfl⟩
      rcases World.step_move hinv dst src hcond.2 with ⟨hinv', habs⟩
      refine ⟨hinv', ?_⟩
      rw [habs]
      exact .moveConstruct hcond.1 (Client.idle_abs hcond.2)
    . simp at h
  | moveAssign dst src =>
    simp only [step] at h
    split at h
    . next hcond =>
      rw [Bool.and_eq_true] at hcond
      split at h
      . next heq =>
        simp only [Option.some.injEq, Prod.mk.injEq] at h
        rcases h with ⟨rfl, rfl⟩
        refine ⟨hinv, ?_⟩
        rw [heq]
        exact .moveAssignSelf (Client.idle_abs hcond.2)
      . next hne =>
        simp only [RingBuffer.moveAssign, Option.some.injEq, Prod.mk.injEq] at h
        rcases h with ⟨rfl, rfl⟩
        rcases World.step_move hinv dst src hcond.2 with ⟨hinv', habs⟩
        refine ⟨hinv', ?_⟩
        rw [habs]
        exact .moveAssign hne (Client.idle_abs hcond.1) (Client.idle_abs hcond.2)
    . simp at h

def World.Fresh (w : World) : Prop :=
  ∀ v, ∃ rb, rb.Fresh ∧ w v = Client.fresh rb

theorem World.Fresh.inv {w : World} (h : w.Fresh) (v : Nat) : (w v).Inv := by
  rcases h v with ⟨rb, hfresh, heq⟩
  rw [heq]
  apply Client.Inv.of_size_le
  simp [hfresh.size_eq]

theorem World.Fresh.abs_eq {w : World} (h : w.Fresh)
    : w.abs = fun v => Queue.empty (w v).rb.capacity.toNat := by
  funext v
  rcases h v with ⟨rb, hfresh, heq⟩
  simp [World.abs, Client.abs, heq, Client.fresh, hfresh.content_eq, Queue.empty]

def World.Refines (w : World) (qs : Nat → Queue) : Prop :=
  (∀ v, (w v).Inv) ∧ w.abs = qs

theorem World.Refines.observe {w : World} {qs : Nat → Queue} (h : w.Refines qs) (v : Nat)
    : (qs v).capacity = (w v).rb.capacity.toNat
        ∧ (w v).rb.size.toNat = (qs v).queue.length
        ∧ (qs v).queue.length ≤ (qs v).capacity
        ∧ (w v).rb.free.toNat = (qs v).capacity - (qs v).queue.length
        ∧ ((w v).rb.empty = true ↔ (qs v).queue = [])
        ∧ ((w v).rb.full = true ↔ (qs v).queue.length = (qs v).capacity) := by
  rcases h with ⟨hinv, rfl⟩
  have hle := (hinv v).size_le
  refine ⟨rfl, by simp [World.abs, Client.abs], ?_, ?_, ?_, ?_⟩
  . simpa [World.abs, Client.abs] using hle
  . simp [World.abs, Client.abs, (w v).rb.toNat_free hle]
  . unfold RingBuffer.empty
    rw [beq_iff_eq, Word.eq_zero_iff_toNat, ← List.length_eq_zero_iff]
    simp [World.abs, Client.abs]
  . unfold RingBuffer.full
    rw [beq_iff_eq, ← UInt64.toNat_inj]
    simp [World.abs, Client.abs]

/--
Every run over any number of buffers that starts from fresh ones has the results of a run over
queues, and `size()`, `free()`, `empty()` and `full()` tell what is in each queue.
-/
theorem run_refines_queue {w₀ w : World} {trace : List (WorldOp × Out)} (hfresh : w₀.Fresh)
    (hrun : Transition.Run (Transition.ofStep World.step) w₀ trace w)
    : ∃ qs,
        Transition.Run Queue.WorldStep (fun v => Queue.empty (w₀ v).rb.capacity.toNat) trace qs
          ∧
        ∀ v,
          (qs v).capacity = (w v).rb.capacity.toNat
            ∧ (w v).rb.size.toNat = (qs v).queue.length
            ∧ (qs v).queue.length ≤ (qs v).capacity
            ∧ (w v).rb.free.toNat = (qs v).capacity - (qs v).queue.length
            ∧ ((w v).rb.empty = true ↔ (qs v).queue = [])
            ∧ ((w v).rb.full = true ↔ (qs v).queue.length = (qs v).capacity) := by
  have hsim : ∃ qs,
      Transition.Run Queue.WorldStep (fun v => Queue.empty (w₀ v).rb.capacity.toNat) trace qs
        ∧ w.Refines qs := by
    apply hrun.simulate
    . exact ⟨hfresh.inv, hfresh.abs_eq⟩
    . intro w₁ qs op o w₂ hrel hstep
      rcases hrel with ⟨hinv, rfl⟩
      rcases World.step_refines hinv hstep with ⟨hinv', hq⟩
      exact ⟨w₂.abs, hq, hinv', rfl⟩
  rcases hsim with ⟨qs, hqs, hrel⟩
  exact ⟨qs, hqs, hrel.observe⟩

theorem run_refines_queue_of_partial_commit
    : let ops : List WorldOp :=
        [.on 0 (.prepareWrite 3), .on 0 (.writeView 1 7), .on 0 (.commitWrite 2),
          .moveConstruct 1 0, .on 1 .pop, .on 1 .pop, .on 1 .pop]
      let outs : List Out :=
        [.count 3, .done, .count 2, .done, .byte (some 0), .byte (some 7), .byte none]
      ∃ qs, Transition.Run Queue.WorldStep (fun _ => Queue.empty 4) (ops.zip outs) qs := by
  intro ops outs
  let w₀ : World := fun _ => .fresh (ofSize 4 (some (.replicate 4 0)))
  have hfresh : w₀.Fresh := fun _ => ⟨_, .ofSize 4 (some (.replicate 4 0)), rfl⟩
  have hexec : ((Transition.exec World.step w₀ ops).map Prod.snd) = some outs := by decide
  rcases Option.map_eq_some_iff.mp hexec with ⟨⟨w, _⟩, hrun, rfl⟩
  rcases run_refines_queue hfresh (Transition.run_of_exec hrun) with ⟨qs, hqs, _⟩
  exact ⟨qs, hqs⟩

end RingBuffer

end Sfap
