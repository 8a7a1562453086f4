import Sfap.Utils.RingBuffer.Weak

/-!
This module contains the proof that the release and acquire orders of the ring buffer are enough: the two
sides never race, whatever old counter values they read.
-/

namespace Sfap

namespace RingBuffer

open ReleaseAcquire (Action Event RaceFree Acquired Handover stores)

def Spsc.counter (s : Spsc) : Counter → SizeT
  | .head => s.rb.head
  | .tail => s.rb.tail

def Spsc.bound (capacity : Nat) (s : Spsc) (t : Party) : Nat :=
  limit capacity t (s.progress t.other)

namespace Weak

def values (s : Weak) : Counter → List SizeT
  | .head => s.heads
  | .tail => s.tails

def seen (s : Weak) : Party → Nat
  | .producer => s.seenTail
  | .consumer => s.seenHead

/--
The counters have gone through `positions`, which are 64 bit values only in memory, and each side stays
within what it has read of the other.
-/
structure Inv (C : Nat) (es : List MemoryEvent) (positions : Counter → List Nat) (s : Weak) : Prop where
  spsc : s.spsc.Inv
  capacity : s.spsc.rb.capacity.toNat = C
  handover : Handover Party.counter (· % C) es positions (s.spsc.bound C)
  values : ∀ c, s.values c = (positions c).map .ofNat
  last : ∀ t : Party, (positions t.counter).getLast? = some (s.spsc.progress t)
  knows : ∀ t : Party, ∃ p, (positions t.other.counter)[s.seen t]? = some p
    ∧ Acquired es t t.other.counter (s.seen t) ∧ s.spsc.progress t ≤ limit C t p ∧ s.spsc.Within t p

end Weak

section Parties

theorem Party.eq_or_other (u t : Party) : u = t ∨ u = t.other := by
  cases u <;> cases t <;> simp [Party.other]

theorem Party.other_ne (t : Party) : t.other ≠ t := by
  cases t <;> simp [Party.other]

theorem Party.other_other (t : Party) : t.other.other = t := by
  cases t <;> rfl

theorem Party.counter_injective : Function.Injective Party.counter := by
  intro t u h
  cases t <;> cases u <;> simp [Party.counter] at h ⊢

theorem limit_mono (C : Nat) (t : Party) {p q : Nat} (h : p ≤ q) : limit C t p ≤ limit C t q := by
  cases t <;> simp only [limit] <;> omega

theorem add_le_of_mod_eq {C p q : Nat} (hlt : p < q) (hmod : p % C = q % C) : p + C ≤ q := by
  have hdvd : C ∣ q - p := (Nat.modEq_iff_dvd' (Nat.le_of_lt hlt)).mp hmod
  have := Nat.le_of_dvd (by omega) hdvd
  omega

theorem lt_of_slot_eq {C p q seen now : Nat} (t : Party) (hnow : now ≤ q) (hq : q < limit C t seen)
    (hp : p < limit C t.other now) (hmod : p % C = q % C)
    : p < seen := by
  cases t with
  | producer =>
    simp only [limit, Party.other] at hq hp
    by_contra hge
    have := add_le_of_mod_eq (by omega) hmod
    omega
  | consumer =>
    simp only [limit, Party.other] at hq hp
    by_contra hge
    have := add_le_of_mod_eq (by omega) hmod.symm
    omega

end Parties

theorem Moves.progress_le {t : Party} {s s' : Spsc} {seen : Nat} {a : Action Nat Counter} (h : Moves t s s' seen a)
    (u : Party)
    : s.progress u ≤ s'.progress u := by
  rcases u.eq_or_other t with rfl | rfl
  . rcases h.action with ⟨_, heq⟩ | ⟨_, hle⟩ | ⟨_, _, _, _, heq⟩
    . apply Nat.le_of_eq heq.symm
    . exact hle
    . apply Nat.le_of_eq heq.symm
  . apply Nat.le_of_eq h.other.symm

namespace Weak

variable {C : Nat} {es : List MemoryEvent} {positions : Counter → List Nat} {s s' : Weak} {t : Party}
  {spsc' : Spsc} {a : Action Nat Counter} {p k : Nat}

theorem counter_eq (h : spsc'.Inv) (t : Party) : spsc'.counter t.counter = .ofNat (spsc'.progress t) := by
  cases t with
  | producer => exact h.shared.head_eq
  | consumer => exact h.shared.tail_eq

theorem values_record (s : Weak) (spsc' : Spsc) (a : Action Nat Counter) (c : Counter)
    : (s.record spsc' a).values c = if a = .store c then s.values c ++ [spsc'.counter c] else s.values c := by
  cases c <;> rfl

theorem Inv.current (h : Inv C es positions s) (t : Party)
    : (positions t.counter)[stores es t.counter]? = some (s.spsc.progress t) := by
  have hlast := h.last t
  rw [List.getLast?_eq_getElem?, h.handover.stored, Nat.add_sub_cancel] at hlast
  exact hlast

theorem Inv.le_progress (h : Inv C es positions s) {t : Party} (hk : (positions t.counter)[k]? = some p)
    : p ≤ s.spsc.progress t := by
  have hlt := (List.getElem?_eq_some_iff.mp hk).1
  rw [h.handover.stored] at hlt
  apply h.handover.le_of_le hk (h.current t) (by omega)

theorem bound_mono {s₁ s₂ : Spsc} (h : ∀ t, s₁.progress t ≤ s₂.progress t) (t : Party)
    : s₁.bound C t ≤ s₂.bound C t := by
  apply limit_mono
  apply h

theorem progress_eq (hmoves : Moves t s.spsc spsc' p a)
    (hprogress : spsc'.progress t = s.spsc.progress t) (u : Party)
    : spsc'.progress u = s.spsc.progress u := by
  rcases u.eq_or_other t with rfl | rfl
  . exact hprogress
  . exact hmoves.other

theorem Inv.knows_moves (h : Inv C es positions s) (hp : (positions t.other.counter)[s.seen t]? = some p)
    (hacq : Acquired es t t.other.counter (s.seen t)) (hmoves : Moves t s.spsc spsc' p a)
    {positions' : Counter → List Nat} (hpre : ∀ c, positions c <+: positions' c) (u : Party)
    : ∃ p, (positions' u.other.counter)[s.seen u]? = some p
        ∧ Acquired (es ++ [⟨t, a⟩]) u u.other.counter (s.seen u) ∧ spsc'.progress u ≤ limit C u p
        ∧ spsc'.Within u p := by
  have hget {c : Counter} {k p : Nat} (hk : (positions c)[k]? = some p) : (positions' c)[k]? = some p := by
    rcases hpre c with ⟨rest, hrest⟩
    rw [← hrest, List.getElem?_append_left (List.getElem?_eq_some_iff.mp hk).1]
    exact hk
  rcases u.eq_or_other t with rfl | rfl
  . have hroom := hmoves.room
    rw [h.capacity] at hroom
    exact ⟨p, hget hp, hacq.append _, hroom, hmoves.within⟩
  . rcases h.knows t.other with ⟨p', hp', hacq', hle, hwithin⟩
    refine ⟨p', hget hp', hacq'.append _, ?_, hmoves.otherWithin p' hwithin⟩
    rw [hmoves.other]
    exact hle

theorem Inv.stays (h : Inv C es positions s) (hp : (positions t.other.counter)[s.seen t]? = some p)
    (hacq : Acquired es t t.other.counter (s.seen t)) (hspsc : spsc'.Inv) (hmoves : Moves t s.spsc spsc' p a)
    (hprogress : spsc'.progress t = s.spsc.progress t) (hstore : ∀ c, a ≠ .store c)
    (hhandover : Handover Party.counter (· % C) (es ++ [⟨t, a⟩]) positions (spsc'.bound C))
    : Inv C (es ++ [⟨t, a⟩]) positions (s.record spsc' a) := by
  constructor
  . exact hspsc
  . change spsc'.rb.capacity.toNat = C
    rw [hmoves.capacity]
    exact h.capacity
  . exact hhandover
  . intro c
    rw [values_record, if_neg (hstore c)]
    apply h.values
  . intro u
    change _ = some (spsc'.progress u)
    rw [progress_eq hmoves hprogress]
    apply h.last
  . exact h.knows_moves hp hacq hmoves fun _ => List.prefix_rfl

theorem Inv.handover_access (h : Inv C es positions s) (hmoves : Moves t s.spsc spsc' p a)
    (hp : (positions t.other.counter)[s.seen t]? = some p)
    (hacq : Acquired es t t.other.counter (s.seen t)) (hprogress : spsc'.progress t = s.spsc.progress t) {q : Nat}
    (hobject : a.object = some (q % C)) (hle : s.spsc.progress t ≤ q) (hlt : q < limit C t p)
    : Handover Party.counter (· % C) (es ++ [⟨t, a⟩]) positions (spsc'.bound C) := by
  apply h.handover.access _ hobject (h.current t) hle
  . apply Nat.lt_of_lt_of_le hlt
    apply limit_mono
    apply Nat.le_trans (h.le_progress hp) (Nat.le_of_eq hmoves.other.symm)
  . intro u hu
    rcases u.eq_or_other t with rfl | rfl
    . exact absurd rfl hu
    . refine ⟨s.seen t, p, hacq, hp, ?_⟩
      intro p' hp' hslot
      apply lt_of_slot_eq t hle hlt _ hslot
      unfold Spsc.bound at hp'
      rw [t.other_other] at hp'
      exact hp'
  . apply bound_mono
    intro u
    apply Nat.le_of_eq (progress_eq hmoves hprogress u).symm

theorem Inv.stores (h : Inv C es positions s) (hp : (positions t.other.counter)[s.seen t]? = some p)
    (hacq : Acquired es t t.other.counter (s.seen t)) (hspsc : spsc'.Inv)
    (hmoves : Moves t s.spsc spsc' p (.store t.counter)) (hle : s.spsc.progress t ≤ spsc'.progress t)
    : Inv C (es ++ [⟨t, .store t.counter⟩])
        (Function.update positions t.counter (positions t.counter ++ [spsc'.progress t]))
        (s.record spsc' (.store t.counter)) := by
  constructor
  . exact hspsc
  . change spsc'.rb.capacity.toNat = C
    rw [hmoves.capacity]
    exact h.capacity
  . apply h.handover.store Party.counter_injective
    . apply bound_mono
      exact hmoves.progress_le
    . intro m hm
      rcases List.getElem?_of_mem hm with ⟨k, hk⟩
      apply Nat.le_trans (h.le_progress hk) hle
  . intro c
    rw [values_record]
    by_cases hc : c = t.counter
    . rw [hc, if_pos rfl, Function.update_self, List.map_append, h.values, counter_eq hspsc]
      rfl
    . rw [if_neg, Function.update_of_ne hc]
      . apply h.values
      . intro heq
        rw [Action.store.injEq] at heq
        exact hc heq.symm
  . intro u
    dsimp only [record]
    rcases u.eq_or_other t with rfl | rfl
    . rw [Function.update_self, List.getLast?_concat]
    . rw [Function.update_of_ne, hmoves.other]
      . apply h.last
      . intro heq
        exact t.other_ne (Party.counter_injective heq)
  . apply h.knows_moves hp hacq hmoves
    intro c
    by_cases hc : c = t.counter
    . rw [hc, Function.update_self]
      apply List.prefix_append
    . refine ⟨[], ?_⟩
      rw [List.append_nil, Function.update_of_ne hc]

theorem Inv.moves (h : Inv C es positions s) (hp : (positions t.other.counter)[s.seen t]? = some p)
    (hacq : Acquired es t t.other.counter (s.seen t)) (hspsc : spsc'.Inv)
    (hmoves : Moves t s.spsc spsc' p a)
    : ∃ positions', Inv C (es ++ [⟨t, a⟩]) positions' (s.record spsc' a) := by
  rcases hmoves.action with ⟨rfl, hprogress⟩ | ⟨rfl, hle⟩ | ⟨q, hobject, hle, hlt, hprogress⟩
  . refine ⟨positions, h.stays hp hacq hspsc hmoves hprogress (by simp) ?_⟩
    apply h.handover.quiet
    . apply bound_mono
      exact hmoves.progress_le
    . rfl
    . intro c
      rfl
  . exact ⟨_, h.stores hp hacq hspsc hmoves hle⟩
  . rw [h.capacity] at hobject hlt
    have hstore (c : Counter) : a ≠ .store c := by
      rintro rfl
      simp [Action.object] at hobject
    refine ⟨positions, h.stays hp hacq hspsc hmoves hprogress hstore ?_⟩
    apply h.handover_access hmoves hp hacq hprogress hobject hle hlt

theorem Inv.loads (h : Inv C es positions s) (hk : (positions t.other.counter)[k]? = some p)
    (hseen : s.seen t ≤ k) (hspsc : s'.spsc.Inv) (hrb : s'.spsc.rb = s.spsc.rb)
    (hvalues : ∀ c, s'.values c = s.values c) (hprogress : ∀ u, s'.spsc.progress u = s.spsc.progress u)
    (hself : s'.seen t = k) (hother : s'.seen t.other = s.seen t.other) (hwithin : s'.spsc.Within t p)
    (hothers : ∀ q, s.spsc.Within t.other q → s'.spsc.Within t.other q)
    : Inv C (es ++ [⟨t, .load t.other.counter k⟩]) positions s' := by
  constructor
  . exact hspsc
  . rw [hrb]
    exact h.capacity
  . apply h.handover.quiet
    . apply bound_mono
      intro u
      apply Nat.le_of_eq (hprogress u).symm
    . rfl
    . intro c
      rfl
  . intro c
    rw [hvalues]
    apply h.values
  . intro u
    rw [hprogress]
    apply h.last
  . intro u
    rcases u.eq_or_other t with rfl | rfl
    . rcases h.knows u with ⟨p', hp', _, hle, _⟩
      have hstored := (List.getElem?_eq_some_iff.mp hk).1
      rw [h.handover.stored] at hstored
      rw [hself, hprogress]
      refine ⟨p, hk, .load (by omega), ?_, hwithin⟩
      apply Nat.le_trans hle
      apply limit_mono
      apply h.handover.le_of_le hp' hk hseen
    . rcases h.knows t.other with ⟨p', hp', hacq, hle, hwithin'⟩
      rw [hother, hprogress]
      exact ⟨p', hp', hacq.append _, hle, hothers p' hwithin'⟩

theorem Inv.getElem?_values (h : Inv C es positions s) {c : Counter} {v : SizeT}
    (hv : (s.values c)[k]? = some v)
    : ∃ p, (positions c)[k]? = some p ∧ v = .ofNat p := by
  rw [h.values, List.getElem?_map, Option.map_eq_some_iff] at hv
  rcases hv with ⟨p, hp, rfl⟩
  exact ⟨p, hp, rfl⟩

theorem Inv.limit_of_seen (h : Inv C es positions s) (hk : (positions t.other.counter)[k]? = some p)
    (hseen : s.seen t ≤ k)
    : s.spsc.progress t ≤ limit C t p := by
  rcases h.knows t with ⟨p', hp', _, hle, _⟩
  apply Nat.le_trans hle
  apply limit_mono
  apply h.handover.le_of_le hp' hk hseen

theorem Inv.tailSnapshot (h : Inv C es positions s) (hk : (positions .tail)[k]? = some p)
    (hseen : s.seenTail ≤ k)
    : TailSnapshot s.spsc.rb s.spsc.published.length s.spsc.consumed.length (.ofNat p) := by
  have hle : p ≤ s.spsc.consumed.length := h.le_progress (t := .consumer) hk
  refine ⟨p, hle, Nat.le_trans hle h.spsc.shared.le, rfl, ?_⟩
  rw [h.capacity]
  exact h.limit_of_seen (t := .producer) hk hseen

theorem Inv.headSnapshot (h : Inv C es positions s) (hk : (positions .head)[k]? = some p)
    (hseen : s.seenHead ≤ k)
    : HeadSnapshot s.spsc.published.length s.spsc.consumed.length (.ofNat p) := by
  have hle : p ≤ s.spsc.published.length := h.le_progress (t := .producer) hk
  exact ⟨p, hle, h.limit_of_seen (t := .consumer) hk hseen, rfl⟩

theorem Inv.acts (h : Inv C es positions s) {act : Act} {e : MemoryEvent} {acc : Access}
    (he : s.event act = some e) (hstep : s.spsc.step act = some (spsc', acc))
    : ∃ p, (positions e.thread.other.counter)[s.seen e.thread]? = some p
        ∧ Acquired es e.thread e.thread.other.counter (s.seen e.thread)
        ∧ Moves e.thread s.spsc spsc' p e.action := by
  have hcapacity := h.capacity
  subst hcapacity
  rcases h.knows .producer with ⟨p, hp, hacq, hroom, hwithin⟩
  have hle : p ≤ s.spsc.consumed.length := h.le_progress (t := .consumer) hp
  rcases h.knows .consumer with ⟨q, hq, hacq', hroom', hwithin'⟩
  have hle' : q ≤ s.spsc.published.length := h.le_progress (t := .producer) hq
  cases act with
  | produce =>
    rcases Option.map_eq_some_iff.mp he with ⟨a, ha, rfl⟩
    exact ⟨p, hp, hacq, moves_produce h.spsc hle hroom hwithin ha hstep⟩
  | consume =>
    rcases Option.map_eq_some_iff.mp he with ⟨a, ha, rfl⟩
    exact ⟨q, hq, hacq', moves_consume h.spsc hle' hroom' hwithin' ha hstep⟩
  | put c =>
    cases he
    exact ⟨p, hp, hacq, moves_put hroom hstep⟩
  | prepareWrite n =>
    cases he
    exact ⟨p, hp, hacq, moves_prepareWrite hroom hstep⟩
  | writeView i c =>
    rcases moves_writeView h.spsc hroom hwithin hstep with ⟨view, slot, hpc, hslot, hmoves⟩
    simp only [event, hpc, hslot, Option.map_some, Option.some.injEq] at he
    subst he
    exact ⟨p, hp, hacq, hmoves⟩
  | commitWrite n =>
    cases he
    exact ⟨p, hp, hacq, moves_commitWrite hroom hwithin hstep⟩
  | pop =>
    cases he
    exact ⟨q, hq, hacq', moves_pop hroom' hstep⟩
  | prepareRead n =>
    cases he
    exact ⟨q, hq, hacq', moves_prepareRead hroom' hstep⟩
  | readView i =>
    rcases moves_readView h.spsc hroom' hwithin' hstep with ⟨view, slot, hpc, hslot, hmoves⟩
    simp only [event, hpc, hslot, Option.map_some, Option.some.injEq] at he
    subst he
    exact ⟨q, hq, hacq', hmoves⟩
  | commitRead n =>
    cases he
    exact ⟨q, hq, hacq', moves_commitRead hroom' hwithin' hstep⟩

theorem ProducerPc.within_mono {pc : ProducerPc} (hrest : pc.atRest = true) {published q q' : Nat}
    {draft : List Byte} (hle : q ≤ q') (h : pc.Within C published draft q)
    : pc.Within C published draft q' := by
  cases pc with
  | idle => trivial
  | holding view => exact Nat.le_trans h (Nat.add_le_add_right hle C)
  | _ => simp [ProducerPc.atRest] at hrest

theorem ConsumerPc.within_mono {pc : ConsumerPc} (hrest : pc.atRest = true) {consumed q q' : Nat}
    (hle : q ≤ q') (h : pc.Within consumed q)
    : pc.Within consumed q' := by
  cases pc with
  | idle => trivial
  | holding view => exact Nat.le_trans h hle
  | _ => simp [ConsumerPc.atRest] at hrest

theorem Inv.loadTail (h : Inv C es positions s) {v : SizeT} (hv : s.tails[k]? = some v)
    (hseen : s.seenTail ≤ k) {pc : ProducerPc}
    (hok : TailSnapshot s.spsc.rb s.spsc.published.length s.spsc.consumed.length v →
      pc.Ok s.spsc.rb s.spsc.published.length s.spsc.consumed.length s.spsc.draft)
    (hwithin : ∀ p q, v = .ofNat p → q ≤ p → s.spsc.Within .producer q →
      ({ s.spsc with producer := pc } : Spsc).Within .producer p)
    : (∃ positions', Inv C (es ++ [⟨.producer, .load .tail k⟩]) positions'
          { s with spsc := { s.spsc with producer := pc }, seenTail := k })
        ∧ ∀ u, s.spsc.progress u ≤ ({ s.spsc with producer := pc } : Spsc).progress u := by
  rcases h.getElem?_values (c := .tail) hv with ⟨p, hp, rfl⟩
  rcases h.knows .producer with ⟨q, hq, _, _, hold⟩
  have hle : q ≤ p := h.handover.le_of_le hq hp hseen
  refine ⟨⟨positions, ?_⟩, ?_⟩
  . apply h.loads (t := .producer) hp hseen
    . exact ⟨h.spsc.shared, hok (h.tailSnapshot hp hseen), h.spsc.consumer⟩
    . rfl
    . intro c
      cases c <;> rfl
    . intro u
      cases u <;> rfl
    . rfl
    . rfl
    . exact hwithin p q rfl hle hold
    . exact fun _ hother => hother
  . intro u
    cases u <;> exact Nat.le_refl _

theorem Inv.loadHead (h : Inv C es positions s) {v : SizeT} (hv : s.heads[k]? = some v)
    (hseen : s.seenHead ≤ k) {pc : ConsumerPc}
    (hok : HeadSnapshot s.spsc.published.length s.spsc.consumed.length v →
      pc.Ok s.spsc.rb s.spsc.published s.spsc.consumed.length)
    (hwithin : ∀ p q, v = .ofNat p → q ≤ p → s.spsc.Within .consumer q →
      ({ s.spsc with consumer := pc } : Spsc).Within .consumer p)
    : (∃ positions', Inv C (es ++ [⟨.consumer, .load .head k⟩]) positions'
          { s with spsc := { s.spsc with consumer := pc }, seenHead := k })
        ∧ ∀ u, s.spsc.progress u ≤ ({ s.spsc with consumer := pc } : Spsc).progress u := by
  rcases h.getElem?_values (c := .head) hv with ⟨p, hp, rfl⟩
  rcases h.knows .consumer with ⟨q, hq, _, _, hold⟩
  have hle : q ≤ p := h.handover.le_of_le hq hp hseen
  refine ⟨⟨positions, ?_⟩, ?_⟩
  . apply h.loads (t := .consumer) hp hseen
    . exact ⟨h.spsc.shared, h.spsc.producer, hok (h.headSnapshot hp hseen)⟩
    . rfl
    . intro c
      cases c <;> rfl
    . intro u
      cases u <;> rfl
    . rfl
    . rfl
    . exact hwithin p q rfl hle hold
    . exact fun _ hother => hother
  . intro u
    cases u <;> exact Nat.le_refl _

theorem acquireTail_eq_some {e : MemoryEvent} {size : Option SizeT}
    (hstep : s.step (.acquireTail k) = some (s', e, size))
    : ∃ v pc, s.tails[k]? = some v ∧ s.seenTail ≤ k
        ∧ ((∃ c, s.spsc.producer = .putTail c ∧ pc = .putHead c v)
          ∨ ∃ n, s.spsc.producer = .prepareTail n ∧ pc = .prepareHead n v)
        ∧ s' = { s with spsc := { s.spsc with producer := pc }, seenTail := k }
        ∧ e = ⟨.producer, .load .tail k⟩ := by
  simp only [Weak.step] at hstep
  split at hstep
  . next c v hpc hv =>
    split at hstep
    . next hseen =>
      cases hstep
      exact ⟨v, _, hv, hseen, .inl ⟨c, hpc, rfl⟩, rfl, rfl⟩
    . simp at hstep
  . next n v hpc hv =>
    split at hstep
    . next hseen =>
      cases hstep
      exact ⟨v, _, hv, hseen, .inr ⟨n, hpc, rfl⟩, rfl, rfl⟩
    . simp at hstep
  . simp at hstep

theorem acquireHead_eq_some {e : MemoryEvent} {size : Option SizeT}
    (hstep : s.step (.acquireHead k) = some (s', e, size))
    : ∃ v pc, s.heads[k]? = some v ∧ s.seenHead ≤ k
        ∧ ((s.spsc.consumer = .popHead ∧ pc = .popTail v)
          ∨ ∃ n, s.spsc.consumer = .prepareHead n ∧ pc = .prepareTail n v)
        ∧ s' = { s with spsc := { s.spsc with consumer := pc }, seenHead := k }
        ∧ e = ⟨.consumer, .load .head k⟩ := by
  simp only [Weak.step] at hstep
  split at hstep
  . next v hpc hv =>
    split at hstep
    . next hseen =>
      cases hstep
      exact ⟨v, _, hv, hseen, .inl ⟨hpc, rfl⟩, rfl, rfl⟩
    . simp at hstep
  . next n v hpc hv =>
    split at hstep
    . next hseen =>
      cases hstep
      exact ⟨v, _, hv, hseen, .inr ⟨n, hpc, rfl⟩, rfl, rfl⟩
    . simp at hstep
  . simp at hstep

theorem sizeByProducer_eq_some {e : MemoryEvent} {size : Option SizeT}
    (hstep : s.step (.sizeByProducer k) = some (s', e, size))
    : ∃ v, s.tails[k]? = some v ∧ s.spsc.producer.atRest = true ∧ s.seenTail ≤ k
        ∧ s' = { s with seenTail := k } ∧ e = ⟨.producer, .load .tail k⟩
        ∧ size = some (s.spsc.rb.head - v) := by
  simp only [Weak.step] at hstep
  split at hstep
  . next v hv =>
    split at hstep
    . next hcond =>
      cases hstep
      rw [Bool.and_eq_true, decide_eq_true_eq] at hcond
      exact ⟨v, hv, hcond.1, hcond.2, rfl, rfl, rfl⟩
    . simp at hstep
  . simp at hstep

theorem sizeByConsumer_eq_some {e : MemoryEvent} {size : Option SizeT}
    (hstep : s.step (.sizeByConsumer k) = some (s', e, size))
    : ∃ v, s.heads[k]? = some v ∧ s.spsc.consumer.atRest = true ∧ s.seenHead ≤ k
        ∧ s' = { s with seenHead := k } ∧ e = ⟨.consumer, .load .head k⟩
        ∧ size = some (v - s.spsc.rb.tail) := by
  simp only [Weak.step] at hstep
  split at hstep
  . next v hv =>
    split at hstep
    . next hcond =>
      cases hstep
      rw [Bool.and_eq_true, decide_eq_true_eq] at hcond
      exact ⟨v, hv, hcond.1, hcond.2, rfl, rfl, rfl⟩
    . simp at hstep
  . simp at hstep

theorem Inv.step (h : Inv C es positions s) {input : Input} {e : MemoryEvent} {size : Option SizeT}
    (hstep : s.step input = some (s', e, size))
    : (∃ positions', Inv C (es ++ [e]) positions' s') ∧ ∀ u, s.spsc.progress u ≤ s'.spsc.progress u := by
  have hproducer := h.spsc.producer
  have hconsumer := h.spsc.consumer
  cases input with
  | act a =>
    simp only [Weak.step] at hstep
    split at hstep
    . next e' spsc' acc he hact =>
      cases hstep
      rcases h.acts he hact with ⟨p, hp, hacq, hmoves⟩
      exact ⟨h.moves hp hacq (h.spsc.step hact).1 hmoves, hmoves.progress_le⟩
    . simp at hstep
  | acquireTail k =>
    rcases acquireTail_eq_some hstep with ⟨v, pc, hv, hseen, ⟨c, hpc, rfl⟩ | ⟨n, hpc, rfl⟩, rfl, rfl⟩
    all_goals
      rw [hpc] at hproducer
      apply h.loadTail hv hseen
      . intro hsnapshot
        exact ⟨hproducer, hsnapshot⟩
      . intro p q hv _ _
        exact hv
  | acquireHead k =>
    rcases acquireHead_eq_some hstep with ⟨v, pc, hv, hseen, ⟨hpc, rfl⟩ | ⟨n, hpc, rfl⟩, rfl, rfl⟩
    all_goals
      rw [hpc] at hconsumer
      apply h.loadHead hv hseen
      . intro hsnapshot
        exact ⟨hconsumer, hsnapshot⟩
      . intro p q hv _ _
        exact hv
  | sizeByProducer k =>
    rcases sizeByProducer_eq_some hstep with ⟨v, hv, hrest, hseen, rfl, rfl, _⟩
    apply h.loadTail hv hseen
    . exact fun _ => hproducer
    . intro p q _ hle hold
      apply ProducerPc.within_mono hrest hle hold
  | sizeByConsumer k =>
    rcases sizeByConsumer_eq_some hstep with ⟨v, hv, hrest, hseen, rfl, rfl, _⟩
    apply h.loadHead hv hseen
    . exact fun _ => hconsumer
    . intro p q _ hle hold
      apply ConsumerPc.within_mono hrest hle hold

theorem Inv.fresh {rb : RingBuffer} (hfresh : rb.Fresh)
    : Inv rb.capacity.toNat [] (fun _ => [0]) (Weak.fresh rb) := by
  refine ⟨.fresh hfresh, rfl, .init _ _ _, ?_, ?_, ?_⟩
  . intro c
    cases c with
    | head => exact congrArg ([·]) hfresh.counters.1
    | tail => exact congrArg ([·]) hfresh.counters.2.1
  . intro t
    cases t <;> rfl
  . intro t
    refine ⟨0, ?_, .inl ?_, ?_, ?_⟩
    . cases t <;> rfl
    . cases t <;> rfl
    . cases t <;> exact Nat.zero_le _
    . cases t <;> trivial

abbrev Run (s : Weak) (trace : List (Input × MemoryEvent × Option SizeT)) (s' : Weak) : Prop :=
  Transition.Run (Transition.ofStep Weak.step) s trace s'

def events (trace : List (Input × MemoryEvent × Option SizeT)) : List MemoryEvent :=
  trace.map fun r => r.2.1

theorem Inv.run {trace : List (Input × MemoryEvent × Option SizeT)} (h : Inv C es positions s)
    (hrun : Run s trace s')
    : (∃ positions', Inv C (es ++ events trace) positions' s')
        ∧ ∀ u, s.spsc.progress u ≤ s'.spsc.progress u := by
  induction hrun with
  | nil =>
    rw [events, List.map_nil, List.append_nil]
    exact ⟨⟨positions, h⟩, fun _ => Nat.le_refl _⟩
  | snoc _ hlast ih =>
    rcases ih with ⟨⟨positions₁, hinv⟩, hle⟩
    rcases hinv.step hlast with ⟨⟨positions₂, hinv'⟩, hle'⟩
    refine ⟨⟨positions₂, ?_⟩, fun u => Nat.le_trans (hle u) (hle' u)⟩
    rw [events, List.map_append, ← List.append_assoc]
    exact hinv'

end Weak

/--
Under the memory orders of the source, whatever stale counter values the two sides read, no byte of the
buffer is written on one side and accessed on the other without a happens-before edge in between. The next
read then finds the byte that was published for its position, and no byte is lost or delivered twice.
-/
theorem weak_race_free {rb : RingBuffer} (hfresh : rb.Fresh)
    {trace : List (Weak.Input × MemoryEvent × Option SizeT)} {s : Weak} (hrun : Weak.Run (.fresh rb) trace s)
    : RaceFree (Weak.events trace)
        ∧
      (∀ act pos c spsc', s.spsc.step act = some (spsc', .read pos c) → s.spsc.published[pos]? = some c)
        ∧
      s.spsc.consumed ++ s.spsc.rb.content = s.spsc.published := by
  rcases (Weak.Inv.fresh hfresh).run hrun with ⟨⟨positions, hinv⟩, _⟩
  refine ⟨hinv.handover.raceFree, ?_, hinv.spsc.shared.delivered⟩
  intro act pos c spsc' hstep
  exact (hinv.spsc.step hstep).2

-- the consumer misses the byte at first, and the producer sees no `pop` before it takes the slot again
theorem weak_race_free_stale
    : let inputs : List Weak.Input := [.act (.put 7), .acquireTail 0, .act .produce, .act .produce, .act .produce,
        .act .pop, .acquireHead 0, .act .consume, .act .pop, .acquireHead 1, .act .consume, .act .consume,
        .act .consume, .sizeByProducer 0, .act (.put 8), .acquireTail 1, .act .produce, .act .produce]
      ∃ outs s, Weak.Run (.fresh (ofSize 1 (some (.replicate 1 0)))) (inputs.zip outs) s
        ∧ RaceFree (Weak.events (inputs.zip outs)) ∧ s.spsc.consumed = [7] := by
  intro inputs
  have hexec : ((Transition.exec Weak.step (.fresh (ofSize 1 (some (.replicate 1 0)))) inputs).map
      fun r => r.1.spsc.consumed) = some [7] := by decide
  rcases Option.map_eq_some_iff.mp hexec with ⟨⟨s, outs⟩, hexec, hconsumed⟩
  have hrun := Transition.run_of_exec hexec
  exact ⟨outs, s, hrun, (weak_race_free (.ofSize 1 _) hrun).1, hconsumed⟩

namespace Weak

variable {C k : Nat} {es : List MemoryEvent} {positions : Counter → List Nat} {s s₁ : Weak} {e : MemoryEvent}
  {n : SizeT}

theorem Inv.sizeByProducer (h : Inv C es positions s) (hstep : s.step (.sizeByProducer k) = some (s₁, e, some n))
    : s₁.spsc = s.spsc ∧ n.toNat ≤ C
        ∧ s.spsc.published.length ≤ s.spsc.consumed.length + n.toNat := by
  rcases sizeByProducer_eq_some hstep with ⟨v, hv, _, hseen, rfl, _, hsize⟩
  cases hsize
  rcases h.getElem?_values (c := .tail) hv with ⟨p, hp, rfl⟩
  rcases h.tailSnapshot hp hseen with ⟨old, hold, hle, heq, hroom⟩
  have := UInt64.toNat_lt s.spsc.rb.capacity
  rw [h.capacity] at hroom this
  refine ⟨rfl, ?_⟩
  rw [heq, h.spsc.shared.head_eq, Word.distance_ofNat _ _ hle (by omega)]
  omega

theorem Inv.sizeByConsumer (h : Inv C es positions s) (hstep : s.step (.sizeByConsumer k) = some (s₁, e, some n))
    : s₁.spsc = s.spsc ∧ s.spsc.consumed.length + n.toNat ≤ s.spsc.published.length := by
  rcases sizeByConsumer_eq_some hstep with ⟨v, hv, _, hseen, rfl, _, hsize⟩
  cases hsize
  rcases h.getElem?_values (c := .head) hv with ⟨p, hp, rfl⟩
  exact ⟨rfl, ((h.headSnapshot hp hseen).available h.spsc.shared).1⟩

end Weak

/--
A result of `size()` is a bound that stays true as long as the side that asked does not move its own counter:
the producer is never told less than what is stored, the consumer never more.
-/
theorem weak_size_bounds {rb : RingBuffer} (hfresh : rb.Fresh)
    {trace : List (Weak.Input × MemoryEvent × Option SizeT)} {s : Weak} (hrun : Weak.Run (.fresh rb) trace s)
    {s₁ s₂ : Weak} {rest : List (Weak.Input × MemoryEvent × Option SizeT)} (hrest : Weak.Run s₁ rest s₂)
    : (∀ k e n, s.step (.sizeByProducer k) = some (s₁, e, some n) →
          s₂.spsc.published.length = s₁.spsc.published.length →
            s₂.spsc.rb.size ≤ n ∧ n ≤ rb.capacity)
        ∧
      (∀ k e n, s.step (.sizeByConsumer k) = some (s₁, e, some n) →
          s₂.spsc.consumed.length = s₁.spsc.consumed.length →
            n ≤ s₂.spsc.rb.size) := by
  rcases (Weak.Inv.fresh hfresh).run hrun with ⟨⟨positions, hinv⟩, _⟩
  constructor
  . intro k e n hstep hsame
    rcases hinv.sizeByProducer hstep with ⟨heq, hcapacity, hle⟩
    rcases (hinv.step hstep).1 with ⟨positions₁, hinv₁⟩
    rcases hinv₁.run hrest with ⟨⟨positions₂, hinv₂⟩, hgrow⟩
    have hconsumed : s₁.spsc.consumed.length ≤ s₂.spsc.consumed.length := hgrow .consumer
    rw [← heq] at hle
    rw [UInt64.le_iff_toNat_le, UInt64.le_iff_toNat_le, hinv₂.spsc.shared.size_eq]
    omega
  . intro k e n hstep hsame
    rcases hinv.sizeByConsumer hstep with ⟨heq, hle⟩
    rcases (hinv.step hstep).1 with ⟨positions₁, hinv₁⟩
    rcases hinv₁.run hrest with ⟨⟨positions₂, hinv₂⟩, hgrow⟩
    have hpublished : s₁.spsc.published.length ≤ s₂.spsc.published.length := hgrow .producer
    rw [← heq] at hle
    rw [UInt64.le_iff_toNat_le, hinv₂.spsc.shared.size_eq]
    omega

-- a byte has been taken out that the producer still counts
theorem weak_size_bounds_stale
    : let inputs : List Weak.Input := [.act (.put 7), .acquireTail 0, .act .produce, .act .produce, .act .produce,
        .act .pop, .acquireHead 1, .act .consume, .act .consume, .act .consume]
      ∃ outs s s₁ e, Weak.Run (.fresh (ofSize 1 (some (.replicate 1 0)))) (inputs.zip outs) s
        ∧ s.step (.sizeByProducer 0) = some (s₁, e, some 1) ∧ s₁.spsc.rb.size ≤ 1 ∧ s₁.spsc.consumed = [7] := by
  intro inputs
  have hexec : ((Transition.exec Weak.step (.fresh (ofSize 1 (some (.replicate 1 0)))) inputs).bind fun r =>
      (r.1.step (.sizeByProducer 0)).map fun r => (r.2.2, r.1.spsc.consumed)) = some (some 1, [7]) := by decide
  rcases Option.bind_eq_some_iff.mp hexec with ⟨⟨s, outs⟩, hexec, hmap⟩
  rcases Option.map_eq_some_iff.mp hmap with ⟨⟨s₁, e, n⟩, hstep, heq⟩
  rw [Prod.mk.injEq] at heq
  rcases heq with ⟨rfl, hconsumed⟩
  have hrun := Transition.run_of_exec hexec
  have hbounds := (weak_size_bounds (.ofSize 1 _) hrun .nil).1 0 e 1 hstep rfl
  exact ⟨outs, s, s₁, e, hrun, hstep, hbounds.1, hconsumed⟩

end RingBuffer

end Sfap
