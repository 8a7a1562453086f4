import Sfap.Net.IOUring.Ledger

/-!
This module contains the accounting of the file descriptors: those that the connects have opened and nothing
has closed yet are the ones in the table of sockets.
-/

namespace Sfap

namespace Net

namespace Ledger

open IOUring
open IOUringProactor (Op Env)
open Table (Counted Numbered Finish released)
open Transition

def openings (draws : List Draw) (fd : Int32) : Nat :=
  (draws.map Draw.fd).count fd

@[simp]
theorem openings_append_singleton (draws : List Draw) (d : Draw) (fd : Int32)
    : openings (draws ++ [d]) fd = openings draws fd + if d.fd = fd then 1 else 0 := by
  unfold openings
  rw [List.map_append, List.count_append, List.map_singleton, List.count_singleton]
  simp only [beq_iff_eq]

structure Held (t : Table) (draws : List Draw) : Prop where
  held : ∀ sid state, t.sockets sid = some state →
    openings draws state.handle = t.closed.count state.handle + 1
  free : ∀ fd, (∀ sid state, t.sockets sid = some state → state.handle ≠ fd) →
    openings draws fd = t.closed.count fd
  distinct : ∀ sid sid' state state', t.sockets sid = some state → t.sockets sid' = some state' →
    state.handle = state'.handle → sid = sid'
  gone : ∀ d ∈ draws, ∀ key error, t.keys d.frame = some key →
    key.outcome = some (.unexpected error) → t.sockets d.handle = none

section Table

variable {t t' : Table} {draws : List Draw} {f : Frame} {args : Args} {sid : SocketT}

theorem Held.call (h : Held t draws) (hnum : Numbered t draws) (key : Key) : Held (t.call key) draws := by
  refine ⟨h.held, h.free, h.distinct, ?_⟩
  intro d hd key' error hkey herror
  rw [Table.keys_call, if_neg (Nat.ne_of_lt (hnum.frame_lt hd))] at hkey
  apply h.gone d hd key' error hkey herror

theorem Held.register (h : Held t draws) (hnum : Numbered t draws) (address : InternalAddress) {fd : Int32}
    (hnone : t.sockets t.nextHandleId = none) (hclosed : openings draws fd = t.closed.count fd)
    (hnew : ∀ d ∈ draws, d.handle ≠ t.nextHandleId)
    : Held ((t.register fd).call ⟨.connect address, t.nextHandleId, none⟩)
        (draws ++ [⟨t.nextFrame, t.nextHandleId, fd, (t.sockets t.nextHandleId).isNone⟩]) := by
  have hunheld (sid : SocketT) (state : SocketState) (hentry : t.sockets sid = some state)
      : state.handle ≠ fd := by
    intro heq
    have := h.held sid state hentry
    rw [heq] at this
    omega
  constructor
  . intro sid state hentry
    rw [Table.sockets_register hnone] at hentry
    rw [openings_append_singleton]
    split at hentry
    . rw [Option.some.injEq] at hentry
      rw [← hentry, if_pos rfl, hclosed]
      rfl
    . rw [if_neg (hunheld sid state hentry).symm]
      apply h.held sid state hentry
  . intro fd' hfree
    have hne : fd ≠ fd' := by
      apply hfree t.nextHandleId ⟨fd, false⟩
      rw [Table.sockets_register hnone, if_pos rfl]
    rw [openings_append_singleton, if_neg hne]
    apply h.free
    intro sid state hentry
    apply hfree sid state
    rw [Table.sockets_register hnone, if_neg]
    . exact hentry
    . intro heq
      rw [heq, hnone] at hentry
      simp at hentry
  . intro sid sid' state state' hentry hentry' heq
    rw [Table.sockets_register hnone] at hentry hentry'
    split at hentry <;> split at hentry'
    . next heq₁ heq₂ => rw [heq₁, heq₂]
    . rw [Option.some.injEq] at hentry
      rw [← hentry] at heq
      exact absurd heq.symm (hunheld sid' state' hentry')
    . rw [Option.some.injEq] at hentry'
      rw [← hentry'] at heq
      exact absurd heq (hunheld sid state hentry)
    . apply h.distinct sid sid' state state' hentry hentry' heq
  . intro d hd key error hkey herror
    rw [Table.keys_register] at hkey
    rw [List.mem_append, List.mem_singleton] at hd
    rcases hd with hd | rfl
    . rw [if_neg (Nat.ne_of_lt (hnum.frame_lt hd))] at hkey
      rw [Table.sockets_register hnone, if_neg (hnew d hd)]
      apply h.gone d hd key error hkey herror
    . rw [if_pos rfl, Option.some.injEq] at hkey
      rw [← hkey] at herror
      simp at herror

theorem Held.erase (h : Held t draws) (hnum : Numbered t draws) (sid : SocketT)
    : Held (t.erase sid) draws := by
  have hkept {sid' : SocketT} {state : SocketState} (hentry : (t.erase sid).sockets sid' = some state)
      : sid' ≠ sid ∧ t.sockets sid' = some state := by
    rw [Table.sockets_erase] at hentry
    split at hentry
    . simp at hentry
    . next hne => exact ⟨hne, hentry⟩
  have hclosed (fd : Int32) : (t.erase sid).closed.count fd
      = t.closed.count fd + (released (t.sockets sid)).count fd := List.count_append
  have hreleased (state : SocketState) (hentry : t.sockets sid = some state)
      : released (t.sockets sid) = [state.handle] := by
    rw [hentry, Table.released_some, if_pos]
    have := (hnum.entries sid state hentry).2.1
    simpa using this
  constructor
  . intro sid' state hentry
    rcases hkept hentry with ⟨hne, hentry⟩
    rw [hclosed, h.held sid' state hentry]
    cases hgone : t.sockets sid with
    | none => rfl
    | some state' =>
      have hother : state'.handle ≠ state.handle := by
        intro heq
        apply hne
        apply h.distinct sid' sid state state' hentry hgone heq.symm
      rw [← hgone, hreleased state' hgone, List.count_singleton, if_neg]
      simpa using hother
  . intro fd hfree
    rw [hclosed]
    cases hgone : t.sockets sid with
    | none =>
      apply h.free
      intro sid' state hentry
      apply hfree sid' state
      rw [Table.sockets_erase, if_neg]
      . exact hentry
      . intro heq
        rw [heq, hgone] at hentry
        simp at hentry
    | some state =>
      rw [← hgone, hreleased state hgone, List.count_singleton]
      by_cases heq : state.handle = fd
      . rw [← heq, h.held sid state hgone]
        simp
      . rw [if_neg (by simpa using heq)]
        apply h.free
        intro sid' state' hentry
        by_cases hsame : sid' = sid
        . rw [hsame, hgone, Option.some.injEq] at hentry
          rw [← hentry]
          exact heq
        . apply hfree sid' state'
          rw [Table.sockets_erase, if_neg hsame]
          exact hentry
  . intro sid₁ sid₂ state₁ state₂ hentry₁ hentry₂ heq
    apply h.distinct sid₁ sid₂ state₁ state₂ (hkept hentry₁).2 (hkept hentry₂).2 heq
  . intro d hd key error hkey herror
    rw [Table.sockets_erase]
    split
    . rfl
    . apply h.gone d hd key error hkey herror

theorem close_eq_erase (hnum : Numbered t draws) (sid : SocketT) : t.close sid = t.erase sid := by
  unfold Table.close Table.erase
  cases hentry : t.sockets sid with
  | none => rfl
  | some state =>
    rw [Option.filter_some, (hnum.entries sid state hentry).1]
    rfl

theorem Held.setKey (h : Held t draws) {key : Key}
    (hgone : ∀ d ∈ draws, d.frame = f → ∀ error, key.outcome = some (.unexpected error) →
      t.sockets d.handle = none)
    : Held (t.setKey f key) draws := by
  refine ⟨h.held, h.free, h.distinct, ?_⟩
  intro d hd key' error hkey herror
  rw [Table.keys_setKey] at hkey
  split at hkey
  . next heq =>
    rw [Option.some.injEq] at hkey
    rw [← hkey] at herror
    apply hgone d hd heq error herror
  . apply h.gone d hd key' error hkey herror

theorem socket_of_draw (hnum : Numbered t draws) (hf : t.keys f = some ⟨args, sid, none⟩) {d : Draw}
    (hd : d ∈ draws) (hframe : d.frame = f)
    : args.type = .connect ∧ d.handle = sid := by
  rcases hnum.called d hd with ⟨key, hkey, htype, hsocket⟩
  rw [hframe, hf, Option.some.injEq] at hkey
  rw [← hkey] at htype hsocket
  exact ⟨htype, hsocket.symm⟩

theorem Held.finish (h : Held t draws) (hnum : Numbered t draws) (hf : t.keys f = some ⟨args, sid, none⟩)
    (hfin : Finish t f args sid t')
    : Held t' draws := by
  cases hfin with
  | keeps _ hsocket =>
    apply h.setKey
    intro d hd hframe error herror
    rw [Option.some.injEq] at herror
    rw [hsocket (socket_of_draw hnum hf hd hframe).1] at herror
    simp at herror
  | erases _ _ =>
    apply (h.erase hnum sid).setKey
    intro d hd hframe error _
    rw [(socket_of_draw hnum hf hd hframe).2]
    apply Function.update_self _ _ _

theorem Held.count_le (h : Held t draws) (fd : Int32) : t.closed.count fd ≤ openings draws fd := by
  by_cases hfree : ∀ sid state, t.sockets sid = some state → state.handle ≠ fd
  . apply Nat.le_of_eq (h.free fd hfree).symm
  . simp only [not_forall, not_not] at hfree
    rcases hfree with ⟨sid, state, hentry, heq⟩
    have := h.held sid state hentry
    rw [heq] at this
    omega

def Agreeable (t : Table) (draws : List Draw) : Op → Prop
  | .connect _ fd _ => ¬ fd < 0 →
    t.nextHandleId ≠ 0 ∧ t.sockets t.nextHandleId = none ∧ ¬ t.closed.count fd < openings draws fd
  | _ => True

theorem Held.step {op : Op} (h : Held t draws) (hnum : Numbered t draws) (hcounted : Counted t draws)
    (hlt : (draws ++ drawn t op).length < 2 ^ 32) (hagree : Agreeable t draws op)
    (hstep : Table.Step t op t')
    : Held t' (draws ++ drawn t op) := by
  cases hstep with
  | connect_refused hfd =>
    rw [Table.drawn_refused hfd, List.append_nil]
    apply h.call hnum
  | @connect_suspended address fd env hfd =>
    rw [Table.drawn_connect hfd] at hlt ⊢
    rw [List.length_append] at hlt
    rcases hagree hfd with ⟨_, hnone, hopen⟩
    apply h.register hnum address hnone
    . have := h.count_le fd
      omega
    . intro d hd
      apply hcounted.handle_next hlt hd
  | @connect_finished address fd env _ hfd hfin =>
    rw [Table.drawn_connect hfd] at hlt ⊢
    rw [List.length_append] at hlt
    rcases hagree hfd with ⟨_, hnone, hopen⟩
    have hreg : Held ((t.register fd).call ⟨.connect address, t.nextHandleId, none⟩)
        (draws ++ [⟨t.nextFrame, t.nextHandleId, fd, (t.sockets t.nextHandleId).isNone⟩]) := by
      apply h.register hnum address hnone
      . have := h.count_le fd
        omega
      . intro d hd
        apply hcounted.handle_next hlt hd
    apply hreg.finish (hnum.register address hfd hnone) _ hfin
    apply Function.update_self _ _ _
  | called hop _ =>
    rw [Table.drawn_eq_nil hop, List.append_nil]
    apply h.call hnum
  | closed =>
    unfold drawn
    rw [List.append_nil, close_eq_erase hnum]
    apply h.erase hnum
  | completed hf hfin =>
    unfold drawn
    rw [List.append_nil]
    apply h.finish hnum hf hfin
  | _ =>
    unfold drawn
    rw [List.append_nil]
    exact h

theorem keys_finish (hfin : Finish t f args sid t') {g : Frame} (hne : g ≠ f) : t'.keys g = t.keys g := by
  cases hfin with
  | keeps _ _ => exact Function.update_of_ne hne _ _
  | erases _ _ => exact Function.update_of_ne hne _ _

theorem sockets_finish (hfin : Finish t f args sid t') {sid' : SocketT}
    (hother : args.type = .connect → sid' ≠ sid)
    : t'.sockets sid' = t.sockets sid' := by
  cases hfin with
  | keeps _ _ => rfl
  | erases hgives _ => exact Function.update_of_ne (hother hgives.1) _ _

structure Ends (t : Table) (f : Frame) (t' : Table) : Prop where
  before : ∀ key, t.keys f = some key → key.outcome = none
  after : ∃ key, t'.keys f = some key ∧ key.outcome ≠ none

theorem Ends.irrefl (h : Ends t f t') : t'.keys f ≠ t.keys f := by
  intro heq
  rcases h.after with ⟨key, hkey, hout⟩
  rw [heq] at hkey
  apply hout (h.before key hkey)

theorem sockets_of_ends {op : Op} (hnum : Numbered t draws) (hstep : Table.Step t op t') (hends : Ends t f t')
    {sid : SocketT} (hother : ∀ d ∈ draws ++ drawn t op, d.frame = f → d.handle ≠ sid)
    : t'.sockets sid = t.sockets sid := by
  cases hstep with
  | connect_refused hfd => rfl
  | called hop _ => rfl
  | stopped => rfl
  | completed_none => rfl
  | closed => exact absurd rfl hends.irrefl
  | @connect_suspended address fd env hfd =>
    rcases hends.after with ⟨key, hkey, hout⟩
    have hkeys := Table.keys_register t fd ⟨.connect address, t.nextHandleId, none⟩ f
    split at hkeys
    . rw [hkeys, Option.some.injEq] at hkey
      rw [← hkey] at hout
      exact absurd rfl hout
    . exact absurd hkeys hends.irrefl
  | @connect_finished address fd env _ hfd hfin =>
    by_cases heq : f = t.nextFrame
    . rw [Table.drawn_connect hfd] at hother
      have hne : t.nextHandleId ≠ sid :=
        hother _ (List.mem_append_right _ (List.mem_singleton_self _)) heq.symm
      rw [sockets_finish hfin]
      . apply Function.update_of_ne hne.symm _ _
      . intro _
        exact hne.symm
    . apply absurd _ hends.irrefl
      rw [keys_finish hfin heq]
      apply Function.update_of_ne heq _ _
  | @completed i result g args sid' _ hg hfin =>
    by_cases heq : f = g
    . apply sockets_finish hfin
      intro htype
      rcases (hnum.keys g _ hg).2 htype with ⟨d, hd, hframe, hhandle⟩ | ⟨⟨error, herror⟩, _⟩
      . have := hother d (List.mem_append_left _ hd) (hframe.trans heq.symm)
        rw [hhandle] at this
        exact this.symm
      . simp at herror
    . exact absurd (keys_finish hfin heq) hends.irrefl

theorem count_erase_all (h : Held t draws) (hnum : Numbered t draws) (keys : List SocketT)
    (hkeys : ∀ sid, (t.sockets sid).isSome = true → sid ∈ keys) (fd : Int32)
    : (keys.foldl Table.erase t).closed.count fd = openings draws fd := by
  induction keys generalizing t with
  | nil =>
    apply Eq.symm
    apply h.free
    intro sid state hentry
    have := hkeys sid (by rw [hentry]; rfl)
    simp at this
  | cons sid keys ih =>
    rw [List.foldl_cons]
    apply ih (h.erase hnum sid) (hnum.erased sid _)
    intro sid' hentry
    rw [Table.sockets_erase] at hentry
    split at hentry
    . simp at hentry
    . next hne =>
      have := hkeys sid' hentry
      rw [List.mem_cons] at this
      apply this.resolve_left hne

end Table

variable {l l' : Ledger} {op : Op} {o : Option Outcome} {result : Int32}
  {trace : List (Op × Option Outcome)}

def Open (l : Ledger) (fd : Int32) : Prop :=
  l.proactor.closed.count fd < openings l.draws fd

/--
The handle that a connect draws is valid and not in use, and the system gives it no descriptor that is open.
-/
def Assumed (l : Ledger) : Op → Prop
  | .connect _ fd _ => ¬ fd < 0 →
    l.proactor.nextHandleId ≠ 0 ∧ l.proactor.sockets l.proactor.nextHandleId = none ∧ ¬ l.Open fd
  | _ => True

instance (l : Ledger) (fd : Int32) : Decidable (l.Open fd) :=
  inferInstanceAs (Decidable (_ < _))

instance (l : Ledger) : (op : Op) → Decidable (l.Assumed op)
  | .connect _ fd _ => inferInstanceAs (Decidable (¬ fd < 0 → _ ∧ _ ∧ _))
  | .sleepFor .. => .isTrue trivial
  | .socketSend .. => .isTrue trivial
  | .socketRecv .. => .isTrue trivial
  | .close .. => .isTrue trivial
  | .stop .. => .isTrue trivial
  | .handleCqe .. => .isTrue trivial

/--
The descriptors that are open are those in the table, and each of them has been closed once for every time
that it was opened before.
-/
structure Accounted (l : Ledger) : Prop where
  open_iff : ∀ fd, l.Open fd ↔ ∃ sid state, l.proactor.sockets sid = some state ∧ state.handle = fd
  distinct : ∀ sid sid' state state', l.proactor.sockets sid = some state →
    l.proactor.sockets sid' = some state' → state.handle = state'.handle → sid = sid'
  valid : ∀ sid state, l.proactor.sockets sid = some state → 0 ≤ state.handle
  once : ∀ fd, l.proactor.closed.count fd ≤ openings l.draws fd
    ∧ openings l.draws fd ≤ l.proactor.closed.count fd + 1
  gone : ∀ d ∈ l.draws, ∀ error, l.outcome d.frame = some (.unexpected error) →
    l.proactor.sockets d.handle = none

-- the table is the same but for the entry of the connect of `f`
def SameOthers (l : Ledger) (f : Frame) (l' : Ledger) : Prop :=
  ∀ sid, (∀ d ∈ l'.draws, d.frame = f → d.handle ≠ sid) →
    l'.proactor.sockets sid = l.proactor.sockets sid

def Enumerates (l : Ledger) (keys : List SocketT) : Prop :=
  keys.Nodup ∧ ∀ sid, sid ∈ keys ↔ (l.proactor.sockets sid).isSome = true

-- `Step` where the proactor's step is defined, and anything else where it is not
def Behaves : Ledger → Op → Option Outcome → Ledger → Prop :=
  behavior (fun l => l.proactor.Defined) (ofStep step)

def Clean (l : Ledger) (op : Op) : Prop :=
  l.proactor.Clean op

instance (l : Ledger) (op : Op) : Decidable (l.Clean op) :=
  inferInstanceAs (Decidable (l.proactor.Clean op))

structure Sound (l : Ledger) : Prop where
  short : l.draws.length < 2 ^ 32
  counted : Counted l.table l.draws
  numbered : Numbered l.table l.draws
  held : Held l.table l.draws

theorem Sound.step (h : Sound l) (hassumed : l.Assumed op) (hstep : l.step op = some (l', o)) : Sound l' := by
  rcases step_cases hstep with ⟨htable, hdraws⟩
  have hshort : (l.draws ++ drawn l.table op).length < 2 ^ 32 := by
    have hlen := h.short
    rw [List.length_append, length_drawn]
    split
    . next hopens =>
      cases op with
      | connect address fd env =>
        have hfd : ¬ fd < 0 := by simpa [IOUringProactor.Op.opens] using hopens
        have hne := (hassumed hfd).1
        have hnext : l.proactor.nextHandleId = .ofNat (l.draws.length + 1) := h.counted.next
        by_contra hge
        have heq : l.draws.length + 1 = 2 ^ 32 := by omega
        rw [hnext, heq] at hne
        apply hne rfl
      | _ => simp [IOUringProactor.Op.opens] at hopens
    . exact hlen
  have hagree : Agreeable l.table l.draws op := by
    cases op with
    | connect address fd env => exact hassumed
    | _ => trivial
  constructor
  . rw [hdraws]
    exact hshort
  . rw [hdraws]
    apply h.counted.step htable
  . rw [hdraws]
    apply h.numbered.step h.counted htable hshort
  . rw [hdraws]
    apply h.held.step h.numbered h.counted hshort hagree htable

theorem sound (hrun : Run (restrict Assumed (ofStep step)) (init result) trace l) : Sound l := by
  apply hrun.invariant
  . have hnil : Run (ofStep step) (init result) [] (init result) := .nil
    constructor
    . apply Nat.two_pow_pos 32
    . apply counted hnil
    . apply numbered hnil (Nat.two_pow_pos 32)
    . constructor <;> simp [init, table, IOUringProactor.table, IOUringProactor.ofEntries, openings]
  . intro l₁ op o l₂ h hstep
    apply h.step hstep.1 hstep.2

theorem Sound.accounted (h : Sound l) : Accounted l := by
  constructor
  . intro fd
    unfold Open
    constructor
    . intro hopen
      by_contra hfree
      have := h.held.free fd (fun sid state hentry heq => hfree ⟨sid, state, hentry, heq⟩)
      exact absurd hopen (by rw [this]; exact Nat.lt_irrefl _)
    . rintro ⟨sid, state, hentry, rfl⟩
      rw [h.held.held sid state hentry]
      apply Nat.lt_succ_self _
  . exact h.held.distinct
  . intro sid state hentry
    have := (h.numbered.entries sid state hentry).2.1
    simpa using this
  . intro fd
    refine ⟨h.held.count_le fd, ?_⟩
    by_cases hfree : ∀ sid state, l.table.sockets sid = some state → state.handle ≠ fd
    . rw [h.held.free fd hfree]
      apply Nat.le_succ _
    . simp only [not_forall, not_not] at hfree
      rcases hfree with ⟨sid, state, hentry, heq⟩
      rw [← heq, h.held.held sid state hentry]
      apply Nat.le_refl _
  . intro d hd error hout
    rcases h.numbered.called d hd with ⟨key, hkey, _⟩
    apply h.held.gone d hd key error hkey
    have hkeys : l.table.keys d.frame = (l.proactor.calls d.frame).map Call.key := rfl
    rw [hkeys, Option.map_eq_some_iff] at hkey
    rcases hkey with ⟨call, hcall, rfl⟩
    unfold outcome at hout
    rw [hcall] at hout
    exact hout

theorem ends_of_outcome {f : Frame} (hbefore : l.outcome f = none) (hafter : l'.outcome f ≠ none)
    : Ends l.table f l'.table := by
  unfold outcome at hbefore hafter
  constructor
  . intro key hkey
    have hkeys : l.table.keys f = (l.proactor.calls f).map Call.key := rfl
    rw [hkeys, Option.map_eq_some_iff] at hkey
    rcases hkey with ⟨call, hcall, rfl⟩
    rw [hcall] at hbefore
    exact hbefore
  . cases hcall : l'.proactor.calls f with
    | none =>
      rw [hcall] at hafter
      exact absurd rfl hafter
    | some call =>
      have hkeys : l'.table.keys f = (l'.proactor.calls f).map Call.key := rfl
      rw [hcall] at hafter
      refine ⟨call.key, ?_, hafter⟩
      rw [hkeys, hcall]
      rfl

theorem sockets_closeEntry (s : IOUringProactor) (sid : SocketT) : (s.closeEntry sid).sockets = s.sockets := by
  unfold IOUringProactor.closeEntry IOUringProactor.closeFd
  split
  . rfl
  . split <;> rfl

theorem closed_closeEntry (s : IOUringProactor) (sid : SocketT)
    : (s.closeEntry sid).closed = s.closed ++ released (s.sockets sid) := by
  unfold IOUringProactor.closeEntry IOUringProactor.closeFd
  split
  . next hnone => rw [hnone, Table.released_none, List.append_nil]
  . next state hentry =>
    rw [hentry, Table.released_some]
    split
    . rfl
    . rw [List.append_nil]

theorem closed_foldl {keys : List SocketT} (hnodup : keys.Nodup) (s : IOUringProactor) (t : Table)
    (hclosed : s.closed = t.closed) (hsockets : ∀ sid ∈ keys, s.sockets sid = t.sockets sid)
    : (keys.foldl IOUringProactor.closeEntry s).closed = (keys.foldl Table.erase t).closed := by
  induction keys generalizing s t with
  | nil => exact hclosed
  | cons sid keys ih =>
    rw [List.nodup_cons] at hnodup
    rw [List.foldl_cons, List.foldl_cons]
    apply ih hnodup.2
    . rw [closed_closeEntry, hclosed, hsockets sid List.mem_cons_self]
      rfl
    . intro sid' hmem
      have hne : sid' ≠ sid := by
        intro heq
        rw [heq] at hmem
        exact hnodup.1 hmem
      rw [sockets_closeEntry, hsockets sid' (List.mem_cons_of_mem _ hmem)]
      exact (Function.update_of_ne hne _ _).symm

theorem Sound.count_destroy (h : Sound l) {keys : List SocketT} (hkeys : l.Enumerates keys) (fd : Int32)
    : (l.proactor.destroy keys).closed.count fd = openings l.draws fd := by
  have hclosed : (l.proactor.destroy keys).closed = (keys.foldl Table.erase l.table).closed := by
    apply closed_foldl hkeys.1
    . rfl
    . intro sid _
      rfl
  rw [hclosed]
  apply count_erase_all h.held h.numbered
  intro sid hentry
  rw [hkeys.2 sid]
  exact hentry

theorem step_eq_some (hstep : l.step op = some (l', o)) : l.proactor.step op = some (l'.proactor, o) := by
  unfold step at hstep
  rw [Option.map_eq_some_iff] at hstep
  rcases hstep with ⟨⟨p, o'⟩, hp, heq⟩
  cases heq
  exact hp

theorem run_sound (hrun : Run (restrict (fun l op => l.Assumed op ∧ l.Clean op) Behaves) (init result) trace l)
    : Sound l ∧ l.proactor.Inv := by
  have hinit : Sound (init result) ∧ (init result).proactor.Inv := ⟨sound .nil, .ofEntries result⟩
  have hdefined (l₁ : Ledger) (op : Op) (h : Sound l₁ ∧ l₁.proactor.Inv) (_ : l₁.Assumed op ∧ l₁.Clean op)
      : l₁.proactor.Defined op := by
    apply h.2.defined
  apply (hrun.defined hinit hdefined _).2
  intro l₁ op o l₂ h hcond hstep
  exact ⟨h.1.step hcond.1 hstep, h.2.step hcond.2 (step_eq_some hstep)⟩

theorem descriptors_accounted
    (hrun : Run (restrict (fun l op => l.Assumed op ∧ l.Clean op) Behaves) (init result) trace l)
    : l.Accounted
        ∧
      (∀ op o l', l.Assumed op → l.Clean op → l.Behaves op o l' →
        l'.Accounted ∧ ∀ f, l.outcome f = none → l'.outcome f ≠ none → l.SameOthers f l')
        ∧
      ∀ keys, l.Enumerates keys → ∀ fd, (l.proactor.destroy keys).sockets = (fun _ => none)
        ∧ (l.proactor.destroy keys).closed.count fd = openings l.draws fd := by
  rcases run_sound hrun with ⟨h, hinv⟩
  refine ⟨h.accounted, ?_, ?_⟩
  . intro op o l' hassumed hclean hbehaves
    have hstep : l.step op = some (l', o) := hbehaves (hinv.defined op)
    refine ⟨(h.step hassumed hstep).accounted, ?_⟩
    intro f hbefore hafter sid hother
    rcases step_cases hstep with ⟨htable, hdraws⟩
    rw [hdraws] at hother
    apply sockets_of_ends h.numbered htable (ends_of_outcome hbefore hafter) hother
  . intro keys hkeys fd
    exact ⟨rfl, h.count_destroy hkeys fd⟩

theorem descriptors_accounted_of_open_and_refused
    : ∃ trace l, Run (restrict (fun l op => l.Assumed op ∧ l.Clean op) Behaves) (init 0) trace l
        ∧ l.outcome 0 = some (.socket 1) ∧ l.outcome 1 = some (.unexpected (.networkError 111))
        ∧ l.Accounted ∧ (l.proactor.destroy [1]).closed.count 3 = 1 := by
  let ops : List Op := [.connect loopback 3 accepted, .connect loopback 4 ⟨0, some 0, some 1, 1⟩,
    .handleCqe 0 0, .handleCqe 0 (-111), .close 7]
  have hexec : ((exec (guarded (fun l op => l.Assumed op ∧ l.Clean op) step) (init 0) ops).map fun r =>
      (r.1.draws, r.1.outcome 0, r.1.outcome 1, r.1.table.sockets 1, r.1.table.sockets 2))
      = some ([⟨0, 1, 3, true⟩, ⟨1, 2, 4, true⟩], some (.socket 1),
          some (.unexpected (.networkError 111)), some ⟨3, false⟩, none) := by decide
  rcases Option.map_eq_some_iff.mp hexec with ⟨⟨l, outs⟩, hexec, heq⟩
  simp only [Prod.mk.injEq] at heq
  rcases heq with ⟨hdraws, hsocket, hrefused, hfirst, hsecond⟩
  have hrun : Run (restrict (fun l op => l.Assumed op ∧ l.Clean op) Behaves) (init 0) (ops.zip outs) l := by
    apply (run_restrict_of_exec hexec).mono
    intro l₁ op o l₂ hstep
    exact ⟨hstep.1, fun _ => hstep.2⟩
  have hkeys : l.Enumerates [1] := by
    refine ⟨List.nodup_singleton _, ?_⟩
    intro sid
    rw [List.mem_singleton]
    constructor
    . rintro rfl
      have hentry : l.proactor.sockets 1 = _ := hfirst
      rw [hentry]
      rfl
    . intro hsome
      rcases Option.isSome_iff_exists.mp hsome with ⟨state, hentry⟩
      rcases ((run_sound hrun).1.numbered.entries sid state hentry).2.2 with ⟨d, hd, hhandle, _⟩
      rw [hdraws, List.mem_cons, List.mem_singleton] at hd
      rcases hd with rfl | rfl
      . exact hhandle.symm
      . rw [← hhandle] at hentry
        have hnone : none = some state := hsecond.symm.trans hentry
        simp at hnone
  rcases descriptors_accounted hrun with ⟨haccounted, _, hdestroy⟩
  refine ⟨_, l, hrun, hsocket, hrefused, haccounted, ?_⟩
  rw [(hdestroy [1] hkeys 3).2, hdraws]
  rfl

/--
The submission of the first connect fails, and that of the second hands over both entries. The completion of
the first then has `handle_cqe` use and delete an `OperationData` that has been freed, after which nothing is
certain, not even that the descriptor of the second is still in the table.
-/
theorem not_accounted_after_stale_entry
    : ∃ trace l, Run (restrict Assumed Behaves) (init 0) trace l
        ∧ ¬ l.proactor.Defined (.handleCqe 0 (-125))
        ∧ ∃ o l', Run (restrict Assumed Behaves) (init 0) (trace ++ [(.handleCqe 0 (-125), o)]) l'
          ∧ ¬ l'.Accounted := by
  let ops : List Op := [.connect loopback 3 ⟨0, some 0, some 0, -11⟩, .connect loopback 4 ⟨0, some 1, some 1, 2⟩]
  have hexec : ((exec (guarded Assumed step) (init 0) ops).map fun r =>
      (r.1.proactor.inFlight.map (·.sqe.userData), r.1.proactor.opdata 0, r.1.draws, r.1.proactor.closed))
      = some ([some 0, some 1], some ⟨⟨.connect, 1, 0, 0⟩, false⟩, [⟨0, 1, 3, true⟩, ⟨1, 2, 4, true⟩], [3]) := by
    decide
  rcases Option.map_eq_some_iff.mp hexec with ⟨⟨l, outs⟩, hexec, heq⟩
  simp only [Prod.mk.injEq] at heq
  rcases heq with ⟨hdata, hcell, hdraws, hclosed⟩
  have hrun : Run (restrict Assumed Behaves) (init 0) (ops.zip outs) l := by
    apply (run_restrict_of_exec hexec).mono
    intro l₁ op o l₂ hstep
    exact ⟨hstep.1, fun _ => hstep.2⟩
  have hundefined : ¬ l.proactor.Defined (.handleCqe 0 (-125)) := by
    intro hdefined
    rw [List.map_eq_cons_iff] at hdata
    rcases hdata with ⟨e, es, hes, he, _⟩
    rcases hdefined e (by rw [hes]; rfl) 0 he with ⟨cell, hmem, hlive, _⟩
    rw [hcell, Option.mem_some_iff] at hmem
    rw [← hmem] at hlive
    simp at hlive
  let lost : Ledger := { l with proactor := { l.proactor with sockets := fun _ => none } }
  refine ⟨_, l, hrun, hundefined, none, lost, ?_, ?_⟩
  . exact .snoc hrun ⟨trivial, fun hdefined => absurd hdefined hundefined⟩
  . intro haccounted
    have hopen : lost.Open 4 := by
      unfold Open
      rw [hclosed, hdraws]
      decide
    rcases (haccounted.open_iff 4).mp hopen with ⟨sid, state, hentry, _⟩
    simp [lost] at hentry

end Ledger

end Net

end Sfap
