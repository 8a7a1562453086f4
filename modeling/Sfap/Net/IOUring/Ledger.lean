import Sfap.Net.IOUring.Table
import Mathlib.Data.List.Nodup

/-!
This module contains a ledger of the handles that the connects of one proactor have drawn, and the proof
that every handle is fresh as long as the counter has not wrapped.
-/

namespace Sfap

namespace Net

open IOUring

/--
A connect that has opened a descriptor, with the handle that it has drawn for it and whether the table has
taken the new entry.
-/
structure Draw where
  frame : Frame
  handle : SocketT
  fd : Int32
  inserted : Bool
  deriving DecidableEq, Repr

structure Ledger where
  proactor : IOUringProactor
  draws : List Draw

namespace Ledger

open IOUringProactor (Op Env)

def init (result : Int32) : Ledger :=
  ⟨.ofEntries result, []⟩

def drawn (t : Table) : Op → List Draw
  | .connect _ fd _ =>
    if fd < 0 then [] else [⟨t.nextFrame, t.nextHandleId, fd, (t.sockets t.nextHandleId).isNone⟩]
  | _ => []

def step (l : Ledger) (op : Op) : Option (Ledger × Option Outcome) :=
  (l.proactor.step op).map fun (p, o) => (⟨p, l.draws ++ drawn l.proactor.table op⟩, o)

def outcome (l : Ledger) (f : Frame) : Option Outcome :=
  (l.proactor.calls f).bind Call.outcome

structure Fresh (l : Ledger) : Prop where
  new : ∀ d ∈ l.draws, d.handle ≠ 0 ∧ d.inserted = true
  own : ∀ d ∈ l.draws, ∀ handle, l.outcome d.frame = some (.socket handle) →
    ∀ state, l.proactor.sockets handle = some state → state.handle = d.fd

end Ledger

namespace Table

open Ledger (drawn)
open IOUringProactor (Op Env)

variable {t t' : Table} {draws : List Draw} {f : Frame} {args : Args} {sid : SocketT} {d d' : Draw}

/--
The handles drawn are `1`, `2` and so on, modulo `2 ^ 32`.
-/
structure Counted (t : Table) (draws : List Draw) : Prop where
  next : t.nextHandleId = .ofNat (draws.length + 1)
  handles : ∀ (i : Nat) d, draws[i]? = some d → d.handle = .ofNat (i + 1)

theorem drawn_eq_nil {op : Op} (hop : ∀ address fd env, op ≠ .connect address fd env)
    : drawn t op = [] := by
  cases op with
  | connect address fd env => exact absurd rfl (hop address fd env)
  | _ => rfl

theorem drawn_connect {address : InternalAddress} {fd : Int32} {env : Env} (hfd : ¬ fd < 0)
    : drawn t (.connect address fd env)
        = [⟨t.nextFrame, t.nextHandleId, fd, (t.sockets t.nextHandleId).isNone⟩] := by
  unfold drawn
  dsimp only
  rw [if_neg hfd]

theorem drawn_refused {address : InternalAddress} {fd : Int32} {env : Env} (hfd : fd < 0)
    : drawn t (.connect address fd env) = [] := by
  unfold drawn
  dsimp only
  rw [if_pos hfd]

theorem Finish.nextHandleId (h : Finish t f args sid t') : t'.nextHandleId = t.nextHandleId := by
  cases h <;> rfl

theorem Counted.same (h : Counted t draws) (heq : t'.nextHandleId = t.nextHandleId)
    : Counted t' (draws ++ []) := by
  rw [List.append_nil]
  exact ⟨by rw [heq, h.next], h.handles⟩

theorem Counted.draw (h : Counted t draws) (hnext : t'.nextHandleId = t.nextHandleId + 1)
    (hd : d.handle = t.nextHandleId)
    : Counted t' (draws ++ [d]) := by
  constructor
  . rw [hnext, h.next, List.length_append, List.length_singleton, UInt32.ofNat_add (_ + 1)]
    rfl
  . intro i d' hi
    rw [List.getElem?_append] at hi
    split at hi
    . apply h.handles i d' hi
    . next hge =>
      rw [List.getElem?_singleton] at hi
      split at hi
      . rw [Option.some.injEq] at hi
        rw [← hi, hd, h.next]
        congr 1
        omega
      . simp at hi

theorem Counted.step {op : Op} (h : Counted t draws) (hstep : Step t op t')
    : Counted t' (draws ++ drawn t op) := by
  cases hstep with
  | connect_refused hfd =>
    rw [drawn_refused hfd]
    exact h.same rfl
  | connect_suspended hfd =>
    rw [drawn_connect hfd]
    apply h.draw rfl rfl
  | connect_finished hfd hfin =>
    rw [drawn_connect hfd]
    apply h.draw hfin.nextHandleId rfl
  | called hop _ =>
    rw [drawn_eq_nil hop]
    exact h.same rfl
  | completed _ hfin => exact h.same hfin.nextHandleId
  | _ => exact h.same rfl

theorem Counted.toNat_handle (h : Counted t draws) (hlen : draws.length < 2 ^ 32) {i : Nat}
    (hi : draws[i]? = some d)
    : d.handle.toNat = i + 1 := by
  have := (List.getElem?_eq_some_iff.mp hi).1
  rw [h.handles i d hi]
  apply Nat.mod_eq_of_lt
  omega

theorem Counted.handle_inj (h : Counted t draws) (hlen : draws.length < 2 ^ 32) (hd : d ∈ draws)
    (hd' : d' ∈ draws) (heq : d.handle = d'.handle)
    : d = d' := by
  rcases List.mem_iff_getElem?.mp hd with ⟨i, hi⟩
  rcases List.mem_iff_getElem?.mp hd' with ⟨j, hj⟩
  have hij : i = j := by
    have := h.toNat_handle hlen hi
    have := h.toNat_handle hlen hj
    rw [heq] at *
    omega
  rw [hij, hj] at hi
  simpa using hi.symm

theorem Counted.handle_ne (h : Counted t draws) (hlen : draws.length < 2 ^ 32) (hd : d ∈ draws)
    : d.handle ≠ 0 := by
  rcases List.mem_iff_getElem?.mp hd with ⟨i, hi⟩
  have := h.toNat_handle hlen hi
  intro heq
  simp [heq] at this

theorem Counted.handle_next (h : Counted t draws) (hlt : draws.length + 1 < 2 ^ 32) (hd : d ∈ draws)
    : d.handle ≠ t.nextHandleId := by
  rcases List.mem_iff_getElem?.mp hd with ⟨i, hi⟩
  have hhandle := h.toNat_handle (by omega) hi
  have hnext : t.nextHandleId.toNat = draws.length + 1 := by
    rw [h.next]
    apply Nat.mod_eq_of_lt hlt
  have := (List.getElem?_eq_some_iff.mp hi).1
  intro heq
  rw [heq] at hhandle
  omega

structure Numbered (t : Table) (draws : List Draw) : Prop where
  inserted : ∀ d ∈ draws, d.inserted = true
  called : ∀ d ∈ draws, ∃ key,
    t.keys d.frame = some key ∧ key.args.type = .connect ∧ key.socket = d.handle
  frames_once : (draws.map Draw.frame).Nodup
  entries : ∀ sid state, t.sockets sid = some state →
    state.closing = false ∧ ¬ state.handle < 0 ∧ ∃ d ∈ draws, d.handle = sid ∧ d.fd = state.handle
  keys : ∀ f key, t.keys f = some key → f < t.nextFrame ∧ (key.args.type = .connect →
    (∃ d ∈ draws, d.frame = f ∧ d.handle = key.socket)
      ∨ (∃ error, key.outcome = some (.unexpected error)) ∧ ∀ d ∈ draws, d.frame ≠ f)
  outcomes : ∀ f key handle, t.keys f = some key → key.args.type = .connect →
    key.outcome = some (.socket handle) → handle = key.socket

theorem Numbered.frame_lt (h : Numbered t draws) (hd : d ∈ draws) : d.frame < t.nextFrame := by
  rcases h.called d hd with ⟨key, hkey, _⟩
  exact (h.keys d.frame key hkey).1

theorem Numbered.sockets_next (h : Numbered t draws) (hcounted : Counted t draws)
    (hlt : draws.length + 1 < 2 ^ 32)
    : t.sockets t.nextHandleId = none := by
  cases hentry : t.sockets t.nextHandleId with
  | none => rfl
  | some state =>
    rcases (h.entries _ state hentry).2.2 with ⟨d, hd, hhandle, _⟩
    exact absurd hhandle (hcounted.handle_next hlt hd)

theorem Numbered.call (h : Numbered t draws) {key : Key}
    (hkey : key.args.type ≠ .connect ∨ ∃ error, key.outcome = some (.unexpected error))
    : Numbered (t.call key) draws := by
  constructor
  . exact h.inserted
  . intro d hd
    rw [keys_call, if_neg (Nat.ne_of_lt (h.frame_lt hd))]
    apply h.called d hd
  . exact h.frames_once
  . exact h.entries
  . intro f key' hf
    rw [keys_call] at hf
    split at hf
    . next heq =>
      rw [Option.some.injEq] at hf
      rw [← hf, heq]
      refine ⟨Nat.lt_succ_self _, ?_⟩
      intro htype
      rcases hkey with hne | herror
      . exact absurd htype hne
      . right
        refine ⟨herror, ?_⟩
        intro d hd
        apply Nat.ne_of_lt (h.frame_lt hd)
    . exact ⟨Nat.lt_succ_of_lt (h.keys f key' hf).1, (h.keys f key' hf).2⟩
  . intro f key' handle hf htype hout
    rw [keys_call] at hf
    split at hf
    . rw [Option.some.injEq] at hf
      rw [← hf] at htype hout
      rcases hkey with hne | ⟨error, herror⟩
      . exact absurd htype hne
      . simp [herror] at hout
    . apply h.outcomes f key' handle hf htype hout

theorem Numbered.register (h : Numbered t draws) (address : InternalAddress) {fd : Int32}
    (hfd : ¬ fd < 0) (hnone : t.sockets t.nextHandleId = none)
    : Numbered ((t.register fd).call ⟨.connect address, t.nextHandleId, none⟩)
        (draws ++ [⟨t.nextFrame, t.nextHandleId, fd, (t.sockets t.nextHandleId).isNone⟩]) := by
  constructor
  . intro d hd
    rw [List.mem_append, List.mem_singleton] at hd
    rcases hd with hd | rfl
    . apply h.inserted d hd
    . dsimp only
      rw [hnone]
      rfl
  . intro d hd
    rw [List.mem_append, List.mem_singleton] at hd
    rcases hd with hd | rfl
    . rw [keys_register, if_neg (Nat.ne_of_lt (h.frame_lt hd))]
      apply h.called d hd
    . rw [keys_register, if_pos rfl]
      exact ⟨_, rfl, rfl, rfl⟩
  . rw [List.map_append, List.map_singleton, ← List.concat_eq_append, List.nodup_concat]
    refine ⟨?_, h.frames_once⟩
    intro hmem
    rw [List.mem_map] at hmem
    rcases hmem with ⟨d, hd, heq⟩
    exact absurd heq (Nat.ne_of_lt (h.frame_lt hd))
  . intro sid state hentry
    rw [sockets_register hnone] at hentry
    split at hentry
    . next heq =>
      rw [Option.some.injEq] at hentry
      rw [← hentry, heq]
      exact ⟨rfl, hfd, _, List.mem_append_right _ (List.mem_singleton_self _), rfl, rfl⟩
    . rcases h.entries sid state hentry with ⟨hclosing, hpos, d, hd, hrest⟩
      exact ⟨hclosing, hpos, d, List.mem_append_left _ hd, hrest⟩
  . intro f key hf
    rw [keys_register] at hf
    split at hf
    . next heq =>
      rw [Option.some.injEq] at hf
      rw [← hf, heq]
      refine ⟨Nat.lt_succ_self _, ?_⟩
      intro _
      left
      exact ⟨_, List.mem_append_right _ (List.mem_singleton_self _), rfl, rfl⟩
    . next hne =>
      refine ⟨Nat.lt_succ_of_lt (h.keys f key hf).1, ?_⟩
      intro htype
      rcases (h.keys f key hf).2 htype with ⟨d, hd, hrest⟩ | ⟨herror, hnot⟩
      . exact .inl ⟨d, List.mem_append_left _ hd, hrest⟩
      . right
        refine ⟨herror, ?_⟩
        intro d hd
        rw [List.mem_append, List.mem_singleton] at hd
        rcases hd with hd | rfl
        . apply hnot d hd
        . apply Ne.symm hne
  . intro f key handle hf htype hout
    rw [keys_register] at hf
    split at hf
    . rw [Option.some.injEq] at hf
      rw [← hf] at hout
      simp at hout
    . apply h.outcomes f key handle hf htype hout

theorem Numbered.erased (h : Numbered t draws) (sid : SocketT) (closed : List Int32)
    : Numbered { t with sockets := Function.update t.sockets sid none, closed := closed } draws := by
  refine ⟨h.inserted, h.called, h.frames_once, ?_, h.keys, h.outcomes⟩
  intro sid' state hentry
  have hentry : Function.update t.sockets sid none sid' = some state := hentry
  rw [Function.update_apply] at hentry
  split at hentry
  . simp at hentry
  . apply h.entries sid' state hentry

theorem Numbered.setKey (h : Numbered t draws) {outcome : Outcome}
    (hf : t.keys f = some ⟨args, sid, none⟩)
    (hout : args.type = .connect → ∀ handle, outcome = .socket handle → handle = sid)
    : Numbered (t.setKey f ⟨args, sid, some outcome⟩) draws := by
  refine ⟨h.inserted, ?_, h.frames_once, h.entries, ?_, ?_⟩
  . intro d hd
    rcases h.called d hd with ⟨key, hkey, htype, hsocket⟩
    rw [keys_setKey]
    split
    . next heq =>
      rw [heq, hf, Option.some.injEq] at hkey
      rw [← hkey] at htype hsocket
      exact ⟨_, rfl, htype, hsocket⟩
    . exact ⟨key, hkey, htype, hsocket⟩
  . intro g key hg
    rw [keys_setKey] at hg
    split at hg
    . next heq =>
      rw [Option.some.injEq] at hg
      rw [← hg, heq]
      refine ⟨(h.keys f _ hf).1, ?_⟩
      intro htype
      rcases (h.keys f _ hf).2 htype with hdrawn | ⟨⟨error, herror⟩, _⟩
      . exact .inl hdrawn
      . simp at herror
    . apply h.keys g key hg
  . intro g key handle hg htype hkey
    rw [keys_setKey] at hg
    split at hg
    . rw [Option.some.injEq] at hg
      rw [← hg] at htype hkey ⊢
      rw [Option.some.injEq] at hkey
      apply hout htype handle hkey
    . apply h.outcomes g key handle hg htype hkey

theorem Numbered.finish (h : Numbered t draws) (hf : t.keys f = some ⟨args, sid, none⟩)
    (hfin : Finish t f args sid t')
    : Numbered t' draws := by
  cases hfin with
  | keeps _ hsocket =>
    apply h.setKey hf
    intro htype handle hout
    rw [hsocket htype, Outcome.socket.injEq] at hout
    exact hout.symm
  | erases _ hsocket =>
    have herased := h.erased sid (t.closed ++ released (t.sockets sid))
    apply herased.setKey hf
    intro _ handle hout
    apply hsocket handle hout

theorem Numbered.step {op : Op} (h : Numbered t draws) (hcounted : Counted t draws)
    (hstep : Step t op t') (hlt : (draws ++ drawn t op).length < 2 ^ 32)
    : Numbered t' (draws ++ drawn t op) := by
  cases hstep with
  | connect_refused hfd =>
    rw [drawn_refused hfd, List.append_nil]
    apply h.call
    exact .inr ⟨_, rfl⟩
  | connect_suspended hfd =>
    rw [drawn_connect hfd] at hlt ⊢
    rw [List.length_append] at hlt
    apply h.register _ hfd (h.sockets_next hcounted hlt)
  | @connect_finished address fd env _ hfd hfin =>
    rw [drawn_connect hfd] at hlt ⊢
    rw [List.length_append] at hlt
    have hreg := h.register address hfd (h.sockets_next hcounted hlt)
    apply hreg.finish _ hfin
    apply Function.update_self _ _ _
  | called hop htype =>
    rw [drawn_eq_nil hop, List.append_nil]
    apply h.call (.inl htype)
  | closed =>
    unfold drawn
    rw [List.append_nil]
    apply h.erased
  | completed hf hfin =>
    unfold drawn
    rw [List.append_nil]
    apply h.finish hf hfin
  | _ =>
    unfold drawn
    rw [List.append_nil]
    exact h

end Table

def IOUringProactor.Op.opens : IOUringProactor.Op → Bool
  | .connect _ fd _ => fd ≥ 0
  | _ => false

namespace Ledger

open IOUringProactor (Op)
open Table (Counted Numbered)
open Transition

variable {l l' : Ledger} {op : Op} {o : Option Outcome} {result : Int32}
  {trace : List (Op × Option Outcome)}

def opened (trace : List (Op × Option Outcome)) : Nat :=
  trace.countP fun entry => entry.1.opens

def table (l : Ledger) : Table :=
  l.proactor.table

theorem step_cases (hstep : l.step op = some (l', o))
    : Table.Step l.table op l'.table ∧ l'.draws = l.draws ++ drawn l.table op := by
  unfold step at hstep
  rw [Option.map_eq_some_iff] at hstep
  rcases hstep with ⟨⟨p, o'⟩, hp, heq⟩
  cases heq
  exact ⟨IOUringProactor.table_step hp, rfl⟩

theorem length_drawn (t : Table) (op : Op) : (drawn t op).length = if op.opens then 1 else 0 := by
  cases op with
  | connect address fd env =>
    unfold IOUringProactor.Op.opens
    by_cases hfd : fd < 0
    . rw [Table.drawn_refused hfd, if_neg]
      . rfl
      . simpa using hfd
    . rw [Table.drawn_connect hfd, if_pos]
      . rfl
      . simpa using hfd
  | _ => rfl

theorem length_draws (hrun : Run (ofStep step) (init result) trace l)
    : l.draws.length = opened trace := by
  induction hrun with
  | nil => rfl
  | snoc _ hstep ih =>
    rw [(step_cases hstep).2, List.length_append, length_drawn, ih]
    unfold opened
    rw [List.countP_append, List.countP_singleton]

theorem counted (hrun : Run (ofStep step) (init result) trace l) : Counted l.table l.draws := by
  apply hrun.invariant
  . exact ⟨rfl, by simp [init]⟩
  . intro l₁ op o l₂ hcounted hstep
    rcases step_cases hstep with ⟨htable, hdraws⟩
    rw [hdraws]
    apply hcounted.step htable

theorem numbered (hrun : Run (ofStep step) (init result) trace l) (hlen : l.draws.length < 2 ^ 32)
    : Numbered l.table l.draws := by
  induction hrun with
  | nil => constructor <;> simp [init, table, IOUringProactor.table, IOUringProactor.ofEntries]
  | snoc hrun hstep ih =>
    rcases step_cases hstep with ⟨htable, hdraws⟩
    rw [hdraws] at hlen ⊢
    have hshort := hlen
    rw [List.length_append] at hshort
    apply (ih (by omega)).step (counted hrun) htable hlen

theorem fresh_of_numbered (h : Numbered l.table l.draws) (hcounted : Counted l.table l.draws)
    (hlen : l.draws.length < 2 ^ 32)
    : l.Fresh := by
  constructor
  . intro d hd
    exact ⟨hcounted.handle_ne hlen hd, h.inserted d hd⟩
  . intro d hd handle hout state hentry
    rcases h.called d hd with ⟨key, hkey, htype, hsocket⟩
    have hkeys : l.table.keys d.frame = (l.proactor.calls d.frame).map IOUring.Call.key := rfl
    rw [hkeys, Option.map_eq_some_iff] at hkey
    rcases hkey with ⟨call, hcall, rfl⟩
    have hhandle : handle = d.handle := by
      rw [← hsocket]
      apply h.outcomes d.frame call.key handle _ htype
      . unfold outcome at hout
        rw [hcall] at hout
        exact hout
      . rw [hkeys, hcall]
        rfl
    rcases h.entries handle state hentry with ⟨_, _, d', hd', hsame, hfd⟩
    rw [hhandle] at hsame
    rw [← hfd, hcounted.handle_inj hlen hd' hd hsame]

theorem handle_zero (hcounted : Counted l.table l.draws) (hlen : ¬ l.draws.length < 2 ^ 32)
    : ∃ d ∈ l.draws, d.handle = 0 := by
  have hlt : 2 ^ 32 - 1 < l.draws.length := by omega
  refine ⟨l.draws[2 ^ 32 - 1], List.getElem_mem hlt, ?_⟩
  rw [hcounted.handles (2 ^ 32 - 1) _ (List.getElem?_eq_getElem hlt)]
  rfl

theorem fresh_iff_opened_lt (hrun : Run (ofStep step) (init result) trace l)
    : l.Fresh ↔ opened trace < 2 ^ 32 := by
  rw [← length_draws hrun]
  constructor
  . intro hfresh
    by_contra hlen
    rcases handle_zero (counted hrun) hlen with ⟨d, hd, hzero⟩
    exact (hfresh.new d hd).1 hzero
  . intro hlen
    apply fresh_of_numbered (numbered hrun hlen) (counted hrun) hlen

def loopback : InternalAddress :=
  ⟨.v4 #v[127, 0, 0, 1], 80⟩

def accepted : IOUringProactor.Env :=
  ⟨0, some 0, some 0, 1⟩

theorem fresh_of_open_and_refused
    : ∃ trace l, Run (ofStep step) (init 0) trace l ∧ opened trace = 2 ∧ l.Fresh
        ∧ l.outcome 0 = some (.socket 1) ∧ l.table.sockets 1 = some ⟨3, false⟩ := by
  let ops : List Op := [.connect loopback 3 accepted, .handleCqe 0 0, .connect loopback 4 accepted,
    .handleCqe 0 (-111)]
  have hexec : ((exec step (init 0) ops).map fun r => (r.2, r.1.outcome 0, r.1.table.sockets 1))
      = some ([none, none, none, none], some (.socket 1), some ⟨3, false⟩) := by decide
  rcases Option.map_eq_some_iff.mp hexec with ⟨⟨l, outs⟩, hexec, heq⟩
  simp only [Prod.mk.injEq] at heq
  rcases heq with ⟨houts, hout, hentry⟩
  have hrun := run_of_exec hexec
  have hopened : opened (ops.zip outs) = 2 := by
    rw [houts]
    rfl
  refine ⟨_, l, hrun, hopened, ?_, hout, hentry⟩
  rw [fresh_iff_opened_lt hrun, hopened]
  decide

structure Idle (s : IOUringProactor) : Prop where
  queued : s.queued = []
  inFlight : s.inFlight = []
  opdata : ∀ cell ∈ s.opdata 0, cell.live = false

structure Waits (s : IOUringProactor) (sid : SocketT) : Prop where
  queued : s.queued = []
  inFlight : ∃ request origin, s.inFlight = [⟨⟨request, some 0⟩, origin⟩]
  call : ∃ f call, s.opdata 0 = some ⟨⟨.connect, sid, f, f⟩, true⟩ ∧ s.calls f = some call
    ∧ call.args = .connect loopback ∧ call.socket = sid ∧ call.outcome = none

theorem suspendOn_accepted {s : IOUringProactor} (hqueued : s.queued = []) (hinFlight : s.inFlight = [])
    (f : Frame) (call : IOUring.Call) (error : ErrorCode) (request : IOUring.Request)
    : s.suspendOn f call error request accepted
        =
      { s with
        slots := Function.update s.slots 0 ⟨request, some 0⟩
        inFlight := [⟨⟨request, some 0⟩, some f⟩]
        opdata := Function.update s.opdata 0 (some ⟨⟨call.args.type, call.socket, f, f⟩, true⟩)
        calls := Function.update s.calls f (some { call with operation := some 0 })
      } := by
  unfold IOUringProactor.suspendOn accepted
  dsimp only
  rw [if_neg (by decide), IOUringProactor.submit_ok (by decide)]
  unfold IOUringProactor.setCall IOUringProactor.prep IOUringProactor.allocOpdata IOUringProactor.getSqe
  dsimp only
  rw [hqueued, hinFlight, List.nil_append, List.nil_append, List.map_singleton, Function.update_self]

theorem Idle.connect {s : IOUringProactor} (h : Idle s) {fd : Int32} (hfd : ¬ fd < 0)
    : Waits (s.connect loopback fd accepted) s.nextHandleId
        ∧ (s.connect loopback fd accepted).sockets
            = Function.update s.sockets s.nextHandleId (some ((s.sockets s.nextHandleId).getD ⟨fd, false⟩))
        ∧ (s.connect loopback fd accepted).closed = s.closed := by
  unfold IOUringProactor.connect IOUringProactor.newFrame
  dsimp only
  rw [if_neg hfd]
  generalize hs₀ : ({ s with nextFrame := s.nextFrame + 1, nextHandleId := s.nextHandleId + 1 }
    : IOUringProactor) = s₀
  generalize hs₁ : s₀.emplaceSocket s.nextHandleId ⟨fd, false⟩ = s₁
  have hsame := IOUringProactor.sameCalls_emplaceSocket s₀ s.nextHandleId ⟨fd, false⟩
  have htable := IOUringProactor.table_emplaceSocket s₀ s.nextHandleId ⟨fd, false⟩
  rw [hs₁] at hsame htable
  have hsockets : s₁.sockets
      = Function.update s.sockets s.nextHandleId (some ((s.sockets s.nextHandleId).getD ⟨fd, false⟩)) := by
    rw [← hs₀] at htable
    apply congrArg Table.sockets htable
  have hclosed : s₁.closed = s.closed := by
    rw [← hs₀] at htable
    apply congrArg Table.closed htable
  have hqueued : s₁.queued = [] := by
    rw [hsame.queued, ← hs₀, h.queued]
  have hinFlight : s₁.inFlight = [] := by
    rw [hsame.inFlight, ← hs₀, h.inFlight]
  unfold IOUring.ConnectAwaiter.awaitSuspend IOUring.Call.init
  dsimp only
  rw [hsockets, Function.update_self]
  dsimp only
  rw [suspendOn_accepted hqueued hinFlight]
  refine ⟨⟨hqueued, ⟨_, _, rfl⟩, s.nextFrame,
    ⟨.connect loopback, s.nextHandleId, .default, 0, some 0, none⟩, ?_, ?_, rfl, rfl, rfl⟩, hsockets, hclosed⟩
  . dsimp only
    rw [Function.update_self]
    rfl
  . dsimp only
    rw [Function.update_self]

theorem table_resume_error {s : IOUringProactor} {f : Frame} {call : IOUring.Call}
    {address : InternalAddress} (hcall : s.calls f = some call) (hargs : call.args = .connect address)
    (hout : call.outcome = none) (herror : call.error.toBool = true)
    : (s.resume f).table = (s.table.erase call.socket).setKey f
        ⟨call.args, call.socket, some (.unexpected call.error)⟩ := by
  unfold IOUringProactor.resume
  dsimp only
  rw [hcall]
  dsimp only
  rw [hout, if_neg (by simp)]
  unfold IOUringProactor.proceed
  rw [hargs]
  dsimp only
  unfold IOUringProactor.connectReturn IOUring.ConnectAwaiter.awaitResume
  rw [if_pos herror]
  dsimp only
  rw [IOUringProactor.table_finish, IOUringProactor.table_cleanup, hargs]
  rfl

theorem Waits.fail {s : IOUringProactor} {sid : SocketT} (h : Waits s sid) {result : Int32}
    (hresult : result < 0)
    : ∃ s', s.step (.handleCqe 0 result) = some (s', none) ∧ Idle s'
        ∧ s'.sockets = (s.table.erase sid).sockets ∧ s'.closed = (s.table.erase sid).closed
        ∧ s'.nextHandleId = s.nextHandleId := by
  rcases h.inFlight with ⟨request, origin, hinFlight⟩
  rcases h.call with ⟨f, call, hopdata, hcall, hargs, hsocket, hout⟩
  generalize hs₁ : ({ s with inFlight := [], handled := s.handled ++
    [⟨origin, request, result, some ⟨⟨.connect, sid, f, f⟩, true⟩⟩] } : IOUringProactor) = s₁
  have hcall₁ : s₁.calls f = some call := by
    rw [← hs₁]
    exact hcall
  have hopdata₁ : (s₁.setCall f (call.onComplete f result)).opdata 0
      = some ⟨⟨.connect, sid, f, f⟩, true⟩ := by
    rw [← hs₁]
    exact hopdata
  generalize hs₂ : (s₁.setCall f (call.onComplete f result)).freeOpdata 0 = s₂
  have htable : s₂.table = s.table := by
    rw [← hs₂, IOUringProactor.table_freeOpdata, IOUringProactor.table_setCall_same hcall₁, ← hs₁]
    . rfl
    . apply IOUringProactor.key_onComplete
  rw [IOUringProactor.freeOpdata_eq hopdata₁] at hs₂
  have hcall₂ : s₂.calls f = some (call.onComplete f result) := by
    rw [← hs₂]
    apply Function.update_self
  have hargs₂ : (call.onComplete f result).args = .connect loopback := by
    rw [IOUring.Call.args_onComplete, hargs]
  have hout₂ : (call.onComplete f result).outcome = none := by
    rw [IOUring.Call.outcome_onComplete, hout]
  have herror : (call.onComplete f result).error.toBool = true := by
    unfold IOUring.Call.onComplete
    rw [hargs]
    dsimp only
    unfold IOUring.ConnectAwaiter.onComplete
    rw [if_pos hresult]
    apply ErrorCode.toBool_networkError_neg hresult
  have hfin := IOUringProactor.resume_spec hcall₂ hout₂
  have hend := table_resume_error hcall₂ hargs₂ hout₂ herror
  rw [htable, IOUringProactor.socket_onComplete, hsocket] at hend
  refine ⟨s₂.resume f, ?_, ⟨?_, ?_, ?_⟩, ?_, ?_, ?_⟩
  . unfold IOUringProactor.step
    dsimp only
    rw [hinFlight]
    dsimp only [List.getElem?_cons_zero, List.eraseIdx_cons_zero]
    unfold IOUringProactor.handleCqe
    dsimp only
    rw [hopdata]
    dsimp only [IOUringProactor.logHandled]
    rw [← hs₂, ← IOUringProactor.freeOpdata_eq hopdata₁, ← IOUringProactor.completeOn_eq hcall₁, ← hs₁]
    rfl
  . rw [hfin.queued, ← hs₂, ← hs₁]
    exact h.queued
  . rw [hfin.inFlight, ← hs₂, ← hs₁]
    rfl
  . intro cell hcell
    rw [hfin.opdata, ← hs₂] at hcell
    dsimp only at hcell
    rw [Function.update_self, Option.mem_some_iff] at hcell
    rw [← hcell]
  . apply congrArg Table.sockets hend
  . apply congrArg Table.closed hend
  . apply congrArg Table.nextHandleId hend

theorem run_refused (h : Idle l.proactor) {fd result : Int32} (hfd : ¬ fd < 0) (hresult : result < 0)
    : ∃ steps l', Run (ofStep step) l steps l' ∧ Idle l'.proactor
        ∧ l'.draws = l.draws ++ drawn l.table (.connect loopback fd accepted)
        ∧ l'.table.sockets = Function.update l.table.sockets l.table.nextHandleId none
        ∧ l'.table.closed = l.table.closed
            ++ Table.released (some ((l.table.sockets l.table.nextHandleId).getD ⟨fd, false⟩)) := by
  rcases h.connect hfd with ⟨hwaits, hsockets, hclosed⟩
  rcases hwaits.fail hresult with ⟨p, hstep, hidle, hsockets', hclosed', _⟩
  have hoffers : l.proactor.Offers (some 0) (some 0) := by
    constructor
    . intro slot _ e he
      rw [h.queued] at he
      simp at he
    . intro a ha cell hcell
      rw [Option.mem_some_iff] at ha
      rw [← ha] at hcell
      apply h.opdata cell hcell
  have hconnect : ∃ o, l.step (.connect loopback fd accepted) = some
      (⟨l.proactor.connect loopback fd accepted, l.draws ++ drawn l.table (.connect loopback fd accepted)⟩,
        o) := by
    unfold step IOUringProactor.step IOUringProactor.called
    dsimp only
    rw [if_pos]
    . exact ⟨_, rfl⟩
    . exact hoffers
  rcases hconnect with ⟨o, hconnect⟩
  have hcompleted : step ⟨l.proactor.connect loopback fd accepted,
      l.draws ++ drawn l.table (.connect loopback fd accepted)⟩ (.handleCqe 0 result)
      = some (⟨p, (l.draws ++ drawn l.table (.connect loopback fd accepted)) ++ []⟩, none) := by
    unfold step
    dsimp only
    rw [hstep]
    rfl
  refine ⟨_, _, .snoc (.snoc .nil hconnect) hcompleted, hidle, List.append_nil _, ?_, ?_⟩
  . have herase : ((l.proactor.connect loopback fd accepted).table.erase l.proactor.nextHandleId).sockets
        = Function.update (l.proactor.connect loopback fd accepted).sockets l.proactor.nextHandleId none :=
      rfl
    rw [herase, hsockets, Function.update_idem] at hsockets'
    exact hsockets'
  . have herase : ((l.proactor.connect loopback fd accepted).table.erase l.proactor.nextHandleId).closed
        = (l.proactor.connect loopback fd accepted).closed ++ Table.released
          ((l.proactor.connect loopback fd accepted).sockets l.proactor.nextHandleId) := rfl
    rw [herase, hclosed, hsockets, Function.update_self] at hclosed'
    exact hclosed'

theorem run_refused_many (n : Nat) (hn : n < 2 ^ 32)
    : ∃ trace l, Run (ofStep step) (init 0) trace l ∧ Idle l.proactor ∧ l.draws.length = n + 1
        ∧ l.draws[0]? = some ⟨0, 1, 3, true⟩ ∧ l.table.sockets 1 = some ⟨3, false⟩ := by
  induction n with
  | zero =>
    have hexec : ((exec step (init 0) [.connect loopback 3 accepted, .handleCqe 0 0]).map fun r =>
        (r.1.draws, r.1.table.sockets 1, r.1.proactor.queued.length, r.1.proactor.inFlight.length,
          r.1.proactor.opdata 0))
        = some ([⟨0, 1, 3, true⟩], some ⟨3, false⟩, 0, 0, some ⟨⟨.connect, 1, 0, 0⟩, false⟩) := by
      decide
    rcases Option.map_eq_some_iff.mp hexec with ⟨⟨l, outs⟩, hexec, heq⟩
    simp only [Prod.mk.injEq] at heq
    rcases heq with ⟨hdraws, hentry, hqueued, hinFlight, hopdata⟩
    refine ⟨_, l, run_of_exec hexec, ⟨?_, ?_, ?_⟩, ?_, ?_, hentry⟩
    . apply List.eq_nil_of_length_eq_zero hqueued
    . apply List.eq_nil_of_length_eq_zero hinFlight
    . rw [hopdata]
      simp
    . rw [hdraws]
      rfl
    . rw [hdraws]
      rfl
  | succ n ih =>
    rcases ih (by omega) with ⟨trace, l, hrun, hidle, hlen, hfirst, hentry⟩
    have hnext : l.table.nextHandleId ≠ 1 := by
      rw [(counted hrun).next, hlen]
      intro heq
      have := congrArg UInt32.toNat heq
      rw [UInt32.toNat_ofNat'] at this
      have hone : (1 : UInt32).toNat = 1 := rfl
      omega
    -- the loopback answers with `ECONNREFUSED`
    rcases run_refused hidle (by decide : ¬ (4 : Int32) < 0) (by decide : (-111 : Int32) < 0)
      with ⟨steps, l', hsteps, hidle', hdraws, hsockets, _⟩
    rw [Table.drawn_connect (by decide)] at hdraws
    refine ⟨_, l', hrun.append hsteps, hidle', ?_, ?_, ?_⟩
    . rw [hdraws, List.length_append, hlen]
      rfl
    . rw [hdraws, List.getElem?_append_left (by omega)]
      exact hfirst
    . rw [hsockets, Function.update_of_ne hnext.symm]
      exact hentry

/--
After `2 ^ 32` draws the handle `1` comes again while the first connection is still open, and the failure
of the new connect, which is that the descriptor is connected already, closes the old connection.
-/
theorem not_fresh_after_wrap
    : ∃ trace l, Run (ofStep step) (init 0) trace l ∧ ¬ l.Fresh
        ∧ l.draws[0]? = some ⟨0, 1, 3, true⟩
        ∧ (∃ d ∈ l.draws, d.handle = 0)
        ∧ (∃ d ∈ l.draws, d.handle = 1 ∧ d.fd = 4 ∧ d.inserted = false)
        ∧ 3 ∈ l.proactor.closed := by
  rcases run_refused_many (2 ^ 32 - 1) (by omega) with ⟨trace, l, hrun, hidle, hlen, hfirst, hentry⟩
  have hnext : l.table.nextHandleId = 1 := by
    rw [(counted hrun).next, hlen]
    rfl
  rcases run_refused hidle (by decide : ¬ (4 : Int32) < 0) (by decide : (-106 : Int32) < 0)
    with ⟨steps, l', hsteps, _, hdraws, _, hclosed⟩
  rw [Table.drawn_connect (by decide), hnext, hentry] at hdraws
  rw [hnext, hentry] at hclosed
  have hlast : (⟨l.table.nextFrame, 1, 4, false⟩ : Draw) ∈ l'.draws := by
    rw [hdraws]
    apply List.mem_append_right _ (List.mem_singleton_self _)
  refine ⟨_, l', hrun.append hsteps, ?_, ?_, ?_, ⟨_, hlast, rfl, rfl, rfl⟩, ?_⟩
  . intro hfresh
    simpa using (hfresh.new _ hlast).2
  . rw [hdraws, List.getElem?_append_left (by omega)]
    exact hfirst
  . rcases handle_zero (counted hrun) (by omega) with ⟨d, hd, hzero⟩
    refine ⟨d, ?_, hzero⟩
    rw [hdraws]
    apply List.mem_append_left _ hd
  . have hmem : (3 : Int32) ∈ l'.table.closed := by
      rw [hclosed]
      apply List.mem_append_right
      apply List.mem_singleton_self _
    exact hmem

end Ledger

end Net

end Sfap
