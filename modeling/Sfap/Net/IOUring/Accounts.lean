import Sfap.Net.IOUring.Pending

/-!
This module contains the accounts of what the proactor waits for: the suspended calls, the `OperationData`
that are allocated and the entries in flight that carry a pointer are the same in number and in kind.
-/

namespace Sfap

namespace Net

open IOUring

namespace IOUringProactor

def waiting (s : IOUringProactor) : List Frame :=
  s.inFlight.filterMap fun e => e.sqe.userData.bind fun _ => e.origin

def pointers (s : IOUringProactor) : List Addr :=
  s.inFlight.filterMap (·.sqe.userData)

structure Balanced (s : IOUringProactor) : Prop extends Inv s where
  pending : ∀ f call, s.calls f = some call → call.outcome = none → ∃ request, Pending s f call request
  live : ∀ a cell, s.opdata a = some cell → cell.live = true → ∃ e ∈ s.inFlight, e.sqe.userData = some a

structure Covers (s s' : IOUringProactor) : Prop where
  inFlight : s.inFlight ⊆ s'.inFlight
  live : ∀ a cell, s'.opdata a = some cell → cell.live = true →
    s.opdata a = some cell ∨ ∃ e ∈ s'.inFlight, e.sqe.userData = some a

variable {s s' s'' : IOUringProactor} {f : Frame} {a : Addr} {call : Call} {env : Env}

theorem Covers.of_eq (hin : s'.inFlight = s.inFlight) (hopdata : s'.opdata = s.opdata) : Covers s s' := by
  constructor
  . rw [hin]
    apply List.Subset.refl
  . intro a cell hcell _
    rw [hopdata] at hcell
    exact .inl hcell

theorem Covers.trans (h : Covers s s') (h' : Covers s' s'') : Covers s s'' := by
  constructor
  . apply List.Subset.trans h.inFlight h'.inFlight
  . intro a cell hcell hlive
    rcases h'.live a cell hcell hlive with hcell | hin
    . rcases h.live a cell hcell hlive with hcell | ⟨e, he, ha⟩
      . exact .inl hcell
      . exact .inr ⟨e, h'.inFlight he, ha⟩
    . exact .inr hin

theorem covers_exitWith (s : IOUringProactor) (f : Frame) (hout : call.outcome = none) (error : ErrorCode)
    : Covers s (s.exitWith f call error) := by
  have hexit := exitWith_spec s f call error hout
  apply Covers.of_eq hexit.inFlight hexit.opdata

theorem covers_freeOpdata (hin : s'.inFlight = s.inFlight) {cell : Cell}
    (hopdata : s'.opdata = Function.update s.opdata a (some cell))
    : Covers s (s'.freeOpdata a) := by
  have hcell : s'.opdata a = some cell := by
    rw [hopdata]
    apply Function.update_self
  rw [freeOpdata_eq hcell]
  constructor
  . dsimp only
    rw [hin]
    apply List.Subset.refl
  . intro a' cell' hcell' hlive
    dsimp only at hcell'
    by_cases heq : a' = a
    . rw [heq, Function.update_self] at hcell'
      cases hcell'
      simp at hlive
    . rw [Function.update_of_ne heq, hopdata, Function.update_of_ne heq] at hcell'
      exact .inl hcell'

theorem covers_submit {request : Request} {result : Int32} (hok : ¬ result < 0) {cell : Cell}
    (hopdata : s'.opdata = Function.update s.opdata a (some cell)) (hin : s'.inFlight = s.inFlight)
    (hslot : ∃ e ∈ s'.queued, s'.slots e.slot = ⟨request, some a⟩)
    : Covers s (s'.submit result) := by
  rw [submit_ok hok]
  constructor
  . dsimp only
    rw [hin]
    apply List.subset_append_left
  . intro a' cell' hcell' _
    dsimp only at hcell' ⊢
    by_cases heq : a' = a
    . rcases hslot with ⟨e, he, hsqe⟩
      refine .inr ⟨⟨s'.slots e.slot, e.origin⟩, ?_, ?_⟩
      . rw [List.mem_append, List.mem_map]
        exact .inr ⟨e, he, rfl⟩
      . rw [hsqe, heq]
    . rw [hopdata, Function.update_of_ne heq] at hcell'
      exact .inl hcell'

theorem covers_suspendOn (s : IOUringProactor) (f : Frame) (hout : call.outcome = none)
    (noSqe : ErrorCode) (request : Request) (env : Env)
    : Covers s (s.suspendOn f call noSqe request env) := by
  unfold suspendOn
  split
  . apply covers_exitWith s f hout
  . next slot _ =>
    dsimp only
    split
    . have hget : Covers s (s.getSqe slot (some f)) := .of_eq rfl rfl
      apply hget.trans
      apply covers_exitWith _ f hout
    . next a _ =>
      generalize hs₁ : ((s.getSqe slot (some f)).allocOpdata a ⟨call.args.type, call.socket, f, f⟩).prep
        slot request (some a) = s₁
      have hopdata : s₁.opdata = Function.update s.opdata a (some ⟨⟨call.args.type, call.socket, f, f⟩, true⟩) := by
        rw [← hs₁]
        rfl
      have hin : s₁.inFlight = s.inFlight := by
        rw [← hs₁]
        rfl
      split
      . next hfail =>
        rw [submit_fail hfail]
        apply (covers_freeOpdata hin hopdata).trans
        apply covers_exitWith
        exact hout
      . next hok =>
        have hcovers : Covers s (s₁.submit env.submit) := by
          apply covers_submit hok hopdata hin
          refine ⟨⟨slot, some f⟩, ?_, ?_⟩
          . rw [← hs₁]
            unfold prep allocOpdata getSqe
            simp
          . rw [← hs₁]
            apply Function.update_self
        apply hcovers.trans
        exact .of_eq rfl rfl

theorem covers_newFrame (s : IOUringProactor) : Covers s s.newFrame.2 :=
  .of_eq rfl rfl

theorem covers_transfer (s : IOUringProactor) (f : Frame) (hout : call.outcome = none) (data : ByteSpan)
    (request : Int32 → Request) (env : Env)
    : Covers s (TransferAwaiter.awaitSuspend s f call data request env) := by
  unfold TransferAwaiter.awaitSuspend
  split
  . apply covers_exitWith s f hout
  . split
    . apply covers_exitWith s f hout
    . apply covers_suspendOn s f hout

theorem covers_connect (s : IOUringProactor) (address : InternalAddress) (fd : Int32) (env : Env)
    : Covers s (s.connect address fd env) := by
  unfold connect
  dsimp only
  apply (covers_newFrame s).trans
  split
  . exact .of_eq rfl rfl
  . have hsame := sameCalls_emplaceSocket
      { s.newFrame.2 with nextHandleId := s.newFrame.2.nextHandleId + 1 } s.newFrame.2.nextHandleId ⟨fd, false⟩
    have hemplace : Covers s.newFrame.2 _ := .of_eq hsame.inFlight hsame.opdata
    apply hemplace.trans
    unfold ConnectAwaiter.awaitSuspend
    split
    . apply covers_exitWith
      rfl
    . apply covers_suspendOn
      rfl

theorem covers_sleepFor (s : IOUringProactor) (d : Int64) (env : Env) : Covers s (s.sleepFor d env) := by
  unfold sleepFor
  dsimp only
  apply (covers_newFrame s).trans
  split
  . exact .of_eq rfl rfl
  . apply covers_suspendOn
    rfl

theorem covers_socketSend (s : IOUringProactor) (sid : SocketT) (data : ByteSpan) (env : Env)
    : Covers s (s.socketSend sid data env) := by
  unfold socketSend
  dsimp only
  apply (covers_newFrame s).trans
  split
  . exact .of_eq rfl rfl
  . apply covers_transfer
    rfl

theorem covers_socketRecv (s : IOUringProactor) (sid : SocketT) (data : ByteSpan) (env : Env)
    : Covers s (s.socketRecv sid data env) := by
  unfold socketRecv
  dsimp only
  apply (covers_newFrame s).trans
  split
  . exact .of_eq rfl rfl
  . apply covers_transfer
    rfl

theorem Balanced.called {args : Args} {informed : Prop} (h : Balanced s)
    (hcalled : Called s args informed s') (hforwards : Forwards s s') (hcovers : Covers s s')
    : Balanced s' := by
  refine ⟨h.toInv.called hcalled, ?_, ?_⟩
  . intro f call hcall hout
    by_cases heq : f = s.nextFrame
    . cases hcalled with
      | returns hs₀ hends _ _ _ =>
        have hsome := hends.outcome
        rw [hends.calls, heq, Function.update_self] at hcall
        cases hcall
        rw [hout] at hsome
        simp at hsome
      | @suspends s₀ call₀ a request hs₀ hl hargs hout₀ hop hreq _ =>
        rw [hl.calls, heq, Function.update_self] at hcall
        cases hcall
        rw [heq]
        rw [← hargs] at hreq
        exact ⟨request, hl.pending hout₀ hop hreq⟩
    . rw [hcalled.calls_eq heq] at hcall
      rcases h.pending f call hcall hout with ⟨request, hp⟩
      exact ⟨request, hp.called h.toInv hcalled hforwards⟩
  . intro a cell hcell hlive
    rcases hcovers.live a cell hcell hlive with hold | hin
    . rcases h.live a cell hold hlive with ⟨e, he, ha⟩
      exact ⟨e, hcovers.inFlight he, ha⟩
    . exact hin

theorem Balanced.unchanged (h : Balanced s) (hsame : Unchanged s s') : Balanced s' := by
  refine ⟨h.toInv.unchanged hsame, ?_, ?_⟩
  . intro f call hcall hout
    rw [hsame.calls] at hcall
    rcases h.pending f call hcall hout with ⟨request, hp⟩
    exact ⟨request, hp.unchanged hsame⟩
  . intro a cell hcell hlive
    rw [hsame.opdata] at hcell
    rcases h.live a cell hcell hlive with ⟨e, he, ha⟩
    rcases hsame.inFlight with ⟨es, _, hin⟩
    refine ⟨e, ?_, ha⟩
    rw [hin]
    apply List.mem_append_left _ he

theorem opdata_resume (s : IOUringProactor) (f : Frame) : (s.resume f).opdata = s.opdata := by
  unfold resume
  dsimp only
  split
  . rfl
  . next call _ =>
    split
    . rfl
    . rcases proceed_eq { s with resumed := s.resumed ++ [f] } f call with ⟨s₁, hsame, heq⟩
      rw [heq]
      exact hsame.opdata

theorem opdata_completeOn (s : IOUringProactor) (f : Frame) (result : Int32)
    : (s.completeOn f result).opdata = s.opdata := by
  unfold completeOn
  split <;> rfl

theorem opdata_handleCqe {cqe : InFlight} {result : Int32} {cell : Cell}
    (hstep : s.handleCqe cqe result = some s') (ha : cqe.sqe.userData = some a) (hcell : s.opdata a = some cell)
    : s'.opdata = Function.update s.opdata a (some { cell with live := false }) := by
  unfold handleCqe at hstep
  rw [ha] at hstep
  dsimp only at hstep
  rw [hcell] at hstep
  dsimp only at hstep
  rw [Option.some.injEq] at hstep
  rw [← hstep, opdata_resume]
  generalize hs₁ : (s.logHandled ⟨cqe.origin, cqe.sqe.request, result, some cell⟩).completeOn
    cell.data.awaiter result = s₁
  have hopdata : s₁.opdata = s.opdata := by
    rw [← hs₁]
    apply opdata_completeOn
  rw [← hopdata] at hcell ⊢
  rw [freeOpdata_eq hcell]

theorem Balanced.handleCqe {i : Nat} {cqe : InFlight} {result : Int32} (h : Balanced s)
    (hi : s.inFlight[i]? = some cqe)
    (hstep : { s with inFlight := s.inFlight.eraseIdx i }.handleCqe cqe result = some s')
    : Balanced s' := by
  have hin : s'.inFlight = s.inFlight.eraseIdx i := (sameRing_handleCqe hstep).inFlight
  refine ⟨h.toInv.handleCqe hi hstep, ?_, ?_⟩
  . intro f call hcall hout
    have hold : s.calls f = some call := by
      cases ha : cqe.sqe.userData with
      | none =>
        rw [handleCqe_null ha hstep] at hcall
        exact hcall
      | some a =>
        rcases h.awaits cqe (List.mem_of_getElem? hi) a ha with ⟨f', call', haw⟩
        have hends := (completes_handleCqe h.toInv hi ha haw hstep).ends
        rw [hends.calls] at hcall
        by_cases heq : f = f'
        . rw [heq, Function.update_self] at hcall
          cases hcall
          simp at hout
        . rw [Function.update_of_ne heq] at hcall
          exact hcall
    rcases h.pending f call hold hout with ⟨request, hp⟩
    rcases hp.handleCqe h.toInv hi hstep with hp | ⟨_, _, hdone⟩
    . exact ⟨request, hp⟩
    . rw [hcall, Option.some.injEq] at hdone
      rw [hdone] at hout
      simp at hout
  . intro a cell hcell hlive
    have hold : s.opdata a = some cell ∧ cqe.sqe.userData ≠ some a := by
      cases ha : cqe.sqe.userData with
      | none =>
        rw [handleCqe_null ha hstep] at hcell
        exact ⟨hcell, by simp⟩
      | some a' =>
        rcases h.awaits cqe (List.mem_of_getElem? hi) a' ha with ⟨f', call', haw⟩
        rw [opdata_handleCqe hstep ha haw.cell] at hcell
        by_cases heq : a = a'
        . rw [heq, Function.update_self] at hcell
          cases hcell
          simp at hlive
        . rw [Function.update_of_ne heq] at hcell
          refine ⟨hcell, ?_⟩
          rw [ne_eq, Option.some.injEq]
          exact Ne.symm heq
    rcases h.live a cell hold.1 hlive with ⟨e, he, ha⟩
    rcases mem_eraseIdx_or hi he with rfl | hmem
    . exact absurd ha hold.2
    . exact ⟨e, by rw [hin]; exact hmem, ha⟩

theorem Balanced.step {op : Op} {o : Option Outcome} (h : Balanced s) (hclean : s.Clean op)
    (hstep : s.step op = some (s', o))
    : Balanced s' := by
  have hfresh : s.calls s.nextFrame = none := h.fresh _ (Nat.le_refl _)
  cases op with
  | connect address fd env =>
    rcases called_eq_some hstep with ⟨hoffers, rfl⟩
    apply h.called (called_connect hfresh hoffers hclean) (forwards_connect ..) (covers_connect ..)
  | sleepFor d env =>
    rcases called_eq_some hstep with ⟨hoffers, rfl⟩
    apply h.called (called_sleepFor hfresh hoffers hclean) (forwards_sleepFor ..) (covers_sleepFor ..)
  | socketSend sid data env =>
    rcases called_eq_some hstep with ⟨hoffers, rfl⟩
    apply h.called (called_socketSend hfresh hoffers hclean) (forwards_socketSend ..) (covers_socketSend ..)
  | socketRecv sid data env =>
    rcases called_eq_some hstep with ⟨hoffers, rfl⟩
    apply h.called (called_socketRecv hfresh hoffers hclean) (forwards_socketRecv ..) (covers_socketRecv ..)
  | close handle =>
    cases hstep
    apply h.unchanged (sameCalls_close s handle).unchanged
  | stop sqe result =>
    rcases stop_eq_some hstep with ⟨hoffers, rfl⟩
    apply h.unchanged (unchanged_stop hoffers hclean)
  | handleCqe i result =>
    rcases handleCqe_eq_some hstep with ⟨cqe, hi, hs'⟩
    apply h.handleCqe hi hs'

theorem Balanced.ofEntries (result : Int32) : Balanced (.ofEntries result) := by
  refine ⟨.ofEntries result, ?_, ?_⟩
  . intro f call hcall
    simp [IOUringProactor.ofEntries] at hcall
  . intro a cell hcell
    simp [IOUringProactor.ofEntries] at hcell

theorem run_balanced {result : Int32} {trace : List (Op × Option Outcome)}
    (hrun : Transition.Run (Transition.restrict Clean (Transition.ofStep step)) (.ofEntries result) trace s)
    : Balanced s := by
  apply hrun.invariant (.ofEntries result)
  intro s₁ op o s₂ h hstep
  apply h.step hstep.1 hstep.2

theorem nodup_waiting (h : Inv s) : s.waiting.Nodup := by
  have hdistinct := List.pairwise_filterMap.mp h.distinct
  apply List.pairwise_filterMap.mpr
  apply hdistinct.imp_of_mem
  intro e e' he he' hne f hf f' hf'
  rcases Option.bind_eq_some_iff.mp hf with ⟨a, ha, horigin⟩
  rcases Option.bind_eq_some_iff.mp hf' with ⟨a', ha', horigin'⟩
  rcases h.awaits e he a ha with ⟨g, call, haw⟩
  rcases h.awaits e' he' a' ha' with ⟨g', call', haw'⟩
  rw [haw.origin, Option.some.injEq] at horigin
  rw [haw'.origin, Option.some.injEq] at horigin'
  rw [← horigin, ← horigin']
  apply haw'.others haw
  apply hne a ha a' ha'

theorem mem_waiting (h : Balanced s)
    : f ∈ s.waiting ↔ ∃ call, s.calls f = some call ∧ call.outcome = none := by
  unfold waiting
  rw [List.mem_filterMap]
  constructor
  . rintro ⟨e, he, hf⟩
    rcases Option.bind_eq_some_iff.mp hf with ⟨a, ha, horigin⟩
    rcases h.awaits e he a ha with ⟨g, call, haw⟩
    rw [haw.origin, Option.some.injEq] at horigin
    rw [← horigin]
    exact ⟨call, haw.call_eq, haw.suspended⟩
  . rintro ⟨call, hcall, hout⟩
    rcases h.pending f call hcall hout with ⟨_, e, he, a, ha, _, haw⟩
    refine ⟨e, he, ?_⟩
    rw [ha, Option.bind_some]
    exact haw.origin

theorem mem_pointers (h : Balanced s)
    : a ∈ s.pointers ↔ ∃ cell, s.opdata a = some cell ∧ cell.live = true := by
  unfold pointers
  rw [List.mem_filterMap]
  constructor
  . rintro ⟨e, he, ha⟩
    rcases h.awaits e he a ha with ⟨_, _, haw⟩
    exact ⟨_, haw.cell, rfl⟩
  . rintro ⟨cell, hcell, hlive⟩
    apply h.live a cell hcell hlive

theorem length_waiting (h : Inv s) : s.waiting.length = s.pointers.length := by
  unfold waiting pointers
  rw [List.length_filterMap_eq_countP, List.length_filterMap_eq_countP]
  apply List.countP_congr
  intro e he
  cases ha : e.sqe.userData with
  | none => simp
  | some a =>
    rcases h.awaits e he a ha with ⟨_, _, haw⟩
    simp [haw.origin]

/--
The calls that are suspended, the `OperationData` that have not been freed and the entries in flight that
carry a pointer correspond to each other one to one. In particular nothing in flight means that every call
has returned and that no `OperationData` is left.
-/
theorem nothing_lost {result : Int32} {trace : List (Op × Option Outcome)}
    (hrun : Transition.Run (Transition.restrict Clean (Transition.ofStep step)) (.ofEntries result) trace s)
    : (s.waiting.Nodup ∧ ∀ f, f ∈ s.waiting ↔ ∃ call, s.calls f = some call ∧ call.outcome = none)
        ∧ (s.pointers.Nodup ∧ ∀ a, a ∈ s.pointers ↔ ∃ cell, s.opdata a = some cell ∧ cell.live = true)
        ∧ s.waiting.length = s.pointers.length
        ∧ (s.inFlight = [] → (∀ f call, s.calls f = some call → call.outcome ≠ none)
          ∧ ∀ a cell, s.opdata a = some cell → cell.live = false) := by
  have h := run_balanced hrun
  refine ⟨⟨nodup_waiting h.toInv, fun _ => mem_waiting h⟩, ⟨h.distinct, fun _ => mem_pointers h⟩,
    length_waiting h.toInv, ?_⟩
  intro hnil
  constructor
  . intro f call hcall hout
    have hmem := (mem_waiting h).mpr ⟨call, hcall, hout⟩
    unfold waiting at hmem
    rw [hnil] at hmem
    simp at hmem
  . intro a cell hcell
    by_contra hlive
    rw [Bool.not_eq_false] at hlive
    rcases h.live a cell hcell hlive with ⟨e, he, _⟩
    rw [hnil] at he
    simp at he

-- two calls wait and two have returned, one of them at once for want of memory
theorem nothing_lost_of_two_waiting
    : ∃ trace s,
        Transition.Run (Transition.restrict Clean (Transition.ofStep step)) (.ofEntries 0) trace s
          ∧ s.inFlight.length = 3 ∧ s.waiting = [0, 3] ∧ s.pointers.length = 2
          ∧ ∃ call, s.calls 3 = some call ∧ call.outcome = none := by
  let ops : List Op :=
    [.sleepFor 5 ⟨0, some 0, some 0, 1⟩, .sleepFor 5 ⟨0, some 1, none, 1⟩,
      .sleepFor 5 ⟨0, some 2, some 1, 2⟩, .handleCqe 2 (-62), .sleepFor 5 ⟨0, some 0, some 1, 1⟩]
  have hexec : ((Transition.exec (Transition.guarded Clean step) (.ofEntries 0) ops).map fun r =>
      (r.1.inFlight.length, r.1.waiting)) = some (3, [0, 3]) := by decide
  rcases Option.map_eq_some_iff.mp hexec with ⟨⟨s, outs⟩, hexec, heq⟩
  rw [Prod.mk.injEq] at heq
  have hrun := Transition.run_restrict_of_exec hexec
  rcases nothing_lost hrun with ⟨⟨_, hwaiting⟩, _, hlength, _⟩
  refine ⟨_, s, hrun, heq.1, heq.2, ?_, ?_⟩
  . rw [← hlength, heq.2]
    rfl
  . rw [← hwaiting, heq.2]
    simp

end IOUringProactor

end Net

end Sfap
