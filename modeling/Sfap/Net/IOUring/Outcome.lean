import Sfap.Net.IOUring.Bookkeeping

/-!
This module contains when the operations of the proactor report success only for a completion of their
own.
-/

namespace Sfap

namespace Net

open IOUring

namespace IOUringProactor

-- `ETIME`, what a timeout that has run out completes with
def timedOut : Int32 := -62

def Delivered (s : IOUringProactor) (f : Frame) (type : OperationType) (result : Int32) : Prop :=
  ∃ h ∈ s.handled, h.origin = some f ∧ h.request.type = some type ∧ h.result = result
    ∧ ∃ cell, h.target = some cell ∧ cell.live = true ∧ cell.data.coro = f

def Tells (result : Int32) : Args → Outcome → Prop
  | .connect _, .socket _ => 0 ≤ result
  | .send _, .bytes n => (n.toNat : Int) = result.toInt
  | .recv _, .bytes n => (n.toNat : Int) = result.toInt
  | .sleep _, .status _ => result = timedOut
  | _, _ => False

def Reports (s : IOUringProactor) (f : Frame) (call : Call) : Prop :=
  ∀ outcome, call.outcome = some outcome →
    Idle call.args ∨ IsError outcome
      ∨ ∃ result, Tells result call.args outcome ∧ s.Delivered f call.args.type result

/--
The socket is registered and there is an entry for it where an early exit would leave no error, `errno` is
set where it is taken for the error, and a timeout completes for no other reason than the time.
-/
def Op.Informed (s : IOUringProactor) : Op → Prop
  | .connect _ fd env => ¬ fd < 0 → env.Informed
  | .sleepFor d env => ¬ d ≤ 0 → env.Informed
  | .socketSend sid data env =>
    data.size ≠ 0 → (s.sockets sid).isSome = true ∧ env.sqe.isSome = true
  | .socketRecv sid data env =>
    data.size ≠ 0 → (s.sockets sid).isSome = true ∧ env.sqe.isSome = true
  | .close _ => True
  | .stop .. => True
  | .handleCqe i result =>
    ∀ cqe ∈ s.inFlight[i]?, cqe.sqe.request.type = some .timeout → result = timedOut

instance (env : Env) : Decidable env.Informed := by
  unfold Env.Informed
  infer_instance

instance (s : IOUringProactor) (op : Op) : Decidable (op.Informed s) := by
  cases op <;> unfold Op.Informed <;> infer_instance

def Reliable (s : IOUringProactor) (op : Op) : Prop :=
  s.Clean op ∧ op.Informed s

instance (s : IOUringProactor) (op : Op) : Decidable (s.Reliable op) := by
  unfold Reliable
  infer_instance

variable {s s' : IOUringProactor} {f : Frame} {call : Call}

theorem Delivered.mono {type : OperationType} {result : Int32} (h : s.Delivered f type result)
    (hsub : s.handled ⊆ s'.handled)
    : s'.Delivered f type result := by
  rcases h with ⟨entry, hentry, hrest⟩
  exact ⟨entry, hsub hentry, hrest⟩

theorem Reports.mono (h : s.Reports f call) (hsub : s.handled ⊆ s'.handled) : s'.Reports f call := by
  intro outcome houtcome
  rcases h outcome houtcome with hidle | herror | ⟨result, htells, hdel⟩
  . exact Or.inl hidle
  . exact Or.inr (Or.inl herror)
  . exact Or.inr (Or.inr ⟨result, htells, hdel.mono hsub⟩)

theorem Fails.reports (h : Fails call) : s.Reports f call := by
  rcases h with ⟨outcome, heq, hfails⟩
  intro outcome' houtcome
  rw [heq] at houtcome
  cases houtcome
  rcases hfails with hidle | herror
  . exact Or.inl hidle
  . exact Or.inr (Or.inl herror)

theorem toNat_ofInt {result : Int32} (h : ¬ result < 0)
    : ((UInt64.ofInt result.toInt).toNat : Int) = result.toInt := by
  have hlt := result.toInt_lt
  rw [Int32.lt_iff_toInt_lt, Int.not_lt] at h
  have hle : 0 ≤ result.toInt := h
  unfold UInt64.ofInt
  rw [UInt64.toNat_ofNat']
  omega

theorem transfer_cases (f : Frame) (call : Call) (result : Int32)
    : (TransferAwaiter.onComplete f call result).error.toBool = true
        ∨
      ∃ n : SizeT, (n.toNat : Int) = result.toInt
        ∧ TransferAwaiter.awaitResume (TransferAwaiter.onComplete f call result) = .bytes n := by
  unfold TransferAwaiter.onComplete
  split
  . next hneg =>
    left
    apply ErrorCode.toBool_networkError_neg hneg
  . next hpos =>
    right
    refine ⟨.ofInt result.toInt, toNat_ofInt hpos, ?_⟩
    unfold TransferAwaiter.awaitResume
    dsimp only
    rw [ErrorCode.toBool_noError, if_neg Bool.false_ne_true]

theorem tells_result {result : Int32}
    (htimeout : call.args.type = .timeout → result = timedOut)
    : IsError (call.onComplete f result).result
        ∨ Tells result call.args (call.onComplete f result).result := by
  have hargs₁ := call.args_onComplete f result
  unfold Call.onComplete at hargs₁ ⊢
  cases hargs : call.args with
  | connect address =>
    unfold ConnectAwaiter.onComplete
    dsimp only
    split
    . next hneg =>
      left
      apply isError_result
      apply ErrorCode.toBool_networkError_neg hneg
    . next hpos =>
      right
      unfold Call.result ConnectAwaiter.awaitResume Tells
      rw [hargs]
      dsimp only
      rw [ErrorCode.toBool_noError, if_neg Bool.false_ne_true]
      exact Int32.not_lt.mp hpos
  | send data =>
    rw [hargs] at hargs₁
    dsimp only at hargs₁ ⊢
    rcases transfer_cases f call result with herror | ⟨n, hn, hbytes⟩
    . left
      apply isError_result
      exact herror
    . right
      unfold Call.result
      rw [hargs₁]
      dsimp only [SendAwaiter.awaitResume, SendAwaiter.onComplete]
      rw [hbytes]
      exact hn
  | recv data =>
    rw [hargs] at hargs₁
    dsimp only at hargs₁ ⊢
    rcases transfer_cases f call result with herror | ⟨n, hn, hbytes⟩
    . left
      apply isError_result
      exact herror
    . right
      unfold Call.result
      rw [hargs₁]
      dsimp only [RecvAwaiter.awaitResume, RecvAwaiter.onComplete]
      rw [hbytes]
      exact hn
  | sleep d =>
    right
    unfold SleepAwaiter.onComplete Call.result Tells
    rw [hargs]
    apply htimeout
    rw [hargs]
    rfl

theorem Completes.reports {cqe : InFlight} {result : Int32} {a : Addr}
    (h : Completes s cqe result f call s') (haw : Awaits s cqe a f call)
    (htimeout : cqe.sqe.request.type = some .timeout → result = timedOut)
    : s'.Reports f (call.onComplete f result).done := by
  have hdel : s'.Delivered f call.args.type result := by
    have hmem : ⟨some f, cqe.sqe.request, result, some ⟨⟨call.args.type, call.socket, f, f⟩, true⟩⟩
        ∈ s'.handled := by
      rw [h.handled, List.mem_append, List.mem_singleton]
      exact Or.inr rfl
    exact ⟨_, hmem, rfl, haw.request, rfl, _, rfl, rfl, rfl⟩
  have htells : call.args.type = .timeout → result = timedOut := by
    intro htype
    apply htimeout
    rw [haw.request, htype]
  intro outcome houtcome
  cases houtcome
  rw [Call.args_done, Call.args_onComplete]
  rcases tells_result htells with herror | htells
  . exact Or.inr (Or.inl herror)
  . exact Or.inr (Or.inr ⟨result, htells, hdel⟩)

structure Reported (s : IOUringProactor) : Prop extends Inv s where
  reports : ∀ f call, s.calls f = some call → s.Reports f call

theorem Reported.called {args : Args} {informed : Prop} (h : Reported s)
    (hcalled : Called s args informed s') (hinformed : informed)
    : Reported s' := by
  refine ⟨h.toInv.called hcalled, ?_⟩
  intro g call hcall
  cases hcalled with
  | @returns s₀ call₀ hs₀ hends _ hhandled hfails =>
    rw [hends.calls] at hcall
    by_cases heq : g = s.nextFrame
    . rw [heq, Function.update_self] at hcall
      cases hcall
      apply (hfails hinformed).reports
    . rw [Function.update_of_ne heq, hs₀.calls] at hcall
      apply (h.reports g call hcall).mono
      rw [hhandled]
      apply List.Subset.refl _
  | @suspends s₀ call₀ _ _ hs₀ hl _ hout _ _ _ =>
    rw [hl.calls] at hcall
    by_cases heq : g = s.nextFrame
    . rw [heq, Function.update_self] at hcall
      cases hcall
      intro outcome houtcome
      rw [hout] at houtcome
      simp at houtcome
    . rw [Function.update_of_ne heq, hs₀.calls] at hcall
      apply (h.reports g call hcall).mono
      rw [hl.handled, hs₀.handled]
      apply List.Subset.refl _

theorem Reported.unchanged (h : Reported s) (hsame : Unchanged s s') : Reported s' := by
  refine ⟨h.toInv.unchanged hsame, ?_⟩
  intro f call hcall
  rw [hsame.calls] at hcall
  apply (h.reports f call hcall).mono
  rw [hsame.handled]
  apply List.Subset.refl _

theorem Reported.handleCqe {i : Nat} {cqe : InFlight} {result : Int32} (h : Reported s)
    (hi : s.inFlight[i]? = some cqe)
    (hstep : { s with inFlight := s.inFlight.eraseIdx i }.handleCqe cqe result = some s')
    (htimeout : cqe.sqe.request.type = some .timeout → result = timedOut)
    : Reported s' := by
  refine ⟨h.toInv.handleCqe hi hstep, ?_⟩
  intro g call hcall
  cases ha : cqe.sqe.userData with
  | none =>
    rw [handleCqe_null ha hstep] at hcall ⊢
    apply (h.reports g call hcall).mono
    apply List.subset_append_left
  | some a =>
    rcases h.awaits cqe (List.mem_of_getElem? hi) a ha with ⟨f, call₀, haw⟩
    have hcompletes := completes_handleCqe h.toInv hi ha haw hstep
    rw [hcompletes.ends.calls] at hcall
    by_cases heq : g = f
    . rw [heq, Function.update_self] at hcall
      cases hcall
      rw [heq]
      apply hcompletes.reports haw htimeout
    . rw [Function.update_of_ne heq] at hcall
      apply (h.reports g call hcall).mono
      rw [hcompletes.handled]
      apply List.subset_append_left

theorem Reported.step {op : Op} {o : Option Outcome} (h : Reported s) (hreliable : s.Reliable op)
    (hstep : s.step op = some (s', o))
    : Reported s' := by
  have hfresh : s.calls s.nextFrame = none := h.fresh _ (Nat.le_refl _)
  rcases hreliable with ⟨hclean, hinformed⟩
  cases op with
  | connect address fd env =>
    rcases called_eq_some hstep with ⟨hoffers, rfl⟩
    apply h.called (called_connect hfresh hoffers hclean) hinformed
  | sleepFor d env =>
    rcases called_eq_some hstep with ⟨hoffers, rfl⟩
    apply h.called (called_sleepFor hfresh hoffers hclean) hinformed
  | socketSend sid data env =>
    rcases called_eq_some hstep with ⟨hoffers, rfl⟩
    apply h.called (called_socketSend hfresh hoffers hclean) hinformed
  | socketRecv sid data env =>
    rcases called_eq_some hstep with ⟨hoffers, rfl⟩
    apply h.called (called_socketRecv hfresh hoffers hclean) hinformed
  | close handle =>
    cases hstep
    apply h.unchanged (sameCalls_close s handle).unchanged
  | stop sqe result =>
    rcases stop_eq_some hstep with ⟨hoffers, rfl⟩
    apply h.unchanged (unchanged_stop hoffers hclean)
  | handleCqe i result =>
    rcases handleCqe_eq_some hstep with ⟨cqe, hi, hs'⟩
    apply h.handleCqe hi hs' (hinformed cqe hi)

theorem Reported.ofEntries (result : Int32) : Reported (.ofEntries result) := by
  refine ⟨.ofEntries result, ?_⟩
  intro f call hcall
  simp [IOUringProactor.ofEntries] at hcall

theorem success_only_by_completion {result : Int32} {trace : List (Op × Option Outcome)}
    (hrun : Transition.Run (Transition.restrict Reliable (Transition.ofStep step)) (.ofEntries result)
      trace s)
    : ∀ f call, s.calls f = some call → s.Reports f call := by
  have hreported : Reported s := by
    apply hrun.invariant (.ofEntries result)
    intro s₁ op o s₂ h hstep
    apply h.step hstep.1 hstep.2
  exact hreported.reports

theorem success_of_send_after_connect
    : ∃ trace s, Transition.Run (Transition.restrict Reliable (Transition.ofStep step)) (.ofEntries 0)
          trace s
        ∧ (s.calls 1).bind Call.outcome = some (.bytes 3) ∧ s.Delivered 1 .send 3 := by
  let data : ByteSpan := ⟨some ⟨0, 0⟩, 5⟩
  let ops : List Op :=
    [.connect ⟨.v4 #v[127, 0, 0, 1], 80⟩ 9 ⟨0, some 0, some 0, 1⟩, .handleCqe 0 0,
      .socketSend 1 data ⟨0, some 0, some 1, 1⟩, .sleepFor 5 ⟨11, none, none, 0⟩, .handleCqe 0 3]
  have hexec : ((Transition.exec (Transition.guarded Reliable step) (.ofEntries 0) ops).map fun r =>
      (r.1.calls 1).map fun call => (call.args, call.outcome))
        = some (some (.send data, some (.bytes 3))) := by decide
  rcases Option.map_eq_some_iff.mp hexec with ⟨⟨s, outs⟩, hexec, heq⟩
  rcases Option.map_eq_some_iff.mp heq with ⟨call, hcall, heq⟩
  simp only [Prod.mk.injEq] at heq
  have hrun := Transition.run_restrict_of_exec hexec
  have hcall' : s.calls 1 = some call := hcall
  refine ⟨_, s, hrun, ?_, ?_⟩
  . rw [hcall', Option.bind_some]
    exact heq.2
  . rcases success_only_by_completion hrun 1 call hcall' _ heq.2 with hidle | herror | ⟨r, htells, hdel⟩
    . rw [heq.1] at hidle
      have hsize : (5 : SizeT) = 0 := hidle
      exact absurd hsize (by decide)
    . exact absurd herror id
    . rw [heq.1] at htells hdel
      have hr : r = 3 := by
        rw [← Int32.toInt_inj]
        exact htells.symm
      rw [← hr]
      exact hdel

-- sending on a handle that is not registered yields 0 bytes
theorem success_without_submission
    : ¬ ∀ result trace s,
        Transition.Run (Transition.ofStep step) (.ofEntries result) trace s →
        ∀ f call, s.calls f = some call → s.Reports f call := by
  intro h
  let data : ByteSpan := ⟨some ⟨0, 0⟩, 5⟩
  let ops : List Op := [.socketSend 7 data ⟨0, some 0, some 0, 1⟩]
  have hexec : ((Transition.exec step (.ofEntries 0) ops).map fun r =>
      (r.1.handled, (r.1.calls 0).map fun call => (call.args, call.outcome)))
        = some ([], some (.send data, some (.bytes 0))) := by decide
  rcases Option.map_eq_some_iff.mp hexec with ⟨⟨s, outs⟩, hexec, heq⟩
  simp only [Prod.mk.injEq] at heq
  rcases heq with ⟨hhandled, heq⟩
  rcases Option.map_eq_some_iff.mp heq with ⟨call, hcall, heq⟩
  simp only [Prod.mk.injEq] at heq
  have hreports := h 0 _ s (Transition.run_of_exec hexec) 0 call hcall _ heq.2
  rcases hreports with hidle | herror | ⟨r, _, entry, hentry, _⟩
  . rw [heq.1] at hidle
    have hsize : (5 : SizeT) = 0 := hidle
    exact absurd hsize (by decide)
  . exact absurd herror id
  . rw [hhandled] at hentry
    simp at hentry

end IOUringProactor

end Net

end Sfap
