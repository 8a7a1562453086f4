import Sfap.Net.IOUring.Ring

/-!
This module contains what happens to a call that is suspended: it stays so until its own entry completes, and
then it ends with the result.
-/

namespace Sfap

namespace Net

open IOUring

namespace IOUringProactor

variable {s s' : IOUringProactor} {f : Frame} {a : Addr} {call : Call} {env : Env} {e : InFlight}
  {request : Request}

structure Pending (s : IOUringProactor) (f : Frame) (call : Call) (request : Request) : Prop where
  entry : ∃ e ∈ s.inFlight, ∃ a, e.sqe.userData = some a ∧ e.sqe.request = request ∧ Awaits s e a f call

theorem Awaits.called {args : Args} {informed : Prop} (haw : Awaits s e a f call) (h : Inv s)
    (ha : e.sqe.userData = some a) (hcalled : Called s args informed s') (he : e ∈ s'.inFlight)
    : Awaits s' e a f call := by
  have hfresh : s.calls s.nextFrame = none := h.fresh _ (Nat.le_refl _)
  cases hcalled with
  | @returns s₀ call₀ hs₀ hends _ _ _ =>
    have haw₀ : Awaits s₀ e a f call := haw.congr (by rw [hs₀.opdata]) (by rw [hs₀.calls])
    rcases hends.others e he a f call ha haw₀ with ⟨hne, hcell⟩
    apply haw₀.congr hcell
    rw [hends.calls, Function.update_of_ne hne]
  | @suspends s₀ call₀ a₀ _ hs₀ hl _ _ _ _ hfree =>
    have hne : a ≠ a₀ := by
      intro heq
      have hlive := hfree _ (heq ▸ haw.cell)
      simp at hlive
    apply haw.congr
    . rw [hl.opdata, Function.update_of_ne hne, hs₀.opdata]
    . rw [hl.calls, Function.update_of_ne (haw.frame_ne hfresh), hs₀.calls]

theorem Pending.called {args : Args} {informed : Prop} (hp : Pending s f call request) (h : Inv s)
    (hcalled : Called s args informed s') (hforwards : Forwards s s')
    : Pending s' f call request := by
  rcases hp.entry with ⟨e, he, a, ha, hreq, haw⟩
  have he' := hforwards.inFlight.subset he
  exact ⟨e, he', a, ha, hreq, haw.called h ha hcalled he'⟩

theorem Pending.unchanged (hp : Pending s f call request) (hsame : Unchanged s s') : Pending s' f call request := by
  rcases hp.entry with ⟨e, he, a, ha, hreq, haw⟩
  rcases hsame.inFlight with ⟨es, _, hin⟩
  refine ⟨e, ?_, a, ha, hreq, haw.congr (by rw [hsame.opdata]) (by rw [hsame.calls])⟩
  rw [hin]
  apply List.mem_append_left _ he

theorem mem_eraseIdx_or {i : Nat} {cqe : InFlight} (hi : s.inFlight[i]? = some cqe) (he : e ∈ s.inFlight)
    : e = cqe ∨ e ∈ s.inFlight.eraseIdx i := by
  rcases List.getElem?_eq_some_iff.mp hi with ⟨hlt, hget⟩
  have hperm := List.getElem_cons_eraseIdx_perm hlt
  rw [hget] at hperm
  have hmem := hperm.mem_iff.mpr he
  rw [List.mem_cons] at hmem
  exact hmem

theorem Pending.handleCqe {i : Nat} {cqe : InFlight} {result : Int32} (hp : Pending s f call request)
    (h : Inv s) (hi : s.inFlight[i]? = some cqe)
    (hstep : { s with inFlight := s.inFlight.eraseIdx i }.handleCqe cqe result = some s')
    : Pending s' f call request
        ∨
      (cqe.origin = some f ∧ cqe.sqe.request = request
        ∧ s'.calls f = some (call.onComplete f result).done) := by
  rcases hp.entry with ⟨e, he, a, ha, hreq, haw⟩
  have hin : s'.inFlight = s.inFlight.eraseIdx i := (sameRing_handleCqe hstep).inFlight
  rcases mem_eraseIdx_or hi he with rfl | hmem
  . right
    have hcompletes := completes_handleCqe h hi ha haw hstep
    refine ⟨haw.origin, hreq, ?_⟩
    rw [hcompletes.ends.calls, Function.update_self]
  . left
    refine ⟨e, by rw [hin]; exact hmem, a, ha, hreq, ?_⟩
    cases hcqe : cqe.sqe.userData with
    | none =>
      rw [handleCqe_null hcqe hstep]
      exact haw.congr rfl rfl
    | some a' =>
      rcases h.awaits cqe (List.mem_of_getElem? hi) a' hcqe with ⟨f', call', haw'⟩
      have hends := (completes_handleCqe h hi hcqe haw' hstep).ends
      rcases hends.others e (by rw [hin]; exact hmem) a f call ha haw with ⟨hne, hcell⟩
      apply haw.congr hcell
      rw [hends.calls, Function.update_of_ne hne]

theorem Pending.step {op : Op} {o : Option Outcome} (hp : Pending s f call request) (h : Inv s)
    (hclean : s.Clean op) (hstep : s.step op = some (s', o))
    : Pending s' f call request
        ∨
      ∃ i result cqe, op = .handleCqe i result ∧ s.inFlight[i]? = some cqe ∧ cqe.origin = some f
        ∧ cqe.sqe.request = request ∧ s'.calls f = some (call.onComplete f result).done := by
  have hfresh : s.calls s.nextFrame = none := h.fresh _ (Nat.le_refl _)
  have hforwards := @forwards_step s s' op o
  cases op with
  | connect address fd env =>
    left
    rcases called_eq_some hstep with ⟨hoffers, rfl⟩
    apply hp.called h (called_connect hfresh hoffers hclean) (hforwards (by simp) (by simp) hstep)
  | sleepFor d env =>
    left
    rcases called_eq_some hstep with ⟨hoffers, rfl⟩
    apply hp.called h (called_sleepFor hfresh hoffers hclean) (hforwards (by simp) (by simp) hstep)
  | socketSend sid data env =>
    left
    rcases called_eq_some hstep with ⟨hoffers, rfl⟩
    apply hp.called h (called_socketSend hfresh hoffers hclean) (hforwards (by simp) (by simp) hstep)
  | socketRecv sid data env =>
    left
    rcases called_eq_some hstep with ⟨hoffers, rfl⟩
    apply hp.called h (called_socketRecv hfresh hoffers hclean) (hforwards (by simp) (by simp) hstep)
  | close handle =>
    left
    cases hstep
    apply hp.unchanged (sameCalls_close s handle).unchanged
  | stop sqe result =>
    left
    rcases stop_eq_some hstep with ⟨hoffers, rfl⟩
    apply hp.unchanged (unchanged_stop hoffers hclean)
  | handleCqe i result =>
    rcases handleCqe_eq_some hstep with ⟨cqe, hi, hs'⟩
    rcases hp.handleCqe h hi hs' with hp' | ⟨horigin, hreq, hcalls⟩
    . exact .inl hp'
    . exact .inr ⟨i, result, cqe, rfl, hi, horigin, hreq, hcalls⟩

theorem Called.calls_eq {args : Args} {informed : Prop} (hcalled : Called s args informed s')
    (hne : f ≠ s.nextFrame)
    : s'.calls f = s.calls f := by
  cases hcalled with
  | returns hs₀ hends _ _ _ => rw [hends.calls, Function.update_of_ne hne, hs₀.calls]
  | suspends hs₀ hl _ _ _ _ _ => rw [hl.calls, Function.update_of_ne hne, hs₀.calls]

theorem ne_nextFrame (h : Inv s) (hcall : s.calls f = some call) : f ≠ s.nextFrame := by
  intro heq
  rw [heq, h.fresh _ (Nat.le_refl _)] at hcall
  simp at hcall

theorem calls_of_done {op : Op} {o : Option Outcome} (h : Inv s) (hclean : s.Clean op)
    (hcall : s.calls f = some call) (hdone : call.outcome ≠ none) (hstep : s.step op = some (s', o))
    : s'.calls f = some call := by
  have hfresh : s.calls s.nextFrame = none := h.fresh _ (Nat.le_refl _)
  have hne := ne_nextFrame h hcall
  rw [← hcall]
  cases op with
  | connect address fd env =>
    rcases called_eq_some hstep with ⟨hoffers, rfl⟩
    apply (called_connect hfresh hoffers hclean).calls_eq hne
  | sleepFor d env =>
    rcases called_eq_some hstep with ⟨hoffers, rfl⟩
    apply (called_sleepFor hfresh hoffers hclean).calls_eq hne
  | socketSend sid data env =>
    rcases called_eq_some hstep with ⟨hoffers, rfl⟩
    apply (called_socketSend hfresh hoffers hclean).calls_eq hne
  | socketRecv sid data env =>
    rcases called_eq_some hstep with ⟨hoffers, rfl⟩
    apply (called_socketRecv hfresh hoffers hclean).calls_eq hne
  | close handle =>
    cases hstep
    rw [(sameCalls_close s handle).calls]
  | stop sqe result =>
    rcases stop_eq_some hstep with ⟨hoffers, rfl⟩
    rw [(unchanged_stop hoffers hclean).calls]
  | handleCqe i result =>
    rcases handleCqe_eq_some hstep with ⟨cqe, hi, hs'⟩
    cases ha : cqe.sqe.userData with
    | none =>
      rw [handleCqe_null ha hs']
      rfl
    | some a =>
      rcases h.awaits cqe (List.mem_of_getElem? hi) a ha with ⟨f', call', haw⟩
      have hends := (completes_handleCqe h hi ha haw hs').ends
      rw [hends.calls, Function.update_of_ne]
      intro heq
      rw [heq, haw.call_eq, Option.some.injEq] at hcall
      rw [← hcall] at hdone
      apply hdone haw.suspended

theorem Launches.pending (hl : Launches s f call a request s') (hout : call.outcome = none)
    (hop : call.operation = some a) (hreq : request.type = some call.args.type)
    : Pending s' f call request := by
  rcases hl.inFlight with ⟨es, _, hin⟩
  refine ⟨⟨⟨request, some a⟩, some f⟩, ?_, a, rfl, rfl, rfl, ?_, ?_, hout, hop, hreq⟩
  . rw [hin]
    simp
  . rw [hl.opdata, Function.update_self]
  . rw [hl.calls, Function.update_self]

theorem pending_transfer {sid : SocketT} {data : ByteSpan} (args : Args) (prepare : Int32 → Request)
    (hdata : data.size ≠ 0) (hsocket : (s.sockets sid).isSome = true)
    (hoffers : s.Offers env.sqe env.opdata) (hover : env.handsOver = true)
    (hnull : ∀ e ∈ s.queued, (s.slots e.slot).userData = none)
    (hprepare : ∀ fd, (prepare fd).type = some args.type)
    : ∃ fd a, Pending (TransferAwaiter.awaitSuspend s.newFrame.2 s.nextFrame (.init args sid) data prepare env)
        s.nextFrame { Call.init args sid with operation := some a } (prepare fd) := by
  rcases Option.isSome_iff_exists.mp hsocket with ⟨state, hstate⟩
  simp only [Env.handsOver, Bool.and_eq_true, Bool.not_eq_true', decide_eq_false_iff_not] at hover
  rcases hover with ⟨⟨hsqe, hopdata⟩, hsubmit⟩
  rcases Option.isSome_iff_exists.mp hsqe with ⟨slot, hsqe⟩
  rcases Option.isSome_iff_exists.mp hopdata with ⟨a, hopdata⟩
  have hentry : s.newFrame.2.sockets (Call.init args sid).socket = some state := hstate
  refine ⟨state.handle, a, ?_⟩
  unfold TransferAwaiter.awaitSuspend
  rw [hentry]
  dsimp only
  rw [if_neg (by simpa using hdata)]
  have hslot : ∀ e ∈ s.newFrame.2.queued, e.slot ≠ slot := hoffers.1 slot hsqe
  apply Launches.pending
  . apply suspendOn_submit_ok hsqe hopdata hsubmit hslot hnull
  . rfl
  . rfl
  . apply hprepare

end IOUringProactor

end Net

end Sfap
