import Sfap.Net.IOUring.Connect
import Sfap.Net.IOUring.Pending

/-!
This module contains what the entries in flight ask for: each one for what its call has been given, on the
descriptor that its socket has been registered with.
-/

namespace Sfap

namespace Net

open IOUring

namespace IOUring

/--
The request, read the way the kernel does, is for what the call has been given. Of a length only the low 32
bits are left.
-/
def Asks : Args → Request → Prop
  | .connect address, .connect _ bytes length => decode bytes length = some address
  | .send data, .send _ p length => p = data.data ∧ length.toNat = data.size.toNat % 2 ^ 32
  | .recv data, .recv _ p length => p = data.data ∧ length.toNat = data.size.toNat % 2 ^ 32
  | .sleep d, .timeout sec nsec =>
    sec.toInt * 1000000000 + nsec.toInt = d.toInt ∧ 0 ≤ nsec.toInt ∧ nsec.toInt < 1000000000
  | _, _ => False

def Request.fd? : Request → Option Int32
  | .connect fd _ _ => some fd
  | .send fd _ _ => some fd
  | .recv fd _ _ => some fd
  | _ => none

theorem asks_timeout {d : Int64} (h : ¬ d ≤ 0)
    : Asks (.sleep d) (.timeout (d / 1000000000) (d % 1000000000)) := by
  have hpos : 0 ≤ d.toInt := by
    rw [Int64.le_iff_toInt_le] at h
    have hzero : (0 : Int64).toInt = 0 := rfl
    omega
  have hsec : (d / 1000000000).toInt = d.toInt.tdiv 1000000000 := by
    apply Int64.toInt_div_of_ne_right
    decide
  have hnsec : (d % 1000000000).toInt = d.toInt.tmod 1000000000 := by
    apply Int64.toInt_mod
  unfold Asks
  dsimp only
  rw [hsec, hnsec, Int.tdiv_eq_ediv_of_nonneg hpos, Int.tmod_eq_emod_of_nonneg hpos]
  omega

end IOUring

namespace IOUringProactor

variable {s s' s'' : IOUringProactor} {f : Frame} {a : Addr} {call : Call} {env : Env}
  {ask ask' : Request → Prop} {e : InFlight}

def Adds (s : IOUringProactor) (f : Frame) (ask : Request → Prop) (s' : IOUringProactor) : Prop :=
  ∀ e ∈ s'.inFlight, e ∈ s.inFlight ∨ e.sqe.userData = none ∨ (e.origin = some f ∧ ask e.sqe.request)

theorem Adds.of_eq (h : s'.inFlight = s.inFlight) : Adds s f ask s' := by
  intro e he
  rw [h] at he
  exact .inl he

theorem Adds.after (h : Adds s' f ask s'') (hin : s'.inFlight = s.inFlight) : Adds s f ask s'' := by
  intro e he
  rw [← hin]
  apply h e he

theorem Adds.mono (h : Adds s f ask s') (hask : ∀ request, ask request → ask' request)
    : Adds s f ask' s' := by
  intro e he
  rcases h e he with hold | hnull | ⟨horigin, hreq⟩
  . exact .inl hold
  . exact .inr (.inl hnull)
  . exact .inr (.inr ⟨horigin, hask _ hreq⟩)

theorem adds_suspendOn (hout : call.outcome = none) (hoffers : s.Offers env.sqe env.opdata)
    (hclean : env.handsOver = true → ∀ e ∈ s.queued, (s.slots e.slot).userData = none)
    (noSqe : ErrorCode) {request : Request} (hask : ask request)
    : Adds s f ask (s.suspendOn f call noSqe request env) := by
  rcases suspendOn_cases hout hoffers hclean noSqe request with ⟨call', hexits⟩ | ⟨a, _, hl⟩
  . rcases hexits.finishes with ⟨s₁, hprepared, hfin⟩
    apply Adds.of_eq
    rw [hfin.inFlight, hprepared.inFlight]
  . rcases hl.inFlight with ⟨es, hes, hin⟩
    intro e he
    rw [hin, List.mem_append, List.mem_append, List.mem_singleton] at he
    rcases he with he | he | rfl
    . exact .inl he
    . exact .inr (.inl (hes e he))
    . exact .inr (.inr ⟨rfl, hask⟩)

theorem inFlight_exitWith (s : IOUringProactor) (f : Frame) (call : Call) (error : ErrorCode)
    : (s.exitWith f call error).inFlight = s.inFlight :=
  (sameRing_exitWith s f call error).inFlight

theorem adds_transfer {args : Args} {sid : SocketT} (data : ByteSpan) {request : Int32 → Request}
    (hoffers : s.Offers env.sqe env.opdata)
    (hclean : (s.sockets sid).isSome = true → env.handsOver = true →
      ∀ e ∈ s.queued, (s.slots e.slot).userData = none)
    (hask : ∀ state, s.sockets sid = some state → ask (request state.handle))
    : Adds s f ask (TransferAwaiter.awaitSuspend s.newFrame.2 f (.init args sid) data request env) := by
  unfold TransferAwaiter.awaitSuspend
  split
  . apply Adds.of_eq
    apply inFlight_exitWith
  . next state hstate =>
    have hsocket : s.sockets sid = some state := hstate
    split
    . apply Adds.of_eq
      apply inFlight_exitWith
    . refine Adds.after (adds_suspendOn rfl ?_ ?_ _ (hask state hsocket)) rfl
      . exact hoffers
      . apply hclean
        rw [hsocket]
        rfl

def Op.Asks (s : IOUringProactor) (op : Op) (request : Request) : Prop :=
  match op with
  | .connect address fd _ =>
    IOUring.Asks (.connect address) request
      ∧ request.fd? = some ((s.sockets s.nextHandleId).getD ⟨fd, false⟩).handle
  | .sleepFor d _ => IOUring.Asks (.sleep d) request
  | .socketSend sid data _ =>
    IOUring.Asks (.send data) request ∧ ∃ state, s.sockets sid = some state ∧ request.fd? = some state.handle
  | .socketRecv sid data _ =>
    IOUring.Asks (.recv data) request ∧ ∃ state, s.sockets sid = some state ∧ request.fd? = some state.handle
  | _ => False

theorem adds_connect {address : InternalAddress} {fd : Int32} (hoffers : s.Offers env.sqe env.opdata)
    (hclean : s.Clean (.connect address fd env))
    : Adds s s.nextFrame (Op.Asks s (.connect address fd env)) (s.connect address fd env) := by
  unfold connect newFrame
  dsimp only
  split
  . apply Adds.of_eq
    rfl
  . next hfd =>
    generalize hs₀ : ({ s with nextFrame := s.nextFrame + 1, nextHandleId := s.nextHandleId + 1 } : IOUringProactor)
      = s₀
    have hsame := sameCalls_emplaceSocket s₀ s.nextHandleId ⟨fd, false⟩
    unfold ConnectAwaiter.awaitSuspend
    split
    . apply Adds.of_eq
      rw [inFlight_exitWith, hsame.inFlight, ← hs₀]
    . next state hstate =>
      refine Adds.after (adds_suspendOn rfl ?_ ?_ _ ⟨?_, ?_⟩) (hsame.inFlight.trans (by rw [← hs₀]))
      . unfold Offers
        rw [hsame.queued, hsame.opdata, ← hs₀]
        exact hoffers
      . rw [hsame.queued, hsame.slots, ← hs₀]
        intro hover
        apply hclean
        simp [Op.handsOver, hfd, hover]
      . apply decode_sockaddr
      . have hsockets : s.sockets = s₀.sockets := by rw [← hs₀]
        dsimp only [Call.init] at hstate
        rw [sockets_emplaceSocket, Function.update_self, Option.some.injEq] at hstate
        rw [hsockets, hstate]
        rfl

theorem adds_sleepFor {d : Int64} (hoffers : s.Offers env.sqe env.opdata) (hclean : s.Clean (.sleepFor d env))
    : Adds s s.nextFrame (Op.Asks s (.sleepFor d env)) (s.sleepFor d env) := by
  unfold sleepFor newFrame
  dsimp only
  split
  . apply Adds.of_eq
    rfl
  . next hd =>
    unfold SleepAwaiter.awaitSuspend
    refine Adds.after (adds_suspendOn rfl ?_ ?_ _ ?_) rfl
    . exact hoffers
    . intro hover
      apply hclean
      simp [Op.handsOver, hd, hover]
    . apply asks_timeout hd

theorem asks_length (size : SizeT) : size.toUInt32.toNat = size.toNat % 2 ^ 32 :=
  UInt64.toNat_toUInt32 size

theorem adds_socketSend {sid : SocketT} {data : ByteSpan} (hoffers : s.Offers env.sqe env.opdata)
    (hclean : s.Clean (.socketSend sid data env))
    : Adds s s.nextFrame (Op.Asks s (.socketSend sid data env)) (s.socketSend sid data env) := by
  unfold socketSend
  dsimp only
  split
  . apply Adds.of_eq
    rfl
  . next hdata =>
    unfold SendAwaiter.awaitSuspend
    apply adds_transfer data hoffers
    . intro hsocket hover
      apply hclean
      simp [Op.handsOver, hdata, hsocket, hover]
    . intro state hstate
      exact ⟨⟨rfl, asks_length data.size⟩, state, hstate, rfl⟩

theorem adds_socketRecv {sid : SocketT} {data : ByteSpan} (hoffers : s.Offers env.sqe env.opdata)
    (hclean : s.Clean (.socketRecv sid data env))
    : Adds s s.nextFrame (Op.Asks s (.socketRecv sid data env)) (s.socketRecv sid data env) := by
  unfold socketRecv
  dsimp only
  split
  . apply Adds.of_eq
    rfl
  . next hdata =>
    unfold RecvAwaiter.awaitSuspend
    apply adds_transfer data hoffers
    . intro hsocket hover
      apply hclean
      simp [Op.handsOver, hdata, hsocket, hover]
    . intro state hstate
      exact ⟨⟨rfl, asks_length data.size⟩, state, hstate, rfl⟩

theorem adds_step {op : Op} {o : Option Outcome} (hclean : s.Clean op) (hstep : s.step op = some (s', o))
    : Adds s s.nextFrame (Op.Asks s op) s' := by
  cases op with
  | connect address fd env =>
    rcases called_eq_some hstep with ⟨hoffers, rfl⟩
    apply adds_connect hoffers hclean
  | sleepFor d env =>
    rcases called_eq_some hstep with ⟨hoffers, rfl⟩
    apply adds_sleepFor hoffers hclean
  | socketSend sid data env =>
    rcases called_eq_some hstep with ⟨hoffers, rfl⟩
    apply adds_socketSend hoffers hclean
  | socketRecv sid data env =>
    rcases called_eq_some hstep with ⟨hoffers, rfl⟩
    apply adds_socketRecv hoffers hclean
  | close handle =>
    cases hstep
    apply Adds.of_eq
    apply (sameRing_close s handle).inFlight
  | stop sqe result =>
    rcases stop_eq_some hstep with ⟨hoffers, rfl⟩
    rcases (unchanged_stop hoffers hclean).inFlight with ⟨es, hes, hin⟩
    intro e he
    rw [hin, List.mem_append] at he
    rcases he with he | he
    . exact .inl he
    . exact .inr (.inl (hes e he))
  | handleCqe i result =>
    rcases handleCqe_eq_some hstep with ⟨cqe, hi, hs'⟩
    intro e he
    rw [(sameRing_handleCqe hs').inFlight] at he
    exact .inl ((List.eraseIdx_sublist s.inFlight i).subset he)

structure Exact (s : IOUringProactor) : Prop extends Inv s where
  asks : ∀ e ∈ s.inFlight, ∀ a f call, e.sqe.userData = some a → Awaits s e a f call →
    IOUring.Asks call.args e.sqe.request

theorem Awaits.eq_of_calls {f' : Frame} {call' : Call} (haw : Awaits s e a f call) (haw' : Awaits s' e a f' call')
    (hcalls : s'.calls f = s.calls f)
    : f' = f ∧ call' = call := by
  have horigin := haw'.origin
  rw [haw.origin, Option.some.injEq] at horigin
  have hcall := haw'.call_eq
  rw [← horigin, hcalls, haw.call_eq, Option.some.injEq] at hcall
  exact ⟨horigin.symm, hcall.symm⟩

theorem Called.args_eq {args : Args} {informed : Prop} (hcalled : Called s args informed s')
    (hcall : s'.calls s.nextFrame = some call)
    : call.args = args := by
  cases hcalled with
  | returns hs₀ hends hargs _ _ =>
    rw [hends.calls, Function.update_self, Option.some.injEq] at hcall
    rw [← hcall]
    exact hargs
  | suspends hs₀ hl hargs _ _ _ _ =>
    rw [hl.calls, Function.update_self, Option.some.injEq] at hcall
    rw [← hcall]
    exact hargs

theorem Exact.called {args : Args} {informed : Prop} (h : Exact s) (hcalled : Called s args informed s')
    (hadds : Adds s s.nextFrame ask s') (hask : ∀ request, ask request → IOUring.Asks args request)
    : Exact s' := by
  refine ⟨h.toInv.called hcalled, ?_⟩
  intro e he a f call ha haw
  rcases hadds e he with hold | hnull | ⟨horigin, hreq⟩
  . rcases h.awaits e hold a ha with ⟨f₀, call₀, haw₀⟩
    have hcalls := hcalled.calls_eq (haw₀.frame_ne (h.fresh _ (Nat.le_refl _)))
    rw [(haw₀.eq_of_calls haw hcalls).2]
    apply h.asks e hold a f₀ call₀ ha haw₀
  . rw [hnull] at ha
    simp at ha
  . have hf := haw.origin
    rw [horigin, Option.some.injEq] at hf
    have hcall := haw.call_eq
    rw [← hf] at hcall
    rw [hcalled.args_eq hcall]
    apply hask _ hreq

theorem Exact.unchanged (h : Exact s) (hsame : Unchanged s s') : Exact s' := by
  refine ⟨h.toInv.unchanged hsame, ?_⟩
  intro e he a f call ha haw
  rcases hsame.inFlight with ⟨es, hes, hin⟩
  rw [hin, List.mem_append] at he
  rcases he with he | he
  . apply h.asks e he a f call ha
    apply haw.congr (by rw [hsame.opdata]) (by rw [hsame.calls])
  . rw [hes e he] at ha
    simp at ha

theorem Exact.handleCqe {i : Nat} {cqe : InFlight} {result : Int32} (h : Exact s)
    (hi : s.inFlight[i]? = some cqe)
    (hstep : { s with inFlight := s.inFlight.eraseIdx i }.handleCqe cqe result = some s')
    : Exact s' := by
  refine ⟨h.toInv.handleCqe hi hstep, ?_⟩
  intro e he a f call ha haw
  have hold : e ∈ s.inFlight := by
    rw [(sameRing_handleCqe hstep).inFlight] at he
    exact (List.eraseIdx_sublist s.inFlight i).subset he
  rcases h.awaits e hold a ha with ⟨f₀, call₀, haw₀⟩
  have hcalls : s'.calls f₀ = s.calls f₀ := by
    cases hcqe : cqe.sqe.userData with
    | none =>
      rw [handleCqe_null hcqe hstep]
      rfl
    | some a' =>
      rcases h.awaits cqe (List.mem_of_getElem? hi) a' hcqe with ⟨f', call', haw'⟩
      have hends := (completes_handleCqe h.toInv hi hcqe haw' hstep).ends
      rw [hends.calls, Function.update_of_ne (hends.others e he a f₀ call₀ ha haw₀).1]
  rw [(haw₀.eq_of_calls haw hcalls).2]
  apply h.asks e hold a f₀ call₀ ha haw₀

theorem Exact.step {op : Op} {o : Option Outcome} (h : Exact s) (hclean : s.Clean op)
    (hstep : s.step op = some (s', o))
    : Exact s' := by
  have hfresh : s.calls s.nextFrame = none := h.fresh _ (Nat.le_refl _)
  have hadds := adds_step hclean hstep
  cases op with
  | connect address fd env =>
    rcases called_eq_some hstep with ⟨hoffers, rfl⟩
    apply h.called (called_connect hfresh hoffers hclean) hadds
    intro request hreq
    exact hreq.1
  | sleepFor d env =>
    rcases called_eq_some hstep with ⟨hoffers, rfl⟩
    apply h.called (called_sleepFor hfresh hoffers hclean) hadds
    intro request hreq
    exact hreq
  | socketSend sid data env =>
    rcases called_eq_some hstep with ⟨hoffers, rfl⟩
    apply h.called (called_socketSend hfresh hoffers hclean) hadds
    intro request hreq
    exact hreq.1
  | socketRecv sid data env =>
    rcases called_eq_some hstep with ⟨hoffers, rfl⟩
    apply h.called (called_socketRecv hfresh hoffers hclean) hadds
    intro request hreq
    exact hreq.1
  | close handle =>
    cases hstep
    apply h.unchanged (sameCalls_close s handle).unchanged
  | stop sqe result =>
    rcases stop_eq_some hstep with ⟨hoffers, rfl⟩
    apply h.unchanged (unchanged_stop hoffers hclean)
  | handleCqe i result =>
    rcases handleCqe_eq_some hstep with ⟨cqe, hi, hs'⟩
    apply h.handleCqe hi hs'

theorem run_exact {result : Int32} {trace : List (Op × Option Outcome)}
    (hrun : Transition.Run (Transition.restrict Clean (Transition.ofStep step)) (.ofEntries result) trace s)
    : Exact s := by
  refine hrun.invariant ?_ ?_
  . refine ⟨.ofEntries result, ?_⟩
    simp [IOUringProactor.ofEntries]
  . intro s₁ op o s₂ h hstep
    apply h.step hstep.1 hstep.2

/--
In a clean run every entry in flight that carries a pointer asks for what its call has been given: the
address decodes to the one to connect to, the span is the one to transfer, up to the width of the length
field, and the seconds and nanoseconds are the time to sleep. An operation adds such an entry only for
itself, and on the descriptor that its socket is registered with.
-/
theorem requests_exact {result : Int32} {trace : List (Op × Option Outcome)}
    (hrun : Transition.Run (Transition.restrict Clean (Transition.ofStep step)) (.ofEntries result) trace s)
    : (∀ e ∈ s.inFlight, ∀ a, e.sqe.userData = some a → ∃ f call, e.origin = some f
          ∧ s.calls f = some call ∧ call.outcome = none ∧ IOUring.Asks call.args e.sqe.request)
        ∧ ∀ op s' o, s.Clean op → s.step op = some (s', o) →
          ∀ e ∈ s'.inFlight, e ∉ s.inFlight → e.sqe.userData ≠ none →
            e.origin = some s.nextFrame ∧ Op.Asks s op e.sqe.request := by
  have h := run_exact hrun
  constructor
  . intro e he a ha
    rcases h.awaits e he a ha with ⟨f, call, haw⟩
    exact ⟨f, call, haw.origin, haw.call_eq, haw.suspended, h.asks e he a f call ha haw⟩
  . intro op s' o hclean hstep e he hnew hpointer
    rcases adds_step hclean hstep e he with hold | hnull | hreq
    . exact absurd hold hnew
    . exact absurd hnull hpointer
    . exact hreq

-- the length of the second request does not fit the field
theorem requests_exact_of_long_span
    : let data : ByteSpan := ⟨some ⟨0, 0⟩, 4294967299⟩
      ∃ trace s e, Transition.Run (Transition.restrict Clean (Transition.ofStep step)) (.ofEntries 0) trace s
        ∧ e ∈ s.inFlight ∧ e.sqe.request = .send 9 data.data 3
        ∧ ∃ f call, e.origin = some f ∧ s.calls f = some call ∧ IOUring.Asks call.args e.sqe.request := by
  intro data
  let ops : List Op :=
    [.connect ⟨.v4 #v[127, 0, 0, 1], 80⟩ 9 ⟨0, some 0, some 0, 1⟩, .handleCqe 0 0,
      .sleepFor 1500000000 ⟨0, some 0, some 1, 1⟩, .socketSend 1 data ⟨0, some 0, some 0, 1⟩]
  have hexec : ((Transition.exec (Transition.guarded Clean step) (.ofEntries 0) ops).bind fun r =>
      r.1.inFlight[1]?.map fun e => (e.sqe.request, e.sqe.userData))
        = some (.send 9 data.data 3, some 0) := by decide
  rcases Option.bind_eq_some_iff.mp hexec with ⟨⟨s, outs⟩, hexec, heq⟩
  rcases Option.map_eq_some_iff.mp heq with ⟨e, he, heq⟩
  rw [Prod.mk.injEq] at heq
  have hrun := Transition.run_restrict_of_exec hexec
  have hmem := List.mem_of_getElem? he
  rcases (requests_exact hrun).1 e hmem 0 heq.2 with ⟨f, call, horigin, hcall, _, hasks⟩
  exact ⟨_, s, e, hrun, hmem, heq.1, f, call, horigin, hcall, hasks⟩

end IOUringProactor

end Net

end Sfap
