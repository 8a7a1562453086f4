import Sfap.Net.IOUring.Bookkeeping

/-!
This module contains what the operations of the proactor leave in the ring: nothing that is queued or in
flight is lost.
-/

namespace Sfap

namespace Net

open IOUring

namespace IOUringProactor

structure SameRing (s s' : IOUringProactor) : Prop where
  running : s'.running = s.running
  queued : s'.queued = s.queued
  inFlight : s'.inFlight = s.inFlight

structure Forwards (s s' : IOUringProactor) : Prop where
  running : s'.running = s.running
  queued : s.queued ≠ [] → s'.queued ≠ [] ∨ s'.inFlight ≠ []
  inFlight : s.inFlight <+: s'.inFlight

variable {s s' s'' : IOUringProactor} {f : Frame} {call : Call} {env : Env}

theorem SameRing.trans (h : SameRing s s') (h' : SameRing s' s'') : SameRing s s'' := by
  exact ⟨h'.running.trans h.running, h'.queued.trans h.queued, h'.inFlight.trans h.inFlight⟩

theorem SameRing.forwards (h : SameRing s s') : Forwards s s' := by
  refine ⟨h.running, ?_, ?_⟩
  . intro hne
    rw [h.queued]
    exact .inl hne
  . simp [h.inFlight]

theorem Forwards.inFlight_ne_nil (h : Forwards s s') (hne : s.inFlight ≠ []) : s'.inFlight ≠ [] := by
  intro hnil
  apply hne
  apply List.prefix_nil.mp
  rw [← hnil]
  exact h.inFlight

theorem Forwards.trans (h : Forwards s s') (h' : Forwards s' s'') : Forwards s s'' := by
  refine ⟨h'.running.trans h.running, ?_, ?_⟩
  . intro hne
    rcases h.queued hne with hqueued | hinFlight
    . apply h'.queued hqueued
    . exact .inr (h'.inFlight_ne_nil hinFlight)
  . apply h.inFlight.trans h'.inFlight

theorem sameRing_cleanup (s : IOUringProactor) (sid : SocketT) : SameRing s (s.cleanup sid) := by
  unfold cleanup
  split
  . exact ⟨rfl, rfl, rfl⟩
  . dsimp only
    split <;> exact ⟨rfl, rfl, rfl⟩

theorem sameRing_close (s : IOUringProactor) (handle : SocketT) : SameRing s (s.close handle) := by
  unfold close
  split
  . exact ⟨rfl, rfl, rfl⟩
  . dsimp only
    split <;> exact ⟨rfl, rfl, rfl⟩

theorem sameRing_finish (s : IOUringProactor) (f : Frame) (call : Call) (outcome : Outcome)
    : SameRing s (s.finish f call outcome) := by
  exact ⟨rfl, rfl, rfl⟩

theorem sameRing_proceed (s : IOUringProactor) (f : Frame) (call : Call)
    : SameRing s (s.proceed f call) := by
  unfold proceed
  split
  . unfold connectReturn
    split
    . dsimp only
      split
      . apply sameRing_finish
      . apply (sameRing_cleanup s _).trans
        apply sameRing_finish
    . apply (sameRing_cleanup s _).trans
      apply sameRing_finish
  . apply sameRing_finish
  . apply sameRing_finish
  . apply sameRing_finish

theorem sameRing_resume (s : IOUringProactor) (f : Frame) : SameRing s (s.resume f) := by
  unfold resume
  dsimp only
  split
  . exact ⟨rfl, rfl, rfl⟩
  . split
    . exact ⟨rfl, rfl, rfl⟩
    . have hproceed := sameRing_proceed { s with resumed := s.resumed ++ [f] } f
      have hsame : SameRing s { s with resumed := s.resumed ++ [f] } := ⟨rfl, rfl, rfl⟩
      apply hsame.trans (hproceed _)

theorem sameRing_exitWith (s : IOUringProactor) (f : Frame) (call : Call) (error : ErrorCode)
    : SameRing s (s.exitWith f call error) := by
  unfold exitWith
  have hset : SameRing s (s.setCall f { call with error := error }) := ⟨rfl, rfl, rfl⟩
  apply hset.trans
  apply sameRing_resume

theorem sameRing_freeOpdata (s : IOUringProactor) (a : Addr) : SameRing s (s.freeOpdata a) := by
  unfold freeOpdata
  split <;> exact ⟨rfl, rfl, rfl⟩

theorem sameRing_completeOn (s : IOUringProactor) (f : Frame) (result : Int32)
    : SameRing s (s.completeOn f result) := by
  unfold completeOn
  split <;> exact ⟨rfl, rfl, rfl⟩

theorem sameRing_emplaceSocket (s : IOUringProactor) (sid : SocketT) (state : SocketState)
    : SameRing s (s.emplaceSocket sid state) := by
  unfold emplaceSocket
  split <;> exact ⟨rfl, rfl, rfl⟩

theorem sameRing_handleCqe {cqe : InFlight} {result : Int32} (h : s.handleCqe cqe result = some s')
    : SameRing s s' := by
  unfold handleCqe at h
  split at h
  . rw [Option.some.injEq] at h
    rw [← h]
    exact ⟨rfl, rfl, rfl⟩
  . next a _ =>
    split at h
    . simp at h
    . next cell _ =>
      rw [Option.some.injEq] at h
      rw [← h]
      have hlog : SameRing s (s.logHandled ⟨cqe.origin, cqe.sqe.request, result, some cell⟩) :=
        ⟨rfl, rfl, rfl⟩
      apply hlog.trans
      apply (sameRing_completeOn _ _ _).trans
      apply (sameRing_freeOpdata _ a).trans
      apply sameRing_resume

theorem forwards_getSqe (s : IOUringProactor) (slot : Nat) (origin : Option Frame)
    : Forwards s (s.getSqe slot origin) := by
  refine ⟨rfl, ?_, List.prefix_rfl⟩
  intro _
  left
  unfold getSqe
  simp

theorem forwards_submit (s : IOUringProactor) (result : Int32) : Forwards s (s.submit result) := by
  unfold submit
  split
  . apply SameRing.forwards ⟨rfl, rfl, rfl⟩
  . refine ⟨rfl, ?_, ?_⟩
    . intro hne
      right
      simpa using fun _ => hne
    . apply List.prefix_append

theorem forwards_suspendOn (s : IOUringProactor) (f : Frame) (call : Call) (noSqe : ErrorCode)
    (request : Request) (env : Env)
    : Forwards s (s.suspendOn f call noSqe request env) := by
  unfold suspendOn
  split
  . exact (sameRing_exitWith _ _ _ _).forwards
  . next slot _ =>
    apply (forwards_getSqe s slot (some f)).trans
    dsimp only
    split
    . exact (sameRing_exitWith _ _ _ _).forwards
    . next a _ =>
      generalize hs₁ : ((s.getSqe slot (some f)).allocOpdata a ⟨call.args.type, call.socket, f, f⟩).prep
        slot request (some a) = s₁
      have hprep : SameRing (s.getSqe slot (some f)) s₁ := by
        rw [← hs₁]
        exact ⟨rfl, rfl, rfl⟩
      apply hprep.forwards.trans
      apply (forwards_submit s₁ env.submit).trans
      split
      . apply (sameRing_freeOpdata _ a).forwards.trans
        exact (sameRing_exitWith _ _ _ _).forwards
      . exact SameRing.forwards ⟨rfl, rfl, rfl⟩

theorem forwards_transfer (s : IOUringProactor) (f : Frame) (call : Call) (data : ByteSpan)
    (request : Int32 → Request) (env : Env)
    : Forwards s (TransferAwaiter.awaitSuspend s f call data request env) := by
  unfold TransferAwaiter.awaitSuspend
  split
  . exact (sameRing_exitWith _ _ _ _).forwards
  . split
    . exact (sameRing_exitWith _ _ _ _).forwards
    . apply forwards_suspendOn

theorem forwards_newFrame (s : IOUringProactor) : Forwards s s.newFrame.2 := by
  exact SameRing.forwards ⟨rfl, rfl, rfl⟩

theorem forwards_connect (s : IOUringProactor) (address : InternalAddress) (fd : Int32) (env : Env)
    : Forwards s (s.connect address fd env) := by
  unfold connect
  dsimp only
  split
  . exact (forwards_newFrame s).trans (sameRing_finish _ _ _ _).forwards
  . have hnext : SameRing s { s.newFrame.2 with nextHandleId := s.newFrame.2.nextHandleId + 1 } :=
      ⟨rfl, rfl, rfl⟩
    apply (hnext.trans (sameRing_emplaceSocket _ _ _)).forwards.trans
    unfold ConnectAwaiter.awaitSuspend
    split
    . exact (sameRing_exitWith _ _ _ _).forwards
    . apply forwards_suspendOn

theorem forwards_sleepFor (s : IOUringProactor) (d : Int64) (env : Env)
    : Forwards s (s.sleepFor d env) := by
  unfold sleepFor
  dsimp only
  apply (forwards_newFrame s).trans
  split
  . exact (sameRing_finish _ _ _ _).forwards
  . apply forwards_suspendOn

theorem forwards_socketSend (s : IOUringProactor) (sid : SocketT) (data : ByteSpan) (env : Env)
    : Forwards s (s.socketSend sid data env) := by
  unfold socketSend
  dsimp only
  apply (forwards_newFrame s).trans
  split
  . exact (sameRing_finish _ _ _ _).forwards
  . apply forwards_transfer

theorem forwards_socketRecv (s : IOUringProactor) (sid : SocketT) (data : ByteSpan) (env : Env)
    : Forwards s (s.socketRecv sid data env) := by
  unfold socketRecv
  dsimp only
  apply (forwards_newFrame s).trans
  split
  . exact (sameRing_finish _ _ _ _).forwards
  . apply forwards_transfer

theorem forwards_step {op : Op} {o : Option Outcome} (hstop : ∀ sqe result, op ≠ .stop sqe result)
    (hcqe : ∀ i result, op ≠ .handleCqe i result) (hstep : s.step op = some (s', o))
    : Forwards s s' := by
  cases op with
  | connect address fd env =>
    rcases called_eq_some hstep with ⟨_, rfl⟩
    apply forwards_connect
  | sleepFor d env =>
    rcases called_eq_some hstep with ⟨_, rfl⟩
    apply forwards_sleepFor
  | socketSend sid data env =>
    rcases called_eq_some hstep with ⟨_, rfl⟩
    apply forwards_socketSend
  | socketRecv sid data env =>
    rcases called_eq_some hstep with ⟨_, rfl⟩
    apply forwards_socketRecv
  | close handle =>
    cases hstep
    exact (sameRing_close _ _).forwards
  | stop sqe result => exact absurd rfl (hstop sqe result)
  | handleCqe i result => exact absurd rfl (hcqe i result)

end IOUringProactor

end Net

end Sfap
