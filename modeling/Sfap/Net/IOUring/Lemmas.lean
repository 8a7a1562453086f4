import Sfap.Net.IOUring.Impl

/-!
This module contains what resuming a coroutine, leaving `await_suspend` early and handling a completion
do to the state of the proactor.
-/

namespace Sfap

namespace Net

open IOUring

def IOUring.Call.result (call : Call) : Outcome :=
  match call.args with
  | .connect _ => ConnectAwaiter.awaitResume call
  | .send _ => SendAwaiter.awaitResume call
  | .recv _ => RecvAwaiter.awaitResume call
  | .sleep _ => .status call.error

def IOUring.Call.done (call : Call) : Call :=
  { call with outcome := some call.result }

@[simp]
theorem IOUring.Call.outcome_done (call : Call) : call.done.outcome = some call.result := by
  rfl

@[simp]
theorem IOUring.Call.args_done (call : Call) : call.done.args = call.args := by
  rfl

@[simp]
theorem IOUring.Call.args_onComplete (f : Frame) (call : Call) (result : Int32)
    : (call.onComplete f result).args = call.args := by
  unfold Call.onComplete ConnectAwaiter.onComplete SendAwaiter.onComplete RecvAwaiter.onComplete
    TransferAwaiter.onComplete SleepAwaiter.onComplete
  cases call.args <;> dsimp only <;> split <;> rfl

@[simp]
theorem IOUring.Call.outcome_onComplete (f : Frame) (call : Call) (result : Int32)
    : (call.onComplete f result).outcome = call.outcome := by
  unfold Call.onComplete ConnectAwaiter.onComplete SendAwaiter.onComplete RecvAwaiter.onComplete
    TransferAwaiter.onComplete SleepAwaiter.onComplete
  cases call.args <;> dsimp only <;> split <;> rfl

namespace IOUringProactor

variable {s : IOUringProactor} {f : Frame} {a : Addr} {call : Call}

/--
The part of the state that neither the table of sockets nor the progress of a coroutine touches.
-/
structure SameBooks (s s' : IOUringProactor) : Prop where
  slots : s'.slots = s.slots
  queued : s'.queued = s.queued
  inFlight : s'.inFlight = s.inFlight
  opdata : s'.opdata = s.opdata
  nextFrame : s'.nextFrame = s.nextFrame
  freed : s'.freed = s.freed
  handled : s'.handled = s.handled

theorem SameBooks.refl (s : IOUringProactor) : SameBooks s s := by
  constructor <;> rfl

structure SameCalls (s s' : IOUringProactor) : Prop extends SameBooks s s' where
  calls : s'.calls = s.calls
  resumed : s'.resumed = s.resumed

theorem SameCalls.refl (s : IOUringProactor) : SameCalls s s := by
  exact ⟨.refl s, rfl, rfl⟩

theorem sameCalls_emplaceSocket (s : IOUringProactor) (sid : SocketT) (state : SocketState)
    : SameCalls s (s.emplaceSocket sid state) := by
  unfold emplaceSocket
  split
  . exact ⟨⟨rfl, rfl, rfl, rfl, rfl, rfl, rfl⟩, rfl, rfl⟩
  . apply SameCalls.refl

theorem sameCalls_cleanup (s : IOUringProactor) (sid : SocketT) : SameCalls s (s.cleanup sid) := by
  unfold cleanup
  split
  . apply SameCalls.refl
  . dsimp only
    split <;> exact ⟨⟨rfl, rfl, rfl, rfl, rfl, rfl, rfl⟩, rfl, rfl⟩

theorem sameCalls_close (s : IOUringProactor) (handle : SocketT) : SameCalls s (s.close handle) := by
  unfold close
  split
  . apply SameCalls.refl
  . dsimp only
    split <;> exact ⟨⟨rfl, rfl, rfl, rfl, rfl, rfl, rfl⟩, rfl, rfl⟩

structure Finishes (s : IOUringProactor) (f : Frame) (call : Call) (s' : IOUringProactor) : Prop
    extends SameBooks s s' where
  calls : s'.calls = Function.update s.calls f (some call.done)
  resumed : s'.resumed = s.resumed ++ [f]

theorem connectReturn_eq (s : IOUringProactor) (f : Frame) (call : Call)
    : ∃ s', SameCalls s s'
        ∧ s.connectReturn f call = s'.finish f call (ConnectAwaiter.awaitResume call) := by
  have hcleanup := sameCalls_cleanup s call.socket
  unfold connectReturn
  split
  . next handle heq =>
    rw [heq]
    dsimp only
    split
    . exact ⟨s, .refl s, rfl⟩
    . exact ⟨s.cleanup call.socket, hcleanup, rfl⟩
  . exact ⟨s.cleanup call.socket, hcleanup, rfl⟩

theorem proceed_eq (s : IOUringProactor) (f : Frame) (call : Call)
    : ∃ s', SameCalls s s' ∧ s.proceed f call = s'.setCall f call.done := by
  unfold proceed Call.done Call.result
  cases hargs : call.args with
  | connect address =>
    rcases connectReturn_eq s f call with ⟨s', hsame, heq⟩
    refine ⟨s', hsame, ?_⟩
    dsimp only
    rw [heq, finish, hargs]
  | send data =>
    refine ⟨s, .refl s, ?_⟩
    dsimp only
    rw [finish, hargs]
  | recv data =>
    refine ⟨s, .refl s, ?_⟩
    dsimp only
    rw [finish, hargs]
  | sleep d =>
    refine ⟨s, .refl s, ?_⟩
    dsimp only
    rw [finish, hargs]

theorem resume_spec (hcall : s.calls f = some call) (hout : call.outcome = none)
    : Finishes s f call (s.resume f) := by
  unfold resume
  dsimp only
  rw [hcall]
  dsimp only
  rw [hout, if_neg (by simp)]
  rcases proceed_eq { s with resumed := s.resumed ++ [f] } f call with ⟨s', hsame, heq⟩
  rw [heq]
  constructor
  . exact ⟨hsame.slots, hsame.queued, hsame.inFlight, hsame.opdata, hsame.nextFrame, hsame.freed,
      hsame.handled⟩
  . unfold setCall
    rw [hsame.calls]
  . exact hsame.resumed

theorem exitWith_spec (s : IOUringProactor) (f : Frame) (call : Call) (error : ErrorCode)
    (hout : call.outcome = none)
    : Finishes s f { call with error := error } (s.exitWith f call error) := by
  unfold exitWith
  have hcall : (s.setCall f { call with error := error }).calls f
      = some { call with error := error } := by
    unfold setCall
    apply Function.update_self
  have hresume := resume_spec hcall hout
  constructor
  . exact ⟨hresume.slots, hresume.queued, hresume.inFlight, hresume.opdata, hresume.nextFrame,
      hresume.freed, hresume.handled⟩
  . rw [hresume.calls]
    unfold setCall
    apply Function.update_idem
  . exact hresume.resumed

theorem freeOpdata_eq {cell : Cell} (h : s.opdata a = some cell)
    : s.freeOpdata a
        =
      { s with
        opdata := Function.update s.opdata a (some { cell with live := false })
        freed := s.freed ++ [cell.data.coro]
      } := by
  unfold freeOpdata
  rw [h]

theorem completeOn_eq (hcall : s.calls f = some call) (result : Int32)
    : s.completeOn f result = s.setCall f (call.onComplete f result) := by
  unfold completeOn
  rw [hcall]

end IOUringProactor

end Net

end Sfap
