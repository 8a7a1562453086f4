import Sfap.Net.IOUring.Invariant

/-!
This module contains what each operation of the proactor can do to its books: the call returns at once,
or it is suspended and its entry is handed over.
-/

namespace Sfap

namespace Net

open IOUring

namespace IOUringProactor

def Env.handsOver (env : Env) : Bool :=
  env.sqe.isSome && env.opdata.isSome && !decide (env.submit < 0)

def Op.handsOver (s : IOUringProactor) : Op → Bool
  | .connect _ fd env => !decide (fd < 0) && env.handsOver
  | .sleepFor d env => !decide (d ≤ 0) && env.handsOver
  | .socketSend sid data env => !(data.size == 0) && (s.sockets sid).isSome && env.handsOver
  | .socketRecv sid data env => !(data.size == 0) && (s.sockets sid).isSome && env.handsOver
  | .close _ => false
  | .stop sqe result => sqe.isSome && !decide (result < 0)
  | .handleCqe .. => false

/--
No entry that an earlier failure has left in the queue carries a pointer when the queue is handed over.
-/
def Clean (s : IOUringProactor) (op : Op) : Prop :=
  op.handsOver s = true → ∀ e ∈ s.queued, (s.slots e.slot).userData = none

instance (s : IOUringProactor) (op : Op) : Decidable (s.Clean op) := by
  unfold Clean
  infer_instance

variable {s s' : IOUringProactor} {f : Frame} {a : Addr} {call : Call} {env : Env} {request : Request}

theorem submit_fail {result : Int32} (h : result < 0) : s.submit result = s := by
  unfold submit
  rw [if_pos h]

theorem submit_ok {result : Int32} (h : ¬ result < 0)
    : s.submit result
        =
      { s with
        queued := []
        inFlight := s.inFlight ++ s.queued.map fun e => ⟨s.slots e.slot, e.origin⟩
      } := by
  unfold submit
  rw [if_neg h]

structure Exits (s : IOUringProactor) (f : Frame) (args : Args) (noSqe : ErrorCode) (env : Env)
    (call : Call) (s' : IOUringProactor) : Prop where
  finishes : ∃ s₁, Prepared s f s₁ ∧ Finishes s₁ f call s'
  args_eq : call.args = args
  error : call.error.toBool = true ∨ (env.sqe = none ∧ call.error = noSqe)

theorem suspendOn_submit_fail {slot : Nat} (hout : call.outcome = none) (hsqe : env.sqe = some slot)
    (hopdata : env.opdata = some a) (hfree : ∀ cell ∈ s.opdata a, cell.live = false)
    (hfail : env.submit < 0) (noSqe : ErrorCode) (request : Request)
    : ∃ call', Exits s f call.args noSqe env call' (s.suspendOn f call noSqe request env) := by
  let s₁ := ((s.getSqe slot (some f)).allocOpdata a ⟨call.args.type, call.socket, f, f⟩).prep slot
    request (some a)
  have hcell : s₁.opdata a = some ⟨⟨call.args.type, call.socket, f, f⟩, true⟩ := by
    apply Function.update_self
  refine ⟨{ call with operation := some a, error := .networkError (-env.submit) }, ?_, rfl, ?_⟩
  . refine ⟨s₁.freeOpdata a, ?_, ?_⟩
    . rw [freeOpdata_eq hcell]
      constructor
      . rfl
      . rfl
      . rfl
      . intro a' data ha'
        dsimp only
        rw [Function.update_of_ne]
        . apply Function.update_of_ne
          intro heq
          rw [heq] at ha'
          have hlive := hfree _ ha'
          simp at hlive
        . intro heq
          rw [heq] at ha'
          have hlive := hfree _ ha'
          simp at hlive
      . rfl
      . right
        rfl
      . rfl
    . unfold suspendOn
      rw [hsqe]
      dsimp only
      rw [hopdata]
      dsimp only
      rw [if_pos hfail, submit_fail hfail]
      apply exitWith_spec (s₁.freeOpdata a) f { call with operation := some a } _ hout
  . left
    apply ErrorCode.toBool_networkError_neg hfail

theorem suspendOn_submit_ok {slot : Nat} (hsqe : env.sqe = some slot) (hopdata : env.opdata = some a)
    (hok : ¬ env.submit < 0) (hslot : ∀ e ∈ s.queued, e.slot ≠ slot)
    (hclean : ∀ e ∈ s.queued, (s.slots e.slot).userData = none) (noSqe : ErrorCode)
    (request : Request)
    : Launches s f { call with operation := some a } a request
        (s.suspendOn f call noSqe request env) := by
  unfold suspendOn
  rw [hsqe]
  dsimp only
  rw [hopdata]
  dsimp only
  rw [if_neg hok, submit_ok hok]
  constructor
  . rfl
  . rfl
  . refine ⟨s.queued.map fun e => ⟨s.slots e.slot, e.origin⟩, ?_, ?_⟩
    . intro e he
      rw [List.mem_map] at he
      rcases he with ⟨q, hq, rfl⟩
      apply hclean q hq
    . unfold setCall prep allocOpdata getSqe
      dsimp only
      rw [List.map_append, List.map_singleton, Function.update_self]
      congr 2
      apply List.map_congr_left
      intro q hq
      rw [Function.update_of_ne (hslot q hq)]
  . rfl
  . rfl
  . rfl
  . rfl

theorem suspendOn_cases (hout : call.outcome = none) (hoffers : s.Offers env.sqe env.opdata)
    (hclean : env.handsOver = true → ∀ e ∈ s.queued, (s.slots e.slot).userData = none)
    (noSqe : ErrorCode) (request : Request)
    : (∃ call', Exits s f call.args noSqe env call' (s.suspendOn f call noSqe request env))
        ∨
      ∃ a, (∀ cell ∈ s.opdata a, cell.live = false)
        ∧ Launches s f { call with operation := some a } a request
            (s.suspendOn f call noSqe request env) := by
  cases hsqe : env.sqe with
  | none =>
    left
    refine ⟨{ call with error := noSqe }, ⟨s, .refl s f, ?_⟩, rfl, Or.inr ⟨hsqe, rfl⟩⟩
    unfold suspendOn
    rw [hsqe]
    apply exitWith_spec
    exact hout
  | some slot =>
    have hslot : ∀ e ∈ s.queued, e.slot ≠ slot := hoffers.1 slot hsqe
    cases hopdata : env.opdata with
    | none =>
      left
      refine ⟨{ call with error := .genericError .notEnoughMemory },
        ⟨s.getSqe slot (some f), ?_, ?_⟩, rfl, Or.inl rfl⟩
      . exact ⟨rfl, rfl, rfl, fun _ _ _ => rfl, rfl, Or.inl rfl, rfl⟩
      . unfold suspendOn
        rw [hsqe]
        dsimp only
        rw [hopdata]
        apply exitWith_spec
        exact hout
    | some a =>
      have hfree : ∀ cell ∈ s.opdata a, cell.live = false := hoffers.2 a hopdata
      by_cases hfail : env.submit < 0
      . left
        apply suspendOn_submit_fail hout hsqe hopdata hfree hfail
      . right
        refine ⟨a, hfree, suspendOn_submit_ok hsqe hopdata hfail hslot ?_ noSqe request⟩
        apply hclean
        simp [Env.handsOver, hsqe, hopdata, hfail]

def Idle : Args → Prop
  | .connect _ => False
  | .send data => data.size = 0
  | .recv data => data.size = 0
  | .sleep d => d ≤ 0

def IsError : Outcome → Prop
  | .socket _ => False
  | .bytes _ => False
  | .status error => error.toBool = true
  | .unexpected _ => True

def Fails (call : Call) : Prop :=
  ∃ outcome, call.outcome = some outcome ∧ (Idle call.args ∨ IsError outcome)

theorem isError_result (h : call.error.toBool = true) : IsError call.result := by
  unfold Call.result SendAwaiter.awaitResume RecvAwaiter.awaitResume TransferAwaiter.awaitResume
    ConnectAwaiter.awaitResume
  rw [h]
  cases call.args with
  | connect address => trivial
  | send data => trivial
  | recv data => trivial
  | sleep d => exact h

theorem done_fails (h : call.error.toBool = true) : Fails call.done := by
  exact ⟨call.result, rfl, Or.inr (isError_result h)⟩

structure Begins (s s₀ : IOUringProactor) : Prop extends Unchanged s s₀ where
  slots : s₀.slots = s.slots
  queued : s₀.queued = s.queued
  nextFrame_eq : s₀.nextFrame = s.nextFrame + 1

inductive Called (s : IOUringProactor) (args : Args) (informed : Prop) (s' : IOUringProactor) : Prop
    where
  | returns {s₀ : IOUringProactor} {call : Call} :
      Begins s s₀ → Ends s₀ s.nextFrame call s' → call.args = args → s'.handled = s.handled →
      (informed → Fails call) → Called s args informed s'
  | suspends {s₀ : IOUringProactor} {call : Call} {a : Addr} {request : Request} :
      Begins s s₀ → Launches s₀ s.nextFrame call a request s' → call.args = args →
      call.outcome = none → call.operation = some a → request.type = some args.type →
      (∀ cell ∈ s.opdata a, cell.live = false) → Called s args informed s'

theorem begins_newFrame (s : IOUringProactor) : Begins s s.newFrame.2 := by
  constructor
  . exact ⟨⟨[], by simp, (List.append_nil _).symm⟩, rfl, rfl, Nat.le_succ _, rfl, rfl, rfl⟩
  . rfl
  . rfl
  . rfl

theorem Begins.lt {s₀ : IOUringProactor} (h : Begins s s₀) : s.nextFrame < s₀.nextFrame := by
  rw [h.nextFrame_eq]
  apply Nat.lt_succ_self _

section Call

variable {s₀ : IOUringProactor} {args : Args} {informed : Prop} (hs₀ : Begins s s₀)
  (hfresh : s.calls s.nextFrame = none)

include hs₀ hfresh

theorem called_of_finish {call : Call} (hargs : call.args = args) (outcome : Outcome)
    (hfails : informed → Fails { call with outcome := some outcome })
    : Called s args informed (s₀.finish s.nextFrame call outcome) := by
  have hf : s₀.calls s.nextFrame = none := by
    rw [hs₀.calls]
    exact hfresh
  have hends : Ends s₀ s.nextFrame { call with outcome := some outcome }
      (s₀.finish s.nextFrame call outcome) := by
    constructor
    . apply not_done_of_none hf
    . exact hs₀.lt
    . rfl
    . rfl
    . rfl
    . apply List.Sublist.refl
    . intro e _ a f' call' _ haw
      exact ⟨haw.frame_ne hf, rfl⟩
    . exact Or.inl rfl
    . exact Or.inl rfl
    . intro entry hentry
      exact Or.inl hentry
  exact .returns hs₀ hends hargs hs₀.handled hfails

theorem called_of_exits {noSqe : ErrorCode} (hexits : Exits s₀ s.nextFrame args noSqe env call s')
    (hinformed : informed → env.sqe = none → noSqe.toBool = true)
    : Called s args informed s' := by
  have hf : s₀.calls s.nextFrame = none := by
    rw [hs₀.calls]
    exact hfresh
  rcases hexits.finishes with ⟨s₁, hprepared, hfin⟩
  apply Called.returns hs₀ (hprepared.ends hfin hf hs₀.lt)
  . exact hexits.args_eq
  . rw [hfin.handled, hprepared.handled, hs₀.handled]
  . intro hi
    apply done_fails
    rcases hexits.error with herror | ⟨hsqe, herror⟩
    . exact herror
    . rw [herror]
      apply hinformed hi hsqe

theorem called_of_exitWith {sid : SocketT} (error : ErrorCode)
    (hinformed : informed → error.toBool = true)
    : Called s args informed (s₀.exitWith s.nextFrame (.init args sid) error) := by
  have hexit := exitWith_spec s₀ s.nextFrame (.init args sid) error rfl
  have hexits : Exits s₀ s.nextFrame args error ⟨0, none, none, 0⟩
      { Call.init args sid with error := error } _ := ⟨⟨s₀, .refl s₀ _, hexit⟩, rfl, Or.inr ⟨rfl, rfl⟩⟩
  apply called_of_exits hs₀ hfresh hexits
  intro hi _
  apply hinformed hi

theorem called_of_suspendOn (hoffers : s.Offers env.sqe env.opdata)
    (hclean : env.handsOver = true → ∀ e ∈ s.queued, (s.slots e.slot).userData = none)
    {sid : SocketT} {noSqe : ErrorCode} {request : Request} (hreq : request.type = some args.type)
    (hinformed : informed → env.sqe = none → noSqe.toBool = true)
    : Called s args informed (s₀.suspendOn s.nextFrame (.init args sid) noSqe request env) := by
  have hoffers₀ : s₀.Offers env.sqe env.opdata := by
    unfold Offers
    rw [hs₀.queued, hs₀.opdata]
    exact hoffers
  have hclean₀ : env.handsOver = true → ∀ e ∈ s₀.queued, (s₀.slots e.slot).userData = none := by
    rw [hs₀.queued, hs₀.slots]
    exact hclean
  have hout : (Call.init args sid).outcome = none := rfl
  rcases suspendOn_cases hout hoffers₀ hclean₀ noSqe request with ⟨call, hexits⟩ | ⟨a, hfree, hl⟩
  . apply called_of_exits hs₀ hfresh hexits hinformed
  . apply Called.suspends hs₀ hl
    . rfl
    . rfl
    . rfl
    . exact hreq
    . rw [← hs₀.opdata]
      exact hfree

end Call

theorem emplaceSocket_isSome (s : IOUringProactor) (sid : SocketT) (state : SocketState)
    : ∃ state', (s.emplaceSocket sid state).sockets sid = some state' := by
  unfold emplaceSocket
  split
  . refine ⟨state, ?_⟩
    apply Function.update_self
  . next state' heq => exact ⟨state', heq⟩

theorem Begins.emplaceSocket {s₀ : IOUringProactor} (h : Begins s s₀) (sid next : SocketT)
    (state : SocketState)
    : Begins s ({ s₀ with nextHandleId := next }.emplaceSocket sid state) := by
  have hsame := sameCalls_emplaceSocket { s₀ with nextHandleId := next } sid state
  constructor
  . constructor
    . rw [hsame.inFlight]
      exact h.inFlight
    . rw [hsame.opdata, ← h.opdata]
    . rw [hsame.calls, ← h.calls]
    . rw [hsame.nextFrame]
      exact h.nextFrame
    . rw [hsame.resumed, ← h.resumed]
    . rw [hsame.freed, ← h.freed]
    . rw [hsame.handled, ← h.handled]
  . rw [hsame.slots, ← h.slots]
  . rw [hsame.queued, ← h.queued]
  . rw [hsame.nextFrame, ← h.nextFrame_eq]

-- `errno` has been set by then, in the case that there is no entry
def Env.Informed (env : Env) : Prop :=
  env.sqe = none → env.errno ≠ 0

theorem Env.Informed.toBool (h : env.Informed) (hsqe : env.sqe = none)
    : (ErrorCode.networkError env.errno).toBool = true := by
  rw [ErrorCode.toBool_networkError, bne_iff_ne]
  apply h hsqe

section Operations

variable (hfresh : s.calls s.nextFrame = none) (hoffers : s.Offers env.sqe env.opdata)

include hfresh hoffers

theorem called_connect {address : InternalAddress} {fd : Int32} (hclean : s.Clean (.connect address fd env))
    : Called s (.connect address) (¬ fd < 0 → env.Informed) (s.connect address fd env) := by
  unfold connect newFrame
  dsimp only
  split
  . apply called_of_finish (begins_newFrame s) hfresh
    . rfl
    . intro _
      exact ⟨_, rfl, Or.inr trivial⟩
  . next hfd =>
    have hbegins := (begins_newFrame s).emplaceSocket s.nextHandleId (s.nextHandleId + 1) ⟨fd, false⟩
    unfold newFrame at hbegins
    dsimp only at hbegins
    unfold ConnectAwaiter.awaitSuspend
    split
    . next hnone =>
      rcases emplaceSocket_isSome _ s.nextHandleId ⟨fd, false⟩ with ⟨state, hstate⟩
      cases hstate.symm.trans hnone
    . apply called_of_suspendOn hbegins hfresh hoffers
      . intro hover
        apply hclean
        simp [Op.handsOver, hfd, hover]
      . rfl
      . intro hinformed
        exact (hinformed hfd).toBool

theorem called_sleepFor {d : Int64} (hclean : s.Clean (.sleepFor d env))
    : Called s (.sleep d) (¬ d ≤ 0 → env.Informed) (s.sleepFor d env) := by
  unfold sleepFor newFrame
  dsimp only
  split
  . next hd =>
    apply called_of_finish (begins_newFrame s) hfresh
    . rfl
    . intro _
      exact ⟨_, rfl, Or.inl hd⟩
  . next hd =>
    unfold SleepAwaiter.awaitSuspend
    apply called_of_suspendOn (begins_newFrame s) hfresh hoffers
    . intro hover
      apply hclean
      simp [Op.handsOver, hd, hover]
    . rfl
    . intro hinformed
      exact (hinformed hd).toBool

theorem called_transfer {args : Args} {sid : SocketT} {data : ByteSpan} {request : Int32 → Request}
    {informed : Prop} (hdata : ¬ (data.size == 0) = true)
    (hreq : ∀ fd, (request fd).type = some args.type)
    (hclean : (s.sockets sid).isSome = true → env.handsOver = true →
      ∀ e ∈ s.queued, (s.slots e.slot).userData = none)
    (hinformed : informed → (s.sockets sid).isSome = true ∧ env.sqe.isSome = true)
    : Called s args informed
        (TransferAwaiter.awaitSuspend s.newFrame.2 s.nextFrame (.init args sid) data request env) := by
  unfold TransferAwaiter.awaitSuspend
  split
  . next hnone =>
    have hnone' : s.sockets sid = none := hnone
    apply called_of_exitWith (begins_newFrame s) hfresh
    intro hi
    have hsome := (hinformed hi).1
    simp [hnone'] at hsome
  . next state hstate =>
    have hstate' : s.sockets sid = some state := hstate
    rw [if_neg hdata]
    apply called_of_suspendOn (begins_newFrame s) hfresh hoffers
    . apply hclean
      rw [hstate']
      rfl
    . apply hreq
    . intro hi hsqe
      have hsome := (hinformed hi).2
      simp [hsqe] at hsome

theorem called_socketSend {sid : SocketT} {data : ByteSpan} (hclean : s.Clean (.socketSend sid data env))
    : Called s (.send data)
        (data.size ≠ 0 → (s.sockets sid).isSome = true ∧ env.sqe.isSome = true)
        (s.socketSend sid data env) := by
  unfold socketSend
  dsimp only
  split
  . next hdata =>
    apply called_of_finish (begins_newFrame s) hfresh
    . rfl
    . intro _
      exact ⟨_, rfl, Or.inl (beq_iff_eq.mp hdata)⟩
  . next hdata =>
    apply called_transfer hfresh hoffers hdata
    . intro fd
      rfl
    . intro hsome hover
      apply hclean
      simp [Op.handsOver, hdata, hsome, hover]
    . intro hinformed
      apply hinformed
      simpa using hdata

theorem called_socketRecv {sid : SocketT} {data : ByteSpan} (hclean : s.Clean (.socketRecv sid data env))
    : Called s (.recv data)
        (data.size ≠ 0 → (s.sockets sid).isSome = true ∧ env.sqe.isSome = true)
        (s.socketRecv sid data env) := by
  unfold socketRecv
  dsimp only
  split
  . next hdata =>
    apply called_of_finish (begins_newFrame s) hfresh
    . rfl
    . intro _
      exact ⟨_, rfl, Or.inl (beq_iff_eq.mp hdata)⟩
  . next hdata =>
    apply called_transfer hfresh hoffers hdata
    . intro fd
      rfl
    . intro hsome hover
      apply hclean
      simp [Op.handsOver, hdata, hsome, hover]
    . intro hinformed
      apply hinformed
      simpa using hdata

end Operations

end IOUringProactor

end Net

end Sfap
