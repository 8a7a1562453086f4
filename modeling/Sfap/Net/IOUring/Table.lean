import Sfap.Net.IOUring.Bookkeeping

/-!
This module contains the table of sockets as a machine of its own, and the proof that every operation of
the proactor is a step of it.
-/

namespace Sfap

namespace Net

open IOUring

/--
What the table depends on in a call: its arguments, the handle that it is for, and its outcome.
-/
structure IOUring.Key where
  args : Args
  socket : SocketT
  outcome : Option Outcome
  deriving DecidableEq, Repr

def IOUring.Call.key (call : Call) : Key :=
  ⟨call.args, call.socket, call.outcome⟩

structure Table where
  sockets : SocketT → Option SocketState
  nextHandleId : SocketT
  closed : List Int32
  nextFrame : Frame
  keys : Frame → Option Key

def IOUringProactor.table (s : IOUringProactor) : Table where
  sockets := s.sockets
  nextHandleId := s.nextHandleId
  closed := s.closed
  nextFrame := s.nextFrame
  keys f := (s.calls f).map Call.key

namespace Table

open IOUringProactor (Op Env)

-- what an entry that is erased closes
def released : Option SocketState → List Int32
  | none => []
  | some state => if state.handle ≥ 0 then [state.handle] else []

@[simp]
theorem released_none : released none = [] := rfl

theorem released_some (state : SocketState)
    : released (some state) = if state.handle ≥ 0 then [state.handle] else [] := rfl

def erase (t : Table) (sid : SocketT) : Table :=
  { t with
    sockets := Function.update t.sockets sid none
    closed := t.closed ++ released (t.sockets sid)
  }

-- an entry that is being closed already is not closed again
def close (t : Table) (handle : SocketT) : Table :=
  { t with
    sockets := Function.update t.sockets handle none
    closed := t.closed ++ released ((t.sockets handle).filter fun state => !state.closing)
  }

-- an entry that is there is kept
def emplace (t : Table) (sid : SocketT) (state : SocketState) : Table :=
  { t with sockets := Function.update t.sockets sid (some ((t.sockets sid).getD state)) }

def setKey (t : Table) (f : Frame) (key : Key) : Table :=
  { t with keys := Function.update t.keys f (some key) }

def register (t : Table) (fd : Int32) : Table :=
  { t with nextHandleId := t.nextHandleId + 1 }.emplace t.nextHandleId ⟨fd, false⟩

def call (t : Table) (key : Key) : Table :=
  { t with nextFrame := t.nextFrame + 1 }.setKey t.nextFrame key

theorem sockets_erase (t : Table) (sid sid' : SocketT)
    : (t.erase sid).sockets sid' = if sid' = sid then none else t.sockets sid' := by
  apply Function.update_apply

theorem keys_setKey (t : Table) (f : Frame) (key : Key) (g : Frame)
    : (t.setKey f key).keys g = if g = f then some key else t.keys g := by
  apply Function.update_apply

theorem keys_call (t : Table) (key : Key) (f : Frame)
    : (t.call key).keys f = if f = t.nextFrame then some key else t.keys f := by
  apply keys_setKey

theorem keys_register (t : Table) (fd : Int32) (key : Key) (f : Frame)
    : ((t.register fd).call key).keys f = if f = t.nextFrame then some key else t.keys f := by
  apply keys_call

theorem sockets_register {t : Table} (hnone : t.sockets t.nextHandleId = none) (fd : Int32) (key : Key)
    (sid : SocketT)
    : ((t.register fd).call key).sockets sid
        =
      if sid = t.nextHandleId then some ⟨fd, false⟩ else t.sockets sid := by
  have hupdate : ((t.register fd).call key).sockets sid = _ := Function.update_apply _ _ _ _
  rw [hupdate]
  dsimp only
  rw [hnone, Option.getD_none]

def GivesUp (args : Args) (outcome : Outcome) : Prop :=
  args.type = .connect ∧ ∀ sid, outcome = .socket sid → sid = 0

inductive Finish (t : Table) (f : Frame) (args : Args) (sid : SocketT) : Table → Prop where
  | keeps {outcome : Outcome} :
      ¬ GivesUp args outcome → (args.type = .connect → outcome = .socket sid) →
      Finish t f args sid (t.setKey f ⟨args, sid, some outcome⟩)
  | erases {outcome : Outcome} :
      GivesUp args outcome → (∀ handle, outcome = .socket handle → handle = sid) →
      Finish t f args sid ((t.erase sid).setKey f ⟨args, sid, some outcome⟩)

inductive Step (t : Table) : Op → Table → Prop where
  | connect_refused {address : InternalAddress} {fd : Int32} {env : Env} {error : ErrorCode} :
      fd < 0 →
      Step t (.connect address fd env) (t.call ⟨.connect address, 0, some (.unexpected error)⟩)
  | connect_suspended {address : InternalAddress} {fd : Int32} {env : Env} :
      ¬ fd < 0 →
      Step t (.connect address fd env)
        ((t.register fd).call ⟨.connect address, t.nextHandleId, none⟩)
  | connect_finished {address : InternalAddress} {fd : Int32} {env : Env} {t' : Table} :
      ¬ fd < 0 →
      Finish ((t.register fd).call ⟨.connect address, t.nextHandleId, none⟩) t.nextFrame
        (.connect address) t.nextHandleId t' →
      Step t (.connect address fd env) t'
  | called {op : Op} {key : Key} :
      (∀ address fd env, op ≠ .connect address fd env) → key.args.type ≠ .connect →
      Step t op (t.call key)
  | closed {handle : SocketT} : Step t (.close handle) (t.close handle)
  | stopped {sqe : Option Nat} {result : Int32} : Step t (.stop sqe result) t
  | completed_none {i : Nat} {result : Int32} : Step t (.handleCqe i result) t
  | completed {i : Nat} {result : Int32} {f : Frame} {args : Args} {sid : SocketT} {t' : Table} :
      t.keys f = some ⟨args, sid, none⟩ → Finish t f args sid t' →
      Step t (.handleCqe i result) t'

end Table

namespace IOUringProactor

open Table

variable {s s' : IOUringProactor} {f : Frame} {a : Addr} {call call' : Call} {env : Env}

theorem table_setCall (s : IOUringProactor) (f : Frame) (call : Call)
    : (s.setCall f call).table = s.table.setKey f call.key := by
  unfold table setCall setKey
  congr 1
  funext g
  dsimp only
  rw [Function.update_apply, Function.update_apply]
  split <;> rfl

theorem table_setCall_same (hcall : s.calls f = some call) (hkey : call'.key = call.key)
    : (s.setCall f call').table = s.table := by
  rw [table_setCall, hkey]
  unfold setKey
  have hkeys : s.table.keys f = some call.key := by
    unfold table
    dsimp only
    rw [hcall]
    rfl
  rw [← hkeys, Function.update_eq_self]

theorem socket_onComplete (f : Frame) (call : Call) (result : Int32)
    : (call.onComplete f result).socket = call.socket := by
  unfold Call.onComplete ConnectAwaiter.onComplete SendAwaiter.onComplete RecvAwaiter.onComplete
    TransferAwaiter.onComplete SleepAwaiter.onComplete
  cases call.args <;> dsimp only <;> split <;> rfl

theorem key_onComplete (f : Frame) (call : Call) (result : Int32)
    : (call.onComplete f result).key = call.key := by
  unfold Call.key
  rw [Call.args_onComplete, Call.outcome_onComplete, socket_onComplete]

theorem table_completeOn (s : IOUringProactor) (f : Frame) (result : Int32)
    : (s.completeOn f result).table = s.table := by
  unfold completeOn
  split
  . rfl
  . next call hcall =>
    apply table_setCall_same hcall
    apply key_onComplete

theorem table_freeOpdata (s : IOUringProactor) (a : Addr) : (s.freeOpdata a).table = s.table := by
  unfold freeOpdata
  split <;> rfl

theorem table_submit (s : IOUringProactor) (result : Int32) : (s.submit result).table = s.table := by
  unfold submit
  split <;> rfl

theorem sockets_update_none {sid : SocketT} (hnone : s.sockets sid = none)
    : Function.update s.table.sockets sid none = s.table.sockets := by
  rw [← hnone]
  apply Function.update_eq_self

theorem table_cleanup (s : IOUringProactor) (sid : SocketT)
    : (s.cleanup sid).table = s.table.erase sid := by
  unfold cleanup erase
  have htable : s.table.sockets sid = s.sockets sid := rfl
  rw [htable]
  cases hentry : s.sockets sid with
  | none =>
    rw [sockets_update_none hentry, released_none, List.append_nil]
  | some state =>
    dsimp only
    rw [released_some]
    split
    . rfl
    . rw [List.append_nil]
      rfl

theorem table_close (s : IOUringProactor) (handle : SocketT)
    : (s.close handle).table = s.table.close handle := by
  unfold close Table.close
  have htable : s.table.sockets handle = s.sockets handle := rfl
  rw [htable]
  cases hentry : s.sockets handle with
  | none =>
    rw [sockets_update_none hentry, Option.filter_none, released_none, List.append_nil]
  | some state =>
    dsimp only
    rw [Option.filter_some]
    cases hclosing : state.closing with
    | true =>
      simp only [Bool.not_true, Bool.false_and, Bool.false_eq_true, if_false, released_none,
        List.append_nil]
      rfl
    | false =>
      simp only [Bool.not_false, Bool.true_and, if_true, released_some, decide_eq_true_eq]
      split
      . rfl
      . rw [List.append_nil]
        rfl

theorem table_emplaceSocket (s : IOUringProactor) (sid : SocketT) (state : SocketState)
    : (s.emplaceSocket sid state).table = s.table.emplace sid state := by
  unfold emplaceSocket Table.emplace
  have htable : s.table.sockets sid = s.sockets sid := rfl
  rw [htable]
  cases hentry : s.sockets sid with
  | none => rfl
  | some old =>
    have hsame : Function.update s.table.sockets sid (some old) = s.table.sockets := by
      rw [← hentry]
      apply Function.update_eq_self
    rw [Option.getD_some, hsame]

theorem table_finish (s : IOUringProactor) (f : Frame) (call : Call) (outcome : Outcome)
    : (s.finish f call outcome).table = s.table.setKey f ⟨call.args, call.socket, some outcome⟩ := by
  unfold finish
  apply table_setCall

theorem table_connectReturn {address : InternalAddress} (hargs : call.args = .connect address)
    : Finish s.table f call.args call.socket (s.connectReturn f call).table := by
  unfold connectReturn
  have hgives : ∀ outcome, (∀ sid, outcome ≠ .socket sid) → GivesUp call.args outcome := by
    intro outcome hnot
    refine ⟨by rw [hargs]; rfl, ?_⟩
    intro sid hsid
    exact absurd hsid (hnot sid)
  split
  . next handle hresult =>
    have hhandle : handle = call.socket := by
      unfold ConnectAwaiter.awaitResume at hresult
      split at hresult
      . simp at hresult
      . simpa using hresult.symm
    dsimp only
    split
    . next hne =>
      rw [table_finish]
      apply Finish.keeps
      . rintro ⟨_, hzero⟩
        rw [hzero handle rfl] at hne
        simp at hne
      . intro _
        rw [hhandle]
    . next hzero =>
      rw [table_finish, table_cleanup]
      apply Finish.erases
      . refine ⟨by rw [hargs]; rfl, ?_⟩
        intro sid hsid
        rw [Outcome.socket.injEq] at hsid
        rw [← hsid]
        simpa using hzero
      . intro sid hsid
        rw [Outcome.socket.injEq] at hsid
        rw [← hsid, hhandle]
  . next hresult =>
    rw [table_finish, table_cleanup]
    apply Finish.erases
    . apply hgives
      exact hresult
    . intro sid hsid
      exact absurd hsid (hresult sid)

theorem table_proceed (s : IOUringProactor) (f : Frame) (call : Call)
    : Finish s.table f call.args call.socket (s.proceed f call).table := by
  have hother (outcome : Outcome) (hne : call.args.type ≠ .connect)
      : Finish s.table f call.args call.socket (s.finish f call outcome).table := by
    rw [table_finish]
    apply Finish.keeps
    . rintro ⟨heq, _⟩
      apply hne heq
    . intro heq
      exact absurd heq hne
  unfold proceed
  split
  . next address hargs => apply table_connectReturn hargs
  . next hargs => exact hother _ (by simp [hargs, Args.type])
  . next hargs => exact hother _ (by simp [hargs, Args.type])
  . next hargs => exact hother _ (by simp [hargs, Args.type])

theorem table_resume (hcall : s.calls f = some call) (hout : call.outcome = none)
    : Finish s.table f call.args call.socket (s.resume f).table := by
  unfold resume
  dsimp only
  rw [hcall]
  dsimp only
  rw [hout, if_neg (by simp)]
  apply table_proceed { s with resumed := s.resumed ++ [f] } f call

theorem table_resume_done (hcall : ∀ call, s.calls f = some call → call.outcome ≠ none)
    : (s.resume f).table = s.table := by
  unfold resume
  dsimp only
  split
  . rfl
  . next call hsome =>
    rw [if_pos]
    . rfl
    . rw [Option.isSome_iff_ne_none]
      apply hcall call hsome

theorem table_exitWith (hout : call.outcome = none) (error : ErrorCode)
    : Finish (s.table.setKey f call.key) f call.args call.socket (s.exitWith f call error).table := by
  unfold exitWith
  have hcall : (s.setCall f { call with error := error }).calls f = some { call with error := error } :=
    Function.update_self _ _ _
  have hfin := table_resume hcall hout
  rw [table_setCall] at hfin
  exact hfin

theorem table_suspendOn (hout : call.outcome = none) (noSqe : ErrorCode) (request : Request)
    : (s.suspendOn f call noSqe request env).table = s.table.setKey f call.key
        ∨
      Finish (s.table.setKey f call.key) f call.args call.socket
        (s.suspendOn f call noSqe request env).table := by
  unfold suspendOn
  split
  . right
    apply table_exitWith hout
  . next slot _ =>
    dsimp only
    split
    . right
      apply table_exitWith (s := s.getSqe slot (some f)) hout _
    . next a _ =>
      split
      . right
        have hfin (s₁ : IOUringProactor) (htable : s₁.table = s.table)
            : Finish (s.table.setKey f call.key) f call.args call.socket
                (s₁.exitWith f { call with operation := some a } (.networkError (-env.submit))).table := by
          rw [← htable]
          have hcall : ({ call with operation := some a } : Call).outcome = none := hout
          have hfin := table_exitWith (s := s₁) (f := f) hcall (.networkError (-env.submit))
          exact hfin
        apply hfin
        rw [table_freeOpdata, table_submit]
        rfl
      . left
        rw [table_setCall, table_submit]
        rfl

theorem table_transfer (hout : call.outcome = none) (data : ByteSpan) (request : Int32 → Request)
    : (TransferAwaiter.awaitSuspend s f call data request env).table = s.table.setKey f call.key
        ∨
      Finish (s.table.setKey f call.key) f call.args call.socket
        (TransferAwaiter.awaitSuspend s f call data request env).table := by
  unfold TransferAwaiter.awaitSuspend
  split
  . right
    apply table_exitWith hout
  . split
    . right
      apply table_exitWith hout
    . apply table_suspendOn hout

theorem table_connectSuspend (s : IOUringProactor) (f : Frame) (hout : call.outcome = none)
    (address : InternalAddress) (env : Env)
    : (ConnectAwaiter.awaitSuspend s f call address env).table = s.table.setKey f call.key
        ∨
      Finish (s.table.setKey f call.key) f call.args call.socket
        (ConnectAwaiter.awaitSuspend s f call address env).table := by
  unfold ConnectAwaiter.awaitSuspend
  split
  . right
    apply table_exitWith hout
  . apply table_suspendOn hout

theorem table_connect (s : IOUringProactor) (address : InternalAddress) (fd : Int32) (env : Env)
    : Table.Step s.table (.connect address fd env) (s.connect address fd env).table := by
  unfold connect
  dsimp only
  split
  . next hfd =>
    rw [table_finish]
    exact .connect_refused hfd
  . next hfd =>
    generalize hs₁ : ({ s.newFrame.2 with nextHandleId := s.newFrame.2.nextHandleId + 1 }
      : IOUringProactor).emplaceSocket s.newFrame.2.nextHandleId ⟨fd, false⟩ = s₁
    have hcall : s₁.table.setKey s.nextFrame (Call.init (.connect address) s.nextHandleId).key
        = (s.table.register fd).call ⟨.connect address, s.table.nextHandleId, none⟩ := by
      rw [← hs₁, table_emplaceSocket]
      rfl
    have hcases := table_connectSuspend s₁ s.nextFrame
      (rfl : (Call.init (.connect address) s.nextHandleId).outcome = none) address env
    rw [hcall] at hcases
    rcases hcases with heq | hfin
    . have hstep : Step s.table (.connect address fd env) _ := .connect_suspended hfd
      rw [← heq] at hstep
      exact hstep
    . exact .connect_finished hfd hfin

theorem table_call {op : Op} {args : Args} {sid : SocketT} {s' : IOUringProactor}
    (hop : ∀ address fd env, op ≠ .connect address fd env) (hargs : args.type ≠ .connect)
    (hcases : s'.table = s.newFrame.2.table.setKey s.nextFrame ⟨args, sid, none⟩
      ∨ Finish (s.newFrame.2.table.setKey s.nextFrame ⟨args, sid, none⟩) s.nextFrame args sid s'.table)
    : Table.Step s.table op s'.table := by
  rcases hcases with heq | hfin
  . rw [heq]
    exact .called hop hargs
  . generalize s'.table = t' at hfin ⊢
    cases hfin with
    | @keeps outcome _ _ =>
      have hstep : Table.Step s.table op (s.table.call ⟨args, sid, some outcome⟩) := .called hop hargs
      have heq : (s.newFrame.2.table.setKey s.nextFrame ⟨args, sid, none⟩).setKey s.nextFrame
          ⟨args, sid, some outcome⟩ = s.table.call ⟨args, sid, some outcome⟩ := by
        unfold Table.setKey Table.call
        dsimp only
        rw [Function.update_idem]
        rfl
      rw [heq]
      exact hstep
    | erases hgives _ => exact absurd hgives.1 hargs

theorem table_finished {op : Op} {args : Args} {sid : SocketT} {outcome : Outcome}
    (hop : ∀ address fd env, op ≠ .connect address fd env) (hargs : args.type ≠ .connect)
    : Table.Step s.table op (s.newFrame.2.finish s.nextFrame (.init args sid) outcome).table := by
  rw [table_finish]
  exact .called hop hargs

theorem table_sleepFor (s : IOUringProactor) (d : Int64) (env : Env)
    : Table.Step s.table (.sleepFor d env) (s.sleepFor d env).table := by
  unfold sleepFor
  dsimp only
  split
  . apply table_finished <;> simp [Args.type]
  . apply table_call _ _ (table_suspendOn rfl _ _) <;> simp [Args.type, Call.init]

theorem table_socketSend (s : IOUringProactor) (sid : SocketT) (data : ByteSpan) (env : Env)
    : Table.Step s.table (.socketSend sid data env) (s.socketSend sid data env).table := by
  unfold socketSend
  dsimp only
  split
  . apply table_finished <;> simp [Args.type]
  . apply table_call _ _ (table_transfer rfl _ _) <;> simp [Args.type, Call.init]

theorem table_socketRecv (s : IOUringProactor) (sid : SocketT) (data : ByteSpan) (env : Env)
    : Table.Step s.table (.socketRecv sid data env) (s.socketRecv sid data env).table := by
  unfold socketRecv
  dsimp only
  split
  . apply table_finished <;> simp [Args.type]
  . apply table_call _ _ (table_transfer rfl _ _) <;> simp [Args.type, Call.init]

theorem table_stop (s : IOUringProactor) (sqe : Option Nat) (result : Int32)
    : (s.stop sqe result).table = s.table := by
  unfold stop
  dsimp only
  split
  . rfl
  . rw [table_submit]
    rfl

theorem table_handleCqe {cqe : InFlight} {result : Int32} {i : Nat}
    (hstep : s.handleCqe cqe result = some s')
    : Table.Step s.table (.handleCqe i result) s'.table := by
  unfold handleCqe at hstep
  split at hstep
  . rw [Option.some.injEq] at hstep
    rw [← hstep]
    exact .completed_none
  . next a _ =>
    split at hstep
    . simp at hstep
    . next cell _ =>
      rw [Option.some.injEq] at hstep
      generalize hs₁ : ((s.logHandled ⟨cqe.origin, cqe.sqe.request, result, some cell⟩).completeOn
        cell.data.awaiter result).freeOpdata a = s₁ at hstep
      have htable : s₁.table = s.table := by
        rw [← hs₁, table_freeOpdata, table_completeOn]
        rfl
      rw [← hstep, ← htable]
      by_cases hdone : ∀ call, s₁.calls cell.data.coro = some call → call.outcome ≠ none
      . rw [table_resume_done hdone]
        exact .completed_none
      . simp only [not_forall, not_not] at hdone
        rcases hdone with ⟨call, hcall, hout⟩
        have hkey : s₁.table.keys cell.data.coro = some ⟨call.args, call.socket, none⟩ := by
          unfold table
          dsimp only
          rw [hcall, ← hout]
          rfl
        exact .completed hkey (table_resume hcall hout)

theorem table_step {op : Op} {o : Option Outcome} (hstep : s.step op = some (s', o))
    : Table.Step s.table op s'.table := by
  cases op with
  | connect address fd env =>
    rcases called_eq_some hstep with ⟨_, rfl⟩
    apply table_connect
  | sleepFor d env =>
    rcases called_eq_some hstep with ⟨_, rfl⟩
    apply table_sleepFor
  | socketSend sid data env =>
    rcases called_eq_some hstep with ⟨_, rfl⟩
    apply table_socketSend
  | socketRecv sid data env =>
    rcases called_eq_some hstep with ⟨_, rfl⟩
    apply table_socketRecv
  | close handle =>
    cases hstep
    rw [table_close]
    exact .closed
  | stop sqe result =>
    rcases stop_eq_some hstep with ⟨_, rfl⟩
    rw [table_stop]
    exact .stopped
  | handleCqe i result =>
    rcases handleCqe_eq_some hstep with ⟨cqe, _, hs'⟩
    have htable := table_handleCqe (i := i) hs'
    exact htable

end IOUringProactor

end Net

end Sfap
