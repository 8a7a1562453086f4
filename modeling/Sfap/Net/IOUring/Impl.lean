import Sfap.Lib.Memory
import Sfap.Lib.Transition
import Sfap.Net.Types
import Mathlib.Logic.Function.Basic

/-!
This module contains the proactor over `io_uring`: its four operations with their awaiters, the handling
of completions, and what the ring does with the entries it is given.
-/

namespace Sfap

namespace Net

namespace IOUring

-- a coroutine frame, numbered in the order of the calls
abbrev Frame := Nat

-- the address of an `OperationData`
abbrev Addr := Nat

structure SocketState where
  handle : Int32
  closing : Bool
  deriving DecidableEq, Repr

inductive OperationType where
  | connect
  | send
  | recv
  | timeout
  deriving DecidableEq, Repr

-- the awaiter lives in the frame of its coroutine
structure OperationData where
  type : OperationType
  handle : SocketT
  coro : Frame
  awaiter : Frame
  deriving DecidableEq, Repr

-- the bytes of a freed `OperationData` stay where they are until the address is given out again
structure Cell where
  data : OperationData
  live : Bool
  deriving DecidableEq, Repr

inductive Request where
  | nop
  | connect (fd : Int32) (address : List Byte) (length : UInt32)
  | send (fd : Int32) (data : Option Ptr) (length : UInt32)
  | recv (fd : Int32) (data : Option Ptr) (length : UInt32)
  | timeout (sec nsec : Int64)
  deriving DecidableEq, Repr

def Request.type : Request → Option OperationType
  | .nop => none
  | .connect .. => some .connect
  | .send .. => some .send
  | .recv .. => some .recv
  | .timeout .. => some .timeout

structure Sqe where
  request : Request
  userData : Option Addr
  deriving DecidableEq, Repr

-- `origin` is the call that has taken the slot, `none` for `stop`
structure Queued where
  slot : Nat
  origin : Option Frame
  deriving DecidableEq, Repr

structure InFlight where
  sqe : Sqe
  origin : Option Frame
  deriving DecidableEq, Repr

-- a completion that has been handled, with the `OperationData` it has carried a pointer to
structure Handled where
  origin : Option Frame
  request : Request
  result : Int32
  target : Option Cell
  deriving DecidableEq, Repr

inductive Args where
  | connect (address : InternalAddress)
  | send (data : ByteSpan)
  | recv (data : ByteSpan)
  | sleep (d : Int64)
  deriving DecidableEq, Repr

def Args.type : Args → OperationType
  | .connect _ => .connect
  | .send _ => .send
  | .recv _ => .recv
  | .sleep _ => .timeout

-- what a coroutine passes to `co_return`
inductive Outcome where
  | socket (handle : SocketT)
  | bytes (n : SizeT)
  | status (error : ErrorCode)
  | unexpected (error : ErrorCode)
  deriving DecidableEq, Repr

-- a coroutine with the members of its awaiter, `outcome` is `none` as long as it is suspended
structure Call where
  args : Args
  socket : SocketT
  error : ErrorCode
  bytes : SizeT
  operation : Option Addr
  outcome : Option Outcome
  deriving DecidableEq, Repr

def Call.init (args : Args) (socket : SocketT) : Call :=
  ⟨args, socket, .default, 0, none, none⟩

namespace ConnectAwaiter

def awaitResume (call : Call) : Outcome :=
  if call.error.toBool then .unexpected call.error else .socket call.socket

def onComplete (f : Frame) (call : Call) (result : Int32) : Call :=
  if result < 0 then
    { call with error := .networkError (-result) }
  else
    { call with error := .noError f }

end ConnectAwaiter

namespace SleepAwaiter

def onComplete (f : Frame) (call : Call) (_result : Int32) : Call :=
  { call with error := .noError f }

end SleepAwaiter

namespace TransferAwaiter

def awaitResume (call : Call) : Outcome :=
  if call.error.toBool then .unexpected call.error else .bytes call.bytes

def onComplete (f : Frame) (call : Call) (result : Int32) : Call :=
  if result < 0 then
    { call with error := .networkError (-result), bytes := 0 }
  else
    { call with error := .noError f, bytes := .ofInt result.toInt }

end TransferAwaiter

def SendAwaiter.awaitResume := TransferAwaiter.awaitResume

def SendAwaiter.onComplete := TransferAwaiter.onComplete

def RecvAwaiter.awaitResume := TransferAwaiter.awaitResume

def RecvAwaiter.onComplete := TransferAwaiter.onComplete

-- the virtual call
def Call.onComplete (f : Frame) (call : Call) (result : Int32) : Call :=
  match call.args with
  | .connect _ => ConnectAwaiter.onComplete f call result
  | .send _ => SendAwaiter.onComplete f call result
  | .recv _ => RecvAwaiter.onComplete f call result
  | .sleep _ => SleepAwaiter.onComplete f call result

def AF_INET : UInt16 := 2

def AF_INET6 : UInt16 := 10

def family (ip : Ipx) : UInt16 :=
  if ip.is4 then AF_INET else AF_INET6

-- `sockaddr_storage` on a little-endian machine
def sockaddr (address : InternalAddress) : List Byte :=
  let ss : List Byte := .replicate 128 0
  let ss := ss.splice 0 [(family address.ip).toUInt8, ((family address.ip) >>> 8).toUInt8]
  let ss := ss.splice 2 [(address.port >>> 8).toUInt8, address.port.toUInt8]
  ss.splice (if family address.ip == AF_INET then 4 else 8) address.ip.data

-- `sizeof(sockaddr_in)` or `sizeof(sockaddr_in6)`
def sockaddrLength (address : InternalAddress) : UInt32 :=
  if family address.ip == AF_INET then 16 else 28

end IOUring

open IOUring

/--
The proactor with the state of its ring, the `OperationData` on the heap and the coroutines that have
called it, and with the history of what has been resumed, freed, handled and closed.
-/
structure IOUringProactor where
  lastError : ErrorCode
  running : Bool
  nextHandleId : SocketT
  sockets : SocketT → Option SocketState
  slots : Nat → Sqe
  queued : List Queued
  inFlight : List InFlight
  opdata : Addr → Option Cell
  calls : Frame → Option Call
  nextFrame : Frame
  resumed : List Frame
  freed : List Frame
  handled : List Handled
  closed : List Int32

namespace IOUringProactor

-- `result` is that of `io_uring_queue_init`, which hands out zeroed entries
def ofEntries (result : Int32) : IOUringProactor where
  lastError := if result < 0 then .networkError (-result) else .noError 0
  running := false
  nextHandleId := 1
  sockets _ := none
  slots _ := ⟨.nop, none⟩
  queued := []
  inFlight := []
  opdata _ := none
  calls _ := none
  nextFrame := 0
  resumed := []
  freed := []
  handled := []
  closed := []

def toBool (s : IOUringProactor) : Bool :=
  !s.lastError.toBool

def allocOpdata (s : IOUringProactor) (a : Addr) (data : OperationData) : IOUringProactor :=
  { s with opdata := Function.update s.opdata a (some ⟨data, true⟩) }

def freeOpdata (s : IOUringProactor) (a : Addr) : IOUringProactor :=
  match s.opdata a with
  | none => s
  | some cell =>
    { s with
      opdata := Function.update s.opdata a (some { cell with live := false })
      freed := s.freed ++ [cell.data.coro]
    }

def closeFd (s : IOUringProactor) (fd : Int32) : IOUringProactor :=
  { s with closed := s.closed ++ [fd] }

-- `sockets_.emplace`, which keeps an entry that is there
def emplaceSocket (s : IOUringProactor) (sid : SocketT) (state : SocketState) : IOUringProactor :=
  match s.sockets sid with
  | none => { s with sockets := Function.update s.sockets sid (some state) }
  | some _ => s

def eraseSocket (s : IOUringProactor) (sid : SocketT) : IOUringProactor :=
  { s with sockets := Function.update s.sockets sid none }

-- `io_uring_get_sqe`
def getSqe (s : IOUringProactor) (slot : Nat) (origin : Option Frame) : IOUringProactor :=
  { s with queued := s.queued ++ [⟨slot, origin⟩] }

-- `io_uring_prep_*` and `io_uring_sqe_set_data`
def prep (s : IOUringProactor) (slot : Nat) (request : Request) (userData : Option Addr)
    : IOUringProactor :=
  { s with slots := Function.update s.slots slot ⟨request, userData⟩ }

-- `io_uring_submit`, which hands over all that is queued or nothing
def submit (s : IOUringProactor) (result : Int32) : IOUringProactor :=
  if result < 0 then
    s
  else
    { s with
      queued := []
      inFlight := s.inFlight ++ s.queued.map fun e => ⟨s.slots e.slot, e.origin⟩
    }

def newFrame (s : IOUringProactor) : Frame × IOUringProactor :=
  (s.nextFrame, { s with nextFrame := s.nextFrame + 1 })

def setCall (s : IOUringProactor) (f : Frame) (call : Call) : IOUringProactor :=
  { s with calls := Function.update s.calls f (some call) }

def finish (s : IOUringProactor) (f : Frame) (call : Call) (outcome : Outcome) : IOUringProactor :=
  s.setCall f { call with outcome := some outcome }

def cleanup (s : IOUringProactor) (sid : SocketT) : IOUringProactor :=
  match s.sockets sid with
  | none => s
  | some state =>
    let s := if state.handle ≥ 0 then s.closeFd state.handle else s
    s.eraseSocket sid

-- `connect` from its `co_await` on
def connectReturn (s : IOUringProactor) (f : Frame) (call : Call) : IOUringProactor :=
  match ConnectAwaiter.awaitResume call with
  | .socket handle =>
    let s := if handle != 0 then s else s.cleanup call.socket
    s.finish f call (.socket handle)
  | result => (s.cleanup call.socket).finish f call result

def proceed (s : IOUringProactor) (f : Frame) (call : Call) : IOUringProactor :=
  match call.args with
  | .connect _ => s.connectReturn f call
  | .send _ => s.finish f call (SendAwaiter.awaitResume call)
  | .recv _ => s.finish f call (RecvAwaiter.awaitResume call)
  | .sleep _ => s.finish f call (.status call.error)

-- `h.resume()`, which is undefined for a coroutine that is done: here it is only noted down
def resume (s : IOUringProactor) (f : Frame) : IOUringProactor :=
  let s := { s with resumed := s.resumed ++ [f] }
  match s.calls f with
  | none => s
  | some call => if call.outcome.isSome then s else s.proceed f call

-- what the environment answers to one call
structure Env where
  errno : Int32
  sqe : Option Nat
  opdata : Option Addr
  submit : Int32
  deriving DecidableEq, Repr

-- an early exit of `await_suspend`
def exitWith (s : IOUringProactor) (f : Frame) (call : Call) (error : ErrorCode) : IOUringProactor :=
  (s.setCall f { call with error := error }).resume f

/--
The four `await_suspend` from `io_uring_get_sqe` on, which differ in the error they leave when there is
no entry.
-/
def suspendOn (s : IOUringProactor) (f : Frame) (call : Call) (noSqe : ErrorCode) (request : Request)
    (env : Env) : IOUringProactor :=
  match env.sqe with
  | none => s.exitWith f call noSqe
  | some slot =>
    let s := s.getSqe slot (some f)
    match env.opdata with
    | none => s.exitWith f call (.genericError .notEnoughMemory)
    | some a =>
      let call := { call with operation := some a }
      let s := s.allocOpdata a ⟨call.args.type, call.socket, f, f⟩
      let s := s.prep slot request (some a)
      let s := s.submit env.submit
      if env.submit < 0 then
        (s.freeOpdata a).exitWith f call (.networkError (-env.submit))
      else
        s.setCall f call

end IOUringProactor

namespace IOUring

open IOUringProactor

def ConnectAwaiter.awaitSuspend (s : IOUringProactor) (f : Frame) (call : Call)
    (address : InternalAddress) (env : Env) : IOUringProactor :=
  match s.sockets call.socket with
  | none => s.exitWith f call (.networkError env.errno)
  | some state =>
    s.suspendOn f call (.networkError env.errno)
      (.connect state.handle (sockaddr address) (sockaddrLength address)) env

def SleepAwaiter.awaitSuspend (s : IOUringProactor) (f : Frame) (call : Call) (ns : Int64) (env : Env)
    : IOUringProactor :=
  s.suspendOn f call (.networkError env.errno) (.timeout (ns / 1000000000) (ns % 1000000000)) env

-- sending and receiving leave `error_` as it is when there is no socket or no entry
def TransferAwaiter.awaitSuspend (s : IOUringProactor) (f : Frame) (call : Call) (data : ByteSpan)
    (request : Int32 → Request) (env : Env) : IOUringProactor :=
  match s.sockets call.socket with
  | none => s.exitWith f call call.error
  | some state =>
    if data.size == 0 then
      s.exitWith f call call.error
    else
      s.suspendOn f call call.error (request state.handle) env

-- the length field of an entry has 32 bits
def SendAwaiter.awaitSuspend (s : IOUringProactor) (f : Frame) (call : Call) (data : ByteSpan)
    (env : Env) : IOUringProactor :=
  TransferAwaiter.awaitSuspend s f call data (.send · data.data data.size.toUInt32) env

def RecvAwaiter.awaitSuspend (s : IOUringProactor) (f : Frame) (call : Call) (data : ByteSpan)
    (env : Env) : IOUringProactor :=
  TransferAwaiter.awaitSuspend s f call data (.recv · data.data data.size.toUInt32) env

end IOUring

namespace IOUringProactor

-- `fd` is what `::socket` returns
def connect (s : IOUringProactor) (address : InternalAddress) (fd : Int32) (env : Env)
    : IOUringProactor :=
  let (f, s) := s.newFrame
  if fd < 0 then
    s.finish f (.init (.connect address) 0) (.unexpected (.networkError env.errno))
  else
    let sid := s.nextHandleId
    let s := { s with nextHandleId := s.nextHandleId + 1 }
    let s := s.emplaceSocket sid ⟨fd, false⟩
    ConnectAwaiter.awaitSuspend s f (.init (.connect address) sid) address env

def close (s : IOUringProactor) (handle : SocketT) : IOUringProactor :=
  match s.sockets handle with
  | none => s
  | some state =>
    let s := if !state.closing && state.handle ≥ 0 then s.closeFd state.handle else s
    s.eraseSocket handle

-- `duration` counts nanoseconds
def sleepFor (s : IOUringProactor) (d : Int64) (env : Env) : IOUringProactor :=
  let (f, s) := s.newFrame
  let call := .init (.sleep d) 0
  if d ≤ 0 then
    s.finish f call (.status (.noError f))
  else
    SleepAwaiter.awaitSuspend s f call d env

-- `await_ready` skips the suspension when there is nothing to transfer
def socketSend (s : IOUringProactor) (sid : SocketT) (data : ByteSpan) (env : Env)
    : IOUringProactor :=
  let (f, s) := s.newFrame
  let call := .init (.send data) sid
  if data.size == 0 then
    s.finish f call (SendAwaiter.awaitResume call)
  else
    SendAwaiter.awaitSuspend s f call data env

def socketRecv (s : IOUringProactor) (sid : SocketT) (data : ByteSpan) (env : Env)
    : IOUringProactor :=
  let (f, s) := s.newFrame
  let call := .init (.recv data) sid
  if data.size == 0 then
    s.finish f call (RecvAwaiter.awaitResume call)
  else
    RecvAwaiter.awaitSuspend s f call data env

def stop (s : IOUringProactor) (sqe : Option Nat) (result : Int32) : IOUringProactor :=
  let s := { s with running := false }
  match sqe with
  | none => s
  | some slot => ((s.getSqe slot none).prep slot .nop none).submit result

def closeEntry (s : IOUringProactor) (sid : SocketT) : IOUringProactor :=
  match s.sockets sid with
  | none => s
  | some state => if state.handle ≥ 0 then s.closeFd state.handle else s

-- the destructor, `keys` is the order in which it goes through the table
def destroy (s : IOUringProactor) (keys : List SocketT) : IOUringProactor :=
  let s := keys.foldl closeEntry { s with running := false }
  { s with sockets := fun _ => none }

def completeOn (s : IOUringProactor) (aw : Frame) (result : Int32) : IOUringProactor :=
  match s.calls aw with
  | none => s
  | some call => s.setCall aw (call.onComplete aw result)

def logHandled (s : IOUringProactor) (entry : Handled) : IOUringProactor :=
  { s with handled := s.handled ++ [entry] }

-- `none` would be a pointer to what has never been allocated, and what has been freed is used as if it were there
def handleCqe (s : IOUringProactor) (cqe : InFlight) (result : Int32) : Option IOUringProactor :=
  match cqe.sqe.userData with
  | none => some (s.logHandled ⟨cqe.origin, cqe.sqe.request, result, none⟩)
  | some a =>
    match s.opdata a with
    | none => none
    | some cell =>
      let s := s.logHandled ⟨cqe.origin, cqe.sqe.request, result, some cell⟩
      let s := s.completeOn cell.data.awaiter result
      some ((s.freeOpdata a).resume cell.data.coro)

inductive Op where
  | connect (address : InternalAddress) (fd : Int32) (env : Env)
  | sleepFor (d : Int64) (env : Env)
  | socketSend (sid : SocketT) (data : ByteSpan) (env : Env)
  | socketRecv (sid : SocketT) (data : ByteSpan) (env : Env)
  | close (handle : SocketT)
  | stop (sqe : Option Nat) (result : Int32)
  -- the `i`-th of the entries in flight completes
  | handleCqe (i : Nat) (result : Int32)

-- an entry that is queued is not given out again, nor is memory that is in use
def Offers (s : IOUringProactor) (sqe : Option Nat) (opdata : Option Addr) : Prop :=
  (∀ slot ∈ sqe, ∀ e ∈ s.queued, e.slot ≠ slot)
    ∧ ∀ a ∈ opdata, ∀ cell ∈ s.opdata a, cell.live = false

instance (s : IOUringProactor) (sqe : Option Nat) (opdata : Option Addr)
    : Decidable (s.Offers sqe opdata) := by
  unfold Offers
  infer_instance

def called (s : IOUringProactor) (env : Env) (s' : IOUringProactor)
    : Option (IOUringProactor × Option Outcome) :=
  if s.Offers env.sqe env.opdata then
    some (s', (s'.calls s.nextFrame).bind Call.outcome)
  else
    none

-- a call has an outcome at once when it does not get suspended
def step (s : IOUringProactor) (op : Op) : Option (IOUringProactor × Option Outcome) :=
  match op with
  | .connect address fd env => s.called env (s.connect address fd env)
  | .sleepFor d env => s.called env (s.sleepFor d env)
  | .socketSend sid data env => s.called env (s.socketSend sid data env)
  | .socketRecv sid data env => s.called env (s.socketRecv sid data env)
  | .close handle => some (s.close handle, none)
  | .stop sqe result => if s.Offers sqe none then some (s.stop sqe result, none) else none
  | .handleCqe i result =>
    match s.inFlight[i]? with
    | none => none
    | some cqe =>
      let s := { s with inFlight := s.inFlight.eraseIdx i }
      (s.handleCqe cqe result).map (·, none)

-- a coroutine that is suspended
def Suspended (s : IOUringProactor) (f : Frame) : Prop :=
  ∃ call ∈ s.calls f, call.outcome = none

/--
The completion carries no pointer, or one to an `OperationData` that has not been freed and whose coroutine
is suspended. `step` is one of the things that may happen where this is not so.
-/
def Defined (s : IOUringProactor) : Op → Prop
  | .handleCqe i _ =>
    ∀ cqe ∈ s.inFlight[i]?, ∀ a ∈ cqe.sqe.userData, ∃ cell ∈ s.opdata a,
      cell.live = true ∧ s.Suspended cell.data.awaiter ∧ s.Suspended cell.data.coro
  | _ => True

end IOUringProactor

end Net

end Sfap
