import Sfap.Lib.Dialogue
import Sfap.Utils.Task.Safety

/-!
This module contains coroutines that await the tasks that they create, as they run on the machine and as
plain calls.
-/

namespace Sfap

namespace Task

variable {V Req Res : Type}

/--
The body of a coroutine, `call` is a `co_await` of the task that it creates there.
-/
inductive Body (V Req Res : Type) where
  | coReturn (value : V)
  | io (req : Req) (k : Res → Body V Req Res)
  | call (child : Body V Req Res) (k : V → Body V Req Res)

-- the body with each `co_await` as a call
def Body.direct : Body V Req Res → Dialogue Req Res V
  | .coReturn value => .ret value
  | .io req k => .ask req fun res => (k res).direct
  | .call child k => child.direct.bind fun value => (k value).direct

theorem Body.direct_call (child : Body V Req Res) (k : V → Body V Req Res)
    : (Body.call child k).direct = child.direct.bind fun value => (k value).direct := rfl

-- where a coroutine goes on, with the `await_resume` that comes first
inductive Code (V Req Res : Type) where
  | body (b : Body V Req Res)
  | awaitIo (op : Operation) (k : Res → Body V Req Res)
  | awaitTask (h : Frame) (k : V → Body V Req Res)

/--
The machine with what its coroutines have left to do, the requests of the operations in flight and the
results in the awaiters, and the history of the requests, of the calls and of what they have led to.
-/
structure Execution (V Req Res : Type) where
  machine : Machine V
  code : Frame → Option (Code V Req Res)
  nextOp : Operation
  pending : Operation → Option Req
  results : Operation → Option Res
  requests : List Req
  history : List (Req × Res)
  awaited : List (Frame × Frame)
  returned : List (Frame × V)
  yielded : List (Frame × V)

namespace Execution

def setCode (s : Execution V Req Res) (f : Frame) (code : Option (Code V Req Res))
    : Execution V Req Res :=
  { s with code := Function.update s.code f code }

-- the task of the root is created and started
def start [Inhabited V] (b : Body V Req Res) : Execution V Req Res where
  machine := (Machine.init.create 0).startDetached (some 0)
  code := Function.update (fun _ => none) 0 (some (.body b))
  nextOp := 0
  pending _ := none
  results _ := none
  requests := []
  history := []
  awaited := []
  returned := []
  yielded := []

def coReturn (s : Execution V Req Res) (f : Frame) (c : Coroutine V) (value : V)
    : Execution V Req Res :=
  { s.setCode f none with
    machine := s.machine.coReturn f c value
    returned := s.returned ++ [(f, value)]
  }

def request (s : Execution V Req Res) (f : Frame) (c : Coroutine V) (req : Req)
    (k : Res → Body V Req Res)
    : Execution V Req Res :=
  { s.setCode f (some (.awaitIo s.nextOp k)) with
    machine := s.machine.coAwaitIo f c s.nextOp
    nextOp := s.nextOp + 1
    pending := Function.update s.pending s.nextOp (some req)
    requests := s.requests ++ [req]
  }

def exit (s : Execution V Req Res) (f : Frame) (c : Coroutine V) (req : Req)
    (k : Res → Body V Req Res) (res : Res)
    : Execution V Req Res :=
  { s.setCode f (some (.awaitIo s.nextOp k)) with
    machine := s.machine.exitIo f c s.nextOp
    nextOp := s.nextOp + 1
    results := Function.update s.results s.nextOp (some res)
    requests := s.requests ++ [req]
    history := s.history ++ [(req, res)]
  }

def complete (s : Execution V Req Res) (op : Operation) (coro : Frame) (req : Req) (res : Res)
    : Execution V Req Res :=
  { s with
    machine := s.machine.handleCqe op coro
    pending := Function.update s.pending op none
    results := Function.update s.results op (some res)
    history := s.history ++ [(req, res)]
  }

-- the temporary gets the number of its frame
def call [Inhabited V] (s : Execution V Req Res) (f : Frame) (c : Coroutine V)
    (child : Body V Req Res) (k : V → Body V Req Res)
    : Execution V Req Res :=
  let h := s.machine.nextFrame
  { (s.setCode h (some (.body child))).setCode f (some (.awaitTask h k)) with
    machine := (s.machine.create h).coAwait f c (some h)
    awaited := s.awaited ++ [(f, h)]
  }

-- the temporary lives until the end of the expression
def yield (s : Execution V Req Res) (f h : Frame) (c : Coroutine V) (k : V → Body V Req Res)
    : Execution V Req Res :=
  { s.setCode f (some (.body (k c.value))) with
    machine := (s.machine.destroyTask (some h)).setTask h none
    yielded := s.yielded ++ [(h, c.value)]
  }

inductive Input (Res : Type) where
  -- the next action of a coroutine, an operation gets submitted
  | run (f : Frame)
  -- the next action of a coroutine is an operation, which ends at once
  | exit (f : Frame) (res : Res)
  | complete (op : Operation) (res : Res)

def step [Inhabited V] (s : Execution V Req Res) (input : Input Res)
    : Option (Execution V Req Res × Unit) :=
  match input with
  | .run f =>
    match s.machine.active f, s.code f with
    | some c, some (.body (.coReturn value)) => some (s.coReturn f c value, ())
    | some c, some (.body (.io req k)) => some (s.request f c req k, ())
    | some c, some (.body (.call child k)) => some (s.call f c child k, ())
    | some _, some (.awaitIo op k) =>
      match s.results op with
      | none => none
      | some res => some (s.setCode f (some (.body (k res))), ())
    | some _, some (.awaitTask h k) =>
      match s.machine.frames h with
      | none => none
      | some c => some (s.yield f h c k, ())
    | _, _ => none
  | .exit f res =>
    match s.machine.active f, s.code f with
    | some c, some (.body (.io req k)) => some (s.exit f c req k res, ())
    | _, _ => none
  | .complete op res =>
    match s.machine.operations op, s.pending op with
    | some coro, some req => some (s.complete op coro req res, ())
    | _, _ => none

end Execution

end Task

end Sfap
