import Sfap.Lib.Transition
import Mathlib.Logic.Function.Basic

/-!
This module contains the coroutines behind `task`, the objects that own them, and what the awaiters do.
-/

namespace Sfap

namespace Task

-- coroutine frames are numbered in the order of their creation
abbrev Frame := Nat

-- a variable of type `task`
abbrev Var := Nat

-- an I/O operation, by its `OperationData`
abbrev Operation := Nat

inductive Point where
  | initial
  | io (op : Operation)
  -- the `co_await` of a task
  | child (h : Frame)
  | final
  deriving DecidableEq, Repr

inductive Status where
  | running
  | suspended (p : Point)
  deriving DecidableEq, Repr

-- a frame with its promise
structure Coroutine (V : Type) where
  status : Status
  -- how often it has been suspended
  suspensions : Nat
  value : V
  continuation : Option Frame
  deriving Repr

-- where `resume()` gets called
inductive Resumer where
  | startDetached
  | awaitSuspend
  | finalSuspend (h : Frame)
  | handleCqe (op : Operation)
  -- an early exit of the `await_suspend` of an operation
  | exit (op : Operation)
  deriving DecidableEq, Repr

-- the point that a resumption is for
def Resumer.point : Resumer → Point
  | .startDetached => .initial
  | .awaitSuspend => .initial
  | .finalSuspend h => .child h
  | .handleCqe op => .io op
  | .exit op => .io op

-- `found` is `none` when the frame has been destroyed
structure Resumption where
  resumer : Resumer
  target : Frame
  found : Option Status
  suspension : Nat
  deriving DecidableEq, Repr

def Resumption.isDefined (r : Resumption) : Bool :=
  match r.found with
  | none => false
  | some .running => false
  | some (.suspended p) => p != .final

/--
All coroutines with the objects that own them, the operations in flight with the coroutine recorded in
their `OperationData`, and the history of what has been resumed.
-/
structure Machine (V : Type) where
  frames : Frame → Option (Coroutine V)
  nextFrame : Frame
  tasks : Var → Option (Option Frame)
  operations : Operation → Option Frame
  resumed : List Resumption

namespace Machine

variable {V : Type}

def init : Machine V where
  frames _ := none
  nextFrame := 0
  tasks _ := none
  operations _ := none
  resumed := []

def setFrame (m : Machine V) (f : Frame) (c : Coroutine V) : Machine V :=
  { m with frames := Function.update m.frames f (some c) }

def setTask (m : Machine V) (v : Var) (h : Option (Option Frame)) : Machine V :=
  { m with tasks := Function.update m.tasks v h }

def log (m : Machine V) (resumer : Resumer) (f : Frame) : Machine V :=
  let c := m.frames f
  { m with
    resumed := m.resumed ++ [⟨resumer, f, c.map Coroutine.status, (c.map Coroutine.suspensions).getD 0⟩]
  }

-- `h.resume()`, which is undefined for what is not suspended or done: here it is only noted down
def resume (m : Machine V) (resumer : Resumer) (f : Frame) : Machine V :=
  let m := m.log resumer f
  match m.frames f with
  | none => m
  | some c =>
    match c.status with
    | .running => m
    | .suspended .final => m
    | .suspended _ => m.setFrame f { c with status := .running }

def suspend (m : Machine V) (f : Frame) (c : Coroutine V) (p : Point) : Machine V :=
  m.setFrame f { c with status := .suspended p, suspensions := c.suspensions + 1 }

def done (m : Machine V) (h : Frame) : Bool :=
  (m.frames h).any fun c => c.status == .suspended .final

-- `h.destroy()`, the objects inside the frame are destroyed on their own
def destroyFrame (m : Machine V) (h : Frame) : Machine V :=
  { m with frames := Function.update m.frames h none }

def setContinuation (m : Machine V) (h : Frame) (cont : Frame) : Machine V :=
  match m.frames h with
  | none => m
  | some c => m.setFrame h { c with continuation := some cont }

-- the call of a coroutine, `initial_suspend` is `suspend_always`
def create [Inhabited V] (m : Machine V) (v : Var) : Machine V :=
  let m := m.setTask v (some (some m.nextFrame))
  let m := m.setFrame m.nextFrame ⟨.suspended .initial, 1, default, none⟩
  { m with nextFrame := m.nextFrame + 1 }

def destroyTask (m : Machine V) (h : Option Frame) : Machine V :=
  match h with
  | none => m
  | some h => m.destroyFrame h

def moveAssign (m : Machine V) (v u : Var) (h other : Option Frame) : Machine V :=
  if v = u then m else ((m.destroyTask h).setTask v (some other)).setTask u (some none)

def startDetached (m : Machine V) (h : Option Frame) : Machine V :=
  match h with
  | none => m
  | some h => m.resume .startDetached h

def awaitReady (m : Machine V) (h : Option Frame) : Bool :=
  match h with
  | none => true
  | some h => m.done h

def awaitSuspend (m : Machine V) (h : Frame) (cont : Frame) : Machine V :=
  (m.setContinuation h cont).resume .awaitSuspend h

-- the coroutine `f` is suspended before `await_suspend` gets called
def coAwait (m : Machine V) (f : Frame) (c : Coroutine V) (h : Option Frame) : Machine V :=
  if m.awaitReady h then
    m
  else
    match h with
    | none => m
    | some h => (m.suspend f c (.child h)).awaitSuspend h f

-- `return_value` and then `final_suspend`
def coReturn (m : Machine V) (f : Frame) (c : Coroutine V) (value : V) : Machine V :=
  let m := m.suspend f { c with value := value } .final
  match c.continuation with
  | none => m
  | some cont => m.resume (.finalSuspend f) cont

def coAwaitIo (m : Machine V) (f : Frame) (c : Coroutine V) (op : Operation) : Machine V :=
  { m.suspend f c (.io op) with operations := Function.update m.operations op (some f) }

-- an operation that ends inside its `await_suspend`
def exitIo (m : Machine V) (f : Frame) (c : Coroutine V) (op : Operation) : Machine V :=
  (m.suspend f c (.io op)).resume (.exit op) f

def handleCqe (m : Machine V) (op : Operation) (coro : Frame) : Machine V :=
  let m := { m with operations := Function.update m.operations op none }
  m.resume (.handleCqe op) coro

/--
What the code in and around the coroutines does with them. A coroutine acts as long as it is running,
and whoever has resumed it may go on meanwhile.
-/
inductive Act (V : Type) where
  | construct (v : Var)
  | create (v : Var)
  | moveConstruct (v u : Var)
  | moveAssign (v u : Var)
  | destroy (v : Var)
  | startDetached (v : Var)
  | coAwait (f : Frame) (v : Var)
  | coAwaitIo (f : Frame) (op : Operation)
  | exitIo (f : Frame) (op : Operation)
  | coReturn (f : Frame) (value : V)
  | handleCqe (op : Operation)

-- a frame that runs
def active (m : Machine V) (f : Frame) : Option (Coroutine V) :=
  (m.frames f).filter fun c => c.status == .running

def step [Inhabited V] (m : Machine V) (act : Act V) : Option (Machine V × Unit) :=
  match act with
  | .construct v =>
    match m.tasks v with
    | none => some (m.setTask v (some none), ())
    | some _ => none
  | .create v =>
    match m.tasks v with
    | none => some (m.create v, ())
    | some _ => none
  | .moveConstruct v u =>
    match m.tasks v, m.tasks u with
    | none, some h => some ((m.setTask v (some h)).setTask u (some none), ())
    | _, _ => none
  | .moveAssign v u =>
    match m.tasks v, m.tasks u with
    | some h, some other => some (m.moveAssign v u h other, ())
    | _, _ => none
  | .destroy v =>
    match m.tasks v with
    | none => none
    | some h => some ((m.destroyTask h).setTask v none, ())
  | .startDetached v =>
    match m.tasks v with
    | none => none
    | some h => some (m.startDetached h, ())
  | .coAwait f v =>
    match m.active f, m.tasks v with
    | some c, some h => some (m.coAwait f c h, ())
    | _, _ => none
  | .coAwaitIo f op =>
    match m.active f, m.operations op with
    | some c, none => some (m.coAwaitIo f c op, ())
    | _, _ => none
  | .exitIo f op =>
    match m.active f, m.operations op with
    | some c, none => some (m.exitIo f c op, ())
    | _, _ => none
  | .coReturn f value =>
    match m.active f with
    | none => none
    | some c => some (m.coReturn f c value, ())
  | .handleCqe op =>
    match m.operations op with
    | none => none
    | some coro => some (m.handleCqe op coro, ())

-- the object whose coroutine gets destroyed
def Act.destroys : Act V → Option Var
  | .moveAssign v u => if v = u then none else some v
  | .destroy v => some v
  | _ => none

-- the coroutine of the object is running
def runs (m : Machine V) (v : Var) : Bool :=
  (m.tasks v).join.any fun h => (m.active h).isSome

/--
What is resumed is suspended and not done, and what is destroyed is suspended. `step` is one of the things
that may happen where this is not so.
-/
def Defined [Inhabited V] (m : Machine V) (act : Act V) : Prop :=
  (∀ v ∈ act.destroys, m.runs v = false)
    ∧ ∀ r ∈ m.step act, (r.1.resumed.all Resumption.isDefined) = true

end Machine

end Task

end Sfap
