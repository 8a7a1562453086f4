import Sfap.Lib.Transition
import Sfap.Net.Socket.Transfer

/-!
This module contains a transfer whose socket object is moved while it is suspended, and which connection
its later requests go to.
-/

namespace Sfap

namespace Net

structure Issued where
  owner : ProactorPtr
  asked : Asked
  deriving DecidableEq, Repr

inductive Stage where
  | awaiting (offset : SizeT) (issued : Issued)
  | returned
  | crashed
  deriving DecidableEq, Repr

structure OpenTransfer where
  proactors : ProactorPtr → IOUringProactor
  socket : Socket
  stage : Stage

namespace OpenTransfer

open Transition

inductive Event where
  | answer (answer : Answer)
  -- of a new socket from `*this`
  | moveConstruct
  -- from `*this` to another socket
  | moveAssignFrom (target : Socket)
  -- to `*this` from another socket
  | moveAssignTo (other : Socket)
  | selfMove

-- `owner_` and `handle_` are read from the object for each request
def ask (s : Socket) (data : ByteSpan) (t : Transfer) : Stage :=
  match t with
  | .returned => .returned
  | .awaiting offset =>
    match s.owner with
    | none => .crashed
    | some owner => .awaiting offset ⟨owner, s.handle, data.subspan offset⟩

def start (proactors : ProactorPtr → IOUringProactor) (s : Socket) (data : ByteSpan) : OpenTransfer :=
  ⟨proactors, s, ask s data (Transfer.start s data)⟩

-- the handle of the target is closed at the proactor that owns it
def moveAssign (proactors : ProactorPtr → IOUringProactor) (target other : Socket)
    : Socket × Socket × (ProactorPtr → IOUringProactor) :=
  let owner := target.owner.getD 0
  let (target, rest, p) := target.moveAssign (proactors owner) other
  (target, rest, Function.update proactors owner p)

def move (w : OpenTransfer) : Event → OpenTransfer
  | .answer _ => w
  | .moveConstruct =>
    let (_, rest) := w.socket.moveConstruct
    { w with socket := rest }
  | .moveAssignFrom target =>
    let (_, rest, proactors) := moveAssign w.proactors target w.socket
    { w with socket := rest, proactors := proactors }
  | .moveAssignTo other =>
    let (s, _, proactors) := moveAssign w.proactors w.socket other
    { w with socket := s, proactors := proactors }
  | .selfMove => w

def step (data : ByteSpan) (exact : Bool) (w : OpenTransfer) (event : Event)
    : Option (OpenTransfer × Unit) :=
  match w.stage, event with
  | .crashed, _ => none
  | .awaiting offset _, .answer answer =>
    some ({ w with stage := ask w.socket data (Transfer.resume data exact offset answer) }, ())
  | .returned, .answer _ => none
  | _, event => some (w.move event, ())

def StageOn (s : Socket) : Stage → Prop
  | .awaiting _ issued => s.owner = some issued.owner ∧ s.handle = issued.asked.handle
  | .returned => True
  | .crashed => False

def OnOwn (s : Socket) (w : OpenTransfer) : Prop :=
  StageOn s w.stage

def Leaves (data : ByteSpan) (exact : Bool) (offset : SizeT) (answer : Answer) : Prop :=
  Transfer.Accepts answer ∧ exact = true
    ∧ offset + .ofNat (Transfer.amount answer) < data.size

/--
Where the loop goes on, the object holds what it held when the call began.
-/
def Unmoved (s : Socket) (data : ByteSpan) (exact : Bool) (w : OpenTransfer) (event : Event) : Prop :=
  ∀ answer offset issued, event = .answer answer → w.stage = .awaiting offset issued →
    Leaves data exact offset answer → w.socket = s

variable {s : Socket} {data : ByteSpan} {exact : Bool} {w w' : OpenTransfer} {event : Event}

theorem resume_of_leaves {offset : SizeT} {answer : Answer} (h : Leaves data exact offset answer)
    : Transfer.resume data exact offset answer
        =
      .awaiting (offset + .ofNat (Transfer.amount answer)) := by
  rcases h with ⟨haccepts, hexact, hlt⟩
  rcases Transfer.resume_cases data exact offset answer with ⟨hnot, _⟩ | ⟨_, hfalse, _⟩ | ⟨_, _, hloop⟩
  . exact absurd haccepts hnot
  . simp [hexact] at hfalse
  . rw [hloop]
    unfold Transfer.loop
    rw [if_pos hlt]

theorem resume_of_not_leaves {offset : SizeT} {answer : Answer} (h : ¬ Leaves data exact offset answer)
    : Transfer.resume data exact offset answer = .returned := by
  rcases Transfer.resume_cases data exact offset answer with ⟨_, hret⟩ | ⟨_, _, hret⟩ | ⟨hacc, hexact, hloop⟩
  . exact hret
  . exact hret
  . rw [hloop]
    unfold Transfer.loop
    rw [if_neg]
    intro hlt
    exact h ⟨hacc, hexact, hlt⟩

theorem ask_on_iff {offset : SizeT} {owner : ProactorPtr} (howner : s.owner = some owner)
    {socket : Socket}
    : StageOn s (ask socket data (.awaiting offset)) ↔ socket = s := by
  rcases s with ⟨_, handle⟩
  rcases socket with ⟨owner', handle'⟩
  dsimp only at howner
  subst howner
  unfold ask StageOn
  cases owner' with
  | none => simp
  | some owner' => simp [eq_comm]

theorem stage_move (w : OpenTransfer) (event : Event) : (w.move event).stage = w.stage := by
  cases event <;> rfl

theorem onOwn_move (event : Event) : OnOwn s (w.move event) ↔ OnOwn s w := by
  unfold OnOwn
  rw [stage_move]

theorem onOwn_step_iff (h : OnOwn s w) {o : Unit} (hstep : w.step data exact event = some (w', o))
    : OnOwn s w' ↔ Unmoved s data exact w event := by
  unfold step at hstep
  split at hstep
  . simp at hstep
  . next offset issued answer hstage =>
    cases hstep
    have hunmoved : Unmoved s data exact w (.answer answer)
        ↔ (Leaves data exact offset answer → w.socket = s) := by
      unfold Unmoved
      constructor
      . intro hall
        apply hall answer offset issued rfl hstage
      . intro himp answer' offset' issued' heq hstage'
        cases heq
        rw [hstage] at hstage'
        cases hstage'
        exact himp
    rw [hunmoved]
    unfold OnOwn at h ⊢
    dsimp only
    by_cases hleaves : Leaves data exact offset answer
    . rw [hstage] at h
      rw [resume_of_leaves hleaves, ask_on_iff h.1]
      simp [hleaves]
    . rw [resume_of_not_leaves hleaves]
      simp [ask, StageOn, hleaves]
  . simp at hstep
  . next _ hawaiting _ =>
    cases hstep
    rw [onOwn_move]
    refine iff_of_true h ?_
    rintro answer offset issued rfl hstage
    exact absurd rfl (hawaiting offset issued answer hstage)

theorem onOwn_start (proactors : ProactorPtr → IOUringProactor) (s : Socket) (data : ByteSpan)
    : OnOwn s (start proactors s data) := by
  unfold OnOwn start Transfer.start
  dsimp only
  split
  . trivial
  . next hvalid =>
    rw [Bool.or_eq_true, not_or, Bool.not_eq_true', Bool.not_eq_false] at hvalid
    have howner := hvalid.1
    unfold Socket.isValid at howner
    rw [Bool.and_eq_true, Option.isSome_iff_exists] at howner
    rcases howner with ⟨⟨owner, howner⟩, _⟩
    unfold Transfer.loop
    split
    . rw [ask_on_iff howner]
    . trivial

/--
The requests of a call stay on its connection exactly in the runs where the object is back to what it held
whenever the loop goes on.
-/
theorem onOwn_iff_unmoved (proactors : ProactorPtr → IOUringProactor) (s : Socket) (data : ByteSpan)
    (exact : Bool) (trace : List (Event × Unit)) (w : OpenTransfer)
    : OnOwn s (start proactors s data)
        ∧
      (Run (ensure (OnOwn s) (ofStep (step data exact))) (start proactors s data) trace w
        ↔
      Run (restrict (Unmoved s data exact) (ofStep (step data exact))) (start proactors s data) trace w) := by
  have hstart := onOwn_start proactors s data
  refine ⟨hstart, ?_⟩
  apply @Run.ensure_iff_restrict _ _ _ _ _ _ _ (fun _ => True) _ _ ⟨trivial, hstart⟩
  . intros
    trivial
  . intro w₁ event _ w₂ _ h hstep
    apply onOwn_step_iff h hstep

-- one of two bytes has been sent when the object is moved from, or another connection is moved to it
theorem moved_transfer_strays
    : (∃ trace w, Run (ofStep (step ⟨some ⟨0, 0⟩, 2⟩ true))
          (start (fun _ => .ofEntries 0) ⟨some 0, 1⟩ ⟨some ⟨0, 0⟩, 2⟩) trace w
        ∧ w.stage = .crashed)
        ∧
      ∃ trace w, Run (ofStep (step ⟨some ⟨0, 0⟩, 2⟩ true))
          (start (fun _ => .ofEntries 0) ⟨some 0, 1⟩ ⟨some ⟨0, 0⟩, 2⟩) trace w
        ∧ w.stage = .awaiting 1 ⟨0, ⟨2, ⟨some ⟨0, 1⟩, 1⟩⟩⟩
        ∧ ¬ OnOwn ⟨some 0, 1⟩ w := by
  constructor
  . have hexec : exec (step ⟨some ⟨0, 0⟩, 2⟩ true) (start (fun _ => .ofEntries 0) ⟨some 0, 1⟩ ⟨some ⟨0, 0⟩, 2⟩)
        [.moveConstruct, .answer (.ok 1)] = some (_, [(), ()]) := rfl
    exact ⟨_, _, run_of_exec hexec, rfl⟩
  . have hexec : exec (step ⟨some ⟨0, 0⟩, 2⟩ true) (start (fun _ => .ofEntries 0) ⟨some 0, 1⟩ ⟨some ⟨0, 0⟩, 2⟩)
        [.moveAssignTo ⟨some 0, 2⟩, .answer (.ok 1)] = some (_, [(), ()]) := rfl
    refine ⟨_, _, run_of_exec hexec, rfl, ?_⟩
    intro h
    exact absurd h.2 (by decide)

end OpenTransfer

end Net

end Sfap
