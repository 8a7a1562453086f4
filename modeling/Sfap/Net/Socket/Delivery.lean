import Sfap.Net.IOUring.Pending
import Sfap.Net.IOUring.Outcome
import Sfap.Net.Socket.Transfer

/-!
This module contains a transfer loop on top of the proactor: how much of its data a healthy connection
carries, given that the length of an entry has 32 bits.
-/

namespace Sfap

namespace Net

open IOUring
open IOUringProactor (Op Env Inv Pending)

inductive Direction where
  | send
  | recv
  deriving DecidableEq, Repr

namespace Direction

def op (d : Direction) (sid : SocketT) (chunk : ByteSpan) (env : Env) : Op :=
  match d with
  | .send => .socketSend sid chunk env
  | .recv => .socketRecv sid chunk env

def args (d : Direction) (chunk : ByteSpan) : Args :=
  match d with
  | .send => .send chunk
  | .recv => .recv chunk

def prepare (d : Direction) (chunk : ByteSpan) (fd : Int32) : Request :=
  match d with
  | .send => .send fd chunk.data chunk.size.toUInt32
  | .recv => .recv fd chunk.data chunk.size.toUInt32

end Direction

/--
`send_bytes`, or `recv_bytes` with `exact`, and the proactor that its requests go to. `frame` is that of the
request it awaits.
-/
structure Client where
  proactor : IOUringProactor
  transfer : Transfer
  frame : Option Frame

namespace Client

inductive Event where
  | op (op : Op)
  -- the loop goes on with what its request has returned
  | resume (env : Env)

def ask (d : Direction) (s : Socket) (data : ByteSpan) (p : IOUringProactor) (t : Transfer) (env : Env)
    : Option Client :=
  match t with
  | .returned => some ⟨p, .returned, none⟩
  | .awaiting offset =>
    (p.step (d.op s.handle (data.subspan offset) env)).map fun (p', _) =>
      ⟨p', .awaiting offset, some p.nextFrame⟩

def answer (c : Client) : Option Answer :=
  match c.frame.bind fun f => (c.proactor.calls f).bind Call.outcome with
  | some (.bytes n) => some (.ok n)
  | some (.unexpected error) => some (.error error)
  | _ => none

def next (data : ByteSpan) (c : Client) : Option Transfer :=
  match c.transfer with
  | .returned => none
  | .awaiting offset => c.answer.map fun answer => Transfer.resume data true offset answer

def step (d : Direction) (s : Socket) (data : ByteSpan) (c : Client)
    : Event → Option (Client × Option Answer)
  | .op op => (c.proactor.step op).map fun (p, _) => ({ c with proactor := p }, none)
  | .resume env =>
    match c.next data with
    | none => none
    | some t => (ask d s data c.proactor t env).map (·, c.answer)

structure Ready (p : IOUringProactor) (sid : SocketT) (env : Env) : Prop where
  socket : (p.sockets sid).isSome = true
  handsOver : env.handsOver = true
  clean : ∀ e ∈ p.queued, (p.slots e.slot).userData = none

-- some of what is asked for is transferred, and nothing only if nothing is asked for
def Grants (result : Int32) : Request → Prop
  | .send _ _ len | .recv _ _ len =>
    if len = 0 then result = 0 else 1 ≤ result.toInt ∧ result.toInt ≤ min len.toNat (2 ^ 31 - 1)
  | _ => True

def Answers (frame : Option Frame) (p : IOUringProactor) : Op → Prop
  | .handleCqe i result => ∀ cqe ∈ p.inFlight[i]?, cqe.origin = frame → Grants result cqe.sqe.request
  | _ => True

def Healthy (s : Socket) (data : ByteSpan) (c : Client) : Event → Prop
  | .op op => c.proactor.Clean op ∧ Answers c.frame c.proactor op
  | .resume env => ∀ t ∈ c.next data, t ≠ .returned → Ready c.proactor s.handle env

instance (p : IOUringProactor) (sid : SocketT) (env : Env) : Decidable (Ready p sid env) :=
  decidable_of_iff ((p.sockets sid).isSome = true ∧ env.handsOver = true
    ∧ ∀ e ∈ p.queued, (p.slots e.slot).userData = none)
    ⟨fun h => ⟨h.1, h.2.1, h.2.2⟩, fun h => ⟨h.socket, h.handsOver, h.clean⟩⟩

instance (result : Int32) (request : Request) : Decidable (Grants result request) := by
  cases request <;> unfold Grants <;> infer_instance

instance (frame : Option Frame) (p : IOUringProactor) (op : Op) : Decidable (Answers frame p op) :=
  match op with
  | .handleCqe i result =>
    match h : p.inFlight[i]? with
    | none => .isTrue (by simp [Answers, h])
    | some cqe =>
      decidable_of_iff (cqe.origin = frame → Grants result cqe.sqe.request) (by simp [Answers, h])
  | .connect .. | .sleepFor .. | .socketSend .. | .socketRecv .. | .close .. | .stop .. =>
    .isTrue trivial

instance (s : Socket) (data : ByteSpan) (c : Client) (event : Event)
    : Decidable (Healthy s data c event) := by
  cases event <;> unfold Healthy <;> infer_instance

def Started (d : Direction) (s : Socket) (data : ByteSpan) (p : IOUringProactor) (c : Client) : Prop :=
  ∃ env, Ready p s.handle env ∧ ask d s data p (Transfer.start s data) env = some c

def transferred (trace : List (Event × Option Answer)) : Nat :=
  trace.foldl (fun sum entry => sum + (entry.2.map Transfer.amount).getD 0) 0

def requests (trace : List (Event × Option Answer)) : Nat :=
  trace.countP fun entry => entry.2.isSome

variable {d : Direction} {s : Socket} {data : ByteSpan} {c c' : Client} {p p' : IOUringProactor}
  {f : Frame} {call : Call} {chunk : ByteSpan} {env : Env}

def Granted (size n : SizeT) : Prop :=
  if size.toNat % 2 ^ 32 = 0 then n.toNat = 0 else 1 ≤ n.toNat ∧ n.toNat ≤ size.toNat % 2 ^ 32

theorem granted_of_grants {result : Int32} {fd : Int32} (h : Grants result (d.prepare chunk fd))
    : ¬ result < 0 ∧ ∀ n : SizeT, (n.toNat : Int) = result.toInt → Granted chunk.size n := by
  have hlen : chunk.size.toUInt32.toNat = chunk.size.toNat % 2 ^ 32 := UInt64.toNat_toUInt32 _
  have hgrants : if chunk.size.toUInt32 = 0 then result = 0 else
      1 ≤ result.toInt ∧ result.toInt ≤ min chunk.size.toUInt32.toNat (2 ^ 31 - 1) := by
    cases d <;> exact h
  unfold Granted
  rw [← hlen]
  have hzero : chunk.size.toUInt32 = 0 ↔ chunk.size.toUInt32.toNat = 0 := by
    rw [← UInt32.toNat_inj]
    rfl
  have hnull : (0 : Int32).toInt = 0 := rfl
  split at hgrants
  . next heq =>
    rw [hgrants]
    refine ⟨by decide, ?_⟩
    intro n hn
    rw [if_pos (hzero.mp heq)]
    omega
  . next hne =>
    rw [Int32.lt_iff_toInt_lt]
    refine ⟨by omega, ?_⟩
    intro n hn
    rw [if_neg (mt hzero.mpr hne)]
    omega

theorem outcome_of_grants {result : Int32} {fd : Int32} (hargs : call.args = d.args chunk)
    (h : Grants result (d.prepare chunk fd))
    : ∃ n, (call.onComplete f result).done.outcome = some (.bytes n) ∧ Granted chunk.size n := by
  rcases granted_of_grants h with ⟨hpos, hgranted⟩
  refine ⟨.ofInt result.toInt, ?_, hgranted _ (IOUringProactor.toNat_ofInt hpos)⟩
  have hresult : TransferAwaiter.awaitResume (TransferAwaiter.onComplete f call result)
      = .bytes (.ofInt result.toInt) := by
    unfold TransferAwaiter.onComplete TransferAwaiter.awaitResume
    rw [if_neg hpos]
    dsimp only
    rw [ErrorCode.toBool_noError, if_neg Bool.false_ne_true]
  have hargs' := call.args_onComplete f result
  rw [Call.outcome_done, Option.some.injEq, ← hresult]
  unfold Call.result Call.onComplete at *
  cases d with
  | send =>
    dsimp only [Direction.args] at hargs
    rw [hargs] at hargs' ⊢
    dsimp only at hargs' ⊢
    rw [hargs']
    rfl
  | recv =>
    dsimp only [Direction.args] at hargs
    rw [hargs] at hargs' ⊢
    dsimp only at hargs' ⊢
    rw [hargs']
    rfl

def Requested (d : Direction) (p : IOUringProactor) (f : Frame) (chunk : ByteSpan) : Prop :=
  ∃ call, call.args = d.args chunk ∧ ((∃ fd, Pending p f call (d.prepare chunk fd))
    ∨ p.calls f = some call ∧ ∃ n, call.outcome = some (.bytes n) ∧ Granted chunk.size n)

theorem Requested.op {op : Op} {o : Option Outcome} (h : Requested d p f chunk) (hinv : Inv p)
    (hclean : p.Clean op)
    (hanswers : Answers (some f) p op) (hstep : p.step op = some (p', o))
    : Requested d p' f chunk := by
  rcases h with ⟨call, hargs, ⟨fd, hpending⟩ | ⟨hcall, n, hout, hgranted⟩⟩
  . rcases hpending.step hinv hclean hstep with hpending | ⟨i, result, cqe, hop, hi, horigin, hreq, hcalls⟩
    . exact ⟨call, hargs, .inl ⟨fd, hpending⟩⟩
    . rw [hop] at hanswers
      have hgrant := hanswers cqe hi horigin
      rw [hreq] at hgrant
      refine ⟨(call.onComplete f result).done, ?_, .inr ⟨hcalls, ?_⟩⟩
      . rw [Call.args_done, Call.args_onComplete, hargs]
      . apply outcome_of_grants hargs hgrant
  . refine ⟨call, hargs, .inr ⟨?_, n, hout, hgranted⟩⟩
    apply IOUringProactor.calls_of_done hinv hclean hcall _ hstep
    rw [hout]
    simp

theorem Ready.requested {sid : SocketT} {o : Option Outcome} (h : Ready p sid env) (hinv : Inv p)
    (hchunk : chunk.size ≠ 0) (hstep : p.step (d.op sid chunk env) = some (p', o))
    : Inv p' ∧ Requested d p' p.nextFrame chunk := by
  have hclean : p.Clean (d.op sid chunk env) := fun _ => h.clean
  refine ⟨hinv.step hclean hstep, ?_⟩
  have hne : ¬ (chunk.size == 0) = true := by simpa using hchunk
  cases d with
  | send =>
    rcases IOUringProactor.called_eq_some hstep with ⟨hoffers, rfl⟩
    rcases IOUringProactor.pending_transfer (.send chunk) (Direction.prepare .send chunk) hchunk h.socket
      hoffers h.handsOver h.clean (fun _ => rfl) with ⟨fd, a, hpending⟩
    refine ⟨{ Call.init (.send chunk) sid with operation := some a }, rfl, .inl ⟨fd, ?_⟩⟩
    unfold IOUringProactor.socketSend
    dsimp only
    rw [if_neg hne]
    exact hpending
  | recv =>
    rcases IOUringProactor.called_eq_some hstep with ⟨hoffers, rfl⟩
    rcases IOUringProactor.pending_transfer (.recv chunk) (Direction.prepare .recv chunk) hchunk h.socket
      hoffers h.handsOver h.clean (fun _ => rfl) with ⟨fd, a, hpending⟩
    refine ⟨{ Call.init (.recv chunk) sid with operation := some a }, rfl, .inl ⟨fd, ?_⟩⟩
    unfold IOUringProactor.socketRecv
    dsimp only
    rw [if_neg hne]
    exact hpending

/--
How far the loop has come: it awaits the request behind what has been transferred, which is not yet past the
last multiple of `2 ^ 32` before the end.
-/
structure Holds (d : Direction) (data : ByteSpan) (trace : List (Event × Option Answer)) (c : Client)
    : Prop where
  inv : Inv c.proactor
  awaiting : ∀ offset, c.transfer = .awaiting offset →
    offset.toNat = transferred trace ∧ transferred trace < data.size.toNat
      ∧ transferred trace ≤ data.size.toNat % 2 ^ 32
      ∧ ∃ f, c.frame = some f ∧ Requested d c.proactor f (data.subspan offset)
  returned : c.transfer = .returned → transferred trace = data.size.toNat % 2 ^ 32
  requests_le : requests trace ≤ transferred trace + if c.transfer = .returned then 1 else 0

theorem transferred_snoc (trace : List (Event × Option Answer)) (entry : Event × Option Answer)
    : transferred (trace ++ [entry]) = transferred trace + (entry.2.map Transfer.amount).getD 0 := by
  simp [transferred]

theorem requests_snoc (trace : List (Event × Option Answer)) (entry : Event × Option Answer)
    : requests (trace ++ [entry]) = requests trace + if entry.2.isSome = true then 1 else 0 := by
  simp [requests, List.countP_append, List.countP_singleton]

variable {trace : List (Event × Option Answer)} {t : Transfer}

theorem Holds.ask (hinv : Inv p) (hoffset : ∀ offset, t = .awaiting offset →
      offset.toNat = transferred trace ∧ transferred trace < data.size.toNat
        ∧ transferred trace ≤ data.size.toNat % 2 ^ 32 ∧ Ready p s.handle env)
    (hreturned : t = .returned → transferred trace = data.size.toNat % 2 ^ 32)
    (hrequests : requests trace ≤ transferred trace + if t = .returned then 1 else 0)
    (hask : Client.ask d s data p t env = some c)
    : Holds d data trace c := by
  unfold Client.ask at hask
  split at hask
  . rw [Option.some.injEq] at hask
    rw [← hask]
    exact ⟨hinv, by simp, hreturned, hrequests⟩
  . next offset =>
    rw [Option.map_eq_some_iff] at hask
    rcases hask with ⟨⟨p', o⟩, hstep, rfl⟩
    rcases hoffset offset rfl with ⟨htotal, hlt, hmod, hready⟩
    have hchunk : (data.subspan offset).size ≠ 0 := by
      intro heq
      have hsize := Transfer.size_subspan data (Nat.le_of_lt (htotal ▸ hlt))
      rw [heq] at hsize
      have : (0 : SizeT).toNat = 0 := rfl
      omega
    rcases hready.requested hinv hchunk hstep with ⟨hinv', hrequested⟩
    refine ⟨hinv', ?_, by simp, hrequests⟩
    intro offset' heq
    rw [Transfer.awaiting.injEq] at heq
    rw [← heq]
    exact ⟨htotal, hlt, hmod, p.nextFrame, rfl, hrequested⟩

theorem Holds.start (hvalid : s.isValid = true) (hdata : data.size ≠ 0) (hinv : Inv p)
    (hstarted : Started d s data p c)
    : Holds d data [] c := by
  rcases hstarted with ⟨env, hready, hask⟩
  have hstands : Transfer.Stands s data true [] (Transfer.start s data) := .start hvalid hdata
  apply Holds.ask hinv _ _ _ hask
  . intro offset heq
    rcases hstands.offset offset heq with ⟨htotal, hlt⟩
    exact ⟨htotal, hlt, Nat.zero_le _, hready⟩
  . intro heq
    rcases hstands.returned rfl heq with hzero | ⟨entry, hentry, _⟩
    . have hsize : data.size.toNat = 0 := hzero.symm
      rw [hsize]
      rfl
    . simp at hentry
  . apply Nat.zero_le _

theorem Granted.advance {size n : SizeT} {total k : Nat} (h : Granted size n) (hsize : size.toNat = total - k)
    (hlt : k < total) (hmod : k ≤ total % 2 ^ 32)
    : (n.toNat = 0 → k = total % 2 ^ 32) ∧ k + n.toNat ≤ total % 2 ^ 32 := by
  unfold Granted at h
  rw [hsize] at h
  split at h
  . omega
  . omega

theorem Holds.op {op : Op} {o : Option Outcome} (h : Holds d data trace c)
    (hhealthy : Healthy s data c (.op op)) (hstep : c.proactor.step op = some (p, o))
    : Holds d data (trace ++ [(.op op, none)]) { c with proactor := p } := by
  have htransferred : transferred (trace ++ [(.op op, none)]) = transferred trace := transferred_snoc _ _
  have hrequests : requests (trace ++ [(.op op, none)]) = requests trace := requests_snoc _ _
  constructor
  . apply h.inv.step hhealthy.1 hstep
  . intro offset heq
    rw [htransferred]
    rcases h.awaiting offset heq with ⟨htotal, hlt, hmod, f, hframe, hrequested⟩
    refine ⟨htotal, hlt, hmod, f, hframe, ?_⟩
    apply hrequested.op h.inv hhealthy.1 _ hstep
    rw [← hframe]
    exact hhealthy.2
  . rw [htransferred]
    exact h.returned
  . rw [htransferred, hrequests]
    exact h.requests_le

theorem Holds.resume (h : Holds d data trace c) (hhealthy : Healthy s data c (.resume env))
    (hnext : c.next data = some t) (hask : Client.ask d s data c.proactor t env = some c')
    : Holds d data (trace ++ [(.resume env, c.answer)]) c' := by
  cases htransfer : c.transfer with
  | returned =>
    unfold next at hnext
    rw [htransfer] at hnext
    simp at hnext
  | awaiting offset =>
    rcases h.awaiting offset htransfer with ⟨htotal, hlt, hmod, f, hframe, call, hargs, hcases⟩
    have hsize := Transfer.size_subspan data (Nat.le_of_lt (htotal ▸ hlt))
    rw [htotal] at hsize
    have hanswer (call' : Call) (hcall : c.proactor.calls f = some call') : c.answer
        = match call'.outcome with
          | some (.bytes n) => some (.ok n)
          | some (.unexpected error) => some (.error error)
          | _ => none := by
      unfold Client.answer
      rw [hframe, Option.bind_some, hcall, Option.bind_some]
    rcases hcases with ⟨fd, hpending⟩ | ⟨hcall, n, hout, hgranted⟩
    . rcases hpending.entry with ⟨e, _, a, _, _, haw⟩
      have hnone := hanswer call haw.call_eq
      rw [haw.suspended] at hnone
      unfold next at hnext
      rw [htransfer, hnone] at hnext
      simp at hnext
    . have hok := hanswer call hcall
      rw [hout] at hok
      dsimp only at hok
      rcases hgranted.advance hsize hlt hmod with ⟨hstop, hle⟩
      have ht : t = Transfer.resume data true offset (.ok n) := by
        unfold next at hnext
        rw [htransfer, hok] at hnext
        dsimp only at hnext
        rw [Option.map_some, Option.some.injEq] at hnext
        exact hnext.symm
      have htransferred : transferred (trace ++ [(.resume env, c.answer)]) = transferred trace + n.toNat := by
        rw [transferred_snoc, hok]
        rfl
      have hrequests : requests (trace ++ [(.resume env, c.answer)]) ≤ transferred trace + 1 := by
        have hle := h.requests_le
        rw [htransfer, if_neg (by simp)] at hle
        rw [requests_snoc, hok]
        apply Nat.succ_le_succ hle
      have hsum : (offset + .ofNat n.toNat).toNat = transferred trace + n.toNat := by
        have := UInt64.toNat_lt data.size
        have := Nat.mod_le data.size.toNat (2 ^ 32)
        rw [Word.toNat_add_ofNat, htotal]
        omega
      have hmodle := Nat.mod_le data.size.toNat (2 ^ 32)
      have hcases := Transfer.resume_cases data true offset (.ok n)
      have hamount : Transfer.amount (.ok n) = n.toNat := rfl
      unfold Transfer.Accepts at hcases
      rw [← ht, hamount] at hcases
      apply Holds.ask h.inv _ _ _ hask
      . intro offset' heq
        rw [htransferred]
        rcases hcases with ⟨_, hret⟩ | ⟨_, hfalse, _⟩ | ⟨_, _, hloop⟩
        . simp [hret] at heq
        . simp at hfalse
        . have hready := hhealthy t hnext (by simp [heq])
          rw [hloop] at heq
          rcases Transfer.loop_eq_awaiting heq with ⟨rfl, hlt'⟩
          rw [hsum] at hlt' ⊢
          exact ⟨rfl, hlt', hle, hready⟩
      . intro heq
        rw [htransferred]
        rcases hcases with ⟨hzero, _⟩ | ⟨_, hfalse, _⟩ | ⟨_, _, hloop⟩
        . have := hstop (not_ne_iff.mp hzero)
          omega
        . simp at hfalse
        . rw [hloop] at heq
          have hge := Transfer.loop_eq_returned heq
          rw [hsum] at hge
          omega
      . rw [htransferred]
        rcases hcases with ⟨_, hret⟩ | ⟨_, hfalse, _⟩ | ⟨hne, _, _⟩
        . rw [if_pos hret]
          omega
        . simp at hfalse
        . omega

theorem Holds.step {event : Event} {o : Option Answer} (h : Holds d data trace c)
    (hhealthy : Healthy s data c event) (hstep : Client.step d s data c event = some (c', o))
    : Holds d data (trace ++ [(event, o)]) c' := by
  cases event with
  | op op =>
    unfold Client.step at hstep
    dsimp only at hstep
    rw [Option.map_eq_some_iff] at hstep
    rcases hstep with ⟨⟨p, o'⟩, hstep, heq⟩
    cases heq
    apply h.op hhealthy hstep
  | resume env =>
    unfold Client.step at hstep
    dsimp only at hstep
    split at hstep
    . simp at hstep
    . next t hnext =>
      rw [Option.map_eq_some_iff] at hstep
      rcases hstep with ⟨c₁, hask, heq⟩
      cases heq
      apply h.resume hhealthy hnext hask

open Transition

theorem holds {c₀ : Client} {result : Int32} {before : List (Op × Option Outcome)}
    (hbefore : Run (restrict IOUringProactor.Clean (ofStep IOUringProactor.step)) (.ofEntries result) before p)
    (hvalid : s.isValid = true) (hdata : data.size ≠ 0) (hstarted : Started d s data p c₀)
    (hrun : Run (restrict (Healthy s data) (ofStep (Client.step d s data))) c₀ trace c)
    : Holds d data trace c := by
  induction hrun with
  | nil => exact .start hvalid hdata (IOUringProactor.run_inv hbefore) hstarted
  | snoc _ hstep ih => exact ih.step hstep.1 hstep.2

end Client

end Net

end Sfap
