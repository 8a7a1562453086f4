import Sfap.Net.IOUring.Accounts

/-!
This module contains what becomes of the suspended calls when the completions come in: each goes on once
with its own result, whatever the order.
-/

namespace Sfap

namespace Net

open IOUring

namespace IOUringProactor

def Answers (r : Frame → Int32) (s : IOUringProactor) : Op → Prop
  | .handleCqe i result => ∀ cqe ∈ s.inFlight[i]?, ∀ f ∈ cqe.origin, result = r f
  | _ => False

instance (r : Frame → Int32) (s : IOUringProactor) : (op : Op) → Decidable (Answers r s op)
  | .handleCqe i result =>
    inferInstanceAs (Decidable (∀ cqe ∈ s.inFlight[i]?, ∀ f ∈ cqe.origin, result = r f))
  | .connect .. => .isFalse id
  | .sleepFor .. => .isFalse id
  | .socketSend .. => .isFalse id
  | .socketRecv .. => .isFalse id
  | .close _ => .isFalse id
  | .stop .. => .isFalse id

def settle (r : Frame → Int32) (f : Frame) (call : Call) : Call :=
  if call.outcome.isSome then call else (call.onComplete f (r f)).done

structure Settles (r : Frame → Int32) (s s' : IOUringProactor) : Prop where
  balanced : Balanced s'
  calls : ∀ f, s'.calls f = s.calls f
    ∨ ∃ call, s.calls f = some call ∧ call.outcome = none ∧ s'.calls f = some (call.onComplete f (r f)).done
  resumed : (s'.resumed ++ s'.waiting).Perm (s.resumed ++ s.waiting)

variable {r : Frame → Int32} {s s' s'' : IOUringProactor} {f : Frame} {a : Addr} {call : Call}

theorem resumed_resume (s : IOUringProactor) (f : Frame) : (s.resume f).resumed = s.resumed ++ [f] := by
  unfold resume
  dsimp only
  split
  . rfl
  . next call _ =>
    split
    . rfl
    . rcases proceed_eq { s with resumed := s.resumed ++ [f] } f call with ⟨s₁, hsame, heq⟩
      rw [heq]
      exact hsame.resumed

theorem resumed_handleCqe {cqe : InFlight} {result : Int32} {cell : Cell}
    (hstep : s.handleCqe cqe result = some s') (ha : cqe.sqe.userData = some a) (hcell : s.opdata a = some cell)
    : s'.resumed = s.resumed ++ [cell.data.coro] := by
  have hcomplete (s : IOUringProactor) (f : Frame) : (s.completeOn f result).resumed = s.resumed := by
    unfold completeOn
    split <;> rfl
  have hfree (s : IOUringProactor) (a : Addr) : (s.freeOpdata a).resumed = s.resumed := by
    unfold freeOpdata
    split <;> rfl
  unfold handleCqe at hstep
  rw [ha] at hstep
  dsimp only at hstep
  rw [hcell] at hstep
  dsimp only at hstep
  rw [Option.some.injEq] at hstep
  rw [← hstep, resumed_resume, hfree, hcomplete]
  rfl

theorem Settles.refl (h : Balanced s) : Settles r s s :=
  ⟨h, fun _ => .inl rfl, .refl _⟩

theorem waiting_perm {i : Nat} {cqe : InFlight} (hi : s.inFlight[i]? = some cqe)
    (hin : s'.inFlight = s.inFlight.eraseIdx i)
    : s.waiting.Perm ((cqe.sqe.userData.bind fun _ => cqe.origin).toList ++ s'.waiting) := by
  rcases List.getElem?_eq_some_iff.mp hi with ⟨hlt, hget⟩
  have hperm := List.getElem_cons_eraseIdx_perm hlt
  rw [hget, ← hin] at hperm
  have hfilter := (hperm.filterMap fun e => e.sqe.userData.bind fun _ => e.origin).symm
  rw [List.filterMap_cons] at hfilter
  unfold waiting
  split at hfilter
  . next hnone =>
    rw [hnone]
    exact hfilter
  . next hsome =>
    rw [hsome]
    exact hfilter

theorem Settles.handleCqe {i : Nat} {cqe : InFlight} {result : Int32} (h : Settles r s s')
    (hi : s'.inFlight[i]? = some cqe) (hresult : ∀ f ∈ cqe.origin, result = r f)
    (hstep : { s' with inFlight := s'.inFlight.eraseIdx i }.handleCqe cqe result = some s'')
    : Settles r s s'' := by
  have hin : s''.inFlight = s'.inFlight.eraseIdx i := (sameRing_handleCqe hstep).inFlight
  have hperm := waiting_perm hi hin
  cases ha : cqe.sqe.userData with
  | none =>
    refine ⟨h.balanced.handleCqe hi hstep, ?_, ?_⟩
    . rw [handleCqe_null ha hstep]
      exact h.calls
    . have hresumed : s''.resumed = s'.resumed := by
        rw [handleCqe_null ha hstep]
        rfl
      rw [ha] at hperm
      rw [hresumed]
      exact (hperm.symm.append_left s'.resumed).trans h.resumed
  | some a =>
    rcases h.balanced.awaits cqe (List.mem_of_getElem? hi) a ha with ⟨g, call, haw⟩
    have hends := (completes_handleCqe h.balanced.toInv hi ha haw hstep).ends
    have horigin := hresult g haw.origin
    refine ⟨h.balanced.handleCqe hi hstep, ?_, ?_⟩
    . intro f
      rw [hends.calls]
      by_cases heq : f = g
      . right
        rw [heq, Function.update_self, horigin]
        rcases h.calls g with hold | ⟨call', _, _, hdone⟩
        . rw [haw.call_eq] at hold
          exact ⟨call, hold.symm, haw.suspended, rfl⟩
        . rw [haw.call_eq, Option.some.injEq] at hdone
          have hsuspended := haw.suspended
          rw [hdone] at hsuspended
          simp at hsuspended
      . rw [Function.update_of_ne heq]
        apply h.calls f
    . have hresumed : s''.resumed = s'.resumed ++ [g] := resumed_handleCqe hstep ha haw.cell
      rw [ha, Option.bind_some, haw.origin] at hperm
      rw [hresumed, List.append_assoc]
      exact (hperm.symm.append_left s'.resumed).trans h.resumed

theorem settles_run (h : Balanced s) {drain : List (Op × Option Outcome)}
    (hdrain : Transition.Run (Transition.restrict (Answers r) (Transition.ofStep step)) s drain s')
    : Settles r s s' ∧ s'.inFlight.length + drain.length = s.inFlight.length := by
  induction hdrain with
  | nil => exact ⟨.refl h, rfl⟩
  | @snoc trace s₁ s₂ op o _ hlast ih =>
    rcases ih with ⟨hsettles, hlength⟩
    rcases hlast with ⟨hanswers, hstep⟩
    cases op with
    | handleCqe i result =>
      rcases handleCqe_eq_some hstep with ⟨cqe, hi, hs₂⟩
      have hin : s₂.inFlight = s₁.inFlight.eraseIdx i := (sameRing_handleCqe hs₂).inFlight
      have hlt := (List.getElem?_eq_some_iff.mp hi).1
      refine ⟨hsettles.handleCqe hi (hanswers cqe hi) hs₂, ?_⟩
      rw [hin, List.length_eraseIdx_of_lt hlt, List.length_append, List.length_singleton]
      omega
    | _ => exact absurd hanswers id

theorem handleCqe_enabled (h : Inv s) {i : Nat} (hi : i < s.inFlight.length)
    : ∃ result s', Answers r s (.handleCqe i result) ∧ s.step (.handleCqe i result) = some (s', none) := by
  have hget : s.inFlight[i]? = some s.inFlight[i] := List.getElem?_eq_getElem hi
  have hresult : ∃ result, Answers r s (.handleCqe i result) := by
    cases horigin : s.inFlight[i].origin with
    | none => exact ⟨0, by simp [Answers, hget, horigin]⟩
    | some f => exact ⟨r f, by simp [Answers, hget, horigin]⟩
  rcases hresult with ⟨result, hanswers⟩
  have hstep : ∃ s', { s with inFlight := s.inFlight.eraseIdx i }.handleCqe s.inFlight[i] result
      = some s' := by
    unfold IOUringProactor.handleCqe
    split
    . exact ⟨_, rfl⟩
    . next a ha =>
      rcases h.awaits _ (List.getElem_mem hi) a ha with ⟨_, _, haw⟩
      rw [haw.cell]
      exact ⟨_, rfl⟩
  rcases hstep with ⟨s', hs'⟩
  refine ⟨result, s', hanswers, ?_⟩
  unfold IOUringProactor.step
  dsimp only
  rw [hget]
  dsimp only
  rw [hs']
  rfl

/--
From any state of a clean run on, whatever is in flight may complete in any order, and after as many
completions as there have been entries in flight nothing is. Then each call that was suspended has been
resumed once and has ended with its own result, so that the outcomes do not depend on the order.
-/
theorem drained_in_any_order {result : Int32} {trace drain : List (Op × Option Outcome)}
    (hrun : Transition.Run (Transition.restrict Clean (Transition.ofStep step)) (.ofEntries result) trace s)
    (hdrain : Transition.Run (Transition.restrict (Answers r) (Transition.ofStep step)) s drain s')
    : s'.inFlight.length + drain.length = s.inFlight.length
        ∧ (∀ i < s'.inFlight.length, ∃ n s'',
          Answers r s' (.handleCqe i n) ∧ s'.step (.handleCqe i n) = some (s'', none))
        ∧ (s'.inFlight = [] → s'.resumed.Perm (s.resumed ++ s.waiting)
          ∧ ∀ f, s'.calls f = (s.calls f).map (settle r f)) := by
  rcases settles_run (run_balanced hrun) hdrain with ⟨hsettles, hlength⟩
  have hbalanced := hsettles.balanced
  refine ⟨hlength, ?_, ?_⟩
  . intro i hi
    apply handleCqe_enabled hbalanced.toInv hi
  . intro hnil
    have hwaiting : s'.waiting = [] := by
      unfold waiting
      rw [hnil]
      rfl
    constructor
    . have hperm := hsettles.resumed
      rw [hwaiting, List.append_nil] at hperm
      exact hperm
    . intro f
      rcases hsettles.calls f with hsame | ⟨call, hcall, hout, hdone⟩
      . rw [hsame]
        cases hcall : s.calls f with
        | none => rfl
        | some call =>
          have hout : call.outcome ≠ none := by
            intro hout
            rw [hcall] at hsame
            have hmem := (mem_waiting hbalanced).mpr ⟨call, hsame, hout⟩
            rw [hwaiting] at hmem
            simp at hmem
          rw [Option.map_some, settle, if_pos (Option.isSome_iff_ne_none.mpr hout)]
      . rw [hdone, hcall, Option.map_some, settle, hout]
        rfl

-- the last of three calls completes first
theorem drained_of_reversed
    : let r : Frame → Int32 := fun f => if f = 1 then 3 else -62
      ∃ trace s drain s',
        Transition.Run (Transition.restrict Clean (Transition.ofStep step)) (.ofEntries 0) trace s
          ∧ Transition.Run (Transition.restrict (Answers r) (Transition.ofStep step)) s drain s'
          ∧ drain.length = 2 ∧ s'.inFlight.length = 0
          ∧ s'.resumed.Perm [0, 1, 2] ∧ (s'.calls 1).bind Call.outcome = some (.bytes 3) := by
  intro r
  let data : ByteSpan := ⟨some ⟨0, 0⟩, 5⟩
  let ops : List Op :=
    [.connect ⟨.v4 #v[127, 0, 0, 1], 80⟩ 9 ⟨0, some 0, some 0, 1⟩, .handleCqe 0 0,
      .socketSend 1 data ⟨0, some 0, some 0, 1⟩, .sleepFor 5 ⟨0, some 0, some 1, 1⟩]
  let answers : List Op := [.handleCqe 1 (-62), .handleCqe 0 3]
  have hexec : ((Transition.exec (Transition.guarded Clean step) (.ofEntries 0) ops).bind fun r₁ =>
      (Transition.exec (Transition.guarded (Answers r) step) r₁.1 answers).map fun r₂ =>
        (r₁.1.inFlight.length, r₁.1.resumed ++ r₁.1.waiting,
          (r₁.1.calls 1).map (settle r 1) |>.bind Call.outcome, r₂.2.length))
      = some (2, [0, 1, 2], some (.bytes 3), 2) := by decide
  rcases Option.bind_eq_some_iff.mp hexec with ⟨⟨s, outs⟩, hexec₁, hexec₂⟩
  rcases Option.map_eq_some_iff.mp hexec₂ with ⟨⟨s', outs'⟩, hexec₂, heq⟩
  simp only [Prod.mk.injEq] at heq
  rcases heq with ⟨hlength, hresumed, houtcome, houts⟩
  have hrun := Transition.run_restrict_of_exec hexec₁
  have hdrain := Transition.run_restrict_of_exec hexec₂
  have hzip : (answers.zip outs').length = 2 := by
    rw [List.length_zip, houts]
    rfl
  rcases drained_in_any_order hrun hdrain with ⟨hcount, _, hend⟩
  have hnil : s'.inFlight.length = 0 := by omega
  rcases hend (List.eq_nil_of_length_eq_zero hnil) with ⟨hperm, hcalls⟩
  refine ⟨_, s, _, s', hrun, hdrain, hzip, hnil, ?_, ?_⟩
  . rw [hresumed] at hperm
    exact hperm
  . rw [hcalls]
    exact houtcome

end IOUringProactor

end Net

end Sfap
