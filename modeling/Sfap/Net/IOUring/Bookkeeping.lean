import Sfap.Net.IOUring.Steps

/-!
This module contains when the proactor keeps its books: no coroutine is resumed twice, no
`OperationData` is freed twice, and every completion carries the pointer of its own operation.
-/

namespace Sfap

namespace Net

open IOUring

namespace IOUringProactor

variable {s s' : IOUringProactor} {f : Frame} {a : Addr} {call : Call} {env : Env}

theorem Inv.called {args : Args} {informed : Prop} (h : Inv s) (hcalled : Called s args informed s')
    : Inv s' := by
  have hfresh : s.calls s.nextFrame = none := h.fresh _ (Nat.le_refl _)
  cases hcalled with
  | returns hs₀ hends _ _ _ => exact (h.unchanged hs₀.toUnchanged).ends hends
  | suspends hs₀ hl hargs hout hop hreq hfree =>
    apply (h.unchanged hs₀.toUnchanged).launches hl
    . rw [hs₀.calls]
      exact hfresh
    . exact hs₀.lt
    . exact hout
    . exact hop
    . rw [hargs]
      exact hreq
    . rw [hs₀.opdata]
      exact hfree

theorem unchanged_stop {sqe : Option Nat} {result : Int32} (hoffers : s.Offers sqe none)
    (hclean : s.Clean (.stop sqe result))
    : Unchanged s (s.stop sqe result) := by
  have hsame : ∀ slot queued, Unchanged s
      { s with running := false, slots := slot, queued := queued } := by
    intro slot queued
    exact ⟨⟨[], by simp, (List.append_nil _).symm⟩, rfl, rfl, Nat.le_refl _, rfl, rfl, rfl⟩
  unfold stop
  dsimp only
  split
  . apply hsame
  . next slot =>
    have hslot : ∀ e ∈ s.queued, e.slot ≠ slot := hoffers.1 slot rfl
    by_cases hfail : result < 0
    . rw [submit_fail hfail]
      apply hsame
    . have hnull : ∀ e ∈ s.queued, (s.slots e.slot).userData = none := by
        apply hclean
        simp [Op.handsOver, hfail]
      rw [submit_ok hfail]
      refine ⟨⟨_, ?_, rfl⟩, rfl, rfl, Nat.le_refl _, rfl, rfl, rfl⟩
      intro e he
      rw [List.mem_map] at he
      rcases he with ⟨q, hq, rfl⟩
      unfold prep getSqe at hq ⊢
      dsimp only at hq ⊢
      rw [List.mem_append, List.mem_singleton] at hq
      rcases hq with hq | rfl
      . rw [Function.update_of_ne (hslot q hq)]
        apply hnull q hq
      . rw [Function.update_self]

structure Completes (s : IOUringProactor) (cqe : InFlight) (result : Int32) (f : Frame) (call : Call)
    (s' : IOUringProactor) : Prop where
  ends : Ends s f (call.onComplete f result).done s'
  handled : s'.handled = s.handled ++ [⟨some f, cqe.sqe.request, result,
    some ⟨⟨call.args.type, call.socket, f, f⟩, true⟩⟩]

theorem eraseIdx_userData_ne {i : Nat} {cqe : InFlight} (h : Inv s) (hi : s.inFlight[i]? = some cqe)
    (ha : cqe.sqe.userData = some a)
    : ∀ e ∈ s.inFlight.eraseIdx i, e.sqe.userData ≠ some a := by
  rcases List.getElem?_eq_some_iff.mp hi with ⟨hlt, hget⟩
  have hperm := List.getElem_cons_eraseIdx_perm hlt
  have hdistinct := ((hperm.filterMap (·.sqe.userData)).nodup_iff).mpr h.distinct
  rw [hget, List.filterMap_cons, ha, List.nodup_cons] at hdistinct
  intro e he heq
  apply hdistinct.1
  rw [List.mem_filterMap]
  exact ⟨e, he, heq⟩

theorem Awaits.lt {e : InFlight} (haw : Awaits s e a f call) (h : Inv s) : f < s.nextFrame := by
  apply Nat.lt_of_not_le
  intro hle
  have hnone := h.fresh f hle
  rw [haw.call_eq] at hnone
  simp at hnone

theorem Awaits.others {e e' : InFlight} {a' : Addr} {f' : Frame} {call' : Call}
    (haw : Awaits s e a f call) (haw' : Awaits s e' a' f' call') (hne : a' ≠ a)
    : f' ≠ f := by
  intro heq
  have hcall := haw'.call_eq
  rw [heq, haw.call_eq] at hcall
  cases hcall
  have hop := haw'.operation
  rw [haw.operation] at hop
  cases hop
  apply hne rfl

theorem completes_handleCqe {i : Nat} {cqe : InFlight} {result : Int32} (h : Inv s)
    (hi : s.inFlight[i]? = some cqe) (ha : cqe.sqe.userData = some a) (haw : Awaits s cqe a f call)
    (hstep : { s with inFlight := s.inFlight.eraseIdx i }.handleCqe cqe result = some s')
    : Completes s cqe result f call s' := by
  let cell : Cell := ⟨⟨call.args.type, call.socket, f, f⟩, true⟩
  let s₁ := { s with inFlight := s.inFlight.eraseIdx i }.logHandled
    ⟨cqe.origin, cqe.sqe.request, result, some cell⟩
  have hcell : (s₁.setCall f (call.onComplete f result)).opdata a = some cell := haw.cell
  have hcall : s₁.calls f = some call := haw.call_eq
  let s₂ := { s₁ with
    calls := Function.update s₁.calls f (some (call.onComplete f result))
    opdata := Function.update s₁.opdata a (some { cell with live := false })
    freed := s₁.freed ++ [f]
  }
  have hresumed : s' = s₂.resume f := by
    unfold handleCqe at hstep
    rw [ha] at hstep
    dsimp only at hstep
    rw [haw.cell] at hstep
    dsimp only at hstep
    rw [completeOn_eq hcall, freeOpdata_eq hcell, Option.some.injEq] at hstep
    exact hstep.symm
  have hfin : Finishes s₂ f (call.onComplete f result) s' := by
    rw [hresumed]
    apply resume_spec
    . apply Function.update_self
    . rw [Call.outcome_onComplete]
      exact haw.suspended
  constructor
  . constructor
    . exact haw.not_done
    . apply haw.lt h
    . rfl
    . rw [hfin.calls]
      apply Function.update_idem
    . exact hfin.nextFrame
    . rw [hfin.inFlight]
      apply List.eraseIdx_sublist s.inFlight i
    . intro e he a' f' call' ha' haw'
      rw [hfin.inFlight] at he
      have hne : a' ≠ a := by
        intro heq
        rw [heq] at ha'
        apply eraseIdx_userData_ne h hi ha e he ha'
      refine ⟨haw.others haw' hne, ?_⟩
      rw [hfin.opdata]
      apply Function.update_of_ne hne
    . right
      exact hfin.resumed
    . right
      exact hfin.freed
    . intro entry hentry
      rw [hfin.handled] at hentry
      have hsplit : entry ∈ s.handled ++ [⟨cqe.origin, cqe.sqe.request, result, some cell⟩] := hentry
      rw [List.mem_append, List.mem_singleton] at hsplit
      rcases hsplit with hold | rfl
      . exact Or.inl hold
      . right
        intro cell' hcell'
        cases hcell'
        exact ⟨rfl, haw.origin⟩
  . rw [hfin.handled, ← haw.origin]
    rfl

theorem handleCqe_null {cqe : InFlight} {result : Int32} (ha : cqe.sqe.userData = none)
    (hstep : s.handleCqe cqe result = some s')
    : s' = s.logHandled ⟨cqe.origin, cqe.sqe.request, result, none⟩ := by
  unfold handleCqe at hstep
  rw [ha] at hstep
  dsimp only at hstep
  rw [Option.some.injEq] at hstep
  exact hstep.symm

theorem Inv.handled_null {i : Nat} {entry : Handled} (h : Inv s) (hentry : entry.target = none)
    : Inv ({ s with inFlight := s.inFlight.eraseIdx i }.logHandled entry) := by
  have hsub := List.eraseIdx_sublist s.inFlight i
  constructor
  . constructor
    . exact h.resumed_once
    . exact h.freed_once
    . intro entry' hentry'
      have hsplit : entry' ∈ s.handled ++ [entry] := hentry'
      rw [List.mem_append, List.mem_singleton] at hsplit
      rcases hsplit with hold | rfl
      . apply h.handled_own entry' hold
      . intro cell hcell
        rw [hentry] at hcell
        simp at hcell
  . intro e he a ha
    rcases h.awaits e (hsub.subset he) a ha with ⟨f, call, haw⟩
    exact ⟨f, call, haw.congr rfl rfl⟩
  . apply List.Nodup.sublist _ h.distinct
    apply List.Sublist.filterMap
    exact hsub
  . exact h.fresh
  . exact h.resumed_done
  . exact h.freed_done

theorem Inv.handleCqe {i : Nat} {cqe : InFlight} {result : Int32} (h : Inv s)
    (hi : s.inFlight[i]? = some cqe)
    (hstep : { s with inFlight := s.inFlight.eraseIdx i }.handleCqe cqe result = some s')
    : Inv s' := by
  cases ha : cqe.sqe.userData with
  | none =>
    rw [handleCqe_null ha hstep]
    apply h.handled_null
    rfl
  | some a =>
    rcases h.awaits cqe (List.mem_of_getElem? hi) a ha with ⟨f, call, haw⟩
    apply h.ends (completes_handleCqe h hi ha haw hstep).ends

theorem Inv.defined (h : Inv s) (op : Op) : s.Defined op := by
  cases op with
  | handleCqe i result =>
    intro cqe hcqe a ha
    rcases h.awaits cqe (List.mem_of_getElem? hcqe) a ha with ⟨f, call, haw⟩
    exact ⟨_, haw.cell, rfl, ⟨call, haw.call_eq, haw.suspended⟩, call, haw.call_eq, haw.suspended⟩
  | _ => trivial

theorem called_eq_some {r : IOUringProactor × Option Outcome} (h : s.called env s' = some r)
    : s.Offers env.sqe env.opdata ∧ r.1 = s' := by
  unfold called at h
  split at h
  . next hoffers =>
    cases h
    exact ⟨hoffers, rfl⟩
  . simp at h

theorem stop_eq_some {sqe : Option Nat} {result : Int32} {o : Option Outcome}
    (h : s.step (.stop sqe result) = some (s', o))
    : s.Offers sqe none ∧ s.stop sqe result = s' := by
  unfold IOUringProactor.step at h
  dsimp only at h
  split at h
  . next hoffers =>
    cases h
    exact ⟨hoffers, rfl⟩
  . simp at h

theorem handleCqe_eq_some {i : Nat} {result : Int32} {o : Option Outcome}
    (h : s.step (.handleCqe i result) = some (s', o))
    : ∃ cqe, s.inFlight[i]? = some cqe
        ∧ { s with inFlight := s.inFlight.eraseIdx i }.handleCqe cqe result = some s' := by
  unfold IOUringProactor.step at h
  dsimp only at h
  split at h
  . simp at h
  . next cqe hi =>
    rw [Option.map_eq_some_iff] at h
    rcases h with ⟨s₁, hs₁, heq⟩
    cases heq
    exact ⟨cqe, hi, hs₁⟩

theorem Inv.step {op : Op} {o : Option Outcome} (h : Inv s) (hclean : s.Clean op)
    (hstep : s.step op = some (s', o))
    : Inv s' := by
  have hfresh : s.calls s.nextFrame = none := h.fresh _ (Nat.le_refl _)
  cases op with
  | connect address fd env =>
    rcases called_eq_some hstep with ⟨hoffers, rfl⟩
    apply h.called (called_connect hfresh hoffers hclean)
  | sleepFor d env =>
    rcases called_eq_some hstep with ⟨hoffers, rfl⟩
    apply h.called (called_sleepFor hfresh hoffers hclean)
  | socketSend sid data env =>
    rcases called_eq_some hstep with ⟨hoffers, rfl⟩
    apply h.called (called_socketSend hfresh hoffers hclean)
  | socketRecv sid data env =>
    rcases called_eq_some hstep with ⟨hoffers, rfl⟩
    apply h.called (called_socketRecv hfresh hoffers hclean)
  | close handle =>
    cases hstep
    apply h.unchanged (sameCalls_close s handle).unchanged
  | stop sqe result =>
    rcases stop_eq_some hstep with ⟨hoffers, rfl⟩
    apply h.unchanged (unchanged_stop hoffers hclean)
  | handleCqe i result =>
    rcases handleCqe_eq_some hstep with ⟨cqe, hi, hs'⟩
    apply h.handleCqe hi hs'

theorem run_inv {result : Int32} {trace : List (Op × Option Outcome)}
    (hrun : Transition.Run (Transition.restrict Clean (Transition.ofStep step)) (.ofEntries result) trace s)
    : Inv s := by
  apply hrun.invariant (.ofEntries result)
  intro s₁ op o s₂ hinv hstep
  apply hinv.step hstep.1 hstep.2

theorem books_kept_of_clean {result : Int32} {trace : List (Op × Option Outcome)}
    (hrun : Transition.Run (Transition.restrict Clean (Transition.ofStep step)) (.ofEntries result) trace s)
    : Sound s := by
  exact (run_inv hrun).toSound

-- an entry that was never in use is left behind by a failed allocation and handed over later
theorem books_kept_with_unused_entry
    : ∃ trace s,
        Transition.Run (Transition.restrict Clean (Transition.ofStep step)) (.ofEntries 0) trace s
          ∧ s.resumed = [0, 1] ∧ s.freed = [1] ∧ s.handled.length = 2 ∧ Sound s := by
  let ops : List Op :=
    [.sleepFor 5 ⟨0, some 0, none, 1⟩, .sleepFor 5 ⟨0, some 1, some 0, 2⟩, .handleCqe 0 0,
      .handleCqe 0 (-62)]
  have hexec : ((Transition.exec (Transition.guarded Clean step) (.ofEntries 0) ops).map fun r =>
      (r.1.resumed, r.1.freed, r.1.handled.length)) = some ([0, 1], [1], 2) := by decide
  rcases Option.map_eq_some_iff.mp hexec with ⟨⟨s, outs⟩, hexec, heq⟩
  simp only [Prod.mk.injEq] at heq
  have hrun := Transition.run_restrict_of_exec hexec
  exact ⟨_, s, hrun, heq.1, heq.2.1, heq.2.2, books_kept_of_clean hrun⟩

/--
The first call completes, the second takes its entry and gets no memory, the third hands the entry over:
its pointer is freed and its coroutine resumed once more.
-/
theorem stale_entry_freed_twice
    : ¬ ∀ result trace s,
        Transition.Run (Transition.ofStep step) (.ofEntries result) trace s → Sound s := by
  intro h
  let ops : List Op :=
    [.sleepFor 5 ⟨0, some 0, some 0, 1⟩, .handleCqe 0 (-62), .sleepFor 5 ⟨0, some 0, none, 1⟩,
      .sleepFor 5 ⟨0, some 1, some 1, 2⟩, .handleCqe 0 0]
  have hexec : ((Transition.exec step (.ofEntries 0) ops).map fun r => (r.1.resumed, r.1.freed))
      = some ([0, 1, 0], [0, 0]) := by decide
  rcases Option.map_eq_some_iff.mp hexec with ⟨⟨s, outs⟩, hexec, heq⟩
  simp only [Prod.mk.injEq] at heq
  have hsound := h 0 _ s (Transition.run_of_exec hexec)
  have honce := hsound.freed_once
  rw [heq.2] at honce
  exact absurd honce (by decide)

end IOUringProactor

end Net

end Sfap
