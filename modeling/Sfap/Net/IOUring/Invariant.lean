import Sfap.Net.IOUring.Lemmas
import Mathlib.Data.List.Nodup
import Mathlib.Data.List.Perm.Basic

/-!
This module contains the invariant of the proactor's books: every entry in flight that carries a pointer
belongs to a suspended call, and what has been resumed or freed belongs to a call that is done.
-/

namespace Sfap

namespace Net

open IOUring

def IOUring.Handled.Own (h : Handled) : Prop :=
  ∀ cell, h.target = some cell → cell.live = true ∧ h.origin = some cell.data.coro

namespace IOUringProactor

structure Sound (s : IOUringProactor) : Prop where
  resumed_once : s.resumed.Nodup
  freed_once : s.freed.Nodup
  handled_own : ∀ h ∈ s.handled, h.Own

structure Awaits (s : IOUringProactor) (e : InFlight) (a : Addr) (f : Frame) (call : Call) : Prop where
  origin : e.origin = some f
  cell : s.opdata a = some ⟨⟨call.args.type, call.socket, f, f⟩, true⟩
  call_eq : s.calls f = some call
  suspended : call.outcome = none
  operation : call.operation = some a
  request : e.sqe.request.type = some call.args.type

def Done (s : IOUringProactor) (f : Frame) : Prop :=
  ∃ call, s.calls f = some call ∧ call.outcome.isSome = true

structure Inv (s : IOUringProactor) : Prop extends Sound s where
  awaits : ∀ e ∈ s.inFlight, ∀ a, e.sqe.userData = some a → ∃ f call, Awaits s e a f call
  distinct : (s.inFlight.filterMap (·.sqe.userData)).Nodup
  fresh : ∀ f, s.nextFrame ≤ f → s.calls f = none
  resumed_done : ∀ f ∈ s.resumed, s.Done f
  freed_done : ∀ f ∈ s.freed, s.Done f

variable {s s' : IOUringProactor} {f : Frame} {a : Addr} {call : Call}

theorem Sound.congr (h : Sound s) (hresumed : s'.resumed = s.resumed) (hfreed : s'.freed = s.freed)
    (hhandled : s'.handled = s.handled)
    : Sound s' := by
  constructor
  . rw [hresumed]
    exact h.resumed_once
  . rw [hfreed]
    exact h.freed_once
  . rw [hhandled]
    exact h.handled_own

theorem not_done_of_none (hf : s.calls f = none) : ¬ s.Done f := by
  intro hdone
  rcases hdone with ⟨call, hcall, _⟩
  rw [hf] at hcall
  simp at hcall

theorem Awaits.not_done {e : InFlight} (h : Awaits s e a f call) : ¬ s.Done f := by
  intro hdone
  rcases hdone with ⟨call', hcall', hsome⟩
  rw [h.call_eq] at hcall'
  cases hcall'
  rw [h.suspended] at hsome
  simp at hsome

theorem Awaits.frame_ne {e : InFlight} {f' : Frame} (h : Awaits s e a f' call) (hf : s.calls f = none)
    : f' ≠ f := by
  intro heq
  have hcall := h.call_eq
  rw [heq, hf] at hcall
  simp at hcall

theorem Done.update {f' : Frame} (h : s.Done f') (hcall : call.outcome.isSome = true)
    (hcalls : s'.calls = Function.update s.calls f (some call))
    : s'.Done f' := by
  unfold Done
  rw [hcalls]
  by_cases heq : f' = f
  . rw [heq, Function.update_self]
    exact ⟨call, rfl, hcall⟩
  . rw [Function.update_of_ne heq]
    exact h

theorem Inv.fresh_update (h : Inv s) (hlt : f < s.nextFrame) (hnext : s'.nextFrame = s.nextFrame)
    (hcalls : s'.calls = Function.update s.calls f (some call))
    : ∀ g, s'.nextFrame ≤ g → s'.calls g = none := by
  intro g hg
  rw [hnext] at hg
  rw [hcalls, Function.update_of_ne]
  . apply h.fresh g hg
  . intro heq
    rw [heq] at hg
    apply Nat.not_le.mpr hlt hg

theorem Inv.ofEntries (result : Int32) : Inv (.ofEntries result) := by
  constructor
  . constructor
    . exact List.nodup_nil
    . exact List.nodup_nil
    . simp [IOUringProactor.ofEntries]
  . simp [IOUringProactor.ofEntries]
  . exact List.nodup_nil
  . intro f _
    rfl
  . simp [IOUringProactor.ofEntries]
  . simp [IOUringProactor.ofEntries]

/--
What `Inv` is about is as before, but for entries without a pointer that have been handed over.
-/
structure Unchanged (s s' : IOUringProactor) : Prop where
  inFlight : ∃ es : List InFlight, (∀ e ∈ es, e.sqe.userData = none) ∧ s'.inFlight = s.inFlight ++ es
  opdata : s'.opdata = s.opdata
  calls : s'.calls = s.calls
  nextFrame : s.nextFrame ≤ s'.nextFrame
  resumed : s'.resumed = s.resumed
  freed : s'.freed = s.freed
  handled : s'.handled = s.handled

theorem SameCalls.unchanged (h : SameCalls s s') : Unchanged s s' := by
  constructor
  . refine ⟨[], by simp, ?_⟩
    rw [h.inFlight, List.append_nil]
  . exact h.opdata
  . exact h.calls
  . apply Nat.le_of_eq h.nextFrame.symm
  . exact h.resumed
  . exact h.freed
  . exact h.handled

theorem Awaits.congr {e : InFlight} (h : Awaits s e a f call) (hcell : s'.opdata a = s.opdata a)
    (hcall : s'.calls f = s.calls f)
    : Awaits s' e a f call := by
  constructor
  . exact h.origin
  . apply hcell.trans h.cell
  . apply hcall.trans h.call_eq
  . exact h.suspended
  . exact h.operation
  . exact h.request

theorem Inv.unchanged (h : Inv s) (hsame : Unchanged s s') : Inv s' := by
  have hdone : ∀ f, s.Done f → s'.Done f := by
    intro f hf
    unfold Done
    rw [hsame.calls]
    exact hf
  rcases hsame.inFlight with ⟨es, hes, hin⟩
  constructor
  . apply h.toSound.congr hsame.resumed hsame.freed hsame.handled
  . intro e he a ha
    rw [hin, List.mem_append] at he
    rcases he with he | he
    . rcases h.awaits e he a ha with ⟨f, call, haw⟩
      exact ⟨f, call, haw.congr (by rw [hsame.opdata]) (by rw [hsame.calls])⟩
    . rw [hes e he] at ha
      simp at ha
  . rw [hin, List.filterMap_append, List.filterMap_eq_nil_iff.mpr hes, List.append_nil]
    exact h.distinct
  . intro f hf
    rw [hsame.calls]
    apply h.fresh
    apply Nat.le_trans hsame.nextFrame hf
  . intro f hf
    rw [hsame.resumed] at hf
    apply hdone f (h.resumed_done f hf)
  . intro f hf
    rw [hsame.freed] at hf
    apply hdone f (h.freed_done f hf)

structure Ends (s : IOUringProactor) (f : Frame) (call : Call) (s' : IOUringProactor) : Prop where
  notDone : ¬ s.Done f
  lt : f < s.nextFrame
  outcome : call.outcome.isSome = true
  calls : s'.calls = Function.update s.calls f (some call)
  nextFrame : s'.nextFrame = s.nextFrame
  inFlight : s'.inFlight.Sublist s.inFlight
  others : ∀ e ∈ s'.inFlight, ∀ a f' call', e.sqe.userData = some a → Awaits s e a f' call' →
    f' ≠ f ∧ s'.opdata a = s.opdata a
  resumed : s'.resumed = s.resumed ∨ s'.resumed = s.resumed ++ [f]
  freed : s'.freed = s.freed ∨ s'.freed = s.freed ++ [f]
  handled : ∀ h ∈ s'.handled, h ∈ s.handled ∨ h.Own

theorem nodup_log {log log' : List Frame} (hnodup : log.Nodup) (hdone : ∀ f ∈ log, s.Done f)
    (hf : ¬ s.Done f) (hlog : log' = log ∨ log' = log ++ [f])
    : log'.Nodup := by
  rcases hlog with rfl | rfl
  . exact hnodup
  . rw [← List.concat_eq_append, List.nodup_concat]
    exact ⟨fun hmem => hf (hdone f hmem), hnodup⟩

theorem done_log {log log' : List Frame} (hdone : ∀ f ∈ log, s.Done f)
    (hcall : call.outcome.isSome = true)
    (hcalls : s'.calls = Function.update s.calls f (some call))
    (hlog : log' = log ∨ log' = log ++ [f])
    : ∀ g ∈ log', s'.Done g := by
  have hf : s'.Done f := by
    refine ⟨call, ?_, hcall⟩
    rw [hcalls, Function.update_self]
  intro g hg
  rcases hlog with rfl | rfl
  . exact (hdone g hg).update hcall hcalls
  . rw [List.mem_append, List.mem_singleton] at hg
    rcases hg with hg | rfl
    . exact (hdone g hg).update hcall hcalls
    . exact hf

theorem Inv.ends (h : Inv s) (hends : Ends s f call s') : Inv s' := by
  constructor
  . constructor
    . apply nodup_log h.resumed_once h.resumed_done hends.notDone hends.resumed
    . apply nodup_log h.freed_once h.freed_done hends.notDone hends.freed
    . intro entry hentry
      rcases hends.handled entry hentry with hold | hown
      . apply h.handled_own entry hold
      . exact hown
  . intro e he a ha
    rcases h.awaits e (hends.inFlight.subset he) a ha with ⟨f', call', haw⟩
    rcases hends.others e he a f' call' ha haw with ⟨hne, hcell⟩
    refine ⟨f', call', haw.congr hcell ?_⟩
    rw [hends.calls, Function.update_of_ne hne]
  . apply List.Nodup.sublist _ h.distinct
    apply List.Sublist.filterMap
    exact hends.inFlight
  . apply h.fresh_update hends.lt hends.nextFrame hends.calls
  . apply done_log h.resumed_done hends.outcome hends.calls hends.resumed
  . apply done_log h.freed_done hends.outcome hends.calls hends.freed

structure Prepared (s : IOUringProactor) (f : Frame) (s₁ : IOUringProactor) : Prop where
  calls : s₁.calls = s.calls
  nextFrame : s₁.nextFrame = s.nextFrame
  inFlight : s₁.inFlight = s.inFlight
  opdata : ∀ a data, s.opdata a = some ⟨data, true⟩ → s₁.opdata a = s.opdata a
  resumed : s₁.resumed = s.resumed
  freed : s₁.freed = s.freed ∨ s₁.freed = s.freed ++ [f]
  handled : s₁.handled = s.handled

theorem Prepared.refl (s : IOUringProactor) (f : Frame) : Prepared s f s := by
  exact ⟨rfl, rfl, rfl, fun _ _ _ => rfl, rfl, Or.inl rfl, rfl⟩

theorem Prepared.ends {s₁ : IOUringProactor} (h : Prepared s f s₁) (hfin : Finishes s₁ f call s')
    (hf : s.calls f = none) (hlt : f < s.nextFrame)
    : Ends s f call.done s' := by
  constructor
  . apply not_done_of_none hf
  . exact hlt
  . rfl
  . rw [hfin.calls, h.calls]
  . rw [hfin.nextFrame, h.nextFrame]
  . rw [hfin.inFlight, h.inFlight]
  . intro e _ a f' call' _ haw
    refine ⟨haw.frame_ne hf, ?_⟩
    rw [hfin.opdata]
    apply h.opdata a _ haw.cell
  . right
    rw [hfin.resumed, h.resumed]
  . rw [hfin.freed]
    exact h.freed
  . rw [hfin.handled, h.handled]
    intro entry hentry
    exact Or.inl hentry

/--
The call of `f` is suspended and its entry is handed over, behind entries without a pointer.
-/
structure Launches (s : IOUringProactor) (f : Frame) (call : Call) (a : Addr) (request : Request)
    (s' : IOUringProactor) : Prop where
  calls : s'.calls = Function.update s.calls f (some call)
  opdata : s'.opdata
    = Function.update s.opdata a (some ⟨⟨call.args.type, call.socket, f, f⟩, true⟩)
  inFlight : ∃ es : List InFlight, (∀ e ∈ es, e.sqe.userData = none)
    ∧ s'.inFlight = s.inFlight ++ (es ++ [⟨⟨request, some a⟩, some f⟩])
  nextFrame : s'.nextFrame = s.nextFrame
  resumed : s'.resumed = s.resumed
  freed : s'.freed = s.freed
  handled : s'.handled = s.handled

theorem Inv.launches {request : Request} (h : Inv s) (hl : Launches s f call a request s')
    (hf : s.calls f = none) (hlt : f < s.nextFrame) (hout : call.outcome = none)
    (hop : call.operation = some a) (hreq : request.type = some call.args.type)
    (hfree : ∀ cell ∈ s.opdata a, cell.live = false)
    : Inv s' := by
  have hne : ∀ e ∈ s.inFlight, e.sqe.userData ≠ some a := by
    intro e he ha
    rcases h.awaits e he a ha with ⟨_, _, haw⟩
    have hlive := hfree _ haw.cell
    simp at hlive
  have hdone : ∀ g, s.Done g → s'.Done g := by
    intro g hg
    unfold Done
    rw [hl.calls, Function.update_of_ne]
    . exact hg
    . intro heq
      rw [heq] at hg
      apply not_done_of_none hf hg
  rcases hl.inFlight with ⟨es, hes, hin⟩
  constructor
  . apply h.toSound.congr hl.resumed hl.freed hl.handled
  . intro e he a' ha'
    rw [hin, List.mem_append, List.mem_append, List.mem_singleton] at he
    rcases he with he | he | rfl
    . rcases h.awaits e he a' ha' with ⟨f', call', haw⟩
      refine ⟨f', call', haw.congr ?_ ?_⟩
      . rw [hl.opdata, Function.update_of_ne]
        intro heq
        rw [heq] at ha'
        apply hne e he ha'
      . rw [hl.calls, Function.update_of_ne (haw.frame_ne hf)]
    . rw [hes e he] at ha'
      simp at ha'
    . cases ha'
      refine ⟨f, call, rfl, ?_, ?_, hout, hop, hreq⟩
      . rw [hl.opdata, Function.update_self]
      . rw [hl.calls, Function.update_self]
  . rw [hin, List.filterMap_append, List.filterMap_append, List.filterMap_eq_nil_iff.mpr hes]
    rw [List.nil_append, List.nodup_append]
    refine ⟨h.distinct, by simp, ?_⟩
    intro b hb b' hb' heq
    simp only [List.filterMap_cons, List.filterMap_nil, List.mem_singleton] at hb'
    rw [List.mem_filterMap] at hb
    rcases hb with ⟨e, he, hb⟩
    rw [heq, hb'] at hb
    apply hne e he hb
  . apply h.fresh_update hlt hl.nextFrame hl.calls
  . intro g hg
    rw [hl.resumed] at hg
    apply hdone g (h.resumed_done g hg)
  . intro g hg
    rw [hl.freed] at hg
    apply hdone g (h.freed_done g hg)

end IOUringProactor

end Net

end Sfap
