import Sfap.Lib.Ownership
import Sfap.Utils.Task.Safety

/-!
This module contains the accounts of coroutine frames: whatever the owners of tasks do with them, every
frame belongs to exactly one task object until that object destroys it.
-/

namespace Sfap

namespace Task

namespace Machine

open Ownership (Exclusive)
open Transition

variable {V : Type}

def Alive (m : Machine V) (f : Frame) : Prop :=
  m.frames f ≠ none

structure Accounted (m : Machine V) : Prop where
  exclusive : Exclusive (fun v => (m.tasks v).join) m.Alive
  fresh : ∀ f, m.nextFrame ≤ f → ¬ m.Alive f

structure SameFrames (m m' : Machine V) : Prop where
  tasks : m'.tasks = m.tasks
  alive : ∀ f, m'.Alive f ↔ m.Alive f
  next : m'.nextFrame = m.nextFrame

variable {m m' m₁ m₂ : Machine V} {f g : Frame} {c c' : Coroutine V} {p : Point} {r : Resumer}
  {h other : Option Frame} {v u : Var}

theorem SameFrames.refl (m : Machine V) : SameFrames m m :=
  ⟨rfl, fun _ => Iff.rfl, rfl⟩

theorem SameFrames.trans (h₁ : SameFrames m m₁) (h₂ : SameFrames m₁ m₂) : SameFrames m m₂ :=
  ⟨h₂.tasks.trans h₁.tasks, fun f => (h₂.alive f).trans (h₁.alive f), h₂.next.trans h₁.next⟩

theorem SameFrames.accounted (hsame : SameFrames m m') (hacc : m.Accounted) : m'.Accounted := by
  constructor
  . rw [hsame.tasks]
    apply hacc.exclusive.congr hsame.alive
  . intro f hf
    rw [hsame.alive]
    rw [hsame.next] at hf
    apply hacc.fresh f hf

theorem sameFrames_setFrame (hf : m.Alive f) : SameFrames m (m.setFrame f c) := by
  refine ⟨rfl, ?_, rfl⟩
  intro g
  unfold Alive
  rw [frames_setFrame]
  split
  . next heq =>
    rw [heq]
    exact iff_of_true (by simp) hf
  . rfl

theorem alive_of_frame (hf : m.frames f = some c) : m.Alive f := by
  unfold Alive
  rw [hf]
  simp

theorem sameFrames_resume : SameFrames m (m.resume r f) := by
  have hlog : SameFrames m (m.log r f) := ⟨rfl, fun _ => Iff.rfl, rfl⟩
  unfold resume
  dsimp only
  split
  . exact hlog
  . next hf =>
    split
    . exact hlog
    . exact hlog
    . apply hlog.trans
      apply sameFrames_setFrame (alive_of_frame hf)

theorem sameFrames_suspend (hf : m.frames f = some c) : SameFrames m (m.suspend f c' p) := by
  apply sameFrames_setFrame (alive_of_frame hf)

theorem sameFrames_awaitSuspend : SameFrames m (m.awaitSuspend f g) := by
  have hcont : SameFrames m (m.setContinuation f g) := by
    unfold setContinuation
    split
    . apply SameFrames.refl
    . next hf => apply sameFrames_setFrame (alive_of_frame hf)
  apply hcont.trans
  apply sameFrames_resume

theorem sameFrames_coAwait (hf : m.frames f = some c) : SameFrames m (m.coAwait f c h) := by
  unfold coAwait
  split
  . apply SameFrames.refl
  . split
    . apply SameFrames.refl
    . apply (sameFrames_suspend hf).trans
      apply sameFrames_awaitSuspend

theorem sameFrames_coReturn (hf : m.frames f = some c) {value : V}
    : SameFrames m (m.coReturn f c value) := by
  unfold coReturn
  dsimp only
  split
  . apply sameFrames_suspend hf
  . apply (sameFrames_suspend hf).trans
    apply sameFrames_resume

theorem sameFrames_coAwaitIo (hf : m.frames f = some c) {op : Operation}
    : SameFrames m (m.coAwaitIo f c op) := by
  have hsuspend : SameFrames m (m.suspend f c (.io op)) := sameFrames_suspend hf
  exact ⟨hsuspend.tasks, hsuspend.alive, hsuspend.next⟩

theorem sameFrames_exitIo (hf : m.frames f = some c) {op : Operation}
    : SameFrames m (m.exitIo f c op) := by
  apply (sameFrames_suspend hf).trans
  apply sameFrames_resume

theorem sameFrames_handleCqe {op : Operation} : SameFrames m (m.handleCqe op f) := by
  unfold handleCqe
  dsimp only
  generalize hm : ({ m with operations := Function.update m.operations op none } : Machine V) = m₁
  have hops : SameFrames m m₁ := by
    rw [← hm]
    exact ⟨rfl, fun _ => Iff.rfl, rfl⟩
  apply hops.trans
  apply sameFrames_resume

theorem holds_setTask (x : Option (Option Frame))
    : (fun w => ((m.setTask v x).tasks w).join)
        =
      Function.update (fun w => (m.tasks w).join) v x.join := by
  funext w
  unfold setTask
  dsimp only
  by_cases hw : w = v
  . rw [hw, Function.update_self, Function.update_self]
  . rw [Function.update_of_ne hw, Function.update_of_ne hw]

theorem holds_of_task (hv : m.tasks v = some h) : (m.tasks v).join = h := by
  rw [hv]
  rfl

theorem Accounted.construct (hacc : m.Accounted) (hv : m.tasks v = none)
    : (m.setTask v (some none)).Accounted := by
  constructor
  . rw [holds_setTask, Function.update_eq_self_iff.mpr]
    . exact hacc.exclusive
    . rw [hv]
      rfl
  . exact hacc.fresh

theorem alive_create [Inhabited V] (m : Machine V) (v : Var) (g : Frame)
    : (m.create v).Alive g ↔ g = m.nextFrame ∨ m.Alive g := by
  have hframes : (m.create v).frames g
      = if g = m.nextFrame then some ⟨.suspended .initial, 1, default, none⟩ else m.frames g := by
    apply frames_setFrame
  unfold Alive
  rw [hframes]
  split
  . next heq => simp [heq]
  . next hne => simp [hne]

theorem Accounted.create [Inhabited V] (hacc : m.Accounted) (hv : m.tasks v = none)
    : (m.create v).Accounted := by
  constructor
  . have hholds : (fun w => ((m.create v).tasks w).join)
        = Function.update (fun w => (m.tasks w).join) v (some m.nextFrame) := by
      apply holds_setTask
    rw [hholds]
    apply hacc.exclusive.acquire
    . rw [hv]
      rfl
    . apply hacc.fresh m.nextFrame (Nat.le_refl _)
    . apply alive_create
  . intro g hg
    have hlt : m.nextFrame < g := hg
    rw [alive_create, not_or]
    refine ⟨Nat.ne_of_gt hlt, ?_⟩
    apply hacc.fresh g (Nat.le_of_lt hlt)

theorem Accounted.moveConstruct (hacc : m.Accounted) (hv : m.tasks v = none) (hu : m.tasks u = some h)
    : ((m.setTask v (some h)).setTask u (some none)).Accounted := by
  have hne : u ≠ v := by
    rintro rfl
    rw [hv] at hu
    simp at hu
  constructor
  . have hmove := hacc.exclusive.move (i := v) (j := u) (by rw [hv]; rfl)
    rw [holds_setTask, holds_setTask, Function.update_comm hne.symm]
    rw [holds_of_task hu] at hmove
    exact hmove
  . exact hacc.fresh

theorem alive_destroyTask (g : Frame)
    : (m.destroyTask h).Alive g ↔ m.Alive g ∧ h ≠ some g := by
  unfold Alive destroyTask
  split
  . simp
  . next h =>
    unfold destroyFrame
    dsimp only
    rw [Function.update_apply]
    split
    . next heq => simp [heq]
    . next hne => simp [Ne.symm hne]

theorem tasks_destroyTask : (m.destroyTask h).tasks = m.tasks := by
  cases h <;> rfl

theorem next_destroyTask : (m.destroyTask h).nextFrame = m.nextFrame := by
  cases h <;> rfl

theorem fresh_destroyTask (hacc : m.Accounted) : ∀ f, m.nextFrame ≤ f → ¬ (m.destroyTask h).Alive f := by
  intro f hf halive
  rw [alive_destroyTask] at halive
  exact hacc.fresh f hf halive.1

theorem Accounted.destroy (hacc : m.Accounted) (hv : m.tasks v = some h)
    : ((m.destroyTask h).setTask v none).Accounted := by
  constructor
  . rw [holds_setTask, tasks_destroyTask]
    apply hacc.exclusive.release
    intro g
    rw [holds_of_task hv]
    apply alive_destroyTask
  . intro f hf
    apply fresh_destroyTask hacc f
    rw [← next_destroyTask (m := m) (h := h)]
    exact hf

theorem Accounted.moveAssign (hacc : m.Accounted) (hv : m.tasks v = some h) (hu : m.tasks u = some other)
    : (m.moveAssign v u h other).Accounted := by
  unfold Machine.moveAssign
  split
  . exact hacc
  . next hne =>
    constructor
    . rw [holds_setTask, holds_setTask, tasks_destroyTask, Function.update_comm hne]
      have hdestroy (g : Frame) : (m.destroyTask h).Alive g ↔ m.Alive g ∧ (m.tasks v).join ≠ some g := by
        rw [holds_of_task hv]
        apply alive_destroyTask
      have hreplace := hacc.exclusive.replace hdestroy (Ne.symm hne)
      rw [holds_of_task hu] at hreplace
      exact hreplace
    . intro f hf
      apply fresh_destroyTask hacc f
      rw [← next_destroyTask (m := m) (h := h)]
      exact hf

structure Grows (m m' : Machine V) : Prop where
  next : m.nextFrame ≤ m'.nextFrame
  gone : ∀ f, f < m.nextFrame → m'.Alive f → m.Alive f

theorem Grows.refl (m : Machine V) : Grows m m :=
  ⟨Nat.le_refl _, fun _ _ h => h⟩

theorem Grows.trans (h₁ : Grows m m₁) (h₂ : Grows m₁ m₂) : Grows m m₂ := by
  constructor
  . exact Nat.le_trans h₁.next h₂.next
  . intro f hf halive
    apply h₁.gone f hf
    apply h₂.gone f (Nat.lt_of_lt_of_le hf h₁.next) halive

theorem SameFrames.grows (hsame : SameFrames m m') : Grows m m' := by
  constructor
  . exact Nat.le_of_eq hsame.next.symm
  . intro f _ halive
    rw [← hsame.alive]
    exact halive

theorem grows_destroyTask : Grows m (m.destroyTask h) := by
  constructor
  . exact Nat.le_of_eq next_destroyTask.symm
  . intro f _ halive
    rw [alive_destroyTask] at halive
    exact halive.1

theorem grows_setTask {x : Option (Option Frame)} : Grows m (m.setTask v x) :=
  ⟨Nat.le_refl _, fun _ _ halive => halive⟩

theorem grows_create [Inhabited V] : Grows m (m.create v) := by
  constructor
  . apply Nat.le_succ
  . intro f hf halive
    rw [alive_create] at halive
    rcases halive with heq | halive
    . exact absurd heq (Nat.ne_of_lt hf)
    . exact halive

theorem accounted_step [Inhabited V] {act : Act V} (hacc : m.Accounted)
    (hstep : m.step act = some (m', ()))
    : m'.Accounted ∧ Grows m m' := by
  have hsame (h : SameFrames m m') : m'.Accounted ∧ Grows m m' := ⟨h.accounted hacc, h.grows⟩
  cases act with
  | construct v =>
    simp only [Machine.step] at hstep
    split at hstep
    . next hv =>
      cases hstep
      exact ⟨hacc.construct hv, grows_setTask⟩
    . simp at hstep
  | create v =>
    simp only [Machine.step] at hstep
    split at hstep
    . next hv =>
      cases hstep
      exact ⟨hacc.create hv, grows_create⟩
    . simp at hstep
  | moveConstruct v u =>
    simp only [Machine.step] at hstep
    split at hstep
    . next hv hu =>
      cases hstep
      exact ⟨hacc.moveConstruct hv hu, grows_setTask.trans grows_setTask⟩
    . simp at hstep
  | moveAssign v u =>
    simp only [Machine.step] at hstep
    split at hstep
    . next hv hu =>
      cases hstep
      refine ⟨hacc.moveAssign hv hu, ?_⟩
      unfold Machine.moveAssign
      split
      . apply Grows.refl
      . apply (grows_destroyTask.trans grows_setTask).trans grows_setTask
    . simp at hstep
  | destroy v =>
    simp only [Machine.step] at hstep
    split at hstep
    . simp at hstep
    . next hv =>
      cases hstep
      exact ⟨hacc.destroy hv, grows_destroyTask.trans grows_setTask⟩
  | startDetached v =>
    simp only [Machine.step] at hstep
    split at hstep
    . simp at hstep
    . next h _ =>
      cases hstep
      apply hsame
      cases h with
      | none => apply SameFrames.refl
      | some h => apply sameFrames_resume
  | coAwait f v =>
    simp only [Machine.step] at hstep
    split at hstep
    . next hf _ =>
      cases hstep
      apply hsame
      apply sameFrames_coAwait (active_eq hf).1
    . simp at hstep
  | coAwaitIo f op =>
    simp only [Machine.step] at hstep
    split at hstep
    . next hf _ =>
      cases hstep
      apply hsame
      apply sameFrames_coAwaitIo (active_eq hf).1
    . simp at hstep
  | exitIo f op =>
    simp only [Machine.step] at hstep
    split at hstep
    . next hf _ =>
      cases hstep
      apply hsame
      apply sameFrames_exitIo (active_eq hf).1
    . simp at hstep
  | coReturn f value =>
    simp only [Machine.step] at hstep
    split at hstep
    . simp at hstep
    . next hf =>
      cases hstep
      apply hsame
      apply sameFrames_coReturn (active_eq hf).1
  | handleCqe op =>
    simp only [Machine.step] at hstep
    split at hstep
    . simp at hstep
    . cases hstep
      apply hsame
      apply sameFrames_handleCqe

theorem accounted_init : (init : Machine V).Accounted := by
  constructor
  . apply Exclusive.nothing
    intro f hf
    exact hf rfl
  . intro f _ hf
    exact hf rfl

theorem accounted_run [Inhabited V] {trace : List (Act V × Unit)} (hacc : m.Accounted)
    (hrun : Run (ofStep step) m trace m')
    : m'.Accounted ∧ Grows m m' := by
  induction hrun with
  | nil => exact ⟨hacc, .refl m⟩
  | snoc _ hlast ih =>
    have hnext := accounted_step ih.1 hlast
    exact ⟨hnext.1, ih.2.trans hnext.2⟩

instance [Inhabited V] (m : Machine V) (act : Act V) : Decidable (m.Defined act) :=
  inferInstanceAs (Decidable (_ ∧ _))

/--
In every run without undefined behaviour the frames that have been created and not yet destroyed are those
that a task object holds, which is one for each, and what has been destroyed does not come back. So no frame
is destroyed twice, and none is left over without an owner.
-/
theorem frames_owned [Inhabited V] {trace : List (Act V × Unit)}
    (hrun : Run (restrict Defined (ofStep step)) init trace m)
    : (∀ f, m.frames f ≠ none ↔ ∃ v, m.tasks v = some (some f))
        ∧ (∀ v u f, m.tasks v = some (some f) → m.tasks u = some (some f) → v = u)
        ∧ (∀ trace' m' f, Run (restrict Defined (ofStep step)) m trace' m' → f < m.nextFrame
            → m.frames f = none → m'.frames f = none) := by
  have hstep (m₁ : Machine V) (act : Act V) (o : Unit) (m₂ : Machine V)
      (h : restrict Defined (ofStep step) m₁ act o m₂)
      : ofStep step m₁ act o m₂ := h.2
  have hacc := (accounted_run accounted_init (hrun.mono hstep)).1
  have hjoin (v : Var) (f : Frame) : (m.tasks v).join = some f ↔ m.tasks v = some (some f) := by
    apply Option.join_eq_some_iff
  refine ⟨?_, ?_, ?_⟩
  . intro f
    rw [← exists_congr (fun v => hjoin v f)]
    apply hacc.exclusive.alive_iff
  . intro v u f hv hu
    apply hacc.exclusive.unique v u f ((hjoin v f).mpr hv) ((hjoin u f).mpr hu)
  . intro trace' m' f hrun' hf hnone
    by_contra halive
    exact (accounted_run hacc (hrun'.mono hstep)).2.gone f hf halive hnone

-- the task that waits for operation `7` is destroyed, and the operation never completes
theorem frames_owned_of_replaced
    : let acts : List (Act Nat) := [.create 0, .startDetached 0, .coAwaitIo 0 7, .create 1, .startDetached 1,
        .coAwaitIo 1 8, .moveAssign 0 1, .handleCqe 8, .moveConstruct 2 0, .construct 3, .moveAssign 3 2,
        .destroy 0, .coReturn 1 5]
      ∃ m outs, Run (restrict Defined (ofStep step)) init (acts.zip outs) m
        ∧ m.resumed.map Resumption.resumer = [.startDetached, .startDetached, .handleCqe 8]
        ∧ m.frames 0 = none ∧ m.frames 1 ≠ none ∧ ∀ v, m.tasks v = some (some 1) → v = 3 := by
  intro acts
  have hexec : ((exec (guarded Defined step) init acts).map fun r =>
      (r.1.resumed.map Resumption.resumer, (r.1.frames 0).isNone, r.1.tasks 3))
      = some ([.startDetached, .startDetached, .handleCqe 8], true, some (some 1)) := by decide
  rcases Option.map_eq_some_iff.mp hexec with ⟨⟨m, outs⟩, hexec, heq⟩
  simp only [Prod.mk.injEq] at heq
  rcases heq with ⟨hresumed, hgone, hholds⟩
  have hrun := run_restrict_of_exec hexec
  rcases frames_owned hrun with ⟨howned, hunique, _⟩
  refine ⟨m, outs, hrun, hresumed, Option.isNone_iff_eq_none.mp hgone, ?_, ?_⟩
  . rw [howned]
    exact ⟨3, hholds⟩
  . intro v hv
    apply hunique v 3 1 hv hholds

end Machine

end Task

end Sfap
