import Sfap.Utils.Task.Impl
import Mathlib.Data.List.Nodup

/-!
This module contains the proof that every resumption finds its coroutine at the point that it is for, as
long as tasks are started and awaited once and not destroyed in between.
-/

namespace Sfap

namespace Task

namespace Machine

open Transition

variable {V : Type}

structure Safe (m : Machine V) : Prop where
  expected : ∀ r ∈ m.resumed, r.found = some (.suspended r.resumer.point)
  once : (m.resumed.map fun r => (r.target, r.suspension)).Nodup

def At (m : Machine V) (f : Frame) (p : Point) : Prop :=
  ∃ c, m.frames f = some c ∧ c.status = .suspended p

def Rests (m : Machine V) (v : Var) (ps : List Point) : Prop :=
  ∀ o ∈ m.tasks v, ∀ h ∈ o, ∀ c ∈ m.frames h, ∃ p ∈ ps, c.status = .suspended p

instance (m : Machine V) (v : Var) (ps : List Point) : Decidable (m.Rests v ps) := by
  unfold Rests
  infer_instance

def Disciplined (m : Machine V) : Act V → Prop
  | .startDetached v => m.Rests v [.initial]
  | .coAwait _ v => m.Rests v [.initial, .final]
  | .moveAssign v u => v ≠ u → m.Rests v [.initial, .final]
  | .destroy v => m.Rests v [.initial, .final]
  | _ => True

instance (m : Machine V) (act : Act V) : Decidable (m.Disciplined act) := by
  cases act <;> unfold Disciplined <;> infer_instance

structure Linked (m : Machine V) : Prop where
  awaited : ∀ op f, m.operations op = some f → m.At f (.io op)
  continued : ∀ h c f, m.frames h = some c → c.continuation = some f →
    c.status = .suspended .final ∨ m.At f (.child h)

def Unreferenced (m : Machine V) (f : Frame) : Prop :=
  (∀ op, m.operations op ≠ some f)
    ∧ ∀ h c, m.frames h = some c → c.continuation = some f → c.status = .suspended .final

variable {m m' : Machine V} {f g h : Frame} {c c' : Coroutine V} {p : Point} {r : Resumer}

@[simp]
theorem frames_setFrame (g : Frame)
    : (m.setFrame f c).frames g = if g = f then some c else m.frames g := by
  unfold setFrame
  dsimp only
  rw [Function.update_apply]

theorem at_setFrame_of_ne (hne : g ≠ f) : (m.setFrame f c).At g p ↔ m.At g p := by
  simp [At, hne]

theorem at_setFrame_self : (m.setFrame f c).At f p ↔ c.status = .suspended p := by
  simp [At]

theorem At.unique {q : Point} (h₁ : m.At f p) (h₂ : m.At f q) : p = q := by
  rcases h₁ with ⟨c₁, hc₁, hs₁⟩
  rcases h₂ with ⟨c₂, hc₂, hs₂⟩
  simp_all

theorem not_at_of_running (hf : m.frames f = some c) (hs : c.status = .running) : ¬ m.At f p := by
  rintro ⟨c', hf', hs'⟩
  simp_all

theorem Linked.unreferenced (hlink : m.Linked) (hio : ∀ op, ¬ m.At f (.io op))
    (hchild : ∀ h, ¬ m.At f (.child h))
    : m.Unreferenced f := by
  constructor
  . intro op hop
    apply hio op
    apply hlink.awaited op f hop
  . intro h c hc hcont
    rcases hlink.continued h c f hc hcont with hfinal | hat
    . exact hfinal
    . exact absurd hat (hchild h)

theorem Linked.unreferenced_of_running (hlink : m.Linked) (hf : m.frames f = some c)
    (hs : c.status = .running)
    : m.Unreferenced f := by
  apply hlink.unreferenced
  . intro op
    apply not_at_of_running hf hs
  . intro h
    apply not_at_of_running hf hs

theorem Linked.unreferenced_of_idle (hlink : m.Linked)
    (hidle : ∀ c, m.frames f = some c → c.status = .suspended .initial ∨ c.status = .suspended .final)
    : m.Unreferenced f := by
  have hnot (p : Point) (hinit : p ≠ .initial) (hfinal : p ≠ .final) : ¬ m.At f p := by
    rintro ⟨c, hc, hs⟩
    rcases hidle c hc with h | h <;> simp_all
  apply hlink.unreferenced
  . intro op
    apply hnot <;> simp
  . intro h
    apply hnot <;> simp

theorem Linked.setFrame (hlink : m.Linked) (hfree : m.Unreferenced f)
    (hcont : ∀ g, c'.continuation = some g →
      c'.status = .suspended .final ∨ (g ≠ f ∧ m.At g (.child f)))
    : (m.setFrame f c').Linked := by
  constructor
  . intro op g hop
    have hne : g ≠ f := by
      intro heq
      rw [heq] at hop
      apply hfree.1 op hop
    rw [at_setFrame_of_ne hne]
    apply hlink.awaited op g hop
  . intro h c g hc hg
    rw [frames_setFrame] at hc
    split at hc
    . next heq =>
      simp only [Option.some.injEq] at hc
      subst hc heq
      rcases hcont g hg with hfinal | ⟨hne, hat⟩
      . exact .inl hfinal
      . rw [at_setFrame_of_ne hne]
        exact .inr hat
    . by_cases heq : g = f
      . rw [heq] at hg
        exact .inl (hfree.2 h c hc hg)
      . rw [at_setFrame_of_ne heq]
        apply hlink.continued h c g hc hg

theorem Linked.destroyFrame (hlink : m.Linked) (hfree : m.Unreferenced f)
    : (m.destroyFrame f).Linked := by
  have hat (g : Frame) (p : Point) (hne : g ≠ f) : (m.destroyFrame f).At g p ↔ m.At g p := by
    simp [At, Machine.destroyFrame, hne]
  constructor
  . intro op g hop
    have hne : g ≠ f := by
      intro heq
      rw [heq] at hop
      apply hfree.1 op hop
    rw [hat g _ hne]
    apply hlink.awaited op g hop
  . intro h c g hc hg
    have hc : m.frames h = some c := by
      unfold Machine.destroyFrame at hc
      dsimp only at hc
      rw [Function.update_apply] at hc
      split at hc
      . simp at hc
      . exact hc
    by_cases heq : g = f
    . rw [heq] at hg
      exact .inl (hfree.2 h c hc hg)
    . rw [hat g _ heq]
      apply hlink.continued h c g hc hg

theorem Linked.suspend (hlink : m.Linked) (hf : m.frames f = some c) (hs : c.status = .running)
    {value : V}
    : (m.suspend f { c with value := value } p).Linked := by
  apply hlink.setFrame (hlink.unreferenced_of_running hf hs)
  intro g hg
  rcases hlink.continued f c g hf hg with hfinal | hat
  . simp [hs] at hfinal
  . refine .inr ⟨?_, hat⟩
    intro heq
    rw [heq] at hat
    apply not_at_of_running hf hs hat

theorem Linked.run (hlink : m.Linked) (hf : m.frames f = some c) (hs : c.status = .suspended p)
    (hp : p ≠ .final) (hfree : m.Unreferenced f)
    : (m.setFrame f { c with status := .running }).Linked := by
  apply hlink.setFrame hfree
  intro g hg
  rcases hlink.continued f c g hf hg with hfinal | hat
  . rw [hs] at hfinal
    simp [hp] at hfinal
  . refine .inr ⟨?_, hat⟩
    intro heq
    rw [heq] at hg
    have := hfree.2 f c hf hg
    simp_all

structure Recorded (m : Machine V) : Prop extends Safe m where
  fresh : ∀ f, m.nextFrame ≤ f → m.frames f = none
  logged : ∀ r ∈ m.resumed, r.target < m.nextFrame
  numbered : ∀ r ∈ m.resumed, ∀ c, m.frames r.target = some c →
    r.suspension < c.suspensions ∨ (r.suspension = c.suspensions ∧ c.status = .running)

theorem Recorded.lt (hrec : m.Recorded) (hf : m.frames f = some c) : f < m.nextFrame := by
  by_contra hge
  have := hrec.fresh f (Nat.le_of_not_lt hge)
  simp [hf] at this

theorem Recorded.setFrame (hrec : m.Recorded) (hf : m.frames f = some c)
    (hnum : ∀ n, n < c.suspensions ∨ (n = c.suspensions ∧ c.status = .running) →
      n < c'.suspensions ∨ (n = c'.suspensions ∧ c'.status = .running))
    : (m.setFrame f c').Recorded := by
  have hlt := hrec.lt hf
  constructor
  . exact ⟨hrec.expected, hrec.once⟩
  . intro g hg
    have hne : g ≠ f := by
      intro heq
      rw [heq] at hg
      exact absurd hlt (Nat.not_lt.mpr hg)
    rw [frames_setFrame, if_neg hne]
    apply hrec.fresh g hg
  . exact hrec.logged
  . intro r hr c₁ hc₁
    rw [frames_setFrame] at hc₁
    split at hc₁
    . next heq =>
      rw [Option.some.injEq] at hc₁
      rw [← hc₁]
      apply hnum
      apply hrec.numbered r hr c
      rw [heq, hf]
    . apply hrec.numbered r hr c₁ hc₁

theorem Recorded.suspend (hrec : m.Recorded) (hf : m.frames f = some c) {value : V}
    : (m.suspend f { c with value := value } p).Recorded := by
  apply hrec.setFrame hf
  intro n hn
  left
  dsimp only
  omega

theorem resume_at (hf : m.frames f = some c) (hs : c.status = .suspended p) (hp : p ≠ .final)
    : m.resume r f = (m.log r f).setFrame f { c with status := .running } := by
  unfold resume
  dsimp only
  have : (m.log r f).frames f = some c := hf
  rw [this]
  dsimp only
  split
  . next hrun => simp [hrun] at hs
  . next hfinal => simp_all
  . rfl

theorem Recorded.resume (hrec : m.Recorded) (hf : m.frames f = some c)
    (hs : c.status = .suspended r.point) (hp : r.point ≠ .final)
    : (m.resume r f).Recorded := by
  have hlt := hrec.lt hf
  have hlog : (m.log r f).resumed = m.resumed ++ [⟨r, f, some c.status, c.suspensions⟩] := by
    simp [log, hf]
  rw [resume_at hf hs hp]
  constructor
  . constructor
    . show ∀ r' ∈ (m.log r f).resumed, _
      rw [hlog]
      intro r' hr'
      rw [List.mem_append, List.mem_singleton] at hr'
      rcases hr' with hr' | rfl
      . apply hrec.expected r' hr'
      . rw [hs]
    . show ((m.log r f).resumed.map _).Nodup
      rw [hlog, List.map_append, List.map_singleton, ← List.concat_eq_append, List.nodup_concat]
      refine ⟨?_, hrec.once⟩
      intro hmem
      rw [List.mem_map] at hmem
      rcases hmem with ⟨r', hr', heq⟩
      rw [Prod.mk.injEq] at heq
      have := hrec.numbered r' hr' c (by rw [heq.1, hf])
      rw [heq.2, hs] at this
      simp at this
  . intro g hg
    have hne : g ≠ f := by
      intro heq
      rw [heq] at hg
      exact absurd hlt (Nat.not_lt.mpr hg)
    rw [frames_setFrame, if_neg hne]
    apply hrec.fresh g hg
  . show ∀ r' ∈ (m.log r f).resumed, r'.target < m.nextFrame
    rw [hlog]
    intro r' hr'
    rw [List.mem_append, List.mem_singleton] at hr'
    rcases hr' with hr' | rfl
    . apply hrec.logged r' hr'
    . exact hlt
  . show ∀ r' ∈ (m.log r f).resumed, _
    rw [hlog]
    intro r' hr' c₁ hc₁
    rw [List.mem_append, List.mem_singleton] at hr'
    rw [frames_setFrame] at hc₁
    rcases hr' with hr' | rfl
    . split at hc₁
      . next heq =>
        rw [Option.some.injEq] at hc₁
        rw [← hc₁]
        have := hrec.numbered r' hr' c (by rw [heq, hf])
        rw [hs] at this
        left
        simpa using this
      . apply hrec.numbered r' hr' c₁ hc₁
    . rw [if_pos rfl, Option.some.injEq] at hc₁
      right
      rw [← hc₁]
      exact ⟨rfl, rfl⟩

structure Owned (m : Machine V) : Prop where
  held : ∀ v h, m.tasks v = some (some h) → m.frames h ≠ none
  unique : ∀ v u h, m.tasks v = some (some h) → m.tasks u = some (some h) → v = u

structure Keeps (m m' : Machine V) : Prop where
  tasks_eq : m'.tasks = m.tasks
  frames_ne : ∀ h, m.frames h ≠ none → m'.frames h ≠ none

theorem Keeps.owned (hk : Keeps m m') (hown : m.Owned) : m'.Owned := by
  constructor
  . intro v h hv
    rw [hk.tasks_eq] at hv
    apply hk.frames_ne h (hown.held v h hv)
  . rw [hk.tasks_eq]
    exact hown.unique

theorem Keeps.trans {m₁ m₂ m₃ : Machine V} (h₁ : Keeps m₁ m₂) (h₂ : Keeps m₂ m₃) : Keeps m₁ m₃ := by
  constructor
  . rw [h₂.tasks_eq, h₁.tasks_eq]
  . intro h hne
    apply h₂.frames_ne h (h₁.frames_ne h hne)

theorem keeps_setFrame : Keeps m (m.setFrame f c) := by
  constructor
  . rfl
  . intro h hne
    rw [frames_setFrame]
    split
    . simp
    . exact hne

theorem keeps_resume : Keeps m (m.resume r f) := by
  have hlog : Keeps m (m.log r f) := ⟨rfl, fun _ hne => hne⟩
  unfold resume
  dsimp only
  split
  . exact hlog
  . split
    . exact hlog
    . exact hlog
    . apply hlog.trans keeps_setFrame

theorem Owned.setTask_none (hown : m.Owned) {v : Var} {x : Option (Option Frame)}
    (hx : ∀ h, x ≠ some (some h))
    : (m.setTask v x).Owned := by
  have htasks (w : Var) (h : Frame) (hw : (m.setTask v x).tasks w = some (some h))
      : m.tasks w = some (some h) := by
    unfold setTask at hw
    dsimp only at hw
    rw [Function.update_apply] at hw
    split at hw
    . exact absurd hw (hx h)
    . exact hw
  constructor
  . intro w h hw
    apply hown.held w h (htasks w h hw)
  . intro w u h hw hu
    apply hown.unique w u h (htasks w h hw) (htasks u h hu)

theorem Owned.move (hown : m.Owned) {v u : Var} {other : Option Frame}
    (hu : m.tasks u = some other)
    : ((m.setTask v (some other)).setTask u (some none)).Owned := by
  have htasks (w : Var) (h : Frame)
      (hw : ((m.setTask v (some other)).setTask u (some none)).tasks w = some (some h))
      : (w = v ∧ m.tasks u = some (some h)) ∨ (w ≠ v ∧ w ≠ u ∧ m.tasks w = some (some h)) := by
    unfold setTask at hw
    dsimp only at hw
    rw [Function.update_apply, Function.update_apply] at hw
    split at hw
    . simp at hw
    . next hwu =>
      split at hw
      . next hwv => exact .inl ⟨hwv, by rw [hu, hw]⟩
      . next hwv => exact .inr ⟨hwv, hwu, hw⟩
  constructor
  . intro w h hw
    rcases htasks w h hw with ⟨_, hold⟩ | ⟨_, _, hold⟩
    . apply hown.held u h hold
    . apply hown.held w h hold
  . intro w₁ w₂ h hw₁ hw₂
    rcases htasks w₁ h hw₁ with ⟨h₁, hold₁⟩ | ⟨_, hu₁, hold₁⟩ <;>
      rcases htasks w₂ h hw₂ with ⟨h₂, hold₂⟩ | ⟨_, hu₂, hold₂⟩
    . rw [h₁, h₂]
    . exact absurd (hown.unique w₂ u h hold₂ hold₁) hu₂
    . exact absurd (hown.unique w₁ u h hold₁ hold₂) hu₁
    . apply hown.unique w₁ w₂ h hold₁ hold₂

theorem Owned.destroyTask (hown : m.Owned) {v : Var} {h : Option Frame} {x : Option (Option Frame)}
    (hv : m.tasks v = some h) (hx : ∀ h, x ≠ some (some h))
    : ((m.destroyTask h).setTask v x).Owned := by
  cases h with
  | none => apply hown.setTask_none hx
  | some h =>
    have hkept := hown.setTask_none (v := v) hx
    constructor
    . intro w g hw
      have hg := hkept.held w g hw
      have hne : g ≠ h := by
        rintro rfl
        unfold setTask at hw
        dsimp only [Machine.destroyTask, destroyFrame] at hw
        rw [Function.update_apply] at hw
        split at hw
        . exact absurd hw (hx g)
        . next hwv => exact hwv (hown.unique w v g hw hv)
      unfold setTask Machine.destroyTask destroyFrame
      dsimp only
      rw [Function.update_of_ne hne]
      exact hg
    . exact hkept.unique

structure Sound (m : Machine V) : Prop extends Linked m, Recorded m, Owned m

theorem Sound.of_frames (hlink : m'.Linked) (hrec : m'.Recorded) (hk : Keeps m m') (hsound : m.Sound)
    : m'.Sound :=
  ⟨hlink, hrec, hk.owned hsound.toOwned⟩

theorem Sound.suspend (hsound : m.Sound) (hf : m.frames f = some c) (hs : c.status = .running)
    {value : V}
    : (m.suspend f { c with value := value } p).Sound := by
  apply Sound.of_frames (hsound.toLinked.suspend hf hs) (hsound.toRecorded.suspend hf) _ hsound
  apply keeps_setFrame

theorem Sound.resume (hsound : m.Sound) (hf : m.At f r.point) (hfree : m.Unreferenced f)
    : (m.resume r f).Sound := by
  rcases hf with ⟨c, hf, hs⟩
  have hp : r.point ≠ .final := by cases r <;> simp [Resumer.point]
  have hlog : (m.log r f).Linked := ⟨hsound.awaited, hsound.continued⟩
  refine Sound.of_frames ?_ (hsound.toRecorded.resume hf hs hp) keeps_resume hsound
  rw [resume_at hf hs hp]
  apply hlog.run hf hs hp hfree

theorem Linked.setTask (hlink : m.Linked) {v : Var} {x : Option (Option Frame)}
    : (m.setTask v x).Linked := ⟨hlink.awaited, hlink.continued⟩

theorem Recorded.setTask (hrec : m.Recorded) {v : Var} {x : Option (Option Frame)}
    : (m.setTask v x).Recorded :=
  ⟨⟨hrec.expected, hrec.once⟩, hrec.fresh, hrec.logged, hrec.numbered⟩

theorem Sound.construct (hsound : m.Sound) {v : Var} : (m.setTask v (some none)).Sound :=
  ⟨hsound.toLinked.setTask, hsound.toRecorded.setTask, hsound.toOwned.setTask_none (by simp)⟩

theorem Sound.moveConstruct (hsound : m.Sound) {v u : Var} {other : Option Frame}
    (hu : m.tasks u = some other)
    : ((m.setTask v (some other)).setTask u (some none)).Sound :=
  ⟨hsound.toLinked.setTask.setTask, hsound.toRecorded.setTask.setTask, hsound.toOwned.move hu⟩

theorem Sound.create [Inhabited V] (hsound : m.Sound) {v : Var} : (m.create v).Sound := by
  have hnone := hsound.fresh m.nextFrame (Nat.le_refl _)
  have hframes (g : Frame) : (m.create v).frames g
      = if g = m.nextFrame then some ⟨.suspended .initial, 1, default, none⟩ else m.frames g := by
    apply frames_setFrame
  have htasks (w : Var) : (m.create v).tasks w
      = if w = v then some (some m.nextFrame) else m.tasks w := by
    apply Function.update_apply
  have hheld (w : Var) (h : Frame) (hw : m.tasks w = some (some h)) : h ≠ m.nextFrame := by
    intro heq
    apply hsound.held w h hw
    rw [heq, hnone]
  constructor
  . have hfree : m.Unreferenced m.nextFrame := by
      apply hsound.toLinked.unreferenced_of_idle
      simp [hnone]
    let c : Coroutine V := ⟨.suspended .initial, 1, default, none⟩
    have hlink : (m.setFrame m.nextFrame c).Linked := by
      apply hsound.toLinked.setFrame hfree
      simp [c]
    exact ⟨hlink.awaited, hlink.continued⟩
  . constructor
    . exact ⟨hsound.expected, hsound.once⟩
    . intro g hg
      have hlt : m.nextFrame < g := hg
      rw [hframes, if_neg (Nat.ne_of_gt hlt)]
      apply hsound.fresh g (Nat.le_of_lt hlt)
    . intro r hr
      apply Nat.lt_succ_of_lt (hsound.logged r hr)
    . intro r hr c hc
      rw [hframes, if_neg (Nat.ne_of_lt (hsound.logged r hr))] at hc
      apply hsound.numbered r hr c hc
  . constructor
    . intro w h hw
      rw [htasks] at hw
      rw [hframes]
      split
      . simp
      . next hne =>
        split at hw
        . simp_all
        . apply hsound.held w h hw
    . intro w u h hw hu
      rw [htasks] at hw hu
      split at hw <;> split at hu
      . simp_all
      . have := hheld u h hu
        simp_all
      . have := hheld w h hw
        simp_all
      . apply hsound.unique w u h hw hu

theorem Sound.destroyTask (hsound : m.Sound) {v : Var} {h : Option Frame}
    {x : Option (Option Frame)} (hv : m.tasks v = some h) (hx : ∀ h, x ≠ some (some h))
    (hidle : ∀ g, h = some g →
      ∀ c, m.frames g = some c → c.status = .suspended .initial ∨ c.status = .suspended .final)
    : ((m.destroyTask h).setTask v x).Sound := by
  have hown := hsound.toOwned.destroyTask hv hx
  cases h with
  | none => exact ⟨hsound.toLinked.setTask, hsound.toRecorded.setTask, hown⟩
  | some h =>
    have hfree := hsound.toLinked.unreferenced_of_idle (hidle h rfl)
    refine ⟨(hsound.toLinked.destroyFrame hfree).setTask, Recorded.setTask ?_, hown⟩
    have hframes (g : Frame) (c : Coroutine V) (hc : (m.destroyFrame h).frames g = some c)
        : m.frames g = some c := by
      unfold destroyFrame at hc
      dsimp only at hc
      rw [Function.update_apply] at hc
      split at hc
      . simp at hc
      . exact hc
    constructor
    . exact ⟨hsound.expected, hsound.once⟩
    . intro g hg
      by_contra hne
      rcases Option.ne_none_iff_exists'.mp hne with ⟨c, hc⟩
      have := hsound.fresh g hg
      rw [hframes g c hc] at this
      simp at this
    . exact hsound.logged
    . intro r hr c hc
      apply hsound.numbered r hr c (hframes _ c hc)

theorem Sound.moveAssign (hsound : m.Sound) {v u : Var} {h other : Option Frame}
    (hv : m.tasks v = some h) (hu : m.tasks u = some other)
    (hidle : v ≠ u → ∀ g, h = some g →
      ∀ c, m.frames g = some c → c.status = .suspended .initial ∨ c.status = .suspended .final)
    : (m.moveAssign v u h other).Sound := by
  unfold Machine.moveAssign
  split
  . exact hsound
  . next hne =>
    have hsound := hsound.destroyTask hv (x := some none) (by simp) (hidle hne)
    have hu : ((m.destroyTask h).setTask v (some none)).tasks u = some other := by
      have : (m.destroyTask h).tasks = m.tasks := by cases h <;> rfl
      unfold setTask
      dsimp only
      rw [Function.update_of_ne (Ne.symm hne), this, hu]
    have := hsound.moveConstruct (v := v) hu
    unfold setTask at this ⊢
    simpa using this

theorem Sound.startDetached (hsound : m.Sound) {v : Var} {h : Option Frame}
    (hv : m.tasks v = some h)
    (hidle : ∀ g, h = some g → ∀ c, m.frames g = some c → c.status = .suspended .initial)
    : (m.startDetached h).Sound := by
  cases h with
  | none => exact hsound
  | some h =>
    rcases Option.ne_none_iff_exists'.mp (hsound.held v h hv) with ⟨c, hc⟩
    have hat : m.At h .initial := ⟨c, hc, hidle h rfl c hc⟩
    apply hsound.resume hat
    apply hsound.toLinked.unreferenced_of_idle
    intro c hc
    exact .inl (hidle h rfl c hc)

theorem Sound.awaitSuspend (hsound : m.Sound) (hh : m.frames h = some c)
    (hs : c.status = .suspended .initial) (hf : m.At f (.child h))
    : (m.awaitSuspend h f).Sound := by
  have hne : f ≠ h := by
    rintro rfl
    have := hf.unique ⟨c, hh, hs⟩
    simp at this
  have hcont : m.setContinuation h f = m.setFrame h { c with continuation := some f } := by
    unfold setContinuation
    rw [hh]
  have hat : (m.setContinuation h f).At h .initial := by
    rw [hcont, at_setFrame_self]
    exact hs
  have hidle (m : Machine V) (hat : m.At h .initial) (c : Coroutine V) (hc : m.frames h = some c)
      : c.status = .suspended .initial ∨ c.status = .suspended .final := by
    rcases hat with ⟨c', hc', hs'⟩
    simp_all
  have hsound₁ : (m.setContinuation h f).Sound := by
    rw [hcont]
    apply Sound.of_frames _ _ keeps_setFrame hsound
    . apply hsound.toLinked.setFrame
      . apply hsound.toLinked.unreferenced_of_idle
        apply hidle m ⟨c, hh, hs⟩
      . intro g hg
        simp only [Option.some.injEq] at hg
        subst hg
        exact .inr ⟨hne, hf⟩
    . apply hsound.toRecorded.setFrame hh
      simp
  apply hsound₁.resume hat
  apply hsound₁.toLinked.unreferenced_of_idle
  apply hidle _ hat

theorem Sound.coAwait (hsound : m.Sound) {v : Var} {h : Option Frame} (hv : m.tasks v = some h)
    (hf : m.frames f = some c) (hs : c.status = .running)
    (hidle : ∀ g, h = some g →
      ∀ c, m.frames g = some c → c.status = .suspended .initial ∨ c.status = .suspended .final)
    : (m.coAwait f c h).Sound := by
  unfold Machine.coAwait
  split
  . exact hsound
  . next hready =>
    cases h with
    | none => exact hsound
    | some h =>
      rcases Option.ne_none_iff_exists'.mp (hsound.held v h hv) with ⟨ch, hh⟩
      have hinit : ch.status = .suspended .initial := by
        rcases hidle h rfl ch hh with hinit | hfinal
        . exact hinit
        . simp [awaitReady, done, hh, hfinal] at hready
      have hne : h ≠ f := by
        rintro rfl
        simp_all
      have hsound₁ : (m.suspend f c (.child h)).Sound := hsound.suspend hf hs
      have hh₁ : (m.suspend f c (.child h)).frames h = some ch := by
        unfold Machine.suspend
        rw [frames_setFrame, if_neg hne, hh]
      apply hsound₁.awaitSuspend hh₁ hinit
      apply at_setFrame_self.mpr rfl

theorem Sound.coAwaitIo (hsound : m.Sound) (hf : m.frames f = some c) (hs : c.status = .running)
    {op : Operation}
    : (m.coAwaitIo f c op).Sound := by
  have hsound₁ : (m.suspend f c (.io op)).Sound := hsound.suspend hf hs
  have hat : (m.suspend f c (.io op)).At f (.io op) := at_setFrame_self.mpr rfl
  unfold Machine.coAwaitIo
  refine ⟨⟨?_, hsound₁.continued⟩, ?_, hsound₁.held, hsound₁.unique⟩
  . intro op' g hop
    dsimp only at hop
    rw [Function.update_apply] at hop
    split at hop
    . next heq =>
      rw [Option.some.injEq] at hop
      rw [heq, ← hop]
      exact hat
    . apply hsound₁.awaited op' g hop
  . exact ⟨⟨hsound₁.expected, hsound₁.once⟩, hsound₁.fresh, hsound₁.logged, hsound₁.numbered⟩

theorem Sound.exitIo (hsound : m.Sound) (hf : m.frames f = some c) (hs : c.status = .running)
    {op : Operation}
    : (m.exitIo f c op).Sound := by
  have hsound₁ : (m.suspend f c (.io op)).Sound := hsound.suspend hf hs
  have hfree := hsound.toLinked.unreferenced_of_running hf hs
  apply hsound₁.resume (at_setFrame_self.mpr rfl)
  refine ⟨hfree.1, ?_⟩
  intro h c' hc' hcont
  unfold Machine.suspend at hc'
  rw [frames_setFrame] at hc'
  split at hc'
  . next heq =>
    simp only [Option.some.injEq] at hc'
    subst hc'
    have := hfree.2 f c hf hcont
    simp [hs] at this
  . apply hfree.2 h c' hc' hcont

theorem Sound.coReturn (hsound : m.Sound) (hf : m.frames f = some c) (hs : c.status = .running)
    {value : V}
    : (m.coReturn f c value).Sound := by
  have hsound₁ : (m.suspend f { c with value := value } .final).Sound := hsound.suspend hf hs
  unfold Machine.coReturn
  dsimp only
  split
  . exact hsound₁
  . next cont hcont =>
    have hat : m.At cont (.child f) := by
      rcases hsound.continued f c cont hf hcont with hfinal | hat
      . simp [hs] at hfinal
      . exact hat
    have hne : cont ≠ f := by
      rintro rfl
      apply not_at_of_running hf hs hat
    have hat₁ : (m.suspend f { c with value := value } .final).At cont (.child f) :=
      (at_setFrame_of_ne hne).mpr hat
    apply hsound₁.resume hat₁
    constructor
    . intro op hop
      have := (hsound₁.awaited op cont hop).unique hat₁
      simp at this
    . intro h ch hh hhcont
      rcases hsound₁.continued h ch cont hh hhcont with hfinal | hat₂
      . exact hfinal
      . have := hat₂.unique hat₁
        rw [Point.child.injEq] at this
        subst this
        unfold Machine.suspend at hh
        rw [frames_setFrame, if_pos rfl, Option.some.injEq] at hh
        rw [← hh]

theorem Sound.handleCqe (hsound : m.Sound) {op : Operation} (hop : m.operations op = some f)
    : (m.handleCqe op f).Sound := by
  have hat := hsound.awaited op f hop
  have hops (op' : Operation) (g : Frame) (h : Function.update m.operations op none op' = some g)
      : op' ≠ op ∧ m.operations op' = some g := by
    rw [Function.update_apply] at h
    split at h
    . simp at h
    . next hne => exact ⟨hne, h⟩
  unfold Machine.handleCqe
  dsimp only
  generalize hm₁ : ({ m with operations := Function.update m.operations op none } : Machine V) = m₁
  have hsound₁ : m₁.Sound := by
    rw [← hm₁]
    refine ⟨⟨?_, hsound.continued⟩, ?_, hsound.held, hsound.unique⟩
    . intro op' g h
      apply hsound.awaited op' g (hops op' g h).2
    . exact ⟨⟨hsound.expected, hsound.once⟩, hsound.fresh, hsound.logged, hsound.numbered⟩
  have hat₁ : m₁.At f (.io op) := by
    rw [← hm₁]
    exact hat
  apply hsound₁.resume hat₁
  constructor
  . intro op' hop'
    have := (hsound₁.awaited op' f hop').unique hat₁
    rw [Point.io.injEq] at this
    rw [← hm₁] at hop'
    apply (hops op' f hop').1 this
  . intro h c hc hcont
    rcases hsound₁.continued h c f hc hcont with hfinal | hat₂
    . exact hfinal
    . have := hat₂.unique hat₁
      simp at this

theorem active_eq (hf : m.active f = some c) : m.frames f = some c ∧ c.status = .running := by
  unfold active at hf
  simpa using hf

theorem Rests.idle {v : Var} {h : Option Frame} (hrest : m.Rests v [.initial, .final])
    (hv : m.tasks v = some h)
    : ∀ g, h = some g →
        ∀ c, m.frames g = some c → c.status = .suspended .initial ∨ c.status = .suspended .final := by
  intro g hg c hc
  simpa using hrest h hv g hg c hc

theorem Sound.step [Inhabited V] {act : Act V} (hsound : m.Sound) (hdisc : m.Disciplined act)
    (hstep : m.step act = some (m', ()))
    : m'.Sound := by
  cases act with
  | construct v =>
    simp only [Machine.step] at hstep
    split at hstep
    . simp only [Option.some.injEq, Prod.mk.injEq, and_true] at hstep
      rw [← hstep]
      apply hsound.construct
    . simp at hstep
  | create v =>
    simp only [Machine.step] at hstep
    split at hstep
    . simp only [Option.some.injEq, Prod.mk.injEq, and_true] at hstep
      rw [← hstep]
      apply hsound.create
    . simp at hstep
  | moveConstruct v u =>
    simp only [Machine.step] at hstep
    split at hstep
    . next other _ hu =>
      simp only [Option.some.injEq, Prod.mk.injEq, and_true] at hstep
      rw [← hstep]
      apply hsound.moveConstruct hu
    . simp at hstep
  | moveAssign v u =>
    simp only [Machine.step] at hstep
    split at hstep
    . next h other hv hu =>
      simp only [Option.some.injEq, Prod.mk.injEq, and_true] at hstep
      rw [← hstep]
      apply hsound.moveAssign hv hu
      intro hne
      apply (hdisc hne).idle hv
    . simp at hstep
  | destroy v =>
    simp only [Machine.step] at hstep
    split at hstep
    . simp at hstep
    . next h hv =>
      simp only [Option.some.injEq, Prod.mk.injEq, and_true] at hstep
      rw [← hstep]
      apply hsound.destroyTask hv (by simp)
      apply hdisc.idle hv
  | startDetached v =>
    simp only [Machine.step] at hstep
    split at hstep
    . simp at hstep
    . next h hv =>
      simp only [Option.some.injEq, Prod.mk.injEq, and_true] at hstep
      rw [← hstep]
      apply hsound.startDetached hv
      intro g hg c hc
      simpa using hdisc h hv g hg c hc
  | coAwait f v =>
    simp only [Machine.step] at hstep
    split at hstep
    . next c h hf hv =>
      simp only [Option.some.injEq, Prod.mk.injEq, and_true] at hstep
      rw [← hstep]
      rcases active_eq hf with ⟨hf, hs⟩
      apply hsound.coAwait hv hf hs
      apply hdisc.idle hv
    . simp at hstep
  | coAwaitIo f op =>
    simp only [Machine.step] at hstep
    split at hstep
    . next c hf _ =>
      simp only [Option.some.injEq, Prod.mk.injEq, and_true] at hstep
      rw [← hstep]
      rcases active_eq hf with ⟨hf, hs⟩
      apply hsound.coAwaitIo hf hs
    . simp at hstep
  | exitIo f op =>
    simp only [Machine.step] at hstep
    split at hstep
    . next c hf _ =>
      simp only [Option.some.injEq, Prod.mk.injEq, and_true] at hstep
      rw [← hstep]
      rcases active_eq hf with ⟨hf, hs⟩
      apply hsound.exitIo hf hs
    . simp at hstep
  | coReturn f value =>
    simp only [Machine.step] at hstep
    split at hstep
    . simp at hstep
    . next c hf =>
      simp only [Option.some.injEq, Prod.mk.injEq, and_true] at hstep
      rw [← hstep]
      rcases active_eq hf with ⟨hf, hs⟩
      apply hsound.coReturn hf hs
  | handleCqe op =>
    simp only [Machine.step] at hstep
    split at hstep
    . simp at hstep
    . next coro hop =>
      simp only [Option.some.injEq, Prod.mk.injEq, and_true] at hstep
      rw [← hstep]
      apply hsound.handleCqe hop

theorem Sound.init : (init : Machine V).Sound := by
  refine ⟨⟨?_, ?_⟩, ⟨⟨?_, ?_⟩, ?_, ?_, ?_⟩, ?_, ?_⟩ <;> simp [Machine.init]

theorem run_sound [Inhabited V] {trace : List (Act V × Unit)}
    (hrun : Run (restrict Disciplined (ofStep step)) init trace m)
    : m.Sound := by
  apply hrun.invariant Sound.init
  intro m₁ act _ m₂ hsound hstep
  apply hsound.step hstep.1 hstep.2

/--
Every resumption in a disciplined run finds its coroutine suspended at the point that it is for, and no
two of them are for the same suspension.
-/
theorem resumptions_safe [Inhabited V] {trace : List (Act V × Unit)} {m : Machine V}
    (hrun : Run (restrict Disciplined (ofStep step)) init trace m)
    : m.Safe :=
  (run_sound hrun).toSafe

theorem resumptions_safe_of_awaited_child
    : let acts : List (Act Nat) := [.create 0, .startDetached 0, .create 1, .coAwait 0 1,
        .coAwaitIo 1 7, .handleCqe 7, .coReturn 1 5, .destroy 1, .exitIo 0 8, .coReturn 0 6, .destroy 0]
      ∃ m, Run (restrict Disciplined (ofStep step)) init (acts.zip (.replicate 11 ())) m
        ∧ m.resumed.map Resumption.resumer
          = [.startDetached, .awaitSuspend, .handleCqe 7, .finalSuspend 1, .exit 8]
        ∧ m.Safe := by
  intro acts
  have hexec : ((exec (guarded Disciplined step) init acts).map fun r =>
      (r.2, r.1.resumed.map Resumption.resumer)) = some (.replicate 11 (),
        [.startDetached, .awaitSuspend, .handleCqe 7, .finalSuspend 1, .exit 8]) := by decide
  rcases Option.map_eq_some_iff.mp hexec with ⟨⟨m, outs⟩, hexec, heq⟩
  simp only [Prod.mk.injEq] at heq
  rcases heq with ⟨rfl, hresumed⟩
  have hrun := run_restrict_of_exec hexec
  exact ⟨m, hrun, hresumed, resumptions_safe hrun⟩

theorem not_safe_of_exec {acts : List (Act Nat)}
    (h : ((exec step init acts).any fun r =>
      r.1.resumed.any fun r => r.found ≠ some (.suspended r.resumer.point)) = true)
    : ∃ m outs, Run (ofStep step) init (acts.zip outs) m ∧ ¬ m.Safe := by
  rw [Option.any_eq_true] at h
  rcases h with ⟨⟨m, outs⟩, hexec, hbad⟩
  refine ⟨m, outs, run_of_exec hexec, ?_⟩
  intro hsafe
  rw [List.any_eq_true] at hbad
  rcases hbad with ⟨r, hr, hbad⟩
  simp [hsafe.expected r hr] at hbad

-- and not so if a task is destroyed before the completion of its operation
theorem resumptions_unsafe
    : let startedTwice : List (Act Nat) :=
        [.create 0, .startDetached 0, .coAwaitIo 0 7, .startDetached 0]
      let awaitedWhileWaiting : List (Act Nat) :=
        [.create 0, .startDetached 0, .coAwaitIo 0 7, .create 1, .startDetached 1, .coAwait 1 0]
      let destroyedWhileWaiting : List (Act Nat) :=
        [.create 0, .startDetached 0, .coAwaitIo 0 7, .destroy 0, .handleCqe 7]
      (∃ m outs, Run (ofStep step) init (startedTwice.zip outs) m ∧ ¬ m.Safe)
        ∧ (∃ m outs, Run (ofStep step) init (awaitedWhileWaiting.zip outs) m ∧ ¬ m.Safe)
        ∧ (∃ m outs, Run (ofStep step) init (destroyedWhileWaiting.zip outs) m ∧ ¬ m.Safe) := by
  refine ⟨?_, ?_, ?_⟩
  . apply not_safe_of_exec
    decide
  . apply not_safe_of_exec
    decide
  . apply not_safe_of_exec
    decide

end Machine

end Task

end Sfap
