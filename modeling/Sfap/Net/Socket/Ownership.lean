import Sfap.Net.Socket.Impl

/-!
This module contains any number of socket variables of one proactor, and the condition under which
their handles are closed once and at the right time.
-/

namespace Sfap

namespace Net

namespace Socket

open Transition

inductive Op where
  | default (v : Nat)
  | obtain (v : Nat) (handle : SocketT) (fd : Int32)
  | copyConstruct (v u : Nat)
  | copyAssign (v u : Nat)
  | moveConstruct (v u : Nat)
  | moveAssign (v u : Nat)
  | destroy (v : Nat)

structure World where
  proactor : IOUringProactor
  address : ProactorPtr
  vars : Nat → Option Socket
  obtained : List SocketT
  closings : List SocketT

namespace World

def init (proactor : IOUringProactor) (address : ProactorPtr) : World :=
  ⟨proactor, address, fun _ => none, [], []⟩

def registered (w : World) (handle : SocketT) : Bool :=
  (w.proactor.sockets handle).isSome

def construct (w : World) (v : Nat) (s : Socket) : Option World :=
  match w.vars v with
  | some _ => none
  | none => some { w with vars := Function.update w.vars v (some s) }

-- the handle that a call of `close` for `s` acts on
def closed (w : World) (s : Socket) : List SocketT :=
  if s.isValid && w.registered s.handle then [s.handle] else []

def step (w : World) (op : Op) : Option (World × Unit) :=
  match op with
  | .default v => (w.construct v .default).map (·, ())
  | .obtain v handle fd =>
    if handle = 0 ∨ w.registered handle = true then
      none
    else
      let w := { w with
        proactor := w.proactor.emplaceSocket handle ⟨fd, false⟩
        obtained := w.obtained ++ [handle]
      }
      (w.construct v ⟨some w.address, handle⟩).map (·, ())
  | .copyConstruct v u =>
    match w.vars u with
    | none => none
    | some other => (w.construct v other.copyConstruct).map (·, ())
  | .copyAssign v u =>
    match w.vars v, w.vars u with
    | some s, some other =>
      some ({ w with vars := Function.update w.vars v (some (s.copyAssign other)) }, ())
    | _, _ => none
  | .moveConstruct v u =>
    match w.vars u with
    | none => none
    | some other =>
      let (s, rest) := other.moveConstruct
      (w.construct v s).map fun w =>
        ({ w with vars := Function.update w.vars u (some rest) }, ())
  | .moveAssign v u =>
    match w.vars v, w.vars u with
    | some s, some other =>
      if v = u then
        some (w, ())
      else
        let (s', rest, proactor) := s.moveAssign w.proactor other
        some ({ w with
          proactor := proactor
          vars := Function.update (Function.update w.vars v (some s')) u (some rest)
          closings := w.closings ++ w.closed s
        }, ())
    | _, _ => none
  | .destroy v =>
    match w.vars v with
    | none => none
    | some s =>
      some ({ w with
        proactor := s.destroy w.proactor
        vars := Function.update w.vars v none
        closings := w.closings ++ w.closed s
      }, ())

def Names (x : Option Socket) (handle : SocketT) : Prop :=
  ∃ s, x = some s ∧ s.isValid = true ∧ s.handle = handle

def Holds (w : World) (v : Nat) (handle : SocketT) : Prop :=
  Names (w.vars v) handle

/--
The registered handles are those that some variable holds, and each of the others has been closed once
for each time that it was registered.
-/
structure Owned (w : World) : Prop where
  kept : ∀ v handle, w.Holds v handle → w.registered handle = true
  released : ∀ handle, w.registered handle = true → ∃ v, w.Holds v handle
  once : ∀ handle,
    w.obtained.count handle = w.closings.count handle + (w.registered handle).toNat

def Balanced (w : World) : Prop :=
  ∀ h, w.registered h = true ↔ ∃ v, w.Holds v h

def Accounted (w : World) : Prop :=
  ∀ h, w.obtained.count h = w.closings.count h + (w.registered h).toNat

def HeldElsewhere (w : World) (v : Nat) (handle : SocketT) : Prop :=
  ∃ u, u ≠ v ∧ w.Holds u handle

/--
Where a variable gives its handle up, no other variable holds it if it gets closed, and another one does
if it does not.
-/
def Careful (w : World) : Op → Prop
  | .moveAssign v u => v ≠ u → ∀ handle, w.Holds v handle → ¬ w.HeldElsewhere v handle
  | .destroy v => ∀ handle, w.Holds v handle → ¬ w.HeldElsewhere v handle
  | .copyAssign v u => v ≠ u → ∀ handle, w.Holds v handle → w.HeldElsewhere v handle
  | _ => True

variable {w w' : World} {v u : Nat} {h : SocketT} {s : Socket}

theorem names_some : Names (some s) h ↔ s.isValid = true ∧ s.handle = h := by
  simp [Names]

@[simp]
theorem not_names_none : ¬ Names none h := by
  simp [Names]

theorem not_holds_of_none (hv : w.vars v = none) : ¬ w.Holds v h := by
  unfold Holds
  rw [hv]
  apply not_names_none

theorem owned_iff : w.Owned ↔ w.Accounted ∧ w.Balanced := by
  constructor
  . intro hown
    refine ⟨hown.once, ?_⟩
    intro h
    constructor
    . apply hown.released
    . rintro ⟨v, hv⟩
      apply hown.kept v h hv
  . rintro ⟨honce, hbal⟩
    constructor
    . intro v h hv
      apply (hbal h).mpr ⟨v, hv⟩
    . intro h hr
      apply (hbal h).mp hr
    . exact honce

theorem sockets_close (p : IOUringProactor) (handle : SocketT)
    : (p.close handle).sockets = Function.update p.sockets handle none := by
  unfold IOUringProactor.close
  split
  . next hnone =>
    rw [← hnone, Function.update_eq_self]
  . dsimp only
    split <;> rfl

theorem sockets_destroy (p : IOUringProactor) (s : Socket)
    : (s.destroy p).sockets
        = if s.isValid then Function.update p.sockets s.handle none else p.sockets := by
  unfold destroy isValid
  split
  . apply sockets_close
  . rfl

theorem registered_destroy (w : World) (s : Socket) {vars : Nat → Option Socket}
    {obtained closings : List SocketT} (h : SocketT)
    : registered ⟨s.destroy w.proactor, w.address, vars, obtained, closings⟩ h = true
        ↔
      w.registered h = true ∧ ¬ Names (some s) h := by
  unfold registered
  dsimp only
  rw [sockets_destroy, names_some]
  split
  . next hs =>
    by_cases heq : h = s.handle
    . simp [heq, hs]
    . simp [Function.update_of_ne heq, hs, Ne.symm heq]
  . next hs => simp [hs]

theorem count_closed (w : World) (s : Socket) (h : SocketT) [Decidable (Names (some s) h)]
    : (w.closed s).count h = if w.registered h = true ∧ Names (some s) h then 1 else 0 := by
  unfold closed
  by_cases heq : s.handle = h
  . cases hs : s.isValid <;> cases hr : w.registered s.handle <;> simp_all [names_some]
  . have hne : ¬ Names (some s) h := by simp [names_some, heq]
    split <;> simp [hne, heq]

theorem of_construct (hstep : w.construct v s = some w')
    : w.vars v = none ∧ w' = { w with vars := Function.update w.vars v (some s) } := by
  unfold construct at hstep
  split at hstep
  . simp at hstep
  . next hv =>
    rw [Option.some.injEq] at hstep
    exact ⟨hv, hstep.symm⟩

theorem holds_update (vars : Nat → Option Socket) (v i : Nat) (x : Option Socket) (h : SocketT)
    : Names (Function.update vars v x i) h ↔ (i = v ∧ Names x h) ∨ (i ≠ v ∧ Names (vars i) h) := by
  by_cases heq : i = v
  . simp [heq]
  . simp [heq]

structure Closes (w : World) (v : Nat) (w' : World) : Prop where
  obtained_eq : w'.obtained = w.obtained
  closings_eq : ∃ s, w.vars v = some s ∧ w'.closings = w.closings ++ w.closed s
  registered_iff : ∀ h, w'.registered h = true ↔ w.registered h = true ∧ ¬ w.Holds v h
  holds_iff : ∀ h, (∃ u, w'.Holds u h) ↔ w.HeldElsewhere v h

structure Forgets (w : World) (v : Nat) (w' : World) : Prop where
  obtained_eq : w'.obtained = w.obtained
  closings_eq : w'.closings = w.closings
  registered_eq : w'.registered = w.registered
  holds_iff : ∀ h, (∃ u, w'.Holds u h) ↔ w.HeldElsewhere v h

structure Gains (w : World) (handle : SocketT) (w' : World) : Prop where
  fresh : w.registered handle = false
  obtained_eq : w'.obtained = w.obtained ++ [handle]
  closings_eq : w'.closings = w.closings
  registered_iff : ∀ h, w'.registered h = true ↔ w.registered h = true ∨ h = handle
  holds_iff : ∀ h, (∃ u, w'.Holds u h) ↔ (∃ u, w.Holds u h) ∨ h = handle

structure Keeps (w w' : World) : Prop where
  obtained_eq : w'.obtained = w.obtained
  closings_eq : w'.closings = w.closings
  registered_eq : w'.registered = w.registered
  holds_iff : ∀ h, (∃ u, w'.Holds u h) ↔ ∃ u, w.Holds u h

theorem Closes.balanced_iff (hc : Closes w v w') (hw : w.Balanced)
    : w'.Balanced ↔ ∀ h, w.Holds v h → ¬ w.HeldElsewhere v h := by
  constructor
  . intro h' h hv helse
    have := (h' h).mpr ((hc.holds_iff h).mpr helse)
    exact ((hc.registered_iff h).mp this).2 hv
  . intro hsole h
    rw [hc.registered_iff, hc.holds_iff, hw]
    constructor
    . rintro ⟨⟨u, hu⟩, hv⟩
      refine ⟨u, ?_, hu⟩
      intro heq
      rw [heq] at hu
      apply hv hu
    . intro helse
      rcases helse with ⟨u, hne, hu⟩
      refine ⟨⟨u, hu⟩, ?_⟩
      intro hv
      apply hsole h hv ⟨u, hne, hu⟩

theorem Forgets.balanced_iff (hf : Forgets w v w') (hw : w.Balanced)
    : w'.Balanced ↔ ∀ h, w.Holds v h → w.HeldElsewhere v h := by
  constructor
  . intro h' h hv
    rw [← hf.holds_iff, ← h', hf.registered_eq, hw]
    exact ⟨v, hv⟩
  . intro hdoubled h
    rw [hf.registered_eq, hf.holds_iff, hw h]
    constructor
    . rintro ⟨u, hu⟩
      by_cases heq : u = v
      . rw [heq] at hu
        apply hdoubled h hu
      . exact ⟨u, heq, hu⟩
    . rintro ⟨u, _, hu⟩
      exact ⟨u, hu⟩

theorem Gains.balanced (hg : Gains w h w') (hw : w.Balanced) : w'.Balanced := by
  intro h'
  rw [hg.registered_iff, hg.holds_iff, hw]

theorem Keeps.balanced (hk : Keeps w w') (hw : w.Balanced) : w'.Balanced := by
  intro h
  rw [hk.registered_eq, hk.holds_iff, hw]

theorem held_overwritten (vars : Nat → Option Socket) (v : Nat) (x : Option Socket) (h : SocketT)
    (hx : Names x h → ∃ i, i ≠ v ∧ Names (vars i) h)
    : (∃ i, Names (Function.update vars v x i) h) ↔ ∃ i, i ≠ v ∧ Names (vars i) h := by
  constructor
  . rintro ⟨i, hi⟩
    rw [holds_update] at hi
    rcases hi with ⟨_, hnew⟩ | ⟨hne, hold⟩
    . apply hx hnew
    . exact ⟨i, hne, hold⟩
  . rintro ⟨i, hne, hi⟩
    refine ⟨i, ?_⟩
    rw [holds_update]
    exact .inr ⟨hne, hi⟩

theorem held_moved (vars : Nat → Option Socket) {v u : Nat} {other : Socket} (h : SocketT)
    (hne : v ≠ u) (hu : vars u = some other)
    : (∃ i, Names (Function.update (Function.update vars v (some other)) u (some ⟨none, 0⟩) i) h)
        ↔
      ∃ i, i ≠ v ∧ Names (vars i) h := by
  have hempty : ¬ Names (some ⟨none, 0⟩) h := by simp [names_some, isValid]
  constructor
  . rintro ⟨i, hi⟩
    rw [holds_update, holds_update] at hi
    rcases hi with ⟨_, hnew⟩ | ⟨_, ⟨_, hnew⟩ | ⟨hiv, hold⟩⟩
    . exact absurd hnew hempty
    . refine ⟨u, hne.symm, ?_⟩
      rw [hu]
      exact hnew
    . exact ⟨i, hiv, hold⟩
  . rintro ⟨i, hiv, hi⟩
    by_cases hiu : i = u
    . refine ⟨v, ?_⟩
      rw [holds_update, holds_update]
      rw [hiu, hu] at hi
      exact .inr ⟨hne, .inl ⟨rfl, hi⟩⟩
    . refine ⟨i, ?_⟩
      rw [holds_update, holds_update]
      exact .inr ⟨hiu, .inr ⟨hiv, hi⟩⟩

theorem heldElsewhere_of_none (hv : w.vars v = none) : w.HeldElsewhere v h ↔ ∃ u, w.Holds u h := by
  constructor
  . rintro ⟨u, _, hu⟩
    exact ⟨u, hu⟩
  . rintro ⟨u, hu⟩
    refine ⟨u, ?_, hu⟩
    intro heq
    rw [heq] at hu
    apply not_holds_of_none hv hu

theorem keeps_default (hstep : w.step (.default v) = some (w', ())) : Keeps w w' := by
  simp only [step, Option.map_eq_some_iff, Prod.mk.injEq, and_true] at hstep
  rcases hstep with ⟨_, hstep, rfl⟩
  rcases of_construct hstep with ⟨hv, rfl⟩
  constructor
  . rfl
  . rfl
  . rfl
  . intro h
    rw [← heldElsewhere_of_none hv]
    apply held_overwritten
    simp [names_some, Socket.default, isValid]

theorem keeps_copyConstruct (hstep : w.step (.copyConstruct v u) = some (w', ())) : Keeps w w' := by
  simp only [step] at hstep
  split at hstep
  . simp at hstep
  . next other hu =>
    simp only [Option.map_eq_some_iff, Prod.mk.injEq, and_true] at hstep
    rcases hstep with ⟨_, hstep, rfl⟩
    rcases of_construct hstep with ⟨hv, rfl⟩
    constructor
    . rfl
    . rfl
    . rfl
    . intro h
      rw [← heldElsewhere_of_none hv]
      apply held_overwritten
      intro hnew
      refine ⟨u, ?_, ?_⟩
      . intro heq
        simp [heq, hv] at hu
      . rw [hu]
        exact hnew

theorem keeps_moveConstruct (hstep : w.step (.moveConstruct v u) = some (w', ())) : Keeps w w' := by
  simp only [step] at hstep
  split at hstep
  . simp at hstep
  . next other hu =>
    simp only [moveConstruct, Option.map_eq_some_iff, Prod.mk.injEq, and_true] at hstep
    rcases hstep with ⟨_, hstep, rfl⟩
    rcases of_construct hstep with ⟨hv, rfl⟩
    constructor
    . rfl
    . rfl
    . rfl
    . intro h
      rw [← heldElsewhere_of_none hv]
      apply held_moved _ _ _ hu
      intro heq
      simp [heq, hu] at hv

theorem gains_obtain {fd : Int32} (hstep : w.step (.obtain v h fd) = some (w', ()))
    : Gains w h w' := by
  simp only [step] at hstep
  split at hstep
  . simp at hstep
  . next hfresh =>
    rw [not_or] at hfresh
    rcases hfresh with ⟨hzero, hfresh⟩
    have hnone : w.proactor.sockets h = none := by simpa [registered] using hfresh
    simp only [Option.map_eq_some_iff, Prod.mk.injEq, and_true] at hstep
    rcases hstep with ⟨_, hstep, rfl⟩
    rcases of_construct hstep with ⟨hv, rfl⟩
    dsimp only at hv
    constructor
    . simpa using hfresh
    . rfl
    . rfl
    . intro h'
      unfold registered IOUringProactor.emplaceSocket
      rw [hnone]
      by_cases heq : h' = h
      . simp [heq]
      . simp [heq]
    . intro h'
      unfold Holds
      dsimp only
      constructor
      . rintro ⟨i, hi⟩
        rw [holds_update] at hi
        rcases hi with ⟨_, hnew⟩ | ⟨_, hold⟩
        . exact .inr (names_some.mp hnew).2.symm
        . exact .inl ⟨i, hold⟩
      . rintro (⟨i, hi⟩ | rfl)
        . refine ⟨i, ?_⟩
          rw [holds_update]
          refine .inr ⟨?_, hi⟩
          intro heq
          simp [heq, hv] at hi
        . refine ⟨v, ?_⟩
          rw [holds_update, names_some]
          simp [isValid, hzero]

theorem forgets_copyAssign (hstep : w.step (.copyAssign v u) = some (w', ())) (hne : v ≠ u)
    : Forgets w v w' := by
  simp only [step] at hstep
  split at hstep
  . next s other hv hu =>
    simp only [Option.some.injEq, Prod.mk.injEq, and_true] at hstep
    rw [← hstep]
    constructor
    . rfl
    . rfl
    . rfl
    . intro h
      apply held_overwritten
      intro hnew
      refine ⟨u, hne.symm, ?_⟩
      rw [hu]
      exact hnew
  . simp at hstep

theorem self_copyAssign (hstep : w.step (.copyAssign v v) = some (w', ())) : w' = w := by
  simp only [step] at hstep
  split at hstep
  . next s other hv hu =>
    simp only [Option.some.injEq, Prod.mk.injEq, and_true] at hstep
    rw [← hstep, copyAssign, ← hu, Function.update_eq_self]
  . simp at hstep

theorem moveAssign_eq (p : IOUringProactor) (s other : Socket)
    : s.moveAssign p other = (other, ⟨none, 0⟩, s.destroy p) := rfl

theorem closes_moveAssign (hstep : w.step (.moveAssign v u) = some (w', ())) (hne : v ≠ u)
    : Closes w v w' := by
  simp only [step] at hstep
  split at hstep
  . next s other hv hu =>
    rw [if_neg hne, moveAssign_eq] at hstep
    simp only [Option.some.injEq, Prod.mk.injEq, and_true] at hstep
    rw [← hstep]
    constructor
    . rfl
    . exact ⟨s, hv, rfl⟩
    . intro h
      rw [registered_destroy, Holds, hv]
    . intro h
      apply held_moved _ _ hne hu
  . simp at hstep

theorem self_moveAssign (hstep : w.step (.moveAssign v v) = some (w', ())) : w' = w := by
  simp only [step] at hstep
  split at hstep
  . simpa using hstep.symm
  . simp at hstep

theorem closes_destroy (hstep : w.step (.destroy v) = some (w', ()))
    : Closes w v w' := by
  simp only [step] at hstep
  split at hstep
  . simp at hstep
  . next s hv =>
    simp only [Option.some.injEq, Prod.mk.injEq, and_true] at hstep
    rw [← hstep]
    constructor
    . rfl
    . exact ⟨s, hv, rfl⟩
    . intro h
      rw [registered_destroy, Holds, hv]
    . intro h
      apply held_overwritten
      simp

theorem Closes.accounted (hc : Closes w v w') (hw : w.Accounted) : w'.Accounted := by
  classical
  rcases hc.closings_eq with ⟨s, hv, hclosings⟩
  intro h
  have hreg := hc.registered_iff h
  rw [Holds, hv] at hreg
  rw [hc.obtained_eq, hclosings, List.count_append, count_closed, hw h]
  cases hr : w.registered h with
  | false =>
    have hr' : w'.registered h = false := by simpa [hr] using hreg
    simp [hr']
  | true =>
    by_cases hn : Names (some s) h
    . have hr' : w'.registered h = false := by simpa [hn] using hreg
      simp [hr', hn]
    . have hr' : w'.registered h = true := by simpa [hr, hn] using hreg
      simp [hr', hn]

theorem Forgets.accounted (hf : Forgets w v w') (hw : w.Accounted) : w'.Accounted := by
  intro h
  rw [hf.obtained_eq, hf.closings_eq, hf.registered_eq]
  apply hw

theorem Keeps.accounted (hk : Keeps w w') (hw : w.Accounted) : w'.Accounted := by
  intro h
  rw [hk.obtained_eq, hk.closings_eq, hk.registered_eq]
  apply hw

theorem Gains.accounted (hg : Gains w h w') (hw : w.Accounted) : w'.Accounted := by
  intro h'
  have hreg := hg.registered_iff h'
  rw [hg.obtained_eq, hg.closings_eq, List.count_append, hw h']
  by_cases heq : h' = h
  . have hr' : w'.registered h' = true := hreg.mpr (.inr heq)
    rw [heq] at hr' ⊢
    simp [hg.fresh, hr']
  . have hr' : w'.registered h' = w.registered h' := by
      rw [Bool.eq_iff_iff]
      simpa [heq] using hreg
    simp [hr', Ne.symm heq]

theorem step_effect {op : Op} (hstep : w.step op = some (w', ()))
    : (w.Accounted → w'.Accounted) ∧ (w.Balanced → (w'.Balanced ↔ w.Careful op)) := by
  have hsame {w₁ w₂ : World} (hk : Keeps w₁ w₂)
      : (w₁.Accounted → w₂.Accounted) ∧ (w₁.Balanced → (w₂.Balanced ↔ True)) :=
    ⟨hk.accounted, fun hw => iff_true_intro (hk.balanced hw)⟩
  cases op with
  | default v => exact hsame (keeps_default hstep)
  | obtain v handle fd =>
    have hg := gains_obtain hstep
    exact ⟨hg.accounted, fun hw => iff_true_intro (hg.balanced hw)⟩
  | copyConstruct v u => exact hsame (keeps_copyConstruct hstep)
  | moveConstruct v u => exact hsame (keeps_moveConstruct hstep)
  | copyAssign v u =>
    by_cases heq : v = u
    . subst heq
      rw [self_copyAssign hstep]
      simp [Careful]
    . have hf := forgets_copyAssign hstep heq
      refine ⟨hf.accounted, ?_⟩
      intro hw
      simpa [Careful, heq] using hf.balanced_iff hw
  | moveAssign v u =>
    by_cases heq : v = u
    . subst heq
      rw [self_moveAssign hstep]
      simp [Careful]
    . have hc := closes_moveAssign hstep heq
      refine ⟨hc.accounted, ?_⟩
      intro hw
      simpa [Careful, heq] using hc.balanced_iff hw
  | destroy v =>
    have hc := closes_destroy hstep
    exact ⟨hc.accounted, hc.balanced_iff⟩

theorem owned_init (result : Int32) (address : ProactorPtr)
    : (init (.ofEntries result) address).Owned := by
  constructor
  . intro v h hv
    exact absurd hv (not_holds_of_none rfl)
  . intro h hr
    simp [registered, init, IOUringProactor.ofEntries] at hr
  . intro h
    simp [registered, init, IOUringProactor.ofEntries]

/--
The handles are owned after every step exactly in the runs where each step takes care.
-/
theorem owned_iff_careful (result : Int32) (address : ProactorPtr) (trace : List (Op × Unit))
    (w : World)
    : (init (.ofEntries result) address).Owned
        ∧
      (Run (ensure Owned (ofStep step)) (init (.ofEntries result) address) trace w
        ↔
      Run (restrict Careful (ofStep step)) (init (.ofEntries result) address) trace w) := by
  have hown := owned_init result address
  have hinit : Accounted _ ∧ Owned _ := ⟨(owned_iff.mp hown).1, hown⟩
  refine ⟨hown, ?_⟩
  apply Run.ensure_iff_restrict hinit
  . intro w₁ op _ w₂ hacc hstep
    apply (step_effect hstep).1 hacc
  . intro w₁ op _ w₂ hacc hown hstep
    have heffect := step_effect hstep
    rw [← heffect.2 (owned_iff.mp hown).2, owned_iff]
    exact ⟨fun h => h.2, fun h => ⟨heffect.1 hacc, h⟩⟩

-- a copy outlives the socket that it was made of
theorem copy_left_dangling
    : ∃ w, Run (ofStep step) (init (.ofEntries 0) 0)
        [(.obtain 0 1 5, ()), (.copyConstruct 1 0, ()), (.destroy 0, ())] w
        ∧ w.Holds 1 1 ∧ w.registered 1 = false ∧ ¬ w.Owned := by
  have hexec : exec step (init (.ofEntries 0) 0) [.obtain 0 1 5, .copyConstruct 1 0, .destroy 0]
      = some (_, [(), (), ()]) := rfl
  have hrun := run_of_exec hexec
  refine ⟨_, hrun, ⟨⟨some 0, 1⟩, rfl, rfl, rfl⟩, rfl, ?_⟩
  intro hown
  have := hown.kept 1 1 ⟨⟨some 0, 1⟩, rfl, rfl, rfl⟩
  exact absurd this (by decide)

end World

end Socket

end Net

end Sfap
