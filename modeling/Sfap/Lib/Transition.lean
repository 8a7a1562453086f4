import Mathlib.Algebra.Ring.Nat

/-!
This module contains runs of labelled transition systems and the rules for them: an invariant of every
step is an invariant of every run, and a simulation of every step is a simulation of every run.
-/

namespace Transition

variable {σ τ ι ο : Type}

-- `none` means that the input is not enabled
def ofStep (step : σ → ι → Option (σ × ο)) : σ → ι → ο → σ → Prop :=
  fun s i o s' => step s i = some (s', o)

def restrict (Cond : σ → ι → Prop) (Step : σ → ι → ο → σ → Prop) : σ → ι → ο → σ → Prop :=
  fun s i o s' => Cond s i ∧ Step s i o s'

def ensure (Good : σ → Prop) (Step : σ → ι → ο → σ → Prop) : σ → ι → ο → σ → Prop :=
  fun s i o s' => Step s i o s' ∧ Good s'

-- where a step is not defined anything may happen
def behavior (Defined : σ → ι → Prop) (Step : σ → ι → ο → σ → Prop) : σ → ι → ο → σ → Prop :=
  fun s i o s' => Defined s i → Step s i o s'

/--
`Run Step s trace s'` means that `s'` is reached from `s` by taking the inputs of `trace` in order,
each with the output next to it.
-/
inductive Run (Step : σ → ι → ο → σ → Prop) (s : σ) : List (ι × ο) → σ → Prop where
  | nil : Run Step s [] s
  | snoc {trace : List (ι × ο)} {s₁ s₂ : σ} {i : ι} {o : ο} :
      Run Step s trace s₁ → Step s₁ i o s₂ → Run Step s (trace ++ [(i, o)]) s₂

namespace Run

variable {Step : σ → ι → ο → σ → Prop} {s s' : σ} {trace : List (ι × ο)}

theorem append {s₁ s₂ : σ} {rest : List (ι × ο)} (h₁ : Run Step s trace s₁)
    (h₂ : Run Step s₁ rest s₂)
    : Run Step s (trace ++ rest) s₂ := by
  induction h₂ with
  | nil => simpa using h₁
  | snoc _ hstep ih =>
    rw [← List.append_assoc]
    exact .snoc ih hstep

theorem cons {s₁ : σ} {i : ι} {o : ο} (h₁ : Step s i o s₁) (h₂ : Run Step s₁ trace s')
    : Run Step s ((i, o) :: trace) s' := by
  apply append (.snoc .nil h₁) h₂

theorem invariant {Inv : σ → Prop} (h : Run Step s trace s') (hinit : Inv s)
    (hstep : ∀ s₁ i o s₂, Inv s₁ → Step s₁ i o s₂ → Inv s₂)
    : Inv s' := by
  induction h with
  | nil => exact hinit
  | snoc _ hlast ih => exact hstep _ _ _ _ ih hlast

theorem potential (rank : σ → Nat) (counts : ι → Bool) (credit : ι → Nat) (h : Run Step s trace s')
    (hstep : ∀ s₁ i o s₂, Step s₁ i o s₂ → rank s₂ + (if counts i then 1 else 0) ≤ rank s₁ + credit i)
    : rank s' + trace.countP (fun r => counts r.1) ≤ rank s + (trace.map fun r => credit r.1).sum := by
  induction h with
  | nil => exact Nat.le_refl _
  | snoc _ hlast ih =>
    have hle := hstep _ _ _ _ hlast
    rw [List.countP_append, List.countP_singleton, List.map_append, List.sum_append, List.map_singleton,
      List.sum_singleton]
    dsimp only
    omega

theorem mono {Step' : σ → ι → ο → σ → Prop} (h : Run Step s trace s')
    (hstep : ∀ s₁ i o s₂, Step s₁ i o s₂ → Step' s₁ i o s₂)
    : Run Step' s trace s' := by
  induction h with
  | nil => exact .nil
  | snoc _ hlast ih => exact .snoc ih (hstep _ _ _ _ hlast)

theorem defined {Inv : σ → Prop} {Cond Defined : σ → ι → Prop}
    (h : Run (restrict Cond (behavior Defined Step)) s trace s') (hinit : Inv s)
    (hdefined : ∀ s₁ i, Inv s₁ → Cond s₁ i → Defined s₁ i)
    (hstep : ∀ s₁ i o s₂, Inv s₁ → Cond s₁ i → Step s₁ i o s₂ → Inv s₂)
    : Run (restrict Cond Step) s trace s' ∧ Inv s' := by
  induction h with
  | nil => exact ⟨.nil, hinit⟩
  | snoc _ hlast ih =>
    have hnext := hlast.2 (hdefined _ _ ih.2 hlast.1)
    exact ⟨.snoc ih.1 ⟨hlast.1, hnext⟩, hstep _ _ _ _ ih.2 hlast.1 hnext⟩

theorem ensure_iff_restrict {Inv Good : σ → Prop} {Cond : σ → ι → Prop} (hinit : Inv s ∧ Good s)
    (hinv : ∀ s₁ i o s₂, Inv s₁ → Step s₁ i o s₂ → Inv s₂)
    (hgood : ∀ s₁ i o s₂, Inv s₁ → Good s₁ → Step s₁ i o s₂ → (Good s₂ ↔ Cond s₁ i))
    : Run (ensure Good Step) s trace s' ↔ Run (restrict Cond Step) s trace s' := by
  constructor
  . intro h
    have : Run (restrict Cond Step) s trace s' ∧ Inv s' ∧ Good s' := by
      induction h with
      | nil => exact ⟨.nil, hinit⟩
      | snoc _ hlast ih =>
        rcases ih with ⟨hrun, hi, hg⟩
        refine ⟨.snoc hrun ⟨?_, hlast.1⟩, hinv _ _ _ _ hi hlast.1, hlast.2⟩
        exact (hgood _ _ _ _ hi hg hlast.1).mp hlast.2
    exact this.1
  . intro h
    have : Run (ensure Good Step) s trace s' ∧ Inv s' ∧ Good s' := by
      induction h with
      | nil => exact ⟨.nil, hinit⟩
      | snoc _ hlast ih =>
        rcases ih with ⟨hrun, hi, hg⟩
        have hg' := (hgood _ _ _ _ hi hg hlast.2).mpr hlast.1
        exact ⟨.snoc hrun ⟨hlast.2, hg'⟩, hinv _ _ _ _ hi hlast.2, hg'⟩
    exact this.1

theorem simulate {Spec : τ → ι → ο → τ → Prop} {R : σ → τ → Prop} {a : τ}
    (h : Run Step s trace s') (hinit : R s a)
    (hstep : ∀ s₁ a₁ i o s₂, R s₁ a₁ → Step s₁ i o s₂ → ∃ a₂, Spec a₁ i o a₂ ∧ R s₂ a₂)
    : ∃ a', Run Spec a trace a' ∧ R s' a' := by
  induction h with
  | nil => exact ⟨a, .nil, hinit⟩
  | snoc _ hlast ih =>
    rcases ih with ⟨a₁, hrun, hrel⟩
    rcases hstep _ _ _ _ _ hrel hlast with ⟨a₂, hspec, hrel'⟩
    exact ⟨a₂, .snoc hrun hspec, hrel'⟩

end Run

def exec (step : σ → ι → Option (σ × ο)) (s : σ) : List ι → Option (σ × List ο)
  | [] => some (s, [])
  | i :: is =>
    match step s i with
    | none => none
    | some (s₁, o) =>
      match exec step s₁ is with
      | none => none
      | some (s', os) => some (s', o :: os)

theorem run_of_exec {step : σ → ι → Option (σ × ο)} {s s' : σ} {is : List ι} {os : List ο}
    (h : exec step s is = some (s', os))
    : Run (ofStep step) s (is.zip os) s' := by
  induction is generalizing s os with
  | nil =>
    simp only [exec, Option.some.injEq, Prod.mk.injEq] at h
    rw [h.1]
    exact .nil
  | cons i is ih =>
    simp only [exec] at h
    split at h
    . simp at h
    . next s₁ o hstep =>
      split at h
      . simp at h
      . next s₂ os' hexec =>
        simp only [Option.some.injEq, Prod.mk.injEq] at h
        rcases h with ⟨rfl, rfl⟩
        exact .cons hstep (ih hexec)

def guarded (Cond : σ → ι → Prop) [∀ s i, Decidable (Cond s i)] (step : σ → ι → Option (σ × ο))
    : σ → ι → Option (σ × ο) :=
  fun s i => if Cond s i then step s i else none

theorem run_restrict_of_exec {step : σ → ι → Option (σ × ο)} {Cond : σ → ι → Prop}
    [∀ s i, Decidable (Cond s i)] {s s' : σ} {is : List ι} {os : List ο}
    (h : exec (guarded Cond step) s is = some (s', os))
    : Run (restrict Cond (ofStep step)) s (is.zip os) s' := by
  apply (run_of_exec h).mono
  intro s₁ i o s₂ hstep
  unfold ofStep guarded at hstep
  split at hstep
  . next hcond => exact ⟨hcond, hstep⟩
  . simp at hstep

end Transition
