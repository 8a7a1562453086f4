/-!
This module contains programs that ask for something and go on with the answer, together with the
histories of questions and answers that they go through.
-/

inductive Dialogue (Req Res α : Type) where
  | ret (a : α)
  | ask (req : Req) (k : Res → Dialogue Req Res α)

namespace Dialogue

variable {Req Res α β γ : Type}

def bind : Dialogue Req Res α → (α → Dialogue Req Res β) → Dialogue Req Res β
  | .ret a, K => K a
  | .ask req k, K => .ask req fun res => (k res).bind K

@[simp]
theorem ret_bind (a : α) (K : α → Dialogue Req Res β) : (ret a).bind K = K a := rfl

@[simp]
theorem ask_bind (req : Req) (k : Res → Dialogue Req Res α) (K : α → Dialogue Req Res β)
    : (ask req k).bind K = .ask req fun res => (k res).bind K := rfl

theorem bind_ret (p : Dialogue Req Res α) : p.bind .ret = p := by
  induction p with
  | ret a => rfl
  | ask req k ih =>
    rw [ask_bind]
    congr 1
    funext res
    apply ih

theorem bind_assoc (p : Dialogue Req Res α) (K : α → Dialogue Req Res β)
    (L : β → Dialogue Req Res γ)
    : (p.bind K).bind L = p.bind fun a => (K a).bind L := by
  induction p with
  | ret a => rfl
  | ask req k ih =>
    simp only [ask_bind]
    congr 1
    funext res
    apply ih

/--
`p.Performs history q` means that `p` goes through `history` and that `q` remains of it.
-/
inductive Performs : Dialogue Req Res α → List (Req × Res) → Dialogue Req Res α → Prop where
  | nil {p : Dialogue Req Res α} : Performs p [] p
  | ask {req : Req} {res : Res} {k : Res → Dialogue Req Res α} {history : List (Req × Res)}
      {q : Dialogue Req Res α} :
      Performs (k res) history q → Performs (.ask req k) ((req, res) :: history) q

namespace Performs

variable {p q r : Dialogue Req Res α} {history rest : List (Req × Res)}

theorem append (h₁ : p.Performs history q) (h₂ : q.Performs rest r)
    : p.Performs (history ++ rest) r := by
  induction h₁ with
  | nil => exact h₂
  | ask _ ih => exact .ask (ih h₂)

theorem snoc {req : Req} {k : Res → Dialogue Req Res α} (h : p.Performs history (.ask req k))
    (res : Res)
    : p.Performs (history ++ [(req, res)]) (k res) := by
  apply h.append
  exact .ask .nil

theorem of_bind {K : α → Dialogue Req Res β} {b : β}
    (h : (p.bind K).Performs history (.ret b))
    : ∃ h₁ h₂ a, history = h₁ ++ h₂ ∧ p.Performs h₁ (.ret a) ∧ (K a).Performs h₂ (.ret b) := by
  induction p generalizing history with
  | ret a => exact ⟨[], history, a, rfl, .nil, h⟩
  | ask req k ih =>
    rw [ask_bind] at h
    cases h with
    | ask h =>
      rcases ih _ h with ⟨h₁, h₂, a, rfl, hp, hK⟩
      exact ⟨_, h₂, a, rfl, .ask hp, hK⟩

theorem ret_iff {a b : α} : (ret a : Dialogue Req Res α).Performs history (.ret b) ↔
    history = [] ∧ a = b := by
  constructor
  . intro h
    cases h
    exact ⟨rfl, rfl⟩
  . rintro ⟨rfl, rfl⟩
    exact .nil

end Performs

end Dialogue
