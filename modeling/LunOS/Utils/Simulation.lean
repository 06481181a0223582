import Mathlib.Logic.Relation

/-!
# Machines with events, and simulation

A machine is a relation between a state, an event and the next state. If every step of one machine
can be followed by another with the same event, what the first one does the second one does too.
-/

namespace LunOS.Simulation

variable {σ τ ε : Type*}

/-- A run with the events of its steps. -/
inductive Run (step : σ → ε → σ → Prop) : σ → List ε → σ → Prop
  | nil (s : σ) : Run step s [] s
  | cons {s s' s'' : σ} {e : ε} {es : List ε} (hst : step s e s') (h : Run step s' es s'') :
      Run step s (e :: es) s''

/-- The second machine follows the first one. -/
def Follows (step : σ → ε → σ → Prop) (step' : τ → ε → τ → Prop) (R : σ → τ → Prop) : Prop :=
  ∀ s e s', step s e s' → ∀ t, R s t → ∃ t', step' t e t' ∧ R s' t'

variable {step : σ → ε → σ → Prop} {step' : τ → ε → τ → Prop} {R : σ → τ → Prop}

/-- Every run of the first machine is one of the second. -/
lemma Follows.run (h : Follows step step' R) {s s' : σ} {es : List ε} (hrun : Run step s es s')
    {t : τ} (hR : R s t) : ∃ t', Run step' t es t' ∧ R s' t' := by
  induction hrun generalizing t with
  | nil s => exact ⟨t, .nil t, hR⟩
  | cons hst _ ih =>
    obtain ⟨t₁, hst', hR₁⟩ := h _ _ _ hst t hR
    obtain ⟨t', hrun', hR'⟩ := ih hR₁
    exact ⟨t', .cons hst' hrun', hR'⟩

end LunOS.Simulation
