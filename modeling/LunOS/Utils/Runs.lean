import Mathlib.Logic.Relation

/-!
# Runs

The states that steps reach from a state to start in, and the rule for invariants: what holds at the
start and is kept by every step holds in every state of a run.
-/

namespace LunOS.Runs

variable {σ : Type*}

/-- The states that steps reach from a state of `start`. -/
def Reachable (start : σ → Prop) (step : σ → σ → Prop) (s : σ) : Prop :=
  ∃ s₀, start s₀ ∧ Relation.ReflTransGen step s₀ s

namespace Reachable
variable {start : σ → Prop} {step : σ → σ → Prop} {s t : σ}

lemma init (h : start s) : Reachable start step s := ⟨s, h, .refl⟩

/-- A run goes on. -/
lemma run (h : Reachable start step s) (hrun : Relation.ReflTransGen step s t) :
    Reachable start step t := by
  rcases h with ⟨s₀, hs₀, hrun₀⟩
  exact ⟨s₀, hs₀, hrun₀.trans hrun⟩

protected lemma step (h : Reachable start step s) (hst : step s t) : Reachable start step t :=
  h.run (.single hst)

lemma mono {step' : σ → σ → Prop} (h : Reachable start step s)
    (hstep : ∀ s t, step s t → step' s t) : Reachable start step' s := by
  rcases h with ⟨s₀, hs₀, hrun⟩
  exact ⟨s₀, hs₀, Relation.ReflTransGen.mono hstep s₀ s hrun⟩

/-- The rule for invariants. -/
@[elab_as_elim]
lemma invariant {I : σ → Prop} (h : Reachable start step s) (hinit : ∀ s, start s → I s)
    (hstep : ∀ s t, I s → step s t → I t) : I s := by
  rcases h with ⟨s₀, hs₀, hrun⟩
  induction hrun with
  | refl => exact hinit s₀ hs₀
  | tail _ hst ih => exact hstep _ _ ih hst

end Reachable

end LunOS.Runs
