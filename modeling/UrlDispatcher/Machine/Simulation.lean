import UrlDispatcher.Machine.Basic
import Mathlib.Data.Nat.Init

/-!
# Simulations and progress

Two rules for machines beyond invariants.

* `Machine.Simulates R` : every guarded step of one machine is matched by a guarded run of another,
  which may be empty.
* `Machine.Simulates.exists_run` : so is every guarded run; with `Machine.exists_run_flatMap` also
  the events of the run that matches are known.
* `Machine.exists_run_of_measure` : a state is reached if from every state before it some step makes
  a measure smaller.
-/

namespace Machine

variable {σ ε τ φ : Type*}

section

variable (step : σ → ε → Option σ) (G : σ → ε → Prop) (step' : τ → φ → Option τ)
  (G' : τ → φ → Prop)

/-- Each guarded step of `step` from related states is matched by a guarded run of `step'`. -/
def Simulates (R : σ → τ → Prop) : Prop :=
  ∀ ⦃s e s' t⦄, R s t → G s e → step s e = some s' → ∃ fs t', Run step' G' t fs t' ∧ R s' t'

end

variable {step : σ → ε → Option σ} {G : σ → ε → Prop} {step' : τ → φ → Option τ}
  {G' : τ → φ → Prop} {R : σ → τ → Prop} {s s' : σ} {t : τ} {es : List ε}

/-- The events of a run are among its events. -/
theorem Run.of_mem (h : Run step G s es s') : Run step (fun s e => G s e ∧ e ∈ es) s es s' := by
  induction h with
  | nil => exact .nil _
  | cons hG hs _ ih =>
    exact .cons ⟨hG, List.mem_cons_self⟩ hs
      (ih.mono fun _ _ h => ⟨h.1, List.mem_cons_of_mem _ h.2⟩)

/-- An invariant may be used to show that the events of a run meet another guard. -/
theorem Run.of_invariant {I : σ → Prop} {H : σ → ε → Prop} (h : Run step G s es s') (h₀ : I s)
    (hstep : ∀ s e s', I s → G s e → step s e = some s' → I s')
    (hH : ∀ s e s', I s → G s e → step s e = some s' → H s e) : Run step H s es s' := by
  induction h with
  | nil => exact .nil _
  | cons hG hs _ ih => exact .cons (hH _ _ _ h₀ hG hs) hs (ih (hstep _ _ _ h₀ hG hs))

/-- A run with an event in it is a run up to the event, the event, and a run from there. -/
theorem Run.exists_of_mem {e : ε} (h : Run step G s es s') (he : e ∈ es) :
    ∃ ds fs t t', Run step G s ds t ∧ G t e ∧ step t e = some t' ∧ Run step G t' fs s' := by
  induction h with
  | nil => cases he
  | @cons s s₁ s' e₁ es hG hs hrun ih =>
    rcases List.mem_cons.1 he with rfl | he
    · exact ⟨[], es, s, s₁, .nil s, hG, hs, hrun⟩
    · obtain ⟨ds, fs, t, t', hds, hGt, ht, hfs⟩ := ih he
      exact ⟨e₁ :: ds, fs, t, t', .cons hG hs hds, hGt, ht, hfs⟩

namespace Simulates

/-- **Runs are simulated.** -/
theorem exists_run (h : Simulates step G step' G' R) (hR : R s t) (hrun : Run step G s es s') :
    ∃ fs t', Run step' G' t fs t' ∧ R s' t' := by
  induction hrun generalizing t with
  | nil => exact ⟨[], t, .nil t, hR⟩
  | cons hG hs _ ih =>
    obtain ⟨fs, t₁, hfs, hR₁⟩ := h hR hG hs
    obtain ⟨gs, t₂, hgs, hR₂⟩ := ih hR₁
    exact ⟨fs ++ gs, t₂, hfs.append hgs, hR₂⟩

end Simulates

/-- If each step is matched by the run of certain events, so is each run by their runs in a row. -/
theorem exists_run_flatMap {f : ε → List φ}
    (h : ∀ s e s' t, R s t → G s e → step s e = some s' →
      ∃ t', Run step' G' t (f e) t' ∧ R s' t')
    (hR : R s t) (hrun : Run step G s es s') :
    ∃ t', Run step' G' t (es.flatMap f) t' ∧ R s' t' := by
  induction hrun generalizing t with
  | nil => exact ⟨t, .nil t, hR⟩
  | cons hG hs _ ih =>
    obtain ⟨t₁, hfirst, hR₁⟩ := h _ _ _ _ hR hG hs
    obtain ⟨t₂, hrest, hR₂⟩ := ih hR₁
    exact ⟨t₂, hfirst.append hrest, hR₂⟩

/-- **Progress.**  If from every state with the invariant `I` some guarded step either leads into
`P`, or keeps `I` and makes the measure `μ` smaller, a guarded run leads into `P`. -/
theorem exists_run_of_measure {I P : σ → Prop} (μ : σ → ℕ)
    (hstep : ∀ s, I s → ∃ e s', G s e ∧ step s e = some s' ∧ (P s' ∨ (I s' ∧ μ s' < μ s)))
    (hI : I s) : ∃ es s', Run step G s es s' ∧ P s' := by
  induction hn : μ s using Nat.strong_induction_on generalizing s with
  | _ n ih =>
    obtain ⟨e, s₁, hG, hs, hP | ⟨hI₁, hlt⟩⟩ := hstep s hI
    · exact ⟨[e], s₁, .cons hG hs (.nil s₁), hP⟩
    · obtain ⟨es, s', hrun, hP⟩ := ih (μ s₁) (hn ▸ hlt) hI₁ rfl
      exact ⟨e :: es, s', .cons hG hs hrun, hP⟩

end Machine
