import Mathlib.Logic.Function.Basic

/-!
# Machines and guarded runs

A machine is a partial step function `step : σ → ε → Option σ` on states `σ` and events `ε`; the
event holds every choice the environment makes, so a run is computed from its list of events.

* `Machine.run step s es` : the state the events `es` lead to from `s`, if each of them can happen.
* `Machine.Run step G s es s'` : the events lead from `s` to `s'`, and each of them meets the guard
  `G` in the state in which it happens.  A guard is an assumption on the environment, or the
  condition under which a property is claimed.
* `Machine.Run.invariant` : a predicate that guarded steps preserve holds after a guarded run.
* `Machine.forall_foldl_iff` : for a total step function, if a step keeps a predicate *exactly* when
  it meets the guard, the predicate holds all along a list of events exactly when each of them does.
* `Machine.foldl_establishes` : what one event brings about and no event undoes holds after a list
  with that event.
-/

namespace Machine

variable {σ ε : Type*} (step : σ → ε → Option σ)

/-- The state a list of events leads to. -/
def run (s : σ) : List ε → Option σ
  | [] => some s
  | e :: es => (step s e).bind fun s' => run s' es

/-- `Run step G s es s'` : the events `es` lead from `s` to `s'`, each meeting the guard `G`. -/
inductive Run (G : σ → ε → Prop) : σ → List ε → σ → Prop
  | nil (s : σ) : Run G s [] s
  | cons {s s' s'' : σ} {e : ε} {es : List ε} (hG : G s e) (hs : step s e = some s')
      (h : Run G s' es s'') : Run G s (e :: es) s''

variable {step}

namespace Run

variable {G : σ → ε → Prop} {s s' s'' : σ} {e : ε} {es es' : List ε}

theorem run_eq (h : Run step G s es s') : run step s es = some s' := by
  induction h with
  | nil => rfl
  | cons _ hs _ ih => rw [run, hs]; exact ih

theorem mono {G' : σ → ε → Prop} (hG : ∀ s e, G s e → G' s e) (h : Run step G s es s') :
    Run step G' s es s' := by
  induction h with
  | nil => exact .nil _
  | cons hg hs _ ih => exact .cons (hG _ _ hg) hs ih

theorem append (h : Run step G s es s') (h' : Run step G s' es' s'') :
    Run step G s (es ++ es') s'' := by
  induction h with
  | nil => exact h'
  | cons hg hs _ ih => exact .cons hg hs (ih h')

/-- **Invariants.**  A predicate that every guarded step preserves holds after a guarded run. -/
theorem invariant {I : σ → Prop} (h : Run step G s es s') (h₀ : I s)
    (hstep : ∀ s e s', I s → G s e → step s e = some s' → I s') : I s' := by
  induction h with
  | nil => exact h₀
  | cons hg hs _ ih => exact ih (hstep _ _ _ h₀ hg hs)

/-- A run computed with a check of its steps is guarded by what the check ensures. -/
theorem of_run {g : σ → ε → Bool} (hg : ∀ s e, g s e = true → G s e)
    (h : run (fun s e => if g s e then step s e else none) s es = some s') :
    Run step G s es s' := by
  induction es generalizing s with
  | nil =>
    cases h
    exact .nil _
  | cons e es ih =>
    obtain ⟨t, ht, h⟩ := Option.bind_eq_some_iff.1 h
    rw [Option.ite_none_right_eq_some] at ht
    exact .cons (hg s e ht.1) ht.2 (ih h)

end Run

/-- **Exact guards.**  From a state that satisfies `I`, all states on the way satisfy `I` if and
only if all events meet `G`, provided that a step keeps `I` exactly when its event meets `G`. -/
theorem forall_foldl_iff {f : σ → ε → σ} {I : σ → Prop} {G : σ → ε → Prop}
    (hstep : ∀ s e, I s → (I (f s e) ↔ G s e)) {s : σ} (h₀ : I s) (es : List ε) :
    (∀ ds, ds <+: es → I (ds.foldl f s)) ↔ ∀ ds e, ds ++ [e] <+: es → G (ds.foldl f s) e := by
  induction es generalizing s with
  | nil =>
    constructor
    · intro _ ds e h
      exact absurd (List.prefix_nil.1 h) (List.concat_ne_nil e ds)
    · rintro - ds h
      rw [List.prefix_nil.1 h]
      exact h₀
  | cons e es ih =>
    constructor
    · intro h ds e' hds
      have h₁ : I (f s e) := h [e] (List.cons_prefix_cons.2 ⟨rfl, List.nil_prefix⟩)
      rcases ds with _ | ⟨d, ds⟩
      · obtain ⟨rfl, -⟩ := List.cons_prefix_cons.1 hds
        exact (hstep s e' h₀).1 h₁
      · obtain ⟨rfl, htail⟩ := List.cons_prefix_cons.1 hds
        refine (ih h₁).1 (fun ds' hds' => ?_) ds e' htail
        exact h (d :: ds') (List.cons_prefix_cons.2 ⟨rfl, hds'⟩)
    · intro h ds hds
      have h₁ : I (f s e) :=
        (hstep s e h₀).2 (h [] e (List.cons_prefix_cons.2 ⟨rfl, List.nil_prefix⟩))
      rcases ds with _ | ⟨d, ds⟩
      · exact h₀
      · obtain ⟨rfl, htail⟩ := List.cons_prefix_cons.1 hds
        refine (ih h₁).2 (fun ds' e' hds' => ?_) ds htail
        exact h (d :: ds') e' (List.cons_prefix_cons.2 ⟨rfl, hds'⟩)

/-- **Progress.**  What the event `e` brings about and no event undoes holds after a list with `e`
in it; `I` is what may be assumed of every state on the way. -/
theorem foldl_establishes {f : σ → ε → σ} {I P : σ → Prop} {e : ε}
    (hI : ∀ s e', I s → I (f s e')) (he : ∀ s, I s → P (f s e))
    (hkeep : ∀ s e', I s → P s → P (f s e')) {s : σ} (h₀ : I s) {es : List ε} (h : e ∈ es ∨ P s) :
    P (es.foldl f s) := by
  induction es generalizing s with
  | nil => exact h.resolve_left List.not_mem_nil
  | cons e' es ih =>
    refine ih (hI s e' h₀) ?_
    rcases h with h | h
    · rcases List.mem_cons.1 h with rfl | h
      · exact .inr (he s h₀)
      · exact .inl h
    · exact .inr (hkeep s e' h₀ h)

end Machine
