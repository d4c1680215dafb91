import Mathlib.Logic.Relation

/-!
# Runs of a system whose steps may fail

A step function takes a state and the choice of who moves. A run takes steps
that succeed, each allowed by a condition on the state before it.
-/

namespace OtusCProg.Library

variable {σ ε η : Type*} {step : σ → ε → Except η σ} {allowed : σ → ε → Prop} {s t u : σ} {e : ε}

/-- Some allowed step leads from one state to the other. -/
def Steps (step : σ → ε → Except η σ) (allowed : σ → ε → Prop) (s t : σ) : Prop :=
  ∃ e, allowed s e ∧ step s e = .ok t

/-- The second state is reached from the first by allowed steps. -/
abbrev Runs (step : σ → ε → Except η σ) (allowed : σ → ε → Prop) : σ → σ → Prop :=
  Relation.ReflTransGen (Steps step allowed)

/-- A run may begin with one more step. -/
theorem Runs.cons (hallowed : allowed s e) (hstep : step s e = .ok t) (h : Runs step allowed t u) :
    Runs step allowed s u :=
  Relation.ReflTransGen.head ⟨e, hallowed, hstep⟩ h

/-- A run under a stricter condition. -/
theorem Runs.mono {allowed' : σ → ε → Prop} (hweaker : ∀ s e, allowed s e → allowed' s e)
    (h : Runs step allowed s t) : Runs step allowed' s t := by
  induction h with
  | refl => exact Relation.ReflTransGen.refl
  | tail _ hsteps ih =>
      obtain ⟨e, hallowed, hstep⟩ := hsteps
      exact ih.tail ⟨e, hweaker _ e hallowed, hstep⟩

/-- What holds at first and is kept by every allowed step holds in every state of a run. -/
theorem Runs.invariant {I : σ → Prop} (h : Runs step allowed s t) (hfirst : I s)
    (hkept : ∀ {t u : σ} {e : ε}, I t → allowed t e → step t e = .ok u → I u) : I t := by
  induction h with
  | refl => exact hfirst
  | tail _ hsteps ih =>
      obtain ⟨_, hallowed, hstep⟩ := hsteps
      exact hkept ih hallowed hstep

/-- Take the steps one after another, as long as they are allowed and succeed. -/
def takeSteps (step : σ → ε → Except η σ) (allowed : σ → ε → Prop)
    [∀ s e, Decidable (allowed s e)] (s : σ) : List ε → Option σ
  | [] => some s
  | e :: rest =>
      if allowed s e then
        match step s e with
        | .ok t => takeSteps step allowed t rest
        | .error _ => none
      else none

theorem runs_of_takeSteps [∀ s e, Decidable (allowed s e)] {es : List ε}
    (h : takeSteps step allowed s es = some t) : Runs step allowed s t := by
  induction es generalizing s with
  | nil =>
      obtain rfl := Option.some.inj h
      exact Relation.ReflTransGen.refl
  | cons e rest ih =>
      unfold takeSteps at h
      split at h
      · rename_i hallowed
        split at h
        · rename_i u hstep
          exact Runs.cons hallowed hstep (ih h)
        · cases h
      · cases h

/-- One step more. -/
theorem takeSteps_concat [∀ s e, Decidable (allowed s e)] (es : List ε) (hallowed : ∀ s, allowed s e) :
    takeSteps step allowed s (es ++ [e]) =
      (takeSteps step allowed s es).bind fun t => (step t e).toOption := by
  induction es generalizing s with
  | nil =>
      simp only [List.nil_append, takeSteps, if_pos (hallowed s), Option.bind_some]
      cases step s e <;> rfl
  | cons d rest ih =>
      simp only [List.cons_append, takeSteps]
      split
      · cases step s d with
        | ok t => exact ih
        | error err => rfl
      · rfl

/-- Steps that a stricter condition allows. -/
theorem takeSteps_mono {allowed' : σ → ε → Prop} [∀ s e, Decidable (allowed s e)]
    [∀ s e, Decidable (allowed' s e)] (hweaker : ∀ s e, allowed s e → allowed' s e) {es : List ε}
    (h : takeSteps step allowed s es = some t) : takeSteps step allowed' s es = some t := by
  induction es generalizing s with
  | nil => exact h
  | cons e rest ih =>
      rw [takeSteps] at h ⊢
      split at h
      · rename_i hallowed
        rw [if_pos (hweaker s e hallowed)]
        split at h
        · exact ih h
        · cases h
      · cases h

/-- Every run takes some steps one after another. -/
theorem exists_takeSteps [∀ s e, Decidable (allowed s e)] (h : Runs step allowed s t) :
    ∃ es, takeSteps step allowed s es = some t := by
  induction h using Relation.ReflTransGen.head_induction_on with
  | refl => exact ⟨[], rfl⟩
  | head hfirst _ ih =>
      obtain ⟨e, hallowed, hstep⟩ := hfirst
      obtain ⟨es, hes⟩ := ih
      exact ⟨e :: es, by simp only [takeSteps, if_pos hallowed, hstep, hes]⟩

/-- A run is made of allowed steps only and keeps one invariant, or a step that is not allowed has
brought it under another one. -/
theorem takeSteps_cases [∀ s e, Decidable (allowed s e)] {I B : σ → Prop} {es : List ε}
    (h : takeSteps step (fun _ _ => True) s es = some t) (hfirst : I s)
    (hkept : ∀ {t u : σ} {e : ε}, I t → allowed t e → step t e = .ok u → I u)
    (hbroken : ∀ {t u : σ} {e : ε}, I t → ¬allowed t e → step t e = .ok u → B u)
    (hstays : ∀ {t u : σ} {e : ε}, B t → step t e = .ok u → B u) :
    takeSteps step allowed s es = some t ∧ I t ∨ takeSteps step allowed s es ≠ some t ∧ B t := by
  have hbad : ∀ {s : σ} {es : List ε}, takeSteps step (fun _ _ => True) s es = some t → B s → B t := by
    intro s es h hs
    refine Runs.invariant (runs_of_takeSteps h) hs ?_
    intro t u e ht _ hstep
    exact hstays ht hstep
  induction es generalizing s with
  | nil =>
      obtain rfl := Option.some.inj h
      exact Or.inl ⟨rfl, hfirst⟩
  | cons e rest ih =>
      rw [takeSteps, if_pos trivial] at h
      rw [takeSteps]
      cases hstep : step s e with
      | error err =>
          rw [hstep] at h
          cases h
      | ok u =>
          rw [hstep] at h
          by_cases hallowed : allowed s e
          · rw [if_pos hallowed]
            exact ih h (hkept hfirst hallowed hstep)
          · rw [if_neg hallowed]
            exact Or.inr ⟨nofun, hbad h (hbroken hfirst hallowed hstep)⟩

end OtusCProg.Library
