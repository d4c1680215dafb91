import Mathlib.Logic.Function.Iterate

/-!
# Where a machine gets

For a machine that takes one step after the other, whatever the state, the
statement that it gets from a state to one with some property. The rules are
those of total correctness: composition, consequence, and a loop that is left
after a known number of turns.
-/

namespace OtusCProg.Library

variable {σ : Type*} {step : σ → σ} {s : σ} {P Q : σ → Prop}

/-- The machine gets from `s` to a state with the property. -/
def Leads (step : σ → σ) (s : σ) (Q : σ → Prop) : Prop := ∃ n, Q (step^[n] s)

namespace Leads

theorem now (h : Q s) : Leads step s Q := ⟨0, h⟩

theorem run (n : ℕ) (h : Leads step (step^[n] s) Q) : Leads step s Q := by
  obtain ⟨k, hk⟩ := h
  refine ⟨k + n, ?_⟩
  rw [Function.iterate_add_apply]
  exact hk

theorem bind (h : Leads step s P) (h' : ∀ t, P t → Leads step t Q) : Leads step s Q := by
  obtain ⟨n, hn⟩ := h
  exact run n (h' _ hn)

theorem mono (h : Leads step s P) (h' : ∀ t, P t → Q t) : Leads step s Q :=
  h.bind fun t ht => now (h' t ht)

/-- What each turn of a loop hands over to the next is, in the end, handed over by the last. -/
theorem loop {I : ℕ → σ → Prop} (hturn : ∀ k t, I (k + 1) t → Leads step t (I k)) {k : ℕ}
    (h : I k s) : Leads step s (I 0) := by
  induction k generalizing s with
  | zero => exact now h
  | succ k ih => exact (hturn k s h).bind fun t ht => ih ht

end Leads

end OtusCProg.Library
