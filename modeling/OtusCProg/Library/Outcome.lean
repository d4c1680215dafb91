import Mathlib.Logic.Basic

/-!
# Computations that may fail

When a sequence, a guarded computation and a mapped one end with a value.
-/

namespace OtusCProg.Library

section Sequence
variable {ε : Type*} {α β : Type} {x : Except ε α} {f : α → Except ε β} {a : α} {b : β}

/-- A sequence has a result when both parts have one. -/
theorem bind_eq_ok : (x >>= f) = .ok b ↔ ∃ a, x = .ok a ∧ f a = .ok b := by
  cases x with
  | error err => exact ⟨nofun, nofun⟩
  | ok a =>
      constructor
      · exact fun h => ⟨a, rfl, h⟩
      · rintro ⟨a', ha, h⟩
        rwa [Except.ok.inj ha]

/-- A guarded computation has a result when the guard lets it through. -/
theorem ite_error_eq_ok {p : Prop} [Decidable p] {err : ε} :
    (if p then .error err else x) = .ok a ↔ ¬p ∧ x = .ok a := by
  by_cases h : p <;> simp [h]

/-- A mapped computation has a result when the computation has one. -/
theorem map_eq_ok {g : α → β} : x.map g = .ok b ↔ ∃ a, x = .ok a ∧ g a = b := by
  cases x with
  | error err => exact ⟨nofun, nofun⟩
  | ok a =>
      constructor
      · exact fun h => ⟨a, rfl, Except.ok.inj h⟩
      · rintro ⟨a', ha, rfl⟩
        rw [Except.ok.inj ha]
        rfl

end Sequence

end OtusCProg.Library
