import Mathlib.Logic.Basic

/-!
# Functions that return early

A function changes a state and may return with an error on the way. What it did
to the state before stays done.
-/

namespace OtusCProg.Library

/-- A function on a state that has a result or returns early. -/
abbrev Attempt (ε σ α : Type) := ExceptT ε (StateM σ) α

namespace Attempt
variable {ε σ α β : Type} {x : Attempt ε σ α} {f : α → Attempt ε σ β} {s t : σ} {a : α} {e : ε}

/-- The result of a function in a state, and the state behind it. -/
def on (x : Attempt ε σ α) (s : σ) : Except ε α × σ := x s

@[simp] theorem on_pure : (pure a : Attempt ε σ α).on s = (.ok a, s) := rfl

@[simp] theorem on_throw : (throw e : Attempt ε σ α).on s = (.error e, s) := rfl

@[simp] theorem on_set : (set t : Attempt ε σ PUnit).on s = (.ok ⟨⟩, t) := rfl

@[simp] theorem on_get : (get : Attempt ε σ σ).on s = (.ok s, s) := rfl

theorem on_bind : (x >>= f).on s = ExceptT.bindCont f (x.on s).1 (x.on s).2 := rfl

/-- A sequence goes on where its first part has a result. -/
theorem on_bind_of_ok (h : x.on s = (.ok a, t)) : (x >>= f).on s = (f a).on t := by
  rw [on_bind, h]
  rfl

/-- It returns where its first part does. -/
theorem on_bind_of_error (h : x.on s = (.error e, t)) : (x >>= f).on s = (.error e, t) := by
  rw [on_bind, h]
  rfl

/-- From `s` on, the function ends in a result and a state with `Q`, or early with `E`. -/
def Meets (x : Attempt ε σ α) (s : σ) (Q : α → σ → Prop) (E : ε → σ → Prop) : Prop :=
  (∃ a t, x.on s = (.ok a, t) ∧ Q a t) ∨ ∃ e t, x.on s = (.error e, t) ∧ E e t

/-- A sequence meets what its second part meets behind its first. -/
theorem Meets.bind {Q : α → σ → Prop} {R : β → σ → Prop} {E : ε → σ → Prop} (hx : Meets x s Q E)
    (hf : ∀ a t, Q a t → Meets (f a) t R E) : Meets (x >>= f) s R E := by
  rcases hx with ⟨a, t, hx, hq⟩ | ⟨e, t, hx, he⟩
  · rcases hf a t hq with ⟨b, u, hb, hr⟩ | ⟨e, u, hb, he⟩
    · exact Or.inl ⟨b, u, (on_bind_of_ok hx).trans hb, hr⟩
    · exact Or.inr ⟨e, u, (on_bind_of_ok hx).trans hb, he⟩
  · exact Or.inr ⟨e, t, on_bind_of_error hx, he⟩

/-- What it meets, it meets more loosely too. -/
theorem Meets.imp {Q Q' : α → σ → Prop} {E E' : ε → σ → Prop} (hx : Meets x s Q E)
    (hq : ∀ a t, Q a t → Q' a t) (he : ∀ e t, E e t → E' e t) : Meets x s Q' E' := by
  rcases hx with ⟨a, t, hx, h⟩ | ⟨e, t, hx, h⟩
  · exact Or.inl ⟨a, t, hx, hq a t h⟩
  · exact Or.inr ⟨e, t, hx, he e t h⟩

/-- A result that is met is the one of the run. -/
theorem Meets.of_run {Q : α → σ → Prop} {E : ε → σ → Prop} (hx : Meets x s Q E) :
    Meets x s (fun a t => x.on s = (.ok a, t) ∧ Q a t) E := by
  rcases hx with ⟨a, t, hx, h⟩ | hearly
  · exact Or.inl ⟨a, t, hx, hx, h⟩
  · exact Or.inr hearly

/-- A sequence whose first part has errors of its own. -/
theorem Meets.bind_imp {Q : α → σ → Prop} {R : β → σ → Prop} {E E' : ε → σ → Prop}
    (hx : Meets x s Q E) (he : ∀ e t, E e t → E' e t) (hf : ∀ a t, Q a t → Meets (f a) t R E') :
    Meets (x >>= f) s R E' :=
  (hx.imp (fun _ _ h => h) he).bind hf

theorem meets_pure {Q : α → σ → Prop} {E : ε → σ → Prop} (h : Q a s) :
    Meets (pure a : Attempt ε σ α) s Q E := Or.inl ⟨a, s, rfl, h⟩

theorem meets_throw {Q : α → σ → Prop} {E : ε → σ → Prop} (h : E e s) :
    Meets (throw e : Attempt ε σ α) s Q E := Or.inr ⟨e, s, rfl, h⟩

end Attempt

end OtusCProg.Library
