import Mathlib.Data.Finset.Insert
import Mathlib.Data.Finset.Basic
import Mathlib.Data.List.Induction

/-!
# Resources that are acquired, used and released

A program's history is a list of events on resources. A resource may depend on
others: it is acquired while these are held, and they are not released before it.
Replaying a history gives the resources held at its end, or nothing when one of
its events breaks the rules: a second release, a use after a release, a release
under a resource that is still held.
-/

namespace OtusCProg.Library

/-- What a program does with a resource. -/
inductive Custody (ρ : Type*) where
  | acquire (r : ρ)
  | use (r : ρ)
  | release (r : ρ)
deriving DecidableEq, Repr

namespace Custody

variable {ρ : Type*} [DecidableEq ρ] (depends : ρ → List ρ)

/-- The resources held after an event that keeps the rules. -/
def apply (held : Finset ρ) : Custody ρ → Option (Finset ρ)
  | .acquire r =>
      if r ∉ held ∧ ∀ s ∈ depends r, s ∈ held then some (insert r held) else none
  | .use r => if r ∈ held then some held else none
  | .release r =>
      if r ∈ held ∧ ∀ s ∈ held, r ∉ depends s then some (held.erase r) else none

/-- The resources held after a whole history. -/
def replay (history : List (Custody ρ)) : Option (Finset ρ) := history.foldlM (apply depends) ∅

variable {depends} {history : List (Custody ρ)} {held : Finset ρ} {r : ρ}

theorem replay_snoc (e : Custody ρ) (h : replay depends history = some held) :
    replay depends (history ++ [e]) = apply depends held e := by
  rw [replay] at h
  simp [replay, List.foldlM_append, h]

theorem replay_acquire (h : replay depends history = some held) (hnew : r ∉ held)
    (hdeps : ∀ s ∈ depends r, s ∈ held) :
    replay depends (history ++ [.acquire r]) = some (insert r held) := by
  rw [replay_snoc _ h, apply, if_pos ⟨hnew, hdeps⟩]

theorem replay_use (h : replay depends history = some held) (hheld : r ∈ held) :
    replay depends (history ++ [.use r]) = some held := by
  rw [replay_snoc _ h, apply, if_pos hheld]

/-- What was acquired last of all is released first. -/
theorem replay_release (h : replay depends history = some (insert r held)) (hnew : r ∉ held)
    (hfree : ∀ s ∈ insert r held, r ∉ depends s) :
    replay depends (history ++ [.release r]) = some held := by
  rw [replay_snoc _ h, apply, if_pos ⟨Finset.mem_insert_self r held, hfree⟩,
    Finset.erase_insert hnew]

/-- Whether a resource is held, as a number. -/
def owned (held : Finset ρ) (r : ρ) : Nat := if r ∈ held then 1 else 0

/-- One event keeps the balance of what it acquires, releases and holds. -/
theorem count_apply {e : Custody ρ} {after : Finset ρ} (h : apply depends held e = some after)
    (r : ρ) :
    owned held r + [e].count (.acquire r) = [e].count (.release r) + owned after r := by
  cases e with
  | acquire s =>
      rw [apply] at h
      split at h
      · rename_i hrule
        rw [← Option.some.inj h]
        by_cases hsame : s = r
        · subst hsame
          simp [owned, hrule.1]
        · simp [owned, hsame, Ne.symm hsame]
      · cases h
  | use s =>
      rw [apply] at h
      split at h
      · rw [← Option.some.inj h]
        simp
      · cases h
  | release s =>
      rw [apply] at h
      split at h
      · rename_i hrule
        rw [← Option.some.inj h]
        by_cases hsame : s = r
        · subst hsame
          simp [owned, hrule.1]
        · simp [owned, hsame, Ne.symm hsame]
      · cases h

/-- A history that keeps the rules released every resource as often as it acquired it, but for
those still held at its end. -/
theorem count_replay (h : replay depends history = some held) (r : ρ) :
    history.count (.acquire r) = history.count (.release r) + owned held r := by
  induction history using List.reverseRecOn generalizing held with
  | nil =>
      obtain rfl : ∅ = held := by simpa [replay] using h
      rfl
  | append_singleton history e ih =>
      cases hbefore : replay depends history with
      | none =>
          rw [replay] at h hbefore
          simp [List.foldlM_append, hbefore] at h
      | some before =>
          have hcount := ih hbefore
          rw [replay_snoc e hbefore] at h
          have hstep := count_apply h r
          simp only [List.count_append]
          omega

end Custody

end OtusCProg.Library
