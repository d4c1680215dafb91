import OtusCProg.Library.Custody
import OtusCProg.Library.EarlyReturn
import Mathlib.Data.Finset.Dedup

/-!
# The blocks of an allocator

The requests to an allocator are numbered, and a block has the number of the
request that granted it. So a block that was freed never comes back under its old
name. What a program does to its blocks is replayed as their custody.
-/

namespace OtusCProg.Library

/-- The requests so far, and what was done to the blocks. -/
structure Allocator where
  requests : Nat
  history : List (Custody Nat)

namespace Allocator

def start : Allocator := ⟨0, []⟩

/-- No block keeps another one alive. -/
def depends : Nat → List Nat := fun _ => []

section Calls
variable {ε : Type} (grants : Nat → Bool)

/-- `malloc`: a new block, or `NULL` where the request is not granted. -/
def malloc : Attempt ε Allocator (Option Nat) := do
  let h ← get
  if grants h.requests then
    set (⟨h.requests + 1, h.history ++ [.acquire h.requests]⟩ : Allocator)
    return some h.requests
  else
    set (⟨h.requests + 1, h.history⟩ : Allocator)
    return none

/-- Read or write some blocks. -/
def touch : List Nat → Attempt ε Allocator Unit
  | [] => pure ()
  | b :: rest => do
      modify fun h => { h with history := h.history ++ [.use b] }
      touch rest

/-- `free` some blocks, one after the other. -/
def free : List Nat → Attempt ε Allocator Unit
  | [] => pure ()
  | b :: rest => do
      modify fun h => { h with history := h.history ++ [.release b] }
      free rest

/-- `realloc`: the old block is freed where a new one is granted, and stays where not. -/
def realloc (b : Nat) : Attempt ε Allocator (Option Nat) := do
  match ← malloc grants with
  | none => return none
  | some new =>
      free [b]
      return some new

end Calls

/-- The program has kept the rules so far, and these blocks are live, each once. -/
structure Holds (h : Allocator) (blocks : List Nat) : Prop where
  held : Custody.replay depends h.history = some blocks.toFinset
  nodup : blocks.Nodup
  known : ∀ b ∈ blocks, b < h.requests

section Rules
variable {ε : Type} {grants : Nat → Bool} {h : Allocator} {blocks blocks' more used : List Nat} {b : Nat}
  {E : ε → Allocator → Prop}

theorem holds_start : start.Holds [] := ⟨rfl, List.nodup_nil, by simp⟩

theorem Holds.perm (hold : h.Holds blocks) (hperm : blocks.Perm blocks') : h.Holds blocks' where
  held := by
    rw [hold.held, List.toFinset_eq_of_perm _ _ hperm]
  nodup := hperm.nodup hold.nodup
  known b hb := hold.known b (hperm.mem_iff.mpr hb)

/-- The numbers of requests are new. -/
theorem Holds.acquire (hold : h.Holds blocks) :
    Holds ⟨h.requests + 1, h.history ++ [.acquire h.requests]⟩ (h.requests :: blocks) := by
  have hnew : h.requests ∉ blocks := fun hmem => absurd (hold.known _ hmem) (Nat.lt_irrefl _)
  constructor
  · rw [Custody.replay_acquire hold.held (by simpa using hnew) (by simp [depends]),
      List.toFinset_cons]
  · exact List.nodup_cons.mpr ⟨hnew, hold.nodup⟩
  · intro b hb
    rcases List.mem_cons.mp hb with rfl | hb
    · exact Nat.lt_succ_self _
    · exact Nat.lt_succ_of_lt (hold.known b hb)

theorem Holds.use (hold : h.Holds blocks) (hb : b ∈ blocks) :
    Holds { h with history := h.history ++ [.use b] } blocks :=
  ⟨Custody.replay_use hold.held (List.mem_toFinset.mpr hb), hold.nodup, hold.known⟩

theorem Holds.release (hold : h.Holds (b :: blocks)) :
    Holds { h with history := h.history ++ [.release b] } blocks := by
  obtain ⟨hnew, hnodup⟩ := List.nodup_cons.mp hold.nodup
  have hheld := hold.held
  rw [List.toFinset_cons] at hheld
  refine ⟨?_, hnodup, fun c hc => hold.known c (List.mem_cons_of_mem b hc)⟩
  exact Custody.replay_release hheld (by simpa using hnew) (by simp [depends])

/-- `malloc` adds a block, or some request is not granted. -/
theorem malloc_meets (hold : h.Holds blocks) : (malloc grants).Meets h (fun p t =>
    t.Holds (p.toList ++ blocks) ∧ (p = none → ∃ n, grants n = false)) E := by
  cases hgrant : grants h.requests with
  | true =>
      refine Or.inl ⟨some h.requests, _, ?_, hold.acquire, fun hnone => absurd hnone (Option.some_ne_none _)⟩
      rw [malloc, Attempt.on_bind_of_ok Attempt.on_get, if_pos hgrant]
      rfl
  | false =>
      refine Or.inl ⟨none, ⟨h.requests + 1, h.history⟩, ?_, ⟨hold.held, hold.nodup, ?_⟩,
        fun _ => ⟨h.requests, hgrant⟩⟩
      · rw [malloc, Attempt.on_bind_of_ok Attempt.on_get, hgrant]
        rfl
      · intro b hb
        exact Nat.lt_succ_of_lt (hold.known b hb)

/-- Only live blocks are touched. -/
theorem touch_meets (hold : h.Holds blocks) (hused : ∀ b ∈ used, b ∈ blocks) :
    (touch used).Meets h (fun _ t => t.Holds blocks) E := by
  induction used generalizing h with
  | nil => exact Or.inl ⟨(), h, rfl, hold⟩
  | cons b used ih =>
      have hlive := hold.use (hused b List.mem_cons_self)
      rcases ih hlive fun c hc => hused c (List.mem_cons_of_mem b hc) with
        ⟨_, t, hrest, ht⟩ | ⟨e, t, hrest, ht⟩
      · exact Or.inl ⟨(), t, hrest, ht⟩
      · exact Or.inr ⟨e, t, hrest, ht⟩

/-- What is freed was live, and the rest stays. -/
theorem free_meets (hold : h.Holds (used ++ blocks)) :
    (free used).Meets h (fun _ t => t.Holds blocks) E := by
  induction used generalizing h with
  | nil => exact Or.inl ⟨(), h, rfl, hold⟩
  | cons b used ih =>
      rcases ih hold.release with ⟨_, t, hrest, ht⟩ | ⟨e, t, hrest, ht⟩
      · exact Or.inl ⟨(), t, hrest, ht⟩
      · exact Or.inr ⟨e, t, hrest, ht⟩

/-- `realloc` puts a new block in the place of the old one, or some request is not granted. -/
theorem realloc_meets (hold : h.Holds (b :: blocks)) : (realloc grants b).Meets h (fun p t =>
    (∃ new, p = some new ∧ t.Holds (new :: blocks)) ∨
      p = none ∧ t.Holds (b :: blocks) ∧ ∃ n, grants n = false) E := by
  refine (malloc_meets hold).bind ?_
  rintro p t ⟨ht, hnone⟩
  cases p with
  | none => exact Or.inl ⟨none, t, rfl, Or.inr ⟨rfl, ht, hnone rfl⟩⟩
  | some new =>
      have hswapped : t.Holds ([b] ++ new :: blocks) := ht.perm (List.Perm.swap ..)
      refine (free_meets hswapped).bind ?_
      intro _ u hu
      exact Or.inl ⟨some new, u, rfl, Or.inl ⟨new, rfl, hu⟩⟩

end Rules

end Allocator

end OtusCProg.Library
