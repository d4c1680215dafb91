import Mathlib.Data.List.Basic
import Mathlib.Logic.Function.Basic

/-!
# Singly linked chains

A heap maps addresses to cells, and a chain is a list of cells each of which
points to the next. The rules say what storing into a cell, linking a new last
cell and taking the first cell do to a chain.
-/

namespace OtusCProg.Library

/-- A cell of a singly linked list. -/
structure Cell (α : Type*) where
  value : α
  next : Option Nat

/-- The cells that are allocated, by address. -/
abbrev Heap (α : Type*) := Nat → Option (Cell α)

variable {α : Type*} {heap heap' : Heap α} {p next : Option Nat} {a b : Nat} {x y : α}
  {cells : List (Nat × α)}

/-- From `p` the chain runs through exactly these addresses and values. -/
def Chain (heap : Heap α) (p : Option Nat) : List (Nat × α) → Prop
  | [] => p = none
  | (a, x) :: rest => p = some a ∧ ∃ next, heap a = some ⟨x, next⟩ ∧ Chain heap next rest

theorem chain_none (h : Chain heap none cells) : cells = [] := by
  cases cells with
  | nil => rfl
  | cons cell rest => cases h.1

theorem chain_some (h : Chain heap (some a) cells) :
    ∃ x next rest, cells = (a, x) :: rest ∧ heap a = some ⟨x, next⟩ ∧ Chain heap next rest := by
  cases cells with
  | nil => cases h
  | cons cell rest =>
      obtain ⟨ha, next, hcell, hrest⟩ := h
      obtain rfl := Option.some.inj ha
      exact ⟨cell.2, next, rest, rfl, hcell, hrest⟩

/-- The cells of a chain are determined by its first address. -/
theorem Chain.unique {cells' : List (Nat × α)} (h : Chain heap p cells) (h' : Chain heap p cells') :
    cells = cells' := by
  induction cells generalizing p cells' with
  | nil =>
      obtain rfl : p = none := h
      exact (chain_none h').symm
  | cons cell rest ih =>
      obtain ⟨rfl, next, hcell, hrest⟩ := h
      obtain ⟨x, next', rest', rfl, hcell', hrest'⟩ := chain_some h'
      obtain ⟨rfl, rfl⟩ := Cell.mk.inj (Option.some.inj (hcell.symm.trans hcell'))
      rw [ih hrest hrest']

/-- A chain depends only on its own cells. -/
theorem Chain.frame (h : Chain heap p cells)
    (hsame : ∀ c ∈ cells.map Prod.fst, heap' c = heap c) : Chain heap' p cells := by
  induction cells generalizing p with
  | nil => exact h
  | cons cell rest ih =>
      obtain ⟨hp, next, hcell, hrest⟩ := h
      refine ⟨hp, next, ?_, ih hrest fun c hc => hsame c (List.mem_cons_of_mem _ hc)⟩
      rw [hsame cell.1 List.mem_cons_self]
      exact hcell

theorem Chain.update_of_notMem (h : Chain heap p cells) {cell : Option (Cell α)}
    (ha : a ∉ cells.map Prod.fst) : Chain (Function.update heap a cell) p cells := by
  apply h.frame
  intro c hc
  refine Function.update_of_ne ?_ _ _
  rintro rfl
  exact ha hc

/-- Every address of a chain is allocated. -/
theorem Chain.allocated (h : Chain heap p cells) (ha : a ∈ cells.map Prod.fst) :
    heap a ≠ none := by
  induction cells generalizing p with
  | nil => cases ha
  | cons cell rest ih =>
      obtain ⟨hp, next, hcell, hrest⟩ := h
      rcases List.mem_cons.mp ha with rfl | ha
      · rw [hcell]
        exact Option.some_ne_none _
      · exact ih hrest ha

theorem Chain.last (h : Chain heap p (cells ++ [(b, y)])) : heap b = some ⟨y, none⟩ := by
  induction cells generalizing p with
  | nil =>
      obtain ⟨_, next, hcell, hnext⟩ := h
      rw [hcell]
      exact congrArg _ (congrArg _ hnext)
  | cons cell rest ih =>
      obtain ⟨_, next, _, hrest⟩ := h
      exact ih hrest

/-- The store that makes the fresh cell `a` the successor of `b`. -/
def linkAfter (heap : Heap α) (b a : Nat) (y x : α) : Heap α :=
  Function.update (Function.update heap a (some ⟨x, none⟩)) b (some ⟨y, some a⟩)

/-- Linking a fresh cell behind the last one extends the chain by it. -/
theorem Chain.linkAfter (h : Chain heap p (cells ++ [(b, y)]))
    (hnodup : ((cells ++ [(b, y)]).map Prod.fst).Nodup)
    (ha : a ∉ (cells ++ [(b, y)]).map Prod.fst) :
    Chain (linkAfter heap b a y x) p (cells ++ [(b, y), (a, x)]) := by
  induction cells generalizing p with
  | nil =>
      have hab : a ≠ b := by simpa using ha
      refine ⟨h.1, some a, Function.update_self .., rfl, none, ?_, rfl⟩
      rw [Library.linkAfter, Function.update_of_ne hab, Function.update_self]
  | cons cell rest ih =>
      obtain ⟨hp, next, hcell, hrest⟩ := h
      simp only [List.cons_append, List.map_cons, List.nodup_cons, List.mem_cons, not_or] at hnodup ha
      have hb : cell.1 ≠ b := by
        rintro rfl
        exact hnodup.1 (by simp)
      refine ⟨hp, next, ?_, ih hrest hnodup.2 ha.2⟩
      rw [Library.linkAfter, Function.update_of_ne hb, Function.update_of_ne (Ne.symm ha.1)]
      exact hcell

/-- One fresh cell on its own is a chain. -/
theorem chain_singleton : Chain (Function.update heap a (some ⟨x, none⟩)) (some a) [(a, x)] :=
  ⟨rfl, none, Function.update_self .., rfl⟩

end OtusCProg.Library
