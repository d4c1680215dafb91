import OtusCProg.Library.CText

/-!
# Resolving a path by its text

A path is read component by component, without looking at any file: an empty
component and `.` stay where they are, `..` goes up, and a name goes down. A
path is confined when no part of it leads above the directory it starts from.
-/

namespace OtusCProg.Library

/-- What stands between the slashes of a path. -/
def components (path : Text) : List Text := path.splitOn 47

/-- One component, read in the directory that `dirs` leads to from the start; `none` above it. -/
def descend (dirs : List Text) (component : Text) : Option (List Text) :=
  if component = [] ∨ component = text "." then some dirs
  else if component = text ".." then
    match dirs with
    | [] => none
    | _ :: dirs => some dirs
  else some (component :: dirs)

/-- The directories between the start and the end of the path. -/
def resolve (path : Text) : Option (List Text) := (components path).foldlM descend []

/-- No part of the path leads above the directory it starts from. -/
def Confined (path : Text) : Prop := (resolve path).isSome

instance (path : Text) : Decidable (Confined path) := inferInstanceAs (Decidable (_ = true))

section Descend
variable {dirs : List Text} {component : Text}

/-- Only `..` can lead above the start. -/
theorem exists_descend (hup : component ≠ text "..") : ∃ dirs', descend dirs component = some dirs' := by
  by_cases hstay : component = [] ∨ component = text "."
  · exact ⟨dirs, if_pos hstay⟩
  · refine ⟨component :: dirs, ?_⟩
    simp only [descend, if_neg hstay, if_neg hup]

theorem exists_foldlM_descend {path : List Text} (hup : ∀ c ∈ path, c ≠ text "..") :
    ∃ dirs', path.foldlM descend dirs = some dirs' := by
  induction path generalizing dirs with
  | nil => exact ⟨dirs, rfl⟩
  | cons c path ih =>
      obtain ⟨hc, hpath⟩ := List.forall_mem_cons.mp hup
      obtain ⟨next, hnext⟩ : ∃ dirs', descend dirs c = some dirs' := exists_descend hc
      obtain ⟨last, hlast⟩ : ∃ dirs', path.foldlM descend next = some dirs' := ih hpath
      refine ⟨last, ?_⟩
      rw [List.foldlM_cons, hnext]
      exact hlast

end Descend

/-- A component stands in the path in one piece. -/
theorem infix_of_mem_components {path component : Text} (h : component ∈ components path) :
    component <:+: path := by
  obtain ⟨i, hi⟩ := List.mem_iff_getElem?.mp h
  have hmem : component ∈ (components path).intersperse [47] := by
    apply List.mem_of_getElem? (i := 2 * i)
    rw [List.getElem?_intersperse_two_mul, hi]
  calc
    component <:+: ((components path).intersperse [47]).flatten := List.infix_of_mem_flatten hmem
    _ = path := List.intercalate_splitOn 47

/-- A path without two dots in a row is confined. -/
theorem confined_of_no_dots {path : Text} (hdots : ¬ text ".." <:+: path) : Confined path := by
  have hup : ∀ c ∈ components path, c ≠ text ".." := by
    intro c hc heq
    apply hdots
    rw [← heq]
    exact infix_of_mem_components hc
  obtain ⟨dirs, hdirs⟩ : ∃ dirs, (components path).foldlM descend [] = some dirs :=
    exists_foldlM_descend hup
  rw [Confined, resolve, hdirs]
  rfl

/-- Dots between other bytes do not matter, and a way up is fine below the start. -/
example : Confined (text "a/b/../../c.d/./") ∧ ¬ Confined (text "a/../../b") := by decide

end OtusCProg.Library
