import Mathlib.Algebra.BigOperators.Group.List.Basic
import Mathlib.Data.Int.Notation
import Mathlib.Data.List.Basic
import Mathlib.Logic.Function.Basic

/-!
# Datasets of netCDF

A dataset as the documentation of netCDF describes it, and the library that keeps
datasets in files as a parameter: what a call answers is its own affair, but one
that answers `NC_NOERR` has done to its dataset what is documented. A dataset is
in its file when it has been closed. Before that it may have been written there
at any time, or not.
-/

namespace OtusCProg.Library

def NC_NOERR : ℤ := 0

/-- The length that `nc_def_dim` takes for a dimension without end. -/
def NC_UNLIMITED : ℕ := 0

/-- The dimensions with their lengths, an unlimited one without; the variables with the ids of
their dimensions; the attributes; the values by variable and index; and how far each dimension has
been written. -/
structure Dataset (R : Type) where
  dims : List (String × Option ℕ)
  vars : List (String × List ℕ)
  atts : List (ℕ × String × String)
  value : String → List ℕ → Option R
  reach : ℕ → ℕ

/-- The index lies in the box of `count` cells from `start` on. -/
def inBox : List ℕ → List ℕ → List ℕ → Bool
  | [], [], [] => true
  | s :: start, c :: count, i :: index => decide (s ≤ i ∧ i < s + c) && inBox start count index
  | _, _, _ => false

/-- The place of the index in the box, where the last dimension changes fastest. -/
def boxOffset : List ℕ → List ℕ → List ℕ → ℕ
  | s :: start, _ :: count, i :: index => (i - s) * count.prod + boxOffset start count index
  | _, _, _ => 0

/-- Where the box ends along a dimension. -/
def boxEnd (dimid : ℕ) : List ℕ → List ℕ → List ℕ → ℕ
  | d :: dimids, s :: start, c :: count =>
      max (if d = dimid then s + c else 0) (boxEnd dimid dimids start count)
  | _, _, _ => 0

namespace Dataset
variable {R : Type} (d : Dataset R)

def empty : Dataset R := ⟨[], [], [], fun _ _ => none, fun _ => 0⟩

def def_dim (name : String) (len : ℕ) : Dataset R :=
  { d with dims := d.dims ++ [(name, if len = NC_UNLIMITED then none else some len)] }

def def_var (name : String) (dimids : List ℕ) : Dataset R :=
  { d with vars := d.vars ++ [(name, dimids)] }

/-- The first `len` characters of the text are the attribute. -/
def put_att (varid : ℕ) (name : String) (len : ℕ) (op : String) : Dataset R :=
  { d with atts := d.atts ++ [(varid, name, String.ofList (op.toList.take len))] }

/-- The length of a dimension, that of an unlimited one the highest written index plus one. -/
def length (dimid : ℕ) : ℕ :=
  match d.dims[dimid]? with
  | some (_, some len) => len
  | some (_, none) => d.reach dimid
  | none => 0

/-- The cells of a box are written, if it has any. -/
def put (varid : ℕ) (start count : List ℕ) (op : List R) : Dataset R :=
  match d.vars[varid]? with
  | none => d
  | some (name, dimids) =>
      { d with
        value := fun v index =>
          if v = name ∧ inBox start count index = true then op[boxOffset start count index]?
          else d.value v index
        reach := fun dimid =>
          if 0 ∈ count then d.reach dimid
          else max (d.reach dimid) (boxEnd dimid dimids start count) }

/-- A whole variable is written, as long as its dimensions are. -/
def put_all (varid : ℕ) (op : List R) : Dataset R :=
  let shape := (d.vars[varid]?.map fun var => var.2.map d.length).getD []
  d.put varid (shape.map fun _ => 0) shape op

variable {d}

@[simp] theorem dims_put (varid : ℕ) (start count : List ℕ) (op : List R) :
    (d.put varid start count op).dims = d.dims := by
  unfold put
  cases d.vars[varid]? <;> rfl

@[simp] theorem vars_put (varid : ℕ) (start count : List ℕ) (op : List R) :
    (d.put varid start count op).vars = d.vars := by
  unfold put
  cases d.vars[varid]? <;> rfl

theorem value_put {varid : ℕ} {name : String} {dimids : List ℕ}
    (hvar : d.vars[varid]? = some (name, dimids)) (start count : List ℕ) (op : List R) (v : String)
    (index : List ℕ) : (d.put varid start count op).value v index =
      if v = name ∧ inBox start count index = true then op[boxOffset start count index]?
      else d.value v index := by
  unfold put
  rw [hvar]

theorem reach_put {varid : ℕ} {name : String} {dimids : List ℕ}
    (hvar : d.vars[varid]? = some (name, dimids)) (start count : List ℕ) (op : List R) (dimid : ℕ) :
    (d.put varid start count op).reach dimid =
      if 0 ∈ count then d.reach dimid
      else max (d.reach dimid) (boxEnd dimid dimids start count) := by
  unfold put
  rw [hvar]

/-- The other variables keep their values. -/
theorem value_put_of_ne {varid : ℕ} {name v : String} {dimids : List ℕ}
    (hvar : d.vars[varid]? = some (name, dimids)) (hne : v ≠ name) (start count : List ℕ)
    (op : List R) (index : List ℕ) : (d.put varid start count op).value v index = d.value v index := by
  rw [value_put hvar, if_neg fun h => hne h.1]

/-- What lies before the box along its first dimension keeps its value. -/
theorem value_put_of_lt (varid : ℕ) {s i : ℕ} (h : i < s) (start count : List ℕ) (op : List R)
    (v : String) (index : List ℕ) :
    (d.put varid (s :: start) count op).value v (i :: index) = d.value v (i :: index) := by
  rcases hvar : d.vars[varid]? with _ | ⟨name, dimids⟩
  · unfold put
    rw [hvar]
  · rw [value_put hvar, if_neg]
    rintro ⟨-, hbox⟩
    cases count with
    | nil => cases hbox
    | cons c count =>
        have hle : s ≤ i ∧ i < s + c := of_decide_eq_true (Bool.and_eq_true_iff.mp hbox).1
        omega

end Dataset

/-- The calls of the library, on a state of its own. Each answers with a code; those that return an
id or a length answer with it too. -/
structure Netcdf (W R : Type) where
  nc_create : String → W → ℤ × ℕ × W
  nc_def_dim : ℕ → String → ℕ → W → ℤ × ℕ × W
  nc_def_var : ℕ → String → List ℕ → W → ℤ × ℕ × W
  nc_put_att_text : ℕ → ℕ → String → ℕ → String → W → ℤ × Unit × W
  nc_enddef : ℕ → W → ℤ × Unit × W
  nc_put_var_double : ℕ → ℕ → List R → W → ℤ × Unit × W
  nc_open : String → W → ℤ × ℕ × W
  nc_inq_dimid : ℕ → String → W → ℤ × ℕ × W
  nc_inq_dimlen : ℕ → ℕ → W → ℤ × ℕ × W
  nc_inq_varid : ℕ → String → W → ℤ × ℕ × W
  nc_put_var1_double : ℕ → ℕ → List ℕ → R → W → ℤ × Unit × W
  nc_put_vara_double : ℕ → ℕ → List ℕ → List ℕ → List R → W → ℤ × Unit × W
  nc_close : ℕ → W → ℤ × Unit × W

section Documented
variable {W R α : Type}

/-- What a reader of the file finds, and what each open dataset is. -/
structure Observed (W R : Type) where
  file : W → Option (Dataset R)
  view : W → ℕ → Option (Dataset R)

/-- A call on an open dataset does its work where it answers `NC_NOERR`, and else leaves the dataset.
The file is as before, or is the dataset. -/
def Observed.Does (o : Observed W R) (ncid : ℕ) (call : W → ℤ × α × W)
    (work : Dataset R → α → Dataset R → Prop) : Prop :=
  ∀ w d, o.view w ncid = some d →
    ∃ d', o.view (call w).2.2 ncid = some d' ∧ ((call w).1 = NC_NOERR → work d (call w).2.1 d') ∧
      ((call w).1 ≠ NC_NOERR → d' = d) ∧
      (o.file (call w).2.2 = o.file w ∨ o.file (call w).2.2 = some d')

/-- What is documented of the calls. -/
structure Netcdf.Documented (lib : Netcdf W R) (filename : String) (o : Observed W R) : Prop where
  create_file : ∀ w, o.file (lib.nc_create filename w).2.2 = o.file w ∨
    o.file (lib.nc_create filename w).2.2 = some .empty
  create_view : ∀ w, (lib.nc_create filename w).1 = NC_NOERR →
    o.view (lib.nc_create filename w).2.2 (lib.nc_create filename w).2.1 = some .empty
  def_dim : ∀ ncid name len, o.Does ncid (lib.nc_def_dim ncid name len) fun d dimid d' =>
    dimid = d.dims.length ∧ d' = d.def_dim name len
  def_var : ∀ ncid name dimids, o.Does ncid (lib.nc_def_var ncid name dimids) fun d varid d' =>
    varid = d.vars.length ∧ d' = d.def_var name dimids
  put_att : ∀ ncid varid name len op, o.Does ncid (lib.nc_put_att_text ncid varid name len op)
    fun d _ d' => d' = d.put_att varid name len op
  enddef : ∀ ncid, o.Does ncid (lib.nc_enddef ncid) fun d _ d' => d' = d
  put_var : ∀ ncid varid op, o.Does ncid (lib.nc_put_var_double ncid varid op) fun d _ d' =>
    d' = d.put_all varid op
  open_file : ∀ w, o.file (lib.nc_open filename w).2.2 = o.file w
  open_view : ∀ w, (lib.nc_open filename w).1 = NC_NOERR → ∃ d, o.file w = some d ∧
    o.view (lib.nc_open filename w).2.2 (lib.nc_open filename w).2.1 = some d
  inq_dimid : ∀ ncid name, o.Does ncid (lib.nc_inq_dimid ncid name) fun d dimid d' =>
    d' = d ∧ d.dims[dimid]?.map Prod.fst = some name
  inq_dimlen : ∀ ncid dimid, o.Does ncid (lib.nc_inq_dimlen ncid dimid) fun d len d' =>
    d' = d ∧ len = d.length dimid
  inq_varid : ∀ ncid name, o.Does ncid (lib.nc_inq_varid ncid name) fun d varid d' =>
    d' = d ∧ d.vars[varid]?.map Prod.fst = some name
  put_var1 : ∀ ncid varid index op, o.Does ncid (lib.nc_put_var1_double ncid varid index op)
    fun d _ d' => d' = d.put varid index (index.map fun _ => 1) [op]
  put_vara : ∀ ncid varid start count op,
    o.Does ncid (lib.nc_put_vara_double ncid varid start count op) fun d _ d' =>
      d' = d.put varid start count op
  close_file : ∀ ncid w d, o.view w ncid = some d →
    o.file (lib.nc_close ncid w).2.2 = o.file w ∨ o.file (lib.nc_close ncid w).2.2 = some d
  close_done : ∀ ncid w d, o.view w ncid = some d → (lib.nc_close ncid w).1 = NC_NOERR →
    o.file (lib.nc_close ncid w).2.2 = some d

end Documented

/-! ## A library in memory -/

/-- One file and the open datasets. -/
structure Datasets (R : Type) where
  file : Option (Dataset R)
  open_sets : List (Option (Dataset R))

namespace Datasets
variable {R α : Type}

def NC_EBADID : ℤ := -33
def ENOENT : ℤ := 2

theorem NC_EBADID_ne : NC_EBADID ≠ NC_NOERR := by decide

def view (w : Datasets R) (ncid : ℕ) : Option (Dataset R) := (w.open_sets[ncid]?).join

def observed : Observed (Datasets R) R := ⟨Datasets.file, Datasets.view⟩

/-- Work on an open dataset, where it can be done. With `through` it is in the file at once. -/
def work (through : Bool) (ncid : ℕ) (default : α) (f : Dataset R → Option (α × Dataset R))
    (w : Datasets R) : ℤ × α × Datasets R :=
  match (w.view ncid).bind f with
  | some (a, d) => (NC_NOERR, a, ⟨if through then some d else w.file, w.open_sets.set ncid (some d)⟩)
  | none => (NC_EBADID, default, w)

/-- The dataset gets the next number. -/
def opened (w : Datasets R) (file : Option (Dataset R)) (d : Dataset R) : ℤ × ℕ × Datasets R :=
  (NC_NOERR, w.open_sets.length, ⟨file, w.open_sets ++ [some d]⟩)

/-- The library that succeeds wherever it can. -/
def library (through : Bool) : Netcdf (Datasets R) R where
  nc_create _ w := w.opened (if through then some .empty else w.file) .empty
  nc_def_dim ncid name len := work through ncid 0 fun d => some (d.dims.length, d.def_dim name len)
  nc_def_var ncid name dimids :=
    work through ncid 0 fun d => some (d.vars.length, d.def_var name dimids)
  nc_put_att_text ncid varid name len op :=
    work through ncid () fun d => some ((), d.put_att varid name len op)
  nc_enddef ncid := work through ncid () fun d => some ((), d)
  nc_put_var_double ncid varid op := work through ncid () fun d => some ((), d.put_all varid op)
  nc_open _ w :=
    match w.file with
    | some d => w.opened w.file d
    | none => (ENOENT, 0, w)
  nc_inq_dimid ncid name := work through ncid 0 fun d =>
    (d.dims.findIdx? fun dim => dim.1 = name).map fun dimid => (dimid, d)
  nc_inq_dimlen ncid dimid := work through ncid 0 fun d => some (d.length dimid, d)
  nc_inq_varid ncid name := work through ncid 0 fun d =>
    (d.vars.findIdx? fun var => var.1 = name).map fun varid => (varid, d)
  nc_put_var1_double ncid varid index op := work through ncid () fun d =>
    some ((), d.put varid index (index.map fun _ => 1) [op])
  nc_put_vara_double ncid varid start count op := work through ncid () fun d =>
    some ((), d.put varid start count op)
  nc_close ncid w :=
    match w.view ncid with
    | some d => (NC_NOERR, (), ⟨some d, w.open_sets.set ncid none⟩)
    | none => (NC_EBADID, (), w)

theorem view_set {w : Datasets R} {ncid : ℕ} {d d' : Dataset R} (h : w.view ncid = some d)
    (file : Option (Dataset R)) : view ⟨file, w.open_sets.set ncid (some d')⟩ ncid = some d' := by
  have hlt : ncid < w.open_sets.length := by
    by_contra hge
    rw [view, List.getElem?_eq_none (Nat.le_of_not_lt hge)] at h
    cases h
  rw [view, List.getElem?_set_self hlt]
  rfl

theorem view_opened (w : Datasets R) (file : Option (Dataset R)) (d : Dataset R) :
    view (w.opened file d).2.2 (w.opened file d).2.1 = some d := by
  rw [opened, view, List.getElem?_concat_length]
  rfl

/-- Work on a dataset changes no file, where the library does not write at once. -/
theorem file_work (ncid : ℕ) (default : α) (f : Dataset R → Option (α × Dataset R))
    (w : Datasets R) : (work false ncid default f w).2.2.file = w.file := by
  unfold work
  split <;> rfl

theorem file_nc_close {through : Bool} {ncid : ℕ} {w : Datasets R}
    (h : ((library through : Netcdf _ R).nc_close ncid w).1 ≠ NC_NOERR) :
    ((library through : Netcdf _ R).nc_close ncid w).2.2.file = w.file := by
  cases hview : w.view ncid with
  | none => simp only [library, hview]
  | some d =>
      simp only [library, hview] at h
      exact absurd rfl h

/-- Work that is done is what it should be. -/
theorem does_work (through : Bool) (ncid : ℕ) (default : α) {f : Dataset R → Option (α × Dataset R)}
    {rel : Dataset R → α → Dataset R → Prop} (h : ∀ d a d', f d = some (a, d') → rel d a d') :
    observed.Does ncid (work through ncid default f) rel := by
  intro w d hview
  have hview' : w.view ncid = some d := hview
  cases hf : f d with
  | none =>
      have hwork : work through ncid default f w = (NC_EBADID, default, w) := by
        rw [work, hview', Option.bind_some, hf]
      rw [hwork]
      exact ⟨d, hview, fun hcode => absurd hcode NC_EBADID_ne, fun _ => rfl, Or.inl rfl⟩
  | some out =>
      obtain ⟨a, d'⟩ := out
      have hwork : work through ncid default f w =
          (NC_NOERR, a, ⟨if through then some d' else w.file, w.open_sets.set ncid (some d')⟩) := by
        rw [work, hview', Option.bind_some, hf]
      rw [hwork]
      refine ⟨d', view_set hview' _, fun _ => h d a d' hf, fun hcode => absurd rfl hcode, ?_⟩
      cases through with
      | true => exact Or.inr rfl
      | false => exact Or.inl rfl

/-- The library in memory is as documented, whether or not it writes at once. -/
theorem documented_library (through : Bool) (filename : String) :
    (library through : Netcdf (Datasets R) R).Documented filename observed where
  create_file w := by
    cases through with
    | true => exact Or.inr rfl
    | false => exact Or.inl rfl
  create_view w _ := view_opened ..
  def_dim ncid name len := does_work _ _ _ fun d a d' h => by
    obtain ⟨rfl, rfl⟩ := Prod.mk.inj (Option.some.inj h)
    exact ⟨rfl, rfl⟩
  def_var ncid name dimids := does_work _ _ _ fun d a d' h => by
    obtain ⟨rfl, rfl⟩ := Prod.mk.inj (Option.some.inj h)
    exact ⟨rfl, rfl⟩
  put_att ncid varid name len op := does_work _ _ _ fun d a d' h =>
    (Prod.mk.inj (Option.some.inj h)).2.symm
  enddef ncid := does_work _ _ _ fun d a d' h => (Prod.mk.inj (Option.some.inj h)).2.symm
  put_var ncid varid op := does_work _ _ _ fun d a d' h =>
    (Prod.mk.inj (Option.some.inj h)).2.symm
  open_file w := by
    obtain ⟨file, open_sets⟩ := w
    cases file <;> rfl
  open_view w hcode := by
    obtain ⟨file, open_sets⟩ := w
    cases file with
    | none => cases hcode
    | some d => exact ⟨d, rfl, view_opened ..⟩
  inq_dimid ncid name := does_work _ _ _ fun d a d' h => by
    obtain ⟨dimid, hfind, heq⟩ := Option.map_eq_some_iff.mp h
    obtain ⟨rfl, rfl⟩ := Prod.mk.inj heq
    obtain ⟨hlt, hname, -⟩ := List.findIdx?_eq_some_iff_getElem.mp hfind
    rw [List.getElem?_eq_getElem hlt]
    exact ⟨rfl, congrArg some (by simpa using hname)⟩
  inq_dimlen ncid dimid := does_work _ _ _ fun d a d' h => by
    obtain ⟨rfl, rfl⟩ := Prod.mk.inj (Option.some.inj h)
    exact ⟨rfl, rfl⟩
  inq_varid ncid name := does_work _ _ _ fun d a d' h => by
    obtain ⟨varid, hfind, heq⟩ := Option.map_eq_some_iff.mp h
    obtain ⟨rfl, rfl⟩ := Prod.mk.inj heq
    obtain ⟨hlt, hname, -⟩ := List.findIdx?_eq_some_iff_getElem.mp hfind
    rw [List.getElem?_eq_getElem hlt]
    exact ⟨rfl, congrArg some (by simpa using hname)⟩
  put_var1 ncid varid index op := does_work _ _ _ fun d a d' h =>
    (Prod.mk.inj (Option.some.inj h)).2.symm
  put_vara ncid varid start count op := does_work _ _ _ fun d a d' h =>
    (Prod.mk.inj (Option.some.inj h)).2.symm
  close_file ncid w d hview := by
    have hview' : w.view ncid = some d := hview
    have hclose : (library through : Netcdf (Datasets R) R).nc_close ncid w =
        (NC_NOERR, (), ⟨some d, w.open_sets.set ncid none⟩) := by
      simp only [library, hview']
    rw [hclose]
    exact Or.inr rfl
  close_done ncid w d hview _ := by
    have hview' : w.view ncid = some d := hview
    have hclose : (library through : Netcdf (Datasets R) R).nc_close ncid w =
        (NC_NOERR, (), ⟨some d, w.open_sets.set ncid none⟩) := by
      simp only [library, hview']
    rw [hclose]
    rfl

end Datasets

end OtusCProg.Library
