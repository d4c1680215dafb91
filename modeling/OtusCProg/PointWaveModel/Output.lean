import OtusCProg.PointWaveModel.Decay
import OtusCProg.PointWaveModel.Netcdf

/-!
# Whole records

A record is three writes, of which the first makes the time dimension longer.
What fails behind it returns with the dataset open, and nothing takes the write
of the time back. Whether the record without its slices is in the file is then up
to the library.
-/

namespace OtusCProg.PointWaveModel
open Library

/-! ## One call of the library -/

section Steps
variable {W R α : Type} {o : Observed W R} {ncid : ℕ} {w : W} {call : W → ℤ × α × W}
  {V : Dataset R → Prop} {V' : α → Dataset R → Prop} {F F' : Option (Dataset R) → Prop}

/-- The open dataset and the file, in the course of a call. -/
structure During (o : Observed W R) (ncid : ℕ) (V : Dataset R → Prop)
    (F : Option (Dataset R) → Prop) (w : W) : Prop where
  view : ∃ d, o.view w ncid = some d ∧ V d
  file : F (o.file w)

/-- The function returned early, with an error. -/
def Early (o : Observed W R) (F : Option (Dataset R) → Prop) (err : ℤ) (w : W) : Prop :=
  err ≠ NC_NOERR ∧ F (o.file w)

theorem nc_of_ok (h : (call w).1 = NC_NOERR) : (nc call).on w = (.ok (call w).2.1, (call w).2.2) := by
  unfold nc HANDLE_ERROR
  rw [Attempt.on_bind_of_ok Attempt.on_get, Attempt.on_bind_of_ok Attempt.on_set,
    if_neg (not_not.mpr h)]
  rfl

theorem nc_of_error (h : (call w).1 ≠ NC_NOERR) :
    (nc call).on w = (.error (call w).1, (call w).2.2) := by
  unfold nc HANDLE_ERROR
  rw [Attempt.on_bind_of_ok Attempt.on_get, Attempt.on_bind_of_ok Attempt.on_set, if_pos h]
  rfl

/-- A call on the open dataset does its work, or the function returns with the dataset as it was. -/
theorem meets_nc {work : Dataset R → α → Dataset R → Prop} (hdoes : o.Does ncid call work)
    (hwork : ∀ d a d', V d → work d a d' → V' a d') (hfail : ∀ d, V d → F (some d))
    (hkeep : ∀ file, F file → F' file) (hdone : ∀ a d, V' a d → F' (some d))
    (h : During o ncid V F w) :
    (nc call).Meets w (fun a t => During o ncid (V' a) F' t) (Early o F) := by
  obtain ⟨⟨d, hview, hV⟩, hF⟩ := h
  obtain ⟨d', hview', hok, herror, hfile⟩ := hdoes w d hview
  by_cases hcode : (call w).1 = NC_NOERR
  · have hV' := hwork d _ d' hV (hok hcode)
    refine Or.inl ⟨_, _, nc_of_ok hcode, ⟨d', hview', hV'⟩, ?_⟩
    rcases hfile with hsame | hthrough
    · rw [hsame]
      exact hkeep _ hF
    · rw [hthrough]
      exact hdone _ d' hV'
  · obtain rfl := herror hcode
    refine Or.inr ⟨_, _, nc_of_error hcode, hcode, ?_⟩
    rcases hfile with hsame | hthrough
    · rw [hsame]
      exact hF
    · rw [hthrough]
      exact hfail d' hV

/-- A call behind which the file is as it may have been before. -/
theorem meets_nc_same {work : Dataset R → α → Dataset R → Prop} (hdoes : o.Does ncid call work)
    (hwork : ∀ d a d', V d → work d a d' → V' a d') (hfail : ∀ d, V d → F (some d))
    (hdone : ∀ a d, V' a d → F (some d)) (h : During o ncid V F w) :
    (nc call).Meets w (fun a t => During o ncid (V' a) F t) (Early o F) :=
  meets_nc hdoes hwork hfail (fun _ hF => hF) hdone h

theorem meets_malloc {Q : W → Prop} {succeeds : Bool} (h : Q w) (hF : F (o.file w)) :
    (malloc succeeds).Meets w (fun _ t => Q t) (Early o F) := by
  cases succeeds with
  | true => exact Attempt.meets_pure h
  | false => exact Attempt.meets_throw ⟨by decide, hF⟩

/-- Behind a `nc_close` that succeeds, the file is the dataset. -/
theorem meets_nc_close {lib : Netcdf W R} {filename : String} (hdoc : lib.Documented filename o)
    (hfail : ∀ d, V d → F (some d)) (h : During o ncid V F w) :
    (nc (lib.nc_close ncid)).Meets w (fun _ t => ∃ d, o.file t = some d ∧ V d) (Early o F) := by
  obtain ⟨⟨d, hview, hV⟩, hF⟩ := h
  by_cases hcode : (lib.nc_close ncid w).1 = NC_NOERR
  · exact Or.inl ⟨_, _, nc_of_ok hcode, d, hdoc.close_done ncid w d hview hcode, hV⟩
  · refine Or.inr ⟨_, _, nc_of_error hcode, hcode, ?_⟩
    rcases hdoc.close_file ncid w d hview with hsame | hthrough
    · rw [hsame]
      exact hF
    · rw [hthrough]
      exact hfail d hV

end Steps

/-! ## The file -/

section File
variable {R : Type} {d d' : Dataset R} {dimid varid : ℕ} {nfreq ndir : Option ℕ}

def dim_layout (nfreq ndir : Option ℕ) : List (String × Option ℕ) :=
  [(FREQUENCY, nfreq), (DIRECTION, ndir), ("time", none)]

def var_layout : List (String × List ℕ) :=
  [(FREQUENCY, [0]), (DIRECTION, [1]), ("time", [2]), ("EnergySpectra", [2, 0]), (ENERGY, [2, 1, 0])]

/-- The dataset is one that `create_file` makes, or the beginning of one. -/
def LaidOut (d : Dataset R) : Prop :=
  ∃ nfreq ndir, d.dims <+: dim_layout nfreq ndir ∧ d.vars <+: var_layout

/-- The dataset has all its dimensions and variables. -/
def Complete (d : Dataset R) : Prop :=
  ∃ nfreq ndir, d.dims = dim_layout nfreq ndir ∧ d.vars = var_layout

/-- What a reader finds as the length of the time dimension; a file that is not there has none. -/
def time_len (file : Option (Dataset R)) : ℕ :=
  (file.bind fun d => (d.dims.findIdx? fun dim => dim.1 = "time").map d.length).getD 0

/-- What a reader finds in a cell. -/
def cell (file : Option (Dataset R)) (v : String) (index : List ℕ) : Option R :=
  file.bind fun d => d.value v index

theorem Complete.laidOut (h : Complete d) : LaidOut d := by
  obtain ⟨nfreq, ndir, hdims, hvars⟩ := h
  exact ⟨nfreq, ndir, hdims ▸ List.prefix_refl _, hvars ▸ List.prefix_refl _⟩

theorem Complete.length_time (h : Complete d) : d.length 2 = d.reach 2 := by
  obtain ⟨nfreq, ndir, hdims, -⟩ := h
  rw [Dataset.length, hdims]
  rfl

/-- A name has one place, in a list as in its beginnings. -/
theorem place_of_prefix {α β : Type} {l l' : List (α × β)} (h : l <+: l')
    (hnodup : (l'.map Prod.fst).Nodup) {i k : ℕ} {a : α} (hi : l[i]?.map Prod.fst = some a)
    (hk : l'[k]?.map Prod.fst = some a) : i = k ∧ k < l.length := by
  have hlt : i < l.length := by
    obtain ⟨_, hget, -⟩ := Option.map_eq_some_iff.mp hi
    exact (List.getElem?_eq_some_iff.mp hget).1
  obtain ⟨t, rfl⟩ := h
  have hsame : ((l ++ t).map Prod.fst)[i]? = ((l ++ t).map Prod.fst)[k]? := by
    rw [List.getElem?_map, List.getElem?_map, List.getElem?_append_left hlt, hi, hk]
  have hik : i = k := (List.getElem?_inj (by simpa using Nat.lt_add_right _ hlt) hnodup).mp hsame
  exact ⟨hik, hik ▸ hlt⟩

theorem nodup_dim_layout : ((dim_layout nfreq ndir).map Prod.fst).Nodup := by
  change [FREQUENCY, DIRECTION, "time"].Nodup
  decide

theorem nodup_var_layout : (var_layout.map Prod.fst).Nodup := by
  change [FREQUENCY, DIRECTION, "time", "EnergySpectra", ENERGY].Nodup
  decide

theorem dimid_time (h : d.dims <+: dim_layout nfreq ndir)
    (hname : d.dims[dimid]?.map Prod.fst = some "time") :
    dimid = 2 ∧ d.dims = dim_layout nfreq ndir := by
  obtain ⟨hid, hlt⟩ := place_of_prefix (k := 2) h nodup_dim_layout hname rfl
  exact ⟨hid, h.eq_of_length_le hlt⟩

theorem varid_fullspec (h : d.vars <+: var_layout)
    (hname : d.vars[varid]?.map Prod.fst = some ENERGY) : varid = 4 ∧ d.vars = var_layout := by
  obtain ⟨hid, hlt⟩ := place_of_prefix (k := 4) h nodup_var_layout hname rfl
  exact ⟨hid, h.eq_of_length_le hlt⟩

theorem findIdx?_time (hname : d.dims.findIdx? (fun dim => dim.1 = "time") = some dimid) :
    d.dims[dimid]?.map Prod.fst = some "time" := by
  obtain ⟨hlt, hdim, -⟩ := List.findIdx?_eq_some_iff_getElem.mp hname
  rw [List.getElem?_eq_getElem hlt]
  exact congrArg some (of_decide_eq_true hdim)

theorem Complete.time_len (h : Complete d) : time_len (some d) = d.reach 2 := by
  have hlength := h.length_time
  obtain ⟨nfreq, ndir, hdims, -⟩ := h
  have hfind : d.dims.findIdx? (fun dim => dim.1 = "time") = some 2 := by
    rw [hdims]
    simp [dim_layout, List.findIdx?_cons, FREQUENCY, DIRECTION]
  rw [PointWaveModel.time_len, Option.bind_some, hfind]
  exact hlength

/-- A dataset that nothing was written to along the time has no records. -/
theorem LaidOut.time_len_eq_zero (h : LaidOut d) (hreach : d.reach 2 = 0) : time_len (some d) = 0 := by
  rw [PointWaveModel.time_len, Option.bind_some]
  cases hfind : d.dims.findIdx? fun dim => dim.1 = "time" with
  | none => rfl
  | some dimid =>
      obtain ⟨nfreq, ndir, hprefix, -⟩ := h
      obtain ⟨rfl, hdims⟩ := dimid_time hprefix (findIdx?_time hfind)
      rw [Option.map_some, Option.getD_some, Dataset.length, hdims]
      exact hreach

end File

/-! ## The part under `is_first` -/

section Create
variable {W R : Type} {lib : Netcdf W R} {filename : String} {o : Observed W R} {ncid : ℕ} {w : W}
  {dims : List (String × Option ℕ)} {vars : List (String × List ℕ)} {nfreq ndir : Option ℕ}
  {spec : Spectrum R}

/-- A dataset without records that is on the way. -/
def Stage (dims : List (String × Option ℕ)) (vars : List (String × List ℕ)) (d : Dataset R) : Prop :=
  d.dims = dims ∧ d.vars = vars ∧ d.reach 2 = 0

/-- What is in the file, if it is there, was laid out by `create_file` and has no records. -/
def Unwritten (file : Option (Dataset R)) : Prop :=
  ∀ d, file = some d → LaidOut d ∧ d.reach 2 = 0

theorem Stage.unwritten {d : Dataset R} (h : Stage dims vars d) (hdims : dims <+: dim_layout nfreq ndir)
    (hvars : vars <+: var_layout) : Unwritten (some d) := by
  rintro _ ⟨⟩
  obtain ⟨rfl, rfl, hreach⟩ := h
  exact ⟨⟨nfreq, ndir, hdims, hvars⟩, hreach⟩

theorem meets_def_dim (nfreq ndir : Option ℕ) (hdoc : lib.Documented filename o) {name : String}
    {len : ℕ} {dim : Option ℕ} (hlen : dim = if len = NC_UNLIMITED then none else some len)
    (hdims : dims ++ [(name, dim)] <+: dim_layout nfreq ndir) (hvars : vars <+: var_layout)
    (h : During o ncid (Stage dims vars) Unwritten w) :
    (nc (lib.nc_def_dim ncid name len)).Meets w
      (fun dimid t => dimid = dims.length ∧
        During o ncid (Stage (dims ++ [(name, dim)]) vars) Unwritten t) (Early o Unwritten) := by
  have hmeets : (nc (lib.nc_def_dim ncid name len)).Meets w
      (fun dimid t => During o ncid (fun d => dimid = dims.length ∧
        Stage (dims ++ [(name, dim)]) vars d) Unwritten t) (Early o Unwritten) := by
    apply meets_nc_same (hdoc.def_dim ncid name len) _ _ _ h
    · rintro d dimid d' ⟨rfl, rfl, hreach⟩ ⟨rfl, rfl⟩
      exact ⟨rfl, by rw [hlen]; rfl, rfl, hreach⟩
    · intro d hd
      exact hd.unwritten ((List.prefix_append _ _).trans hdims) hvars
    · rintro dimid d ⟨-, hd⟩
      exact hd.unwritten hdims hvars
  apply hmeets.imp _ fun _ _ herror => herror
  rintro dimid t ⟨⟨d, hview, hid, hd⟩, hF⟩
  exact ⟨hid, ⟨d, hview, hd⟩, hF⟩

theorem meets_def_var (hdoc : lib.Documented filename o) {name : String} {dimids : List ℕ}
    (hdims : dims <+: dim_layout nfreq ndir) (hvars : vars ++ [(name, dimids)] <+: var_layout)
    (h : During o ncid (Stage dims vars) Unwritten w) :
    (nc (lib.nc_def_var ncid name dimids)).Meets w
      (fun varid t => varid = vars.length ∧
        During o ncid (Stage dims (vars ++ [(name, dimids)])) Unwritten t) (Early o Unwritten) := by
  have hmeets : (nc (lib.nc_def_var ncid name dimids)).Meets w
      (fun varid t => During o ncid (fun d => varid = vars.length ∧
        Stage dims (vars ++ [(name, dimids)]) d) Unwritten t) (Early o Unwritten) := by
    apply meets_nc_same (hdoc.def_var ncid name dimids) _ _ _ h
    · rintro d varid d' ⟨rfl, rfl, hreach⟩ ⟨rfl, rfl⟩
      exact ⟨rfl, rfl, rfl, hreach⟩
    · intro d hd
      exact hd.unwritten hdims ((List.prefix_append _ _).trans hvars)
    · rintro varid d ⟨-, hd⟩
      exact hd.unwritten hdims hvars
  apply hmeets.imp _ fun _ _ herror => herror
  rintro varid t ⟨⟨d, hview, hid, hd⟩, hF⟩
  exact ⟨hid, ⟨d, hview, hd⟩, hF⟩

/-- A call that leaves the dimensions and the variables, and writes nothing along the time. -/
theorem meets_stage {α : Type} {call : W → ℤ × α × W} {work : Dataset R → α → Dataset R → Prop}
    (hdoes : o.Does ncid call work)
    (hwork : ∀ d a d', Stage dims vars d → work d a d' → Stage dims vars d')
    (hdims : dims <+: dim_layout nfreq ndir) (hvars : vars <+: var_layout)
    (h : During o ncid (Stage dims vars) Unwritten w) :
    (nc call).Meets w (fun _ t => During o ncid (Stage dims vars) Unwritten t)
      (Early o Unwritten) :=
  meets_nc_same hdoes hwork (fun _ hd => hd.unwritten hdims hvars)
    (fun _ _ hd => hd.unwritten hdims hvars) h

/-- The grid has no time. -/
theorem stage_put_all {d : Dataset R} {name : String} {varid dimid : ℕ} {op : List R}
    (h : Stage dims vars d) (hvar : vars[varid]? = some (name, [dimid])) (hne : dimid ≠ 2) :
    Stage dims vars (d.put_all varid op) := by
  obtain ⟨rfl, rfl, hreach⟩ := h
  refine ⟨Dataset.dims_put .., Dataset.vars_put .., ?_⟩
  rw [Dataset.put_all, Dataset.reach_put hvar, hreach, hvar]
  simp [boxEnd, hne]

theorem meets_put_att (hdoc : lib.Documented filename o) (varid : ℕ) (name : String) (len : ℕ)
    (op : String) (hdims : dims <+: dim_layout nfreq ndir) (hvars : vars <+: var_layout)
    (h : During o ncid (Stage dims vars) Unwritten w) :
    (nc (lib.nc_put_att_text ncid varid name len op)).Meets w
      (fun _ t => During o ncid (Stage dims vars) Unwritten t) (Early o Unwritten) := by
  apply meets_stage (hdoc.put_att ncid varid name len op) _ hdims hvars h
  rintro d _ d' ⟨rfl, rfl, hreach⟩ rfl
  exact ⟨rfl, rfl, hreach⟩

theorem meets_define_file (hdoc : lib.Documented filename o)
    (h : During o ncid (Stage [] []) Unwritten w) :
    (define_file lib spec ncid).Meets w
      (fun varids t => varids = (0, 1) ∧ ∃ nfreq ndir,
        During o ncid (Stage (dim_layout nfreq ndir) var_layout) Unwritten t)
      (Early o Unwritten) := by
  let nfreq := if spec.nfreq = NC_UNLIMITED then none else some spec.nfreq
  let ndir := if spec.ndir = NC_UNLIMITED then none else some spec.ndir
  have hdims : dim_layout nfreq ndir <+: dim_layout nfreq ndir := List.prefix_refl _
  unfold define_file
  apply (meets_def_dim nfreq ndir hdoc rfl ⟨_, rfl⟩ ⟨_, rfl⟩ h).bind
  rintro _ w ⟨rfl, h⟩
  apply (meets_def_dim nfreq ndir hdoc rfl ⟨_, rfl⟩ ⟨_, rfl⟩ h).bind
  rintro _ w ⟨rfl, h⟩
  apply (meets_def_dim nfreq ndir hdoc rfl ⟨_, rfl⟩ ⟨_, rfl⟩ h).bind
  rintro _ w ⟨rfl, h⟩
  apply (meets_def_var hdoc hdims ⟨_, rfl⟩ h).bind
  rintro _ w ⟨rfl, h⟩
  apply (meets_def_var hdoc hdims ⟨_, rfl⟩ h).bind
  rintro _ w ⟨rfl, h⟩
  apply (meets_put_att hdoc _ _ _ _ hdims ⟨_, rfl⟩ h).bind
  intro _ w h
  apply (meets_def_var hdoc hdims ⟨_, rfl⟩ h).bind
  rintro _ w ⟨rfl, h⟩
  apply (meets_put_att hdoc _ _ _ _ hdims ⟨_, rfl⟩ h).bind
  intro _ w h
  apply (meets_def_var hdoc hdims ⟨_, rfl⟩ h).bind
  rintro _ w ⟨rfl, h⟩
  apply (meets_def_var hdoc hdims ⟨_, rfl⟩ h).bind
  rintro _ w ⟨rfl, h⟩
  have henddef := meets_stage (hdoc.enddef ncid) (fun d _ d' hd hsame => hsame ▸ hd) hdims
    (List.prefix_refl _) h
  apply henddef.bind
  intro _ w h
  exact Attempt.meets_pure ⟨rfl, nfreq, ndir, h⟩

variable [Field R] {m : Libm R} {alloc : Allocation → Bool}

theorem meets_write_grid (hdoc : lib.Documented filename o)
    (h : During o ncid (Stage (dim_layout nfreq ndir) var_layout) Unwritten w) :
    (write_grid lib m alloc spec ncid 0 1).Meets w (fun _ t => Unwritten (o.file t))
      (Early o Unwritten) := by
  have hdims : dim_layout nfreq ndir <+: dim_layout nfreq ndir := List.prefix_refl _
  have hvars : var_layout <+: var_layout := List.prefix_refl _
  unfold write_grid
  apply (meets_stage (hdoc.put_var ncid 0 _) (fun d _ d' hd hput =>
    hput ▸ stage_put_all hd rfl (by decide)) hdims hvars h).bind
  intro _ w h
  apply (meets_malloc h h.file).bind
  intro _ w h
  apply (meets_stage (hdoc.put_var ncid 1 _) (fun d _ d' hd hput =>
    hput ▸ stage_put_all hd rfl (by decide)) hdims hvars h).bind
  intro _ w h
  apply (meets_nc_close hdoc (fun _ hd => hd.unwritten hdims hvars) h).imp
  · rintro _ t ⟨d, hfile, hd⟩
    rw [hfile]
    exact hd.unwritten hdims hvars
  · intro err t herror
    exact herror

/-- A file is created without records. -/
theorem meets_create_file (hdoc : lib.Documented filename o) (h : o.file w = none) :
    (create_file lib filename m alloc spec).Meets w (fun _ t => Unwritten (o.file t))
      (Early o Unwritten) := by
  have hempty : Unwritten (some (Dataset.empty : Dataset R)) := by
    rintro _ ⟨⟩
    exact ⟨⟨none, none, List.nil_prefix, List.nil_prefix⟩, rfl⟩
  have hfile : Unwritten (o.file (lib.nc_create filename w).2.2) := by
    rcases hdoc.create_file w with hsame | hthrough
    · rw [hsame, h]
      nofun
    · rw [hthrough]
      exact hempty
  have hcreate : (nc (lib.nc_create filename)).Meets w
      (fun ncid t => During o ncid (Stage [] []) Unwritten t) (Early o Unwritten) := by
    by_cases hcode : (lib.nc_create filename w).1 = NC_NOERR
    · exact Or.inl ⟨_, _, nc_of_ok hcode, ⟨.empty, hdoc.create_view w hcode, rfl, rfl, rfl⟩, hfile⟩
    · exact Or.inr ⟨_, _, nc_of_error hcode, hcode, hfile⟩
  unfold create_file
  apply hcreate.bind
  intro ncid w h
  apply (meets_define_file hdoc h).bind
  rintro _ w ⟨rfl, nfreq, ndir, h⟩
  exact meets_write_grid hdoc h

end Create

/-! ## The file behind a call -/

section Follows
variable {R : Type} {file file' file'' : Option (Dataset R)} {n k : ℕ}

/-- The file has `n` records more, and those it had are as they were. -/
structure Follows (n : ℕ) (file file' : Option (Dataset R)) : Prop where
  laidOut : ∀ d, file' = some d → LaidOut d
  length : time_len file' = time_len file + n
  kept : ∀ v i index, i < time_len file → cell file' v (i :: index) = cell file v (i :: index)

theorem Follows.refl (h : ∀ d, file = some d → LaidOut d) : Follows 0 file file :=
  ⟨h, rfl, fun _ _ _ _ => rfl⟩

theorem Follows.trans (h : Follows n file file') (h' : Follows k file' file'') :
    Follows (n + k) file file'' where
  laidOut := h'.laidOut
  length := by rw [h'.length, h.length, Nat.add_assoc]
  kept v i index hi := by
    rw [h'.kept v i index (by rw [h.length]; exact Nat.lt_add_right n hi), h.kept v i index hi]

/-- A new file follows the one that was not there. -/
theorem Unwritten.follows (h : Unwritten file) : Follows 0 (none : Option (Dataset R)) file where
  laidOut d hd := (h d hd).1
  length := by
    cases file with
    | none => rfl
    | some d => exact (h d rfl).1.time_len_eq_zero (h d rfl).2
  kept _ i _ hi := absurd hi (Nat.not_lt_zero i)

/-- One record is begun behind those of `d`. -/
structure Appended (d d' : Dataset R) : Prop where
  dims : d'.dims = d.dims
  vars : d'.vars = d.vars
  reach : d'.reach 2 = d.reach 2 + 1
  kept : ∀ v i index, i < d.reach 2 → d'.value v (i :: index) = d.value v (i :: index)

variable {d d' : Dataset R}

theorem Appended.complete (h : Appended d d') (hd : Complete d) : Complete d' := by
  obtain ⟨nfreq, ndir, hdims, hvars⟩ := hd
  exact ⟨nfreq, ndir, h.dims.trans hdims, h.vars.trans hvars⟩

theorem Appended.follows (h : Appended d d') (hd : Complete d) : Follows 1 (some d) (some d') where
  laidOut := by
    rintro _ ⟨⟩
    exact (h.complete hd).laidOut
  length := by rw [(h.complete hd).time_len, hd.time_len, h.reach]
  kept v i index hi := by
    rw [hd.time_len] at hi
    exact h.kept v i index hi

theorem Appended.ne (h : Appended d d') : some d' ≠ some d := by
  rintro ⟨⟩
  exact absurd h.reach (Nat.ne_of_lt (Nat.lt_succ_self _))

/-- A cell of the time begins a record. -/
theorem appended_put_time (hd : Complete d) (time_seconds : R) :
    Appended d (d.put 2 [d.reach 2] [1] [time_seconds]) := by
  obtain ⟨nfreq, ndir, -, hvars⟩ := hd
  have hvar : d.vars[2]? = some ("time", [2]) := by rw [hvars]; rfl
  refine ⟨Dataset.dims_put .., Dataset.vars_put .., ?_, ?_⟩
  · rw [Dataset.reach_put hvar]
    simp [boxEnd]
  · intro v i index hi
    exact Dataset.value_put_of_lt 2 hi [] [1] _ v index

/-- A slice at the last record changes no other. -/
theorem Appended.put (h : Appended d d') {varid : ℕ} {name : String} {dimids start count : List ℕ}
    (hvar : d'.vars[varid]? = some (name, 2 :: dimids)) (hbox : boxEnd 2 dimids start count = 0)
    (op : List R) : Appended d (d'.put varid (d.reach 2 :: start) (1 :: count) op) := by
  refine ⟨(Dataset.dims_put ..).trans h.dims, (Dataset.vars_put ..).trans h.vars, ?_, ?_⟩
  · rw [Dataset.reach_put hvar, h.reach, boxEnd, hbox]
    split <;> simp
  · intro v i index hi
    exact (Dataset.value_put_of_lt varid hi start (1 :: count) op v index).trans (h.kept v i index hi)

end Follows

/-! ## The part behind `nc_open` -/

section Open
variable {W R : Type} {lib : Netcdf W R} {filename : String} {o : Observed W R} {ncid : ℕ} {w : W}
  {d : Dataset R}

/-- An inquiry changes nothing. -/
theorem meets_inq {α : Type} {call : W → ℤ × α × W} {answer : Dataset R → α → Prop}
    (hdoes : o.Does ncid call fun d a d' => d' = d ∧ answer d a)
    (h : During o ncid (· = d) (· = some d) w) :
    (nc call).Meets w (fun a t => answer d a ∧ During o ncid (· = d) (· = some d) t)
      (Early o (· = some d)) := by
  have hmeets : (nc call).Meets w
      (fun a t => During o ncid (fun d' => d' = d ∧ answer d a) (· = some d) t)
      (Early o (· = some d)) := by
    apply meets_nc_same hdoes _ _ _ h
    · rintro _ a _ rfl ⟨rfl, hanswer⟩
      exact ⟨rfl, hanswer⟩
    · rintro _ rfl
      rfl
    · rintro a _ ⟨rfl, -⟩
      rfl
  apply hmeets.imp _ fun _ _ herror => herror
  rintro a t ⟨⟨_, hview, rfl, hanswer⟩, hF⟩
  exact ⟨hanswer, ⟨_, hview, rfl⟩, hF⟩

/-- `nc_open` opens what is in the file. -/
theorem meets_nc_open (hdoc : lib.Documented filename o) :
    (nc (lib.nc_open filename)).Meets w
      (fun ncid t => ∃ d, o.file w = some d ∧ During o ncid (· = d) (· = some d) t)
      (Early o (· = o.file w)) := by
  by_cases hcode : (lib.nc_open filename w).1 = NC_NOERR
  · obtain ⟨d, hfile, hview⟩ := hdoc.open_view w hcode
    exact Or.inl ⟨_, _, nc_of_ok hcode, d, hfile, ⟨d, hview, rfl⟩, (hdoc.open_file w).trans hfile⟩
  · exact Or.inr ⟨_, _, nc_of_error hcode, hcode, hdoc.open_file w⟩

/-- `open_file` finds a dataset with all its variables, and the place behind its last record. -/
theorem meets_open_file (hdoc : lib.Documented filename o) (h : ∀ d, o.file w = some d → LaidOut d) :
    (open_file lib filename).Meets w
      (fun opened t => ∃ d ncid, o.file w = some d ∧ Complete d ∧
        opened = ⟨ncid, d.reach 2, 2, 3, 4⟩ ∧ During o ncid (· = d) (· = some d) t)
      (Early o (· = o.file w)) := by
  unfold open_file
  apply (meets_nc_open hdoc).bind
  rintro ncid t ⟨d, hfile, hduring⟩
  obtain ⟨nfreq, ndir, hdims, hvars⟩ := h d hfile
  rw [hfile]
  apply (meets_inq (hdoc.inq_dimid ncid "time") hduring).bind
  rintro dimid t ⟨hname, hduring⟩
  obtain ⟨rfl, hdims⟩ := dimid_time hdims hname
  apply (meets_inq (hdoc.inq_dimlen ncid 2) hduring).bind
  rintro _ t ⟨rfl, hduring⟩
  apply (meets_inq (hdoc.inq_varid ncid "time") hduring).bind
  rintro varid_time t ⟨htime, hduring⟩
  obtain ⟨rfl, -⟩ := place_of_prefix (k := 2) hvars nodup_var_layout htime rfl
  apply (meets_inq (hdoc.inq_varid ncid "EnergySpectra") hduring).bind
  rintro varid_espec t ⟨hespec, hduring⟩
  obtain ⟨rfl, -⟩ := place_of_prefix (k := 3) hvars nodup_var_layout hespec rfl
  apply (meets_inq (hdoc.inq_varid ncid ENERGY) hduring).bind
  rintro varid t ⟨hfullspec, hduring⟩
  obtain ⟨rfl, hvars⟩ := varid_fullspec hvars hfullspec
  have hcomplete : Complete d := ⟨nfreq, ndir, hdims, hvars⟩
  exact Attempt.meets_pure ⟨d, ncid, rfl, hcomplete, by rw [hcomplete.length_time], hduring⟩

variable [Field R] {is_first : Bool}

/-- What comes before the write of the time adds no record. -/
theorem meets_prepare (m : Libm R) (alloc : Allocation → Bool) (spec : Spectrum R) (hdoc : lib.Documented filename o) (hfirst : is_first = true → o.file w = none)
    (h : ∀ d, o.file w = some d → LaidOut d) :
    (prepare lib filename m alloc spec is_first).Meets w
      (fun opened t => ∃ d ncid, Follows 0 (o.file w) (some d) ∧ Complete d ∧
        opened = ⟨ncid, d.reach 2, 2, 3, 4⟩ ∧ During o ncid (· = d) (· = some d) t)
      (Early o (Follows 0 (o.file w))) := by
  have hcreate : (if is_first then create_file lib filename m alloc spec else pure ()).Meets w
      (fun _ t => Follows 0 (o.file w) (o.file t)) (Early o (Follows 0 (o.file w))) := by
    cases is_first with
    | true =>
        have hnone := hfirst rfl
        rw [hnone]
        exact (meets_create_file hdoc hnone).imp (fun _ _ hfile => hfile.follows)
          fun _ _ herror => ⟨herror.1, herror.2.follows⟩
    | false => exact Attempt.meets_pure (Follows.refl h)
  apply hcreate.bind
  intro _ t hfollows
  apply (meets_open_file hdoc hfollows.laidOut).imp
  · rintro opened u ⟨d, ncid, hfile, hcomplete, hopened, hduring⟩
    exact ⟨d, ncid, hfile ▸ hfollows, hcomplete, hopened, hduring⟩
  · rintro err u ⟨herr, hfile⟩
    exact ⟨herr, hfile ▸ hfollows⟩

end Open

/-! ## The record -/

section Record
variable {R : Type} [Field R] {spec : Spectrum R} {d d' : Dataset R} {idx varid : ℕ}
  {time_seconds : R}

theorem energy_omni_get {i : ℕ} (hi : i < spec.nfreq) :
    (energy_omni spec)[i]? = some (spec.sum_dir i * spec.dtheta) := by
  simp [energy_omni, hi]

/-- The rows of a buffer follow each other. -/
theorem getElem?_rows {α : Type} (g : ℕ → ℕ → α) {n c j i : ℕ} (hj : j < n) (hi : i < c) :
    ((List.range n).flatMap fun j => (List.range c).map (g j))[j * c + i]? = some (g j i) := by
  have hlength : ∀ n, ((List.range n).flatMap fun j => (List.range c).map (g j)).length = n * c := by
    intro n
    simp
  induction n with
  | zero => exact absurd hj (Nat.not_lt_zero j)
  | succ n ih =>
      rw [List.range_succ, List.flatMap_append, List.flatMap_singleton]
      rcases Nat.lt_succ_iff_lt_or_eq.mp hj with hearlier | rfl
      · have hlt : j * c + i < n * c := by
          calc
            j * c + i < j * c + c := by omega
            _ = (j + 1) * c := (Nat.succ_mul j c).symm
            _ ≤ n * c := Nat.mul_le_mul_right c hearlier
        rw [List.getElem?_append_left (by rw [hlength]; exact hlt)]
        exact ih hearlier
      · rw [List.getElem?_append_right (by rw [hlength]; omega), hlength]
        simp [hi]

omit [Field R] in
theorem full_buf_get {j i : ℕ} (hj : j < spec.ndir) (hi : i < spec.nfreq) :
    (full_buf spec)[j * spec.nfreq + i]? = some (spec.energy i j) :=
  getElem?_rows (fun j i => spec.energy i j) hj hi

/-- A call of `write_spectrum_to_netcdf`, with the allocations that succeed. -/
structure Call (R : Type) where
  spec : Spectrum R
  time_seconds : R
  alloc : Allocation → Bool

/-- The record holds the time and the slices of the call. -/
structure RecordAt (file : Option (Dataset R)) (idx : ℕ) (c : Call R) : Prop where
  time : cell file "time" [idx] = some c.time_seconds
  espec : ∀ i < c.spec.nfreq,
    cell file "EnergySpectra" [idx, i] = some (c.spec.sum_dir i * c.spec.dtheta)
  fullspec : ∀ j < c.spec.ndir, ∀ i < c.spec.nfreq,
    cell file ENERGY [idx, j, i] = some (c.spec.energy i j)

/-- A record stays what it is in a file that follows. -/
theorem RecordAt.follows {file file' : Option (Dataset R)} {c : Call R} {n : ℕ}
    (h : RecordAt file idx c) (hidx : idx < time_len file) (hfollows : Follows n file file') :
    RecordAt file' idx c where
  time := (hfollows.kept _ _ _ hidx).trans h.time
  espec i hi := (hfollows.kept _ _ _ hidx).trans (h.espec i hi)
  fullspec j hj i hi := (hfollows.kept _ _ _ hidx).trans (h.fullspec j hj i hi)

omit [Field R] in
theorem put_time_value (hvar : d.vars[varid]? = some ("time", [2])) :
    (d.put varid [idx] [1] [time_seconds]).value "time" [idx] = some time_seconds := by
  rw [Dataset.value_put hvar, if_pos ⟨rfl, by simp [inBox]⟩]
  simp [boxOffset]

theorem put_espec_value (hvar : d.vars[varid]? = some ("EnergySpectra", [2, 0])) {i : ℕ}
    (hi : i < spec.nfreq) :
    (d.put varid [idx, 0] [1, spec.nfreq] (energy_omni spec)).value "EnergySpectra" [idx, i] =
      some (spec.sum_dir i * spec.dtheta) := by
  have hoffset : boxOffset [idx, 0] [1, spec.nfreq] [idx, i] = i := by simp [boxOffset]
  rw [Dataset.value_put hvar, if_pos ⟨rfl, by simp [inBox, hi]⟩, hoffset]
  exact energy_omni_get hi

omit [Field R] in
theorem put_fullspec_value (hvar : d.vars[varid]? = some (ENERGY, [2, 1, 0])) {j i : ℕ}
    (hj : j < spec.ndir) (hi : i < spec.nfreq) :
    (d.put varid [idx, 0, 0] [1, spec.ndir, spec.nfreq] (full_buf spec)).value ENERGY [idx, j, i] =
      some (spec.energy i j) := by
  have hoffset : boxOffset [idx, 0, 0] [1, spec.ndir, spec.nfreq] [idx, j, i] =
      j * spec.nfreq + i := by simp [boxOffset]
  rw [Dataset.value_put hvar, if_pos ⟨rfl, by simp [inBox, hj, hi]⟩, hoffset]
  exact full_buf_get hj hi

end Record

section Write
variable {W R : Type} [Field R] {lib : Netcdf W R} {filename : String} {o : Observed W R} {ncid : ℕ}
  {w : W} {d : Dataset R} {c : Call R}

/-- What a failure behind the write of the time leaves: the file as it was, or with one record more. -/
def Left (d : Dataset R) (file : Option (Dataset R)) : Prop :=
  file = some d ∨ ∃ d', file = some d' ∧ Appended d d'

/-- The record has its time. -/
structure Timed (d : Dataset R) (c : Call R) (d' : Dataset R) : Prop extends Appended d d' where
  time : d'.value "time" [d.reach 2] = some c.time_seconds

/-- The record has its omnidirectional slice too. -/
structure Sliced (d : Dataset R) (c : Call R) (d' : Dataset R) : Prop extends Timed d c d' where
  espec : ∀ i < c.spec.nfreq,
    d'.value "EnergySpectra" [d.reach 2, i] = some (c.spec.sum_dir i * c.spec.dtheta)

omit [Field R] in
theorem meets_put_time (hdoc : lib.Documented filename o) (hd : Complete d)
    (h : During o ncid (· = d) (· = some d) w) :
    (put_time lib ⟨ncid, d.reach 2, 2, 3, 4⟩ c.time_seconds).Meets w
      (fun _ t => During o ncid (Timed d c) (Left d) t) (Early o (· = some d)) := by
  apply meets_nc (hdoc.put_var1 ncid 2 [d.reach 2] c.time_seconds) _ _ _ _ h
  · rintro _ _ _ rfl rfl
    obtain ⟨nfreq, ndir, hdims, hvars⟩ := hd
    exact ⟨appended_put_time ⟨nfreq, ndir, hdims, hvars⟩ _, put_time_value (by rw [hvars]; rfl)⟩
  · rintro _ rfl
    rfl
  · rintro _ rfl
    exact Or.inl rfl
  · intro _ d' htimed
    exact Or.inr ⟨d', rfl, htimed.toAppended⟩

theorem meets_put_espec (hdoc : lib.Documented filename o) (hd : Complete d)
    (h : During o ncid (Timed d c) (Left d) w) :
    (nc (lib.nc_put_vara_double ncid 3 [d.reach 2, 0] [1, c.spec.nfreq] (energy_omni c.spec))).Meets w
      (fun _ t => During o ncid (Sliced d c) (Left d) t) (Early o (Left d)) := by
  apply meets_nc_same (hdoc.put_vara ncid 3 _ _ _) _ _ _ h
  · rintro d' _ _ htimed rfl
    obtain ⟨nfreq, ndir, -, hvars⟩ := htimed.complete hd
    have hvar : d'.vars[3]? = some ("EnergySpectra", [2, 0]) := by rw [hvars]; rfl
    refine ⟨⟨htimed.put hvar (by simp [boxEnd]) _, ?_⟩, fun i hi => put_espec_value hvar hi⟩
    rw [Dataset.value_put_of_ne hvar (by decide)]
    exact htimed.time
  · intro d' htimed
    exact Or.inr ⟨d', rfl, htimed.toAppended⟩
  · intro _ d' hsliced
    exact Or.inr ⟨d', rfl, hsliced.toAppended⟩

theorem meets_put_fullspec (hdoc : lib.Documented filename o) (hd : Complete d)
    (h : During o ncid (Sliced d c) (Left d) w) :
    (nc (lib.nc_put_vara_double ncid 4 [d.reach 2, 0, 0] [1, c.spec.ndir, c.spec.nfreq]
      (full_buf c.spec))).Meets w
      (fun _ t => During o ncid (fun d' => Appended d d' ∧ RecordAt (some d') (d.reach 2) c) (Left d) t)
      (Early o (Left d)) := by
  apply meets_nc_same (hdoc.put_vara ncid 4 _ _ _) _ _ _ h
  · rintro d' _ _ hsliced rfl
    obtain ⟨nfreq, ndir, -, hvars⟩ := hsliced.complete hd
    have hvar : d'.vars[4]? = some (ENERGY, [2, 1, 0]) := by rw [hvars]; rfl
    refine ⟨hsliced.put hvar (by simp [boxEnd]) _, ?_, ?_, ?_⟩
    · exact (Dataset.value_put_of_ne hvar (by decide) ..).trans hsliced.time
    · intro i hi
      exact (Dataset.value_put_of_ne hvar (by decide) ..).trans (hsliced.espec i hi)
    · intro j hj i hi
      exact put_fullspec_value hvar hj hi
  · intro d' hsliced
    exact Or.inr ⟨d', rfl, hsliced.toAppended⟩
  · rintro _ d' ⟨happended, -⟩
    exact Or.inr ⟨d', rfl, happended⟩

/-- Behind the write of the time, the record is completed, or something fails. -/
theorem meets_put_slices (hdoc : lib.Documented filename o) (hd : Complete d)
    (h : During o ncid (Timed d c) (Left d) w) :
    (put_slices lib c.alloc c.spec ⟨ncid, d.reach 2, 2, 3, 4⟩).Meets w
      (fun _ t => ∃ d', o.file t = some d' ∧ Appended d d' ∧ RecordAt (some d') (d.reach 2) c)
      (Early o (Left d)) := by
  unfold put_slices
  apply (meets_malloc h h.file).bind
  intro _ w h
  apply (meets_put_espec hdoc hd h).bind
  intro _ w h
  apply (meets_malloc h h.file).bind
  intro _ w h
  apply (meets_put_fullspec hdoc hd h).bind
  intro _ w h
  apply meets_nc_close hdoc _ h
  rintro d' ⟨happended, -⟩
  exact Or.inr ⟨d', rfl, happended⟩

end Write

/-! ## Calls one after another -/

section Calls
variable {W R : Type} [Field R] (lib : Netcdf W R) (filename : String) (m : Libm R) (o : Observed W R)

def Call.write (c : Call R) (is_first : Bool) : Nc W Unit :=
  write_spectrum_to_netcdf lib filename m c.alloc c.spec c.time_seconds is_first

/-- What `write_spectrum_to_netcdf` returns. -/
def status : Except ℤ Unit → ℤ
  | .ok _ => 0
  | .error err => err

/-- The state behind the calls, and what they return; only the first of them is `is_first`. -/
def write_all : W → Bool → List (Call R) → W × List ℤ
  | w, _, [] => (w, [])
  | w, is_first, c :: calls =>
      let out := (c.write lib filename m is_first).on w
      let rest := write_all out.2 false calls
      (rest.1, status out.1 :: rest.2)

/-- The calls that returned 0. -/
def acknowledged (calls : List (Call R)) (codes : List ℤ) : List (Call R) :=
  ((calls.zip codes).filter fun p => p.2 = 0).map Prod.fst

/-- The records from the `idx`-th on are those of the calls. -/
structure RecordsFrom (idx : ℕ) (file : Option (Dataset R)) (calls : List (Call R)) : Prop where
  length : time_len file = idx + calls.length
  record : ∀ k c, calls[k]? = some c → RecordAt file (idx + k) c

/-- Something fails behind the write of the time, before the dataset is closed, and the library has
that write in the file all the same. -/
def LeavesRecord (c : Call R) (is_first : Bool) (w : W) : Prop :=
  ∃ opened w₁ w₂ err w₃,
    (prepare lib filename m c.alloc c.spec is_first).on w = (.ok opened, w₁) ∧
      (put_time lib opened c.time_seconds).on w₁ = (.ok (), w₂) ∧
      (put_slices lib c.alloc c.spec opened).on w₂ = (.error err, w₃) ∧ o.file w₃ ≠ o.file w₁

/-- No call leaves a record that it does not complete. -/
def NoneLeaves : W → Bool → List (Call R) → Prop
  | _, _, [] => True
  | w, is_first, c :: calls =>
      ¬LeavesRecord lib filename m o c is_first w ∧
        NoneLeaves ((c.write lib filename m is_first).on w).2 false calls

variable {lib filename m o} {w : W} {c : Call R} {calls : List (Call R)} {is_first : Bool}

theorem not_leavesRecord_of_prepare {err : ℤ} {w₁ : W}
    (h : (prepare lib filename m c.alloc c.spec is_first).on w = (.error err, w₁)) :
    ¬LeavesRecord lib filename m o c is_first w := by
  rintro ⟨_, _, _, _, _, hprepare, -⟩
  cases h.symm.trans hprepare

theorem not_leavesRecord_of_time {opened : Opened} {err : ℤ} {w₁ w₂ : W}
    (hprepare : (prepare lib filename m c.alloc c.spec is_first).on w = (.ok opened, w₁))
    (h : (put_time lib opened c.time_seconds).on w₁ = (.error err, w₂)) :
    ¬LeavesRecord lib filename m o c is_first w := by
  rintro ⟨_, _, _, _, _, hprepare', htime, -⟩
  cases hprepare.symm.trans hprepare'
  cases h.symm.trans htime

theorem not_leavesRecord_of_slices {opened : Opened} {w₁ w₂ w₃ : W}
    (hprepare : (prepare lib filename m c.alloc c.spec is_first).on w = (.ok opened, w₁))
    (htime : (put_time lib opened c.time_seconds).on w₁ = (.ok (), w₂))
    (h : (put_slices lib c.alloc c.spec opened).on w₂ = (.ok (), w₃)) :
    ¬LeavesRecord lib filename m o c is_first w := by
  rintro ⟨_, _, _, _, _, hprepare', htime', hslices, -⟩
  cases hprepare.symm.trans hprepare'
  cases htime.symm.trans htime'
  cases h.symm.trans hslices

theorem leavesRecord_iff {opened : Opened} {err : ℤ} {w₁ w₂ w₃ : W}
    (hprepare : (prepare lib filename m c.alloc c.spec is_first).on w = (.ok opened, w₁))
    (htime : (put_time lib opened c.time_seconds).on w₁ = (.ok (), w₂))
    (hslices : (put_slices lib c.alloc c.spec opened).on w₂ = (.error err, w₃)) :
    LeavesRecord lib filename m o c is_first w ↔ o.file w₃ ≠ o.file w₁ := by
  constructor
  · rintro ⟨_, _, _, _, _, hprepare', htime', hslices', hne⟩
    cases hprepare.symm.trans hprepare'
    cases htime.symm.trans htime'
    cases hslices.symm.trans hslices'
    exact hne
  · intro hne
    exact ⟨opened, w₁, w₂, err, w₃, hprepare, htime, hslices, hne⟩

/-- What a call comes to: it adds its record and returns 0, or it returns an error and leaves the
records, or it leaves one that it did not complete. -/
inductive Outcome (lib : Netcdf W R) (filename : String) (m : Libm R) (o : Observed W R) (c : Call R)
    (is_first : Bool) (w : W) (out : Except ℤ Unit × W) : Prop
  | acknowledged (hleaves : ¬LeavesRecord lib filename m o c is_first w) (hstatus : status out.1 = 0)
      (hfollows : Follows 1 (o.file w) (o.file out.2))
      (hrecord : RecordAt (o.file out.2) (time_len (o.file w)) c)
  | refused (hleaves : ¬LeavesRecord lib filename m o c is_first w) (hstatus : status out.1 ≠ 0)
      (hfollows : Follows 0 (o.file w) (o.file out.2))
  | left (hleaves : LeavesRecord lib filename m o c is_first w) (hstatus : status out.1 ≠ 0)
      (hfollows : Follows 1 (o.file w) (o.file out.2))

theorem write_outcome (hdoc : lib.Documented filename o) (c : Call R)
    (hfirst : is_first = true → o.file w = none) (h : ∀ d, o.file w = some d → LaidOut d) :
    Outcome lib filename m o c is_first w ((c.write lib filename m is_first).on w) := by
  unfold Call.write write_spectrum_to_netcdf
  rcases meets_prepare m c.alloc c.spec hdoc hfirst h with
    ⟨opened, w₁, hprepare, d, ncid, hfollows, hcomplete, rfl, hduring⟩ | ⟨err, w₁, hprepare, herr, hfile⟩
  · rw [Attempt.on_bind_of_ok hprepare]
    have hfile₁ : o.file w₁ = some d := hduring.file
    rcases meets_put_time (c := c) hdoc hcomplete hduring with
      ⟨_, w₂, htime, hduring₂⟩ | ⟨err, w₂, htime, herr, hfile⟩
    · rw [Attempt.on_bind_of_ok htime]
      rcases meets_put_slices hdoc hcomplete hduring₂ with
        ⟨_, w₃, hslices, d', hfile, happended, hrecord⟩ | ⟨err, w₃, hslices, herr, hleft⟩
      · have hlen : time_len (o.file w) = d.reach 2 := by
          rw [← hcomplete.time_len, hfollows.length, Nat.add_zero]
        rw [hslices]
        apply Outcome.acknowledged (not_leavesRecord_of_slices hprepare htime hslices) rfl
        · rw [hfile]
          exact hfollows.trans (happended.follows hcomplete)
        · rw [hfile, hlen]
          exact hrecord
      · have hstatus : status (.error err) ≠ 0 := herr
        have hiff := leavesRecord_iff (o := o) hprepare htime hslices
        rw [hfile₁] at hiff
        rw [hslices]
        rcases hleft with hsame | ⟨d', hmore, happended⟩
        · apply Outcome.refused (fun hleaves => hiff.mp hleaves hsame) hstatus
          rw [hsame]
          exact hfollows
        · apply Outcome.left (hiff.mpr (hmore ▸ happended.ne)) hstatus
          rw [hmore]
          exact hfollows.trans (happended.follows hcomplete)
    · have hstatus : status (.error err) ≠ 0 := herr
      rw [Attempt.on_bind_of_error htime]
      apply Outcome.refused (not_leavesRecord_of_time hprepare htime) hstatus
      rw [hfile]
      exact hfollows
  · have hstatus : status (.error err) ≠ 0 := herr
    rw [Attempt.on_bind_of_error hprepare]
    exact Outcome.refused (not_leavesRecord_of_prepare hprepare) hstatus hfile

omit [Field R] in
theorem acknowledged_of_zero {code : ℤ} {codes : List ℤ} (h : code = 0) :
    acknowledged (c :: calls) (code :: codes) = c :: acknowledged calls codes := by
  simp [acknowledged, h]

omit [Field R] in
theorem acknowledged_of_ne {code : ℤ} {codes : List ℤ} (h : code ≠ 0) :
    acknowledged (c :: calls) (code :: codes) = acknowledged calls codes := by
  simp [acknowledged, h]

/-- No call takes a record away, and each that returns 0 adds one. -/
theorem write_all_follows (hdoc : lib.Documented filename o) (m : Libm R) (calls : List (Call R))
    (hfirst : is_first = true → o.file w = none) (h : ∀ d, o.file w = some d → LaidOut d) :
    let out := write_all lib filename m w is_first calls
    ∃ n, (acknowledged calls out.2).length ≤ n ∧ Follows n (o.file w) (o.file out.1) := by
  induction calls generalizing w is_first with
  | nil => exact ⟨0, le_rfl, Follows.refl h⟩
  | cons c calls ih =>
      have hnext : false = true → o.file ((c.write lib filename m is_first).on w).2 = none := nofun
      dsimp only [write_all]
      rcases write_outcome (m := m) hdoc c hfirst h with ⟨_, hstatus, hone, _⟩ | ⟨_, hstatus, hnone⟩ |
        ⟨_, hstatus, hone⟩
      · obtain ⟨n, hn, hrest⟩ := ih hnext hone.laidOut
        rw [acknowledged_of_zero hstatus, List.length_cons]
        exact ⟨1 + n, by omega, hone.trans hrest⟩
      · obtain ⟨n, hn, hrest⟩ := ih hnext hnone.laidOut
        rw [acknowledged_of_ne hstatus]
        exact ⟨0 + n, by omega, hnone.trans hrest⟩
      · obtain ⟨n, hn, hrest⟩ := ih hnext hone.laidOut
        rw [acknowledged_of_ne hstatus]
        exact ⟨1 + n, by omega, hone.trans hrest⟩

/-- The first of the records that follow. -/
theorem recordsFrom_cons {idx : ℕ} {file : Option (Dataset R)} (h : RecordAt file idx c) :
    RecordsFrom idx file (c :: calls) ↔ RecordsFrom (idx + 1) file calls := by
  constructor
  · rintro ⟨hlength, hrecord⟩
    refine ⟨by rw [hlength, List.length_cons]; omega, fun k c' hk => ?_⟩
    have hnext := hrecord (k + 1) c' hk
    rwa [← Nat.add_assoc, Nat.add_right_comm] at hnext
  · rintro ⟨hlength, hrecord⟩
    refine ⟨by rw [hlength, List.length_cons]; omega, fun k c' hk => ?_⟩
    cases k with
    | zero =>
        cases hk
        exact h
    | succ k =>
        rw [← Nat.add_assoc, Nat.add_right_comm]
        exact hrecord k c' hk

/-- The calls add their records, those that returned 0, if and only if none leaves one. -/
theorem recordsFrom_iff (hdoc : lib.Documented filename o) (m : Libm R) (calls : List (Call R))
    (is_first : Bool) (hfirst : is_first = true → o.file w = none) (h : ∀ d, o.file w = some d → LaidOut d) :
    RecordsFrom (time_len (o.file w)) (o.file (write_all lib filename m w is_first calls).1)
        (acknowledged calls (write_all lib filename m w is_first calls).2) ↔
      NoneLeaves lib filename m o w is_first calls := by
  induction calls generalizing w is_first with
  | nil =>
      refine iff_of_true ⟨rfl, ?_⟩ trivial
      intro k c hk
      cases hk
  | cons c calls ih =>
      have hnext : false = true → o.file ((c.write lib filename m is_first).on w).2 = none := nofun
      dsimp only [write_all, NoneLeaves]
      rcases write_outcome (m := m) hdoc c hfirst h with ⟨hleaves, hstatus, hone, hrecord⟩ |
        ⟨hleaves, hstatus, hnone⟩ | ⟨hleaves, hstatus, hone⟩
      · have hrest := ih false hnext hone.laidOut
        obtain ⟨n, -, hfollows⟩ := write_all_follows hdoc m calls hnext hone.laidOut
        have hkept := hrecord.follows (by rw [hone.length]; exact Nat.lt_succ_self _) hfollows
        rw [hone.length] at hrest
        rw [acknowledged_of_zero hstatus, recordsFrom_cons hkept, hrest]
        exact (and_iff_right hleaves).symm
      · have hrest := ih false hnext hnone.laidOut
        rw [hnone.length, Nat.add_zero] at hrest
        rw [acknowledged_of_ne hstatus, hrest]
        exact (and_iff_right hleaves).symm
      · -- the record that was left stays, and no call returned 0 for it
        obtain ⟨n, hn, hfollows⟩ := write_all_follows hdoc m calls hnext hone.laidOut
        rw [acknowledged_of_ne hstatus]
        constructor
        · rintro ⟨hlength, -⟩
          rw [hfollows.length, hone.length] at hlength
          omega
        · rintro ⟨hnone, -⟩
          exact absurd hleaves hnone

end Calls

/-! ## The library in memory -/

section Memory
variable {R α : Type} {w w₁ : Datasets R} {ncid : ℕ}

/-- Where the library writes when a dataset is closed, a call changes no file. -/
theorem meets_work {a₀ : α} {f : Dataset R → Option (α × Dataset R)} (h : w.file = w₁.file) :
    (nc (Datasets.work false ncid a₀ f)).Meets w (fun _ t => t.file = w₁.file)
      (fun _ t => t.file = w₁.file) := by
  have hfile : (Datasets.work false ncid a₀ f w).2.2.file = w₁.file :=
    (Datasets.file_work ncid a₀ f w).trans h
  by_cases hcode : (Datasets.work false ncid a₀ f w).1 = NC_NOERR
  · exact Or.inl ⟨_, _, nc_of_ok hcode, hfile⟩
  · exact Or.inr ⟨_, _, nc_of_error hcode, hfile⟩

variable [Field R]

/-- Nothing is in the file before the dataset is closed. -/
theorem put_slices_buffered {alloc : Allocation → Bool} {spec : Spectrum R} {opened : Opened}
    (h : w.file = w₁.file) :
    (put_slices (Datasets.library false) alloc spec opened).Meets w (fun _ _ => True)
      (fun _ t => t.file = w₁.file) := by
  have hmalloc : ∀ {w : Datasets R} {succeeds : Bool}, w.file = w₁.file →
      (malloc succeeds : Nc (Datasets R) Unit).Meets w (fun _ t => t.file = w₁.file)
        (fun _ t => t.file = w₁.file) := by
    intro w succeeds h
    cases succeeds with
    | true => exact Attempt.meets_pure h
    | false => exact Attempt.meets_throw h
  apply (hmalloc h).bind
  intro _ w h
  apply (meets_work h).bind
  intro _ w h
  apply (hmalloc h).bind
  intro _ w h
  apply (meets_work h).bind
  intro _ w h
  by_cases hcode : ((Datasets.library false : Netcdf _ R).nc_close opened.ncid w).1 = NC_NOERR
  · exact Or.inl ⟨_, _, nc_of_ok hcode, trivial⟩
  · refine Or.inr ⟨_, _, nc_of_error hcode, ?_⟩
    exact (Datasets.file_nc_close hcode).trans h

/-- A library that writes when a dataset is closed leaves no record of a call that failed. -/
theorem noneLeaves_buffered (filename : String) (m : Libm R) (w : Datasets R) (is_first : Bool)
    (calls : List (Call R)) :
    NoneLeaves (Datasets.library false) filename m Datasets.observed w is_first calls := by
  induction calls generalizing w is_first with
  | nil => trivial
  | cons c calls ih =>
      refine ⟨?_, ih _ false⟩
      rintro ⟨opened, w₁, w₂, err, w₃, -, htime, hslices, hne⟩
      have hfile₂ : w₂.file = w₁.file := by
        rcases meets_work (Eq.refl w₁.file) with ⟨_, t, hon, hfile⟩ | ⟨_, t, hon, -⟩
        · cases hon.symm.trans htime
          exact hfile
        · cases hon.symm.trans htime
      rcases put_slices_buffered hfile₂ with ⟨_, t, hon, -⟩ | ⟨_, t, hon, hfile⟩
      · cases hon.symm.trans hslices
      · cases hon.symm.trans hslices
        exact hne hfile

end Memory

/-! ## Two libraries -/

/-- A spectrum of two frequencies and four directions. -/
noncomputable def small : Spectrum ℝ := spectrum_create Libm.real 2 4 0.04

/-- Three calls, of which the second finds no memory for its sums once it has written the time. -/
noncomputable def calls_malloc : List (Call ℝ) :=
  [⟨small, 0, fun _ => true⟩, ⟨small, 1800, fun a => a ≠ .energy_omni⟩, ⟨small, 3600, fun _ => true⟩]

end OtusCProg.PointWaveModel
