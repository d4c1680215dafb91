import OtusCProg.Library.Dataset
import OtusCProg.Library.EarlyReturn
import OtusCProg.PointWaveModel.Model

/-!
# The output of the wave model

`write_spectrum_to_netcdf`, which writes a spectrum behind the last record of a
netCDF file. The calls of the library and the allocations may each fail, and an
early return leaves the dataset open.
-/

namespace OtusCProg.PointWaveModel
open Library

section Calls
variable {W α : Type}

def NC_ENOMEM : ℤ := -61

def FREQUENCY : String := "FullWaveDirectionalSpectra_Frequency"
def DIRECTION : String := "FullWaveDirectionalSpectra_Direction"
def ENERGY : String := "FullWaveDirectionalSpectra_Energy"

/-- The allocations of `write_spectrum_to_netcdf`. -/
inductive Allocation
  | dirs_deg
  | energy_omni
  | full_buf
deriving DecidableEq, Repr

/-- A part of `write_spectrum_to_netcdf`, which returns early with an error. -/
abbrev Nc (W α : Type) := Attempt ℤ W α

/-- `HANDLE_ERROR`. -/
def HANDLE_ERROR (err : ℤ) : Nc W Unit :=
  if err ≠ NC_NOERR then throw err else pure ()

/-- A call of the library, and its `HANDLE_ERROR`. -/
def nc (call : W → ℤ × α × W) : Nc W α := do
  let (ret, a, w) := call (← get)
  set w
  HANDLE_ERROR ret
  pure a

/-- An allocation, and the test of its result. -/
def malloc (succeeds : Bool) : Nc W Unit := if succeeds then pure () else throw NC_ENOMEM

end Calls

section Write
variable {W R : Type} [Field R] (lib : Netcdf W R) (filename : String) (m : Libm R)
  (alloc : Allocation → Bool) (spec : Spectrum R)

/-- The directions in degrees. -/
def dirs_deg : List R := (List.range spec.ndir).map fun j => spec.dir j * 180.0 / m.M_PI

def energy_omni : List R := (List.range spec.nfreq).map fun i => spec.sum_dir i * spec.dtheta

/-- The energies in the order of the file, where the frequency changes fastest. -/
def full_buf : List R :=
  (List.range spec.ndir).flatMap fun j => (List.range spec.nfreq).map fun i => spec.energy i j

/-- The dimensions, the variables and the attributes of a new file; the variables of its grid. -/
def define_file (ncid : ℕ) : Nc W (ℕ × ℕ) := do
  let dimid_freq ← nc (lib.nc_def_dim ncid FREQUENCY spec.nfreq)
  let dimid_dir ← nc (lib.nc_def_dim ncid DIRECTION spec.ndir)
  let dimid_time ← nc (lib.nc_def_dim ncid "time" NC_UNLIMITED)
  let varid_freq ← nc (lib.nc_def_var ncid FREQUENCY [dimid_freq])
  let varid_dir ← nc (lib.nc_def_var ncid DIRECTION [dimid_dir])
  nc (lib.nc_put_att_text ncid varid_dir "units" 7 "degrees")
  let varid_time ← nc (lib.nc_def_var ncid "time" [dimid_time])
  nc (lib.nc_put_att_text ncid varid_time "units" 30 "seconds since 1970-01-01 00:00:00")
  let _ ← nc (lib.nc_def_var ncid "EnergySpectra" [dimid_time, dimid_freq])
  let _ ← nc (lib.nc_def_var ncid ENERGY [dimid_time, dimid_dir, dimid_freq])
  nc (lib.nc_enddef ncid)
  pure (varid_freq, varid_dir)

/-- The grid of a new file. -/
def write_grid (ncid varid_freq varid_dir : ℕ) : Nc W Unit := do
  nc (lib.nc_put_var_double ncid varid_freq ((List.range spec.nfreq).map spec.freq))
  malloc (alloc .dirs_deg)
  nc (lib.nc_put_var_double ncid varid_dir (dirs_deg m spec))
  nc (lib.nc_close ncid)

/-- The part under `is_first`. -/
def create_file : Nc W Unit := do
  let ncid ← nc (lib.nc_create filename)
  let (varid_freq, varid_dir) ← define_file lib spec ncid
  write_grid lib m alloc spec ncid varid_freq varid_dir

/-- What the write of a record goes by. -/
structure Opened where
  ncid : ℕ
  time_idx : ℕ
  varid_time : ℕ
  varid_espec : ℕ
  varid_fullspec : ℕ

/-- From `nc_open` up to `time_idx` and the variables. -/
def open_file : Nc W Opened := do
  let ncid ← nc (lib.nc_open filename)
  let dimid_time ← nc (lib.nc_inq_dimid ncid "time")
  let time_len ← nc (lib.nc_inq_dimlen ncid dimid_time)
  let varid_time ← nc (lib.nc_inq_varid ncid "time")
  let varid_espec ← nc (lib.nc_inq_varid ncid "EnergySpectra")
  let varid_fullspec ← nc (lib.nc_inq_varid ncid ENERGY)
  pure ⟨ncid, time_len, varid_time, varid_espec, varid_fullspec⟩

/-- What follows the write of the time. -/
def put_slices (o : Opened) : Nc W Unit := do
  malloc (alloc .energy_omni)
  nc (lib.nc_put_vara_double o.ncid o.varid_espec [o.time_idx, 0] [1, spec.nfreq] (energy_omni spec))
  malloc (alloc .full_buf)
  nc (lib.nc_put_vara_double o.ncid o.varid_fullspec [o.time_idx, 0, 0] [1, spec.ndir, spec.nfreq]
    (full_buf spec))
  nc (lib.nc_close o.ncid)

/-- What comes before the write of the time. -/
def prepare (is_first : Bool) : Nc W Opened := do
  (if is_first then create_file lib filename m alloc spec else pure ())
  open_file lib filename

def put_time (o : Opened) (time_seconds : R) : Nc W Unit :=
  nc (lib.nc_put_var1_double o.ncid o.varid_time [o.time_idx] time_seconds)

def write_spectrum_to_netcdf (time_seconds : R) (is_first : Bool) : Nc W Unit := do
  let o ← prepare lib filename m alloc spec is_first
  put_time lib o time_seconds
  put_slices lib alloc spec o

end Write

end OtusCProg.PointWaveModel
