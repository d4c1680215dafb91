import OtusCProg.Codepage.Conversion
import OtusCProg.Library.Allocator
import OtusCProg.Library.CBuffer
import OtusCProg.ZipJpeg.Bounds
import OtusCProg.ZipJpeg.Prefix

/-!
# The program `zipjpeg`

`main` with the file it reads, the block it reads it into and what it prints to
`stdout`. The allocator and the file system may refuse anything; then the program
exits with what it has printed so far.
-/

namespace OtusCProg.ZipJpeg.Program
open Library LittleEndian MachineInt Allocator Attempt

/-- What the program asks from outside: which requests for memory are granted, the file of a
name, whether the `n`-th `fread` fails, and whether `fclose` succeeds. -/
structure Outside where
  grants : Nat → Bool
  fopen : Text → Option Text
  ferror : Nat → Bool
  fclose : Bool

/-- How the program ends before the end of `main`: by `exit(1)` behind some output, in the parser,
or at the bound of the model. -/
inductive Stop where
  | exit1 (stdout : Text)
  | halted (reason : Halt)
  | bound
deriving DecidableEq

/-- The program reaches its end or stops before. -/
abbrev Run := Attempt Stop Allocator

section Reading
variable (o : Outside) (stdout : Text)

def xmalloc : Run Nat := do
  match ← malloc o.grants with
  | none => throw (.exit1 stdout)
  | some ptr => return ptr

def xrealloc (ptr : Nat) : Run Nat := do
  match ← realloc o.grants ptr with
  | none => throw (.exit1 stdout)
  | some ptr => return ptr

/-- The block of `read_file`, twice as large where it is full. -/
def grow (buf : Nat) (r : Codepage.Reader) : Run Nat :=
  if r.buf_cap - r.file_sz = 0 then xrealloc o stdout buf else pure buf

/-- The loop of `read_file`, whose turns on the buffer are those of the other program that has it;
`n` counts the calls of `fread`. -/
def read_loop (file : Text) : Nat → Nat → Nat → Codepage.Reader → Run (Nat × Codepage.Reader)
  | 0, _, _, _ => throw .bound
  | fuel + 1, n, buf, r =>
      if r.eof then return (buf, r)
      else do
        let buf ← grow o stdout buf r
        touch [buf]
        if o.ferror n then throw (.exit1 stdout)
        else read_loop file fuel (n + 1) buf (r.turn file)

/-- `read_file`: the block and the bytes of the file in it. -/
def read_file (filename : Text) (fuel : Nat) : Run (Nat × Text) := do
  match o.fopen filename with
  | none => throw (.exit1 stdout)
  | some file =>
      let buf ← xmalloc o stdout
      let (buf, r) ← read_loop o stdout file fuel 0 buf ⟨[], 4096, 0, false⟩
      if o.fclose then return (buf, r.buf.take r.file_sz)
      else throw (.exit1 stdout)

end Reading

/-- `%.*s`: at most so many bytes, up to a zero byte. -/
def precision (src : Text) (place len : Nat) : Text := cstr (slice src place len)

/-- What is printed in front of the file. -/
def title (filename : Text) : Text := text "Listing ZIP archive: " ++ filename ++ text "\n\n"

def found : Text := text "ZIP archive is found\n"

def missing : Text := text "No ZIP file found\n"

/-- What is printed on the way by `find_eocdr`, or by `zip_read` where it finds nothing. -/
def notice (src : Text) : Text :=
  match find_eocdr src with
  | .ok _ => found
  | .error _ => missing

/-- What is printed of an archive. -/
def listing (src : Text) (z : Zip) (members : List Member) : Text :=
  (if z.comment_len ≠ 0 then precision src z.comment z.comment_len ++ text "\n\n" else []) ++
    members.flatMap (fun m => precision src m.name m.name_len ++ text "\n") ++ text "\n"

def list_zip (o : Outside) (fuel : Nat) (filename : Text) : Run Text := do
  let (buf, zip_data) ← read_file o (title filename) filename fuel
  touch [buf]
  let stdout := title filename ++ notice zip_data
  match zip_read zip_data with
  | .error .rejected => throw (.exit1 (stdout ++ text "Failed to parse ZIP file!\n"))
  | .error reason => throw (.halted reason)
  | .ok (z, zip_file_offset) =>
      match ZipJpeg.list_zip zip_data z zip_file_offset with
      | .error reason => throw (.halted reason)
      | .ok members =>
          touch [buf]
          free [buf]
          return stdout ++ listing zip_data z members

def print_usage (argv0 : Text) : Text :=
  text "Usage:\n\n" ++ text "  " ++ argv0 ++ text " list <zipfile>\n" ++ text "\n"

/-- The exit status and what was printed. -/
def main (o : Outside) (fuel : Nat) (argv0 : Text) : List Text → Run (Nat × Text)
  | [command, zipfile] => do
      if command = text "list" then
        let out ← list_zip o fuel zipfile
        return (0, out)
      else return (1, print_usage argv0)
  | _ => return (1, print_usage argv0)

/-! ## Reading the file -/

/-- Something that the program asks for is refused. -/
def Outside.Refuses (o : Outside) (filename : Text) : Prop :=
  (∃ n, o.grants n = false) ∨ o.fopen filename = none ∨ (∃ n, o.ferror n = true) ∨ o.fclose = false

/-- At `exit(1)` the block is live, if any. -/
def Refused (o : Outside) (filename stdout : Text) (stop : Stop) (u : Allocator) : Prop :=
  stop = .exit1 stdout ∧ o.Refuses filename ∧ ∃ blocks, u.Holds blocks ∧ blocks.length ≤ 1

section Reading
variable {o : Outside} {filename stdout file : Text} {h : Allocator} {buf : Nat}

theorem xmalloc_meets (hold : h.Holds []) :
    (xmalloc o stdout).Meets h (fun buf u => u.Holds [buf]) (Refused o filename stdout) := by
  refine (malloc_meets hold).bind ?_
  rintro p u ⟨hu, hrefused⟩
  cases p with
  | none => exact meets_throw ⟨rfl, Or.inl (hrefused rfl), [], hu, by simp⟩
  | some buf => exact meets_pure hu

theorem xrealloc_meets (hold : h.Holds [buf]) :
    (xrealloc o stdout buf).Meets h (fun buf u => u.Holds [buf]) (Refused o filename stdout) := by
  refine (realloc_meets hold).bind ?_
  rintro p u (⟨new, rfl, hu⟩ | ⟨rfl, hu, hrefused⟩)
  · exact meets_pure hu
  · exact meets_throw ⟨rfl, Or.inl hrefused, [buf], hu, by simp⟩

theorem grow_meets (r : Codepage.Reader) (hold : h.Holds [buf]) :
    (grow o stdout buf r).Meets h (fun buf u => u.Holds [buf]) (Refused o filename stdout) := by
  rw [grow]
  split
  · exact xrealloc_meets hold
  · exact meets_pure hold

/-- The loop of `read_file` keeps one block, which holds the file at the end. -/
theorem read_loop_meets {fuel n : Nat} {r : Codepage.Reader} (hinv : r.Inv file)
    (hfuel : r.left file < fuel) (hold : h.Holds [buf]) :
    (read_loop o stdout file fuel n buf r).Meets h
      (fun read u => read.2.buf.take read.2.file_sz = file ∧ u.Holds [read.1]) (Refused o filename stdout) := by
  induction fuel generalizing n buf r h with
  | zero => omega
  | succ fuel ih =>
      rw [read_loop]
      cases heof : r.eof with
      | true =>
          refine meets_pure ⟨?_, hold⟩
          rw [hinv.buf_eq, (hinv.at_end heof).1, List.take_length, List.take_length]
      | false =>
          refine (grow_meets r hold).bind fun new u hu => ?_
          refine (touch_meets hu (by simp)).bind fun _ v hv => ?_
          by_cases herror : o.ferror n = true
          · simp only [herror, if_true]
            exact meets_throw ⟨rfl, Or.inr (Or.inr (Or.inl ⟨n, herror⟩)), [new], hv, by simp⟩
          · simp only [herror]
            obtain ⟨hnext, hless⟩ := hinv.turn heof
            exact ih hnext (by omega) hv

theorem read_file_meets {fuel : Nat}
    (hfuel : ∀ file, o.fopen filename = some file → file.length + 1 < fuel) (hold : h.Holds []) :
    (read_file o stdout filename fuel).Meets h
      (fun read u => o.fopen filename = some read.2 ∧ u.Holds [read.1]) (Refused o filename stdout) := by
  rw [read_file]
  cases hopen : o.fopen filename with
  | none => exact meets_throw ⟨rfl, Or.inr (Or.inl hopen), [], hold, by simp⟩
  | some file =>
      refine (xmalloc_meets hold).bind fun buf u hu => ?_
      have hleft : Codepage.Reader.left file ⟨[], 4096, 0, false⟩ < fuel :=
        (Codepage.Reader.left_start file).trans_lt (hfuel file hopen)
      refine (read_loop_meets (Codepage.Reader.inv_start file) hleft hu).bind ?_
      rintro ⟨last, r⟩ v ⟨hread, hv⟩
      by_cases hclose : o.fclose = true
      · simp only [hclose, if_true]
        exact meets_pure ⟨by rw [hread], hv⟩
      · simp only [hclose]
        exact meets_throw ⟨rfl, Or.inr (Or.inr (Or.inr (Bool.eq_false_iff.mpr hclose))), [last], hv, by simp⟩

end Reading

/-! ## Parsing it -/

/-- The parser only refuses its input, or would read outside. -/
def Parses {α : Type} (x : Except Halt α) : Prop := ∀ e, x = .error e → e = .rejected ∨ e = .outOfBounds

section Parses
variable {α β : Type} {x y : Except Halt α} {f : α → Except Halt β} {src : Text}

theorem Parses.ok (a : α) : Parses (.ok a) := by
  intro e h
  cases h

theorem Parses.rejected : Parses (.error .rejected : Except Halt α) := by
  intro e h
  exact Or.inl (Except.error.inj h).symm

theorem Parses.bind (hx : Parses x) (hf : ∀ a, Parses (f a)) : Parses (x >>= f) := by
  cases x with
  | error halt =>
      intro e h
      exact hx e (congrArg Except.error (Except.error.inj h))
  | ok a => exact hf a

theorem Parses.ite {p : Prop} [Decidable p] (hx : Parses x) (hy : Parses y) : Parses (if p then x else y) := by
  split
  · exact hx
  · exact hy

theorem READ16_parses (src : Text) (p : Nat) : Parses (READ16 src p) := by
  intro e h
  rw [READ16] at h
  split at h
  · cases h
  · exact Or.inr (Except.error.inj h).symm

theorem READ32_parses (src : Text) (p : Nat) : Parses (READ32 src p) := by
  intro e h
  rw [READ32] at h
  split at h
  · cases h
  · exact Or.inr (Except.error.inj h).symm

theorem bytes_at_parses (src : Text) (p n : Nat) : Parses (bytes_at src p n) := by
  intro e h
  rw [bytes_at] at h
  split at h
  · cases h
  · exact Or.inr (Except.error.inj h).symm

theorem eocdr_fields_parses (src : Text) (p : Nat) : Parses (eocdr_fields src p) := by
  unfold eocdr_fields
  repeat
    first
      | refine Parses.bind (READ16_parses src _) fun _ => ?_
      | refine Parses.bind (READ32_parses src _) fun _ => ?_
  exact Parses.ok _

theorem cfh_fields_parses (src : Text) (p : Nat) : Parses (cfh_fields src p) := by
  unfold cfh_fields
  repeat
    first
      | refine Parses.bind (READ16_parses src _) fun _ => ?_
      | refine Parses.bind (READ32_parses src _) fun _ => ?_
  exact Parses.ok _

theorem lfh_fields_parses (src : Text) (p : Nat) : Parses (lfh_fields src p) := by
  unfold lfh_fields
  repeat
    first
      | refine Parses.bind (READ16_parses src _) fun _ => ?_
      | refine Parses.bind (READ32_parses src _) fun _ => ?_
  exact Parses.ok _

theorem read_cfh_parses (src : Text) (offset zfo : Nat) : Parses (read_cfh src offset zfo) := by
  unfold read_cfh
  refine Parses.ite Parses.rejected (Parses.bind (READ32_parses src _) fun signature => ?_)
  refine Parses.ite Parses.rejected (Parses.bind (cfh_fields_parses src _) fun f => ?_)
  exact Parses.ite Parses.rejected (Parses.ok _)

theorem read_lfh_parses (src : Text) (offset : Nat) : Parses (read_lfh src offset) := by
  unfold read_lfh
  refine Parses.ite Parses.rejected (Parses.bind (READ32_parses src _) fun signature => ?_)
  refine Parses.ite Parses.rejected (Parses.bind (lfh_fields_parses src _) fun f => ?_)
  exact Parses.ite Parses.rejected (Parses.ok _)

theorem find_eocdr_from_parses (src : Text) (turns comment_len : Nat) :
    Parses (find_eocdr_from src turns comment_len) := by
  induction turns generalizing comment_len with
  | zero => exact Parses.rejected
  | succ turns ih =>
      rw [find_eocdr_from]
      refine Parses.ite Parses.rejected (Parses.bind (READ32_parses src _) fun signature => ?_)
      refine Parses.ite (Parses.bind (eocdr_fields_parses src _) fun f => ?_) (ih _)
      exact Parses.ite (Parses.ok _) (ih _)

theorem check_members_parses (src : Text) (zfo n offset : Nat) : Parses (check_members src zfo n offset) := by
  induction n generalizing offset with
  | zero => exact Parses.ok offset
  | succ n ih =>
      refine Parses.bind ?_ fun next => ih next
      unfold check_member
      refine Parses.bind (read_cfh_parses src _ _) fun cfh => ?_
      refine Parses.ite Parses.rejected (Parses.ite Parses.rejected (Parses.ite Parses.rejected
        (Parses.ite Parses.rejected (Parses.bind (bytes_at_parses src _ _) fun name => ?_))))
      refine Parses.ite Parses.rejected (Parses.bind (read_lfh_parses src _) fun lfh => ?_)
      exact Parses.ite Parses.rejected (Parses.ok _)

/-- An archive has been found before it is accepted. -/
theorem notice_of_ok {z : Zip} {zfo : Nat} (h : zip_read src = .ok (z, zfo)) : notice src = found := by
  obtain ⟨eocdr, _, hfound, -⟩ := zip_read_eq_ok.mp h
  rw [notice, hfound]

/-- The parser accepts a file or rejects it. -/
theorem zip_read_cases (src : Text) :
    (∃ z zfo members, zip_read src = .ok (z, zfo) ∧ ZipJpeg.list_zip src z zfo = .ok members) ∨
      zip_read src = .error .rejected := by
  cases hread : zip_read src with
  | ok accepted =>
      obtain ⟨z, zfo⟩ := accepted
      obtain ⟨eocdr, members, _, _, _, _, _, _, hwalk, hzip⟩ := zip_read_eq_ok.mp hread
      have hbegin : z.members_begin = eocdr.cd_offset := by rw [hzip]
      rw [← hbegin] at hwalk
      exact Or.inl ⟨z, zfo, _, rfl, list_zip_of_walk hwalk⟩
  | error e =>
      right
      have hparses : Parses (zip_read src) := by
        unfold zip_read
        refine Parses.bind (find_eocdr_from_parses src _ _) fun eocdr => ?_
        exact Parses.ite Parses.rejected (Parses.bind (check_members_parses src _ _ _) fun last => Parses.ok _)
      have hinside : Inside (zip_read src) := by
        refine Inside.bind (find_eocdr_from_reads_inside src 65536 0) fun eocdr _ => ?_
        refine Inside.ite (fun _ => Inside.rejected) fun _ => ?_
        exact Inside.bind (check_members_reads_inside src _ _ _) fun last _ => Inside.ok _
      rcases hparses e hread with rfl | rfl
      · rfl
      · exact absurd hread hinside

end Parses

end OtusCProg.ZipJpeg.Program
