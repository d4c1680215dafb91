import OtusCProg.ZipJpeg.EndRecord

/-!
# The ZIP parser reads inside its input

Every read of `zip_read` is guarded by an earlier comparison with the length of
the input, so no input makes it look at a byte outside. Whatever value an offset
takes after wrapping, it is compared again before it is used.
-/

namespace OtusCProg.ZipJpeg
open Library LittleEndian

/-- A computation that does not read outside the input. -/
def Inside {α : Type} (x : Except Halt α) : Prop := x ≠ .error .outOfBounds

section Inside
variable {α β : Type} {x y : Except Halt α} {f : α → Except Halt β}

theorem Inside.ok (a : α) : Inside (.ok a) := nofun

theorem Inside.rejected : Inside (.error .rejected : Except Halt α) := nofun

/-- A sequence stays inside when its second part does after every result of the first. -/
theorem Inside.bind (hx : Inside x) (hf : ∀ a, x = .ok a → Inside (f a)) : Inside (x >>= f) := by
  cases x with
  | error halt =>
      intro h
      apply hx
      rw [← Except.error.inj h]
  | ok a => exact hf a rfl

theorem Inside.ite {p : Prop} [Decidable p] (hx : p → Inside x) (hy : ¬p → Inside y) :
    Inside (if p then x else y) := by
  by_cases h : p
  · rw [if_pos h]
    exact hx h
  · rw [if_neg h]
    exact hy h

end Inside

variable {src : List UInt8} {p zfo offset : Nat}

theorem READ16_inside (h : p + 2 ≤ src.length) : Inside (READ16 src p) := by
  obtain ⟨n, hn⟩ := read16_isSome src p h
  rw [READ16_eq_ok.mpr hn]
  exact Inside.ok n

theorem READ32_inside (h : p + 4 ≤ src.length) : Inside (READ32 src p) := by
  obtain ⟨n, hn⟩ := read32_isSome src p h
  rw [READ32_eq_ok.mpr hn]
  exact Inside.ok n

theorem bytes_at_inside {n : Nat} (h : p + n ≤ src.length) : Inside (bytes_at src p n) := by
  rw [bytes_at, if_pos h]
  exact Inside.ok _

theorem cfh_fields_inside (h : p + 42 ≤ src.length) : Inside (cfh_fields src p) := by
  unfold cfh_fields
  repeat
    first
      | refine Inside.bind (READ16_inside (by omega)) fun _ _ => ?_
      | refine Inside.bind (READ32_inside (by omega)) fun _ _ => ?_
  exact Inside.ok _

theorem lfh_fields_inside (h : p + 26 ≤ src.length) : Inside (lfh_fields src p) := by
  unfold lfh_fields
  repeat
    first
      | refine Inside.bind (READ16_inside (by omega)) fun _ _ => ?_
      | refine Inside.bind (READ32_inside (by omega)) fun _ _ => ?_
  exact Inside.ok _

/-- A central header is read inside the input, wherever it is looked for. -/
theorem read_cfh_reads_inside (src : List UInt8) (offset zfo : Nat) :
    Inside (read_cfh src offset zfo) := by
  unfold read_cfh
  refine Inside.ite (fun _ => Inside.rejected) fun hguard => ?_
  rw [not_or, CFH_BASE_SZ] at hguard
  refine Inside.bind (READ32_inside (by omega)) fun signature _ => ?_
  refine Inside.ite (fun _ => Inside.rejected) fun _ => ?_
  refine Inside.bind (cfh_fields_inside (by omega)) fun f _ => ?_
  exact Inside.ite (fun _ => Inside.rejected) fun _ => Inside.ok _

/-- A local header is read inside the input, wherever it is looked for. -/
theorem read_lfh_reads_inside (src : List UInt8) (offset : Nat) : Inside (read_lfh src offset) := by
  unfold read_lfh
  refine Inside.ite (fun _ => Inside.rejected) fun hguard => ?_
  rw [not_or, LFH_BASE_SZ] at hguard
  refine Inside.bind (READ32_inside (by omega)) fun signature _ => ?_
  refine Inside.ite (fun _ => Inside.rejected) fun _ => ?_
  refine Inside.bind (lfh_fields_inside (by omega)) fun f _ => ?_
  exact Inside.ite (fun _ => Inside.rejected) fun _ => Inside.ok _

/-- The search for the end record reads inside the input. -/
theorem find_eocdr_from_reads_inside (src : List UInt8) (turns comment_len : Nat) :
    Inside (find_eocdr_from src turns comment_len) := by
  induction turns generalizing comment_len with
  | zero => exact Inside.rejected
  | succ turns ih =>
      by_cases hfits : EOCDR_BASE_SZ + comment_len ≤ src.length
      · rcases find_eocdr_from_succ turns hfits with ⟨_, f, _, _, hstep⟩ | ⟨_, hstep⟩
        · rw [hstep]
          exact Inside.ok _
        · rw [hstep]
          exact ih (comment_len + 1)
      · rw [find_eocdr_from, if_pos (Nat.lt_of_not_le hfits)]
        exact Inside.rejected

/-- The name, the local header and the data of a member are checked without a
read outside the input. -/
theorem check_member_reads_inside (src : List UInt8) (zfo offset : Nat) :
    Inside (check_member src zfo offset) := by
  unfold check_member
  refine Inside.bind (read_cfh_reads_inside src offset zfo) fun cfh hcfh => ?_
  have hname : cfh.name + cfh.name_len ≤ src.length := by
    obtain ⟨f, _, _, hinside, rfl⟩ := read_cfh_eq_ok.mp hcfh
    simp only [next_header] at hinside
    show offset + CFH_BASE_SZ + f.name_len ≤ src.length
    omega
  refine Inside.ite (fun _ => Inside.rejected) fun _ => ?_
  refine Inside.ite (fun _ => Inside.rejected) fun _ => ?_
  refine Inside.ite (fun _ => Inside.rejected) fun _ => ?_
  refine Inside.ite (fun _ => Inside.rejected) fun _ => ?_
  refine Inside.bind (bytes_at_inside hname) fun name _ => ?_
  refine Inside.ite (fun _ => Inside.rejected) fun _ => ?_
  refine Inside.bind (read_lfh_reads_inside src cfh.lfh_offset) fun lfh _ => ?_
  exact Inside.ite (fun _ => Inside.rejected) fun _ => Inside.ok _

theorem check_members_reads_inside (src : List UInt8) (zfo n offset : Nat) :
    Inside (check_members src zfo n offset) := by
  induction n generalizing offset with
  | zero => exact Inside.ok offset
  | succ n ih =>
      exact Inside.bind (check_member_reads_inside src zfo offset) fun next _ => ih next

/-- On every input the parser reads only bytes of the input. -/
theorem zip_read_reads_inside (src : List UInt8) : zip_read src ≠ .error .outOfBounds := by
  apply Inside.bind (find_eocdr_from_reads_inside src 65536 0)
  intro eocdr _
  refine Inside.ite (fun _ => Inside.rejected) fun _ => ?_
  exact Inside.bind (check_members_reads_inside src _ _ _) fun last _ => Inside.ok _

end OtusCProg.ZipJpeg
