import OtusCProg.Library.Decimal
import OtusCProg.Daemon.Model

/-!
# The line of a pid file

`check_pid_file` reads back the pid whose digits `create_pid_file` has written,
whether the newline behind them has reached the file or not.
-/

namespace OtusCProg.Daemon
open Library
open LogReader (fgets)

/-- Bytes in front of the newline are read one after another. -/
theorem fgets_behind {n : Nat} {s : Text} (rest : Text) (hnewline : (10 : UInt8) ∉ s)
    (hroom : s.length < n) : (fgets n (s ++ rest)).1 = s ++ (fgets (n - s.length) rest).1 := by
  induction s generalizing n with
  | nil => rfl
  | cons c s ih =>
      obtain ⟨n, rfl⟩ := Nat.exists_eq_succ_of_ne_zero (Nat.ne_zero_of_lt hroom)
      have hc : c ≠ 10 := fun heq => hnewline (heq ▸ List.mem_cons_self)
      have hs := ih (fun hmem => hnewline (List.mem_cons_of_mem c hmem))
        (Nat.lt_of_succ_lt_succ hroom)
      rw [List.cons_append, fgets, if_neg hc, List.length_cons, Nat.succ_sub_succ]
      exact congrArg (c :: ·) hs

/-- A pid is read back from its digits, with the newline or without. -/
theorem parse_pid_decimal {p : Nat} (hpos : 0 < p) (hmax : p ≤ INT_MAX) {rest : Text}
    (hrest : rest = [] ∨ rest = [10]) : parse_pid (decimal p ++ rest) = .pid p := by
  have hp : p < 2 ^ 63 := hmax.trans_lt (by decide)
  have hread : strtol (decimal p ++ rest) = ((p : Int), rest) := by
    apply strtol_decimal hp
    rcases hrest with rfl | rfl
    · rfl
    · rfl
  have hne : rest ≠ decimal p ++ rest := by
    intro heq
    have hlen : (decimal p).length ≠ 0 := by
      rw [decimal_natCast, List.length_map]
      exact List.length_eq_zero_iff.not.mpr Nat.toDigits_ne_nil
    have := congrArg List.length heq
    rw [List.length_append] at this
    omega
  rw [parse_pid, hread]
  refine (if_neg ?_).trans (congrArg Check.pid (Int.toNat_natCast p))
  rintro (heq | hend | hneg | hlarge)
  · exact hne heq
  · rcases hrest with rfl | rfl
    · exact hend.2 rfl
    · exact hend.1 rfl
  · omega
  · exact absurd (Int.ofNat_le.mpr hmax) (not_le.mpr hlarge)

/-- A pid whose digits have all been written is the one `check_pid_file` finds. -/
theorem read_pid_file_line {p n : Nat} (hpos : 0 < p) (hmax : p ≤ INT_MAX)
    (hn : (decimal p).length ≤ n) : read_pid_file ((pid_line p).take n) = .pid p := by
  obtain ⟨rest, hrest, hline⟩ :
      ∃ rest : Text, (rest = [] ∨ rest = [10]) ∧ (pid_line p).take n = decimal p ++ rest := by
    refine ⟨[10].take (n - (decimal p).length), ?_, ?_⟩
    · cases n - (decimal p).length with
      | zero => exact Or.inl rfl
      | succ k => exact Or.inr (by rw [List.take_succ_cons, List.take_nil])
    · rw [pid_line, List.take_append, List.take_of_length_le hn]
  have hdigit : ∀ b ∈ decimal p, b ≠ 10 ∧ b ≠ 0 := by
    intro b hb
    have h := isdigit_of_mem_decimal hb
    constructor
    · rintro rfl
      cases h
    · rintro rfl
      cases h
  have hlen : (decimal p).length ≤ 10 :=
    (length_decimal_natCast_le (by decide)).mpr (hmax.trans_lt (by decide))
  have hread : (fgets (32 - 1) (decimal p ++ rest)).1 = decimal p ++ rest := by
    rw [fgets_behind rest (fun hmem => (hdigit 10 hmem).1 rfl) (by omega)]
    obtain ⟨k, hk⟩ : ∃ k, 32 - 1 - (decimal p).length = k + 1 := ⟨30 - (decimal p).length, by omega⟩
    rw [hk]
    rcases hrest with rfl | rfl
    · rfl
    · rfl
  have hcstr : cstr (decimal p ++ rest) = decimal p ++ rest := by
    apply cstr_eq_self
    intro hmem
    rcases List.mem_append.mp hmem with hmem | hmem
    · exact (hdigit 0 hmem).2 rfl
    · rcases hrest with rfl | rfl
      · cases hmem
      · cases List.mem_singleton.mp hmem
  have hparse := parse_pid_decimal hpos hmax hrest
  have hne : decimal p ++ rest ≠ [] := by
    intro hnil
    rw [hnil] at hparse
    cases hparse
  rw [hline, read_pid_file, hread, if_neg hne, hcstr, hparse]

end OtusCProg.Daemon
