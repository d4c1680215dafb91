import OtusCProg.LogReader.Model
import OtusCProg.Library.Segments

/-!
# The names of log files

`is_log_file` looks at what stands behind the first `.log` of a name. A log file is
named by what its name ends with, so a name with an earlier `.log` is missed.
-/

namespace OtusCProg.LogReader
open Library

/-- What `is_log_file` accepts behind the first `.log`. -/
def log_suffix : Text → Bool
  | [] => true
  | c :: p => if c = 46 then if p = [] then false else p.all isdigit else false

/-- `is_log_file` -/
def is_log_file (name : Text) : Bool :=
  match strstr (text ".log") name with
  | none => false
  | some logpos => log_suffix (logpos.drop 4)

/-- `list_files` on the entries that `readdir` returns, each with the answer of `stat`
whether it is a regular file. -/
def list_files (dir_path : Text) (entries : List (Text × Bool)) : List Text :=
  entries.filterMap fun ent =>
    if is_log_file ent.1 && ent.2 then some (dir_path ++ text "/" ++ ent.1) else none

/-- Behind `.log` stands nothing, or a dot and a number. -/
def LogTail (tail : Text) : Prop :=
  tail = [] ∨ ∃ number : Text, number ≠ [] ∧ number.all isdigit = true ∧ tail = 46 :: number

/-- The name of a log file, rotated or not. -/
def LogName (name : Text) : Prop :=
  ∃ front tail, LogTail tail ∧ name = front ++ (text ".log" ++ tail)

section Names
variable {name front tail : Text}

/-- A regular file is listed exactly when its name passes the filter. -/
theorem mem_list_files {dir_path : Text} {entries : List (Text × Bool)} :
    dir_path ++ text "/" ++ name ∈ list_files dir_path entries ↔
      (name, true) ∈ entries ∧ is_log_file name = true := by
  simp only [list_files, List.mem_filterMap, Option.ite_none_right_eq_some, Option.some.injEq,
    List.append_cancel_left_eq, Bool.and_eq_true]
  constructor
  · rintro ⟨⟨_, _⟩, hmem, ⟨hname, rfl⟩, rfl⟩
    exact ⟨hmem, hname⟩
  · rintro ⟨hmem, hname⟩
    exact ⟨(name, true), hmem, ⟨hname, rfl⟩, rfl⟩

theorem log_suffix_iff : log_suffix tail = true ↔ LogTail tail := by
  cases tail with
  | nil => simp [log_suffix, LogTail]
  | cons c p => simp [log_suffix, LogTail, and_left_comm, and_comm]

/-- The number of a rotated log has no letter. -/
theorem not_mem_logTail (h : LogTail (front ++ tail)) {c : UInt8} (hc : c ≠ 46)
    (hdigit : isdigit c = false) : c ∉ tail := by
  intro hmem
  rcases h with hnil | ⟨number, -, hall, heq⟩
  · rw [(List.append_eq_nil_iff.mp hnil).2] at hmem
    cases hmem
  · have hmem' : c ∈ 46 :: number := by
      rw [← heq]
      exact List.mem_append_right front hmem
    rcases List.mem_cons.mp hmem' with rfl | hnumber
    · exact hc rfl
    · rw [List.all_eq_true.mp hall c hnumber] at hdigit
      cases hdigit

/-- The pattern `.log` is not cut by a boundary in front of a dot. -/
theorem uncut_log (front tail : Text) : UncutAt (text ".log") front (text ".log" ++ tail) := by
  intro a b ha hb heq _ hprefix
  obtain ⟨c, a, rfl⟩ := List.exists_cons_of_ne_nil ha
  obtain ⟨d, b, rfl⟩ := List.exists_cons_of_ne_nil hb
  have htail : text "log" = a ++ d :: b := (List.cons.inj heq).2
  have hd : d ∈ text "log" := by
    rw [htail]
    exact List.mem_append_right a List.mem_cons_self
  have hdot : d = 46 := (List.cons_prefix_cons.mp hprefix).1
  rw [hdot] at hd
  exact absurd hd (by decide)

/-- Where the ending is the first `.log`, the name passes the filter. -/
theorem is_log_file_of_first (htail : LogTail tail) (hfront : ¬ text ".log" <:+: front) :
    is_log_file (front ++ (text ".log" ++ tail)) = true := by
  have hfirst : strstr (text ".log") (text ".log" ++ tail) = some (text ".log" ++ tail) :=
    if_pos (List.isPrefixOf_iff_prefix.mpr (List.prefix_append (text ".log") tail))
  rw [is_log_file, strstr_append_of_uncut hfront (uncut_log front tail), hfirst]
  exact log_suffix_iff.mpr htail

/-- An earlier `.log` makes the filter reject the name. -/
theorem is_log_file_of_earlier (hfront : text ".log" <:+: front) (tail : Text) :
    is_log_file (front ++ (text ".log" ++ tail)) = false := by
  obtain ⟨rest, hrest⟩ := Option.isSome_iff_exists.mp (strstr_isSome.mpr hfront)
  obtain ⟨behind, rfl⟩ := prefix_of_strstr hrest
  rw [is_log_file, strstr_append_of_some hrest, Bool.eq_false_iff]
  intro haccepted
  have hlog : LogTail (behind ++ (text ".log" ++ tail)) := log_suffix_iff.mp haccepted
  refine not_mem_logTail hlog (c := 108) (by decide) (by decide) ?_
  exact List.mem_append_left tail (by decide)

/-- A name that passes the filter is the name of a log file. -/
theorem logName_of_is_log_file (h : is_log_file name = true) : LogName name := by
  rw [is_log_file] at h
  split at h
  · cases h
  · rename_i logpos hlogpos
    obtain ⟨front, rfl⟩ := strstr_isSuffix hlogpos
    obtain ⟨tail, rfl⟩ := prefix_of_strstr hlogpos
    exact ⟨front, tail, log_suffix_iff.mp h, rfl⟩

end Names

/-- The filter accepts exactly the log files by name, if and only if no `.log` stands
in front of the ending that makes the name one of a log file. -/
theorem is_log_file_correct_iff (name : Text) :
    (is_log_file name = true ↔ LogName name) ↔
      ∀ front tail, LogTail tail → name = front ++ (text ".log" ++ tail) → ¬ text ".log" <:+: front := by
  constructor
  · rintro hcorrect front tail htail rfl hfront
    have haccepted := hcorrect.mpr ⟨front, tail, htail, rfl⟩
    rw [is_log_file_of_earlier hfront tail] at haccepted
    cases haccepted
  · intro hfirst
    refine ⟨logName_of_is_log_file, ?_⟩
    rintro ⟨front, tail, htail, rfl⟩
    exact is_log_file_of_first htail (hfirst front tail htail rfl)

/-- A log file whose name has `.log` in it twice is not considered. -/
theorem is_log_file_misses : ¬∀ name : Text, is_log_file name = true ↔ LogName name := by
  intro hall
  have hname : LogName (text "login.log.log") := ⟨text "login.log", [], .inl rfl, rfl⟩
  exact absurd ((hall _).mpr hname) (by decide)

end OtusCProg.LogReader
