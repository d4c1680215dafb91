import OtusCProg.LogReader.Aggregation
import OtusCProg.LogReader.Fields
import OtusCProg.Library.CBuffer

/-!
# Lines longer than the buffer

`fgets` hands over a line that is longer than the buffer in pieces, and each piece
is parsed as a line of its own. A line is parsed like its first piece where that
piece is accepted; the other pieces are all that the loop can get wrong.
-/

namespace OtusCProg.LogReader
open Library

/-- The lines of a file, without their newlines. -/
def lines (s : Text) : List Text := s.splitOn 10

/-- The pieces in which `fgets` hands over the bytes of a line. -/
def pieces (line : Text) : List Text :=
  if line.length ≤ MAX_LINE_LEN - 1 then [line]
  else line.take (MAX_LINE_LEN - 1) :: pieces (line.drop (MAX_LINE_LEN - 1))
termination_by line.length
decreasing_by
  rw [List.length_drop]
  have hpos : 0 < MAX_LINE_LEN - 1 := by decide
  omega

/-- The records of the pieces of a line. -/
def pieceRecords (line : Text) : List Record := (pieces line).filterMap parse_log_line

/-- The lines that need more than one piece. -/
def longLines (s : Text) : List Text :=
  (lines s).filter fun line => MAX_LINE_LEN - 1 < line.length

/-- The records that stand in the pieces behind the first. -/
def extraRecords (long : List Text) : List Record :=
  long.flatMap fun line => pieceRecords (line.drop (MAX_LINE_LEN - 1))

/-- The records of the lines whose first piece is rejected. -/
def lostRecords (long : List Text) : List Record :=
  (long.filter fun line => (parse_log_line (line.take (MAX_LINE_LEN - 1))).isNone).filterMap
    parse_log_line

section Fgets
variable {n : Nat} {line : Text}

theorem fgets_line (h : 10 ∉ line) (hlen : line.length < n) (rest : Text) :
    fgets n (line ++ 10 :: rest) = (line ++ [10], rest) := by
  induction line generalizing n with
  | nil =>
      obtain ⟨n, rfl⟩ := Nat.exists_eq_succ_of_ne_zero (Nat.ne_zero_of_lt hlen)
      rfl
  | cons c line ih =>
      obtain ⟨n, rfl⟩ := Nat.exists_eq_succ_of_ne_zero (Nat.ne_zero_of_lt hlen)
      rw [List.mem_cons, not_or] at h
      rw [List.cons_append, fgets, if_neg (Ne.symm h.1), ih h.2 (Nat.lt_of_succ_lt_succ hlen)]
      rfl

/-- A full buffer ends the read. -/
theorem fgets_full (h : 10 ∉ line) (rest : Text) : fgets line.length (line ++ rest) = (line, rest) := by
  induction line with
  | nil => rfl
  | cons c line ih =>
      rw [List.mem_cons, not_or] at h
      rw [List.length_cons, List.cons_append, fgets, if_neg (Ne.symm h.1), ih h.2]

/-- The end of the file ends the read. -/
theorem fgets_end (h : 10 ∉ line) (hlen : line.length ≤ n) : fgets n line = (line, []) := by
  induction line generalizing n with
  | nil => cases n <;> rfl
  | cons c line ih =>
      obtain ⟨n, rfl⟩ := Nat.exists_eq_succ_of_ne_zero (Nat.ne_zero_of_lt hlen)
      rw [List.mem_cons, not_or] at h
      rw [fgets, if_neg (Ne.symm h.1), ih h.2 (Nat.le_of_succ_le_succ hlen)]

end Fgets

section Loop
variable {line rest s : Text}

theorem records_read {front behind : Text} (hs : s ≠ []) (hzero : 0 ∉ front)
    (hread : fgets (MAX_LINE_LEN - 1) s = (front, behind)) :
    records s = (parse_log_line front).toList ++ records behind := by
  rw [records_of_ne_nil hs, read_line, hread]
  dsimp only
  rw [show cstring front = front from cstr_eq_self hzero]

theorem pieceRecords_short (h : line.length ≤ MAX_LINE_LEN - 1) :
    pieceRecords line = (parse_log_line line).toList := by
  rw [pieceRecords, pieces, if_pos h, List.filterMap_cons, List.filterMap_nil]
  cases parse_log_line line <;> rfl

theorem pieceRecords_long (h : ¬line.length ≤ MAX_LINE_LEN - 1) :
    pieceRecords line = (parse_log_line (line.take (MAX_LINE_LEN - 1))).toList ++
      pieceRecords (line.drop (MAX_LINE_LEN - 1)) := by
  rw [pieceRecords, pieces, if_neg h, List.filterMap_cons, pieceRecords]
  cases parse_log_line (line.take (MAX_LINE_LEN - 1)) <;> rfl

/-- The first piece of a long line, with any bytes behind the line. -/
theorem records_first_piece (hnewline : 10 ∉ line) (hzero : 0 ∉ line)
    (hlong : ¬line.length ≤ MAX_LINE_LEN - 1) (rest : Text) :
    records (line ++ rest) = (parse_log_line (line.take (MAX_LINE_LEN - 1))).toList ++
      records (line.drop (MAX_LINE_LEN - 1) ++ rest) := by
  have hlen : (line.take (MAX_LINE_LEN - 1)).length = MAX_LINE_LEN - 1 :=
    List.length_take_of_le (Nat.le_of_not_le hlong)
  have hsplit : line ++ rest =
      line.take (MAX_LINE_LEN - 1) ++ (line.drop (MAX_LINE_LEN - 1) ++ rest) := by
    rw [← List.append_assoc, List.take_append_drop]
  apply records_read
  · rintro hnil
    rw [(List.append_eq_nil_iff.mp hnil).1] at hlong
    exact hlong (Nat.zero_le _)
  · exact fun hmem => hzero (List.mem_of_mem_take hmem)
  · have hfree : 10 ∉ line.take (MAX_LINE_LEN - 1) :=
      fun hmem => hnewline (List.mem_of_mem_take hmem)
    have hfull := fgets_full hfree (line.drop (MAX_LINE_LEN - 1) ++ rest)
    rwa [hlen, ← hsplit] at hfull

/-- The newline behind a full buffer is a piece of its own. -/
theorem records_newline (rest : Text) : records (10 :: rest) = records rest := by
  have hread : fgets (MAX_LINE_LEN - 1) (10 :: rest) = ([10], rest) :=
    fgets_line List.not_mem_nil (by decide) rest
  exact records_read (List.cons_ne_nil 10 rest) (by decide) hread

/-- A line with its newline is read piece by piece. -/
theorem records_line (hnewline : 10 ∉ line) (hzero : 0 ∉ line) (rest : Text) :
    records (line ++ 10 :: rest) = pieceRecords line ++ records rest := by
  induction line using pieces.induct with
  | case1 line hshort =>
      rw [pieceRecords_short hshort]
      rcases Nat.lt_or_eq_of_le hshort with hlt | heq
      · rw [← parse_log_line_newline]
        apply records_read
        · simp
        · exact List.not_mem_append hzero (by decide)
        · exact fgets_line hnewline hlt rest
      · rw [← records_newline rest]
        apply records_read
        · simp
        · exact hzero
        · rw [← heq]
          exact fgets_full hnewline (10 :: rest)
  | case2 line hlong ih =>
      rw [records_first_piece hnewline hzero hlong, pieceRecords_long hlong, List.append_assoc,
        ih (fun hmem => hnewline (List.mem_of_mem_drop hmem))
          (fun hmem => hzero (List.mem_of_mem_drop hmem))]

/-- So is the last line, without one. -/
theorem records_last_line (hnewline : 10 ∉ line) (hzero : 0 ∉ line) :
    records line = pieceRecords line := by
  induction line using pieces.induct with
  | case1 line hshort =>
      rw [pieceRecords_short hshort]
      cases line with
      | nil => rfl
      | cons c line =>
          have hread := records_read (List.cons_ne_nil c line) hzero (fgets_end hnewline hshort)
          exact hread.trans (List.append_nil _)
  | case2 line hlong ih =>
      have hfirst := records_first_piece hnewline hzero hlong []
      rw [List.append_nil, List.append_nil] at hfirst
      rw [hfirst, pieceRecords_long hlong,
        ih (fun hmem => hnewline (List.mem_of_mem_drop hmem))
          (fun hmem => hzero (List.mem_of_mem_drop hmem))]

/-- The loop counts the records of the pieces of each line. -/
theorem records_eq (hzero : 0 ∉ s) : records s = (lines s).flatMap pieceRecords := by
  induction hn : s.length using Nat.strong_induction_on generalizing s with
  | _ n ih =>
      by_cases hnewline : (10 : UInt8) ∈ s
      · obtain ⟨line, rest, rfl, hline⟩ := List.eq_append_cons_of_mem hnewline
        rw [List.mem_append, List.mem_cons, not_or, not_or] at hzero
        have hlt : rest.length < n := by
          rw [← hn, List.length_append, List.length_cons]
          omega
        rw [records_line hline hzero.1, lines, List.splitOn_append_cons_self_of_not_mem hline,
          List.flatMap_cons, ih rest.length hlt hzero.2.2 rfl]
        rfl
      · rw [records_last_line hnewline hzero, lines, List.splitOn_eq_singleton hnewline,
          List.flatMap_singleton]

end Loop

section Count

theorem filterMap_cons_toList {α β : Type*} (f : α → Option β) (a : α) (l : List α) :
    (a :: l).filterMap f = (f a).toList ++ l.filterMap f := by
  rw [List.filterMap_cons]
  cases f a <;> rfl

/-- A line whose first piece is accepted is accepted with the same record. -/
theorem parse_long_line (line : Text) (n : Nat) :
    (parse_log_line line).toList = (parse_log_line (line.take n)).toList ++
      if (parse_log_line (line.take n)).isNone then (parse_log_line line).toList else [] := by
  cases hfirst : parse_log_line (line.take n) with
  | none => rfl
  | some r =>
      have hline := parse_log_line_append hfirst (line.drop n)
      rw [List.take_append_drop] at hline
      rw [hline]
      rfl

theorem lostRecords_cons (line : Text) (long : List Text) :
    lostRecords (line :: long) =
      (if (parse_log_line (line.take (MAX_LINE_LEN - 1))).isNone then (parse_log_line line).toList
        else []) ++ lostRecords long := by
  rw [lostRecords, List.filter_cons]
  split
  · exact filterMap_cons_toList parse_log_line line _
  · rfl

/-- What is added on both sides of a balance, and what is moved to the other side. -/
theorem add_both_of_eq {M : Type*} [AddCommMonoid M] {a b c d : M} (first extra lost : M)
    (h : a + b = c + d) : first + extra + a + (lost + b) = first + lost + c + (extra + d) := by
  calc
    first + extra + a + (lost + b) = first + lost + extra + (a + b) := by abel
    _ = first + lost + extra + (c + d) := by rw [h]
    _ = first + lost + c + (extra + d) := by abel

/-- The records of the pieces and those of the lines differ in what the long lines
lose and what they give besides. -/
theorem pieceRecords_add_lost (ls : List Text) :
    (↑(ls.flatMap pieceRecords) : Multiset Record) +
        ↑(lostRecords (ls.filter fun line => MAX_LINE_LEN - 1 < line.length)) =
      ↑(ls.filterMap parse_log_line) +
        ↑(extraRecords (ls.filter fun line => MAX_LINE_LEN - 1 < line.length)) := by
  induction ls with
  | nil => rfl
  | cons line ls ih =>
      rw [List.flatMap_cons, filterMap_cons_toList, List.filter_cons, ← Multiset.coe_add,
        ← Multiset.coe_add]
      by_cases hlong : MAX_LINE_LEN - 1 < line.length
      · rw [if_pos (by simpa using hlong), parse_long_line line (MAX_LINE_LEN - 1), lostRecords_cons,
          extraRecords, List.flatMap_cons, ← extraRecords, pieceRecords_long (Nat.not_le_of_lt hlong)]
        simp only [← Multiset.coe_add]
        exact add_both_of_eq _ _ _ ih
      · rw [if_neg (by simpa using hlong), pieceRecords_short (Nat.le_of_not_lt hlong), add_assoc, ih,
          add_assoc]

end Count

/-- The `fgets` loop counts one record for each line that is parsed, if and only if
the pieces of the long lines behind the first give, as a multiset, the records of
those long lines whose first piece is rejected. -/
theorem records_eq_lines_iff {s : Text} (hzero : 0 ∉ s) :
    (↑(records s) : Multiset Record) = ↑((lines s).filterMap parse_log_line) ↔
      (↑(extraRecords (longLines s)) : Multiset Record) = ↑(lostRecords (longLines s)) := by
  have hadd := pieceRecords_add_lost (lines s)
  rw [← records_eq hzero, ← longLines] at hadd
  constructor
  · intro hsame
    rw [hsame] at hadd
    exact (add_left_cancel hadd).symm
  · intro hsame
    rw [hsame] at hadd
    exact add_right_cancel hadd

/-- A log line, and the bytes of a user agent that fill the buffer behind it. -/
def shortLine : Text := text "a b c [t] \"G / H\" 1 2 \"r\""

def filler : Text := List.replicate (MAX_LINE_LEN - 1 - shortLine.length) 97

section Filled
variable (tail : Text)

theorem length_filled : (shortLine ++ filler).length = MAX_LINE_LEN - 1 := by
  rw [List.length_append, filler, List.length_replicate]
  exact Nat.add_sub_of_le (by decide)

theorem not_mem_filled {c : UInt8} {tail : Text} (hshort : c ∉ shortLine) (hc : c ≠ 97) (htail : c ∉ tail) :
    c ∉ shortLine ++ filler ++ tail := by
  have hfiller : c ∉ filler := fun hmem => hc (List.eq_of_mem_replicate hmem)
  exact List.not_mem_append (List.not_mem_append hshort hfiller) htail

theorem filled_long {tail : Text} (htail : tail ≠ []) :
    MAX_LINE_LEN - 1 < (shortLine ++ filler ++ tail).length := by
  rw [List.length_append, length_filled]
  exact Nat.lt_add_of_pos_right (List.length_pos_of_ne_nil htail)

theorem take_filled : (shortLine ++ filler ++ tail).take (MAX_LINE_LEN - 1) = shortLine ++ filler :=
  List.take_left' length_filled

theorem drop_filled : (shortLine ++ filler ++ tail).drop (MAX_LINE_LEN - 1) = tail :=
  List.drop_left' length_filled

theorem parse_shortLine : parse_log_line shortLine = some ⟨text "/", 2, text "r"⟩ := by decide

/-- What follows the record of a line does not matter. -/
theorem parse_filled : parse_log_line (shortLine ++ filler ++ tail) = some ⟨text "/", 2, text "r"⟩ := by
  rw [List.append_assoc]
  exact parse_log_line_append parse_shortLine _

end Filled

/-- A file with a short line and a line of one byte more than the buffer takes. -/
def oneLong : Text := shortLine ++ 10 :: (shortLine ++ filler ++ [97])

theorem lines_oneLong : lines oneLong = [shortLine, shortLine ++ filler ++ [97]] := by
  rw [lines, oneLong, List.splitOn_append_cons_self_of_not_mem (by decide),
    List.splitOn_eq_singleton (not_mem_filled (by decide) (by decide) (by decide))]

theorem longLines_oneLong : longLines oneLong = [shortLine ++ filler ++ [97]] := by
  have hshort : ¬MAX_LINE_LEN - 1 < shortLine.length := by decide
  have hlong : MAX_LINE_LEN - 1 < (shortLine ++ filler ++ [97]).length := filled_long (List.cons_ne_nil _ _)
  rw [longLines, lines_oneLong, List.filter_cons_of_neg (by simpa using hshort),
    List.filter_cons_of_pos (by simpa using hlong), List.filter_nil]

/-- Both lines are counted once: the long line is accepted by its first piece, and there is no
record in its second. -/
theorem records_eq_lines_iff_oneLong :
    (↑(extraRecords (longLines oneLong)) : Multiset Record) = ↑(lostRecords (longLines oneLong)) ∧
      (lines oneLong).filterMap parse_log_line = [⟨text "/", 2, text "r"⟩, ⟨text "/", 2, text "r"⟩] ∧
      (↑(records oneLong) : Multiset Record) = ↑((lines oneLong).filterMap parse_log_line) := by
  have hextra : extraRecords (longLines oneLong) = [] := by
    rw [longLines_oneLong, extraRecords, List.flatMap_singleton, drop_filled,
      pieceRecords_short (by decide)]
    rfl
  have hlost : lostRecords (longLines oneLong) = [] := by
    have hfirst := parse_filled []
    rw [List.append_nil] at hfirst
    rw [longLines_oneLong, lostRecords_cons, take_filled, hfirst]
    rfl
  have hsame : (↑(extraRecords (longLines oneLong)) : Multiset Record) =
      ↑(lostRecords (longLines oneLong)) := by
    rw [hextra, hlost]
  have hzero : 0 ∉ oneLong := by
    rw [oneLong]
    refine List.not_mem_append (by decide) (List.not_mem_cons_of_ne_of_not_mem (by decide) ?_)
    exact not_mem_filled (by decide) (by decide) (by decide)
  refine ⟨hsame, ?_, (records_eq_lines_iff hzero).mpr hsame⟩
  rw [lines_oneLong, List.filterMap_cons, parse_shortLine, List.filterMap_cons, parse_filled]
  rfl

/-- One line that carries a log line in its user agent is counted twice. -/
theorem records_counts_twice : ¬∀ s : Text, 0 ∉ s →
    (↑(records s) : Multiset Record) = ↑((lines s).filterMap parse_log_line) := by
  intro hall
  have hnewline : (10 : UInt8) ∉ shortLine ++ filler ++ shortLine :=
    not_mem_filled (by decide) (by decide) (by decide)
  have hzero : (0 : UInt8) ∉ shortLine ++ filler ++ shortLine :=
    not_mem_filled (by decide) (by decide) (by decide)
  have hlong : MAX_LINE_LEN - 1 < (shortLine ++ filler ++ shortLine).length := filled_long (by decide)
  have hfirst := parse_filled []
  rw [List.append_nil] at hfirst
  have hrecords : records (shortLine ++ filler ++ shortLine) =
      [⟨text "/", 2, text "r"⟩, ⟨text "/", 2, text "r"⟩] := by
    rw [records_last_line hnewline hzero, pieceRecords_long (Nat.not_le_of_lt hlong), take_filled,
      drop_filled, pieceRecords_short (by decide), hfirst, parse_shortLine]
    rfl
  have hlines : (lines (shortLine ++ filler ++ shortLine)).filterMap parse_log_line =
      [⟨text "/", 2, text "r"⟩] := by
    rw [lines, List.splitOn_eq_singleton hnewline, List.filterMap_cons, parse_filled]
    rfl
  have hsame := hall (shortLine ++ filler ++ shortLine) hzero
  rw [hrecords, hlines] at hsame
  cases congrArg Multiset.card hsame

end OtusCProg.LogReader
