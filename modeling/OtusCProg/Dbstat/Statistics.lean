import OtusCProg.Library.CText
import OtusCProg.Library.Moments
import Mathlib.Algebra.Order.Ring.Unbundled.Rat

/-!
# The statistics of a column in `29_dbstat`

`process_rows` goes through the rows once, with two sums and the least and the
greatest value so far; rows without a number are counted apart. The numbers are
exact, and `strtod` is any function of the text of a row.
-/

namespace OtusCProg.Dbstat
open Library

/-- What a call of `strtod` leaves: its result, the position of `endptr`, and
whether `errno` is `ERANGE`. -/
structure Conversion where
  d : ℚ
  endptr : ℕ
  erange : Bool

/-- `stats_t` -/
structure Stats where
  count : ℕ
  skipped : ℕ
  sum : ℚ
  sum_sq : ℚ
  min : ℚ
  max : ℚ

variable (strtod : Text → Conversion)

/-- One turn of the loop of `process_rows`, with the flag `first`. -/
def process_row (s : Stats × Bool) (row : Option Text) : Stats × Bool :=
  let (stats, first) := s
  match row with
  | none => ({ stats with skipped := stats.skipped + 1 }, first)
  | some val =>
      let read := strtod val
      if read.erange then ({ stats with skipped := stats.skipped + 1 }, first)
      else if read.endptr = 0 ∨ val.getD read.endptr 0 ≠ 0 then
        ({ stats with skipped := stats.skipped + 1 }, first)
      else
        let d := read.d
        let stats :=
          if first then { stats with min := d, max := d }
          else { stats with
            min := if d < stats.min then d else stats.min
            max := if stats.max < d then d else stats.max }
        ({ stats with
            sum := stats.sum + d, sum_sq := stats.sum_sq + d * d, count := stats.count + 1 }, false)

/-- `process_rows` on the rows of the result: what it leaves in `stats`, and what it returns. -/
def process_rows (stats : Stats) (rows : List (Option Text)) : Stats × ℤ :=
  let start := { stats with count := 0, skipped := 0, sum := 0.0, sum_sq := 0.0 }
  let stats := (rows.foldl (process_row strtod) (start, true)).1
  (stats, if stats.count = 0 then -1 else 0)

/-- An argument of `printf`. -/
inductive Argument where
  | zu (n : ℕ)
  | g (x : ℚ)

/-- The calls of `printf` that `print_statistics` makes: the format and its argument. -/
def print_statistics (stats : Stats) : List (String × Argument) :=
  let mean := stats.sum / stats.count
  let variance := stats.sum_sq / stats.count - mean * mean
  [("Количество обработанных числовых значений: %zu\n", .zu stats.count)] ++
    (if 0 < stats.skipped then
      [("Пропущено нечисловых (или NULL) значений: %zu\n", .zu stats.skipped)] else []) ++
    [("Сумма:    %g\n", .g stats.sum), ("Среднее:  %g\n", .g mean), ("Минимум:  %g\n", .g stats.min),
      ("Максимум: %g\n", .g stats.max), ("Дисперсия: %g\n", .g variance)]

/-- The number of a row: `strtod` accepts its text to the end. -/
def number (row : Option Text) : Option ℚ :=
  match row with
  | none => none
  | some val =>
      let read := strtod val
      if ¬read.erange ∧ read.endptr ≠ 0 ∧ val.getD read.endptr 0 = 0 then some read.d else none

/-- The numbers of the column. -/
def numbers (rows : List (Option Text)) : List ℚ := rows.filterMap (number strtod)

variable {strtod} {rows : List (Option Text)} {row : Option Text} {s : Stats × Bool}

/-- The variables of the loop behind the rows. -/
structure Accumulated (strtod : Text → Conversion) (rows : List (Option Text)) (s : Stats × Bool) :
    Prop where
  count : s.1.count = (numbers strtod rows).length
  total : s.1.count + s.1.skipped = rows.length
  sum : s.1.sum = (numbers strtod rows).sum
  sum_sq : s.1.sum_sq = ((numbers strtod rows).map (· ^ 2)).sum
  first : s.2 = decide (numbers strtod rows = [])
  min : numbers strtod rows ≠ [] → IsLeast {x | x ∈ numbers strtod rows} s.1.min
  max : numbers strtod rows ≠ [] → IsGreatest {x | x ∈ numbers strtod rows} s.1.max

theorem numbers_append_of_none (h : number strtod row = none) :
    numbers strtod (rows ++ [row]) = numbers strtod rows := by
  rw [numbers, List.filterMap_append, List.filterMap_cons_none h, List.filterMap_nil, List.append_nil]
  rfl

theorem numbers_append_of_some {d : ℚ} (h : number strtod row = some d) :
    numbers strtod (rows ++ [row]) = numbers strtod rows ++ [d] := by
  rw [numbers, List.filterMap_append, List.filterMap_cons_some h, List.filterMap_nil]
  rfl

/-- A row without a number is skipped. -/
theorem process_row_of_none (h : number strtod row = none) :
    process_row strtod s row = ({ s.1 with skipped := s.1.skipped + 1 }, s.2) := by
  cases row with
  | none => rfl
  | some val =>
      rw [number, ite_eq_right_iff] at h
      dsimp only [process_row]
      split
      · rfl
      · rename_i herange
        rw [if_pos]
        by_contra haccepted
        rw [not_or, not_not] at haccepted
        cases h ⟨herange, haccepted⟩

/-- A number goes into the sums, and takes the place of a bound that it passes. -/
theorem process_row_of_some {d : ℚ} (h : number strtod row = some d) :
    process_row strtod s row =
      ({ count := s.1.count + 1
         skipped := s.1.skipped
         sum := s.1.sum + d
         sum_sq := s.1.sum_sq + d * d
         min := if s.2 then d else if d < s.1.min then d else s.1.min
         max := if s.2 then d else if s.1.max < d then d else s.1.max }, false) := by
  cases row with
  | none => cases h
  | some val =>
      rw [number, Option.ite_none_right_eq_some] at h
      obtain ⟨⟨herange, haccepted⟩, hd⟩ := h
      obtain ⟨stats, first⟩ := s
      have hd' : (strtod val).d = d := Option.some.inj hd
      dsimp only [process_row]
      rw [if_neg herange, if_neg (by simpa using haccepted), hd']
      cases first <;> rfl

theorem accumulated_start (stats : Stats) : Accumulated strtod []
    ({ stats with count := 0, skipped := 0, sum := 0.0, sum_sq := 0.0 }, true) where
  count := rfl
  total := rfl
  sum := by norm_num [numbers]
  sum_sq := by norm_num [numbers]
  first := rfl
  min h := absurd rfl h
  max h := absurd rfl h

/-- One more row. -/
theorem Accumulated.snoc (h : Accumulated strtod rows s) (row : Option Text) :
    Accumulated strtod (rows ++ [row]) (process_row strtod s row) := by
  have htotal := h.total
  cases hnumber : number strtod row with
  | none =>
      have hsame : numbers strtod (rows ++ [row]) = numbers strtod rows := numbers_append_of_none hnumber
      rw [process_row_of_none hnumber]
      constructor
      case total =>
        rw [List.length_append, List.length_singleton, ← htotal]
        exact (Nat.add_assoc ..).symm
      all_goals rw [hsame]
      case count => exact h.count
      case sum => exact h.sum
      case sum_sq => exact h.sum_sq
      case first => exact h.first
      case min => exact h.min
      case max => exact h.max
  | some d =>
      have hmore : numbers strtod (rows ++ [row]) = numbers strtod rows ++ [d] :=
        numbers_append_of_some hnumber
      rw [process_row_of_some hnumber]
      constructor
      case total =>
        rw [List.length_append, List.length_singleton, ← htotal]
        exact Nat.add_right_comm ..
      all_goals rw [hmore]
      case count =>
        rw [List.length_append, ← h.count]
        rfl
      case sum => rw [List.sum_append, ← h.sum, List.sum_singleton]
      case sum_sq => rw [List.map_append, List.sum_append, ← h.sum_sq, List.map_singleton,
        List.sum_singleton, sq]
      case first => exact (decide_eq_false (List.concat_ne_nil d _)).symm
      case min =>
        intro _
        by_cases hnil : numbers strtod rows = []
        · simp [h.first, hnil]
        · simpa [h.first, hnil] using isLeast_concat (h.min hnil) d
      case max =>
        intro _
        by_cases hnil : numbers strtod rows = []
        · simp [h.first, hnil]
        · simpa [h.first, hnil] using isGreatest_concat (h.max hnil) d

/-- The variables behind all rows. -/
theorem accumulated_foldl (stats : Stats) (rows : List (Option Text)) : Accumulated strtod rows
    (rows.foldl (process_row strtod)
      ({ stats with count := 0, skipped := 0, sum := 0.0, sum_sq := 0.0 }, true)) := by
  induction rows using List.reverseRecOn with
  | nil => exact accumulated_start stats
  | append_singleton rows row ih =>
      rw [List.foldl_concat]
      exact ih.snoc row

/-- Where some row has a number, the rows are counted, and what is printed are the sum, the mean,
the bounds and the variance of the numbers. -/
theorem statistics_of_rows (strtod : Text → Conversion) (left : Stats) (rows : List (Option Text))
    (h : numbers strtod rows ≠ []) :
    let xs := numbers strtod rows
    ∃ stats lo hi, process_rows strtod left rows = (stats, 0) ∧
      stats.count = xs.length ∧ stats.count + stats.skipped = rows.length ∧
      print_statistics stats =
        [("Количество обработанных числовых значений: %zu\n", .zu xs.length)] ++
          (if 0 < stats.skipped then
            [("Пропущено нечисловых (или NULL) значений: %zu\n", .zu stats.skipped)] else []) ++
          [("Сумма:    %g\n", .g xs.sum), ("Среднее:  %g\n", .g (mean xs)),
            ("Минимум:  %g\n", .g lo), ("Максимум: %g\n", .g hi), ("Дисперсия: %g\n", .g (variance xs))] ∧
      IsLeast {x | x ∈ xs} lo ∧ IsGreatest {x | x ∈ xs} hi ∧
      0 ≤ variance xs ∧ lo ≤ mean xs ∧ mean xs ≤ hi := by
  intro xs
  have hrun : Accumulated strtod rows (rows.foldl (process_row strtod)
      ({ left with count := 0, skipped := 0, sum := 0.0, sum_sq := 0.0 }, true)) :=
    accumulated_foldl left rows
  generalize hs : rows.foldl (process_row strtod)
    ({ left with count := 0, skipped := 0, sum := 0.0, sum_sq := 0.0 }, true) = s at hrun
  have hcount : s.1.count ≠ 0 := by
    rw [hrun.count]
    exact (List.length_pos_iff.mpr h).ne'
  have hvariance : s.1.sum_sq / s.1.count - mean xs * mean xs = variance xs := by
    rw [variance_eq h, hrun.sum_sq, hrun.count]
  have hmean : s.1.sum / s.1.count = mean xs := by
    rw [mean, hrun.sum, hrun.count]
  refine ⟨s.1, s.1.min, s.1.max, ?_, hrun.count, hrun.total, ?_, hrun.min h, hrun.max h, variance_nonneg xs,
    le_mean h fun x hx => (hrun.min h).2 hx, mean_le h fun x hx => (hrun.max h).2 hx⟩
  · rw [process_rows, hs]
    exact congrArg _ (if_neg hcount)
  · rw [print_statistics, hmean, hvariance, hrun.sum, ← hrun.count]

/-- `strtod` on texts of decimal digits. -/
def readDigits (val : Text) : Conversion :=
  let (n, rest) := digits 0 val
  ⟨n, val.length - rest.length, false⟩

/-- A number, an empty field, a word, and a greater number. -/
theorem statistics_of_rows_four :
    let rows := [some (text "3"), none, some (text "x"), some (text "5")]
    ∃ stats, process_rows readDigits ⟨7, 7, 7, 7, 7, 7⟩ rows = (stats, 0) ∧ stats.count + stats.skipped = 4 ∧
      0 ≤ variance (numbers readDigits rows) := by
  intro rows
  have hnumbers : numbers readDigits rows ≠ [] := by decide
  obtain ⟨stats, lo, hi, hrows, -, htotal, -, -, -, hvariance, -⟩ :=
    statistics_of_rows readDigits ⟨7, 7, 7, 7, 7, 7⟩ rows hnumbers
  exact ⟨stats, hrows, htotal, hvariance⟩

end OtusCProg.Dbstat
