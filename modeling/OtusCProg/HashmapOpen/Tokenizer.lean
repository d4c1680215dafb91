import OtusCProg.Codepage.Conversion
import OtusCProg.HashmapOpen.WordCount
import OtusCProg.Library.CBuffer
import OtusCProg.Library.Splitting

/-!
# The words of a file

The scanner of `countWords` collects a word in a block of `MAX_WORD_LEN` bytes and
looks it up when it meets the delimiter behind it. It stays inside the block. The
words it looks up are the runs of the file, unless the last one ends the file.
-/

namespace OtusCProg.HashmapOpen
open Library

def MAX_WORD_LEN : Nat := 128

/-- Outside and inside a word. -/
inductive State where
  | OUT
  | IN
deriving DecidableEq

/-- The bytes that the loop of `countWords` compares `c` with. -/
def delimiters : List UInt8 :=
  [32, 10, 9, 0, 91, 123, 40, 93, 125, 41, 46, 44, 63, 33, 59, 43, 61, 94, 42, 124, 92, 124, 47, 60,
    62, 47, 39, 34, 96]

def isDelimiter (c : UInt8) : Bool := delimiters.contains c

/-- The locals of the loop; `word` is an index into the block. -/
structure Scanner where
  state : State
  block : Buffer MAX_WORD_LEN
  word : Nat
  word_len : Nat

/-- The scanner in front of the loop, with a block from `malloc`. -/
def Scanner.start (block : Buffer MAX_WORD_LEN) : Scanner := ⟨.OUT, block, 0, 0⟩

/-- The string at the start of the block. -/
def wordOf (block : Buffer MAX_WORD_LEN) : K :=
  ⟨cstr block.bytes, fun h => by simpa using List.mem_takeWhile_imp h⟩

/-- One turn of the loop: the scanner behind it, and the word that `c` ends. There
is no result when the turn writes outside the block. -/
def Scanner.turn (s : Scanner) (c : UInt8) : Option (Scanner × Option K) :=
  if isDelimiter c then
    match s.state with
    | .IN => (s.block.store s.word 0).map fun block =>
        ({ s with state := .OUT, block, word := 0 }, some (wordOf block))
    | .OUT => some (s, none)
  else
    match s.state with
    | .OUT => (s.block.store s.word c).map fun block =>
        ({ state := .IN, block, word := s.word + 1, word_len := 1 }, none)
    | .IN =>
        let word_len := s.word_len + 1
        if word_len ≤ MAX_WORD_LEN - 1 then
          (s.block.store s.word c).map fun block =>
            ({ s with block, word := s.word + 1, word_len }, none)
        else some ({ s with word_len }, none)

/-- The words that the loop of `countWords` looks up and puts, in order. -/
def scan : Scanner → Text → Option (List K)
  | _, [] => some []
  | s, c :: input_data =>
      match s.turn c with
      | none => none
      | some (s, none) => scan s input_data
      | some (s, some key) => (scan s input_data).map (key :: ·)

/-- The loop of `countWords`. -/
def countLoop (depth : Nat) : Hashmap Nat → Scanner → Text → Option (Except Stuck (Hashmap Nat))
  | map, _, [] => some (.ok map)
  | map, s, c :: input_data =>
      match s.turn c with
      | none => none
      | some (s, none) => countLoop depth map s input_data
      | some (s, some key) =>
          match countWord depth map key with
          | .error stuck => some (.error stuck)
          | .ok map => countLoop depth map s input_data

/-- `read_file`: the same loop as in the converter. -/
def read_file (file : Text) (left : Nat → UInt8) (fuel : Nat) : Option (Text × Nat) :=
  Codepage.read_file file left fuel

/-- The words that `countWords` looks up and puts for a file, as long as the map takes them. -/
def lookups (file : Text) (left : Nat → UInt8) (block : Buffer MAX_WORD_LEN) (fuel : Nat) :
    Option (List K) :=
  match read_file file left fuel with
  | none => none
  | some (input_data, input_file_size) => scan (.start block) (input_data.take input_file_size)

/-- `countWords` on a file. -/
def countWordsOf (depth : Nat) (file : Text) (left : Nat → UInt8) (block : Buffer MAX_WORD_LEN)
    (fuel : Nat) : Option (Except Stuck (Hashmap Nat)) :=
  match createHashmap 2 (1 / 2) 2 with
  | .error stuck => some (.error stuck)
  | .ok map =>
      match read_file file left fuel with
      | none => none
      | some (input_data, input_file_size) =>
          countLoop depth map (.start block) (input_data.take input_file_size)

/-- A run as a word: the bytes that the block has room for in front of the terminator. -/
def cut (run : Text) : Text := run.take (MAX_WORD_LEN - 1)

/-- The scanner inside `run`; outside a word there is none. -/
structure Scanner.Holds (s : Scanner) (run : Text) : Prop where
  state : s.state = if run = [] then .OUT else .IN
  solid : ∀ c ∈ run, isDelimiter c = false
  word : s.word = (cut run).length
  word_len : run ≠ [] → s.word_len = run.length
  block : s.block.bytes.take s.word = cut run

theorem Scanner.start_holds (block : Buffer MAX_WORD_LEN) : (Scanner.start block).Holds [] :=
  ⟨rfl, by simp, rfl, fun h => absurd rfl h, rfl⟩

theorem isDelimiter_zero : isDelimiter 0 = true := by decide

section Turn
variable {s : Scanner} {run : Text} {c : UInt8}

theorem Scanner.Holds.word_lt (h : s.Holds run) : s.word < MAX_WORD_LEN := by
  rw [h.word, cut, List.length_take]
  exact (Nat.min_le_left _ _).trans_lt (by decide)

/-- The string in the block, with the terminator behind the word. -/
theorem bytes_wordOf {block : Buffer MAX_WORD_LEN} {word : Text} (hzero : 0 ∉ word)
    (hblock : block.bytes.take (word.length + 1) = word ++ [0]) : (wordOf block).bytes = word := by
  calc
    (wordOf block).bytes = cstr (word ++ 0 :: block.bytes.drop (word.length + 1)) := by
      have hparts := List.take_append_drop (word.length + 1) block.bytes
      rw [hblock, List.append_assoc] at hparts
      exact (congrArg cstr hparts).symm
    _ = word := by rw [cstr_append_zero, cstr_eq_self hzero]

/-- A delimiter outside a word. -/
theorem Scanner.Holds.turn_outside (h : s.Holds []) (hc : isDelimiter c = true) :
    s.turn c = some (s, none) := by
  rw [Scanner.turn, if_pos hc, h.state]
  rfl

/-- A delimiter behind a word. -/
theorem Scanner.Holds.turn_behind (h : s.Holds run) (hrun : run ≠ []) (hc : isDelimiter c = true) :
    ∃ s' key, s.turn c = some (s', some key) ∧ key.bytes = cut run ∧ s'.Holds [] := by
  obtain ⟨block, hstore, hblock⟩ := s.block.store_eq_some 0 h.word_lt
  refine ⟨{ s with state := .OUT, block, word := 0 }, wordOf block, ?_, ?_, ?_⟩
  · rw [Scanner.turn, if_pos hc, h.state, if_neg hrun, hstore]
    rfl
  · apply bytes_wordOf
    · intro hmem
      have hsolid := h.solid 0 (List.mem_of_mem_take hmem)
      rw [isDelimiter_zero] at hsolid
      cases hsolid
    · rw [← h.word, hblock, h.block]
  · exact ⟨rfl, by simp, rfl, fun h => absurd rfl h, rfl⟩

theorem cut_snoc_of_lt (h : run.length < MAX_WORD_LEN - 1) (c : UInt8) :
    cut (run ++ [c]) = cut run ++ [c] := by
  have hlen : (run ++ [c]).length ≤ MAX_WORD_LEN - 1 := by
    rw [List.length_append]
    exact h
  rw [cut, cut, List.take_of_length_le hlen, List.take_of_length_le h.le]

theorem cut_snoc_of_le (h : MAX_WORD_LEN - 1 ≤ run.length) (c : UInt8) :
    cut (run ++ [c]) = cut run :=
  List.take_append_of_le_length h

/-- A byte of a word. -/
theorem Scanner.Holds.turn_along (h : s.Holds run) (hc : isDelimiter c = false) :
    ∃ s', s.turn c = some (s', none) ∧ s'.Holds (run ++ [c]) := by
  obtain ⟨block, hstore, hblock⟩ := s.block.store_eq_some c h.word_lt
  have hne : run ++ [c] ≠ [] := List.concat_ne_nil c run
  have hlen : (run ++ [c]).length = run.length + 1 := List.length_append
  have hsolid : ∀ d ∈ run ++ [c], isDelimiter d = false := by
    intro d hd
    rcases List.mem_append.mp hd with hd | hd
    · exact h.solid d hd
    · rw [List.mem_singleton.mp hd, hc]
  have hdelimiter : ¬isDelimiter c = true := by simp [hc]
  by_cases hroom : run.length < MAX_WORD_LEN - 1
  · have hcut := cut_snoc_of_lt hroom c
    have hword : s.word + 1 = (cut (run ++ [c])).length := by
      rw [hcut, List.length_append, h.word]
      rfl
    refine ⟨⟨.IN, block, s.word + 1, (run ++ [c]).length⟩, ?_, ?_⟩
    · rw [Scanner.turn, if_neg hdelimiter, h.state, hlen]
      by_cases hrun : run = []
      · rw [if_pos hrun, hstore, hrun]
        rfl
      · rw [if_neg hrun, hstore, h.word_len hrun]
        exact if_pos hroom
    · exact ⟨(if_neg hne).symm, hsolid, hword, fun _ => rfl, by rw [hblock, h.block, hcut]⟩
  · have hcut := cut_snoc_of_le (Nat.le_of_not_lt hroom) c
    have hrun : run ≠ [] := by
      rintro rfl
      exact hroom (by decide)
    refine ⟨{ s with word_len := (run ++ [c]).length }, ?_, ?_⟩
    · rw [Scanner.turn, if_neg hdelimiter, h.state, if_neg hrun, h.word_len hrun, hlen]
      exact if_neg hroom
    · refine ⟨?_, hsolid, ?_, fun _ => rfl, ?_⟩
      · rw [if_neg hne, h.state, if_neg hrun]
      · rw [hcut, ← h.word]
      · rw [hcut, ← h.block]

end Turn

theorem scan_cons_of_turn {s s' : Scanner} {c : UInt8} (h : s.turn c = some (s', none))
    (input_data : Text) : scan s (c :: input_data) = scan s' input_data := by
  rw [scan, h]

/-- The scanner stays in its block, and the words are the runs that a delimiter follows. -/
theorem Scanner.Holds.scan_eq {s : Scanner} {run : Text} (h : s.Holds run) (input_data : Text) :
    ∃ words, scan s input_data = some words ∧
      words.map CString.bytes = (closedRuns isDelimiter (run ++ input_data)).map cut := by
  induction input_data generalizing s run with
  | nil =>
      refine ⟨[], rfl, ?_⟩
      rw [List.append_nil, closedRuns_of_free h.solid]
      rfl
  | cons c input_data ih =>
      by_cases hc : isDelimiter c = true
      · rw [closedRuns_append_cons h.solid hc]
        by_cases hrun : run = []
        · subst hrun
          obtain ⟨words, hscan, hwords⟩ := ih h
          exact ⟨words, (scan_cons_of_turn (h.turn_outside hc) input_data).trans hscan, hwords⟩
        · obtain ⟨s', key, hturn, hkey, hholds⟩ := h.turn_behind hrun hc
          obtain ⟨words, hscan, hwords⟩ := ih hholds
          refine ⟨key :: words, ?_, ?_⟩
          · rw [scan, hturn]
            simp only [hscan, Option.map_some]
          · rw [if_neg hrun, List.map_cons, hkey, hwords]
            rfl
      · obtain ⟨s', hturn, hholds⟩ := h.turn_along (Bool.eq_false_iff.mpr hc)
        obtain ⟨words, hscan, hwords⟩ := ih hholds
        refine ⟨words, (scan_cons_of_turn hturn input_data).trans hscan, ?_⟩
        rw [hwords, List.append_assoc]
        rfl

/-- The loop counts the words that the scanner finds, one after the other. -/
theorem countLoop_eq {depth : Nat} {map : Hashmap Nat} {s : Scanner} {input_data : Text}
    {words : List K} (h : scan s input_data = some words) :
    countLoop depth map s input_data = some (countFrom depth map words) := by
  induction input_data generalizing map s words with
  | nil =>
      obtain rfl := Option.some.inj h
      rfl
  | cons c input_data ih =>
      rw [scan] at h
      rw [countLoop]
      split at h
      · cases h
      · exact ih h
      · rename_i s' key _
        obtain ⟨words, hscan, rfl⟩ := Option.map_eq_some_iff.mp h
        rw [countFrom]
        cases countWord depth map key with
        | error stuck => rfl
        | ok map => exact ih hscan

section File
variable {file : Text} {left : Nat → UInt8} {block : Buffer MAX_WORD_LEN} {fuel : Nat}

/-- `read_file` hands the bytes of the file to the loop. -/
theorem lookups_eq_scan (hfuel : file.length + 1 < fuel) :
    lookups file left block fuel = scan (.start block) file := by
  obtain ⟨behind, hread⟩ := Codepage.read_file_spec file left hfuel
  rw [lookups, read_file, hread]
  simp only [List.take_left]

/-- `countWords` on a file counts the words that it looks up. -/
theorem countWordsOf_eq {words : List K} (depth : Nat)
    (h : lookups file left block fuel = some words) :
    countWordsOf depth file left block fuel = some (countWords depth words) := by
  rw [countWordsOf, countWords]
  cases createHashmap 2 (1 / 2) 2 with
  | error stuck => rfl
  | ok map =>
      rw [lookups] at h
      split at h
      · cases h
      · exact countLoop_eq h

end File

/-- No write is outside the block, and the words that are looked up are the runs of
the file, each cut to 127 bytes, if and only if no run ends the file. -/
theorem lookups_eq_runs_iff (file : Text) (left : Nat → UInt8) (block : Buffer MAX_WORD_LEN)
    {fuel : Nat} (hfuel : file.length + 1 < fuel) :
    ∃ words, lookups file left block fuel = some words ∧
      (words.map CString.bytes = (runs isDelimiter file).map (List.take 127) ↔
        ∀ c ∈ file.getLast?, isDelimiter c = true) := by
  obtain ⟨words, hscan, hwords⟩ := (Scanner.start_holds block).scan_eq file
  refine ⟨words, (lookups_eq_scan hfuel).trans hscan, ?_⟩
  rw [hwords, List.nil_append]
  exact map_closedRuns_eq_iff cut

/-- Two words, with a newline behind the second. -/
theorem lookups_eq_runs_iff_line : ∃ words,
    lookups (text "a,b\n") (fun _ => 0) (.zero _) 6 = some words ∧
      (words.map CString.bytes = (runs isDelimiter (text "a,b\n")).map (List.take 127) ↔
        ∀ c ∈ (text "a,b\n").getLast?, isDelimiter c = true) :=
  lookups_eq_runs_iff (text "a,b\n") (fun _ => 0) (.zero _) (by decide)

/-- A word at the end of the file is not looked up. -/
theorem lookups_misses_last : ¬∀ (file : Text) (left : Nat → UInt8) (block : Buffer MAX_WORD_LEN)
    (fuel : Nat), file.length + 1 < fuel → ∃ words, lookups file left block fuel = some words ∧
      words.map CString.bytes = (runs isDelimiter file).map (List.take 127) := by
  intro hall
  obtain ⟨words, hlookups, hwords⟩ := hall (text "a") (fun _ => 0) (.zero _) 3 (by decide)
  rw [lookups_eq_scan (by decide)] at hlookups
  obtain rfl : [] = words := Option.some.inj hlookups
  exact absurd hwords (by decide)

end OtusCProg.HashmapOpen
