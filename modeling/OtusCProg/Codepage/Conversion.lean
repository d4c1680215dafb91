import OtusCProg.Codepage.Decoding

/-!
# Which files the converter converts whole

`read_file` fills the front of a block and always leaves room behind the file,
but puts no terminator there, and `convert` does not hand the size on. The
converter therefore stops at the first zero byte of the file, or else goes on into
what the block held before. It also stores a terminator that the output block has
room for only when enough bytes are encoded shorter than two bytes.
-/

namespace OtusCProg.Codepage
open Library

/-- What the loop of `read_file` keeps. -/
structure Reader.Inv (file : List UInt8) (r : Reader) : Prop where
  buf_eq : r.buf = file.take r.file_sz
  size_le : r.file_sz ≤ file.length
  size_le_cap : r.file_sz ≤ r.buf_cap
  cap_pos : 0 < r.buf_cap
  at_end : r.eof = true → r.file_sz = file.length ∧ file.length < r.buf_cap

/-- How many turns may follow, the test that ends the loop apart. -/
def Reader.left (file : List UInt8) (r : Reader) : Nat :=
  if r.eof then 0 else file.length - r.file_sz + 1

section Reading
variable {file : List UInt8} {r : Reader}

/-- In front of the first turn nothing is read. -/
theorem Reader.inv_start (file : List UInt8) : Reader.Inv file ⟨[], 4096, 0, false⟩ :=
  ⟨rfl, Nat.zero_le _, Nat.zero_le _, by decide, nofun⟩

theorem Reader.left_start (file : List UInt8) : Reader.left file ⟨[], 4096, 0, false⟩ = file.length + 1 := rfl

/-- One turn keeps the invariant, and either meets the end or fills the block. -/
theorem Reader.Inv.turn (inv : r.Inv file) (hmore : r.eof = false) :
    (r.turn file).Inv file ∧ (r.turn file).left file < r.left file := by
  obtain ⟨hbuf, hsize, hcap, hpos, _⟩ := inv
  obtain ⟨cap, hcap'⟩ : ∃ cap, cap = if r.buf_cap - r.file_sz = 0 then r.buf_cap * 2
      else r.buf_cap := ⟨_, rfl⟩
  have hroom : r.file_sz < cap := by
    rw [hcap']
    split <;> omega
  have hlength : ((file.drop r.file_sz).take (cap - r.file_sz)).length =
      min (cap - r.file_sz) (file.length - r.file_sz) := by
    rw [List.length_take, List.length_drop]
  have hturn : r.turn file =
      { buf := r.buf.take r.file_sz ++ (file.drop r.file_sz).take (cap - r.file_sz)
        buf_cap := cap
        file_sz := r.file_sz + ((file.drop r.file_sz).take (cap - r.file_sz)).length
        eof := decide (file.length - r.file_sz < cap - r.file_sz) } := by
    rw [hcap']
    rfl
  rw [hturn]
  constructor
  · constructor
    · simp only [hlength]
      rw [hbuf, List.take_take, Nat.min_self, List.take_add]
      congr 1
      rw [List.take_eq_take_iff, List.length_drop]
      omega
    · simp only [hlength]
      omega
    · simp only [hlength]
      omega
    · exact Nat.zero_lt_of_lt hroom
    · intro heof
      simp only [decide_eq_true_eq] at heof
      simp only [hlength]
      omega
  · simp only [Reader.left, hmore, hlength, decide_eq_true_eq, Bool.false_eq_true, if_false]
    split <;> omega

/-- The loop ends with the whole file read and room behind it. -/
theorem read_loop_terminates (n : Nat) (r : Reader) (inv : r.Inv file) (hn : r.left file ≤ n) :
    ∃ last : Reader, (∀ fuel, n < fuel → read_loop file fuel r = some last) ∧ last.buf = file ∧
      last.file_sz = file.length ∧ file.length < last.buf_cap := by
  induction n generalizing r with
  | zero =>
      have heof : r.eof = true := by
        by_contra hmore
        simp [Reader.left, hmore] at hn
      obtain ⟨hsize, hcap⟩ := inv.at_end heof
      refine ⟨r, ?_, by rw [inv.buf_eq, hsize, List.take_length], hsize, hcap⟩
      intro fuel hfuel
      obtain ⟨k, rfl⟩ : ∃ k, fuel = k + 1 := ⟨fuel - 1, by omega⟩
      rw [read_loop, if_pos heof]
  | succ n ih =>
      cases heof : r.eof with
      | true =>
          obtain ⟨hsize, hcap⟩ := inv.at_end heof
          refine ⟨r, ?_, by rw [inv.buf_eq, hsize, List.take_length], hsize, hcap⟩
          intro fuel hfuel
          obtain ⟨k, rfl⟩ : ∃ k, fuel = k + 1 := ⟨fuel - 1, by omega⟩
          rw [read_loop, if_pos heof]
      | false =>
          obtain ⟨hinv, hless⟩ := inv.turn heof
          obtain ⟨last, hlast, hrest⟩ := ih (r.turn file) hinv (by omega)
          refine ⟨last, ?_, hrest⟩
          intro fuel hfuel
          obtain ⟨k, rfl⟩ : ∃ k, fuel = k + 1 := ⟨fuel - 1, by omega⟩
          rw [read_loop, heof, ← hlast k (by omega)]
          rfl

/-- `read_file` returns the file with at least one byte behind it. -/
theorem read_file_spec (file : List UInt8) (left : Nat → UInt8) {fuel : Nat}
    (hfuel : file.length + 1 < fuel) :
    ∃ behind, read_file file left fuel =
      some (file ++ left file.length :: behind, file.length) := by
  obtain ⟨last, hlast, hbuf, hsize, hcap⟩ :=
    read_loop_terminates (file.length + 1) _ (Reader.inv_start file) (Reader.left_start file).le
  obtain ⟨k, hk⟩ : ∃ k, last.buf_cap - file.length = k + 1 :=
    ⟨last.buf_cap - file.length - 1, by omega⟩
  refine ⟨(List.range k).map fun i => left (file.length + (i + 1)), ?_⟩
  rw [read_file, hlast fuel hfuel]
  simp only [hbuf, hsize, hk, List.range_succ_eq_map, List.map_cons, List.map_map, Nat.add_zero]
  rfl

end Reading

section Converting
variable {codepage : Text} {table : List UInt32}

theorem encoded_append (table : List UInt32) (xs ys : List UInt8) :
    encoded table (xs ++ ys) = encoded table xs ++ encoded table ys :=
  List.flatMap_append

/-- Every byte is encoded by at least one. -/
theorem length_le_encoded (table : List UInt32) (xs : List UInt8) :
    xs.length ≤ (encoded table xs).length := by
  induction xs with
  | nil => exact Nat.zero_le _
  | cons c xs ih =>
      have hc := Char.utf8Size_pos (code_char table c)
      rw [encoded, List.flatMap_cons, List.length_append, String.length_utf8EncodeChar,
        List.length_cons]
      unfold encoded at ih
      omega

/-- The first terminator of a buffer, or its absence. -/
theorem terminated_cases (xs : List UInt8) :
    0 ∉ xs ∨ ∃ front behind, 0 ∉ front ∧ xs = front ++ 0 :: behind := by
  induction xs with
  | nil => exact Or.inl List.not_mem_nil
  | cons c xs ih =>
      by_cases hc : c = 0
      · exact Or.inr ⟨[], xs, List.not_mem_nil, by rw [hc]; rfl⟩
      · rcases ih with hnone | ⟨front, behind, hfront, rfl⟩
        · left
          rw [List.mem_cons, not_or]
          exact ⟨Ne.symm hc, hnone⟩
        · right
          refine ⟨c :: front, behind, ?_, rfl⟩
          rw [List.mem_cons, not_or]
          exact ⟨Ne.symm hc, hfront⟩

/-- When two strings are converted to the same bytes, and one lies in front of a
byte of the other buffer, they are the same. -/
theorem front_eq_of_encoded_eq {file behind front rest : List UInt8} {c : UInt8}
    (hsplit : file ++ c :: behind = front ++ 0 :: rest)
    (hsame : encoded table front = encoded table file) : front = file ∧ c = 0 := by
  rcases List.append_eq_append_iff.mp hsplit with ⟨more, hfront, hrest⟩ | ⟨more, hfile, hrest⟩
  · have hlength := congrArg List.length hsame
    have hmore := length_le_encoded table more
    rw [hfront, encoded_append, List.length_append] at hlength
    have hnil : more = [] := List.eq_nil_of_length_eq_zero (by omega)
    rw [hnil] at hfront hrest
    rw [List.append_nil] at hfront
    exact ⟨hfront, (List.cons.inj hrest).1⟩
  · have hlength := congrArg List.length hsame
    have hmore := length_le_encoded table more
    rw [hfile, encoded_append, List.length_append] at hlength
    have hnil : more = [] := List.eq_nil_of_length_eq_zero (by omega)
    rw [hnil] at hfile hrest
    rw [List.append_nil] at hfile
    exact ⟨hfile.symm, (List.cons.inj hrest).1.symm⟩

/-- A buffer without terminator is read to its end and beyond. -/
theorem codepage_to_utf8_unterminated (h : code_table codepage = some table) {xs : List UInt8}
    (hxs : 0 ∉ xs) : codepage_to_utf8 xs codepage = .error .readOutside := by
  rw [codepage_to_utf8, h]
  show convert_loop table xs [] 0 = _
  have hloop := convert_loop_append (code_table_ok h) hxs [] [] 0
  rw [List.append_nil] at hloop
  rw [hloop, convert_loop]

/-- The output file is the encoding of the whole file, whatever its bytes, if and
only if the file has no zero byte, the byte behind it in the block is zero, and the
encoding with its terminator fits into twice the size of the file. -/
theorem convert_eq_encoded_iff {codepage : Text} {table : List UInt32}
    (h : code_table codepage = some table) (file : List UInt8) (left : Nat → UInt8) {fuel : Nat}
    (hfuel : file.length + 1 < fuel) :
    convert file left codepage fuel = .ok (encoded table file) ↔
      0 ∉ file ∧ left file.length = 0 ∧ (encoded table file).length + 1 ≤ file.length * 2 := by
  obtain ⟨behind, hread⟩ := read_file_spec file left hfuel
  rw [convert, hread]
  simp only
  constructor
  · intro hconvert
    rcases terminated_cases (file ++ left file.length :: behind) with
      hnone | ⟨front, rest, hfront, hsplit⟩
    · rw [codepage_to_utf8_unterminated h hnone] at hconvert
      cases hconvert
    · rw [hsplit, codepage_to_utf8_terminated h hfront] at hconvert
      simp only [List.take_left] at hconvert
      split at hconvert
      · rename_i hroom
        obtain ⟨rfl, hzero⟩ := front_eq_of_encoded_eq hsplit (Except.ok.inj hconvert)
        rw [List.length_append, List.length_singleton] at hroom
        exact ⟨hfront, hzero, hroom⟩
      · cases hconvert
  · rintro ⟨hfile, hzero, hroom⟩
    rw [hzero, codepage_to_utf8_terminated h hfile]
    simp only [List.take_left]
    rw [if_pos]
    rw [List.length_append, List.length_singleton]
    exact hroom

end Converting

/-- A Cyrillic letter, a box line and three Latin letters, with two, three and one bytes each. -/
def sizes : List UInt8 := [0xC1, 0x80, 0x41, 0x42, 0x43]

theorem convert_eq_encoded_iff_sizes :
    (convert sizes (fun _ => 0) (text "koi8-r") 7 = .ok (encoded koi8r_to_utf_table sizes) ↔
      0 ∉ sizes ∧ (0 : UInt8) = 0 ∧ (encoded koi8r_to_utf_table sizes).length + 1 ≤ 5 * 2) ∧
    (encoded koi8r_to_utf_table sizes).length + 1 ≤ 5 * 2 ∧
    encoded koi8r_to_utf_table sizes = [0xD0, 0xB0, 0xE2, 0x94, 0x80, 0x41, 0x42, 0x43] := by
  have h : code_table (text "koi8-r") = some koi8r_to_utf_table := rfl
  refine ⟨convert_eq_encoded_iff h sizes (fun _ => 0) (by decide), ?_, ?_⟩
  · decide +kernel
  · decide +kernel

/-- A file with a zero byte loses the rest, in a block that is all zero. -/
theorem convert_drops_rest :
    ¬∀ (codepage : Text) (table : List UInt32) (file : List UInt8) (left : Nat → UInt8) (fuel : Nat),
      code_table codepage = some table → file.length + 1 < fuel →
        convert file left codepage fuel = .ok (encoded table file) := by
  intro hall
  have h : code_table (text "koi8-r") = some koi8r_to_utf_table := rfl
  have hconvert := hall (text "koi8-r") _ [0x41, 0, 0x42] (fun _ => 0) 5 h (by decide)
  have hrun : convert [0x41, 0, 0x42] (fun _ => 0) (text "koi8-r") 5 = .ok [0x41] := rfl
  rw [hrun] at hconvert
  exact absurd (congrArg List.length (Except.ok.inj hconvert)) (by decide)

end OtusCProg.Codepage
