import Mathlib.Data.List.TakeWhile
import OtusCProg.Library.CText
import Mathlib.Data.List.Infix

/-!
# Buffers of C strings

Arrays of a fixed size, the string at their start, and the functions that
search a string: `strstr`, `strrchr`, the `%ns` of `sscanf`, and `strtol` in
base 16. Searching is stable when the string grows at its end.
-/

namespace OtusCProg.Library

/-- An array of `n` bytes. -/
structure Buffer (n : Nat) where
  bytes : Text
  length_eq : bytes.length = n

namespace Buffer
variable {n : Nat}

def zero (n : Nat) : Buffer n := ⟨List.replicate n 0, List.length_replicate⟩

/-- `memcpy(b + i, src, strlen(src))`; what does not fit is dropped. -/
def memcpy (b : Buffer n) (i : Nat) (src : Text) : Buffer n where
  bytes := (b.bytes.take i ++ src ++ b.bytes.drop (i + src.length)).take n
  length_eq := by
    have h := b.length_eq
    simp
    omega

theorem take_memcpy (b : Buffer n) (i : Nat) (src : Text) (h : i + src.length ≤ n) :
    (b.memcpy i src).bytes.take (i + src.length) = b.bytes.take i ++ src := by
  have hlen : (b.bytes.take i ++ src).length = i + src.length := by
    have hb := b.length_eq
    simp
    omega
  rw [memcpy, List.take_take, Nat.min_eq_left h, List.take_append_of_le_length (by omega),
    List.take_of_length_le (by omega)]

theorem getElem?_memcpy_singleton (b : Buffer n) (c : UInt8) {i : Nat} (h : i < n) :
    (b.memcpy i [c]).bytes[i]? = some c := by
  have hb := b.length_eq
  simp [memcpy, h, hb, Nat.min_eq_left h.le]

/-- `b[i] = c`; there is no result outside the array. -/
def store (b : Buffer n) (i : Nat) (c : UInt8) : Option (Buffer n) :=
  if i < n then some ⟨b.bytes.set i c, by rw [List.length_set, b.length_eq]⟩ else none

/-- A byte that is stored behind the first `i` makes them one more. -/
theorem store_eq_some (b : Buffer n) {i : Nat} (c : UInt8) (h : i < n) :
    ∃ b', b.store i c = some b' ∧ b'.bytes.take (i + 1) = b.bytes.take i ++ [c] := by
  refine ⟨_, if_pos h, ?_⟩
  have hi : i < (b.bytes.set i c).length := by rwa [List.length_set, b.length_eq]
  dsimp only
  rw [List.take_succ_eq_append_getElem hi, List.take_set_of_le le_rfl, List.getElem_set_self]

end Buffer

theorem takeWhile_isPrefix_append {α : Type*} (p : α → Bool) (a b : List α) :
    a.takeWhile p <+: (a ++ b).takeWhile p := by
  induction a with
  | nil => exact List.nil_prefix
  | cons c a ih =>
      rw [List.cons_append, List.takeWhile_cons, List.takeWhile_cons]
      split
      · exact (List.prefix_cons_inj c).mpr ih
      · exact List.prefix_rfl

/-- The string at the start of an array. -/
def cstr (b : Text) : Text := b.takeWhile (· ≠ 0)

theorem cstr_append_zero (a b : Text) : cstr (a ++ 0 :: b) = cstr a := by
  induction a with
  | nil => rfl
  | cons c a ih =>
      simp only [cstr, List.cons_append, List.takeWhile_cons] at ih ⊢
      split
      · rw [ih]
      · rfl

theorem cstr_eq_self {s : Text} (h : 0 ∉ s) : cstr s = s := by
  induction s with
  | nil => rfl
  | cons c s ih =>
      have hc : c ≠ 0 := fun heq => h (heq ▸ List.mem_cons_self)
      rw [cstr, List.takeWhile_cons_of_pos (by simpa using hc)]
      exact congrArg (c :: ·) (ih fun hmem => h (List.mem_cons_of_mem c hmem))

theorem zero_notMem_cstr (s : Text) : 0 ∉ cstr s := by
  intro hmem
  have hne := List.mem_takeWhile_imp hmem
  simp at hne

theorem cstr_isPrefix (a b : Text) : cstr a <+: cstr (a ++ b) := takeWhile_isPrefix_append ..

/-- `strstr`: the rest of the string from the first `needle` on. -/
def strstr (needle : Text) : Text → Option Text
  | [] => if needle = [] then some [] else none
  | c :: s => if needle.isPrefixOf (c :: s) then some (c :: s) else strstr needle s

theorem strstr_isSome {needle s : Text} : (strstr needle s).isSome ↔ needle <:+: s := by
  induction s with
  | nil => simp [strstr, apply_ite]
  | cons c s ih =>
      rw [strstr, List.infix_cons_iff]
      by_cases h : needle.isPrefixOf (c :: s)
      · simp [h, List.isPrefixOf_iff_prefix.mp h]
      · rw [if_neg h, ih]
        simp [mt List.isPrefixOf_iff_prefix.mpr h]

/-- `strrchr`: the rest of the string from the last `c` on. -/
def strrchr (c : UInt8) : Text → Option Text
  | [] => none
  | d :: s =>
      match strrchr c s with
      | some rest => some rest
      | none => if d = c then some (d :: s) else none

/-- `%ns` of `sscanf`: the word read, and the rest of the string. -/
def scanWord (n : Nat) (s : Text) : Option (Text × Text) :=
  let body := s.dropWhile isspace
  let word := (body.takeWhile fun c => !isspace c).take n
  if word = [] then none else some (word, body.drop word.length)

theorem scanWord_eq_some {n : Nat} {s word rest : Text} :
    scanWord n s = some (word, rest) ↔
      word ≠ [] ∧ word = ((s.dropWhile isspace).takeWhile fun c => !isspace c).take n ∧
        rest = (s.dropWhile isspace).drop word.length := by
  simp only [scanWord, Option.ite_none_left_eq_some, Option.some.injEq, Prod.mk.injEq]
  constructor
  · rintro ⟨hne, rfl, rfl⟩
    exact ⟨hne, rfl, rfl⟩
  · rintro ⟨hne, hword, hrest⟩
    rw [← hword]
    exact ⟨hne, rfl, hrest.symm⟩

/-- Behind a word the white space in front stays the same when the string grows. -/
theorem scanWord_body {n : Nat} {s word rest : Text} (b : Text)
    (h : scanWord n s = some (word, rest)) :
    (s ++ b).dropWhile isspace = s.dropWhile isspace ++ b := by
  obtain ⟨hne, hword, -⟩ := scanWord_eq_some.mp h
  have hbody : s.dropWhile isspace ≠ [] := by
    intro hnil
    exact hne (by rw [hword, hnil]; simp)
  rw [List.dropWhile_append]
  simp [hbody]

/-- A word that is not at the end of the string stays the same when the string grows. -/
theorem scanWord_append {n : Nat} {s word rest : Text} (b : Text)
    (h : scanWord n s = some (word, rest)) (hrest : rest ≠ []) :
    scanWord n (s ++ b) = some (word, rest ++ b) := by
  obtain ⟨hne, hword, hbehind⟩ := scanWord_eq_some.mp h
  rw [scanWord_eq_some, scanWord_body b h]
  set body := s.dropWhile isspace
  have hlt : word.length < body.length := by
    by_contra hle
    exact hrest (by rw [hbehind, List.drop_eq_nil_of_le (by omega)])
  refine ⟨hne, ?_, ?_⟩
  · rw [List.takeWhile_append]
    by_cases hall : (body.takeWhile fun c => !isspace c).length = body.length
    · have hbody : (body.takeWhile fun c => !isspace c) = body :=
        List.IsPrefix.eq_of_length ( List.takeWhile_prefix _) hall
      rw [hbody] at hword
      have hn : n ≤ body.length := by
        by_contra hn
        rw [List.take_of_length_le (by omega)] at hword
        exact absurd hword (fun heq => by rw [heq] at hlt; omega)
      rw [if_pos hall, List.take_append_of_le_length hn]
      exact hword
    · rw [if_neg hall]
      exact hword
  · rw [hbehind, List.drop_append_of_le_length (by omega)]

/-- A string that carries a word carries one when it grows. -/
theorem scanWord_isSome_append {n : Nat} {s : Text} (b : Text)
    (h : (scanWord n s).isSome) : (scanWord n (s ++ b)).isSome := by
  obtain ⟨⟨word, rest⟩, h⟩ := Option.isSome_iff_exists.mp h
  have hbody := scanWord_body b h
  obtain ⟨hne, hword, -⟩ := scanWord_eq_some.mp h
  have hgrow : word <+: (((s ++ b).dropWhile isspace).takeWhile fun c => !isspace c).take n := by
    obtain ⟨more, hmore⟩ :=
      takeWhile_isPrefix_append (fun c => !isspace c) (s.dropWhile isspace) b
    rw [hbody, hword, ← hmore, List.take_append]
    exact List.prefix_append ..
  have hne' := hgrow.ne_nil hne
  rw [scanWord, if_neg hne']
  rfl

/-- The value of a digit in base 16. -/
def hexDigit (c : UInt8) : Option Nat :=
  if isdigit c then some (c.toNat - 48)
  else if 97 ≤ tolower c ∧ tolower c ≤ 102 then some ((tolower c).toNat - 87)
  else none

/-- The value of the digits in front, on top of `acc`, and the bytes behind them. -/
def hexDigits (acc : Nat) : Text → Nat × Text
  | [] => (acc, [])
  | c :: rest =>
      match hexDigit c with
      | some d => hexDigits (16 * acc + d) rest
      | none => (acc, c :: rest)

/-- Skip `0x` in front of a digit. -/
def skip0x : Text → Text
  | 48 :: x :: d :: rest =>
      if tolower x = 120 ∧ (hexDigit d).isSome then d :: rest else 48 :: x :: d :: rest
  | s => s

/-- `strtol(s, &endptr, 16)`: the value and the bytes at `endptr`. -/
def strtolHex (s : Text) : Int × Text :=
  let body := s.dropWhile isspace
  let negative := body.head? = some 45
  let unsigned := skip0x (if negative ∨ body.head? = some 43 then body.drop 1 else body)
  if (unsigned.head?.bind hexDigit).isSome then
    let (n, rest) := hexDigits 0 unsigned
    (clampLong (if negative then -(n : Int) else n), rest)
  else (0, s)

end OtusCProg.Library
