import OtusCProg.Library.MachineInt

/-!
# Text as bytes

The bytes of a C string in front of its terminator, and the functions of the
C library on such strings: character classes, comparison without case, and
`strtol` for a `long` of 64 bits.
-/

namespace OtusCProg.Library

/-- The bytes of a C string. -/
abbrev Text := List UInt8

/-- The bytes of a string literal, in UTF-8. -/
def text (s : String) : Text := s.toList.flatMap String.utf8EncodeChar

/-- The bytes `%d` prints. -/
def decimal (n : Int) : Text := text (toString n)

theorem length_text_le (s : String) : (text s).length ≤ 4 * s.length := by
  rw [text, List.length_flatMap, ← String.length_toList]
  induction s.toList with
  | nil => simp
  | cons c cs ih =>
      have hc : (String.utf8EncodeChar c).length ≤ 4 := by
        rw [String.length_utf8EncodeChar]
        exact Char.utf8Size_le_four c
      simp only [List.map_cons, List.sum_cons, List.length_cons]
      omega

theorem length_decimal_le {n : Nat} (h : n < 2 ^ 63) : (decimal n).length ≤ 76 := by
  have hrepr : n.repr.length ≤ 19 := 
    (Nat.length_repr_le_iff (by decide)).mpr (h.trans (by decide))
  calc
    (decimal n).length ≤ 4 * n.repr.length := length_text_le _
    _ ≤ 76 := by omega

def isspace (c : UInt8) : Bool := c = 32 || (9 ≤ c && c ≤ 13)

def isdigit (c : UInt8) : Bool := 48 ≤ c && c ≤ 57

def tolower (c : UInt8) : UInt8 := if 65 ≤ c && c ≤ 90 then c + 32 else c

/-- `strcasecmp(s, t) == 0` -/
def strcaseeq (s t : Text) : Bool := s.map tolower = t.map tolower

/-- The value of the digits in front, on top of `acc`, and the bytes behind them. -/
def digits (acc : Nat) : Text → Nat × Text
  | [] => (acc, [])
  | c :: rest => if isdigit c then digits (10 * acc + (c.toNat - 48)) rest else (acc, c :: rest)

/-- The nearest `long`. -/
def clampLong (n : Int) : Int := max (-2 ^ 63) (min n (2 ^ 63 - 1))

/-- `strtol(s, &endptr, 10)`: the value and the bytes at `endptr`. -/
def strtol (s : Text) : Int × Text :=
  let body := s.dropWhile isspace
  let negative := body.head? = some 45
  let unsigned := if negative ∨ body.head? = some 43 then body.drop 1 else body
  match unsigned with
  | [] => (0, s)
  | c :: _ =>
      if isdigit c then
        let (n, rest) := digits 0 unsigned
        (clampLong (if negative then -(n : Int) else n), rest)
      else (0, s)

end OtusCProg.Library
