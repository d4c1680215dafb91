import Mathlib.Data.List.Basic

/-!
# C strings

The bytes of a C string in front of its terminator. A NUL byte cannot be one
of them, so `strcmp` on two such values is equality.
-/

namespace OtusCProg.Library

/-- A string without NUL bytes. -/
def CString := { s : List UInt8 // (0 : UInt8) ∉ s }

namespace CString

instance : DecidableEq CString := inferInstanceAs (DecidableEq { s : List UInt8 // (0 : UInt8) ∉ s })

/-- The bytes of the string. -/
def bytes (s : CString) : List UInt8 := s.1

@[ext] theorem ext {s t : CString} (h : s.bytes = t.bytes) : s = t := Subtype.ext h

end CString

end OtusCProg.Library
