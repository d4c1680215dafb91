import OtusCProg.Library.CText

/-!
# The codepage converter of `04_types_contd`

`codepage_to_utf8` and `utf8_encode`, the loop of `read_file`, and `convert`. An
input buffer is the list of its bytes up to the end of its block. What the
converter stores through `out` is the list of these bytes in order; whether they
fit is a question about the block of the caller. Sizes of blocks in memory do not
wrap.
-/

namespace OtusCProg.Codepage
open Library

/-- Why a run has no result: a read or a write outside a block, an exit with an
error, or the model's bound on the loop was too small. -/
inductive Fault where
  | readOutside
  | writeOutside
  | exit
  | bound
deriving DecidableEq, Repr

/-- The code points of the upper half of cp1251, entry by entry as in the source. -/
def cp1251_to_utf8_table : List UInt32 := [
  0x402, 0x403, 0x20a1, 0x453, 0x201e, 0x2026, 0x2020, 0x2021, 0x20ac, 0x2030, 0x409, 0x2039,
  0x40a, 0x40c, 0x40b, 0x40f, 0x452, 0x2018, 0x2019, 0x201c, 0x201d, 0x2022, 0x2013, 0x2014, 0,
  0x2122, 0x459, 0x203a, 0x45a, 0x45c, 0x45b, 0x45f, 0xa0, 0x40e, 0x45e, 0x408, 0xa4, 0x490, 0xa6,
  0xa7, 0x401, 0xa9, 0x404, 0xab, 0xac, 0xad, 0xae, 0x407, 0xb0, 0xb1, 0x406, 0x456, 0x491, 0xb5,
  0xb6, 0xb7, 0x451, 0x2116, 0x454, 0xbb, 0x458, 0x405, 0x455, 0x457, 0x410, 0x411, 0x412, 0x413,
  0x414, 0x415, 0x416, 0x417, 0x418, 0x419, 0x41a, 0x41b, 0x41c, 0x41d, 0x41e, 0x41f, 0x420,
  0x421, 0x422, 0x423, 0x424, 0x425, 0x426, 0x427, 0x428, 0x429, 0x42a, 0x42b, 0x42c, 0x42d,
  0x42e, 0x42f, 0x430, 0x431, 0x432, 0x433, 0x434, 0x435, 0x436, 0x437, 0x438, 0x439, 0x43a,
  0x43b, 0x43c, 0x43d, 0x43e, 0x43f, 0x440, 0x441, 0x442, 0x443, 0x444, 0x445, 0x446, 0x447,
  0x448, 0x449, 0x44a, 0x44b, 0x44c, 0x44d, 0x44e, 0x44f ]

/-- The code points of the upper half of koi8-r, entry by entry as in the source. -/
def koi8r_to_utf_table : List UInt32 := [
  0x2500, 0x2502, 0x250c, 0x2510, 0x2514, 0x2518, 0x251c, 0x2524, 0x252c, 0x2534, 0x253c, 0x2580,
  0x2584, 0x2588, 0x258c, 0x2590, 0x2591, 0x2592, 0x2593, 0x2320, 0x25a0, 0x2219, 0x221a, 0x2248,
  0x2264, 0x2265, 0xa0, 0x2321, 0xb0, 0xb2, 0xb7, 0xf7, 0x2550, 0x2551, 0x2552, 0x451, 0x2553,
  0x2554, 0x2555, 0x2556, 0x2557, 0x2558, 0x2559, 0x255a, 0x255b, 0x255c, 0x255d, 0x255e, 0x255f,
  0x2560, 0x2561, 0x401, 0x2562, 0x2563, 0x2564, 0x2565, 0x2566, 0x2567, 0x2568, 0x2569, 0x256a,
  0x256b, 0x256c, 0xa9, 0x44e, 0x430, 0x431, 0x446, 0x434, 0x435, 0x444, 0x433, 0x445, 0x438,
  0x439, 0x43a, 0x43b, 0x43c, 0x43d, 0x43e, 0x43f, 0x44f, 0x440, 0x441, 0x442, 0x443, 0x436,
  0x432, 0x44c, 0x44b, 0x437, 0x448, 0x44d, 0x449, 0x447, 0x44a, 0x42e, 0x410, 0x411, 0x426,
  0x414, 0x415, 0x424, 0x413, 0x425, 0x418, 0x419, 0x41a, 0x41b, 0x41c, 0x41d, 0x41e, 0x41f,
  0x42f, 0x420, 0x421, 0x422, 0x423, 0x416, 0x412, 0x42c, 0x42b, 0x417, 0x428, 0x42d, 0x429,
  0x427, 0x42a ]

/-- The code points of the upper half of iso-8859-5, entry by entry as in the source. -/
def iso_8859_5_to_utf_table : List UInt32 := [
  0x80, 0x81, 0x82, 0x83, 0x84, 0x85, 0x86, 0x87, 0x88, 0x89, 0x8a, 0x8b, 0x8c, 0x8d, 0x8e, 0x8f,
  0x90, 0x91, 0x92, 0x93, 0x94, 0x95, 0x96, 0x97, 0x98, 0x99, 0x9a, 0x9b, 0x9c, 0x9d, 0x9e, 0x9f,
  0xa0, 0x401, 0x402, 0x403, 0x404, 0x405, 0x406, 0x407, 0x408, 0x409, 0x40a, 0x40b, 0x40c, 0xad,
  0x40e, 0x40f, 0x410, 0x411, 0x412, 0x413, 0x414, 0x415, 0x416, 0x417, 0x418, 0x419, 0x41a,
  0x41b, 0x41c, 0x41d, 0x41e, 0x41f, 0x420, 0x421, 0x422, 0x423, 0x424, 0x425, 0x426, 0x427,
  0x428, 0x429, 0x42a, 0x42b, 0x42c, 0x42d, 0x42e, 0x42f, 0x430, 0x431, 0x432, 0x433, 0x434,
  0x435, 0x436, 0x437, 0x438, 0x439, 0x43a, 0x43b, 0x43c, 0x43d, 0x43e, 0x43f, 0x440, 0x441,
  0x442, 0x443, 0x444, 0x445, 0x446, 0x447, 0x448, 0x449, 0x44a, 0x44b, 0x44c, 0x44d, 0x44e,
  0x44f, 0x2116, 0x451, 0x452, 0x453, 0x454, 0x455, 0x456, 0x457, 0x458, 0x459, 0x45a, 0x45b,
  0x45c, 0xa7, 0x45e, 0x45f ]

/-- `code_table` for a supported name. -/
def code_table (codepage : Text) : Option (List UInt32) :=
  if codepage = text "cp1251" then some cp1251_to_utf8_table
  else if codepage = text "koi8-r" then some koi8r_to_utf_table
  else if codepage = text "iso-8859-5" then some iso_8859_5_to_utf_table
  else none

/-- `utf8_encode`: the bytes stored in `out`, and the returned length. -/
def utf8_encode (utf : UInt32) : List UInt8 × Nat :=
  if utf ≤ 0x7F then ([utf.toUInt8, 0], 1)
  else if utf ≤ 0x07FF then
    ([(((utf >>> 6) &&& 0x1F) ||| 0xC0).toUInt8, (((utf >>> 0) &&& 0x3F) ||| 0x80).toUInt8, 0], 2)
  else if utf ≤ 0xFFFF then
    ([(((utf >>> 12) &&& 0x0F) ||| 0xE0).toUInt8, (((utf >>> 6) &&& 0x3F) ||| 0x80).toUInt8,
      (((utf >>> 0) &&& 0x3F) ||| 0x80).toUInt8, 0], 3)
  else if utf ≤ 0x10FFFF then
    ([(((utf >>> 18) &&& 0x07) ||| 0xF0).toUInt8, (((utf >>> 12) &&& 0x3F) ||| 0x80).toUInt8,
      (((utf >>> 6) &&& 0x3F) ||| 0x80).toUInt8, (((utf >>> 0) &&& 0x3F) ||| 0x80).toUInt8, 0], 4)
  else ([0xEF, 0xBF, 0xBD, 0], 0)

/-- The loop of `codepage_to_utf8` on the buffer from `in` on: the bytes stored
through `out`, with the terminator, and `utf8_bytes`. -/
def convert_loop (table : List UInt32) : List UInt8 → List UInt8 → Nat →
    Except Fault (List UInt8 × Nat)
  | [], _, _ => .error .readOutside
  | c :: rest, out, utf8_bytes =>
      if c = 0 then .ok (out ++ [0], utf8_bytes)
      else if c &&& 0x80 ≠ 0 then
        let codepoint := table.getD (0x7f &&& c).toNat 0
        let (utf8_byte_array, len) := utf8_encode codepoint
        convert_loop table rest (out ++ utf8_byte_array.take len) (utf8_bytes + len)
      else convert_loop table rest (out ++ [c]) (utf8_bytes + 1)

/-- `codepage_to_utf8` -/
def codepage_to_utf8 (input : List UInt8) (codepage : Text) : Except Fault (List UInt8 × Nat) :=
  match code_table codepage with
  | none => .error .exit
  | some table => convert_loop table input [] 0

/-- The locals of `read_file`, with the bytes stored in `buf` so far. -/
structure Reader where
  buf : List UInt8
  buf_cap : Nat
  file_sz : Nat
  eof : Bool

/-- `fread` at the current position of a regular file: the bytes read, and whether
the end of the file was met. -/
def fread (file : List UInt8) (pos request : Nat) : List UInt8 × Bool :=
  ((file.drop pos).take request, file.length - pos < request)

/-- One turn of the loop of `read_file`. -/
def Reader.turn (file : List UInt8) (r : Reader) : Reader :=
  let buf_cap := if r.buf_cap - r.file_sz = 0 then r.buf_cap * 2 else r.buf_cap
  let (bytes, eof) := fread file r.file_sz (buf_cap - r.file_sz)
  { buf := r.buf.take r.file_sz ++ bytes, buf_cap, file_sz := r.file_sz + bytes.length, eof }

/-- The loop of `read_file`; no result means that the fuel was too small. -/
def read_loop (file : List UInt8) : Nat → Reader → Option Reader
  | 0, _ => none
  | fuel + 1, r => if r.eof then some r else read_loop file fuel (r.turn file)

/-- `read_file`: the whole block and `file_sz`. The rest of the block holds what
`malloc` and `realloc` left there, by position. -/
def read_file (file : List UInt8) (left : Nat → UInt8) (fuel : Nat) : Option (List UInt8 × Nat) :=
  match read_loop file fuel { buf := [], buf_cap := 4096, file_sz := 0, eof := false } with
  | none => none
  | some r => some (r.buf ++ (List.range (r.buf_cap - r.buf.length)).map
      fun i => left (r.buf.length + i), r.file_sz)

/-- `convert`: what the output file holds. A block of no bytes has no room for the
terminator. -/
def convert (file : List UInt8) (left : Nat → UInt8) (codepage : Text) (fuel : Nat) :
    Except Fault (List UInt8) :=
  match read_file file left fuel with
  | none => .error .bound
  | some (input_data, input_file_size) =>
      match codepage_to_utf8 input_data codepage with
      | .error fault => .error fault
      | .ok (output_data, utf8_bytes) =>
          if output_data.length ≤ input_file_size * 2 then .ok (output_data.take utf8_bytes)
          else .error .writeOutside

end OtusCProg.Codepage
