import OtusCProg.HashmapOpen.Entries
import OtusCProg.HashmapOpen.Report
import OtusCProg.HashmapOpen.Tokenizer
import OtusCProg.HashmapOpen.Values
import OtusCProg.Library.Allocator

/-!
# The whole program, with its memory

`main` of `hashmap_open.c`, with each block it takes, touches and frees. The table
is the one of the other modules, where an entry also has the blocks it lies in.
The allocator and the file system may refuse anything. What `perror_if` prints to
`stderr` is left out.
-/

namespace OtusCProg.HashmapOpen
open Library Allocator

/-- What the program asks from outside: which requests for memory are granted, the file of a
name, whether the `n`-th `fread` fails, whether `fclose` succeeds, and what new blocks hold. -/
structure Outside where
  grants : Nat → Bool
  fopen : Text → Option Text
  ferror : Nat → Bool
  fclose : Bool
  block : Buffer MAX_WORD_LEN
  pointers : Nat → KeyPointer

/-- How the program ends before the end of `main`: by `exit(1)`, by a read through `NULL`, in
the table, by a write outside of a block, or at the bound of the model. -/
inductive Halt where
  | exit1
  | nullPointer
  | stuck (reason : Stuck)
  | writeOutside
  | bound
deriving DecidableEq, Repr

/-- The program reaches its end or halts before. -/
abbrev Run := Attempt Halt Allocator

/-- What stands behind an entry: `*value`, and the blocks of its key, its value and the entry. -/
structure Cell where
  number : Nat
  key : Nat
  value : Nat
  entry : Nat

/-- The blocks of an entry, as `freeEntry` frees them. -/
def Cell.blocks (c : Cell) : List Nat := [c.key, c.value, c.entry]

/-- A table with the blocks of the `struct Hashmap` and of its `data`. -/
structure Table where
  map : Hashmap Cell
  self : Nat
  data : Nat

/-- The blocks of some entries. -/
def cells (es : List (Entry Cell)) : List Nat := es.flatMap fun e => e.value.blocks

/-- All blocks that belong to a table. -/
def Table.blocks (t : Table) : List Nat := cells (entries t.map) ++ [t.data, t.self]

/-- The table without its blocks. -/
def Table.counts (t : Table) : Hashmap Nat := t.map.mapValues Cell.number

/-- `FREE_ENTRY` -/
def freeEntry (e : Entry Cell) : Run Unit := do
  touch [e.value.entry]
  free e.value.blocks

/-- The loop of `destroyHashmap`, on the entries that it meets. -/
def freeEntries (t : Table) : List (Entry Cell) → Run Unit
  | [] => pure ()
  | e :: rest => do
      touch [t.self, t.data]
      freeEntry e
      freeEntries t rest

/-- `destroyHashmap`. It keeps the `data` of an empty table. -/
def destroyHashmap (t : Table) : Run Unit := do
  freeEntries t (entries t.map)
  touch [t.self]
  if t.map.size > 0 then
    free [t.data]
  free [t.self]

/-- `perror_if` on a true condition. -/
def perror_if {α : Type} (t : Table) (pointers : List Nat) : Run α := do
  destroyHashmap t
  free pointers
  throw .exit1

section Program
variable (o : Outside)

namespace Table

/-- `createHashmap`. Without memory, `perror_if` destroys a table that is `NULL`, or one with
`data` that is `NULL`. -/
def create (limit : Nat) (loadFactor multiplier : Rat) : Run Table := do
  match ← malloc o.grants with
  | none => throw .nullPointer
  | some self =>
      match createHashmap limit loadFactor multiplier with
      | .error reason => throw (.stuck reason)
      | .ok map =>
          touch [self]
          match ← malloc o.grants with
          | none => throw .nullPointer
          | some data => return ⟨map, self, data⟩

/-- The loop of `rehashUp` over the old slots. -/
def reinsert (raw_put : Table → Entry Cell → Run Table) (t : Table) : Nat → Table → Run Table
  | 0, new => pure new
  | i + 1, new => do
      let new ← reinsert raw_put t i new
      touch [t.self, t.data]
      match t.map.data i with
      | none => return new
      | some e => raw_put new e

/-- `rehashUp`, with the `raw_put` it calls as argument. -/
def rehashUp (raw_put : Table → Entry Cell → Run Table) (t : Table) (e : Entry Cell) :
    Run Table := do
  let product := ⌊t.map.arr_size * t.map.multiplier⌋
  if product < 2 ^ 64 then
    let new ← create o product.toNat t.map.loadFactor t.map.multiplier
    let new ← reinsert raw_put t t.map.arr_size new
    free [t.data, t.self]
    raw_put new e
  else throw (.stuck .conversion)

/-- `raw_put`, for at most `depth` nested rehashes. -/
def raw_put : Nat → Table → Entry Cell → Run Table
  | depth, t, e => do
      touch [t.self, t.data, e.value.entry, e.value.key]
      if t.map.size ≤ t.map.limit then
        match place t.map e with
        | .error reason => throw (.stuck reason)
        | .ok map => return { t with map }
      else
        match depth with
        | 0 => throw (.stuck .depth)
        | depth + 1 => t.rehashUp o (raw_put depth) e

/-- `put` of a key and a value that have blocks already. -/
def put (depth : Nat) (t : Table) (key : K) (number key_block value_block : Nat) : Run Table := do
  match ← malloc o.grants with
  | none => perror_if t [key_block, value_block]
  | some entry =>
      touch [entry]
      t.raw_put o depth ⟨key, ⟨number, key_block, value_block, entry⟩⟩

/-- What the loop of `countWords` does with a complete word. `get` and `xremove` may compare it
with any key of the table. -/
def countWord (depth : Nat) (t : Table) (word input : Nat) (key : K) : Run Table := do
  touch [word]
  match ← malloc o.grants with
  | none => perror_if t [word, input]
  | some key_block =>
      touch [word, key_block]
      match ← malloc o.grants with
      | none => perror_if t [word, key_block, input]
      | some value_block =>
          touch (key_block :: t.blocks)
          match get t.map key with
          | none =>
              touch [value_block]
              t.put o depth key 1 key_block value_block
          | some old =>
              touch [old.value, value_block]
              let (map, removed) := xremove t.map key
              match removed with
              | none => throw .nullPointer
              | some e =>
                  freeEntry e
                  put o depth { t with map } key ((old.number + 1) % 2 ^ 64) key_block value_block

/-- The loop of `countWords`, on the rest of the input. -/
def countLoop (depth word input : Nat) : Table → Scanner → Text → Run Table
  | t, _, [] => pure t
  | t, s, c :: input_data => do
      touch [input, word]
      match s.turn c with
      | none => throw .writeOutside
      | some (s, none) => countLoop depth word input t s input_data
      | some (s, some key) =>
          let t ← t.countWord o depth word input key
          countLoop depth word input t s input_data

/-- The block of `read_file`, twice as large where it is full. -/
def grow (buf : Nat) (r : Codepage.Reader) : Run (Option Nat) :=
  if r.buf_cap - r.file_sz = 0 then realloc o.grants buf else pure (some buf)

/-- The loop of `read_file`, with its block; `n` counts the calls of `fread`. -/
def read_loop (t : Table) (file : Text) : Nat → Nat → Nat → Codepage.Reader → Run (Nat × Codepage.Reader)
  | 0, _, _, _ => throw .bound
  | fuel + 1, n, buf, r =>
      if r.eof then return (buf, r)
      else do
        match ← grow o buf r with
        | none => perror_if t []
        | some buf =>
            touch [buf]
            if o.ferror n then perror_if t [buf]
            else read_loop t file fuel (n + 1) buf (r.turn file)

/-- `read_file`: the block and the bytes of the file in it. -/
def read_file (t : Table) (filename : Text) (fuel : Nat) : Run (Nat × Text) := do
  match o.fopen filename with
  | none => perror_if t []
  | some file =>
      match ← malloc o.grants with
      | none => perror_if t []
      | some buf =>
          let (buf, r) ← t.read_loop o file fuel 0 buf ⟨[], 4096, 0, false⟩
          if o.fclose then return (buf, r.buf.take r.file_sz)
          else perror_if t [buf]

/-- `countWords`. -/
def countWords (depth fuel : Nat) (input_file : Text) : Run Table := do
  let t ← create o 2 (1 / 2) 2
  let (input, input_data) ← t.read_file o input_file fuel
  match ← malloc o.grants with
  | none => perror_if t [input]
  | some word =>
      let t ← countLoop o depth word input t (.start o.block) input_data
      free [word, input]
      return t

/-- `printDescending`; the address of a key is its block. -/
def printDescending (t : Table) : Run (List (Nat × K)) := do
  match ← malloc o.grants with
  | none => perror_if t []
  | some keysDesc =>
      touch (keysDesc :: t.blocks)
      let lines := HashmapOpen.printDescending t.counts
        (fun j => ((t.map.data j).map (·.value.key)).getD 0) o.pointers
      free [keysDesc]
      return lines

end Table

/-- `"%5lu %s\n"` -/
def line_text (line : Nat × K) : Text :=
  List.replicate (5 - (decimal line.1).length) 32 ++ decimal line.1 ++ 32 :: line.2.bytes ++ [10]

def print_usage (argv0 : Text) : Text :=
  text "Counts the frequency of words in a file\n\n" ++ text "Usage:\n\n" ++ text "  " ++ argv0 ++
    text " <input_file>\n" ++ text "\n"

/-- `main`, on the name of the program and its arguments: the status and what is printed. -/
def main (depth fuel : Nat) (argv0 : Text) (args : List Text) : Run (Int × Text) :=
  match args with
  | [input_file] => do
      let t ← Table.countWords o depth fuel input_file
      let lines ← t.printDescending o
      destroyHashmap t
      return (0, lines.flatMap line_text)
  | _ => return (1, print_usage argv0)

end Program

end OtusCProg.HashmapOpen
