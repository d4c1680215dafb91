import OtusCProg.Library.LinkedChain
import Mathlib.Data.Int.Bitwise

/-!
# The list program of `09_assembler_homework`

`main.c`, where a request for memory may be turned down. A node has the number
of its request for an address. Of a pointer to a pointer a function takes what
is behind it, and returns what it stores there. The number of calls and of turns
of a loop is bounded by `fuel`. The function that `m` is given works on a world
of its own; that of the program is what is printed.
-/

namespace OtusCProg.ListProgram
open Library

/-- What ends the program before its return. -/
inductive Fault
  | null_pointer
  | dangling_pointer
  | out_of_fuel
deriving DecidableEq, Repr

/-- A piece of the output. -/
inductive Out
  | int (value : ℤ)
  | newline
deriving DecidableEq, Repr

/-- The nodes by address, the requests for memory made so far, the addresses handed out and given
back, the values of the error messages, and the world. -/
structure State (W : Type) where
  heap : Heap ℤ
  requests : ℕ
  allocated : List ℕ
  freed : List ℕ
  stderr : List ℤ
  world : W

variable {W : Type}

/-- At the start of the program. -/
def start (world : W) : State W := ⟨fun _ => none, 0, [], [], [], world⟩

def malloc (memory : ℕ → Bool) (s : State W) : Option ℕ × State W :=
  if memory s.requests then
    (some s.requests,
      { s with
        requests := s.requests + 1
        allocated := s.allocated ++ [s.requests] })
  else (none, { s with requests := s.requests + 1 })

def free (ptr : Option ℕ) (s : State W) : Except Fault (State W) :=
  match ptr with
  | none => .ok s
  | some a =>
      if s.heap a = none then .error .dangling_pointer
      else
        .ok { s with
          heap := Function.update s.heap a none
          freed := s.freed ++ [a] }

/-- The node behind a pointer. -/
def load (ptr : Option ℕ) (s : State W) : Except Fault (Cell ℤ) :=
  match ptr with
  | none => .error .null_pointer
  | some a =>
      match s.heap a with
      | none => .error .dangling_pointer
      | some cell => .ok cell

def print_int (value : ℤ) (out : List Out) : List Out := out ++ [.int value]

/-- `puts(&empty_str)`. -/
def puts (s : State (List Out)) : State (List Out) := { s with world := s.world ++ [.newline] }

def p (value : ℤ) : ℤ := Int.land value 1

def add_element (memory : ℕ → Bool) (value : ℤ) (list : Option ℕ) (s : State W) :
    Option ℕ × State W :=
  match malloc memory s with
  | (none, s) => (list, { s with stderr := s.stderr ++ [value] })
  | (some elem, s) =>
      (some elem, { s with heap := Function.update s.heap elem (some ⟨value, list⟩) })

def m : ℕ → Option ℕ → (ℤ → W → W) → State W → Except Fault (State W)
  | 0, _, _, _ => .error .out_of_fuel
  | fuel + 1, head, func, s =>
      if head = none then .ok s
      else do
        let node ← load head s
        let s := { s with world := func node.value s.world }
        let node ← load head s
        m fuel node.next func s

def f (memory : ℕ → Bool) :
    ℕ → Option ℕ → (ℤ → ℤ) → Option ℕ → State W → Except Fault (Option ℕ × State W)
  | 0, _, _, _, _ => .error .out_of_fuel
  | fuel + 1, head, func, newList, s =>
      if head = none then .ok (newList, s)
      else do
        let node ← load head s
        let (newList, s) :=
          if func node.value ≠ 0 then add_element memory node.value newList s else (newList, s)
        let node ← load head s
        f memory fuel node.next func newList s

/-- The argument is the address of a variable, which is not NULL. -/
def deleteList : ℕ → Option ℕ → State W → Except Fault (State W)
  | 0, _, _ => .error .out_of_fuel
  | fuel + 1, head, s => do
      let node ← load head s
      match node.next with
      | none => free head s
      | some next => do
          let s ← free head s
          deleteList fuel (some next) s

/-- The loop of `main` that builds the list, with `data_length` elements left. -/
def build (memory : ℕ → Bool) (data : List ℤ) : ℕ → Option ℕ → State W → Option ℕ × State W
  | 0, head, s => (head, s)
  | data_length + 1, head, s =>
      let (head, s) := add_element memory (data.getD data_length 0) head s
      build memory data data_length head s

def main (memory : ℕ → Bool) (fuel : ℕ) (data : List ℤ) : Except Fault (State (List Out)) := do
  let (head, s) := build memory data data.length none (start [])
  let s ← m fuel head print_int s
  let s := puts s
  let (newList, s) ← f memory fuel head p none s
  let s ← m fuel newList print_int s
  let s := puts s
  let s ← deleteList fuel head s
  deleteList fuel newList s

end OtusCProg.ListProgram
