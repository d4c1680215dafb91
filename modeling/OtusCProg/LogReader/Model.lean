import OtusCProg.Library.ChainTable
import OtusCProg.Library.CText
import Mathlib.Data.List.Range

/-!
# The log reader of `17_log_reader`

The line parser, the two hash tables, and the system of `main` and its worker
threads. A file is `none` when it cannot be opened, else its bytes. Every
critical section is one step of its worker, and so are opening a file and
reading a line. `taken` records which worker took which file. Memory is
assumed to be available.
-/

namespace OtusCProg.LogReader
open Library MachineInt

def MAX_LINE_LEN : Nat := 8192
def HASH_SIZE : Nat := 1024

/-- `strchr`: the rest of the string from the first `c` on. -/
def strchr (c : UInt8) : Text → Option Text
  | [] => none
  | d :: rest => if d = c then some (d :: rest) else strchr c rest

def skip_spaces (p : Text) : Text := p.dropWhile (· = 32)

/-- What `parse_log_line` extracts; `bytes` is a `size_t`. -/
structure Record where
  url : Text
  bytes : Nat
  referer : Text
deriving DecidableEq

/-- The bytes between two pointers into one string. -/
def between (first last : Text) : Text := first.take (first.length - last.length)

/-- `parse_log_line`; a pointer is the string that starts there. -/
def parse_log_line (line : Text) : Option Record := do
  let p ← strchr 32 line
  let p ← strchr 32 (p.drop 1)
  let p ← strchr 91 (p.drop 1)
  let p ← strchr 34 p
  let method_end ← strchr 32 (p.drop 1)
  let url_start := method_end.drop 1
  let url_end ← strchr 32 url_start
  let p ← strchr 34 url_end
  let p := skip_spaces (p.drop 1)
  guard (p.head?.any isdigit)
  let p ← strchr 32 p
  let p := skip_spaces (p.drop 1)
  let bytes := if p.head? = some 45 then 0 else toUnsigned 64 (strtol p).1
  let p ← strchr 34 p
  let ref_start := p.drop 1
  let ref_end ← strchr 34 ref_start
  pure ⟨between url_start url_end, bytes, between ref_start ref_end⟩

/-- `fgets` with room for `n` bytes: the bytes read, and the rest of the file. -/
def fgets : Nat → Text → Text × Text
  | 0, s => ([], s)
  | _ + 1, [] => ([], [])
  | n + 1, c :: s =>
      if c = 10 then ([c], s)
      else
        let (line, rest) := fgets n s
        (c :: line, rest)

/-- The bytes in front of the first NUL. -/
def cstring (line : Text) : Text := line.takeWhile (· ≠ 0)

/-- One turn of the `fgets` loop: the record of the line, and the rest of the file. -/
def read_line (s : Text) : Option Record × Text :=
  let (line, rest) := fgets (MAX_LINE_LEN - 1) s
  (parse_log_line (cstring line), rest)

/-- One turn of the loop in `hash`; `c` is a signed `char`. -/
def hashStep (h : BitVec 64) (c : UInt8) : BitVec 64 :=
  ((h <<< 5) + h) + c.toBitVec.signExtend 64

def hash (str : Text) : BitVec 64 := str.foldl hashStep 5381#64

/-- The bucket of a key. -/
def slot (key : Text) : Nat := (hash key).toNat % HASH_SIZE

/-- `total_bytes`, the buckets of `url_map` and of `ref_map`. -/
structure Totals where
  total_bytes : Nat
  url_map : Nat → List (Text × Nat)
  ref_map : Nat → List (Text × Int32)

def Totals.zero : Totals := ⟨0, fun _ => [], fun _ => []⟩

/-- The critical section of `total_bytes_mutex`. -/
def Totals.add_bytes (t : Totals) (bytes : Nat) : Totals :=
  { t with total_bytes := (t.total_bytes + bytes) % 2 ^ 64 }

def url_map_add (t : Totals) (key : Text) (bytes : Nat) : Totals :=
  if bytes = 0 then t
  else
    { t with url_map :=
        ChainTable.record slot key (fun old => (old + bytes) % 2 ^ 64) bytes t.url_map }

def ref_map_inc (t : Totals) (key : Text) : Totals :=
  { t with ref_map := ChainTable.record slot key (· + 1) 1 t.ref_map }

/-- Where a worker thread stands; `rest` is the unread part of its file. -/
inductive Worker where
  | entering
  | waiting
  | opening (idx : Nat)
  | reading (rest : Text)
  | counting (r : Record) (rest : Text)
  | adding (r : Record) (rest : Text)
  | referring (r : Record) (rest : Text)
  | ended
deriving DecidableEq

/-- Where `main` stands: before the test of `file_count`, in the joins, behind them. -/
inductive Main where
  | starting
  | joining
  | joined
deriving DecidableEq

structure System where
  next : Nat
  finished : Bool
  totals : Totals
  workers : Nat → Worker
  main : Main
  taken : List (Nat × Nat)

def System.initial : System :=
  { next := 0, finished := false, totals := .zero, workers := fun _ => .entering,
    main := .starting, taken := [] }

/-- `pthread_cond_broadcast` -/
def wake : Worker → Worker
  | .waiting => .entering
  | w => w

def System.setWorker (s : System) (i : Nat) (w : Worker) : System :=
  { s with workers := Function.update s.workers i w }

@[simp] theorem setWorker_self (s : System) (i : Nat) (w : Worker) :
    (s.setWorker i w).workers i = w :=
  Function.update_self ..

theorem setWorker_of_ne (s : System) {i j : Nat} (w : Worker) (h : j ≠ i) :
    (s.setWorker i w).workers j = s.workers j :=
  Function.update_of_ne h ..

/-- Set `finished` and wake every worker that waits. -/
def System.finish (s : System) : System :=
  { s with finished := true, workers := fun j => wake (s.workers j) }

section Step
variable (files : List (Option Text)) (s : System) (i : Nat)

/-- The critical section of the queue in `worker`. -/
def take_file : System :=
  if files.length ≤ s.next then s.setWorker i (if s.finished then .ended else .waiting)
  else
    let idx := s.next
    let s := { s with next := idx + 1, taken := s.taken ++ [(i, idx)] }
    let s := if idx = files.length - 1 then s.finish else s
    s.setWorker i (.opening idx)

/-- The next step of `worker`; there is none while it waits and after it has ended. -/
def worker : Option System :=
  match s.workers i with
  | .entering => some (take_file files s i)
  | .waiting => none
  | .opening idx =>
      match files[idx]? with
      | some (some content) => some (s.setWorker i (.reading content))
      | _ => some (s.setWorker i .entering)
  | .reading rest =>
      if rest = [] then some (s.setWorker i .entering)
      else
        match read_line rest with
        | (none, rest) => some (s.setWorker i (.reading rest))
        | (some r, rest) =>
            some (s.setWorker i (if 0 < r.bytes then .counting r rest else .referring r rest))
  | .counting r rest =>
      some ({ s with totals := s.totals.add_bytes r.bytes }.setWorker i (.adding r rest))
  | .adding r rest =>
      some ({ s with totals := url_map_add s.totals r.url r.bytes }.setWorker i (.referring r rest))
  | .referring r rest =>
      some ({ s with totals := ref_map_inc s.totals r.referer }.setWorker i (.reading rest))
  | .ended => none

/-- The next step of `main`, with `n` workers. -/
def main (n : Nat) : Option System :=
  match s.main with
  | .starting =>
      some (if files.length = 0 then { s.finish with main := .joining } else { s with main := .joining })
  | .joining => if ∀ i < n, s.workers i = .ended then some { s with main := .joined } else none
  | .joined => none

/-- Which thread moves; a waiting worker may also wake up without a reason. -/
inductive Event where
  | worker (i : Nat)
  | main
  | spurious (i : Nat)

def step (n : Nat) : Event → Option System
  | .worker i => if i < n then worker files s i else none
  | .main => main files s n
  | .spurious i =>
      if i < n ∧ s.workers i = .waiting then some (s.setWorker i .entering) else none

end Step

/-- The states of all runs with `n` workers. -/
inductive Reachable (files : List (Option Text)) (n : Nat) : System → Prop where
  | initial : Reachable files n .initial
  | step {s t : System} {e : Event} :
      Reachable files n s → step files s n e = some t → Reachable files n t

end OtusCProg.LogReader
