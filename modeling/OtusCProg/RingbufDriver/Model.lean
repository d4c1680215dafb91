import OtusCProg.Library.MachineInt

/-!
# The ring buffer driver of `27_driver`

Reads, writes and seeks hold `rb_mutex` from their first access to the buffer to their
last, and so does a resize, so an interleaving of them is a sequence of whole calls. Two
accesses stand outside of the lock. `dev_open` tests `rb.data` without it: an open in the
middle of a resize may find no block though the resize succeeds, and here it comes before or
after. `buf_size_set` writes `param_buf_size` behind the unlock: here that is part of the call,
and no call below reads it. What the kernel decides (an interrupted lock, faults of user
copies, `kmalloc`) is an argument of each call.
-/

namespace OtusCProg.RingbufDriver
open Library.MachineInt

/-- `struct ring_buffer`; `data` is empty for a `NULL` pointer. -/
structure RingBuffer where
  data : Option (List UInt8)
  size : Nat
  count : Nat
  read_pos : Nat
  write_pos : Nat
deriving DecidableEq, Repr

/-- The errors the driver returns, with their numbers. -/
def EINVAL : Int := 22
def ENOMEM : Int := 12
def ERANGE : Int := 34
def ERESTARTSYS : Int := 512

/-- What the kernel decides during one call. A fault `some k` of a user copy
means that at most `k` bytes are copied; `kmalloc` gives the bytes found in the
new block, or nothing when it fails. -/
structure Kernel where
  interrupted : Bool
  fault1 : Option Nat
  fault2 : Option Nat
  kmalloc : Option (Nat → UInt8)

/-- The number of bytes that a user copy of `n` bytes transfers. -/
def transferred (fault : Option Nat) (n : Nat) : Nat :=
  match fault with
  | none => n
  | some k => min k n

/-- Store `bytes` from position `pos` on. -/
def store (data : List UInt8) (pos : Nat) (bytes : List UInt8) : List UInt8 :=
  data.take pos ++ bytes ++ data.drop (pos + bytes.length)

/-- What `copy_from_user` puts into its destination of `n` bytes: the bytes that were not copied are
filled with zeros. -/
def copied (ubuf : List UInt8) (n : Nat) (fault : Option Nat) : List UInt8 :=
  ubuf.take (transferred fault n) ++ List.replicate (n - transferred fault n) 0

/-- `copy_from_user(data + pos, ubuf, n)`: the block and the number of bytes not copied. -/
def copy_from_user (data : List UInt8) (pos : Nat) (ubuf : List UInt8) (n : Nat)
    (fault : Option Nat) : List UInt8 × Nat :=
  (store data pos (copied ubuf n fault), n - transferred fault n)

/-- `copy_to_user(ubuf, data + pos, n)`: the delivered bytes and the bytes not copied. -/
def copy_to_user (data : List UInt8) (pos n : Nat) (fault : Option Nat) : List UInt8 × Nat :=
  ((data.drop pos).take (transferred fault n), n - transferred fault n)

def ringbuf_empty (rb : RingBuffer) : Bool := rb.count = 0

def ringbuf_space (rb : RingBuffer) : Nat := rb.size - rb.count

/-- The first adjustment of `ringbuf_write`: the oldest unread bytes make room. -/
def makeRoom (rb : RingBuffer) (len : Nat) : RingBuffer :=
  if len > ringbuf_space rb then
    let excess := len - ringbuf_space rb
    { rb with read_pos := (rb.read_pos + excess) % rb.size, count := rb.count - excess }
  else rb

/-- The part of `ringbuf_write` after the length was cut and room was made. -/
def copyIn (k : Kernel) (rb : RingBuffer) (data ubuf : List UInt8) (len : Nat) :
    RingBuffer × Nat :=
  let to_write := min len (rb.size - rb.write_pos)
  let (data, uncopied) := copy_from_user data rb.write_pos ubuf to_write k.fault1
  if uncopied ≠ 0 then ({ rb with data := some data }, 0)
  else
    let part2 := len - to_write
    let (data, uncopied) :=
      if part2 ≠ 0 then copy_from_user data 0 (ubuf.drop to_write) part2 k.fault2 else (data, 0)
    if uncopied ≠ 0 then ({ rb with data := some data }, 0)
    else
      ({ rb with
          data := some data
          write_pos := (rb.write_pos + len) % rb.size
          count := rb.count + len }, len)

/-- `ringbuf_write`: overwrites old data when there is not enough space. -/
def ringbuf_write (k : Kernel) (rb : RingBuffer) (ubuf : List UInt8) (len : Nat) :
    RingBuffer × Nat :=
  match rb.data with
  | none => (rb, 0)
  | some data =>
      if len = 0 then (rb, 0)
      else
        let ubuf := if len > rb.size then ubuf.drop (len - rb.size) else ubuf
        let len := if len > rb.size then rb.size else len
        copyIn k (makeRoom rb len) data ubuf len

/-- The part of `ringbuf_peek` that copies `avail` bytes out. -/
def copyOut (k : Kernel) (rb : RingBuffer) (data : List UInt8) (avail : Nat) : Nat × List UInt8 :=
  let part1 := min avail (rb.size - rb.read_pos)
  let (bytes1, uncopied) := copy_to_user data rb.read_pos part1 k.fault1
  if uncopied ≠ 0 then (0, bytes1)
  else
    let part2 := avail - part1
    let (bytes2, uncopied) :=
      if part2 ≠ 0 then copy_to_user data 0 part2 k.fault2 else ([], 0)
    if uncopied ≠ 0 then (0, bytes1 ++ bytes2) else (avail, bytes1 ++ bytes2)

/-- `ringbuf_peek`: the result and the bytes that reached the user. -/
def ringbuf_peek (k : Kernel) (rb : RingBuffer) (len : Nat) : Nat × List UInt8 :=
  match rb.data with
  | none => (0, [])
  | some data =>
      if ringbuf_empty rb then (0, [])
      else
        let avail := min len rb.count
        if avail = 0 then (0, []) else copyOut k rb data avail

/-- `ringbuf_discard`: removes the bytes that were read. -/
def ringbuf_discard (rb : RingBuffer) (len : Nat) : RingBuffer :=
  if rb.data.isNone || len > rb.count then rb
  else { rb with read_pos := (rb.read_pos + len) % rb.size, count := rb.count - len }

/-- The driver: the buffer, the module parameter and the `f_pos` of every open file. -/
structure Driver where
  rb : RingBuffer
  param_buf_size : Int
  f_pos : Nat → Int

/-- What a caller gets back: the return value and the bytes copied to it. -/
structure Reply where
  ret : Int
  bytes : List UInt8
deriving DecidableEq, Repr

def digitVal (c : Char) : Option Nat :=
  if '0' ≤ c ∧ c ≤ '9' then some (c.toNat - '0'.toNat) else none

/-- `_parse_integer` in base ten: the value of the leading digits, their number and the rest. -/
def parseInteger : List Char → Nat → Nat → Nat × Nat × List Char
  | [], acc, n => (acc, n, [])
  | c :: cs, acc, n =>
      match digitVal c with
      | some d => parseInteger cs (acc * 10 + d) (n + 1)
      | none => (acc, n, c :: cs)

/-- `_kstrtoull(s, 10)`: digits, then at most one newline. -/
def kstrtoull (s : List Char) : Except Int Nat :=
  let (value, digits, rest) := parseInteger s 0 0
  if value ≥ 2 ^ 64 then .error ERANGE
  else if digits = 0 then .error EINVAL
  else if rest = [] ∨ rest = ['\n'] then .ok value
  else .error EINVAL

/-- `kstrtoint(s, 10)`: an optional sign, then a value that fits in `int`. -/
def kstrtoint (s : List Char) : Except Int Int :=
  match s with
  | '-' :: digits =>
      match kstrtoull digits with
      | .error e => .error e
      | .ok value => if value > 2 ^ 31 then .error ERANGE else .ok (-(value : Int))
  | '+' :: digits =>
      match kstrtoull digits with
      | .error e => .error e
      | .ok value => if value ≥ 2 ^ 31 then .error ERANGE else .ok value
  | digits =>
      match kstrtoull digits with
      | .error e => .error e
      | .ok value => if value ≥ 2 ^ 31 then .error ERANGE else .ok value

/-- A freshly allocated block of `n` bytes. -/
def block (bytes : Nat → UInt8) (n : Nat) : List UInt8 := (List.range n).map bytes

def buf_size_set (k : Kernel) (d : Driver) (val : List Char) : Driver × Reply :=
  match kstrtoint val with
  | .error e => (d, ⟨-e, []⟩)
  | .ok new_size =>
      if new_size < 16 ∨ new_size > 65536 then (d, ⟨-EINVAL, []⟩)
      else
        let new_size_z := toUnsigned 64 new_size
        if k.interrupted then (d, ⟨-ERESTARTSYS, []⟩)
        else
          match k.kmalloc with
          | none => ({ d with rb := { d.rb with data := none } }, ⟨-ENOMEM, []⟩)
          | some bytes =>
              ({ d with
                  rb := ⟨some (block bytes new_size_z), new_size_z, 0, 0, 0⟩
                  param_buf_size := new_size }, ⟨0, []⟩)

def dev_open (d : Driver) : Driver × Reply :=
  if d.rb.data.isNone then (d, ⟨-ENOMEM, []⟩) else (d, ⟨0, []⟩)

def dev_read (k : Kernel) (d : Driver) (file len : Nat) : Driver × Reply :=
  if k.interrupted then (d, ⟨-ERESTARTSYS, []⟩)
  else
    let (n, bytes) := ringbuf_peek k d.rb len
    let ret := toSigned 64 n
    if ret > 0 then
      ({ d with
          rb := ringbuf_discard d.rb (toUnsigned 64 ret)
          f_pos := Function.update d.f_pos file (toSigned 64 (d.f_pos file + ret)) }, ⟨ret, bytes⟩)
    else (d, ⟨ret, bytes⟩)

def dev_write (k : Kernel) (d : Driver) (ubuf : List UInt8) : Driver × Reply :=
  if k.interrupted then (d, ⟨-ERESTARTSYS, []⟩)
  else
    let (rb, n) := ringbuf_write k d.rb ubuf ubuf.length
    ({ d with rb := rb }, ⟨toSigned 64 n, []⟩)

/-- The new position that `dev_llseek` computes before its checks. -/
def seekTarget (d : Driver) (file : Nat) (off whence : Int) : Option Int :=
  if whence = 0 then some off
  else if whence = 1 then some (toSigned 64 (d.f_pos file + off))
  else if whence = 2 then some (toSigned 64 (d.rb.count + off))
  else none

def dev_llseek (k : Kernel) (d : Driver) (file : Nat) (off whence : Int) : Driver × Reply :=
  if k.interrupted then (d, ⟨-ERESTARTSYS, []⟩)
  else
    match seekTarget d file off whence with
    | none => (d, ⟨-EINVAL, []⟩)
    | some newpos =>
        if newpos < 0 then (d, ⟨-EINVAL, []⟩)
        else
          let newpos : Int := if toUnsigned 64 newpos > d.rb.count then d.rb.count else newpos
          ({ d with f_pos := Function.update d.f_pos file newpos }, ⟨newpos, []⟩)

/-- A call into the driver; `file` names the open file it goes through. -/
inductive Call where
  | openFile
  | read (file len : Nat)
  | write (file : Nat) (ubuf : List UInt8)
  | llseek (file : Nat) (off whence : Int)
  | bufSizeSet (val : List Char)

/-- One call, from its first access to its last. -/
def step (k : Kernel) (d : Driver) : Call → Driver × Reply
  | .openFile => dev_open d
  | .read file len => dev_read k d file len
  | .write _ ubuf => dev_write k d ubuf
  | .llseek file off whence => dev_llseek k d file off whence
  | .bufSizeSet val => buf_size_set k d val

/-- The state after `ringbuf_init` succeeded with a block of unknown content. -/
def ringbuf_init (bytes : Nat → UInt8) : Driver where
  rb := ⟨some (block bytes 16), 16, 0, 0, 0⟩
  param_buf_size := 16
  f_pos := fun _ => 0

/-- A sequence of calls by any callers, with every reply. -/
def run (d : Driver) : List (Kernel × Call) → Driver × List Reply
  | [] => (d, [])
  | (k, c) :: cs =>
      let (next, reply) := step k d c
      let (last, replies) := run next cs
      (last, reply :: replies)

end OtusCProg.RingbufDriver
