import OtusCProg.Library.CBuffer

/-!
# The telnet client of `21_telnet`

`main` from its arguments on, with a connection to the server. What `read`
returns is an input: the segments that arrive one after the other, and how
`read` goes on when they are used up. The connection takes everything: that a
`write` in `send_all` may fail and end the program is left out, and so are short
writes to the standard output and what goes to `stderr`.
-/

namespace OtusCProg.Telnet
open Library

def BUF_SIZE : Nat := 8192

/-- `read` behind the last segment. -/
inductive Ending where
  | waiting
  | closed
  | error
deriving DecidableEq

/-- How `main` ends; `reading` while it waits for the server. -/
inductive Exit where
  | reading
  | success
  | failure
deriving DecidableEq

/-- The calls of `send_all`, the bytes on the standard output, and how `main` ends. -/
structure Outcome where
  sends : List Text
  stdout : Text
  exit : Exit
deriving DecidableEq

/-- The loop that fills `text`, where `text_len` bytes of it stand in `txt`. -/
def fill_text (first : Bool) (txt : Text) : List Text → Text
  | [] => txt
  | arg :: args =>
      if txt.length < BUF_SIZE / 2 - 2 then
        let txt := if first then txt else txt ++ text " "
        let arg_len :=
          if BUF_SIZE / 2 ≤ txt.length + arg.length then BUF_SIZE / 2 - txt.length - 1 else arg.length
        fill_text false (txt ++ arg.take arg_len) args
      else txt

/-- What `snprintf` prints into `cmd`. -/
def figlet_command (font : Text) (args : List Text) : Text :=
  text "figlet /" ++ font ++ text " " ++ fill_text true [] args ++ text "\r\n"

/-- The first loop: the segments behind the one with the prompt. -/
def await_prompt : List Text → Option (List Text)
  | [] => none
  | buf :: segments =>
      if (strstr (text ".\r\n") (cstr buf)).isSome then some segments else await_prompt segments

/-- The second loop: what it writes, and whether it found the new prompt. -/
def copy_reply : List Text → Text × Bool
  | [] => ([], false)
  | buf :: segments =>
      match strstr (text "\r\n.") (cstr buf) with
      | some prompt_pos =>
          let prompt_index := (cstr buf).length - prompt_pos.length
          (buf.take prompt_index ++ text "\n", true)
      | none =>
          let (out, found_prompt) := copy_reply segments
          (buf ++ out, found_prompt)

/-- `main`; `args` are the arguments behind the options. -/
def main (font : Text) (args segments : List Text) (ending : Ending) : Outcome :=
  if args = [] then ⟨[], [], .failure⟩
  else
    let sends := [text "\r\n"]
    match await_prompt segments with
    | none => ⟨sends, [], if ending = .waiting then .reading else .failure⟩
    | some segments =>
        let cmd := figlet_command font args
        if BUF_SIZE ≤ cmd.length then ⟨sends, [], .failure⟩
        else
          let (out, found_prompt) := copy_reply segments
          ⟨sends ++ [cmd], out,
            if found_prompt then .success
            else
              match ending with
              | .waiting => .reading
              | .closed => .success
              | .error => .failure⟩

end OtusCProg.Telnet
