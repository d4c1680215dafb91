import OtusCProg.Library.CBuffer
import OtusCProg.Library.Compaction

/-!
# The HTTP server of `23_http_server`

The handlers of one connection, `accept_connection`, `free_conns`, and the
loop of `main` beside the kernel. Results of system calls are inputs; a
handler returns the connection it leaves and what it did, in its order. The
descriptor `-1` is `none`, and a pointer into `server.conns` is the index of
the slot. `PATH_MAX` is the 1024 of the systems that have `kqueue`.
-/

namespace OtusCProg.HttpServer
open Library Compaction

def MAX_CONN : Nat := 1024
def RECV_BUF_SIZE : Nat := 4096
def SEND_BUF_SIZE : Nat := 8192
def MAX_KEVENTS : Nat := 64
def PATH_MAX : Nat := 1024

inductive ConnState where
  | reading
  | sending_header
  | sending_file
  | closing
deriving DecidableEq

structure Connection where
  fd : Option Nat
  state : ConnState
  recv_buf : Buffer RECV_BUF_SIZE
  recv_len : Nat
  file_fd : Option Nat
  file_offset : Nat
  file_size : Nat
  send_buf : Buffer SEND_BUF_SIZE
  send_len : Nat
  send_sent : Nat

/-- A slot as `main` leaves it before the loop, or as `accept_connection` does with a socket. -/
def Connection.cleared (fd : Option Nat) : Connection where
  fd := fd
  state := .reading
  recv_buf := .zero _
  recv_len := 0
  file_fd := none
  file_offset := 0
  file_size := 0
  send_buf := .zero _
  send_len := 0
  send_sent := 0

/-- The bytes of `send_buf` that `send` is offered. -/
def Connection.pending (conn : Connection) : Text :=
  (conn.send_buf.bytes.drop conn.send_sent).take (conn.send_len - conn.send_sent)

inductive Filter where
  | read
  | write
deriving DecidableEq

/-- What the server did: the system calls that took effect, the head of a response that it built,
and a `send` or `pread` that failed. -/
inductive Action where
  | accepted (fd : Nat)
  | added (fd : Nat) (filter : Filter)
  | deleted (fd : Nat) (filter : Filter)
  | closed (fd : Nat)
  | opened (fd : Nat) (path : Text)
  | built (code : Nat)
  | sent (bytes : Text)
  | failed
deriving DecidableEq

/-- What a handler leaves. -/
abbrev Outcome := Connection × List Action

/-- The outcome of a handler that did `actions` first. -/
def Outcome.after (actions : List Action) (o : Outcome) : Outcome := (o.1, actions ++ o.2)

def close_connection (conn : Connection) : Outcome :=
  ({ conn with fd := none, file_fd := none, state := .closing },
    conn.fd.toList.flatMap (fun fd => [.deleted fd .read, .deleted fd .write, .closed fd]) ++
      conn.file_fd.toList.map .closed)

def octet_stream : Text := text "application/octet-stream"

def mime_types : List (Text × Text) :=
  [(text ".html", text "text/html"), (text ".htm", text "text/html"),
    (text ".txt", text "text/plain"), (text ".css", text "text/css"),
    (text ".js", text "application/javascript"), (text ".json", text "application/json"),
    (text ".png", text "image/png"), (text ".jpg", text "image/jpeg"),
    (text ".jpeg", text "image/jpeg"), (text ".gif", text "image/gif"),
    (text ".ico", text "image/x-icon"), (text ".svg", text "image/svg+xml"),
    (text ".pdf", text "application/pdf")]

def get_mime_type (path : Text) : Text :=
  match strrchr 46 path with
  | none => octet_stream
  | some ext => (mime_types.lookup ext).getD octet_stream

/-- The byte that `%` and two characters stand for. -/
def hex_byte (a b : UInt8) : Option UInt8 :=
  match strtolHex [a, b] with
  | (val, []) => if 0 ≤ val ∧ val ≤ 255 then some (UInt8.ofNat val.toNat) else none
  | (_, _ :: _) => none

/-- The loop of `url_decode`, with room for `room` more bytes. -/
def url_decode_loop : Nat → Text → Text
  | 0, _ => []
  | _ + 1, [] => []
  | room + 1, 37 :: a :: b :: rest =>
      match hex_byte a b with
      | some c => c :: url_decode_loop room rest
      | none => 37 :: url_decode_loop room (a :: b :: rest)
  | room + 1, c :: rest => (if c = 43 then 32 else c) :: url_decode_loop room rest

/-- The string that `url_decode` leaves in `dst`; a byte `%00` ends it. -/
def url_decode (src : Text) (dst_size : Nat) : Text := cstr (url_decode_loop (dst_size - 1) src)

def is_safe_path (path : Text) : Bool := (strstr (text "..") path).isNone

/-- What `snprintf` prints in `build_http_status`. -/
def head (code : Nat) (status content_type : Text) (content_len : Nat) : Text :=
  text "HTTP/1.1 " ++ decimal code ++ text " " ++ status ++ text "\r\nContent-Type: " ++
    content_type ++ text "\r\nContent-Length: " ++ decimal content_len ++
      text "\r\nConnection: close\r\n\r\n"

def build_http_status (conn : Connection) (code : Nat) (status content_type : Text)
    (content_len : Nat) : Connection :=
  let printed := head code status content_type content_len
  { conn with
    send_buf := conn.send_buf.memcpy 0 (printed.take (SEND_BUF_SIZE - 1) ++ [0])
    send_len := printed.length
    send_sent := 0
    state := .sending_header }

/-- Ask for `EVFILT_WRITE`, or close the connection when `kevent` fails. -/
def watch_write (conn : Connection) (registered : Bool) : Outcome :=
  if registered then (conn, conn.fd.toList.map (.added · .write)) else close_connection conn

def send_error (conn : Connection) (code : Nat) (status : Text) (registered : Bool) : Outcome :=
  let body := status
  let conn := build_http_status conn code status (text "text/plain") body.length
  let conn :=
    if conn.send_len + body.length < SEND_BUF_SIZE then
      { conn with
        send_buf := conn.send_buf.memcpy conn.send_len body
        send_len := conn.send_len + body.length }
    else conn
  (watch_write conn registered).after [.built code]

inductive Errno where
  | ENOENT
  | EACCES
  | other

/-- The fields of `struct stat` that matter; `st_size` is an `off_t`. -/
structure Stat where
  regular : Bool
  st_size : Nat
  st_size_lt : st_size < 2 ^ 63

/-- `server.root_dir`, and how `stat`, `access` and `open` answer. -/
structure Site where
  root_dir : Text
  stat : Text → Except Errno Stat
  readable : Text → Bool
  opens : Text → Bool

/-- A site where no file exists. -/
def Site.empty : Site where
  root_dir := text "/srv"
  stat := fun _ => .error .ENOENT
  readable := fun _ => true
  opens := fun _ => true

/-- `sscanf(recv_buf, "%15s %1023s %15s", ..)`: the method and the path. -/
def scan_request (recv_buf : Text) : Option (Text × Text) := do
  let (method, rest) ← scanWord 15 recv_buf
  let (path, rest) ← scanWord 1023 rest
  let _version ← scanWord 15 rest
  pure (method, path)

/-- How `handle_request` answers. -/
inductive Reply where
  | error (code : Nat) (status : Text)
  | file (full_path : Text) (st : Stat)

/-- The checks of the file in `handle_request`. -/
def reply_file (site : Site) (full_path : Text) : Reply :=
  match site.stat full_path with
  | .error .ENOENT => .error 404 (text "Not Found")
  | .error .EACCES => .error 403 (text "Forbidden")
  | .error .other => .error 500 (text "Internal Server Error")
  | .ok st =>
      if !st.regular then .error 404 (text "Not Found")
      else if !site.readable full_path then .error 403 (text "Forbidden")
      else if !site.opens full_path then .error 500 (text "Internal Server Error")
      else .file full_path st

/-- The checks of the path in `handle_request`. -/
def reply_path (site : Site) (path : Text) : Reply :=
  let decoded_path := url_decode path 1024
  if !is_safe_path decoded_path then .error 403 (text "Forbidden")
  else
    let full_path := site.root_dir ++ text "/" ++ decoded_path
    if PATH_MAX ≤ full_path.length then .error 414 (text "URI Too Long")
    else reply_file site full_path

/-- The checks of `handle_request`, in the order of the source. -/
def reply_to (site : Site) (recv_buf : Text) : Reply :=
  match scan_request recv_buf with
  | none => .error 400 (text "Bad Request")
  | some (method, path) =>
      if method ≠ text "GET" then .error 405 (text "Method Not Allowed")
      else reply_path site path

/-- What `recv` returns. -/
inductive Recv where
  | data (bytes : Text)
  | again
  | error

/-- The answers of the system to one call of `handle_read`: to `recv`, to `open` where the file
can be opened, and to the `kevent` that adds `EVFILT_WRITE`. -/
structure ReadAnswers where
  recv : Recv
  file_fd : Nat
  registered : Bool

def handle_request (site : Site) (conn : Connection) (a : ReadAnswers) : Outcome :=
  match reply_to site (cstr conn.recv_buf.bytes) with
  | .error code status => send_error conn code status a.registered
  | .file full_path st =>
      let conn :=
        { conn with file_fd := some a.file_fd, file_offset := 0, file_size := st.st_size }
      let conn := build_http_status conn 200 (text "OK") (get_mime_type full_path) st.st_size
      (watch_write conn a.registered).after [.opened a.file_fd full_path, .built 200]

/-- `strstr(s, "\r\n\r\n") != NULL` -/
def terminated (s : Text) : Bool := (strstr (text "\r\n\r\n") s).isSome

/-- The `recv` of `handle_read` has stored `bytes`. -/
def Connection.receive (conn : Connection) (bytes : Text) : Connection :=
  let recv_len := conn.recv_len + bytes.length
  { conn with
    recv_buf := (conn.recv_buf.memcpy conn.recv_len bytes).memcpy recv_len [0]
    recv_len := recv_len }

def handle_read (site : Site) (conn : Connection) (a : ReadAnswers) : Outcome :=
  match conn.fd with
  | none => (conn, [])
  | some fd =>
      match a.recv with
      | .again => (conn, [])
      | .error => close_connection conn
      | .data bytes =>
          let bytes := bytes.take (RECV_BUF_SIZE - conn.recv_len - 1)
          if bytes = [] then close_connection conn
          else
            let conn := conn.receive bytes
            if terminated (cstr conn.recv_buf.bytes) then
              (handle_request site conn a).after [.deleted fd .read]
            else if RECV_BUF_SIZE - 1 ≤ conn.recv_len then
              send_error conn 413 (text "Payload Too Large") a.registered
            else (conn, [])

/-- What `send` returns; it accepts no more than it is offered. -/
inductive Send where
  | accepted (n : Nat)
  | again
  | error

/-- The answers of the system to one call of `handle_write`: to the `send` of the header or of
the rest of a block, to `pread` from a descriptor at an offset, and to the `send` of the new block. -/
structure WriteAnswers where
  pending : Send
  pread : Nat → Nat → Option Text
  block : Send

/-- `send` what is pending, and go on with `next` when all of it was accepted. -/
def send_pending (conn : Connection) (answer : Send) (next : Connection → Outcome) : Outcome :=
  match answer with
  | .again => (conn, [])
  | .error => (close_connection conn).after [.failed]
  | .accepted n =>
      let bytes := conn.pending.take n
      let conn := { conn with send_sent := conn.send_sent + bytes.length }
      Outcome.after [.sent bytes] (if conn.send_sent < conn.send_len then (conn, []) else next conn)

/-- Read the next block of the file and offer it to `send`. -/
def send_block (a : WriteAnswers) (conn : Connection) : Outcome :=
  match (conn.file_fd.bind (a.pread · conn.file_offset)).map (List.take SEND_BUF_SIZE) with
  | none => (close_connection conn).after [.failed]
  | some [] => close_connection conn
  | some buf =>
      let conn :=
        { conn with
          send_buf := conn.send_buf.memcpy 0 buf
          send_len := buf.length
          send_sent := 0
          file_offset := conn.file_offset + buf.length }
      send_pending conn a.block fun conn => (conn, [])

def handle_write (conn : Connection) (a : WriteAnswers) : Outcome :=
  match conn.fd, conn.state with
  | none, _ => (conn, [])
  | some _, .sending_header =>
      send_pending conn a.pending fun conn =>
        match conn.file_fd with
        | some _ => send_block a { conn with state := .sending_file, send_len := 0, send_sent := 0 }
        | none => close_connection conn
  | some _, .sending_file =>
      if conn.send_sent < conn.send_len then send_pending conn a.pending (send_block a)
      else send_block a conn
  | some _, _ => (conn, [])

/-- `server.conns` and `server.nconns`. -/
structure Server where
  conns : Nat → Connection
  nconns : Nat

/-- A socket that `accept` returned, and whether `set_nonblocking` and `add_kqueue_event`
succeed on it. -/
structure Client where
  fd : Nat
  nonblocking : Bool
  registered : Bool

/-- `accept_connection`; `none` where `accept` fails. -/
def accept_connection (server : Server) (client : Option Client) : Server × List Action :=
  match client with
  | none => (server, [])
  | some client =>
      if MAX_CONN ≤ server.nconns ∨ client.nonblocking = false then
        (server, [.accepted client.fd, .closed client.fd])
      else
        let conns := Function.update server.conns server.nconns (.cleared client.fd)
        if client.registered then
          (⟨conns, server.nconns + 1⟩, [.accepted client.fd, .added client.fd .read])
        else (⟨conns, server.nconns⟩, [.accepted client.fd, .closed client.fd])

def free_conns (server : Server) : Server :=
  let (conns, j) := compact (fun conn => conn.fd.isSome) server.conns server.nconns
  ⟨conns, j⟩

/-- What a descriptor stands for; clients are numbered in the order in which they come. -/
inductive Descriptor where
  | listener
  | client (number : Nat)
  | file
deriving DecidableEq

/-- The open descriptors, the slot that `udata` points to for each filter that `kqueue` watches,
and the number of clients so far. The filter of the listening socket is not in the table. -/
structure Kernel where
  fds : Nat → Option Descriptor
  udata : Nat → Filter → Option Nat
  clients : Nat

/-- An action of the handler of slot `slot`. -/
def Kernel.perform (slot : Nat) (k : Kernel) : Action → Kernel
  | .accepted fd =>
      { k with
        fds := Function.update k.fds fd (some (.client k.clients))
        clients := k.clients + 1 }
  | .added fd filter =>
      { k with udata :=
          Function.update k.udata fd (Function.update (k.udata fd) filter (some slot)) }
  | .deleted fd filter =>
      { k with udata := Function.update k.udata fd (Function.update (k.udata fd) filter none) }
  | .closed fd =>
      { k with
        fds := Function.update k.fds fd none
        udata := Function.update k.udata fd fun _ => none }
  | .opened fd _ => { k with fds := Function.update k.fds fd (some .file) }
  | .built _ => k
  | .sent _ => k
  | .failed => k

def Kernel.performAll (slot : Nat) (k : Kernel) (actions : List Action) : Kernel :=
  actions.foldl (Kernel.perform slot) k

/-- An event that `kevent` returns; `number` is the client it is about. -/
inductive Event where
  | listening
  | ready (fd : Nat) (filter : Filter) (udata : Nat) (number : Nat)
deriving DecidableEq

/-- The events that the kernel may report. -/
def Kernel.Reports (k : Kernel) : Event → Prop
  | .listening => True
  | .ready fd filter udata number =>
      k.udata fd filter = some udata ∧ k.fds fd = some (.client number)

/-- The server beside the kernel; `batch` is what `main` still has to handle of the events of
this iteration, `none` at the start of one. -/
structure System where
  server : Server
  kernel : Kernel
  batch : Option (List Event)

/-- Before the first iteration. -/
def System.initial (listen_fd : Nat) : System where
  server := ⟨fun _ => .cleared none, 0⟩
  kernel := ⟨Function.update (fun _ => none) listen_fd (some .listener), fun _ _ => none, 0⟩
  batch := none

/-- Slot `slot` has been handled; `rest` is left of the batch. -/
def System.handled (s : System) (slot : Nat) (o : Outcome) (rest : List Event) : System where
  server := { s.server with conns := Function.update s.server.conns slot o.1 }
  kernel := s.kernel.performAll slot o.2
  batch := some rest

/-- The listening socket has been handled. -/
def System.accept (s : System) (client : Option Client) (rest : List Event) : System :=
  let (server, actions) := accept_connection s.server client
  ⟨server, s.kernel.performAll s.server.nconns actions, some rest⟩

/-- `free_conns` at the end of an iteration. -/
def System.free (s : System) : System := { s with server := free_conns s.server, batch := none }

/-- One step of the loop of `main`, with the answers of the system and the files chosen freely.
A new descriptor is one that is not open. -/
inductive Step (s : System) : System → Prop where
  | poll {events : List Event} (hbatch : s.batch = none) (hlen : events.length ≤ MAX_KEVENTS)
      (hnodup : events.Nodup) (hreport : ∀ e ∈ events, s.kernel.Reports e) :
      Step s { s with batch := some events }
  | accept {rest : List Event} {client : Option Client} (hbatch : s.batch = some (.listening :: rest))
      (hnew : ∀ c ∈ client, s.kernel.fds c.fd = none) : Step s (s.accept client rest)
  | read {fd slot number : Nat} {rest : List Event} {site : Site} {a : ReadAnswers}
      (hbatch : s.batch = some (.ready fd .read slot number :: rest))
      (hnew : s.kernel.fds a.file_fd = none) :
      Step s (s.handled slot (handle_read site (s.server.conns slot) a) rest)
  | write {fd slot number : Nat} {rest : List Event} {a : WriteAnswers}
      (hbatch : s.batch = some (.ready fd .write slot number :: rest)) :
      Step s (s.handled slot (handle_write (s.server.conns slot) a) rest)
  | free (hbatch : s.batch = some []) : Step s s.free

end OtusCProg.HttpServer
