import OtusCProg.Dbstat.Statistics
import OtusCProg.Library.Custody
import OtusCProg.Library.EarlyReturn
import OtusCProg.Library.QuotedNames

/-!
# A run of `dbstat`

From the command line to the exit status, with any answers of the database
library. Every error leaves `main` early, or the whole program through `exit`;
`cleanup` then runs and closes what is still open. The query is built from names
that were checked first.
-/

namespace OtusCProg.Dbstat
open Library

/-- `arguments_t`, once it is complete. -/
structure Arguments where
  host : Text
  user : Text
  pass : Text
  db : Text
  table : Text
  column : Text
deriving DecidableEq

/-- The letters of `"h:u:p:d:t:c:"`; each takes an argument. -/
def letters : Text := text "hupdtc"

/-- What `getopt` returns one after the other: the options with their arguments, or nothing when
it finds a letter that it does not know or an argument is missing. Words that are no options
stay out, and a double dash ends the options. -/
def getopt : List Text → Option (List (UInt8 × Text))
  | [] => some []
  | arg :: rest =>
      if arg = text "--" then some []
      else
        match arg with
        | 45 :: c :: joined =>
            if c ∉ letters then none
            else if joined ≠ [] then (getopt rest).map ((c, joined) :: ·)
            else
              match rest with
              | [] => none
              | optarg :: rest => (getopt rest).map ((c, optarg) :: ·)
        | _ => getopt rest

/-- The argument of the last option with this letter. -/
def lastOf (c : UInt8) (opts : List (UInt8 × Text)) : Option Text :=
  (opts.reverse.find? (·.1 = c)).map Prod.snd

/-- What the library holds for the program: `conn` and `result`. -/
inductive Resource where
  | conn
  | result
deriving DecidableEq, Repr

/-- A result belongs to its connection. -/
def Resource.depends : Resource → List Resource
  | .conn => []
  | .result => [.conn]

/-- The database library, with the server behind it: whether each call succeeds. A stored result
has a number of columns and the first column of its rows. -/
structure Server where
  atexit : Bool
  mysql_init : Bool
  mysql_real_connect : Arguments → Bool
  mysql_query : Text → Bool
  mysql_store_result : Option (Nat × List (Option Text))
  mysql_error : Text
  perror : Text

/-- The process: its two pointers, what it did to resources, the queries it sent and its output. -/
structure Process where
  conn : Bool
  result : Bool
  history : List (Custody Resource)
  queries : List Text
  stdout : List (String × Argument)
  stderr : List Text
deriving Inhabited

def Process.start : Process := ⟨false, false, [], [], [], []⟩

/-- A function that may end the program with a status. -/
abbrev Run := Attempt Int Process

def EXIT_FAILURE : Int := 1

/-- What happens to a resource. -/
def note (e : Custody Resource) : Run Unit := modify fun p => { p with history := p.history ++ [e] }

def complain (message : Text) : Run Unit := modify fun p => { p with stderr := p.stderr ++ [message] }

/-- `exit(EXIT_FAILURE)`, and `goto error` in `main`, which returns the same status. -/
def fail {α : Type} : Run α := throw EXIT_FAILURE

def cleanup (p : Process) : Process :=
  let p := if p.result then { p with history := p.history ++ [.release .result], result := false } else p
  if p.conn then { p with history := p.history ++ [.release .conn], conn := false } else p

section Program
variable (server : Server)

def finish_with_error {α : Type} : Run α := do
  if (← get).conn then
    note (.use .conn)
    complain (server.mysql_error ++ [10])
  fail

def is_valid_identifier (s : Text) : Bool :=
  s ≠ [] && s.all fun c =>
    (97 ≤ c && c ≤ 122) || (65 ≤ c && c ≤ 90) || (48 ≤ c && c ≤ 57) || c = 95 || c = 36

def parse_arguments (argv : List Text) : Run Arguments := do
  match getopt argv with
  | none =>
      complain (text "Использование: dbstat -d база -t таблица -c колонка [-h хост] [-u пользователь] [-p пароль]\n")
      fail
  | some opts =>
      match lastOf 100 opts, lastOf 116 opts, lastOf 99 opts with
      | some db, some table, some column =>
          pure ⟨(lastOf 104 opts).getD (text "localhost"), (lastOf 117 opts).getD (text "root"),
            (lastOf 112 opts).getD (text "my-secret-pw"), db, table, column⟩
      | _, _, _ =>
          complain (text "Ошибка: необходимо указать базу данных, таблицу и колонку\n")
          fail

def validate_identifiers (args : Arguments) : Run Unit := do
  if !is_valid_identifier args.db || !is_valid_identifier args.table
      || !is_valid_identifier args.column then
    complain (text "Ошибка: имя базы, таблицы или колонки содержит недопустимые символы\n")
    fail

def db_connect (args : Arguments) : Run Unit := do
  if !server.mysql_init then
    complain (text "mysql_init: " ++ server.perror ++ [10])
    fail
  note (.acquire .conn)
  modify fun p => { p with conn := true }
  note (.use .conn)
  if !server.mysql_real_connect args then finish_with_error server

/-- The text that `snprintf` is to write. -/
def query_text (args : Arguments) : Text :=
  text "SELECT " ++ (96 :: args.column ++ [96]) ++ text " FROM " ++ (96 :: args.table ++ [96])

/-- `execute_query`: the rows of the stored result. -/
def execute_query (args : Arguments) : Run (List (Option Text)) := do
  if 512 ≤ (query_text args).length then
    complain (text "Ошибка: буфер запроса недостаточен\n")
    fail
  note (.use .conn)
  modify fun p => { p with queries := p.queries ++ [query_text args] }
  if !server.mysql_query (query_text args) then finish_with_error server
  note (.use .conn)
  match server.mysql_store_result with
  | none => finish_with_error server
  | some (num_fields, rows) =>
      note (.acquire .result)
      modify fun p => { p with result := true }
      note (.use .result)
      if num_fields ≠ 1 then
        complain (text "Ошибка: ожидалась ровно одна колонка в результате\n")
        fail
      pure rows

/-- `main` behind `atexit`; `stats` starts with what is on the stack. -/
def body (strtod : Text → Conversion) (stack : Stats) (argv : List Text) : Run Unit := do
  let args ← parse_arguments argv
  validate_identifiers args
  db_connect server args
  let rows ← execute_query server args
  note (.use .result)
  let (stats, status) := process_rows strtod stack rows
  if status ≠ 0 then
    complain (text "В указанной колонке не найдено числовых значений\n")
    fail
  modify fun p => { p with stdout := p.stdout ++ print_statistics stats }
  note (.release .result)
  modify fun p => { p with result := false }
  note (.release .conn)
  modify fun p => { p with conn := false }

/-- `main` and the exit of the process: its status, and the process behind `cleanup`. -/
def main (strtod : Text → Conversion) (stack : Stats) (argv : List Text) : Int × Process :=
  if !server.atexit then
    (EXIT_FAILURE, { Process.start with stderr := [text "atexit: " ++ server.perror ++ [10]] })
  else
    let (ended, p) := (body server strtod stack argv).on .start
    (match ended with | .ok _ => 0 | .error status => status, cleanup p)

end Program

/-- The arguments that a command line gives, if it is complete. -/
def command (argv : List Text) : Option Arguments := do
  let opts ← getopt argv
  let db ← lastOf 100 opts
  let table ← lastOf 116 opts
  let column ← lastOf 99 opts
  pure ⟨(lastOf 104 opts).getD (text "localhost"), (lastOf 117 opts).getD (text "root"),
    (lastOf 112 opts).getD (text "my-secret-pw"), db, table, column⟩

/-- The names that end up in the query, and the database, are identifiers. -/
structure Arguments.Valid (args : Arguments) : Prop where
  db : is_valid_identifier args.db
  table : is_valid_identifier args.table
  column : is_valid_identifier args.column

/-- Everything goes well from the command line to the last row. -/
structure Succeeds (server : Server) (strtod : Text → Conversion) (argv : List Text)
    (args : Arguments) (rows : List (Option Text)) : Prop where
  command : command argv = some args
  valid : args.Valid
  init : server.mysql_init
  connect : server.mysql_real_connect args
  fits : (query_text args).length < 512
  query : server.mysql_query (query_text args)
  store : server.mysql_store_result = some (1, rows)
  numbers : numbers strtod rows ≠ []

/-- The only query that may be sent. -/
def Sent (argv : List Text) (queries : List Text) : Prop :=
  queries = [] ∨ ∃ args, command argv = some args ∧ args.Valid ∧ (query_text args).length < 512 ∧
    queries = [query_text args]

section Stages
variable {server : Server} {strtod : Text → Conversion} {stack : Stats} {argv : List Text}
  {args : Arguments} {rows : List (Option Text)}

/-- An early end, in front of `cleanup`. -/
structure Failed (server : Server) (strtod : Text → Conversion) (argv : List Text) (status : Int)
    (p : Process) : Prop where
  status : status = EXIT_FAILURE
  released : Custody.replay Resource.depends (cleanup p).history = some ∅
  silent : p.stdout = []
  sent : Sent argv p.queries
  reason : ∀ args rows, ¬Succeeds server strtod argv args rows

theorem parse_arguments_meets (argv : List Text) :
    Attempt.Meets (parse_arguments argv) .start
      (fun args p => p = .start ∧ command argv = some args) (Failed server strtod argv) := by
  have hfailed : command argv = none → ∀ err,
      Failed server strtod argv EXIT_FAILURE { Process.start with stderr := err } := by
    intro hnone err
    refine ⟨rfl, rfl, rfl, Or.inl rfl, fun args rows h => ?_⟩
    rw [h.command] at hnone
    cases hnone
  revert hfailed
  unfold parse_arguments command
  cases getopt argv with
  | none =>
      intro hfailed
      exact Or.inr ⟨_, _, rfl, hfailed rfl _⟩
  | some opts =>
      simp only [Option.bind_eq_bind, Option.bind_some]
      cases lastOf 100 opts with
      | none =>
          intro hfailed
          exact Or.inr ⟨_, _, rfl, hfailed rfl _⟩
      | some db =>
          cases lastOf 116 opts with
          | none =>
              intro hfailed
              exact Or.inr ⟨_, _, rfl, hfailed rfl _⟩
          | some table =>
              cases lastOf 99 opts with
              | none =>
                  intro hfailed
                  exact Or.inr ⟨_, _, rfl, hfailed rfl _⟩
              | some column => exact fun _ => Or.inl ⟨_, _, rfl, rfl, rfl⟩

theorem validate_identifiers_meets (hargs : command argv = some args) :
    Attempt.Meets (validate_identifiers args) .start (fun _ p => p = .start ∧ args.Valid)
      (Failed server strtod argv) := by
  have hfailed : ¬args.Valid → ∀ err,
      Failed server strtod argv EXIT_FAILURE { Process.start with stderr := err } := by
    intro hinvalid err
    refine ⟨rfl, rfl, rfl, Or.inl rfl, fun args' rows h => ?_⟩
    obtain rfl : args' = args := Option.some.inj (h.command.symm.trans hargs)
    exact hinvalid h.valid
  unfold validate_identifiers
  cases hdb : is_valid_identifier args.db with
  | false => exact Or.inr ⟨_, _, rfl, hfailed (fun h => by simp [h.db] at hdb) _⟩
  | true =>
      cases htable : is_valid_identifier args.table with
      | false => exact Or.inr ⟨_, _, rfl, hfailed (fun h => by simp [h.table] at htable) _⟩
      | true =>
          cases hcolumn : is_valid_identifier args.column with
          | false => exact Or.inr ⟨_, _, rfl, hfailed (fun h => by simp [h.column] at hcolumn) _⟩
          | true => exact Or.inl ⟨_, _, rfl, rfl, hdb, htable, hcolumn⟩

/-- The process with its connection. -/
def Process.connected : Process :=
  { Process.start with conn := true, history := [.acquire .conn, .use .conn] }

theorem db_connect_meets (hargs : command argv = some args) :
    Attempt.Meets (db_connect server args) .start
      (fun _ p => p = .connected ∧ server.mysql_init ∧ server.mysql_real_connect args)
      (Failed server strtod argv) := by
  have hsame : ∀ {args' rows}, Succeeds server strtod argv args' rows → args' = args := fun h =>
    Option.some.inj (h.command.symm.trans hargs)
  unfold db_connect finish_with_error
  cases hinit : server.mysql_init with
  | false =>
      refine Or.inr ⟨_, _, rfl, rfl, rfl, rfl, Or.inl rfl, fun args' rows h => ?_⟩
      have hok := h.init
      simp [hinit] at hok
  | true =>
      cases hconnect : server.mysql_real_connect args with
      | false =>
          refine Or.inr ⟨_, _, rfl, rfl, ?_, rfl, Or.inl rfl, fun args' rows h => ?_⟩
          · change Custody.replay Resource.depends [.acquire .conn, .use .conn, .use .conn, .release .conn] = _
            decide
          · have hok := h.connect
            simp [hsame h, hconnect] at hok
      | true => exact Or.inl ⟨_, _, rfl, rfl, rfl, rfl⟩

/-- The process with its result. -/
def Process.queried (args : Arguments) : Process :=
  { Process.connected with
    result := true
    history := [.acquire .conn, .use .conn, .use .conn, .use .conn, .acquire .result, .use .result]
    queries := [query_text args] }

theorem execute_query_meets (hargs : command argv = some args) (hvalid : args.Valid) :
    Attempt.Meets (execute_query server args) .connected
      (fun rows p => p = .queried args ∧ (query_text args).length < 512 ∧
        server.mysql_query (query_text args) ∧ server.mysql_store_result = some (1, rows))
      (Failed server strtod argv) := by
  have hsame : ∀ {args' rows}, Succeeds server strtod argv args' rows → args' = args := fun h =>
    Option.some.inj (h.command.symm.trans hargs)
  unfold execute_query finish_with_error
  by_cases hlong : 512 ≤ (query_text args).length
  · rw [if_pos hlong]
    refine Or.inr ⟨_, _, rfl, rfl, ?_, rfl, Or.inl rfl, fun args' rows h => ?_⟩
    · change Custody.replay Resource.depends [.acquire .conn, .use .conn, .release .conn] = _
      decide
    · have hok := h.fits
      rw [hsame h] at hok
      omega
  · have hsent : Sent argv [query_text args] :=
      Or.inr ⟨args, hargs, hvalid, Nat.lt_of_not_le hlong, rfl⟩
    rw [if_neg hlong]
    cases hquery : server.mysql_query (query_text args) with
    | false =>
        refine Or.inr ⟨_, _, rfl, rfl, ?_, rfl, hsent, fun args' rows h => ?_⟩
        · change Custody.replay Resource.depends
            [.acquire .conn, .use .conn, .use .conn, .use .conn, .release .conn] = _
          decide
        · have hok := h.query
          simp [hsame h, hquery] at hok
    | true =>
        cases hstore : server.mysql_store_result with
        | none =>
            refine Or.inr ⟨_, _, rfl, rfl, ?_, rfl, hsent, fun args' rows h => ?_⟩
            · change Custody.replay Resource.depends
                [.acquire .conn, .use .conn, .use .conn, .use .conn, .use .conn, .release .conn] = _
              decide
            · cases hstore.symm.trans h.store
        | some stored =>
            obtain ⟨num_fields, rows⟩ := stored
            by_cases hone : num_fields = 1
            · subst hone
              exact Or.inl ⟨_, _, rfl, rfl, Nat.lt_of_not_le hlong, rfl, rfl⟩
            · simp only [ne_eq, hone, not_false_eq_true, if_true]
              refine Or.inr ⟨_, _, rfl, rfl, ?_, rfl, hsent, fun args' rows' h => ?_⟩
              · change Custody.replay Resource.depends [.acquire .conn, .use .conn, .use .conn, .use .conn,
                  .acquire .result, .use .result, .release .result, .release .conn] = _
                decide
              · have heq := Option.some.inj (hstore.symm.trans h.store)
                exact hone (Prod.ext_iff.mp heq).1

theorem process_rows_status (strtod : Text → Conversion) (stack : Stats) (rows : List (Option Text)) :
    (process_rows strtod stack rows).2 = 0 ↔ numbers strtod rows ≠ [] := by
  have hrun : Accumulated strtod rows _ := accumulated_foldl stack rows
  have hcount := hrun.count
  unfold process_rows
  simp only [hcount, List.length_eq_zero_iff]
  split <;> simp [*]

/-- The process once it has printed everything. -/
def Process.finished (args : Arguments) (stats : Stats) : Process :=
  { Process.start with
    history := (Process.queried args).history ++ [.use .result, .release .result, .release .conn]
    queries := [query_text args]
    stdout := print_statistics stats }

theorem body_meets (server : Server) (strtod : Text → Conversion) (stack : Stats) (argv : List Text) :
    Attempt.Meets (body server strtod stack argv) .start
      (fun _ p => ∃ args rows, Succeeds server strtod argv args rows ∧
        p = .finished args (process_rows strtod stack rows).1) (Failed server strtod argv) := by
  refine (parse_arguments_meets argv).bind ?_
  rintro args _ ⟨rfl, hargs⟩
  refine (validate_identifiers_meets hargs).bind ?_
  rintro _ _ ⟨rfl, hvalid⟩
  refine (db_connect_meets hargs).bind ?_
  rintro _ _ ⟨rfl, hinit, hconnect⟩
  refine (execute_query_meets hargs hvalid).bind ?_
  rintro rows _ ⟨rfl, hfits, hquery, hstore⟩
  have hstatus := process_rows_status strtod stack rows
  rcases hrows : process_rows strtod stack rows with ⟨stats, status⟩
  rw [hrows] at hstatus
  by_cases hzero : status = 0
  · subst hzero
    exact Or.inl ⟨_, _, rfl, args, rows,
      ⟨hargs, hvalid, hinit, hconnect, hfits, hquery, hstore, hstatus.mp rfl⟩, by rw [hrows]; rfl⟩
  · simp only [ne_eq, hzero, not_false_eq_true, if_true]
    refine Or.inr ⟨_, _, rfl, rfl, ?_, rfl, Or.inr ⟨args, hargs, hvalid, hfits, rfl⟩,
      fun args' rows' h => ?_⟩
    · change Custody.replay Resource.depends [.acquire .conn, .use .conn, .use .conn, .use .conn,
        .acquire .result, .use .result, .use .result, .release .result, .release .conn] = _
      decide
    · have heq := Option.some.inj (hstore.symm.trans h.store)
      obtain rfl : rows = rows' := (Prod.ext_iff.mp heq).2
      exact hzero (hstatus.mpr h.numbers)

end Stages

section Query

/-- No byte of an identifier ends a quoted name. -/
theorem backquote_not_mem {s : Text} (h : is_valid_identifier s) : Token.backquote ∉ s := by
  intro hmem
  simp only [is_valid_identifier, Bool.and_eq_true, List.all_eq_true] at h
  exact absurd (h.2 _ hmem) (by decide)

/-- Whatever the names, the query reads one column of one table, and nothing else. -/
theorem tokens_query_text {args : Arguments} (h : args.Valid) : Token.tokens (query_text args) =
    some [.word (text "SELECT"), .name args.column, .word (text "FROM"), .name args.table] := by
  have hsplit : query_text args = text "SELECT" ++ 32 :: (Token.backquote :: args.column ++
      Token.backquote :: 32 :: (text "FROM" ++ 32 :: (Token.backquote :: args.table ++
        [Token.backquote]))) := by
    have hselect : text "SELECT " = text "SELECT" ++ [32] := by decide
    have hfrom : text " FROM " = 32 :: text "FROM" ++ [32] := by decide
    simp [query_text, hselect, hfrom, Token.backquote]
  have hall : [text "SELECT", text "FROM"].all (fun word =>
      word.all fun c => decide (c ≠ Token.backquote ∧ isspace c = false)) = true := by decide
  simp only [List.all_eq_true, decide_eq_true_eq] at hall
  have hselect' := hall (text "SELECT") (by simp)
  have hfrom' := hall (text "FROM") (by simp)
  have hselect : text "SELECT" ≠ [] := by decide
  have hfrom : text "FROM" ≠ [] := by decide
  rw [Token.tokens, hsplit, Token.scan_between_word hselect hselect' (by decide),
    Token.scan_between_name (backquote_not_mem h.column) (by decide),
    Token.scan_between_word hfrom hfrom' (by decide),
    Token.scan_between_last (backquote_not_mem h.table)]
  rfl

end Query

/-- Whatever the command line and the answers of the library: the run ends with status zero exactly
when everything succeeds, and only then prints the statistics, those of the stored rows. It sends
one query at most, shorter than its buffer, which reads the column of the table that were asked for
and nothing else. At the end it has given back once, in order, everything that it got. -/
theorem main_ends (server : Server) (strtod : Text → Conversion) (stack : Stats) (argv : List Text) :
    let (status, p) := main server strtod stack argv
    Custody.replay Resource.depends p.history = some ∅ ∧
      (p.queries = [] ∨ ∃ args, command argv = some args ∧ p.queries = [query_text args] ∧
        (query_text args).length < 512 ∧ Token.tokens (query_text args) =
          some [.word (text "SELECT"), .name args.column, .word (text "FROM"), .name args.table]) ∧
      ((∃ args rows, server.atexit ∧ Succeeds server strtod argv args rows ∧ status = 0 ∧
          p.stdout = print_statistics (process_rows strtod stack rows).1) ∨
        (∀ args rows, ¬(server.atexit ∧ Succeeds server strtod argv args rows)) ∧
          status = EXIT_FAILURE ∧ p.stdout = []) := by
  have hsent : ∀ queries, Sent argv queries → queries = [] ∨ ∃ args, command argv = some args ∧
      queries = [query_text args] ∧ (query_text args).length < 512 ∧
        Token.tokens (query_text args) = some
          [.word (text "SELECT"), .name args.column, .word (text "FROM"), .name args.table] := by
    rintro queries (hnone | ⟨args, hargs, hvalid, hfits, hone⟩)
    · exact Or.inl hnone
    · exact Or.inr ⟨args, hargs, hone, hfits, tokens_query_text hvalid⟩
  have hcleanup : ∀ p, (cleanup p).queries = p.queries ∧ (cleanup p).stdout = p.stdout := by
    rintro ⟨conn, result, history, queries, stdout, stderr⟩
    cases conn <;> cases result <;> exact ⟨rfl, rfl⟩
  unfold main
  cases hatexit : server.atexit with
  | false => exact ⟨rfl, Or.inl rfl, Or.inr ⟨fun _ _ h => absurd h.1 (by simp), rfl, rfl⟩⟩
  | true =>
      rcases body_meets server strtod stack argv with
        ⟨_, _, hbody, args, rows, hsucceeds, rfl⟩ | ⟨status, p, hbody, hfailed⟩
      · rw [hbody]
        refine ⟨?_, ?_, Or.inl ⟨args, rows, rfl, hsucceeds, rfl, rfl⟩⟩
        · change Custody.replay Resource.depends [.acquire .conn, .use .conn, .use .conn, .use .conn,
            .acquire .result, .use .result, .use .result, .release .result, .release .conn] = _
          decide
        · exact hsent _ (Or.inr ⟨args, hsucceeds.command, hsucceeds.valid, hsucceeds.fits, rfl⟩)
      · rw [hbody]
        refine ⟨hfailed.released, ?_,
          Or.inr ⟨fun args rows h => hfailed.reason args rows h.2, hfailed.status, ?_⟩⟩
        · exact hsent _ ((hcleanup p).1 ▸ hfailed.sent)
        · exact (hcleanup p).2.trans hfailed.silent

/-- An argument joined to its letter, a word that is no option, and an argument behind its letter. -/
example : getopt [text "-doscar", text "films", text "-t", text "award"] =
    some [(100, text "oscar"), (116, text "award")] := by
  decide +kernel

end OtusCProg.Dbstat
