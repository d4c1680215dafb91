import OtusCProg.LogReader.Fields

/-!
# The Combined Log Format

A line in the format is parsed into its URL, its size and its referer. A line that
is parsed need not be in the format: each search goes on behind the field it is
meant for when its delimiter is not there.
-/

namespace OtusCProg.LogReader
open Library MachineInt

/-- The size column: it ends with a space, or at the quote behind it. -/
def Fields.sizeColumn (f : Fields) : Text := f.size.takeWhile (· ≠ 32)

/-- The number of bytes that a size column shows. -/
def sizeValue (column : Text) : Nat := if column = [45] then 0 else decimalValue column

/-- A part of the request: not empty, with no space and no quote in it. -/
structure RequestPart (part : Text) : Prop where
  ne_nil : part ≠ []
  solid : 32 ∉ part
  unquoted : 34 ∉ part

/-- The fields are the columns of the format: the time is bracketed, the first quoted field is
exactly the method, the URL and the protocol, the status and the size stand behind it. -/
structure Fields.InFormat (f : Fields) : Prop where
  address : 32 ∉ f.address
  identifier : 32 ∉ f.identifier
  user : 91 ∉ f.user
  time : 93 ∈ f.time ∧ 34 ∉ f.time
  method : RequestPart f.method
  url : RequestPart f.url
  protocol : RequestPart f.protocol
  status : IsDecimal f.status
  size : 34 ∉ f.size ∧ (f.sizeColumn = [45] ∨ IsDecimal f.sizeColumn)
  referer : 34 ∉ f.referer

/-- The line is in the format, with the URL, the size and the referer of the record. -/
def InColumns (line : Text) (r : Record) : Prop :=
  ∃ (f : Fields) (rest : Text), f.InFormat ∧ line = f.line rest ∧
    r = ⟨f.url, sizeValue f.sizeColumn, f.referer⟩

/-- What the parser extracts comes from the columns, and it rejects every other line. -/
def ReadsColumns (line : Text) : Prop :=
  (∀ r, parse_log_line line = some r → InColumns line r) ∧
    ((∀ r, ¬InColumns line r) → parse_log_line line = none)

/-- What makes fields that the searches stop at columns of the format. -/
structure Fields.Proper (f : Fields) : Prop where
  bracket : 93 ∈ f.time
  method : f.method ≠ [] ∧ 34 ∉ f.method
  url : f.url ≠ [] ∧ 34 ∉ f.url
  protocol : f.protocol ≠ [] ∧ 32 ∉ f.protocol
  status : ∀ c ∈ f.status, isdigit c = true
  size : f.sizeColumn = [45] ∨ IsDecimal f.sizeColumn ∧ decimalValue f.sizeColumn < 2 ^ 63

section Columns
variable {f : Fields} {line rest : Text}

/-- Behind the size column there is nothing or a space. -/
theorem Fields.size_eq (f : Fields) :
    ∃ behind, f.size = f.sizeColumn ++ behind ∧ behind.head?.any isdigit = false := by
  refine ⟨f.size.dropWhile (· ≠ 32), List.takeWhile_append_dropWhile.symm, ?_⟩
  cases hdrop : f.size.dropWhile (· ≠ 32) with
  | nil => rfl
  | cons c behind =>
      have hne : f.size.dropWhile (· ≠ 32) ≠ [] := by
        rw [hdrop]
        exact List.cons_ne_nil c behind
      have hhead := List.head_dropWhile_not _ hne
      simp only [hdrop, List.head_cons, decide_eq_false_iff_not, not_not] at hhead
      rw [hhead]
      rfl

theorem Fields.head?_size {c : UInt8} {column : Text} (h : f.sizeColumn = c :: column) :
    f.size.head? = some c := by
  obtain ⟨behind, hsize, -⟩ := f.size_eq
  rw [hsize, h]
  rfl

theorem not_isDecimal_minus : ¬IsDecimal [45] :=
  fun h => h.notMem (by decide) List.mem_cons_self

/-- The number in the size column is returned up to the greatest `long`. -/
theorem Fields.bytes_eq (h : f.sizeColumn = [45] ∨ IsDecimal f.sizeColumn) :
    f.record.bytes = min (sizeValue f.sizeColumn) (2 ^ 63 - 1) := by
  obtain ⟨behind, hsize, hbehind⟩ := f.size_eq
  rcases h with hminus | hdecimal
  · rw [Fields.record, sizeValue, if_pos hminus, if_pos (Fields.head?_size hminus)]
    rfl
  · obtain ⟨c, column, hcolumn⟩ := List.exists_cons_of_ne_nil hdecimal.ne_nil
    have hc : isdigit c = true := hdecimal.digits c (by rw [hcolumn]; exact List.mem_cons_self)
    have hhead : f.size.head? ≠ some 45 := by
      rw [Fields.head?_size hcolumn]
      rintro ⟨⟩
      cases hc
    have hminus : f.sizeColumn ≠ [45] := fun heq => not_isDecimal_minus (heq ▸ hdecimal)
    have hclamp : clampLong (decimalValue f.sizeColumn) =
        ((min (decimalValue f.sizeColumn) (2 ^ 63 - 1) : Nat) : Int) := by
      rw [clampLong]
      omega
    rw [sizeValue, if_neg hminus]
    show (if f.size.head? = some 45 then 0 else toUnsigned 64 (strtol f.size).1) = _
    rw [if_neg hhead, hsize, strtol_isDecimal_append hdecimal hbehind, hclamp, toUnsigned_natCast]
    omega

/-- A size column does not begin with a space. -/
theorem Fields.size_head_of_column (h : f.sizeColumn = [45] ∨ IsDecimal f.sizeColumn) :
    f.size.head? ≠ some 32 := by
  intro hhead
  have hnil : f.sizeColumn = [] := by
    obtain ⟨size, hsize⟩ := List.head?_eq_some_iff.mp hhead
    rw [Fields.sizeColumn, hsize]
    rfl
  rcases h with hminus | hdecimal
  · rw [hnil] at hminus
    cases hminus
  · exact hdecimal.ne_nil hnil

/-- The columns of the format are fields that the searches stop at. -/
theorem Fields.InFormat.searched (h : f.InFormat) : f.Searched := by
  have hspace : 32 ∉ f.status := h.status.notMem (by decide)
  exact ⟨h.address, h.identifier, h.user, h.time.2, h.method.solid, h.url.solid,
    h.protocol.unquoted, hspace,
    h.status.head?_any, h.size.1, Fields.size_head_of_column h.size.2, h.referer⟩

theorem Fields.Searched.inFormat (h : f.Searched) (hproper : f.Proper) : f.InFormat where
  address := h.address
  identifier := h.identifier
  user := h.user
  time := ⟨hproper.bracket, h.time⟩
  method := ⟨hproper.method.1, h.method, hproper.method.2⟩
  url := ⟨hproper.url.1, h.url, hproper.url.2⟩
  protocol := ⟨hproper.protocol.1, hproper.protocol.2, h.protocol⟩
  status := ⟨h.status_ne_nil, hproper.status⟩
  size := ⟨h.size, hproper.size.imp_right And.left⟩
  referer := h.referer

/-- A number that is not cut is the one of the column. -/
theorem Fields.record_eq
    (h : f.sizeColumn = [45] ∨ IsDecimal f.sizeColumn ∧ decimalValue f.sizeColumn < 2 ^ 63) :
    f.record = ⟨f.url, sizeValue f.sizeColumn, f.referer⟩ := by
  have hbytes := f.bytes_eq (h.imp_right And.left)
  have hrange : sizeValue f.sizeColumn ≤ 2 ^ 63 - 1 := by
    rw [sizeValue]
    split
    · exact Nat.zero_le _
    · rename_i hminus
      exact Nat.le_sub_one_of_lt (h.resolve_left hminus).2
  rw [Nat.min_eq_left hrange] at hbytes
  rw [← hbytes]
  rfl

/-- The columns give the record only where the number is not cut. -/
theorem Fields.InFormat.proper (h : f.InFormat)
    (hrecord : f.record = ⟨f.url, sizeValue f.sizeColumn, f.referer⟩) : f.Proper := by
  refine ⟨h.time.1, ⟨h.method.ne_nil, h.method.unquoted⟩, ⟨h.url.ne_nil, h.url.unquoted⟩,
    ⟨h.protocol.ne_nil, h.protocol.solid⟩, h.status.digits, ?_⟩
  refine h.size.2.imp_right fun hdecimal => ⟨hdecimal, ?_⟩
  have hminus : f.sizeColumn ≠ [45] := fun heq => not_isDecimal_minus (heq ▸ hdecimal)
  have hbytes := f.bytes_eq h.size.2
  rw [hrecord, sizeValue, if_neg hminus] at hbytes
  dsimp only at hbytes
  omega

end Columns

/-- What the parser extracts comes from the columns if and only if the fields that
its searches stop at, if there are any, are proper. -/
theorem readsColumns_iff (line : Text) :
    ReadsColumns line ↔ ∀ (f : Fields) (rest : Text), f.Searched → line = f.line rest → f.Proper := by
  constructor
  · rintro ⟨hsound, -⟩ f rest hf rfl
    obtain ⟨g, rest', hg, hline, hrecord⟩ := hsound f.record (parse_log_line_line hf rest)
    obtain ⟨rfl, -⟩ := hf.line_injective hg.searched hline
    exact hg.proper hrecord
  · intro hproper
    have hsound : ∀ r, parse_log_line line = some r → InColumns line r := by
      intro r hparse
      obtain ⟨f, rest, hf, hline, rfl⟩ := parse_log_line_eq_some_iff.mp hparse
      have hp := hproper f rest hf hline
      exact ⟨f, rest, hf.inFormat hp, hline, f.record_eq hp.size⟩
    refine ⟨hsound, ?_⟩
    intro hnone
    rw [Option.eq_none_iff_forall_ne_some]
    exact fun r hparse => hnone r (hsound r hparse)

/-- A request without protocol: the fields that the searches stop at. -/
def noProtocol : Fields where
  address := text "a"
  identifier := text "b"
  user := text "c "
  time := text "t] "
  method := text "GET"
  url := text "/x\""
  protocol := text "200 5 "
  indent := 0
  status := text "1"
  gap := 0
  size := text "7 x"
  referer := text " "

/-- Without a protocol the URL has the quote in it, and the size is a part of the referer. -/
theorem not_readsColumns_noProtocol : ¬∀ line : Text, 0 ∉ line → ReadsColumns line := by
  intro hall
  have hline : text "a b c [t] \"GET /x\" 200 5 \"1 7 x\" \"agent\"" =
      noProtocol.line (text "agent\"") := rfl
  have hf : noProtocol.Searched := by constructor <;> decide
  have hsound := (hall (text "a b c [t] \"GET /x\" 200 5 \"1 7 x\" \"agent\"") (by decide)).1
  rw [hline] at hsound
  obtain ⟨g, rest, hg, hsame, -⟩ := hsound noProtocol.record (parse_log_line_line hf _)
  obtain ⟨rfl, -⟩ := hf.line_injective hg.searched hsame
  exact hg.url.unquoted (by decide)

/-- A request as a server logs it, with the conditions on its fields. -/
structure Entry where
  address : Text
  identifier : Text
  user : Text
  time : Text
  method : Text
  url : Text
  protocol : Text
  status : Text
  size : Text
  referer : Text
  agent : Text
  address_ok : 32 ∉ address
  identifier_ok : 32 ∉ identifier
  user_ok : 91 ∉ user ∧ 34 ∉ user
  time_ok : 34 ∉ time
  method_ok : 32 ∉ method ∧ 34 ∉ method
  url_ok : 32 ∉ url
  protocol_ok : 34 ∉ protocol
  status_ok : IsDecimal status
  size_ok : size = [45] ∨ IsDecimal size ∧ decimalValue size < 2 ^ 63
  referer_ok : 34 ∉ referer

/-- The line of the entry in the Combined Log Format. -/
def Entry.format (e : Entry) : Text :=
  e.address ++ text " " ++ e.identifier ++ text " " ++ e.user ++ text " [" ++ e.time ++ text "] \"" ++
    e.method ++ text " " ++ e.url ++ text " " ++ e.protocol ++ text "\" " ++ e.status ++ text " " ++
    e.size ++ text " \"" ++ e.referer ++ text "\" \"" ++ e.agent ++ text "\""

/-- Where the searches stop in the line of an entry. -/
def Entry.fields (e : Entry) : Fields where
  address := e.address
  identifier := e.identifier
  user := e.user ++ text " "
  time := e.time ++ text "] "
  method := e.method
  url := e.url
  protocol := e.protocol
  indent := 1
  status := e.status
  gap := 0
  size := e.size ++ text " "
  referer := e.referer

theorem Entry.format_eq (e : Entry) :
    e.format = e.fields.line (text " \"" ++ e.agent ++ text "\"") := by
  have hspace : text " " = [32] := rfl
  have hbracket : text " [" = [32, 91] := rfl
  have hclose : text "] " = [93, 32] := rfl
  have hopen : text "] \"" = [93, 32, 34] := rfl
  have hquote : text "\" " = [34, 32] := rfl
  have hquote' : text " \"" = [32, 34] := rfl
  have hquotes : text "\" \"" = [34, 32, 34] := rfl
  dsimp only [Entry.format, Entry.fields, Fields.line]
  simp only [hspace, hbracket, hclose, hopen, hquote, hquote', hquotes, List.append_assoc,
    List.cons_append, List.nil_append, List.replicate_one, List.replicate_zero]

theorem Entry.sizeColumn_eq (e : Entry) : e.fields.sizeColumn = e.size := by
  have hsolid : ∀ c ∈ e.size, decide (c ≠ 32) = true := by
    intro c hc
    rcases e.size_ok with hminus | ⟨hdecimal, -⟩
    · rw [hminus, List.mem_singleton] at hc
      rw [hc]
      rfl
    · have hdigit := hdecimal.digits c hc
      rw [decide_eq_true_eq]
      rintro rfl
      cases hdigit
  rw [Fields.sizeColumn]
  show (e.size ++ [32]).takeWhile _ = _
  rw [List.takeWhile_append_of_pos hsolid, List.takeWhile_cons_of_neg (by simp), List.append_nil]

theorem Entry.column_ok (e : Entry) : e.fields.sizeColumn = [45] ∨ IsDecimal e.fields.sizeColumn := by
  rw [e.sizeColumn_eq]
  exact e.size_ok.imp_right And.left

theorem Entry.fields_searched (e : Entry) : e.fields.Searched := by
  have huser : 91 ∉ e.fields.user := List.not_mem_append e.user_ok.1 (by decide)
  have htime : 34 ∉ e.fields.time := List.not_mem_append e.time_ok (by decide)
  have hspace : 32 ∉ e.status := e.status_ok.notMem (by decide)
  have hsize : 34 ∉ e.size := by
    rcases e.size_ok with hminus | ⟨hdecimal, -⟩
    · rw [hminus]
      decide
    · exact hdecimal.notMem (by decide)
  exact ⟨e.address_ok, e.identifier_ok, huser, htime, e.method_ok.1, e.url_ok, e.protocol_ok, hspace,
    e.status_ok.head?_any, List.not_mem_append hsize (by decide),
    Fields.size_head_of_column e.column_ok, e.referer_ok⟩

/-- The line of an entry is parsed into its URL, its size, zero for a minus sign, and
its referer. -/
theorem parse_log_line_format (e : Entry) :
    parse_log_line e.format = some ⟨e.url, sizeValue e.size, e.referer⟩ := by
  have hrecord : e.fields.record = ⟨e.url, sizeValue e.size, e.referer⟩ := by
    rw [Fields.record_eq, e.sizeColumn_eq]
    · rfl
    · rw [e.sizeColumn_eq]
      exact e.size_ok
  rw [e.format_eq, parse_log_line_line e.fields_searched, hrecord]

/-- An entry with spaces in the user and the protocol, and with quotes and brackets in the URL. -/
def quotedEntry : Entry where
  address := text "10.0.0.1"
  identifier := text "-"
  user := text "jo ann"
  time := text "10/Oct/2000:13:55:36 -0700"
  method := text "GET"
  url := text "/a\"[b]\"?q=1"
  protocol := text "HTTP 1.1"
  status := text "200"
  size := text "2326"
  referer := text "http://host/start"
  agent := text "agent \"4\""
  address_ok := by decide
  identifier_ok := by decide
  user_ok := by decide
  time_ok := by decide
  method_ok := by decide
  url_ok := by decide
  protocol_ok := by decide
  status_ok := ⟨by decide, List.all_eq_true.mp (by decide)⟩
  size_ok := Or.inr ⟨⟨by decide, List.all_eq_true.mp (by decide)⟩, by decide⟩
  referer_ok := by decide

theorem parse_log_line_format_quoted :
    parse_log_line quotedEntry.format = some ⟨quotedEntry.url, 2326, quotedEntry.referer⟩ := by
  have hsize : sizeValue quotedEntry.size = 2326 := by decide
  rw [← hsize]
  exact parse_log_line_format quotedEntry

end OtusCProg.LogReader
