import OtusCProg.LogReader.Model
import OtusCProg.Library.Decimal

/-!
# What the line parser takes for the fields of a line

`parse_log_line` searches one delimiter after the other, each behind the one
before. The parts between the delimiters it stops at are the fields it sees. A line
has at most one such division, and is accepted exactly where it has one. Nothing
behind the closing quote of the referer matters.
-/

namespace OtusCProg.LogReader
open Library MachineInt

section Search
variable {c : UInt8} {front front' s rest rest' : Text}

theorem strchr_append (h : c ∉ front) (rest : Text) :
    strchr c (front ++ c :: rest) = some (c :: rest) := by
  induction front with
  | nil => exact if_pos rfl
  | cons d front ih =>
      rw [List.mem_cons, not_or] at h
      rw [List.cons_append, strchr, if_neg (Ne.symm h.1)]
      exact ih h.2

theorem strchr_cons_of_ne {d : UInt8} (h : d ≠ c) (s : Text) : strchr c (d :: s) = strchr c s :=
  if_neg h

/-- A text that does not begin with the delimiter is divided behind its first byte. -/
theorem cons_eq_append_cons {d : UInt8} (hne : d ≠ c) (h : d :: s = front ++ c :: rest) :
    ∃ front', front = d :: front' ∧ s = front' ++ c :: rest := by
  cases front with
  | nil => exact absurd (List.cons.inj h).1 hne
  | cons e front =>
      obtain ⟨rfl, htail⟩ := List.cons.inj h
      exact ⟨front, rfl, htail⟩

theorem strchr_eq_some_iff {t : Text} :
    strchr c s = some t ↔ ∃ front rest, c ∉ front ∧ s = front ++ c :: rest ∧ t = c :: rest := by
  constructor
  · intro h
    induction s with
    | nil => cases h
    | cons d s ih =>
        rw [strchr] at h
        split at h
        · rename_i hd
          refine ⟨[], s, List.not_mem_nil, by rw [hd]; rfl, ?_⟩
          rw [← Option.some.inj h, hd]
        · rename_i hd
          obtain ⟨front, rest, hfront, rfl, ht⟩ := ih h
          refine ⟨d :: front, rest, ?_, rfl, ht⟩
          rw [List.mem_cons, not_or]
          exact ⟨Ne.symm hd, hfront⟩
  · rintro ⟨front, rest, hfront, rfl, rfl⟩
    exact strchr_append hfront rest

/-- The first delimiter divides a text in one way. -/
theorem append_cons_inj (h : c ∉ front) (h' : c ∉ front')
    (heq : front ++ c :: rest = front' ++ c :: rest') : front = front' ∧ rest = rest' := by
  have hsame : some (c :: rest) = some (c :: rest') := by
    rw [← strchr_append h, heq, strchr_append h']
  obtain rfl := (List.cons.inj (Option.some.inj hsame)).2
  exact ⟨List.append_cancel_right heq, rfl⟩

theorem between_append (front rest : Text) : between (front ++ rest) rest = front := by
  rw [between, List.length_append, Nat.add_sub_cancel_right, List.take_left]

/-- Spaces, and a text that does not begin with one. -/
theorem skip_spaces_append (n : Nat) (h : s.head? ≠ some 32) :
    skip_spaces (List.replicate n 32 ++ s) = s := by
  induction n with
  | zero =>
      cases s with
      | nil => rfl
      | cons c s =>
          have hc : c ≠ 32 := fun heq => h (congrArg some heq)
          exact List.dropWhile_cons_of_neg (by simpa using hc)
  | succ n ih => exact ih

theorem exists_skip_spaces (s : Text) :
    ∃ n, s = List.replicate n 32 ++ skip_spaces s ∧ (skip_spaces s).head? ≠ some 32 := by
  induction s with
  | nil => exact ⟨0, rfl, nofun⟩
  | cons c s ih =>
      by_cases hc : c = 32
      · obtain ⟨n, hs, hhead⟩ := ih
        subst hc
        exact ⟨n + 1, congrArg (32 :: ·) hs, hhead⟩
      · have hskip : skip_spaces (c :: s) = c :: s := List.dropWhile_cons_of_neg (by simpa using hc)
        rw [hskip]
        exact ⟨0, rfl, fun heq => hc (Option.some.inj heq)⟩

/-- The spaces in front of a text are divided from it in one way. -/
theorem replicate_append_inj {m n : Nat} (h : s.head? ≠ some 32) (h' : rest.head? ≠ some 32)
    (heq : List.replicate m 32 ++ s = List.replicate n 32 ++ rest) : m = n ∧ s = rest := by
  have hsame := congrArg skip_spaces heq
  rw [skip_spaces_append m h, skip_spaces_append n h'] at hsame
  have hlen := congrArg List.length heq
  simp only [hsame, List.length_append, List.length_replicate, Nat.add_right_cancel_iff] at hlen
  exact ⟨hlen, hsame⟩

end Search

/-- The parts of a line between the delimiters that the searches stop at; `indent`
and `gap` are the numbers of spaces in front of the status and of the size. -/
structure Fields where
  address : Text
  identifier : Text
  user : Text
  time : Text
  method : Text
  url : Text
  protocol : Text
  indent : Nat
  status : Text
  gap : Nat
  size : Text
  referer : Text

/-- The line of the fields, with `rest` behind the closing quote of the referer. -/
def Fields.line (f : Fields) (rest : Text) : Text :=
  f.address ++ 32 :: (f.identifier ++ 32 :: (f.user ++ 91 :: (f.time ++ 34 :: (f.method ++
    32 :: (f.url ++ 32 :: (f.protocol ++ 34 :: (List.replicate f.indent 32 ++ (f.status ++
      32 :: (List.replicate f.gap 32 ++ (f.size ++ 34 :: (f.referer ++ 34 :: rest))))))))))) 

/-- No field has the delimiter in it that is searched behind it. -/
structure Fields.Searched (f : Fields) : Prop where
  address : 32 ∉ f.address
  identifier : 32 ∉ f.identifier
  user : 91 ∉ f.user
  time : 34 ∉ f.time
  method : 32 ∉ f.method
  url : 32 ∉ f.url
  protocol : 34 ∉ f.protocol
  status : 32 ∉ f.status
  status_head : f.status.head?.any isdigit = true
  size : 34 ∉ f.size
  size_head : f.size.head? ≠ some 32
  referer : 34 ∉ f.referer

/-- What is extracted from the fields. -/
def Fields.record (f : Fields) : Record :=
  ⟨f.url, if f.size.head? = some 45 then 0 else toUnsigned 64 (strtol f.size).1, f.referer⟩

section Division
variable {f g : Fields} {line rest rest' : Text} {r : Record}

theorem Fields.Searched.status_ne_nil (h : f.Searched) : f.status ≠ [] := by
  intro hnil
  have hhead := h.status_head
  rw [hnil] at hhead
  cases hhead

/-- The status begins behind the spaces. -/
theorem Fields.Searched.status_append_head (h : f.Searched) (rest : Text) :
    (f.status ++ rest).head?.any isdigit = true ∧ (f.status ++ rest).head? ≠ some 32 := by
  obtain ⟨c, status, hstatus⟩ := List.exists_cons_of_ne_nil h.status_ne_nil
  have hc : isdigit c = true := by simpa [hstatus] using h.status_head
  rw [hstatus]
  refine ⟨hc, ?_⟩
  rintro ⟨⟩
  cases hc

/-- The quote behind the size is neither a minus sign nor a space. -/
theorem head?_append_quote {c : UInt8} (hc : c ≠ 34) (size rest : Text) :
    (size ++ 34 :: rest).head? = some c ↔ size.head? = some c := by
  cases size with
  | nil => simp [hc.symm]
  | cons d size => rfl

theorem Fields.Searched.size_append_head (h : f.Searched) (rest : Text) :
    (f.size ++ 34 :: rest).head? ≠ some 32 := by
  rw [ne_eq, head?_append_quote (by decide)]
  exact h.size_head

theorem strtol_append_quote (size rest : Text) : (strtol (size ++ 34 :: rest)).1 = (strtol size).1 :=
  strtol_append_cons (by decide) (by decide) (by decide) (by decide) size rest

/-- The searches stop at the delimiters of the fields. -/
theorem parse_log_line_line (h : f.Searched) (rest : Text) :
    parse_log_line (f.line rest) = some f.record := by
  have hindent : ∀ rest, skip_spaces (List.replicate f.indent 32 ++ (f.status ++ rest)) =
      f.status ++ rest := fun rest =>
    skip_spaces_append f.indent (h.status_append_head rest).2
  have hgap : ∀ rest, skip_spaces (List.replicate f.gap 32 ++ (f.size ++ 34 :: rest)) =
      f.size ++ 34 :: rest := fun rest =>
    skip_spaces_append f.gap (h.size_append_head rest)
  have hurl : ∀ rest, between (f.url ++ rest) rest = f.url := between_append f.url
  have hreferer : ∀ rest, between (f.referer ++ rest) rest = f.referer := between_append f.referer
  simp only [parse_log_line, Fields.line, Option.bind_eq_bind, Option.bind_some, List.drop_one,
    List.tail_cons, strchr_append h.address, strchr_append h.identifier, strchr_append h.user,
    strchr_cons_of_ne (show (91 : UInt8) ≠ 34 by decide), strchr_append h.time,
    strchr_append h.method, strchr_append h.url, strchr_cons_of_ne (show (32 : UInt8) ≠ 34 by decide),
    strchr_append h.protocol, hindent, (h.status_append_head _).1, guard_true, strchr_append h.status,
    hgap, strchr_append h.size, strchr_append h.referer, hurl, hreferer, strtol_append_quote,
    head?_append_quote (show (45 : UInt8) ≠ 34 by decide)]
  rfl

/-- A line that is accepted divides into fields. -/
theorem exists_fields_of_parse (h : parse_log_line line = some r) :
    ∃ (f : Fields) (rest : Text), f.Searched ∧ line = f.line rest ∧ f.record = r := by
  simp only [parse_log_line, Option.bind_eq_bind, Option.bind_eq_some_iff, strchr_eq_some_iff,
    Option.guard_eq_some', Option.pure_def, Option.some.injEq] at h
  obtain ⟨_, ⟨address, s₁, haddress, rfl, rfl⟩, _, ⟨identifier, s₂, hidentifier, h₁, rfl⟩,
    _, ⟨user, s₃, huser, h₂, rfl⟩, _, ⟨lead, s₄, hlead, h₃, rfl⟩, _, ⟨method, s₅, hmethod, h₄, rfl⟩,
    _, ⟨url, s₆, hurl, h₅, rfl⟩, _, ⟨lead', s₇, hlead', h₆, rfl⟩, _, hguard,
    _, ⟨status, s₈, hstatus, h₇, rfl⟩, _, ⟨size, s₉, hsize, h₈, rfl⟩,
    _, ⟨referer, rest, hreferer, h₉, rfl⟩, rfl⟩ := h
  simp only [List.drop_one, List.tail_cons] at h₁ h₂ h₄ h₅ h₇ h₈ h₉ hguard ⊢
  obtain ⟨time, rfl, hs₃⟩ := cons_eq_append_cons (by decide) h₃
  obtain ⟨protocol, rfl, hs₆⟩ := cons_eq_append_cons (by decide) h₆
  obtain ⟨indent, hindent, hstart⟩ := exists_skip_spaces s₇
  obtain ⟨gap, hgap, hstart'⟩ := exists_skip_spaces s₈
  rw [h₇] at hindent hguard
  rw [h₈] at hgap hstart'
  subst h₁ h₂ hs₃ h₄ h₅ hs₆ h₉
  rw [ne_eq, head?_append_quote (by decide)] at hstart'
  have hstatus_head : status.head?.any isdigit = true := by
    cases status with
    | nil => cases hguard
    | cons c status => exact hguard
  refine ⟨⟨address, identifier, user, time, method, url, protocol, indent, status, gap, size, referer⟩,
    rest, ?_, ?_, ?_⟩
  · exact ⟨haddress, hidentifier, huser, fun hmem => hlead (List.mem_cons_of_mem _ hmem), hmethod,
      hurl, fun hmem => hlead' (List.mem_cons_of_mem _ hmem), hstatus, hstatus_head, hsize, hstart',
      hreferer⟩
  · simp only [Fields.line]
    rw [hindent, hgap]
  · simp only [Fields.record, h₈, strtol_append_quote, head?_append_quote (show (45 : UInt8) ≠ 34 by decide),
      between_append]

/-- The line is accepted exactly where it divides, and the fields give the record. -/
theorem parse_log_line_eq_some_iff :
    parse_log_line line = some r ↔
      ∃ (f : Fields) (rest : Text), f.Searched ∧ line = f.line rest ∧ f.record = r := by
  constructor
  · exact exists_fields_of_parse
  · rintro ⟨f, rest, hf, rfl, rfl⟩
    exact parse_log_line_line hf rest

/-- A line divides in one way. -/
theorem Fields.Searched.line_injective (hf : f.Searched) (hg : g.Searched)
    (heq : f.line rest = g.line rest') : f = g ∧ rest = rest' := by
  obtain ⟨haddress, heq⟩ := append_cons_inj hf.address hg.address heq
  obtain ⟨hidentifier, heq⟩ := append_cons_inj hf.identifier hg.identifier heq
  obtain ⟨huser, heq⟩ := append_cons_inj hf.user hg.user heq
  obtain ⟨htime, heq⟩ := append_cons_inj hf.time hg.time heq
  obtain ⟨hmethod, heq⟩ := append_cons_inj hf.method hg.method heq
  obtain ⟨hurl, heq⟩ := append_cons_inj hf.url hg.url heq
  obtain ⟨hprotocol, heq⟩ := append_cons_inj hf.protocol hg.protocol heq
  obtain ⟨hindent, heq⟩ := replicate_append_inj (hf.status_append_head _).2 (hg.status_append_head _).2 heq
  obtain ⟨hstatus, heq⟩ := append_cons_inj hf.status hg.status heq
  obtain ⟨hgap, heq⟩ := replicate_append_inj (hf.size_append_head _) (hg.size_append_head _) heq
  obtain ⟨hsize, heq⟩ := append_cons_inj hf.size hg.size heq
  obtain ⟨hreferer, heq⟩ := append_cons_inj hf.referer hg.referer heq
  refine ⟨?_, heq⟩
  cases f
  cases g
  simp only at *
  subst_vars
  rfl

theorem Fields.line_append (f : Fields) (rest more : Text) :
    f.line rest ++ more = f.line (rest ++ more) := by
  simp only [Fields.line, List.append_assoc, List.cons_append]

/-- A line ends with the quote of the referer or with what stands behind it. -/
theorem Fields.getLast?_line (f : Fields) (rest : Text) :
    (f.line rest).getLast? = some (rest.getLast?.getD 34) := by
  simp [Fields.line, List.getLast?_append, List.getLast?_cons]

/-- What stands behind the closing quote of the referer does not matter. -/
theorem parse_log_line_append (h : parse_log_line line = some r) (more : Text) :
    parse_log_line (line ++ more) = some r := by
  obtain ⟨f, rest, hf, rfl, rfl⟩ := exists_fields_of_parse h
  rw [f.line_append]
  exact parse_log_line_line hf (rest ++ more)

/-- A newline at the end of the line does not matter. -/
theorem parse_log_line_newline (line : Text) :
    parse_log_line (line ++ [10]) = parse_log_line line := by
  apply Option.ext
  intro r
  constructor
  · intro h
    obtain ⟨f, rest, hf, hline, rfl⟩ := exists_fields_of_parse h
    have hlast := f.getLast?_line rest
    rw [← hline, List.getLast?_concat] at hlast
    rcases List.eq_nil_or_concat rest with rfl | ⟨rest, c, rfl⟩
    · cases hlast
    · rw [List.concat_eq_append, ← f.line_append] at hline
      rw [List.append_inj_left' hline rfl]
      exact parse_log_line_line hf rest
  · exact fun h => parse_log_line_append h [10]

end Division

end OtusCProg.LogReader
