import OtusCProg.Library.CText

/-!
# Words and quoted names

A query is a sequence of words between blanks and of names between backquotes;
two backquotes inside a name stand for one. A text that contains no backquote,
put between two of them, is one name, whatever else it contains.
-/

namespace OtusCProg.Library

inductive Token where
  | word (t : Text)
  | name (t : Text)
deriving DecidableEq, Repr

namespace Token

/-- The byte of a backquote. -/
def backquote : UInt8 := 96

/-- Where the scanner stands: between two tokens, in a word, in a name, or behind a backquote in
a name. -/
inductive Mode where
  | between
  | word (t : Text)
  | name (t : Text)
  | quote (t : Text)

/-- The scanner at a byte outside of a name. -/
def outside (c : UInt8) : Mode :=
  if c = backquote then .name [] else if isspace c then .between else .word [c]

/-- The tokens of a text; there are none when it ends inside a name. -/
def scan : Mode → Text → Option (List Token)
  | .between, [] => some []
  | .word t, [] => some [.word t]
  | .name _, [] => none
  | .quote t, [] => some [.name t]
  | .between, c :: rest => scan (outside c) rest
  | .word t, c :: rest =>
      if c = backquote ∨ isspace c then (scan (outside c) rest).map (.word t :: ·)
      else scan (.word (t ++ [c])) rest
  | .name t, c :: rest => if c = backquote then scan (.quote t) rest else scan (.name (t ++ [c])) rest
  | .quote t, c :: rest =>
      if c = backquote then scan (.name (t ++ [c])) rest
      else (scan (outside c) rest).map (.name t :: ·)

/-- The tokens of a whole text. -/
def tokens (s : Text) : Option (List Token) := scan .between s

section Scan
variable {t s rest : Text} {c : UInt8}

/-- Bytes of a word, up to its end. -/
theorem scan_word (h : ∀ c ∈ s, c ≠ backquote ∧ isspace c = false) (t : Text) :
    scan (.word t) (s ++ rest) = scan (.word (t ++ s)) rest := by
  induction s generalizing t with
  | nil => rw [List.nil_append, List.append_nil]
  | cons c s ih =>
      obtain ⟨hquote, hspace⟩ := h c List.mem_cons_self
      have hstop : ¬(c = backquote ∨ isspace c = true) := by simp [hquote, hspace]
      rw [List.cons_append, scan, if_neg hstop, ih (fun d hd => h d (List.mem_cons_of_mem c hd)),
        List.append_assoc, List.singleton_append]

/-- Bytes of a name, up to its end. -/
theorem scan_name (h : backquote ∉ s) (t : Text) :
    scan (.name t) (s ++ rest) = scan (.name (t ++ s)) rest := by
  induction s generalizing t with
  | nil => rw [List.nil_append, List.append_nil]
  | cons c s ih =>
      rw [List.mem_cons, not_or] at h
      rw [List.cons_append, scan, if_neg (Ne.symm h.1), ih h.2, List.append_assoc,
        List.singleton_append]

/-- A word that ends at a blank. -/
theorem scan_between_word (hs : s ≠ []) (h : ∀ c ∈ s, c ≠ backquote ∧ isspace c = false)
    (hspace : isspace c = true) :
    scan .between (s ++ c :: rest) = (scan .between rest).map (.word s :: ·) := by
  cases s with
  | nil => exact absurd rfl hs
  | cons d s =>
      obtain ⟨hquote, hblank⟩ := h d List.mem_cons_self
      have hc : c ≠ backquote := by
        rintro rfl
        exact absurd hspace (by decide)
      rw [List.cons_append, scan, outside, if_neg hquote, if_neg (by simp [hblank]),
        scan_word (fun e he => h e (List.mem_cons_of_mem d he)), List.singleton_append, scan,
        if_pos (Or.inr hspace), outside, if_neg hc, if_pos hspace]

/-- A name without backquotes, with a blank behind it. -/
theorem scan_between_name (h : backquote ∉ s) (hspace : isspace c = true) :
    scan .between (backquote :: s ++ backquote :: c :: rest) =
      (scan .between rest).map (.name s :: ·) := by
  have hc : c ≠ backquote := by
    rintro rfl
    exact absurd hspace (by decide)
  rw [List.cons_append, scan, outside, if_pos rfl, scan_name h, List.nil_append, scan, if_pos rfl,
    scan, if_neg hc, outside, if_neg hc, if_pos hspace]

/-- A name without backquotes at the end. -/
theorem scan_between_last (h : backquote ∉ s) :
    scan .between (backquote :: s ++ [backquote]) = some [.name s] := by
  rw [List.cons_append, scan, outside, if_pos rfl, scan_name h, List.nil_append, scan, if_pos rfl,
    scan]

end Scan

end Token

end OtusCProg.Library
