import OtusCProg.Library.CBuffer

/-!
# Searching a stream segment by segment

A stream arrives in segments, and each of them is searched on its own. This
finds what a search of the whole stream finds where no boundary cuts an
occurrence; one byte a segment, it finds no pattern of two bytes or more.
-/

namespace OtusCProg.Library

/-- A way to receive a stream in segments of at most `size` bytes. -/
structure Split (size : Nat) (stream : Text) (segments : List Text) : Prop where
  flatten : segments.flatten = stream
  fits : ∀ segment ∈ segments, segment ≠ [] ∧ segment.length ≤ size

/-- One byte a segment. -/
def bytewise (stream : Text) : List Text := stream.map fun c => [c]

/-- No occurrence of the pattern begins in the bytes `front` and ends in `behind`. -/
def UncutAt (needle front behind : Text) : Prop :=
  ∀ a b, a ≠ [] → b ≠ [] → needle = a ++ b → a <:+ front → ¬ b <+: behind

/-- No boundary of the segments cuts an occurrence of the pattern. -/
def Uncut (needle : Text) : List Text → Prop
  | [] => True
  | s :: segments => UncutAt needle s segments.flatten ∧ Uncut needle segments

section Split
variable {size : Nat} {stream stream' needle : Text} {segments segments' : List Text}

theorem Split.append (h : Split size stream segments) (h' : Split size stream' segments') :
    Split size (stream ++ stream') (segments ++ segments') where
  flatten := by rw [List.flatten_append, h.flatten, h'.flatten]
  fits s hs := (List.mem_append.mp hs).elim (h.fits s) (h'.fits s)

theorem split_singleton (hne : stream ≠ []) (hle : stream.length ≤ size) : Split size stream [stream] where
  flatten := List.flatten_singleton
  fits _ hs := List.mem_singleton.mp hs ▸ ⟨hne, hle⟩

theorem split_bytewise (hsize : 0 < size) (stream : Text) : Split size stream (bytewise stream) where
  flatten := by
    induction stream with
    | nil => rfl
    | cons c stream ih => exact congrArg (c :: ·) ih
  fits s hs := by
    obtain ⟨c, -, rfl⟩ := List.mem_map.mp hs
    exact ⟨List.cons_ne_nil c [], hsize⟩

/-- A pattern of two bytes or more is in no segment of one byte. -/
theorem not_infix_of_mem_bytewise {s : Text} (hneedle : 1 < needle.length) (hs : s ∈ bytewise stream) :
    ¬ needle <:+: s := by
  obtain ⟨c, -, rfl⟩ := List.mem_map.mp hs
  intro hoccurs
  exact absurd hoccurs.length_le hneedle.not_ge

/-- A segment is a part of the stream. -/
theorem Split.infix_of_mem (h : Split size stream segments) {s : Text} (hs : s ∈ segments) :
    s <:+: stream := by
  rw [← h.flatten]
  exact List.infix_of_mem_flatten hs

/-- Some split has the pattern in one segment. -/
theorem exists_split_with (hneedle : needle ≠ []) (hsize : needle.length ≤ size)
    (h : needle <:+: stream) : ∃ segments, Split size stream segments ∧ needle ∈ segments := by
  obtain ⟨front, behind, rfl⟩ := h
  have hpos : 0 < size := (List.length_pos_of_ne_nil hneedle).trans_le hsize
  refine ⟨bytewise front ++ [needle] ++ bytewise behind, ?_, by simp⟩
  exact ((split_bytewise hpos front).append (split_singleton hneedle hsize)).append
    (split_bytewise hpos behind)

end Split

section Strstr
variable {needle front behind : Text} {segments : List Text}

theorem length_le_of_strstr {rest : Text} (h : strstr needle front = some rest) :
    needle.length ≤ front.length :=
  (strstr_isSome.mp (Option.isSome_of_eq_some h)).length_le

/-- The rest from an occurrence on is the end of the string. -/
theorem strstr_isSuffix {rest : Text} (h : strstr needle front = some rest) : rest <:+ front := by
  induction front with
  | nil =>
      rw [strstr, Option.ite_none_right_eq_some] at h
      rw [← Option.some.inj h.2]
  | cons c front ih =>
      rw [strstr] at h
      split at h
      · rw [← Option.some.inj h]
      · exact (ih h).trans (List.suffix_cons c front)

/-- The pattern stands where it is found. -/
theorem prefix_of_strstr {rest : Text} (h : strstr needle front = some rest) : needle <+: rest := by
  induction front with
  | nil =>
      rw [strstr, Option.ite_none_right_eq_some] at h
      rw [h.1]
      exact List.nil_prefix
  | cons c front ih =>
      rw [strstr] at h
      split at h
      · rename_i hprefix
        rw [← Option.some.inj h]
        exact List.isPrefixOf_iff_prefix.mp hprefix
      · exact ih h

/-- What is found in front is found first. -/
theorem strstr_append_of_some {rest : Text} (h : strstr needle front = some rest) :
    strstr needle (front ++ behind) = some (rest ++ behind) := by
  induction front with
  | nil =>
      rw [strstr, Option.ite_none_right_eq_some] at h
      obtain ⟨rfl, h⟩ := h
      obtain rfl := Option.some.inj h
      cases behind <;> simp [strstr]
  | cons c front ih =>
      rw [List.cons_append, strstr]
      rw [strstr] at h
      by_cases hprefix : needle.isPrefixOf (c :: front)
      · rw [if_pos hprefix] at h
        obtain rfl := Option.some.inj h
        have hlong : needle <+: c :: (front ++ behind) :=
          (List.isPrefixOf_iff_prefix.mp hprefix).trans (List.prefix_append (c :: front) behind)
        rw [if_pos (List.isPrefixOf_iff_prefix.mpr hlong)]
        rfl
      · rw [if_neg hprefix] at h
        have hlen : needle.length ≤ (c :: front).length := (length_le_of_strstr h).trans (Nat.le_succ _)
        have hlong : ¬ needle <+: c :: (front ++ behind) := by
          intro hlong
          apply hprefix
          apply List.isPrefixOf_iff_prefix.mpr
          exact List.prefix_of_prefix_length_le hlong (List.prefix_append (c :: front) behind) hlen
        rw [if_neg (mt List.isPrefixOf_iff_prefix.mp hlong)]
        exact ih h

/-- Where the pattern is not in front and not cut, it is looked for behind. -/
theorem strstr_append_of_uncut (hfront : ¬ needle <:+: front)
    (huncut : UncutAt needle front behind) : strstr needle (front ++ behind) = strstr needle behind := by
  induction front with
  | nil => rfl
  | cons c front ih =>
      have hrest : strstr needle (front ++ behind) = strstr needle behind := by
        apply ih
        · intro hoccurs
          exact hfront (hoccurs.trans (List.suffix_cons c front).isInfix)
        · intro a b ha hb heq hsuffix
          exact huncut a b ha hb heq (hsuffix.trans (List.suffix_cons c front))
      have hlong : ¬ needle <+: c :: (front ++ behind) := by
        intro hlong
        rcases List.prefix_or_prefix_of_prefix hlong (List.prefix_append (c :: front) behind) with
          hshort | ⟨b, hb⟩
        · exact hfront hshort.isInfix
        · cases b with
          | nil =>
              rw [List.append_nil] at hb
              exact hfront (hb ▸ List.infix_rfl)
          | cons d b =>
              rw [← hb] at hlong
              exact huncut (c :: front) (d :: b) (List.cons_ne_nil c front) (List.cons_ne_nil d b) hb.symm
                List.suffix_rfl ((List.prefix_append_right_inj _).mp hlong)
      rw [List.cons_append, strstr, if_neg (mt List.isPrefixOf_iff_prefix.mp hlong), hrest]

end Strstr

/-- Segments that cut no occurrence find the pattern exactly where the stream has it. -/
theorem infix_flatten_iff {needle : Text} {segments : List Text} (hneedle : needle ≠ [])
    (huncut : Uncut needle segments) :
    needle <:+: segments.flatten ↔ ∃ s ∈ segments, needle <:+: s := by
  induction segments with
  | nil => simp [hneedle]
  | cons s segments ih =>
      obtain ⟨hcut, hrest⟩ := huncut
      rw [List.flatten_cons, List.infix_append_iff_ne_nil, ih hrest]
      constructor
      · rintro (hoccurs | ⟨s', hs', hoccurs⟩ | ⟨a, b, ha, hb, heq, hsuffix, hprefix⟩)
        · exact ⟨s, List.mem_cons_self, hoccurs⟩
        · exact ⟨s', List.mem_cons_of_mem s hs', hoccurs⟩
        · exact absurd hprefix (hcut a b ha hb heq hsuffix)
      · rintro ⟨s', hs', hoccurs⟩
        rcases List.mem_cons.mp hs' with rfl | hs'
        · exact .inl hoccurs
        · exact .inr (.inl ⟨s', hs', hoccurs⟩)

end OtusCProg.Library
