import OtusCProg.Library.CBuffer

/-!
# Percent-encoding

Decoding replaces an escape, `%` and two bytes that a recognizer takes, by its
byte, and `+` by a space. Two recognizers give the same bytes as long as the scan
meets no escape that only one of them takes. Decoding undoes every encoding.
-/

namespace OtusCProg.Library

/-- A recognizer of the two bytes behind `%`. -/
abbrev Recognizer := UInt8 → UInt8 → Option UInt8

/-- Two hexadecimal digits. -/
def hexPair : Recognizer := fun a b =>
  match hexDigit a, hexDigit b with
  | some x, some y => some (UInt8.ofNat (16 * x + y))
  | _, _ => none

/-- A byte outside an escape. -/
def unplus (c : UInt8) : UInt8 := if c = 43 then 32 else c

/-- Decoding from left to right. -/
def decodeWith (recognize : Recognizer) : Text → Text
  | c :: a :: b :: rest =>
      match if c = 37 then recognize a b else none with
      | some d => d :: decodeWith recognize rest
      | none => unplus c :: decodeWith recognize (a :: b :: rest)
  | c :: rest => unplus c :: decodeWith recognize rest
  | [] => []

/-- The byte of the escape at the start of a text. -/
def escapeAt (recognize : Recognizer) : Text → Option UInt8
  | c :: a :: b :: _ => if c = 37 then recognize a b else none
  | _ => none

/-- What stands behind the first escape or byte. -/
def behindUnit (recognize : Recognizer) (s : Text) : Text :=
  s.drop (if (escapeAt recognize s).isSome then 3 else 1)

section Decode
variable {loose strict : Recognizer}

theorem escapeAt_of_ne (recognize : Recognizer) {c : UInt8} (h : c ≠ 37) (s : Text) :
    escapeAt recognize (c :: s) = none := by
  match s with
  | [] => rfl
  | [a] => rfl
  | a :: b :: rest => exact if_neg h

theorem decodeWith_cons (recognize : Recognizer) (c : UInt8) (s : Text) :
    decodeWith recognize (c :: s) =
      (escapeAt recognize (c :: s)).getD (unplus c) ::
        decodeWith recognize (behindUnit recognize (c :: s)) := by
  match s with
  | [] => rfl
  | [a] => rfl
  | a :: b :: rest =>
      rw [decodeWith, behindUnit, escapeAt]
      cases if c = 37 then recognize a b else none <;> rfl

theorem length_behindUnit_le (recognize : Recognizer) (c : UInt8) (s : Text) :
    (behindUnit recognize (c :: s)).length ≤ s.length := by
  rw [behindUnit]
  split <;> simp

/-- Decoding does not make a text longer. -/
theorem length_decodeWith_le (recognize : Recognizer) (s : Text) :
    (decodeWith recognize s).length ≤ s.length := by
  induction hn : s.length using Nat.strong_induction_on generalizing s with
  | _ n ih =>
      cases s with
      | nil => exact Nat.zero_le n
      | cons c s =>
          have hunit := length_behindUnit_le recognize c s
          rw [List.length_cons] at hn
          have hrest := ih _ (by omega) (behindUnit recognize (c :: s)) rfl
          rw [decodeWith_cons, List.length_cons]
          omega

/-- Two recognizers, where one takes all that the other takes, and takes nothing
else for `%` itself. -/
structure Extends (loose strict : Recognizer) : Prop where
  keeps : ∀ a b d, strict a b = some d → loose a b = some d
  other : ∀ a b, strict a b = none → loose a b ≠ some 37

/-- The text begins with an escape that only one of them takes. -/
def LooseAt (loose strict : Recognizer) (s : Text) : Prop :=
  (escapeAt strict s).isNone ∧ (escapeAt loose s).isSome

theorem Extends.escapeAt_eq (h : Extends loose strict) {s : Text} (hsame : ¬LooseAt loose strict s) :
    escapeAt loose s = escapeAt strict s := by
  cases hstrict : escapeAt strict s with
  | none =>
      by_contra hsome
      exact hsame ⟨by rw [hstrict]; rfl, Option.isSome_iff_ne_none.mpr hsome⟩
  | some d =>
      match s with
      | c :: a :: b :: rest =>
          rw [escapeAt, Option.ite_none_right_eq_some] at hstrict
          rw [escapeAt, if_pos hstrict.1]
          exact h.keeps a b d hstrict.2

/-- Where only one takes the escape, the first byte is not the same. -/
theorem Extends.head_ne (h : Extends loose strict) {c : UInt8} {s : Text}
    (hloose : LooseAt loose strict (c :: s)) :
    (escapeAt loose (c :: s)).getD (unplus c) ≠ (escapeAt strict (c :: s)).getD (unplus c) := by
  match s with
  | a :: b :: rest =>
      obtain ⟨hnone, hsome⟩ := hloose
      by_cases hc : c = 37
      · subst hc
        simp only [escapeAt, if_true, Option.isNone_iff_eq_none] at hnone hsome ⊢
        obtain ⟨d, hd⟩ := Option.isSome_iff_exists.mp hsome
        rw [hnone, hd]
        rintro rfl
        exact h.other a b hnone hd
      · rw [escapeAt_of_ne loose hc] at hsome
        cases hsome

/-- The two decodings agree in their first `n` bytes exactly when the scan meets no
escape on the way that only one recognizer takes. -/
theorem Extends.take_decodeWith_eq_iff (h : Extends loose strict) (n : Nat) (s : Text) :
    (decodeWith loose s).take n = (decodeWith strict s).take n ↔
      ∀ k < n, ¬LooseAt loose strict ((behindUnit strict)^[k] s) := by
  induction n generalizing s with
  | zero => simp
  | succ n ih =>
      cases s with
      | nil =>
          have hfixed : ∀ k, (behindUnit strict)^[k] [] = [] := Function.iterate_fixed rfl
          have hnone : ∀ k < n + 1, ¬LooseAt loose strict ((behindUnit strict)^[k] []) := by
            intro k _ hloose
            rw [hfixed k] at hloose
            cases hloose.2
          exact ⟨fun _ => hnone, fun _ => rfl⟩
      | cons c s =>
          rw [decodeWith_cons, decodeWith_cons, List.take_succ_cons, List.take_succ_cons]
          by_cases hloose : LooseAt loose strict (c :: s)
          · constructor
            · intro hsame
              exact absurd (List.cons.inj hsame).1 (h.head_ne hloose)
            · intro hnone
              exact absurd hloose (hnone 0 (Nat.succ_pos n))
          · have heq := h.escapeAt_eq hloose
            have hunit : behindUnit loose (c :: s) = behindUnit strict (c :: s) := by
              rw [behindUnit, heq, behindUnit]
            rw [heq, hunit, List.cons.injEq, ih, Nat.forall_lt_succ_left]
            simp only [true_and, Function.iterate_succ_apply, Function.iterate_zero, id_eq, hloose,
              not_false_iff]

/-- Behind as many units as there are decoded bytes stands nothing. -/
theorem iterate_behindUnit_length (recognize : Recognizer) (s : Text) :
    (behindUnit recognize)^[(decodeWith recognize s).length] s = [] := by
  induction hn : s.length using Nat.strong_induction_on generalizing s with
  | _ n ih =>
      cases s with
      | nil => rfl
      | cons c s =>
          have hunit := length_behindUnit_le recognize c s
          rw [List.length_cons] at hn
          rw [decodeWith_cons, List.length_cons, Function.iterate_succ_apply]
          exact ih _ (by omega) (behindUnit recognize (c :: s)) rfl

/-- One decoding begins with the other exactly when no escape on the way is taken by one
recognizer only. -/
theorem Extends.isPrefix_iff (h : Extends loose strict) (s : Text) :
    decodeWith strict s <+: decodeWith loose s ↔
      ∀ k, ¬LooseAt loose strict ((behindUnit strict)^[k] s) := by
  have htake := h.take_decodeWith_eq_iff (decodeWith strict s).length s
  rw [List.take_length] at htake
  rw [List.prefix_iff_eq_take, eq_comm, htake]
  constructor
  · intro hnone k hloose
    by_cases hk : k < (decodeWith strict s).length
    · exact hnone k hk hloose
    · obtain ⟨j, rfl⟩ := Nat.exists_eq_add_of_le' (not_lt.mp hk)
      have hfixed : (behindUnit strict)^[j] [] = [] := Function.iterate_fixed rfl j
      rw [Function.iterate_add_apply, iterate_behindUnit_length, hfixed] at hloose
      cases hloose.2
  · intro hnone k _
    exact hnone k

/-- Without such an escape the decodings are the same. -/
theorem Extends.decodeWith_eq (h : Extends loose strict) {s : Text}
    (hnone : ∀ k, ¬LooseAt loose strict ((behindUnit strict)^[k] s)) :
    decodeWith loose s = decodeWith strict s := by
  have htake := (h.take_decodeWith_eq_iff s.length s).mpr fun k _ => hnone k
  rwa [List.take_of_length_le (length_decodeWith_le loose s),
    List.take_of_length_le (length_decodeWith_le strict s)] at htake

end Decode

section Digits
variable {a b : UInt8} {x y : Nat}

/-- A hexadecimal digit is neither white space nor a sign, and its value is below 16. -/
theorem hexDigit_eq_some (h : hexDigit a = some x) :
    x < 16 ∧ isspace a = false ∧ a ≠ 45 ∧ a ≠ 43 := by
  have hall : ∀ n < 256, ∀ x ∈ hexDigit (UInt8.ofNat n),
      x < 16 ∧ isspace (UInt8.ofNat n) = false ∧ UInt8.ofNat n ≠ 45 ∧ UInt8.ofNat n ≠ 43 := by
    decide +kernel
  have ha := hall a.toNat a.toNat_lt x
  rw [UInt8.ofNat_toNat] at ha
  exact ha h

theorem skip0x_pair (a b : UInt8) : skip0x [a, b] = [a, b] := by
  unfold skip0x
  split
  · rename_i heq
    cases heq
  · rfl

/-- `strtol` on two hexadecimal digits. -/
theorem strtolHex_pair (ha : hexDigit a = some x) (hb : hexDigit b = some y) :
    strtolHex [a, b] = (((16 * x + y : Nat) : Int), []) := by
  obtain ⟨hx, hspace, hminus, hplus⟩ := hexDigit_eq_some ha
  obtain ⟨hy, -⟩ := hexDigit_eq_some hb
  have hclamp : clampLong (16 * (x : Int) + y) = 16 * x + y := by
    rw [clampLong]
    omega
  rw [strtolHex, List.dropWhile_cons_of_neg (by simp [hspace])]
  simp [hminus, hplus, skip0x_pair, hexDigits, ha, hb, hclamp]

end Digits

/-- The encodings of a text: each byte as it is, if it is neither `%` nor `+`, as `%`
and its two digits, or, for a space, as `+`. -/
inductive Encodes : Text → Text → Prop where
  | nil : Encodes [] []
  | plain {c : UInt8} {s e : Text} :
      c ≠ 37 → c ≠ 43 → Encodes s e → Encodes (c :: s) (c :: e)
  | escape {a b : UInt8} {x y : Nat} {s e : Text} :
      hexDigit a = some x → hexDigit b = some y → Encodes s e →
        Encodes (UInt8.ofNat (16 * x + y) :: s) (37 :: a :: b :: e)
  | plus {s e : Text} : Encodes s e → Encodes (32 :: s) (43 :: e)

/-- Decoding gets the text back from each of its encodings. -/
theorem decodeWith_of_encodes {s e : Text} (h : Encodes s e) : decodeWith hexPair e = s := by
  induction h with
  | nil => rfl
  | @plain c s e hpercent hplus _ ih =>
      rw [decodeWith_cons, behindUnit, escapeAt_of_ne hexPair hpercent]
      exact congrArg₂ List.cons (if_neg hplus) ih
  | @escape a b x y s e ha hb _ ih =>
      have hescape : escapeAt hexPair (37 :: a :: b :: e) = some (UInt8.ofNat (16 * x + y)) := by
        rw [escapeAt, if_pos rfl, hexPair, ha, hb]
      rw [decodeWith_cons, behindUnit, hescape]
      exact congrArg (UInt8.ofNat (16 * x + y) :: ·) ih
  | @plus s e _ ih =>
      rw [decodeWith_cons, behindUnit, escapeAt_of_ne hexPair (by decide)]
      exact congrArg (32 :: ·) ih

end OtusCProg.Library
