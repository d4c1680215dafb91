import OtusCProg.Library.MachineInt
import OtusCProg.Library.PercentCoding
import Mathlib.Data.List.GetD

/-!
# The decoding of a URL in the report

`url_decode` goes through its argument by index. An escape needs two more bytes in
front of the terminator. It decodes every percent-encoding.
-/

namespace OtusCProg.LogReader
open Library MachineInt

def isxdigit (c : UInt8) : Bool := (hexDigit c).isSome

/-- The loop of `url_decode` from index `i` on: the bytes stored through `out`. -/
def url_decode_loop (src : Text) (i : Nat) : Text :=
  if h : i < src.length then
    if src[i] = 37 ∧ i + 2 < src.length ∧ isxdigit (src.getD (i + 1) 0) ∧
        isxdigit (src.getD (i + 2) 0) then
      let hex := [src.getD (i + 1) 0, src.getD (i + 2) 0]
      UInt8.ofNat (toUnsigned 8 (strtolHex hex).1) :: url_decode_loop src (i + 3)
    else if src[i] = 43 then 32 :: url_decode_loop src (i + 1)
    else src[i] :: url_decode_loop src (i + 1)
  else []
termination_by src.length - i

/-- `url_decode`: the string it leaves in `dst`. -/
def url_decode (src : Text) : Text := cstr (url_decode_loop src 0)

/-- The byte that `strtol` reads from two hexadecimal digits. -/
theorem hexPair_eq (a b : UInt8) :
    hexPair a b =
      if isxdigit a ∧ isxdigit b then some (UInt8.ofNat (toUnsigned 8 (strtolHex [a, b]).1)) else none := by
  cases ha : hexDigit a with
  | none => rw [hexPair, ha, if_neg (by simp [isxdigit, ha])]
  | some x =>
      cases hb : hexDigit b with
      | none => rw [hexPair, ha, hb, if_neg (by simp [isxdigit, hb])]
      | some y =>
          have hx := (hexDigit_eq_some ha).1
          have hy := (hexDigit_eq_some hb).1
          have hrange : (16 * x + y) % 2 ^ 8 = 16 * x + y := Nat.mod_eq_of_lt (by omega)
          rw [hexPair, ha, hb, if_pos (by simp [isxdigit, ha, hb]), strtolHex_pair ha hb,
            toUnsigned_natCast, hrange]

/-- The test of the loop at an index is the one for an escape at the start of what is left. -/
theorem escapeAt_drop {src : Text} {i : Nat} (hi : i < src.length) :
    escapeAt hexPair (src.drop i) =
      if src[i] = 37 ∧ i + 2 < src.length ∧ isxdigit (src.getD (i + 1) 0) ∧
          isxdigit (src.getD (i + 2) 0) then
        some (UInt8.ofNat (toUnsigned 8 (strtolHex [src.getD (i + 1) 0, src.getD (i + 2) 0]).1))
      else none := by
  by_cases hlen : i + 2 < src.length
  · have hdrop : src.drop i =
        src[i] :: src.getD (i + 1) 0 :: src.getD (i + 2) 0 :: src.drop (i + 3) := by
      rw [List.drop_eq_getElem_cons hi, List.drop_eq_getElem_cons (Nat.lt_of_succ_lt hlen),
        List.drop_eq_getElem_cons hlen, List.getD_eq_getElem src 0 (Nat.lt_of_succ_lt hlen),
        List.getD_eq_getElem src 0 hlen]
    rw [hdrop, escapeAt, hexPair_eq, ← ite_and]
    simp only [hlen, true_and]
  · have hshort : (src.drop i).length < 3 := by
      rw [List.length_drop]
      omega
    rw [if_neg fun h => hlen h.2.1]
    rcases hdrop : src.drop i with _ | ⟨a, _ | ⟨b, _ | ⟨c, rest⟩⟩⟩
    · rfl
    · rfl
    · rfl
    · rw [hdrop, List.length_cons, List.length_cons, List.length_cons] at hshort
      omega

/-- The loop decodes what stands from the index on. -/
theorem url_decode_loop_eq (src : Text) (i : Nat) :
    url_decode_loop src i = decodeWith hexPair (src.drop i) := by
  induction i using url_decode_loop.induct src with
  | case1 i hi hescape ih =>
      have hcons := List.drop_eq_getElem_cons hi
      rw [url_decode_loop, dif_pos hi, if_pos hescape, ih, hcons, decodeWith_cons, behindUnit, ← hcons,
        escapeAt_drop hi, if_pos hescape, List.drop_drop]
      rfl
  | case2 i hi hescape hplus ih =>
      have hcons := List.drop_eq_getElem_cons hi
      rw [url_decode_loop, dif_pos hi, if_neg hescape, if_pos hplus, ih, hcons, decodeWith_cons,
        behindUnit, ← hcons, escapeAt_drop hi, if_neg hescape, hplus, List.drop_drop]
      rfl
  | case3 i hi hescape hplus ih =>
      have hcons := List.drop_eq_getElem_cons hi
      rw [url_decode_loop, dif_pos hi, if_neg hescape, if_neg hplus, ih, hcons, decodeWith_cons,
        behindUnit, ← hcons, escapeAt_drop hi, if_neg hescape, Option.getD_none, unplus, if_neg hplus,
        List.drop_drop]
      rfl
  | case4 i hi =>
      rw [url_decode_loop, dif_neg hi, List.drop_eq_nil_of_le (Nat.le_of_not_lt hi)]
      rfl

theorem url_decode_eq (src : Text) : url_decode src = cstr (decodeWith hexPair src) := by
  rw [url_decode, url_decode_loop_eq, List.drop_zero]

/-- Every percent-encoding of a text without NUL is decoded to the text, and no input
makes `url_decode` store more bytes than it has, the terminator apart. -/
theorem url_decode_round_trip :
    (∀ s e : Text, 0 ∉ s → Encodes s e → url_decode e = s) ∧
      ∀ src : Text, (url_decode_loop src 0).length ≤ src.length ∧
        (url_decode src).length ≤ src.length := by
  have hlen : ∀ src : Text, (url_decode_loop src 0).length ≤ src.length := by
    intro src
    rw [url_decode_loop_eq, List.drop_zero]
    exact length_decodeWith_le hexPair src
  constructor
  · intro s e hzero hencodes
    rw [url_decode_eq, decodeWith_of_encodes hencodes, cstr_eq_self hzero]
  · intro src
    exact ⟨hlen src, (List.takeWhile_prefix _).length_le.trans (hlen src)⟩

/-- An escape at the very end, of a byte above `0x7F`, behind a plus and a plain byte. -/
theorem url_decode_round_trip_end :
    url_decode (text "b+%fF") = [98, 32, 0xFF] ∧
      (url_decode_loop (text "b+%fF") 0).length ≤ (text "b+%fF").length := by
  have hencodes : Encodes [98, 32, 0xFF] (text "b+%fF") :=
    .plain (by decide) (by decide) (.plus (.escape (x := 15) (y := 15) rfl rfl .nil))
  exact ⟨url_decode_round_trip.1 _ _ (by decide) hencodes, (url_decode_round_trip.2 _).1⟩

end OtusCProg.LogReader
