import OtusCProg.ZipJpeg.Walk

/-!
# The search for the end record

`find_eocdr` goes back from the end of the input and stops at the first
position that has the signature and the matching comment length.
-/

namespace OtusCProg.ZipJpeg
open Library LittleEndian MachineInt

/-- Where an end record with a comment of this length starts. -/
def eocdr_at (src : List UInt8) (comment_len : Nat) : Nat :=
  src.length - EOCDR_BASE_SZ - comment_len

/-- An end record with a comment of this length ends the input. -/
structure EndsWith (src : List UInt8) (comment_len : Nat) : Prop where
  fits : EOCDR_BASE_SZ + comment_len ≤ src.length
  signature : read32 src (eocdr_at src comment_len) = some EOCDR_SIGNATURE
  carried : read16 src (eocdr_at src comment_len + 20) = some comment_len

/-- What `find_eocdr` returns for the record with these fields. -/
def EocdrFields.at (f : EocdrFields) (src : List UInt8) : Eocdr :=
  { f with
    cd_offset := toUnsigned 32 (src.length - f.cd_size - EOCDR_BASE_SZ - f.comment_len : Int)
    comment := eocdr_at src f.comment_len + EOCDR_BASE_SZ }

variable {src : List UInt8} {p comment_len turns : Nat} {r : Eocdr}

theorem read16_isSome (src : List UInt8) (p : Nat) (h : p + 2 ≤ src.length) : ∃ n, read16 src p = some n := by
  have hlen : (src.drop p).length = src.length - p := List.length_drop
  unfold read16
  match hdrop : src.drop p with
  | [] => rw [hdrop, List.length_nil] at hlen; omega
  | [_] => rw [hdrop, List.length_singleton] at hlen; omega
  | a :: b :: _ => exact ⟨_, rfl⟩

theorem read32_isSome (src : List UInt8) (p : Nat) (h : p + 4 ≤ src.length) : ∃ n, read32 src p = some n := by
  have hlen : (src.drop p).length = src.length - p := List.length_drop
  unfold read32
  match hdrop : src.drop p with
  | [] => rw [hdrop, List.length_nil] at hlen; omega
  | [_] => rw [hdrop, List.length_singleton] at hlen; omega
  | [_, _] => rw [hdrop] at hlen; simp only [List.length_cons, List.length_nil] at hlen; omega
  | [_, _, _] => rw [hdrop] at hlen; simp only [List.length_cons, List.length_nil] at hlen; omega
  | a :: b :: c :: d :: _ => exact ⟨_, rfl⟩

/-- When the fields of an end record can be read. -/
theorem eocdr_fields_eq_ok {f : EocdrFields} : eocdr_fields src p = .ok f ↔
    read16 src p = some f.disk_nbr ∧ read16 src (p + 2) = some f.cd_start_disk ∧
      read16 src (p + 4) = some f.disk_cd_entries ∧ read16 src (p + 6) = some f.cd_entries ∧
      read32 src (p + 8) = some f.cd_size ∧ read32 src (p + 12) = some f.cd_offset_field ∧
      read16 src (p + 16) = some f.comment_len := by
  unfold eocdr_fields
  simp only [bind_eq_ok, READ16_eq_ok, READ32_eq_ok, Except.ok.injEq]
  constructor
  · rintro ⟨a, ha, b, hb, c, hc, d, hd, e, he, g, hg, h, hh, rfl⟩
    exact ⟨ha, hb, hc, hd, he, hg, hh⟩
  · rintro ⟨ha, hb, hc, hd, he, hg, hh⟩
    exact ⟨_, ha, _, hb, _, hc, _, hd, _, he, _, hg, _, hh, rfl⟩

theorem eocdr_fields_total (src : List UInt8) (p : Nat) (h : p + 18 ≤ src.length) :
    ∃ f, eocdr_fields src p = .ok f := by
  obtain ⟨a, ha⟩ := read16_isSome src p (by omega)
  obtain ⟨b, hb⟩ := read16_isSome src (p + 2) (by omega)
  obtain ⟨c, hc⟩ := read16_isSome src (p + 4) (by omega)
  obtain ⟨d, hd⟩ := read16_isSome src (p + 6) (by omega)
  obtain ⟨e, he⟩ := read32_isSome src (p + 8) (by omega)
  obtain ⟨g, hg⟩ := read32_isSome src (p + 12) (by omega)
  obtain ⟨k, hk⟩ := read16_isSome src (p + 16) (by omega)
  exact ⟨⟨a, b, c, d, e, g, k⟩, eocdr_fields_eq_ok.mpr ⟨ha, hb, hc, hd, he, hg, hk⟩⟩

/-- One turn of the search: stop at a record that ends the input, or go on. -/
theorem find_eocdr_from_succ (turns : Nat) (hfits : EOCDR_BASE_SZ + comment_len ≤ src.length) :
    (EndsWith src comment_len ∧ ∃ f, eocdr_fields src (eocdr_at src comment_len + 4) = .ok f ∧
        f.comment_len = comment_len ∧
        find_eocdr_from src (turns + 1) comment_len = .ok (f.at src)) ∨
      (¬EndsWith src comment_len ∧
        find_eocdr_from src (turns + 1) comment_len =
          find_eocdr_from src turns (comment_len + 1)) := by
  have hat : eocdr_at src comment_len + EOCDR_BASE_SZ + comment_len = src.length := by
    unfold eocdr_at
    omega
  have hbase : EOCDR_BASE_SZ = 22 := rfl
  obtain ⟨signature, hsig⟩ := read32_isSome src (eocdr_at src comment_len) (by omega)
  obtain ⟨f, hf⟩ := eocdr_fields_total src (eocdr_at src comment_len + 4) (by omega)
  have hcarried : read16 src (eocdr_at src comment_len + 20) = some f.comment_len :=
    (eocdr_fields_eq_ok.mp hf).2.2.2.2.2.2
  have hstep : find_eocdr_from src (turns + 1) comment_len =
      if signature = EOCDR_SIGNATURE then
        if f.comment_len = comment_len then .ok { f with
          cd_offset := toUnsigned 32 (src.length - f.cd_size - EOCDR_BASE_SZ - comment_len : Int)
          comment := eocdr_at src comment_len + EOCDR_BASE_SZ }
        else find_eocdr_from src turns (comment_len + 1)
      else find_eocdr_from src turns (comment_len + 1) := by
    rw [find_eocdr_from, if_neg (Nat.not_lt.mpr hfits)]
    show (READ32 src (eocdr_at src comment_len) >>= _) = _
    rw [READ32_eq_ok.mpr hsig]
    show (if signature = EOCDR_SIGNATURE then
      (eocdr_fields src (eocdr_at src comment_len + 4) >>= _) else _) = _
    rw [hf]
    rfl
  by_cases hsignature : signature = EOCDR_SIGNATURE
  · by_cases hcomment : f.comment_len = comment_len
    · left
      refine ⟨⟨hfits, hsignature ▸ hsig, hcomment ▸ hcarried⟩, f, hf, hcomment, ?_⟩
      rw [hstep, if_pos hsignature, if_pos hcomment, ← hcomment]
      rfl
    · right
      refine ⟨fun h => hcomment ?_, by rw [hstep, if_pos hsignature, if_neg hcomment]⟩
      exact Option.some.inj (hcarried.symm.trans h.carried)
  · right
    refine ⟨fun h => hsignature ?_, by rw [hstep, if_neg hsignature]⟩
    exact Option.some.inj (hsig.symm.trans h.signature)

/-- The search finds the shortest comment for which a record ends the input. -/
theorem find_eocdr_from_eq_ok : find_eocdr_from src turns comment_len = .ok r ↔
    ∃ k f, comment_len ≤ k ∧ k < comment_len + turns ∧ (∀ i, comment_len ≤ i → i < k → ¬EndsWith src i) ∧
      EndsWith src k ∧ eocdr_fields src (eocdr_at src k + 4) = .ok f ∧ f.comment_len = k ∧
      r = f.at src := by
  induction turns generalizing comment_len with
  | zero =>
      constructor
      · exact nofun
      · rintro ⟨k, f, hlow, hhigh, _⟩
        omega
  | succ turns ih =>
      by_cases hfits : EOCDR_BASE_SZ + comment_len ≤ src.length
      · rcases find_eocdr_from_succ turns hfits with
          ⟨hends, f, hf, hcomment, hstep⟩ | ⟨hends, hstep⟩
        · rw [hstep]
          constructor
          · intro h
            exact ⟨comment_len, f, le_rfl, by omega, fun i hlow hhigh => by omega, hends, hf, hcomment,
              (Except.ok.inj h).symm⟩
          · rintro ⟨k, f', hlow, _, hfirst, _, hf', _, rfl⟩
            obtain rfl : k = comment_len := by
              by_contra hne
              exact hfirst comment_len le_rfl (by omega) hends
            rw [Except.ok.inj (hf.symm.trans hf')]
        · rw [hstep, ih]
          constructor
          · rintro ⟨k, f, hlow, hhigh, hfirst, hrest⟩
            refine ⟨k, f, by omega, by omega, fun i hi hik => ?_, hrest⟩
            by_cases heq : i = comment_len
            · rwa [heq]
            · exact hfirst i (by omega) hik
          · rintro ⟨k, f, hlow, hhigh, hfirst, hk, hrest⟩
            have hne : k ≠ comment_len := by
              rintro rfl
              exact hends hk
            exact ⟨k, f, by omega, by omega, fun i hi hik => hfirst i (by omega) hik, hk, hrest⟩
      · rw [find_eocdr_from, if_pos (Nat.lt_of_not_le hfits)]
        constructor
        · exact nofun
        · rintro ⟨k, f, hlow, _, _, hk, _⟩
          have := hk.fits
          omega

end OtusCProg.ZipJpeg
