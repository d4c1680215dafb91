import OtusCProg.ZipJpeg.RoundTrip

/-!
# Listing an accepted archive

The loop of `list_zip` parses every header again. For an accepted input it
follows the walk of `zip_read`, so it takes one turn a member, ends at
`members_end`, and returns ranges inside the input.
-/

namespace OtusCProg.ZipJpeg
open Library LittleEndian

/-- The iterator of `list_zip` goes from one offset to another over these members. -/
inductive Iterates (src : List UInt8) (zip : Zip) (zfo : Nat) : Nat → List Member → Nat → Prop where
  | nil (it : Nat) : Iterates src zip zfo it [] it
  | cons {it last : Nat} {m : Member} {rest : List Member} :
      it ≠ zip.members_end → zip_member src zip it zfo = .ok m →
      Iterates src zip zfo m.next rest last → Iterates src zip zfo it (m :: rest) last

/-- The ranges of a member lie inside the input. -/
structure Member.Inside (src : List UInt8) (m : Member) : Prop where
  name : m.name + m.name_len ≤ src.length
  comment : m.comment + m.comment_len ≤ src.length
  comp_data : m.comp_data + m.comp_size ≤ src.length

variable {src : List UInt8} {zip : Zip} {zfo it last : Nat} {cfh : Cfh} {lfh : Lfh}
  {members : List (Cfh × Lfh)}

theorem listed_length (it : Nat) (members : List (Cfh × Lfh)) :
    (listed it members).length = members.length := by
  induction members generalizing it with
  | nil => rfl
  | cons member rest ih => simp [listed, ih]

/-- An accepted local header ends inside the input. -/
theorem read_lfh_inside {offset : Nat} (h : read_lfh src offset = .ok lfh) :
    lfh.extra + lfh.extra_len ≤ src.length := by
  obtain ⟨f, _, _, hinside, rfl⟩ := read_lfh_eq_ok.mp h
  exact hinside

/-- A checked member has its ranges inside the input. -/
theorem MemberOk.inside (hok : MemberOk src zfo it cfh lfh) :
    (member_of it cfh lfh).Inside src := by
  constructor
  · exact hok.name_inside
  · obtain ⟨f, _, _, hinside, rfl⟩ := read_cfh_eq_ok.mp hok.cfh_ok
    exact hinside
  · have hdata := hok.data_ok
    have hlocal := read_lfh_inside hok.lfh_ok
    show lfh.extra + lfh.extra_len + cfh.comp_size ≤ src.length
    omega

/-- What one turn over a checked member does. -/
theorem MemberOk.zip_member (hok : MemberOk src zfo it cfh lfh)
    (hbegin : zip.members_begin ≤ it) (hlast : next_header it cfh.toCfhFields ≤ zip.members_end) :
    it ≠ zip.members_end ∧ ZipJpeg.zip_member src zip it zfo = .ok (member_of it cfh lfh) := by
  constructor
  · simp only [next_header, CFH_BASE_SZ] at hlast
    omega
  · exact zip_member_of_ok hok hbegin hlast

/-- The iterator follows a walk to its end. -/
theorem Walk.iterates (h : Walk src zfo it members zip.members_end)
    (hbegin : zip.members_begin ≤ it) :
    Iterates src zip zfo it (listed it members) zip.members_end := by
  induction members generalizing it with
  | nil =>
      cases h
      exact .nil _
  | cons member rest ih =>
      cases h with
      | @cons _ _ cfh lfh _ hok hwalk =>
          have hlast : next_header it cfh.toCfhFields ≤ zip.members_end := by
            have hle := hwalk.le
            omega
          have hnext : zip.members_begin ≤ next_header it cfh.toCfhFields := by
            simp only [next_header]
            omega
          obtain ⟨hne, hmember⟩ := hok.zip_member hbegin hlast
          exact .cons hne hmember (ih hwalk hnext)

/-- Every member of a walk has its ranges inside the input. -/
theorem Walk.inside (h : Walk src zfo it members last) :
    ∀ m ∈ listed it members, m.Inside src := by
  induction h with
  | nil => simp [listed]
  | cons hok _ ih =>
      intro m hm
      rcases List.mem_cons.mp hm with rfl | hrest
      · exact hok.inside
      · exact ih m hrest

/-- Fewer turns than members do not reach the end. -/
theorem list_members_of_few_turns (h : Walk src zfo it members zip.members_end)
    (hbegin : zip.members_begin ≤ it) {turns : Nat} (hturns : turns < members.length) :
    list_members src zip zfo turns it = .error .bound := by
  induction members generalizing it turns with
  | nil => cases hturns
  | cons member rest ih =>
      cases h with
      | @cons _ _ cfh lfh _ hok hwalk =>
          have hlast : next_header it cfh.toCfhFields ≤ zip.members_end := by
            have hle := hwalk.le
            omega
          have hnext : zip.members_begin ≤ next_header it cfh.toCfhFields := by
            simp only [next_header]
            omega
          obtain ⟨hne, hmember⟩ := hok.zip_member hbegin hlast
          unfold list_members
          rw [if_neg hne]
          cases turns with
          | zero => rfl
          | succ turns =>
              show (ZipJpeg.zip_member src zip it zfo >>= _) = _
              rw [hmember]
              show (list_members src zip zfo turns (next_header it cfh.toCfhFields) >>= _) = _
              rw [ih hwalk hnext (Nat.lt_of_succ_lt_succ hturns)]
              rfl

/-- After `zip_read` has accepted an input, the loop of `list_zip` takes exactly
`num_members` turns from `members_begin` to `members_end`. Every `zip_member` on
the way returns a member, so none of its assertions fails, and all the ranges
it returns lie inside the input. -/
theorem list_zip_of_accepted (src : List UInt8) (zip : Zip) (zfo : Nat)
    (h : zip_read src = .ok (zip, zfo)) :
    ∃ ms, ms.length = zip.num_members ∧
      Iterates src zip zfo zip.members_begin ms zip.members_end ∧
      (∀ turns, zip.num_members ≤ turns →
        list_members src zip zfo turns zip.members_begin = .ok ms) ∧
      (∀ turns, turns < zip.num_members →
        list_members src zip zfo turns zip.members_begin = .error .bound) ∧
      ∀ m ∈ ms, m.Inside src := by
  obtain ⟨eocdr, members, _, _, _, _, _, hlen, hwalk, hzip⟩ := zip_read_eq_ok.mp h
  have hnum : zip.num_members = members.length := by rw [hzip, hlen]
  have hbegin : zip.members_begin = eocdr.cd_offset := by rw [hzip]
  rw [← hbegin] at hwalk
  rw [hnum]
  exact ⟨listed zip.members_begin members, listed_length _ _, hwalk.iterates le_rfl,
    fun turns hturns => list_members_of_walk hwalk le_rfl hturns,
    fun turns hturns => list_members_of_few_turns hwalk le_rfl hturns, hwalk.inside⟩

/-- The archive of one stored entry, listed in one turn. -/
theorem list_zip_of_accepted_storedEntry :
    ∃ ms, ms.length = 1 ∧
      Iterates (encode [storedEntry] []) ⟨1, 111, 0, 39, 89⟩ 0 39 ms 89 ∧
      (∀ turns, 1 ≤ turns →
        list_members (encode [storedEntry] []) ⟨1, 111, 0, 39, 89⟩ 0 turns 39 = .ok ms) ∧
      (∀ turns, turns < 1 →
        list_members (encode [storedEntry] []) ⟨1, 111, 0, 39, 89⟩ 0 turns 39 = .error .bound) ∧
      ∀ m ∈ ms, m.Inside (encode [storedEntry] []) := by
  have h : zip_read (encode [storedEntry] []) = .ok (⟨1, 111, 0, 39, 89⟩, 0) := rfl
  exact list_zip_of_accepted _ _ _ h

end OtusCProg.ZipJpeg
