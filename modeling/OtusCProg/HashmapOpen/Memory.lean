import OtusCProg.HashmapOpen.Program

/-!
# The program keeps its memory

At every call the live blocks are those of the table and of the locals, each once.
An operation that ends has done what it does on the table alone; one that halts has a
cause outside of it, or halts on the table alone too.
-/

namespace OtusCProg.HashmapOpen
open Library Allocator Attempt

section Slots
variable {V : Type*} {map : Hashmap V} {e : Entry V} {key : K}

/-- What `xremove` returns is no entry of the table any more. -/
theorem entries_xremove (hpos : 0 < map.arr_size) (h : (xremove map key).2 = some e) :
    (entries map).Perm (e :: entries (xremove map key).1) := by
  have hhome : home map key = home map key % map.arr_size :=
    (Nat.mod_eq_of_lt (home_lt hpos key)).symm
  rw [xremove] at h ⊢
  cases hsearch : CyclicScan.search (holds map key) map.arr_size (home map key) map.arr_size
      (home map key) with
  | none =>
      rw [hsearch] at h
      cases h
  | some index =>
      rw [hsearch] at h
      have hdata : map.data index = some e := h
      rw [CyclicScan.search_eq_seek (home_lt hpos key), hhome] at hsearch
      have hlt : index < map.arr_size := (CyclicScan.seek_sound hpos hsearch).2
      have hrefill : (map.setSlot index none (map.size - 1)).setSlot index (some e) map.size = map := by
        simp only [Hashmap.setSlot, Function.update_idem, ← hdata, Function.update_eq_self]
      have hnull : (map.setSlot index none (map.size - 1)).data index = none := setSlot_data_self ..
      have hfill := entriesBelow_fill hlt hnull e map.size
      rw [hrefill] at hfill
      exact hfill

/-- What `get` finds, `xremove` returns. -/
theorem xremove_of_get {value : V} (hpos : 0 < map.arr_size) (h : get map key = some value) :
    ∃ e, (xremove map key).2 = some e ∧ e.value = value := by
  rw [get] at h
  rw [xremove]
  cases hhome : map.data (home map key) with
  | none =>
      rw [hhome] at h
      cases h
  | some first =>
      rw [hhome] at h
      by_cases hkey : first.key = key
      · have hhit : holds map key (home map key) = true := holds_iff.mpr ⟨first, hhome, hkey⟩
        obtain ⟨n, hn⟩ : ∃ n, map.arr_size = n + 1 := ⟨map.arr_size - 1, by omega⟩
        have hsearch : CyclicScan.search (holds map key) map.arr_size (home map key) map.arr_size
            (home map key) = some (home map key) := by
          rw [hn, CyclicScan.search, if_pos hhit]
        rw [hsearch]
        exact ⟨first, hhome, Option.some.inj ((if_pos hkey).symm.trans h)⟩
      · have hlater := (if_neg hkey).symm.trans h
        cases hsearch : CyclicScan.search (holds map key) map.arr_size (home map key) map.arr_size
            (home map key) with
        | none =>
            rw [hsearch] at hlater
            cases hlater
        | some index =>
            rw [hsearch] at hlater
            exact Option.map_eq_some_iff.mp hlater

end Slots

/-- What may have stopped the program from outside: no memory, no file, or a failed call. -/
def Outside.Refuses (o : Outside) (input_file : Text) : Prop :=
  (∃ n, o.grants n = false) ∨ o.fopen input_file = none ∨ (∃ n, o.ferror n = true) ∨ o.fclose = false

/-- The rules are kept up to a halt, and the halt has a cause. -/
def Halted (o : Outside) (input_file : Text) (P : Stuck → Prop) (e : Halt) (h : Allocator) : Prop :=
  (∃ blocks, h.Holds blocks) ∧
    match e with
    | .exit1 => o.Refuses input_file
    | .nullPointer => ∃ n, o.grants n = false
    | .stuck reason => P reason
    | .writeOutside => False
    | .bound => False

section Memory
variable {o : Outside} {input_file : Text} {P P' : Stuck → Prop} {h : Allocator} {t : Table}
  {more pointers : List Nat} {depth : Nat} {e : Entry Cell}

theorem Halted.imp {halt : Halt} (hhalt : Halted o input_file P halt h)
    (himp : ∀ reason, P reason → P' reason) : Halted o input_file P' halt h := by
  refine ⟨hhalt.1, ?_⟩
  cases halt with
  | stuck reason => exact himp reason hhalt.2
  | exit1 => exact hhalt.2
  | nullPointer => exact hhalt.2
  | writeOutside => exact hhalt.2
  | bound => exact hhalt.2

section Free
variable {E : Halt → Allocator → Prop}

theorem cells_cons (e : Entry Cell) (es : List (Entry Cell)) : cells (e :: es) = e.value.blocks ++ cells es :=
  List.flatMap_cons

theorem freeEntry_meets (hold : h.Holds (e.value.blocks ++ more)) :
    (freeEntry e).Meets h (fun _ u => u.Holds more) E := by
  refine (touch_meets hold ?_).bind fun _ u hu => free_meets hu
  simp [Cell.blocks]

theorem freeEntries_meets {es : List (Entry Cell)} (hold : h.Holds (cells es ++ more))
    (hself : t.self ∈ more) (hdata : t.data ∈ more) :
    (freeEntries t es).Meets h (fun _ u => u.Holds more) E := by
  induction es generalizing h with
  | nil => exact meets_pure hold
  | cons e es ih =>
      rw [cells_cons, List.append_assoc] at hold
      refine (touch_meets hold ?_).bind fun _ u hu => ?_
      · simp [hself, hdata]
      · exact (freeEntry_meets hu).bind fun _ v hv => ih hv

/-- What `destroyHashmap` leaves behind: the `data` of an empty table. -/
theorem destroyHashmap_meets (hold : h.Holds (t.blocks ++ more)) :
    (destroyHashmap t).Meets h
      (fun _ u => u.Holds ((if t.map.size > 0 then [] else [t.data]) ++ more)) E := by
  rw [Table.blocks, List.append_assoc] at hold
  refine (freeEntries_meets hold (by simp) (by simp)).bind fun _ u hu => ?_
  refine (touch_meets hu (by simp)).bind fun _ v hv => ?_
  by_cases hsize : t.map.size > 0
  · simp only [hsize, if_true, List.nil_append]
    have hdata : v.Holds ([t.data] ++ ([t.self] ++ more)) := hv
    exact (free_meets hdata).bind fun _ w hw => free_meets hw
  · simp only [hsize, if_false]
    exact free_meets (hv.perm (List.Perm.swap ..))

/-- `perror_if` frees the table and the pointers it is given. -/
theorem perror_if_meets {α : Type} {Q : α → Allocator → Prop} (hold : h.Holds (t.blocks ++ (pointers ++ more)))
    (hrefuses : o.Refuses input_file) :
    (perror_if t pointers).Meets h Q (Halted o input_file P) := by
  refine (destroyHashmap_meets hold).bind fun _ u hu => ?_
  have hpointers : u.Holds (pointers ++ ((if t.map.size > 0 then [] else [t.data]) ++ more)) :=
    hu.perm (by grind)
  refine (free_meets hpointers).bind fun _ v hv => ?_
  exact meets_throw ⟨⟨_, hv⟩, hrefuses⟩

end Free

section Insertion
variable {n : Nat} {new : Table} {put : Table → Entry Cell → Run Table}
  {pure_put : Hashmap Cell → Entry Cell → Except Stuck (Hashmap Cell)}

/-- With its blocks, an insertion does what it does on the table alone, and keeps all of them. -/
def Puts (o : Outside) (input_file : Text) (put : Table → Entry Cell → Run Table)
    (pure_put : Hashmap Cell → Entry Cell → Except Stuck (Hashmap Cell)) : Prop :=
  ∀ {h : Allocator} {t : Table} {e : Entry Cell} {more : List Nat},
    h.Holds (e.value.blocks ++ (t.blocks ++ more)) →
      (put t e).Meets h (fun t' u => pure_put t.map e = .ok t'.map ∧ u.Holds (t'.blocks ++ more))
        (Halted o input_file fun reason => pure_put t.map e = .error reason)

theorem create_meets (input_file : Text) (limit : Nat) (loadFactor multiplier : Rat) (hold : h.Holds more) :
    (Table.create o limit loadFactor multiplier).Meets h
      (fun t' u => createHashmap limit loadFactor multiplier = .ok t'.map ∧ u.Holds (t'.blocks ++ more))
      (Halted o input_file fun reason =>
        (createHashmap limit loadFactor multiplier : Except Stuck (Hashmap Cell)) = .error reason) := by
  refine (malloc_meets hold).bind ?_
  rintro p u ⟨hu, hrefused⟩
  cases p with
  | none => exact meets_throw ⟨⟨_, hu⟩, hrefused rfl⟩
  | some self =>
      cases hcreate : (createHashmap limit loadFactor multiplier : Except Stuck (Hashmap Cell)) with
      | error reason => exact meets_throw ⟨⟨_, hu⟩, rfl⟩
      | ok map =>
          refine (touch_meets hu (by simp)).bind fun _ v hv => ?_
          refine (malloc_meets hv).bind ?_
          rintro q w ⟨hw, hrefused⟩
          cases q with
          | none => exact meets_throw ⟨⟨_, hw⟩, hrefused rfl⟩
          | some data =>
              have hempty : entries map = [] := by
                simp [entries, entriesBelow, (createHashmap_inv hcreate).1]
              refine meets_pure ⟨rfl, ?_⟩
              simpa [Table.blocks, hempty, cells] using hw

/-- A slot that is filled takes the blocks of its entry. -/
theorem cells_place {map map' : Hashmap Cell} (h : place map e = .ok map') :
    (cells (entries map')).Perm (e.value.blocks ++ cells (entries map)) := by
  rw [← cells_cons]
  exact (entries_place h).flatMap_right _

/-- What stops an earlier slot stops the table. -/
theorem reinsert_succ_of_error {old new : Hashmap Cell} {reason : Stuck}
    (h : reinsert pure_put old n new = .error reason) : reinsert pure_put old (n + 1) new = .error reason := by
  rw [reinsert, h]

/-- Slot by slot, the entries of the old table become those of the new one. -/
theorem reinsert_meets (hput : Puts o input_file put pure_put)
    (hold : h.Holds (cells (entriesBelow t.map n) ++ (new.blocks ++ more)))
    (hself : t.self ∈ more) (hdata : t.data ∈ more) :
    (Table.reinsert put t n new).Meets h
      (fun new' u => reinsert pure_put t.map n new.map = .ok new'.map ∧ u.Holds (new'.blocks ++ more))
      (Halted o input_file fun reason => reinsert pure_put t.map n new.map = .error reason) := by
  induction n generalizing more with
  | zero => exact meets_pure ⟨rfl, hold⟩
  | succ n ih =>
      cases hslot : t.map.data n with
      | none =>
          rw [entriesBelow_succ_none hslot] at hold
          refine (ih hold hself hdata).bind_imp ?_ ?_
          · intro halt u hhalt
            exact hhalt.imp fun reason => reinsert_succ_of_error
          · rintro moved u ⟨hmoved, hu⟩
            refine (touch_meets hu (by simp [hself, hdata])).bind fun _ v hv => ?_
            have hsame : reinsert pure_put t.map (n + 1) new.map = .ok moved.map := by
              rw [reinsert, hmoved]
              simp only [hslot]
            simp only [hslot]
            exact meets_pure ⟨hsame, hv⟩
      | some e =>
          rw [entriesBelow_succ_some hslot] at hold
          have hcells : cells (entriesBelow t.map n ++ [e]) = cells (entriesBelow t.map n) ++ e.value.blocks := by
            simp [cells]
          rw [hcells] at hold
          have hnext : h.Holds (cells (entriesBelow t.map n) ++ (new.blocks ++ (e.value.blocks ++ more))) :=
            hold.perm (by grind)
          refine (ih hnext (by simp [hself]) (by simp [hdata])).bind_imp ?_ ?_
          · intro halt u hhalt
            exact hhalt.imp fun reason => reinsert_succ_of_error
          · rintro moved u ⟨hmoved, hu⟩
            refine (touch_meets hu (by simp [hself, hdata])).bind fun _ v hv => ?_
            have hready : v.Holds (e.value.blocks ++ (moved.blocks ++ more)) := hv.perm (by grind)
            have hsame : reinsert pure_put t.map (n + 1) new.map = pure_put moved.map e := by
              rw [reinsert, hmoved]
              simp only [hslot]
            simp only [hslot, hsame]
            exact hput hready

theorem rehashUp_meets (hput : Puts o input_file put pure_put)
    (hold : h.Holds (e.value.blocks ++ (t.blocks ++ more))) :
    (Table.rehashUp o put t e).Meets h
      (fun t' u => rehashUp pure_put t.map e = .ok t'.map ∧ u.Holds (t'.blocks ++ more))
      (Halted o input_file fun reason => rehashUp pure_put t.map e = .error reason) := by
  by_cases hproduct : ⌊t.map.arr_size * t.map.multiplier⌋ < 2 ^ 64
  · simp only [Table.rehashUp, rehashUp, hproduct, if_true]
    refine (create_meets input_file _ _ _ hold).bind_imp ?_ ?_
    · intro halt u hhalt
      refine hhalt.imp fun reason hreason => ?_
      rw [hreason]
    · rintro new u ⟨hcreate, hu⟩
      have hready : u.Holds (cells (entriesBelow t.map t.map.arr_size) ++
          (new.blocks ++ ([t.data, t.self] ++ (e.value.blocks ++ more)))) := by
        have hblocks : t.blocks = cells (entriesBelow t.map t.map.arr_size) ++ [t.data, t.self] := rfl
        rw [hblocks] at hu
        exact hu.perm (by grind)
      refine (reinsert_meets hput hready (by simp) (by simp)).bind_imp ?_ ?_
      · intro halt v hhalt
        refine hhalt.imp fun reason hreason => ?_
        simp only [hcreate, hreason]
      · rintro moved v ⟨hmoved, hv⟩
        have hfree : v.Holds ([t.data, t.self] ++ (e.value.blocks ++ (moved.blocks ++ more))) :=
          hv.perm (by grind)
        refine (free_meets hfree).bind fun _ w hw => ?_
        simp only [hcreate, hmoved]
        exact hput hw
  · simp only [Table.rehashUp, rehashUp, hproduct, if_false]
    exact meets_throw ⟨⟨_, hold⟩, rfl⟩

/-- An entry that finds a slot brings its blocks into the table. -/
theorem place_meets {e : Entry Cell} {more : List Nat} {placing : Run Table}
    (hold : h.Holds (e.value.blocks ++ (t.blocks ++ more)))
    (herror : ∀ reason, place t.map e = .error reason → placing = throw (.stuck reason))
    (hok : ∀ map, place t.map e = .ok map → placing = pure { t with map }) :
    placing.Meets h (fun t' u => place t.map e = .ok t'.map ∧ u.Holds (t'.blocks ++ more))
      (Halted o input_file fun reason => place t.map e = .error reason) := by
  cases hplaced : place t.map e with
  | error reason =>
      rw [herror reason hplaced]
      exact meets_throw ⟨⟨_, hold⟩, rfl⟩
  | ok map =>
      rw [hok map hplaced]
      refine meets_pure ⟨rfl, hold.perm ?_⟩
      have hcells := cells_place hplaced
      simp only [Table.blocks]
      grind

/-- `raw_put` keeps all blocks, through any nested rehashes. -/
theorem raw_put_puts (depth : Nat) :
    Puts o input_file (fun t e => t.raw_put o depth e) (raw_put depth) := by
  induction depth with
  | zero =>
      intro h t e more hold
      refine (touch_meets hold (by simp [Table.blocks, Cell.blocks])).bind fun _ u hu => ?_
      simp only [raw_put]
      split
      · exact place_meets hu (fun reason hplaced => by rw [hplaced]) fun map hplaced => by rw [hplaced]
      · exact meets_throw ⟨⟨_, hu⟩, rfl⟩
  | succ depth ih =>
      intro h t e more hold
      refine (touch_meets hold (by simp [Table.blocks, Cell.blocks])).bind fun _ u hu => ?_
      simp only [raw_put]
      split
      · exact place_meets hu (fun reason hplaced => by rw [hplaced]) fun map hplaced => by rw [hplaced]
      · exact rehashUp_meets ih hu

end Insertion

section Words
variable {key : K} {number key_block value_block word input : Nat} {seen words : List K}

/-- Without its blocks, an insertion is the one of the other modules. -/
theorem raw_put_counts (depth : Nat) (t : Table) (e : Entry Cell) :
    put depth t.counts e.key e.value.number = (raw_put depth t.map e).map (Hashmap.mapValues Cell.number) :=
  raw_put_mapValues depth t.map e

theorem put_meets (hold : h.Holds (key_block :: value_block :: (t.blocks ++ more))) :
    (t.put o depth key number key_block value_block).Meets h
      (fun t' u => put depth t.counts key number = .ok t'.counts ∧ u.Holds (t'.blocks ++ more))
      (Halted o input_file fun reason => put depth t.counts key number = .error reason) := by
  refine (malloc_meets hold).bind ?_
  rintro p u ⟨hu, hrefused⟩
  cases p with
  | none =>
      have htaken : u.Holds (t.blocks ++ ([key_block, value_block] ++ more)) := hu.perm (by simp; grind)
      exact perror_if_meets htaken (Or.inl (hrefused rfl))
  | some entry =>
      refine (touch_meets hu (by simp)).bind fun _ v hv => ?_
      have hcounts := raw_put_counts depth t ⟨key, ⟨number, key_block, value_block, entry⟩⟩
      have hready : v.Holds (Cell.blocks ⟨number, key_block, value_block, entry⟩ ++ (t.blocks ++ more)) :=
        hv.perm (by simp [Cell.blocks]; grind)
      have hputs : Puts o input_file (fun t e => t.raw_put o depth e) (raw_put depth) := raw_put_puts depth
      refine (hputs hready).imp ?_ ?_
      · rintro t' w ⟨hput, hw⟩
        rw [hput] at hcounts
        exact ⟨hcounts, hw⟩
      · intro halt w hhalt
        refine hhalt.imp fun reason hreason => ?_
        rw [hreason] at hcounts
        exact hcounts

/-- A word is counted as on the table alone. -/
theorem countWord_meets (input_file : Text) (hpos : 0 < t.map.arr_size) (hold : h.Holds (t.blocks ++ [word, input])) :
    (t.countWord o depth word input key).Meets h
      (fun t' u => countWord depth t.counts key = .ok t'.counts ∧ u.Holds (t'.blocks ++ [word, input]))
      (Halted o input_file fun reason => countWord depth t.counts key = .error reason) := by
  refine (touch_meets hold (by simp)).bind fun _ u hu => ?_
  refine (malloc_meets hu).bind ?_
  rintro p v ⟨hv, hrefused⟩
  cases p with
  | none =>
      have htaken : v.Holds (t.blocks ++ ([word, input] ++ [])) := hv
      exact perror_if_meets htaken (Or.inl (hrefused rfl))
  | some key_block =>
      refine (touch_meets hv (by simp)).bind fun _ w hw => ?_
      refine (malloc_meets hw).bind ?_
      rintro q x ⟨hx, hrefused⟩
      cases q with
      | none =>
          have htaken : x.Holds (t.blocks ++ ([word, key_block, input] ++ [])) := by
            refine hx.perm ?_
            simp only [Option.toList_none, Option.toList_some, List.nil_append, List.cons_append]
            grind
          exact perror_if_meets htaken (Or.inl (hrefused rfl))
      | some value_block =>
          have hlive : ∀ b ∈ key_block :: t.blocks,
              b ∈ (some value_block).toList ++ ((some key_block).toList ++ (t.blocks ++ [word, input])) := by
            simp +contextual
          refine (touch_meets hx hlive).bind fun _ y hy => ?_
          have hready : y.Holds (key_block :: value_block :: (t.blocks ++ [word, input])) :=
            hy.perm (List.Perm.swap ..)
          rw [countWord, Table.counts, get_mapValues]
          cases hget : get t.map key with
          | none =>
              refine (touch_meets hready (by simp)).bind fun _ z hz => ?_
              exact put_meets hz
          | some old =>
              obtain ⟨e, he, rfl⟩ := xremove_of_get hpos hget
              have hcells : (cells (entries t.map)).Perm
                  (e.value.blocks ++ cells (entries (xremove t.map key).1)) := by
                rw [← cells_cons]
                exact (entries_xremove hpos he).flatMap_right _
              have hvalue : e.value.value ∈ t.blocks :=
                List.mem_append_left _ (hcells.mem_iff.mpr (by simp [Cell.blocks]))
              refine (touch_meets hready (by simp [hvalue])).bind fun _ z hz => ?_
              simp only [he]
              have hfree : z.Holds (e.value.blocks ++ (key_block :: value_block ::
                  (Table.blocks { t with map := (xremove t.map key).1 } ++ [word, input]))) :=
                hz.perm (by simp only [Table.blocks]; grind)
              refine (freeEntry_meets hfree).bind fun _ z' hz' => ?_
              simp only [Option.map_some, xremove_mapValues]
              exact put_meets hz'

/-- The loop of `countWords` stays inside its blocks and counts the words that it meets. -/
theorem countLoop_meets (input_file : Text) {s : Scanner} {input_data : Text} (hscan : scan s input_data = some words)
    (hcounted : Counted t.counts seen) (hold : h.Holds (t.blocks ++ [word, input])) :
    (Table.countLoop o (depth + 1) word input t s input_data).Meets h
      (fun t' u => Counted t'.counts (seen ++ words) ∧ u.Holds (t'.blocks ++ [word, input]))
      (Halted o input_file fun reason =>
        reason = .conversion ∧ maxWords < (seen ++ words).toFinset.card) := by
  induction input_data generalizing t s seen words h with
  | nil =>
      obtain rfl := Option.some.inj hscan
      rw [List.append_nil]
      exact meets_pure ⟨hcounted, hold⟩
  | cons c input_data ih =>
      rw [scan] at hscan
      refine (touch_meets hold (by simp)).bind fun _ u hu => ?_
      cases hturn : s.turn c with
      | none =>
          rw [hturn] at hscan
          cases hscan
      | some next =>
          obtain ⟨s', found⟩ := next
          rw [hturn] at hscan
          cases found with
          | none => exact ih hscan hcounted hu
          | some key =>
              obtain ⟨rest, hrest, rfl⟩ := Option.map_eq_some_iff.mp hscan
              have hstep := hcounted.step key depth
              have hpos : 0 < t.map.arr_size := hcounted.sized.arr_size_pos
              refine (countWord_meets input_file hpos hu).bind_imp ?_ ?_
              · intro halt v hhalt
                refine hhalt.imp fun reason hreason => ?_
                rcases hstep with ⟨-, map', hcount, -⟩ | ⟨hmany, hcount⟩
                · cases hreason.symm.trans hcount
                · refine ⟨Except.error.inj (hreason.symm.trans hcount), hmany.trans_le ?_⟩
                  apply Finset.card_le_card
                  intro k hk
                  simp only [List.mem_toFinset, List.mem_append, List.mem_cons] at hk ⊢
                  tauto
              · rintro t' v ⟨hcount, hv⟩
                rw [List.append_cons]
                rcases hstep with ⟨-, map', hcount', hcounted'⟩ | ⟨-, hcount'⟩
                · obtain rfl := Except.ok.inj (hcount'.symm.trans hcount)
                  exact ih hrest hcounted' hv
                · cases hcount'.symm.trans hcount

end Words

end Memory

end OtusCProg.HashmapOpen
