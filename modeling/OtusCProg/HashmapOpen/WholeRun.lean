import OtusCProg.HashmapOpen.Memory

/-!
# A whole run of the word counter

From the name of a file to the report, whatever the allocator and the file system
answer. The keys that `printDescending` tells apart by address lie in blocks that
are live at the same time.
-/

namespace OtusCProg.HashmapOpen
open Library Allocator Attempt

section Reading
variable {o : Outside} {input_file file : Text} {P : Stuck → Prop} {h : Allocator} {t : Table}

theorem grow_meets {E : Halt → Allocator → Prop} {buf : Nat} {more : List Nat} (r : Codepage.Reader)
    (hold : h.Holds (buf :: more)) :
    (Table.grow o buf r).Meets h (fun p u => (∃ new, p = some new ∧ u.Holds (new :: more)) ∨
      p = none ∧ u.Holds (buf :: more) ∧ ∃ n, o.grants n = false) E := by
  rw [Table.grow]
  split
  · exact realloc_meets hold
  · exact meets_pure (Or.inl ⟨buf, rfl, hold⟩)

/-- The loop of `read_file` keeps one block, which holds the file at the end. -/
theorem read_loop_meets {fuel n buf : Nat} {r : Codepage.Reader} (hinv : r.Inv file)
    (hfuel : r.left file < fuel) (hold : h.Holds (t.blocks ++ [buf])) :
    (t.read_loop o file fuel n buf r).Meets h
      (fun read u => read.2.buf.take read.2.file_sz = file ∧ u.Holds (t.blocks ++ [read.1]))
      (Halted o input_file P) := by
  induction fuel generalizing n buf r h with
  | zero => omega
  | succ fuel ih =>
      rw [Table.read_loop]
      cases heof : r.eof with
      | true =>
          refine meets_pure ⟨?_, hold⟩
          rw [hinv.buf_eq, (hinv.at_end heof).1, List.take_length, List.take_length]
      | false =>
          have hswap : h.Holds (buf :: t.blocks) := hold.perm List.perm_append_comm
          refine (grow_meets r hswap).bind ?_
          rintro p u (⟨new, rfl, hu⟩ | ⟨rfl, hu, hrefused⟩)
          · refine (touch_meets hu (by simp)).bind fun _ v hv => ?_
            have hback : v.Holds (t.blocks ++ [new]) := hv.perm (List.perm_append_singleton new t.blocks).symm
            by_cases herror : o.ferror n = true
            · simp only [herror, if_true]
              have htaken : v.Holds (t.blocks ++ ([new] ++ [])) := hback
              exact perror_if_meets htaken (Or.inr (Or.inr (Or.inl ⟨n, herror⟩)))
            · simp only [herror]
              obtain ⟨hnext, hless⟩ := hinv.turn heof
              exact ih hnext (by omega) hback
          · have htaken : u.Holds (t.blocks ++ ([] ++ [buf])) := hu.perm (by simp; grind)
            exact perror_if_meets htaken (Or.inl hrefused)

theorem read_file_meets {fuel : Nat}
    (hfuel : ∀ file, o.fopen input_file = some file → file.length + 1 < fuel) (hold : h.Holds t.blocks) :
    (t.read_file o input_file fuel).Meets h
      (fun read u => o.fopen input_file = some read.2 ∧ u.Holds (t.blocks ++ [read.1]))
      (Halted o input_file P) := by
  have htaken : h.Holds (t.blocks ++ ([] ++ [])) := by simpa using hold
  rw [Table.read_file]
  cases hopen : o.fopen input_file with
  | none => exact perror_if_meets htaken (Or.inr (Or.inl hopen))
  | some file =>
      have hlong := hfuel file hopen
      refine (malloc_meets hold).bind ?_
      rintro p u ⟨hu, hrefused⟩
      cases p with
      | none =>
          have htaken : u.Holds (t.blocks ++ ([] ++ [])) := by simpa using hu
          exact perror_if_meets htaken (Or.inl (hrefused rfl))
      | some buf =>
          have hleft : Codepage.Reader.left file ⟨[], 4096, 0, false⟩ < fuel :=
            (Codepage.Reader.left_start file).trans_lt hlong
          have hback : u.Holds (t.blocks ++ [buf]) := hu.perm (List.perm_append_singleton buf t.blocks).symm
          refine (read_loop_meets (Codepage.Reader.inv_start file) hleft hback).bind ?_
          rintro ⟨last, r⟩ v ⟨hread, hv⟩
          by_cases hclose : o.fclose = true
          · simp only [hclose, if_true]
            exact meets_pure ⟨by rw [hread], hv⟩
          · simp only [hclose]
            have htaken : v.Holds (t.blocks ++ ([last] ++ [])) := hv
            exact perror_if_meets htaken (Or.inr (Or.inr (Or.inr (Bool.eq_false_iff.mpr hclose))))

end Reading

/-- The words that the program counts: the runs of the file that a delimiter follows, each cut to
127 bytes. -/
def Outside.Words (o : Outside) (input_file : Text) (words : List K) : Prop :=
  ∃ file, o.fopen input_file = some file ∧
    words.map CString.bytes = (closedRuns isDelimiter file).map (List.take 127)

/-- One line for each different word, with the number of times it occurs, the largest first. -/
structure Reports (words : List K) (lines : List (Nat × K)) : Prop where
  sorted : lines.Pairwise fun a b => b.1 ≤ a.1
  nodup : (lines.map Prod.snd).Nodup
  counts : ∀ value word, (value, word) ∈ lines ↔ word ∈ words ∧ value = words.count word % 2 ^ 64

section Counting
variable {o : Outside} {input_file : Text} {h : Allocator} {t : Table} {words : List K}

/-- Why counting may get stuck: the table cannot grow to hold so many different words. -/
def TooMany (o : Outside) (input_file : Text) (reason : Stuck) : Prop :=
  reason = .conversion ∧ ∃ words, o.Words input_file words ∧ maxWords < words.toFinset.card

theorem countWords_meets {depth fuel : Nat}
    (hfuel : ∀ file, o.fopen input_file = some file → file.length + 1 < fuel) :
    (Table.countWords o (depth + 1) fuel input_file).Meets Allocator.start
      (fun t u => (∃ words, o.Words input_file words ∧ Counted t.counts words) ∧ u.Holds t.blocks)
      (Halted o input_file (TooMany o input_file)) := by
  obtain ⟨map, hcreate, hempty⟩ := createHashmap_counted
  rw [createHashmap_mapValues (f := Cell.number)] at hcreate
  refine (create_meets input_file 2 (1 / 2) 2 holds_start).bind_imp ?_ ?_
  · intro halt u hhalt
    refine hhalt.imp fun reason hreason => ?_
    rw [hreason] at hcreate
    cases hcreate
  · rintro t u ⟨hmap, hu⟩
    rw [hmap] at hcreate
    obtain rfl : t.counts = map := Except.ok.inj hcreate
    rw [List.append_nil] at hu
    refine (read_file_meets hfuel hu).bind ?_
    rintro ⟨input, file⟩ v ⟨hopen, hv⟩
    refine (malloc_meets hv).bind ?_
    rintro p w ⟨hw, hrefused⟩
    cases p with
    | none =>
        have htaken : w.Holds (t.blocks ++ ([input] ++ [])) := hw
        exact perror_if_meets htaken (Or.inl (hrefused rfl))
    | some word =>
        obtain ⟨words, hscan, hwords⟩ := (Scanner.start_holds o.block).scan_eq file
        have hfound : o.Words input_file words := ⟨file, hopen, hwords⟩
        have hmiddle : (word :: (t.blocks ++ [input])).Perm (t.blocks ++ [word, input]) :=
          List.perm_middle.symm
        have hready : w.Holds (t.blocks ++ [word, input]) := hw.perm hmiddle
        refine (countLoop_meets input_file hscan hempty hready).bind_imp ?_ ?_
        · intro halt x hhalt
          exact hhalt.imp fun reason hreason => ⟨hreason.1, words, hfound, hreason.2⟩
        · rintro t' x ⟨hcounted, hx⟩
          have hfree : x.Holds ([word, input] ++ t'.blocks) := hx.perm List.perm_append_comm
          refine (free_meets hfree).bind fun _ y hy => ?_
          exact meets_pure ⟨⟨words, hfound, hcounted⟩, hy⟩

/-- Different entries have their keys in different blocks. -/
theorem distinctPointers_of_holds (hold : h.Holds t.blocks) :
    DistinctPointers t.counts fun j => ((t.map.data j).map (·.value.key)).getD 0 := by
  let Apart (j k : Nat) : Prop := ∀ e, t.map.data j = some e → ∀ e', t.map.data k = some e' →
    List.Disjoint e.value.blocks e'.value.blocks
  have happart : (List.range t.map.arr_size).Pairwise Apart := by
    have hentries := (List.nodup_flatMap.mp (List.nodup_append.mp hold.nodup).1).2
    rwa [entries, entriesBelow, List.pairwise_filterMap] at hentries
  have hsymm : Std.Symm Apart := ⟨fun j k hjk e he e' he' => (hjk e' he' e he).symm⟩
  intro j hj k hk hsame
  obtain ⟨hjlt, hjsome⟩ := mem_occupied.mp hj
  obtain ⟨hklt, hksome⟩ := mem_occupied.mp hk
  by_contra hne
  obtain ⟨e, he⟩ : ∃ e, t.map.data j = some e := by
    simpa [Table.counts, Hashmap.mapValues, Option.isSome_iff_exists] using hjsome
  obtain ⟨e', he'⟩ : ∃ e, t.map.data k = some e := by
    simpa [Table.counts, Hashmap.mapValues, Option.isSome_iff_exists] using hksome
  have hdisjoint := happart.forall (List.mem_range.mpr hjlt) (List.mem_range.mpr hklt) hne e he e' he'
  simp only [he, he', Option.map_some, Option.getD_some] at hsame
  exact hdisjoint (a := e.value.key) (by simp [Cell.blocks]) (by simp [Cell.blocks, hsame])

/-- The report of a table that counted some words is the one of these words. -/
theorem reports_of_counted {map : Hashmap Nat} {address : Nat → Nat} (hcounted : Counted map words)
    (hdistinct : DistinctPointers map address) (keysDesc : Nat → KeyPointer) :
    Reports words (HashmapOpen.printDescending map address keysDesc) := by
  obtain ⟨slots, hnodup, hall, hlines, -, hsorted⟩ :=
    printDescending_sorted hcounted.represents.size_eq hdistinct keysDesc
  have hslot : ∀ j, j ∈ slots ↔ j < map.arr_size ∧ (map.data j).isSome := by
    intro j
    rw [← List.mem_toFinset, hall, mem_occupied]
  refine ⟨hsorted, ?_, ?_⟩
  · rw [hlines, linesOf, List.map_filterMap, List.Nodup, List.pairwise_filterMap]
    refine hnodup.imp_of_mem ?_
    intro j k hj hk hne a ha b hb hab
    simp only [Option.map_map, Option.map_eq_some_iff, Function.comp] at ha hb
    obtain ⟨e, he, rfl⟩ := ha
    obtain ⟨e', he', rfl⟩ := hb
    exact hne (hcounted.represents.unique j ((hslot j).mp hj).1 k ((hslot k).mp hk).1 e e' he he' hab)
  · intro value word
    have hmem : (value, word) ∈ HashmapOpen.printDescending map address keysDesc ↔
        ∃ j < map.arr_size, map.data j = some ⟨word, value⟩ := by
      rw [hlines, linesOf, List.mem_filterMap]
      constructor
      · rintro ⟨j, hj, hdata⟩
        obtain ⟨e, he, heq⟩ := Option.map_eq_some_iff.mp hdata
        obtain ⟨rfl, rfl⟩ := Prod.mk.inj heq
        exact ⟨j, ((hslot j).mp hj).1, he⟩
      · rintro ⟨j, hj, hdata⟩
        exact ⟨j, (hslot j).mpr ⟨hj, by rw [hdata]; rfl⟩, by rw [hdata]; rfl⟩
    rw [hmem]
    constructor
    · rintro ⟨j, hj, hdata⟩
      have hsound := hcounted.represents.sound j hj _ hdata
      rw [tally] at hsound
      split at hsound
      · rename_i hword
        exact ⟨hword, (Option.some.inj hsound).symm⟩
      · cases hsound
    · rintro ⟨hword, rfl⟩
      exact hcounted.represents.complete word _ (if_pos hword)

theorem printDescending_meets {P : Stuck → Prop} (hcounted : Counted t.counts words)
    (hold : h.Holds t.blocks) :
    (t.printDescending o).Meets h (fun lines u => Reports words lines ∧ u.Holds t.blocks)
      (Halted o input_file P) := by
  refine (malloc_meets hold).bind ?_
  rintro p u ⟨hu, hrefused⟩
  cases p with
  | none =>
      have htaken : u.Holds (t.blocks ++ ([] ++ [])) := by simpa using hu
      exact perror_if_meets htaken (Or.inl (hrefused rfl))
  | some keysDesc =>
      refine (touch_meets hu (by simp)).bind fun _ v hv => ?_
      have hreports := reports_of_counted hcounted (distinctPointers_of_holds hold) o.pointers
      have hkeys : v.Holds ([keysDesc] ++ t.blocks) := hv
      exact (free_meets hkeys).bind fun _ w hw => meets_pure ⟨hreports, hw⟩

end Counting

section Main
variable {o : Outside} {input_file : Text}

/-- The table that `countWords` gives `main`. -/
def Outside.CountsIn (o : Outside) (depth fuel : Nat) (input_file : Text) (t : Table) : Prop :=
  ∃ u, (Table.countWords o depth fuel input_file).on Allocator.start = (.ok t, u)

theorem main_meets {depth fuel : Nat} (argv0 : Text)
    (hfuel : ∀ file, o.fopen input_file = some file → file.length + 1 < fuel) :
    (main o (depth + 1) fuel argv0 [input_file]).Meets Allocator.start
      (fun out u => ∃ words lines t left, o.Words input_file words ∧ Reports words lines ∧
        o.CountsIn (depth + 1) fuel input_file t ∧ out = (0, lines.flatMap line_text) ∧
          u.Holds left ∧ left = if words = [] then [t.data] else [])
      (Halted o input_file (TooMany o input_file)) := by
  refine (countWords_meets hfuel).of_run.bind ?_
  rintro t u ⟨hrun, ⟨words, hwords, hcounted⟩, hu⟩
  refine (printDescending_meets hcounted hu).bind ?_
  rintro lines v ⟨hreports, hv⟩
  have hall : v.Holds (t.blocks ++ []) := by rwa [List.append_nil]
  refine (destroyHashmap_meets hall).bind fun _ w hw => ?_
  refine meets_pure ⟨words, lines, t, _, hwords, hreports, ⟨u, hrun⟩, rfl, hw, ?_⟩
  have hsize : t.map.size = words.toFinset.card := hcounted.size_eq
  rw [List.append_nil, hsize]
  cases words with
  | nil => rfl
  | cons word words => simp

/-- Where the program comes to its end, it has printed the report of the words of the file; and it
comes there unless something is refused or the words are too many different ones. -/
theorem main_reports (o : Outside) (depth : Nat) {fuel : Nat} (argv0 input_file : Text)
    (hfuel : ∀ file, o.fopen input_file = some file → file.length + 1 < fuel) :
    let r := ((main o (depth + 1) fuel argv0 [input_file]).on Allocator.start).1
    (∀ status out, r = .ok (status, out) → status = 0 ∧ ∃ words lines,
      o.Words input_file words ∧ Reports words lines ∧ out = lines.flatMap line_text) ∧
    (¬o.Refuses input_file → (∀ words, o.Words input_file words → words.toFinset.card ≤ maxWords) →
      ∃ out, r = .ok (0, out)) := by
  intro r
  rcases main_meets argv0 hfuel with
    ⟨out, u, hon, words, lines, t, left, hwords, hreports, -, rfl, -⟩ | ⟨halt, u, hon, hhalted⟩
  · have hr : r = .ok (0, lines.flatMap line_text) := congrArg Prod.fst hon
    refine ⟨?_, fun _ _ => ⟨_, hr⟩⟩
    intro status out hout
    obtain ⟨rfl, rfl⟩ := Prod.mk.inj (Except.ok.inj (hr.symm.trans hout))
    exact ⟨rfl, words, lines, hwords, hreports, rfl⟩
  · have hr : r = .error halt := congrArg Prod.fst hon
    constructor
    · intro status out hout
      cases hr.symm.trans hout
    · intro hgranted hfew
      exfalso
      have hcause := hhalted.2
      cases halt with
      | exit1 => exact hgranted hcause
      | nullPointer => exact hgranted (Or.inl hcause)
      | stuck reason =>
          obtain ⟨-, words, hwords, hmany⟩ := hcause
          exact absurd (hfew words hwords) (Nat.not_le.mpr hmany)
      | writeOutside => exact hcause
      | bound => exact hcause

/-- Everything is granted, and the file holds some bytes. -/
def Outside.granting (file : Text) : Outside :=
  ⟨fun _ => true, fun _ => some file, fun _ => false, true, .zero _, fun _ => ⟨0, ⟨[], by decide⟩⟩⟩

theorem main_reports_threeWords : ∃ out,
    ((main (.granting (text "b a b\n")) 1 8 (text "wc") [text "f"]).on Allocator.start).1 = .ok (0, out) := by
  have hfuel : ∀ file, (Outside.granting (text "b a b\n")).fopen (text "f") = some file →
      file.length + 1 < 8 := by
    rintro file hopen
    obtain rfl := Option.some.inj hopen
    decide
  refine (main_reports (.granting (text "b a b\n")) 0 (text "wc") (text "f") hfuel).2 ?_ ?_
  · simp [Outside.Refuses, Outside.granting]
  · rintro words ⟨file, hopen, hwords⟩
    obtain rfl := Option.some.inj hopen
    have hlength : words.length = 3 := by
      rw [← List.length_map CString.bytes, hwords]
      decide
    exact (List.toFinset_card_le words).trans (by rw [hlength, maxWords]; decide)

/-- The program never frees or touches a block that is not live, whatever is refused. At its end
nothing is live, but for the `data` of a table without words; and it ends early by `exit(1)`, at
a table that cannot grow, or by reading through `NULL` without memory for a table. -/
theorem main_keeps_memory (o : Outside) (depth : Nat) {fuel : Nat} (argv0 : Text) (args : List Text)
    (hfuel : ∀ input_file ∈ args, ∀ file, o.fopen input_file = some file → file.length + 1 < fuel) :
    let r := (main o (depth + 1) fuel argv0 args).on Allocator.start
    ∃ live, Custody.replay Allocator.depends r.2.history = some live ∧
      (∀ out, r.1 = .ok out → live.card ≤ 1 ∧
        (live ≠ ∅ ↔ ∃ input_file, args = [input_file] ∧ o.Words input_file []) ∧
        (live ≠ ∅ → ∃ input_file ∈ args, ∃ t,
          o.CountsIn (depth + 1) fuel input_file t ∧ live = {t.data})) ∧
      (∀ halt, r.1 = .error halt → halt = .exit1 ∨ halt = .stuck .conversion ∨
        halt = .nullPointer ∧ ∃ n, o.grants n = false) := by
  intro r
  by_cases hone : ∃ input_file, args = [input_file]
  · obtain ⟨input_file, rfl⟩ := hone
    rcases main_meets argv0 (hfuel input_file (by simp)) with
      ⟨out, u, hon, words, lines, t, left, hwords, -, hcounts, -, hu, hleft⟩ |
      ⟨halt, u, hon, hhalted⟩
    · have hr : r = (.ok out, u) := hon
      refine ⟨left.toFinset, by rw [hr]; exact hu.held, ?_, by simp [hr]⟩
      intro out' _
      by_cases hnil : words = []
      · -- no word was counted, and the array of the table is left
        rw [if_pos hnil] at hleft
        have hlive : left.toFinset = {t.data} := by
          rw [hleft]
          rfl
        rw [hlive]
        refine ⟨le_rfl, ?_, fun _ => ⟨input_file, List.mem_singleton_self _, t, hcounts, rfl⟩⟩
        exact iff_of_true (Finset.singleton_ne_empty _) ⟨input_file, rfl, hnil ▸ hwords⟩
      · rw [if_neg hnil] at hleft
        have hlive : left.toFinset = ∅ := by
          rw [hleft]
          rfl
        rw [hlive]
        refine ⟨Nat.zero_le _, iff_of_false (fun hne => hne rfl) ?_, fun hne => absurd rfl hne⟩
        rintro ⟨_, hargs, file, hopen, hempty⟩
        obtain rfl : input_file = _ := List.singleton_inj.mp hargs
        obtain ⟨file', hopen', hwords'⟩ := hwords
        obtain rfl := Option.some.inj (hopen.symm.trans hopen')
        exact hnil (List.map_eq_nil_iff.mp (hwords'.trans hempty.symm))
    · have hr : r = (.error halt, u) := hon
      obtain ⟨⟨blocks, hblocks⟩, hcause⟩ := hhalted
      refine ⟨blocks.toFinset, by rw [hr]; exact hblocks.held, by simp [hr], ?_⟩
      intro halt' hhalt'
      obtain rfl : halt = halt' := Except.error.inj ((congrArg Prod.fst hr).symm.trans hhalt')
      cases halt with
      | exit1 => exact Or.inl rfl
      | nullPointer => exact Or.inr (Or.inr ⟨rfl, hcause⟩)
      | stuck reason => exact Or.inr (Or.inl (by rw [hcause.1]))
      | writeOutside => exact absurd hcause id
      | bound => exact absurd hcause id
  · have hr : r = (.ok (1, print_usage argv0), Allocator.start) := by
      show (main o (depth + 1) fuel argv0 args).on Allocator.start = _
      unfold main
      split
      · exact absurd ⟨_, rfl⟩ hone
      · rfl
    refine ⟨∅, by rw [hr]; rfl, ?_, by simp [hr]⟩
    intro out _
    refine ⟨Nat.zero_le _, iff_of_false (fun hne => hne rfl) ?_, fun hne => absurd rfl hne⟩
    rintro ⟨input_file, hargs, -⟩
    exact hone ⟨input_file, hargs⟩

/-- A file without a word leaves the array of its table. -/
theorem main_keeps_memory_noWord :
    let r := (main (.granting (text ". ,\n")) 1 8 (text "wc") [text "f"]).on Allocator.start
    r.1 = .ok (0, []) ∧ ∃ live, Custody.replay Allocator.depends r.2.history = some live ∧
      live.card ≤ 1 ∧
        ∃ t, (Outside.granting (text ". ,\n")).CountsIn 1 8 (text "f") t ∧ live = {t.data} := by
  have hend : ((main (.granting (text ". ,\n")) 1 8 (text "wc") [text "f"]).on Allocator.start).1 =
      .ok (0, []) := by decide +kernel
  have hfuel : ∀ input_file ∈ [text "f"], ∀ file,
      (Outside.granting (text ". ,\n")).fopen input_file = some file → file.length + 1 < 8 := by
    intro input_file _ file hopen
    obtain rfl := Option.some.inj hopen
    decide
  have hwords : (Outside.granting (text ". ,\n")).Words (text "f") [] := ⟨text ". ,\n", rfl, by decide⟩
  obtain ⟨live, hlive, hatEnd, -⟩ :=
    main_keeps_memory (.granting (text ". ,\n")) 0 (text "wc") [text "f"] hfuel
  obtain ⟨hcard, hsome, hdata⟩ := hatEnd _ hend
  obtain ⟨input_file, hmem, t, hcounts, heq⟩ := hdata (hsome.mpr ⟨text "f", rfl, hwords⟩)
  obtain rfl := List.mem_singleton.mp hmem
  exact ⟨hend, live, hlive, hcard, t, hcounts, heq⟩

/-- Without memory for the first table, `perror_if` reads through `NULL`. -/
example : ((main { Outside.granting [] with grants := fun _ => false } 1 2 (text "wc") [text "f"]).on
    Allocator.start).1 = .error .nullPointer := rfl

end Main

end OtusCProg.HashmapOpen
