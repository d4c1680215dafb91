import OtusCProg.LogReader.Aggregation

/-!
# Concurrent aggregation is one sequential pass

When all workers have ended nothing is held and every file was taken, so each
structure has all records applied to it. Sums and counts do not depend on the
order, and one sequential pass applies the same records.
-/

namespace OtusCProg.LogReader
open Library

/-- What the loop of `worker` does with one record when no other thread runs. -/
def apply_record (t : Totals) (r : Record) : Totals :=
  ref_map_inc (if 0 < r.bytes then url_map_add (t.add_bytes r.bytes) r.url r.bytes else t) r.referer

/-- One sequential pass over the files. -/
def sequential (files : List (Option Text)) : Totals :=
  (all_records files).foldl apply_record .zero

/-- The values of a key in a whole table. -/
def lookup {V : Type*} (key : Text) (buckets : Nat → List (Text × V)) : List V :=
  ChainTable.values key (ChainTable.entries HASH_SIZE buckets)

/-- The structures hold what these records demand: the sum of the bytes, one entry for
each URL with bytes, and one entry for each referer. -/
structure Aggregated (t : Totals) (rs : List Record) : Prop where
  total : t.total_bytes = (rs.map Record.bytes).sum % 2 ^ 64
  urls : ∀ url, lookup url t.url_map =
    if ∃ r ∈ rs, r.url = url ∧ 0 < r.bytes then
      [((rs.filter fun r => r.url = url ∧ 0 < r.bytes).map Record.bytes).sum % 2 ^ 64]
    else []
  referers : ∀ referer, (rs.filter (·.referer = referer)).length < 2 ^ 31 →
    (lookup referer t.ref_map).map Int32.toInt =
      if ∃ r ∈ rs, r.referer = referer then [((rs.filter (·.referer = referer)).length : Int)] else []

variable {files : List (Option Text)} {n : Nat} {s : System} {t t' : Totals} {rs : List Record}

theorem slot_lt (key : Text) : slot key < HASH_SIZE := Nat.mod_lt _ (by decide)

/-- Everything demanded has been applied. -/
def AllApplied (t : Totals) (rs : List Record) : Prop := t.Sums fun part => demand part rs

/-- Tables with the same records applied have the same entries for every key. -/
theorem AllApplied.same (h : AllApplied t rs) (h' : AllApplied t' rs) :
    t.total_bytes = t'.total_bytes ∧ (∀ key, lookup key t.url_map = lookup key t'.url_map) ∧
      ∀ key, lookup key t.ref_map = lookup key t'.ref_map := by
  refine ⟨h.total.trans h'.total.symm, fun key => ?_, fun key => ?_⟩
  · exact (h.url.entries (slot_lt key)).trans (h'.url.entries (slot_lt key)).symm
  · exact (h.ref.entries (slot_lt key)).trans (h'.ref.entries (slot_lt key)).symm

theorem sum_wanted (rs : List Record) :
    ((rs.filter (Part.total.wants)).map Record.bytes).sum = (rs.map Record.bytes).sum := by
  induction rs with
  | nil => rfl
  | cons r rs ih =>
      by_cases hpos : 0 < r.bytes
      · rw [List.filter_cons_of_pos (by simp [Part.wants, hpos]), List.map_cons, List.map_cons,
          List.sum_cons, List.sum_cons, ih]
      · have hzero : r.bytes = 0 := by omega
        rw [List.filter_cons_of_neg (by simp [Part.wants, hzero]), List.map_cons, List.sum_cons, ih,
          hzero, Nat.zero_add]

/-- Applying everything gives the sums the records demand. -/
theorem AllApplied.aggregated (h : AllApplied t rs) : Aggregated t rs := by
  refine ⟨?_, fun url => ?_, fun referer hlt => ?_⟩
  · rw [h.total, bytes_sum, demand, Multiset.map_coe, Multiset.sum_coe, sum_wanted]
  · have hfilter : (demand .url rs).filter (·.url = url) =
        ((rs.filter fun r => r.url = url ∧ 0 < r.bytes : List Record) : Multiset Record) := by
      rw [demand, Multiset.filter_coe, List.filter_filter]
      congr 1
      apply List.filter_congr
      intro r _
      simp [Part.wants]
    rw [lookup, h.url.entries (slot_lt url), ChainTable.summaries, hfilter, bytes_sum,
      Multiset.coe_card, Multiset.map_coe, Multiset.sum_coe]
    have hiff : (rs.filter fun r => r.url = url ∧ 0 < r.bytes).length = 0 ↔
        ¬∃ r ∈ rs, r.url = url ∧ 0 < r.bytes := by
      rw [List.length_eq_zero_iff, List.filter_eq_nil_iff]
      simp
    by_cases hex : ∃ r ∈ rs, r.url = url ∧ 0 < r.bytes
    · rw [if_neg (fun hzero => hiff.mp hzero hex), if_pos hex]
    · rw [if_pos (hiff.mpr hex), if_neg hex]
  · have hfilter : (demand .ref rs).filter (·.referer = referer) =
        ((rs.filter (·.referer = referer) : List Record) : Multiset Record) := by
      rw [demand, Multiset.filter_coe, List.filter_filter]
      congr 1
      apply List.filter_congr
      intro r _
      simp [Part.wants]
    rw [lookup, h.ref.entries (slot_lt referer), ChainTable.summaries, hfilter, Multiset.coe_card]
    have hiff : (rs.filter (·.referer = referer)).length = 0 ↔ ¬∃ r ∈ rs, r.referer = referer := by
      rw [List.length_eq_zero_iff, List.filter_eq_nil_iff]
      simp
    by_cases hex : ∃ r ∈ rs, r.referer = referer
    · rw [if_neg (fun hzero => hiff.mp hzero hex), if_pos hex, List.map_singleton,
        Int32.toInt_ofNat_of_lt hlt]
    · rw [if_pos (hiff.mpr hex), if_neg hex]
      rfl

theorem demand_concat (part : Part) (r : Record) :
    demand part (rs ++ [r]) = if part.wants r then r ::ₘ demand part rs else demand part rs := by
  rw [demand_append]
  by_cases hwants : part.wants r = true
  · rw [if_pos hwants, demand_cons_of_wants hwants, demand_nil, Multiset.add_cons, add_zero]
  · rw [if_neg hwants, demand_cons_of_not (by simpa using hwants), demand_nil, add_zero]

/-- The sequential pass applies one record after the other. -/
theorem AllApplied.apply_record (h : AllApplied t rs) {r : Record} (hlt : r.bytes < 2 ^ 64) :
    AllApplied (apply_record t r) (rs ++ [r]) := by
  have hdemand : (fun part => demand part (rs ++ [r])) = fun part =>
      if part.wants r then r ::ₘ demand part rs else demand part rs :=
    funext fun part => demand_concat part r
  rw [AllApplied, hdemand]
  unfold LogReader.apply_record
  by_cases hpos : 0 < r.bytes
  · rw [if_pos hpos]
    convert ((h.add_bytes (r := r)).url_map_add hpos hlt).ref_map_inc (r := r) using 1
    funext part
    cases part <;> simp [apply_one, Part.wants, hpos]
  · rw [if_neg hpos]
    convert h.ref_map_inc (r := r) using 1
    funext part
    cases part <;> simp [apply_one, Part.wants, hpos]

theorem recordsUpTo_bytes_lt (k : Nat) (content : Text) : ∀ r ∈ recordsUpTo k content, r.bytes < 2 ^ 64 := by
  induction k generalizing content with
  | zero => exact nofun
  | succ k ih =>
      intro r hr
      unfold recordsUpTo at hr
      split at hr
      · cases hr
      · rcases List.mem_append.mp hr with hline | hrest
        · rw [Option.mem_toList] at hline
          exact parse_log_line_bytes_lt hline
        · exact ih _ r hrest

theorem all_records_bytes_lt : ∀ r ∈ all_records files, r.bytes < 2 ^ 64 := by
  intro r hr
  obtain ⟨file, _, hr⟩ := List.mem_flatMap.mp hr
  cases file with
  | none => cases hr
  | some content => exact recordsUpTo_bytes_lt _ content r hr

/-- The sequential pass over more records. -/
theorem AllApplied.foldl (h : AllApplied t rs) (more : List Record)
    (hlt : ∀ r ∈ more, r.bytes < 2 ^ 64) :
    AllApplied (more.foldl LogReader.apply_record t) (rs ++ more) := by
  induction more generalizing t rs with
  | nil =>
      rw [List.append_nil]
      exact h
  | cons r more ih =>
      have hnext := ih (h.apply_record (hlt r List.mem_cons_self))
        fun r' hr' => hlt r' (List.mem_cons_of_mem _ hr')
      rw [List.append_assoc] at hnext
      exact hnext

theorem sequential_allApplied : AllApplied (sequential files) (all_records files) := by
  have hzero : AllApplied .zero [] := sums_zero
  exact hzero.foldl _ all_records_bytes_lt

/-- When all workers have ended, every file was taken and every record applied. -/
theorem ended_allApplied (hn : 0 < n) (h : Reachable files n s) (hended : ∀ i < n, s.workers i = .ended) :
    s.taken.map Prod.snd = List.range files.length ∧ AllApplied s.totals (all_records files) := by
  obtain ⟨hc, applied, ha⟩ := reachable_inv h
  have hnext : s.next = files.length := (hc.ended 0 (hended 0 hn)).2
  refine ⟨hnext ▸ hc.taken, ?_⟩
  have happlied : applied = fun part => demand part (all_records files) := by
    funext part
    have hheld : held files n part s = 0 := by
      apply Finset.sum_eq_zero
      intro i hi
      rw [hended i (Finset.mem_range.mp hi)]
      rfl
    have hbalance := ha.balance part
    rw [hheld, hnext, List.drop_length, all_records, List.flatMap_nil, demand_nil, add_zero,
      add_zero] at hbalance
    exact hbalance
  rw [AllApplied, ← happlied]
  exact ha.sums

/-- No run gets stuck, no file is taken twice, and when all workers have ended every file was
taken once and the totals are those of one sequential pass. -/
theorem aggregation_eq_sequential (hn : 0 < n) (h : Reachable files n s) :
    ((∃ i < n, s.workers i ≠ .ended) →
        ∃ e, (∀ j, e ≠ .spurious j) ∧ (step files s n e).isSome = true) ∧
      (s.taken.map Prod.snd).Nodup ∧ (∀ p ∈ s.taken, p.1 < n) ∧
      ((∀ i < n, s.workers i = .ended) →
        s.taken.map Prod.snd = List.range files.length ∧
          Aggregated s.totals (all_records files) ∧
          s.totals.total_bytes = (sequential files).total_bytes ∧
          (∀ url, lookup url s.totals.url_map = lookup url (sequential files).url_map) ∧
          ∀ referer, lookup referer s.totals.ref_map = lookup referer (sequential files).ref_map) := by
  obtain ⟨hc, _⟩ := reachable_inv h
  refine ⟨?_, ?_, hc.takers, fun hended => ?_⟩
  · rintro ⟨i, hi, hw⟩
    exact enabled_of_not_ended hc hi hw
  · rw [hc.taken]
    exact List.nodup_range
  · obtain ⟨htaken, happlied⟩ := ended_allApplied hn h hended
    exact ⟨htaken, happlied.aggregated, happlied.same sequential_allApplied⟩

/-- The state after these events, if each can happen. -/
def run (files : List (Option Text)) (n : Nat) : List Event → System → Option System
  | [], s => some s
  | e :: es, s => (step files s n e).bind (run files n es)

theorem reachable_run (h : Reachable files n s) {es : List Event} {s' : System}
    (hrun : run files n es s = some s') : Reachable files n s' := by
  induction es generalizing s with
  | nil => exact Option.some.inj hrun ▸ h
  | cons e es ih =>
      obtain ⟨s₁, hstep, hrest⟩ := Option.bind_eq_some_iff.mp hrun
      exact ih (h.step hstep) hrest

/-- Two files: a URL that both ask for, a response without a body, and a line that is no record. -/
def twoFiles : List (Option Text) :=
  [some (text "1.2.3.4 - - [t] \"GET /a HTTP/1.1\" 200 512 \"-\" \"ua\"\n" ++
      text "1.2.3.4 - - [t] \"GET /b HTTP/1.1\" 304 - \"/a\" \"ua\"\n"),
    some (text "5.6.7.8 - - [t] \"GET /a HTTP/1.1\" 200 16 \"-\" \"ua\"\n" ++ text "no record\n")]

/-- The two workers by turns, between the two steps of `main`. -/
def byTurns : List Event :=
  .main :: (List.replicate 9 [Event.worker 1, .worker 0]).flatten ++ [.worker 1, .main]

/-- Both workers come to their end, and each has taken a file. -/
theorem run_byTurns : ∃ s, run twoFiles 2 byTurns .initial = some s ∧
    (∀ i < 2, s.workers i = .ended) ∧ s.taken = [(1, 0), (0, 1)] := by
  have hends : (run twoFiles 2 byTurns .initial).map
      (fun s => (s.workers 0, s.workers 1, s.taken)) = some (.ended, .ended, [(1, 0), (0, 1)]) := by
    decide +kernel
  obtain ⟨s, hs, hend⟩ := Option.map_eq_some_iff.mp hends
  obtain ⟨hzero, hrest⟩ := Prod.mk.inj hend
  obtain ⟨hone, htaken⟩ := Prod.mk.inj hrest
  refine ⟨s, hs, fun i hi => ?_, htaken⟩
  obtain rfl | rfl : i = 0 ∨ i = 1 := by omega
  · exact hzero
  · exact hone

theorem all_records_twoFiles : all_records twoFiles =
    [⟨text "/a", 512, text "-"⟩, ⟨text "/b", 0, text "/a"⟩, ⟨text "/a", 16, text "-"⟩] := by
  decide +kernel

theorem aggregation_eq_sequential_byTurns :
    ∃ s, Reachable twoFiles 2 s ∧ (∀ i < 2, s.workers i = .ended) ∧
      s.taken = [(1, 0), (0, 1)] ∧
      Aggregated s.totals
        [⟨text "/a", 512, text "-"⟩, ⟨text "/b", 0, text "/a"⟩, ⟨text "/a", 16, text "-"⟩] ∧
      s.totals.total_bytes = (sequential twoFiles).total_bytes ∧
      (∀ url, lookup url s.totals.url_map = lookup url (sequential twoFiles).url_map) ∧
      ∀ referer, lookup referer s.totals.ref_map = lookup referer (sequential twoFiles).ref_map := by
  obtain ⟨s, hrun, hended, htaken⟩ := run_byTurns
  have hreach := reachable_run .initial hrun
  obtain ⟨-, -, -, hjoined⟩ := aggregation_eq_sequential Nat.two_pos hreach
  obtain ⟨-, haggregated, hsame⟩ := hjoined hended
  rw [all_records_twoFiles] at haggregated
  exact ⟨s, hreach, hended, htaken, haggregated, hsame⟩

end OtusCProg.LogReader
