import OtusCProg.LogReader.Sequential
import OtusCProg.LogReader.UrlDecode
import OtusCProg.Library.TopEntries

/-!
# The report of `main`

Behind the joins `main` prints the total, and the first ten entries of either
table after `qsort`. The order of the buckets and of their chains depends on the
interleaving of the workers, and so does the order of equal entries. What the
report says does not: it shows the ten largest sums of one sequential pass.
-/

namespace OtusCProg.LogReader
open Library

def TOP_N : Nat := 10

def cmp_url (a b : Text × Nat) : Int :=
  if b.2 > a.2 then 1 else if b.2 < a.2 then -1 else 0

def cmp_ref (a b : Text × Int32) : Int := (b.2 - a.2).toInt

/-- `collect_urls` and `collect_refs`: the entries of all buckets. -/
def collect {V : Type*} (buckets : Nat → List (Text × V)) : List (Text × V) :=
  ChainTable.entries HASH_SIZE buckets

/-- A comparison orders these entries. -/
structure Consistent {α : Type*} (cmp : α → α → Int) (l : List α) : Prop where
  sign : ∀ a ∈ l, ∀ b ∈ l, 0 < cmp a b ↔ cmp b a < 0
  trans : ∀ a ∈ l, ∀ b ∈ l, ∀ c ∈ l, cmp a b ≤ 0 → cmp b c ≤ 0 → cmp a c ≤ 0

/-- What `qsort` may make of an array; it breaks ties in any way. -/
structure Qsort {α : Type*} (cmp : α → α → Int) (l sorted : List α) : Prop where
  perm : sorted.Perm l
  pairwise : Consistent cmp l → sorted.Pairwise fun a b => cmp a b ≤ 0

/-- The printed numbers; a list is missing where its array is empty and so a `NULL` pointer. -/
structure Report where
  total : Nat
  urls : Option (List (Nat × Text))
  refs : Option (List (Int × Text))
deriving DecidableEq

/-- The rows that the loop prints for a sorted array. -/
def rows {α β : Type*} (row : α → β) (sorted : List α) : Option (List β) :=
  if sorted = [] then none else some ((sorted.take TOP_N).map row)

/-- What `main` may print for these totals. -/
def Prints (t : Totals) (out : Report) : Prop :=
  ∃ urls refs, Qsort cmp_url (collect t.url_map) urls ∧ Qsort cmp_ref (collect t.ref_map) refs ∧
    out = ⟨t.total_bytes, rows (fun e => (e.2, url_decode e.1)) urls,
      rows (fun e => (e.2.toInt, e.1)) refs⟩

/-- The URLs that responses with a body were sent for. -/
def url_keys (rs : List Record) : Finset Text := ((rs.filter fun r => 0 < r.bytes).map Record.url).toFinset

/-- The bytes sent for a URL, as a `size_t`. -/
def url_sum (rs : List Record) (url : Text) : Nat :=
  ((rs.filter fun r => r.url = url ∧ 0 < r.bytes).map Record.bytes).sum % 2 ^ 64

def ref_keys (rs : List Record) : Finset Text := (rs.map Record.referer).toFinset

def ref_count (rs : List Record) (referer : Text) : Int := (rs.filter (·.referer = referer)).length

/-- The rows of the keys with the ten largest values. -/
def Shows {V : Type*} [LinearOrder V] (keys : Finset Text) (value : Text → V) (show_key : Text → Text)
    (out : Option (List (V × Text))) : Prop :=
  if keys = ∅ then out = none
  else ∃ top, IsTop TOP_N keys value top ∧ out = some (top.map fun key => (value key, show_key key))

/-- The report that these records ask for. -/
structure Report.Correct (rs : List Record) (out : Report) : Prop where
  total : out.total = (rs.map Record.bytes).sum % 2 ^ 64
  urls : Shows (url_keys rs) (url_sum rs) url_decode out.urls
  refs : Shows (ref_keys rs) (ref_count rs) id out.refs

/-- The columns of numbers. -/
def Report.numbers (out : Report) : Nat × Option (List Nat) × Option (List Int) :=
  (out.total, out.urls.map (List.map Prod.fst), out.refs.map (List.map Prod.fst))

section Sorting

/-- Every array can be sorted: one that the comparison orders, by it, and any other in some way. -/
theorem exists_qsort {α : Type*} (cmp : α → α → Int) (l : List α) : ∃ sorted, Qsort cmp l sorted := by
  by_cases hcmp : Consistent cmp l
  · let le (a b : {a // a ∈ l}) : Bool := decide (cmp a b ≤ 0)
    have htrans : ∀ a b c, le a b = true → le b c = true → le a c = true := by
      intro a b c hab hbc
      simp only [le, decide_eq_true_eq] at hab hbc ⊢
      exact hcmp.trans a a.2 b b.2 c c.2 hab hbc
    have htotal : ∀ a b, (le a b || le b a) = true := by
      intro a b
      simp only [le, Bool.or_eq_true, decide_eq_true_eq]
      rcases le_or_gt (cmp a b) 0 with hab | hab
      · exact Or.inl hab
      · exact Or.inr ((hcmp.sign a a.2 b b.2).mp hab).le
    refine ⟨(l.attach.mergeSort le).map Subtype.val, ?_, fun _ => ?_⟩
    · have hperm := (l.attach.mergeSort_perm le).map Subtype.val
      rwa [List.attach_map_subtype_val] at hperm
    · rw [List.pairwise_map]
      exact (List.pairwise_mergeSort htrans htotal l.attach).imp fun h => of_decide_eq_true h
  · exact ⟨l, List.Perm.refl l, fun h => absurd h hcmp⟩

/-- There is a report for all totals. -/
theorem exists_prints (t : Totals) : ∃ out, Prints t out := by
  obtain ⟨urls, hurls⟩ := exists_qsort cmp_url (collect t.url_map)
  obtain ⟨refs, hrefs⟩ := exists_qsort cmp_ref (collect t.ref_map)
  exact ⟨_, urls, refs, hurls, hrefs, rfl⟩

theorem cmp_url_consistent (l : List (Text × Nat)) : Consistent cmp_url l where
  sign := by
    intro a _ b _
    simp only [cmp_url]
    split_ifs <;> omega
  trans := by
    intro a _ b _ c _
    simp only [cmp_url]
    split_ifs <;> omega

theorem cmp_url_nonpos {a b : Text × Nat} : cmp_url a b ≤ 0 ↔ b.2 ≤ a.2 := by
  simp only [cmp_url]
  split_ifs <;> omega

/-- Counts do not overflow, and so neither do their differences. -/
theorem cmp_ref_eq {a b : Text × Int32} (ha : 0 ≤ a.2.toInt) (hb : 0 ≤ b.2.toInt) :
    cmp_ref a b = b.2.toInt - a.2.toInt := by
  have hlta := a.2.toInt_lt
  have hltb := b.2.toInt_lt
  rw [cmp_ref, Int32.toInt_sub]
  exact Int.bmod_eq_of_le (by omega) (by omega)

theorem cmp_ref_consistent {l : List (Text × Int32)} (h : ∀ e ∈ l, 0 ≤ e.2.toInt) :
    Consistent cmp_ref l where
  sign := by
    intro a ha b hb
    rw [cmp_ref_eq (h a ha) (h b hb), cmp_ref_eq (h b hb) (h a ha)]
    omega
  trans := by
    intro a ha b hb c hc
    rw [cmp_ref_eq (h a ha) (h b hb), cmp_ref_eq (h b hb) (h c hc), cmp_ref_eq (h a ha) (h c hc)]
    omega

end Sorting

section Rows
variable {V : Type*} [LinearOrder V] {keys : Finset Text} {value : Text → V}
  {show_key : Text → Text} {out out' : Option (List (V × Text))}

theorem rows_map {α β γ : Type*} (row : β → γ) (f : α → β) (l : List α) :
    rows row (l.map f) = rows (fun a => row (f a)) l := by
  cases l with
  | nil => rfl
  | cons a l => simp [rows, Function.comp_def]

/-- The first rows of a table in falling order are those that the keys ask for. -/
theorem shows_rows {sorted : List (Text × V)}
    (hperm : sorted.Perm (keys.toList.map fun key => (key, value key)))
    (hfalling : sorted.Pairwise fun a b => b.2 ≤ a.2) :
    Shows keys value show_key (rows (fun e => (e.2, show_key e.1)) sorted) := by
  have hempty : sorted = [] ↔ keys = ∅ := by
    rw [← List.length_eq_zero_iff, hperm.length_eq, List.length_map, Finset.length_toList,
      Finset.card_eq_zero]
  unfold Shows rows
  by_cases hkeys : keys = ∅
  · rw [if_pos hkeys, if_pos (hempty.mpr hkeys)]
  · rw [if_neg hkeys, if_neg (mt hempty.mp hkeys)]
    obtain ⟨htop, hrows⟩ := isTop_take hperm hfalling TOP_N
    refine ⟨_, htop, ?_⟩
    conv_lhs => rw [hrows]
    rw [List.map_map]
    rfl

/-- Two such reports show the same numbers. -/
theorem Shows.numbers_eq (h : Shows keys value show_key out) (h' : Shows keys value show_key out') :
    out.map (List.map Prod.fst) = out'.map (List.map Prod.fst) := by
  unfold Shows at h h'
  by_cases hkeys : keys = ∅
  · rw [if_pos hkeys] at h h'
    rw [h, h']
  · rw [if_neg hkeys] at h h'
    obtain ⟨top, htop, rfl⟩ := h
    obtain ⟨top', htop', rfl⟩ := h'
    simp only [Option.map_some, List.map_map]
    exact congrArg some (htop.values_eq htop')

end Rows

section Tables
variable {t : Totals} {rs : List Record}

theorem tabulates_urls (h : Aggregated t rs) :
    Tabulates (collect t.url_map) (url_keys rs) (url_sum rs) := by
  intro url
  have hmem : url ∈ url_keys rs ↔ ∃ r ∈ rs, r.url = url ∧ 0 < r.bytes := by
    simp only [url_keys, List.mem_toFinset, List.mem_map, List.mem_filter, decide_eq_true_eq]
    constructor
    · rintro ⟨r, ⟨hr, hpos⟩, hurl⟩
      exact ⟨r, hr, hurl, hpos⟩
    · rintro ⟨r, hr, hurl, hpos⟩
      exact ⟨r, ⟨hr, hpos⟩, hurl⟩
  simp only [hmem]
  exact h.urls url

theorem values_map {V W : Type*} (f : V → W) (key : Text) (l : List (Text × V)) :
    ChainTable.values key (l.map fun e => (e.1, f e.2)) = (ChainTable.values key l).map f := by
  simp [ChainTable.values, List.filter_map, Function.comp_def]

theorem tabulates_refs (h : Aggregated t rs)
    (hcount : ∀ referer, (rs.filter (·.referer = referer)).length < 2 ^ 31) :
    Tabulates ((collect t.ref_map).map fun e => (e.1, e.2.toInt)) (ref_keys rs) (ref_count rs) := by
  intro referer
  have hmem : referer ∈ ref_keys rs ↔ ∃ r ∈ rs, r.referer = referer := by simp [ref_keys]
  simp only [hmem, values_map]
  exact h.referers referer (hcount referer)

/-- Totals that sum up the records make `main` print what the records ask for. -/
theorem Prints.correct {out : Report} (hprints : Prints t out) (h : Aggregated t rs)
    (hcount : ∀ referer, (rs.filter (·.referer = referer)).length < 2 ^ 31) : out.Correct rs := by
  obtain ⟨urls, refs, hurls, hrefs, rfl⟩ := hprints
  have hurl_perm := (tabulates_urls h).perm
  have href_perm := (tabulates_refs h hcount).perm
  refine ⟨h.total, ?_, ?_⟩
  · apply shows_rows (hurls.perm.trans hurl_perm)
    exact (hurls.pairwise (cmp_url_consistent _)).imp cmp_url_nonpos.mp
  · have hpos : ∀ e ∈ collect t.ref_map, 0 ≤ e.2.toInt := by
      intro e he
      have hentry := href_perm.mem_iff.mp (List.mem_map_of_mem he)
      obtain ⟨referer, _, heq⟩ := List.mem_map.mp hentry
      have hvalue : ref_count rs referer = e.2.toInt := (Prod.ext_iff.mp heq).2
      rw [← hvalue]
      exact Int.natCast_nonneg _
    have hsorted := hrefs.pairwise (cmp_ref_consistent hpos)
    have hfalling : (refs.map fun e => (e.1, e.2.toInt)).Pairwise fun a b => b.2 ≤ a.2 := by
      rw [List.pairwise_map]
      apply hsorted.imp_of_mem
      intro a b ha hb hle
      rw [cmp_ref_eq (hpos a (hrefs.perm.mem_iff.mp ha)) (hpos b (hrefs.perm.mem_iff.mp hb))] at hle
      exact sub_nonpos.mp hle
    have hshows : Shows (ref_keys rs) (ref_count rs) id
        (rows (fun e => (e.2, id e.1)) (refs.map fun e => (e.1, e.2.toInt))) :=
      shows_rows ((hrefs.perm.map _).trans href_perm) hfalling
    rw [rows_map] at hshows
    exact hshows

end Tables

variable {files : List (Option Text)} {n : Nat} {s : System} {out : Report}

/-- Whatever the interleaving of the workers and the order of equal entries, the report shows the
total and the ten largest sums of the records of all files; the numbers that it shows are those of
every other run over the files, with any number of workers. -/
theorem report_correct (hn : 0 < n) (h : Reachable files n s) (hended : ∀ i < n, s.workers i = .ended)
    (hcount : ∀ referer, ((all_records files).filter (·.referer = referer)).length < 2 ^ 31)
    (hprints : Prints s.totals out) :
    out.Correct (all_records files) ∧
      ∀ n' s' out', 0 < n' → Reachable files n' s' → (∀ i < n', s'.workers i = .ended) →
        Prints s'.totals out' → out'.numbers = out.numbers := by
  have hcorrect : ∀ n' s' out', 0 < n' → Reachable files n' s' → (∀ i < n', s'.workers i = .ended) →
      Prints s'.totals out' → out'.Correct (all_records files) := by
    intro n' s' out' hn' h' hended' hprints'
    exact hprints'.correct (ended_allApplied hn' h' hended').2.aggregated hcount
  have hout := hcorrect n s out hn h hended hprints
  refine ⟨hout, fun n' s' out' hn' h' hended' hprints' => ?_⟩
  have hout' := hcorrect n' s' out' hn' h' hended' hprints'
  simp only [Report.numbers, hout.total, hout'.total, hout'.urls.numbers_eq hout.urls,
    hout'.refs.numbers_eq hout.refs]

/-- The report over the two files, and that of one worker over the same files. -/
theorem report_correct_byTurns :
    ∃ s out, Reachable twoFiles 2 s ∧ Prints s.totals out ∧ out.Correct (all_records twoFiles) ∧
      ∀ n' s' out', 0 < n' → Reachable twoFiles n' s' → (∀ i < n', s'.workers i = .ended) →
        Prints s'.totals out' → out'.numbers = out.numbers := by
  obtain ⟨s, hrun, hended, -⟩ := run_byTurns
  have hreach := reachable_run .initial hrun
  obtain ⟨out, hprints⟩ := exists_prints s.totals
  have hcount : ∀ referer, ((all_records twoFiles).filter (·.referer = referer)).length < 2 ^ 31 := by
    intro referer
    have hle := List.length_filter_le (fun r : Record => r.referer = referer) (all_records twoFiles)
    rw [all_records_twoFiles] at hle ⊢
    exact lt_of_le_of_lt hle (by decide)
  exact ⟨s, out, hreach, hprints, report_correct Nat.two_pos hreach hended hcount hprints⟩

end OtusCProg.LogReader
