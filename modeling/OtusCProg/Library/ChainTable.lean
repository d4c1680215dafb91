import Mathlib.Data.Multiset.Filter
import Mathlib.Logic.Function.Basic

/-!
# A hash table of chains that accumulates records

Every key has a slot, and every slot a chain of entries. Recording a record
updates the entry of its key, or puts a first entry in front of the chain. The
table then holds, for every key, one entry that depends only on the multiset
of the records with that key.
-/

namespace OtusCProg.Library.ChainTable

variable {K V R : Type*} [DecidableEq K]

/-- Update the first entry of the key, if there is one. -/
def bump (key : K) (update : V → V) : List (K × V) → Option (List (K × V))
  | [] => none
  | e :: rest =>
      if e.1 = key then some ((e.1, update e.2) :: rest) else (bump key update rest).map (e :: ·)

/-- Update the entry of the key, or put a first one in front. -/
def upsert (key : K) (update : V → V) (first : V) (chain : List (K × V)) : List (K × V) :=
  (bump key update chain).getD ((key, first) :: chain)

/-- The values stored under a key. -/
def values (key : K) (chain : List (K × V)) : List V :=
  (chain.filter (·.1 = key)).map Prod.snd

section Chains
variable {key other : K} {update : V → V} {first : V} {chain chain' : List (K × V)}

@[simp] theorem values_nil : values key ([] : List (K × V)) = [] := rfl

theorem values_cons_self (v : V) : values key ((key, v) :: chain) = v :: values key chain := by
  simp [values]

theorem values_cons_of_ne {e : K × V} (h : e.1 ≠ key) : values key (e :: chain) = values key chain := by
  simp [values, h]

theorem bump_none (h : bump key update chain = none) : values key chain = [] := by
  induction chain with
  | nil => rfl
  | cons e rest ih =>
      by_cases he : e.1 = key
      · simp [bump, he] at h
      · simp only [bump, if_neg he, Option.map_eq_none_iff] at h
        rw [values_cons_of_ne he, ih h]

theorem bump_some_self (h : bump key update chain = some chain') :
    ∃ v rest, values key chain = v :: rest ∧ values key chain' = update v :: rest := by
  induction chain generalizing chain' with
  | nil => cases h
  | cons e rest ih =>
      obtain ⟨k, v⟩ := e
      by_cases he : k = key
      · subst he
        simp only [bump, if_true, Option.some.injEq] at h
        subst h
        exact ⟨v, values k rest, values_cons_self v, values_cons_self (update v)⟩
      · simp only [bump, if_neg he, Option.map_eq_some_iff] at h
        obtain ⟨rest', hrest, rfl⟩ := h
        rw [values_cons_of_ne he, values_cons_of_ne he]
        exact ih hrest

theorem bump_some_other (h : bump key update chain = some chain') (hne : other ≠ key) :
    values other chain' = values other chain := by
  induction chain generalizing chain' with
  | nil => cases h
  | cons e rest ih =>
      by_cases he : e.1 = key
      · simp only [bump, if_pos he, Option.some.injEq] at h
        subst h
        have heo : e.1 ≠ other := by
          rintro rfl
          exact hne he
        rw [values_cons_of_ne heo]
        exact values_cons_of_ne heo
      · simp only [bump, if_neg he, Option.map_eq_some_iff] at h
        obtain ⟨rest', hrest, rfl⟩ := h
        by_cases heo : e.1 = other
        · obtain ⟨k, v⟩ := e
          obtain rfl : k = other := heo
          rw [values_cons_self, values_cons_self, ih hrest]
        · rw [values_cons_of_ne heo, values_cons_of_ne heo, ih hrest]

/-- Keys of entries stay as they are. -/
theorem bump_some_keys (h : bump key update chain = some chain') :
    chain'.map Prod.fst = chain.map Prod.fst := by
  induction chain generalizing chain' with
  | nil => cases h
  | cons e rest ih =>
      by_cases he : e.1 = key
      · simp only [bump, if_pos he, Option.some.injEq] at h
        subst h
        rfl
      · simp only [bump, if_neg he, Option.map_eq_some_iff] at h
        obtain ⟨rest', hrest, rfl⟩ := h
        rw [List.map_cons, List.map_cons, ih hrest]

theorem values_upsert_self (key : K) (update : V → V) (first : V) (chain : List (K × V)) :
    (values key chain = [] ∧ values key (upsert key update first chain) = [first]) ∨
      ∃ v rest, values key chain = v :: rest ∧
        values key (upsert key update first chain) = update v :: rest := by
  unfold upsert
  cases h : bump key update chain with
  | none =>
      have hnil := bump_none h
      exact Or.inl ⟨hnil, by rw [Option.getD_none, values_cons_self, hnil]⟩
  | some chain' => exact Or.inr (bump_some_self h)

theorem values_upsert_of_ne (hne : other ≠ key) :
    values other (upsert key update first chain) = values other chain := by
  unfold upsert
  cases h : bump key update chain with
  | none => exact values_cons_of_ne (Ne.symm hne)
  | some chain' => exact bump_some_other h hne

theorem mem_keys_upsert {k : K}
    (h : k ∈ (upsert key update first chain).map Prod.fst) :
    k = key ∨ k ∈ chain.map Prod.fst := by
  unfold upsert at h
  cases hbump : bump key update chain with
  | none =>
      rw [hbump] at h
      simpa using h
  | some chain' =>
      rw [hbump, Option.getD_some, bump_some_keys hbump] at h
      exact Or.inr h

end Chains

/-- Record something under a key, in the chain of the key's slot. -/
def record (slot : K → Nat) (key : K) (update : V → V) (first : V)
    (buckets : Nat → List (K × V)) : Nat → List (K × V) :=
  Function.update buckets (slot key) (upsert key update first (buckets (slot key)))

/-- The entries of all chains, in the order of the slots. -/
def entries (size : Nat) (buckets : Nat → List (K × V)) : List (K × V) :=
  (List.range size).flatMap buckets

section Accumulate
variable {slot : K → Nat} {keyOf : R → K} {summary : Multiset R → V}
  {buckets : Nat → List (K × V)} {applied : Multiset R}

/-- The value of a key after these records: none, or one that sums them up. -/
def summaries (keyOf : R → K) (summary : Multiset R → V) (applied : Multiset R) (key : K) : List V :=
  if (applied.filter (keyOf · = key)).card = 0 then []
  else [summary (applied.filter (keyOf · = key))]

/-- Entries are in the slots of their keys and sum up the applied records. -/
structure Accumulates (slot : K → Nat) (keyOf : R → K) (summary : Multiset R → V)
    (buckets : Nat → List (K × V)) (applied : Multiset R) : Prop where
  placed : ∀ i, ∀ key ∈ (buckets i).map Prod.fst, slot key = i
  counted : ∀ key, values key (buckets (slot key)) = summaries keyOf summary applied key

theorem accumulates_empty : Accumulates slot keyOf summary (fun _ => []) 0 :=
  ⟨fun _ _ h => absurd h List.not_mem_nil, fun key => by simp [summaries]⟩

/-- Recording one more record. -/
theorem Accumulates.record (h : Accumulates slot keyOf summary buckets applied) (r : R)
    {update : V → V} (hsingle : summary {r} = first)
    (hcons : ∀ m : Multiset R, m ≠ 0 → summary (r ::ₘ m) = update (summary m)) :
    Accumulates slot keyOf summary (record slot (keyOf r) update first buckets) (r ::ₘ applied) := by
  constructor
  · intro i key hkey
    by_cases hi : i = slot (keyOf r)
    · subst hi
      rw [ChainTable.record, Function.update_self] at hkey
      rcases mem_keys_upsert hkey with rfl | hold
      · rfl
      · exact h.placed _ key hold
    · rw [ChainTable.record, Function.update_of_ne hi] at hkey
      exact h.placed i key hkey
  · intro key
    by_cases hkey : keyOf r = key
    · subst hkey
      have hfilter : (r ::ₘ applied).filter (keyOf · = keyOf r) =
          r ::ₘ applied.filter (keyOf · = keyOf r) := Multiset.filter_cons_of_pos _ rfl
      have hold := h.counted (keyOf r)
      rw [ChainTable.record, Function.update_self, summaries, hfilter,
        if_neg (by rw [Multiset.card_cons]; omega)]
      rw [summaries] at hold
      rcases values_upsert_self (keyOf r) update first (buckets (slot (keyOf r))) with
        ⟨hnil, hnew⟩ | ⟨v, rest, hvalues, hnew⟩
      · have hzero : applied.filter (keyOf · = keyOf r) = 0 := by
          by_contra hne
          rw [if_neg (mt Multiset.card_eq_zero.mp hne), hnil] at hold
          cases hold
        rw [hnew, hzero, ← hsingle]
        rfl
      · have hne : applied.filter (keyOf · = keyOf r) ≠ 0 := by
          intro hzero
          rw [if_pos (Multiset.card_eq_zero.mpr hzero), hvalues] at hold
          cases hold
        rw [if_neg (mt Multiset.card_eq_zero.mp hne), hvalues] at hold
        obtain ⟨rfl, rfl⟩ := List.cons.inj hold
        rw [hnew, hcons _ hne]
    · have hfilter : (r ::ₘ applied).filter (keyOf · = key) = applied.filter (keyOf · = key) :=
        Multiset.filter_cons_of_neg _ hkey
      rw [summaries, hfilter, ← summaries, ← h.counted key, ChainTable.record]
      by_cases hslot : slot key = slot (keyOf r)
      · rw [hslot, Function.update_self, values_upsert_of_ne (Ne.symm hkey)]
      · rw [Function.update_of_ne hslot]

/-- A chain that has no entry of the key contributes nothing. -/
theorem values_eq_nil {key : K} {chain : List (K × V)} (h : key ∉ chain.map Prod.fst) :
    values key chain = [] := by
  induction chain with
  | nil => rfl
  | cons e rest ih =>
      rw [List.map_cons, List.mem_cons, not_or] at h
      rw [values_cons_of_ne (Ne.symm h.1), ih h.2]

/-- In the whole table a key has the entries of its slot. -/
theorem Accumulates.entries (h : Accumulates slot keyOf summary buckets applied) {size : Nat}
    {key : K} (hsize : slot key < size) :
    values key (entries size buckets) = summaries keyOf summary applied key := by
  rw [← h.counted key]
  have hother : ∀ i, i ≠ slot key → values key (buckets i) = [] := by
    intro i hi
    apply values_eq_nil
    intro hmem
    exact hi (h.placed i key hmem).symm
  have hsum : ∀ n, values key ((List.range n).flatMap buckets) =
      if slot key < n then values key (buckets (slot key)) else [] := by
    intro n
    induction n with
    | zero => rfl
    | succ n ih =>
        have happend : values key ((List.range (n + 1)).flatMap buckets) =
            values key ((List.range n).flatMap buckets) ++ values key (buckets n) := by
          simp [values, List.range_succ]
        rw [happend, ih]
        by_cases hn : n = slot key
        · subst hn
          simp
        · rw [hother n hn, List.append_nil]
          by_cases hlt : slot key < n
          · rw [if_pos hlt, if_pos (by omega)]
          · rw [if_neg hlt, if_neg (by omega)]
  rw [ChainTable.entries, hsum, if_pos hsize]

end Accumulate

end OtusCProg.Library.ChainTable
