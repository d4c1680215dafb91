import OtusCProg.Library.ChainTable
import Mathlib.Data.Finset.Card
import Mathlib.Order.Basic

/-!
# The largest entries of a table

A table that has one entry for each of its keys is, up to order, the list of its
keys with their values. The first entries of that list in falling order are a
top list: no key that is left out has a larger value than one that is in it.
Ties may be broken in any way, but the values of a top list are determined.
-/

namespace OtusCProg.Library

variable {K V : Type*} [DecidableEq K]

/-- A table with one entry for each key, and nothing else. -/
def Tabulates (l : List (K × V)) (keys : Finset K) (value : K → V) : Prop :=
  ∀ key, ChainTable.values key l = if key ∈ keys then [value key] else []

section Tabulates
variable [DecidableEq V] {l : List (K × V)} {keys : Finset K} {value : K → V}

theorem count_eq_count_values (l : List (K × V)) (e : K × V) :
    l.count e = (ChainTable.values e.1 l).count e.2 := by
  induction l with
  | nil => rfl
  | cons head rest ih =>
      obtain ⟨key, v⟩ := head
      by_cases hkey : key = e.1
      · subst hkey
        rw [ChainTable.values_cons_self, List.count_cons, List.count_cons, ih]
        congr 1
        by_cases hv : v = e.2
        · simp [hv]
        · simp [hv, Prod.ext_iff]
      · rw [ChainTable.values_cons_of_ne hkey, List.count_cons_of_ne, ih]
        rintro rfl
        exact hkey rfl

/-- The entries are the keys with their values, in some order. -/
theorem Tabulates.perm (h : Tabulates l keys value) :
    l.Perm (keys.toList.map fun key => (key, value key)) := by
  rw [List.perm_iff_count]
  rintro ⟨key, v⟩
  have hinj : Function.Injective fun key => (key, value key) := fun _ _ h => (Prod.ext_iff.mp h).1
  have hnodup : (keys.toList.map fun key => (key, value key)).Nodup :=
    keys.nodup_toList.map hinj
  rw [count_eq_count_values, h key, hnodup.count]
  by_cases hkey : key ∈ keys
  · by_cases hv : value key = v
    · simp [hkey, hv]
    · simp [hkey, hv]
  · simp [hkey]

end Tabulates

variable [LinearOrder V]

/-- The `n` keys with the largest values, or all of them when there are fewer. -/
structure IsTop (n : Nat) (keys : Finset K) (value : K → V) (top : List K) : Prop where
  nodup : top.Nodup
  length_eq : top.length = min n keys.card
  subset : ∀ key ∈ top, key ∈ keys
  falling : top.Pairwise fun a b => value b ≤ value a
  largest : ∀ key ∈ keys, key ∉ top → ∀ shown ∈ top, value key ≤ value shown

section Top
variable {n : Nat} {keys : Finset K} {value : K → V} {top top' : List K} {l : List (K × V)}

omit [DecidableEq K] in
/-- The first entries of a table in falling order. -/
theorem isTop_take (hperm : l.Perm (keys.toList.map fun key => (key, value key)))
    (hfalling : l.Pairwise fun a b => b.2 ≤ a.2) (n : Nat) :
    IsTop n keys value ((l.take n).map Prod.fst) ∧
      l.take n = ((l.take n).map Prod.fst).map fun key => (key, value key) := by
  have hentry : ∀ e ∈ l, e.1 ∈ keys ∧ e.2 = value e.1 := by
    intro e he
    obtain ⟨key, hkey, rfl⟩ := List.mem_map.mp (hperm.mem_iff.mp he)
    exact ⟨Finset.mem_toList.mp hkey, rfl⟩
  have hkeys : (l.map Prod.fst).Perm keys.toList := by
    simpa [List.map_map, Function.comp_def] using hperm.map Prod.fst
  have hshown : ∀ e ∈ l.take n, e ∈ l := fun e he => List.mem_of_mem_take he
  refine ⟨⟨?_, ?_, ?_, ?_, ?_⟩, ?_⟩
  · rw [List.map_take]
    exact (hkeys.nodup_iff.mpr keys.nodup_toList).sublist (List.take_sublist _ _)
  · have hlength := hkeys.length_eq
    rw [List.length_map, Finset.length_toList] at hlength
    rw [List.length_map, List.length_take, hlength]
  · intro key hkey
    obtain ⟨e, he, rfl⟩ := List.mem_map.mp hkey
    exact (hentry e (hshown e he)).1
  · rw [List.pairwise_map]
    apply (hfalling.sublist (List.take_sublist n l)).imp_of_mem
    intro a b ha hb hle
    rw [← (hentry a (hshown a ha)).2, ← (hentry b (hshown b hb)).2]
    exact hle
  · intro key hkey hout shown hin
    obtain ⟨e, he, rfl⟩ := List.mem_map.mp (hkeys.mem_iff.mpr (Finset.mem_toList.mpr hkey))
    obtain ⟨e', he', rfl⟩ := List.mem_map.mp hin
    have hdrop : e ∈ l.drop n := by
      rw [← List.take_append_drop n l, List.mem_append] at he
      rcases he with he | he
      · exact absurd (List.mem_map_of_mem he) hout
      · exact he
    rw [← List.take_append_drop n l, List.pairwise_append] at hfalling
    rw [← (hentry e he).2, ← (hentry e' (hshown e' he')).2]
    exact hfalling.2.2 e' he' e hdrop
  · rw [List.map_map]
    nth_rewrite 1 [← List.map_id (l.take n)]
    apply List.map_congr_left
    intro e he
    exact Prod.ext rfl (hentry e (hshown e he)).2

/-- A top list begins a list of all keys in falling order. -/
theorem IsTop.exists_full (h : IsTop n keys value top) : ∃ rest, (top ++ rest).Perm keys.toList ∧
    ((top ++ rest).map value).Pairwise (· ≥ ·) := by
  let others := keys.toList.filter (· ∉ top)
  let rest := others.mergeSort fun a b => decide (value b ≤ value a)
  have hrest : rest.Perm others := List.mergeSort_perm _ _
  have hsorted : rest.Pairwise fun a b => decide (value b ≤ value a) = true := by
    apply List.pairwise_mergeSort
    · simpa using fun a b c hab hbc => hbc.trans hab
    · simpa using fun a b => le_total (value b) (value a)
  have hother : ∀ key ∈ rest, key ∈ keys ∧ key ∉ top := by
    intro key hkey
    simpa [others] using hrest.mem_iff.mp hkey
  refine ⟨rest, ?_, ?_⟩
  · apply List.perm_of_nodup_nodup_toFinset_eq
    · rw [List.nodup_append]
      refine ⟨h.nodup, hrest.nodup_iff.mpr (keys.nodup_toList.filter _), ?_⟩
      rintro a ha b hb rfl
      exact (hother a hb).2 ha
    · exact keys.nodup_toList
    · ext key
      simp only [List.mem_toFinset, List.mem_append, Finset.mem_toList]
      constructor
      · rintro (hkey | hkey)
        · exact h.subset key hkey
        · exact (hother key hkey).1
      · intro hkey
        by_cases hshown : key ∈ top
        · exact Or.inl hshown
        · exact Or.inr (hrest.mem_iff.mpr (by simpa [others] using ⟨hkey, hshown⟩))
  · rw [List.map_append, List.pairwise_append, List.pairwise_map, List.pairwise_map]
    refine ⟨h.falling, by simpa using hsorted, ?_⟩
    intro a ha b hb
    obtain ⟨shown, hshown, rfl⟩ := List.mem_map.mp ha
    obtain ⟨key, hkey, rfl⟩ := List.mem_map.mp hb
    exact h.largest key (hother key hkey).1 (hother key hkey).2 shown hshown

/-- Ties do not show in the values of a top list. -/
theorem IsTop.values_eq (h : IsTop n keys value top) (h' : IsTop n keys value top') :
    top.map value = top'.map value := by
  obtain ⟨rest, hperm, hfalling⟩ := h.exists_full
  obtain ⟨rest', hperm', hfalling'⟩ := h'.exists_full
  have hsame : (top ++ rest).map value = (top' ++ rest').map value := by
    apply ((hperm.trans hperm'.symm).map value).eq_of_pairwise _ hfalling hfalling'
    intro a b _ _ hab hba
    exact le_antisymm hba hab
  rw [List.map_append, List.map_append] at hsame
  apply (List.append_inj hsame _).1
  rw [List.length_map, List.length_map, h.length_eq, h'.length_eq]

end Top

end OtusCProg.Library
