import OtusCProg.ListProgram.Functions
import Mathlib.Data.List.Nodup

/-!
# Runs of the list program

`deleteList` looks at the first node before anything else, so that the program
does not survive a list without nodes.
-/

namespace OtusCProg.ListProgram
open Library
variable {memory : ℕ → Bool} {data values : List ℤ} {fuel : ℕ} {out : List Out}

/-- The values that the predicate selects. -/
def selected (values : List ℤ) : List ℤ := values.filter fun value => p value ≠ 0

/-- The program prints the values, prints the selected ones in reverse order, and returns with every
node of both lists released, each once. -/
def Completes (memory : ℕ → Bool) (data : List ℤ) : Prop :=
  ∃ s, (∃ fuel₀, ∀ fuel ≥ fuel₀, main memory fuel data = .ok s) ∧
    s.world = data.map Out.int ++ Out.newline :: ((selected data).reverse.map Out.int ++ [Out.newline]) ∧
    s.allocated.Nodup ∧ s.allocated.length = data.length + (selected data).length ∧
    s.freed.Perm s.allocated

theorem foldl_print_int : values.foldl (fun w value => print_int value w) out =
    out ++ values.map Out.int := by
  induction values generalizing out with
  | nil => exact (List.append_nil out).symm
  | cons value values ih =>
      rw [List.foldl_cons, ih, print_int, List.append_assoc]
      rfl

/-- The nodes of the list that `main` builds. -/
def built (memory : ℕ → Bool) (data : List ℤ) : List (ℕ × ℤ) :=
  (granted memory 0 data.reverse).reverse

/-- The nodes of the list that `f` makes of it. -/
def chosen (memory : ℕ → Bool) (data : List ℤ) : List (ℕ × ℤ) :=
  (granted memory data.length (selected ((built memory data).map Prod.snd))).reverse

/-- The first half of `main` up to the first list. -/
theorem build_spec (memory : ℕ → Bool) (data : List ℤ) : ∃ head s,
    build memory data data.length none (start ([] : List Out)) = (head, s) ∧
      Chain s.heap head (built memory data) ∧ s.Fresh ∧ s.requests = data.length ∧
      s.allocated = (granted memory 0 data.reverse).map Prod.fst ∧ s.freed = [] ∧ s.world = [] := by
  have hall : Pushed memory (data.take data.length).reverse none (start ([] : List Out)) _ _ :=
    build_pushed memory data le_rfl (start_fresh _)
  rw [List.take_length] at hall
  refine ⟨_, _, rfl, ?_, hall.fresh, ?_, hall.allocated, hall.freed, hall.world⟩
  · have hchain := hall.chain [] rfl
    rwa [List.append_nil] at hchain
  · rw [hall.requests, List.length_reverse]
    exact Nat.zero_add _

theorem built_length_le : (built memory data).length ≤ data.length := by
  rw [built, List.length_reverse]
  exact granted_length_le.trans_eq List.length_reverse

theorem chosen_length_le : (chosen memory data).length ≤ data.length := by
  rw [chosen, List.length_reverse]
  calc
    (granted memory data.length (selected ((built memory data).map Prod.snd))).length
        ≤ (selected ((built memory data).map Prod.snd)).length := granted_length_le
    _ ≤ ((built memory data).map Prod.snd).length := List.length_filter_le ..
    _ = (built memory data).length := List.length_map ..
    _ ≤ data.length := built_length_le

/-- Up to the release of the lists all goes well. -/
theorem main_eq (memory : ℕ → Bool) (data : List ℤ) : ∃ head newList s,
    (∀ fuel, data.length < fuel → main memory fuel data =
      (deleteList fuel head s >>= fun s => deleteList fuel newList s)) ∧
      Chain s.heap head (built memory data) ∧ Chain s.heap newList (chosen memory data) ∧
      s.world = ((built memory data).map Prod.snd).map Out.int ++
        Out.newline :: (((chosen memory data).map Prod.snd).map Out.int ++ [Out.newline]) ∧
      s.allocated = ((built memory data).map Prod.fst).reverse ++
        ((chosen memory data).map Prod.fst).reverse ∧
      s.freed = [] := by
  obtain ⟨head, s₁, hbuild, hchain, hfresh, hrequests, hallocated, hfreed, hworld⟩ :=
    build_spec memory data
  -- the first list is printed, and `f` sets out
  let s₂ : State (List Out) :=
    { s₁ with world := ((built memory data).map Prod.snd).map Out.int ++ [Out.newline] }
  obtain ⟨newList, s₃, hf, hpushed⟩ := f_pushed memory (s := s₂) hchain hfresh p none
  have hchosen : Chain s₃.heap newList (chosen memory data) := by
    have hall := hpushed.chain [] rfl
    rw [List.append_nil] at hall
    rwa [chosen, ← hrequests]
  refine ⟨head, newList, puts { s₃ with
    world := s₂.world ++ ((chosen memory data).map Prod.snd).map Out.int }, ?_,
    hpushed.other hfresh hchain, hchosen, ?_, ?_, ?_⟩
  · intro fuel hfuel
    have hm := m_eq hchain (built_length_le.trans_lt hfuel) print_int
    rw [foldl_print_int, hworld, List.nil_append] at hm
    have hm' := m_eq hchosen (chosen_length_le.trans_lt hfuel) print_int
    rw [foldl_print_int, hpushed.world] at hm'
    unfold main
    rw [hbuild]
    change (m fuel head print_int s₁ >>= fun s => f memory fuel head p none (puts s) >>= _) = _
    rw [hm]
    change (f memory fuel head p none s₂ >>= _) = _
    rw [hf fuel (built_length_le.trans_lt hfuel)]
    change (m fuel newList print_int s₃ >>= _) = _
    rw [hm']
    rfl
  · exact (List.append_assoc _ _ _).trans (List.append_assoc _ _ _)
  · have hbuilt : s₁.allocated = ((built memory data).map Prod.fst).reverse := by
      rw [hallocated, built, List.map_reverse, List.reverse_reverse]
    have hlater : ((chosen memory data).map Prod.fst).reverse =
        (granted memory s₂.requests (selected ((built memory data).map Prod.snd))).map Prod.fst := by
      rw [chosen, List.map_reverse, List.reverse_reverse, ← hrequests]
    rw [← hbuilt, hlater]
    exact hpushed.allocated
  · exact hpushed.freed.trans hfreed

theorem built_nodup : ((built memory data).map Prod.fst).Nodup := by
  rw [built, List.map_reverse, List.nodup_reverse]
  exact granted_nodup

theorem chosen_nodup : ((chosen memory data).map Prod.fst).Nodup := by
  rw [chosen, List.map_reverse, List.nodup_reverse]
  exact granted_nodup

/-- The two lists have no node in common. -/
theorem built_disjoint {a : ℕ} (h : a ∈ (built memory data).map Prod.fst) :
    a ∉ (chosen memory data).map Prod.fst := by
  intro h'
  rw [built, List.map_reverse, List.mem_reverse] at h
  rw [chosen, List.map_reverse, List.mem_reverse] at h'
  have hlow := (granted_bounds h).2
  have hhigh := (granted_bounds h').1
  rw [List.length_reverse] at hlow
  omega

/-- When `f` has made a list, `main` returns and has released every node. -/
theorem main_ok (h : chosen memory data ≠ []) : ∃ s,
    (∀ fuel, data.length < fuel → main memory fuel data = .ok s) ∧
      s.world = ((built memory data).map Prod.snd).map Out.int ++
        Out.newline :: (((chosen memory data).map Prod.snd).map Out.int ++ [Out.newline]) ∧
      s.allocated = ((built memory data).map Prod.fst).reverse ++
        ((chosen memory data).map Prod.fst).reverse ∧
      s.freed = (built memory data).map Prod.fst ++ (chosen memory data).map Prod.fst := by
  obtain ⟨head, newList, s, hmain, hchain, hchosen, hworld, hallocated, hfreed⟩ := main_eq memory data
  have hbuilt : built memory data ≠ [] := by
    intro hnil
    apply h
    rw [chosen, hnil]
    rfl
  refine ⟨s.release ((built memory data).map Prod.fst ++ (chosen memory data).map Prod.fst), ?_,
    hworld, hallocated, ?_⟩
  · intro fuel hfuel
    have hfirst := deleteList_eq hchain hbuilt built_nodup (built_length_le.trans_lt hfuel)
    have hstill := release_chain hchosen fun a ha hmem => built_disjoint hmem ha
    have hsecond := deleteList_eq hstill h chosen_nodup (chosen_length_le.trans_lt hfuel)
    rw [release_release] at hsecond
    rw [hmain fuel hfuel, hfirst]
    exact hsecond
  · change s.freed ++ _ = _
    rw [hfreed, List.nil_append]

/-- When `f` has made none, the second `deleteList` looks at the node behind NULL. -/
theorem main_fails (h : chosen memory data = []) (hfuel : data.length < fuel)
    (s : State (List Out)) : main memory fuel data ≠ .ok s := by
  obtain ⟨head, newList, s', hmain, -, hchosen, -⟩ := main_eq memory data
  rw [h] at hchosen
  obtain rfl : newList = none := hchosen
  rw [hmain fuel hfuel]
  intro hok
  cases hfirst : deleteList fuel head s' with
  | error e =>
      rw [hfirst] at hok
      cases hok
  | ok s'' =>
      rw [hfirst] at hok
      exact deleteList_none hok

theorem printed_inj {xs ys : List ℤ} {out out' : List Out}
    (h : xs.map Out.int ++ Out.newline :: out = ys.map Out.int ++ Out.newline :: out') :
    xs = ys ∧ out = out' := by
  induction xs generalizing ys with
  | nil =>
      cases ys with
      | nil => exact ⟨rfl, (List.cons.inj h).2⟩
      | cons y ys => cases h
  | cons x xs ih =>
      cases ys with
      | nil => cases h
      | cons y ys =>
          obtain ⟨hhead, htail⟩ := List.cons.inj h
          obtain ⟨rfl, hout⟩ := ih htail
          exact ⟨congrArg (· :: xs) (Out.int.inj hhead), hout⟩

/-- Both lists are as they should be if and only if every request for memory is met. -/
theorem lists_eq_iff : (built memory data).map Prod.snd = data ∧
    (chosen memory data).map Prod.snd = (selected data).reverse ↔
      ∀ k < data.length + (selected data).length, memory k = true := by
  have hbuilt : (built memory data).map Prod.snd = data ↔ ∀ k < data.length, memory k = true := by
    rw [built, List.map_reverse, List.reverse_eq_iff, granted_eq_iff, List.length_reverse]
    simp only [Nat.zero_add]
  have hsplit : (∀ k < data.length + (selected data).length, memory k = true) ↔
      (∀ k < data.length, memory k = true) ∧
        ∀ i < (selected data).length, memory (data.length + i) = true := by
    constructor
    · intro h
      exact ⟨fun k hk => h k (by omega), fun i hi => h _ (by omega)⟩
    · rintro ⟨hlow, hhigh⟩ k hk
      rcases lt_or_ge k data.length with hlt | hge
      · exact hlow k hlt
      · obtain ⟨i, rfl⟩ := Nat.exists_eq_add_of_le hge
        exact hhigh i (by omega)
  rw [hsplit, ← hbuilt]
  refine and_congr_right fun hvalues => ?_
  rw [chosen, hvalues, List.map_reverse, List.reverse_inj]
  exact granted_eq_iff

/-- The program completes if and only if the predicate selects some value and every request for
memory is met. -/
theorem completes_iff (memory : ℕ → Bool) (data : List ℤ) : Completes memory data ↔
    (∃ value ∈ data, p value ≠ 0) ∧ ∀ k < data.length + (selected data).length, memory k = true := by
  have hselected : (∃ value ∈ data, p value ≠ 0) ↔ selected data ≠ [] := by
    rw [selected, ne_eq, List.filter_eq_nil_iff]
    simp
  rw [hselected]
  constructor
  · rintro ⟨s, ⟨fuel₀, hmain⟩, hworld, -⟩
    have hall := hmain (max fuel₀ (data.length + 1)) (le_max_left _ _)
    have hchosen : chosen memory data ≠ [] := by
      intro hnil
      exact main_fails hnil (le_max_right fuel₀ (data.length + 1)) s hall
    obtain ⟨s', hmain', hworld', -⟩ := main_ok hchosen
    have hs : s' = s := by
      have hboth := (hmain' _ (le_max_right fuel₀ (data.length + 1))).symm.trans hall
      exact Except.ok.inj hboth
    rw [hs, hworld] at hworld'
    obtain ⟨hdata, hrest⟩ := printed_inj hworld'
    have hreverse := (printed_inj hrest).1
    refine ⟨?_, lists_eq_iff.mp ⟨hdata.symm, hreverse.symm⟩⟩
    rintro hnil
    rw [hnil] at hreverse
    exact hchosen (List.map_eq_nil_iff.mp hreverse.symm)
  · rintro ⟨hsome, hmemory⟩
    obtain ⟨hdata, hreverse⟩ := lists_eq_iff.mpr hmemory
    have hchosen : chosen memory data ≠ [] := by
      intro hnil
      rw [hnil] at hreverse
      exact hsome (List.reverse_eq_nil_iff.mp hreverse.symm)
    obtain ⟨s, hmain, hworld, hallocated, hfreed⟩ := main_ok hchosen
    have hbuilt : ((built memory data).map Prod.fst).length = data.length := by
      rw [List.length_map, ← List.length_map (f := Prod.snd), hdata]
    have hlater : ((chosen memory data).map Prod.fst).length = (selected data).length := by
      rw [List.length_map, ← List.length_map (f := Prod.snd), hreverse, List.length_reverse]
    rw [hdata, hreverse] at hworld
    refine ⟨s, ⟨data.length + 1, fun fuel hfuel => hmain fuel hfuel⟩, hworld, ?_, ?_, ?_⟩
    · rw [hallocated, List.nodup_append', List.nodup_reverse, List.nodup_reverse]
      refine ⟨built_nodup, chosen_nodup, ?_⟩
      intro a ha ha'
      exact built_disjoint (List.mem_reverse.mp ha) (List.mem_reverse.mp ha')
    · rw [hallocated, List.length_append, List.length_reverse, List.length_reverse, hbuilt, hlater]
    · rw [hfreed, hallocated]
      exact (List.reverse_perm _).symm.append (List.reverse_perm _).symm

/-- Of the values `4` and `8` none is odd, so that there is no second list to delete. -/
theorem completes_even : ¬ Completes (fun _ => true) [4, 8] := by
  rintro ⟨s, ⟨fuel₀, hmain⟩, -⟩
  have hnone : chosen (fun _ => true) [4, 8] = [] := by decide
  exact main_fails hnone (le_max_right fuel₀ 3) s (hmain _ (le_max_left _ _))

end OtusCProg.ListProgram
