import OtusCProg.LogReader.Model
import Mathlib.Algebra.BigOperators.Group.Finset.Basic
import Mathlib.Algebra.BigOperators.Group.Multiset.Basic
import Mathlib.Tactic.Abel

/-!
# What the workers have applied and still hold

For each of the three shared structures, the records applied to it, those the
workers still hold, and those of the files not yet taken are together the
records of all files. While a worker has not ended, some thread can move.
-/

namespace OtusCProg.LogReader
open Library

section Records

/-- What `fgets` reads and what it leaves is the file. -/
theorem fgets_append (n : Nat) (s : Text) : (fgets n s).1 ++ (fgets n s).2 = s := by
  induction n generalizing s with
  | zero => rfl
  | succ n ih =>
      cases s with
      | nil => rfl
      | cons c s =>
          unfold fgets
          split
          · rfl
          · exact congrArg (c :: ·) (ih s)

/-- A line is read as long as the file has bytes left. -/
theorem length_read_line {s : Text} (h : s ≠ []) : (read_line s).2.length < s.length := by
  have happend := congrArg List.length (fgets_append (MAX_LINE_LEN - 1) s)
  rw [List.length_append] at happend
  have hline : 0 < (fgets (MAX_LINE_LEN - 1) s).1.length := by
    cases s with
    | nil => exact absurd rfl h
    | cons c s =>
        show 0 < (fgets (8190 + 1) (c :: s)).1.length
        unfold fgets
        split <;> exact Nat.succ_pos _
  show (fgets (MAX_LINE_LEN - 1) s).2.length < s.length
  omega

/-- The records of at most `n` lines. -/
def recordsUpTo : Nat → Text → List Record
  | 0, _ => []
  | n + 1, s =>
      if s = [] then [] else (read_line s).1.toList ++ recordsUpTo n (read_line s).2

/-- The records of a file, in the order of the `fgets` loop. -/
def records (s : Text) : List Record := recordsUpTo s.length s

theorem recordsUpTo_of_le {n m : Nat} {s : Text} (hn : s.length ≤ n) (hm : s.length ≤ m) :
    recordsUpTo n s = recordsUpTo m s := by
  induction n generalizing m s with
  | zero =>
      obtain rfl : s = [] := List.length_eq_zero_iff.mp (by omega)
      cases m <;> rfl
  | succ n ih =>
      cases m with
      | zero =>
          obtain rfl : s = [] := List.length_eq_zero_iff.mp (by omega)
          rfl
      | succ m =>
          unfold recordsUpTo
          by_cases hs : s = []
          · rw [if_pos hs, if_pos hs]
          · have hlen := length_read_line hs
            rw [if_neg hs, if_neg hs, ih (m := m) (by omega) (by omega)]

theorem records_of_ne_nil {s : Text} (h : s ≠ []) :
    records s = (read_line s).1.toList ++ records (read_line s).2 := by
  have hlen := length_read_line h
  cases hs : s.length with
  | zero => omega
  | succ n =>
      have hrest : recordsUpTo n (read_line s).2 = records (read_line s).2 :=
        recordsUpTo_of_le (by omega) le_rfl
      rw [records, hs, recordsUpTo, if_neg h, hrest]

/-- A file that cannot be opened has no records. -/
def file_records (file : Option Text) : List Record := file.elim [] records

/-- The records of all files. -/
def all_records (files : List (Option Text)) : List Record := files.flatMap file_records

end Records

/-- The three shared structures. -/
inductive Part where
  | total
  | url
  | ref
deriving DecidableEq

/-- Only records with bytes go into the total and the URL table. -/
def Part.wants (part : Part) (r : Record) : Bool := part = .ref || 0 < r.bytes

/-- The records that go into a structure. -/
def demand (part : Part) (rs : List Record) : Multiset Record := (rs.filter part.wants : List Record)

section Demand
variable {part : Part} {r : Record} {rs rs' : List Record}

@[simp] theorem demand_nil : demand part [] = 0 := rfl

theorem demand_append : demand part (rs ++ rs') = demand part rs + demand part rs' := by
  rw [demand, List.filter_append]
  exact (Multiset.coe_add _ _).symm

theorem demand_cons_of_wants (h : part.wants r = true) : demand part (r :: rs) = r ::ₘ demand part rs := by
  rw [demand, List.filter_cons_of_pos h]
  rfl

theorem demand_cons_of_not (h : part.wants r = false) : demand part (r :: rs) = demand part rs := by
  rw [demand, List.filter_cons_of_neg (by rw [h]; nofun)]
  rfl

end Demand

/-- The records a worker still has to apply to a structure. -/
def Worker.left (files : List (Option Text)) (part : Part) : Worker → Multiset Record
  | .entering => 0
  | .waiting => 0
  | .ended => 0
  | .opening idx => demand part (file_records (files[idx]?.getD none))
  | .reading rest => demand part (records rest)
  | .counting r rest => r ::ₘ demand part (records rest)
  | .adding r rest =>
      if part = .total then demand part (records rest) else r ::ₘ demand part (records rest)
  | .referring r rest =>
      if part = .ref then r ::ₘ demand part (records rest) else demand part (records rest)

@[simp] theorem left_wake (files : List (Option Text)) (part : Part) (w : Worker) :
    (wake w).left files part = w.left files part := by
  cases w <;> rfl

/-- Everything the workers still have to apply. -/
def held (files : List (Option Text)) (n : Nat) (part : Part) (s : System) : Multiset Record :=
  ∑ i ∈ Finset.range n, (s.workers i).left files part

/-- Moving one worker exchanges what that worker holds. -/
theorem held_setWorker {files : List (Option Text)} {n i : Nat} {part : Part} {s : System}
    (hi : i < n) (w : Worker) :
    held files n part (s.setWorker i w) + (s.workers i).left files part =
      held files n part s + w.left files part := by
  have hmem : i ∈ Finset.range n := Finset.mem_range.mpr hi
  unfold held
  rw [← Finset.add_sum_erase _ _ hmem, ← Finset.add_sum_erase _ (fun j => (s.workers j).left files part) hmem]
  have hsame : ∑ j ∈ (Finset.range n).erase i, ((s.setWorker i w).workers j).left files part =
      ∑ j ∈ (Finset.range n).erase i, (s.workers j).left files part := by
    apply Finset.sum_congr rfl
    intro j hj
    rw [setWorker_of_ne s w (Finset.ne_of_mem_erase hj)]
  rw [hsame, setWorker_self]
  abel

@[simp] theorem held_finish (files : List (Option Text)) (n : Nat) (part : Part) (s : System) :
    held files n part s.finish = held files n part s := by
  unfold held
  apply Finset.sum_congr rfl
  intro i _
  exact left_wake files part (s.workers i)

/-- The sum of the bytes of these records, as a `size_t`. -/
def bytes_sum (rs : Multiset Record) : Nat := (rs.map Record.bytes).sum % 2 ^ 64

/-- The shared structures after these records were applied to each. -/
structure Totals.Sums (t : Totals) (applied : Part → Multiset Record) : Prop where
  total : t.total_bytes = bytes_sum (applied .total)
  url : ChainTable.Accumulates slot Record.url bytes_sum t.url_map (applied .url)
  ref : ChainTable.Accumulates slot Record.referer (fun rs => Int32.ofNat rs.card) t.ref_map (applied .ref)

section Sums
variable {t : Totals} {applied : Part → Multiset Record} {r : Record}

/-- One more record for one structure. -/
def apply_one (applied : Part → Multiset Record) (part : Part) (r : Record) : Part → Multiset Record :=
  Function.update applied part (r ::ₘ applied part)

theorem sums_zero : Totals.zero.Sums (fun _ => 0) :=
  ⟨rfl, ChainTable.accumulates_empty, ChainTable.accumulates_empty⟩

theorem bytes_sum_cons (r : Record) (rs : Multiset Record) :
    bytes_sum (r ::ₘ rs) = (bytes_sum rs + r.bytes) % 2 ^ 64 := by
  rw [bytes_sum, bytes_sum, Multiset.map_cons, Multiset.sum_cons, Nat.mod_add_mod, Nat.add_comm]

theorem Totals.Sums.add_bytes (h : t.Sums applied) :
    (t.add_bytes r.bytes).Sums (apply_one applied .total r) := by
  refine ⟨?_, h.url, h.ref⟩
  show (t.total_bytes + r.bytes) % 2 ^ 64 = bytes_sum (r ::ₘ applied .total)
  rw [bytes_sum_cons, h.total]

theorem Totals.Sums.url_map_add (h : t.Sums applied) (hpos : 0 < r.bytes) (hlt : r.bytes < 2 ^ 64) :
    (url_map_add t r.url r.bytes).Sums (apply_one applied .url r) := by
  rw [LogReader.url_map_add, if_neg (by omega)]
  refine ⟨h.total, ?_, h.ref⟩
  refine h.url.record r ?_ fun m _ => bytes_sum_cons r m
  rw [bytes_sum, Multiset.map_singleton, Multiset.sum_singleton, Nat.mod_eq_of_lt hlt]

theorem Totals.Sums.ref_map_inc (h : t.Sums applied) :
    (ref_map_inc t r.referer).Sums (apply_one applied .ref r) := by
  refine ⟨h.total, h.url, h.ref.record r rfl fun m _ => ?_⟩
  rw [Multiset.card_cons, Int32.ofNat_add]
  rfl

end Sums

/-- The size in a record is a `size_t`. -/
theorem parse_log_line_bytes_lt {line : Text} {r : Record} (h : parse_log_line line = some r) :
    r.bytes < 2 ^ 64 := by
  simp only [parse_log_line, Option.bind_eq_bind, Option.bind_eq_some_iff, Option.pure_def,
    Option.some.injEq] at h
  obtain ⟨_, _, _, _, _, _, _, _, _, _, _, _, _, _, _, _, p, _, _, _, _, _, rfl⟩ := h
  show (if (skip_spaces (p.drop 1)).head? = some 45 then 0 else _) < 2 ^ 64
  split
  · positivity
  · exact MachineInt.toUnsigned_lt 64 _

section Invariant

/-- The queue, the flag and the positions of the threads fit together. -/
structure Control (files : List (Option Text)) (n : Nat) (s : System) : Prop where
  next_le : s.next ≤ files.length
  finished_of_last : s.next = files.length → 0 < files.length → s.finished = true
  finished_of_empty : s.main ≠ .starting → files.length = 0 → s.finished = true
  waiting : ∀ i, s.workers i = .waiting → s.finished = false ∧ s.next = files.length
  ended : ∀ i, s.workers i = .ended → s.finished = true ∧ s.next = files.length
  taken : s.taken.map Prod.snd = List.range s.next
  takers : ∀ p ∈ s.taken, p.1 < n

/-- The records applied, held and not yet taken are all records. -/
structure Accounts (files : List (Option Text)) (n : Nat) (s : System)
    (applied : Part → Multiset Record) : Prop where
  carried : ∀ i r rest, s.workers i = .counting r rest ∨ s.workers i = .adding r rest →
    0 < r.bytes ∧ r.bytes < 2 ^ 64
  sums : s.totals.Sums applied
  balance : ∀ part, applied part + held files n part s +
    demand part (all_records (files.drop s.next)) = demand part (all_records files)

variable {files : List (Option Text)} {n i : Nat} {s : System} {applied applied' : Part → Multiset Record}
  {w : Worker} {t : Totals}

theorem control_initial : Control files n .initial :=
  ⟨Nat.zero_le _, fun h hpos => absurd h (by simp only [System.initial]; omega), fun h => absurd rfl h,
    nofun, nofun, rfl, nofun⟩

theorem accounts_initial : Accounts files n .initial (fun _ => 0) := by
  refine ⟨fun _ _ _ h => ?_, sums_zero, fun part => ?_⟩
  · rcases h with h | h <;> cases h
  · have hheld : held files n part .initial = 0 := Finset.sum_eq_zero fun _ _ => rfl
    rw [hheld, zero_add, zero_add]
    rfl

/-- A worker that goes on working leaves the queue alone. -/
theorem Control.setWorker (h : Control files n s) (hwaiting : w ≠ .waiting) (hended : w ≠ .ended) :
    Control files n (s.setWorker i w) := by
  refine ⟨h.next_le, h.finished_of_last, h.finished_of_empty, fun j hj => ?_, fun j hj => ?_,
    h.taken, h.takers⟩
  · by_cases hji : j = i
    · subst hji
      rw [setWorker_self] at hj
      exact absurd hj hwaiting
    · rw [setWorker_of_ne s w hji] at hj
      exact h.waiting j hj
  · by_cases hji : j = i
    · subst hji
      rw [setWorker_self] at hj
      exact absurd hj hended
    · rw [setWorker_of_ne s w hji] at hj
      exact h.ended j hj

theorem Control.setTotals (h : Control files n s) : Control files n { s with totals := t } :=
  ⟨h.next_le, h.finished_of_last, h.finished_of_empty, h.waiting, h.ended, h.taken, h.takers⟩

/-- What one worker gives up moves into the applied records or stays with it. -/
theorem balance_setWorker {part : Part} {untaken untaken' : Multiset Record} (hi : i < n)
    (h : applied' part + w.left files part + untaken' =
      applied part + (s.workers i).left files part + untaken) :
    applied' part + held files n part (s.setWorker i w) + untaken' =
      applied part + held files n part s + untaken := by
  have hheld : held files n part (s.setWorker i w) + (s.workers i).left files part =
      held files n part s + w.left files part := held_setWorker hi w
  apply add_right_cancel (b := (s.workers i).left files part + w.left files part)
  calc applied' part + held files n part (s.setWorker i w) + untaken' +
        ((s.workers i).left files part + w.left files part)
      = (applied' part + w.left files part + untaken') +
          (held files n part (s.setWorker i w) + (s.workers i).left files part) := by abel
    _ = (applied part + (s.workers i).left files part + untaken) +
          (held files n part s + w.left files part) := by rw [h, hheld]
    _ = applied part + held files n part s + untaken +
          ((s.workers i).left files part + w.left files part) := by abel

/-- A worker carries a record only between the test of its size and the URL table. -/
def CarryOk (w : Worker) : Prop :=
  ∀ r rest, w = .counting r rest ∨ w = .adding r rest → 0 < r.bytes ∧ r.bytes < 2 ^ 64

theorem carryOk_of_ne (hcounting : ∀ r rest, w ≠ .counting r rest)
    (hadding : ∀ r rest, w ≠ .adding r rest) : CarryOk w := by
  rintro r rest (hw | hw)
  · exact absurd hw (hcounting r rest)
  · exact absurd hw (hadding r rest)

theorem carryOk_wake (h : CarryOk w) : CarryOk (wake w) := by
  cases w with
  | waiting => exact carryOk_of_ne nofun nofun
  | _ => exact h

theorem Accounts.carryOk (h : Accounts files n s applied) (i : Nat) : CarryOk (s.workers i) :=
  fun r rest hw => h.carried i r rest hw

/-- One worker goes on with a record in range, or with none. -/
theorem carryOk_setWorker (h : ∀ j, CarryOk (s.workers j)) (hw : CarryOk w) (j : Nat) :
    CarryOk ((s.setWorker i w).workers j) := by
  by_cases hji : j = i
  · subst hji
    rwa [setWorker_self]
  · rw [setWorker_of_ne s w hji]
    exact h j

/-- One worker moves, perhaps applying what it held. -/
theorem Accounts.move (h : Accounts files n s applied) (hi : i < n) (hcarry : CarryOk w)
    (hsums : t.Sums applied')
    (hleft : ∀ part, applied' part + w.left files part =
      applied part + (s.workers i).left files part) :
    Accounts files n ({ s with totals := t }.setWorker i w) applied' := by
  refine ⟨carryOk_setWorker (s := { s with totals := t }) h.carryOk hcarry, hsums, fun part => ?_⟩
  rw [← h.balance part]
  exact balance_setWorker (s := { s with totals := t }) hi (congrArg (· + _) (hleft part))

/-- Behind the last file a worker waits until the end is known, and then ends. -/
theorem Control.rest (h : Control files n s) (hnone : files.length ≤ s.next) :
    Control files n (s.setWorker i (if s.finished then .ended else .waiting)) := by
  have heq : s.next = files.length := le_antisymm h.next_le hnone
  refine ⟨h.next_le, h.finished_of_last, h.finished_of_empty, fun j hj => ?_, fun j hj => ?_,
    h.taken, h.takers⟩
  · by_cases hji : j = i
    · subst hji
      rw [setWorker_self] at hj
      cases hfin : s.finished with
      | true => rw [hfin] at hj; cases hj
      | false => exact ⟨hfin, heq⟩
    · rw [setWorker_of_ne s _ hji] at hj
      exact h.waiting j hj
  · by_cases hji : j = i
    · subst hji
      rw [setWorker_self] at hj
      cases hfin : s.finished with
      | true => exact ⟨hfin, heq⟩
      | false => rw [hfin] at hj; cases hj
    · rw [setWorker_of_ne s _ hji] at hj
      exact h.ended j hj

/-- Taking a file, finding none, or finding that there will be none. -/
theorem take_file_control (h : Control files n s) (hi : i < n) :
    Control files n (take_file files s i) := by
  unfold take_file
  split
  · rename_i hnext
    exact h.rest hnext
  · rename_i hnext
    have hnowait : ∀ j, s.workers j ≠ .waiting := fun j hj => by have := (h.waiting j hj).2; omega
    have hnoend : ∀ j, s.workers j ≠ .ended := fun j hj => by have := (h.ended j hj).2; omega
    have htaken : (s.taken ++ [(i, s.next)]).map Prod.snd = List.range (s.next + 1) := by
      rw [List.map_append, h.taken, List.range_succ]
      rfl
    have htakers : ∀ p ∈ s.taken ++ [(i, s.next)], p.1 < n := by
      intro p hp
      rcases List.mem_append.mp hp with hp | hp
      · exact h.takers p hp
      · rw [List.mem_singleton.mp hp]
        exact hi
    dsimp only
    split
    · rename_i hlast
      refine Control.setWorker ⟨?_, fun _ _ => rfl, fun _ _ => rfl, fun j hj => ?_, fun j hj => ?_,
        htaken, htakers⟩ nofun nofun
      · show s.next + 1 ≤ files.length
        omega
      · simp only [System.finish] at hj
        cases hworker : s.workers j <;> rw [hworker] at hj <;> cases hj
      · simp only [System.finish] at hj
        cases hworker : s.workers j with
        | ended => exact absurd hworker (hnoend j)
        | _ => rw [hworker] at hj; cases hj
    · rename_i hlast
      refine Control.setWorker ⟨?_, fun hnext' _ => ?_, h.finished_of_empty,
        fun j hj => absurd hj (hnowait j), fun j hj => absurd hj (hnoend j), htaken, htakers⟩
        nofun nofun
      · show s.next + 1 ≤ files.length
        omega
      · have hnext' : s.next + 1 = files.length := hnext'
        omega

theorem take_file_accounts (h : Accounts files n s applied) (hi : i < n)
    (hw : s.workers i = .entering) : Accounts files n (take_file files s i) applied := by
  unfold take_file
  split
  · refine h.move (t := s.totals) hi ?_ h.sums fun part => ?_
    · cases s.finished <;> exact carryOk_of_ne nofun nofun
    · rw [hw]
      cases s.finished <;> rfl
  · rename_i hnext
    have hlt : s.next < files.length := by omega
    have hdrop : all_records (files.drop s.next) =
        file_records (files[s.next]?.getD none) ++ all_records (files.drop (s.next + 1)) := by
      rw [List.drop_eq_getElem_cons hlt, all_records, List.flatMap_cons,
        List.getElem?_eq_getElem hlt]
      rfl
    have hleft : ∀ part, applied part + (Worker.opening s.next).left files part +
        demand part (all_records (files.drop (s.next + 1))) =
        applied part + (s.workers i).left files part + demand part (all_records (files.drop s.next)) := by
      intro part
      rw [hdrop, demand_append, hw]
      show applied part + demand part (file_records (files[s.next]?.getD none)) + _ =
        applied part + 0 + _
      abel
    dsimp only
    split
    · refine ⟨carryOk_setWorker (fun j => carryOk_wake (h.carryOk j)) (carryOk_of_ne nofun nofun),
        h.sums, fun part => ?_⟩
      rw [← h.balance part]
      have hfinish : ((System.finish { s with
          next := s.next + 1, taken := s.taken ++ [(i, s.next)] }).workers i).left files part =
          (s.workers i).left files part := left_wake files part (s.workers i)
      have hheld := held_finish files n part
        { s with next := s.next + 1, taken := s.taken ++ [(i, s.next)] }
      have hsame : held files n part { s with
          next := s.next + 1, taken := s.taken ++ [(i, s.next)] } = held files n part s := rfl
      rw [← hsame, ← hheld]
      refine balance_setWorker hi ?_
      rw [hfinish]
      exact hleft part
    · refine ⟨carryOk_setWorker h.carryOk (carryOk_of_ne nofun nofun), h.sums, fun part => ?_⟩
      rw [← h.balance part]
      exact balance_setWorker
        (s := { s with next := s.next + 1, taken := s.taken ++ [(i, s.next)] }) hi (hleft part)

/-- A worker goes on, and what it has left to count stays the same. -/
theorem goOn_inv (hc : Control files n s) (ha : Accounts files n s applied) (hi : i < n)
    (hwaiting : w ≠ .waiting) (hended : w ≠ .ended) (hcarry : CarryOk w)
    (hleft : ∀ part, w.left files part = (s.workers i).left files part) :
    Control files n (s.setWorker i w) ∧ ∃ applied', Accounts files n (s.setWorker i w) applied' := by
  refine ⟨hc.setWorker hwaiting hended, applied, ha.move (t := s.totals) hi hcarry ha.sums ?_⟩
  intro part
  rw [hleft part]

theorem opening_inv (hc : Control files n s) (ha : Accounts files n s applied) (hi : i < n)
    {idx : Nat} (hw : s.workers i = .opening idx) {s' : System} (h : worker files s i = some s') :
    Control files n s' ∧ ∃ applied', Accounts files n s' applied' := by
  simp only [worker, hw] at h
  cases hfile : files[idx]? with
  | none =>
      rw [hfile] at h
      obtain rfl := Option.some.inj h
      apply goOn_inv (w := .entering) hc ha hi nofun nofun (carryOk_of_ne nofun nofun)
      intro part
      rw [hw, Worker.left, Worker.left, hfile]
      rfl
  | some file =>
      rw [hfile] at h
      cases file with
      | none =>
          obtain rfl := Option.some.inj h
          apply goOn_inv (w := .entering) hc ha hi nofun nofun (carryOk_of_ne nofun nofun)
          intro part
          rw [hw, Worker.left, Worker.left, hfile]
          rfl
      | some content =>
          obtain rfl := Option.some.inj h
          apply goOn_inv (w := .reading content) hc ha hi nofun nofun (carryOk_of_ne nofun nofun)
          intro part
          rw [hw, Worker.left, Worker.left, hfile]
          rfl

/-- A worker that has parsed `r` takes it to the totals, or past them where its size is zero. -/
theorem parsed_inv (hc : Control files n s) (ha : Accounts files n s applied) (hi : i < n)
    {r : Record} {rest rest' : Text} (hw : s.workers i = .reading rest) (hlt : r.bytes < 2 ^ 64)
    (hcons : records rest = r :: records rest') :
    Control files n (s.setWorker i (if 0 < r.bytes then .counting r rest' else .referring r rest')) ∧
      ∃ applied', Accounts files n
        (s.setWorker i (if 0 < r.bytes then .counting r rest' else .referring r rest')) applied' := by
  by_cases hpos : 0 < r.bytes
  · rw [if_pos hpos]
    apply goOn_inv (w := .counting r rest') hc ha hi nofun nofun
    · rintro r' rest'' (hr | hr)
      · obtain ⟨rfl, _⟩ := Worker.counting.inj hr
        exact ⟨hpos, hlt⟩
      · cases hr
    · intro part
      have hwants : part.wants r = true := by simp [Part.wants, hpos]
      rw [hw, Worker.left, Worker.left, hcons, demand_cons_of_wants hwants]
  · rw [if_neg hpos]
    apply goOn_inv (w := .referring r rest') hc ha hi nofun nofun (carryOk_of_ne nofun nofun)
    intro part
    rw [hw, Worker.left, Worker.left, hcons]
    by_cases href : part = .ref
    · rw [if_pos href, demand_cons_of_wants (by simp [Part.wants, href])]
    · rw [if_neg href, demand_cons_of_not (by simp [Part.wants, href, hpos])]

theorem reading_inv (hc : Control files n s) (ha : Accounts files n s applied) (hi : i < n)
    {rest : Text} (hw : s.workers i = .reading rest) {s' : System}
    (h : worker files s i = some s') :
    Control files n s' ∧ ∃ applied', Accounts files n s' applied' := by
  simp only [worker, hw] at h
  by_cases hrest : rest = []
  · rw [if_pos hrest] at h
    obtain rfl := Option.some.inj h
    apply goOn_inv (w := .entering) hc ha hi nofun nofun (carryOk_of_ne nofun nofun)
    intro part
    rw [hw, hrest]
    rfl
  · rw [if_neg hrest] at h
    have hrecords := records_of_ne_nil hrest
    cases hline : read_line rest with
    | mk record rest' =>
        rw [hline] at h hrecords
        cases record with
        | none =>
            obtain rfl := Option.some.inj h
            apply goOn_inv (w := .reading rest') hc ha hi nofun nofun (carryOk_of_ne nofun nofun)
            intro part
            rw [hw, Worker.left, Worker.left, hrecords]
            rfl
        | some r =>
            obtain rfl := Option.some.inj h
            exact parsed_inv hc ha hi hw (parse_log_line_bytes_lt (congrArg Prod.fst hline)) hrecords

theorem counting_inv (hc : Control files n s) (ha : Accounts files n s applied) (hi : i < n)
    {r : Record} {rest : Text} (hw : s.workers i = .counting r rest) {s' : System}
    (h : worker files s i = some s') :
    Control files n s' ∧ ∃ applied', Accounts files n s' applied' := by
  simp only [worker, hw, Option.some.injEq] at h
  subst h
  refine ⟨hc.setTotals.setWorker nofun nofun, apply_one applied .total r,
    ha.move hi ?_ ha.sums.add_bytes ?_⟩
  · rintro r' rest' (hr | hr)
    · cases hr
    · obtain ⟨rfl, _⟩ := Worker.adding.inj hr
      exact ha.carryOk i r rest (Or.inl hw)
  · intro part
    rw [hw]
    cases part with
    | total =>
        simp only [apply_one, Function.update_self, Worker.left, if_true]
        rw [Multiset.cons_add, Multiset.add_cons]
    | url => rfl
    | ref => rfl

theorem adding_inv (hc : Control files n s) (ha : Accounts files n s applied) (hi : i < n)
    {r : Record} {rest : Text} (hw : s.workers i = .adding r rest) {s' : System}
    (h : worker files s i = some s') :
    Control files n s' ∧ ∃ applied', Accounts files n s' applied' := by
  simp only [worker, hw, Option.some.injEq] at h
  subst h
  obtain ⟨hpos, hlt⟩ := ha.carryOk i r rest (Or.inr hw)
  refine ⟨hc.setTotals.setWorker nofun nofun, apply_one applied .url r,
    ha.move hi (carryOk_of_ne nofun nofun) (ha.sums.url_map_add hpos hlt) ?_⟩
  intro part
  rw [hw]
  cases part with
  | total => rfl
  | url =>
      show r ::ₘ applied .url + demand .url (records rest) =
        applied .url + r ::ₘ demand .url (records rest)
      rw [Multiset.cons_add, Multiset.add_cons]
  | ref => rfl

theorem referring_inv (hc : Control files n s) (ha : Accounts files n s applied) (hi : i < n)
    {r : Record} {rest : Text} (hw : s.workers i = .referring r rest) {s' : System}
    (h : worker files s i = some s') :
    Control files n s' ∧ ∃ applied', Accounts files n s' applied' := by
  simp only [worker, hw, Option.some.injEq] at h
  subst h
  refine ⟨hc.setTotals.setWorker nofun nofun, apply_one applied .ref r,
    ha.move hi (carryOk_of_ne nofun nofun) ha.sums.ref_map_inc ?_⟩
  intro part
  rw [hw]
  cases part with
  | total => rfl
  | url => rfl
  | ref =>
      show r ::ₘ applied .ref + demand .ref (records rest) =
        applied .ref + r ::ₘ demand .ref (records rest)
      rw [Multiset.cons_add, Multiset.add_cons]

/-- A worker that neither waits nor has ended keeps both invariants when it moves. -/
theorem worker_inv (hc : Control files n s) (ha : Accounts files n s applied) (hi : i < n)
    {s' : System} (h : worker files s i = some s') :
    Control files n s' ∧ ∃ applied', Accounts files n s' applied' := by
  cases hw : s.workers i with
  | waiting => simp [worker, hw] at h
  | ended => simp [worker, hw] at h
  | entering =>
      simp only [worker, hw, Option.some.injEq] at h
      subst h
      exact ⟨take_file_control hc hi, applied, take_file_accounts ha hi hw⟩
  | opening idx => exact opening_inv hc ha hi hw h
  | reading rest => exact reading_inv hc ha hi hw h
  | counting r rest => exact counting_inv hc ha hi hw h
  | adding r rest => exact adding_inv hc ha hi hw h
  | referring r rest => exact referring_inv hc ha hi hw h

/-- `main` wakes the workers when there are no files, and joins them. -/
theorem main_inv (hc : Control files n s) (ha : Accounts files n s applied) {s' : System}
    (h : main files s n = some s') : Control files n s' ∧ Accounts files n s' applied := by
  unfold main at h
  cases hmain : s.main with
  | starting =>
      simp only [hmain, Option.some.injEq] at h
      by_cases hempty : files.length = 0
      · rw [if_pos hempty] at h
        subst h
        have heq : s.next = files.length := by have := hc.next_le; omega
        refine ⟨⟨hc.next_le, fun _ _ => rfl, fun _ _ => rfl, fun j hj => ?_, fun _ _ => ⟨rfl, heq⟩,
          hc.taken, hc.takers⟩, fun j r rest hj => ?_, ha.sums, fun part => ?_⟩
        · simp only [System.finish] at hj
          cases hworker : s.workers j <;> rw [hworker] at hj <;> cases hj
        · exact carryOk_wake (ha.carryOk j) r rest hj
        · rw [← ha.balance part, ← held_finish files n part s]
          rfl
      · rw [if_neg hempty] at h
        subst h
        exact ⟨⟨hc.next_le, hc.finished_of_last, fun _ hlen => absurd hlen hempty, hc.waiting, hc.ended,
          hc.taken, hc.takers⟩, ha.carried, ha.sums, ha.balance⟩
  | joining =>
      simp only [hmain] at h
      split at h
      · obtain rfl := Option.some.inj h
        refine ⟨⟨hc.next_le, hc.finished_of_last, fun _ hlen => ?_, hc.waiting, hc.ended, hc.taken,
          hc.takers⟩, ha.carried, ha.sums, ha.balance⟩
        exact hc.finished_of_empty (by rw [hmain]; nofun) hlen
      · cases h
  | joined => rw [hmain] at h; cases h

/-- A worker that wakes up for no reason looks at the queue again. -/
theorem spurious_inv (hc : Control files n s) (ha : Accounts files n s applied) (hi : i < n)
    (hw : s.workers i = .waiting) :
    Control files n (s.setWorker i .entering) ∧ Accounts files n (s.setWorker i .entering) applied := by
  refine ⟨hc.setWorker nofun nofun, ha.move (t := s.totals) hi ?_ ha.sums fun part => ?_⟩
  · rintro r rest (h | h) <;> cases h
  · rw [hw]
    rfl

theorem reachable_inv (h : Reachable files n s) :
    Control files n s ∧ ∃ applied, Accounts files n s applied := by
  induction h with
  | initial => exact ⟨control_initial, _, accounts_initial⟩
  | @step s t e _ hstep ih =>
      obtain ⟨hc, applied, ha⟩ := ih
      cases e with
      | worker i =>
          simp only [step] at hstep
          split at hstep
          · rename_i hi
            exact worker_inv hc ha hi hstep
          · cases hstep
      | main =>
          obtain ⟨hc', ha'⟩ := main_inv hc ha hstep
          exact ⟨hc', applied, ha'⟩
      | spurious i =>
          simp only [step] at hstep
          split at hstep
          · rename_i hi
            obtain rfl := Option.some.inj hstep
            obtain ⟨hc', ha'⟩ := spurious_inv hc ha hi.1 hi.2
            exact ⟨hc', applied, ha'⟩
          · cases hstep

/-- While a worker has not ended, a worker or `main` can move. -/
theorem enabled_of_not_ended (hc : Control files n s) (hi : i < n) (hw : s.workers i ≠ .ended) :
    ∃ e, (∀ j, e ≠ .spurious j) ∧ (step files s n e).isSome = true := by
  by_cases hwaiting : s.workers i = .waiting
  · obtain ⟨hfin, hnext⟩ := hc.waiting i hwaiting
    have hempty : files.length = 0 := by
      by_contra hne
      have hfin' := hc.finished_of_last hnext (Nat.pos_of_ne_zero hne)
      rw [hfin] at hfin'
      cases hfin'
    have hstarting : s.main = .starting := by
      by_contra hne
      have hfin' := hc.finished_of_empty hne hempty
      rw [hfin] at hfin'
      cases hfin'
    refine ⟨.main, nofun, ?_⟩
    simp only [step, main, hstarting, Option.isSome_some]
  · refine ⟨.worker i, nofun, ?_⟩
    simp only [step, if_pos hi, worker]
    cases hcase : s.workers i with
    | waiting => exact absurd hcase hwaiting
    | ended => exact absurd hcase hw
    | opening idx =>
        dsimp only
        split <;> rfl
    | reading rest =>
        dsimp only
        split
        · rfl
        · split <;> rfl
    | _ => rfl

end Invariant

end OtusCProg.LogReader
