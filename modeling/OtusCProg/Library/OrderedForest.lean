import Mathlib.Data.List.Basic

/-!
# Ordered forests in a tree store

A tree store keeps rows that are appended below a row, or at the top, and labelled. What a walk
of a forest appends below a row shows this forest there and no other one, and leaves every other
row as it was.
-/

namespace OtusCProg.Library

/-- A list of labels, each with a forest below it. -/
inductive Forest (α : Type*) where
  | nil
  | cons (label : α) (below rest : Forest α)
deriving DecidableEq

/-- The operations on a store with rows of type `I`; no row stands for the top. -/
structure TreeStore (S I α : Type*) where
  new : S
  append : S → Option I → I × S
  set : S → I → α → S
  children : S → Option I → List I
  label : S → I → Option α

namespace TreeStore
variable {S I α : Type*} {t : TreeStore S I α} {s s' : S} {sound : S → Prop} {valid : S → I → Prop}

/-- The row is one of the store, or none. -/
def Valid (valid : S → I → Prop) (s : S) (parent : Option I) : Prop := ∀ row ∈ parent, valid s row

/-- What the operations do: a new row is the last child of its parent, has no children and no label,
and a label is set; every other row stays as it is. -/
structure Lawful (t : TreeStore S I α) (sound : S → Prop) (valid : S → I → Prop) : Prop where
  new_sound : sound t.new
  new_children : t.children t.new none = []
  append_sound : ∀ s parent, sound s → Valid valid s parent → sound (t.append s parent).2
  append_fresh : ∀ s parent, sound s → ¬valid s (t.append s parent).1
  append_valid : ∀ s parent row,
    valid (t.append s parent).2 row ↔ valid s row ∨ row = (t.append s parent).1
  append_children : ∀ s parent, sound s → Valid valid s parent →
    t.children (t.append s parent).2 parent = t.children s parent ++ [(t.append s parent).1]
  append_leaf : ∀ s parent, sound s → Valid valid s parent →
    t.children (t.append s parent).2 (some (t.append s parent).1) = []
  append_other : ∀ s parent other, other ≠ parent → Valid valid s other →
    t.children (t.append s parent).2 other = t.children s other
  append_label : ∀ s parent row, valid s row → t.label (t.append s parent).2 row = t.label s row
  set_sound : ∀ s row label, sound s → sound (t.set s row label)
  set_valid : ∀ s row label other, valid (t.set s row label) other ↔ valid s other
  set_children : ∀ s row label parent, t.children (t.set s row label) parent = t.children s parent
  set_label : ∀ s row label, valid s row → t.label (t.set s row label) row = some label
  set_other : ∀ s row label other, other ≠ row → t.label (t.set s row label) other = t.label s other

/-- Some rows, and those below them, show a forest and are all among some set. -/
def Shows (t : TreeStore S I α) (s : S) (among : I → Prop) : List I → Forest α → Prop
  | rows, .nil => rows = []
  | rows, .cons label below rest => ∃ row more, rows = row :: more ∧ among row ∧
      t.label s row = some label ∧ Shows t s among (t.children s (some row)) below ∧
      Shows t s among more rest

/-- Rows show one forest at most. -/
theorem Shows.unique {among among' : I → Prop} {rows : List I} {f g : Forest α}
    (hf : t.Shows s among rows f) (hg : t.Shows s among' rows g) : f = g := by
  induction f generalizing rows g with
  | nil =>
      obtain rfl : rows = [] := hf
      cases g with
      | nil => rfl
      | cons label below rest =>
          obtain ⟨row, more, hrows, -⟩ := hg
          cases hrows
  | cons label below rest ihbelow ihrest =>
      obtain ⟨row, more, rfl, -, hlabel, hbelow, hrest⟩ := hf
      cases g with
      | nil => cases hg
      | cons label' below' rest' =>
          obtain ⟨row', more', hrows, -, hlabel', hbelow', hrest'⟩ := hg
          obtain ⟨rfl, rfl⟩ := List.cons.inj hrows
          obtain rfl : label = label' := Option.some.inj (hlabel.symm.trans hlabel')
          rw [ihbelow hbelow hbelow', ihrest hrest hrest']

/-- What some rows show, they show in every store that leaves them alone. -/
theorem Shows.frame {among among' : I → Prop} {rows : List I} {f : Forest α}
    (h : t.Shows s among rows f) (hmore : ∀ row, among row → among' row)
    (hchildren : ∀ row, among row → t.children s' (some row) = t.children s (some row))
    (hlabel : ∀ row, among row → t.label s' row = t.label s row) : t.Shows s' among' rows f := by
  induction f generalizing rows with
  | nil => exact h
  | cons label below rest ihbelow ihrest =>
      obtain ⟨row, more, hrows, hrow, hlabelled, hbelow, hrest⟩ := h
      refine ⟨row, more, hrows, hmore row hrow, (hlabel row hrow).trans hlabelled, ?_, ihrest hrest⟩
      rw [hchildren row hrow]
      exact ihbelow hbelow

/-- The rows of `s'` that `s` has not. -/
def Fresh (valid : S → I → Prop) (s s' : S) (row : I) : Prop := ¬valid s row ∧ valid s' row

/-- Below `parent`, the store shows one forest more, in rows of its own; the other rows are as they
were. -/
structure Grows (t : TreeStore S I α) (sound : S → Prop) (valid : S → I → Prop) (parent : Option I)
    (f : Forest α) (s s' : S) : Prop where
  stays_sound : sound s'
  stays_valid : ∀ row, valid s row → valid s' row
  shows_new : ∃ rows, t.children s' parent = t.children s parent ++ rows ∧
    t.Shows s' (Fresh valid s s') rows f
  same_children : ∀ other, other ≠ parent → Valid valid s other →
    t.children s' other = t.children s other
  same_label : ∀ row, valid s row → t.label s' row = t.label s row

theorem Grows.nil {parent : Option I} (h : sound s) : t.Grows sound valid parent .nil s s where
  stays_sound := h
  stays_valid _ hrow := hrow
  shows_new := ⟨[], (List.append_nil _).symm, rfl⟩
  same_children _ _ _ := rfl
  same_label _ _ := rfl

/-- The row of `label` is appended below `parent`. -/
def named (t : TreeStore S I α) (s : S) (parent : Option I) (label : α) : I × S :=
  ((t.append s parent).1, t.set (t.append s parent).2 (t.append s parent).1 label)

section Named
variable {parent : Option I} {label : α}

theorem Lawful.valid_named (h : t.Lawful sound valid) (row : I) :
    valid (t.named s parent label).2 row ↔ valid s row ∨ row = (t.named s parent label).1 :=
  (h.set_valid ..).trans (h.append_valid s parent row)

/-- What was a row or the top stays one. -/
theorem Lawful.stays_valid_named (h : t.Lawful sound valid) {other : Option I}
    (hother : Valid valid s other) : Valid valid (t.named s parent label).2 other :=
  fun q hq => (h.valid_named q).mpr (Or.inl (hother q hq))

/-- The new row is one. -/
theorem Lawful.valid_new_named (h : t.Lawful sound valid) :
    Valid valid (t.named s parent label).2 (some (t.named s parent label).1) := by
  rintro q ⟨⟩
  exact (h.valid_named _).mpr (Or.inr rfl)

theorem Lawful.sound_named (h : t.Lawful sound valid) (label : α) (hs : sound s)
    (hparent : Valid valid s parent) : sound (t.named s parent label).2 :=
  h.set_sound _ _ label (h.append_sound s parent hs hparent)

theorem Lawful.fresh_named (h : t.Lawful sound valid) (hs : sound s) :
    ¬valid s (t.named s parent label).1 :=
  h.append_fresh s parent hs

theorem Lawful.children_named (h : t.Lawful sound valid) (hs : sound s)
    (hparent : Valid valid s parent) : t.children (t.named s parent label).2 parent =
      t.children s parent ++ [(t.named s parent label).1] :=
  (h.set_children ..).trans (h.append_children s parent hs hparent)

theorem Lawful.leaf_named (h : t.Lawful sound valid) (hs : sound s) (hparent : Valid valid s parent) :
    t.children (t.named s parent label).2 (some (t.named s parent label).1) = [] :=
  (h.set_children ..).trans (h.append_leaf s parent hs hparent)

theorem Lawful.other_named (h : t.Lawful sound valid) {other : Option I} (hne : other ≠ parent)
    (hother : Valid valid s other) :
    t.children (t.named s parent label).2 other = t.children s other :=
  (h.set_children ..).trans (h.append_other s parent other hne hother)

theorem Lawful.label_named (h : t.Lawful sound valid) :
    t.label (t.named s parent label).2 (t.named s parent label).1 = some label :=
  h.set_label _ _ label ((h.append_valid ..).mpr (Or.inr rfl))

theorem Lawful.same_label_named (h : t.Lawful sound valid) (hs : sound s) {row : I}
    (hrow : valid s row) : t.label (t.named s parent label).2 row = t.label s row := by
  have hne : row ≠ (t.append s parent).1 := fun heq => h.append_fresh s parent hs (heq ▸ hrow)
  exact (h.set_other _ _ label row hne).trans (h.append_label s parent row hrow)

/-- A label, the forest below its row, and the forest beside it. -/
theorem Lawful.grows_cons (h : t.Lawful sound valid) (hs : sound s) (hparent : Valid valid s parent)
    {s₂ : S} {below rest : Forest α}
    (hbelow : t.Grows sound valid (some (t.named s parent label).1) below (t.named s parent label).2 s₂)
    (hrest : t.Grows sound valid parent rest s₂ s') :
    t.Grows sound valid parent (.cons label below rest) s s' := by
  set row := (t.named s parent label).1
  set s₁ := (t.named s parent label).2
  have hold : ∀ other, valid s other → valid s₁ other :=
    fun other hother => (h.valid_named other).mpr (Or.inl hother)
  have hrow : valid s₁ row := (h.valid_named row).mpr (Or.inr rfl)
  have hfresh : ¬valid s row := h.fresh_named hs
  have hne : parent ≠ some row := fun heq => hfresh (hparent row heq)
  have hparent₁ : Valid valid s₁ parent := h.stays_valid_named hparent
  obtain ⟨inner, hinner, hshows⟩ := hbelow.shows_new
  obtain ⟨more, hmore, hbeside⟩ := hrest.shows_new
  rw [h.leaf_named hs hparent, List.nil_append] at hinner
  rw [hbelow.same_children parent hne hparent₁, h.children_named hs hparent] at hmore
  -- the rows below are neither the parent nor touched beside it
  have hframe : ∀ r, Fresh valid s₁ s₂ r → t.children s' (some r) = t.children s₂ (some r) := by
    intro r hr
    apply hrest.same_children
    · rintro rfl
      exact hr.1 (hparent₁ r rfl)
    · rintro q ⟨⟩
      exact hr.2
  refine ⟨hrest.stays_sound, ?_, ⟨row :: more, ?_, row, more, rfl, ?_, ?_, ?_, ?_⟩, ?_, ?_⟩
  · exact fun other hother => hrest.stays_valid _ (hbelow.stays_valid _ (hold other hother))
  · rw [hmore, List.append_assoc, List.singleton_append]
  · exact ⟨hfresh, hrest.stays_valid _ (hbelow.stays_valid _ hrow)⟩
  · rw [hrest.same_label _ (hbelow.stays_valid _ hrow), hbelow.same_label _ hrow]
    exact h.label_named
  · have hleaf : t.children s' (some row) = t.children s₂ (some row) := by
      apply hrest.same_children _ hne.symm
      rintro q ⟨⟩
      exact hbelow.stays_valid _ hrow
    rw [hleaf, hinner]
    apply hshows.frame _ hframe fun r hr => hrest.same_label r hr.2
    exact fun r hr => ⟨fun hvalid => hr.1 (hold r hvalid), hrest.stays_valid r hr.2⟩
  · apply hbeside.frame _ (fun _ _ => rfl) fun _ _ => rfl
    exact fun r hr => ⟨fun hvalid => hr.1 (hbelow.stays_valid r (hold r hvalid)), hr.2⟩
  · intro other hother hvalid
    have hvalid₁ : Valid valid s₁ other := fun q hq => hold q (hvalid q hq)
    have hother₁ : other ≠ some row := fun heq => hfresh (hvalid row heq)
    rw [hrest.same_children other hother fun q hq => hbelow.stays_valid q (hvalid₁ q hq),
      hbelow.same_children other hother₁ hvalid₁, h.other_named hother hvalid]
  · intro other hother
    rw [hrest.same_label _ (hbelow.stays_valid _ (hold other hother)),
      hbelow.same_label _ (hold other hother), h.same_label_named hs hother]

end Named

/-- A store that was new shows the forest. -/
theorem Grows.shows {f : Forest α} (h : t.Lawful sound valid)
    (hgrows : t.Grows sound valid none f t.new s) :
    t.Shows s (fun _ => True) (t.children s none) f := by
  obtain ⟨rows, hrows, hshows⟩ := hgrows.shows_new
  rw [h.new_children, List.nil_append] at hrows
  rw [hrows]
  exact hshows.frame (fun _ _ => trivial) (fun _ _ => rfl) fun _ _ => rfl

end TreeStore

/-! ## A store in memory -/

/-- A row with its parent, none at the top, and its label once it is set. -/
structure Row (α : Type*) where
  parent : Option ℕ
  label : Option α

namespace Rows
variable {α : Type*} {rows more : List (Row α)} {place : ℕ} {parent : Option ℕ}

/-- The places of the rows with a parent, where the first row has the given place. -/
def childrenFrom (place : ℕ) (parent : Option ℕ) : List (Row α) → List ℕ
  | [] => []
  | row :: rows =>
      if row.parent = parent then place :: childrenFrom (place + 1) parent rows
      else childrenFrom (place + 1) parent rows

/-- The rows in the order in which they were appended. -/
def store : TreeStore (List (Row α)) ℕ α where
  new := []
  append rows parent := (rows.length, rows ++ [⟨parent, none⟩])
  set rows row label := rows.modify row fun r => { r with label := some label }
  children rows parent := childrenFrom 0 parent rows
  label rows row := rows[row]?.bind Row.label

/-- Every parent is a row. -/
def Sound (rows : List (Row α)) : Prop := ∀ row ∈ rows, ∀ q ∈ row.parent, q < rows.length

theorem childrenFrom_append : childrenFrom place parent (rows ++ more) =
    childrenFrom place parent rows ++ childrenFrom (place + rows.length) parent more := by
  induction rows generalizing place with
  | nil => rfl
  | cons row rows ih =>
      have hplace : place + 1 + rows.length = place + (rows.length + 1) := by omega
      simp only [List.cons_append, childrenFrom, List.length_cons, ih, hplace]
      split <;> rfl

theorem childrenFrom_eq_nil (h : ∀ row ∈ rows, row.parent ≠ parent) :
    childrenFrom place parent rows = [] := by
  induction rows generalizing place with
  | nil => rfl
  | cons row rows ih =>
      rw [childrenFrom, if_neg (h row List.mem_cons_self)]
      exact ih fun row hrow => h row (List.mem_cons_of_mem _ hrow)

theorem childrenFrom_modify {f : Row α → Row α} (hf : ∀ row, (f row).parent = row.parent) (i : ℕ) :
    childrenFrom place parent (rows.modify i f) = childrenFrom place parent rows := by
  induction rows generalizing place i with
  | nil => cases i <;> rfl
  | cons row rows ih =>
      cases i with
      | zero => simp [childrenFrom, hf]
      | succ i => simp [childrenFrom, ih]

theorem map_parent_modify {f : Row α → Row α} (hf : ∀ row, (f row).parent = row.parent) (i : ℕ) :
    (rows.modify i f).map Row.parent = rows.map Row.parent := by
  induction rows generalizing i with
  | nil => cases i <;> rfl
  | cons row rows ih =>
      cases i with
      | zero => simp [hf]
      | succ i => simp [ih]

theorem Sound.append (h : Sound rows) {row : Row α} (hrow : ∀ q ∈ row.parent, q < rows.length) :
    Sound (rows ++ [row]) := by
  intro other hother q hq
  rw [List.length_append]
  rcases List.mem_append.mp hother with hother | hother
  · exact Nat.lt_add_right _ (h other hother q hq)
  · obtain rfl := List.mem_singleton.mp hother
    exact Nat.lt_add_right _ (hrow q hq)

theorem Sound.modify (h : Sound rows) {f : Row α → Row α} (hf : ∀ row, (f row).parent = row.parent)
    (i : ℕ) : Sound (rows.modify i f) := by
  intro row hrow q hq
  have hmem : row.parent ∈ rows.map Row.parent := by
    rw [← map_parent_modify hf i]
    exact List.mem_map_of_mem hrow
  obtain ⟨other, hother, heq⟩ := List.mem_map.mp hmem
  rw [List.length_modify]
  exact h other hother q (heq ▸ hq)

/-- The store in memory does what the operations should. -/
theorem lawful_store :
    (store : TreeStore (List (Row α)) ℕ α).Lawful Sound fun rows row => row < rows.length where
  new_sound := by
    rintro row ⟨⟩
  new_children := rfl
  append_sound rows parent hs hparent := hs.append hparent
  append_fresh rows parent _ := Nat.lt_irrefl rows.length
  append_valid rows parent row := by
    change row < (rows ++ [_]).length ↔ row < rows.length ∨ row = rows.length
    rw [List.length_append, List.length_singleton]
    omega
  append_children rows parent _ _ := by
    change childrenFrom 0 parent (rows ++ [_]) = childrenFrom 0 parent rows ++ [rows.length]
    rw [childrenFrom_append, Nat.zero_add]
    simp [childrenFrom]
  append_leaf rows parent hs hparent := by
    apply childrenFrom_eq_nil
    intro row hrow heq
    have hlt : ∀ q ∈ row.parent, q < rows.length := by
      rcases List.mem_append.mp hrow with hrow | hrow
      · exact hs row hrow
      · obtain rfl := List.mem_singleton.mp hrow
        exact hparent
    exact Nat.lt_irrefl _ (hlt _ heq)
  append_other rows parent other hne _ := by
    change childrenFrom 0 other (rows ++ [_]) = childrenFrom 0 other rows
    rw [childrenFrom_append]
    simp [childrenFrom, hne.symm]
  append_label rows parent row hrow := by
    change (rows ++ [_])[row]?.bind Row.label = rows[row]?.bind Row.label
    rw [List.getElem?_append_left hrow]
  set_sound rows row label hs :=
    Sound.modify (f := fun r => { r with label := some label }) hs (fun _ => rfl) row
  set_valid rows row label other := by
    change other < (rows.modify row _).length ↔ other < rows.length
    rw [List.length_modify]
  set_children rows row label parent :=
    childrenFrom_modify (f := fun r => { r with label := some label }) (fun _ => rfl) row
  set_label rows row label hrow := by
    change (rows.modify row _)[row]?.bind Row.label = some label
    simp [List.getElem?_eq_getElem hrow]
  set_other rows row label other hne := by
    change (rows.modify row _)[other]?.bind Row.label = rows[other]?.bind Row.label
    simp [hne.symm]

end Rows

end OtusCProg.Library
