import OtusCProg.Library.CText
import OtusCProg.Library.OrderedForest

/-!
# The tree of files of `16_oop_gtk`

`read_filenames_in_the_dir` with the tree store that it fills. The store is the one of GTK, of
which only what is documented is used, and the file system is what GLib says of it. The fuel bounds
the depth of the calls.
-/

namespace OtusCProg.FileTree
open Library

/-- What GLib answers: the names in a directory, none where it cannot be opened; whether a path is a
directory; and the path of a name in a directory. -/
structure GLib where
  g_dir_open : Text → Option (List Text)
  g_file_test : Text → Bool
  g_build_filename : Text → Text → Text

section Model
variable {Store Iter : Type} (gtk : TreeStore Store Iter Text) (glib : GLib)

/-- The row gets its parent, and is behind the other rows of it. -/
def gtk_tree_store_append (treestore : Store) (parent : Option Iter) : Iter × Store :=
  gtk.append treestore parent

/-- The column `FILENAME` of the row is set. -/
def gtk_tree_store_set (treestore : Store) (iter : Iter) (filename : Text) : Store :=
  gtk.set treestore iter filename

/-- The loop over the names of a directory. -/
def read_names (read_below : Text → Iter → Store → Option Store) (parent : Option Iter) (path : Text) :
    List Text → Store → Option Store
  | [], treestore => some treestore
  | filename :: names, treestore =>
      let (child, appended) := gtk_tree_store_append gtk treestore parent
      let treestore := gtk_tree_store_set gtk appended child filename
      let fileWithFullPath := glib.g_build_filename path filename
      if glib.g_file_test fileWithFullPath then
        match read_below fileWithFullPath child treestore with
        | none => none
        | some treestore => read_names read_below parent path names treestore
      else read_names read_below parent path names treestore

/-- A directory that cannot be opened has no names for `g_dir_read_name`. -/
def read_filenames_in_the_dir : ℕ → Text → Option Iter → Store → Option Store
  | 0, _, _, _ => none
  | fuel + 1, path, parent, treestore =>
      read_names gtk glib
        (fun below child store => read_filenames_in_the_dir fuel below (some child) store) parent path
        ((glib.g_dir_open path).getD []) treestore

def create_and_fill_model (fuel : ℕ) : Option Store :=
  read_filenames_in_the_dir gtk glib fuel (text ".") none gtk.new

end Model

/-- The names in a directory. -/
def names_in (glib : GLib) (path : Text) : List Text := (glib.g_dir_open path).getD []

/-- The forest of files below some names of a directory. -/
inductive Lists (glib : GLib) : Text → List Text → Forest Text → Prop where
  | done {path : Text} : Lists glib path [] .nil
  | file {path filename : Text} {names : List Text} {rest : Forest Text}
      (hfile : glib.g_file_test (glib.g_build_filename path filename) = false)
      (hrest : Lists glib path names rest) : Lists glib path (filename :: names) (.cons filename .nil rest)
  | dir {path filename : Text} {names : List Text} {below rest : Forest Text}
      (hdir : glib.g_file_test (glib.g_build_filename path filename) = true)
      (hbelow : Lists glib (glib.g_build_filename path filename)
        (names_in glib (glib.g_build_filename path filename)) below)
      (hrest : Lists glib path names rest) : Lists glib path (filename :: names) (.cons filename below rest)

/-! ## The store is the forest -/

section Rows
variable {Store Iter : Type} {gtk : TreeStore Store Iter Text} {glib : GLib} {sound : Store → Prop}
  {valid : Store → Iter → Prop} {path : Text} {names : List Text} {f : Forest Text} {fuel : ℕ}
  {parent : Option Iter} {treestore final : Store}

/-- The call for a directory, where so much fuel is left for those below. -/
def read_below (gtk : TreeStore Store Iter Text) (glib : GLib) (fuel : ℕ) (path : Text) (child : Iter)
    (treestore : Store) : Option Store :=
  read_filenames_in_the_dir gtk glib fuel path (some child) treestore

theorem read_filenames_succ (fuel : ℕ) (path : Text) (parent : Option Iter) (treestore : Store) :
    read_filenames_in_the_dir gtk glib (fuel + 1) path parent treestore =
      read_names gtk glib (read_below gtk glib fuel) parent path (names_in glib path) treestore := rfl

/-- One name: its row, what is below it, and the other names. -/
theorem read_names_cons {below : Text → Iter → Store → Option Store} {filename : Text} :
    read_names gtk glib below parent path (filename :: names) treestore =
      if glib.g_file_test (glib.g_build_filename path filename) then
        (below (glib.g_build_filename path filename) (gtk.named treestore parent filename).1
          (gtk.named treestore parent filename).2).bind fun filled =>
            read_names gtk glib below parent path names filled
      else read_names gtk glib below parent path names (gtk.named treestore parent filename).2 := by
  rw [read_names]
  simp only [gtk_tree_store_append, gtk_tree_store_set, TreeStore.named]
  split
  · cases below (glib.g_build_filename path filename) _ _ <;> rfl
  · rfl

variable (hgtk : gtk.Lawful sound valid)
include hgtk

/-- Enough fuel appends the forest below the names. -/
theorem read_names_of_lists (h : Lists glib path names f) : ∃ depth, ∀ fuel parent treestore,
    depth ≤ fuel → sound treestore → TreeStore.Valid valid treestore parent →
      ∃ final, read_names gtk glib (read_below gtk glib fuel) parent path names treestore = some final ∧
        gtk.Grows sound valid parent f treestore final := by
  induction h with
  | done => exact ⟨0, fun fuel parent treestore _ hs _ => ⟨treestore, rfl, .nil hs⟩⟩
  | @file path filename names rest hfile _ ih =>
      obtain ⟨depth, ih⟩ := ih
      refine ⟨depth, fun fuel parent treestore hfuel hs hparent => ?_⟩
      have hsound := hgtk.sound_named filename hs hparent
      obtain ⟨final, hread, hrest⟩ := ih fuel parent _ hfuel hsound (hgtk.stays_valid_named hparent)
      rw [read_names_cons, hfile, if_neg Bool.false_ne_true]
      exact ⟨final, hread, hgtk.grows_cons hs hparent (.nil hsound) hrest⟩
  | @dir path filename names below rest hdir _ _ ihbelow ihrest =>
      obtain ⟨depth, ihbelow⟩ := ihbelow
      obtain ⟨depth', ihrest⟩ := ihrest
      refine ⟨max (depth + 1) depth', fun fuel parent treestore hfuel hs hparent => ?_⟩
      obtain ⟨fuel, rfl⟩ : ∃ less, fuel = less + 1 := ⟨fuel - 1, by omega⟩
      have hsound := hgtk.sound_named filename hs hparent
      obtain ⟨filled, hfilled, hbelow⟩ := ihbelow fuel _ _ (by omega) hsound hgtk.valid_new_named
      have hparent' : TreeStore.Valid valid filled parent := fun q hq =>
        hbelow.stays_valid q (hgtk.stays_valid_named hparent q hq)
      obtain ⟨final, hread, hrest⟩ := ihrest (fuel + 1) parent filled (by omega) hbelow.stays_sound hparent'
      rw [read_names_cons, if_pos hdir, read_below, read_filenames_succ, hfilled, Option.bind_some]
      exact ⟨final, hread, hgtk.grows_cons hs hparent hbelow hrest⟩

/-- The loop appends the forest below its names, where each call of it appends the forest below a
directory. -/
theorem lists_of_below {below : Text → Iter → Store → Option Store}
    (hbelow : ∀ {path child treestore filled}, sound treestore → TreeStore.Valid valid treestore (some child) →
      below path child treestore = some filled →
        ∃ f, Lists glib path (names_in glib path) f ∧ gtk.Grows sound valid (some child) f treestore filled)
    (hs : sound treestore) (hparent : TreeStore.Valid valid treestore parent)
    (h : read_names gtk glib below parent path names treestore = some final) :
    ∃ f, Lists glib path names f ∧ gtk.Grows sound valid parent f treestore final := by
  induction names generalizing treestore with
  | nil =>
      obtain rfl := Option.some.inj h
      exact ⟨.nil, .done, .nil hs⟩
  | cons filename names ih =>
      have hsound := hgtk.sound_named filename hs hparent
      rw [read_names_cons] at h
      split at h
      · rename_i hdir
        obtain ⟨filled, hfilled, hnames⟩ := Option.bind_eq_some_iff.mp h
        obtain ⟨forest, hlists, hgrows⟩ := hbelow hsound hgtk.valid_new_named hfilled
        have hparent' : TreeStore.Valid valid filled parent := fun q hq =>
          hgrows.stays_valid q (hgtk.stays_valid_named hparent q hq)
        obtain ⟨rest, hlists', hrest⟩ := ih hgrows.stays_sound hparent' hnames
        exact ⟨_, .dir hdir hlists hlists', hgtk.grows_cons hs hparent hgrows hrest⟩
      · rename_i hfile
        obtain ⟨rest, hlists, hrest⟩ := ih hsound (hgtk.stays_valid_named hparent) h
        exact ⟨_, .file (Bool.eq_false_iff.mpr hfile) hlists,
          hgtk.grows_cons hs hparent (.nil hsound) hrest⟩

/-- Whatever a call appends is the forest below the names. -/
theorem lists_of_read_names (fuel : ℕ) {path : Text} {names : List Text} {parent : Option Iter}
    {treestore final : Store} (hs : sound treestore) (hparent : TreeStore.Valid valid treestore parent)
    (h : read_names gtk glib (read_below gtk glib fuel) parent path names treestore = some final) :
    ∃ f, Lists glib path names f ∧ gtk.Grows sound valid parent f treestore final := by
  induction fuel generalizing path names parent treestore final with
  | zero =>
      refine lists_of_below hgtk ?_ hs hparent h
      intro path child treestore filled _ _ hnone
      cases hnone
  | succ fuel ih => exact lists_of_below hgtk (fun hs' hchild hfilled => ih hs' hchild hfilled) hs hparent h

end Rows

/-- With any tree store that does what is documented: the program comes to its model if and only if
the tree of files below `.` is finite, and then the rows show this tree and no other one. -/
theorem model_shows_files {Store Iter : Type} {gtk : TreeStore Store Iter Text} {sound : Store → Prop}
    {valid : Store → Iter → Prop} (hgtk : gtk.Lawful sound valid) (glib : GLib) :
    ((∃ fuel treestore, create_and_fill_model gtk glib fuel = some treestore) ↔
        ∃ f, Lists glib (text ".") (names_in glib (text ".")) f) ∧
      ∀ fuel treestore, create_and_fill_model gtk glib fuel = some treestore →
        ∃ f, Lists glib (text ".") (names_in glib (text ".")) f ∧
          ∀ g, gtk.Shows treestore (fun _ => True) (gtk.children treestore none) g ↔ g = f := by
  have hreturns : ∀ fuel treestore, create_and_fill_model gtk glib fuel = some treestore →
      ∃ f, Lists glib (text ".") (names_in glib (text ".")) f ∧
        gtk.Grows sound valid none f gtk.new treestore := by
    intro fuel treestore h
    cases fuel with
    | zero => cases h
    | succ fuel => exact lists_of_read_names hgtk fuel hgtk.new_sound nofun h
  refine ⟨⟨?_, ?_⟩, ?_⟩
  · rintro ⟨fuel, treestore, h⟩
    obtain ⟨f, hf, -⟩ := hreturns fuel treestore h
    exact ⟨f, hf⟩
  · rintro ⟨f, hf⟩
    obtain ⟨depth, hread⟩ := read_names_of_lists hgtk hf
    obtain ⟨final, hfinal, -⟩ := hread depth none gtk.new le_rfl hgtk.new_sound nofun
    exact ⟨depth + 1, final, hfinal⟩
  · intro fuel treestore h
    obtain ⟨f, hf, hgrows⟩ := hreturns fuel treestore h
    have hshows := hgrows.shows hgtk
    refine ⟨f, hf, fun g => ⟨fun hg => hg.unique hshows, ?_⟩⟩
    intro hg
    rw [hg]
    exact hshows

/-- A directory with a directory of one file and, behind it, another file. -/
def threeFiles : GLib where
  g_dir_open path :=
    if path = text "." then some [text "src", text "README"]
    else if path = text "./src" then some [text "main.c"]
    else none
  g_file_test path := path = text "." ∨ path = text "./src"
  g_build_filename path filename := path ++ text "/" ++ filename

/-- The rows of the three files in memory. -/
theorem model_shows_files_threeFiles : ∃ treestore,
    create_and_fill_model Rows.store threeFiles 2 = some treestore ∧
      ∃ f, Lists threeFiles (text ".") (names_in threeFiles (text ".")) f ∧
        ∀ g, Rows.store.Shows treestore (fun _ => True) (Rows.store.children treestore none) g ↔ g = f :=
  ⟨_, rfl, (model_shows_files Rows.lawful_store threeFiles).2 2 _ rfl⟩

end OtusCProg.FileTree
