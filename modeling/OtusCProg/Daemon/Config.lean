import OtusCProg.Library.CBuffer
import Mathlib.Data.Option.Basic
import Mathlib.Logic.Function.Basic

/-!
# The configuration of the daemon

`load_config` goes through the scalars of the file and does not tell a key from a
value. A value that is one of the three names makes it take the next key for the
value of that name, and the value behind that key for a key. Of a scalar with a zero
byte in it only the C string in front is seen. What it returns is stated for a flat
mapping, whose scalars are its keys and values in turn.
-/

namespace OtusCProg.Daemon
open Library

/-- What `yaml_parser_parse` delivers; the value of a scalar may have a zero byte in it. -/
inductive YamlEvent where
  | scalar (value : Text)
  | stream_end
  | other
  | error

/-- `struct config` -/
structure Config where
  file_path : Text
  socket_path : Text
  pid_path : Text
deriving DecidableEq

/-- `cfg` and the three flags of `load_config`. -/
structure Loader where
  file_path : Option Text
  socket_path : Option Text
  pid_path : Option Text
  in_file_path : Bool
  in_socket_path : Bool
  in_pid_path : Bool

def Loader.start : Loader := ⟨none, none, none, false, false, false⟩

/-- The branch of `YAML_SCALAR_EVENT`; `strdup` and `strcmp` stop at a zero byte. -/
def Loader.scalar (l : Loader) (value : Text) : Loader :=
  let value := cstr value
  if l.in_file_path then { l with file_path := some value, in_file_path := false }
  else if l.in_socket_path then { l with socket_path := some value, in_socket_path := false }
  else if l.in_pid_path then { l with pid_path := some value, in_pid_path := false }
  else if value = text "file_path" then { l with in_file_path := true }
  else if value = text "socket_path" then { l with in_socket_path := true }
  else if value = text "pid_path" then { l with in_pid_path := true }
  else l

/-- The loop of `load_config`; there is no `cfg` behind a parse error, and the events end
with the end of the stream. -/
def load_loop (l : Loader) : List YamlEvent → Option Loader
  | [] => none
  | .scalar value :: events => load_loop (l.scalar value) events
  | .stream_end :: _ => some l
  | .other :: events => load_loop l events
  | .error :: _ => none

/-- `load_config` on a file that can be opened. -/
def load_config (events : List YamlEvent) : Option Config :=
  match load_loop .start events with
  | some ⟨some file_path, some socket_path, some pid_path, _, _, _⟩ =>
      some ⟨file_path, socket_path, pid_path⟩
  | _ => none

/-- The events of a document that is a flat mapping. -/
def document (doc : List (Text × Text)) : List YamlEvent :=
  .other :: .other :: .other :: (doc.flatMap fun pair => [.scalar pair.1, .scalar pair.2]) ++
    [.other, .other, .stream_end]

def names : List Text := [text "file_path", text "socket_path", text "pid_path"]

/-- The configuration with these values. -/
def Config.of (value : Text → Option Text) : Option Config := do
  let file_path ← value (text "file_path")
  let socket_path ← value (text "socket_path")
  let pid_path ← value (text "pid_path")
  pure ⟨file_path, socket_path, pid_path⟩

/-- The configuration that a mapping stands for, if it has all three keys. -/
def meant (doc : List (Text × Text)) : Option Config := Config.of fun name => doc.lookup name

/-- The mapping as C strings. -/
def seen (doc : List (Text × Text)) : List (Text × Text) :=
  doc.map fun pair => (cstr pair.1, cstr pair.2)

/-- The pair in front has one of the names as its value, and is itself displaced or
has none of them as its key. -/
def displaced (doc : List (Text × Text)) : Nat → Bool
  | 0 => false
  | i + 1 =>
      match doc[i]? with
      | none => false
      | some pair => decide (pair.2 ∈ names) && (displaced doc i || !decide (pair.1 ∈ names))

/-- The name and the value that a pair gives: its own, or, where it is displaced, the
value in front of it and its key. -/
def given (doc : List (Text × Text)) (i : Nat) : Option (Text × Text) :=
  match doc[i]? with
  | none => none
  | some pair =>
      if displaced doc i then doc[i - 1]?.map fun before => (before.2, pair.1)
      else if pair.1 ∈ names then some pair
      else none

/-- The last pair that gives the name a value gives this one. -/
def LastGives (doc : List (Text × Text)) (name value : Text) : Prop :=
  ∃ i, given doc i = some (name, value) ∧ ∀ j, i < j → ∀ other, given doc j ≠ some (name, other)

/-- Of the C strings, the last pair that gives a name a value gives the one that the mapping has
for it, where all three names are keys; else some name is given no value. -/
structure Undisturbed (doc : List (Text × Text)) : Prop where
  complete : (∀ name ∈ names, (doc.lookup name).isSome) →
    ∀ name ∈ names, ∀ value, doc.lookup name = some value → LastGives (seen doc) name value
  incomplete : (∃ name ∈ names, doc.lookup name = none) →
    ∃ name ∈ names, ∀ i value, given (seen doc) i ≠ some (name, value)

/-- The scanner as such: the name whose value comes next, and the values so far. -/
structure Scan where
  pending : Option Text
  value : Text → Option Text

def Scan.start : Scan := ⟨none, fun _ => none⟩

def Scan.scalar (s : Scan) (value : Text) : Scan :=
  match s.pending with
  | some name => ⟨none, Function.update s.value name (some value)⟩
  | none => if value ∈ names then ⟨some value, s.value⟩ else s

/-- The flags of `load_config` are one pending name. -/
structure Loader.Refines (l : Loader) (s : Scan) : Prop where
  file_path : l.file_path = s.value (text "file_path")
  socket_path : l.socket_path = s.value (text "socket_path")
  pid_path : l.pid_path = s.value (text "pid_path")
  in_file_path : l.in_file_path = decide (s.pending = some (text "file_path"))
  in_socket_path : l.in_socket_path = decide (s.pending = some (text "socket_path"))
  in_pid_path : l.in_pid_path = decide (s.pending = some (text "pid_path"))
  pending : ∀ name, s.pending = some name → name ∈ names

theorem mem_names {name : Text} : name ∈ names ↔
    name = text "file_path" ∨ name = text "socket_path" ∨ name = text "pid_path" := by
  simp [names]

theorem names_ne : text "file_path" ≠ text "socket_path" ∧ text "file_path" ≠ text "pid_path" ∧
    text "socket_path" ≠ text "pid_path" := by decide

/-- A scalar behind a name is its value. -/
theorem Loader.Refines.scalar_pending {l : Loader} {s : Scan} (h : l.Refines s) {name : Text}
    (hpending : s.pending = some name) (value : Text) :
    (l.scalar value).Refines (s.scalar (cstr value)) := by
  obtain ⟨hfs, hfp, hsp⟩ := names_ne
  have hscan : s.scalar (cstr value) = ⟨none, Function.update s.value name (some (cstr value))⟩ := by
    rw [Scan.scalar, hpending]
  have hfile := h.in_file_path
  have hsocket := h.in_socket_path
  have hpid := h.in_pid_path
  rw [hpending] at hfile hsocket hpid
  rw [hscan]
  rcases mem_names.mp (h.pending name hpending) with rfl | rfl | rfl
  · simp only [Option.some.injEq, hfs, hfp, decide_true, decide_false] at hfile hsocket hpid
    rw [Loader.scalar, if_pos hfile]
    constructor
    all_goals simp [h.socket_path, h.pid_path, hsocket, hpid, Function.update_of_ne, hfs.symm, hfp.symm]
  · simp only [Option.some.injEq, hfs.symm, hsp, decide_true, decide_false] at hfile hsocket hpid
    rw [Loader.scalar, if_neg (by simp [hfile]), if_pos hsocket]
    constructor
    all_goals simp [h.file_path, h.pid_path, hfile, hpid, Function.update_of_ne, hfs, hsp.symm]
  · simp only [Option.some.injEq, hfp.symm, hsp.symm, decide_true, decide_false] at hfile hsocket hpid
    rw [Loader.scalar, if_neg (by simp [hfile]), if_neg (by simp [hsocket]), if_pos hpid]
    constructor
    all_goals simp [h.file_path, h.socket_path, hfile, hsocket, Function.update_of_ne, hfp, hsp]

/-- A scalar that is one of the names announces its value. -/
theorem Loader.Refines.scalar_free {l : Loader} {s : Scan} (h : l.Refines s)
    (hpending : s.pending = none) (value : Text) :
    (l.scalar value).Refines (s.scalar (cstr value)) := by
  obtain ⟨hfs, hfp, hsp⟩ := names_ne
  rw [Loader.scalar]
  generalize cstr value = value
  have hscan : s.scalar value = if value ∈ names then ⟨some value, s.value⟩ else s := by
    rw [Scan.scalar, hpending]
  have hfile := h.in_file_path
  have hsocket := h.in_socket_path
  have hpid := h.in_pid_path
  simp only [hpending, reduceCtorEq, decide_false] at hfile hsocket hpid
  rw [hscan, if_neg (by simp [hfile]), if_neg (by simp [hsocket]), if_neg (by simp [hpid])]
  by_cases hmem : value ∈ names
  · rw [if_pos hmem]
    rcases mem_names.mp hmem with rfl | rfl | rfl
    · rw [if_pos rfl]
      constructor
      all_goals simp [h.file_path, h.socket_path, h.pid_path, hsocket, hpid, hfs, hfp, mem_names]
    · rw [if_neg hfs.symm, if_pos rfl]
      constructor
      all_goals simp [h.file_path, h.socket_path, h.pid_path, hfile, hpid, hfs.symm, hsp, mem_names]
    · rw [if_neg hfp.symm, if_neg hsp.symm, if_pos rfl]
      constructor
      all_goals simp [h.file_path, h.socket_path, h.pid_path, hfile, hsocket, hfp.symm, hsp.symm, mem_names]
  · rw [if_neg hmem]
    rw [mem_names, not_or, not_or] at hmem
    rw [if_neg hmem.1, if_neg hmem.2.1, if_neg hmem.2.2]
    exact h

/-- One scalar keeps the flags and the pending name together. -/
theorem Loader.Refines.scalar {l : Loader} {s : Scan} (h : l.Refines s) (value : Text) :
    (l.scalar value).Refines (s.scalar (cstr value)) := by
  cases hpending : s.pending with
  | some name => exact h.scalar_pending hpending value
  | none => exact h.scalar_free hpending value

def Scan.pair (s : Scan) (pair : Text × Text) : Scan := (s.scalar pair.1).scalar pair.2

/-- The value that the pairs in front of `i` leave for each name. -/
def latest (doc : List (Text × Text)) : Nat → Text → Option Text
  | 0 => fun _ => none
  | i + 1 =>
      match given doc i with
      | none => latest doc i
      | some (name, value) => Function.update (latest doc i) name (some value)

theorem latest_eq_none {doc : List (Text × Text)} {i : Nat} {name : Text} :
    latest doc i name = none ↔ ∀ j < i, ∀ value, given doc j ≠ some (name, value) := by
  induction i with
  | zero => simp [latest]
  | succ i ih =>
      rw [Nat.forall_lt_succ_right, ← ih]
      rcases hgiven : given doc i with _ | ⟨key, value⟩
      · simp [latest, hgiven]
      · by_cases hkey : name = key
        · simp [latest, hgiven, hkey]
        · simp [latest, hgiven, hkey, Ne.symm hkey]

theorem latest_eq_some {doc : List (Text × Text)} {i : Nat} {name value : Text} :
    latest doc i name = some value ↔
      ∃ j < i, given doc j = some (name, value) ∧
        ∀ k, j < k → k < i → ∀ other, given doc k ≠ some (name, other) := by
  induction i with
  | zero => simp [latest]
  | succ i ih =>
      by_cases hi : ∃ own, given doc i = some (name, own)
      · -- the pair `i` is the last one to give the name a value
        obtain ⟨own, hown⟩ := hi
        simp only [latest, hown, Function.update_self, Option.some.injEq]
        constructor
        · rintro rfl
          exact ⟨i, i.lt_succ_self, hown, fun k hk hki => by omega⟩
        · rintro ⟨j, hj, hgiven, hlast⟩
          obtain rfl : j = i := by
            by_contra hne
            exact hlast i (by omega) i.lt_succ_self own hown
          rw [hown] at hgiven
          simpa using hgiven
      · simp only [not_exists] at hi
        have hsame : latest doc (i + 1) name = latest doc i name := by
          rcases hgiven : given doc i with _ | ⟨key, own⟩
          · simp [latest, hgiven]
          · have hkey : name ≠ key := by
              rintro rfl
              exact hi own hgiven
            simp [latest, hgiven, hkey]
        rw [hsame, ih]
        constructor
        · rintro ⟨j, hj, hgiven, hlast⟩
          refine ⟨j, by omega, hgiven, fun k hk hki => ?_⟩
          rcases Nat.lt_succ_iff_lt_or_eq.mp hki with hlt | rfl
          · exact hlast k hk hlt
          · exact hi
        · rintro ⟨j, hj, hgiven, hlast⟩
          rcases Nat.lt_succ_iff_lt_or_eq.mp hj with hlt | rfl
          · exact ⟨j, hlt, hgiven, fun k hk hki => hlast k hk (by omega)⟩
          · exact absurd hgiven (hi value)

theorem given_eq_none_of_length_le {doc : List (Text × Text)} {i : Nat} (h : doc.length ≤ i) :
    given doc i = none := by
  rw [given, List.getElem?_eq_none h]

/-- Over the whole mapping the last value is the one of the last pair that gives one. -/
theorem latest_length_eq_some {doc : List (Text × Text)} {name value : Text} :
    latest doc doc.length name = some value ↔ LastGives doc name value := by
  rw [latest_eq_some]
  constructor
  · rintro ⟨j, hj, hgiven, hlast⟩
    refine ⟨j, hgiven, fun k hk => ?_⟩
    rcases lt_or_ge k doc.length with hlt | hge
    · exact hlast k hk hlt
    · simp [given_eq_none_of_length_le hge]
  · rintro ⟨j, hgiven, hlast⟩
    have hj : j < doc.length := by
      by_contra hge
      simp [given_eq_none_of_length_le (not_lt.mp hge)] at hgiven
    exact ⟨j, hj, hgiven, fun k hk _ => hlast k hk⟩

theorem latest_length_eq_none {doc : List (Text × Text)} {name : Text} :
    latest doc doc.length name = none ↔ ∀ i value, given doc i ≠ some (name, value) := by
  rw [latest_eq_none]
  constructor
  · intro h i value
    rcases lt_or_ge i doc.length with hlt | hge
    · exact h i hlt value
    · simp [given_eq_none_of_length_le hge]
  · exact fun h i _ => h i

/-- A displaced pair has a pair in front. -/
theorem exists_before {doc : List (Text × Text)} {i : Nat} (h : displaced doc i = true) :
    ∃ before, doc[i - 1]? = some before := by
  cases i with
  | zero => simp [displaced] at h
  | succ i =>
      rw [displaced] at h
      cases hpair : doc[i]? with
      | none => simp [hpair] at h
      | some before => exact ⟨before, by simp [hpair]⟩

/-- What the scanner holds behind the first `i` pairs. -/
def Scan.at (doc : List (Text × Text)) (i : Nat) : Scan where
  pending := if displaced doc i then doc[i - 1]?.map Prod.snd else none
  value := latest doc i

/-- One pair moves the scanner on. -/
theorem Scan.at_succ {doc : List (Text × Text)} {i : Nat} {pair : Text × Text}
    (hpair : doc[i]? = some pair) : (Scan.at doc i).pair pair = Scan.at doc (i + 1) := by
  cases hdisplaced : displaced doc i with
  | true =>
      -- the key is taken for a value, and the value for a key
      obtain ⟨before, hbefore⟩ := exists_before hdisplaced
      have hgiven : given doc i = some (before.2, pair.1) := by
        simp [given, hpair, hdisplaced, hbefore]
      by_cases hvalue : pair.2 ∈ names
      · simp [Scan.at, Scan.pair, Scan.scalar, latest, displaced, hpair, hdisplaced, hbefore, hgiven, hvalue]
      · simp [Scan.at, Scan.pair, Scan.scalar, latest, displaced, hpair, hdisplaced, hbefore, hgiven, hvalue]
  | false =>
      by_cases hkey : pair.1 ∈ names
      · have hgiven : given doc i = some pair := by
          simp [given, hpair, hdisplaced, hkey]
        simp [Scan.at, Scan.pair, Scan.scalar, latest, displaced, hpair, hdisplaced, hgiven, hkey]
      · have hgiven : given doc i = none := by
          simp [given, hpair, hdisplaced, hkey]
        by_cases hvalue : pair.2 ∈ names
        · simp [Scan.at, Scan.pair, Scan.scalar, latest, displaced, hpair, hdisplaced, hgiven, hkey, hvalue]
        · simp [Scan.at, Scan.pair, Scan.scalar, latest, displaced, hpair, hdisplaced, hgiven, hkey, hvalue]

/-- What the scanner holds behind any number of pairs. -/
theorem Scan.foldl_take (doc : List (Text × Text)) (i : Nat) (hi : i ≤ doc.length) :
    (doc.take i).foldl Scan.pair .start = Scan.at doc i := by
  induction i with
  | zero => rfl
  | succ i ih =>
      have hpair : doc[i]? = some doc[i] := List.getElem?_eq_getElem hi
      rw [List.take_succ_eq_append_getElem hi, List.foldl_append, ih (by omega)]
      exact Scan.at_succ hpair

def Loader.pair (l : Loader) (pair : Text × Text) : Loader := (l.scalar pair.1).scalar pair.2

theorem Loader.refines_start : Loader.start.Refines .start := by
  constructor
  all_goals simp [Loader.start, Scan.start]

theorem Loader.Refines.foldl {l : Loader} {s : Scan} (h : l.Refines s) (doc : List (Text × Text)) :
    (doc.foldl Loader.pair l).Refines ((seen doc).foldl Scan.pair s) := by
  induction doc generalizing l s with
  | nil => exact h
  | cons pair doc ih => exact ih ((h.scalar pair.1).scalar pair.2)

theorem load_loop_pairs (doc : List (Text × Text)) (l : Loader) (events : List YamlEvent) :
    load_loop l ((doc.flatMap fun pair => [.scalar pair.1, .scalar pair.2]) ++ events) =
      load_loop (doc.foldl Loader.pair l) events := by
  induction doc generalizing l with
  | nil => rfl
  | cons pair doc ih => exact ih (l.pair pair)

/-- `load_config` returns the last value given to each name. -/
theorem load_config_document (doc : List (Text × Text)) :
    load_config (document doc) = Config.of (latest (seen doc) (seen doc).length) := by
  have hloop : load_loop .start (document doc) = some (doc.foldl Loader.pair .start) := by
    exact load_loop_pairs doc .start [.other, .other, .stream_end]
  have hrefines := Loader.refines_start.foldl doc
  have hscan := Scan.foldl_take (seen doc) (seen doc).length le_rfl
  rw [List.take_length] at hscan
  rw [hscan] at hrefines
  rw [load_config, hloop]
  generalize doc.foldl Loader.pair .start = l at hrefines
  obtain ⟨hfile, hsocket, hpid, -, -, -, -⟩ := hrefines
  obtain ⟨file_path, socket_path, pid_path, _, _, _⟩ := l
  simp only [Scan.at] at hfile hsocket hpid
  subst hfile hsocket hpid
  rw [Config.of]
  cases latest (seen doc) (seen doc).length (text "file_path") with
  | none => rfl
  | some _ =>
      cases latest (seen doc) (seen doc).length (text "socket_path") with
      | none => rfl
      | some _ => cases latest (seen doc) (seen doc).length (text "pid_path") with
        | none => rfl
        | some _ => rfl

theorem Config.of_eq_some {value : Text → Option Text} {config : Config} :
    Config.of value = some config ↔
      value (text "file_path") = some config.file_path ∧
        value (text "socket_path") = some config.socket_path ∧
        value (text "pid_path") = some config.pid_path := by
  obtain ⟨file_path, socket_path, pid_path⟩ := config
  simp [Config.of, Option.bind_eq_some_iff]

theorem Config.of_eq_none {value : Text → Option Text} :
    Config.of value = none ↔ ∃ name ∈ names, value name = none := by
  have hbind : Config.of value = none ↔ value (text "file_path") = none ∨
      value (text "socket_path") = none ∨ value (text "pid_path") = none := by
    cases hfile : value (text "file_path") with
    | none => simp [Config.of, hfile]
    | some _ =>
        cases hsocket : value (text "socket_path") with
        | none => simp [Config.of, hsocket]
        | some _ => cases hpid : value (text "pid_path") with
          | none => simp [Config.of, hpid]
          | some _ => simp [Config.of, hfile, hsocket, hpid]
  simpa [names] using hbind

/-- Two ways to give values make one configuration where they agree on the three names,
or where both leave one of them out. -/
theorem Config.of_eq_of_iff {a b : Text → Option Text} :
    Config.of a = Config.of b ↔
      ((∀ name ∈ names, (b name).isSome) → ∀ name ∈ names, a name = b name) ∧
        ((∃ name ∈ names, b name = none) → ∃ name ∈ names, a name = none) := by
  cases hb : Config.of b with
  | none =>
      have hmissing := Config.of_eq_none.mp hb
      obtain ⟨name, hname, hnone⟩ := hmissing
      rw [Config.of_eq_none]
      constructor
      · intro ha
        exact ⟨fun hall => absurd (hall name hname) (by simp [hnone]), fun _ => ha⟩
      · exact fun h => h.2 ⟨name, hname, hnone⟩
  | some config =>
      obtain ⟨hfile, hsocket, hpid⟩ := Config.of_eq_some.mp hb
      rw [Config.of_eq_some]
      simp [names, hfile, hsocket, hpid]

theorem Scan.pair_of_notMem {s : Scan} (hs : s.pending = none) {pair : Text × Text}
    (hvalue : pair.2 ∉ names) : (s.pair pair).pending = none ∧
      (s.pair pair).value = if pair.1 ∈ names then Function.update s.value pair.1 (some pair.2)
        else s.value := by
  by_cases hkey : pair.1 ∈ names
  · simp [Scan.pair, Scan.scalar, hs, hkey]
  · simp [Scan.pair, Scan.scalar, hs, hkey, hvalue]

/-- Where no value is one of the names, each key that is one gets its own value. -/
theorem Scan.foldl_of_values (doc : List (Text × Text)) (hkeys : (doc.map Prod.fst).Nodup)
    (hvalues : ∀ pair ∈ doc, pair.2 ∉ names) {name : Text} (hname : name ∈ names) (s : Scan)
    (hs : s.pending = none) :
    (doc.foldl Scan.pair s).value name = (doc.lookup name).or (s.value name) := by
  induction doc generalizing s with
  | nil => rfl
  | cons pair doc ih =>
      obtain ⟨hpending, hvalue⟩ := Scan.pair_of_notMem hs (hvalues pair (by simp))
      rw [List.map_cons, List.nodup_cons] at hkeys
      rw [List.foldl_cons, ih hkeys.2 (fun other hother => hvalues other (by simp [hother])) _ hpending,
        hvalue, List.lookup_cons]
      by_cases heq : name = pair.1
      · subst heq
        have hnone : doc.lookup pair.1 = none := by
          rw [List.lookup_eq_none_iff]
          intro other hother
          have hne : pair.1 ≠ other.1 := by
            intro hsame
            apply hkeys.1
            exact List.mem_map.mpr ⟨other, hother, hsame.symm⟩
          simpa using hne
        simp [hnone, hname]
      · have hbeq : (name == pair.1) = false := by simpa using heq
        by_cases hkey : pair.1 ∈ names
        · simp [heq, hbeq, hkey]
        · simp [hbeq, hkey]

theorem seen_eq_self {doc : List (Text × Text)} (h : ∀ pair ∈ doc, 0 ∉ pair.1 ∧ 0 ∉ pair.2) :
    seen doc = doc := by
  rw [seen]
  conv_rhs => rw [← List.map_id doc]
  apply List.map_congr_left
  intro pair hpair
  rw [cstr_eq_self (h pair hpair).1, cstr_eq_self (h pair hpair).2]
  rfl

/-- A mapping of C strings with distinct keys, none of whose values is one of the names, is read
as it is meant. -/
theorem load_config_of_values {doc : List (Text × Text)} (hkeys : (doc.map Prod.fst).Nodup)
    (hstrings : ∀ pair ∈ doc, 0 ∉ pair.1 ∧ 0 ∉ pair.2) (hvalues : ∀ pair ∈ doc, pair.2 ∉ names) :
    load_config (document doc) = meant doc := by
  have hlatest (name : Text) (hname : name ∈ names) : latest doc doc.length name = doc.lookup name := by
    have hscan := Scan.foldl_take doc doc.length le_rfl
    have hvalue := Scan.foldl_of_values doc hkeys hvalues hname .start rfl
    rw [List.take_length] at hscan
    rw [hscan] at hvalue
    simpa [Scan.at, Scan.start] using hvalue
  rw [load_config_document, seen_eq_self hstrings, meant, Config.of_eq_of_iff]
  refine ⟨fun _ name hname => hlatest name hname, ?_⟩
  rintro ⟨name, hname, hnone⟩
  exact ⟨name, hname, (hlatest name hname).trans hnone⟩

/-- What `load_config` makes of a flat mapping is what the mapping means exactly where its C strings
leave it undisturbed. -/
theorem load_config_eq_meant_iff (doc : List (Text × Text)) :
    load_config (document doc) = meant doc ↔ Undisturbed doc := by
  rw [load_config_document, meant, Config.of_eq_of_iff]
  constructor
  · rintro ⟨hcomplete, hincomplete⟩
    refine ⟨fun hall name hname value hvalue => ?_, fun hmissing => ?_⟩
    · rw [← latest_length_eq_some, hcomplete hall name hname, hvalue]
    · obtain ⟨name, hname, hnone⟩ := hincomplete hmissing
      exact ⟨name, hname, latest_length_eq_none.mp hnone⟩
  · rintro ⟨hcomplete, hincomplete⟩
    refine ⟨fun hall name hname => ?_, fun hmissing => ?_⟩
    · obtain ⟨value, hvalue⟩ := Option.isSome_iff_exists.mp (hall name hname)
      rw [hvalue, latest_length_eq_some]
      exact hcomplete hall name hname value hvalue
    · obtain ⟨name, hname, hnone⟩ := hincomplete hmissing
      exact ⟨name, hname, latest_length_eq_none.mpr hnone⟩

/-- A value that is one of the names hides the pair behind it. -/
theorem load_config_hidden : ¬ ∀ doc : List (Text × Text), (doc.map Prod.fst).Nodup →
    load_config (document doc) = meant doc := by
  intro h
  have hhidden := h [(text "log_of", text "file_path"), (text "file_path", text "/a"),
    (text "socket_path", text "/s"), (text "pid_path", text "/p")] (by decide)
  exact absurd hhidden (by decide)

end OtusCProg.Daemon
