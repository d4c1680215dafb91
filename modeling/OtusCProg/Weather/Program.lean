import OtusCProg.Library.Allocator
import OtusCProg.Library.CText

/-!
# The weather program of `08_libraries_homework`

`main` with the block that `WriteMemoryCallback` lets grow. The transfer and the JSON
library are outside: which pieces arrive and whether the transfer succeeds, and what the
library says of a text. What `perror_if` prints to `stderr` is left out.
-/

namespace OtusCProg.Weather
open Library Allocator Attempt

/-- The calls of the JSON library; a missing object is a null pointer, and an index into what is no
array may abort. -/
structure JsonLibrary (J : Type) where
  json_tokener_parse_ex : Text → Option J
  json_object_object_get : Option J → Text → Option J
  json_object_array_get_idx : Option J → Nat → Option (Option J)
  json_object_get_string : Option J → Option Text

/-- What else the program asks from outside: which requests for memory are granted, the pieces that
arrive from an address and whether the transfer succeeds, and whether there is a tokener. -/
structure Outside where
  grants : Nat → Bool
  transfer : Text → List Text × Bool
  tokener : Bool

/-- How the program ends before the end of `main`: by `exit(1)`, in the JSON library, by printing a
null pointer, or by a write outside of `url`. -/
inductive Stop where
  | exit1
  | aborted
  | nullString
  | writeOutside
deriving DecidableEq

/-- The program reaches its end or stops before. -/
abbrev Run := Attempt Stop Allocator

variable {J : Type} (lib : JsonLibrary J) (o : Outside)

/-- Where it is null, `perror_if` frees the null pointer and exits. -/
def xmalloc : Run Nat := do
  match ← malloc o.grants with
  | none => throw .exit1
  | some ptr => return ptr

def xrealloc (ptr : Nat) : Run Nat := do
  match ← realloc o.grants ptr with
  | none => throw .exit1
  | some ptr => return ptr

/-- The block, and the bytes in it in front of a terminator. -/
structure MemoryStruct where
  memory : Nat
  bytes : Text

/-- `PERROR_IF` on a true condition, with the block. -/
def perror_if {α : Type} (chunk : MemoryStruct) : Run α := do
  free [chunk.memory]
  throw .exit1

def WriteMemoryCallback (contents : Text) (mem : MemoryStruct) : Run MemoryStruct := do
  let ptr ← xrealloc o mem.memory
  touch [ptr]
  return ⟨ptr, mem.bytes ++ contents⟩

/-- The transfer hands over one piece after the other. -/
def curl_easy_perform : List Text → MemoryStruct → Run MemoryStruct
  | [], mem => return mem
  | contents :: rest, mem => do
      let mem ← WriteMemoryCallback o contents mem
      curl_easy_perform rest mem

/-- The value of a key. -/
def get (key : String) (obj : Option J) : Option J := lib.json_object_object_get obj (text key)

/-- The first element of an array. -/
def first (obj : Option J) : Except Stop (Option J) :=
  match lib.json_object_array_get_idx obj 0 with
  | none => .error .aborted
  | some element => .ok element

/-- A line of `printf` with the string of an object. -/
def line (front : String) (obj : Option J) (back : String) : Except Stop Text :=
  match lib.json_object_get_string obj with
  | none => .error .nullString
  | some s => .ok (text front ++ s ++ text back)

/-- `showobj` on an object. -/
def showobj (root : J) : Except Stop Text := do
  let request_0 ← first lib (get lib "request" (some root))
  let weather ← line lib "Weather in " (get lib "query" request_0) "\n"
  let current_condition_0 ← first lib (get lib "current_condition" (some root))
  let weatherDesc_0 ← first lib (get lib "weatherDesc" current_condition_0)
  let description ← line lib "Weather description: " (get lib "value" weatherDesc_0) "\n"
  let direction ← line lib "Wind direction: " (get lib "winddir16Point" current_condition_0) "\n"
  let speed ← line lib "Wind speed: " (get lib "windspeedKmph" current_condition_0) " km/h\n"
  let temperature ← line lib "Temperature: " (get lib "temp_C" current_condition_0) " deg.C\n"
  return weather ++ description ++ direction ++ speed ++ temperature

/-- What the program prints for a text: nothing where it is no JSON. -/
def forecast (bytes : Text) : Except Stop Text :=
  match lib.json_tokener_parse_ex bytes with
  | none => .ok []
  | some obj => showobj lib obj

def parseit (chunk : MemoryStruct) : Run Text := do
  if !o.tokener then perror_if chunk
  else
    touch [chunk.memory]
    match forecast lib chunk.bytes with
    | .error stop => throw stop
    | .ok out => return out

def print_usage (argv0 : Text) : Text :=
  text "Weather nowcast for given location\n\n" ++ text "Usage:\n\n" ++ text "  " ++ argv0 ++
    text " Location\n" ++ text "\n"

def url (location : Text) : Text := text "https://wttr.in/" ++ location ++ text "?format=j1"

/-- The exit status and what was printed; `sizeof(url)` is 200. -/
def main (argv0 : Text) : List Text → Run (Nat × Text)
  | [location] => do
      if 200 ≤ (url location).length then throw .writeOutside
      else
        let memory ← xmalloc o
        let (pieces, succeeded) := o.transfer (url location)
        let chunk ← curl_easy_perform o pieces ⟨memory, []⟩
        if !succeeded then perror_if chunk
        else if chunk.bytes.length ≤ 1 then perror_if chunk
        else
          let out ← parseit lib o chunk
          free [chunk.memory]
          return (0, out)
  | _ => return (1, print_usage argv0)

/-! ## The run -/

section Runs
variable {lib} {o} {location : Text} {h : Allocator} {mem : MemoryStruct}

/-- At `exit(1)` one block is live at most. -/
def Exits (P : Prop) (stop : Stop) (u : Allocator) : Prop :=
  stop = .exit1 ∧ P ∧ ∃ blocks, u.Holds blocks ∧ blocks.length ≤ 1

theorem Exits.imp {P Q : Prop} (himp : P → Q) {stop : Stop} {u : Allocator} (hexits : Exits P stop u) :
    Exits Q stop u := ⟨hexits.1, himp hexits.2.1, hexits.2.2⟩

theorem xmalloc_meets (hold : h.Holds []) :
    (xmalloc o).Meets h (fun ptr u => u.Holds [ptr]) (Exits (∃ n, o.grants n = false)) := by
  refine (malloc_meets hold).bind ?_
  rintro p u ⟨hu, hrefused⟩
  cases p with
  | none => exact meets_throw ⟨rfl, hrefused rfl, [], hu, by simp⟩
  | some ptr => exact meets_pure hu

/-- The old block stays live where there is no new one. -/
theorem xrealloc_meets {ptr : Nat} (hold : h.Holds [ptr]) :
    (xrealloc o ptr).Meets h (fun new u => u.Holds [new]) (Exits (∃ n, o.grants n = false)) := by
  refine (realloc_meets hold).bind ?_
  rintro p u (⟨new, rfl, hu⟩ | ⟨rfl, hu, hrefused⟩)
  · exact meets_pure hu
  · exact meets_throw ⟨rfl, hrefused, [ptr], hu, by simp⟩

/-- `PERROR_IF` has no result, and it exits whatever else may end the program. -/
theorem perror_if_meets {α : Type} {P : Prop} {Q : α → Allocator → Prop} {E : Stop → Allocator → Prop}
    (hold : h.Holds [mem.memory]) (hP : P) :
    (perror_if mem).Meets h Q (fun stop u => Exits P stop u ∨ E stop u) := by
  have hfree : h.Holds ([mem.memory] ++ []) := hold
  refine (free_meets hfree).bind fun _ u hu => ?_
  exact meets_throw (Or.inl ⟨rfl, hP, [], hu, by simp⟩)

/-- However the text is cut into pieces, it arrives as a whole. -/
theorem curl_easy_perform_meets {pieces : List Text} (hold : h.Holds [mem.memory]) :
    (curl_easy_perform o pieces mem).Meets h
      (fun chunk u => chunk.bytes = mem.bytes ++ pieces.flatten ∧ u.Holds [chunk.memory])
      (Exits (∃ n, o.grants n = false)) := by
  induction pieces generalizing mem h with
  | nil => exact meets_pure ⟨by simp, hold⟩
  | cons contents pieces ih =>
      have hcallback : (WriteMemoryCallback o contents mem).Meets h
          (fun mem' u => mem'.bytes = mem.bytes ++ contents ∧ u.Holds [mem'.memory])
          (Exits (∃ n, o.grants n = false)) := by
        refine (xrealloc_meets hold).bind fun ptr u hu => ?_
        exact (touch_meets hu (by simp)).bind fun _ v hv => meets_pure ⟨rfl, hv⟩
      refine hcallback.bind ?_
      rintro mem' u ⟨hbytes, hu⟩
      refine (ih hu).imp ?_ fun _ _ hexits => hexits
      rintro chunk v ⟨hchunk, hv⟩
      rw [hchunk, hbytes, List.flatten_cons, List.append_assoc]
      exact ⟨rfl, hv⟩

theorem parseit_meets {P : Prop} (hold : h.Holds [mem.memory]) (htokener : o.tokener = false → P) :
    (parseit lib o mem).Meets h
      (fun out u => o.tokener = true ∧ forecast lib mem.bytes = .ok out ∧ u.Holds [mem.memory])
      (fun stop u => Exits P stop u ∨
        o.tokener = true ∧ forecast lib mem.bytes = .error stop ∧ u.Holds [mem.memory]) := by
  rw [parseit]
  cases hready : o.tokener with
  | false => exact perror_if_meets hold (htokener hready)
  | true =>
      refine (touch_meets hold (by simp)).bind fun _ u hu => ?_
      cases hforecast : forecast lib mem.bytes with
      | error stop => exact meets_throw (Or.inr ⟨rfl, rfl, hu⟩)
      | ok out => exact meets_pure ⟨rfl, rfl, hu⟩

end Runs

/-- What the JSON library or a line to print can stop with. -/
def StopsInJson {α : Type} (result : Except Stop α) : Prop :=
  ∀ stop, result = .error stop → stop = .aborted ∨ stop = .nullString

theorem StopsInJson.bind {α β : Type} {result : Except Stop α} {f : α → Except Stop β}
    (hresult : StopsInJson result) (hf : ∀ a, StopsInJson (f a)) : StopsInJson (result >>= f) := by
  intro stop hstop
  cases result with
  | error earlier =>
      cases hstop
      exact hresult stop rfl
  | ok a => exact hf a stop hstop

theorem stopsInJson_ok {α : Type} (a : α) : StopsInJson (.ok a) := fun _ hstop => nomatch hstop

theorem stopsInJson_first (lib : JsonLibrary J) (obj : Option J) : StopsInJson (first lib obj) := by
  intro stop hstop
  unfold first at hstop
  split at hstop
  · cases hstop
    exact Or.inl rfl
  · cases hstop

theorem stopsInJson_line (lib : JsonLibrary J) (front back : String) (obj : Option J) :
    StopsInJson (line lib front obj back) := by
  intro stop hstop
  unfold line at hstop
  split at hstop
  · cases hstop
    exact Or.inr rfl
  · cases hstop

theorem stopsInJson_showobj (lib : JsonLibrary J) (root : J) : StopsInJson (showobj lib root) := by
  refine (stopsInJson_first lib _).bind fun request_0 => ?_
  refine (stopsInJson_line lib _ _ _).bind fun weather => ?_
  refine (stopsInJson_first lib _).bind fun current_condition_0 => ?_
  refine (stopsInJson_first lib _).bind fun weatherDesc_0 => ?_
  refine (stopsInJson_line lib _ _ _).bind fun description => ?_
  refine (stopsInJson_line lib _ _ _).bind fun direction => ?_
  refine (stopsInJson_line lib _ _ _).bind fun speed => ?_
  exact (stopsInJson_line lib _ _ _).bind fun temperature => stopsInJson_ok _

theorem stopsInJson_forecast (lib : JsonLibrary J) (bytes : Text) : StopsInJson (forecast lib bytes) := by
  rw [forecast]
  cases lib.json_tokener_parse_ex bytes with
  | none => exact stopsInJson_ok []
  | some obj => exact stopsInJson_showobj lib obj

theorem length_url (location : Text) : (url location).length = location.length + 26 := by
  have hfront : (text "https://wttr.in/").length = 16 := rfl
  have hback : (text "?format=j1").length = 10 := rfl
  rw [url, List.length_append, List.length_append, hfront, hback]
  omega

/-- What arrives from the server. -/
def Outside.received (o : Outside) (location : Text) : Text := (o.transfer (url location)).1.flatten

/-- Something is refused, or there is no text to parse. -/
def Outside.Refuses (o : Outside) (location : Text) : Prop :=
  (∃ n, o.grants n = false) ∨ (o.transfer (url location)).2 = false ∨ (o.received location).length ≤ 1 ∨
    o.tokener = false

theorem main_meets (argv0 : Text) {location : Text} (hfits : ¬200 ≤ (url location).length) :
    (main lib o argv0 [location]).Meets Allocator.start
      (fun out u => ∃ printed, out = (0, printed) ∧ forecast lib (o.received location) = .ok printed ∧ u.Holds [])
      (fun stop u => Exits (o.Refuses location) stop u ∨
        ∃ b, forecast lib (o.received location) = .error stop ∧ u.Holds [b]) := by
  rw [main, if_neg hfits]
  refine (xmalloc_meets holds_start).bind_imp (fun _ _ hexits => Or.inl (hexits.imp Or.inl)) ?_
  intro memory u hu
  refine (curl_easy_perform_meets hu).bind_imp (fun _ _ hexits => Or.inl (hexits.imp Or.inl)) ?_
  rintro chunk v ⟨hbytes, hv⟩
  rw [List.nil_append] at hbytes
  have hreceived : chunk.bytes = o.received location := hbytes
  by_cases hfailed : (o.transfer (url location)).2 = false
  · simp only [hfailed, Bool.not_false, if_true]
    have hrefuses : o.Refuses location := Or.inr (Or.inl hfailed)
    exact perror_if_meets hv hrefuses
  · have hok : (o.transfer (url location)).2 = true := by simpa using hfailed
    simp only [hok, Bool.not_true, Bool.false_eq_true, if_false]
    split
    · rename_i hshort
      rw [hreceived] at hshort
      have hrefuses : o.Refuses location := Or.inr (Or.inr (Or.inl hshort))
      exact perror_if_meets hv hrefuses
    · have hrefuses : o.tokener = false → o.Refuses location := fun hnone => Or.inr (Or.inr (Or.inr hnone))
      refine (parseit_meets hv hrefuses).bind_imp ?_ ?_
      · rintro stop w (hexits | ⟨_, hforecast, hw⟩)
        · exact Or.inl hexits
        · exact Or.inr ⟨chunk.memory, hreceived ▸ hforecast, hw⟩
      · rintro out w ⟨_, hforecast, hw⟩
        have hfree : w.Holds ([chunk.memory] ++ []) := hw
        exact (free_meets hfree).bind fun _ x hx => meets_pure ⟨out, rfl, hreceived ▸ hforecast, hx⟩

/-- A location of up to 173 bytes fits. Then the forecast is that of the whole text, however it was
cut into pieces; or the program exits because something is refused; or the whole text is one whose
objects stop the JSON library or a line to print. It frees and touches live blocks only, and frees
them all where it comes to its end. -/
theorem main_forecasts (lib : JsonLibrary J) (o : Outside) (argv0 location : Text) :
    let r := (main lib o argv0 [location]).on Allocator.start
    ∃ live, Custody.replay Allocator.depends r.2.history = some live ∧ live.card ≤ 1 ∧
      (173 < location.length ∧ r.1 = .error .writeOutside ∧ live = ∅ ∨
        location.length ≤ 173 ∧ o.Refuses location ∧ r.1 = .error .exit1 ∨
        location.length ≤ 173 ∧
          (∃ out, forecast lib (o.received location) = .ok out ∧ r.1 = .ok (0, out) ∧ live = ∅) ∨
        location.length ≤ 173 ∧
          ∃ stop, (stop = .aborted ∨ stop = .nullString) ∧
            forecast lib (o.received location) = .error stop ∧ r.1 = .error stop) := by
  intro r
  have hlength : (url location).length = location.length + 26 := length_url location
  by_cases hlong : 200 ≤ (url location).length
  · have hr : r = (.error .writeOutside, Allocator.start) := by
      show (main lib o argv0 [location]).on _ = _
      rw [main, if_pos hlong]
      rfl
    refine ⟨∅, by rw [hr]; rfl, by simp, Or.inl ⟨by omega, ?_, rfl⟩⟩
    rw [hr]
  · have hfits : location.length ≤ 173 := by omega
    rcases main_meets lib o argv0 hlong with
      ⟨_, u, hon, out, rfl, hforecast, hu⟩ |
      ⟨stop, u, hon, ⟨rfl, hrefuses, blocks, hu, hfew⟩ | ⟨b, hforecast, hu⟩⟩
    · have hr : r = (.ok (0, out), u) := hon
      refine ⟨∅, by rw [hr]; exact hu.held, by simp, ?_⟩
      exact Or.inr (Or.inr (Or.inl ⟨hfits, out, hforecast, by rw [hr], rfl⟩))
    · have hr : r = (.error .exit1, u) := hon
      refine ⟨_, by rw [hr]; exact hu.held, (List.toFinset_card_le _).trans hfew, ?_⟩
      exact Or.inr (Or.inl ⟨hfits, hrefuses, by rw [hr]⟩)
    · have hr : r = (.error stop, u) := hon
      have hjson : stop = .aborted ∨ stop = .nullString :=
        stopsInJson_forecast lib (o.received location) stop hforecast
      refine ⟨_, by rw [hr]; exact hu.held, List.toFinset_card_le _, ?_⟩
      exact Or.inr (Or.inr (Or.inr ⟨hfits, stop, hjson, hforecast, by rw [hr]⟩))

end OtusCProg.Weather
