import OtusCProg.Logger.Routing

/-!
# Delivery of the messages of a run

Every run can be completed, and a completed run has made exactly the writes
the code routes. They are the documented ones unless an INFO message meets a
file of its own while no common file is configured.
-/

namespace OtusCProg.Logger
open Library AsyncLogger

variable {env : Environment} {pre : Text} {calls handled : List Call} {s t u : System}
  {pending : Int → List Text} {level : Int} {closed rest : List Int}

theorem Reachable.trans (h : Reachable env s t) (h' : Reachable env t u) : Reachable env s u := by
  induction h' with
  | refl => exact h
  | tail _ hstep ih => exact ih.tail hstep

theorem Reachable.head {e : Event} (hstep : step env s e = .ok t)
    (h : Reachable env t u) : Reachable env s u :=
  (Reachable.refl.tail hstep).trans h

section Progress
variable {msg : Nat} {symbols : Option (List Text)} {g : Globals} {action : Action}
  {next left : List Action}

/-- The client thread performs its next action. -/
theorem step_client (htodo : s.todo = action :: left)
    (hperform : perform env msg symbols s.globals action = .ok (g, next)) :
    step env s (.client msg symbols) = .ok ⟨g, next ++ left⟩ := by
  simp only [step, htodo, hperform]
  rfl

/-- A log call never waits for another thread. -/
theorem Inv.logger_log_enabled {call : Call} {rest : List Call} {phase : Phase}
    (inv : Inv env pre calls s phase handled pending) (hphase : phase = .calling (call :: rest)) :
    ∃ msg g, Logger.logger_log env msg none s.globals call = .ok g := by
  subst hphase
  have hsetup := inv.setup nofun
  unfold Logger.logger_log
  simp only [hsetup.initialized, if_true]
  split
  · exact ⟨0, _, rfl⟩
  split
  · exact ⟨0, _, rfl⟩
  split
  · rename_i hfile
    have hl := inv.levels call.level
    cases hname : openedFile env pre call.level with
    | none =>
        rw [hname] at hl
        rw [hl.1] at hfile
        cases hfile.2.2
    | some name =>
        rw [hname] at hl
        obtain ⟨_, _, hrun, hold⟩ := hl
        obtain ⟨msg, logger', henq⟩ :=
          enqueue_enabled (format_log_message call) hold hrun
        exact ⟨msg, _, by rw [henq]; rfl⟩
  · exact ⟨0, _, rfl⟩

/-- The calls can all be made. -/
theorem calling_progress (restCalls : List Call)
    (inv : Inv env pre calls s (.calling restCalls) handled pending) :
    ∃ t handled' pending', Reachable env s t ∧
      Inv env pre calls t (.closing [] valid_levels) handled' pending' := by
  induction restCalls generalizing s handled pending with
  | nil =>
      have hperform : perform env 0 none s.globals .logger_shutdown =
          .ok (s.globals, shutdown_rest valid_levels) := if_pos (inv.setup nofun).initialized
      have hstep := step_client inv.todo hperform
      rw [List.append_nil] at hstep
      exact ⟨_, _, _, Reachable.refl.tail hstep, inv.logger_shutdown⟩
  | cons call restCalls ih =>
      obtain ⟨msg, g, hlog⟩ := inv.logger_log_enabled rfl
      obtain ⟨pending', inv'⟩ := inv.logger_log hlog
      obtain ⟨t, handled', pending'', hreach, hinv⟩ := ih inv'
      have hperform : perform env msg none s.globals (.logger_log call) = .ok (g, []) := by
        rw [perform, hlog]
        rfl
      exact ⟨t, handled', pending'', Reachable.head (step_client inv.todo hperform) hreach, hinv⟩

/-- A stopped writer comes to its end, so that it can be joined. -/
theorem joining_progress (n : Nat)
    (inv : Inv env pre calls s (.joining closed level rest) handled pending)
    (hn : remaining (s.globals.async_loggers level) (pending level) = n) :
    ∃ t pending', Reachable env s t ∧
      Inv env pre calls t (.closing (closed ++ [level]) rest) handled pending' := by
  induction n using Nat.strong_induction_on generalizing s pending with | _ n ih => ?_
  obtain ⟨_, hsplit, hopened⟩ := inv.fits
  obtain ⟨name, hname⟩ := Option.ne_none_iff_exists'.mp hopened
  have hl := inv.levels level
  simp only [hname, Phase.stage, if_neg (notMem_closed hsplit), if_true] at hl
  obtain ⟨_, _, hrun, hold⟩ := hl
  by_cases hended : (s.globals.async_loggers level).thread = .ended
  · obtain ⟨logger, hjoin⟩ : ∃ logger, (s.globals.async_loggers level).join = .ok logger :=
      ⟨_, if_pos hended⟩
    have hperform : perform env 0 none s.globals (.pthread_join level) =
        .ok (s.globals.setLogger level logger, []) := by
      rw [perform, hjoin]
      rfl
    exact ⟨_, _, Reachable.refl.tail (step_client inv.todo hperform), inv.join hjoin⟩
  · obtain ⟨g, hmove⟩ := moveWriter_enabled hold (hold.thread_ne_asleep hrun) hended
    obtain ⟨pending', inv', hless⟩ := inv.moveWriter hmove
    have hstep : step env s (.writer level none) = .ok { s with globals := g } := by
      simp only [step, hmove]
      rfl
    obtain ⟨t, pending'', hreach, hinv⟩ := ih _ (hn ▸ hless) inv' rfl
    exact ⟨t, pending'', Reachable.head hstep hreach, hinv⟩

/-- The shutdown always comes to its end. -/
theorem closing_progress (rest : List Int)
    (inv : Inv env pre calls s (.closing closed rest) handled pending) :
    ∃ t, Reachable env s t ∧ t.todo = [] := by
  induction rest generalizing s closed pending with
  | nil =>
      have hperform : perform env 0 none s.globals .close_common =
          .ok (close_common s.globals, []) := rfl
      exact ⟨_, Reachable.refl.tail (step_client inv.todo hperform), rfl⟩
  | cons level rest ih =>
      by_cases hfile : (s.globals.async_loggers level).file = none
      · obtain ⟨t, hreach, htodo⟩ := ih (inv.pass hfile)
        have hperform : perform env 0 none s.globals (.destroy_async_logger level) =
            .ok (s.globals, []) := if_pos hfile
        exact ⟨t, Reachable.head (step_client inv.todo hperform) hreach, htodo⟩
      · have hl := inv.levels level
        obtain ⟨logger, hstop⟩ : ∃ logger, (s.globals.async_loggers level).stop = .ok logger := by
          simp only [Phase.stage, if_neg (notMem_closed inv.fits.2)] at hl
          cases hname : openedFile env pre level with
          | none => rw [hname] at hl; exact absurd hl.1 hfile
          | some name => rw [hname] at hl; exact stop_enabled hl.2.2.2 hl.2.2.1
        obtain ⟨t, pending', hreach, inv'⟩ := joining_progress _ (inv.stop hfile hstop) rfl
        obtain ⟨u, hreach', htodo⟩ := ih inv'
        have hperform : perform env 0 none s.globals (.destroy_async_logger level) =
            .ok (s.globals.setLogger level logger, [.pthread_join level]) := by
          rw [perform, if_neg hfile, hstop]
          rfl
        exact ⟨u, Reachable.head (step_client inv.todo hperform) (hreach.trans hreach'), htodo⟩

/-- From every state of a run the run can be completed. -/
theorem run_completes (husable : Usable env pre) (h : Reachable env (program pre calls) s) :
    ∃ t, Reachable env s t ∧ t.todo = [] := by
  have hcalling : ∀ {s : System} {restCalls handled pending},
      Inv env pre calls s (.calling restCalls) handled pending →
        ∃ t, Reachable env s t ∧ t.todo = [] := by
    intro s restCalls handled pending inv
    obtain ⟨t, _, _, hreach, inv'⟩ := calling_progress restCalls inv
    obtain ⟨u, hreach', htodo⟩ := closing_progress _ inv'
    exact ⟨u, hreach.trans hreach', htodo⟩
  rcases reachable_inv husable h with rfl | ⟨phase, handled, pending, inv⟩
  · obtain ⟨t, hreach, htodo⟩ := hcalling (inv_logger_init husable calls)
    exact ⟨t, Reachable.head (e := .client 0 none) rfl hreach, htodo⟩
  · cases phase with
    | calling restCalls => exact hcalling inv
    | closing closed rest => exact closing_progress rest inv
    | joining closed level rest =>
        obtain ⟨t, _, hreach, inv'⟩ := joining_progress _ inv rfl
        obtain ⟨u, hreach', htodo⟩ := closing_progress _ inv'
        exact ⟨u, hreach.trans hreach', htodo⟩
    | finished => exact ⟨s, .refl, inv.todo⟩

end Progress

section Delivery

/-- A completed run has made the writes the code routes, each once. -/
theorem completed_run_perm (husable : Usable env pre) (h : Reachable env (program pre calls) s)
    (htodo : s.todo = []) : (s.globals.written.map Write.route).Perm (routed env pre calls) := by
  rcases reachable_inv husable h with rfl | ⟨phase, handled, pending, inv⟩
  · cases htodo
  · exact inv.finished_perm htodo

/-- Every message to be written was written once, to its destination, and nothing else was. -/
def Delivered (env : Environment) (pre : Text) (calls : List Call) (s : System) : Prop :=
  (s.globals.written.map fun w => (w.sink, w.text)).Perm (expected env pre calls)

/-- INFO messages that are to be written have no file of their own, or there is a common file. -/
def InfoRouted (env : Environment) (pre : Text) (calls : List Call) : Prop :=
  (∃ call ∈ calls, call.level = LOG_INFO ∧ accepted env pre call = true) →
    levelFile env pre LOG_INFO = none ∨ commonFile env pre ≠ none

/-- The routes without the levels. -/
theorem written_perm (husable : Usable env pre) (h : Reachable env (program pre calls) s)
    (htodo : s.todo = []) :
    (s.globals.written.map fun w => (w.sink, w.text)).Perm
      ((calls.filter (accepted env pre)).map fun call =>
        (sink env pre call.level, format_log_message call)) := by
  have hperm := (completed_run_perm husable h htodo).map Prod.snd
  rw [routed, List.map_map, List.map_map] at hperm
  exact hperm

theorem sink_eq_destination_of_mem (h : InfoRouted env pre calls) {call : Call}
    (hmem : call ∈ calls.filter (accepted env pre)) :
    sink env pre call.level = destination env pre call.level := by
  obtain ⟨hmem, haccepted⟩ := List.mem_filter.mp hmem
  apply sink_eq_destination
  rintro ⟨hinfo, hcommon, hfile⟩
  rw [hinfo] at hfile
  rcases h ⟨call, hmem, hinfo, haccepted⟩ with hnone | hsome
  · exact hfile hnone
  · exact hsome hcommon

/-- An INFO message with a file of its own and no common file goes to `stdout` instead. -/
theorem infoRouted_of_delivered (husable : Usable env pre) (h : Reachable env (program pre calls) s)
    (htodo : s.todo = []) (hdelivered : Delivered env pre calls s) : InfoRouted env pre calls := by
  rintro ⟨call, hmem, hinfo, haccepted⟩
  by_contra hnot
  rw [not_or, not_not] at hnot
  obtain ⟨hfile, hcommon⟩ := hnot
  have hsink : sink env pre call.level = .stdout :=
    if_pos ⟨hinfo, commonSink_eq_stderr.mpr hcommon⟩
  have hexpected : (Sink.stdout, format_log_message call) ∈ expected env pre calls := by
    refine hdelivered.subset ((written_perm husable h htodo).symm.subset ?_)
    exact List.mem_map.mpr ⟨call, List.mem_filter.mpr ⟨hmem, haccepted⟩, by rw [hsink]⟩
  obtain ⟨other, _, hother⟩ := List.mem_map.mp hexpected
  exact destination_ne_stdout hfile other.level (congrArg Prod.fst hother)

theorem delivered_of_infoRouted (husable : Usable env pre) (h : Reachable env (program pre calls) s)
    (htodo : s.todo = []) (hrouted : InfoRouted env pre calls) : Delivered env pre calls s := by
  have hexpected : expected env pre calls =
      (calls.filter (accepted env pre)).map fun call =>
        (sink env pre call.level, format_log_message call) :=
    List.map_congr_left fun call hmem => by rw [sink_eq_destination_of_mem hrouted hmem]
  rw [Delivered, hexpected]
  exact written_perm husable h htodo

/-- Every run can be completed, and then the messages were delivered if and only if
no accepted INFO message has a file of its own without a common file. -/
theorem delivered_iff (husable : Usable env pre) (h : Reachable env (program pre calls) s) :
    (∃ t, Reachable env s t ∧ t.todo = []) ∧
      (s.todo = [] → (Delivered env pre calls s ↔ InfoRouted env pre calls)) := by
  refine ⟨run_completes husable h, fun htodo => ?_⟩
  constructor
  · exact infoRouted_of_delivered husable h htodo
  · exact delivered_of_infoRouted husable h htodo

/-- An environment with these variables, where every file opens. -/
def with_vars (vars : List (String × String)) : Environment :=
  { getenv := fun name => (vars.find? fun v => text v.1 = name).map fun v => text v.2
    fopen := fun _ => .ok ()
    pthread_create := fun _ => true }

theorem usable_with_vars (vars : List (String × String)) : Usable (with_vars vars) pre :=
  ⟨fun _ _ => rfl, fun _ _ _ => rfl, fun _ _ => rfl⟩

def infoCall : Call :=
  { level := LOG_INFO, file := text "sample_app.c", line := 10, func := text "main",
    user_msg := text "up", time_buf := text "2024-01-01 00:00:00" }

/-- A common file and a file for INFO. -/
def bothFiles : Environment :=
  with_vars [("LOGGING_ENABLED", "1"), ("LOG_LEVEL", "info"), ("LOG_FILE", "all.log"),
    ("INFO_LOG_FILE", "info.log")]

/-- A file for INFO only. -/
def infoFileOnly : Environment :=
  with_vars [("LOGGING_ENABLED", "1"), ("LOG_LEVEL", "info"), ("INFO_LOG_FILE", "info.log")]

theorem delivered_iff_bothFiles :
    ∃ s, Reachable bothFiles (program [] [infoCall]) s ∧ s.todo = [] ∧
      Delivered bothFiles [] [infoCall] s := by
  have husable : Usable bothFiles [] := usable_with_vars _
  obtain ⟨s, hreach, htodo⟩ := run_completes husable (.refl (s := program [] [infoCall]))
  refine ⟨s, hreach, htodo, ((delivered_iff husable hreach).2 htodo).mpr fun _ => Or.inr ?_⟩
  decide

theorem info_message_misses_its_file :
    ∃ s, Reachable infoFileOnly (program [] [infoCall]) s ∧ s.todo = [] ∧
      ¬Delivered infoFileOnly [] [infoCall] s := by
  have husable : Usable infoFileOnly [] := usable_with_vars _
  obtain ⟨s, hreach, htodo⟩ := run_completes husable (.refl (s := program [] [infoCall]))
  refine ⟨s, hreach, htodo, fun hdelivered => ?_⟩
  rcases infoRouted_of_delivered husable hreach htodo hdelivered
    ⟨infoCall, List.mem_singleton_self _, rfl, by decide⟩ with hnone | hcommon
  · revert hnone
    decide
  · revert hcommon
    decide

end Delivery

end OtusCProg.Logger
