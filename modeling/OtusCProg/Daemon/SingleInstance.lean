import OtusCProg.Daemon.PidFile

/-!
# When at most one process is inside `run_server`

A process that has passed its check and has not yet written its pid is seen by
no other process, and a daemon with a relative path writes its pid where no
other process looks. As long as no process passes its check beside such a
process, the pid in the file is that of the process inside `run_server`.
-/

namespace OtusCProg.Daemon
open Library
variable {setup : Setup} {files files' : Files} {process : Process} {s t : State} {p q : Nat}

/-- In `check_pid_file`, up to `kill`. -/
def Phase.Checking : Phase → Prop
  | .check_pid_file | .kill _ => True
  | _ => False

/-- Sure to go on past `check_pid_file`, with its pid not yet in the file. -/
def Phase.Entering : Phase → Prop
  | .unlink | .fork | .setsid | .fork2 | .chdir | .create_pid_file | .fprintf _ => True
  | _ => False

/-- Before the end of the check, or out of the way for good. -/
def Phase.Quiet : Phase → Prop
  | .other | .check_pid_file | .kill _ | .exit | .dead => True
  | _ => False

theorem Phase.Quiet.not_inside {phase : Phase} (h : phase.Quiet) :
    ¬phase.Entering ∧ (∀ file, phase ≠ .fprintf file) ∧ phase ≠ .run_server ∧
      phase ≠ .remove_pid_file := by
  cases phase <;> simp_all [Phase.Quiet, Phase.Entering]

/-- The pid file every process looks at. -/
def Setup.home (setup : Setup) : Text := setup.locate setup.cwd setup.pid_path

/-- The check of the process may come out well: no other process is on its way into `run_server`,
none inside it has its pid file elsewhere, and the file shows no process that is alive. -/
structure Passable (setup : Setup) (s : State) (p : Nat) : Prop where
  entering : ∀ q, ¬(s.phase q).Entering
  same_file : ∀ q, s.phase q = .run_server → s.pid_file setup q = s.pid_file setup p
  not_alive : ∀ pid, read_pid_file (s.pid_contents setup p) = .pid pid → ¬s.alive pid

/-- A check comes out well only where it may, and every digit of a pid reaches the file. -/
def Orderly (setup : Setup) (s : State) : Event → Prop
  | .read p ok =>
      read_pid_file (if ok then s.pid_contents setup p else []) = .free → Passable setup s p
  | .kill p => ∀ pid, s.phase p = .kill pid → ¬s.alive pid → Passable setup s p
  | .write p n => (decimal p).length ≤ n
  | _ => True

/-- The pid file of the process is the one every process looks at. -/
def AtHome (setup : Setup) (process : Process) : Prop :=
  setup.locate process.cwd setup.pid_path = setup.home

/-- Between the end of the check and the end of `run_server`, or of `remove_pid_file` for the file
every process looks at. -/
def Inside (setup : Setup) (process : Process) : Prop :=
  process.phase.Entering ∨ process.phase = .run_server ∨
    process.phase = .remove_pid_file ∧ AtHome setup process

/-- What is known of one process: where it looks, what its pid is, and what the file every process
looks at holds once it has been opened, and once it has been written. -/
structure Fits (setup : Setup) (files : Files) (p : Nat) (process : Process) : Prop where
  home : process.phase.Checking → process.cwd = setup.cwd
  range : process.phase ≠ .unborn → 0 < p ∧ p ≤ INT_MAX
  opened : ∀ file, process.phase = .fprintf file → AtHome setup process →
    files.dir setup.home = some file ∧ files.data file = []
  written : process.phase = .run_server ∨ process.phase = .remove_pid_file →
    AtHome setup process → read_pid_file (files.contents setup.home) = .pid p

/-- Every process fits, and no two are on their way into `run_server` or inside it. -/
structure Invariant (setup : Setup) (s : State) : Prop where
  fits : ∀ p, Fits setup s.files p (s.procs p)
  unique : ∀ p q, Inside setup (s.procs p) → Inside setup (s.procs q) → p = q

section Fits

/-- Only what the file every process looks at holds matters. -/
theorem Fits.congr (h : Fits setup files p process)
    (hdir : files'.dir setup.home = files.dir setup.home) (hdata : files'.data = files.data) :
    Fits setup files' p process where
  home := h.home
  range := h.range
  opened := by
    rw [hdir, hdata]
    exact h.opened
  written := by
    rw [Files.contents, hdir, hdata]
    exact h.written

/-- Nothing in the files matters to a process outside. -/
theorem Fits.of_outside (h : Fits setup files p process) (hout : ¬Inside setup process) :
    Fits setup files' p process where
  home := h.home
  range := h.range
  opened := by
    intro file hphase
    refine absurd (Or.inl ?_) hout
    rw [hphase]
    trivial
  written := by
    intro hphase hhome
    rcases hphase with hrun | hremove
    · exact absurd (Or.inr (Or.inl hrun)) hout
    · exact absurd (Or.inr (Or.inr ⟨hremove, hhome⟩)) hout

/-- To a process that is neither at its `fprintf` nor past it the files do not matter. -/
theorem Fits.of_phase (hhome : process.phase.Checking → process.cwd = setup.cwd)
    (hrange : 0 < p ∧ p ≤ INT_MAX) (hopened : ∀ file, process.phase ≠ .fprintf file)
    (hrun : process.phase ≠ .run_server) (hremove : process.phase ≠ .remove_pid_file) :
    Fits setup files p process where
  home := hhome
  range _ := hrange
  opened file h := absurd h (hopened file)
  written h := absurd h (not_or.mpr ⟨hrun, hremove⟩)

end Fits

namespace Invariant

/-- Beside a process inside there is no other. -/
theorem others (h : Invariant setup s) (hp : Inside setup (s.procs p)) :
    ∀ q ≠ p, ¬Inside setup (s.procs q) :=
  fun q hne hq => hne (h.unique q p hq hp)

theorem others_of_entering (h : Invariant setup s) {phase : Phase} (hphase : s.phase p = phase)
    (hentering : phase.Entering) : ∀ q ≠ p, ¬Inside setup (s.procs q) := by
  subst hphase
  exact h.others (Or.inl hentering)

/-- Where no other process is inside, a process may change the files and go anywhere it fits. -/
theorem alone (h : Invariant setup s) (hothers : ∀ q ≠ p, ¬Inside setup (s.procs q))
    (hfits : Fits setup files p process) :
    Invariant setup (State.put ⟨files, s.procs⟩ p process) where
  fits := by
    intro q
    by_cases hq : q = p
    · subst hq
      simpa [State.put] using hfits
    · simpa [State.put, hq] using (h.fits q).of_outside (hothers q hq)
  unique := by
    have hinside : ∀ q, Inside setup ((State.put ⟨files, s.procs⟩ p process).procs q) → q = p := by
      intro q hq
      by_contra hne
      exact hothers q hne (by simpa [State.put, hne] using hq)
    intro q r hq hr
    exact (hinside q hq).trans (hinside r hr).symm

/-- A process may go anywhere outside, when it leaves the file every process looks at alone. -/
theorem outside (h : Invariant setup s)
    (hdir : files.dir setup.home = s.files.dir setup.home) (hdata : files.data = s.files.data)
    (hfits : Fits setup files p process) (hout : ¬Inside setup process) :
    Invariant setup (State.put ⟨files, s.procs⟩ p process) where
  fits := by
    intro q
    by_cases hq : q = p
    · subst hq
      simpa [State.put] using hfits
    · simpa [State.put, hq] using (h.fits q).congr hdir hdata
  unique := by
    have hinside : ∀ q, Inside setup ((State.put ⟨files, s.procs⟩ p process).procs q) →
        Inside setup (s.procs q) := by
      intro q hq
      by_cases hne : q = p
      · subst hne
        exact absurd (by simpa [State.put] using hq) hout
      · simpa [State.put, hne] using hq
    intro q r hq hr
    exact h.unique q r (hinside q hq) (hinside r hr)

/-- A process goes to a phase outside in which the files do not matter to it. -/
theorem quiet (h : Invariant setup s) (hquiet : process.phase.Quiet)
    (hhome : process.phase.Checking → process.cwd = setup.cwd) (hrange : 0 < p ∧ p ≤ INT_MAX)
    (hdir : files.dir setup.home = s.files.dir setup.home) (hdata : files.data = s.files.data) :
    Invariant setup (State.put ⟨files, s.procs⟩ p process) := by
  obtain ⟨hentering, hopened, hrun, hremove⟩ := hquiet.not_inside
  apply h.outside hdir hdata
  · exact Fits.of_phase hhome hrange hopened hrun hremove
  · rintro (hphase | hphase | ⟨hphase, -⟩)
    · exact hentering hphase
    · exact hrun hphase
    · exact hremove hphase

/-- A process whose check may come out well is alone. -/
theorem alone_of_passable (h : Invariant setup s) (hchecking : (s.phase p).Checking)
    (hpass : Passable setup s p) : ∀ q, ¬Inside setup (s.procs q) := by
  have hlook : s.pid_file setup p = setup.home := by
    rw [State.pid_file, (h.fits p).home hchecking]
    rfl
  -- the file shows a process that is about to remove it, or inside `run_server`
  have hshown : ∀ q, s.phase q = .run_server ∨ s.phase q = .remove_pid_file →
      ¬AtHome setup (s.procs q) := by
    intro q hphase hhome
    apply hpass.not_alive q
    · rw [State.pid_contents, hlook]
      exact (h.fits q).written hphase hhome
    · rcases hphase with hphase | hphase
      · constructor <;> rw [hphase] <;> exact nofun
      · constructor <;> rw [hphase] <;> exact nofun
  rintro q (hentering | hrun | ⟨hremove, hhome⟩)
  · exact hpass.entering q hentering
  · exact hshown q (Or.inl hrun) ((hpass.same_file q hrun).trans hlook)
  · exact hshown q (Or.inr hremove) hhome

/-- The pid of a process of any kind is in range. -/
theorem range_of_phase (h : Invariant setup s) {phase : Phase} (hphase : s.phase p = phase)
    (hne : phase ≠ .unborn) : 0 < p ∧ p ≤ INT_MAX :=
  (h.fits p).range fun hunborn => hne (hphase.symm.trans hunborn)

/-- A process on its way into `run_server` goes on; it may change the files. -/
theorem advance (h : Invariant setup s) (hothers : ∀ q ≠ p, ¬Inside setup (s.procs q))
    (hentering : process.phase.Entering) (hopened : ∀ file, process.phase ≠ .fprintf file)
    (hhome : process.phase.Checking → process.cwd = setup.cwd) (hrange : 0 < p ∧ p ≤ INT_MAX) :
    Invariant setup (State.put ⟨files, s.procs⟩ p process) := by
  apply h.alone hothers
  apply Fits.of_phase hhome hrange hopened
  · intro hphase
    rw [hphase] at hentering
    exact hentering
  · intro hphase
    rw [hphase] at hentering
    exact hentering

/-- A process whose check has come out well goes on. -/
theorem pass (h : Invariant setup s) (hothers : ∀ q ≠ p, ¬Inside setup (s.procs q))
    (hrange : 0 < p ∧ p ≤ INT_MAX) : Invariant setup (State.pass ⟨files, s.procs⟩ p) := by
  unfold State.pass
  split
  · exact h.advance hothers trivial nofun nofun hrange
  · exact h.advance hothers trivial nofun nofun hrange

/-- The parent exits, and the child goes on in its place. -/
theorem fork (h : Invariant setup s) {next : Phase} {child : Option Nat}
    (hstep : s.fork p next child = .ok t) (hp : (s.phase p).Entering)
    (hrange : 0 < p ∧ p ≤ INT_MAX) (hnext : next.Entering) (hopened : ∀ file, next ≠ .fprintf file)
    (hchecking : ¬next.Checking) : Invariant setup t := by
  have hexit : Invariant setup (s.move p .exit) := h.quiet trivial nofun hrange rfl rfl
  cases child with
  | none =>
      cases hstep
      exact hexit
  | some child =>
      rw [State.fork] at hstep
      split at hstep
      · rename_i hunused
        cases hstep
        have hnone : ∀ q, ¬Inside setup ((s.move p .exit).procs q) := by
          intro q hq
          by_cases hne : q = p
          · subst hne
            simp [State.move, State.put, Inside, Phase.Entering] at hq
          · exact h.others (Or.inl hp) q hne (by simpa [State.move, State.put, hne] using hq)
        exact hexit.advance (fun q _ => hnone q) hnext hopened (fun hc => absurd hc hchecking)
          hunused.2
      · cases hstep

/-- The file is read: the check comes out well where it may, or goes on, or fails. -/
theorem read (h : Invariant setup s) {ok : Bool} (horderly : Orderly setup s (.read p ok))
    (hstep : step setup s (.read p ok) = .ok t) : Invariant setup t := by
  rw [step] at hstep
  split at hstep
  · rename_i hphase
    have hchecking : (s.phase p).Checking := by
      rw [hphase]
      trivial
    have hrange := h.range_of_phase hphase nofun
    split at hstep
    · rename_i hfree
      cases hstep
      exact h.pass (fun q _ => h.alone_of_passable hchecking (horderly hfree) q) hrange
    · cases hstep
      exact h.quiet trivial nofun hrange rfl rfl
    · cases hstep
      exact h.quiet trivial (fun _ => (h.fits p).home hchecking) hrange rfl rfl
  · cases hstep

/-- The pid in the file is dead where the check may come out well, or the process exits. -/
theorem kill (h : Invariant setup s) (horderly : Orderly setup s (.kill p))
    (hstep : step setup s (.kill p) = .ok t) : Invariant setup t := by
  rw [step] at hstep
  split at hstep
  · rename_i pid hphase
    cases hstep
    have hchecking : (s.phase p).Checking := by
      rw [hphase]
      trivial
    have hrange := h.range_of_phase hphase nofun
    split
    · exact h.quiet trivial nofun hrange rfl rfl
    · rename_i hdead
      have hothers := h.alone_of_passable hchecking (horderly pid hphase hdead)
      exact h.advance (fun q _ => hothers q) trivial nofun nofun hrange
  · cases hstep

/-- The file is opened and is empty. -/
theorem create (h : Invariant setup s) {ok : Bool} (hstep : step setup s (.create p ok) = .ok t) :
    Invariant setup t := by
  rw [step] at hstep
  split at hstep
  · rename_i hphase
    have hrange := h.range_of_phase hphase nofun
    have hothers := h.others_of_entering hphase trivial
    split at hstep
    · cases hstep
      apply h.alone hothers
      constructor
      case home => exact nofun
      case range => exact fun _ => hrange
      case opened =>
        intro file hfile hhome
        cases hfile
        have hname : s.pid_file setup p = setup.home := hhome
        rw [hname]
        exact s.files.fopen_spec setup.home
      case written =>
        rintro (hrun | hremove)
        · cases hrun
        · cases hremove
    · cases hstep
      exact h.quiet trivial nofun hrange rfl rfl
  · cases hstep

/-- The file shows the process once its pid is written. -/
theorem write (h : Invariant setup s) {n : Nat} (horderly : Orderly setup s (.write p n))
    (hstep : step setup s (.write p n) = .ok t) : Invariant setup t := by
  rw [step] at hstep
  split at hstep
  · rename_i file hphase
    cases hstep
    have hrange := h.range_of_phase hphase nofun
    have hothers := h.others_of_entering hphase trivial
    apply h.alone hothers
    constructor
    case home => exact nofun
    case range => exact fun _ => hrange
    case opened => exact nofun
    case written =>
      intro _ hhome
      obtain ⟨hdir, hdata⟩ := (h.fits p).opened file hphase hhome
      have hcontents : (s.files.write file ((pid_line p).take n)).contents setup.home =
          (pid_line p).take n := by
        simp [Files.contents, Files.write, hdir, hdata]
      rw [hcontents]
      exact read_pid_file_line hrange.1 hrange.2 horderly
  · cases hstep

/-- The file is removed by the process it shows, or is another one. -/
theorem remove (h : Invariant setup s) {ok : Bool} (hstep : step setup s (.remove p ok) = .ok t) :
    Invariant setup t := by
  rw [step] at hstep
  split at hstep
  · rename_i hphase
    cases hstep
    have hrange := h.range_of_phase hphase nofun
    by_cases hhome : AtHome setup (s.procs p)
    · have hothers := h.others (p := p) (Or.inr (Or.inr ⟨hphase, hhome⟩))
      exact h.alone hothers (Fits.of_phase nofun hrange nofun nofun nofun)
    · have hname : setup.home ≠ s.pid_file setup p := fun heq => hhome heq.symm
      cases ok with
      | false => exact h.quiet trivial nofun hrange rfl rfl
      | true => exact h.quiet trivial nofun hrange (Function.update_of_ne hname ..) rfl
  · cases hstep

theorem finish (h : Invariant setup s) (hstep : step setup s (.finish p) = .ok t) :
    Invariant setup t := by
  rw [step] at hstep
  split at hstep
  · rename_i hphase
    cases hstep
    have hrange := h.range_of_phase hphase nofun
    apply h.alone (h.others (Or.inr (Or.inl hphase)))
    constructor
    case home => exact nofun
    case range => exact fun _ => hrange
    case opened => exact nofun
    case written => exact fun _ hhome => (h.fits p).written (Or.inl hphase) hhome
  · cases hstep

/-- An orderly step keeps the invariant. -/
theorem keep (h : Invariant setup s) {e : Event} (horderly : Orderly setup s e)
    (hstep : step setup s e = .ok t) : Invariant setup t := by
  cases e with
  | start p daemonize_flag =>
      rw [step] at hstep
      split at hstep
      · rename_i hunused
        cases hstep
        exact h.quiet trivial (fun _ => rfl) hunused.2 rfl rfl
      · cases hstep
  | other p =>
      rw [step] at hstep
      split at hstep
      · rename_i hunused
        cases hstep
        exact h.quiet trivial nofun hunused.2 rfl rfl
      · cases hstep
  | die p =>
      rw [step] at hstep
      split at hstep
      · rename_i halive
        cases hstep
        exact h.quiet trivial nofun ((h.fits p).range halive.1) rfl rfl
      · cases hstep
  | read p ok => exact h.read horderly hstep
  | kill p => exact h.kill horderly hstep
  | unlink p ok =>
      rw [step] at hstep
      split at hstep
      · rename_i hphase
        cases hstep
        exact h.pass (h.others_of_entering hphase trivial) (h.range_of_phase hphase nofun)
      · cases hstep
  | fork p child =>
      rw [step] at hstep
      split at hstep
      · rename_i hphase
        have hrange := h.range_of_phase hphase nofun
        exact h.fork hstep (by rw [hphase]; trivial) hrange trivial nofun id
      · rename_i hphase
        have hrange := h.range_of_phase hphase nofun
        exact h.fork hstep (by rw [hphase]; trivial) hrange trivial nofun id
      · cases hstep
  | setsid p ok =>
      rw [step] at hstep
      split at hstep
      · rename_i hphase
        have hrange := h.range_of_phase hphase nofun
        cases hstep
        cases ok with
        | false => exact h.quiet trivial nofun hrange rfl rfl
        | true =>
            exact h.advance (h.others_of_entering hphase trivial) trivial nofun nofun hrange
      · cases hstep
  | chdir p ok =>
      rw [step] at hstep
      split at hstep
      · rename_i hphase
        have hrange := h.range_of_phase hphase nofun
        cases hstep
        cases ok with
        | false => exact h.quiet trivial nofun hrange rfl rfl
        | true =>
            exact h.advance (h.others_of_entering hphase trivial) trivial nofun nofun hrange
      · cases hstep
  | create p ok => exact h.create hstep
  | write p n => exact h.write horderly hstep
  | finish p => exact h.finish hstep
  | remove p ok => exact h.remove hstep

end Invariant

/-- Before any process is started the invariant holds. -/
theorem invariant_initial (setup : Setup) (files : Files) : Invariant setup (initial files) where
  fits _ := ⟨nofun, fun h => absurd rfl h, nofun, nofun⟩
  unique := by
    rintro p q (hentering | hrun | ⟨hremove, -⟩)
    · exact False.elim hentering
    · cases hrun
    · cases hremove

/-- In a run of orderly steps at most one process is inside `run_server`, however many are started,
with `-d` or without, in whatever order they move and wherever the pid path leads. -/
theorem single_instance_of_orderly (setup : Setup) (files : Files) (s : State)
    (h : Runs (step setup) (Orderly setup) (initial files) s) : SingleInstance s := by
  have hinv : Invariant setup s :=
    h.invariant (invariant_initial setup files) fun hinv horderly hstep => hinv.keep horderly hstep
  intro p q hp hq
  exact hinv.unique p q (Or.inr (Or.inl hp)) (Or.inr (Or.inl hq))

section Starts

/-- A file system without files. -/
def noFiles : Files := ⟨fun _ => none, fun _ => [], 0, nofun⟩

/-- A pid path that stands for the same name in every directory. -/
def absolute : Setup := ⟨text "/srv", text "/tmp/filesizer.pid", fun _ path => path⟩

/-- A pid path that stands for a name of its own in every directory. -/
def relative : Setup :=
  ⟨text "/srv", text "filesizer.pid", fun cwd path => cwd ++ text "/" ++ path⟩

/-- A second process finds the pid of the first and exits. -/
theorem single_instance_of_orderly_second :
    ∃ s : State, s.phase 100 = .run_server ∧ s.phase 200 = .exit ∧ SingleInstance s := by
  let s₁ := (initial noFiles).put 100 ⟨.check_pid_file, false, absolute.cwd⟩
  let s₂ := s₁.pass 100
  let s₃ := State.move ⟨noFiles.create absolute.pid_path, s₂.procs⟩ 100 (.fprintf 0)
  let s₄ := State.move ⟨s₃.files.write 0 (pid_line 100), s₃.procs⟩ 100 .run_server
  let s₅ := s₄.put 200 ⟨.check_pid_file, false, absolute.cwd⟩
  let s₆ := s₅.move 200 (.kill 100)
  let s₇ := s₆.move 200 .exit
  have hphase : ∀ q, s₁.phase q = .unborn ∨ s₁.phase q = .check_pid_file := by
    intro q
    by_cases hq : q = 100
    · exact Or.inr (by rw [hq]; rfl)
    · exact Or.inl (by simp [s₁, State.phase, State.put, hq, initial])
  have hpass : Passable absolute s₁ 100 := by
    constructor
    · intro q hentering
      rcases hphase q with h | h
      · rwa [h] at hentering
      · rwa [h] at hentering
    · intro q hrun
      rcases hphase q with h | h
      · cases h.symm.trans hrun
      · cases h.symm.trans hrun
    · exact nofun
  have hread : read_pid_file (s₅.pid_contents absolute 200) = .pid 100 := by decide
  have hfound : step absolute s₅ (.read 200 true) = .ok s₆ := by
    rw [step, if_pos rfl, if_pos (show s₅.phase 200 = .check_pid_file from rfl), hread]
  have hrefused : Orderly absolute s₅ (.read 200 true) := by
    intro hfree
    rw [if_pos rfl, hread] at hfree
    cases hfree
  have hrun : Runs (step absolute) (Orderly absolute) (initial noFiles) s₇ := by
    refine Runs.cons (e := .start 100 false) (t := s₁) trivial rfl ?_
    refine Runs.cons (e := .read 100 true) (t := s₂) (fun _ => hpass) rfl ?_
    refine Runs.cons (e := .create 100 true) (t := s₃) trivial rfl ?_
    refine Runs.cons (e := .write 100 4) (t := s₄) (show (decimal 100).length ≤ 4 by decide) rfl ?_
    refine Runs.cons (e := .start 200 false) (t := s₅) trivial rfl ?_
    refine Runs.cons hrefused hfound (Relation.ReflTransGen.single ⟨.kill 200, ?_, rfl⟩)
    intro pid hpid hdead
    cases hpid
    exact absurd (by decide) hdead
  exact ⟨s₇, rfl, rfl, single_instance_of_orderly absolute noFiles s₇ hrun⟩

/-- Two processes that both check before either has written its pid both come into `run_server`. -/
theorem overlapping_checks_both_pass :
    ¬ ∀ (setup : Setup) (files : Files) (s : State),
      Runs (step setup) (fun _ _ => True) (initial files) s → SingleInstance s := by
  intro hall
  let es : List Event :=
    [.start 100 false, .start 200 false, .read 100 true, .read 200 true, .create 100 true,
      .write 100 4, .create 200 true, .write 200 4]
  have hboth : (takeSteps (step absolute) (fun _ _ => True) (initial noFiles) es).map
      (fun s => (s.phase 100, s.phase 200)) = some (.run_server, .run_server) := by
    decide
  obtain ⟨s, hs, hphases⟩ := Option.map_eq_some_iff.mp hboth
  obtain ⟨hfirst, hsecond⟩ := Prod.mk.inj hphases
  have hsame := hall absolute noFiles s (runs_of_takeSteps hs) 100 200 hfirst hsecond
  exact absurd hsame (by decide)

/-- What a process started with `-d` does; its pid is the one after its child's. -/
def startDaemon (p : Nat) : List Event :=
  [.start p true, .read p true, .fork p (some (p + 1)), .setsid (p + 1) true,
    .fork (p + 1) (some (p + 2)), .chdir (p + 2) true, .create (p + 2) true, .write (p + 2) 4]

-- the first daemon is inside `run_server` when the second is started, but its file is in `/`
example :
    (takeSteps (step relative) (fun _ _ => True) (initial noFiles)
      (startDaemon 100 ++ startDaemon 200)).map (fun s => (s.phase 102, s.phase 202)) =
        some (.run_server, .run_server) := by
  decide

end Starts

end OtusCProg.Daemon
