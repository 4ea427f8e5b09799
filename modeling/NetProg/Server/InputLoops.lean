import Mathlib.Data.List.TakeWhile
import NetProg.Lib.Lines
import NetProg.Shell.Environ
import NetProg.Shell.NpRun

/-!
# The loops around `runShell`

`npshell` and the processes of `np_multi_proc` call `runShell` as long as nothing has cleared
`running`.  `runShell` takes a line from `std::cin`, and the empty line when none is left; only the word
`exit` clears the flag.  The commands of a line read the same descriptor: what `std::cin` has not read
ahead they may take away.
-/

namespace NetProg

/-- The standard input: what `std::cin` has read ahead, and what is still to come from descriptor 0. -/
structure Stdin where
  cin : Text
  source : Text
  deriving DecidableEq, Repr

/-- What happens around the loop, turn by turn: how far `std::cin` reads ahead, how many bytes the
commands of the line take from descriptor 0, and whether the write of the prompt raises `SIGPIPE`. -/
structure Surroundings where
  ahead : Nat → Nat
  taken : Nat → Nat
  gone : Nat → Bool

namespace Stdin

/-- `std::getline(std::cin, line)`: a line that is not there in full is read from the descriptor. -/
def getline (ahead : Nat) (s : Stdin) : Option (Text × Stdin) :=
  if '\n' ∈ s.cin then (Text.getline s.cin).map fun (line, rest) => (line, ⟨rest, s.source⟩)
  else
    (Text.getline (s.cin ++ s.source)).map fun (line, rest) =>
      (line, ⟨rest.take ahead, rest.drop ahead⟩)

/-- The commands of a line read from the descriptor. -/
def take (n : Nat) (s : Stdin) : Stdin := { s with source := s.source.drop n }

/-- A turn of the loop: a line, if one is left, and what its commands read. -/
def turn (env : Surroundings) (k : Nat) (s : Stdin) : Option Text × Stdin :=
  match s.getline (env.ahead k) with
  | none => (none, s)
  | some (line, s) => (some line, s.take (env.taken k))

end Stdin

/-- The input in front of turn `k`. -/
def stdinAt (env : Surroundings) (input : Text) : Nat → Stdin
  | 0 => ⟨[], input⟩
  | k + 1 => ((stdinAt env input k).turn env k).2

/-- What `getline` delivers in turn `k`. -/
def delivered (env : Surroundings) (input : Text) (k : Nat) : Option Text :=
  ((stdinAt env input k).turn env k).1

/-- `std::string line; std::getline(std::cin, line);`: a failed `getline` leaves the line empty. -/
def lineOf (env : Surroundings) (input : Text) (k : Nat) : Text := (delivered env input k).getD []

/-- The shell of a process, and what its turns leave. -/
structure InputLoop (σ : Type) where
  stdin : Stdin
  shell : σ
  running : Bool
  /-- The process has ended before the loop. -/
  killed : Bool
  /-- How often the body of the loop has run. -/
  turns : Nat
  /-- The lines that `getline` has delivered, and that were parsed and run. -/
  executed : List Text

namespace InputLoop

variable {σ : Type}

/-- The loop has ended. -/
def ended (s : InputLoop σ) : Bool := !s.running || s.killed

/-- `while (running)` around the prompt and `runShell`; `body` is what a line does to the shell, with
the flag behind it, or `none` if it ends the process. -/
def turn (body : Nat → Text → σ → Option (Bool × σ)) (env : Surroundings) (s : InputLoop σ) :
    InputLoop σ :=
  if s.ended then s
  else if env.gone s.turns then { s with killed := true }
  else
    let (line, stdin) := s.stdin.turn env s.turns
    match body s.turns (line.getD []) s.shell with
    | none => { s with stdin, killed := true }
    | some (running, shell) =>
        { s with
          stdin, shell, running
          turns := s.turns + 1
          executed := s.executed ++ line.toList }

/-- The loop after so many turns. -/
def after (body : Nat → Text → σ → Option (Bool × σ)) (env : Surroundings) (input : Text)
    (shell : σ) : Nat → InputLoop σ
  | 0 => ⟨⟨[], input⟩, shell, true, false, 0, []⟩
  | n + 1 => (after body env input shell n).turn body env

end InputLoop

/-- `runShell` of `npshell` with the flag behind it; `exit(EXIT_FAILURE)` in `Pipe::create` ends the
process. -/
def Npshell.body (_ : Nat) (line : Text) (s : ShellState Unit) : Option (Bool × ShellState Unit) :=
  (Npshell.runShell line s).toOption.map fun s => (s.handler.running, s)

/-- `main` of `npshell` (`np_project1/npshell.cpp:13-30`). -/
def Npshell.main (env : Surroundings) (shell : ShellState Unit) (input : Text) (n : Nat) :
    InputLoop (ShellState Unit) :=
  .after Npshell.body env input shell n

/-- The line makes the parser clear `running`. -/
def exits (parseCommand : Text → List Builtin × List NpCommandLine) (line : Text) : Bool :=
  decide (.exit ∈ (parseCommand line).1)

section Stream

variable {env : Surroundings} {input : Text} {k : Nat}

end Stream

namespace InputLoop

section Laws

variable {σ : Type} {parseCommand : Text → List Builtin × List NpCommandLine}
  {body : Nat → Text → σ → Option (Bool × σ)} {env : Surroundings} {input : Text} {shell s : σ} {k : Nat}

/-- The shell in front of turn `k`, if no turn before has ended the loop. -/
def goesOn (body : Nat → Text → σ → Option (Bool × σ)) (env : Surroundings) (input : Text)
    (shell : σ) : Nat → Option σ
  | 0 => some shell
  | k + 1 => (goesOn body env input shell k).bind fun s =>
      if env.gone k then none
      else
        match body k (lineOf env input k) s with
        | some (true, s) => some s
        | _ => none

end Laws

end InputLoop

/-- The lines of the first turns; the empty one where `getline` fails. -/
def firstLines (env : Surroundings) (input : Text) (k : Nat) : List Text :=
  (List.range k).map (lineOf env input)

theorem firstLines_succ (env : Surroundings) (input : Text) (k : Nat) :
    firstLines env input (k + 1) = firstLines env input k ++ [lineOf env input k] := by
  rw [firstLines, List.range_succ, List.map_append]
  rfl

namespace Npshell

theorem run_snoc (lines : List Text) (line : Text) (s : ShellState Unit) :
    run (lines ++ [line]) s = run lines s >>= fun s =>
      if s.handler.running then runShell line s else .ok s := by
  induction lines generalizing s with
  | nil =>
      show (if s.handler.running then runShell line s >>= fun s => .ok s else .ok s) =
        if s.handler.running then runShell line s else .ok s
      split
      · cases runShell line s <;> rfl
      · rfl
  | cons first lines ih =>
      rw [List.cons_append, run, run]
      by_cases on : s.handler.running = true
      · rw [if_pos on, if_pos on]
        cases runShell first s with
        | ok s' => exact ih s'
        | error stopped => rfl
      · rw [if_neg on, if_neg on]
        show .ok s = if s.handler.running then runShell line s else .ok s
        rw [if_neg on]

theorem npshellCalls_tame : npshellCalls.Tame fun _ _ => True where
  refl := fun _ => trivial
  trans := fun _ _ => trivial
  read := fun _ _ _ _ k _ => ⟨.refl k, trivial⟩
  write := fun _ _ _ _ k _ => ⟨.refl k, trivial⟩

/-- Only `exit` clears the flag. -/
theorem runShell_running (line : Text) (s : ShellState Unit) :
    Sat (runShell line s)
      (fun r => r.handler.running = (s.handler.running && !exits parseCommand line))
      (fun _ => True) := by
  refine Sat.bind (Sat.mono (ShellState.runQueue_tame npshellCalls_tame _ _) (fun _ ran => ran)
    fun _ _ => trivial) ?_
  intro r ran
  have flag : r.handler.running = (s.handler.running && !exits parseCommand line) :=
    ran.running.trans (running_builtins _ s)
  show Sat (.ok _) _ _
  split
  · exact flag
  · exact flag

theorem run_running {lines : List Text} {s r : ShellState Unit} (on : s.handler.running = true)
    (quiet : ∀ line ∈ lines, exits parseCommand line = false) (ran : run lines s = .ok r) :
    r.handler.running = true := by
  induction lines generalizing s with
  | nil =>
      cases ran
      exact on
  | cons line lines ih =>
      rw [run, if_pos on] at ran
      obtain ⟨mid, first, later⟩ := bind_eq_ok.mp ran
      have flag := (runShell_running line s).of_ok first
      rw [on, quiet line List.mem_cons_self] at flag
      exact ih flag (fun line member => quiet line (List.mem_cons_of_mem _ member)) later

/-- The loop of `npshell` goes on as long as no prompt fails, no line exits and no pipe fails. -/
theorem goesOn_iff {env : Surroundings} {input : Text} {shell s : ShellState Unit} {k : Nat}
    (on : shell.handler.running = true) :
    InputLoop.goesOn body env input shell k = some s ↔
      (∀ j < k, env.gone j = false ∧ exits parseCommand (lineOf env input j) = false) ∧
        run (firstLines env input k) shell = .ok s ∧ s.handler.running = true := by
  induction k generalizing s with
  | zero =>
      constructor
      · intro same
        cases same
        exact ⟨by simp, rfl, on⟩
      · intro conditions
        obtain ⟨-, ran, -⟩ := conditions
        cases ran
        rfl
  | succ k ih =>
      rw [InputLoop.goesOn, Option.bind_eq_some_iff, firstLines_succ, run_snoc, bind_eq_ok]
      constructor
      · rintro ⟨before, earlier, here⟩
        obtain ⟨quiet, ran, going⟩ := ih.mp earlier
        split at here
        · cases here
        · rename_i there
          split at here
          · rename_i next found
            cases here
            obtain ⟨r, ended, same⟩ := Option.map_eq_some_iff.mp found
            have ok : runShell (lineOf env input k) before = .ok r := by
              cases result : runShell (lineOf env input k) before with
              | error stopped =>
                  rw [result] at ended
                  cases ended
              | ok r' =>
                  rw [result] at ended
                  cases ended
                  rfl
            obtain ⟨flag, rfl⟩ := Prod.mk.inj same
            have running := (runShell_running _ before).of_ok ok
            rw [going, Bool.true_and] at running
            refine ⟨fun j within => ?_, ⟨before, ran, by rw [if_pos going, ok]⟩, flag⟩
            by_cases last : j = k
            · subst last
              exact ⟨Bool.eq_false_iff.mpr there, by simpa [flag] using running⟩
            · exact quiet j (by omega)
          · cases here
      · rintro ⟨quiet, ⟨before, ran, ended⟩, going⟩
        have on' : before.handler.running = true := by
          by_contra off
          rw [if_neg off] at ended
          cases ended
          exact off going
        rw [if_pos on'] at ended
        refine ⟨before, ih.mpr ⟨fun j within => quiet j (by omega), ran, on'⟩, ?_⟩
        rw [if_neg (by simp [(quiet k (Nat.lt_succ_self k)).1]), body, ended]
        simp only [Except.toOption, Option.map_some, going]

section Turns

variable {env : Surroundings} {input : Text} {shell : ShellState Unit}

/-- What ends the loop. -/
theorem stops_iff (on : shell.handler.running = true) :
    (∃ k, InputLoop.goesOn body env input shell k = none) ↔
      ∃ k, env.gone k = true ∨ exits parseCommand (lineOf env input k) = true ∨
        ∃ stopped, run (firstLines env input (k + 1)) shell = .error stopped := by
  constructor
  · intro stops
    obtain ⟨k, off⟩ := stops
    by_contra never
    simp only [not_exists, not_or] at never
    have quiet : ∀ j < k, env.gone j = false ∧ exits parseCommand (lineOf env input j) = false :=
      fun j _ => ⟨Bool.eq_false_iff.mpr (never j).1, Bool.eq_false_iff.mpr (never j).2.1⟩
    obtain ⟨s, ran⟩ : ∃ s, run (firstLines env input k) shell = .ok s := by
      cases k with
      | zero => exact ⟨_, rfl⟩
      | succ k =>
          cases result : run (firstLines env input (k + 1)) shell with
          | ok s => exact ⟨s, rfl⟩
          | error stopped => exact absurd result ((never k).2.2 stopped)
    have flag : s.handler.running = true := by
      refine run_running on (fun line member => ?_) ran
      obtain ⟨j, within, rfl⟩ := List.mem_map.mp member
      exact (quiet j (List.mem_range.mp within)).2
    rw [(goesOn_iff on).mpr ⟨quiet, ran, flag⟩] at off
    cases off
  · intro stops
    obtain ⟨k, stop⟩ := stops
    refine ⟨k + 1, ?_⟩
    by_contra going
    obtain ⟨s, going⟩ := Option.ne_none_iff_exists'.mp going
    obtain ⟨quiet, ran, -⟩ := (goesOn_iff on).mp going
    obtain ⟨prompt, stays⟩ := quiet k (Nat.lt_succ_self k)
    rcases stop with gone | exit | ⟨stopped, failed⟩
    · rw [prompt] at gone
      cases gone
    · rw [stays] at exit
      cases exit
    · rw [ran] at failed
      cases failed

end Turns

end Npshell

section MultiProc

variable {env : Surroundings} {dies : Nat → Bool} {input : Text}

end MultiProc

end NetProg
