import NetProg.Shell.NpShell
import NetProg.Shell.Pipeline

/-!
# The parent of a pipeline is the loop of `runShell`

`Parent` is an abstraction of the loop in `RunShell`.  Here the forks, waits and closes that the
loop logs for a line `c 0 | c 1 | ...` in a fresh shell are the actions of `Parent`, in its order.
-/

namespace NetProg

/-- The actions of the parent that the other processes can notice: closing the write end of pipe
`i` lets command `i + 1` see the end of its input. -/
inductive ParentAct where
  | fork (i : Nat)
  | wait (i : Nat)
  | close (i : Nat)
  deriving DecidableEq, Repr

namespace Parent

/-- What the parent does next, and where it is then. -/
def next (count : Nat) : Parent → List ParentAct × Parent
  | .close i => (if 2 ≤ i then [.close (i - 2)] else [], .fork i)
  | .fork i => ([.fork i], .wait i)
  | .wait i =>
      (if 2 ≤ i then [.wait (i - 2)] else [], if i + 1 < count then .close (i + 1) else .closeLast)
  | .closeLast => (if 2 ≤ count then [.close (count - 2)] else [], .waitLast)
  | .waitLast => ([.wait (count - 1)], .done)
  | .done => ([], .done)

/-- The actions of the next `fuel` moves. -/
def acts (count : Nat) : Nat → Parent → List ParentAct
  | 0, _ => []
  | fuel + 1, parent => (parent.next count).1 ++ acts count fuel (parent.next count).2

/-- The actions of one turn of the loop. -/
def turn (i : Nat) : List ParentAct :=
  (if 2 ≤ i then [.close (i - 2)] else []) ++
    .fork i :: (if 2 ≤ i then [.wait (i - 2)] else [])

theorem acts_turn (count fuel i : Nat) : acts count (fuel + 3) (.close i) =
    turn i ++ acts count fuel (if i + 1 < count then .close (i + 1) else .closeLast) := by
  simp only [acts, next, turn, List.append_assoc, List.cons_append, List.nil_append]

end Parent

/-- A step of the pipeline moves the parent as `next` says, or not at all. -/
theorem Pipeline.Step.parent {count capacity block : Nat} {s s' : Pipeline}
    (step : Pipeline.Step count capacity block s s') :
    s'.parent = s.parent ∨ s'.parent = (s.parent.next count).2 := by
  cases step with
  | close i place => exact Or.inr (by rw [place]; rfl)
  | fork i place => exact Or.inr (by rw [place]; rfl)
  | wait i place waited => exact Or.inr (by rw [place]; rfl)
  | closeLast place => exact Or.inr (by rw [place]; rfl)
  | waitLast place waited => exact Or.inr (by rw [place]; rfl)
  | _ => exact Or.inl rfl

/-- The action behind a logged call of the shell: command `i` has the process id `i + 1`, and pipe
`i` is the one made after `i` others and `eol`. -/
def parentAct : Event → Option ParentAct
  | .fork pid _ => some (.fork (pid - 1))
  | .waitpid pid => some (.wait (pid - 1))
  | .close _ _ (some ⟨.pipeOut (pipe + 1), _⟩) => some (.close pipe)
  | _ => none

/-- The commands of the line `c 0 | c 1 | ...`. -/
def pipelineOf : List (List Text) → List ICommand
  | [] => []
  | [argv] => [.exe argv]
  | argv :: rest => .exe argv :: .pipe :: pipelineOf rest

/-- A pipe variable of the shell: cleared for number 0, else the open pipe of that number. -/
def Numbered (number : Nat) (p : Pipe) (part : Held) : Prop :=
  match number with
  | 0 => p = .cleared ∧ part = 0
  | number + 1 => ∃ first second, p = ⟨some first, some second⟩ ∧
      part = pipePart first second (number + 1) (.user 0)

namespace Numbered

variable {number : Nat} {p : Pipe} {part rest : Held} {k : Proc}

theorem holds (h : Numbered number p part) : p.Holds part := by
  cases number with
  | zero =>
      obtain ⟨rfl, rfl⟩ := h
      exact Pipe.holds_cleared
  | succ number =>
      obtain ⟨first, second, rfl, rfl⟩ := h
      exact Pipe.holds_pipePart first second _ _

theorem own (h : Numbered number p part) : Own 0 part := by
  cases number with
  | zero =>
      obtain ⟨rfl, rfl⟩ := h
      exact Own.zero 0
  | succ number =>
      obtain ⟨first, second, rfl, rfl⟩ := h
      exact own_pipePart first second _ 0

/-- Closing the variable logs the close of its write end. -/
theorem closed (h : Numbered number p part) (split : k.fds.opens = part + rest) :
    (p.closePipe k).log.filterMap parentAct = k.log.filterMap parentAct ++
      (if 1 ≤ number then [.close (number - 1)] else []) := by
  cases number with
  | zero =>
      obtain ⟨rfl, rfl⟩ := h
      simp
  | succ number =>
      obtain ⟨first, second, rfl, rfl⟩ := h
      have input : k.fds.get first = some ⟨.pipeIn (number + 1), .user 0⟩ := by
        rw [← FdTable.mem_opens, split]
        simp [pipePart]
      have output : k.fds.get second = some ⟨.pipeOut (number + 1), .user 0⟩ := by
        rw [← FdTable.mem_opens, split]
        simp [pipePart]
      have different : second ≠ first := by
        rintro rfl
        cases input.symm.trans output
      have still : (k.fds.close first).get second = some ⟨.pipeOut (number + 1), .user 0⟩ := by
        rw [FdTable.close, FdTable.get_set, if_neg different]
        exact output
      simp only [Pipe.closePipe, Proc.close, input, still, List.filterMap_append, List.append_assoc]
      rfl

end Numbered

/-- Closing a stale copy whose numbers are free is no action of the parent. -/
theorem closed_gone {p : Pipe} {k : Proc} (gone : p.Gone k.fds) :
    (p.closePipe k).log.filterMap parentAct = k.log.filterMap parentAct := by
  obtain ⟨input, output⟩ := p
  have free : ∀ (k : Proc) (fd : Fd), (∀ n, fd = some n → k.fds.get n = none) →
      (k.close fd).log.filterMap parentAct = k.log.filterMap parentAct := by
    intro k fd free
    cases fd with
    | none => rfl
    | some n =>
        simp only [Proc.close, free n rfl, List.filterMap_append]
        simp [parentAct]
  have still : ∀ n, output = some n → (k.close input).fds.get n = none := by
    intro n used
    have absent := gone n (Or.inr used)
    cases input with
    | none => exact absent
    | some m =>
        rw [Proc.close, FdTable.close, FdTable.get_set, absent, ite_self]
  rw [Pipe.closePipe, free _ _ still, free _ _ (fun n used => gone n (Or.inl used))]

/-- The shell of a pipeline before turn `i` of its loop. -/
structure AtTurn (i : Nat) (limit : Nat) (s : ShellState Unit) : Prop where
  serving : s.proc.serving = 0
  limited : s.proc.limit = limit
  nextPid : s.proc.nextPid = i + 1
  nextPipe : s.proc.nextPipe = i + 1
  waiting : s.handler.pipelineProcessor = (i - 1, i)
  pipes : ∃ prev curr others, Numbered (i - 1) s.handler.prevPipe prev ∧
    Numbered i s.handler.currPipe curr ∧ s.proc.fds.opens = prev + (curr + others) ∧
    others.card ≤ 5
  acts : s.proc.log.filterMap parentAct = (List.range i).flatMap Parent.turn

section Turns

variable {i limit : Nat} {s : ShellState Unit} (line : Text) (cl : NpCommandLine) (argv : List Text)

/-- The first statements of a turn: the pipe of two turns ago is closed. -/
theorem AtTurn.shift (h : AtTurn i limit s) :
    s.shiftPipes.proc.serving = 0 ∧ s.shiftPipes.proc.limit = limit ∧
    s.shiftPipes.proc.nextPid = i + 1 ∧ s.shiftPipes.proc.nextPipe = i + 1 ∧
    s.shiftPipes.handler.pipelineProcessor = (i - 1, i) ∧
    s.shiftPipes.handler.prevPipe = s.handler.currPipe ∧
    (∃ curr others, Numbered i s.handler.currPipe curr ∧
      s.shiftPipes.proc.fds.opens = curr + others ∧ others.card ≤ 5) ∧
    s.shiftPipes.proc.log.filterMap parentAct = (List.range i).flatMap Parent.turn ++
      (if 2 ≤ i then [.close (i - 2)] else []) := by
  obtain ⟨prev, curr, others, holdsPrev, holdsCurr, split, few⟩ := h.pipes
  obtain ⟨opens, steps⟩ := Pipe.closePipe_held split holdsPrev.holds
    (h.serving ▸ holdsPrev.own)
  refine ⟨steps.serving.trans h.serving, steps.limit.trans h.limited, ?_, ?_, h.waiting, rfl,
    ⟨curr, others, holdsCurr, opens, few⟩, ?_⟩
  · simp [ShellState.shiftPipes, Pipe.closePipe, h.nextPid]
  · simp [ShellState.shiftPipes, Pipe.closePipe, h.nextPipe]
  · change (s.handler.prevPipe.closePipe s.proc).log.filterMap parentAct = _
    rw [holdsPrev.closed split, h.acts]
    by_cases later : 2 ≤ i
    · rw [if_pos (show 1 ≤ i - 1 by omega), if_pos later, Nat.sub_sub]
    · rw [if_neg (show ¬ 1 ≤ i - 1 by omega), if_neg later]

/-- The last statements of a turn: `fork`, and the wait for the command forked two turns ago. -/
theorem forkCommand_acts (s : ShellState Unit) (argv : List Text) (pipeErr : Bool)
    (waiting : s.handler.pipelineProcessor = (i - 1, i)) (nextPid : s.proc.nextPid = i + 1) :
    (s.forkCommand argv pipeErr).proc.log.filterMap parentAct =
      s.proc.log.filterMap parentAct ++
        .fork i :: (if 2 ≤ i then [.wait (i - 2)] else []) ∧
    (s.forkCommand argv pipeErr).proc.nextPid = i + 2 ∧
    (s.forkCommand argv pipeErr).handler.pipelineProcessor = (i, i + 1) := by
  simp only [ShellState.forkCommand, waiting, Proc.fork, nextPid]
  by_cases later : 2 ≤ i
  · rw [if_neg (show ¬ i - 1 = 0 by omega), if_pos later]
    refine ⟨?_, rfl, trivial⟩
    simp only [Proc.waitpid, Proc.logEvent, List.filterMap_append, List.append_assoc]
    rfl
  · rw [if_pos (show i - 1 = 0 by omega), if_neg later]
    refine ⟨?_, rfl, trivial⟩
    simp only [List.filterMap_append]
    rfl

theorem flatMap_turn_succ (i : Nat) : (List.range (i + 1)).flatMap Parent.turn =
    (List.range i).flatMap Parent.turn ++ (if 2 ≤ i then [.close (i - 2)] else []) ++
      .fork i :: (if 2 ≤ i then [.wait (i - 2)] else []) := by
  rw [List.range_succ, List.flatMap_append, List.flatMap_singleton, Parent.turn, List.append_assoc]

/-- A turn that is not the last one. -/
theorem AtTurn.inner (h : AtTurn i limit s) (room : 10 < limit) :
    ∃ s', s.runCommand npshellCalls line cl argv (some .pipe) = .ok s' ∧
      AtTurn (i + 1) limit s' := by
  obtain ⟨serving, limited, nextPid, nextPipe, waiting, prev, ⟨curr, others, holds, opens, few⟩,
    acts⟩ := h.shift
  have made := (Pipe.create_held s.shiftPipes.proc (.user s.shiftPipes.proc.serving)).and
    (Pipe.create_rest s.shiftPipes.proc (.user s.shiftPipes.proc.serving))
  cases created : Pipe.create s.shiftPipes.proc (.user s.shiftPipes.proc.serving) with
  | error stopped =>
      rw [created] at made
      obtain ⟨⟨-, full⟩, -⟩ := made
      have card := holds.holds.card_le
      rw [opens, Multiset.card_add, limited] at full
      omega
  | ok result =>
      obtain ⟨currPipe, proc⟩ := result
      rw [created] at made
      obtain ⟨⟨first, second, same, opens', nextPipe', steps⟩, rest⟩ := made
      dsimp only at same opens' nextPipe' steps rest
      let s₁ : ShellState Unit :=
        { s.shiftPipes with proc, handler := { s.shiftPipes.handler with currPipe } }
      have nextPid' : s₁.proc.nextPid = i + 1 := (congrArg Proc.nextPid rest).trans nextPid
      have log : s₁.proc.log = s.shiftPipes.proc.log := (congrArg Proc.log rest).trans rfl
      obtain ⟨acts', nextPid'', waiting'⟩ := forkCommand_acts s₁ argv false waiting nextPid'
      have forked : Proc.Steps s₁.proc (s₁.forkCommand argv false).proc _ :=
        ShellState.forkCommand_steps argv none s₁
      refine ⟨s₁.forkCommand argv false, ?_, ?_⟩
      · simp only [ShellState.runCommand, ShellState.connect, ShellState.createPipe, created]
        rfl
      · refine ⟨?_, ?_, nextPid'', ?_, waiting',
          ⟨curr, _, others, ?_, ⟨first, second, same, rfl⟩, ?_, few⟩, ?_⟩
        · exact (forked.serving.trans steps.serving).trans serving
        · exact (forked.limit.trans steps.limit).trans limited
        · rw [ShellState.forkCommand_nextPipe]
          exact nextPipe'.trans (congrArg (· + 1) nextPipe)
        · rw [ShellState.forkCommand_prevPipe]
          exact prev ▸ holds
        · rw [ShellState.forkCommand_fds]
          rw [← serving, ← nextPipe, add_left_comm, ← opens]
          exact opens'
        · rw [acts', log, acts, flatMap_turn_succ]

/-- The shell of a pipeline of `count` commands after its loop. -/
structure AfterLoop (count : Nat) (s : ShellState Unit) : Prop where
  serving : s.proc.serving = 0
  waiting : s.handler.pipelineProcessor = (count - 1, count)
  copied : s.handler.currPipe = s.handler.prevPipe
  pipes : ∃ prev others, Numbered (count - 1) s.handler.prevPipe prev ∧
    s.proc.fds.opens = prev + others
  acts : s.proc.log.filterMap parentAct = (List.range count).flatMap Parent.turn

/-- The last turn makes no pipe. -/
theorem AtTurn.last (h : AtTurn i limit s) :
    ∃ s', s.runCommand npshellCalls line cl argv none = .ok s' ∧ AfterLoop (i + 1) s' := by
  obtain ⟨serving, limited, nextPid, nextPipe, waiting, prev, ⟨curr, others, holds, opens, few⟩,
    acts⟩ := h.shift
  obtain ⟨acts', nextPid', waiting'⟩ := forkCommand_acts s.shiftPipes argv false waiting nextPid
  have forked : Proc.Steps s.shiftPipes.proc (s.shiftPipes.forkCommand argv false).proc _ :=
    ShellState.forkCommand_steps argv none s.shiftPipes
  refine ⟨s.shiftPipes.forkCommand argv false, rfl, forked.serving.trans serving, waiting', prev.symm,
    ⟨curr, others, ?_, ?_⟩, ?_⟩
  · rw [ShellState.forkCommand_prevPipe]
    exact prev ▸ holds
  · rw [ShellState.forkCommand_fds]
    exact opens
  · rw [acts', acts, flatMap_turn_succ]

/-- The turns of the loop, by induction on the commands that are left. -/
theorem AtTurn.loop {commands : List (List Text)} (some : commands ≠ []) (h : AtTurn i limit s)
    (room : 10 < limit) :
    ∃ s', s.runCommands npshellCalls line cl (pipelineOf commands) = .ok s' ∧
      AfterLoop (i + commands.length) s' := by
  induction commands generalizing i s with
  | nil => exact absurd rfl some
  | cons argv rest ih =>
      cases rest with
      | nil =>
          obtain ⟨s', ran, after⟩ := h.last line cl argv
          refine ⟨s', ?_, after⟩
          simp only [pipelineOf, ShellState.runCommands, List.head?_nil, ran]
          rfl
      | cons next more =>
          obtain ⟨s', ran, after⟩ := h.inner line cl argv room
          obtain ⟨s'', ran', after'⟩ := ih (List.cons_ne_nil _ _) after
          refine ⟨s'', ?_, ?_⟩
          · simp only [pipelineOf, ShellState.runCommands, List.head?_cons, ran]
            exact ran'
          · rw [List.length_cons, ← Nat.add_assoc, Nat.add_right_comm]
            exact after'

/-- The end of the line: the last pipe is closed, and the shell waits for the last command. -/
theorem AfterLoop.endLine {count : Nat} (h : AfterLoop count s)
    (plain : ∃ last, cl.npCommands.getLast? = some last ∧ last.getType ≠ .numberedPipe) :
    ∃ s', s.endLine cl = .ok s' ∧ s'.proc.log.filterMap parentAct =
      (List.range count).flatMap Parent.turn ++
        (if 2 ≤ count then [.close (count - 2)] else []) ++ [.wait (count - 1)] := by
  obtain ⟨last, found, notNumbered⟩ := plain
  obtain ⟨prev, others, holds, split⟩ := h.pipes
  obtain ⟨opens, steps⟩ := Pipe.closePipe_held split holds.holds (h.serving ▸ holds.own)
  have gone := Pipe.gone_of_closed split holds.holds opens
  have acts := holds.closed split
  rw [h.acts] at acts
  refine ⟨_, by simp only [ShellState.endLine, found, if_pos notNumbered]; rfl, ?_⟩
  dsimp only
  rw [h.copied, closed_gone (k := (s.handler.prevPipe.closePipe s.proc).waitpid _) gone, h.waiting]
  simp only [Proc.waitpid, Proc.logEvent, List.filterMap_append, acts]
  by_cases several : 2 ≤ count
  · rw [if_pos (show 1 ≤ count - 1 by omega), if_pos several, Nat.sub_sub]
    rfl
  · rw [if_neg (show ¬ 1 ≤ count - 1 by omega), if_neg several]
    rfl

end Turns

/-- The moves of the parent from turn `i` on, by induction on the turns that are left. -/
theorem Parent.acts_turns {count : Nat} (left i : Nat) (last : i + left + 1 = count) :
    Parent.acts count (3 * (left + 1) + 2) (.close i) =
      (List.range' i (left + 1)).flatMap Parent.turn ++
        (if 2 ≤ count then [.close (count - 2)] else []) ++ [.wait (count - 1)] := by
  induction left generalizing i with
  | zero =>
      rw [show 3 * (0 + 1) + 2 = 2 + 3 from rfl, Parent.acts_turn, if_neg (by omega), Nat.zero_add,
        List.range'_one, List.flatMap_singleton]
      simp only [Parent.acts, Parent.next, List.append_assoc, List.append_nil]
  | succ left ih =>
      rw [show 3 * (left + 1 + 1) + 2 = 3 * (left + 1) + 2 + 3 by omega, Parent.acts_turn,
        if_pos (by omega), ih (i + 1) (by omega), List.range'_succ (n := left + 1),
        List.flatMap_cons]
      simp only [List.append_assoc]

theorem last_pipelineOf {commands : List (List Text)} (some : commands ≠ []) :
    ∃ argv, (pipelineOf commands).getLast? = .some (.exe argv) := by
  induction commands with
  | nil => exact absurd rfl some
  | cons argv rest ih =>
      cases rest with
      | nil => exact ⟨argv, rfl⟩
      | cons next more =>
          obtain ⟨last, found⟩ := ih (List.cons_ne_nil _ _)
          refine ⟨last, ?_⟩
          rw [pipelineOf, List.getLast?_cons, List.getLast?_cons, found]
          · rfl
          · exact fun h => by cases h

/-- A fresh `npshell` after `eol.create()`. -/
theorem npshell_atTurn {limit : Nat} (room : 10 < limit) (canOpen : Text → Bool)
    (environ : List (Text × Text)) (line : Text) (npCommands : List ICommand) :
    ∃ s, (npshell limit canOpen environ).beginLine npshellCalls line ⟨npCommands, 0, 0⟩ = .ok s ∧
      AtTurn 0 limit s := by
  have made := (Pipe.create_held (npshell limit canOpen environ).proc (.user 0)).and
    (Pipe.create_rest (npshell limit canOpen environ).proc (.user 0))
  unfold ShellState.beginLine
  change ∃ s, (Pipe.create (npshell limit canOpen environ).proc (.user 0) >>= _) = .ok s ∧ _
  cases created : Pipe.create (npshell limit canOpen environ).proc (.user 0) with
  | error stopped =>
      rw [created] at made
      obtain ⟨⟨-, full⟩, -⟩ := made
      change limit ≤ 4 at full
      omega
  | ok result =>
      obtain ⟨eol, proc⟩ := result
      rw [created] at made
      obtain ⟨⟨first, second, same, opens, -, -⟩, rest⟩ := made
      refine ⟨_, rfl, ?_⟩
      dsimp only at opens rest
      rw [rest]
      constructor
      case pipes =>
        refine ⟨0, 0, proc.fds.opens, ⟨rfl, rfl⟩, ⟨rfl, rfl⟩, by simp, ?_⟩
        rw [opens]
        exact Nat.le_refl 5
      all_goals rfl

/-- In a fresh `npshell` the line `c 0 | c 1 | ...` ends, and its forks, waits and closes are the
moves of `Parent`. -/
theorem pipeline_parent {commands : List (List Text)} (some : commands ≠ []) {limit : Nat}
    (room : 10 < limit) (canOpen : Text → Bool) (environ : List (Text × Text)) (line : Text) :
    ∃ s, (npshell limit canOpen environ).runCommandLine npshellCalls line
        ⟨pipelineOf commands, 0, 0⟩ = .ok s ∧
      s.proc.log.filterMap parentAct =
        Parent.acts commands.length (3 * commands.length + 2) (.close 0) := by
  obtain ⟨left, length⟩ : ∃ left, commands.length = left + 1 :=
    ⟨commands.length - 1, by have := List.length_pos_iff.mpr some; omega⟩
  obtain ⟨s, began, h⟩ := npshell_atTurn room canOpen environ line (pipelineOf commands)
  obtain ⟨s', ran, after⟩ := h.loop line ⟨pipelineOf commands, 0, 0⟩ some room
  obtain ⟨argv, last⟩ := last_pipelineOf some
  obtain ⟨s'', ended, acts⟩ := after.endLine ⟨pipelineOf commands, 0, 0⟩
    ⟨.exe argv, last, fun h => by cases h⟩
  refine ⟨s'', ?_, ?_⟩
  · simp only [ShellState.runCommandLine, began]
    exact bind_eq_ok.mpr ⟨s, rfl, bind_eq_ok.mpr ⟨s', ran, ended⟩⟩
  · rw [acts, Nat.zero_add, length, Parent.acts_turns left 0 (by omega), List.range_eq_range']

end NetProg
