import NetProg.Shell.NpParse
import NetProg.Shell.NumberedPipes

/-!
# Runs of `npshell`

`CmdHandler::runShell` performs the built-in commands of an input line while it parses the line, and
then runs the command lines; `main` goes on until `exit` has cleared `running`.  The command lines of
such a run do what the account of the shell says, as long as the account does not refuse one of them.
-/

namespace NetProg

/-- `getenv(name)` in the strings `name=value` of the environment. -/
def Proc.getenv (k : Proc) (name : Text) : Option Text :=
  let name := Text.cString name
  if name = [] then none
  else
    ((k.environ.map fun entry => entry.1 ++ '=' :: entry.2).find?
      ((name ++ ['=']).isPrefixOf ·)).map (·.drop (name.length + 1))

theorem Pipe.closePipe_limit {p : Pipe} {k : Proc} : (p.closePipe k).limit = k.limit := by
  obtain ⟨inFd, outFd⟩ := p
  cases inFd <;> cases outFd <;> rfl

namespace Npshell

/-- The three built-in commands (`np_project1/shell/cmdHandler.cpp:101-120`); the parser knows no
others. -/
def perform (s : ShellState Unit) : Builtin → ShellState Unit
  | .exit =>
      let h := s.handler
      { s with
        proc := h.currPipe.closePipe (h.prevPipe.closePipe (h.eol.closePipe s.proc))
        handler :=
          { h with running := false, eol := .cleared, prevPipe := .cleared, currPipe := .cleared } }
  | .printenv env =>
      match s.proc.getenv env with
      | none => s
      | some value => { s with proc := s.proc.logEvent (.cout (value ++ "\n".toList)) }
  | .setenv env var => { s with proc := s.proc.setenv env var }
  | _ => s

/-- `CmdHandler::runShell` (`np_project1/shell/cmdHandler.cpp:14-91`) on the line that `getline`
returned. -/
def runShell (line : Text) (s : ShellState Unit) : Outcome (ShellState Unit) := do
  let (builtins, queue) := parseCommand line
  let s ← (builtins.foldl perform s).runQueue npshellCalls line queue
  .ok (if s.handler.running then { s with proc := s.proc.logEvent (.cout "% ".toList) } else s)

/-- `while(running)` in `main` (`np_project1/npshell.cpp:26-28`) on the lines that `getline`
returns. -/
def run : List Text → ShellState Unit → Outcome (ShellState Unit)
  | [], s => .ok s
  | line :: lines, s =>
      if s.handler.running then do
        let s ← runShell line s
        run lines s
      else .ok s

/-- The command lines of an input line. -/
def lineTicks (line : Text) (s : ShellState Unit) : List (Tick Unit) :=
  ((parseCommand line).1.foldl perform s).queueTicks npshellCalls line (parseCommand line).2

/-- The command lines of a run, as far as they come to their end. -/
def ticks : List Text → ShellState Unit → List (Tick Unit)
  | [], _ => []
  | line :: lines, s =>
      if s.handler.running then
        lineTicks line s ++
          match runShell line s with
          | .error _ => []
          | .ok s => ticks lines s
      else []

/-- The account of an input line. -/
def text (line : Text) (a : Account) : Option Account :=
  (if .exit ∈ (parseCommand line).1 then a.exit else a).queue (parseCommand line).2

/-- The account of a run: behind `exit` no line is read. -/
def texts : List Text → Account → Option Account
  | [], a => some a
  | line :: lines, a =>
      (text line a).bind fun after =>
        if .exit ∈ (parseCommand line).1 then some after else texts lines after

/-- The standard input of `npshell`. -/
def terminal : Desc := ⟨.std 0, .server⟩

/-- What is known after some lines: `ticks` are their command lines. -/
structure Followed (a : Account) (ticks : List (Tick Unit)) (s : ShellState Unit) : Prop where
  agreed : ∃ xs, Account.Linked .init xs a ∧
    List.Forall₂ (TickAgrees 0 terminal (Tick.MadeIn ticks)) ticks xs
  counted : Counted ticks a s.proc.nextPipe
  idle : Idle a s.handler s.proc.fds
  serving : s.proc.serving = 0
  rings : ∃ parts eol leaked, a.Agrees 0 s.handler parts eol ∧
    RingAgrees 0 (Tick.MadeIn ticks) s.handler.numberPipeList a.slots parts ∧
    s.proc.fds.opens = (∑ i, parts i) + (eol + (leaked + standardFds.opens)) ∧
    (eol + leaked).card ≤ 2 * ticks.length

variable {a after : Account} {ticks : List (Tick Unit)} {s r : ShellState Unit} {line : Text}

theorem followed_start (limit : Nat) (canOpen : Text → Bool) (environ : List (Text × Text)) :
    Followed .init [] (npshell limit canOpen environ) where
  agreed := ⟨[], .nil _, .nil⟩
  counted := ⟨fun _ member => absurd member List.not_mem_nil, rfl⟩
  idle := fun stale => absurd rfl stale
  serving := rfl
  rings := by
    refine ⟨fun _ => 0, 0, 0, Account.init_agrees 0, .init 0 _, ?_, Nat.le_refl _⟩
    rw [Finset.sum_const_zero, zero_add, zero_add, zero_add]
    rfl

/-- What touches neither the handler nor the descriptors keeps all of it. -/
theorem Followed.quiet (h : Followed a ticks s) (handler : r.handler = s.handler)
    (fds : r.proc.fds = s.proc.fds) (serving : r.proc.serving = s.proc.serving)
    (nextPipe : r.proc.nextPipe = s.proc.nextPipe) : Followed a ticks r where
  agreed := h.agreed
  counted := nextPipe ▸ h.counted
  idle := by
    rw [handler, fds]
    exact h.idle
  serving := serving.trans h.serving
  rings := by
    rw [handler, fds]
    exact h.rings

theorem Followed.exit (h : Followed a ticks s) : Followed a.exit ticks (perform s .exit) := by
  obtain ⟨parts, eol, leaked, agrees, ring, split, few⟩ := h.rings
  obtain ⟨xs, linked, agree⟩ := h.agreed
  have low : LowOpen (leaked + standardFds.opens) := lowOpen_standardFds.mono
  obtain ⟨parts', agrees', opens, steps⟩ := agrees.exit h.serving low split h.idle
  have named : PipesNamed 0 ticks a.exit.slots s.handler.numberPipeList (perform s .exit).proc.fds :=
    (ring.named split).exit fun n desc found =>
      Pipe.get_of_closePipe (Pipe.get_of_closePipe (Pipe.get_of_closePipe found))
  refine ⟨⟨xs, ?_, agree⟩, ⟨h.counted.older.mono steps.nextPipe, h.counted.exit.number⟩, ?_,
    steps.serving.trans h.serving, parts', 0, leaked, agrees', ?_, opens.trans (by rw [zero_add]), ?_⟩
  · rw [← List.append_nil xs]
    exact linked.trans (.exit (.nil _))
  · exact fun stale => absurd a.exit_last stale
  · exact agrees'.ring.of_named opens named
  · rw [Multiset.card_add] at few
    rw [zero_add]
    omega

/-- The built-in commands of a line, by induction on them. -/
theorem Followed.builtins (h : Followed a ticks s) (builtins : List Builtin) :
    Followed (if .exit ∈ builtins then a.exit else a) ticks (builtins.foldl perform s) := by
  induction builtins generalizing a s with
  | nil => exact h
  | cons builtin more ih =>
      by_cases last : builtin = .exit
      · subst last
        have later := ih h.exit
        rw [if_pos List.mem_cons_self]
        split at later
        · rw [a.exit_exit] at later
          exact later
        · exact later
      · have same : Followed a ticks (perform s builtin) := by
          unfold perform
          split
          · exact absurd rfl last
          · split
            · exact h
            · exact h.quiet rfl rfl rfl rfl
          · refine h.quiet rfl ?_ ?_ ?_
            all_goals
              rw [Proc.setenv]
              split <;> rfl
          · exact h
        have later := ih same
        simp only [List.mem_cons, Ne.symm last, false_or]
        exact later

/-- What a command line of `npshell` keeps; it stops only when there are not enough descriptors. -/
theorem Followed.tick (h : Followed a ticks s) {cl : NpCommandLine} (shape : Shape cl.npCommands)
    (plain : cl.Plain) (fits : a.line cl = some after) :
    Sat (s.runCommandLine npshellCalls line cl)
      (fun r => Followed after (ticks ++ [⟨cl, s, r⟩]) r ∧
        r.handler.running = s.handler.running ∧ r.proc.limit = s.proc.limit)
      (fun _ => s.proc.limit ≤ 2 * 1024 + 2 * ticks.length + 8) := by
  obtain ⟨parts, eol, leaked, agrees, ring, split, few⟩ := h.rings
  obtain ⟨xs, linked, agree⟩ := h.agreed
  have low : LowOpen (eol + leaked + standardFds.opens) := lowOpen_standardFds.mono
  have standard : (0, terminal) ∈ eol + leaked + standardFds.opens :=
    Multiset.mem_add.mpr (Or.inr
      ((FdTable.mem_opens _ _ _).mpr (rfl : standardFds.get 0 = some terminal)))
  have apart : s.proc.fds.opens = (∑ i, parts i) + (0 + (eol + leaked + standardFds.opens)) := by
    rw [split, zero_add, add_assoc]
  refine Sat.mono (tick_agrees npshellCalls_lawful shape plain.noSkipped fits h.serving
    (rfl : NoMail () 0) agrees.prev ring h.counted low standard apart) ?_ ?_
  · rintro r ⟨parts', mail', eol', children, none, steps, running, prev, ended, ring', counted', opens,
      here⟩
    change mail' = 0 at none
    subst none
    refine ⟨⟨⟨_, linked.trans (.cons fits (.nil after)), ?_⟩, counted', ended.idle fits,
      steps.serving.trans h.serving, parts', eol', eol + leaked,
      ⟨ring'.mono fun _ _ _ => trivial, prev, .of_line ended fits⟩, ring', ?_, ?_⟩, running, steps.limit⟩
    · exact List.rel_append
        (agree.imp fun _ _ agrees => agrees.mono fun _ _ made => made.append) (.cons here .nil)
    · rw [opens, zero_add]
    · have small := ended.card_le
      rw [Multiset.card_add, List.length_append, List.length_singleton]
      omega
  · intro stopped failed
    rcases failed.cause with impossible | full
    · exact impossible.2.elim
    · have waiting := ring.card_le
      have unused : cl.npCommands.count .userPipe = 0 := List.count_eq_zero.mpr plain.commands
      have three : standardFds.opens.card = 3 := rfl
      have full := full.2
      rw [apart, unused] at full
      simp only [Multiset.card_add, Multiset.card_zero, three] at full few
      omega

/-- The rule for the command lines of an input line, by induction on them. -/
theorem Followed.queue (h : Followed a ticks s) {queue : List NpCommandLine}
    (plain : ∀ cl ∈ queue, Shape cl.npCommands ∧ cl.Plain) (fits : a.queue queue = some after) :
    Sat (s.runQueue npshellCalls line queue)
      (fun r => Followed after (ticks ++ s.queueTicks npshellCalls line queue) r ∧
        r.handler.running = s.handler.running ∧ r.proc.limit = s.proc.limit)
      (fun _ => s.proc.limit ≤ 2 * 1024 + 2 * (ticks.length + queue.length) + 8) := by
  induction queue generalizing a ticks s with
  | nil =>
      cases fits
      rw [ShellState.queueTicks, List.append_nil]
      exact ⟨h, rfl, rfl⟩
  | cons cl queue ih =>
      obtain ⟨middle, first, later⟩ := Option.bind_eq_some_iff.mp fits
      obtain ⟨shape, flat⟩ := plain cl List.mem_cons_self
      have step : Sat (s.runCommandLine npshellCalls line cl) _ _ := h.tick shape flat first
      rw [ShellState.runQueue, ShellState.queueTicks, List.length_cons]
      cases ran : s.runCommandLine npshellCalls line cl with
      | error stopped =>
          have full := step.of_error ran
          show s.proc.limit ≤ _
          omega
      | ok mid =>
          obtain ⟨followed, running, limit⟩ := step.of_ok ran
          refine Sat.mono (ih followed (fun cl member => plain cl (List.mem_cons_of_mem _ member))
            later) ?_ ?_
          · intro r ended
            rw [List.append_assoc] at ended
            exact ⟨ended.1, ended.2.1.trans running, ended.2.2.trans limit⟩
          · intro stopped full
            rw [limit, List.length_append, List.length_singleton] at full
            show s.proc.limit ≤ _
            omega

/-- Nothing sets `running` again. -/
theorem running_builtins (builtins : List Builtin) (s : ShellState Unit) :
    (builtins.foldl perform s).handler.running =
      (s.handler.running && !decide (.exit ∈ builtins)) := by
  induction builtins generalizing s with
  | nil => simp
  | cons builtin more ih =>
      rw [List.foldl_cons, ih]
      by_cases last : builtin = .exit
      · subst last
        simp [perform]
      · have same : (perform s builtin).handler = s.handler := by
          unfold perform
          split
          · exact absurd rfl last
          · split <;> rfl
          · rfl
          · rfl
        simp only [same, List.mem_cons, Ne.symm last, false_or]

theorem limit_builtins (builtins : List Builtin) (s : ShellState Unit) :
    (builtins.foldl perform s).proc.limit = s.proc.limit := by
  induction builtins generalizing s with
  | nil => rfl
  | cons builtin more ih =>
      rw [List.foldl_cons, ih]
      unfold perform
      split
      · exact Pipe.closePipe_limit.trans (Pipe.closePipe_limit.trans Pipe.closePipe_limit)
      · split <;> rfl
      · show (s.proc.setenv _ _).limit = _
        rw [Proc.setenv]
        split <;> rfl
      · rfl

theorem Followed.agrees (h : Followed a ticks s) : RunAgreed 0 terminal ticks :=
  have ⟨xs, linked, agree⟩ := h.agreed
  ⟨xs, a, linked, agree⟩

/-- The command lines of an input line, whether it comes to its end or not. -/
theorem Followed.input (h : Followed a ticks s) (fits : text line a = some after) :
    RunAgreed 0 terminal (ticks ++ lineTicks line s) ∧
      Sat (runShell line s)
        (fun r => Followed after (ticks ++ lineTicks line s) r ∧
          (r.handler.running = (s.handler.running && !decide (.exit ∈ (parseCommand line).1))) ∧
          r.proc.limit = s.proc.limit)
        (fun _ => s.proc.limit ≤ 2 * 1024 + 2 * (ticks.length + (parseCommand line).2.length) + 8) := by
  have begun := h.builtins (parseCommand line).1
  have plain : ∀ cl ∈ (parseCommand line).2, Shape cl.npCommands ∧ cl.Plain := fun cl member =>
    ⟨parseCommand_shape member, parseCommand_plain member⟩
  constructor
  · obtain ⟨k, r, ran, same⟩ := ShellState.queueTicks_taken npshellCalls line (parseCommand line).2
      ((parseCommand line).1.foldl perform s)
    obtain ⟨middle, taken⟩ := Account.queue_take fits k
    rw [lineTicks, ← same]
    exact ((begun.queue (fun cl member => plain cl (List.mem_of_mem_take member)) taken).of_ok
      ran).1.agrees
  · have running := running_builtins (parseCommand line).1 s
    have limit := limit_builtins (parseCommand line).1 s
    refine Sat.bind (Sat.mono (begun.queue plain fits) (fun _ ran => ran) fun _ full => ?_) ?_
    · rw [limit] at full
      exact full
    · intro done ran
      obtain ⟨followed, same, bound⟩ := ran
      rw [running] at same
      rw [limit] at bound
      show Sat (.ok _) _ _
      split
      · exact ⟨followed.quiet rfl rfl rfl rfl, same, bound⟩
      · exact ⟨followed, same, bound⟩

/-- The command lines of a run agree with its account, by induction on the lines. -/
theorem Followed.run (h : Followed a ticks s) {lines : List Text} (fits : texts lines a ≠ none) :
    RunAgreed 0 terminal (ticks ++ Npshell.ticks lines s) := by
  induction lines generalizing a ticks s with
  | nil =>
      rw [Npshell.ticks, List.append_nil]
      exact h.agrees
  | cons line lines ih =>
      rw [Npshell.ticks]
      by_cases on : s.handler.running = true
      · rw [if_pos on, ← List.append_assoc]
        cases first : text line a with
        | none =>
            rw [texts, first] at fits
            exact absurd rfl fits
        | some after =>
            rw [texts, first, Option.bind_some] at fits
            obtain ⟨agreed, ends⟩ := h.input first
            cases ran : runShell line s with
            | error stopped =>
                rw [List.append_nil]
                exact agreed
            | ok r =>
                obtain ⟨later, stops, -⟩ := ends.of_ok ran
                by_cases exit : .exit ∈ (parseCommand line).1
                · have idle : Npshell.ticks lines r = [] := by
                    cases lines with
                    | nil => rfl
                    | cons => rw [Npshell.ticks, if_neg (by simp [stops, exit])]
                  show RunAgreed 0 terminal (_ ++ Npshell.ticks lines r)
                  rw [idle, List.append_nil]
                  exact agreed
                · rw [if_neg exit] at fits
                  exact ih later fits
      · rw [if_neg on, List.append_nil]
        exact h.agrees

end Npshell

end NetProg
