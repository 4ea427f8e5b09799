import NetProg.Console.CgiUtil
import NetProg.Console.Conversation

/-!
# The console inside `cgi_server`

`NPShellApp` talks to the same shell without a regular expression: a `%` anywhere in what one
`async_read_some` returned counts as a prompt, and `exit` anywhere in a command ends the session.
The two programs do the same only while the chunks and the lines hide that.
-/

namespace NetProg

open Text (getline lines includes lines_eq_nil lines_eq_cons cString cString_of_plain
  not_mem_cString)

/-- `NPShellApp` (`np_project3/cgi_server.cpp:23-112`); the two arrays live for one callback only.
`responses` are the strings given to `handleHttpResp`, `written` what each `async_write` transmitted
to the shell. -/
structure NPShellApp where
  /-- What is left of the test case. -/
  npServerInput : Text
  sessionId : Int := 0
  /-- An `async_read_some` is outstanding. -/
  reading : Bool := true
  responses : List Text := []
  written : List Text := []
  deriving Repr

namespace NPShellApp

/-- `BUFFER_SIZE`. -/
def bufferSize : Nat := 1024

/-- `std::string(npShellOutput)` after a read into the zeroed array, if a NUL is left in it. -/
def outputString (chunk : Text) : Option Text :=
  if chunk.length < bufferSize ∨ '\x00' ∈ chunk then some (cString chunk) else none

/-- The completion of the `async_write` to the shell. -/
def onWritten (command : Text) (app : NPShellApp) : NPShellApp :=
  let app := { app with written := app.written ++ [command] }
  if includes "exit".toList command then app else { app with reading := true }

/-- `handleBackendReq` (`np_project3/cgi_server.cpp:88-102`); `strcpy` must not leave the array. -/
def handleBackendReq (cmd : Text) (app : NPShellApp) : Option NPShellApp :=
  let npShellCommand := cString cmd
  if npShellCommand.length < bufferSize then some (app.onWritten npShellCommand) else none

/-- `handleHttpResp` (`np_project3/cgi_server.cpp:79-86`). -/
def handleHttpResp (ret : Text) (app : NPShellApp) : NPShellApp :=
  { app with responses := app.responses ++ [ret] }

/-- `do_read` (`np_project3/cgi_server.cpp:53-77`) completes with a chunk; without an outstanding
read nobody takes it. -/
def receive (app : NPShellApp) (chunk : Text) : Option NPShellApp :=
  if app.reading then
    match outputString chunk with
    | none => none
    | some output =>
      let app := app.handleHttpResp (CGI.cgiOutputShell output app.sessionId)
      if output.contains '%' then
        match getline app.npServerInput with
        | some (line, rest) =>
          let npCommand := line ++ ['\n']
          handleBackendReq npCommand
            ({ app with npServerInput := rest, reading := false }.handleHttpResp
              (CGI.cgiOutputCommand npCommand app.sessionId))
        | none => handleBackendReq [] { app with reading := false }
      else some app
  else some app

/-- The connection is made and the chunks arrive (`np_project3/cgi_server.cpp:23-112`). -/
def session (input : Text) (chunks : List Text) : Option NPShellApp :=
  chunks.foldlM receive { npServerInput := input }

end NPShellApp

/-- What a read of `CGI::Application` still has after a chunk without a prompt. -/
def readOn (read chunk : Text) : Text :=
  if '\n' ∈ read ++ chunk then [] else read ++ chunk

/-- Nothing is sent any more: no prompt is completed, and every `%` meets a line that begins with
a NUL or the end of the test case. -/
def Quiet : List Text → Text → List Text → Prop
  | _, _, [] => True
  | left, read, chunk :: chunks =>
    includes CGI.prompt (read ++ chunk) = false ∧
      if '%' ∈ chunk then
        (∀ line, left.head? = some line → line.head? = some '\x00') ∧
          Quiet left.tail (readOn read chunk) chunks
      else Quiet left (readOn read chunk) chunks

/-- The chunks and the lines hide the difference.  A chunk completes a prompt of its read exactly
when it holds a `%`, and the line for it fits the array and has no NUL; a `%` alone meets no line
(or one that is cut to nothing); and nothing comes after a line with `exit` or after a prompt for
which there is no line. -/
def Matched : List Text → Text → List Text → Prop
  | _, _, [] => True
  | left, read, chunk :: chunks =>
    if includes CGI.prompt (read ++ chunk) then
      match left with
      | [] => chunks = []
      | line :: rest =>
        '%' ∈ chunk ∧ '\x00' ∉ line ∧ line.length + 1 < NPShellApp.bufferSize ∧
          (includes "exit".toList (line ++ ['\n']) = true → chunks = []) ∧ Matched rest [] chunks
    else if '%' ∈ chunk then
      match left with
      | [] => Matched [] (readOn read chunk) chunks
      | line :: rest => line.head? = some '\x00' ∧ Quiet rest (readOn read chunk) chunks
    else Matched left (readOn read chunk) chunks

/-- Every write transmits all of the command. -/
def whole : CGI.WriteSome := fun _ length => some length

/-- The commands that have any bytes. -/
def NPShellApp.sent (app : NPShellApp) : List Text := app.written.filter (fun w => !w.isEmpty)

/-- After every chunk both have sent the same commands, and for every chunk both are open. -/
def Agree (input : Text) (chunks : List Text) : Prop :=
  ∀ n, n ≤ chunks.length → ∃ app, NPShellApp.session input (chunks.take n) = some app ∧
    app.sent = (CGI.Application.session whole input (chunks.take n)).sent ∧
      (n < chunks.length →
        app.reading = (CGI.Application.session whole input (chunks.take n)).reading)

/-- A chunk that fits the array with a NUL behind it, and has no NUL itself. -/
def Received (chunk : Text) : Prop :=
  chunk ≠ [] ∧ chunk.length < NPShellApp.bufferSize ∧ '\x00' ∉ chunk

namespace NPShellApp

variable {app : NPShellApp} {chunk : Text}

theorem receive_plain (reading : app.reading = true) (received : Received chunk)
    (plain : '%' ∉ chunk) : ∃ app', app.receive chunk = some app' ∧ app'.reading = true ∧
      app'.written = app.written ∧ app'.npServerInput = app.npServerInput := by
  obtain ⟨-, fits, noNul⟩ := received
  rw [receive, if_pos reading, outputString, if_pos (Or.inl fits), cString_of_plain noNul]
  simp only [List.contains_iff_mem, if_neg plain]
  exact ⟨_, rfl, reading, rfl, rfl⟩

theorem receive_last (reading : app.reading = true) (received : Received chunk)
    (percent : '%' ∈ chunk) (last : getline app.npServerInput = none) :
    ∃ app', app.receive chunk = some app' ∧ app'.reading = true ∧
      app'.written = app.written ++ [[]] ∧ app'.npServerInput = app.npServerInput := by
  obtain ⟨-, fits, noNul⟩ := received
  rw [receive, if_pos reading, outputString, if_pos (Or.inl fits), cString_of_plain noNul]
  simp only [List.contains_iff_mem, if_pos percent, handleHttpResp, last]
  exact ⟨_, rfl, rfl, rfl, rfl⟩

section Line

variable {line rest : Text}

/-- A line is copied to the array as far as its first NUL. -/
theorem receive_line (reading : app.reading = true) (received : Received chunk)
    (percent : '%' ∈ chunk) (command : getline app.npServerInput = some (line, rest))
    (small : (cString (line ++ ['\n'])).length < bufferSize) :
    ∃ app', app.receive chunk = some app' ∧
      app'.reading = !includes "exit".toList (cString (line ++ ['\n'])) ∧
      app'.written = app.written ++ [cString (line ++ ['\n'])] ∧ app'.npServerInput = rest := by
  obtain ⟨-, fits, noNul⟩ := received
  rw [receive, if_pos reading, outputString, if_pos (Or.inl fits), cString_of_plain noNul]
  simp only [List.contains_iff_mem, if_pos percent, handleHttpResp, command, handleBackendReq,
    if_pos small, onWritten]
  cases includes "exit".toList (cString (line ++ ['\n'])) with
  | true => exact ⟨_, rfl, rfl, rfl, rfl⟩
  | false => exact ⟨_, rfl, rfl, rfl, rfl⟩

/-- `strcpy` leaves the array. -/
theorem receive_long (reading : app.reading = true) (received : Received chunk)
    (percent : '%' ∈ chunk) (command : getline app.npServerInput = some (line, rest))
    (long : ¬ (cString (line ++ ['\n'])).length < bufferSize) : app.receive chunk = none := by
  obtain ⟨-, fits, noNul⟩ := received
  rw [receive, if_pos reading, outputString, if_pos (Or.inl fits), cString_of_plain noNul]
  simp only [List.contains_iff_mem, if_pos percent, handleHttpResp, command, handleBackendReq,
    if_neg long]

end Line

end NPShellApp

/-- From two states on, the programs agree about every chunk. -/
def AgreeFrom (app : NPShellApp) (a : CGI.Application) (chunks : List Text) : Prop :=
  ∀ n, n ≤ chunks.length → ∃ app', (chunks.take n).foldlM NPShellApp.receive app = some app' ∧
    app'.sent = ((chunks.take n).foldl (CGI.Application.receive whole) a).sent ∧
      (n < chunks.length →
        app'.reading = ((chunks.take n).foldl (CGI.Application.receive whole) a).reading)

section Agree

variable {app : NPShellApp} {a : CGI.Application} {chunk : Text} {chunks : List Text}

theorem agreeFrom_nil : AgreeFrom app a [] ↔ app.sent = a.sent := by
  constructor
  · intro every
    obtain ⟨app', run, same, -⟩ := every 0 (Nat.le_refl 0)
    cases run
    exact same
  · intro same n inside
    rw [List.take_nil]
    exact ⟨app, rfl, same, fun later => absurd later (Nat.not_lt_zero n)⟩

theorem agreeFrom_cons : AgreeFrom app a (chunk :: chunks) ↔
    (app.sent = a.sent ∧ app.reading = a.reading) ∧
      ∃ app', app.receive chunk = some app' ∧ AgreeFrom app' (a.receive whole chunk) chunks := by
  constructor
  · intro every
    obtain ⟨app₀, run₀, sent, reading⟩ := every 0 (Nat.zero_le _)
    cases run₀
    refine ⟨⟨sent, reading (Nat.succ_pos _)⟩, ?_⟩
    obtain ⟨app', first, -⟩ := every 1 (Nat.succ_le_succ (Nat.zero_le _))
    rw [List.take_succ_cons, List.take_zero, List.foldlM_cons] at first
    obtain ⟨app₁, step, -⟩ := Option.bind_eq_some_iff.mp first
    refine ⟨app₁, step, fun n inside => ?_⟩
    obtain ⟨app', run, sent', reading'⟩ := every (n + 1) (Nat.succ_le_succ inside)
    rw [List.take_succ_cons, List.foldlM_cons] at run
    obtain ⟨app₂, step', run'⟩ := Option.bind_eq_some_iff.mp run
    obtain rfl : app₁ = app₂ := Option.some.inj (step.symm.trans step')
    exact ⟨app', run', sent', fun later => reading' (Nat.succ_lt_succ later)⟩
  · intro both n inside
    obtain ⟨⟨sent, reading⟩, app₁, step, rest⟩ := both
    cases n with
    | zero => exact ⟨app, rfl, sent, fun later => reading⟩
    | succ n =>
        obtain ⟨app', run, sent', reading'⟩ := rest n (Nat.le_of_succ_le_succ inside)
        refine ⟨app', ?_, sent', fun later => reading' (Nat.lt_of_succ_lt_succ later)⟩
        rw [List.take_succ_cons, List.foldlM_cons, step]
        exact run

/-- What was sent so far agrees. -/
theorem AgreeFrom.sent (agree : AgreeFrom app a chunks) : app.sent = a.sent := by
  cases chunks with
  | nil => exact agreeFrom_nil.mp agree
  | cons chunk chunks => exact (agreeFrom_cons.mp agree).1.1

/-- When only one is still open, they agree only if nothing comes any more. -/
theorem agreeFrom_apart (sent : app.sent = a.sent) (apart : app.reading ≠ a.reading) :
    AgreeFrom app a chunks ↔ chunks = [] := by
  cases chunks with
  | nil => exact iff_of_true (agreeFrom_nil.mpr sent) rfl
  | cons chunk chunks =>
      exact iff_of_false (fun agree => apart (agreeFrom_cons.mp agree).1.2) (List.cons_ne_nil _ _)

/-- Two programs with an outstanding read that have sent the same. -/
structure Abreast (app : NPShellApp) (a : CGI.Application) : Prop where
  left : app.reading = true
  right : a.reading = true
  sent : app.sent = a.sent

theorem agreeFrom_abreast (abreast : Abreast app a) {app' : NPShellApp}
    (step : app.receive chunk = some app') :
    AgreeFrom app a (chunk :: chunks) ↔ AgreeFrom app' (a.receive whole chunk) chunks := by
  rw [agreeFrom_cons, step]
  constructor
  · intro both
    obtain ⟨-, app₁, same, agree⟩ := both
    cases same
    exact agree
  · intro agree
    exact ⟨⟨abreast.sent, abreast.left.trans abreast.right.symm⟩, app', rfl, agree⟩

theorem sent_empty {app' : NPShellApp} (written : app'.written = app.written ++ [[]]) :
    app'.sent = app.sent := by
  rw [NPShellApp.sent, NPShellApp.sent, written, List.filter_append]
  exact List.append_nil _

theorem sent_command {app' : NPShellApp} {c : Char} {w : Text}
    (written : app'.written = app.written ++ [c :: w]) : app'.sent = app.sent ++ [c :: w] := by
  rw [NPShellApp.sent, NPShellApp.sent, written, List.filter_append]
  rfl

/-- A line that begins with a NUL is sent as nothing, any other as something. -/
theorem cString_line (line : Text) : (line.head? = some '\x00' ∧ cString (line ++ ['\n']) = []) ∨
    (line.head? ≠ some '\x00' ∧ ∃ c w, cString (line ++ ['\n']) = c :: w) := by
  cases line with
  | nil => exact Or.inr ⟨by simp, '\n', [], rfl⟩
  | cons c line =>
      by_cases nul : c = '\x00'
      · exact Or.inl ⟨by simp [nul], by rw [nul]; rfl⟩
      · refine Or.inr ⟨by simpa using nul, c, cString (line ++ ['\n']), ?_⟩
        apply List.takeWhile_cons_of_pos
        rw [decide_eq_true_eq]
        exact fun zero => nul (Char.toNat_inj.mp zero)

/-- What `NPShellApp` sends has no NUL. -/
theorem receive_sent (reading : app.reading = true) (received : Received chunk)
    {app' : NPShellApp} (step : app.receive chunk = some app') :
    app'.sent = app.sent ∨ ∃ w, '\x00' ∉ w ∧ app'.sent = app.sent ++ [w] := by
  by_cases percent : '%' ∈ chunk
  · cases command : getline app.npServerInput with
    | none =>
        obtain ⟨app₁, step₁, -, written, -⟩ := NPShellApp.receive_last reading received percent command
        cases step.symm.trans step₁
        exact Or.inl (sent_empty written)
    | some taken =>
        obtain ⟨line, rest⟩ := taken
        by_cases small : (cString (line ++ ['\n'])).length < NPShellApp.bufferSize
        · obtain ⟨app₁, step₁, -, written, -⟩ :=
            NPShellApp.receive_line reading received percent command small
          cases step.symm.trans step₁
          rcases cString_line line with ⟨-, empty⟩ | ⟨-, c, w, full⟩
          · rw [empty] at written
            exact Or.inl (sent_empty written)
          · have noNul := not_mem_cString (line ++ ['\n'])
            rw [full] at written noNul
            exact Or.inr ⟨c :: w, noNul, sent_command written⟩
        · rw [NPShellApp.receive_long reading received percent command small] at step
          cases step
  · obtain ⟨app₁, step₁, -, written, -⟩ := NPShellApp.receive_plain reading received percent
    cases step.symm.trans step₁
    exact Or.inl (by rw [NPShellApp.sent, written, NPShellApp.sent])

/-- `CGI::Application` after a chunk that completes no prompt. -/
theorem readOn_spec (reading : a.reading = true)
    (plain : includes CGI.prompt (a.shellOutput ++ chunk) = false) :
    (a.receive whole chunk).reading = true ∧ (a.receive whole chunk).sent = a.sent ∧
      (a.receive whole chunk).cgiInput = a.cgiInput ∧
        (a.receive whole chunk).shellOutput = readOn a.shellOutput chunk := by
  rw [CGI.Application.receive_plain whole reading plain, readOn]
  split
  · exact ⟨reading, rfl, rfl, rfl⟩
  · exact ⟨reading, rfl, rfl, rfl⟩

/-- `CGI::Application` after a chunk that completes a prompt. -/
theorem answer_spec (reading : a.reading = true)
    (prompted : includes CGI.prompt (a.shellOutput ++ chunk) = true) {line rest : Text}
    (command : getline a.cgiInput = some (line, rest)) :
    (a.receive whole chunk).reading = true ∧
      (a.receive whole chunk).sent = a.sent ++ [line ++ ['\n']] ∧
      (a.receive whole chunk).cgiInput = rest ∧ (a.receive whole chunk).shellOutput = [] := by
  rw [CGI.Application.receive_command whole reading prompted command, whole,
    CGI.Application.onWrite, List.take_length]
  exact ⟨rfl, rfl, rfl, rfl⟩

/-- A command of one program that the other has not sent. -/
theorem not_agreeFrom
    (differ : ∀ app', app.receive chunk = some app' → app'.sent ≠ (a.receive whole chunk).sent) :
    ¬ AgreeFrom app a (chunk :: chunks) := by
  intro agree
  obtain ⟨app', step, rest⟩ := (agreeFrom_cons.mp agree).2
  exact differ app' step rest.sent

/-- A `%` for which nothing is sent. -/
theorem percent_silent (reading : app.reading = true) (received : Received chunk)
    (percent : '%' ∈ chunk)
    (silent : ∀ line, (lines app.npServerInput).head? = some line → line.head? = some '\x00') :
    ∃ app', app.receive chunk = some app' ∧ app'.reading = true ∧ app'.sent = app.sent ∧
      lines app'.npServerInput = (lines app.npServerInput).tail := by
  cases command : getline app.npServerInput with
  | none =>
      obtain ⟨app', step, opened, written, input⟩ :=
        NPShellApp.receive_last reading received percent command
      refine ⟨app', step, opened, sent_empty written, ?_⟩
      rw [input, lines_eq_nil.mpr command]
      rfl
  | some taken =>
      obtain ⟨line, rest⟩ := taken
      have left : lines app.npServerInput = line :: lines rest :=
        lines_eq_cons.mpr ⟨rest, command, rfl⟩
      rw [left] at silent
      rcases cString_line line with ⟨-, empty⟩ | ⟨solid, -⟩
      · obtain ⟨app', step, opened, written, input⟩ := NPShellApp.receive_line reading received
          percent command (by rw [empty]; decide)
        rw [empty] at opened written
        exact ⟨app', step, opened, sent_empty written, by rw [input, left]; rfl⟩
      · exact absurd (silent line rfl) solid

/-- A `%` for which a command is sent. -/
theorem percent_loud (reading : app.reading = true) (received : Received chunk)
    (percent : '%' ∈ chunk) {line : Text} {rest : List Text}
    (left : lines app.npServerInput = line :: rest) (solid : line.head? ≠ some '\x00') :
    ∀ app', app.receive chunk = some app' → app'.sent ≠ app.sent := by
  obtain ⟨later, command, -⟩ := lines_eq_cons.mp left
  rcases cString_line line with ⟨nul, -⟩ | ⟨-, c, w, full⟩
  · exact absurd nul solid
  · intro app' step same
    by_cases small : (cString (line ++ ['\n'])).length < NPShellApp.bufferSize
    · obtain ⟨app₁, step₁, -, written, -⟩ :=
        NPShellApp.receive_line reading received percent command small
      cases step.symm.trans step₁
      rw [full] at written
      rw [sent_command written] at same
      exact absurd (List.append_right_eq_self.mp same) (List.cons_ne_nil _ _)
    · rw [NPShellApp.receive_long reading received percent command small] at step
      cases step

/-- A line with a NUL is sent by `CGI::Application` only. -/
theorem nul_differs (abreast : Abreast app a) (received : Received chunk)
    (prompted : includes CGI.prompt (a.shellOutput ++ chunk) = true) {line rest : Text}
    (command : getline a.cgiInput = some (line, rest)) (nul : '\x00' ∈ line) :
    ¬ AgreeFrom app a (chunk :: chunks) := by
  obtain ⟨-, sent, -, -⟩ := answer_spec abreast.right prompted command
  apply not_agreeFrom
  intro app' step
  rw [sent, ← abreast.sent]
  rcases receive_sent abreast.left received step with same | ⟨w, noNul, same⟩
  · rw [same]
    exact fun more => absurd (List.self_eq_append_right.mp more) (List.cons_ne_nil _ _)
  · rw [same, ne_eq, List.append_right_inj, List.cons.injEq, and_iff_left rfl]
    rintro rfl
    exact noNul (List.mem_append_left _ nul)

/-- After `NPShellApp` alone has passed a line that begins with a NUL, the other program must not
come to it any more. -/
theorem agreeFrom_quiet (abreast : Abreast app a) (received : ∀ chunk ∈ chunks, Received chunk)
    {line rest : Text} (command : getline a.cgiInput = some (line, rest)) (nul : '\x00' ∈ line) :
    AgreeFrom app a chunks ↔ Quiet (lines app.npServerInput) a.shellOutput chunks := by
  induction chunks generalizing app a with
  | nil => exact iff_of_true (agreeFrom_nil.mpr abreast.sent) trivial
  | cons chunk chunks ih =>
      have first := received chunk List.mem_cons_self
      have others : ∀ chunk ∈ chunks, Received chunk := fun c member =>
        received c (List.mem_cons_of_mem _ member)
      rw [Quiet]
      cases prompted : includes CGI.prompt (a.shellOutput ++ chunk) with
      | true =>
          exact iff_of_false (nul_differs abreast first prompted command nul) (by simp)
      | false =>
          obtain ⟨opened, sent, input, buffer⟩ := readOn_spec abreast.right prompted
          rw [and_iff_right rfl]
          by_cases percent : '%' ∈ chunk
          · rw [if_pos percent]
            by_cases silent : ∀ line, (lines app.npServerInput).head? = some line →
                line.head? = some '\x00'
            · obtain ⟨app', step, open', sent', left⟩ :=
                percent_silent abreast.left first percent silent
              rw [and_iff_right silent, agreeFrom_abreast abreast step, ← left, ← buffer]
              exact ih ⟨open', opened, sent'.trans (abreast.sent.trans sent.symm)⟩ others
                (input ▸ command)
            · refine iff_of_false (not_agreeFrom ?_) (fun both => silent both.1)
              rw [sent, ← abreast.sent]
              simp only [Classical.not_forall] at silent
              obtain ⟨line', head, solid⟩ := silent
              obtain ⟨tail, left⟩ := List.head?_eq_some_iff.mp head
              exact percent_loud abreast.left first percent left solid
          · rw [if_neg percent]
            obtain ⟨app', step, open', written, left⟩ :=
              NPShellApp.receive_plain abreast.left first percent
            have sent' : app'.sent = app.sent := by rw [NPShellApp.sent, written, NPShellApp.sent]
            rw [agreeFrom_abreast abreast step, ← left, ← buffer]
            exact ih ⟨open', opened, sent'.trans (abreast.sent.trans sent.symm)⟩ others
              (input ▸ command)

/-- A prompt and a line for it that both programs send. -/
theorem answer_same (abreast : Abreast app a) (received : Received chunk)
    (percent : '%' ∈ chunk) {line rest : Text}
    (command : getline app.npServerInput = some (line, rest)) (noNul : '\x00' ∉ line)
    (small : line.length + 1 < NPShellApp.bufferSize) :
    ∃ app', app.receive chunk = some app' ∧
      app'.reading = !includes "exit".toList (line ++ ['\n']) ∧
      app'.sent = app.sent ++ [line ++ ['\n']] ∧ app'.npServerInput = rest := by
  have all : cString (line ++ ['\n']) = line ++ ['\n'] :=
    cString_of_plain (by simpa using noNul)
  obtain ⟨app', step, open', written, input⟩ := NPShellApp.receive_line abreast.left received
    percent command (by simpa [all] using small)
  rw [all] at open' written
  refine ⟨app', step, open', ?_, input⟩
  cases line with
  | nil => exact sent_command written
  | cons c line => exact sent_command written

/-- A prompt and a line for it that only one program sends, or that does not fit the array. -/
theorem answer_differs (abreast : Abreast app a) (received : Received chunk)
    (prompted : includes CGI.prompt (a.shellOutput ++ chunk) = true) {line rest rest' : Text}
    (command : getline a.cgiInput = some (line, rest))
    (command' : getline app.npServerInput = some (line, rest'))
    (differ : ¬ ('%' ∈ chunk ∧ '\x00' ∉ line ∧ line.length + 1 < NPShellApp.bufferSize)) :
    ¬ AgreeFrom app a (chunk :: chunks) := by
  by_cases nul : '\x00' ∈ line
  · exact nul_differs abreast received prompted command nul
  · obtain ⟨-, sent, -, -⟩ := answer_spec abreast.right prompted command
    apply not_agreeFrom
    intro app' step
    by_cases percent : '%' ∈ chunk
    · have long : ¬ (cString (line ++ ['\n'])).length < NPShellApp.bufferSize := by
        rw [cString_of_plain (by simpa using nul), List.length_append, List.length_singleton]
        exact fun small => differ ⟨percent, nul, small⟩
      rw [NPShellApp.receive_long abreast.left received percent command' long] at step
      cases step
    · obtain ⟨app₁, step₁, -, written, -⟩ :=
        NPShellApp.receive_plain abreast.left received percent
      cases step.symm.trans step₁
      rw [sent, ← abreast.sent, NPShellApp.sent, written, NPShellApp.sent]
      exact fun more => absurd (List.self_eq_append_right.mp more) (List.cons_ne_nil _ _)

/-- From an outstanding read on, the programs agree exactly when chunks and lines hide the
difference. -/
theorem agreeFrom_iff (abreast : Abreast app a) (same : lines app.npServerInput = lines a.cgiInput)
    (received : ∀ chunk ∈ chunks, Received chunk) :
    AgreeFrom app a chunks ↔ Matched (lines a.cgiInput) a.shellOutput chunks := by
  induction chunks generalizing app a with
  | nil =>
      rw [Matched]
      exact iff_of_true (agreeFrom_nil.mpr abreast.sent) trivial
  | cons chunk chunks ih =>
      have first := received chunk List.mem_cons_self
      have others : ∀ chunk ∈ chunks, Received chunk := fun c member =>
        received c (List.mem_cons_of_mem _ member)
      rw [Matched.eq_def]
      dsimp only
      cases prompted : includes CGI.prompt (a.shellOutput ++ chunk) with
      | true =>
          rw [if_pos rfl]
          cases left : lines a.cgiInput with
          | nil =>
              have step := CGI.Application.receive_last whole abreast.right prompted
                (lines_eq_nil.mp left)
              have sent : (a.receive whole chunk).sent = a.sent := by rw [step]
              have shut : (a.receive whole chunk).reading = false := by rw [step]
              obtain ⟨app', step', open', sent'⟩ : ∃ app', app.receive chunk = some app' ∧
                  app'.reading = true ∧ app'.sent = app.sent := by
                by_cases percent : '%' ∈ chunk
                · obtain ⟨app', step', open', sent', -⟩ := percent_silent abreast.left first percent
                    (by rw [same, left]; simp)
                  exact ⟨app', step', open', sent'⟩
                · obtain ⟨app', step', open', written, -⟩ :=
                    NPShellApp.receive_plain abreast.left first percent
                  exact ⟨app', step', open', by rw [NPShellApp.sent, written, NPShellApp.sent]⟩
              rw [agreeFrom_abreast abreast step']
              apply agreeFrom_apart
              · rw [sent', sent, abreast.sent]
              · simp [open', shut]
          | cons line rest =>
              obtain ⟨later, command, rfl⟩ := lines_eq_cons.mp left
              obtain ⟨later', command', left'⟩ := lines_eq_cons.mp (same.trans left)
              obtain ⟨opened, sent, input, buffer⟩ := answer_spec abreast.right prompted command
              dsimp only
              by_cases fits : '%' ∈ chunk ∧ '\x00' ∉ line ∧
                  line.length + 1 < NPShellApp.bufferSize
              · obtain ⟨percent, noNul, small⟩ := fits
                obtain ⟨app', step, open', sent', input'⟩ :=
                  answer_same abreast first percent command' noNul small
                have sent'' : app'.sent = (a.receive whole chunk).sent := by
                  rw [sent', sent, abreast.sent]
                rw [agreeFrom_abreast abreast step, and_iff_right percent, and_iff_right noNul,
                  and_iff_right small]
                cases exits : includes "exit".toList (line ++ ['\n']) with
                | true =>
                    rw [agreeFrom_apart sent'' (by rw [open', opened, exits]; decide), imp_iff_right rfl]
                    constructor
                    · rintro rfl
                      exact ⟨rfl, by rw [Matched]; trivial⟩
                    · exact And.left
                | false =>
                    rw [exits] at open'
                    rw [ih ⟨open', opened, sent''⟩ (by rw [input', left', input]) others, input,
                      buffer]
                    exact (and_iff_right (fun none => absurd none Bool.false_ne_true)).symm
              · refine iff_of_false (answer_differs abreast first prompted command command' fits) ?_
                exact fun every => fits ⟨every.1, every.2.1, every.2.2.1⟩
      | false =>
          obtain ⟨opened, sent, input, buffer⟩ := readOn_spec abreast.right prompted
          rw [if_neg Bool.false_ne_true]
          by_cases percent : '%' ∈ chunk
          · rw [if_pos percent]
            cases left : lines a.cgiInput with
            | nil =>
                obtain ⟨app', step, open', sent', left'⟩ := percent_silent abreast.left first
                  percent (by rw [same, left]; simp)
                have later := ih ⟨open', opened, sent'.trans (abreast.sent.trans sent.symm)⟩
                  (by rw [left', same, left, input, left]; rfl) others
                rw [agreeFrom_abreast abreast step, later, input, left, buffer]
            | cons line rest =>
                dsimp only
                by_cases nul : line.head? = some '\x00'
                · obtain ⟨later, command, -⟩ := lines_eq_cons.mp left
                  obtain ⟨app', step, open', sent', left'⟩ := percent_silent abreast.left first
                    percent (by rw [same, left]; simpa using nul)
                  rw [and_iff_right nul, agreeFrom_abreast abreast step,
                    agreeFrom_quiet ⟨open', opened, sent'.trans (abreast.sent.trans sent.symm)⟩ others
                      (input ▸ command) (List.mem_of_head? nul), left', same, left, buffer]
                  rfl
                · refine iff_of_false (not_agreeFrom ?_) (fun both => nul both.1)
                  rw [sent, ← abreast.sent]
                  exact percent_loud abreast.left first percent (same.trans left) nul
          · rw [if_neg percent]
            obtain ⟨app', step, open', written, left⟩ :=
              NPShellApp.receive_plain abreast.left first percent
            have sent' : app'.sent = app.sent := by rw [NPShellApp.sent, written, NPShellApp.sent]
            rw [agreeFrom_abreast abreast step, ← input, ← buffer]
            exact ih ⟨open', opened, sent'.trans (abreast.sent.trans sent.symm)⟩
              (by rw [left, same, input]) others

end Agree

/-- The two programs agree exactly when the chunks and the lines hide the difference. -/
theorem agree_iff (input : Text) {chunks : List Text}
    (received : ∀ chunk ∈ chunks, Received chunk) :
    Agree input chunks ↔ Matched (lines input) [] chunks := by
  have abreast : Abreast { npServerInput := input }
      (CGI.Application.handleShellInteraction { cgiInput := input }) := ⟨rfl, rfl, rfl⟩
  exact agreeFrom_iff abreast rfl received

theorem agree_iff_prompt :
    Agree "ls\n".toList ["% ".toList] ↔ Matched (lines "ls\n".toList) [] ["% ".toList] :=
  agree_iff _ (by
    intro chunk member
    rw [List.mem_singleton.mp member]
    exact ⟨by decide, by decide, by decide⟩)

/-- A percentage in the output makes `NPShellApp` send the first command. -/
theorem percentage_answered : ¬ Agree "ls\n".toList ["100%\n".toList] := by
  intro agree
  obtain ⟨app, run, sent, -⟩ := agree 1 (by decide)
  have ran : NPShellApp.session "ls\n".toList ["100%\n".toList] =
    some { npServerInput := [], written := ["ls\n".toList], responses := _ } := rfl
  cases run.symm.trans ran
  exact absurd sent (by decide)

end NetProg
