import Mathlib.Data.List.TakeWhile
import NetProg.Server.Environments
import NetProg.Server.SharedCin

/-!
# Clients that hang up

The end of a client's stream has no branch of its own in `np_single_proc`: `getline` returns what
is left of an unfinished line, mostly nothing, and it is executed like any other line.  Only `exit`
removes a user.  And `std::cin` is the stream of all users: once it has met one client's end, it
reads nothing for the others.
-/

namespace NetProg

open ChatServer (perform performAll runShell runShellLoop)

namespace ChatServer

theorem perform_running (id : Int) (builtin : Builtin) (s : ShellState ChatServer) :
    Sat (perform id builtin s)
      (fun r => r.handler.running = true ↔ s.handler.running = true ∧ builtin ≠ .exit)
      (fun _ => True) := by
  by_cases leaves : builtin = .exit
  · subst leaves
    simp [perform]
  · apply (perform_told leaves).mono
    · intro r told
      rw [told.handler]
      exact (and_iff_left leaves).symm
    · intro _ _
      trivial

theorem performAll_running (id : Int) (builtins : List Builtin) (s : ShellState ChatServer) :
    Sat (performAll id builtins s)
      (fun r => r.handler.running = true ↔ s.handler.running = true ∧ .exit ∉ builtins)
      (fun _ => True) := by
  induction builtins generalizing s with
  | nil => simp [performAll]
  | cons builtin rest ih =>
      refine Sat.bind (perform_running id builtin s) ?_
      intro r first
      apply (ih r).mono
      · intro t later
        rw [later, first, and_assoc, List.mem_cons, not_or, ne_comm]
      · intro _ _
        trivial

/-- A line keeps the tables, and the shell goes on unless it contains `exit`. -/
theorem runShell_running {fd : Nat} {id : Int} (text : Text) (s : ShellState ChatServer)
    (serving : s.server.getServingUserID fd = id) :
    Sat (runShell fd text s)
      (fun r => s.server.Kept id r.server ∧
        (r.handler.running = true ↔ s.handler.running = true ∧ .exit ∉ (parseCommand text).1))
      (fun _ => True) := by
  unfold runShell
  rw [serving]
  refine Sat.bind (((performAll_assigned id (parseCommand text).1 s).and
    (performAll_running id (parseCommand text).1 s)).mono (fun _ h => h) (fun _ _ => trivial)) ?_
  intro r performed
  refine Sat.bind ((ShellState.runQueue_tame (userPipeCalls_tame id) (parseCommand text).2 r).mono
    (fun _ h => h) (fun _ _ => trivial)) ?_
  intro t tame
  have kept := performed.1.kept.trans tame.server.2
  have running := performed.2
  rw [← tame.running] at running
  split
  · exact ⟨kept, running⟩
  · exact ⟨kept, running⟩

end ChatServer

namespace SingleProc

/-- `runShellLoop` returns false. -/
def loopEnds (st : SingleProc) (fd : Nat) (text : Text) : Bool :=
  match (do
    let user ← st.server.user (st.server.getServingUserID fd) st.proc
    runShellLoop fd text { st.proc with serving := user.session } st.server) with
  | .ok (running, _, _) => !running
  | .error _ => false

/-- Whoever is in the table has not said `exit`. -/
def Running (st : SingleProc) : Prop :=
  ∀ id user, st.server.users.find? id = some user → user.handler.running = true

theorem boot_running (limit : Nat) (canOpen : Text → Bool) (environ : List (Text × Text)) :
    (boot limit canOpen environ).Running := by
  intro id user found
  cases found

theorem Running.connect {st st' : SingleProc} (running : st.Running) {ip : Text} {port : Int}
    (accepted : st.next (.connect ip port) = some st') : st'.Running := by
  have spec := (connect_sat st ip port).of_ok (next_eq_some.mp accepted)
  intro id user found
  rw [spec.server, ChatServer.addUser_users] at found
  split at found
  · cases found
    rfl
  · exact running id user found

/-- What a line leaves in the tables. -/
structure Turned (st st' : SingleProc) (fd : Nat) (id : Int) (text : Text) : Prop where
  running : st'.Running
  ends : st.loopEnds fd text = true ↔ .exit ∈ (parseCommand text).1
  stayed : .exit ∉ (parseCommand text).1 → st'.server.sockIDTable = st.server.sockIDTable
  left : .exit ∈ (parseCommand text).1 →
    st'.server.sockIDTable.find? fd = none ∧ st'.server.users.find? id = none

section Line

variable {st st' : SingleProc} {fd : Nat} {text : Text} {id : Int} {user : UserInfo}

theorem kept_running {s : ShellState ChatServer} (running : st.Running)
    (kept : st.server.Kept id s.server) {uid : Int} {user' : UserInfo}
    (found : s.server.users.find? uid = some user') : user'.handler.running = true := by
  obtain ⟨old, before, core⟩ := kept.find_back found
  have handler : user'.handler = old.handler := congrArg Prod.fst core
  rw [handler]
  exact running uid old before

theorem loopEnds_iff (on : user.handler.running = true)
    (serving : st.server.getServingUserID fd = id) (found : st.server.users.find? id = some user)
    (ran : st.next (.line fd text) = some st') :
    st.loopEnds fd text = true ↔ .exit ∈ (parseCommand text).1 := by
  have loop := runShellLoop_sat serving found
    (ChatServer.runShell_running text (st.shell fd id user) serving) (by
      intro s reached
      obtain ⟨user', found', -⟩ := reached.1.find found
      exact ⟨user', found'⟩)
  have here : st.server.user id st.proc = .ok user := by rw [ChatServer.user, found]
  rw [loopEnds, serving, here]
  cases ended : runShellLoop fd text { st.proc with serving := user.session } st.server with
  | error stopped =>
      have step := next_eq_some.mp ran
      rw [SingleProc.step] at step
      split at step
      · rw [serve, serving, here] at step
        simp only [bind, Except.bind, ended] at step
        cases step
      · cases step
  | ok result =>
      obtain ⟨s, user', reached, -, -, flag⟩ := loop.of_ok ended
      obtain ⟨running, k, server⟩ := result
      have shell : (st.shell fd id user).handler.running = true := on
      simp only [bind, Except.bind, ended]
      rcases flag with stays | leaves
      · obtain ⟨rfl, on', -⟩ := stays
        have remains := (reached.2.mp on').2
        exact iff_of_false (by simp) remains
      · obtain ⟨rfl, off, -⟩ := leaves
        have departs : .exit ∈ (parseCommand text).1 := by
          by_contra remains
          rw [reached.2.mpr ⟨shell, remains⟩] at off
          cases off
        exact iff_of_true (by simp) departs

/-- A line that ends came from a registered socket. -/
theorem line_known (ran : st.next (.line fd text) = some st') :
    ∃ id, st.server.sockIDTable.find? fd = some id := by
  have step := next_eq_some.mp ran
  rw [SingleProc.step] at step
  split at step
  · exact Option.isSome_iff_exists.mp ‹_›
  · cases step

/-- A line that ends, of a user in the tables. -/
theorem Running.line (running : st.Running) (known : st.server.sockIDTable.find? fd = some id)
    (ran : st.next (.line fd text) = some st') : Turned st st' fd id text := by
  have serving : st.server.getServingUserID fd = id := by
    rw [ChatServer.getServingUserID, known]
    rfl
  obtain ⟨user, found, -⟩ := SharedCin.line_lines ran
  rw [serving] at found
  have on := running id user found
  have ends := loopEnds_iff on serving found ran
  have turned : Sat (st.step (.line fd text)) (fun st' => Turned st st' fd id text) (fun _ => True) := by
    apply serve_sat known found (ChatServer.runShell_running text (st.shell fd id user) serving)
    · intro s reached
      obtain ⟨user', found', -⟩ := reached.1.find found
      exact ⟨reached.1.sockIDTable, user', found'⟩
    · intro s user' reached found' on'
      refine ⟨?_, ends, fun _ => reached.1.sockIDTable, fun leaves => ?_⟩
      · intro uid other there
        rw [stays, stored, ChatServer.setUser, OrdMap.find?_insert] at there
        split at there
        · cases there
          exact on'
        · exact kept_running running reached.1 there
      · exact absurd leaves (reached.2.mp on').2
    · intro s user' messages reached found' off _
      refine ⟨?_, ends, fun remains => ?_, fun _ => ⟨?_, ?_⟩⟩
      · intro uid other there
        rw [leaves, ChatServer.dropUser, OrdMap.find?_erase] at there
        split at there
        · cases there
        · rename_i away
          rw [stored, ChatServer.setUser, OrdMap.find?_insert, if_neg away] at there
          exact kept_running running reached.1 there
      · rw [reached.2.mpr ⟨on, remains⟩] at off
        cases off
      · exact (OrdMap.find?_erase ..).trans (if_pos rfl)
      · exact (OrdMap.find?_erase ..).trans (if_pos rfl)
  exact turned.of_ok (next_eq_some.mp ran)

end Line

end SingleProc

/-- A `read` is made only before the end of a stream has been met. -/
theorem SharedCin.read_open {st st' : SharedCin} {block : Text}
    (ran : st.next (.read block) = some st') : st.eof ≠ true := by
  rw [SharedCin.next] at ran
  split at ran
  · simp only [SharedCin.read] at ran
    split at ran
    · cases ran
    · rename_i quiet
      exact fun eof => quiet (Or.inr (Or.inl eof))
  · cases ran

/-- `np_single_proc` with the sockets that `select` watches. -/
structure SelectLoop where
  input : SharedCin
  masterSocks : Nat → Bool

namespace SelectLoop

open SharedCin (session)

/-- Before the loop only the listener, number 6, is watched. -/
def boot (limit : Nat) (canOpen : Text → Bool) (environ : List (Text × Text)) : SelectLoop where
  input := .boot limit canOpen environ
  masterSocks := fun fd => fd == 6

/-- `FD_SET` with `accept`, and `FD_CLR` when `runShellLoop` has returned false. -/
def watch (m : SelectLoop) : InputEvent → Nat → Bool
  | .connect _ _ => Function.update m.masterSocks m.input.main.proc.fds.lowest true
  | .runShell =>
      match m.input.phase with
      | .runShell fd text =>
          if m.input.main.loopEnds fd text then Function.update m.masterSocks fd false
          else m.masterSocks
      | _ => m.masterSocks
  | _ => m.masterSocks

/-- The loop comes only to sockets that are watched (`np_project2/np_single_proc.cpp:67-101`). -/
def next (m : SelectLoop) (event : InputEvent) : Option SelectLoop :=
  match event with
  | .ready fd =>
      if m.masterSocks fd then (m.input.next (.ready fd)).map fun input => { m with input } else none
  | event => (m.input.next event).map fun input => ⟨input, m.watch event⟩

theorem next_other {m : SelectLoop} {event : InputEvent} (other : ∀ fd, event ≠ .ready fd) :
    m.next event = (m.input.next event).map fun input => ⟨input, m.watch event⟩ := by
  cases event with
  | ready fd => exact absurd rfl (other fd)
  | _ => rfl

theorem next_input {m m' : SelectLoop} {event : InputEvent} (stepped : m.next event = some m') :
    m.input.next event = some m'.input ∧ m'.masterSocks = m.watch event := by
  by_cases ready : ∃ fd, event = .ready fd
  · obtain ⟨fd, rfl⟩ := ready
    rw [next] at stepped
    split at stepped
    · obtain ⟨input, ran, rfl⟩ := Option.map_eq_some_iff.mp stepped
      exact ⟨ran, rfl⟩
    · cases stepped
  · rw [next_other fun fd same => ready ⟨fd, same⟩] at stepped
    obtain ⟨input, ran, rfl⟩ := Option.map_eq_some_iff.mp stepped
    exact ⟨ran, rfl⟩

/-- The loop is about to read from the connection `s` of a user, at socket `fd`. -/
structure Serves (m : SelectLoop) (fd s : Nat) : Prop where
  phase : m.input.phase = .getline fd (some (.socket s))
  session : m.input.session fd = some s

/-- What is left of an unfinished line. -/
def rest (m : SelectLoop) : Text := m.input.cin.map Prod.snd

/-- The user of socket `fd` with id `id` is gone. -/
structure Forgot (m : SelectLoop) (fd : Nat) (id : Int) : Prop where
  sockIDTable : m.input.main.server.sockIDTable.find? fd = none
  users : m.input.main.server.users.find? id = none
  masterSocks : m.masterSocks fd = false

/-- A client other than `s` is about to be served who has sent a complete line. -/
def LineWaits (m : SelectLoop) (s : Nat) : Prop :=
  ∃ fd s', s' ≠ s ∧ m.Serves fd s' ∧
    '\n' ∈ SharedCin.bytesOf s' m.input.cin ++ m.input.unread s'

/-- The line that `getline` would take now is a complete line of the client who is served. -/
def ReadsLine (m : SelectLoop) : Prop :=
  ∃ fd s' text, m.Serves fd s' ∧
    takeLine m.input.cin = (text ++ ['\n']).map fun c => (.socket s', c)

/-- The end of a stream has been met: nothing will be read any more. -/
structure Deaf (m : SelectLoop) : Prop where
  eof : m.input.eof = true
  cin : m.input.cin = []

theorem Deaf.next {m m' : SelectLoop} {event : InputEvent} (deaf : m.Deaf)
    (stepped : m.next event = some m') : m'.Deaf := by
  obtain ⟨ran, -⟩ := next_input stepped
  obtain ⟨input', watched⟩ := m'
  suffices h : input'.eof = true ∧ input'.cin = [] from ⟨h.1, h.2⟩
  have silent : ∀ block, event ≠ .read block := by
    intro block same
    subst same
    exact absurd deaf.eof (SharedCin.read_open ran)
  cases SharedCin.next_stepped ran with
  | readSocket block fd s here waits => exact absurd rfl (silent block)
  | readOther block fd object here other => exact absurd rfl (silent block)
  | endOfFile fd source here => exact ⟨rfl, deaf.cin⟩
  | getline fd source here ended => exact ⟨deaf.eof, by rw [deaf.cin]; rfl⟩
  | _ => exact ⟨deaf.eof, deaf.cin⟩

theorem Deaf.not_readsLine {m : SelectLoop} (deaf : m.Deaf) : ¬ m.ReadsLine := by
  intro reads
  obtain ⟨fd, s', text, -, taken⟩ := reads
  rw [deaf.cin] at taken
  have length := congrArg List.length taken
  simp [takeLine] at length

/-- The line that a turn at the end of a stream runs. -/
theorem rest_taken {cin : List Tagged} (none : ¬ HasLine cin) (fd : Nat) (session : Option Nat) :
    Parsed.text ⟨fd, session, takeLine cin⟩ = cin.map Prod.snd ∧ dropLine cin = [] := by
  have plain : ∀ b ∈ cin, b.2 ≠ '\n' := fun b member same => none ⟨b, member, same⟩
  have whole : cin.takeWhile (·.2 ≠ '\n') = cin := by
    rw [List.takeWhile_eq_self_iff]
    intro b member
    exact decide_eq_true (plain b member)
  have nothing : cin.dropWhile (·.2 ≠ '\n') = [] := by
    rw [List.dropWhile_eq_nil_iff]
    intro b member
    exact decide_eq_true (plain b member)
  constructor
  · rw [Parsed.text, takeLine, whole, nothing, List.take_nil, List.append_nil,
      List.takeWhile_eq_self_iff]
    intro c member
    obtain ⟨b, there, rfl⟩ := List.mem_map.mp member
    exact decide_eq_true (plain b there)
  · rw [dropLine, nothing, List.drop_nil]

/-- The turn of `m` at the end of a stream is under way. -/
structure InTurn (m : SelectLoop) (fd : Nat) (source : Option Object) (m' : SelectLoop) : Prop where
  main : m'.input.main = m.input.main
  masterSocks : m'.masterSocks = m.masterSocks
  eof : m'.input.eof = true
  stage : m'.input.phase = .getline fd source ∧ m'.input.cin = m.input.cin ∨
    m'.input.phase = .runShell fd m.rest ∧ m'.input.cin = []

section Turn

variable {m m' m₀ m₁ : SelectLoop} {fd : Nat} {source : Option Object}

theorem endOfFile_inTurn (here : m.input.phase = .getline fd source)
    (stepped : m.next .endOfFile = some m') : InTurn m fd source m' ∧ ¬ HasLine m.input.cin := by
  obtain ⟨ran, watched⟩ := next_input stepped
  obtain ⟨input', masterSocks'⟩ := m'
  have fields : input' = { m.input with eof := true } ∧ ¬ HasLine m.input.cin := by
    rw [SharedCin.next, here] at ran
    simp only [SharedCin.endOfFile] at ran
    split at ran
    · cases ran
    · rename_i none
      refine ⟨?_, none⟩
      split at ran
      · split at ran
        · exact (Option.some.inj ran).symm
        · cases ran
      · exact (Option.some.inj ran).symm
  obtain ⟨same, none⟩ := fields
  dsimp only at same
  subst same
  exact ⟨⟨rfl, watched, rfl, Or.inl ⟨here, rfl⟩⟩, none⟩

/-- Nothing else happens in the turn until `runShell` returns. -/
theorem InTurn.step (inTurn : InTurn m fd source m₀) (none : ¬ HasLine m.input.cin)
    {event : InputEvent} (quiet : event ≠ .runShell) (stepped : m₀.next event = some m₁) :
    InTurn m fd source m₁ := by
  obtain ⟨ran, watched⟩ := next_input stepped
  obtain ⟨input', masterSocks'⟩ := m₁
  have busy : m₀.input.phase ≠ .select := by
    intro idle
    rcases inTurn.stage with before | after
    · cases idle.symm.trans before.1
    · cases idle.symm.trans after.1
  have silent : ∀ block, event ≠ .read block := by
    intro block same
    subst same
    exact absurd inTurn.eof (SharedCin.read_open ran)
  cases SharedCin.next_stepped ran with
  | connect ip port main idle accepted => exact absurd idle busy
  | ready fd idle => exact absurd idle busy
  | readSocket block fd s here waits => exact absurd rfl (silent block)
  | readOther block fd object here other => exact absurd rfl (silent block)
  | runShell fd text main here ran => exact absurd rfl quiet
  | arrive s bytes =>
      exact ⟨inTurn.main, watched.trans inTurn.masterSocks, inTurn.eof, inTurn.stage⟩
  | hangup s => exact ⟨inTurn.main, watched.trans inTurn.masterSocks, inTurn.eof, inTurn.stage⟩
  | commandReads s count =>
      exact ⟨inTurn.main, watched.trans inTurn.masterSocks, inTurn.eof, inTurn.stage⟩
  | endOfFile fd source here => exact ⟨inTurn.main, watched.trans inTurn.masterSocks, rfl, inTurn.stage⟩
  | getline fd' source' here ended =>
      refine ⟨inTurn.main, watched.trans inTurn.masterSocks, inTurn.eof, Or.inr ?_⟩
      rcases inTurn.stage with before | after
      · obtain ⟨text, nothing⟩ := rest_taken none fd (m₀.input.session fd)
        cases here.symm.trans before.1
        rw [before.2]
        exact ⟨congrArg (Phase.runShell fd) text, nothing⟩
      · cases here.symm.trans after.1

theorem InTurn.run (none : ¬ HasLine m.input.cin) {before : List InputEvent}
    (quiet : .runShell ∉ before) (inTurn : InTurn m fd source m')
    (ran : runAll next before m' = some m₀) : InTurn m fd source m₀ := by
  induction before generalizing m' with
  | nil => exact Option.some.inj ran ▸ inTurn
  | cons event rest ih =>
      obtain ⟨m'', stepped, later⟩ := Option.bind_eq_some_iff.mp ran
      have first : event ≠ .runShell := fun same => quiet (same ▸ List.mem_cons_self)
      exact ih (fun member => quiet (List.mem_cons_of_mem _ member))
        (inTurn.step none first stepped) later

/-- The end of a turn at the end of a stream. -/
theorem InTurn.finish {id : Int} (inTurn : InTurn m fd source m₀) (running : m.input.main.Running)
    (known : m.input.main.server.sockIDTable.find? fd = some id)
    (stepped : m₀.next .runShell = some m₁) :
    (m₁.Forgot fd id ↔ .exit ∈ (parseCommand m.rest).1) ∧ m₁.Deaf := by
  obtain ⟨ran, watched⟩ := next_input stepped
  obtain ⟨input', masterSocks'⟩ := m₁
  obtain ⟨here, empty⟩ : m₀.input.phase = .runShell fd m.rest ∧ m₀.input.cin = [] := by
    rcases inTurn.stage with before | after
    · rw [SharedCin.next, before.1] at ran
      cases ran
    · exact after
  rw [SharedCin.next, here] at ran
  obtain ⟨main', turn, same⟩ := Option.map_eq_some_iff.mp ran
  dsimp only at same watched
  subst same
  rw [inTurn.main] at turn
  have turned := running.line known turn
  refine ⟨?_, inTurn.eof, empty⟩
  have cleared : masterSocks' = if m.input.main.loopEnds fd m.rest then
      Function.update m.masterSocks fd false else m.masterSocks := by
    rw [watched, watch, here, inTurn.main, inTurn.masterSocks]
  constructor
  · intro forgot
    by_contra remains
    have still := forgot.sockIDTable
    rw [turned.stayed remains, known] at still
    cases still
  · intro leaves
    obtain ⟨sock, user⟩ := turned.left leaves
    refine ⟨sock, user, ?_⟩
    rw [cleared, if_pos (turned.ends.mpr leaves)]
    exact Function.update_self ..

end Turn

theorem reached_running {limit : Nat} {canOpen : Text → Bool} {environ : List (Text × Text)}
    {m : SelectLoop} (reached : Reached next (fun _ _ => True) (boot limit canOpen environ) m) :
    m.input.main.Running := by
  apply reached.invariant (p := fun m => m.input.main.Running)
  · exact SingleProc.boot_running limit canOpen environ
  · intro m m' event running _ stepped
    obtain ⟨ran, -⟩ := next_input stepped
    obtain ⟨input', masterSocks'⟩ := m'
    cases SharedCin.next_stepped ran with
    | connect ip port main idle accepted => exact running.connect accepted
    | runShell fd text main here turn =>
        obtain ⟨id, known⟩ := SingleProc.line_known turn
        exact (running.line known turn).running
    | _ => exact running

/-- After the end of a client's stream was served, he is forgotten and the lines of the others are
still read, exactly when what was left of his last line contains `exit` and no other client with a
complete line is served any more. -/
theorem hangup_handled_iff {limit : Nat} {canOpen : Text → Bool} {environ : List (Text × Text)}
    {m m₀ m₁ : SelectLoop} {fd s : Nat} {id : Int} {before after : List InputEvent}
    (reached : Reached next (fun _ _ => True) (boot limit canOpen environ) m)
    (serves : m.Serves fd s) (known : m.input.main.server.sockIDTable.find? fd = some id)
    (ran : runAll next (.endOfFile :: before) m = some m₀) (quiet : .runShell ∉ before)
    (returned : m₀.next .runShell = some m₁) :
    (m₁.Forgot fd id ∧ Along next (fun m e => e = .getline → m.LineWaits s → m.ReadsLine) after m₁) ↔
      (.exit ∈ (parseCommand m.rest).1 ∧
        Along next (fun m e => e = .getline → ¬ m.LineWaits s) after m₁) := by
  obtain ⟨m', first, later⟩ := Option.bind_eq_some_iff.mp ran
  obtain ⟨inTurn, none⟩ := endOfFile_inTurn serves.phase first
  obtain ⟨forgot, deaf⟩ := (inTurn.run none quiet later).finish (reached_running reached) known returned
  rw [forgot]
  apply and_congr_right
  intro _
  apply @Along.congr _ _ next _ _ Deaf
  · intro m event deaf
    apply imp_congr_right
    intro _
    exact ⟨fun reads waits => deaf.not_readsLine (reads waits), fun nobody waits => absurd waits nobody⟩
  · intro m event m' deaf stepped
    exact deaf.next stepped
  · exact deaf

/-- One user closes his connection behind `exit` without a newline. -/
theorem hangup_handled_exit : ∃ m m₀ m₁,
    runAll next [.connect "10.0.0.1".toList 5001, .arrive 1 "exit".toList, .hangup 1, .ready 7,
      .read "exit".toList] (boot 1024 (fun _ => true) []) = some m ∧
    runAll next [.endOfFile, .getline] m = some m₀ ∧ m₀.next .runShell = some m₁ ∧
    m₁.Forgot 7 1 := by
  have ends : (runAll next ([.connect "10.0.0.1".toList 5001, .arrive 1 "exit".toList, .hangup 1,
      .ready 7, .read "exit".toList] ++ ([.endOfFile, .getline] ++ [.runShell]))
      (boot 1024 (fun _ => true) [])).isSome = true := by
    decide +kernel
  have seen : (runAll next [.connect "10.0.0.1".toList 5001, .arrive 1 "exit".toList, .hangup 1,
      .ready 7, .read "exit".toList] (boot 1024 (fun _ => true) [])).map (fun m =>
        decide (m.input.phase = .getline 7 (some (.socket 1)) ∧ m.input.session 7 = some 1 ∧
          m.input.main.server.sockIDTable.find? 7 = some 1 ∧ m.rest = "exit".toList)) =
      some true := by
    decide +kernel
  obtain ⟨m, first, seen⟩ := Option.map_eq_some_iff.mp seen
  obtain ⟨phase, session, known, rest⟩ := of_decide_eq_true seen
  obtain ⟨last, ends⟩ := Option.isSome_iff_exists.mp ends
  rw [runAll_append, first, Option.bind_some, runAll_append] at ends
  obtain ⟨m₀, ran, ends⟩ := Option.bind_eq_some_iff.mp ends
  obtain ⟨m₁, returned, -⟩ := Option.bind_eq_some_iff.mp ends
  have leaves : .exit ∈ (parseCommand m.rest).1 := by
    rw [rest]
    decide
  refine ⟨m, m₀, m₁, first, ran, returned, ?_⟩
  have handled := @hangup_handled_iff 1024 (fun _ => true) [] m m₀ m₁ 7 1 1 [.getline] []
    (Reached.start.runAll first) ⟨phase, session⟩ known ran (by simp) returned
  exact (handled.mpr ⟨leaves, trivial⟩).1

/-- One of two users closes his connection, and the loop comes to his socket. -/
def hangup : List InputEvent :=
  [.connect "10.0.0.1".toList 5001, .connect "10.0.0.2".toList 5002, .hangup 1, .ready 7]

/-- He stays in the tables, and the line `who` that the other user sends then is read as an empty
one. -/
theorem hangup_ignored : ∃ m m₀ m₁ m₂,
    Reached next (fun _ _ => True) (boot 1024 (fun _ => true) []) m ∧ m.Serves 7 1 ∧
    runAll next [.endOfFile, .getline] m = some m₀ ∧ m₀.next .runShell = some m₁ ∧
    (m₁.input.main.server.sockIDTable.find? 7 = some 1 ∧ m₁.masterSocks 7 = true ∧
      ¬ m₁.Forgot 7 1) ∧
    runAll next [.arrive 2 "who\n".toList, .ready 8, .getline] m₁ = some m₂ ∧
    m₂.input.sent 2 = "who\n".toList ∧ m₂.input.phase = .runShell 8 [] := by
  have first : (runAll next hangup (boot 1024 (fun _ => true) [])).map (fun m =>
      decide (m.input.phase = .getline 7 (some (.socket 1)) ∧ m.input.session 7 = some 1)) =
      some true := by
    decide +kernel
  have turn : (runAll next (hangup ++ ([.endOfFile, .getline] ++ [.runShell]))
      (boot 1024 (fun _ => true) [])).map (fun m => decide
        (m.input.main.server.sockIDTable.find? 7 = some 1 ∧ m.masterSocks 7 = true)) =
      some true := by
    decide +kernel
  have other : (runAll next (hangup ++ ([.endOfFile, .getline] ++ ([.runShell] ++
      [.arrive 2 "who\n".toList, .ready 8, .getline]))) (boot 1024 (fun _ => true) [])).map
        (fun m => decide (m.input.sent 2 = "who\n".toList ∧ m.input.phase = .runShell 8 [])) =
      some true := by
    decide +kernel
  obtain ⟨m, began, seen⟩ := Option.map_eq_some_iff.mp first
  obtain ⟨m₁, ended, later⟩ := Option.map_eq_some_iff.mp turn
  obtain ⟨m₂, further, heard⟩ := Option.map_eq_some_iff.mp other
  rw [runAll_append, began, Option.bind_some, runAll_append] at ended further
  obtain ⟨m₀, ran, ended⟩ := Option.bind_eq_some_iff.mp ended
  rw [ran, Option.bind_some] at further
  obtain ⟨m', returned, same⟩ := Option.bind_eq_some_iff.mp ended
  obtain rfl : m₁ = m' := (Option.some.inj same).symm
  have after := further
  rw [runAll_append, runAll, returned] at after
  obtain ⟨sock, watched⟩ := of_decide_eq_true later
  obtain ⟨phase, session⟩ := of_decide_eq_true seen
  refine ⟨m, m₀, m₁, m₂, Reached.start.runAll began, ⟨phase, session⟩, ran, returned,
    ⟨sock, watched, ?_⟩, after, of_decide_eq_true heard⟩
  intro forgot
  cases sock.symm.trans forgot.sockIDTable

end SelectLoop

end NetProg
