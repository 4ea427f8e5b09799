import NetProg.Lib.Runs
import NetProg.Server.Users

/-!
# `np_single_proc`

The `main` of the chat server that serves all users in one process.  `select` decides which
descriptor is ready next, so a run is any sequence of accepted connections and of lines from the
sockets of connected users.
-/

namespace NetProg

/-- The process, its server, and what the statements need: the number of the next connection and
the lines that each connection has had served. -/
structure SingleProc where
  proc : Proc
  server : ChatServer
  nextSession : Nat
  lines : Nat → List Text

/-- What the loop reacts to: `accept` returns, or `getline` returns for a ready socket. -/
inductive ServerEvent where
  | connect (ip : Text) (port : Int)
  | line (fd : Nat) (text : Text)

namespace SingleProc

open ChatServer (redirect runShellLoop runShell)

/-- The descriptors before the loop: three standard ones, their copies and the listener. -/
def bootFds : FdTable Desc :=
  ⟨[some ⟨.std 0, .server⟩, some ⟨.std 1, .server⟩, some ⟨.std 2, .server⟩,
    some ⟨.std 0, .server⟩, some ⟨.std 1, .server⟩, some ⟨.std 2, .server⟩,
    some ⟨.listener, .server⟩]⟩

/-- The row of `env_table` that `main` prepares for the ids 1..30. -/
def firstRow : Text → Text := fun env => if env = "PATH".toList then "bin:.".toList else []

/-- `main` (`np_project2/np_single_proc.cpp:35-66`) before its loop. -/
def boot (limit : Nat) (canOpen : Text → Bool) (environ : List (Text × Text)) : SingleProc where
  proc :=
    ({ Proc.start limit canOpen environ with fds := bootFds } : Proc).setenv "PATH".toList
      "bin:.".toList
  server :=
    { ChatServer.init (some 3) (some 4) (some 5) with
      envTable := fun id => if 1 ≤ id ∧ id < maxConn then firstRow else fun _ => [] }
  nextSession := 1
  lines := fun _ => []

/-- `accept`, `addUser` and the greeting (`np_project2/np_single_proc.cpp:80-91`); a failed `accept`
is used as a descriptor. -/
def connect (ip : Text) (port : Int) (st : SingleProc) : Outcome SingleProc :=
  let clientFd := st.proc.fds.lowest
  if clientFd < st.proc.limit then do
    let k := { st.proc with
      fds := st.proc.fds.insert ⟨.socket st.nextSession, .user st.nextSession⟩ }
    let (k, server) := ChatServer.addUser st.nextSession ip port clientFd (-1) k st.server
    let k := ChatServer.sendRawMessage clientFd ChatServer.welcomeMsg k
    let user ← server.user (server.getServingUserID clientFd) k
    let k := server.broadcastMessage (ChatServer.loginMsg user.name ip port) k
    let k := ChatServer.sendRawMessage clientFd "% ".toList k
    .ok { proc := k, server, nextSession := st.nextSession + 1, lines := st.lines }
  else .error (.undefined, st.proc)

/-- `runShellLoop`, and `removeUser` when it returns false
(`np_project2/np_single_proc.cpp:92-98`). -/
def serve (fd : Nat) (text : Text) (st : SingleProc) : Outcome SingleProc := do
  let user ← st.server.user (st.server.getServingUserID fd) st.proc
  let (running, k, server) ←
    runShellLoop fd text { st.proc with serving := user.session } st.server
  let lines := Function.update st.lines user.session (st.lines user.session ++ [text])
  if running then .ok { st with proc := k, server, lines }
  else do
    let (k, server) ← ChatServer.removeUser fd k server
    .ok { st with proc := k, server, lines }

/-- One turn of the loop (`np_project2/np_single_proc.cpp:67-102`).  Only sockets of connected users
are ready. -/
def step (st : SingleProc) : ServerEvent → Outcome SingleProc
  | .connect ip port => st.connect ip port
  | .line fd text =>
      if (st.server.sockIDTable.find? fd).isSome then st.serve fd text
      else .error (.undefined, st.proc)

/-- A turn that ends; the others end the process. -/
def next (st : SingleProc) (event : ServerEvent) : Option SingleProc := (st.step event).toOption

/-- The shell of a user when his line begins. -/
def shell (st : SingleProc) (fd : Nat) (id : Int) (user : UserInfo) : ShellState ChatServer where
  proc :=
    (redirect (some fd) (some fd) (some fd) { st.proc with serving := user.session }).setenv
      "PATH".toList (st.server.getServingUserEnv id "PATH".toList)
  handler := user.handler
  server := st.server

/-- The server when the line is over. -/
def stored (s : ShellState ChatServer) (id : Int) (user : UserInfo) : ChatServer :=
  s.server.setUser id { user with handler := s.handler }

/-- The history with one more line. -/
def served (st : SingleProc) (user : UserInfo) (text : Text) : Nat → List Text :=
  Function.update st.lines user.session (st.lines user.session ++ [text])

/-- The standard descriptors put back. -/
def restored (s : ShellState ChatServer) : Proc :=
  redirect s.server.serverIn s.server.serverOut s.server.serverErr s.proc

/-- The state after a line whose user stays. -/
def stays (st : SingleProc) (fd : Nat) (text : Text) (id : Int) (user : UserInfo)
    (s : ShellState ChatServer) (user' : UserInfo) : SingleProc :=
  { st with
    proc := ChatServer.sendRawMessage fd "% ".toList (restored s)
    server := stored s id user'
    lines := st.served user text }

/-- The state after a line whose user leaves. -/
def leaves (st : SingleProc) (fd : Nat) (text : Text) (id : Int) (user : UserInfo)
    (s : ShellState ChatServer) (user' : UserInfo) (messages : List Event) : SingleProc :=
  { st with
    proc :=
      ({ redirect s.server.serverIn s.server.serverOut s.server.serverErr (restored s) with
        log := (restored s).log ++ messages } : Proc).close (some fd)
    server := (stored s id user').dropUser fd id
    lines := st.served user text }

/-- A message of the server: no close and no fork. -/
def IsMessage (e : Event) : Prop := (∃ text, e = .cout text) ∨ ∃ fd text, e = .send fd text

/-- Only messages are new in the log. -/
def Announced (k k' : Proc) : Prop :=
  ∃ messages, k'.log = k.log ++ messages ∧ ∀ e ∈ messages, IsMessage e

section Announced

variable {k k' k'' : Proc}

theorem Announced.trans (h : Announced k k') (h' : Announced k' k'') : Announced k k'' := by
  obtain ⟨messages, log, kinds⟩ := h
  obtain ⟨messages', log', kinds'⟩ := h'
  refine ⟨messages ++ messages', by rw [log', log, List.append_assoc], fun e member => ?_⟩
  rcases List.mem_append.mp member with first | later
  · exact kinds e first
  · exact kinds' e later

theorem Announced.event (k : Proc) {e : Event} (kind : IsMessage e) :
    Announced k (k.logEvent e) := by
  refine ⟨[e], rfl, fun e' member => ?_⟩
  rw [List.mem_singleton.mp member]
  exact kind

theorem Announced.broadcastMessage (server : ChatServer) (msg : Text) (k : Proc) :
    Announced k (server.broadcastMessage msg k) := by
  refine ⟨_, rfl, fun e member => ?_⟩
  obtain ⟨entry, -, rfl⟩ := List.mem_map.mp member
  exact Or.inr ⟨_, _, rfl⟩

theorem Announced.addUser (session : Nat) (ip : Text) (port : Int) (sock : Nat) (pid : Int)
    (k : Proc) (server : ChatServer) :
    Announced k (ChatServer.addUser session ip port sock pid k server).1 :=
  (Announced.event k (Or.inl ⟨_, rfl⟩)).trans (.event _ (Or.inl ⟨_, rfl⟩))

end Announced

/-- What an accepted connection changes. -/
structure Accepted (st st' : SingleProc) (ip : Text) (port : Int) : Prop where
  fds : st'.proc.fds = st.proc.fds.insert ⟨.socket st.nextSession, .user st.nextSession⟩
  environ : st'.proc.environ = st.proc.environ
  limit : st'.proc.limit = st.proc.limit
  log : Announced st.proc st'.proc
  server : st'.server =
    (ChatServer.addUser st.nextSession ip port st.proc.fds.lowest (-1) st.proc st.server).2
  nextSession : st'.nextSession = st.nextSession + 1
  lines : st'.lines = st.lines

/-- `accept` fails only when no number is left. -/
theorem connect_sat (st : SingleProc) (ip : Text) (port : Int) :
    Sat (st.connect ip port) (fun st' => Accepted st st' ip port)
      (fun stopped => stopped = (.undefined, st.proc) ∧ st.proc.limit ≤ st.proc.fds.lowest) := by
  unfold connect
  dsimp only
  split
  · rename_i room
    have greeted : ∀ k k', (ChatServer.addUser st.nextSession ip port st.proc.fds.lowest (-1) k
        st.server).2.user ((ChatServer.addUser st.nextSession ip port st.proc.fds.lowest (-1) k
          st.server).2.getServingUserID st.proc.fds.lowest) k' =
        .ok (ChatServer.newUser st.nextSession ip port st.proc.fds.lowest (-1)) := by
      intro k k'
      rw [ChatServer.getServingUserID, ChatServer.addUser_socks, if_pos rfl, Option.getD_some,
        ChatServer.user, ChatServer.addUser_users, if_pos rfl]
    rw [greeted]
    refine ⟨rfl, rfl, rfl, ?_, rfl, rfl, rfl⟩
    have added := Announced.addUser st.nextSession ip port st.proc.fds.lowest (-1)
      { st.proc with
        fds := st.proc.fds.insert ⟨.socket st.nextSession, .user st.nextSession⟩ } st.server
    exact ((Announced.trans added (.event _ (Or.inr ⟨_, _, rfl⟩))).trans
      (.broadcastMessage _ _ _)).trans (.event _ (Or.inr ⟨_, _, rfl⟩))
  · rename_i full
    exact ⟨rfl, not_lt.mp full⟩

/-- What is said about the line of a user holds of what `runShellLoop` leaves. -/
theorem runShellLoop_sat {st : SingleProc} {fd : Nat} {text : Text} {id : Int} {user : UserInfo}
    {mid : ShellState ChatServer → Prop} {fail : Abort × Proc → Prop}
    (serving : st.server.getServingUserID fd = id)
    (found : st.server.users.find? id = some user)
    (ran : Sat (runShell fd text (st.shell fd id user)) mid fail)
    (kept : ∀ s, mid s → ∃ user', s.server.users.find? id = some user') :
    Sat (runShellLoop fd text { st.proc with serving := user.session } st.server)
      (fun r => ∃ s user', mid s ∧ s.server.users.find? id = some user' ∧
        r.2.2 = stored s id user' ∧ ((r.1 = true ∧ s.handler.running = true ∧
          r.2.1 = ChatServer.sendRawMessage fd "% ".toList (restored s)) ∨
          (r.1 = false ∧ s.handler.running = false ∧ r.2.1 = restored s))) fail := by
  unfold runShellLoop
  rw [serving]
  have here : st.server.user id = fun _ => Except.ok user := by
    funext k
    rw [ChatServer.user, found]
  simp only [here]
  show Sat (runShell fd text (st.shell fd id user) >>= _) _ _
  refine Sat.bind ran ?_
  intro s reached
  obtain ⟨user', found'⟩ := kept s reached
  have there : s.server.user id s.proc = .ok user' := by rw [ChatServer.user, found']
  rw [there]
  show Sat (if s.handler.running then _ else _) _ _
  split
  · rename_i on
    exact ⟨s, user', reached, found', rfl, Or.inl ⟨rfl, on, rfl⟩⟩
  · rename_i off
    exact ⟨s, user', reached, found', rfl, Or.inr ⟨rfl, eq_false_of_ne_true off, rfl⟩⟩

/-- What is said about the line of a user holds of the whole turn. -/
theorem serve_sat {st : SingleProc} {fd : Nat} {text : Text} {id : Int} {user : UserInfo}
    {mid : ShellState ChatServer → Prop} {post : SingleProc → Prop} {fail : Abort × Proc → Prop}
    (known : st.server.sockIDTable.find? fd = some id)
    (found : st.server.users.find? id = some user)
    (ran : Sat (runShell fd text (st.shell fd id user)) mid fail)
    (kept : ∀ s, mid s → s.server.sockIDTable = st.server.sockIDTable ∧
      ∃ user', s.server.users.find? id = some user')
    (remains : ∀ s user', mid s → s.server.users.find? id = some user' →
      s.handler.running = true → post (st.stays fd text id user s user'))
    (goes : ∀ s user' messages, mid s → s.server.users.find? id = some user' →
      s.handler.running = false →
      (∀ e ∈ messages, IsMessage e) →
      post (st.leaves fd text id user s user' messages)) :
    Sat (st.step (.line fd text)) post fail := by
  have serving : st.server.getServingUserID fd = id := by
    rw [ChatServer.getServingUserID, known]
    rfl
  have here : st.server.user id st.proc = .ok user := by rw [ChatServer.user, found]
  rw [step, known, Option.isSome_some, if_pos rfl, serve, serving, here]
  show Sat (runShellLoop fd text { st.proc with serving := user.session } st.server >>= _) _ _
  refine Sat.bind (runShellLoop_sat serving found ran fun s reached => (kept s reached).2) ?_
  intro r ended
  obtain ⟨running, k, server⟩ := r
  obtain ⟨s, user', reached, found', rfl, ended⟩ := ended
  rcases ended with ended | ended
  · obtain ⟨rfl, on, rfl⟩ := ended
    exact remains s user' reached found' on
  · obtain ⟨rfl, off, rfl⟩ := ended
    have known' : (stored s id user').sockIDTable.find? fd = some id := by
      rw [← known, ← (kept s reached).1]
      rfl
    have found'' : (stored s id user').users.find? id =
        some { user' with handler := s.handler } := by
      rw [stored, ChatServer.setUser, OrdMap.find?_insert, if_pos rfl]
    obtain ⟨messages, kinds, removed⟩ := ChatServer.removeUser_spec (k := restored s) known' found''
    show Sat (ChatServer.removeUser fd (restored s) (stored s id user') >>= _) _ _
    rw [removed]
    exact goes s user' messages reached found' off kinds

/-- A line of nobody. -/
theorem step_idle {st : SingleProc} {fd : Nat} (text : Text)
    (nobody : ∀ id user, st.server.sockIDTable.find? fd = some id →
      st.server.users.find? id ≠ some user) :
    st.step (.line fd text) = .error (.undefined, st.proc) := by
  rw [step]
  cases known : st.server.sockIDTable.find? fd with
  | none => rfl
  | some id =>
      have serving : st.server.getServingUserID fd = id := by
        rw [ChatServer.getServingUserID, known]
        rfl
      have absent : st.server.users.find? id = none :=
        Option.eq_none_iff_forall_ne_some.mpr fun user => nobody id user known
      rw [Option.isSome_some, if_pos rfl, serve, serving, ChatServer.user, absent]
      rfl

theorem next_eq_some {st st' : SingleProc} {event : ServerEvent} :
    st.next event = some st' ↔ st.step event = .ok st' := by
  rw [next]
  cases st.step event with
  | ok st'' => simp [Except.toOption]
  | error stopped => simp [Except.toOption]

end SingleProc

end NetProg
