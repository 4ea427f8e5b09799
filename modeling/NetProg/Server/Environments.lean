import NetProg.Server.Builtins
import NetProg.Server.SingleProc
import NetProg.Shell.Environ

/-!
# The environments of the users

`setenv` of a user goes to two places: the row of `env_table` under his id, which `printenv`
prints and which is not cleared when the id is given to somebody else, and the environment of the
process, which all commands inherit and of which only `PATH` is put back before a line.  What a
user should see is a function of his own `setenv` commands.
-/

namespace NetProg

/-- The `setenv` commands of the lines of one user, in order. -/
def ownSetenvs (lines : List Text) : List (Text × Text) :=
  lines.flatMap fun line => setenvs (parseCommand line).1

/-- The variables that `printenv` shows to a user who has given these `setenv` commands. -/
def privateRow (own : List (Text × Text)) : Text → Text := own.foldl assignRow SingleProc.firstRow

/-- The environment of his commands. -/
def privateEnviron (initial own : List (Text × Text)) : List (Text × Text) :=
  own.foldl assign initial

section Assign

variable {environ : List (Text × Text)}

theorem assignEnv_again (env var var' : Text) (environ : List (Text × Text)) :
    Proc.assignEnv env var (Proc.assignEnv env var' environ) = Proc.assignEnv env var environ := by
  induction environ with
  | nil => simp [Proc.assignEnv]
  | cons entry rest ih =>
      obtain ⟨env', value⟩ := entry
      by_cases here : env' = env
      · simp [Proc.assignEnv, here]
      · simp [Proc.assignEnv, here, ih]

/-- A variable that has its value keeps it when another one is set. -/
theorem assignEnv_other {env env' var var' : Text} (other : env' ≠ env)
    (same : Proc.assignEnv env var environ = environ) :
    Proc.assignEnv env var (Proc.assignEnv env' var' environ) =
      Proc.assignEnv env' var' environ := by
  induction environ with
  | nil => simp [Proc.assignEnv] at same
  | cons entry rest ih =>
      obtain ⟨env'', value⟩ := entry
      by_cases here : env'' = env
      · subst here
        simp only [Proc.assignEnv, if_pos, List.cons.injEq, Prod.mk.injEq, true_and, and_true]
          at same
        simp [Proc.assignEnv, other.symm, same]
      · simp only [Proc.assignEnv, if_neg here, List.cons.injEq, true_and] at same
        by_cases there : env'' = env'
        · simp [Proc.assignEnv, there, other, same]
        · simp [Proc.assignEnv, here, there, ih same]

/-- The name of the variable that is put back. -/
def path : Text := "PATH".toList

theorem assign_path (environ : List (Text × Text)) (var : Text) :
    assign environ (path, var) = Proc.assignEnv path (Text.cString var) environ := by
  have kept : ¬ Refused path := by decide
  rw [assign, if_neg kept]
  rfl

/-- The process environment has the `PATH` of the row. -/
def PathKept (row : Text → Text) (environ : List (Text × Text)) : Prop :=
  Proc.assignEnv path (Text.cString (row path)) environ = environ

theorem PathKept.assign {row : Text → Text} (kept : PathKept row environ) {entry : Text × Text}
    (whole : Text.cString entry.1 = path → entry.1 = path) :
    PathKept (assignRow row entry) (NetProg.assign environ entry) := by
  obtain ⟨env, var⟩ := entry
  by_cases here : env = path
  · subst here
    rw [assign_path, PathKept, assignRow, if_pos rfl]
    exact assignEnv_again _ _ _ _
  · have row' : assignRow row (env, var) path = row path := if_neg fun same => here same.symm
    rw [PathKept, row', NetProg.assign]
    split
    · exact kept
    · exact assignEnv_other (fun same => here (whole same)) kept

theorem PathKept.all {row : Text → Text} (kept : PathKept row environ)
    {own : List (Text × Text)} (whole : ∀ entry ∈ own, Text.cString entry.1 = path → entry.1 = path) :
    PathKept (own.foldl assignRow row) (own.foldl NetProg.assign environ) := by
  induction own generalizing row environ with
  | nil => exact kept
  | cons entry own ih =>
      exact ih (kept.assign (whole entry List.mem_cons_self)) fun entry' member =>
        whole entry' (List.mem_cons_of_mem _ member)

/-- The command sets `PATH` or nothing. -/
def PathOnly (entry : Text × Text) : Prop := Text.cString entry.1 = path ∨ Refused entry.1

/-- Two environments that differ in `PATH` at most. -/
def SameBut (first second : List (Text × Text)) : Prop :=
  ∀ var, Proc.assignEnv path var first = Proc.assignEnv path var second

theorem SameBut.assign {first second : List (Text × Text)} (same : SameBut first second)
    {entry : Text × Text} (only : PathOnly entry) : SameBut (NetProg.assign first entry) second := by
  intro var
  rw [NetProg.assign]
  split
  · exact same var
  · rename_i kept
    rw [only.resolve_right kept, assignEnv_again]
    exact same var

theorem SameBut.all {first second : List (Text × Text)} (same : SameBut first second)
    {entries : List (Text × Text)} (only : ∀ entry ∈ entries, PathOnly entry) :
    SameBut (entries.foldl NetProg.assign first) second := by
  induction entries generalizing first with
  | nil => exact same
  | cons entry entries ih =>
      exact ih (same.assign (only entry List.mem_cons_self)) fun entry' member =>
        only entry' (List.mem_cons_of_mem _ member)

end Assign

namespace ChatServer

/-- What a command line of user `id` leaves of the tables. -/
def SameTables (id : Int) (old new : ChatServer) : Prop :=
  new.envTable = old.envTable ∧ old.Kept id new

theorem broadcastMessage_sameEnv (server : ChatServer) (msg : Text) (k : Proc) :
    Proc.SameEnv k (server.broadcastMessage msg k) :=
  Proc.SameEnv.events _ rfl rfl (by simp [forks, List.filterMap_map])

theorem handleUserPipeError_sameEnv (id uid : Int) (mode : Mode) (err : UserPipeErr) (k : Proc) :
    Proc.SameEnv k (handleUserPipeError id uid mode err k).2 :=
  (Proc.SameEnv.cout k _).trans (Proc.SameEnv.openFile _ _)

/-- A look into the tables that leaves the process as it is when it stops. -/
theorem sameEnv_of_look {α : Type} {look : Outcome α} {post : α → Prop}
    {fail : Abort × Proc → Prop} {k : Proc} (h : Sat look post fail)
    (same : ∀ stopped, fail stopped → stopped.2 = k) :
    Sat look (fun _ => True) (fun stopped => Proc.SameEnv k stopped.2) :=
  Sat.mono h (fun _ _ => trivial) (fun stopped failed => same stopped failed ▸ Proc.SameEnv.refl k)

section Calls

variable (id uid : Int) (p : Pipe) (line : Text) (other : Int) (k : Proc) (server : ChatServer)

theorem user_sameEnv : Sat (server.user uid k) (fun _ => True)
    (fun stopped => Proc.SameEnv k stopped.2) :=
  sameEnv_of_look (user_spec server uid k) fun _ h => by rw [h.1]

theorem index_sameEnv : Sat (index uid k) (fun _ => True)
    (fun stopped => Proc.SameEnv k stopped.2) :=
  sameEnv_of_look (index_spec uid k) fun _ h => by rw [h.1]

theorem handleUserPipe_sameEnv (mode : Mode) : Sat (server.handleUserPipe id uid mode k)
    (fun _ => True) (fun stopped => Proc.SameEnv k stopped.2) :=
  sameEnv_of_look (handleUserPipe_spec server id uid mode k) fun _ h => by rw [h.1]

theorem writeUserPipe_sameEnv :
    Sat (writeUserPipe id uid p line other k server) (fun r => Proc.SameEnv k r.2.1)
      (fun stopped => Proc.SameEnv k stopped.2) := by
  unfold writeUserPipe
  refine Sat.bind (handleUserPipe_sameEnv id uid k server .wronly) fun result _ => ?_
  obtain ⟨userExist, pipeExist⟩ := result
  dsimp only
  split
  · exact handleUserPipeError_sameEnv id uid .wronly .userNotExist k
  split
  · refine Sat.bind (user_sameEnv id k server) fun sender _ => ?_
    refine Sat.bind (user_sameEnv uid k server) fun receiver _ => ?_
    refine Sat.bind (index_sameEnv id k) fun i _ => ?_
    refine Sat.bind (Proc.SameEnv.create k _) fun made same => ?_
    exact (same.trans (broadcastMessage_sameEnv _ _ _)).trans (Proc.SameEnv.dup _ _)
  · exact handleUserPipeError_sameEnv id uid .wronly .pipeErr k

theorem readUserPipe_sameEnv :
    Sat (readUserPipe id uid p line other k server) (fun r => Proc.SameEnv k r.2.1)
      (fun stopped => Proc.SameEnv k stopped.2) := by
  unfold readUserPipe
  refine Sat.bind (handleUserPipe_sameEnv id uid k server .rdonly) fun result _ => ?_
  obtain ⟨userExist, pipeExist⟩ := result
  dsimp only
  split
  · exact handleUserPipeError_sameEnv id uid .rdonly .userNotExist k
  split
  · refine Sat.bind (user_sameEnv uid k server) fun sender _ => ?_
    refine Sat.bind (user_sameEnv id k server) fun receiver _ => ?_
    refine Sat.bind (index_sameEnv uid k) fun i _ => ?_
    exact ((broadcastMessage_sameEnv _ _ _).trans (Proc.SameEnv.dup _ _)).trans
      (Proc.SameEnv.closePipe _ _)
  · exact handleUserPipeError_sameEnv id uid .rdonly .pipeErr k

theorem writeUserPipe_sameTables :
    Sat (writeUserPipe id uid p line other k server) (fun r => SameTables id server r.2.2)
      (fun _ => True) := by
  refine Sat.mono (writeUserPipe_spec id uid p line other k server) ?_ (fun _ _ => trivial)
  intro result wrote
  cases wrote with
  | absent missing => exact ⟨rfl, .refl id server⟩
  | taken receiver i inside found position full => exact ⟨rfl, .refl id server⟩
  | created receiver i inside found position free first second k₁ opens steps k₂ sent announced
      message log => exact ⟨rfl, .storeBox server found i _ fun _ => position⟩

theorem readUserPipe_sameTables :
    Sat (readUserPipe id uid p line other k server) (fun r => SameTables id server r.2.2)
      (fun _ => True) := by
  refine Sat.mono (readUserPipe_spec id uid p line other k server) ?_ (fun _ _ => trivial)
  intro result received
  cases received with
  | absent missing => exact ⟨rfl, .refl id server⟩
  | nothing sender user i inside found' found position free => exact ⟨rfl, .refl id server⟩
  | taken sender user i inside found' found position full k₁ sent announced message log =>
      exact ⟨rfl, .storeBox server found i _ fun full => absurd rfl full⟩

end Calls

/-- Nothing was forked. -/
def Silent (k k' : Proc) : Prop := ∃ events, k'.log = k.log ++ events ∧ forks events = []

/-- All that was forked has this environment. -/
def ForkedIn (environ : List (Text × Text)) (k k' : Proc) : Prop :=
  ∃ events, k'.log = k.log ++ events ∧ ∀ child ∈ forks events, child.environ = environ

section Forked

variable {k k' k'' : Proc} {environ : List (Text × Text)}

theorem Silent.refl (k : Proc) : Silent k k := ⟨[], (List.append_nil _).symm, rfl⟩

theorem Silent.trans (h : Silent k k') (h' : Silent k' k'') : Silent k k'' := by
  obtain ⟨events, log, none⟩ := h
  obtain ⟨events', log', none'⟩ := h'
  exact ⟨events ++ events', by rw [log', log, List.append_assoc], by rw [forks_append, none, none']; rfl⟩

theorem Silent.of_steps (h : Proc.Steps k k' []) : Silent k k' := by
  obtain ⟨events, log, -, none⟩ := h.log
  exact ⟨events, log, none⟩

theorem Silent.close (k : Proc) (fd : Fd) : Silent k (k.close fd) := by
  cases fd with
  | none => exact .refl k
  | some fd => exact ⟨[.close k.serving fd (k.fds.get fd)], rfl, rfl⟩

theorem Silent.closePipe (p : Pipe) (k : Proc) : Silent k (p.closePipe k) :=
  (Silent.close k p.inFd).trans (Silent.close _ p.outFd)

theorem Silent.forkedIn (h : Silent k k') : ForkedIn environ k k' := by
  obtain ⟨events, log, none⟩ := h
  refine ⟨events, log, fun child member => ?_⟩
  rw [none] at member
  cases member

theorem ForkedIn.trans (h : ForkedIn environ k k') (h' : ForkedIn environ k' k'') :
    ForkedIn environ k k'' := by
  obtain ⟨events, log, children⟩ := h
  obtain ⟨events', log', children'⟩ := h'
  refine ⟨events ++ events', by rw [log', log, List.append_assoc], fun child member => ?_⟩
  rw [forks_append] at member
  rcases List.mem_append.mp member with first | later
  · exact children child first
  · exact children' child later

/-- Only the log is looked at. -/
theorem ForkedIn.congr {l l' : Proc} (h : ForkedIn environ k k') (first : l.log = k.log)
    (second : l'.log = k'.log) : ForkedIn environ l l' := by
  obtain ⟨events, log, children⟩ := h
  exact ⟨events, by rw [second, first, log], children⟩

end Forked

/-- What the built-in commands of a line do to the two stores. -/
structure Assigned (id : Int) (entries : List (Text × Text)) (s r : ShellState ChatServer) :
    Prop where
  environ : r.proc.environ = entries.foldl assign s.proc.environ
  table : r.server.envTable =
    Function.update s.server.envTable id (entries.foldl assignRow (s.server.envTable id))
  kept : s.server.Kept id r.server
  silent : Silent s.proc r.proc

theorem Assigned.trans {id : Int} {first later : List (Text × Text)}
    {s r t : ShellState ChatServer} (h : Assigned id first s r) (h' : Assigned id later r t) :
    Assigned id (first ++ later) s t where
  environ := by rw [h'.environ, h.environ, List.foldl_append]
  table := by
    rw [h'.table, h.table, Function.update_idem, Function.update_self, List.foldl_append]
  kept := h.kept.trans h'.kept
  silent := h.silent.trans h'.silent

theorem perform_assigned (id : Int) (builtin : Builtin) (s : ShellState ChatServer) :
    Sat (perform id builtin s) (Assigned id (setenvs [builtin]) s)
      (fun stopped => Silent s.proc stopped.2) := by
  by_cases leaves : builtin = .exit
  · subst leaves
    have closed : Silent s.proc (s.handler.currPipe.closePipe (s.handler.prevPipe.closePipe
        (s.handler.eol.closePipe s.proc))) :=
      ((Silent.closePipe _ _).trans (Silent.closePipe _ _)).trans (Silent.closePipe _ _)
    have same := ((Proc.SameEnv.closePipe s.handler.eol s.proc).trans
      (Proc.SameEnv.closePipe s.handler.prevPipe _)).trans
      (Proc.SameEnv.closePipe s.handler.currPipe _)
    exact ⟨same.environ, (Function.update_eq_self _ _).symm, .refl id s.server, closed⟩
  · refine Sat.mono (perform_told leaves) ?_ ?_
    · intro r told
      exact ⟨told.environ, told.table, told.kept, .of_steps told.proc.steps⟩
    · intro stopped failed
      rw [failed]
      exact .refl s.proc

theorem performAll_assigned (id : Int) (builtins : List Builtin) (s : ShellState ChatServer) :
    Sat (performAll id builtins s) (Assigned id (setenvs builtins) s)
      (fun stopped => Silent s.proc stopped.2) := by
  induction builtins generalizing s with
  | nil =>
      exact ⟨rfl, (Function.update_eq_self _ _).symm, .refl id s.server, .refl s.proc⟩
  | cons builtin rest ih =>
      refine Sat.bind (perform_assigned id builtin s) fun r first => ?_
      refine Sat.mono (ih r) (fun t later => ?_) (fun _ later => first.silent.trans later)
      have whole : setenvs (builtin :: rest) = setenvs [builtin] ++ setenvs rest :=
        List.filterMap_append (l := [builtin])
      rw [whole]
      exact first.trans later

theorem userPipeCalls_tame (id : Int) : (userPipeCalls id).Tame (SameTables id) where
  refl server := ⟨rfl, .refl id server⟩
  trans h h' := ⟨h'.1.trans h.1, h.2.trans h'.2⟩
  read readUid p line writeUid k server :=
    Sat.mono ((readUserPipe_sameEnv id readUid p line writeUid k server).and
      (readUserPipe_sameTables id readUid p line writeUid k server)) (fun _ h => h) (fun _ h => h.1)
  write writeUid p line readUid k server :=
    Sat.mono ((writeUserPipe_sameEnv id writeUid p line readUid k server).and
      (writeUserPipe_sameTables id writeUid p line readUid k server)) (fun _ h => h) (fun _ h => h.1)

/-- The rule for one input line of user `id`. -/
theorem runShell_assigned {fd : Nat} {id : Int} (text : Text) (s : ShellState ChatServer)
    (serving : s.server.getServingUserID fd = id) :
    Sat (runShell fd text s)
      (fun r => r.proc.environ = (setenvs (parseCommand text).1).foldl assign s.proc.environ ∧
        r.server.envTable = Function.update s.server.envTable id
          ((setenvs (parseCommand text).1).foldl assignRow (s.server.envTable id)) ∧
        s.server.Kept id r.server ∧
        ForkedIn ((setenvs (parseCommand text).1).foldl assign s.proc.environ) s.proc r.proc)
      (fun stopped => ForkedIn ((setenvs (parseCommand text).1).foldl assign s.proc.environ) s.proc
        stopped.2) := by
  unfold runShell
  rw [serving]
  refine Sat.bind (Sat.mono (performAll_assigned id (parseCommand text).1 s) (fun _ h => h)
    (fun _ h => h.forkedIn)) fun r assigned => ?_
  have forked : ∀ {k}, Proc.SameEnv r.proc k →
      ForkedIn ((setenvs (parseCommand text).1).foldl assign s.proc.environ) s.proc k := by
    intro k same
    exact assigned.silent.forkedIn.trans (assigned.environ ▸ same.log)
  refine Sat.bind (Sat.mono (ShellState.runQueue_tame (userPipeCalls_tame id) (parseCommand text).2 r)
    (fun _ h => h) (fun _ same => forked same)) fun t tame => ?_
  obtain ⟨same, ⟨table, kept⟩, -⟩ := tame
  have done : t.proc.environ = (setenvs (parseCommand text).1).foldl assign s.proc.environ :=
    same.environ.trans assigned.environ
  split
  · refine ⟨done, table.trans assigned.table, assigned.kept.trans kept, ?_⟩
    exact forked (same.trans (Proc.SameEnv.cout t.proc _))
  · exact ⟨done, table.trans assigned.table, assigned.kept.trans kept, forked same⟩

end ChatServer

namespace SingleProc

open ChatServer (ForkedIn Silent performAll perform)

/-- The line of a user is executed as if nobody else had ever been there: all its commands get the
environment of his own `setenv` commands, and every `printenv` prints his own variable. -/
def Isolated (initial : List (Text × Text)) (st : SingleProc) (fd : Nat) (text : Text) (id : Int)
    (user : UserInfo) : Prop :=
  let own := ownSetenvs (st.lines user.session)
  let environ := privateEnviron initial (own ++ setenvs (parseCommand text).1)
  Sat (st.step (.line fd text)) (fun st' => ForkedIn environ st.proc st'.proc)
      (fun stopped => ForkedIn environ st.proc stopped.2) ∧
    ∀ before env after, (parseCommand text).1 = before ++ .printenv env :: after →
      ∀ s, performAll id before (st.shell fd id user) = .ok s →
        perform id (.printenv env) s = .ok
          (let var := privateRow (own ++ setenvs before) env
          if var.isEmpty then s
          else { s with proc := s.proc.logEvent (.cout (var ++ "\n".toList)) })

/-- Nobody who had the id of the user before has changed its row, the others set `PATH` at most, and
the user does not set it under a name that is cut at a NUL. -/
def EnvOk (session : Nat) (st : SingleProc) : ServerEvent → Prop
  | .connect _ _ => st.nextSession = session → st.server.envTable st.server.nextID = firstRow
  | .line fd text => ∀ id user, st.server.sockIDTable.find? fd = some id →
      st.server.users.find? id = some user →
      if user.session = session then
        ∀ entry ∈ setenvs (parseCommand text).1, Text.cString entry.1 = path → entry.1 = path
      else ∀ entry ∈ setenvs (parseCommand text).1, PathOnly entry

/-- The stores agree with what the user should see. -/
structure EnvInv (initial : List (Text × Text)) (session : Nat) (st : SingleProc) : Prop where
  environ : SameBut st.proc.environ (privateEnviron initial (ownSetenvs (st.lines session)))
  kept : PathKept (privateRow (ownSetenvs (st.lines session)))
    (privateEnviron initial (ownSetenvs (st.lines session)))
  row : ∀ id user, st.server.users.find? id = some user → user.session = session →
    st.server.envTable id = privateRow (ownSetenvs (st.lines session))
  only : ∀ id user id' user', st.server.users.find? id = some user → user.session = session →
    st.server.users.find? id' = some user' → user'.session = session → id' = id
  fresh : st.nextSession ≤ session → st.lines session = []
  older : ∀ id user, st.server.users.find? id = some user → user.session < st.nextSession

theorem boot_environ (limit : Nat) (canOpen : Text → Bool) (environ : List (Text × Text)) :
    (boot limit canOpen environ).proc.environ = Proc.assignEnv path "bin:.".toList environ := by
  rw [boot, setenv_rest]
  exact assign_path environ _

theorem boot_inv (limit : Nat) (canOpen : Text → Bool) (environ : List (Text × Text))
    (session : Nat) :
    EnvInv (boot limit canOpen environ).proc.environ session (boot limit canOpen environ) where
  environ := fun _ => rfl
  kept := by
    rw [boot_environ]
    exact assignEnv_again _ _ _ _
  row := fun _ _ found => nomatch found
  only := fun _ _ _ _ found => nomatch found
  fresh := fun _ => rfl
  older := fun _ _ found => nomatch found

section Step

variable {initial : List (Text × Text)} {session : Nat} {st st' : SingleProc} {fd : Nat}
  {text : Text} {id : Int} {user : UserInfo}

/-- The environment in which the line begins. -/
theorem shell_environ (st : SingleProc) (fd : Nat) (id : Int) (user : UserInfo) :
    (st.shell fd id user).proc.environ =
      assign st.proc.environ (path, st.server.envTable id path) := by
  rw [shell, setenv_rest]
  rfl

theorem shell_log (st : SingleProc) (fd : Nat) (id : Int) (user : UserInfo) :
    (st.shell fd id user).proc.log = st.proc.log := by
  rw [shell, setenv_rest]
  exact ChatServer.redirect_log _ _ _ _

/-- The line of the user begins in his own environment. -/
theorem EnvInv.begins (inv : EnvInv initial session st) (fd : Nat)
    (found : st.server.users.find? id = some user) (own : user.session = session) :
    (st.shell fd id user).proc.environ =
      privateEnviron initial (ownSetenvs (st.lines session)) := by
  rw [shell_environ, inv.row id user found own, assign_path, inv.environ]
  exact inv.kept

theorem EnvInv.connect (inv : EnvInv initial session st) {ip : Text} {port : Int}
    (ok : EnvOk session st (.connect ip port)) (accepted : Accepted st st' ip port) :
    EnvInv initial session st' := by
  have users : ∀ {id user}, st'.server.users.find? id = some user →
      (id = st.server.nextID ∧ user.session = st.nextSession) ∨
        st.server.users.find? id = some user := by
    intro id user found
    rw [accepted.server, ChatServer.addUser_users] at found
    split at found
    · rename_i new
      cases found
      exact Or.inl ⟨new, rfl⟩
    · exact Or.inr found
  have table : st'.server.envTable = st.server.envTable := by
    rw [accepted.server]
    rfl
  refine ⟨?_, ?_, ?_, ?_, ?_, ?_⟩
  · rw [accepted.environ, accepted.lines]
    exact inv.environ
  · rw [accepted.lines]
    exact inv.kept
  · intro id user found own
    rw [accepted.lines, table]
    rcases users found with new | old
    · obtain ⟨rfl, now⟩ := new
      have first : st.nextSession = session := now.symm.trans own
      rw [inv.fresh first.le]
      exact ok first
    · exact inv.row id user old own
  · intro id user id' user' found own found' own'
    rcases users found with new | old
    · rcases users found' with new' | old'
      · exact new'.1.trans new.1.symm
      · have before := inv.older id' user' old'
        omega
    · rcases users found' with new' | old'
      · have before := inv.older id user old
        omega
      · exact inv.only id user id' user' old own old' own'
  · intro later
    rw [accepted.nextSession] at later
    rw [accepted.lines]
    exact inv.fresh (Nat.le_of_succ_le later)
  · intro id user found
    rw [accepted.nextSession]
    rcases users found with new | old
    · exact new.2 ▸ Nat.lt_succ_self _
    · exact Nat.lt_succ_of_lt (inv.older id user old)

/-- What a line leaves for the next one. -/
theorem EnvInv.after (inv : EnvInv initial session st)
    (found : st.server.users.find? id = some user)
    (known : st.server.sockIDTable.find? fd = some id) (ok : EnvOk session st (.line fd text))
    (environ : st'.proc.environ = (setenvs (parseCommand text).1).foldl assign
      (st.shell fd id user).proc.environ)
    (table : st'.server.envTable = Function.update st.server.envTable id
      ((setenvs (parseCommand text).1).foldl assignRow (st.server.envTable id)))
    (users : ∀ i user', st'.server.users.find? i = some user' →
      ∃ user, st.server.users.find? i = some user ∧ user'.session = user.session)
    (lines : st'.lines = st.served user text) (next : st'.nextSession = st.nextSession) :
    EnvInv initial session st' := by
  have allowed := ok id user known found
  have only : ∀ i user i' user', st'.server.users.find? i = some user → user.session = session →
      st'.server.users.find? i' = some user' → user'.session = session → i' = i := by
    intro i user i' user' there own there' own'
    obtain ⟨old, before, same⟩ := users i user there
    obtain ⟨old', before', same'⟩ := users i' user' there'
    exact inv.only i old i' old' before (same ▸ own) before' (same' ▸ own')
  have older : ∀ i user', st'.server.users.find? i = some user' →
      user'.session < st'.nextSession := by
    intro i user' there
    obtain ⟨old, before, same⟩ := users i user' there
    rw [same, next]
    exact inv.older i old before
  by_cases own : user.session = session
  · rw [if_pos own] at allowed
    have now : ownSetenvs (st'.lines session) =
        ownSetenvs (st.lines session) ++ setenvs (parseCommand text).1 := by
      rw [lines, served, own, Function.update_self, ownSetenvs, List.flatMap_append,
        List.flatMap_singleton, ownSetenvs]
    have begun := inv.begins fd found own
    refine ⟨?_, ?_, ?_, only, ?_, older⟩
    · rw [environ, begun, now, privateEnviron, privateEnviron, List.foldl_append]
      exact fun _ => rfl
    · rw [now, privateRow, privateEnviron, List.foldl_append, List.foldl_append]
      exact inv.kept.all allowed
    · intro i user' there own'
      obtain ⟨old, before, same⟩ := users i user' there
      have here : i = id := inv.only id user i old found own before (same ▸ own')
      rw [table, here, Function.update_self, inv.row id user found own, now, privateRow, privateRow,
        List.foldl_append]
    · intro later
      have before := inv.older id user found
      omega
  · rw [if_neg own] at allowed
    have now : st'.lines session = st.lines session := by
      rw [lines, served, Function.update_of_ne fun same => own same.symm]
    refine ⟨?_, now.symm ▸ inv.kept, ?_, only, ?_, older⟩
    · rw [environ, now, shell_environ]
      exact (inv.environ.assign (Or.inl rfl)).all allowed
    · intro i user' there own'
      obtain ⟨old, before, same⟩ := users i user' there
      have other : i ≠ id := by
        intro here
        subst here
        cases found.symm.trans before
        exact own (same ▸ own')
      rw [table, Function.update_of_ne other, now]
      exact inv.row i old before (same ▸ own')
    · intro later
      rw [now]
      exact inv.fresh (next ▸ later)

theorem redirect_environ (input output error : Fd) (k : Proc) :
    (ChatServer.redirect input output error k).environ = k.environ := by
  cases input <;> cases output <;> cases error <;> rfl

theorem silent_of_announced {k k' : Proc} (h : Announced k k') : Silent k k' := by
  obtain ⟨messages, log, kinds⟩ := h
  refine ⟨messages, log, List.filterMap_eq_nil_iff.mpr fun e member => ?_⟩
  rcases kinds e member with said | sent
  · obtain ⟨text, rfl⟩ := said
    rfl
  · obtain ⟨fd, text, rfl⟩ := sent
    rfl

/-- The rule for a line of any user. -/
theorem EnvInv.line (inv : EnvInv initial session st) (text : Text)
    (known : st.server.sockIDTable.find? fd = some id)
    (found : st.server.users.find? id = some user) :
    Sat (st.step (.line fd text))
      (fun st' => (EnvOk session st (.line fd text) → EnvInv initial session st') ∧
        ForkedIn ((setenvs (parseCommand text).1).foldl assign
          (st.shell fd id user).proc.environ) st.proc st'.proc)
      (fun stopped => ForkedIn ((setenvs (parseCommand text).1).foldl assign
        (st.shell fd id user).proc.environ) st.proc stopped.2) := by
  have serving : (st.shell fd id user).server.getServingUserID fd = id := by
    rw [shell, ChatServer.getServingUserID, known]
    rfl
  have ran := ChatServer.runShell_assigned text (st.shell fd id user) serving
  have begun := shell_log st fd id user
  have records : ∀ {s : ShellState ChatServer} {user' : UserInfo},
      (st.shell fd id user).server.Kept id s.server → s.server.users.find? id = some user' →
      ∀ i record, (stored s id user').users.find? i = some record →
        ∃ before, st.server.users.find? i = some before ∧ record.session = before.session := by
    intro s user' kept found' i record there
    rw [stored, ChatServer.setUser, OrdMap.find?_insert] at there
    split at there
    · rename_i here
      cases there
      obtain ⟨before, old, core⟩ := kept.find_back found'
      exact ⟨before, here ▸ old, congrArg (fun c => c.2.2) core⟩
    · obtain ⟨before, old, core⟩ := kept.find_back there
      exact ⟨before, old, congrArg (fun c => c.2.2) core⟩
  refine serve_sat known found (Sat.mono ran (fun _ h => h) (fun _ h => h.congr begun.symm rfl))
    ?_ ?_ ?_
  · intro s ended
    obtain ⟨-, -, kept, -⟩ := ended
    obtain ⟨user', found', -⟩ := kept.find found
    exact ⟨kept.sockIDTable, user', found'⟩
  · intro s user' ended found' on
    obtain ⟨environ, table, kept, forked⟩ := ended
    refine ⟨fun ok => inv.after found known ok ?_ table (records kept found') rfl rfl, ?_⟩
    · exact (redirect_environ _ _ _ _).trans environ
    · have served : ForkedIn _ st.proc (restored s) :=
        forked.congr begun.symm (ChatServer.redirect_log _ _ _ _)
      exact served.trans (silent_of_announced (.event _ (Or.inr ⟨_, _, rfl⟩))).forkedIn
  · intro s user' messages ended found' off kinds
    obtain ⟨environ, table, kept, forked⟩ := ended
    refine ⟨fun ok => inv.after found known ok ?_ table ?_ rfl rfl, ?_⟩
    · refine ((Proc.SameEnv.close _ _).environ.trans ?_).trans environ
      exact (redirect_environ _ _ _ _).trans (redirect_environ _ _ _ _)
    · intro i record there
      have there' : (if i = id then none else (stored s id user').users.find? i) = some record :=
        (OrdMap.find?_erase _ _ _).symm.trans there
      split at there'
      · cases there'
      · exact records kept found' i record there'
    · have served : ForkedIn _ st.proc (restored s) :=
        forked.congr begun.symm (ChatServer.redirect_log _ _ _ _)
      refine served.trans (ForkedIn.trans ?_ (Silent.close _ _).forkedIn)
      exact (silent_of_announced ⟨messages, rfl, kinds⟩).forkedIn

/-- In a run whose steps respect the user's environment the stores always agree with it. -/
theorem reached_inv {limit : Nat} {canOpen : Text → Bool} {environ : List (Text × Text)}
    (reached : Reached next (EnvOk session) (boot limit canOpen environ) st) :
    EnvInv (boot limit canOpen environ).proc.environ session st := by
  refine reached.invariant (p := EnvInv (boot limit canOpen environ).proc.environ session)
    (boot_inv limit canOpen environ session) ?_
  intro st st' event inv ok stepped
  rw [next_eq_some] at stepped
  cases event with
  | connect ip port => exact inv.connect ok ((connect_sat st ip port).of_ok stepped)
  | line fd text =>
      by_cases somebody : ∃ id user, st.server.sockIDTable.find? fd = some id ∧
          st.server.users.find? id = some user
      · obtain ⟨id, user, known, found⟩ := somebody
        exact ((inv.line text known found).of_ok stepped).1 ok
      · have idle := step_idle text fun id user known found =>
          somebody ⟨id, user, known, found⟩
        rw [idle] at stepped
        cases stepped

end Step

/-- A user in a run whose steps respect his environment sees his own `setenv` commands only. -/
theorem environments_isolated {limit : Nat} {canOpen : Text → Bool} {environ : List (Text × Text)}
    {st : SingleProc} {fd : Nat} {id : Int} {user : UserInfo}
    (reached : Reached next (EnvOk user.session) (boot limit canOpen environ) st)
    (known : st.server.sockIDTable.find? fd = some id)
    (found : st.server.users.find? id = some user) (text : Text) :
    Isolated (boot limit canOpen environ).proc.environ st fd text id user := by
  have inv := reached_inv reached
  have begun : (setenvs (parseCommand text).1).foldl assign (st.shell fd id user).proc.environ =
      privateEnviron (boot limit canOpen environ).proc.environ
        (ownSetenvs (st.lines user.session) ++ setenvs (parseCommand text).1) := by
    rw [inv.begins fd found rfl, privateEnviron, privateEnviron, List.foldl_append]
  constructor
  · have ran := inv.line text known found
    rw [begun] at ran
    exact Sat.mono ran (fun _ h => h.2) (fun _ h => h)
  · intro before env after split s performed
    have assigned := (ChatServer.performAll_assigned id before (st.shell fd id user)).of_ok performed
    have row : s.server.getServingUserEnv id env =
        privateRow (ownSetenvs (st.lines user.session) ++ setenvs before) env := by
      have table : s.server.envTable id =
          (setenvs before).foldl assignRow (st.server.envTable id) := by
        rw [assigned.table, Function.update_self]
        rfl
      rw [ChatServer.getServingUserEnv, table, inv.row id user found rfl, privateRow, privateRow,
        List.foldl_append]
    rw [← row]
    rfl

/-- A server without users, and two logins on the sockets 7 and 8. -/
def atBoot : SingleProc := boot 1024 (fun _ => true) []

def twoLogins : List ServerEvent :=
  [.connect "10.0.0.1".toList 5001, .connect "10.0.0.2".toList 5002]

theorem environments_isolated_second : ∃ st user, runAll next twoLogins atBoot = some st ∧
    st.server.users.find? 2 = some user ∧
      Isolated atBoot.proc.environ st 8 "printenv PATH".toList 2 user := by
  refine ⟨_, _, rfl, rfl, ?_⟩
  exact environments_isolated ((Reached.start.step (e := .connect "10.0.0.1".toList 5001)
    (fun _ => rfl) rfl).step (e := .connect "10.0.0.2".toList 5002) (fun _ => rfl) rfl) rfl rfl _

/-- The environments of the commands that a turn of the loop forks. -/
def childEnvirons (st : SingleProc) (event : ServerEvent) : List (List (Text × Text)) :=
  match st.step event with
  | .ok st' => (forks (st'.proc.log.drop st.proc.log.length)).map Child.environ
  | .error stopped => (forks (stopped.2.log.drop st.proc.log.length)).map Child.environ

/-- The first user sets a variable, or does not; the commands of the second one can tell. -/
theorem setenv_leaks : ∃ quiet loud : SingleProc,
    Reached next (fun _ _ => True) atBoot quiet ∧ Reached next (fun _ _ => True) atBoot loud ∧
      quiet.server.sockIDTable.find? 8 = some 2 ∧ loud.server.sockIDTable.find? 8 = some 2 ∧
      ownSetenvs (quiet.lines 2) = ownSetenvs (loud.lines 2) ∧
      quiet.childEnvirons (.line 8 "ls".toList) ≠ loud.childEnvirons (.line 8 "ls".toList) := by
  have first : (runAll next twoLogins atBoot).map (childEnvirons · (.line 8 "ls".toList)) =
      some [[("PATH".toList, "bin:.".toList)]] := by decide +kernel
  have second : (runAll next (twoLogins ++ [.line 7 "setenv X 1".toList]) atBoot).map
      (childEnvirons · (.line 8 "ls".toList)) =
      some [[("PATH".toList, "bin:.".toList), ("X".toList, "1".toList)]] := by decide +kernel
  obtain ⟨quiet, ran, seen⟩ := Option.map_eq_some_iff.mp first
  obtain ⟨loud, ran', seen'⟩ := Option.map_eq_some_iff.mp second
  have known : (runAll next twoLogins atBoot).map (·.server.sockIDTable.find? 8) =
      some (some 2) := by decide +kernel
  have known' : (runAll next (twoLogins ++ [.line 7 "setenv X 1".toList]) atBoot).map
      (·.server.sockIDTable.find? 8) = some (some 2) := by decide +kernel
  have none : (runAll next twoLogins atBoot).map (·.lines 2) = some [] := by decide +kernel
  have none' : (runAll next (twoLogins ++ [.line 7 "setenv X 1".toList]) atBoot).map
      (·.lines 2) = some [] := by decide +kernel
  rw [ran, Option.map_some, Option.some.injEq] at known none
  rw [ran', Option.map_some, Option.some.injEq] at known' none'
  refine ⟨quiet, loud, Reached.start.runAll ran, Reached.start.runAll ran', known, known', ?_, ?_⟩
  · rw [none, none']
  · rw [seen, seen']
    decide

end SingleProc

end NetProg
