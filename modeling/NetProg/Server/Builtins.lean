import NetProg.Server.UserPipeSpec
import NetProg.Server.Users

/-!
# What the built-in commands do

Only `exit` touches descriptors.  The others write messages and change the name of their user or a
variable, in the row of `env_table` and in the environment of the process.
-/

namespace NetProg

/-- The `setenv` commands among built-in commands. -/
def setenvs (builtins : List Builtin) : List (Text × Text) :=
  builtins.filterMap fun
    | .setenv env var => some (env, var)
    | _ => none

/-- `setenv` refuses the name. -/
def Refused (env : Text) : Prop := Text.cString env = [] ∨ '=' ∈ Text.cString env

instance (env : Text) : Decidable (Refused env) := by
  unfold Refused
  infer_instance

/-- What `setenv` makes of an environment. -/
def assign (environ : List (Text × Text)) (entry : Text × Text) : List (Text × Text) :=
  if Refused entry.1 then environ
  else Proc.assignEnv (Text.cString entry.1) (Text.cString entry.2) environ

/-- What it makes of a row of `env_table`. -/
def assignRow (row : Text → Text) (entry : Text × Text) : Text → Text :=
  fun env => if env = entry.1 then entry.2 else row env

theorem setenv_rest (k : Proc) (env var : Text) :
    k.setenv env var = { k with environ := assign k.environ (env, var) } := by
  rw [assign]
  by_cases refused : Refused env
  · rw [if_pos refused]
    exact if_pos refused
  · rw [if_neg refused]
    exact if_neg refused

/-- The members that no message and no assignment changes, with the messages in the log. -/
structure Proc.Spoke (k k' : Proc) : Prop where
  fds : k'.fds = k.fds
  steps : Proc.Steps k k' []

namespace Proc.Spoke

variable {k k' k'' : Proc}

theorem refl (k : Proc) : Proc.Spoke k k := ⟨rfl, .refl k⟩

theorem trans (h : Proc.Spoke k k') (h' : Proc.Spoke k' k'') : Proc.Spoke k k'' :=
  ⟨h'.fds.trans h.fds, h.steps.trans h'.steps⟩

theorem cout (k : Proc) (message : Text) : Proc.Spoke k (k.logEvent (.cout message)) :=
  ⟨rfl, Proc.Steps.cout k message⟩

theorem send (k : Proc) (fd : Int) (message : Text) :
    Proc.Spoke k (k.logEvent (.send fd message)) :=
  ⟨rfl, Proc.Steps.send k fd message⟩

theorem setenv (k : Proc) (env var : Text) : Proc.Spoke k (k.setenv env var) := by
  rw [setenv_rest]
  exact ⟨rfl, Proc.Steps.quiet rfl rfl rfl (Nat.le_refl _) rfl⟩

end Proc.Spoke

/-- A record whose user pipes and connection stay can be replaced. -/
theorem MailAgrees.setUser {server : ChatServer} {mail : Held} (h : MailAgrees server mail)
    {id : Int} {user user' : UserInfo} (found : server.users.find? id = some user)
    (session : user'.session = user.session) (boxes : user'.userPipes = user.userPipes) :
    MailAgrees (server.setUser id user') mail := by
  obtain ⟨parts, agrees, rfl⟩ := h
  refine ⟨parts, ?_, ?_⟩
  · intro uid user'' found' i
    rw [ChatServer.setUser, OrdMap.find?_insert] at found'
    split at found'
    · rename_i same
      cases found'
      rw [session, boxes, same]
      exact agrees id user found i
    · exact agrees uid user'' found' i
  · rw [ChatServer.setUser, OrdMap.total_insert]
    exact OrdMap.total_split _ found

theorem ChatServer.Kept.setUser {server : ChatServer} {id uid : Int} {user user' : UserInfo}
    (found : server.users.find? uid = some user) (core : user'.core = user.core)
    (boxes : user'.userPipes = user.userPipes) : Kept id server (server.setUser uid user') := by
  refine ⟨rfl, rfl, rfl, rfl, fun uid' => ?_, fun uid' user'' found' i full => ?_⟩
  · rw [ChatServer.setUser, OrdMap.find?_insert]
    split
    · rename_i same
      rw [same, found, Option.map_some, Option.map_some, core]
    · rfl
  · rw [ChatServer.setUser, OrdMap.find?_insert] at found'
    split at found'
    · rename_i same
      cases found'
      rw [boxes] at full
      exact Or.inr ⟨user, same ▸ found, full⟩
    · exact Or.inr ⟨user'', found', full⟩

/-- What commands other than `exit` do, given their assignments. -/
structure Told (id : Int) (assigned : List (Text × Text)) (s r : ShellState ChatServer) : Prop where
  handler : r.handler = s.handler
  proc : Proc.Spoke s.proc r.proc
  environ : r.proc.environ = assigned.foldl assign s.proc.environ
  table : r.server.envTable =
    Function.update s.server.envTable id (assigned.foldl assignRow (s.server.envTable id))
  kept : s.server.Kept id r.server
  mail : ∀ mail, MailAgrees s.server mail → MailAgrees r.server mail

namespace Told

variable {id : Int} {s : ShellState ChatServer}

/-- A command that only speaks. -/
theorem spoke {k : Proc} (h : Proc.Spoke s.proc k) (environ : k.environ = s.proc.environ) :
    Told id [] s { s with proc := k } :=
  ⟨rfl, h, environ, (Function.update_eq_self _ _).symm, .refl id _, fun _ agrees => agrees⟩

theorem refl (id : Int) (s : ShellState ChatServer) : Told id [] s s := spoke (.refl s.proc) rfl

end Told

namespace ChatServer

variable {id : Int} {s : ShellState ChatServer}

theorem broadcastMessage_spoke (server : ChatServer) (msg : Text) (k : Proc) :
    Proc.Spoke k (server.broadcastMessage msg k) :=
  ⟨rfl, broadcastMessage_steps server msg k⟩

theorem who_spoke (server : ChatServer) (id : Int) (k : Proc) :
    Proc.Spoke k (server.who id k) := by
  refine (Proc.Spoke.cout k _).trans ⟨rfl, rfl, rfl, rfl, Nat.le_refl _, _, rfl, ?_, ?_⟩
  · intro e member
    obtain ⟨entry, -, rfl⟩ := List.mem_map.mp member
    trivial
  · simp [forks, List.filterMap_map]

theorem tell_spoke (server : ChatServer) (id uid : Int) (msg : Text) (k : Proc) :
    Sat (server.tell id uid msg k) (fun k' => Proc.Spoke k k' ∧ k'.environ = k.environ)
      (fun stopped => stopped = (.undefined, k)) := by
  unfold tell
  cases server.users.find? uid with
  | none => exact ⟨.cout k _, rfl⟩
  | some receiver =>
      refine Sat.bind (Sat.mono (user_spec server id k) (fun _ h => h) (fun _ h => h.1)) ?_
      intro user _
      exact ⟨.send k _ _, rfl⟩

theorem yell_spoke (server : ChatServer) (id : Int) (msg : Text) (k : Proc) :
    Sat (server.yell id msg k) (fun k' => Proc.Spoke k k' ∧ k'.environ = k.environ)
      (fun stopped => stopped = (.undefined, k)) := by
  unfold yell
  refine Sat.bind (Sat.mono (user_spec server id k) (fun _ h => h) (fun _ h => h.1)) ?_
  intro user _
  exact ⟨broadcastMessage_spoke server _ k, rfl⟩

/-- The rule for a built-in command other than `exit`. -/
theorem perform_told {builtin : Builtin} (other : builtin ≠ .exit) :
    Sat (perform id builtin s) (Told id (setenvs [builtin]) s)
      (fun stopped => stopped = (.undefined, s.proc)) := by
  cases builtin with
  | exit => exact absurd rfl other
  | printenv env =>
      show Told id [] s _
      split
      · exact .refl id s
      · exact .spoke (.cout s.proc _) rfl
  | setenv env var =>
      refine ⟨rfl, .setenv s.proc env var, ?_, ?_, ?_, fun _ agrees => agrees⟩
      · exact setenv_rest s.proc env var ▸ rfl
      · funext id' env'
        show (if id' = id ∧ env' = env then var else s.server.envTable id' env') = _
        by_cases same : id' = id
        · subst same
          simp [setenvs, assignRow]
        · simp [same]
      · exact ⟨rfl, rfl, rfl, rfl, fun _ => rfl, fun _ user found _ full => Or.inr ⟨user, found, full⟩⟩
  | who => exact .spoke (who_spoke s.server id s.proc) rfl
  | tell uid message =>
      cases uid with
      | none => rfl
      | some uid =>
          refine Sat.bind (tell_spoke s.server id uid message s.proc) fun k said => ?_
          exact .spoke said.1 said.2
  | yell message =>
      refine Sat.bind (yell_spoke s.server id message s.proc) fun k said => ?_
      exact .spoke said.1 said.2
  | name name =>
      refine Sat.bind (?_ : Sat (s.server.name id name s.proc)
        (fun r => Told id [] s { s with proc := r.1, server := r.2 }) _) fun r said => said
      unfold ChatServer.name
      split
      · exact .spoke (.cout s.proc _) rfl
      · refine Sat.bind (Sat.mono (user_spec s.server id s.proc) (fun _ h => h)
          (fun _ h => h.1)) fun user found => ?_
        dsimp only
        split
        · rfl
        · have sent := broadcastMessage_spoke (s.server.setUser id { user with
            name := Text.cString name }) (nameMsg user.ip user.port name) s.proc
          exact ⟨rfl, sent, rfl, (Function.update_eq_self _ _).symm, .setUser found rfl rfl,
            fun _ agrees => agrees.setUser found rfl rfl⟩

end ChatServer

end NetProg
