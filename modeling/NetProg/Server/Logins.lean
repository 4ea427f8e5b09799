import NetProg.Lib.Roster
import NetProg.Server.UserIds

/-!
# Logins, renames and logouts

`addUser`, `Name` and `removeUser` of `np_single_proc`, one after the other.  The tables `users`
and `sockID_table` stay inverse to each other, a login gets the least free id, and what an
operation is not about stays as it was.
-/

namespace NetProg

open ChatServer

inductive LoginOp where
  | addUser (session : Nat) (ip : Text) (port : Int) (sock : Nat) (pid : Int)
  | rename (id : Int) (name : Text)
  | removeUser (sock : Nat)

namespace LoginOp

def step (st : Proc × ChatServer) : LoginOp → Outcome (Proc × ChatServer)
  | .addUser session ip port sock pid => .ok (ChatServer.addUser session ip port sock pid st.1 st.2)
  | .rename id name => st.2.name id name st.1
  | .removeUser sock => ChatServer.removeUser sock st.1 st.2

/-- A step that ends. -/
def next (st : Proc × ChatServer) (op : LoginOp) : Option (Proc × ChatServer) :=
  (op.step st).toOption

/-- A socket is registered once; a name is a C string that fits into its array. -/
def Enabled (st : Proc × ChatServer) : LoginOp → Prop
  | .addUser _ _ _ sock _ => st.2.sockIDTable.find? sock = none
  | .rename id name => (∃ user, st.2.users.find? id = some user) ∧ '\x00' ∉ name ∧
      name.length < maxUserNameLen
  | .removeUser sock => ∃ id, st.2.sockIDTable.find? sock = some id

end LoginOp

namespace ChatServer

/-- Sockets and ids of connected users, each the other's. -/
def Inverse (server : ChatServer) : Prop :=
  ∀ sock id, server.sockIDTable.find? sock = some id ↔
    ∃ user, server.users.find? id = some user ∧ user.sock = sock

/-- The least positive id that nobody holds. -/
structure LeastFree (server : ChatServer) (id : Int) : Prop where
  positive : 1 ≤ id
  free : server.users.find? id = none
  least : ∀ i, 1 ≤ i → i < id → ∃ user, server.users.find? i = some user

/-- All entries but those of one user and one socket are the same. -/
structure OthersKept (old new : ChatServer) (id : Int) (sock : Nat) : Prop where
  users : ∀ i, i ≠ id → new.users.find? i = old.users.find? i
  socks : ∀ s, s ≠ sock → new.sockIDTable.find? s = old.sockIDTable.find? s

theorem Tidy.inverse {server : ChatServer} (tidy : server.Tidy) : server.Inverse := by
  intro sock id
  constructor
  · exact tidy.userOfSock sock id
  · intro found
    obtain ⟨user, there, own⟩ := found
    rw [← own]
    exact tidy.sockOfUser id user there

/-- The loop of `addUser` passes only keys. -/
theorem minKey_least {keys : List Int} {key i : Int} (ordered : keys.Pairwise (· < ·))
    (above : ∀ id ∈ keys, key ≤ id) (low : key ≤ i) (below : i < minKey keys key) : i ∈ keys := by
  induction keys generalizing key with
  | nil =>
      rw [minKey] at below
      omega
  | cons id rest ih =>
      have first := above id List.mem_cons_self
      rw [minKey] at below
      split at below
      · omega
      · by_cases here : i = id
        · exact here ▸ List.mem_cons_self
        · apply List.mem_cons_of_mem
          apply ih (List.pairwise_cons.mp ordered).2 ?_ ?_ below
          · intro other member
            have later := (List.pairwise_cons.mp ordered).1 other member
            omega
          · omega

theorem nextID_leastFree {server : ChatServer} (tidy : server.Tidy) :
    server.LeastFree server.nextID := by
  have spec := nextID_spec tidy
  constructor
  · exact spec.1
  · exact spec.2.2
  · intro i low below
    apply OrdMap.mem_keys.mp
    apply minKey_least server.keys_ordered ?_ low below
    intro id member
    obtain ⟨user, found⟩ := OrdMap.mem_keys.mp member
    exact tidy.positive id user found

/-- The names of the connected users. -/
def roster (server : ChatServer) : Roster Int Text := fun id =>
  (server.users.find? id).bind fun user => if user.isConnected then some user.name else none

section name

variable {server : ChatServer} {id : Int} {name : Text} {user : UserInfo} {k : Proc}

theorem roster_eq_some {i : Int} : server.roster i = some name ↔
    ∃ user, server.users.find? i = some user ∧ user.isConnected = true ∧ user.name = name := by
  rw [roster, Option.bind_eq_some_iff]
  apply exists_congr
  intro user
  by_cases on : user.isConnected = true
  · simp [on]
  · simp [on]

/-- The scan of `Name` finds the name if and only if somebody has it. -/
theorem nameTaken_iff : server.users.entries.any (fun entry =>
    entry.2.isConnected && entry.2.name == name) = true ↔ ∃ i, server.roster i = some name := by
  rw [List.any_eq_true]
  constructor
  · intro found
    obtain ⟨entry, member, same⟩ := found
    rw [Bool.and_eq_true, beq_iff_eq] at same
    exact ⟨entry.1, roster_eq_some.mpr ⟨entry.2, OrdMap.mem_entries.mp member, same⟩⟩
  · intro taken
    obtain ⟨i, there⟩ := taken
    obtain ⟨user, found, on, same⟩ := roster_eq_some.mp there
    refine ⟨(i, user), OrdMap.mem_entries.mpr found, ?_⟩
    rw [on, same, beq_self_eq_true]
    rfl

/-- What a user is told whose name was refused. -/
def takenMsg (name : Text) : Text := "*** User '".toList ++ name ++ "' already exists. ***\n".toList

theorem name_taken (taken : ∃ i, server.roster i = some name) :
    server.name id name k = .ok (k.logEvent (.cout (takenMsg name)), server) := by
  rw [ChatServer.name, if_pos (nameTaken_iff.mpr taken)]
  rfl

theorem name_free (free : ∀ i, server.roster i ≠ some name)
    (found : server.users.find? id = some user) (plain : '\x00' ∉ name)
    (short : name.length < maxUserNameLen) :
    server.name id name k =
      .ok ((server.setUser id { user with name }).broadcastMessage
          (nameMsg user.ip user.port name) k, server.setUser id { user with name }) := by
  have nobody : ¬ ∃ i, server.roster i = some name := by
    intro taken
    obtain ⟨i, there⟩ := taken
    exact free i there
  rw [ChatServer.name, if_neg (fun taken => nobody (nameTaken_iff.mp taken)), ChatServer.user, found]
  simp only [bind, Except.bind, Text.cString_of_plain plain]
  rw [if_neg (Nat.not_le.mpr short)]

end name

/-- `"(no name)"`. -/
def noName : Text := "(no name)".toList

/-- What the three operations keep: the tables agree, whoever is in them is connected, and no two
users share a name of their own. -/
structure Settled (server : ChatServer) : Prop where
  tidy : server.Tidy
  on : ∀ id user, server.users.find? id = some user → user.isConnected = true
  names : server.roster.UniqueBut noName

section Settled

variable {server : ChatServer} {id : Int} {user : UserInfo} {sock : Nat} {name : Text}

theorem init_settled (serverIn serverOut serverErr : Fd) :
    (init serverIn serverOut serverErr).Settled := by
  constructor
  · exact init_tidy serverIn serverOut serverErr
  · intro id user found
    cases found
  · exact Roster.uniqueBut_nobody

theorem addUser_roster (session : Nat) (ip : Text) (port : Int) (sock : Nat) (pid : Int) (k : Proc) :
    (addUser session ip port sock pid k server).2.roster =
      server.roster.put server.nextID (some noName) := by
  funext i
  rw [roster, addUser_users]
  by_cases here : i = server.nextID
  · subst here
    rw [if_pos rfl, Roster.put_same]
    rfl
  · rw [if_neg here, Roster.put_of_ne here]
    rfl

theorem setUser_roster (user : UserInfo) : (server.setUser id user).roster =
    server.roster.put id (if user.isConnected then some user.name else none) := by
  funext i
  rw [roster, setUser, OrdMap.find?_insert]
  by_cases here : i = id
  · subst here
    rw [if_pos rfl, Roster.put_same]
    rfl
  · rw [if_neg here, Roster.put_of_ne here]
    rfl

theorem dropUser_roster : (server.dropUser sock id).roster = server.roster.put id none := by
  funext i
  rw [roster, dropUser, OrdMap.find?_erase]
  by_cases here : i = id
  · subst here
    rw [if_pos rfl, Roster.put_same]
    rfl
  · rw [if_neg here, Roster.put_of_ne here]
    rfl

theorem Settled.addUser (settled : server.Settled) (unknown : server.sockIDTable.find? sock = none)
    (session : Nat) (ip : Text) (port pid : Int) (k : Proc) :
    (addUser session ip port sock pid k server).2.Settled := by
  constructor
  · exact addUser_tidy settled.tidy unknown
  · intro id user found
    rw [addUser_users] at found
    split at found
    · cases found
      rfl
    · exact settled.on id user found
  · rw [addUser_roster]
    exact settled.names.enter

theorem Settled.rename (settled : server.Settled) (found : server.users.find? id = some user)
    (free : ∀ i, server.roster i ≠ some name) : (server.setUser id { user with name }).Settled := by
  constructor
  · exact settled.tidy.setUser found rfl
  · intro id' user' found'
    rw [setUser, OrdMap.find?_insert] at found'
    split at found'
    · cases found'
      exact settled.on id user found
    · exact settled.on id' user' found'
  · rw [setUser_roster, if_pos (settled.on id user found)]
    exact settled.names.rename free

theorem Settled.dropUser (settled : server.Settled) (found : server.users.find? id = some user)
    (own : user.sock = sock) : (server.dropUser sock id).Settled := by
  constructor
  · exact dropUser_tidy settled.tidy found own
  · intro id' user' found'
    rw [ChatServer.dropUser, OrdMap.find?_erase] at found'
    split at found'
    · cases found'
    · exact settled.on id' user' found'
  · rw [dropUser_roster]
    exact settled.names.leave

end Settled

end ChatServer

namespace LoginOp

/-- What an operation does to the tables, and that it does no more. -/
def Changes (st st' : Proc × ChatServer) : LoginOp → Prop
  | .addUser session ip port sock pid => ∃ id, st.2.LeastFree id ∧
      st.2.OthersKept st'.2 id sock ∧
      st'.2.users.find? id = some (newUser session ip port sock pid) ∧
      st'.2.sockIDTable.find? sock = some id
  | .rename id _ => st'.2.sockIDTable = st.2.sockIDTable ∧
      (∀ i, i ≠ id → st'.2.users.find? i = st.2.users.find? i) ∧
      ∃ user name, st.2.users.find? id = some user ∧
        st'.2.users.find? id = some { user with name }
  | .removeUser sock => ∃ id, st.2.sockIDTable.find? sock = some id ∧
      st.2.OthersKept st'.2 id sock ∧ st'.2.users.find? id = none ∧
      st'.2.sockIDTable.find? sock = none

variable {st : Proc × ChatServer} {k : Proc}

theorem addUser_spec {session : Nat} {ip : Text} {port pid : Int} {sock : Nat}
    (settled : st.2.Settled) (enabled : Enabled st (.addUser session ip port sock pid)) :
    Sat (step st (.addUser session ip port sock pid))
      (fun st' => st'.2.Settled ∧ Changes st st' (.addUser session ip port sock pid))
      (fun _ => False) := by
  refine ⟨settled.addUser enabled session ip port pid st.1, st.2.nextID,
    nextID_leastFree settled.tidy, ?_, ?_, ?_⟩
  · constructor
    · intro i other
      exact (addUser_users i).trans (if_neg other)
    · intro s other
      exact (addUser_socks s).trans (if_neg other)
  · exact (addUser_users _).trans (if_pos rfl)
  · exact (addUser_socks _).trans (if_pos rfl)

theorem rename_spec {id : Int} {name : Text} (settled : st.2.Settled)
    (enabled : Enabled st (.rename id name)) :
    Sat (step st (.rename id name)) (fun st' => st'.2.Settled ∧ Changes st st' (.rename id name))
      (fun _ => False) := by
  obtain ⟨⟨user, found⟩, plain, short⟩ := enabled
  by_cases taken : ∃ i, st.2.roster i = some name
  · rw [step, name_taken taken]
    exact ⟨settled, rfl, fun _ _ => rfl, user, user.name, found, found⟩
  · have free : ∀ i, st.2.roster i ≠ some name := fun i there => taken ⟨i, there⟩
    rw [step, name_free free found plain short]
    refine ⟨settled.rename found free, rfl, ?_, user, name, found, ?_⟩
    · intro i other
      exact (OrdMap.find?_insert ..).trans (if_neg other)
    · exact (OrdMap.find?_insert ..).trans (if_pos rfl)

theorem removeUser_spec {sock : Nat} (settled : st.2.Settled)
    (enabled : Enabled st (.removeUser sock)) :
    Sat (step st (.removeUser sock)) (fun st' => st'.2.Settled ∧ Changes st st' (.removeUser sock))
      (fun _ => False) := by
  obtain ⟨id, known⟩ := enabled
  obtain ⟨user, found, own⟩ := settled.tidy.userOfSock sock id known
  obtain ⟨messages, -, ended⟩ := ChatServer.removeUser_spec (k := st.1) known found
  rw [step, ended]
  refine ⟨settled.dropUser found own, id, known, ?_, ?_, ?_⟩
  · constructor
    · intro i other
      exact (OrdMap.find?_erase ..).trans (if_neg other)
    · intro s other
      exact (OrdMap.find?_erase ..).trans (if_neg other)
  · exact (OrdMap.find?_erase ..).trans (if_pos rfl)
  · exact (OrdMap.find?_erase ..).trans (if_pos rfl)

/-- What one operation does. -/
theorem step_spec (settled : st.2.Settled) {op : LoginOp} (enabled : op.Enabled st) :
    Sat (op.step st) (fun st' => st'.2.Settled ∧ op.Changes st st') (fun _ => False) := by
  cases op with
  | addUser session ip port sock pid => exact addUser_spec settled enabled
  | rename id name => exact rename_spec settled enabled
  | removeUser sock => exact removeUser_spec settled enabled

theorem next_settled {st' : Proc × ChatServer} (settled : st.2.Settled) {op : LoginOp}
    (enabled : op.Enabled st) (stepped : next st op = some st') : st'.2.Settled := by
  have spec := step_spec settled enabled
  rw [next] at stepped
  cases ended : op.step st with
  | error stopped =>
      rw [ended] at stepped
      cases stepped
  | ok result =>
      rw [ended] at stepped
      cases stepped
      exact (spec.of_ok ended).1

theorem reached_settled {serverIn serverOut serverErr : Fd}
    (reached : Reached next Enabled (k, .init serverIn serverOut serverErr) st) :
    st.2.Settled := by
  apply reached.invariant (p := fun st => st.2.Settled)
  · exact init_settled serverIn serverOut serverErr
  · intro st st' op settled enabled stepped
    exact next_settled settled enabled stepped

end LoginOp

/-- After any logins and logouts the two tables are inverse to each other, and the next operation
changes what it is about and nothing else. -/
theorem tables_consistent {k : Proc} {serverIn serverOut serverErr : Fd} {st : Proc × ChatServer}
    (reached : Reached LoginOp.next LoginOp.Enabled (k, .init serverIn serverOut serverErr) st) :
    st.2.Inverse ∧ ∀ op : LoginOp, op.Enabled st →
      Sat (op.step st) (fun st' => op.Changes st st' ∧ st'.2.Inverse) (fun _ => False) := by
  have settled := LoginOp.reached_settled reached
  refine ⟨settled.tidy.inverse, ?_⟩
  intro op enabled
  apply (LoginOp.step_spec settled enabled).mono
  · intro st' both
    exact ⟨both.2, both.1.tidy.inverse⟩
  · intro stopped never
    exact never

theorem tables_consistent_one : ∃ st, LoginOp.next
    (.start 1024 (fun _ => true) [], .init (some 3) (some 4) (some 5))
      (.addUser 1 "10.0.0.1".toList 5001 6 (-1)) = some st ∧
    st.2.Inverse ∧ ∀ op : LoginOp, op.Enabled st →
      Sat (op.step st) (fun st' => op.Changes st st' ∧ st'.2.Inverse) (fun _ => False) :=
  ⟨_, rfl, tables_consistent (Reached.start.step
    (e := .addUser 1 "10.0.0.1".toList 5001 6 (-1)) rfl rfl)⟩

end NetProg
