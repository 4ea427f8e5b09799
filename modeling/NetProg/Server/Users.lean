import NetProg.Server.ChatServer

/-!
# The tables of the chat server

`users` and `sockID_table` describe the same connections: `Tidy` is what `addUser` and
`removeUser` keep of them.  The loop of `addUser` finds the least positive id that nobody holds.
-/

namespace NetProg

/-- The two tables agree, and ids are positive. -/
structure ChatServer.Tidy (server : ChatServer) : Prop where
  positive : ∀ id user, server.users.find? id = some user → 1 ≤ id
  userOfSock : ∀ sock id, server.sockIDTable.find? sock = some id →
    ∃ user, server.users.find? id = some user ∧ user.sock = sock
  sockOfUser : ∀ id user, server.users.find? id = some user →
    server.sockIDTable.find? user.sock = some id

namespace ChatServer

theorem init_tidy (serverIn serverOut serverErr : Fd) :
    (init serverIn serverOut serverErr).Tidy := by
  constructor
  · intro id user found
    cases found
  · intro sock id found
    cases found
  · intro id user found
    cases found

/-- The loop stops at a key that is free and not above the number of keys. -/
theorem minKey_spec {keys : List Int} {key : Int} (ordered : keys.Pairwise (· < ·))
    (above : ∀ id ∈ keys, key ≤ id) :
    key ≤ minKey keys key ∧ minKey keys key ≤ key + keys.length ∧ minKey keys key ∉ keys := by
  induction keys generalizing key with
  | nil => simp [minKey]
  | cons id rest ih =>
      obtain ⟨below, tail⟩ := List.pairwise_cons.mp ordered
      simp only [minKey]
      have first := above id List.mem_cons_self
      by_cases gap : key < id
      · rw [if_pos gap]
        refine ⟨le_refl _, by rw [List.length_cons]; push_cast; omega, ?_⟩
        intro member
        rcases List.mem_cons.mp member with equal | member
        · omega
        · have later := below key member
          omega
      · rw [if_neg gap]
        have least : ∀ other ∈ rest, key + 1 ≤ other := by
          intro other member
          have later := below other member
          omega
        obtain ⟨low, high, absent⟩ := ih tail least
        refine ⟨by omega, by rw [List.length_cons]; push_cast; omega, ?_⟩
        intro member
        rcases List.mem_cons.mp member with equal | member
        · omega
        · exact absent member

/-- The id that `addUser` hands out. -/
def nextID (server : ChatServer) : Int := minKey server.users.keys 1

theorem keys_ordered (server : ChatServer) : server.users.keys.Pairwise (· < ·) := by
  rw [OrdMap.keys, List.pairwise_map]
  exact server.users.ordered

/-- The new id is positive, free and not above the number of users by more than one. -/
theorem nextID_spec {server : ChatServer} (tidy : server.Tidy) :
    1 ≤ server.nextID ∧ server.nextID ≤ 1 + server.users.keys.length ∧
      server.users.find? server.nextID = none := by
  have positive : ∀ id ∈ server.users.keys, 1 ≤ id := by
    intro id member
    obtain ⟨user, found⟩ := OrdMap.mem_keys.mp member
    exact tidy.positive id user found
  obtain ⟨low, high, absent⟩ := minKey_spec server.keys_ordered positive
  refine ⟨low, high, ?_⟩
  cases found : server.users.find? server.nextID with
  | none => rfl
  | some user => exact absurd (OrdMap.mem_keys.mpr ⟨user, found⟩) absent

/-- The record `addUser` makes. -/
def newUser (session : Nat) (ip : Text) (port : Int) (sock : Nat) (pid : Int) : UserInfo where
  handler := .init
  userPipes := fun _ => .cleared
  port := port
  sock := sock
  pid := pid
  ip := (Text.cString ip).take (ipLen - 1)
  name := "(no name)".toList
  isConnected := true
  session := session

section Tables

variable {server : ChatServer} {session : Nat} {ip : Text} {port : Int} {sock : Nat} {pid : Int}
  {k : Proc}

theorem addUser_users (id : Int) :
    (addUser session ip port sock pid k server).2.users.find? id =
      if id = server.nextID then some (newUser session ip port sock pid)
      else server.users.find? id := by
  simp only [addUser, OrdMap.find?_insert, nextID, newUser]
  congr

theorem addUser_socks (sock' : Nat) :
    (addUser session ip port sock pid k server).2.sockIDTable.find? sock' =
      if sock' = sock then some server.nextID else server.sockIDTable.find? sock' := by
  simp only [addUser, OrdMap.find?_insert, nextID]

theorem addUser_tidy (tidy : server.Tidy) (unknown : server.sockIDTable.find? sock = none) :
    (addUser session ip port sock pid k server).2.Tidy := by
  obtain ⟨low, -, free⟩ := nextID_spec tidy
  refine ⟨?_, ?_, ?_⟩
  · intro id user found
    rw [addUser_users] at found
    split at found
    · omega
    · exact tidy.positive id user found
  · intro sock' id found
    rw [addUser_socks] at found
    simp only [addUser_users]
    split at found
    · cases found
      exact ⟨_, if_pos rfl, by subst sock'; rfl⟩
    · obtain ⟨user, found', own⟩ := tidy.userOfSock sock' id found
      have other : id ≠ server.nextID := by
        rintro rfl
        rw [free] at found'
        cases found'
      exact ⟨user, by rw [if_neg other]; exact found', own⟩
  · intro id user found
    rw [addUser_users] at found
    rw [addUser_socks]
    split at found
    · rename_i same
      cases found
      exact (if_pos rfl).trans (by rw [same])
    · have known := tidy.sockOfUser id user found
      have other : user.sock ≠ sock := by
        intro same
        rw [same, unknown] at known
        cases known
      rw [if_neg other]
      exact known

/-- The tables without one connection. -/
def dropUser (server : ChatServer) (sock : Nat) (id : Int) : ChatServer :=
  { server with users := server.users.erase id, sockIDTable := server.sockIDTable.erase sock }

theorem dropUser_tidy {id : Int} {user : UserInfo} (tidy : server.Tidy)
    (found : server.users.find? id = some user) (own : user.sock = sock) :
    (server.dropUser sock id).Tidy := by
  refine ⟨?_, ?_, ?_⟩
  · intro id' user' found'
    simp only [dropUser, OrdMap.find?_erase] at found'
    split at found'
    · cases found'
    · exact tidy.positive id' user' found'
  · intro sock' id' found'
    simp only [dropUser, OrdMap.find?_erase] at found' ⊢
    split at found'
    · cases found'
    · rename_i different
      obtain ⟨user', found'', own'⟩ := tidy.userOfSock sock' id' found'
      have other : id' ≠ id := by
        rintro rfl
        cases found.symm.trans found''
        exact different (own'.symm.trans own)
      exact ⟨user', by rw [if_neg other]; exact found'', own'⟩
  · intro id' user' found'
    simp only [dropUser, OrdMap.find?_erase] at found' ⊢
    split at found'
    · cases found'
    · rename_i different
      have known := tidy.sockOfUser id' user' found'
      have other : user'.sock ≠ sock := by
        intro same
        rw [same, ← own, tidy.sockOfUser id user found] at known
        exact different (Option.some.inj known).symm
      rw [if_neg other]
      exact known

@[simp] theorem redirect_log (input output error : Fd) (k : Proc) :
    (redirect input output error k).log = k.log := by
  cases input <;> cases output <;> cases error <;> rfl

/-- `removeUser` of a registered socket does not stop; it logs messages and the close of the
socket. -/
theorem removeUser_spec {id : Int} {user : UserInfo}
    (known : server.sockIDTable.find? sock = some id)
    (found : server.users.find? id = some user) :
    ∃ messages : List Event,
      (∀ e ∈ messages, (∃ text, e = .cout text) ∨ ∃ fd text, e = .send fd text) ∧
      removeUser sock k server = .ok
        (({ redirect server.serverIn server.serverOut server.serverErr k with
            log := k.log ++ messages } : Proc).close (some sock), server.dropUser sock id) := by
  have served : server.getServingUserID sock = id := by
    rw [getServingUserID, known]
    rfl
  refine ⟨[.cout (user.name ++ " close connection from ip ".toList ++ user.ip ++
      ", port ".toList ++ Text.decimal user.port ++ "\n".toList),
    .cout ("remove user ".toList ++ Text.decimal id ++ "\n".toList)] ++
    (server.dropUser sock id).users.entries.map
      (fun entry => .send entry.2.sock (logoutMsg user.name)), ?_, ?_⟩
  · intro e member
    rcases List.mem_append.mp member with member | member
    · rcases List.mem_pair.mp member with rfl | rfl
      all_goals exact Or.inl ⟨_, rfl⟩
    · obtain ⟨entry, _, rfl⟩ := List.mem_map.mp member
      exact Or.inr ⟨_, _, rfl⟩
  · simp only [removeUser, served, ChatServer.user, found]
    simp only [bind, Except.bind, broadcastMessage, Proc.logEvent, redirect_log, dropUser,
      List.append_assoc]
    rfl

end Tables

end ChatServer

end NetProg
