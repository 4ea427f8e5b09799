import NetProg.Server.Logins
import NetProg.Server.ShmUserIds

/-!
# Names of users

In both builds the names of connected users differ, except for those who never gave themselves
one.  A refused `Name` leaves everything as it was, and an accepted one tells everybody once.
-/

namespace NetProg

open ChatServer (noName takenMsg nameMsg logoutMsg)

namespace ShmServer

/-- The slots where somebody is connected. -/
def isOn (server : ShmServer) (id : Int) : Bool := (server.users id).any ShmUser.isConnected

/-- A record after a broadcast. -/
def delivered (msg : Text) (user : ShmUser) : ShmUser :=
  if user.isConnected then { user with buffer := Mailboxes.formatted msg } else user

/-- The names of the connected users. -/
def roster (server : ShmServer) : Roster Int Text := fun id =>
  (server.users id).bind fun user => if user.isConnected then some user.name else none

/-- All records after a broadcast. -/
def told (msg : Text) (server : ShmServer) : ShmServer where
  users := fun i => (server.users i).map (delivered msg)
  fifos := server.fifos
  touched := server.touched ++ slots.filter server.isOn

section Broadcast

variable {server : ShmServer} {id : Int} {msg : Text} {k : Proc} {user : ShmUser}

theorem isConnected_found (found : server.users id = some user) :
    server.isConnected id k = .ok user.isConnected := by
  rw [isConnected, found]

theorem user_ok (found : server.users id = some user) :
    server.user id k = .ok (user, { server with touched := server.touched ++ [id] }) := by
  rw [ShmServer.user, found]

theorem isOn_found (found : server.users id = some user) : server.isOn id = user.isConnected := by
  rw [isOn, found]
  rfl

@[simp] theorem delivered_isConnected (msg : Text) (user : ShmUser) :
    (delivered msg user).isConnected = user.isConnected := by
  unfold delivered
  split <;> rfl

@[simp] theorem delivered_name (msg : Text) (user : ShmUser) :
    (delivered msg user).name = user.name := by
  unfold delivered
  split <;> rfl

theorem delivered_off (off : user.isConnected = false) : delivered msg user = user := by
  rw [delivered, if_neg (by rw [off]; exact Bool.false_ne_true)]

theorem delivered_twice (msg : Text) (user : ShmUser) :
    delivered msg (delivered msg user) = delivered msg user := by
  by_cases on : user.isConnected = true
  · simp only [delivered, if_pos on]
  · rw [delivered_off (delivered_isConnected msg user ▸ eq_false_of_ne_true on)]

/-- The records after the first receivers have got the message. -/
def toldTo (msg : Text) (receivers : List Int) (server : ShmServer) : ShmServer where
  users := fun i => if i ∈ receivers then (server.users i).map (delivered msg) else server.users i
  fifos := server.fifos
  touched := server.touched ++ receivers.filter server.isOn

theorem toldTo_isOn (receivers : List Int) (i : Int) :
    (server.toldTo msg receivers).isOn i = server.isOn i := by
  simp only [isOn, toldTo]
  split
  · cases server.users i with
    | none => rfl
    | some user => exact delivered_isConnected msg user
  · rfl

theorem toldTo_cons (receivers : List Int) :
    server.toldTo msg (id :: receivers) = (server.toldTo msg [id]).toldTo msg receivers := by
  apply ShmServer.ext
  · funext i
    simp only [toldTo, List.mem_cons, List.not_mem_nil, or_false]
    by_cases first : i = id
    · rw [if_pos (Or.inl first), if_pos first]
      split
      · rw [Option.map_map]
        congr 1
        funext user
        exact (delivered_twice msg user).symm
      · rfl
    · simp only [first, false_or, if_false]
  · rfl
  · have same : (server.toldTo msg [id]).isOn = server.isOn := funext (toldTo_isOn [id])
    rw [toldTo, toldTo, same, toldTo, List.append_assoc, ← List.filter_append]
    rfl

theorem sendRawMessage_on (found : server.users id = some user) (on : user.isConnected = true) :
    server.sendRawMessage id msg k = .ok (server.toldTo msg [id]) := by
  rw [sendRawMessage, user_ok found]
  apply congrArg Except.ok
  apply ShmServer.ext
  · funext i
    by_cases here : i = id
    · subst here
      simp [toldTo, setUser, found, delivered, on]
    · simp [toldTo, setUser, here]
  · rfl
  · simp [toldTo, setUser, isOn_found found, on]

theorem toldTo_off (found : server.users id = some user) (off : user.isConnected = false) :
    server.toldTo msg [id] = server := by
  apply ShmServer.ext
  · funext i
    by_cases here : i = id
    · subst here
      simp [toldTo, found, delivered_off off]
    · simp [toldTo, here]
  · rfl
  · simp [toldTo, isOn_found found, off]

/-- One turn of the loop of a broadcast. -/
theorem broadcastTo_cons (receivers : List Int) (found : server.users id = some user) :
    server.broadcastTo msg k (id :: receivers) =
      (server.toldTo msg [id]).broadcastTo msg k receivers := by
  rw [broadcastTo, isConnected_found found]
  cases on : user.isConnected with
  | false =>
      rw [toldTo_off found on]
      rfl
  | true =>
      show (sendRawMessage id msg k server >>= broadcastTo msg k receivers) = _
      rw [sendRawMessage_on found on]
      rfl

/-- The loop of a broadcast writes to the connected ones of its list, each once. -/
theorem broadcastTo_eq {receivers : List Int} (there : ∀ id ∈ receivers, server.users id ≠ none) :
    server.broadcastTo msg k receivers = .ok (server.toldTo msg receivers) := by
  induction receivers generalizing server with
  | nil => simp [broadcastTo, toldTo]
  | cons id rest ih =>
      obtain ⟨user, found⟩ := Option.ne_none_iff_exists'.mp (there id List.mem_cons_self)
      rw [broadcastTo_cons rest found, toldTo_cons rest]
      apply ih
      intro i member none
      apply there i (List.mem_cons_of_mem _ member)
      simp only [toldTo] at none
      split at none
      · exact Option.map_eq_none_iff.mp none
      · exact none

/-- A broadcast reaches everybody who is connected, once. -/
theorem broadcastMessage_eq (table : server.Table) :
    server.broadcastMessage msg k = .ok (server.told msg) := by
  have there : ∀ id ∈ slots, server.users id ≠ none := fun id member =>
    (table id).mpr (mem_slots.mp member)
  rw [broadcastMessage, broadcastTo_eq there]
  apply congrArg Except.ok
  apply ShmServer.ext
  · funext i
    simp only [toldTo, told]
    split
    · rfl
    · rename_i outside
      rw [table.null fun inside => outside (mem_slots.mpr inside)]
      rfl
  · rfl
  · rfl

theorem told_table (table : server.Table) : (server.told msg).Table := by
  intro i
  rw [← table i]
  exact not_congr Option.map_eq_none_iff

@[simp] theorem told_roster (msg : Text) (server : ShmServer) :
    (server.told msg).roster = server.roster := by
  funext i
  simp only [roster, told]
  cases server.users i with
  | none => rfl
  | some user => simp

end Broadcast

section name

variable {server : ShmServer} {id : Int} {name : Text} {k : Proc} {user : ShmUser}

theorem roster_found (found : server.users id = some user) :
    server.roster id = if user.isConnected then some user.name else none := by
  rw [roster, found]
  rfl

/-- The scan of `Name` looks at the users of its list until one of them has the name. -/
theorem nameTaken_spec {ids : List Int} (there : ∀ id ∈ ids, server.users id ≠ none) :
    ∃ seen, nameTaken name k ids server = .ok (ids.any (fun i => server.roster i == some name),
        { server with touched := server.touched ++ seen }) ∧
      ((∀ i ∈ ids, server.roster i ≠ some name) → seen = ids.filter server.isOn) := by
  induction ids generalizing server with
  | nil => exact ⟨[], by simp [nameTaken], fun _ => rfl⟩
  | cons id rest ih =>
      obtain ⟨user, found⟩ := Option.ne_none_iff_exists'.mp (there id List.mem_cons_self)
      have others : ∀ i ∈ rest, server.users i ≠ none := fun i member =>
        there i (List.mem_cons_of_mem _ member)
      rw [nameTaken, isConnected_found found, List.any_cons]
      cases on : user.isConnected with
      | false =>
          have away : server.roster id = none := by
            rw [roster_found found, on]
            rfl
          obtain ⟨seen, scanned, all⟩ := ih others
          refine ⟨seen, ?_, ?_⟩
          · rw [away]
            exact scanned
          · intro free
            rw [List.filter_cons, isOn_found found, on]
            exact all fun i member => free i (List.mem_cons_of_mem _ member)
      | true =>
          have called : server.roster id = some user.name := by
            rw [roster_found found, on]
            rfl
          show ∃ seen, (server.user id k >>= fun used => if used.1.name = name then
            .ok (true, used.2) else nameTaken name k rest used.2) = _ ∧ _
          rw [user_ok found, called]
          by_cases same : user.name = name
          · refine ⟨[id], ?_, ?_⟩
            · simp [bind, Except.bind, same]
            · intro free
              exact absurd (called.trans (congrArg some same)) (free id List.mem_cons_self)
          · obtain ⟨seen, scanned, all⟩ :=
              @ih { server with touched := server.touched ++ [id] } others
            refine ⟨id :: seen, ?_, ?_⟩
            · have differs : (some user.name == some name) = false := by
                simpa using same
              have listed : server.touched ++ id :: seen = server.touched ++ [id] ++ seen := by
                rw [List.append_assoc, List.singleton_append]
              rw [differs, Bool.false_or, listed]
              exact (if_neg same).trans scanned
            · intro free
              rw [List.filter_cons, isOn_found found, on]
              exact congrArg _ (all fun i member => free i (List.mem_cons_of_mem _ member))

theorem roster_slot (table : server.Table) {i : Int} (called : server.roster i = some name) :
    i ∈ slots := by
  rw [mem_slots]
  by_contra outside
  rw [roster, table.null outside] at called
  cases called

theorem name_taken (table : server.Table) (taken : ∃ i, server.roster i = some name) :
    ∃ touched, server.name id name k = .ok (k.logEvent (.cout (takenMsg name)),
      { server with touched }) := by
  have there : ∀ id ∈ slots, server.users id ≠ none := fun id member =>
    (table id).mpr (mem_slots.mp member)
  obtain ⟨seen, scanned, -⟩ := @nameTaken_spec server name k slots there
  obtain ⟨i, called⟩ := taken
  have found : slots.any (fun i => server.roster i == some name) = true :=
    List.any_eq_true.mpr ⟨i, roster_slot table called, beq_iff_eq.mpr called⟩
  refine ⟨server.touched ++ seen, ?_⟩
  rw [ShmServer.name, scanned, found]
  rfl

theorem name_free (table : server.Table) (free : ∀ i, server.roster i ≠ some name)
    (found : server.users id = some user) (plain : '\x00' ∉ name)
    (short : name.length < maxUserNameLen) :
    server.name id name k = .ok (k, told (nameMsg user.ip user.port name)
      (setUser id { user with name }
        { server with touched := server.touched ++ (slots.filter server.isOn ++ [id]) })) := by
  have there : ∀ id ∈ slots, server.users id ≠ none := fun id member =>
    (table id).mpr (mem_slots.mp member)
  obtain ⟨seen, scanned, all⟩ := @nameTaken_spec server name k slots there
  have nobody : slots.any (fun i => server.roster i == some name) = false := by
    rw [List.any_eq_false]
    intro i _ same
    exact free i (beq_iff_eq.mp same)
  have inside : 1 ≤ id ∧ id < maxConn := (table id).mp (by rw [found]; exact Option.some_ne_none _)
  have table' : (setUser id { user with name }
      { server with touched := server.touched ++ seen ++ [id] }).Table :=
    @setUser_table { server with touched := server.touched ++ seen ++ [id] } id table inside _
  have spread : server.touched ++ (slots.filter server.isOn ++ [id]) =
      server.touched ++ seen ++ [id] := by
    rw [all fun i _ => free i, List.append_assoc]
  rw [ShmServer.name, scanned, nobody, spread]
  show (ShmServer.user id k { server with touched := server.touched ++ seen } >>= _) = _
  rw [@user_ok { server with touched := server.touched ++ seen } id k user found]
  show (if maxUserNameLen ≤ (Text.cString name).length then _ else _) = _
  rw [Text.cString_of_plain plain, if_neg (Nat.not_le.mpr short)]
  exact congrArg (· >>= fun server => .ok (k, server)) (broadcastMessage_eq table' (k := k))

end name

section Roster

variable {server : ShmServer} {id : Int} {k : Proc}

theorem setUser_users (user : ShmUser) (i : Int) :
    (server.setUser id user).users i = if i = id then some user else server.users i :=
  Function.update_apply server.users id (some user) i

theorem setUser_roster (user : ShmUser) : (server.setUser id user).roster =
    server.roster.put id (if user.isConnected then some user.name else none) := by
  funext i
  rw [roster, setUser_users]
  by_cases here : i = id
  · rw [if_pos here, here, Roster.put_same]
    rfl
  · rw [if_neg here, Roster.put_of_ne here]
    rfl

/-- The record of a slot once a client has logged in. -/
def loggedIn (ip : Text) (port sock pid : Int) (user : ShmUser) : ShmUser :=
  { user with
    userPipes := fun i => if i.val = 0 then user.userPipes i else .cleared
    ip := (Text.cString ip).take (ipLen - 1)
    name := noName
    port, sock, isConnected := true, pid }

/-- A login fills a free slot, and no other. -/
theorem addUser_fills (table : server.Table) (ip : Text) (port sock pid : Int) :
    Sat (server.addUser ip port sock pid k)
      (fun result => ∃ id user, ¬ server.Connected id ∧ server.users id = some user ∧
        result.2 = setUser id (loggedIn ip port sock pid user)
          { server with touched := server.touched ++ [id] })
      (fun _ => True) := by
  unfold addUser
  refine Sat.bind (Sat.mono (minKey_spec table _ (maxConn - 1) 1 (by omega) rfl)
    (fun _ h => h) (fun _ _ => trivial)) ?_
  intro id found
  refine Sat.bind (Sat.mono (user_spec id _ server) (fun _ h => h) (fun _ _ => trivial)) ?_
  intro result spec
  obtain ⟨there, looks, users, fifos⟩ := spec
  obtain ⟨user, server'⟩ := result
  have free : ¬ server.Connected id := by
    rcases found with full | free
    · have inside := (table id).mp (by rw [there]; exact Option.some_ne_none _)
      omega
    · exact free.2.2
  have used : server' = { server with touched := server.touched ++ [id] } :=
    ShmServer.ext users fifos looks.touched
  refine ⟨id, user, free, there, ?_⟩
  rw [← used]
  rfl

theorem addUser_roster (table : server.Table) (ip : Text) (port sock pid : Int) :
    Sat (server.addUser ip port sock pid k)
      (fun result => ∃ id, result.2.roster = server.roster.put id (some noName))
      (fun _ => True) := by
  apply (addUser_fills table ip port sock pid).mono
  · intro result filled
    obtain ⟨id, user, -, -, same⟩ := filled
    refine ⟨id, ?_⟩
    rw [same, setUser_roster]
    rfl
  · intro _ _
    trivial

/-- A logout empties the slot and tells the others. -/
theorem removeUser_empties (table : server.Table) {user : ShmUser}
    (found : server.users id = some user) (sock : Nat) :
    Sat (server.removeUser id sock k)
      (fun result => result.2.users = (told (logoutMsg user.name) (server.setUser id .zeroed)).users)
      (fun _ => False) := by
  have inside : 1 ≤ id ∧ id < maxConn := (table id).mp (by rw [found]; exact Option.some_ne_none _)
  unfold removeUser
  rw [user_ok found]
  show Sat (broadcastMessage (logoutMsg user.name) _ _ >>= _) _ _
  rw [broadcastMessage_eq]
  · exact rfl
  · exact setUser_table table inside .zeroed

theorem removeUser_roster (table : server.Table) (me : server.Connected id) (sock : Nat) :
    Sat (server.removeUser id sock k)
      (fun result => result.2.roster = server.roster.put id none) (fun _ => False) := by
  obtain ⟨user, found, -⟩ := me
  apply (removeUser_empties table found sock).mono
  · intro result emptied
    have same : result.2.roster = (told (logoutMsg user.name) (server.setUser id .zeroed)).roster := by
      funext i
      rw [roster, roster, emptied]
    rw [same, told_roster, setUser_roster]
    rfl
  · intro _ never
    exact never

end Roster

end ShmServer

/-- `addUser`, `Name` and `removeUser` in the process of one user. -/
inductive ShmLogin where
  | addUser (ip : Text) (port sock pid : Int)
  | rename (id : Int) (name : Text)
  | removeUser (id : Int) (sock : Nat)

namespace ShmLogin

def step (k : Proc) (server : ShmServer) : ShmLogin → Outcome (Proc × ShmServer)
  | .addUser ip port sock pid => server.addUser ip port sock pid k
  | .rename id name => server.name id name k
  | .removeUser id sock => server.removeUser id sock k

/-- A process that is killed leaves the records to the others. -/
def next (server : ShmServer) (event : Proc × ShmLogin) : Option ShmServer :=
  match event.2.step event.1 server with
  | .ok result => some result.2
  | .error _ => some server

/-- Users act while they are connected; a name is a C string that fits into its array. -/
def Enabled (server : ShmServer) (event : Proc × ShmLogin) : Prop :=
  match event.2 with
  | .addUser _ _ _ _ => True
  | .rename id name => server.Connected id ∧ '\x00' ∉ name ∧ name.length < maxUserNameLen
  | .removeUser id _ => server.Connected id

end ShmLogin

/-- The answer to `Name`: a refusal, which changes nothing, or the new name, of which everybody is
told. -/
structure ChatServer.NameAnswer (server : ChatServer) (k : Proc) (id : Int) (name : Text)
    (result : Proc × ChatServer) : Prop where
  refused : (∃ i, server.roster i = some name) →
    result = (k.logEvent (.cout (takenMsg name)), server)
  accepted : (∀ i, server.roster i ≠ some name) → ∃ user, server.users.find? id = some user ∧
    result.2 = server.setUser id { user with name } ∧
    result.1.log = k.log ++ result.2.users.entries.map
      (fun entry => .send entry.2.sock (nameMsg user.ip user.port name))

/-- The answer to `Name` with shared memory: of the records that were used, the last ones are those
of the connected users, each once, to put in the message. -/
structure ShmServer.NameAnswer (server : ShmServer) (k : Proc) (id : Int) (name : Text)
    (result : Proc × ShmServer) : Prop where
  refused : (∃ i, server.roster i = some name) → result.1 = k.logEvent (.cout (takenMsg name)) ∧
    result.2.users = server.users ∧ result.2.fifos = server.fifos
  accepted : (∀ i, server.roster i ≠ some name) → ∃ user, server.users id = some user ∧
    result = (k, told (nameMsg user.ip user.port name) (setUser id { user with name }
      { server with touched := server.touched ++ (slots.filter server.isOn ++ [id]) }))

theorem ChatServer.name_answer {server : ChatServer} {k : Proc} {id : Int} {name : Text}
    {user : UserInfo} (found : server.users.find? id = some user) (plain : '\x00' ∉ name)
    (short : name.length < maxUserNameLen) :
    Sat (server.name id name k) (server.NameAnswer k id name) (fun _ => False) := by
  by_cases taken : ∃ i, server.roster i = some name
  · rw [ChatServer.name_taken taken]
    constructor
    · intro _
      rfl
    · intro free
      obtain ⟨i, there⟩ := taken
      exact absurd there (free i)
  · have free : ∀ i, server.roster i ≠ some name := fun i there => taken ⟨i, there⟩
    rw [ChatServer.name_free free found plain short]
    constructor
    · intro there
      exact absurd there taken
    · intro _
      exact ⟨user, found, rfl, rfl⟩

namespace ShmServer

variable {server : ShmServer} {k : Proc}

theorem name_answer (table : server.Table) {id : Int} (me : server.Connected id) {name : Text}
    (plain : '\x00' ∉ name) (short : name.length < maxUserNameLen) :
    Sat (server.name id name k) (server.NameAnswer k id name) (fun _ => False) := by
  obtain ⟨user, found, -⟩ := me
  by_cases taken : ∃ i, server.roster i = some name
  · obtain ⟨touched, ended⟩ := @name_taken server id name k table taken
    rw [ended]
    constructor
    · intro _
      exact ⟨rfl, rfl, rfl⟩
    · intro free
      obtain ⟨i, there⟩ := taken
      exact absurd there (free i)
  · have free : ∀ i, server.roster i ≠ some name := fun i there => taken ⟨i, there⟩
    rw [name_free table free found plain short]
    constructor
    · intro there
      exact absurd there taken
    · intro _
      exact ⟨user, found, rfl⟩

/-- The records are there, and no two users share a name of their own. -/
structure Settled (server : ShmServer) : Prop where
  table : server.Table
  names : server.roster.UniqueBut noName

theorem createSHMUser_settled : createSHMUser.Settled := by
  refine ⟨createSHMUser_table, ?_⟩
  have nobody : createSHMUser.roster = fun _ => none := by
    funext i
    simp only [roster, createSHMUser]
    split
    · rfl
    · rfl
  rw [nobody]
  exact Roster.uniqueBut_nobody

theorem NameAnswer.settled (settled : server.Settled) {id : Int} (me : server.Connected id)
    {name : Text} {result : Proc × ShmServer} (answer : server.NameAnswer k id name result) :
    result.2.Settled := by
  by_cases taken : ∃ i, server.roster i = some name
  · obtain ⟨-, users, -⟩ := answer.refused taken
    constructor
    · intro i
      rw [users]
      exact settled.table i
    · have same : result.2.roster = server.roster := by
        funext i
        rw [roster, roster, users]
      rw [same]
      exact settled.names
  · have free : ∀ i, server.roster i ≠ some name := fun i there => taken ⟨i, there⟩
    obtain ⟨user, found, rfl⟩ := answer.accepted free
    have on : user.isConnected = true := by
      obtain ⟨user', found', on⟩ := me
      cases found.symm.trans found'
      exact on
    have inside : 1 ≤ id ∧ id < maxConn :=
      (settled.table id).mp (by rw [found]; exact Option.some_ne_none _)
    constructor
    · apply told_table
      exact setUser_table settled.table inside _
    · rw [told_roster, setUser_roster, if_pos on]
      exact settled.names.rename free

end ShmServer

namespace ShmLogin

variable {server : ShmServer} {k : Proc}

/-- What one operation keeps. -/
theorem step_settled (settled : server.Settled) {op : ShmLogin} (enabled : Enabled server (k, op)) :
    Sat (op.step k server) (fun result => result.2.Settled) (fun _ => True) := by
  cases op with
  | addUser ip port sock pid =>
      have table := ShmServer.addUser_spec settled.table ip port sock pid k
      have names := ShmServer.addUser_roster settled.table ip port sock pid (k := k)
      apply (table.and names).mono
      · intro result both
        obtain ⟨⟨table, -⟩, id, entered⟩ := both
        refine ⟨table, ?_⟩
        rw [entered]
        exact settled.names.enter
      · intro _ _
        trivial
  | rename id name =>
      have answer := ShmServer.name_answer settled.table enabled.1 enabled.2.1 enabled.2.2 (k := k)
      apply answer.mono
      · intro result answered
        exact answered.settled settled enabled.1
      · intro _ _
        trivial
  | removeUser id sock =>
      have table := ShmServer.removeUser_spec settled.table enabled sock k
      have names := ShmServer.removeUser_roster settled.table enabled sock (k := k)
      apply (table.and names).mono
      · intro result both
        refine ⟨both.1.1, ?_⟩
        rw [both.2]
        exact settled.names.leave
      · intro _ _
        trivial

theorem reached_settled (reached : Reached next Enabled .createSHMUser server) :
    server.Settled := by
  apply reached.invariant ShmServer.createSHMUser_settled
  intro server server' event settled enabled stepped
  have kept := step_settled settled enabled
  rw [next] at stepped
  split at stepped
  · rename_i result ended
    cases stepped
    exact kept.of_ok ended
  · cases stepped
    exact settled

end ShmLogin

/-- In both builds connected users with equal names never gave themselves one, and `Name` refuses a
name that somebody has without a trace or tells everybody once. -/
theorem names_unique :
    (∀ (k : Proc) (serverIn serverOut serverErr : Fd) (st : Proc × ChatServer),
      Reached LoginOp.next LoginOp.Enabled (k, .init serverIn serverOut serverErr) st →
      st.2.roster.UniqueBut noName ∧
        ∀ id name, LoginOp.Enabled st (.rename id name) →
          Sat (st.2.name id name st.1) (st.2.NameAnswer st.1 id name) (fun _ => False)) ∧
    (∀ server : ShmServer, Reached ShmLogin.next ShmLogin.Enabled .createSHMUser server →
      server.roster.UniqueBut noName ∧
        ∀ k id name, ShmLogin.Enabled server (k, .rename id name) →
          Sat (server.name id name k) (server.NameAnswer k id name) (fun _ => False)) := by
  constructor
  · intro k serverIn serverOut serverErr st reached
    refine ⟨(LoginOp.reached_settled reached).names, ?_⟩
    intro id name enabled
    obtain ⟨⟨user, found⟩, plain, short⟩ := enabled
    exact ChatServer.name_answer found plain short
  · intro server reached
    have settled := ShmLogin.reached_settled reached
    refine ⟨settled.names, ?_⟩
    intro k id name enabled
    exact ShmServer.name_answer settled.table enabled.1 enabled.2.1 enabled.2.2

/-- The first user of each build names himself. -/
theorem names_unique_one :
    (∃ st, LoginOp.next (someProc, .init (some 3) (some 4) (some 5))
      (.addUser 1 "10.0.0.1".toList 5001 6 (-1)) = some st ∧ st.2.roster.UniqueBut noName ∧
      Sat (st.2.name 1 ['m', 'e'] st.1) (st.2.NameAnswer st.1 1 ['m', 'e']) (fun _ => False)) ∧
    ∃ server, ShmLogin.next .createSHMUser
      (someProc, .addUser "10.0.0.1".toList 5001 4 77) = some server ∧
      server.roster.UniqueBut noName ∧
      Sat (server.name 1 ['m', 'e'] someProc) (server.NameAnswer someProc 1 ['m', 'e'])
        (fun _ => False) := by
  constructor
  · refine ⟨_, rfl, ?_⟩
    have both := names_unique.1 someProc (some 3) (some 4) (some 5) _
      (Reached.start.step (e := .addUser 1 "10.0.0.1".toList 5001 6 (-1)) rfl rfl)
    exact ⟨both.1, both.2 1 ['m', 'e'] ⟨⟨_, rfl⟩, by decide, by decide⟩⟩
  · refine ⟨_, rfl, ?_⟩
    have both := names_unique.2 _
      (Reached.start.step (e := (someProc, .addUser "10.0.0.1".toList 5001 4 77)) trivial rfl)
    exact ⟨both.1, both.2 someProc 1 ['m', 'e'] ⟨⟨_, rfl, rfl⟩, by decide, by decide⟩⟩

end NetProg
