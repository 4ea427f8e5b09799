import NetProg.Server.ChatRoom

/-!
# The chat room of `np_single_proc`

The operations of the chat as `np_single_proc` performs them, one after the other.  In every state
that they reach the users are the guests of a room, an operation is a step of that room, its text
goes to `std::cout` and its messages go to the sockets of their receivers, once each.
-/

namespace NetProg

/-- What was inserted into `std::cout`. -/
def printedText (log : List Event) : Text :=
  log.flatMap fun
    | .cout text => text
    | _ => []

/-- What was sent to a socket. -/
def sentTo (sock : Nat) (log : List Event) : List Text :=
  log.filterMap fun
    | .send fd text => if fd = sock then some text else none
    | _ => none

section Log

variable {log later : List Event} {sock : Nat}

@[simp] theorem printedText_append :
    printedText (log ++ later) = printedText log ++ printedText later := List.flatMap_append

@[simp] theorem sentTo_append : sentTo sock (log ++ later) = sentTo sock log ++ sentTo sock later :=
  List.filterMap_append

@[simp] theorem printedText_nil : printedText [] = [] := rfl

@[simp] theorem sentTo_nil : sentTo sock [] = [] := rfl

@[simp] theorem printedText_cout (text : Text) :
    printedText (.cout text :: log) = text ++ printedText log := rfl

@[simp] theorem sentTo_cout (text : Text) : sentTo sock (.cout text :: log) = sentTo sock log := rfl

@[simp] theorem printedText_send (fd : Int) (text : Text) :
    printedText (.send fd text :: log) = printedText log := rfl

@[simp] theorem printedText_close (session fd : Nat) (found : Option Desc) :
    printedText (.close session fd found :: log) = printedText log := rfl

@[simp] theorem sentTo_close (session fd : Nat) (found : Option Desc) :
    sentTo sock (.close session fd found :: log) = sentTo sock log := rfl

theorem sentTo_send (fd : Nat) (text : Text) :
    sentTo sock [.send fd text] = if fd = sock then [text] else [] := by
  by_cases here : fd = sock
  · simp [sentTo, here]
  · simp [sentTo, here]

end Log

/-- The guest that a record is about. -/
def UserInfo.guest (user : UserInfo) : Guest := ⟨user.name, user.ip, user.port⟩

/-- The users as guests. -/
def ChatServer.guests (server : ChatServer) : Room := fun id =>
  (server.users.find? id).map UserInfo.guest

namespace ChatOp

/-- The operation in `np_single_proc`.  The number of the connection is of no interest here. -/
def step (st : Proc × ChatServer) : ChatOp → Outcome (Proc × ChatServer)
  | .enter ip port sock pid => .ok (ChatServer.addUser 0 ip port sock pid st.1 st.2)
  | .welcome id => do
      let user ← st.2.user id st.1
      .ok (ChatServer.sendRawMessage user.sock ChatServer.welcomeMsg st.1, st.2)
  | .announce id ip port => do
      let user ← st.2.user id st.1
      .ok (st.2.broadcastMessage (ChatServer.loginMsg user.name ip port) st.1, st.2)
  | .leave id => do
      let user ← st.2.user id st.1
      ChatServer.removeUser user.sock st.1 st.2
  | .rename id name => st.2.name id name st.1
  | .tell id uid msg => do
      let k ← st.2.tell id uid msg st.1
      .ok (k, st.2)
  | .yell id msg => do
      let k ← st.2.yell id msg st.1
      .ok (k, st.2)
  | .who id => .ok (st.2.who id st.1, st.2)

/-- A step that ends. -/
def next (st : Proc × ChatServer) (op : ChatOp) : Option (Proc × ChatServer) := (op.step st).toOption

/-- Who acts.  Nobody does in `enter`. -/
def actor : ChatOp → Option Int
  | .enter .. => none
  | .welcome id | .announce id .. | .leave id | .rename id _ | .tell id .. | .yell id _ | .who id =>
      some id

/-- Whoever acts is logged in, and a name is a C string that fits into its array. -/
def Proper (room : Room) (op : ChatOp) : Prop :=
  (∀ id ∈ op.actor, room id ≠ none) ∧
    ∀ id name, op = .rename id name → '\x00' ∉ name ∧ name.length < maxUserNameLen

/-- A proper operation; an accepted connection has a socket that is not registered. -/
def Enabled (st : Proc × ChatServer) (op : ChatOp) : Prop :=
  op.Proper st.2.guests ∧
    ∀ ip port sock pid, op = .enter ip port sock pid → st.2.sockIDTable.find? sock = none

end ChatOp

namespace ChatServer

/-- Between two states the text of a reply was printed, and its messages were sent: to the socket of
each receiver once, and to no other socket. -/
structure Answered (old new : Proc × ChatServer) (reply : Reply) : Prop where
  printed : printedText new.1.log = printedText old.1.log ++ reply.printed
  told : ∀ sock, sentTo sock new.1.log =
    sentTo sock old.1.log ++ ((new.2.sockIDTable.find? sock).bind reply.told).toList

section Guests

variable {server : ChatServer} {id : Int} {user : UserInfo} {k : Proc} {msg : Text} {sock : Nat}

theorem guests_found (found : server.users.find? id = some user) :
    server.guests id = some user.guest := by
  rw [guests, found]
  rfl

theorem guests_eq_some {guest : Guest} : server.guests id = some guest ↔
    ∃ user, server.users.find? id = some user ∧ user.guest = guest := Option.map_eq_some_iff

theorem guests_ne_none : server.guests id ≠ none ↔ ∃ user, server.users.find? id = some user := by
  rw [Option.ne_none_iff_exists']
  constructor
  · intro present
    obtain ⟨guest, there⟩ := present
    obtain ⟨user, found, -⟩ := guests_eq_some.mp there
    exact ⟨user, found⟩
  · intro present
    obtain ⟨user, found⟩ := present
    exact ⟨user.guest, guests_found found⟩

theorem guests_insert (server : ChatServer) (id : Int) (user : UserInfo) :
    (server.setUser id user).guests = server.guests.put id (some user.guest) := by
  funext i
  rw [guests, setUser, OrdMap.find?_insert]
  by_cases here : i = id
  · subst here
    rw [if_pos rfl, Roster.put_same]
    rfl
  · rw [if_neg here, Roster.put_of_ne here]
    rfl

theorem guests_drop (server : ChatServer) (sock : Nat) (id : Int) :
    (server.dropUser sock id).guests = server.guests.put id none := by
  funext i
  rw [guests, dropUser, OrdMap.find?_erase]
  by_cases here : i = id
  · subst here
    rw [if_pos rfl, Roster.put_same]
    rfl
  · rw [if_neg here, Roster.put_of_ne here]
    rfl

theorem guests_addUser (server : ChatServer) (session : Nat) (ip : Text) (port : Int) (sock : Nat)
    (pid : Int) (k : Proc) : (addUser session ip port sock pid k server).2.guests =
      server.guests.put server.nextID (some ⟨noName, (Text.cString ip).take (ipLen - 1), port⟩) := by
  funext i
  rw [guests, addUser_users]
  by_cases here : i = server.nextID
  · subst here
    rw [if_pos rfl, Roster.put_same]
    rfl
  · rw [if_neg here, Roster.put_of_ne here]
    rfl

theorem guests_leastFree (tidy : server.Tidy) : server.guests.LeastFree server.nextID := by
  obtain ⟨positive, free, least⟩ := nextID_leastFree tidy
  constructor
  · exact positive
  · rw [guests, free]
    rfl
  · intro i low below
    exact guests_ne_none.mpr (least i low below)

/-- The names in the room are those of the connected users. -/
theorem roster_guests (settled : server.Settled) {name : Text} :
    server.roster id = some name ↔ ∃ guest, server.guests id = some guest ∧ guest.name = name := by
  rw [roster_eq_some]
  constructor
  · intro named
    obtain ⟨user, found, -, same⟩ := named
    exact ⟨user.guest, guests_found found, same⟩
  · intro named
    obtain ⟨guest, there, same⟩ := named
    obtain ⟨user, found, rfl⟩ := guests_eq_some.mp there
    exact ⟨user, found, settled.on id user found, same⟩

/-- The users in the order of their ids are the guests in the order of their numbers. -/
theorem guests_listed (server : ChatServer) :
    server.guests.Listed (server.users.entries.map fun entry => (entry.1, entry.2.guest)) := by
  constructor
  · rw [List.pairwise_map]
    exact server.users.ordered
  · intro i guest
    rw [guests_eq_some, List.mem_map]
    constructor
    · intro listed
      obtain ⟨entry, member, same⟩ := listed
      cases same
      exact ⟨entry.2, OrdMap.mem_entries.mp member, rfl⟩
    · intro found
      obtain ⟨user, found, rfl⟩ := found
      exact ⟨(i, user), OrdMap.mem_entries.mpr found, rfl⟩

end Guests

section Sends

variable {server : ChatServer} {id : Int} {user : UserInfo} {k : Proc} {msg : Text} {sock : Nat}

theorem sentTo_entries (entries : List (Int × UserInfo)) :
    sentTo sock (entries.map fun entry => .send entry.2.sock msg) =
      (entries.filter fun entry => entry.2.sock = sock).map fun _ => msg := by
  induction entries with
  | nil => rfl
  | cons entry rest ih =>
      rw [List.map_cons, List.filter_cons, ← List.singleton_append, sentTo_append, ih, sentTo_send]
      by_cases here : entry.2.sock = sock
      · simp [here]
      · simp [here]

/-- One entry of an ordered table has a key. -/
theorem filter_key {entries : List (Int × UserInfo)}
    (ordered : entries.Pairwise fun a b => a.1 < b.1) (member : (id, user) ∈ entries) :
    (entries.filter fun entry => entry.1 = id) = [(id, user)] := by
  induction entries with
  | nil => cases member
  | cons entry rest ih =>
      obtain ⟨first, ordered⟩ := List.pairwise_cons.mp ordered
      rcases List.mem_cons.mp member with rfl | member
      · rw [List.filter_cons_of_pos (by simp)]
        congr
        rw [List.filter_eq_nil_iff]
        intro other there
        have later := first other there
        simp only [decide_eq_true_eq]
        exact ne_of_gt later
      · have before := first _ member
        rw [List.filter_cons_of_neg (by simpa using ne_of_lt before)]
        exact ih ordered member

/-- Of the users that a socket is looked up for one has it, if it is registered. -/
theorem Tidy.filter_sock (tidy : server.Tidy) :
    ((server.users.entries.filter fun entry => entry.2.sock = sock).map fun _ => msg) =
      ((server.sockIDTable.find? sock).map fun _ => msg).toList := by
  cases known : server.sockIDTable.find? sock with
  | none =>
      have nobody : (server.users.entries.filter fun entry => entry.2.sock = sock) = [] := by
        rw [List.filter_eq_nil_iff]
        intro entry member
        simp only [decide_eq_true_eq]
        intro own
        have there := tidy.sockOfUser entry.1 entry.2 (OrdMap.mem_entries.mp member)
        rw [own, known] at there
        cases there
      rw [nobody]
      rfl
  | some id =>
      obtain ⟨user, found, own⟩ := tidy.userOfSock sock id known
      have same : (server.users.entries.filter fun entry => entry.2.sock = sock) =
          server.users.entries.filter fun entry => entry.1 = id := by
        apply List.filter_congr
        intro entry member
        have there := OrdMap.mem_entries.mp member
        rw [decide_eq_decide]
        constructor
        · intro own'
          have known' := tidy.sockOfUser entry.1 entry.2 there
          rw [own', known] at known'
          exact (Option.some.inj known').symm
        · intro here
          rw [here, found] at there
          rw [← Option.some.inj there, own]
      rw [same, filter_key server.users.ordered (OrdMap.mem_entries.mpr found)]
      rfl

/-- A broadcast reaches the socket of everybody once. -/
theorem sentTo_broadcast (tidy : server.Tidy) :
    sentTo sock (server.broadcastMessage msg k).log =
      sentTo sock k.log ++ ((server.sockIDTable.find? sock).map fun _ => msg).toList := by
  rw [broadcastMessage, sentTo_append, sentTo_entries, tidy.filter_sock]

theorem printedText_broadcast (server : ChatServer) :
    printedText (server.broadcastMessage msg k).log = printedText k.log := by
  rw [broadcastMessage, printedText_append]
  have silent : ∀ entries : List (Int × UserInfo),
      printedText (entries.map fun entry => .send entry.2.sock msg) = [] := by
    intro entries
    induction entries with
    | nil => rfl
    | cons entry rest ih => exact ih
  rw [silent, List.append_nil]

/-- Whose socket is registered is there. -/
theorem Tidy.everybody (tidy : server.Tidy) :
    (server.sockIDTable.find? sock).bind (server.guests.everybody msg) =
      (server.sockIDTable.find? sock).map fun _ => msg := by
  cases known : server.sockIDTable.find? sock with
  | none => rfl
  | some id =>
      obtain ⟨user, found, -⟩ := tidy.userOfSock sock id known
      show server.guests.everybody msg id = _
      rw [Room.everybody, guests_found found]
      rfl

/-- A message for one user goes to his socket. -/
theorem Tidy.only (tidy : server.Tidy) (found : server.users.find? id = some user) :
    sentTo sock [.send user.sock msg] =
      ((server.sockIDTable.find? sock).bind (Room.only id msg)).toList := by
  rw [sentTo_send]
  by_cases own : user.sock = sock
  · have known := tidy.sockOfUser id user found
    rw [own] at known
    simp [own, known, Room.only]
  · cases known : server.sockIDTable.find? sock with
    | none => simp [own]
    | some other =>
        obtain ⟨user', found', own'⟩ := tidy.userOfSock sock other known
        have different : other ≠ id := by
          intro same
          rw [same, found] at found'
          exact own (by rw [Option.some.inj found', own'])
        simp [own, Room.only, different]

theorem bind_nobody (entry : Option Int) : (entry.bind Room.nobody).toList = [] := by
  cases entry <;> rfl

end Sends

end ChatServer

namespace ChatOp

open ChatServer

/-- A step of the room, and its reply. -/
def Refines (op : ChatOp) (st st' : Proc × ChatServer) : Prop :=
  ∃ reply, st.2.guests.Step op reply st'.2.guests ∧ Answered st st' reply

variable {st st' : Proc × ChatServer} {id uid : Int} {ip name msg : Text} {port : Int} {sock : Nat}
  {pid : Int} {op : ChatOp}

theorem Refines.of_step {reply : Reply} {room : Room} (stepped : st.2.guests.Step op reply room)
    (same : st'.2.guests = room) (answered : Answered st st' reply) : op.Refines st st' :=
  ⟨reply, same ▸ stepped, answered⟩

/-- The step ends in a proper state, as a step of the room. -/
def Sound (op : ChatOp) (st : Proc × ChatServer) : Prop :=
  Sat (op.step st) (fun st' => st'.2.Settled ∧ op.Refines st st') (fun _ => False)

theorem enter_sound (settled : st.2.Settled) (unknown : st.2.sockIDTable.find? sock = none) :
    Sound (.enter ip port sock pid) st := by
  have answered : Answered st (ChatServer.addUser 0 ip port sock pid st.1 st.2)
      ⟨Room.acceptedMsg ip port st.2.nextID, Room.nobody⟩ := by
    constructor
    · rw [ChatServer.addUser, ← nextID]
      simp only [Proc.logEvent, printedText_append, printedText_cout, printedText_nil,
        List.append_nil]
      rw [List.append_assoc]
      rfl
    · intro sock'
      simp only [ChatServer.addUser, Proc.logEvent, sentTo_append, sentTo_cout, sentTo_nil,
        bind_nobody, List.append_nil]
  exact ⟨settled.addUser unknown 0 ip port pid st.1,
    .of_step (.enter (guests_leastFree settled.tidy))
      (guests_addUser st.2 0 ip port sock pid st.1) answered⟩

section Present

variable {user : UserInfo}

theorem welcome_sound (settled : st.2.Settled) (found : st.2.users.find? id = some user) :
    Sound (.welcome id) st := by
  rw [Sound, step, ChatServer.user, found]
  refine ⟨settled, .of_step (.welcome (guests_found found)) rfl ?_⟩
  constructor
  · simp [ChatServer.sendRawMessage, Proc.logEvent]
  · intro sock'
    rw [← settled.tidy.only found, ← sentTo_append]
    rfl

theorem broadcast_answered (tidy : st.2.Tidy) :
    Answered st (st.2.broadcastMessage msg st.1, st.2) ⟨[], st.2.guests.everybody msg⟩ := by
  constructor
  · rw [printedText_broadcast, List.append_nil]
  · intro sock'
    rw [tidy.everybody]
    exact sentTo_broadcast tidy

theorem announce_sound (settled : st.2.Settled) (found : st.2.users.find? id = some user) :
    Sound (.announce id ip port) st := by
  rw [Sound, step, ChatServer.user, found]
  exact ⟨settled, .of_step (.announce (guests_found found)) rfl (broadcast_answered settled.tidy)⟩

theorem yell_sound (settled : st.2.Settled) (found : st.2.users.find? id = some user) :
    Sound (.yell id msg) st := by
  rw [Sound, step, ChatServer.yell, ChatServer.user, found]
  exact ⟨settled, .of_step (.yell (guests_found found)) rfl (broadcast_answered settled.tidy)⟩

/-- A text printed, and nothing sent. -/
theorem printed_answered (text : Text) :
    Answered st (st.1.logEvent (.cout text), st.2) ⟨text, Room.nobody⟩ := by
  constructor
  · simp [Proc.logEvent]
  · intro sock'
    rw [bind_nobody]
    simp [Proc.logEvent]

theorem tell_sound (settled : st.2.Settled) (found : st.2.users.find? id = some user) :
    Sound (.tell id uid msg) st := by
  cases there : st.2.users.find? uid with
  | none =>
      have absent : st.2.guests uid = none := by
        rw [guests, there]
        rfl
      rw [Sound, step, ChatServer.tell, there]
      exact ⟨settled, .of_step (.tellNobody absent) rfl (printed_answered _)⟩
  | some receiver =>
      have present : st.2.guests uid ≠ none := guests_ne_none.mpr ⟨receiver, there⟩
      rw [Sound, step, ChatServer.tell, there, ChatServer.user, found]
      refine ⟨settled, .of_step (.tell (guests_found found) present) rfl ?_⟩
      constructor
      · simp [ChatServer.sendRawMessage, Proc.logEvent]
      · intro sock'
        rw [← settled.tidy.only there, ← sentTo_append]
        rfl

theorem rename_sound (settled : st.2.Settled) (found : st.2.users.find? id = some user)
    (plain : '\x00' ∉ name) (short : name.length < maxUserNameLen) : Sound (.rename id name) st := by
  by_cases taken : ∃ i, st.2.roster i = some name
  · have someone : ∃ i guest, st.2.guests i = some guest ∧ guest.name = name := by
      obtain ⟨i, there⟩ := taken
      exact ⟨i, (roster_guests settled).mp there⟩
    rw [Sound, step, name_taken taken]
    exact ⟨settled, .of_step (.renameTaken someone) rfl (printed_answered _)⟩
  · have free : ∀ i, st.2.roster i ≠ some name := fun i there => taken ⟨i, there⟩
    have new : ∀ i guest, st.2.guests i = some guest → guest.name ≠ name := fun i guest there same =>
      free i ((roster_guests settled).mpr ⟨guest, there, same⟩)
    have settled' := settled.rename found free
    rw [Sound, step, name_free free found plain short]
    refine ⟨settled', .of_step (.rename (guests_found found) new) (guests_insert ..) ?_⟩
    have answered : Answered (st.1, st.2.setUser id { user with name }) _
        ⟨[], (st.2.setUser id { user with name }).guests.everybody (nameMsg user.ip user.port name)⟩ :=
      broadcast_answered settled'.tidy
    constructor
    · exact answered.printed
    · intro sock'
      have present : st.2.guests id ≠ none := guests_ne_none.mpr ⟨user, found⟩
      rw [answered.told sock', guests_insert, Room.everybody_put present]
      rfl

theorem leave_sound (settled : st.2.Settled) (found : st.2.users.find? id = some user) :
    Sound (.leave id) st := by
  have known := settled.tidy.sockOfUser id user found
  have served : st.2.getServingUserID user.sock = id := by
    rw [getServingUserID, known]
    rfl
  have settled' := settled.dropUser found rfl
  rw [Sound, step, ChatServer.user, found]
  simp only [bind, Except.bind, removeUser, served, ChatServer.user, found]
  refine ⟨settled', .of_step (.leave (guests_found found)) (guests_drop ..) ?_⟩
  constructor
  · simp only [Proc.close, printedText_append]
    rw [printedText_broadcast]
    simp only [Proc.logEvent, redirect_log, printedText_append, printedText_cout, printedText_close,
      printedText_nil, List.append_nil, List.append_assoc, Room.closedMsg, UserInfo.guest]
  · intro sock'
    have spread : ((st.2.dropUser user.sock id).sockIDTable.find? sock').bind
        ((st.2.dropUser user.sock id).guests.everybody (logoutMsg user.name)) = _ :=
      settled'.tidy.everybody
    rw [guests_drop] at spread
    simp only [Proc.close, sentTo_append, sentTo_close, sentTo_nil, List.append_nil]
    rw [← ChatServer.dropUser, sentTo_broadcast settled'.tidy]
    simp only [Proc.logEvent, redirect_log, sentTo_append, sentTo_cout, sentTo_nil, List.append_nil]
    rw [← spread]
    rfl

/-- The lines of `who`, one for each user. -/
theorem printedText_couts (entries : List (Int × UserInfo)) (line : Int × UserInfo → Text) :
    printedText (entries.map fun entry => .cout (line entry)) = entries.flatMap line := by
  induction entries with
  | nil => rfl
  | cons entry rest ih => rw [List.map_cons, printedText_cout, ih, List.flatMap_cons]

theorem sentTo_couts (entries : List (Int × UserInfo)) (line : Int × UserInfo → Text) :
    sentTo sock (entries.map fun entry => .cout (line entry)) = [] := by
  induction entries with
  | nil => rfl
  | cons entry rest ih => exact ih

theorem who_sound (settled : st.2.Settled) : Sound (.who id) st := by
  refine ⟨settled, .of_step (.who (guests_listed st.2)) rfl ?_⟩
  constructor
  · show printedText (st.1.log ++ [.cout Room.whoHeader] ++ st.2.users.entries.map fun entry =>
      .cout (Room.whoLine id (entry.1, entry.2.guest))) = _
    rw [printedText_append, printedText_append, printedText_couts, List.append_assoc,
      List.flatMap_map, printedText_cout, printedText_nil, List.append_nil]
  · intro sock'
    simp only [ChatServer.who, Proc.logEvent, sentTo_append, sentTo_couts, sentTo_cout, sentTo_nil,
      bind_nobody, List.append_nil]

end Present

/-- What one operation does. -/
theorem sound (settled : st.2.Settled) (enabled : op.Enabled st) : op.Sound st := by
  obtain ⟨⟨acts, fits⟩, unknown⟩ := enabled
  have actor : ∀ id ∈ op.actor, ∃ user, st.2.users.find? id = some user := fun id member =>
    guests_ne_none.mp (acts id member)
  cases op with
  | enter ip port sock pid => exact enter_sound settled (unknown ip port sock pid rfl)
  | welcome id =>
      obtain ⟨user, found⟩ := actor id rfl
      exact welcome_sound settled found
  | announce id ip port =>
      obtain ⟨user, found⟩ := actor id rfl
      exact announce_sound settled found
  | leave id =>
      obtain ⟨user, found⟩ := actor id rfl
      exact leave_sound settled found
  | rename id name =>
      obtain ⟨user, found⟩ := actor id rfl
      obtain ⟨plain, short⟩ := fits id name rfl
      exact rename_sound settled found plain short
  | tell id uid msg =>
      obtain ⟨user, found⟩ := actor id rfl
      exact tell_sound settled found
  | yell id msg =>
      obtain ⟨user, found⟩ := actor id rfl
      exact yell_sound settled found
  | who id => exact who_sound settled

end ChatOp

end NetProg
