import Mathlib.Data.Int.LeastGreatest
import NetProg.Server.ChatRoomSingle
import NetProg.Server.Names

/-!
# The chat room of `np_multi_proc`

The same operations with shared memory.  A message is written into the buffer of its receiver, whose
process prints and clears the buffer when it handles the signal.  Between two operations all signals
are handled, in any order; a handler that runs for nothing prints an empty buffer.  Under these
conditions the two builds do the same, but for what `snprintf` cuts off from a message.
-/

namespace NetProg

/-- The guest that a record is about. -/
def ShmUser.guest (user : ShmUser) : Guest := ⟨user.name, user.ip, user.port⟩

namespace ShmServer

/-- The connected users as guests. -/
def guests (server : ShmServer) : Room := fun id =>
  (server.users id).bind fun user => if user.isConnected then some user.guest else none

/-- The processes of `ids` handle their signals one after the other: who prints what. -/
def killAll (k : Proc) : List Int → ShmServer → Outcome (List (Int × Text) × ShmServer)
  | [], server => .ok ([], server)
  | id :: ids, server => do
      let (text, server) ← kill id k server
      let (texts, server) ← killAll k ids server
      .ok ((id, text) :: texts, server)

end ShmServer

/-- What one of several processes prints. -/
def printedBy (id : Int) (texts : List (Int × Text)) : Text :=
  texts.flatMap fun entry => if entry.1 = id then entry.2 else []

namespace ChatOp

/-- The operation in `np_multi_proc`, up to the signals. -/
def shmStep (st : Proc × ShmServer) : ChatOp → Outcome (Proc × ShmServer)
  | .enter ip port sock pid => st.2.addUser ip port sock pid st.1
  | .welcome id => do
      let server ← st.2.sendRawMessage id ChatServer.welcomeMsg st.1
      .ok (st.1, server)
  | .announce id ip port => do
      let (user, server) ← st.2.user id st.1
      let server ← server.broadcastMessage (ChatServer.loginMsg user.name ip port) st.1
      .ok (st.1, server)
  | .leave id => do
      let (user, server) ← st.2.user id st.1
      server.removeUser id user.sock.toNat st.1
  | .rename id name => st.2.name id name st.1
  | .tell id uid msg => st.2.tell id uid msg st.1
  | .yell id msg => st.2.yell id msg st.1
  | .who id => st.2.who id st.1

/-- The operation and the handlers behind it. -/
def shmTurn (ids : List Int) (st : Proc × ShmServer) (op : ChatOp) :
    Outcome ((Proc × ShmServer) × List (Int × Text)) := do
  let (k, server) ← op.shmStep st
  let (texts, server) ← server.killAll k ids
  .ok ((k, server), texts)

/-- The FIFOs after the operation: those of somebody who leaves are removed. -/
def fifosAfter (fifos : Int → Int → Bool) : ChatOp → Int → Int → Bool
  | .leave id => fun sender receiver => fifos sender receiver &&
      !((sender == id && ShmServer.slots.contains receiver) ||
        (receiver == id && ShmServer.slots.contains sender))
  | _ => fifos

/-- A turn that ends. -/
def shmNext (st : Proc × ShmServer) (event : ChatOp × List Int) : Option (Proc × ShmServer) :=
  ((event.1.shmTurn event.2 st).map Prod.fst).toOption

/-- A proper operation, with every process behind it.  Somebody enters only if there is a place, and
`tell` is about one of the places. -/
structure ShmEnabled (st : Proc × ShmServer) (event : ChatOp × List Int) : Prop where
  proper : event.1.Proper st.2.guests
  handlers : event.2.Perm ShmServer.slots
  place : ∀ ip port sock pid, event.1 = .enter ip port sock pid →
    ∃ id : Int, 1 ≤ id ∧ id < maxConn ∧ st.2.guests id = none
  target : ∀ id uid msg, event.1 = .tell id uid msg → 1 ≤ uid ∧ uid < maxConn

end ChatOp

namespace ShmServer

/-- The text of a reply was printed, and each of its messages was printed by its receiver, as far as
it fits into the buffer. -/
structure Answered (old new : Proc × ShmServer) (texts : List (Int × Text)) (reply : Reply) :
    Prop where
  printed : printedText new.1.log = printedText old.1.log ++ reply.printed
  heard : ∀ id, printedBy id texts = (reply.told id).elim [] Mailboxes.formatted

/-- A slot without a user has no name. -/
def Vacant (server : ShmServer) : Prop :=
  ∀ id user, server.users id = some user → user.isConnected = false → user.name = []

/-- Between two operations all buffers are empty. -/
structure Calm (server : ShmServer) : Prop where
  table : server.Table
  drained : ∀ id user, server.users id = some user → user.buffer = []
  vacant : server.Vacant

/-- The text is printed and the messages are in the buffers; the signals are not handled yet. -/
structure Sent (st st' : Proc × ShmServer) (reply : Reply) : Prop where
  table : st'.2.Table
  vacant : st'.2.Vacant
  printed : printedText st'.1.log = printedText st.1.log ++ reply.printed
  buffers : ∀ id user, st'.2.users id = some user →
    user.buffer = (reply.told id).elim [] Mailboxes.formatted
  nobody : ∀ id, st'.2.users id = none → reply.told id = none

/-- What an operation has done before the signals are handled. -/
structure SentBy (op : ChatOp) (st st' : Proc × ShmServer) (reply : Reply) : Prop
    extends Sent st st' reply where
  stepped : st.2.guests.Step op reply st'.2.guests
  fifos : st'.2.fifos = op.fifosAfter st.2.fifos

section Handlers

variable {server : ShmServer} {k : Proc} {ids : List Int} {id : Int}

/-- The buffer of a record. -/
def bufferOf (server : ShmServer) (id : Int) : Text := (server.users id).elim [] ShmUser.buffer

/-- The records after the handlers of some processes. -/
def emptied (server : ShmServer) (ids : List Int) : ShmServer where
  users := fun i =>
    if i ∈ ids then (server.users i).map fun user => { user with buffer := [] }
    else server.users i
  fifos := server.fifos
  touched := server.touched ++ ids

theorem kill_eq {user : ShmUser} (found : server.users id = some user) :
    kill id k server = .ok (server.bufferOf id, server.emptied [id]) := by
  rw [ShmServer.kill, user_ok found, bufferOf, found]
  apply congrArg Except.ok
  apply congrArg (Prod.mk user.buffer)
  apply ShmServer.ext
  · funext i
    by_cases here : i = id
    · subst here
      simp [emptied, setUser, found]
    · simp [emptied, setUser, here]
  · rfl
  · rfl

theorem emptied_cons : (server.emptied [id]).emptied ids = server.emptied (id :: ids) := by
  apply ShmServer.ext
  · funext i
    by_cases here : i = id
    · subst here
      by_cases later : i ∈ ids
      · simp [emptied, later, Option.map_map, Function.comp_def]
      · simp [emptied, later]
    · simp [emptied, here]
  · rfl
  · simp [emptied]

/-- Each of some processes prints its buffer. -/
theorem killAll_eq (distinct : ids.Nodup) (there : ∀ id ∈ ids, server.users id ≠ none) :
    killAll k ids server = .ok (ids.map fun id => (id, server.bufferOf id), server.emptied ids) := by
  induction ids generalizing server with
  | nil => simp [killAll, emptied]
  | cons id rest ih =>
      obtain ⟨user, found⟩ := Option.ne_none_iff_exists'.mp (there id List.mem_cons_self)
      obtain ⟨fresh, distinct⟩ := List.nodup_cons.mp distinct
      have same : ∀ i ∈ rest, (server.emptied [id]).users i = server.users i := by
        intro i member
        have other : i ≠ id := by
          rintro rfl
          exact fresh member
        simp [emptied, other]
      have there' : ∀ i ∈ rest, (server.emptied [id]).users i ≠ none := by
        intro i member
        rw [same i member]
        exact there i (List.mem_cons_of_mem _ member)
      have texts : (rest.map fun i => (i, (server.emptied [id]).bufferOf i)) =
          rest.map fun i => (i, server.bufferOf i) := by
        apply List.map_congr_left
        intro i member
        rw [bufferOf, same i member]
        rfl
      rw [killAll, kill_eq found]
      show (killAll k rest (server.emptied [id]) >>= _) = _
      rw [ih distinct there', texts, emptied_cons]
      rfl

theorem printedBy_map (distinct : ids.Nodup) (text : Int → Text) :
    printedBy id (ids.map fun i => (i, text i)) = if id ∈ ids then text id else [] := by
  induction ids with
  | nil => rfl
  | cons i rest ih =>
      obtain ⟨fresh, distinct⟩ := List.nodup_cons.mp distinct
      have split : printedBy id ((i :: rest).map fun i => (i, text i)) =
          (if i = id then text i else []) ++ printedBy id (rest.map fun i => (i, text i)) := rfl
      rw [split, ih distinct]
      by_cases here : i = id
      · subst here
        simp [fresh]
      · simp [here, Ne.symm here]

end Handlers

section Room

variable {server : ShmServer} {id : Int} {user : ShmUser} {msg : Text} {k : Proc}

theorem guests_found (found : server.users id = some user) :
    server.guests id = if user.isConnected then some user.guest else none := by
  rw [guests, found]
  rfl

theorem guests_ne_none : server.guests id ≠ none ↔ server.Connected id := by
  rw [guests, Connected]
  cases server.users id with
  | none => simp
  | some user => simp

theorem Connected.guest (me : server.Connected id) : ∃ user, server.users id = some user ∧
    user.isConnected = true ∧ server.guests id = some user.guest := by
  obtain ⟨user, found, on⟩ := me
  exact ⟨user, found, on, by rw [guests_found found, if_pos on]⟩

theorem guests_setUser (server : ShmServer) (id : Int) (user : ShmUser) :
    (server.setUser id user).guests =
      server.guests.put id (if user.isConnected then some user.guest else none) := by
  funext i
  rw [guests, setUser_users]
  by_cases here : i = id
  · rw [if_pos here, here, Roster.put_same]
    rfl
  · rw [if_neg here, Roster.put_of_ne here]
    rfl

@[simp] theorem guests_told (msg : Text) (server : ShmServer) :
    (server.told msg).guests = server.guests := by
  funext i
  simp only [guests, told]
  cases server.users i with
  | none => rfl
  | some user =>
      cases on : user.isConnected with
      | false => simp [delivered, on]
      | true => simp [delivered, on, ShmUser.guest]

@[simp] theorem guests_emptied (server : ShmServer) (ids : List Int) :
    (server.emptied ids).guests = server.guests := by
  funext i
  simp only [guests, emptied]
  split
  · cases server.users i with
    | none => rfl
    | some user => rfl
  · rfl

theorem roster_guests {name : Text} :
    server.roster id = some name ↔ ∃ guest, server.guests id = some guest ∧ guest.name = name := by
  rw [roster, guests]
  cases server.users id with
  | none => simp
  | some user => simp [ShmUser.guest]

/-- After a broadcast everybody's buffer holds the message. -/
theorem told_buffers (drained : ∀ id user, server.users id = some user → user.buffer = [])
    (found : (server.told msg).users id = some user) :
    user.buffer = (server.guests.everybody msg id).elim [] Mailboxes.formatted := by
  obtain ⟨old, there, rfl⟩ := Option.map_eq_some_iff.mp found
  rw [Room.everybody, guests_found there]
  cases on : old.isConnected with
  | false => simp [delivered, on, drained id old there]
  | true => simp [delivered, on]

theorem told_nobody (absent : (server.told msg).users id = none) :
    server.guests.everybody msg id = none := by
  have away := Option.map_eq_none_iff.mp absent
  simp [Room.everybody, guests, away]

theorem SentBy.of {op : ChatOp} {st st' : Proc × ShmServer} {room : Room} {reply : Reply}
    (stepped : st.2.guests.Step op reply room) (sent : Sent st st' reply)
    (same : st'.2.guests = room) (fifos : st'.2.fifos = op.fifosAfter st.2.fifos) :
    SentBy op st st' reply := ⟨sent, same ▸ stepped, fifos⟩

theorem told_vacant (vacant : server.Vacant) (msg : Text) : (server.told msg).Vacant := by
  intro i user found
  obtain ⟨old, there, rfl⟩ := Option.map_eq_some_iff.mp found
  simpa using vacant i old there

theorem setUser_vacant (vacant : server.Vacant) (seated : user.isConnected = false → user.name = []) :
    (server.setUser id user).Vacant := by
  intro i user' found
  rw [setUser_users] at found
  split at found
  · cases found
    exact seated
  · exact vacant i user' found

/-- A broadcast at the end of an operation. -/
theorem Calm.broadcast (calm : server.Calm) (msg : Text) {st : Proc × ShmServer} {printed : Text}
    {messages : Int → Option Text} (all : server.guests.everybody msg = messages)
    (texts : printedText k.log = printedText st.1.log ++ printed) :
    Sent st (k, server.told msg) ⟨printed, messages⟩ where
  table := told_table calm.table
  vacant := told_vacant calm.vacant msg
  printed := texts
  buffers := by
    intro i user found
    rw [← all]
    exact told_buffers calm.drained found
  nobody := by
    intro i absent
    rw [← all]
    exact told_nobody absent

/-- An operation that sends nothing. -/
theorem Calm.silent (calm : server.Calm) {st : Proc × ShmServer} {printed : Text}
    (texts : printedText k.log = printedText st.1.log ++ printed) :
    Sent st (k, server) ⟨printed, Room.nobody⟩ where
  table := calm.table
  vacant := calm.vacant
  printed := texts
  buffers := calm.drained
  nobody := fun _ _ => rfl

/-- An operation that sends one message. -/
theorem Calm.one (calm : server.Calm) (msg : Text) {st : Proc × ShmServer} {uid : Int} {receiver : ShmUser}
    (found : server.users uid = some receiver) (texts : printedText k.log = printedText st.1.log) :
    Sent st (k, server.setUser uid { receiver with buffer := Mailboxes.formatted msg })
      ⟨[], Room.only uid msg⟩ where
  table := setUser_table calm.table
    ((calm.table uid).mp (by rw [found]; exact Option.some_ne_none _)) _
  vacant := setUser_vacant calm.vacant (calm.vacant uid receiver found)
  printed := by rw [texts, List.append_nil]
  buffers := by
    intro i user there
    rw [setUser_users] at there
    by_cases here : i = uid
    · rw [if_pos here] at there
      cases there
      simp [Room.only, here]
    · rw [if_neg here] at there
      simp [Room.only, here, calm.drained i user there]
  nobody := by
    intro i absent
    rw [setUser_users] at absent
    by_cases here : i = uid
    · simp [here] at absent
    · simp [Room.only, here]

theorem Calm.setUser (calm : server.Calm) (inside : 1 ≤ id ∧ id < maxConn) (user : ShmUser)
    (drained : user.buffer = []) (seated : user.isConnected = false → user.name = []) :
    (server.setUser id user).Calm := by
  refine ⟨setUser_table calm.table inside user, ?_, setUser_vacant calm.vacant seated⟩
  intro i user' there
  rw [setUser_users] at there
  split at there
  · cases there
    exact drained
  · exact calm.drained i user' there

theorem Calm.of_users {new : ShmServer} (calm : server.Calm) (same : new.users = server.users) :
    new.Calm := by
  refine ⟨fun i => ?_, fun i user found => ?_, fun i user found => ?_⟩
  · rw [same]
    exact calm.table i
  · exact calm.drained i user (same ▸ found)
  · exact calm.vacant i user (same ▸ found)

theorem guests_setUser_same {old : ShmUser} (found : server.users id = some old)
    (on : user.isConnected = old.isConnected) (same : user.guest = old.guest) :
    (server.setUser id user).guests = server.guests := by
  rw [guests_setUser, on, same, ← guests_found found]
  funext i
  by_cases here : i = id
  · rw [here, Roster.put_same]
  · rw [Roster.put_of_ne here]

/-- Once the signals are handled everybody has got his message, and all buffers are empty. -/
theorem Sent.handled {st st' : Proc × ShmServer} {reply : Reply} {ids : List Int}
    (written : Sent st st' reply) (handlers : ids.Perm slots) :
    ∃ result, killAll st'.1 ids st'.2 = .ok result ∧ result.2.Calm ∧
      result.2.guests = st'.2.guests ∧ result.2.fifos = st'.2.fifos ∧
      Answered st (st'.1, result.2) result.1 reply := by
  have all : ∀ i, i ∈ ids ↔ 1 ≤ i ∧ i < maxConn := fun i => handlers.mem_iff.trans mem_slots
  have distinct : ids.Nodup := handlers.nodup_iff.mpr (by decide)
  have there : ∀ i ∈ ids, st'.2.users i ≠ none := fun i member =>
    (written.table i).mpr ((all i).mp member)
  refine ⟨_, killAll_eq distinct there, ?_, guests_emptied _ _, rfl, ?_⟩
  · constructor
    · intro i
      rw [← written.table i]
      simp only [emptied]
      split
      · exact not_congr Option.map_eq_none_iff
      · rfl
    · intro i user found
      simp only [emptied] at found
      split at found
      · obtain ⟨old, -, rfl⟩ := Option.map_eq_some_iff.mp found
        rfl
      · rename_i outside
        rw [written.table.null fun inside => outside ((all i).mpr inside)] at found
        cases found
    · intro i user found
      simp only [emptied] at found
      split at found
      · obtain ⟨old, there, rfl⟩ := Option.map_eq_some_iff.mp found
        exact written.vacant i old there
      · exact written.vacant i user found
  · constructor
    · exact written.printed
    · intro i
      rw [printedBy_map distinct]
      cases found : st'.2.users i with
      | none =>
          simp [written.nobody i found, bufferOf, found]
      | some user =>
          have inside := (written.table i).mp (by rw [found]; exact Option.some_ne_none _)
          rw [if_pos ((all i).mpr inside), bufferOf, found]
          exact written.buffers i user found

end Room

end ShmServer

namespace ChatOp

open ShmServer

variable {st : Proc × ShmServer} {id uid : Int} {ip name msg : Text} {port : Int} {sock : Nat}
  {pid : Int} {op : ChatOp}

/-- The operation comes to its signals. -/
def Writes (op : ChatOp) (st : Proc × ShmServer) : Prop :=
  ∃ st' reply, op.shmStep st = .ok st' ∧ SentBy op st st' reply

theorem Writes.intro {st' : Proc × ShmServer} {reply : Reply} (written : SentBy op st st' reply)
    (ended : op.shmStep st = .ok st') : Writes op st := ⟨st', reply, ended, written⟩

/-- The first free slot is the least one. -/
theorem minKey_free (server : ShmServer) (k : Proc) {id : Int} (table : server.Table)
    (free : ¬ server.Connected id) (n : Nat) {key : Int} (low : 1 ≤ key) (above : key ≤ id)
    (below : id < key + n) (high : key + n = maxConn)
    (taken : ∀ i, key ≤ i → i < id → server.Connected i) :
    ShmServer.minKey k server ((List.range n).map fun (i : Nat) => (i : Int) + key) key = .ok id := by
  induction n generalizing key with
  | zero => omega
  | succ n ih =>
      have later : (List.range (n + 1)).map (fun (i : Nat) => (i : Int) + key) =
          key :: (List.range n).map fun (i : Nat) => (i : Int) + (key + 1) := by
        rw [List.range_succ_eq_map, List.map_cons, List.map_map, Nat.cast_zero, zero_add]
        congr 2
        funext i
        simp only [Function.comp_apply, Nat.succ_eq_add_one]
        omega
      obtain ⟨user, found⟩ := Option.ne_none_iff_exists'.mp ((table key).mpr (by omega))
      rw [later, ShmServer.minKey, isConnected_found found]
      by_cases here : key = id
      · subst here
        have off : user.isConnected = false := eq_false_of_ne_true fun on => free ⟨user, found, on⟩
        simp [bind, Except.bind, off]
      · obtain ⟨user', found', on⟩ := taken key (le_refl key) (by omega)
        cases found.symm.trans found'
        simp only [bind, Except.bind, on, if_true]
        apply ih
        · omega
        · omega
        · omega
        · omega
        · intro i low' below'
          exact taken i (by omega) below'

theorem exists_leastFree {room : Room} (place : ∃ id : Int, 1 ≤ id ∧ id < maxConn ∧ room id = none) :
    ∃ id : Int, room.LeastFree id ∧ id < maxConn := by
  obtain ⟨least, ⟨low, high, free⟩, first⟩ := Int.exists_least_of_bdd
    (P := fun id => 1 ≤ id ∧ id < maxConn ∧ room id = none) ⟨1, fun _ inside => inside.1⟩ place
  refine ⟨least, ⟨low, free, ?_⟩, high⟩
  intro i low' below away
  exact absurd (first i ⟨low', by omega, away⟩) (not_le.mpr below)

theorem printedText_close_fd (k : Proc) (fd : Fd) : printedText (k.close fd).log = printedText k.log := by
  cases fd with
  | none => rfl
  | some fd =>
      rw [Proc.close, printedText_append, printedText_close]
      exact List.append_nil _

theorem printedText_closePipes (pipes : Fin maxConn → Pipe) (k : Proc) :
    printedText (closePipes pipes k).log = printedText k.log := by
  rw [closePipes]
  generalize (List.finRange maxConn).drop 1 = ends
  induction ends generalizing k with
  | nil => rfl
  | cons i rest ih =>
      rw [List.foldl_cons, ih, Pipe.closePipe, printedText_close_fd, printedText_close_fd]

theorem addUser_ended {server : ShmServer} {user : ShmUser} (ip : Text) (port : Int)
    (sock : Nat) (pid : Int) (k : Proc)
    (first : ∀ k, ShmServer.minKey k server slots 1 = .ok id)
    (found : server.users id = some user) :
    ∃ k', server.addUser ip port sock pid k = .ok (k', setUser id (loggedIn ip port sock pid user)
        { server with touched := server.touched ++ [id] }) ∧
      printedText k'.log = printedText k.log ++ Room.acceptedMsg ip port id := by
  rw [ShmServer.addUser]
  simp only [bind, Except.bind, first, user_ok found]
  refine ⟨_, rfl, ?_⟩
  rw [printedText_closePipes]
  simp only [Proc.logEvent, printedText_append, printedText_cout, printedText_nil, List.append_nil]
  rw [List.append_assoc]
  rfl

theorem enter_writes (calm : st.2.Calm)
    (place : ∃ id : Int, 1 ≤ id ∧ id < maxConn ∧ st.2.guests id = none) :
    Writes (.enter ip port sock pid) st := by
  obtain ⟨id, least, high⟩ := exists_leastFree place
  have low := least.positive
  obtain ⟨user, found⟩ := Option.ne_none_iff_exists'.mp ((calm.table id).mpr ⟨low, high⟩)
  have first : ∀ k, ShmServer.minKey k st.2 slots 1 = .ok id := by
    intro k
    apply minKey_free st.2 k calm.table _ (maxConn - 1) (le_refl 1) low
    · simp only [maxConn] at *
      omega
    · rfl
    · intro i low' below
      exact guests_ne_none.mp (least.least i low' below)
    · exact fun on => guests_ne_none.mpr on least.free
  obtain ⟨k', ended, texts⟩ := addUser_ended ip port sock pid st.1 first found
  have calm' : Calm { st.2 with touched := st.2.touched ++ [id] } := calm.of_users rfl
  have settled := calm'.setUser ⟨low, high⟩ (loggedIn ip port sock pid user)
    (calm.drained id user found) (fun off => Bool.noConfusion off)
  exact .intro (.of (.enter least) (settled.silent texts) (guests_setUser _ id _) rfl) ended

theorem welcome_writes (calm : st.2.Calm) (me : st.2.Connected id) : Writes (.welcome id) st := by
  obtain ⟨user, found, on, guest⟩ := me.guest
  have calm' : Calm { st.2 with touched := st.2.touched ++ [id] } := calm.of_users rfl
  refine .intro (.of (.welcome guest) (calm'.one _ found rfl)
    (guests_setUser_same found rfl rfl) rfl) ?_
  rw [shmStep, sendRawMessage, user_ok found]
  rfl

theorem announce_writes (calm : st.2.Calm) (me : st.2.Connected id) :
    Writes (.announce id ip port) st := by
  obtain ⟨user, found, on, guest⟩ := me.guest
  have calm' : Calm { st.2 with touched := st.2.touched ++ [id] } := calm.of_users rfl
  refine .intro (.of (.announce guest) (calm'.broadcast _ rfl (List.append_nil _).symm)
    (guests_told _ _) rfl) ?_
  rw [shmStep, user_ok found]
  exact congrArg (· >>= fun server => .ok (st.1, server)) (broadcastMessage_eq calm'.table)

theorem yell_writes (calm : st.2.Calm) (me : st.2.Connected id) : Writes (.yell id msg) st := by
  obtain ⟨user, found, on, guest⟩ := me.guest
  have calm' : Calm { st.2 with touched := st.2.touched ++ [id] } := calm.of_users rfl
  refine .intro (.of (.yell guest) (calm'.broadcast _ rfl (List.append_nil _).symm)
    (guests_told _ _) rfl) ?_
  rw [shmStep, ShmServer.yell, user_ok found]
  exact congrArg (· >>= fun server => .ok (st.1, server)) (broadcastMessage_eq calm'.table)

theorem tell_writes (calm : st.2.Calm) (me : st.2.Connected id) (inside : 1 ≤ uid ∧ uid < maxConn) :
    Writes (.tell id uid msg) st := by
  obtain ⟨user, found, on, guest⟩ := me.guest
  obtain ⟨receiver, there⟩ := Option.ne_none_iff_exists'.mp ((calm.table uid).mpr inside)
  have seen := guests_found there
  by_cases on' : receiver.isConnected = true
  · have present : st.2.guests uid ≠ none := guests_ne_none.mpr ⟨receiver, there, on'⟩
    have exist : st.2.isConnected uid st.1 = .ok true := by rw [isConnected_found there, on']
    have calm' : Calm { st.2 with touched := st.2.touched ++ [id] ++ [uid] } := calm.of_users rfl
    have there' : ({ st.2 with touched := st.2.touched ++ [id] } : ShmServer).users uid =
        some receiver := there
    refine .intro (.of (.tell guest present) (calm'.one _ there rfl)
      (guests_setUser_same there rfl rfl) rfl) ?_
    rw [shmStep, ShmServer.tell, exist]
    simp only [bind, Except.bind, user_ok found]
    rw [sendRawMessage, user_ok there']
    rfl
  · rw [if_neg on'] at seen
    have exist : st.2.isConnected uid st.1 = .ok false := by
      rw [isConnected_found there, eq_false_of_ne_true on']
    refine .intro (.of (.tellNobody seen)
      (calm.silent (k := st.1.logEvent (.cout (ChatServer.notExistMsg uid))) ?_) rfl rfl) ?_
    · rw [Proc.logEvent, printedText_append, printedText_cout, printedText_nil, List.append_nil]
    · rw [shmStep, ShmServer.tell, exist]
      rfl

theorem rename_writes (calm : st.2.Calm) (me : st.2.Connected id) (plain : '\x00' ∉ name)
    (short : name.length < maxUserNameLen) : Writes (.rename id name) st := by
  obtain ⟨user, found, on, guest⟩ := me.guest
  by_cases taken : ∃ i, st.2.roster i = some name
  · have someone : ∃ i guest, st.2.guests i = some guest ∧ guest.name = name := by
      obtain ⟨i, there⟩ := taken
      exact ⟨i, roster_guests.mp there⟩
    obtain ⟨touched, ended⟩ : ∃ touched, st.2.name id name st.1 =
        .ok (st.1.logEvent (.cout (ChatServer.takenMsg name)), { st.2 with touched }) :=
      name_taken calm.table taken
    have calm' : Calm { st.2 with touched } := calm.of_users rfl
    refine .intro (.of (.renameTaken someone) (calm'.silent ?_) rfl rfl) ended
    rw [Proc.logEvent, printedText_append, printedText_cout, printedText_nil, List.append_nil]
  · have free : ∀ i, st.2.roster i ≠ some name := fun i there => taken ⟨i, there⟩
    have new : ∀ i guest, st.2.guests i = some guest → guest.name ≠ name := fun i guest there same =>
      free i (roster_guests.mpr ⟨guest, there, same⟩)
    have inside := calm.table.inside me
    have renamed : (setUser id { user with name } { st.2 with
        touched := st.2.touched ++ (slots.filter st.2.isOn ++ [id]) }).guests =
        st.2.guests.put id (some { user.guest with name }) := by
      rw [guests_setUser, if_pos on]
      rfl
    have calm' : Calm { st.2 with
        touched := st.2.touched ++ (slots.filter st.2.isOn ++ [id]) } := calm.of_users rfl
    have settled := calm'.setUser inside { user with name } (calm.drained id user found)
      fun off => absurd (on.symm.trans off) Bool.noConfusion
    refine .intro (.of (.rename guest new) (settled.broadcast _ ?_ (List.append_nil _).symm)
      ((guests_told _ _).trans renamed) rfl) (name_free calm.table free found plain short)
    rw [renamed]
    exact Room.everybody_put (guests_ne_none.mpr me) _ _

theorem removeUser_ended {server : ShmServer} {user : ShmUser} (table : server.Table)
    (found : server.users id = some user) (sock : Nat) (k : Proc) :
    ∃ (k' : Proc) (server' : ShmServer), server.removeUser id sock k =
        .ok (k', server'.told (ChatServer.logoutMsg user.name)) ∧
      server'.users = (setUser id .zeroed server).users ∧
      server'.fifos = (ChatOp.leave id).fifosAfter server.fifos ∧
      printedText k'.log = printedText k.log ++ Room.closedMsg user.guest id := by
  have inside := (table id).mp (by rw [found]; exact Option.some_ne_none _)
  rw [removeUser, user_ok found]
  simp only [bind, Except.bind]
  rw [broadcastMessage_eq]
  · refine ⟨_, _, rfl, rfl, rfl, ?_⟩
    rw [printedText_close_fd]
    simp only [Proc.logEvent, printedText_append, printedText_cout, printedText_nil,
      List.append_nil]
    rw [List.append_assoc]
    rfl
  · exact setUser_table table inside .zeroed

theorem leave_writes (calm : st.2.Calm) (me : st.2.Connected id) : Writes (.leave id) st := by
  obtain ⟨user, found, on, guest⟩ := me.guest
  have inside := calm.table.inside me
  have table : Table { st.2 with touched := st.2.touched ++ [id] } := calm.table
  obtain ⟨k', server', ended, users, fifos, texts⟩ :=
    removeUser_ended table found user.sock.toNat st.1
  have left : server'.guests = st.2.guests.put id none := by
    have same : server'.guests = (setUser id .zeroed st.2).guests := by
      funext i
      rw [guests, users]
      rfl
    rw [same, guests_setUser]
    rfl
  have calm' : Calm { st.2 with touched := st.2.touched ++ [id] } := calm.of_users rfl
  have settled := (calm'.setUser inside .zeroed rfl fun _ => rfl).of_users users
  refine .intro (.of (.leave guest) (settled.broadcast _ (by rw [left]) texts)
    ((guests_told _ _).trans left) fifos) ?_
  rw [shmStep, user_ok found]
  exact ended

/-- The guests in some slots. -/
def listedIn (server : ShmServer) (ids : List Int) : List (Int × Guest) :=
  ids.filterMap fun i => (server.guests i).map fun guest => (i, guest)

theorem whoLines_ended (id : Int) {server : ShmServer} {ids : List Int}
    (there : ∀ i ∈ ids, server.users i ≠ none) (k : Proc) :
    ∃ k' touched, whoLines id ids k server = .ok (k', { server with touched }) ∧
      printedText k'.log = printedText k.log ++ (listedIn server ids).flatMap (Room.whoLine id) := by
  induction ids generalizing server k with
  | nil => exact ⟨k, server.touched, rfl, (List.append_nil _).symm⟩
  | cons i rest ih =>
      obtain ⟨user, found⟩ := Option.ne_none_iff_exists'.mp (there i List.mem_cons_self)
      have others : ∀ j ∈ rest,
          ({ server with touched := server.touched ++ [i] } : ShmServer).users j ≠ none :=
        fun j member => there j (List.mem_cons_of_mem _ member)
      have seen := guests_found found
      rw [whoLines, isConnected_found found]
      by_cases on : user.isConnected = true
      · simp only [bind, Except.bind, on, if_true, user_ok found]
        obtain ⟨k', touched, ended, texts⟩ :=
          ih others (k.logEvent (.cout (Room.whoLine id (i, user.guest))))
        refine ⟨k', touched, ended, ?_⟩
        rw [if_pos on] at seen
        rw [texts, Proc.logEvent, printedText_append, printedText_cout, printedText_nil,
          List.append_nil, List.append_assoc, listedIn, listedIn, List.filterMap_cons, seen]
        rfl
      · rw [if_neg on] at seen
        obtain ⟨k', touched, ended, texts⟩ :=
          ih (fun j member => there j (List.mem_cons_of_mem _ member)) k
        refine ⟨k', touched, ?_, ?_⟩
        · simp only [bind, Except.bind, if_neg on]
          exact ended
        · rw [texts, listedIn, listedIn, List.filterMap_cons, seen]
          rfl

theorem listedIn_slots {server : ShmServer} (table : server.Table) :
    server.guests.Listed (listedIn server slots) := by
  have ordered : slots.Pairwise (· < ·) := by decide
  constructor
  · rw [listedIn, List.pairwise_filterMap]
    apply ordered.imp
    intro a b less entry there entry' there'
    obtain ⟨guest, -, rfl⟩ := Option.map_eq_some_iff.mp there
    obtain ⟨guest', -, rfl⟩ := Option.map_eq_some_iff.mp there'
    exact less
  · intro i guest
    rw [listedIn, List.mem_filterMap]
    constructor
    · intro listed
      obtain ⟨j, -, there⟩ := listed
      obtain ⟨guest', found, same⟩ := Option.map_eq_some_iff.mp there
      cases same
      exact found
    · intro found
      have on : server.Connected i := guests_ne_none.mp (by rw [found]; exact Option.some_ne_none _)
      exact ⟨i, mem_slots.mpr (table.inside on), by rw [found]; rfl⟩

theorem who_writes (calm : st.2.Calm) : Writes (.who id) st := by
  have there : ∀ i ∈ slots, st.2.users i ≠ none := fun i member =>
    (calm.table i).mpr (mem_slots.mp member)
  obtain ⟨k', touched, ended, texts⟩ :=
    whoLines_ended id there (st.1.logEvent (.cout Room.whoHeader))
  have calm' : Calm { st.2 with touched } := calm.of_users rfl
  refine .intro (.of (.who (listedIn_slots calm.table)) (calm'.silent ?_) rfl rfl) ended
  rw [texts, Proc.logEvent, printedText_append, printedText_cout, printedText_nil, List.append_nil,
    List.append_assoc]

/-- What one operation does before the signals. -/
theorem writes (calm : st.2.Calm) {ids : List Int} (enabled : ShmEnabled st (op, ids)) :
    op.Writes st := by
  obtain ⟨⟨acts, fits⟩, handlers, place, target⟩ := enabled
  have actor : ∀ id ∈ op.actor, st.2.Connected id := fun id member =>
    guests_ne_none.mp (acts id member)
  cases op with
  | enter ip port sock pid => exact enter_writes calm (place ip port sock pid rfl)
  | welcome id => exact welcome_writes calm (actor id rfl)
  | announce id ip port => exact announce_writes calm (actor id rfl)
  | leave id => exact leave_writes calm (actor id rfl)
  | rename id name =>
      obtain ⟨plain, short⟩ := fits id name rfl
      exact rename_writes calm (actor id rfl) plain short
  | tell id uid msg => exact tell_writes calm (actor id rfl) (target id uid msg rfl)
  | yell id msg => exact yell_writes calm (actor id rfl)
  | who id => exact who_writes calm

/-- A step of the room, and its reply. -/
def ShmRefines (op : ChatOp) (st st' : Proc × ShmServer) (texts : List (Int × Text)) : Prop :=
  ∃ reply, st.2.guests.Step op reply st'.2.guests ∧ ShmServer.Answered st st' texts reply

/-- What one operation does with the handlers behind it. -/
theorem turn_sound (calm : st.2.Calm) {ids : List Int} (enabled : ShmEnabled st (op, ids)) :
    ∃ st' texts, op.shmTurn ids st = .ok (st', texts) ∧ st'.2.Calm ∧ op.ShmRefines st st' texts := by
  obtain ⟨mid, reply, ended, written⟩ := writes calm enabled
  obtain ⟨result, handled, calm', guests, -, answered⟩ := written.handled enabled.handlers
  refine ⟨(mid.1, result.2), result.1, ?_, calm', reply, guests ▸ written.stepped, answered⟩
  rw [shmTurn, ended]
  simp only [bind, Except.bind, handled]

theorem createSHMUser_calm : createSHMUser.Calm := by
  have zeroed : ∀ id user, createSHMUser.users id = some user → user = .zeroed := by
    intro i user found
    simp only [createSHMUser] at found
    split at found
    · exact (Option.some.inj found).symm
    · cases found
  refine ⟨createSHMUser_table, fun i user found => ?_, fun i user found _ => ?_⟩
  · rw [zeroed i user found]
    rfl
  · rw [zeroed i user found]
    rfl

/-- The operation is enabled in both builds. -/
def BothEnabled (st : (Proc × ChatServer) × (Proc × ShmServer)) (event : ChatOp × List Int) : Prop :=
  Enabled st.1 event.1 ∧ ShmEnabled st.2 event

/-- What the two builds have in common. -/
structure Together (st : (Proc × ChatServer) × (Proc × ShmServer)) : Prop where
  settled : st.1.2.Settled
  calm : st.2.2.Calm
  same : st.1.2.guests = st.2.2.guests

theorem Together.agree {st : (Proc × ChatServer) × (Proc × ShmServer)} (together : Together st)
    {event : ChatOp × List Int} (enabled : BothEnabled st event) :
    ∃ single shm texts, event.1.step st.1 = .ok single ∧
      event.1.shmTurn event.2 st.2 = .ok (shm, texts) ∧ Together (single, shm) ∧
      ∃ reply, ChatServer.Answered st.1 single reply ∧
        ShmServer.Answered st.2 shm texts reply := by
  have sound := sound together.settled enabled.1
  obtain ⟨shm, texts, turned, calm, reply', stepped', answered'⟩ := turn_sound together.calm enabled.2
  cases ended : event.1.step st.1 with
  | error stopped => exact (sound.of_error ended).elim
  | ok single =>
      obtain ⟨settled, reply, stepped, answered⟩ := sound.of_ok ended
      rw [together.same] at stepped
      obtain ⟨rfl, same⟩ := stepped.unique stepped'
      exact ⟨single, shm, texts, rfl, turned, ⟨settled, calm, same⟩, reply, answered, answered'⟩

end ChatOp

theorem enter_enabled {st : Proc × ShmServer} (first : st.2.guests 1 = none) (ip : Text) (port : Int)
    (sock : Nat) (pid : Int) : ChatOp.ShmEnabled st (.enter ip port sock pid, ShmServer.slots) where
  proper := ⟨fun _ member => (nomatch member), fun _ _ same => nomatch same⟩
  handlers := List.Perm.refl _
  place := fun _ _ _ _ _ => ⟨1, le_refl 1, by decide, first⟩
  target := fun _ _ _ same => nomatch same

end NetProg
