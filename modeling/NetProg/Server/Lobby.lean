import NetProg.Server.ChatRoomShm
import NetProg.Server.ShmAnnouncements

/-!
# The lobby of `np_multi_proc`

The chat room together with the user pipes: who has an unread pipe for whom.  With `CONFIG_SHM` the
pipes are FIFOs, and a logout removes those from and to the user, so a pipe lives as long as both
users do.  The whole server, with signals handled between two operations, is a lobby.  A pipe of the
lobby has no content: what a read copies, and whether the loop that copies it ends, is the matter of
`FifoReads.copied_iff`.
-/

namespace NetProg

open ChatServer (userPipeErrorMsg handleUserPipeError index)

/-- The guests, and the pairs of a sender and a receiver with an unread pipe. -/
structure Lobby where
  room : Room
  pipes : Int → Int → Bool

/-- An operation of the chat, or a user pipe of a command line. -/
inductive LobbyOp where
  | chat (op : ChatOp)
  | read (id readUid : Int) (currPipe : Pipe) (line : Text) (writeUid : Int)
  | write (id writeUid : Int) (currPipe : Pipe) (line : Text) (readUid : Int)

namespace Lobby

/-- The name of a guest, and of nobody. -/
def nameOf (lobby : Lobby) (id : Int) : Text := (lobby.room id).elim [] Guest.name

/-- What a read tells everybody; one that goes on with a write speaks for the write as well. -/
def readMsg (lobby : Lobby) (id readUid : Int) (line : Text) (writeUid : Int) : Text :=
  receivedMsg (lobby.nameOf id) id (lobby.nameOf readUid) readUid line ++
    if writeUid ≠ 0 then pipedMsg (lobby.nameOf id) id (lobby.nameOf writeUid) writeUid line else []

/-- What an operation does. -/
inductive Step (lobby : Lobby) : LobbyOp → Reply → Lobby → Prop
  | chat {op : ChatOp} {reply : Reply} {room : Room} (stepped : lobby.room.Step op reply room) :
      Step lobby (.chat op) reply
        ⟨room, fun s r => lobby.pipes s r && (room s).isSome && (room r).isSome⟩
  | readAbsent {id readUid writeUid : Int} {p : Pipe} {line : Text}
      (absent : lobby.room readUid = none) :
      Step lobby (.read id readUid p line writeUid)
        ⟨userPipeErrorMsg id readUid .rdonly .userNotExist, Room.nobody⟩ lobby
  | readNothing {id readUid writeUid : Int} {p : Pipe} {line : Text}
      (there : lobby.room readUid ≠ none) (nothing : lobby.pipes readUid id = false) :
      Step lobby (.read id readUid p line writeUid)
        ⟨userPipeErrorMsg id readUid .rdonly .pipeErr, Room.nobody⟩ lobby
  | read {id readUid writeUid : Int} {p : Pipe} {line : Text}
      (there : lobby.room readUid ≠ none) (waits : lobby.pipes readUid id = true) :
      Step lobby (.read id readUid p line writeUid)
        ⟨[], lobby.room.everybody (lobby.readMsg id readUid line writeUid)⟩
        ⟨lobby.room, fun s r => lobby.pipes s r && !(s == readUid && r == id)⟩
  | writeAbsent {id writeUid readUid : Int} {p : Pipe} {line : Text}
      (absent : lobby.room writeUid = none) :
      Step lobby (.write id writeUid p line readUid)
        ⟨userPipeErrorMsg id writeUid .wronly .userNotExist, Room.nobody⟩ lobby
  | writeTaken {id writeUid readUid : Int} {p : Pipe} {line : Text}
      (there : lobby.room writeUid ≠ none) (taken : lobby.pipes id writeUid = true) :
      Step lobby (.write id writeUid p line readUid)
        ⟨userPipeErrorMsg id writeUid .wronly .pipeErr, Room.nobody⟩ lobby
  | write {id writeUid readUid : Int} {p : Pipe} {line : Text}
      (here : lobby.room id ≠ none) (there : lobby.room writeUid ≠ none)
      (free : lobby.pipes id writeUid = false) :
      Step lobby (.write id writeUid p line readUid)
        ⟨[], if readUid = 0 then lobby.room.everybody
          (pipedMsg (lobby.nameOf id) id (lobby.nameOf writeUid) writeUid line) else Room.nobody⟩
        ⟨lobby.room, fun s r => lobby.pipes s r || (s == id && r == writeUid)⟩

/-- Pipes are between guests. -/
def Paired (lobby : Lobby) : Prop :=
  ∀ s r, lobby.pipes s r = true → lobby.room s ≠ none ∧ lobby.room r ≠ none

variable {lobby lobby' : Lobby} {op : LobbyOp} {reply : Reply}

theorem Step.paired (stepped : lobby.Step op reply lobby') (paired : lobby.Paired) :
    lobby'.Paired := by
  cases stepped with
  | chat stepped =>
      intro s r pipe
      simp only [Bool.and_eq_true, Option.isSome_iff_ne_none] at pipe
      exact ⟨pipe.1.2, pipe.2⟩
  | readAbsent absent => exact paired
  | readNothing there nothing => exact paired
  | read there waits =>
      intro s r pipe
      exact paired s r (Bool.and_eq_true _ _ ▸ pipe).1
  | writeAbsent absent => exact paired
  | writeTaken there taken => exact paired
  | write here there free =>
      intro s r pipe
      simp only [Bool.or_eq_true, Bool.and_eq_true, beq_iff_eq] at pipe
      rcases pipe with old | ⟨rfl, rfl⟩
      · exact paired s r old
      · exact ⟨here, there⟩

end Lobby

namespace ShmServer

/-- What the users see. -/
def lobby (server : ShmServer) : Lobby := ⟨server.guests, server.fifos⟩

end ShmServer

namespace ShmServer

variable {server new : ShmServer} {id uid other : Int} {user : ShmUser} {p : Pipe} {line : Text}
  {k : Proc}

/-- A record tells the name, also that of a slot without a user. -/
theorem Calm.nameOf (calm : server.Calm) (found : server.users uid = some user) :
    server.lobby.nameOf uid = user.name := by
  show (server.guests uid).elim [] Guest.name = user.name
  rw [guests_found found]
  cases on : user.isConnected with
  | true => rfl
  | false => exact (calm.vacant uid user found on).symm

theorem handleUserPipeError_texts (id uid : Int) (mode : Mode) (err : UserPipeErr) (k : Proc) :
    printedText (handleUserPipeError id uid mode err k).2.log =
      printedText k.log ++ userPipeErrorMsg id uid mode err := by
  rw [handleUserPipeError, openFile_log, Proc.logEvent, printedText_append, printedText_cout,
    printedText_nil, List.append_nil]

theorem readFIFOWritePipe_texts (fd : Fd) (k : Proc) :
    printedText (readFIFOWritePipe fd k).log = printedText k.log := by
  unfold readFIFOWritePipe
  cases made : k.pipe2 (.user k.serving) with
  | none => rfl
  | some ends =>
      obtain ⟨first, second, k'⟩ := ends
      have same : k'.log = k.log := pipe2_log made
      dsimp only
      rw [ChatOp.printedText_close_fd, ← same, ← ChatOp.printedText_close_fd k' (some second)]
      cases fd <;> rfl

theorem exists_position (table : server.Table) (connected : server.Connected id) :
    ∃ i : Fin maxConn, ∀ k, index id k = .ok i := by
  obtain ⟨low, high⟩ := table.inside connected
  cases position : pipeIndex id with
  | none =>
      have outside := (pipeIndex_eq_none low).mp position
      omega
  | some i => exact ⟨i, fun k => index_inside position⟩

section Handle

variable {user' : ShmUser} {i : Fin maxConn}

/-- The answers of `handleUserPipe` for a user who is there. -/
theorem handleUserPipe_taken (small : uid < maxConn) (found : server.users uid = some user)
    (on : user.isConnected = true) (position : ∀ k, index id k = .ok i)
    (taken : server.fifos id uid = true) :
    server.handleUserPipe id uid .wronly k =
      .ok (true, true, k, { server with touched := server.touched ++ [uid] }) := by
  have seen : server.isConnected uid k = .ok true := by rw [isConnected_found found, on]
  rw [handleUserPipe, if_neg (by omega), seen]
  simp only [bind, Except.bind, Bool.not_true, Bool.false_eq_true, if_false, user_ok found, position]
  rw [if_pos taken]

theorem handleUserPipe_free (small : uid < maxConn) (found : server.users uid = some user)
    (on : user.isConnected = true) (position : ∀ k, index id k = .ok i)
    (free : server.fifos id uid = false) :
    ∃ k' pipes, k'.log = k.log ∧ server.handleUserPipe id uid .wronly k =
      .ok (true, false, k', { setUser uid { user with userPipes := pipes }
        { server with touched := server.touched ++ [uid] } with
          fifos := fun s r => server.fifos s r || (s == id && r == uid) }) := by
  refine ⟨_, Function.update user.userPipes i
    { user.userPipes i with outFd := (k.openFile (fifoDir id uid)).1 },
    openFile_log k (fifoDir id uid), ?_⟩
  have seen : server.isConnected uid k = .ok true := by rw [isConnected_found found, on]
  rw [handleUserPipe, if_neg (by omega), seen]
  simp only [bind, Except.bind, Bool.not_true, Bool.false_eq_true, if_false, user_ok found, position]
  rw [if_neg (by rw [free]; decide)]
  rfl

theorem handleUserPipe_nothing (small : uid < maxConn) (found : server.users uid = some user)
    (on : user.isConnected = true) (here : server.users id = some user')
    (position : ∀ k, index uid k = .ok i) (nothing : server.fifos uid id = false) :
    server.handleUserPipe id uid .rdonly k =
      .ok (true, false, k, { server with touched := server.touched ++ [id] }) := by
  have seen : server.isConnected uid k = .ok true := by rw [isConnected_found found, on]
  rw [handleUserPipe, if_neg (by omega), seen]
  simp only [bind, Except.bind, Bool.not_true, Bool.false_eq_true, if_false, user_ok here, position]
  rw [if_neg (by rw [nothing]; decide)]

theorem handleUserPipe_waits (small : uid < maxConn) (found : server.users uid = some user)
    (on : user.isConnected = true) (here : server.users id = some user')
    (position : ∀ k, index uid k = .ok i) (waits : server.fifos uid id = true) :
    ∃ k' pipes, k'.log = k.log ∧ server.handleUserPipe id uid .rdonly k =
      .ok (true, true, k', setUser id { user' with userPipes := pipes }
        { server with touched := server.touched ++ [id] }) := by
  refine ⟨_, Function.update user'.userPipes i
    { user'.userPipes i with inFd := (k.openFile (fifoDir uid id)).1 },
    openFile_log k (fifoDir uid id), ?_⟩
  have seen : server.isConnected uid k = .ok true := by rw [isConnected_found found, on]
  rw [handleUserPipe, if_neg (by omega), seen]
  simp only [bind, Except.bind, Bool.not_true, Bool.false_eq_true, if_false, user_ok here, position]
  rw [if_pos waits]

end Handle

/-- A FIFO that may be read is opened; nothing that is seen changes. -/
theorem opens_read (calm : server.Calm) (me : server.Connected id) (there : server.Connected uid)
    (waits : server.fifos uid id = true) :
    ∃ (k' : Proc) (mid : ShmServer), server.handleUserPipe id uid .rdonly k =
        .ok (true, true, k', mid) ∧ k'.log = k.log ∧ mid.Calm ∧ mid.guests = server.guests ∧
      mid.fifos = server.fifos := by
  obtain ⟨i, position⟩ := exists_position calm.table there
  obtain ⟨low, high⟩ := calm.table.inside there
  have inside := calm.table.inside me
  obtain ⟨sender, found, on⟩ := there
  obtain ⟨receiver, here, on'⟩ := me
  obtain ⟨k', pipes, log, handled⟩ := handleUserPipe_waits high found on here position waits (k := k)
  have touched : Calm { server with touched := server.touched ++ [id] } := calm.of_users rfl
  refine ⟨k', _, handled, log, ?_, guests_setUser_same here rfl rfl, rfl⟩
  exact touched.setUser inside _ (calm.drained id receiver here) (calm.vacant id receiver here)

/-- A FIFO that may be written is made and opened. -/
theorem opens_write (calm : server.Calm) (me : server.Connected id) (there : server.Connected uid)
    (free : server.fifos id uid = false) :
    ∃ (k' : Proc) (mid : ShmServer), server.handleUserPipe id uid .wronly k =
        .ok (true, false, k', mid) ∧ k'.log = k.log ∧ mid.Calm ∧ mid.guests = server.guests ∧
      mid.fifos = fun s r => server.fifos s r || (s == id && r == uid) := by
  obtain ⟨i, position⟩ := exists_position calm.table me
  obtain ⟨low, high⟩ := calm.table.inside there
  obtain ⟨receiver, found, on⟩ := there
  obtain ⟨k', pipes, log, handled⟩ := handleUserPipe_free high found on position free (k := k)
  have touched : Calm { server with touched := server.touched ++ [uid] } := calm.of_users rfl
  refine ⟨k', _, handled, log, ?_, guests_setUser_same found rfl rfl, rfl⟩
  exact (touched.setUser ⟨low, high⟩ { receiver with userPipes := pipes }
    (calm.drained uid receiver found) (calm.vacant uid receiver found)).of_users rfl

/-- A read that is granted. -/
theorem readUserPipe_granted (p : Pipe) (line : Text) (other : Int) (k : Proc)
    (calm : server.Calm) (me : server.Connected id)
    (there : server.Connected uid) (waits : server.fifos uid id = true)
    (safe : other ≠ 0 → 1 ≤ other ∧ other < maxConn) :
    ∃ (result : Pipe) (k' : Proc) (new : ShmServer), server.readUserPipe id uid p line other k =
        .ok (result, k', new.told (server.lobby.readMsg id uid line other)) ∧
      new.Calm ∧ new.guests = server.guests ∧
      new.fifos = (fun s r => server.fifos s r && !(s == uid && r == id)) ∧
      printedText k'.log = printedText k.log := by
  obtain ⟨i, position⟩ := exists_position calm.table there
  obtain ⟨k₁, mid, handled, log, calm₁, guests, fifos⟩ := opens_read calm me there waits (k := k)
  obtain ⟨sender, found⟩ := Option.ne_none_iff_exists'.mp
    ((calm₁.table uid).mpr (calm.table.inside there))
  obtain ⟨receiver, here⟩ := Option.ne_none_iff_exists'.mp
    ((calm₁.table id).mpr (calm.table.inside me))
  have names : ∀ {i user}, mid.users i = some user → server.lobby.nameOf i = user.name := by
    intro i user found
    rw [← calm₁.nameOf found]
    show (server.guests i).elim [] Guest.name = (mid.guests i).elim [] Guest.name
    rw [guests]
  obtain ⟨⟨fd, k₂⟩, opened⟩ : ∃ opened, (readFIFOWritePipe (receiver.userPipes i).inFd k₁).dup
      (receiver.userPipes i).inFd = opened := ⟨_, rfl⟩
  have texts : printedText k₂.log = printedText k.log := by
    have same := dup_log (readFIFOWritePipe (receiver.userPipes i).inFd k₁) (receiver.userPipes i).inFd
    rw [opened] at same
    rw [same, readFIFOWritePipe_texts, log]
  have less : (fun s r => mid.fifos s r && !(s == uid && r == id)) =
      fun s r => server.fifos s r && !(s == uid && r == id) := by rw [fifos]
  have broadcast : ∀ touched msg k', broadcastMessage msg k'
      ⟨mid.users, fun s r => mid.fifos s r && !(s == uid && r == id), touched⟩ =
      .ok (told msg ⟨mid.users, fun s r => mid.fifos s r && !(s == uid && r == id), touched⟩) :=
    fun touched msg k' => broadcastMessage_eq (calm₁.of_users rfl).table
  have here' : ∀ touched, (⟨mid.users, mid.fifos, touched⟩ : ShmServer).users id = some receiver :=
    fun _ => here
  rw [readUserPipe, handled]
  simp only [bind, Except.bind, Bool.not_true, Bool.false_eq_true, if_false, if_true, position]
  rw [user_ok found]
  dsimp only
  rw [user_ok (here' _)]
  dsimp only
  by_cases none : other = 0
  · have msg : server.lobby.readMsg id uid line other =
        receivedMsg receiver.name id sender.name uid line := by
      rw [Lobby.readMsg, names here, names found, if_neg (not_not.mpr none), List.append_nil]
    rw [if_neg (not_not.mpr none), msg, broadcast]
    unfold receivedMsg
    simp only [opened]
    exact ⟨_, _, _, rfl, calm₁.of_users rfl, guests, less, texts⟩
  · obtain ⟨target, seat⟩ := Option.ne_none_iff_exists'.mp ((calm₁.table other).mpr (safe none))
    have seat' : ∀ touched, (⟨mid.users, mid.fifos, touched⟩ : ShmServer).users other = some target :=
      fun _ => seat
    have msg : server.lobby.readMsg id uid line other =
        receivedMsg receiver.name id sender.name uid line ++
          pipedMsg receiver.name id target.name other line := by
      rw [Lobby.readMsg, names here, names found, names seat, if_pos none]
    rw [if_pos none, user_ok (seat' _), msg]
    dsimp only
    rw [broadcast]
    refine ⟨⟨fd, Option.none⟩, k₂, ⟨mid.users, fun s r => mid.fifos s r && !(s == uid && r == id),
      mid.touched ++ [uid] ++ [id] ++ [other]⟩, ?_, calm₁.of_users rfl, guests, less, texts⟩
    unfold receivedMsg pipedMsg
    simp only [List.append_assoc, opened]

/-- A write that is granted; it is silent behind a read. -/
theorem writeUserPipe_granted (p : Pipe) (line : Text) (other : Int) (k : Proc)
    (calm : server.Calm) (me : server.Connected id)
    (there : server.Connected uid) (free : server.fifos id uid = false) :
    ∃ (result : Pipe) (k' : Proc) (new : ShmServer), server.writeUserPipe id uid p line other k =
        .ok (result, k', if other = 0 then
          new.told (pipedMsg (server.lobby.nameOf id) id (server.lobby.nameOf uid) uid line) else new) ∧
      new.Calm ∧ new.guests = server.guests ∧
      new.fifos = (fun s r => server.fifos s r || (s == id && r == uid)) ∧
      printedText k'.log = printedText k.log := by
  obtain ⟨i, position⟩ := exists_position calm.table me
  obtain ⟨k₁, mid, handled, log, calm₁, guests, fifos⟩ := opens_write calm me there free (k := k)
  obtain ⟨receiver, found⟩ := Option.ne_none_iff_exists'.mp
    ((calm₁.table uid).mpr (calm.table.inside there))
  obtain ⟨sender, here⟩ := Option.ne_none_iff_exists'.mp
    ((calm₁.table id).mpr (calm.table.inside me))
  have names : ∀ {i user}, mid.users i = some user → server.lobby.nameOf i = user.name := by
    intro i user found
    rw [← calm₁.nameOf found]
    show (server.guests i).elim [] Guest.name = (mid.guests i).elim [] Guest.name
    rw [guests]
  obtain ⟨⟨fd, k₂⟩, opened⟩ : ∃ opened, k₁.dup (receiver.userPipes i).outFd = opened := ⟨_, rfl⟩
  have texts : printedText k₂.log = printedText k.log := by
    have same := dup_log k₁ (receiver.userPipes i).outFd
    rw [opened] at same
    rw [same, log]
  have found' : ∀ touched, (⟨mid.users, mid.fifos, touched⟩ : ShmServer).users uid = some receiver :=
    fun _ => found
  have broadcast : ∀ touched msg k', broadcastMessage msg k' ⟨mid.users, mid.fifos, touched⟩ =
      .ok (told msg ⟨mid.users, mid.fifos, touched⟩) :=
    fun touched msg k' => broadcastMessage_eq (calm₁.of_users rfl).table
  rw [writeUserPipe, handled]
  simp only [bind, Except.bind, Bool.not_true, Bool.not_false, Bool.false_eq_true, if_false, if_true,
    position]
  rw [user_ok here]
  dsimp only
  rw [user_ok (found' _)]
  dsimp only
  by_cases alone : other = 0
  · rw [if_neg (not_not.mpr alone), names here, names found, broadcast]
    unfold pipedMsg
    simp only [if_pos alone, opened]
    exact ⟨_, _, _, rfl, calm₁.of_users rfl, guests, fifos, texts⟩
  · rw [if_pos alone]
    simp only [if_neg alone, opened]
    exact ⟨_, _, _, rfl, calm₁.of_users rfl, guests, fifos, texts⟩

/-- A read without a FIFO. -/
theorem readUserPipe_nothing (calm : server.Calm) (me : server.Connected id)
    (there : server.Connected uid) (nothing : server.fifos uid id = false) :
    server.readUserPipe id uid p line other k =
      .ok (⟨(handleUserPipeError id uid .rdonly .pipeErr k).1, none⟩,
        (handleUserPipeError id uid .rdonly .pipeErr k).2,
        { server with touched := server.touched ++ [id] }) := by
  obtain ⟨i, position⟩ := exists_position calm.table there
  obtain ⟨low, high⟩ := calm.table.inside there
  obtain ⟨sender, found, on⟩ := there
  obtain ⟨receiver, here, on'⟩ := me
  rw [readUserPipe, handleUserPipe_nothing high found on here position nothing]
  rfl

/-- A write to a FIFO that is there. -/
theorem writeUserPipe_taken (calm : server.Calm) (me : server.Connected id)
    (there : server.Connected uid) (taken : server.fifos id uid = true) :
    server.writeUserPipe id uid p line other k =
      .ok (⟨none, (handleUserPipeError id uid .wronly .pipeErr k).1⟩,
        (handleUserPipeError id uid .wronly .pipeErr k).2,
        { server with touched := server.touched ++ [uid] }) := by
  obtain ⟨i, position⟩ := exists_position calm.table me
  obtain ⟨low, high⟩ := calm.table.inside there
  obtain ⟨receiver, found, on⟩ := there
  rw [writeUserPipe, handleUserPipe_taken high found on position taken]
  rfl

end ShmServer

/-- Whoever does not leave stays. -/
theorem Room.Step.stays {room room' : Room} {op : ChatOp} {reply : Reply} {i : Int}
    (stepped : room.Step op reply room') (other : op ≠ .leave i) (present : room i ≠ none) :
    room' i ≠ none := by
  have put : ∀ {id guest}, Roster.put room id (some guest) i ≠ none := by
    intro id guest
    by_cases here : i = id
    · rw [here, Roster.put_same]
      exact Option.some_ne_none _
    · rw [Roster.put_of_ne here]
      exact present
  cases stepped with
  | enter least => exact put
  | rename there free => exact put
  | leave there =>
      rw [Roster.put_of_ne fun same => other (congrArg ChatOp.leave same.symm)]
      exact present
  | _ => exact present

namespace LobbyOp

/-- The operation in the process of its user, up to the signals. -/
def shmStep (st : Proc × ShmServer) : LobbyOp → Outcome (Proc × ShmServer)
  | .chat op => op.shmStep st
  | .read id readUid currPipe line writeUid => do
      let (_, k, server) ← st.2.readUserPipe id readUid currPipe line writeUid st.1
      .ok (k, server)
  | .write id writeUid currPipe line readUid => do
      let (_, k, server) ← st.2.writeUserPipe id writeUid currPipe line readUid st.1
      .ok (k, server)

/-- The operation and the handlers behind it. -/
def shmTurn (ids : List Int) (st : Proc × ShmServer) (op : LobbyOp) :
    Outcome ((Proc × ShmServer) × List (Int × Text)) := do
  let (k, server) ← op.shmStep st
  let (texts, server) ← server.killAll k ids
  .ok ((k, server), texts)

/-- A turn that ends. -/
def shmNext (st : Proc × ShmServer) (event : LobbyOp × List Int) : Option (Proc × ShmServer) :=
  ((event.1.shmTurn event.2 st).map Prod.fst).toOption

/-- User pipes are used by users.  The shell calls for positive numbers only, and 31, which the check
of `handleUserPipe` lets through, is not used; a line that also writes names one of the places. -/
def Proper (st : Proc × ShmServer) : LobbyOp → Prop
  | .chat op => op.Proper st.2.guests ∧
      (∀ ip port sock pid, op = .enter ip port sock pid →
        ∃ id : Int, 1 ≤ id ∧ id < maxConn ∧ st.2.guests id = none) ∧
      ∀ id uid msg, op = .tell id uid msg → 1 ≤ uid ∧ uid < maxConn
  | .read id readUid _ _ writeUid => st.2.guests id ≠ none ∧ 0 < readUid ∧ readUid ≠ maxConn ∧
      (writeUid ≠ 0 → 1 ≤ writeUid ∧ writeUid < maxConn)
  | .write id writeUid _ _ _ => st.2.guests id ≠ none ∧ 0 < writeUid ∧ writeUid ≠ maxConn

/-- A proper operation, with every process behind it. -/
structure Enabled (st : Proc × ShmServer) (event : LobbyOp × List Int) : Prop where
  proper : event.1.Proper st
  handlers : event.2.Perm ShmServer.slots

open ShmServer

variable {st : Proc × ShmServer} {op : LobbyOp}

/-- The operation comes to its signals, and is a step of the lobby. -/
def Writes (op : LobbyOp) (st : Proc × ShmServer) : Prop :=
  ∃ st' reply, op.shmStep st = .ok st' ∧ Sent st st' reply ∧ st.2.lobby.Step op reply st'.2.lobby

/-- A pipe goes when one of its users leaves. -/
theorem chat_fifos (calm : st.2.Calm) (paired : st.2.lobby.Paired) {op : ChatOp} {reply : Reply}
    {room : Room} (stepped : st.2.guests.Step op reply room) :
    op.fifosAfter st.2.fifos =
      fun s r => st.2.fifos s r && (room s).isSome && (room r).isSome := by
  funext s r
  cases pipe : st.2.fifos s r with
  | false => cases op <;> simp [ChatOp.fifosAfter, pipe]
  | true =>
      obtain ⟨sender, receiver⟩ := paired s r pipe
      by_cases leaves : ∃ id, op = .leave id
      · obtain ⟨id, rfl⟩ := leaves
        have seat : ∀ {i}, st.2.guests i ≠ none → slots.contains i = true := by
          intro i present
          exact List.contains_iff_mem.mpr
            (mem_slots.mpr (calm.table.inside (guests_ne_none.mp present)))
        cases stepped with
        | leave there =>
            have stays : ∀ {i}, st.2.guests i ≠ none →
                (Roster.put st.2.guests id none i).isSome = !(i == id) := by
              intro i present
              by_cases here : i = id
              · simp [here]
              · simp [Roster.put_of_ne here, here, Option.isSome_iff_ne_none.mpr present]
            rw [stays sender, stays receiver, ChatOp.fifosAfter]
            dsimp only
            rw [pipe, seat sender, seat receiver]
            simp
      · have stays : ∀ {i}, st.2.guests i ≠ none → (room i).isSome = true := fun present =>
          Option.isSome_iff_ne_none.mpr
            (stepped.stays (fun same => leaves ⟨_, same⟩) present)
        rw [stays sender, stays receiver]
        cases op with
        | leave id => exact absurd ⟨id, rfl⟩ leaves
        | _ => simp [ChatOp.fifosAfter, pipe]

theorem chat_writes (calm : st.2.Calm) (paired : st.2.lobby.Paired) {op : ChatOp} {ids : List Int}
    (enabled : ChatOp.ShmEnabled st (op, ids)) : Writes (.chat op) st := by
  obtain ⟨st', reply, ended, written⟩ := ChatOp.writes calm enabled
  refine ⟨st', reply, ended, written.toSent, ?_⟩
  have stepped : Lobby.Step st.2.lobby (.chat op) reply _ := .chat written.stepped
  have same := written.fifos.trans (chat_fifos calm paired written.stepped)
  have after : st'.2.lobby = ⟨st'.2.guests, fun s r =>
      st.2.lobby.pipes s r && (st'.2.guests s).isSome && (st'.2.guests r).isSome⟩ :=
    congrArg (Lobby.mk st'.2.guests) same
  rw [after]
  exact stepped

theorem read_writes (calm : st.2.Calm) {id readUid : Int} {p : Pipe} {line : Text} {writeUid : Int}
    (proper : Proper st (.read id readUid p line writeUid)) :
    Writes (.read id readUid p line writeUid) st := by
  obtain ⟨present, low, inside, safe⟩ := proper
  have me := guests_ne_none.mp present
  by_cases there : st.2.Connected readUid
  · have there' : st.2.lobby.room readUid ≠ none := guests_ne_none.mpr there
    cases waits : st.2.fifos readUid id with
    | true =>
        obtain ⟨result, k', new, ended, calm', guests, fifos, texts⟩ :=
          readUserPipe_granted p line writeUid st.1 calm me there waits safe
        have stepped : Lobby.Step st.2.lobby (.read id readUid p line writeUid) _ _ :=
          .read there' waits
        have sent : Sent st (k', new.told (st.2.lobby.readMsg id readUid line writeUid)) _ :=
          calm'.broadcast _ rfl (texts.trans (List.append_nil _).symm)
        refine ⟨_, _, ?_, sent, ?_⟩
        · rw [shmStep, ended]
          rfl
        · rw [guests]
          have after : lobby (new.told (st.2.lobby.readMsg id readUid line writeUid)) =
              ⟨st.2.guests, fun s r => st.2.fifos s r && !(s == readUid && r == id)⟩ := by
            rw [lobby, guests_told, guests]
            exact congrArg (Lobby.mk st.2.guests) fifos
          rw [after]
          exact stepped
    | false =>
        have calm' : Calm { st.2 with touched := st.2.touched ++ [id] } := calm.of_users rfl
        have texts := handleUserPipeError_texts id readUid .rdonly .pipeErr st.1
        refine ⟨_, _, ?_, calm'.silent texts, .readNothing there' waits⟩
        rw [shmStep, readUserPipe_nothing calm me there waits]
        rfl
  · have texts := handleUserPipeError_texts id readUid .rdonly .userNotExist st.1
    have absent : st.2.lobby.room readUid = none := by
      by_contra present
      exact there (guests_ne_none.mp present)
    refine ⟨_, _, ?_, calm.silent texts, .readAbsent absent⟩
    rw [shmStep, readUserPipe_absent calm.table there low inside]
    rfl

theorem write_writes (calm : st.2.Calm) {id writeUid : Int} {p : Pipe} {line : Text} {readUid : Int}
    (proper : Proper st (.write id writeUid p line readUid)) :
    Writes (.write id writeUid p line readUid) st := by
  obtain ⟨present, low, inside⟩ := proper
  have me := guests_ne_none.mp present
  by_cases there : st.2.Connected writeUid
  · have there' : st.2.lobby.room writeUid ≠ none := guests_ne_none.mpr there
    cases taken : st.2.fifos id writeUid with
    | false =>
        obtain ⟨result, k', new, ended, calm', guests, fifos, texts⟩ :=
          writeUserPipe_granted p line readUid st.1 calm me there taken
        have stepped : Lobby.Step st.2.lobby (.write id writeUid p line readUid) _ _ :=
          .write present there' taken
        by_cases alone : readUid = 0
        · have sent : Sent st (k', new.told (pipedMsg (st.2.lobby.nameOf id) id
              (st.2.lobby.nameOf writeUid) writeUid line)) _ :=
            calm'.broadcast _ rfl (texts.trans (List.append_nil _).symm)
          refine ⟨_, _, ?_, sent, ?_⟩
          · rw [shmStep, ended, if_pos alone]
            rfl
          · have after : lobby (new.told (pipedMsg (st.2.lobby.nameOf id) id
                (st.2.lobby.nameOf writeUid) writeUid line)) =
                ⟨st.2.guests, fun s r => st.2.fifos s r || (s == id && r == writeUid)⟩ := by
              rw [lobby, guests_told, guests]
              exact congrArg (Lobby.mk st.2.guests) fifos
            rw [if_pos alone] at stepped
            rw [guests, after]
            exact stepped
        · have sent : Sent st (k', new) ⟨[], Room.nobody⟩ :=
            calm'.silent (texts.trans (List.append_nil _).symm)
          refine ⟨_, _, ?_, sent, ?_⟩
          · rw [shmStep, ended, if_neg alone]
            rfl
          · have after : lobby new =
                ⟨st.2.guests, fun s r => st.2.fifos s r || (s == id && r == writeUid)⟩ := by
              rw [lobby, guests]
              exact congrArg (Lobby.mk st.2.guests) fifos
            rw [if_neg alone] at stepped
            rw [after]
            exact stepped
    | true =>
        have calm' : Calm { st.2 with touched := st.2.touched ++ [writeUid] } := calm.of_users rfl
        have texts := handleUserPipeError_texts id writeUid .wronly .pipeErr st.1
        refine ⟨_, _, ?_, calm'.silent texts, .writeTaken there' taken⟩
        rw [shmStep, writeUserPipe_taken calm me there taken]
        rfl
  · have texts := handleUserPipeError_texts id writeUid .wronly .userNotExist st.1
    have absent : st.2.lobby.room writeUid = none := by
      by_contra present
      exact there (guests_ne_none.mp present)
    refine ⟨_, _, ?_, calm.silent texts, .writeAbsent absent⟩
    rw [shmStep, writeUserPipe_absent calm.table there low inside]
    rfl

/-- What one operation does with the handlers behind it. -/
theorem turn_sound (calm : st.2.Calm) (paired : st.2.lobby.Paired) {ids : List Int}
    (enabled : Enabled st (op, ids)) :
    ∃ st' texts reply, op.shmTurn ids st = .ok (st', texts) ∧ st'.2.Calm ∧
      st.2.lobby.Step op reply st'.2.lobby ∧ Answered st st' texts reply := by
  obtain ⟨proper, handlers⟩ := enabled
  have writes : Writes op st := by
    cases op with
    | chat op =>
        obtain ⟨proper, place, target⟩ := proper
        exact chat_writes calm paired ⟨proper, handlers, place, target⟩
    | read id readUid p line writeUid => exact read_writes calm proper
    | write id writeUid p line readUid => exact write_writes calm proper
  obtain ⟨mid, reply, ended, sent, stepped⟩ := writes
  obtain ⟨result, handled, calm', guests, fifos, answered⟩ := sent.handled handlers
  have same : result.2.lobby = mid.2.lobby := by rw [lobby, lobby, guests, fifos]
  refine ⟨(mid.1, result.2), result.1, reply, ?_, calm', same ▸ stepped, answered⟩
  rw [shmTurn, ended]
  simp only [bind, Except.bind, handled]

theorem calm_of_reached {k : Proc} (reached : Reached shmNext Enabled (k, .createSHMUser) st) :
    st.2.Calm ∧ st.2.lobby.Paired := by
  apply reached.invariant (p := fun st => st.2.Calm ∧ st.2.lobby.Paired)
  · exact ⟨ChatOp.createSHMUser_calm, fun s r pipe => Bool.noConfusion pipe⟩
  · intro st st' event holds enabled stepped
    obtain ⟨st'', texts, reply, ended, calm', step, -⟩ := turn_sound holds.1 holds.2 enabled
    rw [shmNext, ended] at stepped
    cases stepped
    exact ⟨calm', step.paired holds.2⟩

end LobbyOp

/-- `np_multi_proc` is a lobby: in every state that logins, logouts, the commands of the chat and user
pipes reach, the next operation is performed and is a step of the lobby, with the right text for the
one who acts and for everybody else.  Pipes are only ever between users who are logged in. -/
theorem shm_refines_lobby {k : Proc} {st : Proc × ShmServer}
    (reached : Reached LobbyOp.shmNext LobbyOp.Enabled (k, .createSHMUser) st) :
    st.2.lobby.Paired ∧ ∀ op ids, LobbyOp.Enabled st (op, ids) →
      ∃ st' texts reply, op.shmTurn ids st = .ok (st', texts) ∧
        st.2.lobby.Step op reply st'.2.lobby ∧ ShmServer.Answered st st' texts reply := by
  obtain ⟨calm, paired⟩ := LobbyOp.calm_of_reached reached
  refine ⟨paired, ?_⟩
  intro op ids enabled
  obtain ⟨st', texts, reply, ended, -, stepped, answered⟩ := LobbyOp.turn_sound calm paired enabled
  exact ⟨st', texts, reply, ended, stepped, answered⟩

/-- The first user logs in and writes to himself. -/
theorem shm_refines_lobby_write : ∃ st st' texts reply,
    LobbyOp.shmNext (someProc, .createSHMUser)
      (.chat (.enter "10.0.0.1".toList 5001 4 77), ShmServer.slots) = some st ∧
    LobbyOp.shmTurn ShmServer.slots st (.write 1 1 .cleared "ls >1".toList 0) = .ok (st', texts) ∧
    st.2.lobby.Step (.write 1 1 .cleared "ls >1".toList 0) reply st'.2.lobby ∧
    ShmServer.Answered st st' texts reply := by
  have began : Reached LobbyOp.shmNext LobbyOp.Enabled _ (someProc, ShmServer.createSHMUser) := .start
  have entering : LobbyOp.Enabled (someProc, ShmServer.createSHMUser)
      (.chat (.enter "10.0.0.1".toList 5001 4 77), ShmServer.slots) := by
    have enabled : ChatOp.ShmEnabled (someProc, ShmServer.createSHMUser)
        (.enter "10.0.0.1".toList 5001 4 77, ShmServer.slots) := enter_enabled rfl ..
    exact ⟨⟨enabled.proper, enabled.place, enabled.target⟩, enabled.handlers⟩
  have entered := began.step entering rfl
  obtain ⟨st', texts, reply, ended, stepped, answered⟩ := (shm_refines_lobby entered).2
    (.write 1 1 .cleared "ls >1".toList 0) ShmServer.slots
    ⟨⟨by decide, by decide, by decide⟩, List.Perm.refl _⟩
  exact ⟨_, st', texts, reply, rfl, ended, stepped, answered⟩

end NetProg
