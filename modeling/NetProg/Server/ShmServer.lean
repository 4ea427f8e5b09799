import NetProg.Server.ChatServer
import NetProg.Server.Mailbox

/-!
# The class `chatServer` with `CONFIG_SHM`

The build of `np_multi_proc`: the records of at most 30 users lie in shared memory, every user
has a process of his own, and user pipes are FIFOs.  The functions are those of one process,
run without interference; `users[id]` of any other number is a null pointer.
-/

namespace NetProg

/-- `UserInfo` (`np_project2/server/chatServer.hpp:24-35`) in shared memory. -/
structure ShmUser where
  userPipes : Fin maxConn → Pipe
  port : Int
  sock : Int
  pid : Int
  buffer : Text
  ip : Text
  name : Text
  isConnected : Bool

/-- `memset(users[id], 0, sizeof(UserInfo))`. -/
def ShmUser.zeroed : ShmUser := ⟨fun _ => ⟨some 0, some 0⟩, 0, 0, 0, [], [], [], false⟩

/-- What the processes share (`np_project2/server/chatServer.hpp:37-93`).  `touched` lists the
records that were used for more than a look at `isConnected`; it is for the statements only. -/
@[ext] structure ShmServer where
  users : Int → Option ShmUser
  /-- The FIFO of a sender and a receiver exists. -/
  fifos : Int → Int → Bool
  touched : List Int

namespace ShmServer

/-- `createSHMUser` (`np_project2/server/chatServer.cpp:111-127`). -/
def createSHMUser : ShmServer :=
  ⟨fun i => if 1 ≤ i ∧ i < maxConn then some .zeroed else none, fun _ _ => false, []⟩

/-- The ids that the loops go through. -/
def slots : List Int := (List.range (maxConn - 1)).map fun (i : Nat) => (i : Int) + 1

/-- `users[id]->`, to use the record. -/
def user (id : Int) (k : Proc) (server : ShmServer) : Outcome (ShmUser × ShmServer) :=
  match server.users id with
  | none => .error (.undefined, k)
  | some user => .ok (user, { server with touched := server.touched ++ [id] })

/-- `users[id]->isConnected`. -/
def isConnected (id : Int) (k : Proc) (server : ShmServer) : Outcome Bool :=
  match server.users id with
  | none => .error (.undefined, k)
  | some user => .ok user.isConnected

def setUser (id : Int) (user : ShmUser) (server : ShmServer) : ShmServer :=
  { server with users := Function.update server.users id (some user) }

/-- `sendRawMessage` (`np_project2/server/chatServer.cpp:40-47`) up to the signal. -/
def sendRawMessage (uid : Int) (msg : Text) (k : Proc) (server : ShmServer) :
    Outcome ShmServer := do
  let (receiver, server) ← server.user uid k
  .ok (server.setUser uid { receiver with buffer := Mailboxes.formatted msg })

/-- The loop of `broadcastMessage`. -/
def broadcastTo (msg : Text) (k : Proc) : List Int → ShmServer → Outcome ShmServer
  | [], server => .ok server
  | id :: ids, server => do
      let connected ← server.isConnected id k
      let server ← if connected then sendRawMessage id msg k server else .ok server
      broadcastTo msg k ids server

/-- `broadcastMessage` (`np_project2/server/chatServer.cpp:49-63`). -/
def broadcastMessage (msg : Text) (k : Proc) (server : ShmServer) : Outcome ShmServer :=
  broadcastTo msg k slots server

/-- The loop of `addUser` that looks for the first free slot. -/
def minKey (k : Proc) (server : ShmServer) : List Int → Int → Outcome Int
  | [], key => .ok key
  | id :: rest, key => do
      let connected ← server.isConnected id k
      if connected then minKey k server rest (key + 1) else .ok key

/-- `closePipe` of the pipes from every other id. -/
def closePipes (pipes : Fin maxConn → Pipe) (k : Proc) : Proc :=
  ((List.finRange maxConn).drop 1).foldl (fun k i => (pipes i).closePipe k) k

/-- `addUser` (`np_project2/server/chatServer.cpp:138-177`). -/
def addUser (ip : Text) (port : Int) (sock : Int) (pid : Int) (k : Proc) (server : ShmServer) :
    Outcome (Proc × ShmServer) := do
  let k := k.logEvent (.cout ("accept new connection from ip ".toList ++ ip ++ ", port ".toList ++
    Text.decimal port ++ "\n".toList))
  let id ← minKey k server slots 1
  let k := k.logEvent (.cout ("add user ".toList ++ Text.decimal id ++ "\n".toList))
  let (user, server) ← server.user id k
  .ok (closePipes user.userPipes k, server.setUser id
    { user with
      userPipes := fun i => if i.val = 0 then user.userPipes i else .cleared
      ip := (Text.cString ip).take (ipLen - 1)
      name := "(no name)".toList
      port, sock, isConnected := true, pid })

/-- `removeUser` (`np_project2/server/chatServer.cpp:179-203`) in the process of user `id`. -/
def removeUser (id : Int) (sock : Nat) (k : Proc) (server : ShmServer) :
    Outcome (Proc × ShmServer) := do
  let (user, server) ← server.user id k
  let k := k.logEvent (.cout (user.name ++ " close connection from ip ".toList ++ user.ip ++
    ", port ".toList ++ Text.decimal user.port ++ "\n".toList))
  let server := server.setUser id .zeroed
  let server := { server with
    fifos := fun sender receiver => server.fifos sender receiver &&
      !((sender == id && slots.contains receiver) || (receiver == id && slots.contains sender)) }
  let k := k.logEvent (.cout ("remove user ".toList ++ Text.decimal id ++ "\n".toList))
  let server ← server.broadcastMessage (ChatServer.logoutMsg user.name) k
  .ok (k.close (some sock), server)

/-- `Tell` (`np_project2/server/chatServer.cpp:228-250`). -/
def tell (id uid : Int) (msg : Text) (k : Proc) (server : ShmServer) :
    Outcome (Proc × ShmServer) := do
  let exist ← server.isConnected uid k
  if !exist then .ok (k.logEvent (.cout (ChatServer.notExistMsg uid)), server)
  else do
    let (user, server) ← server.user id k
    let server ← server.sendRawMessage uid (ChatServer.tellMsg user.name msg) k
    .ok (k, server)

/-- The scan of `Name` over the connected users. -/
def nameTaken (name : Text) (k : Proc) : List Int → ShmServer → Outcome (Bool × ShmServer)
  | [], server => .ok (false, server)
  | id :: rest, server => do
      let connected ← server.isConnected id k
      if connected then do
        let (user, server) ← server.user id k
        if user.name = name then .ok (true, server) else nameTaken name k rest server
      else nameTaken name k rest server

/-- `Name` (`np_project2/server/chatServer.cpp:271-295`); a name that does not fit is copied past
the end of the array. -/
def name (id : Int) (name : Text) (k : Proc) (server : ShmServer) : Outcome (Proc × ShmServer) := do
  let (exist, server) ← nameTaken name k slots server
  if exist then
    .ok (k.logEvent (.cout ("*** User '".toList ++ name ++ "' already exists. ***\n".toList)), server)
  else do
    let (user, server) ← server.user id k
    let copied := Text.cString name
    if maxUserNameLen ≤ copied.length then .error (.undefined, k)
    else
      let server := server.setUser id { user with name := copied }
      let server ← server.broadcastMessage (ChatServer.nameMsg user.ip user.port name) k
      .ok (k, server)

/-- The loop of `Who`. -/
def whoLines (id : Int) : List Int → Proc → ShmServer → Outcome (Proc × ShmServer)
  | [], k, server => .ok (k, server)
  | _id :: rest, k, server => do
      let connected ← server.isConnected _id k
      if connected then do
        let (user, server) ← server.user _id k
        let k := k.logEvent (.cout (Text.decimal _id ++ "\t".toList ++ user.name ++ "\t".toList ++
          user.ip ++ ":".toList ++ Text.decimal user.port ++
          (if id = _id then "\t<-me".toList else []) ++ "\n".toList))
        whoLines id rest k server
      else whoLines id rest k server

/-- `Who` (`np_project2/server/chatServer.cpp:207-225`). -/
def who (id : Int) (k : Proc) (server : ShmServer) : Outcome (Proc × ShmServer) :=
  whoLines id slots
    (k.logEvent (.cout "<ID>\t<nickname>\t<IP:port>\t<indicate me>\n".toList)) server

/-- `Yell` (`np_project2/server/chatServer.cpp:253-268`), which has a loop of its own. -/
def yell (id : Int) (msg : Text) (k : Proc) (server : ShmServer) : Outcome (Proc × ShmServer) := do
  let (user, server) ← server.user id k
  let server ← broadcastTo (ChatServer.yellMsg user.name msg) k slots server
  .ok (k, server)

/-- `Kill` (`np_project2/server/chatServer.cpp:29-36`) in the process of user `id`: the text it
prints. -/
def kill (id : Int) (k : Proc) (server : ShmServer) : Outcome (Text × ShmServer) := do
  let (user, server) ← server.user id k
  .ok (user.buffer, server.setUser id { user with buffer := [] })

/-- `FIFO_DIR(sender, receiver)` (`np_project2/server/chatServer.hpp:17`). -/
def fifoDir (sender receiver : Int) : Text :=
  "./user_pipe/".toList ++ Text.decimal sender ++ "-".toList ++ Text.decimal receiver

/-- `handleUserPipe`: whether the user and the pipe exist
(`np_project2/server/chatServer.cpp:421-461`); a pipe that may be used is opened. -/
def handleUserPipe (id uid : Int) (mode : Mode) (k : Proc) (server : ShmServer) :
    Outcome (Bool × Bool × Proc × ShmServer) :=
  let pipeExist := mode == .rdonly
  if (maxConn : Int) < uid then .ok (false, pipeExist, k, server)
  else do
    let connected ← server.isConnected uid k
    if !connected then .ok (false, pipeExist, k, server)
    else
      match mode with
      | .wronly => do
          let (receiver, server) ← server.user uid k
          let i ← ChatServer.index id k
          if server.fifos id uid then .ok (true, true, k, server)
          else
            let (fd, k) := k.openFile (fifoDir id uid)
            let pipe := { receiver.userPipes i with outFd := fd }
            let server := server.setUser uid
              { receiver with userPipes := Function.update receiver.userPipes i pipe }
            .ok (true, false, k, { server with
              fifos := fun a b => server.fifos a b || (a == id && b == uid) })
      | .rdonly => do
          let (user, server) ← server.user id k
          let i ← ChatServer.index uid k
          if server.fifos uid id then
            let (fd, k) := k.openFile (fifoDir uid id)
            let pipe := { user.userPipes i with inFd := fd }
            .ok (true, true, k, server.setUser id
              { user with userPipes := Function.update user.userPipes i pipe })
          else .ok (true, false, k, server)

/-- `readFIFO_writePipe` (`np_project2/server/chatServer.cpp:377-397`) once its loop has ended: a
pipe with the copied bytes takes the number of the FIFO.  What the loop copies, and whether it ends
at all, is said by `FifoCopy`. -/
def readFIFOWritePipe (fd : Fd) (k : Proc) : Proc :=
  match k.pipe2 (.user k.serving) with
  | none => k
  | some (first, second, k) =>
      let k := k.close (some second)
      let k := fd.elim k (k.dup2 (some first))
      k.close (some first)

/-- `writeUserPipe` (`np_project2/server/chatServer.cpp:297-332`). -/
def writeUserPipe (id writeUid : Int) (_currPipe : Pipe) (originalCommand : Text) (readUid : Int)
    (k : Proc) (server : ShmServer) : Outcome (Pipe × Proc × ShmServer) := do
  let (userExist, pipeExist, k, server) ← server.handleUserPipe id writeUid .wronly k
  if !userExist then
    let (fd, k) := ChatServer.handleUserPipeError id writeUid .wronly .userNotExist k
    .ok (⟨none, fd⟩, k, server)
  else if !pipeExist then do
    let (sender, server) ← server.user id k
    let (receiver, server) ← server.user writeUid k
    let i ← ChatServer.index id k
    let msg := "*** ".toList ++ sender.name ++ " (#".toList ++ Text.decimal id ++
      ") just piped '".toList ++ originalCommand ++ "' to ".toList ++ receiver.name ++
      " (#".toList ++ Text.decimal writeUid ++ ") ***\n".toList
    let server ← if readUid ≠ 0 then .ok server else server.broadcastMessage msg k
    let (fd, k) := k.dup (receiver.userPipes i).outFd
    .ok (⟨none, fd⟩, k, server)
  else
    let (fd, k) := ChatServer.handleUserPipeError id writeUid .wronly .pipeErr k
    .ok (⟨none, fd⟩, k, server)

/-- `readUserPipe` (`np_project2/server/chatServer.cpp:335-372`). -/
def readUserPipe (id readUid : Int) (_currPipe : Pipe) (originalCommand : Text) (writeUid : Int)
    (k : Proc) (server : ShmServer) : Outcome (Pipe × Proc × ShmServer) := do
  let (userExist, pipeExist, k, server) ← server.handleUserPipe id readUid .rdonly k
  if !userExist then
    let (fd, k) := ChatServer.handleUserPipeError id readUid .rdonly .userNotExist k
    .ok (⟨fd, none⟩, k, server)
  else if pipeExist then do
    let (sender, server) ← server.user readUid k
    let (receiver, server) ← server.user id k
    let i ← ChatServer.index readUid k
    let msg := "*** ".toList ++ receiver.name ++ " (#".toList ++ Text.decimal id ++
      ") just received from ".toList ++ sender.name ++ " (#".toList ++ Text.decimal readUid ++
      ") by '".toList ++ originalCommand ++ "' ***\n".toList
    let (msg, server) ←
      if writeUid ≠ 0 then do
        let (target, server) ← server.user writeUid k
        .ok (msg ++ "*** ".toList ++ receiver.name ++ " (#".toList ++ Text.decimal id ++
          ") just piped '".toList ++ originalCommand ++ "' to ".toList ++ target.name ++
          " (#".toList ++ Text.decimal writeUid ++ ") ***\n".toList, server)
      else .ok (msg, server)
    let k := readFIFOWritePipe (receiver.userPipes i).inFd k
    let server := { server with
      fifos := fun a b => server.fifos a b && !(a == readUid && b == id) }
    let server ← server.broadcastMessage msg k
    let (fd, k) := k.dup (receiver.userPipes i).inFd
    .ok (⟨fd, none⟩, k, server)
  else
    let (fd, k) := ChatServer.handleUserPipeError id readUid .rdonly .pipeErr k
    .ok (⟨fd, none⟩, k, server)

end ShmServer

end NetProg
