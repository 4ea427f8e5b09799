import NetProg.Lib.OrdMap
import NetProg.Shell.ParseCommand
import NetProg.Shell.RunShell

/-!
# The class `chatServer`

`server/chatServer.cpp`, built without `CONFIG_SHM`: the users of `np_single_proc`, their
messages and the user pipes between them.  `users[id]` of an id that nobody holds is a null
pointer and an index of `userPipes` outside the array is out of bounds; both stop the step with
`undefined`.
-/

namespace NetProg

/-- `MAX_CONN` (`np_project2/server/chatServer.hpp:7`). -/
def maxConn : Nat := 31

/-- `MAX_USER_NAME_LEN` (`np_project2/server/chatServer.hpp:5`). -/
def maxUserNameLen : Nat := 20

/-- `IP_LEN` (`np_project2/server/chatServer.hpp:4`). -/
def ipLen : Nat := 16

/-- `UserInfo` (`np_project2/server/chatServer.hpp:24-35`), with the handler it inherits.  `session`
numbers the accepted connection; it is for the statements only. -/
structure UserInfo where
  handler : CmdHandler
  userPipes : Fin maxConn → Pipe
  port : Int
  sock : Nat
  pid : Int
  ip : Text
  name : Text
  isConnected : Bool
  session : Nat

/-- The members of `chatServer` (`np_project2/server/chatServer.hpp:37-93`). -/
structure ChatServer where
  users : OrdMap Int UserInfo
  envTable : Int → Text → Text
  sockIDTable : OrdMap Nat Int
  uid : Int
  serverIn : Fd
  serverOut : Fd
  serverErr : Fd

/-- The access mode of one end of a user pipe. -/
inductive Mode where
  | rdonly
  | wronly
  deriving DecidableEq, Repr

/-- `UserPipeErr` (`np_project2/server/chatServer.hpp:89-92`). -/
inductive UserPipeErr where
  | userNotExist
  | pipeErr
  deriving DecidableEq, Repr

/-- An index of `userPipes`, if it lies inside the array. -/
def pipeIndex (uid : Int) : Option (Fin maxConn) :=
  if h : 0 ≤ uid ∧ uid.toNat < maxConn then some ⟨uid.toNat, h.2⟩ else none

namespace ChatServer

/-- `chatServer()` (`np_project2/server/chatServer.cpp:12-18`), once the three standard descriptors
are saved. -/
def init (serverIn serverOut serverErr : Fd) : ChatServer :=
  ⟨.empty, fun _ _ => [], .empty, 0, serverIn, serverOut, serverErr⟩

/-- `WELCOME_MSG` (`np_project2/server/chatServer.hpp:8`). -/
def welcomeMsg : Text :=
  "****************************************\n".toList ++
  "** Welcome to the information server. **\n".toList ++
  "****************************************\n".toList

/-- `LOGIN_MSG` (`np_project2/server/chatServer.hpp:11`). -/
def loginMsg (name ip : Text) (port : Int) : Text :=
  "*** User '".toList ++ name ++ "' entered from ".toList ++ ip ++ ":".toList ++
    Text.decimal port ++ ". ***\n".toList

/-- `LOGOUT_MSG` (`np_project2/server/chatServer.hpp:12`). -/
def logoutMsg (name : Text) : Text := "*** User '".toList ++ name ++ "' left. ***\n".toList

/-- `TELL_MSG` (`np_project2/server/chatServer.hpp:13`). -/
def tellMsg (name msg : Text) : Text :=
  "*** ".toList ++ name ++ " told you ***: ".toList ++ msg ++ "\n".toList

/-- `YELL_MSG` (`np_project2/server/chatServer.hpp:14`). -/
def yellMsg (name msg : Text) : Text :=
  "*** ".toList ++ name ++ " yelled ***: ".toList ++ msg ++ "\n".toList

/-- `NAME_MSG` (`np_project2/server/chatServer.hpp:15`). -/
def nameMsg (ip : Text) (port : Int) (name : Text) : Text :=
  "*** User from ".toList ++ ip ++ ":".toList ++ Text.decimal port ++ " is named '".toList ++
    name ++ "'. ***\n".toList

/-- `users[id]`, which the caller dereferences. -/
def user (server : ChatServer) (id : Int) (k : Proc) : Outcome UserInfo :=
  match server.users.find? id with
  | none => .error (.undefined, k)
  | some user => .ok user

/-- `userPipes[uid]`. -/
def index (uid : Int) (k : Proc) : Outcome (Fin maxConn) :=
  match pipeIndex uid with
  | none => .error (.undefined, k)
  | some i => .ok i

/-- The record of a user replaced. -/
def setUser (server : ChatServer) (id : Int) (user : UserInfo) : ChatServer :=
  { server with users := server.users.insert id user }

/-- `sendRawMessage` (`np_project2/server/chatServer.cpp:40-47`).  A `send` to a client that has
closed the connection raises `SIGPIPE` and ends the process; here every receiver still reads. -/
def sendRawMessage (sock : Nat) (msg : Text) (k : Proc) : Proc := k.logEvent (.send sock msg)

/-- `broadcastMessage` (`np_project2/server/chatServer.cpp:49-63`): to every user in the order of
the ids. -/
def broadcastMessage (server : ChatServer) (msg : Text) (k : Proc) : Proc :=
  { k with log := k.log ++ server.users.entries.map (fun entry => .send entry.2.sock msg) }

/-- `Who` (`np_project2/server/chatServer.cpp:207-225`). -/
def who (server : ChatServer) (id : Int) (k : Proc) : Proc :=
  let k := k.logEvent (.cout "<ID>\t<nickname>\t<IP:port>\t<indicate me>\n".toList)
  { k with
    log := k.log ++ server.users.entries.map (fun entry =>
      .cout (Text.decimal entry.1 ++ "\t".toList ++ entry.2.name ++ "\t".toList ++ entry.2.ip ++
        ":".toList ++ Text.decimal entry.2.port ++
        (if id = entry.1 then "\t<-me".toList else []) ++ "\n".toList)) }

/-- The error of `Tell` and of the user pipes. -/
def notExistMsg (uid : Int) : Text :=
  "*** Error: user #".toList ++ Text.decimal uid ++ " does not exist yet. ***\n".toList

/-- `Tell` (`np_project2/server/chatServer.cpp:228-250`). -/
def tell (server : ChatServer) (id uid : Int) (msg : Text) (k : Proc) : Outcome Proc :=
  match server.users.find? uid with
  | none => .ok (k.logEvent (.cout (notExistMsg uid)))
  | some receiver => do
      let user ← server.user id k
      .ok (sendRawMessage receiver.sock (tellMsg user.name msg) k)

/-- `Yell` (`np_project2/server/chatServer.cpp:253-268`). -/
def yell (server : ChatServer) (id : Int) (msg : Text) (k : Proc) : Outcome Proc := do
  let user ← server.user id k
  .ok (server.broadcastMessage (yellMsg user.name msg) k)

/-- `Name` (`np_project2/server/chatServer.cpp:271-295`); a name that does not fit is copied past
the end of the array. -/
def name (server : ChatServer) (id : Int) (name : Text) (k : Proc) :
    Outcome (Proc × ChatServer) :=
  if server.users.entries.any (fun entry => entry.2.isConnected && entry.2.name == name) then
    .ok (k.logEvent (.cout ("*** User '".toList ++ name ++ "' already exists. ***\n".toList)),
      server)
  else do
    let user ← server.user id k
    let copied := Text.cString name
    if maxUserNameLen ≤ copied.length then .error (.undefined, k)
    else
      let server := server.setUser id { user with name := copied }
      .ok (server.broadcastMessage (nameMsg user.ip user.port name) k, server)

/-- `getServingUserID` (`np_project2/server/chatServer.cpp:475-477`); the socket is registered
whenever it is called. -/
def getServingUserID (server : ChatServer) (fd : Nat) : Int := (server.sockIDTable.find? fd).getD 0

/-- `getServingUserEnv` (`np_project2/server/chatServer.cpp:483-485`). -/
def getServingUserEnv (server : ChatServer) (id : Int) (env : Text) : Text := server.envTable id env

/-- `setServingUserEnv` (`np_project2/server/chatServer.cpp:486-488`). -/
def setServingUserEnv (server : ChatServer) (id : Int) (env value : Text) : ChatServer :=
  { server with
    envTable := fun id' env' => if id' = id ∧ env' = env then value else server.envTable id' env' }

/-- The messages of `handleUserPipeError`. -/
def userPipeErrorMsg (id uid : Int) : Mode → UserPipeErr → Text
  | _, .userNotExist => notExistMsg uid
  | .rdonly, .pipeErr =>
      "*** Error: the pipe #".toList ++ Text.decimal uid ++ "->#".toList ++ Text.decimal id ++
        " does not exist yet. ***\n".toList
  | .wronly, .pipeErr =>
      "*** Error: the pipe #".toList ++ Text.decimal id ++ "->#".toList ++ Text.decimal uid ++
        " already exists. ***\n".toList

/-- `handleUserPipeError` (`np_project2/server/chatServer.cpp:399-416`): a message, and `/dev/null`
in place of the pipe. -/
def handleUserPipeError (id uid : Int) (mode : Mode) (problemDetails : UserPipeErr) (k : Proc) :
    Fd × Proc :=
  (k.logEvent (.cout (userPipeErrorMsg id uid mode problemDetails))).openFile "/dev/null".toList

/-- `handleUserPipe` (`np_project2/server/chatServer.cpp:421-461`): whether the user and the pipe
exist. -/
def handleUserPipe (server : ChatServer) (id uid : Int) (mode : Mode) (k : Proc) :
    Outcome (Bool × Bool) :=
  let pipeExist := mode == .rdonly
  if (maxConn : Int) < uid then .ok (false, pipeExist)
  else
    match server.users.find? uid with
    | none => .ok (false, pipeExist)
    | some other =>
        match mode with
        | .wronly => do
            let i ← index id k
            .ok (true, !(other.userPipes i).empty)
        | .rdonly => do
            let user ← server.user id k
            let i ← index uid k
            .ok (true, !(user.userPipes i).empty)

/-- `writeUserPipe` (`np_project2/server/chatServer.cpp:297-332`). -/
def writeUserPipe (id writeUid : Int) (_currPipe : Pipe) (originalCommand : Text) (_readUid : Int)
    (k : Proc) (server : ChatServer) : Outcome (Pipe × Proc × ChatServer) := do
  let (userExist, pipeExist) ← server.handleUserPipe id writeUid .wronly k
  if !userExist then
    let (fd, k) := handleUserPipeError id writeUid .wronly .userNotExist k
    .ok (⟨none, fd⟩, k, server)
  else if !pipeExist then do
    let sender ← server.user id k
    let receiver ← server.user writeUid k
    let i ← index id k
    let (made, k) ← Pipe.create k (.userPipe k.serving receiver.session)
    let server := server.setUser writeUid
      { receiver with userPipes := Function.update receiver.userPipes i made }
    let k := server.broadcastMessage
      ("*** ".toList ++ sender.name ++ " (#".toList ++ Text.decimal id ++
        ") just piped '".toList ++ originalCommand ++ "' to ".toList ++ receiver.name ++
        " (#".toList ++ Text.decimal writeUid ++ ") ***\n".toList) k
    let (fd, k) := k.dup made.outFd
    .ok (⟨none, fd⟩, k, server)
  else
    let (fd, k) := handleUserPipeError id writeUid .wronly .pipeErr k
    .ok (⟨none, fd⟩, k, server)

/-- `readUserPipe` (`np_project2/server/chatServer.cpp:335-372`). -/
def readUserPipe (id readUid : Int) (_currPipe : Pipe) (originalCommand : Text) (_writeUid : Int)
    (k : Proc) (server : ChatServer) : Outcome (Pipe × Proc × ChatServer) := do
  let (userExist, pipeExist) ← server.handleUserPipe id readUid .rdonly k
  if !userExist then
    let (fd, k) := handleUserPipeError id readUid .rdonly .userNotExist k
    .ok (⟨fd, none⟩, k, server)
  else if pipeExist then do
    let sender ← server.user readUid k
    let receiver ← server.user id k
    let i ← index readUid k
    let k := server.broadcastMessage
      ("*** ".toList ++ receiver.name ++ " (#".toList ++ Text.decimal id ++
        ") just received from ".toList ++ sender.name ++ " (#".toList ++ Text.decimal readUid ++
        ") by '".toList ++ originalCommand ++ "' ***\n".toList) k
    let (fd, k) := k.dup (receiver.userPipes i).inFd
    let k := (receiver.userPipes i).closePipe k
    let server := server.setUser id
      { receiver with userPipes := Function.update receiver.userPipes i .cleared }
    .ok (⟨fd, none⟩, k, server)
  else
    let (fd, k) := handleUserPipeError id readUid .rdonly .pipeErr k
    .ok (⟨fd, none⟩, k, server)

/-- The user-pipe calls of the shell of user `id`. -/
def userPipeCalls (id : Int) : UserPipeCalls ChatServer where
  readUserPipe := readUserPipe id
  writeUserPipe := writeUserPipe id

/-- A built-in command, performed while the line is parsed
(`np_project2/shell/cmdHandler.cpp:128-167`). -/
def perform (id : Int) (builtin : Builtin) (s : ShellState ChatServer) :
    Outcome (ShellState ChatServer) :=
  match builtin with
  | .exit =>
      let h := s.handler
      .ok { s with
        proc := h.currPipe.closePipe (h.prevPipe.closePipe (h.eol.closePipe s.proc))
        handler :=
          { h with running := false, eol := .cleared, prevPipe := .cleared, currPipe := .cleared } }
  | .printenv env =>
      let var := s.server.getServingUserEnv id env
      .ok (if var.isEmpty then s else { s with proc := s.proc.logEvent (.cout (var ++ "\n".toList)) })
  | .setenv env var =>
      .ok { s with proc := s.proc.setenv env var, server := s.server.setServingUserEnv id env var }
  | .who => .ok { s with proc := s.server.who id s.proc }
  | .tell none _ => .error (.undefined, s.proc)
  | .tell (some uid) message => do
      let proc ← s.server.tell id uid message s.proc
      .ok { s with proc }
  | .yell message => do
      let proc ← s.server.yell id message s.proc
      .ok { s with proc }
  | .name name => do
      let (proc, server) ← s.server.name id name s.proc
      .ok { s with proc, server }

def performAll (id : Int) : List Builtin → ShellState ChatServer → Outcome (ShellState ChatServer)
  | [], s => .ok s
  | builtin :: rest, s => do
      let s ← perform id builtin s
      performAll id rest s

/-- `CmdHandler::runShell` (`np_project2/shell/cmdHandler.cpp:14-115`) on the line that `getline`
returned. -/
def runShell (fd : Nat) (line : Text) (s : ShellState ChatServer) :
    Outcome (ShellState ChatServer) := do
  let id := s.server.getServingUserID fd
  let (builtins, queue) := parseCommand line
  let s ← performAll id builtins s
  let s ← s.runQueue (userPipeCalls id) line queue
  .ok (if s.handler.running && fd == 0 then { s with proc := s.proc.logEvent (.cout "% ".toList) }
    else s)

/-- `dup2` of one descriptor to each of the three standard numbers. -/
def redirect (input output error : Fd) (k : Proc) : Proc :=
  ((k.dup2 input 0).dup2 output 1).dup2 error 2

/-- `runShellLoop` (`np_project2/server/chatServer.cpp:490-512`) on the line that `getline`
returned: one line of the user at socket `fd`. -/
def runShellLoop (fd : Nat) (line : Text) (k : Proc) (server : ChatServer) :
    Outcome (Bool × Proc × ChatServer) := do
  let id := server.getServingUserID fd
  let k := redirect (some fd) (some fd) (some fd) k
  let k := k.setenv "PATH".toList (server.getServingUserEnv id "PATH".toList)
  let user ← server.user id k
  let s ← runShell fd line ⟨k, user.handler, server⟩
  let user ← s.server.user id s.proc
  let server := s.server.setUser id { user with handler := s.handler }
  let k := redirect server.serverIn server.serverOut server.serverErr s.proc
  if s.handler.running then .ok (true, sendRawMessage fd "% ".toList k, server)
  else .ok (false, k, server)

/-- The loop of `addUser` that looks for the least free id. -/
def minKey : List Int → Int → Int
  | [], key => key
  | id :: rest, key => if key < id then key else minKey rest (key + 1)

/-- `addUser` (`np_project2/server/chatServer.cpp:138-177`) for the connection `session`. -/
def addUser (session : Nat) (ip : Text) (port : Int) (sock : Nat) (pid : Int) (k : Proc)
    (server : ChatServer) : Proc × ChatServer :=
  let k := k.logEvent (.cout ("accept new connection from ip ".toList ++ ip ++ ", port ".toList ++
    Text.decimal port ++ "\n".toList))
  let id := minKey server.users.keys 1
  let k := k.logEvent (.cout ("add user ".toList ++ Text.decimal id ++ "\n".toList))
  (k, { server with
    sockIDTable := server.sockIDTable.insert sock id
    uid := id
    users := server.users.insert id
      { handler := .init
        userPipes := fun _ => .cleared
        port, sock, pid, session
        ip := (Text.cString ip).take (ipLen - 1)
        name := "(no name)".toList
        isConnected := true } })

/-- `removeUser` (`np_project2/server/chatServer.cpp:179-203`). -/
def removeUser (sock : Nat) (k : Proc) (server : ChatServer) : Outcome (Proc × ChatServer) := do
  let k := redirect server.serverIn server.serverOut server.serverErr k
  let id := server.getServingUserID sock
  let user ← server.user id k
  let k := k.logEvent (.cout (user.name ++ " close connection from ip ".toList ++ user.ip ++
    ", port ".toList ++ Text.decimal user.port ++ "\n".toList))
  let server :=
    { server with
      users := server.users.erase id
      sockIDTable := server.sockIDTable.erase sock }
  let k := k.logEvent (.cout ("remove user ".toList ++ Text.decimal id ++ "\n".toList))
  let k := server.broadcastMessage (logoutMsg user.name) k
  .ok (k.close (some sock), server)

end ChatServer

end NetProg
