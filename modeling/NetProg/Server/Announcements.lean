import NetProg.Server.UserIds
import NetProg.Shell.CallRules

/-!
# What is announced about user pipes

Whoever reads from or writes to a user pipe is announced to everybody.  `PipeView` is what the users
see of the server: names, and which pipes wait to be read.  From it follows whether the read and the
write of a line succeed, and what should be announced.  The functions `announceRead` and
`announceWrite` are `readUserPipe` and `writeUserPipe` with the text they have broadcast.
-/

namespace NetProg

/-- The names of the users, and the user pipes as pairs of a sender and a receiver. -/
@[ext] structure PipeView where
  names : Int → Option Text
  pipes : Int → Int → Bool

namespace PipeView

/-- `<a` of user `id` succeeds. -/
def readable (v : PipeView) (id a : Int) : Bool :=
  decide (0 < a) && (v.names a).isSome && v.pipes a id

/-- The pipes once `<a` is done. -/
def afterRead (v : PipeView) (id a : Int) : PipeView :=
  { v with pipes := fun sender receiver =>
      v.pipes sender receiver && !(v.readable id a && sender == a && receiver == id) }

/-- `>b` of user `id` succeeds. -/
def writable (v : PipeView) (id b : Int) : Bool :=
  decide (0 < b) && (v.names b).isSome && !v.pipes id b

/-- The pipes once `>b` is done. -/
def afterWrite (v : PipeView) (id b : Int) : PipeView :=
  { v with pipes := fun sender receiver =>
      v.pipes sender receiver || (v.writable id b && sender == id && receiver == b) }

def name (v : PipeView) (id : Int) : Text := (v.names id).getD []

section Laws

variable {v : PipeView} {id a b : Int}

@[simp] theorem afterRead_name (v : PipeView) (id a i : Int) : (v.afterRead id a).name i = v.name i :=
  rfl

theorem afterRead_refused (refused : v.readable id a = false) : v.afterRead id a = v := by
  simp [afterRead, refused]

theorem afterWrite_refused (refused : v.writable id b = false) : v.afterWrite id b = v := by
  simp [afterWrite, refused]

/-- A second `>b` is refused. -/
theorem writable_afterWrite (v : PipeView) (id b : Int) :
    (v.afterWrite id b).writable id b = false := by
  cases granted : v.writable id b with
  | false => rwa [afterWrite_refused granted]
  | true =>
      simp only [afterWrite, granted]
      simp [writable]

theorem afterWrite_twice (v : PipeView) (id b : Int) :
    (v.afterWrite id b).afterWrite id b = v.afterWrite id b :=
  afterWrite_refused (writable_afterWrite v id b)

end Laws

end PipeView

/-- The announcement of a read from `a`. -/
def receivedMsg (receiver : Text) (id : Int) (sender : Text) (a : Int) (line : Text) : Text :=
  "*** ".toList ++ receiver ++ " (#".toList ++ Text.decimal id ++ ") just received from ".toList ++
    sender ++ " (#".toList ++ Text.decimal a ++ ") by '".toList ++ line ++ "' ***\n".toList

/-- The announcement of a write to `b`. -/
def pipedMsg (sender : Text) (id : Int) (receiver : Text) (b : Int) (line : Text) : Text :=
  "*** ".toList ++ sender ++ " (#".toList ++ Text.decimal id ++ ") just piped '".toList ++ line ++
    "' to ".toList ++ receiver ++ " (#".toList ++ Text.decimal b ++ ") ***\n".toList

namespace NpCommandLine

/-- The line asks for a write. -/
def asksWrite (cl : NpCommandLine) : Bool :=
  decide (0 < cl.writeUid ∧ .userPipe ∈ cl.npCommands)

/-- The read of the line succeeds. -/
def reads (cl : NpCommandLine) (v : PipeView) (id : Int) : Bool := v.readable id cl.readUid

/-- The write of the line succeeds, after its read. -/
def writes (cl : NpCommandLine) (v : PipeView) (id : Int) : Bool :=
  cl.asksWrite && (v.afterRead id cl.readUid).writable id cl.writeUid

/-- What the users see after the line. -/
def after (cl : NpCommandLine) (v : PipeView) (id : Int) : PipeView :=
  if cl.asksWrite then (v.afterRead id cl.readUid).afterWrite id cl.writeUid
  else v.afterRead id cl.readUid

/-- The announcement of the read of a line. -/
def receivedText (cl : NpCommandLine) (v : PipeView) (id : Int) (line : Text) : Text :=
  receivedMsg (v.name id) id (v.name cl.readUid) cl.readUid line

/-- The announcement of the write of a line. -/
def pipedText (cl : NpCommandLine) (v : PipeView) (id : Int) (line : Text) : Text :=
  pipedMsg (v.name id) id (v.name cl.writeUid) cl.writeUid line

/-- What should be announced: the read once if it succeeds, and the write once if it succeeds. -/
def truth (cl : NpCommandLine) (v : PipeView) (id : Int) (line : Text) : Text :=
  (if cl.reads v id then cl.receivedText v id line else []) ++
    (if cl.writes v id then cl.pipedText v id line else [])

end NpCommandLine

namespace ChatServer

/-- What the users see. -/
def pipeView (server : ChatServer) : PipeView where
  names := fun id => (server.users.find? id).map UserInfo.name
  pipes := fun sender receiver =>
    ((server.users.find? receiver).bind fun user =>
      (pipeIndex sender).map fun i => !(user.userPipes i).empty).getD false

/-- `writeUserPipe`, with what was broadcast. -/
def announceWrite (id writeUid : Int) (_currPipe : Pipe) (originalCommand : Text) (_readUid : Int)
    (k : Proc) (st : ChatServer × Text) : Outcome (Pipe × Proc × ChatServer × Text) := do
  let (userExist, pipeExist) ← st.1.handleUserPipe id writeUid .wronly k
  if !userExist then
    let (fd, k) := handleUserPipeError id writeUid .wronly .userNotExist k
    .ok (⟨none, fd⟩, k, st)
  else if !pipeExist then do
    let sender ← st.1.user id k
    let receiver ← st.1.user writeUid k
    let i ← index id k
    let (made, k) ← Pipe.create k (.userPipe k.serving receiver.session)
    let server := st.1.setUser writeUid
      { receiver with userPipes := Function.update receiver.userPipes i made }
    let msg := pipedMsg sender.name id receiver.name writeUid originalCommand
    let k := server.broadcastMessage msg k
    let (fd, k) := k.dup made.outFd
    .ok (⟨none, fd⟩, k, server, st.2 ++ msg)
  else
    let (fd, k) := handleUserPipeError id writeUid .wronly .pipeErr k
    .ok (⟨none, fd⟩, k, st)

/-- `readUserPipe`, with what was broadcast. -/
def announceRead (id readUid : Int) (_currPipe : Pipe) (originalCommand : Text) (_writeUid : Int)
    (k : Proc) (st : ChatServer × Text) : Outcome (Pipe × Proc × ChatServer × Text) := do
  let (userExist, pipeExist) ← st.1.handleUserPipe id readUid .rdonly k
  if !userExist then
    let (fd, k) := handleUserPipeError id readUid .rdonly .userNotExist k
    .ok (⟨fd, none⟩, k, st)
  else if pipeExist then do
    let sender ← st.1.user readUid k
    let receiver ← st.1.user id k
    let i ← index readUid k
    let msg := receivedMsg receiver.name id sender.name readUid originalCommand
    let k := st.1.broadcastMessage msg k
    let (fd, k) := k.dup (receiver.userPipes i).inFd
    let k := (receiver.userPipes i).closePipe k
    let server := st.1.setUser id
      { receiver with userPipes := Function.update receiver.userPipes i .cleared }
    .ok (⟨fd, none⟩, k, server, st.2 ++ msg)
  else
    let (fd, k) := handleUserPipeError id readUid .rdonly .pipeErr k
    .ok (⟨fd, none⟩, k, st)

/-- The user-pipe calls of user `id`, with what they broadcast. -/
def announceCalls (id : Int) : UserPipeCalls (ChatServer × Text) where
  readUserPipe := announceRead id
  writeUserPipe := announceWrite id

theorem announceCalls_erases (id : Int) : (announceCalls id).Erases Prod.fst (userPipeCalls id) := by
  constructor
  · intro readUid p line writeUid k st
    show (announceRead id readUid p line writeUid k st).map _ =
      readUserPipe id readUid p line writeUid k st.1
    unfold announceRead readUserPipe
    apply bind_map_congr
    rintro ⟨userExist, pipeExist⟩
    cases userExist with
    | false => rfl
    | true =>
        cases pipeExist with
        | false => rfl
        | true =>
            apply bind_map_congr
            intro sender
            apply bind_map_congr
            intro receiver
            apply bind_map_congr
            intro i
            rfl
  · intro writeUid p line readUid k st
    show (announceWrite id writeUid p line readUid k st).map _ =
      writeUserPipe id writeUid p line readUid k st.1
    unfold announceWrite writeUserPipe
    apply bind_map_congr
    rintro ⟨userExist, pipeExist⟩
    cases userExist with
    | false => rfl
    | true =>
        cases pipeExist with
        | true => rfl
        | false =>
            apply bind_map_congr
            intro sender
            apply bind_map_congr
            intro receiver
            apply bind_map_congr
            intro i
            apply bind_map_congr
            intro made
            rfl

/-- The tables are in order, and user `id` is logged in. -/
structure Present (server : ChatServer) (id : Int) : Prop where
  seated : Seated server
  here : ∃ user, server.users.find? id = some user

section Plain

variable {server : ChatServer} {id uid : Int} {user : UserInfo} {i : Fin maxConn} {p : Pipe}

theorem pipeView_names (found : server.users.find? uid = some user) :
    server.pipeView.names uid = some user.name := by
  simp only [pipeView, found, Option.map_some]

theorem pipeView_name (found : server.users.find? uid = some user) :
    server.pipeView.name uid = user.name := by
  rw [PipeView.name, pipeView_names found]
  rfl

theorem pipeView_pipes (found : server.users.find? uid = some user) {sender : Int}
    (position : pipeIndex sender = some i) :
    server.pipeView.pipes sender uid = !(user.userPipes i).empty := by
  simp only [pipeView, found, position]
  rfl

/-- A stored pipe changes one pair. -/
theorem pipeView_storeBox (found : server.users.find? uid = some user) {sender : Int}
    (position : pipeIndex sender = some i) :
    (server.storeBox uid user i p).pipeView =
      { server.pipeView with pipes := fun s r =>
          if s = sender ∧ r = uid then !p.empty else server.pipeView.pipes s r } := by
  apply PipeView.ext
  · funext j
    simp only [pipeView, storeBox, setUser, OrdMap.find?_insert]
    split
    · rename_i same
      rw [same, found]
      rfl
    · rfl
  · funext s r
    simp only [pipeView, storeBox, setUser, OrdMap.find?_insert]
    by_cases same : r = uid
    · subst same
      simp only [if_true, and_true, Option.bind_some, found]
      by_cases slot : s = sender
      · subst slot
        simp [position]
      · cases other : pipeIndex s with
        | none => simp [slot]
        | some j =>
            have different : j ≠ i := by
              rintro rfl
              exact slot ((pipeIndex_iff.mp other).trans (pipeIndex_iff.mp position).symm)
            simp [slot, different]
    · simp only [same, if_false, and_false]

theorem Present.storeBox (present : server.Present id) (found : server.users.find? uid = some user)
    (i : Fin maxConn) (p : Pipe) : (server.storeBox uid user i p).Present id := by
  obtain ⟨seated, here⟩ := present
  have known : ∀ {j user'}, (server.storeBox uid user i p).users.find? j = some user' →
      ∃ user, server.users.find? j = some user := by
    intro j user' found'
    rw [ChatServer.storeBox, setUser, OrdMap.find?_insert] at found'
    split at found'
    · rename_i same
      exact ⟨user, same ▸ found⟩
    · exact ⟨user', found'⟩
  constructor
  · constructor
    · exact seated.tidy.setUser found rfl
    · intro j user' found'
      obtain ⟨old, there⟩ := known found'
      exact seated.inside j old there
  · obtain ⟨own, there⟩ := here
    rw [ChatServer.storeBox, setUser, OrdMap.find?_insert]
    split
    · exact ⟨_, rfl⟩
    · exact ⟨own, there⟩

/-- User `id` is logged in, the users see `v`, and `heard` was broadcast. -/
structure Shows (id : Int) (v : PipeView) (heard : Text) (st : ChatServer × Text) : Prop where
  present : st.1.Present id
  view : st.1.pipeView = v
  text : st.2 = heard

variable {a b : Int} {v : PipeView} {heard line : Text} {k : Proc} {st : ChatServer × Text}

/-- In the tables an id is missing if nobody has it. -/
theorem Present.names_missing (present : server.Present id)
    (missing : (maxConn : Int) < uid ∨ server.users.find? uid = none) :
    server.pipeView.names uid = none := by
  simp only [pipeView, present.seated.missing missing, Option.map_none]

/-- `<a` moves the pipe away and tells so if there is one. -/
theorem announceRead_spec (shows : Shows id v heard st) (positive : 0 < a) :
    Sat (announceRead id a p line b k st)
      (fun r => Shows id (v.afterRead id a) (heard ++
        if v.readable id a then receivedMsg (v.name id) id (v.name a) a line else []) r.2.2)
      (fun stopped => stopped.1 = .exitFailure) := by
  obtain ⟨server, text⟩ := st
  obtain ⟨present, rfl, rfl⟩ := shows
  obtain ⟨own, here⟩ := present.here
  dsimp only at present here ⊢
  unfold announceRead
  refine Sat.bind ((handleUserPipe_spec server id a .rdonly k).mono (fun _ looked => looked) ?_) ?_
  · intro stopped failed
    exact absurd failed.2 (present.seated.not_misplaced a here)
  · intro looked result
    cases result with
    | absent _ pipeExist missing =>
        have refused : server.pipeView.readable id a = false := by
          simp [PipeView.readable, present.names_missing missing]
        simp only [refused, PipeView.afterRead_refused refused]
        exact ⟨present, rfl, (List.append_nil _).symm⟩
    | reading sender receiver i inside found found' position =>
        have known : (server.pipeView.names a).isSome = true := by
          rw [pipeView_names found]
          rfl
        have waits : server.pipeView.pipes a id = !(receiver.userPipes i).empty :=
          pipeView_pipes found' position
        cases free : (receiver.userPipes i).empty with
        | true =>
            have refused : server.pipeView.readable id a = false := by
              simp [PipeView.readable, waits, free]
            simp only [refused, PipeView.afterRead_refused refused]
            exact ⟨present, rfl, (List.append_nil _).symm⟩
        | false =>
            have granted : server.pipeView.readable id a = true := by
              simp [PipeView.readable, positive, known, waits, free]
            simp only [user, found, found', index_inside position, granted,
              pipeView_name found, pipeView_name found']
            refine ⟨present.storeBox found' i .cleared, ?_, rfl⟩
            refine (pipeView_storeBox (p := .cleared) found' position).trans ?_
            apply PipeView.ext
            · rfl
            · funext s r
              simp only [PipeView.afterRead, granted]
              by_cases same : s = a ∧ r = id
              · simp [same, Pipe.empty, Pipe.cleared]
              · rw [if_neg same]
                simp
                tauto

/-- `>b` puts the pipe there and tells so if there is none. -/
theorem announceWrite_spec (shows : Shows id v heard st) (positive : 0 < b) :
    Sat (announceWrite id b p line a k st)
      (fun r => Shows id (v.afterWrite id b) (heard ++
        if v.writable id b then pipedMsg (v.name id) id (v.name b) b line else []) r.2.2)
      (fun stopped => stopped.1 = .exitFailure) := by
  obtain ⟨server, text⟩ := st
  obtain ⟨present, rfl, rfl⟩ := shows
  obtain ⟨own, here⟩ := present.here
  dsimp only at present here ⊢
  unfold announceWrite
  refine Sat.bind ((handleUserPipe_spec server id b .wronly k).mono (fun _ looked => looked) ?_) ?_
  · intro stopped failed
    exact absurd failed.2 (present.seated.not_misplaced b here)
  · intro looked result
    cases result with
    | absent _ pipeExist missing =>
        have refused : server.pipeView.writable id b = false := by
          simp [PipeView.writable, present.names_missing missing]
        simp only [refused, PipeView.afterWrite_refused refused]
        exact ⟨present, rfl, (List.append_nil _).symm⟩
    | writing receiver i inside found position =>
        have known : (server.pipeView.names b).isSome = true := by
          rw [pipeView_names found]
          rfl
        have waits : server.pipeView.pipes id b = !(receiver.userPipes i).empty :=
          pipeView_pipes found position
        cases free : (receiver.userPipes i).empty with
        | false =>
            have refused : server.pipeView.writable id b = false := by
              simp [PipeView.writable, waits, free]
            simp only [refused, PipeView.afterWrite_refused refused]
            exact ⟨present, rfl, (List.append_nil _).symm⟩
        | true =>
            have granted : server.pipeView.writable id b = true := by
              simp [PipeView.writable, positive, known, waits, free]
            simp only [user, found, here, index_inside position, granted, pipeView_name found,
              pipeView_name here]
            show Sat (Pipe.create k (.userPipe k.serving receiver.session) >>= _) _ _
            refine Sat.bind ((Pipe.create_held k _).mono (fun _ made => made) ?_) ?_
            · intro stopped failed
              exact congrArg Prod.fst failed.1
            · rintro ⟨made, k'⟩ ⟨first, second, rfl, -⟩
              refine ⟨present.storeBox found i _, ?_, rfl⟩
              refine (pipeView_storeBox (p := ⟨some first, some second⟩) found position).trans ?_
              apply PipeView.ext
              · rfl
              · funext s r
                simp only [PipeView.afterWrite, granted]
                by_cases same : s = id ∧ r = b
                · simp [same, Pipe.empty]
                · rw [if_neg same]
                  simp
                  tauto

/-- The build without `CONFIG_SHM` announces the truth. -/
theorem runCommandLine_announces {cl : NpCommandLine} (shape : Shape cl.npCommands)
    {s : ShellState (ChatServer × Text)} (shows : Shows id v heard s.server) :
    Sat (s.runCommandLine (announceCalls id) line cl)
      (fun r => Shows id (cl.after v id) (heard ++ cl.truth v id line) r.server)
      (fun stopped => stopped.1 = .exitFailure) := by
  refine (ShellState.runCommandLine_calls (P := Shows id v heard)
    (Q := fun called => Shows id
      (if called then (v.afterRead id cl.readUid).afterWrite id cl.writeUid
        else v.afterRead id cl.readUid)
      (heard ++ ((if cl.reads v id then cl.receivedText v id line else []) ++
        if called && (v.afterRead id cl.readUid).writable id cl.writeUid then
          cl.pipedText v id line else [])))
    (fun _ => rfl) shape ?_ ?_ ?_ shows).mono (fun r after => after) (fun _ failed => failed)
  · intro none server before
    have refused : v.readable id cl.readUid = false := by simp [PipeView.readable, none]
    simpa [NpCommandLine.reads, refused, PipeView.afterRead_refused refused] using before
  · intro positive p k server before
    show Sat (announceRead id cl.readUid p line cl.writeUid k server) _ _
    refine (announceRead_spec before positive).mono (fun r after => ?_) (fun _ failed => failed)
    simp only [Bool.false_eq_true, if_false, Bool.false_and, List.append_nil]
    exact after
  · intro positive _ called p k server before
    show Sat (announceWrite id cl.writeUid p line cl.readUid k server) _ _
    refine (announceWrite_spec before positive).mono (fun r after => ?_) (fun _ failed => failed)
    cases called with
    | false => simpa [NpCommandLine.pipedText, List.append_assoc] using after
    | true =>
        simpa [PipeView.afterWrite_twice, PipeView.writable_afterWrite] using after

end Plain

end ChatServer

end NetProg
