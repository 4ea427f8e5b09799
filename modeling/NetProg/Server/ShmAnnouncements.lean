import NetProg.Server.Announcements
import NetProg.Server.Names

/-!
# What is announced about user pipes with `CONFIG_SHM`

A line `<a >b` is announced in one piece by `readUserPipe`, before the write is tried, and
`writeUserPipe` stays silent.  So the text is the one of the other build only if the write has the
same success as the read, and if `snprintf` cuts nothing off the two announcements in one.
-/

namespace NetProg

open ChatServer (index handleUserPipeError)

namespace ShmServer

/-- The user-pipe calls of the process of user `id`. -/
def userPipeCalls (id : Int) : UserPipeCalls ShmServer where
  readUserPipe := readUserPipe id
  writeUserPipe := writeUserPipe id

/-- `writeUserPipe`, with what was broadcast: the text that `sendRawMessage` leaves in a buffer. -/
def announceWrite (id writeUid : Int) (_currPipe : Pipe) (originalCommand : Text) (readUid : Int)
    (k : Proc) (st : ShmServer × Text) : Outcome (Pipe × Proc × ShmServer × Text) := do
  let (userExist, pipeExist, k, server) ← st.1.handleUserPipe id writeUid .wronly k
  if !userExist then
    let (fd, k) := handleUserPipeError id writeUid .wronly .userNotExist k
    .ok (⟨none, fd⟩, k, server, st.2)
  else if !pipeExist then do
    let (sender, server) ← server.user id k
    let (receiver, server) ← server.user writeUid k
    let i ← index id k
    let msg := pipedMsg sender.name id receiver.name writeUid originalCommand
    let (server, heard) ←
      if readUid ≠ 0 then .ok (server, st.2)
      else do
        let server ← server.broadcastMessage msg k
        .ok (server, st.2 ++ Mailboxes.formatted msg)
    let (fd, k) := k.dup (receiver.userPipes i).outFd
    .ok (⟨none, fd⟩, k, server, heard)
  else
    let (fd, k) := handleUserPipeError id writeUid .wronly .pipeErr k
    .ok (⟨none, fd⟩, k, server, st.2)

/-- `readUserPipe`, with what was broadcast; the loop of `readFIFO_writePipe` has come to its end. -/
def announceRead (id readUid : Int) (_currPipe : Pipe) (originalCommand : Text) (writeUid : Int)
    (k : Proc) (st : ShmServer × Text) : Outcome (Pipe × Proc × ShmServer × Text) := do
  let (userExist, pipeExist, k, server) ← st.1.handleUserPipe id readUid .rdonly k
  if !userExist then
    let (fd, k) := handleUserPipeError id readUid .rdonly .userNotExist k
    .ok (⟨fd, none⟩, k, server, st.2)
  else if pipeExist then do
    let (sender, server) ← server.user readUid k
    let (receiver, server) ← server.user id k
    let i ← index readUid k
    let msg := receivedMsg receiver.name id sender.name readUid originalCommand
    let (msg, server) ←
      if writeUid ≠ 0 then do
        let (target, server) ← server.user writeUid k
        .ok (msg ++ pipedMsg receiver.name id target.name writeUid originalCommand, server)
      else .ok (msg, server)
    let k := readFIFOWritePipe (receiver.userPipes i).inFd k
    let server := { server with
      fifos := fun a b => server.fifos a b && !(a == readUid && b == id) }
    let server ← server.broadcastMessage msg k
    let (fd, k) := k.dup (receiver.userPipes i).inFd
    .ok (⟨fd, none⟩, k, server, st.2 ++ Mailboxes.formatted msg)
  else
    let (fd, k) := handleUserPipeError id readUid .rdonly .pipeErr k
    .ok (⟨fd, none⟩, k, server, st.2)

/-- The user-pipe calls of user `id`, with what they broadcast. -/
def announceCalls (id : Int) : UserPipeCalls (ShmServer × Text) where
  readUserPipe := announceRead id
  writeUserPipe := announceWrite id

section Erasure

variable {id uid other : Int} {p : Pipe} {line : Text} {k : Proc} {st : ShmServer × Text}

theorem announceRead_last (heard msg : Text) (server : ShmServer) (k : Proc) (fd : Fd) :
    (do
      let server ← server.broadcastMessage msg k
      let (fd, k) := k.dup fd
      .ok ((⟨fd, none⟩ : Pipe), k, server, heard ++ Mailboxes.formatted msg) : Outcome _).map
        (fun r => (r.1, r.2.1, r.2.2.1)) = (do
      let server ← server.broadcastMessage msg k
      let (fd, k) := k.dup fd
      .ok (⟨fd, none⟩, k, server)) := by
  apply bind_map_congr
  intro server
  rfl

theorem announceRead_erases : (announceRead id uid p line other k st).map
    (fun r => (r.1, r.2.1, r.2.2.1)) = readUserPipe id uid p line other k st.1 := by
  unfold announceRead readUserPipe receivedMsg pipedMsg
  apply bind_map_congr
  rintro ⟨userExist, pipeExist, k, server⟩
  cases userExist with
  | false => rfl
  | true =>
      cases pipeExist with
      | false => rfl
      | true =>
          apply bind_map_congr
          rintro ⟨sender, server⟩
          apply bind_map_congr
          rintro ⟨receiver, server⟩
          apply bind_map_congr
          intro i
          by_cases none : other = 0
          · simp only [none, ne_eq, not_true_eq_false, if_false]
            apply announceRead_last
          · simp only [none, ne_eq, not_false_eq_true, if_true, List.append_assoc]
            apply bind_map_congr
            intro target
            apply announceRead_last

theorem announceWrite_erases : (announceWrite id uid p line other k st).map
    (fun r => (r.1, r.2.1, r.2.2.1)) = writeUserPipe id uid p line other k st.1 := by
  unfold announceWrite writeUserPipe pipedMsg
  apply bind_map_congr
  rintro ⟨userExist, pipeExist, k, server⟩
  cases userExist with
  | false => rfl
  | true =>
      cases pipeExist with
      | true => rfl
      | false =>
          apply bind_map_congr
          rintro ⟨sender, server⟩
          apply bind_map_congr
          rintro ⟨receiver, server⟩
          apply bind_map_congr
          intro i
          by_cases none : other = 0
          · simp only [none, ne_eq, not_true_eq_false, if_false]
            apply bind_map_congr
            intro server
            rfl
          · simp only [none, ne_eq, not_false_eq_true, if_true]
            rfl

theorem announceCalls_erases (id : Int) : (announceCalls id).Erases Prod.fst (userPipeCalls id) :=
  ⟨fun _ p _ _ _ _ => announceRead_erases (p := p), fun _ p _ _ _ _ => announceWrite_erases (p := p)⟩

end Erasure

/-- Who sits in which slot, and whether he is connected. -/
def seats (server : ShmServer) (i : Int) : Option (Text × Bool) :=
  (server.users i).map fun user => (user.name, user.isConnected)

/-- What the users see. -/
def pipeView (server : ShmServer) : PipeView where
  names := fun i => (server.seats i).bind fun seat => if seat.2 then some seat.1 else none
  pipes := fun sender receiver => (server.seats receiver).any Prod.snd && server.fifos sender receiver

/-- The slots are those of `seats`, user `id` is connected, the users see `v`, and `heard` was
broadcast. -/
structure Shows (seats : Int → Option (Text × Bool)) (id : Int) (v : PipeView) (heard : Text)
    (st : ShmServer × Text) : Prop where
  table : st.1.Table
  here : st.1.Connected id
  seats : st.1.seats = seats
  view : st.1.pipeView = v
  text : st.2 = heard

section Seats

variable {server new : ShmServer} {id uid a b : Int} {user user' : ShmUser} {k : Proc}

theorem seats_found (found : server.users id = some user) :
    server.seats id = some (user.name, user.isConnected) := by
  rw [seats, found]
  rfl

theorem seats_update (found : server.users id = some user)
    (users : new.users = Function.update server.users id (some user')) (name : user'.name = user.name)
    (on : user'.isConnected = user.isConnected) : new.seats = server.seats := by
  funext i
  rw [seats, users, Function.update_apply]
  split
  · rename_i same
    rw [same, seats_found found, ← name, ← on]
    rfl
  · rfl

theorem seats_told (msg : Text) (server : ShmServer) : (server.told msg).seats = server.seats := by
  funext i
  simp only [seats, told]
  cases server.users i with
  | none => rfl
  | some user => simp

theorem seats_none {i : Int} : server.seats i = none ↔ server.users i = none := Option.map_eq_none_iff

theorem table_of_seats (same : new.seats = server.seats) (table : server.Table) : new.Table := by
  intro i
  have there : new.users i = none ↔ server.users i = none := by
    rw [← seats_none, same, seats_none]
  rw [← table i]
  exact not_congr there

theorem connected_of_seats (same : new.seats = server.seats) (on : server.Connected id) :
    new.Connected id := by
  have both : (new.users id).map (fun user => (user.name, user.isConnected)) =
      (server.users id).map fun user => (user.name, user.isConnected) := congrFun same id
  have same' := congrArg (Option.map Prod.snd) both
  rw [Option.map_map, Option.map_map] at same'
  rw [connected_iff] at on ⊢
  exact same'.trans on

theorem pipeView_congr (same : new.seats = server.seats) (fifos : new.fifos = server.fifos) :
    new.pipeView = server.pipeView := by
  rw [pipeView, pipeView, same, fifos]

theorem pipeView_names (found : server.users id = some user) :
    server.pipeView.names id = if user.isConnected then some user.name else none := by
  simp only [pipeView, seats_found found, Option.bind_some]

theorem pipeView_none (off : ¬ server.Connected id) : server.pipeView.names id = none := by
  cases found : server.users id with
  | none => simp [pipeView, seats, found]
  | some user =>
      rw [pipeView_names found, if_neg fun on => off ⟨user, found, on⟩]

theorem pipeView_name (found : server.users id = some user) (on : user.isConnected = true) :
    server.pipeView.name id = user.name := by
  rw [PipeView.name, pipeView_names found, if_pos on]
  rfl

theorem pipeView_pipes (found : server.users id = some user) (on : user.isConnected = true)
    (sender : Int) : server.pipeView.pipes sender id = server.fifos sender id := by
  simp [pipeView, seats_found found, on]

/-- A new FIFO is a new pipe. -/
theorem pipeView_write (same : new.seats = server.seats) (found : server.users b = some user)
    (on : user.isConnected = true) (positive : 0 < b) (absent : server.fifos id b = false)
    (fifos : new.fifos = fun s r => server.fifos s r || (s == id && r == b)) :
    new.pipeView = server.pipeView.afterWrite id b := by
  have granted : server.pipeView.writable id b = true := by
    simp [PipeView.writable, positive, pipeView_names found, on, pipeView_pipes found on, absent]
  apply PipeView.ext
  · simp only [pipeView, same, PipeView.afterWrite]
  · funext s r
    simp only [PipeView.afterWrite, granted, Bool.true_and]
    simp only [pipeView, same, fifos]
    by_cases there : r = b
    · subst there
      simp [seats_found found, on]
    · simp [beq_false_of_ne there]

/-- A FIFO removed is a pipe less. -/
theorem pipeView_read (same : new.seats = server.seats)
    (granted : server.pipeView.readable id a = true)
    (fifos : new.fifos = fun s r => server.fifos s r && !(s == a && r == id)) :
    new.pipeView = server.pipeView.afterRead id a := by
  apply PipeView.ext
  · simp only [pipeView, same, PipeView.afterRead]
  · funext s r
    simp only [PipeView.afterRead, granted, Bool.true_and]
    simp only [pipeView, same, fifos, Bool.and_assoc]

/-- `handleUserPipe` answers by what the users see; a write that may go on makes the FIFO. -/
theorem handleUserPipe_view (table : server.Table) (me : server.Connected id) (positive : 0 < uid)
    (mode : Mode) (k : Proc) :
    Sat (server.handleUserPipe id uid mode k)
      (fun r => uid ≠ maxConn ∧ r.1 = (server.pipeView.names uid).isSome ∧
        (r.1 = true → r.2.1 = match mode with
          | .wronly => server.pipeView.pipes id uid
          | .rdonly => server.pipeView.pipes uid id) ∧
        r.2.2.2.seats = server.seats ∧
        match mode with
        | .wronly => r.2.2.2.pipeView = server.pipeView.afterWrite id uid
        | .rdonly => r.2.2.2.fifos = server.fifos)
      (fun stopped => stopped.1 = .undefined ∧ uid = maxConn) := by
  by_cases null : uid = maxConn
  · subst null
    rw [handleUserPipe_null table]
    exact ⟨rfl, rfl⟩
  · by_cases on : server.Connected uid
    · obtain ⟨other, found, isOn⟩ := on
      obtain ⟨user, found', isOn'⟩ := me
      have known : (server.pipeView.names uid).isSome = true := by
        rw [pipeView_names found, if_pos isOn]
        rfl
      have small : ¬ (maxConn : Int) < uid := by
        have inside := table.inside ⟨other, found, isOn⟩
        omega
      unfold handleUserPipe
      rw [if_neg small, isConnected_found found, isOn]
      cases mode with
      | wronly =>
          obtain ⟨i, position⟩ := table.index (k := k) ⟨user, found', isOn'⟩
          show Sat (server.user uid k >>= _) _ _
          rw [user_ok found]
          show Sat (index id k >>= _) _ _
          rw [position]
          show Sat (if server.fifos id uid then _ else _) _ _
          cases there : server.fifos id uid with
          | true =>
              have waits : server.pipeView.pipes id uid = true := by
                rw [pipeView_pipes found isOn, there]
              have refused : server.pipeView.writable id uid = false := by
                simp [PipeView.writable, waits]
              refine ⟨null, known.symm, fun _ => waits.symm, rfl, ?_⟩
              rw [PipeView.afterWrite_refused refused]
              rfl
          | false =>
              refine ⟨null, known.symm, fun _ => ?_, ?_, ?_⟩
              · rw [pipeView_pipes found isOn, there]
              · exact seats_update found rfl rfl rfl
              · exact pipeView_write (seats_update found rfl rfl rfl) found isOn positive there rfl
      | rdonly =>
          obtain ⟨i, position⟩ := table.index (k := k) ⟨other, found, isOn⟩
          show Sat (server.user id k >>= _) _ _
          rw [user_ok found']
          show Sat (index uid k >>= _) _ _
          rw [position]
          show Sat (if server.fifos uid id then _ else _) _ _
          have waits : server.pipeView.pipes uid id = server.fifos uid id :=
            pipeView_pipes found' isOn' uid
          cases there : server.fifos uid id with
          | true =>
              exact ⟨null, known.symm, fun _ => (waits.trans there).symm,
                seats_update found' rfl rfl rfl, rfl⟩
          | false => exact ⟨null, known.symm, fun _ => (waits.trans there).symm, rfl, rfl⟩
    · rw [handleUserPipe_absent table on positive null]
      have unknown := pipeView_none on
      refine ⟨null, ?_, fun never => Bool.noConfusion never, rfl, ?_⟩
      · rw [unknown]
        rfl
      · cases mode with
        | rdonly => rfl
        | wronly =>
            apply (PipeView.afterWrite_refused _).symm
            simp [PipeView.writable, unknown]

end Seats

/-- The name in a slot, of whoever was there last. -/
def slotName (seats : Int → Option (Text × Bool)) (i : Int) : Text := (seats i).elim [] Prod.fst

/-- Every slot that `readUserPipe` looks up exists. -/
def ReadSafe (v : PipeView) (id a b : Int) : Prop :=
  a ≠ maxConn ∧ (v.readable id a = true → b ≠ 0 → 1 ≤ b ∧ b < maxConn)

section Calls

variable {server new : ShmServer} {seats : Int → Option (Text × Bool)} {id a b : Int} {v w : PipeView}
  {heard more line : Text} {p : Pipe} {k : Proc} {st : ShmServer × Text}

theorem Shows.next (shows : Shows seats id v heard st) (same : new.seats = st.1.seats)
    (view : new.pipeView = w) {text : Text} (told : text = more) :
    Shows seats id w more (new, text) where
  table := table_of_seats same shows.table
  here := connected_of_seats same shows.here
  seats := same.trans shows.seats
  view := view
  text := told

/-- Whoever is seen has a record with his name. -/
theorem Shows.known (shows : Shows seats id v heard st) {i : Int} (known : (v.names i).isSome = true) :
    ∃ user, st.1.users i = some user ∧ user.isConnected = true ∧ user.name = v.name i := by
  rw [← shows.view] at known ⊢
  by_cases on : st.1.Connected i
  · obtain ⟨user, found, isOn⟩ := on
    exact ⟨user, found, isOn, (pipeView_name found isOn).symm⟩
  · rw [pipeView_none on] at known
    cases known

theorem Shows.me (shows : Shows seats id v heard st) : (v.names id).isSome = true := by
  obtain ⟨user, found, isOn⟩ := shows.here
  rw [← shows.view, pipeView_names found, if_pos isOn]
  rfl

/-- A broadcast is heard and changes nothing else that is seen. -/
theorem Shows.told (shows : Shows seats id v heard st) (msg : Text) :
    Shows seats id v more (st.1.told msg, more) :=
  shows.next (seats_told msg st.1) ((pipeView_congr (seats_told msg st.1) rfl).trans shows.view) rfl

theorem found_spec {user : ShmUser} (found : server.users a = some user)
    {fail : Abort × Proc → Prop} :
    Sat (server.user a k)
      (fun r => r.1 = user ∧ r.2.users = server.users ∧ r.2.fifos = server.fifos) fail := by
  rw [user_ok found]
  exact ⟨rfl, rfl, rfl⟩

/-- The end of a read: the FIFO goes, and everybody is told. -/
theorem announceRead_done (shows : Shows seats id v heard st) (granted : v.readable id a = true)
    (users : new.users = st.1.users) (fifos : new.fifos = st.1.fifos) (msg : Text) (fd : Fd)
    {fail : Abort × Proc → Prop} :
    Sat (do
      let server ← broadcastMessage msg k { new with
        fifos := fun s r => new.fifos s r && !(s == a && r == id) }
      let (fd, k) := k.dup fd
      .ok ((⟨fd, none⟩ : Pipe), k, server, heard ++ Mailboxes.formatted msg))
      (fun r => Shows seats id (v.afterRead id a) (heard ++ Mailboxes.formatted msg) r.2.2) fail := by
  have seated : new.seats = st.1.seats := by
    funext i
    rw [ShmServer.seats, users]
    rfl
  have less : pipeView { new with fifos := fun s r => new.fifos s r && !(s == a && r == id) } =
      v.afterRead id a := by
    rw [← shows.view] at granted ⊢
    refine pipeView_read seated granted ?_
    simp only [fifos]
  have moved : Shows seats id (v.afterRead id a) heard ({ new with
      fifos := fun s r => new.fifos s r && !(s == a && r == id) }, heard) := by
    apply shows.next _ less rfl
    exact seated
  rw [broadcastMessage_eq moved.table]
  exact moved.told msg

/-- `<a` tells about the read if it succeeds, and then also about the write to come. -/
theorem announceRead_spec (shows : Shows seats id v heard st) (positive : 0 < a) :
    Sat (announceRead id a p line b k st)
      (fun r => ReadSafe v id a b ∧ Shows seats id (v.afterRead id a) (heard ++
        if v.readable id a then Mailboxes.formatted (receivedMsg (v.name id) id (v.name a) a line ++
          (if b ≠ 0 then pipedMsg (v.name id) id (slotName seats b) b line else [])) else []) r.2.2)
      (fun stopped => stopped.1 = .undefined ∧ ¬ ReadSafe v id a b) := by
  obtain ⟨server, text⟩ := st
  obtain rfl : text = heard := shows.text
  obtain rfl : server.pipeView = v := shows.view
  unfold announceRead
  refine Sat.bind ((handleUserPipe_view shows.table shows.here positive .rdonly k).mono
    (fun _ looked => looked) ?_) ?_
  · intro stopped failed
    exact ⟨failed.1, fun safe => safe.1 failed.2⟩
  · rintro ⟨userExist, pipeExist, k, new⟩ ⟨inside, exist, waits, same, fifos⟩
    dsimp only at exist waits same fifos ⊢
    have view : new.pipeView = server.pipeView := pipeView_congr same fifos
    have still : Shows seats id server.pipeView text (new, text) := shows.next same view rfl
    cases userExist with
    | false =>
        have refused : server.pipeView.readable id a = false := by simp [PipeView.readable, ← exist]
        simp only [refused, PipeView.afterRead_refused refused]
        refine ⟨⟨inside, fun granted => ?_⟩, shows.next same view (List.append_nil _).symm⟩
        rw [refused] at granted
        cases granted
    | true =>
        have waits := waits rfl
        cases pipeExist with
        | false =>
            have refused : server.pipeView.readable id a = false := by
              simp [PipeView.readable, ← waits]
            simp only [refused, PipeView.afterRead_refused refused]
            refine ⟨⟨inside, fun granted => ?_⟩, shows.next same view (List.append_nil _).symm⟩
            rw [refused] at granted
            cases granted
        | true =>
            have granted : server.pipeView.readable id a = true := by
              simp [PipeView.readable, positive, ← exist, ← waits]
            obtain ⟨sender, found, isOn, name⟩ := still.known exist.symm
            obtain ⟨receiver, found', isOn', name'⟩ := still.known still.me
            obtain ⟨i, position⟩ := still.table.index (k := k) ⟨sender, found, isOn⟩
            simp only [granted, if_true]
            refine Sat.bind (found_spec found) ?_
            rintro ⟨_, new₁⟩ ⟨rfl, users, fifos⟩
            refine Sat.bind (found_spec (by rw [users]; exact found')) ?_
            rintro ⟨_, new₂⟩ ⟨rfl, users', fifos'⟩
            show Sat (index a k >>= _) _ _
            rw [position, name, name']
            by_cases none : b = 0
            · have safe : ReadSafe server.pipeView id a b := ⟨inside, fun _ some => absurd none some⟩
              simp only [none, ne_eq, not_true_eq_false, if_false, List.append_nil]
              exact (announceRead_done still granted (users'.trans users) (fifos'.trans fifos) _ _).mono
                (fun _ after => ⟨none ▸ safe, after⟩) fun _ failed => failed
            · simp only [none, ne_eq, not_false_eq_true, if_true]
              have users : new₂.users = new.users := users'.trans users
              cases target : new₂.users b with
              | none =>
                  have outside : ¬ (1 ≤ b ∧ b < maxConn) := by
                    rw [← still.table b, ← users, target]
                    simp
                  rw [user, target]
                  exact ⟨rfl, fun safe => outside (safe.2 granted none)⟩
              | some other =>
                  have there : 1 ≤ b ∧ b < maxConn := by
                    rw [← still.table b, ← users, target]
                    simp
                  have called : slotName seats b = other.name := by
                    rw [slotName, ← still.seats, seats_found (users ▸ target)]
                    rfl
                  show Sat (user b k new₂ >>= _) _ _
                  refine Sat.bind (found_spec target) ?_
                  rintro ⟨_, new₃⟩ ⟨rfl, users'', fifos''⟩
                  rw [called]
                  exact (announceRead_done still granted (users''.trans users)
                    (fifos''.trans (fifos'.trans fifos)) _ _).mono
                    (fun _ after => ⟨⟨inside, fun _ _ => there⟩, after⟩) fun _ failed => failed

/-- `>b` tells about the write only if the line has no read. -/
theorem announceWrite_spec (shows : Shows seats id v heard st) (positive : 0 < b) :
    Sat (announceWrite id b p line a k st)
      (fun r => b ≠ maxConn ∧ Shows seats id (v.afterWrite id b) (heard ++
        if v.writable id b && decide (a = 0) then
          Mailboxes.formatted (pipedMsg (v.name id) id (v.name b) b line) else []) r.2.2)
      (fun stopped => stopped.1 = .undefined ∧ b = maxConn) := by
  obtain ⟨server, text⟩ := st
  obtain rfl : text = heard := shows.text
  obtain rfl : server.pipeView = v := shows.view
  unfold announceWrite
  refine Sat.bind (handleUserPipe_view shows.table shows.here positive .wronly k) ?_
  rintro ⟨userExist, pipeExist, k, new⟩ ⟨inside, exist, waits, same, view⟩
  dsimp only at exist waits same view ⊢
  have still : Shows seats id (server.pipeView.afterWrite id b) text (new, text) :=
    shows.next same view rfl
  refine Sat.mono (?_ : Sat _ (fun r => Shows seats id (server.pipeView.afterWrite id b) _ r.2.2) _)
    (fun _ after => ⟨inside, after⟩) fun _ failed => failed
  cases userExist with
  | false =>
      have refused : server.pipeView.writable id b = false := by simp [PipeView.writable, ← exist]
      rw [refused]
      exact shows.next same view (List.append_nil _).symm
  | true =>
      have waits := waits rfl
      cases pipeExist with
      | true =>
          have refused : server.pipeView.writable id b = false := by simp [PipeView.writable, ← waits]
          rw [refused]
          exact shows.next same view (List.append_nil _).symm
      | false =>
          have granted : server.pipeView.writable id b = true := by
            simp [PipeView.writable, positive, ← exist, ← waits]
          obtain ⟨sender, found, isOn, name⟩ := still.known still.me
          obtain ⟨receiver, found', isOn', name'⟩ := still.known exist.symm
          obtain ⟨i, position⟩ := still.table.index (k := k) ⟨sender, found, isOn⟩
          refine Sat.bind (found_spec found) ?_
          rintro ⟨_, new₁⟩ ⟨rfl, users, fifos⟩
          refine Sat.bind (found_spec (by rw [users]; exact found')) ?_
          rintro ⟨_, new₂⟩ ⟨rfl, users', fifos'⟩
          show Sat (index id k >>= _) _ _
          rw [position, name, name', granted]
          have users : new₂.users = new.users := users'.trans users
          have seated : new₂.seats = new.seats := by
            funext i
            rw [ShmServer.seats, users]
            rfl
          have last : Shows seats id (server.pipeView.afterWrite id b) text (new₂, text) :=
            still.next seated ((pipeView_congr seated (fifos'.trans fifos)).trans view) rfl
          by_cases alone : a = 0
          · simp only [alone, ne_eq, not_true_eq_false, if_false, decide_true, Bool.and_self, if_true]
            rw [broadcastMessage_eq last.table]
            exact last.told _
          · simp only [alone, ne_eq, not_false_eq_true, if_true, decide_false, Bool.and_false]
            exact last.next rfl last.view (List.append_nil _).symm

end Calls

end ShmServer

namespace NpCommandLine

/-- Every slot that the line looks up exists. -/
def Safe (cl : NpCommandLine) (v : PipeView) (id : Int) : Prop :=
  ShmServer.ReadSafe v id cl.readUid cl.writeUid ∧ (cl.asksWrite = true → cl.writeUid ≠ maxConn)

/-- What is announced with `CONFIG_SHM`: a successful read speaks for the write as well, and a write
speaks for itself only if there is no read. -/
def shmText (cl : NpCommandLine) (seats : Int → Option (Text × Bool)) (v : PipeView) (id : Int)
    (line : Text) : Text :=
  (if cl.reads v id then Mailboxes.formatted (cl.receivedText v id line ++
    (if cl.writeUid ≠ 0 then
      pipedMsg (v.name id) id (ShmServer.slotName seats cl.writeUid) cl.writeUid line else []))
    else []) ++
    (if cl.writes v id && decide (cl.readUid = 0) then
      Mailboxes.formatted (cl.pipedText v id line) else [])

/-- The read succeeds and the write does not, and what is said about the write falls off the end of the
buffer: the announcement of the read fills it. -/
structure CutOff (cl : NpCommandLine) (v : PipeView) (id : Int) (line : Text) : Prop where
  reads : cl.reads v id = true
  refused : cl.writes v id = false
  target : 1 ≤ cl.writeUid ∧ cl.writeUid < maxConn
  full : '\x00' ∉ cl.receivedText v id line ∧
    (cl.receivedText v id line).length + 1 = userMsgLen

/-- A line is announced rightly.  If it has a read, the write succeeds if and only if the read does and
the line names a receiver, and all that there is to say fits into the buffer; or the wrong part is cut
off.  The id 31 is not used. -/
def Matched (cl : NpCommandLine) (v : PipeView) (id : Int) (line : Text) : Prop :=
  cl.readUid ≠ maxConn ∧ (cl.asksWrite = true → cl.writeUid ≠ maxConn) ∧
    ((cl.readUid = 0 ∨ cl.writes v id = (cl.reads v id && decide (cl.writeUid ≠ 0))) ∧
      Mailboxes.Fits (cl.truth v id line) ∨ cl.CutOff v id line)

end NpCommandLine

namespace ShmServer

section Lines

variable {seats : Int → Option (Text × Bool)} {id : Int} {v : PipeView} {heard line : Text}
  {cl : NpCommandLine}

theorem runCommandLine_announces (shape : Shape cl.npCommands) {s : ShellState (ShmServer × Text)}
    (shows : Shows seats id v heard s.server) :
    Sat (s.runCommandLine (announceCalls id) line cl)
      (fun r => cl.Safe v id ∧
        Shows seats id (cl.after v id) (heard ++ cl.shmText seats v id line) r.server)
      (fun stopped => stopped.1 = .exitFailure ∨ ¬ cl.Safe v id) := by
  refine (ShellState.runCommandLine_calls (P := Shows seats id v heard)
    (Q := fun called st => ReadSafe v id cl.readUid cl.writeUid ∧
      (called = true → cl.writeUid ≠ maxConn) ∧ Shows seats id
      (if called then (v.afterRead id cl.readUid).afterWrite id cl.writeUid
        else v.afterRead id cl.readUid)
      (heard ++ ((if cl.reads v id then Mailboxes.formatted (cl.receivedText v id line ++
        (if cl.writeUid ≠ 0 then
          pipedMsg (v.name id) id (slotName seats cl.writeUid) cl.writeUid line else [])) else []) ++
        if called && (v.afterRead id cl.readUid).writable id cl.writeUid &&
          decide (cl.readUid = 0) then Mailboxes.formatted (cl.pipedText v id line) else [])) st)
    (fun _ => Or.inl rfl) shape ?_ ?_ ?_ shows).mono
      (fun r after => ⟨⟨after.1, after.2.1⟩, after.2.2⟩) (fun _ failed => failed)
  · intro none server before
    have refused : v.readable id cl.readUid = false := by simp [PipeView.readable, none]
    refine ⟨⟨?_, ?_⟩, fun never => Bool.noConfusion never, ?_⟩
    · simp only [maxConn]
      omega
    · intro granted
      rw [refused] at granted
      cases granted
    · simpa [NpCommandLine.reads, refused, PipeView.afterRead_refused refused] using before
  · intro positive p k server before
    show Sat (announceRead id cl.readUid p line cl.writeUid k server) _ _
    refine (announceRead_spec before positive).mono (fun r after => ?_)
      (fun _ failed => Or.inr fun safe => failed.2 safe.1)
    refine ⟨after.1, fun never => Bool.noConfusion never, ?_⟩
    simp only [Bool.false_eq_true, if_false, Bool.false_and, List.append_nil]
    exact after.2
  · intro positive member called p k server before
    have asks : cl.asksWrite = true := decide_eq_true ⟨positive, member⟩
    show Sat (announceWrite id cl.writeUid p line cl.readUid k server) _ _
    refine (announceWrite_spec before.2.2 positive).mono (fun r after => ?_)
      (fun _ failed => Or.inr fun safe => safe.2 asks failed.2)
    refine ⟨before.1, fun _ => after.1, ?_⟩
    cases called with
    | false => simpa [NpCommandLine.pipedText, List.append_assoc] using after.2
    | true =>
        simpa [PipeView.afterWrite_twice, PipeView.writable_afterWrite] using after.2

/-- What is seen is in the slots, and only slots in the table are seen. -/
theorem Shows.slots {st : ShmServer × Text} (shows : Shows seats id v heard st) {i : Int}
    (known : (v.names i).isSome = true) : slotName seats i = v.name i ∧ 1 ≤ i ∧ i < maxConn := by
  obtain ⟨user, found, on, name⟩ := shows.known known
  constructor
  · rw [slotName, ← shows.seats, seats_found found]
    exact name
  · exact shows.table.inside ⟨user, found, on⟩

/-- An announcement begins with a star. -/
theorem pipedMsg_star (sender : Text) (id : Int) (receiver : Text) (b : Int) (line : Text) :
    ∃ rest, pipedMsg sender id receiver b line = '*' :: rest := ⟨_, rfl⟩

/-- A line that is announced rightly looks up no slot that does not exist. -/
theorem Shows.safe {st : ShmServer × Text} (shows : Shows seats id v heard st)
    (matched : cl.Matched v id line) : cl.Safe v id := by
  obtain ⟨readInside, writeInside, agree⟩ := matched
  refine ⟨⟨readInside, fun granted some => ?_⟩, writeInside⟩
  have reads : cl.reads v id = true := granted
  rcases agree with ⟨none | agree, -⟩ | cut
  · simp [PipeView.readable, none] at granted
  · rw [reads, Bool.true_and, decide_eq_true some] at agree
    simp only [NpCommandLine.writes, PipeView.writable, Bool.and_eq_true] at agree
    exact (shows.slots agree.2.1.2).2
  · exact cut.target

/-- The two announcements of a line are the same text exactly for a matched line. -/
theorem Shows.text_iff {st : ShmServer × Text} (shows : Shows seats id v heard st)
    (safe : cl.Safe v id) :
    cl.shmText seats v id line = cl.truth v id line ↔ cl.Matched v id line := by
  have matched : cl.Matched v id line ↔
      (cl.readUid = 0 ∨ cl.writes v id = (cl.reads v id && decide (cl.writeUid ≠ 0))) ∧
        Mailboxes.Fits (cl.truth v id line) ∨ cl.CutOff v id line :=
    ⟨fun h => h.2.2, fun h => ⟨safe.1.1, safe.2, h⟩⟩
  have named : cl.writes v id = true →
      pipedMsg (v.name id) id (slotName seats cl.writeUid) cl.writeUid line =
        cl.pipedText v id line ∧ cl.writeUid ≠ 0 := by
    intro written
    simp only [NpCommandLine.writes, PipeView.writable, Bool.and_eq_true, decide_eq_true_eq] at written
    rw [(shows.slots written.2.1.2).1]
    exact ⟨rfl, written.2.1.1.ne'⟩
  have nothing : Mailboxes.Fits [] := ⟨List.not_mem_nil, by decide⟩
  rw [matched]
  unfold NpCommandLine.shmText NpCommandLine.truth
  cases reads : cl.reads v id with
  | false =>
      have uncut : ¬ cl.CutOff v id line := fun cut => by cases reads.symm.trans cut.reads
      cases written : cl.writes v id with
      | false => simp [nothing, uncut]
      | true =>
          by_cases none : cl.readUid = 0
          · simp [none, uncut, Mailboxes.formatted_eq_iff]
          · obtain ⟨rest, told⟩ : ∃ rest, cl.pipedText v id line = '*' :: rest := pipedMsg_star ..
            simp [none, uncut, told]
  | true =>
      have some : cl.readUid ≠ 0 := by
        intro none
        simp [NpCommandLine.reads, PipeView.readable, none] at reads
      cases written : cl.writes v id with
      | true =>
          obtain ⟨same, somebody⟩ := named written
          have uncut : ¬ cl.CutOff v id line := fun cut => by cases written.symm.trans cut.refused
          simp [some, somebody, same, uncut, Mailboxes.formatted_eq_iff]
      | false =>
          by_cases nobody : cl.writeUid = 0
          · have uncut : ¬ cl.CutOff v id line := fun cut => by
              have target := cut.target
              omega
            simp [nobody, uncut, Mailboxes.formatted_eq_iff]
          · obtain ⟨rest, told⟩ := pipedMsg_star (v.name id) id (slotName seats cl.writeUid)
              cl.writeUid line
            have target := safe.1.2 reads nobody
            have cut : cl.CutOff v id line ↔ '\x00' ∉ cl.receivedText v id line ∧
                (cl.receivedText v id line).length + 1 = userMsgLen :=
              ⟨NpCommandLine.CutOff.full, fun full => ⟨reads, written, target, full⟩⟩
            have star : '*' ≠ '\x00' := by decide
            simp [some, nobody, told, cut, Mailboxes.formatted_append_iff star]

end Lines

end ShmServer

/-- The broadcasts for every command line of an input line: in both builds the line gets through, and
the read and the write are announced once each if they succeed. -/
def Truthful (id : Int) (line : Text) : List NpCommandLine → ShellState (ChatServer × Text) →
    ShellState (ShmServer × Text) → Prop
  | [], _, _ => True
  | cl :: queue, s, t =>
      Sat (s.runCommandLine (ChatServer.announceCalls id) line cl)
        (fun s' => Sat (t.runCommandLine (ShmServer.announceCalls id) line cl)
          (fun t' =>
            s'.server.2 = s.server.2 ++ cl.truth s.server.1.pipeView id line ∧
            t'.server.2 = t.server.2 ++ cl.truth t.server.1.pipeView id line ∧
            Truthful id line queue s' t')
          fun _ => False)
        fun _ => False

/-- Every command line is matched when it is run. -/
def AllMatched (id : Int) (line : Text) : List NpCommandLine → PipeView → Prop
  | [], _ => True
  | cl :: queue, v => cl.Matched v id line ∧ AllMatched id line queue (cl.after v id)

/-- A run that does not stop because there are no descriptors left. -/
def Enough {σ : Type} (run : Outcome (ShellState σ)) : Prop := ∀ k, run ≠ .error (.exitFailure, k)

theorem truthful_iff {id : Int} {line : Text} {queue : List NpCommandLine}
    (shapes : ∀ cl ∈ queue, Shape cl.npCommands) {s : ShellState (ChatServer × Text)}
    {t : ShellState (ShmServer × Text)} {v : PipeView} {seats : Int → Option (Text × Bool)}
    {heard heard' : Text} (plain : ChatServer.Shows id v heard s.server)
    (shm : ShmServer.Shows seats id v heard' t.server)
    (enough : Enough (s.runQueue (ChatServer.announceCalls id) line queue))
    (enough' : Enough (t.runQueue (ShmServer.announceCalls id) line queue)) :
    Truthful id line queue s t ↔ AllMatched id line queue v := by
  induction queue generalizing s t v heard heard' with
  | nil => exact Iff.rfl
  | cons cl queue ih =>
      have shape := shapes cl List.mem_cons_self
      have rest : ∀ cl ∈ queue, Shape cl.npCommands := fun cl member =>
        shapes cl (List.mem_cons_of_mem _ member)
      have first : Sat (s.runCommandLine (ChatServer.announceCalls id) line cl) _ _ :=
        ChatServer.runCommandLine_announces shape plain
      have second : Sat (t.runCommandLine (ShmServer.announceCalls id) line cl) _ _ :=
        ShmServer.runCommandLine_announces shape shm
      rw [Truthful, AllMatched]
      rw [ShellState.runQueue] at enough enough'
      cases ran : s.runCommandLine (ChatServer.announceCalls id) line cl with
      | error stopped =>
          rw [ran] at enough first
          obtain ⟨reason, k⟩ := stopped
          obtain rfl : reason = .exitFailure := first
          exact absurd rfl (enough k)
      | ok s' =>
          rw [ran] at enough first
          cases ran' : t.runCommandLine (ShmServer.announceCalls id) line cl with
          | error stopped =>
              rw [ran'] at enough' second
              obtain ⟨reason, k⟩ := stopped
              rcases second with rfl | unsafely
              · exact absurd rfl (enough' k)
              · exact iff_of_false (fun never => never) fun both => unsafely (shm.safe both.1)
          | ok t' =>
              rw [ran'] at enough' second
              obtain ⟨safe, shm'⟩ := second
              rw [Sat.ok_iff, Sat.ok_iff, first.text, shm'.text, plain.view, shm.view, plain.text,
                shm.text, List.append_cancel_left_eq, List.append_cancel_left_eq, shm.text_iff safe,
                ih rest first shm' enough enough']
              simp

/-- A run that records more stops for the same reason. -/
theorem Enough.of_map {σ τ : Type} {f : σ → τ} {run : Outcome (ShellState σ)}
    (enough : Enough (run.map (ShellState.mapServer f))) : Enough run := by
  rintro k rfl
  exact enough k rfl

/-- The broadcasts of a line are the same truth in both builds exactly as long as every command line
of it is matched. -/
theorem announcements_truthful_iff {id : Int} {line : Text} {s : ShellState (ChatServer × Text)}
    {t : ShellState (ShmServer × Text)} (present : s.server.1.Present id) (table : t.server.1.Table)
    (same : t.server.1.pipeView = s.server.1.pipeView)
    (enough : Enough ((s.mapServer Prod.fst).runQueue (ChatServer.userPipeCalls id) line
      (parseCommand line).2))
    (enough' : Enough ((t.mapServer Prod.fst).runQueue (ShmServer.userPipeCalls id) line
      (parseCommand line).2)) :
    Truthful id line (parseCommand line).2 s t ↔
      AllMatched id line (parseCommand line).2 s.server.1.pipeView := by
  rw [← ShellState.runQueue_map (ChatServer.announceCalls_erases id)] at enough
  rw [← ShellState.runQueue_map (ShmServer.announceCalls_erases id)] at enough'
  have here : t.server.1.Connected id := by
    by_contra away
    obtain ⟨user, found⟩ := present.here
    have unseen := ShmServer.pipeView_none away
    rw [same, ChatServer.pipeView_names found] at unseen
    cases unseen
  exact truthful_iff (fun cl member => parseCommand_shape member) ⟨present, rfl, rfl⟩
    ⟨table, here, rfl, same, rfl⟩ enough.of_map enough'.of_map

/-- User 1 alone, as `np_single_proc` has him, with a pipe to himself. -/
def aloneUser : UserInfo where
  handler := .init
  userPipes := Function.update (fun _ => .cleared) ⟨1, by decide⟩ ⟨some 7, some 8⟩
  port := 5001
  sock := 6
  pid := -1
  ip := "10.0.0.1".toList
  name := ChatServer.noName
  isConnected := true
  session := 1

def aloneServer : ChatServer :=
  (ChatServer.addUser 1 "10.0.0.1".toList 5001 6 (-1) (.start 1024 (fun _ => true) [])
    (.init (some 3) (some 4) (some 5))).2.setUser 1 aloneUser

/-- The same user in shared memory. -/
def aloneShm : ShmServer where
  users := fun i =>
    if 1 ≤ i ∧ i < maxConn then
      some (if i = 1 then { ShmUser.zeroed with isConnected := true, name := ChatServer.noName }
        else .zeroed)
    else none
  fifos := fun sender receiver => sender == 1 && receiver == 1
  touched := []

def aloneShell {σ : Type} (server : σ) : ShellState (σ × Text) :=
  ⟨.start 1024 (fun _ => true) [], .init, server, []⟩

theorem aloneServer_present : aloneServer.Present 1 := by
  have unknown : (ChatServer.init (some 3) (some 4) (some 5)).sockIDTable.find? 6 = none := rfl
  have seated := (Seated.init (some 3) (some 4) (some 5)).addUser unknown (by decide) 1
    "10.0.0.1".toList 5001 (-1) (.start 1024 (fun _ => true) [])
  have found : (ChatServer.addUser 1 "10.0.0.1".toList 5001 6 (-1) (.start 1024 (fun _ => true) [])
      (.init (some 3) (some 4) (some 5))).2.users.find? 1 =
        some { aloneUser with userPipes := fun _ => .cleared } := rfl
  exact ChatServer.Present.storeBox ⟨seated, _, found⟩ found ⟨1, by decide⟩ ⟨some 7, some 8⟩

theorem aloneShm_table : aloneShm.Table := by
  intro i
  simp only [aloneShm]
  split
  · rename_i inside
    exact iff_of_true (Option.some_ne_none _) inside
  · rename_i outside
    exact iff_of_false (fun there => there rfl) outside

theorem aloneServer_users (i : Int) :
    aloneServer.users.find? i = if i = 1 then some aloneUser else none := by
  rw [aloneServer, ChatServer.setUser, OrdMap.find?_insert]
  split
  · rfl
  · rename_i other
    exact (ChatServer.addUser_users i).trans (if_neg other)

theorem alone_same : aloneShm.pipeView = aloneServer.pipeView := by
  apply PipeView.ext
  · funext i
    simp only [ShmServer.pipeView, ShmServer.seats, aloneShm, ChatServer.pipeView, aloneServer_users]
    by_cases one : i = 1
    · subst one
      rfl
    · simp only [one, if_false]
      split
      · rfl
      · rfl
  · funext s r
    simp only [ShmServer.pipeView, ShmServer.seats, aloneShm, ChatServer.pipeView, aloneServer_users]
    by_cases one : r = 1
    · subst one
      by_cases self : s = 1
      · subst self
        rfl
      · cases other : pipeIndex s with
        | none => simp [beq_false_of_ne self]
        | some i =>
            have different : i ≠ ⟨1, by decide⟩ := by
              rintro rfl
              exact self (pipeIndex_iff.mp other)
            simp [beq_false_of_ne self, aloneUser, different, Pipe.empty, Pipe.cleared]
    · simp [one]

theorem Enough.of_ok {σ : Type} {run : Outcome (ShellState σ)} (ended : run.toBool = true) :
    Enough run := by
  rintro k rfl
  cases ended

theorem announcements_truthful_iff_read :
    Truthful 1 "cat <1".toList (parseCommand "cat <1".toList).2 (aloneShell aloneServer)
      (aloneShell aloneShm) := by
  apply (announcements_truthful_iff aloneServer_present aloneShm_table alone_same ?_ ?_).mpr
  · have parsed : (parseCommand "cat <1".toList).2 = [⟨[.exe ["cat".toList]], 1, 0⟩] := by
      decide +kernel
    rw [parsed]
    exact ⟨⟨by decide, by decide, Or.inl ⟨Or.inr (by decide +kernel), by decide +kernel,
      by decide +kernel⟩⟩, trivial⟩
  · exact .of_ok (by decide +kernel)
  · exact .of_ok (by decide +kernel)

/-- User 1 reads his own pipe, and writes to user 2, who is not there; the write is announced. -/
theorem refused_write_announced :
    aloneShm.pipeView = aloneServer.pipeView ∧
      ¬ Truthful 1 "cat <1 >2".toList (parseCommand "cat <1 >2".toList).2 (aloneShell aloneServer)
        (aloneShell aloneShm) := by
  refine ⟨alone_same, ?_⟩
  have parsed : (parseCommand "cat <1 >2".toList).2 =
      [⟨[.exe ["cat".toList], .userPipe], 1, 2⟩] := by decide +kernel
  have here : aloneShm.Connected 1 := ⟨_, rfl, rfl⟩
  intro truthful
  have matched := (truthful_iff (fun cl member => parseCommand_shape member)
    ⟨aloneServer_present, rfl, rfl⟩ ⟨aloneShm_table, here, rfl, alone_same, rfl⟩
    (.of_ok (by decide +kernel)) (.of_ok (by decide +kernel))).mp truthful
  rw [parsed] at matched
  rcases matched.1.2.2 with ⟨none | agree, -⟩ | cut
  · exact absurd none (by decide)
  · exact absurd agree (by decide +kernel)
  · exact absurd cut.full.2 (by decide +kernel)

end NetProg
