import NetProg.Lib.FinSum
import NetProg.Server.ChatServer
import NetProg.Shell.RunShellSpec

/-!
# What the user-pipe calls do

`Wrote` and `Received` say once, case by case, what `writeUserPipe` and `readUserPipe` can do.
`MailAgrees` ties the `userPipes` of all users to a part of the descriptor sum, and with it the
calls obey the rules that the shell loop asks of them.
-/

namespace NetProg

namespace ChatServer

variable {id : Int} {k : Proc} {server : ChatServer}

theorem user_spec (server : ChatServer) (id : Int) (k : Proc) :
    Sat (server.user id k) (fun user => server.users.find? id = some user)
      (fun stopped => stopped = (.undefined, k) ∧ server.users.find? id = none) := by
  unfold user
  cases found : server.users.find? id with
  | none => exact ⟨rfl, rfl⟩
  | some user => rfl

theorem index_spec (uid : Int) (k : Proc) :
    Sat (index uid k) (fun i => pipeIndex uid = some i)
      (fun stopped => stopped = (.undefined, k) ∧ pipeIndex uid = none) := by
  unfold index
  cases found : pipeIndex uid with
  | none => exact ⟨rfl, rfl⟩
  | some i => rfl

/-- A null pointer or an index outside `userPipes` is ahead. -/
def Misplaced (server : ChatServer) (id uid : Int) : Prop :=
  server.users.find? id = none ∨ pipeIndex id = none ∨
    ∃ user, server.users.find? uid = some user ∧ pipeIndex uid = none

/-- What `handleUserPipe` finds out. -/
inductive Looked (server : ChatServer) (id uid : Int) : Mode → Bool × Bool → Prop
  | absent (mode : Mode) (pipeExist : Bool)
      (missing : (maxConn : Int) < uid ∨ server.users.find? uid = none) :
      Looked server id uid mode (false, pipeExist)
  | writing (other : UserInfo) (i : Fin maxConn) (inside : uid ≤ maxConn)
      (found : server.users.find? uid = some other) (position : pipeIndex id = some i) :
      Looked server id uid .wronly (true, !(other.userPipes i).empty)
  | reading (other user : UserInfo) (i : Fin maxConn) (inside : uid ≤ maxConn)
      (sender : server.users.find? uid = some other)
      (found : server.users.find? id = some user) (position : pipeIndex uid = some i) :
      Looked server id uid .rdonly (true, !(user.userPipes i).empty)

theorem handleUserPipe_spec (server : ChatServer) (id uid : Int) (mode : Mode) (k : Proc) :
    Sat (server.handleUserPipe id uid mode k) (Looked server id uid mode)
      (fun stopped => stopped = (.undefined, k) ∧ server.Misplaced id uid) := by
  unfold handleUserPipe
  by_cases large : (maxConn : Int) < uid
  · simp only [if_pos large]
    exact .absent mode _ (Or.inl large)
  · simp only [if_neg large]
    cases found : server.users.find? uid with
    | none => exact .absent mode _ (Or.inr found)
    | some other =>
        cases mode with
        | wronly =>
            refine Sat.bind (Sat.mono (index_spec id k) (fun _ h => h)
              (fun _ h => ⟨h.1, Or.inr (Or.inl h.2)⟩)) ?_
            intro i position
            exact .writing other i (not_lt.mp large) found position
        | rdonly =>
            refine Sat.bind (Sat.mono (user_spec server id k) (fun _ h => h)
              (fun _ h => ⟨h.1, Or.inl h.2⟩)) ?_
            intro user here
            refine Sat.bind (Sat.mono (index_spec uid k) (fun _ h => h)
              (fun _ h => ⟨h.1, Or.inr (Or.inr ⟨other, found, h.2⟩)⟩)) ?_
            intro i position
            exact .reading other user i (not_lt.mp large) found here position

/-- The new pipe of a user pipe in the record of its receiver. -/
def storeBox (server : ChatServer) (uid : Int) (user : UserInfo) (i : Fin maxConn) (p : Pipe) :
    ChatServer :=
  server.setUser uid { user with userPipes := Function.update user.userPipes i p }

/-- What `writeUserPipe` can do: refuse with an error message, or create the pipe. -/
inductive Wrote (id uid : Int) (k : Proc) (server : ChatServer) : Pipe × Proc × ChatServer → Prop
  | absent (missing : (maxConn : Int) < uid ∨ server.users.find? uid = none) :
      Wrote id uid k server
        (⟨none, (handleUserPipeError id uid .wronly .userNotExist k).1⟩,
          (handleUserPipeError id uid .wronly .userNotExist k).2, server)
  | taken (receiver : UserInfo) (i : Fin maxConn) (inside : uid ≤ maxConn)
      (found : server.users.find? uid = some receiver) (position : pipeIndex id = some i)
      (full : receiver.userPipes i ≠ .cleared) :
      Wrote id uid k server
        (⟨none, (handleUserPipeError id uid .wronly .pipeErr k).1⟩,
          (handleUserPipeError id uid .wronly .pipeErr k).2, server)
  | created (receiver : UserInfo) (i : Fin maxConn) (inside : uid ≤ maxConn)
      (found : server.users.find? uid = some receiver) (position : pipeIndex id = some i)
      (free : receiver.userPipes i = .cleared) (first second : Nat) (k₁ : Proc)
      (opens : k₁.fds.opens =
        pipePart first second k.nextPipe (.userPipe k.serving receiver.session) + k.fds.opens)
      (steps : Proc.Steps k k₁ []) (k₂ : Proc) (sent : k₂.fds = k₁.fds)
      (announced : Proc.Steps k₁ k₂ []) (message : Text)
      (log : k₂.log = k.log ++
        (server.storeBox uid receiver i ⟨some first, some second⟩).users.entries.map
          (fun e => .send e.2.sock message)) :
      Wrote id uid k server
        (⟨none, (k₂.dup (some second)).1⟩, (k₂.dup (some second)).2,
          server.storeBox uid receiver i ⟨some first, some second⟩)

theorem broadcastMessage_steps (server : ChatServer) (msg : Text) (k : Proc) :
    Proc.Steps k (server.broadcastMessage msg k) [] := by
  refine ⟨rfl, rfl, rfl, Nat.le_refl _, _, rfl, ?_, ?_⟩
  · intro e member
    obtain ⟨entry, _, rfl⟩ := List.mem_map.mp member
    trivial
  · simp [forks, List.filterMap_map]

theorem writeUserPipe_spec (id uid : Int) (p : Pipe) (line : Text) (readUid : Int) (k : Proc)
    (server : ChatServer) :
    Sat (writeUserPipe id uid p line readUid k server) (Wrote id uid k server)
      (fun stopped => stopped.2 = k ∧
        (stopped.1 = .undefined ∧ server.Misplaced id uid ∨
          stopped.1 = .exitFailure ∧ k.limit ≤ k.fds.opens.card + 1)) := by
  unfold writeUserPipe
  refine Sat.bind (Sat.mono (handleUserPipe_spec server id uid .wronly k) (fun _ h => h) ?_) ?_
  · rintro stopped ⟨rfl, misplaced⟩
    exact ⟨rfl, Or.inl ⟨rfl, misplaced⟩⟩
  intro looked result
  cases result with
  | absent _ pipeExist missing => exact .absent missing
  | writing receiver i inside found position =>
      cases free : (receiver.userPipes i).empty with
      | false =>
          exact .taken receiver i inside found position (by
            rw [Ne, ← Pipe.empty_iff, free]
            simp)
      | true =>
          refine Sat.bind (Sat.mono (user_spec server id k) (fun _ h => h) ?_) ?_
          · rintro stopped ⟨rfl, unknown⟩
            exact ⟨rfl, Or.inl ⟨rfl, Or.inl unknown⟩⟩
          intro sender _
          refine Sat.bind (Sat.mono (user_spec server uid k) (fun _ h => h) ?_) ?_
          · rintro stopped ⟨rfl, unknown⟩
            cases found.symm.trans unknown
          intro receiver' found'
          cases found.symm.trans found'
          refine Sat.bind (Sat.mono (index_spec id k) (fun _ h => h) ?_) ?_
          · rintro stopped ⟨rfl, outside⟩
            cases position.symm.trans outside
          intro i' position'
          cases position.symm.trans position'
          refine Sat.bind (Sat.mono ((Pipe.create_held k _).and (Pipe.create_rest k _))
            (fun _ h => h) ?_) ?_
          · rintro stopped ⟨⟨rfl, full⟩, -⟩
            exact ⟨rfl, Or.inr ⟨rfl, full⟩⟩
          rintro ⟨made, k₁⟩ ⟨⟨first, second, rfl, opens, _, steps⟩, changed⟩
          have same : k₁ = { k with fds := k₁.fds, nextPipe := k.nextPipe + 1 } := changed
          have log : k₁.log = k.log := by rw [same]
          exact .created receiver i inside found position ((Pipe.empty_iff _).mp free) first second k₁
            opens steps _ rfl (broadcastMessage_steps _ _ k₁) _ (by rw [← log]; rfl)

/-- What `readUserPipe` can do: refuse with an error message, or hand over the read end. -/
inductive Received (id uid : Int) (k : Proc) (server : ChatServer) :
    Pipe × Proc × ChatServer → Prop
  | absent (missing : (maxConn : Int) < uid ∨ server.users.find? uid = none) :
      Received id uid k server
        (⟨(handleUserPipeError id uid .rdonly .userNotExist k).1, none⟩,
          (handleUserPipeError id uid .rdonly .userNotExist k).2, server)
  | nothing (other user : UserInfo) (i : Fin maxConn) (inside : uid ≤ maxConn)
      (sender : server.users.find? uid = some other)
      (found : server.users.find? id = some user) (position : pipeIndex uid = some i)
      (free : user.userPipes i = .cleared) :
      Received id uid k server
        (⟨(handleUserPipeError id uid .rdonly .pipeErr k).1, none⟩,
          (handleUserPipeError id uid .rdonly .pipeErr k).2, server)
  | taken (other user : UserInfo) (i : Fin maxConn) (inside : uid ≤ maxConn)
      (sender : server.users.find? uid = some other)
      (found : server.users.find? id = some user) (position : pipeIndex uid = some i)
      (full : user.userPipes i ≠ .cleared) (k₁ : Proc) (sent : k₁.fds = k.fds)
      (announced : Proc.Steps k k₁ []) (message : Text)
      (log : k₁.log = k.log ++ server.users.entries.map (fun e => .send e.2.sock message)) :
      Received id uid k server
        (⟨(k₁.dup (user.userPipes i).inFd).1, none⟩,
          (user.userPipes i).closePipe (k₁.dup (user.userPipes i).inFd).2,
          server.storeBox id user i .cleared)

theorem readUserPipe_spec (id uid : Int) (p : Pipe) (line : Text) (writeUid : Int) (k : Proc)
    (server : ChatServer) :
    Sat (readUserPipe id uid p line writeUid k server) (Received id uid k server)
      (fun stopped => stopped = (.undefined, k) ∧ server.Misplaced id uid) := by
  unfold readUserPipe
  refine Sat.bind (handleUserPipe_spec server id uid .rdonly k) ?_
  intro looked result
  cases result with
  | absent _ pipeExist missing => exact .absent missing
  | reading other user i inside sender found position =>
      cases free : (user.userPipes i).empty with
      | true => exact .nothing other user i inside sender found position ((Pipe.empty_iff _).mp free)
      | false =>
          have full : user.userPipes i ≠ .cleared := by
            rw [Ne, ← Pipe.empty_iff, free]
            simp
          refine Sat.bind (Sat.mono (user_spec server uid k) (fun _ h => h) ?_) ?_
          · rintro stopped ⟨rfl, unknown⟩
            cases sender.symm.trans unknown
          intro other' _
          refine Sat.bind (Sat.mono (user_spec server id k) (fun _ h => h) ?_) ?_
          · rintro stopped ⟨rfl, unknown⟩
            cases found.symm.trans unknown
          intro user' found'
          cases found.symm.trans found'
          refine Sat.bind (Sat.mono (index_spec uid k) (fun _ h => h) ?_) ?_
          · rintro stopped ⟨rfl, outside⟩
            cases position.symm.trans outside
          intro i' position'
          cases position.symm.trans position'
          exact .taken other user i inside sender found position full _ rfl
            (broadcastMessage_steps server _ k) _ rfl

end ChatServer

/-- A user pipe in the record of the connection `receiver`, with its part of the descriptor
sum. -/
inductive BoxAgrees (receiver : Nat) : Pipe → Held → Prop
  | empty : BoxAgrees receiver .cleared 0
  | full (first second pipe sender : Nat) :
      BoxAgrees receiver ⟨some first, some second⟩
        (pipePart first second pipe (.userPipe sender receiver))

/-- All user pipes together stand for one part of the descriptor sum. -/
def MailAgrees (server : ChatServer) (mail : Held) : Prop :=
  ∃ parts : Int → Fin maxConn → Held,
    (∀ uid user, server.users.find? uid = some user →
      ∀ i, BoxAgrees user.session (user.userPipes i) (parts uid i)) ∧
    mail = server.users.total (fun uid _ => ∑ i, parts uid i)

namespace BoxAgrees

variable {receiver : Nat} {p : Pipe} {part : Held}

theorem holds (h : BoxAgrees receiver p part) : p.Holds part := by
  cases h with
  | empty => exact Pipe.holds_cleared
  | full first second pipe sender => exact Pipe.holds_pipePart first second pipe _

theorem own (h : BoxAgrees receiver p part) : Own receiver part := by
  cases h with
  | empty => exact Own.zero receiver
  | full first second pipe sender =>
      intro entry member
      rcases Multiset.mem_add.mp member with member | member
      all_goals
        rw [Multiset.mem_singleton.mp member]
        exact Or.inr rfl

theorem part_zero (h : BoxAgrees receiver .cleared part) : part = 0 := by
  cases h
  rfl

end BoxAgrees

namespace MailAgrees

variable {server : ChatServer} {mail : Held}

/-- One user pipe can be taken out of the sum and replaced by another. -/
theorem storeBox (h : MailAgrees server mail) {uid : Int} {user : UserInfo}
    (found : server.users.find? uid = some user) (i : Fin maxConn) :
    ∃ part others, BoxAgrees user.session (user.userPipes i) part ∧ mail = part + others ∧
      ∀ p part', BoxAgrees user.session p part' →
        MailAgrees (server.storeBox uid user i p) (part' + others) := by
  obtain ⟨parts, boxes, rfl⟩ := h
  refine ⟨parts uid i, (∑ j ∈ Finset.univ.erase i, parts uid j) +
    (server.users.erase uid).total (fun uid _ => ∑ i, parts uid i), boxes uid user found i, ?_, ?_⟩
  · rw [OrdMap.total_split _ found, sum_split _ i, add_assoc]
  · intro p part' box
    refine ⟨Function.update parts uid (Function.update (parts uid) i part'), ?_, ?_⟩
    · intro uid' user' found' j
      simp only [ChatServer.storeBox, ChatServer.setUser, OrdMap.find?_insert] at found'
      by_cases same : uid' = uid
      · subst same
        rw [if_pos rfl] at found'
        cases found'
        rw [Function.update_self]
        by_cases here : j = i
        · subst here
          simpa using box
        · simpa [here] using boxes uid' user found j
      · rw [if_neg same] at found'
        rw [Function.update_of_ne same]
        exact boxes uid' user' found' j
    · simp only [ChatServer.storeBox, ChatServer.setUser, OrdMap.total_insert,
        Function.update_self, sum_update, add_assoc]
      congr 2
      refine OrdMap.total_congr ?_
      intro uid' user' found'
      have other : uid' ≠ uid := by
        rintro rfl
        simp at found'
      rw [Function.update_of_ne other]

end MailAgrees

/-- The members of a record that the user pipes do not touch. -/
def UserInfo.core (user : UserInfo) : CmdHandler × Nat × Nat :=
  (user.handler, user.sock, user.session)

/-- What a line of user `id` leaves as it was in the server; a user pipe that was not there before
comes from `id`. -/
structure ChatServer.Kept (id : Int) (old new : ChatServer) : Prop where
  sockIDTable : new.sockIDTable = old.sockIDTable
  serverIn : new.serverIn = old.serverIn
  serverOut : new.serverOut = old.serverOut
  serverErr : new.serverErr = old.serverErr
  users : ∀ uid, (new.users.find? uid).map UserInfo.core = (old.users.find? uid).map UserInfo.core
  boxes : ∀ uid user', new.users.find? uid = some user' → ∀ i, user'.userPipes i ≠ .cleared →
    pipeIndex id = some i ∨ ∃ user, old.users.find? uid = some user ∧ user.userPipes i ≠ .cleared

namespace ChatServer.Kept

variable {id : Int} {old new last : ChatServer}

theorem refl (id : Int) (server : ChatServer) : Kept id server server :=
  ⟨rfl, rfl, rfl, rfl, fun _ => rfl, fun _ user found _ full => Or.inr ⟨user, found, full⟩⟩

theorem trans (h : Kept id old new) (h' : Kept id new last) : Kept id old last where
  sockIDTable := h'.sockIDTable.trans h.sockIDTable
  serverIn := h'.serverIn.trans h.serverIn
  serverOut := h'.serverOut.trans h.serverOut
  serverErr := h'.serverErr.trans h.serverErr
  users uid := (h'.users uid).trans (h.users uid)
  boxes uid user' found i full := by
    rcases h'.boxes uid user' found i full with position | ⟨user, found, full⟩
    · exact Or.inl position
    · exact h.boxes uid user found i full

/-- The record of a user before and after. -/
theorem find (h : Kept id old new) {uid : Int} {user : UserInfo}
    (found : old.users.find? uid = some user) :
    ∃ user', new.users.find? uid = some user' ∧ user'.core = user.core := by
  have same := h.users uid
  rw [found, Option.map_some] at same
  exact Option.map_eq_some_iff.mp same

theorem find_back (h : Kept id old new) {uid : Int} {user' : UserInfo}
    (found : new.users.find? uid = some user') :
    ∃ user, old.users.find? uid = some user ∧ user'.core = user.core := by
  have same := (h.users uid).symm
  rw [found, Option.map_some] at same
  obtain ⟨user, found', equal⟩ := Option.map_eq_some_iff.mp same
  exact ⟨user, found', equal.symm⟩

theorem storeBox (server : ChatServer) {uid : Int} {user : UserInfo}
    (found : server.users.find? uid = some user) (i : Fin maxConn) (p : Pipe)
    (sender : p ≠ .cleared → pipeIndex id = some i) :
    Kept id server (server.storeBox uid user i p) := by
  refine ⟨rfl, rfl, rfl, rfl, ?_, ?_⟩
  · intro uid'
    simp only [ChatServer.storeBox, setUser, OrdMap.find?_insert]
    by_cases same : uid' = uid
    · subst same
      rw [if_pos rfl, found]
      rfl
    · rw [if_neg same]
  · intro uid' user' found' j full
    simp only [ChatServer.storeBox, setUser, OrdMap.find?_insert] at found'
    by_cases same : uid' = uid
    · subst same
      rw [if_pos rfl] at found'
      cases found'
      by_cases here : j = i
      · subst here
        simp only [Function.update_self] at full
        exact Or.inl (sender full)
      · simp only [Function.update_of_ne here] at full
        exact Or.inr ⟨user, found, full⟩
    · rw [if_neg same] at found'
      exact Or.inr ⟨user', found', full⟩

end ChatServer.Kept

namespace ChatServer

variable {id : Int} {server₀ : ChatServer}

/-- The refused calls open at most `/dev/null`. -/
theorem handleUserPipeError_held (id uid : Int) (mode : Mode) (err : UserPipeErr) (k : Proc) :
    ∃ part, HoldsFd (handleUserPipeError id uid mode err k).1 part ∧ Own k.serving part ∧
      (handleUserPipeError id uid mode err k).2.fds.opens = part + k.fds.opens ∧
      Proc.Steps k (handleUserPipeError id uid mode err k).2 [] := by
  obtain ⟨part, holds, own, opens, steps⟩ := Proc.openFile_held
    (k.logEvent (.cout (userPipeErrorMsg id uid mode err))) "/dev/null".toList
  exact ⟨part, holds, own, opens, (Proc.Steps.cout k _).trans steps⟩

/-- The server and the sum during a line of user `id` that began in `server₀`. -/
def Mail (id : Int) (server₀ server : ChatServer) (mail : Held) : Prop :=
  MailAgrees server mail ∧ server₀.Kept id server

/-- The user-pipe calls obey the rules of the shell loop. -/
theorem userPipeCalls_lawful {user₀ : UserInfo} (found₀ : server₀.users.find? id = some user₀) :
    (userPipeCalls id).Lawful True user₀.session (Mail id server₀) where
  read := by
    intro uid p line writeUid k server mail rest _ serving mailed split
    obtain ⟨agrees, kept⟩ := mailed
    refine Sat.mono (readUserPipe_spec id uid p line writeUid k server) ?_ ?_
    · intro result received
      cases received with
      | absent missing =>
          obtain ⟨part, holds, own, opens, steps⟩ :=
            handleUserPipeError_held id uid .rdonly .userNotExist k
          exact ⟨mail, part, ⟨agrees, kept⟩, Pipe.holds_in holds, serving ▸ own, by rw [opens, split],
            Nat.le_refl _, steps⟩
      | nothing other user i inside sender found position free =>
          obtain ⟨part, holds, own, opens, steps⟩ :=
            handleUserPipeError_held id uid .rdonly .pipeErr k
          exact ⟨mail, part, ⟨agrees, kept⟩, Pipe.holds_in holds, serving ▸ own, by rw [opens, split],
            Nat.le_refl _, steps⟩
      | taken other user i inside sender found position full k₁ sent announced message log =>
          obtain ⟨part, others, box, sum, store⟩ := agrees.storeBox found i
          obtain ⟨part', holds, own, opens, steps⟩ := Proc.dup_held k₁ (user.userPipes i).inFd
          have receiver : user.session = user₀.session := by
            obtain ⟨user', found', core⟩ := kept.find found₀
            cases found.symm.trans found'
            exact congrArg (fun c => c.2.2) core
          have opens' : (k₁.dup (user.userPipes i).inFd).2.fds.opens =
              part + (part' + (others + rest)) := by
            rw [opens, sent, split, sum]
            abel
          have ownBox : Own (k₁.dup (user.userPipes i).inFd).2.serving part := by
            rw [steps.serving, announced.serving, serving, ← receiver]
            exact box.own
          obtain ⟨closed, steps'⟩ := Pipe.closePipe_held opens' box.holds ownBox
          refine ⟨others, part', ⟨?_, kept.trans (.storeBox server found i _ (by simp))⟩,
            Pipe.holds_in holds, ?_, closed, ?_, (announced.trans steps).trans steps'⟩
          · simpa using store .cleared 0 .empty
          · rw [← serving, ← announced.serving]
            exact own
          · rw [sum, Multiset.card_add]
            exact Nat.le_add_left _ _
    · rintro stopped ⟨rfl, -⟩
      exact ⟨⟨[], .refl k⟩, Or.inl ⟨rfl, trivial⟩⟩
  write := by
    intro uid p line readUid k server mail rest _ serving mailed split
    obtain ⟨agrees, kept⟩ := mailed
    refine Sat.mono (writeUserPipe_spec id uid p line readUid k server) ?_ ?_
    · intro result wrote
      cases wrote with
      | absent missing =>
          obtain ⟨part, holds, own, opens, steps⟩ :=
            handleUserPipeError_held id uid .wronly .userNotExist k
          exact ⟨mail, part, ⟨agrees, kept⟩, Pipe.holds_out holds, serving ▸ own,
            by rw [opens, split], Nat.le_add_right _ _, steps⟩
      | taken receiver i inside found position full =>
          obtain ⟨part, holds, own, opens, steps⟩ :=
            handleUserPipeError_held id uid .wronly .pipeErr k
          exact ⟨mail, part, ⟨agrees, kept⟩, Pipe.holds_out holds, serving ▸ own,
            by rw [opens, split], Nat.le_add_right _ _, steps⟩
      | created receiver i inside found position free first second k₁ opens steps k₂ sent announced
          message log =>
          obtain ⟨part, others, box, sum, store⟩ := agrees.storeBox found i
          rw [free] at box
          have none := box.part_zero
          subst none
          obtain ⟨part', holds, own, opens', steps'⟩ := Proc.dup_held k₂ (some second)
          refine ⟨_, part', ⟨store _ _ (.full first second k.nextPipe k.serving),
            kept.trans (.storeBox server found i _ (fun _ => position))⟩, Pipe.holds_out holds, ?_,
            ?_, ?_, (steps.trans announced).trans steps'⟩
          · rw [← serving, ← steps.serving, ← announced.serving]
            exact own
          · rw [opens', sent, opens, split, sum]
            abel
          · rw [sum, zero_add, Multiset.card_add, Nat.add_comm]
            exact Nat.le_refl _
    · rintro ⟨reason, k'⟩ ⟨rfl, cause⟩
      exact ⟨⟨[], .refl k'⟩, cause.imp (fun undefined => ⟨undefined.1, trivial⟩) (fun full => full)⟩

end ChatServer

end NetProg
