import NetProg.Lib.Runs
import NetProg.Server.ShmServer
import NetProg.Server.UserPipes

/-!
# Which user ids index the tables

Both builds look users up under ids that a user typed, and `userPipes` under ids as well.  The
bound is written in different ways: `> MAX_CONN` lets the id 31 pass, and with `CONFIG_SHM` `Tell`
has no bound at all.  `Within` is what keeps every access inside.
-/

namespace NetProg

open ChatServer

/-- The calls that look up users, with their arguments. -/
inductive TableOp where
  | pipe (op : PipeOp)
  | tell (id uid : Int) (msg : Text)

namespace TableOp

def step (st : Proc × ChatServer) : TableOp → Outcome (Proc × ChatServer)
  | .pipe op => op.step st
  | .tell id uid msg => do
      let k ← st.2.tell id uid msg st.1
      .ok (k, st.2)

/-- A step that ends. -/
def next (st : Proc × ChatServer) (op : TableOp) : Option (Proc × ChatServer) :=
  (op.step st).toOption

/-- Users are connected when they act; a socket is registered once. -/
def Enabled (st : Proc × ChatServer) : TableOp → Prop
  | .pipe (.addUser _ _ _ sock _) => st.2.sockIDTable.find? sock = none
  | .pipe (.removeUser sock) => ∃ id, st.2.sockIDTable.find? sock = some id
  | .pipe (.writeUserPipe id _ _ _ _) => ∃ user, st.2.users.find? id = some user
  | .pipe (.readUserPipe id _ _ _ _) => ∃ user, st.2.users.find? id = some user
  | .tell id _ _ => ∃ user, st.2.users.find? id = some user

/-- The id that was typed. -/
def target : TableOp → Option Int
  | .pipe (.writeUserPipe _ writeUid _ _ _) => some writeUid
  | .pipe (.readUserPipe _ readUid _ _ _) => some readUid
  | .tell _ uid _ => some uid
  | _ => none

/-- Every record exists and every index is inside, and an id of nobody gives the error message and
changes nothing. -/
def IndexSafe (st : Proc × ChatServer) (op : TableOp) : Prop :=
  (∀ stopped, op.step st = .error stopped → stopped.1 ≠ .undefined) ∧
    ∀ uid, op.target = some uid → st.2.users.find? uid = none →
      ∃ k, op.step st = .ok (k, st.2) ∧ .cout (notExistMsg uid) ∈ k.log.drop st.1.log.length

/-- User 31 is not written to, not read from and does not write; a receiver above 31 is refused
whether or not he exists. -/
def Within (st : Proc × ChatServer) : TableOp → Prop
  | .pipe (.writeUserPipe id writeUid _ _ _) =>
      st.2.users.find? writeUid = none ∨ (maxConn : Int) < writeUid ∨ id < maxConn
  | .pipe (.readUserPipe _ readUid _ _ _) =>
      st.2.users.find? readUid = none ∨ readUid ≠ maxConn
  | _ => True

end TableOp

section Plain

variable {k : Proc} {server : ChatServer} {id uid : Int}

theorem pipeIndex_eq_none {uid : Int} (low : 1 ≤ uid) : pipeIndex uid = none ↔ maxConn ≤ uid := by
  unfold pipeIndex
  split
  · rename_i inside
    simp only [reduceCtorEq, false_iff, not_le]
    omega
  · rename_i outside
    simp only [true_iff]
    omega

theorem handleUserPipe_missing (missing : (maxConn : Int) < uid ∨ server.users.find? uid = none)
    (mode : Mode) : server.handleUserPipe id uid mode k = .ok (false, mode == .rdonly) := by
  unfold handleUserPipe
  by_cases large : (maxConn : Int) < uid
  · rw [if_pos large]
  · rw [if_neg large, missing.resolve_left large]

theorem handleUserPipe_write (inside : ¬ (maxConn : Int) < uid) {other : UserInfo}
    (found : server.users.find? uid = some other) :
    server.handleUserPipe id uid .wronly k = (do
      let i ← index id k
      .ok (true, !(other.userPipes i).empty)) := by
  rw [handleUserPipe]
  simp only [if_neg inside, found]

theorem handleUserPipe_read (inside : ¬ (maxConn : Int) < uid) {other user : UserInfo}
    (found : server.users.find? uid = some other) (here : server.users.find? id = some user) :
    server.handleUserPipe id uid .rdonly k = (do
      let i ← index uid k
      .ok (true, !(user.userPipes i).empty)) := by
  rw [handleUserPipe]
  simp only [if_neg inside, found, ChatServer.user, here]
  rfl

theorem index_outside (outside : pipeIndex uid = none) : index uid k = .error (.undefined, k) := by
  rw [index, outside]

theorem index_inside {i : Fin maxConn} (inside : pipeIndex uid = some i) : index uid k = .ok i := by
  rw [index, inside]

theorem user_found {user : UserInfo} (found : server.users.find? id = some user) :
    server.user id k = .ok user := by
  rw [ChatServer.user, found]

variable {p : Pipe} {line : Text} {other : Int}

theorem writeUserPipe_missing
    (missing : (maxConn : Int) < uid ∨ server.users.find? uid = none) :
    writeUserPipe id uid p line other k server = .ok
      (⟨none, (handleUserPipeError id uid .wronly .userNotExist k).1⟩,
        (handleUserPipeError id uid .wronly .userNotExist k).2, server) := by
  rw [writeUserPipe, handleUserPipe_missing missing]
  rfl

theorem readUserPipe_missing
    (missing : (maxConn : Int) < uid ∨ server.users.find? uid = none) :
    readUserPipe id uid p line other k server = .ok
      (⟨(handleUserPipeError id uid .rdonly .userNotExist k).1, none⟩,
        (handleUserPipeError id uid .rdonly .userNotExist k).2, server) := by
  rw [readUserPipe, handleUserPipe_missing missing]
  rfl

theorem writeUserPipe_outside (inside : ¬ (maxConn : Int) < uid) {receiver : UserInfo}
    (found : server.users.find? uid = some receiver) (outside : pipeIndex id = none) :
    writeUserPipe id uid p line other k server = .error (.undefined, k) := by
  rw [writeUserPipe, handleUserPipe_write inside found, index_outside outside]
  rfl

theorem readUserPipe_outside (inside : ¬ (maxConn : Int) < uid) {sender user : UserInfo}
    (found : server.users.find? uid = some sender) (here : server.users.find? id = some user)
    (outside : pipeIndex uid = none) :
    readUserPipe id uid p line other k server = .error (.undefined, k) := by
  rw [readUserPipe, handleUserPipe_read inside found here, index_outside outside]
  rfl

/-- A writer whose id is inside the array is not undefined. -/
theorem writeUserPipe_inside (inside : ¬ (maxConn : Int) < uid) {receiver user : UserInfo}
    (found : server.users.find? uid = some receiver) (here : server.users.find? id = some user)
    {i : Fin maxConn} (position : pipeIndex id = some i) :
    Sat (writeUserPipe id uid p line other k server) (fun _ => True)
      (fun stopped => stopped.1 ≠ .undefined) := by
  rw [writeUserPipe, handleUserPipe_write inside found, index_inside position]
  cases free : (receiver.userPipes i).empty with
  | false =>
      simp only [free, bind, Except.bind, Bool.not_false, Bool.not_true, Bool.false_eq_true,
        if_false]
      trivial
  | true =>
      simp only [free, user_found here, user_found found, bind, Except.bind, Bool.not_true,
        Bool.not_false, Bool.false_eq_true, if_false, if_true]
      cases made : Pipe.create k (.userPipe k.serving receiver.session) with
      | error stopped =>
          have failed := Sat.of_error (Pipe.create_held k _) made
          rw [failed.1]
          simp
      | ok result => trivial

/-- A reader whose sender's id is inside the array is not undefined. -/
theorem readUserPipe_inside (inside : ¬ (maxConn : Int) < uid) {sender user : UserInfo}
    (found : server.users.find? uid = some sender) (here : server.users.find? id = some user)
    {i : Fin maxConn} (position : pipeIndex uid = some i) :
    Sat (readUserPipe id uid p line other k server) (fun _ => True) (fun _ => False) := by
  rw [readUserPipe, handleUserPipe_read inside found here, index_inside position]
  cases free : (user.userPipes i).empty with
  | true =>
      simp only [free, bind, Except.bind, Bool.not_true, Bool.false_eq_true, if_false]
      trivial
  | false =>
      simp only [free, user_found here, user_found found, bind, Except.bind, Bool.not_true,
        Bool.not_false, Bool.false_eq_true, if_false, if_true]
      trivial

end Plain

namespace TableOp

section Plain

variable {st : Proc × ChatServer}

/-- An ending without an undefined access, for an id of somebody. -/
theorem indexSafe_known {op : TableOp} (known : ∀ uid, op.target = some uid →
    st.2.users.find? uid ≠ none) {p : Proc × ChatServer → Prop}
    (defined : Sat (op.step st) p (fun stopped => stopped.1 ≠ .undefined)) :
    op.IndexSafe st :=
  ⟨fun _ ended => defined.of_error ended, fun uid typed none => absurd none (known uid typed)⟩

/-- A refused call, for an id of nobody. -/
theorem indexSafe_refused {op : TableOp} {k : Proc} {uid : Int} (typed : op.target = some uid)
    (refused : op.step st = .ok (k, st.2))
    (told : .cout (notExistMsg uid) ∈ k.log.drop st.1.log.length) : op.IndexSafe st := by
  constructor
  · intro stopped ended
    rw [refused] at ended
    cases ended
  · intro uid' typed' none
    cases typed.symm.trans typed'
    exact ⟨k, refused, told⟩

theorem writeUserPipe_safe_iff (tidy : st.2.Tidy) {id : Int} {user : UserInfo}
    (here : st.2.users.find? id = some user) (writeUid : Int) (p : Pipe) (line : Text)
    (readUid : Int) :
    IndexSafe st (.pipe (.writeUserPipe id writeUid p line readUid)) ↔
      st.2.users.find? writeUid = none ∨ (maxConn : Int) < writeUid ∨ id < maxConn := by
  cases found : st.2.users.find? writeUid with
  | none =>
      refine iff_of_true ?_ (Or.inl rfl)
      refine indexSafe_refused rfl ?_ (handleUserPipeError_reported id writeUid .wronly .userNotExist st.1)
      simp only [step, PipeOp.step, writeUserPipe_missing (Or.inr found)]
      rfl
  | some receiver =>
      have known : ∀ uid, target (.pipe (.writeUserPipe id writeUid p line readUid)) = some uid →
          st.2.users.find? uid ≠ none := by
        intro uid typed
        cases typed
        rw [found]
        exact Option.some_ne_none _
      by_cases large : (maxConn : Int) < writeUid
      · refine iff_of_true (indexSafe_known (p := fun _ => True) known ?_) (Or.inr (Or.inl large))
        simp only [step, PipeOp.step, writeUserPipe_missing (Or.inl large)]
        trivial
      · cases position : pipeIndex id with
        | none =>
            have high := (pipeIndex_eq_none (tidy.positive id user here)).mp position
            refine iff_of_false (fun safe => ?_) (by simp [large, high])
            refine safe.1 (.undefined, st.1) ?_ rfl
            simp only [step, PipeOp.step, writeUserPipe_outside large found position]
            rfl
        | some i =>
            have low : id < maxConn := by
              by_contra high
              rw [(pipeIndex_eq_none (tidy.positive id user here)).mpr (not_lt.mp high)] at position
              cases position
            refine iff_of_true (indexSafe_known (p := fun _ => True) known ?_)
              (Or.inr (Or.inr low))
            simp only [step, PipeOp.step]
            exact Sat.bind (writeUserPipe_inside large found here position) (fun _ _ => trivial)

theorem readUserPipe_safe_iff (tidy : st.2.Tidy) {id : Int} {user : UserInfo}
    (here : st.2.users.find? id = some user) (readUid : Int) (p : Pipe) (line : Text)
    (writeUid : Int) :
    IndexSafe st (.pipe (.readUserPipe id readUid p line writeUid)) ↔
      st.2.users.find? readUid = none ∨ readUid ≠ maxConn := by
  cases found : st.2.users.find? readUid with
  | none =>
      refine iff_of_true ?_ (Or.inl rfl)
      refine indexSafe_refused rfl ?_ (handleUserPipeError_reported id readUid .rdonly .userNotExist st.1)
      simp only [step, PipeOp.step, readUserPipe_missing (Or.inr found)]
      rfl
  | some sender =>
      have known : ∀ uid, target (.pipe (.readUserPipe id readUid p line writeUid)) = some uid →
          st.2.users.find? uid ≠ none := by
        intro uid typed
        cases typed
        rw [found]
        exact Option.some_ne_none _
      by_cases large : (maxConn : Int) < readUid
      · refine iff_of_true (indexSafe_known (p := fun _ => True) known ?_)
          (Or.inr (ne_of_gt large))
        simp only [step, PipeOp.step, readUserPipe_missing (Or.inl large)]
        trivial
      · cases position : pipeIndex readUid with
        | none =>
            have high := (pipeIndex_eq_none (tidy.positive readUid sender found)).mp position
            refine iff_of_false (fun safe => ?_) (by simp only [reduceCtorEq, false_or]; omega)
            refine safe.1 (.undefined, st.1) ?_ rfl
            simp only [step, PipeOp.step, readUserPipe_outside large found here position]
            rfl
        | some i =>
            have low : readUid ≠ maxConn := by
              intro same
              rw [(pipeIndex_eq_none (tidy.positive readUid sender found)).mpr same.ge] at position
              cases position
            refine iff_of_true (indexSafe_known (p := fun _ => True) known ?_) (Or.inr low)
            simp only [step, PipeOp.step]
            refine Sat.bind (Sat.mono (readUserPipe_inside large found here position)
              (fun _ _ => trivial) (fun _ never => never.elim)) (fun _ _ => trivial)

/-- An operation is safe exactly when its ids are within the tables. -/
theorem safe_iff (tidy : st.2.Tidy) {op : TableOp} (enabled : op.Enabled st) :
    op.IndexSafe st ↔ op.Within st := by
  cases op with
  | tell id uid msg =>
      obtain ⟨user, here⟩ := enabled
      refine iff_of_true ?_ trivial
      cases found : st.2.users.find? uid with
      | none =>
          refine indexSafe_refused (k := st.1.logEvent (.cout (notExistMsg uid))) rfl ?_ ?_
          · simp only [step, ChatServer.tell, found]
            rfl
          · rw [Proc.logEvent, List.drop_left]
            exact List.mem_singleton_self _
      | some receiver =>
          refine indexSafe_known (p := fun _ => True) (fun uid' typed => ?_) ?_
          · cases typed
            rw [found]
            exact Option.some_ne_none _
          · simp only [step, ChatServer.tell, found, user_found here]
            trivial
  | pipe op =>
      cases op with
      | addUser session ip port sock pid =>
          refine iff_of_true (indexSafe_known (p := fun _ => True) ?_ trivial) trivial
          intro uid typed
          cases typed
      | removeUser sock =>
          obtain ⟨id, known⟩ := enabled
          obtain ⟨user, found, -⟩ := tidy.userOfSock sock id known
          obtain ⟨messages, -, removed⟩ := removeUser_spec (k := st.1) known found
          refine iff_of_true (indexSafe_known (p := fun _ => True) ?_ ?_) trivial
          · intro uid typed
            cases typed
          · simp only [step, PipeOp.step, removed]
            trivial
      | writeUserPipe id writeUid p line readUid =>
          obtain ⟨user, here⟩ := enabled
          exact writeUserPipe_safe_iff tidy here writeUid p line readUid
      | readUserPipe id readUid p line writeUid =>
          obtain ⟨user, here⟩ := enabled
          exact readUserPipe_safe_iff tidy here readUid p line writeUid

theorem tidy_next (tidy : st.2.Tidy) {op : TableOp} (enabled : op.Enabled st)
    {st' : Proc × ChatServer} (stepped : op.next st = some st') : st'.2.Tidy := by
  have ended : op.step st = .ok st' := by
    cases result : op.step st with
    | error stopped =>
        rw [next, result] at stepped
        cases stepped
    | ok st'' =>
        rw [next, result] at stepped
        cases stepped
        rfl
  cases op with
  | tell id uid msg =>
      obtain ⟨k, -, same⟩ := bind_eq_ok.mp ended
      cases same
      exact tidy
  | pipe op =>
      cases op with
      | addUser session ip port sock pid =>
          cases ended
          exact addUser_tidy tidy enabled
      | removeUser sock =>
          obtain ⟨id, known⟩ := enabled
          obtain ⟨user, found, own⟩ := tidy.userOfSock sock id known
          obtain ⟨messages, -, removed⟩ := removeUser_spec (k := st.1) known found
          cases removed.symm.trans ended
          exact dropUser_tidy tidy found own
      | writeUserPipe id writeUid p line readUid =>
          obtain ⟨⟨pipe, k, server⟩, wrote, same⟩ := bind_eq_ok.mp ended
          cases same
          cases Sat.of_ok (writeUserPipe_spec id writeUid p line readUid st.1 st.2) wrote with
          | absent missing => exact tidy
          | taken receiver i inside found position full => exact tidy
          | created receiver i inside found position free first second k₁ opens steps k₂ sent
              announced message log =>
              exact tidy.kept (.storeBox st.2 found i _ (fun _ => position))
      | readUserPipe id readUid p line writeUid =>
          obtain ⟨⟨pipe, k, server⟩, received, same⟩ := bind_eq_ok.mp ended
          cases same
          cases Sat.of_ok (readUserPipe_spec id readUid p line writeUid st.1 st.2) received with
          | absent missing => exact tidy
          | nothing other user i inside sender found position free => exact tidy
          | taken other user i inside sender found position full k₁ sent announced message log =>
              have kept : Kept id st.2 _ := .storeBox st.2 found i _ (fun full => absurd rfl full)
              exact tidy.kept kept

end Plain

end TableOp

/-- What all other code leaves as it is: who is connected, and on which socket. -/
structure SameUsers (old new : ChatServer) : Prop where
  socks : ∀ uid, (new.users.find? uid).map UserInfo.sock = (old.users.find? uid).map UserInfo.sock
  sockIDTable : new.sockIDTable = old.sockIDTable

theorem SameUsers.find {old new : ChatServer} (same : SameUsers old new) {uid : Int}
    {user : UserInfo} (found : old.users.find? uid = some user) :
    ∃ user', new.users.find? uid = some user' ∧ user'.sock = user.sock := by
  have socks := same.socks uid
  rw [found, Option.map_some, Option.map_eq_some_iff] at socks
  exact socks

theorem SameUsers.symm {old new : ChatServer} (same : SameUsers old new) : SameUsers new old :=
  ⟨fun uid => (same.socks uid).symm, same.sockIDTable.symm⟩

theorem ChatServer.Tidy.same {server new : ChatServer} (tidy : server.Tidy)
    (same : SameUsers server new) : new.Tidy := by
  refine ⟨?_, ?_, ?_⟩
  · intro uid user' found'
    obtain ⟨user, found, -⟩ := same.symm.find found'
    exact tidy.positive uid user found
  · intro fd uid known
    rw [same.sockIDTable] at known
    obtain ⟨user, found, own⟩ := tidy.userOfSock fd uid known
    obtain ⟨user', found', sock⟩ := same.find found
    exact ⟨user', found', sock.trans own⟩
  · intro uid user' found'
    obtain ⟨user, found, sock⟩ := same.symm.find found'
    rw [same.sockIDTable, ← sock]
    exact tidy.sockOfUser uid user found

/-- A record may be replaced by one with the same socket. -/
theorem ChatServer.Tidy.setUser {server : ChatServer} {id : Int} {user user' : UserInfo}
    (tidy : server.Tidy) (found : server.users.find? id = some user) (own : user'.sock = user.sock) :
    (server.setUser id user').Tidy := by
  refine tidy.same ⟨fun uid => ?_, rfl⟩
  rw [ChatServer.setUser, OrdMap.find?_insert]
  split
  · rename_i same
    rw [same, found, Option.map_some, Option.map_some, own]
  · rfl

/-- A call, or anything else that the server does. -/
inductive TableEvent where
  | call (op : TableOp)
  | other (st' : Proc × ChatServer)

namespace TableEvent

def next (st : Proc × ChatServer) : TableEvent → Option (Proc × ChatServer)
  | .call op => op.next st
  | .other st' => some st'

def Enabled (st : Proc × ChatServer) : TableEvent → Prop
  | .call op => op.Enabled st
  | .other st' => SameUsers st.2 st'.2

/-- The tables of `np_single_proc` are tidy at any time. -/
theorem reached_tidy {k : Proc} {serverIn serverOut serverErr : Fd} {st : Proc × ChatServer}
    (reached : Reached next Enabled (k, .init serverIn serverOut serverErr) st) : st.2.Tidy := by
  refine reached.invariant (p := fun st => st.2.Tidy) ?_ ?_
  · exact (Seated.init serverIn serverOut serverErr).tidy
  · intro st st' event tidy enabled stepped
    cases event with
    | call op => exact TableOp.tidy_next tidy enabled stepped
    | other st'' =>
        cases stepped
        exact tidy.same enabled

end TableEvent

end NetProg
